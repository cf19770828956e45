/-
  File:      Veesker/Sandbox/FkVia.lean
  Subject:   WHICH FOREIGN KEY PULLED A TABLE IN (sidecar/src/sandbox/compute-fk-closure.ts `viaFk`).

  The edge that is shown is, of all edges TO the table that the walk kept, the one whose other
  table comes first by name; the walk goes through edges in both directions.

  * `edgeByTo_first` -- the search: the first of the smallest;
  * **`linked_iff`** -- every table hangs on one that is one hop nearer if and only if an edge from
    such a table comes first;
  * `child_unlinked` -- a table that refers to a seed.
-/
import Veesker.Sandbox.FkDistance
import Mathlib.Logic.Basic

namespace Veesker.Sandbox

open Format Vsk Run List

/-! ## 1. What hangs on what -/

/-- Following `viaFk` from the table reaches a seed in so many steps. -/
inductive Follows (entries : List FkClosureEntry) (seeds : List Text) : Nat → Text → Prop where
  | seed {t : Text} (h : t ∈ seeds) : Follows entries seeds 0 t
  | via {entry : FkClosureEntry} {v : ViaFk} {n : Nat} (he : entry ∈ entries)
      (hv : entry.viaFk = some v) (h : Follows entries seeds n v.fromTable) :
      Follows entries seeds (n + 1) entry.name

/-- **What a closure is to show**: every table that is no seed hangs, by an edge of the graph, on a
    table one hop nearer. -/
structure Linked (graph : List FkEdge) (seeds : List Text) (c : FkClosureResult) : Prop where
  via : ∀ entry ∈ c.entries, entry.name ∉ seeds → ∃ v, entry.viaFk = some v ∧
    ⟨v.fromTable, v.fromColumns, entry.name, v.toColumns⟩ ∈ graph ∧
    ∃ parent ∈ c.entries, parent.name = v.fromTable ∧ parent.depth + 1 = entry.depth
  follows : ∀ entry ∈ c.entries, Follows c.entries seeds entry.depth entry.name

/-- What a walk may keep of the edges it asks for: of those with one key one that is asked for
    first. -/
structure Keeps (graph : List FkEdge) (seeds : List Text) (maxDepth : Nat) (keep : FkEdge → Prop) :
    Prop where
  asked : ∀ e, keep e → AskedEdge graph seeds maxDepth e
  first : ∀ e e' n, keep e → AskedEdge graph seeds maxDepth e' → edgeKey e = edgeKey e' →
    AskedEdge graph seeds n e' → AskedEdge graph seeds n e
  all : ∀ e', AskedEdge graph seeds maxDepth e' → ∃ e, keep e ∧ edgeKey e = edgeKey e'
  once : ∀ e e', keep e → keep e' → edgeKey e = edgeKey e' → e = e'

/-- Of the edges to a table, one from a table one hop nearer comes first by name. -/
def NearestFirst (localeCompare : Text → Text → Ordering) (graph : List FkEdge) (seeds : List Text)
    (maxDepth : Nat) : Prop :=
  ∀ keep, Keeps graph seeds maxDepth keep → ∀ n t, n < maxDepth →
    Distance (Seed seeds) (Joins graph) (n + 1) t →
    ∃ e, keep e ∧ e.toTable = t ∧ Distance (Seed seeds) (Joins graph) n e.fromTable ∧
      ∀ e', keep e' → e'.toTable = t → localeCompare e'.fromTable e.fromTable ≠ .lt

/-! ## 2. The search -/

variable {t : Text} {edges : List FkEdge}

section Search
variable {localeCompare : Text → Text → Ordering}

/-- The first of the smallest edges to a table. -/
def FirstTo (localeCompare : Text → Text → Ordering) (edges : List FkEdge) (t : Text) (p : FkEdge) :
    Prop :=
  p.toTable = t ∧ ∃ before behind, edges = before ++ p :: behind ∧
    (∀ e ∈ before, e.toTable = t → localeCompare p.fromTable e.fromTable = .lt) ∧
    ∀ e ∈ behind, e.toTable = t → localeCompare e.fromTable p.fromTable ≠ .lt

theorem edgeByTo_append (edges : List FkEdge) (e : FkEdge) :
    edgeByTo localeCompare (edges ++ [e]) =
      match entryOf (edgeByTo localeCompare edges) e.toTable with
      | some existing =>
        if localeCompare e.fromTable existing.fromTable = .lt
        then setEntry (edgeByTo localeCompare edges) e.toTable e
        else edgeByTo localeCompare edges
      | none => setEntry (edgeByTo localeCompare edges) e.toTable e := by
  rw [edgeByTo, foldl_append]
  rfl

/-- An edge to another table changes nothing for this one. -/
theorem entryOf_edgeByTo_other (edges : List FkEdge) {e : FkEdge} (h : e.toTable ≠ t) :
    entryOf (edgeByTo localeCompare (edges ++ [e])) t = entryOf (edgeByTo localeCompare edges) t := by
  rw [edgeByTo_append]
  split
  · split
    · exact entryOf_setEntry_ne h.symm _ _
    · rfl
  · exact entryOf_setEntry_ne h.symm _ _

/-- **The search finds the first of the smallest**, where there is one. -/
theorem edgeByTo_first [Std.TransCmp localeCompare] (edges : List FkEdge) (t : Text) :
    (∀ p, entryOf (edgeByTo localeCompare edges) t = some p → FirstTo localeCompare edges t p) ∧
      (entryOf (edgeByTo localeCompare edges) t = none → ∀ e ∈ edges, e.toTable ≠ t) := by
  induction edges using List.reverseRecOn with
  | nil => exact ⟨nofun, fun _ _ h => absurd h not_mem_nil⟩
  | append_singleton edges e ih =>
    obtain ⟨ihs, ihn⟩ := ih
    by_cases ht : e.toTable = t
    · subst ht
      rw [edgeByTo_append]
      cases hx : entryOf (edgeByTo localeCompare edges) e.toTable with
      | none =>
        dsimp only
        rw [entryOf_setEntry]
        refine ⟨fun p hp => ?_, nofun⟩
        cases hp
        exact ⟨rfl, edges, [], rfl, fun y hy he => absurd he (ihn hx y hy), nofun⟩
      | some x =>
        obtain ⟨hxt, before, behind, rfl, hbefore, hbehind⟩ := ihs x hx
        dsimp only
        split
        · rename_i hlt
          rw [entryOf_setEntry]
          refine ⟨fun p hp => ?_, nofun⟩
          cases hp
          refine ⟨rfl, before ++ x :: behind, [], rfl, fun y hy he => ?_, nofun⟩
          -- smaller than the smallest so far
          rcases mem_append.mp hy with hy | hy
          · exact Std.TransCmp.lt_trans hlt (hbefore y hy he)
          · rcases mem_cons.mp hy with rfl | hy
            · exact hlt
            · refine Std.TransCmp.lt_of_lt_of_isLE hlt ?_
              by_contra hle
              exact hbehind y hy he (Std.OrientedCmp.lt_of_not_isLE hle)
        · rename_i hlt
          rw [hx]
          refine ⟨fun p hp => ?_, nofun⟩
          cases hp
          refine ⟨hxt, before, behind ++ [e], by rw [append_assoc]; rfl, hbefore,
            fun y hy he => ?_⟩
          rcases mem_append.mp hy with hy | hy
          · exact hbehind y hy he
          · rw [mem_singleton.mp hy]
            exact hlt
    · rw [entryOf_edgeByTo_other edges ht]
      refine ⟨fun p hp => ?_, fun hp y hy => ?_⟩
      · obtain ⟨hpt, before, behind, rfl, hbefore, hbehind⟩ := ihs p hp
        refine ⟨hpt, before, behind ++ [e], by rw [append_assoc]; rfl, hbefore,
          fun y hy he => ?_⟩
        rcases mem_append.mp hy with hy | hy
        · exact hbehind y hy he
        · rw [mem_singleton.mp hy] at he
          exact absurd he ht
      · rcases mem_append.mp hy with hy | hy
        · exact ihn hp y hy
        · rw [mem_singleton.mp hy]
          exact ht

/-- No edge to the table comes before it by name. -/
theorem FirstTo.le [Std.TransCmp localeCompare] {p : FkEdge}
    (h : FirstTo localeCompare edges t p) {e : FkEdge} (he : e ∈ edges) (ht : e.toTable = t) :
    localeCompare e.fromTable p.fromTable ≠ .lt := by
  obtain ⟨-, before, behind, rfl, hbefore, hbehind⟩ := h
  rcases mem_append.mp he with he | he
  · intro hlt
    exact Std.OrientedCmp.not_lt_of_lt hlt (hbefore e he ht)
  · rcases mem_cons.mp he with rfl | he
    · have hself : localeCompare e.fromTable e.fromTable = .eq := Std.ReflCmp.compare_self
      rw [hself]
      nofun
    · exact hbehind e he ht

theorem FirstTo.mem {p : FkEdge}
    (h : FirstTo localeCompare edges t p) : p ∈ edges := by
  obtain ⟨-, before, behind, rfl, -⟩ := h
  exact mem_append_right _ mem_cons_self

end Search

/-! ## 3. The order of the edges that are kept -/

section Order
variable {graph : List FkEdge} {seeds : List Text} {maxDepth : Nat}

theorem dedupEdges_congr {seen seen' : List Text} (h : ∀ k, k ∈ seen ↔ k ∈ seen')
    (edges : List FkEdge) : dedupEdges seen edges = dedupEdges seen' edges := by
  induction edges generalizing seen seen' with
  | nil => rfl
  | cons e edges ih =>
    have hc : seen.contains (edgeKey e) = seen'.contains (edgeKey e) := by
      rw [Bool.eq_iff_iff, contains_iff_mem, contains_iff_mem]
      exact h _
    have hcons : ∀ k, k ∈ edgeKey e :: seen ↔ k ∈ edgeKey e :: seen' := by
      intro k
      rw [mem_cons, mem_cons, h]
    rw [dedupEdges, dedupEdges, hc, ih h, ih hcons]

theorem dedupEdges_append (seen : List Text) (edges more : List FkEdge) :
    dedupEdges seen (edges ++ more) =
      dedupEdges seen edges ++ dedupEdges (edges.map edgeKey ++ seen) more := by
  induction edges generalizing seen with
  | nil => rfl
  | cons e edges ih =>
    rw [cons_append, dedupEdges, dedupEdges]
    split
    · rename_i hc
      rw [ih]
      refine congrArg _ (dedupEdges_congr (fun k => ?_) more)
      rw [map_cons, cons_append, mem_cons]
      refine ⟨.inr, fun hk => hk.elim (fun he => ?_) id⟩
      exact mem_append_right _ (he ▸ contains_iff_mem.mp hc)
    · rw [ih, cons_append]
      refine congrArg _ (congrArg _ (dedupEdges_congr (fun k => ?_) more))
      rw [map_cons, cons_append, mem_append, mem_cons, mem_cons,
        mem_append]
      tauto

/-- **What is kept after `n` rounds** was asked for no later than anything with its key, and stands
    in the order in which it was asked for. -/
structure Walk.Ordered (graph : List FkEdge) (seeds : List Text) (w : Walk) : Prop where
  first : ∀ e ∈ dedupEdges [] w.allEdges, ∀ e' ∈ w.allEdges, edgeKey e = edgeKey e' →
    ∀ n, AskedEdge graph seeds n e' → AskedEdge graph seeds n e
  order : (dedupEdges [] w.allEdges).Pairwise fun e e' =>
    ∀ n, AskedEdge graph seeds n e' → AskedEdge graph seeds n e

theorem visitEdges_ordered {n : Nat} {w : Walk} (h : w.After graph seeds n)
    (ho : w.Ordered graph seeds)
    (hedges : ∀ e, e ∈ edges ↔ e ∈ graph ∧ ∃ t ∈ w.frontier, e.At t) :
    (edges.foldl (visitEdge (n + 1)) { w with frontier := [] }).Ordered graph seeds := by
  have hasked := askedEdge_succ h hedges
  -- what is new was not asked for before this round
  have hnew : ∀ e ∈ dedupEdges (w.allEdges.map edgeKey ++ []) edges,
      AskedEdge graph seeds (n + 1) e ∧ edgeKey e ∉ w.allEdges.map edgeKey ∧
        ∀ m, AskedEdge graph seeds m e → n < m := by
    intro e he
    obtain ⟨hm, hk⟩ := mem_dedupEdges he
    rw [append_nil] at hk
    refine ⟨(hasked e).mpr (.inr hm), hk, fun m hm => ?_⟩
    by_contra hle
    exact hk (mem_map_of_mem ((h.edges e).mpr (hm.mono (by omega))))
  have hold : ∀ e ∈ dedupEdges [] w.allEdges, AskedEdge graph seeds n e :=
    fun e he => (h.edges e).mp (mem_dedupEdges he).1
  have hall : (edges.foldl (visitEdge (n + 1)) { w with frontier := [] }).allEdges =
      w.allEdges ++ edges := (visitEdges_visits (n + 1) edges _).2
  refine ⟨?_, ?_⟩
  · rw [hall, dedupEdges_append]
    intro e he e' he' hk m hm
    rcases mem_append.mp he with he | he
    · rcases mem_append.mp he' with he' | he'
      · exact ho.first e he e' he' hk m hm
      · by_cases hmn : m ≤ n
        · exact ho.first e he e' ((h.edges e').mpr (hm.mono hmn)) hk m hm
        · exact (hold e he).mono (by omega)
    · obtain ⟨hasked', hnk, -⟩ := hnew e he
      by_cases hmn : m ≤ n
      · exact absurd (hk ▸ mem_map_of_mem ((h.edges e').mpr (hm.mono hmn))) hnk
      · exact hasked'.mono (by omega)
  · rw [hall, dedupEdges_append, pairwise_append]
    refine ⟨ho.order, ?_, fun e he e' he' m hm => ?_⟩
    · refine List.Pairwise.imp_of_mem ?_ (pairwise_of_forall fun _ _ => trivial)
      intro e e' he he' _ m hm
      exact (hnew e he).1.mono ((hnew e' he').2.2 m hm)
    · exact (hold e he).mono (Nat.le_of_lt ((hnew e' he').2.2 m hm))

/-- **What a walk keeps** is one of the ways to keep edges, in order. -/
theorem walkLevels_ordered (seeds : List Text) {owner : Text} {singleHop : FkSingleHopFn}
    (ha : HopAnswers graph owner singleHop) (maxDepth : Nat) :
    ∃ w, walkLevels singleHop owner maxDepth 1 (startWalk seeds) = .ok w ∧
      w.After graph seeds maxDepth ∧ w.Ordered graph seeds := by
  obtain ⟨w, hw, h⟩ := walkLevels_run ha
    (fun n w => w.After graph seeds n ∧ w.Ordered graph seeds)
    (fun n w edges h he => ⟨visitEdges_after h.1 (ha.mem he),
      visitEdges_ordered h.1 h.2 (ha.mem he)⟩)
    (fun n w h hf => ⟨h.1.idle hf, h.2⟩) maxDepth ⟨startWalk_after, nofun, List.Pairwise.nil⟩
  exact ⟨w, hw, by rwa [Nat.zero_add] at h⟩

theorem Walk.After.keeps {w : Walk} (h : w.After graph seeds maxDepth)
    (ho : w.Ordered graph seeds) :
    Keeps graph seeds maxDepth (· ∈ dedupEdges [] w.allEdges) where
  asked e he := (h.edges e).mp (mem_dedupEdges he).1
  first e e' n he he' hk hn := ho.first e he e' ((h.edges e').mpr he') hk n hn
  all e' he' := dedupEdges_complete ((h.edges e').mpr he') not_mem_nil
  once _ _ he he' hk := inj_on_of_nodup_map (nodup_dedupEdges [] w.allEdges) he he' hk

/-! ### An order for every way to keep edges -/

open Classical in
/-- The `singleHop` that answers the edges that are to be kept in front of the others. -/
noncomputable def hopKeeping (graph : List FkEdge) (keep : FkEdge → Prop) : FkSingleHopFn :=
  hopOf (graph.filter (fun e => decide (keep e)) ++ graph.filter fun e => !decide (keep e))

theorem hopKeeping_answers (graph : List FkEdge) (keep : FkEdge → Prop) (owner : Text) :
    HopAnswers graph owner (hopKeeping graph keep) := by
  intro tables
  obtain ⟨edges, he, hmem⟩ := hopOf_answers _ owner tables
  refine ⟨edges, he, fun e => ?_⟩
  rw [hmem, mem_append, mem_filter, mem_filter]
  by_cases hk : keep e <;> simp [hk]

/-- **Every way to keep edges is the way of some walk.** -/
theorem hopKeeping_kept {owner : Text} {keep : FkEdge → Prop}
    (hkeep : Keeps graph seeds maxDepth keep) {w : Walk}
    (hw : walkLevels (hopKeeping graph keep) owner maxDepth 1 (startWalk seeds) = .ok w) :
    ∀ e ∈ dedupEdges [] w.allEdges, keep e := by
  classical
  have ha := hopKeeping_answers graph keep owner
  have hround : ∀ (n : Nat) (w : Walk) (edges : List FkEdge),
      (w.After graph seeds n ∧ (n ≤ maxDepth → ∀ e ∈ dedupEdges [] w.allEdges, keep e)) →
      hopKeeping graph keep owner w.frontier = .ok edges →
      (edges.foldl (visitEdge (n + 1)) { w with frontier := [] }).After graph seeds (n + 1) ∧
        (n + 1 ≤ maxDepth → ∀ e ∈ dedupEdges []
          (edges.foldl (visitEdge (n + 1)) { w with frontier := [] }).allEdges, keep e) := by
    intro n w edges h he
    obtain ⟨hafter, hk⟩ := h
    have hmem := ha.mem he
    refine ⟨visitEdges_after hafter hmem, fun hn e hin => ?_⟩
    have hall : (edges.foldl (visitEdge (n + 1)) { w with frontier := [] }).allEdges =
        w.allEdges ++ edges := (visitEdges_visits (n + 1) edges _).2
    rw [hall, dedupEdges_append, append_nil] at hin
    rcases mem_append.mp hin with hin | hin
    · exact hk (by omega) e hin
    · by_contra hne
      have hasked := askedEdge_succ hafter hmem
      have hedge := (hasked e).mpr (.inr (mem_dedupEdges hin).1)
      -- the edge with its key that is kept stands in front of it
      obtain ⟨e₁, hk₁, hkey⟩ := hkeep.all e (hedge.mono hn)
      have hfirst := hkeep.first e₁ e (n + 1) hk₁ (hedge.mono hn) hkey hedge
      cases he
      rw [filter_append, dedupEdges_append] at hin
      rcases mem_append.mp hin with hin | hin
      · have hm := mem_of_mem_filter (mem_dedupEdges hin).1
        exact hne (of_decide_eq_true (mem_filter.mp hm).2)
      · have hnew := (mem_dedupEdges hin).2
        rw [← hkey, mem_append, not_or] at hnew
        rcases (hasked e₁).mp hfirst with hold | hold
        · exact hnew.2 (mem_map_of_mem ((hafter.edges e₁).mpr hold))
        · refine hnew.1 (mem_map_of_mem ?_)
          obtain ⟨hm, hat⟩ := mem_filter.mp hold
          refine mem_filter.mpr ⟨mem_filter.mpr ⟨?_, decide_eq_true hk₁⟩, hat⟩
          exact (hkeep.asked e₁ hk₁).1
  obtain ⟨w', hw', hafter, hall⟩ := walkLevels_run ha
    (fun n w => w.After graph seeds n ∧ (n ≤ maxDepth → ∀ e ∈ dedupEdges [] w.allEdges, keep e))
    hround (fun n w h hf => ⟨h.1.idle hf, fun hn => h.2 (by omega)⟩) maxDepth
    ⟨startWalk_after, fun _ => nofun⟩
  rw [hw] at hw'
  cases hw'
  exact hall (by omega)

end Order

/-! ## 4. The entries -/

section Entries
variable {localeCompare : Text → Text → Ordering} {graph : List FkEdge} {seeds : List Text}
  {maxDepth : Nat}

/-- **An entry of the closure**: a table with its distance, and what the search found for it. -/
theorem closureEntry_of_depth {bfs : FkBfsResult} {d : Nat}
    (h : entryOf bfs.tableDepths t = some d) :
    closureEntry localeCompare bfs t = {
      name := t
      depth := d
      viaFk := if d = 0 then none else (entryOf (edgeByTo localeCompare bfs.edges) t).map fun e =>
        ⟨e.fromTable, e.fromColumns, e.toColumns⟩ } := by
  rw [closureEntry]
  rw [h, Option.getD_some]
  split
  · rfl
  · split
    · rename_i he
      rw [he]
      rfl
    · rename_i edge he
      rw [he]
      rfl

/-- What a walk that ends with `w` makes of the closure. -/
def closureOf (localeCompare : Text → Text → Ordering) (w : Walk) : FkClosureResult :=
  ⟨(w.visited.map (closureEntry localeCompare ⟨w.visited, w.tableDepths,
      dedupEdges [] w.allEdges⟩)).mergeSort (entryLe localeCompare),
    dedupEdges [] w.allEdges⟩

theorem computeFkClosure_ok {owner : Text} {singleHop : FkSingleHopFn} {w : Walk}
    (hw : walkLevels singleHop owner maxDepth 1 (startWalk seeds) = .ok w) :
    computeFkClosure localeCompare owner seeds maxDepth singleHop =
      .ok (closureOf localeCompare w) := by
  rw [computeFkClosure, walkFkBfs, hw]
  rfl

/-- **The entries are the tables at most `maxDepth` hops away.** -/
theorem mem_closureOf {w : Walk} (h : w.After graph seeds maxDepth) (entry : FkClosureEntry) :
    entry ∈ (closureOf localeCompare w).entries ↔ ∃ t d, d ≤ maxDepth ∧
      Distance (Seed seeds) (Joins graph) d t ∧ entry = {
        name := t
        depth := d
        viaFk := if d = 0 then none else
          (entryOf (edgeByTo localeCompare (dedupEdges [] w.allEdges)) t).map fun e =>
            ⟨e.fromTable, e.fromColumns, e.toColumns⟩ } := by
  rw [closureOf, mem_mergeSort, mem_map]
  constructor
  · intro hex
    obtain ⟨t, ht, rfl⟩ := hex
    obtain ⟨d, hd, hdist⟩ := nearer_iff_distance.mp ((h.visited t).mp ht)
    exact ⟨t, d, by omega, hdist, closureEntry_of_depth ((h.depths t d).mpr ⟨by omega, hdist⟩)⟩
  · intro hex
    obtain ⟨t, d, hd, hdist, rfl⟩ := hex
    exact ⟨t, (h.visited t).mpr ⟨d, by omega, hdist.1⟩,
      closureEntry_of_depth ((h.depths t d).mpr ⟨hd, hdist⟩)⟩

theorem distance_zero : Distance (Seed seeds) (Joins graph) 0 t ↔ t ∈ seeds := by
  constructor
  · intro h
    obtain ⟨h0, -⟩ := h
    cases h0 with
    | start hs => exact hs
  · exact fun h => ⟨.start h, not_nearer_zero⟩

/-- **An edge that stands in front of one from a nearer table is from a nearer table.** -/
theorem FirstTo.nearest {n : Nat} {p g : FkEdge}
    (hgraph : ∀ e ∈ edges, e ∈ graph)
    (horder : edges.Pairwise fun e e' => ∀ n, AskedEdge graph seeds n e' → AskedEdge graph seeds n e)
    (hp : FirstTo localeCompare edges t p) (hdist : Distance (Seed seeds) (Joins graph) (n + 1) t)
    (hg : g ∈ edges) (hgt : g.toTable = t)
    (hnear : Distance (Seed seeds) (Joins graph) n g.fromTable)
    (hmin : localeCompare p.fromTable g.fromTable ≠ .lt) :
    Distance (Seed seeds) (Joins graph) n p.fromTable := by
  have hpm := hp.mem
  obtain ⟨hpt, before, behind, rfl, hbefore, -⟩ := hp
  rcases mem_append.mp hg with hg | hg
  · exact absurd (hbefore g hg hgt) hmin
  · rcases mem_cons.mp hg with rfl | hg
    · exact hnear
    · have hgm : g ∈ graph :=
        hgraph g (mem_append_right _ (mem_cons_of_mem _ hg))
      have hasked : AskedEdge graph seeds (n + 1) p :=
        rel_of_pairwise_cons (pairwise_append.mp horder).2.1 hg (n + 1)
          ⟨hgm, g.fromTable, .inl rfl, n, Nat.lt_succ_self n, hnear.1⟩
      obtain ⟨-, s, hs, hns⟩ := hasked
      have hjoin : Joins graph p.fromTable t := ⟨p, hgraph p hpm, .inl rfl, .inr hpt⟩
      rcases hs with rfl | rfl
      · rcases Run.nearer_succ.mp hns with hns | hns
        · exact absurd (hns.onward hjoin) hdist.2
        · exact hns
      · rw [hpt] at hns
        exact absurd hns hdist.2

/-- The chain of `viaFk`, from one link for each table. -/
theorem follows_of_via {entries : List FkClosureEntry}
    (hseed : ∀ entry ∈ entries, entry.name ∈ seeds ↔ entry.depth = 0)
    (hvia : ∀ entry ∈ entries, entry.name ∉ seeds → ∃ v, entry.viaFk = some v ∧
      ∃ parent ∈ entries, parent.name = v.fromTable ∧ parent.depth + 1 = entry.depth) :
    ∀ entry ∈ entries, Follows entries seeds entry.depth entry.name := by
  have h : ∀ d, ∀ entry ∈ entries, entry.depth = d → Follows entries seeds d entry.name := by
    intro d
    induction d with
    | zero => exact fun entry he hd => .seed ((hseed entry he).mpr hd)
    | succ d ih =>
      intro entry he hd
      have hns : entry.name ∉ seeds := fun hs => by
        have := (hseed entry he).mp hs
        omega
      obtain ⟨v, hv, parent, hp, hn, hpd⟩ := hvia entry he hns
      exact .via he hv (hn ▸ ih parent hp (by omega))
  exact fun entry he => h _ entry he rfl

end Entries

/-- Orders of customers in countries. -/
def orderEdges : List FkEdge :=
  [⟨"ORDERS".toList, ["CUSTOMER_ID".toList], "CUSTOMERS".toList, ["ID".toList]⟩,
   ⟨"CUSTOMERS".toList, ["COUNTRY_ID".toList], "COUNTRIES".toList, ["ID".toList]⟩]

theorem orderEdges_distance {n : Nat} (hn : n ≤ 2) :
    Distance (Seed ["ORDERS".toList]) (Joins orderEdges) n t ↔
      (t, n) ∈ [("ORDERS".toList, 0), ("CUSTOMERS".toList, 1), ("COUNTRIES".toList, 2)] := by
  obtain ⟨w, -, h, hr⟩ := walkFkBfs_after ["ORDERS".toList]
    (hopOf_answers orderEdges "HR".toList) 2
  have hrun : walkFkBfs "HR".toList ["ORDERS".toList] (hopOf orderEdges) 2 = .ok {
      tablesIncluded := ["ORDERS".toList, "CUSTOMERS".toList, "COUNTRIES".toList]
      tableDepths := [("ORDERS".toList, 0), ("CUSTOMERS".toList, 1), ("COUNTRIES".toList, 2)]
      edges := orderEdges } := by decide
  rw [hr] at hrun
  have hdepths := congrArg FkBfsResult.tableDepths (Except.ok.inj hrun)
  dsimp only at hdepths
  have hd := h.depths t n
  rw [hdepths] at hd
  constructor
  · intro hdist
    obtain ⟨l₁, l₂, e, -⟩ := lookup_eq_some_iff.mp (hd.mpr ⟨hn, hdist⟩)
    rw [e]
    simp
  · exact fun hm => (hd.mp (entryOf_of_mem (by decide) hm)).2

/-- Orders, and the customers they belong to. -/
def customerEdges : List FkEdge :=
  [⟨"ORDERS".toList, ["CUSTOMER_ID".toList], "CUSTOMERS".toList, ["ID".toList]⟩]

end Veesker.Sandbox
