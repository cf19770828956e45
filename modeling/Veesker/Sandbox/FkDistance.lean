/-
  File:      Veesker/Sandbox/FkDistance.lean
  Subject:   THE DISTANCES OF THE FOREIGN-KEY WALK (sidecar/src/sandbox/fk-walk.ts `walkFkBfs`): the
             tables and depths it returns, against those of the graph.

  * `walkLevels_after` -- after `n` rounds: the tables at most `n` hops away, each with its
    distance, and the edges at tables that are nearer;
  * **`exactWalk_iff`** -- the walk is exact if and only if different edges that it reads have
    different keys;
  * `joined_names` -- two edges with one key.
-/
import Veesker.Run.Hops
import Veesker.Sandbox.FkWalk

namespace Veesker.Sandbox

open Format Vsk Run List

/-! ## 1. The graph -/

/-- The edge has the table on one of its sides. -/
def FkEdge.At (e : FkEdge) (t : Text) : Prop := e.fromTable = t ∨ e.toTable = t

section Graph

-- the edges there are, and the tables of the start
variable (graph : List FkEdge) (seeds : List Text)

/-- A foreign key joins the tables, in either direction. -/
def Joins (a b : Text) : Prop := ∃ e ∈ graph, e.At a ∧ e.At b

def Seed (t : Text) : Prop := t ∈ seeds

/-- An edge that the first `n` rounds ask for. -/
def AskedEdge (n : Nat) (e : FkEdge) : Prop :=
  e ∈ graph ∧ ∃ t, e.At t ∧ Nearer (Seed seeds) (Joins graph) n t

/-- What `singleHop` answers: the edges at one of the tables. -/
def HopAnswers (owner : Text) (singleHop : FkSingleHopFn) : Prop :=
  ∀ tables, ∃ edges, singleHop owner tables = .ok edges ∧
    ∀ e, e ∈ edges ↔ e ∈ graph ∧ ∃ t ∈ tables, e.At t

/-- **What a walk is to return**: the tables at distance at most `maxDepth`, each with its distance,
    and the edges at those that are nearer. -/
structure ExactWalk (maxDepth : Nat) (r : FkBfsResult) : Prop where
  tables_once : r.tablesIncluded.Nodup
  tables : ∀ t, t ∈ r.tablesIncluded ↔ ∃ n ≤ maxDepth, Distance (Seed seeds) (Joins graph) n t
  depths : ∀ t n, entryOf r.tableDepths t = some n ↔
    n ≤ maxDepth ∧ Distance (Seed seeds) (Joins graph) n t
  edges_once : r.edges.Nodup
  edges : ∀ e, e ∈ r.edges ↔
    e ∈ graph ∧ ∃ t, e.At t ∧ ∃ n < maxDepth, Distance (Seed seeds) (Joins graph) n t

end Graph

variable {graph : List FkEdge} {seeds : List Text}

theorem AskedEdge.mono {m n : Nat} {e : FkEdge} (h : AskedEdge graph seeds m e) (hmn : m ≤ n) :
    AskedEdge graph seeds n e := by
  obtain ⟨he, t, ht, hnear⟩ := h
  exact ⟨he, t, ht, hnear.mono hmn⟩

/-! ## 2. One round -/

/-- What visiting the tables with `P` makes of a walk. -/
structure Visits (depth : Nat) (P : Text → Prop) (w w' : Walk) : Prop where
  visited : ∀ t, t ∈ w'.visited ↔ t ∈ w.visited ∨ P t
  frontier : ∀ t, t ∈ w'.frontier ↔ t ∈ w.frontier ∨ (t ∉ w.visited ∧ P t)
  fresh : ∀ t, t ∉ w.visited → P t → entryOf w'.tableDepths t = some depth
  kept : ∀ t, t ∈ w.visited ∨ ¬ P t → entryOf w'.tableDepths t = entryOf w.tableDepths t

theorem Visits.trans {depth : Nat} {P Q : Text → Prop} {w w' w'' : Walk} (h : Visits depth P w w')
    (h' : Visits depth Q w' w'') : Visits depth (fun t => P t ∨ Q t) w w'' where
  visited t := by rw [h'.visited, h.visited, or_assoc]
  frontier t := by
    rw [h'.frontier, h.frontier, h.visited]
    tauto
  fresh t ht hpq := by
    by_cases hp : P t
    · rw [h'.kept t (.inl ((h.visited t).mpr (.inr hp))), h.fresh t ht hp]
    · exact h'.fresh t (fun hv => ((h.visited t).mp hv).elim ht hp) (hpq.resolve_left hp)
  kept t ht := by
    rw [h'.kept t, h.kept t]
    · tauto
    · rw [h.visited]
      tauto

theorem visitTable_visits (depth : Nat) (w : Walk) (t : Text) :
    Visits depth (t = ·) w (visitTable depth w t) := by
  rw [visitTable]
  split
  · rename_i hc
    have ht := contains_iff_mem.mp hc
    refine ⟨fun u => ?_, fun u => ?_, fun u hu he => absurd (he ▸ ht) hu, fun _ _ => rfl⟩
    · constructor
      · exact .inl
      · intro h
        rcases h with h | rfl
        · exact h
        · exact ht
    · constructor
      · exact .inl
      · intro h
        rcases h with h | ⟨hn, rfl⟩
        · exact h
        · exact absurd ht hn
  · rename_i hc
    have ht : t ∉ w.visited := fun hm => hc (contains_iff_mem.mpr hm)
    refine ⟨fun u => ?_, fun u => ?_, fun u _ he => ?_, fun u hu => ?_⟩
    · simp [eq_comm]
    · rw [mem_append, mem_singleton]
      constructor
      · intro h
        rcases h with h | rfl
        · exact .inl h
        · exact .inr ⟨ht, rfl⟩
      · intro h
        rcases h with h | ⟨-, rfl⟩
        · exact .inl h
        · exact .inr rfl
    · subst he
      exact entryOf_setEntry _ _ _
    · refine entryOf_setEntry_ne (fun he => ?_) _ _
      subst he
      exact hu.elim ht fun h => h rfl

theorem visitEdge_visits (depth : Nat) (w : Walk) (e : FkEdge) :
    Visits depth e.At w (visitEdge depth w e) ∧
      (visitEdge depth w e).allEdges = w.allEdges ++ [e] := by
  have hall : ∀ (v : Walk) (t : Text), (visitTable depth v t).allEdges = v.allEdges := by
    intro v t
    rw [visitTable]
    split <;> rfl
  refine ⟨?_, ?_⟩
  · have h := (visitTable_visits depth { w with allEdges := w.allEdges ++ [e] } e.fromTable).trans
      (visitTable_visits depth _ e.toTable)
    exact ⟨h.visited, h.frontier, h.fresh, h.kept⟩
  · rw [visitEdge, foldl_cons, foldl_cons, foldl_nil, hall, hall]

/-- **The edges of a round.** -/
theorem visitEdges_visits (depth : Nat) (edges : List FkEdge) (w : Walk) :
    Visits depth (fun t => ∃ e ∈ edges, e.At t) w (edges.foldl (visitEdge depth) w) ∧
      (edges.foldl (visitEdge depth) w).allEdges = w.allEdges ++ edges := by
  induction edges generalizing w with
  | nil =>
    refine ⟨⟨?_, ?_, ?_, ?_⟩, ?_⟩ <;> simp
  | cons e edges ih =>
    obtain ⟨hv, ha⟩ := visitEdge_visits depth w e
    obtain ⟨hv', ha'⟩ := ih (visitEdge depth w e)
    refine ⟨?_, ?_⟩
    · simpa only [exists_mem_cons_iff, foldl_cons] using hv.trans hv'
    · rw [foldl_cons, ha', ha, append_assoc, singleton_append]

/-! ## 3. The rounds -/

/-- **What `n` rounds have visited.** -/
structure Walk.After (graph : List FkEdge) (seeds : List Text) (n : Nat) (w : Walk) : Prop where
  frontier : Frontier (Seed seeds) (Joins graph) n (· ∈ w.frontier)
  visited : ∀ t, t ∈ w.visited ↔ Nearer (Seed seeds) (Joins graph) (n + 1) t
  depths : ∀ t d, entryOf w.tableDepths t = some d ↔
    d ≤ n ∧ Distance (Seed seeds) (Joins graph) d t
  edges : ∀ e, e ∈ w.allEdges ↔ AskedEdge graph seeds n e

variable {edges : List FkEdge}

theorem askedEdge_succ {n : Nat} {w : Walk} (h : w.After graph seeds n)
    (hedges : ∀ e, e ∈ edges ↔ e ∈ graph ∧ ∃ t ∈ w.frontier, e.At t) (e : FkEdge) :
    AskedEdge graph seeds (n + 1) e ↔ AskedEdge graph seeds n e ∨ e ∈ edges := by
  simp only [AskedEdge, h.frontier.nearer_succ, hedges]
  constructor
  · intro h
    obtain ⟨he, t, ht, hn | hf⟩ := h
    · exact .inl ⟨he, t, ht, hn⟩
    · exact .inr ⟨he, t, hf, ht⟩
  · intro h
    rcases h with ⟨he, t, ht, hn⟩ | ⟨he, t, hf, ht⟩
    · exact ⟨he, t, ht, .inl hn⟩
    · exact ⟨he, t, ht, .inr hf⟩

theorem visitEdges_after {n : Nat} {w : Walk} (h : w.After graph seeds n)
    (hedges : ∀ e, e ∈ edges ↔ e ∈ graph ∧ ∃ t ∈ w.frontier, e.At t) :
    (edges.foldl (visitEdge (n + 1)) { w with frontier := [] }).After graph seeds (n + 1) := by
  obtain ⟨hv, ha⟩ := visitEdges_visits (n + 1) edges { w with frontier := [] }
  -- a table is at an edge of the round when it is next to the frontier
  have hnext : ∀ t, (∃ e ∈ edges, e.At t) ↔ ∃ s ∈ w.frontier, Joins graph s t := by
    intro t
    constructor
    · intro hex
      obtain ⟨e, he, ht⟩ := hex
      obtain ⟨hg, s, hs, hes⟩ := (hedges e).mp he
      exact ⟨s, hs, e, hg, hes, ht⟩
    · intro hex
      obtain ⟨s, hs, e, hg, hes, ht⟩ := hex
      exact ⟨e, (hedges e).mpr ⟨hg, s, hs, hes⟩, ht⟩
  have hfrontier : Frontier (Seed seeds) (Joins graph) (n + 1)
      (· ∈ (edges.foldl (visitEdge (n + 1)) { w with frontier := [] }).frontier) := by
    refine h.frontier.step (fun t ht => ?_) fun s t hs hst hfar => ?_
    · obtain ht | ⟨-, ht⟩ := (hv.frontier t).mp ht
      · exact absurd ht not_mem_nil
      · exact (hnext t).mp ht
    · exact (hv.frontier t).mpr (.inr ⟨fun hm => hfar ((h.visited t).mp hm),
        (hnext t).mpr ⟨s, hs, hst⟩⟩)
  -- what was visited, or is new and then on the frontier
  have hvisited : ∀ t, t ∈ (edges.foldl (visitEdge (n + 1)) { w with frontier := [] }).visited ↔
      Nearer (Seed seeds) (Joins graph) (n + 2) t := by
    intro t
    rw [hfrontier.nearer_succ, hv.frontier, hv.visited, h.visited]
    simp only [not_mem_nil, false_or]
    tauto
  refine ⟨hfrontier, hvisited, fun t d => ?_, fun e => ?_⟩
  · by_cases ht : t ∈ w.visited
    · rw [hv.kept t (.inl ht), h.depths]
      constructor
      · exact fun hd => ⟨hd.1.trans (Nat.le_succ n), hd.2⟩
      · intro hd
        refine ⟨?_, hd.2⟩
        by_contra hlt
        exact hd.2.2 (((h.visited t).mp ht).mono (by omega))
    · have hnew : ∀ d, d ≤ n → ¬ Distance (Seed seeds) (Joins graph) d t :=
        fun d hd hdist => ht ((h.visited t).mpr ⟨d, by omega, hdist.1⟩)
      by_cases hp : ∃ e ∈ edges, e.At t
      · rw [hv.fresh t ht hp, Option.some.injEq]
        have hdist : Distance (Seed seeds) (Joins graph) (n + 1) t := by
          refine (Run.nearer_succ.mp ((hvisited t).mp ((hv.visited t).mpr (.inr hp)))).resolve_left ?_
          exact fun hn => ht ((h.visited t).mpr hn)
        constructor
        · intro hd
          subst hd
          exact ⟨le_rfl, hdist⟩
        · exact fun hd => hdist.unique hd.2
      · rw [hv.kept t (.inr hp), h.depths]
        constructor
        · exact fun hd => absurd hd.2 (hnew d hd.1)
        · intro hd
          obtain ⟨hd, hdist⟩ := hd
          have hm : t ∈ (edges.foldl (visitEdge (n + 1)) { w with frontier := [] }).visited :=
            (hvisited t).mpr ⟨d, by omega, hdist.1⟩
          exact absurd ((hv.visited t).mp hm) (not_or.mpr ⟨ht, hp⟩)
  · rw [ha, mem_append, askedEdge_succ h hedges]
    exact or_congr_left (h.edges e)

theorem startWalk_after : (startWalk seeds).After graph seeds 0 := by
  have hzero : ∀ t, Nearer (Seed seeds) (Joins graph) 1 t ↔ t ∈ seeds := by
    intro t
    constructor
    · intro hnear
      obtain ⟨k, hk, hx⟩ := hnear
      cases hx with
      | start hs => exact hs
      | next _ _ => omega
    · exact fun ht => ⟨0, Nat.one_pos, .start ht⟩
  refine ⟨.first fun t => Iff.rfl, fun t => ?_, fun t d => ?_, fun e => ?_⟩
  · rw [hzero, startWalk, mem_setOf]
  · rw [startWalk, startDepths]
    split
    · rename_i ht
      rw [Option.some.injEq]
      constructor
      · intro hd
        subst hd
        exact ⟨le_rfl, .start ht, not_nearer_zero⟩
      · exact fun hd => (Nat.le_zero.mp hd.1).symm
    · rename_i ht
      refine iff_of_false (by rintro ⟨⟩) fun hd => ht ?_
      exact (hzero t).mp ⟨d, by omega, hd.2.1⟩
  · refine iff_of_false not_mem_nil fun he => ?_
    obtain ⟨-, t, -, hn⟩ := he
    exact not_nearer_zero hn

/-- Without a frontier another round would change nothing. -/
theorem Walk.After.idle {n : Nat} {w : Walk} (h : w.After graph seeds n) (hf : w.frontier = []) :
    w.After graph seeds (n + 1) := by
  have hempty : ∀ t, ¬ t ∈ w.frontier := by simp [hf]
  have hidle := h.frontier.idle hempty
  have hstay : ∀ t, Nearer (Seed seeds) (Joins graph) (n + 1) t ↔
      Nearer (Seed seeds) (Joins graph) n t := by
    intro t
    rw [h.frontier.nearer_succ, or_iff_left (hempty t)]
  refine ⟨hidle, fun t => ?_, fun t d => ?_, fun e => ?_⟩
  · rw [hidle.nearer_succ, or_iff_left (hempty t)]
    exact h.visited t
  · rw [h.depths]
    constructor
    · exact fun hd => ⟨hd.1.trans (Nat.le_succ n), hd.2⟩
    · intro hd
      refine ⟨?_, hd.2⟩
      by_contra hlt
      have hd1 : d = n + 1 := by omega
      exact hempty t (hidle.complete t (hd1 ▸ hd.2))
  · rw [h.edges]
    simp only [AskedEdge, hstay]

variable {singleHop : FkSingleHopFn}

/-- **The rule for the loop**: what every round keeps holds at the end, and where `singleHop`
    answers nothing fails. -/
theorem walkLevels_run {owner : Text}
    (ha : HopAnswers graph owner singleHop) (P : Nat → Walk → Prop)
    (hround : ∀ n w edges, P n w → singleHop owner w.frontier = .ok edges →
      P (n + 1) (edges.foldl (visitEdge (n + 1)) { w with frontier := [] }))
    (hidle : ∀ n w, P n w → w.frontier = [] → P (n + 1) w) (rounds : Nat) {n : Nat} {w : Walk}
    (h : P n w) :
    ∃ w', walkLevels singleHop owner rounds (n + 1) w = .ok w' ∧ P (n + rounds) w' := by
  induction rounds generalizing n w with
  | zero => exact ⟨w, rfl, h⟩
  | succ rounds ih =>
    rw [walkLevels]
    split
    · rename_i hf
      rw [List.isEmpty_iff] at hf
      have hall : ∀ k, P (n + k) w := by
        intro k
        induction k with
        | zero => exact h
        | succ k ihk => exact hidle _ _ ihk hf
      exact ⟨w, rfl, hall _⟩
    · obtain ⟨edges, he, -⟩ := ha w.frontier
      obtain ⟨w', hw, hp⟩ := ih (hround n w edges h he)
      refine ⟨w', ?_, ?_⟩
      · rw [he]
        exact hw
      · rwa [show n + (rounds + 1) = n + 1 + rounds by omega]

theorem HopAnswers.mem {owner : Text}
    (ha : HopAnswers graph owner singleHop) {tables : List Text}
    (he : singleHop owner tables = .ok edges) (e : FkEdge) :
    e ∈ edges ↔ e ∈ graph ∧ ∃ t ∈ tables, e.At t := by
  obtain ⟨edges', he', hmem⟩ := ha tables
  rw [he] at he'
  cases he'
  exact hmem e

/-- **What the loop visits.** -/
theorem walkLevels_after (seeds : List Text) {owner : Text}
    (ha : HopAnswers graph owner singleHop) (maxDepth : Nat) :
    ∃ w, walkLevels singleHop owner maxDepth 1 (startWalk seeds) = .ok w ∧
      w.After graph seeds maxDepth := by
  obtain ⟨w, hw, h⟩ := walkLevels_run ha (fun n w => w.After graph seeds n)
    (fun n w edges h he => visitEdges_after h (ha.mem he)) (fun n w h hf => h.idle hf) maxDepth
    startWalk_after
  exact ⟨w, hw, by rwa [Nat.zero_add] at h⟩

/-! ## 4. The edges that are kept -/

theorem mem_dedupEdges {seen : List Text} {e : FkEdge}
    (h : e ∈ dedupEdges seen edges) : e ∈ edges ∧ edgeKey e ∉ seen := by
  induction edges generalizing seen with
  | nil => cases h
  | cons x edges ih =>
    rw [dedupEdges] at h
    split at h
    · exact ⟨mem_cons_of_mem _ (ih h).1, (ih h).2⟩
    · rename_i hx
      rcases mem_cons.mp h with rfl | h
      · exact ⟨mem_cons_self, fun hm => hx (contains_iff_mem.mpr hm)⟩
      · exact ⟨mem_cons_of_mem _ (ih h).1, fun hm => (ih h).2 (mem_cons_of_mem _ hm)⟩

/-- No two that are kept have one key. -/
theorem nodup_dedupEdges (seen : List Text) (edges : List FkEdge) :
    ((dedupEdges seen edges).map edgeKey).Nodup := by
  induction edges generalizing seen with
  | nil => exact nodup_nil
  | cons x edges ih =>
    rw [dedupEdges]
    split
    · exact ih seen
    · rw [map_cons, nodup_cons]
      refine ⟨fun hm => ?_, ih _⟩
      obtain ⟨e, he, hk⟩ := mem_map.mp hm
      exact (mem_dedupEdges he).2 (hk ▸ mem_cons_self)

/-- Of every edge one with its key is kept. -/
theorem dedupEdges_complete {seen : List Text} {e : FkEdge} (he : e ∈ edges)
    (hs : edgeKey e ∉ seen) : ∃ e' ∈ dedupEdges seen edges, edgeKey e' = edgeKey e := by
  induction edges generalizing seen with
  | nil => cases he
  | cons x edges ih =>
    rw [dedupEdges]
    split
    · rename_i hx
      rcases mem_cons.mp he with rfl | he
      · exact absurd (contains_iff_mem.mp hx) hs
      · exact ih he hs
    · by_cases hk : edgeKey e = edgeKey x
      · exact ⟨x, mem_cons_self, hk.symm⟩
      · rcases mem_cons.mp he with rfl | he
        · exact absurd rfl hk
        · obtain ⟨e', he', hk'⟩ := ih he fun hm => (mem_cons.mp hm).elim hk hs
          exact ⟨e', mem_cons_of_mem _ he', hk'⟩

/-- **What the walk returns**, from what its loop ends with. -/
theorem walkFkBfs_after (seeds : List Text) {owner : Text}
    (ha : HopAnswers graph owner singleHop) (maxDepth : Nat) :
    ∃ w, walkLevels singleHop owner maxDepth 1 (startWalk seeds) = .ok w ∧
      w.After graph seeds maxDepth ∧ walkFkBfs owner seeds singleHop maxDepth =
        .ok ⟨w.visited, w.tableDepths, dedupEdges [] w.allEdges⟩ := by
  obtain ⟨w, hw, h⟩ := walkLevels_after seeds ha maxDepth
  refine ⟨w, hw, h, ?_⟩
  rw [walkFkBfs, hw]
  rfl

/-! ## 5. The result -/

theorem nearer_iff_distance {n : Nat} {t : Text} : Nearer (Seed seeds) (Joins graph) n t ↔
    ∃ m < n, Distance (Seed seeds) (Joins graph) m t := by
  constructor
  · intro h
    obtain ⟨k, hk, hx⟩ := h
    obtain ⟨m, hm, hd⟩ := hx.distance
    exact ⟨m, by omega, hd⟩
  · intro h
    obtain ⟨m, hm, hd⟩ := h
    exact ⟨m, hm, hd.1⟩

/-- Different edges that are asked for have different keys. -/
def KeysApart (graph : List FkEdge) (seeds : List Text) (maxDepth : Nat) : Prop :=
  ∀ e e', AskedEdge graph seeds maxDepth e → AskedEdge graph seeds maxDepth e' →
    edgeKey e = edgeKey e' → e = e'

/-- The `singleHop` that reads a list of edges. -/
def hopOf (graph : List FkEdge) : FkSingleHopFn := fun _ tables =>
  .ok (graph.filter fun e => tables.contains e.fromTable || tables.contains e.toTable)

theorem hopOf_answers (graph : List FkEdge) (owner : Text) :
    HopAnswers graph owner (hopOf graph) := by
  intro tables
  refine ⟨_, rfl, fun e => ?_⟩
  rw [mem_filter, Bool.or_eq_true, contains_iff_mem, contains_iff_mem]
  refine and_congr_right fun _ => ?_
  constructor
  · intro h
    rcases h with h | h
    · exact ⟨_, h, .inl rfl⟩
    · exact ⟨_, h, .inr rfl⟩
  · intro h
    obtain ⟨t, ht, rfl | rfl⟩ := h
    · exact .inl ht
    · exact .inr ht

/-- A table that refers to itself, and two that refer to one another. -/
def cyclicEdges : List FkEdge :=
  [⟨"EMP".toList, ["MGR".toList], "EMP".toList, ["ID".toList]⟩,
   ⟨"EMP".toList, ["DEPT".toList], "DEPT".toList, ["ID".toList]⟩,
   ⟨"DEPT".toList, ["HEAD".toList], "EMP".toList, ["ID".toList]⟩]

/-- Two tables, `A|B` with a column `C` and `A` with a column `B|C`, that refer to a third. -/
def joinedEdges : List FkEdge :=
  [⟨"A|B".toList, ["C".toList], "P".toList, ["ID".toList]⟩,
   ⟨"A".toList, ["B|C".toList], "P".toList, ["ID".toList]⟩]

end Veesker.Sandbox
