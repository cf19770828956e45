/-
  File:      Veesker/Sandbox/FkWalk.lean
  Subject:   THE FOREIGN-KEY WALK (sidecar/src/sandbox/fk-walk.ts, compute-fk-closure.ts): which
             tables a build takes along, and the closure the wizard is shown.

  * `walkFkBfs_ok` -- **what every walk keeps**: the tables are distinct, the ones it started from
    are among them, each has a depth, and the ones it started from are those of depth 0.
  * `closure_names` -- the closure lists the tables of the walk with the same request, each with
    its depth.
-/
import Veesker.Sandbox.Source
import Veesker.Vsk.Manifest

namespace Veesker.Sandbox

open Format Vsk
open List hiding splitOn

/-! ## 1. Sets of names -/

/-- `new Set(names)`: the names in the order of their first places. -/
def setOf (names : List Text) : List Text :=
  names.foldl (fun s t => if s.contains t then s else s ++ [t]) []

theorem setOf_foldl (names s : List Text) (hs : s.Nodup) :
    (names.foldl (fun s t => if s.contains t then s else s ++ [t]) s).Nodup ∧
      ∀ t, t ∈ names.foldl (fun s t => if s.contains t then s else s ++ [t]) s ↔
        t ∈ s ∨ t ∈ names := by
  induction names generalizing s with
  | nil => simp [hs]
  | cons x names ih =>
    rw [foldl_cons]
    by_cases hx : x ∈ s
    · rw [if_pos (contains_iff_mem.mpr hx)]
      obtain ⟨hnd, hmem⟩ := ih s hs
      refine ⟨hnd, fun t => ?_⟩
      rw [hmem, mem_cons]
      constructor
      · tauto
      · rintro (h | rfl | h)
        · exact .inl h
        · exact .inl hx
        · exact .inr h
    · rw [if_neg fun h => hx (contains_iff_mem.mp h)]
      have hs' : (s ++ [x]).Nodup := by
        rw [nodup_append]
        refine ⟨hs, nodup_singleton x, fun a ha b hb => ?_⟩
        rw [mem_singleton.mp hb]
        rintro rfl
        exact hx ha
      obtain ⟨hnd, hmem⟩ := ih _ hs'
      refine ⟨hnd, fun t => ?_⟩
      rw [hmem, mem_append, mem_singleton, mem_cons]
      tauto

theorem nodup_setOf (names : List Text) : (setOf names).Nodup :=
  (setOf_foldl names [] nodup_nil).1

@[simp] theorem mem_setOf {names : List Text} {t : Text} : t ∈ setOf names ↔ t ∈ names := by
  rw [setOf, (setOf_foldl names [] nodup_nil).2]
  simp

/-! ## 2. The edges -/

structure FkEdge where
  fromTable : Text
  fromColumns : List Text
  toTable : Text
  toColumns : List Text
  deriving DecidableEq

/-- `s.split(",").map(trim).filter(nonempty)`. -/
def splitColumns (s : Text) : List Text :=
  ((splitOn ',' s).map trim).filter fun c => !c.isEmpty

def parseFkRows (rows : List FkRow) : List FkEdge :=
  rows.map fun r =>
    ⟨r.FROM_TABLE, splitColumns r.FROM_COLUMNS, r.TO_TABLE, splitColumns r.TO_COLUMNS⟩

/-- What `singleHop` answers: the edges with one of the tables on either side. -/
abbrev FkSingleHopFn := Text → List Text → Except Failure (List FkEdge)

def fkSingleHop (O : Oracle) : FkSingleHopFn := fun owner tableNames => do
  let _ ← quoteIdent owner
  if tableNames.isEmpty then .ok []
  else do
    let rows ← (O.foreignKeys owner tableNames).mapError .error
    .ok (parseFkRows rows)

def edgeKey (e : FkEdge) : Text :=
  e.fromTable ++ '|' :: (List.intercalate [','] e.fromColumns ++ '|' :: (e.toTable ++
    '|' :: List.intercalate [','] e.toColumns))

/-- The edges with keys that were not seen. -/
def dedupEdges : List Text → List FkEdge → List FkEdge
  | _, [] => []
  | seen, e :: es =>
    if seen.contains (edgeKey e) then dedupEdges seen es
    else e :: dedupEdges (edgeKey e :: seen) es

/-! ## 3. The walk -/

/-- The variables of the loop. -/
structure Walk where
  visited : List Text
  tableDepths : Record Nat
  allEdges : List FkEdge
  frontier : List Text
  deriving DecidableEq

/-- An end of an edge: new ones go to the next frontier. -/
def visitTable (depth : Nat) (w : Walk) (t : Text) : Walk :=
  if w.visited.contains t then w
  else { w with
    visited := w.visited ++ [t]
    tableDepths := setEntry w.tableDepths t depth
    frontier := w.frontier ++ [t] }

def visitEdge (depth : Nat) (w : Walk) (e : FkEdge) : Walk :=
  [e.fromTable, e.toTable].foldl (visitTable depth) { w with allEdges := w.allEdges ++ [e] }

/-- `for (let depth = …; depth <= maxDepth; depth++)`, by the rounds that are left. -/
def walkLevels (singleHop : FkSingleHopFn) (owner : Text) : Nat → Nat → Walk → Except Failure Walk
  | 0, _, w => .ok w
  | rounds + 1, depth, w =>
    if w.frontier.isEmpty then .ok w
    else do
      let edges ← singleHop owner w.frontier
      walkLevels singleHop owner rounds (depth + 1)
        (edges.foldl (visitEdge depth) { w with frontier := [] })

structure FkBfsResult where
  tablesIncluded : List Text
  tableDepths : Record Nat
  edges : List FkEdge
  deriving DecidableEq

/-- Where the walk starts. -/
def startWalk (primaryTables : List Text) : Walk where
  visited := setOf primaryTables
  tableDepths := primaryTables.foldl (fun r t => setEntry r t 0) []
  allEdges := []
  frontier := primaryTables

def walkFkBfs (owner : Text) (primaryTables : List Text) (singleHop : FkSingleHopFn)
    (maxDepth : Nat) : Except Failure FkBfsResult := do
  let w ← walkLevels singleHop owner maxDepth 1 (startWalk primaryTables)
  .ok ⟨w.visited, w.tableDepths, dedupEdges [] w.allEdges⟩

/-! ## 4. What a walk keeps -/

/-- **The invariant**: the visited tables are distinct and each has a depth, which is 0 for the
    tables of the start and for no other. -/
structure Walk.Good (primaryTables : List Text) (w : Walk) : Prop where
  nodup : w.visited.Nodup
  started : ∀ t ∈ primaryTables, t ∈ w.visited
  deep : ∀ t ∈ w.visited, ∃ d, entryOf w.tableDepths t = some d ∧ (d = 0 ↔ t ∈ primaryTables)

variable {primaryTables : List Text}

theorem visitTable_good {depth : Nat} (hd : 0 < depth) {w : Walk} (h : w.Good primaryTables)
    (t : Text) : (visitTable depth w t).Good primaryTables := by
  rw [visitTable]
  split
  · exact h
  · rename_i hc
    have ht : t ∉ w.visited := fun hm => hc (contains_iff_mem.mpr hm)
    have hp : t ∉ primaryTables := fun hm => ht (h.started t hm)
    refine ⟨?_, fun u hu => mem_append_left _ (h.started u hu), fun u hu => ?_⟩
    · rw [nodup_append]
      refine ⟨h.nodup, nodup_singleton t, fun a ha b hb => ?_⟩
      rw [mem_singleton.mp hb]
      rintro rfl
      exact ht ha
    · rcases mem_append.mp hu with hu | hu
      · obtain ⟨d, he, hz⟩ := h.deep u hu
        have hne : u ≠ t := fun e => ht (e ▸ hu)
        exact ⟨d, by rw [entryOf_setEntry_ne hne, he], hz⟩
      · rw [mem_singleton.mp hu]
        exact ⟨depth, entryOf_setEntry _ _ _, by omega, fun hm => absurd hm hp⟩

theorem visitEdge_good {depth : Nat} (hd : 0 < depth) {w : Walk} (h : w.Good primaryTables)
    (e : FkEdge) : (visitEdge depth w e).Good primaryTables := by
  have h0 : ({ w with allEdges := w.allEdges ++ [e] } : Walk).Good primaryTables :=
    ⟨h.nodup, h.started, h.deep⟩
  exact visitTable_good hd (visitTable_good hd h0 _) _

theorem visitEdges_good {depth : Nat} (hd : 0 < depth) (edges : List FkEdge) {w : Walk}
    (h : w.Good primaryTables) : (edges.foldl (visitEdge depth) w).Good primaryTables := by
  induction edges generalizing w with
  | nil => exact h
  | cons e edges ih => exact ih (visitEdge_good hd h e)

variable {singleHop : FkSingleHopFn}

/-- **The run**: every level keeps the invariant. -/
theorem walkLevels_good {owner : Text} {rounds depth : Nat} (hd : 0 < depth)
    {w w' : Walk} (h : w.Good primaryTables)
    (hw : walkLevels singleHop owner rounds depth w = .ok w') : w'.Good primaryTables := by
  induction rounds generalizing depth w with
  | zero =>
    rw [walkLevels] at hw
    cases hw
    exact h
  | succ rounds ih =>
    rw [walkLevels] at hw
    split at hw
    · cases hw
      exact h
    · cases he : singleHop owner w.frontier with
      | error e =>
        rw [he] at hw
        cases hw
      | ok edges =>
        rw [he] at hw
        have h0 : ({ w with frontier := [] } : Walk).Good primaryTables :=
          ⟨h.nodup, h.started, h.deep⟩
        exact ih (Nat.succ_pos depth) (visitEdges_good hd edges h0) hw

theorem startDepths (r : Record Nat) (names : List Text) (t : Text) :
    entryOf (names.foldl (fun r t => setEntry r t 0) r) t =
      if t ∈ names then some 0 else entryOf r t := by
  induction names generalizing r with
  | nil => simp
  | cons x names ih =>
    rw [foldl_cons, ih]
    by_cases hx : t = x
    · subst hx
      simp
    · by_cases ht : t ∈ names
      · simp [ht]
      · simp [ht, hx, entryOf_setEntry_ne hx]

theorem startWalk_good (primaryTables : List Text) : (startWalk primaryTables).Good primaryTables where
  nodup := nodup_setOf primaryTables
  started _ ht := mem_setOf.mpr ht
  deep t ht := ⟨0, by rw [startWalk, startDepths, if_pos (mem_setOf.mp ht)],
    fun _ => mem_setOf.mp ht, fun _ => rfl⟩

/-- **What every walk keeps.** -/
theorem walkFkBfs_ok {owner : Text} {maxDepth : Nat} {r : FkBfsResult}
    (h : walkFkBfs owner primaryTables singleHop maxDepth = .ok r) :
    r.tablesIncluded.Nodup ∧ (∀ t ∈ primaryTables, t ∈ r.tablesIncluded) ∧
      ∀ t ∈ r.tablesIncluded,
        ∃ d, entryOf r.tableDepths t = some d ∧ (d = 0 ↔ t ∈ primaryTables) := by
  rw [walkFkBfs] at h
  cases hw : walkLevels singleHop owner maxDepth 1 (startWalk primaryTables) with
  | error e =>
    rw [hw] at h
    cases h
  | ok w =>
    rw [hw] at h
    cases h
    have hg := walkLevels_good Nat.one_pos (startWalk_good primaryTables) hw
    exact ⟨hg.nodup, hg.started, hg.deep⟩

/-! ## 5. The closure -/

structure ViaFk where
  fromTable : Text
  fromColumns : List Text
  toColumns : List Text
  deriving DecidableEq

structure FkClosureEntry where
  name : Text
  depth : Nat
  viaFk : Option ViaFk := none
  deriving DecidableEq

structure FkClosureResult where
  entries : List FkClosureEntry
  edges : List FkEdge
  deriving DecidableEq

section

-- `a.localeCompare(b)` of the run time
variable (localeCompare : Text → Text → Ordering)

/-- For each table the edge to it whose other table comes first. -/
def edgeByTo (edges : List FkEdge) : Record FkEdge :=
  edges.foldl (fun m e =>
    match entryOf m e.toTable with
    | some existing =>
      if localeCompare e.fromTable existing.fromTable = .lt then setEntry m e.toTable e else m
    | none => setEntry m e.toTable e) []

def closureEntry (bfs : FkBfsResult) (name : Text) : FkClosureEntry :=
  let depth := (entryOf bfs.tableDepths name).getD 0
  if depth = 0 then { name, depth }
  else
    match entryOf (edgeByTo localeCompare bfs.edges) name with
    | none => { name, depth }
    | some edge => { name, depth, viaFk := some ⟨edge.fromTable, edge.fromColumns, edge.toColumns⟩ }

/-- The order by depth, then by name. -/
def entryLe (a b : FkClosureEntry) : Bool :=
  decide (a.depth < b.depth) ||
    (a.depth == b.depth && localeCompare a.name b.name != .gt)

def computeFkClosure (owner : Text) (primaryTables : List Text) (maxDepth : Nat)
    (singleHop : FkSingleHopFn) : Except Failure FkClosureResult := do
  let bfs ← walkFkBfs owner primaryTables singleHop maxDepth
  .ok ⟨(bfs.tablesIncluded.map (closureEntry localeCompare bfs)).mergeSort (entryLe localeCompare),
    bfs.edges⟩

theorem closureEntry_name (bfs : FkBfsResult) (name : Text) :
    (closureEntry localeCompare bfs name).name = name ∧
      (closureEntry localeCompare bfs name).depth = (entryOf bfs.tableDepths name).getD 0 := by
  unfold closureEntry
  dsimp only
  split
  · exact ⟨rfl, rfl⟩
  · split
    · exact ⟨rfl, rfl⟩
    · exact ⟨rfl, rfl⟩

/-- **The closure lists the tables of the walk**, each once, and those of depth 0 are the ones it
    started from. -/
theorem closure_names {owner : Text} {maxDepth : Nat}
    {c : FkClosureResult}
    (h : computeFkClosure localeCompare owner primaryTables maxDepth singleHop = .ok c) :
    ∃ r, walkFkBfs owner primaryTables singleHop maxDepth = .ok r ∧
      (c.entries.map FkClosureEntry.name).Perm r.tablesIncluded ∧
      ∀ e ∈ c.entries, e.depth = 0 ↔ e.name ∈ primaryTables := by
  rw [computeFkClosure] at h
  cases hr : walkFkBfs owner primaryTables singleHop maxDepth with
  | error e =>
    rw [hr] at h
    cases h
  | ok r =>
    rw [hr] at h
    cases h
    have hperm := mergeSort_perm (r.tablesIncluded.map (closureEntry localeCompare r))
      (entryLe localeCompare)
    refine ⟨r, rfl, ?_, fun e he => ?_⟩
    · have hm := hperm.map FkClosureEntry.name
      rw [map_map] at hm
      have hid : FkClosureEntry.name ∘ closureEntry localeCompare r = id :=
        funext fun t => (closureEntry_name localeCompare r t).1
      rwa [hid, map_id] at hm
    · obtain ⟨t, ht, rfl⟩ := mem_map.mp (hperm.mem_iff.mp he)
      obtain ⟨d, hd, hz⟩ := (walkFkBfs_ok hr).2.2 t ht
      rw [(closureEntry_name localeCompare r t).1, (closureEntry_name localeCompare r t).2, hd]
      exact hz

end

end Veesker.Sandbox
