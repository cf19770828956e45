/-
  File:      Veesker/Sidecar/Vision.lean
  Subject:   THE GRAPH AROUND AN OBJECT (sidecar/src/oracle.ts `visionGraph`).

  The catalogue is its tables' rows, in the order in which the queries give them. The walk takes the
  objects of a queue one by one and looks at their dependencies, their dependents and, for a table,
  its foreign keys. An edge is pushed behind the check that its objects are in the graph, but for
  one: where the graph is full, a foreign key's edge is pushed without one of its tables.

  * `Walk.Inv` -- what every step keeps;
  * `closed_iff` -- **when every edge has its two ends**: no foreign key is left short of a table.
-/
import Veesker.Text.Upper

namespace Veesker.Sidecar.Vision

open List

/-! ## 1. The catalogue -/

/-- A row of `ALL_DEPENDENCIES`. -/
structure Dependency where
  owner : Text
  name : Text
  type : Text
  referencedOwner : Text
  referencedName : Text
  referencedType : Text
  deriving DecidableEq

/-- A row of the join of `ALL_CONSTRAINTS` with itself: a foreign key and the key it refers to. -/
structure ForeignKey where
  owner : Text
  tableName : Text
  referencedOwner : Text
  referencedTable : Text
  deriving DecidableEq

/-- A row of `ALL_OBJECTS`. -/
structure ObjectRow where
  owner : Text
  objectName : Text
  objectType : Text
  status : Text
  deriving DecidableEq

structure Catalogue where
  dependencies : List Dependency
  foreignKeys : List ForeignKey
  objects : List ObjectRow

/-- An object that a row names. -/
structure Named where
  owner : Text
  name : Text
  type : Text
  deriving DecidableEq

/-- The types that no query on dependencies selects. -/
def unlistedTypes : List Text :=
  ["NON-EXISTENT".toList, "UNDEFINED".toList, "SYNONYM".toList, "JAVA CLASS".toList]

def maxRows : Nat := 5000

/-- `SELECT DISTINCT`, with at most `maxRows` rows fetched. -/
def fetched {α : Type} [DecidableEq α] (rows : List α) : List α := rows.dedup.take maxRows

def upRows (cat : Catalogue) (owner name : Text) : List Named :=
  (cat.dependencies.filter fun d =>
    d.owner = owner ∧ d.name = name ∧ d.referencedType ∉ unlistedTypes).map fun d =>
      ⟨d.referencedOwner, d.referencedName, d.referencedType⟩

def dnRows (cat : Catalogue) (owner name : Text) : List Named :=
  (cat.dependencies.filter fun d =>
    d.referencedOwner = owner ∧ d.referencedName = name ∧ d.type ∉ unlistedTypes).map fun d =>
      ⟨d.owner, d.name, d.type⟩

def fkRows (cat : Catalogue) (owner name : Text) : List ForeignKey :=
  cat.foreignKeys.filter fun k => (k.owner = owner ∧ k.tableName = name) ∨
    (k.referencedOwner = owner ∧ k.referencedTable = name)

/-! ## 2. The walk -/

structure VisionNode where
  id : Text
  name : Text
  owner : Text
  type : Text
  status : Text
  degree : Nat
  isOrigin : Bool
  deriving DecidableEq

inductive EdgeKind where
  | fk
  | dep
  deriving DecidableEq

structure VisionEdge where
  source : Text
  target : Text
  kind : EdgeKind
  deriving DecidableEq

structure Item where
  owner : Text
  name : Text
  type : Text
  depth : Nat
  deriving DecidableEq

/-- The nodes in the order of the map, and the edges; `edgeSet` holds their keys. -/
structure Walk where
  nodes : List VisionNode
  edges : List VisionEdge
  queue : List Item
  truncated : Bool
  deriving DecidableEq

def maxVisionNodes : Nat := 150

def maxVisionDepth : Nat := 2

def systemSchemas : List Text :=
  ["SYS".toList, "SYSTEM".toList, "SYSMXMF".toList, "MDSYS".toList, "CTXSYS".toList,
    "WMSYS".toList, "XDB".toList, "ORDDATA".toList, "ORDSYS".toList, "OLAPSYS".toList,
    "FLOWS_FILES".toList, "DBMSMADMIN".toList, "DVSYS".toList, "LBACSYS".toList,
    "APPQOSSYS".toList, "AUDSYS".toList, "DBSFWUSER".toList, "REMOTE_SCHEDULER_AGENT".toList,
    "SYS$UMF".toList, "OUTLN".toList, "GSMADMIN_INTERNAL".toList, "GSMCATUSER".toList,
    "GSMUSER".toList, "OJVMSYS".toList, "PDBADMIN".toList, "VECSYS".toList, "BAASSYS".toList,
    "ORDS_METADATA".toList, "ORDS_PUBLIC_USER".toList]

/-- `${owner}.${name}`. -/
def objectId (owner name : Text) : Text := owner ++ '.' :: name

def EdgeKind.text : EdgeKind → Text
  | .fk => "fk".toList
  | .dep => "dep".toList

/-- `${source}->${target}:${kind}`. -/
def edgeKey (e : VisionEdge) : Text := e.source ++ '-' :: '>' :: (e.target ++ ':' :: e.kind.text)

namespace Walk

def has (w : Walk) (id : Text) : Bool := w.nodes.any (·.id = id)

/-- An object that is no node becomes one, and is queued; none where the graph is full. -/
def enter (w : Walk) (n : Named) (depth : Nat) : Option Walk :=
  let id := objectId n.owner n.name
  if w.has id then some w
  else if maxVisionNodes ≤ w.nodes.length then none
  else some { w with
    nodes := w.nodes ++ [⟨id, n.name, n.owner, n.type, "VALID".toList, 0, false⟩]
    queue := w.queue ++ [⟨n.owner, n.name, n.type, depth⟩] }

def addEdge (w : Walk) (e : VisionEdge) : Walk :=
  if (w.edges.map edgeKey).contains (edgeKey e) then w else { w with edges := w.edges ++ [e] }

/-- The loops over the rows of the two queries on dependencies; `edge` is the edge of a row. -/
def dependencyLoop (current : Item) (edge : Text → VisionEdge) : List Named → Walk → Walk
  | [], w => w
  | row :: rows, w =>
    let id := objectId row.owner row.name
    if systemSchemas.contains row.owner then w.dependencyLoop current edge rows
    else if id = objectId current.owner current.name then w.dependencyLoop current edge rows
    else match w.enter row (current.depth + 1) with
      | none => { w with truncated := true }
      | some w => (w.addEdge (edge id)).dependencyLoop current edge rows

/-- The inner loop, over the two tables of a row. -/
def endsLoop (depth : Nat) : List Named → Walk → Walk
  | [], w => w
  | n :: ends, w =>
    match w.enter n depth with
    | none => { w with truncated := true }
    | some w => w.endsLoop depth ends

end Walk

def ForeignKey.source (k : ForeignKey) : Named := ⟨k.owner, k.tableName, "TABLE".toList⟩

def ForeignKey.target (k : ForeignKey) : Named :=
  ⟨k.referencedOwner, k.referencedTable, "TABLE".toList⟩

/-- The two tables of a row. -/
def ForeignKey.ends (k : ForeignKey) : List Named := [k.source, k.target]

def ForeignKey.edge (k : ForeignKey) : VisionEdge :=
  ⟨objectId k.owner k.tableName, objectId k.referencedOwner k.referencedTable, .fk⟩

def ForeignKey.isSystem (k : ForeignKey) : Bool :=
  systemSchemas.contains k.owner || systemSchemas.contains k.referencedOwner

namespace Walk

/-- The edge of a row is added whether or not the inner loop was left early. -/
def fkRow (depth : Nat) (w : Walk) (k : ForeignKey) : Walk :=
  if k.isSystem then w else (w.endsLoop depth k.ends).addEdge k.edge

/-- The first two queries for an object: what it depends on, and what depends on it. -/
def dependencies (cat : Catalogue) (current : Item) (w : Walk) : Walk :=
  let currentId := objectId current.owner current.name
  let w := w.dependencyLoop current (fun id => ⟨currentId, id, .dep⟩)
    (fetched (upRows cat current.owner current.name))
  w.dependencyLoop current (fun id => ⟨id, currentId, .dep⟩)
    (fetched (dnRows cat current.owner current.name))

/-- What is looked up for an object: a table's foreign keys are the third query. -/
def expand (cat : Catalogue) (current : Item) (w : Walk) : Walk :=
  let w := w.dependencies cat current
  if current.type = "TABLE".toList then
    (fetched (fkRows cat current.owner current.name)).foldl (fkRow (current.depth + 1)) w
  else w

/-- The loop over the queue, with so many rounds. -/
def run (cat : Catalogue) : Nat → Walk → Option Walk
  | 0, _ => none
  | rounds + 1, w =>
    match w.queue with
    | [] => some w
    | current :: queue =>
      if maxVisionNodes ≤ w.nodes.length then some { w with truncated := true }
      else if maxVisionDepth ≤ current.depth then run cat rounds { w with queue := queue }
      else run cat rounds (expand cat current { w with queue := queue })

end Walk

structure VisionParams where
  owner : Text
  objectName : Text
  objectType : Text

/-- The graph with the origin alone. -/
def startWalk (p : VisionParams) : Walk :=
  let owner := toUpperCase p.owner
  let name := toUpperCase p.objectName
  let type := toUpperCase p.objectType
  { nodes := [⟨objectId owner name, name, owner, type, "VALID".toList, 0, true⟩]
    edges := []
    queue := [⟨owner, name, type, 0⟩]
    truncated := false }

/-- `degreeMap`: both ends of every edge are counted. -/
def degreeMap (edges : List VisionEdge) : Text → Nat :=
  edges.foldl (fun m e =>
    let m := Function.update m e.source (m e.source + 1)
    Function.update m e.target (m e.target + 1)) fun _ => 0

/-- `id.split(".")[1]`. -/
def nodeName (id : Text) : Text := (id.splitOn '.').getD 1 []

/-- The nodes with the status that the catalogue has for their id. -/
def withStatus (cat : Catalogue) (owner : Text) (nodes : List VisionNode) : List VisionNode :=
  let names := nodes.map fun n => nodeName n.id
  let rows := (cat.objects.filter fun o => o.owner = owner ∧ o.objectName ∈ names).take maxRows
  rows.foldl (fun nodes o => nodes.map fun n =>
    if n.id = objectId owner o.objectName then { n with status := o.status } else n) nodes

structure VisionGraphResult where
  nodes : List VisionNode
  edges : List VisionEdge
  truncated : Bool
  truncatedAt : Option Nat
  deriving DecidableEq

def visionGraph (cat : Catalogue) (rounds : Nat) (p : VisionParams) : Option VisionGraphResult := do
  let w ← (startWalk p).run cat rounds
  let nodes := withStatus cat (toUpperCase p.owner) w.nodes
  some {
    nodes := nodes.map fun n => { n with degree := degreeMap w.edges n.id }
    edges := w.edges
    truncated := w.truncated
    truncatedAt := if w.truncated then some maxVisionNodes else none }

/-! ## 3. What every step keeps -/

variable {w w' : Walk} {depth : Nat} {n : Named}

namespace Walk

/-- A property that no single change of the walk breaks. -/
structure Kept (P : Walk → Prop) : Prop where
  enter : ∀ {w w' : Walk} {n : Named} {depth : Nat}, P w → w.enter n depth = some w' → P w'
  addEdge : ∀ {w : Walk} (e : VisionEdge), P w → P (w.addEdge e)
  full : ∀ {w : Walk}, P w → P { w with truncated := true }

/-- A property that taking an object from the queue does not break. -/
def Passed (P : Walk → Prop) : Prop := ∀ {w : Walk} {item : Item} {queue : List Item},
  P w → w.queue = item :: queue → P { w with queue := queue }

namespace Kept

variable {P : Walk → Prop} (hP : Kept P)

include hP

theorem dependencyLoop (current : Item) (edge : Text → VisionEdge) (rows : List Named)
    (h : P w) : P (w.dependencyLoop current edge rows) := by
  induction rows generalizing w with
  | nil => exact h
  | cons row rows ih =>
    rw [Walk.dependencyLoop]
    split
    · exact ih h
    · split
      · exact ih h
      · split
        · exact hP.full h
        · rename_i henter
          exact ih (hP.addEdge _ (hP.enter h henter))

theorem endsLoop (depth : Nat) (ends : List Named) (h : P w) :
    P (w.endsLoop depth ends) := by
  induction ends generalizing w with
  | nil => exact h
  | cons n ends ih =>
    rw [Walk.endsLoop]
    split
    · exact hP.full h
    · rename_i henter
      exact ih (hP.enter h henter)

theorem fkRow (depth : Nat) (k : ForeignKey) (h : P w) : P (w.fkRow depth k) := by
  rw [Walk.fkRow]
  split
  · exact h
  · exact hP.addEdge _ (hP.endsLoop depth _ h)

theorem fkRows (depth : Nat) (rows : List ForeignKey) (h : P w) :
    P (rows.foldl (Walk.fkRow depth) w) := by
  induction rows generalizing w with
  | nil => exact h
  | cons k rows ih => exact ih (hP.fkRow depth k h)

theorem dependencies (cat : Catalogue) (current : Item) (h : P w) :
    P (w.dependencies cat current) :=
  hP.dependencyLoop _ _ _ (hP.dependencyLoop _ _ _ h)

theorem expand (cat : Catalogue) (current : Item) (h : P w) :
    P (w.expand cat current) := by
  rw [Walk.expand]
  split
  · exact hP.fkRows _ _ (hP.dependencies cat current h)
  · exact hP.dependencies cat current h

theorem run (hnext : Passed P) (cat : Catalogue) (rounds : Nat) (h : P w)
    (hrun : w.run cat rounds = some w') : P w' := by
  induction rounds generalizing w with
  | zero => cases hrun
  | succ rounds ih =>
    rw [Walk.run] at hrun
    split at hrun
    · obtain rfl := Option.some.inj hrun
      exact h
    · rename_i hqueue
      split at hrun
      · obtain rfl := Option.some.inj hrun
        exact hP.full h
      · split at hrun
        · exact ih (hnext h hqueue) hrun
        · exact ih (hP.expand cat _ (hnext h hqueue)) hrun

end Kept

/-- What `enter` does. -/
theorem enter_cases (h : w.enter n depth = some w') :
    (w.has (objectId n.owner n.name) = true ∧ w' = w) ∨
    (w.has (objectId n.owner n.name) = false ∧ w.nodes.length < maxVisionNodes ∧
      w' = { w with
        nodes := w.nodes ++
          [⟨objectId n.owner n.name, n.name, n.owner, n.type, "VALID".toList, 0, false⟩]
        queue := w.queue ++ [⟨n.owner, n.name, n.type, depth⟩] }) := by
  rw [enter] at h
  split at h
  · rename_i hhas
    exact .inl ⟨hhas, (Option.some.inj h).symm⟩
  · rename_i hhas
    split at h
    · cases h
    · rename_i hroom
      exact .inr ⟨by simpa using hhas, by omega, (Option.some.inj h).symm⟩

theorem enter_none : w.enter n depth = none ↔
    w.has (objectId n.owner n.name) = false ∧ maxVisionNodes ≤ w.nodes.length := by
  rw [enter]
  split
  · simp_all
  · split
    · simp_all
    · simp_all

@[simp] theorem has_addEdge (w : Walk) (e : VisionEdge) (id : Text) :
    (w.addEdge e).has id = w.has id := by
  rw [addEdge]
  split <;> rfl

theorem mem_addEdge {e f : VisionEdge} (h : f ∈ (w.addEdge e).edges) :
    f ∈ w.edges ∨ f = e := by
  rw [addEdge] at h
  split at h
  · exact .inl h
  · simpa using h

/-- An id stays in the graph. -/
theorem kept_has (id : Text) : Kept fun w => w.has id = true where
  enter := by
    intro w w' n depth h henter
    rcases enter_cases henter with ⟨-, rfl⟩ | ⟨-, -, rfl⟩
    · exact h
    · simp only [has, any_append, Bool.or_eq_true] at h ⊢
      exact .inl h
  addEdge := fun e h => by simpa using h
  full := fun h => h

/-- Nodes have distinct ids, no more of them than the limit; edges have distinct keys. -/
structure Inv (w : Walk) : Prop where
  ids : (w.nodes.map VisionNode.id).Nodup
  named : ∀ n ∈ w.nodes, n.id = objectId n.owner n.name
  few : w.nodes.length ≤ maxVisionNodes
  keys : (w.edges.map edgeKey).Nodup

theorem kept_inv : Kept Inv where
  enter := by
    intro w w' n depth h henter
    rcases enter_cases henter with ⟨-, rfl⟩ | ⟨hnew, hroom, rfl⟩
    · exact h
    · refine ⟨?_, ?_, ?_, h.keys⟩
      · have hfresh : ∀ m ∈ w.nodes, m.id ≠ objectId n.owner n.name := by
          simpa [has] using hnew
        simp only [map_append, map_cons, map_nil]
        refine nodup_append.mpr ⟨h.ids, nodup_singleton _, ?_⟩
        intro a ha b hb
        obtain ⟨m, hm, rfl⟩ := mem_map.mp ha
        rw [mem_singleton.mp hb]
        exact hfresh m hm
      · intro m hm
        rcases mem_append.mp hm with hm | hm
        · exact h.named m hm
        · rw [mem_singleton.mp hm]
      · rw [length_append]
        exact hroom
  addEdge := by
    intro w e h
    rw [addEdge]
    split
    · exact h
    · rename_i hnew
      refine ⟨h.ids, h.named, h.few, ?_⟩
      simp only [map_append, map_cons, map_nil]
      refine nodup_append.mpr ⟨h.keys, nodup_singleton _, ?_⟩
      intro a ha b hb hab
      rw [mem_singleton.mp hb] at hab
      exact hnew (contains_iff_mem.mpr (hab ▸ ha))
  full := fun h => ⟨h.ids, h.named, h.few, h.keys⟩

theorem passed_inv : Passed Inv := fun h _ => ⟨h.ids, h.named, h.few, h.keys⟩

end Walk

/-! ## 4. The ends of the edges -/

namespace Walk

/-- Both ends of an edge are nodes. -/
def HasEnds (w : Walk) (e : VisionEdge) : Prop := w.has e.source = true ∧ w.has e.target = true

def Closed (w : Walk) : Prop := ∀ e ∈ w.edges, w.HasEnds e

/-- The ids of a foreign key's tables that are no nodes. -/
def missing (w : Walk) (k : ForeignKey) : List Text :=
  [k.edge.source, k.edge.target].dedup.filter fun id => !w.has id

/-- A new edge for which the graph lacks a table and the room for it. -/
def Short (w : Walk) (k : ForeignKey) : Prop :=
  k.isSystem = false ∧ edgeKey k.edge ∉ w.edges.map edgeKey ∧
    maxVisionNodes < w.nodes.length + (w.missing k).length

/-- The foreign keys of a loop, with the walk in front of each. -/
def fkSteps (depth : Nat) : List ForeignKey → Walk → List (Walk × ForeignKey)
  | [], _ => []
  | k :: rows, w => (w, k) :: fkSteps depth rows (w.fkRow depth k)

def expandSteps (cat : Catalogue) (current : Item) (w : Walk) : List (Walk × ForeignKey) :=
  if current.type = "TABLE".toList then
    fkSteps (current.depth + 1) (fetched (fkRows cat current.owner current.name))
      (w.dependencies cat current)
  else []

/-- The foreign keys of a run, with the walk in front of each. -/
def runSteps (cat : Catalogue) : Nat → Walk → List (Walk × ForeignKey)
  | 0, _ => []
  | rounds + 1, w =>
    match w.queue with
    | [] => []
    | current :: queue =>
      if maxVisionNodes ≤ w.nodes.length then []
      else if maxVisionDepth ≤ current.depth then runSteps cat rounds { w with queue := queue }
      else
        expandSteps cat current { w with queue := queue } ++
          runSteps cat rounds (expand cat current { w with queue := queue })

theorem has_enter (h : w.enter n depth = some w') :
    w'.has (objectId n.owner n.name) = true := by
  rcases enter_cases h with ⟨hhas, rfl⟩ | ⟨-, -, rfl⟩
  · exact hhas
  · simp [has]

theorem edges_enter (h : w.enter n depth = some w') :
    w'.edges = w.edges := by
  rcases enter_cases h with ⟨-, rfl⟩ | ⟨-, -, rfl⟩
  · rfl
  · rfl

theorem closed_enter (h : w.Closed)
    (henter : w.enter n depth = some w') : w'.Closed := by
  intro e he
  rw [edges_enter henter] at he
  obtain ⟨hs, ht⟩ := h e he
  exact ⟨(kept_has _).enter hs henter, (kept_has _).enter ht henter⟩

theorem closed_addEdge {e : VisionEdge} (h : w.Closed) (he : w.HasEnds e) :
    (w.addEdge e).Closed := by
  intro f hf
  rw [HasEnds, has_addEdge, has_addEdge]
  rcases mem_addEdge hf with hf | rfl
  · exact h f hf
  · exact he

/-- The loops over dependencies push an edge between two nodes. -/
theorem closed_dependencyLoop {current : Item} {edge : Text → VisionEdge} {rows : List Named}
    (h : w.Closed)
    (hcurrent : w.has (objectId current.owner current.name) = true)
    (hedge : ∀ w : Walk, w.has (objectId current.owner current.name) = true →
      ∀ id, w.has id = true → w.HasEnds (edge id)) :
    (w.dependencyLoop current edge rows).Closed := by
  induction rows generalizing w with
  | nil => exact h
  | cons row rows ih =>
    rw [dependencyLoop]
    split
    · exact ih h hcurrent
    · split
      · exact ih h hcurrent
      · split
        · exact h
        · rename_i w' henter
          have hcurrent' := (kept_has _).enter hcurrent henter
          refine ih (closed_addEdge (closed_enter h henter) ?_) (by simpa using hcurrent')
          exact hedge w' hcurrent' _ (has_enter henter)

theorem closed_dependencies (cat : Catalogue) {current : Item} (h : w.Closed)
    (hcurrent : w.has (objectId current.owner current.name) = true) :
    (w.dependencies cat current).Closed := by
  refine closed_dependencyLoop (closed_dependencyLoop h hcurrent ?_) ?_ ?_
  · exact fun w hcur id hid => ⟨hcur, hid⟩
  · exact (kept_has _).dependencyLoop _ _ _ hcurrent
  · exact fun w hcur id hid => ⟨hid, hcur⟩

theorem edges_endsLoop (depth : Nat) (ends : List Named) (w : Walk) :
    (w.endsLoop depth ends).edges = w.edges := by
  induction ends generalizing w with
  | nil => rfl
  | cons n ends ih =>
    rw [endsLoop]
    split
    · rfl
    · rename_i henter
      rw [ih, edges_enter henter]

theorem closed_endsLoop {ends : List Named} (h : w.Closed) :
    (w.endsLoop depth ends).Closed := by
  intro e he
  rw [edges_endsLoop] at he
  exact ⟨(kept_has _).endsLoop _ _ (h e he).1, (kept_has _).endsLoop _ _ (h e he).2⟩

theorem length_missing (w : Walk) (k : ForeignKey) : (w.missing k).length =
    (if w.has k.edge.source then 0 else 1) +
      if w.has k.edge.target ∨ k.edge.source = k.edge.target then 0 else 1 := by
  rw [missing]
  by_cases hst : k.edge.source = k.edge.target
  · cases hs : w.has k.edge.target <;> simp [hst, hs]
  · cases hs : w.has k.edge.source <;> cases ht : w.has k.edge.target <;> simp [hst, hs, ht]

/-- Where there is room, an object is a node behind `enter`. -/
theorem enter_room (depth : Nat)
    (h : w.has (objectId n.owner n.name) = true ∨ w.nodes.length < maxVisionNodes) :
    ∃ w', w.enter n depth = some w' := by
  refine Option.ne_none_iff_exists'.mp fun hnone => ?_
  obtain ⟨hnew, hfull⟩ := enter_none.mp hnone
  rcases h with h | h
  · rw [hnew] at h
    cases h
  · omega

theorem length_enter (h : w.enter n depth = some w') :
    w'.nodes.length =
      w.nodes.length + if w.has (objectId n.owner n.name) then 0 else 1 := by
  rcases enter_cases h with ⟨hhas, rfl⟩ | ⟨hnew, -, rfl⟩
  · simp [hhas]
  · simp [hnew]

theorem has_enter_iff (h : w.enter n depth = some w')
    (id : Text) : w'.has id = true ↔ w.has id = true ∨ objectId n.owner n.name = id := by
  rcases enter_cases h with ⟨hhas, rfl⟩ | ⟨-, -, rfl⟩
  · refine ⟨.inl, fun hid => ?_⟩
    rcases hid with hid | rfl
    · exact hid
    · exact hhas
  · simp [has]

/-- The loop over two tables, written out. -/
theorem endsLoop_ends (depth : Nat) (w : Walk) (k : ForeignKey) : w.endsLoop depth k.ends =
    match w.enter k.source depth with
    | none => { w with truncated := true }
    | some w₁ =>
      match w₁.enter k.target depth with
      | none => { w₁ with truncated := true }
      | some w₂ => w₂ := rfl

/-- Where there is room for the tables that are missing, both become nodes. -/
theorem hasEnds_endsLoop {k : ForeignKey}
    (h : w.nodes.length + (w.missing k).length ≤ maxVisionNodes) :
    (w.endsLoop depth k.ends).HasEnds k.edge := by
  rw [length_missing] at h
  have hsource : w.has k.edge.source = true ∨ w.nodes.length < maxVisionNodes := by
    by_cases hs : w.has k.edge.source = true
    · exact .inl hs
    · rw [if_neg hs] at h
      exact .inr (by omega)
  obtain ⟨w₁, henter₁⟩ := enter_room (n := k.source) depth hsource
  have hlength : w₁.nodes.length = w.nodes.length + if w.has k.edge.source then 0 else 1 :=
    length_enter henter₁
  have hhas : ∀ id, w₁.has id = true ↔ w.has id = true ∨ k.edge.source = id :=
    has_enter_iff henter₁
  have htarget : w₁.has k.edge.target = true ∨ w₁.nodes.length < maxVisionNodes := by
    by_cases ht : w₁.has k.edge.target = true
    · exact .inl ht
    · rw [hhas] at ht
      rw [if_neg ht] at h
      exact .inr (by omega)
  obtain ⟨w₂, henter₂⟩ := enter_room (n := k.target) depth htarget
  rw [endsLoop_ends, henter₁]
  simp only [henter₂]
  exact ⟨(kept_has _).enter (has_enter henter₁) henter₂, has_enter henter₂⟩

/-- Where there is not, one of them stays missing and the graph is full. -/
theorem endsLoop_short {k : ForeignKey}
    (hfew : w.nodes.length ≤ maxVisionNodes)
    (h : maxVisionNodes < w.nodes.length + (w.missing k).length) :
    maxVisionNodes ≤ (w.endsLoop depth k.ends).nodes.length ∧
      ¬ (w.endsLoop depth k.ends).HasEnds k.edge := by
  rw [length_missing] at h
  rw [endsLoop_ends]
  cases henter₁ : w.enter k.source depth with
  | none =>
    obtain ⟨hnew, hfull⟩ := enter_none.mp henter₁
    exact ⟨hfull, fun hends => Bool.false_ne_true (hnew.symm.trans hends.1)⟩
  | some w₁ =>
    have hlength : w₁.nodes.length = w.nodes.length + if w.has k.edge.source then 0 else 1 :=
      length_enter henter₁
    have hhas : ∀ id, w₁.has id = true ↔ w.has id = true ∨ k.edge.source = id :=
      has_enter_iff henter₁
    show maxVisionNodes ≤ (match w₁.enter k.target depth with
      | none => { w₁ with truncated := true } | some w₂ => w₂).nodes.length ∧ ¬ HasEnds _ _
    have htarget : ¬ w₁.has k.edge.target = true ∧ maxVisionNodes ≤ w₁.nodes.length := by
      rw [hhas, hlength]
      by_cases ht : w.has k.edge.target = true ∨ k.edge.source = k.edge.target
      · -- only the source was missing, and it was entered
        rw [if_pos ht] at h
        rcases enter_cases henter₁ with ⟨hs, -⟩ | ⟨-, hroom, -⟩
        · rw [show w.has k.edge.source = true from hs, if_pos rfl] at h
          omega
        · split at h <;> omega
      · rw [if_neg ht] at h
        exact ⟨ht, by omega⟩
    have hnone : w₁.enter k.target depth = none :=
      enter_none.mpr ⟨Bool.eq_false_iff.mpr htarget.1, htarget.2⟩
    simp only [hnone]
    exact ⟨htarget.2, fun hends => htarget.1 hends.2⟩

/-! ## 5. A foreign key without its table -/

/-- In a full graph an edge that lacks an end keeps lacking it. -/
def Dangling (w : Walk) : Prop :=
  maxVisionNodes ≤ w.nodes.length ∧ ∃ e ∈ w.edges, ¬ w.HasEnds e

theorem kept_dangling : Kept Dangling where
  enter := by
    intro w w' n depth h henter
    rcases enter_cases henter with ⟨-, rfl⟩ | ⟨-, hroom, -⟩
    · exact h
    · exact absurd h.1 (by omega)
  addEdge := by
    intro w e ⟨hfull, f, hf, hends⟩
    rw [addEdge]
    split
    · exact ⟨hfull, f, hf, hends⟩
    · exact ⟨hfull, f, mem_append_left _ hf, hends⟩
  full := fun h => h

theorem closed_fkRow {k : ForeignKey} (h : w.Closed)
    (hfits : ¬ w.Short k) : (w.fkRow depth k).Closed := by
  rw [fkRow]
  split
  · exact h
  · rename_i hsystem
    by_cases hkey : edgeKey k.edge ∈ w.edges.map edgeKey
    · -- the edge is there already
      rw [addEdge, if_pos (by rw [edges_endsLoop]; exact contains_iff_mem.mpr hkey)]
      exact closed_endsLoop h
    · refine closed_addEdge (closed_endsLoop h) (hasEnds_endsLoop ?_)
      by_contra hroom
      exact hfits ⟨Bool.eq_false_iff.mpr hsystem, hkey, by omega⟩

theorem dangling_fkRow {k : ForeignKey}
    (hfew : w.nodes.length ≤ maxVisionNodes) (h : w.Short k) : (w.fkRow depth k).Dangling := by
  obtain ⟨hsystem, hkey, hroom⟩ := h
  obtain ⟨hfull, hends⟩ : maxVisionNodes ≤ (w.endsLoop depth k.ends).nodes.length ∧
      ¬ (w.endsLoop depth k.ends).HasEnds k.edge := endsLoop_short hfew hroom
  rw [fkRow, if_neg (by rw [hsystem]; decide), addEdge, if_neg]
  · exact ⟨hfull, k.edge, mem_append_right _ (mem_singleton_self _), hends⟩
  · rw [edges_endsLoop, contains_iff_mem]
    exact hkey

/-- A loop over foreign keys leaves every edge with its ends, or one of the keys was short of a
table. -/
theorem fkLoop_closed (depth : Nat) (rows : List ForeignKey) (h : w.Closed)
    (hfits : ∀ s ∈ fkSteps depth rows w, ¬ s.1.Short s.2) :
    (rows.foldl (fkRow depth) w).Closed := by
  induction rows generalizing w with
  | nil => exact h
  | cons k rows ih =>
    refine ih (closed_fkRow h (hfits _ mem_cons_self)) fun s hs => ?_
    exact hfits s (mem_cons_of_mem _ hs)

theorem fkLoop_dangling (depth : Nat) (rows : List ForeignKey) (h : w.Inv)
    {s : Walk × ForeignKey} (hs : s ∈ fkSteps depth rows w) (hshort : s.1.Short s.2) :
    (rows.foldl (fkRow depth) w).Dangling := by
  induction rows generalizing w with
  | nil => cases hs
  | cons k rows ih =>
    rcases mem_cons.mp hs with rfl | hs
    · exact kept_dangling.fkRows depth rows (dangling_fkRow h.few hshort)
    · exact ih (kept_inv.fkRow depth k h) hs

theorem expand_closed (cat : Catalogue) {current : Item} (h : w.Closed)
    (hcurrent : w.has (objectId current.owner current.name) = true)
    (hfits : ∀ s ∈ expandSteps cat current w, ¬ s.1.Short s.2) :
    (w.expand cat current).Closed := by
  rw [expand]
  split
  · rename_i htable
    rw [expandSteps, if_pos htable] at hfits
    exact fkLoop_closed _ _ (closed_dependencies cat h hcurrent) hfits
  · exact closed_dependencies cat h hcurrent

theorem expand_dangling (cat : Catalogue) {current : Item} (h : w.Inv)
    {s : Walk × ForeignKey} (hs : s ∈ expandSteps cat current w) (hshort : s.1.Short s.2) :
    (w.expand cat current).Dangling := by
  rw [expandSteps] at hs
  rw [expand]
  split at hs
  · rename_i htable
    rw [if_pos htable]
    exact fkLoop_dangling _ _ (kept_inv.dependencies cat current h) hs hshort
  · cases hs

/-- Every object in the queue is a node. -/
def Queued (w : Walk) : Prop :=
  ∀ item ∈ w.queue, w.has (objectId item.owner item.name) = true

theorem kept_queued : Kept Queued where
  enter := by
    intro w w' n depth h henter item hitem
    have hold : item ∈ w.queue → w'.has (objectId item.owner item.name) = true :=
      fun hmem => (kept_has _).enter (h item hmem) henter
    rcases enter_cases henter with ⟨-, rfl⟩ | ⟨-, -, rfl⟩
    · exact hold hitem
    · rcases mem_append.mp hitem with hitem | hitem
      · exact hold hitem
      · obtain rfl := mem_singleton.mp hitem
        exact has_enter henter
  addEdge := by
    intro w e h item hitem
    rw [has_addEdge]
    refine h item ?_
    rw [addEdge] at hitem
    split at hitem <;> exact hitem
  full := fun h => h

theorem passed_queued : Passed Queued :=
  fun h hqueue item hitem => h item (hqueue ▸ mem_cons_of_mem _ hitem)

theorem run_closed (cat : Catalogue) (rounds : Nat) (hqueued : w.Queued)
    (hclosed : w.Closed) (hrun : w.run cat rounds = some w')
    (hfits : ∀ s ∈ runSteps cat rounds w, ¬ s.1.Short s.2) : w'.Closed := by
  induction rounds generalizing w with
  | zero => cases hrun
  | succ rounds ih =>
    rw [run] at hrun
    rw [runSteps] at hfits
    split at hrun
    · obtain rfl := Option.some.inj hrun
      exact hclosed
    · rename_i current queue hqueue
      have hqueued' := passed_queued hqueued hqueue
      have hcurrent := hqueued current (hqueue ▸ mem_cons_self)
      simp only [hqueue] at hfits
      split at hrun
      · obtain rfl := Option.some.inj hrun
        exact hclosed
      · rename_i hfull
        rw [if_neg hfull] at hfits
        split at hrun
        · rename_i hdepth
          rw [if_pos hdepth] at hfits
          exact ih hqueued' hclosed hrun hfits
        · rename_i hdepth
          rw [if_neg hdepth] at hfits
          refine ih (kept_queued.expand cat current hqueued') ?_ hrun
            fun s hs => hfits s (mem_append_right _ hs)
          exact expand_closed cat (w := { w with queue := queue }) hclosed hcurrent
            fun s hs => hfits s (mem_append_left _ hs)

theorem run_dangling (cat : Catalogue) (rounds : Nat) (hinv : w.Inv)
    (hrun : w.run cat rounds = some w') {s : Walk × ForeignKey}
    (hs : s ∈ runSteps cat rounds w) (hshort : s.1.Short s.2) : w'.Dangling := by
  induction rounds generalizing w with
  | zero => cases hrun
  | succ rounds ih =>
    rw [run] at hrun
    rw [runSteps] at hs
    split at hrun
    · rename_i hqueue
      simp only [hqueue] at hs
      cases hs
    · rename_i current queue hqueue
      have hinv' := passed_inv hinv hqueue
      simp only [hqueue] at hs
      split at hrun
      · rename_i hfull
        rw [if_pos hfull] at hs
        cases hs
      · rename_i hfull
        rw [if_neg hfull] at hs
        split at hrun
        · rename_i hdepth
          rw [if_pos hdepth] at hs
          exact ih hinv' hrun hs
        · rename_i hdepth
          rw [if_neg hdepth] at hs
          rcases mem_append.mp hs with hs | hs
          · exact kept_dangling.run (fun h _ => h) cat rounds (expand_dangling cat hinv' hs hshort) hrun
          · exact ih (kept_inv.expand cat current hinv') hrun hs

/-- **When every edge has its ends**: no foreign key of the run was short of a table. -/
theorem closed_iff (cat : Catalogue) (rounds : Nat) (hinv : w.Inv)
    (hqueued : w.Queued) (hclosed : w.Closed) (hrun : w.run cat rounds = some w') :
    w'.Closed ↔ ∀ s ∈ runSteps cat rounds w, ¬ s.1.Short s.2 := by
  constructor
  · intro hend s hs hshort
    obtain ⟨-, e, he, hends⟩ := run_dangling cat rounds hinv hrun hs hshort
    exact hends (hend e he)
  · exact run_closed cat rounds hqueued hclosed hrun

end Walk

theorem inv_startWalk (p : VisionParams) : (startWalk p).Inv :=
  ⟨nodup_singleton _, by simp [startWalk], by simp [startWalk, maxVisionNodes],
    nodup_nil⟩

theorem queued_startWalk (p : VisionParams) : (startWalk p).Queued := by
  intro item hitem
  obtain rfl := mem_singleton.mp hitem
  simp [startWalk, Walk.has]

theorem closed_startWalk (p : VisionParams) : (startWalk p).Closed := fun _ he => nomatch he

/-! ## 6. The loop comes to its end -/

namespace Walk

/-- Nodes and queue grow together. -/
theorem kept_growth (a b : Nat) : Kept fun w => w.nodes.length + a = w.queue.length + b where
  enter := by
    intro w w' n depth h henter
    rcases enter_cases henter with ⟨-, rfl⟩ | ⟨-, -, rfl⟩
    · exact h
    · simp only [length_append, length_singleton]
      omega
  addEdge := by
    intro w e h
    rw [addEdge]
    split <;> exact h
  full := fun h => h

/-- Every round takes an object from the queue, and no more are queued than become nodes. -/
theorem exists_run (cat : Catalogue) (rounds : Nat) (h : w.Inv)
    (hrounds : w.queue.length + maxVisionNodes < rounds + w.nodes.length) :
    ∃ w', w.run cat rounds = some w' := by
  induction rounds generalizing w with
  | zero =>
    have := h.few
    omega
  | succ rounds ih =>
    rw [run]
    split
    · exact ⟨w, rfl⟩
    · rename_i current queue hqueue
      have hlength : w.queue.length = queue.length + 1 := by rw [hqueue, length_cons]
      have hinv := passed_inv h hqueue
      split
      · exact ⟨_, rfl⟩
      · split
        · exact ih hinv (show queue.length + maxVisionNodes < rounds + w.nodes.length by omega)
        · refine ih (kept_inv.expand cat current hinv) ?_
          have hgrowth := (kept_growth queue.length w.nodes.length).expand cat current
            (w := { w with queue := queue }) (Nat.add_comm _ _)
          omega

end Walk

/-! ## 7. The nodes and edges of the result -/

theorem degreeMap_eq (edges : List VisionEdge) (id : Text) :
    degreeMap edges id = (edges.flatMap fun e => [e.source, e.target]).count id := by
  have hfold : ∀ (edges : List VisionEdge) (m : Text → Nat),
      edges.foldl (fun m e =>
        let m := Function.update m e.source (m e.source + 1)
        Function.update m e.target (m e.target + 1)) m id =
          m id + (edges.flatMap fun e => [e.source, e.target]).count id := by
    intro edges
    induction edges with
    | nil => exact fun m => rfl
    | cons e edges ih =>
      intro m
      rw [foldl_cons, ih, flatMap_cons, count_append]
      have hends : Function.update (Function.update m e.source (m e.source + 1)) e.target
          (Function.update m e.source (m e.source + 1) e.target + 1) id =
            m id + List.count id [e.source, e.target] := by
        by_cases ht : id = e.target
        · by_cases hs : e.target = e.source
          · simp [ht, hs]
          · simp [ht, hs, Ne.symm hs]
        · by_cases hs : id = e.source
          · simp [hs, hs ▸ ht, Ne.symm (hs ▸ ht)]
          · simp [ht, hs, Ne.symm ht, Ne.symm hs]
      rw [hends, Nat.add_assoc]
  rw [degreeMap, hfold, Nat.zero_add]

/-- A node but for its status. -/
def VisionNode.bare (n : VisionNode) : VisionNode := { n with status := [] }

/-- The statuses are all that changes. -/
theorem bare_withStatus (cat : Catalogue) (owner : Text) (nodes : List VisionNode) :
    (withStatus cat owner nodes).map VisionNode.bare = nodes.map VisionNode.bare := by
  have hfold : ∀ (rows : List ObjectRow) (l : List VisionNode),
      (rows.foldl (fun nodes o => nodes.map fun n =>
        if n.id = objectId owner o.objectName then { n with status := o.status } else n) l).map
          VisionNode.bare = l.map VisionNode.bare := by
    intro rows
    induction rows with
    | nil => exact fun l => rfl
    | cons o rows ih =>
      intro l
      rw [foldl_cons, ih, map_map]
      refine map_congr_left fun n _ => ?_
      show VisionNode.bare (if _ then _ else _) = _
      split <;> rfl
  exact hfold _ nodes

end Veesker.Sidecar.Vision
