/-
  File:      Veesker/Sidecar/VisionReach.lean
  Subject:   WHAT THE GRAPH AROUND AN OBJECT SHOULD HOLD, and when it does.

  * `GraphOk` -- few nodes of distinct ids, edges between them, degrees that count them and, where
    nothing was cut off, every object within the depth and every edge at one that was expanded;
  * `built` -- the walk without its limit, `follows_expand` the limited walk's relation to it;
  * **`visionGraph_ok_iff`** -- **when the graph is as it should be**.
-/
import Veesker.Sidecar.Vision
import Veesker.Run.Hops

namespace Veesker.Sidecar.Vision

open Run List

/-! ## 1. What the graph should hold -/

/-- An object by its owner and its name. -/
abbrev Obj := Text × Text

def objId (x : Obj) : Text := objectId x.1 x.2

def Dependency.source (d : Dependency) : Obj := (d.owner, d.name)

def Dependency.target (d : Dependency) : Obj := (d.referencedOwner, d.referencedName)

/-- An edge at an object, and the object at its other end. -/
inductive EdgeAt (cat : Catalogue) (x : Obj) : VisionEdge → Obj → Prop where
  | reference {d : Dependency} (hd : d ∈ cat.dependencies) (hx : d.source = x)
      (htype : d.referencedType ∉ unlistedTypes) (hne : d.target ≠ x) :
      EdgeAt cat x ⟨objId x, objId d.target, .dep⟩ d.target
  | dependent {d : Dependency} (hd : d ∈ cat.dependencies) (hx : d.target = x)
      (htype : d.type ∉ unlistedTypes) (hne : d.source ≠ x) :
      EdgeAt cat x ⟨objId d.source, objId x, .dep⟩ d.source
  | fk {k : ForeignKey} (hk : k ∈ cat.foreignKeys) (hx : (k.owner, k.tableName) = x) :
      EdgeAt cat x k.edge (k.referencedOwner, k.referencedTable)
  | fkTo {k : ForeignKey} (hk : k ∈ cat.foreignKeys)
      (hx : (k.referencedOwner, k.referencedTable) = x) :
      EdgeAt cat x k.edge (k.owner, k.tableName)

def Joined (cat : Catalogue) (x y : Obj) : Prop := ∃ e, EdgeAt cat x e y

def VisionParams.origin (p : VisionParams) : Obj :=
  (toUpperCase p.owner, toUpperCase p.objectName)

/-- In fewer hops than `n` from the origin. -/
def Within (cat : Catalogue) (p : VisionParams) (n : Nat) (x : Obj) : Prop :=
  Nearer (· = p.origin) (Joined cat) n x

/-- All objects within the depth, and all edges at those that are expanded. -/
structure Complete (cat : Catalogue) (p : VisionParams) (r : VisionGraphResult) : Prop where
  objects : ∀ x, Within cat p (maxVisionDepth + 1) x →
    ∃ n ∈ r.nodes, n.owner = x.1 ∧ n.name = x.2
  edges : ∀ x, Within cat p maxVisionDepth x → ∀ e y, EdgeAt cat x e y → e ∈ r.edges

structure GraphOk (cat : Catalogue) (p : VisionParams) (r : VisionGraphResult) : Prop where
  few : r.nodes.length ≤ maxVisionNodes
  ids : (r.nodes.map VisionNode.id).Nodup
  ends : ∀ e ∈ r.edges, e.source ∈ r.nodes.map VisionNode.id ∧ e.target ∈ r.nodes.map VisionNode.id
  once : r.edges.Nodup
  degrees : ∀ n ∈ r.nodes,
    n.degree = (r.edges.flatMap fun e => [e.source, e.target]).count n.id
  complete : r.truncated = false → Complete cat p r

/-! ## 2. The walk without its limit -/

/-- A row that a loop does not skip: the objects that it names, and its edge. -/
structure KeptRow where
  named : List Named
  edge : VisionEdge

/-- The rows that are kept of those of a query on dependencies. -/
def keptDependencies (current : Item) (edge : Text → VisionEdge) (rows : List Named) :
    List KeptRow :=
  (rows.filter fun n => !systemSchemas.contains n.owner &&
    objectId n.owner n.name ≠ objectId current.owner current.name).map fun n =>
      ⟨[n], edge (objectId n.owner n.name)⟩

def keptKeys (rows : List ForeignKey) : List KeptRow :=
  (rows.filter fun k => !k.isSystem).map fun k => ⟨k.ends, k.edge⟩

def keptRows (cat : Catalogue) (current : Item) : List KeptRow :=
  let currentId := objectId current.owner current.name
  keptDependencies current (fun id => ⟨currentId, id, .dep⟩)
      (fetched (upRows cat current.owner current.name)) ++
    (keptDependencies current (fun id => ⟨id, currentId, .dep⟩)
      (fetched (dnRows cat current.owner current.name)) ++
    if current.type = "TABLE".toList then
      keptKeys (fetched (fkRows cat current.owner current.name)) else [])

/-- Nodes and edges. -/
structure Graph where
  nodes : List VisionNode
  edges : List VisionEdge

namespace Graph

def has (g : Graph) (id : Text) : Bool := g.nodes.any (·.id = id)

def join (g : Graph) (n : Named) : Graph :=
  let id := objectId n.owner n.name
  if g.has id then g
  else { g with nodes := g.nodes ++ [⟨id, n.name, n.owner, n.type, "VALID".toList, 0, false⟩] }

def addEdge (g : Graph) (e : VisionEdge) : Graph :=
  if (g.edges.map edgeKey).contains (edgeKey e) then g else { g with edges := g.edges ++ [e] }

def handle (g : Graph) (row : KeptRow) : Graph := (row.named.foldl join g).addEdge row.edge

def build (g : Graph) (rows : List KeptRow) : Graph := rows.foldl handle g

theorem length_join (g : Graph) (n : Named) : g.nodes.length ≤ (g.join n).nodes.length := by
  rw [join]
  split <;> simp

theorem length_joins (g : Graph) (ns : List Named) :
    g.nodes.length ≤ (ns.foldl join g).nodes.length := by
  induction ns generalizing g with
  | nil => exact le_rfl
  | cons n ns ih => exact (length_join g n).trans (ih _)

theorem nodes_addEdge (g : Graph) (e : VisionEdge) : (g.addEdge e).nodes = g.nodes := by
  rw [addEdge]
  split <;> rfl

theorem length_handle (g : Graph) (row : KeptRow) :
    g.nodes.length ≤ (g.handle row).nodes.length := by
  rw [handle, nodes_addEdge]
  exact length_joins g row.named

theorem length_build (g : Graph) (rows : List KeptRow) :
    g.nodes.length ≤ (g.build rows).nodes.length := by
  induction rows generalizing g with
  | nil => exact le_rfl
  | cons row rows ih => exact (length_handle g row).trans (ih _)

theorem build_append (g : Graph) (rows rows' : List KeptRow) :
    g.build (rows ++ rows') = (g.build rows).build rows' := foldl_append

end Graph

/-! ## 3. The limited walk follows it -/

def VisionNode.item (depth : Nat) (n : VisionNode) : Item := ⟨n.owner, n.name, n.type, depth⟩

variable {cat : Catalogue}

namespace Walk

/-- The limited walk has the graph's nodes and edges, and has queued the nodes behind the first
`seen` of them. -/
structure Holds (queue : List Item) (seen depth : Nat) (w : Walk) (g : Graph) : Prop where
  nodes : w.nodes = g.nodes
  edges : w.edges = g.edges
  queued : w.queue = queue ++ (g.nodes.drop seen).map (VisionNode.item depth)
  old : seen ≤ g.nodes.length
  whole : w.truncated = false

/-- It is full where the graph goes over the limit. -/
def Left (w : Walk) (g : Graph) : Prop :=
  maxVisionNodes ≤ w.nodes.length ∧ maxVisionNodes < g.nodes.length

def Follows (queue : List Item) (seen depth : Nat) (w : Walk) (g : Graph) : Prop :=
  Holds queue seen depth w g ∨ Left w g

variable {queue : List Item} {seen depth : Nat} {w : Walk} {g : Graph}

theorem kept_full : Kept fun w => maxVisionNodes ≤ w.nodes.length where
  enter := by
    intro w w' n depth h henter
    rw [length_enter henter]
    omega
  addEdge := by
    intro w e h
    rw [addEdge]
    split <;> exact h
  full := fun h => h

theorem Holds.has (h : Holds queue seen depth w g) (id : Text) : w.has id = g.has id := by
  rw [Walk.has, Graph.has, h.nodes]

theorem Holds.addEdge (h : Holds queue seen depth w g) (e : VisionEdge) :
    Holds queue seen depth (w.addEdge e) (g.addEdge e) := by
  rw [Walk.addEdge, Graph.addEdge, h.edges]
  split
  · exact h
  · exact ⟨h.nodes, rfl, h.queued, h.old, h.whole⟩

/-- An object is entered as it joins the graph, or finds the walk full. -/
theorem Holds.enter (h : Holds queue seen depth w g) (n : Named) :
    (∃ w', w.enter n depth = some w' ∧ Holds queue seen depth w' (g.join n)) ∨
      (w.enter n depth = none ∧ maxVisionNodes ≤ w.nodes.length ∧
        maxVisionNodes < (g.join n).nodes.length) := by
  rw [Graph.join, ← h.has]
  cases henter : w.enter n depth with
  | none =>
    obtain ⟨hnew, hfull⟩ := enter_none.mp henter
    refine .inr ⟨rfl, hfull, ?_⟩
    rw [hnew, if_neg Bool.false_ne_true]
    simp only [length_append, length_singleton, ← h.nodes]
    omega
  | some w' =>
    refine .inl ⟨w', rfl, ?_⟩
    rcases enter_cases henter with ⟨hhas, rfl⟩ | ⟨hnew, -, rfl⟩
    · rw [if_pos hhas]
      exact h
    · rw [hnew, if_neg Bool.false_ne_true]
      have hold := h.old
      refine ⟨?_, h.edges, ?_, ?_, h.whole⟩
      · rw [← h.nodes]
      · rw [drop_append_of_le_length hold, map_append, ← append_assoc, ← h.queued]
        rfl
      · simp only [length_append]
        omega

theorem follows_dependencyLoop (current : Item) (edge : Text → VisionEdge) (rows : List Named)
    (h : Follows queue seen (current.depth + 1) w g) :
    Follows queue seen (current.depth + 1) (w.dependencyLoop current edge rows)
      (g.build (keptDependencies current edge rows)) := by
  rcases h with h | ⟨hfull, hover⟩
  · induction rows generalizing w g with
    | nil => exact .inl h
    | cons row rows ih =>
      rw [dependencyLoop, keptDependencies]
      split
      · rename_i hsystem
        rw [filter_cons_of_neg (by rw [hsystem]; simp)]
        exact ih h
      · rename_i hsystem
        split
        · rename_i hself
          rw [filter_cons_of_neg (by simp [hself])]
          exact ih h
        · rename_i hself
          rw [filter_cons_of_pos (by rw [Bool.eq_false_iff.mpr hsystem]; simp [hself]), map_cons]
          rcases h.enter row with ⟨w', henter, hw'⟩ | ⟨henter, hfull, hover⟩
          · simp only [henter]
            exact ih (hw'.addEdge _)
          · simp only [henter]
            have hhandle := Graph.nodes_addEdge (g.join row) (edge (objectId row.owner row.name))
            rw [← hhandle] at hover
            exact .inr ⟨hfull, hover.trans_le (Graph.length_build _ _)⟩
  · exact .inr ⟨kept_full.dependencyLoop _ _ _ hfull, hover.trans_le (Graph.length_build _ _)⟩

theorem follows_endsLoop (ends : List Named) (h : Holds queue seen depth w g) :
    Follows queue seen depth (w.endsLoop depth ends) (ends.foldl Graph.join g) := by
  induction ends generalizing w g with
  | nil => exact .inl h
  | cons n ends ih =>
    rw [endsLoop]
    rcases h.enter n with ⟨w', henter, hw'⟩ | ⟨henter, hfull, hover⟩
    · simp only [henter]
      exact ih hw'
    · simp only [henter]
      exact .inr ⟨hfull, hover.trans_le (Graph.length_joins _ _)⟩

theorem follows_fkRows (rows : List ForeignKey) (h : Follows queue seen depth w g) :
    Follows queue seen depth (rows.foldl (fkRow depth) w) (g.build (keptKeys rows)) := by
  rcases h with h | ⟨hfull, hover⟩
  · induction rows generalizing w g with
    | nil => exact .inl h
    | cons k rows ih =>
      rw [foldl_cons, fkRow, keptKeys]
      split
      · rename_i hsystem
        rw [filter_cons_of_neg (by rw [hsystem]; decide)]
        exact ih h
      · rename_i hsystem
        rw [filter_cons_of_pos (by rw [Bool.eq_false_iff.mpr hsystem]; rfl), map_cons]
        rcases follows_endsLoop k.ends h with hends | ⟨hfull, hover⟩
        · exact ih (hends.addEdge _)
        · rw [← Graph.nodes_addEdge _ k.edge] at hover
          refine .inr ⟨kept_full.fkRows _ _ (kept_full.addEdge _ hfull), ?_⟩
          exact hover.trans_le (Graph.length_build _ _)
  · exact .inr ⟨kept_full.fkRows _ _ hfull, hover.trans_le (Graph.length_build _ _)⟩

/-- **What is looked up for an object** is its kept rows, until the walk is full. -/
theorem follows_expand (cat : Catalogue) (current : Item)
    (h : Follows queue seen (current.depth + 1) w g) :
    Follows queue seen (current.depth + 1) (w.expand cat current)
      (g.build (keptRows cat current)) := by
  have hdependencies := follows_dependencyLoop current
    (fun id => ⟨id, objectId current.owner current.name, .dep⟩)
    (fetched (dnRows cat current.owner current.name))
    (follows_dependencyLoop current (fun id => ⟨objectId current.owner current.name, id, .dep⟩)
      (fetched (upRows cat current.owner current.name)) h)
  rw [keptRows, Graph.build_append, Graph.build_append, expand]
  split
  · exact follows_fkRows _ hdependencies
  · exact hdependencies

/-! ## 4. The levels of the walk -/

/-- The walk comes out as the graph, or is truncated where the graph reaches the limit. -/
def ComesOut (w : Walk) (g : Graph) : Prop :=
  (g.nodes.length < maxVisionNodes →
    w.nodes = g.nodes ∧ w.edges = g.edges ∧ w.truncated = false) ∧
  (maxVisionNodes ≤ g.nodes.length → w.truncated = true)

/-- A full walk ends with the next round. -/
theorem comesOut_full {rounds : Nat} {w w' : Walk}
    (hfull : maxVisionNodes ≤ w.nodes.length) (hqueue : w.queue ≠ [])
    (hrun : w.run cat rounds = some w') (hg : maxVisionNodes ≤ g.nodes.length) :
    w'.ComesOut g := by
  refine ⟨fun h => absurd hg (by omega), fun _ => ?_⟩
  cases rounds with
  | zero => cases hrun
  | succ rounds =>
    rw [run] at hrun
    split at hrun
    · rename_i hempty
      exact absurd hempty hqueue
    · rw [if_pos hfull] at hrun
      cases hrun
      rfl

/-- What one object's lookup leaves for the rounds behind it. -/
theorem comesOut_expand {rounds : Nat} (current : Item) (queue : List Item)
    {w w' : Walk} {g g' : Graph} (hnodes : w.nodes = g.nodes) (hedges : w.edges = g.edges)
    (hwhole : w.truncated = false) (hroom : w.nodes.length < maxVisionNodes)
    (hrun : (expand cat current { w with queue := queue }).run cat rounds = some w')
    (hg' : (g.build (keptRows cat current)).nodes.length ≤ g'.nodes.length)
    (hrest : ∀ w₁ : Walk, Holds queue g.nodes.length (current.depth + 1) w₁
      (g.build (keptRows cat current)) → (maxVisionNodes ≤ w₁.nodes.length → w₁.queue ≠ []) →
        w₁.run cat rounds = some w' → w'.ComesOut g') : w'.ComesOut g' := by
  have hstart : Holds queue g.nodes.length (current.depth + 1) { w with queue := queue } g :=
    ⟨hnodes, hedges, by simp, le_rfl, hwhole⟩
  have hgrowth := (kept_growth queue.length w.nodes.length).expand cat current
    (w := { w with queue := queue }) (Nat.add_comm _ _)
  have hqueued : maxVisionNodes ≤ (expand cat current { w with queue := queue }).nodes.length →
      (expand cat current { w with queue := queue }).queue ≠ [] := by
    intro hfull hempty
    rw [hempty, length_nil] at hgrowth
    omega
  rcases follows_expand cat current (.inl hstart) with hholds | ⟨hfull, hover⟩
  · exact hrest _ hholds hqueued hrun
  · exact comesOut_full hfull (hqueued hfull) hrun (hover.le.trans hg')

/-- The objects one hop away are expanded, those behind them are not. -/
theorem comesOut_level {rounds : Nat} {w w' : Walk} {g : Graph}
    (near far : List Item) (hnodes : w.nodes = g.nodes) (hedges : w.edges = g.edges)
    (hwhole : w.truncated = false) (hqueue : w.queue = near ++ far)
    (hnear : ∀ item ∈ near, item.depth = 1) (hfar : ∀ item ∈ far, item.depth = 2)
    (hfull : maxVisionNodes ≤ w.nodes.length → w.queue ≠ [])
    (hrun : w.run cat rounds = some w') :
    w'.ComesOut (g.build (near.flatMap (keptRows cat))) := by
  induction rounds generalizing w g near far with
  | zero => cases hrun
  | succ rounds ih =>
    by_cases hroom : maxVisionNodes ≤ w.nodes.length
    · refine comesOut_full hroom (hfull hroom) hrun ?_
      rw [hnodes] at hroom
      exact hroom.trans (Graph.length_build _ _)
    · rw [run, hqueue] at hrun
      cases near with
      | nil =>
        cases far with
        | nil =>
          cases hrun
          refine ⟨fun _ => ⟨hnodes, hedges, hwhole⟩, fun h => ?_⟩
          rw [hnodes] at hroom
          exact absurd h hroom
        | cons current far =>
          have hdepth : maxVisionDepth ≤ current.depth :=
            (hfar current mem_cons_self).ge
          simp only [nil_append, if_neg hroom, if_pos hdepth] at hrun
          exact ih (w := { w with queue := far }) [] far hnodes hedges hwhole rfl hnear
            (fun item hitem => hfar item (mem_cons_of_mem _ hitem))
            (fun h => absurd h hroom) hrun
      | cons current near =>
        have hdepth := hnear current mem_cons_self
        have hnot : ¬ maxVisionDepth ≤ current.depth := by rw [hdepth]; decide
        simp only [cons_append, if_neg hroom, if_neg hnot] at hrun
        rw [flatMap_cons, Graph.build_append]
        refine comesOut_expand current (near ++ far) hnodes hedges hwhole (by omega) hrun
          (Graph.length_build _ _) ?_
        intro w₁ hholds hfull₁ hrun₁
        have hqueue₁ := hholds.queued.trans (append_assoc _ _ _)
        refine ih near _ hholds.nodes hholds.edges hholds.whole hqueue₁
          (fun item hitem => hnear item (mem_cons_of_mem _ hitem)) ?_ hfull₁ hrun₁
        intro item hitem
        rcases mem_append.mp hitem with hitem | hitem
        · exact hfar item hitem
        · obtain ⟨n, -, rfl⟩ := mem_map.mp hitem
          show current.depth + 1 = 2
          rw [hdepth]

end Walk

def originItem (p : VisionParams) : Item :=
  ⟨toUpperCase p.owner, toUpperCase p.objectName, toUpperCase p.objectType, 0⟩

def startGraph (p : VisionParams) : Graph := ⟨(startWalk p).nodes, []⟩

/-- The objects that the origin's rows name, as they are first named. -/
def firstItems (cat : Catalogue) (p : VisionParams) : List Item :=
  (((startGraph p).build (keptRows cat (originItem p))).nodes.drop 1).map (VisionNode.item 1)

/-- The kept rows of the origin and of the objects that these name. -/
def rowsAround (cat : Catalogue) (p : VisionParams) : List KeptRow :=
  keptRows cat (originItem p) ++ (firstItems cat p).flatMap (keptRows cat)

/-- The graph of all of them. -/
def unlimited (cat : Catalogue) (p : VisionParams) : Graph :=
  (startGraph p).build (rowsAround cat p)

/-- The origin is expanded first. -/
theorem run_startWalk (cat : Catalogue) (rounds : Nat) (p : VisionParams) :
    (startWalk p).run cat (rounds + 1) =
      ({ startWalk p with queue := [] }.expand cat (originItem p)).run cat rounds := rfl

/-- **The walk comes out as the unlimited graph**, or is truncated. -/
theorem comesOut_run {p : VisionParams} {rounds : Nat} {w : Walk}
    (hrun : (startWalk p).run cat rounds = some w) : w.ComesOut (unlimited cat p) := by
  cases rounds with
  | zero => cases hrun
  | succ rounds =>
    rw [unlimited, rowsAround, Graph.build_append]
    refine Walk.comesOut_expand (w := startWalk p) (g := startGraph p) (originItem p) [] rfl rfl
      rfl (show 1 < 150 by decide) hrun (Graph.length_build _ _) ?_
    intro w₁ hholds hfull hrun₁
    refine Walk.comesOut_level _ [] hholds.nodes hholds.edges hholds.whole ?_ ?_
      (fun _ h => nomatch h) hfull hrun₁
    · rw [hholds.queued, append_nil, nil_append]
      rfl
    · intro item hitem
      obtain ⟨n, -, rfl⟩ := mem_map.mp hitem
      rfl

/-! ## 5. What the unlimited graph holds -/

def Named.node (n : Named) : VisionNode :=
  ⟨objectId n.owner n.name, n.name, n.owner, n.type, "VALID".toList, 0, false⟩

variable {row : KeptRow}

namespace Graph

variable {g : Graph} {rows : List KeptRow}

theorem nodes_join (g : Graph) (n : Named) :
    (g.join n).nodes = g.nodes ∨ (g.join n).nodes = g.nodes ++ [n.node] := by
  rw [join]
  split
  · exact .inl rfl
  · exact .inr rfl

theorem mem_join {n : Named} {m : VisionNode} (h : m ∈ (g.join n).nodes) :
    m ∈ g.nodes ∨ m = n.node := by
  rcases nodes_join g n with hn | hn
  · exact .inl (hn ▸ h)
  · rw [hn, mem_append, mem_singleton] at h
    exact h

theorem mem_joins {ns : List Named} {m : VisionNode} (h : m ∈ (ns.foldl join g).nodes) :
    m ∈ g.nodes ∨ ∃ n ∈ ns, m = n.node := by
  induction ns generalizing g with
  | nil => exact .inl h
  | cons n ns ih =>
    rcases ih h with h | ⟨k, hk, rfl⟩
    · rcases mem_join h with h | rfl
      · exact .inl h
      · exact .inr ⟨n, mem_cons_self, rfl⟩
    · exact .inr ⟨k, mem_cons_of_mem _ hk, rfl⟩

/-- A node was there or is named by a row. -/
theorem mem_nodes_build {m : VisionNode} (h : m ∈ (g.build rows).nodes) :
    m ∈ g.nodes ∨ ∃ row ∈ rows, ∃ n ∈ row.named, m = n.node := by
  induction rows generalizing g with
  | nil => exact .inl h
  | cons row rows ih =>
    rcases ih h with h | ⟨r, hr, hnamed⟩
    · rw [handle, nodes_addEdge] at h
      rcases mem_joins h with h | hnamed
      · exact .inl h
      · exact .inr ⟨row, mem_cons_self, hnamed⟩
    · exact .inr ⟨r, mem_cons_of_mem _ hr, hnamed⟩

theorem join_sub (g : Graph) (n : Named) : g.nodes ⊆ (g.join n).nodes := by
  rcases nodes_join g n with h | h
  · exact h ▸ List.Subset.refl _
  · exact h ▸ subset_append_left _ _

theorem joins_sub (g : Graph) (ns : List Named) : g.nodes ⊆ (ns.foldl join g).nodes := by
  induction ns generalizing g with
  | nil => exact List.Subset.refl _
  | cons n ns ih => exact List.Subset.trans (join_sub g n) (ih _)

theorem build_sub (g : Graph) (rows : List KeptRow) : g.nodes ⊆ (g.build rows).nodes := by
  induction rows generalizing g with
  | nil => exact List.Subset.refl _
  | cons row rows ih =>
    refine List.Subset.trans ?_ (ih (g.handle row))
    rw [handle, nodes_addEdge]
    exact joins_sub g row.named

theorem has_join (g : Graph) (n : Named) : ∃ m ∈ (g.join n).nodes, m.id = n.node.id := by
  rw [join]
  split
  · rename_i hhas
    obtain ⟨m, hm, hid⟩ := any_eq_true.mp hhas
    exact ⟨m, hm, of_decide_eq_true hid⟩
  · exact ⟨n.node, mem_append_right _ (mem_singleton_self _), rfl⟩

theorem has_joins {ns : List Named} {n : Named} (hn : n ∈ ns) :
    ∃ m ∈ (ns.foldl join g).nodes, m.id = n.node.id := by
  induction ns generalizing g with
  | nil => cases hn
  | cons k ns ih =>
    rcases mem_cons.mp hn with rfl | hn
    · obtain ⟨m, hm, hid⟩ := has_join g n
      exact ⟨m, joins_sub _ ns hm, hid⟩
    · exact ih hn

/-- What a row names has its id in the graph. -/
theorem has_build (hrow : row ∈ rows) {n : Named} (hn : n ∈ row.named) :
    ∃ m ∈ (g.build rows).nodes, m.id = n.node.id := by
  induction rows generalizing g with
  | nil => cases hrow
  | cons r rows ih =>
    rcases mem_cons.mp hrow with rfl | hrow
    · obtain ⟨m, hm, hid⟩ := has_joins (g := g) hn
      refine ⟨m, build_sub _ rows ?_, hid⟩
      rw [handle, nodes_addEdge]
      exact hm
    · exact ih hrow

theorem edges_joins (g : Graph) (ns : List Named) : (ns.foldl join g).edges = g.edges := by
  induction ns generalizing g with
  | nil => rfl
  | cons n ns ih =>
    rw [foldl_cons, ih, join]
    split <;> rfl

theorem edges_handle (g : Graph) (row : KeptRow) :
    (g.handle row).edges = g.edges ∧ edgeKey row.edge ∈ g.edges.map edgeKey ∨
      (g.handle row).edges = g.edges ++ [row.edge] := by
  rw [handle, addEdge, edges_joins]
  split
  · rename_i hkey
    exact .inl ⟨edges_joins g row.named, contains_iff_mem.mp hkey⟩
  · exact .inr rfl

/-- An edge was there or is a row's. -/
theorem mem_edges_build {e : VisionEdge} (h : e ∈ (g.build rows).edges) :
    e ∈ g.edges ∨ ∃ row ∈ rows, row.edge = e := by
  induction rows generalizing g with
  | nil => exact .inl h
  | cons row rows ih =>
    rcases ih h with h | ⟨r, hr, he⟩
    · rcases edges_handle g row with ⟨hedges, -⟩ | hedges
      · exact .inl (hedges ▸ h)
      · rw [hedges, mem_append, mem_singleton] at h
        rcases h with h | rfl
        · exact .inl h
        · exact .inr ⟨row, mem_cons_self, rfl⟩
    · exact .inr ⟨r, mem_cons_of_mem _ hr, he⟩

theorem edges_sub (g : Graph) (rows : List KeptRow) : g.edges ⊆ (g.build rows).edges := by
  induction rows generalizing g with
  | nil => exact List.Subset.refl _
  | cons row rows ih =>
    refine List.Subset.trans ?_ (ih (g.handle row))
    rcases edges_handle g row with ⟨hedges, -⟩ | hedges
    · exact hedges ▸ List.Subset.refl _
    · exact hedges ▸ subset_append_left _ _

/-- The key of a row's edge is the key of an edge of the graph. -/
theorem key_build (hrow : row ∈ rows) :
    edgeKey row.edge ∈ (g.build rows).edges.map edgeKey := by
  induction rows generalizing g with
  | nil => cases hrow
  | cons r rows ih =>
    rcases mem_cons.mp hrow with rfl | hrow
    · refine map_subset edgeKey (edges_sub (g.handle row) rows) ?_
      rcases edges_handle g row with ⟨hedges, hkey⟩ | hedges
      · exact hedges ▸ hkey
      · rw [hedges, map_append]
        exact mem_append_right _ (mem_singleton_self _)
    · exact ih hrow

end Graph

/-! ## 6. The rows and the catalogue -/

def Item.obj (item : Item) : Obj := (item.owner, item.name)

def Named.obj (n : Named) : Obj := (n.owner, n.name)

variable {cat : Catalogue} {p : VisionParams}

theorem mem_fetched {α : Type} [DecidableEq α] {x : α} {rows : List α} (h : x ∈ fetched rows) :
    x ∈ rows :=
  mem_dedup.mp (mem_of_mem_take h)

theorem EdgeAt.ends {x y : Obj} {e : VisionEdge} (h : EdgeAt cat x e y) :
    e.source = objId x ∧ e.target = objId y ∨ e.source = objId y ∧ e.target = objId x := by
  cases h with
  | reference => exact .inl ⟨rfl, rfl⟩
  | dependent => exact .inr ⟨rfl, rfl⟩
  | fk _ hx =>
    subst hx
    exact .inl ⟨rfl, rfl⟩
  | fkTo _ hx =>
    subst hx
    exact .inr ⟨rfl, rfl⟩

/-- A row has the edge of an object, and names the object at its other end and no third. -/
def RowAt (cat : Catalogue) (x : Obj) (row : KeptRow) : Prop :=
  ∃ y, EdgeAt cat x row.edge y ∧ (∃ n ∈ row.named, n.obj = y) ∧
    ∀ n ∈ row.named, n.obj = x ∨ n.obj = y

theorem mem_keptDependencies {current : Item} {edge : Text → VisionEdge} {rows : List Named}
    (h : row ∈ keptDependencies current edge rows) :
    ∃ n ∈ rows, n.obj ≠ current.obj ∧ row = ⟨[n], edge (objId n.obj)⟩ := by
  obtain ⟨n, hn, rfl⟩ := mem_map.mp h
  obtain ⟨hn, hkeep⟩ := mem_filter.mp hn
  simp only [Bool.and_eq_true, decide_eq_true_eq] at hkeep
  exact ⟨n, hn, fun hobj => hkeep.2 (congrArg objId hobj), rfl⟩

theorem rowAt_of_mem {current : Item} (h : row ∈ keptRows cat current) :
    RowAt cat current.obj row := by
  simp only [keptRows, mem_append] at h
  rcases h with h | h | h
  · obtain ⟨n, hn, hne, rfl⟩ := mem_keptDependencies h
    obtain ⟨d, hd, rfl⟩ := mem_map.mp (mem_fetched hn)
    obtain ⟨hd, hselect⟩ := mem_filter.mp hd
    obtain ⟨howner, hname, htype⟩ := of_decide_eq_true hselect
    have hx : d.source = current.obj := Prod.ext howner hname
    exact ⟨_, .reference hd hx htype hne, ⟨_, mem_singleton_self _, rfl⟩,
      fun m hm => .inr (congrArg Named.obj (mem_singleton.mp hm))⟩
  · obtain ⟨n, hn, hne, rfl⟩ := mem_keptDependencies h
    obtain ⟨d, hd, rfl⟩ := mem_map.mp (mem_fetched hn)
    obtain ⟨hd, hselect⟩ := mem_filter.mp hd
    obtain ⟨howner, hname, htype⟩ := of_decide_eq_true hselect
    have hx : d.target = current.obj := Prod.ext howner hname
    exact ⟨_, .dependent hd hx htype hne, ⟨_, mem_singleton_self _, rfl⟩,
      fun m hm => .inr (congrArg Named.obj (mem_singleton.mp hm))⟩
  · split at h
    · obtain ⟨k, hk, rfl⟩ := mem_map.mp h
      obtain ⟨hk, -⟩ := mem_filter.mp hk
      obtain ⟨hk, hselect⟩ := mem_filter.mp (mem_fetched hk)
      have hends : ∀ n ∈ k.ends, n = k.source ∨ n = k.target := fun n hn => by
        simpa [ForeignKey.ends] using hn
      rcases of_decide_eq_true hselect with ⟨howner, hname⟩ | ⟨howner, hname⟩
      · have hx : k.source.obj = current.obj := Prod.ext howner hname
        refine ⟨_, .fk hk hx, ⟨k.target, by simp [ForeignKey.ends], rfl⟩, fun n hn => ?_⟩
        rcases hends n hn with rfl | rfl
        · exact .inl hx
        · exact .inr rfl
      · have hx : k.target.obj = current.obj := Prod.ext howner hname
        refine ⟨_, .fkTo hk hx, ⟨k.source, by simp [ForeignKey.ends], rfl⟩, fun n hn => ?_⟩
        rcases hends n hn with rfl | rfl
        · exact .inr rfl
        · exact .inl hx
    · cases h

theorem within_origin {n : Nat} (hn : 0 < n) : Within cat p n p.origin := ⟨0, hn, .start rfl⟩

theorem RowAt.within {x : Obj} (h : RowAt cat x row) {n : Nat}
    (hx : Within cat p n x) : ∀ m ∈ row.named, Within cat p (n + 1) m.obj := by
  obtain ⟨y, hedge, -, hnamed⟩ := h
  intro m hm
  rcases hnamed m hm with hobj | hobj
  · exact hobj ▸ hx.mono (Nat.le_succ n)
  · exact hobj ▸ hx.onward ⟨_, hedge⟩

def VisionNode.obj (n : VisionNode) : Obj := (n.owner, n.name)

/-- A node's id is its object's, and its object so few hops away. -/
def NodeAt (cat : Catalogue) (p : VisionParams) (hops : Nat) (n : VisionNode) : Prop :=
  n.id = objId n.obj ∧ Within cat p hops n.obj

theorem nodeAt_build {g : Graph} {rows : List KeptRow} {hops : Nat}
    (hg : ∀ n ∈ g.nodes, NodeAt cat p (hops + 1) n)
    (hrows : ∀ row ∈ rows, ∃ x, Within cat p hops x ∧ RowAt cat x row) :
    ∀ n ∈ (g.build rows).nodes, NodeAt cat p (hops + 1) n := by
  intro n hn
  rcases Graph.mem_nodes_build hn with hn | ⟨row, hrow, m, hm, rfl⟩
  · exact hg n hn
  · obtain ⟨x, hx, hat⟩ := hrows row hrow
    exact ⟨rfl, hat.within hx m hm⟩

theorem nodeAt_start {hops : Nat} : ∀ n ∈ (startGraph p).nodes, NodeAt cat p (hops + 1) n := by
  intro n hn
  obtain rfl := mem_singleton.mp hn
  exact ⟨rfl, within_origin (Nat.succ_pos hops)⟩

/-- The objects that are expanded are less than two hops away, and their ids are in the graph. -/
theorem within_firstItems {item : Item} (h : item ∈ firstItems cat p) :
    Within cat p maxVisionDepth item.obj ∧
      ∃ m ∈ (unlimited cat p).nodes, m.id = objId item.obj := by
  obtain ⟨n, hn, rfl⟩ := mem_map.mp h
  have hbuilt := mem_of_mem_drop hn
  have hnode : NodeAt cat p (1 + 1) n := nodeAt_build nodeAt_start
    (fun row hrow => ⟨_, within_origin Nat.one_pos, rowAt_of_mem hrow⟩) n hbuilt
  obtain ⟨hid, hwithin⟩ := hnode
  refine ⟨hwithin, n, ?_, hid⟩
  rw [unlimited, rowsAround, Graph.build_append]
  exact Graph.build_sub _ _ hbuilt

/-- The rows of the walk are rows of objects less than two hops away that are in the graph. -/
theorem rowsAround_at (h : row ∈ rowsAround cat p) :
    ∃ x, Within cat p maxVisionDepth x ∧ RowAt cat x row ∧
      ∃ m ∈ (unlimited cat p).nodes, m.id = objId x := by
  rcases mem_append.mp h with h | h
  · refine ⟨_, within_origin (by decide), rowAt_of_mem h, ?_⟩
    exact ⟨_, Graph.build_sub _ _ (mem_singleton_self _), rfl⟩
  · obtain ⟨item, hitem, hrow⟩ := mem_flatMap.mp h
    obtain ⟨hwithin, hnode⟩ := within_firstItems hitem
    exact ⟨_, hwithin, rowAt_of_mem hrow, hnode⟩

theorem nodeAt_unlimited : ∀ n ∈ (unlimited cat p).nodes, NodeAt cat p (maxVisionDepth + 1) n := by
  refine nodeAt_build nodeAt_start fun row hrow => ?_
  obtain ⟨x, hwithin, hat, -⟩ := rowsAround_at hrow
  exact ⟨x, hwithin, hat⟩

/-! ## 7. When nothing is missing -/

/-- Ids and keys tell the objects and edges within reach apart, and every edge at an object that
should be expanded is kept: its rows are among those fetched, name no system schema and, for a
foreign key, are looked up for a table. -/
structure Covered (cat : Catalogue) (p : VisionParams) : Prop where
  ids : ∀ x y, Within cat p (maxVisionDepth + 1) x → Within cat p (maxVisionDepth + 1) y →
    objId x = objId y → x = y
  keys : ∀ x y e x' y' e', Within cat p maxVisionDepth x → EdgeAt cat x e y →
    Within cat p maxVisionDepth x' → EdgeAt cat x' e' y' → edgeKey e = edgeKey e' → e = e'
  kept : ∀ x y e, Within cat p maxVisionDepth x → EdgeAt cat x e y →
    ∃ row ∈ rowsAround cat p, row.edge = e

/-- What is within the depth has its node in the unlimited graph. -/
theorem Covered.node (h : Covered cat p) {x : Obj} (hx : Within cat p (maxVisionDepth + 1) x)
    (hid : ∃ m ∈ (unlimited cat p).nodes, m.id = objId x) :
    ∃ m ∈ (unlimited cat p).nodes, m.obj = x := by
  obtain ⟨m, hm, hid⟩ := hid
  obtain ⟨hown, hwithin⟩ := nodeAt_unlimited m hm
  exact ⟨m, hm, h.ids _ _ hwithin hx (hown.symm.trans hid)⟩

theorem Covered.objects (h : Covered cat p) {x : Obj}
    (hx : Within cat p (maxVisionDepth + 1) x) : ∃ m ∈ (unlimited cat p).nodes, m.obj = x := by
  refine h.node hx ?_
  obtain ⟨k, hk, hhops⟩ := hx
  cases hhops with
  | start hstart =>
    obtain rfl : x = p.origin := hstart
    exact ⟨_, Graph.build_sub _ _ (mem_singleton_self _), rfl⟩
  | @next m z _ hz hzx =>
    obtain ⟨e, hedge⟩ := hzx
    have hzwithin : Within cat p maxVisionDepth z := ⟨m, Nat.lt_of_succ_lt_succ hk, hz⟩
    obtain ⟨row, hrow, rfl⟩ := h.kept z x e hzwithin hedge
    obtain ⟨x', -, ⟨y', hedge', ⟨n, hn, rfl⟩, -⟩, hnode⟩ := rowsAround_at hrow
    -- the row's edge has the same two ids at its ends
    have hid : objId x = objId x' ∨ objId x = objId n.obj := by
      rcases hedge.ends with ⟨-, ht⟩ | ⟨hs, -⟩
      · rcases hedge'.ends with ⟨-, ht'⟩ | ⟨-, ht'⟩
        · exact .inr (ht.symm.trans ht')
        · exact .inl (ht.symm.trans ht')
      · rcases hedge'.ends with ⟨hs', -⟩ | ⟨hs', -⟩
        · exact .inl (hs.symm.trans hs')
        · exact .inr (hs.symm.trans hs')
    rcases hid with hid | hid
    · exact hid ▸ hnode
    · exact hid ▸ Graph.has_build hrow hn

theorem Covered.edges (h : Covered cat p) {x y : Obj} {e : VisionEdge}
    (hx : Within cat p maxVisionDepth x) (he : EdgeAt cat x e y) :
    e ∈ (unlimited cat p).edges := by
  obtain ⟨row, hrow, rfl⟩ := h.kept x y e hx he
  obtain ⟨f, hf, hkey⟩ := mem_map.mp (Graph.key_build (g := startGraph p) hrow)
  rcases Graph.mem_edges_build hf with hf' | ⟨row', hrow', rfl⟩
  · cases hf'
  · obtain ⟨x', hx', ⟨y', he', -⟩, -⟩ := rowsAround_at hrow'
    exact h.keys _ _ _ _ _ _ hx' he' hx he hkey ▸ hf

/-! ## 8. When the graph is as it should be -/

/-- The result of a walk. -/
def resultOf (cat : Catalogue) (p : VisionParams) (w : Walk) : VisionGraphResult where
  nodes := (withStatus cat (toUpperCase p.owner) w.nodes).map fun n =>
    { n with degree := degreeMap w.edges n.id }
  edges := w.edges
  truncated := w.truncated
  truncatedAt := if w.truncated then some maxVisionNodes else none

theorem visionGraph_eq (cat : Catalogue) (rounds : Nat) (p : VisionParams) :
    visionGraph cat rounds p = ((startWalk p).run cat rounds).map (resultOf cat p) := by
  rw [visionGraph]
  cases (startWalk p).run cat rounds with
  | none => rfl
  | some w => rfl

/-- What is read off a node without its status and its degree is as the walk left it. -/
theorem map_resultOf {α : Type} {f : VisionNode → α} (hstatus : ∀ n : VisionNode, f n.bare = f n)
    (hdegree : ∀ (n : VisionNode) (d : Nat), f { n with degree := d } = f n) (w : Walk) :
    (resultOf cat p w).nodes.map f = w.nodes.map f := by
  have hbare : ∀ l : List VisionNode, l.map f = (l.map VisionNode.bare).map f := by
    intro l
    rw [map_map]
    exact map_congr_left fun n _ => (hstatus n).symm
  calc (resultOf cat p w).nodes.map f
      = (withStatus cat (toUpperCase p.owner) w.nodes).map f := by
        rw [resultOf, map_map]
        exact map_congr_left fun n _ => hdegree n _
    _ = w.nodes.map f := by rw [hbare, bare_withStatus, ← hbare]

theorem ids_resultOf (w : Walk) :
    (resultOf cat p w).nodes.map VisionNode.id = w.nodes.map VisionNode.id :=
  map_resultOf (fun _ => rfl) (fun _ _ => rfl) w

theorem objs_resultOf (w : Walk) :
    (resultOf cat p w).nodes.map VisionNode.obj = w.nodes.map VisionNode.obj :=
  map_resultOf (fun _ => rfl) (fun _ _ => rfl) w

theorem has_iff {w : Walk} {id : Text} :
    w.has id = true ↔ id ∈ (resultOf cat p w).nodes.map VisionNode.id := by
  rw [ids_resultOf, Walk.has, any_eq_true]
  simp

/-- All but the ends of the edges and what may be missing holds of every result. -/
theorem graphOk_resultOf {w : Walk} (hinv : w.Inv) : GraphOk cat p (resultOf cat p w) ↔
    w.Closed ∧ (w.truncated = false → Complete cat p (resultOf cat p w)) := by
  constructor
  · intro h
    exact ⟨fun e he => ⟨has_iff.mpr (h.ends e he).1, has_iff.mpr (h.ends e he).2⟩, h.complete⟩
  · intro ⟨hclosed, hcomplete⟩
    refine ⟨?_, ?_, fun e he => ?_, hinv.keys.of_map _, fun n hn => ?_, hcomplete⟩
    · have hlength : ((resultOf cat p w).nodes.map VisionNode.id).length =
          (w.nodes.map VisionNode.id).length := congrArg List.length (ids_resultOf w)
      simp only [length_map] at hlength
      exact hlength ▸ hinv.few
    · exact ids_resultOf w ▸ hinv.ids
    · exact ⟨has_iff.mp (hclosed e he).1, has_iff.mp (hclosed e he).2⟩
    · obtain ⟨m, -, rfl⟩ := mem_map.mp hn
      exact degreeMap_eq w.edges m.id

/-- The result of a walk that went through is complete exactly when the rows cover what is within
reach. -/
theorem complete_iff {w : Walk} (hinv : w.Inv) (hnodes : w.nodes = (unlimited cat p).nodes)
    (hedges : w.edges = (unlimited cat p).edges) :
    Complete cat p (resultOf cat p w) ↔ Covered cat p := by
  have hobj : ∀ x : Obj, (∃ n ∈ (resultOf cat p w).nodes, n.owner = x.1 ∧ n.name = x.2) ↔
      ∃ m ∈ w.nodes, m.obj = x := by
    intro x
    have hmem : x ∈ (resultOf cat p w).nodes.map VisionNode.obj ↔
        x ∈ w.nodes.map VisionNode.obj := by rw [objs_resultOf]
    simpa [VisionNode.obj, Prod.ext_iff] using hmem
  constructor
  · intro h
    have hkeys : ∀ e ∈ w.edges, ∀ f ∈ w.edges, edgeKey e = edgeKey f → e = f :=
      fun e he f hf => inj_on_of_nodup_map hinv.keys he hf
    refine ⟨fun x y hx hy hid => ?_, ?_, fun x y e hx he => ?_⟩
    · obtain ⟨n, hn, rfl⟩ := (hobj x).mp (h.objects x hx)
      obtain ⟨m, hm, rfl⟩ := (hobj y).mp (h.objects y hy)
      rw [inj_on_of_nodup_map hinv.ids hn hm
        ((hinv.named n hn).trans (hid.trans (hinv.named m hm).symm))]
    · intro x y e x' y' e' hx he hx' he' hkey
      exact hkeys e (h.edges x hx e y he) e' (h.edges x' hx' e' y' he') hkey
    · have hmem : e ∈ (unlimited cat p).edges := hedges ▸ h.edges x hx e y he
      rcases Graph.mem_edges_build hmem with hmem | hrow
      · cases hmem
      · exact hrow
  · intro h
    refine ⟨fun x hx => (hobj x).mpr ?_, fun x hx e y he => ?_⟩
    · rw [hnodes]
      exact h.objects hx
    · show e ∈ w.edges
      rw [hedges]
      exact h.edges hx he

/-- **When the graph is as it should be**: no foreign key is handled while the graph lacks one of
its tables and the room for it, and the rows cover what is within reach unless that is too much. -/
theorem visionGraph_ok_iff (cat : Catalogue) (p : VisionParams) (rounds : Nat)
    (hrounds : maxVisionNodes < rounds) : ∃ r, visionGraph cat rounds p = some r ∧
      (GraphOk cat p r ↔ (∀ s ∈ (startWalk p).runSteps cat rounds, ¬ s.1.Short s.2) ∧
        ((unlimited cat p).nodes.length < maxVisionNodes → Covered cat p)) := by
  obtain ⟨w, hrun⟩ := Walk.exists_run cat rounds (inv_startWalk p)
    (show 1 + maxVisionNodes < rounds + 1 by omega)
  have hinv := Walk.kept_inv.run Walk.passed_inv cat rounds (inv_startWalk p) hrun
  obtain ⟨hwhole, hcut⟩ := comesOut_run hrun
  refine ⟨resultOf cat p w, by rw [visionGraph_eq, hrun]; rfl, ?_⟩
  rw [graphOk_resultOf hinv, Walk.closed_iff cat rounds (inv_startWalk p) (queued_startWalk p)
    (closed_startWalk p) hrun]
  refine and_congr_right fun _ => ?_
  by_cases hroom : (unlimited cat p).nodes.length < maxVisionNodes
  · obtain ⟨hnodes, hedges, hnot⟩ := hwhole hroom
    rw [complete_iff hinv hnodes hedges]
    exact ⟨fun h _ => h hnot, fun h _ => h hroom⟩
  · have htruncated := hcut (by omega)
    exact ⟨fun _ h => absurd h hroom, fun _ h => absurd (htruncated.symm.trans h) (by decide)⟩

/-- One table. -/
def oneTable : Catalogue := ⟨[], [], [⟨['S'], ['T'], "TABLE".toList, "VALID".toList⟩]⟩

def tableT : VisionParams := ⟨['S'], ['T'], "TABLE".toList⟩

theorem visionGraph_ok_iff_oneTable : ∃ r, visionGraph oneTable 151 tableT = some r ∧
    (GraphOk oneTable tableT r ↔
      (∀ s ∈ (startWalk tableT).runSteps oneTable 151, ¬ s.1.Short s.2) ∧
        ((unlimited oneTable tableT).nodes.length < maxVisionNodes → Covered oneTable tableT)) :=
  visionGraph_ok_iff oneTable tableT 151 (by decide)

/-! ## 9. More foreign keys than nodes -/

/-- Edges stay in the graph. -/
theorem Walk.kept_edge (e : VisionEdge) : Walk.Kept fun w => e ∈ w.edges where
  enter := fun h henter => by
    rw [Walk.edges_enter henter]
    exact h
  addEdge := by
    intro w f h
    rw [Walk.addEdge]
    split
    · exact h
    · exact mem_append_left _ h
  full := fun h => h

/-- A loop over foreign keys of new keys pushes all of their edges. -/
theorem Walk.edges_fkRows {depth : Nat} {rows : List ForeignKey} {w : Walk}
    (hsystem : ∀ k ∈ rows, k.isSystem = false)
    (hkeys : (w.edges.map edgeKey ++ rows.map fun k => edgeKey k.edge).Nodup) :
    (rows.foldl (fkRow depth) w).edges = w.edges ++ rows.map ForeignKey.edge := by
  induction rows generalizing w with
  | nil => exact (append_nil _).symm
  | cons k rows ih =>
    have hnew : edgeKey k.edge ∉ w.edges.map edgeKey := fun h =>
      (nodup_append.mp hkeys).2.2 _ h _ mem_cons_self rfl
    have hstep : (w.fkRow depth k).edges = w.edges ++ [k.edge] := by
      rw [fkRow, hsystem k mem_cons_self, if_neg Bool.false_ne_true, addEdge, if_neg]
      · simp only [edges_endsLoop]
      · rw [edges_endsLoop, contains_iff_mem]
        exact hnew
    rw [foldl_cons, ih fun j hj => hsystem j (mem_cons_of_mem _ hj)]
    · rw [hstep, append_assoc]
      rfl
    · rw [hstep]
      simpa using hkeys

/-- The tables that refer to `S.T`. -/
def childNames : List Text := (List.range 150).map fun i => [Char.ofNat (256 + i)]

def childKey (name : Text) : ForeignKey := ⟨['S'], name, ['S'], ['T']⟩

def starCatalogue : Catalogue := ⟨[], childNames.map childKey, []⟩

theorem toNat_child {i : Nat} (hi : i ∈ List.range 150) :
    (Char.ofNat (256 + i)).toNat = 256 + i := by
  have hlt := mem_range.mp hi
  rw [Char.ofNat, dif_pos (Or.inl (by omega))]
  rfl

theorem nodup_childNames : childNames.Nodup := by
  refine List.Nodup.map_on (fun i hi j hj h => ?_) nodup_range
  have hchar : Char.ofNat (256 + i) = Char.ofNat (256 + j) := (List.cons.inj h).1
  have hnat := congrArg Char.toNat hchar
  rw [toNat_child hi, toNat_child hj] at hnat
  exact Nat.add_left_cancel hnat

theorem fkRows_star : fetched (fkRows starCatalogue ['S'] ['T']) = childNames.map childKey := by
  have hall : fkRows starCatalogue ['S'] ['T'] = childNames.map childKey := by
    refine filter_eq_self.mpr fun k hk => ?_
    obtain ⟨name, -, rfl⟩ := mem_map.mp hk
    simp [childKey]
  have hinj : Function.Injective childKey := fun a b h => congrArg ForeignKey.tableName h
  rw [fetched, hall, (nodup_childNames.map hinj).dedup]
  exact take_of_length_le (by simp [childNames, maxRows])

/-- The graph of a table that a hundred and fifty others refer to. -/
theorem visionGraph_dangling :
    ∃ r, visionGraph starCatalogue 151 tableT = some r ∧ ¬ GraphOk starCatalogue tableT r := by
  have hupper : toUpperCase ['S'] = ['S'] ∧ toUpperCase ['T'] = ['T'] ∧
      toUpperCase "TABLE".toList = "TABLE".toList := by decide
  obtain ⟨w, hrun⟩ := Walk.exists_run starCatalogue 151 (inv_startWalk tableT) (by decide)
  refine ⟨resultOf starCatalogue tableT w, by rw [visionGraph_eq, hrun]; rfl, fun hok => ?_⟩
  -- every key's edge is pushed when the table is expanded
  have hedges : ∀ name ∈ childNames, (childKey name).edge ∈ w.edges := by
    intro name hname
    rw [run_startWalk starCatalogue 150] at hrun
    refine (Walk.kept_edge _).run (fun h _ => h) starCatalogue 150 ?_ hrun
    rw [Walk.expand, if_pos (show (originItem tableT).type = _ from hupper.2.2)]
    show _ ∈ ((fetched (fkRows starCatalogue (toUpperCase ['S']) (toUpperCase ['T']))).foldl _
      { startWalk tableT with queue := [] }).edges
    rw [hupper.1, hupper.2.1, fkRows_star, Walk.edges_fkRows]
    · exact mem_map_of_mem (mem_map_of_mem hname)
    · intro k hk
      obtain ⟨n, -, rfl⟩ := mem_map.mp hk
      rfl
    · rw [map_map]
      refine nodup_childNames.map fun a b h => ?_
      have hid : objectId ['S'] a = objectId ['S'] b := append_cancel_right h
      exact (List.cons.inj (append_cancel_left hid)).2
  have hids : ∀ name ∈ childNames,
      objectId ['S'] name ∈ (resultOf starCatalogue tableT w).nodes.map VisionNode.id :=
    fun name hname => (hok.ends _ (hedges name hname)).1
  have hfirst : [Char.ofNat 256] ∈ childNames :=
    mem_map.mpr ⟨0, mem_range.mpr (by decide), rfl⟩
  have htable : objectId ['S'] ['T'] ∈ (resultOf starCatalogue tableT w).nodes.map VisionNode.id :=
    (hok.ends _ (hedges _ hfirst)).2
  have hnodup : (objectId ['S'] ['T'] :: childNames.map (objectId ['S'])).Nodup := by
    refine nodup_cons.mpr ⟨fun h => ?_, nodup_childNames.map fun a b h => ?_⟩
    · obtain ⟨name, hname, h⟩ := mem_map.mp h
      obtain ⟨i, hi, rfl⟩ := mem_map.mp hname
      have hchar : Char.ofNat (256 + i) = 'T' :=
        (List.cons.inj (List.cons.inj (append_cancel_left h)).2).1
      have hnat := congrArg Char.toNat hchar
      rw [toNat_child hi] at hnat
      have hT : 'T'.toNat = 84 := rfl
      omega
    · exact (List.cons.inj (append_cancel_left h)).2
  have hsub : objectId ['S'] ['T'] :: childNames.map (objectId ['S']) ⊆
      (resultOf starCatalogue tableT w).nodes.map VisionNode.id := by
    intro id hid
    rcases mem_cons.mp hid with rfl | hid
    · exact htable
    · obtain ⟨name, hname, rfl⟩ := mem_map.mp hid
      exact hids name hname
  have hlength := (hnodup.subperm hsub).length_le
  have hfew := hok.few
  simp only [length_cons, length_map, childNames, length_range, maxVisionNodes]
    at hlength hfew
  omega

end Veesker.Sidecar.Vision
