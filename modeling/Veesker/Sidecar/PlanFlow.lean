/-
  File:      Veesker/Sidecar/PlanFlow.lean
  Subject:   THE STEPS OF AN EXPLAINED PLAN (sidecar/src/flow.ts `planExecutionOrder`,
             `explainPlanFlow`).

  The nodes of a plan come as a list with parent pointers. A walk from the nodes without a parent
  lists every node behind its children; the events are numbered in that order.

  * `visit_eq` -- the walk is the walk over a forest;
  * **`explainPlanFlow_ordered`** -- one event a node, children first, siblings by their ids.
-/
import Veesker.Run.Forest
import Veesker.Text.Js

namespace Veesker.Sidecar.Flow

open Run List

/-! ## 1. The model -/

structure PlanNode where
  id : Int
  parentId : Option Int
  operation : Option Text := none
  options : Option Text := none
  objectOwner : Option Text := none
  objectName : Option Text := none
  cost : Option Int := none
  cardinality : Option Int := none
  bytes : Option Int := none
  deriving DecidableEq

/-- What `gatherRuntimeStats` finds for a node. -/
structure NodeStats where
  cardinalityActual : Option Int
  elapsedMsActual : Option Int
  bufferGets : Option Int
  deriving DecidableEq

abbrev PerPlanId := Int → Option NodeStats

structure ExplainNodeEvent where
  stepIndex : Nat
  planId : Int
  operation : Text
  objectOwner : Option Text
  objectName : Option Text
  cost : Option Int
  cardinalityEstimated : Option Int
  cardinalityActual : Option Int
  bytesEstimated : Option Int
  elapsedMsActual : Option Int
  bufferGets : Option Int
  childIds : List Int
  deriving DecidableEq

/-- A map from the parents' ids, filled by one loop over the nodes. -/
def childrenOf {α : Type} (value : PlanNode → α) (nodes : List PlanNode) : Option Int → List α :=
  nodes.foldl (fun m n => Function.update m n.parentId (m n.parentId ++ [value n])) fun _ => []

/-- The map of `planExecutionOrder`, its lists sorted by id. -/
def sortedChildren (nodes : List PlanNode) (k : Option Int) : List PlanNode :=
  (childrenOf id nodes k).mergeSort fun a b => a.id ≤ b.id

/-- `visit`, so many calls deep, with `out` before and after it. -/
def visit (childrenOf : Option Int → List PlanNode) :
    Nat → PlanNode → List PlanNode → Option (List PlanNode)
  | 0, _, _ => none
  | depth + 1, node, out => do
    let out ← (childrenOf (some node.id)).foldlM (fun out k => visit childrenOf depth k out) out
    some (out ++ [node])

def planExecutionOrder (depth : Nat) (nodes : List PlanNode) : Option (List PlanNode) :=
  (sortedChildren nodes none).foldlM (fun out r => visit (sortedChildren nodes) depth r out) []

/-- `[n.operation, n.options].filter(Boolean).join(" ")`. -/
def operationText (n : PlanNode) : Text :=
  List.intercalate [' '] ([n.operation, n.options].filterMap fun t => t.filter (· ≠ []))

def nodeEvent (nodes : List PlanNode) (stats : PerPlanId) (idx : Nat) (n : PlanNode) :
    ExplainNodeEvent where
  stepIndex := idx
  planId := n.id
  operation := operationText n
  objectOwner := n.objectOwner
  objectName := n.objectName
  cost := n.cost
  cardinalityEstimated := n.cardinality
  cardinalityActual := (stats n.id).bind NodeStats.cardinalityActual
  bytesEstimated := n.bytes
  elapsedMsActual := (stats n.id).bind NodeStats.elapsedMsActual
  bufferGets := (stats n.id).bind NodeStats.bufferGets
  childIds := childrenOf PlanNode.id nodes (some n.id)

structure TraceSqlParams where
  sql : Text
  withRuntimeStats : Bool

/-- The statistics that were asked for. `gather` gives none where it throws. -/
def runtimeStats (gather : Text → Option PerPlanId) (p : TraceSqlParams) : PerPlanId :=
  if p.withRuntimeStats then (gather p.sql).getD fun _ => none else fun _ => none

/-- The events of `explainPlanFlow`. `explain` gives the nodes of a plan. -/
def explainPlanFlow (explain : Text → List PlanNode) (gather : Text → Option PerPlanId)
    (depth : Nat) (p : TraceSqlParams) : Option (List ExplainNodeEvent) :=
  let nodes := explain p.sql
  let stats := runtimeStats gather p
  (planExecutionOrder depth nodes).map fun ordered => ordered.mapIdx (nodeEvent nodes stats)

/-! ## 2. What is asked of a plan -/

/-- `n` has `p` for its parent. -/
abbrev ChildOf (nodes : List PlanNode) : PlanNode → PlanNode → Prop :=
  Under nodes PlanNode.id PlanNode.parentId

/-- Ids are distinct, every parent id is the id of a node, and the parents have no cycle. -/
structure IsPlan (nodes : List PlanNode) : Prop where
  ids : (nodes.map PlanNode.id).Nodup
  parents : ∀ n ∈ nodes, ∀ i, n.parentId = some i → ∃ p ∈ nodes, p.id = i
  acyclic : ∀ n, ¬ Relation.TransGen (ChildOf nodes) n n

/-- One event for each node, with its children's ids; events are numbered from zero on, children
come first and siblings by their ids. -/
structure InTreeOrder (nodes : List PlanNode) (events : List ExplainNodeEvent) : Prop where
  once : (events.map ExplainNodeEvent.planId).Perm (nodes.map PlanNode.id)
  index : events.map ExplainNodeEvent.stepIndex = List.range events.length
  childIds : ∀ e ∈ events, e.childIds =
    (nodes.filter fun n => n.parentId = some e.planId).map PlanNode.id
  childrenFirst : events.Pairwise fun a b => b.planId ∉ a.childIds
  siblings : events.Pairwise fun a b => ∀ m ∈ nodes, ∀ n ∈ nodes, m.id = a.planId →
    n.id = b.planId → m.parentId = n.parentId → a.planId < b.planId

/-! ## 3. The maps -/

theorem childrenOf_eq {α : Type} (value : PlanNode → α) (nodes : List PlanNode) (k : Option Int) :
    childrenOf value nodes k = (nodes.filter fun n => n.parentId = k).map value := by
  have hfold : ∀ (l : List PlanNode) (m : Option Int → List α),
      l.foldl (fun m n => Function.update m n.parentId (m n.parentId ++ [value n])) m k =
        m k ++ (l.filter fun n => n.parentId = k).map value := by
    intro l
    induction l with
    | nil => simp
    | cons n l ih =>
      intro m
      rw [foldl_cons, ih]
      by_cases h : n.parentId = k
      · subst h
        simp
      · rw [Function.update_of_ne (Ne.symm h), filter_cons_of_neg (by simpa using h)]
  exact hfold nodes _

variable {nodes : List PlanNode}

theorem mem_sortedChildren {k : Option Int} {n : PlanNode} :
    n ∈ sortedChildren nodes k ↔ n ∈ nodes ∧ n.parentId = k := by
  simp [sortedChildren, childrenOf_eq]

theorem sorted_children (h : IsPlan nodes) :
    Sorted nodes PlanNode.parentId (fun a b => a.id < b.id) (sortedChildren nodes) := by
  refine ⟨fun k n => mem_sortedChildren, fun k => ?_, fun n => lt_irrefl _⟩
  have hle : (sortedChildren nodes k).Pairwise fun a b => a.id ≤ b.id := by
    have hsorted : ((childrenOf id nodes k).mergeSort fun a b => decide (a.id ≤ b.id)).Pairwise
        fun a b => decide (a.id ≤ b.id) = true := by
      refine pairwise_mergeSort (fun a b c hab hbc => ?_) (fun a b => ?_) _
      · exact decide_eq_true (le_trans (of_decide_eq_true hab) (of_decide_eq_true hbc))
      · simpa using le_total a.id b.id
    exact hsorted.imp of_decide_eq_true
  have hne : (sortedChildren nodes k).Pairwise fun a b => a.id ≠ b.id := by
    have hnodes : nodes.Pairwise fun a b => a.id ≠ b.id := pairwise_map.mp h.ids
    refine (List.Perm.pairwise_iff (fun h => Ne.symm h) (mergeSort_perm _ _)).mpr ?_
    rw [childrenOf_eq, map_id]
    exact hnodes.filter _
  exact (hle.and hne).imp fun h => lt_of_le_of_ne h.1 h.2

theorem IsPlan.forest (h : IsPlan nodes) :
    Forest nodes PlanNode.id PlanNode.parentId :=
  ⟨fun _ hx _ hy he => inj_on_of_nodup_map h.ids hx hy he, h.parents, fun x _ => h.acyclic x⟩

/-! ## 4. The walk -/

/-- Pushing what each element gives is appending all of it. -/
theorem foldlM_collect {f : PlanNode → List PlanNode → Option (List PlanNode)}
    {g : PlanNode → Option (List PlanNode)} (hf : ∀ n out, f n out = (g n).map (out ++ ·))
    (xs out : List PlanNode) :
    xs.foldlM (fun out n => f n out) out = (collect g xs).map (out ++ ·) := by
  induction xs generalizing out with
  | nil =>
    show some out = some (out ++ [])
    rw [append_nil]
  | cons x xs ih =>
    rw [foldlM_cons, hf, collect]
    cases g x with
    | none => rfl
    | some l =>
      show xs.foldlM (fun out n => f n out) (out ++ l) = _
      rw [ih]
      cases collect g xs with
      | none => rfl
      | some r => exact congrArg some (append_assoc out l r)

theorem visit_eq (kids : Option Int → List PlanNode) (depth : Nat) (n : PlanNode)
    (out : List PlanNode) :
    visit kids depth n out = (postorder PlanNode.id kids depth n).map (out ++ ·) := by
  induction depth generalizing n out with
  | zero => rfl
  | succ depth ih =>
    rw [visit, postorder, foldlM_collect fun n out => ih n out]
    cases collect (postorder PlanNode.id kids depth) (kids (some n.id)) with
    | none => rfl
    | some l => exact congrArg some (append_assoc out l [n])

theorem planExecutionOrder_eq (depth : Nat) (nodes : List PlanNode) :
    planExecutionOrder depth nodes = walk PlanNode.id (sortedChildren nodes) depth := by
  rw [planExecutionOrder, foldlM_collect fun n out => visit_eq (sortedChildren nodes) depth n out,
    walk]
  exact Option.map_id'

/-! ## 5. The events -/

/-- The events of nodes in a row. -/
def eventsOf (nodes : List PlanNode) (stats : PerPlanId) (ordered : List PlanNode) :
    List ExplainNodeEvent :=
  ordered.mapIdx (nodeEvent nodes stats)

theorem planIds_eventsOf (nodes : List PlanNode) (stats : PerPlanId) (ordered : List PlanNode) :
    (eventsOf nodes stats ordered).map ExplainNodeEvent.planId = ordered.map PlanNode.id := by
  refine ext_getElem (by simp [eventsOf]) fun i _ _ => ?_
  simp [eventsOf, nodeEvent]

theorem stepIndexes_eventsOf (nodes : List PlanNode) (stats : PerPlanId)
    (ordered : List PlanNode) :
    (eventsOf nodes stats ordered).map ExplainNodeEvent.stepIndex = List.range ordered.length := by
  refine ext_getElem (by simp [eventsOf]) fun i _ _ => ?_
  simp [eventsOf, nodeEvent]

/-- The ids of a node's children stand in its event. -/
theorem childIds_eventsOf {stats : PerPlanId} {ordered : List PlanNode}
    {e : ExplainNodeEvent} (he : e ∈ eventsOf nodes stats ordered) :
    e.childIds = (nodes.filter fun n => n.parentId = some e.planId).map PlanNode.id := by
  obtain ⟨i, hi, rfl⟩ := mem_mapIdx.mp he
  exact childrenOf_eq PlanNode.id nodes _

/-- An order on the nodes is one on their events. -/
theorem pairwise_eventsOf {stats : PerPlanId} {ordered : List PlanNode}
    {r : PlanNode → PlanNode → Prop} (h : ordered.Pairwise r) :
    (eventsOf nodes stats ordered).Pairwise fun a b =>
      ∃ m n, r m n ∧ m ∈ ordered ∧ n ∈ ordered ∧ a.planId = m.id ∧ b.planId = n.id := by
  refine pairwise_iff_getElem.mpr fun i j hi hj hij => ?_
  have hi' : i < ordered.length := by simpa [eventsOf] using hi
  have hj' : j < ordered.length := by simpa [eventsOf] using hj
  refine ⟨ordered[i], ordered[j], pairwise_iff_getElem.mp h i j hi' hj' hij,
    getElem_mem hi', getElem_mem hj', ?_, ?_⟩
  · simp [eventsOf, nodeEvent]
  · simp [eventsOf, nodeEvent]

/-- The nodes of the walk, each once, a node behind its children and siblings by their ids. -/
theorem inTreeOrder_eventsOf (h : IsPlan nodes) (stats : PerPlanId)
    {ordered : List PlanNode} (hnodup : ordered.Nodup) (hmem : ∀ n, n ∈ ordered ↔ n ∈ nodes)
    (horder : ordered.Pairwise (InOrder PlanNode.id PlanNode.parentId fun a b => a.id < b.id)) :
    InTreeOrder nodes (eventsOf nodes stats ordered) := by
  have hids : ∀ m ∈ nodes, ∀ n ∈ nodes, m.id = n.id → m = n := h.forest.unique
  have hpairs := @pairwise_eventsOf nodes stats _ _ horder
  refine ⟨?_, ?_, fun e he => childIds_eventsOf he, ?_, ?_⟩
  · rw [planIds_eventsOf]
    have hperm := (perm_ext_iff_of_nodup hnodup (.of_map _ h.ids)).mpr hmem
    exact hperm.map PlanNode.id
  · rw [stepIndexes_eventsOf, eventsOf, length_mapIdx]
  · refine hpairs.imp_of_mem fun {a b} ha _ hab hchild => ?_
    obtain ⟨m, n, hmn, hm, hn, ham, hbn⟩ := hab
    rw [childIds_eventsOf ha, ham, hbn] at hchild
    obtain ⟨c, hc, hcn⟩ := mem_map.mp hchild
    obtain ⟨hc, hup⟩ := mem_filter.mp hc
    obtain rfl := hids c hc n ((hmem n).mp hn) hcn
    exact hmn.1 (of_decide_eq_true hup)
  · refine hpairs.imp ?_
    intro a b ⟨m, n, hmn, hm, hn, ham, hbn⟩ m' hm' n' hn' hma hnb hup
    obtain rfl := hids m' hm' m ((hmem m).mp hm) (hma.trans ham)
    obtain rfl := hids n' hn' n ((hmem n).mp hn) (hnb.trans hbn)
    rw [ham, hbn]
    exact hmn.2 hup

/-- **Every node of a plan is one event**, behind its children and with siblings by their ids. -/
theorem explainPlanFlow_ordered (explain : Text → List PlanNode)
    (gather : Text → Option PerPlanId) (p : TraceSqlParams) (h : IsPlan (explain p.sql)) :
    ∃ depth events, (∀ d, depth ≤ d → explainPlanFlow explain gather d p = some events) ∧
      InTreeOrder (explain p.sql) events := by
  obtain ⟨depth, ordered, hwalk⟩ := h.forest.walk (sorted_children h)
  obtain ⟨hnodup, hmem, horder⟩ :=
    h.forest.listed (sorted_children h) (hwalk depth le_rfl)
  refine ⟨depth, eventsOf (explain p.sql) (runtimeStats gather p) ordered, fun d hd => ?_, ?_⟩
  · rw [explainPlanFlow, planExecutionOrder_eq, hwalk d hd]
    rfl
  · exact inTreeOrder_eventsOf h _ hnodup hmem horder

/-- A select over a join of two tables. -/
def joinPlan : List PlanNode :=
  [{ id := 0, parentId := none, operation := "SELECT STATEMENT".toList },
    { id := 1, parentId := some 0, operation := "HASH JOIN".toList },
    { id := 3, parentId := some 1, operation := "TABLE ACCESS".toList, options := "FULL".toList },
    { id := 2, parentId := some 1, operation := "INDEX".toList }]

theorem isPlan_joinPlan : IsPlan joinPlan := by
  refine ⟨by decide, by decide, fun n hn => ?_⟩
  -- ids grow downwards
  have hstep : ∀ a b, ChildOf joinPlan a b → a.id < b.id := by
    intro a b ⟨hb, hup⟩
    have hb' : ∀ b ∈ joinPlan, ∀ i, b.parentId = some i → i < b.id := by decide
    exact hb' b hb _ hup
  have hgrow : ∀ a b, Relation.TransGen (ChildOf joinPlan) a b → a.id < b.id := by
    intro a b hab
    induction hab with
    | single h => exact hstep _ _ h
    | tail _ h ih => exact ih.trans (hstep _ _ h)
  exact lt_irrefl _ (hgrow n n hn)

theorem explainPlanFlow_ordered_joinPlan :
    ∃ depth events, (∀ d, depth ≤ d → explainPlanFlow (fun _ => joinPlan) (fun _ => none) d
      ⟨"SELECT 1".toList, true⟩ = some events) ∧ InTreeOrder joinPlan events :=
  explainPlanFlow_ordered (fun _ => joinPlan) (fun _ => none) ⟨"SELECT 1".toList, true⟩
    isPlan_joinPlan

end Veesker.Sidecar.Flow
