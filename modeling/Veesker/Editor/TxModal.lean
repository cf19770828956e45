/-
  File:      Veesker/Editor/TxModal.lean
  Subject:   WHAT THE MODAL FOR PENDING TRANSACTIONS DOES (src/lib/workspace/tx-modal-controller.ts
             `buildSnapshot` and `applyDecisions`).

  Every call goes through a wrapper that turns a failure into a reply and never throws. A commit
  or a rollback takes no connection: it acts on the one whose session the sidecar has then. A call
  may also take effect and its reply be lost.

  * **`right_iff`** -- no rows mean that no transaction is open, and every turn of the loop does
    what was decided and writes down what it did, if and only if the state was answered and every
    decision is carried out on its connection;
  * `unanswered_empty` -- without it: no rows, because the call failed.
-/
import Veesker.Sidecar.TxState

namespace Veesker.Editor.TxModal

open Safety Sidecar

/-! ## 1. The calls -/

/-- What comes of a call, with what it acted on where it did. -/
inductive Reply (α : Type) where
  | ok (data : α)
  | lost (data : α)
  | failed
  deriving DecidableEq

/-- What the call did. -/
def Reply.effect {α : Type} : Reply α → Option α
  | .ok data => some data
  | .lost data => some data
  | .failed => none

structure ActiveConnectionInfo where
  connectionId : Text
  connectionName : Text
  env : Env
  deriving DecidableEq

structure ConnectionRow where
  connectionId : Text
  connectionName : Text
  env : Env
  pendingStatements : Nat
  lastTxId : Option Text
  lastModifyingType : Option TxModifyingType
  deriving DecidableEq

inductive PerRowDecision where
  | commit
  | rollback
  | keepOpen (minutes : Nat)
  deriving DecidableEq

inductive TxModalDecision where
  | commit | rollback | keepOpen | closeCancelled | sessionLost
  deriving DecidableEq

inductive TxModalTriggeredBy where
  | windowClose | tabClose | routeNavigate | trayQuit | sessionLost | manualCheck
  deriving DecidableEq

structure TxModalAuditInput where
  decision : TxModalDecision
  triggeredBy : TxModalTriggeredBy
  connectionId : Text
  env : Env
  pendingStatements : Nat
  lastTxId : Option Text
  deriving DecidableEq

structure KeepOpenRecord where
  connectionId : Text
  openedAt : Int
  expiresAt : Int
  lastTxId : Option Text
  env : Env
  deriving DecidableEq

/-- What a call changes. -/
inductive Effect where
  | committed (connectionId : Text)
  | rolledBack (connectionId : Text)
  | recorded (record : KeepOpenRecord)
  | cleared (connectionId : Text)
  | audited (row : TxModalAuditInput)
  deriving DecidableEq

/-! ## 2. The controller -/

def buildSnapshot (active : ActiveConnectionInfo) (res : Reply ConnectionTxStateResult) :
    List ConnectionRow :=
  match res with
  | .ok view =>
    if view.hasOpenTx = false ∨ view.pendingStatements ≤ 0 then []
    else [⟨active.connectionId, active.connectionName, active.env, view.pendingStatements,
      view.lastTxId, view.lastModifyingType⟩]
  | .lost _ => []
  | .failed => []

def decisionToLabel : PerRowDecision → TxModalDecision
  | .commit => .commit
  | .rollback => .rollback
  | .keepOpen _ => .keepOpen

/-- What the calls for one connection meet: the connection that the commit or the rollback acted
    on, and the clock. -/
structure Replies where
  settle : Reply Text
  clear : Reply Unit
  record : Reply Unit
  audit : Reply Unit
  now : Int
  deriving DecidableEq

/-- The record that keeping open asks for. -/
def keepOpenRecord (conn : ConnectionRow) (minutes : Nat) (now : Int) : KeepOpenRecord :=
  ⟨conn.connectionId, now, now + minutes * 60000, conn.lastTxId, conn.env⟩

/-- The `try` block. -/
def decided (conn : ConnectionRow) (replies : Replies) : PerRowDecision → List Effect
  | .commit =>
    (replies.settle.effect.map .committed).toList ++
      (replies.clear.effect.map fun _ => .cleared conn.connectionId).toList
  | .rollback =>
    (replies.settle.effect.map .rolledBack).toList ++
      (replies.clear.effect.map fun _ => .cleared conn.connectionId).toList
  | .keepOpen minutes =>
    (replies.record.effect.map fun _ =>
      .recorded (keepOpenRecord conn minutes replies.now)).toList

/-- The `finally` block. -/
def audited (conn : ConnectionRow) (dec : PerRowDecision) (triggeredBy : TxModalTriggeredBy)
    (replies : Replies) : List Effect :=
  (replies.audit.effect.map fun _ => .audited
    ⟨decisionToLabel dec, triggeredBy, conn.connectionId, conn.env, conn.pendingStatements,
      conn.lastTxId⟩).toList

/-- One turn of the loop, with what it did. -/
structure Turn where
  conn : ConnectionRow
  dec : PerRowDecision
  replies : Replies
  effects : List Effect
  deriving DecidableEq

/-- `applyDecisions`, with what each connection's calls meet; it always completes. -/
def applyDecisions (decisions : Text → Option PerRowDecision) (triggeredBy : TxModalTriggeredBy) :
    List (ConnectionRow × Replies) → List Turn
  | [] => []
  | (conn, replies) :: rest =>
    match decisions conn.connectionId with
    | none => applyDecisions decisions triggeredBy rest
    | some dec =>
      ⟨conn, dec, replies, decided conn replies dec ++ audited conn dec triggeredBy replies⟩ ::
        applyDecisions decisions triggeredBy rest

/-! ## 3. What is asked of a turn -/

/-- The effect is the one that is called so, on this connection. -/
def Effect.names (connectionId : Text) : TxModalDecision → Effect → Prop
  | .commit, e => e = .committed connectionId
  | .rollback, e => e = .rolledBack connectionId
  | .keepOpen, e => ∃ record, e = .recorded record ∧ record.connectionId = connectionId
  | .closeCancelled, _ => False
  | .sessionLost, _ => False

structure Turn.Right (t : Turn) : Prop where
  /-- The decision took effect on its connection. -/
  done : ∃ e ∈ t.effects, e.names t.conn.connectionId (decisionToLabel t.dec)
  /-- A row names a decision that took effect. -/
  audit : ∀ row, .audited row ∈ t.effects → ∃ e ∈ t.effects, e.names row.connectionId row.decision
  /-- After a commit or a rollback that failed, the record is not cleared. -/
  kept : (∀ connectionId, t.replies.settle ≠ .ok connectionId) →
    ∀ connectionId, .cleared connectionId ∉ t.effects

/-- The calls for a connection do there what was decided. -/
def Took (conn : ConnectionRow) (replies : Replies) : PerRowDecision → Prop
  | .keepOpen _ => replies.record ≠ .failed
  | _ => replies.settle.effect = some conn.connectionId

/-- They do, and where a commit or a rollback reports a failure the clearing fails too. -/
def CarriedOut (conn : ConnectionRow) (replies : Replies) (dec : PerRowDecision) : Prop :=
  Took conn replies dec ∧ ((∀ minutes, dec ≠ .keepOpen minutes) →
    (∀ id, replies.settle ≠ .ok id) → replies.clear = .failed)

/-! ## 4. One turn -/

section Turns
variable (conn : ConnectionRow) (replies : Replies) (triggeredBy : TxModalTriggeredBy)

/-- The turn that a decision makes. -/
def turn (dec : PerRowDecision) : Turn :=
  ⟨conn, dec, replies, decided conn replies dec ++ audited conn dec triggeredBy replies⟩

variable {conn replies triggeredBy}

theorem effect_eq_none {α : Type} {r : Reply α} : r.effect = none ↔ r = .failed := by
  cases r <;> simp [Reply.effect]

variable {dec : PerRowDecision}

theorem mem_audited {e : Effect}
    (h : e ∈ audited conn dec triggeredBy replies) :
    ∃ row, e = .audited row ∧ row.connectionId = conn.connectionId ∧
      row.decision = decisionToLabel dec := by
  obtain ⟨_, -, rfl⟩ := Option.map_eq_some_iff.mp (Option.mem_toList.mp h)
  exact ⟨_, rfl, rfl, rfl⟩

/-- The `finally` block carries no decision out. -/
theorem mem_turn {id : Text} {label : TxModalDecision} {e : Effect}
    (h : e.names id label) : e ∈ (turn conn replies triggeredBy dec).effects ↔
      e ∈ decided conn replies dec := by
  refine ⟨fun he => ?_, fun he => List.mem_append_left _ he⟩
  refine (List.mem_append.mp he).resolve_right fun ha => ?_
  obtain ⟨row, rfl, -⟩ := mem_audited ha
  cases label with
  | commit => cases h
  | rollback => cases h
  | keepOpen =>
    obtain ⟨record, h, -⟩ := h
    cases h
  | closeCancelled => exact h
  | sessionLost => exact h

theorem cleared_mem_turn {id : Text} :
    .cleared id ∈ (turn conn replies triggeredBy dec).effects ↔
      .cleared id ∈ decided conn replies dec := by
  refine ⟨fun he => ?_, fun he => List.mem_append_left _ he⟩
  refine (List.mem_append.mp he).resolve_right fun ha => ?_
  obtain ⟨row, h, -⟩ := mem_audited ha
  cases h

theorem audited_mem_turn {row : TxModalAuditInput}
    (h : .audited row ∈ (turn conn replies triggeredBy dec).effects) :
    row.connectionId = conn.connectionId ∧ row.decision = decisionToLabel dec := by
  rcases List.mem_append.mp h with h | h
  · cases dec <;> simp [decided] at h
  · obtain ⟨_, h, hid, hdec⟩ := mem_audited h
    obtain rfl := Effect.audited.inj h
    exact ⟨hid, hdec⟩

theorem took_iff (dec : PerRowDecision) : Took conn replies dec ↔
    ∃ e ∈ decided conn replies dec, e.names conn.connectionId (decisionToLabel dec) := by
  cases dec with
  | commit => simp [Took, decided, decisionToLabel, Effect.names]
  | rollback => simp [Took, decided, decisionToLabel, Effect.names]
  | keepOpen minutes =>
    simp [Took, decided, decisionToLabel, Effect.names, keepOpenRecord, ← effect_eq_none,
      Option.ne_none_iff_exists']

/-- A clearing follows every commit and every rollback, unless it fails itself. -/
theorem cleared_iff (dec : PerRowDecision) : (∃ id, .cleared id ∈ decided conn replies dec) ↔
    replies.clear ≠ .failed ∧ ∀ minutes, dec ≠ .keepOpen minutes := by
  cases dec with
  | commit => simp [decided, ← effect_eq_none, Option.ne_none_iff_exists']
  | rollback => simp [decided, ← effect_eq_none, Option.ne_none_iff_exists']
  | keepOpen minutes => simp [decided]

theorem turn_right_iff (dec : PerRowDecision) :
    (turn conn replies triggeredBy dec).Right ↔ CarriedOut conn replies dec := by
  constructor
  · intro h
    obtain ⟨e, he, hn⟩ := h.done
    refine ⟨(took_iff dec).mpr ⟨e, (mem_turn hn).mp he, hn⟩, fun hdec hsettle => ?_⟩
    refine Classical.byContradiction fun hclear => ?_
    obtain ⟨id, hid⟩ := (cleared_iff dec).mpr ⟨hclear, hdec⟩
    exact h.kept hsettle id (cleared_mem_turn.mpr hid)
  · intro h
    obtain ⟨e, he, hn⟩ := (took_iff dec).mp h.1
    have hdone : e ∈ (turn conn replies triggeredBy dec).effects := (mem_turn hn).mpr he
    refine ⟨⟨e, hdone, hn⟩, fun row hrow => ?_, fun hsettle id hid => ?_⟩
    · obtain ⟨hconn, hlabel⟩ := audited_mem_turn hrow
      rw [hconn, hlabel]
      exact ⟨e, hdone, hn⟩
    · obtain ⟨hclear, hdec⟩ := (cleared_iff dec).mp ⟨id, cleared_mem_turn.mp hid⟩
      exact hclear (h.2 hdec hsettle)

end Turns

/-! ## 5. The result -/

section Results
variable {decisions : Text → Option PerRowDecision} {triggeredBy : TxModalTriggeredBy}

/-- The turns are those of the connections with a decision. -/
theorem mem_applyDecisions {calls : List (ConnectionRow × Replies)} {t : Turn} :
    t ∈ applyDecisions decisions triggeredBy calls ↔ ∃ conn replies dec,
      (conn, replies) ∈ calls ∧ decisions conn.connectionId = some dec ∧
        t = turn conn replies triggeredBy dec := by
  induction calls with
  | nil => simp [applyDecisions]
  | cons c rest ih =>
    obtain ⟨conn, replies⟩ := c
    rw [applyDecisions]
    cases hdec : decisions conn.connectionId with
    | none =>
      simp only [ih, List.mem_cons, Prod.mk.injEq]
      constructor
      · rintro ⟨conn', replies', dec, hmem, h⟩
        exact ⟨conn', replies', dec, .inr hmem, h⟩
      · rintro ⟨conn', replies', dec, ⟨rfl, rfl⟩ | hmem, hd, ht⟩
        · cases hdec.symm.trans hd
        · exact ⟨conn', replies', dec, hmem, hd, ht⟩
    | some dec =>
      simp only [ih, List.mem_cons, Prod.mk.injEq]
      constructor
      · rintro (ht | ⟨conn', replies', dec', hmem, h⟩)
        · exact ⟨conn, replies, dec, .inl ⟨rfl, rfl⟩, hdec, ht⟩
        · exact ⟨conn', replies', dec', .inr hmem, h⟩
      · rintro ⟨conn', replies', dec', ⟨rfl, rfl⟩ | hmem, hd, ht⟩
        · obtain rfl := Option.some.inj (hdec.symm.trans hd)
          exact .inl ht
        · exact .inr ⟨conn', replies', dec', hmem, hd, ht⟩

theorem buildSnapshot_right_iff (active : ActiveConnectionInfo)
    (res : Reply ConnectionTxStateResult) :
    (buildSnapshot active res = [] → ∃ view, res = .ok view ∧ view.hasOpenTx = false) ↔
      ∃ view, res = .ok view ∧ (view.hasOpenTx = true → 0 < view.pendingStatements) := by
  cases res with
  | ok view =>
    cases h : view.hasOpenTx <;> simp [buildSnapshot, h, Nat.pos_iff_ne_zero]
  | lost view => simp [buildSnapshot]
  | failed => simp [buildSnapshot]

end Results

/-- **The modal opens for every open transaction, and every decision is carried out on its
    connection and written down as what it did, if and only if the state was answered and the calls
    do there what was decided.** -/
theorem right_iff (active : ActiveConnectionInfo) (res : Reply ConnectionTxStateResult)
    (decisions : Text → Option PerRowDecision) (triggeredBy : TxModalTriggeredBy)
    (calls : List (ConnectionRow × Replies)) :
    ((buildSnapshot active res = [] → ∃ view, res = .ok view ∧ view.hasOpenTx = false) ∧
        ∀ t ∈ applyDecisions decisions triggeredBy calls, t.Right) ↔
      ((∃ view, res = .ok view ∧ (view.hasOpenTx = true → 0 < view.pendingStatements)) ∧
        ∀ conn replies dec, (conn, replies) ∈ calls → decisions conn.connectionId = some dec →
          CarriedOut conn replies dec) := by
  refine and_congr (buildSnapshot_right_iff active res) ⟨fun h conn replies dec hmem hdec => ?_,
    fun h t ht => ?_⟩
  · exact (turn_right_iff dec).mp
      (h _ (mem_applyDecisions.mpr ⟨conn, replies, dec, hmem, hdec, rfl⟩))
  · obtain ⟨conn, replies, dec, hmem, hdec, rfl⟩ := mem_applyDecisions.mp ht
    exact (turn_right_iff dec).mpr (h conn replies dec hmem hdec)

def prodRow : ConnectionRow :=
  ⟨"p".toList, "PROD".toList, .prod, 3, some "1.2.3".toList, some .dml⟩

/-- The call for the state fails, and there are no rows; a commit fails, and the loop clears the
    record, writes a row of a commit and completes. -/
theorem unanswered_empty :
    (¬ (buildSnapshot ⟨"p".toList, "PROD".toList, .prod⟩ .failed = [] →
        ∃ view, (Reply.failed : Reply ConnectionTxStateResult) = .ok view ∧
          view.hasOpenTx = false)) ∧
      ¬ ∀ t ∈ applyDecisions (fun _ => some .commit) .windowClose
        [(prodRow, ⟨.failed, .ok (), .failed, .ok (), 0⟩)], t.Right := by
  constructor
  · intro h
    obtain ⟨_, h, -⟩ := h rfl
    cases h
  · intro h
    exact (h _ List.mem_cons_self).kept (fun _ => nofun) "p".toList (by decide)

end Veesker.Editor.TxModal
