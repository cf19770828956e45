/-
  File:      Veesker/Sidecar/TxState.lean
  Subject:   WHAT `connection.txState` SAYS OF THE TRANSACTION (sidecar/src/state.ts,
             sidecar/src/oracle.ts).

  The sidecar keeps a count of changing statements and corrects it by the transaction id Oracle
  gives: after a statement of a changing kind that succeeded, and in `connectionTxState` when the
  count is positive. Every request keeps the connection it took when it awaits, so a step of this
  machine is an answer on a request's connection, with all the handler does up to its next await;
  what Oracle makes of the transaction is part of the answer. The statements of `queryExecute` are
  those the gate let through.

  In every run in which no answer is taken for "no transaction" while a change is there, what is
  not counted leaves no first change, and a count is not read before its record is made (`TxKept`),
  `hasOpenTx = false` is true (`txState_true`). A lookup that fails after an `UPDATE` makes it false
  (`txState_false`).
-/
import Veesker.Safety.SqlKind
import Veesker.Sidecar.Machine

namespace Veesker.Sidecar

open Safety List

/-! ## 1. The record -/

inductive TxModifyingType where
  | dml | ddl | plsql
  deriving DecidableEq

structure TxState where
  pendingStatements : Nat := 0
  lastTxId : Option Text := none
  lastModifyingAt : Option Time := none
  lastModifyingType : Option TxModifyingType := none
  deriving DecidableEq

def resetTxState : TxState := {}

def recordTxModifying (s : TxState) (type : TxModifyingType) (txId : Option Text) (now : Time) :
    TxState :=
  ⟨s.pendingStatements + 1, txId, some now, some type⟩

def setTxId (s : TxState) (txId : Option Text) : TxState := { s with lastTxId := txId }

/-- What comes of the query for the transaction id: an error, or the column of its row. -/
inductive TxIdAnswer where
  | failed
  | row (t : Option Text)
  deriving DecidableEq

/-- An error is caught, and answers like no transaction. -/
def fetchOracleTxId : TxIdAnswer → Option Text
  | .row (some t) => if 0 < t.length then some t else none
  | .row none | .failed => none

/-- The kinds a transaction id is looked up for. -/
def syncs (kind : SqlKind) : Bool :=
  match kind with
  | .dml | .ddl | .plsql | .tcl => true
  | .select | .session | .unknown => false

/-- The kinds that are counted. -/
def modifyingType : SqlKind → Option TxModifyingType
  | .dml => some .dml
  | .ddl => some .ddl
  | .plsql => some .plsql
  | .tcl | .select | .session | .unknown => none

/-- `syncTxStateAfterStatement`, from the answer of its lookup on. -/
def syncTxStateAfterStatement (s : TxState) (sql : Text) (answer : TxIdAnswer) (now : Time) : TxState :=
  match fetchOracleTxId answer with
  | none => resetTxState
  | some txId =>
    match modifyingType (classifySql sql) with
    | some type => recordTxModifying s type txId now
    | none => setTxId s txId

structure ConnectionTxStateResult where
  hasOpenTx : Bool
  pendingStatements : Nat
  lastTxId : Option Text
  lastModifyingAt : Option Time
  lastModifyingType : Option TxModifyingType
  deriving DecidableEq

def txStateResult (s : TxState) : ConnectionTxStateResult :=
  ⟨decide (0 < s.pendingStatements), s.pendingStatements, s.lastTxId, s.lastModifyingAt,
    s.lastModifyingType⟩

/-! ## 2. The machine -/

/-- Oracle's transaction on a connection: none, one without changes, one with. -/
inductive Tx where
  | idle | opened | changed
  deriving DecidableEq

/-- What a request awaits. -/
inductive Awaited where
  /-- a statement of `queryExecute`; then the ones after it -/
  | statement (sql : Text) (rest : List Text)
  /-- the transaction id after a statement -/
  | sync (sql : Text) (rest : List Text)
  | procExecute
  | debugRun
  | commit
  | rollback
  /-- the transaction id for `connectionTxState` -/
  | txState
  deriving DecidableEq

structure InFlight where
  session : SessionId
  awaited : Awaited
  deriving DecidableEq

structure TxWorld where
  session : Option SessionId := none
  nextId : SessionId := 0
  /-- the transaction on the session's connection -/
  tx : Tx := .idle
  cache : TxState := {}
  requests : List InFlight := []
  deriving DecidableEq

/-- The session's connection has an uncommitted change. -/
def TxWorld.hasChange (s : TxWorld) : Bool := s.session.isSome && s.tx == .changed

inductive Reply where
  | ok
  /-- an error, or a cancellation; `lost` when it says the connection is gone -/
  | failed (lost : Bool)
  | txId (answer : TxIdAnswer)
  deriving DecidableEq

/-- An answer: the transaction it leaves behind on its connection, the clock when it comes, and
    whether `queryCancel` has been called by then. -/
structure Answered where
  reply : Reply
  tx : Tx := .idle
  now : Time := 0
  cancelled : Bool := false
  deriving DecidableEq

inductive TxAction where
  /-- `setSession` -/
  | opened
  /-- `clearSession` -/
  | cleared
  | queryExecute (statements : List Text)
  | procExecute
  | debugRun
  | connectionCommit
  | connectionRollback
  | connectionTxState
  | served (i : Nat) (x : Answered)
  deriving DecidableEq

/-- What `connectionTxState` returned, and whether there was an uncommitted change. -/
inductive TxEvent where
  | reported (result : ConnectionTxStateResult) (change : Bool)
  deriving DecidableEq

/-- The request's connection is the session's. -/
def TxWorld.holds (s : TxWorld) (r : InFlight) : Bool := s.session == some r.session

/-- What Oracle answers on a connection with the transaction `tx`. -/
def Answered.lawfulOn (x : Answered) (tx : Tx) (awaited : Awaited) : Bool :=
  match awaited, x.reply with
  | .sync _ _, .txId a | .txState, .txId a =>
    x.tx == tx && (a == .failed || ((fetchOracleTxId a).isNone == (tx == .idle)))
  | .commit, .ok | .rollback, .ok => x.tx == .idle
  | .commit, .failed _ | .rollback, .failed _ => x.tx == tx || x.tx == .idle
  | _, _ => true

/-- The answer fits what is awaited. -/
def Answered.fits (x : Answered) (awaited : Awaited) : Bool :=
  match awaited, x.reply with
  | .sync _ _, .txId _ | .txState, .txId _ => true
  | .sync _ _, _ | .txState, _ | _, .txId _ => false
  | _, _ => true

def Answered.lawful (x : Answered) (s : TxWorld) (r : InFlight) : Bool :=
  x.fits r.awaited && (!s.holds r || x.lawfulOn s.tx r.awaited)

def TxWorld.setCache (s : TxWorld) (cache : TxState) : TxWorld := { s with cache := cache }

/-- A further request on a connection. -/
def TxWorld.push (s : TxWorld) (r : InFlight) : TxWorld := { s with requests := s.requests ++ [r] }

/-- A request on the session there is, if there is one. -/
def TxWorld.begin (s : TxWorld) (awaited : Awaited) : TxWorld :=
  match s.session with
  | none => s
  | some id => s.push ⟨id, awaited⟩

/-- The batch goes on with its next statement. -/
def TxWorld.goOn (s : TxWorld) (rest : List Text) (cancelled : Bool) : TxWorld :=
  match rest with
  | [] => s
  | sql :: rest => if cancelled then s else s.begin (.statement sql rest)

def TxWorld.clear (s : TxWorld) : TxWorld := { s with session := none, cache := resetTxState }

def TxWorld.report (s : TxWorld) : TxEvent := .reported (txStateResult s.cache) s.hasChange

/-- A `queryExecute` is under way. -/
def TxWorld.running (s : TxWorld) : Bool :=
  s.requests.any fun r =>
    match r.awaited with
    | .statement _ _ | .sync _ _ => true
    | _ => false

/-- What Oracle did, on the session's connection or on another. -/
def TxWorld.effect (s : TxWorld) (r : InFlight) (tx : Tx) : TxWorld :=
  if s.holds r then { s with tx := tx } else s

/-- `connectionTxState` after its lookup. -/
def consulted (cache : TxState) (answer : TxIdAnswer) : TxState :=
  match fetchOracleTxId answer with
  | none => resetTxState
  | some txId => setTxId cache txId

/-- The handler goes on with its answer. -/
def serve (s : TxWorld) (r : InFlight) (x : Answered) : TxWorld × List TxEvent :=
  match r.awaited, x.reply with
  | .statement sql rest, .ok =>
    if syncs (classifySql sql) then
      (s.push ⟨r.session, .sync sql rest⟩, [])
    else (s.goOn rest x.cancelled, [])
  | .sync sql rest, .txId a =>
    ((s.setCache (syncTxStateAfterStatement s.cache sql a x.now)).goOn rest x.cancelled, [])
  | .commit, .ok | .rollback, .ok => (s.setCache resetTxState, [])
  | .txState, .txId a =>
    let s' := s.setCache (consulted s.cache a)
    (s', [s'.report])
  | _, .failed true => (s.clear, [])
  | _, _ => (s, [])

/-- **One handler, from one await to the next.** -/
def txStep (s : TxWorld) : TxAction → Option (TxWorld × List TxEvent)
  | .opened =>
    if s.session = none then
      some ({ s with session := some s.nextId, nextId := s.nextId + 1, tx := .idle }, [])
    else none
  | .cleared => some (s.clear, [])
  | .queryExecute statements =>
    match statements with
    | [] => some (s, [])
    | sql :: rest => some (if s.running then s else s.begin (.statement sql rest), [])
  | .procExecute => some (s.begin .procExecute, [])
  | .debugRun => some (s.begin .debugRun, [])
  | .connectionCommit => some (s.begin .commit, [])
  | .connectionRollback => some (s.begin .rollback, [])
  | .connectionTxState =>
    if s.session = none then some (s, [.reported (txStateResult {}) false])
    else if 0 < s.cache.pendingStatements then some (s.begin .txState, [])
    else some (s, [s.report])
  | .served i x =>
    match s.requests[i]? with
    | none => none
    | some r =>
      if x.lawful s r then
        some (serve ({ s with requests := s.requests.eraseIdx i }.effect r x.tx) r x)
      else none

abbrev TxReaches (ok : TxWorld → TxAction → Prop) : TxWorld → List TxEvent → Prop :=
  Run.Reaches txStep ok {}

abbrev anyTx : TxWorld → TxAction → Prop := fun _ _ => True

instance (s : TxWorld) (a : TxAction) : Decidable (anyTx s a) := inferInstanceAs (Decidable True)

/-! ## 3. When the report is true -/

/-- The record of a counted statement on the session's connection is still awaited. -/
def TxWorld.owed (s : TxWorld) : Bool :=
  s.requests.any fun r => s.holds r &&
    match r.awaited with
    | .sync sql _ => (modifyingType (classifySql sql)).isSome
    | _ => false

/-- The count covers what has been recorded: nothing is owed to it, or it is positive anyway. -/
def TxWorld.settled (s : TxWorld) : Bool := decide (0 < s.cache.pendingStatements) || !s.owed

/-- What is not counted leaves no first change. -/
def TxWorld.noFirstChange (s : TxWorld) (tx : Tx) : Bool :=
  tx != .changed || s.tx == .changed || decide (0 < s.cache.pendingStatements)

/-- **The condition.** An answer taken for "no transaction", and a commit or rollback on a connection
    that is no longer the session's, come only while there is no change; a procedure, a script, a
    statement that fails or is of another kind leaves no first change; and `connectionTxState` reads
    a settled count. -/
def txKept (s : TxWorld) : TxAction → Bool
  | .connectionTxState => s.settled
  | .served i x => s.requests[i]?.all fun r =>
    match r.awaited, x.reply with
    | .sync _ _, .txId a => (fetchOracleTxId a).isSome || !s.hasChange
    | .txState, .txId a => ((fetchOracleTxId a).isSome || !s.hasChange) && s.settled
    | .commit, .ok | .rollback, .ok => s.holds r || !s.hasChange
    | .statement sql _, .ok =>
      !s.holds r || (modifyingType (classifySql sql)).isSome || s.noFirstChange x.tx
    | .statement _ _, .failed _ | .procExecute, _ | .debugRun, _ => !s.holds r || s.noFirstChange x.tx
    | _, _ => true
  | _ => true

abbrev TxKept (s : TxWorld) (a : TxAction) : Prop := txKept s a = true

/-- A change on the session's connection is counted, or its record is awaited. -/
def TxWorld.Covered (s : TxWorld) : Prop :=
  s.hasChange = true → 0 < s.cache.pendingStatements ∨ s.owed = true

/-- `hasOpenTx` is false only when there is no change. -/
def ReportsTrue (log : List TxEvent) : Prop :=
  ∀ result change, TxEvent.reported result change ∈ log → result.hasOpenTx = false → change = false

/-! ## 4. One step -/

variable {s : TxWorld}

theorem owed_iff : s.owed = true ↔ ∃ id, s.session = some id ∧
    ∃ sql rest, ⟨id, .sync sql rest⟩ ∈ s.requests ∧ (modifyingType (classifySql sql)).isSome := by
  unfold TxWorld.owed
  rw [any_eq_true]
  constructor
  · rintro ⟨⟨id, awaited⟩, hr, h⟩
    rw [Bool.and_eq_true, TxWorld.holds, beq_iff_eq] at h
    obtain ⟨hs, h⟩ := h
    cases awaited with
    | sync sql rest => exact ⟨id, hs, sql, rest, hr, h⟩
    | _ => cases h
  · rintro ⟨id, hs, sql, rest, hr, h⟩
    exact ⟨_, hr, by simp [TxWorld.holds, hs, h]⟩

variable {s s' : TxWorld}

/-- More requests owe no less. -/
theorem owed_mono (h : s.owed = true) (hs : s'.session = s.session)
    (hr : ∀ r ∈ s.requests, r ∈ s'.requests) : s'.owed = true := by
  obtain ⟨id, hid, sql, rest, hmem, hm⟩ := owed_iff.mp h
  exact owed_iff.mpr ⟨id, hs.trans hid, sql, rest, hr _ hmem, hm⟩

theorem covered_of_no_change (h : s.hasChange = false) : s.Covered := fun hc => by
  rw [h] at hc
  cases hc

theorem hasChange_eq (hs : s'.session = s.session) (ht : s'.tx = s.tx) :
    s'.hasChange = s.hasChange := by
  unfold TxWorld.hasChange
  rw [hs, ht]

theorem hasChange_setCache (s : TxWorld) (cache : TxState) :
    (s.setCache cache).hasChange = s.hasChange := rfl

/-- A step that touches neither transaction nor count, and drops no request, keeps it covered. -/
theorem TxWorld.Covered.keep (h : s.Covered) (hs : s'.session = s.session)
    (ht : s'.tx = s.tx) (hc : s.cache.pendingStatements ≤ s'.cache.pendingStatements)
    (hr : ∀ r ∈ s.requests, r ∈ s'.requests) : s'.Covered := by
  intro hch
  rw [hasChange_eq hs ht] at hch
  rcases h hch with hp | ho
  · exact .inl (Nat.lt_of_lt_of_le hp hc)
  · exact .inr (owed_mono ho hs hr)

theorem begin_spec (s : TxWorld) (awaited : Awaited) :
    (s.begin awaited).session = s.session ∧ (s.begin awaited).tx = s.tx ∧
      (s.begin awaited).cache = s.cache ∧ ∀ r ∈ s.requests, r ∈ (s.begin awaited).requests := by
  unfold TxWorld.begin
  split
  · exact ⟨rfl, rfl, rfl, fun _ h => h⟩
  · exact ⟨rfl, rfl, rfl, fun _ h => mem_append_left _ h⟩

theorem TxWorld.Covered.begin (h : s.Covered) (awaited : Awaited) :
    (s.begin awaited).Covered := by
  obtain ⟨hs, ht, hc, hr⟩ := begin_spec s awaited
  exact h.keep hs ht (Nat.le_of_eq (by rw [hc])) hr

theorem TxWorld.Covered.goOn (h : s.Covered) (rest : List Text) (cancelled : Bool) :
    (s.goOn rest cancelled).Covered := by
  unfold TxWorld.goOn
  split
  · exact h
  · split
    · exact h
    · exact h.begin _

theorem covered_clear (s : TxWorld) : s.clear.Covered := covered_of_no_change rfl

/-- A report of a covered, settled state is true. -/
theorem report_true (h : s.Covered) (hs : s.settled = true) :
    ReportsTrue [s.report] := by
  intro result change hmem hfalse
  cases mem_singleton.mp hmem
  have hp : ¬ 0 < s.cache.pendingStatements := of_decide_eq_false hfalse
  have ho : s.owed = false := by simpa [TxWorld.settled, hp] using hs
  by_contra hch
  rcases h (Bool.eq_true_of_not_eq_false hch) with h | h
  · exact hp h
  · rw [ho] at h
    cases h

theorem reportsTrue_nil : ReportsTrue [] := fun _ _ h => by cases h

/-! ### An answer -/

/-- No record of a counted statement hangs on the request. -/
def InFlight.Uncounted (r : InFlight) : Prop :=
  ∀ sql rest, r.awaited = .sync sql rest → (modifyingType (classifySql sql)).isSome = false

/-- The state in which the handler of the `i`-th request goes on. -/
def TxWorld.answered (s : TxWorld) (i : Nat) (r : InFlight) (tx : Tx) : TxWorld :=
  { s with requests := s.requests.eraseIdx i }.effect r tx

section Answer
variable {s : TxWorld} {i : Nat} {r : InFlight} {tx : Tx}

theorem answered_spec (s : TxWorld) (i : Nat) (r : InFlight) (tx : Tx) :
    (s.answered i r tx).session = s.session ∧ (s.answered i r tx).cache = s.cache ∧
      (s.answered i r tx).requests = s.requests.eraseIdx i ∧
      (s.answered i r tx).tx = if s.holds r then tx else s.tx := by
  unfold TxWorld.answered TxWorld.effect
  have hh : TxWorld.holds { s with requests := s.requests.eraseIdx i } r = s.holds r := rfl
  rw [hh]
  split
  · exact ⟨rfl, rfl, rfl, rfl⟩
  · exact ⟨rfl, rfl, rfl, rfl⟩

/-- What is owed stays owed when another request is answered. -/
theorem owed_answered (hr : s.requests[i]? = some r) (hu : r.Uncounted) (h : s.owed = true) :
    (s.answered i r tx).owed = true := by
  obtain ⟨hs, -, hreq, -⟩ := answered_spec s i r tx
  obtain ⟨id, hid, sql, rest, hmem, hm⟩ := owed_iff.mp h
  refine owed_iff.mpr ⟨id, hs.trans hid, sql, rest, ?_, hm⟩
  obtain ⟨j, hj⟩ := mem_iff_getElem?.mp hmem
  rw [hreq, mem_eraseIdx_iff_getElem?]
  refine ⟨j, fun hji => ?_, hj⟩
  rw [hji, hr, Option.some.injEq] at hj
  rw [hu sql rest (by rw [hj])] at hm
  cases hm

theorem owed_of_answered (h : (s.answered i r tx).owed = true) : s.owed = true := by
  obtain ⟨hs, -, hreq, -⟩ := answered_spec s i r tx
  obtain ⟨id, hid, sql, rest, hmem, hm⟩ := owed_iff.mp h
  rw [hreq] at hmem
  exact owed_iff.mpr ⟨id, hs ▸ hid, sql, rest, mem_of_mem_eraseIdx hmem, hm⟩

/-- The transaction of the session's connection is as it was. -/
theorem hasChange_answered (h : s.holds r = true → tx = s.tx) :
    (s.answered i r tx).hasChange = s.hasChange := by
  obtain ⟨hs, -, -, ht⟩ := answered_spec s i r tx
  refine hasChange_eq hs (ht.trans ?_)
  split
  · rename_i hh
    exact h hh
  · rfl

/-- **What leaves no first change keeps it covered.** -/
theorem TxWorld.Covered.answered (h : s.Covered) (hr : s.requests[i]? = some r) (hu : r.Uncounted)
    (htx : s.holds r = true → s.noFirstChange tx = true) : (s.answered i r tx).Covered := by
  obtain ⟨hs, hc, -, ht⟩ := answered_spec s i r tx
  intro hch
  rw [hc]
  have hold : s.hasChange = true ∨ 0 < s.cache.pendingStatements := by
    unfold TxWorld.hasChange at hch ⊢
    rw [hs, ht, Bool.and_eq_true] at hch
    obtain ⟨hsome, hch⟩ := hch
    split at hch
    · rename_i hh
      have hn := htx hh
      rw [beq_iff_eq] at hch
      simp only [TxWorld.noFirstChange, hch, bne_self_eq_false, Bool.false_or, Bool.or_eq_true,
        decide_eq_true_eq] at hn
      exact hn.imp_left fun hn => by rw [hsome, hn, Bool.true_and]
    · exact .inl (by rw [hsome, hch, Bool.true_and])
  rcases hold with hold | hp
  · exact (h hold).imp_right (owed_answered hr hu)
  · exact .inl hp

theorem noFirstChange_self (s : TxWorld) : s.noFirstChange s.tx = true := by
  unfold TxWorld.noFirstChange
  cases s.tx <;> rfl

end Answer

section Serve
variable {s : TxWorld} {i : Nat} {r : InFlight} {x : Answered}

theorem noFirstChange_idle (s : TxWorld) : s.noFirstChange .idle = true := rfl

/-- The answer of a lookup is taken for "no transaction" only where there is no change. -/
theorem covered_consulted (h : s.Covered) (hr : s.requests[i]? = some r) (hu : r.Uncounted)
    (htx : s.holds r = true → x.tx = s.tx) (a : TxIdAnswer)
    (ha : ((fetchOracleTxId a).isSome || !s.hasChange) = true) :
    ((s.answered i r x.tx).setCache (consulted (s.answered i r x.tx).cache a)).Covered := by
  have hcov : (s.answered i r x.tx).Covered :=
    h.answered hr hu fun hh => by rw [htx hh, noFirstChange_self]
  unfold consulted
  cases hf : fetchOracleTxId a with
  | none =>
    rw [hf] at ha
    refine covered_of_no_change ?_
    rw [hasChange_setCache, hasChange_answered htx]
    simpa using ha
  | some t => exact hcov.keep rfl rfl (Nat.le_refl _) fun _ h => h

/-- A lookup after a statement leaves the change it was for counted. -/
theorem covered_sync (h : s.Covered) (hr : s.requests[i]? = some r)
    {sql : Text} {rest : List Text} (hawaited : r.awaited = .sync sql rest)
    (htx : s.holds r = true → x.tx = s.tx) (a : TxIdAnswer)
    (ha : ((fetchOracleTxId a).isSome || !s.hasChange) = true) :
    ((s.answered i r x.tx).setCache
      (syncTxStateAfterStatement (s.answered i r x.tx).cache sql a x.now)).Covered := by
  cases hm : modifyingType (classifySql sql) with
  | none =>
    have hu : r.Uncounted := fun sql' rest' he => by
      rw [hawaited, Awaited.sync.injEq] at he
      rw [← he.1, hm]
      rfl
    have := covered_consulted h hr hu htx a ha
    unfold syncTxStateAfterStatement
    simp only [hm]
    exact this
  | some type =>
    unfold syncTxStateAfterStatement
    cases hf : fetchOracleTxId a with
    | none =>
      rw [hf] at ha
      refine covered_of_no_change ?_
      rw [hasChange_setCache, hasChange_answered htx]
      simpa using ha
    | some t =>
      simp only [hm]
      exact fun _ => .inl (Nat.succ_pos _)

/-- What has been asked for after a counted statement is owed. -/
theorem covered_statement (h : s.Covered) (hr : s.requests[i]? = some r) (hu : r.Uncounted)
    {sql : Text} (rest : List Text)
    (hok : s.holds r = true → (modifyingType (classifySql sql)).isSome = true ∨
      s.noFirstChange x.tx = true) :
    ((s.answered i r x.tx).push ⟨r.session, .sync sql rest⟩).Covered := by
  by_cases hnew : s.holds r = true → s.noFirstChange x.tx = true
  · exact (h.answered hr hu hnew).keep rfl rfl (Nat.le_refl _) fun _ h => mem_append_left _ h
  · obtain ⟨hh, hno⟩ := Classical.not_imp.mp hnew
    refine fun _ => .inr (owed_iff.mpr ⟨r.session, ?_, sql, rest,
      mem_append_right _ (mem_singleton_self _), (hok hh).resolve_right hno⟩)
    exact (answered_spec s i r x.tx).1.trans (beq_iff_eq.mp hh)

theorem syncs_of_modifyingType {kind : SqlKind} (h : (modifyingType kind).isSome = true) :
    syncs kind = true := by
  cases kind <;> first | rfl | cases h

/-- The transaction after a commit or a rollback. -/
theorem noFirstChange_of_failed (h : (x.tx == s.tx || x.tx == .idle) = true) :
    s.noFirstChange x.tx = true := by
  rcases Bool.or_eq_true _ _ ▸ h with h | h
  · rw [beq_iff_eq.mp h, noFirstChange_self]
  · rw [beq_iff_eq.mp h, noFirstChange_idle]

/-- A commit or a rollback that is done, on the session's connection or while there is no change. -/
theorem covered_ended (hl : s.holds r = true → x.tx = .idle)
    (hok : (s.holds r || !s.hasChange) = true) :
    ((s.answered i r x.tx).setCache resetTxState).Covered := by
  refine covered_of_no_change ?_
  rw [hasChange_setCache]
  obtain ⟨hs, -, -, ht⟩ := answered_spec s i r x.tx
  by_cases hh : s.holds r = true
  · rw [TxWorld.hasChange, ht, if_pos hh, hl hh]
    exact Bool.and_false _
  · rw [hasChange_answered fun h => absurd h hh]
    simpa [hh] using hok

/-- What `connectionTxState` returns after its lookup. -/
theorem consulted_report (h : s.Covered) (hr : s.requests[i]? = some r) (hu : r.Uncounted)
    (htx : s.holds r = true → x.tx = s.tx) {a : TxIdAnswer}
    (ha : ((fetchOracleTxId a).isSome || !s.hasChange) = true) (hs : s.settled = true) :
    ReportsTrue [((s.answered i r x.tx).setCache
      (consulted (s.answered i r x.tx).cache a)).report] := by
  have hcov := covered_consulted h hr hu htx a ha
  cases hf : fetchOracleTxId a with
  | none =>
    rw [hf] at ha
    intro result change hmem hfalse
    cases mem_singleton.mp hmem
    rw [hasChange_setCache, hasChange_answered htx]
    simpa using ha
  | some t =>
    refine report_true hcov ?_
    obtain ⟨-, hc, -, -⟩ := answered_spec s i r x.tx
    have howed : ((s.answered i r x.tx).setCache
        (consulted (s.answered i r x.tx).cache a)).owed = (s.answered i r x.tx).owed := rfl
    have hcount : ((s.answered i r x.tx).setCache
        (consulted (s.answered i r x.tx).cache a)).cache.pendingStatements =
          s.cache.pendingStatements := by
      unfold TxWorld.setCache consulted
      rw [hf, hc]
      rfl
    unfold TxWorld.settled at hs ⊢
    rw [howed, hcount]
    rcases Bool.or_eq_true _ _ ▸ hs with hp | ho
    · rw [hp, Bool.true_or]
    · have hno : (s.answered i r x.tx).owed = false := by
        by_contra hyes
        rw [owed_of_answered (Bool.eq_true_of_not_eq_false hyes)] at ho
        cases ho
      rw [hno]
      exact Bool.or_true _

/-- **An answer** keeps the change covered, and what `connectionTxState` makes of it is true. -/
theorem covered_serve (h : s.Covered) (hr : s.requests[i]? = some r) (hl : x.lawful s r = true)
    (hok : TxKept s (.served i x)) :
    (serve (s.answered i r x.tx) r x).1.Covered ∧
      ReportsTrue (serve (s.answered i r x.tx) r x).2 := by
  obtain ⟨session, awaited⟩ := r
  obtain ⟨reply, tx, now, cancelled⟩ := x
  rw [Answered.lawful, Bool.and_eq_true] at hl
  obtain ⟨hfits, hl⟩ := hl
  replace hl : s.holds ⟨session, awaited⟩ = true →
      Answered.lawfulOn ⟨reply, tx, now, cancelled⟩ s.tx awaited = true := fun hh => by
    rw [hh] at hl
    exact hl
  simp only [TxKept, txKept, hr, Option.all_some] at hok
  -- what a failed request leaves, with or without its connection
  have hfailed (hu : InFlight.Uncounted ⟨session, awaited⟩)
      (hn : s.holds ⟨session, awaited⟩ = true → s.noFirstChange tx = true) :
      (s.answered i ⟨session, awaited⟩ tx).Covered := h.answered hr hu hn
  have huncounted (hno : ∀ sql rest, awaited ≠ .sync sql rest) :
      InFlight.Uncounted ⟨session, awaited⟩ := fun sql rest he => absurd he (hno sql rest)
  cases awaited with
  | statement sql rest =>
    have hu := huncounted (by simp)
    cases reply with
    | ok =>
      simp only [Bool.or_eq_true, Bool.not_eq_true'] at hok
      simp only [serve]
      split
      · refine ⟨covered_statement (x := ⟨.ok, tx, now, cancelled⟩) h hr hu rest fun hh => ?_,
          reportsTrue_nil⟩
        rw [hh] at hok
        simpa using hok
      · rename_i hsyncs
        refine ⟨(hfailed hu fun hh => ?_).goOn rest cancelled, reportsTrue_nil⟩
        rcases hok with (hno | hm) | hn
        · rw [hh] at hno
          cases hno
        · exact absurd (syncs_of_modifyingType hm) hsyncs
        · exact hn
    | failed lost =>
      have hcov := hfailed hu fun hh => by
        rw [hh] at hok
        exact hok
      cases lost with
      | false => exact ⟨hcov, reportsTrue_nil⟩
      | true => exact ⟨covered_clear _, reportsTrue_nil⟩
    | txId a => cases hfits
  | sync sql rest =>
    cases reply with
    | txId a =>
      have htx : s.holds ⟨session, .sync sql rest⟩ = true → tx = s.tx := fun hh =>
        beq_iff_eq.mp (Bool.and_eq_true _ _ ▸ hl hh).1
      exact ⟨(covered_sync h hr rfl htx a hok).goOn rest cancelled, reportsTrue_nil⟩
    | ok | failed => cases hfits
  | procExecute | debugRun =>
    have hcov := hfailed (huncounted (by simp)) fun hh => by
      rw [hh] at hok
      exact hok
    cases reply with
    | ok => exact ⟨hcov, reportsTrue_nil⟩
    | failed lost =>
      cases lost with
      | false => exact ⟨hcov, reportsTrue_nil⟩
      | true => exact ⟨covered_clear _, reportsTrue_nil⟩
    | txId a => cases hfits
  | commit | rollback =>
    cases reply with
    | ok => exact ⟨covered_ended (fun hh => beq_iff_eq.mp (hl hh)) hok, reportsTrue_nil⟩
    | failed lost =>
      have hcov := hfailed (huncounted (by simp)) fun hh => noFirstChange_of_failed
        (x := ⟨.failed lost, tx, now, cancelled⟩) (hl hh)
      cases lost with
      | false => exact ⟨hcov, reportsTrue_nil⟩
      | true => exact ⟨covered_clear _, reportsTrue_nil⟩
    | txId a => cases hfits
  | txState =>
    cases reply with
    | txId a =>
      have htx : s.holds ⟨session, .txState⟩ = true → tx = s.tx := fun hh =>
        beq_iff_eq.mp (Bool.and_eq_true _ _ ▸ hl hh).1
      rw [Bool.and_eq_true] at hok
      have hcov := covered_consulted (x := ⟨.txId a, tx, now, cancelled⟩) h hr (huncounted (by simp))
        htx a hok.1
      refine ⟨hcov, consulted_report h hr (huncounted (by simp)) htx hok.1 hok.2⟩
    | ok | failed => cases hfits

end Serve

/-- **One step**: a change stays covered, and a report is true. -/
theorem covered_step {a : TxAction} {new : List TxEvent} (h : s.Covered)
    (hok : TxKept s a) (hstep : txStep s a = some (s', new)) : s'.Covered ∧ ReportsTrue new := by
  cases a with
  | opened =>
    simp only [txStep] at hstep
    split at hstep
    · cases hstep
      exact ⟨covered_of_no_change rfl, reportsTrue_nil⟩
    · cases hstep
  | cleared =>
    cases hstep
    exact ⟨covered_clear s, reportsTrue_nil⟩
  | queryExecute statements =>
    cases statements with
    | nil =>
      cases hstep
      exact ⟨h, reportsTrue_nil⟩
    | cons sql rest =>
      cases hstep
      refine ⟨?_, reportsTrue_nil⟩
      split
      · exact h
      · exact h.begin _
  | procExecute | debugRun | connectionCommit | connectionRollback =>
    cases hstep
    exact ⟨h.begin _, reportsTrue_nil⟩
  | connectionTxState =>
    simp only [txStep] at hstep
    split at hstep
    · cases hstep
      refine ⟨h, fun result change hmem _ => ?_⟩
      cases mem_singleton.mp hmem
      rfl
    · split at hstep
      · cases hstep
        exact ⟨h.begin _, reportsTrue_nil⟩
      · cases hstep
        exact ⟨h, report_true h hok⟩
  | served i x =>
    simp only [txStep] at hstep
    split at hstep
    · cases hstep
    · rename_i r hr
      split at hstep
      · rename_i hl
        rw [Option.some.injEq] at hstep
        have := covered_serve h hr hl hok
        unfold TxWorld.answered at this
        rwa [hstep] at this
      · cases hstep

/-! ## 5. All steps -/

structure TxInv (s : TxWorld) (log : List TxEvent) : Prop where
  covered : s.Covered
  reports : ReportsTrue log

theorem TxInv.step {log new : List TxEvent} {a : TxAction} (h : TxInv s log)
    (hok : TxKept s a) (hstep : txStep s a = some (s', new)) : TxInv s' (log ++ new) := by
  obtain ⟨hc, hr⟩ := covered_step h.covered hok hstep
  refine ⟨hc, fun result change hmem hfalse => ?_⟩
  rcases mem_append.mp hmem with hmem | hmem
  · exact h.reports result change hmem hfalse
  · exact hr result change hmem hfalse

/-- **`hasOpenTx = false` is true**, in every run in which no lookup is taken for "no transaction"
    while there is a change, what is not counted leaves no first change, and no count is read before
    its record is made. -/
theorem txState_true {s : TxWorld} {log : List TxEvent} (h : TxReaches TxKept s log) :
    ReportsTrue log :=
  (Run.Reaches.invariant TxInv ⟨covered_of_no_change rfl, reportsTrue_nil⟩
    (fun _ _ _ _ _ hi hok hs => hi.step hok hs) h).reports

/-- An `UPDATE`, its commit, and what is reported after each. -/
theorem txState_true_update : ∃ s log, TxReaches TxKept s log ∧
    TxEvent.reported (txStateResult ⟨1, some "1.2.3".toList, some 5, some .dml⟩) true ∈ log ∧
    TxEvent.reported (txStateResult {}) false ∈ log ∧ ReportsTrue log := by
  have h : TxReaches TxKept _ _ := Run.Reaches.run
    [.opened, .queryExecute ["UPDATE t SET a = 1 WHERE b = 2".toList],
      .served 0 { reply := .ok, tx := .changed },
      .served 0 { reply := .txId (.row "1.2.3".toList), tx := .changed, now := 5 },
      .connectionTxState, .served 0 { reply := .txId (.row "1.2.3".toList), tx := .changed },
      .connectionCommit, .served 0 { reply := .ok }, .connectionTxState] .start rfl
  exact ⟨_, _, h, mem_cons_self .., mem_cons_of_mem _ (mem_singleton_self _),
    txState_true h⟩

/-- The lookup after an `UPDATE` fails, and the change is not reported. -/
theorem txState_false : ∃ s log, TxReaches anyTx s log ∧ ¬ ReportsTrue log := by
  have h : TxReaches anyTx _ _ := Run.Reaches.run
    [.opened, .queryExecute ["UPDATE t SET a = 1 WHERE b = 2".toList],
      .served 0 { reply := .ok, tx := .changed },
      .served 0 { reply := .txId .failed, tx := .changed },
      .connectionTxState] .start rfl
  refine ⟨_, _, h, fun htrue => ?_⟩
  have := htrue _ _ (mem_singleton_self _) rfl
  cases this

end Veesker.Sidecar
