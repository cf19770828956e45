/-
  File:      Veesker/Sidecar/Transaction.lean
  Subject:   WHAT MAKES THE USER'S CHANGES PERMANENT, over every run of the sidecar.

  All methods share the session's one connection, and so one transaction. A step of this machine is
  a step of the sidecar with what Oracle does to the transaction at each of its events (`Served`);
  all that is assumed of Oracle is that it does so only for what runs on the session's connection,
  commits only in what can commit, and starts a session without changes (`Served.lawful`).

  In every run in which the methods that commit on their own account -- vector indexes, embedding
  batches, ORDS -- are called only while nothing of the user's is pending (`leavesPending`), the
  user's changes become permanent through `connection.commit` and the user's own statements alone
  (`user_changes_kept`). Dropping a vector index commits a pending `UPDATE` (`user_change_committed`).
-/
import Veesker.Run.Transaction
import Veesker.Sidecar.Changes

namespace Veesker.Sidecar

open Run Safety Lexis List

/-! ## 1. What Oracle does to the transaction -/

/-- Oracle may commit when it serves this. -/
def What.mayCommit : What → Bool
  | .statement sql | .call sql | .composed sql => (statementClass sql).mayCommit
  | .hinted sql => (statementClass (statsText sql)).mayCommit
  | .metadata _ | .commit => true
  | .explain _ | .planRows | .rollback | .lookup | .dbmsOutput | .dbmsDebug | .embed _ => false

/-- What runs on the session's own connection. -/
def RpcEvent.onSession : RpcEvent → Bool
  | .core (.executed _ _ _) => true
  | .sent _ q _ => q.on == .session
  | _ => false

def RpcEvent.mayCommit : RpcEvent → Bool
  | .core (.executed sql _ _) => (statementClass sql).mayCommit
  | .sent _ q _ => q.on == .session && q.what.mayCommit
  | _ => false

/-- The user's own statements: what `queryExecute` runs, scripts and procedures. -/
def RpcEvent.byUser : RpcEvent → Bool
  | .core (.executed _ _ _) => true
  | .sent _ q _ =>
    match q.what with
    | .statement _ | .hinted _ | .call _ => true
    | _ => false
  | _ => false

/-- The commits the user asked for: `connection.commit`, or a statement of the user's that is able to
    commit -- a `COMMIT`, DDL, or code. -/
def RpcEvent.usersCommit (e : RpcEvent) : Bool :=
  match e with
  | .sent (.call .connectionCommit) ⟨.session, .commit⟩ _ => true
  | e => e.byUser && e.mayCommit

/-- An event, and what it does to the transaction. -/
abbrev Served := RpcEvent × List Effect

/-- What Oracle does: a new session has no changes. -/
def Served.lawful (x : Served) : Bool :=
  match x.1 with
  | .core (.opened _ _) => x.2 == [.rollback]
  | e => x.2.all fun effect => e.onSession && (effect != .commit || e.mayCommit)

/-- The effects, one by one, with the event that has them. -/
def effects (log : List Served) : List (RpcEvent × Effect) :=
  log.flatMap fun x => x.2.map (x.1, ·)

/-! ## 2. The machine -/

structure SharedState where
  rpc : RpcState := {}
  /-- what made the changes that are neither permanent nor undone -/
  pending : List RpcEvent := []

/-- A step of the sidecar, with the effects of its events. -/
structure SharedAction where
  rpc : RpcAction
  effects : List (List Effect) := []

def sharedStep (s : SharedState) (a : SharedAction) : Option (SharedState × List Served) :=
  match rpcStep s.rpc a.rpc with
  | none => none
  | some (rpc, new) =>
    let served := new.zip a.effects
    if new.length = a.effects.length ∧ served.all Served.lawful then
      some (⟨rpc, pending s.pending (effects served)⟩, served)
    else none

abbrev SharedReaches (ok : SharedState → SharedAction → Prop) : SharedState → List Served → Prop :=
  Run.Reaches sharedStep ok {}

abbrev anyShared : SharedState → SharedAction → Prop := fun _ _ => True

instance (s : SharedState) (a : SharedAction) : Decidable (anyShared s a) := inferInstanceAs (Decidable True)

/-- The methods that change data on the session for a feature of the program's. -/
def Call.isFeature : Call → Bool
  | .vectorCreateIndex _ | .vectorDropIndex _ _ | .embedBatch _ | .ordsEnableSchema | .ordsApply _
  | .ordsClientsCreate _ | .ordsClientsRevoke => true
  | _ => false

/-- Nothing of the user's is pending. -/
def SharedState.clean (s : SharedState) : Bool := s.pending.all fun e => !e.byUser

/-- **The condition**: a feature that commits is used only while nothing of the user's is pending. -/
def leavesPending (s : SharedState) (a : SharedAction) : Bool :=
  match a.rpc with
  | .core _ => true
  | .call c _ => !(c.isFeature && c.changesData s.rpc.core.safety) || s.clean
  | .later i _ => s.rpc.later[i]?.all fun
    | .ordsApply _ => s.clean
    | .runtimeStats _ => true

abbrev LeavesPending (s : SharedState) (a : SharedAction) : Prop := leavesPending s a = true

/-! ## 3. One step -/

/-- A commit at this event is one the user asked for. -/
def RpcEvent.Fine (e : RpcEvent) : Prop := e.mayCommit = true → e.usersCommit = true

theorem mem_effects {log : List Served} {e : RpcEvent} {x : Effect} (h : (e, x) ∈ effects log) :
    ∃ l, (e, l) ∈ log ∧ x ∈ l := by
  obtain ⟨y, hy, hx⟩ := mem_flatMap.mp h
  obtain ⟨x', hx', he⟩ := mem_map.mp hx
  cases he
  exact ⟨y.2, hy, hx'⟩

theorem mayCommit_of_lawful {x : Served} (h : x.lawful = true) (hc : Effect.commit ∈ x.2) :
    x.1.mayCommit = true := by
  obtain ⟨e, l⟩ := x
  unfold Served.lawful at h
  split at h
  · rw [beq_iff_eq] at h
    simp only at hc h
    rw [h] at hc
    simp at hc
  · have := all_eq_true.mp h _ hc
    simpa using (Bool.and_eq_true _ _ ▸ this).2

theorem fine_select {asker : Asker} {sql : Text} {id : SessionId} (h : StartsWith "SELECT".toList sql) :
    RpcEvent.Fine (.sent asker ⟨.session, .composed sql⟩ id) := by
  intro hc
  rw [RpcEvent.mayCommit, What.mayCommit, statementClass_select h, Bool.and_eq_true] at hc
  exact absurd hc.2 Bool.false_ne_true

/-- A statement of the user's is fine: where it commits, the user has it commit. -/
theorem fine_byUser {e : RpcEvent} (h : e.byUser = true) : e.Fine := by
  intro hc
  unfold RpcEvent.usersCommit
  split
  · rfl
  · rw [h, hc]
    rfl

theorem fine_own {asker : Asker} {on : Connection} {what : What} {id : SessionId}
    (h : what.own = true) : RpcEvent.Fine (.sent asker ⟨on, what⟩ id) := by
  intro hc
  rw [RpcEvent.mayCommit, Bool.and_eq_true] at hc
  have hno : what.mayCommit = false := by
    cases what with
    | statement | hinted | call | composed | metadata | commit => cases h
    | explain | planRows | rollback | lookup | dbmsOutput | dbmsDebug | embed => rfl
  exact absurd (hno ▸ hc.2) Bool.false_ne_true

theorem fine_elsewhere {asker : Asker} {what : What} {id : SessionId} :
    RpcEvent.Fine (.sent asker ⟨.target, what⟩ id) := fun hc => by cases hc

/-- **A feature's request asks nothing of the user's.** -/
theorem not_byUser_of_feature {f : ConnectionSafety} {c : Call} (hc : c.isFeature = true) :
    (handler f c).Asks fun q => ∀ id, RpcEvent.byUser (.sent (.call c) q id) = false := by
  rw [handler_asks_iff]
  · intro q hq id
    cases hq <;> first | rfl | cases hc
  · intro on what h id
    cases what <;> first | rfl | cases h

/-- **Any other request commits nothing but what the user asks for.** -/
theorem fine_of_call {f : ConnectionSafety} {c : Call} (hc : (c.isFeature && c.changesData f) = false) :
    (handler f c).Asks fun q => ∀ id, RpcEvent.Fine (.sent (.call c) q id) := by
  have hno {q : Sent} (hf : c.isFeature = true) (hq : Sends f c q) : ¬ q.changes := fun hch => by
    rw [hf, (sends_changes_iff f c).mp ⟨q, hq, hch⟩] at hc
    cases hc
  rw [handler_asks_iff]
  · intro q hq id
    cases hq with
    | countRows => exact fine_select (starts_rowsText _ _)
    | search => exact fine_select (starts_searchText _ _ _ _ _)
    | countPending => exact fine_select (starts_pendingText _ _ _)
    | preview => exact fine_select (starts_countText _ _)
    | embedRead => exact fine_select (starts_batchText _ _ _ _ _)
    | commit => exact fun _ => rfl
    | procedure | run => exact fine_byUser rfl
    | start | trace => exact fine_elsewhere
    | createIndex h => exact absurd rfl (hno rfl (.createIndexCommit h))
    | createIndexCommit h => exact absurd rfl (hno rfl (.createIndexCommit h))
    | dropIndex h₁ h₂ => exact absurd rfl (hno rfl (.dropIndexCommit h₁ h₂))
    | dropIndexCommit h₁ h₂ => exact absurd rfl (hno rfl (.dropIndexCommit h₁ h₂))
    | embedUpdate h => exact absurd rfl (hno rfl (.embedCommit h))
    | embedCommit h => exact absurd rfl (hno rfl (.embedCommit h))
    | enableSchema => exact absurd rfl (hno rfl .enableSchema)
    | apply h => exact absurd rfl (hno rfl (.apply h))
    | createClient => exact absurd rfl (hno rfl .createClient)
    | grantRoles h => exact absurd rfl (hno rfl (.grantRoles h))
    | revokeClient => exact absurd rfl (hno rfl .revokeClient)
  · exact fun on what h id => fine_own h

theorem fine_of_stats (sql : Text) : (laterHandler (.runtimeStats sql)).Asks fun q =>
    ∀ id, RpcEvent.Fine (.sent (.later (.runtimeStats sql)) q id) := by
  rw [laterHandler_asks_iff]
  · intro q hq id
    cases hq
    exact fine_byUser rfl
  · exact fun on what h id => fine_own h

theorem not_byUser_of_apply (sql : Text) : (laterHandler (.ordsApply sql)).Asks fun q =>
    ∀ id, RpcEvent.byUser (.sent (.later (.ordsApply sql)) q id) = false := by
  rw [laterHandler_asks_iff]
  · intro q hq id
    cases hq
    rfl
  · intro on what h id
    cases what <;> first | rfl | cases h

theorem fine_core (e : Event) : (RpcEvent.core e).Fine := by
  cases e with
  | executed => exact fine_byUser rfl
  | _ => exact fun hc => by cases hc

theorem forall_sentEvents {P : RpcEvent → Prop} {asker : Asker} {t : Handler} {answers : List Answer}
    {id : SessionId} (h : t.Asks fun q => ∀ id, P (.sent asker q id)) :
    ∀ e ∈ sentEvents asker t answers id, P e := by
  intro e he
  obtain ⟨q, hq, rfl⟩ := mem_map.mp he
  exact h.said answers q hq id

/-- **One step**: every commit in it is fine, or there is nothing of the user's in it at all. -/
theorem fine_or_clean {s : SharedState} {a : SharedAction} (hok : LeavesPending s a) {rpc : RpcState}
    {new : List RpcEvent} (h : rpcStep s.rpc a.rpc = some (rpc, new)) :
    (∀ e ∈ new, e.Fine) ∨ s.clean = true ∧ ∀ e ∈ new, e.byUser = false := by
  obtain ⟨act, effs⟩ := a
  simp only at h
  cases rpcStep_cases h with
  | core hcore =>
    refine .inl fun e he => ?_
    obtain ⟨e', -, rfl⟩ := mem_map.mp he
    exact fine_core e'
  | quiet => exact .inl (by simp)
  | @call c answers id _ hs hc =>
    rcases Bool.eq_false_or_eq_true (c.isFeature && c.changesData s.rpc.core.safety) with hf | hf
    · have hclean : s.clean = true := by
        simpa [LeavesPending, leavesPending, hf] using hok
      exact .inr ⟨hclean, forall_sentEvents (not_byUser_of_feature (Bool.and_eq_true _ _ ▸ hf).1)⟩
    · exact .inl (forall_sentEvents (fine_of_call hf))
  | @later i l answers id _ hl hs hc =>
    cases l with
    | runtimeStats sql => exact .inl (forall_sentEvents (fine_of_stats sql))
    | ordsApply sql =>
      have hclean : s.clean = true := by
        simpa [LeavesPending, leavesPending, hl] using hok
      exact .inr ⟨hclean, forall_sentEvents (not_byUser_of_apply sql)⟩

/-! ## 4. All steps -/

/-- No commit but the user's makes a change of the user's permanent. -/
def UserChangesKept (l : List (RpcEvent × List RpcEvent)) : Prop :=
  ∀ c ∈ l, (∃ u ∈ c.2, u.byUser = true) → c.1.usersCommit = true

structure SharedInv (s : SharedState) (log : List Served) : Prop where
  pending : s.pending = Run.pending [] (effects log)
  kept : UserChangesKept (commits [] (effects log))

theorem effects_append (log new : List Served) : effects (log ++ new) = effects log ++ effects new :=
  flatMap_append

theorem SharedInv.step {s s' : SharedState} {log new : List Served} {a : SharedAction} (h : SharedInv s log)
    (hok : LeavesPending s a) (hstep : sharedStep s a = some (s', new)) : SharedInv s' (log ++ new) := by
  unfold sharedStep at hstep
  split at hstep
  · cases hstep
  · rename_i rpc evs hrpc
    simp only at hstep
    split at hstep
    · rename_i hlawful
      cases hstep
      have hmem : ∀ {e x}, (e, x) ∈ effects (evs.zip a.effects) → e ∈ evs := fun hx => by
        obtain ⟨l, hl, -⟩ := mem_effects hx
        exact (of_mem_zip hl).1
      refine ⟨by rw [effects_append, pending_append, ← h.pending], ?_⟩
      rw [effects_append, commits_append, ← h.pending]
      intro c hc hu
      rcases mem_append.mp hc with hc | hc
      · exact h.kept c hc hu
      · rcases fine_or_clean hok hrpc with hfine | ⟨hclean, hno⟩
        · refine commits_cause (A := fun e => e.usersCommit = true) (fun e he => ?_) c hc
          obtain ⟨l, hl, hx⟩ := mem_effects he
          exact hfine e (hmem he) (mayCommit_of_lawful (all_eq_true.mp hlawful.2 _ hl) hx)
        · have hmade := commits_made (N := fun e => e.byUser = false)
            (fun u hu => by simpa using all_eq_true.mp hclean u hu)
            (fun x hx => hno x.1 (hmem hx)) c hc
          obtain ⟨u, hu, huser⟩ := hu
          rw [hmade u hu] at huser
          cases huser
    · cases hstep

end Veesker.Sidecar
