/-
  File:      Veesker/Sidecar/ReadOnly.lean
  Subject:   WHAT A READ-ONLY SESSION IS SPARED, over every run of the sidecar.

  Only `queryExecute` asks the read-only rule. Every run whose steps keep off the methods and
  statements that slip past it (`keepsReadOnly`) changes nothing on a read-only session
  (`readOnly_kept`); the procedures, the debugger, the tracer, the vector indexes, the embeddings,
  ORDS and `connection.commit` change data on one (`readOnly_broken`).
-/
import Veesker.Sidecar.Changes

namespace Veesker.Sidecar

open Safety Lexis Run List

/-! ## 1. The condition -/

/-- On a read-only session: every statement of a `queryExecute` is one the rule judges right. A
    batch goes on only on the session it passed the gate on. -/
def coreKeepsReadOnly (s : State) : Action → Bool
  | .queryExecute _ _ _ statements _ => !s.safety.readOnly || statements.all fun x => !slipsThrough x.1
  | .statementDone _ => !s.safety.readOnly || s.running.all fun b => b.session = s.session
  | _ => true

/-- On a read-only session no request, and nothing left over from one, can change data. -/
def keepsReadOnly (s : RpcState) : RpcAction → Bool
  | .core a => coreKeepsReadOnly s.core a
  | .call c _ => !s.core.safety.readOnly || !c.changesData s.core.safety
  | .later i _ => !s.core.safety.readOnly || s.later[i]?.all fun l => !l.changesData

abbrev KeepsReadOnly (s : RpcState) (a : RpcAction) : Prop := keepsReadOnly s a = true

/-- An event that changes data on a session's account: on its own connection, or on one of the
    debugger's, which are opened with the session's parameters. -/
def RpcEvent.ChangesOn (id : SessionId) : RpcEvent → Prop
  | .core (.executed sql _ id') => id' = id ∧ (statementClass sql).changes = true
  | .sent _ q id' => id' = id ∧ q.changes
  | _ => False

/-! ## 2. The rule, over a batch -/

/-- What a batch is let through on a read-only session passes the rule. -/
theorem gateBatch_readOnly {f : ConnectionSafety} (hro : f.readOnly = true) (opts : GateOptions)
    (w : Windows) (statements : List (Text × Time)) :
    ∀ x ∈ (gateBatch f opts w statements).1, isReadOnlySafe (classifySql x.1) x.1 = true := by
  induction statements generalizing w with
  | nil => simp [gateBatch]
  | cons x rest ih =>
    unfold gateBatch
    split
    · rename_i l w' hg
      intro y hy
      rcases mem_cons.mp hy with rfl | hy
      · by_contra hno
        rw [enforceSafetyForStatement, if_pos ⟨hro, by simpa using hno⟩] at hg
        cases hg
      · exact ih w' y hy
    · simp

/-! ## 3. What passes and what runs -/

/-- Nothing that passed on a read-only session changes data, and nothing that ran on one. -/
structure ReadOnlyInv (s : State) (log : List Event) : Prop where
  passed : ∀ sql t f id, .passed sql t f (some id) ∈ log →
    .opened id f ∈ log ∧ (f.readOnly = true → (statementClass sql).changes = false)
  batch : ∀ b ∈ s.running, ∀ id, b.session = some id →
    ∀ sql ∈ b.rest, ∃ t f, .passed sql t f (some id) ∈ log
  executed : ∀ sql t id, .executed sql t id ∈ log →
    ∃ f, .opened id f ∈ log ∧ (f.readOnly = true → (statementClass sql).changes = false)

/-- What passes in one step: the rule let it through, and it is none of the two kinds it misjudges. -/
theorem passed_changes {s s' : State} {log new : List Event} {a : Action} (hses : SessionInv s log)
    (hok : coreKeepsReadOnly s a = true) (hstep : step s a = some (s', new)) {sql : Text} {t : Time}
    {f : ConnectionSafety} {id : SessionId} (hp : Event.passed sql t f (some id) ∈ new) :
    .opened id f ∈ log ∧ (f.readOnly = true → (statementClass sql).changes = false) := by
  obtain ⟨_, ackUnsafe, ackTable, statements, _, rfl, rfl, hid, hmem⟩ := passed_of_step hstep hp
  refine ⟨hses.known id hid.symm, fun hro => ?_⟩
  have hslip : slipsThrough sql = false := by
    rw [coreKeepsReadOnly, hro, Bool.not_true, Bool.false_or, all_eq_true] at hok
    have hpre := gateBatch_prefix s.safety (queryOptions ackUnsafe ackTable) s.windows statements
    simpa using hok (sql, t) (hpre.subset hmem)
  exact readOnlySafe_changes (gateBatch_readOnly hro _ _ _ (sql, t) hmem) hslip

theorem ReadOnlyInv.step {s s' : State} {log new : List Event} {a : Action} (h : ReadOnlyInv s log)
    (hses : SessionInv s log) (hok : coreKeepsReadOnly s a = true)
    (hstep : Sidecar.step s a = some (s', new)) : ReadOnlyInv s' (log ++ new) := by
  have hpassed : ∀ sql t f id, .passed sql t f (some id) ∈ log ++ new →
      .opened id f ∈ log ++ new ∧ (f.readOnly = true → (statementClass sql).changes = false) := by
    intro sql t f id hmem
    have : .opened id f ∈ log ∧ (f.readOnly = true → (statementClass sql).changes = false) :=
      (mem_append.mp hmem).elim (h.passed sql t f id) (passed_changes hses hok hstep)
    exact ⟨mem_append_left _ this.1, this.2⟩
  have hbatch : ∀ b ∈ s.running, ∀ id, b.session = some id →
      ∀ sql ∈ b.rest, ∃ t f, .passed sql t f (some id) ∈ log ++ new := by
    intro b hb id hid sql hsql
    obtain ⟨t, f, hmem⟩ := h.batch b hb id hid sql hsql
    exact ⟨t, f, mem_append_left _ hmem⟩
  -- what ran before, and what runs now
  have hexecuted (hnew : ∀ sql t id, .executed sql t id ∈ new →
      ∃ f, .opened id f ∈ log ∧ (f.readOnly = true → (statementClass sql).changes = false)) :
      ∀ sql t id, .executed sql t id ∈ log ++ new →
        ∃ f, .opened id f ∈ log ++ new ∧
          (f.readOnly = true → (statementClass sql).changes = false) := by
    intro sql t id hmem
    obtain ⟨f, hf, hc⟩ := (mem_append.mp hmem).elim (h.executed sql t id) (hnew sql t id)
    exact ⟨f, mem_append_left _ hf, hc⟩
  cases runStep_of_step hstep with
  | keeps hr hn =>
    refine ⟨hpassed, fun b hb => ?_, hexecuted fun sql t id hmem => absurd hmem (hn sql t id)⟩
    rcases hr with hr | hr
    · exact hbatch b (hr ▸ hb)
    · rw [hr] at hb
      cases hb
  | @starts _ _ id sql t rest now hs hr =>
    have hall : ∀ x ∈ (sql, t) :: rest, .passed x.1 x.2 s.safety (some id) ∈
        passedEvents s.safety (some id) ((sql, t) :: rest) ++ [.executed sql now id] := fun x hx =>
      mem_append_left _ (mem_map.mpr ⟨x, hx, rfl⟩)
    refine ⟨hpassed, fun b hb id' hid sql' hsql => ?_, hexecuted fun sql' t' id' hmem => ?_⟩
    · rw [hr] at hb
      cases hb
      cases hid
      obtain ⟨x, hx, rfl⟩ := mem_map.mp hsql
      exact ⟨x.2, s.safety, mem_append_right _ (hall x (mem_cons_of_mem _ hx))⟩
    · rcases mem_append.mp hmem with hmem | hmem
      · exact absurd hmem (executed_not_mem_passedEvents _ _ _ _ _ _)
      · cases mem_singleton.mp hmem
        exact ⟨s.safety, passed_changes hses hok hstep (hall (sql, t) mem_cons_self)⟩
  | @goesOn _ origin id sql rest now hb hs hr =>
    refine ⟨hpassed, fun b hb' id' hid sql' hsql => ?_, hexecuted fun sql' t' id' hmem => ?_⟩
    · rw [hr] at hb'
      cases hb'
      exact hbatch _ hb id' hid sql' (mem_cons_of_mem _ hsql)
    · cases mem_singleton.mp hmem
      refine ⟨s.safety, hses.known id hs, fun hro => ?_⟩
      have horigin : origin = some id := by
        rw [coreKeepsReadOnly, hro, hb, hs] at hok
        simpa using hok
      obtain ⟨t, f, hp⟩ := h.batch _ hb id horigin sql mem_cons_self
      obtain ⟨hf, hc⟩ := h.passed sql t f id hp
      exact hc (by rw [hses.unique id f s.safety hf (hses.known id hs)]; exact hro)

/-! ## 4. The invariant of all methods -/

/-- The events of the sessions, windows and queries. -/
def coreLog (log : List RpcEvent) : List Event :=
  log.filterMap fun
    | .core e => some e
    | .sent _ _ _ => none

theorem mem_coreLog {log : List RpcEvent} {e : Event} : e ∈ coreLog log ↔ .core e ∈ log := by
  unfold coreLog
  rw [mem_filterMap]
  constructor
  · rintro ⟨x, hx, he⟩
    cases x with
    | core e' =>
      cases he
      exact hx
    | sent asker q id => cases he
  · exact fun h => ⟨_, h, rfl⟩

theorem coreLog_append (log new : List RpcEvent) :
    coreLog (log ++ new) = coreLog log ++ coreLog new := filterMap_append

theorem coreLog_core (new : List Event) : coreLog (new.map .core) = new := by
  induction new with
  | nil => rfl
  | cons e new ih =>
    rw [map_cons]
    exact congrArg (e :: ·) ih

theorem coreLog_sent (asker : Asker) (t : Handler) (answers : List Answer) (id : SessionId) :
    coreLog (sentEvents asker t answers id) = [] := by
  unfold coreLog sentEvents
  rw [filterMap_eq_nil_iff]
  intro e he
  obtain ⟨q, -, rfl⟩ := mem_map.mp he
  rfl

structure RpcInv (s : RpcState) (log : List RpcEvent) : Prop where
  session : SessionInv s.core (coreLog log)
  readOnly : ReadOnlyInv s.core (coreLog log)
  /-- what was sent on a read-only session changes nothing -/
  sent : ∀ asker q id, .sent asker q id ∈ log →
    ∃ f, .opened id f ∈ coreLog log ∧ (f.readOnly = true → ¬ q.changes)

/-- A handler that changes nothing on a read-only session adds nothing that does. -/
theorem RpcInv.asks {s s' : RpcState} {log : List RpcEvent} (h : RpcInv s log) {asker : Asker} {t : Handler}
    {answers : List Answer} {id : SessionId} (hs : s.core.session = some id)
    (hc : s'.core = s.core) (ht : s.core.safety.readOnly = true → t.Asks Harmless) :
    RpcInv s' (log ++ sentEvents asker t answers id) := by
  have hlog : coreLog (log ++ sentEvents asker t answers id) = coreLog log := by
    rw [coreLog_append, coreLog_sent, append_nil]
  refine ⟨by rw [hlog, hc]; exact h.session, by rw [hlog, hc]; exact h.readOnly, fun asker' q id' hq => ?_⟩
  rw [hlog]
  rcases mem_append.mp hq with hq | hq
  · exact h.sent asker' q id' hq
  · obtain ⟨q', hq', he⟩ := mem_map.mp hq
    cases he
    exact ⟨s.core.safety, h.session.known id hs, fun hro => (ht hro).said answers q hq'⟩

theorem RpcInv.step {s s' : RpcState} {log new : List RpcEvent} {a : RpcAction} (h : RpcInv s log)
    (hok : KeepsReadOnly s a) (hstep : rpcStep s a = some (s', new)) : RpcInv s' (log ++ new) := by
  cases rpcStep_cases hstep with
  | core hcore =>
    refine ⟨?_, ?_, fun asker q id hq => ?_⟩
    · rw [coreLog_append, coreLog_core]
      exact h.session.step hcore
    · rw [coreLog_append, coreLog_core]
      exact h.readOnly.step h.session hok hcore
    · rcases mem_append.mp hq with hq | hq
      · obtain ⟨f, hf, hc⟩ := h.sent asker q id hq
        exact ⟨f, by rw [coreLog_append]; exact mem_append_left _ hf, hc⟩
      · obtain ⟨e, -, he⟩ := mem_map.mp hq
        cases he
  | quiet hc =>
    rw [append_nil]
    exact ⟨hc ▸ h.session, hc ▸ h.readOnly, h.sent⟩
  | call hs hc =>
    refine h.asks hs hc fun hro => handler_harmless ?_
    rw [KeepsReadOnly, keepsReadOnly, hro] at hok
    simpa using hok
  | later hl hs hc =>
    refine h.asks hs hc fun hro => laterHandler_harmless ?_
    rw [KeepsReadOnly, keepsReadOnly, hro, hl] at hok
    simpa using hok

theorem rpcInv_of_reaches {s : RpcState} {log : List RpcEvent} (h : RpcReaches KeepsReadOnly s log) :
    RpcInv s log :=
  Run.Reaches.invariant RpcInv
    ⟨sessionInv_init, ⟨by simp [coreLog], by simp, by simp [coreLog]⟩, by simp⟩
    (fun _ _ _ _ _ hi hok hs => hi.step hok hs) h

/-! ## 5. The results -/

/-- **A read-only session is kept**: in every run that keeps to the condition, nothing that changes
    data happens on a session that was opened read-only. -/
theorem readOnly_kept {s : RpcState} {log : List RpcEvent} (h : RpcReaches KeepsReadOnly s log)
    {id : SessionId} {f : ConnectionSafety} (hopened : .core (.opened id f) ∈ log)
    (hro : f.readOnly = true) {e : RpcEvent} (he : e ∈ log) : ¬ e.ChangesOn id := by
  have hinv := rpcInv_of_reaches h
  have hsame (g : ConnectionSafety) (hg : .opened id g ∈ coreLog log) : g.readOnly = true := by
    rw [hinv.session.unique id g f hg (mem_coreLog.mpr hopened)]
    exact hro
  intro hc
  cases e with
  | core e =>
    cases e with
    | executed sql t id' =>
      obtain ⟨rfl, hch⟩ := hc
      obtain ⟨g, hg, hno⟩ := hinv.readOnly.executed sql t id' (mem_coreLog.mpr he)
      rw [hno (hsame g hg)] at hch
      cases hch
    | _ => cases hc
  | sent asker q id' =>
    obtain ⟨rfl, hch⟩ := hc
    obtain ⟨g, hg, hno⟩ := hinv.sent asker q id' he
    exact hno (hsame g hg) hch

/-- A session for reading: a query and a dictionary request. -/
theorem readOnly_kept_query :
    ¬ RpcEvent.ChangesOn 0 (.core (.executed "SELECT * FROM t".toList 1 0)) := by
  have h : RpcReaches KeepsReadOnly _ [.core .cleared, .core (.opened 0 { readOnly := true }),
      .core (.passed "SELECT * FROM t".toList 0 { readOnly := true } (some 0)),
      .core (.executed "SELECT * FROM t".toList 1 0), .sent (.call (.lookups 1)) ⟨.session, .lookup⟩ 0] :=
    Run.Reaches.run [.core (.openSession { readOnly := true }), .core .connected,
      .core (.queryExecute none false [] [("SELECT * FROM t".toList, 0)] 1),
      .call (.lookups 1) []] .start rfl
  exact readOnly_kept h (f := { readOnly := true }) (by simp) rfl (by simp)

/-- A request to run the procedure `HR.RAISE_PAY`. -/
def raisePay : Call := .procExecute "HR".toList "RAISE_PAY".toList

/-- `proc.execute` asks no rule: on a read-only session the procedure is run. -/
theorem readOnly_broken :
    ∃ s sql, RpcReaches anyRpc s [.core .cleared, .core (.opened 0 { readOnly := true }),
        .sent (.call raisePay) ⟨.session, .lookup⟩ 0, .sent (.call raisePay) ⟨.session, .dbmsOutput⟩ 0,
        .sent (.call raisePay) ⟨.session, .call sql⟩ 0] ∧
      RpcEvent.ChangesOn 0 (.sent (.call raisePay) ⟨.session, .call sql⟩ 0) :=
  ⟨_, procBlock "\"HR\"".toList "\"RAISE_PAY\"".toList [],
    Run.Reaches.run [.core (.openSession { readOnly := true }), .core .connected,
      .call raisePay [.ok [], .ok []]] .start rfl,
    rfl, changes_call (starts_procBlock _ _ _)⟩

end Veesker.Sidecar
