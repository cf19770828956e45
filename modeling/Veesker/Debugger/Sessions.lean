/-
  File:      Veesker/Debugger/Sessions.lean
  Subject:   AFTER A STOP (src/lib/stores/debug.svelte.ts), over every interleaving of actions and
             replies.

  Only `startDebug` looks whether the user has stopped meanwhile, and it cannot tell a later session
  from its own. The other actions write what they are answered.

  * `World.Wrong` -- something is shown after a stop, or a reply of an earlier session can change
    what is shown;
  * `Condition` -- on the world before an event;
  * **`stop_holds_iff`** -- under it no run goes wrong, and an event outside of it can be followed
    by replies that make it.
-/
import Veesker.Debugger.Store
import Veesker.Run.Flight

namespace Veesker.Debugger

open Run List

/-! ## 1. What is right -/

/-- Nothing is shown of a session. -/
structure Store.Quiet (s : Store) : Prop where
  status : s.status = .idle
  currentFrame : s.currentFrame = none
  callStack : s.callStack = []
  liveVars : s.liveVars = []
  localVars : s.localVars = []

section

variable (identifiers : Text → List Text)

def World.Wrong (w : World) : Prop :=
  (w.stopped = true ∧ ¬ w.store.Quiet) ∨
    ∃ i c reply w', w.calls[i]? = some c ∧ c.session ≠ w.session ∧
      step identifiers w (.reply i reply) = some w' ∧ w'.store ≠ w.store

/-- What writes nothing of a session into a store that is idle. -/
def Wait.isHarmless : Wait → Bool
  | .start _ | .source _ | .stop _ => true
  | _ => false

/-- A session is begun when nothing is awaited, no step is made after a stop, and a stop of the
user's completes when only starts, sources and other stops are awaited. -/
def Condition (w : World) : Event → Prop
  | .run | .startDebug => w.calls = []
  | .step _ => w.stopped = false
  | .stop => True
  | .reply i _ => ∀ c, w.calls[i]? = some c → c.wait.isStop = true →
      c.wait ≠ .stop true ∧ ∀ d ∈ w.calls, d.wait.isHarmless = true

instance (w : World) : (e : Event) → Decidable (Condition w e)
  | .run | .startDebug => inferInstanceAs (Decidable (w.calls = []))
  | .step _ => inferInstanceAs (Decidable (w.stopped = false))
  | .stop => .isTrue trivial
  | .reply i _ => inferInstanceAs (Decidable (∀ c ∈ w.calls[i]?, c.wait.isStop = true →
      c.wait ≠ .stop true ∧ ∀ d ∈ w.calls, d.wait.isHarmless = true))

abbrev Reached (allowed : World → Event → Prop) (init : World) : World → Prop :=
  Runs (fun w e w' => step identifiers w e = some w') allowed init

/-- A reply comes in, under the condition. -/
def RepliesOnly (w : World) (e : Event) : Prop :=
  (∃ i reply, e = .reply i reply) ∧ Condition w e

end

variable {identifiers : Text → List Text} {w w' : World} {s : Store}

/-! ## 2. What a reply does -/

theorem quiet_stopped (s : Store) : s.stopped.Quiet := ⟨rfl, rfl, rfl, rfl, rfl⟩

/-- In a quiet store there is no local variable to be looked up. -/
theorem quiet_refreshLocalVars (hs : s.Quiet) :
    (s.refreshLocalVars identifiers).1.Quiet ∧ (s.refreshLocalVars identifiers).2 = none := by
  rw [Store.refreshLocalVars, if_pos (by rw [hs.status]; decide)]
  exact ⟨⟨hs.status, hs.currentFrame, hs.callStack, hs.liveVars, rfl⟩, rfl⟩

/-- A stop that completes leaves the store quiet. -/
theorem resume_stop {reply : Reply} {next : Goes}
    (h : resume identifiers s (.stop false) reply = some next) : next.1.Quiet ∧ next.2 = none := by
  cases reply with
  | failed | stopped =>
    cases h
    exact ⟨quiet_stopped s, rfl⟩
  | ran | paused | values | frames | source => cases h

variable {wait : Wait}

theorem eq_stop (h : wait.isStop = true) : ∃ byRun, wait = .stop byRun := by
  cases wait with
  | stop byRun => exact ⟨byRun, rfl⟩
  | run | start | step | values | stack | source | locals => cases h

theorem harmless_of_isStop (h : wait.isStop = true) : wait.isHarmless = true := by
  obtain ⟨_, rfl⟩ := eq_stop h
  rfl

/-- A stop that `run` has not called. -/
theorem eq_stop_false (h : wait.isStop = true) (hne : wait ≠ .stop true) :
    wait = .stop false := by
  obtain ⟨byRun, rfl⟩ := eq_stop h
  cases byRun with
  | false => rfl
  | true => exact absurd rfl hne

/-- A harmless reply leaves the store quiet, and its action ends. -/
theorem resume_harmless (hs : s.Quiet) (hw : wait.isHarmless = true)
    (hstop : wait ≠ .stop true) {reply : Reply} {next : Goes}
    (h : resume identifiers s wait reply = some next) : next.1.Quiet ∧ next.2 = none := by
  cases wait with
  | run | step | values | stack | locals => cases hw
  | start payload =>
    cases reply with
    | failed | paused =>
      rw [resume, if_pos hs.status] at h
      cases h
      exact ⟨hs, rfl⟩
    | ran | values | frames | source | stopped => cases h
  | source f =>
    cases reply with
    | failed error =>
      cases h
      exact quiet_refreshLocalVars hs
    | source lines =>
      cases h
      exact quiet_refreshLocalVars ⟨hs.status, hs.currentFrame, hs.callStack, hs.liveVars,
        hs.localVars⟩
    | ran | paused | values | frames | stopped => cases h
  | stop byRun =>
    rw [eq_stop_false rfl hstop] at h
    exact resume_stop h

theorem refreshLocalVars_keeps (identifiers : Text → List Text) (s : Store) :
    (s.refreshLocalVars identifiers).1.callStack = s.callStack ∧
      (s.refreshLocalVars identifiers).1.editorSource = s.editorSource := by
  simp only [Store.refreshLocalVars]
  split
  · exact ⟨rfl, rfl⟩
  · split
    · exact ⟨rfl, rfl⟩
    · exact ⟨rfl, rfl⟩

theorem openSource_callStack (identifiers : Text → List Text) (s : Store)
    (frame : Option StackFrame) : (s.openSource identifiers frame).1.callStack = s.callStack := by
  cases frame with
  | none => exact (refreshLocalVars_keeps identifiers s).1
  | some f =>
    simp only [Store.openSource]
    split
    · rfl
    · exact (refreshLocalVars_keeps identifiers s).1

/-- Any other action can show something in a quiet store. -/
theorem wakes (identifiers : Text → List Text) (s : Store)
    (hw : wait.isHarmless = false) :
    ∃ reply next, resume identifiers s wait reply = some next ∧ ¬ next.1.Quiet := by
  cases wait with
  | start | source | stop => cases hw
  | run payload =>
    refine ⟨.ran {}, _, rfl, fun h => ?_⟩
    cases h.status
  | step kind =>
    refine ⟨.paused { status := .paused }, _, rfl, fun h => ?_⟩
    cases h.status
  | values varNames frame =>
    refine ⟨.values [⟨[], none⟩], _, rfl, fun h => ?_⟩
    cases h.liveVars
  | stack frame =>
    refine ⟨.frames [⟨[], [], [], 0⟩], _, rfl, fun h => ?_⟩
    have hstack := h.callStack
    rw [openSource_callStack] at hstack
    cases hstack
  | locals varNames =>
    refine ⟨.values [⟨[], some []⟩], _, rfl, fun h => ?_⟩
    cases h.localVars

/-- Every action can change a store that runs. -/
theorem changes (identifiers : Text → List Text) (hs : s.status = .running)
    (he : s.errorMessage = none) (wait : Wait) :
    ∃ reply next, resume identifiers s wait reply = some next ∧ next.1 ≠ s := by
  have hstatus : ∀ (t : Store) (st : DebugStatus), t.status = st → st ≠ .running → t ≠ s := by
    rintro t st ht hne rfl
    exact hne (ht.symm.trans hs)
  cases wait with
  | run payload => exact ⟨.ran {}, _, rfl, hstatus _ .completed rfl (by decide)⟩
  | start payload =>
    have hidle : ¬ s.status = .idle := by
      rw [hs]
      decide
    exact ⟨.failed ⟨0, []⟩, _, by rw [resume, if_neg hidle], hstatus _ .error rfl (by decide)⟩
  | step kind =>
    refine ⟨.failed ⟨0, []⟩, _, rfl, fun h => ?_⟩
    have hmessage := congrArg Store.errorMessage h
    rw [he] at hmessage
    cases hmessage
  | values varNames frame =>
    refine ⟨.values (List.replicate (s.liveVars.length + 1) ⟨[], none⟩), _, rfl, fun h => ?_⟩
    have hlength := congrArg (fun t : Store => t.liveVars.length) h
    simp at hlength
  | stack frame =>
    refine ⟨.frames (List.replicate (s.callStack.length + 1) ⟨[], [], [], 0⟩), _, rfl, fun h => ?_⟩
    have hlength := congrArg (fun t : Store => t.callStack.length) h
    rw [openSource_callStack] at hlength
    simp at hlength
  | source f =>
    refine ⟨.source [s.editorSource ++ ['\n']], _, rfl, fun h => ?_⟩
    have hlength := congrArg (fun t : Store => t.editorSource.length) h
    rw [(refreshLocalVars_keeps identifiers _).2] at hlength
    simp at hlength
  | locals varNames =>
    refine ⟨.values (List.replicate (s.localVars.length + 1) ⟨[], some []⟩), _, rfl, fun h => ?_⟩
    have hlength := congrArg (fun t : Store => t.localVars.length) h
    simp at hlength
  | stop byRun =>
    cases byRun with
    | true => exact ⟨.stopped, _, rfl, hstatus _ .error rfl (by decide)⟩
    | false => exact ⟨.stopped, _, rfl, hstatus _ .idle rfl (by decide)⟩

/-! ## 3. The invariant -/

structure Inv (w : World) : Prop where
  session : ∀ c ∈ w.calls, c.session = w.session
  quiet : w.stopped = true → w.store.Quiet ∧ ∀ c ∈ w.calls, c.wait.isHarmless = true

theorem inv_start (s : Store) : Inv { store := s } := by
  refine ⟨?_, ?_⟩
  · intro c hc
    cases hc
  · intro h
    cases h

/-- What awaits after an action was called. -/
theorem mem_concat {l : List Call} {c d : Call} (h : c ∈ l ++ [d]) : c ∈ l ∨ c = d :=
  (mem_append.mp h).imp_right mem_singleton.mp

theorem inv_reply (h : Inv w) {i : Nat} {reply : Reply} (hc : Condition w (.reply i reply))
    (hs : step identifiers w (.reply i reply) = some w') : Inv w' := by
  obtain ⟨c, hcall, hs⟩ := Option.bind_eq_some_iff.mp hs
  obtain ⟨next, hnext, rfl⟩ := Option.map_eq_some_iff.mp hs
  have hmem : c ∈ w.calls := mem_of_getElem? hcall
  refine ⟨?_, ?_⟩
  · intro d hd
    rcases mem_append.mp hd with hd | hd
    · exact h.session d (mem_of_mem_eraseIdx hd)
    · obtain ⟨wait, _, rfl⟩ := Option.map_eq_some_iff.mp (Option.mem_toList.mp hd)
      exact h.session c hmem
  · intro hstopped
    -- quiet before, or a stop that completes
    have hnow : next.1.Quiet ∧ next.2 = none ∧ ∀ d ∈ w.calls, d.wait.isHarmless = true := by
      cases hstop : c.wait.isStop with
      | true =>
        obtain ⟨hne, hharmless⟩ := hc c hcall hstop
        rw [eq_stop_false hstop hne] at hnext
        exact ⟨(resume_stop hnext).1, (resume_stop hnext).2, hharmless⟩
      | false =>
        have hbefore : w.stopped = true := by
          rw [Bool.or_eq_true, hstop] at hstopped
          exact hstopped.resolve_right (by decide)
        obtain ⟨hquiet, hharmless⟩ := h.quiet hbefore
        have hne : c.wait ≠ .stop true := by
          intro hw
          rw [hw] at hstop
          cases hstop
        obtain ⟨hq, hn⟩ := resume_harmless hquiet (hharmless c hmem) hne hnext
        exact ⟨hq, hn, hharmless⟩
    obtain ⟨hq, hn, hharmless⟩ := hnow
    refine ⟨hq, fun d hd => ?_⟩
    rw [hn] at hd
    rcases mem_append.mp hd with hd | hd
    · exact hharmless d (mem_of_mem_eraseIdx hd)
    · cases hd

theorem inv_step (h : Inv w) {e : Event} (hc : Condition w e)
    (hs : step identifiers w e = some w') : Inv w' := by
  cases e with
  | run =>
    cases hs
    refine ⟨?_, fun hstopped => by cases hstopped⟩
    intro c hmem
    rw [show w.calls = [] from hc] at hmem
    rw [mem_singleton.mp hmem]
  | startDebug =>
    cases hs
    refine ⟨?_, fun hstopped => by cases hstopped⟩
    intro c hmem
    rw [show w.calls = [] from hc] at hmem
    rw [mem_singleton.mp hmem]
  | step kind =>
    cases hs
    refine ⟨?_, fun hstopped => ?_⟩
    · intro c hmem
      rcases mem_concat hmem with hmem | rfl
      · exact h.session c hmem
      · rfl
    · rw [show w.stopped = false from hc] at hstopped
      cases hstopped
  | stop =>
    cases hs
    refine ⟨?_, fun hstopped => ⟨(h.quiet hstopped).1, ?_⟩⟩
    · intro c hmem
      rcases mem_concat hmem with hmem | rfl
      · exact h.session c hmem
      · rfl
    · intro c hmem
      rcases mem_concat hmem with hmem | rfl
      · exact (h.quiet hstopped).2 c hmem
      · rfl
  | reply i reply => exact inv_reply h hc hs

theorem Inv.not_wrong (h : Inv w) : ¬ w.Wrong identifiers := by
  rintro (⟨hstopped, hquiet⟩ | ⟨i, c, _, _, hcall, hne, _⟩)
  · exact hquiet (h.quiet hstopped).1
  · exact hne (h.session c (mem_of_getElem? hcall))

theorem inv_reached (h : Reached identifiers Condition { store := s } w) : Inv w :=
  Runs.inv h (inv_start s) fun _ _ _ hi hs hc => inv_step hi hc hs

/-! ## 4. Outside the condition -/

theorem step_reply {i : Nat} {c : Call} {reply : Reply} {next : Goes} (hi : w.calls[i]? = some c)
    (hnext : resume identifiers w.store c.wait reply = some next) :
    ∃ w', step identifiers w (.reply i reply) = some w' ∧ w'.store = next.1 ∧
      w'.stopped = (w.stopped || c.wait.isStop) := by
  rw [step, hi, Option.bind_some, hnext, Option.map_some]
  exact ⟨_, rfl, rfl, rfl⟩

/-- A new session while something is awaited. -/
theorem wrong_of_begun {c : Call} (hc : c ∈ w.calls) (hsession : c.session ≠ w.session)
    (hstatus : w.store.status = .running) (herror : w.store.errorMessage = none) :
    w.Wrong identifiers := by
  obtain ⟨i, hi⟩ := mem_iff_getElem?.mp hc
  obtain ⟨reply, next, hnext, hne⟩ := changes identifiers hstatus herror c.wait
  obtain ⟨w', hstep, hstore, _⟩ := step_reply hi hnext
  exact .inr ⟨i, c, reply, w', hi, hsession, hstep, by rwa [hstore]⟩

/-- After a stop, something is awaited that is not harmless. -/
theorem wrong_of_awaited {c : Call} (hc : c ∈ w.calls) (hw : c.wait.isHarmless = false)
    (hstopped : w.stopped = true) :
    ∃ w', Reached identifiers RepliesOnly w w' ∧ w'.Wrong identifiers := by
  obtain ⟨i, hi⟩ := mem_iff_getElem?.mp hc
  obtain ⟨reply, next, hnext, hquiet⟩ := wakes identifiers w.store hw
  have hallowed : RepliesOnly w (.reply i reply) := by
    refine ⟨⟨i, reply, rfl⟩, fun d hd hstop => ?_⟩
    rw [hi] at hd
    cases hd
    rw [harmless_of_isStop hstop] at hw
    cases hw
  obtain ⟨w', hstep, hstore, hstopped'⟩ := step_reply hi hnext
  refine ⟨w', .step _ _ (.reply i reply) .start hstep hallowed, .inl ⟨?_, by rwa [hstore]⟩⟩
  rw [hstopped', hstopped]
  rfl

theorem wrong_of_event (h : Inv w) {e : Event} (hs : step identifiers w e = some w')
    (hc : ¬ Condition w e) :
    ∃ w'', Reached identifiers RepliesOnly w' w'' ∧ w''.Wrong identifiers := by
  cases e with
  | run =>
    cases hs
    obtain ⟨c, hmem⟩ := exists_mem_of_ne_nil _ hc
    have hsession := h.session c hmem
    exact ⟨_, .start, wrong_of_begun (mem_append_left _ hmem) (by simp [hsession]) rfl rfl⟩
  | startDebug =>
    cases hs
    obtain ⟨c, hmem⟩ := exists_mem_of_ne_nil _ hc
    have hsession := h.session c hmem
    exact ⟨_, .start, wrong_of_begun (mem_append_left _ hmem) (by simp [hsession]) rfl rfl⟩
  | step kind =>
    cases hs
    refine wrong_of_awaited (mem_append_right _ (mem_singleton_self _)) rfl ?_
    simpa [Condition] using hc
  | stop => exact absurd trivial hc
  | reply i reply =>
    obtain ⟨c, hcall, hs⟩ := Option.bind_eq_some_iff.mp hs
    obtain ⟨next, hnext, rfl⟩ := Option.map_eq_some_iff.mp hs
    simp only [Condition, not_forall] at hc
    obtain ⟨c', hcall', hstop, hbad⟩ := hc
    rw [hcall] at hcall'
    cases hcall'
    have hstopped : (w.stopped || c.wait.isStop) = true := by rw [hstop, Bool.or_true]
    by_cases hbyRun : c.wait = .stop true
    · -- `run` goes on behind its own stop
      refine ⟨_, .start, .inl ⟨hstopped, fun hquiet => ?_⟩⟩
      rw [hbyRun] at hnext
      cases reply with
      | failed | stopped =>
        cases hnext
        cases hquiet.status
      | ran | paused | values | frames | source => cases hnext
    · have hawaited : ∃ d ∈ w.calls, d.wait.isHarmless = false := by
        by_contra hall
        refine hbad ⟨hbyRun, fun d hd => ?_⟩
        by_contra hw
        exact hall ⟨d, hd, by simpa using hw⟩
      obtain ⟨d, hd, hw⟩ := hawaited
      have hne : d ≠ c := by
        rintro rfl
        rw [harmless_of_isStop hstop] at hw
        cases hw
      have hrest : d ∈ w.calls.eraseIdx i := by
        obtain ⟨j, hj⟩ := mem_iff_getElem?.mp hd
        refine mem_eraseIdx_iff_getElem?.mpr ⟨j, ?_, hj⟩
        rintro rfl
        exact hne (Option.some.inj (hj.symm.trans hcall))
      exact wrong_of_awaited (mem_append_left _ hrest) hw hstopped

/-- **No run goes wrong** whose events all meet the condition, and any other event can be followed
by replies that make one go wrong. -/
theorem stop_holds_iff (identifiers : Text → List Text) (s : Store) :
    (∀ w, Reached identifiers Condition { store := s } w → ¬ w.Wrong identifiers) ∧
      ∀ w e w', Reached identifiers Condition { store := s } w → step identifiers w e = some w' →
        (Condition w e ↔
          ∀ w'', Reached identifiers RepliesOnly w' w'' → ¬ w''.Wrong identifiers) := by
  refine ⟨fun w h => (inv_reached h).not_wrong, ?_⟩
  intro w e w' h hs
  have hinv := inv_reached h
  constructor
  · intro hc w'' hrun
    have hinv'' : Inv w'' :=
      Runs.inv hrun (inv_step hinv hc hs) fun _ _ _ hi hstep hr => inv_step hi hr.2 hstep
    exact hinv''.not_wrong
  · intro hall
    by_contra hc
    obtain ⟨w'', hrun, hwrong⟩ := wrong_of_event hinv hs hc
    exact hall w'' hrun hwrong

/-! ## 5. Runs -/

/-- The script is run, stopped, and its result comes in. -/
def lateResult : List Event := [.run, .stop, .reply 1 .stopped, .reply 0 (.ran {})]

/-- A second session is begun before the stop of the first has completed. -/
def restarted : List Event :=
  [.startDebug, .stop, .startDebug, .reply 1 .stopped, .reply 1 (.paused { status := .paused })]

theorem shown_after_stop :
    ((lateResult.foldlM (step fun _ => []) { store := {} }).map fun w =>
        (w.stopped, w.store.status)) = some (true, .completed) ∧
      ((restarted.foldlM (step fun _ => []) { store := {} }).map fun w =>
        (w.session, w.store.status)) = some (2, .idle) ∧
      ¬ ∀ s w, Reached (fun _ => []) (fun _ _ => True) { store := s } w →
        ¬ w.Wrong fun _ => [] := by
  have hlate : ((lateResult.foldlM (step fun _ => []) { store := {} }).map fun w =>
      (w.stopped, w.store.status)) = some (true, .completed) := by decide
  refine ⟨hlate, by decide, ?_⟩
  intro h
  obtain ⟨w, hw, hshown⟩ := Option.map_eq_some_iff.mp hlate
  have hreached : Reached (fun _ => []) (fun _ _ => True) { store := {} } w :=
    Runs.exec lateResult .start (by simpa using hw)
  refine h {} w hreached (.inl ⟨(Prod.mk.inj hshown).1, fun hquiet => ?_⟩)
  have hstatus := (Prod.mk.inj hshown).2
  rw [hquiet.status] at hstatus
  cases hstatus

/-- A session that pauses, is shown and stopped. -/
def pausedAndStopped : List Event :=
  [.startDebug, .reply 0 (.paused { status := .paused }), .reply 0 (.frames []), .stop,
   .reply 0 .stopped]

theorem stop_holds_iff_paused :
    ∃ w, Reached (fun _ => []) Condition { store := {} } w ∧ w.stopped = true ∧
      ¬ w.Wrong (fun _ => []) ∧
      ∀ w', step (fun _ => []) w .startDebug = some w' →
        ∀ w'', Reached (fun _ => []) RepliesOnly w' w'' → ¬ w''.Wrong fun _ => [] := by
  have hrun : ((pausedAndStopped.foldlM (fun w e =>
      if Condition w e then step (fun _ => []) w e else none) { store := {} }).map fun w =>
        (w.stopped, w.calls)) = some (true, []) := by decide
  obtain ⟨w, hw, hshown⟩ := Option.map_eq_some_iff.mp hrun
  have hreached : Reached (fun _ => []) Condition { store := {} } w :=
    Runs.exec pausedAndStopped .start hw
  refine ⟨w, hreached, (Prod.mk.inj hshown).1, (stop_holds_iff _ {}).1 w hreached, ?_⟩
  intro w' hs
  exact ((stop_holds_iff _ {}).2 w .startDebug w' hreached hs).mp (Prod.mk.inj hshown).2

end Veesker.Debugger
