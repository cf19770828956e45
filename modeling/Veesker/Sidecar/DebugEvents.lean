/-
  File:      Veesker/Sidecar/DebugEvents.lean
  Subject:   WHEN A DEBUG SESSION IS OVER (sidecar/src/debug.ts `synchronize`, `continueExecution`,
             `synchronizeWithTimeout`, `debugStart` and `safeStep`): the events that Oracle reports,
             and any number of starts and steps, where no time runs out and no call fails.

  A start passes over up to ten events without a place; a step takes the next event as it is.

  * **`run_right_iff`** -- the calls of a run end their session only when its target is over, if and
    only if none of them comes to an event without a place that it does not pass over;
  * `step_ends_running` -- without it: a step out of the procedure into the anonymous block.
-/
import Veesker.Text.Js

namespace Veesker.Sidecar.DebugEvents

/-! ## 1. Events -/

def REASON_NONE : Int := 0
def REASON_FINISH : Int := 8
def REASON_EXIT : Int := 15
def REASON_KNL_EXIT : Int := 16
def REASON_WHATEVER : Int := 25

def isDoneReason (reason : Int) : Bool :=
  reason = REASON_NONE || reason = REASON_FINISH || reason = REASON_EXIT ||
    reason = REASON_KNL_EXIT || reason = REASON_WHATEVER

/-- What `DBMS_DEBUG` answers, as it is bound; any part can be null. -/
structure RuntimeInfo where
  line : Option Int := none
  reason : Option Int := none
  terminated : Option Int := none
  obj_name : Option Text := none
  obj_owner : Option Text := none
  libunit_type : Option Int := none
  deriving DecidableEq

def libunitTypeToString : Option Int → Text
  | some 2 => "FUNCTION".toList
  | some 3 => "PACKAGE".toList
  | some 4 => "PACKAGE BODY".toList
  | some 7 => "TRIGGER".toList
  | some 8 => "TYPE".toList
  | some 9 => "TYPE BODY".toList
  | _ => "PROCEDURE".toList

inductive Status where
  | paused | completed
  deriving DecidableEq

structure StackFrame where
  owner : Text
  objectName : Text
  objectType : Text
  line : Int
  deriving DecidableEq

structure PauseInfo where
  status : Status
  frame : Option StackFrame
  reason : Int
  deriving DecidableEq

/-- The target is over. -/
def RuntimeInfo.finishes (e : RuntimeInfo) : Bool :=
  e.terminated.getD 0 ≠ 0 || isDoneReason (e.reason.getD 0)

/-- The event has a place. -/
def RuntimeInfo.named (e : RuntimeInfo) : Bool := e.obj_name.getD [] ≠ [] && 0 < e.line.getD 0

/-- What `synchronize` and `continueExecution` make of the answer. -/
def pauseInfo (e : RuntimeInfo) : PauseInfo :=
  let reason := e.reason.getD 0
  if e.finishes then ⟨.completed, none, reason⟩
  else if ¬ e.named then ⟨.completed, none, reason⟩
  else ⟨.paused, some ⟨e.obj_owner.getD [], e.obj_name.getD [], libunitTypeToString e.libunit_type,
    e.line.getD 0⟩, reason⟩

/-! ## 2. Calls -/

/-- The events in their order, and how many were taken. -/
abbrev Events := Nat → RuntimeInfo

/-- The loop of `synchronizeWithTimeout`, with the turns it has left: what it ends with, and the
    place of the next event. -/
def runLoop (events : Events) : Nat → Nat → PauseInfo → PauseInfo × Nat
  | 0, pos, info => (info, pos)
  | turns + 1, pos, info =>
    if info.status ≠ .completed ∨ isDoneReason info.reason then (info, pos)
    else runLoop events turns (pos + 1) (pauseInfo (events pos))

def synchronizeWithTimeout (events : Events) (pos : Nat) : PauseInfo × Nat :=
  runLoop events 10 (pos + 1) (pauseInfo (events pos))

inductive Call where
  | debugStart | debugStepInto | debugStepOver | debugStepOut | debugContinue
  deriving DecidableEq

inductive Outcome where
  | answer (info : PauseInfo)
  /-- "No active debug session". -/
  | noSession
  /-- "ran without pausing": the first event that was not passed over was taken for the end. -/
  | ranWithoutPausing
  deriving DecidableEq

/-- The call takes its session for over. -/
def Outcome.completes : Outcome → Bool
  | .answer info => info.status = .completed
  | .noSession => false
  | .ranWithoutPausing => true

structure World where
  pos : Nat := 0
  /-- The session in the slot, by the events that were reported in it. -/
  session : Option (List RuntimeInfo) := none

/-- What a call comes to, and the events of its session up to there. -/
structure Done where
  outcome : Outcome
  reports : List RuntimeInfo
  world : World

/-- A session that is taken for over is stopped: its connections are closed, and the slot is
    empty. -/
def settled (outcome : Outcome) (reports : List RuntimeInfo) (pos : Nat) : Done :=
  ⟨outcome, reports, ⟨pos, if outcome.completes then none else some reports⟩⟩

def debugStart (events : Events) (w : World) : Done :=
  let (info, pos) := synchronizeWithTimeout events w.pos
  settled (if info.status = .completed ∧ info.frame = none then .ranWithoutPausing
      else .answer info)
    ((List.range (pos - w.pos)).map fun i => events (w.pos + i)) pos

/-- The flags of a step say where Oracle is to stop next, which is in the event that comes. -/
def safeStep (events : Events) (w : World) : Done :=
  match w.session with
  | none => ⟨.noSession, [], w⟩
  | some reports =>
    settled (.answer (pauseInfo (events w.pos))) (reports ++ [events w.pos]) (w.pos + 1)

def handle (events : Events) (w : World) : Call → Done
  | .debugStart => debugStart events w
  | .debugStepInto => safeStep events w
  | .debugStepOver => safeStep events w
  | .debugStepOut => safeStep events w
  | .debugContinue => safeStep events w

/-- The calls of a run, each in the state that it finds. -/
def run (events : Events) (w : World) : List Call → List (World × Call)
  | [] => []
  | call :: calls => (w, call) :: run events (handle events w call).world calls

/-! ## 3. What is asked of a call -/

/-- Oracle has reported that the target is over. -/
def Over (reports : List RuntimeInfo) : Prop := ∃ e ∈ reports, e.finishes = true

structure Done.Right (d : Done) : Prop where
  completed : d.outcome.completes = true → Over d.reports
  ended : d.outcome ≠ .noSession → d.world.session = none → Over d.reports

/-- The event can be taken as it is: the target is over, or there is a place. -/
def RuntimeInfo.tells (e : RuntimeInfo) : Bool := e.finishes || e.named

/-- The events that the call takes tell: of a start's, one of the first eleven; a step's, unless
    the target is over already. -/
def Orderly (events : Events) (w : World) : Call → Prop
  | .debugStart => ∃ i ≤ 10, (events (w.pos + i)).tells = true
  | _ => ∀ reports, w.session = some reports → Over reports ∨ (events w.pos).tells = true

/-! ## 4. One event -/

variable {e : RuntimeInfo}

theorem completed_iff :
    (pauseInfo e).status = .completed ↔ e.finishes = true ∨ e.named = false := by
  rw [pauseInfo]
  split
  · simp [*]
  · split <;> simp_all

theorem reason_eq (e : RuntimeInfo) : (pauseInfo e).reason = e.reason.getD 0 := by
  rw [pauseInfo]
  split
  · rfl
  · split <;> rfl

theorem finishes_of_done (h : isDoneReason (pauseInfo e).reason = true) :
    e.finishes = true := by
  rw [reason_eq] at h
  exact Bool.or_eq_true_iff.mpr (.inr h)

theorem frame_of_completed (h : (pauseInfo e).status = .completed) :
    (pauseInfo e).frame = none := by
  rw [pauseInfo] at h ⊢
  split
  · rfl
  · split
    · rfl
    · simp_all

/-- A session that is settled is over exactly when the call takes it so. -/
theorem settled_right_iff {o : Outcome} {reports : List RuntimeInfo} {pos : Nat} :
    (settled o reports pos).Right ↔ (o.completes = true → Over reports) := by
  refine ⟨fun h => h.completed, fun h => ⟨h, fun _ hnone => h ?_⟩⟩
  cases hc : o.completes with
  | true => rfl
  | false => simp [settled, hc] at hnone

/-! ## 5. A step -/

theorem over_append_singleton {reports : List RuntimeInfo} :
    Over (reports ++ [e]) ↔ Over reports ∨ e.finishes = true := by
  simp [Over, or_and_right, exists_or]

theorem safeStep_right_iff (events : Events) (w : World) : (safeStep events w).Right ↔
    ∀ reports, w.session = some reports → Over reports ∨ (events w.pos).tells = true := by
  rw [safeStep]
  cases hw : w.session with
  | none =>
    refine ⟨fun _ _ h => ?_, fun _ => ⟨nofun, fun h => absurd rfl h⟩⟩
    cases h
  | some reports =>
    have hc : (Outcome.answer (pauseInfo (events w.pos))).completes = true ↔
        (events w.pos).finishes = true ∨ (events w.pos).named = false := by
      rw [Outcome.completes, decide_eq_true_eq, completed_iff]
    simp only [settled_right_iff, hc, over_append_singleton, Option.some.injEq, forall_eq',
      RuntimeInfo.tells, Bool.or_eq_true]
    cases (events w.pos).named <;> tauto

/-! ## 6. A start -/

/-- The loop takes events without a place, and ends with a place, a done reason or its turns. -/
theorem runLoop_spec (events : Events) (turns pos : Nat) :
    ∃ n ≤ turns, runLoop events turns (pos + 1) (pauseInfo (events pos)) =
        (pauseInfo (events (pos + n)), pos + n + 1) ∧
      (∀ i < n, (pauseInfo (events (pos + i))).status = .completed) ∧
      (n < turns → (pauseInfo (events (pos + n))).status ≠ .completed ∨
        isDoneReason (pauseInfo (events (pos + n))).reason = true) := by
  induction turns generalizing pos with
  | zero => exact ⟨0, Nat.le_refl 0, rfl, nofun, fun h => absurd h (Nat.lt_irrefl 0)⟩
  | succ turns ih =>
    rw [runLoop]
    split
    · rename_i hend
      exact ⟨0, Nat.zero_le _, rfl, nofun, fun _ => hend⟩
    · rename_i hgo
      obtain ⟨hstatus, -⟩ := not_or.mp hgo
      obtain ⟨n, hn, heq, hbefore, hend⟩ := ih (pos + 1)
      have hshift : ∀ i, pos + 1 + i = pos + (i + 1) := fun i => by omega
      refine ⟨n + 1, by omega, by rw [heq, hshift], fun i hi => ?_, fun h => ?_⟩
      · cases i with
        | zero => exact Classical.not_not.mp hstatus
        | succ i => exact hshift i ▸ hbefore i (by omega)
      · exact hshift n ▸ hend (by omega)

/-- The events of a start that are reported. -/
theorem over_taken {events : Events} {pos n : Nat} :
    Over ((List.range n).map fun i => events (pos + i)) ↔
      ∃ i < n, (events (pos + i)).finishes = true := by
  simp [Over]

theorem debugStart_right_iff (events : Events) (w : World) : (debugStart events w).Right ↔
    ∃ i ≤ 10, (events (w.pos + i)).tells = true := by
  obtain ⟨n, hn, heq, hbefore, hend⟩ := runLoop_spec events 10 w.pos
  have hstart : debugStart events w = settled
      (if (pauseInfo (events (w.pos + n))).status = .completed ∧
          (pauseInfo (events (w.pos + n))).frame = none then .ranWithoutPausing
        else .answer (pauseInfo (events (w.pos + n))))
      ((List.range (n + 1)).map fun i => events (w.pos + i)) (w.pos + n + 1) := by
    rw [debugStart, synchronizeWithTimeout, heq]
    simp only [show w.pos + n + 1 - w.pos = n + 1 by omega]
  rw [hstart, settled_right_iff, over_taken]
  by_cases hc : (pauseInfo (events (w.pos + n))).status = .completed
  · rw [if_pos ⟨hc, frame_of_completed hc⟩]
    refine ⟨fun h => ?_, fun ⟨i, hi, htells⟩ _ => ?_⟩
    · obtain ⟨i, hi, hf⟩ := h rfl
      exact ⟨i, by omega, Bool.or_eq_true_iff.mpr (.inl hf)⟩
    · rcases Nat.lt_or_ge n i with hlt | hle
      · -- the loop ended before its turns, and not with a place
        have hdone := (hend (by omega)).resolve_left (not_not_intro hc)
        exact ⟨n, by omega, finishes_of_done hdone⟩
      · refine ⟨i, by omega, ?_⟩
        have hi : (pauseInfo (events (w.pos + i))).status = .completed := by
          rcases Nat.lt_or_eq_of_le hle with h | rfl
          · exact hbefore i h
          · exact hc
        rcases completed_iff.mp hi with h | h
        · exact h
        · exact (Bool.or_eq_true_iff.mp htells).resolve_right (by rw [h]; exact Bool.false_ne_true)
  · have hcompletes : (Outcome.answer (pauseInfo (events (w.pos + n)))).completes = false := by
      rw [Outcome.completes, decide_eq_false_iff_not]
      exact hc
    rw [if_neg fun h => hc h.1, hcompletes]
    refine ⟨fun _ => ⟨n, hn, ?_⟩, fun _ h => absurd h Bool.false_ne_true⟩
    have hplace := fun h => hc (completed_iff.mpr h)
    obtain ⟨-, hnamed⟩ := not_or.mp hplace
    exact Bool.or_eq_true_iff.mpr (.inr (Bool.eq_true_of_not_eq_false hnamed))

/-! ## 7. Every run -/

theorem handle_right_iff (events : Events) (w : World) (call : Call) :
    (handle events w call).Right ↔ Orderly events w call := by
  cases call with
  | debugStart => exact debugStart_right_iff events w
  | debugStepInto => exact safeStep_right_iff events w
  | debugStepOver => exact safeStep_right_iff events w
  | debugStepOut => exact safeStep_right_iff events w
  | debugContinue => exact safeStep_right_iff events w

/-- **The calls of a run take a session for over, and stop it, only when Oracle has reported that
    its target is over, if and only if the events that each of them takes tell.** -/
theorem run_right_iff (events : Events) (calls : List Call) :
    (∀ x ∈ run events {} calls, (handle events x.1 x.2).Right) ↔
      ∀ x ∈ run events {} calls, Orderly events x.1 x.2 :=
  forall₂_congr fun x _ => handle_right_iff events x.1 x.2

/-- The interpreter starts, and the procedure stops at its first line; the step out of it comes to
    the anonymous block. -/
def procedureEvents : Events
  | 0 => { reason := some 2, terminated := some 0 }
  | 1 => { reason := some 3, terminated := some 0, obj_name := some "P".toList, line := some 1 }
  | _ => { reason := some 7, terminated := some 0 }

/-- The block is still running, and the session is stopped and reported as completed. -/
theorem step_ends_running :
    ¬ ∀ x ∈ run procedureEvents {} [.debugStart, .debugStepOut],
      (handle procedureEvents x.1 x.2).Right := by
  intro h
  have hstep := (handle_right_iff _ _ _).mp
    (h _ (List.mem_cons_of_mem _ List.mem_cons_self)) _ rfl
  revert hstep
  rw [Over]
  decide

end Veesker.Sidecar.DebugEvents
