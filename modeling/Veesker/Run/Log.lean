/-
  File:      Veesker/Run/Log.lean
  Subject:   RUNS THAT WRITE A LOG, and what an event of a log rests on.

  A machine's step takes a state and an action to a state and the events it writes. `Reaches` is
  what its runs reach, under a condition on the steps taken; `Reaches.invariant` is the one
  induction over runs. Two notions on logs carry the temporal statements:

  * `Since P keep log` -- an event with `P` is in the log and only `keep` events came after it;
  * `Justified J log` -- every event stands in the relation `J` to the log before it.

  Nothing here names the repository.
-/
import Mathlib.Data.List.Basic

namespace Veesker.Run

open List

section Runs
variable {State Action Event : Type}

/-- What a machine's runs reach, when every step taken meets `ok`. -/
inductive Reaches (step : State → Action → Option (State × List Event)) (ok : State → Action → Prop)
    (init : State) : State → List Event → Prop where
  | start : Reaches step ok init init []
  | step {s s' : State} {log new : List Event} (a : Action) (h : Reaches step ok init s log)
      (hok : ok s a) (hs : step s a = some (s', new)) : Reaches step ok init s' (log ++ new)

variable {step : State → Action → Option (State × List Event)} {ok : State → Action → Prop}
  {init : State}

/-- **The induction over runs.** -/
theorem Reaches.invariant (Inv : State → List Event → Prop) (hinit : Inv init [])
    (hstep : ∀ s log a s' new, Inv s log → ok s a → step s a = some (s', new) →
      Inv s' (log ++ new)) {s : State} {log : List Event} (h : Reaches step ok init s log) :
    Inv s log := by
  induction h with
  | start => exact hinit
  | step a _ hok hs ih => exact hstep _ _ a _ _ ih hok hs

/-- A run of given actions, from a state and a log; none when an action is not enabled or does not
    meet `ok`. -/
def runFrom (step : State → Action → Option (State × List Event)) (ok : State → Action → Prop)
    [∀ s a, Decidable (ok s a)] : State → List Event → List Action → Option (State × List Event)
  | s, log, [] => some (s, log)
  | s, log, a :: as =>
    if ok s a then
      match step s a with
      | some (s', new) => runFrom step ok s' (log ++ new) as
      | none => none
    else none

theorem Reaches.run [∀ s a, Decidable (ok s a)] {s s' : State} {log log' : List Event}
    (actions : List Action) (h : Reaches step ok init s log)
    (hr : runFrom step ok s log actions = some (s', log')) : Reaches step ok init s' log' := by
  induction actions generalizing s log with
  | nil =>
    cases hr
    exact h
  | cons a as ih =>
    unfold runFrom at hr
    split at hr
    · rename_i hok
      split at hr
      · rename_i s₁ new hs
        exact ih (h.step a hok hs) hr
      · cases hr
    · cases hr

end Runs

section Logs
variable {Event : Type} {P keep : Event → Prop} {log new : List Event}

/-- An event with `P` is in the log, and only `keep` events came after it. -/
def Since (P keep : Event → Prop) (log : List Event) : Prop :=
  ∃ pre e post, log = pre ++ e :: post ∧ P e ∧ ∀ x ∈ post, keep x

/-- Events that keep it keep it. -/
theorem Since.append (h : Since P keep log) (hnew : ∀ x ∈ new, keep x) :
    Since P keep (log ++ new) := by
  obtain ⟨pre, e, post, rfl, he, hpost⟩ := h
  refine ⟨pre, e, post ++ new, by simp, he, fun x hx => ?_⟩
  rcases mem_append.mp hx with hx | hx
  · exact hpost x hx
  · exact hnew x hx

theorem since_concat {e : Event} (he : P e) : Since P keep (log ++ [e]) :=
  ⟨log, e, [], rfl, he, by simp⟩

theorem Since.imp {P' keep' : Event → Prop} (h : Since P keep log) (hP : ∀ e, P e → P' e)
    (hk : ∀ e, keep e → keep' e) : Since P' keep' log := by
  obtain ⟨pre, e, post, hl, he, hpost⟩ := h
  exact ⟨pre, e, post, hl, hP e he, fun x hx => hk x (hpost x hx)⟩

/-- Every event stands in the relation to the log before it. -/
def Justified (J : List Event → Event → Prop) (log : List Event) : Prop :=
  ∀ pre e post, log = pre ++ e :: post → J pre e

variable {J : List Event → Event → Prop}

theorem justified_nil : Justified J ([] : List Event) := by
  intro pre e post h
  simp at h

/-- New events are judged by the old log and the new events before them. -/
theorem Justified.append (h : Justified J log)
    (hnew : ∀ pre e post, new = pre ++ e :: post → J (log ++ pre) e) : Justified J (log ++ new) := by
  intro pre e post hl
  rcases append_eq_append_iff.mp hl with ⟨a, rfl, h2⟩ | ⟨a, h1, h2⟩
  · exact hnew a e post h2
  · cases a with
    | nil =>
      rw [nil_append] at h2
      rw [append_nil] at h1
      have := hnew [] e post (by rw [nil_append]; exact h2.symm)
      rwa [append_nil, h1] at this
    | cons x a =>
      simp only [cons_append, List.cons.injEq] at h2
      exact h pre e a (by rw [h1, h2.1])

theorem Justified.concat {e : Event} (h : Justified J log) (he : J log e) :
    Justified J (log ++ [e]) := by
  refine h.append fun pre e' post hnew => ?_
  cases pre with
  | nil =>
    simp only [nil_append, List.cons.injEq] at hnew
    rw [append_nil, ← hnew.1]
    exact he
  | cons x pre => simp at hnew

/-! ## Logs by position -/

theorem take_append_cons_drop {j : Nat} {e : Event} (h : log[j]? = some e) :
    log = log.take j ++ e :: log.drop (j + 1) := by
  obtain ⟨hlt, rfl⟩ := List.getElem?_eq_some_iff.mp h
  rw [getElem_cons_drop, take_append_drop]

/-- A justified event's relation is to what stands before it. -/
theorem Justified.get {j : Nat} {e : Event} (h : Justified J log) (hj : log[j]? = some e) :
    J (log.take j) e :=
  h _ _ _ (take_append_cons_drop hj)

theorem exists_get_of_mem_take {j : Nat} {e : Event} (h : e ∈ log.take j) :
    ∃ i < j, log[i]? = some e := by
  obtain ⟨i, hi⟩ := mem_iff_getElem?.mp h
  have hlt : i < j := by
    have := (List.getElem?_eq_some_iff.mp hi).1
    rw [length_take] at this
    omega
  exact ⟨i, hlt, by rwa [List.getElem?_take_of_lt hlt] at hi⟩

/-- `Since`, up to a position: the event's own position, and what stands in between. -/
theorem Since.get {j : Nat} (h : Since P keep (log.take j)) :
    ∃ i e, i < j ∧ log[i]? = some e ∧ P e ∧
      ∀ k x, i < k → k < j → log[k]? = some x → keep x := by
  obtain ⟨pre, e, post, hl, he, hpost⟩ := h
  have hlen : pre.length < j := by
    have := congrArg List.length hl
    simp only [length_take, length_append, length_cons] at this
    omega
  have hget : ∀ k, k < j → log[k]? = (pre ++ e :: post)[k]? := by
    intro k hk
    rw [← hl, List.getElem?_take_of_lt hk]
  refine ⟨pre.length, e, hlen, ?_, he, fun k x hik hkj hk => ?_⟩
  · rw [hget _ hlen]
    simp
  · rw [hget k hkj, List.getElem?_append_right (by omega)] at hk
    obtain ⟨m, hm⟩ : ∃ m, k - pre.length = m + 1 := ⟨k - pre.length - 1, by omega⟩
    rw [hm, List.getElem?_cons_succ] at hk
    exact hpost x (mem_of_getElem? hk)

end Logs

end Veesker.Run
