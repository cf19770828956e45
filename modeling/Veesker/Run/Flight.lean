/-
  File:      Veesker/Run/Flight.lean
  Subject:   CALLS IN FLIGHT: runs of a machine whose steps are events, and the list of its calls,
             of which one element is replaced or taken out at a time.

  * `Runs` -- the states that allowed steps reach, and `Runs.inv`, the rule for invariants;
    `Runs.exec` runs given events.

  Nothing here names the repository.
-/
import Mathlib.Data.List.Nodup

namespace Veesker.Run

open List

/-! ## 1. Runs -/

/-- The states that are reached from `init` by steps that are all allowed. -/
inductive Runs {S E : Type} (next : S → E → S → Prop) (allowed : S → E → Prop) (init : S) :
    S → Prop where
  | start : Runs next allowed init init
  | step (s s' : S) (e : E) (h : Runs next allowed init s) (hs : next s e s') (ha : allowed s e) :
      Runs next allowed init s'

/-- **What holds at the start and is kept by every allowed step holds in every run.** -/
theorem Runs.inv {S E : Type} {next : S → E → S → Prop} {allowed : S → E → Prop} {init s : S}
    {I : S → Prop} (h : Runs next allowed init s) (h0 : I init)
    (hstep : ∀ s e s', I s → next s e s' → allowed s e → I s') : I s := by
  induction h with
  | start => exact h0
  | step s s' e _ hs ha ih => exact hstep s e s' ih hs ha

/-- A run of given events, each of them allowed. -/
theorem Runs.exec {S E : Type} {step : S → E → Option S} {allowed : S → E → Prop}
    [∀ s e, Decidable (allowed s e)] {init s s' : S} (events : List E)
    (h : Runs (fun s e s' => step s e = some s') allowed init s)
    (hr : events.foldlM (fun s e => if allowed s e then step s e else none) s = some s') :
    Runs (fun s e s' => step s e = some s') allowed init s' := by
  induction events generalizing s with
  | nil =>
    cases hr
    exact h
  | cons e events ih =>
    rw [foldlM_cons, Option.bind_eq_bind, Option.bind_eq_some_iff] at hr
    obtain ⟨s1, h1, hr⟩ := hr
    split at h1
    · rename_i ha
      exact ih (.step _ _ e h h1 ha) hr
    · cases h1

/-! ## 2. One call among others -/

variable {α β : Type} {l l' : List α} {a b x : α}

/-- Who is there after `b` came for `a` is `b` or was there before. -/
theorem mem_replaced (h : x ∈ l ++ b :: l') : x = b ∨ x ∈ l ++ a :: l' := by
  rcases mem_append.mp h with h | h
  · exact Or.inr (mem_append_left _ h)
  · rcases mem_cons.mp h with h | h
    · exact Or.inl h
    · exact Or.inr (mem_append_right _ (mem_cons_of_mem _ h))

/-- Who is not `a` is there whatever stands in its place. -/
theorem mem_of_ne (hx : x ≠ a) (h : x ∈ l ++ a :: l') : x ∈ l ++ l' := by
  rcases mem_append.mp h with h | h
  · exact mem_append_left _ h
  · exact mem_append_right _ ((mem_cons.mp h).resolve_left hx)

theorem sublist_removed (l l' : List α) (a : α) : (l ++ l').Sublist (l ++ a :: l') :=
  (List.Sublist.refl l).append (sublist_cons_self a l')

theorem mem_removed (h : x ∈ l ++ l') : x ∈ l ++ a :: l' := (sublist_removed l l' a).subset h

theorem mem_here : a ∈ l ++ a :: l' := mem_append_right _ mem_cons_self

/-- A symmetric relation that holds between any two holds between `a` and the others. -/
theorem related_of_pairwise {R : β → β → Prop} (hsym : ∀ {x y}, R x y → R y x) {f : α → β}
    (h : ((l ++ a :: l').map f).Pairwise R) (hx : x ∈ l ++ l') : R (f a) (f x) := by
  rw [map_append, map_cons, pairwise_middle hsym, pairwise_cons,
    ← map_append] at h
  exact h.1 _ (mem_map_of_mem hx)

/-- What `a` holds nobody else holds, where nothing is held twice. -/
theorem not_held_of_nodup {f : α → Option β} (h : ((l ++ a :: l').filterMap f).Nodup) {v : β}
    (ha : f a = some v) (hx : x ∈ l ++ l') : f x ≠ some v := by
  rw [filterMap_append, filterMap_cons_some ha, nodup_middle, nodup_cons,
    ← filterMap_append] at h
  exact fun hv => h.1 (mem_filterMap.mpr ⟨x, hx, hv⟩)

end Veesker.Run
