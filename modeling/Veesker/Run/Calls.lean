/-
  File:      Veesker/Run/Calls.lean
  Subject:   COMMAND LISTS THAT CALL EACH OTHER, to a bounded depth.

  A command may name a further list, which is then gone through before the next command.

  * `reading` -- every command in depth-first order, the lists below depth `n` left out;
  * `Reads` -- a run of the reading in which lists may end early or not be read at all;
    `Reads.sublist`: it keeps the order;
  * `NestsTo` -- a trace of openings and closings that never has more than `d` open;
  * `NothingBehind` -- no command stands behind a stopping one.

  Nothing here names the repository.
-/
import Mathlib.Data.List.Basic
import Mathlib.Algebra.BigOperators.Group.List.Basic
import Mathlib.Algebra.Ring.Int.Defs

namespace Veesker.Run

open List

section Calls
variable {γ ν : Type} (call : γ → Option ν) (body : ν → Option (List γ))

/-- The commands of `x` in depth-first order. -/
def reading : Nat → ν → List γ
  | 0, _ => []
  | n + 1, x => ((body x).getD []).flatMap fun c => c :: (call c).elim [] (reading n)

/-- A run through a list: each command, and what is run of the list it calls, up to some command. -/
inductive Walks (call : γ → Option ν) (R : ν → List γ → Prop) : List γ → List γ → Prop where
  | stop (cs : List γ) : Walks call R cs []
  | command {c : γ} {cs l : List γ} (hc : call c = none) (h : Walks call R cs l) :
      Walks call R (c :: cs) (c :: l)
  | call {c : γ} {cs sub l : List γ} {x : ν} (hc : call c = some x) (hsub : R x sub)
      (h : Walks call R cs l) : Walks call R (c :: cs) (c :: (sub ++ l))

/-- A run of what `x` names. -/
def Reads : Nat → ν → List γ → Prop
  | 0, _, l => l = []
  | n + 1, x, l => l = [] ∨ ∃ cs, body x = some cs ∧ Walks call (Reads n) cs l

variable {call body}

theorem Walks.sublist {R : ν → List γ → Prop} {full : ν → List γ} {cs l : List γ}
    (h : Walks call R cs l) (hR : ∀ x sub, R x sub → sub.Sublist (full x)) :
    l.Sublist (cs.flatMap fun c => c :: (call c).elim [] full) := by
  induction h with
  | stop cs => exact nil_sublist _
  | @command c cs l hc h ih =>
    rw [flatMap_cons, hc]
    exact List.Sublist.cons_cons c ih
  | @call c cs sub l x hc hsub h ih =>
    rw [flatMap_cons, hc]
    exact List.Sublist.cons_cons c ((hR x sub hsub).append ih)

/-- **A run keeps the order of the reading.** -/
theorem Reads.sublist {n : Nat} {x : ν} {l : List γ} (h : Reads call body n x l) :
    l.Sublist (reading call body n x) := by
  induction n generalizing x l with
  | zero =>
    rw [show l = [] from h]
    exact nil_sublist _
  | succ n ih =>
    rcases h with rfl | ⟨cs, hcs, hwalk⟩
    · exact nil_sublist _
    · rw [reading, hcs]
      exact hwalk.sublist (fun x sub hsub => ih hsub)

end Calls

section Nesting
variable {η : Type} {change : η → Int} {d : Nat} {t : List η}

/-- How many more have been opened than closed. -/
def level (change : η → Int) (t : List η) : Int := (t.map change).sum

/-- All that is opened is closed, and at most `d` are open at a time. -/
structure NestsTo (change : η → Int) (d : Nat) (t : List η) : Prop where
  closed : level change t = 0
  bound : ∀ p, p <+: t → level change p ≤ d

theorem level_append (change : η → Int) (t u : List η) :
    level change (t ++ u) = level change t + level change u := by
  rw [level, map_append, sum_append]
  rfl

theorem level_cons (change : η → Int) (h : η) (t : List η) :
    level change (h :: t) = change h + level change t := by
  rw [level, map_cons, sum_cons]
  rfl

theorem NestsTo.nil (change : η → Int) (d : Nat) : NestsTo change d [] := by
  refine ⟨rfl, ?_⟩
  intro p hp
  rw [prefix_nil.mp hp]
  exact Int.natCast_nonneg d

theorem NestsTo.append {u : List η} (ht : NestsTo change d t) (hu : NestsTo change d u) :
    NestsTo change d (t ++ u) := by
  refine ⟨?_, ?_⟩
  · rw [level_append, ht.closed, hu.closed]
    rfl
  · intro p hp
    rcases prefix_or_prefix_of_prefix hp (prefix_append t u) with hp | ⟨q, rfl⟩
    · exact ht.bound p hp
    · rw [level_append, ht.closed, Int.zero_add]
      exact hu.bound q ((prefix_append_right_inj t).mp hp)

theorem NestsTo.single {h : η} (hh : change h = 0) (d : Nat) : NestsTo change d [h] := by
  have hlevel : level change [h] = 0 := by
    rw [level_cons, hh]
    rfl
  refine ⟨hlevel, ?_⟩
  intro p hp
  rcases prefix_concat_iff.mp (show p <+: [] ++ [h] from hp) with rfl | hp
  · exact Int.le_trans (Int.le_of_eq hlevel) (Int.natCast_nonneg d)
  · exact (NestsTo.nil change d).bound p hp

/-- What is opened around a trace and closed behind it. -/
theorem NestsTo.inside {o c : η} (ho : change o = 1) (hc : change c = -1)
    (h : NestsTo change d t) : NestsTo change (d + 1) (o :: (t ++ [c])) := by
  have hclosed : level change (o :: (t ++ [c])) = 0 := by
    rw [level_cons, level_append, level_cons, ho, hc, h.closed]
    rfl
  refine ⟨hclosed, ?_⟩
  intro p hp
  rcases prefix_cons_iff.mp hp with rfl | ⟨q, rfl, hq⟩
  · exact Int.natCast_nonneg (d + 1)
  · rcases prefix_concat_iff.mp hq with rfl | hq
    · exact Int.le_trans (Int.le_of_eq hclosed) (Int.natCast_nonneg (d + 1))
    · have hbound := h.bound q hq
      rw [level_cons, ho]
      omega

end Nesting

/-- No command stands behind a stopping one. -/
def NothingBehind {γ : Type} (stops : γ → Prop) (l : List γ) : Prop :=
  ∀ a c b, l = a ++ c :: b → stops c → b = []

theorem NothingBehind.sublist {γ : Type} {stops : γ → Prop} {l l' : List γ}
    (h : NothingBehind stops l) (hl : l'.Sublist l) : NothingBehind stops l' := by
  intro a c b hsplit hc
  subst hsplit
  obtain ⟨l₁, l₂, rfl, -, h₂⟩ := append_sublist_iff.mp hl
  obtain ⟨r₁, r₂, rfl, hmem, hr⟩ := cons_sublist_iff.mp h₂
  obtain ⟨m, k, rfl⟩ := append_of_mem hmem
  have hnil : k ++ r₂ = [] := h (l₁ ++ m) c (k ++ r₂) (by simp) hc
  rw [(append_eq_nil_iff.mp hnil).2] at hr
  exact sublist_nil.mp hr

end Veesker.Run
