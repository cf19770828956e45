/-
  File:      Veesker/Text/Cut.lean
  Subject:   WHERE A LIST IS CUT: at the first place of an element, or where a class ends.

  Nothing here names the repository.
-/
import Mathlib.Data.List.Basic

namespace Veesker

open List

variable {α : Type} {a : α} {x y z w : List α} {p : α → Bool}

/-- A list is cut in one way where an element stands first. -/
theorem cut_at_first (hx : a ∉ x) (hy : a ∉ y) (h : x ++ a :: z = y ++ a :: w) :
    x = y ∧ z = w := by
  induction x generalizing y with
  | nil =>
    cases y with
    | nil => exact ⟨rfl, (List.cons.inj h).2⟩
    | cons b y => exact absurd ((List.cons.inj h).1 ▸ mem_cons_self) hy
  | cons b x ih =>
    cases y with
    | nil => exact absurd ((List.cons.inj h).1 ▸ mem_cons_self) hx
    | cons c y =>
      obtain ⟨rfl, htail⟩ := List.cons.inj h
      obtain ⟨rfl, hz⟩ := ih (fun hm => hx (mem_cons_of_mem _ hm))
        (fun hm => hy (mem_cons_of_mem _ hm)) htail
      exact ⟨rfl, hz⟩

/-- A list is cut in one way where an element stands alone. -/
theorem cut_at_only (hx : a ∉ x) (hz : a ∉ z) (h : x ++ a :: z = y ++ a :: w) :
    x = y ∧ z = w := by
  classical
  have hc := congrArg (List.count a) h
  rw [count_append, count_append, count_cons_self, count_cons_self,
    count_eq_zero_of_not_mem hx, count_eq_zero_of_not_mem hz] at hc
  exact cut_at_first hx (count_eq_zero.mp (by omega)) h

/-- A list is cut in one way where a class ends. -/
theorem cut_at_span (hx : ∀ c ∈ x, p c = true) (hy : ∀ c ∈ y, p c = true)
    (hz : ∀ c, z.head? = some c → p c = false) (hw : ∀ c, w.head? = some c → p c = false)
    (h : x ++ z = y ++ w) : x = y ∧ z = w := by
  have hspan : ∀ {u v : List α}, (∀ c ∈ u, p c = true) → (∀ c, v.head? = some c → p c = false) →
      (u ++ v).takeWhile p = u := by
    intro u v hu hv
    rw [takeWhile_append_of_pos hu]
    cases v with
    | nil => simp
    | cons c v => rw [takeWhile_cons_of_neg (by simp [hv c rfl]), append_nil]
  have hxy : x = y := by rw [← hspan hx hz, h, hspan hy hw]
  subst hxy
  exact ⟨rfl, append_cancel_left h⟩

/-- What stands before the first place of an element, and behind it. -/
theorem takeWhile_cut [DecidableEq α] (hx : a ∉ x) : (x ++ a :: z).takeWhile (· != a) = x ∧
    (x ++ a :: z).dropWhile (· != a) = a :: z := by
  have hpos : ∀ c ∈ x, (c != a) = true := fun c hc =>
    bne_iff_ne.mpr fun e => hx (e ▸ hc)
  rw [takeWhile_append_of_pos hpos, dropWhile_append_of_pos hpos]
  simp

end Veesker
