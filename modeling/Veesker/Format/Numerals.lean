/-
  File:      Veesker/Format/Numerals.lean
  Subject:   NUMBERS OF A FIXED AND OF A FLOATING POINT, as sets of rational numbers.

  * `Fixed p s` -- `p` digits, `s` of them behind the point; a negative `s` counts zeros in front
    of it.
  * `Floating base digits lo hi` -- a significand of so many digits times a power of the base that
    is at least `lo`, below the power `hi`.
  * `fixed_subset_iff` -- **when one fixed format holds another**.
  * `floating_tenth`, `not_floating_two` -- a tenth is decimal and not binary.

  Nothing here names the repository.
-/
import Mathlib

namespace Veesker.Format

/-! ## 1. The fixed point -/

def Fixed (p : Nat) (s : Int) : Set ℚ :=
  {q | ∃ m : Int, |m| < 10 ^ p ∧ q = m * (10 : ℚ) ^ (-s)}

theorem zero_fixed (p : Nat) (s : Int) : (0 : ℚ) ∈ Fixed p s :=
  ⟨0, by simp, by simp⟩

/-- The unit of the last place. -/
theorem unit_fixed {p : Nat} (hp : 0 < p) (s : Int) : (10 : ℚ) ^ (-s) ∈ Fixed p s := by
  refine ⟨1, ?_, by simp⟩
  rw [abs_one]
  exact one_lt_pow₀ (by norm_num) (by omega)

/-- One in the first place. -/
theorem first_fixed {p : Nat} (hp : 0 < p) (s : Int) :
    (10 : ℚ) ^ ((p : Int) - 1 - s) ∈ Fixed p s := by
  refine ⟨10 ^ (p - 1), ?_, ?_⟩
  · rw [abs_of_nonneg (by positivity)]
    exact pow_lt_pow_right₀ (by norm_num) (by omega)
  · have hexp : (p : Int) - 1 - s = ((p - 1 : Nat) : Int) + -s := by omega
    rw [hexp, zpow_add₀ (by norm_num)]
    push_cast
    rw [zpow_natCast]

theorem fixed_lt {p : Nat} {s : Int} {q : ℚ} (h : q ∈ Fixed p s) :
    |q| < (10 : ℚ) ^ ((p : Int) - s) := by
  obtain ⟨m, hm, rfl⟩ := h
  have hpos : (0 : ℚ) < 10 ^ (-s) := by positivity
  rw [abs_mul, abs_of_pos hpos, sub_eq_add_neg, zpow_add₀ (by norm_num), zpow_natCast]
  exact mul_lt_mul_of_pos_right (by exact_mod_cast hm) hpos

/-- **A fixed format is held by another** if it has no digit, or if the other has as many places
    behind the point and as many in front of it. -/
theorem fixed_subset_iff {p p' : Nat} {s s' : Int} :
    Fixed p s ⊆ Fixed p' s' ↔ p = 0 ∨ (s ≤ s' ∧ (p : Int) - s ≤ p' - s') := by
  constructor
  · intro h
    by_cases hp : p = 0
    · exact .inl hp
    have hp : 0 < p := Nat.pos_of_ne_zero hp
    right
    constructor
    · -- the unit of the last place is a whole number of the other's units
      obtain ⟨m, -, hm⟩ := h (unit_fixed hp s)
      have hpow : (10 : ℚ) ^ (s' - s) = m := by
        rw [sub_eq_add_neg, zpow_add₀ (by norm_num), hm, mul_comm, mul_assoc,
          ← zpow_add₀ (by norm_num), neg_add_cancel, zpow_zero, mul_one]
      by_contra hlt
      have hlt1 : (10 : ℚ) ^ (s' - s) < 1 := zpow_lt_one_of_neg₀ (by norm_num) (by omega)
      have hpos : (0 : ℚ) < 10 ^ (s' - s) := by positivity
      rw [hpow] at hlt1 hpos
      have h1 : m < 1 := by exact_mod_cast hlt1
      have h0 : 0 < m := by exact_mod_cast hpos
      omega
    · have hlt := fixed_lt (h (first_fixed hp s))
      rw [abs_of_pos (by positivity)] at hlt
      have := (zpow_lt_zpow_iff_right₀ (by norm_num : (1 : ℚ) < 10)).mp hlt
      omega
  · intro h q hq
    obtain ⟨m, hm, rfl⟩ := hq
    rcases h with rfl | ⟨hs, hp⟩
    · obtain rfl : m = 0 := by simpa using hm
      exact ⟨0, by simp, by simp⟩
    · obtain ⟨k, hk⟩ := Int.eq_ofNat_of_zero_le (sub_nonneg.mpr hs)
      refine ⟨m * 10 ^ k, ?_, ?_⟩
      · rw [abs_mul, abs_of_pos (by positivity : (0 : Int) < 10 ^ k)]
        calc |m| * 10 ^ k < 10 ^ p * 10 ^ k := mul_lt_mul_of_pos_right hm (by positivity)
          _ = 10 ^ (p + k) := (pow_add _ _ _).symm
          _ ≤ 10 ^ p' := pow_le_pow_right₀ (by norm_num) (by omega)
      · have hexp : -s = (k : Int) + -s' := by omega
        rw [hexp, zpow_add₀ (by norm_num)]
        push_cast
        rw [zpow_natCast, mul_assoc]

/-! ## 2. The floating point -/

def Floating (base digits : Nat) (lo hi : Int) : Set ℚ :=
  {q | ∃ m e : Int, |m| < base ^ digits ∧ lo ≤ e ∧ q = m * (base : ℚ) ^ e ∧ |q| < (base : ℚ) ^ hi}

theorem zero_floating {base : Nat} (hb : 0 < base) (digits : Nat) (lo hi : Int) :
    (0 : ℚ) ∈ Floating base digits lo hi := by
  have hb' : (0 : Int) < base := by exact_mod_cast hb
  have hq : (0 : ℚ) < base := by exact_mod_cast hb
  refine ⟨0, lo, ?_, le_rfl, by simp, ?_⟩
  · rw [abs_zero]
    positivity
  · rw [abs_zero]
    positivity

/-- Without digits there is only zero. -/
theorem floating_no_digits {base : Nat} {lo hi : Int} {q : ℚ} (h : q ∈ Floating base 0 lo hi) :
    q = 0 := by
  obtain ⟨m, e, hm, -, rfl, -⟩ := h
  obtain rfl : m = 0 := by simpa using hm
  simp

theorem floating_tenth {digits : Nat} {lo hi : Int} (hd : 0 < digits) (hlo : lo ≤ -1)
    (hhi : 0 ≤ hi) : (1 / 10 : ℚ) ∈ Floating 10 digits lo hi := by
  refine ⟨1, -1, ?_, hlo, by norm_num, ?_⟩
  · rw [abs_one]
    exact one_lt_pow₀ (by norm_num) (by omega)
  · calc |(1 / 10 : ℚ)| < 1 := by norm_num [abs_of_pos]
      _ ≤ ((10 : Nat) : ℚ) ^ hi := one_le_zpow₀ (by norm_num) hhi

/-- A tenth is no fraction of a power of two. -/
theorem not_floating_two {digits : Nat} {lo hi : Int} :
    (1 / 10 : ℚ) ∉ Floating 2 digits lo hi := by
  intro h
  obtain ⟨m, e, -, -, he, -⟩ := h
  have hclear : (2 : ℚ) ^ (-e) = m * 10 := by
    have h2 : (2 : ℚ) ^ e ≠ 0 := by positivity
    rw [zpow_neg]
    field_simp
    push_cast at he
    linarith
  rcases le_total 0 (-e) with hneg | hpos
  · obtain ⟨k, hk⟩ := Int.eq_ofNat_of_zero_le hneg
    rw [hk, zpow_natCast] at hclear
    have hint : (2 : Int) ^ k = m * 10 := by exact_mod_cast hclear
    have h5 : (5 : Int) ∣ 2 ^ k := ⟨m * 2, by rw [hint]; ring⟩
    have := Int.Prime.dvd_pow' (by norm_num : Nat.Prime 5) h5
    omega
  · -- a power of two that is at most one is no multiple of ten
    have hle : (2 : ℚ) ^ (-e) ≤ 1 := zpow_le_one_of_nonpos₀ (by norm_num) hpos
    have h0 : (0 : ℚ) < 2 ^ (-e) := by positivity
    rw [hclear] at hle h0
    have h1 : m * 10 ≤ 1 := by exact_mod_cast hle
    have h2 : 0 < m * 10 := by exact_mod_cast h0
    omega

end Veesker.Format
