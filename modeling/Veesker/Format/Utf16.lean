/-
  File:      Veesker/Format/Utf16.lean
  Subject:   STRINGS AS CODE UNITS, and what an encoder makes of surrogates that stand alone.

  * `scalarValues` -- the characters of a string, a surrogate without its other half replaced;
    `units` -- the code units of a text.
  * `scalarValues_units_append` -- what was written as units is read back.
  * `replacement_notMem_iff` -- **nothing was replaced**: exactly the strings whose surrogates all
    come in pairs, unless the replacement itself stands there; `units_scalarValues` reads such a
    string back.

  Nothing here names the repository.
-/
import Veesker.Format.Bytes

namespace Veesker.Format

open List

/-! ## 1. Surrogates -/

/-- A string as its code units. -/
abbrev Utf16 := List UInt16

def isHigh (u : UInt16) : Bool := decide (0xD800 ≤ u.toNat) && decide (u.toNat < 0xDC00)

def isLow (u : UInt16) : Bool := decide (0xDC00 ≤ u.toNat) && decide (u.toNat < 0xE000)

/-- The character of two halves. -/
def joined (high low : UInt16) : Char :=
  Char.ofNat (0x10000 + (high.toNat - 0xD800) * 0x400 + (low.toNat - 0xDC00))

/-- The character of a unit that has no other half. -/
def single (u : UInt16) : Char :=
  if isHigh u || isLow u then replacement else Char.ofNat u.toNat

/-- The characters of a string, as an encoder takes them. -/
def scalarValues : Utf16 → Text
  | [] => []
  | [u] => [single u]
  | u :: v :: us =>
    if isHigh u && isLow v then joined u v :: scalarValues us
    else single u :: scalarValues (v :: us)

def unitsOf (c : Char) : Utf16 :=
  if c.toNat < 0x10000 then [UInt16.ofNat c.toNat]
  else [UInt16.ofNat (0xD800 + (c.toNat - 0x10000) / 0x400),
    UInt16.ofNat (0xDC00 + (c.toNat - 0x10000) % 0x400)]

def units (t : Text) : Utf16 := t.flatMap unitsOf

/-- Every surrogate has its other half. -/
inductive WellFormed : Utf16 → Prop where
  | nil : WellFormed []
  | single {u : UInt16} {us : Utf16} (hhigh : isHigh u = false) (hlow : isLow u = false)
      (hus : WellFormed us) : WellFormed (u :: us)
  | pair {high low : UInt16} {us : Utf16} (hhigh : isHigh high = true) (hlow : isLow low = true)
      (hus : WellFormed us) : WellFormed (high :: low :: us)

/-! ## 2. One character -/

variable {u : UInt16}

theorem isHigh_iff : isHigh u = true ↔ 0xD800 ≤ u.toNat ∧ u.toNat < 0xDC00 := by
  simp [isHigh]

theorem isLow_iff : isLow u = true ↔ 0xDC00 ≤ u.toNat ∧ u.toNat < 0xE000 := by
  simp [isLow]

theorem toNat_ofNat_unit {n : Nat} (h : n < 0x10000) : (UInt16.ofNat n).toNat = n := by
  rw [UInt16.toNat_ofNat']
  exact Nat.mod_eq_of_lt h

theorem unit_lt (u : UInt16) : u.toNat < 0x10000 := u.toNat_lt

theorem eq_ofNat_unit {n : Nat} (h : n = u.toNat) : UInt16.ofNat n = u := by
  rw [h, UInt16.ofNat_toNat]

variable {high low : UInt16}

theorem toNat_joined (hh : isHigh high = true) (hl : isLow low = true) :
    (joined high low).toNat = 0x10000 + (high.toNat - 0xD800) * 0x400 + (low.toNat - 0xDC00) := by
  rw [isHigh_iff] at hh
  rw [isLow_iff] at hl
  exact toNat_ofNat_char (Or.inr ⟨by omega, by omega⟩)

theorem toNat_single (hh : isHigh u = false) (hl : isLow u = false) :
    (single u).toNat = u.toNat := by
  have hlt := unit_lt u
  have h1 : ¬ (0xD800 ≤ u.toNat ∧ u.toNat < 0xDC00) := fun h => by
    rw [← isHigh_iff, hh] at h
    cases h
  have h2 : ¬ (0xDC00 ≤ u.toNat ∧ u.toNat < 0xE000) := fun h => by
    rw [← isLow_iff, hl] at h
    cases h
  rw [single, hh, hl]
  refine toNat_ofNat_char ?_
  show u.toNat < 0xD800 ∨ 0xDFFF < u.toNat ∧ u.toNat < 0x110000
  omega

theorem single_surrogate (h : isHigh u = true ∨ isLow u = true) :
    single u = replacement := by
  rw [single, if_pos (by simpa using h)]

theorem unitsOf_joined (hh : isHigh high = true) (hl : isLow low = true) :
    unitsOf (joined high low) = [high, low] := by
  have e := toNat_joined hh hl
  rw [isHigh_iff] at hh
  rw [isLow_iff] at hl
  rw [unitsOf, e, if_neg (by omega), eq_ofNat_unit (u := high) (by omega),
    eq_ofNat_unit (u := low) (by omega)]

theorem unitsOf_single (hh : isHigh u = false) (hl : isLow u = false) :
    unitsOf (single u) = [u] := by
  have e := toNat_single hh hl
  rw [unitsOf, e, if_pos (unit_lt u), eq_ofNat_unit rfl]

theorem joined_ne_replacement (hh : isHigh high = true)
    (hl : isLow low = true) : joined high low ≠ replacement := by
  intro h
  have e := toNat_joined hh hl
  rw [h] at e
  have hr : replacement.toNat = 0xFFFD := by decide
  omega

theorem single_eq_replacement (hh : isHigh u = false) (hl : isLow u = false) :
    single u = replacement ↔ u = 0xFFFD := by
  have e := toNat_single hh hl
  have hr : replacement.toNat = 0xFFFD := by decide
  constructor
  · intro h
    rw [h, hr] at e
    exact UInt16.toNat_inj.mp e.symm
  · rintro rfl
    rfl

/-! ## 3. Reading -/

@[simp] theorem scalarValues_nil : scalarValues [] = [] := rfl

theorem scalarValues_single (hh : isHigh u = false) (us : Utf16) :
    scalarValues (u :: us) = single u :: scalarValues us := by
  cases us with
  | nil => rfl
  | cons v us => simp only [scalarValues, hh, Bool.false_and, Bool.false_eq_true, if_false]

theorem scalarValues_pair (hh : isHigh high = true) (hl : isLow low = true)
    (us : Utf16) : scalarValues (high :: low :: us) = joined high low :: scalarValues us := by
  simp only [scalarValues, hh, hl, Bool.and_self, if_true]

theorem high_of_ofNat {n : Nat} (h1 : 0xD800 ≤ n) (h2 : n < 0xDC00) :
    isHigh (UInt16.ofNat n) = true := by
  rw [isHigh_iff, toNat_ofNat_unit (by omega)]
  exact ⟨h1, h2⟩

theorem low_of_ofNat {n : Nat} (h1 : 0xDC00 ≤ n) (h2 : n < 0xE000) :
    isLow (UInt16.ofNat n) = true := by
  rw [isLow_iff, toNat_ofNat_unit (by omega)]
  exact ⟨h1, h2⟩

/-- **A character is read back**, whatever follows. -/
theorem scalarValues_unitsOf (c : Char) (us : Utf16) :
    scalarValues (unitsOf c ++ us) = c :: scalarValues us := by
  have hc : c.toNat < 0xD800 ∨ 0xDFFF < c.toNat ∧ c.toNat < 0x110000 := c.valid
  rw [unitsOf]
  split
  · rename_i h
    have hu := toNat_ofNat_unit h
    have hh : isHigh (UInt16.ofNat c.toNat) = false := by
      rw [Bool.eq_false_iff, Ne, isHigh_iff, hu]
      omega
    have hl : isLow (UInt16.ofNat c.toNat) = false := by
      rw [Bool.eq_false_iff, Ne, isLow_iff, hu]
      omega
    rw [singleton_append, scalarValues_single hh]
    congr 1
    exact Char.toNat_inj.mp ((toNat_single hh hl).trans hu)
  · rename_i h
    have hh := high_of_ofNat (n := 0xD800 + (c.toNat - 0x10000) / 0x400) (by omega) (by omega)
    have hl := low_of_ofNat (n := 0xDC00 + (c.toNat - 0x10000) % 0x400) (by omega) (by omega)
    have hback := toNat_joined hh hl
    rw [toNat_ofNat_unit (by omega), toNat_ofNat_unit (by omega)] at hback
    have hsum : 0x10000 + (0xD800 + (c.toNat - 0x10000) / 0x400 - 0xD800) * 0x400 +
        (0xDC00 + (c.toNat - 0x10000) % 0x400 - 0xDC00) = c.toNat := by
      omega
    rw [cons_append, singleton_append, scalarValues_pair hh hl,
      Char.toNat_inj.mp (hback.trans hsum)]

@[simp] theorem units_nil : units [] = [] := rfl

@[simp] theorem units_cons (c : Char) (t : Text) : units (c :: t) = unitsOf c ++ units t := rfl

@[simp] theorem units_append (s t : Text) : units (s ++ t) = units s ++ units t :=
  flatMap_append

/-- **What was written as units is read back**, whatever follows. -/
theorem scalarValues_units_append (t : Text) (us : Utf16) :
    scalarValues (units t ++ us) = t ++ scalarValues us := by
  induction t with
  | nil => rfl
  | cons c t ih => rw [units_cons, append_assoc, scalarValues_unitsOf, ih, cons_append]

theorem scalarValues_units (t : Text) : scalarValues (units t) = t := by
  simpa using scalarValues_units_append t []

/-! ## 4. What is replaced -/

theorem WellFormed.scalarValues {s : Utf16} (h : WellFormed s) :
    units (scalarValues s) = s ∧ (replacement ∈ Format.scalarValues s ↔ 0xFFFD ∈ s) := by
  induction h with
  | nil => exact ⟨rfl, by simp⟩
  | single hh hl hus ih =>
    rw [scalarValues_single hh, units_cons, unitsOf_single hh hl, ih.1]
    refine ⟨rfl, ?_⟩
    rw [mem_cons, mem_cons, ih.2, eq_comm, single_eq_replacement hh hl, eq_comm]
  | pair hh hl hus ih =>
    rw [scalarValues_pair hh hl, units_cons, unitsOf_joined hh hl, ih.1]
    refine ⟨rfl, ?_⟩
    have h1 := joined_ne_replacement hh hl
    rw [isHigh_iff] at hh
    rw [isLow_iff] at hl
    rw [mem_cons, mem_cons, mem_cons, ih.2]
    constructor
    · intro h
      exact .inr (.inr (h.resolve_left h1.symm))
    · intro h
      rcases h with rfl | rfl | h
      · exact absurd hh (by decide)
      · exact absurd hl (by decide)
      · exact .inr h

theorem wellFormed_of_notMem : ∀ s : Utf16, replacement ∉ scalarValues s → WellFormed s
  | [], _ => .nil
  | [u], h => by
    rw [scalarValues, mem_singleton] at h
    refine .single ?_ ?_ .nil
    · rw [Bool.eq_false_iff]
      exact fun hu => h (single_surrogate (.inl hu)).symm
    · rw [Bool.eq_false_iff]
      exact fun hu => h (single_surrogate (.inr hu)).symm
  | u :: v :: us, h => by
    rw [scalarValues] at h
    split at h
    · rename_i hp
      obtain ⟨hu, hv⟩ := Bool.and_eq_true_iff.mp hp
      exact .pair hu hv (wellFormed_of_notMem us fun hm => h (mem_cons_of_mem _ hm))
    · rename_i hp
      rw [mem_cons, not_or] at h
      refine .single ?_ ?_ (wellFormed_of_notMem (v :: us) h.2)
      · rw [Bool.eq_false_iff]
        exact fun hu => h.1 (single_surrogate (.inl hu)).symm
      · rw [Bool.eq_false_iff]
        exact fun hu => h.1 (single_surrogate (.inr hu)).symm

/-- **Nothing was replaced**, and the replacement does not stand there itself. -/
theorem replacement_notMem_iff {s : Utf16} :
    replacement ∉ scalarValues s ↔ WellFormed s ∧ 0xFFFD ∉ s := by
  constructor
  · intro h
    have hw := wellFormed_of_notMem s h
    exact ⟨hw, fun hm => h (hw.scalarValues.2.mpr hm)⟩
  · intro h hm
    exact h.2 (h.1.scalarValues.2.mp hm)

theorem units_scalarValues {s : Utf16} (h : WellFormed s) : units (scalarValues s) = s :=
  h.scalarValues.1

/-- Where something was replaced, another string is read as the same text. -/
theorem exists_scalarValues_eq {s : Utf16} (h : replacement ∈ scalarValues s) :
    ∃ s', s' ≠ s ∧ scalarValues s' = scalarValues s := by
  by_cases hs : units (scalarValues s) = s
  · -- the replacement stands in the string itself: a lone surrogate is read as it
    obtain ⟨p, q, hpq⟩ := append_of_mem h
    have hlow : isHigh 0xDC00 = false := by decide
    refine ⟨units p ++ 0xDC00 :: units q, ?_, ?_⟩
    · intro e
      have hcut : (units p ++ 0xDC00 :: units q) = units p ++ 0xFFFD :: units q := by
        rw [e]
        conv_lhs => rw [← hs, hpq]
        rw [units_append, units_cons]
        rfl
      exact absurd (List.cons.inj (append_cancel_left hcut)).1 (by decide)
    · rw [scalarValues_units_append, scalarValues_single hlow, scalarValues_units, hpq]
      rfl
  · exact ⟨units (scalarValues s), hs, scalarValues_units _⟩

theorem zero_mem_iff : ∀ s : Utf16, 0 ∈ s ↔ '\x00' ∈ scalarValues s
  | [] => by simp
  | [u] => by
    rw [scalarValues, mem_singleton, mem_singleton]
    exact zero_eq_iff u
  | u :: v :: us => by
    have ih := zero_mem_iff us
    have ih' := zero_mem_iff (v :: us)
    rw [scalarValues]
    split
    · rename_i hp
      obtain ⟨hu, hv⟩ := Bool.and_eq_true_iff.mp hp
      have e := toNat_joined hu hv
      rw [isHigh_iff] at hu
      rw [isLow_iff] at hv
      rw [mem_cons, mem_cons, mem_cons, ih]
      constructor
      · intro h
        rcases h with rfl | rfl | h
        · exact absurd hu (by decide)
        · exact absurd hv (by decide)
        · exact .inr h
      · intro h
        refine .inr (.inr (h.resolve_left fun h => ?_))
        rw [← h] at e
        have h0 : '\x00'.toNat = 0 := rfl
        omega
    · have hcons : (0 : UInt16) ∈ u :: v :: us ↔ 0 = u ∨ 0 ∈ v :: us := mem_cons
      rw [hcons, ih', zero_eq_iff u, ← mem_cons]
where
  zero_eq_iff (u : UInt16) : 0 = u ↔ '\x00' = single u := by
    constructor
    · rintro rfl
      rfl
    · intro h
      by_cases hs : isHigh u = true ∨ isLow u = true
      · rw [single_surrogate hs] at h
        exact absurd h (by decide)
      · rw [not_or, Bool.not_eq_true, Bool.not_eq_true] at hs
        have e := toNat_single hs.1 hs.2
        rw [← h] at e
        exact UInt16.toNat_inj.mp e

end Veesker.Format
