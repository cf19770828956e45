/-
  File:      Veesker/Text/UpperTwice.lean
  Subject:   `toUpperCase` TWICE: what is in upper case stays as it is.

  The runs of the table are compared with one another: where one moves its characters, no other
  starts from.

  * `toUpperCase_toUpperCase` -- the second time changes nothing.
-/
import Veesker.Text.Upper

namespace Veesker

open List

/-! ## 1. What the runs move to -/

/-- Where a run moves its characters: the first, the last, and 2 where only every second of them
    is met. -/
def imageOf (r : Nat × Nat × Nat × Int) : Nat × Nat × Nat :=
  (((r.1 : Int) + r.2.2.2).toNat, ((r.2.1 : Int) + r.2.2.2).toNat,
    if r.1 = r.2.1 then 2 else r.2.2.1)

/-- No character of the image starts the run: the intervals are apart, or only one of them has
    the even code points. -/
def apart (i : Nat × Nat × Nat) (s : Nat × Nat × Nat × Int) : Bool :=
  Nat.blt i.2.1 s.1 || Nat.blt s.2.1 i.1 ||
    (Nat.beq s.2.2.1 2 && Nat.beq i.2.2 2 && Nat.beq ((i.1 + s.1) % 2) 1)

theorem upperRuns_apart :
    upperRuns.all (fun r => upperRuns.all (apart (imageOf r))) = true := by decide +kernel

set_option maxRecDepth 20000 in
theorem upperSpecials_apart :
    upperRuns.all (fun r => upperSpecials.all fun p =>
      Nat.blt p.1 (imageOf r).1 || Nat.blt (imageOf r).2.1 p.1) = true := by decide

theorem upperSpecials_upper :
    upperSpecials.all (fun p => p.2.all fun u => upperPoint u == [u]) = true := by decide

theorem upperRuns_steps :
    upperRuns.all (fun r => Nat.beq r.2.2.1 1 || Nat.beq r.2.2.1 2) = true := by decide

/-! ## 2. One character -/

/-- A character that a run moved to starts no run. -/
theorem not_in_run {r s : Nat × Nat × Nat × Int} {n : Nat} (ha : apart (imageOf r) s = true)
    (hst : r.2.2.1 = 1 ∨ r.2.2.1 = 2) (h128 : 0 ≤ (r.1 : Int) + r.2.2.2) (h1 : r.1 ≤ n)
    (h2 : n ≤ r.2.1) (h3 : (n - r.1) % r.2.2.1 = 0) :
    ¬ (s.1 ≤ ((n : Int) + r.2.2.2).toNat ∧ ((n : Int) + r.2.2.2).toNat ≤ s.2.1 ∧
      (((n : Int) + r.2.2.2).toNat - s.1) % s.2.2.1 = 0) := by
  obtain ⟨lo, hi, st, d⟩ := r
  obtain ⟨lo', hi', st', d'⟩ := s
  simp only at hst h128 h1 h2 h3
  simp only [apart, imageOf, Nat.blt_eq, Nat.beq_eq, Bool.or_eq_true, Bool.and_eq_true] at ha
  rintro ⟨h4, h5, h6⟩
  simp only at h4 h5 h6
  rcases ha with (ha | ha) | ⟨⟨ha, hb⟩, hc⟩
  · omega
  · omega
  · subst ha
    -- the image keeps to the parity of its first character
    have hpar : ((n : Int) + d).toNat % 2 = ((lo : Int) + d).toNat % 2 := by
      split at hb
      · rename_i he
        have : n = lo := by omega
        rw [this]
      · subst hb
        omega
    omega

/-- **What a code point outside ASCII becomes is in upper case.** -/
theorem upperPoint_upper {n u : Nat} (hu : u ∈ upperPoint n) :
    upperPoint n = [n] ∨ upperPoint u = [u] := by
  unfold upperPoint at hu
  split at hu
  · rename_i us hus
    obtain ⟨l₁, l₂, e, -⟩ := lookup_eq_some_iff.mp hus
    have hmem : (n, us) ∈ upperSpecials := by rw [e]; simp
    have hall := all_eq_true.mp (all_eq_true.mp upperSpecials_upper _ hmem) u hu
    exact Or.inr (eq_of_beq hall)
  · rename_i hn
    split at hu
    · rename_i r hr
      have hmem := mem_of_find?_eq_some hr
      have hp := List.find?_some hr
      simp only [Bool.and_eq_true, decide_eq_true_eq, beq_iff_eq] at hp
      have hst := all_eq_true.mp upperRuns_steps r hmem
      simp only [Bool.or_eq_true, Nat.beq_eq] at hst
      have hgood := all_eq_true.mp upperRuns_good r hmem
      have h0 : 0 ≤ (r.1 : Int) + r.2.2.2 := by
        simp only [goodRun, goodPoint, Bool.or_eq_true, Bool.and_eq_true, decide_eq_true_eq] at hgood
        omega
      obtain rfl := mem_singleton.mp hu
      have hlookup : upperSpecials.lookup ((n : Int) + r.2.2.2).toNat = none := by
        rw [lookup_eq_none_iff]
        intro p hp'
        have hall := all_eq_true.mp (all_eq_true.mp upperSpecials_apart r hmem) p hp'
        simp only [imageOf, Bool.or_eq_true, Nat.blt_eq] at hall
        rw [bne_iff_ne]
        omega
      have hfind : upperRuns.find? (fun s => s.1 ≤ ((n : Int) + r.2.2.2).toNat &&
          ((n : Int) + r.2.2.2).toNat ≤ s.2.1 &&
            (((n : Int) + r.2.2.2).toNat - s.1) % s.2.2.1 == 0) = none := by
        rw [List.find?_eq_none]
        intro s hs hc
        simp only [Bool.and_eq_true, decide_eq_true_eq, beq_iff_eq] at hc
        exact not_in_run (all_eq_true.mp (all_eq_true.mp upperRuns_apart r hmem) s hs)
          hst h0 hp.1.1 hp.1.2 hp.2 ⟨hc.1.1, hc.1.2, hc.2⟩
      refine Or.inr ?_
      unfold upperPoint
      rw [hlookup]
      dsimp only
      rw [hfind]
    · refine Or.inl ?_
      rename_i hr
      unfold upperPoint
      rw [hn]
      dsimp only
      rw [hr]

theorem upperChar_upper {c d : Char} (hd : d ∈ upperChar c) : upperChar d = [d] := by
  by_cases h : c.toNat < 128
  · rw [upperChar_ascii h, mem_singleton] at hd
    rw [hd, upperChar_ascii (toUpper_lt.mpr h), toUpper_toUpper]
  · by_cases hself : upperPoint c.toNat = [c.toNat]
    · have hc : upperChar c = [c] := by
        rw [upperChar, if_neg h, hself, map_singleton, Char.ofNat_toNat]
      rw [hc, mem_singleton] at hd
      rw [hd, hc]
    · rw [upperChar, if_neg h] at hd
      obtain ⟨u, hu, rfl⟩ := mem_map.mp hd
      have hgood := ((upperPoint_cases c.toNat).resolve_left hself).2 u hu
      have hnat := toNat_ofNat_of_good hgood
      by_cases hlt : u < 128
      · -- an upper-case letter
        rw [upperChar_ascii (by omega), toUpper_of_mem_toUpperCase (s := [c])]
        rw [toUpperCase_cons, toUpperCase_nil, append_nil, upperChar, if_neg h]
        exact hd
      · rw [upperChar, if_neg (by omega), hnat, (upperPoint_upper hu).resolve_left hself,
          map_singleton]

/-- **`toUpperCase` twice.** -/
@[simp] theorem toUpperCase_toUpperCase (s : Text) :
    toUpperCase (toUpperCase s) = toUpperCase s := by
  induction s with
  | nil => rfl
  | cons c s ih =>
    have hc : toUpperCase (upperChar c) = upperChar c := by
      have h : ∀ l : Text, (∀ d ∈ l, upperChar d = [d]) → toUpperCase l = l := by
        intro l
        induction l with
        | nil => exact fun _ => rfl
        | cons d l ihl =>
          intro hl
          rw [toUpperCase_cons, hl d mem_cons_self,
            ihl fun x hx => hl x (mem_cons_of_mem _ hx)]
          rfl
      exact h _ fun d hd => upperChar_upper hd
    rw [toUpperCase_cons, toUpperCase_append, ih, hc]

end Veesker
