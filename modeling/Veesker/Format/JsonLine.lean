/-
  File:      Veesker/Format/JsonLine.lean
  Subject:   A JSON TEXT ON ONE LINE, and the integers in decimal.

  * `stringify_line` -- a written value has no line feed: in a string it is escaped.

  Nothing here names the repository.
-/
import Veesker.Format.Json

namespace Veesker.Format

theorem quoteChar_line (c : Char) : '\n' ∉ quoteChar c := by
  unfold quoteChar
  split_ifs with h1 h2 h3 h4 h5 h6 h7 h8
  all_goals try decide
  · have hhex : ∀ n < 16, '\n' ≠ hexChar n := by decide
    have hhigh := hhex (c.toNat / 16) (by omega)
    have hlow := hhex (c.toNat % 16) (by omega)
    simp [hhigh, hlow]
  · simpa using Ne.symm h5

theorem quote_line (s : Text) : '\n' ∉ quote s := by
  have hchars : '\n' ∉ s.flatMap quoteChar := fun h => by
    obtain ⟨c, -, hc⟩ := List.mem_flatMap.mp h
    exact quoteChar_line c hc
  simp [quote, hchars]

section

variable {ν : Type} {N : Numbers ν}

theorem number_line {n : ν} (h : N.finite n = true) : '\n' ∉ N.text n := fun hn =>
  absurd (List.all_eq_true.mp (N.chars_text n h) _ hn) (by decide)

mutual

/-- **A written value is on one line.** -/
theorem stringify_line : ∀ v : Json ν, '\n' ∉ stringify N v
  | .null => by
    rw [stringify]
    decide
  | .bool true => by
    rw [stringify]
    decide
  | .bool false => by
    rw [stringify]
    decide
  | .num n => by
    rw [stringify]
    split
    · exact number_line ‹_›
    · decide
  | .str s => by
    rw [stringify]
    exact quote_line s
  | .arr items => by
    rw [stringify]
    simpa using stringifyItems_line items
  | .obj members => by
    rw [stringify]
    simpa using stringifyMembers_line members

theorem stringifyItems_line : ∀ items : List (Json ν), '\n' ∉ stringifyItems N items
  | [] => by simp [stringifyItems]
  | [v] => by
    rw [stringifyItems]
    exact stringify_line v
  | v :: w :: vs => by
    rw [stringifyItems]
    simpa using ⟨stringify_line v, stringifyItems_line (w :: vs)⟩

theorem stringifyMembers_line : ∀ ms : List (Text × Json ν), '\n' ∉ stringifyMembers N ms
  | [] => by simp [stringifyMembers]
  | [(k, v)] => by
    rw [stringifyMembers]
    simpa using ⟨quote_line k, stringify_line v⟩
  | (k, v) :: w :: ms => by
    rw [stringifyMembers]
    simpa using ⟨quote_line k, stringify_line v, stringifyMembers_line (w :: ms)⟩

end

end

/-! ## Integers -/

/-- The digits of a number have no sign. -/
theorem toDigits_unsigned (n : Nat) : (Nat.toDigits 10 n).head? ≠ some '-' := by
  intro h
  have hdigit := digit_of_mem_toDigits (List.mem_of_mem_head? h)
  exact absurd hdigit (by decide)

def decimalText (n : Int) : Text :=
  if n < 0 then '-' :: Nat.toDigits 10 n.natAbs else Nat.toDigits 10 n.natAbs

def readInt (t : Text) : Int :=
  if t.head? = some '-' then -(Nat.ofDigitChars 10 t.tail 0 : Nat)
  else (Nat.ofDigitChars 10 t 0 : Nat)

theorem isNumber_neg {t : Text} (h : t.head? ≠ some '-') : isNumber ('-' :: t) = isNumber t := by
  unfold isNumber
  rw [if_neg h]
  rfl

/-- The integers, in decimal. -/
def intNumbers : Numbers Int where
  text := decimalText
  read := readInt
  finite _ := true
  Exact _ := True
  finite_of_exact _ _ := rfl
  number_text n _ := by
    unfold decimalText
    split
    · rw [isNumber_neg (toDigits_unsigned _), isNumber_toDigits]
    · exact isNumber_toDigits _
  chars_text n _ := by
    have hdigits : ∀ c ∈ Nat.toDigits 10 n.natAbs, isNumberChar c = true := fun c hc => by
      rw [isNumberChar, digit_of_mem_toDigits hc]
      rfl
    unfold decimalText
    split
    · exact List.all_eq_true.mpr (List.forall_mem_cons.mpr ⟨by decide, hdigits⟩)
    · exact List.all_eq_true.mpr hdigits
  read_text n _ := by
    unfold decimalText readInt
    split
    · rw [List.head?_cons, if_pos rfl, List.tail_cons, Nat.ofDigitChars_ten_toDigits]
      omega
    · rw [if_neg (toDigits_unsigned _), Nat.ofDigitChars_ten_toDigits]
      omega

end Veesker.Format
