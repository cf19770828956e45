/-
  File:      Veesker/Format/Base64.lean
  Subject:   BASE64, with padding.

  `base64Text bs` groups the bytes by three and pads the last group; `base64Bytes t` reads both
  alphabets, passes over every other character and stops at the first `=`.
  `base64Bytes_base64Text`: what was written is read back.

  Nothing here names the repository.
-/
import Veesker.Format.Bytes

namespace Veesker.Format

open List

/-! ## 1. Groups of six bits -/

/-- The groups of six bits of a byte string; the last one is filled up with zeros. -/
def sextets : Bytes → List Nat
  | [] => []
  | [x] => [x.toNat / 4, x.toNat % 4 * 16]
  | [x, y] => [x.toNat / 4, x.toNat % 4 * 16 + y.toNat / 16, y.toNat % 16 * 4]
  | x :: y :: z :: bs =>
    x.toNat / 4 :: (x.toNat % 4 * 16 + y.toNat / 16) :: (y.toNat % 16 * 4 + z.toNat / 64) ::
      z.toNat % 64 :: sextets bs

/-- The whole bytes of groups of six bits. -/
def ofSextets : List Nat → Bytes
  | a :: b :: c :: d :: r =>
    UInt8.ofNat (a * 4 + b / 16) :: UInt8.ofNat (b % 16 * 16 + c / 4) ::
      UInt8.ofNat (c % 4 * 64 + d) :: ofSextets r
  | [a, b, c] => [UInt8.ofNat (a * 4 + b / 16), UInt8.ofNat (b % 16 * 16 + c / 4)]
  | [a, b] => [UInt8.ofNat (a * 4 + b / 16)]
  | _ => []

theorem sextets_lt : ∀ (bs : Bytes), ∀ n ∈ sextets bs, n < 64
  | [], _, h => absurd h not_mem_nil
  | [x], n, h => by
    have hx := x.toNat_lt
    simp only [sextets, mem_cons, not_mem_nil, or_false] at h
    omega
  | [x, y], n, h => by
    have hx := x.toNat_lt
    have hy := y.toNat_lt
    simp only [sextets, mem_cons, not_mem_nil, or_false] at h
    omega
  | x :: y :: z :: bs, n, h => by
    have hx := x.toNat_lt
    have hy := y.toNat_lt
    simp only [sextets, mem_cons] at h
    rcases h with h | h | h | h | h
    · omega
    · omega
    · have := z.toNat_lt
      omega
    · omega
    · exact sextets_lt bs n h

theorem ofSextets_sextets : ∀ bs : Bytes, ofSextets (sextets bs) = bs
  | [] => rfl
  | [x] => by
    have hx := x.toNat_lt
    rw [sextets, ofSextets, ofNat_eq_byte (b := x) (by omega)]
  | [x, y] => by
    have hx := x.toNat_lt
    have hy := y.toNat_lt
    rw [sextets, ofSextets, ofNat_eq_byte (b := x) (by omega), ofNat_eq_byte (b := y) (by omega)]
  | x :: y :: z :: bs => by
    have hx := x.toNat_lt
    have hy := y.toNat_lt
    have hz := z.toNat_lt
    rw [sextets, ofSextets, ofSextets_sextets bs, ofNat_eq_byte (b := x) (by omega),
      ofNat_eq_byte (b := y) (by omega), ofNat_eq_byte (b := z) (by omega)]

/-! ## 2. Characters -/

def base64Alphabet : Text :=
  "ABCDEFGHIJKLMNOPQRSTUVWXYZabcdefghijklmnopqrstuvwxyz0123456789+/".toList

def sextetChar (n : Nat) : Char := base64Alphabet.getD n 'A'

/-- The value of a character of either alphabet. -/
def charSextet (c : Char) : Option Nat :=
  if c = '-' then some 62
  else if c = '_' then some 63
  else base64Alphabet.idxOf? c

def padding (length : Nat) : Text :=
  if length % 3 = 1 then ['=', '='] else if length % 3 = 2 then ['='] else []

/-- `Buffer.from(bytes).toString("base64")`. -/
def base64Text (bs : Bytes) : Text := (sextets bs).map sextetChar ++ padding bs.length

/-- `Buffer.from(text, "base64")`. -/
def base64Bytes (t : Text) : Bytes := ofSextets ((t.takeWhile (· != '=')).filterMap charSextet)

set_option maxRecDepth 20000 in
theorem charSextet_sextetChar :
    ∀ n < 64, charSextet (sextetChar n) = some n ∧ (sextetChar n != '=') = true := by
  decide

/-- **What was written is read back.** -/
theorem base64Bytes_base64Text (bs : Bytes) : base64Bytes (base64Text bs) = bs := by
  have hpad : (padding bs.length).takeWhile (· != '=') = [] := by
    unfold padding
    split
    · rfl
    · split <;> rfl
  have hall : ∀ c ∈ (sextets bs).map sextetChar, (c != '=') = true := by
    intro c hc
    obtain ⟨n, hn, rfl⟩ := mem_map.mp hc
    exact (charSextet_sextetChar n (sextets_lt bs n hn)).2
  have hvals : ((sextets bs).map sextetChar).filterMap charSextet = sextets bs := by
    rw [filterMap_map]
    have : ∀ n ∈ sextets bs, (charSextet ∘ sextetChar) n = some n := fun n hn =>
      (charSextet_sextetChar n (sextets_lt bs n hn)).1
    rw [filterMap_congr this, filterMap_some]
  rw [base64Bytes, base64Text, takeWhile_append_of_pos hall, hpad, append_nil, hvals,
    ofSextets_sextets]

end Veesker.Format
