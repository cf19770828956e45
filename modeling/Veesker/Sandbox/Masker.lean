/-
  File:      Veesker/Sandbox/Masker.lean
  Subject:   THE MASKS (sidecar/src/sandbox/pii/masker.ts) and what a value becomes in a statement.

  The hash of the run time's library is a parameter: the hexadecimal digits of a byte string.

  * `storedValue_eq_masked_iff` -- **which values their mask leaves as they are**.
-/
import Veesker.Sandbox.Detector
import Veesker.Sandbox.Source

namespace Veesker.Sandbox

open Format Vsk Sidecar List

/-! ## 1. The masks -/

/-- `s.slice(n)`; a pair that is cut in two leaves a half, which texts do not hold. -/
def sliceFrom : Nat → Text → Text
  | 0, s => s
  | _ + 1, [] => []
  | n + 1, c :: cs =>
    if c.toNat < 0x10000 then sliceFrom n cs
    else if n = 0 then replacement :: cs
    else sliceFrom (n - 1) cs

structure PartialKeep where
  lead : Nat
  tail : Nat
  deriving DecidableEq

structure MaskInput where
  value : Option Text
  maskType : VskMaskType
  staticValue : Option Text := none
  partialKeep : Option PartialKeep := none
  deriving DecidableEq

def stars (n : Nat) : Text := List.replicate n '*'

def applyMask (sha256Hex : Bytes → Text) (input : MaskInput) : Option Text :=
  match input.value with
  | none => none
  | some value =>
    match input.maskType with
    | .hash => some ((sha256Hex (utf8Bytes value)).take 8)
    | .redact => some "[REDACTED]".toList
    | .static => some (input.staticValue.getD [])
    | .partialMask =>
      let keep := input.partialKeep.getD ⟨0, 0⟩
      let len := utf16Length value
      if len ≤ keep.lead + keep.tail then some (stars len)
      else some (sliceTo keep.lead value ++ stars (len - keep.lead - keep.tail) ++
        sliceFrom (len - keep.tail) value)

/-! ## 2. A value in a statement -/

/-- What the literal of a value stands for (`sqlLiteral` in build.ts): a text loses its zero
    characters, a date what is below a second, and one that is invalid is `NULL`. -/
def storedValue : Value → Value
  | .text s => .text (s.filter (· ≠ '\x00'))
  | .date none _ => .null
  | .date (some iso) s => .date (some (iso.take 19)) s
  | v => v

/-- The value a mask makes of a value. -/
def maskedValue (sha256Hex : Bytes → Text) (maskType : VskMaskType) (v : Value) : Value :=
  match applyMask sha256Hex { value := valueText v, maskType } with
  | none => .null
  | some s => .text s

/-- A text that its mask leaves as it is. -/
def KeptByMask (sha256Hex : Bytes → Text) (s : Text) : VskMaskType → Prop
  | .hash => s.filter (· ≠ '\x00') = (sha256Hex (utf8Bytes s)).take 8
  | .redact => s.filter (· ≠ '\x00') = "[REDACTED]".toList
  | .static => ∀ c ∈ s, c = '\x00'
  | .partialMask => ∀ c ∈ s, c = '*'

theorem length_le_utf16Length (s : Text) : s.length ≤ utf16Length s := by
  induction s with
  | nil => exact Nat.le_refl 0
  | cons c s ih =>
    simp only [utf16Length, map_cons, sum_cons, length_cons] at ih ⊢
    split <;> omega

theorem utf16Length_stars (n : Nat) : utf16Length (stars n) = n := by
  simp [utf16Length, stars]

/-- Only stars are what the stars of their number stand for. -/
theorem filter_eq_stars_iff (s : Text) :
    s.filter (· ≠ '\x00') = stars (utf16Length s) ↔ ∀ c ∈ s, c = '*' := by
  constructor
  · intro h
    have hlen := congrArg List.length h
    rw [stars, length_replicate] at hlen
    have hle := length_filter_le (· ≠ '\x00') s
    have hge := length_le_utf16Length s
    have hall : s.filter (· ≠ '\x00') = s :=
      filter_eq_self.mpr (length_filter_eq_length_iff.mp (by omega))
    rw [hall] at h
    intro c hc
    rw [h] at hc
    exact eq_of_mem_replicate hc
  · intro h
    have hs : s = stars s.length := eq_replicate_iff.mpr ⟨rfl, h⟩
    rw [hs, utf16Length_stars]
    exact filter_eq_self.mpr fun c hc => by
      rw [eq_of_mem_replicate hc]
      decide

theorem applyMask_text (sha256Hex : Bytes → Text) (maskType : VskMaskType) (s : Text) :
    ∃ t, applyMask sha256Hex { value := some s, maskType } = some t ∧
      (s.filter (· ≠ '\x00') = t ↔ KeptByMask sha256Hex s maskType) := by
  cases maskType with
  | hash => exact ⟨_, rfl, Iff.rfl⟩
  | redact => exact ⟨_, rfl, Iff.rfl⟩
  | static => exact ⟨[], rfl, by simp [KeptByMask, filter_eq_nil_iff]⟩
  | partialMask =>
    refine ⟨stars (utf16Length s), ?_, filter_eq_stars_iff s⟩
    simp only [applyMask, Option.getD_none, Nat.add_zero]
    split
    · rfl
    · -- nothing is kept of the text: no head, and no tail behind its whole length
      have hs : ∀ t : Text, sliceFrom (utf16Length t) t = [] := by
        intro t
        induction t with
        | nil => rfl
        | cons c t ih =>
          have e : utf16Length (c :: t) = (if 0xFFFF < c.toNat then 2 else 1) + utf16Length t := by
            simp [utf16Length]
          rw [e]
          by_cases hc : 0xFFFF < c.toNat
          · rw [if_pos hc, show 2 + utf16Length t = (utf16Length t + 1) + 1 by omega, sliceFrom,
              if_neg (by omega), if_neg (by omega)]
            exact ih
          · rw [if_neg hc, Nat.add_comm, sliceFrom, if_pos (by omega)]
            exact ih
      have hl : sliceTo 0 s = [] := by
        cases s with
        | nil => rfl
        | cons c s => simp [sliceTo]
      rw [Nat.sub_zero, Nat.sub_zero, hs, hl]
      simp

/-- **Which values their mask leaves as they are**: `null`, and the texts the mask keeps. -/
theorem storedValue_eq_masked_iff (sha256Hex : Bytes → Text) (maskType : VskMaskType) (v : Value) :
    storedValue v = maskedValue sha256Hex maskType v ↔
      v = .null ∨ ∃ s, v = .text s ∧ KeptByMask sha256Hex s maskType := by
  have hmask : ∀ s, valueText v = some s → ∃ t, maskedValue sha256Hex maskType v = .text t := by
    intro s hs
    obtain ⟨t, ht, -⟩ := applyMask_text sha256Hex maskType s
    exact ⟨t, by rw [maskedValue, hs, ht]⟩
  cases v with
  | null => exact ⟨fun _ => .inl rfl, fun _ => rfl⟩
  | text s =>
    obtain ⟨t, ht, hk⟩ := applyMask_text sha256Hex maskType s
    have e : maskedValue sha256Hex maskType (.text s) = .text t := by rw [maskedValue, valueText, ht]
    rw [e, storedValue]
    constructor
    · intro h
      exact .inr ⟨s, rfl, hk.mp (Value.text.inj h)⟩
    · rintro (h | ⟨s', h, hs⟩)
      · cases h
      · cases h
        exact congrArg Value.text (hk.mpr hs)
  | number s =>
    obtain ⟨t, e⟩ := hmask s rfl
    simp [storedValue, e]
  | boolean b =>
    obtain ⟨t, e⟩ := hmask _ rfl
    simp [storedValue, e]
  | date iso s =>
    obtain ⟨t, e⟩ := hmask s rfl
    cases iso <;> simp [storedValue, e]
  | bytes b s =>
    obtain ⟨t, e⟩ := hmask s rfl
    simp [storedValue, e]

example : applyMask (fun _ => []) ⟨some "12345678909".toList, .partialMask, none, some ⟨0, 2⟩⟩ =
    some "*********09".toList := by decide

end Veesker.Sandbox
