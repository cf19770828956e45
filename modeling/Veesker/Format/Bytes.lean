/-
  File:      Veesker/Format/Bytes.lean
  Subject:   BYTE STRINGS: fixed-width integers and UTF-8.

  * `leBytes w n`, `leNat bs` -- the `w` little-endian bytes of a number and the number of a byte
    string, with the two round trips (`leNat_leBytes`, `leBytes_leNat`).
  * `utf8Bytes t` -- what an encoder writes for a text; `utf8Text bs` -- what a decoder that never
    fails reads: every ill-formed stretch becomes one U+FFFD, by the usual machine that carries
    the number of continuation bytes still needed and the interval the next one must lie in.
    `utf8Text_utf8Bytes`: what was encoded is read back. `decodeText`, the decoder that drops a
    byte order mark first.

  Nothing here names the repository.
-/
import Veesker.Text.Js

namespace Veesker.Format

open List

/-- A byte string. -/
abbrev Bytes := List UInt8

/-! ## 1. Little-endian numbers -/

/-- The `w` low bytes of `n`, the lowest first. -/
def leBytes : Nat → Nat → Bytes
  | 0, _ => []
  | w + 1, n => UInt8.ofNat n :: leBytes w (n / 256)

def leNat : Bytes → Nat
  | [] => 0
  | b :: bs => b.toNat + 256 * leNat bs

@[simp] theorem leNat_nil : leNat [] = 0 := rfl

@[simp] theorem leNat_cons (b : UInt8) (bs : Bytes) : leNat (b :: bs) = b.toNat + 256 * leNat bs :=
  rfl

@[simp] theorem length_leBytes (w n : Nat) : (leBytes w n).length = w := by
  induction w generalizing n with
  | zero => rfl
  | succ w ih => rw [leBytes, length_cons, ih]

theorem toNat_ofNat_byte (n : Nat) : (UInt8.ofNat n).toNat = n % 256 := by
  rw [UInt8.toNat_ofNat']

/-- **A number below `256 ^ w` is read back from its `w` bytes.** -/
theorem leNat_leBytes {w n : Nat} (h : n < 256 ^ w) : leNat (leBytes w n) = n := by
  induction w generalizing n with
  | zero => rw [pow_zero] at h; rw [leBytes, leNat_nil]; omega
  | succ w ih =>
    have hdiv : n / 256 < 256 ^ w := by
      rw [pow_succ] at h
      exact Nat.div_lt_of_lt_mul (by omega)
    rw [leBytes, leNat_cons, ih hdiv, toNat_ofNat_byte]
    omega

theorem leNat_lt (bs : Bytes) : leNat bs < 256 ^ bs.length := by
  induction bs with
  | nil => simp
  | cons b bs ih =>
    have hb := b.toNat_lt
    rw [leNat_cons, length_cons, pow_succ]
    omega

/-- **Bytes are the bytes of their number.** -/
theorem leBytes_leNat (bs : Bytes) : leBytes bs.length (leNat bs) = bs := by
  induction bs with
  | nil => rfl
  | cons b bs ih =>
    have hb := b.toNat_lt
    have hdiv : (b.toNat + 256 * leNat bs) / 256 = leNat bs := by omega
    rw [length_cons, leBytes, leNat_cons, hdiv, ih]
    congr 1
    apply UInt8.toNat_inj.mp
    rw [toNat_ofNat_byte]
    omega

/-! ## 2. UTF-8: writing -/

/-- The bytes of a character. -/
def utf8Char (c : Char) : Bytes :=
  let n := c.toNat
  (if n < 0x80 then [n]
   else if n < 0x800 then [0xC0 + n / 64, 0x80 + n % 64]
   else if n < 0x10000 then [0xE0 + n / 4096, 0x80 + n / 64 % 64, 0x80 + n % 64]
   else [0xF0 + n / 262144, 0x80 + n / 4096 % 64, 0x80 + n / 64 % 64, 0x80 + n % 64]).map UInt8.ofNat

def utf8Bytes (t : Text) : Bytes := t.flatMap utf8Char

@[simp] theorem utf8Bytes_nil : utf8Bytes [] = [] := rfl

@[simp] theorem utf8Bytes_cons (c : Char) (t : Text) :
    utf8Bytes (c :: t) = utf8Char c ++ utf8Bytes t := rfl

@[simp] theorem utf8Bytes_append (s t : Text) : utf8Bytes (s ++ t) = utf8Bytes s ++ utf8Bytes t :=
  flatMap_append

/-- A byte below 0x80 is a character of its own. -/
theorem mem_utf8Char {c : Char} {b : UInt8} (h : b ∈ utf8Char c) (hb : b.toNat < 0x80) :
    c.toNat = b.toNat := by
  have hc : c.toNat < 0xD800 ∨ 0xDFFF < c.toNat ∧ c.toNat < 0x110000 := c.valid
  unfold utf8Char at h
  simp only at h
  split at h
  · simp only [map_cons, map_nil, mem_singleton] at h
    rw [h, toNat_ofNat_byte]
    omega
  split at h
  · simp only [map_cons, map_nil, mem_cons, not_mem_nil, or_false] at h
    rcases h with rfl | rfl <;> rw [toNat_ofNat_byte] at hb <;> omega
  split at h
  · simp only [map_cons, map_nil, mem_cons, not_mem_nil, or_false] at h
    rcases h with rfl | rfl | rfl <;> rw [toNat_ofNat_byte] at hb <;> omega
  · simp only [map_cons, map_nil, mem_cons, not_mem_nil, or_false] at h
    rcases h with rfl | rfl | rfl | rfl <;> rw [toNat_ofNat_byte] at hb <;> omega

/-- A byte below 0x80 stands in the bytes of a text only where its character does. -/
theorem mem_utf8Bytes_ascii {t : Text} {b : UInt8} (h : b ∈ utf8Bytes t) (hb : b.toNat < 0x80) :
    Char.ofNat b.toNat ∈ t := by
  obtain ⟨c, hc, hm⟩ := mem_flatMap.mp h
  rw [← mem_utf8Char hm hb, Char.ofNat_toNat]
  exact hc

/-! ## 3. UTF-8: reading -/

/-- U+FFFD. -/
def replacement : Char := Char.ofNat 0xFFFD

/-- The decoder's state: continuation bytes still needed, the bits read so far, the interval of
    the next byte. -/
structure Utf8 where
  needed : Nat := 0
  bits : Nat := 0
  lower : Nat := 0x80
  upper : Nat := 0xBF
  deriving DecidableEq

/-- A byte where a character begins. -/
def Utf8.lead (n : Nat) : Utf8 × Text :=
  if n < 0x80 then ({}, [Char.ofNat n])
  else if n < 0xC2 then ({}, [replacement])
  else if n < 0xE0 then ({ needed := 1, bits := n % 32 }, [])
  else if n < 0xF0 then
    ({ needed := 2, bits := n % 16, lower := if n = 0xE0 then 0xA0 else 0x80,
       upper := if n = 0xED then 0x9F else 0xBF }, [])
  else if n < 0xF5 then
    ({ needed := 3, bits := n % 8, lower := if n = 0xF0 then 0x90 else 0x80,
       upper := if n = 0xF4 then 0x8F else 0xBF }, [])
  else ({}, [replacement])

/-- One byte: the state after it and the characters it completes. -/
def Utf8.step (st : Utf8) (b : UInt8) : Utf8 × Text :=
  let n := b.toNat
  if st.needed = 0 then lead n
  else if n < st.lower ∨ st.upper < n then
    -- the stretch ends here, and this byte is read as a first one
    ((lead n).1, replacement :: (lead n).2)
  else if st.needed = 1 then ({}, [Char.ofNat (st.bits * 64 + n % 64)])
  else ({ needed := st.needed - 1, bits := st.bits * 64 + n % 64 }, [])

def utf8From (st : Utf8) : Bytes → Text
  | [] => if st.needed = 0 then [] else [replacement]
  | b :: bs => (st.step b).2 ++ utf8From (st.step b).1 bs

def utf8Text (bs : Bytes) : Text := utf8From {} bs

/-- A byte that a character ends with. -/
theorem utf8From_last {st : Utf8} {d : Nat} (hn : st.needed = 1) (hd : d < 64)
    (hl : st.lower ≤ 0x80 + d) (hu : 0x80 + d ≤ st.upper) (bs : Bytes) :
    utf8From st (UInt8.ofNat (0x80 + d) :: bs) = Char.ofNat (st.bits * 64 + d) :: utf8From {} bs := by
  have hmod : (0x80 + d) % 256 = 0x80 + d := by omega
  have hlow : (0x80 + d) % 64 = d := by omega
  have hr : ¬ (0x80 + d < st.lower ∨ st.upper < 0x80 + d) := by omega
  simp only [utf8From, Utf8.step, toNat_ofNat_byte, hmod, hlow, hn, if_neg hr, one_ne_zero,
    ↓reduceIte, cons_append, nil_append]

/-- A byte inside a character. -/
theorem utf8From_inner {st : Utf8} {k d : Nat} (hn : st.needed = k + 2) (hd : d < 64)
    (hl : st.lower ≤ 0x80 + d) (hu : 0x80 + d ≤ st.upper) (bs : Bytes) :
    utf8From st (UInt8.ofNat (0x80 + d) :: bs) =
      utf8From { needed := k + 1, bits := st.bits * 64 + d } bs := by
  have hmod : (0x80 + d) % 256 = 0x80 + d := by omega
  have hlow : (0x80 + d) % 64 = d := by omega
  have hr : ¬ (0x80 + d < st.lower ∨ st.upper < 0x80 + d) := by omega
  have h0 : ¬ k + 2 = 0 := by omega
  have h1 : ¬ k + 2 = 1 := by omega
  have hk : k + 2 - 1 = k + 1 := by omega
  simp only [utf8From, Utf8.step, toNat_ofNat_byte, hmod, hlow, hn, if_neg hr, if_neg h0, if_neg h1,
    hk, nil_append]

theorem utf8From_lead (n : Nat) (hn : n < 256) (bs : Bytes) :
    utf8From {} (UInt8.ofNat n :: bs) = (Utf8.lead n).2 ++ utf8From (Utf8.lead n).1 bs := by
  have hmod : n % 256 = n := Nat.mod_eq_of_lt hn
  simp only [utf8From, Utf8.step, toNat_ofNat_byte, hmod, ↓reduceIte]

/-- **A character is read back**, whatever follows. -/
theorem utf8From_utf8Char (c : Char) (bs : Bytes) :
    utf8From {} (utf8Char c ++ bs) = c :: utf8From {} bs := by
  have hc : c.toNat < 0xD800 ∨ 0xDFFF < c.toNat ∧ c.toNat < 0x110000 := c.valid
  have hback : Char.ofNat c.toNat = c := Char.ofNat_toNat c
  unfold utf8Char
  simp only
  split
  · rename_i h
    simp only [map_cons, map_nil, cons_append, nil_append]
    rw [utf8From_lead _ (by omega), Utf8.lead, if_pos h, hback]
    rfl
  split
  · rename_i h0 h
    simp only [map_cons, map_nil, cons_append, nil_append]
    rw [utf8From_lead _ (by omega), Utf8.lead, if_neg (by omega), if_neg (by omega),
      if_pos (by omega), nil_append, utf8From_last rfl (by omega) (by simp) (by simp; omega)]
    congr 1
    rw [← hback]
    congr 1
    simp only [hback]
    omega
  split
  · rename_i h0 h1 h
    simp only [map_cons, map_nil, cons_append, nil_append]
    rw [utf8From_lead _ (by omega), Utf8.lead, if_neg (by omega), if_neg (by omega),
      if_neg (by omega), if_pos (by omega), nil_append,
      utf8From_inner (k := 0) rfl (by omega) (by simp only; split <;> omega)
        (by simp only; split <;> omega),
      utf8From_last rfl (by omega) (by simp) (by simp; omega)]
    congr 1
    rw [← hback]
    congr 1
    simp only [hback]
    omega
  · rename_i h0 h1 h2
    simp only [map_cons, map_nil, cons_append, nil_append]
    rw [utf8From_lead _ (by omega), Utf8.lead, if_neg (by omega), if_neg (by omega),
      if_neg (by omega), if_neg (by omega), if_pos (by omega), nil_append,
      utf8From_inner (k := 1) rfl (by omega) (by simp only; split <;> omega)
        (by simp only; split <;> omega),
      utf8From_inner (k := 0) rfl (by omega) (by simp) (by simp; omega),
      utf8From_last rfl (by omega) (by simp) (by simp; omega)]
    congr 1
    rw [← hback]
    congr 1
    simp only [hback]
    omega

/-- **What was encoded is read back.** -/
theorem utf8Text_utf8Bytes (t : Text) : utf8Text (utf8Bytes t) = t := by
  unfold utf8Text
  induction t with
  | nil => rfl
  | cons c t ih => rw [utf8Bytes_cons, utf8From_utf8Char, ih]

/-- A text that was encoded is read, then the rest. -/
theorem utf8Text_append (t : Text) (bs : Bytes) :
    utf8Text (utf8Bytes t ++ bs) = t ++ utf8Text bs := by
  induction t with
  | nil => rfl
  | cons c t ih =>
    rw [utf8Bytes_cons, append_assoc, utf8Text, utf8From_utf8Char, ← utf8Text, ih]
    rfl

theorem utf8Bytes_injective : Function.Injective utf8Bytes :=
  Function.LeftInverse.injective utf8Text_utf8Bytes

/-! ## 4. UTF-8: what is read without a replacement was well formed -/

theorem toNat_ofNat_char {n : Nat} (h : n.isValidChar) : (Char.ofNat n).toNat = n := by
  rw [Char.ofNat, dif_pos h]
  rfl

theorem ofNat_eq_byte {b : UInt8} {n : Nat} (h : n = b.toNat) : UInt8.ofNat n = b := by
  rw [h, UInt8.ofNat_toNat]

/-- A byte is missing: the next one continues the character. -/
theorem utf8From_continues {st : Utf8} {bs : Bytes} (hn : st.needed ≠ 0)
    (h : replacement ∉ utf8From st bs) :
    ∃ b rest, bs = b :: rest ∧ st.lower ≤ b.toNat ∧ b.toNat ≤ st.upper ∧
      utf8From st bs = if st.needed = 1
        then Char.ofNat (st.bits * 64 + b.toNat % 64) :: utf8From {} rest
        else utf8From { needed := st.needed - 1, bits := st.bits * 64 + b.toNat % 64 } rest := by
  cases bs with
  | nil => rw [utf8From, if_neg hn] at h; exact absurd mem_cons_self h
  | cons b rest =>
    by_cases hr : b.toNat < st.lower ∨ st.upper < b.toNat
    · rw [utf8From, Utf8.step] at h
      simp only [if_neg hn, if_pos hr] at h
      exact absurd mem_cons_self h
    · refine ⟨b, rest, rfl, by omega, by omega, ?_⟩
      rw [utf8From, Utf8.step]
      simp only [if_neg hn, if_neg hr]
      split <;> rfl

/-- **Bytes that are read without a replacement are the bytes of what was read.** -/
theorem utf8Bytes_utf8Text : ∀ bs : Bytes, replacement ∉ utf8Text bs → utf8Bytes (utf8Text bs) = bs
  | [], _ => rfl
  | b :: bs, h => by
    have hb := b.toNat_lt
    rw [utf8Text, utf8From, Utf8.step] at h ⊢
    simp only [↓reduceIte] at h ⊢
    rw [Utf8.lead] at h ⊢
    split at h
    · rename_i h1
      have hv : (Char.ofNat b.toNat).toNat = b.toNat := toNat_ofNat_char (Or.inl (by omega))
      have ih := utf8Bytes_utf8Text bs (fun hm => h (mem_append_right _ hm))
      rw [if_pos h1, cons_append, nil_append, utf8Bytes_cons, ← utf8Text, ih, utf8Char]
      simp only [hv, if_pos h1, map_cons, map_nil, UInt8.ofNat_toNat, cons_append,
        nil_append]
    split at h
    · exact absurd (mem_append_left _ mem_cons_self) h
    split at h
    · rename_i h1 h2 h3
      rw [if_neg h1, if_neg h2, if_pos h3]
      simp only [nil_append] at h ⊢
      obtain ⟨c, rest, hbs, hlo, hhi, e⟩ := utf8From_continues (by simp) h
      have hlen : rest.length < bs.length := by rw [hbs, length_cons]; omega
      simp only [↓reduceIte] at e hlo hhi
      rw [e] at h ⊢
      have ih := utf8Bytes_utf8Text rest (fun hm => h (mem_cons_of_mem _ hm))
      have hv := toNat_ofNat_char (n := b.toNat % 32 * 64 + c.toNat % 64) (Or.inl (by omega))
      rw [utf8Bytes_cons, ← utf8Text, ih, utf8Char, hbs]
      simp only [hv]
      rw [if_neg (by omega), if_pos (by omega)]
      simp only [map_cons, map_nil, cons_append, nil_append]
      rw [ofNat_eq_byte (b := b) (by omega), ofNat_eq_byte (b := c) (by omega)]
    split at h
    · rename_i h1 h2 h3 h4
      rw [if_neg h1, if_neg h2, if_neg h3, if_pos h4]
      simp only [nil_append] at h ⊢
      obtain ⟨c, rest, hbs, hlo, hhi, e⟩ := utf8From_continues (by simp) h
      have hlen : rest.length < bs.length := by rw [hbs, length_cons]; omega
      simp only [OfNat.ofNat_ne_one, ↓reduceIte, Nat.reduceSub] at e hlo hhi
      rw [e] at h ⊢
      obtain ⟨d, rest', hbs', hlo', hhi', e'⟩ := utf8From_continues (by simp) h
      have hlen' : rest'.length < rest.length := by rw [hbs', length_cons]; omega
      simp only [↓reduceIte] at e' hlo' hhi'
      rw [e'] at h ⊢
      have ih := utf8Bytes_utf8Text rest' (fun hm => h (mem_cons_of_mem _ hm))
      have hvalid : ((b.toNat % 16 * 64 + c.toNat % 64) * 64 + d.toNat % 64).isValidChar := by
        unfold Nat.isValidChar
        split at hlo <;> split at hhi <;> omega
      have hv := toNat_ofNat_char hvalid
      rw [utf8Bytes_cons, ← utf8Text, ih, utf8Char, hbs, hbs']
      simp only [hv]
      have h5 : ¬ (b.toNat % 16 * 64 + c.toNat % 64) * 64 + d.toNat % 64 < 2048 := by
        split at hlo <;> split at hhi <;> omega
      have h6 : c.toNat / 64 = 2 := by split at hlo <;> split at hhi <;> omega
      rw [if_neg (by omega), if_neg h5, if_pos (by omega)]
      simp only [map_cons, map_nil, cons_append, nil_append]
      rw [ofNat_eq_byte (b := b) (by omega), ofNat_eq_byte (b := c) (by omega),
        ofNat_eq_byte (b := d) (by omega)]
    split at h
    · rename_i h1 h2 h3 h4 h5
      rw [if_neg h1, if_neg h2, if_neg h3, if_neg h4, if_pos h5]
      simp only [nil_append] at h ⊢
      obtain ⟨c, rest, hbs, hlo, hhi, e⟩ := utf8From_continues (by simp) h
      have hlen : rest.length < bs.length := by rw [hbs, length_cons]; omega
      simp only [OfNat.ofNat_ne_one, ↓reduceIte, Nat.reduceSub] at e hlo hhi
      rw [e] at h ⊢
      obtain ⟨d, rest', hbs', hlo', hhi', e'⟩ := utf8From_continues (by simp) h
      have hlen' : rest'.length < rest.length := by rw [hbs', length_cons]; omega
      simp only [OfNat.ofNat_ne_one, ↓reduceIte, Nat.reduceSub] at e' hlo' hhi'
      rw [e'] at h ⊢
      obtain ⟨f, rest₂, hbs₂, hlo₂, hhi₂, e₂⟩ := utf8From_continues (by simp) h
      have hlen₂ : rest₂.length < rest'.length := by rw [hbs₂, length_cons]; omega
      simp only [↓reduceIte] at e₂ hlo₂ hhi₂
      rw [e₂] at h ⊢
      have ih := utf8Bytes_utf8Text rest₂ (fun hm => h (mem_cons_of_mem _ hm))
      have hc2 : c.toNat / 64 = 2 := by split at hlo <;> split at hhi <;> omega
      have hlow : 0x10000 ≤ ((b.toNat % 8 * 64 + c.toNat % 64) * 64 + d.toNat % 64) * 64 +
          f.toNat % 64 := by
        split at hlo <;> split at hhi <;> omega
      have hhigh : ((b.toNat % 8 * 64 + c.toNat % 64) * 64 + d.toNat % 64) * 64 +
          f.toNat % 64 < 0x110000 := by
        split at hlo <;> split at hhi <;> omega
      have hv := toNat_ofNat_char (n := ((b.toNat % 8 * 64 + c.toNat % 64) * 64 + d.toNat % 64) * 64 +
        f.toNat % 64) (Or.inr (by omega))
      rw [utf8Bytes_cons, ← utf8Text, ih, utf8Char, hbs, hbs', hbs₂]
      simp only [hv]
      rw [if_neg (by omega), if_neg (by omega), if_neg (by omega)]
      simp only [map_cons, map_nil, cons_append, nil_append]
      rw [ofNat_eq_byte (b := b) (by omega), ofNat_eq_byte (b := c) (by omega),
        ofNat_eq_byte (b := d) (by omega), ofNat_eq_byte (b := f) (by omega)]
    · exact absurd (mem_append_left _ mem_cons_self) h
termination_by bs => bs.length
decreasing_by all_goals simp only [length_cons]; omega

/-! ## 5. The decoder of a stream -/

/-- U+FEFF at the start of a stream. -/
def byteOrderMark : Bytes := [0xEF, 0xBB, 0xBF]

/-- `new TextDecoder().decode(bytes)`. -/
def decodeText (bs : Bytes) : Text :=
  if byteOrderMark.isPrefixOf bs then utf8Text (bs.drop 3) else utf8Text bs

/-- Behind a character of ASCII the decoder of a stream is the plain one. -/
theorem decodeText_ascii {c : Char} (hc : c.toNat < 0x80) (t : Text) (bs : Bytes) :
    decodeText (utf8Bytes (c :: t) ++ bs) = c :: t ++ utf8Text bs := by
  have hb : byteOrderMark.isPrefixOf (utf8Bytes (c :: t) ++ bs) = false := by
    have hne : (UInt8.ofNat c.toNat == 0xEF) = false := by
      rw [beq_eq_false_iff_ne]
      intro e
      have := congrArg UInt8.toNat e
      rw [toNat_ofNat_byte] at this
      have h2 : (0xEF : UInt8).toNat = 239 := rfl
      omega
    rw [utf8Bytes_cons, utf8Char]
    simp only [if_pos hc, map_cons, map_nil, cons_append, byteOrderMark,
      List.isPrefixOf, Bool.and_eq_false_iff]
    exact Or.inl (by rw [beq_eq_false_iff_ne] at hne ⊢; exact fun e => hne e.symm)
  rw [decodeText, hb, if_neg Bool.false_ne_true, utf8Text_append]

/-- A text whose first character is of ASCII is read back. -/
theorem decodeText_utf8Bytes {c : Char} (hc : c.toNat < 0x80) (t : Text) :
    decodeText (utf8Bytes (c :: t)) = c :: t := by
  have h := decodeText_ascii hc t []
  rwa [append_nil, show utf8Text [] = [] from rfl, append_nil] at h

end Veesker.Format
