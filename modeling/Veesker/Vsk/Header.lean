/-
  File:      Veesker/Vsk/Header.lean
  Subject:   THE 64-BYTE HEADER (engine/src/vsk-format/header.ts, version.ts).

  `readHeader_writeHeader`: the fields written are the fields read, when each fits its width.
-/
import Veesker.Vsk.Host

namespace Veesker.Vsk

open Format

def VSK_MAGIC : Nat := 0x56534b21
def VSK_VERSION : Nat := 1
def HEADER_SIZE : Nat := 64
def FORMAT_V1 : Nat := 1
def FORMAT_V2 : Nat := 2

/-- The header but for its two constants. -/
structure VskHeader where
  formatVersion : Nat
  manifestOffset : Nat
  manifestLength : Nat
  dataOffset : Nat
  dataLength : Nat
  envelopeOffset : Nat
  envelopeLength : Nat
  deriving DecidableEq

/-- Big-endian, `view.setUint32(0, VSK_MAGIC, false)`. -/
def magicBytes : Bytes := (leBytes 4 VSK_MAGIC).reverse

def writeHeader (h : VskHeader) : Bytes :=
  magicBytes ++ (leBytes 2 VSK_VERSION ++ (leBytes 2 h.formatVersion ++
    (leBytes 8 h.manifestOffset ++ (leBytes 8 h.manifestLength ++ (leBytes 8 h.dataOffset ++
      (leBytes 8 h.dataLength ++ (leBytes 8 h.envelopeOffset ++ (leBytes 8 h.envelopeLength ++
        List.replicate 8 0))))))))

/-- The little-endian number of `w` bytes at an offset. -/
def getUint (buf : Bytes) (offset w : Nat) : Nat := leNat ((buf.drop offset).take w)

/-- `n.toString(16)`. -/
def hexText (n : Nat) : Text := Nat.toDigits 16 n

def readHeader (buf : Bytes) : Except Failure VskHeader :=
  if buf.length < HEADER_SIZE then
    .error (.format "TRUNCATED".toList ("vsk header truncated: got ".toList ++
      natText buf.length ++ ", expected ".toList ++ natText HEADER_SIZE))
  else
    let magic := leNat (buf.take 4).reverse
    if magic ≠ VSK_MAGIC then
      .error (.format "BAD_MAGIC".toList
        ("vsk: bad magic bytes (got 0x".toList ++ hexText magic ++ ")".toList))
    else
      let version := getUint buf 4 2
      if version ≠ VSK_VERSION then
        .error (.format "BAD_VERSION".toList ("vsk: unsupported version ".toList ++
          natText version ++ " (engine supports ".toList ++ natText VSK_VERSION ++ ")".toList))
      else .ok {
        formatVersion := getUint buf 6 2
        manifestOffset := getUint buf 8 8
        manifestLength := getUint buf 16 8
        dataOffset := getUint buf 24 8
        dataLength := getUint buf 32 8
        envelopeOffset := getUint buf 40 8
        envelopeLength := getUint buf 48 8 }

def isSupportedFormat (v : Nat) : Bool := v == FORMAT_V1 || v == FORMAT_V2

/-! ## What was written is read -/

/-- Each field fits its width. -/
structure VskHeader.Fits (h : VskHeader) : Prop where
  formatVersion : h.formatVersion < 2 ^ 16
  manifestOffset : h.manifestOffset < 2 ^ 64
  manifestLength : h.manifestLength < 2 ^ 64
  dataOffset : h.dataOffset < 2 ^ 64
  dataLength : h.dataLength < 2 ^ 64
  envelopeOffset : h.envelopeOffset < 2 ^ 64
  envelopeLength : h.envelopeLength < 2 ^ 64

theorem length_magicBytes : magicBytes.length = 4 := by decide

@[simp] theorem length_writeHeader (h : VskHeader) : (writeHeader h).length = HEADER_SIZE := by
  simp only [writeHeader, List.length_append, length_magicBytes, length_leBytes,
    List.length_replicate, HEADER_SIZE]

/-- A number that stands behind `a` bytes. -/
theorem getUint_append {a b c : Bytes} {offset w n : Nat} (ho : a.length = offset)
    (hb : b = leBytes w n) (hn : n < 256 ^ w) : getUint (a ++ (b ++ c)) offset w = n := by
  subst ho
  subst hb
  have htake : (leBytes w n ++ c).take w = leBytes w n := by
    rw [List.take_append_of_le_length (by rw [length_leBytes]),
      List.take_of_length_le (by rw [length_leBytes])]
  rw [getUint, List.drop_left, htake, leNat_leBytes hn]

/-- A number that stands after those already passed. -/
theorem getUint_skip {a c : Bytes} {offset w k : Nat} (ha : a.length = k) (hk : k ≤ offset) :
    getUint (a ++ c) offset w = getUint c (offset - k) w := by
  rw [getUint, getUint, List.drop_append, List.drop_eq_nil_of_le (by omega), List.nil_append, ha]

theorem getUint_zero {b c : Bytes} {w n : Nat} (hb : b = leBytes w n) (hn : n < 256 ^ w) :
    getUint (b ++ c) 0 w = n := getUint_append (a := []) rfl hb hn

/-- **The fields written are the fields read.** -/
theorem readHeader_writeHeader {h : VskHeader} (hf : h.Fits) :
    readHeader (writeHeader h) = .ok h := by
  have hlen : ¬ (writeHeader h).length < HEADER_SIZE := by rw [length_writeHeader]; omega
  have hmagic : leNat ((writeHeader h).take 4).reverse = VSK_MAGIC := by
    rw [writeHeader, List.take_append_of_le_length (by rw [length_magicBytes])]
    decide
  have hver : getUint (writeHeader h) 4 2 = VSK_VERSION :=
    getUint_append length_magicBytes rfl (by decide)
  have w2 : ∀ n, n < 2 ^ 16 → n < 256 ^ 2 := fun n h => by norm_num at h ⊢; exact h
  have w8 : ∀ n, n < 2 ^ 64 → n < 256 ^ 8 := fun n h => by norm_num at h ⊢; exact h
  have h4 := length_magicBytes
  have l2 : ∀ n, (leBytes 2 n).length = 2 := length_leBytes 2
  have l8 : ∀ n, (leBytes 8 n).length = 8 := length_leBytes 8
  have e1 : getUint (writeHeader h) 6 2 = h.formatVersion := by
    rw [writeHeader, getUint_skip h4 (by omega), getUint_skip (l2 _) (by omega)]
    exact getUint_zero rfl (w2 _ hf.formatVersion)
  have e2 : getUint (writeHeader h) 8 8 = h.manifestOffset := by
    rw [writeHeader, getUint_skip h4 (by omega), getUint_skip (l2 _) (by omega),
      getUint_skip (l2 _) (by omega)]
    exact getUint_zero rfl (w8 _ hf.manifestOffset)
  have e3 : getUint (writeHeader h) 16 8 = h.manifestLength := by
    rw [writeHeader, getUint_skip h4 (by omega), getUint_skip (l2 _) (by omega),
      getUint_skip (l2 _) (by omega), getUint_skip (l8 _) (by omega)]
    exact getUint_zero rfl (w8 _ hf.manifestLength)
  have e4 : getUint (writeHeader h) 24 8 = h.dataOffset := by
    rw [writeHeader, getUint_skip h4 (by omega), getUint_skip (l2 _) (by omega),
      getUint_skip (l2 _) (by omega), getUint_skip (l8 _) (by omega), getUint_skip (l8 _) (by omega)]
    exact getUint_zero rfl (w8 _ hf.dataOffset)
  have e5 : getUint (writeHeader h) 32 8 = h.dataLength := by
    rw [writeHeader, getUint_skip h4 (by omega), getUint_skip (l2 _) (by omega),
      getUint_skip (l2 _) (by omega), getUint_skip (l8 _) (by omega), getUint_skip (l8 _) (by omega),
      getUint_skip (l8 _) (by omega)]
    exact getUint_zero rfl (w8 _ hf.dataLength)
  have e6 : getUint (writeHeader h) 40 8 = h.envelopeOffset := by
    rw [writeHeader, getUint_skip h4 (by omega), getUint_skip (l2 _) (by omega),
      getUint_skip (l2 _) (by omega), getUint_skip (l8 _) (by omega), getUint_skip (l8 _) (by omega),
      getUint_skip (l8 _) (by omega), getUint_skip (l8 _) (by omega)]
    exact getUint_zero rfl (w8 _ hf.envelopeOffset)
  have e7 : getUint (writeHeader h) 48 8 = h.envelopeLength := by
    rw [writeHeader, getUint_skip h4 (by omega), getUint_skip (l2 _) (by omega),
      getUint_skip (l2 _) (by omega), getUint_skip (l8 _) (by omega), getUint_skip (l8 _) (by omega),
      getUint_skip (l8 _) (by omega), getUint_skip (l8 _) (by omega), getUint_skip (l8 _) (by omega)]
    exact getUint_zero rfl (w8 _ hf.envelopeLength)
  rw [readHeader, if_neg hlen]
  simp only [hmagic, hver, ne_eq, not_true_eq_false, ↓reduceIte, e1, e2, e3, e4, e5, e6, e7]

end Veesker.Vsk
