/-
  File:      Veesker/Vsk/Binding.lean
  Subject:   WHAT THE ASSOCIATED DATA BINDS (engine/src/crypto/aad.ts), over the strings of the
             source language as they are: code units, surrogates standing alone among them.

  The encoder replaces a surrogate without its other half, so two ids that differ only there give
  the same bytes. What `String` makes of a number is a parameter.

  * `aadBytes_injective` -- texts without NUL are told apart, and so is everything else.
  * **`buildAad_binds_iff`**: no other call gives the bytes of a call exactly where its id holds
    neither a lone surrogate nor the replacement.
  * `buildAad_lone` -- two ids, one associated data.
-/
import Veesker.Format.Utf16
import Veesker.Text.Cut
import Veesker.Vsk.Crypto

namespace Veesker.Vsk.Binding

open Format

/-! ## 1. The calls -/

/-- `String(n)`, the two zeros taken as one number. -/
structure NumberTexts (ν : Type) where
  text : ν → Text
  text_injective : Function.Injective text
  nul_notMem : ∀ n, '\x00' ∉ text n

structure Args (ν : Type) where
  sandboxId : Utf16
  sandboxVersion : ν
  recipientPubkey : Bytes
  formatVersion : Nat
  deriving DecidableEq

section

variable {ν : Type} (N : NumberTexts ν)

/-- What the encoder is given. -/
def Args.texts (a : Args ν) : AadArgs where
  sandboxId := scalarValues a.sandboxId
  sandboxVersion := N.text a.sandboxVersion
  recipientPubkey := a.recipientPubkey
  formatVersion := a.formatVersion

def buildAad (a : Args ν) : Except Text Bytes :=
  if a.sandboxId.contains 0 then
    .error "buildAad: sandboxId must not contain NUL bytes".toList
  else .ok (aadBytes (a.texts N))

end

/-- The calls the claim of a binding is about: the id without NUL, the format version of two
    bytes. -/
structure Args.Valid {ν : Type} (a : Args ν) : Prop where
  nul_notMem : 0 ∉ a.sandboxId
  formatVersion_lt : a.formatVersion < 65536

/-! ## 2. The parts are told apart -/

/-- **Texts without NUL, a key of any length and a format version of two bytes are told apart.** -/
theorem aadBytes_injective {a b : AadArgs} (hida : '\x00' ∉ a.sandboxId)
    (hidb : '\x00' ∉ b.sandboxId) (hva : '\x00' ∉ a.sandboxVersion) (hvb : '\x00' ∉ b.sandboxVersion)
    (hfa : a.formatVersion < 2 ^ 16) (hfb : b.formatVersion < 2 ^ 16)
    (h : aadBytes a = aadBytes b) : a = b := by
  have h := List.append_cancel_left h
  obtain ⟨hids, h⟩ := cut_at_first (nul_notMem_utf8Bytes hida) (nul_notMem_utf8Bytes hidb) h
  obtain ⟨hvs, h⟩ := cut_at_first (nul_notMem_utf8Bytes hva) (nul_notMem_utf8Bytes hvb) h
  -- the key may hold NUL bytes, but what is behind it has a fixed length
  obtain ⟨hpks, hfs⟩ := List.append_inj' h (by
    simp only [List.length_cons, List.length_reverse, length_leBytes])
  exact AadArgs.eq_of_bytes hids hvs hpks hfa hfb (List.cons.inj hfs).2

section

variable {ν : Type} {N : NumberTexts ν} {a b : Args ν}

theorem buildAad_valid (ha : a.Valid) : buildAad N a = .ok (aadBytes (a.texts N)) := by
  rw [buildAad, if_neg (by simpa using ha.nul_notMem)]

theorem texts_inj (ha : a.Valid) (hb : b.Valid) (h : buildAad N a = buildAad N b) :
    a.texts N = b.texts N := by
  rw [buildAad_valid ha, buildAad_valid hb] at h
  exact aadBytes_injective (fun hm => ha.nul_notMem ((zero_mem_iff _).mpr hm))
    (fun hm => hb.nul_notMem ((zero_mem_iff _).mpr hm)) (N.nul_notMem _) (N.nul_notMem _)
    ha.formatVersion_lt hb.formatVersion_lt (Except.ok.inj h)

/-- Two calls with the same bytes differ at most in what the encoder replaces. -/
theorem same_of_buildAad (ha : a.Valid) (hb : b.Valid) (h : buildAad N a = buildAad N b) :
    scalarValues a.sandboxId = scalarValues b.sandboxId ∧ a.sandboxVersion = b.sandboxVersion ∧
      a.recipientPubkey = b.recipientPubkey ∧ a.formatVersion = b.formatVersion := by
  have e := texts_inj ha hb h
  simp only [Args.texts, AadArgs.mk.injEq] at e
  exact ⟨e.1, N.text_injective e.2.1, e.2.2.1, e.2.2.2⟩

/-- **What a call binds**: no other call gives its bytes exactly where every surrogate of the id has
    its other half and the id does not hold the replacement. -/
theorem buildAad_binds_iff (N : NumberTexts ν) (a : Args ν) (ha : a.Valid) :
    (∀ b : Args ν, b.Valid → buildAad N a = buildAad N b → a = b) ↔
      WellFormed a.sandboxId ∧ 0xFFFD ∉ a.sandboxId := by
  rw [← replacement_notMem_iff]
  constructor
  · intro h hm
    obtain ⟨s, hne, hs⟩ := exists_scalarValues_eq hm
    have hb : Args.Valid { a with sandboxId := s } := by
      refine ⟨fun h0 => ha.nul_notMem ?_, ha.formatVersion_lt⟩
      rw [zero_mem_iff, hs, ← zero_mem_iff] at h0
      exact h0
    have e : buildAad N a = buildAad N { a with sandboxId := s } := by
      rw [buildAad_valid ha, buildAad_valid hb, Args.texts, Args.texts, hs]
    exact hne (congrArg Args.sandboxId (h _ hb e)).symm
  · intro hr b hb h
    obtain ⟨hid, hv, hpk, hf⟩ := same_of_buildAad ha hb h
    have hrb : replacement ∉ scalarValues b.sandboxId := hid ▸ hr
    have hids : a.sandboxId = b.sandboxId := by
      rw [← units_scalarValues (replacement_notMem_iff.mp hr).1, hid,
        units_scalarValues (replacement_notMem_iff.mp hrb).1]
    obtain ⟨ida, va, pka, fa⟩ := a
    obtain ⟨idb, vb, pkb, fb⟩ := b
    cases hids
    cases hv
    cases hpk
    cases hf
    rfl

end

/-! ## 3. Versions as natural numbers -/

theorem natText_injective : Function.Injective natText := by
  intro m n h
  have e := congrArg (fun t => Nat.ofDigitChars 10 t 0) h
  simpa only [natText, Nat.ofDigitChars_ten_toDigits] using e

def natTexts : NumberTexts Nat where
  text := natText
  text_injective := natText_injective
  nul_notMem n hm := by
    have := Nat.isDigit_of_mem_toDigits (by decide) (by decide) hm
    exact absurd this (by decide)

theorem buildAad_binds_prod :
    (⟨[0x41], 7, [], 2⟩ : Args Nat).Valid ∧
      ∀ b : Args Nat, b.Valid → buildAad natTexts ⟨[0x41], 7, [], 2⟩ = buildAad natTexts b →
        ⟨[0x41], 7, [], 2⟩ = b := by
  have hv : (⟨[0x41], 7, [], 2⟩ : Args Nat).Valid := ⟨by decide, by decide⟩
  exact ⟨hv, (buildAad_binds_iff natTexts _ hv).mpr
    ⟨.single (by decide) (by decide) .nil, by decide⟩⟩

/-- **Two ids, one associated data**: a lone surrogate, and the replacement. -/
theorem buildAad_lone :
    (⟨[0xD800], 7, [], 2⟩ : Args Nat).Valid ∧ (⟨[0xFFFD], 7, [], 2⟩ : Args Nat).Valid ∧
      buildAad natTexts ⟨[0xD800], 7, [], 2⟩ = buildAad natTexts ⟨[0xFFFD], 7, [], 2⟩ ∧
      (⟨[0xD800], 7, [], 2⟩ : Args Nat) ≠ ⟨[0xFFFD], 7, [], 2⟩ :=
  ⟨⟨by decide, by decide⟩, ⟨by decide, by decide⟩, rfl, by decide⟩

end Veesker.Vsk.Binding
