/-
  File:      Veesker/Vsk/Versions.lean
  Subject:   THE TWO VERSIONS OF AN ENCRYPTED FILE: `readEncryptedVsk` (engine/src/vsk-format/
             reader.ts) checks that it knows both, and not that they agree.

  * `readEncryptedVsk_ok_iff` -- what has to hold of a file for it to be read.
  * **`rejects_mismatch_iff`**: a file whose versions differ is rejected exactly where it would be
    for another reason.
  * `readEncryptedVsk_header_irrelevant` -- the rules are those of the envelope's version, whatever
    the header says.
-/
import Veesker.Vsk.Sealed

namespace Veesker.Vsk

open Format

section

variable {σ ν : Type} (N : Runtime ν) (S : Sodium)

/-- Apart from its versions the file is one the reader takes: under the rules of the envelope's
    version its parts are well formed, the envelope opens, the blob decrypts, and the plain file
    inside is read. -/
structure Opens (E : DuckDBHost σ) (file : Bytes) (header : VskHeader) (block version : Json ν)
    (dst : σ) (senderPubkey : Bytes) (recipient : Keypair) (replace : Bool)
    (external : Option Envelope) (nonce ciphertext blobNonce : Bytes) (bound : Option AadArgs)
    (contentKey plain : Bytes) (result : ReadVskResult ν × σ) : Prop where
  nonce_ok : fromBase64 N (member block "nonce".toList) = .ok nonce
  ciphertext_ok : fromBase64 N (member block "ciphertext".toList) = .ok ciphertext
  blobNonce_ok : fromBase64 N (member block "blobNonce".toList) = .ok blobNonce
  bound_ok : boundArgs N block version = .ok bound
  key_ok : openEnvelope S (external.getD { nonce, ciphertext }) senderPubkey recipient
    (bound.map aadBytes) = .ok contentKey
  plain_ok : decryptBlob S contentKey
    (subarray file header.dataOffset (header.dataOffset + header.dataLength)) blobNonce
    (bound.map aadBytes) = .ok plain
  loaded_ok : readVsk N.toJsNumbers E plain dst replace = .ok result

variable {N S}

theorem checkVersions_ok_iff {version : Json ν} {h : Nat} :
    checkVersions N version h = .ok () ↔
      isSupportedVersion N version = true ∧ isSupportedFormat h = true := by
  rw [checkVersions]
  cases isSupportedVersion N version with
  | false =>
    refine ⟨fun he => ?_, fun he => absurd he.1 Bool.false_ne_true⟩
    obtain ⟨t, -, ht⟩ := bind_ok.mp he
    cases ht
  | true =>
    cases isSupportedFormat h with
    | false =>
      refine ⟨fun he => ?_, fun he => absurd he.2 Bool.false_ne_true⟩
      obtain ⟨t, -, ht⟩ := bind_ok.mp he
      cases ht
    | true => exact ⟨fun _ => ⟨rfl, rfl⟩, fun _ => rfl⟩

/-- **What has to hold of a file for it to be read.** -/
theorem readEncryptedVsk_ok_iff {E : DuckDBHost σ} {file : Bytes} {dst : σ} {senderPubkey : Bytes}
    {recipient : Keypair} {replace : Bool} {external : Option Envelope}
    {result : ReadVskResult ν × σ} :
    readEncryptedVsk N S E file dst senderPubkey recipient replace external = .ok result ↔
      ∃ header block version, readEnvelopeBlock N file = .ok (header, block) ∧
        envelopeVersion N block = .ok version ∧ isSupportedVersion N version = true ∧
        isSupportedFormat (headerVersion header) = true ∧
        ∃ nonce ciphertext blobNonce bound contentKey plain,
          Opens N S E file header block version dst senderPubkey recipient replace external
            nonce ciphertext blobNonce bound contentKey plain result := by
  rw [readEncryptedVsk, bind_ok]
  constructor
  · rintro ⟨parts, hparts, h⟩
    obtain ⟨plain, hdec, hload⟩ := bind_ok.mp h
    obtain ⟨⟨header, block⟩, hblock, h⟩ := bind_ok.mp hparts
    obtain ⟨version, hversion, h⟩ := bind_ok.mp h
    obtain ⟨u, hcheck, h⟩ := bind_ok.mp h
    obtain ⟨nonce, hnonce, h⟩ := bind_ok.mp h
    obtain ⟨ciphertext, hcipher, h⟩ := bind_ok.mp h
    obtain ⟨blobNonce, hblob, h⟩ := bind_ok.mp h
    obtain ⟨bound, hbound, h⟩ := bind_ok.mp h
    cases h
    obtain ⟨contentKey, hkey, hplain⟩ := bind_ok.mp hdec
    obtain ⟨h1, h2⟩ := checkVersions_ok_iff.mp hcheck
    exact ⟨header, block, version, hblock, hversion, h1, h2, nonce, ciphertext, blobNonce, bound,
      contentKey, plain, hnonce, hcipher, hblob, hbound, hkey, hplain, hload⟩
  · rintro ⟨header, block, version, hblock, hversion, h1, h2, nonce, ciphertext, blobNonce, bound,
      contentKey, plain, h⟩
    refine ⟨{
        envelope := { nonce, ciphertext }
        blobNonce
        bound
        data := subarray file header.dataOffset (header.dataOffset + header.dataLength) }, ?_,
      bind_ok.mpr ⟨plain, bind_ok.mpr ⟨contentKey, h.key_ok, h.plain_ok⟩, h.loaded_ok⟩⟩
    refine bind_ok.mpr ⟨_, hblock, bind_ok.mpr ⟨_, hversion, ?_⟩⟩
    refine bind_ok.mpr ⟨_, checkVersions_ok_iff.mpr ⟨h1, h2⟩, bind_ok.mpr ⟨_, h.nonce_ok, ?_⟩⟩
    refine bind_ok.mpr ⟨_, h.ciphertext_ok, bind_ok.mpr ⟨_, h.blobNonce_ok, ?_⟩⟩
    exact bind_ok.mpr ⟨_, h.bound_ok, rfl⟩

variable (N S)

/-- **A file whose versions differ is rejected** if and only if one of them is unknown or the file
    would not be read anyway. -/
theorem rejects_mismatch_iff (E : DuckDBHost σ) (file : Bytes) (dst : σ) (senderPubkey : Bytes)
    (recipient : Keypair) (replace : Bool) (external : Option Envelope) :
    (∀ header block version, readEnvelopeBlock N file = .ok (header, block) →
      envelopeVersion N block = .ok version → isNat N version (headerVersion header) = false →
      ∀ result, readEncryptedVsk N S E file dst senderPubkey recipient replace external ≠
        .ok result) ↔
    ∀ header block version, readEnvelopeBlock N file = .ok (header, block) →
      envelopeVersion N block = .ok version →
      isNat N version (headerVersion header) = true ∨ isSupportedVersion N version = false ∨
        isSupportedFormat (headerVersion header) = false ∨
        ∀ nonce ciphertext blobNonce bound contentKey plain result,
          ¬ Opens N S E file header block version dst senderPubkey recipient replace external
            nonce ciphertext blobNonce bound contentKey plain result := by
  constructor
  · intro h header block version hblock hversion
    by_contra hcon
    simp only [not_or, Bool.not_eq_true, Bool.not_eq_false, not_forall, not_not] at hcon
    obtain ⟨hne, h1, h2, nonce, ciphertext, blobNonce, bound, contentKey, plain, result, ho⟩ := hcon
    exact h header block version hblock hversion hne result (readEncryptedVsk_ok_iff.mpr
      ⟨header, block, version, hblock, hversion, h1, h2, nonce, ciphertext, blobNonce, bound,
        contentKey, plain, ho⟩)
  · intro h header block version hblock hversion hne result hread
    obtain ⟨header', block', version', hblock', hversion', h1, h2, nonce, ciphertext, blobNonce,
      bound, contentKey, plain, ho⟩ := readEncryptedVsk_ok_iff.mp hread
    obtain ⟨rfl, rfl⟩ := Prod.mk.inj (Except.ok.inj (hblock.symm.trans hblock'))
    obtain rfl := Except.ok.inj (hversion.symm.trans hversion')
    rcases h header block version hblock hversion with h | h | h | h
    · exact absurd (hne.symm.trans h) Bool.false_ne_true
    · exact absurd (h.symm.trans h1) Bool.false_ne_true
    · exact absurd (h.symm.trans h2) Bool.false_ne_true
    · exact h _ _ _ _ _ _ _ ho

variable {N S}

end

set_option maxRecDepth 20000 in
/-- A file of version 2 whose header says 1 is read. -/
theorem readEncryptedVsk_mismatch :
    ∃ file header block version, readEnvelopeBlock natRuntime file = .ok (header, block) ∧
      envelopeVersion natRuntime block = .ok version ∧ headerVersion header = 1 ∧
      isNat natRuntime version 2 = true ∧
      isNat natRuntime version (headerVersion header) = false ∧
      ∃ result, readEncryptedVsk natRuntime overtSodium anyHost file () (overtPair 1).publicKey
        (overtPair 1) false none = .ok result := by
  have hlen : (encryptedFile natRuntime 1 (envelopeBlock natRuntime (overtEnvelope "sb".toList)
      (List.replicate 24 0) 2 (some (overtContext "sb".toList))) (overtCipher "sb".toList)).length ≤
      MAX_VSK_BYTES := by decide
  have hplain : (packedFile natJs (oneTable "0.2.0".toList) (fun _ => []) fun _ => false).length ≤
      MAX_VSK_BYTES := by decide
  have hblock := readEnvelopeBlock_written (N := natRuntime) (w := 1) (by decide)
    (overtEnvelope "sb".toList) (List.replicate 24 0)
    (fun _ _ => trivial) (k := 2) (by decide) hlen
  have hparts := readParts_encryptedFile (.inr (.inl rfl)) (overtEnvelope "sb".toList)
    (List.replicate 24 0) overtContext_good hlen
  obtain ⟨env, hseal, hopen⟩ := openEnvelope_sealEnvelope overtSodium_ideal (overtPair_valid 1)
    (overtPair_valid 1) (List.replicate 32 7) (some (overtAad "sb".toList)) (zeroNonce _)
  obtain rfl := Except.ok.inj (hseal.symm.trans (sealEnvelope_overt _))
  have hdec : decryptParts overtSodium ⟨overtEnvelope "sb".toList, List.replicate 24 0,
      some ((overtContext "sb".toList).args natRuntime), overtCipher "sb".toList⟩
      (overtPair 1).publicKey (overtPair 1) =
      .ok (packedFile natJs (oneTable "0.2.0".toList) (fun _ => []) fun _ => false) :=
    decryptParts_packed overtSodium_ideal hopen (encrypt_overtAead.mpr ⟨⟨rfl, rfl⟩, rfl⟩)
  obtain ⟨result, hresult⟩ : ∃ result, loadResult anyHost (oneTable "0.2.0".toList) (fun _ => [])
      (fun _ => false) () false = .ok result := ⟨_, rfl⟩
  refine ⟨_, _, _, _, hblock, rfl, rfl, rfl, rfl, result, ?_⟩
  rw [← hresult, ← readVsk_packedFile natJs packable_oneTable hplain anyHost () false]
  exact readEncryptedVsk_parts hparts hdec

end Veesker.Vsk
