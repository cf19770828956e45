/-
  File:      Veesker/Vsk/Sealed.lean
  Subject:   `readEncryptedVsk` AFTER `writeEncryptedVsk`, with ideal ciphers.

  1. What the keys come to: `decryptParts_packed` for every recipient, `decryptParts_unchanged`
     for a file that was tampered with.
  2. **`readEncryptedVsk_writeEncryptedVsk`**: every recipient reads what was packed, through the
     embedded envelope or its own, and no single change goes unnoticed.
-/
import Veesker.Vsk.Encrypted

namespace Veesker.Vsk

open Format

section

variable {ν : Type} {N : Runtime ν} {S : Sodium}

/-! ## 1. What the keys come to -/

variable {recipient : Keypair} {p : EncryptedParts}

/-- **The plain file is reached** with the two secrets, and in no other way. -/
theorem decryptParts_ok {senderPubkey plain : Bytes} :
    decryptParts S p senderPubkey recipient = .ok plain ↔ ∃ k key,
      deriveSharedKey S recipient.privateKey senderPubkey = .ok k ∧
      S.envelope.decrypt k p.envelope.nonce ((p.bound.map aadBytes).getD []) p.envelope.ciphertext =
        some key ∧
      S.blob.decrypt key p.blobNonce ((p.bound.map aadBytes).getD []) p.data = some plain := by
  rw [decryptParts, bind_ok]
  simp only [openEnvelope, bind_ok, Sodium.orThrow_ok, decryptBlob_ok]
  constructor
  · rintro ⟨key, ⟨k, hk, he⟩, hb⟩
    exact ⟨k, key, hk, he, hb⟩
  · rintro ⟨k, key, hk, he, hb⟩
    exact ⟨key, ⟨k, hk, he⟩, hb⟩

/-- Sealed parts are decrypted to what was encrypted. -/
theorem decryptParts_packed (hS : S.Ideal) {senderPubkey key plain : Bytes}
   
    (hopen : openEnvelope S p.envelope senderPubkey recipient (p.bound.map aadBytes) = .ok key)
    (hc : S.blob.encrypt key p.blobNonce ((p.bound.map aadBytes).getD []) plain = some p.data) :
    decryptParts S p senderPubkey recipient = .ok plain := by
  rw [decryptParts]
  simp only [Bind.bind, Except.bind, hopen]
  exact decryptBlob_ok.mpr (hS.blob.decrypt_encrypt hc)

/-- Of the ciphertext at most one byte was changed, and of the envelope not the nonce and the
    ciphertext both; whatever else stands in the parts is free. -/
structure SingleChange (p p' : EncryptedParts) : Prop where
  data : p'.data = p.data ∨ OneByteApart p.data p'.data
  envelope : p'.envelope.nonce = p.envelope.nonce ∨
    p'.envelope.ciphertext = p.envelope.ciphertext

/-- What the reader checks of the associated data's parts. -/
def Checked (bound : Option AadArgs) : Prop :=
  ∀ a ∈ bound, a.recipientPubkey.length = 32 ∧ a.formatVersion = FORMAT_V2

/-- Texts without a NUL. -/
def NulFree (bound : Option AadArgs) : Prop :=
  ∀ a ∈ bound, '\x00' ∉ a.sandboxId ∧ '\x00' ∉ a.sandboxVersion

theorem bound_inj {x y : Option AadArgs} (hx : Checked x) (hn : NulFree x) (hy : Checked y)
    (h : (x.map aadBytes).getD [] = (y.map aadBytes).getD []) : x = y := by
  cases x with
  | none =>
    cases y with
    | none => rfl
    | some b => exact absurd h.symm (aadBytes_ne_nil b)
  | some a =>
    cases y with
    | none => exact absurd h (aadBytes_ne_nil a)
    | some b =>
      have ha := hx a rfl
      have hb := hy b rfl
      have h2 : FORMAT_V2 < 2 ^ 16 := by decide
      exact congrArg some (aadBytes_inj (hn a rfl).1 (hn a rfl).2 (ha.1.trans hb.1.symm)
        (ha.2 ▸ h2) (hb.2 ▸ h2) h)

/-- **What still decrypts after a single change is unchanged**: ciphertexts, nonces and all the
    associated data is built from. -/
theorem decryptParts_unchanged (hS : S.Ideal) {p p' : EncryptedParts} {senderPubkey : Bytes}
    {plain plain' : Bytes}
    (h : decryptParts S p senderPubkey recipient = .ok plain)
    (h' : decryptParts S p' senderPubkey recipient = .ok plain') (hp : Checked p.bound)
    (hn : NulFree p.bound) (hp' : Checked p'.bound) (hc : SingleChange p p') : p' = p := by
  obtain ⟨k, key, hk, he, hb⟩ := decryptParts_ok.mp h
  obtain ⟨k', key', hk', he', hb'⟩ := decryptParts_ok.mp h'
  obtain rfl := Except.ok.inj (hk.symm.trans hk')
  have hblob := (hS.blob.exact _ _ _ _ _).mp hb
  have hdata : p'.data = p.data :=
    hc.data.resolve_right fun ha => hS.blob.not_decrypt_of_apart hblob ha hb'
  rw [hdata] at hb'
  obtain ⟨rfl, hnonce, haad, -⟩ := hS.blob.eq_of_decrypt hblob hb'
  have hbound : p'.bound = p.bound := (bound_inj hp hn hp' haad.symm).symm
  rw [hbound] at he'
  have henc := (hS.envelope.exact _ _ _ _ _).mp he
  have henc' := (hS.envelope.exact _ _ _ _ _).mp he'
  have henvelope : p'.envelope = p.envelope := by
    rcases hc.envelope with hsame | hsame
    · rw [hsame] at henc'
      have hct := Option.some.inj (henc'.symm.trans henc)
      exact (Envelope.mk.injEq ..).mpr ⟨hct, hsame⟩
    · rw [hsame] at henc'
      have hnn := (hS.envelope.binds _ _ _ _ _ _ _ _ _ henc' henc).2.1
      exact (Envelope.mk.injEq ..).mpr ⟨hsame, hnn⟩
  exact (EncryptedParts.mk.injEq ..).mpr ⟨henvelope, hnonce, hbound, hdata⟩

theorem pubkeyFromBase64_length {s : Option (Json ν)} {pk : Bytes}
    (h : pubkeyFromBase64 N s = .ok pk) : pk.length = 32 := by
  obtain ⟨bytes, -, hb⟩ := bind_ok.mp h
  split at hb
  · cases hb
  · rename_i hl
    cases hb
    exact not_not.mp hl

theorem aadArgs_ok {sandboxId sandboxVersion : Json ν} {pk : Bytes} {k : Nat} {a : AadArgs}
    (h : aadArgs N sandboxId sandboxVersion pk k = .ok a) :
    a.recipientPubkey = pk ∧ a.formatVersion = k := by
  obtain ⟨nul, -, h⟩ := bind_ok.mp h
  cases nul with
  | true => cases h
  | false =>
    obtain ⟨id, -, h⟩ := bind_ok.mp h
    obtain ⟨version, -, h⟩ := bind_ok.mp h
    cases h
    exact ⟨rfl, rfl⟩

theorem boundArgs_checked {block version : Json ν} {bound : Option AadArgs}
    (h : boundArgs N block version = .ok bound) : Checked bound := by
  rw [boundArgs] at h
  split at h
  · split at h
    · cases h
    · split at h
      · cases h
      · obtain ⟨pk, hpk, h⟩ := bind_ok.mp h
        obtain ⟨a, ha, h⟩ := bind_ok.mp h
        cases h
        intro b hb
        cases hb
        obtain ⟨h1, h2⟩ := aadArgs_ok ha
        exact ⟨h1 ▸ pubkeyFromBase64_length hpk, h2⟩
  · cases h
    intro b hb
    cases hb

theorem readParts_checked {file : Bytes} (h : readParts N file = .ok p) :
    Checked p.bound := by
  obtain ⟨⟨header, block⟩, -, h⟩ := bind_ok.mp h
  obtain ⟨version, -, h⟩ := bind_ok.mp h
  obtain ⟨-, -, h⟩ := bind_ok.mp h
  obtain ⟨nonce, -, h⟩ := bind_ok.mp h
  obtain ⟨ciphertext, -, h⟩ := bind_ok.mp h
  obtain ⟨blobNonce, -, h⟩ := bind_ok.mp h
  obtain ⟨bound, hb, h⟩ := bind_ok.mp h
  cases h
  exact boundArgs_checked hb

theorem nul_notMem_numText {n : ν} (h : N.Exact n) : '\x00' ∉ numText N n := by
  have hf := N.finite_of_exact n h
  rw [numText, if_pos hf]
  intro hm
  exact absurd (List.all_eq_true.mp (N.chars_text n hf) _ hm) (by decide)

theorem context_bound {aadContext : Option (AadContext ν)} (h : ∀ c ∈ aadContext, c.Good N) :
    Checked (aadContext.map fun c => c.args N) ∧ NulFree (aadContext.map fun c => c.args N) := by
  constructor
  · intro a ha
    obtain ⟨c, hc, rfl⟩ := Option.map_eq_some_iff.mp ha
    exact ⟨(h c hc).length_key, rfl⟩
  · intro a ha
    obtain ⟨c, hc, rfl⟩ := Option.map_eq_some_iff.mp ha
    exact ⟨(h c hc).no_nul, nul_notMem_numText (h c hc).exact⟩

/-! ## 2. The reader after the writer -/

section

variable {σ τ : Type}

/-- **The file the writer leaves** for a packable sandbox, a content key and a context. -/
theorem writeEncryptedVsk_ok (hS : S.Ideal) {D : DuckDBHost σ} {src : σ} {m : Json ν}
    {pq : Text → Bytes} {there : Text → Bool} (hp : Packable N.toJsNumbers D src m pq there)
    {contentKey : Bytes} (hk : contentKey.length = S.blob.keyBytes)
    {aadContext : Option (AadContext ν)} (hc : ∀ c ∈ aadContext, '\x00' ∉ c.sandboxId)
    (blobNonce : S.blob.Nonce) :
    ∃ c, S.blob.encrypt contentKey blobNonce.bytes
        (((aadContext.map fun c => c.args N).map aadBytes).getD [])
        (packedFile N.toJsNumbers m pq there) = some c ∧
      ∀ envelope, writeEncryptedVsk N S D src m contentKey envelope aadContext blobNonce =
        .ok (encryptedFile N (contextVersion aadContext)
          (envelopeBlock N envelope blobNonce.bytes (contextVersion aadContext) aadContext) c) := by
  obtain ⟨c, hc1, hc2⟩ := encryptBlob_ok hS hk (packedFile N.toJsNumbers m pq there)
    ((aadContext.map fun c => c.args N).map aadBytes) blobNonce
  refine ⟨c, hc1, fun envelope => ?_⟩
  have hw : writeVsk N.toJsNumbers D src m = .ok (packedFile N.toJsNumbers m pq there) :=
    writeVsk_ok N.toJsNumbers hp.names hp.exports
  have haad := contextAad_ok (N := N) hc
  rw [writeEncryptedVsk, hw]
  simp only [Bind.bind, Except.bind, haad, hc2]
  rfl

theorem readEncryptedVsk_parts {D : DuckDBHost σ} {file : Bytes} {dst : σ} {senderPubkey : Bytes}
    {replace : Bool} {ext : Option Envelope}
    {plain : Bytes} (hp : readParts N file = .ok p)
    (hd : decryptParts S (p.withEnvelope ext) senderPubkey recipient = .ok plain) :
    readEncryptedVsk N S D file dst senderPubkey recipient replace ext =
      readVsk N.toJsNumbers D plain dst replace := by
  rw [readEncryptedVsk, hp]
  simp only [Bind.bind, Except.bind, hd]

theorem decryptParts_of_readEncryptedVsk {D : DuckDBHost σ} {file : Bytes} {dst : σ}
    {senderPubkey : Bytes} {replace : Bool} {ext : Option Envelope}
    {result : ReadVskResult ν × σ} (hp : readParts N file = .ok p)
    (h : readEncryptedVsk N S D file dst senderPubkey recipient replace ext = .ok result) :
    ∃ plain, decryptParts S (p.withEnvelope ext) senderPubkey recipient = .ok plain ∧
      readVsk N.toJsNumbers D plain dst replace = .ok result := by
  rw [readEncryptedVsk, hp] at h
  exact bind_ok.mp h

theorem version_cases (aadContext : Option (AadContext ν)) :
    contextVersion aadContext = 0 ∨ contextVersion aadContext = 1 ∨
      contextVersion aadContext = 2 := by
  cases aadContext with
  | none => exact .inr (.inl rfl)
  | some c => exact .inr (.inr rfl)

/-- **The encrypted round trip.** For a sandbox that packs, a set of recipients and either format,
    the file sealed for one recipient is read as what was packed, by that recipient as it stands
    and by every other with an envelope of its own; and once a part of it is changed singly,
    whatever file the changed parts come from, it is not read any more. -/
theorem readEncryptedVsk_writeEncryptedVsk (hS : S.Ideal) (D : DuckDBHost σ) (E : DuckDBHost τ)
    (src : σ) (dst : τ) (replace : Bool) (m : Json ν) (pq : Text → Bytes) (there : Text → Bool)
    (hm : Packable N.toJsNumbers D src m pq there) (contentKey : Bytes)
    (hk : contentKey.length = S.blob.keyBytes) (sender : Keypair) (hs : sender.Valid S)
    (recipients : List Keypair) (hr : ∀ r ∈ recipients, r.Valid S)
    (aadContext : Option (AadContext ν)) (hc : ∀ c ∈ aadContext, c.Good N)
    (blobNonce : S.blob.Nonce) (nonce : Keypair → S.envelope.Nonce) :
    ∃ (aad : Option Bytes) (envelope : Keypair → Envelope), contextAad N aadContext = .ok aad ∧
      (∀ r ∈ recipients,
        sealEnvelope S contentKey r.publicKey sender aad (nonce r) = .ok (envelope r)) ∧
      ∀ owner ∈ recipients, ∃ file,
        writeEncryptedVsk N S D src m contentKey (envelope owner) aadContext blobNonce = .ok file ∧
        (file.length ≤ MAX_VSK_BYTES → ∃ parts, readParts N file = .ok parts ∧
          parts.envelope = envelope owner ∧ parts.bound = aadContext.map (fun c => c.args N) ∧
          ∀ r ∈ recipients, ∀ external,
            (r = owner ∧ external = none ∨ external = some (envelope r)) →
            readEncryptedVsk N S E file dst sender.publicKey r replace external =
              loadResult E m pq there dst replace ∧
            ∀ file' external' parts', readParts N file' = .ok parts' →
              SingleChange (parts.withEnvelope external) (parts'.withEnvelope external') →
              parts'.withEnvelope external' ≠ parts.withEnvelope external →
              ∀ result, readEncryptedVsk N S E file' dst sender.publicKey r replace external' ≠
                .ok result) := by
  have hopen : ∀ r ∈ recipients, ∃ env,
      sealEnvelope S contentKey r.publicKey sender ((aadContext.map fun c => c.args N).map aadBytes)
        (nonce r) = .ok env ∧
      openEnvelope S env sender.publicKey r ((aadContext.map fun c => c.args N).map aadBytes) =
        .ok contentKey :=
    fun r hmem => openEnvelope_sealEnvelope hS hs (hr r hmem) contentKey _ (nonce r)
  choose! envelope hseal hopen using hopen
  have hnul : ∀ c ∈ aadContext, '\x00' ∉ c.sandboxId := fun c hmem => (hc c hmem).no_nul
  obtain ⟨c, hcipher, hwrite⟩ := writeEncryptedVsk_ok hS hm hk hnul blobNonce
  refine ⟨(aadContext.map fun c => c.args N).map aadBytes, envelope, contextAad_ok hnul, hseal, ?_⟩
  intro owner howner
  refine ⟨_, hwrite (envelope owner), fun hlen => ?_⟩
  have hparts := readParts_encryptedFile (version_cases aadContext) (envelope owner) blobNonce.bytes
    hc hlen
  refine ⟨_, hparts, rfl, rfl, ?_⟩
  intro r hmem external hext
  obtain ⟨hchecked, hfree⟩ := context_bound hc
  -- the envelope in use is the recipient's own
  have hused : ∀ p : EncryptedParts, p.envelope = envelope owner →
      (p.withEnvelope external).envelope = envelope r := by
    intro p hp
    rcases hext with ⟨rfl, rfl⟩ | rfl
    · exact hp
    · rfl
  have hdec : decryptParts S (EncryptedParts.withEnvelope
      { envelope := envelope owner
        blobNonce := blobNonce.bytes
        bound := aadContext.map fun c => c.args N
        data := c } external) sender.publicKey r = .ok (packedFile N.toJsNumbers m pq there) := by
    refine decryptParts_packed hS ?_ hcipher
    rw [hused _ rfl]
    exact hopen r hmem
  have hplain : (packedFile N.toJsNumbers m pq there).length ≤ MAX_VSK_BYTES := by
    have hgrows := hS.blob.grows _ _ _ _ _ hcipher
    rw [length_encryptedFile] at hlen
    omega
  refine ⟨?_, ?_⟩
  · rw [readEncryptedVsk_parts hparts hdec]
    exact readVsk_packedFile N.toJsNumbers hm hplain E dst replace
  · intro file' external' parts' hparts' hsingle hne result hread
    obtain ⟨plain', hdec', -⟩ := decryptParts_of_readEncryptedVsk hparts' hread
    have hsame := decryptParts_unchanged hS hdec hdec' hchecked hfree
      (readParts_checked (p := parts') hparts') hsingle
    exact hne hsame

end

end

/-! ## 3. A library to try it with -/

/-- A library of functions that meet the laws. -/
def overtSodium : Sodium where
  blob := overtAead 32 24
  envelope := overtAead 32 12
  agreement := overtAgreement 32
  generichash b := (b ++ List.replicate 32 0).take 32
  refusal := []

theorem overtSodium_ideal : overtSodium.Ideal where
  blob := overtAead_ideal 32 24
  envelope := overtAead_ideal 32 12
  agreement := overtAgreement_ideal 32
  length_hash b := by
    show ((b ++ List.replicate 32 0).take 32).length = 32
    rw [List.length_take, List.length_append, List.length_replicate]
    omega
  publicBytes := rfl

/-- A key pair of `overtSodium`. -/
def overtPair (b : UInt8) : Keypair := ⟨List.replicate 32 b, List.replicate 32 b⟩

theorem overtPair_valid (b : UInt8) : (overtPair b).Valid overtSodium := rfl

def zeroNonce (A : Aead) : A.Nonce := ⟨List.replicate A.nonceBytes 0, List.length_replicate⟩

theorem packable_oneTable : Packable natJs anyHost () (oneTable "0.2.0".toList) (fun _ => [])
    (fun _ => false) where
  manifest := by decide
  proper := proper_oneTable _
  version := by decide
  names := by unfold GoodNames; decide
  distinct := by decide
  exports := exports_oneTable _

/-- The context of a sandbox of the owner `overtPair 1`. -/
def overtContext (sandboxId : Text) : AadContext Nat := ⟨sandboxId, 1, List.replicate 32 1⟩

/-- The associated data of that context. -/
def overtAad (sandboxId : Text) : Bytes := aadBytes ((overtContext sandboxId).args natRuntime)

/-- The key `7…7`, sealed for the owner. -/
def overtEnvelope (sandboxId : Text) : Envelope where
  ciphertext := twice (overtHead (List.replicate 32 2) (List.replicate 12 0) (overtAad sandboxId) ++
    List.replicate 32 7)
  nonce := List.replicate 12 0

theorem sealEnvelope_overt (sandboxId : Text) :
    sealEnvelope overtSodium (List.replicate 32 7) (overtPair 1).publicKey (overtPair 1)
      (some (overtAad sandboxId)) (zeroNonce _) = .ok (overtEnvelope sandboxId) := rfl

/-- The packed sandbox, encrypted under the key `7…7`. -/
def overtCipher (sandboxId : Text) : Bytes :=
  twice (overtHead (List.replicate 32 7) (List.replicate 24 0) (overtAad sandboxId) ++
    packedFile natJs (oneTable "0.2.0".toList) (fun _ => []) fun _ => false)

/-- The encrypted file, with a version in its header. -/
def overtFile (w : Nat) (sandboxId : Text) : Bytes :=
  encryptedFile natRuntime w (envelopeBlock natRuntime (overtEnvelope sandboxId)
    (List.replicate 24 0) 2 (some (overtContext sandboxId))) (overtCipher sandboxId)

theorem overtContext_good : ∀ c ∈ some (overtContext "sb".toList), c.Good natRuntime := by
  intro c hc
  cases hc
  exact ⟨by decide, by decide, trivial, rfl⟩

theorem readEncryptedVsk_writeEncryptedVsk_two :
    ∃ (aad : Option Bytes) (envelope : Keypair → Envelope),
      contextAad natRuntime (some (overtContext "sb".toList)) = .ok aad ∧
      (∀ r ∈ [overtPair 1, overtPair 2],
        sealEnvelope overtSodium (List.replicate 32 7) r.publicKey (overtPair 1) aad (zeroNonce _) =
          .ok (envelope r)) ∧
      ∀ owner ∈ [overtPair 1, overtPair 2], ∃ file,
        writeEncryptedVsk natRuntime overtSodium anyHost () (oneTable "0.2.0".toList)
          (List.replicate 32 7) (envelope owner) (some (overtContext "sb".toList)) (zeroNonce _) =
            .ok file ∧
        (file.length ≤ MAX_VSK_BYTES → ∃ parts, readParts natRuntime file = .ok parts ∧
          parts.envelope = envelope owner ∧
          parts.bound = some ((overtContext "sb".toList).args natRuntime) ∧
          ∀ r ∈ [overtPair 1, overtPair 2], ∀ external,
            (r = owner ∧ external = none ∨ external = some (envelope r)) →
            readEncryptedVsk natRuntime overtSodium anyHost file () (overtPair 1).publicKey r false
                external =
              loadResult anyHost (oneTable "0.2.0".toList) (fun _ => []) (fun _ => false) () false ∧
            ∀ file' external' parts', readParts natRuntime file' = .ok parts' →
              SingleChange (parts.withEnvelope external) (parts'.withEnvelope external') →
              parts'.withEnvelope external' ≠ parts.withEnvelope external →
              ∀ result, readEncryptedVsk natRuntime overtSodium anyHost file' ()
                (overtPair 1).publicKey r false external' ≠ .ok result) :=
  readEncryptedVsk_writeEncryptedVsk (N := natRuntime) overtSodium_ideal anyHost anyHost () () false
    (oneTable "0.2.0".toList) (fun _ => []) (fun _ => false) packable_oneTable
    (List.replicate 32 7) rfl (overtPair 1) (overtPair_valid 1) [overtPair 1, overtPair 2]
    (by
      intro r hr
      simp only [List.mem_cons, List.not_mem_nil, or_false] at hr
      rcases hr with rfl | rfl <;> exact overtPair_valid _)
    (some (overtContext "sb".toList)) overtContext_good (zeroNonce _) (fun _ => zeroNonce _)

set_option maxRecDepth 20000 in
/-- A sandbox without an identity is written, and nobody can read the file: the reader takes the
    empty text for a missing one. -/
theorem readEncryptedVsk_noIdentity :
    ∃ aad envelope file, contextAad natRuntime (some (overtContext [])) = .ok aad ∧
      sealEnvelope overtSodium (List.replicate 32 7) (overtPair 1).publicKey (overtPair 1) aad
        (zeroNonce _) = .ok envelope ∧
      writeEncryptedVsk natRuntime overtSodium anyHost () (oneTable "0.2.0".toList)
        (List.replicate 32 7) envelope (some (overtContext [])) (zeroNonce _) = .ok file ∧
      file.length ≤ MAX_VSK_BYTES ∧
      readEncryptedVsk natRuntime overtSodium anyHost file () (overtPair 1).publicKey (overtPair 1)
        false none = .error (.format "MALFORMED_MANIFEST".toList
          "vsk: v2 envelope missing AAD context fields".toList) := by
  have hnul : ∀ c ∈ some (overtContext []), '\x00' ∉ c.sandboxId := by
    intro c hc
    obtain rfl := Option.some.inj hc
    exact List.not_mem_nil
  obtain ⟨c, hcipher, hwrite⟩ := writeEncryptedVsk_ok (N := natRuntime) overtSodium_ideal
    packable_oneTable (show (List.replicate 32 7).length = _ from rfl) hnul (zeroNonce _)
  obtain rfl : c = overtCipher [] := (encrypt_overtAead.mp hcipher).2
  refine ⟨_, _, _, contextAad_ok hnul, sealEnvelope_overt [], hwrite _, by decide, ?_⟩
  rw [readEncryptedVsk, readParts_block (version_cases _) _ _ (fun _ _ => trivial) (by decide)]
  rfl

end Veesker.Vsk
