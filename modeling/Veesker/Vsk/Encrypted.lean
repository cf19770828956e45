/-
  File:      Veesker/Vsk/Encrypted.lean
  Subject:   THE ENCRYPTED FILE: `writeEncryptedVsk` (engine/src/vsk-format/writer.ts) and
             `readEncryptedVsk` (reader.ts).

  The reader is cut where the keys come in: `readParts` is all it takes from the file itself.

  * `readParts_encryptedFile` -- what such a file holds is what was put into it, under any
    supported version in its header.
-/
import Veesker.Vsk.Crypto
import Veesker.Vsk.RoundTrip

namespace Veesker.Vsk

open Format List

section

variable {σ ν : Type} (N : Runtime ν) (S : Sodium)

/-! ## 1. The writer -/

/-- `EncryptedVskAadContext`. -/
structure AadContext (ν : Type) where
  sandboxId : Text
  sandboxVersion : ν
  recipientPubkey : Bytes

/-- `envelopeBlockObj`. -/
def envelopeBlock (envelope : Envelope) (blobNonce : Bytes) (formatVersion : Nat)
    (aadContext : Option (AadContext ν)) : Json ν :=
  .obj ([
    ("nonce".toList, .str (base64Text envelope.nonce)),
    ("ciphertext".toList, .str (base64Text envelope.ciphertext)),
    ("blobNonce".toList, .str (base64Text blobNonce)),
    ("formatVersion".toList, .num (N.ofNat formatVersion))] ++
    match aadContext with
    | some c => [
      ("sandboxId".toList, .str c.sandboxId),
      ("sandboxVersion".toList, .num c.sandboxVersion),
      ("recipientPubkey".toList, .str (base64Text c.recipientPubkey))]
    | none => [])

/-- Header, envelope block and ciphertext. -/
def encryptedFile (formatVersion : Nat) (block : Json ν) (ciphertext : Bytes) : Bytes :=
  let envelopeBytes := utf8Bytes (stringify N.toNumbers block)
  writeHeader {
    formatVersion
    manifestOffset := 0
    manifestLength := 0
    dataOffset := HEADER_SIZE + envelopeBytes.length
    dataLength := ciphertext.length
    envelopeOffset := HEADER_SIZE
    envelopeLength := envelopeBytes.length } ++ (envelopeBytes ++ ciphertext)

/-- The associated data of a context, none without one. -/
def contextAad (aadContext : Option (AadContext ν)) : Except Failure (Option Bytes) :=
  match aadContext with
  | none => .ok none
  | some c => do
    .ok (some (← buildAad N (.str c.sandboxId) (.num c.sandboxVersion) c.recipientPubkey FORMAT_V2))

/-- The bytes of the file `writeEncryptedVsk` leaves at its path. -/
def writeEncryptedVsk (D : DuckDBHost σ) (src : σ) (manifest : Json ν) (contentKey : Bytes)
    (envelope : Envelope) (aadContext : Option (AadContext ν)) (blobNonce : S.blob.Nonce) :
    Except Failure Bytes := do
  let plainBytes ← writeVsk N.toJsNumbers D src manifest
  let formatVersion := if aadContext.isSome then FORMAT_V2 else FORMAT_V1
  let blobAad ← contextAad N aadContext
  let encrypted ← encryptBlob S contentKey plainBytes blobAad blobNonce
  .ok (encryptedFile N formatVersion (envelopeBlock N envelope encrypted.nonce formatVersion aadContext)
    encrypted.ciphertext)

/-! ## 2. The reader -/

/-- `x ?? y`. -/
def orElse (x : Option (Json ν)) (y : Json ν) : Json ν :=
  match x with
  | none => y
  | some .null => y
  | some v => v

/-- `meta.formatVersion ?? 1`; `null` has no members to ask for. -/
def envelopeVersion (block : Json ν) : Except Failure (Json ν) :=
  match block with
  | .null => .error typeError
  | _ => .ok (orElse (member block "formatVersion".toList) (.num (N.ofNat 1)))

/-- `header.formatVersion === 0 ? 1 : header.formatVersion`. -/
def headerVersion (header : VskHeader) : Nat :=
  if header.formatVersion = 0 then 1 else header.formatVersion

/-- `isSupportedFormat` of what stands in an envelope. -/
def isSupportedVersion (v : Json ν) : Bool := isNat N v FORMAT_V1 || isNat N v FORMAT_V2

/-- The two versions are ones the reader knows. -/
def checkVersions (envelopeFmtVersion : Json ν) (headerFmtVersion : Nat) : Except Failure Unit :=
  if !isSupportedVersion N envelopeFmtVersion || !isSupportedFormat headerFmtVersion then do
    .error (.format "UNSUPPORTED_FORMAT".toList
      ("vsk: unsupported format version (envelope=".toList ++ (← jsString N envelopeFmtVersion) ++
        ", header=".toList ++ natText headerFmtVersion ++ ")".toList))
  else .ok ()

/-- What the associated data of a file is built from; none for version 1. -/
def boundArgs (block envelopeFmtVersion : Json ν) : Except Failure (Option AadArgs) :=
  if isNat N envelopeFmtVersion FORMAT_V2 then
    match member block "sandboxVersion".toList with
    | none =>
      .error (.format "MALFORMED_MANIFEST".toList "vsk: v2 envelope missing AAD context fields".toList)
    | some sandboxVersion =>
      if isFalsy N (member block "sandboxId".toList) ||
          isFalsy N (member block "recipientPubkey".toList) then
        .error (.format "MALFORMED_MANIFEST".toList
          "vsk: v2 envelope missing AAD context fields".toList)
      else do
        let recipientPubkey ← pubkeyFromBase64 N (member block "recipientPubkey".toList)
        .ok (some (← aadArgs N ((member block "sandboxId".toList).getD .null) sandboxVersion
          recipientPubkey FORMAT_V2))
  else .ok none

/-- What the reader takes from a file before any key is used. -/
structure EncryptedParts where
  envelope : Envelope
  blobNonce : Bytes
  bound : Option AadArgs
  data : Bytes
  deriving DecidableEq

/-- The header, and the envelope block as it was read. -/
def readEnvelopeBlock (file : Bytes) : Except Failure (VskHeader × Json ν) := do
  let buf ← readFileViaSingleFd file
  let header ← readHeader (subarray buf 0 HEADER_SIZE)
  if header.envelopeLength = 0 then
    .error (.format "BAD_TAG".toList "vsk: file is plaintext, use readVsk".toList)
  else do
    checkSection buf "envelope".toList "vsk: envelope section exceeds file bounds".toList
      header.envelopeOffset header.envelopeLength
    checkSection buf "data".toList "vsk: data section exceeds file bounds".toList
      header.dataOffset header.dataLength
    let envelopeJson := decodeText
      (subarray buf header.envelopeOffset (header.envelopeOffset + header.envelopeLength))
    match parse N.toNumbers envelopeJson with
    | none => .error (.format "MALFORMED_MANIFEST".toList "vsk: malformed envelope JSON".toList)
    | some block => .ok (header, block)

def readParts (file : Bytes) : Except Failure EncryptedParts := do
  let (header, block) ← readEnvelopeBlock N file
  let envelopeFmtVersion ← envelopeVersion N block
  checkVersions N envelopeFmtVersion (headerVersion header)
  let nonce ← fromBase64 N (member block "nonce".toList)
  let ciphertext ← fromBase64 N (member block "ciphertext".toList)
  let blobNonce ← fromBase64 N (member block "blobNonce".toList)
  let bound ← boundArgs N block envelopeFmtVersion
  .ok {
    envelope := { nonce, ciphertext }
    blobNonce
    bound
    data := subarray file header.dataOffset (header.dataOffset + header.dataLength) }

/-- The plain file inside an encrypted one. -/
def decryptParts (parts : EncryptedParts) (senderPubkey : Bytes) (recipient : Keypair) :
    Except Failure Bytes := do
  let aad := parts.bound.map aadBytes
  let contentKey ← openEnvelope S parts.envelope senderPubkey recipient aad
  decryptBlob S contentKey parts.data parts.blobNonce aad

/-- The parts with `externalEnvelope ?? embeddedEnvelope` for their envelope. -/
def EncryptedParts.withEnvelope (parts : EncryptedParts) (externalEnvelope : Option Envelope) :
    EncryptedParts :=
  { parts with envelope := externalEnvelope.getD parts.envelope }

/-- The result of `readEncryptedVsk` and the database it leaves. -/
def readEncryptedVsk (D : DuckDBHost σ) (file : Bytes) (dst : σ) (senderPubkey : Bytes)
    (recipient : Keypair) (replace : Bool) (externalEnvelope : Option Envelope) :
    Except Failure (ReadVskResult ν × σ) := do
  let parts ← readParts N file
  let plainBytes ← decryptParts S (parts.withEnvelope externalEnvelope) senderPubkey recipient
  readVsk N.toJsNumbers D plainBytes dst replace

/-! ## 3. What such a file holds -/

variable {N}

theorem length_encryptedFile (w : Nat) (block : Json ν) (c : Bytes) :
    (encryptedFile N w block c).length =
      HEADER_SIZE + (utf8Bytes (stringify N.toNumbers block)).length + c.length := by
  rw [encryptedFile, length_append, length_writeHeader, length_append, Nat.add_assoc]

/-- The header of an encrypted file. -/
def encryptedHeader (N : Runtime ν) (formatVersion : Nat) (block : Json ν) (ciphertext : Bytes) :
    VskHeader where
  formatVersion
  manifestOffset := 0
  manifestLength := 0
  dataOffset := HEADER_SIZE + (utf8Bytes (stringify N.toNumbers block)).length
  dataLength := ciphertext.length
  envelopeOffset := HEADER_SIZE
  envelopeLength := (utf8Bytes (stringify N.toNumbers block)).length

/-- The data section of an encrypted file is its ciphertext. -/
theorem subarray_encryptedFile (w : Nat) (block : Json ν) (c : Bytes) :
    subarray (encryptedFile N w block c) (encryptedHeader N w block c).dataOffset
      ((encryptedHeader N w block c).dataOffset + (encryptedHeader N w block c).dataLength) = c := by
  rw [subarray, encryptedFile, encryptedHeader, ← append_assoc]
  simp only
  rw [Nat.add_sub_cancel_left, drop_append,
    drop_eq_nil_of_le (by rw [length_append, length_writeHeader]), nil_append,
    length_append, length_writeHeader, Nat.sub_self, drop_zero, take_length]

/-- **The block of such a file is read back**, whatever version its header says. -/
theorem readEnvelopeBlock_encryptedFile {w : Nat} (hw : w < 2 ^ 16) {members : List (Text × Json ν)}
    (hp : (Json.obj members).Proper N.toNumbers) {c : Bytes}
    (hlen : (encryptedFile N w (.obj members) c).length ≤ MAX_VSK_BYTES) :
    readEnvelopeBlock N (encryptedFile N w (.obj members) c) =
      .ok (encryptedHeader N w (.obj members) c, .obj members) := by
  have hl := length_encryptedFile (N := N) w (.obj members) c
  have hmax : MAX_VSK_BYTES = 17179869184 := by decide
  rw [hl, hmax, HEADER_SIZE] at hlen
  have hne : (utf8Bytes (stringify N.toNumbers (.obj members))).length ≠ 0 := by
    obtain ⟨t, e⟩ : ∃ t, stringify N.toNumbers (.obj members) = '\x7b' :: t :=
      ⟨_, by rw [stringify]⟩
    rw [e, utf8Bytes_cons, length_append]
    have : (utf8Char '\x7b').length = 1 := by decide
    omega
  have hhead : subarray (encryptedFile N w (.obj members) c) 0 HEADER_SIZE =
      writeHeader (encryptedHeader N w (.obj members) c) := by
    rw [subarray, encryptedFile, drop_zero, Nat.sub_zero,
      take_append_of_le_length (by rw [length_writeHeader]),
      take_of_length_le (by rw [length_writeHeader])]
    rfl
  have hfit := readHeader_writeHeader (h := encryptedHeader N w (.obj members) c)
    (by constructor <;> simp only [encryptedHeader, HEADER_SIZE] <;> omega)
  have hblock : subarray (encryptedFile N w (.obj members) c) HEADER_SIZE
      (HEADER_SIZE + (utf8Bytes (stringify N.toNumbers (.obj members))).length) =
      utf8Bytes (stringify N.toNumbers (.obj members)) := by
    rw [subarray, encryptedFile, drop_append, drop_eq_nil_of_le (by rw [length_writeHeader]),
      nil_append, length_writeHeader, Nat.sub_self, drop_zero, Nat.add_sub_cancel_left,
      take_left]
  have h0 : readFileViaSingleFd (encryptedFile N w (.obj members) c) =
      .ok (encryptedFile N w (.obj members) c) := by
    rw [readFileViaSingleFd, if_neg]
    rw [hl, hmax, HEADER_SIZE]
    omega
  have h1 : checkSection (encryptedFile N w (.obj members) c) "envelope".toList
      "vsk: envelope section exceeds file bounds".toList HEADER_SIZE
      (utf8Bytes (stringify N.toNumbers (.obj members))).length = .ok () := by
    rw [checkSection, if_neg]
    rw [hl, hmax, HEADER_SIZE]
    omega
  have h2 : checkSection (encryptedFile N w (.obj members) c) "data".toList
      "vsk: data section exceeds file bounds".toList
      (HEADER_SIZE + (utf8Bytes (stringify N.toNumbers (.obj members))).length) c.length = .ok () := by
    rw [checkSection, if_neg]
    rw [hl, hmax, HEADER_SIZE]
    omega
  rw [readEnvelopeBlock, h0]
  simp only [Bind.bind, Except.bind, hhead, hfit]
  rw [if_neg (by exact hne)]
  simp only [encryptedHeader, h1, h2, hblock, parse_decodeText N.toJsNumbers hp]

/-- What a context's associated data is built from. -/
def AadContext.args (N : Runtime ν) (c : AadContext ν) : AadArgs where
  sandboxId := c.sandboxId
  sandboxVersion := numText N c.sandboxVersion
  recipientPubkey := c.recipientPubkey
  formatVersion := FORMAT_V2

/-- A context the reader takes as well: an identity that is not empty and holds no NUL, a version
    that is printed exactly, a key of 32 bytes. -/
structure AadContext.Good (N : Runtime ν) (c : AadContext ν) : Prop where
  ne_nil : c.sandboxId ≠ []
  no_nul : '\x00' ∉ c.sandboxId
  exact : N.Exact c.sandboxVersion
  length_key : c.recipientPubkey.length = 32

theorem aadArgs_context {c : AadContext ν} (h : '\x00' ∉ c.sandboxId) :
    aadArgs N (.str c.sandboxId) (.num c.sandboxVersion) c.recipientPubkey FORMAT_V2 =
      .ok (c.args N) := by
  have hc : c.sandboxId.contains '\x00' = false := by
    rw [Bool.eq_false_iff]
    exact fun hm => h (elem_iff.mp hm)
  simp only [aadArgs, includesNul, Bind.bind, Except.bind, hc, Bool.false_eq_true, ↓reduceIte,
    jsString]
  rfl

variable {aadContext : Option (AadContext ν)}

theorem contextAad_ok
    (h : ∀ c ∈ aadContext, '\x00' ∉ c.sandboxId) :
    contextAad N aadContext = .ok ((aadContext.map fun c => c.args N).map aadBytes) := by
  cases aadContext with
  | none => rfl
  | some c =>
    rw [contextAad, buildAad, aadArgs_context (h c rfl)]
    rfl

theorem envelopeBlock_proper {envelope : Envelope} {blobNonce : Bytes}
    (h : ∀ c ∈ aadContext, N.Exact c.sandboxVersion) {k : Nat}
    (hk : k < 2 ^ 53) : (envelopeBlock N envelope blobNonce k aadContext).Proper N.toNumbers := by
  cases aadContext with
  | none =>
    simp only [envelopeBlock, append_nil, Json.Proper, ProperMembers, and_true, true_and,
      map_cons, map_nil]
    exact ⟨by decide, N.exact_ofNat k hk⟩
  | some c =>
    simp only [envelopeBlock, cons_append, nil_append, Json.Proper, ProperMembers,
      and_true, true_and, map_cons, map_nil]
    exact ⟨by decide, N.exact_ofNat k hk, h c rfl⟩

theorem readEnvelopeBlock_written {w : Nat} (hw : w < 2 ^ 16) (envelope : Envelope)
    (blobNonce : Bytes)
    (h : ∀ c ∈ aadContext, N.Exact c.sandboxVersion) {k : Nat} (hk : k < 2 ^ 53) {c : Bytes}
    (hlen : (encryptedFile N w (envelopeBlock N envelope blobNonce k aadContext) c).length ≤
      MAX_VSK_BYTES) :
    readEnvelopeBlock N (encryptedFile N w (envelopeBlock N envelope blobNonce k aadContext) c) =
      .ok (encryptedHeader N w (envelopeBlock N envelope blobNonce k aadContext) c,
        envelopeBlock N envelope blobNonce k aadContext) :=
  readEnvelopeBlock_encryptedFile hw (envelopeBlock_proper h hk) hlen

theorem isNat_ofNat {m k : Nat} (hm : m < 2 ^ 53) (hk : k < 2 ^ 53) :
    isNat N (.num (N.ofNat m)) k = (m == k) := N.equals_ofNat m k hm hk

/-- The version a context is written under. -/
def contextVersion (aadContext : Option (AadContext ν)) : Nat :=
  if aadContext.isSome then FORMAT_V2 else FORMAT_V1

/-- **Before any key is used**, an encrypted file gives its own parts, under any supported version
    in its header, as long as the associated data can be built. -/
theorem readParts_block {w : Nat} (hw : w = 0 ∨ w = 1 ∨ w = 2) (envelope : Envelope)
    (blobNonce : Bytes)
    (h : ∀ c ∈ aadContext, N.Exact c.sandboxVersion) {c : Bytes} (hlen : (encryptedFile N w
      (envelopeBlock N envelope blobNonce (contextVersion aadContext) aadContext) c).length ≤
        MAX_VSK_BYTES) :
    readParts N (encryptedFile N w
      (envelopeBlock N envelope blobNonce (contextVersion aadContext) aadContext) c) =
      (boundArgs N (envelopeBlock N envelope blobNonce (contextVersion aadContext) aadContext)
        (.num (N.ofNat (contextVersion aadContext)))).map fun bound =>
          { envelope, blobNonce, bound, data := c } := by
  have hw16 : w < 2 ^ 16 := by omega
  have hv : contextVersion aadContext < 2 ^ 53 := by
    unfold contextVersion FORMAT_V1 FORMAT_V2
    split <;> omega
  have hblock := readEnvelopeBlock_written hw16 envelope blobNonce h hv hlen
  have hheader : isSupportedFormat (headerVersion (encryptedHeader N w
      (envelopeBlock N envelope blobNonce (contextVersion aadContext) aadContext) c)) = true := by
    rcases hw with rfl | rfl | rfl <;> rfl
  have hversion : envelopeVersion N
      (envelopeBlock N envelope blobNonce (contextVersion aadContext) aadContext) =
      .ok (.num (N.ofNat (contextVersion aadContext))) := rfl
  have hcheck : checkVersions N (.num (N.ofNat (contextVersion aadContext)))
      (headerVersion (encryptedHeader N w
        (envelopeBlock N envelope blobNonce (contextVersion aadContext) aadContext) c)) = .ok () := by
    have hsup : isSupportedVersion N (.num (N.ofNat (contextVersion aadContext))) = true := by
      rw [isSupportedVersion, isNat_ofNat hv (by decide), isNat_ofNat hv (by decide)]
      cases aadContext <;> rfl
    rw [checkVersions, hsup, hheader]
    rfl
  have hnonce : fromBase64 N (member
      (envelopeBlock N envelope blobNonce (contextVersion aadContext) aadContext) "nonce".toList) =
      .ok envelope.nonce := congrArg Except.ok (base64Bytes_base64Text envelope.nonce)
  have hcipher : fromBase64 N (member
      (envelopeBlock N envelope blobNonce (contextVersion aadContext) aadContext)
      "ciphertext".toList) = .ok envelope.ciphertext :=
    congrArg Except.ok (base64Bytes_base64Text envelope.ciphertext)
  have hblobNonce : fromBase64 N (member
      (envelopeBlock N envelope blobNonce (contextVersion aadContext) aadContext)
      "blobNonce".toList) = .ok blobNonce := congrArg Except.ok (base64Bytes_base64Text blobNonce)
  rw [readParts, hblock]
  simp only [Bind.bind, Except.bind, hversion, hcheck, hnonce, hcipher, hblobNonce]
  cases boundArgs N (envelopeBlock N envelope blobNonce (contextVersion aadContext) aadContext)
    (.num (N.ofNat (contextVersion aadContext))) with
  | error e => rfl
  | ok bound =>
    simp only [subarray_encryptedFile]
    rfl

/-- **What an encrypted file holds is what was put into it.** -/
theorem readParts_encryptedFile {w : Nat} (hw : w = 0 ∨ w = 1 ∨ w = 2) (envelope : Envelope)
    (blobNonce : Bytes) (h : ∀ c ∈ aadContext, c.Good N)
    {c : Bytes} (hlen : (encryptedFile N w
      (envelopeBlock N envelope blobNonce (contextVersion aadContext) aadContext) c).length ≤
        MAX_VSK_BYTES) :
    readParts N (encryptedFile N w
      (envelopeBlock N envelope blobNonce (contextVersion aadContext) aadContext) c) =
      .ok { envelope, blobNonce, bound := aadContext.map fun c => c.args N, data := c } := by
  have hv : contextVersion aadContext < 2 ^ 53 := by
    unfold contextVersion FORMAT_V1 FORMAT_V2
    split <;> omega
  have hbound : boundArgs N
      (envelopeBlock N envelope blobNonce (contextVersion aadContext) aadContext)
      (.num (N.ofNat (contextVersion aadContext))) =
      .ok (aadContext.map fun c => c.args N) := by
    rw [boundArgs, isNat_ofNat hv (by decide)]
    cases aadContext with
    | none => rfl
    | some c =>
      have hid : isFalsy N (some (.str c.sandboxId)) = false := by
        rw [isFalsy, Bool.eq_false_iff]
        exact fun he => (h c rfl).ne_nil (List.isEmpty_iff.mp he)
      have hpk : isFalsy N (some (.str (base64Text c.recipientPubkey))) = false := by
        rw [isFalsy, Bool.eq_false_iff]
        intro he
        have := congrArg base64Bytes (List.isEmpty_iff.mp he)
        rw [base64Bytes_base64Text] at this
        have hl := (h c rfl).length_key
        rw [this] at hl
        exact absurd hl (by decide)
      show (if isFalsy N (some (.str c.sandboxId)) ||
        isFalsy N (some (.str (base64Text c.recipientPubkey))) then _ else _) = _
      rw [hid, hpk]
      show (pubkeyFromBase64 N (some (.str (base64Text c.recipientPubkey))) >>= fun pk => _) = _
      rw [pubkeyFromBase64_base64Text N (h c rfl).length_key]
      show (aadArgs N (.str c.sandboxId) (.num c.sandboxVersion) c.recipientPubkey FORMAT_V2 >>=
        fun a => _) = _
      rw [aadArgs_context (h c rfl).no_nul]
      rfl
  rw [readParts_block hw envelope blobNonce (fun c hc => (h c hc).exact) hlen, hbound]
  rfl

end

end Veesker.Vsk
