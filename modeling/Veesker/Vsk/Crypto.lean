/-
  File:      Veesker/Vsk/Crypto.lean
  Subject:   BLOBS, ENVELOPES AND THE ASSOCIATED DATA (engine/src/crypto/blob.ts, envelope.ts,
             keypair.ts, aad.ts).

  The cipher library is a parameter, `Sodium`; what it makes of random bytes is an argument of the
  function that draws them. Associated data that is not given counts as empty. The texts of errors
  of the run time itself are not written out.

  * `openEnvelope_sealEnvelope`, `decryptBlob_encryptBlob` -- what was sealed is opened.
  * `aadBytes_inj` -- **the associated data determines what it is built from**.
-/
import Veesker.Format.Aead
import Veesker.Format.Base64
import Veesker.Text.Cut
import Veesker.Vsk.Manifest

namespace Veesker.Vsk

open Format

/-! ## 1. Values of the source language -/

/-- An error of the run time. -/
def typeError : Failure := .error "TypeError".toList

/-- The run time, as far as the code hands it values it has not checked. -/
structure Runtime (ν : Type) extends JsNumbers ν where
  /-- `n === k`. -/
  equals : ν → Nat → Bool
  /-- `Buffer.from(x, "base64")` of a value that is no string; none where it throws. -/
  otherBytes : Json ν → Option Bytes
  equals_ofNat : ∀ m k, m < 2 ^ 53 → k < 2 ^ 53 → equals (ofNat m) k = (m == k)

/-- A run time with the natural numbers for numbers. -/
def natRuntime : Runtime Nat where
  toJsNumbers := natJs
  equals m k := m == k
  otherBytes _ := none
  equals_ofNat _ _ _ _ := rfl

section

variable {ν : Type} (N : Runtime ν)

/-- `String(n)`. -/
def numText (n : ν) : Text :=
  if N.finite n then N.text n
  else if N.isNegative n then "-Infinity".toList
  else "Infinity".toList

mutual

/-- `String(x)` of a value that was read from JSON. -/
def jsString : Json ν → Except Failure Text
  | .null => .ok "null".toList
  | .bool b => .ok (if b then "true".toList else "false".toList)
  | .num n => .ok (numText N n)
  | .str s => .ok s
  | .arr items => do .ok (List.intercalate [','] (← jsStrings items))
  | .obj members =>
    -- an own `toString` hides the one every object has, and nothing from JSON can be called
    if (members.lookup "toString".toList).isSome then .error typeError
    else .ok "[object Object]".toList

/-- The texts `join` puts together: nothing for `null`. -/
def jsStrings : List (Json ν) → Except Failure (List Text)
  | [] => .ok []
  | .null :: vs => do .ok ([] :: (← jsStrings vs))
  | v :: vs => do .ok ((← jsString v) :: (← jsStrings vs))

end

/-- `!x`. -/
def isFalsy : Option (Json ν) → Bool
  | none => true
  | some .null => true
  | some (.bool b) => !b
  | some (.num n) => N.equals n 0
  | some (.str s) => s.isEmpty
  | some _ => false

/-- `x === k` of a whole number. -/
def isNat (x : Json ν) (k : Nat) : Bool :=
  match x with
  | .num n => N.equals n k
  | _ => false

/-- `Buffer.from(x, "base64")`. -/
def fromBase64 : Option (Json ν) → Except Failure Bytes
  | none => .error typeError
  | some (.str s) => .ok (base64Bytes s)
  | some x => match N.otherBytes x with
    | some bytes => .ok bytes
    | none => .error typeError

/-! ## 2. The cipher library -/

/-- The functions of the library. -/
structure Sodium where
  /-- `crypto_aead_xchacha20poly1305_ietf`. -/
  blob : Aead
  /-- `crypto_aead_chacha20poly1305_ietf`. -/
  envelope : Aead
  /-- `crypto_scalarmult` and `crypto_scalarmult_base`. -/
  agreement : KeyAgreement
  /-- `crypto_generichash(32, …)`. -/
  generichash : Bytes → Bytes
  /-- What it says where it refuses. -/
  refusal : Text

/-- The library with ideal ciphers and an ideal key agreement. -/
structure Sodium.Ideal (S : Sodium) : Prop where
  blob : S.blob.Ideal
  envelope : S.envelope.Ideal
  agreement : S.agreement.Ideal
  length_hash : ∀ b, (S.generichash b).length = S.envelope.keyBytes
  publicBytes : S.agreement.publicBytes = 32

structure Keypair where
  publicKey : Bytes
  privateKey : Bytes
  deriving DecidableEq, Inhabited

/-- The two keys belong together. -/
def Keypair.Valid (S : Sodium) (k : Keypair) : Prop :=
  S.agreement.base k.privateKey = some k.publicKey

structure Envelope where
  ciphertext : Bytes
  nonce : Bytes
  deriving DecidableEq, Inhabited

structure EncryptedBlob where
  ciphertext : Bytes
  nonce : Bytes
  deriving DecidableEq

variable (S : Sodium)

/-- A result of the library, or its exception. -/
def Sodium.orThrow {α : Type} : Option α → Except Failure α
  | some a => .ok a
  | none => .error (.error S.refusal)

def encryptBlob (key plaintext : Bytes) (aad : Option Bytes) (nonce : S.blob.Nonce) :
    Except Failure EncryptedBlob :=
  if key.length ≠ S.blob.keyBytes then
    .error (.error ("encryptBlob: key must be ".toList ++ natText S.blob.keyBytes ++
      " bytes (got ".toList ++ natText key.length ++ ")".toList))
  else do
    let ciphertext ← S.orThrow (S.blob.encrypt key nonce.bytes (aad.getD []) plaintext)
    .ok ⟨ciphertext, nonce.bytes⟩

def decryptBlob (key ciphertext nonce : Bytes) (aad : Option Bytes) : Except Failure Bytes :=
  S.orThrow (S.blob.decrypt key nonce (aad.getD []) ciphertext)

def deriveSharedKey (myPriv theirPub : Bytes) : Except Failure Bytes := do
  let shared ← S.orThrow (S.agreement.agree myPriv theirPub)
  .ok (S.generichash shared)

def sealEnvelope (contentKey recipientPubkey : Bytes) (sender : Keypair) (aad : Option Bytes)
    (nonce : S.envelope.Nonce) : Except Failure Envelope := do
  let sharedKey ← deriveSharedKey S sender.privateKey recipientPubkey
  let ciphertext ← S.orThrow (S.envelope.encrypt sharedKey nonce.bytes (aad.getD []) contentKey)
  .ok ⟨ciphertext, nonce.bytes⟩

def openEnvelope (envelope : Envelope) (senderPubkey : Bytes) (recipient : Keypair)
    (aad : Option Bytes) : Except Failure Bytes := do
  let sharedKey ← deriveSharedKey S recipient.privateKey senderPubkey
  S.orThrow (S.envelope.decrypt sharedKey envelope.nonce (aad.getD []) envelope.ciphertext)

/-- An envelope for each recipient; `nonce` numbers the nonces that are drawn. -/
def sealForRecipients (contentKey : Bytes) (recipients : List (Text × Bytes)) (sender : Keypair)
    (nonce : Nat → S.envelope.Nonce) : Except Failure (List (Text × Envelope)) := do
  recipients.forM fun (userId, x25519Pubkey) =>
    if x25519Pubkey.length ≠ 32 then
      .error (.error ("x25519Pubkey must be 32 bytes, got ".toList ++ natText x25519Pubkey.length ++
        " for userId=".toList ++ userId))
    else .ok ()
  recipients.zipIdx.mapM fun ((userId, x25519Pubkey), i) => do
    .ok (userId, ← sealEnvelope S contentKey x25519Pubkey sender none (nonce i))

def pubkeyFromBase64 (s : Option (Json ν)) : Except Failure Bytes := do
  let bytes ← fromBase64 N s
  if bytes.length ≠ 32 then
    .error (.error ("pubkeyFromBase64: expected 32 bytes, got ".toList ++ natText bytes.length))
  else .ok bytes

/-! ## 3. The associated data -/

/-- What `buildAad` puts together, the values already as texts. -/
structure AadArgs where
  sandboxId : Text
  sandboxVersion : Text
  recipientPubkey : Bytes
  formatVersion : Nat
  deriving DecidableEq

/-- `"VSK\0AAD\0v1\0"`. -/
def aadMagic : Bytes := utf8Bytes "VSK\x00AAD\x00v1\x00".toList

def aadBytes (a : AadArgs) : Bytes :=
  aadMagic ++ (utf8Bytes a.sandboxId ++ (0 :: (utf8Bytes a.sandboxVersion ++
    (0 :: (a.recipientPubkey ++ (0 :: (leBytes 2 a.formatVersion).reverse))))))

/-- `args.sandboxId.includes("\0")`. -/
def includesNul : Json ν → Except Failure Bool
  | .str s => .ok (s.contains '\x00')
  | .arr items => .ok (items.any fun v => asString v == some ['\x00'])
  | _ => .error typeError

/-- The checks and conversions of `buildAad`. -/
def aadArgs (sandboxId sandboxVersion : Json ν) (recipientPubkey : Bytes) (formatVersion : Nat) :
    Except Failure AadArgs := do
  if ← includesNul sandboxId then
    .error (.error "buildAad: sandboxId must not contain NUL bytes".toList)
  else
    let sandboxId ← jsString N sandboxId
    let sandboxVersion ← jsString N sandboxVersion
    .ok { sandboxId, sandboxVersion, recipientPubkey, formatVersion }

def buildAad (sandboxId sandboxVersion : Json ν) (recipientPubkey : Bytes) (formatVersion : Nat) :
    Except Failure Bytes :=
  (aadArgs N sandboxId sandboxVersion recipientPubkey formatVersion).map aadBytes

end

/-! ## 4. What was sealed is opened -/

theorem bind_ok {α β ε : Type} {x : Except ε α} {f : α → Except ε β} {r : β} :
    x >>= f = .ok r ↔ ∃ a, x = .ok a ∧ f a = .ok r := by
  cases x with
  | error e => exact ⟨nofun, nofun⟩
  | ok a => exact ⟨fun h => ⟨a, rfl, h⟩, fun ⟨b, hb, hf⟩ => by cases hb; exact hf⟩

section

variable {S : Sodium}

theorem Sodium.orThrow_ok {α : Type} {x : Option α} {a : α} :
    S.orThrow x = .ok a ↔ x = some a := by
  cases x with
  | none => exact ⟨nofun, nofun⟩
  | some b => simp only [Sodium.orThrow, Except.ok.injEq, Option.some.injEq]

/-- **A key pair's secret with another's public key is the other's with its own.** -/
theorem deriveSharedKey_agrees (hS : S.Ideal) {a b : Keypair} (ha : a.Valid S) (hb : b.Valid S) :
    ∃ k, deriveSharedKey S a.privateKey b.publicKey = .ok k ∧
      deriveSharedKey S b.privateKey a.publicKey = .ok k ∧ k.length = S.envelope.keyBytes := by
  obtain ⟨s, h1, h2⟩ := hS.agreement.agrees _ _ _ _ ha hb
  refine ⟨S.generichash s, ?_, ?_, hS.length_hash s⟩
  · rw [deriveSharedKey, h1]
    rfl
  · rw [deriveSharedKey, h2]
    rfl

/-- **Between two valid key pairs an envelope is sealed, and it is opened to the sealed key.** -/
theorem openEnvelope_sealEnvelope (hS : S.Ideal) {sender recipient : Keypair}
    (hs : sender.Valid S) (hr : recipient.Valid S) (contentKey : Bytes) (aad : Option Bytes)
    (nonce : S.envelope.Nonce) :
    ∃ env, sealEnvelope S contentKey recipient.publicKey sender aad nonce = .ok env ∧
      openEnvelope S env sender.publicKey recipient aad = .ok contentKey := by
  obtain ⟨k, h1, h2, hk⟩ := deriveSharedKey_agrees hS hs hr
  obtain ⟨c, hc⟩ := hS.envelope.encrypts k nonce.bytes (aad.getD []) contentKey hk nonce.length_bytes
  refine ⟨⟨c, nonce.bytes⟩, ?_, ?_⟩
  · rw [sealEnvelope, h1]
    simp only [Bind.bind, Except.bind, hc]
    rfl
  · rw [openEnvelope, h2]
    exact Sodium.orThrow_ok.mpr (hS.envelope.decrypt_encrypt hc)

theorem decryptBlob_ok {key c nonce plain : Bytes} {aad : Option Bytes} :
    decryptBlob S key c nonce aad = .ok plain ↔
      S.blob.decrypt key nonce (aad.getD []) c = some plain := Sodium.orThrow_ok

theorem encryptBlob_ok (hS : S.Ideal) {key : Bytes} (hk : key.length = S.blob.keyBytes)
    (plain : Bytes) (aad : Option Bytes) (nonce : S.blob.Nonce) :
    ∃ c, S.blob.encrypt key nonce.bytes (aad.getD []) plain = some c ∧
      encryptBlob S key plain aad nonce = .ok ⟨c, nonce.bytes⟩ := by
  obtain ⟨c, hc⟩ := hS.blob.encrypts key nonce.bytes (aad.getD []) plain hk nonce.length_bytes
  refine ⟨c, hc, ?_⟩
  rw [encryptBlob, if_neg (not_not_intro hk), hc]
  rfl

theorem pubkeyFromBase64_base64Text {ν : Type} (N : Runtime ν) {pk : Bytes} (h : pk.length = 32) :
    pubkeyFromBase64 N (some (.str (base64Text pk))) = .ok pk := by
  simp only [pubkeyFromBase64, fromBase64, base64Bytes_base64Text, Bind.bind, Except.bind, h]
  rfl

end

/-! ## 5. The associated data determines its parts -/

theorem nul_notMem_utf8Bytes {t : Text} (h : '\x00' ∉ t) : 0 ∉ utf8Bytes t :=
  fun hm => h (mem_utf8Bytes_ascii hm (by decide))

/-- The parts are determined by their bytes. -/
theorem AadArgs.eq_of_bytes {a b : AadArgs} (hids : utf8Bytes a.sandboxId = utf8Bytes b.sandboxId)
    (hvs : utf8Bytes a.sandboxVersion = utf8Bytes b.sandboxVersion)
    (hpks : a.recipientPubkey = b.recipientPubkey) (hfa : a.formatVersion < 2 ^ 16)
    (hfb : b.formatVersion < 2 ^ 16)
    (hfs : (leBytes 2 a.formatVersion).reverse = (leBytes 2 b.formatVersion).reverse) : a = b := by
  have hfs := congrArg leNat (List.reverse_injective hfs)
  rw [leNat_leBytes (by norm_num at hfa ⊢; exact hfa),
    leNat_leBytes (by norm_num at hfb ⊢; exact hfb)] at hfs
  have hids := utf8Bytes_injective hids
  have hvs := utf8Bytes_injective hvs
  obtain ⟨ida, va, pka, fa⟩ := a
  obtain ⟨idb, vb, pkb, fb⟩ := b
  cases hids
  cases hvs
  cases hpks
  cases hfs
  rfl

/-- **Different parts, different associated data.** The texts of `a` hold no NUL; those of `b` are
    arbitrary. -/
theorem aadBytes_inj {a b : AadArgs} (hid : '\x00' ∉ a.sandboxId) (hv : '\x00' ∉ a.sandboxVersion)
    (hpk : a.recipientPubkey.length = b.recipientPubkey.length) (hfa : a.formatVersion < 2 ^ 16)
    (hfb : b.formatVersion < 2 ^ 16) (h : aadBytes a = aadBytes b) : a = b := by
  have h := List.append_cancel_left h
  -- the parts of fixed length stand at the end
  have hends : (utf8Bytes a.sandboxId ++ 0 :: utf8Bytes a.sandboxVersion) ++
      (0 :: (a.recipientPubkey ++ 0 :: (leBytes 2 a.formatVersion).reverse)) =
      (utf8Bytes b.sandboxId ++ 0 :: utf8Bytes b.sandboxVersion) ++
      (0 :: (b.recipientPubkey ++ 0 :: (leBytes 2 b.formatVersion).reverse)) := by
    simpa only [List.append_assoc, List.cons_append] using h
  obtain ⟨hhead, htail⟩ := List.append_inj' hends (by
    simp only [List.length_cons, List.length_append, List.length_reverse, length_leBytes, hpk])
  obtain ⟨hids, hvs⟩ :=
    cut_at_only (nul_notMem_utf8Bytes hid) (nul_notMem_utf8Bytes hv) hhead
  obtain ⟨hpks, hfs⟩ := List.append_inj (List.cons.inj htail).2 hpk
  exact AadArgs.eq_of_bytes hids hvs hpks hfa hfb (List.cons.inj hfs).2

theorem buildAad_ok {ν : Type} {N : Runtime ν} {sandboxId sandboxVersion : Json ν} {pk : Bytes}
    {k : Nat} {aad : Bytes} (h : buildAad N sandboxId sandboxVersion pk k = .ok aad) :
    ∃ a, aadArgs N sandboxId sandboxVersion pk k = .ok a ∧ aadBytes a = aad := by
  rw [buildAad] at h
  cases ha : aadArgs N sandboxId sandboxVersion pk k with
  | error e =>
    rw [ha] at h
    cases h
  | ok a =>
    rw [ha] at h
    exact ⟨a, rfl, Except.ok.inj h⟩

/-- Associated data is never empty. -/
theorem aadBytes_ne_nil (a : AadArgs) : aadBytes a ≠ [] := by
  intro h
  exact absurd (List.append_eq_nil_iff.mp h).1 (by decide)

end Veesker.Vsk
