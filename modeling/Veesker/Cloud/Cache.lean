/-
  File:      Veesker/Cloud/Cache.lean
  Subject:   THE LOCAL COPY OF A SANDBOX (sidecar/src/sandbox-cloud/cache.ts, pull.ts, open.ts):
             pulling one from the service and opening it.

  The cache is a map from identities to a blob and its `meta.json`, which is not written out. Of
  `openSandbox` the reading is modelled, not the list of tables asked of the opened database.
-/
import Veesker.Cloud.Api
import Veesker.Vsk.Encrypted

namespace Veesker.Cloud

open Format Vsk

section

variable {ν σ : Type} (N : Runtime ν) (S : Sodium) (sha256Hex : Bytes → Text)

/-! ## 1. The cache -/

structure CacheMeta (ν : Type) where
  sandbox_id : Text
  name : Text
  description : Option Text
  owner_user_id : Text
  owner_x25519_pubkey_b64 : Text
  blob_sha256_hex : Text
  blob_size_bytes : Nat
  expires_at : Text
  ttl_days : ν
  spec_json : Json ν
  sealed_content_key_b64 : Text
  envelope_nonce_b64 : Text
  pulled_at : Text

/-- The envelope in a cache entry. -/
def CacheMeta.envelope (m : CacheMeta ν) : Envelope where
  ciphertext := base64Bytes m.sealed_content_key_b64
  nonce := base64Bytes m.envelope_nonce_b64

abbrev Cache (ν : Type) := Text → Option (Bytes × CacheMeta ν)

def writeCacheEntry (cache : Cache ν) (sandboxId : Text) (blob : Bytes) (m : CacheMeta ν) : Cache ν :=
  fun id =>
    if id = sandboxId then
      some (blob, { m with
        sandbox_id := sandboxId
        blob_sha256_hex := sha256Hex blob
        blob_size_bytes := blob.length })
    else cache id

def readCacheEntry (cache : Cache ν) (sandboxId : Text) : Except Failure (Bytes × CacheMeta ν) :=
  match cache sandboxId with
  | none => .error (.error ("Sandbox ".toList ++ sandboxId ++ " not in cache".toList))
  | some (blob, m) =>
    let computed := sha256Hex blob
    if computed ≠ m.blob_sha256_hex then
      .error (.error ("Sandbox ".toList ++ sandboxId ++ " cache corrupt: sha256 mismatch (file=".toList ++
        computed ++ " meta=".toList ++ m.blob_sha256_hex ++ ")".toList))
    else .ok (blob, m)

/-! ## 2. Pulling and opening -/

structure PullResult where
  sandbox_id : Text
  name : Text
  status : Text
  blob_size_bytes : Nat
  pulled_at : Text
  deriving DecidableEq

def pullSandbox (api : Api ν) (cache : Cache ν) (sandboxId pulledAt : Text) :
    Except Failure (PullResult × Cache ν) := do
  let resp ← api.sandbox sandboxId
  let blob ← api.download resp.download_url
  let computedSha := sha256Hex blob
  if computedSha ≠ resp.sandbox.blob_sha256_hex then
    .error (.error ("sha256 mismatch: expected ".toList ++ resp.sandbox.blob_sha256_hex ++
      ", got ".toList ++ computedSha))
  else do
    let ownerPub ← api.pubkey resp.sandbox.owner_user_id
    let entry : CacheMeta ν := {
      sandbox_id := resp.sandbox.id
      name := resp.sandbox.name
      description := resp.sandbox.description
      owner_user_id := resp.sandbox.owner_user_id
      owner_x25519_pubkey_b64 := ownerPub
      blob_sha256_hex := computedSha
      blob_size_bytes := blob.length
      expires_at := resp.sandbox.expires_at
      ttl_days := resp.sandbox.ttl_days
      spec_json := resp.sandbox.spec_json
      sealed_content_key_b64 := resp.sealed_content_key
      envelope_nonce_b64 := resp.envelope_nonce
      pulled_at := pulledAt }
    .ok (⟨sandboxId, resp.sandbox.name, resp.sandbox.status, blob.length, pulledAt⟩,
      writeCacheEntry sha256Hex cache sandboxId blob entry)

/-- The reading of `openSandbox`, for a member whose private key is in the key store. -/
def openSandbox (E : DuckDBHost σ) (cache : Cache ν) (sandboxId : Text)
    (privateKey : Option Bytes) : Except Failure (ReadVskResult ν × σ) := do
  let (blob, entry) ← readCacheEntry sha256Hex cache sandboxId
  match privateKey with
  | none => .error (.error "keystore: no private key registered for current member".toList)
  | some memberPriv =>
    let memberPub ← S.orThrow (S.agreement.base memberPriv)
    let ownerPub ← pubkeyFromBase64 N (some (.str entry.owner_x25519_pubkey_b64))
    readEncryptedVsk N S E blob E.openInMemory ownerPub ⟨memberPub, memberPriv⟩ false
      (some entry.envelope)

/-! ## 3. What was pulled is what is read -/

variable {sha256Hex}

@[simp] theorem readCacheEntry_writeCacheEntry (cache : Cache ν) (id : Text) (blob : Bytes)
    (m : CacheMeta ν) :
    readCacheEntry sha256Hex (writeCacheEntry sha256Hex cache id blob m) id = .ok (blob, { m with
      sandbox_id := id
      blob_sha256_hex := sha256Hex blob
      blob_size_bytes := blob.length }) := by
  simp only [readCacheEntry, writeCacheEntry, ↓reduceIte, ne_eq, not_true_eq_false]

/-- **A pull leaves the service's envelope and the downloaded blob in the cache.** -/
theorem pullSandbox_entry {api : Api ν} {cache cache' : Cache ν} {id pulledAt : Text}
    {result : PullResult} (h : pullSandbox sha256Hex api cache id pulledAt = .ok (result, cache')) :
    ∃ resp blob ownerPub entry, api.sandbox id = .ok resp ∧ api.download resp.download_url = .ok blob ∧
      api.pubkey resp.sandbox.owner_user_id = .ok ownerPub ∧
      readCacheEntry sha256Hex cache' id = .ok (blob, entry) ∧
      entry.owner_x25519_pubkey_b64 = ownerPub ∧
      entry.sealed_content_key_b64 = resp.sealed_content_key ∧
      entry.envelope_nonce_b64 = resp.envelope_nonce := by
  obtain ⟨resp, hresp, h⟩ := bind_ok.mp h
  obtain ⟨blob, hblob, h⟩ := bind_ok.mp h
  simp only at h
  split at h
  · cases h
  obtain ⟨ownerPub, hpub, h⟩ := bind_ok.mp h
  obtain ⟨-, rfl⟩ := Prod.mk.inj (Except.ok.inj h)
  exact ⟨resp, blob, ownerPub, _, hresp, hblob, hpub, readCacheEntry_writeCacheEntry _ _ _ _, rfl,
    rfl, rfl⟩

end

end Veesker.Cloud
