/-
  File:      Veesker/Cloud/Grant.lean
  Subject:   GRANTING ACCESS (sidecar/src/sandbox-cloud/grant.ts) after a publish.

  * **`grantSandbox_never`**: after a publish it never does: the owner's envelope was sealed with
    the associated data, and the grant opens it without.
-/
import Veesker.Cloud.Publish
import Veesker.Cloud.Cache

namespace Veesker.Cloud

open Format Vsk

section

variable {ν : Type} (N : Runtime ν) (S : Sodium) (sha256Hex : Bytes → Text)

/-- The envelopes `grantSandbox` posts. -/
def grantSandbox (api : Api ν) (cache : Cache ν) (sandboxId newMemberUserId : Text)
    (ownerKeypair : Keypair) (nonce : Nat → S.envelope.Nonce) :
    Except Failure (List PostedEnvelope) := do
  let (_, entry) ← readCacheEntry sha256Hex cache sandboxId
  let ownerPub ← pubkeyFromBase64 N (some (.str entry.owner_x25519_pubkey_b64))
  let contentKey ← openEnvelope S entry.envelope ownerPub ownerKeypair none
  let newPub := base64Bytes (← api.pubkey newMemberUserId)
  let sealed ← sealForRecipients S contentKey [(newMemberUserId, newPub)] ownerKeypair nonce
  let envelopes := sealed.map fun (userId, envelope) => PostedEnvelope.ofEnvelope userId envelope
  api.grants sandboxId envelopes
  .ok envelopes

/-- A grant that works: the owner's grant succeeds, and a member that has the blob and an envelope
    it was granted in its cache opens the sandbox with the content the owner reads. -/
def GrantWorks (api : Api ν) (cache : Cache ν) (sandboxId newMemberUserId : Text) (owner : Keypair)
    (nonce : Nat → S.envelope.Nonce) (blob : Bytes) : Prop :=
  ∃ posted, grantSandbox N S sha256Hex api cache sandboxId newMemberUserId owner nonce =
      .ok posted ∧
    ∀ e ∈ posted, ∀ (σ : Type) (E : DuckDBHost σ) (member : Keypair), member.Valid S →
      api.pubkey newMemberUserId = .ok (base64Text member.publicKey) →
      ∀ memberCache entry, readCacheEntry sha256Hex memberCache sandboxId = .ok (blob, entry) →
        entry.envelope = e.envelope →
        entry.owner_x25519_pubkey_b64 = base64Text owner.publicKey →
        openSandbox N S sha256Hex E memberCache sandboxId (some member.privateKey) =
          readEncryptedVsk N S E blob E.openInMemory owner.publicKey owner false none

/-! ## 1. Envelopes with and without associated data -/

variable {N S sha256Hex}

/-- **What was sealed with associated data does not open without**, whatever the keys. -/
theorem not_openEnvelope_of_aad (hS : S.Ideal) {envelope : Envelope} {k contentKey : Bytes}
    {a : AadArgs}
    (h : S.envelope.encrypt k envelope.nonce (aadBytes a) contentKey = some envelope.ciphertext)
    (senderPubkey : Bytes) (recipient : Keypair) (key : Bytes) :
    openEnvelope S envelope senderPubkey recipient none ≠ .ok key := by
  intro ho
  obtain ⟨k', -, ho⟩ := bind_ok.mp ho
  have hsame := hS.envelope.eq_of_decrypt h (Sodium.orThrow_ok.mp ho)
  exact aadBytes_ne_nil a hsame.2.2.1.symm

/-- A grant that succeeds has opened the envelope of the cache. -/
theorem openEnvelope_of_grantSandbox {api : Api ν} {cache : Cache ν} {id member : Text}
    {owner : Keypair} {nonce : Nat → S.envelope.Nonce} {posted : List PostedEnvelope}
    (h : grantSandbox N S sha256Hex api cache id member owner nonce = .ok posted) :
    ∃ blob entry ownerPub contentKey, readCacheEntry sha256Hex cache id = .ok (blob, entry) ∧
      openEnvelope S entry.envelope ownerPub owner none = .ok contentKey := by
  obtain ⟨⟨blob, entry⟩, hentry, h⟩ := bind_ok.mp h
  obtain ⟨ownerPub, -, h⟩ := bind_ok.mp h
  obtain ⟨contentKey, hkey, -⟩ := bind_ok.mp h
  exact ⟨blob, entry, ownerPub, contentKey, hentry, hkey⟩

/-! ## 2. After a publish -/

variable (N S sha256Hex)

/-- **After a publish no grant works.** The owner publishes, the service hands out what was posted
    for the owner, the owner pulls it, and grants access to a member: that fails, whatever the
    sandbox, the recipients, the member and the answers of the service. -/
theorem grantSandbox_never (hS : S.Ideal) (api : Api ν) (owner : Keypair) (ownerUserId : Text)
    (build : BuildResult ν) (idempotencyKey : Option Text) (blobNonce : S.blob.Nonce)
    (nonce : Nat → S.envelope.Nonce) (published : Published)
    (hpublish : publishSandbox N S api sha256Hex owner ownerUserId build idempotencyKey blobNonce
      nonce = .ok published)
    (response : SandboxResponse ν) (hresponse : api.sandbox published.sandboxId = .ok response)
    (e : PostedEnvelope) (he : e ∈ published.finalize.envelopes)
    (hserved : response.sealed_content_key = e.sealed_content_key ∧
      response.envelope_nonce = e.envelope_nonce)
    (cache cache' : Cache ν) (pulledAt : Text) (pulled : PullResult)
    (hpull : pullSandbox sha256Hex api cache published.sandboxId pulledAt = .ok (pulled, cache'))
    (newMemberUserId : Text) (grantNonce : Nat → S.envelope.Nonce) :
    ¬ GrantWorks N S sha256Hex api cache' published.sandboxId newMemberUserId owner grantNonce
      published.blob := by
  rintro ⟨posted, hgrant, -⟩
  obtain ⟨blob, entry, ownerPub, contentKey, hentry, hopen⟩ := openEnvelope_of_grantSandbox hgrant
  obtain ⟨response', blob', ownerPub', entry', hresponse', -, -, hentry', -, hkey, hnonce⟩ :=
    pullSandbox_entry hpull
  obtain rfl := Except.ok.inj (hresponse.symm.trans hresponse')
  obtain ⟨-, rfl⟩ := Prod.mk.inj (Except.ok.inj (hentry.symm.trans hentry'))
  have henvelope : entry.envelope = e.envelope := by
    rw [CacheMeta.envelope, PostedEnvelope.envelope, hkey, hnonce, hserved.1, hserved.2]
  obtain ⟨k, a, hsealed⟩ := publishSandbox_sealed hpublish e he
  rw [henvelope] at hopen
  exact not_openEnvelope_of_aad hS hsealed ownerPub owner contentKey hopen

end

/-! ## 3. A run to try it with -/

/-- A service that hands out what was posted for the owner. -/
def grantApi : Api Nat :=
  { overtApi with
    pubkey := fun id => .ok (base64Text (List.replicate 32 (if id = "u1".toList then 1 else 2)))
    sandbox := fun _ => .ok {
      sandbox := {
        id := "sb".toList
        owner_user_id := "u1".toList
        name := "sb".toList
        description := none
        status := "ready".toList
        blob_sha256_hex := []
        blob_size_bytes := 0
        expires_at := []
        ttl_days := 7
        spec_json := .null }
      download_url := []
      sealed_content_key := base64Text (overtEnvelope "sb".toList).ciphertext
      envelope_nonce := base64Text (overtEnvelope "sb".toList).nonce }
    download := fun _ => .ok (newFile 0) }

/-- What the publish of the owner `u1` with the recipient `u2` leaves. -/
def overtPublished : Published where
  sandboxId := "sb".toList
  blob := newFile 0
  finalize := {
    envelopes := [.ofEnvelope "u1".toList (overtEnvelope "sb".toList),
      .ofEnvelope "u2".toList ⟨twice (overtHead (List.replicate 32 3) (List.replicate 12 0)
        (overtAad "sb".toList) ++ List.replicate 32 7), List.replicate 12 0⟩]
    blob_size_bytes := (newFile 0).length
    blob_sha256_hex := [] }

theorem publishSandbox_overt : publishSandbox natRuntime overtSodium grantApi (fun _ => [])
    (overtPair 1) "u1".toList (overtBuild 0) none (zeroNonce _) (fun _ => zeroNonce _) =
    .ok overtPublished := by
  have hkey : recipientKey grantApi (overtPair 1) "u1".toList ⟨"u2".toList, none⟩ =
      .ok (List.replicate 32 2) := congrArg Except.ok (base64Bytes_base64Text _)
  have hrecipients : [(⟨"u1".toList, none⟩ : RecipientEntry), ⟨"u2".toList, none⟩].mapM (fun r => do
      .ok (r.user_id, ← recipientKey grantApi (overtPair 1) "u1".toList r)) =
      .ok [("u1".toList, List.replicate 32 1), ("u2".toList, List.replicate 32 2)] := by
    simp only [List.mapM_cons, List.mapM_nil, hkey]
    rfl
  have hsealed : sealRecipients overtSodium (List.replicate 32 7) (overtPair 1)
      (overtAad "sb".toList) (fun _ => zeroNonce _) 1
      [("u1".toList, List.replicate 32 1), ("u2".toList, List.replicate 32 2)] =
      .ok overtPublished.finalize.envelopes := rfl
  exact bind_ok.mpr ⟨_, rfl, bind_ok.mpr ⟨_, hrecipients,
    bind_ok.mpr ⟨_, reencrypt_oldFile oldFile_fits,
      bind_ok.mpr ⟨_, buildAad_publish (by decide) (overtPair 1), bind_ok.mpr ⟨_, hsealed,
        bind_ok.mpr ⟨(), rfl, bind_ok.mpr ⟨(), rfl, rfl⟩⟩⟩⟩⟩⟩⟩

theorem grantSandbox_never_one : ∃ pulled cache,
    pullSandbox (fun _ => []) grantApi (fun _ => none) "sb".toList [] = .ok (pulled, cache) ∧
    ¬ GrantWorks natRuntime overtSodium (fun _ => []) grantApi cache "sb".toList "u3".toList
      (overtPair 1) (fun _ => zeroNonce _) (newFile 0) :=
  ⟨_, _, rfl, grantSandbox_never natRuntime overtSodium (fun _ => []) overtSodium_ideal grantApi
    (overtPair 1) "u1".toList (overtBuild 0) none (zeroNonce _) (fun _ => zeroNonce _)
    overtPublished publishSandbox_overt _ rfl _ List.mem_cons_self ⟨rfl, rfl⟩ (fun _ => none) _
    [] _ rfl "u3".toList (fun _ => zeroNonce _)⟩

/-- The owner publishes, pulls what was published, and cannot grant access to `u3`. -/
theorem grantSandbox_refused : ∃ pulled cache,
    publishSandbox natRuntime overtSodium grantApi (fun _ => []) (overtPair 1) "u1".toList
      (overtBuild 0) none (zeroNonce _) (fun _ => zeroNonce _) = .ok overtPublished ∧
    pullSandbox (fun _ => []) grantApi (fun _ => none) overtPublished.sandboxId [] =
      .ok (pulled, cache) ∧
    ∀ posted, grantSandbox natRuntime overtSodium (fun _ => []) grantApi cache
      overtPublished.sandboxId "u3".toList (overtPair 1) (fun _ => zeroNonce _) ≠ .ok posted := by
  refine ⟨_, _, publishSandbox_overt, rfl, fun posted hgrant => ?_⟩
  obtain ⟨blob, entry, ownerPub, contentKey, hentry, hopen⟩ := openEnvelope_of_grantSandbox hgrant
  rw [readCacheEntry_writeCacheEntry] at hentry
  obtain ⟨-, rfl⟩ := Prod.mk.inj (Except.ok.inj hentry)
  have henvelope : (⟨base64Bytes (base64Text (overtEnvelope "sb".toList).ciphertext),
      base64Bytes (base64Text (overtEnvelope "sb".toList).nonce)⟩ : Envelope) =
      overtEnvelope "sb".toList := by
    simp only [base64Bytes_base64Text]
  rw [CacheMeta.envelope, henvelope] at hopen
  exact not_openEnvelope_of_aad overtSodium_ideal (encrypt_overtAead.mpr ⟨⟨rfl, rfl⟩, rfl⟩)
    ownerPub (overtPair 1) contentKey hopen

end Veesker.Cloud
