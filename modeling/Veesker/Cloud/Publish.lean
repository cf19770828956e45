/-
  File:      Veesker/Cloud/Publish.lean
  Subject:   PUBLISHING (sidecar/src/sandbox-cloud/publish.ts): `reencryptV1AsV2` and
             `publishSandbox`.

  The nonces that are drawn are arguments, the one of the new blob and, by their number, those of
  the envelopes.

  * `reencryptV1AsV2_ok` -- the new file is an encrypted file of version 2 around the old plain one.
  * **`publishSandbox_readable`**: owner and recipients read the published file as the old one.
-/
import Veesker.Cloud.Api
import Veesker.Vsk.Sealed

namespace Veesker.Cloud

open Format Vsk List

section

variable {ν : Type} (N : Runtime ν) (S : Sodium)

/-! ## 1. The new file -/

/-- The context every envelope of a new sandbox is bound to. -/
def publishContext (sandboxId : Text) (owner : Keypair) : AadContext ν :=
  ⟨sandboxId, N.ofNat 1, owner.publicKey⟩

/-- `newHeader`: magic and version are those of the old file. -/
def rebuildHeader (fileBytes : Bytes) (envelopeLength dataLength : Nat) : Bytes :=
  fileBytes.take 6 ++ (leBytes 2 FORMAT_V2 ++ (leBytes 8 0 ++ (leBytes 8 0 ++
    (leBytes 8 (HEADER_SIZE + envelopeLength) ++ (leBytes 8 dataLength ++ (leBytes 8 HEADER_SIZE ++
      (leBytes 8 envelopeLength ++ leBytes 8 0)))))))

def reencryptV1AsV2 (fileBytes contentKey : Bytes) (ownerKeypair : Keypair) (sandboxId : Text)
    (blobNonce : S.blob.Nonce) (envelopeNonce : S.envelope.Nonce) : Except Failure Bytes := do
  let headerBuf := subarray fileBytes 0 HEADER_SIZE
  if headerBuf.length < 56 then .error typeError
  else do
    let envelopeOffset := getUint headerBuf 40 8
    let envelopeLength := getUint headerBuf 48 8
    let dataOffset := getUint headerBuf 24 8
    let dataLength := getUint headerBuf 32 8
    let envelopeJson := decodeText
      (subarray fileBytes envelopeOffset (envelopeOffset + envelopeLength))
    match parse N.toNumbers envelopeJson with
    | none => .error typeError
    | some block =>
      let existingFmt ← envelopeVersion N block
      if isNat N existingFmt FORMAT_V2 then .ok fileBytes
      else do
        let oldNonce ← fromBase64 N (member block "blobNonce".toList)
        let encryptedCiphertext := subarray fileBytes dataOffset (dataOffset + dataLength)
        let plainBytes ← decryptBlob S contentKey encryptedCiphertext oldNonce none
        let context := publishContext N sandboxId ownerKeypair
        let aad ← buildAad N (.str context.sandboxId) (.num context.sandboxVersion)
          context.recipientPubkey FORMAT_V2
        let encrypted ← encryptBlob S contentKey plainBytes (some aad) blobNonce
        let ownerEnvelope ← sealEnvelope S contentKey context.recipientPubkey ownerKeypair (some aad)
          envelopeNonce
        let newEnvelopeBytes := utf8Bytes (stringify N.toNumbers
          (envelopeBlock N ownerEnvelope encrypted.nonce FORMAT_V2 (some context)))
        .ok (rebuildHeader fileBytes newEnvelopeBytes.length encrypted.ciphertext.length ++
          (newEnvelopeBytes ++ encrypted.ciphertext))

/-! ## 2. Publishing -/

/-- `BuildResultForPublish`. -/
structure BuildResult (ν : Type) where
  encryptedVsk : Bytes
  contentKey : Bytes
  sandboxName : Text
  ttlDays : ν
  memberUserIds : List Text
  specJson : Json ν
  description : Option Text

/-- The body of `POST /v1/sandboxes`. -/
def BuildResult.request (build : BuildResult ν) : CreateRequest ν where
  name := build.sandboxName
  description := build.description
  ttl_days := build.ttlDays
  member_user_ids := build.memberUserIds
  spec_json := build.specJson

/-- The result of a publish, with what was uploaded and what was posted at the end. -/
structure Published where
  sandboxId : Text
  blob : Bytes
  finalize : FinalizeRequest
  deriving DecidableEq

/-- A recipient's public key: the owner's own, the one in the answer, or the one asked for. -/
def recipientKey (api : Api ν) (owner : Keypair) (ownerUserId : Text) (r : RecipientEntry) :
    Except Failure Bytes :=
  if r.user_id = ownerUserId then .ok owner.publicKey
  else match r.x25519_pubkey with
    | some (c :: cs) => .ok (base64Bytes (c :: cs))
    | _ => (api.pubkey r.user_id).map base64Bytes

/-- The loop that seals an envelope for each recipient; `i` numbers the nonces. -/
def sealRecipients (contentKey : Bytes) (owner : Keypair) (aad : Bytes)
    (nonce : Nat → S.envelope.Nonce) : Nat → List (Text × Bytes) →
      Except Failure (List PostedEnvelope)
  | _, [] => .ok []
  | i, (userId, key) :: rs =>
    if key.length ≠ 32 then
      .error (.error ("x25519Pubkey must be 32 bytes, got ".toList ++ natText key.length ++
        " for userId=".toList ++ userId))
    else do
      let env ← sealEnvelope S contentKey key owner (some aad) (nonce i)
      let rest ← sealRecipients contentKey owner aad nonce (i + 1) rs
      .ok (.ofEnvelope userId env :: rest)

def publishSandbox (api : Api ν) (sha256Hex : Bytes → Text) (owner : Keypair) (ownerUserId : Text)
    (build : BuildResult ν) (idempotencyKey : Option Text) (blobNonce : S.blob.Nonce)
    (nonce : Nat → S.envelope.Nonce) : Except Failure Published := do
  let create ← api.create build.request idempotencyKey
  let recipients ← create.recipients.mapM fun r => do
    .ok (r.user_id, ← recipientKey api owner ownerUserId r)
  let v2Bytes ← reencryptV1AsV2 N S build.encryptedVsk build.contentKey owner create.sandbox_id
    blobNonce (nonce 0)
  let context := publishContext N create.sandbox_id owner
  let sharedAad ← buildAad N (.str context.sandboxId) (.num context.sandboxVersion)
    context.recipientPubkey FORMAT_V2
  let envelopes ← sealRecipients S build.contentKey owner sharedAad nonce 1 recipients
  api.upload create.upload_url v2Bytes
  let finalize := {
    envelopes
    blob_size_bytes := v2Bytes.length
    blob_sha256_hex := sha256Hex v2Bytes }
  api.finalize create.sandbox_id finalize
  .ok ⟨create.sandbox_id, v2Bytes, finalize⟩

/-! ## 3. The new file is an encrypted file of version 2 -/

variable {N S}

/-- **What a header that is read begins with.** -/
theorem take_of_readHeader {buf : Bytes} {h : VskHeader} (hr : readHeader buf = .ok h) :
    buf.take 6 = magicBytes ++ leBytes 2 VSK_VERSION ∧ HEADER_SIZE ≤ buf.length ∧
      h.envelopeOffset = getUint buf 40 8 ∧ h.envelopeLength = getUint buf 48 8 ∧
      h.dataOffset = getUint buf 24 8 ∧ h.dataLength = getUint buf 32 8 := by
  rw [readHeader] at hr
  split at hr
  · cases hr
  rename_i hlen
  simp only at hr
  split at hr
  · cases hr
  rename_i hmagic
  split at hr
  · cases hr
  rename_i hversion
  cases hr
  rw [not_not] at hmagic hversion
  have hlen : 64 ≤ buf.length := not_lt.mp hlen
  refine ⟨?_, hlen, rfl, rfl, rfl, rfl⟩
  have h4 : buf.take 4 = magicBytes := by
    have hl : (buf.take 4).reverse.length = 4 := by
      rw [length_reverse, length_take]
      omega
    have := leBytes_leNat (buf.take 4).reverse
    rw [hl, hmagic] at this
    rw [magicBytes, this, reverse_reverse]
  have h2 : (buf.drop 4).take 2 = leBytes 2 VSK_VERSION := by
    have hl : ((buf.drop 4).take 2).length = 2 := by
      rw [length_take, length_drop]
      omega
    have := leBytes_leNat ((buf.drop 4).take 2)
    rw [hl] at this
    rw [← this]
    exact congrArg (leBytes 2) hversion
  rw [← h4, ← h2, show 6 = 4 + 2 from rfl, take_add]

theorem rebuildHeader_eq {f : Bytes} (hf : f.take 6 = magicBytes ++ leBytes 2 VSK_VERSION)
    (block : Json ν) (c : Bytes) :
    rebuildHeader f (utf8Bytes (stringify N.toNumbers block)).length c.length =
      writeHeader (encryptedHeader N FORMAT_V2 block c) := by
  have h0 : leBytes 8 0 = List.replicate 8 0 := by decide
  rw [rebuildHeader, hf, h0, writeHeader]
  simp only [append_assoc, encryptedHeader, h0]

/-- The parts of a file of version 1, as the publisher finds them. -/
theorem reencryptV1AsV2_eq {f : Bytes} {p : EncryptedParts} (hf : readParts N f = .ok p)
    (hv1 : p.bound = none) (contentKey : Bytes) (owner : Keypair) (sandboxId : Text)
    (blobNonce : S.blob.Nonce) (nonce : S.envelope.Nonce) :
    reencryptV1AsV2 N S f contentKey owner sandboxId blobNonce nonce = (do
      let plain ← decryptBlob S contentKey p.data p.blobNonce none
      let aad ← buildAad N (.str sandboxId) (.num (N.ofNat 1)) owner.publicKey FORMAT_V2
      let encrypted ← encryptBlob S contentKey plain (some aad) blobNonce
      let envelope ← sealEnvelope S contentKey owner.publicKey owner (some aad) nonce
      .ok (encryptedFile N FORMAT_V2 (envelopeBlock N envelope encrypted.nonce FORMAT_V2
        (some (publishContext N sandboxId owner))) encrypted.ciphertext)) := by
  obtain ⟨⟨header, block⟩, hblock, h⟩ := bind_ok.mp hf
  obtain ⟨version, hversion, h⟩ := bind_ok.mp h
  obtain ⟨-, -, h⟩ := bind_ok.mp h
  obtain ⟨_, -, h⟩ := bind_ok.mp h
  obtain ⟨_, -, h⟩ := bind_ok.mp h
  obtain ⟨oldNonce, hnonce, h⟩ := bind_ok.mp h
  obtain ⟨bound, hbound, h⟩ := bind_ok.mp h
  obtain rfl := Except.ok.inj h
  obtain rfl : bound = none := hv1
  have hnot : isNat N version FORMAT_V2 = false := by
    rw [Bool.eq_false_iff]
    intro he
    rw [boundArgs, if_pos he] at hbound
    split at hbound
    · cases hbound
    · split at hbound
      · cases hbound
      · obtain ⟨_, -, hbound⟩ := bind_ok.mp hbound
        obtain ⟨_, -, hbound⟩ := bind_ok.mp hbound
        cases hbound
  obtain ⟨buf, hbuf, h⟩ := bind_ok.mp hblock
  obtain rfl : f = buf := by
    rw [readFileViaSingleFd] at hbuf
    split at hbuf
    · cases hbuf
    · exact Except.ok.inj hbuf
  obtain ⟨header', hheader, h⟩ := bind_ok.mp h
  split at h
  · cases h
  obtain ⟨-, -, h⟩ := bind_ok.mp h
  obtain ⟨-, -, h⟩ := bind_ok.mp h
  simp only at h
  split at h
  · cases h
  rename_i hparse
  obtain ⟨rfl, rfl⟩ := Prod.mk.inj (Except.ok.inj h)
  obtain ⟨htake, hlen, h1, h2, h3, h4⟩ := take_of_readHeader hheader
  have htake : f.take 6 = magicBytes ++ leBytes 2 VSK_VERSION := by
    rw [← htake, subarray, drop_zero, take_take]
    rfl
  have hlen : ¬ (subarray f 0 HEADER_SIZE).length < 56 := by
    rw [HEADER_SIZE] at hlen ⊢
    omega
  rw [h1, h2] at hparse
  rw [reencryptV1AsV2]
  simp only [if_neg hlen, hparse, Bind.bind, Except.bind, hversion, hnot, Bool.false_eq_true,
    ↓reduceIte, hnonce, ← h3, ← h4, publishContext, rebuildHeader_eq htake]
  rfl

variable {owner : Keypair}

/-- **The new file**: version 2, around the old plain file, sealed for the owner. -/
theorem reencryptV1AsV2_ok (hS : S.Ideal) {f : Bytes} {p : EncryptedParts}
    (hf : readParts N f = .ok p) (hv1 : p.bound = none) {contentKey plain : Bytes}
    (hplain : decryptBlob S contentKey p.data p.blobNonce none = .ok plain)
    (hk : contentKey.length = S.blob.keyBytes) (ho : owner.Valid S)
    {sandboxId : Text} (hid : '\x00' ∉ sandboxId) (blobNonce : S.blob.Nonce)
    (nonce : S.envelope.Nonce) :
    ∃ envelope c,
      openEnvelope S envelope owner.publicKey owner
        (some (aadBytes ((publishContext N sandboxId owner).args N))) = .ok contentKey ∧
      S.blob.encrypt contentKey blobNonce.bytes
        (aadBytes ((publishContext N sandboxId owner).args N)) plain = some c ∧
      reencryptV1AsV2 N S f contentKey owner sandboxId blobNonce nonce =
        .ok (encryptedFile N FORMAT_V2 (envelopeBlock N envelope blobNonce.bytes FORMAT_V2
          (some (publishContext N sandboxId owner))) c) := by
  obtain ⟨envelope, hseal, hopen⟩ := openEnvelope_sealEnvelope hS ho ho contentKey
    (some (aadBytes ((publishContext N sandboxId owner).args N))) nonce
  obtain ⟨c, hc, hblob⟩ := encryptBlob_ok hS hk plain
    (some (aadBytes ((publishContext N sandboxId owner).args N))) blobNonce
  have haad : buildAad N (.str sandboxId) (.num (N.ofNat 1)) owner.publicKey FORMAT_V2 =
      .ok (aadBytes ((publishContext N sandboxId owner).args N)) := by
    rw [buildAad, show aadArgs N (.str sandboxId) (.num (N.ofNat 1)) owner.publicKey FORMAT_V2 = _
      from aadArgs_context (c := publishContext N sandboxId owner) hid]
    rfl
  refine ⟨envelope, c, hopen, hc, ?_⟩
  rw [reencryptV1AsV2_eq hf hv1]
  simp only [hplain, haad, hblob, hseal, Bind.bind, Except.bind]

/-! ## 4. Owner and recipients read the old file -/

theorem publishContext_good (hS : S.Ideal) (ho : owner.Valid S)
    {sandboxId : Text} (hne : sandboxId ≠ []) (hnul : '\x00' ∉ sandboxId) :
    ∀ c ∈ some (publishContext N sandboxId owner), c.Good N := by
  intro c hc
  cases hc
  refine ⟨hne, hnul, N.exact_ofNat 1 (by decide), ?_⟩
  exact (hS.agreement.length_base _ _ ho).trans hS.publicBytes

variable {nonce : Nat → S.envelope.Nonce} {rs : List (Text × Bytes)}

/-- **What is sealed for a recipient opens with its keys**, once for each in their order. -/
theorem sealRecipients_opens (hS : S.Ideal) {contentKey aad : Bytes}
    (ho : owner.Valid S) {i : Nat}
    {envelopes : List PostedEnvelope}
    (h : sealRecipients S contentKey owner aad nonce i rs = .ok envelopes) :
    List.Forall₂ (fun r e => e.user_id = r.1 ∧ ∀ k : Keypair, k.Valid S → k.publicKey = r.2 →
      openEnvelope S e.envelope owner.publicKey k (some aad) = .ok contentKey) rs envelopes := by
  induction rs generalizing i envelopes with
  | nil =>
    cases h
    exact .nil
  | cons r rs ih =>
    obtain ⟨userId, key⟩ := r
    rw [sealRecipients] at h
    split at h
    · cases h
    obtain ⟨env, henv, h⟩ := bind_ok.mp h
    obtain ⟨rest, hrest, h⟩ := bind_ok.mp h
    cases h
    refine .cons ⟨rfl, ?_⟩ (ih hrest)
    rintro k hk rfl
    obtain ⟨env', hseal, hopen⟩ := openEnvelope_sealEnvelope hS ho hk contentKey (some aad) (nonce i)
    obtain rfl := Except.ok.inj (henv.symm.trans hseal)
    rw [PostedEnvelope.envelope, PostedEnvelope.ofEnvelope]
    simp only [base64Bytes_base64Text]
    exact hopen

/-- **Every envelope that is posted was sealed under associated data**, which is never empty. -/
theorem sealRecipients_sealed {contentKey aad : Bytes}
    {i : Nat}
    {envelopes : List PostedEnvelope}
    (h : sealRecipients S contentKey owner aad nonce i rs = .ok envelopes) :
    ∀ e ∈ envelopes, ∃ k, S.envelope.encrypt k e.envelope.nonce aad contentKey =
      some e.envelope.ciphertext := by
  induction rs generalizing i envelopes with
  | nil =>
    cases h
    exact nofun
  | cons r rs ih =>
    rw [sealRecipients] at h
    split at h
    · cases h
    obtain ⟨env, henv, h⟩ := bind_ok.mp h
    obtain ⟨rest, hrest, h⟩ := bind_ok.mp h
    cases h
    intro e he
    rcases mem_cons.mp he with rfl | he
    · obtain ⟨k, -, henv⟩ := bind_ok.mp henv
      obtain ⟨c, hc, henv⟩ := bind_ok.mp henv
      cases henv
      refine ⟨k, ?_⟩
      simp only [PostedEnvelope.envelope, PostedEnvelope.ofEnvelope, base64Bytes_base64Text]
      exact Sodium.orThrow_ok.mp hc
    · exact ih hrest e he

theorem publishSandbox_sealed {api : Api ν} {sha256Hex : Bytes → Text}
    {ownerUserId : Text} {build : BuildResult ν} {idempotencyKey : Option Text}
    {blobNonce : S.blob.Nonce} {published : Published}
    (h : publishSandbox N S api sha256Hex owner ownerUserId build idempotencyKey blobNonce nonce =
      .ok published) :
    ∀ e ∈ published.finalize.envelopes, ∃ k a, S.envelope.encrypt k e.envelope.nonce (aadBytes a)
      build.contentKey = some e.envelope.ciphertext := by
  obtain ⟨response, -, h⟩ := bind_ok.mp h
  obtain ⟨recipients, -, h⟩ := bind_ok.mp h
  obtain ⟨v2Bytes, -, h⟩ := bind_ok.mp h
  obtain ⟨aad, haad, h⟩ := bind_ok.mp h
  obtain ⟨envelopes, hsealed, h⟩ := bind_ok.mp h
  obtain ⟨_, -, h⟩ := bind_ok.mp h
  obtain ⟨_, -, h⟩ := bind_ok.mp h
  cases h
  obtain ⟨a, -, rfl⟩ := buildAad_ok haad
  intro e he
  obtain ⟨k, hk⟩ := sealRecipients_sealed hsealed e he
  exact ⟨k, a, hk⟩

theorem sealRecipients_ok (hS : S.Ideal) (contentKey aad : Bytes)
    (ho : owner.Valid S) (nonce : Nat → S.envelope.Nonce) (i : Nat)
    (h : ∀ r ∈ rs, ∃ k : Keypair, k.Valid S ∧ k.publicKey = r.2) :
    ∃ envelopes, sealRecipients S contentKey owner aad nonce i rs = .ok envelopes := by
  induction rs generalizing i with
  | nil => exact ⟨_, rfl⟩
  | cons r rs ih =>
    obtain ⟨k, hk, hkey⟩ := h r mem_cons_self
    obtain ⟨rest, hrest⟩ := ih (i + 1) fun q hq => h q (mem_cons_of_mem _ hq)
    obtain ⟨userId, key⟩ := r
    obtain rfl : k.publicKey = key := hkey
    obtain ⟨env, hseal, -⟩ := openEnvelope_sealEnvelope hS ho hk contentKey (some aad) (nonce i)
    have h32 : k.publicKey.length = 32 := (hS.agreement.length_base _ _ hk).trans hS.publicBytes
    refine ⟨.ofEnvelope userId env :: rest, ?_⟩
    rw [sealRecipients, if_neg (not_not_intro h32), hseal]
    simp only [Bind.bind, Except.bind, hrest]

theorem forall₂_of_mapM {α β ε : Type} {f : α → Except ε β} {l : List α} {l' : List β}
    (h : l.mapM f = .ok l') : List.Forall₂ (fun a b => f a = .ok b) l l' := by
  induction l generalizing l' with
  | nil =>
    cases h
    exact .nil
  | cons a l ih =>
    rw [mapM_cons] at h
    obtain ⟨b, hb, h⟩ := bind_ok.mp h
    obtain ⟨rest, hrest, h⟩ := bind_ok.mp h
    cases h
    exact .cons hb (ih hrest)

theorem forall₂_comp {α β γ : Type} {R : α → β → Prop} {Q : β → γ → Prop} {T : α → γ → Prop}
    (hT : ∀ a b c, R a b → Q b c → T a c) {l : List α} {m : List β} {n : List γ}
    (h : List.Forall₂ R l m) (h' : List.Forall₂ Q m n) : List.Forall₂ T l n := by
  induction h generalizing n with
  | nil =>
    cases h'
    exact .nil
  | cons hab _ ih =>
    cases h' with
    | cons hbc hrest => exact .cons (hT _ _ _ hab hbc) (ih hrest)

/-- What a file's parts decrypt to, read as a plain file. -/
theorem readEncryptedVsk_of_opens {σ : Type} (hS : S.Ideal) {file : Bytes} {p : EncryptedParts}
    (hp : readParts N file = .ok p) (external : Option Envelope) {senderPubkey key plain : Bytes}
    {recipient : Keypair}
    (hopen : openEnvelope S (external.getD p.envelope) senderPubkey recipient
      (p.bound.map aadBytes) = .ok key)
    (hc : S.blob.encrypt key p.blobNonce ((p.bound.map aadBytes).getD []) plain = some p.data)
    (E : DuckDBHost σ) (dst : σ) (replace : Bool) :
    readEncryptedVsk N S E file dst senderPubkey recipient replace external =
      readVsk N.toJsNumbers E plain dst replace :=
  readEncryptedVsk_parts hp (decryptParts_packed hS (p := p.withEnvelope external) hopen hc)

theorem buildAad_publish {sandboxId : Text} (hnul : '\x00' ∉ sandboxId) (owner : Keypair) :
    buildAad N (.str sandboxId) (.num (N.ofNat 1)) owner.publicKey FORMAT_V2 =
      .ok (aadBytes ((publishContext N sandboxId owner).args N)) := by
  rw [buildAad, show aadArgs N (.str sandboxId) (.num (N.ofNat 1)) owner.publicKey FORMAT_V2 = _
    from aadArgs_context (c := publishContext N sandboxId owner) hnul]
  rfl

/-- **With good answers and good keys a sandbox is published.** -/
theorem publishSandbox_ok (hS : S.Ideal) {api : Api ν} {sha256Hex : Bytes → Text}
    (ho : owner.Valid S) {ownerUserId : Text} {build : BuildResult ν} {idempotencyKey : Option Text}
    {blobNonce : S.blob.Nonce} {response : CreateResponse}
    (hcreate : api.create build.request idempotencyKey = .ok response)
    (hnul : '\x00' ∉ response.sandbox_id) {v2Bytes : Bytes}
    (hv2 : reencryptV1AsV2 N S build.encryptedVsk build.contentKey owner response.sandbox_id
      blobNonce (nonce 0) = .ok v2Bytes)
    (hkeys : ∀ r ∈ response.recipients, ∃ k : Keypair, k.Valid S ∧
      recipientKey api owner ownerUserId r = .ok k.publicKey)
    (hupload : ∀ blob, api.upload response.upload_url blob = .ok ())
    (hfinalize : ∀ request, api.finalize response.sandbox_id request = .ok ()) :
    ∃ published, publishSandbox N S api sha256Hex owner ownerUserId build idempotencyKey blobNonce
      nonce = .ok published ∧ published.blob = v2Bytes := by
  choose! k hk hkk using hkeys
  have hrecipients : response.recipients.mapM (fun r => do
      .ok (r.user_id, ← recipientKey api owner ownerUserId r)) =
      .ok (response.recipients.map fun r => (r.user_id, (k r).publicKey)) := by
    refine mapM_ok fun r hr => ?_
    rw [hkk r hr]
    rfl
  have hmembers : ∀ q ∈ response.recipients.map (fun r => (r.user_id, (k r).publicKey)),
      ∃ k : Keypair, k.Valid S ∧ k.publicKey = q.2 := by
    intro q hq
    obtain ⟨r, hr, rfl⟩ := mem_map.mp hq
    exact ⟨k r, hk r hr, rfl⟩
  obtain ⟨envelopes, hsealed⟩ := sealRecipients_ok hS build.contentKey
    (aadBytes ((publishContext N response.sandbox_id owner).args N)) ho nonce 1 hmembers
  refine ⟨⟨response.sandbox_id, v2Bytes, ⟨envelopes, v2Bytes.length, sha256Hex v2Bytes⟩⟩, ?_, rfl⟩
  exact bind_ok.mpr ⟨_, hcreate, bind_ok.mpr ⟨_, hrecipients, bind_ok.mpr ⟨_, hv2,
    bind_ok.mpr ⟨_, buildAad_publish hnul owner, bind_ok.mpr ⟨_, hsealed,
      bind_ok.mpr ⟨_, hupload _, bind_ok.mpr ⟨_, hfinalize _, rfl⟩⟩⟩⟩⟩⟩⟩

/-- **A published sandbox is read as the one it was made of**: by the owner through the embedded
    envelope, and through the envelope posted for it by every recipient whose key pair belongs to
    the public key the envelope was sealed for. With good answers and keys it is published. -/
theorem publishSandbox_readable (hS : S.Ideal) (api : Api ν) (sha256Hex : Bytes → Text)
    (owner : Keypair) (ho : owner.Valid S) (ownerUserId : Text) (build : BuildResult ν)
    (hk : build.contentKey.length = S.blob.keyBytes) (idempotencyKey : Option Text)
    (blobNonce : S.blob.Nonce) (nonce : Nat → S.envelope.Nonce) (response : CreateResponse)
    (hcreate : api.create build.request idempotencyKey = .ok response)
    (hne : response.sandbox_id ≠ []) (hnul : '\x00' ∉ response.sandbox_id) (p : EncryptedParts)
    (hf : readParts N build.encryptedVsk = .ok p) (hv1 : p.bound = none)
    (hkey : openEnvelope S p.envelope owner.publicKey owner none = .ok build.contentKey)
    (plain : Bytes) (hplain : decryptBlob S build.contentKey p.data p.blobNonce none = .ok plain) :
    ((∀ r ∈ response.recipients, ∃ k : Keypair, k.Valid S ∧
        recipientKey api owner ownerUserId r = .ok k.publicKey) →
      (∀ blob, api.upload response.upload_url blob = .ok ()) →
      (∀ request, api.finalize response.sandbox_id request = .ok ()) →
      ∃ published, publishSandbox N S api sha256Hex owner ownerUserId build idempotencyKey blobNonce
        nonce = .ok published) ∧
    ∀ published, publishSandbox N S api sha256Hex owner ownerUserId build idempotencyKey blobNonce
        nonce = .ok published →
      published.blob.length ≤ MAX_VSK_BYTES →
      ∀ (σ : Type) (E : DuckDBHost σ) (dst : σ) (replace : Bool),
        readEncryptedVsk N S E published.blob dst owner.publicKey owner replace none =
          readEncryptedVsk N S E build.encryptedVsk dst owner.publicKey owner replace none ∧
        List.Forall₂ (fun r e => e.user_id = r.user_id ∧ ∀ k : Keypair, k.Valid S →
          recipientKey api owner ownerUserId r = .ok k.publicKey →
          readEncryptedVsk N S E published.blob dst owner.publicKey k replace (some e.envelope) =
            readEncryptedVsk N S E build.encryptedVsk dst owner.publicKey owner replace none)
          response.recipients published.finalize.envelopes := by
  obtain ⟨envelope, c, hopen, hc, hv2⟩ := reencryptV1AsV2_ok (N := N) hS hf hv1 hplain hk ho hnul
    blobNonce (nonce 0)
  constructor
  · intro hkeys hupload hfinalize
    obtain ⟨published, hpublished, -⟩ :=
      publishSandbox_ok hS ho hcreate hnul hv2 hkeys hupload hfinalize
    exact ⟨published, hpublished⟩
  · intro published h hlen σ E dst replace
    obtain ⟨response', hcreate', h⟩ := bind_ok.mp h
    obtain rfl := Except.ok.inj (hcreate.symm.trans hcreate')
    obtain ⟨recipients, hrecipients, h⟩ := bind_ok.mp h
    obtain ⟨v2Bytes, hv2', h⟩ := bind_ok.mp h
    obtain rfl := Except.ok.inj (hv2.symm.trans hv2')
    obtain ⟨aad, haad', h⟩ := bind_ok.mp h
    obtain rfl := Except.ok.inj ((buildAad_publish hnul owner).symm.trans haad')
    obtain ⟨envelopes, hsealed, h⟩ := bind_ok.mp h
    obtain ⟨_, -, h⟩ := bind_ok.mp h
    obtain ⟨_, -, h⟩ := bind_ok.mp h
    obtain rfl := Except.ok.inj h
    have hparts := readParts_encryptedFile (.inr (.inr rfl)) envelope blobNonce.bytes
      (publishContext_good (N := N) hS ho hne hnul) hlen
    have hold : readEncryptedVsk N S E build.encryptedVsk dst owner.publicKey owner replace none =
        readVsk N.toJsNumbers E plain dst replace := by
      refine readEncryptedVsk_of_opens hS hf none (by rw [hv1]; exact hkey) ?_ E dst replace
      rw [hv1]
      exact (hS.blob.exact _ _ _ _ _).mp (decryptBlob_ok.mp hplain)
    rw [hold]
    refine ⟨readEncryptedVsk_of_opens hS hparts none hopen hc E dst replace, ?_⟩
    refine forall₂_comp ?_ (forall₂_of_mapM hrecipients) (sealRecipients_opens hS ho hsealed)
    intro r q e hq he
    obtain ⟨key, hkey', hq⟩ := bind_ok.mp hq
    obtain rfl := Except.ok.inj hq
    refine ⟨he.1, fun k hk' hkk => ?_⟩
    have hsame : k.publicKey = key := Except.ok.inj (hkk.symm.trans hkey')
    exact readEncryptedVsk_of_opens hS hparts (some e.envelope) (he.2 k hk' hsame) hc E dst replace

end

/-! ## 5. A sandbox to try it with -/

/-- A database that exports `n` bytes for every table. -/
def bulkHost (n : Nat) : DuckDBHost Unit :=
  { anyHost with copyToParquet := fun _ _ => .ok (List.replicate n 0) }

def plainFile (n : Nat) : Bytes :=
  packedFile natJs (oneTable "0.2.0".toList) (fun _ => List.replicate n 0) fun _ => false

theorem packable_bulk (n : Nat) : Packable natJs (bulkHost n) () (oneTable "0.2.0".toList)
    (fun _ => List.replicate n 0) (fun _ => false) :=
  { packable_oneTable with
    exports := ⟨fun _ _ => rfl, fun _ _ => rfl, fun _ _ h => absurd h Bool.false_ne_true⟩ }

/-- The key `7…7`, sealed for the owner without associated data. -/
def oldEnvelope : Envelope where
  ciphertext := twice (overtHead (List.replicate 32 2) (List.replicate 12 0) [] ++
    List.replicate 32 7)
  nonce := List.replicate 12 0

def oldCipher (n : Nat) : Bytes :=
  twice (overtHead (List.replicate 32 7) (List.replicate 24 0) [] ++ plainFile n)

/-- An encrypted file of version 1. -/
def oldFile (n : Nat) : Bytes :=
  encryptedFile natRuntime 1 (envelopeBlock natRuntime oldEnvelope (List.replicate 24 0) 1 none)
    (oldCipher n)

set_option maxRecDepth 20000 in
theorem oldFile_fits : (oldFile 0).length ≤ MAX_VSK_BYTES := by decide

def newCipher (n : Nat) : Bytes :=
  twice (overtHead (List.replicate 32 7) (List.replicate 24 0) (overtAad "sb".toList) ++ plainFile n)

/-- The file it is published as. -/
def newFile (n : Nat) : Bytes :=
  encryptedFile natRuntime 2 (envelopeBlock natRuntime (overtEnvelope "sb".toList)
    (List.replicate 24 0) 2 (some (overtContext "sb".toList))) (newCipher n)

/-- A service that takes everything and knows one other user. -/
def overtApi : Api Nat where
  create _ _ := .ok ⟨"sb".toList, [], [⟨"u1".toList, none⟩, ⟨"u2".toList, none⟩]⟩
  pubkey _ := .ok (base64Text (List.replicate 32 2))
  upload _ _ := .ok ()
  finalize _ _ := .ok ()
  sandbox _ := .error typeError
  download _ := .error typeError
  grants _ _ := .ok ()
  republish _ := .error typeError
  republishFinalize _ _ _ := .ok ()

def overtBuild (n : Nat) : BuildResult Nat where
  encryptedVsk := oldFile n
  contentKey := List.replicate 32 7
  sandboxName := "sb".toList
  ttlDays := 7
  memberUserIds := ["u2".toList]
  specJson := .null
  description := none

theorem readParts_oldFile {n : Nat} (hlen : (oldFile n).length ≤ MAX_VSK_BYTES) :
    readParts natRuntime (oldFile n) = .ok ⟨oldEnvelope, List.replicate 24 0, none, oldCipher n⟩ :=
  readParts_encryptedFile (.inr (.inl rfl)) oldEnvelope (List.replicate 24 0)
    (show ∀ c ∈ (none : Option (AadContext Nat)), c.Good natRuntime from nofun) hlen

theorem length_plainFile (n : Nat) : (plainFile n).length = (plainFile 0).length + n := by
  have hframes : ∀ k, framesOf (oneTable "0.2.0".toList) (fun _ => List.replicate k 0)
      (fun _ => false) = [⟨"JOBS".toList, List.replicate k 0⟩] := fun k => rfl
  simp only [plainFile, packedFile, length_vskFile, hframes, flatMap_cons, flatMap_nil,
    append_nil, Frame.encode, length_encodeFrame, length_replicate]
  omega

theorem length_oldFile (n : Nat) : (oldFile n).length = (oldFile 0).length + 2 * n := by
  simp only [oldFile, oldCipher, length_encryptedFile, length_twice, length_append,
    length_plainFile n]
  omega

theorem length_newFile (n : Nat) : (newFile n).length = (newFile 0).length + 2 * n := by
  simp only [newFile, newCipher, length_encryptedFile, length_twice, length_append,
    length_plainFile n]
  omega

theorem openEnvelope_old : openEnvelope overtSodium oldEnvelope (overtPair 1).publicKey
    (overtPair 1) none = .ok (List.replicate 32 7) := by
  obtain ⟨env, hseal, hopen⟩ := openEnvelope_sealEnvelope overtSodium_ideal (overtPair_valid 1)
    (overtPair_valid 1) (List.replicate 32 7) none (zeroNonce _)
  have hsame : sealEnvelope overtSodium (List.replicate 32 7) (overtPair 1).publicKey (overtPair 1)
      none (zeroNonce _) = .ok oldEnvelope := rfl
  obtain rfl := Except.ok.inj (hseal.symm.trans hsame)
  exact hopen

theorem encrypt_old (n : Nat) : overtSodium.blob.encrypt (List.replicate 32 7)
    (List.replicate 24 0) [] (plainFile n) = some (oldCipher n) :=
  encrypt_overtAead.mpr ⟨⟨rfl, rfl⟩, rfl⟩

theorem decryptBlob_old (n : Nat) : decryptBlob overtSodium (List.replicate 32 7) (oldCipher n)
    (List.replicate 24 0) none = .ok (plainFile n) :=
  decryptBlob_ok.mpr (overtSodium_ideal.blob.decrypt_encrypt (encrypt_old n))

theorem reencrypt_oldFile {n : Nat} (hlen : (oldFile n).length ≤ MAX_VSK_BYTES) :
    reencryptV1AsV2 natRuntime overtSodium (oldFile n) (List.replicate 32 7) (overtPair 1)
      "sb".toList (zeroNonce _) (zeroNonce _) = .ok (newFile n) := by
  have haad : buildAad natRuntime (.str "sb".toList) (.num (natRuntime.ofNat 1))
      (overtPair 1).publicKey FORMAT_V2 = .ok (overtAad "sb".toList) :=
    buildAad_publish (by decide) (overtPair 1)
  have hblob : encryptBlob overtSodium (List.replicate 32 7) (plainFile n)
      (some (overtAad "sb".toList)) (zeroNonce _) = .ok ⟨newCipher n, List.replicate 24 0⟩ := rfl
  rw [reencryptV1AsV2_eq (readParts_oldFile hlen) rfl]
  simp only [decryptBlob_old, haad, hblob, sealEnvelope_overt, Bind.bind, Except.bind]
  rfl

theorem recipients_overt : ∀ r ∈ [(⟨"u1".toList, none⟩ : RecipientEntry), ⟨"u2".toList, none⟩],
    ∃ k : Keypair, k.Valid overtSodium ∧
      recipientKey overtApi (overtPair 1) "u1".toList r = .ok k.publicKey := by
  intro r hr
  simp only [mem_cons, not_mem_nil, or_false] at hr
  rcases hr with rfl | rfl
  · exact ⟨overtPair 1, overtPair_valid 1, rfl⟩
  · exact ⟨overtPair 2, overtPair_valid 2, congrArg Except.ok (base64Bytes_base64Text _)⟩

theorem publishSandbox_readable_two :
    ∃ published, publishSandbox natRuntime overtSodium overtApi (fun _ => []) (overtPair 1)
        "u1".toList (overtBuild 0) none (zeroNonce _) (fun _ => zeroNonce _) = .ok published ∧
      (published.blob.length ≤ MAX_VSK_BYTES →
        readEncryptedVsk natRuntime overtSodium anyHost published.blob () (overtPair 1).publicKey
            (overtPair 1) false none =
          readEncryptedVsk natRuntime overtSodium anyHost (oldFile 0) () (overtPair 1).publicKey
            (overtPair 1) false none ∧
        List.Forall₂ (fun r e => e.user_id = r.user_id ∧ ∀ k : Keypair, k.Valid overtSodium →
          recipientKey overtApi (overtPair 1) "u1".toList r = .ok k.publicKey →
          readEncryptedVsk natRuntime overtSodium anyHost published.blob () (overtPair 1).publicKey k
              false (some e.envelope) =
            readEncryptedVsk natRuntime overtSodium anyHost (oldFile 0) () (overtPair 1).publicKey
              (overtPair 1) false none)
          [⟨"u1".toList, none⟩, ⟨"u2".toList, none⟩] published.finalize.envelopes) := by
  have h := publishSandbox_readable (N := natRuntime) overtSodium_ideal overtApi (fun _ => [])
    (overtPair 1) (overtPair_valid 1) "u1".toList (overtBuild 0) rfl none (zeroNonce _)
    (fun _ => zeroNonce _) _ rfl (by decide) (by decide) _
    (readParts_oldFile oldFile_fits) rfl openEnvelope_old _ (decryptBlob_old 0)
  obtain ⟨published, hpublished⟩ := h.1 recipients_overt (fun _ => rfl) fun _ => rfl
  exact ⟨published, hpublished, fun hlen => h.2 published hpublished hlen Unit anyHost () false⟩

theorem publishSandbox_grown {n : Nat} (hold : (oldFile n).length ≤ MAX_VSK_BYTES)
    (hplain : (plainFile n).length ≤ MAX_VSK_BYTES) (hnew : MAX_VSK_BYTES < (newFile n).length) :
    (∃ result, readEncryptedVsk natRuntime overtSodium anyHost (overtBuild n).encryptedVsk ()
      (overtPair 1).publicKey (overtPair 1) false none = .ok result) ∧
    ∃ published, publishSandbox natRuntime overtSodium overtApi (fun _ => []) (overtPair 1)
        "u1".toList (overtBuild n) none (zeroNonce _) (fun _ => zeroNonce _) = .ok published ∧
      readEncryptedVsk natRuntime overtSodium anyHost published.blob () (overtPair 1).publicKey
        (overtPair 1) false none = .error (.format "FILE_TOO_LARGE".toList
          ("vsk: file exceeds ".toList ++ natText MAX_VSK_BYTES ++ " bytes".toList)) := by
  have hread := readEncryptedVsk_of_opens overtSodium_ideal (readParts_oldFile hold) none
    openEnvelope_old (encrypt_old n) anyHost () false
  obtain ⟨result, hresult⟩ : ∃ result, loadResult anyHost (oneTable "0.2.0".toList)
      (fun _ => List.replicate n 0) (fun _ => false) () false = .ok result := ⟨_, rfl⟩
  have hcreate : overtApi.create (overtBuild n).request none =
      .ok ⟨"sb".toList, [], [⟨"u1".toList, none⟩, ⟨"u2".toList, none⟩]⟩ := rfl
  have hpublish : ∃ published, publishSandbox natRuntime overtSodium overtApi (fun _ => [])
      (overtPair 1) "u1".toList (overtBuild n) none (zeroNonce _) (fun _ => zeroNonce _) =
      .ok published ∧ published.blob = newFile n :=
    publishSandbox_ok overtSodium_ideal (overtPair_valid 1) hcreate (by decide)
      (reencrypt_oldFile hold) recipients_overt (fun _ => rfl) fun _ => rfl
  obtain ⟨published, hpublished, hblob⟩ := hpublish
  refine ⟨⟨result, ?_⟩, published, hpublished, ?_⟩
  · rw [← hresult, ← readVsk_packedFile natJs (packable_bulk n) hplain anyHost () false]
    exact hread
  · have hsize : readFileViaSingleFd published.blob = .error (.format "FILE_TOO_LARGE".toList
        ("vsk: file exceeds ".toList ++ natText MAX_VSK_BYTES ++ " bytes".toList)) := by
      rw [readFileViaSingleFd, hblob, if_pos hnew]
    rw [readEncryptedVsk, readParts, readEnvelopeBlock, hsize]
    rfl

/-- So many bytes in the table that the file just fits the reader's limit. -/
def fullTable : Nat := (MAX_VSK_BYTES - (oldFile 0).length) / 2

set_option maxRecDepth 20000 in
/-- A sandbox that is read before it is published, and is too large to be read afterwards: the new
    file is a little longer than the old one. -/
theorem publishSandbox_tooLarge :
    (∃ result, readEncryptedVsk natRuntime overtSodium anyHost (overtBuild fullTable).encryptedVsk ()
      (overtPair 1).publicKey (overtPair 1) false none = .ok result) ∧
    ∃ published, publishSandbox natRuntime overtSodium overtApi (fun _ => []) (overtPair 1)
        "u1".toList (overtBuild fullTable) none (zeroNonce _) (fun _ => zeroNonce _) = .ok published ∧
      readEncryptedVsk natRuntime overtSodium anyHost published.blob () (overtPair 1).publicKey
        (overtPair 1) false none = .error (.format "FILE_TOO_LARGE".toList
          ("vsk: file exceeds ".toList ++ natText MAX_VSK_BYTES ++ " bytes".toList)) := by
  have hsmall := oldFile_fits
  have hgrows : (oldFile 0).length + 2 ≤ (newFile 0).length := by decide
  have hinside : (plainFile 0).length ≤ (oldFile 0).length := by decide
  have hold := length_oldFile fullTable
  have hnew := length_newFile fullTable
  have hplain := length_plainFile fullTable
  have htable : fullTable = (MAX_VSK_BYTES - (oldFile 0).length) / 2 := rfl
  exact publishSandbox_grown (by omega) (by omega) (by omega)

end Veesker.Cloud
