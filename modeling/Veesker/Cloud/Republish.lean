/-
  File:      Veesker/Cloud/Republish.lean
  Subject:   REPUBLISHING (sidecar/src/sandbox-cloud/republish.ts and its wiring in handlers.ts):
             building a sandbox anew under the content key it has.

  The content key is an array in memory that the steps hand on, and one of them overwrites it.

  * `handleSandboxRepublishProduction_steps` -- what a republish that went through did.
  * **`republish_never`**: whatever sandbox its owner could open, no republish leaves a blob that
    those who could open the old one can open.
-/
import Veesker.Cloud.Grant
import Veesker.Sandbox.Masks

namespace Veesker.Cloud

open Format Vsk Veesker.Sandbox Sidecar List

/-! ## 1. The build that is done again -/

structure SandboxBuildConfig where
  connectionId : Text
  schemaName : Text
  primaryTables : List PrimaryTableSpec
  fkWalkDepth : Option Int
  piiLevel : Int
  ttlDays : Int
  excludedPlsql : List ExcludedPlsql := []
  buildConfigVersion : Int
  deriving DecidableEq

def SUPPORTED_VERSION : Int := 1

/-- `loadBuildConfig`, of what is stored in the directory of the builds. -/
def loadBuildConfig (stored : Text → Option SandboxBuildConfig) (sandboxId : Text) :
    Except Failure (Option SandboxBuildConfig) :=
  match stored sandboxId with
  | none => .ok none
  | some parsed =>
    if parsed.buildConfigVersion ≠ SUPPORTED_VERSION then
      .error (.error ("build-config-store: unsupported buildConfigVersion ".toList ++
        intText parsed.buildConfigVersion ++ " (expected ".toList ++ intText SUPPORTED_VERSION ++
        ")".toList))
    else .ok (some parsed)

/-! ## 2. The steps -/

/-- What the steps share: the arrays in memory, `capturedContentKey`, what reading a file gives, and
    what was put where. -/
structure Workspace where
  arrays : Arrays
  captured : Option Ref
  files : Text → Except Failure Bytes
  sent : List (Text × Bytes)

structure BuildOutcome where
  outPath : Text
  totalRows : Nat
  deriving DecidableEq

structure Upload where
  sha256 : Text
  size : Nat
  deriving DecidableEq

structure RepublishResult where
  new_blob_sha256 : Text
  bytes : Nat
  deriving DecidableEq

structure OracleConnectionConfig where
  user : Text
  password : Text
  connectString : Text
  deriving DecidableEq

structure RepublishEnv where
  recoverContentKey : Text → Workspace → Except Failure (Ref × Workspace)
  oracleConfigResolver : Text → Except Failure OracleConnectionConfig
  buildSandbox : SandboxBuildConfig → OracleConnectionConfig → Ref → Workspace →
    Except Failure (BuildOutcome × Workspace)
  /-- The `upload_url`. -/
  requestRepublishUrl : Text → Except Failure Text
  uploadToR2 : Text → Text → Workspace → Except Failure (Upload × Workspace)
  /-- With size and hash. -/
  finalizeRepublish : Text → Nat → Text → Except Failure Unit

def Workspace.fillZero (w : Workspace) (r : Ref) : Workspace :=
  { w with arrays := Veesker.Sandbox.fillZero w.arrays r }

def handleSandboxRepublish (stored : Text → Option SandboxBuildConfig) (env : RepublishEnv)
    (sandboxId : Text) (w : Workspace) : Except Failure (RepublishResult × Workspace) := do
  match ← loadBuildConfig stored sandboxId with
  | none =>
    .error (.error ("republish: build config missing for sandbox ".toList ++ sandboxId ++
      " — was the original publish from this machine?".toList))
  | some config =>
    let (contentKey, w) ← env.recoverContentKey sandboxId w
    let oracleConfig ← env.oracleConfigResolver config.connectionId
    let (buildResult, w) ← env.buildSandbox config oracleConfig contentKey w
    let upload_url ← env.requestRepublishUrl sandboxId
    let (upload, w) ← env.uploadToR2 buildResult.outPath upload_url w
    env.finalizeRepublish sandboxId upload.size upload.sha256
    .ok (⟨upload.sha256, upload.size⟩, w.fillZero contentKey)

/-! ## 3. The steps in production -/

structure RepublishParams where
  /-- The account in the verified token. -/
  ownerAccount : Text
  sandboxId : Text
  oracleConfig : OracleConnectionConfig
  expectedBuildsDir : Text
  deriving DecidableEq

def isHexDigit (c : Char) : Bool :=
  c.isDigit || ('a' ≤ c && c ≤ 'f') || ('A' ≤ c && c ≤ 'F')

/-- `UUID_RE`: groups of 8, 4, 4, 4 and 12 digits. -/
def UUID_RE (t : Text) : Bool :=
  t.length == 36 && t.zipIdx.all fun (c, i) =>
    if i = 8 ∨ i = 13 ∨ i = 18 ∨ i = 23 then c == '-' else isHexDigit c

def RepublishParams.check (p : RepublishParams) : Except Failure Unit :=
  if p.sandboxId.isEmpty then .error (.error "sandbox.republish requires sandboxId".toList)
  else if !UUID_RE p.sandboxId then
    .error (.error "sandbox.republish: invalid sandboxId (expected UUID)".toList)
  else if p.expectedBuildsDir.isEmpty then
    .error (.error "sandbox.republish requires expectedBuildsDir".toList)
  else .ok ()

section

variable {σ ν : Type} (N : Runtime ν) (S : Sodium) (sha256Hex : Bytes → Text) (D : DuckDBHost σ)

/-- The machine a republish runs on, and what is drawn at random there. -/
structure RepublishHost where
  stored : Text → Option SandboxBuildConfig
  keyring : Keyring
  connect : OracleConnectionConfig → Except Text Unit
  oracle : Oracle
  localeCompare : Text → Text → Ordering
  clock : Clock
  /-- `join` of `node:path`. -/
  joinPath : Text → Text → Text
  draws : Draws S
  blobNonce : S.blob.Nonce
  envelopeNonce : S.envelope.Nonce

variable {S} in
/-- The environment of the build: the key that is there already, and its owner. -/
def RepublishHost.buildEnv (H : RepublishHost S) (oracleConfig : OracleConnectionConfig)
    (contentKey : Ref) (ownerKp : Keypair) : BuildEnv :=
  makeProductionBuildEnv N S D H.oracle (H.connect oracleConfig) H.keyring (some ⟨contentKey, ownerKp⟩)
    H.draws H.localeCompare H.clock

/-- The envelope in an answer of the service. -/
def SandboxResponse.envelope (sbResp : SandboxResponse ν) : Envelope where
  ciphertext := base64Bytes sbResp.sealed_content_key
  nonce := base64Bytes sbResp.envelope_nonce

def recoverContentKey (sbResp : SandboxResponse ν) (ownerKp : Keypair) (w : Workspace) :
    Except Failure (Ref × Workspace) := do
  let ck ← openEnvelope S sbResp.envelope ownerKp.publicKey ownerKp none
  let r := w.arrays.length
  .ok (r, { w with arrays := w.arrays ++ [ck], captured := some r })

variable {S} in
def republishSpec (H : RepublishHost S) (p : RepublishParams) (sbResp : SandboxResponse ν)
    (config : SandboxBuildConfig) : SandboxBuildSpec where
  connectionId := config.connectionId
  schemaName := config.schemaName
  sandboxName := sbResp.sandbox.name
  ttlDays := config.ttlDays
  piiLevel := config.piiLevel
  ownerAccount := some p.ownerAccount
  primaryTables := config.primaryTables
  fkWalkDepth := config.fkWalkDepth
  dryRun := false
  outPath := some (H.joinPath p.expectedBuildsDir (p.sandboxId ++ "-republish.vsk".toList))
  excludedPlsql := config.excludedPlsql

/-- The build: the file it leaves is at its path afterwards. -/
def republishBuild (H : RepublishHost S) (p : RepublishParams) (sbResp : SandboxResponse ν)
    (ownerKp : Keypair) (config : SandboxBuildConfig) (contentKey : Ref) (w : Workspace) :
    Except Failure (BuildOutcome × Workspace) := do
  -- the resolved connection is part of the spec, and the build uses that of the request
  let b ← Veesker.Sandbox.buildSandbox (H.buildEnv N D p.oracleConfig contentKey ownerKp)
    (republishSpec H p sbResp config) w.arrays
  let files := fun path =>
    match b.packed with
    | some packed => if path = b.result.outPath then .ok packed.file else w.files path
    | none => w.files path
  .ok (⟨b.result.outPath, b.result.totalRows⟩, { w with arrays := b.arrays, files })

/-- The bytes that are uploaded: the file, re-encrypted once a key was recovered. -/
def uploadBytes (H : RepublishHost S) (ownerKp : Keypair) (sandboxId : Text) (buf : Bytes)
    (w : Workspace) : Except Failure Bytes :=
  match w.captured with
  | some capturedContentKey =>
    reencryptV1AsV2 N S buf (readArray w.arrays capturedContentKey) ownerKp sandboxId H.blobNonce
      H.envelopeNonce
  | none => .ok buf

def uploadToR2 (api : Api ν) (H : RepublishHost S) (ownerKp : Keypair) (sandboxId : Text)
    (vskPath uploadUrl : Text) (w : Workspace) : Except Failure (Upload × Workspace) := do
  let buf ← w.files vskPath
  let u8 ← uploadBytes N S H ownerKp sandboxId buf w
  api.upload uploadUrl u8
  let w := { w with sent := w.sent ++ [(uploadUrl, u8)] }
  .ok (⟨sha256Hex u8, u8.length⟩, w.captured.elim w w.fillZero)

def republishEnv (api : Api ν) (H : RepublishHost S) (p : RepublishParams)
    (sbResp : SandboxResponse ν) (ownerKp : Keypair) : RepublishEnv where
  recoverContentKey _ := recoverContentKey S sbResp ownerKp
  oracleConfigResolver _ := .ok p.oracleConfig
  buildSandbox config _ := republishBuild N S D H p sbResp ownerKp config
  requestRepublishUrl := api.republish
  uploadToR2 := uploadToR2 N S sha256Hex api H ownerKp p.sandboxId
  finalizeRepublish := api.republishFinalize

def handleSandboxRepublishProduction (api : Api ν) (H : RepublishHost S) (p : RepublishParams)
    (w : Workspace) : Except Failure (RepublishResult × Workspace) := do
  p.check
  let sbResp ← api.sandbox p.sandboxId
  match H.keyring.getPrivateKey p.ownerAccount with
  | none =>
    .error (.error ("sandbox.republish: no owner keypair found in keychain for ".toList ++
      p.ownerAccount ++ " — cannot decrypt existing envelope".toList))
  | some priv =>
    let publicKey ← publicKeyFromPrivate S priv
    handleSandboxRepublish H.stored (republishEnv N S sha256Hex D api H p sbResp ⟨publicKey, priv⟩)
      p.sandboxId w

/-! ## 4. What a republish is for -/

/-- With a key pair and an envelope the plain file inside a blob is read. -/
def Opens (blob ownerPub : Bytes) (k : Keypair) (e : Envelope) : Prop :=
  ∃ p plain, readParts N blob = .ok p ∧
    decryptParts S (p.withEnvelope (some e)) ownerPub k = .ok plain

/-- The blob is encrypted under a key. -/
def EncryptedUnder (key blob : Bytes) : Prop :=
  ∃ p plain, readParts N blob = .ok p ∧
    decryptBlob S key p.data p.blobNonce (p.bound.map aadBytes) = .ok plain

/-- A republish that works: it goes through, what it uploads is encrypted under the content key it
    recovered, and whoever could open the previous blob with an envelope opens the new one with it. -/
def RepublishWorks (api : Api ν) (H : RepublishHost S) (p : RepublishParams) (w : Workspace)
    (previous ownerPub : Bytes) : Prop :=
  ∃ result w' url blob,
    handleSandboxRepublishProduction N S sha256Hex D api H p w = .ok (result, w') ∧
    w'.sent = w.sent ++ [(url, blob)] ∧
    (∃ sbResp ownerKp key, api.sandbox p.sandboxId = .ok sbResp ∧
      openEnvelope S sbResp.envelope ownerKp.publicKey ownerKp none = .ok key ∧
      EncryptedUnder N S key blob) ∧
    ∀ k e, Opens N S previous ownerPub k e → Opens N S blob ownerPub k e

/-! ## 5. What the steps do -/

variable {N S sha256Hex D} {blobNonce : S.blob.Nonce}

theorem writeStaged_ok {m : SandboxManifest}
    {rowsByTable : Record (List Veesker.Sandbox.Row)} {contentKey : Bytes} {envelope : Envelope} {pl : PackedPlsql}
    {file : Bytes}
    (h : writeStaged N S D blobNonce m rowsByTable contentKey envelope pl = .ok file) :
    ∃ plain c, S.blob.encrypt contentKey blobNonce.bytes [] plain = some c ∧
      file = encryptedFile N FORMAT_V1 (envelopeBlock N envelope blobNonce.bytes FORMAT_V1 none) c := by
  obtain ⟨host, -, h⟩ := bind_ok.mp h
  obtain ⟨plain, -, h⟩ := bind_ok.mp h
  obtain ⟨aad, haad, h⟩ := bind_ok.mp h
  cases haad
  obtain ⟨encrypted, henc, h⟩ := bind_ok.mp h
  cases h
  rw [encryptBlob] at henc
  split at henc
  · cases henc
  obtain ⟨c, hc, henc⟩ := bind_ok.mp henc
  cases henc
  exact ⟨plain, c, Sodium.orThrow_ok.mp hc, rfl⟩

/-- **The build**: it leaves a file of version 1 under the key of the array, and zeros in the
    array. -/
theorem republishBuild_ok {H : RepublishHost S} {p : RepublishParams} {sbResp : SandboxResponse ν}
    {ownerKp : Keypair} {config : SandboxBuildConfig} {contentKey : Ref} {w w' : Workspace}
    {outcome : BuildOutcome}
    (h : republishBuild N S D H p sbResp ownerKp config contentKey w = .ok (outcome, w')) :
    ∃ envelope plain c,
      S.blob.encrypt (readArray w.arrays contentKey) H.draws.blobNonce.bytes [] plain = some c ∧
      w'.files outcome.outPath = .ok (encryptedFile N FORMAT_V1
        (envelopeBlock N envelope H.draws.blobNonce.bytes FORMAT_V1 none) c) ∧
      w'.arrays = fillZero w.arrays contentKey ∧ w'.captured = w.captured ∧ w'.sent = w.sent := by
  obtain ⟨b, hb, h⟩ := bind_ok.mp h
  obtain ⟨rfl, rfl⟩ := Prod.mk.inj (Except.ok.inj h)
  obtain ⟨packed, hpacked⟩ := packed_of_buildSandbox rfl hb
  obtain ⟨s, ddl, key, arrays', -, -, -, hseal, hkey, hfile, harrays⟩ := buildSandbox_packed hb hpacked
  obtain ⟨envelope, -, hseal⟩ := bind_ok.mp hseal
  obtain ⟨rfl, h⟩ := Prod.mk.inj (Except.ok.inj hseal)
  obtain ⟨henv, rfl⟩ := Prod.mk.inj h
  have hfile : writeStaged N S D H.draws.blobNonce packed.manifest packed.rowsByTable
      packed.contentKey packed.envelope packed.plsql = .ok packed.file := hfile
  obtain ⟨plain, c, hc, hfile⟩ := writeStaged_ok hfile
  rw [hkey] at hc
  refine ⟨packed.envelope, plain, c, hc, ?_, harrays, rfl, rfl⟩
  simp only [hpacked, if_pos]
  exact congrArg Except.ok hfile

theorem readArray_fillZero (m : Arrays) (r : Ref) :
    readArray (fillZero m r) r = List.replicate (readArray m r).length 0 := by
  simp only [readArray, fillZero, getD_eq_getElem?_getD, List.getElem?_modify_eq]
  cases m[r]? <;> rfl

/-- The array that was added last. -/
theorem readArray_append (m : Arrays) (b : Bytes) : readArray (m ++ [b]) m.length = b := by
  rw [readArray, getD_eq_getElem?_getD, List.getElem?_concat_length]
  rfl

/-- **What a republish that went through did**: it opened the envelope it was handed without
    associated data, had a file built under the key in it, and uploaded what re-encrypting that file
    under an array of zeros gave. -/
theorem handleSandboxRepublishProduction_steps {api : Api ν} {H : RepublishHost S}
    {p : RepublishParams} {w w' : Workspace} {result : RepublishResult}
    (h : handleSandboxRepublishProduction N S sha256Hex D api H p w = .ok (result, w')) :
    ∃ sbResp ownerKp key envelope plain c url blob, UUID_RE p.sandboxId = true ∧
      api.sandbox p.sandboxId = .ok sbResp ∧ ownerKp.Valid S ∧
      openEnvelope S sbResp.envelope ownerKp.publicKey ownerKp none = .ok key ∧
      S.blob.encrypt key H.draws.blobNonce.bytes [] plain = some c ∧
      reencryptV1AsV2 N S (encryptedFile N FORMAT_V1
          (envelopeBlock N envelope H.draws.blobNonce.bytes FORMAT_V1 none) c)
        (List.replicate key.length 0) ownerKp p.sandboxId H.blobNonce H.envelopeNonce = .ok blob ∧
      w'.sent = w.sent ++ [(url, blob)] := by
  obtain ⟨_, hcheck, h⟩ := bind_ok.mp h
  have huuid : UUID_RE p.sandboxId = true := by
    by_contra hn
    unfold RepublishParams.check at hcheck
    rw [eq_false_of_ne_true hn] at hcheck
    split at hcheck <;> cases hcheck
  obtain ⟨sbResp, hresp, h⟩ := bind_ok.mp h
  split at h
  · cases h
  rename_i priv hpriv
  obtain ⟨publicKey, hpub, h⟩ := bind_ok.mp h
  obtain ⟨found, -, h⟩ := bind_ok.mp h
  split at h
  · cases h
  rename_i config
  obtain ⟨⟨contentKey, w1⟩, hkey, h⟩ := bind_ok.mp h
  obtain ⟨oracleConfig, -, h⟩ := bind_ok.mp h
  obtain ⟨⟨outcome, w2⟩, hbuild, h⟩ := bind_ok.mp h
  obtain ⟨url, -, h⟩ := bind_ok.mp h
  obtain ⟨⟨upload, w3⟩, hupload, h⟩ := bind_ok.mp h
  obtain ⟨-, -, h⟩ := bind_ok.mp h
  obtain ⟨-, rfl⟩ := Prod.mk.inj (Except.ok.inj h)
  obtain ⟨key, hopen, hkey⟩ := bind_ok.mp hkey
  obtain ⟨rfl, rfl⟩ := Prod.mk.inj (Except.ok.inj hkey)
  obtain ⟨envelope, plain, c, hc, hfile, harrays, hcaptured, hsent⟩ := republishBuild_ok hbuild
  simp only [readArray_append] at hc
  obtain ⟨buf, hbuf, hupload⟩ := bind_ok.mp hupload
  obtain rfl := Except.ok.inj (hfile.symm.trans hbuf)
  obtain ⟨u8, hu8, hupload⟩ := bind_ok.mp hupload
  obtain ⟨-, -, hupload⟩ := bind_ok.mp hupload
  obtain ⟨-, rfl⟩ := Prod.mk.inj (Except.ok.inj hupload)
  simp only [uploadBytes, hcaptured, harrays, readArray_fillZero, readArray_append] at hu8
  refine ⟨sbResp, ⟨publicKey, priv⟩, key, envelope, plain, c, url, u8, huuid, hresp,
    Sodium.orThrow_ok.mp hpub, hopen, hc, hu8, ?_⟩
  simp only [hcaptured, Workspace.fillZero, Option.elim_some, hsent]

/-! ## 6. The blob that is uploaded -/

theorem UUID_RE_good {t : Text} (h : UUID_RE t = true) : t ≠ [] ∧ '\x00' ∉ t := by
  rw [UUID_RE, Bool.and_eq_true, beq_iff_eq, all_eq_true] at h
  obtain ⟨hlen, hall⟩ := h
  refine ⟨?_, fun hmem => ?_⟩
  · rintro rfl
    exact absurd hlen (by decide)
  · obtain ⟨i, hi, he⟩ := getElem_of_mem hmem
    have hc := hall ('\x00', i) (mem_zipIdx_iff_getElem?.mpr (List.getElem?_eq_some_iff.mpr ⟨hi, he⟩))
    simp only at hc
    split at hc <;> exact absurd hc (by decide)

/-- The file of a build is one of version 1, if it is not too large to be read. -/
theorem readParts_built (envelope : Envelope) (blobNonce c : Bytes)
    (hlen : (encryptedFile N FORMAT_V1 (envelopeBlock N envelope blobNonce FORMAT_V1 none) c).length ≤
      MAX_VSK_BYTES) :
    readParts N (encryptedFile N FORMAT_V1 (envelopeBlock N envelope blobNonce FORMAT_V1 none) c) =
      .ok ⟨envelope, blobNonce, none, c⟩ :=
  readParts_encryptedFile (.inr (.inl rfl)) envelope blobNonce
    (show ∀ c ∈ (none : Option (AadContext ν)), c.Good N from nofun) hlen

/-- What re-encrypting gives is the file itself or one that was put together anew. -/
theorem reencryptV1AsV2_shape {f contentKey blob : Bytes} {owner : Keypair} {sandboxId : Text}
    {nonce : S.envelope.Nonce}
    (h : reencryptV1AsV2 N S f contentKey owner sandboxId blobNonce nonce = .ok blob) :
    blob = f ∨ 56 ≤ f.length ∧ ∃ envelope n c, blob =
      rebuildHeader f (utf8Bytes (stringify N.toNumbers (envelopeBlock N envelope n FORMAT_V2
          (some (publishContext N sandboxId owner))))).length c.length ++
        (utf8Bytes (stringify N.toNumbers (envelopeBlock N envelope n FORMAT_V2
          (some (publishContext N sandboxId owner)))) ++ c) := by
  unfold reencryptV1AsV2 at h
  simp only at h
  split at h
  · cases h
  rename_i hlen
  split at h
  · cases h
  obtain ⟨version, -, h⟩ := bind_ok.mp h
  split at h
  · exact .inl (Except.ok.inj h).symm
  obtain ⟨oldNonce, -, h⟩ := bind_ok.mp h
  obtain ⟨plain, -, h⟩ := bind_ok.mp h
  obtain ⟨aad, -, h⟩ := bind_ok.mp h
  obtain ⟨encrypted, -, h⟩ := bind_ok.mp h
  obtain ⟨envelope, -, h⟩ := bind_ok.mp h
  refine .inr ⟨?_, envelope, encrypted.nonce, encrypted.ciphertext, (Except.ok.inj h).symm⟩
  rw [subarray, drop_zero, length_take] at hlen
  omega

theorem length_of_readParts {blob : Bytes} {q : EncryptedParts} (h : readParts N blob = .ok q) :
    blob.length ≤ MAX_VSK_BYTES ∧ ∃ header, readHeader (subarray blob 0 HEADER_SIZE) = .ok header := by
  obtain ⟨_, hblock, -⟩ := bind_ok.mp h
  obtain ⟨buf, hbuf, hblock⟩ := bind_ok.mp hblock
  rw [readFileViaSingleFd] at hbuf
  split at hbuf
  · cases hbuf
  rename_i hlen
  cases hbuf
  obtain ⟨header, hheader, -⟩ := bind_ok.mp hblock
  exact ⟨not_lt.mp hlen, header, hheader⟩

/-- **The blob that is uploaded is bound to associated data**, if it can be read at all. -/
theorem bound_of_reencrypt (hS : S.Ideal) {f contentKey blob : Bytes} {owner : Keypair}
    (ho : owner.Valid S) {sandboxId : Text} (hid : UUID_RE sandboxId = true)
    {nonce : S.envelope.Nonce}
    (hf : f.length ≤ MAX_VSK_BYTES → ∃ p, readParts N f = .ok p ∧ p.bound = none)
    (h : reencryptV1AsV2 N S f contentKey owner sandboxId blobNonce nonce = .ok blob)
    {q : EncryptedParts} (hq : readParts N blob = .ok q) : ∃ a, q.bound = some a := by
  obtain ⟨hlen, header, hheader⟩ := length_of_readParts hq
  obtain ⟨hne, hnul⟩ := UUID_RE_good hid
  have hgood := publishContext_good (N := N) hS ho hne hnul
  -- either way the blob is an encrypted file around the context of the sandbox
  suffices hfile : ∃ envelope n c, blob = encryptedFile N FORMAT_V2 (envelopeBlock N envelope n
      FORMAT_V2 (some (publishContext N sandboxId owner))) c by
    obtain ⟨envelope, n, c, rfl⟩ := hfile
    have hparts := readParts_encryptedFile (.inr (.inr rfl)) envelope n hgood hlen
    obtain rfl := Except.ok.inj (hparts.symm.trans hq)
    exact ⟨_, rfl⟩
  rcases reencryptV1AsV2_shape h with rfl | ⟨h56, envelope, n, c, rfl⟩
  · obtain ⟨p, hp, hbound⟩ := hf hlen
    rw [reencryptV1AsV2_eq hp hbound] at h
    obtain ⟨plain, -, h⟩ := bind_ok.mp h
    obtain ⟨aad, -, h⟩ := bind_ok.mp h
    obtain ⟨encrypted, -, h⟩ := bind_ok.mp h
    obtain ⟨envelope, -, h⟩ := bind_ok.mp h
    exact ⟨envelope, encrypted.nonce, encrypted.ciphertext, (Except.ok.inj h).symm⟩
  · refine ⟨envelope, n, c, ?_⟩
    have htake := (take_of_readHeader hheader).1
    have h6 : (f.take 6).length = 6 := by
      rw [length_take]
      omega
    rw [subarray, drop_zero, take_take, rebuildHeader, append_assoc,
      take_append_of_le_length (by rw [h6]; decide), take_of_length_le (by rw [h6]; decide)]
      at htake
    rw [rebuildHeader_eq htake]
    rfl

/-! ## 7. No republish works -/

variable (N S sha256Hex D)

/-- **No republish works.** Somebody can open the previous blob with the envelope that the service
    hands out for it; then, whatever is republished and however the service answers, it does not go
    through, or leaves a blob that this envelope does not open. -/
theorem republish_never (hS : S.Ideal) (api : Api ν) (H : RepublishHost S) (p : RepublishParams)
    (w : Workspace) (previous ownerPub : Bytes) (k : Keypair) (sbResp : SandboxResponse ν)
    (hresp : api.sandbox p.sandboxId = .ok sbResp)
    (hprevious : Opens N S previous ownerPub k sbResp.envelope) :
    ¬ RepublishWorks N S sha256Hex D api H p w previous ownerPub := by
  rintro ⟨result, w', url, blob, h, hsent, -, hall⟩
  obtain ⟨sbResp', owner, key, envelope, plain, c, url', blob', hid, hresp', ho, hopen, hc, hblob,
    hsent'⟩ := handleSandboxRepublishProduction_steps h
  obtain rfl := Except.ok.inj (hresp.symm.trans hresp')
  obtain ⟨-, rfl⟩ : url = url' ∧ blob = blob' := by
    have he := append_cancel_left (hsent.symm.trans hsent')
    exact Prod.mk.inj (singleton_inj.mp he)
  obtain ⟨q, plain', hq, hd⟩ := hall k _ hprevious
  obtain ⟨a, ha⟩ := bound_of_reencrypt hS ho hid
    (fun hlen => ⟨_, readParts_built envelope _ c hlen, rfl⟩) hblob hq
  -- the envelope would open with the new blob's associated data, and it was opened without
  obtain ⟨key', hkey', -⟩ := bind_ok.mp hd
  obtain ⟨shared, -, hkey'⟩ := bind_ok.mp hkey'
  have hdec := Sodium.orThrow_ok.mp hkey'
  simp only [EncryptedParts.withEnvelope, ha, Option.map_some, Option.getD_some] at hdec
  exact not_openEnvelope_of_aad hS ((hS.envelope.exact _ _ _ _ _).mp hdec) owner.publicKey owner key
    hopen

end

/-! ## 8. Runs to try it with -/

def boundId : Text := "5a1d0c1e-2b3f-4c4d-8e5f-0123456789ab".toList

/-- A service that takes everything, and hands out one envelope. -/
def republishApi (e : Envelope) : Api Nat :=
  { overtApi with
    sandbox := fun id => .ok {
      sandbox := {
        id
        owner_user_id := "u1".toList
        name := "sb".toList
        description := none
        status := "ready".toList
        blob_sha256_hex := []
        blob_size_bytes := 0
        expires_at := []
        ttl_days := 7
        spec_json := .null }
      download_url := []
      sealed_content_key := base64Text e.ciphertext
      envelope_nonce := base64Text e.nonce }
    republish := fun _ => .ok [] }

/-- The machine of the owner `overtPair 1`, with the database of one address. -/
def republishHost : RepublishHost overtSodium where
  stored _ := some {
    connectionId := "c".toList
    schemaName := "S".toList
    primaryTables := [{ name := "T".toList }]
    fkWalkDepth := some 1
    piiLevel := 0
    ttlDays := 7
    buildConfigVersion := 1 }
  keyring := { overtKeyring with getPrivateKey := fun _ => some (List.replicate 32 1) }
  connect _ := .ok ()
  oracle := oneAddress
  localeCompare _ _ := .eq
  clock := ⟨0, 0, 0⟩
  joinPath dir name := dir ++ '/' :: name
  draws := overtDraws
  blobNonce := zeroNonce _
  envelopeNonce := zeroNonce _

def boundParams : RepublishParams where
  ownerAccount := "o".toList
  sandboxId := boundId
  oracleConfig := ⟨[], [], []⟩
  expectedBuildsDir := "d".toList

def emptyWorkspace : Workspace := ⟨[], none, fun _ => .error typeError, []⟩

/-- The envelope that `republishApi e` hands out. -/
theorem republishApi_envelope (e : Envelope) : ∃ sbResp,
    (republishApi e).sandbox boundId = .ok sbResp ∧ sbResp.envelope = e :=
  ⟨_, rfl, by simp only [SandboxResponse.envelope, base64Bytes_base64Text]⟩

set_option maxRecDepth 20000 in
/-- The sandbox as it is published: the owner opens it. -/
theorem opens_bound : Opens natRuntime overtSodium (overtFile 2 boundId) (overtPair 1).publicKey
    (overtPair 1) (overtEnvelope boundId) := by
  have hgood : ∀ c ∈ some (overtContext boundId), c.Good natRuntime := by
    intro c hc
    cases hc
    exact ⟨by decide, by decide, trivial, rfl⟩
  have hparts := readParts_encryptedFile (.inr (.inr rfl)) (overtEnvelope boundId)
    (List.replicate 24 0) hgood (c := overtCipher boundId) (by decide)
  obtain ⟨env, hseal, hopen⟩ := openEnvelope_sealEnvelope overtSodium_ideal (overtPair_valid 1)
    (overtPair_valid 1) (List.replicate 32 7) (some (overtAad boundId)) (zeroNonce _)
  obtain rfl := Except.ok.inj (hseal.symm.trans (sealEnvelope_overt boundId))
  have hblob : overtSodium.blob.encrypt (List.replicate 32 7) (List.replicate 24 0)
      (overtAad boundId) (packedFile natJs (oneTable "0.2.0".toList) (fun _ => []) fun _ => false) =
      some (overtCipher boundId) := encrypt_overtAead.mpr ⟨⟨rfl, rfl⟩, rfl⟩
  exact ⟨_, _, hparts, bind_ok.mpr ⟨_, hopen,
    decryptBlob_ok.mpr (overtSodium_ideal.blob.decrypt_encrypt hblob)⟩⟩

theorem republish_never_bound : ¬ RepublishWorks natRuntime overtSodium (fun _ => []) nameHost
    (republishApi (overtEnvelope boundId)) republishHost boundParams emptyWorkspace
    (overtFile 2 boundId) (overtPair 1).publicKey := by
  obtain ⟨sbResp, hresp, henvelope⟩ := republishApi_envelope (overtEnvelope boundId)
  exact republish_never natRuntime overtSodium (fun _ => []) nameHost overtSodium_ideal _
    republishHost boundParams emptyWorkspace _ _ (overtPair 1) sbResp hresp
    (henvelope.symm ▸ opens_bound)

/-- A sandbox as it is published now, and one from before envelopes were bound: the owner opens
    both, and cannot republish either. -/
theorem republish_refused :
    (Opens natRuntime overtSodium (overtFile 2 boundId) (overtPair 1).publicKey (overtPair 1)
        (overtEnvelope boundId) ∧
      ¬ RepublishWorks natRuntime overtSodium (fun _ => []) nameHost
        (republishApi (overtEnvelope boundId)) republishHost boundParams emptyWorkspace
        (overtFile 2 boundId) (overtPair 1).publicKey) ∧
    Opens natRuntime overtSodium (oldFile 0) (overtPair 1).publicKey (overtPair 1) oldEnvelope ∧
      ¬ RepublishWorks natRuntime overtSodium (fun _ => []) nameHost (republishApi oldEnvelope)
        republishHost boundParams emptyWorkspace (oldFile 0) (overtPair 1).publicKey := by
  have hnone : ∀ e ∈ [overtEnvelope boundId, oldEnvelope], ∀ previous,
      ¬ RepublishWorks natRuntime overtSodium (fun _ => []) nameHost (republishApi e) republishHost
        boundParams emptyWorkspace previous (overtPair 1).publicKey := by
    intro e he previous
    rintro ⟨result, w', url, blob, h, -⟩
    have hrefused : ([overtEnvelope boundId, oldEnvelope].all fun e =>
        (handleSandboxRepublishProduction natRuntime overtSodium (fun _ => []) nameHost
          (republishApi e) republishHost boundParams emptyWorkspace).toOption.isNone) = true := by
      decide +kernel
    have hr := all_eq_true.mp hrefused e he
    rw [h] at hr
    cases hr
  exact ⟨⟨opens_bound, hnone _ mem_cons_self _⟩,
    ⟨_, _, readParts_oldFile oldFile_fits, bind_ok.mpr ⟨_, openEnvelope_old, decryptBlob_old 0⟩⟩,
    hnone _ (mem_cons_of_mem _ mem_cons_self) _⟩

end Veesker.Cloud
