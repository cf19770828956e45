/-
  File:      Veesker/Sandbox/Production.lean
  Subject:   THE ENVIRONMENT OF PRODUCTION (`makeProductionBuildEnv` in sidecar/src/sandbox/build.ts):
             how the rows are staged and packed, and which key a build is sealed with.

  What is drawn at random is an argument, `Draws`.
-/
import Veesker.Sandbox.Build

namespace Veesker.Sandbox

open Format Vsk Sidecar

/-! ## 1. Staging -/

/-- The columns of the tables the sandbox keeps for itself. -/
def systemColumns (columns : List (String × String × Bool)) : List VskColumn :=
  columns.map fun (name, type, nullable) => ⟨name.toList, type.toList, nullable⟩

def VSK_OBJECTS : Statement :=
  .createTable false "__vsk_objects".toList (systemColumns [("kind", "VARCHAR", false),
    ("owner", "VARCHAR", false), ("name", "VARCHAR", false), ("status", "VARCHAR", false),
    ("ddl_size_bytes", "BIGINT", false), ("extracted_at", "TIMESTAMP", false)])

def VSK_SOURCE : Statement :=
  .createTable false "__vsk_source".toList (systemColumns [("kind", "VARCHAR", false),
    ("owner", "VARCHAR", false), ("name", "VARCHAR", false), ("ddl", "TEXT", true),
    ("spec", "TEXT", true), ("body", "TEXT", true)])

def VSK_DEPENDENCIES : Statement :=
  .createTable false "__vsk_dependencies".toList (systemColumns [("kind", "VARCHAR", false),
    ("owner", "VARCHAR", false), ("name", "VARCHAR", false), ("ref_kind", "VARCHAR", false),
    ("ref_owner", "VARCHAR", false), ("ref_name", "VARCHAR", false), ("ref_status", "VARCHAR", false)])

/-- A text, or `NULL`. -/
def optionalText : Option Text → Value
  | none => .null
  | some s => .text s

/-- `INSERT INTO "name" VALUES (…)`. -/
def insertRow (name : String) (values : List Value) : Statement :=
  .insertValues name.toList [] (values.map storedValue)

def objectStatement (r : ObjectRow) : Statement :=
  insertRow "__vsk_objects" [.text r.kind.text, .text r.owner, .text r.name, .text r.status,
    .number (natText r.ddl_size_bytes), .date (some r.extracted_at) r.extracted_at]

def sourceStatement (r : SourceRow) : Statement :=
  insertRow "__vsk_source" [.text r.kind.text, .text r.owner, .text r.name, .text r.ddl,
    optionalText r.spec, optionalText r.body]

def dependencyStatement (r : DiscoveredDependency) : Statement :=
  insertRow "__vsk_dependencies" [.text r.kind.text, .text r.owner, .text r.name, .text r.refKind,
    .text r.refOwner, .text r.refName, .text r.refStatus.text]

def plsqlStatements (p : PackedPlsql) : List Statement :=
  VSK_OBJECTS :: p.objectRows.map objectStatement ++
    (VSK_SOURCE :: p.sourceRows.map sourceStatement ++
      (VSK_DEPENDENCIES :: p.dependencies.map dependencyStatement))

/-- The columns of the first table of the manifest with that name, in any case. -/
def stagedColumns (m : SandboxManifest) (tableName : Text) : List VskColumn :=
  ((m.tables.find? fun t => toUpperCase t.name == toUpperCase tableName).map
    ManifestTable.columns).getD []

/-- The `INSERT` of a row. -/
def rowStatement (tableName : Text) (cols : List VskColumn) (row : Row) : Statement :=
  .insertValues (toLowerCase tableName) (cols.map VskColumn.name)
    (cols.map fun c => storedValue (cell row c.name))

/-- The statements for one table; one without columns is passed over. -/
def tableStatements (m : SandboxManifest) (tableName : Text) (rows : List Row) : List Statement :=
  let cols := stagedColumns m tableName
  if cols.isEmpty then []
  else .createTable false (toLowerCase tableName) cols :: rows.map (rowStatement tableName cols)

def userStatements (m : SandboxManifest) (rowsByTable : Record (List Row)) : List Statement :=
  rowsByTable.flatMap fun (tableName, rows) => tableStatements m tableName rows

/-- Everything the database is told before the file is written. -/
def stagedStatements (m : SandboxManifest) (rowsByTable : Record (List Row)) (p : PackedPlsql) :
    List Statement :=
  userStatements m rowsByTable ++ plsqlStatements p

section

variable {σ ν : Type} (N : Runtime ν) (S : Sodium) (D : DuckDBHost σ)

/-- `writeEncryptedVskAt`; the file is of version 1, as no context is handed on. -/
def writeStaged (blobNonce : S.blob.Nonce) (m : SandboxManifest) (rowsByTable : Record (List Row))
    (contentKey : Bytes) (envelope : Envelope) (p : PackedPlsql) : Except Failure Bytes := do
  let host ← D.runAll (stagedStatements m rowsByTable p) D.openInMemory
  writeEncryptedVsk N S D host (m.json N) contentKey envelope none blobNonce

/-! ## 2. The key -/

/-- The operating system's store of private keys. -/
structure Keyring where
  /-- `getPrivateKey()` for an account. -/
  getPrivateKey : Text → Option Bytes
  /-- What reading gives after the key was stored. -/
  readBack : Text → Bytes → Option Bytes

/-- The `options` of the environment: the array of a key that is there already, and the owner. -/
structure BuildOptions where
  existingContentKey : Ref
  ownerKp : Keypair

/-- What is drawn at random in one build. -/
structure Draws where
  contentKey : Bytes
  privateKey : Bytes
  blobNonce : S.blob.Nonce
  envelopeNonce : S.envelope.Nonce

def publicKeyFromPrivate (priv : Bytes) : Except Failure Bytes := S.orThrow (S.agreement.base priv)

/-- The private key of an account; one that is missing is stored and read back. -/
def ownerPrivateKey (keyring : Keyring) (drawn : Bytes) (ownerAccount : Text) :
    Except Failure Bytes :=
  match keyring.getPrivateKey ownerAccount with
  | some priv => .ok priv
  | none =>
    match keyring.readBack ownerAccount drawn with
    | none => .error (.error "sealEnvelopeForOwner: keychain write succeeded but read-back returned null — refusing to use a key we cannot persistently retrieve".toList)
    | some verify =>
      if verify.length ≠ drawn.length then
        .error (.error "sealEnvelopeForOwner: keychain read-back length mismatch — refusing to use a possibly-corrupted key".toList)
      else if verify ≠ drawn then
        .error (.error "sealEnvelopeForOwner: keychain read-back content mismatch — an existing key likely exists but was unreadable; refusing to overwrite".toList)
      else .ok drawn

def sealEnvelopeForOwner (keyring : Keyring) (options : Option BuildOptions) (draws : Draws S)
    (ownerAccount : Text) (arrays : Arrays) : Except Failure (Ref × Envelope × Arrays) :=
  match options with
  | some o => do
    -- the array itself is handed back, not a copy
    let envelope ← sealEnvelope S (readArray arrays o.existingContentKey) o.ownerKp.publicKey
      o.ownerKp none draws.envelopeNonce
    .ok (o.existingContentKey, envelope, arrays)
  | none => do
    let priv ← ownerPrivateKey keyring draws.privateKey ownerAccount
    let ownerPub ← publicKeyFromPrivate S priv
    let envelope ← sealEnvelope S draws.contentKey ownerPub ⟨ownerPub, priv⟩ none draws.envelopeNonce
    .ok (arrays.length, envelope, arrays ++ [draws.contentKey])

/-! ## 3. The environment -/

def makeProductionBuildEnv (O : Oracle) (openConnection : Except Text Unit) (keyring : Keyring)
    (options : Option BuildOptions) (draws : Draws S) (localeCompare : Text → Text → Ordering)
    (clock : Clock) : BuildEnv where
  openConnection _ := openConnection.mapError .error
  introspect := introspectTable O
  fkSingleHop := fkSingleHop O
  extractRows := extractRows O
  writeEncryptedVskAt := writeStaged N S D draws.blobNonce
  sealEnvelopeForOwner := sealEnvelopeForOwner S keyring options draws
  sampleColumn := sampleColumnValues O
  detect := detectColumnPii
  discoverDependencies := discoverDependenciesOnce O
  extractDdl kind owner name := extractObjectDdl O owner kind.text name
  localeCompare
  clock

end

end Veesker.Sandbox
