/-
  File:      Veesker/Sandbox/Build.lean
  Subject:   THE BUILD OF A SANDBOX (sidecar/src/sandbox/build.ts): `buildSandbox` over any
             environment, and the environment of production.

  The build is cut where a dry run stops: `surveySandbox` is what both do, `packSandbox` what only a
  real one does. Keys are arrays in memory, as the code passes them on and overwrites them; what a
  failed build leaves there is not followed. Progress events are left out.

  * `buildSandbox_packed` -- **what a real build writes**: the tables of its walk, the rows that were
    extracted, and as masks what the scan suggested.
-/
import Veesker.Sandbox.Masker
import Veesker.Sandbox.Plsql
import Veesker.Sandbox.TypeGuard
import Veesker.Text.Date
import Veesker.Vsk.Encrypted

namespace Veesker.Sandbox

open Format Vsk Sidecar List

/-! ## 1. Arrays in memory -/

abbrev Ref := Nat

abbrev Arrays := List Bytes

def readArray (m : Arrays) (r : Ref) : Bytes := m.getD r []

/-- `a.fill(0)`. -/
def fillZero (m : Arrays) (r : Ref) : Arrays := m.modify r fun b => List.replicate b.length 0

/-! ## 2. The manifest -/

structure ManifestTable where
  name : Text
  rowCount : Nat
  columns : List VskColumn
  deriving DecidableEq

structure VskPiiMask where
  table : Text
  column : Text
  maskType : VskMaskType
  deriving DecidableEq

structure VskTypeWarning where
  table : Text
  column : Text
  oracleType : Text
  message : Text
  deriving DecidableEq

structure SandboxManifest where
  builtAt : Text
  sourceId : Text
  schemaName : Text
  ttlExpiresAt : Text
  tables : List ManifestTable
  piiMasks : List VskPiiMask
  engineVersion : Text
  dataFormat : Text
  plsqlObjectCount : Nat
  skippedObjects : List SkippedObject
  typeWarnings : List VskTypeWarning
  deriving DecidableEq

section

variable {ν : Type} (N : Runtime ν)

/-- An object with texts only. -/
def textObject (members : List (String × Text)) : Json ν :=
  .obj (members.map fun (k, v) => (k.toList, .str v))

def VskColumn.json (c : VskColumn) : Json ν :=
  .obj [("name".toList, .str c.name), ("type".toList, .str c.type),
    ("nullable".toList, .bool c.nullable)]

def ManifestTable.json (t : ManifestTable) : Json ν :=
  .obj [("name".toList, .str t.name), ("rowCount".toList, .num (N.ofNat t.rowCount)),
    ("columns".toList, .arr (t.columns.map VskColumn.json))]

/-- The object that is written. -/
def SandboxManifest.json (m : SandboxManifest) : Json ν :=
  .obj [
    ("builtAt".toList, .str m.builtAt),
    ("sourceId".toList, .str m.sourceId),
    ("schemaName".toList, .str m.schemaName),
    ("ttlExpiresAt".toList, .str m.ttlExpiresAt),
    ("tables".toList, .arr (m.tables.map (ManifestTable.json N))),
    ("piiMasks".toList, .arr (m.piiMasks.map fun p =>
      textObject [("table", p.table), ("column", p.column), ("maskType", p.maskType.text)])),
    ("engineVersion".toList, .str m.engineVersion),
    ("dataFormat".toList, .str m.dataFormat),
    ("plsqlObjectCount".toList, .num (N.ofNat m.plsqlObjectCount)),
    ("skippedObjects".toList, .arr (m.skippedObjects.map fun s =>
      textObject [("kind", s.kind.text), ("owner", s.owner), ("name", s.name),
        ("reason", s.reason.text), ("detail", s.detail)])),
    ("typeWarnings".toList, .arr (m.typeWarnings.map fun w =>
      textObject [("table", w.table), ("column", w.column), ("oracleType", w.oracleType),
        ("message", w.message)]))]

end

/-! ## 3. The environment -/

/-- The third part of what is packed. -/
structure PackedPlsql where
  objectRows : List ObjectRow
  sourceRows : List SourceRow
  dependencies : List DiscoveredDependency
  deriving DecidableEq

/-- What the clock shows when the build asks for it, in milliseconds. -/
structure Clock where
  ddlAt : Int
  ttlFrom : Int
  builtAt : Int
  deriving DecidableEq

/-- `BuildEnv`, with the order of names and the clock of the run time. -/
structure BuildEnv where
  openConnection : Text → Except Failure Unit
  introspect : Text → Text → Except Failure (List ColumnMeta)
  fkSingleHop : FkSingleHopFn
  extractRows : Text → Text → Option Text → Option Int → Except Failure (List Row)
  /-- The bytes of the file it leaves. -/
  writeEncryptedVskAt : SandboxManifest → Record (List Row) → Bytes → Envelope → PackedPlsql →
    Except Failure Bytes
  /-- The array of the content key, and its envelope. -/
  sealEnvelopeForOwner : Text → Arrays → Except Failure (Ref × Envelope × Arrays)
  sampleColumn : Text → Text → Text → Nat → Except Failure (List (Option Text))
  detect : Text → List (Option Text) → Option ColumnPiiResult
  discoverDependencies : DepWalkFn
  extractDdl : DdlExtractFn
  localeCompare : Text → Text → Ordering
  clock : Clock

structure PiiSuggestion where
  table : Text
  column : Text
  signal : DetectionSignal
  category : Category
  suggestedMask : VskMaskType
  confidence : Nat
  deriving DecidableEq

structure SandboxBuildResult where
  outPath : Text
  totalRows : Nat
  tableCount : Nat
  piiSuggestionsApplied : Nat
  ttlExpiresAt : Text
  deriving DecidableEq

def TTL_MIN_DAYS : Int := 1
def TTL_MAX_DAYS : Int := 90
def PII_SAMPLE_SIZE : Nat := 200
def DEFAULT_FK_DEPTH : Int := 2
def FK_WALK_DEPTH_MIN : Int := 1
def FK_WALK_DEPTH_MAX : Int := 5
def MANIFEST_ENGINE_VERSION : Text := "0.2.0".toList
def MANIFEST_DATA_FORMAT : Text := "parquet-streams-v1".toList

/-! ## 4. The request is checked -/

/-- An error of the build's own. -/
def buildError {α : Type} (message : Text) : Except Failure α :=
  .error (.error ("buildSandbox: ".toList ++ message))

/-- A text that must be there and hold more than white space. -/
def requireText (name : String) (value : Option Text) : Except Failure Unit :=
  if value.all fun s => (trim s).isEmpty then
    buildError (name.toList ++ " must be a non-empty string".toList)
  else .ok ()

def checkDepth : Option Int → Except Failure Unit
  | none => .ok ()
  | some d =>
    if d < FK_WALK_DEPTH_MIN ∨ FK_WALK_DEPTH_MAX < d then
      buildError ("invalid fkWalkDepth ".toList ++ intText d ++ " (must be integer ".toList ++
        intText FK_WALK_DEPTH_MIN ++ "..".toList ++ intText FK_WALK_DEPTH_MAX ++ ")".toList)
    else .ok ()

def validateSpec (spec : SandboxBuildSpec) : Except Failure Unit := do
  if spec.primaryTables.isEmpty then
    buildError "primary tables list must not be empty".toList
  if spec.piiLevel ≠ 0 ∧ spec.piiLevel ≠ 1 ∧ spec.piiLevel ≠ 2 then
    buildError ("invalid piiLevel ".toList ++ intText spec.piiLevel ++ " (must be 0, 1, or 2)".toList)
  if spec.ttlDays < TTL_MIN_DAYS ∨ TTL_MAX_DAYS < spec.ttlDays then
    buildError ("invalid ttlDays ".toList ++ intText spec.ttlDays ++ " (must be integer ".toList ++
      intText TTL_MIN_DAYS ++ "..".toList ++ intText TTL_MAX_DAYS ++ ")".toList)
  if !spec.dryRun then
    requireText "outPath" spec.outPath
    requireText "ownerAccount" spec.ownerAccount
  requireText "connectionId" (some spec.connectionId)
  let _ ← quoteIdent spec.schemaName
  spec.primaryTables.forM fun t => do
    let _ ← quoteIdent t.name
  checkDepth spec.fkWalkDepth

/-! ## 5. The build -/

section

variable (env : BuildEnv) (spec : SandboxBuildSpec)

/-- The columns of the tables, entered under their names. -/
def introspectAll (tables : List Text) (schemas : Record (List ColumnMeta)) :
    Except Failure (Record (List ColumnMeta)) :=
  tables.foldlM (fun schemas t => do
    .ok (setEntry schemas t (← env.introspect spec.schemaName t))) schemas

/-- The columns of a table, none for one that was not asked for. -/
def columnsOf (schemas : Record (List ColumnMeta)) (table : Text) : List ColumnMeta :=
  (entryOf schemas table).getD []

/-- The suggestion for a column, if there is one. -/
def scanColumn (table : Text) (col : ColumnMeta) : Except Failure (List PiiSuggestion) := do
  let samples ← env.sampleColumn spec.schemaName table col.name PII_SAMPLE_SIZE
  match env.detect col.name samples with
  | some det =>
    .ok [⟨table, col.name, det.signal, det.category, det.defaultMask, det.confidence⟩]
  | none => .ok []

def scanTables (schemas : Record (List ColumnMeta)) (tables : List Text) :
    Except Failure (List PiiSuggestion) := do
  let found ← tables.mapM fun t => do
    .ok (← (columnsOf schemas t).mapM (scanColumn env spec t)).flatten
  .ok found.flatten

/-- What is known before any row is read. -/
structure Survey where
  tablesIncluded : List Text
  schemas : Record (List ColumnMeta)
  typeReport : TypeGuardReport
  piiSuggestions : List PiiSuggestion

def primaryNames : List Text := spec.primaryTables.map PrimaryTableSpec.name

def walkDepth : Nat := (spec.fkWalkDepth.getD DEFAULT_FK_DEPTH).toNat

def surveySandbox : Except Failure Survey := do
  let schemas ← introspectAll env spec (primaryNames spec) []
  let fkResult ← walkFkBfs spec.schemaName (primaryNames spec) env.fkSingleHop (walkDepth spec)
  let fkAdded := fkResult.tablesIncluded.filter fun t => !(primaryNames spec).contains t
  let schemas ← introspectAll env spec fkAdded schemas
  let typeReport := guardColumnTypes schemas
  if typeReport.hasFatal then .error (.error (formatTypeGuardError typeReport))
  else do
    let piiSuggestions ←
      if spec.piiLevel = 2 then scanTables env spec schemas fkResult.tablesIncluded else .ok []
    .ok ⟨fkResult.tablesIncluded, schemas, typeReport, piiSuggestions⟩

/-- The rows of a table; a filter is that of the first primary table with its name. -/
def rowsOf (table : Text) : Except Failure (List Row) :=
  let filter := spec.primaryTables.find? fun p => p.name = table
  env.extractRows spec.schemaName table (filter.bind PrimaryTableSpec.whereClause)
    (filter.bind PrimaryTableSpec.rowCap)

def extractAll (tables : List Text) : Except Failure (Record (List Row)) :=
  tables.foldlM (fun rowsByTable t => do
    .ok (setEntry rowsByTable t (← rowsOf env spec t))) []

def excludedKey (k o n : Text) : Text := k ++ ':' :: (o ++ ':' :: n)

/-- The objects that were not opted out of. -/
def keptObjects (objects : List DiscoveredObject) : List DiscoveredObject :=
  let excludedSet := spec.excludedPlsql.map fun e =>
    excludedKey e.kind (toUpperCase e.owner) (toUpperCase e.name)
  objects.filter fun o => !excludedSet.contains (excludedKey o.kind.text o.owner o.name)

def ttlText : Text := toISOString (env.clock.ttlFrom + spec.ttlDays * 86400000)

def manifestOf (s : Survey) (rowsByTable : Record (List Row)) (ddl : ExtractPlsqlDdlResult) :
    SandboxManifest where
  builtAt := toISOString env.clock.builtAt
  sourceId := spec.connectionId
  schemaName := spec.schemaName
  ttlExpiresAt := ttlText env spec
  tables := s.tablesIncluded.map fun tn => {
    name := tn
    rowCount := ((entryOf rowsByTable tn).getD []).length
    columns := (columnsOf s.schemas tn).map fun c => ⟨c.name, c.dataType, c.nullable⟩ }
  piiMasks := s.piiSuggestions.map fun p => ⟨p.table, p.column, p.suggestedMask⟩
  engineVersion := MANIFEST_ENGINE_VERSION
  dataFormat := MANIFEST_DATA_FORMAT
  plsqlObjectCount := ddl.objectRows.length
  skippedObjects := ddl.skipped
  typeWarnings := (s.typeReport.issues.filter fun i => !i.fatal).map fun i =>
    ⟨i.table, i.column, i.oracleType, i.message⟩

/-- What a real build hands to the writer, and the file that comes of it. -/
structure Packed where
  manifest : SandboxManifest
  rowsByTable : Record (List Row)
  plsql : PackedPlsql
  contentKey : Bytes
  envelope : Envelope
  file : Bytes

/-- The result, what was packed where the build was a real one, and the arrays afterwards. -/
structure Built where
  result : SandboxBuildResult
  packed : Option Packed
  arrays : Arrays

def packSandbox (s : Survey) (arrays : Arrays) : Except Failure Built := do
  let rowsByTable ← extractAll env spec s.tablesIncluded
  let totalRows := ((rowsByTable.map fun e => e.2.length)).sum
  let discovered ← discoverPlsql env.localeCompare env.discoverDependencies spec.schemaName
    s.tablesIncluded
  let extractedAt := (toISOString env.clock.ddlAt).map fun c => if c = 'T' then ' ' else c
  let ddl := extractPlsqlDdl env.extractDdl (extractedAt.take 19) (keptObjects spec discovered.objects)
  let manifest := manifestOf env spec s rowsByTable ddl
  let plsql := ⟨ddl.objectRows, ddl.sourceRows, discovered.dependencies⟩
  let (key, envelope, arrays) ← env.sealEnvelopeForOwner (spec.ownerAccount.getD []) arrays
  let contentKey := readArray arrays key
  let file ← env.writeEncryptedVskAt manifest rowsByTable contentKey envelope plsql
  .ok {
    result := {
      outPath := spec.outPath.getD []
      totalRows
      tableCount := s.tablesIncluded.length
      piiSuggestionsApplied := s.piiSuggestions.length
      ttlExpiresAt := ttlText env spec }
    packed := some ⟨manifest, rowsByTable, plsql, contentKey, envelope, file⟩
    -- the array that was returned is overwritten, whoever else holds it
    arrays := fillZero arrays key }

def buildSandbox (arrays : Arrays) : Except Failure Built := do
  validateSpec spec
  env.openConnection spec.connectionId
  let s ← surveySandbox env spec
  if spec.dryRun then
    .ok {
      result := {
        outPath := []
        totalRows := 0
        tableCount := s.tablesIncluded.length
        piiSuggestionsApplied := 0
        ttlExpiresAt := ttlText env spec }
      packed := none
      arrays }
  else packSandbox env spec s arrays

end

/-! ## 6. What a build is made of -/

/-- Entries that are set one after the other. -/
theorem setAll_ok {α : Type} {f : Text → Except Failure α} {tables : List Text} {r r' : Record α}
    (h : tables.foldlM (fun r t => do .ok (setEntry r t (← f t))) r = .ok r') :
    (∀ t ∈ tables, ∃ v, f t = .ok v ∧ entryOf r' t = some v) ∧
      (∀ t, t ∉ tables → entryOf r' t = entryOf r t) ∧
      ((r.map Prod.fst).Nodup → (r'.map Prod.fst).Nodup ∧
        ∀ t, t ∈ r'.map Prod.fst ↔ t ∈ tables ∨ t ∈ r.map Prod.fst) := by
  induction tables generalizing r with
  | nil =>
    cases h
    exact ⟨fun t ht => absurd ht not_mem_nil, fun t _ => rfl, fun hn => ⟨hn, by simp⟩⟩
  | cons x tables ih =>
    rw [foldlM_cons, bind_ok] at h
    obtain ⟨r1, h1, h2⟩ := h
    obtain ⟨v, hv, hr1⟩ := bind_ok.mp h1
    cases hr1
    obtain ⟨hin, hout, hkeys⟩ := ih h2
    refine ⟨fun t ht => ?_, fun t ht => ?_, fun hn => ?_⟩
    · by_cases hmem : t ∈ tables
      · exact hin t hmem
      · have e : t = x := (mem_cons.mp ht).resolve_right hmem
        subst e
        exact ⟨v, hv, by rw [hout t hmem, entryOf_setEntry]⟩
    · rw [mem_cons, not_or] at ht
      rw [hout t ht.2, entryOf_setEntry_ne ht.1]
    · obtain ⟨hnd, hmem⟩ := nodup_setEntry hn x v
      refine ⟨(hkeys hnd).1, fun t => ?_⟩
      rw [(hkeys hnd).2, hmem, mem_cons]
      tauto

/-- A loop that went through has an answer for every round. -/
theorem mapM_answers {α β : Type} {f : α → Except Failure β} {l : List α} {ys : List β}
    (h : l.mapM f = .ok ys) : ∀ a ∈ l, ∃ y, f a = .ok y := by
  induction l generalizing ys with
  | nil => exact fun a ha => absurd ha not_mem_nil
  | cons x l ih =>
    rw [mapM_cons, bind_ok] at h
    obtain ⟨y, hy, h⟩ := h
    obtain ⟨ys', hys, -⟩ := bind_ok.mp h
    intro a ha
    rcases mem_cons.mp ha with rfl | ha
    · exact ⟨y, hy⟩
    · exact ih hys a ha

/-- What a loop that collects lists comes to. -/
theorem mem_flatten_mapM {α β : Type} {f : α → Except Failure (List β)} {l : List α}
    {ys : List (List β)} (h : l.mapM f = .ok ys) (x : β) :
    x ∈ ys.flatten ↔ ∃ a ∈ l, ∃ y, f a = .ok y ∧ x ∈ y := by
  induction l generalizing ys with
  | nil =>
    cases h
    simp
  | cons a l ih =>
    rw [mapM_cons, bind_ok] at h
    obtain ⟨y, hy, h⟩ := h
    obtain ⟨ys', hys, h⟩ := bind_ok.mp h
    cases h
    rw [flatten_cons, mem_append, ih hys]
    constructor
    · rintro (hx | ⟨b, hb, z, hz, hx⟩)
      · exact ⟨a, mem_cons_self, y, hy, hx⟩
      · exact ⟨b, mem_cons_of_mem _ hb, z, hz, hx⟩
    · rintro ⟨b, hb, z, hz, hx⟩
      rcases mem_cons.mp hb with rfl | hb
      · rw [hy] at hz
        cases hz
        exact .inl hx
      · exact .inr ⟨b, hb, z, hz, hx⟩

section

variable {env : BuildEnv} {spec : SandboxBuildSpec}

theorem mem_scanTables {schemas : Record (List ColumnMeta)} {tables : List Text}
    {found : List PiiSuggestion} (h : scanTables env spec schemas tables = .ok found)
    (x : PiiSuggestion) :
    x ∈ found ↔ ∃ t ∈ tables, ∃ col ∈ columnsOf schemas t, ∃ samples det,
      env.sampleColumn spec.schemaName t col.name PII_SAMPLE_SIZE = .ok samples ∧
      env.detect col.name samples = some det ∧
      x = ⟨t, col.name, det.signal, det.category, det.defaultMask, det.confidence⟩ := by
  obtain ⟨yss, hy, h⟩ := bind_ok.mp h
  cases h
  have hcol : ∀ t col (y : List PiiSuggestion), scanColumn env spec t col = .ok y →
      (x ∈ y ↔ ∃ samples det,
        env.sampleColumn spec.schemaName t col.name PII_SAMPLE_SIZE = .ok samples ∧
        env.detect col.name samples = some det ∧
        x = ⟨t, col.name, det.signal, det.category, det.defaultMask, det.confidence⟩) := by
    intro t col y hs
    obtain ⟨samples, hsam, hs⟩ := bind_ok.mp hs
    cases hd : env.detect col.name samples with
    | none =>
      rw [hd] at hs
      cases hs
      simp [hsam, hd]
    | some det =>
      rw [hd] at hs
      cases hs
      simp [hsam, hd]
  rw [mem_flatten_mapM hy]
  constructor
  · rintro ⟨t, ht, y, hty, hx⟩
    obtain ⟨zs, hz, e⟩ := bind_ok.mp hty
    cases e
    obtain ⟨col, hc, z, hzc, hxz⟩ := (mem_flatten_mapM hz x).mp hx
    exact ⟨t, ht, col, hc, (hcol t col z hzc).mp hxz⟩
  · rintro ⟨t, ht, col, hc, hx⟩
    -- the loop went through, so it has an answer for every table and every column
    obtain ⟨y, hty⟩ := mapM_answers hy t ht
    obtain ⟨zs, hz, e⟩ := bind_ok.mp hty
    obtain ⟨z, hzc⟩ := mapM_answers hz col hc
    cases e
    exact ⟨t, ht, zs.flatten, hty, (mem_flatten_mapM hz x).mpr ⟨col, hc, z, hzc, (hcol t col z hzc).mpr hx⟩⟩

/-- **What a survey finds**: the tables of the walk, the columns of each, and where it scans, the
    suggestions for them. -/
theorem surveySandbox_ok {s : Survey} (h : surveySandbox env spec = .ok s) :
    ∃ r, walkFkBfs spec.schemaName (primaryNames spec) env.fkSingleHop (walkDepth spec) = .ok r ∧
      s.tablesIncluded = r.tablesIncluded ∧
      (∀ t ∈ s.tablesIncluded, env.introspect spec.schemaName t = .ok (columnsOf s.schemas t)) ∧
      (spec.piiLevel = 2 → scanTables env spec s.schemas s.tablesIncluded = .ok s.piiSuggestions) ∧
      (spec.piiLevel ≠ 2 → s.piiSuggestions = []) := by
  obtain ⟨schemas0, h0, h⟩ := bind_ok.mp h
  obtain ⟨r, hr, h⟩ := bind_ok.mp h
  obtain ⟨schemas, h1, h⟩ := bind_ok.mp h
  dsimp only at h
  split at h
  · cases h
  · have hpii : ∃ pii, s = ⟨r.tablesIncluded, schemas, guardColumnTypes schemas, pii⟩ ∧
        (spec.piiLevel = 2 → scanTables env spec schemas r.tablesIncluded = .ok pii) ∧
        (spec.piiLevel ≠ 2 → pii = []) := by
      split at h
      · rename_i hl
        obtain ⟨pii, hpii, h⟩ := bind_ok.mp h
        cases h
        exact ⟨pii, rfl, fun _ => hpii, fun hn => absurd hl hn⟩
      · rename_i hl
        cases h
        exact ⟨[], rfl, fun hp => absurd hp hl, fun _ => rfl⟩
    obtain ⟨pii, rfl, hscan, hnone⟩ := hpii
    obtain ⟨hin0, -, -⟩ := setAll_ok h0
    obtain ⟨hin, hout, -⟩ := setAll_ok h1
    refine ⟨r, hr, rfl, fun t ht => ?_, hscan, hnone⟩
    · by_cases hp : t ∈ primaryNames spec
      · have hn : t ∉ r.tablesIncluded.filter fun t => !(primaryNames spec).contains t := by
          simp [hp]
        obtain ⟨v, hv, he⟩ := hin0 t hp
        rw [columnsOf, hout t hn, he]
        exact hv
      · have hm : t ∈ r.tablesIncluded.filter fun t => !(primaryNames spec).contains t := by
          simpa [hp] using ht
        obtain ⟨v, hv, he⟩ := hin t hm
        rw [columnsOf, he]
        exact hv

/-- **What a real build hands to the writer.** -/
theorem buildSandbox_packed {arrays : Arrays} {b : Built} {p : Packed}
    (h : buildSandbox env spec arrays = .ok b) (hp : b.packed = some p) :
    ∃ s ddl key arrays', surveySandbox env spec = .ok s ∧
      extractAll env spec s.tablesIncluded = .ok p.rowsByTable ∧
      p.manifest = manifestOf env spec s p.rowsByTable ddl ∧
      env.sealEnvelopeForOwner (spec.ownerAccount.getD []) arrays = .ok (key, p.envelope, arrays') ∧
      p.contentKey = readArray arrays' key ∧
      env.writeEncryptedVskAt p.manifest p.rowsByTable p.contentKey p.envelope p.plsql =
        .ok p.file ∧
      b.arrays = fillZero arrays' key := by
  obtain ⟨-, -, h⟩ := bind_ok.mp h
  obtain ⟨-, -, h⟩ := bind_ok.mp h
  obtain ⟨s, hs, h⟩ := bind_ok.mp h
  split at h
  · cases h
    cases hp
  · obtain ⟨rows, hrows, h⟩ := bind_ok.mp h
    obtain ⟨discovered, hd, h⟩ := bind_ok.mp h
    obtain ⟨⟨key, envelope, arrays'⟩, hk, h⟩ := bind_ok.mp h
    obtain ⟨file, hf, h⟩ := bind_ok.mp h
    cases h
    cases hp
    exact ⟨s, _, key, arrays', hs, hrows, rfl, hk, rfl, hf, rfl⟩

/-- A build that is no dry run packs a sandbox. -/
theorem packed_of_buildSandbox {arrays : Arrays} {b : Built} (hd : spec.dryRun = false)
    (h : buildSandbox env spec arrays = .ok b) : ∃ packed, b.packed = some packed := by
  obtain ⟨-, -, h⟩ := bind_ok.mp h
  obtain ⟨-, -, h⟩ := bind_ok.mp h
  obtain ⟨s, -, h⟩ := bind_ok.mp h
  rw [hd] at h
  obtain ⟨rows, -, h⟩ := bind_ok.mp h
  obtain ⟨discovered, -, h⟩ := bind_ok.mp h
  obtain ⟨⟨key, envelope, arrays'⟩, -, h⟩ := bind_ok.mp h
  obtain ⟨file, -, h⟩ := bind_ok.mp h
  cases h
  exact ⟨_, rfl⟩

end

end Veesker.Sandbox
