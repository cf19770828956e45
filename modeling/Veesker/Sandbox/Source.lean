/-
  File:      Veesker/Sandbox/Source.lean
  Subject:   THE SOURCE OF A SANDBOX (sidecar/src/sandbox/types.ts, oracle-source.ts): what a build
             is asked for, and what it reads from Oracle.

  The database is a parameter, `Oracle`: what it answers to the statements of a build. Within one
  build the same question has the same answer. Numbers of a request are whole numbers.
-/
import Veesker.Sidecar.Ords
import Veesker.Vsk.Host

namespace Veesker.Sandbox

open Format Vsk List

/-! ## 1. Objects used as maps -/

/-- An object whose keys are names, in the order in which they were first set; `__proto__` is taken
    for a key like any other. -/
abbrev Record (α : Type) := List (Text × α)

/-- `r[key]`. -/
def entryOf {α : Type} (r : Record α) (key : Text) : Option α := r.lookup key

/-- `r[key] = value`. -/
def setEntry {α : Type} : Record α → Text → α → Record α
  | [], key, value => [(key, value)]
  | (k, v) :: r, key, value =>
    if k = key then (k, value) :: r else (k, v) :: setEntry r key value

section

variable {α : Type}

section

-- The equations of these definitions, made once for the proofs below.
attribute [local simp] entryOf setEntry

end

@[simp] theorem entryOf_setEntry (r : Record α) (key : Text) (value : α) :
    entryOf (setEntry r key value) key = some value := by
  induction r with
  | nil => simp [setEntry, entryOf]
  | cons e r ih =>
    obtain ⟨k, v⟩ := e
    rw [setEntry]
    split
    · rename_i h
      simp [entryOf, h]
    · rename_i h
      have hk : (key == k) = false := beq_eq_false_iff_ne.mpr (Ne.symm h)
      rw [entryOf, lookup_cons, hk]
      exact ih

theorem entryOf_setEntry_ne {key other : Text} (h : other ≠ key) (r : Record α) (value : α) :
    entryOf (setEntry r key value) other = entryOf r other := by
  induction r with
  | nil =>
    have ho : (other == key) = false := beq_eq_false_iff_ne.mpr h
    simp [setEntry, entryOf, lookup_cons, ho]
  | cons e r ih =>
    obtain ⟨k, v⟩ := e
    rw [setEntry]
    split
    · rename_i hk
      have ho : (other == k) = false := beq_eq_false_iff_ne.mpr (hk ▸ h)
      simp [entryOf, lookup_cons, ho]
    · cases ho : other == k with
      | true => simp [entryOf, lookup_cons, ho]
      | false =>
        rw [entryOf, lookup_cons, ho, entryOf, lookup_cons, ho]
        exact ih

/-- The keys of an object are distinct. -/
theorem nodup_setEntry {r : Record α} (h : (r.map Prod.fst).Nodup) (key : Text) (value : α) :
    ((setEntry r key value).map Prod.fst).Nodup ∧
      ∀ k, k ∈ (setEntry r key value).map Prod.fst ↔ k = key ∨ k ∈ r.map Prod.fst := by
  induction r with
  | nil => simp [setEntry]
  | cons e r ih =>
    obtain ⟨k, v⟩ := e
    rw [map_cons, nodup_cons] at h
    obtain ⟨hnd, hmem⟩ := ih h.2
    rw [setEntry]
    split
    · rename_i hk
      refine ⟨nodup_cons.mpr h, fun k' => ?_⟩
      simp only [map_cons, mem_cons, hk]
      tauto
    · rename_i hk
      refine ⟨nodup_cons.mpr ⟨fun hm => ?_, hnd⟩, fun k' => ?_⟩
      · rcases (hmem k).mp hm with e | hm
        · exact hk e
        · exact h.1 hm
      · simp only [map_cons, mem_cons, hmem k']
        tauto

theorem entryOf_of_mem {r : Record α} (h : (r.map Prod.fst).Nodup) {k : Text} {v : α}
    (hm : (k, v) ∈ r) : entryOf r k = some v := by
  induction r with
  | nil => cases hm
  | cons e r ih =>
    rw [map_cons, nodup_cons] at h
    rcases mem_cons.mp hm with rfl | hm
    · simp [entryOf]
    · have hk : (k == e.1) = false :=
        beq_eq_false_iff_ne.mpr fun he => h.1 (he ▸ mem_map_of_mem hm)
      rw [entryOf, lookup_cons, hk]
      exact ih h.2 hm

end

/-! ## 2. What a build is asked for -/

structure PrimaryTableSpec where
  name : Text
  whereClause : Option Text := none
  rowCap : Option Int := none
  deriving DecidableEq

/-- An entry of `excludedPlsql`. -/
structure ExcludedPlsql where
  kind : Text
  owner : Text
  name : Text
  deriving DecidableEq

structure SandboxBuildSpec where
  connectionId : Text
  schemaName : Text
  sandboxName : Text
  ttlDays : Int
  piiLevel : Int
  ownerAccount : Option Text := none
  primaryTables : List PrimaryTableSpec
  fkWalkDepth : Option Int := none
  dryRun : Bool := false
  outPath : Option Text := none
  excludedPlsql : List ExcludedPlsql := []
  deriving DecidableEq

/-- `String(n)` of a whole number. -/
def intText (n : Int) : Text :=
  if n < 0 then '-' :: natText n.natAbs else natText n.natAbs

/-! ## 3. Names -/

/-- `SAFE_IDENT_RE`. -/
def SAFE_IDENT_RE : Text → Bool := isName 127

/-- `SAFE_IDENT_RE.source`. -/
def SAFE_IDENT_SOURCE : Text := "^[A-Za-z_][A-Za-z0-9_$]\x7b0,127\x7d$".toList

def quoteIdent (name : Text) : Except Failure Text :=
  if SAFE_IDENT_RE name then .ok ('"' :: (name ++ ['"']))
  else .error (.error ("invalid identifier ".toList ++ sliceTo 80 (quote name) ++
    " (must match ".toList ++ SAFE_IDENT_SOURCE ++ ")".toList))

/-! ## 4. What Oracle answers -/

structure ColumnMeta where
  name : Text
  dataType : Text
  dataLength : Nat
  dataPrecision : Option Int
  dataScale : Option Int
  nullable : Bool
  columnId : Nat
  deriving DecidableEq

/-- An extracted row: its columns with their values. -/
abbrev Row := Record Value

/-- `row[column]`; a column that is not there counts as `null`. -/
def cell (row : Row) (column : Text) : Value := (entryOf row column).getD .null

/-- `String(v)`, and none for `null`. -/
def valueText : Value → Option Text
  | .null => none
  | .text s => some s
  | .number s => some s
  | .boolean b => some (if b then "true".toList else "false".toList)
  | .date _ s => some s
  | .bytes _ s => some s

/-- A row of the foreign-key query, its lists of columns joined by commas. -/
structure FkRow where
  FROM_TABLE : Text
  FROM_COLUMNS : Text
  TO_TABLE : Text
  TO_COLUMNS : Text
  deriving DecidableEq

structure DependencyEdge where
  name : Text
  type : Text
  referencedName : Text
  referencedOwner : Text
  referencedType : Text
  deriving DecidableEq

/-- What `DdlExtractFn` gives. -/
structure ExtractedDdl where
  ddl : Text
  spec : Option Text := none
  body : Option Text := none
  deriving DecidableEq

/-- The answers of the database; an error is its message. -/
structure Oracle where
  /-- `ALL_TAB_COLUMNS` of an owner's table, by `column_id`. -/
  columns : Text → Text → Except Text (List ColumnMeta)
  /-- The foreign keys of an owner with one of the tables on either side. -/
  foreignKeys : Text → List Text → Except Text (List FkRow)
  /-- The rows of a query without variables. -/
  select : Text → Except Text (List Row)
  /-- `all_dependencies` of names in a schema. -/
  dependencies : Text → List Text → Except Text (List DependencyEdge)
  /-- `DBMS_METADATA.GET_DDL(type, name, owner)`, none for no row. -/
  getDdl : Text → Text → Text → Except Text (Option Text)

variable (O : Oracle)

structure ExtractSqlInput where
  owner : Text
  table : Text
  whereClause : Option Text
  rowCap : Option Int
  deriving DecidableEq

/-- `FETCH FIRST n ROWS ONLY`, where there is a cap. -/
def capClause : Option Int → Except Failure Text
  | none => .ok []
  | some n =>
    if n ≤ 0 then
      .error (.error ("invalid rowCap: must be a positive integer (got ".toList ++ intText n ++
        ")".toList))
    else .ok (" FETCH FIRST ".toList ++ intText n ++ " ROWS ONLY".toList)

/-- The `WHERE` of a query; one of white space only is no condition. -/
def whereText : Option Text → Text
  | none => []
  | some w => if (trim w).isEmpty then [] else " WHERE ".toList ++ w

def buildExtractSql (input : ExtractSqlInput) : Except Failure Text := do
  let ownerQuoted ← quoteIdent input.owner
  let tableQuoted ← quoteIdent input.table
  let cap ← capClause input.rowCap
  .ok ("SELECT * FROM ".toList ++ ownerQuoted ++ '.' :: tableQuoted ++ whereText input.whereClause ++
    cap)

def introspectTable (owner tableName : Text) : Except Failure (List ColumnMeta) := do
  let _ ← quoteIdent owner
  let _ ← quoteIdent tableName
  (O.columns owner tableName).mapError .error

def extractRows (owner tableName : Text) (whereClause : Option Text) (rowCap : Option Int) :
    Except Failure (List Row) := do
  let sql ← buildExtractSql ⟨owner, tableName, whereClause, rowCap⟩
  (O.select sql).mapError .error

def discoverDependenciesOnce (schema : Text) (referencedNames : List Text) :
    Except Failure (List DependencyEdge) :=
  if referencedNames.isEmpty then .ok []
  else (O.dependencies schema referencedNames).mapError .error

/-- The values of the column the query calls `V`. -/
def sampleColumnValues (owner tableName columnName : Text) (sampleSize : Nat) :
    Except Failure (List (Option Text)) := do
  let ownerQuoted ← quoteIdent owner
  let tableQuoted ← quoteIdent tableName
  let colQuoted ← quoteIdent columnName
  if sampleSize = 0 then
    .error (.error "invalid sampleSize: must be a positive integer (got 0)".toList)
  else
    let rows ← (O.select ("SELECT ".toList ++ colQuoted ++ " AS v FROM ".toList ++ ownerQuoted ++
      '.' :: tableQuoted ++ " FETCH FIRST ".toList ++ natText sampleSize ++
      " ROWS ONLY".toList)).mapError .error
    .ok (rows.map fun r => valueText (cell r "V".toList))

/-- `/^\n\s*CREATE\s+(?:OR\s+REPLACE\s+)?(?:EDITIONABLE\s+)?PACKAGE\s+BODY\b/i`. -/
def bodyHeader : Pattern :=
  .all [.one (· == '\n'), .spaces0, .wordI "CREATE".toList, .spaces,
    .opt (.all [.wordI "OR".toList, .spaces, .wordI "REPLACE".toList, .spaces]),
    .opt (.all [.wordI "EDITIONABLE".toList, .spaces]), .wordI "PACKAGE".toList, .spaces,
    .wordI "BODY".toList, .wordEdge]

/-- What stands before the first place where the pattern matches, all where it never does. -/
def beforeMatch (p : Pattern) : Text → Text
  | [] => []
  | c :: cs => if p.test (c :: cs) then [] else c :: beforeMatch p cs

/-- The text of `GET_DDL`, without white space around it. -/
def rawDdl (type name owner : Text) : Except Text Text := do
  .ok (trim ((← O.getDdl type name owner).getD []))

def extractObjectDdl (owner objectType objectName : Text) : Except Failure ExtractedDdl := do
  let raw ← (rawDdl O objectType objectName owner).mapError .error
  if toUpperCase objectType = "PACKAGE".toList then
    let specDdl := if beforeMatch bodyHeader raw = raw then raw else trim (beforeMatch bodyHeader raw)
    -- a package without a body is taken as it is
    let bodyDdl := (rawDdl O "PACKAGE_BODY".toList objectName owner).toOption.getD []
    if bodyDdl.isEmpty then .ok { ddl := specDdl, spec := some specDdl }
    else .ok {
      ddl := specDdl ++ "\n\n".toList ++ bodyDdl
      spec := some specDdl
      body := some bodyDdl }
  else .ok { ddl := raw }

end Veesker.Sandbox
