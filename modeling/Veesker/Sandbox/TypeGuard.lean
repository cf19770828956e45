/-
  File:      Veesker/Sandbox/TypeGuard.lean
  Subject:   THE TYPE GUARD (sidecar/src/sandbox/type-guard.ts): which Oracle types a build refuses
             and which it warns of.
-/
import Veesker.Sandbox.Source

namespace Veesker.Sandbox

open Format Vsk

/-! ## 1. The types -/

structure ColumnTypeIssue where
  table : Text
  column : Text
  oracleType : Text
  fatal : Bool
  message : Text
  deriving DecidableEq

structure TypeGuardReport where
  hasFatal : Bool
  issues : List ColumnTypeIssue
  deriving DecidableEq

def FATAL_TYPES : List Text :=
  ["XMLTYPE", "ANYTYPE", "ANYDATA", "ANYDATASET", "BFILE", "URITYPE", "HTTPURITYPE", "XDBURITYPE",
    "DBURITYPE"].map String.toList

/-- `-?\d+` and what follows it. -/
def readInt (t : Text) : Option (Int × Text) :=
  let digits := if t.head? = some '-' then t.tail else t
  let value := digits.takeWhile Char.isDigit
  if value.isEmpty then none
  else
    let n : Int := value.foldl (fun n c => n * 10 + (c.toNat - 48 : Nat)) 0
    some (if t.head? = some '-' then -n else n, digits.dropWhile Char.isDigit)

/-- A character behind white space, and what follows it. -/
def readChar (c : Char) (t : Text) : Option Text :=
  match t.dropWhile isSpace with
  | d :: r => if d = c then some r else none
  | [] => none

/-- The scale in `/^NUMBER\s*\(\s*\d+\s*,\s*(-?\d+)\s*\)$/`. -/
def numberScale (t : Text) : Option Int := do
  let word := "NUMBER".toList
  guard (startsWith t word)
  let t ← readChar '(' (t.drop word.length)
  let t := t.dropWhile isSpace
  guard (t.head?.any Char.isDigit)
  let (_, t) ← readInt t
  let t ← readChar ',' t
  let (scale, t) ← readInt (t.dropWhile isSpace)
  let t ← readChar ')' t
  guard t.isEmpty
  some scale

/-- `/WITH\s+(LOCAL\s+)?TIME\s+ZONE/i.test(t)`. -/
def hasTimeZone (t : Text) : Bool :=
  t.tails.any (Pattern.test (.all [.wordI "WITH".toList, .spaces,
    .opt (.all [.wordI "LOCAL".toList, .spaces]), .wordI "TIME".toList, .spaces,
    .wordI "ZONE".toList]))

/-- `/^LONG\s+RAW$/.test(t)`. -/
def isLongRaw (t : Text) : Bool :=
  startsWith t "LONG".toList && endsWith t "RAW".toList &&
    (let between := (t.drop 4).take (t.length - 7)
     !between.isEmpty && between.all isSpace)

/-- A fatal type, or what is said about one that is not. -/
def classifyType (oracleType : Text) : Option (Bool × Text) :=
  let t := toUpperCase (trim oracleType)
  if t.isEmpty then none
  else if FATAL_TYPES.contains t then
    some (true, "Oracle type \"".toList ++ oracleType ++
      "\" cannot be serialized to Parquet. Use a view to cast it (e.g. XMLTYPE → CLOB via .getClobVal()) or exclude this column.".toList)
  else if t = "NUMBER".toList ∨ t = "FLOAT".toList then
    some (false, "Bare ".toList ++ oracleType ++
      " without precision/scale is mapped to DECIMAL(38,18). Values with fractional scale >18 will be silently truncated.".toList)
  else match numberScale t with
  | some scale =>
    if 18 < scale then
      some (false, oracleType ++ " has scale ".toList ++ intText scale ++
        " which exceeds DuckDB DECIMAL maximum of 18. Values will be stored as DECIMAL(38,18) with scale truncated at position 18.".toList)
    else none
  | none =>
    if hasTimeZone t then
      some (false, oracleType ++
        ": timezone offset may be lost. oracledb Thin mode normalizes to UTC and discards session timezone. Stored as TIMESTAMPTZ.".toList)
    else if t = "CLOB".toList ∨ t = "NCLOB".toList then
      some (false, oracleType ++
        " is mapped to VARCHAR. Values exceeding 1 MB may be truncated by the oracledb Thin mode LOB streaming limit.".toList)
    else if t = "LONG".toList then
      some (false,
        "LONG is a deprecated Oracle type mapped to VARCHAR. Content exceeding 32767 bytes will be truncated. Consider migrating to CLOB.".toList)
    else if isLongRaw t then
      some (false,
        "LONG RAW is a deprecated Oracle type mapped to BLOB. Data is preserved as binary but the column type should be migrated to BLOB.".toList)
    else if startsWith t "INTERVAL".toList then
      some (false, oracleType ++
        " is mapped to VARCHAR as its ISO 8601 string representation. Interval arithmetic will not be available in the sandbox.".toList)
    else none

/-! ## 2. The report -/

/-- The issue of a column, if it has one. -/
def columnIssue (table : Text) (col : ColumnMeta) : Option ColumnTypeIssue :=
  (classifyType col.dataType).map fun (fatal, message) =>
    ⟨table, col.name, col.dataType, fatal, message⟩

def guardColumnTypes (schemas : Record (List ColumnMeta)) : TypeGuardReport :=
  let issues := schemas.flatMap fun (table, columns) =>
    columns.filterMap (columnIssue table)
  ⟨issues.any ColumnTypeIssue.fatal, issues⟩

/-- `n !== 1 ? "s" : ""`. -/
def plural (n : Nat) : Text := if n = 1 then [] else ['s']

def issueLine (i : ColumnTypeIssue) : Text :=
  "  • ".toList ++ i.table ++ '.' :: i.column ++ " [".toList ++ i.oracleType ++ "]: ".toList ++
    i.message

def formatTypeGuardError (report : TypeGuardReport) : Text :=
  let fatal := report.issues.filter ColumnTypeIssue.fatal
  let warns := report.issues.filter fun i => !i.fatal
  let head := [
    "Sandbox build blocked: ".toList ++ natText fatal.length ++ " unsupported column type".toList ++
      plural fatal.length ++ " found.".toList,
    [],
    "FATAL (must resolve before building):".toList]
  let warnHead := [
    [],
    "WARNINGS (".toList ++ natText warns.length ++ " additional issue".toList ++
      plural warns.length ++ " — build will proceed but data may be imprecise):".toList]
  joinLines (head ++ fatal.map issueLine ++
    if warns.isEmpty then [] else warnHead ++ warns.map issueLine)

example : numberScale "NUMBER (10 , -2)".toList = some (-2) := by decide

end Veesker.Sandbox
