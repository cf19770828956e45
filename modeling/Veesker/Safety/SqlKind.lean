/-
  File:      Veesker/Safety/SqlKind.lean
  Subject:   THE DETECTORS OF THE SAFETY GATE (sidecar/src/sql-kind.ts).

  Every detector reads the raw text of a statement, and each in its own way: by its first
  characters in upper case (`classifySql`, `isMergeSql`, `isTruncateSql`), after collapsing white
  space (`isUnsafeBulkDml`, `extractTableFromSql`), or by anchored patterns that see comments as
  text (`classifyDdl`). The translation keeps these differences; the files after this one are
  about what they amount to.
-/
import Veesker.Text.Upper
import Veesker.Text.Pattern

namespace Veesker.Safety

open Pattern (word wordI spaces spaces0 opt)

/-! ## 1. Leading comments -/

/-- What follows the first `*/`. -/
def afterBlockEnd : Text → Option Text
  | '*' :: '/' :: r => some r
  | _ :: cs => afterBlockEnd cs
  | [] => none

/-- `s.replace(COMMENT_LINE_RE, "")`. -/
def stripLineComment (s : Text) : Text :=
  if startsWith (trimStart s) "--".toList then
    match (trimStart s).dropWhile (· != '\n') with
    | _ :: r => r
    | [] => s
  else s

/-- `s.replace(COMMENT_BLOCK_RE, "")`. -/
def stripBlockComment (s : Text) : Text :=
  if startsWith (trimStart s) "/*".toList then
    (afterBlockEnd ((trimStart s).drop 2)).getD s
  else s

/-- One round of the loop of `stripLeadingComments`. -/
def stripRound (s : Text) : Text := trimStart (stripBlockComment (stripLineComment s))

/-- The loop: rounds until one changes nothing. A round that changes the text shortens it, so as
    many rounds as there are characters are enough (`stripRound_stripLeadingComments`). -/
def stripRounds : Nat → Text → Text
  | 0, s => s
  | n + 1, s => if (stripRound s).length = s.length then stripRound s else stripRounds n (stripRound s)

def stripLeadingComments (sql : Text) : Text := stripRounds sql.length sql

/-! ## 2. The kind of a statement -/

inductive SqlKind where
  | select | dml | ddl | tcl | plsql | session | unknown
  deriving DecidableEq

/-- The kind's name, in upper case, as the messages print it. -/
def SqlKind.upperName : SqlKind → Text
  | .select => "SELECT".toList
  | .dml => "DML".toList
  | .ddl => "DDL".toList
  | .tcl => "TCL".toList
  | .plsql => "PLSQL".toList
  | .session => "SESSION".toList
  | .unknown => "UNKNOWN".toList

/-- `/^CREATE\s+(?:OR\s+REPLACE\s+)?(?:EDITIONABLE\s+|NONEDITIONABLE\s+)?(?:PROCEDURE|…)\b/`. -/
def createUnitPattern : Pattern :=
  .all [word "CREATE".toList, spaces,
    opt (.all [word "OR".toList, spaces, word "REPLACE".toList, spaces]),
    opt (.any [.all [word "EDITIONABLE".toList, spaces], .all [word "NONEDITIONABLE".toList, spaces]]),
    .any [word "PROCEDURE".toList, word "FUNCTION".toList, word "PACKAGE".toList,
      word "TRIGGER".toList, word "TYPE".toList],
    .wordEdge]

/-- `/^first\s+second\b/`. -/
def twoWords (first second : Text) : Pattern := .all [word first, spaces, word second, .wordEdge]

/-- Whether the text starts with one of the words. -/
def startsWithAny (s : Text) (ws : List Text) : Bool := ws.any (startsWith s)

def classifySql (sql : Text) : SqlKind :=
  let s := toUpperCase (stripLeadingComments sql)
  if startsWithAny s ["SELECT".toList, "WITH".toList, "EXPLAIN".toList, "DESC".toList] then .select
  else if startsWithAny s ["BEGIN".toList, "DECLARE".toList] then .plsql
  else if createUnitPattern.test s then .plsql
  else if (twoWords "ALTER".toList "SESSION".toList).test s then .session
  else if (twoWords "ALTER".toList "SYSTEM".toList).test s then .session
  else if startsWithAny s ["CREATE".toList, "ALTER".toList, "DROP".toList, "TRUNCATE".toList] then
    .ddl
  else if startsWithAny s ["RENAME".toList, "GRANT".toList, "REVOKE".toList, "COMMENT".toList] then
    .ddl
  else if startsWithAny s
      ["INSERT".toList, "UPDATE".toList, "DELETE".toList, "MERGE".toList, "UPSERT".toList] then .dml
  else if startsWithAny s ["COMMIT".toList, "ROLLBACK".toList, "SAVEPOINT".toList] ||
      (twoWords "SET".toList "TRANSACTION".toList).test s then .tcl
  else .unknown

/-- `/^EXPLAIN\s+PLAN\b/i`. -/
def explainPlanPattern : Pattern :=
  .all [wordI "EXPLAIN".toList, spaces, wordI "PLAN".toList, .wordEdge]

/-- An empty text is falsy in the source, so the second test does not run on it. -/
def isReadOnlySafe (kind : SqlKind) (sql : Text) : Bool :=
  kind == .select && !(!sql.isEmpty && explainPlanPattern.test (stripLeadingComments sql))

/-! ## 3. Unsafe bulk DML -/

/-- `/\s/.test(c ?? " ")`. -/
def isSpaceOrEdge (c : Option Char) : Bool := c.all isSpace

/-- The loop of `findToplevelWhere` from position `i`; `prev` is the character before it. -/
def whereFrom (depth : Int) (inStr : Option Char) (prev : Option Char) (i : Nat) :
    Text → Option Nat
  | [] => none
  | ch :: cs =>
    match inStr with
    | some strCh => whereFrom depth (if ch = strCh then none else some strCh) (some ch) (i + 1) cs
    | none =>
      if ch = '\'' ∨ ch = '"' then whereFrom depth (some ch) (some ch) (i + 1) cs
      else if ch = '(' then whereFrom (depth + 1) none (some ch) (i + 1) cs
      else if ch = ')' then whereFrom (depth - 1) none (some ch) (i + 1) cs
      else if depth = 0 ∧ (ch = 'W' ∨ ch = 'w') ∧
          toUpperCase ((ch :: cs).take 5) = "WHERE".toList ∧
          isSpaceOrEdge prev = true ∧ isSpaceOrEdge cs[4]? = true then some i
      else whereFrom depth none (some ch) (i + 1) cs

/-- The position of the top-level `WHERE`, if the scan finds one. -/
def findToplevelWhere (s : Text) : Option Nat := whereFrom 0 none none 0 s

/-- `.`: any character but a line terminator. -/
def isDot (c : Char) : Bool :=
  c != '\n' && c != '\r' && c != Char.ofNat 0x2028 && c != Char.ofNat 0x2029

/-- `/^EXISTS\s*\(\s*SELECT\s+.+\s+FROM\s+DUAL\s*\)/`. -/
def existsDualPattern : Pattern :=
  .all [word "EXISTS".toList, spaces0, .one (· == '('), spaces0, word "SELECT".toList, spaces,
    .one isDot, .many isDot, spaces, word "FROM".toList, spaces, word "DUAL".toList, spaces0,
    .one (· == ')')]

/-- Whether `/\sword\s/` matches at the start of the text. -/
def spacedWordAt (w s : Text) : Bool :=
  (Pattern.all [.one isSpace, word w, .one isSpace]).test s

/-- `after.split(/\sRETURNING\s|\sWHEN\s/)[0]`. -/
def beforeReturning : Text → Text
  | [] => []
  | c :: cs =>
    if spacedWordAt "RETURNING".toList (c :: cs) || spacedWordAt "WHEN".toList (c :: cs) then []
    else c :: beforeReturning cs

/-- The predicates that hold of every row. -/
def isTrivialPredicate (trimmed : Text) : Bool :=
  ["1=1".toList, "1 = 1".toList, "TRUE".toList, "(1=1)".toList, "(TRUE)".toList].contains trimmed ||
    existsDualPattern.test trimmed

/-- The text `isUnsafeBulkDml` looks at. -/
def bulkText (sql : Text) : Text :=
  trim (dropFinalSemicolon (collapse (toUpperCase (stripLeadingComments sql))))

def isUnsafeBulkDml (sql : Text) : Bool :=
  let s := bulkText sql
  let isUpdate := startsWith s "UPDATE ".toList
  let isDelete := startsWith s "DELETE ".toList
  let isTruncate := startsWith s "TRUNCATE ".toList
  if !isUpdate && !isDelete && !isTruncate then false
  else if isTruncate then true
  else match findToplevelWhere s with
    | none => true
    | some whereIdx =>
      let after := trim (s.drop (whereIdx + 5))
      isTrivialPredicate (trim (beforeReturning after))

def isMergeSql (sql : Text) : Bool :=
  startsWith (toUpperCase (trimStart (stripLeadingComments sql))) "MERGE ".toList

def isTruncateSql (sql : Text) : Bool :=
  startsWith (toUpperCase (trimStart (stripLeadingComments sql))) "TRUNCATE ".toList

/-! ## 4. DDL -/

/-- `DdlRiskLevel`. -/
inductive DdlRiskLevel where
  | destructive_ddl | ddl | comment
  deriving DecidableEq

/-- `/^\s*ALTER\s+TABLE\b[\s\S]*?\bDROP\s+what\b/i`. -/
def alterTableDrop (what : Text) : Pattern :=
  .all [spaces0, wordI "ALTER".toList, spaces, wordI "TABLE".toList, .wordEdge, .many fun _ => true,
    .wordEdge, wordI "DROP".toList, spaces, wordI what, .wordEdge]

/-- `_DESTRUCTIVE_DDL_PATTERNS`. -/
def destructiveDdlPatterns : List Pattern :=
  [.all [spaces0, wordI "DROP".toList, spaces],
   .all [spaces0, wordI "TRUNCATE".toList, spaces],
   alterTableDrop "COLUMN".toList,
   alterTableDrop "CONSTRAINT".toList,
   alterTableDrop "PARTITION".toList]

/-- `_COMMENT_DDL_PATTERN`. -/
def commentDdlPattern : Pattern :=
  .all [spaces0, wordI "COMMENT".toList, spaces, wordI "ON".toList, .wordEdge]

def classifyDdl (sql : Text) : DdlRiskLevel :=
  if commentDdlPattern.test sql then .comment
  else if destructiveDdlPatterns.any (·.test sql) then .destructive_ddl
  else .ddl

/-! ## 5. The target table -/

/-- `[\w$#]`. -/
def isTableChar (c : Char) : Bool := isWordChar c || c == '$' || c == '#'

/-- One optional `"`. -/
def dropQuote (s : Text) : Text := if startsWith s ['"'] then s.drop 1 else s

/-- `"?([\w$#]+)"?` at the start of the text: the name, and what follows. -/
def takeName (s : Text) : Option (Text × Text) :=
  let name := (dropQuote s).takeWhile isTableChar
  if name = [] then none else some (name, dropQuote ((dropQuote s).dropWhile isTableChar))

/-- The name the last pattern of `extractTableFromSql` reads off. -/
def tableName (tail : Text) : Text :=
  match takeName tail with
  | none => []
  | some (schema, rest) =>
    match (if startsWith rest ['.'] then takeName (rest.drop 1) else none) with
    | none => schema
    | some (table, _) => schema ++ '.' :: table

/-- The heads of a statement after which its target stands, the longer ones first. -/
def tableHeads : List Text :=
  ["UPDATE ".toList, "DELETE FROM ".toList, "DELETE ".toList, "TRUNCATE TABLE ".toList,
   "TRUNCATE ".toList, "MERGE INTO ".toList, "MERGE ".toList]

def extractTableFromSql (sql : Text) : Text :=
  let s := toUpperCase (trim (collapse (stripLeadingComments sql)))
  match tableHeads.find? (startsWith s) with
  | none => []
  | some head => tableName (trimStart (s.drop head.length))

end Veesker.Safety
