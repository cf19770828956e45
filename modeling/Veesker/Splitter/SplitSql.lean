/-
  File:      Veesker/Splitter/SplitSql.lean
  Subject:   THE STATEMENT SPLITTER (src/lib/sql-splitter.ts; sidecar/src/sql-splitter.ts is a copy).

  One scan over the whole text with one state (`ScanState`), a buffer and a cached answer to "is
  this a PL/SQL block". The source's `switch` does two things at once, which are two functions
  here: `lexStep` says what the scan is inside of after a character, how many characters an
  `i += n` takes along with it, and whether the character is plain code; `Scan.step` says what
  plain code does -- a `;` ends a statement that is no PL/SQL block, a `/` alone on its line ends
  any statement, everything else goes into the buffer.
-/
import Veesker.Text.Upper
import Veesker.Text.Pattern

namespace Veesker.Splitter

open Pattern (wordI spaces opt)

/-! ## 1. What a statement starts with -/

/-- `PLSQL_BLOCK_RE`. -/
def plsqlBlock : Pattern :=
  .alt (.seq (.alt (wordI "DECLARE".toList) (wordI "BEGIN".toList)) .wordEdge)
    (.all [wordI "CREATE".toList, spaces,
      opt (.all [wordI "OR".toList, spaces, wordI "REPLACE".toList, spaces]),
      opt (.any [.all [wordI "EDITIONABLE".toList, spaces],
        .all [wordI "NONEDITIONABLE".toList, spaces]]),
      .any [wordI "FUNCTION".toList, wordI "PROCEDURE".toList, wordI "TRIGGER".toList,
        .all [wordI "PACKAGE".toList, opt (.all [spaces, wordI "BODY".toList])],
        .all [wordI "TYPE".toList, opt (.all [spaces, wordI "BODY".toList])]],
      .wordEdge])

/-- `t.slice(t.indexOf(w) + w.length)`, where `w` is found. -/
def sliceAfter (w : Text) : Text → Option Text
  | [] => none
  | c :: cs => if startsWith (c :: cs) w then some ((c :: cs).drop w.length) else sliceAfter w cs

/-- The loop of `stripLeadingComments`; a round takes at least the two characters of a comment's
    start, so as many rounds as there are characters are enough. -/
def stripLoop : Nat → Text → Text
  | 0, t => t
  | n + 1, t =>
    if startsWith t "--".toList then stripLoop n (((sliceAfter ['\n'] t).map trimStart).getD [])
    else if startsWith t "/*".toList then
      stripLoop n (((sliceAfter "*/".toList t).map trimStart).getD [])
    else t

def stripLeadingComments (s : Text) : Text := stripLoop (trimStart s).length (trimStart s)

def detectPlsqlStart (buf : Text) : Bool := plsqlBlock.test (stripLeadingComments buf)

def isCommentsOnly (buf : Text) : Bool := stripLeadingComments buf == []

/-! ## 2. What the scan is inside of -/

/-- `State`. -/
inductive ScanState where
  | code | inLineComment | inBlockComment | inSingleString | inDoubleString
  | inQString (closer : Char)
  deriving DecidableEq

def qCloser (delim : Char) : Char :=
  if delim = '[' then ']' else if delim = '<' then '>' else if delim = '(' then ')'
  else if delim = '{' then '}' else delim

/-- The delimiter of a q-quote that starts here, and the characters behind the first up to it. -/
def qOpens (c : Char) (rest : Text) : Option (Char × Nat) :=
  if (c = 'q' ∨ c = 'Q') ∧ rest.head? = some '\'' then rest[1]?.map (·, 2)
  else if (c = 'n' ∨ c = 'N') ∧ (rest.head? = some 'q' ∨ rest.head? = some 'Q') ∧
      rest[1]? = some '\'' then rest[2]?.map (·, 3)
  else none

/-- One character: the state after it, how many more characters belong to it, and whether it is
    plain code. -/
def lexStep : ScanState → Char → Text → ScanState × Nat × Bool
  | .code, c, rest =>
    if c = '-' ∧ rest.head? = some '-' then (.inLineComment, 1, false)
    else if c = '/' ∧ rest.head? = some '*' then (.inBlockComment, 1, false)
    else if c = '"' then (.inDoubleString, 0, false)
    else match qOpens c rest with
      | some (delim, n) => (.inQString (qCloser delim), n, false)
      | none =>
        if (c = 'n' ∨ c = 'N') ∧ rest.head? = some '\'' then (.inSingleString, 1, false)
        else if c = '\'' then (.inSingleString, 0, false)
        else (.code, 0, true)
  | .inLineComment, c, _ => (if c = '\n' then .code else .inLineComment, 0, false)
  | .inBlockComment, c, rest =>
    if c = '*' ∧ rest.head? = some '/' then (.code, 1, false) else (.inBlockComment, 0, false)
  | .inSingleString, c, rest =>
    if c = '\'' ∧ rest.head? = some '\'' then (.inSingleString, 1, false)
    else (if c = '\'' then .code else .inSingleString, 0, false)
  | .inDoubleString, c, rest =>
    if c = '"' ∧ rest.head? = some '"' then (.inDoubleString, 1, false)
    else (if c = '"' then .code else .inDoubleString, 0, false)
  | .inQString closer, c, rest =>
    if c = closer ∧ rest.head? = some '\'' then (.code, 1, false)
    else (.inQString closer, 0, false)

/-! ## 3. The scan -/

/-- The variables of `splitSql`. -/
structure Scan where
  buf : Text := []
  line : Nat := 1
  state : ScanState := .code
  isPlsql : Bool := false
  plsqlChecked : Bool := false
  statements : List Text := []
  deriving DecidableEq

namespace Scan

def push (s : Scan) (c : Char) : Scan := { s with buf := s.buf ++ [c] }

def flush (s : Scan) : Scan :=
  let trimmed := trim s.buf
  { s with
    statements := if trimmed ≠ [] ∧ isCommentsOnly trimmed = false then s.statements ++ [trimmed]
      else s.statements
    buf := []
    isPlsql := false
    plsqlChecked := false }

def checkPlsql (s : Scan) : Scan :=
  if s.plsqlChecked then s else { s with isPlsql := detectPlsqlStart s.buf, plsqlChecked := true }

end Scan

/-- What may stand behind a slash on its line. -/
def isSlashTail (c : Char) : Bool := c == ' ' || c == '\t' || c == '\r'

/-- The end of a text's last line, and the start of its first. -/
def lastLine (s : Text) : Text := s.rtakeWhile (· != '\n')

/-- A slash between these two is alone on its line. -/
def slashAlone (before after : Text) : Bool :=
  trim (lastLine before) == [] && (after.dropWhile isSlashTail).head?.all (· == '\n')

/-- **One round of the loop**: the scan after a character, and how many characters behind it are
    kept and how many are dropped with it. -/
def Scan.step (s : Scan) (c : Char) (rest : Text) : Scan × Nat × Nat :=
  let (state, keep, plain) := lexStep s.state c rest
  if plain = false then ({ s.push c with state }, keep, 0)
  else if c = ';' then
    let s := s.checkPlsql
    if s.isPlsql then (s.push c, 0, 0) else (s.flush, 0, 0)
  else if c = '/' ∧ slashAlone s.buf rest then
    let tail := (rest.takeWhile isSlashTail).length
    -- the line break behind the slash is dropped with it
    if rest.dropWhile isSlashTail = [] then (s.flush, 0, tail)
    else ({ s.flush with line := s.line + 1 }, 0, tail + 1)
  else (s.push c, 0, 0)

/-- The loop, with the characters still to keep and still to drop. -/
def scanFrom : Scan → Nat → Nat → Text → Scan
  | s, _, _, [] => s
  | s, keep + 1, drop, c :: cs => scanFrom (s.push c) keep drop cs
  | s, 0, drop + 1, _ :: cs => scanFrom s 0 drop cs
  | s, 0, 0, c :: cs =>
    let r := (if c = '\n' then { s with line := s.line + 1 } else s).step c cs
    scanFrom r.1 r.2.1 r.2.2 cs

structure SplitterError where
  line : Nat
  message : Text
  deriving DecidableEq

structure SplitResult where
  statements : List Text
  errors : List SplitterError
  deriving DecidableEq

/-- What is wrong when the text ends in this state. -/
def unterminated : ScanState → Option Text
  | .inSingleString => some "Unterminated string literal".toList
  | .inQString _ => some "Unterminated string literal".toList
  | .inDoubleString => some "Unterminated quoted identifier".toList
  | .inBlockComment => some "Unterminated block comment".toList
  | .code => none
  | .inLineComment => none

def splitSql (input : Text) : SplitResult :=
  let s := scanFrom {} 0 0 input
  match unterminated s.state with
  | some message => ⟨s.statements, [⟨s.line, message⟩]⟩
  | none => ⟨s.flush.statements, []⟩

end Veesker.Splitter
