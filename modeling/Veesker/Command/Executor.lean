/-
  File:      Veesker/Command/Executor.lean
  Subject:   THE COMMAND EXECUTOR (src/lib/command/executor.ts): what a parsed line does, and the
             scripts that a line starts.

  Everything outside is a call on the host, whose answer may depend on all that has happened so far;
  a call may also throw, and then the script it was made for ends. The calls, the directives and the
  scripts opened and closed are kept in a trace, which the source does not have.

  `executeScript` counts how deep it may still call itself; its own limit is the check of
  `scriptDepth`.
-/
import Veesker.Command.Directives
import Veesker.Command.Script

namespace Veesker.Command

open Vsk (natText)

/-! ## 1. The host -/

/-- `SharedExecResult`; a value is given by its text. -/
structure SharedExecResult where
  rows : List (List (Option Text)) := []
  rowCount : Nat := 0
  elapsedMs : Nat := 0
  dbmsOutput : List Text := []
  deriving DecidableEq

/-- How `runSql` and `runPlsql` end. -/
inductive RunReply where
  | ok (data : SharedExecResult)
  | error (code : Int) (message : Text)
  | throws (message : Text)
  deriving DecidableEq

/-- What happens in a run. -/
inductive Happening where
  /-- `scriptDepth++`, for this file. -/
  | opens (filename : Text)
  /-- `scriptDepth--`. -/
  | closes
  | directive (name : Directive) (args : List Text)
  | read (path : Text)
  | runSql (sql : Text) (origin : Origin)
  | runPlsql (plsql : Text) (origin : Origin)
  | appendHistory (command : Text) (origin : Origin) (ok : Bool) (durationMs : Option Nat)
  | clearHistory
  | onExit (code : Int)
  deriving DecidableEq

abbrev Trace := List Happening

/-- `ExecutorContext`, and the functions of other modules that the executor calls. -/
structure Host where
  connectionId : Text := []
  user : Option Text := none
  readCommandScript : Trace → Text → Except Text Text
  runSql : Trace → Text → Origin → RunReply
  runPlsql : Trace → Text → Origin → RunReply
  /-- The id of the new entry. -/
  appendCommandHistory : Trace → Text → Origin → Bool → Option Nat → Except Text Nat
  clearInaccessibleHistory : Trace → Except Text Nat
  /-- What `onExit` throws. -/
  onExit : Trace → Int → Option Text
  /-- `Date.now()`. -/
  now : Trace → Nat
  /-- What `formatRows` and `getDdlDmlMessage` or `formatStatus` make of a result. -/
  sqlText : CommandSettings → Text → SharedExecResult → Text

structure Session where
  state : CommandModeState := {}
  trace : Trace := []
  deriving DecidableEq

namespace Session

def log (s : Session) (h : Happening) : Session := { s with trace := s.trace ++ [h] }

def push (s : Session) (e : TranscriptEntry) : Session :=
  { s with state := s.state.appendTranscript e }

def setBusy (s : Session) (busy : Bool) : Session := { s with state := { s.state with busy } }

def setDepth (s : Session) (scriptDepth : Nat) : Session :=
  { s with state := { s.state with scriptDepth } }

/-- A handler of the state. -/
def handle (s : Session) (f : CommandModeState → List Text → CommandModeState)
    (args : List Text) : Session := { s with state := f s.state args }

end Session

/-- Where a call ends: the session, and what was thrown. -/
abbrev Ended := Session × Option Text

section Executor

variable (host : Host)

/-! ## 2. Statements -/

def appendHistorySafe (command : Text) (origin : Origin) (ok : Bool) (durationMs : Option Nat)
    (s : Session) : Session :=
  let reply := host.appendCommandHistory s.trace command origin ok durationMs
  let s := s.log (.appendHistory command origin ok durationMs)
  match reply with
  | .error _ => s
  | .ok id =>
    let entry : HistoryEntry :=
      ⟨id, host.connectionId, host.now s.trace, command, origin, ok, durationMs⟩
    { s with state := s.state.appendHistory entry }

def pushDbmsOutput (lines : List Text) (s : Session) : Session :=
  if lines = [] then s else s.push (.dbmsOutput (joinLines lines ++ ['\n']))

/-- What `runSqlExec` and `runPlsqlExec` do with the reply to the call `call`. -/
def runExec (call : Happening) (reply : RunReply)
    (entry : CommandSettings → SharedExecResult → TranscriptEntry) (text : Text)
    (origin : Origin) (s : Session) : Ended :=
  let s := (s.setBusy true).log call
  match reply with
  | .ok data =>
    let s := pushDbmsOutput data.dbmsOutput (s.push (entry s.state.settings data))
    ((appendHistorySafe host text origin true (some data.elapsedMs) s).setBusy false, none)
  | .error code message =>
    let s := s.push (.error (intText code) message)
    ((appendHistorySafe host text origin false none s).setBusy false, none)
  | .throws message => (s.setBusy false, some message)

def runSqlExec (text : Text) (origin : Origin) (s : Session) : Ended :=
  runExec host (.runSql text origin) (host.runSql s.trace text origin)
    (fun settings data => .sqlResult (host.sqlText settings text data) data.rowCount data.elapsedMs)
    text origin s

def runPlsqlExec (text : Text) (origin : Origin) (s : Session) : Ended :=
  runExec host (.runPlsql text origin) (host.runPlsql s.trace text origin)
    (fun _ data => .plsqlResult "PL/SQL procedure successfully completed.\n".toList data.elapsedMs)
    text origin s

/-! ## 3. Directives -/

/-- `s.replace(/'/g, "''")`. -/
def doubleApostrophes (s : Text) : Text := s.flatMap fun c => if c = '\'' then [c, c] else [c]

/-- `value ?? other`, as a text. -/
def orElse (row : List (Option Text)) (i : Nat) (other : String) : Text :=
  ((row[i]?).join).getD other.toList

def padEndText (width : Nat) (s : Text) : Text := s ++ List.replicate (width - s.length) ' '

/-- `${line ?? "?"}/${pos ?? "?"}`. -/
def lineCol (row : List (Option Text)) (i : Nat) : Text :=
  orElse row i "?" ++ ['/'] ++ orElse row (i + 1) "?"

/-- The query of SHOW ERRORS, and what is shown where it finds nothing. -/
def showErrorsQuery (schema : Text) : List Text → Text × Text
  | type :: name :: _ =>
    let type := doubleApostrophes (toUpperCase type)
    let name := doubleApostrophes (toUpperCase name)
    ("SELECT line, position, text FROM user_errors WHERE type = '".toList ++ type ++
        "' AND name = '".toList ++ name ++ "' ORDER BY sequence".toList,
      "No errors for ".toList ++ type ++ [' '] ++ schema ++ name ++ ['\n'])
  | [type] =>
    let type := doubleApostrophes (toUpperCase type)
    ("SELECT name, line, position, text FROM user_errors WHERE type = '".toList ++ type ++
        "' ORDER BY name, sequence".toList, "No errors for ".toList ++ type ++ ['\n'])
  | [] =>
    (("SELECT e.type, e.name, e.line, e.position, e.text FROM user_errors e " ++
        "JOIN user_objects o ON o.object_name = e.name AND o.object_type = e.type " ++
        "ORDER BY o.last_ddl_time DESC, e.name, e.sequence FETCH FIRST 50 ROWS ONLY").toList,
      "No errors\n".toList)

/-- What SHOW ERRORS lists. -/
def showErrorsText (schema : Text) (args : List Text) (rows : List (List (Option Text))) : Text :=
  match args with
  | type :: name :: _ =>
    "Errors for ".toList ++ toUpperCase type ++ [' '] ++ schema ++ toUpperCase name ++
      ":\n\nLINE/COL  ERROR\n".toList ++
      "--------  -------------------------------------------------------\n".toList ++
      rows.flatMap fun row =>
        padEndText 8 (lineCol row 0) ++ "  ".toList ++ orElse row 2 "" ++ ['\n']
  | [type] =>
    "Errors for ".toList ++ toUpperCase type ++ ":\n\n".toList ++
      "OBJECT                          LINE/COL  ERROR\n".toList ++
      "------------------------------  --------  ".toList ++
      "-----------------------------------------\n".toList ++
      rows.flatMap fun row =>
        padEndText 30 (orElse row 0 "") ++ "  ".toList ++ padEndText 8 (lineCol row 1) ++
          "  ".toList ++ orElse row 3 "" ++ ['\n']
  | [] =>
    rows.flatMap fun row =>
      orElse row 0 "" ++ [' '] ++ schema ++ orElse row 1 "" ++ "\n  Line ".toList ++
        lineCol row 2 ++ ": ".toList ++ orElse row 4 "" ++ ['\n']

def handleShowErrors (args : List Text) (s : Session) : Ended :=
  let schema := (host.user.filter (· ≠ [])).elim [] fun u => toUpperCase u ++ ['.']
  let query := showErrorsQuery schema args
  let reply := host.runSql s.trace query.1 .userTyped
  let s := s.log (.runSql query.1 .userTyped)
  match reply with
  | .ok data =>
    if data.rows = [] then (s.push (.info query.2), none)
    else (s.push (.info (showErrorsText schema args data.rows)), none)
  | .error code message => (s.push (.error (intText code) message), none)
  | .throws message => (s, some message)

def handleShow (args : List Text) (s : Session) : Ended :=
  match args with
  | [] => (s.push (.error "SP2-0158".toList "missing SHOW option".toList), none)
  | arg :: rest =>
    let rawKey := toUpperCase arg
    if rawKey = "ERRORS".toList ∨ rawKey = "ERR".toList then handleShowErrors host rest s
    else if rawKey = "ALL".toList then
      (s.push (.info (settingDisplayOrder.flatMap s.state.settingLine)), none)
    else match settingAliases.lookup rawKey with
      | none =>
        (s.push (.error "SP2-0158".toList
          ("unknown SHOW option \"".toList ++ arg ++ ['"'])), none)
      | some key => (s.push (.info (s.state.settingLine key)), none)

/-- CLEAR HISTORY INACCESSIBLE. -/
def clearHistory (s : Session) : Session :=
  let reply := host.clearInaccessibleHistory s.trace
  let s := s.log .clearHistory
  match reply with
  | .ok deleted =>
    s.push (.info (natText deleted ++ " inaccessible quer".toList ++
      (if deleted = 1 then "y".toList else "ies".toList) ++ " removed.\n".toList))
  | .error message =>
    s.push (.error "SP2-HISTORY-CLEAR".toList
      ("CLEAR HISTORY INACCESSIBLE failed: ".toList ++ message))

/-- EXIT's code; exact below 2^53. -/
def exitCode (args : List Text) : Int := args.head?.elim 0 fun arg => (parseInt arg).getD 0

/-- A directive that ends with its history entry. -/
def noted (raw : Text) (origin : Origin) (ok : Bool) (s : Session) : Ended :=
  (appendHistorySafe host raw origin ok none s, none)

/-- `runDirective`; `start` is `executeScript`. -/
def runDirective (start : Text → Session → Option Session) (name : Directive) (args : List Text)
    (raw : Text) (origin : Origin) (s : Session) : Option Ended :=
  match name with
  | .set => some (noted host raw origin true (s.handle .handleSet args))
  | .show_ =>
    match handleShow host args s with
    | (s, some message) => some (s, some message)
    | (s, none) => some (noted host raw origin true s)
  | .define => some (noted host raw origin true (s.handle .handleDefine args))
  | .undefine => some (noted host raw origin true (s.handle .handleUndefine args))
  | .column =>
    some (noted host raw origin true (s.push (.info "COLUMN formatting deferred to D.3\n".toList)))
  | .accept => some (noted host raw origin true (s.push (.info "ACCEPT deferred to D.2\n".toList)))
  | .prompt => some (noted host raw origin true (s.push (.info (args.headD [] ++ ['\n']))))
  | .exit =>
    let code := exitCode args
    let s := s.push (.info "Disconnected from Oracle\n".toList)
    let s := appendHistorySafe host raw origin true none s
    let thrown := host.onExit s.trace code
    some (s.log (.onExit code), thrown)
  | .connect =>
    some (noted host raw origin false (s.push (.error "SP2-CONNECT-DEFERRED".toList
      "CONNECT/CONN is not supported in Command Mode for D.1; use the connection picker".toList)))
  | .disconnect =>
    some (noted host raw origin false (s.push (.error "SP2-DISCONNECT-DEFERRED".toList
      "DISCONNECT is not supported in Command Mode for D.1; close the tab instead".toList)))
  | .host =>
    some (noted host raw origin false (s.push (.error "SP2-HOST-DISABLED".toList
      "Host commands are disabled (Veesker security policy)".toList)))
  | .clear =>
    if toUpperCase (args.headD []) = "HISTORY".toList ∧
        toUpperCase ((args.drop 1).headD []) = "INACCESSIBLE".toList then
      some (noted host raw origin true (clearHistory host s))
    else some (noted host raw origin true (s.handle .handleClear args))
  | .spool => some (noted host raw origin true (s.handle .handleSpool args))
  | .start => (start (args.headD []) s).map (·, none)
  | .edit =>
    some (noted host raw origin true (s.push (.info "EDIT not supported in Command Mode\n".toList)))
  | .whenever => some (noted host raw origin true (s.push (.info "WHENEVER deferred\n".toList)))

/-! ## 4. Lines and scripts -/

def dispatch (start : Text → Session → Option Session) (parsed : Parsed) (origin : Origin)
    (s : Session) : Option Ended :=
  match parsed with
  | .blank => some (s, none)
  | .comment _ => some (s, none)
  | .incomplete _ => some (s, none)
  | .error code message _ => some (s.push (.error code message), none)
  | .directive name args raw =>
    runDirective host start name args raw origin (s.log (.directive name args))
  | .sql text _ => some (runSqlExec host text origin s)
  | .plsql text _ => some (runPlsqlExec host text origin s)

/-- The loop of `executeScript`. -/
def runEvents (start : Text → Session → Option Session) :
    List ScriptParseEvent → Session → Option Ended
  | [], s => some (s, none)
  | ev :: evs, s =>
    match ev.parsed with
    | .blank => runEvents start evs s
    | .comment _ => runEvents start evs s
    | .error code message _ => runEvents start evs (s.push (.error code message))
    | parsed =>
      let s := if s.state.settings.echo then s.push (.echo (ev.rawLine ++ ['\n'])) else s
      match dispatch host start parsed .script s with
      | none => none
      | some (s, some message) => some (s, some message)
      | some (s, none) => runEvents start evs s

/-- The `try` of `executeScript`. -/
def loadAndRun (start : Text → Session → Option Session) (filename : Text) (s : Session) :
    Option Ended :=
  let reply := host.readCommandScript s.trace filename
  let s := s.log (.read filename)
  match reply with
  | .error message => some (s, some message)
  | .ok raw =>
    let s := s.push (.info ("Loading script: ".toList ++ filename ++ " (".toList ++
      natText (splitLines raw).length ++ " lines)\n".toList))
    runEvents host start (parseScript raw) s

/-- Its `catch` and its `finally`. -/
def closeScript (r : Ended) : Session :=
  let s := match r.2 with
    | some message =>
      r.1.push (.error "SP2-0310".toList ("could not open script file: ".toList ++ message))
    | none => r.1
  (s.setDepth (s.state.scriptDepth - 1)).log .closes

/-- `executeScript`, where it may call itself `n` deep. -/
def executeScript : Nat → Text → Session → Option Session
  | 0, _, _ => none
  | n + 1, filename, s =>
    if filename = [] then
      some (s.push (.error "SP2-0310".toList
        "unable to open file (script requires a filename)".toList))
    else if 5 ≤ s.state.scriptDepth then
      some (s.push (.error "SP2-RECURSION-LIMIT".toList "max script depth exceeded".toList))
    else
      let s := (s.setDepth (s.state.scriptDepth + 1)).log (.opens filename)
      (loadAndRun host (executeScript n) filename s).map closeScript

end Executor

end Veesker.Command
