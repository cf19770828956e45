/-
  File:      Veesker/Command/Parser.lean
  Subject:   THE COMMAND-MODE PARSER (src/lib/command/parser.ts).

  `CommandParser` takes a session one line at a time and answers every line with one event
  (`Parsed`). This file is the translation of the source, function by function under its names:

  * `stripTrailingInlineComment` -- the scan for the first `--` outside quotes;
  * `tokenizeArgs`, `parseDirective` and its helpers -- the SQL*Plus directives;
  * `CommandParser.feed` and `continueSql` -- the line-driven state machine.

  The scan keeps three flags in the source, of which at most one is ever set; here they are the
  four states of `InlineScan`.
-/
import Veesker.Text.Upper

namespace Veesker.Command

/-! ## 1. Events -/

/-- `DirectiveCanonical`. -/
inductive Directive where
  | set | show_ | define | undefine | column | accept | prompt | exit | connect | disconnect
  | host | clear | spool | start | edit | whenever
  deriving DecidableEq

/-- The event a line is answered with. -/
inductive Parsed where
  | directive (name : Directive) (args : List Text) (raw : Text)
  | sql (text : Text) (terminator : Text)
  | plsql (text : Text) (terminator : Text)
  | comment (raw : Text)
  | blank
  | incomplete (partialText : Text)
  | error (code : Text) (message : Text) (raw : Text)
  deriving DecidableEq

/-- `DIRECTIVE_ALIASES`. -/
def directiveAliases : List (Text × Directive) :=
  [("SET".toList, .set), ("SHOW".toList, .show_), ("DEFINE".toList, .define),
   ("DEF".toList, .define), ("UNDEFINE".toList, .undefine), ("UNDEF".toList, .undefine),
   ("COL".toList, .column), ("COLUMN".toList, .column), ("ACCEPT".toList, .accept),
   ("ACC".toList, .accept), ("PROMPT".toList, .prompt), ("PRO".toList, .prompt),
   ("EXIT".toList, .exit), ("QUIT".toList, .exit), ("CONNECT".toList, .connect),
   ("CONN".toList, .connect), ("DISCONNECT".toList, .disconnect), ("DISC".toList, .disconnect),
   ("HOST".toList, .host), ("HO".toList, .host), ("CLEAR".toList, .clear),
   ("CL".toList, .clear), ("SPOOL".toList, .spool), ("SPO".toList, .spool),
   ("START".toList, .start), ("EDIT".toList, .edit), ("ED".toList, .edit),
   ("WHENEVER".toList, .whenever)]

/-- `PLSQL_OPENERS`. -/
def plsqlOpeners : List Text := ["BEGIN".toList, "DECLARE".toList]

/-! ## 2. The scan for an inline comment -/

/-- Where the scan stands: `inSingle`, `inDouble`, `inQ` with its `qCloser`, or none of them. -/
inductive InlineScan where
  | code | inSingle | inDouble
  | inQ (qCloser : Char)
  deriving DecidableEq

def pairCloser (open_ : Char) : Char :=
  if open_ = '[' then ']' else if open_ = '<' then '>' else if open_ = '(' then ')'
  else if open_ = '{' then '}' else open_

/-- The loop of `stripTrailingInlineComment`: the characters kept from here on. `skip` counts the
    characters an `i++` or `i += 2` of the loop steps over. -/
def stripInlineFrom : InlineScan → Nat → Text → Text
  | _, _, [] => []
  | st, skip + 1, c :: cs => c :: stripInlineFrom st skip cs
  | .inSingle, 0, c :: cs =>
    if c = '\'' ∧ cs.head? = some '\'' then c :: stripInlineFrom .inSingle 1 cs
    else c :: stripInlineFrom (if c = '\'' then .code else .inSingle) 0 cs
  | .inDouble, 0, c :: cs => c :: stripInlineFrom (if c = '"' then .code else .inDouble) 0 cs
  | .inQ qCloser, 0, c :: cs =>
    if c = qCloser ∧ cs.head? = some '\'' then c :: stripInlineFrom .code 1 cs
    else c :: stripInlineFrom (.inQ qCloser) 0 cs
  | .code, 0, c :: cs =>
    -- the delimiter of a q-quote; at the end of the line there is none, and no q-quote
    match (if (c = 'q' ∨ c = 'Q') ∧ cs.head? = some '\'' then cs[1]? else none) with
    | some delim => c :: stripInlineFrom (.inQ (pairCloser delim)) 2 cs
    | none =>
      if c = '\'' then c :: stripInlineFrom .inSingle 0 cs
      else if c = '"' then c :: stripInlineFrom .inDouble 0 cs
      else if c = '-' ∧ cs.head? = some '-' then []
      else c :: stripInlineFrom .code 0 cs

def stripTrailingInlineComment (line : Text) : Text := stripInlineFrom .code 0 line

/-! ## 3. Lines and words -/

def isCommentStart (trimmed : Text) : Bool :=
  let upper := toUpperCase trimmed
  startsWith trimmed "--".toList || upper == "REM".toList || upper == "REMARK".toList ||
    startsWith upper "REM ".toList || startsWith upper "REM\t".toList ||
    startsWith upper "REMARK ".toList || startsWith upper "REMARK\t".toList

def firstWord (trimmed : Text) : Text := trimmed.takeWhile (fun c => !isBlankChar c)

def restAfterFirstWord (line : Text) (wordLen : Nat) : Text :=
  (line.drop wordLen).dropWhile isBlankChar

def stripTrailingSemicolon (s : Text) : Text := dropFinalSemicolon s

def stripTrailingWhitespace (s : Text) : Text := s.rdropWhile isBlankChar

/-- `/^\s*\/\s*$/.test(line)`. -/
def isOnlySlash (line : Text) : Bool := trim line == ['/']

/-! ## 4. Directives -/

/-- Where `tokenizeArgs` stands: between two tokens, inside a quoted one, inside a bare one. -/
inductive ArgScan where
  | between
  | quoted (quote : Char) (buf : Text)
  | bare (buf : Text)

def tokenizeFrom : ArgScan → Text → List Text
  | .between, [] => []
  | .quoted _ buf, [] => [buf]
  | .bare buf, [] => [buf]
  | .between, c :: cs =>
    if isBlankChar c then tokenizeFrom .between cs
    else if c = '"' ∨ c = '\'' then tokenizeFrom (.quoted c []) cs
    else tokenizeFrom (.bare [c]) cs
  | .quoted q buf, c :: cs =>
    if c = q then buf :: tokenizeFrom .between cs else tokenizeFrom (.quoted q (buf ++ [c])) cs
  | .bare buf, c :: cs =>
    if isBlankChar c then buf :: tokenizeFrom .between cs else tokenizeFrom (.bare (buf ++ [c])) cs

def tokenizeArgs (rest : Text) : List Text := tokenizeFrom .between rest

/-- `/^-?\d+$/.test(trimmed)`. -/
def isInteger (trimmed : Text) : Bool :=
  let digits := if startsWith trimmed ['-'] then trimmed.drop 1 else trimmed
  !digits.isEmpty && digits.all Char.isDigit

def parseExitArgs (rest raw : Text) : Parsed :=
  let trimmed := trim rest
  if trimmed = [] then .directive .exit [] raw
  else if !isInteger trimmed then
    .error "SP2-0226".toList ("Invalid argument supplied: ".toList ++ trimmed) raw
  else .directive .exit [trimmed] raw

def parseDefineArgs (rest raw : Text) : Parsed :=
  let trimmed := trim rest
  if trimmed = [] then .directive .define [] raw
  else if !trimmed.contains '=' then .directive .define (splitSpaces trimmed) raw
  else
    let name := trim (trimmed.takeWhile (· != '='))
    let value := trim ((trimmed.dropWhile (· != '=')).drop 1)
    .directive .define ((if name = [] then [] else [name]) ++ (if value = [] then [] else [value]))
      raw

def parseStartArgs (rest raw alias_ : Text) : Parsed :=
  let trimmed := trim rest
  if trimmed = [] then
    .error "SP2-0310".toList
      ("unable to open file (".toList ++ alias_ ++ " requires a filename)".toList) raw
  else .directive .start (tokenizeArgs trimmed) raw

/-- The words of a directive's rest: `rest.trim() === "" ? [] : rest.trim().split(/\s+/)`. -/
def restWords (rest : Text) : List Text :=
  if trim rest = [] then [] else splitSpaces (trim rest)

/-- The first word in upper case, as SET and SHOW keep it. -/
def upperFirst : List Text → List Text
  | [] => []
  | w :: ws => toUpperCase w :: ws

def parsePrompt (word raw : Text) : Parsed :=
  let leadingWs := (raw.takeWhile isBlankChar).length
  match raw.drop (leadingWs + word.length) with
  | [] => .directive .prompt [[]] raw
  | c :: rest => if isBlankChar c then .directive .prompt [rest] raw else .directive .prompt [[]] raw

def parseDirective (line word raw : Text) : Option Parsed :=
  match directiveAliases.lookup (toUpperCase word) with
  | none => none
  | some canonical =>
    let rest := restAfterFirstWord line word.length
    let restNoSemi := stripTrailingWhitespace (stripTrailingSemicolon rest)
    some <| match canonical with
    | .exit => parseExitArgs restNoSemi raw
    | .prompt => parsePrompt word raw
    | .define => parseDefineArgs restNoSemi raw
    | .set => .directive .set (upperFirst (restWords restNoSemi)) raw
    | .show_ => .directive .show_ (upperFirst (restWords restNoSemi)) raw
    | .undefine => .directive .undefine (restWords restNoSemi) raw
    | .clear => .directive .clear (restWords restNoSemi) raw
    | .whenever => .directive .whenever (restWords restNoSemi) raw
    | .connect => .directive .connect (restWords restNoSemi) raw
    | .column => .directive .column (tokenizeArgs restNoSemi) raw
    | .accept => .directive .accept (tokenizeArgs restNoSemi) raw
    | .spool => .directive .spool (tokenizeArgs restNoSemi) raw
    | .disconnect => .directive .disconnect [] raw
    | .host => .directive .host [restNoSemi] raw
    | .edit => .directive .edit [trim restNoSemi] raw
    | .start => parseStartArgs restNoSemi raw "START".toList

/-! ## 5. The parser -/

inductive ParserMode where
  | idle | sql | plsql
  deriving DecidableEq

/-- `CommandParser`: the lines of the statement under way, and what it is. -/
structure CommandParser where
  buffer : List Text := []
  mode : ParserMode := .idle
  deriving DecidableEq

namespace CommandParser

/-- `new CommandParser()`, and the state after `reset()`. -/
def fresh : CommandParser := {}

def isInBlock (p : CommandParser) : Bool := p.mode == .plsql

def continueSql (p : CommandParser) (line : Text) : Parsed × CommandParser :=
  let buffer := (if p.mode = .sql then p.buffer else []) ++ [line]
  let stripped := stripTrailingWhitespace (stripTrailingInlineComment line)
  if endsWith stripped [';'] then
    let joined := joinLines buffer
    let cleanedFull := stripTrailingWhitespace (stripTrailingInlineComment joined)
    (.sql (dropFinalSemicolon cleanedFull) [';'], fresh)
  else (.incomplete (joinLines buffer), ⟨buffer, .sql⟩)

/-- `feed` in the idle mode, on a line that is not blank. -/
def feedIdle (p : CommandParser) (line : Text) : Parsed × CommandParser :=
  if isOnlySlash line then (.blank, p)
  else
    let trimmed := trim line
    if isCommentStart trimmed then (.comment line, p)
    else if startsWith trimmed "@@".toList then
      (parseStartArgs (trimmed.drop 2) line "@@".toList, p)
    else if startsWith trimmed "@".toList then (parseStartArgs (trimmed.drop 1) line "@".toList, p)
    else if startsWith trimmed "!".toList then
      (.directive .host [trim (trimmed.drop 1)] line, p)
    else
      let word := firstWord trimmed
      match parseDirective trimmed word line with
      | some directive => (directive, p)
      | none =>
        if plsqlOpeners.contains (toUpperCase word) then
          (.incomplete (joinLines [line]), ⟨[line], .plsql⟩)
        else p.continueSql line

/-- **One line**: its event, and the parser after it. -/
def feed (p : CommandParser) (line : Text) : Parsed × CommandParser :=
  let isBlank := trim line = []
  match p.mode with
  | .plsql =>
    if isOnlySlash line then (.plsql (joinLines p.buffer) ['/'], fresh)
    else (.incomplete (joinLines (p.buffer ++ [line])), ⟨p.buffer ++ [line], .plsql⟩)
  | .sql =>
    if isBlank then (.incomplete (joinLines (p.buffer ++ [line])), ⟨p.buffer ++ [line], .sql⟩)
    else p.continueSql line
  | .idle => if isBlank then (.blank, p) else p.feedIdle line

/-- The parser after a session's lines. -/
def feedLines (p : CommandParser) (lines : List Text) : CommandParser :=
  lines.foldl (fun q l => (q.feed l).2) p

/-- The events a session's lines are answered with. -/
def events (p : CommandParser) : List Text → List Parsed
  | [] => []
  | l :: ls => (p.feed l).1 :: (p.feed l).2.events ls

end CommandParser

end Veesker.Command
