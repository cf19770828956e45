/-
  File:      Veesker/Command/Script.lean
  Subject:   A SCRIPT'S EVENTS (src/lib/command/script-runner.ts): the lines of the file, fed to a
             parser of its own before anything runs.
-/
import Veesker.Command.Parser

namespace Veesker.Command

def splitLines (source : Text) : List Text :=
  if source = [] then []
  else
    let parts := source.splitOn '\n'
    let parts := if parts.getLast? = some [] then parts.dropLast else parts
    parts.map fun p => if endsWith p ['\r'] then p.dropLast else p

structure ScriptParseEvent where
  lineIndex : Nat
  rawLine : Text
  parsed : Parsed
  deriving DecidableEq

/-- `pendingPartial`, `pendingLineIndex` and `pendingRawLine`. -/
structure PendingStatement where
  partialText : Option Text := none
  lineIndex : Nat := 0
  rawLine : Text := []
  deriving DecidableEq

/-- The statement that the script ends in the middle of. -/
def PendingStatement.event (p : PendingStatement) : List ScriptParseEvent :=
  match p.partialText with
  | none => []
  | some text =>
    [⟨p.lineIndex, p.rawLine,
      .error "SP2-0734".toList "unterminated SQL statement at end of script".toList text⟩]

/-- The loop of `parseScript`. -/
def parseLines : CommandParser → PendingStatement → Nat → List Text → List ScriptParseEvent
  | _, pending, _, [] => pending.event
  | parser, pending, i, rawLine :: lines =>
    let r := parser.feed rawLine
    match r.1 with
    | .incomplete text =>
      let at_ := if trim rawLine = [] then (pending.lineIndex, pending.rawLine) else (i, rawLine)
      parseLines r.2 ⟨some text, at_.1, at_.2⟩ (i + 1) lines
    | .blank => parseLines r.2 { pending with partialText := none } (i + 1) lines
    | parsed =>
      ⟨i, rawLine, parsed⟩ :: parseLines r.2 { pending with partialText := none } (i + 1) lines

def parseScript (source : Text) : List ScriptParseEvent :=
  parseLines .fresh {} 0 (splitLines source)

end Veesker.Command
