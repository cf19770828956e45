/-
  File:      Veesker/Audit/Redact.lean
  Subject:   THE REDACTION OF CREDENTIALS (src-tauri/src/audit/redact.rs).

  `redact_sql` replaces the matches of seven regular expressions, one expression after the other.
  No part of these expressions can match in two ways at one place -- what follows a run of white
  space is no white space, what follows a quoted part's inside is its quote -- so a match is found
  by going from part to part.
-/
import Veesker.Audit.Crates

namespace Veesker.Audit

open Rust

/-! ## 1. The parts of the expressions -/

/-- A part of an expression: what is left of a text after the part's match at its start. -/
abbrev Part := Text → Option Text

/-- The letter `d` under the flag `i`, for an expression's letter `c` in upper case. -/
def sameLetter (c d : Char) : Bool := d.toUpper == c || (c == 'S' && d == 'ſ')

def keyword : Text → Part
  | [], s => some s
  | c :: w, d :: s => if sameLetter c d then keyword w s else none
  | _ :: _, [] => none

/-- `\s*`. -/
def spaces0 : Part := fun s => some (s.dropWhile isWhitespace)

/-- `\s+`. -/
def spaces : Part
  | c :: s => if isWhitespace c then spaces0 s else none
  | [] => none

def char (c : Char) : Part
  | d :: s => if c = d then some s else none
  | [] => none

/-- What stands behind the next `q`. -/
def behind (q : Char) : Part
  | [] => none
  | c :: s => if c = q then some s else behind q s

/-- `q[^q]+q`. -/
def quotedBy (q : Char) : Part
  | c :: d :: s => if c = q ∧ d ≠ q then behind q s else none
  | _ => none

/-- `(?:'[^']+'|"[^"]+")`. -/
def quoted : Part := fun s => quotedBy '\'' s <|> quotedBy '"' s

/-- One part after the other. -/
def parts : List Part → Part
  | [], s => some s
  | p :: ps, s => p s >>= parts ps

/-- `[^\s;,)]`. -/
def isTokenChar (c : Char) : Bool := !isWhitespace c && c != ';' && c != ',' && c != ')'

/-- `([^\s;,)]+)`: the token and what follows it. -/
def token (s : Text) : Option (Text × Text) :=
  if (s.takeWhile isTokenChar).isEmpty then none
  else some (s.takeWhile isTokenChar, s.dropWhile isTokenChar)

/-! ## 2. Replacing -/

/-- What replaces a match at the start of a text, and what follows the match; `none` without one.
    The first argument is the character before the text. -/
abbrev Rule := Option Char → Text → Option (Text × Text)

/-- `replace_all` from a place on; the first argument is how much of a match is still to be skipped. -/
def replaceFrom (rule : Rule) : Nat → Option Char → Text → Text
  | _, _, [] => []
  | skip + 1, _, c :: cs => replaceFrom rule skip (some c) cs
  | 0, prev, c :: cs =>
    match rule prev (c :: cs) with
    | some (out, rest) => out ++ replaceFrom rule (cs.length - rest.length) (some c) cs
    | none => c :: replaceFrom rule 0 (some c) cs

def replaceAll (rule : Rule) (s : Text) : Text := replaceFrom rule 0 none s

/-- The matches of an expression become a fixed text. -/
def always (re : Part) (out : Text) : Rule := fun _ s => (re s).map fun rest => (out, rest)

/-! ## 3. The expressions -/

def reIdentifiedByValues : Part :=
  parts [keyword "IDENTIFIED".toList, spaces, keyword "BY".toList, spaces, keyword "VALUES".toList,
    spaces, quoted]

def reIdentifiedByQuoted : Part :=
  parts [keyword "IDENTIFIED".toList, spaces, keyword "BY".toList, spaces, quoted]

/-- `IDENTIFIED\s+BY\s+`, the beginning of `re_identified_by_unquoted`. -/
def identifiedBy : Part := parts [keyword "IDENTIFIED".toList, spaces, keyword "BY".toList, spaces]

def reIdentifiedGloballyAs : Part :=
  parts [keyword "IDENTIFIED".toList, spaces, keyword "GLOBALLY".toList, spaces,
    keyword "AS".toList, spaces, quoted]

def rePassword : Part := parts [keyword "PASSWORD".toList, spaces, quoted]

def reBfilename : Part :=
  parts [keyword "BFILENAME".toList, spaces0, char '(', spaces0, quoted, spaces0, char ',', spaces0,
    quoted, spaces0, char ')']

def reUsingQuoted : Part := parts [keyword "USING".toList, spaces, quoted]

/-- The tokens the closure of pattern 3 leaves as they are. -/
def keepsToken (token : Text) : Bool :=
  eqIgnoreAsciiCase token "VALUES".toList || startsWith token "***REDACTED".toList ||
    token.head? == some '\'' || token.head? == some '"'

/-- Pattern 3, with its closure. -/
def unquotedRule : Rule := fun _ s => do
  let (token, rest) ← identifiedBy s >>= token
  if keepsToken token then some (s.take (s.length - rest.length), rest)
  else some ("IDENTIFIED BY ***REDACTED***".toList, rest)

/-- `\bPASSWORD…`. -/
def passwordRule (C : Crates) : Rule := fun prev s =>
  if prev.any C.isWord == s.head?.any C.isWord then none
  else always rePassword "PASSWORD '***REDACTED***'".toList prev s

def redactSql (C : Crates) (sql : Text) : Text :=
  let out := replaceAll (always reIdentifiedByValues "IDENTIFIED BY VALUES '***REDACTED***'".toList) sql
  let out := replaceAll (always reIdentifiedByQuoted "IDENTIFIED BY '***REDACTED***'".toList) out
  let out := replaceAll
    (always reIdentifiedGloballyAs "IDENTIFIED GLOBALLY AS '***REDACTED***'".toList) out
  let out := replaceAll unquotedRule out
  let out := replaceAll (passwordRule C) out
  let out := replaceAll (always reBfilename "BFILENAME('***REDACTED***', '***REDACTED***')".toList) out
  replaceAll (always reUsingQuoted "USING '***REDACTED***'".toList) out

end Veesker.Audit
