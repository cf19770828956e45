/-
  File:      Veesker/Shim/Translator.lean
  Subject:   ORACLE SQL FOR DUCKDB (engine/src/oracle-shim/translator.ts).

  `translate` puts a placeholder in the place of every string literal, runs ten rewrites over the
  masked text one after the other, and puts the literals back. Every rewrite goes over its text
  once (`scan`): at each place an expression finds nothing, or how much to replace and by what; the
  four rewrites of calls give up at the first call whose parenthesis never closes.
-/
import Veesker.Text.Upper

namespace Veesker.Shim

/-! ## 1. One pass over a text -/

/-- What an expression finds at a place. -/
inductive Found where
  | nothing
  /-- Nothing is looked for from here on. -/
  | stop
  | hit (length : Nat) (replacement : Text)
  deriving DecidableEq

/-- The pass, with the character before the place and how many characters are replaced already. -/
def scanFrom (find : Option Char → Text → Found) : Option Char → Nat → Text → Text
  | _, _, [] => []
  | _, skip + 1, c :: cs => scanFrom find (some c) skip cs
  | prev, 0, c :: cs =>
    match find prev (c :: cs) with
    | .nothing => c :: scanFrom find (some c) 0 cs
    | .stop => c :: cs
    | .hit length replacement => replacement ++ scanFrom find (some c) (length - 1) cs

def scan (find : Option Char → Text → Found) (s : Text) : Text := scanFrom find none 0 s

/-! ## 2. Date formats -/

def ORACLE_FORMAT_TOKENS : List (Text × Text) := [
  ("YYYY".toList, "%Y".toList),
  ("MONTH".toList, "%B".toList),
  ("HH24".toList, "%H".toList),
  ("HH12".toList, "%I".toList),
  ("YY".toList, "%y".toList),
  ("MON".toList, "%b".toList),
  ("MM".toList, "%m".toList),
  ("DDD".toList, "%j".toList),
  ("DAY".toList, "%A".toList),
  ("DY".toList, "%a".toList),
  ("DD".toList, "%d".toList),
  ("HH".toList, "%I".toList),
  ("MI".toList, "%M".toList),
  ("SS".toList, "%S".toList),
  ("AM".toList, "%p".toList),
  ("PM".toList, "%p".toList)]

/-- The alternatives of `FORMAT_TOKENIZER`, the longest first. -/
def formatTokens : List (Text × Text) :=
  ORACLE_FORMAT_TOKENS.insertionSort fun a b => b.1.length ≤ a.1.length

def findToken (s : Text) : Found :=
  match formatTokens.find? fun token => startsWith s token.1 with
  | some (token, code) => .hit token.length code
  | none => .nothing

def convertFormat (fmt : Text) : Text := scan (fun _ s => findToken s) fmt

/-! ## 3. Masking -/

def STR_PLACEHOLDER_OPEN : Text := '\x01' :: "VSKSTR".toList

def STR_PLACEHOLDER_CLOSE : Text := ['\x02']

def placeholder (n : Nat) : Text :=
  STR_PLACEHOLDER_OPEN ++ Nat.toDigits 10 n ++ STR_PLACEHOLDER_CLOSE

structure MaskedSql where
  masked : Text := []
  literals : List Text := []
  deriving DecidableEq

/-- Where the loop of `maskStrings` is. -/
inductive MaskState where
  | code
  | literal (lit : Text)
  /-- In a literal, in front of the second of two apostrophes. -/
  | doubled (lit : Text)
  deriving DecidableEq

def MaskedSql.push (m : MaskedSql) (lit : Text) : MaskedSql :=
  ⟨m.masked ++ placeholder m.literals.length, m.literals ++ [lit]⟩

def maskFrom : MaskState → MaskedSql → Text → MaskedSql
  | .code, m, [] => m
  | .literal lit, m, [] => m.push lit
  | .doubled lit, m, [] => m.push lit
  | .code, m, ch :: cs =>
    if ch ≠ '\'' then maskFrom .code { m with masked := m.masked ++ [ch] } cs
    else maskFrom (.literal ['\'']) m cs
  | .literal lit, m, c :: cs =>
    if c = '\'' then
      if cs.head? = some '\'' then maskFrom (.doubled (lit ++ ['\''])) m cs
      else maskFrom .code (m.push (lit ++ ['\''])) cs
    else maskFrom (.literal (lit ++ [c])) m cs
  | .doubled lit, m, c :: cs => maskFrom (.literal (lit ++ [c])) m cs

def maskStrings (sql : Text) : MaskedSql := maskFrom .code {} sql

/-- A placeholder that starts here: its number, and what stands behind it. -/
def placeholderAt (s : Text) : Option (Nat × Text) :=
  if startsWith s STR_PLACEHOLDER_OPEN then
    let behind := s.drop STR_PLACEHOLDER_OPEN.length
    let digits := behind.takeWhile Char.isDigit
    if digits = [] then none
    else match behind.dropWhile Char.isDigit with
      | '\x02' :: rest => some (Nat.ofDigitChars 10 digits 0, rest)
      | _ => none
  else none

def findPlaceholder (literals : List Text) (s : Text) : Found :=
  match placeholderAt s with
  | some (n, rest) => .hit (s.length - rest.length) ((literals[n]?).getD "undefined".toList)
  | none => .nothing

def unmaskStrings (masked : Text) (literals : List Text) : Text :=
  scan (fun _ s => findPlaceholder literals s) masked

/-! ## 4. Calls -/

/-- The loop of `splitArgs`, with the depth and the argument so far. -/
def splitArgsFrom : Nat → Text → Text → List Text
  | _, arg, [] => [arg]
  | depth, arg, ch :: s =>
    if ch = '(' then splitArgsFrom (depth + 1) (arg ++ [ch]) s
    else if ch = ')' then
      if depth = 0 then [arg] else splitArgsFrom (depth - 1) (arg ++ [ch]) s
    else if ch = ',' ∧ depth = 0 then arg :: splitArgsFrom 0 [] s
    else splitArgsFrom depth (arg ++ [ch]) s

def splitArgs (s : Text) : List Text := splitArgsFrom 0 [] s

/-- `matchParen` behind the open parenthesis, of which `depth` more are open: what stands inside,
    and what stands behind the parenthesis that closes it. -/
def matchParen : Nat → Text → Option (Text × Text)
  | _, [] => none
  | depth, ch :: s =>
    if ch = '(' then (matchParen (depth + 1) s).map fun r => (ch :: r.1, r.2)
    else if ch = ')' then
      if depth = 0 then some ([], s) else (matchParen (depth - 1) s).map fun r => (ch :: r.1, r.2)
    else (matchParen depth s).map fun r => (ch :: r.1, r.2)

/-- `\bname`, in any case: what stands behind it. -/
def keyword (name : Text) (prev : Option Char) (s : Text) : Option Text :=
  if prev.all (fun c => !isWordChar c) ∧ (s.take name.length).map Char.toUpper = name then
    some (s.drop name.length)
  else none

/-- `\b` behind a word. -/
def wordEnds (s : Text) : Bool := s.head?.all fun c => !isWordChar c

/-- `\bname\s*\(`: what stands behind the parenthesis. -/
def callAt (name : Text) (prev : Option Char) (s : Text) : Option Text :=
  match (keyword name prev s).map fun r => r.dropWhile isSpace with
  | some ('(' :: inner) => some inner
  | _ => none

def findCall (name : Text) (rewrite : Text → Text) (prev : Option Char) (s : Text) : Found :=
  match callAt name prev s with
  | none => .nothing
  | some inner =>
    match matchParen 0 inner with
    | none => .stop
    | some (argList, rest) => .hit (s.length - rest.length) (rewrite argList)

def rewriteCall (seg name : Text) (rewrite : Text → Text) : Text := scan (findCall name rewrite) seg

def isNullKey (key : Text) : Bool := toUpperCase (trim key) == "NULL".toList

/-- `NAME(argList)`: what a call becomes that is not rewritten. -/
def unchanged (name argList : Text) : Text := name ++ "(".toList ++ argList ++ ")".toList

def rewriteNvl2 (argList : Text) : Text :=
  match splitArgs argList with
  | [a, b, c] => "(CASE WHEN ".toList ++ trim a ++ " IS NOT NULL THEN ".toList ++ trim b ++
      " ELSE ".toList ++ trim c ++ " END)".toList
  | _ => unchanged "NVL2".toList argList

/-- The loop over the pairs of a `DECODE`. -/
def whens (expr : Text) : List Text → List Text
  | key :: val :: rest =>
    (if isNullKey (trim key) then
      "WHEN ".toList ++ expr ++ " IS NULL THEN ".toList ++ trim val
    else "WHEN ".toList ++ expr ++ " = ".toList ++ trim key ++ " THEN ".toList ++ trim val) ::
      whens expr rest
  | _ => []

def rewriteDecode (argList : Text) : Text :=
  match splitArgs argList with
  | expr :: rest =>
    if rest.length < 2 then unchanged "DECODE".toList argList
    else
      let odd := decide (rest.length % 2 = 1)
      let elseClause := if odd then trim (rest.getLast?.getD []) else "NULL".toList
      let pairs := if odd then rest.dropLast else rest
      "CASE ".toList ++ List.intercalate " ".toList (whens (trim expr) pairs) ++
        " ELSE ".toList ++ elseClause ++ " END".toList
  | [] => unchanged "DECODE".toList argList

/-- `/^\x01VSKSTR\d+\x02$/`, and the number in it. -/
def fmtRef (s : Text) : Option Nat :=
  match placeholderAt s with
  | some (n, []) => some n
  | _ => none

/-- `fmt.slice(1, -1).replace(/''/g, "'")`. -/
def fmtInner (fmt : Text) : Text :=
  scan (fun _ s => if startsWith s "''".toList then .hit 2 ['\''] else .nothing)
    (fmt.drop 1).dropLast

/-- `convertFormat(fmtInner).replace(/'/g, "''")`. -/
def converted (fmt : Text) : Text :=
  (convertFormat (fmtInner fmt)).flatMap fun c => if c = '\'' then "''".toList else [c]

/-- The rewrite of `TO_DATE` and of `TO_CHAR`, which differ in the function they call. -/
def rewriteDate (name target : Text) (literals : List Text) (argList : Text) : Text :=
  match splitArgs argList with
  | [val, ref] =>
    match (fmtRef (trim ref)).bind fun n => literals[n]? with
    | none => unchanged name argList
    | some [] => unchanged name argList
    | some (c :: fmt) => target ++ "(".toList ++ trim val ++ ", '".toList ++
        converted (c :: fmt) ++ "')".toList
  | _ => unchanged name argList

/-! ## 5. The expressions without arguments -/

/-- `/\b(FROM)\s+DUAL\b/gi`. -/
def findFromDual (prev : Option Char) (s : Text) : Found :=
  match keyword "FROM".toList prev s with
  | none => .nothing
  | some r =>
    if r.head?.any isSpace then
      match keyword "DUAL".toList (some ' ') (r.dropWhile isSpace) with
      | some rest =>
        if wordEnds rest then
          .hit (s.length - rest.length) (s.take 4 ++ " (SELECT 'X' AS DUMMY) AS DUAL".toList)
        else .nothing
      | none => .nothing
    else .nothing

/-- `/\bname\b/gi`. -/
def findWord (name replacement : Text) (prev : Option Char) (s : Text) : Found :=
  match keyword name prev s with
  | some rest => if wordEnds rest then .hit name.length replacement else .nothing
  | none => .nothing

/-- `/\bNVL\s*\(/gi`. -/
def findNvl (prev : Option Char) (s : Text) : Found :=
  match callAt "NVL".toList prev s with
  | some inner => .hit (s.length - inner.length) "COALESCE(".toList
  | none => .nothing

/-- `/\bWHERE\s+ROWNUM\s*op\s*(\d+)\s*(?=$|\)|;)/gi`. -/
def findRownum (op : Text) (limit : Text → Text) (prev : Option Char) (s : Text) : Found :=
  match keyword "WHERE".toList prev s with
  | none => .nothing
  | some r =>
    if r.head?.any isSpace then
      match keyword "ROWNUM".toList (some ' ') (r.dropWhile isSpace) with
      | none => .nothing
      | some r =>
        let r := r.dropWhile isSpace
        if startsWith r op then
          let r := (r.drop op.length).dropWhile isSpace
          let n := r.takeWhile Char.isDigit
          let rest := (r.dropWhile Char.isDigit).dropWhile isSpace
          if n ≠ [] ∧ rest.head?.all (fun c => c == ')' || c == ';') then
            .hit (s.length - rest.length) ("LIMIT ".toList ++ limit n)
          else .nothing
        else .nothing
    else .nothing

/-- `parseInt(n, 10) - 1`, as it is printed. -/
def oneLess (n : Text) : Text :=
  match Nat.ofDigitChars 10 n 0 with
  | 0 => "-1".toList
  | k + 1 => Nat.toDigits 10 k

/-! ## 6. The translation -/

def rewriteSegment (seg : Text) (literals : List Text) : Text :=
  let out := scan findFromDual seg
  let out := scan (findWord "SYSDATE".toList "CURRENT_TIMESTAMP".toList) out
  let out := scan (findWord "SYSTIMESTAMP".toList "CURRENT_TIMESTAMP".toList) out
  let out := scan findNvl out
  let out := rewriteCall out "NVL2".toList rewriteNvl2
  let out := rewriteCall out "DECODE".toList rewriteDecode
  let out := rewriteCall out "TO_DATE".toList
    (rewriteDate "TO_DATE".toList "strptime".toList literals)
  let out := rewriteCall out "TO_CHAR".toList
    (rewriteDate "TO_CHAR".toList "strftime".toList literals)
  let out := scan (findRownum "<=".toList id) out
  scan (findRownum "<".toList oneLess) out

def translate (sql : Text) : Text :=
  let m := maskStrings sql
  unmaskStrings (rewriteSegment m.masked m.literals) m.literals

end Veesker.Shim
