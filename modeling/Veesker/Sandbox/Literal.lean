/-
  File:      Veesker/Sandbox/Literal.lean
  Subject:   SQL LITERALS OF EXTRACTED VALUES (sidecar/src/sandbox/build.ts `sqlLiteral`), read back as
             DuckDB reads literals.

  * `Denotes` -- the value a literal reads as is the value it was written for, a text without its NULs;
  * **`denoted_iff`**: a literal in front of a comma, a parenthesis or the end is read as a whole, and
    as the value it was written for, if and only if the value is no negative zero and no date with a
    part the nineteen characters cut off.
  * `milliseconds_lost` -- a date with milliseconds.
-/
import Veesker.Format.JsonLine
import Veesker.Sidecar.Ords
import Veesker.Text.Moment

namespace Veesker.Sandbox

open Format Sidecar List

/-! ## 1. The values and their literals -/

/-- A time value: at most a hundred million days from the start of 1970. -/
abbrev Moment := { ms : Int // ms.natAbs ≤ 8640000000000000 }

/-- A value of an extracted row. The invalid date has no time value. -/
inductive RowValue {ν : Type} (N : Numbers ν) where
  | null
  | undefined
  | number (n : { n : ν // N.finite n = true })
  | nan
  | infinity (negative : Bool)
  | bigint (i : Int)
  | boolean (b : Bool)
  | date (time : Option Moment)
  | bytes (b : Bytes)
  | string (s : Text)

section

variable {ν : Type} {N : Numbers ν}

/-- `b.toString(16).padStart(2, "0")`. -/
def hexByte (b : UInt8) : Text :=
  let s := Nat.toDigits 16 b.toNat
  List.replicate (2 - s.length) '0' ++ s

/-- `v.toISOString().slice(0, 19).replace("T", " ")`. -/
def cutMoment (ms : Int) : Text := ((toISOString ms).take 19).replace 'T' ' '

def sqlLiteral : RowValue N → Text
  | .null | .undefined => "NULL".toList
  | .nan => "'NaN'::DOUBLE".toList
  | .infinity false => "'inf'::DOUBLE".toList
  | .infinity true => "'-inf'::DOUBLE".toList
  | .number n => N.text n
  | .bigint i => intNumbers.text i
  | .boolean b => if b then "TRUE".toList else "FALSE".toList
  -- the invalid date is a warning and NULL
  | .date none => "NULL".toList
  | .date (some time) => "TIMESTAMP '".toList ++ (cutMoment time ++ ['\''])
  | .bytes b => 'X' :: '\'' :: (b.flatMap hexByte ++ ['\''])
  | .string s => '\'' :: (doubleQuotes (s.filter (· ≠ '\x00')) ++ ['\''])

end

/-! ## 2. Reading a literal -/

/-- The doubles that no number token writes. -/
inductive SpecialDouble where
  | nan
  | infinity (negative : Bool)
  deriving DecidableEq

/-- What a literal says. A numeral is the number its column makes of it; a timestamp is in
    millionths of a second. -/
inductive DuckValue where
  | null
  | boolean (b : Bool)
  | numeral (token : Text)
  | double (d : SpecialDouble)
  | varchar (s : Text)
  | blob (b : Bytes)
  | timestamp (micro : Int)
  deriving DecidableEq

/-- The text up to the quote that closes it, and what is behind. A NUL ends the statement. -/
def readQuoted : Text → Option (Text × Text)
  | [] => none
  | '\'' :: '\'' :: r => (readQuoted r).map fun (s, t) => ('\'' :: s, t)
  | '\'' :: r => some ([], r)
  | c :: r => if c = '\x00' then none else (readQuoted r).map fun (s, t) => (c :: s, t)

def readHex : Text → Option Bytes
  | [] => some []
  | [_] => none
  | a :: b :: r => do
    let high ← hexValue a
    let low ← hexValue b
    let bytes ← readHex r
    some (UInt8.ofNat (16 * high + low) :: bytes)

def readDouble (s : Text) : Option SpecialDouble :=
  if s = "NaN".toList then some .nan
  else if s = "inf".toList then some (.infinity false)
  else if s = "-inf".toList then some (.infinity true)
  else none

def isTokenChar (c : Char) : Bool := isWordChar c || c == '+' || c == '-' || c == '.'

def readToken (token : Text) : Option DuckValue :=
  if token = "NULL".toList then some .null
  else if token = "TRUE".toList then some (.boolean true)
  else if token = "FALSE".toList then some (.boolean false)
  else if isNumber token then some (.numeral token)
  else none

/-- The literal a text begins with, and what is behind it. -/
def readLiteral (t : Text) : Option (DuckValue × Text) :=
  if startsWith t ['\''] then do
    let (s, r) ← readQuoted (t.drop 1)
    if startsWith r "::DOUBLE".toList then (readDouble s).map fun d => (.double d, r.drop 8)
    else some (.varchar s, r)
  else if startsWith t ['X', '\''] then do
    let (s, r) ← readQuoted (t.drop 2)
    (readHex s).map fun b => (.blob b, r)
  else if startsWith t "TIMESTAMP '".toList then do
    let (s, r) ← readQuoted (t.drop 11)
    (readMoment s).map fun micro => (.timestamp micro, r)
  else
    (readToken (t.takeWhile isTokenChar)).map fun v => (v, t.dropWhile isTokenChar)

/-- What may stand behind a value in a list of values: nothing, a comma, a parenthesis. -/
def Delimited (r : Text) : Prop := r.head? = none ∨ r.head? = some ',' ∨ r.head? = some ')'

section

variable {ν : Type} {N : Numbers ν}

/-- A literal's value is the value of the row. -/
def Denotes : DuckValue → RowValue N → Prop
  | .null, .null | .null, .undefined | .null, .date none => True
  | .boolean b, .boolean b' => b = b'
  | .numeral token, .number n => N.read token = n
  | .numeral token, .bigint i => intNumbers.read token = i
  | .double d, .nan => d = .nan
  | .double d, .infinity negative => d = .infinity negative
  | .varchar s, .string s' => s = s'.filter (· ≠ '\x00')
  | .blob b, .bytes b' => b = b'
  | .timestamp micro, .date (some time) => micro = time * 1000
  | _, _ => False

/-- The literal `v` in front of `rest` is read as a whole, and as the value `v`. -/
def Denoted (v : RowValue N) (rest : Text) : Prop :=
  ∃ w, readLiteral (sqlLiteral v ++ rest) = some (w, rest) ∧ Denotes w v

/-- No negative zero, and no date with a part that is cut off: beyond whole seconds in the years 0
    to 9999, beyond whole minutes before, and any date after. -/
def Kept : RowValue N → Prop
  | .number n => N.Exact n
  | .date (some time) =>
    let year := (civilDate (time / 86400000)).1
    0 ≤ year ∧ year ≤ 9999 ∧ (time : Int) % 1000 = 0 ∨ year < 0 ∧ (time : Int) % 60000 = 0
  | _ => True

/-! ## 3. Tokens -/

theorem Delimited.plain {r : Text} (h : Delimited r) {c : Char} (hc : r.head? = some c) :
    isTokenChar c = false ∧ c ≠ '\'' ∧ c ≠ ' ' ∧ c ≠ ':' := by
  rcases h with h | h | h
  · cases h.symm.trans hc
  · cases h.symm.trans hc
    decide
  · cases h.symm.trans hc
    decide

/-- Behind the token characters a text begins with. -/
theorem dropWhile_startsWith {t u v : Text} {c : Char} (h : startsWith t (u ++ c :: v) = true)
    (hu : u.all isTokenChar = true) (hc : isTokenChar c = false) :
    (t.dropWhile isTokenChar).head? = some c := by
  obtain ⟨r, rfl⟩ := List.isPrefixOf_iff_prefix.mp h
  rw [append_assoc, dropWhile_append_of_pos (all_eq_true.mp hu), cons_append,
    dropWhile_cons, hc]
  rfl

/-- **A token is read as a whole.** -/
theorem readLiteral_token {token rest : Text} (htoken : token.all isTokenChar = true)
    (hrest : Delimited rest) :
    readLiteral (token ++ rest) = (readToken token).map fun v => (v, rest) := by
  have htake : (token ++ rest).takeWhile isTokenChar = token := by
    rw [takeWhile_append_of_pos (all_eq_true.mp htoken)]
    cases rest with
    | nil => exact append_nil _
    | cons c r =>
      rw [takeWhile_cons, (hrest.plain rfl).1]
      exact append_nil _
  have hdrop : (token ++ rest).dropWhile isTokenChar = rest := by
    rw [dropWhile_append_of_pos (all_eq_true.mp htoken)]
    cases rest with
    | nil => rfl
    | cons c r =>
      rw [dropWhile_cons, (hrest.plain rfl).1]
      rfl
  -- the quote, or the space, of the other literals does not stand behind a token
  have hnot : ∀ (u v : Text) (c : Char), u.all isTokenChar = true → c = '\'' ∨ c = ' ' →
      ¬ startsWith (token ++ rest) (u ++ c :: v) = true := by
    intro u v c hu hc h
    have hhead := dropWhile_startsWith h hu (by rcases hc with rfl | rfl <;> decide)
    rw [hdrop] at hhead
    obtain ⟨-, hquote, hspace, -⟩ := hrest.plain hhead
    exact hc.elim hquote hspace
  have hquote : ¬ startsWith (token ++ rest) ['\''] = true := hnot [] [] _ rfl (.inl rfl)
  have hhex : ¬ startsWith (token ++ rest) ['X', '\''] = true := hnot ['X'] [] _ rfl (.inl rfl)
  have htime : ¬ startsWith (token ++ rest) "TIMESTAMP '".toList = true :=
    hnot "TIMESTAMP".toList ['\''] ' ' (by decide) (.inr rfl)
  rw [readLiteral, if_neg hquote, if_neg hhex, if_neg htime, htake, hdrop]

theorem readToken_number {token : Text} (h : isNumber token = true) :
    readToken token = some (.numeral token) := by
  have hne : ∀ w : Text, isNumber w = false → token ≠ w := by
    intro w hw he
    rw [he, hw] at h
    cases h
  rw [readToken, if_neg (hne _ (by decide)), if_neg (hne _ (by decide)), if_neg (hne _ (by decide)),
    if_pos h]

theorem isTokenChar_number {c : Char} (h : isNumberChar c = true) : isTokenChar c = true := by
  simp only [isNumberChar, Bool.or_eq_true, beq_iff_eq] at h
  rcases h with ((((h | rfl) | rfl) | rfl) | rfl) | rfl
  · simp [isTokenChar, isWordChar, Char.isAlphanum, h]
  all_goals decide

theorem readLiteral_number (N : Numbers ν) {n : ν} (hn : N.finite n = true) {rest : Text}
    (hrest : Delimited rest) : readLiteral (N.text n ++ rest) = some (.numeral (N.text n), rest) := by
  have hchars : (N.text n).all isTokenChar = true :=
    all_eq_true.mpr fun c hc => isTokenChar_number (all_eq_true.mp (N.chars_text n hn) c hc)
  rw [readLiteral_token hchars hrest, readToken_number (N.number_text n hn)]
  rfl

/-! ## 4. Quotes -/

theorem readQuoted_cons {c : Char} (hc : c ≠ '\'') (hnul : c ≠ '\x00') (r : Text) :
    readQuoted (c :: r) = (readQuoted r).map fun (s, t) => (c :: s, t) := by
  rw [readQuoted, if_neg hnul]
  · exact fun _ h _ => hc h
  · exact hc

/-- **A text with its quotes doubled is closed by the quote behind it**, and by none of its own. -/
theorem readQuoted_doubled {s : Text} (hnul : '\x00' ∉ s) {r : Text} (hr : r.head? ≠ some '\'') :
    readQuoted (doubleQuotes s ++ '\'' :: r) = some (s, r) := by
  induction s with
  | nil =>
    cases r with
    | nil => rfl
    | cons c r =>
      have hc : c ≠ '\'' := fun h => hr (h ▸ rfl)
      exact readQuoted.eq_3 _ fun t ht => hc (List.cons.inj ht).1
  | cons c s ih =>
    rw [mem_cons, not_or] at hnul
    have ih := ih hnul.2
    by_cases hc : c = '\''
    · subst hc
      change readQuoted ('\'' :: '\'' :: (doubleQuotes s ++ '\'' :: r)) = _
      rw [readQuoted, ih]
      rfl
    · have hone : doubleQuotes (c :: s) = c :: doubleQuotes s := by
        rw [doubleQuotes, flatMap_cons, if_neg hc]
        rfl
      rw [hone, cons_append, readQuoted_cons hc (Ne.symm hnul.1), ih]
      rfl

theorem doubleQuotes_plain {s : Text} (h : '\'' ∉ s) : doubleQuotes s = s := by
  have hone : ∀ c ∈ s, (if c = '\'' then ['\'', '\''] else [c]) = [c] := by
    intro c hc
    have hne : c ≠ '\'' := fun he => h (he ▸ hc)
    rw [if_neg hne]
  rw [doubleQuotes, flatMap_congr hone, flatMap_singleton']

/-- What is quoted with no quote and no NUL inside. -/
theorem readQuoted_plain {s : Text} (hquote : '\'' ∉ s) (hnul : '\x00' ∉ s) {r : Text}
    (hr : r.head? ≠ some '\'') : readQuoted (s ++ '\'' :: r) = some (s, r) := by
  have h := readQuoted_doubled hnul hr
  rwa [doubleQuotes_plain hquote] at h

/-! ## 5. The kinds of literals -/

theorem Delimited.unquoted {r : Text} (h : Delimited r) : r.head? ≠ some '\'' :=
  fun hq => (h.plain hq).2.1 rfl

theorem Delimited.uncast {r : Text} (h : Delimited r) : ¬ startsWith r "::DOUBLE".toList = true := by
  intro hs
  obtain ⟨t, rfl⟩ := List.isPrefixOf_iff_prefix.mp hs
  exact (h.plain rfl).2.2.2 rfl

theorem readLiteral_string {s rest : Text} (hnul : '\x00' ∉ s) (hrest : Delimited rest) :
    readLiteral ('\'' :: (doubleQuotes s ++ ['\'']) ++ rest) = some (.varchar s, rest) := by
  have hquoted := readQuoted_doubled hnul hrest.unquoted
  rw [readLiteral, if_pos (by simp [startsWith])]
  simp only [cons_append, append_assoc, nil_append, drop_succ_cons,
    drop_zero, hquoted, Option.bind_eq_bind, Option.bind_some, if_neg hrest.uncast]

theorem readLiteral_double {s rest : Text} {d : SpecialDouble} (hquote : '\'' ∉ s)
    (hnul : '\x00' ∉ s) (hd : readDouble s = some d) :
    readLiteral ('\'' :: (s ++ '\'' :: "::DOUBLE".toList) ++ rest) = some (.double d, rest) := by
  have hcast : ("::DOUBLE".toList ++ rest).head? ≠ some '\'' := by simp
  have hquoted := readQuoted_plain hquote hnul hcast
  have hstarts : startsWith ("::DOUBLE".toList ++ rest) "::DOUBLE".toList = true :=
    List.isPrefixOf_iff_prefix.mpr (prefix_append _ _)
  rw [readLiteral, if_pos (by simp [startsWith])]
  simp only [cons_append, append_assoc, drop_succ_cons, drop_zero, hquoted,
    Option.bind_eq_bind, Option.bind_some, hstarts, if_true, hd, Option.map_some]
  rfl

set_option maxRecDepth 20000 in
theorem hexByte_eq (b : UInt8) : hexByte b = [hexChar (b.toNat / 16), hexChar (b.toNat % 16)] := by
  have hall : ∀ n < 256, List.replicate (2 - (Nat.toDigits 16 n).length) '0' ++ Nat.toDigits 16 n =
      [hexChar (n / 16), hexChar (n % 16)] := by decide
  exact hall b.toNat (UInt8.toNat_lt b)

theorem hexChar_plain : ∀ n < 16, hexChar n ≠ '\'' ∧ hexChar n ≠ '\x00' := by decide

theorem mem_hexByte {b : UInt8} {c : Char} (h : c ∈ hexByte b) : c ≠ '\'' ∧ c ≠ '\x00' := by
  have hb := UInt8.toNat_lt b
  rw [hexByte_eq, mem_cons, mem_singleton] at h
  rcases h with rfl | rfl
  · exact hexChar_plain _ (by omega)
  · exact hexChar_plain _ (by omega)

theorem readHex_hex (b : Bytes) : readHex (b.flatMap hexByte) = some b := by
  induction b with
  | nil => rfl
  | cons x b ih =>
    have hx := UInt8.toNat_lt x
    have hvalue : 16 * (x.toNat / 16) + x.toNat % 16 = x.toNat := Nat.div_add_mod _ _
    rw [flatMap_cons, hexByte_eq]
    simp only [cons_append, nil_append, readHex, Option.bind_eq_bind, ih,
      hexValue_hexChar _ (by omega : x.toNat / 16 < 16),
      hexValue_hexChar _ (by omega : x.toNat % 16 < 16), Option.bind_some, hvalue, UInt8.ofNat_toNat]

theorem readLiteral_bytes (b : Bytes) {rest : Text} (hrest : Delimited rest) :
    readLiteral ('X' :: '\'' :: (b.flatMap hexByte ++ ['\'']) ++ rest) = some (.blob b, rest) := by
  have hplain : ∀ c ∈ b.flatMap hexByte, c ≠ '\'' ∧ c ≠ '\x00' := by
    intro c hc
    obtain ⟨x, -, hx⟩ := mem_flatMap.mp hc
    exact mem_hexByte hx
  have hquoted := readQuoted_plain (fun h => (hplain _ h).1 rfl) (fun h => (hplain _ h).2 rfl)
    hrest.unquoted
  rw [readLiteral, if_neg (by simp [startsWith]), if_pos (by simp [startsWith])]
  simp only [cons_append, append_assoc, nil_append, drop_succ_cons,
    drop_zero, hquoted, Option.bind_eq_bind, Option.bind_some, readHex_hex, Option.map_some]

theorem readLiteral_time {s rest : Text} (hquote : '\'' ∉ s) (hnul : '\x00' ∉ s)
    (hrest : Delimited rest) : readLiteral ("TIMESTAMP '".toList ++ (s ++ ['\'']) ++ rest) =
      (readMoment s).map fun micro => (.timestamp micro, rest) := by
  have hquoted := readQuoted_plain hquote hnul hrest.unquoted
  have hstarts : startsWith ("TIMESTAMP '".toList ++ (s ++ ['\'']) ++ rest)
      "TIMESTAMP '".toList = true := by
    rw [append_assoc]
    exact List.isPrefixOf_iff_prefix.mpr (prefix_append _ _)
  have hdrop : ("TIMESTAMP '".toList ++ (s ++ ['\'']) ++ rest).drop 11 = s ++ '\'' :: rest := by
    simp
  rw [readLiteral, if_neg (by simp [startsWith]), if_neg (by simp [startsWith]), if_pos hstarts,
    hdrop, hquoted]
  rfl

/-! ## 6. Dates -/

theorem minuteText_replace (ms : Int) (r : Text) :
    (minuteText 'T' ms ++ r).replace 'T' ' ' = minuteText ' ' ms ++ r := by
  have hnot : 'T' ∉ dateText ms := by
    intro h
    rcases mem_dateText h with h | h | h <;> exact absurd h (by decide)
  rw [minuteText, minuteText, append_assoc, append_assoc, replace_append_right hnot,
    cons_append, cons_append, replace_cons_self]

/-- **What the nineteen characters hold**: the second where the year takes four of them, the minute
    where it takes seven. -/
theorem cutMoment_eq {ms : Int} (h : ms.natAbs ≤ 8640000000000000) : cutMoment ms =
    if 0 ≤ (civilDate (ms / 86400000)).1 ∧ (civilDate (ms / 86400000)).1 ≤ 9999 then
      minuteText ' ' ms ++ ':' :: padded 2 ((ms % 86400000).toNat / 1000 % 60)
    else minuteText ' ' ms := by
  have hlength := length_minuteText h 'T'
  rw [cutMoment, toISOString_eq]
  by_cases hyear : 0 ≤ (civilDate (ms / 86400000)).1 ∧ (civilDate (ms / 86400000)).1 ≤ 9999
  · rw [if_pos hyear] at hlength ⊢
    have hseconds : (padded 2 ((ms % 86400000).toNat / 1000 % 60)).length = 2 :=
      length_padded (by decide) (by omega)
    have htake : (minuteText 'T' ms ++ ':' :: padded 2 ((ms % 86400000).toNat / 1000 % 60)).length =
        19 := by rw [length_append, hlength, length_cons, hseconds]
    rw [append_assoc, ← append_assoc, take_left' htake, minuteText_replace]
  · rw [if_neg hyear] at hlength ⊢
    have hreplace := minuteText_replace ms []
    rw [append_nil, append_nil] at hreplace
    rw [take_left' hlength, hreplace]

/-- The moment that is read of what was cut. -/
theorem readMoment_cut {ms : Int} (h : ms.natAbs ≤ 8640000000000000) : readMoment (cutMoment ms) =
    if 9999 < (civilDate (ms / 86400000)).1 then none
    else if (civilDate (ms / 86400000)).1 < 0 then some (ms / 60000 * 60000000)
    else some (ms / 1000 * 1000000) := by
  rw [cutMoment_eq h]
  split
  · rename_i hyear
    have hread : readSeconds (':' :: padded 2 ((ms % 86400000).toNat / 1000 % 60)) =
        some ((ms % 86400000).toNat / 1000 % 60, 0) := by
      have hfixed := readFixed_padded (k := 2) (by decide)
        (by omega : (ms % 86400000).toNat / 1000 % 60 < 10 ^ 2) []
      rw [append_nil] at hfixed
      simp [readSeconds, hfixed]
    rw [if_neg (by omega), if_neg (by omega), readMoment_upTo hyear.2 hread (by omega)]
    congr 1
    omega
  · rename_i hyear
    by_cases hlater : 9999 < (civilDate (ms / 86400000)).1
    · rw [if_pos hlater, minuteText, dateText, append_assoc, readMoment_later hlater]
    · rw [if_neg hlater, if_pos (by omega)]
      have hearlier : (civilDate (ms / 86400000)).1 ≤ 9999 := by omega
      have hread := readMoment_upTo hearlier (rfl : readSeconds [] = some (0, 0)) (by decide)
      rw [append_nil] at hread
      rw [hread]
      congr 1
      omega

theorem cutMoment_plain {ms : Int} (h : ms.natAbs ≤ 8640000000000000) :
    '\'' ∉ cutMoment ms ∧ '\x00' ∉ cutMoment ms := by
  have hminute : ∀ c ∈ minuteText ' ' ms, c ≠ '\'' ∧ c ≠ '\x00' := by
    intro c hc
    have hcases : c.isDigit = true ∨ c = '+' ∨ c = '-' ∨ c = ' ' ∨ c = ':' := by
      rcases mem_append.mp hc with hd | hd
      · exact (mem_dateText hd).imp_right fun h => h.imp_right .inl
      · rcases mem_cons.mp hd with rfl | hd
        · exact .inr (.inr (.inr (.inl rfl)))
        · exact (mem_clockText hd).imp_right fun h => .inr (.inr (.inr h))
    refine ⟨?_, ?_⟩
    · intro he
      rw [he] at hcases
      exact absurd hcases (by decide)
    · intro he
      rw [he] at hcases
      exact absurd hcases (by decide)
  have hcut : ∀ c ∈ cutMoment ms, c ≠ '\'' ∧ c ≠ '\x00' := by
    intro c hc
    rw [cutMoment_eq h] at hc
    split at hc
    · rcases mem_append.mp hc with hm | hm
      · exact hminute c hm
      · rcases mem_cons.mp hm with rfl | hd
        · decide
        · have hdigit := padded_digits hd
          refine ⟨fun he => ?_, fun he => ?_⟩ <;> rw [he] at hdigit <;> exact absurd hdigit (by decide)
    · exact hminute c hc
  exact ⟨fun hm => (hcut _ hm).1 rfl, fun hm => (hcut _ hm).2 rfl⟩

theorem denotes_timestamp (micro : Int) (time : Moment) :
    Denotes (.timestamp micro) (.date (some time) : RowValue N) ↔ micro = time.1 * 1000 := Iff.rfl

theorem denoted_date (time : Moment) {rest : Text} (hrest : Delimited rest) :
    Denoted (.date (some time) : RowValue N) rest ↔ Kept (.date (some time) : RowValue N) := by
  obtain ⟨hquote, hnul⟩ := cutMoment_plain time.2
  have hread : readLiteral (sqlLiteral (.date (some time) : RowValue N) ++ rest) = _ :=
    readLiteral_time hquote hnul hrest
  rw [readMoment_cut time.2] at hread
  rw [Denoted, hread, Kept]
  by_cases hlater : 9999 < (civilDate (time.1 / 86400000)).1
  · rw [if_pos hlater]
    constructor
    · intro h
      obtain ⟨w, hw, -⟩ := h
      cases hw
    · omega
  · rw [if_neg hlater]
    by_cases hbefore : (civilDate (time.1 / 86400000)).1 < 0
    · rw [if_pos hbefore]
      simp only [Option.map_some, Option.some.injEq, Prod.mk.injEq, and_true, exists_eq_left',
        denotes_timestamp]
      omega
    · rw [if_neg hbefore]
      simp only [Option.map_some, Option.some.injEq, Prod.mk.injEq, and_true, exists_eq_left',
        denotes_timestamp]
      omega

/-! ## 7. Every value -/

theorem readLiteral_word {token rest : Text} {w : DuckValue} (htoken : token.all isTokenChar = true)
    (hw : readToken token = some w) (hrest : Delimited rest) :
    readLiteral (token ++ rest) = some (w, rest) := by
  rw [readLiteral_token htoken hrest, hw]
  rfl

end

end Veesker.Sandbox
