/-
  File:      Veesker/Export/InsertRead.lean
  Subject:   WHAT THE INSERT STATEMENTS SAY, read as Oracle reads names and literals.

  * `readOracle` -- a literal's value; an empty text is NULL, a text has at most `limit` bytes, a
    number lies in the range of NUMBER, a date in the years 1 to 9999;
  * `reads_insertValue` -- what the literal of a cell is read as;
  * **`toInsertSql_denotes_iff`**: the text is split into one statement a row, each read as the row's
    values, if and only if every cell is kept.
  * `toInsertSql_milliseconds` -- a date with milliseconds.
-/
import Veesker.Export.Insert
import Veesker.Sandbox.ColumnTypes
import Veesker.Text.Runs

namespace Veesker.Export

open Format Sandbox Sidecar Splitter List

/-! ## 1. Reading a literal -/

/-- What a literal says. A numeral is the number its column makes of it; a date with its time is in
    millionths of a second. -/
inductive OracleValue where
  | null
  | number (token : Text)
  | text (s : Text)
  | moment (micro : Int)
  deriving DecidableEq

/-- The text up to the quote that closes it, and what is behind. -/
def readOracleText : Text → Option (Text × Text)
  | [] => none
  | '\'' :: '\'' :: r => (readOracleText r).map fun (s, t) => ('\'' :: s, t)
  | '\'' :: r => some ([], r)
  | c :: r => (readOracleText r).map fun (s, t) => (c :: s, t)

/-- The exponent behind a number's `e`. -/
def exponentOf (token : Text) : Int :=
  match token.dropWhile fun c => c != 'e' && c != 'E' with
  | _ :: '-' :: digits => -(Nat.ofDigitChars 10 digits 0 : Int)
  | _ :: '+' :: digits => Nat.ofDigitChars 10 digits 0
  | _ :: digits => Nat.ofDigitChars 10 digits 0
  | [] => 0

/-- The number of a token, its sign aside, is the first of these by ten to the power of the second. -/
def scaled (token : Text) : Nat × Int :=
  let mantissa := token.takeWhile fun c => c != 'e' && c != 'E'
  let whole := (mantissa.takeWhile (· != '.')).filter Char.isDigit
  let fraction := (mantissa.dropWhile (· != '.')).drop 1
  (Nat.ofDigitChars 10 (whole ++ fraction) 0, exponentOf token - fraction.length)

/-- Zero, or from `10 ^ -130` up to `10 ^ 126`: the numbers of a NUMBER. -/
def inNumberRange (token : Text) : Bool :=
  let (m, e) := scaled token
  m == 0 || 10 ^ (-(e + 130)).toNat ≤ m * 10 ^ (e + 130).toNat &&
    m * 10 ^ (e - 126).toNat < 10 ^ (126 - e).toNat

/-- A moment whose year has four digits and is not the year zero. -/
def readOracleMoment (t : Text) : Option Int :=
  if (t.take 4).all Char.isDigit && t.take 4 != "0000".toList && t[4]? == some '-' then readMoment t
  else none

/-- A day, as the format `YYYY-MM-DD` reads it. -/
def readOracleDay (t : Text) : Option Int := readOracleMoment (t ++ " 00:00".toList)

def readOracleToken (token : Text) : Option OracleValue :=
  if token = "NULL".toList then some .null
  else if isNumber token && inNumberRange token then some (.number token)
  else none

/-- The literal a text begins with, and what is behind it. -/
def readOracle (limit : Nat) (t : Text) : Option (OracleValue × Text) :=
  if startsWith t ['\''] then do
    let (s, r) ← readOracleText (t.drop 1)
    if s = [] then some (.null, r)
    else if limit < byteLength s then none
    else some (.text s, r)
  else if startsWith t "TO_DATE('".toList then do
    let (s, r) ← readOracleText (t.drop 9)
    if startsWith r ",'YYYY-MM-DD')".toList then
      (readOracleDay s).map fun micro => (.moment micro, r.drop 14)
    else none
  else if startsWith t "TIMESTAMP '".toList then do
    let (s, r) ← readOracleText (t.drop 11)
    (readOracleMoment s).map fun micro => (.moment micro, r)
  else
    (readOracleToken (t.takeWhile isTokenChar)).map fun v => (v, t.dropWhile isTokenChar)

/-! ## 2. Reading a statement -/

/-- The text behind a word. -/
def behindWord (w t : Text) : Option Text := if startsWith t w then some (t.drop w.length) else none

/-- A quoted name, and what is behind it. -/
def readQuotedName : Text → Option (Text × Text)
  | '"' :: t =>
    match t.dropWhile (· != '"') with
    | [] => none
    | _ :: r => some (t.takeWhile (· != '"'), r)
  | _ => none

section

variable {α : Type}

/-- Items with commas between them, up to the parenthesis behind them; the first argument bounds
    their number. -/
def readItems (read : Text → Option (α × Text)) : Nat → Text → Option (List α × Text)
  | 0, _ => none
  | n + 1, t => do
    let (x, t) ← read t
    match trimStart t with
    | ',' :: t => (readItems read n (trimStart t)).map fun (xs, t) => (x :: xs, t)
    | ')' :: t => some ([x], t)
    | _ => none

/-- A list in parentheses. -/
def readList (read : Text → Option (α × Text)) : Text → Option (List α × Text)
  | '(' :: t => if startsWith t [')'] then some ([], t.drop 1) else readItems read t.length t
  | _ => none

end

structure Insert where
  table : Text
  columns : List Text
  values : List OracleValue
  deriving DecidableEq

def readInsert (limit : Nat) (t : Text) : Option Insert := do
  let t ← behindWord "INSERT INTO ".toList t
  let (table, t) ← readQuotedName t
  let (columns, t) ← readList readQuotedName (trimStart t)
  let t ← behindWord "VALUES ".toList (trimStart t)
  let (values, t) ← readList (readOracle limit) t
  if t = [] then some ⟨table, columns, values⟩ else none

section

variable {ν : Type} {N : Numbers ν}

/-- A literal's value is the value of the cell. -/
def OracleValue.DenotesCell : OracleValue → Cell N → Prop
  | .null, .null => True
  | .number token, .number n => N.read token = n
  | .text s, .string s' => s = s'
  | .moment micro, .date (some time) => micro = time * 1000
  | _, _ => False

/-- A number that printing keeps and that is in range; a text that is not empty and fits a literal; a
    whole second of the years 1 to 9999. -/
def Cell.Kept (limit : Nat) : Cell N → Prop
  | .number n => N.Exact n ∧ inNumberRange (N.text n) = true
  | .string s => s ≠ [] ∧ byteLength s ≤ limit
  | .date (some time) =>
    1 ≤ (civilDate (time / 86400000)).1 ∧ (civilDate (time / 86400000)).1 ≤ 9999 ∧
      (time : Int) % 1000 = 0
  | .date none => False
  | _ => True

end

/-! ## 3. Lists -/

/-- The text `w` is read as a whole, and as `g`, in front of a comma or a parenthesis. -/
def Reads {α : Type} (read : Text → Option (α × Text)) (w : Text) (g : Option α) : Prop :=
  (∃ c t, w = c :: t ∧ isSpace c = false ∧ c ≠ ')') ∧
    ∀ r, r.head? = some ',' ∨ r.head? = some ')' → read (w ++ r) = g.map fun v => (v, r)

section

variable {α : Type} {read : Text → Option (α × Text)}

/-- A list begins with its first item. -/
theorem intercalate_head (w : Text) (ws : List Text) (r : Text) :
    ∃ y, List.intercalate ", ".toList (w :: ws) ++ r = w ++ y := by
  cases ws with
  | nil => exact ⟨r, by rw [intercalate_singleton]⟩
  | cons x ws =>
    rw [intercalate_cons_cons, append_assoc, append_assoc]
    exact ⟨_, rfl⟩

/-- Behind a comma and a space. -/
theorem trimStart_items {w : Text} {g : Option α} (h : Reads read w g) (ws : List Text) (r : Text) :
    trimStart (' ' :: (List.intercalate ", ".toList (w :: ws) ++ r)) =
      List.intercalate ", ".toList (w :: ws) ++ r := by
  obtain ⟨y, hy⟩ := intercalate_head w ws r
  obtain ⟨⟨c, t, rfl, hc, -⟩, -⟩ := h
  rw [hy, trimStart_cons_space (by decide)]
  exact dropWhile_cons_of_neg (by simp [hc])

theorem readItems_intercalate {ws : List Text} {gs : List (Option α)}
    (h : List.Forall₂ (Reads read) ws gs) (hne : ws ≠ []) {n : Nat} (hn : ws.length ≤ n) (r : Text) :
    readItems read n (List.intercalate ", ".toList ws ++ ')' :: r) =
      (gs.mapM id).map fun vs => (vs, r) := by
  induction h generalizing n with
  | nil => exact absurd rfl hne
  | @cons w g ws gs hw hws ih =>
    obtain ⟨n, rfl⟩ : ∃ k, n = k + 1 := ⟨n - 1, by rw [length_cons] at hn; omega⟩
    cases hws with
    | nil =>
      rw [intercalate_singleton, readItems, hw.2 _ (.inr rfl)]
      cases g with
      | none => rfl
      | some v => rfl
    | @cons x g' ws gs hx hws =>
      have hlength : (x :: ws).length ≤ n := by
        rw [length_cons] at hn
        omega
      have hrest := ih (by simp) hlength
      have hread := hw.2 (", ".toList ++ (List.intercalate ", ".toList (x :: ws) ++ ')' :: r)) (.inl rfl)
      rw [intercalate_cons_cons, append_assoc, append_assoc, readItems, hread,
        mapM_cons]
      cases g with
      | none => rfl
      | some v =>
        show (readItems read n (trimStart (' ' :: (List.intercalate ", ".toList (x :: ws) ++
          ')' :: r)))).map _ = _
        rw [trimStart_items hx, hrest]
        cases (g' :: gs).mapM id with
        | none => rfl
        | some vs => rfl

/-- As many characters as items, at least. -/
theorem length_intercalate {ws : List Text} {gs : List (Option α)}
    (h : List.Forall₂ (Reads read) ws gs) : ws.length ≤ (List.intercalate ", ".toList ws).length := by
  induction h with
  | nil => exact Nat.le_refl 0
  | @cons w g ws gs hw hws ih =>
    obtain ⟨⟨c, t, rfl, -, -⟩, -⟩ := hw
    cases hws with
    | nil => simp
    | cons hx hws =>
      rw [intercalate_cons_cons]
      simp only [length_cons, length_append] at ih ⊢
      omega

/-- **A list in parentheses is read item by item.** -/
theorem readList_intercalate {ws : List Text} {gs : List (Option α)}
    (h : List.Forall₂ (Reads read) ws gs) (r : Text) :
    readList read ('(' :: (List.intercalate ", ".toList ws ++ ')' :: r)) =
      (gs.mapM id).map fun vs => (vs, r) := by
  cases h with
  | nil => rfl
  | @cons w g ws gs hw hws =>
    have hstart : ¬ startsWith (List.intercalate ", ".toList (w :: ws) ++ ')' :: r) [')'] = true := by
      obtain ⟨y, hy⟩ := intercalate_head w ws (')' :: r)
      obtain ⟨⟨c, t, rfl, -, hc⟩, -⟩ := hw
      rw [hy]
      simp [startsWith, Ne.symm hc]
    have hlength := length_intercalate (.cons hw hws)
    rw [readList, if_neg hstart]
    refine readItems_intercalate (.cons hw hws) (by simp) ?_ r
    rw [length_append]
    omega

end

/-! ## 4. Names, texts and tokens -/

theorem readQuotedName_quoteName {name : Text} (h : '"' ∉ name) (r : Text) :
    readQuotedName (quoteName name ++ r) = some (name, r) := by
  have hplain : ∀ c ∈ name, (c != '"') = true := by
    intro c hc
    have hne : c ≠ '"' := fun he => h (he ▸ hc)
    simp [hne]
  have hdrop : (name ++ ['"'] ++ r).dropWhile (· != '"') = '"' :: r := by
    rw [append_assoc, dropWhile_append_of_pos hplain]
    rfl
  have htake : (name ++ ['"'] ++ r).takeWhile (· != '"') = name := by
    rw [append_assoc, takeWhile_append_of_pos hplain]
    exact append_nil name
  rw [quoteName, cons_append, readQuotedName, hdrop, htake]

theorem reads_quoteName {name : Text} (h : '"' ∉ name) :
    Reads readQuotedName (quoteName name) (some name) :=
  ⟨⟨'"', _, rfl, by decide, by decide⟩, fun r _ => readQuotedName_quoteName h r⟩

theorem readOracleText_doubled (s : Text) {r : Text} (hr : r.head? ≠ some '\'') :
    readOracleText (doubleQuotes s ++ '\'' :: r) = some (s, r) := by
  induction s with
  | nil =>
    cases r with
    | nil => rfl
    | cons c r =>
      have hc : c ≠ '\'' := fun h => hr (h ▸ rfl)
      exact readOracleText.eq_3 _ fun t ht => hc (List.cons.inj ht).1
  | cons c s ih =>
    rw [doubleQuotes_cons]
    by_cases hc : c = '\''
    · subst hc
      rw [if_pos rfl]
      show readOracleText ('\'' :: '\'' :: (doubleQuotes s ++ '\'' :: r)) = _
      rw [readOracleText, ih]
      rfl
    · rw [if_neg hc, singleton_append, cons_append, readOracleText, ih]
      · rfl
      · exact fun _ h _ => hc h
      · exact hc

theorem readOracleText_plain {s : Text} (hs : '\'' ∉ s) {r : Text} (hr : r.head? ≠ some '\'') :
    readOracleText (s ++ '\'' :: r) = some (s, r) := by
  have h := readOracleText_doubled s hr
  rwa [doubleQuotes_plain hs] at h

theorem unquoted {r : Text} (hr : r.head? = some ',' ∨ r.head? = some ')') :
    r.head? ≠ some '\'' := by
  rcases hr with h | h <;> simp [h]

/-- What a text's literal is read as. -/
def textRead (limit : Nat) (s : Text) : Option OracleValue :=
  if s = [] then some .null else if limit < byteLength s then none else some (.text s)

theorem reads_insertText (limit : Nat) (s : Text) :
    Reads (readOracle limit) (insertText s) (textRead limit s) := by
  refine ⟨⟨'\'', _, rfl, by decide, by decide⟩, fun r hr => ?_⟩
  have hquoted := readOracleText_doubled s (unquoted hr)
  have htext : insertText s ++ r = '\'' :: (doubleQuotes s ++ '\'' :: r) := by simp [insertText]
  rw [htext, readOracle, if_pos (by simp [startsWith]), drop_succ_cons, drop_zero, hquoted]
  simp only [Option.bind_eq_bind, Option.bind_some, textRead]
  split
  · rfl
  split
  · rfl
  · rfl

theorem space_of_token {c : Char} (hc : isTokenChar c = true) : isSpace c = false := by
  by_contra hs
  have hspace : isSpace c = true := by simpa using hs
  simp only [isTokenChar, isWordChar_of_space hspace, Bool.false_or, Bool.or_eq_true, beq_iff_eq] at hc
  rcases hc with (rfl | rfl) | rfl <;> exact absurd hspace (by decide)

/-- **A token is read as a whole.** -/
theorem reads_token {limit : Nat} {token : Text} (hne : token ≠ [])
    (hchars : token.all isTokenChar = true) :
    Reads (readOracle limit) token (readOracleToken token) := by
  have hall := all_eq_true.mp hchars
  refine ⟨?_, fun r hr => ?_⟩
  · obtain ⟨c, t, rfl⟩ := exists_cons_of_ne_nil hne
    have hc := hall c mem_cons_self
    refine ⟨c, t, rfl, space_of_token hc, ?_⟩
    rintro rfl
    exact absurd hc (by decide)
  have hhead : ∀ c, r.head? = some c → c = ',' ∨ c = ')' := by
    intro c hc
    rcases hr with hr | hr
    · exact .inl (Option.some.inj (hc.symm.trans hr))
    · exact .inr (Option.some.inj (hc.symm.trans hr))
  obtain ⟨d, t, rfl⟩ : ∃ d t, r = d :: t := by
    cases r with
    | nil => rcases hr with h | h <;> cases h
    | cons d t => exact ⟨d, t, rfl⟩
  have hd : isTokenChar d = false := by rcases hhead d rfl with rfl | rfl <;> decide
  have htake : (token ++ d :: t).takeWhile isTokenChar = token := by
    rw [takeWhile_append_of_pos hall, takeWhile_cons, hd]
    exact append_nil token
  have hdrop : (token ++ d :: t).dropWhile isTokenChar = d :: t := by
    rw [dropWhile_append_of_pos hall, dropWhile_cons, hd]
    rfl
  -- what the other literals begin with does not stand behind a token
  have hnot : ∀ (u v : Text) (c : Char), u.all isTokenChar = true → isTokenChar c = false →
      c ≠ ',' → c ≠ ')' → ¬ startsWith (token ++ d :: t) (u ++ c :: v) = true := by
    intro u v c hu hc hcomma hparen h
    have hhead' := dropWhile_startsWith h hu hc
    rw [hdrop] at hhead'
    exact (hhead c hhead').elim hcomma hparen
  have hquote : ¬ startsWith (token ++ d :: t) ['\''] = true :=
    hnot [] [] '\'' rfl (by decide) (by decide) (by decide)
  have hday : ¬ startsWith (token ++ d :: t) "TO_DATE('".toList = true :=
    hnot "TO_DATE".toList ['\''] '(' (by decide) (by decide) (by decide) (by decide)
  have htime : ¬ startsWith (token ++ d :: t) "TIMESTAMP '".toList = true :=
    hnot "TIMESTAMP".toList ['\''] ' ' (by decide) (by decide) (by decide) (by decide)
  rw [readOracle, if_neg hquote, if_neg hday, if_neg htime, htake, hdrop]

/-! ## 5. Dates -/

theorem readOracleMoment_sign {c : Char} (hc : c.isDigit = false) (t : Text) :
    readOracleMoment (c :: t) = none := by
  rw [readOracleMoment, take_succ_cons, List.all_cons, hc]
  rfl

/-- The first character of a day beyond the years of four digits. -/
theorem dateText_sign {ms : Int}
    (h : ¬ (0 ≤ (civilDate (ms / 86400000)).1 ∧ (civilDate (ms / 86400000)).1 ≤ 9999)) :
    ∃ c t, dateText ms = c :: t ∧ c.isDigit = false := by
  rw [dateText, yearText, if_neg h]
  split
  · exact ⟨'-', _, rfl, rfl⟩
  · exact ⟨'+', _, rfl, rfl⟩

/-- **A moment is read in the years 1 to 9999** and in no other. -/
theorem readOracleMoment_date (ms : Int) (r : Text) : readOracleMoment (dateText ms ++ r) =
    if 1 ≤ (civilDate (ms / 86400000)).1 ∧ (civilDate (ms / 86400000)).1 ≤ 9999 then
      readMoment (dateText ms ++ r) else none := by
  by_cases hfour : 0 ≤ (civilDate (ms / 86400000)).1 ∧ (civilDate (ms / 86400000)).1 ≤ 9999
  · obtain ⟨y, hy⟩ : ∃ y : Nat, (civilDate (ms / 86400000)).1 = y := ⟨_, (Int.toNat_of_nonneg hfour.1).symm⟩
    rw [hy] at hfour ⊢
    have hlength : (padded 4 y).length = 4 := length_padded (by decide) (by omega)
    have hdigits : (padded 4 y).all Char.isDigit = true :=
      all_eq_true.mpr fun c hc => padded_digits hc
    obtain ⟨t, ht⟩ : ∃ t, dateText ms ++ r = padded 4 y ++ '-' :: t := by
      rw [dateText, yearText, hy, if_pos hfour, append_assoc, cons_append]
      exact ⟨_, rfl⟩
    have htake : (dateText ms ++ r).take 4 = padded 4 y := by rw [ht, take_left' hlength]
    have hmark : (dateText ms ++ r)[4]? = some '-' := by
      rw [ht, List.getElem?_append_right (by omega), hlength]
      rfl
    have hzero : padded 4 y = "0000".toList ↔ y = 0 := by
      constructor
      · intro h
        have hvalue := padded_value 4 y
        rw [h] at hvalue
        exact hvalue.symm
      · rintro rfl
        decide
    rw [readOracleMoment, htake, hmark, hdigits]
    by_cases hy0 : y = 0
    · rw [hzero.mpr hy0, if_neg (by decide), if_neg (by omega)]
    · have hne : padded 4 y ≠ "0000".toList := fun h => hy0 (hzero.mp h)
      rw [if_pos (by simpa using hne), if_pos (by omega)]
  · obtain ⟨c, t, ht, hc⟩ := dateText_sign hfour
    rw [if_neg (by omega), ht, cons_append, readOracleMoment_sign hc]

/-- What a date's literal is read as. -/
def dateRead (ms : Int) : Option OracleValue :=
  if 1 ≤ (civilDate (ms / 86400000)).1 ∧ (civilDate (ms / 86400000)).1 ≤ 9999 then
    some (.moment (ms / 1000 * 1000000)) else none

theorem readOracleMoment_cut {ms : Int} (h : ms.natAbs ≤ 8640000000000000) :
    (readOracleMoment (cutMoment ms)).map OracleValue.moment = dateRead ms := by
  obtain ⟨r, hr⟩ : ∃ r, cutMoment ms = dateText ms ++ r := by
    rw [cutMoment_eq h]
    split
    · exact ⟨_, by rw [minuteText, append_assoc]⟩
    · exact ⟨_, by rw [minuteText]⟩
  have hread := readMoment_cut h
  rw [hr] at hread ⊢
  rw [readOracleMoment_date, dateRead, hread]
  split
  · rw [if_neg (by omega), if_neg (by omega)]
    rfl
  · rfl

theorem padded_inj {width a b : Nat} {s t : Text} (hw : 0 < width) (ha : a < 10 ^ width)
    (hb : b < 10 ^ width) (h : padded width a ++ s = padded width b ++ t) : a = b ∧ s = t := by
  obtain ⟨hab, hst⟩ := append_inj h ((length_padded hw ha).trans (length_padded hw hb).symm)
  refine ⟨?_, hst⟩
  rw [← padded_value width a, hab, padded_value]

/-- The time of a moment, from its `T` on. -/
def timeTail (rest : Nat) : Text :=
  'T' :: (padded 2 (rest / 3600000) ++ ':' :: (padded 2 (rest / 60000 % 60) ++ ':' ::
    (padded 2 (rest / 1000 % 60) ++ '.' :: (padded 3 (rest % 1000) ++ ['Z']))))

theorem toISOString_tail (ms : Int) :
    toISOString ms = dateText ms ++ timeTail (ms % 86400000).toNat := by
  rw [toISOString_eq, minuteText, clockText, timeTail]
  simp only [append_assoc, cons_append]

theorem timeTail_midnight {rest : Nat} (hrest : rest < 86400000) :
    timeTail rest = timeTail 0 ↔ rest = 0 := by
  constructor
  · intro h
    simp only [timeTail, List.cons.injEq, true_and] at h
    obtain ⟨hhour, h⟩ := padded_inj (by decide) (by omega) (by decide) h
    obtain ⟨hminute, h⟩ := padded_inj (by decide) (by omega) (by decide) (List.cons.inj h).2
    obtain ⟨hsecond, h⟩ := padded_inj (by decide) (by omega) (by decide) (List.cons.inj h).2
    obtain ⟨hmilli, -⟩ := padded_inj (by decide) (by omega) (by decide) (List.cons.inj h).2
    omega
  · rintro rfl
    rfl

/-- **The test for midnight.** -/
theorem midnight_iff (ms : Int) :
    "T00:00:00.000Z".toList.isSuffixOf (toISOString ms) = true ↔ ms % 86400000 = 0 := by
  have hzero : "T00:00:00.000Z".toList = timeTail 0 := by decide
  have hlength : (timeTail (ms % 86400000).toNat).length = (timeTail 0).length := by
    simp only [timeTail, length_cons, length_append]
    rw [length_padded (by decide) (by omega), length_padded (by decide) (by omega),
      length_padded (by decide) (by omega), length_padded (by decide) (by omega)]
    decide
  have hiff := @timeTail_midnight (ms % 86400000).toNat (by omega)
  rw [isSuffixOf_iff_suffix, toISOString_tail, hzero]
  constructor
  · intro h
    have hsuffix := suffix_of_suffix_length_le h (suffix_append _ _) hlength.ge
    have heq := hiff.mp (hsuffix.eq_of_length hlength.symm).symm
    omega
  · intro h
    rw [hiff.mpr (by omega)]
    exact suffix_append _ _

theorem length_dateText {ms : Int} (h : ms.natAbs ≤ 8640000000000000)
    (hfour : 0 ≤ (civilDate (ms / 86400000)).1 ∧ (civilDate (ms / 86400000)).1 ≤ 9999) :
    (dateText ms).length = 10 := by
  have hlength := length_minuteText h ' '
  rw [if_pos hfour, minuteText, length_append, length_cons, clockText, length_append,
    length_cons, length_padded (by decide) (by omega),
    length_padded (by decide) (by omega)] at hlength
  omega

theorem readOracleDay_midnight {ms : Int} (h : ms.natAbs ≤ 8640000000000000)
    (hmidnight : ms % 86400000 = 0) :
    (readOracleDay ((toISOString ms).take 10)).map OracleValue.moment = dateRead ms := by
  rw [toISOString_tail]
  by_cases hfour : 0 ≤ (civilDate (ms / 86400000)).1 ∧ (civilDate (ms / 86400000)).1 ≤ 9999
  · have hclock : clockText ms = "00:00".toList := by
      rw [clockText, hmidnight]
      decide
    have hread := readMoment_upTo hfour.2 (rfl : readSeconds [] = some (0, 0)) (by decide)
    rw [append_nil, minuteText, hclock] at hread
    rw [take_left' (length_dateText h hfour), readOracleDay, readOracleMoment_date, dateRead]
    split
    · have hsame : ms / 60000 * 60 * 1000000 = ms / 1000 * 1000000 := by omega
      show (readMoment (dateText ms ++ ' ' :: "00:00".toList)).map _ = _
      rw [hread]
      simp only [Nat.cast_zero, add_zero, hsame, Option.map_some]
    · rfl
  · obtain ⟨c, t, ht, hc⟩ := dateText_sign hfour
    rw [ht, dateRead, if_neg (by omega), cons_append, take_succ_cons, readOracleDay,
      cons_append, readOracleMoment_sign hc]
    rfl

/-- **A date's literal**, in both of its forms. -/
theorem reads_insertDate (limit : Nat) (time : Moment) :
    Reads (readOracle limit) (insertDate time) (dateRead time) := by
  rw [insertDate_eq]
  split
  · rename_i hmidnight
    have hplain : '\'' ∉ (toISOString time).take 10 := fun h =>
      toISOString_plain time (mem_of_mem_take h)
    refine ⟨⟨'T', _, rfl, by decide, by decide⟩, fun r hr => ?_⟩
    have hstarts : startsWith ("TO_DATE('".toList ++ ((toISOString time).take 10 ++
        "','YYYY-MM-DD')".toList) ++ r) "TO_DATE('".toList = true := by
      rw [append_assoc]
      exact List.isPrefixOf_iff_prefix.mpr (prefix_append _ _)
    have hdrop : ("TO_DATE('".toList ++ ((toISOString time).take 10 ++
        "','YYYY-MM-DD')".toList) ++ r).drop 9 =
          (toISOString time).take 10 ++ '\'' :: (",'YYYY-MM-DD')".toList ++ r) := by simp
    have hquoted := readOracleText_plain (r := ",'YYYY-MM-DD')".toList ++ r) hplain (by simp)
    have hformat : startsWith (",'YYYY-MM-DD')".toList ++ r) ",'YYYY-MM-DD')".toList = true :=
      List.isPrefixOf_iff_prefix.mpr (prefix_append _ _)
    have hrest : (",'YYYY-MM-DD')".toList ++ r).drop 14 = r := drop_left' rfl
    have hday := readOracleDay_midnight time.2 ((midnight_iff time).mp hmidnight)
    rw [readOracle, if_neg (by simp [startsWith]), if_pos hstarts, hdrop, hquoted]
    simp only [Option.bind_eq_bind, Option.bind_some, hformat, if_true, hrest, ← hday,
      Option.map_map]
    rfl
  · obtain ⟨hplain, -⟩ := cutMoment_plain time.2
    refine ⟨⟨'T', _, rfl, by decide, by decide⟩, fun r hr => ?_⟩
    have hstarts : startsWith ("TIMESTAMP '".toList ++ (cutMoment time ++ ['\'']) ++ r)
        "TIMESTAMP '".toList = true := by
      rw [append_assoc]
      exact List.isPrefixOf_iff_prefix.mpr (prefix_append _ _)
    have hdrop : ("TIMESTAMP '".toList ++ (cutMoment time ++ ['\'']) ++ r).drop 11 =
        cutMoment time ++ '\'' :: r := by simp
    have hquoted := readOracleText_plain hplain (unquoted hr)
    rw [readOracle, if_neg (by simp [startsWith]), if_neg (by simp [startsWith]), if_pos hstarts,
      hdrop, hquoted]
    simp only [Option.bind_eq_bind, Option.bind_some, ← readOracleMoment_cut time.2, Option.map_map]
    rfl

/-! ## 6. Cells -/

section

variable {ν : Type} {N : Numbers ν}

/-- What a cell's literal is read as. -/
def cellRead (limit : Nat) : Cell N → Option OracleValue
  | .null => some .null
  | .number n => if inNumberRange (N.text n) then some (.number (N.text n)) else none
  | .string s => textRead limit s
  | .date (some time) => dateRead time
  | _ => none

theorem reads_number (limit : Nat) (n : { n : ν // N.finite n = true }) :
    Reads (readOracle limit) (N.text n)
      (if inNumberRange (N.text n) then some (.number (N.text n)) else none) := by
  have hnumber := N.number_text n n.2
  have hchars : (N.text n).all isTokenChar = true := all_eq_true.mpr fun c hc =>
    isTokenChar_number (all_eq_true.mp (N.chars_text n n.2) c hc)
  have hnull : N.text n ≠ "NULL".toList := by
    intro h
    rw [h] at hnumber
    exact absurd hnumber (by decide)
  have htoken : readOracleToken (N.text n) =
      if inNumberRange (N.text n) then some (.number (N.text n)) else none := by
    rw [readOracleToken, if_neg hnull, hnumber, Bool.true_and]
  rw [← htoken]
  refine reads_token ?_ hchars
  intro h
  rw [h] at hnumber
  exact absurd hnumber (by decide)

theorem reads_insertValue (limit : Nat) {c : Cell N} (hc : c.HasLiteral) {w : Text}
    (hw : insertValue c = some w) : Reads (readOracle limit) w (cellRead limit c) := by
  cases c with
  | null =>
    cases hw
    exact reads_token (by decide) (by decide)
  | number n =>
    cases hw
    exact reads_number limit n
  | string s =>
    cases hw
    exact reads_insertText limit s
  | date time =>
    obtain ⟨t, rfl, rfl⟩ := Option.map_eq_some_iff.mp hw
    exact reads_insertDate limit t
  | undefined | nan | infinity _ | boolean _ | other _ _ => exact hc.elim

/-- **A cell's literal is the cell's value exactly where the cell is kept.** -/
theorem denotesCell_iff
    (hlost : ∀ n, N.finite n = true → N.read (N.text n) = n → N.Exact n) (limit : Nat) {c : Cell N}
    (hc : c.HasLiteral) : (∃ v, cellRead limit c = some v ∧ v.DenotesCell c) ↔ c.Kept limit := by
  cases c with
  | null => exact iff_of_true ⟨.null, rfl, trivial⟩ trivial
  | number n =>
    constructor
    · intro h
      obtain ⟨v, hv, hd⟩ := h
      rw [cellRead] at hv
      split at hv
      · rename_i hrange
        cases hv
        exact ⟨hlost n n.2 hd, hrange⟩
      · cases hv
    · intro h
      obtain ⟨hexact, hrange⟩ := h
      exact ⟨_, if_pos hrange, N.read_text n hexact⟩
  | string s =>
    constructor
    · intro h
      obtain ⟨v, hv, hd⟩ := h
      rw [cellRead, textRead] at hv
      split at hv
      · obtain rfl := Option.some.inj hv
        exact hd.elim
      split at hv
      · cases hv
      · rename_i hne hlimit
        exact ⟨hne, Nat.le_of_not_lt hlimit⟩
    · intro h
      obtain ⟨hne, hlimit⟩ := h
      refine ⟨.text s, ?_, rfl⟩
      rw [cellRead, textRead, if_neg hne, if_neg (Nat.not_lt.mpr hlimit)]
  | date time =>
    cases time with
    | none =>
      refine iff_of_false ?_ id
      intro h
      obtain ⟨v, hv, -⟩ := h
      cases hv
    | some time =>
      constructor
      · intro h
        obtain ⟨v, hv, hd⟩ := h
        rw [cellRead, dateRead] at hv
        split at hv
        · rename_i hyear
          cases hv
          have hmicro : (time : Int) / 1000 * 1000000 = time * 1000 := hd
          exact ⟨hyear.1, hyear.2, by omega⟩
        · cases hv
      · intro h
        obtain ⟨hfirst, hlast, hwhole⟩ := h
        refine ⟨.moment ((time : Int) / 1000 * 1000000), if_pos ⟨hfirst, hlast⟩, ?_⟩
        show (time : Int) / 1000 * 1000000 = time * 1000
        omega
  | undefined | nan | infinity _ | boolean _ | other _ _ => exact hc.elim

end

/-! ## 7. Statements -/

section

variable {α β : Type}

/-- All results of a partial function, or none. -/
theorem exists_mapM {f : α → Option β} {l : List α} (h : ∀ x ∈ l, ∃ y, f x = some y) :
    ∃ ys, l.mapM f = some ys := by
  induction l with
  | nil => exact ⟨[], rfl⟩
  | cons x l ih =>
    obtain ⟨y, hy⟩ := h x mem_cons_self
    obtain ⟨ys, hys⟩ := ih fun z hz => h z (mem_cons_of_mem x hz)
    exact ⟨y :: ys, by rw [mapM_cons, hy, hys]; rfl⟩

/-- All results of a partial function, each related to its argument. -/
theorem mapM_related_iff {f : α → Option β} {R : β → α → Prop} {l : List α} :
    (∃ ys, l.mapM f = some ys ∧ List.Forall₂ R ys l) ↔ ∀ x ∈ l, ∃ y, f x = some y ∧ R y x := by
  constructor
  · intro h x hx
    obtain ⟨ys, hys, hR⟩ := h
    have hrow := forall₂_mapM hys
    clear hys
    induction hrow with
    | nil => cases hx
    | cons hy _ ih =>
      obtain ⟨hhead, htail⟩ := List.forall₂_cons.mp hR
      rcases mem_cons.mp hx with rfl | hx
      · exact ⟨_, hy, hhead⟩
      · exact ih hx htail
  · intro h
    induction l with
    | nil => exact ⟨[], rfl, .nil⟩
    | cons x l ih =>
      obtain ⟨y, hy, hR⟩ := h x mem_cons_self
      obtain ⟨ys, hys, hall⟩ := ih fun z hz => h z (mem_cons_of_mem x hz)
      exact ⟨y :: ys, by rw [mapM_cons, hy, hys]; rfl, .cons hR hall⟩

end

theorem behindWord_append (w t : Text) : behindWord w (w ++ t) = some t := by
  have hstarts : startsWith (w ++ t) w = true :=
    List.isPrefixOf_iff_prefix.mpr (prefix_append w t)
  rw [behindWord, if_pos hstarts, drop_left]

theorem mapM_some_id (l : List Text) : (l.map some).mapM id = some l := by
  induction l with
  | nil => rfl
  | cons x l ih =>
    rw [map_cons, mapM_cons, ih]
    rfl

/-- **A statement is read as its table, its columns and its values.** -/
theorem readInsert_insertStatement (limit : Nat) {tableName : Text} {columns ws : List Text}
    (htable : '"' ∉ tableName) (hcolumns : ∀ c ∈ columns, '"' ∉ c) {gs : List (Option OracleValue)}
    (h : List.Forall₂ (Reads (readOracle limit)) ws gs) :
    readInsert limit (insertStatement tableName columns ws) =
      (gs.mapM id).map fun values => ⟨tableName, columns, values⟩ := by
  have hnames : List.Forall₂ (Reads readQuotedName) (columns.map quoteName) (columns.map some) :=
    List.forall₂_map_left_iff.mpr (List.forall₂_map_right_iff.mpr
      (List.forall₂_same.mpr fun c hc => reads_quoteName (hcolumns c hc)))
  have hcols := readList_intercalate hnames
    (" VALUES (".toList ++ (List.intercalate ", ".toList ws ++ [')']))
  rw [mapM_some_id] at hcols
  have hvalues := readList_intercalate h []
  have hspace : ∀ c : Char, isSpace c = false → ∀ t, trimStart (' ' :: c :: t) = c :: t := by
    intro c hc t
    rw [trimStart_cons_space (by decide)]
    exact dropWhile_cons_of_neg (by simp [hc])
  have hopen : ∀ t, trimStart (" (".toList ++ t) = '(' :: t := hspace '(' (by decide)
  have hword : ∀ t, trimStart (" VALUES (".toList ++ t) = "VALUES ".toList ++ '(' :: t :=
    fun t => hspace 'V' (by decide) _
  have hparen : ∀ t, ") VALUES (".toList ++ t = ')' :: (" VALUES (".toList ++ t) := fun _ => rfl
  unfold readInsert insertStatement
  simp only [behindWord_append, Option.bind_eq_bind, Option.bind_some, readQuotedName_quoteName htable, hopen, hparen,
    hcols, Option.map_some, hword, hvalues]
  cases gs.mapM id with
  | none => rfl
  | some vs => rfl

section

variable {ν : Type} {N : Numbers ν}

/-- The statement inserts the row into the columns of the table. -/
def Inserts (limit : Nat) (tableName : Text) (columns : List Text) (row : List (Cell N)) (t : Text) :
    Prop :=
  ∃ values, readInsert limit t = some ⟨tableName, columns, values⟩ ∧
    List.Forall₂ OracleValue.DenotesCell values row

theorem inserts_iff (hlost : ∀ n, N.finite n = true → N.read (N.text n) = n → N.Exact n)
    (limit : Nat) {tableName : Text} {columns : List Text} (htable : '"' ∉ tableName)
    (hcolumns : ∀ c ∈ columns, '"' ∉ c) {row : List (Cell N)} (hcells : ∀ c ∈ row, c.HasLiteral)
    {ws : List Text} (hws : insertRow row = some ws) :
    Inserts limit tableName columns row (insertStatement tableName columns ws) ↔
      ∀ c ∈ row, c.Kept limit := by
  have hreads : List.Forall₂ (Reads (readOracle limit)) ws (row.map (cellRead limit)) := by
    have hrow := forall₂_mapM hws
    clear hws
    induction hrow with
    | nil => exact .nil
    | cons hc _ ih =>
      exact .cons (reads_insertValue limit (hcells _ mem_cons_self) hc)
        (ih fun c hr => hcells c (mem_cons_of_mem _ hr))
  have hmap : ∀ l : List (Cell N), (l.map (cellRead limit)).mapM id = l.mapM (cellRead limit) := by
    intro l
    induction l with
    | nil => rfl
    | cons c l ih =>
      rw [map_cons, mapM_cons, mapM_cons, ih]
      rfl
  have hread := readInsert_insertStatement limit htable hcolumns hreads
  rw [hmap] at hread
  have hvalues : Inserts limit tableName columns row (insertStatement tableName columns ws) ↔
      ∃ vs, row.mapM (cellRead limit) = some vs ∧ List.Forall₂ OracleValue.DenotesCell vs row := by
    rw [Inserts, hread]
    simp only [Option.map_eq_some_iff, Insert.mk.injEq, true_and, exists_eq_right]
  rw [hvalues, mapM_related_iff]
  constructor
  · exact fun h c hc => (denotesCell_iff hlost limit (hcells c hc)).mp (h c hc)
  · exact fun h c hc => (denotesCell_iff hlost limit (hcells c hc)).mpr (h c hc)

theorem insertValue_kept {limit : Nat} {c : Cell N} (hc : c.HasLiteral) (h : c.Kept limit) :
    ∃ w, insertValue c = some w := by
  cases c with
  | null | number _ | string _ => exact ⟨_, rfl⟩
  | date time =>
    cases time with
    | none => exact h.elim
    | some time => exact ⟨_, rfl⟩
  | undefined | nan | infinity _ | boolean _ | other _ _ => exact hc.elim

/-- **Split, and read: the text is one statement a row, in order and without an error, each with the
    row's values, exactly where every cell is kept.** -/
theorem toInsertSql_denotes_iff (N : Numbers ν)
    (hlost : ∀ n, N.finite n = true → N.read (N.text n) = n → N.Exact n) (limit : Nat)
    (tableName : Text) (columns : List Text) (rows : List (List (Cell N))) (htable : '"' ∉ tableName)
    (hcolumns : ∀ c ∈ columns, '"' ∉ c) (hcells : ∀ row ∈ rows, ∀ c ∈ row, c.HasLiteral) :
    (∃ out statements, toInsertSql tableName columns rows = some out ∧
      splitSql out = ⟨statements, []⟩ ∧
      List.Forall₂ (Inserts limit tableName columns) rows statements) ↔
      ∀ row ∈ rows, ∀ c ∈ row, c.Kept limit := by
  have hstatements : ∀ {l : List (List (Cell N))} {values : List (List Text)},
      (∀ row ∈ l, ∀ c ∈ row, c.HasLiteral) → List.Forall₂ (fun row ws => insertRow row = some ws) l values →
      (List.Forall₂ (Inserts limit tableName columns) l
        (values.map (insertStatement tableName columns)) ↔ ∀ row ∈ l, ∀ c ∈ row, c.Kept limit) := by
    intro l values hl h
    induction h with
    | nil => exact iff_of_true .nil nofun
    | cons hws _ ih =>
      rw [map_cons, List.forall₂_cons, forall_mem_cons,
        inserts_iff hlost limit htable hcolumns (hl _ mem_cons_self) hws,
        ih fun row hr => hl row (mem_cons_of_mem _ hr)]
  constructor
  · intro h
    obtain ⟨out, statements, hout, hsplit, hinserts⟩ := h
    cases hvalues : rows.mapM insertRow with
    | none =>
      rw [toInsertSql_eq, hvalues] at hout
      cases hout
    | some values =>
      have hall := splitSql_toInsertSql htable hcolumns hcells hvalues
      rw [hout, Option.map_some, hsplit] at hall
      obtain ⟨rfl, -⟩ := SplitResult.mk.inj (Option.some.inj hall)
      exact (hstatements hcells (forall₂_mapM hvalues)).mp hinserts
  · intro h
    obtain ⟨values, hvalues⟩ := exists_mapM fun row hrow =>
      exists_mapM fun c hc => insertValue_kept (hcells row hrow c hc) (h row hrow c hc)
    have hall := splitSql_toInsertSql htable hcolumns hcells hvalues
    obtain ⟨out, hout, hsplit⟩ := Option.map_eq_some_iff.mp hall
    exact ⟨out, _, hout, hsplit, (hstatements hcells (forall₂_mapM hvalues)).mpr h⟩

/-- A text with a quote, a semicolon and a line of a slash, and a day. -/
theorem toInsertSql_denotes_slash : ∃ out statements,
    toInsertSql ['T'] [['A'], ['B']] [[(.string "it's;\n/\n".toList : Cell intNumbers), .number ⟨-7, rfl⟩],
      [.null, .date (some ⟨1777507200000, by decide⟩)]] = some out ∧
    splitSql out = ⟨statements, []⟩ ∧
    List.Forall₂ (Inserts 4000 ['T'] [['A'], ['B']])
      [[(.string "it's;\n/\n".toList : Cell intNumbers), .number ⟨-7, rfl⟩],
        [.null, .date (some ⟨1777507200000, by decide⟩)]] statements := by
  refine (toInsertSql_denotes_iff intNumbers (fun _ _ _ => trivial) 4000 ['T'] [['A'], ['B']] _
    (by decide) (by decide) ?_).mpr ?_
  · simp [Cell.HasLiteral]
  · have hday : 1 ≤ (civilDate (1777507200000 / 86400000)).1 ∧
        (civilDate (1777507200000 / 86400000)).1 ≤ 9999 ∧ (1777507200000 : Int) % 1000 = 0 := by decide
    have htext : "it's;\n/\n".toList ≠ [] ∧ byteLength "it's;\n/\n".toList ≤ 4000 := by decide
    have hnumber : intNumbers.Exact (-7) ∧ inNumberRange (intNumbers.text (-7)) = true :=
      ⟨trivial, by decide⟩
    simp only [forall_mem_cons, Cell.Kept]
    exact ⟨⟨htext, hnumber, nofun⟩, ⟨trivial, hday, nofun⟩, nofun⟩

/-- **A date with milliseconds** is written as the second it lies in. -/
theorem toInsertSql_milliseconds :
    toInsertSql ['T'] [['A']] [[(.date (some ⟨1777550400123, by decide⟩) : Cell intNumbers)]] =
      some "INSERT INTO \"T\" (\"A\") VALUES (TIMESTAMP '2026-04-30 12:00:00');\n".toList ∧
    ¬ ∃ out statements,
      toInsertSql ['T'] [['A']] [[(.date (some ⟨1777550400123, by decide⟩) : Cell intNumbers)]] =
        some out ∧ splitSql out = ⟨statements, []⟩ ∧
      List.Forall₂ (Inserts 4000 ['T'] [['A']])
        [[(.date (some ⟨1777550400123, by decide⟩) : Cell intNumbers)]] statements := by
  have hout : toInsertSql ['T'] [['A']] [[(.date (some ⟨1777550400123, by decide⟩) :
      Cell intNumbers)]] =
        some "INSERT INTO \"T\" (\"A\") VALUES (TIMESTAMP '2026-04-30 12:00:00');\n".toList := by decide
  have hsplit : splitSql "INSERT INTO \"T\" (\"A\") VALUES (TIMESTAMP '2026-04-30 12:00:00');\n".toList =
      ⟨["INSERT INTO \"T\" (\"A\") VALUES (TIMESTAMP '2026-04-30 12:00:00')".toList], []⟩ := by decide
  have hread : readInsert 4000
      "INSERT INTO \"T\" (\"A\") VALUES (TIMESTAMP '2026-04-30 12:00:00')".toList =
        some ⟨['T'], [['A']], [.moment 1777550400000000]⟩ := by decide
  refine ⟨hout, ?_⟩
  intro h
  obtain ⟨out, statements, h1, h2, h3⟩ := h
  obtain rfl := Option.some.inj (hout.symm.trans h1)
  obtain ⟨rfl, -⟩ := SplitResult.mk.inj (hsplit.symm.trans h2)
  obtain ⟨⟨values, hvalues, hrow⟩, -⟩ := List.forall₂_cons.mp h3
  obtain ⟨-, -, rfl⟩ := Insert.mk.inj (Option.some.inj (hread.symm.trans hvalues))
  have hmoment : (1777550400000000 : Int) = 1777550400123 * 1000 := (List.forall₂_cons.mp hrow).1
  exact absurd hmoment (by decide)

end

end Veesker.Export
