/-
  File:      Veesker/Sandbox/TypeMap.lean
  Subject:   THE TYPES OF A BUILT TABLE (engine/src/oracle-shim/types.ts `mapOracleType`).

  * `opens_iff`, `readDigits_iff`, ... -- what the parts of the expressions match;
  * `mapOracleType_plain`, `mapOracleType_several` -- the type of a text that is no single word, by
    its first word.
-/
import Veesker.Sandbox.TypeGuard
import Veesker.Text.Runs

namespace Veesker.Sandbox

open Format Vsk List

/-! ## 1. The map -/

def DUCKDB_PASSTHROUGH : List Text :=
  ["INTEGER", "INT", "INT4", "BIGINT", "INT8", "LONG", "SMALLINT", "INT2", "SHORT", "TINYINT",
    "INT1", "HUGEINT", "UINTEGER", "UBIGINT", "USMALLINT", "UTINYINT", "DOUBLE", "FLOAT8", "REAL",
    "FLOAT4", "BOOLEAN", "BOOL", "LOGICAL", "TEXT", "STRING", "TIME", "INTERVAL", "UUID", "JSON",
    "TIMESTAMP_S", "TIMESTAMP_MS", "TIMESTAMP_NS", "TIMESTAMPTZ", "BIT",
    "BITSTRING"].map String.toList

/-- `^w\s*\(`, and what follows it. -/
def opens (w t : Text) : Option Text :=
  if startsWith t w then readChar '(' (t.drop w.length) else none

/-- `\s*(\d+)`, and what follows it. -/
def readDigits (t : Text) : Option (Text × Text) :=
  let t := t.dropWhile isSpace
  let digits := t.takeWhile Char.isDigit
  if digits.isEmpty then none else some (digits, t.dropWhile Char.isDigit)

/-- `\s*\)$`. -/
def closes (t : Text) : Bool := readChar ')' t == some []

/-- `/^DECIMAL\s*\(\s*\d+\s*(?:,\s*\d+\s*)?\)$/.test(t)`. -/
def isDecimal (t : Text) : Bool :=
  ((opens "DECIMAL".toList t).bind readDigits).any fun (_, t) =>
    closes t || ((readChar ',' t).bind readDigits).any fun (_, t) => closes t

/-- `/^VARCHAR\s*\(\s*\d+\s*\)$/.test(t)`. -/
def isSizedVarchar (t : Text) : Bool :=
  ((opens "VARCHAR".toList t).bind readDigits).any fun (_, t) => closes t

/-- `/^NUMBER\s*\(\s*(\d+)\s*(?:,\s*(-?\d+)\s*)?\)$/`: the precision as it is written, and the
    scale. -/
def numberMatch (t : Text) : Option (Text × Int) := do
  let (precision, t) ← (opens "NUMBER".toList t).bind readDigits
  if closes t then some (precision, 0)
  else
    let t ← readChar ',' t
    let (rawScale, t) ← readInt (t.dropWhile isSpace)
    if closes t then some (precision, rawScale) else none

/-- `/WITH\s+(LOCAL\s+)?TIME\s+ZONE\s*$/.test(t)`. -/
def endsInTimeZone (t : Text) : Bool :=
  t.tails.any fun s => ((Pattern.all [.word "WITH".toList, .spaces,
    .opt (.all [.word "LOCAL".toList, .spaces]), .word "TIME".toList, .spaces,
    .word "ZONE".toList, .spaces0]).ends ⟨none, s⟩).any fun k => k.rest.isEmpty

/-- `/^TIMESTAMP(\s*\(\s*\d+\s*\))?\s*$/.test(t)`. -/
def isTimestamp (t : Text) : Bool :=
  startsWith t "TIMESTAMP".toList &&
    (let t := t.drop 9
     t.all isSpace || ((readChar '(' t).bind readDigits).any fun (_, t) =>
       (readChar ')' t).any (·.all isSpace))

def mapOracleType (oracleType : Text) : Text :=
  let t := toUpperCase (trim oracleType)
  if t.isEmpty then "VARCHAR".toList
  else if DUCKDB_PASSTHROUGH.contains t then t
  else if isDecimal t then t
  else if isSizedVarchar t then "VARCHAR".toList
  else match numberMatch t with
  | some (precision, rawScale) =>
    "DECIMAL(".toList ++ precision ++ ',' :: intText (max 0 rawScale) ++ [')']
  | none =>
    if t = "NUMBER".toList then "DECIMAL(38,18)".toList
    -- `/^NVARCHAR2?\s*\(/`
    else if (opens "NVARCHAR".toList t).isSome ∨ (opens "NVARCHAR2".toList t).isSome then
      "VARCHAR".toList
    else if (opens "VARCHAR2".toList t).isSome then "VARCHAR".toList
    else if (opens "CHAR".toList t).isSome then "VARCHAR".toList
    else if t = "CLOB".toList ∨ t = "NCLOB".toList then "VARCHAR".toList
    else if t = "DATE".toList then "TIMESTAMP".toList
    else if endsInTimeZone t then "TIMESTAMPTZ".toList
    else if isTimestamp t then "TIMESTAMP".toList
    else if t = "BLOB".toList ∨ t = "BFILE".toList ∨ (opens "RAW".toList t).isSome then
      "BLOB".toList
    else if t = "BINARY_FLOAT".toList then "FLOAT".toList
    else if t = "BINARY_DOUBLE".toList then "DOUBLE".toList
    else if t = "FLOAT".toList ∨ (opens "FLOAT".toList t).isSome then "DOUBLE".toList
    else if t = "LONG".toList then "VARCHAR".toList
    else if isLongRaw t then "BLOB".toList
    else if startsWith t "INTERVAL".toList then "VARCHAR".toList
    else "VARCHAR".toList

example : mapOracleType "number (10 , -2)".toList = "DECIMAL(10,0)".toList := by decide

/-! ## 2. What the parts match -/

/-- White space, or nothing. -/
def Gap (b : Text) : Prop := ∀ c ∈ b, isSpace c = true

/-- The first word of a text. -/
def leading (t : Text) : Text := t.takeWhile isWordChar

theorem Gap.not_word {b : Text} (hb : Gap b) : ∀ c ∈ b, isWordChar c = false :=
  fun c hc => isWordChar_of_space (hb c hc)

variable {c : Char}

theorem dropWhile_gap {b : Text} (hb : Gap b) (hc : isSpace c = false) (r : Text) :
    (b ++ c :: r).dropWhile isSpace = c :: r := by
  rw [dropWhile_append_of_pos hb, dropWhile_cons_of_neg (by simp [hc])]

theorem readChar_iff (hc : isSpace c = false) {t r : Text} :
    readChar c t = some r ↔ ∃ b, Gap b ∧ t = b ++ c :: r := by
  constructor
  · intro h
    refine ⟨t.takeWhile isSpace, fun d hd => mem_takeWhile_imp hd, ?_⟩
    have hsplit := takeWhile_append_dropWhile (p := isSpace) (l := t)
    unfold readChar at h
    split at h
    · next d u hd =>
      split at h
      · next hdc =>
        cases h
        rw [hd, hdc] at hsplit
        exact hsplit.symm
      · cases h
    · cases h
  · intro h
    obtain ⟨b, hb, rfl⟩ := h
    simp only [readChar, dropWhile_gap hb hc, if_true]

theorem closes_iff {t : Text} : closes t = true ↔ ∃ b, Gap b ∧ t = b ++ [')'] := by
  rw [closes, beq_iff_eq, readChar_iff (by decide)]

theorem readChar_gap {b : Text} (hb : Gap b) {d : Char} (hd : isSpace d = false) (c : Char)
    (r : Text) : readChar c (b ++ d :: r) = if d = c then some r else none := by
  simp only [readChar, dropWhile_gap hb hd]

theorem opens_iff {w t r : Text} :
    opens w t = some r ↔ ∃ b, Gap b ∧ t = w ++ (b ++ '(' :: r) := by
  unfold opens startsWith
  constructor
  · intro h
    split at h
    · next hw =>
      obtain ⟨u, rfl⟩ := List.isPrefixOf_iff_prefix.mp hw
      rw [drop_left, readChar_iff (by decide)] at h
      obtain ⟨b, hb, rfl⟩ := h
      exact ⟨b, hb, rfl⟩
    · cases h
  · intro h
    obtain ⟨b, hb, rfl⟩ := h
    rw [if_pos (List.isPrefixOf_iff_prefix.mpr (prefix_append _ _)), drop_left,
      readChar_iff (by decide)]
    exact ⟨b, hb, rfl⟩

/-- A word with no word character behind it is the first word. -/
theorem leading_append {w t : Text} (hw : w.all isWordChar = true)
    (ht : t.head?.all fun c => !isWordChar c) : leading (w ++ t) = w := by
  rw [leading, takeWhile_append_of_pos (all_eq_true.mp hw)]
  cases t with
  | nil => simp
  | cons c t =>
    have hc : isWordChar c = false := by simpa using ht
    rw [takeWhile_cons_of_neg (by simp [hc]), append_nil]

theorem Gap.head_all {b : Text} (hb : Gap b) (hc : isWordChar c = false) (r : Text) :
    (b ++ c :: r).head?.all fun c => !isWordChar c := by
  cases b with
  | nil => simp [hc]
  | cons d b => simp [hb.not_word d mem_cons_self]

theorem opens_none {w t : Text} (hw : w.all isWordChar = true) (h : leading t ≠ w) :
    opens w t = none := by
  rw [Option.eq_none_iff_forall_not_mem]
  intro r hr
  obtain ⟨b, hb, rfl⟩ := opens_iff.mp hr
  exact h (leading_append hw (hb.head_all (by decide) r))

theorem startsWith_leading {w : Text} (hw : w.all isWordChar = true) (t : Text) :
    startsWith (leading t) w = startsWith t w := by
  induction w generalizing t with
  | nil => rfl
  | cons c w ih =>
    cases t with
    | nil => rfl
    | cons d t =>
      rw [List.all_cons, Bool.and_eq_true] at hw
      obtain ⟨hc, hw⟩ := hw
      have hrest := ih hw t
      unfold leading startsWith at hrest ⊢
      by_cases hd : isWordChar d = true
      · rw [takeWhile_cons_of_pos hd, isPrefixOf_cons_cons, isPrefixOf_cons_cons,
          hrest]
      · have hcd : c ≠ d := fun he => hd (he ▸ hc)
        rw [takeWhile_cons_of_neg hd]
        simp [List.isPrefixOf, hcd]

/-- Decimal digits that say `n`. -/
def Digits (n : Nat) (t : Text) : Prop :=
  t ≠ [] ∧ (∀ c ∈ t, c.isDigit = true) ∧ Nat.ofDigitChars 10 t 0 = n

theorem isDigit_word (h : c.isDigit = true) : isWordChar c = true := by
  simp [isWordChar, Char.isAlphanum, h]

theorem isDigit_solid (h : c.isDigit = true) : isSpace c = false := by
  by_contra hs
  have hw := isDigit_word h
  rw [isWordChar_of_space (by simpa using hs)] at hw
  cases hw

theorem digits_natText (n : Nat) : Digits n (natText n) :=
  ⟨Nat.toDigits_ne_nil, fun _ hc => Nat.isDigit_of_mem_toDigits (by decide) (by decide) hc,
    Nat.ofDigitChars_ten_toDigits⟩

section Numerals

variable {b d r : Text} {n : Nat}

theorem Digits.split (hd : Digits n d) (hr : r.head?.all fun c => !c.isDigit) :
    (d ++ r).takeWhile Char.isDigit = d ∧ (d ++ r).dropWhile Char.isDigit = r := by
  rw [takeWhile_append_of_pos hd.2.1, dropWhile_append_of_pos hd.2.1]
  cases r with
  | nil => simp
  | cons c r =>
    have hc : c.isDigit = false := by simpa using hr
    simp [hc]

theorem Digits.behind_gap (hd : Digits n d) (hb : Gap b) (r : Text) :
    (b ++ (d ++ r)).dropWhile isSpace = d ++ r := by
  obtain ⟨c, d, rfl⟩ := exists_cons_of_ne_nil hd.1
  exact dropWhile_gap hb (isDigit_solid (hd.2.1 c mem_cons_self)) (d ++ r)

theorem readDigits_digits (hd : Digits n d) (hb : Gap b) (hr : r.head?.all fun c => !c.isDigit) :
    readDigits (b ++ (d ++ r)) = some (d, r) := by
  obtain ⟨htake, hdrop⟩ := hd.split hr
  have hne : d.isEmpty = false := by
    obtain ⟨c, d, rfl⟩ := exists_cons_of_ne_nil hd.1
    rfl
  simp only [readDigits, hd.behind_gap hb, htake, hdrop, hne, Bool.false_eq_true, if_false]

theorem readDigits_mark (hb : Gap b) (hs : isSpace c = false) (hc : c.isDigit = false)
    (r : Text) : readDigits (b ++ c :: r) = none := by
  simp only [readDigits, dropWhile_gap hb hs, takeWhile_cons, hc, Bool.false_eq_true, if_false,
    isEmpty_nil, if_true]

theorem foldl_digits (d : Text) (k : Nat) :
    d.foldl (fun (n : Int) c => n * 10 + (c.toNat - 48 : Nat)) k = (Nat.ofDigitChars 10 d k : Nat) := by
  induction d generalizing k with
  | nil => rfl
  | cons c d ih =>
    rw [foldl_cons, Nat.ofDigitChars_cons, ← ih]
    congr 1
    push_cast
    rw [mul_comm]

theorem readInt_digits (hd : Digits n d) (hr : r.head?.all fun c => !c.isDigit) :
    readInt (d ++ r) = some ((n : Int), r) := by
  obtain ⟨htake, hdrop⟩ := hd.split hr
  obtain ⟨c, d', rfl⟩ := exists_cons_of_ne_nil hd.1
  have hminus : c ≠ '-' := by
    intro he
    have hc := hd.2.1 c mem_cons_self
    rw [he] at hc
    cases hc
  have hvalue := foldl_digits (c :: d') 0
  rw [hd.2.2] at hvalue
  simp only [readInt, cons_append, List.head?_cons, Option.some.injEq, hminus, if_false] at *
  simp only [htake, hdrop, isEmpty_cons, Bool.false_eq_true, if_false]
  rw [← hvalue]
  rfl

theorem readInt_minus (hd : Digits n d) (hr : r.head?.all fun c => !c.isDigit) :
    readInt ('-' :: d ++ r) = some (-(n : Int), r) := by
  obtain ⟨htake, hdrop⟩ := hd.split hr
  have hvalue := foldl_digits d 0
  rw [hd.2.2] at hvalue
  have hne : d.isEmpty = false := by
    obtain ⟨c, d, rfl⟩ := exists_cons_of_ne_nil hd.1
    rfl
  simp only [readInt, cons_append, List.head?_cons, if_true, tail_cons, htake, hdrop, hne,
    Bool.false_eq_true, if_false]
  rw [← hvalue]
  rfl

end Numerals

/-! ## 3. The map, on a text that is more than a word -/

theorem ne_of_edge {t w : Text} (hc : c ∈ t) (hedge : isWordChar c = false)
    (hw : w.all isWordChar = true) : t ≠ w := by
  intro he
  rw [he] at hc
  rw [all_eq_true.mp hw c hc] at hedge
  cases hedge

/-- A text that begins with a word, and is more than words. -/
structure Led (w t : Text) : Prop where
  lead : leading t = w
  edge : ∃ c ∈ t, isWordChar c = false

section

variable {w t : Text} (h : Led w t)

include h

theorem Led.ne {v : Text} (hv : v.all isWordChar = true) : t ≠ v := by
  obtain ⟨c, hc, hedge⟩ := h.edge
  exact ne_of_edge hc hedge hv

theorem Led.not_listed {l : List Text} (hl : l.all (·.all isWordChar) = true) :
    l.contains t = false := by
  rw [Bool.eq_false_iff]
  intro hin
  exact h.ne (all_eq_true.mp hl t (by simpa using hin)) rfl

theorem Led.isEmpty_eq : t.isEmpty = false := by
  obtain ⟨c, hc, -⟩ := h.edge
  cases t with
  | nil => cases hc
  | cons _ _ => rfl

theorem Led.opens_none {v : Text} (hv : v.all isWordChar = true) (hne : w ≠ v) : opens v t = none :=
  Sandbox.opens_none hv (h.lead ▸ hne)

theorem Led.isDecimal (hne : w ≠ "DECIMAL".toList) : isDecimal t = false := by
  rw [Sandbox.isDecimal, h.opens_none (by decide) hne]
  rfl

theorem Led.isSizedVarchar (hne : w ≠ "VARCHAR".toList) : isSizedVarchar t = false := by
  rw [Sandbox.isSizedVarchar, h.opens_none (by decide) hne]
  rfl

theorem Led.numberMatch (hne : w ≠ "NUMBER".toList) : numberMatch t = none := by
  rw [Sandbox.numberMatch, h.opens_none (by decide) hne]
  rfl

end

theorem passthrough_word : DUCKDB_PASSTHROUGH.all (·.all isWordChar) = true := by decide

section

variable {oracleType w t : Text} (ht : toUpperCase (trim oracleType) = t)

include ht

theorem mapOracleType_number {precision : Text} {rawScale : Int} (h : Led "NUMBER".toList t)
    (hmatch : numberMatch t = some (precision, rawScale)) :
    mapOracleType oracleType =
      "DECIMAL(".toList ++ precision ++ ',' :: intText (max 0 rawScale) ++ [')'] := by
  unfold mapOracleType
  simp only [ht, h.isEmpty_eq, h.not_listed passthrough_word, h.isDecimal (by decide),
    h.isSizedVarchar (by decide), hmatch, Bool.false_eq_true, if_false]

/-- What is left to decide. -/
theorem mapOracleType_several (h : Led w t) (hdecimal : w ≠ "DECIMAL".toList)
    (hvarchar : w ≠ "VARCHAR".toList) (hnumber : numberMatch t = none) :
    mapOracleType oracleType =
      if (opens "NVARCHAR".toList t).isSome ∨ (opens "NVARCHAR2".toList t).isSome then
        "VARCHAR".toList
      else if (opens "VARCHAR2".toList t).isSome then "VARCHAR".toList
      else if (opens "CHAR".toList t).isSome then "VARCHAR".toList
      else if endsInTimeZone t then "TIMESTAMPTZ".toList
      else if isTimestamp t then "TIMESTAMP".toList
      else if (opens "RAW".toList t).isSome then "BLOB".toList
      else if (opens "FLOAT".toList t).isSome then "DOUBLE".toList
      else if isLongRaw t then "BLOB".toList
      else "VARCHAR".toList := by
  have hne : ∀ w : Text, w.all isWordChar = true → (t = w) = False := fun w hw => eq_false (h.ne hw)
  unfold mapOracleType
  simp only [ht, h.isEmpty_eq, h.not_listed passthrough_word, h.isDecimal hdecimal,
    h.isSizedVarchar hvarchar, hnumber,
    hne "NUMBER".toList (by decide), hne "CLOB".toList (by decide), hne "NCLOB".toList (by decide),
    hne "DATE".toList (by decide), hne "BLOB".toList (by decide), hne "BFILE".toList (by decide),
    hne "BINARY_FLOAT".toList (by decide), hne "BINARY_DOUBLE".toList (by decide),
    hne "FLOAT".toList (by decide), hne "LONG".toList (by decide), Bool.false_eq_true, if_false,
    false_or, ite_self]

/-- The words with an expression of their own. -/
def SIZED_WORDS : List Text :=
  ["DECIMAL", "VARCHAR", "NUMBER", "NVARCHAR", "NVARCHAR2", "VARCHAR2", "CHAR", "RAW",
    "FLOAT"].map String.toList

omit ht in
theorem sized_word : SIZED_WORDS.all (·.all isWordChar) = true := by decide

theorem mapOracleType_plain (h : Led w t) (hplain : w ∉ SIZED_WORDS) :
    mapOracleType oracleType =
      if endsInTimeZone t then "TIMESTAMPTZ".toList
      else if isTimestamp t then "TIMESTAMP".toList
      else if isLongRaw t then "BLOB".toList
      else "VARCHAR".toList := by
  have hne : ∀ v ∈ SIZED_WORDS, w ≠ v := fun v hv he => hplain (he ▸ hv)
  have hnone : ∀ v ∈ SIZED_WORDS, opens v t = none := fun v hv =>
    h.opens_none (all_eq_true.mp sized_word v hv) (hne v hv)
  rw [mapOracleType_several ht h (hne _ (by decide)) (hne _ (by decide))
    (h.numberMatch (hne _ (by decide)))]
  simp only [hnone "NVARCHAR".toList (by decide), hnone "NVARCHAR2".toList (by decide),
    hnone "VARCHAR2".toList (by decide), hnone "CHAR".toList (by decide),
    hnone "RAW".toList (by decide), hnone "FLOAT".toList (by decide), Option.isSome_none,
    Bool.false_eq_true, or_self, if_false]

end

end Veesker.Sandbox
