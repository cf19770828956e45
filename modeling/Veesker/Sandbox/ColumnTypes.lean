/-
  File:      Veesker/Sandbox/ColumnTypes.lean
  Subject:   WHAT A COLUMN OF A TYPE HOLDS, in the source database and in the built one.

  * `OracleType` -- the types of a column, with every precision and scale; `SpeltBy`: the texts
    that name one;
  * `OracleType.Holds` -- the values of a column of the type;
  * `DuckType`, `duckType`, `DuckType.Stores` -- the types of the built tables, by their texts, and
    what they store unchanged.

  A value is stored without loss if it is itself a value of the type: a number that is kept as a
  text is no number any more.
-/
import Veesker.Format.Numerals
import Veesker.Sandbox.TypeMap

namespace Veesker.Sandbox

open Format Vsk List

/-! ## 1. The types -/

inductive CharKind where
  | char
  | varchar2
  | nchar
  | nvarchar2
  deriving DecidableEq

def CharKind.word : CharKind → Text
  | char => "CHAR".toList
  | varchar2 => "VARCHAR2".toList
  | nchar => "NCHAR".toList
  | nvarchar2 => "NVARCHAR2".toList

inductive LengthUnit where
  | byte
  | char
  deriving DecidableEq

def LengthUnit.word : LengthUnit → Text
  | byte => "BYTE".toList
  | char => "CHAR".toList

inductive Zone where
  | without
  | zoned
  | localZoned
  deriving DecidableEq

/-- The words the types of the database itself begin with. -/
def TYPE_WORDS : List Text :=
  ["CHAR", "VARCHAR2", "NCHAR", "NVARCHAR2", "CLOB", "NCLOB", "LONG", "NUMBER", "FLOAT",
    "BINARY_FLOAT", "BINARY_DOUBLE", "DATE", "TIMESTAMP", "INTERVAL", "RAW", "BLOB", "BFILE",
    "ROWID", "UROWID", "BOOLEAN", "JSON", "VECTOR"].map String.toList

/-- The name of an object type, as the catalogue has it. -/
structure TypeName where
  name : Text
  plain : (name.all fun c => !isSpace c && c != '(') = true
  nonempty : name ≠ []
  free : name ∉ TYPE_WORDS
  deriving DecidableEq

/-- The type of a column. A precision or scale that is not given is `none`. -/
inductive OracleType where
  | character (kind : CharKind) (size : Option (Nat × Option LengthUnit))
  | clob
  | nclob
  | long
  | number (precision : Option (Nat × Option Int))
  /-- `NUMBER(*)` and `NUMBER(*,s)`. -/
  | starNumber (scale : Option Int)
  | float (precision : Option Nat)
  | binaryFloat
  | binaryDouble
  | date
  | timestamp (fraction : Option Nat) (zone : Zone)
  | intervalYear (digits : Option Nat)
  | intervalDay (digits fraction : Option Nat)
  | raw (size : Option Nat)
  | longRaw
  | blob
  | bfile
  | rowid
  | urowid (size : Option Nat)
  | boolean
  | json
  | vector (dimensions : Option Nat)
  | object (name : TypeName)
  deriving DecidableEq

/-! ## 2. Their texts -/

inductive Mark where
  | opening
  | closing
  | comma
  | star
  deriving DecidableEq

def Mark.char : Mark → Char
  | opening => '('
  | closing => ')'
  | comma => ','
  | star => '*'

/-- A part of a type's text. -/
inductive TypePart where
  | word (w : Text)
  | mark (m : Mark)
  | digits (n : Nat)
  | signed (n : Int)
  deriving DecidableEq

def TypePart.isMark : TypePart → Bool
  | mark _ => true
  | _ => false

def TypePart.Reads : TypePart → Text → Prop
  | word w, t => t = w
  | mark m, t => t = [m.char]
  | digits n, t => Digits n t
  | signed n, t =>
    (∃ k : Nat, n = k ∧ Digits k t) ∨ ∃ (k : Nat) (d : Text), n = -k ∧ Digits k d ∧ t = '-' :: d

/-- The text is made of the parts, with white space between them at will, and with some where two
    words would run together. -/
def Spells : List TypePart → Text → Prop
  | [], t => t = []
  | [p], t => p.Reads t
  | p :: q :: ps, t => ∃ w b u, p.Reads w ∧ Gap b ∧ (p.isMark = false → q.isMark = false → b ≠ []) ∧
      Spells (q :: ps) u ∧ t = w ++ (b ++ u)

def sized : Option Nat → List TypePart
  | none => []
  | some n => [.mark .opening, .digits n, .mark .closing]

def Zone.parts : Zone → List TypePart
  | without => []
  | zoned => ["WITH", "TIME", "ZONE"].map fun w => .word w.toList
  | localZoned => ["WITH", "LOCAL", "TIME", "ZONE"].map fun w => .word w.toList

def OracleType.parts : OracleType → List TypePart
  | character kind none => [.word kind.word]
  | character kind (some (n, none)) => [.word kind.word, .mark .opening, .digits n, .mark .closing]
  | character kind (some (n, some u)) =>
    [.word kind.word, .mark .opening, .digits n, .word u.word, .mark .closing]
  | clob => [.word "CLOB".toList]
  | nclob => [.word "NCLOB".toList]
  | long => [.word "LONG".toList]
  | number none => [.word "NUMBER".toList]
  | number (some (p, none)) => [.word "NUMBER".toList, .mark .opening, .digits p, .mark .closing]
  | number (some (p, some s)) =>
    [.word "NUMBER".toList, .mark .opening, .digits p, .mark .comma, .signed s, .mark .closing]
  | starNumber none => [.word "NUMBER".toList, .mark .opening, .mark .star, .mark .closing]
  | starNumber (some s) =>
    [.word "NUMBER".toList, .mark .opening, .mark .star, .mark .comma, .signed s, .mark .closing]
  | float p => .word "FLOAT".toList :: sized p
  | binaryFloat => [.word "BINARY_FLOAT".toList]
  | binaryDouble => [.word "BINARY_DOUBLE".toList]
  | date => [.word "DATE".toList]
  | timestamp f z => .word "TIMESTAMP".toList :: (sized f ++ z.parts)
  | intervalYear d =>
    [.word "INTERVAL".toList, .word "YEAR".toList] ++ sized d ++
      [.word "TO".toList, .word "MONTH".toList]
  | intervalDay d f =>
    [.word "INTERVAL".toList, .word "DAY".toList] ++ sized d ++
      [.word "TO".toList, .word "SECOND".toList] ++ sized f
  | raw n => .word "RAW".toList :: sized n
  | longRaw => [.word "LONG".toList, .word "RAW".toList]
  | blob => [.word "BLOB".toList]
  | bfile => [.word "BFILE".toList]
  | rowid => [.word "ROWID".toList]
  | urowid n => .word "UROWID".toList :: sized n
  | boolean => [.word "BOOLEAN".toList]
  | json => [.word "JSON".toList]
  | vector n => .word "VECTOR".toList :: sized n
  | object n => [.word n.name]

/-- The text names the type: in letters of either case, with white space around it. -/
def OracleType.SpeltBy (ty : OracleType) (text : Text) : Prop :=
  Spells ty.parts (toUpperCase (trim text))

theorem Mark.edge (m : Mark) : isWordChar m.char = false := by
  cases m <;> decide

variable {ps : List TypePart} {t : Text}

theorem spells_mark_head {m : Mark}
    (h : Spells (.mark m :: ps) t) : ∃ b u, Gap b ∧ Spells ps u ∧ t = m.char :: (b ++ u) := by
  cases ps with
  | nil => exact ⟨[], [], by simp [Gap], rfl, h⟩
  | cons q ps =>
    obtain ⟨w, b, u, rfl, hb, -, hu, rfl⟩ := h
    exact ⟨b, u, hb, hu, rfl⟩

/-- A part with a mark behind it. -/
theorem spells_mark {p : TypePart} {m : Mark}
    (h : Spells (p :: .mark m :: ps) t) :
    ∃ w b b' u, p.Reads w ∧ Gap b ∧ Gap b' ∧ Spells ps u ∧ t = w ++ (b ++ m.char :: (b' ++ u)) := by
  obtain ⟨w, b, u, hw, hb, -, hu, rfl⟩ := h
  obtain ⟨b', u', hb', hu', rfl⟩ := spells_mark_head hu
  exact ⟨w, b, b', u', hw, hb, hb', hu', rfl⟩

theorem spells_mark_last {p : TypePart} {m : Mark} (h : Spells [p, .mark m] t) :
    ∃ w b, p.Reads w ∧ Gap b ∧ t = w ++ (b ++ [m.char]) := by
  obtain ⟨w, b, u, hw, hb, -, rfl, rfl⟩ := h
  exact ⟨w, b, hw, hb, rfl⟩

theorem spells_words {v w : Text}
    (h : Spells (.word v :: .word w :: ps) t) :
    ∃ b u, b ≠ [] ∧ Gap b ∧ Spells (.word w :: ps) u ∧ t = v ++ (b ++ u) := by
  obtain ⟨_, b, u, rfl, hb, hgap, hu, rfl⟩ := h
  exact ⟨b, u, hgap rfl rfl, hb, hu, rfl⟩

/-- A word with something behind it ends there. -/
theorem spells_led {w : Text} {q : TypePart}
    (hw : w.all isWordChar = true) (h : Spells (.word w :: q :: ps) t) : Led w t := by
  have hled : ∀ c r, isWordChar c = false → Led w (w ++ c :: r) := fun c r hc =>
    ⟨leading_append hw (by simp [hc]), c, by simp, hc⟩
  obtain ⟨w', b, u, rfl, hb, hgap, hu, rfl⟩ := h
  cases b with
  | cons c b => exact hled c (b ++ u) (hb.not_word c mem_cons_self)
  | nil =>
    cases q with
    | mark m =>
      obtain ⟨b', u', -, -, rfl⟩ := spells_mark_head hu
      exact hled m.char (b' ++ u') m.edge
    | word _ | digits _ | signed _ => exact absurd rfl (hgap rfl rfl)

/-- The last parts stand at the end. -/
theorem spells_suffix {ps qs : List TypePart} (h : Spells (ps ++ qs) t) (hne : qs ≠ []) :
    ∃ u, u <:+ t ∧ Spells qs u := by
  induction ps generalizing t with
  | nil => exact ⟨t, suffix_rfl, h⟩
  | cons p ps ih =>
    obtain ⟨q, rest, hrest⟩ := exists_cons_of_ne_nil (append_ne_nil_of_right_ne_nil ps hne)
    rw [cons_append, hrest] at h
    obtain ⟨w, b, u, -, -, -, hu, rfl⟩ := h
    rw [← hrest] at hu
    obtain ⟨v, hv, hs⟩ := ih hu
    exact ⟨v, hv.trans ((suffix_append b u).trans (suffix_append w _)), hs⟩

/-- The letters a part stands for itself. -/
def TypePart.letters : TypePart → Text
  | word w => w
  | mark m => [m.char]
  | digits _ | signed _ => []

theorem TypePart.Reads.mem {p : TypePart} {w : Text} (h : p.Reads w) {c : Char} (hc : c ∈ w) :
    c.isDigit = true ∨ c = '-' ∨ c ∈ p.letters := by
  cases p with
  | word v =>
    obtain rfl : w = v := h
    exact .inr (.inr hc)
  | mark m =>
    obtain rfl : w = [m.char] := h
    exact .inr (.inr hc)
  | digits n => exact .inl (h.2.1 c hc)
  | signed n =>
    rcases h with ⟨k, -, hk⟩ | ⟨k, d, -, hk, rfl⟩
    · exact .inl (hk.2.1 c hc)
    · rcases mem_cons.mp hc with rfl | hc
      · exact .inr (.inl rfl)
      · exact .inl (hk.2.1 c hc)

/-- What a text is made of. -/
theorem spells_mem (h : Spells ps t) {c : Char} (hc : c ∈ t) :
    isSpace c = true ∨ c.isDigit = true ∨ c = '-' ∨ ∃ p ∈ ps, c ∈ p.letters := by
  induction ps generalizing t with
  | nil =>
    rw [h] at hc
    cases hc
  | cons p ps ih =>
    cases ps with
    | nil =>
      rcases TypePart.Reads.mem h hc with hd | hd | hd
      · exact .inr (.inl hd)
      · exact .inr (.inr (.inl hd))
      · exact .inr (.inr (.inr ⟨p, mem_cons_self, hd⟩))
    | cons q ps =>
      obtain ⟨w, b, u, hw, hb, -, hu, rfl⟩ := h
      rcases mem_append.mp hc with hc | hc
      · rcases hw.mem hc with hd | hd | hd
        · exact .inr (.inl hd)
        · exact .inr (.inr (.inl hd))
        · exact .inr (.inr (.inr ⟨p, mem_cons_self, hd⟩))
      rcases mem_append.mp hc with hc | hc
      · exact .inl (hb c hc)
      · rcases ih hu hc with hd | hd | hd | ⟨r, hr, hd⟩
        · exact .inl hd
        · exact .inr (.inl hd)
        · exact .inr (.inr (.inl hd))
        · exact .inr (.inr (.inr ⟨r, mem_cons_of_mem _ hr, hd⟩))

/-! ## 3. Their values -/

/-- A value of a column. A moment is counted in nanoseconds from the beginning of 1970. -/
inductive ColumnValue where
  | number (q : ℚ)
  | infinity (negative : Bool)
  | notANumber
  | text (t : Text)
  | bytes (b : List UInt8)
  | moment (nanos : Int)
  | zonedMoment (nanos offset : Int)
  | months (n : Int)
  | span (nanos : Int)
  | truth (b : Bool)
  | document (j : Json ℚ)
  | vector (entries : List ℚ)
  | locator (directory file : Text)
  | object (attributes : List ColumnValue)

/-- The bytes of a text. -/
def byteLength (t : Text) : Nat := (t.map Char.utf8Size).sum

/-- Whether a text is within the size of its column. -/
def fits (size : Option (Nat × Option LengthUnit)) (t : Text) : Prop :=
  match size with
  | none => True
  | some (n, some .char) => t.length ≤ n
  | some (n, _) => byteLength t ≤ n

/-- The database's own numbers, of so many decimal digits: from 1E-130 to below 1E126. -/
def decimals (digits : Nat) : Set ℚ := Floating 10 digits (-130) 126

/-- The decimal digits of a binary precision, `0.30103` of it rounded up. -/
def decimalDigits (binary : Nat) : Nat := (binary * 30103 + 99999) / 100000

/-- From 4713 B.C. to the end of 9999. -/
def inCalendar (nanos : Int) : Prop :=
  -210866803200 * 10 ^ 9 ≤ nanos ∧ nanos < 253402300800 * 10 ^ 9

/-- A moment with so many decimals of a second. -/
def Ticks (fraction : Nat) (nanos : Int) : Prop := (10 : Int) ^ (9 - fraction) ∣ nanos

/-- **The values of a column of the type.** -/
def OracleType.Holds : OracleType → ColumnValue → Prop
  | character _ size, .text t => fits size t
  | clob, .text _ => True
  | nclob, .text _ => True
  | long, .text _ => True
  | number none, .number q => q ∈ decimals 38
  | number (some (p, s)), .number q => q ∈ Fixed p (s.getD 0)
  | starNumber none, .number q => q ∈ decimals 38
  | starNumber (some s), .number q => q ∈ Fixed 38 s
  | float p, .number q => q ∈ decimals (decimalDigits (p.getD 126))
  | binaryFloat, .number q => q ∈ Floating 2 24 (-149) 128
  | binaryFloat, .infinity _ => True
  | binaryFloat, .notANumber => True
  | binaryDouble, .number q => q ∈ Floating 2 53 (-1074) 1024
  | binaryDouble, .infinity _ => True
  | binaryDouble, .notANumber => True
  | date, .moment n => Ticks 0 n ∧ inCalendar n
  | timestamp f .without, .moment n => Ticks (f.getD 6) n ∧ inCalendar n
  | timestamp f .zoned, .zonedMoment n _ => Ticks (f.getD 6) n ∧ inCalendar n
  | timestamp f .localZoned, .moment n => Ticks (f.getD 6) n ∧ inCalendar n
  | intervalYear _, .months _ => True
  | intervalDay _ _, .span _ => True
  | raw size, .bytes b => ∀ n ∈ size, b.length ≤ n
  | longRaw, .bytes _ => True
  | blob, .bytes _ => True
  | bfile, .locator _ _ => True
  -- a row's address is given as a text
  | rowid, .text _ => True
  | urowid _, .text _ => True
  | boolean, .truth _ => True
  | json, .document _ => True
  | vector n, .vector entries => ∀ k ∈ n, entries.length = k
  | object _, .object _ => True
  | _, _ => False

/-! ## 4. The built table -/

/-- A type of the built database. -/
inductive DuckType where
  | decimal (width scale : Nat)
  | integer (lowest highest : Int)
  | float
  | double
  | varchar
  | blob
  | timestamp
  | timestamptz
  | boolean
  | json
  deriving DecidableEq

def signedInteger (bits : Nat) : DuckType := .integer (-2 ^ (bits - 1)) (2 ^ (bits - 1) - 1)

def unsignedInteger (bits : Nat) : DuckType := .integer 0 (2 ^ bits - 1)

/-- The names that are one word. Those that are not here stand for values no column above has. -/
def DUCK_NAMES : List (Text × DuckType) :=
  [("TINYINT", signedInteger 8), ("INT1", signedInteger 8), ("SMALLINT", signedInteger 16),
    ("INT2", signedInteger 16), ("SHORT", signedInteger 16), ("INTEGER", signedInteger 32),
    ("INT", signedInteger 32), ("INT4", signedInteger 32), ("BIGINT", signedInteger 64),
    ("INT8", signedInteger 64), ("LONG", signedInteger 64), ("HUGEINT", signedInteger 128),
    ("UTINYINT", unsignedInteger 8), ("USMALLINT", unsignedInteger 16),
    ("UINTEGER", unsignedInteger 32), ("UBIGINT", unsignedInteger 64), ("FLOAT", .float),
    ("REAL", .float), ("FLOAT4", .float), ("DOUBLE", .double), ("FLOAT8", .double),
    ("VARCHAR", .varchar), ("TEXT", .varchar), ("STRING", .varchar), ("BLOB", .blob),
    ("TIMESTAMP", .timestamp), ("TIMESTAMPTZ", .timestamptz), ("BOOLEAN", .boolean),
    ("BOOL", .boolean), ("LOGICAL", .boolean), ("JSON", .json)].map fun (w, d) => (w.toList, d)

/-- `DECIMAL(width,scale)`, whose width is at most 38 and not less than the scale. -/
def duckDecimal (t : Text) : Option DuckType := do
  let (width, t) ← (opens "DECIMAL".toList t).bind readDigits
  let (scale, t) ← (readChar ',' t).bind readDigits
  let w := Nat.ofDigitChars 10 width 0
  let s := Nat.ofDigitChars 10 scale 0
  if closes t ∧ 1 ≤ w ∧ w ≤ 38 ∧ s ≤ w then some (.decimal w s) else none

/-- The type a text names. -/
def duckType (t : Text) : Option DuckType :=
  (duckDecimal t).or ((DUCK_NAMES.find? fun e => e.1 = t).map Prod.snd)

/-- The microseconds a timestamp counts: from 290309 B.C. to 294247. -/
def inMicros (nanos : Int) : Prop :=
  (1000 : Int) ∣ nanos ∧ -9223372022400000000 ≤ nanos / 1000 ∧ nanos / 1000 ≤ 9223372036854775806

/-- **The values a type stores unchanged.** -/
def DuckType.Stores : DuckType → ColumnValue → Prop
  | decimal w s, .number q => q ∈ Fixed w s
  | integer lowest highest, .number q => ∃ n : Int, q = n ∧ lowest ≤ n ∧ n ≤ highest
  | float, .number q => q ∈ Floating 2 24 (-149) 128
  | float, .infinity _ => True
  | float, .notANumber => True
  | double, .number q => q ∈ Floating 2 53 (-1074) 1024
  | double, .infinity _ => True
  | double, .notANumber => True
  | varchar, .text _ => True
  | blob, .bytes _ => True
  | timestamp, .moment n => inMicros n
  | timestamptz, .moment n => inMicros n
  | boolean, .truth _ => True
  | json, .document _ => True
  | _, _ => False

end Veesker.Sandbox
