/-
  File:      Veesker/Vsk/Host.lean
  Subject:   ERRORS, TABLE NAMES AND THE DATABASE of the `.vsk` format (engine/src/vsk-format/
             errors.ts, engine/src/duckdb-host.ts).

  The database is a parameter: a state and what a statement makes of it. A statement is given by
  what its text is composed of, so the texts (quoting, `mapOracleType`, `sqlLiteral`) are not
  written out.
-/
import Veesker.Format.Json
import Veesker.Text.Lower

namespace Veesker.Vsk

open Format

/-! ## 1. Errors -/

/-- What is thrown: a `VskFormatError` with its code, or any other error. -/
inductive Failure where
  | format (code message : Text)
  | error (message : Text)
  deriving DecidableEq

/-- `String(n)` of a whole number. -/
def natText (n : Nat) : Text := Nat.toDigits 10 n

/-- `s.slice(0, n)`; a pair that is cut in two leaves a half, which texts do not hold. -/
def sliceTo : Nat → Text → Text
  | _, [] => []
  | n, c :: cs =>
    if c.toNat < 0x10000 then if 1 ≤ n then c :: sliceTo (n - 1) cs else []
    else if 2 ≤ n then c :: sliceTo (n - 2) cs
    else if n = 1 then [replacement] else []

/-! ## 2. Table names -/

/-- `[A-Za-z_]`. -/
def isNameStart (c : Char) : Bool := c.isAlpha || c == '_'

/-- `[A-Za-z0-9_$]`. -/
def isNameChar (c : Char) : Bool := c.isAlphanum || c == '_' || c == '$'

/-- `/^[A-Za-z_][A-Za-z0-9_$]{0,n}$/`. -/
def isName (n : Nat) : Text → Bool
  | [] => false
  | c :: cs => isNameStart c && cs.all isNameChar && decide (cs.length ≤ n)

/-- `VSK_TABLE_NAME_RE`. -/
def VSK_TABLE_NAME_RE : Text → Bool := isName 127

def assertValidTableName (name : Text) : Except Failure Unit :=
  if VSK_TABLE_NAME_RE name then .ok ()
  else .error (.format "BAD_TABLE_NAME".toList
    ("vsk: invalid table name (must match ^[A-Za-z_][A-Za-z0-9_$]\x7b0,127\x7d$, got ".toList ++
      sliceTo 80 (quote name) ++ ")".toList))

def SYSTEM_TABLE_PREFIX : Text := "__vsk_".toList

/-- `name.toLowerCase().startsWith("__vsk_")`. -/
def isSystemName (name : Text) : Bool := startsWith (toLowerCase name) SYSTEM_TABLE_PREFIX

theorem isNameStart_char {c : Char} (h : isNameStart c = true) : isNameChar c = true := by
  simp only [isNameStart, Bool.or_eq_true, isNameChar, Char.isAlphanum] at h ⊢
  tauto

theorem isNameChar_ascii {c : Char} (h : isNameChar c = true) : c.toNat < 128 := by
  simp only [isNameChar, Bool.or_eq_true, beq_iff_eq] at h
  rcases h with (h | rfl) | rfl
  · exact isAlphanum_ascii h
  · decide
  · decide

theorem isName_chars {n : Nat} {s : Text} (h : isName n s = true) : ∀ c ∈ s, isNameChar c = true := by
  cases s with
  | nil => cases h
  | cons c cs =>
    simp only [isName, Bool.and_eq_true, List.all_eq_true, decide_eq_true_eq] at h
    intro d hd
    rcases List.mem_cons.mp hd with rfl | hd
    · exact isNameStart_char h.1.1
    · exact h.1.2 d hd

/-- **A checked name is of ASCII.** -/
theorem isName_ascii {n : Nat} {s : Text} (h : isName n s = true) : ∀ c ∈ s, c.toNat < 128 :=
  fun c hc => isNameChar_ascii (isName_chars h c hc)

/-! ## 3. The database -/

/-- A column of a manifest's table. -/
structure VskColumn where
  name : Text
  type : Text
  nullable : Bool
  deriving DecidableEq

/-- A value of an extracted row. Beside a value that is no text stands what `String(v)` gives. -/
inductive Value where
  | null
  | text (s : Text)
  | number (s : Text)
  | boolean (b : Bool)
  | date (iso : Option Text) (s : Text)
  | bytes (b : Bytes) (s : Text)
  deriving DecidableEq

/-- The statements the source hands to the database. -/
inductive Statement where
  /-- `CREATE [OR REPLACE] TABLE "name" (columns)`. -/
  | createTable (replace : Bool) (name : Text) (columns : List VskColumn)
  /-- `CREATE [OR REPLACE] TABLE "name" AS SELECT * FROM read_parquet(…)`. -/
  | createFromParquet (replace : Bool) (name : Text) (parquet : Bytes)
  /-- `INSERT INTO "name" SELECT * FROM read_parquet(…)`. -/
  | insertFromParquet (name : Text) (parquet : Bytes)
  /-- `INSERT INTO "name" (columns) VALUES (values)`. -/
  | insertValues (name : Text) (columns : List Text) (values : List Value)
  deriving DecidableEq

/-- A database with states `σ`. -/
structure DuckDBHost (σ : Type) where
  openInMemory : σ
  exec : Statement → σ → Except Text σ
  /-- The answer of `information_schema.tables` for a name. -/
  tableExists : Text → σ → Except Text Bool
  /-- The file `COPY (SELECT * FROM "name") TO … (FORMAT PARQUET)` leaves. -/
  copyToParquet : Text → σ → Except Text Bytes

section

variable {σ : Type} (D : DuckDBHost σ)

/-- `await dst.exec(statement)`. -/
def DuckDBHost.run (st : Statement) (s : σ) : Except Failure σ := (D.exec st s).mapError .error

def DuckDBHost.runAll (sts : List Statement) (s : σ) : Except Failure σ :=
  sts.foldlM (fun s st => D.run st s) s

end

end Veesker.Vsk
