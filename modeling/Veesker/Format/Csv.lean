/-
  File:      Veesker/Format/Csv.lean
  Subject:   COMMA-SEPARATED RECORDS, as RFC 4180 has them.

  Records end with CR LF, which the last one may lack. A field stands bare, without commas, quotes
  and line breaks, or between quotes with its own quotes doubled.

  * `Written` -- a field and a text of it;
  * **`records_lines`** -- written records are read back, in order and field by field.

  Nothing here names the repository.
-/
import Veesker.Text.Js

namespace Veesker.Format.Csv

open List

/-! ## 1. The reader -/

/-- Before a field, in a bare one, in a quoted one, behind a quote of it, behind a CR. -/
inductive Mode where
  | start
  | bare
  | quoted
  | closed
  | broken
  deriving DecidableEq

/-- The records of a text, with the field and the fields of its record read so far. -/
def read : Text → Mode → Text → List Text → Option (List (List Text))
  -- behind the last line break there is no record
  | [], .start, _, [] => some []
  | [], .quoted, _, _ => none
  | [], .broken, _, _ => none
  | [], _, field, fields => some [fields ++ [field]]
  | c :: r, .quoted, field, fields =>
    if c = '"' then read r .closed field fields else read r .quoted (field ++ [c]) fields
  | c :: r, .broken, _, fields =>
    if c = '\n' then (read r .start [] []).map (fields :: ·) else none
  | c :: r, mode, field, fields =>
    if c = ',' then read r .start [] (fields ++ [field])
    else if c = '\r' then read r .broken [] (fields ++ [field])
    else if c = '\n' then none
    else if c = '"' then
      match mode with
      | .start => read r .quoted field fields
      | .closed => read r .quoted (field ++ [c]) fields
      | _ => none
    else if mode = .closed then none
    else read r .bare (field ++ [c]) fields

def records (t : Text) : Option (List (List Text)) := read t .start [] []

example : records "a,\"b\"\"\r\n\"\r\n\r\n".toList = some [["a".toList, "b\"\r\n".toList], [[]]] := by
  decide

/-! ## 2. Fields -/

/-- A character that a bare field may have. -/
def Plain (c : Char) : Prop := c ≠ ',' ∧ c ≠ '"' ∧ c ≠ '\n' ∧ c ≠ '\r'

def doubled (s : Text) : Text := s.flatMap fun c => if c = '"' then ['"', '"'] else [c]

/-- `t` is a way to write the field `s`. -/
inductive Written : Text → Text → Prop where
  | bare {s : Text} (h : ∀ c ∈ s, Plain c) : Written s s
  | quoted (s : Text) : Written s ('"' :: (doubled s ++ ['"']))

/-- A field may end where the reader stands. -/
def Mode.MayEnd : Mode → Prop
  | .quoted | .broken => False
  | _ => True

theorem read_comma {mode : Mode} (h : mode.MayEnd) (field : Text) (fields : List Text) (r : Text) :
    read (',' :: r) mode field fields = read r .start [] (fields ++ [field]) := by
  cases mode with
  | quoted => cases h
  | broken => cases h
  | start => rfl
  | bare => rfl
  | closed => rfl

theorem read_line_break {mode : Mode} (h : mode.MayEnd) (field : Text) (fields : List Text)
    (r : Text) : read ('\r' :: '\n' :: r) mode field fields =
      (read r .start [] []).map ((fields ++ [field]) :: ·) := by
  cases mode with
  | quoted => cases h
  | broken => cases h
  | start => rfl
  | bare => rfl
  | closed => rfl

theorem read_plain {c : Char} (hc : Plain c) {mode : Mode} (hmode : mode = .start ∨ mode = .bare)
    (field : Text) (fields : List Text) (r : Text) :
    read (c :: r) mode field fields = read r .bare (field ++ [c]) fields := by
  obtain ⟨hcomma, hquote, hlf, hcr⟩ := hc
  rcases hmode with rfl | rfl
  · simp [read, hcomma, hquote, hlf, hcr]
  · simp [read, hcomma, hquote, hlf, hcr]

theorem read_bare {s : Text} (hs : ∀ c ∈ s, Plain c) (field : Text) (fields : List Text)
    (r : Text) : read (s ++ r) .bare field fields = read r .bare (field ++ s) fields := by
  induction s generalizing field with
  | nil => rw [nil_append, append_nil]
  | cons c s ih =>
    rw [cons_append, read_plain (hs c mem_cons_self) (.inr rfl),
      ih fun d hd => hs d (mem_cons_of_mem _ hd), append_assoc]
    rfl

theorem read_quoted (s : Text) (field : Text) (fields : List Text) (r : Text) :
    read (doubled s ++ r) .quoted field fields = read r .quoted (field ++ s) fields := by
  induction s generalizing field with
  | nil => exact congrArg (fun f => read r .quoted f fields) (append_nil field).symm
  | cons c s ih =>
    by_cases hc : c = '"'
    · subst hc
      show read (doubled s ++ r) .quoted (field ++ ['"']) fields = _
      rw [ih, append_assoc]
      rfl
    · have hstep : read (doubled (c :: s) ++ r) .quoted field fields =
          read (doubled s ++ r) .quoted (field ++ [c]) fields := by
        simp [doubled, read, hc]
      rw [hstep, ih, append_assoc]
      rfl

/-- A written field is read to its end. -/
theorem read_written {s t : Text} (h : Written s t) : ∃ mode, mode.MayEnd ∧ ∀ fields r,
    read (t ++ r) .start [] fields = read r mode s fields := by
  cases h with
  | bare hs =>
    cases s with
    | nil => exact ⟨.start, trivial, fun fields r => rfl⟩
    | cons c s =>
      refine ⟨.bare, trivial, fun fields r => ?_⟩
      rw [cons_append, read_plain (hs c mem_cons_self) (.inl rfl),
        read_bare fun d hd => hs d (mem_cons_of_mem _ hd)]
      rfl
  | quoted =>
    refine ⟨.closed, trivial, fun fields r => ?_⟩
    show read (doubled s ++ ['"'] ++ r) .quoted [] fields = _
    rw [append_assoc, read_quoted]
    rfl

/-! ## 3. Records -/

/-- A record's line from the texts of its fields. -/
def line (ts : List Text) : Text := List.intercalate [','] ts ++ ['\r', '\n']

theorem read_line {ss ts : List Text} (h : List.Forall₂ Written ss ts) (hne : ss ≠ [])
    (fields : List Text) (r : Text) :
    read (line ts ++ r) .start [] fields = (read r .start [] []).map ((fields ++ ss) :: ·) := by
  induction h generalizing fields with
  | nil => exact absurd rfl hne
  | @cons s t ss ts hst hrest ih =>
    obtain ⟨mode, hmode, hread⟩ := read_written hst
    cases hrest with
    | nil =>
      show read (List.intercalate [','] [t] ++ ['\r', '\n'] ++ r) .start [] fields = _
      rw [intercalate_singleton, append_assoc, hread]
      exact read_line_break hmode s fields r
    | @cons s' t' ss ts hst' hrest =>
      have hline : line (t :: t' :: ts) = t ++ ',' :: line (t' :: ts) := by
        simp [line, intercalate_cons_cons]
      rw [hline, append_assoc, hread, cons_append, read_comma hmode,
        ih (cons_ne_nil _ _), append_assoc]
      rfl

/-- **Written records are read back.** -/
theorem records_lines {rows texts : List (List Text)}
    (h : List.Forall₂ (List.Forall₂ Written) rows texts) (hne : ∀ row ∈ rows, row ≠ []) :
    records (texts.flatMap line) = some rows := by
  induction h with
  | nil => rfl
  | @cons row ts rows texts hrow hrest ih =>
    rw [flatMap_cons, records, read_line hrow (hne row mem_cons_self)]
    have hih := ih fun r hr => hne r (mem_cons_of_mem _ hr)
    rw [records] at hih
    rw [hih]
    rfl

end Veesker.Format.Csv
