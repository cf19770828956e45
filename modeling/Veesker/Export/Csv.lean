/-
  File:      Veesker/Export/Csv.lean
  Subject:   ROWS AS COMMA-SEPARATED RECORDS (src/lib/csv-export.ts `toCsv`, `formatValue`,
             `quoteField`).

  * `written_quoteField` -- a quoted field is a way to write the field;
  * **`records_toCsv`** -- the columns' names and the cells' texts are read back.
-/
import Veesker.Format.Csv
import Veesker.Sandbox.Literal

namespace Veesker.Export

open Format Sandbox List

/-! ## 1. The model -/

/-- A cell of a row. A value of any other kind is what `JSON.stringify` and `String` give for it,
nothing where they throw. -/
inductive Cell {ν : Type} (N : Numbers ν) where
  | null
  | undefined
  | string (s : Text)
  | number (n : { n : ν // N.finite n = true })
  | nan
  | infinity (negative : Bool)
  | boolean (b : Bool)
  | date (time : Option Moment)
  | other (json string : Option Text)

section

variable {ν : Type} {N : Numbers ν}

/-- `String(b)`. -/
def booleanText (b : Bool) : Text := if b then "true".toList else "false".toList

def infinityText (negative : Bool) : Text :=
  if negative then "-Infinity".toList else "Infinity".toList

/-- The text of a cell; none is an exception. `toISOString` throws on the invalid date. -/
def formatValue : Cell N → Option Text
  | .null | .undefined => some []
  | .string s => some s
  | .number n => some (N.text n)
  | .nan => some "NaN".toList
  | .infinity negative => some (infinityText negative)
  | .boolean b => some (booleanText b)
  | .date time => time.map fun t => toISOString t
  | .other json _ => json

/-- `s.replace(/"/g, '""')` between quotes where it is needed. -/
def quoteField (s : Text) : Text :=
  if s.contains ',' || s.contains '"' || s.contains '\n' || s.contains '\r' then
    '"' :: ((s.flatMap fun c => if c = '"' then ['"', '"'] else [c]) ++ ['"'])
  else s

/-- `row.map(formatValue)`. -/
def formatRow (row : List (Cell N)) : Option (List Text) := row.mapM formatValue

def toCsv (columns : List Text) (rows : List (List (Cell N))) : Option Text := do
  let lines ← rows.mapM fun row => do
    let texts ← formatRow row
    some (List.intercalate [','] (texts.map quoteField))
  some (List.intercalate ['\r', '\n'] (List.intercalate [','] (columns.map quoteField) :: lines) ++
    ['\r', '\n'])

end

/-! ## 2. Fields -/

theorem written_quoteField (s : Text) : Csv.Written s (quoteField s) := by
  rw [quoteField]
  split
  · exact .quoted s
  · rename_i hplain
    simp only [Bool.or_eq_true, contains_iff_mem, not_or] at hplain
    obtain ⟨⟨⟨hcomma, hquote⟩, hlf⟩, hcr⟩ := hplain
    refine .bare fun c hc => ⟨?_, ?_, ?_, ?_⟩
    · exact fun h => hcomma (h ▸ hc)
    · exact fun h => hquote (h ▸ hc)
    · exact fun h => hlf (h ▸ hc)
    · exact fun h => hcr (h ▸ hc)

theorem written_quoteFields (ss : List Text) :
    List.Forall₂ Csv.Written ss (ss.map quoteField) := by
  induction ss with
  | nil => exact .nil
  | cons s ss ih => exact .cons (written_quoteField s) ih

/-! ## 3. Records -/

/-- Lines joined by line breaks and one more behind the last. -/
theorem joined_lines (t : List Text) (ts : List (List Text)) :
    List.intercalate ['\r', '\n'] (List.intercalate [','] t :: ts.map (List.intercalate [','])) ++
      ['\r', '\n'] = (t :: ts).flatMap Csv.line := by
  induction ts generalizing t with
  | nil => simp [Csv.line]
  | cons u ts ih =>
    rw [flatMap_cons, ← ih u, map_cons, intercalate_cons_cons, Csv.line]
    simp only [append_assoc]

section

variable {ν : Type} {N : Numbers ν}

/-- What a partial function gives for the elements of a list. -/
theorem forall₂_mapM {α β : Type} {f : α → Option β} {l : List α} {ys : List β}
    (h : l.mapM f = some ys) : List.Forall₂ (fun x y => f x = some y) l ys := by
  induction l generalizing ys with
  | nil =>
    obtain rfl : ys = [] := by simpa using h.symm
    exact .nil
  | cons x l ih =>
    rw [mapM_cons] at h
    obtain ⟨y, hy, h⟩ := Option.bind_eq_some_iff.mp h
    obtain ⟨rest, hrest, h⟩ := Option.bind_eq_some_iff.mp h
    obtain rfl : ys = y :: rest := by simpa using h.symm
    exact .cons hy (ih hrest)

theorem toCsv_eq (columns : List Text) (rows : List (List (Cell N))) : toCsv columns rows =
    (rows.mapM formatRow).map fun texts =>
      ((columns :: texts).map (List.map quoteField)).flatMap Csv.line := by
  have hlines : (rows.mapM fun row => do
      let texts ← formatRow row
      some (List.intercalate [','] (texts.map quoteField))) =
        (rows.mapM formatRow).map fun texts =>
          (texts.map (List.map quoteField)).map (List.intercalate [',']) := by
    induction rows with
    | nil => rfl
    | cons row rows ih =>
      rw [mapM_cons, mapM_cons, ih]
      cases formatRow row with
      | none => rfl
      | some texts =>
        cases rows.mapM formatRow with
        | none => rfl
        | some rest => rfl
  rw [toCsv, hlines]
  cases rows.mapM formatRow with
  | none => rfl
  | some texts => exact congrArg some (joined_lines (columns.map quoteField) _)

/-- Formatted rows are as wide as the rows. -/
theorem length_formatRows {rows : List (List (Cell N))} {texts : List (List Text)} {width : Nat}
    (h : rows.mapM formatRow = some texts) (hwidth : ∀ row ∈ rows, row.length = width) :
    ∀ record ∈ texts, record.length = width := by
  have hrows := forall₂_mapM h
  clear h
  induction hrows with
  | nil => exact fun _ hrecord => nomatch hrecord
  | cons hrow _ ih =>
    intro record hrecord
    rcases mem_cons.mp hrecord with rfl | hrecord
    · exact (forall₂_mapM hrow).length_eq.symm.trans (hwidth _ mem_cons_self)
    · exact ih (fun row hr => hwidth row (mem_cons_of_mem _ hr)) record hrecord

/-- **An RFC 4180 reader gets the columns' names and the cells' texts back**, row by row. -/
theorem records_toCsv (columns : List Text) (hcolumns : columns ≠ [])
    (rows : List (List (Cell N))) (hwidth : ∀ row ∈ rows, row.length = columns.length) :
    (toCsv columns rows).map Csv.records =
      (rows.mapM formatRow).map fun texts => some (columns :: texts) := by
  rw [toCsv_eq]
  cases htexts : rows.mapM formatRow with
  | none => rfl
  | some texts =>
    have hne : ∀ record ∈ columns :: texts, record ≠ [] := by
      intro record hrecord
      rcases mem_cons.mp hrecord with rfl | hrecord
      · exact hcolumns
      · refine ne_nil_of_length_pos ?_
        rw [length_formatRows htexts hwidth record hrecord]
        exact length_pos_of_ne_nil hcolumns
    have hwritten : List.Forall₂ (List.Forall₂ Csv.Written) (columns :: texts)
        ((columns :: texts).map (List.map quoteField)) :=
      List.forall₂_map_right_iff.mpr (List.forall₂_same.mpr fun ss _ => written_quoteFields ss)
    show some (Csv.records _) = some (some (columns :: texts))
    rw [Csv.records_lines hwritten hne]

theorem records_toCsv_comma : (toCsv ["a,b".toList, ['c']]
    [[(.string "\"x\"\r\n".toList : Cell intNumbers), .null]]).map Csv.records =
      some (some [["a,b".toList, ['c']], ["\"x\"\r\n".toList, []]]) :=
  records_toCsv _ (by decide) _ (by decide)

end

end Veesker.Export
