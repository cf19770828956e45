/-
  File:      Veesker/Command/Formatter.lean
  Subject:   THE LISTING OF A RESULT (src/lib/command/formatter.ts `formatRows`): widths, cells, lines
             and pages.

  Texts are code units, as the widths count them. What the run time makes of numbers is a parameter.

  * `computeWidths_fits` -- every cell fits its column, and every column the line size;
  * **`formatRows_listed`**: where there is a column, every row is one line, all lines are of one
    length, and with headings on the header stands in front of every page; where there is none,
    nothing is printed.
  * `heading_off` -- with headings off no header stands in front of the first row.
-/
import Veesker.Command.Decoder

namespace Veesker.Command

open List

variable {widths : List Nat}

/-! ## 1. Settings and values -/

/-- The settings the formatter reads. -/
structure FormatSettings where
  linesize : Nat := 80
  pagesize : Nat := 14
  feedback : Bool := true
  heading : Bool := true
  null : Units := []
  colsep : Units := [32]
  numformat : Units := []
  deriving DecidableEq

structure QueryColumn where
  name : Units
  dataType : Text
  deriving DecidableEq

/-- A date as its local time has it; the fields of an invalid one are no numbers. -/
structure LocalTime where
  fullYear : Int
  month : Fin 12
  date : Nat
  hours : Nat
  minutes : Nat
  seconds : Nat
  deriving DecidableEq

/-- A value of a row. What is neither a number, a Boolean, a string nor a date is given by its JSON
    text, or by `String(value)` where it has none. -/
inductive CellValue (ν : Type) where
  | missing
  | number (n : ν)
  | boolean (b : Bool)
  | string (s : Units)
  | date (d : Option LocalTime)
  | other (text : Units)

/-- What the run time makes of a number: `String(value)`, and `Intl.NumberFormat("en-US")` with a
    number of fraction digits and with or without groups, none where that throws. -/
structure NumberTexts (ν : Type) where
  text : ν → Units
  format : Nat → Bool → ν → Option Units

def NUMERIC_TYPES : List Text :=
  ["NUMBER".toList, "FLOAT".toList, "INTEGER".toList, "DECIMAL".toList, "DOUBLE".toList,
    "BINARY_FLOAT".toList, "BINARY_DOUBLE".toList]

/-- `NUMERIC_TYPE_RE.test(c.dataType)`. -/
def isNumericCol (c : QueryColumn) : Bool :=
  NUMERIC_TYPES.any fun w => w.isPrefixOf (c.dataType.map Char.toUpper)

def ORACLE_MONTHS : List Units :=
  [ascii "JAN", ascii "FEB", ascii "MAR", ascii "APR", ascii "MAY", ascii "JUN", ascii "JUL",
    ascii "AUG", ascii "SEP", ascii "OCT", ascii "NOV", ascii "DEC"]

def padStart (width : Nat) (fill : UInt16) (s : Units) : Units :=
  List.replicate (width - s.length) fill ++ s

def padEnd (width : Nat) (fill : UInt16) (s : Units) : Units :=
  s ++ List.replicate (width - s.length) fill

/-- `String(n)` of a whole number. -/
def intUnits (n : Int) : Units := ascii (toString n)

/-- `String(n).padStart(2, '0')`. -/
def twoDigits (n : Nat) : Units := padStart 2 48 (intUnits n)

def formatOracleDate : Option LocalTime → Units
  | none => ascii "NaN-undefined-N NaN:NaN:NaN"
  | some d =>
    twoDigits d.date ++ ascii "-" ++ ORACLE_MONTHS.getD d.month [] ++ ascii "-" ++
      (intUnits d.fullYear).drop 2 ++ ascii " " ++ twoDigits d.hours ++ ascii ":" ++
      twoDigits d.minutes ++ ascii ":" ++ twoDigits d.seconds

/-- A `9` or a `0`. -/
def isDigitMarker (u : UInt16) : Bool := u == 57 || u == 48

/-- The digit markers right behind the last point, if there is one. -/
def fractionDigits (numformat : Units) : Nat :=
  if 46 ∈ numformat then
    (((numformat.reverse.takeWhile (· ≠ 46)).reverse).takeWhile isDigitMarker).length
  else 0

section

variable {ν : Type} (N : NumberTexts ν)

def stringifyNumber (value : ν) (numformat : Units) : Units :=
  if numformat = [] then N.text value
  else if numformat.any isDigitMarker then
    match N.format (fractionDigits numformat) (numformat.contains 44) value with
    | some formatted => if numformat.head? = some 36 then 36 :: formatted else formatted
    | none => N.text value
  else N.text value

def stringifyValue (value : CellValue ν) (settings : FormatSettings) (isNumeric : Bool) : Units :=
  match value with
  | .missing => settings.null
  | .number n => if isNumeric then stringifyNumber N n settings.numformat else N.text n
  | .boolean b => if b then ascii "true" else ascii "false"
  | .string s => s
  | .date d => formatOracleDate d
  | .other text => text

end

/-! ## 2. Cells and lines -/

def truncate (s : Units) (maxLen : Nat) : Units :=
  if s.length ≤ maxLen then s
  else if maxLen ≤ 3 then s.take maxLen
  else s.take (maxLen - 3) ++ ascii "..."

def padCell (value : Units) (width : Nat) (numeric : Bool) : Units :=
  let value := if width < value.length then truncate value width else value
  if numeric then padStart width 32 value else padEnd width 32 value

/-- `renderHeader`, its first line and its second. -/
def titleLine (columns : List QueryColumn) (widths : List Nat) (colsep : Units) : Units :=
  List.intercalate colsep (List.zipWith (fun c w => padCell c.name w false) columns widths)

def dashLine (widths : List Nat) (colsep : Units) : Units :=
  List.intercalate colsep (widths.map fun w => List.replicate w 45)

def renderHeader (columns : List QueryColumn) (widths : List Nat) (colsep : Units) : Units :=
  titleLine columns widths colsep ++ 10 :: (dashLine widths colsep ++ [10])

def paddedCells (cells : List Units) (columns : List QueryColumn) (widths : List Nat) :
    List Units :=
  List.zipWith (fun s wc => padCell s wc.1 (isNumericCol wc.2)) cells (List.zip widths columns)

def renderDataLine (cells : List Units) (columns : List QueryColumn) (widths : List Nat)
    (colsep : Units) : Units :=
  List.intercalate colsep (paddedCells cells columns widths) ++ [10]

section

variable {ν : Type} (N : NumberTexts ν) (settings : FormatSettings) (columns : List QueryColumn)

/-- A row's texts, none longer than the line size. -/
def renderRow (row : List (CellValue ν)) : List Units :=
  columns.mapIdx fun i col =>
    let s := stringifyValue N (row.getD i .missing) settings (isNumericCol col)
    if settings.linesize < s.length then truncate s settings.linesize else s

/-- `if (s.length > widths[i]) widths[i] = s.length`. -/
def widenOne (w : Nat) (s : Units) : Nat := if w < s.length then s.length else w

def widen (widths : List Nat) (cells : List Units) : List Nat := List.zipWith widenOne widths cells

def clampWidth (w : Nat) : Nat :=
  let w := if settings.linesize < w then settings.linesize else w
  if w < 1 then 1 else w

def computeWidths (rows : List (List (CellValue ν))) : List Nat × List (List Units) :=
  let rendered := rows.map (renderRow N settings columns)
  let start := columns.map fun c => max (if settings.heading then c.name.length else 1) 1
  ((rendered.foldl widen start).map (clampWidth settings), rendered)

/-- The rows from one of them on, `rowsSinceHeader` of them behind the last header. -/
def formatFrom (header : Units) (line : List Units → Units) (rowsSinceHeader : Nat) :
    List (List Units) → Units
  | [] => []
  | cells :: rest =>
    line cells ++
      if settings.heading ∧ 0 < settings.pagesize ∧ settings.pagesize ≤ rowsSinceHeader + 1 ∧ rest ≠ []
      then 10 :: (header ++ formatFrom header line 0 rest)
      else formatFrom header line (rowsSinceHeader + 1) rest

def formatRows (rows : List (List (CellValue ν))) : Units :=
  if rows = [] ∧ ¬ settings.heading ∧ ¬ settings.feedback then []
  else if columns = [] then []
  else
    let (widths, rendered) := computeWidths N settings columns rows
    let header := renderHeader columns widths settings.colsep
    (if settings.heading then header else []) ++
      formatFrom settings header (fun cells => renderDataLine cells columns widths settings.colsep) 0
        rendered

end

/-- Natural numbers in decimal, whatever the format. -/
def natTexts : NumberTexts Nat := ⟨fun n => ascii (toString n), fun _ _ n => some (ascii (toString n))⟩

example : formatRows natTexts {}
    [⟨ascii "ID", "NUMBER".toList⟩, ⟨ascii "N", "VARCHAR2".toList⟩]
    [[.number 7, .string (ascii "ab")]] = ascii "ID N \n-- --\n 7 ab\n" := by decide

/-! ## 3. Lengths -/

theorem length_truncate {s : Units} {maxLen : Nat} (h : maxLen < s.length) :
    (truncate s maxLen).length = maxLen := by
  rw [truncate, if_neg (by omega)]
  split
  · rw [length_take]
    omega
  · have hdots : (ascii "...").length = 3 := rfl
    rw [length_append, length_take, hdots]
    omega

theorem truncate_of_le {s : Units} {maxLen : Nat} (h : s.length ≤ maxLen) : truncate s maxLen = s :=
  if_pos h

/-- **A padded cell is as wide as its column.** -/
theorem length_padCell (value : Units) (width : Nat) (numeric : Bool) :
    (padCell value width numeric).length = width := by
  have hcut : (if width < value.length then truncate value width else value).length ≤ width := by
    split
    · rename_i h
      exact (length_truncate h).le
    · omega
  rw [padCell]
  split
  · rw [padStart, length_append, length_replicate]
    omega
  · rw [padEnd, length_append, length_replicate]
    omega

theorem padCell_of_le {value : Units} {width : Nat} (h : value.length ≤ width) (numeric : Bool) :
    ∃ k m, padCell value width numeric = List.replicate k 32 ++ value ++ List.replicate m 32 := by
  rw [padCell, if_neg (Nat.not_lt.mpr h)]
  cases numeric with
  | true => exact ⟨width - value.length, 0, (append_nil _).symm⟩
  | false => exact ⟨0, width - value.length, rfl⟩

/-- How long texts are together depends on their lengths only. -/
theorem length_intercalate_congr (sep : Units) {l l' : List Units}
    (h : l.map List.length = l'.map List.length) :
    (List.intercalate sep l).length = (List.intercalate sep l').length := by
  induction l generalizing l' with
  | nil =>
    obtain rfl := map_eq_nil_iff.mp h.symm
    rfl
  | cons a l ih =>
    cases l' with
    | nil => cases h
    | cons a' l' =>
      rw [map_cons, map_cons, List.cons.injEq] at h
      cases l with
      | nil =>
        obtain rfl := map_eq_nil_iff.mp h.2.symm
        rw [intercalate_singleton, intercalate_singleton, h.1]
      | cons b l =>
        cases l' with
        | nil => cases h.2
        | cons b' l' =>
          rw [intercalate_cons_cons, intercalate_cons_cons]
          simp only [length_append, h.1, ih h.2]

theorem mem_intercalate {u : UInt16} {sep : Units} {l : List Units}
    (h : u ∈ List.intercalate sep l) : u ∈ sep ∨ ∃ s ∈ l, u ∈ s := by
  induction l with
  | nil => cases h
  | cons a l ih =>
    cases l with
    | nil =>
      rw [intercalate_singleton] at h
      exact .inr ⟨a, mem_cons_self, h⟩
    | cons b l =>
      rw [intercalate_cons_cons, mem_append, mem_append] at h
      rcases h with (h | h) | h
      · exact .inr ⟨a, mem_cons_self, h⟩
      · exact .inl h
      · exact (ih h).imp_right fun ⟨s, hs, hu⟩ => ⟨s, mem_cons_of_mem _ hs, hu⟩

/-! ## 4. Widths -/

/-- Each cell fits its column. -/
def Fits (cells : List Units) (widths : List Nat) : Prop :=
  List.Forall₂ (fun s w => s.length ≤ w) cells widths

variable {cells : List Units}

theorem length_widen (h : cells.length = widths.length) :
    (widen widths cells).length = widths.length := by
  rw [widen, length_zipWith, h, Nat.min_self]

theorem length_le_widenOne (w : Nat) (s : Units) : s.length ≤ widenOne w s := by
  rw [widenOne]
  split <;> omega

theorem le_widenOne (w : Nat) (s : Units) : w ≤ widenOne w s := by
  rw [widenOne]
  split <;> omega

theorem fits_widen (h : cells.length = widths.length) :
    Fits cells (widen widths cells) := by
  induction widths generalizing cells with
  | nil =>
    obtain rfl := length_eq_zero_iff.mp h
    exact .nil
  | cons w widths ih =>
    cases cells with
    | nil => cases h
    | cons s cells => exact .cons (length_le_widenOne w s) (ih (Nat.succ.inj h))

theorem Fits.widen (h : Fits cells widths)
    {cells' : List Units} (hl : cells'.length = widths.length) : Fits cells (widen widths cells') := by
  induction h generalizing cells' with
  | nil =>
    obtain rfl := length_eq_zero_iff.mp hl
    exact .nil
  | cons hs _ ih =>
    cases cells' with
    | nil => cases hl
    | cons s' cells' => exact .cons (hs.trans (le_widenOne _ s')) (ih (Nat.succ.inj hl))

/-- Widening row by row: the number of columns stays, what fits goes on fitting, and every row
    fits in the end. -/
theorem foldl_widen {rendered : List (List Units)}
    (h : ∀ cells ∈ rendered, cells.length = widths.length) :
    (rendered.foldl widen widths).length = widths.length ∧
      (∀ cells, Fits cells widths → Fits cells (rendered.foldl widen widths)) ∧
      ∀ cells ∈ rendered, Fits cells (rendered.foldl widen widths) := by
  induction rendered generalizing widths with
  | nil => exact ⟨rfl, fun _ h => h, nofun⟩
  | cons row rendered ih =>
    have hrow := h row mem_cons_self
    have hlength := length_widen hrow
    have hrest : ∀ cells ∈ rendered, cells.length = (widen widths row).length := by
      intro cells hc
      rw [hlength]
      exact h cells (mem_cons_of_mem _ hc)
    obtain ⟨h1, h2, h3⟩ := ih hrest
    refine ⟨h1.trans hlength, fun cells hf => h2 cells (hf.widen hrow), fun cells hc => ?_⟩
    rcases mem_cons.mp hc with rfl | hc
    · exact h2 _ (fits_widen hrow)
    · exact h3 cells hc

section

variable {ν : Type} {N : NumberTexts ν} {settings : FormatSettings} {columns : List QueryColumn}

theorem clampWidth_le (hline : 1 ≤ settings.linesize) (w : Nat) :
    1 ≤ clampWidth settings w ∧ clampWidth settings w ≤ settings.linesize := by
  rw [clampWidth]
  split <;> split <;> omega

/-- What fits a column and the line size fits the clamped column. -/
theorem Fits.clamp (h : Fits cells widths)
    (hcells : ∀ s ∈ cells, s.length ≤ settings.linesize) :
    Fits cells (widths.map (clampWidth settings)) := by
  induction h with
  | nil => exact .nil
  | cons hs _ ih =>
    rw [forall_mem_cons] at hcells
    refine .cons ?_ (ih hcells.2)
    rw [clampWidth]
    split <;> split <;> omega

theorem length_renderRow (row : List (CellValue ν)) :
    (renderRow N settings columns row).length = columns.length := length_mapIdx

/-- The text of a value, cut to the line size. -/
theorem getElem_renderRow (N : NumberTexts ν) (settings : FormatSettings)
    (row : List (CellValue ν)) {i : Nat} {col : QueryColumn} (h : columns[i]? = some col) : (renderRow N settings columns row)[i]? =
      some (truncate (stringifyValue N (row.getD i .missing) settings (isNumericCol col))
        settings.linesize) := by
  rw [renderRow, List.getElem?_mapIdx, h, Option.map_some]
  dsimp only
  split
  · rfl
  · rename_i hle
    rw [truncate_of_le (Nat.not_lt.mp hle)]

theorem renderRow_le (row : List (CellValue ν)) :
    ∀ s ∈ renderRow N settings columns row, s.length ≤ settings.linesize := by
  intro s hs
  obtain ⟨i, hi, he⟩ := mem_mapIdx.mp hs
  rw [← he]
  dsimp only
  split
  · rename_i h
    exact (length_truncate h).le
  · omega

/-- **The widths of a listing**: one for each column, within the line size, and every cell fits. -/
theorem computeWidths_fits (hline : 1 ≤ settings.linesize) (rows : List (List (CellValue ν))) :
    (computeWidths N settings columns rows).1.length = columns.length ∧
      (∀ w ∈ (computeWidths N settings columns rows).1, 1 ≤ w ∧ w ≤ settings.linesize) ∧
      ∀ row ∈ rows, Fits (renderRow N settings columns row)
        (computeWidths N settings columns rows).1 := by
  rw [computeWidths]
  dsimp only
  obtain ⟨start, hstart⟩ : ∃ start,
      columns.map (fun c => max (if settings.heading then c.name.length else 1) 1) = start := ⟨_, rfl⟩
  have hlength : start.length = columns.length := by rw [← hstart, length_map]
  have hcells : ∀ cells ∈ rows.map (renderRow N settings columns), cells.length = start.length := by
    intro cells hc
    obtain ⟨row, -, rfl⟩ := mem_map.mp hc
    rw [length_renderRow, hlength]
  obtain ⟨h1, -, h3⟩ := foldl_widen hcells
  rw [hstart]
  refine ⟨?_, ?_, ?_⟩
  · rw [length_map, h1, hlength]
  · intro w hw
    obtain ⟨w', -, rfl⟩ := mem_map.mp hw
    exact clampWidth_le hline w'
  · intro row hrow
    exact (h3 _ (mem_map_of_mem hrow)).clamp (renderRow_le row)

/-! ## 5. Lines -/

variable {columns : List QueryColumn}

theorem map_length_padded
    (hc : cells.length = columns.length) (hw : widths.length = columns.length) :
    (paddedCells cells columns widths).map List.length = widths := by
  induction columns generalizing cells widths with
  | nil =>
    obtain rfl := length_eq_zero_iff.mp hw
    rw [paddedCells, zip_nil_left, zipWith_nil_right]
    rfl
  | cons col columns ih =>
    obtain ⟨s, cells, rfl⟩ := exists_cons_of_length_eq_add_one hc
    obtain ⟨w, widths, rfl⟩ := exists_cons_of_length_eq_add_one hw
    have hrest := ih (Nat.succ.inj hc) (Nat.succ.inj hw)
    rw [paddedCells] at hrest ⊢
    rw [zip_cons_cons, zipWith_cons_cons, map_cons, length_padCell, hrest]

theorem map_length_titles
    (hw : widths.length = columns.length) :
    (List.zipWith (fun c w => padCell c.name w false) columns widths).map List.length = widths := by
  induction columns generalizing widths with
  | nil =>
    obtain rfl := length_eq_zero_iff.mp hw
    rfl
  | cons col columns ih =>
    obtain ⟨w, widths, rfl⟩ := exists_cons_of_length_eq_add_one hw
    rw [zipWith_cons_cons, map_cons, length_padCell, ih (Nat.succ.inj hw)]

theorem map_length_dashes (widths : List Nat) :
    (widths.map fun w => List.replicate w (45 : UInt16)).map List.length = widths := by
  rw [map_map]
  exact map_id'' (fun w => length_replicate) widths

theorem getElem_padded
    {i : Nat} {s : Units} {w : Nat} {col : QueryColumn} (hs : cells[i]? = some s)
    (hw : widths[i]? = some w) (hc : columns[i]? = some col) :
    (paddedCells cells columns widths)[i]? = some (padCell s w (isNumericCol col)) :=
  List.getElem?_zipWith_eq_some.mpr ⟨s, (w, col), hs, List.getElem?_zip_eq_some.mpr ⟨hw, hc⟩, rfl⟩

/-- `cell` shows `text` in a column: as wide as the column, the text cut to the line size, and
    spaces around it. -/
def ShowsText (linesize width : Nat) (text cell : Units) : Prop :=
  cell.length = width ∧ ∃ k m, cell =
    List.replicate k 32 ++ truncate text linesize ++ List.replicate m 32

/-- `line` shows the row: a cell for each column, the separator in between. -/
def ShowsRow (N : NumberTexts ν) (settings : FormatSettings) (columns : List QueryColumn)
    (widths : List Nat) (row : List (CellValue ν)) (line : Units) : Prop :=
  ∃ cells : List Units, line = List.intercalate settings.colsep cells ∧
    cells.length = columns.length ∧
    ∀ (i : Nat) (col : QueryColumn), columns[i]? = some col →
      ∃ cell w, cells[i]? = some cell ∧ widths[i]? = some w ∧
        ShowsText settings.linesize w
          (stringifyValue N (row.getD i .missing) settings (isNumericCol col)) cell

/-- The line of a row, without its end. -/
def dataLine (N : NumberTexts ν) (settings : FormatSettings) (columns : List QueryColumn)
    (widths : List Nat) (row : List (CellValue ν)) : Units :=
  List.intercalate settings.colsep
    (paddedCells (renderRow N settings columns row) columns widths)

theorem dataLine_shows (hw : widths.length = columns.length)
    {row : List (CellValue ν)} (hfits : Fits (renderRow N settings columns row) widths) :
    ShowsRow N settings columns widths row (dataLine N settings columns widths row) := by
  have hcells : (renderRow N settings columns row).length = columns.length := length_renderRow row
  have hlengths := map_length_padded hcells hw
  refine ⟨_, rfl, ?_, fun i col hcol => ?_⟩
  · rw [← hw, ← congrArg List.length hlengths, length_map]
  · have hs := getElem_renderRow N settings row hcol
    have hi : i < widths.length := hw ▸ (List.getElem?_eq_some_iff.mp hcol).1
    have hwi : widths[i]? = some widths[i] := List.getElem?_eq_getElem hi
    have hle := List.forall₂_iff_get.mp hfits
    refine ⟨_, _, getElem_padded hs hwi hcol, hwi, length_padCell _ _ _, ?_⟩
    obtain ⟨hsi, he⟩ := List.getElem?_eq_some_iff.mp hs
    have hcell := hle.2 i hsi hi
    rw [get_eq_getElem, get_eq_getElem, he] at hcell
    exact padCell_of_le hcell _

/-! ## 6. Pages -/

/-- The lines from line `i` on; in front of those `headed` says, but for the first, a header behind
    an empty line. -/
def listingFrom (headed : Nat → Bool) (header : Units) : Nat → List Units → Units
  | _, [] => []
  | i, line :: lines =>
    (if 0 < i ∧ headed i then 10 :: header else []) ++ line ++ listingFrom headed header (i + 1) lines

/-- A listing: its header, if it begins with one, and its lines. -/
def listing (headed : Nat → Bool) (header : Units) (lines : List Units) : Units :=
  (if headed 0 then header else []) ++ listingFrom headed header 0 lines

/-- With headings on the first row of every page is headed; pages of no rows are one page. -/
def startsPage (settings : FormatSettings) (i : Nat) : Bool :=
  settings.heading && i % settings.pagesize == 0

/-- Counting on from row to row. -/
theorem mod_next {i p : Nat} (hp : 0 < p) :
    (i + 1) % p = if p ≤ i % p + 1 then 0 else i % p + 1 := by
  have hlt := Nat.mod_lt i hp
  have hsplit : (i + 1) % p = (i % p + 1) % p := (Nat.mod_add_mod i p 1).symm
  rw [hsplit]
  split
  · have hfull : i % p + 1 = p := by omega
    rw [hfull, Nat.mod_self]
  · exact Nat.mod_eq_of_lt (by omega)

/-- **The loop over the rows**, one of them printed: `since` counts the rows of the page. -/
theorem formatFrom_cons {header : Units} {line : List Units → Units}
    {rest : List (List Units)} {i since : Nat}
    (hsince : settings.heading = true → 0 < settings.pagesize → since = i % settings.pagesize) :
    formatFrom settings header line since (cells :: rest) =
      line cells ++ listingFrom (startsPage settings) header (i + 1) (rest.map line) := by
  induction rest generalizing cells i since with
  | nil =>
    rw [formatFrom, if_neg fun h => h.2.2.2 rfl]
    rfl
  | cons cells' rest ih =>
    rw [formatFrom, map_cons, listingFrom]
    have hstarts : startsPage settings (i + 1) = true ↔
        settings.heading = true ∧ 0 < settings.pagesize ∧ settings.pagesize ≤ since + 1 := by
      rw [startsPage, Bool.and_eq_true, beq_iff_eq]
      refine and_congr_right fun hheading => ?_
      rcases Nat.eq_zero_or_pos settings.pagesize with hp | hp
      · rw [hp]
        simp
      · rw [hsince hheading hp, mod_next hp, and_iff_right hp]
        split <;> simp_all
    by_cases hpage : settings.heading = true ∧ 0 < settings.pagesize ∧ settings.pagesize ≤ since + 1
    · rw [if_pos ⟨hpage.1, hpage.2.1, hpage.2.2, cons_ne_nil _ _⟩,
        if_pos ⟨Nat.succ_pos i, hstarts.mpr hpage⟩]
      have hzero : settings.heading = true → 0 < settings.pagesize →
          0 = (i + 1) % settings.pagesize := by
        intro hheading hp
        rw [mod_next hp, ← hsince hheading hp, if_pos hpage.2.2]
      rw [ih hzero]
      simp only [cons_append, append_assoc]
    · rw [if_neg fun h => hpage ⟨h.1, h.2.1, h.2.2.1⟩, if_neg fun h => hpage (hstarts.mp h.2)]
      have hcount : settings.heading = true → 0 < settings.pagesize →
          since + 1 = (i + 1) % settings.pagesize := by
        intro hheading hp
        rw [mod_next hp, ← hsince hheading hp, if_neg fun h => hpage ⟨hheading, hp, h⟩]
      rw [ih hcount, nil_append]

theorem formatFrom_listing {header : Units} {line : List Units → Units}
    (rendered : List (List Units)) : formatFrom settings header line 0 rendered =
      listingFrom (startsPage settings) header 0 (rendered.map line) := by
  cases rendered with
  | nil => rfl
  | cons cells rest =>
    rw [formatFrom_cons (i := 0) fun _ _ => (Nat.zero_mod _).symm, map_cons, listingFrom,
      if_neg fun h => absurd h.1 (Nat.lt_irrefl 0), nil_append]

/-! ## 7. The listing -/

/-- What a listing shows: every row in a line of its own, in order, no cell wider than the line
    size, lines of one length, and the header where `headed` says. Where no text of a cell, no name
    and no separator has a newline, no line has one. -/
def Listed (N : NumberTexts ν) (settings : FormatSettings) (columns : List QueryColumn)
    (rows : List (List (CellValue ν))) (headed : Nat → Bool) (out : Units) : Prop :=
  ∃ (widths : List Nat) (lines : List Units) (length : Nat),
    let titles := titleLine columns widths settings.colsep
    let dashes := dashLine widths settings.colsep
    out = listing headed (titles ++ 10 :: (dashes ++ [10])) (lines.map (· ++ [10])) ∧
    widths.length = columns.length ∧ (∀ w ∈ widths, w ≤ settings.linesize) ∧
    List.Forall₂ (ShowsRow N settings columns widths) rows lines ∧
    (∀ line ∈ titles :: dashes :: lines, line.length = length) ∧
    ((∀ row ∈ rows, ∀ (i : Nat) (col : QueryColumn), columns[i]? = some col →
        10 ∉ stringifyValue N (row.getD i .missing) settings (isNumericCol col)) →
      (∀ col ∈ columns, 10 ∉ col.name) → 10 ∉ settings.colsep →
      ∀ line ∈ titles :: dashes :: lines, 10 ∉ line)

theorem mem_truncate {u : UInt16} {s : Units} {maxLen : Nat} (h : u ∈ truncate s maxLen) :
    u ∈ s ∨ u = 46 := by
  rw [truncate] at h
  split at h
  · exact .inl h
  · split at h
    · exact .inl (mem_of_mem_take h)
    · rcases mem_append.mp h with h | h
      · exact .inl (mem_of_mem_take h)
      · have hdots : ascii "..." = List.replicate 3 46 := by decide
        rw [hdots] at h
        exact .inr (mem_replicate.mp h).2

theorem mem_padCell {u : UInt16} {value : Units} {width : Nat} {numeric : Bool}
    (h : u ∈ padCell value width numeric) : u ∈ value ∨ u = 46 ∨ u = 32 := by
  have hcut : u ∈ (if width < value.length then truncate value width else value) → u ∈ value ∨ u = 46 := by
    intro hu
    split at hu
    · exact mem_truncate hu
    · exact .inl hu
  rw [padCell] at h
  split at h
  · rcases mem_append.mp h with h | h
    · exact .inr (.inr (mem_replicate.mp h).2)
    · exact (hcut h).imp_right .inl
  · rcases mem_append.mp h with h | h
    · exact (hcut h).imp_right .inl
    · exact .inr (.inr (mem_replicate.mp h).2)

/-- The widths of a listing make its lines one length. -/
theorem lines_length (hw : widths.length = columns.length)
    (rows : List (List (CellValue ν))) :
    ∀ line ∈ titleLine columns widths settings.colsep :: dashLine widths settings.colsep ::
        rows.map (dataLine N settings columns widths),
      line.length = (dashLine widths settings.colsep).length := by
  rw [forall_mem_cons, forall_mem_cons]
  refine ⟨length_intercalate_congr _ ?_, rfl, fun line hline => ?_⟩
  · rw [map_length_titles hw, map_length_dashes]
  · obtain ⟨row, -, rfl⟩ := mem_map.mp hline
    refine length_intercalate_congr _ ?_
    rw [map_length_padded (length_renderRow row) hw, map_length_dashes]

theorem lines_plain {rows : List (List (CellValue ν))}
    (hcells : ∀ row ∈ rows, ∀ (i : Nat) (col : QueryColumn), columns[i]? = some col →
      10 ∉ stringifyValue N (row.getD i .missing) settings (isNumericCol col))
    (hnames : ∀ col ∈ columns, 10 ∉ col.name) (hsep : 10 ∉ settings.colsep) :
    ∀ line ∈ titleLine columns widths settings.colsep :: dashLine widths settings.colsep ::
      rows.map (dataLine N settings columns widths), 10 ∉ line := by
  rw [forall_mem_cons, forall_mem_cons]
  refine ⟨fun h => ?_, fun h => ?_, fun line hline h => ?_⟩
  · obtain ⟨s, hs, hu⟩ := (mem_intercalate h).resolve_left hsep
    obtain ⟨i, hi⟩ := mem_iff_getElem?.mp hs
    obtain ⟨col, w, hcol, -, rfl⟩ := List.getElem?_zipWith_eq_some.mp hi
    rcases mem_padCell hu with hu | hu | hu
    · exact hnames col (mem_of_getElem? hcol) hu
    · exact absurd hu (by decide)
    · exact absurd hu (by decide)
  · obtain ⟨s, hs, hu⟩ := (mem_intercalate h).resolve_left hsep
    obtain ⟨w, -, rfl⟩ := mem_map.mp hs
    exact absurd (mem_replicate.mp hu).2 (by decide)
  · obtain ⟨row, hrow, rfl⟩ := mem_map.mp hline
    obtain ⟨s, hs, hu⟩ := (mem_intercalate h).resolve_left hsep
    obtain ⟨i, hi⟩ := mem_iff_getElem?.mp hs
    obtain ⟨cell, wc, hcell, hwc, rfl⟩ := List.getElem?_zipWith_eq_some.mp hi
    have hcol := (List.getElem?_zip_eq_some.mp hwc).2
    rw [getElem_renderRow N settings row hcol] at hcell
    cases hcell
    rcases mem_padCell hu with hu | hu | hu
    · rcases mem_truncate hu with hu | hu
      · exact hcells row hrow i _ hcol hu
      · exact absurd hu (by decide)
    · exact absurd hu (by decide)
    · exact absurd hu (by decide)

/-- **The rows of a result are listed**, page by page, where there is a column; with none, nothing
    is printed. -/
theorem formatRows_listed (N : NumberTexts ν) (settings : FormatSettings)
    (hline : 1 ≤ settings.linesize) (columns : List QueryColumn) (rows : List (List (CellValue ν))) :
    if columns = [] then formatRows N settings columns rows = []
    else Listed N settings columns rows (startsPage settings) (formatRows N settings columns rows) := by
  obtain ⟨hlength, hwidths, hfits⟩ := @computeWidths_fits _ N settings columns hline rows
  obtain ⟨widths, hcompute⟩ : ∃ widths, (computeWidths N settings columns rows).1 = widths := ⟨_, rfl⟩
  rw [hcompute] at hlength hwidths hfits
  have hfirst : startsPage settings 0 = settings.heading := by
    rw [startsPage, Nat.zero_mod, beq_self_eq_true, Bool.and_true]
  split
  · rename_i hcol
    rw [formatRows, if_pos hcol, ite_self]
  · rename_i hcol
    refine ⟨widths, rows.map (dataLine N settings columns widths), _, ?_, hlength,
      fun w hw => (hwidths w hw).2, ?_, lines_length hlength rows, lines_plain⟩
    · rw [formatRows]
      split
      · rename_i hnone
        rw [hnone.1, listing, hfirst, if_neg hnone.2.1]
        rfl
      · have hrendered : (computeWidths N settings columns rows).2 =
            rows.map (renderRow N settings columns) := rfl
        dsimp only
        rw [hcompute, listing, hfirst, formatFrom_listing, hrendered, map_map, map_map]
        rfl
    · rw [List.forall₂_map_right_iff]
      exact List.forall₂_same.mpr fun row hrow => dataLine_shows hlength (hfits row hrow)

end

/-- A text and a number. -/
theorem formatRows_listed_one : Listed natTexts {}
    [⟨ascii "ID", "NUMBER".toList⟩, ⟨ascii "N", "VARCHAR2".toList⟩]
    [[.number 7, .string (ascii "ab")]] (startsPage {})
    (formatRows natTexts {} [⟨ascii "ID", "NUMBER".toList⟩, ⟨ascii "N", "VARCHAR2".toList⟩]
      [[.number 7, .string (ascii "ab")]]) :=
  formatRows_listed natTexts {} (by decide) [_, _] _

/-- **With headings off** no header stands in front of the first row. -/
theorem heading_off :
    formatRows natTexts { heading := false } [⟨ascii "N", "VARCHAR2".toList⟩]
      [[.string (ascii "ab")]] = ascii "ab\n" ∧
    ¬ Listed natTexts { heading := false } [⟨ascii "N", "VARCHAR2".toList⟩]
      [[.string (ascii "ab")]] (fun i => i % 14 == 0)
      (formatRows natTexts { heading := false } [⟨ascii "N", "VARCHAR2".toList⟩]
        [[.string (ascii "ab")]]) := by
  refine ⟨by decide, ?_⟩
  intro h
  obtain ⟨widths, lines, length, hout, -⟩ := h
  have hcount := congrArg (List.count 10) hout
  have hone : List.count 10 (formatRows natTexts { heading := false }
      [⟨ascii "N", "VARCHAR2".toList⟩] [[.string (ascii "ab")]]) = 1 := by decide
  rw [hone, listing, if_pos (by decide)] at hcount
  simp only [count_append, count_cons_self] at hcount
  omega

end Veesker.Command
