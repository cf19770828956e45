/-
  File:      Veesker/Export/Insert.lean
  Subject:   ROWS AS INSERT STATEMENTS (src/lib/csv-export.ts `toInsertSql`, `insertValue`), split by
             the statement splitter.

  * `stands_insertStatement` -- a row's statement stands for itself, whatever its values hold;
  * **`splitSql_toInsertSql`** -- the text is split into one statement a row, in order.
-/
import Veesker.Export.Csv
import Veesker.Splitter.Terminated

namespace Veesker.Export

open Format Sandbox Sidecar Splitter List

/-! ## 1. The model -/

section

variable {ν : Type} {N : Numbers ν}

/-- A date's literal: a day where the time is midnight, else a timestamp. -/
def insertDate (time : Moment) : Text :=
  let iso := toISOString time
  if "T00:00:00.000Z".toList.isSuffixOf iso then
    "TO_DATE('".toList ++ (iso.take 10 ++ "','YYYY-MM-DD')".toList)
  else "TIMESTAMP '".toList ++ ((iso.replace 'T' ' ').take 19 ++ ['\''])

/-- `'${s.replace(/'/g, "''")}'`. -/
def insertText (s : Text) : Text := '\'' :: (doubleQuotes s ++ ['\''])

/-- The literal of a cell; none is an exception. -/
def insertValue : Cell N → Option Text
  | .null | .undefined => some "NULL".toList
  | .number n => some (N.text n)
  | .nan => some "NaN".toList
  | .infinity negative => some (infinityText negative)
  | .boolean b => some (booleanText b)
  | .date time => time.map insertDate
  | .string s => some (insertText s)
  | .other _ string => string.map insertText

/-- `row.map(insertValue)`. -/
def insertRow (row : List (Cell N)) : Option (List Text) := row.mapM insertValue

/-- A name between double quotes. -/
def quoteName (name : Text) : Text := '"' :: (name ++ ['"'])

/-- `INSERT INTO "${tableName}" (${colList}) VALUES (${values})`. -/
def insertStatement (tableName : Text) (columns values : List Text) : Text :=
  "INSERT INTO ".toList ++ (quoteName tableName ++ (" (".toList ++
    (List.intercalate ", ".toList (columns.map quoteName) ++ (") VALUES (".toList ++
      (List.intercalate ", ".toList values ++ [')'])))))

def toInsertSql (tableName : Text) (columns : List Text) (rows : List (List (Cell N))) :
    Option Text :=
  if rows = [] then some []
  else do
    let lines ← rows.mapM fun row => do
      let values ← insertRow row
      some (insertStatement tableName columns values ++ [';'])
    some (List.intercalate ['\n'] lines ++ ['\n'])

/-- The cells that an INSERT has literals for. -/
def Cell.HasLiteral : Cell N → Prop
  | .null | .number _ | .string _ | .date _ => True
  | .undefined | .nan | .infinity _ | .boolean _ | .other _ _ => False

end

/-! ## 2. Literals, for the splitter -/

theorem doubleQuotes_cons (c : Char) (s : Text) :
    doubleQuotes (c :: s) = (if c = '\'' then ['\'', '\''] else [c]) ++ doubleQuotes s := rfl

theorem lex_doubled {s v : Text} (hv : v.head? ≠ some '\'') (before : Text) :
    lexEnd .inSingleString 0 (doubleQuotes s ++ ['\'']) v = (.code, 0) ∧
      plainSplits .inSingleString 0 before (doubleQuotes s ++ ['\'']) v = [] := by
  induction s generalizing before with
  | nil =>
    have hstep : lexStep .inSingleString '\'' v = (.code, 0, false) := by simp [lexStep, hv]
    show lexEnd .inSingleString 0 ['\''] v = _ ∧ plainSplits .inSingleString 0 before ['\''] v = _
    rw [lexEnd, plainSplits, nil_append, hstep]
    exact ⟨rfl, rfl⟩
  | cons c s ih =>
    rw [doubleQuotes_cons]
    by_cases hc : c = '\''
    · obtain ⟨hend, hno⟩ := ih (before ++ ['\''] ++ ['\''])
      have hstep : lexStep .inSingleString '\'' ('\'' :: (doubleQuotes s ++ ['\'']) ++ v) =
          (.inSingleString, 1, false) := rfl
      rw [if_pos hc]
      show lexEnd .inSingleString 0 ('\'' :: '\'' :: (doubleQuotes s ++ ['\''])) v = _ ∧
        plainSplits .inSingleString 0 before ('\'' :: '\'' :: (doubleQuotes s ++ ['\''])) v = _
      rw [lexEnd, plainSplits, hstep]
      exact ⟨hend, hno⟩
    · obtain ⟨hend, hno⟩ := ih (before ++ [c])
      have hstep : lexStep .inSingleString c (doubleQuotes s ++ ['\''] ++ v) =
          (.inSingleString, 0, false) := by simp [lexStep, hc]
      rw [if_neg hc, cons_append, nil_append, cons_append, lexEnd, plainSplits, hstep]
      exact ⟨hend, hno⟩

/-- **A text between quotes, its own doubled.** -/
theorem passes_insertText {s v : Text} (hv : v.head? ≠ some '\'') : Passes (insertText s) v := by
  have hstep : lexStep .code '\'' (doubleQuotes s ++ ['\''] ++ v) = (.inSingleString, 0, false) := by
    simp [lexStep, qOpens]
  obtain ⟨hend, hno⟩ := @lex_doubled s v hv ([] ++ ['\''])
  refine passes_of_lex ?_ ?_
  · rw [insertText, lexEnd, hstep]
    exact hend
  · rw [insertText, plainSplits, hstep]
    intro p hp
    rw [hno] at hp
    cases hp

/-- What is between quotes and holds none. -/
theorem passes_between {s v : Text} (hs : '\'' ∉ s) (hv : v.head? ≠ some '\'') :
    Passes ('\'' :: (s ++ ['\''])) v := by
  have h := @passes_insertText s v hv
  rwa [insertText, doubleQuotes_plain hs] at h

/-! ## 3. Numbers, for the splitter -/

theorem isCode_cons (c : Char) (t : Text) (next : Option Char) :
    isCode (c :: t) next = (opensNothing c (t.head?.or next) && isCode t next) := by
  cases t with
  | nil => exact (Bool.and_true _).symm
  | cons d t => rfl

theorem isCode_append {u t : Text} {next : Option Char} (hu : isCode u (t.head?.or next) = true)
    (ht : isCode t next = true) : isCode (u ++ t) next = true := by
  induction u with
  | nil => exact ht
  | cons c u ih =>
    rw [isCode_cons, Bool.and_eq_true] at hu
    rw [cons_append, isCode_cons, ih hu.2, Bool.and_true]
    cases u with
    | nil => exact hu.1
    | cons d u => exact hu.1

theorem opensNothing_digit {c : Char} (hc : c.isDigit = true) (next : Option Char) :
    opensNothing c next = true := by
  have hne : ∀ d : Char, d.isDigit = false → c ≠ d := by
    intro d hd h
    rw [h, hd] at hc
    cases hc
  simp [opensNothing, hne '-' rfl, hne 'n' rfl, hne 'N' rfl, hne 'q' rfl, hne 'Q' rfl, hne '/' rfl,
    hne '"' rfl, hne '\'' rfl, hne ';' rfl]

theorem isCode_digits {u : Text} (hu : ∀ c ∈ u, c.isDigit = true) (next : Option Char) :
    isCode u next = true := by
  induction u with
  | nil => rfl
  | cons c u ih =>
    rw [isCode_cons, opensNothing_digit (hu c mem_cons_self),
      ih fun d hd => hu d (mem_cons_of_mem c hd)]
    rfl

/-- Digits in front of code. -/
theorem isCode_behind_digits {t : Text} {next : Option Char}
    (h : isCode (t.dropWhile Char.isDigit) next = true) : isCode t next = true := by
  have hdigits : ∀ c ∈ t.takeWhile Char.isDigit, c.isDigit = true := fun _ hc =>
    mem_takeWhile_imp hc
  have hboth := isCode_append (isCode_digits hdigits _) h
  rwa [takeWhile_append_dropWhile] at hboth

theorem isCode_exponent {t : Text} (h : isExponent t = true) (next : Option Char) :
    isCode t next = true := by
  cases t with
  | nil => rfl
  | cons c r =>
    simp only [isExponent, Bool.and_eq_true, Bool.or_eq_true, beq_iff_eq] at h
    obtain ⟨hc, hne, hall⟩ := h
    have hmark : opensNothing c (r.head?.or next) = true := by
      rcases hc with rfl | rfl <;> rfl
    rw [isCode_cons, hmark, Bool.true_and]
    by_cases hsign : r.head? = some '+' ∨ r.head? = some '-'
    · rw [if_pos hsign] at hne hall
      obtain ⟨s, digits, rfl⟩ := exists_cons_of_ne_nil
        (show r ≠ [] by rintro rfl; simp at hsign)
      obtain ⟨d, rest, hd⟩ := exists_cons_of_ne_nil
        (show digits ≠ [] by rintro rfl; simp at hne)
      have hdigits : ∀ c ∈ digits, c.isDigit = true := all_eq_true.mp hall
      have hdigit : d ≠ '-' := by
        rintro rfl
        exact absurd (hdigits '-' (hd ▸ mem_cons_self)) (by decide)
      have hs : opensNothing s (digits.head?.or next) = true := by
        rw [hd]
        rcases hsign with h | h
        · obtain rfl := Option.some.inj h
          rfl
        · cases h
          simp [opensNothing, hdigit]
      rw [isCode_cons, hs, isCode_digits hdigits]
      rfl
    · rw [if_neg hsign] at hall
      exact isCode_digits (all_eq_true.mp hall) next

theorem isCode_fraction {t : Text} (h : isFraction t = true) (next : Option Char) :
    isCode t next = true := by
  by_cases hdot : t.head? = some '.'
  · obtain ⟨r, rfl⟩ : ∃ r, t = '.' :: r := by
      cases t with
      | nil => cases hdot
      | cons c r => exact ⟨r, by rw [Option.some.inj hdot]⟩
    rw [isFraction, Bool.and_eq_true] at h
    rw [isCode_cons, isCode_behind_digits (isCode_exponent h.2 next)]
    rfl
  · have hexp : isExponent t = true := by
      rw [isFraction] at h
      · exact h
      · intro r hr
        exact hdot (hr ▸ rfl)
    exact isCode_exponent hexp next

/-- **A number opens nothing**: a sign stands in front of a digit. -/
theorem isCode_number {t : Text} (h : isNumber t = true) (next : Option Char) :
    isCode t next = true := by
  have hunsigned : ∀ (d : Char) (r : Text), (if d = '0' then isFraction r else
      d.isDigit && isFraction (r.dropWhile Char.isDigit)) = true →
      isCode (d :: r) next = true ∧ d ≠ '-' := by
    intro d r hu
    by_cases hd : d = '0'
    · subst hd
      refine ⟨?_, by decide⟩
      rw [isCode_cons, isCode_fraction hu next]
      rfl
    · simp only [if_neg hd, Bool.and_eq_true] at hu
      refine ⟨?_, ?_⟩
      · rw [isCode_cons, opensNothing_digit hu.1,
          isCode_behind_digits (isCode_fraction hu.2 next)]
        rfl
      · rintro rfl
        exact absurd hu.1 (by decide)
  by_cases hminus : t.head? = some '-'
  · obtain ⟨u, rfl⟩ : ∃ u, t = '-' :: u := by
      cases t with
      | nil => cases hminus
      | cons c u => exact ⟨u, by rw [Option.some.inj hminus]⟩
    rw [isNumber, if_pos hminus] at h
    cases u with
    | nil => cases h
    | cons d u =>
      obtain ⟨hcode, hd⟩ := hunsigned d u h
      rw [isCode_cons, hcode]
      simp [opensNothing, hd]
  · rw [isNumber, if_neg hminus] at h
    cases t with
    | nil => cases h
    | cons d u => exact (hunsigned d u h).1

/-! ## 4. Dates, for the splitter -/

/-- Replacing one character leaves the first ones where they are. -/
theorem replace_take {a b : Char} (l : Text) (k : Nat) :
    (l.replace a b).take k = (l.take k).replace a b := by
  induction l generalizing k with
  | nil => simp
  | cons c l ih =>
    cases k with
    | zero => simp
    | succ k =>
      by_cases hc : c = a
      · subst hc
        simp [replace_cons_self]
      · have hne : (a == c) = false := by simp [Ne.symm hc]
        rw [replace_cons, hne, take_succ_cons, take_succ_cons, replace_cons, hne]
        exact congrArg (c :: ·) (ih k)

theorem insertDate_eq (time : Moment) : insertDate time =
    if "T00:00:00.000Z".toList.isSuffixOf (toISOString time) then
      "TO_DATE('".toList ++ ((toISOString time).take 10 ++ "','YYYY-MM-DD')".toList)
    else "TIMESTAMP '".toList ++ (cutMoment time ++ ['\'']) := by
  rw [insertDate, cutMoment, replace_take]

theorem toISOString_plain (ms : Int) : '\'' ∉ toISOString ms := by
  intro h
  rw [toISOString_eq, minuteText] at h
  simp only [mem_append, mem_cons] at h
  have hdigit : ∀ width k, '\'' ∉ padded width k := fun width k hm =>
    absurd (padded_digits hm) (by decide)
  rcases h with (h | h | h) | ((h | h) | (h | h)) | h
  · rcases mem_dateText h with h | h | h <;> exact absurd h (by decide)
  · exact absurd h (by decide)
  · rcases mem_clockText h with h | h <;> exact absurd h (by decide)
  · exact absurd h (by decide)
  · exact hdigit _ _ h
  · exact absurd h (by decide)
  · exact hdigit _ _ h
  · exact absurd h (by decide)

theorem passes_insertDate (time : Moment) {v : Text} (hv : v.head? = some ',' ∨ v.head? = some ')') :
    Passes (insertDate time) v := by
  rw [insertDate_eq]
  split
  · have hformat : Passes ("'YYYY-MM-DD'".toList ++ [')']) v :=
      Passes.append (passes_between (s := "YYYY-MM-DD".toList) (by decide) (by simp))
        (passes_code (by rcases hv with hv | hv <;> rw [hv] <;> rfl))
    have hday : '\'' ∉ (toISOString time).take 10 := fun h =>
      toISOString_plain time (mem_of_mem_take h)
    have hrest : Passes (('\'' :: ((toISOString time).take 10 ++ ['\''])) ++
        ([','] ++ ("'YYYY-MM-DD'".toList ++ [')']))) v :=
      Passes.append (passes_between hday (by simp)) ((passes_code rfl).append hformat)
    have hall := Passes.append (u := "TO_DATE(".toList) (passes_code rfl) hrest
    have htext : "TO_DATE('".toList ++ ((toISOString time).take 10 ++ "','YYYY-MM-DD')".toList) =
        "TO_DATE(".toList ++ (('\'' :: ((toISOString time).take 10 ++ ['\''])) ++
          ([','] ++ ("'YYYY-MM-DD'".toList ++ [')']))) := by
      simp
    rw [htext]
    exact hall
  · have hquote : v.head? ≠ some '\'' := by rcases hv with hv | hv <;> simp [hv]
    have hall := Passes.append (u := "TIMESTAMP ".toList) (passes_code rfl)
      (passes_between (cutMoment_plain time.2).1 hquote)
    have htext : "TIMESTAMP '".toList ++ (cutMoment time ++ ['\'']) =
        "TIMESTAMP ".toList ++ '\'' :: (cutMoment time ++ ['\'']) := by
      simp
    rw [htext]
    exact hall

/-! ## 5. Statements, for the splitter -/

section

variable {ν : Type} {N : Numbers ν}

theorem passes_insertValue {c : Cell N} (hc : c.HasLiteral) {w : Text} (hw : insertValue c = some w)
    {v : Text} (hv : v.head? = some ',' ∨ v.head? = some ')') : Passes w v := by
  have hquote : v.head? ≠ some '\'' := by rcases hv with hv | hv <;> simp [hv]
  cases c with
  | null =>
    cases hw
    exact passes_code rfl
  | number n =>
    cases hw
    exact passes_code (isCode_number (N.number_text n n.2) _)
  | string s =>
    cases hw
    exact passes_insertText hquote
  | date time =>
    obtain ⟨t, -, rfl⟩ := Option.map_eq_some_iff.mp hw
    exact passes_insertDate t hv
  | undefined | nan | infinity _ | boolean _ | other _ _ => exact hc.elim

/-- A list of texts that pass, up to the parenthesis behind it. -/
theorem passes_list {ws : List Text}
    (hws : ∀ w ∈ ws, ∀ v, v.head? = some ',' ∨ v.head? = some ')' → Passes w v) (v : Text) :
    Passes (List.intercalate ", ".toList ws) (')' :: v) := by
  induction ws with
  | nil => exact passes_nil _
  | cons w ws ih =>
    cases ws with
    | nil =>
      rw [intercalate_singleton]
      exact hws w mem_cons_self _ (.inr rfl)
    | cons x ws =>
      have hrest := ih fun y hy => hws y (mem_cons_of_mem w hy)
      have hcomma : Passes ", ".toList (List.intercalate ", ".toList (x :: ws) ++ ')' :: v) := by
        refine passes_code ?_
        rfl
      rw [intercalate_cons_cons, append_assoc]
      exact (hws w mem_cons_self _ (.inl rfl)).append (hcomma.append hrest)

theorem passes_insertStatement {tableName : Text} {columns values : List Text}
    (htable : '"' ∉ tableName) (hcolumns : ∀ c ∈ columns, '"' ∉ c)
    (hvalues : ∀ w ∈ values, ∀ v, v.head? = some ',' ∨ v.head? = some ')' → Passes w v) (v : Text) :
    Passes (insertStatement tableName columns values) (';' :: v) := by
  have hnames : ∀ w ∈ columns.map quoteName, ∀ v, v.head? = some ',' ∨ v.head? = some ')' →
      Passes w v := by
    intro w hw v hv
    obtain ⟨c, hc, rfl⟩ := mem_map.mp hw
    exact passes_name (hcolumns c hc) (by rcases hv with hv | hv <;> simp [hv])
  have hlist : Passes (List.intercalate ", ".toList values ++ [')']) (';' :: v) :=
    (passes_list hvalues _).append (passes_code rfl)
  have hcols : Passes (List.intercalate ", ".toList (columns.map quoteName) ++
      (") VALUES (".toList ++ (List.intercalate ", ".toList values ++ [')']))) (';' :: v) := by
    refine Passes.append ?_ (Passes.append (passes_code rfl) hlist)
    exact passes_list hnames _
  exact Passes.append (passes_code rfl) (Passes.append (passes_name htable (by simp))
    (Passes.append (passes_code rfl) hcols))

/-- A statement that begins with `INSERT` is no block and no comment. -/
theorem insert_start (x : Text) : stripLeadingComments ('I' :: x) = 'I' :: x := by
  have htrim : trimStart ('I' :: x) = 'I' :: x := dropWhile_cons_of_neg (by decide)
  rw [strip_eq, htrim]
  rfl

theorem insertStatement_start (tableName : Text) (columns values : List Text) :
    ∃ x, insertStatement tableName columns values = 'I' :: x := by
  have hstart : ∀ z, "INSERT INTO ".toList ++ z = 'I' :: ("NSERT INTO ".toList ++ z) := fun _ => rfl
  unfold insertStatement
  exact ⟨_, hstart _⟩

theorem insertStatement_end (tableName : Text) (columns values : List Text) :
    ∃ y, insertStatement tableName columns values = y ++ [')'] := by
  unfold insertStatement
  simp only [← append_assoc]
  exact ⟨_, rfl⟩

theorem stands_insertStatement {tableName : Text} {columns values : List Text}
    (htable : '"' ∉ tableName) (hcolumns : ∀ c ∈ columns, '"' ∉ c)
    (hvalues : ∀ w ∈ values, ∀ v, v.head? = some ',' ∨ v.head? = some ')' → Passes w v) :
    Stands (insertStatement tableName columns values) := by
  obtain ⟨x, hx⟩ := insertStatement_start tableName columns values
  obtain ⟨y, hy⟩ := insertStatement_end tableName columns values
  refine ⟨passes_insertStatement htable hcolumns hvalues, ?_, ?_, ?_⟩
  · rw [hx, detectPlsqlStart, insert_start]
    rfl
  · rw [hx, isCommentsOnly, insert_start]
    rfl
  · rw [trim, trimEnd, hx, trimStart, dropWhile_cons_of_neg (by decide), ← hx, hy]
    exact rdropWhile_concat_neg _ _ _ (by decide)

/-! ## 6. The text -/

/-- Lines with line breaks between them and one more behind the last. -/
theorem joined_statements (t : Text) (ts : List Text) :
    List.intercalate ['\n'] ((t :: ts).map (· ++ [';'])) ++ ['\n'] =
      (t :: ts).flatMap fun t => t ++ [';', '\n'] := by
  induction ts generalizing t with
  | nil => simp
  | cons u ts ih =>
    rw [flatMap_cons, ← ih u, map_cons, map_cons, intercalate_cons_cons]
    simp only [append_assoc, cons_append, nil_append]

theorem toInsertSql_eq (tableName : Text) (columns : List Text) (rows : List (List (Cell N))) :
    toInsertSql tableName columns rows =
      (rows.mapM insertRow).map fun values =>
        (values.map (insertStatement tableName columns)).flatMap fun t => t ++ [';', '\n'] := by
  have hlines : (rows.mapM fun row => do
      let values ← insertRow row
      some (insertStatement tableName columns values ++ [';'])) =
        (rows.mapM insertRow).map fun values =>
          (values.map (insertStatement tableName columns)).map (· ++ [';']) := by
    induction rows with
    | nil => rfl
    | cons row rows ih =>
      rw [mapM_cons, mapM_cons, ih]
      cases insertRow row with
      | none => rfl
      | some values =>
        cases rows.mapM insertRow with
        | none => rfl
        | some rest => rfl
  rw [toInsertSql, hlines]
  cases rows with
  | nil => rfl
  | cons row rows =>
    rw [if_neg (by simp)]
    cases hvalues : (row :: rows).mapM insertRow with
    | none => rfl
    | some values =>
      have hlength := (forall₂_mapM hvalues).length_eq
      cases values with
      | nil => cases hlength
      | cons t ts => exact congrArg some (joined_statements _ (ts.map _))

/-- What an element of the second list stands beside. -/
theorem exists_of_forall₂ {α β : Type} {R : α → β → Prop} {l : List α} {ys : List β}
    (h : List.Forall₂ R l ys) {y : β} (hy : y ∈ ys) : ∃ x ∈ l, R x y := by
  induction h with
  | nil => cases hy
  | cons hx _ ih =>
    rcases mem_cons.mp hy with rfl | hy
    · exact ⟨_, mem_cons_self, hx⟩
    · obtain ⟨x, hx', hR⟩ := ih hy
      exact ⟨x, mem_cons_of_mem _ hx', hR⟩

/-- **The text is split into one statement a row**, in order and without an error, whatever the
    cells hold. -/
theorem splitSql_toInsertSql {tableName : Text} {columns : List Text} {rows : List (List (Cell N))}
    (htable : '"' ∉ tableName) (hcolumns : ∀ c ∈ columns, '"' ∉ c)
    (hcells : ∀ row ∈ rows, ∀ c ∈ row, c.HasLiteral) {values : List (List Text)}
    (h : rows.mapM insertRow = some values) :
    (toInsertSql tableName columns rows).map splitSql =
      some ⟨values.map (insertStatement tableName columns), []⟩ := by
  rw [toInsertSql_eq, h]
  refine congrArg some (splitSql_terminated fun t ht => ?_)
  obtain ⟨ws, hws, rfl⟩ := mem_map.mp ht
  refine stands_insertStatement htable hcolumns fun w hw v hv => ?_
  obtain ⟨row, hrow, hrows⟩ := exists_of_forall₂ (forall₂_mapM h) hws
  obtain ⟨c, hc, hcw⟩ := exists_of_forall₂ (forall₂_mapM hrows) hw
  exact passes_insertValue (hcells row hrow c hc) hcw hv

end

end Veesker.Export
