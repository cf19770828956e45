/-
  File:      Veesker/Format/Table.lean
  Subject:   SQL TABLES THAT CHANGE THEIR COLUMNS: a column is added, a table is rebuilt from another,
             rows are updated.

  A row gives a value for every column name. The table keeps the text it was created with, as the
  catalogue does: a new column goes in front of the bracket that closes the column list. Values are
  stored as they are given, so a source and its column have one affinity.

  Nothing here names the repository.

  * `infix_append_cons` -- a word lies on one side of a character it does not have;
  * **`addMissing_spec`** -- what adding the missing columns leaves as it was;
  * **`rebuild_spec`** -- when a table can be rebuilt, and what its rows are then.
-/
import Veesker.Text.Js

namespace Veesker.Sql

open List

/-! ## 1. Columns -/

inductive Value where
  | null
  | int (n : Int)
  | text (t : Text)
  deriving DecidableEq

inductive Affinity where
  | text | integer
  deriving DecidableEq

inductive Check where
  | none
  | oneOf (vs : List Value)
  | atLeast (n : Int)
  deriving DecidableEq

/-- `CHECK`; on NULL it is NULL, which passes. Text sorts behind every number. -/
def Check.holds : Check → Value → Bool
  | _, .null => true
  | .none, _ => true
  | .oneOf vs, v => vs.contains v
  | .atLeast n, .int m => decide (n ≤ m)
  | .atLeast _, .text _ => true

structure Column where
  name : Text
  affinity : Affinity
  primaryKey : Bool := false
  notNull : Bool := false
  default : Value := .null
  check : Check := .none
  deriving DecidableEq

def Column.accepts (c : Column) (v : Value) : Bool :=
  (!c.notNull || v != .null) && c.check.holds v

/-! ### The text of a column -/

def Value.sql : Value → Text
  | .null => "NULL".toList
  | .int n => (toString n).toList
  | .text t => '\'' :: (t ++ ['\''])

/-- The check's condition, which lets NULL pass where the column does. -/
def Column.checkSql (c : Column) (condition : Text) : Text :=
  " CHECK (".toList ++ (if c.notNull then [] else c.name ++ " IS NULL OR ".toList) ++ c.name ++
    condition ++ ")".toList

def Column.sql (c : Column) : Text :=
  c.name ++ (match c.affinity with
      | .text => " TEXT".toList
      | .integer => " INTEGER".toList) ++
    (if c.primaryKey then " PRIMARY KEY".toList else []) ++
    (if c.notNull then " NOT NULL".toList else []) ++
    (if c.default = .null then [] else " DEFAULT ".toList ++ c.default.sql) ++
    match c.check with
    | .none => []
    | .oneOf vs =>
      c.checkSql (" IN (".toList ++ List.intercalate ", ".toList (vs.map Value.sql) ++ ")".toList)
    | .atLeast n => c.checkSql (" >= ".toList ++ (toString n).toList)

/-! ## 2. Tables -/

abbrev Row := Text → Value

structure Table where
  columns : List Column
  rows : List Row
  /-- the text it was created with, up to the bracket that closes the columns -/
  body : Text
  /-- and behind it -/
  rest : Text := []

def Table.sql (t : Table) : Text := t.body ++ ')' :: t.rest

def Table.names (t : Table) : List Text := t.columns.map Column.name

def Table.has (t : Table) (name : Text) : Bool := t.names.contains name

inductive SqlError where
  | duplicateColumn | noSuchColumn | constraint
  deriving DecidableEq

/-- No two rows agree on a value, NULL apart. -/
def uniqueOn (f : Row → Value) (rows : List Row) : Bool :=
  decide ((rows.map f).filter (· != .null)).Nodup

/-- `ALTER TABLE … ADD COLUMN`. -/
def Table.addColumn (t : Table) (c : Column) : Except SqlError Table :=
  if t.has c.name then .error .duplicateColumn
  else if !t.rows.isEmpty && !c.accepts c.default then .error .constraint
  else
    .ok { t with
      columns := t.columns ++ [c]
      rows := t.rows.map fun r => Function.update r c.name c.default
      body := t.body ++ ", ".toList ++ c.sql }

/-- The columns that the table does not have are added, one after the other. -/
def Table.addMissing (t : Table) : List Column → Except SqlError Table
  | [] => .ok t
  | c :: cs => if t.has c.name then t.addMissing cs else (t.addColumn c).bind (·.addMissing cs)

/-- What a column of `INSERT … SELECT` is taken from. -/
inductive Source where
  | column (name : Text)
  | const (v : Value)
  /-- `CASE WHEN name = old THEN new ELSE name END` -/
  | recode (name : Text) (old new : Value)
  deriving DecidableEq

def Source.eval (r : Row) : Source → Value
  | .column name => r name
  | .const v => v
  | .recode name old new => if r name = old then new else r name

def Source.reads : Source → List Text
  | .column name => [name]
  | .const _ => []
  | .recode name _ _ => [name]

/-- The row that a selection gives. -/
def project (select : List (Column × Source)) (r : Row) : Row := fun name =>
  match select.find? (·.1.name == name) with
  | some cs => cs.2.eval r
  | none => .null

/-- What the constraints of the columns ask of the rows. -/
def fits (columns : List Column) (rows : List Row) : Bool :=
  columns.all fun c => rows.all (fun r => c.accepts (r c.name)) &&
    (!c.primaryKey || uniqueOn (· c.name) rows)

/-- `CREATE TABLE new (…); INSERT INTO new SELECT … FROM old; DROP TABLE old; ALTER TABLE new RENAME
TO old`. -/
def Table.rebuild (t : Table) (select : List (Column × Source)) (body : Text) :
    Except SqlError Table :=
  if !select.all (fun cs => cs.2.reads.all t.has) then .error .noSuchColumn
  else
    let rows := t.rows.map (project select)
    if fits (select.map Prod.fst) rows then
      .ok { columns := select.map Prod.fst, rows := rows, body := body }
    else .error .constraint

/-- `UPDATE … SET name = v WHERE …`. -/
def Table.updateWhere (t : Table) (name : Text) (v : Value) (p : Row → Bool) : Table :=
  { t with rows := t.rows.map fun r => if p r then Function.update r name v else r }

/-! ## 3. Words in the text -/

section

variable {w a b : Text} {c : Char}

/-- A word lies on one side of a character that it does not have. -/
theorem infix_append_cons (hc : c ∉ w) : w <:+: a ++ c :: b ↔ w <:+: a ∨ w <:+: b := by
  constructor
  · intro h
    obtain ⟨s, t, h⟩ := h
    rw [append_assoc, append_eq_append_iff] at h
    rcases h with ⟨a', rfl, h⟩ | ⟨s', rfl, h⟩
    · rw [append_eq_append_iff] at h
      rcases h with ⟨x, rfl, -⟩ | ⟨y, rfl, h⟩
      · exact .inl ⟨s, x, append_assoc ..⟩
      · cases y with
        | nil => exact .inl ⟨s, [], by simp⟩
        | cons d y =>
          obtain ⟨rfl, -⟩ := List.cons.inj h
          exact absurd (by simp) hc
    · cases s' with
      | nil =>
        cases w with
        | nil => exact .inl nil_infix
        | cons d w =>
          obtain ⟨rfl, -⟩ := List.cons.inj h
          exact absurd mem_cons_self hc
      | cons d s' =>
        obtain ⟨-, rfl⟩ := List.cons.inj h
        exact .inr ⟨s', t, append_assoc ..⟩
  · intro h
    rcases h with h | h
    · exact h.trans (prefix_append a _).isInfix
    · exact h.trans ((suffix_cons c b).trans (suffix_append a _)).isInfix

theorem infix_cons_iff_of_notMem (hc : c ∉ w) : w <:+: c :: b ↔ w <:+: b := by
  constructor
  · intro h
    rcases (infix_append_cons (a := []) hc).mp h with h | h
    · rw [infix_nil.mp h]
      exact nil_infix
    · exact h
  · intro h
    exact h.trans (suffix_cons c b).isInfix

end

/-! ## 4. Columns that are added -/

variable {name : Text}

section

variable {t t₁ t' : Table} {c : Column} {cs : List Column} {f : Row → Row}

theorem has_iff : t.has name = true ↔ name ∈ t.names := contains_iff_mem

theorem has_of_mem (hc : c ∈ t.columns) (h : c.name = name) : t.has name = true :=
  has_iff.mpr (h ▸ mem_map_of_mem hc)

theorem accepts_of_fits {columns : List Column} {rows : List Row} {r : Row}
    (h : fits columns rows = true) (hc : c ∈ columns) (hr : r ∈ rows) :
    c.accepts (r c.name) = true :=
  all_eq_true.mp (Bool.and_eq_true_iff.mp (all_eq_true.mp h c hc)).1 r hr

/-- What a column that is added does. -/
theorem addColumn_ok (h : t.addColumn c = .ok t₁) :
    t.has c.name = false ∧
      t₁ = { t with
        columns := t.columns ++ [c]
        rows := t.rows.map fun r => Function.update r c.name c.default
        body := t.body ++ ", ".toList ++ c.sql } := by
  unfold Table.addColumn at h
  split at h
  · cases h
  · next hnew =>
    split at h
    · cases h
    · exact ⟨by simpa using hnew, (Except.ok.inj h).symm⟩

/-- A column whose default passes its own check can be added. -/
theorem addColumn_runs (hnew : t.has c.name = false) (hd : c.accepts c.default = true) :
    ∃ t₁, t.addColumn c = .ok t₁ := by
  unfold Table.addColumn
  rw [hnew, hd]
  simp

theorem has_addColumn (h : t.addColumn c = .ok t₁) :
    t₁.has name = true ↔ t.has name = true ∨ name = c.name := by
  obtain ⟨-, rfl⟩ := addColumn_ok h
  rw [has_iff, has_iff]
  unfold Table.names
  rw [map_append, mem_append, map_cons, map_nil, mem_singleton]

theorem has_addColumn_of_ne (h : t.addColumn c = .ok t₁) (hne : name ≠ c.name) :
    t₁.has name = t.has name := by
  rw [Bool.eq_iff_iff, has_addColumn h, or_iff_left hne]

/-- The words of the text, when a column is added. -/
theorem infix_sql_addColumn {w : Text} (h : t.addColumn c = .ok t₁) (hcomma : ',' ∉ w)
    (hblank : ' ' ∉ w) (hbracket : ')' ∉ w) : w <:+: t₁.sql ↔ w <:+: t.sql ∨ w <:+: c.sql := by
  obtain ⟨-, rfl⟩ := addColumn_ok h
  have htext : (t.body ++ ", ".toList ++ c.sql) ++ ')' :: t.rest =
      t.body ++ ',' :: (' ' :: (c.sql ++ ')' :: t.rest)) := by
    rw [append_assoc, append_assoc]
    rfl
  show w <:+: (t.body ++ ", ".toList ++ c.sql) ++ ')' :: t.rest ↔
    w <:+: t.body ++ ')' :: t.rest ∨ _
  rw [htext, infix_append_cons hcomma, infix_cons_iff_of_notMem hblank,
    infix_append_cons hbracket, infix_append_cons hbracket]
  tauto

/-- The table `t'` is `t` with those of the columns `cs` that it did not have; `f` takes its rows to
the new ones. -/
structure Grown (t : Table) (cs : List Column) (t' : Table) (f : Row → Row) : Prop where
  columns : t'.columns = t.columns ++ cs.filter fun c => !t.has c.name
  rows : t'.rows = t.rows.map f
  kept : ∀ r name, t.has name = true → f r name = r name
  filled : ∀ r, ∀ c ∈ cs, t.has c.name = false → f r c.name = c.default
  /-- the text has no other words than the table's and the new columns' -/
  words : ∀ w : Text, ',' ∉ w → ' ' ∉ w → ')' ∉ w →
    (w <:+: t'.sql ↔ w <:+: t.sql ∨ ∃ c ∈ cs, t.has c.name = false ∧ w <:+: c.sql)

theorem Grown.nil (t : Table) : Grown t [] t id where
  columns := (append_nil _).symm
  rows := (map_id _).symm
  kept := fun _ _ _ => rfl
  filled := fun _ _ hc => absurd hc not_mem_nil
  words := by
    intro w _ _ _
    simp

theorem Grown.skip (h : Grown t cs t' f) (hhas : t.has c.name = true) :
    Grown t (c :: cs) t' f where
  columns := by
    rw [h.columns, filter_cons_of_neg (by simp [hhas])]
  rows := h.rows
  kept := h.kept
  filled := by
    intro r d hd hfresh
    rcases mem_cons.mp hd with rfl | hd
    · rw [hhas] at hfresh
      cases hfresh
    · exact h.filled r d hd hfresh
  words := by
    intro w h₁ h₂ h₃
    rw [h.words w h₁ h₂ h₃, exists_mem_cons_iff, hhas]
    simp

theorem Grown.add (hc : c.name ∉ cs.map Column.name) (h₁ : t.addColumn c = .ok t₁)
    (h : Grown t₁ cs t' f) :
    Grown t (c :: cs) t' (fun r => f (Function.update r c.name c.default)) := by
  have hnew : t.has c.name = false := (addColumn_ok h₁).1
  have hother : ∀ d ∈ cs, t₁.has d.name = t.has d.name := fun d hd =>
    has_addColumn_of_ne h₁ fun e => hc (mem_map.mpr ⟨d, hd, e⟩)
  refine ⟨?_, ?_, ?_, ?_, ?_⟩
  · rw [h.columns, filter_cons_of_pos (by simp [hnew]),
      filter_congr fun d hd => by rw [hother d hd], (addColumn_ok h₁).2, append_assoc]
    rfl
  · rw [h.rows, (addColumn_ok h₁).2, map_map]
    rfl
  · intro r name hname
    have hne : name ≠ c.name := fun e => by rw [e, hnew] at hname; cases hname
    show f (Function.update r c.name c.default) name = r name
    rw [h.kept _ _ ((has_addColumn h₁).mpr (.inl hname)), Function.update_of_ne hne]
  · intro r d hd hfresh
    show f (Function.update r c.name c.default) d.name = d.default
    rcases mem_cons.mp hd with rfl | hd
    · rw [h.kept _ _ ((has_addColumn h₁).mpr (.inr rfl)), Function.update_self]
    · exact h.filled _ d hd (by rw [hother d hd, hfresh])
  · intro w hcomma hblank hbracket
    have hiff : (∃ d ∈ cs, t₁.has d.name = false ∧ w <:+: d.sql) ↔
        ∃ d ∈ cs, t.has d.name = false ∧ w <:+: d.sql :=
      exists_congr fun d => and_congr_right fun hd => by rw [hother d hd]
    rw [h.words w hcomma hblank hbracket, infix_sql_addColumn h₁ hcomma hblank hbracket, hiff,
      exists_mem_cons_iff, hnew, or_assoc]
    simp

/-- **What adding the missing columns leaves as it was**: the columns that are there, with their
values; every other column has its default. -/
theorem addMissing_spec (hcs : (cs.map Column.name).Nodup)
    (hd : ∀ c ∈ cs, c.accepts c.default = true) :
    ∃ t' f, t.addMissing cs = .ok t' ∧ Grown t cs t' f := by
  induction cs generalizing t with
  | nil => exact ⟨t, id, rfl, .nil t⟩
  | cons c cs ih =>
    obtain ⟨hc, hcs⟩ := nodup_cons.mp hcs
    have hd' : ∀ c ∈ cs, c.accepts c.default = true :=
      fun c hc => hd c (mem_cons_of_mem _ hc)
    cases hhas : t.has c.name with
    | true =>
      obtain ⟨t', f, hrun, h⟩ := ih (t := t) hcs hd'
      exact ⟨t', f, by rw [Table.addMissing, if_pos hhas, hrun], h.skip hhas⟩
    | false =>
      obtain ⟨t₁, hrun₁⟩ := addColumn_runs hhas (hd c mem_cons_self)
      obtain ⟨t', f, hrun, h⟩ := ih (t := t₁) hcs hd'
      refine ⟨t', _, ?_, .add hc hrun₁ h⟩
      rw [Table.addMissing, if_neg (by simp [hhas]), hrun₁]
      exact hrun

/-- A table that has every column stays as it is. -/
theorem addMissing_of_has (h : ∀ c ∈ cs, t.has c.name = true) : t.addMissing cs = .ok t := by
  induction cs with
  | nil => rfl
  | cons c cs ih =>
    rw [Table.addMissing, if_pos (h c mem_cons_self),
      ih fun d hd => h d (mem_cons_of_mem _ hd)]

end

/-! ## 5. Tables that are rebuilt -/

/-- Only the values that are to be unique matter. -/
theorem uniqueOn_map {f f' : Row → Value} {g : Row → Row} {rows : List Row}
    (h : ∀ r ∈ rows, f (g r) = f' r) : uniqueOn f (rows.map g) = uniqueOn f' rows := by
  have hmap : (rows.map g).map f = rows.map f' := by
    rw [map_map]
    exact map_congr_left h
  unfold uniqueOn
  rw [hmap]

section

variable {t : Table} {select : List (Column × Source)}

/-- A column of the new row is what its source gives. -/
theorem project_apply (h : (select.map (·.1.name)).Nodup) {cs : Column × Source}
    (hcs : cs ∈ select) (r : Row) : project select r cs.1.name = cs.2.eval r := by
  unfold project
  have hfind : select.find? (·.1.name == cs.1.name) = some cs := by
    induction select with
    | nil => cases hcs
    | cons d ds ih =>
      obtain ⟨hd, hds⟩ := nodup_cons.mp h
      rcases mem_cons.mp hcs with rfl | hcs
      · exact List.find?_cons_of_pos (by simp)
      · have hne : d.1.name ≠ cs.1.name :=
          fun e => hd (mem_map.mpr ⟨cs, hcs, e.symm⟩)
        rw [List.find?_cons_of_neg (by simpa using hne)]
        exact ih hds hcs
  rw [hfind]

/-- **When a table can be rebuilt**: the columns it selects are there, and the new columns take the
rows. -/
theorem rebuild_spec {body : Text}
    (hreads : ∀ cs ∈ select, ∀ name ∈ cs.2.reads, t.has name = true)
    (hfits : fits (select.map Prod.fst) (t.rows.map (project select)) = true) :
    t.rebuild select body =
      .ok { columns := select.map Prod.fst, rows := t.rows.map (project select), body := body } := by
  have hall : select.all (fun cs => cs.2.reads.all t.has) = true :=
    all_eq_true.mpr fun cs hcs => all_eq_true.mpr (hreads cs hcs)
  unfold Table.rebuild
  rw [hall]
  exact if_pos hfits

end

/-! ## 6. Rows that are updated -/

/-- An update that leaves no row of its condition does nothing a second time. -/
theorem updateWhere_twice {t : Table} {v : Value} {p : Row → Bool}
    (h : ∀ r, p r = true → p (Function.update r name v) = false) :
    (t.updateWhere name v p).updateWhere name v p = t.updateWhere name v p := by
  unfold Table.updateWhere
  simp only [map_map, Table.mk.injEq, and_self, and_true, true_and]
  refine map_congr_left fun r _ => ?_
  show (if p (if p r then _ else r) then _ else (if p r then _ else r)) = _
  by_cases hp : p r = true
  · rw [if_pos hp, h r hp, if_neg Bool.false_ne_true]
  · rw [if_neg hp, if_neg hp]

end Veesker.Sql
