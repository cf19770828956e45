/-
  File:      Veesker/Host/Schema.lean
  Subject:   THE CONNECTIONS TABLE AND ITS MIGRATIONS (init_db and what it calls,
             src-tauri/src/persistence/store.rs): a table of any earlier shape becomes the current
             one.

  The table is rebuilt when it has no `auth_type`, and again when its text does not have `'local'`;
  in between the later columns are added one by one. The two other tables that are created on the
  way are names only. A statement that fails ends `init_db` with its error.

  * `Filled` -- the table once it has every column, whatever it started from;
  * **`init_db_migrates`** -- every row is kept, with the values it had, and a second run does
    nothing.
-/
import Veesker.Format.Table

namespace Veesker.Host.Schema

open Sql List

/-! ## 1. The current columns -/

def ID : Text := "id".toList
def NAME : Text := "name".toList
def AUTH_TYPE : Text := "auth_type".toList
def ENV : Text := "env".toList
def WARN : Text := "warn_unsafe_dml".toList

def basic : Value := .text "basic".toList
def dev : Value := .text "dev".toList
def staging : Value := .text "staging".toList
def prod : Value := .text "prod".toList
def «local» : Value := .text "local".toList
def sandbox : Value := .text "sandbox".toList
def manual : Value := .text "manual".toList

/-- `INTEGER NOT NULL DEFAULT d CHECK (name IN (0, 1))`. -/
def flag (name : Text) (d : Int) : Column where
  name := name
  affinity := .integer
  notNull := true
  default := .int d
  check := .oneOf [.int 0, .int 1]

def authTypeColumn : Column where
  name := AUTH_TYPE
  affinity := .text
  notNull := true
  default := basic
  check := .oneOf [basic, .text "wallet".toList]

def envColumn : Column where
  name := ENV
  affinity := .text
  check := .oneOf [dev, staging, prod, «local»]

def BASE : List Column :=
  [{ name := ID, affinity := .text, primaryKey := true },
    { name := NAME, affinity := .text, notNull := true }, authTypeColumn,
    { name := "host".toList, affinity := .text }, { name := "port".toList, affinity := .integer },
    { name := "service_name".toList, affinity := .text },
    { name := "connect_alias".toList, affinity := .text },
    { name := "username".toList, affinity := .text, notNull := true },
    { name := "created_at".toList, affinity := .text, notNull := true },
    { name := "updated_at".toList, affinity := .text, notNull := true }]

/-- The columns of `add_safety_columns_if_missing`. -/
def LATER : List Column :=
  [envColumn, flag "read_only".toList 0,
    { name := "statement_timeout_ms".toList, affinity := .integer, check := .atLeast 0 },
    flag WARN 0, flag "auto_perf_analysis".toList 1, flag "airgap_mode".toList 0,
    flag "psdpm_mode".toList 0,
    { name := "auto_explain_mode".toList, affinity := .text, notNull := true, default := manual
      check := .oneOf [manual, .text "always".toList, .text "when_dml".toList] }]

def CURRENT : List Column := BASE ++ LATER

example : envColumn.sql =
    "env TEXT CHECK (env IS NULL OR env IN ('dev', 'staging', 'prod', 'local'))".toList := by decide

/-- The text that `CREATE TABLE` leaves, up to spaces. -/
def createText : Text :=
  "CREATE TABLE \"connections\" (\n    ".toList ++
    List.intercalate ",\n    ".toList (CURRENT.map Column.sql) ++ "\n".toList

/-! ## 2. The migrations -/

/-- The table, and whether `connections_name_unique` is there. -/
structure Connections where
  table : Table
  index : Bool

structure Db where
  connections : Option Connections
  /-- the other tables -/
  others : List Text

/-- `LOWER`. -/
def lowerValue : Value → Value
  | .text t => .text (t.map Char.toLower)
  | v => v

def uniqueName (rows : List Row) : Bool := uniqueOn (fun r => lowerValue (r NAME)) rows

/-- `CREATE UNIQUE INDEX connections_name_unique ON connections (LOWER(name))`. -/
def createNameIndex (t : Table) : Except SqlError Connections :=
  if uniqueName t.rows then .ok ⟨t, true⟩ else .error .constraint

/-- `CREATE_CURRENT_SCHEMA`. -/
def createCurrentSchema : Option Connections → Except SqlError Connections
  | none => .ok ⟨{ columns := CURRENT, rows := [], body := createText }, true⟩
  | some c => if c.index then .ok c else createNameIndex c.table

def legacySources : List Source :=
  [.column ID, .column NAME, .const basic, .column "host".toList, .column "port".toList,
    .column "service_name".toList, .const .null, .column "username".toList,
    .column "created_at".toList, .column "updated_at".toList, .const .null, .const (.int 0),
    .const .null, .const (.int 0), .const (.int 1), .const (.int 0), .const (.int 0), .const manual]

/-- `MIGRATE_LEGACY_TO_CURRENT`. -/
def migrateLegacyToCurrent (c : Connections) : Except SqlError Connections :=
  (c.table.rebuild (CURRENT.zip legacySources) createText).bind createNameIndex

def env_check_needs_local_update (t : Table) : Bool := !decide ("'local'".toList <:+: t.sql)

def envSource (c : Column) : Source :=
  if c.name = ENV then .recode ENV sandbox «local» else .column c.name

def migrate_env_add_local (c : Connections) : Except SqlError Connections :=
  (c.table.rebuild (CURRENT.map fun col => (col, envSource col)) createText).bind createNameIndex

/-- `WHERE env IN ('staging', 'prod') AND warn_unsafe_dml = 0`. -/
def unwarned (r : Row) : Bool := (r ENV == staging || r ENV == prod) && r WARN == .int 0

def migrate_warn_unsafe_dml_for_prod_staging (t : Table) : Table :=
  t.updateWhere WARN (.int 1) unwarned

def createIfMissing (name : Text) (tables : List Text) : List Text :=
  if tables.contains name then tables else tables ++ [name]

def addLocalIfNeeded (c : Connections) : Except SqlError Connections :=
  if env_check_needs_local_update c.table then migrate_env_add_local c else .ok c

def add_safety_columns_if_missing (c : Connections) (others : List Text) :
    Except SqlError Db := do
  let t ← c.table.addMissing LATER
  let others := createIfMissing "pending_tx_keep_open".toList
    (createIfMissing "command_history".toList others)
  let c ← addLocalIfNeeded ⟨t, c.index⟩
  return ⟨some ⟨migrate_warn_unsafe_dml_for_prod_staging c.table, c.index⟩, others⟩

def createOrMigrate : Option Connections → Except SqlError Connections
  | some c =>
    if !c.table.has AUTH_TYPE then migrateLegacyToCurrent c else createCurrentSchema (some c)
  | none => createCurrentSchema none

def init_db (db : Db) : Except SqlError Db := do
  let c ← createOrMigrate db.connections
  add_safety_columns_if_missing c db.others

/-! ## 3. What is asked of them -/

/-- The columns from before `auth_type`. -/
def LEGACY : List Text :=
  [ID, NAME, "host".toList, "port".toList, "service_name".toList, "username".toList,
    "created_at".toList, "updated_at".toList]

/-- A table that an earlier version left: its columns are the legacy ones, or the base with the
first of the later ones; its rows hold what those columns take, with `sandbox` in `env` unless the
text already has `'local'`, as the check on `env` then does. -/
structure Historical (t : Table) : Prop where
  shape : t.names = LEGACY ∨ ∃ k ≤ 8, t.names = (CURRENT.take (10 + k)).map Column.name
  /-- the rows meet the table's own constraints -/
  own : fits t.columns t.rows = true
  values : ∀ r ∈ t.rows, ∀ c ∈ CURRENT, t.has c.name = true →
    c.accepts (r c.name) = true ∨ c = envColumn ∧ r ENV = sandbox
  text : "'local'".toList <:+: t.sql → ∀ c ∈ t.columns, c.name = ENV → c = envColumn
  ids : uniqueOn (· ID) t.rows = true
  lowerNames : uniqueName t.rows = true

/-- What a row has in a column: the value it holds, or the default of a column that it lacks. -/
def stored (t : Table) (r : Row) (c : Column) : Value :=
  if t.has c.name then r c.name else c.default

def toLocal (v : Value) : Value := if v = sandbox then «local» else v

/-- What it is to have in the current table. -/
def expected (t : Table) (r : Row) (c : Column) : Value :=
  let env := toLocal (stored t r envColumn)
  if c.name = ENV then env
  else if c.name = WARN ∧ (env = staging ∨ env = prod) then .int 1
  else stored t r c

structure Migrated (t t' : Table) : Prop where
  names : t'.names = CURRENT.map Column.name
  /-- a column is one of the current ones; apart from `env` it may be as it was -/
  columns : ∀ c ∈ t'.columns, c ∈ CURRENT ∨ c ∈ t.columns ∧ c.name ≠ ENV
  rows : ∃ f, t'.rows = t.rows.map f ∧ ∀ r ∈ t.rows, ∀ c ∈ CURRENT, f r c.name = expected t r c

/-! ## 4. Facts about the columns -/

theorem current_nodup : (CURRENT.map Column.name).Nodup := by decide +kernel

theorem later_nodup : (LATER.map Column.name).Nodup :=
  current_nodup.sublist ((sublist_append_right BASE LATER).map _)

/-- Every default passes its own check. -/
theorem later_defaults : ∀ c ∈ LATER, c.accepts c.default = true := by decide

theorem later_subset {c : Column} (h : c ∈ LATER) : c ∈ CURRENT := mem_append_right _ h

theorem env_mem : envColumn ∈ CURRENT := later_subset mem_cons_self

theorem warn_mem : flag WARN 0 ∈ CURRENT := later_subset (mem_of_getElem? (i := 3) rfl)

/-- The first columns stand in every table that an upgrade has reached. -/
theorem base_front (k : Nat) : BASE <+: CURRENT.take (10 + k) := by
  have hlen : BASE.length = 10 := rfl
  rw [← hlen]
  unfold CURRENT
  rw [take_length_add_append]
  exact prefix_append _ _

/-- A current column is known by its name. -/
theorem current_name_inj {c d : Column} (hc : c ∈ CURRENT) (hd : d ∈ CURRENT)
    (h : c.name = d.name) : c = d := inj_on_of_nodup_map current_nodup hc hd h

/-- The table's own text has `'local'`, and that of a later column if it is `env`. -/
theorem texts_local : "'local'".toList <:+: createText ++ [')'] ∧
    ∀ c ∈ LATER, ("'local'".toList <:+: c.sql ↔ c = envColumn) := by decide +kernel

theorem legacy_has_auth : LEGACY.contains AUTH_TYPE = false := by decide

theorem legacy_values : (CURRENT.zip legacySources).all (fun cs =>
    match cs.2 with
    | .column name => name == cs.1.name && LEGACY.contains name
    | .const v => v == cs.1.default && cs.1.accepts v && !LEGACY.contains cs.1.name
    | .recode .. => false) = true := by decide +kernel

theorem current_front : ∀ k ≤ 8, ((CURRENT.take (10 + k)).map Column.name).contains AUTH_TYPE ∧
    (CURRENT.take (10 + k)).map Column.name ++
      (LATER.filter fun c => !((CURRENT.take (10 + k)).map Column.name).contains c.name).map
        Column.name = CURRENT.map Column.name := by decide +kernel

/-! ## 5. The rows on the way -/

section

variable {t t₂ : Table} {c : Column} {r : Row}

theorem stored_of_has (h : t.has c.name = true) : stored t r c = r c.name := if_pos h

theorem stored_of_not_has (h : t.has c.name = false) : stored t r c = c.default := by
  unfold stored
  rw [h]
  rfl

theorem current_defaults (hc : c ∈ CURRENT) (hl : LEGACY.contains c.name = false) :
    c.accepts c.default = true := by
  have hbase : ∀ c ∈ BASE, LEGACY.contains c.name = false → c.accepts c.default = true := by decide
  exact (mem_append.mp hc).elim (fun hc => hbase c hc hl) (later_defaults c)

/-- The columns that a historical table lacks take their defaults. -/
theorem Historical.default_accepted (h : Historical t) (hc : c ∈ CURRENT)
    (hlack : t.has c.name = false) : c.accepts c.default = true := by
  refine current_defaults hc ?_
  rcases h.shape with hs | ⟨k, -, hs⟩
  · rw [← hs]
    exact hlack
  · by_contra hl
    have hl : LEGACY.contains c.name = true := by simpa using hl
    have hbase : ∀ n, LEGACY.contains n = true → n ∈ BASE.map Column.name := by
      intro n hn
      have hall : LEGACY.all (fun n => (BASE.map Column.name).contains n) = true := by decide
      exact contains_iff_mem.mp (all_eq_true.mp hall n (contains_iff_mem.mp hn))
    have hmem : c.name ∈ t.names := by
      rw [hs]
      exact ((base_front k).map Column.name).subset (hbase _ hl)
    rw [Table.has, contains_iff_mem.mpr hmem] at hlack
    cases hlack

/-- Every historical table has ids and names. -/
theorem Historical.has_key (h : Historical t) (hname : c.name = ID ∨ c.name = NAME) :
    t.has c.name = true := by
  rw [has_iff]
  rcases h.shape with hs | ⟨k, hk, hs⟩
  · rw [hs]
    rcases hname with hname | hname <;> rw [hname] <;> decide
  · have hbase : ID ∈ BASE.map Column.name ∧ NAME ∈ BASE.map Column.name := by decide
    have hfront := ((base_front k).map Column.name).subset
    rw [hs]
    rcases hname with hname | hname <;> rw [hname]
    · exact hfront hbase.1
    · exact hfront hbase.2

/-- What a row holds is what the current column takes, or the old value of `env`. -/
theorem Historical.stored_accepted (h : Historical t) (hr : r ∈ t.rows) (hc : c ∈ CURRENT) :
    c.accepts (stored t r c) = true ∨ c = envColumn ∧ stored t r c = sandbox := by
  cases hhas : t.has c.name with
  | true =>
    rw [stored_of_has hhas]
    rcases h.values r hr c hc hhas with hv | ⟨rfl, hv⟩
    · exact .inl hv
    · exact .inr ⟨rfl, hv⟩
  | false =>
    rw [stored_of_not_has hhas]
    exact .inl (h.default_accepted hc hhas)

/-- The value that the last rebuild gives a column. -/
def converted (t : Table) (r : Row) (c : Column) : Value :=
  if c.name = ENV then toLocal (stored t r envColumn) else stored t r c

theorem Historical.converted_accepted (h : Historical t) (hr : r ∈ t.rows) (hc : c ∈ CURRENT) :
    c.accepts (converted t r c) = true := by
  unfold converted
  split
  · next henv =>
    obtain rfl : c = envColumn := current_name_inj hc env_mem henv
    unfold toLocal
    split
    · decide
    · next hne =>
      rcases h.stored_accepted hr hc with hv | ⟨-, hv⟩
      · exact hv
      · exact absurd hv hne
  · next henv =>
    rcases h.stored_accepted hr hc with hv | ⟨rfl, -⟩
    · exact hv
    · exact absurd rfl henv

/-- Its id and its name are converted to themselves. -/
theorem Historical.converted_kept (h : Historical t) : ∀ r ∈ t.rows, ∀ c ∈ CURRENT,
    c.name = ID ∨ c.name = NAME → converted t r c = r c.name := by
  intro r _ c _ hname
  have henv : c.name ≠ ENV := by
    rcases hname with hname | hname <;> rw [hname] <;> decide
  unfold converted
  rw [if_neg henv]
  exact stored_of_has (h.has_key hname)

/-- The warning flag of a row is down or up. -/
theorem Historical.flag_cases (h : Historical t) (hr : r ∈ t.rows) (hc : c ∈ CURRENT)
    (hname : c.name = WARN) : stored t r c = .int 0 ∨ stored t r c = .int 1 := by
  obtain rfl : c = flag WARN 0 := current_name_inj hc warn_mem hname
  rcases h.stored_accepted hr hc with hv | ⟨hflag, -⟩
  · cases hvalue : stored t r (flag WARN 0) with
    | null => rw [hvalue] at hv; cases hv
    | int n =>
      rw [hvalue] at hv
      simpa [Column.accepts, flag, Check.holds] using hv
    | text s => rw [hvalue] at hv; simp [Column.accepts, flag, Check.holds] at hv
  · exact absurd hflag (by decide)

/-- The table once it has every current column: its rows hold what the old ones held, and defaults.
Where its text has `'local'`, `env` is the current column, and no row is left to convert. -/
structure Filled (t t₂ : Table) : Prop where
  names : t₂.names = CURRENT.map Column.name
  columns : ∀ c ∈ t₂.columns, c ∈ CURRENT ∨ c ∈ t.columns
  rows : ∃ f, t₂.rows = t.rows.map f ∧ ∀ r ∈ t.rows, ∀ c ∈ CURRENT, f r c.name = stored t r c
  text : "'local'".toList <:+: t₂.sql →
    (∀ c ∈ t₂.columns, c.name = ENV → c = envColumn) ∧
      ∀ r ∈ t.rows, stored t r envColumn ≠ sandbox

theorem Filled.has (h : Filled t t₂) (hc : c ∈ CURRENT) : t₂.has c.name = true := by
  rw [has_iff, h.names]
  exact mem_map_of_mem hc

/-- The table with `env` converted, by the rebuild or because nothing is left to convert. -/
structure Converted (t t₃ : Table) : Prop where
  names : t₃.names = CURRENT.map Column.name
  columns : ∀ c ∈ t₃.columns, c ∈ CURRENT ∨ c ∈ t.columns ∧ c.name ≠ ENV
  rows : ∃ f, t₃.rows = t.rows.map f ∧ ∀ r ∈ t.rows, ∀ c ∈ CURRENT, f r c.name = converted t r c
  text : "'local'".toList <:+: t₃.sql

theorem envSource_eval (hf : ∀ c ∈ CURRENT, r c.name = stored t r₀ c) (hc : c ∈ CURRENT) :
    (envSource c).eval r = converted t r₀ c := by
  unfold envSource converted
  split
  · show (if r ENV = sandbox then «local» else r ENV) = _
    rw [show r ENV = stored t r₀ envColumn from hf _ env_mem]
    rfl
  · exact hf c hc

/-- **A rebuild goes through** when the new rows hold what the current columns take and the ids and
names are the old ones. -/
theorem rebuild_runs {select : List (Column × Source)} {f : Row → Row}
    {value : Row → Column → Value} (h : Historical t) (hcolumns : select.map Prod.fst = CURRENT)
    (hreads : ∀ cs ∈ select, ∀ name ∈ cs.2.reads, t₂.has name = true)
    (hrows : t₂.rows = t.rows.map f)
    (hvalues : ∀ r ∈ t.rows, ∀ c ∈ CURRENT, project select (f r) c.name = value r c)
    (haccepts : ∀ r ∈ t.rows, ∀ c ∈ CURRENT, c.accepts (value r c) = true)
    (hkept : ∀ r ∈ t.rows, ∀ c ∈ CURRENT, c.name = ID ∨ c.name = NAME → value r c = r c.name) :
    (t₂.rebuild select createText).bind createNameIndex =
      .ok ⟨{ columns := CURRENT, rows := t.rows.map (project select ∘ f), body := createText },
        true⟩ := by
  have hnew : t₂.rows.map (project select) = t.rows.map (project select ∘ f) := by
    rw [hrows, map_map]
  have hsame : ∀ c ∈ CURRENT, c.name = ID ∨ c.name = NAME →
      ∀ r ∈ t.rows, (project select ∘ f) r c.name = r c.name := by
    intro c hc hname r hr
    exact (hvalues r hr c hc).trans (hkept r hr c hc hname)
  have hkeys : ∀ c ∈ CURRENT, c.primaryKey = true → c.name = ID := by decide
  have hfits : fits (select.map Prod.fst) (t₂.rows.map (project select)) = true := by
    rw [hcolumns, hnew]
    refine all_eq_true.mpr fun c hc => Bool.and_eq_true_iff.mpr ⟨?_, ?_⟩
    · refine all_eq_true.mpr fun r' hr' => ?_
      obtain ⟨r, hr, rfl⟩ := mem_map.mp hr'
      rw [Function.comp_apply, hvalues r hr c hc]
      exact haccepts r hr c hc
    · cases hkey : c.primaryKey with
      | false => rfl
      | true =>
        have hid := hkeys c hc hkey
        have hids : ∀ r ∈ t.rows, (project select ∘ f) r c.name = r ID :=
          fun r hr => (hsame c hc (.inl hid) r hr).trans (by rw [hid])
        exact (uniqueOn_map hids).trans h.ids
  have hunique : uniqueName (t.rows.map (project select ∘ f)) = true := by
    have hmem : ∃ c ∈ CURRENT, c.name = NAME := by decide
    obtain ⟨c, hc, hname⟩ := hmem
    have hnames : ∀ r ∈ t.rows,
        lowerValue ((project select ∘ f) r NAME) = lowerValue (r NAME) := by
      intro r hr
      rw [← hname, hsame c hc (.inr hname) r hr]
    exact (uniqueOn_map hnames).trans h.lowerNames
  rw [rebuild_spec hreads hfits, hcolumns, hnew]
  exact if_pos hunique

theorem needsLocal_false_iff :
    env_check_needs_local_update t = false ↔ "'local'".toList <:+: t.sql := by
  unfold env_check_needs_local_update
  rw [Bool.not_eq_false', decide_eq_true_iff]

/-- **The last rebuild**: where it is needed it goes through and converts `env`. -/
theorem addLocal_spec (h : Historical t) (hf : Filled t t₂) :
    ∃ t₃, addLocalIfNeeded ⟨t₂, true⟩ = .ok ⟨t₃, true⟩ ∧ Converted t t₃ := by
  obtain ⟨f, hrows, hvalues⟩ := hf.rows
  unfold addLocalIfNeeded
  cases hneed : env_check_needs_local_update t₂ with
  | false =>
    have hlocal := needsLocal_false_iff.mp hneed
    obtain ⟨henv, hnone⟩ := hf.text hlocal
    refine ⟨t₂, rfl, hf.names, ?_, ⟨f, hrows, ?_⟩, hlocal⟩
    · intro c hc
      by_cases hname : c.name = ENV
      · exact .inl (henv c hc hname ▸ env_mem)
      · exact (hf.columns c hc).imp_right fun hc => ⟨hc, hname⟩
    · intro r hr c hc
      rw [hvalues r hr c hc]
      unfold converted toLocal
      rw [if_neg (hnone r hr)]
      split
      · next hname => rw [current_name_inj hc env_mem hname]
      · rfl
  | true =>
    -- every current column of a new row is the old one, converted
    have hselect : (CURRENT.map fun col => (col, envSource col)).map (·.1.name) =
        CURRENT.map Column.name := by
      rw [map_map]
      rfl
    have hproject : ∀ r ∈ t.rows, ∀ c ∈ CURRENT,
        project (CURRENT.map fun col => (col, envSource col)) (f r) c.name = converted t r c := by
      intro r hr c hc
      rw [project_apply (hselect ▸ current_nodup) (mem_map_of_mem hc) (f r)]
      exact envSource_eval (hvalues r hr) hc
    have hcolumns : (CURRENT.map fun col => (col, envSource col)).map Prod.fst = CURRENT := by
      rw [map_map]
      exact map_id _
    have hreads : ∀ cs ∈ CURRENT.map fun col => (col, envSource col),
        ∀ name ∈ cs.2.reads, t₂.has name = true := by
      intro cs hcs name hname
      obtain ⟨c, hc, rfl⟩ := mem_map.mp hcs
      unfold envSource at hname
      split at hname <;> obtain rfl := mem_singleton.mp hname
      · exact hf.has env_mem
      · exact hf.has hc
    have hrun := rebuild_runs h hcolumns hreads hrows hproject
      (fun r hr c hc => h.converted_accepted hr hc) (h.converted_kept)
    exact ⟨_, hrun, rfl, fun c hc => .inl hc, ⟨_, rfl, hproject⟩, texts_local.1⟩

/-! ## 6. The columns that are added -/

/-- Adding the later columns to a base fills it. -/
theorem filled_of_grown {f : Row → Row} {k : Nat} (h : Historical t) (hk : k ≤ 8)
    (hs : t.names = (CURRENT.take (10 + k)).map Column.name) (hg : Grown t LATER t₂ f) :
    Filled t t₂ := by
  have hnames : t₂.names = CURRENT.map Column.name := by
    unfold Table.names
    rw [hg.columns, map_append]
    have hfront := (current_front k hk).2
    rw [← hs] at hfront
    exact hfront
  -- a current column that the table lacks is one of the later ones
  have hlater : ∀ c ∈ CURRENT, t.has c.name = false → c ∈ LATER := by
    intro c hc hlack
    have hmem : c.name ∈ t₂.names := by
      rw [hnames]
      exact mem_map_of_mem hc
    unfold Table.names at hmem
    rw [hg.columns, map_append, mem_append] at hmem
    rcases hmem with hmem | hmem
    · rw [has_iff.mpr hmem] at hlack
      cases hlack
    · obtain ⟨d, hd, hname⟩ := mem_map.mp hmem
      have hd := (mem_filter.mp hd).1
      exact current_name_inj (later_subset hd) hc hname ▸ hd
  refine ⟨hnames, ?_, ⟨f, hg.rows, ?_⟩, ?_⟩
  · intro c hc
    rw [hg.columns, mem_append] at hc
    rcases hc with hc | hc
    · exact .inr hc
    · exact .inl (later_subset (mem_filter.mp hc).1)
  · intro r _ c hc
    cases hhas : t.has c.name with
    | true => rw [hg.kept r _ hhas, stored_of_has hhas]
    | false => rw [hg.filled r c (hlater c hc hhas) hhas, stored_of_not_has hhas]
  · intro hlocal
    rw [hg.words _ (by decide) (by decide) (by decide)] at hlocal
    cases henv : t.has ENV with
    | false =>
      refine ⟨fun c hc hname => ?_, fun r _ => ?_⟩
      · rw [hg.columns, mem_append] at hc
        rcases hc with hc | hc
        · rw [has_of_mem hc hname] at henv
          cases henv
        · exact current_name_inj (later_subset (mem_filter.mp hc).1) env_mem hname
      · rw [stored_of_not_has henv]
        decide
    | true =>
      -- the text was there before: `env` is not added
      have hold : "'local'".toList <:+: t.sql := by
        rcases hlocal with hlocal | ⟨c, hc, hlack, hlocal⟩
        · exact hlocal
        · obtain rfl := (texts_local.2 c hc).mp hlocal
          rw [show t.has envColumn.name = true from henv] at hlack
          cases hlack
      have hcolumn : envColumn ∈ t.columns := by
        obtain ⟨c, hc, hname⟩ := mem_map.mp (has_iff.mp henv)
        exact h.text hold c hc hname ▸ hc
      refine ⟨fun c hc hname => ?_, fun r hr => ?_⟩
      · rw [hg.columns, mem_append] at hc
        rcases hc with hc | hc
        · exact h.text hold c hc hname
        · exact current_name_inj (later_subset (mem_filter.mp hc).1) env_mem hname
      · rw [stored_of_has henv]
        intro hsandbox
        have hown := accepts_of_fits h.own hcolumn hr
        rw [show r envColumn.name = sandbox from hsandbox] at hown
        exact absurd hown (by decide)

/-! ## 7. The legacy table -/

theorem legacy_select : (CURRENT.zip legacySources).map Prod.fst = CURRENT :=
  map_fst_zip (by decide)

/-- A column of the rebuilt legacy table holds what was stored, or its default. -/
theorem legacy_eval {cs : Column × Source} (hs : t.names = LEGACY)
    (hcs : cs ∈ CURRENT.zip legacySources) (r : Row) :
    cs.2.eval r = stored t r cs.1 ∧ ∀ name ∈ cs.2.reads, t.has name = true := by
  have hrow := all_eq_true.mp legacy_values cs hcs
  have hhas : ∀ name, t.has name = LEGACY.contains name := by
    intro name
    unfold Table.has
    rw [hs]
  cases hsource : cs.2 with
  | column name =>
    rw [hsource] at hrow
    obtain ⟨hname, hlegacy⟩ := Bool.and_eq_true_iff.mp hrow
    obtain rfl := beq_iff_eq.mp hname
    have hthere : t.has cs.1.name = true := by rw [hhas, hlegacy]
    refine ⟨(stored_of_has hthere).symm, fun name hmem => ?_⟩
    obtain rfl := mem_singleton.mp hmem
    exact hthere
  | const v =>
    rw [hsource] at hrow
    simp only [Bool.and_eq_true, beq_iff_eq, Bool.not_eq_true'] at hrow
    obtain ⟨⟨rfl, -⟩, hlack⟩ := hrow
    exact ⟨(stored_of_not_has (by rw [hhas, hlack])).symm, fun _ hmem => absurd hmem not_mem_nil⟩
  | recode name old new =>
    rw [hsource] at hrow
    cases hrow

/-- **A legacy table is rebuilt** with every column. -/
theorem legacy_runs (h : Historical t) (hs : t.names = LEGACY) (index : Bool) :
    ∃ t₁, migrateLegacyToCurrent ⟨t, index⟩ = .ok ⟨t₁, true⟩ ∧ Filled t t₁ := by
  have hlack : t.has ENV = false := by
    unfold Table.has
    rw [hs]
    decide
  have hnodup : ((CURRENT.zip legacySources).map (·.1.name)).Nodup := by
    have hmap : (CURRENT.zip legacySources).map (·.1.name) =
        ((CURRENT.zip legacySources).map Prod.fst).map Column.name := by
      rw [map_map]
      rfl
    rw [hmap, legacy_select]
    exact current_nodup
  have hvalues : ∀ r ∈ t.rows, ∀ c ∈ CURRENT,
      project (CURRENT.zip legacySources) (id r) c.name = stored t r c := by
    intro r _ c hc
    obtain ⟨cs, hcs, rfl⟩ := mem_map.mp (legacy_select ▸ hc)
    rw [project_apply hnodup hcs]
    exact (legacy_eval hs hcs r).1
  have haccepts : ∀ r ∈ t.rows, ∀ c ∈ CURRENT, c.accepts (stored t r c) = true := by
    intro r hr c hc
    rcases h.stored_accepted hr hc with hv | ⟨rfl, hv⟩
    · exact hv
    · rw [stored_of_not_has hlack] at hv
      exact absurd hv (by decide)
  have hrun := rebuild_runs h legacy_select
    (fun cs hcs => (legacy_eval hs hcs fun _ => .null).2) (map_id _).symm hvalues haccepts
    fun r _ c _ hname => stored_of_has (h.has_key hname)
  refine ⟨_, hrun, rfl, fun c hc => .inl hc, ⟨_, rfl, hvalues⟩, fun _ => ⟨?_, ?_⟩⟩
  · intro c hc hname
    exact current_name_inj hc env_mem hname
  · intro r _
    rw [stored_of_not_has hlack]
    decide

/-! ## 8. The warning flag -/

theorem unwarned_update (r : Row) : unwarned (Function.update r WARN (.int 1)) = false := by
  unfold unwarned
  rw [Function.update_self, show (Value.int 1 == Value.int 0) = false by decide, Bool.and_false]

/-- What the last update makes of a row. -/
def warned (r : Row) : Row := if unwarned r then Function.update r WARN (.int 1) else r

theorem warned_of_ne {name : Text} (hne : name ≠ WARN) : warned r name = r name := by
  unfold warned
  split
  · exact Function.update_of_ne hne _ _
  · rfl

theorem warned_of_eq_false (h : unwarned r = false) : warned r = r := by
  unfold warned
  rw [h]
  rfl

theorem warned_of_eq_true (h : unwarned r = true) : warned r WARN = .int 1 := by
  unfold warned
  rw [if_pos h, Function.update_self]

/-- The flag ends up in staging and prod. -/
theorem warned_flag (hflag : r WARN = .int 0 ∨ r WARN = .int 1) :
    warned r WARN = if r ENV = staging ∨ r ENV = prod then .int 1 else r WARN := by
  by_cases henv : r ENV = staging ∨ r ENV = prod
  · rw [if_pos henv]
    rcases hflag with hflag | hflag
    · have hu : unwarned r = true := by
        unfold unwarned
        rcases henv with henv | henv <;> rw [henv, hflag] <;> decide
      exact warned_of_eq_true hu
    · have hu : unwarned r = false := by
        unfold unwarned
        rw [hflag, show (Value.int 1 == Value.int 0) = false by decide, Bool.and_false]
      rw [warned_of_eq_false hu, hflag]
  · have hu : unwarned r = false := by
      unfold unwarned
      rw [beq_eq_false_iff_ne.mpr fun h => henv (.inl h),
        beq_eq_false_iff_ne.mpr fun h => henv (.inr h)]
      rfl
    rw [if_neg henv, warned_of_eq_false hu]

/-- What the last update makes of a converted table. -/
theorem Converted.migrated (h : Historical t) (hc : Converted t t₂) :
    Migrated t (migrate_warn_unsafe_dml_for_prod_staging t₂) := by
  obtain ⟨f, hrows, hvalues⟩ := hc.rows
  have hnew : (migrate_warn_unsafe_dml_for_prod_staging t₂).rows = t.rows.map (warned ∘ f) := by
    show t₂.rows.map warned = _
    rw [hrows, map_map]
  refine ⟨hc.names, hc.columns, _, hnew, fun r hr c hmem => ?_⟩
  have henv : f r ENV = toLocal (stored t r envColumn) := hvalues r hr envColumn env_mem
  show warned (f r) c.name = expected t r c
  unfold expected
  by_cases hname : c.name = ENV
  · rw [if_pos hname, warned_of_ne (by rw [hname]; decide), hname, henv]
  have hvalue : f r c.name = stored t r c := (hvalues r hr c hmem).trans (if_neg hname)
  rw [if_neg hname]
  by_cases hwarn : c.name = WARN
  · have hflag := h.flag_cases hr hmem hwarn
    rw [← hvalue, hwarn] at hflag
    rw [← hvalue, hwarn, warned_flag hflag, henv]
    simp
  · rw [if_neg fun hset => hwarn hset.1, warned_of_ne hwarn, hvalue]

/-! ## 9. A start of the app -/

theorem contains_createIfMissing (name : Text) (tables : List Text) :
    (createIfMissing name tables).contains name = true := by
  unfold createIfMissing
  split
  · assumption
  · simp

theorem contains_createIfMissing_of_contains (other : Text) {name : Text} {tables : List Text}
    (h : tables.contains name = true) : (createIfMissing other tables).contains name = true := by
  unfold createIfMissing
  split
  · exact h
  · exact contains_iff_mem.mpr (mem_append_left _ (contains_iff_mem.mp h))

theorem createIfMissing_of_contains {name : Text} {tables : List Text}
    (h : tables.contains name = true) : createIfMissing name tables = tables := if_pos h

/-- The first step leaves the name index, and a table that the later columns fill. -/
theorem createOrMigrate_spec (index : Bool) (h : Historical t) :
    ∃ t₁ t₂, createOrMigrate (some ⟨t, index⟩) = .ok ⟨t₁, true⟩ ∧ t₁.addMissing LATER = .ok t₂ ∧
      Filled t t₂ := by
  rcases h.shape with hs | ⟨k, hk, hs⟩
  · obtain ⟨t₁, hrun, hfilled⟩ := legacy_runs h hs index
    have hlack : t.has AUTH_TYPE = false := by
      unfold Table.has
      rw [hs, legacy_has_auth]
    refine ⟨t₁, t₁, ?_, addMissing_of_has fun c hc => hfilled.has (later_subset hc), hfilled⟩
    show (if !t.has AUTH_TYPE then migrateLegacyToCurrent ⟨t, index⟩ else _) = _
    rw [hlack]
    exact hrun
  · obtain ⟨t₂, f, hrun, hgrown⟩ := addMissing_spec (t := t) later_nodup later_defaults
    have hauth : t.has AUTH_TYPE = true := by
      unfold Table.has
      rw [hs]
      exact (current_front k hk).1
    refine ⟨t, t₂, ?_, hrun, filled_of_grown h hk hs hgrown⟩
    show (if !t.has AUTH_TYPE then _ else createCurrentSchema (some ⟨t, index⟩)) = _
    rw [hauth]
    cases index with
    | true => rfl
    | false => exact if_pos h.lowerNames

end

/-- `init_db` is its steps, when each goes through. -/
theorem init_db_ok {db : Db} {c₁ c₃ : Connections} {t₂ : Table}
    (hfirst : createOrMigrate db.connections = .ok c₁) (hadd : c₁.table.addMissing LATER = .ok t₂)
    (hlocal : addLocalIfNeeded ⟨t₂, c₁.index⟩ = .ok c₃) :
    init_db db = .ok
      ⟨some ⟨migrate_warn_unsafe_dml_for_prod_staging c₃.table, c₃.index⟩,
        createIfMissing "pending_tx_keep_open".toList
          (createIfMissing "command_history".toList db.others)⟩ := by
  unfold init_db add_safety_columns_if_missing
  simp only [hfirst, hadd, hlocal, bind, Except.bind, pure, Except.pure]

/-- **Every historical table becomes the current one**: its rows are kept with the values they had,
`sandbox` becomes `local`, the flag is set in staging and prod; and a second run does nothing. -/
theorem init_db_migrates {c : Connections} (others : List Text) (h : Historical c.table) :
    ∃ c' others', init_db ⟨some c, others⟩ = .ok ⟨some c', others'⟩ ∧
      Migrated c.table c'.table ∧
      init_db ⟨some c', others'⟩ = .ok ⟨some c', others'⟩ := by
  obtain ⟨t₁, t₂, hfirst, hadd, hfilled⟩ := createOrMigrate_spec c.index h
  obtain ⟨t₃, hlocal, hconverted⟩ := addLocal_spec h hfilled
  have hmigrated := hconverted.migrated h
  refine ⟨_, _, init_db_ok hfirst hadd hlocal, hmigrated, ?_⟩
  generalize htables : createIfMissing "pending_tx_keep_open".toList
    (createIfMissing "command_history".toList others) = others'
  generalize ht : migrate_warn_unsafe_dml_for_prod_staging t₃ = t₄ at hmigrated
  -- the second run finds every column, the text, the index and the other tables
  have hhas : ∀ c ∈ CURRENT, t₄.has c.name = true := by
    intro c hc
    rw [has_iff, hmigrated.names]
    exact mem_map_of_mem hc
  have hauth : t₄.has AUTH_TYPE = true := hhas authTypeColumn (by decide)
  have hfirst' : createOrMigrate (some ⟨t₄, true⟩) = .ok ⟨t₄, true⟩ := by
    show (if !t₄.has AUTH_TYPE then _ else createCurrentSchema (some ⟨t₄, true⟩)) = _
    rw [hauth]
    rfl
  have hlocal' : addLocalIfNeeded ⟨t₄, true⟩ = .ok ⟨t₄, true⟩ := by
    have htext : "'local'".toList <:+: t₄.sql := by
      rw [← ht]
      exact hconverted.text
    unfold addLocalIfNeeded
    rw [needsLocal_false_iff.mpr htext]
    rfl
  have hwarned : migrate_warn_unsafe_dml_for_prod_staging t₄ = t₄ := by
    rw [← ht]
    exact updateWhere_twice fun r _ => unwarned_update r
  have hothers : createIfMissing "pending_tx_keep_open".toList
      (createIfMissing "command_history".toList others') = others' := by
    rw [← htables]
    have hhistory := contains_createIfMissing_of_contains "pending_tx_keep_open".toList
      (contains_createIfMissing "command_history".toList others)
    rw [createIfMissing_of_contains hhistory,
      createIfMissing_of_contains (contains_createIfMissing _ _)]
  rw [init_db_ok hfirst' (addMissing_of_has fun c hc => hhas c (later_subset hc)) hlocal', hwarned,
    hothers]

/-- A row by its values; NULL where it has none. -/
def rowOf (entries : List (Text × Value)) : Row := fun name =>
  ((entries.find? (·.1 == name)).map Prod.snd).getD .null

def beforeLocalColumns : List Column :=
  BASE ++ [{ name := ENV, affinity := .text, check := .oneOf [dev, staging, prod, sandbox] },
    flag "read_only".toList 0]

/-- A table from before `local`, with `env` and `read_only`: a sandbox and a production row. -/
def beforeLocal : Table where
  columns := beforeLocalColumns
  rows :=
    [rowOf [(ID, .text "a".toList), (NAME, .text "Play".toList), (AUTH_TYPE, basic),
        ("username".toList, .text "u".toList), ("created_at".toList, .text "t".toList),
        ("updated_at".toList, .text "t".toList), (ENV, sandbox), ("read_only".toList, .int 0)],
      rowOf [(ID, .text "b".toList), (NAME, .text "Real".toList), (AUTH_TYPE, basic),
        ("username".toList, .text "u".toList), ("created_at".toList, .text "t".toList),
        ("updated_at".toList, .text "t".toList), (ENV, prod), ("read_only".toList, .int 1)]]
  body := "CREATE TABLE connections (".toList ++
    List.intercalate ", ".toList (beforeLocalColumns.map Column.sql)

theorem beforeLocal_historical : Historical beforeLocal where
  shape := .inr ⟨2, by decide, by decide +kernel⟩
  own := by decide +kernel
  values := by decide +kernel
  text := fun h => absurd h (by decide +kernel)
  ids := by decide +kernel
  lowerNames := by decide +kernel

theorem init_db_migrates_sandbox :
    ∃ c' others', init_db ⟨some ⟨beforeLocal, true⟩, []⟩ = .ok ⟨some c', others'⟩ ∧
      Migrated beforeLocal c'.table ∧
      init_db ⟨some c', others'⟩ = .ok ⟨some c', others'⟩ :=
  init_db_migrates [] beforeLocal_historical

/-- The sandbox row is local then, and the production row has its flag. -/
example : ((init_db ⟨some ⟨beforeLocal, true⟩, []⟩).toOption.bind (·.connections)).map
    (fun c => c.table.rows.map fun r => (r ENV, r WARN, r "read_only".toList)) =
      some [(«local», .int 0, .int 0), (prod, .int 1, .int 1)] := by decide +kernel

end Veesker.Host.Schema
