/-
  File:      Veesker/Sandbox/Masks.lean
  Subject:   ARE THE MASKS OF THE MANIFEST APPLIED? What the build packs of a column it lists as
             masked.

  The rows that are packed are the rows that were extracted (`packedValues_staged`): nothing between
  the two calls `applyMask`.

  * **`masks_honest_iff`**: the values packed of every listed column are those its mask makes of them
    exactly where the mask leaves every extracted value as it is.
-/
import Veesker.Sandbox.Production
import Veesker.Vsk.Sealed

namespace Veesker.Sandbox

open Format Vsk Sidecar List

/-! ## 1. What is packed of a column -/

/-- The value an `INSERT` gives a column of a table. -/
def insertedValue (table column : Text) : Statement → Option Value
  | .insertValues name columns values =>
    if name = toLowerCase table then (columns.zip values).lookup column else none
  | _ => none

/-- The values of a column that the statements put into a table. -/
def packedValues (statements : List Statement) (table column : Text) : List Value :=
  statements.filterMap (insertedValue table column)

section

variable {table column : Text}

theorem packedValues_append (a b : List Statement) :
    packedValues (a ++ b) table column = packedValues a table column ++ packedValues b table column :=
  filterMap_append

theorem packedValues_other {statements : List Statement}
    (h : ∀ name columns values, Statement.insertValues name columns values ∈ statements →
      name ≠ toLowerCase table) : packedValues statements table column = [] := by
  rw [packedValues, filterMap_eq_nil_iff]
  intro st hst
  cases st with
  | insertValues name columns values => exact if_neg (h name columns values hst)
  | createTable replace name columns => rfl
  | createFromParquet replace name parquet => rfl
  | insertFromParquet name parquet => rfl

theorem lookup_zip_map (f : Text → Value) {cols : List VskColumn}
    (h : column ∈ cols.map VskColumn.name) :
    ((cols.map VskColumn.name).zip (cols.map fun c => f c.name)).lookup column = some (f column) := by
  induction cols with
  | nil => cases h
  | cons c cols ih =>
    rw [map_cons, map_cons, zip_cons_cons, lookup_cons]
    cases hc : column == c.name with
    | true => rw [beq_iff_eq.mp hc]
    | false =>
      have hne : column ≠ c.name := beq_eq_false_iff_ne.mp hc
      exact ih ((mem_cons.mp h).resolve_left hne)

/-- **The statements of a table** pack its rows as they are. -/
theorem packedValues_table {m : SandboxManifest} (rows : List Row)
    (h : column ∈ (stagedColumns m table).map VskColumn.name) :
    packedValues (tableStatements m table rows) table column =
      rows.map fun row => storedValue (cell row column) := by
  have hne : (stagedColumns m table).isEmpty = false := by
    cases hc : stagedColumns m table with
    | nil =>
      rw [hc] at h
      cases h
    | cons c cs => rfl
  rw [tableStatements]
  simp only [hne]
  rw [if_neg Bool.false_ne_true, packedValues, filterMap_cons]
  show List.filterMap (insertedValue table column) (rows.map (rowStatement table _)) = _
  rw [filterMap_map, ← filterMap_eq_map]
  congr 1
  funext row
  show (if toLowerCase table = toLowerCase table then _ else _) = _
  rw [if_pos rfl]
  exact lookup_zip_map (fun n => storedValue (cell row n)) h

end

/-! ## 2. The catalogue of the database -/

/-- What the database promises about the names of its tables, in lower case: a new one is empty, a
    name is created once, nothing else makes one, and only what is there is exported. -/
structure Catalogue {σ : Type} (D : DuckDBHost σ) (tables : σ → List Text) : Prop where
  empty : tables D.openInMemory = []
  create : ∀ name columns s s', toLowerCase name = name →
    D.exec (.createTable false name columns) s = .ok s' →
      name ∉ tables s ∧ tables s' = tables s ++ [name]
  insert : ∀ name columns values s s', D.exec (.insertValues name columns values) s = .ok s' →
    tables s' = tables s
  copy : ∀ name s b, toLowerCase name = name → D.copyToParquet name s = .ok b → name ∈ tables s

/-- The table a statement creates. -/
def createdName : Statement → Option Text
  | .createTable _ name _ => some name
  | _ => none

/-- A statement of the staging: it creates a table with a name in lower case, or it inserts. -/
def Staging : Statement → Prop
  | .createTable replace name _ => replace = false ∧ toLowerCase name = name
  | .insertValues _ _ _ => True
  | _ => False

section

variable {σ : Type} {D : DuckDBHost σ} {tables : σ → List Text}

theorem run_ok {st : Statement} {s s' : σ} : D.run st s = .ok s' ↔ D.exec st s = .ok s' := by
  rw [DuckDBHost.run]
  cases D.exec st s with
  | error e => exact ⟨nofun, nofun⟩
  | ok a => exact ⟨fun h => by cases h; rfl, fun h => by cases h; rfl⟩

/-- **The run**: the tables that are there afterwards are those that were created, no two of one
    name. -/
theorem runAll_tables (hD : Catalogue D tables) {sts : List Statement} (hst : ∀ st ∈ sts, Staging st)
    {s s' : σ} (h : D.runAll sts s = .ok s') (hs : (tables s).Nodup) :
    tables s' = tables s ++ sts.filterMap createdName ∧ (tables s').Nodup := by
  induction sts generalizing s with
  | nil =>
    cases h
    exact ⟨(append_nil _).symm, hs⟩
  | cons st sts ih =>
    rw [DuckDBHost.runAll, foldlM_cons] at h
    obtain ⟨s1, h1, h2⟩ := bind_ok.mp h
    have hrest := fun x hx => hst x (mem_cons_of_mem _ hx)
    have hhead := hst st mem_cons_self
    cases st with
    | createTable replace name columns =>
      obtain ⟨rfl, hl⟩ := hhead
      obtain ⟨hn, ht⟩ := hD.create name columns s s1 hl (run_ok.mp h1)
      have hs1 : (tables s1).Nodup := by
        rw [ht, nodup_append]
        refine ⟨hs, nodup_singleton name, fun a ha b hb => ?_⟩
        rw [mem_singleton.mp hb]
        rintro rfl
        exact hn ha
      obtain ⟨e, hnd⟩ := ih hrest h2 hs1
      refine ⟨?_, hnd⟩
      rw [e, ht, append_assoc]
      rfl
    | insertValues name columns values =>
      have ht := hD.insert name columns values s s1 (run_ok.mp h1)
      obtain ⟨e, hnd⟩ := ih hrest h2 (ht ▸ hs)
      exact ⟨by rw [e, ht]; rfl, hnd⟩
    | createFromParquet replace name parquet => exact absurd hhead id
    | insertFromParquet name parquet => exact absurd hhead id

end

/-! ## 3. The tables of a file -/

theorem readTable_json {ν : Type} (N : Runtime ν) (t : ManifestTable) :
    readTable (t.json N) = some ⟨t.name, t.columns⟩ := by
  have hcols : ∀ cols : List VskColumn,
      (cols.map (VskColumn.json (ν := ν))).mapM readColumn = some cols := by
    intro cols
    induction cols with
    | nil => rfl
    | cons c cols ih =>
      rw [map_cons, mapM_cons, ih]
      rfl
  have hm : (member (t.json N) "columns".toList).bind asArray = some (t.columns.map VskColumn.json) :=
    rfl
  show (do
    let columns ← (member (t.json N) "columns".toList).bind asArray
    some (⟨t.name, ← columns.mapM readColumn⟩ : VskTable)) = _
  rw [hm]
  show (do
    some (⟨t.name, ← (t.columns.map (VskColumn.json (ν := ν))).mapM readColumn⟩ : VskTable)) = _
  rw [hcols]
  rfl

/-- The tables of the written object are those of the manifest. -/
theorem manifestTables_json {ν : Type} (N : Runtime ν) (m : SandboxManifest) :
    manifestTables (m.json N) = m.tables.map fun t => ⟨t.name, t.columns⟩ := by
  have h : (member (m.json N) "tables".toList).bind asArray =
      some (m.tables.map (ManifestTable.json N)) := rfl
  rw [manifestTables, h, Option.getD_some, filterMap_map, ← filterMap_eq_map]
  congr 1
  funext t
  exact readTable_json N t

theorem forM_answers {α : Type} {f : α → Except Failure Unit} {l : List α} (h : l.forM f = .ok ()) :
    ∀ a ∈ l, f a = .ok () := by
  induction l with
  | nil => exact fun a ha => absurd ha not_mem_nil
  | cons x l ih =>
    rw [show (x :: l).forM f = (f x >>= fun _ => l.forM f) from rfl, bind_ok] at h
    obtain ⟨⟨⟩, hx, hl⟩ := h
    intro a ha
    rcases mem_cons.mp ha with rfl | ha
    · exact hx
    · exact ih hl a ha

/-- **Every table of a written file** has a name the format takes, and was exported. -/
theorem writeVsk_tables {σ ν : Type} {N : JsNumbers ν} {D : DuckDBHost σ} {src : σ} {m : Json ν}
    {file : Bytes} (h : writeVsk N D src m = .ok file) : ∀ t ∈ manifestTables m,
      isName 127 t.name = true ∧ isSystemName t.name = false ∧
        ∃ b, D.copyToParquet (toLowerCase t.name) src = .ok b := by
  obtain ⟨⟨⟩, hnames, h⟩ := bind_ok.mp h
  obtain ⟨user, huser, -⟩ := bind_ok.mp h
  intro t ht
  obtain ⟨frame, hf⟩ := mapM_answers huser t ht
  refine ⟨assertValidTableName_ok_iff.mp (forM_answers hnames t ht), ?_⟩
  rw [writeUserTable] at hf
  split at hf
  · cases hf
  · rename_i hs
    refine ⟨by simpa using hs, ?_⟩
    obtain ⟨b, hb, -⟩ := bind_ok.mp hf
    cases hc : D.copyToParquet (toLowerCase t.name) src with
    | ok b => exact ⟨b, rfl⟩
    | error e =>
      rw [hc] at hb
      cases hb

/-! ## 4. What a build packs -/

theorem toLowerCase_name {n : Nat} {name : Text} (h : isName n name = true) :
    toLowerCase (toLowerCase name) = toLowerCase name := by
  have hlow : ∀ c : Char, c.toNat < 128 → c.toLower.toNat < 128 ∧ c.toLower.toLower = c.toLower :=
    fun c hc => forall_ascii
      (P := fun c => c.toLower.toNat < 128 ∧ c.toLower.toLower = c.toLower) (by decide) hc
  have ha := isName_ascii h
  have hb : ∀ c ∈ name.map Char.toLower, c.toNat < 128 := by
    intro c hc
    obtain ⟨d, hd, rfl⟩ := mem_map.mp hc
    exact (hlow d (ha d hd)).1
  rw [toLowerCase_ascii ha, toLowerCase_ascii hb, map_map]
  exact map_congr_left fun c hc => (hlow c (ha c hc)).2

theorem toUpperCase_eq_of_lower {n : Nat} {a b : Text} (ha : isName n a = true)
    (hb : isName n b = true) (h : toLowerCase a = toLowerCase b) : toUpperCase a = toUpperCase b :=
  (toUpperCase_eq_iff_ascii (isName_ascii ha) (isName_ascii hb)).mpr h

section

variable {m : SandboxManifest} {rowsByTable : Record (List Row)} {p : PackedPlsql}

theorem stagedColumns_congr {a b : Text} (h : toUpperCase a = toUpperCase b) :
    stagedColumns m a = stagedColumns m b := by
  rw [stagedColumns, stagedColumns, h]

theorem mem_tableStatements {name : Text} {rows : List Row} {st : Statement}
    (h : st ∈ tableStatements m name rows) : (stagedColumns m name).isEmpty = false ∧
      (st = .createTable false (toLowerCase name) (stagedColumns m name) ∨
        ∃ row ∈ rows, st = rowStatement name (stagedColumns m name) row) := by
  rw [tableStatements] at h
  split at h
  · cases h
  · rename_i hc
    refine ⟨by simpa using hc, ?_⟩
    rcases mem_cons.mp h with h | h
    · exact .inl h
    · obtain ⟨row, hr, e⟩ := mem_map.mp h
      exact .inr ⟨row, hr, e.symm⟩

/-- The names of the tables the sandbox keeps for itself. -/
def systemNames : List Text := ["__vsk_objects", "__vsk_source", "__vsk_dependencies"].map String.toList

theorem mem_plsqlStatements {st : Statement} (h : st ∈ plsqlStatements p) :
    ∃ name ∈ systemNames, (∃ columns, st = .createTable false name columns) ∨
      ∃ values, st = .insertValues name [] values := by
  simp only [plsqlStatements, mem_cons, mem_append, mem_map] at h
  rcases h with (rfl | ⟨r, -, rfl⟩) | (rfl | ⟨r, -, rfl⟩) | rfl | ⟨r, -, rfl⟩
  · exact ⟨"__vsk_objects".toList, by decide, .inl ⟨_, rfl⟩⟩
  · exact ⟨"__vsk_objects".toList, by decide, .inr ⟨_, rfl⟩⟩
  · exact ⟨"__vsk_source".toList, by decide, .inl ⟨_, rfl⟩⟩
  · exact ⟨"__vsk_source".toList, by decide, .inr ⟨_, rfl⟩⟩
  · exact ⟨"__vsk_dependencies".toList, by decide, .inl ⟨_, rfl⟩⟩
  · exact ⟨"__vsk_dependencies".toList, by decide, .inr ⟨_, rfl⟩⟩

theorem system_ne_lower {table name : Text} (ht : isSystemName table = false)
    (hn : name ∈ systemNames) : name ≠ toLowerCase table := by
  rintro rfl
  have h : startsWith (toLowerCase table) SYSTEM_TABLE_PREFIX = true := by
    have hall : ∀ n ∈ systemNames, startsWith n SYSTEM_TABLE_PREFIX = true := by decide
    exact hall _ hn
  rw [isSystemName, h] at ht
  exact absurd ht.symm Bool.false_ne_true

theorem staged_staging (hnames : ∀ e ∈ rowsByTable, isName 127 e.1 = true) :
    ∀ st ∈ stagedStatements m rowsByTable p, Staging st := by
  intro st hst
  rcases mem_append.mp hst with h | h
  · obtain ⟨e, he, h⟩ := mem_flatMap.mp h
    obtain ⟨-, rfl | ⟨row, -, rfl⟩⟩ := mem_tableStatements h
    · exact ⟨rfl, toLowerCase_name (hnames e he)⟩
    · trivial
  · obtain ⟨name, hn, ⟨columns, rfl⟩ | ⟨values, rfl⟩⟩ := mem_plsqlStatements h
    · have hall : ∀ n ∈ systemNames, toLowerCase n = n := by decide
      exact ⟨rfl, hall name hn⟩
    · trivial

/-- What the statements of a table create. -/
def createdOf (m : SandboxManifest) (name : Text) : List Text :=
  if (stagedColumns m name).isEmpty then [] else [toLowerCase name]

theorem created_table (name : Text) (rows : List Row) :
    (tableStatements m name rows).filterMap createdName = createdOf m name := by
  rw [tableStatements, createdOf]
  split
  · rfl
  · rw [filterMap_cons]
    show toLowerCase name :: (rows.map (rowStatement name _)).filterMap createdName = _
    rw [filterMap_map]
    have hnil : rows.filterMap (createdName ∘ rowStatement name (stagedColumns m name)) = [] :=
      filterMap_eq_nil_iff.mpr fun row _ => rfl
    rw [hnil]

theorem created_user (r : Record (List Row)) :
    (userStatements m r).filterMap createdName = r.flatMap fun e => createdOf m e.1 := by
  induction r with
  | nil => rfl
  | cons e r ih =>
    rw [userStatements, flatMap_cons, filterMap_append, created_table, flatMap_cons]
    exact congrArg _ ih

end

/-- **The rows are packed as they were extracted**: what the database was told to put into a column
    of a table that a file was then written of. -/
theorem packedValues_staged {σ ν : Type} {N : Runtime ν} {D : DuckDBHost σ} {tables : σ → List Text}
    (hD : Catalogue D tables) {m : SandboxManifest} {rowsByTable : Record (List Row)}
    {p : PackedPlsql} {host : σ} {file : Bytes}
    (hkeys : ∀ n, n ∈ rowsByTable.map Prod.fst ↔ n ∈ m.tables.map ManifestTable.name)
    (hnd : (m.tables.map ManifestTable.name).Nodup)
    (hrun : D.runAll (stagedStatements m rowsByTable p) D.openInMemory = .ok host)
    (hfile : writeVsk N.toJsNumbers D host (m.json N) = .ok file)
    {t : ManifestTable} (ht : t ∈ m.tables) {rows : List Row} (hrows : (t.name, rows) ∈ rowsByTable)
    {column : Text} (hcol : column ∈ t.columns.map VskColumn.name) :
    packedValues (stagedStatements m rowsByTable p) t.name column =
      rows.map fun row => storedValue (cell row column) := by
  have hwrite : ∀ u ∈ m.tables, isName 127 u.name = true ∧ isSystemName u.name = false ∧
      ∃ b, D.copyToParquet (toLowerCase u.name) host = .ok b := by
    intro u hu
    have hm : (⟨u.name, u.columns⟩ : VskTable) ∈ manifestTables (m.json N) := by
      rw [manifestTables_json]
      exact mem_map_of_mem hu
    exact writeVsk_tables hfile _ hm
  have hnames : ∀ e ∈ rowsByTable, isName 127 e.1 = true := by
    intro e he
    obtain ⟨u, hu, hn⟩ := mem_map.mp ((hkeys e.1).mp (mem_map_of_mem he))
    exact hn ▸ (hwrite u hu).1
  obtain ⟨hname, hsys, b, hcopy⟩ := hwrite t ht
  -- the tables that are there are those that were created, each once
  obtain ⟨hthere, hnodup⟩ := runAll_tables hD (staged_staging hnames) hrun (by rw [hD.empty]; simp)
  rw [hD.empty, nil_append, stagedStatements, filterMap_append, created_user] at hthere
  rw [hthere] at hnodup
  have huser := (nodup_append.mp hnodup).1
  -- the table was created, and by its own statements
  have hstaged : stagedColumns m t.name ≠ [] := by
    have hmem := hD.copy _ _ _ (toLowerCase_name hname) hcopy
    rw [hthere] at hmem
    rcases mem_append.mp hmem with h | h
    · obtain ⟨e, he, hl⟩ := mem_flatMap.mp h
      rw [createdOf] at hl
      split at hl
      · cases hl
      · rename_i hc
        have hup := toUpperCase_eq_of_lower hname (hnames e he) (mem_singleton.mp hl)
        rw [stagedColumns_congr hup]
        simpa using hc
    · obtain ⟨st, hst, hl⟩ := mem_filterMap.mp h
      obtain ⟨name, hn, ⟨columns, rfl⟩ | ⟨values, rfl⟩⟩ := mem_plsqlStatements hst
      · cases hl
        exact absurd rfl (system_ne_lower hsys hn)
      · cases hl
  obtain ⟨l1, l2, hsplit⟩ := append_of_mem hrows
  have hempty : (stagedColumns m t.name).isEmpty = false := by simpa using hstaged
  have hown : createdOf m t.name = [toLowerCase t.name] := by
    rw [createdOf, hempty, if_neg Bool.false_ne_true]
  rw [hsplit, flatMap_append, flatMap_cons, hown] at huser
  -- no other table that is staged has that name in lower case
  have hother : ∀ e, e ∈ l1 ∨ e ∈ l2 → (stagedColumns m e.1).isEmpty = false →
      toLowerCase e.1 ≠ toLowerCase t.name := by
    intro e he hc hl
    have hin : toLowerCase t.name ∈ createdOf m e.1 := by
      rw [createdOf, hc, if_neg Bool.false_ne_true, hl]
      exact mem_singleton_self _
    obtain ⟨-, hnd2, hdisj⟩ := nodup_append.mp huser
    rcases he with he | he
    · exact hdisj _ (mem_flatMap.mpr ⟨e, he, hin⟩) _ (mem_append_left _
        (mem_singleton_self _)) rfl
    · exact (nodup_cons.mp hnd2).1 (mem_flatMap.mpr ⟨e, he, hin⟩)
  -- so the columns it is staged with are its own
  have hcolumns : stagedColumns m t.name = t.columns := by
    obtain ⟨u, hu⟩ : ∃ u, m.tables.find? (fun u => toUpperCase u.name == toUpperCase t.name) =
        some u := by
      rw [← Option.isSome_iff_exists, List.find?_isSome]
      exact ⟨t, ht, beq_self_eq_true _⟩
    have hum := mem_of_find?_eq_some hu
    have hup : toUpperCase u.name = toUpperCase t.name := by
      have h := List.find?_some hu
      simpa using h
    have hl := (toUpperCase_eq_iff_ascii (isName_ascii (hwrite u hum).1) (isName_ascii hname)).mp hup
    have hne : u.name = t.name := by
      by_contra hne
      obtain ⟨e, he, hn⟩ := mem_map.mp ((hkeys u.name).mpr (mem_map_of_mem hum))
      have hside : e ∈ l1 ∨ e ∈ l2 := by
        rw [hsplit, mem_append, mem_cons] at he
        rcases he with he | rfl | he
        · exact .inl he
        · exact absurd hn.symm hne
        · exact .inr he
      refine hother e hside ?_ (hn ▸ hl)
      rw [hn, stagedColumns_congr hup]
      exact hempty
    have hut : u = t := inj_on_of_nodup_map hnd hum ht hne
    rw [stagedColumns, hu, hut]
    rfl
  have hnone : ∀ l : Record (List Row), (∀ e ∈ l, e ∈ l1 ∨ e ∈ l2) →
      packedValues (userStatements m l) t.name column = [] := by
    intro l hl
    refine packedValues_other fun name columns values hst => ?_
    obtain ⟨e, he, hst⟩ := mem_flatMap.mp hst
    obtain ⟨hc, h | ⟨row, -, h⟩⟩ := mem_tableStatements hst
    · cases h
    · cases h
      exact hother e (hl e he) hc
  have hsystem : packedValues (plsqlStatements p) t.name column = [] := by
    refine packedValues_other fun name columns values hst => ?_
    obtain ⟨n, hn, ⟨cols, h⟩ | ⟨vals, h⟩⟩ := mem_plsqlStatements hst
    · cases h
    · cases h
      exact system_ne_lower hsys hn
  have hmid : userStatements m rowsByTable = userStatements m l1 ++
      (tableStatements m t.name rows ++ userStatements m l2) := by
    rw [hsplit, userStatements, flatMap_append, flatMap_cons]
    rfl
  rw [stagedStatements, packedValues_append, hsystem, append_nil, hmid, packedValues_append,
    packedValues_append, hnone l1 fun e he => .inl he, hnone l2 fun e he => .inr he,
    nil_append, append_nil]
  exact packedValues_table rows (by rw [hcolumns]; exact hcol)

/-- The tables of a manifest are those of the walk. -/
theorem packed_tables {env : BuildEnv} {spec : SandboxBuildSpec} {arrays : Arrays} {b : Built}
    {p : Packed} (h : buildSandbox env spec arrays = .ok b) (hp : b.packed = some p) :
    ∃ r, walkFkBfs spec.schemaName (primaryNames spec) env.fkSingleHop (walkDepth spec) = .ok r ∧
      p.manifest.tables.map ManifestTable.name = r.tablesIncluded := by
  obtain ⟨s, ddl, -, -, hs, -, hm, -⟩ := buildSandbox_packed h hp
  obtain ⟨r, hr, hincl, -⟩ := surveySandbox_ok hs
  refine ⟨r, hr, ?_⟩
  rw [hm, ← hincl]
  simp [manifestOf, Function.comp_def]

/-- **What a build packs of a column is what it extracted.** -/
theorem packedValues_built {σ ν : Type} {N : Runtime ν} {S : Sodium} {D : DuckDBHost σ}
    {tables : σ → List Text} (hD : Catalogue D tables) {env : BuildEnv} {blobNonce : S.blob.Nonce}
    (henv : env.writeEncryptedVskAt = writeStaged N S D blobNonce) {spec : SandboxBuildSpec}
    {arrays : Arrays} {b : Built} {p : Packed} (h : buildSandbox env spec arrays = .ok b)
    (hp : b.packed = some p) {table column : Text} {cols : List ColumnMeta} {rows : List Row}
    (ht : table ∈ p.manifest.tables.map ManifestTable.name)
    (hi : env.introspect spec.schemaName table = .ok cols)
    (hcol : column ∈ cols.map ColumnMeta.name) (hrows : rowsOf env spec table = .ok rows) :
    packedValues (stagedStatements p.manifest p.rowsByTable p.plsql) table column =
      rows.map fun row => storedValue (cell row column) := by
  obtain ⟨s, ddl, key, arrays', hs, hextract, hm, -, -, hfile, -⟩ := buildSandbox_packed h hp
  rw [henv] at hfile
  obtain ⟨host, hrun, henc⟩ := bind_ok.mp hfile
  obtain ⟨plain, hplain, -⟩ := bind_ok.mp henc
  obtain ⟨r, hr, hincl, hcols, -, -⟩ := surveySandbox_ok hs
  obtain ⟨hin, -, hkeys⟩ := setAll_ok hextract
  obtain ⟨hnd, hmem⟩ := hkeys nodup_nil
  have hnames : p.manifest.tables.map ManifestTable.name = s.tablesIncluded := by
    rw [hm]
    simp [manifestOf, Function.comp_def]
  have ht' : table ∈ s.tablesIncluded := hnames ▸ ht
  obtain rfl := Except.ok.inj ((hcols _ ht').symm.trans hi)
  obtain ⟨v, hv, he⟩ := hin _ ht'
  obtain rfl := Except.ok.inj (hrows.symm.trans hv)
  have hentry : (table, rows) ∈ p.rowsByTable := by
    obtain ⟨⟨k, v⟩, hem, hek⟩ := mem_map.mp ((hmem table).mpr (.inl ht'))
    obtain rfl : k = table := hek
    obtain rfl := Option.some.inj ((entryOf_of_mem hnd hem).symm.trans he)
    exact hem
  obtain ⟨t, htm, rfl⟩ := mem_map.mp ht
  have htc : t.columns = (columnsOf s.schemas t.name).map fun c =>
      ⟨c.name, c.dataType, c.nullable⟩ := by
    rw [hm] at htm
    simp only [manifestOf, mem_map] at htm
    obtain ⟨tn, -, rfl⟩ := htm
    rfl
  refine packedValues_staged hD (fun n => ?_) ?_ hrun hplain htm hentry ?_
  · rw [hmem, hnames]
    simp
  · rw [hnames, hincl]
    exact (walkFkBfs_ok hr).1
  · rw [htc, map_map]
    exact hcol

/-! ## 5. The masks of the manifest -/

section

variable (sha256Hex : Bytes → Text) (env : BuildEnv) (spec : SandboxBuildSpec)

/-- The values packed of every column the manifest lists as masked are those its mask makes of the
    extracted ones. -/
def HonestMasks (p : Packed) : Prop :=
  ∀ mask ∈ p.manifest.piiMasks, ∀ rows, rowsOf env spec mask.table = .ok rows →
    packedValues (stagedStatements p.manifest p.rowsByTable p.plsql) mask.table mask.column =
      rows.map fun row => maskedValue sha256Hex mask.maskType (cell row mask.column)

/-- A column the scan takes for personal, with the mask it suggests. -/
def Flagged (table column : Text) (mask : VskMaskType) : Prop :=
  spec.piiLevel = 2 ∧
    ∃ r, walkFkBfs spec.schemaName (primaryNames spec) env.fkSingleHop (walkDepth spec) = .ok r ∧
      table ∈ r.tablesIncluded ∧
    ∃ cols, env.introspect spec.schemaName table = .ok cols ∧ column ∈ cols.map ColumnMeta.name ∧
    ∃ samples det, env.sampleColumn spec.schemaName table column PII_SAMPLE_SIZE = .ok samples ∧
      env.detect column samples = some det ∧ det.defaultMask = mask

/-- Every extracted value of every such column is `null` or a text its mask leaves as it is. -/
def FlaggedKept : Prop :=
  ∀ table column mask, Flagged env spec table column mask →
    ∀ rows, rowsOf env spec table = .ok rows → ∀ row ∈ rows,
      cell row column = .null ∨ ∃ s, cell row column = .text s ∧ KeptByMask sha256Hex s mask

variable {env spec}

/-- The masks of a manifest are the suggestions of the scan. -/
theorem mem_piiMasks {s : Survey} (h : surveySandbox env spec = .ok s) {rows : Record (List Row)}
    {ddl : ExtractPlsqlDdlResult} {mask : VskPiiMask} :
    mask ∈ (manifestOf env spec s rows ddl).piiMasks ↔
      Flagged env spec mask.table mask.column mask.maskType := by
  obtain ⟨r, hr, hincl, hcols, hscan, hnone⟩ := surveySandbox_ok h
  have hmem : mask ∈ (manifestOf env spec s rows ddl).piiMasks ↔
      ∃ x ∈ s.piiSuggestions, mask = ⟨x.table, x.column, x.suggestedMask⟩ := by
    simp only [manifestOf, mem_map, eq_comm]
  rw [hmem]
  by_cases hl : spec.piiLevel = 2
  · have hs := mem_scanTables (hscan hl)
    constructor
    · rintro ⟨x, hx, rfl⟩
      obtain ⟨t, ht, col, hc, samples, det, hsam, hdet, rfl⟩ := (hs x).mp hx
      exact ⟨hl, r, hr, hincl ▸ ht, _, hcols t ht, mem_map_of_mem hc, samples, det, hsam, hdet,
        rfl⟩
    · rintro ⟨-, r', hr', ht, cols, hi, hcol, samples, det, hsam, hdet, hmask⟩
      rw [hr] at hr'
      cases hr'
      have ht' : mask.table ∈ s.tablesIncluded := hincl ▸ ht
      rw [hcols _ ht'] at hi
      cases hi
      obtain ⟨col, hc, hn⟩ := mem_map.mp hcol
      refine ⟨_, (hs _).mpr ⟨mask.table, ht', col, hc, samples, det, ?_, ?_, rfl⟩, ?_⟩
      · rw [hn]
        exact hsam
      · rw [hn]
        exact hdet
      · rw [hn, hmask]
  · rw [hnone hl]
    exact ⟨fun ⟨x, hx, _⟩ => absurd hx not_mem_nil, fun hf => absurd hf.1 hl⟩

end

/-- **The masks of the manifest are honest exactly where they would change nothing**: the file holds
    the extracted rows, so a listed column holds what its mask makes of it only if every value of it
    is `null` or a text that the mask leaves as it is. -/
theorem masks_honest_iff {σ ν : Type} {N : Runtime ν} {S : Sodium} {D : DuckDBHost σ}
    {tables : σ → List Text} (hD : Catalogue D tables) {env : BuildEnv} {blobNonce : S.blob.Nonce}
    (henv : env.writeEncryptedVskAt = writeStaged N S D blobNonce) (sha256Hex : Bytes → Text)
    {spec : SandboxBuildSpec} {arrays : Arrays} {b : Built} {p : Packed}
    (h : buildSandbox env spec arrays = .ok b) (hp : b.packed = some p) :
    (∃ host, D.runAll (stagedStatements p.manifest p.rowsByTable p.plsql) D.openInMemory = .ok host ∧
      writeEncryptedVsk N S D host (p.manifest.json N) p.contentKey p.envelope none blobNonce =
        .ok p.file) ∧
    (HonestMasks sha256Hex env spec p ↔ FlaggedKept sha256Hex env spec) := by
  obtain ⟨s, ddl, key, arrays', hs, hrows, hm, -, -, hfile, -⟩ := buildSandbox_packed h hp
  rw [henv] at hfile
  obtain ⟨host, hrun, henc⟩ := bind_ok.mp hfile
  refine ⟨⟨host, hrun, henc⟩, ?_⟩
  -- what is packed of a listed column is what was extracted
  have hpacked : ∀ mask ∈ p.manifest.piiMasks, ∀ rows, rowsOf env spec mask.table = .ok rows →
      packedValues (stagedStatements p.manifest p.rowsByTable p.plsql) mask.table mask.column =
        rows.map fun row => storedValue (cell row mask.column) := by
    intro mask hmask rows hr'
    rw [hm, mem_piiMasks hs] at hmask
    obtain ⟨-, r, hr, ht, cols, hi, hcol, -⟩ := hmask
    refine packedValues_built hD henv h hp ?_ hi hcol hr'
    obtain ⟨r', hwalk, hnames⟩ := packed_tables h hp
    obtain rfl := Except.ok.inj (hr.symm.trans hwalk)
    exact hnames ▸ ht
  constructor
  · intro hh table column mask hf rows hr' row hrow
    have hmask : (⟨table, column, mask⟩ : VskPiiMask) ∈ p.manifest.piiMasks := by
      rw [hm, mem_piiMasks hs]
      exact hf
    have heq := (hpacked _ hmask rows hr').symm.trans (hh _ hmask rows hr')
    exact (storedValue_eq_masked_iff sha256Hex mask (cell row column)).mp
      (map_inj_left.mp heq row hrow)
  · intro hk mask hmask rows hr'
    rw [hpacked mask hmask rows hr']
    rw [hm, mem_piiMasks hs] at hmask
    exact map_inj_left.mpr fun row hrow =>
      (storedValue_eq_masked_iff sha256Hex mask.maskType _).mpr (hk _ _ _ hmask rows hr' row hrow)

/-! ## 6. A build with one masked column -/

/-- A database that keeps the names of its tables. -/
def nameHost : DuckDBHost (List Text) where
  openInMemory := []
  exec
    | .createTable false name _, s =>
      if name ∈ s then .error "already exists".toList else .ok (s ++ [name])
    | .insertValues _ _ _, s => .ok s
    | _, _ => .error "unsupported".toList
  tableExists name s := .ok (s.contains name)
  copyToParquet name s := if name ∈ s then .ok [1] else .error "no such table".toList

theorem nameHost_catalogue : Catalogue nameHost id where
  empty := rfl
  create name columns s s' _ h := by
    simp only [nameHost] at h
    split at h
    · cases h
    · rename_i hn
      cases h
      exact ⟨hn, rfl⟩
  insert name columns values s s' h := by
    cases h
    rfl
  copy name s b _ h := by
    simp only [nameHost] at h
    split at h
    · assumption
    · cases h

/-- A schema with one table, and in it one address. -/
def oneAddress : Oracle where
  columns _ _ := .ok [⟨"EMAIL".toList, "VARCHAR2".toList, 50, none, none, true, 1⟩]
  foreignKeys _ _ := .ok []
  select sql :=
    let address : Value := .text "ana@example.com".toList
    .ok [[(if startsWith sql "SELECT *".toList then "EMAIL".toList else "V".toList, address)]]
  dependencies _ _ := .ok []
  getDdl _ _ _ := .ok none

def overtDraws : Draws overtSodium where
  contentKey := List.replicate 32 7
  privateKey := List.replicate 32 2
  blobNonce := zeroNonce _
  envelopeNonce := zeroNonce _

def overtKeyring : Keyring where
  getPrivateKey _ := some (List.replicate 32 2)
  readBack _ drawn := some drawn

def addressEnv : BuildEnv :=
  makeProductionBuildEnv natRuntime overtSodium nameHost oneAddress (.ok ()) overtKeyring none
    overtDraws (fun _ _ => .eq) ⟨0, 0, 0⟩

def addressSpec : SandboxBuildSpec where
  connectionId := "c".toList
  schemaName := "S".toList
  sandboxName := "s".toList
  ttlDays := 7
  piiLevel := 2
  ownerAccount := some "o".toList
  primaryTables := [{ name := "T".toList }]
  outPath := some "p".toList

/-- The digits of the hash of the address. -/
def addressHash (_ : Bytes) : Text :=
  "8e43ca37701228e74983efdbd0cff5c16b3b1e5d4e29a7c05626d4d25a018e11".toList

def addressPacked : Option Packed := (buildSandbox addressEnv addressSpec []).toOption.bind Built.packed

theorem addressPacked_eq : (addressPacked.map fun p => (p.manifest.piiMasks,
    packedValues (stagedStatements p.manifest p.rowsByTable p.plsql) "T".toList "EMAIL".toList)) =
      some ([⟨"T".toList, "EMAIL".toList, .hash⟩], [.text "ana@example.com".toList]) := by
  decide +kernel

/-- The build goes through: the column is listed under the mask `hash`, and its value is packed. -/
theorem addressPacked_some : ∃ b p, buildSandbox addressEnv addressSpec [] = .ok b ∧
    b.packed = some p ∧ p.manifest.piiMasks = [⟨"T".toList, "EMAIL".toList, .hash⟩] ∧
    packedValues (stagedStatements p.manifest p.rowsByTable p.plsql) "T".toList "EMAIL".toList =
      [.text "ana@example.com".toList] := by
  have h := addressPacked_eq
  rw [addressPacked] at h
  cases hb : buildSandbox addressEnv addressSpec [] with
  | error e =>
    rw [hb] at h
    cases h
  | ok b =>
    rw [hb] at h
    cases hp : b.packed with
    | none =>
      rw [show (Except.ok b : Except Failure Built).toOption = some b from rfl, Option.bind_some,
        hp] at h
      cases h
    | some p =>
      rw [show (Except.ok b : Except Failure Built).toOption = some b from rfl, Option.bind_some,
        hp, Option.map_some, Option.some.injEq, Prod.mk.injEq] at h
      exact ⟨b, p, rfl, hp, h.1, h.2⟩

theorem masks_honest_iff_one : ∃ b p, buildSandbox addressEnv addressSpec [] = .ok b ∧
    b.packed = some p ∧
    (HonestMasks addressHash addressEnv addressSpec p ↔
      FlaggedKept addressHash addressEnv addressSpec) := by
  obtain ⟨b, p, hb, hp, -, -⟩ := addressPacked_some
  have henv : addressEnv.writeEncryptedVskAt =
      writeStaged natRuntime overtSodium nameHost overtDraws.blobNonce := rfl
  exact ⟨b, p, hb, hp, (masks_honest_iff nameHost_catalogue henv addressHash hb hp).2⟩

/-- The address is packed as it was read, under a manifest that calls it hashed. -/
theorem buildSandbox_unmasked : ∃ b p, buildSandbox addressEnv addressSpec [] = .ok b ∧
    b.packed = some p ∧ ¬ HonestMasks addressHash addressEnv addressSpec p := by
  obtain ⟨b, p, hb, hp, hm, hv⟩ := addressPacked_some
  refine ⟨b, p, hb, hp, fun hh => ?_⟩
  have hrows : rowsOf addressEnv addressSpec "T".toList =
      .ok [[("EMAIL".toList, .text "ana@example.com".toList)]] := rfl
  have h := hh ⟨"T".toList, "EMAIL".toList, .hash⟩ (by rw [hm]; exact mem_singleton_self _) _
    hrows
  rw [hv] at h
  exact absurd h (by decide)

end Veesker.Sandbox
