/-
  File:      Veesker/Vsk/RoundTrip.lean
  Subject:   `readVsk` AFTER `writeVsk`.

  1. What the writer leaves: header, manifest, a block for each table (`writeVsk_ok`).
  2. What the reader makes of such a file: the manifest, and the loop over the blocks
     (`readVsk_file`).
  3. **`readVsk_writeVsk`**: reading a written file back runs the loads of exactly the tables
     written, in their order, each with its own columns and its own payload.
-/
import Veesker.Vsk.Frames

namespace Veesker.Vsk

open Format List

/-! ## 1. What the writer leaves -/

theorem mapM_ok {α β ε : Type} {f : α → Except ε β} {g : α → β} {l : List α}
    (h : ∀ x ∈ l, f x = .ok (g x)) : l.mapM f = .ok (l.map g) := by
  induction l with
  | nil => rfl
  | cons x l ih =>
    rw [mapM_cons, h x mem_cons_self, ih fun y hy => h y (mem_cons_of_mem _ hy)]
    rfl

theorem forM_ok {α ε : Type} {f : α → Except ε Unit} {l : List α} (h : ∀ x ∈ l, f x = .ok ()) :
    l.forM f = .ok () := by
  induction l with
  | nil => rfl
  | cons x l ih =>
    rw [show (x :: l).forM f = (f x >>= fun _ => l.forM f) from rfl, h x mem_cons_self]
    exact ih fun y hy => h y (mem_cons_of_mem _ hy)

section

variable {σ τ ν : Type} (N : JsNumbers ν)

/-- The file that holds a manifest and a data section. -/
def vskFile (m : Json ν) (dataSection : Bytes) : Bytes :=
  writeHeader {
    formatVersion := FORMAT_V1
    manifestOffset := HEADER_SIZE
    manifestLength := (writeManifest N m).length
    dataOffset := HEADER_SIZE + (writeManifest N m).length
    dataLength := dataSection.length
    envelopeOffset := 0
    envelopeLength := 0 } ++ (writeManifest N m ++ dataSection)

/-- The blocks of a manifest's tables and of the system tables that are there; `pq` gives the
    payload for a table's name. -/
def framesOf (m : Json ν) (pq : Text → Bytes) (there : Text → Bool) : List Frame :=
  (manifestTables m).map (fun t => ⟨t.name, pq t.name⟩) ++
    (SYSTEM_TABLE_ORDER.filter there).map (fun s => ⟨s, pq s⟩)

/-- The source database exports the payloads `pq` and holds the system tables of `there`. -/
structure Exports (D : DuckDBHost σ) (src : σ) (m : Json ν) (pq : Text → Bytes)
    (there : Text → Bool) : Prop where
  user : ∀ t ∈ manifestTables m, D.copyToParquet (toLowerCase t.name) src = .ok (pq t.name)
  exists_ : ∀ s ∈ SYSTEM_TABLE_ORDER, D.tableExists s src = .ok (there s)
  system : ∀ s ∈ SYSTEM_TABLE_ORDER, there s = true → D.copyToParquet s src = .ok (pq s)

/-- The names a manifest's tables may have. -/
def GoodNames (m : Json ν) : Prop :=
  ∀ t ∈ manifestTables m, VSK_TABLE_NAME_RE t.name = true ∧ isSystemName t.name = false

theorem lower_system : ∀ s ∈ SYSTEM_TABLE_ORDER, toLowerCase s = s := by decide

/-- **What the writer leaves**: a block for each table, then one for each system table. -/
theorem writeVsk_ok {D : DuckDBHost σ} {src : σ} {m : Json ν} {pq : Text → Bytes}
    {there : Text → Bool} (hnames : GoodNames m) (he : Exports D src m pq there) :
    writeVsk N D src m = .ok (vskFile N m ((framesOf m pq there).flatMap Frame.encode)) := by
  have hcheck : (manifestTables m).forM (fun t => assertValidTableName t.name) = .ok () :=
    forM_ok fun t ht => assertValidTableName_ok_iff.mpr (hnames t ht).1
  have huser : (manifestTables m).mapM (writeUserTable D src) =
      .ok ((manifestTables m).map fun t => encodeFrame t.name (pq t.name)) := by
    refine mapM_ok fun t ht => ?_
    rw [writeUserTable, (hnames t ht).2, if_neg Bool.false_ne_true, writeOneTable, he.user t ht]
    rfl
  have hsystem : SYSTEM_TABLE_ORDER.mapM (writeSystemTable D src) =
      .ok (SYSTEM_TABLE_ORDER.map fun s => if there s then encodeFrame s (pq s) else []) := by
    refine mapM_ok fun s hs => ?_
    rw [writeSystemTable, lower_system s hs, he.exists_ s hs]
    cases ht : there s with
    | false => rfl
    | true =>
      simp only [Except.mapError, Bind.bind, Except.bind, ↓reduceIte]
      rw [writeOneTable, lower_system s hs, he.system s hs ht]
      rfl
  have hflat : ∀ l : List Text, (l.map fun s => if there s then encodeFrame s (pq s) else []).flatten =
      ((l.filter there).map fun s => (⟨s, pq s⟩ : Frame)).flatMap Frame.encode := by
    intro l
    induction l with
    | nil => rfl
    | cons s l ih =>
      rw [map_cons, flatten_cons, ih, filter_cons]
      cases there s with
      | false => rfl
      | true => rfl
  have hdata : ((manifestTables m).map fun t => encodeFrame t.name (pq t.name)).flatten ++
      (SYSTEM_TABLE_ORDER.map fun s => if there s then encodeFrame s (pq s) else []).flatten =
      (framesOf m pq there).flatMap Frame.encode := by
    rw [hflat, framesOf, flatMap_append]
    congr 1
    rw [flatMap_map, flatMap_def]
    rfl
  rw [writeVsk, hcheck, huser, hsystem]
  simp only [Bind.bind, Except.bind, hdata]
  rfl

/-! ## 2. What the reader makes of it -/

theorem length_vskFile (m : Json ν) (dataSection : Bytes) :
    (vskFile N m dataSection).length =
      HEADER_SIZE + (writeManifest N m).length + dataSection.length := by
  rw [vskFile, length_append, length_writeHeader, length_append, Nat.add_assoc]

/-- **A file with such a header** is read as its manifest and its data section. -/
theorem readVsk_file {m : Json ν} (hm : isManifest N m = true) (hp : m.Proper N.toNumbers)
    (dataSection : Bytes) (hlen : (vskFile N m dataSection).length ≤ MAX_VSK_BYTES)
    (E : DuckDBHost τ) (dst : τ) (replace : Bool) :
    readVsk N E (vskFile N m dataSection) dst replace = (do
      checkVersionFence m
      let st ← (dataLoop E m replace (vskFile N m dataSection)
        (HEADER_SIZE + (writeManifest N m).length + dataSection.length) dataSection.length
        { p := HEADER_SIZE + (writeManifest N m).length, dst }).getD (.error (.error []))
      .ok (⟨m, st.userTables, st.systemTables⟩, st.dst)) := by
  have hl := length_vskFile N m dataSection
  rw [hl] at hlen
  have hmax : MAX_VSK_BYTES = 17179869184 := by decide
  rw [hmax] at hlen
  have hhead : subarray (vskFile N m dataSection) 0 HEADER_SIZE = writeHeader {
      formatVersion := FORMAT_V1
      manifestOffset := HEADER_SIZE
      manifestLength := (writeManifest N m).length
      dataOffset := HEADER_SIZE + (writeManifest N m).length
      dataLength := dataSection.length
      envelopeOffset := 0
      envelopeLength := 0 } := by
    rw [subarray, vskFile, drop_zero, Nat.sub_zero,
      take_append_of_le_length (by rw [length_writeHeader]),
      take_of_length_le (by rw [length_writeHeader])]
  have hman : subarray (vskFile N m dataSection) HEADER_SIZE
      (HEADER_SIZE + (writeManifest N m).length) = writeManifest N m := by
    rw [subarray, vskFile, drop_append, drop_eq_nil_of_le (by rw [length_writeHeader]),
      nil_append, length_writeHeader, Nat.sub_self, drop_zero, Nat.add_sub_cancel_left,
      take_left]
  have hfit := readHeader_writeHeader (h := {
      formatVersion := FORMAT_V1
      manifestOffset := HEADER_SIZE
      manifestLength := (writeManifest N m).length
      dataOffset := HEADER_SIZE + (writeManifest N m).length
      dataLength := dataSection.length
      envelopeOffset := 0
      envelopeLength := 0 })
    (by constructor <;> simp only [HEADER_SIZE, FORMAT_V1] at hlen ⊢ <;> omega)
  have h1 : checkSection (vskFile N m dataSection) "manifest".toList
      "vsk: manifest section exceeds file bounds".toList HEADER_SIZE (writeManifest N m).length =
      .ok () := by
    rw [checkSection, if_neg]
    rw [hl, hmax]
    omega
  have h2 : checkSection (vskFile N m dataSection) "data".toList
      "vsk: data section exceeds file bounds".toList (HEADER_SIZE + (writeManifest N m).length)
      dataSection.length = .ok () := by
    rw [checkSection, if_neg]
    rw [hl, hmax]
    omega
  have h0 : readFileViaSingleFd (vskFile N m dataSection) = .ok (vskFile N m dataSection) := by
    rw [readFileViaSingleFd, if_neg]
    rw [hl, hmax]
    omega
  rw [readVsk, h0]
  simp only [Bind.bind, Except.bind, hhead, hfit, h1, h2, hman,
    readManifest_writeManifest N hm hp]

/-! ## 3. The loads -/

variable {N}

theorem runAll_append (E : DuckDBHost τ) (a b : List Statement) (s : τ) :
    E.runAll (a ++ b) s = (E.runAll a s).bind (E.runAll b) := by
  rw [DuckDBHost.runAll, foldlM_append]
  rfl

/-- **Loading blocks** runs their statements in order and notes their names. -/
theorem loadAll_eq (E : DuckDBHost τ) (m : Json ν) (replace : Bool) (fs : List Frame)
    (st : Loading τ) :
    loadAll E m replace fs st =
      (E.runAll (fs.flatMap fun f => loadStatements m replace f.name f.payload) st.dst).map
        fun dst => {
          p := st.p + (fs.flatMap Frame.encode).length
          dst
          userTables := st.userTables ++
            (fs.filter fun f => !isSystemName f.name).map fun f => toLowerCase f.name
          systemTables := st.systemTables ++
            (fs.filter fun f => isSystemName f.name).map fun f => toLowerCase f.name } := by
  induction fs generalizing st with
  | nil =>
    simp only [flatMap_nil, length_nil, filter_nil, map_nil, append_nil,
      Nat.add_zero]
    rfl
  | cons f fs ih =>
    rw [loadAll, foldlM_cons, loadOne, Loading.load]
    simp only [flatMap_cons, runAll_append]
    cases hr : E.runAll (loadStatements m replace f.name f.payload) st.dst with
    | error e => rfl
    | ok s =>
      cases hs : isSystemName f.name with
      | true =>
        have := ih { st with
          dst := s, systemTables := st.systemTables ++ [toLowerCase f.name],
          p := st.p + f.encode.length }
        rw [loadAll] at this
        simp only [Bind.bind, Except.bind, ↓reduceIte, Except.map, this,
          length_append, filter_cons, hs, Bool.not_true, Bool.false_eq_true, map_cons,
          append_assoc, singleton_append, Nat.add_assoc]
      | false =>
        have := ih { st with
          dst := s, userTables := st.userTables ++ [toLowerCase f.name],
          p := st.p + f.encode.length }
        rw [loadAll] at this
        simp only [Bind.bind, Except.bind, ↓reduceIte, Except.map, this,
          length_append, filter_cons, hs, Bool.not_false, Bool.false_eq_true, map_cons,
          append_assoc, singleton_append, Nat.add_assoc]

/-- Among names that differ in more than case a table is found by its own. -/
theorem find?_of_nodup {ts : List VskTable} (h : (ts.map fun t => toUpperCase t.name).Nodup)
    {t : VskTable} (ht : t ∈ ts) :
    (ts.find? fun u => toUpperCase u.name == toUpperCase t.name) = some t := by
  induction ts with
  | nil => cases ht
  | cons u ts ih =>
    rw [map_cons, nodup_cons] at h
    rw [List.find?_cons]
    rcases mem_cons.mp ht with rfl | ht
    · rw [beq_self_eq_true]
    · have hne : (toUpperCase u.name == toUpperCase t.name) = false := by
        rw [beq_eq_false_iff_ne]
        intro e
        exact h.1 (e ▸ mem_map_of_mem (f := fun t => toUpperCase t.name) ht)
      rw [hne]
      exact ih h.2 ht

/-- The statements that bring the tables of a manifest, and system tables, into a database. -/
def loadsOf (m : Json ν) (replace : Bool) (pq : Text → Bytes) (there : Text → Bool) :
    List Statement :=
  (manifestTables m).flatMap (fun t =>
    [.createTable replace (toLowerCase t.name) t.columns,
      .insertFromParquet (toLowerCase t.name) (pq t.name)]) ++
  (SYSTEM_TABLE_ORDER.filter there).map (fun s => .createFromParquet replace s (pq s))

theorem system_names : ∀ s ∈ SYSTEM_TABLE_ORDER, isSystemName s = true ∧ isTableName s = true := by
  decide

theorem statements_framesOf {m : Json ν} {replace : Bool} {pq : Text → Bytes} {there : Text → Bool}
    (hnames : GoodNames m) (hdist : ((manifestTables m).map fun t => toUpperCase t.name).Nodup) :
    ((framesOf m pq there).flatMap fun f => loadStatements m replace f.name f.payload) =
      loadsOf m replace pq there := by
  rw [framesOf, loadsOf, flatMap_append]
  congr 1
  · rw [flatMap_map]
    refine flatMap_congr fun t ht => ?_
    simp only [loadStatements, (hnames t ht).2, Bool.false_eq_true, ↓reduceIte,
      find?_of_nodup hdist ht]
  · rw [flatMap_map, ← flatMap_singleton' (List.map _ _), flatMap_map]
    refine flatMap_congr fun s hs => ?_
    have hs := mem_of_mem_filter hs
    simp only [loadStatements, (system_names s hs).1, lower_system s hs, ↓reduceIte]

variable (N)

/-- A manifest and a source database that pack: the manifest is one the reader takes, and its
    tables have usable, distinct names and are there to export. -/
structure Packable (D : DuckDBHost σ) (src : σ) (m : Json ν) (pq : Text → Bytes)
    (there : Text → Bool) : Prop where
  manifest : isManifest N m = true
  proper : m.Proper N.toNumbers
  version : isKnownVersion (engineVersion m) = true
  names : GoodNames m
  distinct : ((manifestTables m).map fun t => toUpperCase t.name).Nodup
  exports : Exports D src m pq there

/-- The bytes of a packed sandbox. -/
def packedFile (m : Json ν) (pq : Text → Bytes) (there : Text → Bool) : Bytes :=
  vskFile N m ((framesOf m pq there).flatMap Frame.encode)

/-- What reading a packed sandbox comes to: its manifest, its tables loaded in their order. -/
def loadResult (E : DuckDBHost τ) (m : Json ν) (pq : Text → Bytes) (there : Text → Bool) (dst : τ)
    (replace : Bool) : Except Failure (ReadVskResult ν × τ) :=
  (E.runAll (loadsOf m replace pq there) dst).map fun dst' =>
    (⟨m, (manifestTables m).map (fun t => toLowerCase t.name), SYSTEM_TABLE_ORDER.filter there⟩, dst')

/-- **A packed sandbox is read as what was packed.** -/
theorem readVsk_packedFile {D : DuckDBHost σ} {src : σ} {m : Json ν} {pq : Text → Bytes}
    {there : Text → Bool} (h : Packable N D src m pq there)
    (hlen : (packedFile N m pq there).length ≤ MAX_VSK_BYTES) (E : DuckDBHost τ) (dst : τ)
    (replace : Bool) :
    readVsk N E (packedFile N m pq there) dst replace = loadResult E m pq there dst replace := by
  obtain ⟨hm, hp, hv, hnames, hdist, -⟩ := h
  rw [packedFile] at hlen ⊢
  rw [loadResult]
  rw [readVsk_file N hm hp _ hlen, (checkVersionFence_ok_iff m).mpr hv]
  have hl := length_vskFile N m ((framesOf m pq there).flatMap Frame.encode)
  have hmax : MAX_VSK_BYTES = 17179869184 := by decide
  have hvalid : ∀ f ∈ framesOf m pq there, f.Valid := by
    intro f hf
    constructor
    · rcases mem_append.mp hf with hf | hf
      · obtain ⟨t, ht, rfl⟩ := mem_map.mp hf
        rw [isTableName, (hnames t ht).2]
        exact (hnames t ht).1
      · obtain ⟨s, hs, rfl⟩ := mem_map.mp hf
        exact (system_names s (mem_of_mem_filter hs)).2
    · -- a payload is no longer than the file
      have hsub : f.encode.length ≤ ((framesOf m pq there).flatMap Frame.encode).length := by
        obtain ⟨a, b, e⟩ := append_of_mem hf
        rw [e, flatMap_append, flatMap_cons]
        simp only [length_append]
        omega
      rw [Frame.encode, length_encodeFrame] at hsub
      omega
  have hsec : subarray (vskFile N m ((framesOf m pq there).flatMap Frame.encode))
      (HEADER_SIZE + (writeManifest N m).length) (HEADER_SIZE + (writeManifest N m).length +
        ((framesOf m pq there).flatMap Frame.encode).length) =
      (framesOf m pq there).flatMap Frame.encode := by
    rw [subarray, vskFile, ← append_assoc, Nat.add_sub_cancel_left, drop_append,
      drop_eq_nil_of_le (by rw [length_append, length_writeHeader]), nil_append,
      length_append, length_writeHeader, Nat.sub_self, drop_zero, take_length]
  rw [dataLoop_frames hl.ge hvalid _ _ (Nat.le_add_right _ _) le_rfl hsec, loadAll_eq,
    statements_framesOf hnames hdist]
  simp only [Option.getD_some]
  have huser : ((framesOf m pq there).filter fun f => !isSystemName f.name).map
      (fun f => toLowerCase f.name) = (manifestTables m).map fun t => toLowerCase t.name := by
    rw [framesOf, filter_append, filter_eq_self.mpr, filter_eq_nil_iff.mpr,
      append_nil, map_map]
    · rfl
    · intro f hf
      obtain ⟨s, hs, rfl⟩ := mem_map.mp hf
      simp [(system_names s (mem_of_mem_filter hs)).1]
    · intro f hf
      obtain ⟨t, ht, rfl⟩ := mem_map.mp hf
      simp [(hnames t ht).2]
  have hsystem : ((framesOf m pq there).filter fun f => isSystemName f.name).map
      (fun f => toLowerCase f.name) = SYSTEM_TABLE_ORDER.filter there := by
    rw [framesOf, filter_append, filter_eq_nil_iff.mpr, filter_eq_self.mpr,
      nil_append, map_map]
    · refine (map_congr_left fun s hs => ?_).trans (map_id _)
      exact lower_system s (mem_of_mem_filter hs)
    · intro f hf
      obtain ⟨s, hs, rfl⟩ := mem_map.mp hf
      exact (system_names s (mem_of_mem_filter hs)).1
    · intro f hf
      obtain ⟨t, ht, rfl⟩ := mem_map.mp hf
      simp [(hnames t ht).2]
  rw [huser, hsystem]
  cases E.runAll (loadsOf m replace pq there) dst <;> rfl

/-- **The plain round trip.** A written file that the reader's size limit admits is read back as
    the same manifest and the same tables in the same order, each with its own payload. -/
theorem readVsk_writeVsk (D : DuckDBHost σ) (E : DuckDBHost τ) (src : σ) (dst : τ) (replace : Bool)
    (m : Json ν) (pq : Text → Bytes) (there : Text → Bool) (hm : isManifest N m = true)
    (hp : m.Proper N.toNumbers) (hv : isKnownVersion (engineVersion m) = true)
    (hnames : GoodNames m) (hdist : ((manifestTables m).map fun t => toUpperCase t.name).Nodup)
    (he : Exports D src m pq there) :
    ∃ file, writeVsk N D src m = .ok file ∧ (file.length ≤ MAX_VSK_BYTES →
      readVsk N E file dst replace = (E.runAll (loadsOf m replace pq there) dst).map fun dst' =>
        (⟨m, (manifestTables m).map (fun t => toLowerCase t.name), SYSTEM_TABLE_ORDER.filter there⟩,
          dst')) := by
  exact ⟨_, writeVsk_ok N hnames he,
    fun hlen => readVsk_packedFile N ⟨hm, hp, hv, hnames, hdist, he⟩ hlen E dst replace⟩

end

/-- A manifest with one table of one column. -/
def oneTable (version : Text) : Json Nat := .obj [
  ("builtAt".toList, .str "2026-01-01T00:00:00.000Z".toList),
  ("sourceId".toList, .str "dev".toList),
  ("schemaName".toList, .str "HR".toList),
  ("ttlExpiresAt".toList, .str "2026-01-08T00:00:00.000Z".toList),
  ("tables".toList, .arr [.obj [
    ("name".toList, .str "JOBS".toList),
    ("rowCount".toList, .num 0),
    ("columns".toList, .arr [.obj [
      ("name".toList, .str "JOB_ID".toList),
      ("type".toList, .str "NUMBER".toList),
      ("nullable".toList, .bool true)]])]]),
  ("piiMasks".toList, .arr []),
  ("engineVersion".toList, .str version)]

theorem proper_oneTable (version : Text) : (oneTable version).Proper natNumbers := by
  simp only [oneTable, Json.Proper, ProperMembers, ProperItems, natNumbers, and_true, true_and,
    map_cons, map_nil]
  decide

theorem exports_oneTable (version : Text) :
    Exports anyHost () (oneTable version) (fun _ => []) (fun _ => false) :=
  ⟨fun _ _ => rfl, fun _ _ => rfl, fun _ _ h => absurd h Bool.false_ne_true⟩

theorem readVsk_writeVsk_one :
    ∃ file, writeVsk natJs anyHost () (oneTable "0.2.0".toList) = .ok file ∧
      (file.length ≤ MAX_VSK_BYTES →
        readVsk natJs anyHost file () false =
          (anyHost.runAll (loadsOf (oneTable "0.2.0".toList) false (fun _ => []) fun _ => false) ()).map
            fun dst' => (⟨oneTable "0.2.0".toList,
              (manifestTables (oneTable "0.2.0".toList)).map (fun t => toLowerCase t.name),
              SYSTEM_TABLE_ORDER.filter fun _ => false⟩, dst')) :=
  readVsk_writeVsk natJs anyHost anyHost () () false (oneTable "0.2.0".toList) (fun _ => [])
    (fun _ => false) (by decide) (proper_oneTable _) (by decide) (by unfold GoodNames; decide)
    (by decide) (exports_oneTable _)

set_option maxRecDepth 20000 in
/-- A manifest that passes the check and is written, but is not read back: its version is newer
    than the reader. -/
theorem readVsk_newer :
    isManifest natJs (oneTable "0.4.0".toList) = true ∧ GoodNames (oneTable "0.4.0".toList) ∧
      ((manifestTables (oneTable "0.4.0".toList)).map fun t => toUpperCase t.name).Nodup ∧
      ∃ file, writeVsk natJs anyHost () (oneTable "0.4.0".toList) = .ok file ∧
        file.length ≤ MAX_VSK_BYTES ∧ ∀ r, readVsk natJs anyHost file () false ≠ .ok r := by
  have hnames : GoodNames (oneTable "0.4.0".toList) := by unfold GoodNames; decide
  have hm : isManifest natJs (oneTable "0.4.0".toList) = true := by decide
  have hlen : (vskFile natJs (oneTable "0.4.0".toList)
      ((framesOf (oneTable "0.4.0".toList) (fun _ => []) fun _ => false).flatMap Frame.encode)).length ≤
      MAX_VSK_BYTES := by decide
  refine ⟨hm, hnames, by decide, _, writeVsk_ok natJs hnames (exports_oneTable _), hlen, ?_⟩
  intro r h
  rw [readVsk_file natJs hm (proper_oneTable _) _ hlen] at h
  have hv : ∃ e, checkVersionFence (oneTable "0.4.0".toList) = .error e := ⟨_, rfl⟩
  obtain ⟨e, he⟩ := hv
  rw [he] at h
  exact absurd h nofun

end Veesker.Vsk
