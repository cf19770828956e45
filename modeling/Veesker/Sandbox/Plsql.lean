/-
  File:      Veesker/Sandbox/Plsql.lean
  Subject:   THE PL/SQL OBJECTS OF A SANDBOX (sidecar/src/sandbox/discoverPlsql.ts,
             extractPlsqlDdl.ts): what depends on its tables, and the texts of what was found.

  * `discoverPlsql_objects` -- every object that is found is of the schema, and no two have one name.
  * `extractPlsqlDdl_kept` -- every object is packed or listed as skipped, and none is both.
-/
import Veesker.Sandbox.FkWalk

namespace Veesker.Sandbox

open Format Vsk Sidecar List

/-! ## 1. Objects and dependencies -/

inductive ObjectKind where
  | type | package | procedure | function | trigger | view
  deriving DecidableEq

def ObjectKind.text : ObjectKind → Text
  | .type => "TYPE".toList
  | .package => "PACKAGE".toList
  | .procedure => "PROCEDURE".toList
  | .function => "FUNCTION".toList
  | .trigger => "TRIGGER".toList
  | .view => "VIEW".toList

def KIND_ORDER : List ObjectKind := [.type, .package, .procedure, .function, .trigger, .view]

def normalizeKind (rawType : Text) : Option ObjectKind :=
  let t := toUpperCase rawType
  if t = "PACKAGE BODY".toList then some .package else KIND_ORDER.find? fun k => k.text = t

structure DiscoveredObject where
  kind : ObjectKind
  owner : Text
  name : Text
  refPath : List Text
  deriving DecidableEq

inductive RefStatus where
  | included | excluded | outsideSchema
  deriving DecidableEq

def RefStatus.text : RefStatus → Text
  | .included => "INCLUDED".toList
  | .excluded => "EXCLUDED".toList
  | .outsideSchema => "OUTSIDE_SCHEMA".toList

structure DiscoveredDependency where
  kind : ObjectKind
  owner : Text
  name : Text
  refKind : Text
  refOwner : Text
  refName : Text
  refStatus : RefStatus
  deriving DecidableEq

structure DiscoverPlsqlResult where
  objects : List DiscoveredObject
  dependencies : List DiscoveredDependency
  deriving DecidableEq

/-! ## 2. The discovery -/

/-- What `walk` answers: the dependents of names in a schema. -/
abbrev DepWalkFn := Text → List Text → Except Failure (List DependencyEdge)

def MAX_DEPTH : Nat := 5

/-- The variables of the loop. -/
structure Discovery where
  discovered : Record DiscoveredObject := []
  dependencies : List DiscoveredDependency := []
  seenEdges : List Text := []
  refPaths : Record (List Text)
  frontier : List Text
  deriving DecidableEq

def objectKey (owner name : Text) : Text := owner ++ '.' :: name

/-- The first loop over the edges of a round. -/
def discoverObject (schemaUpper : Text) (st : Discovery) (e : DependencyEdge) : Discovery :=
  match normalizeKind e.type with
  | none => st
  | some kind =>
    let name := toUpperCase e.name
    let key := objectKey schemaUpper name
    if (entryOf st.discovered key).isSome then st
    else
      let parentPath := (entryOf st.refPaths
        (objectKey (toUpperCase e.referencedOwner) (toUpperCase e.referencedName))).getD []
      let path := parentPath ++ [name]
      { st with
        refPaths := setEntry st.refPaths key path
        discovered := setEntry st.discovered key ⟨kind, schemaUpper, name, path⟩
        frontier := if st.frontier.contains name then st.frontier else st.frontier ++ [name] }

/-- The second loop. -/
def recordEdge (schemaUpper : Text) (st : Discovery) (e : DependencyEdge) : Discovery :=
  match normalizeKind e.type with
  | none => st
  | some kind =>
    let nameU := toUpperCase e.name
    let refOwnerU := toUpperCase e.referencedOwner
    let refNameU := toUpperCase e.referencedName
    let sig := nameU ++ '\x00' :: (refOwnerU ++ '\x00' :: refNameU)
    if st.seenEdges.contains sig then st
    else { st with
      seenEdges := st.seenEdges ++ [sig]
      dependencies := st.dependencies ++ [⟨kind, schemaUpper, nameU, toUpperCase e.referencedType,
        refOwnerU, refNameU, .excluded⟩] }

def discoverRound (schemaUpper : Text) (st : Discovery) (edges : List DependencyEdge) : Discovery :=
  edges.foldl (recordEdge schemaUpper)
    (edges.foldl (discoverObject schemaUpper) { st with frontier := [] })

/-- `for (let depth = 1; depth <= MAX_DEPTH && frontier.size > 0; depth++)`. -/
def discoverLevels (walk : DepWalkFn) (schemaUpper : Text) : Nat → Discovery →
    Except Failure Discovery
  | 0, st => .ok st
  | rounds + 1, st =>
    if st.frontier.isEmpty then .ok st
    else do
      let edges ← walk schemaUpper st.frontier
      discoverLevels walk schemaUpper rounds (discoverRound schemaUpper st edges)

/-- What a reference comes to once everything is known. -/
def refStatus (schemaUpper : Text) (includedNames : List Text) (d : DiscoveredDependency) :
    RefStatus :=
  if d.refOwner ≠ schemaUpper then .outsideSchema
  else if includedNames.contains d.refName then .included
  else .excluded

/-- The order by kind, then by name. -/
def objectLe (localeCompare : Text → Text → Ordering) (a b : DiscoveredObject) : Bool :=
  let ka := KIND_ORDER.idxOf a.kind
  let kb := KIND_ORDER.idxOf b.kind
  if ka ≠ kb then decide (ka < kb) else localeCompare a.name b.name != .gt

/-- Where the discovery starts. -/
def startDiscovery (schemaUpper : Text) (rootSet : List Text) : Discovery where
  refPaths := rootSet.foldl (fun r t => setEntry r (objectKey schemaUpper t) [t]) []
  frontier := rootSet

def discoverPlsql (localeCompare : Text → Text → Ordering) (walk : DepWalkFn) (schema : Text)
    (rootTableNames : List Text) : Except Failure DiscoverPlsqlResult := do
  let schemaUpper := toUpperCase schema
  let rootSet := setOf (rootTableNames.map toUpperCase)
  let st ← discoverLevels walk schemaUpper MAX_DEPTH (startDiscovery schemaUpper rootSet)
  let found := st.discovered.map Prod.snd
  let includedNames := rootSet ++ found.map DiscoveredObject.name
  .ok {
    objects := found.mergeSort (objectLe localeCompare)
    dependencies := st.dependencies.map fun d =>
      { d with refStatus := refStatus schemaUpper includedNames d } }

/-! ## 3. What a discovery keeps -/

/-- **The invariant**: an object is entered under its own name, of the schema it was found in. -/
structure Discovery.Good (schemaUpper : Text) (st : Discovery) : Prop where
  nodup : (st.discovered.map Prod.fst).Nodup
  entered : ∀ e ∈ st.discovered, e.1 = objectKey schemaUpper e.2.name ∧ e.2.owner = schemaUpper

theorem mem_setEntry {α : Type} {r : Record α} {key : Text} {value : α} {e : Text × α}
    (h : e ∈ setEntry r key value) : e = (key, value) ∨ e ∈ r := by
  induction r with
  | nil => exact .inl (mem_singleton.mp h)
  | cons x r ih =>
    obtain ⟨k, v⟩ := x
    rw [setEntry] at h
    split at h
    · rename_i hk
      rcases mem_cons.mp h with rfl | h
      · exact .inl (by rw [hk])
      · exact .inr (mem_cons_of_mem _ h)
    · rcases mem_cons.mp h with rfl | h
      · exact .inr mem_cons_self
      · exact (ih h).imp_right (mem_cons_of_mem _)

variable {schemaUpper : Text}

theorem discoverObject_good {st : Discovery} (h : st.Good schemaUpper) (e : DependencyEdge) :
    (discoverObject schemaUpper st e).Good schemaUpper := by
  rw [discoverObject]
  split
  · exact h
  · dsimp only
    split
    · exact h
    · refine ⟨(nodup_setEntry h.nodup _ _).1, fun x hx => ?_⟩
      rcases mem_setEntry hx with rfl | hx
      · exact ⟨rfl, rfl⟩
      · exact h.entered x hx

theorem recordEdge_discovered (st : Discovery) (e : DependencyEdge) :
    (recordEdge schemaUpper st e).discovered = st.discovered := by
  rw [recordEdge]
  split
  · rfl
  · dsimp only
    split <;> rfl

theorem discoverRound_good {st : Discovery} (h : st.Good schemaUpper) (edges : List DependencyEdge) :
    (discoverRound schemaUpper st edges).Good schemaUpper := by
  have h1 : ∀ (es : List DependencyEdge) (s : Discovery), s.Good schemaUpper →
      (es.foldl (discoverObject schemaUpper) s).Good schemaUpper := by
    intro es
    induction es with
    | nil => exact fun s hs => hs
    | cons e es ih => exact fun s hs => ih _ (discoverObject_good hs e)
  have h2 : ∀ (es : List DependencyEdge) (s : Discovery), s.Good schemaUpper →
      (es.foldl (recordEdge schemaUpper) s).Good schemaUpper := by
    intro es
    induction es with
    | nil => exact fun s hs => hs
    | cons e es ih =>
      refine fun s hs => ih _ ⟨?_, ?_⟩
      · rw [recordEdge_discovered]
        exact hs.nodup
      · rw [recordEdge_discovered]
        exact hs.entered
  exact h2 edges _ (h1 edges _ ⟨h.nodup, h.entered⟩)

/-- **The run**: every round keeps the invariant. -/
theorem discoverLevels_good {walk : DepWalkFn} {rounds : Nat} {st st' : Discovery}
    (h : st.Good schemaUpper) (hs : discoverLevels walk schemaUpper rounds st = .ok st') :
    st'.Good schemaUpper := by
  induction rounds generalizing st with
  | zero =>
    rw [discoverLevels] at hs
    cases hs
    exact h
  | succ rounds ih =>
    rw [discoverLevels] at hs
    split at hs
    · cases hs
      exact h
    · cases he : walk schemaUpper st.frontier with
      | error e =>
        rw [he] at hs
        cases hs
      | ok edges =>
        rw [he] at hs
        exact ih (discoverRound_good h edges) hs

/-- **Every object that is found** is of the schema, and no two have one name. -/
theorem discoverPlsql_objects {localeCompare : Text → Text → Ordering} {walk : DepWalkFn}
    {schema : Text} {roots : List Text} {r : DiscoverPlsqlResult}
    (h : discoverPlsql localeCompare walk schema roots = .ok r) :
    (r.objects.map DiscoveredObject.name).Nodup ∧
      ∀ o ∈ r.objects, o.owner = toUpperCase schema := by
  rw [discoverPlsql] at h
  dsimp only at h
  cases hs : discoverLevels walk (toUpperCase schema) MAX_DEPTH
      (startDiscovery (toUpperCase schema) (setOf (roots.map toUpperCase))) with
  | error e =>
    rw [hs] at h
    cases h
  | ok st =>
    rw [hs] at h
    cases h
    have h0 : (startDiscovery (toUpperCase schema) (setOf (roots.map toUpperCase))).Good
        (toUpperCase schema) := ⟨nodup_nil, fun e he => absurd he not_mem_nil⟩
    have hg := discoverLevels_good h0 hs
    have hperm := mergeSort_perm (st.discovered.map Prod.snd) (objectLe localeCompare)
    refine ⟨?_, fun o ho => ?_⟩
    · rw [(hperm.map DiscoveredObject.name).nodup_iff]
      -- the names are distinct because the keys made from them are
      have hkeys : st.discovered.map Prod.fst =
          ((st.discovered.map Prod.snd).map DiscoveredObject.name).map
            (objectKey (toUpperCase schema)) := by
        rw [map_map, map_map]
        exact map_congr_left fun e he => (hg.entered e he).1
      exact List.Nodup.of_map _ (hkeys ▸ hg.nodup)
    · obtain ⟨e, he, rfl⟩ := mem_map.mp (hperm.mem_iff.mp ho)
      exact (hg.entered e he).2

/-! ## 4. The texts -/

inductive SkipReason where
  | invalid | noPrivilege | extractionError
  deriving DecidableEq

def SkipReason.text : SkipReason → Text
  | .invalid => "INVALID".toList
  | .noPrivilege => "NO_PRIVILEGE".toList
  | .extractionError => "EXTRACTION_ERROR".toList

structure SkippedObject where
  kind : ObjectKind
  owner : Text
  name : Text
  reason : SkipReason
  detail : Text
  deriving DecidableEq

structure ObjectRow where
  kind : ObjectKind
  owner : Text
  name : Text
  status : Text
  ddl_size_bytes : Nat
  extracted_at : Text
  deriving DecidableEq

structure SourceRow where
  kind : ObjectKind
  owner : Text
  name : Text
  ddl : Text
  spec : Option Text
  body : Option Text
  deriving DecidableEq

structure ExtractPlsqlDdlResult where
  objectRows : List ObjectRow := []
  sourceRows : List SourceRow := []
  skipped : List SkippedObject := []
  deriving DecidableEq

/-- `e.message`. -/
def Failure.message : Failure → Text
  | .format _ message => message
  | .error message => message

/-- `/ORA-01031|ORA-00942|insufficient priv/i`. -/
def privilegeError : Pattern :=
  .any (["ORA-01031", "ORA-00942", "INSUFFICIENT PRIV"].map fun w => .wordI w.toList)

def classifyError (message : Text) : SkipReason :=
  if message.tails.any privilegeError.test then .noPrivilege else .extractionError

/-- What `DdlExtractFn` is asked for: kind, owner and name. -/
abbrev DdlExtractFn := ObjectKind → Text → Text → Except Failure ExtractedDdl

/-- One round of the loop. -/
def extractOne (extractor : DdlExtractFn) (extractedAt : Text) (r : ExtractPlsqlDdlResult)
    (obj : DiscoveredObject) : ExtractPlsqlDdlResult :=
  match extractor obj.kind obj.owner obj.name with
  | .ok ddl =>
    let isPackage := obj.kind == .package
    let sizeBytes :=
      if isPackage then utf16Length (ddl.spec.getD []) + utf16Length (ddl.body.getD [])
      else utf16Length ddl.ddl
    { r with
      objectRows := r.objectRows ++
        [⟨obj.kind, obj.owner, obj.name, "VALID".toList, sizeBytes, extractedAt⟩]
      sourceRows := r.sourceRows ++ [⟨obj.kind, obj.owner, obj.name,
        if isPackage then [] else ddl.ddl, if isPackage then ddl.spec else none,
        if isPackage then ddl.body else none⟩] }
  | .error e =>
    { r with skipped := r.skipped ++
        [⟨obj.kind, obj.owner, obj.name, classifyError (Failure.message e), Failure.message e⟩] }

def extractPlsqlDdl (extractor : DdlExtractFn) (extractedAt : Text)
    (objects : List DiscoveredObject) : ExtractPlsqlDdlResult :=
  objects.foldl (extractOne extractor extractedAt) {}

/-- **Every object is packed or listed as skipped**: its texts stand with its row, or its error
    does. -/
theorem extractPlsqlDdl_kept (extractor : DdlExtractFn) (extractedAt : Text)
    (objects : List DiscoveredObject) :
    let r := extractPlsqlDdl extractor extractedAt objects
    r.objectRows.map (fun o => (o.kind, o.owner, o.name)) =
        (objects.filter fun o => (extractor o.kind o.owner o.name).toBool).map
          (fun o => (o.kind, o.owner, o.name)) ∧
      r.sourceRows.map (fun o => (o.kind, o.owner, o.name)) =
        r.objectRows.map (fun o => (o.kind, o.owner, o.name)) ∧
      r.skipped.map (fun o => (o.kind, o.owner, o.name)) =
        (objects.filter fun o => !(extractor o.kind o.owner o.name).toBool).map
          (fun o => (o.kind, o.owner, o.name)) := by
  induction objects using List.reverseRecOn with
  | nil => exact ⟨rfl, rfl, rfl⟩
  | append_singleton objects o ih =>
    obtain ⟨h1, h2, h3⟩ := ih
    simp only [extractPlsqlDdl, foldl_append, foldl_cons, foldl_nil] at h1 h2 h3 ⊢
    rw [extractOne]
    cases he : extractor o.kind o.owner o.name with
    | ok ddl =>
      refine ⟨?_, ?_, ?_⟩
      · simp [filter_append, he, h1, Except.toBool]
      · simp [h2]
      · simp [filter_append, he, h3, Except.toBool]
    | error e =>
      refine ⟨?_, ?_, ?_⟩
      · simp [filter_append, he, h1, Except.toBool]
      · exact h2
      · simp [filter_append, he, h3, Except.toBool]

end Veesker.Sandbox
