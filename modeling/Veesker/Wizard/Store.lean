/-
  File:      Veesker/Wizard/Store.lean
  Subject:   THE STORE OF THE PUBLISH WIZARD (src/lib/stores/publish-wizard.svelte.ts): its state and
             the functions it offers.

  Sets are lists in the order of insertion, the map of the mask overrides is a record. Numbers are
  whole.

  * `mem_effectiveTables` -- **the tables that go to the sandbox**, as the wizard shows them.
-/
import Veesker.Sandbox.Build

namespace Veesker.Wizard

open Format Vsk Sandbox
open List hiding splitOn

/-! ## 1. The state -/

/-- `1 | 2 | 3 | 4 | 5 | 6`. -/
inductive WizardStep where
  | source | tables | spec | review | plsql | publish
  deriving DecidableEq

/-- The step after this one; the last stays. -/
def WizardStep.succ : WizardStep → WizardStep
  | .source => .tables
  | .tables => .spec
  | .spec => .review
  | .review => .plsql
  | .plsql => .publish
  | .publish => .publish

/-- The step before this one; the first stays. -/
def WizardStep.pred : WizardStep → WizardStep
  | .source => .source
  | .tables => .source
  | .spec => .tables
  | .review => .spec
  | .plsql => .review
  | .publish => .plsql

structure RecipientChip where
  email : Text
  userId : Option Text
  pubkeyOk : Bool
  deriving DecidableEq

inductive Mode where
  | create | republish
  deriving DecidableEq

structure SourceState where
  connectionId : Option Text := none
  schemaName : Option Text := none
  credsReady : Bool := false
  deriving DecidableEq

structure SchemaTableInfo where
  name : Text
  rowCount : Option Int
  sizeBytesEst : Option Int
  deriving DecidableEq

structure TablesState where
  explicit : List PrimaryTableSpec := []
  fkClosure : List FkClosureEntry := []
  excluded : List Text := []
  manual : List Text := []
  fkDepth : Int := 2
  available : List SchemaTableInfo := []
  deriving DecidableEq

structure SpecState where
  sandboxName : Text := []
  ttlDays : Int := 7
  piiLevel : Int := 2
  recipients : List RecipientChip := []
  deriving DecidableEq

/-- `dryRunStatus` and `discoveryStatus`. -/
inductive Status where
  | idle | running | ok | error
  deriving DecidableEq

structure ReviewState where
  piiSuggestions : List PiiSuggestion := []
  piiOverrides : Record Text := []
  flaggedManually : List PiiSuggestion := []
  estimatedSizeBytes : Int := 0
  estimatedTotalRows : Int := 0
  dryRunStatus : Status := .idle
  dryRunError : Option Text := none
  deriving DecidableEq

structure PlsqlState where
  discoveryStatus : Status := .idle
  discoveryError : Option Text := none
  discovered : List DiscoveredObject := []
  excluded : List Text := []
  estimatedTotalBytes : Int := 0
  deriving DecidableEq

inductive Phase where
  | idle | build | encrypt | upload | grant | done | error
  deriving DecidableEq

/-- `"ok"`, or the message of the error. -/
abbrev GrantResult := Option Text

structure UploadProgress where
  bytesUploaded : Int
  totalBytes : Int
  deriving DecidableEq

structure PublishState where
  phase : Phase := .idle
  progressLines : List Text := []
  sandboxId : Option Text := none
  grantResults : Record GrantResult := []
  error : Option Text := none
  lastBuildOutPath : Option Text := none
  uploadProgress : Option UploadProgress := none
  deriving DecidableEq

structure PublishWizardState where
  currentStep : WizardStep := .source
  mode : Mode := .create
  republishingSandboxId : Option Text := none
  source : SourceState := {}
  tables : TablesState := {}
  spec : SpecState := {}
  review : ReviewState := {}
  plsql : PlsqlState := {}
  publish : PublishState := {}
  deriving DecidableEq

def PROGRESS_LOG_MAX : Nat := 200

def clamp (v lo hi : Int) : Int := max lo (min hi v)

/-! ## 2. Steps -/

section

variable (state : PublishWizardState)

def canAdvance : Bool :=
  match state.currentStep with
  | .source => state.source.connectionId.isSome && state.source.credsReady
  | .tables => decide (1 ≤ state.tables.explicit.length)
  | .spec => !(trim state.spec.sandboxName).isEmpty && decide (1 ≤ state.spec.ttlDays) &&
      decide (state.spec.ttlDays ≤ 90)
  | .review => state.review.dryRunStatus == .ok
  | .plsql => state.plsql.discoveryStatus == .ok || state.plsql.discovered.isEmpty
  | .publish => false

def next : PublishWizardState :=
  if canAdvance state then { state with currentStep := state.currentStep.succ } else state

/-- The review without what a dry run found; the overrides and flags stay. -/
def ReviewState.clearDryRun (review : ReviewState) : ReviewState :=
  { review with
    dryRunStatus := .idle
    dryRunError := none
    piiSuggestions := []
    estimatedSizeBytes := 0
    estimatedTotalRows := 0 }

/-- The discovery forgotten, but for its error. -/
def PlsqlState.clearDiscovery (plsql : PlsqlState) : PlsqlState :=
  { plsql with
    discoveryStatus := .idle
    discovered := []
    excluded := []
    estimatedTotalBytes := 0 }

def softResetPublish : PublishWizardState := { state with publish := {} }

def back : PublishWizardState :=
  let moved := { state with currentStep := state.currentStep.pred }
  match state.currentStep with
  | .review => { moved with review := state.review.clearDryRun }
  | .plsql => { moved with plsql := state.plsql.clearDiscovery }
  | .publish => softResetPublish moved
  | _ => moved

/-- Something gathered against another source is forgotten. -/
def setSource (connectionId schemaName : Text) (credsReady : Bool := false) : PublishWizardState :=
  let upperSchema := toUpperCase schemaName
  let schemaChanged :=
    state.source.connectionId != some connectionId || state.source.schemaName != some upperSchema
  let source := ⟨some connectionId, some upperSchema, credsReady⟩
  if schemaChanged then
    softResetPublish { state with
      source
      tables := { state.tables with
        explicit := [], fkClosure := [], excluded := [], manual := [], available := [] }
      review := state.review.clearDryRun
      plsql := state.plsql.clearDiscovery }
  else { state with source }

def setCredsReady (ready : Bool) : PublishWizardState :=
  { state with source := { state.source with credsReady := ready } }

/-- The initial state; the discovery's error and the flags go as well. -/
def reset : PublishWizardState := {}

/-! ## 3. Tables -/

def setAvailableTables (tables : List SchemaTableInfo) : PublishWizardState :=
  { state with tables := { state.tables with available := tables } }

def addExplicitTable (name : Text) : PublishWizardState :=
  let upper := toUpperCase name
  if state.tables.explicit.any fun t => t.name == upper then state
  else { state with tables := { state.tables with
    explicit := state.tables.explicit ++ [{ name := upper }] } }

def removeExplicitTable (name : Text) : PublishWizardState :=
  { state with tables := { state.tables with
    explicit := state.tables.explicit.filter fun t => t.name != toUpperCase name } }

/-- The filter of the first table with the name. -/
def setTableFilter (name : Text) (whereClause : Option Text) (rowCap : Option Int) :
    PublishWizardState :=
  let found := state.tables.explicit.findIdx fun t => t.name == toUpperCase name
  { state with tables := { state.tables with
    explicit := state.tables.explicit.modify found fun t => { t with
      whereClause := (whereClause.map trim).filter fun w => !w.isEmpty
      rowCap := rowCap.filter fun c => decide (0 < c) } } }

def applyFkClosure (closure : FkClosureResult) : PublishWizardState :=
  { state with tables := { state.tables with fkClosure := closure.entries } }

/-- `set.add(x)`. -/
def addTo (set : List Text) (x : Text) : List Text := if set.contains x then set else set ++ [x]

/-- `set.delete(x)`. -/
def deleteFrom (set : List Text) (x : Text) : List Text := set.filter (· != x)

def excludeTable (name : Text) : PublishWizardState :=
  { state with tables := { state.tables with
    excluded := addTo state.tables.excluded (toUpperCase name) } }

def unexcludeTable (name : Text) : PublishWizardState :=
  { state with tables := { state.tables with
    excluded := deleteFrom state.tables.excluded (toUpperCase name) } }

def addManual (name : Text) : PublishWizardState :=
  { state with tables := { state.tables with
    manual := addTo state.tables.manual (toUpperCase name) } }

def removeManual (name : Text) : PublishWizardState :=
  { state with tables := { state.tables with
    manual := deleteFrom state.tables.manual (toUpperCase name) } }

def setFkDepth (d : Int) : PublishWizardState :=
  { state with tables := { state.tables with fkDepth := clamp d 1 5 } }

inductive Origin where
  | explicit | fk | manual
  deriving DecidableEq

structure EffectiveTable where
  name : Text
  depth : Nat
  origin : Origin
  deriving DecidableEq

/-- The body of the second and third loop: an excluded table and one that is there already are
    passed over. -/
def addEffective (excluded : List Text) (out : List EffectiveTable) (t : EffectiveTable) :
    List EffectiveTable :=
  if excluded.contains t.name then out
  else if out.any fun x => x.name == t.name then out
  else out ++ [t]

def effectiveTables : List EffectiveTable :=
  let out := (state.tables.explicit.filter fun t => !state.tables.excluded.contains t.name).map
    fun t => ⟨t.name, 0, .explicit⟩
  let out := state.tables.fkClosure.foldl
    (fun out e =>
      if e.depth = 0 then out else addEffective state.tables.excluded out ⟨e.name, e.depth, .fk⟩) out
  state.tables.manual.foldl
    (fun out m => addEffective state.tables.excluded out ⟨m, 0, .manual⟩) out

/-! ## 4. Spec, review and publish -/

def setSpec (sandboxName : Option Text) (ttlDays piiLevel : Option Int) : PublishWizardState :=
  { state with spec := { state.spec with
    sandboxName := sandboxName.getD state.spec.sandboxName
    ttlDays := (ttlDays.map fun d => clamp d 1 90).getD state.spec.ttlDays
    piiLevel := piiLevel.getD state.spec.piiLevel } }

def addRecipient (chip : RecipientChip) : PublishWizardState :=
  if state.spec.recipients.any fun r => r.email == chip.email then state
  else { state with spec := { state.spec with recipients := state.spec.recipients ++ [chip] } }

def removeRecipient (email : Text) : PublishWizardState :=
  { state with spec := { state.spec with
    recipients := state.spec.recipients.filter fun r => r.email != email } }

/-- The key of a column in `piiOverrides`. -/
def overrideKey (table column : Text) : Text :=
  toUpperCase table ++ '.' :: toUpperCase column

def setPiiOverride (table column mask : Text) : PublishWizardState :=
  { state with review := { state.review with
    piiOverrides := setEntry state.review.piiOverrides (overrideKey table column) mask } }

def setDryRunStatus (status : Status) (error : Option Text := none) : PublishWizardState :=
  { state with review := { state.review with dryRunStatus := status, dryRunError := error } }

/-- `lines.splice(0, lines.length - n)`, where there are more. -/
def lastLines (n : Nat) (lines : List Text) : List Text := (lines.reverse.take n).reverse

def appendProgressLine (line : Text) : PublishWizardState :=
  { state with publish := { state.publish with
    progressLines := lastLines PROGRESS_LOG_MAX (state.publish.progressLines ++ [line]) } }

def setPublishPhase (phase : Phase) (error : Option Text := none) : PublishWizardState :=
  { state with publish := { state.publish with phase, error } }

def recordGrantResult (recipientKey : Text) (result : GrantResult) : PublishWizardState :=
  { state with publish := { state.publish with
    grantResults := setEntry state.publish.grantResults recipientKey result } }

def setSandboxId (id : Text) : PublishWizardState :=
  { state with publish := { state.publish with sandboxId := some id } }

def setLastBuildOutPath (outPath : Option Text) : PublishWizardState :=
  { state with publish := { state.publish with lastBuildOutPath := outPath } }

def setUploadProgress (progress : Option UploadProgress) : PublishWizardState :=
  { state with publish := { state.publish with uploadProgress := progress } }

/-! ## 5. The PL/SQL review -/

def setPlsqlDiscovery (discovered : List DiscoveredObject) (estimatedTotalBytes : Int) :
    PublishWizardState :=
  { state with plsql := {
    discoveryStatus := .ok
    discoveryError := none
    discovered
    excluded := []
    estimatedTotalBytes } }

def setPlsqlDiscoveryStatus (status : Status) (error : Option Text := none) : PublishWizardState :=
  { state with plsql := { state.plsql with discoveryStatus := status, discoveryError := error } }

def plsqlKey (kind owner name : Text) : Text :=
  toUpperCase kind ++ ':' :: (toUpperCase owner ++ ':' :: toUpperCase name)

def setPlsqlExcluded (excluded : List Text) : PublishWizardState :=
  { state with plsql := { state.plsql with excluded } }

def togglePlsql (kind owner name : Text) : PublishWizardState :=
  let k := plsqlKey kind owner name
  setPlsqlExcluded state
    (if state.plsql.excluded.contains k then deleteFrom state.plsql.excluded k
      else addTo state.plsql.excluded k)

/-- The keys of the discovered objects of a kind. -/
def keysOfKind (kind : Text) : List Text :=
  (state.plsql.discovered.filter fun o => o.kind.text == kind).map fun o =>
    plsqlKey o.kind.text o.owner o.name

def unselectKind (kind : Text) : PublishWizardState :=
  setPlsqlExcluded state ((keysOfKind state kind).foldl addTo state.plsql.excluded)

def selectKind (kind : Text) : PublishWizardState :=
  setPlsqlExcluded state ((keysOfKind state kind).foldl deleteFrom state.plsql.excluded)

def getEffectiveExcludedPlsql : List ExcludedPlsql :=
  state.plsql.excluded.filterMap fun k =>
    match splitOn ':' k with
    | kind :: owner :: name :: _ =>
      if kind.isEmpty || owner.isEmpty || name.isEmpty then none else some ⟨kind, owner, name⟩
    | _ => none

end

/-! ## 6. The tables that are shown -/

theorem mem_addEffective {excluded : List Text} {out : List EffectiveTable} {t : EffectiveTable}
    {name : Text} : name ∈ (addEffective excluded out t).map EffectiveTable.name ↔
      name ∈ out.map EffectiveTable.name ∨ name = t.name ∧ t.name ∉ excluded := by
  rw [addEffective]
  split
  · rename_i hc
    have ht : t.name ∈ excluded := contains_iff_mem.mp hc
    exact ⟨.inl, fun h => h.resolve_right fun hn => hn.2 ht⟩
  rename_i hc
  have ht : t.name ∉ excluded := fun h => hc (contains_iff_mem.mpr h)
  split
  · rename_i hany
    obtain ⟨x, hx, hn⟩ := any_eq_true.mp hany
    refine ⟨.inl, fun h => h.elim id ?_⟩
    rintro ⟨rfl, -⟩
    exact mem_map.mpr ⟨x, hx, beq_iff_eq.mp hn⟩
  · rw [map_append, mem_append, map_singleton, mem_singleton]
    exact or_congr_right ⟨fun h => ⟨h, ht⟩, And.left⟩

theorem mem_foldl_addEffective {α : Type} (excluded : List Text) (f : α → Option EffectiveTable)
    (l : List α) (out : List EffectiveTable) (name : Text) :
    name ∈ (l.foldl (fun out a => (f a).elim out (addEffective excluded out)) out).map
        EffectiveTable.name ↔
      name ∈ out.map EffectiveTable.name ∨ name ∉ excluded ∧
        ∃ a ∈ l, ∃ t, f a = some t ∧ t.name = name := by
  induction l generalizing out with
  | nil => simp
  | cons a l ih =>
    rw [foldl_cons, ih]
    cases ha : f a with
    | none => simp [ha]
    | some t =>
      rw [Option.elim_some, mem_addEffective, or_assoc]
      refine or_congr_right ⟨?_, ?_⟩
      · rintro (⟨rfl, hn⟩ | ⟨hn, b, hb, h⟩)
        · exact ⟨hn, a, mem_cons_self, t, ha, rfl⟩
        · exact ⟨hn, b, mem_cons_of_mem _ hb, h⟩
      · rintro ⟨hn, b, hb, u, hu, rfl⟩
        rcases mem_cons.mp hb with rfl | hb
        · obtain rfl := Option.some.inj (ha.symm.trans hu)
          exact .inl ⟨rfl, hn⟩
        · exact .inr ⟨hn, b, hb, u, hu, rfl⟩

/-- The first loop. -/
def pickedTables (state : PublishWizardState) : List EffectiveTable :=
  (state.tables.explicit.filter fun t => !state.tables.excluded.contains t.name).map
    fun t => ⟨t.name, 0, .explicit⟩

/-- The second and the third loop pass over what they do not take. -/
theorem effectiveTables_eq (state : PublishWizardState) :
    effectiveTables state =
      state.tables.manual.foldl (fun out m =>
        (some (⟨m, 0, .manual⟩ : EffectiveTable)).elim out (addEffective state.tables.excluded out))
      (state.tables.fkClosure.foldl (fun out e =>
        (if e.depth = 0 then none else some (⟨e.name, e.depth, .fk⟩ : EffectiveTable)).elim out
          (addEffective state.tables.excluded out)) (pickedTables state)) := by
  have hfk : (fun (out : List EffectiveTable) (e : FkClosureEntry) =>
      if e.depth = 0 then out else addEffective state.tables.excluded out ⟨e.name, e.depth, .fk⟩) =
      fun out e => ((if e.depth = 0 then none else some ⟨e.name, e.depth, .fk⟩ :
        Option EffectiveTable)).elim out (addEffective state.tables.excluded out) := by
    funext out e
    split <;> rfl
  rw [effectiveTables, hfk]
  rfl

/-- **The tables that are shown**: those picked, those of the closure and those added by hand, less
    the excluded ones. -/
theorem mem_effectiveTables {state : PublishWizardState} {name : Text} :
    name ∈ (effectiveTables state).map EffectiveTable.name ↔
      name ∉ state.tables.excluded ∧
        (name ∈ state.tables.explicit.map PrimaryTableSpec.name ∨
          (∃ e ∈ state.tables.fkClosure, e.depth ≠ 0 ∧ e.name = name) ∨
          name ∈ state.tables.manual) := by
  rw [effectiveTables_eq, pickedTables]
  simp only [mem_foldl_addEffective]
  have hexplicit : name ∈ ((state.tables.explicit.filter fun t =>
      !state.tables.excluded.contains t.name).map fun t =>
        (⟨t.name, 0, .explicit⟩ : EffectiveTable)).map EffectiveTable.name ↔
      name ∉ state.tables.excluded ∧ name ∈ state.tables.explicit.map PrimaryTableSpec.name := by
    simp only [map_map, mem_map, mem_filter, Function.comp_apply, Bool.not_eq_true',
      contains_eq_mem, decide_eq_false_iff_not]
    constructor
    · rintro ⟨t, ⟨ht, hn⟩, rfl⟩
      exact ⟨hn, t, ht, rfl⟩
    · rintro ⟨hn, t, ht, rfl⟩
      exact ⟨t, ⟨ht, hn⟩, rfl⟩
  have hclosure : (∃ e ∈ state.tables.fkClosure, ∃ t : EffectiveTable,
      (if e.depth = 0 then none else some ⟨e.name, e.depth, .fk⟩) = some t ∧ t.name = name) ↔
      ∃ e ∈ state.tables.fkClosure, e.depth ≠ 0 ∧ e.name = name := by
    refine exists_congr fun e => and_congr_right fun _ => ?_
    by_cases hd : e.depth = 0 <;> simp [hd]
  have hadded : (∃ m ∈ state.tables.manual, ∃ t : EffectiveTable,
      some (⟨m, 0, .manual⟩ : EffectiveTable) = some t ∧ t.name = name) ↔
      name ∈ state.tables.manual := by
    simp
  rw [hexplicit, hclosure, hadded, and_or_left, and_or_left, or_assoc]

end Veesker.Wizard
