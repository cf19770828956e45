/-
  File:      Veesker/Wizard/Fresh.lean
  Subject:   IS THE REVIEW STILL THAT OF WHAT WILL BE PUBLISHED? The wizard with its components
             (src/lib/workspace/publish): the dry run of the review (PublishStepReview.svelte), the
             discovery (Step5PlsqlReview.svelte), the list of tables (AvailableSchemaTree.svelte),
             and the way back from the publish step.

  A component asks the sidecar and takes the answer whenever it comes, at any later step. Beside the
  state stands what each thing in the review was gathered for.

  * **`orderly_fresh`**: in a run whose steps are all orderly the review is never stale.
  * `stale_published` -- without it: back from the publish step, another table, and forward again.
-/
import Mathlib.Logic.Function.Basic
import Veesker.Run.Flight
import Veesker.Wizard.Store

namespace Veesker.Wizard

open Format Vsk Sandbox Run List

/-! ## 1. The operations -/

/-- `backToTables`. -/
def backToTables (state : PublishWizardState) : PublishWizardState :=
  { softResetPublish state with currentStep := .tables }

/-- What the steps of the wizard call. -/
inductive WizardOp where
  | next
  | back
  | backToTables
  | reset
  | setMode (republishingSandboxId : Text)
  | setSource (connectionId schemaName : Text) (credsReady : Bool)
  | setCredsReady (ready : Bool)
  | addExplicitTable (name : Text)
  | removeExplicitTable (name : Text)
  | setTableFilter (name : Text) (whereClause : Option Text) (rowCap : Option Int)
  | applyFkClosure (closure : FkClosureResult)
  | excludeTable (name : Text)
  | unexcludeTable (name : Text)
  | addManual (name : Text)
  | removeManual (name : Text)
  | setFkDepth (d : Int)
  | setSpec (sandboxName : Option Text) (ttlDays piiLevel : Option Int)
  | addRecipient (chip : RecipientChip)
  | removeRecipient (email : Text)
  | setPiiOverride (table column mask : Text)
  | togglePlsql (kind owner name : Text)
  | unselectKind (kind : Text)
  | selectKind (kind : Text)
  | softResetPublish
  | appendProgressLine (line : Text)
  | setPublishPhase (phase : Phase) (error : Option Text)
  | recordGrantResult (recipientKey : Text) (result : GrantResult)
  | setSandboxId (id : Text)
  | setLastBuildOutPath (outPath : Option Text)
  | setUploadProgress (progress : Option UploadProgress)
  deriving DecidableEq

def WizardOp.apply (s : PublishWizardState) : WizardOp → PublishWizardState
  | .next => Wizard.next s
  | .back => Wizard.back s
  | .backToTables => Wizard.backToTables s
  | .reset => Wizard.reset
  | .setMode id => { s with mode := .republish, republishingSandboxId := some id }
  | .setSource connectionId schemaName credsReady =>
    Wizard.setSource s connectionId schemaName credsReady
  | .setCredsReady ready => Wizard.setCredsReady s ready
  | .addExplicitTable name => Wizard.addExplicitTable s name
  | .removeExplicitTable name => Wizard.removeExplicitTable s name
  | .setTableFilter name whereClause rowCap => Wizard.setTableFilter s name whereClause rowCap
  | .applyFkClosure closure => Wizard.applyFkClosure s closure
  | .excludeTable name => Wizard.excludeTable s name
  | .unexcludeTable name => Wizard.unexcludeTable s name
  | .addManual name => Wizard.addManual s name
  | .removeManual name => Wizard.removeManual s name
  | .setFkDepth d => Wizard.setFkDepth s d
  | .setSpec sandboxName ttlDays piiLevel => Wizard.setSpec s sandboxName ttlDays piiLevel
  | .addRecipient chip => Wizard.addRecipient s chip
  | .removeRecipient email => Wizard.removeRecipient s email
  | .setPiiOverride table column mask => Wizard.setPiiOverride s table column mask
  | .togglePlsql kind owner name => Wizard.togglePlsql s kind owner name
  | .unselectKind kind => Wizard.unselectKind s kind
  | .selectKind kind => Wizard.selectKind s kind
  | .softResetPublish => Wizard.softResetPublish s
  | .appendProgressLine line => Wizard.appendProgressLine s line
  | .setPublishPhase phase error => Wizard.setPublishPhase s phase error
  | .recordGrantResult recipientKey result => Wizard.recordGrantResult s recipientKey result
  | .setSandboxId id => Wizard.setSandboxId s id
  | .setLastBuildOutPath outPath => Wizard.setLastBuildOutPath s outPath
  | .setUploadProgress progress => Wizard.setUploadProgress s progress

/-- The operations that belong to one step; the others may come at any. -/
def WizardOp.enabled (s : PublishWizardState) : WizardOp → Bool
  | .backToTables => s.currentStep == .publish
  | _ => true

/-! ## 2. What the review is of -/

/-- Connection and schema. -/
abbrev SourceKey := Option Text × Option Text

def sourceKey (s : PublishWizardState) : SourceKey := (s.source.connectionId, s.source.schemaName)

/-- What a dry run is asked for. -/
structure ReviewInput where
  source : SourceKey
  tables : List Text
  fkDepth : Int
  piiLevel : Int
  deriving DecidableEq

def reviewInput (s : PublishWizardState) : ReviewInput where
  source := sourceKey s
  tables := s.tables.explicit.map PrimaryTableSpec.name
  fkDepth := s.tables.fkDepth
  piiLevel := s.spec.piiLevel

/-- What a discovery is asked for. -/
structure DiscoveryInput where
  source : SourceKey
  tables : List Text
  deriving DecidableEq

def discoveryInput (s : PublishWizardState) : DiscoveryInput where
  source := sourceKey s
  tables := (effectiveTables s).map EffectiveTable.name

/-- A dry run in flight: the component that asked, its token, and what it asked for. -/
structure DryRun where
  component : Nat
  myToken : Nat
  input : ReviewInput
  deriving DecidableEq

/-- The wizard, its components and their calls, and what the review was gathered for. -/
structure World where
  wizard : PublishWizardState := {}
  /-- How often the review was mounted; the last one is on screen at step 4. -/
  review : Nat := 0
  dryRunToken : Nat → Nat := fun _ => 0
  dryRuns : List DryRun := []
  /-- The PL/SQL review was mounted and has not looked yet. -/
  mounted : Bool := false
  discoveries : List DiscoveryInput := []
  listings : List SourceKey := []
  availableFor : Option SourceKey := none
  suggestionsFor : Option ReviewInput := none
  /-- The dry run of the sizes, and the source of the list they were looked up in. -/
  sizesFor : Option (ReviewInput × Option SourceKey) := none
  overridesFor : Record ReviewInput := []
  discoveryFor : Option DiscoveryInput := none

/-- The source of the tables in the list, none where it is empty. -/
def World.listed (w : World) : Option SourceKey :=
  if w.wizard.tables.available.isEmpty then none else w.availableFor

/-- The reply of a call is still waited for. -/
def World.Live (w : World) (d : DryRun) : Prop := d.myToken = w.dryRunToken d.component

instance (w : World) (d : DryRun) : Decidable (w.Live d) := inferInstanceAs (Decidable (_ = _))

/-- **The law**: what an ok review shows was gathered for what is chosen now, and so was the
    discovery. Nothing in the wizard adds a manual flag. -/
structure World.Fresh (w : World) : Prop where
  suggestions : w.wizard.review.dryRunStatus = .ok →
    w.suggestionsFor = some (reviewInput w.wizard)
  sizes : w.wizard.review.dryRunStatus = .ok → ∃ listed,
    w.sizesFor = some (reviewInput w.wizard, listed) ∧
      (listed = none ∨ listed = some (sourceKey w.wizard))
  overrides : w.wizard.review.dryRunStatus = .ok → ∀ key,
    (entryOf w.wizard.review.piiOverrides key).isSome →
      entryOf w.overridesFor key = some (reviewInput w.wizard)
  flags : w.wizard.review.flaggedManually = []
  discovery : w.wizard.plsql.discoveryStatus = .ok →
    w.discoveryFor = some (discoveryInput w.wizard)

/-- The steps that come after the review. -/
def afterReview : WizardStep → Bool
  | .plsql | .publish => true
  | _ => false

/-- What the last step publishes by, whatever the status says by then. -/
structure World.Ready (w : World) : Prop where
  suggestions : w.suggestionsFor = some (reviewInput w.wizard)
  sizes : ∃ listed, w.sizesFor = some (reviewInput w.wizard, listed) ∧
    (listed = none ∨ listed = some (sourceKey w.wizard))
  overrides : ∀ key, (entryOf w.wizard.review.piiOverrides key).isSome →
    entryOf w.overridesFor key = some (reviewInput w.wizard)
  flags : w.wizard.review.flaggedManually = []
  discovery : w.wizard.plsql.discovered = [] ∨ w.discoveryFor = some (discoveryInput w.wizard)

/-! ## 3. The components -/

/-- The wizard moves; a step that comes on screen is mounted anew. -/
def World.moveTo (w : World) (s : PublishWizardState) : World :=
  { w with
    wizard := s
    review :=
      if s.currentStep = .review ∧ w.wizard.currentStep ≠ .review then w.review + 1 else w.review
    mounted := s.currentStep == .plsql && (w.wizard.currentStep != .plsql || w.mounted) }

def World.operate (w : World) (o : WizardOp) : World :=
  let overridesFor := match o with
    | .setPiiOverride table column _ =>
      setEntry w.overridesFor (overrideKey table column) (reviewInput w.wizard)
    | _ => w.overridesFor
  { w.moveTo (o.apply w.wizard) with overridesFor }

/-- `!conn || !schema`. -/
def missingSource (s : PublishWizardState) : Bool :=
  s.source.connectionId.all List.isEmpty || s.source.schemaName.all List.isEmpty

def World.runDryRun (w : World) : World :=
  if missingSource w.wizard then
    { w with wizard := setDryRunStatus w.wizard .error (some "missing connection".toList) }
  else
    let myToken := w.dryRunToken w.review + 1
    { w with
      dryRunToken := Function.update w.dryRunToken w.review myToken
      wizard := setDryRunStatus w.wizard .running
      dryRuns := w.dryRuns ++ [⟨w.review, myToken, reviewInput w.wizard⟩] }

/-- How a dry run ends. -/
inductive DryRunReply where
  /-- It rejects, or an error is among its events. -/
  | error (message : Text)
  | noDone
  | done (piiSuggestions : List PiiSuggestion) (fkClosureTables : List Text)
  deriving DecidableEq

/-- `sumSizeForClosure`: rows and bytes. -/
def sumSizeForClosure (available : List SchemaTableInfo) (closureNames : List Text) : Int × Int :=
  let want := closureNames.map toUpperCase
  available.foldl (fun (rows, bytes) t =>
    if want.contains (toUpperCase t.name) then
      (rows + t.rowCount.getD 0, bytes + t.sizeBytesEst.getD 0)
    else (rows, bytes)) (0, 0)

def World.takeDryRun (w : World) (d : DryRun) (reply : DryRunReply) : World :=
  if w.Live d then
    match reply with
    | .error message => { w with wizard := setDryRunStatus w.wizard .error (some message) }
    | .noDone =>
      let message := "sidecar returned no dry-run-done event".toList
      { w with wizard := setDryRunStatus w.wizard .error (some message) }
    | .done piiSuggestions fkClosureTables =>
      let (rows, bytes) := sumSizeForClosure w.wizard.tables.available fkClosureTables
      { w with
        wizard := setDryRunStatus { w.wizard with review := { w.wizard.review with
          piiSuggestions, estimatedSizeBytes := bytes, estimatedTotalRows := rows } } .ok
        suggestionsFor := some d.input
        sizesFor := some (d.input, w.listed) }
  else w

/-- `onMount` of the PL/SQL review. -/
def World.discover (w : World) : World :=
  let w := { w with mounted := false }
  if w.wizard.plsql.discoveryStatus = .ok then w
  else if missingSource w.wizard then
    let message := "missing connection or schema".toList
    { w with wizard := setPlsqlDiscoveryStatus w.wizard .error (some message) }
  else { w with
    wizard := setPlsqlDiscoveryStatus w.wizard .running
    discoveries := w.discoveries ++ [discoveryInput w.wizard] }

inductive DiscoveryReply where
  | error (message : Text)
  | done (objects : List DiscoveredObject) (totalEstimatedDdlBytes : Int)
  deriving DecidableEq

def World.takeDiscovery (w : World) (d : DiscoveryInput) : DiscoveryReply → World
  | .error message =>
    { w with wizard := setPlsqlDiscoveryStatus w.wizard .error (some message) }
  | .done objects bytes =>
    { w with wizard := setPlsqlDiscovery w.wizard objects bytes, discoveryFor := some d }

/-! ## 4. The machine -/

inductive Event where
  | operates (o : WizardOp)
  /-- The effect of the review, or its button. -/
  | runsDryRun
  /-- The `i`-th dry run in flight is answered; likewise below. -/
  | dryRunReplies (i : Nat) (reply : DryRunReply)
  | discovers
  | discoveryReplies (i : Nat) (reply : DiscoveryReply)
  | lists
  | listingReplies (i : Nat) (tables : List SchemaTableInfo)
  deriving DecidableEq

def step (w : World) : Event → Option World
  | .operates o => if o.enabled w.wizard then some (w.operate o) else none
  | .runsDryRun =>
    if w.wizard.currentStep = .review ∧ w.wizard.review.dryRunStatus ≠ .running then
      some w.runDryRun
    else none
  | .dryRunReplies i reply => w.dryRuns[i]?.map fun d =>
    { w with dryRuns := w.dryRuns.eraseIdx i }.takeDryRun d reply
  | .discovers =>
    if w.wizard.currentStep = .plsql ∧ w.mounted = true then some w.discover else none
  | .discoveryReplies i reply => w.discoveries[i]?.map fun d =>
    { w with discoveries := w.discoveries.eraseIdx i }.takeDiscovery d reply
  | .lists =>
    if w.wizard.currentStep = .tables ∧ missingSource w.wizard = false then
      some { w with listings := w.listings ++ [sourceKey w.wizard] }
    else none
  | .listingReplies i tables => w.listings[i]?.map fun key =>
    { w with
      listings := w.listings.eraseIdx i
      wizard := setAvailableTables w.wizard tables
      availableFor := some key }

/-- The states of the wizard's runs, under a condition on the steps. -/
def Reached (allowed : World → Event → Prop) : World → Prop :=
  Runs (fun w e w' => step w e = some w') allowed {}

/-- The operation forgets what was gathered: another source, or a reset. -/
def WizardOp.clears (s : PublishWizardState) : WizardOp → Bool
  | .setSource connectionId schemaName _ =>
    sourceKey s != (some connectionId, some (toUpperCase schemaName))
  | .reset => true
  | _ => false

/-- **The condition.** What a dry run was asked for is changed only before the review is left
    forwards, while none is waited for, no ok review is kept and no mask was chosen; what a
    discovery was asked for only before the last step, while none is in flight and none is kept;
    and a list of tables is taken only for the source it is of. -/
def Orderly (w : World) : Event → Prop
  | .operates o =>
    (reviewInput (o.apply w.wizard) ≠ reviewInput w.wizard →
      (∀ d ∈ w.dryRuns, ¬ w.Live d) ∧
      (w.wizard.review.dryRunStatus ≠ .ok ∨ o.clears w.wizard = true) ∧
      (w.wizard.review.piiOverrides = [] ∨ o = .reset) ∧
      (afterReview w.wizard.currentStep = false ∨ o = .reset)) ∧
    (discoveryInput (o.apply w.wizard) ≠ discoveryInput w.wizard →
      w.discoveries = [] ∧ (w.wizard.plsql.discoveryStatus ≠ .ok ∨ o.clears w.wizard = true) ∧
      (w.wizard.currentStep ≠ .publish ∨ o = .reset))
  | .listingReplies i _ => w.listings[i]?.all (fun key => key == sourceKey w.wizard) = true
  | _ => True

instance (w : World) : ∀ e, Decidable (Orderly w e)
  | .operates _ => inferInstanceAs (Decidable (_ ∧ _))
  | .listingReplies _ _ => inferInstanceAs (Decidable (_ = true))
  | .runsDryRun => isTrue trivial
  | .dryRunReplies _ _ => isTrue trivial
  | .discovers => isTrue trivial
  | .discoveryReplies _ _ => isTrue trivial
  | .lists => isTrue trivial

/-! ## 5. What an operation leaves -/

/-- What an operation leaves of what was gathered. -/
structure Leaves (s : PublishWizardState) (o : WizardOp) (s' : PublishWizardState) : Prop where
  flags : s.review.flaggedManually = [] → s'.review.flaggedManually = []
  dryRun : s'.review.dryRunStatus = .ok → s.review.dryRunStatus = .ok ∧ o.clears s = false
  discovery : s'.plsql.discoveryStatus = .ok → s.plsql.discoveryStatus = .ok ∧ o.clears s = false
  available : s'.tables.available = [] ∨
    s'.tables.available = s.tables.available ∧ sourceKey s' = sourceKey s
  overrides : ∀ key, (entryOf s'.review.piiOverrides key).isSome →
    (entryOf s.review.piiOverrides key).isSome ∨
      ∃ table column mask, o = .setPiiOverride table column mask ∧ key = overrideKey table column
  resets : o = .reset → s'.review.piiOverrides = []

theorem leaves_of_keeps {s s' : PublishWizardState} {o : WizardOp} (hc : o.clears s = false)
    (hreview : s'.review = s.review)
    (hplsql : s'.plsql.discoveryStatus = s.plsql.discoveryStatus)
    (havailable : s'.tables.available = s.tables.available) (hsource : sourceKey s' = sourceKey s) :
    Leaves s o s' where
  flags h := hreview ▸ h
  dryRun h := ⟨hreview ▸ h, hc⟩
  discovery h := ⟨hplsql ▸ h, hc⟩
  available := .inr ⟨havailable, hsource⟩
  overrides _ h := .inl (hreview ▸ h)
  resets h := by
    rw [h] at hc
    cases hc

theorem setSource_leaves (s : PublishWizardState) (connectionId schemaName : Text)
    (credsReady : Bool) : Leaves s (.setSource connectionId schemaName credsReady)
      (setSource s connectionId schemaName credsReady) := by
  rw [setSource]
  simp only
  split
  · exact ⟨id, nofun, nofun, .inl rfl, fun key h => .inl h, nofun⟩
  · rename_i hsame
    rw [Bool.or_eq_true, not_or, bne_iff_ne, bne_iff_ne, not_not, not_not] at hsame
    have hkey : sourceKey s = (some connectionId, some (toUpperCase schemaName)) :=
      Prod.ext hsame.1 hsame.2
    exact leaves_of_keeps (bne_eq_false_iff_eq.mpr hkey) rfl rfl rfl hkey.symm

theorem back_leaves (s : PublishWizardState) : Leaves s .back (back s) := by
  rw [back]
  simp only
  split
  · exact ⟨id, nofun, fun h => ⟨h, rfl⟩, .inr ⟨rfl, rfl⟩, fun key h => .inl h, nofun⟩
  · exact ⟨id, fun h => ⟨h, rfl⟩, nofun, .inr ⟨rfl, rfl⟩, fun key h => .inl h, nofun⟩
  · exact leaves_of_keeps rfl rfl rfl rfl rfl
  · exact leaves_of_keeps rfl rfl rfl rfl rfl

theorem setPiiOverride_leaves (s : PublishWizardState) (table column mask : Text) :
    Leaves s (.setPiiOverride table column mask) (setPiiOverride s table column mask) := by
  refine ⟨id, fun h => ⟨h, rfl⟩, fun h => ⟨h, rfl⟩, .inr ⟨rfl, rfl⟩, fun key h => ?_, nofun⟩
  by_cases hk : key = overrideKey table column
  · exact .inr ⟨table, column, mask, rfl, hk⟩
  · rw [setPiiOverride, entryOf_setEntry_ne hk] at h
    exact .inl h

theorem reset_leaves (s : PublishWizardState) : Leaves s .reset reset := by
  have hreview : reset.review = {} := rfl
  have hplsql : reset.plsql = {} := rfl
  refine ⟨fun _ => rfl, fun h => ?_, fun h => ?_, .inl rfl, fun key h => ?_, fun _ => rfl⟩
  · rw [hreview] at h
    cases h
  · rw [hplsql] at h
    cases h
  · rw [hreview] at h
    cases h

/-- **What every operation leaves.** -/
theorem apply_leaves (s : PublishWizardState) (o : WizardOp) : Leaves s o (o.apply s) := by
  cases o with
  | back => exact back_leaves s
  | setSource connectionId schemaName credsReady => exact setSource_leaves s _ _ _
  | setPiiOverride table column mask => exact setPiiOverride_leaves s table column mask
  | reset => exact reset_leaves s
  | next =>
    rw [WizardOp.apply, next]
    split <;> exact leaves_of_keeps rfl rfl rfl rfl rfl
  | addExplicitTable name =>
    rw [WizardOp.apply, addExplicitTable]
    simp only
    split <;> exact leaves_of_keeps rfl rfl rfl rfl rfl
  | addRecipient chip =>
    rw [WizardOp.apply, addRecipient]
    split <;> exact leaves_of_keeps rfl rfl rfl rfl rfl
  | _ => exact leaves_of_keeps rfl rfl rfl rfl rfl

/-- How an operation comes to a step, and what it leaves of the objects discovered. -/
structure Arrives (s : PublishWizardState) (o : WizardOp) (s' : PublishWizardState) : Prop where
  late : afterReview s'.currentStep = true →
    afterReview s.currentStep = true ∨ o = .next ∧ s.review.dryRunStatus = .ok
  last : s'.currentStep = .publish → s.currentStep = .publish ∨
    o = .next ∧ (s.plsql.discoveryStatus = .ok ∨ s.plsql.discovered = [])
  discovered : s'.plsql.discovered = [] ∨ s'.plsql.discovered = s.plsql.discovered

theorem arrives_of_stays {s s' : PublishWizardState} {o : WizardOp}
    (hstep : s'.currentStep = s.currentStep)
    (hdiscovered : s'.plsql.discovered = [] ∨ s'.plsql.discovered = s.plsql.discovered) :
    Arrives s o s' where
  late h := .inl (hstep ▸ h)
  last h := .inl (hstep ▸ h)
  discovered := hdiscovered

theorem next_arrives (s : PublishWizardState) : Arrives s .next (next s) := by
  rw [next]
  split
  · rename_i hcan
    rw [canAdvance] at hcan
    refine ⟨fun h => ?_, fun h => ?_, .inr rfl⟩
    · revert h hcan
      cases s.currentStep <;> simp [WizardStep.succ, afterReview]
    · revert h hcan
      cases s.currentStep <;> simp [WizardStep.succ]
  · exact arrives_of_stays rfl (.inr rfl)

theorem back_arrives (s : PublishWizardState) : Arrives s .back (back s) := by
  have hstep : (back s).currentStep = s.currentStep.pred := by
    rw [back]
    cases s.currentStep <;> rfl
  refine ⟨fun h => ?_, fun h => ?_, ?_⟩
  · rw [hstep] at h
    revert h
    cases s.currentStep <;> simp [WizardStep.pred, afterReview]
  · rw [hstep] at h
    revert h
    cases s.currentStep <;> simp [WizardStep.pred]
  · rw [back]
    cases s.currentStep
    case plsql => exact .inl rfl
    all_goals exact .inr rfl

/-- **How every operation comes to a step.** -/
theorem apply_arrives (s : PublishWizardState) (o : WizardOp) : Arrives s o (o.apply s) := by
  cases o with
  | next => exact next_arrives s
  | back => exact back_arrives s
  | backToTables => exact ⟨nofun, nofun, .inr rfl⟩
  | reset => exact ⟨nofun, nofun, .inl rfl⟩
  | setSource connectionId schemaName credsReady =>
    rw [WizardOp.apply, setSource]
    simp only
    split
    · exact arrives_of_stays rfl (.inl rfl)
    · exact arrives_of_stays rfl (.inr rfl)
  | addExplicitTable name =>
    rw [WizardOp.apply, addExplicitTable]
    simp only
    split <;> exact arrives_of_stays rfl (.inr rfl)
  | addRecipient chip =>
    rw [WizardOp.apply, addRecipient]
    split <;> exact arrives_of_stays rfl (.inr rfl)
  | _ => exact arrives_of_stays rfl (.inr rfl)

theorem reviewInput_next (s : PublishWizardState) : reviewInput (next s) = reviewInput s := by
  rw [next]
  split <;> rfl

theorem discoveryInput_next (s : PublishWizardState) :
    discoveryInput (next s) = discoveryInput s := by
  rw [next]
  split <;> rfl

/-! ## 6. The invariant -/

/-- What every orderly run keeps: every answer that is waited for, and all that was gathered, is for
    what is chosen now. -/
structure World.Inv (w : World) : Prop where
  tokens : ∀ d ∈ w.dryRuns, d.myToken ≤ w.dryRunToken d.component
  live : ∀ d ∈ w.dryRuns, w.Live d → d.input = reviewInput w.wizard
  suggestions : w.wizard.review.dryRunStatus = .ok →
    w.suggestionsFor = some (reviewInput w.wizard)
  sizes : w.wizard.review.dryRunStatus = .ok → ∃ listed,
    w.sizesFor = some (reviewInput w.wizard, listed) ∧
      (listed = none ∨ listed = some (sourceKey w.wizard))
  overrides : ∀ key, (entryOf w.wizard.review.piiOverrides key).isSome →
    entryOf w.overridesFor key = some (reviewInput w.wizard)
  flags : w.wizard.review.flaggedManually = []
  discoveries : ∀ d ∈ w.discoveries, d = discoveryInput w.wizard
  discovery : w.wizard.plsql.discoveryStatus = .ok →
    w.discoveryFor = some (discoveryInput w.wizard)
  listing : w.wizard.tables.available = [] ∨ w.availableFor = some (sourceKey w.wizard)
  later : afterReview w.wizard.currentStep = true → w.suggestionsFor = some (reviewInput w.wizard) ∧
    ∃ listed, w.sizesFor = some (reviewInput w.wizard, listed) ∧
      (listed = none ∨ listed = some (sourceKey w.wizard))
  last : w.wizard.currentStep = .publish →
    w.wizard.plsql.discovered = [] ∨ w.discoveryFor = some (discoveryInput w.wizard)

theorem World.Inv.fresh {w : World} (h : w.Inv) : w.Fresh where
  suggestions := h.suggestions
  sizes := h.sizes
  overrides _ := h.overrides
  flags := h.flags
  discovery := h.discovery

theorem World.Inv.ready {w : World} (h : w.Inv) (hstep : w.wizard.currentStep = .publish) :
    w.Ready where
  suggestions := (h.later (by rw [hstep]; rfl)).1
  sizes := (h.later (by rw [hstep]; rfl)).2
  overrides := h.overrides
  flags := h.flags
  discovery := h.last hstep

theorem inv_start : World.Inv {} where
  tokens := nofun
  live := nofun
  suggestions := nofun
  sizes := nofun
  overrides _ h := absurd h nofun
  flags := rfl
  discoveries := nofun
  discovery := nofun
  listing := .inl rfl
  later := nofun
  last := nofun

variable {w : World}

theorem listed_cases (h : w.Inv) : w.listed = none ∨ w.listed = some (sourceKey w.wizard) := by
  rw [World.listed]
  split
  · exact .inl rfl
  · rename_i hne
    exact .inr (h.listing.resolve_left fun he => hne (List.isEmpty_iff.mpr he))

theorem entryOf_operate {o : WizardOp} {key : Text}
    (h : ∀ table column mask, o = .setPiiOverride table column mask → key ≠ overrideKey table column) :
    entryOf (w.operate o).overridesFor key = entryOf w.overridesFor key := by
  cases o with
  | setPiiOverride table column mask => exact entryOf_setEntry_ne (h table column mask rfl) _ _
  | _ => rfl

/-- **An operation keeps the invariant.** -/
theorem inv_operate (h : w.Inv) {o : WizardOp} (ho : Orderly w (.operates o)) :
    (w.operate o).Inv := by
  have hl := apply_leaves w.wizard o
  have hwizard : (w.operate o).wizard = o.apply w.wizard := rfl
  -- what the operation sets is set for what was chosen before, and it changes nothing of that
  have hset : ∀ table column mask, o = .setPiiOverride table column mask →
      reviewInput (o.apply w.wizard) = reviewInput w.wizard := by
    rintro table column mask rfl
    rfl
  have ha := apply_arrives w.wizard o
  have hreview : ((w.operate o).wizard.review.dryRunStatus = .ok ∨
      (∃ d ∈ w.dryRuns, w.Live d) ∨
      (∃ key, (entryOf (w.operate o).wizard.review.piiOverrides key).isSome) ∨
      afterReview (w.operate o).wizard.currentStep = true) →
        reviewInput (o.apply w.wizard) = reviewInput w.wizard := by
    intro hcase
    by_contra hne
    obtain ⟨hlive, hstatus, hover, hearly⟩ := ho.1 hne
    rcases hcase with hok | ⟨d, hd, hdl⟩ | ⟨key, hkey⟩ | hlate
    · obtain ⟨hold, hclear⟩ := hl.dryRun hok
      rw [hclear] at hstatus
      exact hstatus.elim (fun hs => hs hold) Bool.false_ne_true
    · exact hlive d hd hdl
    · rcases hover with hnil | hreset
      · rcases hl.overrides key hkey with hold | ⟨table, column, mask, hos, -⟩
        · rw [hnil] at hold
          cases hold
        · exact hne (hset table column mask hos)
      · rw [hwizard, hl.resets hreset] at hkey
        cases hkey
    · rcases ha.late hlate with hwas | ⟨rfl, -⟩
      · rcases hearly with hearly | rfl
        · rw [hearly] at hwas
          cases hwas
        · cases hlate
      · exact hne (reviewInput_next w.wizard)
  have hdisc : ((w.operate o).wizard.plsql.discoveryStatus = .ok ∨ w.discoveries ≠ [] ∨
      (w.operate o).wizard.currentStep = .publish) →
        discoveryInput (o.apply w.wizard) = discoveryInput w.wizard := by
    intro hcase
    by_contra hne
    obtain ⟨hnone, hstatus, hearly⟩ := ho.2 hne
    rcases hcase with hok | hflight | hlast
    · obtain ⟨hold, hclear⟩ := hl.discovery hok
      rw [hclear] at hstatus
      exact hstatus.elim (fun hs => hs hold) Bool.false_ne_true
    · exact hflight hnone
    · rcases ha.last hlast with hwas | ⟨rfl, -⟩
      · rcases hearly with hearly | rfl
        · exact hearly hwas
        · cases hlast
      · exact hne (discoveryInput_next w.wizard)
  refine ⟨h.tokens, fun d hd hdl => ?_, fun hok => ?_, fun hok => ?_, fun key hkey => ?_,
    hl.flags h.flags, fun d hd => ?_, fun hok => ?_, ?_, fun hlate => ?_, fun hlast => ?_⟩
  · rw [hwizard, hreview (.inr (.inl ⟨d, hd, hdl⟩))]
    exact h.live d hd hdl
  · rw [hwizard, hreview (.inl hok)]
    exact h.suggestions (hl.dryRun hok).1
  · have hsame := hreview (.inl hok)
    have hsource : sourceKey (o.apply w.wizard) = sourceKey w.wizard :=
      congrArg ReviewInput.source hsame
    rw [hwizard, hsame, hsource]
    exact h.sizes (hl.dryRun hok).1
  · rw [hwizard, hreview (.inr (.inr (.inl ⟨key, hkey⟩)))]
    by_cases hs : ∃ table column mask, o = .setPiiOverride table column mask ∧
        key = overrideKey table column
    · obtain ⟨table, column, mask, rfl, rfl⟩ := hs
      exact entryOf_setEntry _ _ _
    · rw [entryOf_operate fun table column mask ho hk => hs ⟨table, column, mask, ho, hk⟩]
      exact h.overrides key ((hl.overrides key hkey).resolve_right hs)
  · rw [hwizard, hdisc (.inr (.inl (ne_nil_of_mem hd)))]
    exact h.discoveries d hd
  · rw [hwizard, hdisc (.inl hok)]
    exact h.discovery (hl.discovery hok).1
  · rcases hl.available with hnil | ⟨hsame, hsource⟩
    · exact .inl hnil
    · rw [hwizard, hsame, hsource]
      exact h.listing
  · have hsame := hreview (.inr (.inr (.inr hlate)))
    have hsource : sourceKey (o.apply w.wizard) = sourceKey w.wizard :=
      congrArg ReviewInput.source hsame
    rw [hwizard, hsame, hsource]
    rcases ha.late hlate with hwas | ⟨-, hok⟩
    · exact h.later hwas
    · exact ⟨h.suggestions hok, h.sizes hok⟩
  · rw [hwizard, hdisc (.inr (.inr hlast))]
    rcases ha.discovered with hnil | hsame
    · exact .inl hnil
    rw [hsame]
    rcases ha.last hlast with hwas | ⟨-, hok | hnil⟩
    · exact h.last hwas
    · exact .inr (h.discovery hok)
    · exact .inl hnil

theorem inv_runDryRun (h : w.Inv) : w.runDryRun.Inv := by
  rw [World.runDryRun]
  split
  · exact ⟨h.tokens, h.live, nofun, nofun, h.overrides, h.flags, h.discoveries, h.discovery,
      h.listing, h.later, h.last⟩
  -- the token of the component grows, so of its calls only the new one is waited for
  have htoken : ∀ d ∈ w.dryRuns, d.component = w.review →
      d.myToken < w.dryRunToken w.review + 1 := fun d hd hc =>
    Nat.lt_succ_of_le (hc ▸ h.tokens d hd)
  refine ⟨fun d hd => ?_, fun d hd hdl => ?_, nofun, nofun, h.overrides, h.flags, h.discoveries,
    h.discovery, h.listing, h.later, h.last⟩
  · rcases mem_append.mp hd with hd | hd
    · by_cases hc : d.component = w.review
      · simp only [hc, Function.update_self]
        exact (htoken d hd hc).le
      · simp only [Function.update_of_ne hc]
        exact h.tokens d hd
    · obtain rfl := mem_singleton.mp hd
      simp only [Function.update_self, le_refl]
  · rcases mem_append.mp hd with hd | hd
    · rw [World.Live] at hdl
      by_cases hc : d.component = w.review
      · simp only [hc, Function.update_self] at hdl
        exact absurd hdl (htoken d hd hc).ne
      · simp only [Function.update_of_ne hc] at hdl
        exact h.live d hd hdl
    · obtain rfl := mem_singleton.mp hd
      rfl

theorem inv_takeDryRun (h : w.Inv) {d : DryRun} (hd : w.Live d → d.input = reviewInput w.wizard)
    (reply : DryRunReply) : (w.takeDryRun d reply).Inv := by
  unfold World.takeDryRun
  split
  · rename_i hlive
    cases reply with
    | error message =>
      exact ⟨h.tokens, h.live, nofun, nofun, h.overrides, h.flags, h.discoveries, h.discovery,
        h.listing, h.later, h.last⟩
    | noDone =>
      exact ⟨h.tokens, h.live, nofun, nofun, h.overrides, h.flags, h.discoveries, h.discovery,
        h.listing, h.later, h.last⟩
    | done piiSuggestions fkClosureTables =>
      have hsizes : some (d.input, w.listed) = some (reviewInput w.wizard, w.listed) := by
        rw [hd hlive]
      exact ⟨h.tokens, h.live, fun _ => congrArg some (hd hlive),
        fun _ => ⟨w.listed, hsizes, listed_cases h⟩, h.overrides, h.flags, h.discoveries,
        h.discovery, h.listing,
        fun _ => ⟨congrArg some (hd hlive), w.listed, hsizes, listed_cases h⟩, h.last⟩
  · exact h

theorem inv_discover (h : w.Inv) : w.discover.Inv := by
  rw [World.discover]
  simp only
  split
  · exact ⟨h.tokens, h.live, h.suggestions, h.sizes, h.overrides, h.flags, h.discoveries,
      h.discovery, h.listing, h.later, h.last⟩
  split
  · exact ⟨h.tokens, h.live, h.suggestions, h.sizes, h.overrides, h.flags, h.discoveries, nofun,
      h.listing, h.later, h.last⟩
  · refine ⟨h.tokens, h.live, h.suggestions, h.sizes, h.overrides, h.flags, fun d hd => ?_, nofun,
      h.listing, h.later, h.last⟩
    rcases mem_append.mp hd with hd | hd
    · exact h.discoveries d hd
    · exact mem_singleton.mp hd

theorem inv_takeDiscovery (h : w.Inv) {d : DiscoveryInput} (hd : d = discoveryInput w.wizard)
    (reply : DiscoveryReply) : (w.takeDiscovery d reply).Inv := by
  cases reply with
  | error message =>
    exact ⟨h.tokens, h.live, h.suggestions, h.sizes, h.overrides, h.flags, h.discoveries, nofun,
      h.listing, h.later, h.last⟩
  | done objects bytes =>
    exact ⟨h.tokens, h.live, h.suggestions, h.sizes, h.overrides, h.flags, h.discoveries,
      fun _ => congrArg some hd, h.listing, h.later, fun _ => .inr (congrArg some hd)⟩

/-- **An orderly step keeps the invariant.** -/
theorem inv_step {w' : World} (h : w.Inv) {e : Event} (hs : step w e = some w')
    (ho : Orderly w e) : w'.Inv := by
  cases e with
  | operates o =>
    rw [step] at hs
    split at hs
    · obtain rfl := Option.some.inj hs
      exact inv_operate h ho
    · cases hs
  | runsDryRun =>
    rw [step] at hs
    split at hs
    · obtain rfl := Option.some.inj hs
      exact inv_runDryRun h
    · cases hs
  | dryRunReplies i reply =>
    obtain ⟨d, hd, rfl⟩ := Option.map_eq_some_iff.mp hs
    have h' : World.Inv { w with dryRuns := w.dryRuns.eraseIdx i } :=
      ⟨fun x hx => h.tokens x (mem_of_mem_eraseIdx hx),
        fun x hx => h.live x (mem_of_mem_eraseIdx hx), h.suggestions, h.sizes, h.overrides,
        h.flags, h.discoveries, h.discovery, h.listing, h.later, h.last⟩
    exact inv_takeDryRun h' (h.live d (mem_of_getElem? hd)) reply
  | discovers =>
    rw [step] at hs
    split at hs
    · obtain rfl := Option.some.inj hs
      exact inv_discover h
    · cases hs
  | discoveryReplies i reply =>
    obtain ⟨d, hd, rfl⟩ := Option.map_eq_some_iff.mp hs
    have h' : World.Inv { w with discoveries := w.discoveries.eraseIdx i } :=
      ⟨h.tokens, h.live, h.suggestions, h.sizes, h.overrides, h.flags,
        fun x hx => h.discoveries x (mem_of_mem_eraseIdx hx), h.discovery, h.listing, h.later,
        h.last⟩
    exact inv_takeDiscovery h' (h.discoveries d (mem_of_getElem? hd)) reply
  | lists =>
    rw [step] at hs
    split at hs
    · obtain rfl := Option.some.inj hs
      exact ⟨h.tokens, h.live, h.suggestions, h.sizes, h.overrides, h.flags, h.discoveries,
        h.discovery, h.listing, h.later, h.last⟩
    · cases hs
  | listingReplies i tables =>
    obtain ⟨key, hkey, rfl⟩ := Option.map_eq_some_iff.mp hs
    refine ⟨h.tokens, h.live, h.suggestions, h.sizes, h.overrides, h.flags, h.discoveries,
      h.discovery, .inr (congrArg some ?_), h.later, h.last⟩
    have hall : (w.listings[i]?.all fun key => key == sourceKey w.wizard) = true := ho
    rw [hkey, Option.all_some, beq_iff_eq] at hall
    exact hall

/-- **In an orderly run the review is fresh in every state that is reached, and the last step is
    reached only with what was gathered for what it will publish.** -/
theorem orderly_fresh (w : World) (h : Reached Orderly w) :
    w.Fresh ∧ (w.wizard.currentStep = .publish → w.Ready) := by
  have hinv : w.Inv := Runs.inv h inv_start fun _ _ _ hi hs ho => inv_step hi hs ho
  exact ⟨hinv.fresh, hinv.ready⟩

/-! ## 7. Runs to try it with -/

/-- From the first step to the last: the table `T`, its mask chosen in the review. -/
def toPublish : List Event :=
  [.operates (.setSource "c".toList "S".toList true), .operates .next, .lists,
    .listingReplies 0 [⟨"T".toList, some 10, some 100⟩], .operates (.addExplicitTable "T".toList),
    .operates .next, .operates (.setSpec (some "s".toList) none none), .operates .next,
    .runsDryRun, .dryRunReplies 0 (.done [] ["T".toList]),
    .operates (.setPiiOverride "T".toList "EMAIL".toList "FULL".toList), .operates .next,
    .discovers, .discoveryReplies 0 (.done [] 0), .operates .next]

theorem toPublish_orderly :
    ∃ w ∈ toPublish.foldlM (fun w e => if Orderly w e then step w e else none) ({} : World),
      w.wizard.currentStep = .publish ∧ w.wizard.review.dryRunStatus = .ok := by
  decide

theorem orderly_fresh_once : ∃ w : World, w.wizard.currentStep = .publish ∧
    w.wizard.review.dryRunStatus = .ok ∧ w.Fresh ∧ w.Ready := by
  obtain ⟨w, hw, hstep, hok⟩ := toPublish_orderly
  obtain ⟨hfresh, hready⟩ := orderly_fresh w (Runs.exec toPublish .start hw)
  exact ⟨w, hstep, hok, hfresh, hready hstep⟩

/-- The publish fails, the user goes back to the tables, adds `U`, and goes forward again: neither
    the dry run nor the discovery is done again. -/
def backAndForth : List Event :=
  toPublish ++ [.operates (.setPublishPhase .error none), .operates .backToTables,
    .operates (.addExplicitTable "U".toList), .operates .next, .operates .next, .operates .next,
    .discovers, .operates .next]

theorem backAndForth_run :
    ∃ w ∈ backAndForth.foldlM (fun w e => if True then step w e else none) ({} : World),
      w.wizard.currentStep = .publish ∧ w.wizard.review.dryRunStatus = .ok ∧
      w.suggestionsFor.map ReviewInput.tables = some ["T".toList] ∧
      (reviewInput w.wizard).tables = ["T".toList, "U".toList] := by
  decide

/-- **The last step is reached with the review of another selection.** -/
theorem stale_published : ∃ w, Reached (fun _ _ => True) w ∧ w.wizard.currentStep = .publish ∧
    w.wizard.review.dryRunStatus = .ok ∧ w.suggestionsFor.map ReviewInput.tables = some ["T".toList] ∧
    (reviewInput w.wizard).tables = ["T".toList, "U".toList] ∧ ¬ w.Fresh ∧ ¬ w.Ready := by
  obtain ⟨w, hw, hstep, hok, hfor, hnow⟩ := backAndForth_run
  have hstale : w.suggestionsFor ≠ some (reviewInput w.wizard) := by
    intro hsame
    rw [hsame, Option.map_some, hnow] at hfor
    exact absurd hfor (by decide)
  exact ⟨w, Runs.exec backAndForth .start hw, hstep, hok, hfor, hnow,
    fun hfresh => hstale (hfresh.suggestions hok), fun hready => hstale hready.suggestions⟩

end Veesker.Wizard
