/-
  File:      Veesker/Wizard/Publish.lean
  Subject:   WHAT THE WIZARD PUBLISHES (src/lib/workspace/publish/PublishStepPublish.svelte): the
             build it asks for and the commands it sends, against the selection it was shown.

  The build is asked for with the tables that were picked and the depth; exclusions, tables added by
  hand and mask overrides are no part of the request.

  * **`publishes_selection_iff`**: the selection is what is published exactly where nothing that was
    picked or found is excluded, what was added by hand is there anyway, the chosen masks change
    nothing, and no sandbox is republished.
-/
import Veesker.Wizard.Store
import Veesker.Sandbox.Masks

namespace Veesker.Wizard

open Format Vsk Sandbox Sidecar

/-! ## 1. The publish step -/

/-- `PublishSandboxArgs`, as the wizard fills them; its `specJson` has schema, tables and level. -/
structure PublishSandboxArgs where
  outPath : Text
  sandboxName : Text
  ttlDays : Int
  memberUserIds : List Text
  schemaName : Text
  tables : List EffectiveTable
  piiLevel : Int
  deriving DecidableEq

/-- A command to the cloud. -/
inductive CloudCommand where
  | sandbox_publish (args : PublishSandboxArgs)
  | sandbox_republish (sandboxId : Text)
  | sandbox_grant (sandboxId newMemberUserId : Text)
  deriving DecidableEq

section

variable (state : PublishWizardState)

/-- What `runBuildPhase` asks for; path and account are filled in on the way to the sidecar. -/
def buildRequest (ownerAccount outPath : Text) : Option SandboxBuildSpec :=
  match state.source.connectionId, state.source.schemaName with
  | some conn, some schema =>
    if conn.isEmpty || schema.isEmpty then none
    else some {
      connectionId := conn
      schemaName := schema
      sandboxName := state.spec.sandboxName
      ttlDays := state.spec.ttlDays
      piiLevel := state.spec.piiLevel
      ownerAccount := some ownerAccount
      primaryTables := state.tables.explicit
      fkWalkDepth := some state.tables.fkDepth
      dryRun := false
      outPath := some outPath
      excludedPlsql := getEffectiveExcludedPlsql state }
  | _, _ => none

def publishArgs (outPath schema : Text) : PublishSandboxArgs where
  outPath
  sandboxName := state.spec.sandboxName
  ttlDays := state.spec.ttlDays
  memberUserIds := state.spec.recipients.filterMap RecipientChip.userId
  schemaName := schema
  tables := effectiveTables state
  piiLevel := state.spec.piiLevel

/-- The commands of `runPublishPhase`, where `sandbox_publish` answers with an identity or fails. -/
def publishCommands (outPath : Text) (answer : PublishSandboxArgs → Option Text) :
    List CloudCommand :=
  match state.source.schemaName with
  | none => []
  | some schema =>
    if schema.isEmpty then []
    else
      let args := publishArgs state outPath schema
      .sandbox_publish args :: match answer args with
        | none => []
        | some sandboxId => args.memberUserIds.filterMap fun userId =>
          if userId.isEmpty then none else some (.sandbox_grant sandboxId userId)

end

/-! ## 2. What it should publish -/

section

variable (choice : Text → Value → Value) (state : PublishWizardState) (env : BuildEnv)
  (spec : SandboxBuildSpec)

/-- What a build packed and the commands that followed are what the user selected, where `choice m`
    is what the mask `m` makes of a value. -/
structure PublishesSelection (p : Packed) (commands : List CloudCommand) : Prop where
  tables : ∀ t, t ∈ p.manifest.tables.map ManifestTable.name ↔
    t ∈ (effectiveTables state).map EffectiveTable.name
  masks : ∀ table column mask cols rows, table ∈ p.manifest.tables.map ManifestTable.name →
    entryOf state.review.piiOverrides (overrideKey table column) = some mask →
    env.introspect spec.schemaName table = .ok cols → column ∈ cols.map ColumnMeta.name →
    rowsOf env spec table = .ok rows →
      packedValues (stagedStatements p.manifest p.rowsByTable p.plsql) table column =
        rows.map fun row => choice mask (cell row column)
  republish : state.mode = .republish → ∃ id, state.republishingSandboxId = some id ∧
    .sandbox_republish id ∈ commands ∧ ∀ args, .sandbox_publish args ∉ commands

/-- A table that was picked, or that the closure lists. -/
def Walked (t : Text) : Prop :=
  t ∈ state.tables.explicit.map PrimaryTableSpec.name ∨
    ∃ e ∈ state.tables.fkClosure, e.name = t

/-- **The condition**: what the request leaves out makes no difference. -/
structure RequestSuffices : Prop where
  excluded : ∀ t ∈ state.tables.excluded, ¬ Walked state t
  manual : ∀ t ∈ state.tables.manual, t ∉ state.tables.excluded → Walked state t
  masks : ∀ table column mask cols rows, Walked state table →
    entryOf state.review.piiOverrides (overrideKey table column) = some mask →
    env.introspect spec.schemaName table = .ok cols → column ∈ cols.map ColumnMeta.name →
    rowsOf env spec table = .ok rows → ∀ row ∈ rows,
      storedValue (cell row column) = choice mask (cell row column)
  create : state.mode = .create

end

section

variable {state : PublishWizardState} {ownerAccount outPath : Text} {spec : SandboxBuildSpec}

theorem buildRequest_eq (h : buildRequest state ownerAccount outPath = some spec) :
    state.source.schemaName = some spec.schemaName ∧ spec.dryRun = false ∧
      primaryNames spec = state.tables.explicit.map PrimaryTableSpec.name ∧
      walkDepth spec = state.tables.fkDepth.toNat := by
  rw [buildRequest] at h
  split at h
  · rename_i hs
    split at h
    · cases h
    · cases h
      exact ⟨hs, rfl, rfl, rfl⟩
  · cases h

/-- The commands never republish. -/
theorem not_republish (path : Text) (answer : PublishSandboxArgs → Option Text) (id : Text) :
    CloudCommand.sandbox_republish id ∉ publishCommands state path answer := by
  rw [publishCommands]
  split
  · exact List.not_mem_nil
  · split
    · exact List.not_mem_nil
    · intro h
      rcases List.mem_cons.mp h with h | h
      · cases h
      · split at h
        · cases h
        · obtain ⟨userId, -, h⟩ := List.mem_filterMap.mp h
          split at h <;> cases h

/-- **The tables a build packs are those that were picked and those of the closure**, where the walk
    finds the closure the wizard was shown. -/
theorem packed_walked (h : buildRequest state ownerAccount outPath = some spec) {env : BuildEnv}
    {localeCompare : Text → Text → Ordering} {closure : FkClosureResult}
    (hclosure : computeFkClosure localeCompare spec.schemaName
      (state.tables.explicit.map PrimaryTableSpec.name) state.tables.fkDepth.toNat env.fkSingleHop =
        .ok closure)
    (hshown : state.tables.fkClosure = closure.entries) {arrays : Arrays} {b : Built} {p : Packed}
    (hb : buildSandbox env spec arrays = .ok b) (hp : b.packed = some p) (t : Text) :
    t ∈ p.manifest.tables.map ManifestTable.name ↔ Walked state t := by
  obtain ⟨-, -, hprimary, hdepth⟩ := buildRequest_eq h
  obtain ⟨r, hr, hnames⟩ := packed_tables hb hp
  obtain ⟨r', hr', hperm, -⟩ := closure_names localeCompare hclosure
  rw [hprimary, hdepth] at hr
  obtain rfl := Except.ok.inj (hr.symm.trans hr')
  have hmem : t ∈ r.tablesIncluded ↔ ∃ e ∈ state.tables.fkClosure, e.name = t := by
    rw [← hperm.mem_iff, hshown, List.mem_map]
  rw [hnames, Walked]
  exact ⟨fun ht => .inr (hmem.mp ht),
    fun ht => ht.elim (fun hx => (walkFkBfs_ok hr).2.1 t hx) hmem.mpr⟩

/-- Every table that is shown was picked, found or added. -/
theorem effective_walked {closure : FkClosureResult} {owner : Text} {singleHop : FkSingleHopFn}
    {localeCompare : Text → Text → Ordering} {maxDepth : Nat}
    (hclosure : computeFkClosure localeCompare owner
      (state.tables.explicit.map PrimaryTableSpec.name) maxDepth singleHop = .ok closure)
    (hshown : state.tables.fkClosure = closure.entries) (t : Text) :
    t ∈ (effectiveTables state).map EffectiveTable.name ↔
      t ∉ state.tables.excluded ∧ (Walked state t ∨ t ∈ state.tables.manual) := by
  obtain ⟨r, hr, -, hdepth⟩ := closure_names localeCompare hclosure
  rw [mem_effectiveTables, Walked, or_assoc]
  refine and_congr_right fun _ => ?_
  constructor
  · rintro (h | ⟨e, he, -, hn⟩ | h)
    · exact .inl h
    · exact .inr (.inl ⟨e, he, hn⟩)
    · exact .inr (.inr h)
  · rintro (h | ⟨e, he, rfl⟩ | h)
    · exact .inl h
    · -- an entry of depth 0 is a table that was picked
      by_cases hd : e.depth = 0
      · exact .inl ((hdepth e (hshown ▸ he)).mp hd)
      · exact .inr (.inl ⟨e, he, hd, rfl⟩)
    · exact .inr (.inr h)

end

/-! ## 3. When it does -/

/-- **The selection is published exactly where the request suffices.** The build is the one the
    wizard asks for, its walk finds the closure the wizard was shown, and the commands are those that
    follow. -/
theorem publishes_selection_iff {σ ν : Type} {N : Runtime ν} {S : Sodium} {D : DuckDBHost σ}
    {tables : σ → List Text} (hD : Catalogue D tables) {env : BuildEnv} {blobNonce : S.blob.Nonce}
    (henv : env.writeEncryptedVskAt = writeStaged N S D blobNonce) (choice : Text → Value → Value)
    (state : PublishWizardState) (ownerAccount outPath : Text) (spec : SandboxBuildSpec)
    (hspec : buildRequest state ownerAccount outPath = some spec)
    (localeCompare : Text → Text → Ordering) (closure : FkClosureResult)
    (hclosure : computeFkClosure localeCompare spec.schemaName
      (state.tables.explicit.map PrimaryTableSpec.name) state.tables.fkDepth.toNat env.fkSingleHop =
        .ok closure)
    (hshown : state.tables.fkClosure = closure.entries) (arrays : Arrays) (b : Built) (p : Packed)
    (hb : buildSandbox env spec arrays = .ok b) (hp : b.packed = some p)
    (answer : PublishSandboxArgs → Option Text) :
    PublishesSelection choice state env spec p (publishCommands state b.result.outPath answer) ↔
      RequestSuffices choice state env spec := by
  have hpacked := packed_walked hspec hclosure hshown hb hp
  have hshows := effective_walked hclosure hshown
  constructor
  · intro h
    have htables : ∀ t, Walked state t ↔
        t ∉ state.tables.excluded ∧ (Walked state t ∨ t ∈ state.tables.manual) := fun t =>
      (hpacked t).symm.trans ((h.tables t).trans (hshows t))
    refine ⟨fun t hx hw => ((htables t).mp hw).1 hx, fun t hm hx => (htables t).mpr ⟨hx, .inr hm⟩,
      ?_, ?_⟩
    · intro table column mask cols rows hw ho hi hcol hrows row hrow
      have ht := (hpacked table).mpr hw
      have heq := (packedValues_built hD henv hb hp ht hi hcol hrows).symm.trans
        (h.masks table column mask cols rows ht ho hi hcol hrows)
      exact List.map_inj_left.mp heq row hrow
    · cases hmode : state.mode with
      | create => rfl
      | republish =>
        obtain ⟨id, -, hid, -⟩ := h.republish hmode
        exact absurd hid (not_republish _ answer id)
  · intro h
    refine ⟨fun t => ?_, ?_, ?_⟩
    · rw [hpacked, hshows]
      constructor
      · exact fun hw => ⟨fun hx => h.excluded t hx hw, .inl hw⟩
      · exact fun ⟨hx, hw⟩ => hw.elim id fun hm => h.manual t hm hx
    · intro table column mask cols rows ht ho hi hcol hrows
      rw [packedValues_built hD henv hb hp ht hi hcol hrows]
      exact List.map_inj_left.mpr fun row hrow =>
        h.masks table column mask cols rows ((hpacked table).mp ht) ho hi hcol hrows row hrow
    · intro hmode
      rw [h.create] at hmode
      cases hmode

/-! ## 4. A table added by hand -/

/-- The wizard at its last step: the table `T` was picked, and `U` added by hand. -/
def manualState : PublishWizardState :=
  let s := next (setSource {} "c".toList "S".toList true)
  let s := applyFkClosure (addExplicitTable s "T".toList) ⟨[⟨"T".toList, 0, none⟩], []⟩
  let s := next (addManual s "U".toList)
  let s := next (setSpec s (some "s".toList) none none)
  next (setPlsqlDiscovery (next (setDryRunStatus s .ok)) [] 0)

def manualSpec : SandboxBuildSpec := { addressSpec with fkWalkDepth := some 2 }

theorem manualState_request : manualState.currentStep = .publish ∧
    buildRequest manualState "o".toList "p".toList = some manualSpec := by
  decide

def manualPacked : Option Packed :=
  (buildSandbox addressEnv manualSpec []).toOption.bind Built.packed

theorem manualPacked_tables : manualPacked.map (fun p => p.manifest.tables.map ManifestTable.name) =
    some ["T".toList] := by
  decide +kernel

theorem manualPacked_some : ∃ b p, buildSandbox addressEnv manualSpec [] = .ok b ∧
    b.packed = some p ∧ p.manifest.tables.map ManifestTable.name = ["T".toList] := by
  have h := manualPacked_tables
  rw [manualPacked] at h
  cases hb : buildSandbox addressEnv manualSpec [] with
  | error e =>
    rw [hb] at h
    cases h
  | ok b =>
    obtain ⟨p, hp⟩ := packed_of_buildSandbox rfl hb
    rw [hb, show (Except.ok b : Except Failure Built).toOption = some b from rfl, Option.bind_some,
      hp, Option.map_some, Option.some.injEq] at h
    exact ⟨b, p, rfl, hp, h⟩

/-- The closure the wizard is shown is the one the walk finds. -/
theorem manual_closure : computeFkClosure (fun _ _ => .eq) manualSpec.schemaName
    (manualState.tables.explicit.map PrimaryTableSpec.name) manualState.tables.fkDepth.toNat
    addressEnv.fkSingleHop = .ok ⟨manualState.tables.fkClosure, []⟩ := by
  have h : (computeFkClosure (fun _ _ => .eq) manualSpec.schemaName
      (manualState.tables.explicit.map PrimaryTableSpec.name) manualState.tables.fkDepth.toNat
      addressEnv.fkSingleHop).toOption = some ⟨manualState.tables.fkClosure, []⟩ := by
    decide +kernel
  cases hc : computeFkClosure (fun _ _ => .eq) manualSpec.schemaName
      (manualState.tables.explicit.map PrimaryTableSpec.name) manualState.tables.fkDepth.toNat
      addressEnv.fkSingleHop with
  | error e =>
    rw [hc] at h
    cases h
  | ok c =>
    rw [hc] at h
    exact congrArg Except.ok (Option.some.inj h)

theorem publishes_selection_iff_manual : ∃ b p, buildSandbox addressEnv manualSpec [] = .ok b ∧
    b.packed = some p ∧
    (PublishesSelection (fun _ v => v) manualState addressEnv manualSpec p
      (publishCommands manualState b.result.outPath fun _ => none) ↔
      RequestSuffices (fun _ v => v) manualState addressEnv manualSpec) := by
  obtain ⟨b, p, hb, hp, -⟩ := manualPacked_some
  have henv : addressEnv.writeEncryptedVskAt =
      writeStaged natRuntime overtSodium nameHost overtDraws.blobNonce := rfl
  exact ⟨b, p, hb, hp, publishes_selection_iff nameHost_catalogue henv (fun _ v => v) manualState
    "o".toList "p".toList manualSpec manualState_request.2 (fun _ _ => .eq) _ manual_closure rfl [] b p
    hb hp fun _ => none⟩

/-- `U` is shown among the tables that go to the sandbox, and the build packs `T` alone. -/
theorem manual_not_published : manualState.currentStep = .publish ∧
    (effectiveTables manualState).map EffectiveTable.name = ["T".toList, "U".toList] ∧
    ∃ b p, buildSandbox addressEnv manualSpec [] = .ok b ∧ b.packed = some p ∧
      p.manifest.tables.map ManifestTable.name = ["T".toList] ∧
      ¬ PublishesSelection (fun _ v => v) manualState addressEnv manualSpec p
        (publishCommands manualState b.result.outPath fun _ => none) := by
  obtain ⟨b, p, hb, hp, htables⟩ := manualPacked_some
  have hshown : (effectiveTables manualState).map EffectiveTable.name =
      ["T".toList, "U".toList] := by
    decide
  refine ⟨manualState_request.1, hshown, b, p, hb, hp, htables, fun h => ?_⟩
  have hu := (h.tables "U".toList).mpr (by rw [hshown]; decide)
  rw [htables] at hu
  exact absurd hu (by decide)

end Veesker.Wizard
