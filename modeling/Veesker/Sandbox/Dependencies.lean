/-
  File:      Veesker/Sandbox/Dependencies.lean
  Subject:   WHICH DEPENDENCIES A SANDBOX CALLS INCLUDED (sidecar/src/sandbox/build.ts,
             discoverPlsql.ts `refStatus`).

  The status of a reference is settled by the names that were discovered; then objects are opted
  out of, and others dropped because their text could not be read.

  * `discoverPlsql_included` -- what is called included: tables and discovered objects, by name;
  * **`included_iff`** -- that is what the file holds if and only if every discovered object that a
    reference names is of the reference's kind, opted in and read;
  * `excluded_included` -- a reference to an object that the user opted out of.
-/
import Veesker.Sandbox.Masks

namespace Veesker.Sandbox

open Format Vsk Sidecar

/-! ## 1. What the discovery calls included -/

theorem refStatus_included {schemaUpper : Text} {includedNames : List Text}
    {d : DiscoveredDependency} : refStatus schemaUpper includedNames d = .included ↔
      d.refOwner = schemaUpper ∧ d.refName ∈ includedNames := by
  rw [refStatus]
  by_cases ho : d.refOwner = schemaUpper
  · by_cases hn : d.refName ∈ includedNames <;> simp [ho, hn]
  · simp [ho]

/-- **A reference is called included** when it names a table or an object that was discovered, in
    the schema. -/
theorem discoverPlsql_included {localeCompare : Text → Text → Ordering} {walk : DepWalkFn}
    {schema : Text} {roots : List Text} {r : DiscoverPlsqlResult}
    (h : discoverPlsql localeCompare walk schema roots = .ok r) :
    ∀ d ∈ r.dependencies, d.refStatus = .included ↔ d.refOwner = toUpperCase schema ∧
      (d.refName ∈ roots.map toUpperCase ∨ ∃ o ∈ r.objects, o.name = d.refName) := by
  obtain ⟨st, -, h⟩ := bind_ok.mp h
  cases h
  intro d hd
  obtain ⟨d0, -, rfl⟩ := List.mem_map.mp hd
  simp only [refStatus_included, List.mem_append, mem_setOf, List.mem_mergeSort, List.mem_map]

/-! ## 2. What a build packs -/

section Packing
variable {env : BuildEnv} {spec : SandboxBuildSpec} {arrays : Arrays} {b : Built} {p : Packed}

/-- The object's text can be read. -/
def Readable (env : BuildEnv) (o : DiscoveredObject) : Prop :=
  (env.extractDdl o.kind o.owner o.name).toBool = true

/-- **What of the discovery is packed**: its references as they are, and of its objects those that
    were opted in and read. -/
theorem packed_plsql (h : buildSandbox env spec arrays = .ok b) (hp : b.packed = some p) :
    ∃ s discovered, surveySandbox env spec = .ok s ∧
      discoverPlsql env.localeCompare env.discoverDependencies spec.schemaName s.tablesIncluded =
        .ok discovered ∧
      p.manifest.tables.map ManifestTable.name = s.tablesIncluded ∧
      p.plsql.dependencies = discovered.dependencies ∧
      ∀ kind owner name, (∃ row ∈ p.plsql.objectRows, row.kind = kind ∧ row.owner = owner ∧
          row.name = name) ↔
        ∃ o ∈ keptObjects spec discovered.objects, Readable env o ∧ o.kind = kind ∧
          o.owner = owner ∧ o.name = name := by
  obtain ⟨-, -, h⟩ := bind_ok.mp h
  obtain ⟨-, -, h⟩ := bind_ok.mp h
  obtain ⟨s, hs, h⟩ := bind_ok.mp h
  split at h
  · cases h
    cases hp
  · obtain ⟨rows, -, h⟩ := bind_ok.mp h
    obtain ⟨discovered, hd, h⟩ := bind_ok.mp h
    obtain ⟨⟨key, envelope, arrays'⟩, -, h⟩ := bind_ok.mp h
    obtain ⟨file, -, h⟩ := bind_ok.mp h
    cases h
    cases hp
    refine ⟨s, discovered, hs, hd, by simp [manifestOf, Function.comp_def], rfl,
      fun kind owner name => ?_⟩
    have hkept := congrArg (fun l => (kind, owner, name) ∈ l) (extractPlsqlDdl_kept env.extractDdl
      (((toISOString env.clock.ddlAt).map fun c => if c = 'T' then ' ' else c).take 19)
      (keptObjects spec discovered.objects)).1
    simpa [Readable, and_assoc] using hkept

end Packing

/-! ## 3. The result -/

/-- The table or the object that the row refers to is in the file: a table by its name, an object
    also by its kind. -/
def RefersToPacked (p : Packed) (spec : SandboxBuildSpec) (d : DiscoveredDependency) : Prop :=
  (d.refOwner = toUpperCase spec.schemaName ∧
      ∃ t ∈ p.manifest.tables, toUpperCase t.name = d.refName) ∨
    ∃ row ∈ p.plsql.objectRows, normalizeKind d.refKind = some row.kind ∧
      row.owner = d.refOwner ∧ row.name = d.refName

/-- Every discovered object that a reference in the schema names, where no table has the name, is
    of the kind that is referred to, opted in, and read. -/
def ReferencesKept (env : BuildEnv) (spec : SandboxBuildSpec) : Prop :=
  ∀ s discovered, surveySandbox env spec = .ok s →
    discoverPlsql env.localeCompare env.discoverDependencies spec.schemaName s.tablesIncluded =
      .ok discovered →
    ∀ d ∈ discovered.dependencies, d.refOwner = toUpperCase spec.schemaName →
      d.refName ∉ s.tablesIncluded.map toUpperCase →
      ∀ o ∈ discovered.objects, o.name = d.refName →
        normalizeKind d.refKind = some o.kind ∧ o ∈ keptObjects spec discovered.objects ∧
          Readable env o

/-- **The packed dependencies are called included exactly for what the file holds, if and only if
    every discovered object that a reference names is kept.** -/
theorem included_iff {env : BuildEnv} {spec : SandboxBuildSpec} {arrays : Arrays} {b : Built}
    {p : Packed} (h : buildSandbox env spec arrays = .ok b) (hp : b.packed = some p) :
    (∀ d ∈ p.plsql.dependencies, d.refStatus = .included ↔ RefersToPacked p spec d) ↔
      ReferencesKept env spec := by
  obtain ⟨s, discovered, hs, hd, htables, hdeps, hrows⟩ := packed_plsql h hp
  obtain ⟨hnames, howner⟩ := discoverPlsql_objects hd
  have hincluded := discoverPlsql_included hd
  have htable : ∀ d : DiscoveredDependency, (∃ t ∈ p.manifest.tables,
      toUpperCase t.name = d.refName) ↔ d.refName ∈ s.tablesIncluded.map toUpperCase := by
    intro d
    rw [← htables]
    simp
  rw [hdeps]
  constructor
  · intro hall s' discovered' hs' hd' d hdmem hdo hdt o ho hon
    obtain rfl := Except.ok.inj (hs.symm.trans hs')
    obtain rfl := Except.ok.inj (hd.symm.trans hd')
    have hinc := (hincluded d hdmem).mpr ⟨hdo, .inr ⟨o, ho, hon⟩⟩
    rcases (hall d hdmem).mp hinc with ⟨-, ht⟩ | ⟨row, hrow, hkind, hro, hrn⟩
    · exact absurd ((htable d).mp ht) hdt
    · obtain ⟨o', ho', hread, hk, -, hn⟩ := (hrows row.kind row.owner row.name).mp
        ⟨row, hrow, rfl, rfl, rfl⟩
      -- the two have one name
      have hsame : o' = o := List.inj_on_of_nodup_map hnames (List.mem_of_mem_filter ho') ho
        (hn.trans (hrn.trans hon.symm))
      subst hsame
      exact ⟨hk ▸ hkind, ho', hread⟩
  · intro hkept d hdmem
    rw [hincluded d hdmem, RefersToPacked, htable]
    constructor
    · rintro ⟨hdo, hname⟩
      by_cases hdt : d.refName ∈ s.tablesIncluded.map toUpperCase
      · exact .inl ⟨hdo, hdt⟩
      · obtain ⟨o, ho, hon⟩ := hname.resolve_left hdt
        obtain ⟨hkind, hin, hread⟩ := hkept s discovered hs hd d hdmem hdo hdt o ho hon
        obtain ⟨row, hrow, hrk, hro, hrn⟩ :=
          (hrows o.kind o.owner o.name).mpr ⟨o, hin, hread, rfl, rfl, rfl⟩
        exact .inr ⟨row, hrow, hrk ▸ hkind, hro.trans ((howner o ho).trans hdo.symm),
          hrn.trans hon⟩
    · rintro (⟨hdo, hdt⟩ | ⟨row, hrow, -, hro, hrn⟩)
      · exact ⟨hdo, .inl hdt⟩
      · obtain ⟨o, ho, -, -, hoo, hon⟩ := (hrows row.kind row.owner row.name).mp
          ⟨row, hrow, rfl, rfl, rfl⟩
        have hmem : o ∈ discovered.objects := List.mem_of_mem_filter ho
        exact ⟨hro.symm.trans (hoo.symm.trans (howner o hmem)), .inr ⟨o, hmem, hon.trans hrn⟩⟩

/-- A table, and a package whose body reads it and goes with its header. -/
def packageOracle : Oracle where
  columns _ _ := .ok [⟨"ID".toList, "NUMBER".toList, 22, none, none, true, 1⟩]
  foreignKeys _ _ := .ok []
  select _ := .ok []
  dependencies _ names := .ok <|
    (if "T".toList ∈ names then
      [⟨"P".toList, "PACKAGE BODY".toList, "T".toList, "S".toList, "TABLE".toList⟩] else []) ++
    (if "P".toList ∈ names then
      [⟨"P".toList, "PACKAGE BODY".toList, "P".toList, "S".toList, "PACKAGE".toList⟩] else [])
  getDdl _ _ _ := .ok (some "CREATE".toList)

def packageEnv : BuildEnv :=
  makeProductionBuildEnv natRuntime overtSodium nameHost packageOracle (.ok ()) overtKeyring none
    overtDraws (fun _ _ => .eq) ⟨0, 0, 0⟩

/-- The user opts out of the package. -/
def packageSpec : SandboxBuildSpec :=
  { addressSpec with
    piiLevel := 0
    excludedPlsql := [⟨"PACKAGE".toList, "S".toList, "P".toList⟩] }

/-- The reference of the body to the header. -/
def bodyReference : DiscoveredDependency :=
  ⟨.package, "S".toList, "P".toList, "PACKAGE".toList, "S".toList, "P".toList, .included⟩

def packagePacked : Option Packed :=
  (buildSandbox packageEnv packageSpec []).toOption.bind Built.packed

theorem packagePacked_eq : (packagePacked.map fun p => (p.plsql.dependencies.contains bodyReference,
    p.plsql.objectRows, p.manifest.tables.map ManifestTable.name)) =
      some (true, [], ["T".toList]) := by
  decide +kernel

theorem packagePacked_some : ∃ b p, buildSandbox packageEnv packageSpec [] = .ok b ∧
    b.packed = some p ∧ bodyReference ∈ p.plsql.dependencies ∧ p.plsql.objectRows = [] ∧
    p.manifest.tables.map ManifestTable.name = ["T".toList] := by
  obtain ⟨p, hp, h⟩ := Option.map_eq_some_iff.mp packagePacked_eq
  obtain ⟨hdep, h⟩ := Prod.mk.inj h
  obtain ⟨hrows, htables⟩ := Prod.mk.inj h
  obtain ⟨b, hb, hpacked⟩ := Option.bind_eq_some_iff.mp hp
  cases hbuild : buildSandbox packageEnv packageSpec [] with
  | error e =>
    rw [hbuild] at hb
    cases hb
  | ok b' =>
    rw [hbuild] at hb
    obtain rfl := Option.some.inj hb
    exact ⟨b', p, rfl, hpacked, List.contains_iff_mem.mp hdep, hrows, htables⟩

theorem included_iff_package : ∃ b p, buildSandbox packageEnv packageSpec [] = .ok b ∧
    b.packed = some p ∧
    ((∀ d ∈ p.plsql.dependencies, d.refStatus = .included ↔ RefersToPacked p packageSpec d) ↔
      ReferencesKept packageEnv packageSpec) := by
  obtain ⟨b, p, hb, hp, -⟩ := packagePacked_some
  exact ⟨b, p, hb, hp, included_iff hb hp⟩

/-- The package is called included, and it is not in the file. -/
theorem excluded_included : ∃ b p, buildSandbox packageEnv packageSpec [] = .ok b ∧
    b.packed = some p ∧
    ¬ ∀ d ∈ p.plsql.dependencies, d.refStatus = .included ↔ RefersToPacked p packageSpec d := by
  obtain ⟨b, p, hb, hp, hdep, hrows, htables⟩ := packagePacked_some
  refine ⟨b, p, hb, hp, fun h => ?_⟩
  rcases (h bodyReference hdep).mp rfl with ⟨-, t, ht, hname⟩ | ⟨row, hrow, -⟩
  · have hmem := List.mem_map_of_mem (f := ManifestTable.name) ht
    rw [htables, List.mem_singleton] at hmem
    rw [hmem] at hname
    exact absurd hname (by decide)
  · rw [hrows] at hrow
    exact absurd hrow List.not_mem_nil

end Veesker.Sandbox
