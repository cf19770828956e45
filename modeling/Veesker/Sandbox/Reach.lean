/-
  File:      Veesker/Sandbox/Reach.lean
  Subject:   WHAT THE DISCOVERY FINDS (sidecar/src/sandbox/discoverPlsql.ts, oracle-source.ts
             `discoverDependenciesOnce`), against what depends on the tables.

  A dependency names a kind and a name on both sides. The walk keeps the names: its frontier, the
  key of `discovered` and the signature of an edge hold no kind.

  * `discoverLevels_after` -- what every number of rounds has found: by names, exactly;
  * **`exact_iff`** -- that is what depends on the tables, each object and each dependency once, if
    and only if no name stands for two things;
  * `same_name` -- a trigger and a procedure with one name.
-/
import Veesker.Run.Hops
import Veesker.Text.UpperTwice
import Veesker.Sandbox.Plsql
import Veesker.Text.Cut

namespace Veesker.Sandbox

open Format Vsk Sidecar Run List

/-! ## 1. The catalogue -/

/-- What a dependency can lead to or from. -/
inductive Node where
  | table (name : Text)
  | object (kind : ObjectKind) (name : Text)
  deriving DecidableEq

def Node.name : Node → Text
  | .table name => name
  | .object _ name => name

/-- What a row refers to. -/
def referencedNode (e : DependencyEdge) : Option Node :=
  if toUpperCase e.referencedType = "TABLE".toList then some (.table e.referencedName)
  else (normalizeKind e.referencedType).map fun kind => .object kind e.referencedName

variable {e : DependencyEdge}

theorem referencedNode_name {a : Node} (h : referencedNode e = some a) :
    a.name = e.referencedName := by
  rw [referencedNode] at h
  split at h
  · obtain rfl := Option.some.inj h
    rfl
  · obtain ⟨kind, -, rfl⟩ := Option.map_eq_some_iff.mp h
    rfl

/-- `normalizeKind` reads a type in upper case. -/
theorem normalizeKind_congr {t u : Text} (h : toUpperCase t = toUpperCase u) :
    normalizeKind t = normalizeKind u := by
  rw [normalizeKind, normalizeKind, h]

section Catalogue

-- the rows of `all_dependencies`, the schema in upper case, the tables of the start
variable (catalogue : List DependencyEdge) (schemaUpper : Text) (roots : List Text)

/-- The rows about PL/SQL objects that depend on something in the schema. -/
def OfSchema (e : DependencyEdge) : Prop :=
  e ∈ catalogue ∧ e.referencedOwner = schemaUpper ∧ (normalizeKind e.type).isSome

/-- `b` depends on `a`. -/
def DependsOn (a b : Node) : Prop :=
  ∃ e kind, OfSchema catalogue schemaUpper e ∧ referencedNode e = some a ∧
    normalizeKind e.type = some kind ∧ b = .object kind e.name

def SeedTable (a : Node) : Prop := ∃ t ∈ roots, a = .table (toUpperCase t)

/-- An object that depends on the tables through at most `MAX_DEPTH` others. -/
def ReachedObject (kind : ObjectKind) (name : Text) : Prop :=
  Nearer (SeedTable roots) (DependsOn catalogue schemaUpper) (MAX_DEPTH + 1) (.object kind name)

/-- A row that leads on from what is visited. -/
def VisitedRow (e : DependencyEdge) : Prop :=
  OfSchema catalogue schemaUpper e ∧ ∃ a, referencedNode e = some a ∧
    Nearer (SeedTable roots) (DependsOn catalogue schemaUpper) MAX_DEPTH a

/-- What `walk` answers: the rows that refer to one of the names, in any order. -/
def Answers (walk : DepWalkFn) : Prop :=
  ∀ names, ∃ edges, walk schemaUpper names = .ok edges ∧
    edges.Perm (catalogue.filter fun e =>
      e.referencedOwner = schemaUpper ∧ names.contains e.referencedName)

/-- A dependency as the catalogue has it. -/
def writtenRow (kind : ObjectKind) (e : DependencyEdge) : DiscoveredDependency :=
  ⟨kind, schemaUpper, e.name, toUpperCase e.referencedType, e.referencedOwner, e.referencedName,
    .excluded⟩

/-- A dependency with its status, which is settled later, set aside. -/
def DiscoveredDependency.plain (d : DiscoveredDependency) : DiscoveredDependency :=
  { d with refStatus := .excluded }

/-- **What a discovery is to return.** -/
structure Exact (r : DiscoverPlsqlResult) : Prop where
  objects_once : (r.objects.map fun o => (o.kind, o.name)).Nodup
  objects : ∀ kind name, (∃ o ∈ r.objects, o.kind = kind ∧ o.name = name) ↔
    ReachedObject catalogue schemaUpper roots kind name
  dependencies_once : (r.dependencies.map DiscoveredDependency.plain).Nodup
  dependencies : ∀ d, d ∈ r.dependencies.map DiscoveredDependency.plain ↔
    ∃ e kind, VisitedRow catalogue schemaUpper roots e ∧ normalizeKind e.type = some kind ∧
      d = writtenRow schemaUpper kind e

/-! ## 2. The walk by names -/

/-- The name `n` is found from the name `m`. -/
def DependsOnName (m n : Text) : Prop :=
  ∃ e, OfSchema catalogue schemaUpper e ∧ e.referencedName = m ∧ toUpperCase e.name = n

def RootName (n : Text) : Prop := n ∈ roots.map toUpperCase

/-- A row that the first `n` rounds ask for. -/
def AskedRow (n : Nat) (e : DependencyEdge) : Prop :=
  OfSchema catalogue schemaUpper e ∧
    Nearer (RootName roots) (DependsOnName catalogue schemaUpper) n e.referencedName

end Catalogue

variable {st : Discovery} {walk : DepWalkFn} {n : Nat}

section Rounds
variable {catalogue : List DependencyEdge} {schemaUpper : Text} {roots : List Text}

/-- Every name that is asked about is in upper case. -/
theorem upper_of_hops {name : Text}
    (h : Hops (RootName roots) (DependsOnName catalogue schemaUpper) n name) :
    toUpperCase name = name := by
  cases h with
  | start hs =>
    obtain ⟨t, -, rfl⟩ := mem_map.mp hs
    exact toUpperCase_toUpperCase t
  | next _ hxy =>
    obtain ⟨e, -, -, rfl⟩ := hxy
    exact toUpperCase_toUpperCase e.name

theorem AskedRow.upper (h : AskedRow catalogue schemaUpper roots n e) :
    toUpperCase e.referencedName = e.referencedName := by
  obtain ⟨-, k, -, hk⟩ := h
  exact upper_of_hops hk

/-- The name is the key's of an object that was found. -/
def Found (schemaUpper : Text) (st : Discovery) (name : Text) : Prop :=
  (entryOf st.discovered (objectKey schemaUpper name)).isSome

/-- The signature of a row. -/
def rowSig (e : DependencyEdge) : Text :=
  toUpperCase e.name ++ '\x00' :: (toUpperCase e.referencedOwner ++
    '\x00' :: toUpperCase e.referencedName)

/-- The signature of what was recorded. -/
def DiscoveredDependency.sig (d : DiscoveredDependency) : Text :=
  d.name ++ '\x00' :: (d.refOwner ++ '\x00' :: d.refName)

/-- What `recordEdge` records of a row. -/
def recorded (schemaUpper : Text) (kind : ObjectKind) (e : DependencyEdge) : DiscoveredDependency :=
  ⟨kind, schemaUpper, toUpperCase e.name, toUpperCase e.referencedType,
    toUpperCase e.referencedOwner, toUpperCase e.referencedName, .excluded⟩

theorem recorded_sig (kind : ObjectKind) (e : DependencyEdge) :
    (recorded schemaUpper kind e).sig = rowSig e := rfl

theorem objectKey_inj {m n : Text} (h : objectKey schemaUpper m = objectKey schemaUpper n) :
    m = n :=
  (List.cons.inj (append_cancel_left h)).2

/-! ### The first loop -/

theorem discoverObject_found (st : Discovery) (e : DependencyEdge) (name : Text) :
    Found schemaUpper (discoverObject schemaUpper st e) name ↔
      Found schemaUpper st name ∨ ((normalizeKind e.type).isSome ∧ toUpperCase e.name = name) := by
  rw [discoverObject]
  cases hk : normalizeKind e.type with
  | none => simp
  | some kind =>
    dsimp only
    split
    · rename_i hf
      constructor
      · exact .inl
      · intro h
        rcases h with h | ⟨-, rfl⟩
        · exact h
        · exact hf
    · by_cases hn : toUpperCase e.name = name
      · subst hn
        simp [Found]
      · have hne : objectKey schemaUpper name ≠ objectKey schemaUpper (toUpperCase e.name) :=
          fun h => hn (objectKey_inj h).symm
        simp [Found, entryOf_setEntry_ne hne, hn]

theorem discoverObject_frontier (st : Discovery) (e : DependencyEdge) (name : Text) :
    name ∈ (discoverObject schemaUpper st e).frontier ↔
      name ∈ st.frontier ∨ (¬ Found schemaUpper st name ∧ (normalizeKind e.type).isSome ∧
        toUpperCase e.name = name) := by
  rw [discoverObject]
  cases hk : normalizeKind e.type with
  | none => simp
  | some kind =>
    dsimp only
    split
    · rename_i hf
      constructor
      · exact .inl
      · intro h
        rcases h with h | ⟨hnf, -, rfl⟩
        · exact h
        · exact absurd hf hnf
    · rename_i hf
      have hnew : ∀ n, toUpperCase e.name = n → ¬ Found schemaUpper st n := by
        intro n hn
        subst hn
        exact hf
      split
      · rename_i hc
        constructor
        · exact .inl
        · intro h
          rcases h with h | ⟨-, -, rfl⟩
          · exact h
          · exact contains_iff_mem.mp hc
      · rw [mem_append, mem_singleton]
        constructor
        · intro h
          rcases h with h | rfl
          · exact .inl h
          · exact .inr ⟨hnew _ rfl, rfl, rfl⟩
        · intro h
          rcases h with h | ⟨-, -, rfl⟩
          · exact .inl h
          · exact .inr rfl

theorem discoverObject_discovered {x : Text × DiscoveredObject}
    (h : x ∈ (discoverObject schemaUpper st e).discovered) :
    x ∈ st.discovered ∨ (normalizeKind e.type = some x.2.kind ∧ toUpperCase e.name = x.2.name) := by
  rw [discoverObject] at h
  cases hk : normalizeKind e.type with
  | none =>
    rw [hk] at h
    exact .inl h
  | some kind =>
    rw [hk] at h
    dsimp only at h
    split at h
    · exact .inl h
    · rcases mem_setEntry h with rfl | h
      · exact .inr ⟨rfl, rfl⟩
      · exact .inl h

theorem discoverObject_edges (schemaUpper : Text) (st : Discovery) (e : DependencyEdge) :
    (discoverObject schemaUpper st e).seenEdges = st.seenEdges ∧
      (discoverObject schemaUpper st e).dependencies = st.dependencies := by
  rw [discoverObject]
  split
  · exact ⟨rfl, rfl⟩
  · dsimp only
    split <;> exact ⟨rfl, rfl⟩

/-- **The first loop** finds every name the rows have, and the new ones are the next frontier. -/
theorem discoverObjects (schemaUpper : Text) (edges : List DependencyEdge) (st : Discovery) :
    let st' := edges.foldl (discoverObject schemaUpper) st
    (∀ name, Found schemaUpper st' name ↔ Found schemaUpper st name ∨
        ∃ e ∈ edges, (normalizeKind e.type).isSome ∧ toUpperCase e.name = name) ∧
      (∀ name, name ∈ st'.frontier ↔ name ∈ st.frontier ∨ (¬ Found schemaUpper st name ∧
        ∃ e ∈ edges, (normalizeKind e.type).isSome ∧ toUpperCase e.name = name)) ∧
      (∀ x ∈ st'.discovered, x ∈ st.discovered ∨
        ∃ e ∈ edges, normalizeKind e.type = some x.2.kind ∧ toUpperCase e.name = x.2.name) ∧
      st'.seenEdges = st.seenEdges ∧ st'.dependencies = st.dependencies := by
  induction edges generalizing st with
  | nil => simp
  | cons e edges ih =>
    obtain ⟨h1, h2, h3, h4, h5⟩ := ih (discoverObject schemaUpper st e)
    obtain ⟨he4, he5⟩ := discoverObject_edges schemaUpper st e
    dsimp only at h1 h2 h3 h4 h5 ⊢
    simp only [foldl_cons]
    refine ⟨fun name => ?_, fun name => ?_, fun x hx => ?_, h4.trans he4, h5.trans he5⟩
    · rw [h1, discoverObject_found]
      simp only [exists_mem_cons_iff, or_assoc]
    · rw [h2, discoverObject_frontier, discoverObject_found]
      simp only [exists_mem_cons_iff]
      tauto
    · rcases h3 x hx with hx | ⟨e', he', hx⟩
      · rcases discoverObject_discovered hx with hx | hx
        · exact .inl hx
        · exact .inr ⟨e, mem_cons_self, hx⟩
      · exact .inr ⟨e', mem_cons_of_mem _ he', hx⟩

/-! ### The second loop -/

/-- What is recorded and what was seen go together, each signature once. -/
structure Discovery.Signed (st : Discovery) : Prop where
  sigs : st.dependencies.map DiscoveredDependency.sig = st.seenEdges
  nodup : st.seenEdges.Nodup

theorem recordEdge_cases (schemaUpper : Text) (st : Discovery) (e : DependencyEdge) :
    (((normalizeKind e.type).isSome → rowSig e ∈ st.seenEdges) ∧ recordEdge schemaUpper st e = st) ∨
      ∃ kind, normalizeKind e.type = some kind ∧ rowSig e ∉ st.seenEdges ∧
        recordEdge schemaUpper st e = { st with
          seenEdges := st.seenEdges ++ [rowSig e]
          dependencies := st.dependencies ++ [recorded schemaUpper kind e] } := by
  rw [recordEdge]
  cases hk : normalizeKind e.type with
  | none => exact .inl ⟨by rintro ⟨⟩, rfl⟩
  | some kind =>
    dsimp only
    split
    · rename_i hc
      exact .inl ⟨fun _ => contains_iff_mem.mp hc, rfl⟩
    · rename_i hc
      exact .inr ⟨kind, rfl, fun hm => hc (contains_iff_mem.mpr hm), rfl⟩

theorem recordEdge_signed (schemaUpper : Text) (h : st.Signed) (e : DependencyEdge) :
    (recordEdge schemaUpper st e).Signed := by
  rcases recordEdge_cases schemaUpper st e with ⟨-, he⟩ | ⟨kind, -, hnew, he⟩
  · rw [he]
    exact h
  · rw [he]
    refine ⟨?_, ?_⟩
    · simp only [map_append, map_cons, map_nil, h.sigs, recorded_sig]
    · rw [nodup_append]
      refine ⟨h.nodup, nodup_singleton _, fun a ha b hb => ?_⟩
      rw [mem_singleton.mp hb]
      rintro rfl
      exact hnew ha

/-- **The second loop** records one row for each signature the rows have. -/
theorem recordEdges (schemaUpper : Text) (edges : List DependencyEdge) (hst : st.Signed) :
    let st' := edges.foldl (recordEdge schemaUpper) st
    (st'.discovered = st.discovered ∧ st'.frontier = st.frontier) ∧ st'.Signed ∧
      (∀ s, s ∈ st'.seenEdges ↔ s ∈ st.seenEdges ∨
        ∃ e ∈ edges, (normalizeKind e.type).isSome ∧ rowSig e = s) ∧
      (∀ d ∈ st'.dependencies, d ∈ st.dependencies ∨
        ∃ e ∈ edges, ∃ kind, normalizeKind e.type = some kind ∧ d = recorded schemaUpper kind e) := by
  induction edges generalizing st with
  | nil => simp [hst]
  | cons e edges ih =>
    obtain ⟨⟨h1, h2⟩, h3, h4, h5⟩ := ih (recordEdge_signed schemaUpper hst e)
    dsimp only at h1 h2 h3 h4 h5 ⊢
    simp only [foldl_cons]
    rcases recordEdge_cases schemaUpper st e with
      ⟨hseen, he⟩ | ⟨kind, hk, -, he⟩
    · rw [he] at h1 h2 h3 h4 h5 ⊢
      refine ⟨⟨h1, h2⟩, h3, fun s => ?_, fun d hd => ?_⟩
      · rw [h4, exists_mem_cons_iff]
        constructor
        · exact fun h => h.imp_right .inr
        · intro h
          rcases h with h | ⟨hk, rfl⟩ | h
          · exact .inl h
          · exact .inl (hseen hk)
          · exact .inr h
      · rw [exists_mem_cons_iff]
        exact (h5 d hd).imp_right .inr
    · rw [he] at h1 h2 h3 h4 h5 ⊢
      refine ⟨⟨h1, h2⟩, h3, fun s => ?_, fun d hd => ?_⟩
      · rw [h4, exists_mem_cons_iff, mem_append, mem_singleton, hk]
        simp only [Option.isSome_some, true_and, or_assoc]
        exact or_congr_right (or_congr_left eq_comm)
      · rw [exists_mem_cons_iff]
        rcases h5 d hd with hd | hd
        · rcases mem_append.mp hd with hd | hd
          · exact .inl hd
          · exact .inr (.inl ⟨kind, hk, mem_singleton.mp hd⟩)
        · exact .inr (.inr hd)

/-! ### The rounds -/

/-- **What `n` rounds have found**: exactly what the names lead to. -/
structure Discovery.After (catalogue : List DependencyEdge) (schemaUpper : Text) (roots : List Text)
    (n : Nat) (st : Discovery) : Prop where
  frontier : Frontier (RootName roots) (DependsOnName catalogue schemaUpper) n (· ∈ st.frontier)
  found : ∀ name, Found schemaUpper st name ↔
    ∃ e, AskedRow catalogue schemaUpper roots n e ∧ toUpperCase e.name = name
  objects : ∀ x ∈ st.discovered, ∃ e, AskedRow catalogue schemaUpper roots n e ∧
    normalizeKind e.type = some x.2.kind ∧ toUpperCase e.name = x.2.name
  signed : st.Signed
  seen : ∀ s, s ∈ st.seenEdges ↔ ∃ e, AskedRow catalogue schemaUpper roots n e ∧ rowSig e = s
  recorded : ∀ d ∈ st.dependencies, ∃ e kind, AskedRow catalogue schemaUpper roots n e ∧
    normalizeKind e.type = some kind ∧ d = recorded schemaUpper kind e

variable {edges : List DependencyEdge}

/-- What a round adds to what was asked for. -/
theorem askedRow_succ
    (h : st.After catalogue schemaUpper roots n)
    (hedges : ∀ e, e ∈ edges ↔
      e ∈ catalogue ∧ e.referencedOwner = schemaUpper ∧ e.referencedName ∈ st.frontier)
    (e : DependencyEdge) : AskedRow catalogue schemaUpper roots (n + 1) e ↔
      AskedRow catalogue schemaUpper roots n e ∨ (e ∈ edges ∧ (normalizeKind e.type).isSome) := by
  rw [AskedRow, h.frontier.nearer_succ, AskedRow, OfSchema, hedges]
  tauto

theorem discoverRound_after
    (h : st.After catalogue schemaUpper roots n)
    (hedges : ∀ e, e ∈ edges ↔
      e ∈ catalogue ∧ e.referencedOwner = schemaUpper ∧ e.referencedName ∈ st.frontier) :
    (discoverRound schemaUpper st edges).After catalogue schemaUpper roots (n + 1) := by
  obtain ⟨h1, h2, h3, h4, h5⟩ := discoverObjects schemaUpper edges
    { st with frontier := [] }
  have hsigned : (edges.foldl (discoverObject schemaUpper) { st with frontier := [] }).Signed := by
    refine ⟨?_, ?_⟩
    · rw [h4, h5]
      exact h.signed.sigs
    · rw [h4]
      exact h.signed.nodup
  obtain ⟨⟨g1, g2⟩, g3, g4, g5⟩ := recordEdges schemaUpper edges hsigned
  have hasked := askedRow_succ h hedges
  have hfound : ∀ st' : Discovery, st'.discovered = (edges.foldl (discoverObject schemaUpper)
      { st with frontier := [] }).discovered → ∀ name, Found schemaUpper st' name ↔
        Found schemaUpper st name ∨
          ∃ e ∈ edges, (normalizeKind e.type).isSome ∧ toUpperCase e.name = name := by
    intro st' hst' name
    rw [Found, hst']
    exact h1 name
  refine ⟨?_, ?_, ?_, g3, ?_, ?_⟩
  · refine h.frontier.step (fun y hy => ?_) fun x y hx hxy hfar => ?_
    · rw [discoverRound, g2, h2] at hy
      rcases hy with hy | ⟨-, e, he, hk, rfl⟩
      · exact absurd hy not_mem_nil
      · obtain ⟨hc, ho, hf⟩ := (hedges e).mp he
        exact ⟨e.referencedName, hf, e, ⟨hc, ho, hk⟩, rfl, rfl⟩
    · obtain ⟨e, ⟨hc, ho, hk⟩, rfl, rfl⟩ := hxy
      rw [discoverRound, g2, h2]
      refine .inr ⟨fun hf => hfar ?_, e, (hedges e).mpr ⟨hc, ho, hx⟩, hk, rfl⟩
      -- a name that was found before is not farther away
      obtain ⟨e', he', heq⟩ := (h.found _).mp hf
      exact he'.2.onward ⟨e', he'.1, rfl, heq⟩
  · intro name
    rw [discoverRound, hfound _ g1, h.found]
    constructor
    · intro hn
      rcases hn with ⟨e, he, rfl⟩ | ⟨e, he, hk, rfl⟩
      · exact ⟨e, (hasked e).mpr (.inl he), rfl⟩
      · exact ⟨e, (hasked e).mpr (.inr ⟨he, hk⟩), rfl⟩
    · intro hn
      obtain ⟨e, he, rfl⟩ := hn
      rcases (hasked e).mp he with he | ⟨he, hk⟩
      · exact .inl ⟨e, he, rfl⟩
      · exact .inr ⟨e, he, hk, rfl⟩
  · intro x hx
    rw [discoverRound, g1] at hx
    rcases h3 x hx with hx | ⟨e, he, hk, hn⟩
    · obtain ⟨e, he, hk, hn⟩ := h.objects x hx
      exact ⟨e, (hasked e).mpr (.inl he), hk, hn⟩
    · exact ⟨e, (hasked e).mpr (.inr ⟨he, by rw [hk]; rfl⟩), hk, hn⟩
  · intro s
    rw [discoverRound, g4, h4, h.seen]
    constructor
    · intro hs
      rcases hs with ⟨e, he, rfl⟩ | ⟨e, he, hk, rfl⟩
      · exact ⟨e, (hasked e).mpr (.inl he), rfl⟩
      · exact ⟨e, (hasked e).mpr (.inr ⟨he, hk⟩), rfl⟩
    · intro hs
      obtain ⟨e, he, rfl⟩ := hs
      rcases (hasked e).mp he with he | ⟨he, hk⟩
      · exact .inl ⟨e, he, rfl⟩
      · exact .inr ⟨e, he, hk, rfl⟩
  · intro d hd
    rcases g5 d hd with hd | ⟨e, he, kind, hk, hd⟩
    · rw [h5] at hd
      obtain ⟨e, kind, he, hk, hd⟩ := h.recorded d hd
      exact ⟨e, kind, (hasked e).mpr (.inl he), hk, hd⟩
    · exact ⟨e, kind, (hasked e).mpr (.inr ⟨he, by rw [hk]; rfl⟩), hk, hd⟩

/-- Without a frontier another round would change nothing. -/
theorem Discovery.After.idle (h : st.After catalogue schemaUpper roots n)
    (hf : st.frontier = []) : st.After catalogue schemaUpper roots (n + 1) := by
  have hempty : ∀ x, ¬ x ∈ st.frontier := by simp [hf]
  have hasked : ∀ e, AskedRow catalogue schemaUpper roots (n + 1) e ↔
      AskedRow catalogue schemaUpper roots n e := by
    intro e
    rw [AskedRow, h.frontier.nearer_succ, AskedRow]
    simp [hf]
  refine ⟨h.frontier.idle hempty, fun name => ?_, fun x hx => ?_, h.signed, fun s => ?_,
    fun d hd => ?_⟩
  · simp only [h.found, hasked]
  · simp only [hasked]
    exact h.objects x hx
  · simp only [h.seen, hasked]
  · simp only [hasked]
    exact h.recorded d hd

theorem startDiscovery_after : (startDiscovery schemaUpper (setOf (roots.map toUpperCase))).After
    catalogue schemaUpper roots 0 := by
  have hnone : ∀ e, ¬ AskedRow catalogue schemaUpper roots 0 e :=
    fun e he => not_nearer_zero he.2
  refine ⟨.first fun x => by rw [startDiscovery]; exact mem_setOf, fun name => ?_, nofun,
    ⟨rfl, nodup_nil⟩, fun s => ?_, nofun⟩
  · simp [startDiscovery, Found, entryOf, hnone]
  · simp [startDiscovery, hnone]

/-- **The rule for the loop**: what every round keeps holds at the end, and a walk that answers
    fails nowhere. -/
theorem discoverLevels_run (hw : Answers catalogue schemaUpper walk)
    (P : Nat → Discovery → Prop)
    (hround : ∀ n st edges, P n st → walk schemaUpper st.frontier = .ok edges →
      P (n + 1) (discoverRound schemaUpper st edges))
    (hidle : ∀ n st, P n st → st.frontier = [] → P (n + 1) st) (rounds : Nat)
    (h : P n st) :
    ∃ st', discoverLevels walk schemaUpper rounds st = .ok st' ∧ P (n + rounds) st' := by
  induction rounds generalizing n st with
  | zero => exact ⟨st, rfl, h⟩
  | succ rounds ih =>
    rw [discoverLevels]
    split
    · rename_i hf
      rw [List.isEmpty_iff] at hf
      have hall : ∀ k, P (n + k) st := by
        intro k
        induction k with
        | zero => exact h
        | succ k ihk => exact hidle _ _ ihk hf
      exact ⟨st, rfl, hall _⟩
    · obtain ⟨edges, he, -⟩ := hw st.frontier
      obtain ⟨st', hs, hp⟩ := ih (hround n st edges h he)
      refine ⟨st', ?_, ?_⟩
      · rw [he]
        exact hs
      · rwa [show n + (rounds + 1) = n + 1 + rounds by omega]

theorem Answers.mem (hw : Answers catalogue schemaUpper walk) {names : List Text}
    (he : walk schemaUpper names = .ok edges) (e : DependencyEdge) :
    e ∈ edges ↔ e ∈ catalogue ∧ e.referencedOwner = schemaUpper ∧ e.referencedName ∈ names := by
  obtain ⟨edges', he', hperm⟩ := hw names
  rw [he] at he'
  cases he'
  rw [hperm.mem_iff]
  simp

/-- **What the loop finds.** -/
theorem discoverLevels_after (roots : List Text)
    (hw : Answers catalogue schemaUpper walk) :
    ∃ st, discoverLevels walk schemaUpper MAX_DEPTH
        (startDiscovery schemaUpper (setOf (roots.map toUpperCase))) = .ok st ∧
      st.After catalogue schemaUpper roots MAX_DEPTH := by
  obtain ⟨st, hs, h⟩ := discoverLevels_run hw (fun n st => st.After catalogue schemaUpper roots n)
    (fun n st edges h he => discoverRound_after h (hw.mem he)) (fun n st h hf => h.idle hf) MAX_DEPTH
    startDiscovery_after
  exact ⟨st, hs, by rwa [Nat.zero_add] at h⟩

end Rounds

/-! ## 3. The result -/

section Result
variable {catalogue : List DependencyEdge} {schema : Text} {roots : List Text}

/-- No name that the walk comes to stands for two things. -/
structure OneByName (catalogue : List DependencyEdge) (schemaUpper : Text) (roots : List Text) :
    Prop where
  /-- Where a name leads, an object or a table of that name leads. -/
  followed : ∀ e, AskedRow catalogue schemaUpper roots MAX_DEPTH e →
    VisitedRow catalogue schemaUpper roots e
  upper : ∀ e, VisitedRow catalogue schemaUpper roots e → toUpperCase e.name = e.name
  one_kind : ∀ e e', VisitedRow catalogue schemaUpper roots e →
    VisitedRow catalogue schemaUpper roots e' → e.name = e'.name →
    normalizeKind e.type = normalizeKind e'.type
  one_reference : ∀ e e', VisitedRow catalogue schemaUpper roots e →
    VisitedRow catalogue schemaUpper roots e' → e.name = e'.name →
    e.referencedName = e'.referencedName →
    toUpperCase e.referencedType = toUpperCase e'.referencedType

/-- Names without the separator keep without it in upper case. -/
theorem nul_notMem_upper {s : Text} (h : '\x00' ∉ s) : '\x00' ∉ toUpperCase s := by
  intro hm
  obtain ⟨c, hc, hd⟩ := mem_flatMap.mp hm
  have hcn : c = '\x00' := by
    by_cases hlt : c.toNat < 128
    · rw [upperChar_ascii hlt, mem_singleton] at hd
      exact forall_ascii (P := fun c => '\x00' = c.toUpper → c = '\x00') (by decide) hlt hd
    · cases hs : isSpace c with
      | true =>
        rw [upperChar_space hs, mem_singleton] at hd
        exact hd.symm
      | false =>
        rcases (upperChar_foreign (by omega) hs).2 _ hd with ⟨h1, -⟩ | ⟨h1, -⟩
        · exact absurd h1 (by decide)
        · exact absurd h1 (by decide)
  exact h (hcn ▸ hc)

/-- **A signature holds its names.** -/
theorem rowSig_inj {e e' : DependencyEdge} (hn : '\x00' ∉ e.name) (hn' : '\x00' ∉ e'.name)
    (ho : e.referencedOwner = e'.referencedOwner) (h : rowSig e = rowSig e') :
    toUpperCase e.name = toUpperCase e'.name ∧
      toUpperCase e.referencedName = toUpperCase e'.referencedName := by
  obtain ⟨h1, h2⟩ := cut_at_first (nul_notMem_upper hn) (nul_notMem_upper hn') h
  rw [ho] at h2
  exact ⟨h1, (List.cons.inj (append_cancel_left h2)).2⟩

variable {schemaUpper : Text}

/-- What is visited is asked for, where the names are in upper case. -/
theorem VisitedRow.asked
    (hup : ∀ e, VisitedRow catalogue schemaUpper roots e → toUpperCase e.name = e.name)
    (h : VisitedRow catalogue schemaUpper roots e) :
    AskedRow catalogue schemaUpper roots MAX_DEPTH e := by
  have hnames : ∀ m a, Hops (SeedTable roots) (DependsOn catalogue schemaUpper) m a →
      m < MAX_DEPTH → Hops (RootName roots) (DependsOnName catalogue schemaUpper) m a.name := by
    intro m a ha
    induction ha with
    | start hs =>
      intro _
      obtain ⟨t, ht, rfl⟩ := hs
      exact .start (mem_map_of_mem ht)
    | @next m x y hx hxy ih =>
      intro hm
      obtain ⟨e, kind, he, hr, -, rfl⟩ := hxy
      have hv : VisitedRow catalogue schemaUpper roots e := ⟨he, x, hr, m, by omega, hx⟩
      exact (ih (by omega)).next ⟨e, he, (referencedNode_name hr).symm, hup e hv⟩
  obtain ⟨he, a, ha, m, hm, hx⟩ := h
  exact ⟨he, m, hm, referencedNode_name ha ▸ hnames m a hx hm⟩

/-- **What the discovery returns**, from what its loop ends with. -/
theorem discoverPlsql_after (localeCompare : Text → Text → Ordering) (roots : List Text)
   
    (hw : Answers catalogue (toUpperCase schema) walk) :
    ∃ st r, discoverLevels walk (toUpperCase schema) MAX_DEPTH
        (startDiscovery (toUpperCase schema) (setOf (roots.map toUpperCase))) = .ok st ∧
      discoverPlsql localeCompare walk schema roots = .ok r ∧
      st.After catalogue (toUpperCase schema) roots MAX_DEPTH ∧
      (∀ o, o ∈ r.objects ↔ ∃ key, (key, o) ∈ st.discovered) ∧
      (∀ name, Found (toUpperCase schema) st name ↔ ∃ o ∈ r.objects, o.name = name) ∧
      r.dependencies.map DiscoveredDependency.plain = st.dependencies := by
  obtain ⟨st, hs, hafter⟩ := discoverLevels_after roots hw
  have hstart : (startDiscovery (toUpperCase schema) (setOf (roots.map toUpperCase))).Good
      (toUpperCase schema) := ⟨nodup_nil, fun e he => absurd he not_mem_nil⟩
  have hgood := discoverLevels_good hstart hs
  have hobjects : ∀ o, o ∈ (st.discovered.map Prod.snd).mergeSort (objectLe localeCompare) ↔
      ∃ key, (key, o) ∈ st.discovered := by
    intro o
    rw [mem_mergeSort, mem_map]
    constructor
    · intro ho
      obtain ⟨x, hx, rfl⟩ := ho
      exact ⟨x.1, hx⟩
    · intro ho
      obtain ⟨key, hx⟩ := ho
      exact ⟨_, hx, rfl⟩
  refine ⟨st, _, hs, by rw [discoverPlsql]; dsimp only; rw [hs]; rfl, hafter, hobjects,
    fun name => ?_, ?_⟩
  · constructor
    · intro hf
      obtain ⟨o, ho⟩ := Option.isSome_iff_exists.mp hf
      obtain ⟨l₁, l₂, e, -⟩ := lookup_eq_some_iff.mp ho
      have hm : (objectKey (toUpperCase schema) name, o) ∈ st.discovered := by
        rw [e]
        simp
      exact ⟨o, (hobjects o).mpr ⟨_, hm⟩, (objectKey_inj (hgood.entered _ hm).1).symm⟩
    · intro hf
      obtain ⟨o, ho, rfl⟩ := hf
      obtain ⟨key, hm⟩ := (hobjects o).mp ho
      have hk := (hgood.entered _ hm).1
      dsimp only at hk
      subst hk
      rw [Found, entryOf_of_mem hgood.nodup hm]
      rfl
  · rw [map_map]
    refine (map_congr_left fun d hd => ?_).trans (map_id _)
    obtain ⟨e, kind, -, -, rfl⟩ := hafter.recorded d hd
    rfl

variable {kind : ObjectKind}

/-- What is recorded of a row is the row, where its name is in upper case. -/
theorem recorded_eq
    (ha : AskedRow catalogue (toUpperCase schema) roots n e) (hup : toUpperCase e.name = e.name) :
    recorded (toUpperCase schema) kind e = writtenRow (toUpperCase schema) kind e := by
  rw [recorded, writtenRow, hup, ha.upper, ha.1.2.1, toUpperCase_toUpperCase]

/-- **Enough**: where no name stands for two things the discovery is exact. -/
theorem exact_of_oneByName {localeCompare : Text → Text → Ordering}
    (hnul : ∀ e ∈ catalogue, '\x00' ∉ e.name)
    (h : OneByName catalogue (toUpperCase schema) roots)
    (hw : Answers catalogue (toUpperCase schema) walk) :
    ∃ r, discoverPlsql localeCompare walk schema roots = .ok r ∧
      Exact catalogue (toUpperCase schema) roots r := by
  obtain ⟨st, r, -, hr, hafter, hobjects, hfound, hdeps⟩ :=
    discoverPlsql_after localeCompare roots hw
  have hobject : ∀ o ∈ r.objects, ∃ e, VisitedRow catalogue (toUpperCase schema) roots e ∧
      normalizeKind e.type = some o.kind ∧ e.name = o.name := by
    intro o ho
    obtain ⟨key, hx⟩ := (hobjects o).mp ho
    obtain ⟨e, he, hk, hn⟩ := hafter.objects _ hx
    have hv := h.followed e he
    exact ⟨e, hv, hk, (h.upper e hv).symm.trans hn⟩
  refine ⟨r, hr, ?_, fun kind name => ?_, ?_, fun d => ?_⟩
  · have hnames := (discoverPlsql_objects hr).1
    refine List.Nodup.of_map Prod.snd ?_
    rw [map_map]
    exact hnames
  · constructor
    · intro ho
      obtain ⟨o, ho, rfl, rfl⟩ := ho
      obtain ⟨e, ⟨he, a, ha, hnear⟩, hk, hn⟩ := hobject o ho
      exact hnear.onward ⟨e, o.kind, he, ha, hk, by rw [hn]⟩
    · intro hreached
      obtain ⟨m, hm, hx⟩ := hreached
      cases hx with
      | start hs =>
        obtain ⟨t, -, ht⟩ := hs
        cases ht
      | @next k x y hx hxy =>
        obtain ⟨e, kind', he, ha, hk, hy⟩ := hxy
        cases hy
        have hv : VisitedRow catalogue (toUpperCase schema) roots e := ⟨he, x, ha, k, by omega, hx⟩
        obtain ⟨o, ho, hn⟩ := (hfound e.name).mp
          ((hafter.found e.name).mpr ⟨e, hv.asked h.upper, h.upper e hv⟩)
        obtain ⟨e', hv', hk', hn'⟩ := hobject o ho
        have hkind := h.one_kind e e' hv hv' (hn.symm.trans hn'.symm)
        rw [hk, hk'] at hkind
        exact ⟨o, ho, (Option.some.inj hkind).symm, hn⟩
  · rw [hdeps]
    exact List.Nodup.of_map _ (hafter.signed.sigs ▸ hafter.signed.nodup)
  · rw [hdeps]
    constructor
    · intro hd
      obtain ⟨e, kind, he, hk, rfl⟩ := hafter.recorded d hd
      have hv := h.followed e he
      exact ⟨e, kind, hv, hk, recorded_eq he (h.upper e hv)⟩
    · intro hd
      obtain ⟨e, kind, hv, hk, rfl⟩ := hd
      have he := hv.asked h.upper
      have hseen := (hafter.seen (rowSig e)).mpr ⟨e, he, rfl⟩
      rw [← hafter.signed.sigs] at hseen
      obtain ⟨d, hd, hsig⟩ := mem_map.mp hseen
      obtain ⟨e', kind', he', hk', rfl⟩ := hafter.recorded d hd
      have hv' := h.followed e' he'
      rw [recorded_sig] at hsig
      obtain ⟨hn, hr'⟩ := rowSig_inj (hnul e' he'.1.1) (hnul e he.1.1)
        (he'.1.2.1.trans he.1.2.1.symm) hsig
      rw [h.upper e hv, h.upper e' hv'] at hn
      rw [he.upper, he'.upper] at hr'
      have hkind := h.one_kind e' e hv' hv hn
      rw [hk, hk'] at hkind
      have hsame : writtenRow (toUpperCase schema) kind e =
          writtenRow (toUpperCase schema) kind' e' := by
        rw [writtenRow, writtenRow, hn, hr', h.one_reference e' e hv' hv hn hr',
          Option.some.inj hkind, he.1.2.1, he'.1.2.1]
      rw [hsame, ← recorded_eq he' (h.upper e' hv')]
      exact hd

/-! ### A row that is answered first -/

/-- Where the row's signature was recorded, it was recorded of that row. -/
def RecordsFirst (schemaUpper : Text) (kind : ObjectKind) (e : DependencyEdge) (st : Discovery) :
    Prop :=
  ∀ d ∈ st.dependencies, d.sig = rowSig e → d = recorded schemaUpper kind e

theorem recordEdges_first {e₀ : DependencyEdge}
    (edges : List DependencyEdge)
    (hother : rowSig e₀ ∈ st.seenEdges ∨
      ∀ e ∈ edges, (normalizeKind e.type).isSome → rowSig e ≠ rowSig e₀)
    (h : RecordsFirst schemaUpper kind e₀ st) :
    RecordsFirst schemaUpper kind e₀ (edges.foldl (recordEdge schemaUpper) st) := by
  induction edges generalizing st with
  | nil => exact h
  | cons e edges ih =>
    rw [foldl_cons]
    rcases recordEdge_cases schemaUpper st e with ⟨-, he⟩ | ⟨k, hk, hnew, he⟩
    · rw [he]
      exact ih (hother.imp_right fun ho x hx => ho x (mem_cons_of_mem _ hx)) h
    · have hne : rowSig e ≠ rowSig e₀ := by
        rcases hother with hs | ho
        · exact fun heq => hnew (heq ▸ hs)
        · exact ho e mem_cons_self (by rw [hk]; rfl)
      rw [he]
      refine ih (hother.imp (mem_append_left _) fun ho x hx => ho x (mem_cons_of_mem _ hx))
        fun d hd hsig => ?_
      rcases mem_append.mp hd with hd | hd
      · exact h d hd hsig
      · rw [mem_singleton.mp hd] at hsig
        exact absurd hsig hne

theorem recordEdge_first {e₀ : DependencyEdge}
    (hk : normalizeKind e₀.type = some kind)
    (h : RecordsFirst schemaUpper kind e₀ st) :
    rowSig e₀ ∈ (recordEdge schemaUpper st e₀).seenEdges ∧
      RecordsFirst schemaUpper kind e₀ (recordEdge schemaUpper st e₀) := by
  rcases recordEdge_cases schemaUpper st e₀ with ⟨hs, he⟩ | ⟨k, hk', -, he⟩
  · rw [he]
    exact ⟨hs (by rw [hk]; rfl), h⟩
  · rw [he]
    refine ⟨mem_append_right _ mem_cons_self, fun d hd hsig => ?_⟩
    rcases mem_append.mp hd with hd | hd
    · exact h d hd hsig
    · rw [mem_singleton.mp hd, Option.some.inj (hk.symm.trans hk')]

/-- The walk that answers the rows of a list in their order. -/
def answerInOrder (rows : List DependencyEdge) : DepWalkFn := fun schemaUpper names =>
  .ok (rows.filter fun e => e.referencedOwner = schemaUpper ∧ names.contains e.referencedName)

theorem answerInOrder_answers (schemaUpper : Text) {rows : List DependencyEdge}
    (h : rows.Perm catalogue) : Answers catalogue schemaUpper (answerInOrder rows) :=
  fun _ => ⟨_, rfl, h.filter _⟩

/-- **A row that is asked for can be the one that is recorded.** -/
theorem recorded_of_first (hnul : ∀ e ∈ catalogue, '\x00' ∉ e.name)
    {e₀ : DependencyEdge}
    (ha : AskedRow catalogue schemaUpper roots MAX_DEPTH e₀) (hk : normalizeKind e₀.type = some kind)
   
    (hs : discoverLevels (answerInOrder (e₀ :: catalogue.erase e₀)) schemaUpper MAX_DEPTH
      (startDiscovery schemaUpper (setOf (roots.map toUpperCase))) = .ok st) :
    recorded schemaUpper kind e₀ ∈ st.dependencies := by
  have hw := answerInOrder_answers schemaUpper
    (perm_cons_erase ha.1.1).symm
  have hround : ∀ (n : Nat) (st : Discovery) (edges : List DependencyEdge),
      st.After catalogue schemaUpper roots n ∧ RecordsFirst schemaUpper kind e₀ st →
      answerInOrder (e₀ :: catalogue.erase e₀) schemaUpper st.frontier = .ok edges →
      (discoverRound schemaUpper st edges).After catalogue schemaUpper roots (n + 1) ∧
        RecordsFirst schemaUpper kind e₀ (discoverRound schemaUpper st edges) := by
    intro n st edges h he
    obtain ⟨hafter, hfirst⟩ := h
    have hmem := hw.mem he
    refine ⟨discoverRound_after hafter hmem, ?_⟩
    have hstart : RecordsFirst schemaUpper kind e₀
        (edges.foldl (discoverObject schemaUpper) { st with frontier := [] }) := by
      intro d hd
      rw [(discoverObjects _ edges _).2.2.2.2] at hd
      exact hfirst d hd
    rw [discoverRound]
    by_cases hf : e₀.referencedName ∈ st.frontier
    · -- the row is answered in this round, and in front of the others
      have hcons : ∃ rest, edges = e₀ :: rest := by
        cases he
        refine ⟨_, filter_cons_of_pos ?_⟩
        simp [ha.1.2.1, hf]
      obtain ⟨rest, rfl⟩ := hcons
      obtain ⟨h1, h2⟩ := recordEdge_first hk hstart
      exact recordEdges_first rest (.inl h1) h2
    · -- no row of the round has its signature: they refer to other names
      refine recordEdges_first edges (.inr fun e hm hke hsig => hf ?_) hstart
      obtain ⟨hc, ho, hname⟩ := (hmem e).mp hm
      obtain ⟨-, hr⟩ := rowSig_inj (hnul e hc) (hnul e₀ ha.1.1) (ho.trans ha.1.2.1.symm) hsig
      have hasked := (askedRow_succ hafter hmem e).mpr (.inr ⟨hm, hke⟩)
      rw [hasked.upper, ha.upper] at hr
      exact hr ▸ hname
  obtain ⟨st', hs', hafter, hfirst⟩ := discoverLevels_run hw
    (fun n st => st.After catalogue schemaUpper roots n ∧ RecordsFirst schemaUpper kind e₀ st)
    hround (fun n st h hf => ⟨h.1.idle hf, h.2⟩) MAX_DEPTH ⟨startDiscovery_after, nofun⟩
  rw [hs] at hs'
  cases hs'
  rw [Nat.zero_add] at hafter
  have hseen := (hafter.seen (rowSig e₀)).mpr ⟨e₀, ha, rfl⟩
  rw [← hafter.signed.sigs] at hseen
  obtain ⟨d, hd, hsig⟩ := mem_map.mp hseen
  exact hfirst d hd hsig ▸ hd

/-- A row refers to what another row refers to that names it alike. -/
theorem VisitedRow.of_same {e e' : DependencyEdge}
    (h : VisitedRow catalogue schemaUpper roots e') (he : OfSchema catalogue schemaUpper e)
    (htype : toUpperCase e.referencedType = toUpperCase e'.referencedType)
    (hname : e.referencedName = e'.referencedName) : VisitedRow catalogue schemaUpper roots e := by
  obtain ⟨-, a, ha, hnear⟩ := h
  refine ⟨he, a, ?_, hnear⟩
  rw [referencedNode, htype, hname, normalizeKind_congr htype]
  exact ha

/-- **The discovery is exact, whatever the order of the answers, if and only if no name that the
    walk comes to stands for two things.** -/
theorem exact_iff (localeCompare : Text → Text → Ordering) (catalogue : List DependencyEdge)
    (schema : Text) (roots : List Text) (hnul : ∀ e ∈ catalogue, '\x00' ∉ e.name) :
    (∀ walk, Answers catalogue (toUpperCase schema) walk →
      ∃ r, discoverPlsql localeCompare walk schema roots = .ok r ∧
        Exact catalogue (toUpperCase schema) roots r) ↔
      OneByName catalogue (toUpperCase schema) roots := by
  constructor
  · intro h
    obtain ⟨st, r, -, hr, hafter, hobjects, -, hdeps⟩ :=
      discoverPlsql_after localeCompare roots
        (answerInOrder_answers _ (List.Perm.refl catalogue))
    obtain ⟨r', hr', hexact⟩ := h _ (answerInOrder_answers _ (List.Perm.refl catalogue))
    rw [hr] at hr'
    obtain rfl := Except.ok.inj hr'
    have hobject : ∀ e kind, VisitedRow catalogue (toUpperCase schema) roots e →
        normalizeKind e.type = some kind → ∃ o ∈ r.objects, o.kind = kind ∧ o.name = e.name := by
      intro e kind hv hk
      obtain ⟨he, a, ha, hnear⟩ := hv
      exact (hexact.objects kind e.name).mpr (hnear.onward ⟨e, kind, he, ha, hk, rfl⟩)
    refine ⟨fun e he => ?_, fun e hv => ?_, fun e e' hv hv' hn => ?_, fun e e' hv hv' hn hr => ?_⟩
    · obtain ⟨kind, hk⟩ := Option.isSome_iff_exists.mp he.1.2.2
      have hw := answerInOrder_answers (toUpperCase schema)
        (perm_cons_erase he.1.1).symm
      obtain ⟨st₁, r₁, hs₁, hr₁, -, -, -, hdeps₁⟩ :=
        discoverPlsql_after localeCompare roots hw
      obtain ⟨r₁', hr₁', hexact₁⟩ := h _ hw
      rw [hr₁] at hr₁'
      obtain rfl := Except.ok.inj hr₁'
      have hd := recorded_of_first hnul he hk hs₁
      rw [← hdeps₁] at hd
      obtain ⟨e₁, kind₁, hv₁, -, heq⟩ := (hexact₁.dependencies _).mp hd
      simp only [recorded, writtenRow, DiscoveredDependency.mk.injEq] at heq
      obtain ⟨-, -, -, htype, -, hname, -⟩ := heq
      rw [he.upper] at hname
      exact hv₁.of_same he.1 htype hname
    · obtain ⟨kind, hk⟩ := Option.isSome_iff_exists.mp hv.1.2.2
      obtain ⟨o, ho, -, hn⟩ := hobject e kind hv hk
      obtain ⟨key, hx⟩ := (hobjects o).mp ho
      obtain ⟨e', -, -, hn'⟩ := hafter.objects _ hx
      dsimp only at hn'
      rw [← hn, ← hn', toUpperCase_toUpperCase]
    · obtain ⟨kind, hk⟩ := Option.isSome_iff_exists.mp hv.1.2.2
      obtain ⟨kind', hk'⟩ := Option.isSome_iff_exists.mp hv'.1.2.2
      obtain ⟨o, ho, rfl, hno⟩ := hobject e kind hv hk
      obtain ⟨o', ho', rfl, hno'⟩ := hobject e' kind' hv' hk'
      have hoo : o = o' := inj_on_of_nodup_map (discoverPlsql_objects hr).1 ho ho'
        (hno.trans (hn.trans hno'.symm))
      rw [hk, hk', hoo]
    · obtain ⟨kind, hk⟩ := Option.isSome_iff_exists.mp hv.1.2.2
      obtain ⟨kind', hk'⟩ := Option.isSome_iff_exists.mp hv'.1.2.2
      have hd := (hexact.dependencies _).mpr ⟨e, kind, hv, hk, rfl⟩
      have hd' := (hexact.dependencies _).mpr ⟨e', kind', hv', hk', rfl⟩
      rw [hdeps] at hd hd'
      have hnodup : (st.dependencies.map DiscoveredDependency.sig).Nodup :=
        hafter.signed.sigs ▸ hafter.signed.nodup
      have hsame := inj_on_of_nodup_map hnodup hd hd' (by
        simp only [writtenRow, DiscoveredDependency.sig, hn, hr, hv.1.2.1, hv'.1.2.1])
      exact congrArg DiscoveredDependency.refKind hsame
  · intro h walk hw
    exact exact_of_oneByName hnul h hw

end Result

/-- A procedure that reads a table, and a function that calls it. -/
def chainRows : List DependencyEdge :=
  [⟨"GET_EMP".toList, "PROCEDURE".toList, "EMP".toList, "HR".toList, "TABLE".toList⟩,
   ⟨"CALC_BONUS".toList, "FUNCTION".toList, "GET_EMP".toList, "HR".toList, "PROCEDURE".toList⟩]

theorem chainRows_visited : ∀ e ∈ chainRows,
    VisitedRow chainRows (toUpperCase "hr".toList) ["emp".toList] e := by
  have hseed : Hops (SeedTable ["emp".toList]) (DependsOn chainRows (toUpperCase "hr".toList)) 0
      (.table "EMP".toList) := .start ⟨_, mem_cons_self, by decide⟩
  have hproc : OfSchema chainRows (toUpperCase "hr".toList) ⟨"GET_EMP".toList, "PROCEDURE".toList,
      "EMP".toList, "HR".toList, "TABLE".toList⟩ :=
    ⟨mem_cons_self, by decide, by decide⟩
  intro e he
  rcases mem_cons.mp he with rfl | hlast
  · exact ⟨hproc, _, by decide, 0, by decide, hseed⟩
  · obtain rfl := mem_singleton.mp hlast
    refine ⟨⟨he, by decide, by decide⟩, .object .procedure "GET_EMP".toList,
      by decide, 1, by decide, hseed.next ?_⟩
    exact ⟨_, .procedure, hproc, by decide, by decide, rfl⟩

theorem exact_iff_chain :
    ∃ r, discoverPlsql (fun _ _ => .eq) (answerInOrder chainRows) "hr".toList ["emp".toList] = .ok r ∧
      Exact chainRows (toUpperCase "hr".toList) ["emp".toList] r := by
  refine (exact_iff (fun _ _ => .eq) chainRows "hr".toList ["emp".toList] (by decide)).mpr ?_
    (answerInOrder chainRows) (answerInOrder_answers _ (List.Perm.refl _))
  have hupper : ∀ e ∈ chainRows, toUpperCase e.name = e.name := by decide
  have hkind : ∀ e ∈ chainRows, ∀ e' ∈ chainRows, e.name = e'.name →
      normalizeKind e.type = normalizeKind e'.type ∧
        toUpperCase e.referencedType = toUpperCase e'.referencedType := by decide
  refine ⟨fun e he => chainRows_visited e he.1.1, fun e hv => hupper e hv.1.1,
    fun e e' hv hv' hn => (hkind e hv.1.1 e' hv'.1.1 hn).1,
    fun e e' hv hv' hn _ => (hkind e hv.1.1 e' hv'.1.1 hn).2⟩

/-- A trigger on a table, and a procedure that reads it, with one name. -/
def sameNameRows : List DependencyEdge :=
  [⟨"AUDIT_EMP".toList, "TRIGGER".toList, "EMP".toList, "HR".toList, "TABLE".toList⟩,
   ⟨"AUDIT_EMP".toList, "PROCEDURE".toList, "EMP".toList, "HR".toList, "TABLE".toList⟩]

/-- **Two objects of one name**: the procedure is not returned. -/
theorem same_name : Answers sameNameRows "HR".toList (answerInOrder sameNameRows) ∧
    ¬ ∃ r, discoverPlsql (fun _ _ => .eq) (answerInOrder sameNameRows) "HR".toList ["EMP".toList] =
      .ok r ∧ Exact sameNameRows "HR".toList ["EMP".toList] r := by
  refine ⟨answerInOrder_answers _ (List.Perm.refl _), ?_⟩
  intro hex
  obtain ⟨r, hr, h⟩ := hex
  have hrun : discoverPlsql (fun _ _ => .eq) (answerInOrder sameNameRows) "HR".toList
      ["EMP".toList] = .ok {
    objects := [⟨.trigger, "HR".toList, "AUDIT_EMP".toList, ["EMP".toList, "AUDIT_EMP".toList]⟩]
    dependencies := [⟨.trigger, "HR".toList, "AUDIT_EMP".toList, "TABLE".toList, "HR".toList,
      "EMP".toList, .included⟩] } := by decide +kernel
  rw [hr] at hrun
  obtain rfl := Except.ok.inj hrun
  have hseed : Hops (SeedTable ["EMP".toList]) (DependsOn sameNameRows "HR".toList) 0
      (.table "EMP".toList) := .start ⟨_, mem_cons_self, rfl⟩
  have hproc : ReachedObject sameNameRows "HR".toList ["EMP".toList] .procedure
      "AUDIT_EMP".toList := by
    refine ⟨1, by decide, hseed.next ⟨_, .procedure, ⟨mem_cons_of_mem _ mem_cons_self,
      rfl, by decide⟩, by decide, by decide, rfl⟩⟩
  obtain ⟨o, ho, hk, -⟩ := (h.objects _ _).mpr hproc
  obtain rfl := mem_singleton.mp ho
  cases hk

end Veesker.Sandbox
