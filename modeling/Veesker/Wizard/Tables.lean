/-
  File:      Veesker/Wizard/Tables.lean
  Subject:   THE TABLES OF THE SANDBOX (src/lib/stores/publish-wizard.svelte.ts `effectiveTables`),
             after any sequence of picks, exclusions and closure updates.

  The wizard keeps picks, exclusions and additions in upper case, and the names of the closure as
  they come.

  * `TableOp.picks`, `.excludes`, `.adds`, `.closes` -- what an operation has to say on a table;
  * `Lawful` -- the law on the list, in terms of the operations alone;
  * **`lawful_iff`** -- it holds if and only if a closure name that is not in upper case meets no
    other mention of its table.
-/
import Veesker.Run.LastWord
import Veesker.Text.UpperTwice
import Veesker.Wizard.Store

namespace Veesker.Wizard

open Format Vsk Sandbox Run List

variable {ops : List TableOp}

/-! ## 1. The operations -/

inductive TableOp where
  | addExplicitTable (name : Text)
  | removeExplicitTable (name : Text)
  | excludeTable (name : Text)
  | unexcludeTable (name : Text)
  | addManual (name : Text)
  | removeManual (name : Text)
  | applyFkClosure (closure : FkClosureResult)
  deriving DecidableEq

def TableOp.apply (s : PublishWizardState) : TableOp → PublishWizardState
  | .addExplicitTable name => Wizard.addExplicitTable s name
  | .removeExplicitTable name => Wizard.removeExplicitTable s name
  | .excludeTable name => Wizard.excludeTable s name
  | .unexcludeTable name => Wizard.unexcludeTable s name
  | .addManual name => Wizard.addManual s name
  | .removeManual name => Wizard.removeManual s name
  | .applyFkClosure closure => Wizard.applyFkClosure s closure

/-- A new wizard after these operations. -/
def runOps (ops : List TableOp) : PublishWizardState := ops.foldl TableOp.apply {}

/-- An answer for the table `k`, where the operation names it in some letter case. -/
def about (k name : Text) (b : Bool) : Option Bool := if toUpperCase name = k then some b else none

def TableOp.picks (k : Text) : TableOp → Option Bool
  | .addExplicitTable name => about k name true
  | .removeExplicitTable name => about k name false
  | _ => none

def TableOp.excludes (k : Text) : TableOp → Option Bool
  | .excludeTable name => about k name true
  | .unexcludeTable name => about k name false
  | _ => none

def TableOp.adds (k : Text) : TableOp → Option Bool
  | .addManual name => about k name true
  | .removeManual name => about k name false
  | _ => none

def TableOp.closes : TableOp → Option (List FkClosureEntry)
  | .applyFkClosure closure => some closure.entries
  | _ => none

/-- The table was last picked, and not put back. -/
def Picked (ops : List TableOp) (k : Text) : Prop := lastSaid (TableOp.picks k) ops = some true

/-- The last exclude of the table was not undone. -/
def Excluded (ops : List TableOp) (k : Text) : Prop := lastSaid (TableOp.excludes k) ops = some true

def Added (ops : List TableOp) (k : Text) : Prop := lastSaid (TableOp.adds k) ops = some true

/-- The entries of the last closure update. -/
def lastClosure (ops : List TableOp) : List FkClosureEntry := (lastSaid TableOp.closes ops).getD []

/-- A foreign-key table: an entry with a depth above 0. -/
def ForeignKey (ops : List TableOp) (e : FkClosureEntry) : Prop :=
  e ∈ lastClosure ops ∧ e.depth ≠ 0

/-! ## 2. The law -/

/-- A table is known by its name in upper case. -/
def EffectiveTable.key (t : EffectiveTable) : Text := toUpperCase t.name

/-- The law on the list that the wizard shows after these operations. -/
structure Lawful (ops : List TableOp) (out : List EffectiveTable) : Prop where
  distinct : (out.map EffectiveTable.key).Nodup
  excluded : ∀ t ∈ out, ¬ Excluded ops t.key
  complete : ∀ k, ¬ Excluded ops k →
    (Picked ops k ∨ Added ops k ∨ ∃ e, ForeignKey ops e ∧ toUpperCase e.name = k) →
    ∃ t ∈ out, t.key = k
  explicit : ∀ t ∈ out, Picked ops t.key → t.origin = .explicit

/-- A foreign-key table whose name is not in upper case is mentioned by its entry only. -/
def MixedAlone (ops : List TableOp) : Prop :=
  ∀ e, ForeignKey ops e → toUpperCase e.name ≠ e.name →
    ¬ Excluded ops (toUpperCase e.name) ∧ ¬ Picked ops (toUpperCase e.name) ∧
      ¬ Added ops (toUpperCase e.name) ∧
      ∀ e', ForeignKey ops e' → toUpperCase e'.name = toUpperCase e.name → e'.name = e.name

/-! ## 3. The state after a run -/

theorem contains_addTo (set : List Text) (x k : Text) :
    (addTo set x).contains k = (if x = k then true else set.contains k) := by
  rw [addTo]
  split
  · rename_i hx
    split
    · rename_i hk
      rw [← hk]
      exact hx
    · rfl
  · rw [contains_append]
    by_cases hk : x = k
    · simp [hk]
    · simp [hk, Ne.symm hk]

theorem contains_deleteFrom (set : List Text) (x k : Text) :
    (deleteFrom set x).contains k = (if x = k then false else set.contains k) := by
  rw [deleteFrom]
  by_cases hk : x = k
  · subst hk
    rw [if_pos rfl]
    simp [contains_eq_mem]
  · rw [if_neg hk, contains_eq_mem, contains_eq_mem]
    simp [mem_filter, Ne.symm hk]

/-- Is the table among the picks? -/
def isPicked (s : PublishWizardState) (k : Text) : Bool :=
  s.tables.explicit.any fun t => t.name == k

theorem isPicked_addExplicitTable (s : PublishWizardState) (name k : Text) :
    isPicked (addExplicitTable s name) k =
      (if toUpperCase name = k then true else isPicked s k) := by
  simp only [addExplicitTable]
  split
  · rename_i hany
    split
    · rename_i hk
      rw [← hk]
      exact hany
    · rfl
  · simp only [isPicked, any_append, any_cons, any_nil, Bool.or_false]
    by_cases hk : toUpperCase name = k
    · simp [hk]
    · simp [hk]

theorem isPicked_removeExplicitTable (s : PublishWizardState) (name k : Text) :
    isPicked (removeExplicitTable s name) k =
      (if toUpperCase name = k then false else isPicked s k) := by
  simp only [isPicked, removeExplicitTable, any_filter]
  by_cases hk : toUpperCase name = k
  · rw [if_pos hk, hk, any_eq_false]
    intro t _
    simp
  · rw [if_neg hk]
    congr 1
    funext t
    by_cases ht : t.name = k
    · simp [ht, Ne.symm hk]
    · simp [ht]

theorem getD_about (k name : Text) (b v : Bool) :
    (about k name b).getD v = (if toUpperCase name = k then b else v) := by
  rw [about]
  split <;> rfl

theorem getD_false_iff {o : Option Bool} : o.getD false = true ↔ o = some true := by
  cases o <;> simp

/-- **The four lists of the wizard** show what was last said of a table. -/
theorem isPicked_runOps (ops : List TableOp) (k : Text) :
    isPicked (runOps ops) k = true ↔ Picked ops k := by
  have hstep : ∀ s (o : TableOp), isPicked (o.apply s) k = (o.picks k).getD (isPicked s k) := by
    intro s o
    cases o with
    | addExplicitTable name => exact (isPicked_addExplicitTable s name k).trans (getD_about ..).symm
    | removeExplicitTable name =>
      exact (isPicked_removeExplicitTable s name k).trans (getD_about ..).symm
    | excludeTable | unexcludeTable | addManual | removeManual | applyFkClosure => rfl
  rw [runOps, view_foldl (isPicked · k) (TableOp.picks k) TableOp.apply hstep]
  exact getD_false_iff

theorem excluded_runOps (ops : List TableOp) (k : Text) :
    k ∈ (runOps ops).tables.excluded ↔ Excluded ops k := by
  have hstep : ∀ (s : PublishWizardState) (o : TableOp), (o.apply s).tables.excluded.contains k =
      (o.excludes k).getD (s.tables.excluded.contains k) := by
    intro s o
    cases o with
    | excludeTable name => exact (contains_addTo _ _ k).trans (getD_about ..).symm
    | unexcludeTable name => exact (contains_deleteFrom _ _ k).trans (getD_about ..).symm
    | addExplicitTable name =>
      change (addExplicitTable s name).tables.excluded.contains k = _
      simp only [addExplicitTable]
      split <;> rfl
    | removeExplicitTable | addManual | removeManual | applyFkClosure => rfl
  rw [← contains_iff_mem, runOps,
    view_foldl (fun s => s.tables.excluded.contains k) (TableOp.excludes k) TableOp.apply hstep]
  exact getD_false_iff

theorem manual_runOps (ops : List TableOp) (k : Text) :
    k ∈ (runOps ops).tables.manual ↔ Added ops k := by
  have hstep : ∀ (s : PublishWizardState) (o : TableOp), (o.apply s).tables.manual.contains k =
      (o.adds k).getD (s.tables.manual.contains k) := by
    intro s o
    cases o with
    | addManual name => exact (contains_addTo _ _ k).trans (getD_about ..).symm
    | removeManual name => exact (contains_deleteFrom _ _ k).trans (getD_about ..).symm
    | addExplicitTable name =>
      change (addExplicitTable s name).tables.manual.contains k = _
      simp only [addExplicitTable]
      split <;> rfl
    | removeExplicitTable | excludeTable | unexcludeTable | applyFkClosure => rfl
  rw [← contains_iff_mem, runOps,
    view_foldl (fun s => s.tables.manual.contains k) (TableOp.adds k) TableOp.apply hstep]
  exact getD_false_iff

theorem fkClosure_runOps (ops : List TableOp) :
    (runOps ops).tables.fkClosure = lastClosure ops := by
  have hstep : ∀ (s : PublishWizardState) (o : TableOp),
      (o.apply s).tables.fkClosure = o.closes.getD s.tables.fkClosure := by
    intro s o
    cases o with
    | applyFkClosure closure => rfl
    | addExplicitTable name =>
      change (addExplicitTable s name).tables.fkClosure = _
      simp only [addExplicitTable]
      split <;> rfl
    | removeExplicitTable | excludeTable | unexcludeTable | addManual | removeManual => rfl
  exact view_foldl (fun s => s.tables.fkClosure) TableOp.closes TableOp.apply hstep {} ops

/-- Only a table in upper case has been said to be something. -/
theorem upper_of_lastSaid {word : TableOp → Option Bool} {k : Text}
    (hword : ∀ o, word o ≠ none → toUpperCase k = k) (h : lastSaid word ops = some true) :
    toUpperCase k = k := by
  obtain ⟨o, _, ho⟩ := mem_filterMap.mp (mem_of_getLast? h)
  exact hword o (by rw [ho]; simp)

theorem upper_of_about {k name : Text} {b : Bool} (h : about k name b ≠ none) :
    toUpperCase k = k := by
  by_cases hk : toUpperCase name = k
  · rw [← hk, toUpperCase_toUpperCase]
  · exact absurd (if_neg hk) h

theorem Picked.upper {k : Text} (h : Picked ops k) : toUpperCase k = k := by
  refine upper_of_lastSaid (fun o ho => ?_) h
  cases o with
  | addExplicitTable | removeExplicitTable => exact upper_of_about ho
  | excludeTable | unexcludeTable | addManual | removeManual | applyFkClosure => exact absurd rfl ho

theorem Excluded.upper {k : Text} (h : Excluded ops k) :
    toUpperCase k = k := by
  refine upper_of_lastSaid (fun o ho => ?_) h
  cases o with
  | excludeTable | unexcludeTable => exact upper_of_about ho
  | addExplicitTable | removeExplicitTable | addManual | removeManual | applyFkClosure =>
    exact absurd rfl ho

theorem Added.upper {k : Text} (h : Added ops k) : toUpperCase k = k := by
  refine upper_of_lastSaid (fun o ho => ?_) h
  cases o with
  | addManual | removeManual => exact upper_of_about ho
  | addExplicitTable | removeExplicitTable | excludeTable | unexcludeTable | applyFkClosure =>
    exact absurd rfl ho

/-! ## 4. The list -/

/-- No table is picked twice. -/
theorem explicit_nodup (ops : List TableOp) :
    ((runOps ops).tables.explicit.map PrimaryTableSpec.name).Nodup := by
  induction ops using List.reverseRecOn with
  | nil => exact nodup_nil
  | append_singleton ops o ih =>
    rw [runOps, foldl_append, foldl_cons, foldl_nil]
    change (TableOp.apply (runOps ops) o |>.tables.explicit.map PrimaryTableSpec.name).Nodup
    cases o with
    | addExplicitTable name =>
      change ((addExplicitTable (runOps ops) name).tables.explicit.map
        PrimaryTableSpec.name).Nodup
      simp only [addExplicitTable]
      split
      · exact ih
      · rename_i hany
        rw [map_append, map_singleton]
        refine ih.append (nodup_singleton _) ?_
        rw [disjoint_singleton]
        intro hmem
        obtain ⟨t, ht, hname⟩ := mem_map.mp hmem
        exact hany (any_eq_true.mpr ⟨t, ht, beq_iff_eq.mpr hname⟩)
    | removeExplicitTable name => exact ih.sublist (List.Sublist.map _ filter_sublist)
    | excludeTable | unexcludeTable | addManual | removeManual | applyFkClosure => exact ih

section Loops

variable {α : Type} {excluded : List Text} {out : List EffectiveTable} {t x : EffectiveTable}

theorem addEffective_nodup (h : (out.map EffectiveTable.name).Nodup) :
    ((addEffective excluded out t).map EffectiveTable.name).Nodup := by
  rw [addEffective]
  split
  · exact h
  · split
    · exact h
    · rename_i hany
      rw [map_append, map_singleton]
      refine h.append (nodup_singleton _) ?_
      rw [disjoint_singleton]
      intro hmem
      obtain ⟨x, hx, hname⟩ := mem_map.mp hmem
      exact hany (any_eq_true.mpr ⟨x, hx, beq_iff_eq.mpr hname⟩)

theorem foldl_addEffective_nodup (f : α → Option EffectiveTable) (l : List α)
    (h : (out.map EffectiveTable.name).Nodup) :
    ((l.foldl (fun out a => (f a).elim out (addEffective excluded out)) out).map
      EffectiveTable.name).Nodup := by
  induction l generalizing out with
  | nil => exact h
  | cons a l ih =>
    rw [foldl_cons]
    refine ih ?_
    cases f a with
    | none => exact h
    | some t => exact addEffective_nodup h

/-- An entry of its own name is taken only where there is none yet. -/
theorem new_of_addEffective (h : x ∈ addEffective excluded out t) :
    x ∈ out ∨ x.name ∉ out.map EffectiveTable.name := by
  rw [addEffective] at h
  split at h
  · exact .inl h
  · split at h
    · exact .inl h
    · rename_i hany
      rcases mem_append.mp h with h | h
      · exact .inl h
      · right
        intro hmem
        obtain ⟨y, hy, hname⟩ := mem_map.mp hmem
        rw [mem_singleton.mp h] at hname
        exact hany (any_eq_true.mpr ⟨y, hy, beq_iff_eq.mpr hname⟩)

theorem new_of_foldl (f : α → Option EffectiveTable) (l : List α)
    (h : x ∈ l.foldl (fun out a => (f a).elim out (addEffective excluded out)) out) :
    x ∈ out ∨ x.name ∉ out.map EffectiveTable.name := by
  induction l generalizing out with
  | nil => exact .inl h
  | cons a l ih =>
    rw [foldl_cons] at h
    cases ha : f a with
    | none =>
      rw [ha] at h
      exact ih h
    | some t =>
      rw [ha] at h
      rcases ih h with h | h
      · exact new_of_addEffective h
      · exact .inr fun hmem => h (mem_addEffective.mpr (.inl hmem))

end Loops

/-- The names are pairwise distinct, letter case and all. -/
theorem effectiveTables_nodup (ops : List TableOp) :
    ((effectiveTables (runOps ops)).map EffectiveTable.name).Nodup := by
  rw [effectiveTables_eq]
  refine foldl_addEffective_nodup _ _ (foldl_addEffective_nodup _ _ ?_)
  rw [pickedTables, map_map]
  exact (explicit_nodup ops).sublist (List.Sublist.map _ filter_sublist)

/-- What a table comes from, by the operations. -/
theorem shown_iff (ops : List TableOp) (name : Text) :
    name ∈ (effectiveTables (runOps ops)).map EffectiveTable.name ↔
      ¬ Excluded ops name ∧
        (Picked ops name ∨ (∃ e, ForeignKey ops e ∧ e.name = name) ∨ Added ops name) := by
  have hpicked : name ∈ (runOps ops).tables.explicit.map PrimaryTableSpec.name ↔
      Picked ops name := by
    rw [← isPicked_runOps, isPicked, any_eq_true, mem_map]
    simp only [beq_iff_eq]
  rw [mem_effectiveTables, excluded_runOps, manual_runOps, hpicked, fkClosure_runOps]
  simp only [ForeignKey, and_assoc]

/-- A pick that is shown keeps its place. -/
theorem explicit_of_picked {t : EffectiveTable}
    (ht : t ∈ effectiveTables (runOps ops)) (hpicked : Picked ops t.name) :
    t.origin = .explicit := by
  have hfirst : t.name ∈ (pickedTables (runOps ops)).map EffectiveTable.name := by
    have hex : t.name ∉ (runOps ops).tables.excluded := fun h =>
      ((shown_iff ops t.name).mp (mem_map_of_mem ht)).1 ((excluded_runOps ops _).mp h)
    obtain ⟨x, hx, hname⟩ := any_eq_true.mp ((isPicked_runOps ops _).mpr hpicked)
    rw [beq_iff_eq] at hname
    refine mem_map.mpr ⟨⟨x.name, 0, .explicit⟩, mem_map.mpr ⟨x, ?_, rfl⟩, hname⟩
    rw [mem_filter, hname]
    exact ⟨hx, by simpa using hex⟩
  rw [effectiveTables_eq] at ht
  have hpickedTable : t ∈ pickedTables (runOps ops) := by
    rcases new_of_foldl _ _ ht with ht | ht
    · exact (new_of_foldl _ _ ht).resolve_right (absurd hfirst)
    · refine absurd ?_ ht
      rw [mem_foldl_addEffective]
      exact .inl hfirst
  obtain ⟨x, _, rfl⟩ := mem_map.mp hpickedTable
  rfl

/-- A table that is shown is none of the closure's mixed names, or is in upper case. -/
theorem upper_or_foreign {name : Text}
    (h : name ∈ (effectiveTables (runOps ops)).map EffectiveTable.name) :
    toUpperCase name = name ∨
      ∃ e, ForeignKey ops e ∧ e.name = name ∧ toUpperCase e.name ≠ e.name := by
  by_cases hup : toUpperCase name = name
  · exact .inl hup
  · rcases ((shown_iff ops name).mp h).2 with hp | ⟨e, he, rfl⟩ | ha
    · exact .inl hp.upper
    · exact .inr ⟨e, he, rfl, hup⟩
    · exact .inl ha.upper

/-- Under the condition an entry is known by its table. -/
theorem name_of_key (h : MixedAlone ops) {a b : Text}
    (ha : a ∈ (effectiveTables (runOps ops)).map EffectiveTable.name)
    (hb : b ∈ (effectiveTables (runOps ops)).map EffectiveTable.name)
    (hab : toUpperCase a = toUpperCase b) : a = b := by
  -- a mixed name of the closure against any other mention
  have hmixed : ∀ e, ForeignKey ops e → toUpperCase e.name ≠ e.name → ∀ b,
      b ∈ (effectiveTables (runOps ops)).map EffectiveTable.name →
      toUpperCase b = toUpperCase e.name → b = e.name := by
    intro e he hne b hb hkey
    obtain ⟨_, hp, hd, hsame⟩ := h e he hne
    rcases ((shown_iff ops b).mp hb).2 with hpb | ⟨e', he', rfl⟩ | hab
    · rw [← hkey, hpb.upper] at hp
      exact absurd hpb hp
    · exact hsame e' he' hkey
    · rw [← hkey, hab.upper] at hd
      exact absurd hab hd
  rcases upper_or_foreign ha with hua | ⟨e, he, rfl, hne⟩
  · rcases upper_or_foreign hb with hub | ⟨e, he, rfl, hne⟩
    · rw [← hua, hab, hub]
    · exact hmixed e he hne a ha hab
  · exact (hmixed e he hne b hb hab.symm).symm

theorem lawful_of_mixedAlone (h : MixedAlone ops) :
    Lawful ops (effectiveTables (runOps ops)) := by
  refine ⟨?_, ?_, ?_, ?_⟩
  · have hkeys : (effectiveTables (runOps ops)).map EffectiveTable.key =
        ((effectiveTables (runOps ops)).map EffectiveTable.name).map toUpperCase := by
      rw [map_map]
      rfl
    rw [hkeys]
    exact (effectiveTables_nodup ops).map_on fun a ha b hb => name_of_key h ha hb
  · intro t ht hex
    have hname := mem_map_of_mem (f := EffectiveTable.name) ht
    rcases upper_or_foreign hname with hup | ⟨e, he, heq, hne⟩
    · rw [EffectiveTable.key, hup] at hex
      exact ((shown_iff ops t.name).mp hname).1 hex
    · rw [EffectiveTable.key, ← heq] at hex
      exact (h e he hne).1 hex
  · intro k hex hlisted
    have hshown : ∀ name, ¬ Excluded ops name → toUpperCase name = k →
        (Picked ops name ∨ (∃ e, ForeignKey ops e ∧ e.name = name) ∨ Added ops name) →
        ∃ t ∈ effectiveTables (runOps ops), t.key = k := by
      intro name hex hkey hfrom
      obtain ⟨t, ht, rfl⟩ := mem_map.mp ((shown_iff ops name).mpr ⟨hex, hfrom⟩)
      exact ⟨t, ht, hkey⟩
    rcases hlisted with hp | ha | ⟨e, he, hkey⟩
    · exact hshown k hex hp.upper (.inl hp)
    · exact hshown k hex ha.upper (.inr (.inr ha))
    · refine hshown e.name (fun hexe => ?_) hkey (.inr (.inl ⟨e, he, rfl⟩))
      rw [← hkey, hexe.upper] at hex
      exact hex hexe
  · intro t ht hp
    rcases upper_or_foreign (mem_map_of_mem ht) with hup | ⟨e, he, heq, hne⟩
    · rw [EffectiveTable.key, hup] at hp
      exact explicit_of_picked ht hp
    · rw [EffectiveTable.key, ← heq] at hp
      exact absurd hp (h e he hne).2.1

theorem mixedAlone_of_lawful
    (h : Lawful ops (effectiveTables (runOps ops))) : MixedAlone ops := by
  intro e he hne
  have hshown : ∀ e', ForeignKey ops e' → ¬ Excluded ops e'.name →
      ∃ t ∈ effectiveTables (runOps ops), t.name = e'.name := fun e' he' hex =>
    mem_map.mp ((shown_iff ops e'.name).mpr ⟨hex, .inr (.inl ⟨e', he', rfl⟩)⟩)
  obtain ⟨t, ht, hname⟩ := hshown e he fun hex => hne hex.upper
  have hkey : t.key = toUpperCase e.name := congrArg toUpperCase hname
  -- two entries of one table are one entry
  have hone : ∀ u ∈ effectiveTables (runOps ops), u.key = toUpperCase e.name → u = t :=
    fun u hu hk => inj_on_of_nodup_map h.distinct hu ht (hk.trans hkey.symm)
  have hex : ¬ Excluded ops (toUpperCase e.name) := by
    rw [← hkey]
    exact h.excluded t ht
  refine ⟨hex, ?_, ?_, ?_⟩
  · intro hp
    obtain ⟨u, hu, huname⟩ := mem_map.mp ((shown_iff ops _).mpr ⟨hex, .inl hp⟩)
    have hut : u = t := hone u hu (by rw [EffectiveTable.key, huname, toUpperCase_toUpperCase])
    rw [hut, hname] at huname
    exact hne huname.symm
  · intro ha
    obtain ⟨u, hu, huname⟩ := mem_map.mp ((shown_iff ops _).mpr ⟨hex, .inr (.inr ha)⟩)
    have hut : u = t := hone u hu (by rw [EffectiveTable.key, huname, toUpperCase_toUpperCase])
    rw [hut, hname] at huname
    exact hne huname.symm
  · intro e' he' hkey'
    obtain ⟨u, hu, huname⟩ := hshown e' he' fun hexe => by
      rw [← hkey', hexe.upper] at hex
      exact hex hexe
    have hut : u = t := hone u hu (by rw [EffectiveTable.key, huname, hkey'])
    rw [← huname, hut, hname]

/-- **The law holds** after exactly the sequences in which a foreign-key table whose name is not in
upper case is mentioned by its entry only. -/
theorem lawful_iff (ops : List TableOp) :
    Lawful ops (effectiveTables (runOps ops)) ↔ MixedAlone ops :=
  ⟨mixedAlone_of_lawful, lawful_of_mixedAlone⟩

/-- ORDERS refers to a table whose name was given in quotation marks; its row is excluded. -/
def mixedClosure : List TableOp :=
  [.addExplicitTable "ORDERS".toList,
   .applyFkClosure ⟨[{ name := "ORDERS".toList, depth := 0 },
     { name := "Customers".toList, depth := 1 }], []⟩,
   .excludeTable "Customers".toList]

theorem excluded_shown :
    (effectiveTables (runOps mixedClosure)).map EffectiveTable.name =
        ["ORDERS".toList, "Customers".toList] ∧
      ¬ ∀ ops, Lawful ops (effectiveTables (runOps ops)) := by
  refine ⟨by decide, fun h => ?_⟩
  refine (h mixedClosure).excluded ⟨"Customers".toList, 1, .fk⟩ (by decide) ?_
  unfold Excluded
  decide

end Veesker.Wizard
