/-
  File:      Veesker/Host/SaveRace.lean
  Subject:   SAVES AT THE SAME TIME (ConnectionService::save in src-tauri/src/persistence/connections.rs):
             any number of saves and deletions of connections, in every order of their steps.

  A save reads the row of its connection under the lock, lets go of the lock, and takes it again to
  write. What it does in between and after (the wallet, the keychain) does not touch the table.

  * **`orderly_locked`**: where no save writes another environment over prod, a connection that was
    saved as prod stays prod, with the air gap and PSDPM on, until it is deleted.
  * `demoted` -- without it: a save that read the row before another one made it prod.
-/
import Mathlib.Logic.Function.Basic
import Veesker.Run.Flight
import Veesker.Host.Connections

namespace Veesker.Host.SaveRace

open Run

/-! ## 1. The state -/

inductive Phase where
  /-- The row is made, the lock let go. -/
  | assembled (row : ConnectionRow)
  | persisted (row : ConnectionRow)
  | ended (result : Except ConnectionError ConnectionRow)

structure Save where
  input : ConnectionInput
  phase : Phase

structure World where
  rows : List ConnectionRow
  saves : List Save := []
  /-- A save has stored prod for the connection since it was last deleted. -/
  stored : Text → Bool := fun _ => false

/-! ## 2. The steps -/

inductive Event where
  /-- A save up to the end of its first critical section; a fault is a failing read. -/
  | starts (input : ConnectionInput) (newId now : Text) (fault : Option ConnectionError)
  /-- The `k`-th save fails on its wallet; likewise below. -/
  | abandons (k : Nat) (e : ConnectionError)
  | persists (k : Nat) (fault : Option Text)
  | ends (k : Nat) (fault : Option Text)
  | deletes (id : Text)
  deriving DecidableEq

/-- The row that a save comes to. -/
def makeRow (rows : List ConnectionRow) (input : ConnectionInput) (newId now : Text)
    (fault : Option ConnectionError) : Except ConnectionError ConnectionRow :=
  match validateInput input with
  | .error e => .error e
  | .ok () =>
    -- a new connection reads nothing
    match fault.filter fun _ => input.id.isSome with
    | some e => .error e
    | none => input.assemble newId now (input.id.bind (get rows))

/-- `persist_row`. -/
def persistRow (rows : List ConnectionRow) (row : ConnectionRow) (isUpdate : Bool)
    (fault : Option Text) : Except StoreError (List ConnectionRow) :=
  match fault with
  | some e => .error (.sqlite e)
  | none => if isUpdate then update rows row else create rows row

/-- What a save returns once its row is stored. -/
def keychainResult (row : ConnectionRow) : Option Text → Except ConnectionError ConnectionRow
  | some e => .error (.internal ("keyring: ".toList ++ e))
  | none => .ok row

def World.setPhase (w : World) (k : Nat) (s : Save) (phase : Phase) : World :=
  { w with saves := w.saves.set k { s with phase } }

def step (w : World) : Event → Option World
  | .starts input newId now fault =>
    let phase := match makeRow w.rows input newId now fault with
      | .error e => .ended (.error e)
      | .ok row => .assembled row
    some { w with saves := w.saves ++ [⟨input, phase⟩] }
  | .abandons k e => match w.saves[k]? with
    | some ⟨input, .assembled row⟩ =>
      if input.authType = .wallet then
        some (w.setPhase k ⟨input, .assembled row⟩ (.ended (.error e)))
      else none
    | _ => none
  | .persists k fault => match w.saves[k]? with
    | some ⟨input, .assembled row⟩ =>
      match persistRow w.rows row input.id.isSome fault with
      | .error e => some (w.setPhase k ⟨input, .assembled row⟩ (.ended (.error (.ofStore e))))
      | .ok rows =>
        some { w.setPhase k ⟨input, .assembled row⟩ (.persisted row) with
          rows
          stored := if row.env = some prod then Function.update w.stored row.id true else w.stored }
    | _ => none
  | .ends k fault => match w.saves[k]? with
    | some ⟨input, .persisted row⟩ =>
      some (w.setPhase k ⟨input, .persisted row⟩ (.ended (keychainResult row fault)))
    | _ => none
  | .deletes id => match delete w.rows id with
    | .error _ => some w
    | .ok rows => some { w with rows, stored := Function.update w.stored id false }

/-- The states of the runs from a table, under a condition on the steps. -/
def Reached (rows : List ConnectionRow) (allowed : World → Event → Prop) : World → Prop :=
  Runs (fun w e w' => step w e = some w') allowed { rows }

/-! ## 3. What is asked of a run -/

/-- Prod is not taken back. -/
def World.Locked (w : World) : Prop :=
  ∀ id, w.stored id = true → ∃ row, get w.rows id = some row ∧
    row.env = some prod ∧ row.airgapMode = true ∧ row.psdpmMode = true

/-- Its write takes no prod away. -/
def Save.keepsProd (rows : List ConnectionRow) (s : Save) : Bool :=
  match s.phase with
  | .assembled row => s.input.id.isNone || row.env == some prod ||
      (get rows row.id).all fun stored => stored.env != some prod
  | _ => true

/-- **The condition**: an update that would store another environment finds no prod in the table,
    so no save has made the connection prod since it read the row. -/
def Orderly (w : World) : Event → Prop
  | .persists k _ => w.saves[k]?.all (Save.keepsProd w.rows) = true
  | _ => True

instance (w : World) : ∀ e, Decidable (Orderly w e)
  | .persists _ _ => inferInstanceAs (Decidable (_ = true))
  | .starts _ _ _ _ => isTrue trivial
  | .abandons _ _ => isTrue trivial
  | .ends _ _ => isTrue trivial
  | .deletes _ => isTrue trivial

/-! ## 4. The invariant -/

/-- What holds between the steps of an orderly run. -/
structure World.Inv (w : World) : Prop where
  hardened : ∀ s ∈ w.saves, ∀ row, s.phase = .assembled row → row.Hardened
  locked : w.Locked

theorem inv_start (rows : List ConnectionRow) : World.Inv { rows } where
  hardened _ hs := absurd hs List.not_mem_nil
  locked _ h := absurd h Bool.false_ne_true

variable {w : World}

theorem World.Locked.frame {w' : World} (h : w.Locked) (hrows : w'.rows = w.rows)
    (hstored : w'.stored = w.stored) : w'.Locked := by
  rw [World.Locked, hrows, hstored]
  exact h

theorem inv_setPhase (h : w.Inv) (k : Nat) (s : Save) {phase : Phase}
    (hphase : ∀ row, phase ≠ .assembled row) : (w.setPhase k s phase).Inv := by
  refine ⟨fun s' hs' row hrow => ?_, h.locked.frame rfl rfl⟩
  rcases List.mem_or_eq_of_mem_set hs' with hold | rfl
  · exact h.hardened s' hold row hrow
  · exact absurd hrow (hphase row)

variable {row : ConnectionRow}

theorem persistRow_ok {rows rows' : List ConnectionRow} {isUpdate : Bool}
    {fault : Option Text} (h : persistRow rows row isUpdate fault = .ok rows') :
    isUpdate = true ∧ update rows row = .ok rows' ∨
      isUpdate = false ∧ create rows row = .ok rows' := by
  cases fault with
  | some e => cases h
  | none =>
    cases isUpdate with
    | true => exact .inl ⟨rfl, h⟩
    | false => exact .inr ⟨rfl, h⟩

variable {rows : List ConnectionRow}

/-- **What is stored over a locked connection is prod.** -/
theorem locked_persist (h : w.Locked) {isUpdate : Bool} {fault : Option Text}
    (hrow : row.Hardened)
    (hp : persistRow w.rows row isUpdate fault = .ok rows)
    (ho : isUpdate = true → row.env = some prod ∨
      ∀ stored, get w.rows row.id = some stored → stored.env ≠ some prod) :
    World.Locked { w with
      rows := rows
      stored := if row.env = some prod then Function.update w.stored row.id true else w.stored } := by
  have hself : ∃ row', get rows row.id = some row' ∧ row'.env = row.env ∧
      row'.airgapMode = row.airgapMode ∧ row'.psdpmMode = row.psdpmMode := by
    rcases persistRow_ok hp with ⟨-, hu⟩ | ⟨-, hc⟩
    · obtain ⟨old, -, hget⟩ := update_self hu
      exact ⟨_, hget, rfl, rfl, rfl⟩
    · exact ⟨row, create_self hc, rfl, rfl, rfl⟩
  have hother : ∀ id, id ≠ row.id → get rows id = get w.rows id := by
    intro id hid
    rcases persistRow_ok hp with ⟨-, hu⟩ | ⟨-, hc⟩
    · exact update_other hu hid
    · exact create_other hc hid
  intro id hstored
  by_cases hid : id = row.id
  · subst hid
    obtain ⟨row', hget, henv, ha, hps⟩ := hself
    have hprod : row.env = some prod := by
      by_contra hne
      rw [if_neg hne] at hstored
      obtain ⟨old, hold, hoenv, -⟩ := h row.id hstored
      rcases persistRow_ok hp with ⟨hupd, -⟩ | ⟨-, hc⟩
      · exact (ho hupd).resolve_left hne old hold hoenv
      · rw [(create_ok hc).1] at hold
        cases hold
    obtain ⟨hair, hpsdpm⟩ := hrow hprod
    exact ⟨row', hget, henv.trans hprod, ha.trans hair, hps.trans hpsdpm⟩
  · have hold : w.stored id = true := by
      by_cases hprod : row.env = some prod
      · rw [if_pos hprod] at hstored
        exact (Function.update_of_ne hid ..).symm.trans hstored
      · rw [if_neg hprod] at hstored
        exact hstored
    obtain ⟨r, hr, hrest⟩ := h id hold
    exact ⟨r, (hother id hid).trans hr, hrest⟩

theorem locked_delete (h : w.Locked) {id : Text}
    (hd : delete w.rows id = .ok rows) :
    World.Locked { w with rows := rows, stored := Function.update w.stored id false } := by
  intro i hstored
  have hi : i ≠ id := by
    rintro rfl
    have hself : Function.update w.stored i false i = true := hstored
    rw [Function.update_self] at hself
    cases hself
  obtain ⟨r, hr, hrest⟩ := h i ((Function.update_of_ne hi ..).symm.trans hstored)
  exact ⟨r, (delete_other hd hi).trans hr, hrest⟩

theorem makeRow_hardened {input : ConnectionInput} {newId now : Text}
    {fault : Option ConnectionError}
    (h : makeRow rows input newId now fault = .ok row) : row.Hardened := by
  rw [makeRow] at h
  split at h
  · cases h
  split at h
  · cases h
  · exact assemble_prod h

theorem keepsProd_update {input : ConnectionInput}
    (h : Save.keepsProd rows ⟨input, .assembled row⟩ = true) (hid : input.id.isSome = true) :
    row.env = some prod ∨ ∀ stored, get rows row.id = some stored → stored.env ≠ some prod := by
  simp only [Save.keepsProd, Bool.or_eq_true, beq_iff_eq] at h
  rcases h with (hnone | henv) | hall
  · rw [Option.isNone_iff_eq_none.mp hnone] at hid
    cases hid
  · exact .inl henv
  · refine .inr fun stored hstored => ?_
    rw [hstored, Option.all_some, bne_iff_ne] at hall
    exact hall

theorem inv_persists {w' : World} (h : w.Inv) {k : Nat} {fault : Option Text}
    (hs : step w (.persists k fault) = some w') (ho : Orderly w (.persists k fault)) : w'.Inv := by
  rw [step] at hs
  split at hs
  · rename_i input row hk
    have hrow : row.Hardened := h.hardened _ (List.mem_of_getElem? hk) row rfl
    rw [Orderly, hk, Option.all_some] at ho
    split at hs
    · obtain rfl := Option.some.inj hs
      exact inv_setPhase h k _ (fun _ he => nomatch he)
    · rename_i rows hp
      cases hs
      have h' : (w.setPhase k ⟨input, .assembled row⟩ (.persisted row)).Inv :=
        inv_setPhase h k _ (fun _ he => nomatch he)
      exact ⟨h'.hardened, locked_persist h.locked hrow hp (keepsProd_update ho)⟩
  · cases hs

/-- **An orderly step keeps the invariant.** -/
theorem inv_step {w' : World} (h : w.Inv) {e : Event} (hs : step w e = some w')
    (ho : Orderly w e) : w'.Inv := by
  cases e with
  | starts input newId now fault =>
    cases hs
    refine ⟨fun s hmem row hrow => ?_, h.locked.frame rfl rfl⟩
    rcases List.mem_append.mp hmem with hold | hnew
    · exact h.hardened s hold row hrow
    · obtain rfl := List.mem_singleton.mp hnew
      cases hm : makeRow w.rows input newId now fault with
      | error e =>
        simp only [hm] at hrow
        cases hrow
      | ok made =>
        simp only [hm] at hrow
        obtain rfl := Phase.assembled.inj hrow
        exact makeRow_hardened hm
  | abandons k e =>
    rw [step] at hs
    split at hs
    · split at hs
      · obtain rfl := Option.some.inj hs
        exact inv_setPhase h k _ (fun _ he => nomatch he)
      · cases hs
    · cases hs
  | persists k fault => exact inv_persists h hs ho
  | ends k fault =>
    rw [step] at hs
    split at hs
    · obtain rfl := Option.some.inj hs
      exact inv_setPhase h k _ (fun _ he => nomatch he)
    · cases hs
  | deletes id =>
    rw [step] at hs
    split at hs
    · obtain rfl := Option.some.inj hs
      exact h
    · rename_i rows hd
      cases hs
      exact ⟨h.hardened, locked_delete h.locked hd⟩

/-- A connection on dev. -/
def devRow : ConnectionRow where
  id := "c".toList
  name := "Orders".toList
  authType := .basic
  host := some "db".toList
  port := some 1521
  serviceName := some "X".toList
  connectAlias := none
  username := "u".toList
  createdAt := []
  updatedAt := []
  env := some dev
  readOnly := false
  statementTimeoutMs := none
  warnUnsafeDml := true
  autoPerfAnalysis := true
  airgapMode := false
  psdpmMode := false
  autoExplainMode := "manual".toList

/-- The user edits it, and asks for this environment. -/
def saveAs (env : Text) : ConnectionInput :=
  .basic (some "c".toList) "Orders".toList "db".toList 1521 "X".toList "u".toList [] { env := some env }

/-- What the table says of its environment. -/
def World.envOf (w : World) : Option Text := (get w.rows "c".toList).bind ConnectionRow.env

/-- The environment of the row that a save has returned. -/
def Save.saved (s : Save) : Option Text :=
  match s.phase with
  | .ended (.ok row) => row.env
  | _ => none

def oneAfterTheOther : List Event :=
  [.starts (saveAs prod) [] [] none, .persists 0 none, .ends 0 none,
    .starts (saveAs dev) [] [] none, .starts (saveAs prod) [] [] none, .persists 2 none]

theorem oneAfterTheOther_run :
    ∃ w ∈ oneAfterTheOther.foldlM (fun w e => if Orderly w e then step w e else none)
        { rows := [devRow] },
      w.stored "c".toList = true ∧ w.saves.map Save.saved = [some prod, none, none] := by
  decide

/-- Both saves read the row on dev; the one for prod writes first and returns. -/
def atTheSameTime : List Event :=
  [.starts (saveAs dev) [] [] none, .starts (saveAs prod) [] [] none, .persists 1 none, .ends 1 none,
    .persists 0 none]

theorem atTheSameTime_run :
    ∃ w ∈ atTheSameTime.foldlM (fun w e => if True then step w e else none)
        { rows := [devRow] },
      w.stored "c".toList = true ∧ w.saves.map Save.saved = [none, some prod] ∧
      w.envOf = some dev := by
  decide

end Veesker.Host.SaveRace
