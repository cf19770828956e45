/-
  File:      Veesker/Host/Migrate.lean
  Subject:   ENCRYPTING THE DATABASE IN PLACE (open_encrypted_or_migrate and
             migrate_plaintext_to_encrypted in src-tauri/src/persistence/connections.rs): any number
             of starts of the app, with a crash or a failing operation at every point.

  A rename is one step of the file system. An attempt is at the operation it does next; a crash ends
  it where it is. Of a database its rows are kept, and the key it is encrypted with.

  * **`orderly_keeps`**: where nothing stops between the two renames, and the way back does not fail,
    every database that is opened has all the rows there were.
  * `opened_empty` -- without it: a crash between the renames, and the next start opens an empty one.
-/
import Mathlib.Logic.Function.Basic
import Veesker.Run.Flight
import Veesker.Text.Js

namespace Veesker.Host.Migrate

open Run

variable {K R : Type}

/-! ## 1. The state -/

/-- The files next to each other: `veesker.db`, `veesker.migrated.<ts>.db`, `veesker.legacy.<ts>.db`. -/
inductive Name where
  | db
  | migrated (ts : Text)
  | legacy (ts : Text)
  deriving DecidableEq

inductive DbFile (K R : Type) where
  | plain (rows : List R)
  | encrypted (key : K) (rows : List R)
  /-- Neither, as a half-written file is. -/
  | broken
  deriving DecidableEq

/-- What an attempt does next. -/
inductive Phase (K : Type) where
  | idle
  /-- The key is there, and so is the file. -/
  | located (key : K)
  /-- The file is a plaintext database. -/
  | probed (key : K)
  | exported (key : K) (ts : Text)
  /-- The plaintext database is renamed. -/
  | aside (key : K) (ts : Text)
  /-- The encrypted one could not be renamed. -/
  | unplaced (ts : Text)
  /-- `open_with_pragma_key`. -/
  | placed (key : K)
  deriving DecidableEq

structure World (K R : Type) where
  files : Name → Option (DbFile K R)
  phase : Phase K := .idle
  /-- The rows of the databases that were opened. -/
  opened : List (List R) := []

/-! ## 2. The steps -/

inductive Event (K R : Type) where
  /-- What the keychain gives, and whether `exists` sees the file. -/
  | starts (key : Option K) (seen : Bool)
  /-- Whether a plaintext database answers the probe. -/
  | probes (answers : Bool)
  | exports (ts : Text)
  /-- The export fails or the process dies in it, and this is left of the new file. -/
  | exportFails (ts : Text) (left : Option (DbFile K R))
  | movesAside
  | movesAsideFails (removed : Bool)
  | movesIn
  | movesInFails
  | restores
  | restoreFails
  | opens
  | openFails
  | crashes
  /-- The app, with the database open, adds rows. -/
  | adds (rows : List R)

def World.set (w : World K R) (name : Name) (f : Option (DbFile K R)) : World K R :=
  { w with files := Function.update w.files name f }

/-- `fs::rename`. -/
def World.rename (w : World K R) (src dst : Name) : World K R :=
  (w.set dst (w.files src)).set src none

section

variable [DecidableEq K]

/-- A connection to the database, with its key set and tried. -/
def World.open (w : World K R) (key : K) : World K R :=
  match w.files .db with
  | none => { w.set .db (some (.encrypted key [])) with phase := .idle, opened := w.opened ++ [[]] }
  | some (.encrypted key' rows) =>
    if key' = key then { w with phase := .idle, opened := w.opened ++ [rows] }
    else { w with phase := .idle }
  | some _ => { w with phase := .idle }

/-- The beginning of an attempt, up to the probe. -/
def World.start (w : World K R) (key : Option K) (seen : Bool) : World K R :=
  match key with
  | none => w
  | some key =>
    if seen = true ∧ (w.files .db).isSome = true then { w with phase := .located key }
    else { w with phase := .placed key }

def step (w : World K R) : Event K R → Option (World K R)
  | .starts key seen => match w.phase with
    | .idle => some (w.start key seen)
    | _ => none
  | .probes answers => match w.phase, w.files .db with
    | .located key, some (.plain _) =>
      some { w with phase := if answers then .probed key else .placed key }
    | .located key, _ => some { w with phase := .placed key }
    | _, _ => none
  | .exports ts => match w.phase, w.files .db with
    | .probed key, some (.plain rows) =>
      some { w.set (.migrated ts) (some (.encrypted key rows)) with phase := .exported key ts }
    | _, _ => none
  | .exportFails ts left => match w.phase with
    | .probed _ => some { w.set (.migrated ts) left with phase := .idle }
    | _ => none
  | .movesAside => match w.phase with
    | .exported key ts => some { w.rename .db (.legacy ts) with phase := .aside key ts }
    | _ => none
  | .movesAsideFails removed => match w.phase with
    | .exported _ ts =>
      some { (if removed then w.set (.migrated ts) none else w) with phase := .idle }
    | _ => none
  | .movesIn => match w.phase with
    | .aside key ts => some { w.rename (.migrated ts) .db with phase := .placed key }
    | _ => none
  | .movesInFails => match w.phase with
    | .aside _ ts => some { w with phase := .unplaced ts }
    | _ => none
  | .restores => match w.phase with
    | .unplaced ts => some { w.rename (.legacy ts) .db with phase := .idle }
    | _ => none
  | .restoreFails => match w.phase with
    | .unplaced _ => some { w with phase := .idle }
    | _ => none
  | .opens => match w.phase with
    | .placed key => some (w.open key)
    | _ => none
  | .openFails => match w.phase with
    | .located _ | .placed _ => some { w with phase := .idle }
    | _ => none
  | .crashes => some { w with phase := .idle }
  | .adds rows => match w.phase, w.files .db with
    | .idle, some (.encrypted key old) => some (w.set .db (some (.encrypted key (old ++ rows))))
    | _, _ => none

/-- The states of the runs from a plaintext database, under a condition on the steps. -/
def Reached (rows : List R) (allowed : World K R → Event K R → Prop) : World K R → Prop :=
  Runs (fun w e w' => step w e = some w') allowed
    { files := Function.update (fun _ => none) .db (some (.plain rows)) }

end

/-! ## 3. What is asked of a run -/

/-- Every database that was opened has these rows. -/
def World.Keeps (rows : List R) (w : World K R) : Prop := ∀ o ∈ w.opened, rows ⊆ o

/-- The database is not in its place. -/
def Phase.between : Phase K → Bool
  | .aside _ _ => true
  | .unplaced _ => true
  | _ => false

/-- **The condition**: the process does not die between the rename of the plaintext database and
    that of the encrypted one or the way back, and the way back does not fail. -/
def Orderly (w : World K R) : Event K R → Prop
  | .crashes => w.phase.between = false
  | .restoreFails => False
  | _ => True

instance (w : World K R) : ∀ e, Decidable (Orderly w e)
  | .crashes => inferInstanceAs (Decidable (_ = false))
  | .restoreFails => isFalse id
  | .starts _ _ => isTrue trivial
  | .probes _ => isTrue trivial
  | .exports _ => isTrue trivial
  | .exportFails _ _ => isTrue trivial
  | .movesAside => isTrue trivial
  | .movesAsideFails _ => isTrue trivial
  | .movesIn => isTrue trivial
  | .movesInFails => isTrue trivial
  | .restores => isTrue trivial
  | .opens => isTrue trivial
  | .openFails => isTrue trivial
  | .adds _ => isTrue trivial

/-! ## 4. The invariant -/

/-- The file has all the rows. -/
def DbFile.Holds (rows : List R) : DbFile K R → Prop
  | .plain r => r = rows
  | .encrypted _ r => rows ⊆ r
  | .broken => False

/-- Where the rows are, by what is done next. -/
def World.Safe (rows : List R) (w : World K R) : Prop :=
  match w.phase with
  | .probed _ => w.files .db = some (.plain rows)
  | .exported key ts => w.files .db = some (.plain rows) ∧
      w.files (.migrated ts) = some (.encrypted key rows)
  | .aside key ts => w.files (.legacy ts) = some (.plain rows) ∧
      w.files (.migrated ts) = some (.encrypted key rows)
  | .unplaced ts => w.files (.legacy ts) = some (.plain rows)
  | _ => ∃ f, w.files .db = some f ∧ f.Holds rows

/-- What holds between the steps of an orderly run. -/
structure World.Inv (rows : List R) (w : World K R) : Prop where
  safe : w.Safe rows
  keeps : w.Keeps rows

theorem inv_start (rows : List R) :
    World.Inv (K := K) rows { files := Function.update (fun _ => none) .db (some (.plain rows)) } where
  safe := by
    refine ⟨.plain rows, ?_, rfl⟩
    simp only [Function.update_self]
  keeps _ h := absurd h List.not_mem_nil

variable {w : World K R} {rows : List R}

@[simp] theorem set_self (name : Name) (f : Option (DbFile K R)) :
    (w.set name f).files name = f := Function.update_self ..

theorem set_of_ne {name other : Name} (h : other ≠ name) (f : Option (DbFile K R)) :
    (w.set name f).files other = w.files other := Function.update_of_ne h ..

theorem db_ne_migrated {ts : Text} : Name.db ≠ .migrated ts := nofun

theorem db_ne_legacy {ts : Text} : Name.db ≠ .legacy ts := nofun

theorem migrated_ne_legacy {ts ts' : Text} : Name.migrated ts ≠ .legacy ts' := nofun

theorem rename_dst {src dst : Name} (h : dst ≠ src) : (w.rename src dst).files dst = w.files src := by
  rw [World.rename, set_of_ne h, set_self]

theorem rename_other {src dst name : Name} (hs : name ≠ src) (hd : name ≠ dst) :
    (w.rename src dst).files name = w.files name := by
  rw [World.rename, set_of_ne hs, set_of_ne hd]

theorem set_migrated_db (w : World K R) (ts : Text) (f : Option (DbFile K R)) :
    (w.set (.migrated ts) f).files .db = w.files .db := set_of_ne db_ne_migrated f

/-- Wherever an attempt is outside the two renames, the database is in its place. -/
theorem safe_db (h : w.Safe rows) (hb : w.phase.between = false) :
    ∃ f, w.files .db = some f ∧ f.Holds rows := by
  revert h hb
  rw [World.Safe]
  cases w.phase with
  | probed key => exact fun h _ => ⟨_, h, rfl⟩
  | exported key ts => exact fun h _ => ⟨_, h.1, rfl⟩
  | aside key ts => exact nofun
  | unplaced ts => exact nofun
  | idle => exact fun h _ => h
  | located key => exact fun h _ => h
  | placed key => exact fun h _ => h

theorem inv_open [DecidableEq K] (h : w.Inv rows) (hb : w.phase.between = false) (key : K) :
    (w.open key).Inv rows := by
  obtain ⟨f, hf, hholds⟩ := safe_db h.safe hb
  rw [World.open, hf]
  cases f with
  | plain r => exact ⟨⟨_, hf, hholds⟩, h.keeps⟩
  | broken => exact hholds.elim
  | encrypted key' r =>
    simp only
    split
    · refine ⟨⟨_, hf, hholds⟩, fun o ho => ?_⟩
      rcases List.mem_append.mp ho with ho | ho
      · exact h.keeps o ho
      · exact List.mem_singleton.mp ho ▸ hholds
    · exact ⟨⟨_, hf, hholds⟩, h.keeps⟩

/-- **An orderly step keeps the invariant.** -/
theorem inv_step [DecidableEq K] {w' : World K R} (h : w.Inv rows) {e : Event K R}
    (hs : step w e = some w') (ho : Orderly w e) : w'.Inv rows := by
  have hsafe := h.safe
  cases e with
  | starts key seen =>
    rw [step] at hs
    split at hs
    · rename_i hphase
      have hdb := safe_db hsafe (by rw [hphase]; rfl)
      cases hs
      cases key with
      | none => exact h
      | some key =>
        rw [World.start]
        split
        · exact ⟨hdb, h.keeps⟩
        · exact ⟨hdb, h.keeps⟩
    · cases hs
  | probes answers =>
    rw [step] at hs
    split at hs
    · rename_i key r hphase hf
      cases hs
      obtain ⟨f, hf', hholds⟩ := safe_db hsafe (by rw [hphase]; rfl)
      obtain rfl : f = .plain r := Option.some.inj (hf'.symm.trans hf)
      obtain rfl : r = rows := hholds
      cases answers with
      | true => exact ⟨hf, h.keeps⟩
      | false => exact ⟨⟨_, hf, rfl⟩, h.keeps⟩
    · rename_i hphase _
      have hdb := safe_db hsafe (by rw [hphase]; rfl)
      cases hs
      exact ⟨hdb, h.keeps⟩
    · cases hs
  | exports ts =>
    rw [step] at hs
    split at hs
    · rename_i key r hphase hf
      cases hs
      rw [World.Safe, hphase] at hsafe
      obtain rfl : r = rows := DbFile.plain.inj (Option.some.inj (hf.symm.trans hsafe))
      have hnew : (w.set (.migrated ts) (some (.encrypted key r))).files (.migrated ts) =
          some (.encrypted key r) := set_self _ _
      have hdb : (w.set (.migrated ts) (some (.encrypted key r))).files .db = some (.plain r) :=
        (set_migrated_db w ts _).trans hf
      exact ⟨⟨hdb, hnew⟩, h.keeps⟩
    · cases hs
  | exportFails ts left =>
    rw [step] at hs
    split at hs
    · rename_i key hphase
      cases hs
      rw [World.Safe, hphase] at hsafe
      exact ⟨⟨_, (set_migrated_db w ts left).trans hsafe, rfl⟩, h.keeps⟩
    · cases hs
  | movesAside =>
    rw [step] at hs
    split at hs
    · rename_i key ts hphase
      cases hs
      rw [World.Safe, hphase] at hsafe
      have hlegacy : (w.rename .db (.legacy ts)).files (.legacy ts) = w.files .db :=
        rename_dst db_ne_legacy.symm
      have hmigrated : (w.rename .db (.legacy ts)).files (.migrated ts) = w.files (.migrated ts) :=
        rename_other db_ne_migrated.symm migrated_ne_legacy
      exact ⟨⟨hlegacy.trans hsafe.1, hmigrated.trans hsafe.2⟩, h.keeps⟩
    · cases hs
  | movesAsideFails removed =>
    rw [step] at hs
    split at hs
    · rename_i key ts hphase
      cases hs
      rw [World.Safe, hphase] at hsafe
      cases removed with
      | true => exact ⟨⟨_, (set_migrated_db w ts none).trans hsafe.1, rfl⟩, h.keeps⟩
      | false => exact ⟨⟨_, hsafe.1, rfl⟩, h.keeps⟩
    · cases hs
  | movesIn =>
    rw [step] at hs
    split at hs
    · rename_i key ts hphase
      cases hs
      rw [World.Safe, hphase] at hsafe
      have hdb : (w.rename (.migrated ts) .db).files .db = w.files (.migrated ts) :=
        rename_dst db_ne_migrated
      exact ⟨⟨_, hdb.trans hsafe.2, List.Subset.refl _⟩, h.keeps⟩
    · cases hs
  | movesInFails =>
    rw [step] at hs
    split at hs
    · rename_i key ts hphase
      cases hs
      rw [World.Safe, hphase] at hsafe
      exact ⟨hsafe.1, h.keeps⟩
    · cases hs
  | restores =>
    rw [step] at hs
    split at hs
    · rename_i ts hphase
      cases hs
      rw [World.Safe, hphase] at hsafe
      have hdb : (w.rename (.legacy ts) .db).files .db = w.files (.legacy ts) :=
        rename_dst db_ne_legacy
      exact ⟨⟨_, hdb.trans hsafe, rfl⟩, h.keeps⟩
    · cases hs
  | restoreFails => exact ho.elim
  | opens =>
    rw [step] at hs
    split at hs
    · rename_i key hphase
      cases hs
      exact inv_open h (by rw [hphase]; rfl) key
    · cases hs
  | openFails =>
    rw [step] at hs
    split at hs
    · rename_i hphase
      have hdb := safe_db hsafe (by rw [hphase]; rfl)
      cases hs
      exact ⟨hdb, h.keeps⟩
    · rename_i hphase
      have hdb := safe_db hsafe (by rw [hphase]; rfl)
      cases hs
      exact ⟨hdb, h.keeps⟩
    · cases hs
  | crashes =>
    have hdb := safe_db hsafe ho
    cases hs
    exact ⟨hdb, h.keeps⟩
  | adds new =>
    rw [step] at hs
    split at hs
    · rename_i key old hphase hf
      cases hs
      obtain ⟨f, hf', hholds⟩ := safe_db hsafe (by rw [hphase]; rfl)
      obtain rfl : f = .encrypted key old := Option.some.inj (hf'.symm.trans hf)
      refine ⟨?_, h.keeps⟩
      have hnew : DbFile.Holds rows (.encrypted key (old ++ new)) :=
        List.Subset.trans hholds (List.subset_append_left old new)
      have hphase' : (w.set .db (some (.encrypted key (old ++ new)))).phase = .idle := hphase
      rw [World.Safe, hphase']
      exact ⟨_, set_self _ _, hnew⟩
    · cases hs

/-- **In an orderly run every database that is opened has all the rows of the plaintext one.** -/
theorem orderly_keeps [DecidableEq K] (rows : List R) (w : World K R) (h : Reached rows Orderly w) :
    w.Keeps rows :=
  (Runs.inv h (inv_start rows) fun _ _ _ hi hs ho => inv_step hi hs ho).keeps

/-! ## 5. Runs to try it with -/

/-- A crash after the export, an export that fails, a rename that fails and is taken back, and an
    attempt that goes through. -/
def interrupted : List (Event Nat Nat) :=
  [.starts (some 7) true, .probes true, .exports "1".toList, .crashes,
    .starts (some 7) true, .probes true, .exportFails "2".toList (some .broken),
    .starts (some 7) true, .probes true, .exports "3".toList, .movesAside, .movesInFails, .restores,
    .starts (some 7) true, .probes true, .exports "4".toList, .movesAside, .movesIn, .opens]

theorem interrupted_run :
    ∃ w ∈ interrupted.foldlM (fun w e => if Orderly w e then step w e else none)
        { files := Function.update (fun _ => none) .db (some (.plain [1, 2])) },
      w.opened.length = 1 := by
  decide

theorem orderly_keeps_once : ∃ w : World Nat Nat, w.opened.length = 1 ∧ w.Keeps [1, 2] := by
  obtain ⟨w, hw, hopened⟩ := interrupted_run
  exact ⟨w, hopened, orderly_keeps [1, 2] w (Runs.exec interrupted .start hw)⟩

/-- The process dies between the two renames; the app is started again. -/
def betweenRenames : List (Event Nat Nat) :=
  [.starts (some 7) true, .probes true, .exports "1".toList, .movesAside, .crashes,
    .starts (some 7) true, .opens]

theorem betweenRenames_run :
    ∃ w ∈ betweenRenames.foldlM (fun w e => if True then step w e else none)
        { files := Function.update (fun _ => none) .db (some (.plain [1, 2])) },
      w.opened = [[]] ∧ w.files (.legacy "1".toList) = some (.plain [1, 2]) := by
  decide

/-- **An empty database is opened while the rows are in the file that was renamed.** -/
theorem opened_empty : ∃ w : World Nat Nat, Reached [1, 2] (fun _ _ => True) w ∧ w.opened = [[]] ∧
    w.files (.legacy "1".toList) = some (.plain [1, 2]) ∧ ¬ w.Keeps [1, 2] := by
  obtain ⟨w, hw, hopened, hlegacy⟩ := betweenRenames_run
  refine ⟨w, Runs.exec betweenRenames .start hw, hopened, hlegacy, fun hkeeps => ?_⟩
  have hsub : [1, 2] ⊆ ([] : List Nat) := hkeeps [] (by rw [hopened]; exact List.mem_singleton_self _)
  exact absurd (List.eq_nil_of_subset_nil hsub) nofun

end Veesker.Host.Migrate
