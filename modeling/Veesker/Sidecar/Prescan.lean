/-
  File:      Veesker/Sidecar/Prescan.lean
  Subject:   A SCRIPT THAT THE GATE REFUSES (sidecar/src/oracle.ts `queryExecute` with `splitMulti`,
             `enforceSafetyForStatement`): what its pre-scan leaves behind.

  The pre-scan asks the gate that also uses the windows up, one statement after the other, and
  stops at the first refusal; nothing was executed then.

  * **`refused_clean_iff`** -- a refused script leaves the windows as they were if and only if the
    refusal comes before any statement that uses the unlock up, and forgets no expired window;
  * `unlock_spent` -- without it: the unlock is used up by a script that was refused.
-/
import Veesker.Sidecar.Machine
import Veesker.Splitter.SplitSql

namespace Veesker.Sidecar

open Safety Splitter

/-! ## 1. The script -/

/-- The statements with the clock's readings at their gates. -/
def stamped (statements : List Text) (clock : Nat → Time) : List (Text × Time) :=
  statements.zipIdx.map fun (sql, i) => (sql, clock i)

/-- `queryExecute` with `splitMulti`, from behind the check for another query to its first await;
    the list is empty where the splitter's errors are thrown. -/
def batchOf (script : Text) (clock : Nat → Time) : List (Text × Time) :=
  let result := splitSql script
  if result.errors ≠ [] then [] else stamped result.statements clock

def queryExecuteMulti (s : State) (opts : GateOptions) (script : Text) (clock : Nat → Time) :
    State × List Event :=
  startQuery s opts (batchOf script clock) (clock (batchOf script clock).length)

/-! ## 2. One statement -/

section Gate
variable (f : ConnectionSafety) (w : Windows) (opts : GateOptions)

/-- The gate lets the statement through. -/
def Passes (x : Text × Time) : Prop :=
  decisionOf (enforceSafetyForStatement f w x.2 opts x.1).1 = .ok ()

/-- On prod the statement can only pass by the unlock, which it uses up. -/
def Spends (x : Text × Time) : Prop := f.env = some .prod ∧ isFlagged x.1 = true

/-- The DDL gate refuses the statement while there is a window that is over, which it forgets. -/
def Forgets (x : Text × Time) : Prop :=
  (∃ code, decisionOf (enforceSafetyForStatement f w x.2 opts x.1).1 = .error code ∧
    (code = DDL_BLOCKED ∨ code = DDL_UNLOCK_REQUIRED)) ∧
  ∃ d, w.ddl = some d ∧ d.expiresAt ≤ x.2

variable {f w opts}

theorem dropExpiredDdl_eq_iff {now : Time} :
    w.dropExpiredDdl now = w ↔ ¬ ∃ d, w.ddl = some d ∧ d.expiresAt ≤ now := by
  rw [Windows.dropExpiredDdl]
  cases hd : w.ddl with
  | none => simp
  | some d =>
    by_cases he : d.expiresAt ≤ now
    · simp only [he, if_true, Option.some.injEq, exists_eq_left', not_true_eq_false, iff_false]
      intro h
      rw [← h] at hd
      cases hd
    · simp [he]

/-- What the DDL gate does to the windows. -/
theorem ddlDecision_windows (env : Option Env) (w : Windows) (now : Time) (dry : Bool)
    (c : DdlClass) :
    ((ddlDecision env w now dry c).1 = .ok () ∧ (ddlDecision env w now dry c).2 = w) ∨
      ∃ code, (ddlDecision env w now dry c).1 = .error code ∧
        (code = DDL_BLOCKED ∨ code = DDL_UNLOCK_REQUIRED) ∧
        (ddlDecision env w now dry c).2 = w.dropExpiredDdl now := by
  cases c with
  | free => exact .inl ⟨rfl, rfl⟩
  | needs level =>
    rw [ddlDecision]
    split
    · exact .inl ⟨rfl, rfl⟩
    · cases level with
      | ddl => exact .inr ⟨_, rfl, .inl rfl, rfl⟩
      | destructive_ddl => exact .inr ⟨_, rfl, .inr rfl, rfl⟩

/-- What a decision and the windows after it can be, for a statement that spends the unlock or
    not. -/
def Leaves (w : Windows) (now : Time) (spends : Prop) (r : Decision × Windows) : Prop :=
  (r.1 = .ok () ∧ ¬ spends ∧ r.2 = w) ∨
    (r.1 = .ok () ∧ spends ∧ w.unsafeDml ≠ none ∧ r.2.unsafeDml = none) ∨
    (¬ r.1 = .ok () ∧ (r.2 = w ↔ ¬ ((∃ code, r.1 = .error code ∧
      (code = DDL_BLOCKED ∨ code = DDL_UNLOCK_REQUIRED)) ∧
        ∃ d, w.ddl = some d ∧ d.expiresAt ≤ now)))

/-- A refusal that is none of the DDL gate's. -/
theorem leaves_refused {now : Time} {spends : Prop} {code : Int} (h1 : code ≠ DDL_BLOCKED)
    (h2 : code ≠ DDL_UNLOCK_REQUIRED) : Leaves w now spends (.error code, w) := by
  refine .inr (.inr ⟨nofun, iff_of_true rfl ?_⟩)
  rintro ⟨⟨c, hc, hcode⟩, -⟩
  cases hc
  exact hcode.elim h1 h2

theorem leaves_ddl {now : Time} {spends : Prop} (env : Option Env) (dry : Bool) (c : DdlClass)
    (h : ¬ spends) : Leaves w now spends (ddlDecision env w now dry c) := by
  rcases ddlDecision_windows env w now dry c with ⟨hok, hw⟩ | ⟨code, hcode, hddl, hw⟩
  · exact .inl ⟨hok, h, hw⟩
  · refine .inr (.inr ⟨by rw [hcode]; exact nofun, ?_⟩)
    rw [hw, dropExpiredDdl_eq_iff]
    exact not_congr (and_iff_right ⟨code, hcode, hddl⟩).symm

/-- **What the gate does to the windows**: a statement passes and leaves them, or passes by the
    unlock and uses it up, or is refused, which leaves them but for a DDL window that is over. -/
theorem gate_windows (f : ConnectionSafety) (w : Windows) (opts : GateOptions) (x : Text × Time) :
    (Passes f w opts x ∧ ¬ Spends f x ∧
        (enforceSafetyForStatement f w x.2 opts x.1).2 = w) ∨
      (Passes f w opts x ∧ Spends f x ∧ w.unsafeDml ≠ none ∧
        (enforceSafetyForStatement f w x.2 opts x.1).2.unsafeDml = none) ∨
      (¬ Passes f w opts x ∧
        ((enforceSafetyForStatement f w x.2 opts x.1).2 = w ↔ ¬ Forgets f w opts x)) := by
  have hother : f.env ≠ some .prod → ¬ Spends f x := fun hne h => hne h.1
  have hleaves : Leaves w x.2 (Spends f x) (decideOn f w x.2 opts (profile x.1)) := by
    rw [decideOn]
    split
    · exact leaves_refused (by decide) (by decide)
    · split
      · rename_i henv
        split
        · exact leaves_refused (by decide) (by decide)
        · split
          · rename_i hflagged
            split
            · rename_i hunlocked
              refine .inr (.inl ⟨rfl, ⟨henv, hflagged⟩, fun hnone => ?_, rfl⟩)
              rw [hnone] at hunlocked
              cases hunlocked
            · exact leaves_refused (by decide) (by decide)
          · rename_i hflagged
            exact leaves_ddl _ _ _ fun h => hflagged h.2
      · rename_i henv
        split
        · exact leaves_refused (by decide) (by decide)
        · exact leaves_ddl _ _ _ (hother (by rw [henv]; decide))
      · rename_i hprod _
        split
        · exact leaves_refused (by decide) (by decide)
        · exact leaves_ddl _ _ _ (hother hprod)
  rw [Passes, Forgets, decision_eq, windows_eq]
  exact hleaves

end Gate

/-! ## 3. The pre-scan -/

/-- The first statement that the gate refuses, with the windows as they are, comes before any that
    uses the unlock up, and its refusal forgets no window. -/
def RefusedClean (f : ConnectionSafety) (w : Windows) (opts : GateOptions)
    (batch : List (Text × Time)) : Prop :=
  ∃ l x r, batch = l ++ x :: r ∧ (∀ y ∈ l, Passes f w opts y ∧ ¬ Spends f y) ∧
    ¬ Passes f w opts x ∧ ¬ Forgets f w opts x

variable {opts : GateOptions} {f : ConnectionSafety} {batch : List (Text × Time)}

theorem refusedClean_cons {w : Windows}
    {x : Text × Time} : RefusedClean f w opts (x :: batch) ↔
      (¬ Passes f w opts x ∧ ¬ Forgets f w opts x) ∨
        (Passes f w opts x ∧ ¬ Spends f x ∧ RefusedClean f w opts batch) := by
  constructor
  · rintro ⟨l, y, r, heq, hl, hy⟩
    cases l with
    | nil =>
      obtain ⟨rfl, rfl⟩ := List.cons.inj heq
      exact .inl hy
    | cons z l =>
      obtain ⟨rfl, rfl⟩ := List.cons.inj heq
      obtain ⟨hpass, hspend⟩ := hl x List.mem_cons_self
      exact .inr ⟨hpass, hspend, l, y, r, rfl, fun u hu => hl u (List.mem_cons_of_mem _ hu), hy⟩
  · rintro (hx | ⟨hpass, hspend, l, y, r, rfl, hl, hy⟩)
    · exact ⟨[], x, batch, rfl, fun y hy => absurd hy List.not_mem_nil, hx⟩
    · refine ⟨x :: l, y, r, rfl, fun u hu => ?_, hy⟩
      rcases List.mem_cons.mp hu with rfl | hu
      · exact ⟨hpass, hspend⟩
      · exact hl u hu

/-- The pre-scan stops before the end. -/
def Refused (f : ConnectionSafety) (w : Windows) (opts : GateOptions)
    (batch : List (Text × Time)) : Prop :=
  (gateBatch f opts w batch).1.length < batch.length

theorem gateBatch_cons_of_passes {w : Windows}
    {x : Text × Time} (batch : List (Text × Time)) (h : Passes f w opts x) :
    gateBatch f opts w (x :: batch) =
      (x :: (gateBatch f opts (enforceSafetyForStatement f w x.2 opts x.1).2 batch).1,
        (gateBatch f opts (enforceSafetyForStatement f w x.2 opts x.1).2 batch).2) := by
  rw [gateBatch]
  split
  · rename_i l w' hg
    rw [hg]
  · rename_i e w' hg
    rw [Passes, hg] at h
    cases h

theorem gateBatch_cons_of_not_passes {w : Windows}
    {x : Text × Time} (batch : List (Text × Time)) (h : ¬ Passes f w opts x) :
    gateBatch f opts w (x :: batch) = ([], (enforceSafetyForStatement f w x.2 opts x.1).2) := by
  rw [gateBatch]
  split
  · rename_i l w' hg
    rw [Passes, hg] at h
    exact absurd rfl h
  · rename_i e w' hg
    rw [hg]

/-- **The run**: a refused batch leaves the windows as they were exactly when its refusal is
    clean. -/
theorem gateBatch_windows {w : Windows}
    (h : Refused f w opts batch) :
    (gateBatch f opts w batch).2 = w ↔ RefusedClean f w opts batch := by
  induction batch with
  | nil => exact absurd h (Nat.not_lt_zero _)
  | cons x batch ih =>
    rw [refusedClean_cons]
    rcases gate_windows f w opts x with ⟨hpass, hspend, hw⟩ | ⟨hpass, hspend, hsome, hnone⟩ |
      ⟨hpass, hw⟩
    · have hrest : Refused f w opts batch := by
        rw [Refused, gateBatch_cons_of_passes batch hpass, hw] at h
        exact Nat.lt_of_succ_lt_succ h
      rw [gateBatch_cons_of_passes batch hpass, hw]
      simp only [hpass, hspend, ih hrest, not_true_eq_false, not_false_eq_true, false_and,
        true_and, false_or]
    · simp only [hpass, hspend, not_true_eq_false, false_and, and_false, or_self, iff_false]
      rw [gateBatch_cons_of_passes batch hpass]
      intro heq
      -- the unlock is gone for good
      have hgone := gateBatch_unsafeDml f opts (enforceSafetyForStatement f w x.2 opts x.1).2 batch
      rw [hnone, or_self, congrArg Windows.unsafeDml heq] at hgone
      exact hsome hgone
    · rw [gateBatch_cons_of_not_passes batch hpass, hw]
      simp only [hpass, not_false_eq_true, true_and, false_and, or_false]

/-! ## 4. The result -/

/-- Nothing was executed, and the windows are as they were. -/
def Untouched (s : State) (after : State × List Event) : Prop :=
  (∀ sql now id, .executed sql now id ∉ after.2) ∧ after.1.windows = s.windows

theorem startQuery_of_refused {s : State}
    {now : Time} (h : Refused s.safety s.windows opts batch) :
    startQuery s opts batch now =
      ({ s with windows := (gateBatch s.safety opts s.windows batch).2 },
        passedEvents s.safety s.session (gateBatch s.safety opts s.windows batch).1) :=
  if_pos h

/-- **A script that the pre-scan refuses is not executed, and leaves the windows as they were if
    and only if its refusal is clean.** -/
theorem refused_clean_iff (s : State) (opts : GateOptions) (script : Text) (clock : Nat → Time)
    (h : Refused s.safety s.windows opts (batchOf script clock)) :
    Untouched s (queryExecuteMulti s opts script clock) ↔
      RefusedClean s.safety s.windows opts (batchOf script clock) := by
  rw [queryExecuteMulti, startQuery_of_refused h, ← gateBatch_windows h, Untouched]
  refine and_iff_right fun sql now id => ?_
  exact executed_not_mem_passedEvents _ _ _ _ _ _

/-- A session on prod, with the unlock of a table. -/
def unlockedProd : State where
  session := some 0
  safety := { env := some .prod }
  windows := { unsafeDml := some ⟨"T".toList, 900000⟩ }

/-- The unlocked statement, and one that is never let through. -/
def deleteTruncate : Text := "DELETE FROM T;\nTRUNCATE TABLE T;".toList

theorem deleteTruncate_refused : Refused unlockedProd.safety unlockedProd.windows {}
    (batchOf deleteTruncate fun _ => 0) := by
  rw [Refused]
  decide

theorem refused_clean_iff_truncate :
    Untouched unlockedProd (queryExecuteMulti unlockedProd {} deleteTruncate fun _ => 0) ↔
      RefusedClean unlockedProd.safety unlockedProd.windows {}
        (batchOf deleteTruncate fun _ => 0) :=
  refused_clean_iff unlockedProd {} deleteTruncate (fun _ => 0) deleteTruncate_refused

/-- The script is refused for its second statement, and the unlock is used up by the first. -/
theorem unlock_spent : Refused unlockedProd.safety unlockedProd.windows {}
      (batchOf deleteTruncate fun _ => 0) ∧
    ¬ Untouched unlockedProd (queryExecuteMulti unlockedProd {} deleteTruncate fun _ => 0) := by
  refine ⟨deleteTruncate_refused, fun h => ?_⟩
  have hspent : (queryExecuteMulti unlockedProd {} deleteTruncate fun _ => 0).1.windows.unsafeDml =
      none := by decide
  rw [h.2] at hspent
  cases hspent

end Veesker.Sidecar
