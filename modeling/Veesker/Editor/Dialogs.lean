/-
  File:      Veesker/Editor/Dialogs.lean
  Subject:   DIALOGS AND THE RUNS THAT WAIT AT THEM: the three pending slots of the editor's store,
             and the tabs that its runs mark as running.

  * **`orderly_settled`** -- in every orderly run an answer moves exactly the run whose dialog is
    shown, and with no dialog open and no call under way every run is over and no tab is marked;
  * `overwritten` -- without it: a second DDL dialog takes the place of the first one, whose run
    waits for good.
-/
import Veesker.Editor.Actions
import Mathlib.Logic.Function.Basic

namespace Veesker.Editor.Dialogs

open Run

/-! ## 1. The dialogs -/

inductive Dialog where
  | confirm
  | unsafeDml
  | ddl
  deriving DecidableEq

/-- The run whose dialog is shown. -/
def shown (w : World) : Dialog → Option Nat
  | .confirm => w.pendingConfirm
  | .unsafeDml => w.pendingUnsafeDml
  | .ddl => w.pendingDdl

/-- The dialog that a run waits at. -/
def waitsAt (a : Action) : Option Dialog :=
  match a.phase with
  | .asking => some .confirm
  | .unsafeDml => some .unsafeDml
  | .ddl _ _ => some .ddl
  | .sent _ => none
  | .answered _ _ => none
  | .unlocking _ _ => none
  | .ended => none

/-- A call of the run is under way: an execution, or `ddlConfirm`. -/
def isCalling (a : Action) : Bool :=
  match a.phase with
  | .sent _ => true
  | .answered _ _ => true
  | .unlocking _ _ => true
  | .asking => false
  | .unsafeDml => false
  | .ddl _ _ => false
  | .ended => false

/-- The dialog that an event answers. -/
def answers : Event → Option Dialog
  | .confirmRun _ => some .confirm
  | .resolveUnsafeDml _ => some .unsafeDml
  | .resolveDdl _ => some .ddl
  | _ => none

/-- The run that an event starts or moves. -/
def movedRun (w : World) : Event → Option Nat
  | .starts _ => some w.actions.length
  | .confirmRun _ => w.pendingConfirm
  | .resolveUnsafeDml _ => w.pendingUnsafeDml
  | .resolveDdl _ => w.pendingDdl
  | .executes k _ => some k
  | .replies k => some k
  | .unlocks k _ => some k
  | _ => none

/-! ## 2. The tabs -/

/-- The editor with its tabs: that of every run, none for the command window's, and the tabs that
    are marked as running. A tab is marked when its run begins to send, and no longer when that
    run is over. -/
structure Tabbed where
  world : World := {}
  tabs : List (Option Nat) := []
  running : Nat → Bool := fun _ => false

/-- `tab.running` after a run has moved. -/
def runningAfter (before : Option Action) (after : Action) (running : Bool) : Bool :=
  match before.any Action.working, after.working with
  | false, true => true
  | true, false => false
  | _, _ => running

/-- The command window's runs are of no tab. -/
def tabOf (tab : Nat) : Event → Option Nat
  | .starts (.shared _ _ _) => none
  | _ => some tab

/-- The tabs of the runs after a step to `w`; a run that is started is of this tab. -/
def Tabbed.tabsAfter (t : Tabbed) (tab : Nat) (e : Event) (w : World) : List (Option Nat) :=
  if t.world.actions.length < w.actions.length then t.tabs ++ [tabOf tab e] else t.tabs

/-- The marks after a step to `w`: the run that moved may change its tab's. -/
def Tabbed.marksAfter (t : Tabbed) (tabs : List (Option Nat)) (e : Event) (w : World) :
    Nat → Bool :=
  match movedRun t.world e with
  | none => t.running
  | some k =>
    match w.actions[k]?, tabs[k]? with
    | some a, some (some tab) =>
      Function.update t.running tab (runningAfter (t.world.actions[k]?) a (t.running tab))
    | _, _ => t.running

/-- A step of the editor. -/
def Tabbed.step (t : Tabbed) (tab : Nat) (e : Event) : Option Tabbed :=
  (Editor.step t.world e).map fun w =>
    ⟨w, t.tabsAfter tab e w, t.marksAfter (t.tabsAfter tab e w) e w⟩

/-! ## 3. What a step does to the dialogs -/

/-- The run asks at the DDL dialog when it takes this reply. -/
def asksDdl (a : Action) (stage : Stage) (reply : Reply) : Bool :=
  !(stage == .first && reply.isUnsafeDmlError && a.path.unsafeDml.isSome) && !stage.isLast &&
    reply.ddlRisk.isSome && a.path.ddlGate

/-- What became of the runs and of the dialogs. -/
inductive Change (w w' : World) (e : Event) : Prop where
  | same (ha : w'.actions = w.actions) (hd : ∀ d, shown w' d = shown w d)
  | reset (he : e = .reset) (ha : w'.actions = w.actions) (hd : shown w' .ddl = shown w .ddl)
      (hc : shown w' .confirm = none) (hu : shown w' .unsafeDml = none)
  | begins (a : Action) (he : movedRun w e = some w.actions.length)
      (ha : w'.actions = w.actions ++ [a])
      (hnew : ∀ d, waitsAt a = some d → shown w d = none)
      (hd : ∀ d, shown w' d = if waitsAt a = some d then some w.actions.length else shown w d)
  | moves (k : Nat) (a a' : Action) (hk : w.actions[k]? = some a) (he : movedRun w e = some k)
      (ha : w'.actions = w.actions.set k a')
      (hlive : a.phase ≠ .ended)
      (hanswer : ∀ d, answers e = some d → waitsAt a = some d ∧ shown w d = some k)
      (hnoanswer : answers e = none → waitsAt a = none)
      (hmoved : ∀ d, waitsAt a = some d → waitsAt a' ≠ some d)
      (hnew : ∀ d, waitsAt a' = some d → shown w d = none ∨
        d = .ddl ∧ ∃ stage reply, e = .replies k ∧ a.phase = .answered stage reply ∧
          asksDdl a stage reply = true)
      (hd : ∀ d, shown w' d =
        if waitsAt a' = some d then some k else if waitsAt a = some d then none else shown w d)

variable {w w' : World} {e : Event}

/-- A run whose call is under way goes on, and asks nothing. -/
theorem Change.calls {k : Nat} {a a' : Action} (hk : w.actions[k]? = some a)
    (he : movedRun w e = some k) (hno : answers e = none) (ha : w'.actions = w.actions.set k a')
    (hlive : a.phase ≠ .ended) (hwait : waitsAt a = none) (hwait' : waitsAt a' = none)
    (hd : ∀ d, shown w' d = shown w d) : Change w w' e :=
  .moves k a a' hk he ha hlive (fun _ h => absurd (hno.symm.trans h) nofun) (fun _ => hwait)
    (fun _ h => absurd (hwait.symm.trans h) nofun) (fun _ h => absurd (hwait'.symm.trans h) nofun)
    fun d => by rw [hwait, hwait', hd, if_neg nofun, if_neg nofun]

/-- A run that is answered goes on, and its dialog is closed. -/
theorem Change.answered {k : Nat} {a a' : Action} {d : Dialog} (hk : w.actions[k]? = some a)
    (he : movedRun w e = some k) (hans : answers e = some d) (hwait : waitsAt a = some d)
    (hshown : shown w d = some k) (ha : w'.actions = w.actions.set k a')
    (hwait' : waitsAt a' = none) (hd : ∀ d', shown w' d' = if d' = d then none else shown w d') :
    Change w w' e := by
  have hlive : a.phase ≠ .ended := by
    intro he
    rw [waitsAt, he] at hwait
    cases hwait
  refine .moves k a a' hk he ha hlive (fun d' h => ?_) (fun h => ?_) (fun d' _ h => ?_)
    (fun d' h => ?_) fun d' => ?_
  · obtain rfl : d = d' := Option.some.inj (hans.symm.trans h)
    exact ⟨hwait, hshown⟩
  · rw [hans] at h
    cases h
  · rw [hwait'] at h
    cases h
  · rw [hwait'] at h
    cases h
  · rw [hd, hwait', hwait]
    by_cases heq : d' = d
    · simp [heq]
    · simp [heq, Ne.symm heq]

/-- The run takes a reply. -/
theorem change_takes {k : Nat} {a : Action} {stage : Stage} {reply : Reply}
    (hk : w.actions[k]? = some a) (hp : a.phase = .answered stage reply) :
    Change w (w.takes k a stage reply) (.replies k) := by
  have hwait : waitsAt a = none := by rw [waitsAt, hp]
  have hlive : a.phase ≠ .ended := by rw [hp]; rintro ⟨⟩
  have hplain : ∀ a' w', w'.actions = w.actions.set k a' → waitsAt a' = none →
      (∀ d, shown w' d = shown w d) → Change w w' (.replies k) := fun a' w' ha hwait' hd =>
    .calls hk rfl rfl ha hlive hwait hwait' hd
  have hfinish : Change w (w.finish k a stage reply) (.replies k) :=
    hplain a.over _ rfl rfl fun d => by cases d <;> rfl
  rw [World.takes]
  split
  · rename_i hunsafe
    split
    · exact hplain (a.send .acked) _ rfl rfl fun d => by cases d <;> rfl
    · split
      · exact hplain a.over _ rfl rfl fun d => by cases d <;> rfl
      · rename_i hopen
        refine .moves k a (a.at .unsafeDml) hk rfl rfl hlive (fun _ h => by cases h) (fun _ => hwait)
          (fun _ h => by cases hwait.symm.trans h) (fun d h => .inl ?_) fun d => ?_
        · obtain rfl : Dialog.unsafeDml = d := Option.some.inj h
          exact Option.not_isSome_iff_eq_none.mp hopen
        · rw [hwait]
          cases d <;> rfl
  · rename_i hsafe
    split
    · exact hfinish
    · rename_i hstage
      split
      · exact hfinish
      · rename_i risk hrisk
        split
        · rename_i hgate
          refine .moves k a (a.at (.ddl risk reply)) hk rfl rfl hlive (fun _ h => by cases h) (fun _ => hwait)
            (fun _ h => by cases hwait.symm.trans h) (fun d h => .inr ?_) fun d => ?_
          · obtain rfl : Dialog.ddl = d := Option.some.inj h
            refine ⟨rfl, stage, reply, rfl, hp, ?_⟩
            have hfirst : (stage == .first && reply.isUnsafeDmlError &&
                a.path.unsafeDml.isSome) = false := by
              rw [← Bool.not_eq_true]
              intro h
              simp only [Bool.and_eq_true, beq_iff_eq, Option.isSome_iff_ne_none] at h
              exact hsafe ⟨h.1.1, h.1.2, h.2⟩
            have hlast : stage.isLast = false := Bool.eq_false_iff.mpr hstage
            rw [asksDdl, hfirst, hrisk, hgate, hlast]
            rfl
          · rw [hwait]
            cases d <;> rfl
        · exact hfinish

/-- **What a step does to the runs and the dialogs.** -/
theorem step_change (hs : Editor.step w e = some w') : Change w w' e := by
  cases e with
  | starts request =>
    rw [Editor.step] at hs
    split at hs
    · obtain rfl := Option.some.inj hs
      exact .same rfl fun _ => rfl
    · rename_i path sql hp
      cases hs
      have hplain : ∀ a : Action, waitsAt a = none → Change w (w.add a) (.starts request) :=
        fun a hwait => .begins a rfl rfl (fun _ h => by cases hwait.symm.trans h) fun d => by
          rw [hwait, if_neg (by rintro ⟨⟩)]
          cases d <;> rfl
      rw [World.begin]
      split
      · split
        · exact hplain _ rfl
        · rename_i hopen
          refine .begins _ rfl rfl (fun d h => ?_) fun d => ?_
          · obtain rfl : Dialog.confirm = d := Option.some.inj h
            exact Option.not_isSome_iff_eq_none.mp hopen
          · cases d <;> rfl
      · exact hplain _ rfl
  | confirmRun confirmed =>
    rw [Editor.step] at hs
    split at hs
    · obtain rfl := Option.some.inj hs
      exact .same rfl fun _ => rfl
    · rename_i k hopen
      split at hs
      · rename_i a hk
        split at hs
        · rename_i hp
          cases hs
          have hwait : waitsAt a = some .confirm := by rw [waitsAt, hp]
          refine .answered hk hopen rfl hwait hopen rfl ?_ fun d => ?_
          · cases confirmed <;> rfl
          · cases d <;> rfl
        · cases hs
      · cases hs
  | resolveUnsafeDml confirmed =>
    rw [Editor.step] at hs
    split at hs
    · obtain rfl := Option.some.inj hs
      exact .same rfl fun _ => rfl
    · rename_i k hopen
      split at hs
      · rename_i a hk
        split at hs
        · rename_i hp
          cases hs
          have hwait : waitsAt a = some .unsafeDml := by rw [waitsAt, hp]
          refine .answered hk hopen rfl hwait hopen rfl ?_ fun d => ?_
          · cases confirmed <;> rfl
          · cases d <;> rfl
        · cases hs
      · cases hs
  | resolveDdl confirmed =>
    rw [Editor.step] at hs
    split at hs
    · obtain rfl := Option.some.inj hs
      exact .same rfl fun _ => rfl
    · rename_i k hopen
      split at hs
      · rename_i a hk
        split at hs
        · rename_i hp
          cases hs
          have hwait : waitsAt a = some .ddl := by rw [waitsAt, hp]
          refine .answered hk hopen rfl hwait hopen rfl ?_ fun d => ?_
          · cases confirmed <;> rfl
          · cases d <;> rfl
        · cases hs
      · cases hs
  | executes k reply =>
    rw [Editor.step] at hs
    split at hs
    · rename_i a hk
      split at hs
      · rename_i hp
        cases hs
        exact .calls hk rfl rfl rfl (by rw [hp]; rintro ⟨⟩) (by rw [waitsAt, hp]) rfl fun d => by
          cases d <;> rfl
      · cases hs
    · cases hs
  | replies k =>
    rw [Editor.step] at hs
    split at hs
    · rename_i a hk
      split at hs
      · rename_i stage reply hp
        cases hs
        exact change_takes hk hp
      · cases hs
    · cases hs
  | unlocks k ok =>
    rw [Editor.step] at hs
    split at hs
    · rename_i a hk
      split at hs
      · rename_i hp
        cases hs
        have hlive : a.phase ≠ .ended := by rw [hp]; rintro ⟨⟩
        have hwait : waitsAt a = none := by rw [waitsAt, hp]
        cases ok with
        | true => exact .calls hk rfl rfl rfl hlive hwait rfl fun d => by cases d <;> rfl
        | false => exact .calls hk rfl rfl rfl hlive hwait rfl fun d => by cases d <;> rfl
      · cases hs
    · cases hs
  | reset =>
    cases hs
    exact .reset rfl rfl rfl rfl rfl
  | setConnectionContext c =>
    cases hs
    exact .same rfl fun d => by cases d <;> rfl
  | opens id =>
    cases hs
    exact .same rfl fun d => by cases d <;> rfl
  | closes =>
    cases hs
    exact .same rfl fun d => by cases d <;> rfl

/-! ## 4. The invariant -/

/-- An open dialog is that of a run which waits at it. -/
def Manned (w : World) : Prop :=
  ∀ d k, shown w d = some k → ∃ a, w.actions[k]? = some a ∧ waitsAt a = some d

/-- A run that waits at a dialog is shown there. -/
def Shown (w : World) : Prop :=
  ∀ k a d, w.actions[k]? = some a → waitsAt a = some d → shown w d = some k

/-- The reply that is on its way makes the `k`-th run ask at the DDL dialog. -/
def comesToDdl (w : World) (k : Nat) : Bool :=
  (w.actions[k]?).any fun a =>
    match a.phase with
    | .answered stage reply => asksDdl a stage reply
    | _ => false

/-- A reset comes while neither of the two dialogs is open that it forgets, and a reply makes a run
    ask about DDL only while no other run does. -/
def Orderly (t : Tabbed) : Nat × Event → Prop
  | (_, .reset) => t.world.pendingConfirm = none ∧ t.world.pendingUnsafeDml = none
  | (_, .replies k) => comesToDdl t.world k = true → t.world.pendingDdl = none
  | _ => True

instance (t : Tabbed) : ∀ x, Decidable (Orderly t x)
  | (_, .reset) => inferInstanceAs (Decidable (_ ∧ _))
  | (_, .replies _) => inferInstanceAs (Decidable (_ → _))
  | (_, .starts _) => isTrue trivial
  | (_, .confirmRun _) => isTrue trivial
  | (_, .resolveUnsafeDml _) => isTrue trivial
  | (_, .resolveDdl _) => isTrue trivial
  | (_, .executes _ _) => isTrue trivial
  | (_, .unlocks _ _) => isTrue trivial
  | (_, .setConnectionContext _) => isTrue trivial
  | (_, .opens _) => isTrue trivial
  | (_, .closes) => isTrue trivial

/-- The states of the runs from an editor just loaded, under a condition on the steps. -/
def Reached (allowed : Tabbed → Nat × Event → Prop) : Tabbed → Prop :=
  Runs (fun t x t' => t.step x.1 x.2 = some t') allowed {}

theorem lt_of_shown (h : Manned w) {d : Dialog} {k : Nat} (hk : shown w d = some k) :
    k < w.actions.length := by
  obtain ⟨a, ha, -⟩ := h d k hk
  exact (List.getElem?_eq_some_iff.mp ha).1

theorem Manned.step (h : Manned w) (hc : Change w w' e) : Manned w' := by
  intro d j hj
  cases hc with
  | same ha hd =>
    rw [hd] at hj
    rw [ha]
    exact h d j hj
  | reset he ha hd hc hu =>
    rw [ha]
    cases d with
    | confirm => rw [hc] at hj; cases hj
    | unsafeDml => rw [hu] at hj; cases hj
    | ddl => exact h .ddl j (hd ▸ hj)
  | begins a he ha hnew hd =>
    rw [hd] at hj
    rw [ha]
    split at hj
    · rename_i hwait
      cases hj
      exact ⟨a, by simp, hwait⟩
    · obtain ⟨b, hb, hwait⟩ := h d j hj
      exact ⟨b, by rw [List.getElem?_append_left (lt_of_shown h hj), hb], hwait⟩
  | moves k a a' hk he ha hlive hanswer hnoanswer hmoved hnew hd =>
    have hlt := (List.getElem?_eq_some_iff.mp hk).1
    rw [hd] at hj
    rw [ha]
    split at hj
    · rename_i hwait
      cases hj
      exact ⟨a', List.getElem?_set_self hlt, hwait⟩
    · split at hj
      · cases hj
      · rename_i hno
        obtain ⟨b, hb, hwait⟩ := h d j hj
        have hne : k ≠ j := by
          rintro rfl
          rw [hk] at hb
          cases hb
          exact hno hwait
        exact ⟨b, by rw [List.getElem?_set_ne hne, hb], hwait⟩

/-- The condition on a step, as the step's change has it. -/
theorem Shown.step (h : Shown w) (hc : Change w w' e)
    (hreset : e = .reset → w.pendingConfirm = none ∧ w.pendingUnsafeDml = none)
    (hddl : ∀ k a stage reply, e = .replies k → w.actions[k]? = some a →
      a.phase = .answered stage reply → asksDdl a stage reply = true → w.pendingDdl = none) :
    Shown w' := by
  intro j b d hb hwait
  cases hc with
  | same ha hd =>
    rw [ha] at hb
    rw [hd]
    exact h j b d hb hwait
  | reset he ha hd hc hu =>
    rw [ha] at hb
    have hold := h j b d hb hwait
    cases d with
    | confirm => exact absurd ((hreset he).1.symm.trans hold) nofun
    | unsafeDml => exact absurd ((hreset he).2.symm.trans hold) nofun
    | ddl => exact hd.trans hold
  | begins a he ha hnew hd =>
    rw [ha] at hb
    rw [hd]
    rcases Nat.lt_or_ge j w.actions.length with hlt | hge
    · rw [List.getElem?_append_left hlt] at hb
      have hold := h j b d hb hwait
      rw [if_neg fun hwait' => absurd ((hnew d hwait').symm.trans hold) nofun]
      exact hold
    · rw [List.getElem?_append_right hge, List.getElem?_singleton] at hb
      split at hb
      · rename_i hj
        cases hb
        rw [if_pos hwait]
        congr 1
        omega
      · cases hb
  | moves k a a' hk he ha hlive hanswer hnoanswer hmoved hnew hd =>
    have hlt := (List.getElem?_eq_some_iff.mp hk).1
    rw [ha] at hb
    rw [hd]
    by_cases hj : k = j
    · subst hj
      rw [List.getElem?_set_self hlt] at hb
      cases hb
      rw [if_pos hwait]
    · rw [List.getElem?_set_ne hj] at hb
      have hold := h j b d hb hwait
      have hfree : waitsAt a' ≠ some d := by
        intro hwait'
        rcases hnew d hwait' with hnone | ⟨rfl, stage, reply, rfl, hp, hasks⟩
        · exact absurd (hnone.symm.trans hold) nofun
        · exact absurd ((hddl k a stage reply rfl hk hp hasks).symm.trans hold) nofun
      have hother : waitsAt a ≠ some d := fun hwait' =>
        hj (Option.some.inj ((h k a d hk hwait').symm.trans hold))
      rw [if_neg hfree, if_neg hother]
      exact hold

/-- A tab that is marked has a run that has begun to send and is not over. -/
structure Marked (t : Tabbed) : Prop where
  length : t.tabs.length = t.world.actions.length
  working : ∀ tab, t.running tab = true → ∃ (k : Nat) (a : Action),
    t.tabs[k]? = some (some tab) ∧ t.world.actions[k]? = some a ∧ a.working = true

theorem runningAfter_same (a : Action) (b : Bool) : runningAfter (some a) a b = b := by
  cases h : a.working <;> simp [runningAfter, h]

section Marks
variable {t : Tabbed} {tab : Nat}

/-- Runs that stay as they are. -/
theorem marked_same (h : Marked t) (ha : w.actions = t.world.actions) :
    Marked ⟨w, t.tabsAfter tab e w, t.marksAfter (t.tabsAfter tab e w) e w⟩ := by
  have htabs : t.tabsAfter tab e w = t.tabs := by
    rw [Tabbed.tabsAfter, ha, if_neg (Nat.lt_irrefl _)]
  have hmarks : t.marksAfter t.tabs e w = t.running := by
    rw [Tabbed.marksAfter, ha]
    split
    · rfl
    · split
      · rename_i hk _
        rw [hk, runningAfter_same, Function.update_eq_self]
      · rfl
  rw [htabs, hmarks]
  exact ⟨by rw [ha]; exact h.length, fun tab htab => ha ▸ h.working tab htab⟩

/-- A run that begins. -/
theorem marked_begins (h : Marked t) {a : Action}
    (he : movedRun t.world e = some t.world.actions.length)
    (ha : w.actions = t.world.actions ++ [a]) :
    Marked ⟨w, t.tabsAfter tab e w, t.marksAfter (t.tabsAfter tab e w) e w⟩ := by
  have htabs : t.tabsAfter tab e w = t.tabs ++ [tabOf tab e] := if_pos (by rw [ha]; simp)
  have hrun : w.actions[t.world.actions.length]? = some a := by rw [ha]; simp
  have hnew : (t.tabs ++ [tabOf tab e])[t.world.actions.length]? = some (tabOf tab e) := by
    rw [← h.length]
    simp
  have hold : ∀ tab', t.running tab' = true → ∃ (k : Nat) (b : Action),
      (t.tabs ++ [tabOf tab e])[k]? = some (some tab') ∧ w.actions[k]? = some b ∧
        b.working = true := by
    intro tab' htab
    obtain ⟨k, b, hk, hb, hwork⟩ := h.working tab' htab
    have hkt := (List.getElem?_eq_some_iff.mp hk).1
    have hkb := (List.getElem?_eq_some_iff.mp hb).1
    exact ⟨k, b, by rw [List.getElem?_append_left hkt, hk],
      by rw [ha, List.getElem?_append_left hkb, hb], hwork⟩
  rw [htabs]
  refine ⟨by rw [ha]; simp [h.length], fun tab' htab => ?_⟩
  simp only [Tabbed.marksAfter, he, hrun, hnew] at htab
  cases hown : tabOf tab e with
  | none =>
    rw [hown] at htab hold
    exact hold tab' htab
  | some own =>
    rw [hown] at htab hold hnew
    by_cases heq : tab' = own
    · subst heq
      cases hwork : a.working with
      | true => exact ⟨_, a, hnew, hrun, hwork⟩
      | false => exact hold tab' (by simpa [runningAfter, hwork] using htab)
    · exact hold tab' (by simpa [Function.update_of_ne heq] using htab)

/-- A run that moves. -/
theorem marked_moves (h : Marked t) {k : Nat} {a a' : Action} (he : movedRun t.world e = some k)
    (hk : t.world.actions[k]? = some a) (ha : w.actions = t.world.actions.set k a') :
    Marked ⟨w, t.tabsAfter tab e w, t.marksAfter (t.tabsAfter tab e w) e w⟩ := by
  have htabs : t.tabsAfter tab e w = t.tabs := if_neg (by rw [ha]; simp)
  have hrun : w.actions[k]? = some a' := by
    rw [ha, List.getElem?_set_self (List.getElem?_eq_some_iff.mp hk).1]
  -- a tab that was marked keeps its working run, unless that is the one that moves
  have hother : ∀ tab', t.running tab' = true →
      (t.tabs[k]? = some (some tab') → a.working = false) → ∃ (j : Nat) (b : Action),
        t.tabs[j]? = some (some tab') ∧ w.actions[j]? = some b ∧ b.working = true := by
    intro tab' htab hidle
    obtain ⟨j, b, hj, hb, hwork⟩ := h.working tab' htab
    refine ⟨j, b, hj, ?_, hwork⟩
    rw [ha, List.getElem?_set_ne, hb]
    rintro rfl
    obtain rfl := Option.some.inj (hk.symm.trans hb)
    exact absurd (hwork.symm.trans (hidle hj)) nofun
  rw [htabs]
  refine ⟨by rw [ha, List.length_set]; exact h.length, fun tab' htab => ?_⟩
  simp only [Tabbed.marksAfter, he, hrun, hk] at htab
  cases htab' : t.tabs[k]? with
  | none =>
    rw [htab'] at htab
    exact hother tab' htab fun hj => absurd (htab'.symm.trans hj) nofun
  | some own =>
    rw [htab'] at htab
    cases own with
    | none => exact hother tab' htab fun hj => absurd (htab'.symm.trans hj) nofun
    | some own =>
      by_cases heq : tab' = own
      · subst heq
        dsimp only at htab
        rw [Function.update_self] at htab
        cases hwork' : a'.working with
        | true => exact ⟨k, a', htab', hrun, hwork'⟩
        | false =>
          cases hwork : a.working with
          | true => simp [runningAfter, hwork, hwork'] at htab
          | false =>
            have hkept : t.running tab' = true := by simpa [runningAfter, hwork, hwork'] using htab
            exact hother tab' hkept fun _ => hwork
      · dsimp only at htab
        rw [Function.update_of_ne heq] at htab
        refine hother tab' htab fun hj => ?_
        exact absurd (Option.some.inj (Option.some.inj (hj.symm.trans htab'))) heq

end Marks

theorem Marked.step {t t' : Tabbed} {tab : Nat} (h : Marked t) (hs : t.step tab e = some t') :
    Marked t' := by
  obtain ⟨w, hw, rfl⟩ := Option.map_eq_some_iff.mp hs
  rcases step_change hw with ⟨ha, -⟩ | ⟨-, ha, -⟩ | ⟨a, he, ha, -⟩ | ⟨k, a, a', hk, he, ha, -⟩
  · exact marked_same h ha
  · exact marked_same h ha
  · exact marked_begins h he ha
  · exact marked_moves h he hk ha

/-! ## 5. Every run -/

/-- No dialog is open and no call is under way. -/
def Quiet (w : World) : Prop := (∀ d, shown w d = none) ∧ ∀ a ∈ w.actions, isCalling a = false

/-- **What is asked of the dialogs**: an answer moves exactly the run whose dialog is shown, out of
    it; and where nothing is open or under way every run is over, and no tab is marked. -/
structure Settled (t : Tabbed) : Prop where
  answered : ∀ e d k, answers e = some d → shown t.world d = some k → ∃ a a' w,
    t.world.actions[k]? = some a ∧ waitsAt a = some d ∧ Editor.step t.world e = some w ∧
      w.actions = t.world.actions.set k a' ∧ waitsAt a' = none ∧ shown w d = none
  quiet : Quiet t.world → (∀ a ∈ t.world.actions, a.phase = .ended) ∧ ∀ tab, t.running tab = false

/-- An answer to a dialog that a run waits at. -/
theorem answered_of_manned (h : Manned w) {d : Dialog} {k : Nat} (he : answers e = some d)
    (hk : shown w d = some k) : ∃ a a' w', w.actions[k]? = some a ∧ waitsAt a = some d ∧
      Editor.step w e = some w' ∧ w'.actions = w.actions.set k a' ∧ waitsAt a' = none ∧
        shown w' d = none := by
  obtain ⟨a, ha, hwait⟩ := h d k hk
  have hphase := hwait
  unfold waitsAt at hphase
  cases e with
  | confirmRun confirmed =>
    obtain rfl : Dialog.confirm = d := Option.some.inj he
    have hopen : w.pendingConfirm = some k := hk
    cases hp : a.phase with
    | asking =>
      refine ⟨a, if confirmed then a.confirm.send .first else a.over,
        { w.set k (if confirmed then a.confirm.send .first else a.over) with
          pendingConfirm := none }, ha, hwait, ?_, rfl, ?_, rfl⟩
      · simp only [Editor.step, hopen, ha, hp]
      · cases confirmed <;> rfl
    | _ => rw [hp] at hphase; cases hphase
  | resolveUnsafeDml confirmed =>
    obtain rfl : Dialog.unsafeDml = d := Option.some.inj he
    have hopen : w.pendingUnsafeDml = some k := hk
    cases hp : a.phase with
    | unsafeDml =>
      refine ⟨a, if confirmed then a.send .acked else a.over,
        { w.set k (if confirmed then a.send .acked else a.over) with
          pendingUnsafeDml := none }, ha, hwait, ?_, rfl, ?_, rfl⟩
      · simp only [Editor.step, hopen, ha, hp]
      · cases confirmed <;> rfl
    | _ => rw [hp] at hphase; cases hphase
  | resolveDdl confirmed =>
    obtain rfl : Dialog.ddl = d := Option.some.inj he
    have hopen : w.pendingDdl = some k := hk
    cases hp : a.phase with
    | ddl risk reply =>
      refine ⟨a, if confirmed then a.at (.unlocking risk reply) else a.over,
        { w.set k (if confirmed then a.at (.unlocking risk reply) else a.over) with
          pendingDdl := none }, ha, hwait, ?_, rfl, ?_, rfl⟩
      · simp only [Editor.step, hopen, ha, hp]
      · cases confirmed <;> rfl
    | _ => rw [hp] at hphase; cases hphase
  | _ => cases he

/-- What every orderly run keeps. -/
structure Inv (t : Tabbed) : Prop where
  manned : Manned t.world
  shown : Shown t.world
  marked : Marked t

theorem inv_start : Inv {} where
  manned d _ h := by cases d <;> cases h
  shown _ _ _ h := by simp at h
  marked := ⟨rfl, fun _ h => nomatch h⟩

theorem Inv.step {t t' : Tabbed} {x : Nat × Event} (h : Inv t) (hs : t.step x.1 x.2 = some t')
    (ho : Orderly t x) : Inv t' := by
  obtain ⟨tab, e⟩ := x
  obtain ⟨w, hw, rfl⟩ := Option.map_eq_some_iff.mp hs
  have hc := step_change hw
  refine ⟨h.manned.step hc, h.shown.step hc ?_ ?_, h.marked.step hs⟩
  · rintro rfl
    exact ho
  · intro k a stage reply he hk hp hasks
    subst he
    have hcomes : comesToDdl t.world k = true := by
      rw [comesToDdl, hk, Option.any_some, hp]
      exact hasks
    exact ho hcomes

theorem Inv.settled {t : Tabbed} (h : Inv t) : Settled t where
  answered _ _ _ he hk := answered_of_manned h.manned he hk
  quiet hq := by
    have hended : ∀ a ∈ t.world.actions, a.phase = .ended := by
      intro a ha
      obtain ⟨k, hk⟩ := List.mem_iff_getElem?.mp ha
      have hcalling := hq.2 a ha
      have hwait : waitsAt a = none := by
        cases hd : waitsAt a with
        | none => rfl
        | some d => exact absurd ((hq.1 d).symm.trans (h.shown k a d hk hd)) nofun
      unfold isCalling at hcalling
      unfold waitsAt at hwait
      cases hp : a.phase <;> simp_all
    refine ⟨hended, fun tab => ?_⟩
    rw [← Bool.not_eq_true]
    intro htab
    obtain ⟨k, a, -, hk, hwork⟩ := h.marked.working tab htab
    rw [Action.working, hended a (List.mem_of_getElem? hk)] at hwork
    exact absurd hwork (by decide)

/-- **The dialogs settle in every orderly run.** -/
theorem orderly_settled {t : Tabbed} (h : Reached Orderly t) : Settled t :=
  (h.inv inv_start fun _ _ _ hi hs ho => hi.step hs ho).settled

/-! ## 6. Two DDL dialogs -/

/-- A run that the DDL gate stops, and that goes on after the window was opened. -/
def stopped : List (Nat × Event) :=
  [(0, .starts (.active "CREATE TABLE a (x NUMBER)".toList)),
    (0, .executes 0 (.error (-32041) [])), (0, .replies 0), (0, .resolveDdl true),
    (0, .unlocks 0 true), (0, .executes 0 (.ok [])), (0, .replies 0), (0, .reset)]

/-- The run of these events, as far as they are orderly. -/
def orderlyRun (events : List (Nat × Event)) : Option Tabbed :=
  events.foldlM (fun t x => if Orderly t x then t.step x.1 x.2 else none) {}

theorem orderly_settled_stopped : ∃ t, orderlyRun stopped = some t ∧ Settled t := by
  have hsome : (orderlyRun stopped).isSome = true := by decide
  obtain ⟨t, ht⟩ := Option.isSome_iff_exists.mp hsome
  exact ⟨t, ht, orderly_settled (Runs.exec stopped .start ht)⟩

/-- Two runs on two tabs that the DDL gate stops; the user answers the dialog that is shown. -/
def twice : List (Nat × Event) :=
  [(0, .starts (.active "CREATE TABLE a (x NUMBER)".toList)),
    (1, .starts (.active "CREATE TABLE b (x NUMBER)".toList)),
    (0, .executes 0 (.error (-32041) [])), (0, .executes 1 (.error (-32041) [])),
    (0, .replies 0), (0, .replies 1), (0, .resolveDdl false)]

/-- **The second dialog takes the place of the first**: that run waits for good, on a marked tab. -/
theorem overwritten : ∃ t, Reached (fun _ _ => True) t ∧ ¬ Settled t := by
  have hrun : ∃ t ∈ twice.foldlM (fun t x => if True then t.step x.1 x.2 else none)
      ({} : Tabbed), (∀ d ∈ [Dialog.confirm, .unsafeDml, .ddl], shown t.world d = none) ∧
        (∀ a ∈ t.world.actions, isCalling a = false) ∧ t.running 0 = true := by
    decide
  obtain ⟨t, ht, hclosed, hcalling, hmarked⟩ := hrun
  refine ⟨t, Runs.exec twice .start ht, fun h => ?_⟩
  have hquiet : Quiet t.world := ⟨fun d => hclosed d (by cases d <;> simp), hcalling⟩
  exact absurd (hmarked.symm.trans ((h.quiet hquiet).2 0)) nofun

end Veesker.Editor.Dialogs
