/-
  File:      Veesker/Editor/Switch.lean
  Subject:   ONE RUN, ONE CONNECTION: what of a run of the editor is left on the connection it was
             started on when the user goes to another connection in the middle of it.

  A reset takes away two of the three dialogs, and with them the runs that wait there. A run whose
  call is under way goes on: a dialog it opens is the next connection's, and so is its history.

  * **`orderly_ownConnection`** -- where the connection changes only while no run is under way,
    every statement and every record is of the connection its run was started on;
  * `executed_elsewhere` -- without it: a DELETE of one connection is executed on another.
-/
import Veesker.Editor.Actions

namespace Veesker.Editor

open Run List

/-! ## 1. One run, one connection -/

/-- The connection that the `k`-th run was started on. -/
def World.startedOn (w : World) (k : Nat) : Option Context := (w.actions[k]?).map Action.startedOn

/-- **What is asked of a run of the editor**: what was executed, and what was recorded of it, is of
    the connection that was current when the run was started. -/
structure World.OwnConnection (w : World) : Prop where
  executed : ∀ x ∈ w.executed, ∃ c ∈ w.startedOn x.1, c.id = some x.2
  history : ∀ x ∈ w.history, ∃ c ∈ w.startedOn x.1,
    c.id = some x.2.connectionId ∧ c.host = x.2.host
  cloud : ∀ x ∈ w.cloud, ∃ c ∈ w.startedOn x.1,
    orNull c.id = x.2.connectionId ∧ orNull c.host = x.2.host ∧ c.env = x.2.env
  ddlEvents : ∀ x ∈ w.ddlEvents, ∃ c ∈ w.startedOn x.1, c.env = x.2

/-- The run can still do something: it is not over, and where it waits at a dialog, that dialog is
    still there. -/
def World.isLive (w : World) (k : Nat) (a : Action) : Bool :=
  match a.phase with
  | .asking => w.pendingConfirm == some k
  | .unsafeDml => w.pendingUnsafeDml == some k
  | .ddl _ _ => w.pendingDdl == some k
  | .ended => false
  | .sent _ => true
  | .answered _ _ => true
  | .unlocking _ _ => true

/-- Every run that can still do something is one of these. -/
def World.allLive (w : World) (p : Action → Bool) : Bool :=
  (List.range w.actions.length).all fun k =>
    (w.actions[k]?).all fun a => !w.isLive k a || p a

/-- The run waits at a dialog that a reset takes away. -/
def Action.dropped (a : Action) : Bool := a.phase == .asking || a.phase == .unsafeDml

/-- The two are one connection, as far as the records tell it. -/
def Context.agrees (c d : Context) : Bool := c.id == d.id && c.host == d.host && c.env == d.env

/-- **The condition**: a run is started where the sidecar's session, if it has one, is of the
    current connection; and the connection changes only while no run can still do something, except
    for those that a reset takes the dialog away from. -/
def Orderly (w : World) : Event → Prop
  | .starts _ => w.session = none ∨ w.session = w.context.id
  | .reset => w.allLive Action.dropped = true
  | .setConnectionContext c => w.allLive (fun _ => false) = true ∨ c.agrees w.context = true
  | .opens id => w.allLive (fun _ => false) = true ∨ w.context.id = some id
  | _ => True

instance (w : World) : ∀ e, Decidable (Orderly w e)
  | .starts _ => inferInstanceAs (Decidable (_ ∨ _))
  | .reset => inferInstanceAs (Decidable (_ = true))
  | .setConnectionContext _ => inferInstanceAs (Decidable (_ ∨ _))
  | .opens _ => inferInstanceAs (Decidable (_ ∨ _))
  | .confirmRun _ => isTrue trivial
  | .resolveUnsafeDml _ => isTrue trivial
  | .resolveDdl _ => isTrue trivial
  | .executes _ _ => isTrue trivial
  | .replies _ => isTrue trivial
  | .unlocks _ _ => isTrue trivial
  | .closes => isTrue trivial

variable {w w' : World}

theorem allLive_iff {p : Action → Bool} : w.allLive p = true ↔
    ∀ k a, w.actions[k]? = some a → w.isLive k a = true → p a = true := by
  rw [World.allLive, all_eq_true]
  constructor
  · intro h k a hk hl
    have hlt : k < w.actions.length := (List.getElem?_eq_some_iff.mp hk).1
    have := h k (mem_range.mpr hlt)
    rw [hk, Option.all_some, hl] at this
    exact this
  · intro h k _
    cases hk : w.actions[k]? with
    | none => rfl
    | some a =>
      rw [Option.all_some, Bool.or_eq_true, Bool.not_eq_true', ← Bool.not_eq_true]
      by_cases hl : w.isLive k a = true
      · exact .inr (h k a hk hl)
      · exact .inl hl

/-! ## 2. The invariant -/

/-- What holds between the steps of an orderly run. -/
structure World.Inv (w : World) : Prop where
  own : w.OwnConnection
  context : ∀ k a, w.actions[k]? = some a → w.isLive k a = true →
    a.startedOn.agrees w.context = true
  session : ∀ k a, w.actions[k]? = some a → w.isLive k a = true →
    w.session = none ∨ w.session = w.context.id

theorem inv_start : World.Inv {} where
  own := ⟨fun _ h => absurd h not_mem_nil, fun _ h => absurd h not_mem_nil,
    fun _ h => absurd h not_mem_nil, fun _ h => absurd h not_mem_nil⟩
  context _ _ h := absurd h (by simp)
  session _ _ h := absurd h (by simp)

variable {k : Nat}

/-- Runs that are started later take nothing from those before. -/
theorem startedOn_add (a : Action) {c : Context} (h : c ∈ w.startedOn k) :
    c ∈ (w.add a).startedOn k := by
  obtain ⟨b, hb, rfl⟩ := Option.map_eq_some_iff.mp (Option.mem_def.mp h)
  have hlt : k < w.actions.length := (List.getElem?_eq_some_iff.mp hb).1
  rw [World.startedOn, World.add, List.getElem?_append_left hlt, hb]
  rfl

variable {a a' : Action}

theorem startedOn_set (hk : w.actions[k]? = some a)
    (ha : a'.startedOn = a.startedOn) (j : Nat) : (w.set k a').startedOn j = w.startedOn j := by
  have hlt : k < w.actions.length := (List.getElem?_eq_some_iff.mp hk).1
  rw [World.startedOn, World.startedOn, World.set]
  by_cases hj : k = j
  · subst hj
    rw [List.getElem?_set_self hlt, hk, Option.map_some, Option.map_some, ha]
  · rw [List.getElem?_set_ne hj]

/-- Nothing executed or recorded, and every run still there. -/
theorem World.OwnConnection.frame (h : w.OwnConnection)
    (hstart : ∀ k c, c ∈ w.startedOn k → c ∈ w'.startedOn k) (he : w'.executed = w.executed)
    (hh : w'.history = w.history) (hc : w'.cloud = w.cloud) (hd : w'.ddlEvents = w.ddlEvents) :
    w'.OwnConnection where
  executed x hx := by
    obtain ⟨c, hc, hid⟩ := h.executed x (he ▸ hx)
    exact ⟨c, hstart _ _ hc, hid⟩
  history x hx := by
    obtain ⟨c, hc, hid⟩ := h.history x (hh ▸ hx)
    exact ⟨c, hstart _ _ hc, hid⟩
  cloud x hx := by
    obtain ⟨c, hc, hid⟩ := h.cloud x (hc ▸ hx)
    exact ⟨c, hstart _ _ hc, hid⟩
  ddlEvents x hx := by
    obtain ⟨c, hc, hid⟩ := h.ddlEvents x (hd ▸ hx)
    exact ⟨c, hstart _ _ hc, hid⟩

/-- A run that is set to another phase, and the dialogs that change with it. -/
structure Turns (w w' : World) (k : Nat) (a a' : Action) : Prop where
  here : w.actions[k]? = some a
  live : w.isLive k a = true
  actions : w'.actions = w.actions.set k a'
  startedOn : a'.startedOn = a.startedOn
  context : w'.context = w.context
  session : w'.session = w.session
  /-- No other run gets its dialog back. -/
  others : ∀ j b, j ≠ k → w'.isLive j b = true → w.isLive j b = true

theorem Turns.startedOn_eq (h : Turns w w' k a a') (j : Nat) :
    w'.startedOn j = w.startedOn j := by
  have := startedOn_set h.here h.startedOn j
  rw [World.startedOn, h.actions]
  exact this

/-- The runs of an orderly state that turn are on the current connection still. -/
theorem Turns.inv (h : Turns w w' k a a') (hi : w.Inv)
    (hown : w'.OwnConnection) : w'.Inv := by
  have hlt : k < w.actions.length := (List.getElem?_eq_some_iff.mp h.here).1
  have hback : ∀ j b, w'.actions[j]? = some b → w'.isLive j b = true →
      ∃ b₀, w.actions[j]? = some b₀ ∧ w.isLive j b₀ = true ∧ b.startedOn = b₀.startedOn := by
    intro j b hj hl
    rw [h.actions] at hj
    by_cases hjk : j = k
    · subst hjk
      rw [List.getElem?_set_self hlt] at hj
      cases hj
      exact ⟨a, h.here, h.live, h.startedOn⟩
    · rw [List.getElem?_set_ne (Ne.symm hjk)] at hj
      exact ⟨b, hj, h.others j b hjk hl, rfl⟩
  refine ⟨hown, fun j b hj hl => ?_, fun j b hj hl => ?_⟩
  · obtain ⟨b₀, hb, hlive, hs⟩ := hback j b hj hl
    rw [hs, h.context]
    exact hi.context j b₀ hb hlive
  · obtain ⟨b₀, hb, hlive, -⟩ := hback j b hj hl
    rw [h.context, h.session]
    exact hi.session j b₀ hb hlive

/-- Who still has a dialog had it before. -/
theorem live_before
    (hc : ∀ j, j ≠ k → w'.pendingConfirm = some j → w.pendingConfirm = some j)
    (hu : ∀ j, j ≠ k → w'.pendingUnsafeDml = some j → w.pendingUnsafeDml = some j)
    (hd : ∀ j, j ≠ k → w'.pendingDdl = some j → w.pendingDdl = some j) :
    ∀ j b, j ≠ k → w'.isLive j b = true → w.isLive j b = true := by
  intro j b hj hl
  unfold World.isLive at hl ⊢
  cases hp : b.phase with
  | asking =>
    rw [hp] at hl
    exact beq_iff_eq.mpr (hc j hj (beq_iff_eq.mp hl))
  | unsafeDml =>
    rw [hp] at hl
    exact beq_iff_eq.mpr (hu j hj (beq_iff_eq.mp hl))
  | ddl risk reply =>
    rw [hp] at hl
    exact beq_iff_eq.mpr (hd j hj (beq_iff_eq.mp hl))
  | ended =>
    rw [hp] at hl
    cases hl
  | sent stage => rfl
  | answered stage reply => rfl
  | unlocking risk reply => rfl

/-- A turn at which no dialog changes. -/
theorem turns_set (hk : w.actions[k]? = some a)
    (hl : w.isLive k a = true) (ha : a'.startedOn = a.startedOn) : Turns w (w.set k a') k a a' where
  here := hk
  live := hl
  actions := rfl
  startedOn := ha
  context := rfl
  session := rfl
  others := live_before (fun _ _ h => h) (fun _ _ h => h) fun _ _ h => h

theorem Turns.own (h : Turns w w' k a a') (hi : w.Inv)
    (he : w'.executed = w.executed) (hh : w'.history = w.history) (hc : w'.cloud = w.cloud)
    (hd : w'.ddlEvents = w.ddlEvents) : w'.Inv :=
  h.inv hi (hi.own.frame (fun j _ hc => h.startedOn_eq j ▸ hc) he hh hc hd)

/-- Nothing but a run's phase changes. -/
theorem inv_set (hi : w.Inv) (hk : w.actions[k]? = some a)
    (hl : w.isLive k a = true) (ha : a'.startedOn = a.startedOn) : (w.set k a').Inv :=
  (turns_set hk hl ha).own hi rfl rfl rfl rfl

theorem agrees_iff {c d : Context} :
    c.agrees d = true ↔ c.id = d.id ∧ c.host = d.host ∧ c.env = d.env := by
  simp [Context.agrees, and_assoc]

/-- What is recorded is of the current connection. -/
theorem pushHistory_context {c : Context} {o : Outcome} {r : HistoryInput × CloudInput}
    (h : pushHistory c o = some r) : c.id = some r.1.connectionId ∧ c.host = r.1.host ∧
      orNull c.id = r.2.connectionId ∧ orNull c.host = r.2.host ∧ c.env = r.2.env := by
  rw [pushHistory] at h
  split at h
  · cases h
  · rename_i id hid
    split at h
    · cases h
    · cases h
      exact ⟨hid, rfl, rfl, rfl, rfl⟩

/-- **A run that ends on the current connection is recorded there.** -/
theorem inv_finish (hi : w.Inv) {a : Action} (hk : w.actions[k]? = some a)
    (hl : w.isLive k a = true) (stage : Stage) (reply : Reply) :
    (w.finish k a stage reply).Inv := by
  have hturn : Turns w (w.finish k a stage reply) k a a.over :=
    ⟨hk, hl, rfl, rfl, rfl, rfl, live_before (fun _ _ h => h) (fun _ _ h => h) fun _ _ h => h⟩
  obtain ⟨hid, hhost, henv⟩ := agrees_iff.mp (hi.context k a hk hl)
  have hself : a.startedOn ∈ w.startedOn k := by
    rw [World.startedOn, hk]
    rfl
  have hold : w.OwnConnection := hi.own
  refine hturn.inv hi ⟨fun x hx => ?_, fun x hx => ?_, fun x hx => ?_, fun x hx => ?_⟩
  all_goals rw [hturn.startedOn_eq]
  · exact hold.executed x hx
  · rcases mem_append.mp hx with hx | hx
    · exact hold.history x hx
    · obtain ⟨r, hr, rfl⟩ := mem_map.mp hx
      obtain ⟨o, -, ho⟩ := mem_filterMap.mp hr
      obtain ⟨h1, h2, -⟩ := pushHistory_context ho
      exact ⟨_, hself, hid.trans h1, hhost.trans h2⟩
  · rcases mem_append.mp hx with hx | hx
    · exact hold.cloud x hx
    · obtain ⟨r, hr, rfl⟩ := mem_map.mp hx
      obtain ⟨o, -, ho⟩ := mem_filterMap.mp hr
      obtain ⟨-, -, h3, h4, h5⟩ := pushHistory_context ho
      exact ⟨_, hself, (congrArg orNull hid).trans h3, (congrArg orNull hhost).trans h4,
        henv.trans h5⟩
  · have hx' : x ∈ w.ddlEvents ∨ x = (k, w.context.env) := by
      have hx : x ∈ w.ddlEventsAfter k stage reply := hx
      unfold World.ddlEventsAfter at hx
      split at hx
      · exact (mem_append.mp hx).imp_right mem_singleton.mp
      · exact .inl hx
      · exact .inl hx
      · exact .inl hx
    rcases hx' with hx | rfl
    · exact hold.ddlEvents x hx
    · exact ⟨_, hself, henv⟩

theorem inv_takes (hi : w.Inv) {a : Action} (hk : w.actions[k]? = some a)
    (hl : w.isLive k a = true) (stage : Stage) (reply : Reply) : (w.takes k a stage reply).Inv := by
  rw [World.takes]
  split
  · split
    · exact inv_set hi hk hl rfl
    · split
      · exact inv_set hi hk hl rfl
      · have hturn : Turns w { w.set k (a.at .unsafeDml) with pendingUnsafeDml := some k } k a
            (a.at .unsafeDml) :=
          ⟨hk, hl, rfl, rfl, rfl, rfl, live_before (fun _ _ h => h)
            (fun j hj h => absurd (Option.some.inj h).symm hj) fun _ _ h => h⟩
        exact hturn.own hi rfl rfl rfl rfl
  · split
    · exact inv_finish hi hk hl stage reply
    · split
      · exact inv_finish hi hk hl stage reply
      · rename_i risk _
        split
        · have hturn : Turns w { w.set k (a.at (.ddl risk reply)) with pendingDdl := some k } k a
              (a.at (.ddl risk reply)) :=
            ⟨hk, hl, rfl, rfl, rfl, rfl, live_before (fun _ _ h => h) (fun _ _ h => h)
              fun j hj h => absurd (Option.some.inj h).symm hj⟩
          exact hturn.own hi rfl rfl rfl rfl
        · exact inv_finish hi hk hl stage reply

/-- A run that is started is on the current connection. -/
theorem inv_begin (hi : w.Inv) {a : Action} (ha : a.startedOn = w.context)
    (ho : w.session = none ∨ w.session = w.context.id) : (w.begin a).Inv := by
  have hagree : a.startedOn.agrees w.context = true := by
    rw [ha]
    exact agrees_iff.mpr ⟨rfl, rfl, rfl⟩
  -- the run that is added is the last one, and its dialog nobody else's
  have hadd : ∀ (b : Action) (pending : Option Nat), b.startedOn = a.startedOn →
      (∀ j, j ≠ w.actions.length → pending = some j → w.pendingConfirm = some j) →
      World.Inv { w.add b with pendingConfirm := pending } := by
    intro b pending hb hp
    have hlive : ∀ j c, j ≠ w.actions.length →
        World.isLive { w.add b with pendingConfirm := pending } j c = true → w.isLive j c = true :=
      live_before hp (fun _ _ h => h) fun _ _ h => h
    have hback : ∀ (j : Nat) (c : Action), (w.actions ++ [b])[j]? = some c →
        j = w.actions.length ∧ c = b ∨ j ≠ w.actions.length ∧ w.actions[j]? = some c := by
      intro j c hj
      rcases Nat.lt_trichotomy j w.actions.length with hlt | heq | hgt
      · exact .inr ⟨Nat.ne_of_lt hlt, by rwa [List.getElem?_append_left hlt] at hj⟩
      · rw [heq, List.getElem?_concat_length] at hj
        exact .inl ⟨heq, (Option.some.inj hj).symm⟩
      · rw [List.getElem?_eq_none (by rw [length_append]; exact hgt)] at hj
        cases hj
    refine ⟨hi.own.frame (fun _ _ h => startedOn_add b h) rfl rfl rfl rfl, fun j c hj hl => ?_,
      fun j c hj hl => ?_⟩
    · rcases hback j c hj with ⟨-, rfl⟩ | ⟨hne, hold⟩
      · rw [hb]
        exact hagree
      · exact hi.context j c hold (hlive j c hne hl)
    · exact ho
  rw [World.begin]
  split
  · split
    · exact hadd a.over w.pendingConfirm rfl fun _ _ h => h
    · exact hadd a (some w.actions.length) rfl fun j hj h => absurd (Option.some.inj h).symm hj
  · exact hadd (a.send .first) w.pendingConfirm rfl fun _ _ h => h

/-- A change of connection that finds no run under way. -/
theorem inv_idle (hi : w.Inv) (hactions : w'.actions = w.actions)
    (hown : w'.executed = w.executed ∧ w'.history = w.history ∧ w'.cloud = w.cloud ∧
      w'.ddlEvents = w.ddlEvents)
    (hidle : ∀ k a, w.actions[k]? = some a → w'.isLive k a = false) : w'.Inv := by
  obtain ⟨he, hh, hc, hd⟩ := hown
  refine ⟨hi.own.frame (fun k c hc => ?_) he hh hc hd, fun k a hk hl => ?_, fun k a hk hl => ?_⟩
  · rw [World.startedOn, hactions]
    exact hc
  · rw [hidle k a (hactions ▸ hk)] at hl
    cases hl
  · rw [hidle k a (hactions ▸ hk)] at hl
    cases hl

/-- The answer to a dialog. -/
theorem inv_answers (hi : w.Inv) {confirmed : Bool} {e : Event}
    (he : e = .confirmRun confirmed ∨ e = .resolveUnsafeDml confirmed ∨ e = .resolveDdl confirmed)
    (hs : step w e = some w') : w'.Inv := by
  -- for each of them: none is shown, or the run whose dialog it is goes on
  rcases he with rfl | rfl | rfl
  all_goals
    rw [step] at hs
    split at hs
    · cases hs
      exact hi
    rename_i k hpending
    split at hs
    · rename_i a hk
      split at hs
      · rename_i hp
        cases hs
        have hl : w.isLive k a = true := by
          unfold World.isLive
          rw [hp]
          exact beq_iff_eq.mpr hpending
        refine Turns.own ⟨hk, hl, rfl, ?_, rfl, rfl, live_before ?_ ?_ ?_⟩ hi rfl rfl rfl rfl
        · cases confirmed <;> rfl
        all_goals
          intro j _ h
          first | exact h | cases h
      · cases hs
    · cases hs

/-- **What is executed for a run is executed where it was started.** -/
theorem inv_executes (hi : w.Inv) {reply : Reply}
    (hs : step w (.executes k reply) = some w') : w'.Inv := by
  rw [step] at hs
  split at hs
  · rename_i a hk
    split at hs
    · rename_i stage hp
      cases hs
      have hl : w.isLive k a = true := by
        unfold World.isLive
        rw [hp]
      have hset : (w.set k (a.at (.answered stage reply))).Inv := inv_set hi hk hl rfl
      refine ⟨⟨fun x hx => ?_, hset.own.history, hset.own.cloud, hset.own.ddlEvents⟩, hset.context,
        hset.session⟩
      rcases mem_append.mp hx with hx | hx
      · exact hset.own.executed x hx
      · split at hx
        · cases hx
        · obtain ⟨id, hid, rfl⟩ := Option.map_eq_some_iff.mp (Option.mem_toList.mp hx)
          have hcur : w.context.id = some id := by
            rcases hi.session k a hk hl with hnone | hsame
            · rw [hnone] at hid
              cases hid
            · exact hsame.symm.trans hid
          refine ⟨a.startedOn, ?_, (agrees_iff.mp (hi.context k a hk hl)).1.trans hcur⟩
          have hat : (a.at (.answered stage reply)).startedOn = a.startedOn := rfl
          have := startedOn_set hk hat k
          rw [World.startedOn, World.startedOn, hk] at this
          exact this
    · cases hs
  · cases hs

/-- **An orderly step keeps the invariant.** -/
theorem inv_step (hi : w.Inv) {e : Event} (hs : step w e = some w') (ho : Orderly w e) :
    w'.Inv := by
  cases e with
  | starts request =>
    rw [step] at hs
    split at hs
    · obtain rfl := Option.some.inj hs
      exact hi
    · cases hs
      exact inv_begin hi rfl ho
  | confirmRun confirmed => exact inv_answers hi (.inl rfl) hs
  | resolveUnsafeDml confirmed => exact inv_answers hi (.inr (.inl rfl)) hs
  | resolveDdl confirmed => exact inv_answers hi (.inr (.inr rfl)) hs
  | executes k reply => exact inv_executes hi hs
  | replies k =>
    rw [step] at hs
    split at hs
    · rename_i a hk
      split at hs
      · rename_i hp
        cases hs
        exact inv_takes hi hk (by unfold World.isLive; rw [hp]) _ _
      · cases hs
    · cases hs
  | unlocks k ok =>
    rw [step] at hs
    split at hs
    · rename_i a hk
      split at hs
      · rename_i hp
        cases hs
        have hl : w.isLive k a = true := by
          unfold World.isLive
          rw [hp]
        cases ok with
        | true => exact inv_set hi hk hl rfl
        | false => exact inv_finish hi hk hl _ _
      · cases hs
    · cases hs
  | reset =>
    cases hs
    refine inv_idle hi rfl ⟨rfl, rfl, rfl, rfl⟩ fun k a hk => Bool.eq_false_iff.mpr fun hl => ?_
    have hbefore : w.isLive k a = true := by
      unfold World.isLive at hl ⊢
      cases hp : a.phase <;> rw [hp] at hl <;> first | exact hl | cases hl
    have hdrop := allLive_iff.mp ho k a hk hbefore
    rw [Action.dropped, Bool.or_eq_true, beq_iff_eq, beq_iff_eq] at hdrop
    unfold World.isLive at hl
    rcases hdrop with hp | hp
    · rw [hp] at hl
      cases hl
    · rw [hp] at hl
      cases hl
  | setConnectionContext c =>
    cases hs
    rcases ho with hidle | hsame
    · exact inv_idle hi rfl ⟨rfl, rfl, rfl, rfl⟩ fun k a hk =>
        Bool.eq_false_iff.mpr fun hl => Bool.false_ne_true (allLive_iff.mp hidle k a hk hl)
    · have hcw := agrees_iff.mp hsame
      refine ⟨hi.own.frame (fun _ _ h => h) rfl rfl rfl rfl, fun k a hk hl => ?_,
        fun k a hk hl => ?_⟩
      · obtain ⟨h1, h2, h3⟩ := agrees_iff.mp (hi.context k a hk hl)
        exact agrees_iff.mpr ⟨h1.trans hcw.1.symm, h2.trans hcw.2.1.symm, h3.trans hcw.2.2.symm⟩
      · exact (hi.session k a hk hl).imp_right fun h => h.trans hcw.1.symm
  | opens id =>
    cases hs
    rcases ho with hidle | hsame
    · exact inv_idle hi rfl ⟨rfl, rfl, rfl, rfl⟩ fun k a hk =>
        Bool.eq_false_iff.mpr fun hl => Bool.false_ne_true (allLive_iff.mp hidle k a hk hl)
    · exact ⟨hi.own.frame (fun _ _ h => h) rfl rfl rfl rfl, hi.context,
        fun _ _ _ _ => .inr hsame.symm⟩
  | closes =>
    cases hs
    exact ⟨hi.own.frame (fun _ _ h => h) rfl rfl rfl rfl, hi.context, fun _ _ _ _ => .inl rfl⟩

/-- **Where the connection changes only while no run is under way, every statement is executed, and
    recorded, on the connection its run was started on.** -/
theorem orderly_ownConnection (h : Reached Orderly w) : w.OwnConnection :=
  (h.inv inv_start fun _ _ _ hi hs ho => inv_step hi hs ho).own

/-! ## 3. Runs to try it with -/

def atWork : Context := { id := some ['A'], host := some ['a'], env := some .dev }

def atHome : Context := { id := some ['B'], host := some ['b'], env := some .prod }

def deleteAll : Request := .active "DELETE FROM t".toList

/-- A DELETE that is confirmed, executed and recorded before the connection changes. -/
def oneRun : List Event :=
  [.setConnectionContext atWork, .opens ['A'], .starts deleteAll, .confirmRun true,
    .executes 0 (.ok [⟨"DELETE FROM t".toList, .ok, 3, 12, none⟩]), .replies 0, .reset, .closes,
    .setConnectionContext atHome, .opens ['B']]

theorem orderly_ownConnection_once : ∃ w : World, w.OwnConnection ∧ w.executed = [(0, ['A'])] ∧
    w.history.map (fun x => x.2.host) = [some ['a']] := by
  have hrun : ∃ w ∈ oneRun.foldlM (fun w e => if Orderly w e then step w e else none) ({} : World),
      w.executed = [(0, ['A'])] ∧ w.history.map (fun x => x.2.host) = [some ['a']] := by
    decide
  obtain ⟨w, hw, hend⟩ := hrun
  exact ⟨w, orderly_ownConnection (Runs.exec _ .start hw), hend⟩

/-- The warning of a DELETE without a WHERE comes after the user went to another connection; its
    dialog opens there. -/
def lateWarning : List Event :=
  [.setConnectionContext atWork, .opens ['A'], .starts deleteAll, .confirmRun true,
    .executes 0 (.error (-32031) []), .reset, .closes, .setConnectionContext atHome, .opens ['B'],
    .replies 0, .resolveUnsafeDml true,
    .executes 0 (.ok [⟨"DELETE FROM t".toList, .ok, 3, 12, none⟩]), .replies 0]

/-- **A DELETE that was started on one connection is executed on the next one.** -/
theorem executed_elsewhere : ¬ ∀ w, Reached (fun _ _ => True) w → w.OwnConnection := by
  intro h
  have hrun : ∃ w ∈ lateWarning.foldlM (fun w e => if True then step w e else none) ({} : World),
      (0, ['B']) ∈ w.executed ∧ w.startedOn 0 = some atWork := by
    decide
  obtain ⟨w, hw, hexec, hstart⟩ := hrun
  obtain ⟨c, hc, hid⟩ := (h w (Runs.exec _ .start hw)).executed _ hexec
  obtain rfl : c = atWork := Option.some.inj (hc.symm.trans hstart)
  cases hid

end Veesker.Editor
