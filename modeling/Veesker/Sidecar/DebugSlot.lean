/-
  File:      Veesker/Sidecar/DebugSlot.lean
  Subject:   THE DEBUGGER'S SESSIONS (sidecar/src/debug.ts, traceProc in sidecar/src/flow.ts): any
             number of starts, traces, steps and stops, in every order, and the connections they
             leave behind.

  A session holds two connections, built one after the other, and the last one that was created is
  in the slot. A start waits for the starts before it and stops what is in the slot; a trace does
  neither.

  * **`orderly_safe`** -- where no second connection fails and no trace takes the slot from a
    session of the user's, that session stays in the slot until it is closed, and when all is quiet
    every connection is closed or in the slot;
  * `connection_lost` -- without it: a trace over the user's session leaves it open for good.
-/
import Veesker.Run.Flight

namespace Veesker.Sidecar.DebugSlot

open Run List

/-! ## 1. The state -/

/-- `DebugSession`; `closing` says that `stop` was called. -/
structure Session where
  target : Nat
  debug : Nat
  byTrace : Bool
  closing : Bool := false
  deriving DecidableEq

inductive Kind where
  | start | trace
  /-- `safeStep`. -/
  | steps
  deriving DecidableEq

inductive Phase where
  /-- For the starts before. -/
  | waiting
  /-- For the connections of the session that was in the slot. -/
  | stopping
  | building
  /-- The first connection is there. -/
  | buildingSecond (target : Nat)
  | working (session : Nat)
  | ended
  deriving DecidableEq

structure Task where
  kind : Kind
  phase : Phase
  deriving DecidableEq

structure World where
  /-- Of every connection that was built, whether it was closed. -/
  closed : List Bool := []
  sessions : List Session := []
  /-- `_debugSession`. -/
  slot : Option Nat := none
  tasks : List Task := []
  deriving DecidableEq

/-! ## 2. The steps -/

inductive Event where
  | debugStart
  /-- The `k`-th task has the start lock; likewise below. -/
  | enters (k : Nat)
  | stopped (k : Nat)
  | traceProc
  /-- `buildConnection` is through. -/
  | builds (k : Nat) (ok : Bool)
  /-- The time of `synchronizeWithTimeout` is over. -/
  | closesDebug (k : Nat)
  | stops (k : Nat)
  | returns (k : Nat)
  | step
  | debugStop
  deriving DecidableEq

/-- `stop`. -/
def World.stop (w : World) (s : Nat) : World :=
  match w.sessions[s]? with
  | none => w
  | some x =>
    { w with
      slot := if w.slot = some s then none else w.slot
      sessions := w.sessions.set s { x with closing := true }
      closed := (w.closed.set x.target true).set x.debug true }

def World.setTask (w : World) (k : Nat) (t : Task) : World := { w with tasks := w.tasks.set k t }

/-- Every start before the `k`-th task is over, so its lock is released. -/
def World.lockFree (w : World) (k : Nat) : Bool :=
  (w.tasks.take k).all fun t => t.kind != .start || t.phase == .ended

def step (w : World) : Event → Option World
  | .debugStart => some { w with tasks := w.tasks ++ [⟨.start, .waiting⟩] }
  | .enters k => match w.tasks[k]? with
    | some ⟨.start, .waiting⟩ =>
      if w.lockFree k then
        match w.slot with
        | none => some (w.setTask k ⟨.start, .building⟩)
        | some s => some ((w.stop s).setTask k ⟨.start, .stopping⟩)
      else none
    | _ => none
  | .stopped k => match w.tasks[k]? with
    | some ⟨.start, .stopping⟩ => some (w.setTask k ⟨.start, .building⟩)
    | _ => none
  | .traceProc => some { w with tasks := w.tasks ++ [⟨.trace, .building⟩] }
  | .builds k ok => match w.tasks[k]? with
    | some t => match t.phase with
      | .building =>
        if ok then
          some { w.setTask k { t with phase := .buildingSecond w.closed.length } with
            closed := w.closed ++ [false] }
        else some (w.setTask k { t with phase := .ended })
      | .buildingSecond target =>
        -- where it fails nothing closes the first one
        if ok then
          some { w.setTask k { t with phase := .working w.sessions.length } with
            closed := w.closed ++ [false]
            sessions := w.sessions ++ [⟨target, w.closed.length, t.kind == .trace, false⟩]
            slot := some w.sessions.length }
        else some (w.setTask k { t with phase := .ended })
      | _ => none
    | none => none
  | .closesDebug k => match w.tasks[k]? with
    | some t => match t.phase with
      | .working s => match w.sessions[s]? with
        | some x => some { w with closed := w.closed.set x.debug true }
        | none => none
      | _ => none
    | none => none
  | .stops k => match w.tasks[k]? with
    | some t => match t.phase with
      | .working s => some (w.stop s)
      | _ => none
    | none => none
  | .returns k => match w.tasks[k]? with
    | some t => match t.phase with
      | .working s =>
        -- a trace stops its session whatever happened
        let w' := if t.kind = .trace then w.stop s else w
        some (w'.setTask k { t with phase := .ended })
      | _ => none
    | none => none
  | .step => match w.slot with
    | none => some w
    | some s => some { w with tasks := w.tasks ++ [⟨.steps, .working s⟩] }
  | .debugStop => match w.slot with
    | none => some w
    | some s => some (w.stop s)

/-- The states of the runs from a sidecar just started, under a condition on the steps. -/
def Reached (allowed : World → Event → Prop) : World → Prop :=
  Runs (fun w e w' => step w e = some w') allowed {}

/-! ## 3. What is asked of a run -/

/-- Nothing is under way. -/
def World.Quiescent (w : World) : Prop := ∀ t ∈ w.tasks, t.phase = .ended

/-- The connection is one of the session's in the slot. -/
def World.Owned (w : World) (c : Nat) : Prop :=
  ∃ s x, w.slot = some s ∧ w.sessions[s]? = some x ∧ (x.target = c ∨ x.debug = c)

structure World.Safe (w : World) : Prop where
  /-- A session of the user's stays in the slot until it is closed. -/
  kept : ∀ s x, w.sessions[s]? = some x → x.byTrace = false → x.closing = false → w.slot = some s
  /-- When all is quiet every connection is closed or in the slot. -/
  accounted : w.Quiescent → ∀ c : Nat, w.closed[c]? = some false → w.Owned c

/-- What is in the slot is no session that the user has open. -/
def World.slotFree (w : World) : Bool :=
  w.slot.all fun s => (w.sessions[s]?).all fun x => x.byTrace || x.closing

/-- The first connection is there, and the second is being built. -/
def Task.buildsSecond (t : Task) : Bool :=
  match t.phase with
  | .buildingSecond _ => true
  | .waiting => false
  | .stopping => false
  | .building => false
  | .working _ => false
  | .ended => false

/-- **The condition**: a second connection never fails, and a trace has its session created only
    while what is in the slot is no session of the user's. -/
def Orderly (w : World) : Event → Prop
  | .builds k ok => (w.tasks[k]?).all (fun t =>
      !t.buildsSecond || ok && (t.kind != .trace || w.slotFree)) = true
  | _ => True

instance (w : World) : ∀ e, Decidable (Orderly w e)
  | .builds _ _ => inferInstanceAs (Decidable (_ = true))
  | .debugStart => isTrue trivial
  | .enters _ => isTrue trivial
  | .stopped _ => isTrue trivial
  | .traceProc => isTrue trivial
  | .closesDebug _ => isTrue trivial
  | .stops _ => isTrue trivial
  | .returns _ => isTrue trivial
  | .step => isTrue trivial
  | .debugStop => isTrue trivial

/-! ## 4. The invariant -/

/-- The task is a start past the lock that has no session yet. -/
def Task.entering (t : Task) : Bool :=
  t.kind == .start && (t.phase == .stopping || t.phase == .building || t.buildsSecond)

/-- What holds between the steps of an orderly run. -/
structure World.Inv (w : World) : Prop where
  /-- An open connection is of a session, or the first one of a session to be. -/
  held : ∀ c : Nat, w.closed[c]? = some false →
    (∃ (s : Nat) (x : Session), w.sessions[s]? = some x ∧ (x.target = c ∨ x.debug = c)) ∨
      ∃ t ∈ w.tasks, t.phase = .buildingSecond c
  closed : ∀ (s : Nat) (x : Session), w.sessions[s]? = some x → x.closing = true →
    w.closed[x.target]? = some true ∧ w.closed[x.debug]? = some true
  /-- The connections of a session are there, and the first one of a session to be. -/
  built : ∀ (s : Nat) (x : Session), w.sessions[s]? = some x →
    x.target < w.closed.length ∧ x.debug < w.closed.length
  building : ∀ t ∈ w.tasks, ∀ c, t.phase = .buildingSecond c → c < w.closed.length
  user : ∀ (s : Nat) (x : Session), w.sessions[s]? = some x → x.byTrace = false →
    x.closing = false → w.slot = some s
  trace : ∀ (s : Nat) (x : Session), w.sessions[s]? = some x → x.byTrace = true →
    x.closing = false → ⟨.trace, .working s⟩ ∈ w.tasks
  /-- The starts take turns. -/
  lock : ∀ (i j : Nat) (t u : Task), i < j → w.tasks[i]? = some t → w.tasks[j]? = some u →
    t.kind = .start → u.kind = .start → u.phase ≠ .waiting → t.phase = .ended
  /-- A start that is about to have a session has stopped the one there was. -/
  entering : ∀ t ∈ w.tasks, t.entering = true → ∀ (s : Nat) (x : Session),
    w.sessions[s]? = some x → x.byTrace = false → x.closing = true
  /-- A step has a session from its start on. -/
  steps : ∀ t ∈ w.tasks, t.kind = .steps → t.buildsSecond = false ∧ t.phase ≠ .building

variable {w w' : World}

/-- **What is asked follows from the invariant.** -/
theorem World.Inv.safe (h : w.Inv) : w.Safe where
  kept := h.user
  accounted hq c hc := by
    rcases h.held c hc with ⟨s, x, hx, hmem⟩ | ⟨t, ht, hp⟩
    · have hopen : x.closing = false := by
        by_contra hcl
        obtain ⟨h1, h2⟩ := h.closed s x hx (Bool.not_eq_false _ ▸ hcl)
        rcases hmem with rfl | rfl
        · rw [h1] at hc
          cases hc
        · rw [h2] at hc
          cases hc
      cases hb : x.byTrace with
      | false => exact ⟨s, x, h.user s x hx hb hopen, hx, hmem⟩
      | true => exact absurd (hq _ (h.trace s x hx hb hopen)) (fun e => nomatch e)
    · rw [hq t ht] at hp
      cases hp

theorem inv_start : World.Inv {} where
  held _ h := absurd h (by simp)
  closed _ _ h := absurd h (by simp)
  built _ _ h := absurd h (by simp)
  building _ h := absurd h not_mem_nil
  user _ _ h := absurd h (by simp)
  trace _ _ h := absurd h (by simp)
  lock _ _ _ _ _ h := absurd h (by simp)
  entering _ h := absurd h not_mem_nil
  steps _ h := absurd h not_mem_nil

/-- A connection that is closed stays closed, the others stay as they were. -/
theorem closed_set {l : List Bool} {c d : Nat} (h : (l.set d true)[c]? = some false) :
    l[c]? = some false := by
  by_cases hd : d = c
  · subst hd
    rw [List.getElem?_set] at h
    split at h
    · split at h <;> cases h
    · exact h
  · rwa [List.getElem?_set_ne hd] at h

theorem closed_stays {l : List Bool} {c d : Nat} (h : l[c]? = some true) :
    (l.set d true)[c]? = some true := by
  by_cases hd : d = c
  · subst hd
    exact List.getElem?_set_self (List.getElem?_eq_some_iff.mp h).1
  · rwa [List.getElem?_set_ne hd]

/-- `stop` says of every session what it was before, or that it is closing. -/
theorem session_stop {s j : Nat} {x : Session} (h : (w.stop s).sessions[j]? = some x) :
    ∃ y, w.sessions[j]? = some y ∧ x = { y with closing := x.closing } ∧
      (j = s ∧ x.closing = true ∨ j ≠ s ∧ x = y) := by
  rw [World.stop] at h
  split at h
  · rename_i hnone
    refine ⟨x, h, rfl, .inr ⟨fun e => ?_, rfl⟩⟩
    rw [e, hnone] at h
    cases h
  · rename_i y hy
    by_cases hj : s = j
    · subst hj
      rw [List.getElem?_set_self (List.getElem?_eq_some_iff.mp hy).1] at h
      cases h
      exact ⟨y, hy, rfl, .inl ⟨rfl, rfl⟩⟩
    · rw [List.getElem?_set_ne hj] at h
      exact ⟨x, h, rfl, .inr ⟨Ne.symm hj, rfl⟩⟩

theorem tasks_stop (s : Nat) : (w.stop s).tasks = w.tasks := by
  rw [World.stop]
  split <;> rfl

theorem length_stop (s : Nat) : (w.stop s).closed.length = w.closed.length := by
  rw [World.stop]
  split
  · rfl
  · rw [length_set, length_set]

/-- **Stopping a session keeps the invariant**, whichever session it is. -/
theorem inv_stop (h : w.Inv) (s : Nat) : (w.stop s).Inv := by
  have hopen : ∀ c : Nat, (w.stop s).closed[c]? = some false → w.closed[c]? = some false := by
    intro c hc
    rw [World.stop] at hc
    split at hc
    · exact hc
    · exact closed_set (closed_set hc)
  have hstays : ∀ c : Nat, w.closed[c]? = some true → (w.stop s).closed[c]? = some true := by
    intro c hc
    rw [World.stop]
    split
    · exact hc
    · exact closed_stays (closed_stays hc)
  refine ⟨fun c hc => ?_, fun j x hj hcl => ?_, fun j x hj => ?_, fun t ht => ?_,
    fun j x hj hb hcl => ?_, fun j x hj hb hcl => ?_, fun i j => ?_, fun t ht he j x hj hb => ?_,
    fun t ht => ?_⟩
  · rcases h.held c (hopen c hc) with ⟨j, x, hj, hmem⟩ | hbuild
    · refine .inl ?_
      rw [World.stop]
      split
      · exact ⟨j, x, hj, hmem⟩
      · rename_i y hy
        by_cases hjs : s = j
        · subst hjs
          obtain rfl := Option.some.inj (hj.symm.trans hy)
          exact ⟨s, _, List.getElem?_set_self (List.getElem?_eq_some_iff.mp hy).1, hmem⟩
        · exact ⟨j, x, by rw [List.getElem?_set_ne hjs]; exact hj, hmem⟩
    · rw [tasks_stop]
      exact .inr hbuild
  · obtain ⟨y, hy, hxy, hcase⟩ := session_stop hj
    obtain ⟨h1, h2⟩ := h.built j y hy
    rcases hcase with ⟨rfl, -⟩ | ⟨-, rfl⟩
    · have ht : x.target = y.target := by rw [hxy]
      have hd : x.debug = y.debug := by rw [hxy]
      rw [ht, hd, World.stop, hy]
      refine ⟨closed_stays (List.getElem?_set_self h1), List.getElem?_set_self ?_⟩
      rw [length_set]
      exact h2
    · obtain ⟨h3, h4⟩ := h.closed j x hy hcl
      exact ⟨hstays _ h3, hstays _ h4⟩
  · obtain ⟨y, hy, hxy, -⟩ := session_stop hj
    rw [length_stop, hxy]
    exact h.built j y hy
  · rw [tasks_stop] at ht
    rw [length_stop]
    exact h.building t ht
  · obtain ⟨y, hy, -, hcase⟩ := session_stop hj
    rcases hcase with ⟨-, hcl'⟩ | ⟨hne, rfl⟩
    · rw [hcl'] at hcl
      cases hcl
    · have hslot := h.user j x hy hb hcl
      rw [World.stop]
      split
      · exact hslot
      · rw [hslot]
        exact if_neg fun e => hne (Option.some.inj e)
  · obtain ⟨y, hy, -, hcase⟩ := session_stop hj
    rcases hcase with ⟨-, hcl'⟩ | ⟨-, rfl⟩
    · rw [hcl'] at hcl
      cases hcl
    · rw [tasks_stop]
      exact h.trace j x hy hb hcl
  · rw [tasks_stop]
    exact h.lock i j
  · rw [tasks_stop] at ht
    obtain ⟨y, hy, hxy, hcase⟩ := session_stop hj
    rcases hcase with ⟨-, hcl⟩ | ⟨-, rfl⟩
    · exact hcl
    · exact h.entering t ht he j x hy hb
  · rw [tasks_stop] at ht
    exact h.steps t ht

variable {k : Nat}

/-- Tasks other than the one that is replaced are there still. -/
theorem mem_set_of_ne {l : List Task} {t t' u : Task} (hk : l[k]? = some t)
    (hu : u ∈ l) (hne : u ≠ t) : u ∈ l.set k t' := by
  obtain ⟨j, hj⟩ := List.getElem?_of_mem hu
  have hjk : k ≠ j := by
    intro e
    rw [e, hj] at hk
    exact hne (Option.some.inj hk)
  refine mem_of_getElem? (i := j) ?_
  rw [List.getElem?_set_ne hjk]
  exact hj

theorem getElem_set_cases {l : List Task} {k j : Nat} {t t' u : Task} (hk : l[k]? = some t)
    (h : (l.set k t')[j]? = some u) : j = k ∧ u = t' ∨ j ≠ k ∧ l[j]? = some u := by
  by_cases hj : k = j
  · subst hj
    rw [List.getElem?_set_self (List.getElem?_eq_some_iff.mp hk).1] at h
    exact .inl ⟨rfl, (Option.some.inj h).symm⟩
  · rw [List.getElem?_set_ne hj] at h
    exact .inr ⟨Ne.symm hj, h⟩

theorem lockFree_iff : w.lockFree k = true ↔
    ∀ (i : Nat) (t : Task), i < k → w.tasks[i]? = some t → t.kind = .start → t.phase = .ended := by
  rw [World.lockFree, all_eq_true]
  constructor
  · intro h i t hi ht hkind
    have hmem : t ∈ w.tasks.take k := by
      refine mem_of_getElem? (i := i) ?_
      rw [List.getElem?_take_of_lt hi]
      exact ht
    have := h t hmem
    rw [Bool.or_eq_true, bne_iff_ne, beq_iff_eq] at this
    exact this.resolve_left fun hne => hne hkind
  · intro h t ht
    obtain ⟨i, hi⟩ := List.getElem?_of_mem ht
    have hlt : i < k := by
      by_contra hge
      rw [List.getElem?_take_eq_none (Nat.not_lt.mp hge)] at hi
      cases hi
    rw [List.getElem?_take_of_lt hlt] at hi
    rw [Bool.or_eq_true, bne_iff_ne, beq_iff_eq]
    by_cases hkind : t.kind = .start
    · exact .inr (h i t hlt hi hkind)
    · exact .inl hkind

/-- The turns are kept where a task goes on that is not over, and that had the lock or has it
    now. -/
theorem lock_set (h : w.Inv) {t t' : Task} (hk : w.tasks[k]? = some t)
    (hkind : t'.kind = t.kind) (hended : t.phase ≠ .ended)
    (hlock : t'.phase ≠ .waiting → t.phase ≠ .waiting ∨ w.lockFree k = true) (i j : Nat)
    (u v : Task) (hij : i < j) (hu : (w.tasks.set k t')[i]? = some u)
    (hv : (w.tasks.set k t')[j]? = some v) (hus : u.kind = .start) (hvs : v.kind = .start)
    (hvp : v.phase ≠ .waiting) : u.phase = .ended := by
  rcases getElem_set_cases hk hv with ⟨rfl, rfl⟩ | ⟨-, hv'⟩
  · have hu' : w.tasks[i]? = some u := by
      rwa [List.getElem?_set_ne (Nat.ne_of_gt hij)] at hu
    rcases hlock hvp with hp | hfree
    · exact h.lock i j u t hij hu' hk hus (hkind.symm.trans hvs) hp
    · exact lockFree_iff.mp hfree i u hij hu' hus
  · rcases getElem_set_cases hk hu with ⟨rfl, rfl⟩ | ⟨-, hu'⟩
    · exact absurd (h.lock i j t v hij hk hv' (hkind.symm.trans hus) hvs hvp) hended
    · exact h.lock i j u v hij hu' hv' hus hvs hvp

/-- **A task goes on**, and no connection is built. -/
theorem inv_setTask (h : w.Inv) {t t' : Task} (hk : w.tasks[k]? = some t)
    (hkind : t'.kind = t.kind) (hended : t.phase ≠ .ended) (hsecond : t.buildsSecond = false)
    (hsecond' : t'.buildsSecond = false)
    (htrace : ∀ (s : Nat) (x : Session), t = ⟨.trace, .working s⟩ → w.sessions[s]? = some x →
      x.closing = true)
    (hlock : t'.phase ≠ .waiting → t.phase ≠ .waiting ∨ w.lockFree k = true)
    (hentering : t'.entering = true → ∀ (s : Nat) (x : Session), w.sessions[s]? = some x →
      x.byTrace = false → x.closing = true)
    (hsteps : t'.kind = .steps → t'.phase ≠ .building) : (w.setTask k t').Inv := by
  have hnot : ∀ (u : Task) (c : Nat), u.buildsSecond = false → u.phase ≠ .buildingSecond c := by
    intro u c hu hp
    rw [Task.buildsSecond, hp] at hu
    cases hu
  refine ⟨fun c hc => ?_, h.closed, h.built, fun u hu c hp => ?_, h.user, fun s x hs hb hcl => ?_,
    lock_set h hk hkind hended hlock, fun u hu he => ?_, fun u hu hus => ?_⟩
  · rcases h.held c hc with hsess | ⟨u, hu, hp⟩
    · exact .inl hsess
    · exact .inr ⟨u, mem_set_of_ne hk hu fun e => hnot t c hsecond (e ▸ hp), hp⟩
  · rcases mem_or_eq_of_mem_set hu with hold | rfl
    · exact h.building u hold c hp
    · exact absurd hp (hnot _ c hsecond')
  · refine mem_set_of_ne hk (h.trace s x hs hb hcl) fun e => ?_
    rw [htrace s x e.symm hs] at hcl
    cases hcl
  · rcases mem_or_eq_of_mem_set hu with hold | rfl
    · exact h.entering u hold he
    · exact hentering he
  · rcases mem_or_eq_of_mem_set hu with hold | rfl
    · exact h.steps u hold hus
    · exact ⟨hsecond', hsteps hus⟩

/-- A task is started. -/
theorem inv_addTask (h : w.Inv) {t : Task} (hsecond : t.buildsSecond = false)
    (hentering : t.entering = false) (hstart : t.kind = .start → t.phase = .waiting)
    (hsteps : t.kind = .steps → t.phase ≠ .building) :
    World.Inv { w with tasks := w.tasks ++ [t] } := by
  have hback : ∀ (j : Nat) (u : Task), (w.tasks ++ [t])[j]? = some u →
      j = w.tasks.length ∧ u = t ∨ w.tasks[j]? = some u := by
    intro j u hj
    rcases Nat.lt_trichotomy j w.tasks.length with hlt | heq | hgt
    · exact .inr (by rwa [List.getElem?_append_left hlt] at hj)
    · rw [heq, List.getElem?_concat_length] at hj
      exact .inl ⟨heq, (Option.some.inj hj).symm⟩
    · rw [List.getElem?_eq_none (by rw [length_append]; exact hgt)] at hj
      cases hj
  refine ⟨fun c hc => ?_, h.closed, h.built, fun u hu c hp => ?_, h.user, fun s x hs hb hcl => ?_,
    fun i j u v hij hu hv hus hvs hvp => ?_, fun u hu he => ?_, fun u hu hus => ?_⟩
  · rcases h.held c hc with hsess | ⟨u, hu, hp⟩
    · exact .inl hsess
    · exact .inr ⟨u, mem_append_left _ hu, hp⟩
  · rcases mem_append.mp hu with hold | hnew
    · exact h.building u hold c hp
    · rw [mem_singleton.mp hnew] at hp
      rw [Task.buildsSecond, hp] at hsecond
      cases hsecond
  · exact mem_append_left _ (h.trace s x hs hb hcl)
  · rcases hback j v hv with ⟨-, rfl⟩ | hv'
    · exact absurd (hstart hvs) hvp
    · rcases hback i u hu with ⟨rfl, -⟩ | hu'
      · exact absurd (Nat.lt_trans hij (List.getElem?_eq_some_iff.mp hv').1) (Nat.lt_irrefl _)
      · exact h.lock i j u v hij hu' hv' hus hvs hvp
  · rcases mem_append.mp hu with hold | hnew
    · exact h.entering u hold he
    · rw [mem_singleton.mp hnew, hentering] at he
      cases he
  · rcases mem_append.mp hu with hold | hnew
    · exact h.steps u hold hus
    · rw [mem_singleton.mp hnew] at hus ⊢
      exact ⟨hsecond, hsteps hus⟩

/-- More connections take nothing from those there are. -/
theorem closed_append {l : List Bool} {c : Nat} {b : Bool} (h : l[c]? = some b) (more : List Bool) :
    (l ++ more)[c]? = some b := by
  rw [List.getElem?_append_left (List.getElem?_eq_some_iff.mp h).1]
  exact h

theorem closed_concat {l : List Bool} {c : Nat} {b d : Bool} (h : (l ++ [d])[c]? = some b) :
    l[c]? = some b ∨ c = l.length := by
  rcases Nat.lt_trichotomy c l.length with hlt | heq | hgt
  · exact .inl (by rwa [List.getElem?_append_left hlt] at h)
  · exact .inr heq
  · rw [List.getElem?_eq_none (by rw [length_append]; exact hgt)] at h
    cases h

/-- The first connection of a session is built. -/
theorem inv_first (h : w.Inv) {t : Task} (hk : w.tasks[k]? = some t)
    (hp : t.phase = .building) :
    World.Inv { w.setTask k { t with phase := .buildingSecond w.closed.length } with
      closed := w.closed ++ [false] } := by
  have hlen : w.closed.length < (w.closed ++ [false]).length := by
    rw [length_append]
    exact Nat.lt_succ_self _
  have hentering : t.kind = .start → t.entering = true := fun hkind => by
    rw [Task.entering, hkind, hp]
    rfl
  refine ⟨fun c hc => ?_, fun s x hs hcl => ?_, fun s x hs => ?_, fun u hu c hpu => ?_, h.user,
    fun s x hs hb hcl => ?_, lock_set h hk rfl (by rw [hp]; exact fun e => nomatch e)
      (fun _ => .inl (by rw [hp]; exact fun e => nomatch e)), fun u hu he => ?_, fun u hu hus => ?_⟩
  · rcases closed_concat hc with hold | rfl
    · rcases h.held c hold with hsess | ⟨u, hu, hpu⟩
      · exact .inl hsess
      · refine .inr ⟨u, mem_set_of_ne hk hu fun e => ?_, hpu⟩
        rw [e, hp] at hpu
        cases hpu
    · have hlt := (List.getElem?_eq_some_iff.mp hk).1
      exact .inr ⟨_, mem_of_getElem? (List.getElem?_set_self hlt), rfl⟩
  · obtain ⟨h1, h2⟩ := h.closed s x hs hcl
    exact ⟨closed_append h1 _, closed_append h2 _⟩
  · obtain ⟨h1, h2⟩ := h.built s x hs
    exact ⟨Nat.lt_trans h1 hlen, Nat.lt_trans h2 hlen⟩
  · rcases mem_or_eq_of_mem_set hu with hold | rfl
    · exact Nat.lt_trans (h.building u hold c hpu) hlen
    · obtain rfl := Phase.buildingSecond.inj hpu
      exact hlen
  · refine mem_set_of_ne hk (h.trace s x hs hb hcl) fun e => ?_
    rw [← e] at hp
    cases hp
  · rcases mem_or_eq_of_mem_set hu with hold | rfl
    · exact h.entering u hold he
    · refine h.entering t (mem_of_getElem? hk) (hentering ?_)
      rw [Task.entering, Bool.and_eq_true, beq_iff_eq] at he
      exact he.1
  · rcases mem_or_eq_of_mem_set hu with hold | rfl
    · exact h.steps u hold hus
    · exact absurd hp (h.steps t (mem_of_getElem? hk) hus).2

/-- **A session is created**: its slot is free for it, so nothing of the user's is lost. -/
theorem inv_second (h : w.Inv) {t : Task} {target : Nat} (hk : w.tasks[k]? = some t)
    (hp : t.phase = .buildingSecond target) (hfree : t.kind = .trace → w.slotFree = true) :
    World.Inv { w.setTask k { t with phase := .working w.sessions.length } with
      closed := w.closed ++ [false]
      sessions := w.sessions ++ [⟨target, w.closed.length, t.kind == .trace, false⟩]
      slot := some w.sessions.length } := by
  have hmem := mem_of_getElem? hk
  have hlen : w.closed.length < (w.closed ++ [false]).length := by
    rw [length_append]
    exact Nat.lt_succ_self _
  have hlt := (List.getElem?_eq_some_iff.mp hk).1
  have hback : ∀ (s : Nat) (x : Session),
      (w.sessions ++ [⟨target, w.closed.length, t.kind == .trace, false⟩])[s]? = some x →
      s = w.sessions.length ∧ x = ⟨target, w.closed.length, t.kind == .trace, false⟩ ∨
        w.sessions[s]? = some x := by
    intro s x hs
    rcases Nat.lt_trichotomy s w.sessions.length with hl | heq | hgt
    · exact .inr (by rwa [List.getElem?_append_left hl] at hs)
    · rw [heq, List.getElem?_concat_length] at hs
      exact .inl ⟨heq, (Option.some.inj hs).symm⟩
    · rw [List.getElem?_eq_none (by rw [length_append]; exact hgt)] at hs
      cases hs
  -- no session of the user's is open when another one is created
  have huser : ∀ (s : Nat) (x : Session), w.sessions[s]? = some x → x.byTrace = false →
      x.closing = true := by
    intro s x hs hb
    cases hkind : t.kind with
    | start =>
      refine h.entering t hmem ?_ s x hs hb
      rw [Task.entering, Task.buildsSecond, hkind, hp]
      rfl
    | trace =>
      by_contra hcl
      have hslot := h.user s x hs hb (Bool.not_eq_true _ ▸ hcl)
      have := hfree hkind
      rw [World.slotFree, hslot, Option.all_some, hs, Option.all_some, hb, Bool.false_or] at this
      exact hcl this
    | steps =>
      have hno := (h.steps t hmem hkind).1
      rw [Task.buildsSecond, hp] at hno
      cases hno
  refine ⟨fun c hc => ?_, fun s x hs hcl => ?_, fun s x hs => ?_, fun u hu c hpu => ?_,
    fun s x hs hb hcl => ?_, fun s x hs hb hcl => ?_,
    lock_set h hk rfl (by rw [hp]; exact fun e => nomatch e)
      (fun _ => .inl (by rw [hp]; exact fun e => nomatch e)), fun u hu he s x hs hb => ?_,
    fun u hu hus => ?_⟩
  · have hnew : (w.sessions ++ [⟨target, w.closed.length, t.kind == .trace, false⟩])[
        w.sessions.length]? = some ⟨target, w.closed.length, t.kind == .trace, false⟩ :=
      List.getElem?_concat_length
    rcases closed_concat hc with hold | rfl
    · rcases h.held c hold with ⟨s, x, hs, hx⟩ | ⟨u, hu, hpu⟩
      · refine .inl ⟨s, x, ?_, hx⟩
        rw [List.getElem?_append_left (List.getElem?_eq_some_iff.mp hs).1]
        exact hs
      · by_cases hut : u = t
        · rw [hut, hp] at hpu
          obtain rfl := Phase.buildingSecond.inj hpu
          exact .inl ⟨_, _, hnew, .inl rfl⟩
        · exact .inr ⟨u, mem_set_of_ne hk hu hut, hpu⟩
    · exact .inl ⟨_, _, hnew, .inr rfl⟩
  · rcases hback s x hs with ⟨-, rfl⟩ | hold
    · cases hcl
    · obtain ⟨h1, h2⟩ := h.closed s x hold hcl
      exact ⟨closed_append h1 _, closed_append h2 _⟩
  · rcases hback s x hs with ⟨-, rfl⟩ | hold
    · exact ⟨Nat.lt_trans (h.building t hmem target hp) hlen, hlen⟩
    · obtain ⟨h1, h2⟩ := h.built s x hold
      exact ⟨Nat.lt_trans h1 hlen, Nat.lt_trans h2 hlen⟩
  · rcases mem_or_eq_of_mem_set hu with hold | rfl
    · exact Nat.lt_trans (h.building u hold c hpu) hlen
    · cases hpu
  · rcases hback s x hs with ⟨rfl, -⟩ | hold
    · rfl
    · rw [huser s x hold hb] at hcl
      cases hcl
  · rcases hback s x hs with ⟨rfl, rfl⟩ | hold
    · have hkind : t.kind = .trace := beq_iff_eq.mp hb
      refine mem_of_getElem? (i := k) ?_
      rw [← hkind]
      exact List.getElem?_set_self hlt
    · refine mem_set_of_ne hk (h.trace s x hold hb hcl) fun e => ?_
      rw [← e] at hp
      cases hp
  · rcases mem_or_eq_of_mem_set hu with hold | rfl
    · rcases hback s x hs with ⟨-, rfl⟩ | holds
      · -- two starts are never past the lock at once
        exfalso
        have hustart : u.kind = .start := by
          rw [Task.entering, Bool.and_eq_true, beq_iff_eq] at he
          exact he.1
        have hnottrace : t.kind ≠ .trace := fun e => by simp [e] at hb
        have hnotsteps : t.kind ≠ .steps := fun e => by
          have hno := (h.steps t hmem e).1
          rw [Task.buildsSecond, hp] at hno
          cases hno
        have hstart : t.kind = .start := by
          cases hkind : t.kind with
          | start => rfl
          | trace => exact absurd hkind hnottrace
          | steps => exact absurd hkind hnotsteps
        obtain ⟨j, hj⟩ := List.getElem?_of_mem hu
        rcases getElem_set_cases hk hj with ⟨rfl, rfl⟩ | ⟨hjk, hj'⟩
        · cases hustart ▸ he
        · have hup : u.phase ≠ .waiting ∧ u.phase ≠ .ended := by
            constructor
            · intro e
              rw [Task.entering, Task.buildsSecond, e] at he
              simp at he
            · intro e
              rw [Task.entering, Task.buildsSecond, e] at he
              simp at he
          rcases Nat.lt_or_gt_of_ne hjk with hlt' | hgt'
          · have hwait : t.phase ≠ .waiting := by
              rw [hp]
              exact fun e => nomatch e
            exact hup.2 (h.lock j k u t hlt' hj' hk hustart hstart hwait)
          · have := h.lock k j t u hgt' hk hj' hstart hustart hup.1
            rw [hp] at this
            cases this
      · exact h.entering u hold he s x holds hb
    · cases hkind : t.kind <;> rw [Task.entering, Task.buildsSecond, hkind] at he <;> cases he
  · rcases mem_or_eq_of_mem_set hu with hold | rfl
    · exact h.steps u hold hus
    · exact ⟨rfl, fun e => nomatch e⟩

/-- A connection of a session is closed. -/
theorem inv_closesDebug (h : w.Inv) (c : Nat) :
    World.Inv { w with closed := w.closed.set c true } where
  held d hd := h.held d (closed_set hd)
  closed s x hs hcl := (h.closed s x hs hcl).imp closed_stays closed_stays
  built s x hs := by
    rw [length_set]
    exact h.built s x hs
  building t ht d hp := by
    rw [length_set]
    exact h.building t ht d hp
  user := h.user
  trace := h.trace
  lock := h.lock
  entering := h.entering
  steps := h.steps

theorem getElem_tasks_stop {s k : Nat} {t : Task} (hk : w.tasks[k]? = some t) :
    (w.stop s).tasks[k]? = some t := by
  rw [tasks_stop]
  exact hk

/-- Whoever stops a session leaves it closing. -/
theorem stop_closing {s : Nat} {x : Session} (h : (w.stop s).sessions[s]? = some x) :
    x.closing = true := by
  obtain ⟨y, -, -, ⟨-, hcl⟩ | ⟨hne, -⟩⟩ := session_stop h
  · exact hcl
  · exact absurd rfl hne

theorem not_entering_of_ended (kind : Kind) : Task.entering ⟨kind, .ended⟩ = false := by
  cases kind <;> rfl

/-- **A start enters**: what the user had is stopped first. -/
theorem inv_enters (h : w.Inv) (hs : step w (.enters k) = some w') : w'.Inv := by
  rw [step] at hs
  split at hs
  · rename_i hk
    split at hs
    · rename_i hfree
      split at hs
      · rename_i hslot
        cases hs
        refine inv_setTask h hk rfl (fun e => nomatch e) rfl rfl (fun _ _ e => nomatch e)
          (fun _ => .inr hfree) (fun _ s x hx hb => ?_) (fun e => nomatch e)
        by_contra hcl
        rw [h.user s x hx hb (Bool.not_eq_true _ ▸ hcl)] at hslot
        cases hslot
      · rename_i s hslot
        cases hs
        have hfree' : (w.stop s).lockFree k = true := by
          rw [World.lockFree, tasks_stop]
          exact hfree
        refine inv_setTask (inv_stop h s) (getElem_tasks_stop hk) rfl (fun e => nomatch e) rfl rfl
          (fun _ _ e => nomatch e) (fun _ => .inr hfree') (fun _ j x hx hb => ?_)
          (fun e => nomatch e)
        obtain ⟨y, hy, hxy, ⟨-, hcl⟩ | ⟨hne, rfl⟩⟩ := session_stop hx
        · exact hcl
        · by_contra hcl
          have hj := h.user j x hy hb (Bool.not_eq_true _ ▸ hcl)
          exact hne (Option.some.inj (hj.symm.trans hslot))
    · cases hs
  · cases hs

/-- **A task ends**; a trace stops its session first. -/
theorem inv_returns (h : w.Inv) (hs : step w (.returns k) = some w') : w'.Inv := by
  rw [step] at hs
  split at hs
  · rename_i t hk
    split at hs
    · rename_i s hp
      cases hs
      have hsecond : t.buildsSecond = false := by rw [Task.buildsSecond, hp]
      have hended : t.phase ≠ .ended := by
        rw [hp]
        exact fun e => nomatch e
      have hlock : t.phase ≠ .waiting := by
        rw [hp]
        exact fun e => nomatch e
      have hnot : Task.entering { t with phase := .ended } = true → False := fun he => by
        rw [not_entering_of_ended] at he
        cases he
      by_cases hkind : t.kind = .trace
      · rw [if_pos hkind]
        refine inv_setTask (inv_stop h s) (getElem_tasks_stop hk) rfl hended hsecond rfl
          (fun j x e hx => ?_) (fun _ => .inl hlock) (fun he => (hnot he).elim)
          (fun _ e => nomatch e)
        rw [e] at hp
        obtain rfl := Phase.working.inj hp
        exact stop_closing hx
      · rw [if_neg hkind]
        exact inv_setTask h hk rfl hended hsecond rfl
          (fun j x e _ => absurd (congrArg Task.kind e) hkind) (fun _ => .inl hlock)
          (fun he => (hnot he).elim) (fun _ e => nomatch e)
    · cases hs
  · cases hs

/-- **Connections are built**; under the condition nothing is lost by it. -/
theorem inv_builds (h : w.Inv) {ok : Bool} (hs : step w (.builds k ok) = some w')
    (ho : Orderly w (.builds k ok)) : w'.Inv := by
  rw [step] at hs
  split at hs
  · rename_i t hk
    rw [Orderly, hk, Option.all_some] at ho
    split at hs
    · rename_i hp
      have hsecond : t.buildsSecond = false := by rw [Task.buildsSecond, hp]
      split at hs
      · obtain rfl := Option.some.inj hs
        exact inv_first h hk hp
      · cases hs
        refine inv_setTask h hk rfl (by rw [hp]; exact fun e => nomatch e) hsecond rfl
          (fun s x e => ?_) (fun _ => .inl (by rw [hp]; exact fun e => nomatch e)) (fun he => ?_)
          (fun _ e => nomatch e)
        · rw [e] at hp
          cases hp
        · rw [not_entering_of_ended] at he
          cases he
    · rename_i target hp
      have hsecond : t.buildsSecond = true := by rw [Task.buildsSecond, hp]
      rw [hsecond, Bool.not_true, Bool.false_or, Bool.and_eq_true, Bool.or_eq_true,
        bne_iff_ne] at ho
      obtain ⟨rfl, hfree⟩ := ho
      cases hs
      exact inv_second h hk hp fun hkind => hfree.resolve_left fun hne => hne hkind
    · cases hs
  · cases hs

/-- **An orderly step keeps the invariant.** -/
theorem inv_step (h : w.Inv) {e : Event} (hs : step w e = some w') (ho : Orderly w e) : w'.Inv := by
  cases e with
  | debugStart =>
    cases hs
    exact inv_addTask h rfl rfl (fun _ => rfl) (fun e => nomatch e)
  | enters k => exact inv_enters h hs
  | stopped k =>
    rw [step] at hs
    split at hs
    · rename_i hk
      cases hs
      exact inv_setTask h hk rfl (fun e => nomatch e) rfl rfl (fun _ _ e => nomatch e)
        (fun _ => .inl fun e => nomatch e) (fun _ => h.entering _ (mem_of_getElem? hk) rfl)
        (fun e => nomatch e)
    · cases hs
  | traceProc =>
    cases hs
    exact inv_addTask h rfl rfl (fun e => nomatch e) (fun e => nomatch e)
  | builds k ok => exact inv_builds h hs ho
  | closesDebug k =>
    rw [step] at hs
    split at hs
    · split at hs
      · split at hs
        · obtain rfl := Option.some.inj hs
          exact inv_closesDebug h _
        · cases hs
      · cases hs
    · cases hs
  | stops k =>
    rw [step] at hs
    split at hs
    · split at hs
      · obtain rfl := Option.some.inj hs
        exact inv_stop h _
      · cases hs
    · cases hs
  | returns k => exact inv_returns h hs
  | step =>
    rw [DebugSlot.step] at hs
    split at hs
    · obtain rfl := Option.some.inj hs
      exact h
    · cases hs
      exact inv_addTask h rfl rfl (fun e => nomatch e) (fun _ e => nomatch e)
  | debugStop =>
    rw [step] at hs
    split at hs
    · obtain rfl := Option.some.inj hs
      exact h
    · cases hs
      exact inv_stop h _

/-- **No connection of the debugger is lost in an orderly run**: what the user has open stays in
    the slot, and when all is quiet everything else is closed. -/
theorem orderly_safe (w : World) (h : Reached Orderly w) : w.Safe :=
  (h.inv inv_start fun _ _ _ hi hs ho => inv_step hi hs ho).safe

/-! ## 5. Runs to try it with -/

/-- The user debugs, stops, and has a procedure traced. -/
def oneAfterTheOther : List Event :=
  [.debugStart, .enters 0, .builds 0 true, .builds 0 true, .returns 0, .step, .returns 1,
    .debugStop, .traceProc, .builds 2 true, .builds 2 true, .returns 2]

theorem orderly_safe_once : ∃ w : World, w.Safe ∧ w.closed = [true, true, true, true] := by
  have hrun : ∃ w ∈ oneAfterTheOther.foldlM
      (fun w e => if Orderly w e then step w e else none) ({} : World),
      w.closed = [true, true, true, true] := by
    decide
  obtain ⟨w, hw, hend⟩ := hrun
  exact ⟨w, orderly_safe w (Runs.exec _ .start hw), hend⟩

/-- A procedure is traced while a debug session is paused. -/
def traceOverSession : List Event :=
  [.debugStart, .enters 0, .builds 0 true, .builds 0 true, .returns 0,
    .traceProc, .builds 1 true, .builds 1 true, .returns 1]

/-- **A trace over the user's session leaves its connections open, and nobody has them.** -/
theorem connection_lost : ¬ ∀ w, Reached (fun _ _ => True) w → w.Safe := by
  intro h
  have hrun : ∃ w ∈ traceOverSession.foldlM
      (fun w e => if True then step w e else none) ({} : World),
      (∀ t ∈ w.tasks, t.phase = .ended) ∧ w.closed[0]? = some false ∧ w.slot = none := by
    decide
  obtain ⟨w, hw, hquiet, hopen, hslot⟩ := hrun
  obtain ⟨s, x, hs, -⟩ := (h w (Runs.exec _ .start hw)).accounted hquiet 0 hopen
  rw [hslot] at hs
  cases hs

end Veesker.Sidecar.DebugSlot
