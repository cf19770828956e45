/-
  File:      Veesker/Run/Chain.lean
  Subject:   A LOCK MADE OF PROMISES: every call awaits the promise that the call before it left, and
             settles its own when its body has ended, whatever the outcome.

  A promise is told by where it comes from. The order in which the run time takes up what has become
  ready is left open. A lock is a `Discipline`: what a call leaves for the next one (its own gate, or
  `prior.then(() => gate)`), and whether it removes what it finds to be its own gate.

  * `Inv`, `inv_of_reachable` -- what every state of a run keeps.
  * `Inv.exclusive`, `Inv.earlier_done` -- **one body of a key at a time, in the order of the
    calls**.
  * `Inv.next_runs` -- **nothing is blocked**: once the run time has nothing left to do, the first
    call of a key that has not ended is the one whose body runs; `work_lt` bounds what the run time
    has to do.
  * `Inv.tail_eq_none_iff` -- nothing is ever removed.

  Nothing here names the repository.
-/
import Mathlib.Logic.Function.Basic
import Mathlib.Data.List.Nodup
import Mathlib.Algebra.Ring.Nat
import Veesker.Run.Flight

namespace Veesker.Run.Chain

open List

/-! ## 1. The state -/

inductive Promise where
  /-- `Promise.resolve()`. -/
  | resolved
  /-- The promise that a call settles at its end. -/
  | gate (call : Nat)
  /-- `prior.then(() => gate)` of a call. -/
  | derived (call : Nat)
  deriving DecidableEq

inductive Phase where
  /-- For the promise of the call before. -/
  | awaiting
  | running
  | done (ok : Bool)
  deriving DecidableEq

def Phase.isDone : Phase → Bool
  | done _ => true
  | _ => false

/-- How far a derived promise is. -/
inductive Stage where
  | waiting
  /-- The callback was called, and the promise takes over what the gate will be. -/
  | following
  | settled
  deriving DecidableEq

structure Call (κ : Type) where
  key : κ
  prior : Promise
  phase : Phase := .awaiting
  /-- Of the promise derived for this call, where there is one. -/
  stage : Stage := .waiting

structure World (κ : Type) where
  /-- All calls, the oldest first. -/
  calls : List (Call κ) := []
  /-- What the last call of a key has left. -/
  tail : κ → Option Promise := fun _ => none
  /-- The calls whose body was called, in that order. -/
  started : List Nat := []

structure Discipline where
  /-- A call leaves `prior.then(() => gate)`, not the gate. -/
  derives : Bool
  /-- At its end a call removes what was left, if that is its own gate. -/
  deletes : Bool

def Discipline.stored (D : Discipline) (call : Nat) : Promise :=
  if D.derives then .derived call else .gate call

section

variable {κ : Type}

def World.keys (w : World κ) : List κ := w.calls.map Call.key

/-- Whether a promise is settled, as the calls stand. -/
def settled (calls : List (Call κ)) : Promise → Bool
  | .resolved => true
  | .gate i => calls[i]?.any fun c => c.phase.isDone
  | .derived i => calls[i]?.any fun c => c.stage == .settled

end

/-! ## 2. The steps -/

inductive Event (κ : Type) where
  | asks (key : κ)
  /-- The callback of a call's derived promise is called. -/
  | derives (call : Nat)
  | follows (call : Nat)
  /-- A call goes on behind its `await`, and calls its body. -/
  | resumes (call : Nat)
  /-- The body has ended, or thrown. -/
  | ends (call : Nat) (ok : Bool)
  deriving DecidableEq

/-- The events that need nobody but the run time. -/
def Event.internal {κ : Type} : Event κ → Bool
  | derives _ => true
  | follows _ => true
  | resumes _ => true
  | _ => false

section

variable {κ : Type} [DecidableEq κ] (D : Discipline)

def step (w : World κ) : Event κ → Option (World κ)
  | .asks key =>
    some { w with
      calls := w.calls ++ [{ key, prior := (w.tail key).getD .resolved }]
      tail := Function.update w.tail key (some (D.stored w.calls.length)) }
  | .derives i => do
    let c ← w.calls[i]?
    if D.derives = true ∧ c.stage = .waiting ∧ settled w.calls c.prior = true then
      some { w with calls := w.calls.set i { c with stage := .following } }
    else none
  | .follows i => do
    let c ← w.calls[i]?
    if c.stage = .following ∧ settled w.calls (.gate i) = true then
      some { w with calls := w.calls.set i { c with stage := .settled } }
    else none
  | .resumes i => do
    let c ← w.calls[i]?
    if c.phase = .awaiting ∧ settled w.calls c.prior = true then
      some { w with
        calls := w.calls.set i { c with phase := .running }
        started := w.started ++ [i] }
    else none
  | .ends i ok => do
    let c ← w.calls[i]?
    if c.phase = .running then
      some { w with
        calls := w.calls.set i { c with phase := .done ok }
        tail := if D.deletes = true ∧ w.tail c.key = some (.gate i)
          then Function.update w.tail c.key none else w.tail }
    else none

/-- The states of all runs. -/
abbrev Reachable : World κ → Prop := Runs (fun w e w' => step D w e = some w') (fun _ _ => True) {}

/-- The run time has nothing left to do. -/
def Quiet (w : World κ) : Prop := ∀ e : Event κ, e.internal = true → step D w e = none

/-- What the run time may still have to do for a call. -/
def Call.work (c : Call κ) : Nat :=
  (if c.phase = .awaiting then 1 else 0) +
    match c.stage with
    | .waiting => 2
    | .following => 1
    | .settled => 0

def work (w : World κ) : Nat := (w.calls.map Call.work).sum

end

/-! ## 3. What a step does -/

section

variable {κ : Type} [DecidableEq κ] {D : Discipline} {w w' : World κ} {i : Nat} {c c' : Call κ}

theorem step_derives (h : step D w (.derives i) = some w') :
    ∃ c, w.calls[i]? = some c ∧ D.derives = true ∧ c.stage = .waiting ∧
      settled w.calls c.prior = true ∧
      w' = { w with calls := w.calls.set i { c with stage := .following } } := by
  obtain ⟨c, hc, h⟩ := Option.bind_eq_some_iff.mp h
  split at h
  · rename_i hg
    exact ⟨c, hc, hg.1, hg.2.1, hg.2.2, (Option.some.inj h).symm⟩
  · cases h

theorem step_follows (h : step D w (.follows i) = some w') :
    ∃ c, w.calls[i]? = some c ∧ c.stage = .following ∧ c.phase.isDone = true ∧
      w' = { w with calls := w.calls.set i { c with stage := .settled } } := by
  obtain ⟨c, hc, h⟩ := Option.bind_eq_some_iff.mp h
  split at h
  · rename_i hg
    refine ⟨c, hc, hg.1, ?_, (Option.some.inj h).symm⟩
    simpa [settled, hc] using hg.2
  · cases h

theorem step_resumes (h : step D w (.resumes i) = some w') :
    ∃ c, w.calls[i]? = some c ∧ c.phase = .awaiting ∧ settled w.calls c.prior = true ∧
      w' = { w with
        calls := w.calls.set i { c with phase := .running }
        started := w.started ++ [i] } := by
  obtain ⟨c, hc, h⟩ := Option.bind_eq_some_iff.mp h
  split at h
  · rename_i hg
    exact ⟨c, hc, hg.1, hg.2, (Option.some.inj h).symm⟩
  · cases h

theorem step_ends {ok : Bool} (h : step D w (.ends i ok) = some w') :
    ∃ c, w.calls[i]? = some c ∧ c.phase = .running ∧
      w' = { w with
        calls := w.calls.set i { c with phase := .done ok }
        tail := if D.deletes = true ∧ w.tail c.key = some (.gate i)
          then Function.update w.tail c.key none else w.tail } := by
  obtain ⟨c, hc, h⟩ := Option.bind_eq_some_iff.mp h
  split at h
  · rename_i hg
    exact ⟨c, hc, hg, (Option.some.inj h).symm⟩
  · cases h

end

/-! ## 4. One call among the others -/

section

variable {κ : Type} {calls : List (Call κ)} {i : Nat} {c c' : Call κ}

theorem getElem?_set_self_of (hc : calls[i]? = some c) : (calls.set i c')[i]? = some c' := by
  rw [List.getElem?_set_self]
  exact (List.getElem?_eq_some_iff.mp hc).1

/-- Who stands there after one call was changed. -/
theorem getElem?_set_cases {j : Nat} {d : Call κ} (h : (calls.set i c')[j]? = some d) :
    (j = i ∧ d = c') ∨ (j ≠ i ∧ calls[j]? = some d) := by
  rw [List.getElem?_set] at h
  split at h
  · rename_i hij
    split at h
    · exact .inl ⟨hij.symm, (Option.some.inj h).symm⟩
    · cases h
  · rename_i hij
    exact .inr ⟨Ne.symm hij, h⟩

/-- A call that keeps its key changes no key. -/
theorem keys_set (hc : calls[i]? = some c) (hk : c'.key = c.key) :
    (calls.set i c').map Call.key = calls.map Call.key := by
  obtain ⟨hlt, rfl⟩ := List.getElem?_eq_some_iff.mp hc
  rw [map_set, hk]
  refine ext_getElem (by simp) fun j h1 h2 => ?_
  rw [getElem_set]
  split
  · rename_i hij
    subst hij
    rw [getElem_map]
  · rfl

/-- A promise stays settled when a call goes on. -/
theorem settled_set (hc : calls[i]? = some c)
    (hphase : c.phase.isDone = true → c'.phase.isDone = true)
    (hstage : c.stage = .settled → c'.stage = .settled) {p : Promise}
    (hp : settled calls p = true) : settled (calls.set i c') p = true := by
  cases p with
  | resolved => rfl
  | gate j =>
    by_cases hij : i = j
    · subst hij
      simp only [settled, hc, Option.any_some] at hp
      simp only [settled, getElem?_set_self_of hc, Option.any_some, hphase hp]
    · simpa only [settled, List.getElem?_set_ne hij] using hp
  | derived j =>
    by_cases hij : i = j
    · subst hij
      simp only [settled, hc, Option.any_some, beq_iff_eq] at hp
      simp only [settled, getElem?_set_self_of hc, Option.any_some, beq_iff_eq, hstage hp]
    · simpa only [settled, List.getElem?_set_ne hij] using hp

theorem settled_append {p : Promise} (hp : settled calls p = true) :
    settled (calls ++ [c]) p = true := by
  cases p with
  | resolved => rfl
  | gate j =>
    cases hj : calls[j]? with
    | none => simp [settled, hj] at hp
    | some d =>
      have hlt := (List.getElem?_eq_some_iff.mp hj).1
      simpa only [settled, List.getElem?_append_left hlt] using hp
  | derived j =>
    cases hj : calls[j]? with
    | none => simp [settled, hj] at hp
    | some d =>
      have hlt := (List.getElem?_eq_some_iff.mp hj).1
      simpa only [settled, List.getElem?_append_left hlt] using hp

/-- Who stands there after one more call was made. -/
theorem getElem?_append_cases {j : Nat} {d : Call κ} (h : (calls ++ [c])[j]? = some d) :
    (j = calls.length ∧ d = c) ∨ calls[j]? = some d := by
  rw [List.getElem?_append] at h
  split at h
  · exact .inr h
  · rename_i hlt
    obtain ⟨hj, rfl⟩ := List.getElem?_eq_some_iff.mp h
    simp only [length_singleton] at hj
    exact .inl ⟨by omega, by simp⟩

/-! ## 5. The call before -/

/-- The last call of a key among the first `n` ones. -/
def Last (keys : List κ) (key : κ) (n : Nat) : Option Nat → Prop
  | none => ∀ j < n, keys[j]? ≠ some key
  | some j => j < n ∧ keys[j]? = some key ∧ ∀ m, j < m → m < n → keys[m]? ≠ some key

variable {keys : List κ} {key k : κ} {n : Nat} {o : Option Nat}

theorem Last.append (h : Last keys key n o) (hn : n ≤ keys.length) (ks : List κ) :
    Last (keys ++ ks) key n o := by
  have e : ∀ j < n, (keys ++ ks)[j]? = keys[j]? := fun j hj =>
    List.getElem?_append_left (by omega)
  cases o with
  | none =>
    intro j hj
    rw [e j hj]
    exact h j hj
  | some j =>
    refine ⟨h.1, (e j h.1).trans h.2.1, fun m hjm hm => ?_⟩
    rw [e m hm]
    exact h.2.2 m hjm hm

theorem last_new : Last (keys ++ [key]) key (keys.length + 1) (some keys.length) :=
  ⟨by omega, by simp, fun m h1 h2 => by omega⟩

/-- A call of another key is not the last one. -/
theorem Last.other (h : Last keys key keys.length o) (hk : k ≠ key) :
    Last (keys ++ [k]) key (keys.length + 1) o := by
  have h' := h.append (Nat.le_refl _) [k]
  have hnew : (keys ++ [k])[keys.length]? ≠ some key := by simpa using hk
  cases o with
  | none =>
    intro j hj
    rcases Nat.lt_succ_iff_lt_or_eq.mp hj with hj | rfl
    · exact h' j hj
    · exact hnew
  | some j =>
    refine ⟨by have := h.1; omega, h'.2.1, fun m hjm hm => ?_⟩
    rcases Nat.lt_succ_iff_lt_or_eq.mp hm with hm | rfl
    · exact h'.2.2 m hjm hm
    · exact hnew

end

/-! ## 6. What every state keeps -/

section

variable {κ : Type} {D : Discipline} {calls : List (Call κ)} {i j : Nat} {c c' d : Call κ}

/-- What the calls keep among themselves. -/
structure Chained (D : Discipline) (calls : List (Call κ)) : Prop where
  /-- A call awaits what the last call of its key before it has left. -/
  prior : ∀ (i : Nat) (c : Call κ), calls[i]? = some c → ∃ o, Last (calls.map Call.key) c.key i o ∧
    c.prior = (o.map D.stored).getD .resolved
  begun : ∀ (i : Nat) (c : Call κ), calls[i]? = some c → c.phase ≠ .awaiting →
    settled calls c.prior = true
  ended : ∀ (i : Nat) (c : Call κ), calls[i]? = some c → c.stage = .settled →
    c.phase.isDone = true

/-- What a call has left is settled only after its end. -/
theorem Chained.done_of_settled (h : Chained D calls) (hc : calls[i]? = some c)
    (hs : settled calls (D.stored i) = true) : c.phase.isDone = true := by
  rw [Discipline.stored] at hs
  split at hs
  · simp only [settled, hc, Option.any_some, beq_iff_eq] at hs
    exact h.ended i c hc hs
  · simpa only [settled, hc, Option.any_some] using hs

/-- **Whose promise is settled comes after everybody of its key.** -/
theorem Chained.earlier_done (h : Chained D calls) : ∀ (j : Nat) {d : Call κ},
    calls[j]? = some d → settled calls d.prior = true → ∀ {i : Nat} {c : Call κ}, i < j →
    calls[i]? = some c → c.key = d.key → c.phase.isDone = true := by
  intro j
  induction j using Nat.strongRecOn with
  | ind j ih =>
    intro d hd hs i c hij hc hk
    have hkey : (calls.map Call.key)[i]? = some d.key := by rw [List.getElem?_map, hc, ← hk]; rfl
    obtain ⟨o, ho, hp⟩ := h.prior j d hd
    cases o with
    | none => exact absurd hkey (ho i hij)
    | some m =>
      obtain ⟨hmj, hmk, hlast⟩ := ho
      rw [List.getElem?_map, Option.map_eq_some_iff] at hmk
      obtain ⟨e, he, hek⟩ := hmk
      rw [hp] at hs
      have hdone : e.phase.isDone = true := h.done_of_settled he hs
      rcases Nat.lt_trichotomy i m with him | rfl | hmi
      · -- the call between has begun, so what it awaited is settled too
        have hbegun : e.phase ≠ .awaiting := fun ha => by rw [ha] at hdone; cases hdone
        exact ih m hmj he (h.begun m e he hbegun) him hc (hk.trans hek.symm)
      · rw [hc] at he
        cases he
        exact hdone
      · exact absurd hkey (hlast i hmi hij)

/-- One call goes on. -/
theorem Chained.set (h : Chained D calls) (hc : calls[i]? = some c) (hkey : c'.key = c.key)
    (hprior : c'.prior = c.prior) (hphase : c.phase.isDone = true → c'.phase.isDone = true)
    (hstage : c.stage = .settled → c'.stage = .settled)
    (hbegun : c'.phase ≠ .awaiting → settled calls c.prior = true)
    (hended : c'.stage = .settled → c'.phase.isDone = true) : Chained D (calls.set i c') where
  prior j d hd := by
    rw [keys_set hc hkey]
    rcases getElem?_set_cases hd with ⟨rfl, rfl⟩ | ⟨-, hd⟩
    · rw [hkey, hprior]
      exact h.prior j c hc
    · exact h.prior j d hd
  begun j d hd hp := by
    refine settled_set hc hphase hstage ?_
    rcases getElem?_set_cases hd with ⟨rfl, rfl⟩ | ⟨-, hd⟩
    · rw [hprior]
      exact hbegun hp
    · exact h.begun j d hd hp
  ended j d hd hs := by
    rcases getElem?_set_cases hd with ⟨rfl, rfl⟩ | ⟨-, hd⟩
    · exact hended hs
    · exact h.ended j d hd hs

end

section

variable {κ : Type} [DecidableEq κ] {D : Discipline} {w w' : World κ} {i : Nat} {c c' : Call κ}

structure Inv (D : Discipline) (w : World κ) : Prop where
  chained : Chained D w.calls
  /-- The entry of a key is what its last call has left. -/
  tail : ∀ k, ∃ o, Last w.keys k w.calls.length o ∧ w.tail k = o.map D.stored
  mem_started : ∀ i, i ∈ w.started ↔ ∃ c, w.calls[i]? = some c ∧ c.phase ≠ .awaiting
  sorted : ∀ k, (w.started.filter fun i => w.keys[i]? = some k).Pairwise (· < ·)

theorem Inv.asks (h : Inv D w) (key : κ) : Inv D { w with
    calls := w.calls ++ [{ key, prior := (w.tail key).getD .resolved }]
    tail := Function.update w.tail key (some (D.stored w.calls.length)) } where
  chained := by
    refine ⟨fun i c hc => ?_, fun i c hc hp => ?_, fun i c hc hs => ?_⟩
    · rw [map_append]
      rcases getElem?_append_cases hc with ⟨rfl, rfl⟩ | hc
      · obtain ⟨o, ho, ht⟩ := h.tail key
        exact ⟨o, ho.append (by simp [World.keys]) _, by rw [ht]⟩
      · obtain ⟨o, ho, hp⟩ := h.chained.prior i c hc
        have hlt := (List.getElem?_eq_some_iff.mp hc).1
        exact ⟨o, ho.append (by rw [length_map]; omega) _, hp⟩
    · rcases getElem?_append_cases hc with ⟨rfl, rfl⟩ | hc
      · exact absurd rfl hp
      · exact settled_append (h.chained.begun i c hc hp)
    · rcases getElem?_append_cases hc with ⟨rfl, rfl⟩ | hc
      · cases hs
      · exact h.chained.ended i c hc hs
  tail k := by
    have hkeys : World.keys { w with
        calls := w.calls ++ [{ key, prior := (w.tail key).getD .resolved }] } =
        w.keys ++ [key] := by
      simp [World.keys]
    have hlen : w.keys.length = w.calls.length := length_map _
    by_cases hk : k = key
    · subst hk
      refine ⟨some w.calls.length, ?_, by simp⟩
      have : Last (w.keys ++ [k]) k (w.keys.length + 1) (some w.keys.length) := last_new
      rw [hlen] at this
      simpa [World.keys] using this
    · obtain ⟨o, ho, ht⟩ := h.tail k
      rw [← hlen] at ho
      have := ho.other (k := key) (Ne.symm hk)
      rw [hlen] at this
      exact ⟨o, by simpa [World.keys] using this, (Function.update_of_ne hk _ _).trans ht⟩
  mem_started i := by
    rw [h.mem_started i]
    constructor
    · intro hi
      obtain ⟨c, hc, hp⟩ := hi
      have hlt := (List.getElem?_eq_some_iff.mp hc).1
      exact ⟨c, by rw [List.getElem?_append_left hlt, hc], hp⟩
    · intro hi
      obtain ⟨c, hc, hp⟩ := hi
      rcases getElem?_append_cases hc with ⟨-, rfl⟩ | hc
      · exact absurd rfl hp
      · exact ⟨c, hc, hp⟩
  sorted k := by
    refine Eq.mp (congrArg _ (filter_congr fun i hi => ?_)) (h.sorted k)
    obtain ⟨c, hc, -⟩ := (h.mem_started i).mp hi
    have hlt := (List.getElem?_eq_some_iff.mp hc).1
    have e : ((w.calls ++ [({ key, prior := (w.tail key).getD .resolved } : Call κ)]).map
        Call.key)[i]? = w.keys[i]? := by
      rw [map_append, List.getElem?_append_left (by rw [length_map]; exact hlt)]
      rfl
    show decide (w.keys[i]? = some k) = decide (_ = some k)
    rw [← e]
    rfl

/-- One call goes on and begins no body. -/
theorem Inv.goesOn (h : Inv D w) (hc : w.calls[i]? = some c) (hkey : c'.key = c.key)
    (hcalls : Chained D (w.calls.set i c')) (hphase : c'.phase = .awaiting ↔ c.phase = .awaiting) :
    Inv D { w with calls := w.calls.set i c' } where
  chained := hcalls
  tail k := by
    obtain ⟨o, ho, ht⟩ := h.tail k
    refine ⟨o, ?_, ht⟩
    rw [World.keys, keys_set hc hkey, length_set]
    exact ho
  mem_started j := by
    rw [h.mem_started j]
    constructor
    · intro hj
      obtain ⟨d, hd, hp⟩ := hj
      by_cases hij : i = j
      · subst hij
        rw [hc] at hd
        cases hd
        exact ⟨c', getElem?_set_self_of hc, fun ha => hp (hphase.mp ha)⟩
      · exact ⟨d, by rw [List.getElem?_set_ne hij, hd], hp⟩
    · intro hj
      obtain ⟨d, hd, hp⟩ := hj
      rcases getElem?_set_cases hd with ⟨rfl, rfl⟩ | ⟨-, hd⟩
      · exact ⟨c, hc, fun ha => hp (hphase.mpr ha)⟩
      · exact ⟨d, hd, hp⟩
  sorted k := by
    rw [World.keys, keys_set hc hkey]
    exact h.sorted k

/-- A body is begun: the call is behind all of its key that were begun before. -/
theorem Inv.resumes (h : Inv D w) (hc : w.calls[i]? = some c) (hp : c.phase = .awaiting)
    (hs : settled w.calls c.prior = true) : Inv D { w with
      calls := w.calls.set i { c with phase := .running }
      started := w.started ++ [i] } where
  chained := h.chained.set hc rfl rfl (by rw [hp]; exact nofun) id (fun _ => hs) (fun hst => by
    have := h.chained.ended i c hc hst
    rw [hp] at this
    cases this)
  tail k := by
    obtain ⟨o, ho, ht⟩ := h.tail k
    refine ⟨o, ?_, ht⟩
    have hkeys : (w.calls.set i { c with phase := .running }).map Call.key = w.calls.map Call.key :=
      keys_set hc rfl
    rw [World.keys, hkeys, length_set]
    exact ho
  mem_started j := by
    rw [mem_append, mem_singleton, h.mem_started j]
    constructor
    · intro hj
      by_cases hij : i = j
      · subst hij
        exact ⟨_, getElem?_set_self_of hc, nofun⟩
      · obtain ⟨d, hd, hpd⟩ := hj.resolve_right (Ne.symm hij)
        exact ⟨d, by rw [List.getElem?_set_ne hij, hd], hpd⟩
    · intro hj
      obtain ⟨d, hd, hpd⟩ := hj
      rcases getElem?_set_cases hd with ⟨hij, -⟩ | ⟨-, hd⟩
      · exact .inr hij
      · exact .inl ⟨d, hd, hpd⟩
  sorted k := by
    have hkeys : (w.calls.set i { c with phase := .running }).map Call.key = w.calls.map Call.key :=
      keys_set hc rfl
    rw [World.keys, hkeys, filter_append, pairwise_append]
    refine ⟨h.sorted k, (pairwise_singleton _ i).filter _, fun j hj m hm => ?_⟩
    rw [mem_filter, decide_eq_true_eq] at hj hm
    obtain rfl := mem_singleton.mp hm.1
    obtain ⟨d, hd, hpd⟩ := (h.mem_started j).mp hj.1
    have hkey {n : Nat} {e : Call κ} (he : w.calls[n]? = some e)
        (hk : (w.calls.map Call.key)[n]? = some k) : e.key = k := by
      rw [List.getElem?_map, he] at hk
      exact Option.some.inj hk
    -- whoever began before and is not earlier would have needed this call's end
    rcases Nat.lt_trichotomy j m with hlt | rfl | hlt
    · exact hlt
    · rw [hc] at hd
      cases hd
      exact absurd hp hpd
    · have hdone := h.chained.earlier_done j hd (h.chained.begun j d hd hpd) hlt hc
        ((hkey hc hm.2).trans (hkey hd hj.2).symm)
      rw [hp] at hdone
      cases hdone

/-- A body ends. What is left for the next call stays, as it is no gate. -/
theorem Inv.ends (hD : D.deletes = true → D.derives = true) (h : Inv D w)
    (hc : w.calls[i]? = some c) (hp : c.phase = .running) (ok : Bool) : Inv D { w with
      calls := w.calls.set i { c with phase := .done ok }
      tail := if D.deletes = true ∧ w.tail c.key = some (.gate i)
        then Function.update w.tail c.key none else w.tail } := by
  have hne : ¬ (D.deletes = true ∧ w.tail c.key = some (.gate i)) := by
    intro hg
    obtain ⟨o, -, ht⟩ := h.tail c.key
    rw [hg.2] at ht
    obtain ⟨m, -, hm⟩ := Option.map_eq_some_iff.mp ht.symm
    rw [Discipline.stored, if_pos (hD hg.1)] at hm
    cases hm
  rw [if_neg hne]
  refine h.goesOn hc rfl ?_ (by rw [hp]; exact ⟨nofun, nofun⟩)
  exact h.chained.set hc rfl rfl (by rw [hp]; exact nofun) id
    (fun _ => h.chained.begun i c hc (by rw [hp]; exact nofun)) (fun _ => rfl)

theorem inv_start : Inv D ({} : World κ) where
  chained := ⟨fun _ _ h => (by simp at h), fun _ _ h => (by simp at h), fun _ _ h => (by simp at h)⟩
  tail k := ⟨none, fun j hj => absurd hj (Nat.not_lt_zero j), rfl⟩
  mem_started i := by simp
  sorted k := by simp

/-- **Every step keeps it.** -/
theorem inv_step (hD : D.deletes = true → D.derives = true) (h : Inv D w) {e : Event κ}
    (hs : step D w e = some w') : Inv D w' := by
  cases e with
  | asks key =>
    cases hs
    exact h.asks key
  | derives i =>
    obtain ⟨c, hc, -, hst, -, rfl⟩ := step_derives hs
    refine h.goesOn hc rfl ?_ Iff.rfl
    exact h.chained.set hc rfl rfl id (by rw [hst]; exact nofun) (h.chained.begun i c hc) nofun
  | follows i =>
    obtain ⟨c, hc, -, hdone, rfl⟩ := step_follows hs
    refine h.goesOn hc rfl ?_ Iff.rfl
    exact h.chained.set hc rfl rfl id (fun _ => rfl) (h.chained.begun i c hc) (fun _ => hdone)
  | resumes i =>
    obtain ⟨c, hc, hp, hsettled, rfl⟩ := step_resumes hs
    exact h.resumes hc hp hsettled
  | ends i ok =>
    obtain ⟨c, hc, hp, rfl⟩ := step_ends hs
    exact h.ends hD hc hp ok

theorem inv_of_reachable (hD : D.deletes = true → D.derives = true) (h : Reachable D w) :
    Inv D w :=
  Runs.inv h inv_start fun _ _ _ hi hs _ => inv_step hD hi hs

/-! ## 7. One at a time, in order, and nobody is left behind -/

/-- Whose body was begun comes after the end of every earlier call of its key. -/
theorem Inv.earlier_done (h : Inv D w) {i j : Nat} {c d : Call κ} (hij : i < j)
    (hc : w.calls[i]? = some c) (hd : w.calls[j]? = some d) (hk : c.key = d.key)
    (hp : d.phase ≠ .awaiting) : c.phase.isDone = true :=
  h.chained.earlier_done j hd (h.chained.begun j d hd hp) hij hc hk

/-- **At most one body of a key runs.** -/
theorem Inv.exclusive (h : Inv D w) {i j : Nat} {c d : Call κ} (hc : w.calls[i]? = some c)
    (hd : w.calls[j]? = some d) (hk : c.key = d.key) (hpc : c.phase = .running)
    (hpd : d.phase = .running) : i = j := by
  rcases Nat.lt_trichotomy i j with hij | hij | hij
  · have := h.earlier_done hij hc hd hk (by rw [hpd]; exact nofun)
    rw [hpc] at this
    cases this
  · exact hij
  · have := h.earlier_done hij hd hc hk.symm (by rw [hpc]; exact nofun)
    rw [hpd] at this
    cases this

/-- What an ended call has left is settled once the run time has nothing left to do. -/
theorem Inv.stored_settled (h : Inv D w) (hq : Quiet D w) (hc : w.calls[i]? = some c)
    (hdone : c.phase.isDone = true) : settled w.calls (D.stored i) = true := by
  have hgate : settled w.calls (.gate i) = true := by simpa only [settled, hc, Option.any_some]
  rw [Discipline.stored]
  split
  · rename_i hD
    cases hst : c.stage with
    | waiting =>
      have hbegun : c.phase ≠ .awaiting := fun ha => by rw [ha] at hdone; cases hdone
      have := hq (.derives i) rfl
      simp [step, hc, hD, hst, h.chained.begun i c hc hbegun] at this
    | following =>
      have := hq (.follows i) rfl
      simp [step, hc, hst, hgate] at this
    | settled => simp only [settled, hc, Option.any_some, hst, beq_self_eq_true]
  · exact hgate

/-- **Nothing is blocked**: once the run time has nothing left to do, the first call of a key that
    has not ended is the one whose body runs. -/
theorem Inv.next_runs (h : Inv D w) (hq : Quiet D w) (hc : w.calls[i]? = some c)
    (hopen : c.phase.isDone = false) (hfirst : ∀ j < i, ∀ d, w.calls[j]? = some d →
      d.key = c.key → d.phase.isDone = true) : c.phase = .running := by
  cases hp : c.phase with
  | running => rfl
  | done ok =>
    rw [hp] at hopen
    cases hopen
  | awaiting =>
    have hs : settled w.calls c.prior = true := by
      obtain ⟨o, ho, hprior⟩ := h.chained.prior i c hc
      rw [hprior]
      cases o with
      | none => rfl
      | some j =>
        obtain ⟨hji, hkey, -⟩ := ho
        rw [List.getElem?_map, Option.map_eq_some_iff] at hkey
        obtain ⟨d, hd, hk⟩ := hkey
        exact h.stored_settled hq hd (hfirst j hji d hd hk)
    have := hq (.resumes i) rfl
    simp [step, hc, hp, hs] at this

theorem sum_map_set_lt {α : Type} (f : α → Nat) : ∀ (l : List α) (i : Nat) (a b : α),
    l[i]? = some a → f b < f a → ((l.set i b).map f).sum < (l.map f).sum
  | [], _, _, _, h, _ => by cases h
  | x :: l, 0, a, b, h, hlt => by
    cases h
    simpa using hlt
  | x :: l, i + 1, a, b, h, hlt => by
    have ih := sum_map_set_lt f l i a b (by simpa using h) hlt
    simpa using ih

/-- **The run time comes to an end**: each of its steps leaves less to do. -/
theorem work_lt {e : Event κ} (he : e.internal = true) (hs : step D w e = some w') :
    work w' < work w := by
  cases e with
  | asks key => cases he
  | ends i ok => cases he
  | derives i =>
    obtain ⟨c, hc, -, hst, -, rfl⟩ := step_derives hs
    exact sum_map_set_lt _ _ _ c _ hc (by simp [Call.work, hst])
  | follows i =>
    obtain ⟨c, hc, hst, -, rfl⟩ := step_follows hs
    exact sum_map_set_lt _ _ _ c _ hc (by simp [Call.work, hst])
  | resumes i =>
    obtain ⟨c, hc, hp, -, rfl⟩ := step_resumes hs
    exact sum_map_set_lt _ _ _ c _ hc (by simp [Call.work, hp])

/-- **No entry is ever removed**: there is one exactly for the keys that were asked for. -/
theorem Inv.tail_eq_none_iff (h : Inv D w) (k : κ) : w.tail k = none ↔ k ∉ w.keys := by
  obtain ⟨o, ho, ht⟩ := h.tail k
  have hlen : w.keys.length = w.calls.length := length_map _
  rw [ht, Option.map_eq_none_iff]
  constructor
  · rintro rfl hm
    obtain ⟨j, hj⟩ := mem_iff_getElem?.mp hm
    exact ho j (hlen ▸ (List.getElem?_eq_some_iff.mp hj).1) hj
  · intro hk
    cases o with
    | none => rfl
    | some j => exact absurd (mem_of_getElem? ho.2.1) hk

end

end Veesker.Run.Chain
