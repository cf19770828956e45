/-
  File:      Veesker/Sidecar/Locks.lean
  Subject:   THE TWO LOCKS MADE OF PROMISES: `withSessionLock` (sidecar/src/state.ts) and
             `withSandboxLock` (sidecar/src/sandbox-cloud/query.ts).

  * **`locks_serial`**: in every run one body runs at a time (for a sandbox), in the order of the
    calls, and a body that throws holds up nobody.
  * **`queueByBox_tidy`**: the entry that is removed is compared with a promise that is never
    stored, so the map of `withSandboxLock` is in order exactly as long as every sandbox that was
    ever asked for has a call pending; `queueByBox_leak` -- one call, and its entry stays.
-/
import Veesker.Run.Chain
import Veesker.Text.Js

namespace Veesker.Sidecar.Locks

open Run Run.Chain

/-! ## 1. The locks -/

/-- `_sessionMutex` is the promise that `release` settles; nothing is removed. -/
def withSessionLock : Discipline := { derives := false, deletes := false }

/-- `queueByBox.set(sandboxId, prev.then(() => next))`, and at the end
    `if (queueByBox.get(sandboxId) === next) queueByBox.delete(sandboxId)`. -/
def withSandboxLock : Discipline := { derives := true, deletes := true }

/-! ## 2. One body at a time -/

section

variable {κ : Type} [DecidableEq κ]

/-- What a lock promises of a state. -/
structure Serial (D : Discipline) (w : World κ) : Prop where
  exclusive : ∀ (i j : Nat) (c d : Call κ), w.calls[i]? = some c → w.calls[j]? = some d →
    c.key = d.key → c.phase = .running → d.phase = .running → i = j
  in_order : ∀ k, (w.started.filter fun i => w.keys[i]? = some k).Pairwise (· < ·)
  begun : ∀ i, i ∈ w.started ↔ ∃ c : Call κ, w.calls[i]? = some c ∧ c.phase ≠ .awaiting
  /-- A body is called after the end of every earlier one, whatever that one's outcome. -/
  behind : ∀ (i j : Nat) (c d : Call κ), i < j → w.calls[i]? = some c → w.calls[j]? = some d →
    c.key = d.key → d.phase ≠ .awaiting → ∃ ok, c.phase = .done ok
  /-- With nothing left for the run time, the first call that has not ended runs. -/
  next_runs : Quiet D w → ∀ (i : Nat) (c : Call κ), w.calls[i]? = some c →
    (∀ ok, c.phase ≠ .done ok) →
    (∀ j < i, ∀ d : Call κ, w.calls[j]? = some d → d.key = c.key → ∃ ok, d.phase = .done ok) →
    c.phase = .running
  /-- And the run time always gets there. -/
  quiets : ∀ (e : Event κ) (w' : World κ), e.internal = true → step D w e = some w' →
    work w' < work w

theorem isDone_iff {p : Phase} : p.isDone = true ↔ ∃ ok, p = .done ok := by
  cases p with
  | awaiting => exact ⟨nofun, nofun⟩
  | running => exact ⟨nofun, nofun⟩
  | done ok => exact ⟨fun _ => ⟨ok, rfl⟩, fun _ => rfl⟩

theorem serial_of_inv {D : Discipline} {w : World κ} (h : Inv D w) : Serial D w where
  exclusive _ _ _ _ hc hd hk hpc hpd := h.exclusive hc hd hk hpc hpd
  in_order := h.sorted
  begun := h.mem_started
  behind _ _ _ _ hij hc hd hk hp := isDone_iff.mp (h.earlier_done hij hc hd hk hp)
  next_runs hq i c hc hopen hfirst := by
    refine h.next_runs hq hc ?_ fun j hj d hd hk => isDone_iff.mpr (hfirst j hj d hd hk)
    rw [Bool.eq_false_iff]
    intro hdone
    obtain ⟨ok, hok⟩ := isDone_iff.mp hdone
    exact hopen ok hok
  quiets _ _ he hs := work_lt he hs

end

/-- **Both locks let one body run at a time, in the order of the calls, and none is held up by one
    that failed.** -/
theorem locks_serial :
    (∀ w : World Unit, Reachable withSessionLock w → Serial withSessionLock w) ∧
      ∀ w : World Text, Reachable withSandboxLock w → Serial withSandboxLock w :=
  ⟨fun _ h => serial_of_inv (inv_of_reachable nofun h),
    fun _ h => serial_of_inv (inv_of_reachable (fun _ => rfl) h)⟩

/-! ## 3. The map of the queues -/

/-- A call for the sandbox has not ended. -/
def Pending (w : World Text) (sandboxId : Text) : Prop :=
  ∃ (i : Nat) (c : Call Text), w.calls[i]? = some c ∧ c.key = sandboxId ∧ c.phase.isDone = false

/-- The map holds an entry exactly for the sandboxes with a call pending. -/
def Tidy (w : World Text) : Prop := ∀ sandboxId, w.tail sandboxId ≠ none ↔ Pending w sandboxId

/-- No body ends that is the last one pending for its sandbox. -/
def KeepsPending (w : World Text) : Event Text → Prop
  | .ends i _ => ∃ (j : Nat) (c d : Call Text), j ≠ i ∧ w.calls[i]? = some c ∧
      w.calls[j]? = some d ∧ d.key = c.key ∧ d.phase.isDone = false
  | _ => True

theorem pending_asked {w : World Text} {sandboxId : Text} (h : Pending w sandboxId) :
    sandboxId ∈ w.keys := by
  obtain ⟨i, c, hc, rfl, -⟩ := h
  exact List.mem_map_of_mem (List.mem_of_getElem? hc)

/-- The map is in order exactly as long as every sandbox that was asked for has a call pending. -/
theorem tidy_iff {w : World Text} (h : Inv withSandboxLock w) :
    Tidy w ↔ ∀ sandboxId ∈ w.keys, Pending w sandboxId := by
  constructor
  · intro ht sandboxId hm
    refine (ht sandboxId).mp fun hn => ?_
    exact (h.tail_eq_none_iff sandboxId).mp hn hm
  · intro hp sandboxId
    constructor
    · intro hne
      by_contra hnot
      exact hne ((h.tail_eq_none_iff sandboxId).mpr fun hm => hnot (hp sandboxId hm))
    · exact fun hpen hn => (h.tail_eq_none_iff sandboxId).mp hn (pending_asked hpen)

variable {w w' : World Text}

theorem keys_goesOn {i : Nat} {c c' : Call Text} (hc : w.calls[i]? = some c)
    (hcalls : w'.calls = w.calls.set i c') (hk : c'.key = c.key) : w'.keys = w.keys := by
  rw [World.keys, hcalls, keys_set hc hk]
  rfl

/-- A call that is still open after it went on leaves everything pending that was. -/
theorem pending_goesOn {i : Nat} {c c' : Call Text}
    (hc : w.calls[i]? = some c) (hcalls : w'.calls = w.calls.set i c') (hk : c'.key = c.key)
    (hopen : c.phase.isDone = false → c'.phase.isDone = false)
    (h : ∀ sandboxId ∈ w.keys, Pending w sandboxId) :
    ∀ sandboxId ∈ w'.keys, Pending w' sandboxId := by
  intro sandboxId hm
  rw [keys_goesOn hc hcalls hk] at hm
  obtain ⟨j, d, hd, hkey, hd'⟩ := h sandboxId hm
  by_cases hij : i = j
  · subst hij
    rw [hc] at hd
    cases hd
    exact ⟨i, c', by rw [hcalls, getElem?_set_self_of hc], hk.trans hkey, hopen hd'⟩
  · exact ⟨j, d, by rw [hcalls, List.getElem?_set_ne hij, hd], hkey, hd'⟩

/-- A call that ends leaves everything pending, as another one of its sandbox is. -/
theorem pending_ends {i m : Nat} {c c' d : Call Text}
    (hc : w.calls[i]? = some c) (hcalls : w'.calls = w.calls.set i c') (hk : c'.key = c.key)
    (hmi : m ≠ i) (hd : w.calls[m]? = some d) (hkey : d.key = c.key)
    (hopen : d.phase.isDone = false) (h : ∀ sandboxId ∈ w.keys, Pending w sandboxId) :
    ∀ sandboxId ∈ w'.keys, Pending w' sandboxId := by
  intro sandboxId hm
  rw [keys_goesOn hc hcalls hk] at hm
  obtain ⟨j, e, he, hke, hopen'⟩ := h sandboxId hm
  by_cases hij : i = j
  · subst hij
    rw [hc] at he
    cases he
    exact ⟨m, d, by rw [hcalls, List.getElem?_set_ne (Ne.symm hmi), hd], hkey.trans hke, hopen⟩
  · exact ⟨j, e, by rw [hcalls, List.getElem?_set_ne hij, he], hke, hopen'⟩

theorem pending_step {e : Event Text} (ha : KeepsPending w e)
    (h : ∀ sandboxId ∈ w.keys, Pending w sandboxId) (hs : step withSandboxLock w e = some w') :
    ∀ sandboxId ∈ w'.keys, Pending w' sandboxId := by
  cases e with
  | asks key =>
    cases hs
    intro sandboxId hm
    rw [World.keys, List.map_append, List.mem_append] at hm
    rcases hm with hm | hm
    · obtain ⟨j, d, hd, hk, hopen⟩ := h sandboxId hm
      have hlt := (List.getElem?_eq_some_iff.mp hd).1
      exact ⟨j, d, by rw [List.getElem?_append_left hlt, hd], hk, hopen⟩
    · exact ⟨w.calls.length, _, List.getElem?_concat_length, (List.mem_singleton.mp hm).symm, rfl⟩
  | derives i =>
    obtain ⟨c, hc, -, -, -, rfl⟩ := step_derives hs
    exact pending_goesOn hc rfl rfl id h
  | follows i =>
    obtain ⟨c, hc, -, -, rfl⟩ := step_follows hs
    exact pending_goesOn hc rfl rfl id h
  | resumes i =>
    obtain ⟨c, hc, -, -, rfl⟩ := step_resumes hs
    exact pending_goesOn hc rfl rfl (fun _ => rfl) h
  | ends i ok =>
    obtain ⟨c, hc, -, rfl⟩ := step_ends hs
    obtain ⟨m, c', d, hmi, hc', hd, hkey, hopen⟩ := ha
    rw [hc] at hc'
    cases hc'
    exact pending_ends hc rfl rfl hmi hd hkey hopen h

/-- **The map is in order exactly as long as every sandbox that was asked for has a call pending**;
    so it is in every run in which no body ends as the last one pending for its sandbox. -/
theorem queueByBox_tidy (w : World Text) :
    (Reachable withSandboxLock w → (Tidy w ↔ ∀ sandboxId ∈ w.keys, Pending w sandboxId)) ∧
    (Runs (fun w e w' => step withSandboxLock w e = some w') KeepsPending {} w → Tidy w) := by
  constructor
  · exact fun h => tidy_iff (inv_of_reachable (fun _ => rfl) h)
  · intro h
    have hboth : Inv withSandboxLock w ∧ ∀ sandboxId ∈ w.keys, Pending w sandboxId := by
      refine Runs.inv
        (I := fun w => Inv withSandboxLock w ∧ ∀ sandboxId ∈ w.keys, Pending w sandboxId) h
        ⟨inv_start, fun _ hm => absurd hm List.not_mem_nil⟩ fun w e w' hi hs ha => ?_
      exact ⟨inv_step (fun _ => rfl) hi.1 hs, pending_step ha hi.2 hs⟩
    exact (tidy_iff hboth.1).mpr hboth.2

/-- Two calls of one sandbox: the first body throws, and the second one runs. -/
def failedFirst : List (Event Text) :=
  [.asks ['a'], .asks ['a'], .resumes 0, .derives 0, .ends 0 false, .follows 0, .resumes 1]

theorem locks_serial_failed : ∃ w : World Text, Reachable withSandboxLock w ∧
    Serial withSandboxLock w ∧ w.started = [0, 1] := by
  have h : Reachable withSandboxLock ((failedFirst.foldlM (step withSandboxLock) {}).getD {}) :=
    Runs.exec failedFirst .start rfl
  exact ⟨_, h, locks_serial.2 _ h, rfl⟩

/-- **One call, and its entry stays.** -/
theorem queueByBox_leak : ∃ w : World Text, Reachable withSandboxLock w ∧
    (∀ sandboxId, ¬ Pending w sandboxId) ∧ w.tail ['a'] ≠ none := by
  have h : Reachable withSandboxLock
      ((step withSandboxLock {} (.asks ['a']) >>= fun w => step withSandboxLock w (.resumes 0) >>=
        fun w => step withSandboxLock w (.ends 0 true)).getD {}) :=
    Runs.exec [.asks ['a'], .resumes 0, .ends 0 true] .start rfl
  refine ⟨_, h, ?_, nofun⟩
  intro sandboxId hp
  obtain ⟨i, c, hc, -, hopen⟩ := hp
  cases i with
  | zero =>
    obtain rfl := Option.some.inj hc
    cases hopen
  | succ i => cases hc

end Veesker.Sidecar.Locks
