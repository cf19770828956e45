/-
  File:      Veesker/Host/SidecarCall.lean
  Subject:   THE HOST'S CALLS OF THE SIDECAR (src-tauri/src/sidecar.rs): any number of `call`s, the
             task that forwards their lines to the child's stdin, the task that demultiplexes the
             child's stdout into the pending map, and the child, in every order of their steps.

  A step of a task goes from one of its awaits to the next. The channel to the writer holds 32 lines;
  it is closed once the writer has ended. What `serde_json` makes of a line is a parameter.

  * `reached_replies` -- in every run a call is answered at most once, and with its own id.
  * **`orderly_quiet`**: where no call enters the map between the end of the reader and that of the
    writer, nobody waits once the child is gone and no task can step.
  * `waits_forever` -- without it: a call that begins after the child is gone.
-/
import Mathlib.Logic.Function.Basic
import Mathlib.Tactic.IntervalCases
import Veesker.Run.Flight
import Veesker.Text.Rust

namespace Veesker.Host

open Run List

variable {V : Type}

/-! ## 1. The state -/

structure RpcError where
  code : Int
  message : Text
  deriving DecidableEq

structure Response (V : Type) where
  id : Text
  result : Option V
  error : Option RpcError
  deriving DecidableEq

/-- What a line of the child's stdout is read as: `Notification` is tried first. -/
inductive Incoming (V : Type) where
  | notification
  | response (resp : Response V)
  | badJson

inductive CommandEvent where
  | stdout (chunk : Text)
  | stderr (chunk : Text)
  | terminated
  deriving DecidableEq

/-- The receiving end of a call's oneshot channel. -/
inductive Slot (V : Type) where
  | empty
  | full (resp : Response V)
  /-- The sender was dropped. -/
  | gone

/-- Where a call is. -/
inductive Phase (V : Type) where
  | prepared
  /-- Its sender is in the map; it waits for room in the channel. -/
  | inserted
  /-- The channel was closed. -/
  | unsent
  | awaits
  | returned (result : Except RpcError (Option V))

structure Call (V : Type) where
  id : Text
  phase : Phase V := .prepared
  slot : Slot V := .empty

structure World (V : Type) where
  started : Nat := 0
  calls : Nat → Option (Call V) := fun _ => none
  /-- Whose sender is kept under the id. -/
  pending : Text → Option Nat := fun _ => none
  /-- The lines in the channel, by the ids of their requests. -/
  stdin : List Text := []
  writer : Bool := true
  /-- The child lives. -/
  alive : Bool := true
  events : List CommandEvent := []
  buffer : Text := []
  reader : Bool := true
  /-- Which response was sent to which call. -/
  sent : List (Nat × Response V) := []

/-! ## 2. The steps -/

inductive Event where
  | starts (id : Text)
  /-- The `k`-th call puts its sender into the map; likewise below. -/
  | inserts (k : Nat)
  | sends (k : Nat)
  /-- It takes its sender out again and fails. -/
  | unsends (k : Nat)
  | returns (k : Nat)
  | writes (ok : Bool)
  | emits (e : CommandEvent)
  | terminates
  | reads
  deriving DecidableEq

/-- The steps of the calls and of the two tasks, as against those of their surroundings. -/
def Event.isTask : Event → Bool
  | .starts _ => false
  | .emits _ => false
  | .terminates => false
  | _ => true

def stdinClosed : RpcError := ⟨-32001, "sidecar stdin closed: channel closed".toList⟩

def droppedChannel : RpcError :=
  ⟨-32002, "sidecar dropped response channel (process likely terminated)".toList⟩

/-- What `call` makes of a response. -/
def Response.outcome (resp : Response V) : Except RpcError (Option V) :=
  match resp.error with
  | some err => .error err
  | none => .ok resp.result

def World.setCall (w : World V) (k : Nat) (c : Call V) : World V :=
  { w with calls := Function.update w.calls k (some c) }

/-- A response comes to the call whose sender is in the map. -/
def World.deliver (w : World V) (resp : Response V) : World V :=
  match w.pending resp.id with
  | none => w
  | some k =>
    { w with
      pending := Function.update w.pending resp.id none
      calls := Function.update w.calls k ((w.calls k).map fun c => { c with slot := .full resp })
      sent := w.sent ++ [(k, resp)] }

/-- `pending.clear()`, and the end of the reader. -/
def World.clear (w : World V) : World V :=
  { w with
    pending := fun _ => none
    calls := fun k => (w.calls k).map fun c =>
      if w.pending c.id = some k then { c with slot := .gone } else c
    reader := false }

section

variable (read : Text → Incoming V)

def World.takeLine (w : World V) (line : Text) : World V :=
  if line.isEmpty then w
  else match read line with
    | .notification => w
    | .response resp => w.deliver resp
    | .badJson => w

/-- The reader goes on: a line of its buffer, where there is one, or else an event of the child. -/
def World.reads (w : World V) : Option (World V) :=
  if w.reader = false then none
  else if '\n' ∈ w.buffer then
    let line := Rust.trim (w.buffer.takeWhile (· != '\n'))
    some ({ w with buffer := (w.buffer.dropWhile (· != '\n')).tail }.takeLine read line)
  else match w.events with
    | [] => none
    | .stdout chunk :: rest => some { w with events := rest, buffer := w.buffer ++ chunk }
    | .stderr _ :: rest => some { w with events := rest }
    | .terminated :: rest => some { w with events := rest }.clear

def step (w : World V) : Event → Option (World V)
  | .starts id =>
    -- an id is a fresh UUID
    if ∀ k < w.started, (w.calls k).map Call.id ≠ some id then
      some { w.setCall w.started { id } with started := w.started + 1 }
    else none
  | .inserts k => match w.calls k with
    | some ⟨id, .prepared, slot⟩ =>
      some { w.setCall k ⟨id, .inserted, slot⟩ with
        pending := Function.update w.pending id (some k) }
    | _ => none
  | .sends k => match w.calls k with
    | some ⟨id, .inserted, slot⟩ =>
      if w.writer = false then some (w.setCall k ⟨id, .unsent, slot⟩)
      else if w.stdin.length < 32 then
        some { w.setCall k ⟨id, .awaits, slot⟩ with stdin := w.stdin ++ [id] }
      else none
    | _ => none
  | .unsends k => match w.calls k with
    | some ⟨id, .unsent, slot⟩ =>
      some { w.setCall k ⟨id, .returned (.error stdinClosed), slot⟩ with
        pending := Function.update w.pending id none }
    | _ => none
  | .returns k => match w.calls k with
    | some ⟨id, .awaits, .full resp⟩ =>
      some (w.setCall k ⟨id, .returned resp.outcome, .full resp⟩)
    | some ⟨id, .awaits, .gone⟩ =>
      some (w.setCall k ⟨id, .returned (.error droppedChannel), .gone⟩)
    | _ => none
  | .writes ok => match w.stdin with
    | _ :: rest =>
      if w.writer = false then none
      else if ok then some { w with stdin := rest }
      else some { w with writer := false, stdin := [] }
    | [] => none
  | .emits e =>
    if w.alive = true ∧ e ≠ .terminated then some { w with events := w.events ++ [e] } else none
  | .terminates =>
    if w.alive = true then some { w with alive := false, events := w.events ++ [.terminated] }
    else none
  | .reads => w.reads read

/-- The states of the runs, under a condition on the steps. -/
def Reached (allowed : World V → Event → Prop) : World V → Prop :=
  Runs (fun w e w' => step read w e = some w') allowed {}

/-- No task can take a step. -/
def Quiescent (w : World V) : Prop := ∀ e, e.isTask = true → step read w e = none

end

/-! ## 3. What is asked of a run -/

/-- The call has its result. -/
def Call.Returned (c : Call V) : Prop := ∃ result, c.phase = .returned result

/-- Responses go to their own calls, once; and a sender is dropped by the end of the child only. -/
structure World.Replies (w : World V) : Prop where
  own : ∀ k resp, (k, resp) ∈ w.sent → ∃ c, w.calls k = some c ∧ c.id = resp.id
  once : (w.sent.map Prod.fst).Nodup
  filled : ∀ k c resp, w.calls k = some c → c.slot = .full resp → (k, resp) ∈ w.sent
  dropped : ∀ k c, w.calls k = some c → c.slot = .gone → w.reader = false ∧ w.alive = false

/-- After the child's end, once nothing moves, nobody waits. -/
def World.Settled (read : Text → Incoming V) (w : World V) : Prop :=
  w.alive = false → Quiescent read w →
    (∀ id, w.pending id = none) ∧ ∀ k c, w.calls k = some c → c.Returned

/-- **The condition**: no call puts its sender into the map once the reader has ended, unless the
    writer has ended too. -/
def Orderly (w : World V) : Event → Prop
  | .inserts _ => w.reader = true ∨ w.writer = false
  | _ => True

instance (w : World V) : ∀ e, Decidable (Orderly w e)
  | .inserts _ => inferInstanceAs (Decidable (_ ∨ _))
  | .starts _ => isTrue trivial
  | .sends _ => isTrue trivial
  | .unsends _ => isTrue trivial
  | .returns _ => isTrue trivial
  | .writes _ => isTrue trivial
  | .emits _ => isTrue trivial
  | .terminates => isTrue trivial
  | .reads => isTrue trivial

/-! ## 4. The invariant of every run -/

/-- Its sender may be in the map. -/
def Call.waiting (c : Call V) : Bool :=
  match c.phase with
  | .inserted => true
  | .unsent => true
  | .awaits => true
  | _ => false

/-- What holds between the steps of every run. -/
structure World.Inv (w : World V) : Prop where
  bound : ∀ k c, w.calls k = some c → k < w.started
  distinct : ∀ k k' c c', w.calls k = some c → w.calls k' = some c' → c.id = c'.id → k = k'
  entry : ∀ id k, w.pending id = some k →
    ∃ c, w.calls k = some c ∧ c.id = id ∧ c.slot = .empty ∧ c.waiting = true
  waits : ∀ k c, w.calls k = some c → c.slot = .empty → c.waiting = true → w.pending c.id = some k
  fresh : ∀ k c, w.calls k = some c → c.phase = .prepared → c.slot = .empty
  own : ∀ k resp, (k, resp) ∈ w.sent →
    ∃ c, w.calls k = some c ∧ c.id = resp.id ∧ c.slot = .full resp
  once : (w.sent.map Prod.fst).Nodup
  filled : ∀ k c resp, w.calls k = some c → c.slot = .full resp → (k, resp) ∈ w.sent
  dropped : ∀ k c, w.calls k = some c → c.slot = .gone → w.reader = false
  ended : w.alive = false ↔ w.reader = false ∨ .terminated ∈ w.events

theorem World.Inv.replies {w : World V} (h : w.Inv) : w.Replies where
  own k resp hs := by
    obtain ⟨c, hc, hid, -⟩ := h.own k resp hs
    exact ⟨c, hc, hid⟩
  once := h.once
  filled := h.filled
  dropped k c hc hs := ⟨h.dropped k c hc hs, h.ended.mpr (.inl (h.dropped k c hc hs))⟩

theorem inv_start : World.Inv ({} : World V) where
  bound _ _ h := absurd h nofun
  distinct _ _ _ _ h := absurd h nofun
  entry _ _ h := absurd h nofun
  waits _ _ h := absurd h nofun
  fresh _ _ h := absurd h nofun
  own _ _ h := absurd h not_mem_nil
  once := nodup_nil
  filled _ _ _ h := absurd h nofun
  dropped _ _ h := absurd h nofun
  ended := ⟨nofun, fun h => h.elim nofun fun h => absurd h not_mem_nil⟩

variable {w : World V} {k : Nat} {c c' : Call V}

theorem setCall_self : (w.setCall k c').calls k = some c' := Function.update_self ..

theorem setCall_ne {j : Nat} (h : j ≠ k) : (w.setCall k c').calls j = w.calls j :=
  Function.update_of_ne h ..

theorem calls_setCall {j : Nat} {d : Call V} (h : (w.setCall k c').calls j = some d) :
    j = k ∧ d = c' ∨ j ≠ k ∧ w.calls j = some d := by
  by_cases hj : j = k
  · subst hj
    exact .inl ⟨rfl, (Option.some.inj (setCall_self.symm.trans h)).symm⟩
  · exact .inr ⟨hj, (setCall_ne hj).symm.trans h⟩

theorem bound_setCall (h : w.Inv) (hc : w.calls k = some c) {j : Nat} {d : Call V}
    (hd : (w.setCall k c').calls j = some d) : j < w.started := by
  rcases calls_setCall hd with ⟨rfl, -⟩ | ⟨-, hold⟩
  · exact h.bound _ _ hc
  · exact h.bound j d hold

theorem distinct_setCall (h : w.Inv) (hc : w.calls k = some c) {j j' : Nat} {d d' : Call V}
    (hd : (w.setCall k c').calls j = some d) (hd' : (w.setCall k c').calls j' = some d')
    (hid : c'.id = c.id) (he : d.id = d'.id) : j = j' := by
  rcases calls_setCall hd with ⟨rfl, rfl⟩ | ⟨-, hold⟩
  · rcases calls_setCall hd' with ⟨rfl, -⟩ | ⟨-, hold'⟩
    · rfl
    · exact h.distinct _ _ _ _ hc hold' (hid.symm.trans he)
  · rcases calls_setCall hd' with ⟨rfl, rfl⟩ | ⟨-, hold'⟩
    · exact h.distinct _ _ _ _ hold hc (he.trans hid)
    · exact h.distinct _ _ _ _ hold hold' he

/-- **One call changes**, and with it its entry of the map and what was sent. -/
theorem inv_moves (h : w.Inv) (hc : w.calls k = some c) (c' : Call V) (hid : c'.id = c.id)
    (p : Option Nat) {sent : List (Nat × Response V)}
    (hentry : ∀ j, p = some j → j = k ∧ c'.slot = .empty ∧ c'.waiting = true)
    (hwaits : c'.slot = .empty → c'.waiting = true → p = some k)
    (hfresh : c'.phase = .prepared → c'.slot = .empty)
    (hkept : ∀ resp, c.slot = .full resp → c'.slot = .full resp)
    (hold : ∀ x ∈ w.sent, x ∈ sent)
    (hnew : ∀ x ∈ sent, x ∈ w.sent ∨ x.1 = k ∧ c'.id = x.2.id ∧ c'.slot = .full x.2)
    (honce : (sent.map Prod.fst).Nodup) (hfilled : ∀ resp, c'.slot = .full resp → (k, resp) ∈ sent)
    (hdropped : c'.slot = .gone → w.reader = false) :
    World.Inv { w.setCall k c' with
      pending := Function.update w.pending c.id p, sent := sent } where
  bound _ _ hd := bound_setCall h hc hd
  distinct _ _ _ _ hd hd' he := distinct_setCall h hc hd hd' hid he
  entry i j hj := by
    have hij : Function.update w.pending c.id p i = some j := hj
    by_cases hi : i = c.id
    · rw [hi, Function.update_self] at hij
      obtain ⟨rfl, hs, hw⟩ := hentry j hij
      exact ⟨c', setCall_self, hid.trans hi.symm, hs, hw⟩
    · rw [Function.update_of_ne hi] at hij
      obtain ⟨d, hd, hdid, hrest⟩ := h.entry i j hij
      have hjk : j ≠ k := by
        rintro rfl
        obtain rfl : c = d := Option.some.inj (hc.symm.trans hd)
        exact hi hdid.symm
      exact ⟨d, (setCall_ne hjk).trans hd, hdid, hrest⟩
  waits j d hd hds hdw := by
    show Function.update w.pending c.id p d.id = some j
    rcases calls_setCall hd with ⟨rfl, rfl⟩ | ⟨hne, hd⟩
    · rw [hid, Function.update_self]
      exact hwaits hds hdw
    · -- of the other calls none has this id, so the map keeps what it says of them
      rw [Function.update_of_ne fun he => hne (h.distinct j k d c hd hc he)]
      exact h.waits j d hd hds hdw
  fresh j d hd hp := by
    rcases calls_setCall hd with ⟨rfl, rfl⟩ | ⟨-, hd⟩
    · exact hfresh hp
    · exact h.fresh j d hd hp
  own j resp hs := by
    rcases hnew _ hs with hs | ⟨rfl, hown, hfull⟩
    · obtain ⟨d, hd, hdid, hds⟩ := h.own j resp hs
      by_cases hjk : j = k
      · subst hjk
        obtain rfl : c = d := Option.some.inj (hc.symm.trans hd)
        exact ⟨c', setCall_self, hid.trans hdid, hkept resp hds⟩
      · exact ⟨d, (setCall_ne hjk).trans hd, hdid, hds⟩
    · exact ⟨c', setCall_self, hown, hfull⟩
  once := honce
  filled j d resp hd hds := by
    rcases calls_setCall hd with ⟨rfl, rfl⟩ | ⟨-, hd⟩
    · exact hfilled resp hds
    · exact hold _ (h.filled j d resp hd hds)
  dropped j d hd hds := by
    rcases calls_setCall hd with ⟨rfl, rfl⟩ | ⟨-, hd⟩
    · exact hdropped hds
    · exact h.dropped j d hd hds
  ended := h.ended

/-- A call goes on, and its end of the channel stays as it is. -/
theorem inv_setCall (h : w.Inv) (hc : w.calls k = some c) (hid : c'.id = c.id)
    (hslot : c'.slot = c.slot) (hwait : c.slot = .empty → c'.waiting = c.waiting)
    (hfresh : c'.phase ≠ .prepared) : (w.setCall k c').Inv := by
  have hmoves := inv_moves h hc c' hid (w.pending c.id) (fun j hj => ?_)
    (fun hs hw => h.waits k c hc (hslot ▸ hs) (hwait (hslot ▸ hs) ▸ hw)) (absurd · hfresh)
    (fun _ hs => hslot.trans hs) (fun _ hx => hx) (fun _ => .inl) h.once
    (fun resp hs => h.filled k c resp hc (hslot ▸ hs)) fun hs => h.dropped k c hc (hslot ▸ hs)
  · rw [Function.update_eq_self] at hmoves
    exact hmoves
  · obtain ⟨d, hd, hdid, hds, hdw⟩ := h.entry _ j hj
    obtain rfl : j = k := h.distinct j k d c hd hc hdid
    obtain rfl : c = d := Option.some.inj (hc.symm.trans hd)
    exact ⟨rfl, hslot.trans hds, (hwait hds).trans hdw⟩

variable {w' : World V}

/-- What is asked of the calls stays where neither they nor the map change. -/
theorem World.Inv.frame (h : w.Inv) (hstarted : w'.started = w.started)
    (hcalls : w'.calls = w.calls) (hpending : w'.pending = w.pending) (hsent : w'.sent = w.sent)
    (hreader : w'.reader = w.reader)
    (hended : w'.alive = false ↔ w'.reader = false ∨ .terminated ∈ w'.events) : w'.Inv where
  bound := hstarted ▸ hcalls ▸ h.bound
  distinct := hcalls ▸ h.distinct
  entry := hcalls ▸ hpending ▸ h.entry
  waits := hcalls ▸ hpending ▸ h.waits
  fresh := hcalls ▸ h.fresh
  own := hcalls ▸ hsent ▸ h.own
  once := hsent ▸ h.once
  filled := hcalls ▸ hsent ▸ h.filled
  dropped := hcalls ▸ hreader ▸ h.dropped
  ended := hended

theorem inv_starts (h : w.Inv) {id : Text}
    (hid : ∀ k < w.started, (w.calls k).map Call.id ≠ some id) :
    World.Inv { w.setCall w.started { id } with started := w.started + 1 } := by
  have hnone : w.calls w.started = none := by
    by_contra hne
    obtain ⟨c, hc⟩ := Option.ne_none_iff_exists'.mp hne
    exact (h.bound _ c hc).ne rfl
  have hother : ∀ j d, w.calls j = some d → j ≠ w.started ∧ d.id ≠ id := by
    intro j d hd
    have hj : j < w.started := h.bound j d hd
    refine ⟨hj.ne, fun he => hid j hj ?_⟩
    rw [hd, Option.map_some, he]
  refine ⟨fun j d hd => ?_, fun j j' d d' hd hd' he => ?_, fun i j hj => ?_, fun j d hd hds hdw => ?_,
    fun j d hd hp => ?_, fun j resp hs => ?_, h.once, fun j d resp hd hds => ?_,
    fun j d hd hds => ?_, h.ended⟩
  · rcases calls_setCall hd with ⟨rfl, -⟩ | ⟨-, hold⟩
    · exact Nat.lt_succ_self _
    · exact (h.bound j d hold).trans (Nat.lt_succ_self _)
  · rcases calls_setCall hd with ⟨rfl, rfl⟩ | ⟨-, hold⟩
    · rcases calls_setCall hd' with ⟨rfl, -⟩ | ⟨-, hold'⟩
      · rfl
      · exact absurd he.symm (hother _ _ hold').2
    · rcases calls_setCall hd' with ⟨rfl, rfl⟩ | ⟨-, hold'⟩
      · exact absurd he (hother _ _ hold).2
      · exact h.distinct _ _ _ _ hold hold' he
  · obtain ⟨d, hd, hrest⟩ := h.entry i j hj
    exact ⟨d, (setCall_ne (hother j d hd).1).trans hd, hrest⟩
  · rcases calls_setCall hd with ⟨rfl, rfl⟩ | ⟨-, hold⟩
    · cases hdw
    · exact h.waits j d hold hds hdw
  · rcases calls_setCall hd with ⟨rfl, rfl⟩ | ⟨-, hold⟩
    · rfl
    · exact h.fresh j d hold hp
  · obtain ⟨d, hd, hrest⟩ := h.own j resp hs
    exact ⟨d, (setCall_ne (hother j d hd).1).trans hd, hrest⟩
  · rcases calls_setCall hd with ⟨rfl, rfl⟩ | ⟨-, hold⟩
    · cases hds
    · exact h.filled j d resp hold hds
  · rcases calls_setCall hd with ⟨rfl, rfl⟩ | ⟨-, hold⟩
    · cases hds
    · exact h.dropped j d hold hds

theorem inv_inserts (h : w.Inv) {id : Text} {slot : Slot V}
    (hc : w.calls k = some ⟨id, .prepared, slot⟩) :
    World.Inv { w.setCall k ⟨id, .inserted, slot⟩ with
      pending := Function.update w.pending id (some k) } := by
  obtain rfl : slot = .empty := h.fresh k _ hc rfl
  exact inv_moves h hc ⟨id, .inserted, .empty⟩ rfl (some k)
    (fun j hj => ⟨(Option.some.inj hj).symm, rfl, rfl⟩) (fun _ _ => rfl) nofun nofun
    (fun _ hx => hx) (fun _ => .inl) h.once nofun nofun

theorem inv_unsends (h : w.Inv) {id : Text} {slot : Slot V}
    (hc : w.calls k = some ⟨id, .unsent, slot⟩) (result : Except RpcError (Option V)) :
    World.Inv { w.setCall k ⟨id, .returned result, slot⟩ with
      pending := Function.update w.pending id none } :=
  inv_moves h hc ⟨id, .returned result, slot⟩ rfl none nofun nofun nofun (fun _ hs => hs)
    (fun _ hx => hx) (fun _ => .inl) h.once (fun resp hs => h.filled k _ resp hc hs) fun hs => h.dropped k _ hc hs

/-- **A response goes to the call that waits for it.** -/
theorem inv_deliver (h : w.Inv) (resp : Response V) : (w.deliver resp).Inv := by
  rw [World.deliver]
  split
  · exact h
  rename_i k hk
  obtain ⟨c, hc, hid, hslot, hwait⟩ := h.entry resp.id k hk
  have hcalls : Function.update w.calls k ((w.calls k).map fun c => { c with slot := .full resp }) =
      (w.setCall k { c with slot := .full resp }).calls := by
    rw [hc, Option.map_some]
    rfl
  -- the call was waiting, so nothing had been sent to it
  have hnew : k ∉ w.sent.map Prod.fst := by
    intro hmem
    obtain ⟨⟨j, r⟩, hr, rfl⟩ := mem_map.mp hmem
    obtain ⟨d, hd, -, hds⟩ := h.own j r hr
    obtain rfl : c = d := Option.some.inj (hc.symm.trans hd)
    rw [hslot] at hds
    cases hds
  have honce : ((w.sent ++ [(k, resp)]).map Prod.fst).Nodup := by
    rw [map_append]
    refine nodup_append.mpr ⟨h.once, nodup_singleton k, fun a ha b hb hab => hnew ?_⟩
    obtain rfl : b = k := mem_singleton.mp hb
    exact hab ▸ ha
  rw [hcalls, ← hid]
  refine inv_moves h hc { c with slot := .full resp } rfl none nofun nofun (fun hp => ?_) (fun r hs => ?_)
    (fun _ hx => mem_append_left _ hx) (fun x hx => ?_) honce (fun r hs => ?_) nofun
  · have hphase : c.phase = .prepared := hp
    rw [Call.waiting, hphase] at hwait
    cases hwait
  · rw [hslot] at hs
    cases hs
  · refine (mem_append.mp hx).imp id fun hx => ?_
    obtain rfl := mem_singleton.mp hx
    exact ⟨rfl, hid, rfl⟩
  · obtain rfl := Slot.full.inj hs
    exact mem_append_right _ (mem_singleton_self _)

theorem calls_clear {rest : List CommandEvent} {d : Call V}
    (h : ({ w with events := rest }.clear).calls k = some d) :
    ∃ c, w.calls k = some c ∧ d = if w.pending c.id = some k then { c with slot := .gone } else c := by
  obtain ⟨c, hc, hd⟩ := Option.map_eq_some_iff.mp h
  exact ⟨c, hc, hd.symm⟩

/-- After the reader's end nobody is left in the map, and whoever waited has been dropped. -/
theorem slot_clear (h : w.Inv) {rest : List CommandEvent} {d : Call V}
    (hd : ({ w with events := rest }.clear).calls k = some d) :
    ∃ c, w.calls k = some c ∧ d.id = c.id ∧ d.phase = c.phase ∧
      (d.slot = .gone ∨ d.slot = c.slot ∧ ¬ (c.slot = .empty ∧ c.waiting = true)) := by
  obtain ⟨c, hc, rfl⟩ := calls_clear hd
  refine ⟨c, hc, ?_⟩
  split
  · exact ⟨rfl, rfl, .inl rfl⟩
  · rename_i hp
    exact ⟨rfl, rfl, .inr ⟨rfl, fun hs => hp (h.waits k c hc hs.1 hs.2)⟩⟩

theorem inv_clear (h : w.Inv) (hdead : w.alive = false) (rest : List CommandEvent) :
    ({ w with events := rest }.clear).Inv := by
  refine ⟨fun j d hd => ?_, fun j j' d d' hd hd' he => ?_, nofun, fun j d hd hds hdw => ?_,
    fun j d hd hp => ?_, fun j resp hs => ?_, h.once, fun j d resp hd hds => ?_, fun _ _ _ _ => rfl,
    ⟨fun _ => .inl rfl, fun _ => hdead⟩⟩
  · obtain ⟨c, hc, -⟩ := slot_clear h hd
    exact h.bound j c hc
  · obtain ⟨c, hc, hid, -⟩ := slot_clear h hd
    obtain ⟨c', hc', hid', -⟩ := slot_clear h hd'
    exact h.distinct j j' c c' hc hc' (hid.symm.trans (he.trans hid'))
  · obtain ⟨c, hc, -, hphase, hslot⟩ := slot_clear h hd
    rcases hslot with hgone | ⟨hsame, hnot⟩
    · rw [hgone] at hds
      cases hds
    · refine absurd ⟨hsame.symm.trans hds, ?_⟩ hnot
      rw [Call.waiting, hphase] at hdw
      exact hdw
  · obtain ⟨c, hc, -, hphase, hslot⟩ := slot_clear h hd
    rcases hslot with hgone | ⟨hsame, -⟩
    · -- a call that has not put its sender in cannot lose it
      obtain ⟨c', hc', hdc⟩ := calls_clear hd
      obtain rfl : c = c' := Option.some.inj (hc.symm.trans hc')
      by_cases hpend : w.pending c.id = some j
      · obtain ⟨e, he, -, -, hew⟩ := h.entry c.id j hpend
        obtain rfl : c = e := Option.some.inj (hc.symm.trans he)
        rw [Call.waiting, hphase.symm.trans hp] at hew
        cases hew
      · rw [if_neg hpend] at hdc
        exact hdc ▸ h.fresh j c hc (hphase.symm.trans hp)
    · exact hsame.trans (h.fresh j c hc (hphase.symm.trans hp))
  · obtain ⟨c, hc, hid, hslot⟩ := h.own j resp hs
    have hpend : w.pending c.id ≠ some j := by
      intro hpend
      obtain ⟨e, he, -, hes, -⟩ := h.entry c.id j hpend
      obtain rfl : c = e := Option.some.inj (hc.symm.trans he)
      rw [hslot] at hes
      cases hes
    refine ⟨c, ?_, hid, hslot⟩
    show (w.calls j).map _ = some c
    rw [hc, Option.map_some]
    exact congrArg some (if_neg hpend)
  · obtain ⟨c, hc, -, -, hslot⟩ := slot_clear h hd
    rcases hslot with hgone | ⟨hsame, -⟩
    · rw [hgone] at hds
      cases hds
    · exact h.filled j c resp hc (hsame.symm.trans hds)

/-! ## 5. The steps keep it -/

variable {read : Text → Incoming V}

/-- **What the reader does.** -/
theorem reads_cases (h : w.reads read = some w') : w.reader = true ∧
    ((∃ rest, w' = { w with buffer := rest }) ∨
      (∃ rest resp, w' = { w with buffer := rest }.deliver resp) ∨
      (∃ rest buffer, (.terminated ∈ rest ↔ .terminated ∈ w.events) ∧
        w' = { w with events := rest, buffer := buffer }) ∨
      ∃ rest, w.events = .terminated :: rest ∧ w' = { w with events := rest }.clear) := by
  rw [World.reads] at h
  split at h
  · cases h
  rename_i hreader
  refine ⟨Bool.not_eq_false _ ▸ hreader, ?_⟩
  split at h
  · obtain rfl := Option.some.inj h
    simp only [World.takeLine]
    split
    · exact .inl ⟨_, rfl⟩
    split
    · exact .inl ⟨_, rfl⟩
    · exact .inr (.inl ⟨_, _, rfl⟩)
    · exact .inl ⟨_, rfl⟩
  split at h
  · cases h
  · rename_i chunk rest hev
    cases h
    refine .inr (.inr (.inl ⟨rest, _, ?_, rfl⟩))
    rw [hev, mem_cons]
    exact ⟨.inr, fun hm => hm.resolve_left nofun⟩
  · rename_i chunk rest hev
    cases h
    refine .inr (.inr (.inl ⟨rest, _, ?_, rfl⟩))
    rw [hev, mem_cons]
    exact ⟨.inr, fun hm => hm.resolve_left nofun⟩
  · rename_i rest hev
    cases h
    exact .inr (.inr (.inr ⟨rest, hev, rfl⟩))

theorem inv_reads (h : w.Inv) (hs : w.reads read = some w') : w'.Inv := by
  obtain ⟨hreader, hcases⟩ := reads_cases hs
  rcases hcases with ⟨rest, rfl⟩ | ⟨rest, resp, rfl⟩ | ⟨rest, buffer, hev, rfl⟩ | ⟨rest, hev, rfl⟩
  · exact h.frame rfl rfl rfl rfl rfl h.ended
  · have h' : World.Inv { w with buffer := rest } := h.frame rfl rfl rfl rfl rfl h.ended
    exact inv_deliver h' resp
  · refine h.frame rfl rfl rfl rfl rfl ?_
    rw [h.ended, hev]
  · refine inv_clear h (h.ended.mpr (.inr ?_)) rest
    rw [hev]
    exact mem_cons_self

theorem inv_step (h : w.Inv) {e : Event} (hs : step read w e = some w') :
    w'.Inv := by
  cases e with
  | starts id =>
    rw [step] at hs
    split at hs
    · rename_i hid
      cases hs
      exact inv_starts h hid
    · cases hs
  | inserts k =>
    rw [step] at hs
    split at hs
    · rename_i id slot hc
      cases hs
      exact inv_inserts h hc
    · cases hs
  | sends k =>
    rw [step] at hs
    split at hs
    · rename_i id slot hc
      split at hs
      · obtain rfl := Option.some.inj hs
        exact inv_setCall h hc rfl rfl (fun _ => rfl) nofun
      split at hs
      · obtain rfl := Option.some.inj hs
        have h' : (w.setCall k ⟨id, .awaits, slot⟩).Inv :=
          inv_setCall h hc rfl rfl (fun _ => rfl) nofun
        exact h'.frame rfl rfl rfl rfl rfl h'.ended
      · cases hs
    · cases hs
  | unsends k =>
    rw [step] at hs
    split at hs
    · rename_i id slot hc
      cases hs
      exact inv_unsends h hc _
    · cases hs
  | returns k =>
    rw [step] at hs
    split at hs
    · rename_i id resp hc
      cases hs
      exact inv_setCall h hc rfl rfl nofun nofun
    · rename_i id hc
      cases hs
      exact inv_setCall h hc rfl rfl nofun nofun
    · cases hs
  | writes ok =>
    rw [step] at hs
    split at hs
    · split at hs
      · cases hs
      split at hs
      · obtain rfl := Option.some.inj hs
        exact h.frame rfl rfl rfl rfl rfl h.ended
      · cases hs
        exact h.frame rfl rfl rfl rfl rfl h.ended
    · cases hs
  | emits e =>
    rw [step] at hs
    split at hs
    · rename_i he
      cases hs
      refine h.frame rfl rfl rfl rfl rfl ?_
      rw [h.ended, mem_append, mem_singleton]
      exact or_congr_right ⟨.inl, fun hm => hm.resolve_right fun heq => he.2 heq.symm⟩
    · cases hs
  | terminates =>
    rw [step] at hs
    split at hs
    · obtain rfl := Option.some.inj hs
      exact h.frame rfl rfl rfl rfl rfl
        ⟨fun _ => .inr (mem_append_right _ (mem_singleton_self _)), fun _ => rfl⟩
    · cases hs
  | reads => exact inv_reads h hs

/-- **In every run each call is answered at most once, and by the response with its own id.** -/
theorem reached_replies {allowed : World V → Event → Prop} (h : Reached read allowed w) :
    w.Replies :=
  World.Inv.replies (Runs.inv h inv_start fun _ _ _ hi hs _ => inv_step hi hs)

/-! ## 6. The end of the child -/

/-- What an orderly run keeps besides: whoever the reader has left behind will find the channel
    closed. -/
def World.Late (w : World V) : Prop :=
  w.reader = false → ∀ k c, w.calls k = some c → c.slot = .empty → c.waiting = true →
    w.writer = false ∧ c.phase ≠ .awaits

theorem late_setCall (h : w.Late) (hnew : w.reader = false → c'.slot = .empty → c'.waiting = true →
    w.writer = false ∧ c'.phase ≠ .awaits) : (w.setCall k c').Late := by
  intro hreader j d hd hds hdw
  rcases calls_setCall hd with ⟨rfl, rfl⟩ | ⟨-, hold⟩
  · exact hnew hreader hds hdw
  · exact h hreader j d hold hds hdw

theorem late_step (hinv : w.Inv) (h : w.Late) {e : Event}
    (hs : step read w e = some w') (ho : Orderly w e) : w'.Late := by
  cases e with
  | starts id =>
    rw [step] at hs
    split at hs
    · obtain rfl := Option.some.inj hs
      exact late_setCall h nofun
    · cases hs
  | inserts k =>
    rw [step] at hs
    split at hs
    · rename_i id slot hc
      cases hs
      refine late_setCall h fun hreader _ _ => ⟨ho.resolve_left ?_, nofun⟩
      rw [hreader]
      exact Bool.false_ne_true
    · cases hs
  | sends k =>
    rw [step] at hs
    split at hs
    · rename_i id slot hc
      split at hs
      · rename_i hwriter
        cases hs
        exact late_setCall h fun _ _ _ => ⟨hwriter, nofun⟩
      rename_i hwriter
      split at hs
      · obtain rfl := Option.some.inj hs
        -- the channel is open, so the reader has not left this call behind
        exact late_setCall h fun hreader hslot _ => absurd (h hreader k _ hc hslot rfl).1 hwriter
      · cases hs
    · cases hs
  | unsends k =>
    rw [step] at hs
    split at hs
    · obtain rfl := Option.some.inj hs
      exact late_setCall h nofun
    · cases hs
  | returns k =>
    rw [step] at hs
    split at hs
    · obtain rfl := Option.some.inj hs
      exact late_setCall h nofun
    · obtain rfl := Option.some.inj hs
      exact late_setCall h nofun
    · cases hs
  | writes ok =>
    rw [step] at hs
    split at hs
    · split at hs
      · cases hs
      split at hs
      · obtain rfl := Option.some.inj hs
        exact h
      · cases hs
        exact fun hreader k c hc hslot hwait => ⟨rfl, (h hreader k c hc hslot hwait).2⟩
    · cases hs
  | emits e =>
    rw [step] at hs
    split at hs
    · obtain rfl := Option.some.inj hs
      exact h
    · cases hs
  | terminates =>
    rw [step] at hs
    split at hs
    · obtain rfl := Option.some.inj hs
      exact h
    · cases hs
  | reads =>
    obtain ⟨hreader, hcases⟩ := reads_cases hs
    rcases hcases with ⟨rest, rfl⟩ | ⟨rest, resp, rfl⟩ | ⟨rest, buffer, -, rfl⟩ | ⟨rest, -, rfl⟩
    · exact h
    · intro hend
      have hsame : ({ w with buffer := rest }.deliver resp).reader = w.reader := by
        rw [World.deliver]
        split <;> rfl
      rw [hsame, hreader] at hend
      cases hend
    · exact h
    · intro _ k d hd hds hdw
      obtain ⟨c, hc, -, hphase, hslot⟩ := slot_clear hinv hd
      rcases hslot with hgone | ⟨hsame, hnot⟩
      · rw [hgone] at hds
        cases hds
      · refine absurd ⟨hsame.symm.trans hds, ?_⟩ hnot
        rw [Call.waiting, hphase] at hdw
        exact hdw

/-- **Once the child is gone and nothing moves, nobody waits.** -/
theorem settled (hinv : w.Inv) (h : w.Late) : w.Settled read := by
  intro hdead hquiet
  have hreader : w.reader = false := by
    by_contra hne
    have hnone := hquiet .reads rfl
    rw [step, World.reads, if_neg hne] at hnone
    split at hnone
    · cases hnone
    split at hnone
    · rename_i hev
      have hmem := (hinv.ended.mp hdead).resolve_left hne
      rw [hev] at hmem
      cases hmem
    all_goals cases hnone
  have hreturned : ∀ k c, w.calls k = some c → c.Returned := by
    rintro k ⟨id, phase, slot⟩ hc
    cases phase with
    | prepared =>
      have hnone := hquiet (.inserts k) rfl
      simp only [step, hc] at hnone
      cases hnone
    | inserted =>
      have hnone := hquiet (.sends k) rfl
      simp only [step, hc] at hnone
      split at hnone
      · cases hnone
      · rename_i hwriter
        -- the channel is full, so the writer has something to write
        split at hnone
        · cases hnone
        · rename_i hfull
          have hwrites := hquiet (.writes true) rfl
          rw [step] at hwrites
          split at hwrites
          · rw [if_neg hwriter] at hwrites
            cases hwrites
          · rename_i hempty
            rw [hempty] at hfull
            exact absurd (by decide) hfull
    | unsent =>
      have hnone := hquiet (.unsends k) rfl
      simp only [step, hc] at hnone
      cases hnone
    | awaits =>
      have hnone := hquiet (.returns k) rfl
      cases slot with
      | empty => exact absurd rfl (h hreader k _ hc rfl rfl).2
      | full resp =>
        simp only [step, hc] at hnone
        cases hnone
      | gone =>
        simp only [step, hc] at hnone
        cases hnone
    | returned result => exact ⟨result, rfl⟩
  refine ⟨fun id => ?_, hreturned⟩
  by_contra hne
  obtain ⟨k, hk⟩ := Option.ne_none_iff_exists'.mp hne
  obtain ⟨c, hc, -, -, hwait⟩ := hinv.entry id k hk
  obtain ⟨result, hphase⟩ := hreturned k c hc
  rw [Call.waiting, hphase] at hwait
  cases hwait

/-- **In an orderly run responses reach their own calls, at most once; and once the child is gone
    and no task can step, the map is empty and every call has returned.** -/
theorem orderly_quiet (read : Text → Incoming V) (w : World V) (h : Reached read Orderly w) :
    w.Replies ∧ w.Settled read := by
  have hboth : w.Inv ∧ w.Late :=
    Runs.inv (I := fun w => w.Inv ∧ w.Late) h ⟨inv_start, nofun⟩ fun _ _ _ hi hs ho =>
      ⟨inv_step hi.1 hs, late_step hi.1 hi.2 hs ho⟩
  exact ⟨hboth.1.replies, settled hboth.1 hboth.2⟩

/-! ## 7. Runs to try it with -/

def replyText : Text := "\x7b\"id\":\"a\",\"result\":null\x7d".toList

/-- What `serde_json` makes of that line. -/
def readReply (line : Text) : Incoming Unit :=
  if line = replyText then .response ⟨"a".toList, none, none⟩ else .badJson

/-- The call waits for a response that has not come. -/
def Call.stuck (c : Call V) : Bool :=
  match c.phase, c.slot with
  | .awaits, .empty => true
  | _, _ => false

def Call.returned (c : Call V) : Bool :=
  match c.phase with
  | .returned _ => true
  | _ => false

theorem quiescent_of (hreader : w.reader = false) (hstdin : w.stdin = [])
    (hcalls : ∀ k c, w.calls k = some c → c.stuck = true ∨ c.returned = true) :
    Quiescent read w := by
  intro e he
  have hcall : ∀ k id phase slot, w.calls k = some ⟨id, phase, slot⟩ →
      phase = .awaits ∧ slot = .empty ∨ ∃ result, phase = .returned result := by
    intro k id phase slot hc
    have h := hcalls k _ hc
    cases phase <;> cases slot <;> simp [Call.stuck, Call.returned] at h ⊢
  cases e with
  | starts id => cases he
  | inserts k =>
    rw [step]
    split
    · rename_i id slot hc
      rcases hcall k _ _ _ hc with ⟨h, -⟩ | ⟨result, h⟩ <;> cases h
    · rfl
  | sends k =>
    rw [step]
    split
    · rename_i id slot hc
      rcases hcall k _ _ _ hc with ⟨h, -⟩ | ⟨result, h⟩ <;> cases h
    · rfl
  | unsends k =>
    rw [step]
    split
    · rename_i id slot hc
      rcases hcall k _ _ _ hc with ⟨h, -⟩ | ⟨result, h⟩ <;> cases h
    · rfl
  | returns k =>
    rw [step]
    split
    · rename_i id resp hc
      rcases hcall k _ _ _ hc with ⟨-, h⟩ | ⟨result, h⟩ <;> cases h
    · rename_i id hc
      rcases hcall k _ _ _ hc with ⟨-, h⟩ | ⟨result, h⟩ <;> cases h
    · rfl
  | writes ok => rw [step, hstdin]
  | emits e => cases he
  | terminates => cases he
  | reads => rw [step, World.reads, if_pos hreader]

/-- One call is answered; a second is in flight when the child ends. -/
def answeredThenEnded : List Event :=
  [.starts "a".toList, .inserts 0, .sends 0, .writes true, .starts "b".toList, .inserts 1, .sends 1,
    .emits (.stdout (replyText ++ "\n".toList)), .reads, .reads, .returns 0, .terminates, .reads,
    .returns 1, .writes false]

theorem answeredThenEnded_run :
    ∃ w ∈ answeredThenEnded.foldlM (fun w e => if Orderly w e then step readReply w e else none)
        ({} : World Unit),
      w.started = 2 ∧ w.alive = false ∧ w.reader = false ∧ w.stdin = [] ∧
      (w.calls 0).map Call.returned = some true ∧ (w.calls 1).map Call.returned = some true ∧
      w.sent = [(0, ⟨"a".toList, none, none⟩)] := by
  decide

theorem orderly_quiet_once : ∃ w : World Unit, w.alive = false ∧ Quiescent readReply w ∧
    w.sent.length = 1 ∧ w.Replies ∧ ∀ id, w.pending id = none := by
  obtain ⟨w, hw, hstarted, hdead, hreader, hstdin, h0, h1, hsent⟩ := answeredThenEnded_run
  have hreached : Reached readReply Orderly w := Runs.exec answeredThenEnded .start hw
  have hinv : w.Inv := Runs.inv hreached inv_start fun _ _ _ hi hs _ => inv_step hi hs
  have hquiet : Quiescent readReply w := by
    refine quiescent_of hreader hstdin fun k c hc => .inr ?_
    have hk : k < 2 := hstarted ▸ hinv.bound k c hc
    interval_cases k
    · rw [hc] at h0
      exact Option.some.inj h0
    · rw [hc] at h1
      exact Option.some.inj h1
  obtain ⟨hreplies, hsettled⟩ := orderly_quiet readReply w hreached
  exact ⟨w, hdead, hquiet, by rw [hsent]; rfl, hreplies, (hsettled hdead hquiet).1⟩

theorem reached_replies_once : ∃ w : World Unit, w.sent.length = 1 ∧ w.Replies := by
  obtain ⟨w, hw, -, -, -, -, -, -, hsent⟩ := answeredThenEnded_run
  have hreached : Reached readReply Orderly w := Runs.exec answeredThenEnded .start hw
  exact ⟨w, by rw [hsent]; rfl, reached_replies hreached⟩

/-- The first call after the child's end: its line is taken by the writer, which fails. -/
def lateCall : List Event :=
  [.terminates, .reads, .starts "a".toList, .inserts 0, .sends 0, .writes false]

theorem lateCall_run :
    ∃ w ∈ lateCall.foldlM (fun w e => if True then step readReply w e else none) ({} : World Unit),
      w.started = 1 ∧ w.alive = false ∧ w.reader = false ∧ w.stdin = [] ∧
      (w.calls 0).map Call.stuck = some true ∧ w.pending "a".toList = some 0 := by
  decide

/-- **A call waits forever**: nobody is left to answer it or to drop its sender. -/
theorem waits_forever : ∃ w : World Unit, Reached readReply (fun _ _ => True) w ∧ w.alive = false ∧
    Quiescent readReply w ∧ w.pending "a".toList = some 0 ∧ (∃ c, w.calls 0 = some c ∧ ¬ c.Returned) ∧
    ¬ w.Settled readReply := by
  obtain ⟨w, hw, hstarted, hdead, hreader, hstdin, h0, hpending⟩ := lateCall_run
  have hreached : Reached readReply (fun _ _ => True) w := Runs.exec lateCall .start hw
  have hinv : w.Inv := Runs.inv hreached inv_start fun _ _ _ hi hs _ => inv_step hi hs
  obtain ⟨c, hc, hstuck⟩ := Option.map_eq_some_iff.mp h0
  have hquiet : Quiescent readReply w := by
    refine quiescent_of hreader hstdin fun k d hd => .inl ?_
    have hk : k < 1 := hstarted ▸ hinv.bound k d hd
    obtain rfl : k = 0 := Nat.lt_one_iff.mp hk
    obtain rfl : c = d := Option.some.inj (hc.symm.trans hd)
    exact hstuck
  have hwaits : ¬ c.Returned := by
    rintro ⟨result, hphase⟩
    rw [Call.stuck, hphase] at hstuck
    cases hstuck
  exact ⟨w, hreached, hdead, hquiet, hpending, ⟨c, hc, hwaits⟩,
    fun hsettled => hwaits ((hsettled hdead hquiet).2 0 c hc)⟩

end Veesker.Host
