/-
  File:      Veesker/Sidecar/Rpc.lean
  Subject:   THE SIDECAR WITH ALL ITS METHODS, and what their handlers can come to ask.

  A handler takes the session's connection once, when it starts, and talks to that connection to the
  end; so a call is one step of this machine, with Oracle's answers as part of the step. Two methods
  look the session up a second time, after an await (`Later`): what they send then is a step of its
  own. `query.execute`, the sessions and the windows are the steps of Machine.lean.
-/
import Veesker.Sidecar.Handlers
import Veesker.Sidecar.Machine

namespace Veesker.Sidecar

open Run Safety

/-! ## 1. The machine -/

structure RpcState where
  core : State := {}
  /-- what is still to be sent on the session there is by then -/
  later : List Later := []

inductive RpcAction where
  | core (a : Action)
  | call (c : Call) (answers : List Answer)
  /-- the turn of what is still to be sent comes -/
  | later (i : Nat) (answers : List Answer)

/-- Who asks: a request's own handler, or what one left over. -/
inductive Asker where
  | call (c : Call)
  | later (l : Later)
  deriving DecidableEq

inductive RpcEvent where
  | core (e : Event)
  | sent (asker : Asker) (q : Sent) (session : SessionId)
  deriving DecidableEq

/-- What a call leaves to be sent; nothing while it still waits, and nothing when it fails. -/
def leftOver (r : Option (Except CallError (List Later))) : List Later :=
  match r with
  | some (.ok l) => l
  | _ => []

/-- A handler's questions, as events of the session it took. -/
def sentEvents (asker : Asker) (t : Handler) (answers : List Answer) (id : SessionId) :
    List RpcEvent := (t.said answers).map (.sent asker · id)

/-- **One step.** Without a session a handler throws before it sends anything. -/
def rpcStep (s : RpcState) : RpcAction → Option (RpcState × List RpcEvent)
  | .core a => (step s.core a).map fun r => ({ s with core := r.1 }, r.2.map .core)
  | .call c answers =>
    match s.core.session with
    | none => some (s, [])
    | some id =>
      let t := handler s.core.safety c
      some ({ s with later := s.later ++ leftOver (t.result answers) },
        sentEvents (.call c) t answers id)
  | .later i answers =>
    match s.later[i]?, s.core.session with
    | none, _ => none
    | some _, none => some ({ s with later := s.later.eraseIdx i }, [])
    | some l, some id =>
      some ({ s with later := s.later.eraseIdx i },
        sentEvents (.later l) (laterHandler l) answers id)

abbrev RpcReaches (ok : RpcState → RpcAction → Prop) : RpcState → List RpcEvent → Prop :=
  Run.Reaches rpcStep ok {}

/-- Any step may be taken. -/
abbrev anyRpc : RpcState → RpcAction → Prop := fun _ _ => True

instance (s : RpcState) (a : RpcAction) : Decidable (anyRpc s a) := inferInstanceAs (Decidable True)

/-! ## 2. What one step can do -/

/-- A step, by what it asks and on which session. -/
inductive RpcStep (s : RpcState) : RpcAction → RpcState → List RpcEvent → Prop where
  | core {a : Action} {c : State} {new : List Event} (h : step s.core a = some (c, new)) :
      RpcStep s (.core a) { s with core := c } (new.map .core)
  /-- without a session, or with nothing to ask -/
  | quiet {a : RpcAction} {s' : RpcState} (hc : s'.core = s.core) : RpcStep s a s' []
  | call {c : Call} {answers : List Answer} {id : SessionId} {s' : RpcState}
      (hs : s.core.session = some id) (hc : s'.core = s.core) :
      RpcStep s (.call c answers) s' (sentEvents (.call c) (handler s.core.safety c) answers id)
  | later {i : Nat} {l : Later} {answers : List Answer} {id : SessionId} {s' : RpcState}
      (hl : s.later[i]? = some l) (hs : s.core.session = some id) (hc : s'.core = s.core) :
      RpcStep s (.later i answers) s' (sentEvents (.later l) (laterHandler l) answers id)

theorem rpcStep_cases {s s' : RpcState} {a : RpcAction} {new : List RpcEvent}
    (h : rpcStep s a = some (s', new)) : RpcStep s a s' new := by
  cases a with
  | core a =>
    simp only [rpcStep, Option.map_eq_some_iff] at h
    obtain ⟨r, hr, he⟩ := h
    cases he
    exact .core hr
  | call c answers =>
    simp only [rpcStep] at h
    split at h
    · cases h
      exact .quiet rfl
    · rename_i id hid
      cases h
      exact .call hid rfl
  | later i answers =>
    simp only [rpcStep] at h
    split at h
    · cases h
    · cases h
      exact .quiet rfl
    · rename_i l id hl hid
      cases h
      exact .later hl hid rfl

/-! ## 3. Asking, through the handlers' own words -/

variable {P : Sent → Prop}

@[simp] theorem asks_finished : finished.Asks P := trivial

@[simp] theorem asks_failed (e : CallError) : (failed e).Asks P := trivial

@[simp] theorem asks_query (what : What) (k : List Row → Handler) :
    (query what k).Asks P ↔ P ⟨.session, what⟩ ∧ ∀ rows, (k rows).Asks P := by
  unfold query
  refine ⟨fun h => ⟨h.1, fun rows => h.2 (.ok rows)⟩, fun h => ⟨h.1, fun a => ?_⟩⟩
  cases a with
  | ok rows => exact h.2 rows
  | error e => trivial

@[simp] theorem asks_attempt (on : Connection) (what : What) (k : Handler) :
    (attempt on what k).Asks P ↔ P ⟨on, what⟩ ∧ k.Asks P :=
  ⟨fun h => ⟨h.1, h.2 (.ok [])⟩, fun h => ⟨h.1, fun _ => h.2⟩⟩

@[simp] theorem asks_orFail {α : Type} (x : Except CallError α) (k : α → Handler) :
    (orFail x k).Asks P ↔ ∀ a, x = .ok a → (k a).Asks P := by
  cases x <;> simp [orFail]

end Veesker.Sidecar
