/-
  File:      Veesker/Sidecar/Machine.lean
  Subject:   THE SIDECAR'S SESSION, WINDOWS AND QUERIES, await by await
             (sidecar/src/oracle.ts, sidecar/src/state.ts).

  The sidecar is one thread: a handler runs alone up to its next `await`, and between two of its
  awaits any other handler may run. So a step of `step` is one handler from one await to the next:

  * `openSession` takes the session lock, closes the old session (an await), then clears session
    and windows, connects (awaits), and sets the new session at the end; `closeSession` likewise;
  * `ddlConfirm`, `ddlUnlock` and `unlockUnsafeDml` have no await;
  * `queryExecute` runs the gate over ALL statements of the call and starts the first one; every
    later statement starts when the one before it is done, on the session there is by then;
  * any handler that notices a lost connection clears the session, but not the windows.

  A step writes events (`Event`); the ones that start something on a session name it.
-/
import Veesker.Safety.Gate
import Veesker.Run.Log

namespace Veesker.Sidecar

open Safety

/-- A session, by the number of its `setSession`. -/
abbrev SessionId := Nat

/-- What the holder of the session lock is waiting for. -/
inductive Phase where
  /-- the old session's `close`; then the new session's settings, where one is to be opened -/
  | closing (next : Option ConnectionSafety)
  /-- the new connection and its bootstrap queries -/
  | connecting (safety : ConnectionSafety)
  deriving DecidableEq

/-- The `queryExecute` under way: the session its statements passed the gate on, and the
    statements not yet started. -/
structure Batch where
  session : Option SessionId
  rest : List Text
  deriving DecidableEq

/-- The module-level state. -/
structure State where
  session : Option SessionId := none
  safety : ConnectionSafety := {}
  windows : Windows := {}
  lock : Option Phase := none
  running : Option Batch := none
  nextId : SessionId := 0
  deriving DecidableEq

/-- A connection is being made. -/
def State.connecting (s : State) : Bool :=
  match s.lock with
  | some (.connecting _) => true
  | _ => false

inductive Event where
  /-- a successful `unlockUnsafeDml`: the table as the caller named it -/
  | unlocked (table : Text) (now : Time) (session : Option SessionId)
  | confirmed (kind : ConfirmKind) (now : Time) (session : Option SessionId)
  | ddlUnlocked
  /-- `openSession` or `closeSession` cleared the windows -/
  | cleared
  | opened (session : SessionId) (safety : ConnectionSafety)
  /-- the gate let a statement through -/
  | passed (sql : Text) (now : Time) (safety : ConnectionSafety) (session : Option SessionId)
  /-- a statement was handed to a session's connection -/
  | executed (sql : Text) (now : Time) (session : SessionId)
  deriving DecidableEq

inductive Action where
  | openSession (safety : ConnectionSafety)
  | closeSession
  /-- the awaited `close` of the old session is over, with or without an error -/
  | oldClosed
  | connected
  | connectFailed
  | sessionLost
  | unlockUnsafeDml (now : Time) (table : Text)
  | ddlConfirm (now : Time) (kind : ConfirmKind)
  | ddlUnlock
  /-- the call's statements, each with the clock's reading at its gate, and the reading when the
      first one starts -/
  | queryExecute (origin : Option Text) (acknowledgeUnsafe : Bool) (acknowledgeTable : Text)
      (statements : List (Text × Time)) (now : Time)
  /-- the awaited statement is done; the next one starts -/
  | statementDone (now : Time)
  /-- the awaited statement failed or was cancelled -/
  | queryEnds
  deriving DecidableEq

/-- The events of a batch's passing. -/
def passedEvents (f : ConnectionSafety) (session : Option SessionId) (l : List (Text × Time)) :
    List Event := l.map fun x => .passed x.1 x.2 f session

/-- `queryExecute` up to its first await. -/
def startQuery (s : State) (opts : GateOptions) (statements : List (Text × Time)) (now : Time) :
    State × List Event :=
  let gate := gateBatch s.safety opts s.windows statements
  let passed := passedEvents s.safety s.session gate.1
  let s' := { s with windows := gate.2 }
  if gate.1.length < statements.length then (s', passed)
  else match statements, s.session with
    | (sql, _) :: rest, some id =>
      ({ s' with running := some ⟨s.session, rest.map Prod.fst⟩ }, passed ++ [.executed sql now id])
    | _, _ => (s', passed)

/-- **One handler, from one await to the next.** -/
def step (s : State) : Action → Option (State × List Event)
  | .openSession safety =>
    if s.lock ≠ none then none
    else if s.session = none then
      some ({ s with windows := {}, lock := some (.connecting safety) }, [.cleared])
    else some ({ s with lock := some (.closing (some safety)) }, [])
  | .closeSession =>
    if s.lock ≠ none then none
    else if s.session = none then some ({ s with windows := {} }, [.cleared])
    else some ({ s with lock := some (.closing none) }, [])
  | .oldClosed =>
    match s.lock with
    | some (.closing next) =>
      some ({ s with session := none, safety := {}, windows := {}, lock := next.map .connecting },
        [.cleared])
    | _ => none
  | .connected =>
    match s.lock with
    | some (.connecting safety) =>
      some ({ s with session := some s.nextId, safety := safety, lock := none, nextId := s.nextId + 1 },
        [.opened s.nextId safety])
    | _ => none
  | .connectFailed =>
    match s.lock with
    | some (.connecting _) => some ({ s with lock := none }, [])
    | _ => none
  | .sessionLost => some ({ s with session := none, safety := {} }, [])
  | .unlockUnsafeDml now table =>
    match Safety.unlockUnsafeDml s.safety s.windows now table with
    | (.ok _, w) => some ({ s with windows := w }, [.unlocked table now s.session])
    | (.error _, w) => some ({ s with windows := w }, [])
  | .ddlConfirm now kind =>
    some ({ s with windows := Safety.ddlConfirm s.windows now kind }, [.confirmed kind now s.session])
  | .ddlUnlock => some ({ s with windows := Safety.ddlUnlock s.windows }, [.ddlUnlocked])
  | .queryExecute origin ackUnsafe ackTable statements now =>
    match enforcePsdpmForOrigin s.safety origin with
    | .error _ => some (s, [])
    | .ok () =>
      if s.running ≠ none then some (s, [])
      else some (startQuery s (queryOptions ackUnsafe ackTable) statements now)
  | .statementDone now =>
    match s.running, s.session with
    | none, _ => none
    | some ⟨_, []⟩, _ => some ({ s with running := none }, [])
    | some ⟨_, _ :: _⟩, none => some ({ s with running := none }, [])
    | some ⟨from_, sql :: rest⟩, some id =>
      some ({ s with running := some ⟨from_, rest⟩ }, [.executed sql now id])
  | .queryEnds => if s.running = none then none else some ({ s with running := none }, [])

/-- What the sidecar's runs reach, when every step taken meets `ok`. -/
abbrev Reaches (ok : State → Action → Prop) : State → List Event → Prop :=
  Run.Reaches step ok {}

/-- Any step may be taken. -/
abbrev always : State → Action → Prop := fun _ _ => True

instance (s : State) (a : Action) : Decidable (always s a) := inferInstanceAs (Decidable True)

/-! ## What one step can do -/

/-- **A step, by what it does to session, settings and windows.** Beside the constructor's own
    changes a step only touches the lock and the query under way. -/
inductive WindowStep (s : State) : Action → State → List Event → Prop where
  /-- nothing changes and nothing is let through -/
  | quiet {a : Action} {s' : State} {new : List Event} (hs : s'.session = s.session)
      (hf : s'.safety = s.safety) (hw : s'.windows = s.windows) (hid : s'.nextId = s.nextId)
      (hl : s'.connecting = true → s.connecting = true)
      (hn : new = [] ∨ ∃ sql now id, new = [.executed sql now id]) : WindowStep s a s' new
  | cleared {a : Action} {s' : State} (hs : s'.session = none) (hf : s'.safety = {})
      (hw : s'.windows = {}) (hid : s'.nextId = s.nextId) : WindowStep s a s' [.cleared]
  | opened {a : Action} {s' : State} {f : ConnectionSafety} (hl : s.connecting = true)
      (hs : s'.session = some s.nextId) (hf : s'.safety = f) (hw : s'.windows = s.windows)
      (hid : s'.nextId = s.nextId + 1) (hl' : s'.connecting = false) :
      WindowStep s a s' [.opened s.nextId f]
  | lost {a : Action} {s' : State} (hs : s'.session = none) (hf : s'.safety = {})
      (hw : s'.windows = s.windows) (hid : s'.nextId = s.nextId) (hl : s'.connecting = s.connecting) :
      WindowStep s a s' []
  | unlocked {a : Action} {s' : State} (table : Text) (now : Time)
      (henv : s.safety.env = some .prod) (hs : s'.session = s.session) (hf : s'.safety = s.safety)
      (hw : s'.windows = { s.windows with
        unsafeDml := some ⟨trim (toUpperCase table), now + UNSAFE_DML_WINDOW_TTL_MS⟩ })
      (hid : s'.nextId = s.nextId) (hl : s'.connecting = s.connecting) :
      WindowStep s a s' [.unlocked table now s.session]
  | confirmed {s' : State} (kind : ConfirmKind) (now : Time) (hs : s'.session = s.session)
      (hf : s'.safety = s.safety) (hw : s'.windows = Safety.ddlConfirm s.windows now kind)
      (hid : s'.nextId = s.nextId) (hl : s'.connecting = s.connecting) :
      WindowStep s (.ddlConfirm now kind) s' [.confirmed kind now s.session]
  | ddlUnlocked {a : Action} {s' : State} (hs : s'.session = s.session) (hf : s'.safety = s.safety)
      (hw : s'.windows = Safety.ddlUnlock s.windows) (hid : s'.nextId = s.nextId)
      (hl : s'.connecting = s.connecting) : WindowStep s a s' [.ddlUnlocked]
  | query {a : Action} {s' : State} {tail : List Event} (opts : GateOptions)
      (statements : List (Text × Time)) (hdry : opts.dryRun = false) (hs : s'.session = s.session)
      (hf : s'.safety = s.safety)
      (hw : s'.windows = (gateBatch s.safety opts s.windows statements).2)
      (hid : s'.nextId = s.nextId) (hl : s'.connecting = s.connecting)
      (htail : tail = [] ∨ ∃ sql now id, tail = [.executed sql now id]) :
      WindowStep s a s' (passedEvents s.safety s.session
        (gateBatch s.safety opts s.windows statements).1 ++ tail)

theorem windowStep_startQuery (s : State) (a : Action) (opts : GateOptions)
    (hdry : opts.dryRun = false) (statements : List (Text × Time)) (now : Time) :
    WindowStep s a (startQuery s opts statements now).1 (startQuery s opts statements now).2 := by
  have hrefused : WindowStep s a { s with windows := (gateBatch s.safety opts s.windows statements).2 }
      (passedEvents s.safety s.session (gateBatch s.safety opts s.windows statements).1) := by
    have h : WindowStep s a { s with windows := (gateBatch s.safety opts s.windows statements).2 }
        (_ ++ []) := .query opts statements hdry rfl rfl rfl rfl rfl (.inl rfl)
    rwa [List.append_nil] at h
  unfold startQuery
  simp only
  split
  · exact hrefused
  · split
    · exact .query opts _ hdry rfl rfl rfl rfl rfl (.inr ⟨_, _, _, rfl⟩)
    · exact hrefused

variable {s s' : State}

/-- **Every step is one of these**, where a state without a session has no settings. -/
theorem windowStep_of_step {a : Action} {new : List Event}
    (hunset : s.session = none → s.safety = {}) (h : step s a = some (s', new)) :
    WindowStep s a s' new := by
  cases a with
  | openSession safety =>
    simp only [step] at h
    split_ifs at h with h1 h2
    · cases h
      exact .cleared h2 (hunset h2) rfl rfl
    · cases h
      exact .quiet rfl rfl rfl rfl (by simp [State.connecting]) (.inl rfl)
  | closeSession =>
    simp only [step] at h
    split_ifs at h with h1 h2
    · cases h
      exact .cleared h2 (hunset h2) rfl rfl
    · cases h
      exact .quiet rfl rfl rfl rfl (by simp [State.connecting]) (.inl rfl)
  | oldClosed =>
    simp only [step] at h
    split at h
    · cases h
      exact .cleared rfl rfl rfl rfl
    · cases h
  | connected =>
    simp only [step] at h
    split at h
    · rename_i f hl
      cases h
      exact .opened (by simp [State.connecting, hl]) rfl rfl rfl rfl rfl
    · cases h
  | connectFailed =>
    simp only [step] at h
    split at h
    · cases h
      exact .quiet rfl rfl rfl rfl (by simp [State.connecting]) (.inl rfl)
    · cases h
  | sessionLost =>
    cases h
    exact .lost rfl rfl rfl rfl rfl
  | unlockUnsafeDml now table =>
    simp only [step] at h
    split at h
    · rename_i t w hu
      obtain ⟨henv, -, rfl⟩ := unlockUnsafeDml_ok hu
      cases h
      exact .unlocked table now henv rfl rfl rfl rfl rfl
    · rename_i e w hu
      have hw := unlockUnsafeDml_error hu
      subst hw
      cases h
      exact .quiet rfl rfl rfl rfl id (.inl rfl)
  | ddlConfirm now kind =>
    cases h
    exact .confirmed kind now rfl rfl rfl rfl rfl
  | ddlUnlock =>
    cases h
    exact .ddlUnlocked rfl rfl rfl rfl rfl
  | queryExecute origin ackUnsafe ackTable statements now =>
    simp only [step] at h
    split at h
    · cases h
      exact .quiet rfl rfl rfl rfl id (.inl rfl)
    · split_ifs at h with h1
      · cases h
        exact .quiet rfl rfl rfl rfl id (.inl rfl)
      · simp only [Option.some.injEq] at h
        have hq := windowStep_startQuery s (.queryExecute origin ackUnsafe ackTable statements now)
          (queryOptions ackUnsafe ackTable) rfl statements now
        rwa [h] at hq
  | statementDone now =>
    simp only [step] at h
    split at h
    · cases h
    · cases h
      exact .quiet rfl rfl rfl rfl id (.inl rfl)
    · cases h
      exact .quiet rfl rfl rfl rfl id (.inl rfl)
    · cases h
      exact .quiet rfl rfl rfl rfl id (.inr ⟨_, _, _, rfl⟩)
  | queryEnds =>
    simp only [step] at h
    split_ifs at h with h1
    · cases h
      exact .quiet rfl rfl rfl rfl id (.inl rfl)

/-- **A step, by the query under way**, and the statements handed to a connection. -/
inductive RunStep (s : State) : Action → State → List Event → Prop where
  | keeps {a : Action} {s' : State} {new : List Event}
      (hr : s'.running = s.running ∨ s'.running = none)
      (hn : ∀ sql now id, Event.executed sql now id ∉ new) : RunStep s a s' new
  /-- all statements have passed the gate, and the first one starts -/
  | starts {a : Action} {s' : State} {id : SessionId} (sql : Text) (t : Time)
      (rest : List (Text × Time)) (now : Time) (hs : s.session = some id)
      (hr : s'.running = some ⟨some id, rest.map Prod.fst⟩) :
      RunStep s a s' (passedEvents s.safety (some id) ((sql, t) :: rest) ++ [.executed sql now id])
  | goesOn {s' : State} {origin : Option SessionId} {id : SessionId} (sql : Text)
      (rest : List Text) (now : Time) (hb : s.running = some ⟨origin, sql :: rest⟩)
      (hs : s.session = some id) (hr : s'.running = some ⟨origin, rest⟩) :
      RunStep s (.statementDone now) s' [.executed sql now id]

theorem executed_not_mem_passedEvents (f : ConnectionSafety) (session : Option SessionId)
    (l : List (Text × Time)) (sql : Text) (now : Time) (id : SessionId) :
    Event.executed sql now id ∉ passedEvents f session l := by
  simp [passedEvents]

theorem runStep_startQuery (s : State) (a : Action) (opts : GateOptions)
    (statements : List (Text × Time)) (now : Time) :
    RunStep s a (startQuery s opts statements now).1 (startQuery s opts statements now).2 := by
  have hpre := gateBatch_prefix s.safety opts s.windows statements
  unfold startQuery
  simp only
  split
  · exact .keeps (.inl rfl) (executed_not_mem_passedEvents _ _ _)
  · rename_i hlen
    have hall := hpre.eq_of_length (le_antisymm hpre.length_le (not_lt.mp hlen))
    split
    · rename_i sql t rest id hsession
      rw [hall, hsession]
      exact .starts sql t rest now hsession rfl
    · exact .keeps (.inl rfl) (executed_not_mem_passedEvents _ _ _)

/-- Every step is one of these. -/
theorem runStep_of_step {a : Action} {new : List Event}
    (h : step s a = some (s', new)) : RunStep s a s' new := by
  cases a with
  | openSession safety =>
    simp only [step] at h
    split_ifs at h with h1 h2 <;> cases h <;> exact .keeps (.inl rfl) (by simp)
  | closeSession =>
    simp only [step] at h
    split_ifs at h with h1 h2 <;> cases h <;> exact .keeps (.inl rfl) (by simp)
  | oldClosed =>
    simp only [step] at h
    split at h <;> cases h
    exact .keeps (.inl rfl) (by simp)
  | connected =>
    simp only [step] at h
    split at h <;> cases h
    exact .keeps (.inl rfl) (by simp)
  | connectFailed =>
    simp only [step] at h
    split at h <;> cases h
    exact .keeps (.inl rfl) (by simp)
  | sessionLost =>
    cases h
    exact .keeps (.inl rfl) (by simp)
  | unlockUnsafeDml now table =>
    simp only [step] at h
    split at h <;> cases h <;> exact .keeps (.inl rfl) (by simp)
  | ddlConfirm now kind =>
    cases h
    exact .keeps (.inl rfl) (by simp)
  | ddlUnlock =>
    cases h
    exact .keeps (.inl rfl) (by simp)
  | queryExecute origin ackUnsafe ackTable statements now =>
    simp only [step] at h
    split at h
    · cases h
      exact .keeps (.inl rfl) (by simp)
    · split_ifs at h with h1
      · cases h
        exact .keeps (.inl rfl) (by simp)
      · simp only [Option.some.injEq] at h
        have hq := runStep_startQuery s (.queryExecute origin ackUnsafe ackTable statements now)
          (queryOptions ackUnsafe ackTable) statements now
        rwa [h] at hq
  | statementDone now =>
    simp only [step] at h
    split at h
    · cases h
    · cases h
      exact .keeps (.inr rfl) (by simp)
    · cases h
      exact .keeps (.inr rfl) (by simp)
    · rename_i origin sql rest id hb hs
      cases h
      exact .goesOn sql rest now hb hs rfl
  | queryEnds =>
    simp only [step] at h
    split_ifs at h with h1
    · cases h
      exact .keeps (.inr rfl) (by simp)

/-- What the gate lets through in a step, a `queryExecute` asked it about. -/
theorem passed_of_step {a : Action} {new : List Event}
    (h : step s a = some (s', new)) {sql : Text} {t : Time} {f : ConnectionSafety}
    {session : Option SessionId} (hp : Event.passed sql t f session ∈ new) :
    ∃ origin ackUnsafe ackTable statements now,
      a = .queryExecute origin ackUnsafe ackTable statements now ∧ f = s.safety ∧
      session = s.session ∧
      (sql, t) ∈ (gateBatch s.safety (queryOptions ackUnsafe ackTable) s.windows statements).1 := by
  cases a with
  | queryExecute origin ackUnsafe ackTable statements now =>
    simp only [step] at h
    split at h
    · cases h
      cases hp
    · split_ifs at h with h1
      · cases h
        cases hp
      · have hmem : Event.passed sql t f session ∈ passedEvents s.safety s.session
            (gateBatch s.safety (queryOptions ackUnsafe ackTable) s.windows statements).1 := by
          unfold startQuery at h
          simp only at h
          split at h
          · cases h
            exact hp
          · split at h
            · cases h
              simpa using hp
            · cases h
              exact hp
        obtain ⟨x, hx, he⟩ := List.mem_map.mp hmem
        cases he
        exact ⟨origin, ackUnsafe, ackTable, statements, now, rfl, rfl, rfl, hx⟩
  | unlockUnsafeDml now table =>
    simp only [step] at h
    split at h <;> cases h <;> simp at hp
  | openSession safety =>
    simp only [step] at h
    split_ifs at h <;> cases h <;> simp at hp
  | closeSession =>
    simp only [step] at h
    split_ifs at h <;> cases h <;> simp at hp
  | oldClosed | connected | connectFailed | statementDone =>
    simp only [step] at h
    split at h <;> cases h <;> simp at hp
  | sessionLost | ddlConfirm | ddlUnlock =>
    cases h
    simp at hp
  | queryEnds =>
    simp only [step] at h
    split_ifs at h
    cases h
    cases hp

/-! ## Sessions -/

/-- The session there is was opened with the settings there are, under a number of its own. -/
structure SessionInv (s : State) (log : List Event) : Prop where
  unset : s.session = none → s.safety = {}
  known : ∀ id, s.session = some id → .opened id s.safety ∈ log
  fresh : ∀ id f, .opened id f ∈ log → id < s.nextId
  unique : ∀ id f g, .opened id f ∈ log → .opened id g ∈ log → f = g

/-- A step that opens nothing, and keeps the session or drops it. -/
theorem SessionInv.keep {log new : List Event} (h : SessionInv s log)
    (hs : s'.session = s.session ∧ s'.safety = s.safety ∨ s'.session = none ∧ s'.safety = {})
    (hid : s'.nextId = s.nextId) (hnew : ∀ id f, Event.opened id f ∉ new) :
    SessionInv s' (log ++ new) := by
  have hold (id : SessionId) (f : ConnectionSafety) (hmem : .opened id f ∈ log ++ new) :
      .opened id f ∈ log := (List.mem_append.mp hmem).resolve_right (hnew id f)
  refine ⟨fun hnone => ?_, fun id hsome => ?_, fun id f hmem => ?_, fun id f g hf hg => ?_⟩
  · rcases hs with ⟨h1, h2⟩ | ⟨-, h2⟩
    · rw [h2]
      exact h.unset (h1 ▸ hnone)
    · exact h2
  · rcases hs with ⟨h1, h2⟩ | ⟨h1, -⟩
    · rw [h2]
      exact List.mem_append_left _ (h.known id (h1 ▸ hsome))
    · rw [h1] at hsome
      cases hsome
  · rw [hid]
    exact h.fresh id f (hold id f hmem)
  · exact h.unique id f g (hold id f hf) (hold id g hg)

theorem SessionInv.step {log new : List Event} {a : Action} (h : SessionInv s log)
    (hstep : Sidecar.step s a = some (s', new)) : SessionInv s' (log ++ new) := by
  cases windowStep_of_step h.unset hstep with
  | quiet hs hf hw hid hl hn =>
    refine h.keep (.inl ⟨hs, hf⟩) hid ?_
    rcases hn with rfl | ⟨sql, now, id, rfl⟩ <;> simp
  | cleared hs hf hw hid => exact h.keep (.inr ⟨hs, hf⟩) hid (by simp)
  | opened hl hs hf hw hid hl' =>
    have hmem (id : SessionId) (f : ConnectionSafety)
        (hm : .opened id f ∈ log ++ [.opened s.nextId s'.safety]) :
        .opened id f ∈ log ∨ id = s.nextId ∧ f = s'.safety := by
      rcases List.mem_append.mp hm with hm | hm
      · exact .inl hm
      · cases List.mem_singleton.mp hm
        exact .inr ⟨rfl, rfl⟩
    subst hf
    refine ⟨by simp [hs], fun id hsome => ?_, fun id f hm => ?_, fun id f g hf hg => ?_⟩
    · rw [hs] at hsome
      cases hsome
      simp
    · rw [hid]
      rcases hmem id f hm with hm | ⟨rfl, -⟩
      · exact Nat.lt_succ_of_lt (h.fresh id f hm)
      · exact Nat.lt_succ_self _
    · rcases hmem id f hf with hf | ⟨rfl, rfl⟩
      · rcases hmem id g hg with hg | ⟨rfl, -⟩
        · exact h.unique id f g hf hg
        · exact absurd (h.fresh _ f hf) (Nat.lt_irrefl _)
      · rcases hmem _ g hg with hg | ⟨-, rfl⟩
        · exact absurd (h.fresh _ g hg) (Nat.lt_irrefl _)
        · rfl
  | lost hs hf hw hid hl => exact h.keep (.inr ⟨hs, hf⟩) hid (by simp)
  | unlocked table now henv hs hf hw hid hl => exact h.keep (.inl ⟨hs, hf⟩) hid (by simp)
  | confirmed kind now hs hf hw hid hl => exact h.keep (.inl ⟨hs, hf⟩) hid (by simp)
  | ddlUnlocked hs hf hw hid hl => exact h.keep (.inl ⟨hs, hf⟩) hid (by simp)
  | query opts statements hdry hs hf hw hid hl htail =>
    refine h.keep (.inl ⟨hs, hf⟩) hid ?_
    rcases htail with rfl | ⟨sql, now, id, rfl⟩ <;> simp [passedEvents]

theorem sessionInv_init : SessionInv {} [] := ⟨fun _ => rfl, by simp, by simp, by simp⟩

end Veesker.Sidecar
