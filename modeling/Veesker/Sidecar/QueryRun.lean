/-
  File:      Veesker/Sidecar/QueryRun.lean
  Subject:   A SCRIPT UNDER WAY (queryExecute and queryCancel in sidecar/src/oracle.ts): the loop
             over its statements, with cancellations and other calls between any two awaits.

  What the session makes of a statement (executeSingleStatement, the transaction state, the drained
  output) is an outcome of any kind. The settings and the windows of the gate belong to other
  handlers, which may change them whenever a call waits.

  * `Ready.next`, `Ready.finish` -- what the loop does from the head of a round;
  * **`run_sound`**: in every run, each script's results are in order, nothing is executed behind a
    failure or a cancellation, the marker is released when its call ends, and every call ends.
-/
import Veesker.Sidecar.Prescan
import Veesker.Sidecar.Statement

namespace Veesker.Sidecar.Query

open Safety Splitter Run List

/-! ## 1. Results -/

def ORACLE_ERR : Int := -32013
def SPLITTER_ERROR : Int := -32014

inductive ServerStatementResult (ν : Type) where
  | ok (statementIndex : Nat) (sql : Text) (result : QueryResult ν) (output : Option (List Text))
  | error (statementIndex : Nat) (sql : Text) (elapsedMs : Int) (code : Int) (message : Text)
  | cancelled (statementIndex : Nat) (sql : Text) (elapsedMs : Int)
  deriving DecidableEq

namespace ServerStatementResult

variable {ν : Type}

def statementIndex : ServerStatementResult ν → Nat
  | .ok i _ _ _ => i
  | .error i _ _ _ _ => i
  | .cancelled i _ _ => i

def sql : ServerStatementResult ν → Text
  | .ok _ s _ _ => s
  | .error _ s _ _ _ => s
  | .cancelled _ s _ => s

def isOk : ServerStatementResult ν → Bool
  | .ok _ _ _ _ => true
  | _ => false

def output : ServerStatementResult ν → Option (List Text)
  | .ok _ _ _ output => output
  | _ => none

end ServerStatementResult

section

variable {ν : Type}

/-- What is recorded of a statement that has thrown. -/
def caught (i : Nat) (sql : Text) : Thrown → ServerStatementResult ν
  | .coded e =>
    if e.code = QUERY_CANCELLED then .cancelled i sql 0 else .error i sql 0 e.code e.message
  | .error message => .error i sql 0 (-32013) message
  | .value text => .error i sql 0 (-32000) text

/-- The lines of all outputs, in order. -/
def cumulative (results : List (ServerStatementResult ν)) : List Text :=
  results.flatMap fun r => r.output.getD []

inductive Reply (ν : Type) where
  | multi (results : List (ServerStatementResult ν)) (dbmsOutput : List Text)
  | single (result : QueryResult ν) (dbmsOutput : List Text)
  deriving DecidableEq

end

/-! ## 2. The state -/

structure QueryParams where
  sql : Text
  requestId : Option Text := none
  splitMulti : Bool := false
  acknowledgeUnsafe : Bool := false
  acknowledgeTable : Text := []
  origin : Option Text := none
  deriving DecidableEq

structure RunningQuery where
  requestId : Text
  cancelled : Bool
  deriving DecidableEq

inductive CallPhase (ν : Type) where
  /-- The `i`-th statement of a script is awaited. -/
  | script (i : Nat) (collected : List (ServerStatementResult ν))
  /-- The one statement is awaited. -/
  | single
  | ended (result : Except Thrown (Reply ν))
  deriving DecidableEq

structure Call (ν : Type) where
  requestId : Text
  statements : List Text
  phase : CallPhase ν
  deriving DecidableEq

structure World (ν : Type) where
  running : Option RunningQuery := none
  safety : ConnectionSafety := {}
  windows : Windows := {}
  calls : List (Call ν) := []
  /-- The call that has set the marker last. -/
  owner : Nat := 0
  deriving DecidableEq

/-- What a step writes; the first number is the call's. -/
inductive LogEvent where
  /-- The `i`-th statement is handed to the session, and comes back. -/
  | executes (k i : Nat)
  | completes (k i : Nat)
  | fails (k i : Nat)
  /-- The call's request is cancelled. -/
  | cancels (k : Nat)
  deriving DecidableEq

def LogEvent.call : LogEvent → Nat
  | .executes k _ => k
  | .completes k _ => k
  | .fails k _ => k
  | .cancels k => k

/-- A failure or a cancellation of this call. -/
def LogEvent.stops (k : Nat) : LogEvent → Bool
  | .fails k' _ => k' == k
  | .cancels k' => k' == k
  | _ => false

def LogEvent.isCompletion (k : Nat) : LogEvent → Bool
  | .completes k' _ => k' == k
  | _ => false

inductive Action (ν : Type) where
  | queryExecute (p : QueryParams) (randomUUID : Text) (clock : Nat → Time)
  /-- What the `k`-th call awaits is there. -/
  | settles (k : Nat) (outcome : Except Thrown (QueryResult ν × Option (List Text))) (elapsedMs : Int)
  | queryCancel (requestId : Text)
  /-- Other handlers, as far as they concern the gate. -/
  | others (safety : ConnectionSafety) (windows : Windows)

/-! ## 3. The steps -/

section

variable {ν : Type}

/-- The gate over a script, up to the first refusal. -/
def gateScript (safety : ConnectionSafety) (opts : GateOptions) :
    Windows → List (Text × Time) → Except RpcCodedError Unit × Windows
  | w, [] => (.ok (), w)
  | w, (sql, now) :: rest =>
    match enforceSafetyForStatement safety w now opts sql with
    | (.ok _, w') => gateScript safety opts w' rest
    | (.error e, w') => (.error e, w')

def World.setPhase (w : World ν) (k : Nat) (c : Call ν) (phase : CallPhase ν) : World ν :=
  { w with calls := w.calls.set k { c with phase } }

/-- `if (_running?.requestId === requestId) _running = null`. -/
def World.release (w : World ν) (requestId : Text) : World ν :=
  { w with running := w.running.filter fun r => r.requestId != requestId }

/-- `_running?.requestId === requestId && _running.cancelled`. -/
def World.isCancelled (w : World ν) (requestId : Text) : Bool :=
  w.running.any fun r => r.requestId == requestId && r.cancelled

/-- The `finally`, and the call is over. -/
def World.finish (w : World ν) (k : Nat) (c : Call ν) (result : Except Thrown (Reply ν)) : World ν :=
  (w.release c.requestId).setPhase k c (.ended result)

def World.finishScript (w : World ν) (k : Nat) (c : Call ν)
    (results : List (ServerStatementResult ν)) : World ν :=
  w.finish k c (.ok (.multi results (cumulative results)))

/-- The head of the loop's `i`-th round, up to its await or the end of the call. -/
def World.next (w : World ν) (k : Nat) (c : Call ν) (i : Nat)
    (collected : List (ServerStatementResult ν)) (elapsedMs : Int) : World ν × List LogEvent :=
  match c.statements[i]? with
  | none => (w.finishScript k c collected, [])
  | some sql =>
    if w.isCancelled c.requestId then
      (w.finishScript k c (collected ++ [.cancelled i sql elapsedMs]), [])
    else (w.setPhase k c (.script i collected), [.executes k i])

def splitterError (errors : List SplitterError) : RpcCodedError :=
  ⟨SPLITTER_ERROR, "Splitter error: ".toList ++ List.intercalate "; ".toList (errors.map fun e =>
    "line ".toList ++ Nat.toDigits 10 e.line ++ ": ".toList ++ e.message), none⟩

def alreadyRunning : RpcCodedError :=
  ⟨ORACLE_ERR, "Another query is already running on this connection".toList, none⟩

/-- A call that is refused before it touches the marker. -/
def World.refuse (w : World ν) (p : QueryParams) (e : RpcCodedError) : World ν :=
  { w with calls := w.calls ++ [⟨p.requestId.getD [], [], .ended (.error (.coded e))⟩] }

/-- What a call runs: the statements of the script, or its text. -/
def QueryParams.statements (p : QueryParams) : List Text :=
  if p.splitMulti then (splitSql p.sql).statements else [p.sql]

def QueryParams.errors (p : QueryParams) : List SplitterError :=
  if p.splitMulti then (splitSql p.sql).errors else []

/-- A call that has set the marker. -/
def World.mark (w : World ν) (p : QueryParams) (requestId : Text) : World ν :=
  { w with
    running := some ⟨requestId, false⟩
    owner := w.calls.length
    calls := w.calls ++ [⟨requestId, p.statements, .single⟩] }

/-- What follows on the marker, up to the first await. -/
def World.begin (w : World ν) (k : Nat) (c : Call ν) (p : QueryParams) (clock : Nat → Time) :
    World ν × List LogEvent :=
  if p.errors ≠ [] then (w.finish k c (.error (.coded (splitterError p.errors))), [])
  else
    let gate := gateScript w.safety (queryOptions p.acknowledgeUnsafe p.acknowledgeTable) w.windows
      (stamped c.statements clock)
    let w' := { w with windows := gate.2 }
    match gate.1 with
    | .error e => (w'.finish k c (.error (.coded e)), [])
    | .ok () => if p.splitMulti then w'.next k c 0 [] 0 else (w', [.executes k 0])

def step (w : World ν) : Action ν → Option (World ν × List LogEvent)
  | .queryExecute p randomUUID clock =>
    match enforcePsdpmForOrigin w.safety p.origin with
    | .error e => some (w.refuse p e, [])
    | .ok () =>
      if w.running.isSome then some (w.refuse p alreadyRunning, [])
      else
        let requestId := p.requestId.getD randomUUID
        some ((w.mark p requestId).begin w.calls.length ⟨requestId, p.statements, .single⟩ p clock)
  | .settles k outcome elapsedMs => w.calls[k]?.bind fun c =>
    match c.phase, outcome with
    | .script i collected, .ok (result, output) =>
      let r := w.next k c (i + 1) (collected ++ [.ok i (c.statements.getD i []) result output]) elapsedMs
      some (r.1, .completes k i :: r.2)
    | .script i collected, .error e =>
      some (w.finishScript k c (collected ++ [caught i (c.statements.getD i []) e]), [.fails k i])
    | .single, .ok (result, output) =>
      some (w.finish k c (.ok (.single result (output.getD []))), [.completes k 0])
    | .single, .error e => some (w.finish k c (.error e), [.fails k 0])
    | .ended _, _ => none
  | .queryCancel requestId =>
    match w.running with
    | some r =>
      if r.requestId = requestId then
        some ({ w with running := some { r with cancelled := true } }, [.cancels w.owner])
      else some (w, [])
    | none => some (w, [])
  | .others safety windows => some ({ w with safety, windows }, [])

/-- What the runs reach, whatever steps are taken. -/
abbrev Reached (w : World ν) (log : List LogEvent) : Prop :=
  Run.Reaches step (fun _ _ => True) {} w log

end

/-! ## 4. What is asked of a run -/

section

variable {ν : Type}

/-- The results have the indexes 0, 1, 2, … and the texts of the first statements. -/
def Placed (statements : List Text) (results : List (ServerStatementResult ν)) : Prop :=
  ∀ (i : Nat) (r : ServerStatementResult ν), results[i]? = some r →
    r.statementIndex = i ∧ statements[i]? = some r.sql

/-- They are in place, and are successes, then at most one of another kind; without it they are
    all. -/
def InOrder (statements : List Text) (results : List (ServerStatementResult ν)) : Prop :=
  Placed statements results ∧
  ∃ oks last, results = oks ++ Option.toList last ∧ (∀ r ∈ oks, r.isOk = true) ∧
    (∀ r ∈ last, r.isOk = false) ∧ (last = none → results.length = statements.length)

def Call.isEnded (c : Call ν) : Bool :=
  match c.phase with
  | .ended _ => true
  | _ => false

/-- Nothing is executed behind a failure or a cancellation of its call. -/
def Stopped (log : List LogEvent) : Prop :=
  log.Pairwise fun a b => ∀ k i, b = .executes k i → a.stops k = false

structure World.Sound (w : World ν) (log : List LogEvent) : Prop where
  results : ∀ c ∈ w.calls, ∀ results out, c.phase = .ended (.ok (.multi results out)) →
    InOrder c.statements results ∧ out = cumulative results
  stopped : Stopped log
  /-- The marker is set by the call that waits, and by no call that is over. -/
  released : ∀ k c, w.calls[k]? = some c →
    (c.isEnded = false ↔ w.owner = k ∧ ∃ r, w.running = some r ∧ r.requestId = c.requestId)
  /-- A call that waits goes on with whatever comes, and has less completed than it has to. -/
  ends : ∀ k c, w.calls[k]? = some c → c.isEnded = false →
    log.countP (LogEvent.isCompletion k) < c.statements.length ∧
      ∀ outcome elapsedMs, (step w (.settles k outcome elapsedMs)).isSome = true

/-! ## 5. The invariant -/

/-- Successes only, so far. -/
def AllOk (statements : List Text) (collected : List (ServerStatementResult ν)) : Prop :=
  (∀ r ∈ collected, r.isOk = true) ∧ Placed statements collected

/-- A call that is over, with its results in order. -/
def Call.Done (c : Call ν) : Prop :=
  ∃ result, c.phase = .ended result ∧ ∀ results out, result = .ok (.multi results out) →
    InOrder c.statements results ∧ out = cumulative results

/-- The `k`-th call is at the head of its `i`-th round. -/
structure Ready (w : World ν) (log : List LogEvent) (k : Nat) (c : Call ν) (i : Nat)
    (collected : List (ServerStatementResult ν)) : Prop where
  here : w.calls[k]? = some c
  others : ∀ k' c', k' ≠ k → w.calls[k']? = some c' → c'.Done
  owner : w.owner = k
  running : ∃ b, w.running = some ⟨c.requestId, b⟩ ∧ (b = false → .cancels k ∉ log)
  unfailed : ∀ j, .fails k j ∉ log
  successes : AllOk c.statements collected
  length : collected.length = i
  count : log.countP (LogEvent.isCompletion k) = i
  stopped : Stopped log
  known : ∀ e ∈ log, e.call < w.calls.length

inductive World.Inv (w : World ν) (log : List LogEvent) : Prop where
  | idle (running : w.running = none) (done : ∀ c ∈ w.calls, c.Done) (stopped : Stopped log)
      (known : ∀ e ∈ log, e.call < w.calls.length)
  | busy (k : Nat) (c : Call ν) (i : Nat) (collected : List (ServerStatementResult ν))
      (ready : Ready w log k c i collected) (lt : i < c.statements.length)
      (phase : c.phase = .script i collected ∨ c.phase = .single ∧ i = 0 ∧ collected = [])

variable {log : List LogEvent}

theorem stopped_concat {e : LogEvent} (h : Stopped log)
    (he : ∀ k i, e = .executes k i → ∀ a ∈ log, a.stops k = false) : Stopped (log ++ [e]) := by
  refine pairwise_append.mpr ⟨h, pairwise_singleton _ _, fun a ha b hb k i hk => ?_⟩
  rw [mem_singleton.mp hb] at hk
  exact he k i hk a ha

variable {collected : List (ServerStatementResult ν)} {statements : List Text}

theorem inOrder_of_allOk
    (h : AllOk statements collected) (hall : statements[collected.length]? = none) :
    InOrder statements collected := by
  refine ⟨h.2, collected, none, (append_nil _).symm, h.1, nofun, fun _ => ?_⟩
  have hge := List.getElem?_eq_none_iff.mp hall
  rcases Nat.lt_or_ge statements.length collected.length with hlt | hle
  · -- the result behind the last statement has no text
    obtain ⟨r, hr⟩ : ∃ r, collected[statements.length]? = some r :=
      ⟨_, List.getElem?_eq_getElem hlt⟩
    have hnone : statements[statements.length]? = none := List.getElem?_eq_none (Nat.le_refl _)
    rw [(h.2 _ r hr).2] at hnone
    cases hnone
  · omega

variable {r : ServerStatementResult ν}

/-- One more result in its place. -/
theorem places_concat
    (h : Placed statements collected)
    (hi : r.statementIndex = collected.length) (hs : statements[collected.length]? = some r.sql) :
    Placed statements (collected ++ [r]) := by
  intro i r' hr
  rcases Nat.lt_trichotomy i collected.length with hlt | rfl | hgt
  · rw [List.getElem?_append_left hlt] at hr
    exact h i r' hr
  · rw [List.getElem?_concat_length] at hr
    cases hr
    exact ⟨hi, hs⟩
  · rw [List.getElem?_eq_none (by rw [length_append, length_singleton]; omega)] at hr
    cases hr

theorem inOrder_concat
    (h : AllOk statements collected) (hr : r.isOk = false)
    (hi : r.statementIndex = collected.length) (hs : statements[collected.length]? = some r.sql) :
    InOrder statements (collected ++ [r]) := by
  refine ⟨places_concat h.2 hi hs, collected, some r, rfl, h.1, fun r' hr' => ?_, nofun⟩
  rw [← Option.some.inj hr']
  exact hr

theorem allOk_concat
    (h : AllOk statements collected) (hr : r.isOk = true)
    (hi : r.statementIndex = collected.length) (hs : statements[collected.length]? = some r.sql) :
    AllOk statements (collected ++ [r]) := by
  refine ⟨fun r' hr' => ?_, places_concat h.2 hi hs⟩
  rcases mem_append.mp hr' with hold | hnew
  · exact h.1 r' hold
  · rw [mem_singleton.mp hnew]
    exact hr

theorem caught_place (i : Nat) (sql : Text) (e : Thrown) :
    (caught i sql e : ServerStatementResult ν).isOk = false ∧
      (caught i sql e : ServerStatementResult ν).statementIndex = i ∧
      (caught i sql e : ServerStatementResult ν).sql = sql := by
  cases e with
  | coded e =>
    rw [caught]
    split <;> exact ⟨rfl, rfl, rfl⟩
  | error message => exact ⟨rfl, rfl, rfl⟩
  | value text => exact ⟨rfl, rfl, rfl⟩

/-! ## 6. The head of a round -/

variable {w : World ν} {log : List LogEvent} {k i : Nat} {c : Call ν}
  {collected : List (ServerStatementResult ν)}

/-- The gate's windows are nobody's business here. -/
theorem Ready.withWindows (h : Ready w log k c i collected) (windows : Windows) :
    Ready { w with windows } log k c i collected :=
  ⟨h.here, h.others, h.owner, h.running, h.unfailed, h.successes, h.length, h.count, h.stopped, h.known⟩

theorem getElem?_setPhase (w : World ν) (k : Nat) (c : Call ν) (phase : CallPhase ν) (k' : Nat) :
    (w.setPhase k c phase).calls[k']? =
      if k = k' then w.calls[k']?.map fun _ => { c with phase } else w.calls[k']? := by
  rw [World.setPhase, List.getElem?_set]
  split
  · rename_i hk
    subst hk
    split
    · rename_i hlt
      rw [List.getElem?_eq_getElem hlt]
      rfl
    · rename_i hge
      rw [List.getElem?_eq_none (Nat.not_lt.mp hge)]
      rfl
  · rfl

/-- **The call ends**: the marker is released, and no other call waits. -/
theorem Ready.finish (h : Ready w log k c i collected) {log' : List LogEvent}
    (hstopped : Stopped log') (hknown : ∀ e ∈ log', e.call < w.calls.length)
    {result : Except Thrown (Reply ν)}
    (hres : ∀ results out, result = .ok (.multi results out) →
      InOrder c.statements results ∧ out = cumulative results) :
    (w.finish k c result).Inv log' := by
  obtain ⟨b, hrunning, -⟩ := h.running
  refine .idle ?_ (fun c' hc' => ?_) hstopped (fun e he => ?_)
  · simp [World.finish, World.setPhase, World.release, hrunning]
  · obtain ⟨k', hk'⟩ := mem_iff_getElem?.mp hc'
    rw [World.finish, getElem?_setPhase] at hk'
    split at hk'
    · obtain ⟨c0, -, rfl⟩ := Option.map_eq_some_iff.mp hk'
      exact ⟨result, rfl, hres⟩
    · rename_i hne
      exact h.others k' c' (Ne.symm hne) hk'
  · rw [World.finish, World.setPhase, length_set]
    exact hknown e he

theorem Ready.setPhase (h : Ready w log k c i collected) (phase : CallPhase ν) :
    Ready (w.setPhase k c phase) log k { c with phase } i collected := by
  refine ⟨?_, fun k' c' hne hc' => ?_, h.owner, h.running, h.unfailed, h.successes, h.length, h.count,
    h.stopped, fun e he => ?_⟩
  · rw [getElem?_setPhase, if_pos rfl, h.here]
    rfl
  · rw [getElem?_setPhase, if_neg (Ne.symm hne)] at hc'
    exact h.others k' c' hne hc'
  · rw [World.setPhase, length_set]
    exact h.known e he

/-- **The statement is handed over**, where the request is not cancelled. -/
theorem Ready.executes (h : Ready w log k c i collected) (hactive : w.isCancelled c.requestId = false) :
    Ready w (log ++ [.executes k i]) k c i collected := by
  obtain ⟨b, hrunning, hcancel⟩ := h.running
  have hb : b = false := by simpa [World.isCancelled, hrunning] using hactive
  have hquiet : ∀ a ∈ log, a.stops k = false := by
    intro a ha
    cases a with
    | executes => rfl
    | completes => rfl
    | fails k' j =>
      refine beq_eq_false_iff_ne.mpr fun hk => ?_
      subst hk
      exact h.unfailed j ha
    | cancels k' =>
      refine beq_eq_false_iff_ne.mpr fun hk => ?_
      subst hk
      exact hcancel hb ha
  refine ⟨h.here, h.others, h.owner, ⟨b, hrunning, fun hb' hm => ?_⟩, fun j hm => ?_, h.successes,
    h.length, ?_, stopped_concat h.stopped ?_, fun e he => ?_⟩
  · rcases mem_append.mp hm with hold | hnew
    · exact hcancel hb' hold
    · cases mem_singleton.mp hnew
  · rcases mem_append.mp hm with hold | hnew
    · exact h.unfailed j hold
    · cases mem_singleton.mp hnew
  · rw [countP_append, h.count]
    rfl
  · intro k' i' he
    obtain ⟨rfl, -⟩ := LogEvent.executes.inj he
    exact hquiet
  · rcases mem_append.mp he with hold | hnew
    · exact h.known e hold
    · rw [mem_singleton.mp hnew]
      exact (List.getElem?_eq_some_iff.mp h.here).1

/-- **The head of a round**: the call ends with what it has, or with one more result that is
    cancelled, or it waits for the statement. -/
theorem Ready.next (h : Ready w log k c i collected) (elapsedMs : Int) :
    (w.next k c i collected elapsedMs).1.Inv (log ++ (w.next k c i collected elapsedMs).2) := by
  rw [World.next]
  cases hsql : c.statements[i]? with
  | none =>
    simp only [append_nil]
    refine h.finish h.stopped h.known fun results out hr => ?_
    cases hr
    exact ⟨inOrder_of_allOk h.successes (by rw [h.length]; exact hsql), rfl⟩
  | some sql =>
    simp only
    split
    · simp only [append_nil]
      refine h.finish h.stopped h.known fun results out hr => ?_
      cases hr
      refine ⟨inOrder_concat h.successes rfl h.length.symm ?_, rfl⟩
      rw [h.length]
      exact hsql
    · rename_i hactive
      exact .busy k _ i collected ((h.executes (Bool.eq_false_iff.mpr hactive)).setPhase _)
        (List.getElem?_eq_some_iff.mp hsql).1 (.inl rfl)

/-! ## 7. The steps -/

/-- What comes back of a statement and is no failure. -/
theorem Ready.completed (h : Ready w log k c i collected) (hlt : i < c.statements.length)
    (result : QueryResult ν) (output : Option (List Text)) :
    Ready w (log ++ [.completes k i]) k c (i + 1)
      (collected ++ [.ok i (c.statements.getD i []) result output]) := by
  have hsql : c.statements[collected.length]? = some (c.statements.getD i []) := by
    rw [h.length, getD_eq_getElem?_getD, List.getElem?_eq_getElem hlt]
    rfl
  obtain ⟨b, hrunning, hcancel⟩ := h.running
  refine ⟨h.here, h.others, h.owner, ⟨b, hrunning, fun hb hm => ?_⟩, fun j hm => ?_,
    allOk_concat h.successes rfl h.length.symm hsql, by rw [length_append, h.length]; rfl, ?_,
    stopped_concat h.stopped nofun, fun e he => ?_⟩
  · rcases mem_append.mp hm with hold | hnew
    · exact hcancel hb hold
    · cases mem_singleton.mp hnew
  · rcases mem_append.mp hm with hold | hnew
    · exact h.unfailed j hold
    · cases mem_singleton.mp hnew
  · rw [countP_append, h.count, countP_singleton, LogEvent.isCompletion, beq_self_eq_true,
      if_pos rfl]
  · rcases mem_append.mp he with hold | hnew
    · exact h.known e hold
    · rw [mem_singleton.mp hnew]
      exact (List.getElem?_eq_some_iff.mp h.here).1

/-- A call that ends with an event that executes nothing. -/
theorem Ready.finish_logged (h : Ready w log k c i collected) {e : LogEvent} (hcall : e.call = k)
    (hquiet : ∀ k i, e ≠ .executes k i) {result : Except Thrown (Reply ν)}
    (hres : ∀ results out, result = .ok (.multi results out) →
      InOrder c.statements results ∧ out = cumulative results) :
    (w.finish k c result).Inv (log ++ [e]) := by
  refine h.finish (stopped_concat h.stopped fun k' i' he => absurd he (hquiet k' i'))
    (fun e' he' => ?_) hres
  rcases mem_append.mp he' with hold | hnew
  · exact h.known e' hold
  · rw [mem_singleton.mp hnew, hcall]
    exact (List.getElem?_eq_some_iff.mp h.here).1

/-- The call that waits is the one that is ready. -/
theorem waiting_ready (h : w.Inv log) {k : Nat} {c : Call ν}
    (hc : w.calls[k]? = some c) (hwait : c.isEnded = false) :
    ∃ i collected, Ready w log k c i collected ∧ i < c.statements.length ∧
      (c.phase = .script i collected ∨ c.phase = .single ∧ i = 0 ∧ collected = []) := by
  have hdone : ¬ c.Done := by
    intro hdone
    obtain ⟨result, hphase, -⟩ := hdone
    rw [Call.isEnded, hphase] at hwait
    cases hwait
  cases h with
  | idle running done => exact absurd (done c (mem_of_getElem? hc)) hdone
  | busy k' c' i collected ready lt phase =>
    by_cases hk : k = k'
    · subst hk
      rw [ready.here] at hc
      cases hc
      exact ⟨i, collected, ready, lt, phase⟩
    · exact absurd (ready.others k c hk hc) hdone

variable {new : List LogEvent} {w w' : World ν}

theorem inv_settles (h : w.Inv log) {k : Nat}
    {outcome : Except Thrown (QueryResult ν × Option (List Text))} {elapsedMs : Int}
    (hs : step w (.settles k outcome elapsedMs) = some (w', new)) : w'.Inv (log ++ new) := by
  obtain ⟨c, hc, hs⟩ := Option.bind_eq_some_iff.mp hs
  cases hphase : c.phase with
  | ended result =>
    rw [hphase] at hs
    cases hs
  | script i collected =>
    obtain ⟨i', collected', hready, hlt, hph⟩ := waiting_ready h hc (by rw [Call.isEnded, hphase])
    obtain ⟨rfl, rfl⟩ : i' = i ∧ collected' = collected := by
      rcases hph with hph | ⟨hph, -⟩
      · rw [hphase] at hph
        cases hph
        exact ⟨rfl, rfl⟩
      · rw [hphase] at hph
        cases hph
    cases outcome with
    | ok r =>
      rw [hphase] at hs
      cases hs
      have hnext := (hready.completed hlt r.1 r.2).next elapsedMs
      rw [append_assoc, singleton_append] at hnext
      exact hnext
    | error e =>
      rw [hphase] at hs
      cases hs
      refine hready.finish_logged (e := .fails k i') rfl nofun fun results out hr => ?_
      cases hr
      obtain ⟨hbad, hindex, htext⟩ := caught_place (ν := ν) i' (c.statements.getD i' []) e
      refine ⟨inOrder_concat hready.successes hbad (hindex.trans hready.length.symm) ?_, rfl⟩
      rw [htext, hready.length, getD_eq_getElem?_getD, List.getElem?_eq_getElem hlt]
      rfl
  | single =>
    obtain ⟨i, collected, hready, -, -⟩ := waiting_ready h hc (by rw [Call.isEnded, hphase])
    cases outcome with
    | ok r =>
      rw [hphase] at hs
      cases hs
      exact hready.finish_logged (e := .completes k 0) rfl nofun fun results out hr => by cases hr
    | error e =>
      rw [hphase] at hs
      cases hs
      exact hready.finish_logged (e := .fails k 0) rfl nofun fun results out hr => by cases hr

/-- A call that has just set the marker. -/
theorem ready_mark (hdone : ∀ c ∈ w.calls, c.Done)
    (hstopped : Stopped log) (hknown : ∀ e ∈ log, e.call < w.calls.length) (p : QueryParams)
    (requestId : Text) :
    Ready (w.mark p requestId) log w.calls.length ⟨requestId, p.statements, .single⟩ 0 [] := by
  have hnew : ∀ e ∈ log, e.call ≠ w.calls.length := fun e he => Nat.ne_of_lt (hknown e he)
  refine ⟨List.getElem?_concat_length .., fun k' c' hne hc' => ?_, rfl,
    ⟨false, rfl, fun _ hm => hnew _ hm rfl⟩, fun j hm => hnew _ hm rfl, ⟨nofun, nofun⟩, rfl, ?_,
    hstopped, fun e he => ?_⟩
  · rcases Nat.lt_trichotomy k' w.calls.length with hlt | heq | hgt
    · rw [World.mark, List.getElem?_append_left hlt] at hc'
      exact hdone c' (mem_of_getElem? hc')
    · exact absurd heq hne
    · rw [World.mark, List.getElem?_eq_none
        (by rw [length_append, length_singleton]; omega)] at hc'
      cases hc'
  · rw [countP_eq_zero]
    intro e he
    cases e with
    | completes k' i =>
      rw [LogEvent.isCompletion, beq_iff_eq]
      exact hnew _ he
    | executes => exact Bool.false_ne_true
    | fails => exact Bool.false_ne_true
    | cancels => exact Bool.false_ne_true
  · rw [World.mark, length_append]
    exact Nat.lt_succ_of_lt (hknown e he)

/-- A call that is refused is over. -/
theorem inv_refuse (h : w.Inv log) (p : QueryParams)
    (e : RpcCodedError) : (w.refuse p e).Inv log := by
  have hnew : (⟨p.requestId.getD [], [], .ended (.error (.coded e))⟩ : Call ν).Done :=
    ⟨_, rfl, fun _ _ hr => by cases hr⟩
  have hknown : ∀ {log : List LogEvent}, (∀ e ∈ log, e.call < w.calls.length) →
      ∀ e' ∈ log, e'.call < (w.refuse p e).calls.length := by
    intro log hk e' he'
    rw [World.refuse, length_append]
    exact Nat.lt_succ_of_lt (hk e' he')
  cases h with
  | idle running done stopped known =>
    refine .idle running (fun c hc => ?_) stopped (hknown known)
    rcases mem_append.mp hc with hold | hlast
    · exact done c hold
    · rw [mem_singleton.mp hlast]
      exact hnew
  | busy k c i collected ready lt phase =>
    have hk := (List.getElem?_eq_some_iff.mp ready.here).1
    refine .busy k c i collected ⟨?_, fun k' c' hne hc' => ?_, ready.owner, ready.running,
      ready.unfailed, ready.successes, ready.length, ready.count, ready.stopped,
      hknown ready.known⟩ lt phase
    · rw [World.refuse, List.getElem?_append_left hk]
      exact ready.here
    · rcases mem_append.mp (mem_of_getElem? hc') with hold | hlast
      · rcases Nat.lt_or_ge k' w.calls.length with hlt | hge
        · rw [World.refuse, List.getElem?_append_left hlt] at hc'
          exact ready.others k' c' hne hc'
        · rw [World.refuse, List.getElem?_append_right hge] at hc'
          rw [mem_singleton.mp (mem_of_getElem? hc')]
          exact hnew
      · rw [mem_singleton.mp hlast]
        exact hnew

/-- **A call behind its marker**: it ends at once, or it waits. -/
theorem Ready.begin {k : Nat} {p : QueryParams}
    {requestId : Text} (h : Ready w log k ⟨requestId, p.statements, .single⟩ 0 [])
    (hactive : w.isCancelled requestId = false) (clock : Nat → Time) :
    (w.begin k ⟨requestId, p.statements, .single⟩ p clock).1.Inv
      (log ++ (w.begin k ⟨requestId, p.statements, .single⟩ p clock).2) := by
  have herror : ∀ {w : World ν} (e : RpcCodedError),
      Ready w log k ⟨requestId, p.statements, .single⟩ 0 [] →
      (w.finish k ⟨requestId, p.statements, .single⟩ (.error (.coded e))).Inv (log ++ []) := by
    intro w e hr
    rw [append_nil]
    exact hr.finish hr.stopped hr.known fun _ _ he => by cases he
  rw [World.begin]
  dsimp only
  split
  · exact herror _ h
  · split
    · exact herror _ (h.withWindows _)
    · split
      · exact (h.withWindows _).next 0
      · rename_i hsingle
        have hlength : p.statements.length = 1 := by
          rw [QueryParams.statements, if_neg hsingle]
          rfl
        exact .busy k _ 0 [] ((h.withWindows _).executes hactive) (by rw [hlength]; exact Nat.zero_lt_one)
          (.inr ⟨rfl, rfl, rfl⟩)

theorem inv_queryExecute (h : w.Inv log)
    {p : QueryParams} {randomUUID : Text} {clock : Nat → Time}
    (hs : step w (.queryExecute p randomUUID clock) = some (w', new)) : w'.Inv (log ++ new) := by
  rw [step] at hs
  split at hs
  · cases hs
    rw [append_nil]
    exact inv_refuse h p _
  · split at hs
    · cases hs
      rw [append_nil]
      exact inv_refuse h p _
    · rename_i hfree
      cases h with
      | idle running done stopped known =>
        have hready := ready_mark done stopped known p (p.requestId.getD randomUUID)
        have hbegin := hready.begin (by simp [World.isCancelled, World.mark]) clock
        rw [Option.some.inj hs] at hbegin
        exact hbegin
      | busy k c i collected ready =>
        obtain ⟨b, hrunning, -⟩ := ready.running
        rw [hrunning] at hfree
        exact absurd rfl hfree

theorem inv_queryCancel (h : w.Inv log)
    {requestId : Text} (hs : step w (.queryCancel requestId) = some (w', new)) :
    w'.Inv (log ++ new) := by
  have hsame : w.Inv (log ++ []) := by rwa [append_nil]
  rw [step] at hs
  split at hs
  · rename_i r hr
    split at hs
    · cases hs
      cases h with
      | idle running => rw [running] at hr; cases hr
      | busy k c i collected ready lt phase =>
        obtain ⟨b, hrunning, -⟩ := ready.running
        rw [hrunning] at hr
        cases hr
        rw [ready.owner]
        refine .busy k c i collected ⟨ready.here, ready.others, rfl, ⟨true, rfl, nofun⟩,
          fun j hm => ?_, ready.successes, ready.length, ?_, stopped_concat ready.stopped nofun,
          fun e he => ?_⟩ lt phase
        · rcases mem_append.mp hm with hold | hnew
          · exact ready.unfailed j hold
          · cases mem_singleton.mp hnew
        · rw [countP_append, ready.count]
          rfl
        · rcases mem_append.mp he with hold | hnew
          · exact ready.known e hold
          · rw [mem_singleton.mp hnew]
            exact (List.getElem?_eq_some_iff.mp ready.here).1
    · cases hs
      exact hsame
  · cases hs
    exact hsame

theorem inv_others (h : w.Inv log) (safety : ConnectionSafety)
    (windows : Windows) : World.Inv { w with safety, windows } log := by
  cases h with
  | idle running done stopped known => exact .idle running done stopped known
  | busy k c i collected ready lt phase =>
    exact .busy k c i collected ⟨ready.here, ready.others, ready.owner, ready.running,
      ready.unfailed, ready.successes, ready.length, ready.count, ready.stopped, ready.known⟩ lt phase

/-- **Every step keeps the invariant.** -/
theorem inv_step {a : Action ν} (h : w.Inv log)
    (hs : step w a = some (w', new)) : w'.Inv (log ++ new) := by
  cases a with
  | queryExecute p randomUUID clock => exact inv_queryExecute h hs
  | settles k outcome elapsedMs => exact inv_settles h hs
  | queryCancel requestId => exact inv_queryCancel h hs
  | others safety windows =>
    cases hs
    rw [append_nil]
    exact inv_others h safety windows

/-! ## 8. The result -/

theorem sound_of_inv (h : w.Inv log) : w.Sound log := by
  have hover : ∀ {c : Call ν}, c.Done → c.isEnded = true := by
    intro c hdone
    obtain ⟨result, hphase, -⟩ := hdone
    rw [Call.isEnded, hphase]
  have hresults : ∀ {c : Call ν} {results out}, c.Done →
      c.phase = .ended (.ok (.multi results out)) →
      InOrder c.statements results ∧ out = cumulative results := by
    intro c results out hdone hphase
    obtain ⟨result, hphase', hres⟩ := hdone
    rw [hphase] at hphase'
    exact hres results out (CallPhase.ended.inj hphase').symm
  cases h with
  | idle running done stopped known =>
    refine ⟨fun c hc _ _ => hresults (done c hc), stopped, fun k c hc => ?_, fun k c hc hwait => ?_⟩
    · rw [hover (done c (mem_of_getElem? hc)), running]
      simp
    · rw [hover (done c (mem_of_getElem? hc))] at hwait
      cases hwait
  | busy k c i collected ready lt phase =>
    have hwaits : c.isEnded = false := by
      rcases phase with hphase | ⟨hphase, -⟩ <;> rw [Call.isEnded, hphase]
    have hhere : ∀ {k' c'}, w.calls[k']? = some c' → c'.isEnded = false → k' = k ∧ c' = c := by
      intro k' c' hc' hwait'
      by_cases hk : k' = k
      · subst hk
        rw [ready.here] at hc'
        exact ⟨rfl, (Option.some.inj hc').symm⟩
      · rw [hover (ready.others k' c' hk hc')] at hwait'
        cases hwait'
    obtain ⟨b, hrunning, -⟩ := ready.running
    refine ⟨fun c' hc' results out hphase' => ?_, ready.stopped, fun k' c' hc' => ⟨fun hwait' => ?_, ?_⟩,
      fun k' c' hc' hwait' => ?_⟩
    · obtain ⟨k', hk'⟩ := mem_iff_getElem?.mp hc'
      by_cases hk : k' = k
      · subst hk
        rw [ready.here] at hk'
        cases hk'
        rw [Call.isEnded, hphase'] at hwaits
        cases hwaits
      · exact hresults (ready.others k' c' hk hk') hphase'
    · obtain ⟨rfl, rfl⟩ := hhere hc' hwait'
      exact ⟨ready.owner, _, hrunning, rfl⟩
    · intro howner
      rw [← howner.1, ready.owner, ready.here] at hc'
      rw [← Option.some.inj hc']
      exact hwaits
    · obtain ⟨rfl, rfl⟩ := hhere hc' hwait'
      refine ⟨by rw [ready.count]; exact lt, fun outcome elapsedMs => ?_⟩
      rw [step, hc', Option.bind_some]
      rcases phase with hphase | ⟨hphase, -⟩ <;> rw [hphase] <;> cases outcome <;> rfl

end

/-- Three statements, the second of which fails, and a cancellation that comes too late. -/
def secondFails : List (Action Nat) :=
  [.queryExecute { sql := "SELECT 1 FROM A;\nSELECT 2 FROM B;\nSELECT 3 FROM C;".toList, splitMulti := true }
      "r".toList fun _ => 0,
    .settles 0 (.ok (⟨[], [[.value 1]], 1, 5⟩, none)) 0,
    .settles 0 (.error (.error "ORA-00942".toList)) 0, .queryCancel "r".toList]

theorem secondFails_run :
    ∃ r ∈ runFrom step (fun _ _ => True) {} [] secondFails,
      r.1.calls.map (fun c => c.statements.length) = [3] ∧ r.1.running = none ∧
      r.2 = [.executes 0 0, .completes 0 0, .executes 0 1, .fails 0 1] := by
  decide

end Veesker.Sidecar.Query
