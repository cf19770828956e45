/-
  File:      Veesker/Editor/Actions.lean
  Subject:   THE EDITOR'S RUNS (src/lib/stores/sql-editor.svelte.ts): any number of run actions,
             their dialogs and replies, and the connection that changes under them, in every order.

  A run prepares its text, asks about destructive words, sends the text, and may stop twice more:
  at the dialog for DML without a WHERE and at the one for DDL. The connection's id, host and env
  are variables of the module; a run reads them when it writes its history, not when it starts.

  * `step_actions` -- a step starts a run, moves one, or touches none;
  * **`asked_iff`** -- when a destructive statement is sent only after the user said yes to it.
-/
import Veesker.Run.Flight
import Veesker.Editor.Destructive
import Veesker.Safety.Gate
import Veesker.Splitter.SplitSql

namespace Veesker.Editor

open Run Splitter List

/-! ## 1. What a run sends -/

/-- `_PLSQL_ANON_RE.test`; the flag says whether a leading line comment is being read. -/
def isPlsqlAnon : Bool → Text → Bool
  | _, [] => false
  | true, c :: cs => if c = '\n' then isPlsqlAnon false cs else isPlsqlAnon true cs
  | false, c :: cs =>
    if c = '-' ∧ cs.head? = some '-' then isPlsqlAnon true cs
    else if isBlankChar c then isPlsqlAnon false cs
    else (Pattern.seq (.alt (.wordI "BEGIN".toList) (.wordI "DECLARE".toList)) .wordEdge).test
      (c :: cs)

def stripTrailingSemicolon (sql : Text) : Text :=
  let trimmed := trim sql
  if isPlsqlAnon false trimmed then trimmed
  else if endsWith trimmed [';'] then trim trimmed.dropLast
  else trimmed

/-- `s.indexOf(w, from)`. -/
def indexFrom (w s : Text) (start : Nat) : Option Nat :=
  (List.range' start (s.length + 1 - start)).find? fun i => startsWith (s.drop i) w

/-- The first statement that the cursor is in. -/
def statementAround (fullText : Text) (cursor : Nat) : Nat → List Text → Option Text
  | _, [] => none
  | searchFrom, st :: sts =>
    match indexFrom st fullText searchFrom with
    | none => statementAround fullText cursor searchFrom sts
    | some i =>
      if i ≤ cursor ∧ cursor ≤ i + st.length then some st
      else statementAround fullText cursor (i + st.length) sts

/-- The last statement that starts before the cursor. -/
def statementBefore (fullText : Text) (cursor : Nat) : Nat → Option Text → List Text → Option Text
  | _, last, [] => last
  | searchFrom, last, st :: sts =>
    match indexFrom st fullText searchFrom with
    | none => statementBefore fullText cursor searchFrom last sts
    | some i =>
      statementBefore fullText cursor (i + st.length) (if i ≤ cursor then some st else last) sts

/-- `matchedSql`. -/
def statementAt (fullText : Text) (cursor : Nat) (statements : List Text) : Text :=
  ((statementAround fullText cursor 0 statements).or
    (statementBefore fullText cursor 0 none statements)).getD (statements.headD [])

/-- A run action, with the text it is started on. -/
inductive Request where
  /-- `runStatementShared`, which the command window calls. -/
  | shared (sql : Text) (bypassConfirm bypassUnsafeDml : Bool)
  | active (rawSql : Text)
  | all (sql : Text)
  | selection (text : Text)
  | atCursor (fullText : Text) (cursorPos : Nat) (rawSql : Text)
  | fetchAll (sqlOriginal : Text)
  deriving DecidableEq

/-- The code that takes the run from there. -/
inductive Path where
  | shared (bypassConfirm bypassUnsafeDml : Bool)
  | active
  | all
  /-- The same code in `runSelection` and `runStatementAtCursor`. -/
  | single
  | fetchAll
  deriving DecidableEq

/-- The text as it is sent, where there is something to send. -/
def Path.withText (path : Path) (sql : Text) : Option (Path × Text) :=
  if sql = [] then none else some (path, sql)

def Request.prepared : Request → Option (Path × Text)
  | .shared sql bypassConfirm bypassUnsafeDml =>
    (Path.shared bypassConfirm bypassUnsafeDml).withText (stripTrailingSemicolon sql)
  | .active rawSql => Path.active.withText (stripTrailingSemicolon rawSql)
  | .all sql =>
    let preflight := splitSql sql
    if trim sql = [] ∨ preflight.errors ≠ [] ∧ preflight.statements = [] then none
    else some (.all, sql)
  | .selection text => Path.single.withText (stripTrailingSemicolon text)
  | .atCursor fullText cursorPos rawSql =>
    match (splitSql fullText).statements with
    | [] => Path.active.withText (stripTrailingSemicolon rawSql)
    | st :: sts =>
      some (.single, stripTrailingSemicolon (statementAt fullText cursorPos (st :: sts)))
  | .fetchAll sqlOriginal => Path.fetchAll.withText (stripTrailingSemicolon sqlOriginal)

/-- The statements of the text that the action runs. -/
def Request.statements : Request → List Text
  | .shared sql _ _ => (splitSql sql).statements
  | .active rawSql => (splitSql rawSql).statements
  | .all sql => (splitSql sql).statements
  | .selection text => (splitSql text).statements
  | .atCursor fullText cursorPos rawSql =>
    match (splitSql fullText).statements with
    | [] => (splitSql rawSql).statements
    | st :: sts => [statementAt fullText cursorPos (st :: sts)]
  | .fetchAll sqlOriginal => (splitSql sqlOriginal).statements

/-- The path calls `askConfirm`. -/
def Path.asks : Path → Bool
  | .shared bypassConfirm _ => !bypassConfirm
  | .fetchAll => false
  | .active => true
  | .all => true
  | .single => true

/-- The path looks for the unsafe-DML error, and what it does then. -/
def Path.unsafeDml : Path → Option Bool
  | .shared _ bypassUnsafeDml => some bypassUnsafeDml
  | .fetchAll => none
  | .active => some false
  | .all => some false
  | .single => some false

/-- The path has the DDL gate. -/
def Path.ddlGate : Path → Bool
  | .shared _ _ => true
  | .active => true
  | .all => true
  | .single => false
  | .fetchAll => false

/-! ## 2. Replies and records -/

/-- The connection that the module's variables are of. -/
structure Context where
  id : Option Text := none
  name : Option Text := none
  username : Option Text := none
  host : Option Text := none
  env : Option Safety.Env := none
  deriving DecidableEq

inductive Status where
  | ok | error | cancelled
  deriving DecidableEq

/-- What is known of a statement that was run. -/
structure Outcome where
  sql : Text
  status : Status
  rowCount : Nat := 0
  elapsedMs : Nat := 0
  error : Option (Int × Text) := none
  deriving DecidableEq

inductive Reply where
  | ok (results : List Outcome)
  | error (code : Int) (message : Text)
  deriving DecidableEq

/-- `isUnsafeDmlError`. -/
def Reply.isUnsafeDmlError : Reply → Bool
  | .error code _ => code == -32031
  | .ok _ => false

/-- `isDdlBlockedError`, and the risk level read off it. -/
def Reply.ddlRisk : Reply → Option Safety.DdlRiskLevel
  | .error code _ =>
    if code = -32042 then some .destructive_ddl else if code = -32041 then some .ddl else none
  | .ok _ => none

/-- Nothing was run. -/
def Reply.heldBack (r : Reply) : Bool := r.isUnsafeDmlError || r.ddlRisk.isSome

/-- `HistorySaveInput`. -/
structure HistoryInput where
  connectionId : Text
  sql : Text
  success : Bool
  rowCount : Option Nat
  elapsedMs : Nat
  error : Option (Int × Text)
  username : Option Text
  host : Option Text
  deriving DecidableEq

/-- What `CloudAuditService.push` is given. -/
structure CloudInput where
  connectionId : Option Text
  connectionName : Option Text
  host : Option Text
  sql : Text
  success : Bool
  rowCount : Option Nat
  elapsedMs : Nat
  error : Option (Int × Text)
  env : Option Safety.Env
  deriving DecidableEq

/-- `v || null`. -/
def orNull (v : Option Text) : Option Text := v.filter (· ≠ [])

/-- `pushHistory`. -/
def pushHistory (c : Context) (o : Outcome) : Option (HistoryInput × CloudInput) :=
  match c.id with
  | none => none
  | some id =>
    if o.status = .cancelled then none
    else
      let success := o.status == .ok
      let rowCount := if success then some o.rowCount else none
      let error := if o.status = .error then o.error else none
      some (⟨id, o.sql, success, rowCount, o.elapsedMs, error, c.username, c.host⟩,
        ⟨orNull c.id, orNull c.name, orNull c.host, o.sql, success, rowCount, o.elapsedMs, error,
          c.env⟩)

/-- The statements that a path writes to the history after a reply. -/
def Path.recorded (path : Path) (sql : Text) : Reply → List Outcome
  | .ok results => match path with
    | .active => results.take 1
    | .single => results.take 1
    | .all => results
    | .shared _ _ => []
    | .fetchAll => []
  | .error code message => match path with
    | .active => [{ sql, status := .error, error := some (code, message) }]
    | .single => [{ sql, status := .error, error := some (code, message) }]
    | .all => []
    | .shared _ _ => []
    | .fetchAll => []

/-! ## 3. The state -/

/-- Which of its calls a run is at. -/
inductive Stage where
  | first
  | acked
  /-- After the DDL window was opened. -/
  | last (riskLevel : Safety.DdlRiskLevel)
  deriving DecidableEq

def Stage.isLast : Stage → Bool
  | .last _ => true
  | .first => false
  | .acked => false

inductive Phase where
  | asking
  | sent (stage : Stage)
  | answered (stage : Stage) (reply : Reply)
  | unsafeDml
  | ddl (riskLevel : Safety.DdlRiskLevel) (reply : Reply)
  /-- `ddlConfirm` is under way. -/
  | unlocking (riskLevel : Safety.DdlRiskLevel) (reply : Reply)
  | ended
  deriving DecidableEq

structure Action where
  request : Request
  path : Path
  sql : Text
  /-- The connection that was current when the user started the run. -/
  startedOn : Context
  phase : Phase := .asking
  /-- The texts that the user said yes to in `askConfirm`'s dialog, and those sent. -/
  confirmed : List Text := []
  sent : List Text := []
  deriving DecidableEq

structure World where
  context : Context := {}
  /-- The connection of the sidecar's session. -/
  session : Option Text := none
  actions : List Action := []
  /-- `_pendingConfirm`, `_pendingUnsafeDml` and `_pendingDdl`, as the runs that wait there. -/
  pendingConfirm : Option Nat := none
  pendingUnsafeDml : Option Nat := none
  pendingDdl : Option Nat := none
  /-- What was run for which action, and where. -/
  executed : List (Nat × Text) := []
  history : List (Nat × HistoryInput) := []
  cloud : List (Nat × CloudInput) := []
  /-- The env that `auditDdlEvent` was given. -/
  ddlEvents : List (Nat × Option Safety.Env) := []
  deriving DecidableEq

/-! ## 4. The steps -/

inductive Event where
  | starts (request : Request)
  | confirmRun (confirmed : Bool)
  | resolveUnsafeDml (confirmed : Bool)
  | resolveDdl (confirmed : Bool)
  /-- The sidecar answers the call of the `k`-th run; likewise below. -/
  | executes (k : Nat) (reply : Reply)
  /-- The reply reaches the run. -/
  | replies (k : Nat)
  | unlocks (k : Nat) (ok : Bool)
  | reset
  | setConnectionContext (c : Context)
  /-- The sidecar's session is now of this connection. -/
  | opens (id : Text)
  | closes
  deriving DecidableEq

/-- The run is at this phase now. -/
def Action.at (a : Action) (phase : Phase) : Action := { a with phase }

def Action.over (a : Action) : Action := a.at .ended

def Action.send (a : Action) (stage : Stage) : Action :=
  { a with phase := .sent stage, sent := a.sent ++ [a.sql] }

def Action.confirm (a : Action) : Action := { a with confirmed := a.confirmed ++ [a.sql] }

def World.set (w : World) (k : Nat) (a : Action) : World := { w with actions := w.actions.set k a }

def World.add (w : World) (a : Action) : World := { w with actions := w.actions ++ [a] }

/-- `askConfirm` has something to ask. -/
def Action.mustAsk (a : Action) : Bool := a.path.asks && !(detectDestructive a.sql).isEmpty

def World.begin (w : World) (a : Action) : World :=
  if a.mustAsk then
    if w.pendingConfirm.isSome then w.add a.over
    else { w.add a with pendingConfirm := some w.actions.length }
  else w.add (a.send .first)

/-- The call of `auditDdlEvent` after a statement that the DDL window let through. -/
def World.ddlEventsAfter (w : World) (k : Nat) : Stage → Reply → List (Nat × Option Safety.Env)
  | .last _, .ok _ => w.ddlEvents ++ [(k, w.context.env)]
  | .last _, .error _ _ => w.ddlEvents
  | .first, _ => w.ddlEvents
  | .acked, _ => w.ddlEvents

/-- A run comes to its end, and is recorded. -/
def World.finish (w : World) (k : Nat) (a : Action) (stage : Stage) (reply : Reply) : World :=
  let records := (a.path.recorded a.sql reply).filterMap (pushHistory w.context)
  { w.set k a.over with
    history := w.history ++ records.map fun r => (k, r.1)
    cloud := w.cloud ++ records.map fun r => (k, r.2)
    ddlEvents := w.ddlEventsAfter k stage reply }

/-- The run takes a reply. -/
def World.takes (w : World) (k : Nat) (a : Action) (stage : Stage) (reply : Reply) : World :=
  if stage = .first ∧ reply.isUnsafeDmlError = true ∧ a.path.unsafeDml ≠ none then
    if a.path.unsafeDml = some true then w.set k (a.send .acked)
    else if w.pendingUnsafeDml.isSome then w.set k a.over
    else { w.set k (a.at .unsafeDml) with pendingUnsafeDml := some k }
  else if stage.isLast then w.finish k a stage reply
  else match reply.ddlRisk with
    | none => w.finish k a stage reply
    | some risk =>
      if a.path.ddlGate then
        -- a run that waits there already is left waiting for good
        { w.set k (a.at (.ddl risk reply)) with pendingDdl := some k }
      else w.finish k a stage reply

def step (w : World) : Event → Option World
  | .starts request => match request.prepared with
    | none => some w
    | some (path, sql) => some (w.begin { request, path, sql, startedOn := w.context })
  | .confirmRun confirmed => match w.pendingConfirm with
    | none => some w
    | some k => match w.actions[k]? with
      | some a => match a.phase with
        | .asking =>
          let a' := if confirmed then a.confirm.send .first else a.over
          some { w.set k a' with pendingConfirm := none }
        | _ => none
      | none => none
  | .resolveUnsafeDml confirmed => match w.pendingUnsafeDml with
    | none => some w
    | some k => match w.actions[k]? with
      | some a => match a.phase with
        | .unsafeDml =>
          let a' := if confirmed then a.send .acked else a.over
          some { w.set k a' with pendingUnsafeDml := none }
        | _ => none
      | none => none
  | .resolveDdl confirmed => match w.pendingDdl with
    | none => some w
    | some k => match w.actions[k]? with
      | some a => match a.phase with
        | .ddl risk reply =>
          let a' := if confirmed then a.at (.unlocking risk reply) else a.over
          some { w.set k a' with pendingDdl := none }
        | _ => none
      | none => none
  | .executes k reply => match w.actions[k]? with
    | some a => match a.phase with
      | .sent stage =>
        some { w.set k (a.at (.answered stage reply)) with
          executed := w.executed ++
            if reply.heldBack then [] else (w.session.map fun id => (k, id)).toList }
      | _ => none
    | none => none
  | .replies k => match w.actions[k]? with
    | some a => match a.phase with
      | .answered stage reply => some (w.takes k a stage reply)
      | _ => none
    | none => none
  | .unlocks k ok => match w.actions[k]? with
    | some a => match a.phase with
      | .unlocking risk reply =>
        some (if ok then w.set k (a.send (.last risk)) else w.finish k a .acked reply)
      | _ => none
    | none => none
  | .reset => some { w with context := {}, pendingConfirm := none, pendingUnsafeDml := none }
  | .setConnectionContext c => some { w with context := c }
  | .opens id => some { w with session := some id }
  | .closes => some { w with session := none }

/-- The states of the runs from an editor just loaded, under a condition on the steps. -/
def Reached (allowed : World → Event → Prop) : World → Prop :=
  Runs (fun w e w' => step w e = some w') allowed {}

/-! ## 5. What a step does to the runs -/

/-- The run has been sent and is not over. -/
def Action.working (a : Action) : Bool := a.phase != .asking && a.phase != .ended

/-- How one run goes on. -/
inductive Action.Next (a : Action) : Action → Prop where
  | ended : Next a a.over
  | confirms : Next a (a.confirm.send .first)
  | moves (h : a.working = true) (phase : Phase) : Next a (a.at phase)
  | sends (h : a.working = true) (stage : Stage) : Next a (a.send stage)

/-- The one run that a step moves. -/
def Moved (w w' : World) : Prop :=
  ∃ (k : Nat) (a a' : Action), w.actions[k]? = some a ∧ a.Next a' ∧
    w'.actions = w.actions.set k a'

variable {w w' : World}

theorem working_of_phase {a : Action} {p : Phase} (h : a.phase = p) (ha : p ≠ .asking)
    (ho : p ≠ .ended) : a.working = true := by
  rw [Action.working, h, Bool.and_eq_true, bne_iff_ne, bne_iff_ne]
  exact ⟨ha, ho⟩

theorem moved_takes {k : Nat} {a : Action} (hk : w.actions[k]? = some a)
    (hwork : a.working = true) (stage : Stage) (reply : Reply) :
    Moved w (w.takes k a stage reply) := by
  rw [World.takes]
  split
  · split
    · exact ⟨k, a, _, hk, .sends hwork _, rfl⟩
    · split
      · exact ⟨k, a, _, hk, .ended, rfl⟩
      · exact ⟨k, a, _, hk, .moves hwork _, rfl⟩
  · split
    · exact ⟨k, a, _, hk, .ended, rfl⟩
    · split
      · exact ⟨k, a, _, hk, .ended, rfl⟩
      · split
        · exact ⟨k, a, _, hk, .moves hwork _, rfl⟩
        · exact ⟨k, a, _, hk, .ended, rfl⟩

/-- **A step starts a run, moves one, or touches none.** -/
theorem step_actions {e : Event} (hs : step w e = some w') :
    w'.actions = w.actions ∨ Moved w w' ∨
      ∃ request path sql, request.prepared = some (path, sql) ∧
        w' = w.begin { request, path, sql, startedOn := w.context } := by
  cases e with
  | starts request =>
    rw [step] at hs
    split at hs
    · obtain rfl := Option.some.inj hs
      exact .inl rfl
    · rename_i path sql hp
      cases hs
      exact .inr (.inr ⟨request, path, sql, hp, rfl⟩)
  | confirmRun confirmed =>
    rw [step] at hs
    split at hs
    · obtain rfl := Option.some.inj hs
      exact .inl rfl
    · rename_i k _
      split at hs
      · rename_i a hk
        split at hs
        · obtain rfl := Option.some.inj hs
          cases confirmed with
          | true => exact .inr (.inl ⟨k, a, _, hk, .confirms, rfl⟩)
          | false => exact .inr (.inl ⟨k, a, _, hk, .ended, rfl⟩)
        · cases hs
      · cases hs
  | resolveUnsafeDml confirmed =>
    rw [step] at hs
    split at hs
    · obtain rfl := Option.some.inj hs
      exact .inl rfl
    · rename_i k _
      split at hs
      · rename_i a hk
        split at hs
        · rename_i hp
          cases hs
          cases confirmed with
          | true =>
            have hwork := working_of_phase hp (by decide) (by decide)
            exact .inr (.inl ⟨k, a, _, hk, .sends hwork _, rfl⟩)
          | false => exact .inr (.inl ⟨k, a, _, hk, .ended, rfl⟩)
        · cases hs
      · cases hs
  | resolveDdl confirmed =>
    rw [step] at hs
    split at hs
    · obtain rfl := Option.some.inj hs
      exact .inl rfl
    · rename_i k _
      split at hs
      · rename_i a hk
        split at hs
        · rename_i hp
          cases hs
          cases confirmed with
          | true =>
            have hwork := working_of_phase hp (fun e => nomatch e) (fun e => nomatch e)
            exact .inr (.inl ⟨k, a, _, hk, .moves hwork _, rfl⟩)
          | false => exact .inr (.inl ⟨k, a, _, hk, .ended, rfl⟩)
        · cases hs
      · cases hs
  | executes k reply =>
    rw [step] at hs
    split at hs
    · rename_i a hk
      split at hs
      · rename_i hp
        cases hs
        have hwork := working_of_phase hp (fun e => nomatch e) (fun e => nomatch e)
        exact .inr (.inl ⟨k, a, _, hk, .moves hwork _, rfl⟩)
      · cases hs
    · cases hs
  | replies k =>
    rw [step] at hs
    split at hs
    · rename_i a hk
      split at hs
      · rename_i stage reply hp
        cases hs
        have hwork := working_of_phase hp (fun e => nomatch e) (fun e => nomatch e)
        exact .inr (.inl (moved_takes hk hwork stage reply))
      · cases hs
    · cases hs
  | unlocks k ok =>
    rw [step] at hs
    split at hs
    · rename_i a hk
      split at hs
      · rename_i hp
        cases hs
        have hwork := working_of_phase hp (fun e => nomatch e) (fun e => nomatch e)
        cases ok with
        | true => exact .inr (.inl ⟨k, a, _, hk, .sends hwork _, rfl⟩)
        | false => exact .inr (.inl ⟨k, a, _, hk, .ended, rfl⟩)
      · cases hs
    · cases hs
  | reset =>
    cases hs
    exact .inl rfl
  | setConnectionContext c =>
    cases hs
    exact .inl rfl
  | opens id =>
    cases hs
    exact .inl rfl
  | closes =>
    cases hs
    exact .inl rfl

/-! ## 6. Asked before it is sent -/

/-- A statement of the text that the action runs is destructive. -/
def Request.destroys (r : Request) : Bool := r.statements.any isDestructive

/-- **What is asked of a run**: a text with a destructive statement is sent only after the user said
    yes to that text in the same action. -/
def Action.Asked (a : Action) : Prop :=
  a.request.destroys = true → ∀ t ∈ a.sent, t ∈ a.confirmed

/-- **The condition**: the action asks at all, and one of the destructive words stands in what it
    sends outside what a reading without literals takes for a comment. -/
def Request.Guarded (r : Request) : Prop :=
  r.destroys = true → ∀ p ∈ r.prepared, p.1.asks = true ∧ Visible p.2

/-- What is kept of a run by every step. -/
structure Action.Known (a : Action) : Prop where
  prepared : a.request.prepared = some (a.path, a.sql)
  sent : ∀ t ∈ a.sent, t = a.sql
  working : a.mustAsk = true → a.working = true → a.sql ∈ a.confirmed
  confirmed : a.mustAsk = true → ∀ t ∈ a.sent, t ∈ a.confirmed

theorem Action.Known.next {a a' : Action} (h : a.Known) (hn : a.Next a') : a'.Known := by
  have hsent : ∀ t ∈ a.sent ++ [a.sql], t = a.sql := fun t ht =>
    (mem_append.mp ht).elim (h.sent t) mem_singleton.mp
  cases hn with
  | ended => exact ⟨h.prepared, h.sent, fun _ hw => absurd hw Bool.false_ne_true, h.confirmed⟩
  | confirms =>
    have hsaid : a.sql ∈ a.confirmed ++ [a.sql] :=
      mem_append_right _ (mem_singleton_self _)
    exact ⟨h.prepared, hsent, fun _ _ => hsaid, fun _ t ht => hsent t ht ▸ hsaid⟩
  | moves hw phase => exact ⟨h.prepared, h.sent, fun hm _ => h.working hm hw, h.confirmed⟩
  | sends hw stage =>
    exact ⟨h.prepared, hsent, fun hm _ => h.working hm hw,
      fun hm t ht => hsent t ht ▸ h.working hm hw⟩

theorem known_begin {request : Request} {path : Path} {sql : Text}
    (hp : request.prepared = some (path, sql)) (h : ∀ a ∈ w.actions, a.Known) :
    ∀ a ∈ (w.begin { request, path, sql, startedOn := w.context }).actions, a.Known := by
  have hnew : ∀ b, b.Known → ∀ a ∈ w.actions ++ [b], a.Known := fun b hb a ha =>
    (mem_append.mp ha).elim (h a) fun he => mem_singleton.mp he ▸ hb
  rw [World.begin]
  split
  · split
    · exact hnew _ ⟨hp, fun _ ht => absurd ht not_mem_nil,
        fun _ hw => absurd hw Bool.false_ne_true, fun _ _ ht => absurd ht not_mem_nil⟩
    · exact hnew _ ⟨hp, fun _ ht => absurd ht not_mem_nil,
        fun _ hw => absurd hw Bool.false_ne_true, fun _ _ ht => absurd ht not_mem_nil⟩
  · rename_i hm
    exact hnew _ ⟨hp, fun _ ht => mem_singleton.mp ht, fun hm' => absurd hm' hm,
      fun hm' => absurd hm' hm⟩

theorem known_step {e : Event} (h : ∀ a ∈ w.actions, a.Known) (hs : step w e = some w') :
    ∀ a ∈ w'.actions, a.Known := by
  rcases step_actions hs with he | ⟨k, a, a', hk, hn, he⟩ | ⟨request, path, sql, hp, rfl⟩
  · rw [he]
    exact h
  · intro b hb
    rw [he] at hb
    rcases mem_or_eq_of_mem_set hb with hold | rfl
    · exact h b hold
    · exact (h a (mem_of_getElem? hk)).next hn
  · exact known_begin hp h

theorem known_run {allowed : World → Event → Prop} (h : Reached allowed w) :
    ∀ a ∈ w.actions, a.Known :=
  h.inv (fun _ ha => absurd ha not_mem_nil) fun _ _ _ hi hs _ => known_step hi hs

theorem mustAsk_iff (a : Action) : a.mustAsk = true ↔ a.path.asks = true ∧ Visible a.sql := by
  rw [Action.mustAsk, Bool.and_eq_true, Bool.not_eq_true', isEmpty_eq_false_iff,
    detectDestructive_iff]

/-- **When a run's destructive statements are asked about**: in every run of the editor, whatever
    happens between its steps, exactly if the action and its text meet the condition. -/
theorem asked_iff (r : Request) :
    (∀ w, Reached (fun _ _ => True) w → ∀ a ∈ w.actions, a.request = r → a.Asked) ↔ r.Guarded := by
  constructor
  · intro h hdestroys p hp
    obtain ⟨path, sql⟩ := p
    have hp' : r.prepared = some (path, sql) := Option.mem_def.mp hp
    by_contra hnot
    let a : Action := { request := r, path, sql, startedOn := {} }
    have hm : ¬ a.mustAsk = true := fun hm => hnot ((mustAsk_iff a).mp hm)
    have hs : step {} (.starts r) = some (World.add {} (a.send .first)) := by
      rw [step, hp']
      exact congrArg some (if_neg hm)
    have hsent := h _ (.step _ _ _ .start hs trivial) (a.send .first) (mem_singleton_self _)
      rfl hdestroys sql (mem_singleton_self _)
    exact not_mem_nil hsent
  · intro hg w hw a ha hr hdestroys
    have hk := known_run hw a ha
    obtain ⟨hasks, hvisible⟩ := hg (hr ▸ hdestroys) (a.path, a.sql) (hr ▸ hk.prepared)
    exact hk.confirmed ((mustAsk_iff a).mpr ⟨hasks, hvisible⟩)

/-- `SELECT '/*' FROM dual;DROP TABLE t;--*/`, with all its statements. -/
def hiddenDrop : Request := .all "SELECT '/*' FROM dual;DROP TABLE t;--*/".toList

/-- **A DROP behind a literal with a comment's start in it is sent at once.** -/
theorem unasked : ¬ ∀ (r : Request) (w : World), Reached (fun _ _ => True) w →
    ∀ a ∈ w.actions, a.request = r → a.Asked := by
  intro h
  have hrun : ∃ w ∈ [Event.starts hiddenDrop].foldlM
      (fun w e => if True then step w e else none) ({} : World),
      ∃ a ∈ w.actions, a.request = hiddenDrop ∧ a.request.destroys = true ∧
        ∃ t ∈ a.sent, t ∉ a.confirmed := by
    decide
  obtain ⟨w, hw, a, ha, hr, hd, t, ht, hnot⟩ := hrun
  exact hnot (h hiddenDrop w (Runs.exec _ .start hw) a ha hr hd t ht)

end Veesker.Editor
