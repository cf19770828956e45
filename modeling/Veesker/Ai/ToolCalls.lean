/-
  File:      Veesker/Ai/ToolCalls.lean
  Subject:   THE AI'S TOOL CALLS (sidecar/src/ai.ts `executeTool`, ai-approval-state.ts), between
             the answers of the user and the opening and closing of sessions.

  A call runs from one await to the next: the lock and the cache of approvals are read in its
  first stretch, the user answers or the timer fires, and the tool goes to the database through
  the session there is by then. The sessions are those of `Sidecar.SessionLock`; `safetyOf` is
  what each connection was opened with.

  * `orderly_tools` -- **where the lock is off whenever an approved call of a tool other than
    `run_query` goes on, no tool is ever on a locked session, and each was approved**;
  * `tool_on_prod` -- a session opened while the user is asked.
-/
import Veesker.Safety.Gate
import Veesker.Sidecar.SessionLock
import Veesker.Ai.ReadOnlySql

namespace Veesker.Ai.ToolCalls

open Run Safety List
open Sidecar (SessionLock.World SessionLock.Event SessionLock.Step)

/-! ## 1. The source's functions -/

inductive ToolName where
  | describe_object
  | run_query
  | get_ddl
  | list_objects
  /-- A name the switch does not know. -/
  | other (name : Text)
  deriving DecidableEq

/-- The tools that touch the database. -/
def APPROVAL_GATED_TOOLS : List ToolName := [.describe_object, .run_query, .get_ddl, .list_objects]

structure ApprovalDecision where
  approved : Bool
  applyToTurn : Bool
  deriving DecidableEq

/-- What the timer decides. -/
def timedOut : ApprovalDecision := ⟨false, false⟩

def PSDPM_LOCK_MSG : Text :=
  ("Error: PSDPM mode active — AI cannot execute queries. Disable PSDPM in connection settings " ++
    "to allow AI tools.").toList

def psdpmLocked (safety : ConnectionSafety) : Bool := safety.psdpm || safety.env == some .prod

/-- How a stretch of `executeTool` ends. -/
inductive Outcome where
  | returns (result : Text)
  /-- `requestApprovalFn(requestId, name, input)`. -/
  | asks
  /-- The first statement is on its way, through the session there is. -/
  | database
  deriving DecidableEq

/-- The `switch`. The checks of `queryExecute` behind that of the origin (another query runs, the
    gate of the statement) are the argument `refusal`. -/
def dispatch (safety : ConnectionSafety) (name : ToolName) (sql : Text) (refusal : Option Text) :
    Outcome :=
  match name with
  | .run_query =>
    if isReadOnlySql (trim sql) = false then
      .returns "Error: only read-only SELECT or WITH queries are permitted".toList
    else match enforcePsdpmForOrigin safety (some "ai_tool".toList) with
      | .error e => .returns ("Error executing query: ".toList ++ e.message)
      | .ok () => match refusal with
        | some message => .returns ("Error executing query: ".toList ++ message)
        | none => .database
  | .describe_object | .get_ddl | .list_objects => .database
  | .other name => .returns ("Unknown tool: ".toList ++ name)

/-- The stretch up to the question, or past it where none is asked. -/
def begins (safety : ConnectionSafety) (turnApproved : List ToolName) (name : ToolName) (sql : Text)
    (refusal : Option Text) : Outcome :=
  if psdpmLocked safety = true ∧ name ∈ APPROVAL_GATED_TOOLS then .returns PSDPM_LOCK_MSG
  else if name ∈ APPROVAL_GATED_TOOLS ∧ name ∉ turnApproved then .asks
  else dispatch safety name sql refusal

/-- The stretch behind the answer. -/
def resumes (safety : ConnectionSafety) (decision : ApprovalDecision) (name : ToolName) (sql : Text)
    (refusal : Option Text) : Outcome :=
  if decision.approved = false then .returns "Error: User denied this tool call.".toList
  else dispatch safety name sql refusal

/-! ## 2. The state -/

inductive Phase where
  /-- Its resolver stands in `pending`. -/
  | pending
  /-- The promise is resolved. -/
  | decided (decision : ApprovalDecision)
  /-- Inside `withActiveSession`. -/
  | inDatabase (conn : Nat)
  deriving DecidableEq

/-- A call in flight. Its number stands for its `requestId`, which is random. -/
structure Call where
  id : Nat
  /-- The invocation of `aiChat` it belongs to. -/
  turn : Nat
  name : ToolName
  sql : Text
  phase : Phase
  deriving DecidableEq

inductive Act where
  /-- The notification `ai.approval.request`. -/
  | asked (id turn : Nat) (name : ToolName)
  /-- `ai.approval.resolve` reached its call. -/
  | answered (id turn : Nat) (name : ToolName) (decision : ApprovalDecision)
  /-- A statement was sent. -/
  | database (id turn : Nat) (name : ToolName) (conn : Nat)
  | returned (id : Nat) (result : Text)
  deriving DecidableEq

structure World where
  lock : SessionLock.World := {}
  turnApproved : Nat → List ToolName := fun _ => []
  calls : List Call := []
  /-- How many calls there were. -/
  begun : Nat := 0
  log : List Act := []

variable {safetyOf : Nat → ConnectionSafety}

/-- `getSessionSafety()`: set and cleared together with the session. -/
def World.safety (safetyOf : Nat → ConnectionSafety) (w : World) : ConnectionSafety :=
  (w.lock.currentSession.map safetyOf).getD {}

/-- `turnApproved.add(name)`. -/
def addApproved (turnApproved : Nat → List ToolName) (decision : ApprovalDecision) (turn : Nat)
    (name : ToolName) : Nat → List ToolName :=
  if decision.approved = true ∧ decision.applyToTurn = true then
    Function.update turnApproved turn (name :: turnApproved turn)
  else turnApproved

/-! ## 3. The steps -/

inductive Event where
  /-- A step of `openSession`, `closeSession` or another call of `withActiveSession`. -/
  | session (e : SessionLock.Event)
  | begins (turn : Nat) (name : ToolName) (sql : Text) (refusal : Option Text)
  | answers (id : Nat) (decision : ApprovalDecision)
  | timesOut (id : Nat)
  | resumes (id : Nat) (refusal : Option Text)
  /-- The next statement of the same tool. -/
  | executes (id : Nat)
  | finishes (id : Nat) (result : Text)
  /-- It finishes with an error that counts as a lost session. -/
  | loses (id : Nat) (result : Text)
  deriving DecidableEq

inductive Step (safetyOf : Nat → ConnectionSafety) : World → Event → World → Prop where
  | session (w : World) (e : SessionLock.Event) (lock : SessionLock.World)
      (h : SessionLock.Step w.lock e lock) : Step safetyOf w (.session e) { w with lock }
  | beginsReturns (w : World) (turn : Nat) (name : ToolName) (sql result : Text)
      (refusal : Option Text)
      (h : begins (w.safety safetyOf) (w.turnApproved turn) name sql refusal = .returns result) :
      Step safetyOf w (.begins turn name sql refusal) { w with
        begun := w.begun + 1, log := w.log ++ [.returned w.begun result] }
  | beginsAsks (w : World) (turn : Nat) (name : ToolName) (sql : Text) (refusal : Option Text)
      (h : begins (w.safety safetyOf) (w.turnApproved turn) name sql refusal = .asks) :
      Step safetyOf w (.begins turn name sql refusal) { w with
        begun := w.begun + 1
        calls := w.calls ++ [⟨w.begun, turn, name, sql, .pending⟩]
        log := w.log ++ [.asked w.begun turn name] }
  | beginsDatabase (w : World) (turn : Nat) (name : ToolName) (sql : Text) (refusal : Option Text)
      (conn : Nat) (lock : SessionLock.World)
      (h : begins (w.safety safetyOf) (w.turnApproved turn) name sql refusal = .database)
      (hs : w.lock.currentSession = some conn) (hl : SessionLock.Step w.lock .useStarts lock) :
      Step safetyOf w (.begins turn name sql refusal) { w with
        lock
        begun := w.begun + 1
        calls := w.calls ++ [⟨w.begun, turn, name, sql, .inDatabase conn⟩]
        log := w.log ++ [.database w.begun turn name conn] }
  /-- `getActiveSession` throws. -/
  | beginsNoSession (w : World) (turn : Nat) (name : ToolName) (sql result : Text)
      (refusal : Option Text)
      (h : begins (w.safety safetyOf) (w.turnApproved turn) name sql refusal = .database)
      (hs : w.lock.currentSession = none) :
      Step safetyOf w (.begins turn name sql refusal) { w with
        begun := w.begun + 1, log := w.log ++ [.returned w.begun result] }
  | answers (w : World) (cs cs' : List Call) (id turn : Nat) (name : ToolName) (sql : Text)
      (decision : ApprovalDecision) (hc : w.calls = cs ++ ⟨id, turn, name, sql, .pending⟩ :: cs') :
      Step safetyOf w (.answers id decision) { w with
        calls := cs ++ ⟨id, turn, name, sql, .decided decision⟩ :: cs'
        log := w.log ++ [.answered id turn name decision] }
  /-- `resolveApproval` finds no resolver. -/
  | answersNobody (w : World) (id : Nat) (decision : ApprovalDecision)
      (hc : ∀ c ∈ w.calls, c.id = id → c.phase ≠ .pending) : Step safetyOf w (.answers id decision) w
  | timesOut (w : World) (cs cs' : List Call) (id turn : Nat) (name : ToolName) (sql : Text)
      (hc : w.calls = cs ++ ⟨id, turn, name, sql, .pending⟩ :: cs') :
      Step safetyOf w (.timesOut id) { w with
        calls := cs ++ ⟨id, turn, name, sql, .decided timedOut⟩ :: cs' }
  | resumesReturns (w : World) (cs cs' : List Call) (id turn : Nat) (name : ToolName)
      (sql result : Text) (decision : ApprovalDecision) (refusal : Option Text)
      (hc : w.calls = cs ++ ⟨id, turn, name, sql, .decided decision⟩ :: cs')
      (h : resumes (w.safety safetyOf) decision name sql refusal = .returns result) :
      Step safetyOf w (.resumes id refusal) { w with
        turnApproved := addApproved w.turnApproved decision turn name
        calls := cs ++ cs'
        log := w.log ++ [.returned id result] }
  | resumesDatabase (w : World) (cs cs' : List Call) (id turn : Nat) (name : ToolName) (sql : Text)
      (decision : ApprovalDecision) (refusal : Option Text) (conn : Nat) (lock : SessionLock.World)
      (hc : w.calls = cs ++ ⟨id, turn, name, sql, .decided decision⟩ :: cs')
      (h : resumes (w.safety safetyOf) decision name sql refusal = .database)
      (hs : w.lock.currentSession = some conn) (hl : SessionLock.Step w.lock .useStarts lock) :
      Step safetyOf w (.resumes id refusal) { w with
        lock
        turnApproved := addApproved w.turnApproved decision turn name
        calls := cs ++ ⟨id, turn, name, sql, .inDatabase conn⟩ :: cs'
        log := w.log ++ [.database id turn name conn] }
  | resumesNoSession (w : World) (cs cs' : List Call) (id turn : Nat) (name : ToolName)
      (sql result : Text) (decision : ApprovalDecision) (refusal : Option Text)
      (hc : w.calls = cs ++ ⟨id, turn, name, sql, .decided decision⟩ :: cs')
      (h : resumes (w.safety safetyOf) decision name sql refusal = .database)
      (hs : w.lock.currentSession = none) :
      Step safetyOf w (.resumes id refusal) { w with
        turnApproved := addApproved w.turnApproved decision turn name
        calls := cs ++ cs'
        log := w.log ++ [.returned id result] }
  | executes (w : World) (cs cs' : List Call) (id turn : Nat) (name : ToolName) (sql : Text)
      (conn : Nat) (hc : w.calls = cs ++ ⟨id, turn, name, sql, .inDatabase conn⟩ :: cs') :
      Step safetyOf w (.executes id) { w with log := w.log ++ [.database id turn name conn] }
  | finishes (w : World) (cs cs' : List Call) (id turn : Nat) (name : ToolName) (sql result : Text)
      (conn : Nat) (lock : SessionLock.World)
      (hc : w.calls = cs ++ ⟨id, turn, name, sql, .inDatabase conn⟩ :: cs')
      (hl : SessionLock.Step w.lock (.useEnds conn) lock) :
      Step safetyOf w (.finishes id result) { w with
        lock, calls := cs ++ cs', log := w.log ++ [.returned id result] }
  | loses (w : World) (cs cs' : List Call) (id turn : Nat) (name : ToolName) (sql result : Text)
      (conn : Nat) (lock : SessionLock.World)
      (hc : w.calls = cs ++ ⟨id, turn, name, sql, .inDatabase conn⟩ :: cs')
      (hl : SessionLock.Step w.lock (.useLost conn) lock) :
      Step safetyOf w (.loses id result) { w with
        lock, calls := cs ++ cs', log := w.log ++ [.returned id result] }

/-! ## 4. What is asked of a run -/

/-- The user approved the call, or the tool for the rest of the turn. -/
def Approved (log : List Act) (id turn : Nat) (name : ToolName) : Prop :=
  ∃ d : ApprovalDecision, d.approved = true ∧ (.answered id turn name d ∈ log ∨
    d.applyToTurn = true ∧ ∃ id', .answered id' turn name d ∈ log)

/-- Every statement of a tool went to a session without lock and was approved before. -/
def Kept (safetyOf : Nat → ConnectionSafety) (log : List Act) : Prop :=
  ∀ before after id turn name conn, log = before ++ .database id turn name conn :: after →
    psdpmLocked (safetyOf conn) = false ∧ Approved before id turn name

/-- The lock is off when an approved call of a tool other than `run_query` goes on. -/
def Orderly (safetyOf : Nat → ConnectionSafety) (w : World) : Event → Prop
  | .resumes id _ => ∀ c ∈ w.calls, c.id = id → ∀ d, c.phase = .decided d → d.approved = true →
      c.name ≠ .run_query → psdpmLocked (w.safety safetyOf) = false
  | _ => True

abbrev Reachable (safetyOf : Nat → ConnectionSafety) : World → Prop :=
  Runs (Step safetyOf) (fun _ _ => True) {}

abbrev OrderlyRun (safetyOf : Nat → ConnectionSafety) : World → Prop :=
  Runs (Step safetyOf) (Orderly safetyOf) {}

/-! ## 5. The stretches -/

variable {name : ToolName} {safety : ConnectionSafety} {refusal : Option Text}

/-- A tool that goes to the database is one of the four, and `run_query` looks at the lock. -/
theorem dispatch_database {sql : Text}
    (h : dispatch safety name sql refusal = .database) :
    name ∈ APPROVAL_GATED_TOOLS ∧ (name = .run_query → psdpmLocked safety = false) := by
  cases name with
  | describe_object => exact ⟨by decide, nofun⟩
  | get_ddl => exact ⟨by decide, nofun⟩
  | list_objects => exact ⟨by decide, nofun⟩
  | other name => cases h
  | run_query =>
    refine ⟨by decide, fun _ => ?_⟩
    unfold dispatch at h
    simp only at h
    split at h
    · cases h
    · have hai : ["user_typed".toList, "user_clicked".toList].contains
          ((some "ai_tool".toList).getD "user_typed".toList) = false := by decide
      by_cases hp : safety.psdpm = false ∧ safety.env ≠ some .prod
      · rw [psdpmLocked, hp.1, Bool.false_or]
        exact beq_eq_false_iff_ne.mpr hp.2
      · rw [enforcePsdpmForOrigin, if_neg hp, hai] at h
        cases h

/-- Past the lock without a question: the tool was approved for the turn. -/
theorem begins_database {turnApproved : List ToolName}
    {sql : Text}
    (h : begins safety turnApproved name sql refusal = .database) :
    psdpmLocked safety = false ∧ name ∈ turnApproved := by
  rw [begins] at h
  split at h
  · cases h
  · rename_i hlock
    split at h
    · cases h
    · rename_i hask
      have hg := (dispatch_database h).1
      refine ⟨?_, ?_⟩
      · by_contra hl
        exact hlock ⟨by simpa using hl, hg⟩
      · by_contra hm
        exact hask ⟨hg, hm⟩

theorem resumes_database {decision : ApprovalDecision}
    {sql : Text}
    (h : resumes safety decision name sql refusal = .database) :
    decision.approved = true ∧ (name = .run_query → psdpmLocked safety = false) := by
  rw [resumes] at h
  split at h
  · cases h
  · rename_i ha
    exact ⟨by simpa using ha, (dispatch_database h).2⟩

theorem safety_some {w : World} {conn : Nat} (h : w.lock.currentSession = some conn) :
    w.safety safetyOf = safetyOf conn := by
  rw [World.safety, h]
  rfl

/-! ## 6. The invariant -/

structure Inv (safetyOf : Nat → ConnectionSafety) (w : World) : Prop where
  kept : Kept safetyOf w.log
  decided : ∀ c ∈ w.calls, ∀ d, c.phase = .decided d → d.approved = true →
    .answered c.id c.turn c.name d ∈ w.log
  inDatabase : ∀ c ∈ w.calls, ∀ conn, c.phase = .inDatabase conn →
    psdpmLocked (safetyOf conn) = false ∧ Approved w.log c.id c.turn c.name
  turns : ∀ turn, ∀ name ∈ w.turnApproved turn, ∃ id d, d.approved = true ∧
    d.applyToTurn = true ∧ .answered id turn name d ∈ w.log

theorem Approved.later {log : List Act} {id turn : Nat}
    (h : Approved log id turn name) (acts : List Act) : Approved (log ++ acts) id turn name := by
  obtain ⟨d, ha, hd | ⟨ht, id', hd⟩⟩ := h
  · exact ⟨d, ha, Or.inl (mem_append_left _ hd)⟩
  · exact ⟨d, ha, Or.inr ⟨ht, id', mem_append_left _ hd⟩⟩

/-- One more act. -/
theorem Kept.later {log : List Act} (h : Kept safetyOf log) {act : Act}
    (hact : ∀ id turn name conn, act = .database id turn name conn →
      psdpmLocked (safetyOf conn) = false ∧ Approved log id turn name) :
    Kept safetyOf (log ++ [act]) := by
  intro before after id turn name conn e
  rcases eq_nil_or_concat after with rfl | ⟨after, last, rfl⟩
  · obtain ⟨rfl, hlast⟩ := append_inj' e rfl
    exact hact id turn name conn (List.cons.inj hlast).1
  · rw [concat_eq_append, ← cons_append, ← append_assoc] at e
    exact h before after id turn name conn (append_inj' e rfl).1

/-- The invariant with more in the log, and calls that were there. -/
theorem Inv.grows {w w' : World} (h : Inv safetyOf w) {acts : List Act}
    (hlog : w'.log = w.log ++ acts) (hkept : Kept safetyOf w'.log)
    (hcalls : ∀ c ∈ w'.calls, c ∈ w.calls ∨
      (∀ d, c.phase = .decided d → d.approved = true → .answered c.id c.turn c.name d ∈ w'.log) ∧
      ∀ conn, c.phase = .inDatabase conn →
        psdpmLocked (safetyOf conn) = false ∧ Approved w'.log c.id c.turn c.name)
    (hturns : ∀ turn, ∀ name ∈ w'.turnApproved turn, name ∈ w.turnApproved turn ∨
      ∃ id d, d.approved = true ∧ d.applyToTurn = true ∧ .answered id turn name d ∈ w'.log) :
    Inv safetyOf w' where
  kept := hkept
  decided c hc d hd ha := by
    rcases hcalls c hc with hc | ⟨hc, -⟩
    · rw [hlog]
      exact mem_append_left _ (h.decided c hc d hd ha)
    · exact hc d hd ha
  inDatabase c hc conn hp := by
    rcases hcalls c hc with hc | ⟨-, hc⟩
    · rw [hlog]
      exact ⟨(h.inDatabase c hc conn hp).1, (h.inDatabase c hc conn hp).2.later _⟩
    · exact hc conn hp
  turns turn name hn := by
    rcases hturns turn name hn with hn | hn
    · obtain ⟨id, d, h1, h2, h3⟩ := h.turns turn name hn
      exact ⟨id, d, h1, h2, by rw [hlog]; exact mem_append_left _ h3⟩
    · exact hn

/-- What the cache gains is in the log already. -/
theorem mem_addApproved {w : World} (h : Inv safetyOf w) {c : Call} (hc : c ∈ w.calls)
    {d : ApprovalDecision} (hd : c.phase = .decided d) {turn : Nat}
    (hn : name ∈ addApproved w.turnApproved d c.turn c.name turn) :
    name ∈ w.turnApproved turn ∨
      ∃ id d, d.approved = true ∧ d.applyToTurn = true ∧ .answered id turn name d ∈ w.log := by
  rw [addApproved] at hn
  split at hn
  · rename_i hb
    by_cases e : turn = c.turn
    · subst e
      rw [Function.update_self] at hn
      rcases mem_cons.mp hn with rfl | hn
      · exact Or.inr ⟨c.id, d, hb.1, hb.2, h.decided c hc d hd hb.1⟩
      · exact Or.inl hn
    · rw [Function.update_of_ne e] at hn
      exact Or.inl hn
  · exact Or.inl hn

theorem approved_of_decided {w : World} (h : Inv safetyOf w) {c : Call} (hc : c ∈ w.calls)
    {d : ApprovalDecision} (hd : c.phase = .decided d) (ha : d.approved = true) :
    Approved w.log c.id c.turn c.name := ⟨d, ha, Or.inl (h.decided c hc d hd ha)⟩

/-- **One orderly step.** -/
theorem Inv.step {w w' : World} {e : Event} (h : Inv safetyOf w) (hs : Step safetyOf w e w')
    (ho : Orderly safetyOf w e) : Inv safetyOf w' := by
  have hsame : ∀ turn, ∀ name ∈ w.turnApproved turn, name ∈ w.turnApproved turn ∨
      ∃ id d, d.approved = true ∧ d.applyToTurn = true ∧ .answered id turn name d ∈ w'.log :=
    fun _ _ hn => Or.inl hn
  cases hs with
  | session e lock hl => exact ⟨h.kept, h.decided, h.inDatabase, h.turns⟩
  | beginsReturns turn name sql result refusal hb =>
    exact h.grows rfl (h.kept.later nofun) (fun c hc => Or.inl hc) hsame
  | beginsAsks turn name sql refusal hb =>
    refine h.grows rfl (h.kept.later nofun) (fun c hc => ?_) hsame
    rcases mem_append.mp hc with hc | hc
    · exact Or.inl hc
    · rw [mem_singleton.mp hc]
      exact Or.inr ⟨nofun, nofun⟩
  | beginsDatabase turn name sql refusal conn lock hb hcur hl =>
    obtain ⟨hlock, hmem⟩ := begins_database hb
    rw [safety_some hcur] at hlock
    have happ : Approved w.log w.begun turn name := by
      obtain ⟨id, d, h1, h2, h3⟩ := h.turns turn name hmem
      exact ⟨d, h1, Or.inr ⟨h2, id, h3⟩⟩
    refine h.grows rfl (h.kept.later fun id turn' name' conn' e => ?_) (fun c hc => ?_) hsame
    · obtain ⟨rfl, rfl, rfl, rfl⟩ := Act.database.inj e
      exact ⟨hlock, happ⟩
    · rcases mem_append.mp hc with hc | hc
      · exact Or.inl hc
      · rw [mem_singleton.mp hc]
        refine Or.inr ⟨nofun, fun conn' e => ?_⟩
        obtain rfl : conn = conn' := Phase.inDatabase.inj e
        exact ⟨hlock, happ.later _⟩
  | beginsNoSession turn name sql result refusal hb hcur =>
    exact h.grows rfl (h.kept.later nofun) (fun c hc => Or.inl hc) hsame
  | answers cs cs' id turn name sql decision hc =>
    refine h.grows rfl (h.kept.later nofun) (fun c hmem => ?_) hsame
    rcases mem_replaced hmem with rfl | hmem
    · refine Or.inr ⟨fun d e _ => ?_, nofun⟩
      obtain rfl : decision = d := Phase.decided.inj e
      exact mem_append_right _ mem_cons_self
    · exact Or.inl (hc ▸ hmem)
  | answersNobody id decision hc => exact h
  | timesOut cs cs' id turn name sql hc =>
    refine h.grows (append_nil _).symm h.kept (fun c hmem => ?_) hsame
    rcases mem_replaced hmem with rfl | hmem
    · refine Or.inr ⟨fun d e ha => ?_, nofun⟩
      obtain rfl : timedOut = d := Phase.decided.inj e
      cases ha
    · exact Or.inl (hc ▸ hmem)
  | resumesReturns cs cs' id turn name sql result decision refusal hc hr =>
    have hmem : (⟨id, turn, name, sql, .decided decision⟩ : Call) ∈ w.calls := hc ▸ mem_here
    refine h.grows rfl (h.kept.later nofun) (fun c hc' => Or.inl (hc ▸ mem_removed hc'))
      fun turn' name' hn => ?_
    exact (mem_addApproved h hmem rfl hn).imp_right fun ⟨i, d, h1, h2, h3⟩ =>
      ⟨i, d, h1, h2, mem_append_left _ h3⟩
  | resumesDatabase cs cs' id turn name sql decision refusal conn lock hc hr hcur hl =>
    have hmem : (⟨id, turn, name, sql, .decided decision⟩ : Call) ∈ w.calls := hc ▸ mem_here
    obtain ⟨ha, hquery⟩ := resumes_database hr
    have happ := approved_of_decided h hmem rfl ha
    have hlock : psdpmLocked (safetyOf conn) = false := by
      have hsafety : w.safety safetyOf = safetyOf conn := safety_some hcur
      rw [← hsafety]
      by_cases hn : name = .run_query
      · exact hquery hn
      · exact ho _ hmem rfl decision rfl ha hn
    refine h.grows rfl (h.kept.later fun id' turn' name' conn' e => ?_) (fun c hc' => ?_)
      fun turn' name' hn => ?_
    · obtain ⟨rfl, rfl, rfl, rfl⟩ := Act.database.inj e
      exact ⟨hlock, happ⟩
    · rcases mem_replaced hc' with rfl | hc'
      · refine Or.inr ⟨nofun, fun conn' e => ?_⟩
        obtain rfl : conn = conn' := Phase.inDatabase.inj e
        exact ⟨hlock, happ.later _⟩
      · exact Or.inl (hc ▸ hc')
    · exact (mem_addApproved h hmem rfl hn).imp_right fun ⟨i, d, h1, h2, h3⟩ =>
        ⟨i, d, h1, h2, mem_append_left _ h3⟩
  | resumesNoSession cs cs' id turn name sql result decision refusal hc hr hcur =>
    have hmem : (⟨id, turn, name, sql, .decided decision⟩ : Call) ∈ w.calls := hc ▸ mem_here
    refine h.grows rfl (h.kept.later nofun) (fun c hc' => Or.inl (hc ▸ mem_removed hc'))
      fun turn' name' hn => ?_
    exact (mem_addApproved h hmem rfl hn).imp_right fun ⟨i, d, h1, h2, h3⟩ =>
      ⟨i, d, h1, h2, mem_append_left _ h3⟩
  | executes cs cs' id turn name sql conn hc =>
    have hmem : (⟨id, turn, name, sql, .inDatabase conn⟩ : Call) ∈ w.calls := hc ▸ mem_here
    refine h.grows rfl (h.kept.later fun id' turn' name' conn' e => ?_) (fun c hc' => Or.inl hc') hsame
    obtain ⟨rfl, rfl, rfl, rfl⟩ := Act.database.inj e
    exact h.inDatabase _ hmem _ rfl
  | finishes cs cs' id turn name sql result conn lock hc hl =>
    exact h.grows rfl (h.kept.later nofun) (fun c hc' => Or.inl (hc ▸ mem_removed hc')) hsame
  | loses cs cs' id turn name sql result conn lock hc hl =>
    exact h.grows rfl (h.kept.later nofun) (fun c hc' => Or.inl (hc ▸ mem_removed hc')) hsame

theorem inv_start : Inv safetyOf {} where
  kept before _ _ _ _ _ e := absurd e.symm (by simp)
  decided _ hc := absurd hc not_mem_nil
  inDatabase _ hc := absurd hc not_mem_nil
  turns _ _ hn := absurd hn not_mem_nil

/-! ## 7. Every orderly run -/

/-- **No tool on a locked session, and none without approval.** -/
theorem orderly_tools {w : World} (h : OrderlyRun safetyOf w) : Kept safetyOf w.log :=
  (h.inv inv_start fun _ _ _ hi hs ho => hi.step hs ho).kept

/-! ## 8. Single runs -/

/-- Sessions are opened and closed beside the tool calls. -/
theorem run_sessions {allowed : World → Event → Prop} {w : World} {lock : SessionLock.World}
    (h : Runs (Step safetyOf) allowed {} w)
    (hl : Runs SessionLock.Step (fun _ _ => True) w.lock lock)
    (ha : ∀ w e, allowed w (.session e)) : Runs (Step safetyOf) allowed {} { w with lock } := by
  induction hl with
  | start => exact h
  | step l l' e _ hs _ ih => exact Runs.step _ _ _ ih (.session _ e l' hs) (ha _ e)

/-- The first session of a sidecar. -/
def firstLock : SessionLock.World := { currentSession := some 0, opened := 1 }

theorem run_first : Runs SessionLock.Step (fun _ _ => True) {} firstLock :=
  Sidecar.SessionLock.run_opens .start rfl rfl (fun _ => trivial) (fun _ => trivial)
    (fun _ => trivial) fun _ => trivial

/-- A call of `describe_object` that asks the user. -/
theorem run_asks {allowed : World → Event → Prop} (ha : ∀ w e, allowed w (.session e))
    (hb : ∀ w turn name sql refusal, allowed w (.begins turn name sql refusal))
    (h0 : psdpmLocked (safetyOf 0) = false) : Runs (Step safetyOf) allowed {} {
      lock := firstLock
      calls := [⟨0, 0, .describe_object, [], .pending⟩]
      begun := 1
      log := [.asked 0 0 .describe_object] } := by
  have h1 := run_sessions (.start : Runs (Step safetyOf) allowed {} {}) run_first ha
  refine Runs.step _ _ _ h1 (.beginsAsks _ 0 .describe_object [] none ?_) (hb _ _ _ _ _)
  have hsafety : World.safety safetyOf { lock := firstLock } = safetyOf 0 := rfl
  rw [begins, hsafety, h0]
  rfl

theorem orderly_tools_describe : ∃ w : World,
    .database 0 0 .describe_object 0 ∈ w.log ∧ Kept (fun _ => {}) w.log := by
  have h1 := @run_asks (fun _ => {}) (Orderly fun _ => {})
    (fun _ _ => trivial) (fun _ _ _ _ _ => trivial) rfl
  have h2 := Runs.step _ _ _ h1 (.answers _ [] [] 0 0 .describe_object [] ⟨true, false⟩ rfl) trivial
  have h3 := Runs.step _ _ _ h2 (.resumesDatabase _ [] [] 0 0 .describe_object [] ⟨true, false⟩ none
    0 _ rfl rfl rfl (.useStarts _ 0 rfl)) fun _ _ _ _ _ _ _ => rfl
  exact ⟨_, mem_append_right _ mem_cons_self, orderly_tools h3⟩

/-- **A production session is opened while the user is asked**, and the answer goes to it. -/
theorem tool_on_prod : ¬ ∀ safetyOf w, Reachable safetyOf w → Kept safetyOf w.log := by
  intro hall
  let safetyOf : Nat → ConnectionSafety := fun n => if n = 0 then {} else { env := some .prod }
  have h1 := @run_asks safetyOf (fun _ _ => True)
    (fun _ _ => trivial) (fun _ _ _ _ _ => trivial) rfl
  have s1 := Runs.step _ _ _ (.start : Runs SessionLock.Step (fun _ _ => True) firstLock firstLock)
    (.asks _ .openSession) trivial
  have s2 := Runs.step _ _ _ s1 (.startsClosing _ .openSession [] 0 rfl rfl) trivial
  have s3 := Runs.step _ _ _ s2 (.oldClosed _ .openSession [] 0 true rfl) trivial
  have s4 := Runs.step _ _ _ s3 (.built _ .openSession [] rfl) trivial
  have s5 := Runs.step _ _ _ s4 (.booted _ .openSession [] 1 rfl) trivial
  have h2 := run_sessions h1 s5 fun _ _ => trivial
  have h3 := Runs.step _ _ _ h2 (.answers _ [] [] 0 0 .describe_object [] ⟨true, false⟩ rfl) trivial
  have h4 := Runs.step _ _ _ h3 (.resumesDatabase _ [] [] 0 0 .describe_object [] ⟨true, false⟩ none
    1 _ rfl rfl rfl (.useStarts _ 1 rfl)) trivial
  have := (hall safetyOf _ h4 _ [] 0 0 .describe_object 1 rfl).1
  exact absurd this (by decide)

end Veesker.Ai.ToolCalls
