/-
  File:      Veesker/Debugger/Store.lean
  Subject:   THE DEBUG STORE (src/lib/stores/debug.svelte.ts) as a machine: its fields, its actions,
             and the actions that await a reply.

  An action runs to its next await; a reply runs it on to the one after. Every RPC is answered by
  its data or by an error; what `stop` is answered the source does not look at. Kept beside the
  fields of the source: which session an action belongs to (a session begins with `run` or
  `startDebug`), and whether a `stop` has completed since.
-/
import Veesker.Debugger.Binds

namespace Veesker.Debugger

open Sandbox (Record)

/-! ## 1. The data -/

structure StackFrame where
  owner : Text
  objectName : Text
  objectType : Text
  line : Int
  deriving DecidableEq

structure VarValue where
  name : Text
  value : Option Text
  deriving DecidableEq

/-- `DebugRunCursor`, a cell by its text. -/
structure DebugRunCursor where
  name : Text
  columns : List (Text × Text)
  rows : List (List (Option Text))
  deriving DecidableEq

structure DebugBreakpointRef where
  owner : Text
  objectName : Text
  objectType : Text
  line : Int
  deriving DecidableEq

inductive DebugStatus where
  | idle | running | paused | completed | error
  deriving DecidableEq

inductive PauseStatus where
  | paused | completed | error
  deriving DecidableEq

structure PauseInfo where
  status : PauseStatus
  frame : Option StackFrame := none
  errorMessage : Option Text := none
  refCursors : List DebugRunCursor := []
  outBinds : Option (Record (Option Text)) := none
  deriving DecidableEq

/-- What `debugRunRpc` answers. -/
structure RunData where
  output : List Text := []
  elapsedMs : Nat := 0
  outBinds : Record (Option Text) := []
  refCursors : List DebugRunCursor := []
  deriving DecidableEq

structure RpcError where
  code : Int
  message : Text
  deriving DecidableEq

def SESSION_LOST : Int := -32011

/-- `editorObject`. -/
structure EditorObject where
  owner : Text
  objectName : Text
  objectType : Text
  deriving DecidableEq

structure Store where
  owner : Text := []
  objectName : Text := []
  objectType : Text := []
  packageName : Option Text := none
  script : Text := []
  bindVars : List BindVar := []
  cursorBindNames : List Text := []
  breakpoints : List DebugBreakpointRef := []
  status : DebugStatus := .idle
  currentFrame : Option StackFrame := none
  callStack : List StackFrame := []
  liveVars : List VarValue := []
  localVars : List VarValue := []
  dbmsOutput : List Text := []
  refCursors : List DebugRunCursor := []
  elapsedMs : Option Nat := none
  errorMessage : Option Text := none
  editorSource : Text := []
  editorObject : Option EditorObject := none
  deriving DecidableEq

/-! ## 2. What is awaited -/

/-- The payload of `debugRunRpc` and, with the rest, of `debugStartRpc`. -/
structure Payload where
  script : Text
  binds : Record (Option Text)
  cursorBinds : List Text
  breakpoints : List DebugBreakpointRef := []
  owner : Text := []
  objectName : Text := []
  objectType : Text := []
  packageName : Option Text := none
  deriving DecidableEq

inductive StepKind where
  | stepInto | stepOver | stepOut | continue_
  deriving DecidableEq

/-- The RPC that an action awaits, and what it has to remember. -/
inductive Wait where
  | run (payload : Payload)
  | start (payload : Payload)
  | step (kind : StepKind)
  /-- `debugGetValuesRpc` of `_applyPauseInfo`. -/
  | values (varNames : List Text) (frame : Option StackFrame)
  | stack (frame : Option StackFrame)
  | source (frame : StackFrame)
  /-- `debugGetValuesRpc` of `_refreshLocalVars`. -/
  | locals (varNames : List Text)
  /-- `debugStopRpc`; `run` goes on behind the `stop` that it calls. -/
  | stop (byRun : Bool)
  deriving DecidableEq

inductive Reply where
  | failed (error : RpcError)
  | ran (data : RunData)
  | paused (info : PauseInfo)
  | values (vars : List VarValue)
  | frames (frames : List StackFrame)
  | source (lines : List Text)
  | stopped
  deriving DecidableEq

/-- Where an action is after a reply: the store, and what it awaits next. -/
abbrev Goes := Store × Option Wait

/-- `Object.entries(outBinds).map(…)`. -/
def outVars (outBinds : Record (Option Text)) : List VarValue :=
  outBinds.map fun e => ⟨e.1, e.2⟩

namespace Store

def payload (s : Store) : Payload :=
  ⟨s.script, buildBindsForExecution s.cursorBindNames s.bindVars, s.cursorBindNames, [], [], [], [],
    none⟩

def startPayload (s : Store) : Payload :=
  ⟨s.script, buildBindsForExecution s.cursorBindNames s.bindVars, s.cursorBindNames, s.breakpoints,
    s.owner, s.objectName, s.objectType, s.packageName⟩

/-! ## 3. The actions up to their first await -/

def run (s : Store) : Store :=
  { s with status := .running, errorMessage := none, dbmsOutput := [], refCursors := [],
           elapsedMs := none }

def startDebug (s : Store) : Store := { s.run with currentFrame := none }

/-! ## 4. Behind an await -/

/-- `stop` behind its RPC. -/
def stopped (s : Store) : Store :=
  { s with status := .idle, currentFrame := none, callStack := [], liveVars := [], localVars := [],
           errorMessage := none }

/-- `_refreshLocalVars`; `identifiers` is `extractPlsqlIdentifiers`. -/
def refreshLocalVars (identifiers : Text → List Text) (s : Store) : Goes :=
  if s.status ≠ .paused then ({ s with localVars := [] }, none)
  else
    let names := identifiers s.editorSource
    if names = [] then ({ s with localVars := [] }, none) else (s, some (.locals names))

/-- `_applyPauseInfo` up to its first await. -/
def applyPauseInfo (s : Store) (info : PauseInfo) : Goes :=
  match info.status with
  | .completed =>
    let s := { s with status := .completed, currentFrame := none, callStack := [] }
    let s := if info.refCursors = [] then s else { s with refCursors := info.refCursors }
    (match info.outBinds with
      | some outBinds => { s with liveVars := outVars outBinds }
      | none => s, none)
  | .error =>
    ({ s with
        status := .error
        errorMessage := some (info.errorMessage.getD "Unknown error".toList)
        callStack := [] }, none)
  | .paused =>
    let s := { s with status := .paused, currentFrame := info.frame }
    let varNames := s.bindVars.map BindVar.name
    (s, some (if varNames = [] then .stack info.frame else .values varNames info.frame))

/-- `_applyPauseInfo` behind the call stack. -/
def openSource (identifiers : Text → List Text) (s : Store) : Option StackFrame → Goes
  | none => s.refreshLocalVars identifiers
  | some f =>
    if s.editorObject.all fun o => f.objectName != o.objectName || f.owner != o.owner then
      (s, some (.source f))
    else s.refreshLocalVars identifiers

/-- The branch of an RPC's error; `stop` is called where the session is lost. -/
def failed (s : Store) (error : RpcError) : Goes :=
  ({ s with errorMessage := some error.message },
    if error.code = SESSION_LOST then some (.stop false) else none)

end Store

/-- **What a reply does** to the action that awaits it; none for a reply of another RPC. -/
def resume (identifiers : Text → List Text) (s : Store) : Wait → Reply → Option Goes
  | .run _, .ran data =>
    some ({ s with
      dbmsOutput := data.output
      refCursors := data.refCursors
      elapsedMs := some data.elapsedMs
      liveVars := outVars data.outBinds
      status := .completed }, none)
  | .run _, .failed error =>
    let s := { s with errorMessage := some error.message }
    if error.code = SESSION_LOST then some (s, some (.stop true))
    else some ({ s with status := .error }, none)
  | .start _, .failed error =>
    if s.status = .idle then some (s, none)
    else some ({ s with status := .error }.failed error)
  | .start _, .paused info =>
    if s.status = .idle then some (s, none) else some (s.applyPauseInfo info)
  | .step _, .failed error => some (s.failed error)
  | .step _, .paused info => some (s.applyPauseInfo info)
  | .values _ frame, .values vars =>
    some ({ s with liveVars := vars }, some (.stack frame))
  | .values _ frame, .failed _ => some (s, some (.stack frame))
  | .stack frame, .frames frames =>
    some ({ s with callStack := frames }.openSource identifiers frame)
  | .stack frame, .failed _ => some (s.openSource identifiers frame)
  | .source f, .source lines =>
    some ({ s with
      editorSource := lines.flatten
      editorObject := some ⟨f.owner, f.objectName, f.objectType⟩ }.refreshLocalVars identifiers)
  | .source _, .failed _ => some (s.refreshLocalVars identifiers)
  | .locals _, .values vars =>
    some ({ s with localVars := vars.filter fun v => v.value.isSome }, none)
  | .locals _, .failed _ => some (s, none)
  | .stop byRun, .stopped | .stop byRun, .failed _ =>
    some (if byRun then { s.stopped with status := .error } else s.stopped, none)
  | _, _ => none

/-! ## 5. The machine -/

/-- An action that awaits, with its session. -/
structure Call where
  session : Nat
  wait : Wait
  deriving DecidableEq

structure World where
  store : Store
  calls : List Call := []
  session : Nat := 0
  /-- A `stop` has completed, and no `run` or `startDebug` was called since. -/
  stopped : Bool := false
  deriving DecidableEq

inductive Event where
  | run
  | startDebug
  | step (kind : StepKind)
  | stop
  /-- The reply to the action at this place. -/
  | reply (i : Nat) (reply : Reply)
  deriving DecidableEq

def Wait.isStop : Wait → Bool
  | .stop _ => true
  | _ => false

def step (identifiers : Text → List Text) (w : World) : Event → Option World
  | .run => some { w with
      store := w.store.run
      calls := w.calls ++ [⟨w.session + 1, .run w.store.payload⟩]
      session := w.session + 1
      stopped := false }
  | .startDebug => some { w with
      store := w.store.startDebug
      calls := w.calls ++ [⟨w.session + 1, .start w.store.startPayload⟩]
      session := w.session + 1
      stopped := false }
  | .step kind => some { w with calls := w.calls ++ [⟨w.session, .step kind⟩] }
  | .stop => some { w with calls := w.calls ++ [⟨w.session, .stop false⟩] }
  | .reply i reply =>
    w.calls[i]?.bind fun c => (resume identifiers w.store c.wait reply).map fun next =>
      { w with
        store := next.1
        calls := w.calls.eraseIdx i ++ (next.2.map fun wait => ⟨c.session, wait⟩).toList
        stopped := w.stopped || c.wait.isStop }

end Veesker.Debugger
