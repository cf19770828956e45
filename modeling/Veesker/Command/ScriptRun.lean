/-
  File:      Veesker/Command/ScriptRun.lean
  Subject:   SCRIPTS THAT CALL SCRIPTS (src/lib/command/executor.ts `executeScript`), whatever the
             files hold and however the calls on the host end.

  * `Ran` -- what a stretch of a run has executed, with the depth left as it was and never more than
    `d` scripts opened in between;
  * `executeScript_runs` -- a script runs to its end, and executes a run of the depth-first reading;
  * **`executeScript_bounded`** -- the whole statement, with the reading itself where nothing fails;
  * **`exit_stops_iff`** -- EXIT is the end of every run if and only if nothing stands behind it in
    the reading.
-/
import Veesker.Command.Executor
import Veesker.Run.Calls

namespace Veesker.Command

open Run List

/-! ## 1. Readings -/

def Happening.change : Happening → Int
  | .opens _ => 1
  | .closes => -1
  | _ => 0

/-- What a script executes. -/
inductive ScriptCommand where
  | directive (name : Directive) (args : List Text)
  | sql (text : Text)
  | plsql (text : Text)
  deriving DecidableEq

/-- The script that a command calls. -/
def ScriptCommand.script : ScriptCommand → Option Text
  | .directive .start args => some (args.headD [])
  | _ => none

/-- A directive of a script, or the call that runs a statement of it. -/
def Happening.command : Happening → Option ScriptCommand
  | .directive name args => some (.directive name args)
  | .runSql text .script => some (.sql text)
  | .runPlsql text .script => some (.plsql text)
  | _ => none

def executedOf (t : Trace) : List ScriptCommand := t.filterMap Happening.command

def Parsed.command : Parsed → Option ScriptCommand
  | .directive name args _ => some (.directive name args)
  | .sql text _ => some (.sql text)
  | .plsql text _ => some (.plsql text)
  | _ => none

def commandsOf (evs : List ScriptParseEvent) : List ScriptCommand :=
  evs.filterMap fun ev => ev.parsed.command

/-- The commands of a file; one without a name cannot be read. -/
def scripts (files : Text → Option Text) (path : Text) : Option (List ScriptCommand) :=
  if path = [] then none else (files path).map fun raw => commandsOf (parseScript raw)

/-- The commands of a script and of those that it calls, `n` deep, in the order of the calls. -/
abbrev depthFirst (files : Text → Option Text) (n : Nat) (path : Text) : List ScriptCommand :=
  reading ScriptCommand.script (scripts files) n path

/-- A run of that reading. -/
abbrev Follows (files : Text → Option Text) (n : Nat) (path : Text) (l : List ScriptCommand) :
    Prop :=
  Reads ScriptCommand.script (scripts files) n path l

/-- A run of a list of commands. -/
abbrev Walked (files : Text → Option Text) (n : Nat) (cs l : List ScriptCommand) : Prop :=
  Walks ScriptCommand.script (Follows files n) cs l

/-- The host reads these files, where a read succeeds. -/
def Host.ReadsOnly (host : Host) (files : Text → Option Text) : Prop :=
  ∀ trace path raw, host.readCommandScript trace path = .ok raw → files path = some raw

/-- Every file is read, and no call throws. -/
structure Host.Calm (host : Host) (files : Text → Option Text) : Prop where
  reads : ∀ trace path raw, files path = some raw → host.readCommandScript trace path = .ok raw
  runSql : ∀ trace sql origin message, host.runSql trace sql origin ≠ .throws message
  runPlsql : ∀ trace plsql origin message, host.runPlsql trace plsql origin ≠ .throws message
  onExit : ∀ trace code, host.onExit trace code = none

/-! ## 2. A stretch of a run -/

/-- From `s` to `s'` the commands `l` are executed, in at most `d` scripts opened in between. -/
structure Ran (d : Nat) (s s' : Session) (l : List ScriptCommand) : Prop where
  depth : s'.state.scriptDepth = s.state.scriptDepth
  trace : ∃ added, s'.trace = s.trace ++ added ∧ executedOf added = l ∧
    NestsTo Happening.change d added

namespace Ran

variable {d : Nat} {s s' s'' : Session} {l l' : List ScriptCommand}

theorem refl (d : Nat) (s : Session) : Ran d s s [] :=
  ⟨rfl, [], (append_nil _).symm, rfl, .nil _ d⟩

theorem trans (h : Ran d s s' l) (h' : Ran d s' s'' l') : Ran d s s'' (l ++ l') := by
  obtain ⟨hdepth, added, htrace, hl, hnest⟩ := h
  obtain ⟨hdepth', added', htrace', hl', hnest'⟩ := h'
  refine ⟨hdepth'.trans hdepth, added ++ added', ?_, ?_, hnest.append hnest'⟩
  · rw [htrace', htrace, append_assoc]
  · rw [executedOf, filterMap_append]
    exact congrArg₂ (· ++ ·) hl hl'

/-- What executes nothing, before or behind. -/
theorem quiet (h : Ran d s s' l) (h' : Ran d s' s'' []) : Ran d s s'' l := by
  have hboth := h.trans h'
  rwa [append_nil] at hboth

/-- A change of the state that leaves the depth alone. -/
theorem same (hdepth : s'.state.scriptDepth = s.state.scriptDepth) (htrace : s'.trace = s.trace) :
    Ran d s s' [] :=
  ⟨hdepth, [], htrace.trans (append_nil _).symm, rfl, .nil _ d⟩

theorem push (d : Nat) (s : Session) (e : TranscriptEntry) : Ran d s (s.push e) [] :=
  same (s.state.appendTranscript_scriptDepth e) rfl

theorem setBusy (d : Nat) (s : Session) (busy : Bool) : Ran d s (s.setBusy busy) [] := same rfl rfl

theorem handle {f : CommandModeState → List Text → CommandModeState}
    (hf : CommandModeState.KeepsDepth f) (d : Nat) (s : Session) (args : List Text) :
    Ran d s (s.handle f args) [] := same (hf s.state args) rfl

/-- A call on the host, or a command. -/
theorem log {h : Happening} (hh : h.change = 0) (d : Nat) (s : Session) :
    Ran d s (s.log h) (executedOf [h]) :=
  ⟨rfl, [h], rfl, rfl, .single hh d⟩

end Ran

section Host

variable (host : Host) (d : Nat)

theorem appendHistorySafe_ran (command : Text) (origin : Origin) (ok : Bool)
    (durationMs : Option Nat) (s : Session) :
    Ran d s (appendHistorySafe host command origin ok durationMs s) [] := by
  have hlog : Ran d s (s.log (.appendHistory command origin ok durationMs)) [] := .log rfl d s
  simp only [appendHistorySafe]
  cases host.appendCommandHistory s.trace command origin ok durationMs with
  | error _ => exact hlog
  | ok id => exact hlog.quiet (.same (CommandModeState.appendHistory_scriptDepth _ _) rfl)

theorem pushDbmsOutput_ran (lines : List Text) (s : Session) :
    Ran d s (pushDbmsOutput lines s) [] := by
  unfold pushDbmsOutput
  split
  · exact .refl d s
  · exact .push d s _

theorem runExec_ran (call : Happening) (hcall : call.change = 0) (reply : RunReply)
    (entry : CommandSettings → SharedExecResult → TranscriptEntry) (text : Text)
    (origin : Origin) (s : Session) :
    Ran d s (runExec host call reply entry text origin s).1 (executedOf [call]) ∧
      ((∀ message, reply ≠ .throws message) →
        (runExec host call reply entry text origin s).2 = none) := by
  have hlog : Ran d s ((s.setBusy true).log call) (executedOf [call]) :=
    (Ran.setBusy d s true).trans (.log hcall d _)
  cases reply with
  | ok data =>
    refine ⟨?_, fun _ => rfl⟩
    exact (((hlog.quiet (.push d _ _)).quiet (pushDbmsOutput_ran d _ _)).quiet
      (appendHistorySafe_ran host d _ _ _ _ _)).quiet (.setBusy d _ false)
  | error code message =>
    refine ⟨?_, fun _ => rfl⟩
    exact ((hlog.quiet (.push d _ _)).quiet (appendHistorySafe_ran host d _ _ _ _ _)).quiet
      (.setBusy d _ false)
  | throws message =>
    refine ⟨?_, fun h => absurd rfl (h message)⟩
    exact hlog.quiet (.setBusy d _ false)

theorem noted_ran (raw : Text) (origin : Origin) (ok : Bool) {s s' : Session} (h : Ran d s s' []) :
    Ran d s (noted host raw origin ok s').1 [] :=
  h.quiet (appendHistorySafe_ran host d raw origin ok none s')

theorem handleShowErrors_ran (args : List Text) (s : Session) :
    Ran d s (handleShowErrors host args s).1 [] ∧
      ((∀ trace sql origin message, host.runSql trace sql origin ≠ .throws message) →
        (handleShowErrors host args s).2 = none) := by
  simp only [handleShowErrors]
  generalize showErrorsQuery _ args = query
  have hlog : Ran d s (s.log (.runSql query.1 .userTyped)) [] := .log rfl d s
  cases hreply : host.runSql s.trace query.1 .userTyped with
  | ok data =>
    by_cases hrows : data.rows = []
    · simp only [hrows, if_true]
      exact ⟨hlog.quiet (.push d _ _), fun _ => trivial⟩
    · simp only [hrows, if_false]
      exact ⟨hlog.quiet (.push d _ _), fun _ => trivial⟩
  | error code message => exact ⟨hlog.quiet (.push d _ _), fun _ => rfl⟩
  | throws message => exact ⟨hlog, fun h => absurd hreply (h _ _ _ message)⟩

theorem handleShow_ran (args : List Text) (s : Session) :
    Ran d s (handleShow host args s).1 [] ∧
      ((∀ trace sql origin message, host.runSql trace sql origin ≠ .throws message) →
        (handleShow host args s).2 = none) := by
  cases args with
  | nil => exact ⟨.push d s _, fun _ => rfl⟩
  | cons arg rest =>
    simp only [handleShow]
    split
    · exact handleShowErrors_ran host d rest s
    · split
      · exact ⟨.push d s _, fun _ => rfl⟩
      · split
        · exact ⟨.push d s _, fun _ => rfl⟩
        · exact ⟨.push d s _, fun _ => rfl⟩

theorem clearHistory_ran (s : Session) : Ran d s (clearHistory host s) [] := by
  have hlog : Ran d s (s.log .clearHistory) [] := .log rfl d s
  simp only [clearHistory]
  cases host.clearInaccessibleHistory s.trace with
  | ok deleted => exact hlog.quiet (.push d _ _)
  | error message => exact hlog.quiet (.push d _ _)

/-- A directive that calls no script executes nothing more. -/
theorem runDirective_ran (files : Text → Option Text)
    (start : Text → Session → Option Session) {name : Directive} (hname : name ≠ .start)
    (args : List Text) (raw : Text) (origin : Origin) (s : Session) :
    ∃ r, runDirective host start name args raw origin s = some r ∧ Ran d s r.1 [] ∧
      (host.Calm files → r.2 = none) := by
  cases name with
  | start => exact absurd rfl hname
  | set =>
    exact ⟨_, rfl,
      noted_ran host d raw origin true (.handle CommandModeState.handleSet_keeps d s args),
      fun _ => rfl⟩
  | define =>
    exact ⟨_, rfl,
      noted_ran host d raw origin true (.handle CommandModeState.handleDefine_keeps d s args),
      fun _ => rfl⟩
  | undefine =>
    exact ⟨_, rfl,
      noted_ran host d raw origin true (.handle CommandModeState.handleUndefine_keeps d s args),
      fun _ => rfl⟩
  | spool =>
    exact ⟨_, rfl,
      noted_ran host d raw origin true (.handle CommandModeState.handleSpool_keeps d s args),
      fun _ => rfl⟩
  | show_ =>
    obtain ⟨hran, hcalm⟩ := handleShow_ran host d args s
    simp only [runDirective]
    generalize handleShow host args s = r at hran hcalm
    obtain ⟨s', thrown⟩ := r
    cases thrown with
    | none => exact ⟨_, rfl, noted_ran host d raw origin true hran, fun _ => rfl⟩
    | some message => exact ⟨_, rfl, hran, fun h => hcalm h.runSql⟩
  | clear =>
    simp only [runDirective]
    split
    · exact ⟨_, rfl, noted_ran host d raw origin true (clearHistory_ran host d s),
        fun _ => rfl⟩
    · exact ⟨_, rfl,
        noted_ran host d raw origin true (.handle CommandModeState.handleClear_keeps d s args),
        fun _ => rfl⟩
  | exit =>
    refine ⟨_, rfl, ?_, fun h => h.onExit _ _⟩
    have hpush := noted_ran host d raw origin true (.push d s
      (.info "Disconnected from Oracle\n".toList))
    exact hpush.quiet (.log rfl d _)
  | column => exact ⟨_, rfl, noted_ran host d raw origin true (.push d s _), fun _ => rfl⟩
  | accept => exact ⟨_, rfl, noted_ran host d raw origin true (.push d s _), fun _ => rfl⟩
  | prompt => exact ⟨_, rfl, noted_ran host d raw origin true (.push d s _), fun _ => rfl⟩
  | connect => exact ⟨_, rfl, noted_ran host d raw origin false (.push d s _), fun _ => rfl⟩
  | disconnect => exact ⟨_, rfl, noted_ran host d raw origin false (.push d s _), fun _ => rfl⟩
  | host => exact ⟨_, rfl, noted_ran host d raw origin false (.push d s _), fun _ => rfl⟩
  | edit => exact ⟨_, rfl, noted_ran host d raw origin true (.push d s _), fun _ => rfl⟩
  | whenever => exact ⟨_, rfl, noted_ran host d raw origin true (.push d s _), fun _ => rfl⟩

end Host

/-! ## 3. Runs of a script -/

/-- What a run of a script below is known to do, at the depth `k` it is called at. -/
def Runs (host : Host) (files : Text → Option Text) (d k n : Nat)
    (start : Text → Session → Option Session) : Prop :=
  ∀ path s, s.state.scriptDepth = k → ∃ s' l, start path s = some s' ∧ Ran d s s' l ∧
    Follows files n path l ∧
    (host.Calm files → l = depthFirst files n path)

/-- The commands of a list, and of the scripts that they call. -/
abbrev readingOf (files : Text → Option Text) (n : Nat) (cs : List ScriptCommand) :
    List ScriptCommand :=
  cs.flatMap fun c => c :: c.script.elim [] (depthFirst files n)

section Runs

variable {host : Host} {files : Text → Option Text} {d k n : Nat}
  {start : Text → Session → Option Session} {s : Session}

/-- One command, with the script that it calls. -/
theorem dispatch_runs (hstart : Runs host files d k n start) {parsed : Parsed} {c : ScriptCommand}
    (hc : parsed.command = some c) (hk : s.state.scriptDepth = k) :
    ∃ r l, dispatch host start parsed .script s = some r ∧ Ran d s r.1 (c :: l) ∧
      (∀ cs m, Walked files n cs m →
        Walked files n (c :: cs) (c :: (l ++ m))) ∧
      (host.Calm files →
        r.2 = none ∧ l = c.script.elim [] (depthFirst files n)) := by
  cases parsed with
  | blank => cases hc
  | comment _ => cases hc
  | incomplete _ => cases hc
  | error _ _ _ => cases hc
  | sql text terminator =>
    cases hc
    obtain ⟨hran, hcalm⟩ := runExec_ran host d (.runSql text .script) rfl
      (host.runSql s.trace text .script)
      (fun settings data =>
        .sqlResult (host.sqlText settings text data) data.rowCount data.elapsedMs) text .script s
    refine ⟨_, [], rfl, hran, fun cs m h => .command rfl h, fun h => ⟨?_, rfl⟩⟩
    exact hcalm (fun message => h.runSql _ _ _ message)
  | plsql text terminator =>
    cases hc
    obtain ⟨hran, hcalm⟩ := runExec_ran host d (.runPlsql text .script) rfl
      (host.runPlsql s.trace text .script)
      (fun _ data =>
        .plsqlResult "PL/SQL procedure successfully completed.\n".toList data.elapsedMs)
      text .script s
    refine ⟨_, [], rfl, hran, fun cs m h => .command rfl h, fun h => ⟨?_, rfl⟩⟩
    exact hcalm (fun message => h.runPlsql _ _ _ message)
  | directive name args raw =>
    cases hc
    have hlog : Ran d s (s.log (.directive name args)) [.directive name args] := .log rfl d s
    by_cases hname : name = .start
    · subst hname
      obtain ⟨s', l, hs', hran, hreads, hfull⟩ :=
        hstart (args.headD []) (s.log (.directive .start args)) hk
      refine ⟨(s', none), l, ?_, hlog.trans hran, fun cs m h => .call rfl hreads h,
        fun h => ⟨rfl, hfull h⟩⟩
      simp only [dispatch, runDirective, hs', Option.map_some]
    · obtain ⟨r, hr, hran, hcalm⟩ := runDirective_ran host d files start hname args raw .script
        (s.log (.directive name args))
      have hnone : (ScriptCommand.directive name args).script = none := by
        cases name <;> first | rfl | exact absurd rfl hname
      refine ⟨r, [], hr, hlog.trans hran, fun cs m h => .command hnone h,
        fun h => ⟨hcalm h, ?_⟩⟩
      rw [hnone]
      rfl

/-- The echo of a command, where it is on. -/
def echoed (ev : ScriptParseEvent) (s : Session) : Session :=
  if s.state.settings.echo then s.push (.echo (ev.rawLine ++ ['\n'])) else s

theorem echoed_ran (d : Nat) (ev : ScriptParseEvent) (s : Session) : Ran d s (echoed ev s) [] := by
  unfold echoed
  split
  · exact .push d s _
  · exact .refl d s

/-- The rest of a script, where nothing was thrown. -/
def goOn (rest : Session → Option Ended) : Option Ended → Option Ended
  | none => none
  | some (s, some message) => some (s, some message)
  | some (s, none) => rest s

/-- An event with a command: the echo, the command, the rest. -/
theorem runEvents_command (start : Text → Session → Option Session) {ev : ScriptParseEvent}
    {c : ScriptCommand} (hc : ev.parsed.command = some c) (evs : List ScriptParseEvent)
    (s : Session) :
    runEvents host start (ev :: evs) s =
      goOn (runEvents host start evs) (dispatch host start ev.parsed .script (echoed ev s)) := by
  have hgoOn : ∀ (rest : Session → Option Ended) (r : Option Ended),
      (match r with
        | none => none
        | some (s, some message) => some (s, some message)
        | some (s, none) => rest s) = goOn rest r := by
    intro rest r
    rcases r with _ | ⟨s, _ | message⟩
    · rfl
    · rfl
    · rfl
  rw [runEvents]
  cases hparsed : ev.parsed with
  | blank | comment | error | incomplete =>
    rw [hparsed] at hc
    cases hc
  | sql text terminator => exact hgoOn _ _
  | plsql text terminator => exact hgoOn _ _
  | directive name args raw => exact hgoOn _ _

/-- Any other event executes nothing. -/
theorem runEvents_other (d : Nat) {ev : ScriptParseEvent} (hc : ev.parsed.command = none)
    (evs : List ScriptParseEvent) (s : Session) :
    ∃ s', Ran d s s' [] ∧
      ∀ start, runEvents host start (ev :: evs) s = runEvents host start evs s' := by
  cases hparsed : ev.parsed with
  | blank =>
    refine ⟨s, .refl d s, fun start => ?_⟩
    rw [runEvents, hparsed]
  | comment raw =>
    refine ⟨s, .refl d s, fun start => ?_⟩
    rw [runEvents, hparsed]
  | error code message raw =>
    refine ⟨_, .push d s (.error code message), fun start => ?_⟩
    rw [runEvents, hparsed]
  | incomplete text =>
    refine ⟨_, echoed_ran d ev s, fun start => ?_⟩
    rw [runEvents, hparsed]
    rfl
  | sql | plsql | directive =>
    rw [hparsed] at hc
    cases hc

/-- The loop over a script's events. -/
theorem runEvents_runs (hstart : Runs host files d k n start) (evs : List ScriptParseEvent)
    (hk : s.state.scriptDepth = k) :
    ∃ r l, runEvents host start evs s = some r ∧ Ran d s r.1 l ∧
      Walked files n (commandsOf evs) l ∧
      (host.Calm files → r.2 = none ∧ l = readingOf files n (commandsOf evs)) := by
  induction evs generalizing s with
  | nil => exact ⟨_, [], rfl, .refl d s, .stop [], fun _ => ⟨rfl, rfl⟩⟩
  | cons ev evs ih =>
    cases hc : ev.parsed.command with
    | none =>
      have hskip : commandsOf (ev :: evs) = commandsOf evs := by
        rw [commandsOf, filterMap_cons, hc]
        rfl
      obtain ⟨s', hother, heq⟩ := runEvents_other d hc evs s
      obtain ⟨r, l, hrun, hran, hrest⟩ := ih (hother.depth.trans hk)
      rw [heq, hskip]
      exact ⟨r, l, hrun, hother.trans hran, hrest⟩
    | some c =>
      have htake : commandsOf (ev :: evs) = c :: commandsOf evs := by
        rw [commandsOf, filterMap_cons, hc]
        rfl
      have hecho := echoed_ran d ev s
      obtain ⟨⟨s₂, thrown⟩, l, hdispatch, hran, hwalk, hcalm⟩ :=
        dispatch_runs hstart hc (hecho.depth.trans hk)
      have hboth : Ran d s s₂ (c :: l) := hecho.trans hran
      rw [runEvents_command start hc, htake, hdispatch]
      cases thrown with
      | some message =>
        refine ⟨_, c :: l, rfl, hboth, ?_, fun h => absurd (hcalm h).1 (by simp)⟩
        have hstop := hwalk (commandsOf evs) [] (.stop _)
        rwa [append_nil] at hstop
      | none =>
        obtain ⟨r, m, hrun, hran', hwalk', hcalm'⟩ := ih (hboth.depth.trans hk)
        refine ⟨r, (c :: l) ++ m, hrun, hboth.trans hran', hwalk _ _ hwalk', fun h => ?_⟩
        obtain ⟨hnone, hm⟩ := hcalm' h
        refine ⟨hnone, ?_⟩
        rw [hm, (hcalm h).2]
        rfl

/-- A script is closed as it was opened. -/
theorem closeScript_ran {path : Text} {r : Ended} {l : List ScriptCommand}
    (h : Ran d ((s.setDepth (s.state.scriptDepth + 1)).log (.opens path)) r.1 l) :
    Ran (d + 1) s (closeScript r) l := by
  obtain ⟨hdepth, added, htrace, hl, hnest⟩ := h
  have hopened : ((s.setDepth (s.state.scriptDepth + 1)).log (.opens path)).state.scriptDepth =
      s.state.scriptDepth + 1 := rfl
  rw [hopened] at hdepth
  obtain ⟨s', thrown⟩ := r
  have hclosed : ∀ s₁ : Session, s₁.state.scriptDepth = s'.state.scriptDepth →
      s₁.trace = s'.trace →
      Ran (d + 1) s ((s₁.setDepth (s₁.state.scriptDepth - 1)).log .closes) l := by
    intro s₁ hdepth₁ htrace₁
    refine ⟨?_, .opens path :: (added ++ [.closes]), ?_, ?_, hnest.inside rfl rfl⟩
    · change s₁.state.scriptDepth - 1 = s.state.scriptDepth
      rw [hdepth₁, hdepth, Nat.add_sub_cancel]
    · change s₁.trace ++ [.closes] = _
      rw [htrace₁, htrace]
      change s.trace ++ [.opens path] ++ added ++ [.closes] = _
      simp only [append_assoc, cons_append, nil_append]
    · rw [← hl, executedOf, executedOf, filterMap_cons, filterMap_append]
      exact append_nil _
  cases thrown with
  | none => exact hclosed s' rfl rfl
  | some message => exact hclosed _ (CommandModeState.appendTranscript_scriptDepth _ _) rfl

/-- The body of a script that was opened. -/
theorem loadAndRun_runs (hreads : host.ReadsOnly files) (hstart : Runs host files d k n start)
    {path : Text} (hpath : path ≠ []) (hk : s.state.scriptDepth = k) :
    ∃ r l, loadAndRun host start path s = some r ∧ Ran d s r.1 l ∧
      Follows files (n + 1) path l ∧
      (host.Calm files → l = depthFirst files (n + 1) path) := by
  have hlog : Ran d s (s.log (.read path)) [] := .log rfl d s
  simp only [loadAndRun]
  cases hread : host.readCommandScript s.trace path with
  | error message =>
    refine ⟨_, [], rfl, hlog, .inl rfl, fun h => ?_⟩
    have hnone : files path = none := by
      cases hfile : files path with
      | none => rfl
      | some raw =>
        rw [h.reads s.trace path raw hfile] at hread
        cases hread
    rw [depthFirst, reading, scripts, if_neg hpath, hnone]
    rfl
  | ok raw =>
    have hbody : scripts files path = some (commandsOf (parseScript raw)) := by
      rw [scripts, if_neg hpath, hreads _ _ _ hread]
      rfl
    have hpush : Ran d s ((s.log (.read path)).push (.info ("Loading script: ".toList ++ path ++
        " (".toList ++ Vsk.natText (splitLines raw).length ++ " lines)\n".toList))) [] :=
      hlog.quiet (.push d _ _)
    obtain ⟨r, l, hrun, hran, hwalk, hcalm⟩ :=
      runEvents_runs hstart (parseScript raw) (hpush.depth.trans hk)
    refine ⟨r, l, hrun, hpush.trans hran, .inr ⟨_, hbody, hwalk⟩, fun h => ?_⟩
    rw [depthFirst, reading, hbody]
    exact (hcalm h).2

/-- **A script runs to its end**, and executes a run of the depth-first reading. -/
theorem executeScript_runs (hreads : host.ReadsOnly files) {n k : Nat} (hn : 5 - k < n) :
    Runs host files (5 - k) k (5 - k) (executeScript host n) := by
  induction n generalizing k with
  | zero => cases hn
  | succ n ih =>
    intro path s hk
    rw [executeScript]
    by_cases hpath : path = []
    · subst hpath
      rw [if_pos rfl]
      refine ⟨_, [], rfl, .push _ s _, ?_, fun _ => ?_⟩
      · cases 5 - k with
        | zero => rfl
        | succ m => exact .inl rfl
      · cases 5 - k <;> rfl
    · rw [if_neg hpath]
      by_cases hdeep : 5 ≤ s.state.scriptDepth
      · rw [if_pos hdeep, show 5 - k = 0 by omega]
        exact ⟨_, [], rfl, .push _ s _, rfl, fun _ => rfl⟩
      · rw [if_neg hdeep, show 5 - k = 5 - (k + 1) + 1 by omega]
        have hopened :
            ((s.setDepth (s.state.scriptDepth + 1)).log (.opens path)).state.scriptDepth =
              k + 1 := congrArg (· + 1) hk
        obtain ⟨r, l, hrun, hran, hread, hcalm⟩ :=
          loadAndRun_runs hreads (ih (k := k + 1) (by omega)) hpath hopened
        exact ⟨closeScript r, l, congrArg (Option.map closeScript) hrun, closeScript_ran hran,
          hread, hcalm⟩

/-! ## 4. How deep it may call itself -/

theorem dispatch_congr {start' : Text → Session → Option Session}
    (h : ∀ path s, s.state.scriptDepth = k → start path s = start' path s) (parsed : Parsed)
    (hk : s.state.scriptDepth = k) :
    dispatch host start parsed .script s = dispatch host start' parsed .script s := by
  cases parsed with
  | directive name args raw =>
    cases name with
    | start => exact congrArg (Option.map (·, none)) (h (args.headD []) _ hk)
    | _ => rfl
  | _ => rfl

theorem runEvents_congr (hstart : Runs host files d k n start)
    {start' : Text → Session → Option Session}
    (h : ∀ path s, s.state.scriptDepth = k → start path s = start' path s)
    (evs : List ScriptParseEvent) (hk : s.state.scriptDepth = k) :
    runEvents host start evs s = runEvents host start' evs s := by
  induction evs generalizing s with
  | nil => rfl
  | cons ev evs ih =>
    cases hc : ev.parsed.command with
    | none =>
      obtain ⟨s', hother, heq⟩ := runEvents_other d hc evs s
      rw [heq, heq]
      exact ih (hother.depth.trans hk)
    | some c =>
      have hecho : (echoed ev s).state.scriptDepth = k := (echoed_ran d ev s).depth.trans hk
      obtain ⟨⟨s₂, thrown⟩, l, hdispatch, hran, -⟩ := dispatch_runs hstart hc hecho
      rw [runEvents_command start hc, runEvents_command start' hc,
        ← dispatch_congr h ev.parsed hecho, hdispatch]
      cases thrown with
      | some message => rfl
      | none => exact ih (hran.depth.trans hecho)

/-- The limit of the source comes first: more depth changes nothing. -/
theorem executeScript_deeper (hreads : host.ReadsOnly files) {n m k : Nat} (hn : 5 - k < n)
    (hm : 5 - k < m) (path : Text) (hk : s.state.scriptDepth = k) :
    executeScript host n path s = executeScript host m path s := by
  induction n generalizing m k path s with
  | zero => cases hn
  | succ n ih =>
    cases m with
    | zero => cases hm
    | succ m =>
      rw [executeScript, executeScript]
      split
      · rfl
      · split
        · rfl
        · rename_i hshallow
          have hn' : 5 - (k + 1) < n := by omega
          have hm' : 5 - (k + 1) < m := by omega
          have hbody : loadAndRun host (executeScript host n) path
              ((s.setDepth (s.state.scriptDepth + 1)).log (.opens path)) =
              loadAndRun host (executeScript host m) path
                ((s.setDepth (s.state.scriptDepth + 1)).log (.opens path)) := by
            simp only [loadAndRun]
            split
            · rfl
            · refine runEvents_congr (executeScript_runs hreads hn')
                (fun path s hs => ih hn' hm' path hs) _ ?_
              refine (CommandModeState.appendTranscript_scriptDepth _ _).trans ?_
              exact congrArg (· + 1) hk
          exact congrArg (Option.map closeScript) hbody

end Runs

/-! ## 5. The whole run -/

/-- **A script comes to its end**, never more than five deep and with the depth as it was; what it
has executed follows the depth-first reading, and is all of it where nothing fails. -/
theorem executeScript_bounded {host : Host} {files : Text → Option Text}
    (hreads : host.ReadsOnly files) (path : Text) (s : Session) :
    ∃ s' added, (∀ n, 5 < n → executeScript host n path s = some s') ∧
      s'.trace = s.trace ++ added ∧
      s'.state.scriptDepth = s.state.scriptDepth ∧
      (∀ p, p <+: added → level Happening.change p ≤ ↑(5 - s.state.scriptDepth)) ∧
      Follows files (5 - s.state.scriptDepth) path (executedOf added) ∧
      (executedOf added).Sublist (depthFirst files (5 - s.state.scriptDepth) path) ∧
      (host.Calm files → executedOf added = depthFirst files (5 - s.state.scriptDepth) path) := by
  obtain ⟨s', l, hrun, ⟨hdepth, added, htrace, rfl, hnest⟩, hread, hcalm⟩ :=
    executeScript_runs hreads (show 5 - s.state.scriptDepth < 6 by omega) path s rfl
  refine ⟨s', added, ?_, htrace, hdepth, hnest.bound, hread, hread.sublist, hcalm⟩
  intro n hn
  rw [← hrun]
  exact executeScript_deeper hreads (by omega) (by omega) path rfl

/-! ## 6. Two scripts that call each other -/

/-- A host on which every file is read and nothing throws. -/
def calmHost (files : Text → Option Text) : Host where
  readCommandScript := fun _ path => match files path with
    | some raw => .ok raw
    | none => .error "The system cannot find the file specified.".toList
  runSql := fun _ _ _ => .ok {}
  runPlsql := fun _ _ _ => .ok {}
  appendCommandHistory := fun trace _ _ _ _ => .ok trace.length
  clearInaccessibleHistory := fun _ => .ok 0
  onExit := fun _ _ => none
  now := List.length
  sqlText := fun _ _ _ => []

theorem calmHost_reads (files : Text → Option Text) : (calmHost files).ReadsOnly files := by
  intro trace path raw h
  cases hfile : files path with
  | none =>
    simp only [calmHost, hfile] at h
    cases h
  | some raw' =>
    simp only [calmHost, hfile] at h
    cases h
    rfl

theorem calmHost_calm (files : Text → Option Text) : (calmHost files).Calm files := by
  refine ⟨?_, ?_, ?_, ?_⟩
  · intro trace path raw h
    simp only [calmHost, h]
  · intro trace sql origin message h
    cases h
  · intro trace plsql origin message h
    cases h
  · intro trace code
    rfl

def pingPong (path : Text) : Option Text :=
  if path = "a.sql".toList then some "@b.sql\nSELECT 1 FROM dual;\n".toList
  else if path = "b.sql".toList then some "@a.sql\nCOMMIT;\n".toList
  else none

theorem executeScript_bounded_pingPong :
    ∃ s' added, (∀ n, 5 < n → executeScript (calmHost pingPong) n "a.sql".toList {} = some s') ∧
      s'.trace = added ∧ s'.state.scriptDepth = 0 ∧
      (∀ p, p <+: added → level Happening.change p ≤ 5) ∧
      executedOf added =
        [.directive .start ["b.sql".toList], .directive .start ["a.sql".toList],
         .directive .start ["b.sql".toList], .directive .start ["a.sql".toList],
         .directive .start ["b.sql".toList], .sql "SELECT 1 FROM dual".toList,
         .sql "COMMIT".toList, .sql "SELECT 1 FROM dual".toList, .sql "COMMIT".toList,
         .sql "SELECT 1 FROM dual".toList] := by
  obtain ⟨s', added, hrun, htrace, hdepth, hlevel, -, -, hcalm⟩ :=
    executeScript_bounded (calmHost_reads pingPong) "a.sql".toList {}
  refine ⟨s', added, hrun, htrace, hdepth, hlevel, (hcalm (calmHost_calm pingPong)).trans ?_⟩
  decide

/-! ## 7. EXIT -/

/-- EXIT, and QUIT. -/
def ScriptCommand.isExit : ScriptCommand → Prop
  | .directive .exit _ => True
  | _ => False

/-- **EXIT ends every run** of a script, if and only if nothing stands behind an EXIT in the
depth-first reading of the scripts. -/
theorem exit_stops_iff (files : Text → Option Text) (path : Text) (s : Session) :
    (∀ host : Host, host.ReadsOnly files → ∀ s' added, executeScript host 6 path s = some s' →
        s'.trace = s.trace ++ added → NothingBehind ScriptCommand.isExit (executedOf added)) ↔
      NothingBehind ScriptCommand.isExit (depthFirst files (5 - s.state.scriptDepth) path) := by
  constructor
  · intro h
    obtain ⟨s', added, hrun, htrace, -, -, -, -, hcalm⟩ :=
      executeScript_bounded (calmHost_reads files) path s
    rw [← hcalm (calmHost_calm files)]
    exact h _ (calmHost_reads files) s' added (hrun 6 (by decide)) htrace
  · intro h host hreads s' added hrun htrace
    obtain ⟨s₁, added₁, hrun₁, htrace₁, -, -, -, hsub, -⟩ := executeScript_bounded hreads path s
    have hs : s₁ = s' := Option.some.inj ((hrun₁ 6 (by decide)).symm.trans hrun)
    subst hs
    have hadded : added₁ = added := append_cancel_left (htrace₁.symm.trans htrace)
    subst hadded
    exact h.sublist hsub

/-- The line behind EXIT. -/
def deleteBehindExit : Text := "EXIT\nDELETE FROM orders;\n".toList

/-- The DELETE behind EXIT is run. -/
theorem runs_behind_exit :
    (executeScript (calmHost fun _ => some deleteBehindExit) 6 "a.sql".toList {}).map (·.trace) =
        some [.opens "a.sql".toList, .read "a.sql".toList, .directive .exit [],
          .appendHistory "EXIT".toList .script true none, .onExit 0,
          .runSql "DELETE FROM orders".toList .script,
          .appendHistory "DELETE FROM orders".toList .script true (some 0), .closes] ∧
      ¬ ∀ (host : Host) (files : Text → Option Text), host.ReadsOnly files →
        ∀ path s s' added, executeScript host 6 path s = some s' → s'.trace = s.trace ++ added →
          NothingBehind ScriptCommand.isExit (executedOf added) := by
  have hrun : (executeScript (calmHost fun _ => some deleteBehindExit) 6 "a.sql".toList {}).map
      (·.trace) =
        some [.opens "a.sql".toList, .read "a.sql".toList, .directive .exit [],
          .appendHistory "EXIT".toList .script true none, .onExit 0,
          .runSql "DELETE FROM orders".toList .script,
          .appendHistory "DELETE FROM orders".toList .script true (some 0), .closes] := by
    decide
  refine ⟨hrun, ?_⟩
  intro h
  obtain ⟨s', hs', htrace⟩ := Option.map_eq_some_iff.mp hrun
  have hlast := h _ _ (calmHost_reads _) "a.sql".toList {} s' _ hs' htrace []
    (.directive .exit []) [.sql "DELETE FROM orders".toList] rfl trivial
  cases hlast

end Veesker.Command
