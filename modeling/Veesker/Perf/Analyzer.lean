/-
  File:      Veesker/Perf/Analyzer.lean
  Subject:   THE PERFORMANCE ANALYZER (src/lib/stores/perf-analyzer.svelte.ts) as a machine: its
             variables, its functions, and the analyses whose replies are awaited.

  The rules of lib/perf/perf-rules.ts that the store calls are a parameter, but for `classifyCost`.
  One event is one piece of code between two awaits; it carries the clock where the code reads it.
  `fired` and `replies` are kept beside the source's variables: the text of the last call of `fire`,
  and what has been replied.
-/
import Veesker.Safety.SqlKind
import Veesker.Text.Upper

namespace Veesker.Perf

open Safety

/-! ## 1. Plans and statistics -/

structure ExplainNode where
  id : Int
  parentId : Option Int
  operation : Text
  options : Option Text
  objectName : Option Text
  objectOwner : Option Text
  cost : Option Int
  cardinality : Option Int
  bytes : Option Int
  accessPredicates : Option Text
  filterPredicates : Option Text
  deriving DecidableEq

structure PerfTableIndex where
  name : Text
  columns : List Text
  unique : Bool
  status : Text
  deriving DecidableEq

structure PerfTableStats where
  owner : Text
  name : Text
  numRows : Option Int
  lastAnalyzed : Option Text
  blocks : Option Int
  indexes : List PerfTableIndex
  deriving DecidableEq

inductive Severity where
  | critical | warn | info
  deriving DecidableEq

structure FlagContext where
  table : Option Text := none
  column : Option Text := none
  operation : Option Text := none
  cost : Option Int := none
  deriving DecidableEq

structure RedFlag where
  id : Text
  severity : Severity
  message : Text
  suggestion : Option Text := none
  line : Option Int := none
  context : FlagContext
  deriving DecidableEq

structure StaleStat where
  table : Text
  lastAnalyzed : Option Text
  ageDays : Option Int
  deriving DecidableEq

inductive CostClass where
  | green | yellow | red | unknown
  deriving DecidableEq

def HIGH_COST_THRESHOLD : Int := 100000

def classifyCost : Option Int → CostClass
  | none => .unknown
  | some cost =>
    if cost < 1000 then .green else if cost < HIGH_COST_THRESHOLD then .yellow else .red

/-- What a plan and the statistics tell, at a time. -/
structure PerfRules where
  detectRedFlags : List ExplainNode → List PerfTableStats → Text → Int → List RedFlag
  detectStaleStats : List PerfTableStats → Int → List StaleStat

/-! ## 2. Which texts are analysed -/

/-- Behind one match of `--[^\n]*\n|\/\*[\s\S]*?\*\/`. -/
def afterComment : Text → Option Text
  | '-' :: '-' :: s => match s.dropWhile (· != '\n') with
    | _ :: r => some r
    | [] => none
  | '/' :: '*' :: s => afterBlockEnd s
  | _ => none

/-- `s.replace(/^(?:--[^\n]*\n|\/\*[\s\S]*?\*\/)+/, "")`; a comment has a character at least. -/
def dropComments : Nat → Text → Text
  | 0, s => s
  | n + 1, s => (afterComment s).elim s (dropComments n)

inductive SkipReason where
  | ddl | plsql | empty | disabled | sessionBusy
  deriving DecidableEq

/-- `/^(first|second|…)\b/`. -/
def leadingWord (ws : List Text) : Pattern := .all [.any (ws.map .word), .wordEdge]

/-- `isAnalyzableSql`: the reason why it is not. -/
def isAnalyzableSql (sql : Text) : Option SkipReason :=
  let t := trim sql
  let trimmed := trimStart (dropComments t.length t)
  if trimmed = [] then some .empty
  else
    let head := toUpperCase trimmed
    if (leadingWord ["BEGIN".toList, "DECLARE".toList]).test head then some .plsql
    else if createUnitPattern.test head then some .plsql
    else if (leadingWord ["CREATE".toList, "ALTER".toList, "DROP".toList, "TRUNCATE".toList,
        "RENAME".toList, "GRANT".toList, "REVOKE".toList, "COMMENT".toList]).test head then
      some .ddl
    else if !(leadingWord ["SELECT".toList, "WITH".toList, "INSERT".toList, "UPDATE".toList,
        "DELETE".toList, "MERGE".toList, "EXPLAIN".toList]).test head then some .ddl
    else none

/-! ## 3. The state -/

structure Analyzed where
  reqId : Nat
  sql : Text
  plan : List ExplainNode
  stats : List PerfTableStats
  redFlags : List RedFlag
  costClass : CostClass
  staleStats : List StaleStat
  deriving DecidableEq

inductive AnalysisState where
  | idle
  | analyzing (reqId : Nat) (sql : Text)
  | analyzed (result : Analyzed)
  | skipped (reason : SkipReason)
  | error (message : Text) (oraCode : Option Text)
  deriving DecidableEq

structure Cached where
  ts : Int
  result : AnalysisState
  deriving DecidableEq

/-- A `runAnalysis` that awaits its replies; `id` is that of its request and of its controller. -/
structure Call where
  id : Nat
  sql : Text
  /-- `ac.signal.aborted`. -/
  aborted : Bool := false
  deriving DecidableEq

/-- What `explainPlanGet` and `perfStats` have answered to a text, and when. -/
structure Reply where
  sql : Text
  plan : Except (Option Text) (List ExplainNode)
  stats : Option (List PerfTableStats)
  now : Int
  deriving DecidableEq

structure World where
  state : AnalysisState := .idle
  enabled : Bool := true
  sessionBusy : Bool := false
  /-- The text that the timer will fire. -/
  debounceTimer : Option Text := none
  abort : Option Nat := none
  pendingSql : Option Text := none
  /-- In the order of insertion. -/
  cache : List (Text × Cached) := []
  calls : List Call := []
  nextId : Nat := 0
  fired : Option Text := none
  replies : List Reply := []
  deriving DecidableEq

/-! ## 4. The cache -/

def CACHE_MAX : Nat := 64

def CACHE_TTL_MS : Int := 5 * 60 * 1000

/-- `charCodeAt`, one code unit after the other. -/
def charCodes (s : Text) : List Nat :=
  s.flatMap fun c =>
    if c.toNat < 0x10000 then [c.toNat]
    else [0xD800 + (c.toNat - 0x10000) / 0x400, 0xDC00 + (c.toNat - 0x10000) % 0x400]

def hash (s : Text) : BitVec 32 :=
  (charCodes s).foldl (fun h u => (h ^^^ BitVec.ofNat 32 u) * 0x01000193#32) 0x811c9dc5#32

def cacheKey (sql : Text) : Text := Nat.toDigits 16 (hash sql).toNat

/-- `map.set(k, v)`: a key that is there keeps its place. -/
def setCached (cache : List (Text × Cached)) (k : Text) (v : Cached) : List (Text × Cached) :=
  if cache.any (·.1 == k) then cache.map fun e => if e.1 = k then (k, v) else e
  else cache ++ [(k, v)]

def evictExpired (now : Int) (cache : List (Text × Cached)) : List (Text × Cached) :=
  let kept := cache.filter fun e => decide (now - e.2.ts ≤ CACHE_TTL_MS)
  kept.drop (kept.length - CACHE_MAX)

/-! ## 5. The functions -/

/-- The first nine characters where `ORA-\d{5}` matches first. -/
def oraCodeIn : Text → Option Text
  | [] => none
  | c :: s =>
    if startsWith (c :: s) "ORA-".toList ∧ (s.drop 3).length ≥ 5 ∧
        ((s.drop 3).take 5).all Char.isDigit then some ((c :: s).take 9)
    else oraCodeIn s

def extractOraCode (msg : Option Text) : Option Text := msg.bind oraCodeIn

namespace World

/-- `_abort?.abort()`. -/
def abortCurrent (w : World) : World :=
  { w with calls := w.calls.map fun c =>
      if w.abort = some c.id then { c with aborted := true } else c }

/-- `runAnalysis` up to its await. -/
def runAnalysis (w : World) (sql : Text) : World :=
  let reqId := w.nextId
  let w := { w with state := .analyzing reqId sql }.abortCurrent
  { w with abort := some reqId, calls := w.calls ++ [⟨reqId, sql, false⟩], nextId := reqId + 1 }

/-- What the cache serves a text. -/
def cached (w : World) (sql : Text) (now : Int) : Option AnalysisState :=
  ((w.cache.lookup (cacheKey sql)).filter fun c => decide (now - c.ts < CACHE_TTL_MS)).map
    Cached.result

def fire (w : World) (sql : Text) (now : Int) : World :=
  let w := { w with fired := some sql }
  match isAnalyzableSql sql with
  | some .empty => { w with state := .idle }
  | some reason => { w with state := .skipped reason }
  | none =>
    if !w.enabled then { w with state := .skipped .disabled }
    else if w.sessionBusy then { w with state := .skipped .sessionBusy, pendingSql := some sql }
    else match w.cached sql now with
      | some result => { w with state := result }
      | none => w.runAnalysis sql

/-- What an analysis makes of its replies. -/
def analysis (rules : PerfRules) (c : Call) (plan : List ExplainNode)
    (stats : Option (List PerfTableStats)) (now : Int) : Analyzed where
  reqId := c.id
  sql := c.sql
  plan := plan
  stats := stats.getD []
  redFlags := rules.detectRedFlags plan (stats.getD []) c.sql now
  costClass := classifyCost (plan.head?.bind ExplainNode.cost)
  staleStats := rules.detectStaleStats (stats.getD []) now

/-- `runAnalysis` from its await on. -/
def settle (rules : PerfRules) (w : World) (c : Call)
    (plan : Except (Option Text) (List ExplainNode)) (stats : Option (List PerfTableStats))
    (now : Int) : World :=
  if c.aborted then w
  else match plan with
    | .error message =>
      { w with state := .error (message.getD "Unknown error".toList) (extractOraCode message) }
    | .ok nodes =>
      let result := .analyzed (analysis rules c nodes stats now)
      { w with
        cache := evictExpired now (setCached w.cache (cacheKey c.sql) ⟨now, result⟩)
        state := result }

def scheduleAnalysis (w : World) (sql : Text) : World := { w with debounceTimer := some sql }

def setEnabled (w : World) (enabled : Bool) : World :=
  let w := { w with enabled }
  if enabled then w
  else { { w with debounceTimer := none }.abortCurrent with state := .skipped .disabled }

def reset (w : World) : World :=
  { { w with debounceTimer := none }.abortCurrent with
    abort := none, pendingSql := none, cache := [], state := .idle }

end World

/-! ## 6. Events -/

inductive Event where
  | scheduleAnalysis (sql : Text)
  /-- The timer fires. -/
  | debounce (now : Int)
  /-- Both replies of the analysis at this place are there. -/
  | reply (i : Nat) (plan : Except (Option Text) (List ExplainNode))
      (stats : Option (List PerfTableStats)) (now : Int)
  | setEnabled (enabled : Bool)
  | setSessionBusy (busy : Bool) (now : Int)
  | reset
  deriving DecidableEq

/-- The call of `fire` that an event leads to: where, and with which text. -/
def firing (w : World) : Event → Option (World × Text × Int)
  | .debounce now => w.debounceTimer.map fun sql => ({ w with debounceTimer := none }, sql, now)
  | .setSessionBusy false now =>
    w.pendingSql.map fun sql => ({ w with sessionBusy := false, pendingSql := none }, sql, now)
  | _ => none

def step (rules : PerfRules) (w : World) : Event → Option World
  | .scheduleAnalysis sql => some (w.scheduleAnalysis sql)
  | .debounce now => (firing w (.debounce now)).map fun f => f.1.fire f.2.1 f.2.2
  | .reply i plan stats now =>
    w.calls[i]?.map fun c =>
      World.settle rules { w with
        calls := w.calls.eraseIdx i
        replies := w.replies ++ [⟨c.sql, plan, stats, now⟩] } c plan stats now
  | .setEnabled enabled => some (w.setEnabled enabled)
  | .setSessionBusy busy now =>
    match firing w (.setSessionBusy busy now) with
    | some f => some (f.1.fire f.2.1 f.2.2)
    | none => some { w with sessionBusy := busy }
  | .reset => some w.reset

end Veesker.Perf
