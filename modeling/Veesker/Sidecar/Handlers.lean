/-
  File:      Veesker/Sidecar/Handlers.lean
  Subject:   WHAT EVERY RPC METHOD SENDS TO ORACLE (sidecar/src/index.ts, oracle.ts, debug.ts,
             flow.ts, ords.ts).

  A handler is a `Talk`: it asks Oracle something and goes on with the answer, whatever it is. A
  question (`Sent`) names the connection it goes to -- the session's own, or one of the two the
  debugger opens with the session's parameters -- and says where its text comes from: the caller's
  own SQL, a block that calls the caller's procedure, a statement composed of the caller's names, or
  the sidecar itself.

  `queryExecute` is not here: it is the one method that asks the safety gate first (Machine.lean).
  Methods that only query the dictionary with bound values share one constructor of `Call`, those
  that never talk to the user's database another. Binds and results are left out: neither decides
  what is sent.
-/
import Veesker.Run.Talk
import Veesker.Sidecar.Ords
import Veesker.Safety.Gate
import Veesker.Splitter.SplitSql

namespace Veesker.Sidecar

open Run Safety

/-! ## 1. Questions -/

inductive Connection where
  | session
  /-- the debugger's own connections, built from the session's parameters -/
  | target | debugger
  deriving DecidableEq

inductive What where
  /-- the caller's own SQL text -/
  | statement (sql : Text)
  /-- the caller's own SQL text behind the `GATHER_PLAN_STATISTICS` hint -/
  | hinted (sql : Text)
  /-- a block that calls the procedure the caller names -/
  | call (sql : Text)
  /-- a statement composed of names the caller gives -/
  | composed (sql : Text)
  /-- `EXPLAIN PLAN SET STATEMENT_ID = '…' FOR sql` -/
  | explain (sql : Text)
  /-- the rows of `PLAN_TABLE` that belong to an `explain`, read or deleted again -/
  | planRows
  /-- an ORDS or OAUTH block of the sidecar's, which ends in `COMMIT` -/
  | metadata (sql : Text)
  | commit
  | rollback
  /-- a query of the dictionary, with the caller's values bound -/
  | lookup
  /-- a `DBMS_OUTPUT` block; a drain is one question, however many round trips it takes -/
  | dbmsOutput
  /-- a `DBMS_DEBUG` block -/
  | dbmsDebug
  /-- not to Oracle: a text to the embedding service -/
  | embed (text : Text)
  deriving DecidableEq

structure Sent where
  on : Connection
  what : What
  deriving DecidableEq

/-- What is still to be sent once a session has been looked up again. -/
inductive Later where
  | runtimeStats (sql : Text)
  | ordsApply (sql : Text)
  deriving DecidableEq

abbrev Handler := Talk Sent Answer (Except CallError (List Later))

def finished : Handler := .done (.ok [])

def failed (e : CallError) : Handler := .done (.error e)

/-- An awaited statement; its error ends the call. -/
def query (what : What) (k : List Row → Handler) : Handler :=
  .ask ⟨.session, what⟩ fun
    | .ok rows => k rows
    | .error e => failed (.oracle e)

/-- An awaited statement whose error is caught and dropped. -/
def attempt (on : Connection) (what : What) (k : Handler) : Handler := .ask ⟨on, what⟩ fun _ => k

def orFail {α : Type} (x : Except CallError α) (k : α → Handler) : Handler :=
  match x with
  | .ok a => k a
  | .error e => failed e

/-! ## 2. Names -/

/-- `/^[A-Za-z0-9_$#]{1,128}$/`. -/
def isPlainName (name : Text) : Bool :=
  !name.isEmpty && decide (name.length ≤ 128) && name.all isTableChar

def quoteIdent (name : Text) : Except CallError Text :=
  if isPlainName name then .ok ('"' :: (name ++ ['"'])) else .error (.invalidIdentifier name)

/-- `ORACLE_IDENT_RE`. -/
def isOracleIdent (name : Text) : Bool :=
  name.head?.any Char.isAlpha && decide (name.length ≤ 128) && name.all isTableChar

def INVALID_IDENTIFIER : Int := -32049

/-- `validateOracleIdentifier`: a name in upper case. -/
def validateOracleIdentifier (value label : Text) : Except CallError Unit :=
  if value.head?.any Char.isUpper && decide (value.length ≤ 128) &&
      value.all (fun c => c.isUpper || c.isDigit || c == '_' || c == '$' || c == '#') then .ok ()
  else .error (.coded INVALID_IDENTIFIER ("Invalid ".toList ++ label ++ ": ".toList ++ value))

/-! ## 3. Procedures -/

/-- The call's arguments, by the parameters `ALL_ARGUMENTS` reports. -/
def callArgs : List ProcParam → Except CallError (List Text)
  | [] => .ok []
  | pm :: rest => do
    if isOracleIdent pm.name = false then
      .error (invalidParams ("Invalid parameter name from ALL_ARGUMENTS: ".toList ++ pm.name))
    else
      let args ← callArgs rest
      return (if pm.direction = "IN".toList then [pm.name ++ " => :i_".toList ++ pm.name]
        else if pm.direction = "OUT".toList then [pm.name ++ " => :o_".toList ++ pm.name]
        else if pm.direction = "IN/OUT".toList then [pm.name ++ " => :io_".toList ++ pm.name]
        else []) ++ args

def joinArgs (args : List Text) : Text := List.intercalate ", ".toList args

/-- `BEGIN owner.name(args); END;`, with the two names quoted. -/
def procBlock (owner name : Text) (args : List Text) : Text :=
  "BEGIN ".toList ++ owner ++ ".".toList ++ name ++ "(".toList ++ joinArgs args ++ "); END;".toList

def procDescribe (k : List ProcParam → Handler) : Handler :=
  query .lookup fun rows => k (rows.map procParam)

def procExecute (owner name : Text) : Handler :=
  procDescribe fun params =>
  orFail (callArgs params) fun args =>
  orFail (quoteIdent owner) fun qOwner =>
  orFail (quoteIdent name) fun qName =>
  query .dbmsOutput fun _ =>
  query (.call (procBlock qOwner qName args)) fun _ =>
  attempt .session .dbmsOutput finished

/-! ## 4. The debugger -/

def debugRun (script : Text) : Handler :=
  query .dbmsOutput fun _ =>
  query (.statement script) fun _ =>
  query .dbmsOutput fun _ => finished

/-- A breakpoint is set when `SET_BREAKPOINT` answers 0. -/
def isSet (a : Answer) : Bool :=
  match a with
  | .ok ((some retcode :: _) :: _) => retcode == ['0']
  | _ => false

/-- The user's breakpoints, then `k` with whether one of them could be set. -/
def setBreakpoints : Nat → Bool → (Bool → Handler) → Handler
  | 0, valid, k => k valid
  | n + 1, valid, k => .ask ⟨.debugger, .dbmsDebug⟩ fun a => setBreakpoints n (valid || isSet a) k

/-- `initialize` and `ATTACH_SESSION`. -/
def initializeDebugger (k : Handler) : Handler :=
  .ask ⟨.target, .dbmsDebug⟩ fun
    | .error e => failed (.oracle e)
    | .ok _ => .ask ⟨.debugger, .dbmsDebug⟩ fun
      | .error e => failed (.oracle e)
      | .ok _ => k

def ORACLE_ERR : Int := -32013

/-- What `debug.start` is asked to run and to stop at. -/
structure DebugStartParams where
  script : Text
  owner : Text
  objectName : Text
  objectType : Text
  packageName : Option Text := none
  /-- how many breakpoints of the user's own -/
  breakpoints : Nat := 0
  deriving DecidableEq

/-- The object the entry breakpoint is set in: a package's body, where there is a package. -/
def DebugStartParams.entryTarget (p : DebugStartParams) : Text := p.packageName.getD p.objectName

def DebugStartParams.entryType (p : DebugStartParams) : Text :=
  if p.packageName = none then p.objectType else "PACKAGE BODY".toList

def notCompiledForDebug (p : DebugStartParams) : CallError :=
  .coded ORACLE_ERR (p.entryTarget ++ " is not compiled for debug. Run:\n".toList ++
    "ALTER ".toList ++ p.entryType ++ " ".toList ++ p.owner ++ ".".toList ++ p.entryTarget ++
    " COMPILE DEBUG;\n".toList ++ "Also ensure: GRANT DEBUG CONNECT SESSION TO ".toList ++ p.owner ++
    "; GRANT DEBUG ANY PROCEDURE TO ".toList ++ p.owner ++ ";".toList)

/-- `debugStart`, up to the first pause. -/
def debugStart (p : DebugStartParams) : Handler :=
  initializeDebugger <| setBreakpoints p.breakpoints false fun valid =>
  .ask ⟨.debugger, .dbmsDebug⟩ fun a =>
    if isSet a = false ∧ valid = false then failed (notCompiledForDebug p)
    else .ask ⟨.target, .statement p.script⟩ fun _ => attempt .debugger .dbmsDebug finished

/-- The block the tracer runs; an argument list only where there are arguments. -/
def traceBlock (owner name : Text) (args : List Text) : Text :=
  if args = [] then "BEGIN ".toList ++ owner ++ ".".toList ++ name ++ "; END;".toList
  else procBlock owner name args

/-- The first column of the first row. -/
def firstCell (a : Answer) : Option Text :=
  match a with
  | .ok ((cell :: _) :: _) => cell
  | _ => none

/-- The error of `SET_BREAKPOINT` on a procedure. -/
def breakpointError (owner name : Text) (a : Answer) : CallError :=
  match a with
  | .error e => .oracle e
  | .ok _ =>
    let retcode := (firstCell a).getD []
    if retcode = "16".toList then
      .coded (-32021) ("Object ".toList ++ owner ++ ".".toList ++ name ++ " lacks debug symbols. ".toList ++
        "Recompile with: ALTER PROCEDURE ".toList ++ owner ++ ".".toList ++ name ++ " COMPILE DEBUG;".toList)
    else .coded ORACLE_ERR ("SET_BREAKPOINT failed: retcode=".toList ++ retcode ++
      " (object not compiled for debug?)".toList)

/-- `traceProc`, up to the first step. -/
def traceProc (owner name : Text) : Handler :=
  let ownerUpper := toUpperCase owner
  let nameUpper := toUpperCase name
  orFail (validateOracleIdentifier ownerUpper "owner".toList) fun _ =>
  orFail (validateOracleIdentifier nameUpper "procedure name".toList) fun _ =>
  .ask ⟨.session, .lookup⟩ fun status =>
    if firstCell status = some "INVALID".toList then
      failed (.coded (-32020) ("Procedure ".toList ++ owner ++ ".".toList ++ name ++
        " has compile errors. Click the Compile button to see them and fix before tracing.".toList))
    else attempt .session .lookup <| initializeDebugger <|
      .ask ⟨.debugger, .dbmsDebug⟩ fun a =>
        if isSet a = false then failed (breakpointError ownerUpper nameUpper a)
        else procDescribe fun params =>
          orFail (callArgs params) fun args =>
          .ask ⟨.target, .call (traceBlock ownerUpper nameUpper args)⟩ fun _ =>
          attempt .debugger .dbmsDebug finished

/-! ## 5. Plans -/

/-- `replace(/^\s*--[^\n]*\n?/g, "")`: the line break may be missing. -/
def dropLineComment (s : Text) : Text :=
  if startsWith (trimStart s) "--".toList then ((trimStart s).dropWhile (· != '\n')).drop 1 else s

/-- The start of a statement, as `explainPlan` looks at it. -/
def explainHead (stmt : Text) : Text :=
  toUpperCase ((trim (dropLineComment (stripBlockComment stmt))).take 32)

/-- `/^(CREATE|…|DECLARE)\b/`. -/
def notExplainable : Pattern :=
  .seq (.any (["CREATE".toList, "DROP".toList, "ALTER".toList, "GRANT".toList, "REVOKE".toList,
    "TRUNCATE".toList, "RENAME".toList, "BEGIN".toList, "DECLARE".toList].map Pattern.word)) .wordEdge

/-- The one statement to be explained. -/
def explainable (sql : Text) : Except CallError Text :=
  match (Splitter.splitSql sql).statements.filter (fun s => !(trim s).isEmpty) with
  | [] => .error (invalidParams "EXPLAIN PLAN: no statement".toList)
  | [stmt] =>
    if notExplainable.test (explainHead stmt) then
      .error (invalidParams
        "EXPLAIN PLAN: only SELECT/INSERT/UPDATE/DELETE/MERGE statements allowed".toList)
    else .ok stmt
  | _ => .error (invalidParams "EXPLAIN PLAN: only single-statement queries allowed".toList)

/-- What a failed `EXPLAIN PLAN` becomes: ORA-00904 is an old `PLAN_TABLE`. -/
def explainError (e : OracleError) : CallError :=
  if e.errorNum = some 904 then
    .oracle { e with message := ("EXPLAIN PLAN failed: your schema has a stale PLAN_TABLE missing ".toList ++
      "required columns (FILTER_PREDICATES). Fix: DROP TABLE plan_table; — or safer: ".toList ++
      "RENAME plan_table TO plan_table_legacy;".toList) }
  else .oracle e

/-- `explainPlan`: the plan's rows are deleted again, whether they could be read or not; then `k`. -/
def explainPlan (sql : Text) (k : Handler) : Handler :=
  orFail (explainable sql) fun stmt =>
  .ask ⟨.session, .explain stmt⟩ fun
    | .error e => failed (explainError e)
    | .ok _ => .ask ⟨.session, .planRows⟩ fun
      | .ok _ => query .planRows fun _ => k
      | .error e =>
        if e.errorNum = some 904 then
          -- the predicate columns are missing: read again without them
          .ask ⟨.session, .planRows⟩ fun
            | .ok _ => query .planRows fun _ => k
            | .error e => attempt .session .planRows (failed (.oracle e))
        else attempt .session .planRows (failed (.oracle e))

/-- `explainPlanFlow`: the runtime statistics look the session up again. -/
def explainPlanFlow (sql : Text) (withRuntimeStats : Bool) : Handler :=
  explainPlan sql (.done (.ok (if withRuntimeStats then [.runtimeStats sql] else [])))

/-- The statement that is run for a hinted text. -/
def statsText (sql : Text) : Text := "/*+ GATHER_PLAN_STATISTICS */ ".toList ++ sql

/-- `gatherRuntimeStats`, whose errors the caller drops. -/
def gatherRuntimeStats (sql : Text) : Handler :=
  query (.hinted sql) fun _ => query .lookup fun rows =>
    if rows = [] then finished else query .lookup fun _ => finished

/-! ## 6. Vectors and embeddings -/

def showInt (n : Int) : Text := (toString n).toList

/-- The metric, where it is one of the three. -/
def checkedMetric (metric : Text) : Text :=
  if ["COSINE".toList, "EUCLIDEAN".toList, "DOT".toList].contains metric then metric
  else "COSINE".toList

structure VectorIndexParams where
  owner : Text
  tableName : Text
  columnName : Text
  indexName : Text
  metric : Text
  /-- rounded -/
  accuracy : Int
  indexType : Text
  deriving DecidableEq

def createIndexText (qIdx qOwner qTable qCol : Text) (p : VectorIndexParams) : Text :=
  "CREATE VECTOR INDEX ".toList ++ qIdx ++ " ON ".toList ++ qOwner ++ ".".toList ++ qTable ++ "(".toList ++
    qCol ++ ")\n       ORGANIZATION ".toList ++
    (if p.indexType = "ivf".toList then "NEIGHBOR PARTITIONS".toList else "INMEMORY NEIGHBOR GRAPH".toList) ++
    "\n       DISTANCE ".toList ++ checkedMetric p.metric ++
    "\n       WITH TARGET ACCURACY ".toList ++ showInt (min 100 (max 50 p.accuracy))

def vectorCreateIndex (p : VectorIndexParams) : Handler :=
  orFail (quoteIdent p.owner) fun qOwner =>
  orFail (quoteIdent p.tableName) fun qTable =>
  orFail (quoteIdent p.columnName) fun qCol =>
  orFail (quoteIdent p.indexName) fun qIdx =>
  query (.composed (createIndexText qIdx qOwner qTable qCol p)) fun _ =>
  query .commit fun _ => finished

def dropIndexText (qIdx : Text) : Text := "DROP INDEX ".toList ++ qIdx

def vectorDropIndex (owner indexName : Text) : Handler :=
  orFail (quoteIdent owner) fun _ =>
  orFail (quoteIdent indexName) fun qIdx =>
  query (.composed (dropIndexText qIdx)) fun _ =>
  query .commit fun _ => finished

structure VectorSearchParams where
  owner : Text
  tableName : Text
  columnName : Text
  distanceMetric : Text
  limit : Int
  withVectors : Bool := false
  deriving DecidableEq

/-- The columns to show, quoted; `t.ROWID` where there is none. -/
def columnList (dataCols : List Text) : Except CallError Text := do
  let quoted ← dataCols.mapM fun c => do return "t.".toList ++ (← quoteIdent c)
  return if quoted = [] then "t.ROWID".toList else joinArgs quoted

def searchText (p : VectorSearchParams) (colList qOwner qTable qCol : Text) : Text :=
  let distance := "VECTOR_DISTANCE(t.".toList ++ qCol ++ ", TO_VECTOR(:vecStr), ".toList ++
    checkedMetric p.distanceMetric ++ ")".toList
  "\n      SELECT ".toList ++ colList ++ ",\n             ".toList ++ distance ++ " AS VD_SCORE".toList ++
    (if p.withVectors then ", FROM_VECTOR(t.".toList ++ qCol ++ " RETURNING CLOB) AS VEC_STR__".toList
      else []) ++
    "\n        FROM ".toList ++ qOwner ++ ".".toList ++ qTable ++ " t\n       WHERE t.".toList ++ qCol ++
    " IS NOT NULL\n       ORDER BY ".toList ++ distance ++ "\n       FETCH FIRST ".toList ++
    showInt (min 100 (max 1 p.limit)) ++ " ROWS ONLY".toList

/-- `vector.search`: the text is embedded first. -/
def vectorSearch (text : Text) (p : VectorSearchParams) : Handler :=
  query (.embed text) fun _ => query .lookup fun rows =>
  orFail (columnList (rows.filterMap fun row => row.head?.join)) fun colList =>
  orFail (quoteIdent p.owner) fun qOwner =>
  orFail (quoteIdent p.tableName) fun qTable =>
  orFail (quoteIdent p.columnName) fun qCol =>
  query (.composed (searchText p colList qOwner qTable qCol)) fun _ => finished

def pendingText (qOwner qTable qVec : Text) : Text :=
  "SELECT COUNT(*) AS total,\n              COUNT(CASE WHEN ".toList ++ qVec ++
    " IS NULL THEN 1 END) AS pending\n         FROM ".toList ++ qOwner ++ ".".toList ++ qTable

def embedCountPending (owner tableName vectorColumn : Text) : Handler :=
  orFail (quoteIdent owner) fun qOwner =>
  orFail (quoteIdent tableName) fun qTable =>
  orFail (quoteIdent vectorColumn) fun qVec =>
  query (.composed (pendingText qOwner qTable qVec)) fun _ => finished

structure EmbedBatchParams where
  owner : Text
  tableName : Text
  textColumn : Text
  vectorColumn : Text
  batchSize : Option Int := none
  deriving DecidableEq

/-- The rows still to be embedded. -/
def batchText (qOwner qTable qText qVec : Text) (batchSize : Option Int) : Text :=
  "SELECT ROWIDTOCHAR(ROWID) AS ROWID_CHAR, ".toList ++ qText ++ "\n         FROM ".toList ++ qOwner ++
    ".".toList ++ qTable ++ "\n        WHERE ".toList ++ qVec ++ " IS NULL\n        FETCH FIRST ".toList ++
    showInt (min (max 1 (batchSize.getD 20)) 200) ++ " ROWS ONLY".toList

def updateText (qOwner qTable qVec : Text) : Text :=
  "UPDATE ".toList ++ qOwner ++ ".".toList ++ qTable ++ " SET ".toList ++ qVec ++
    " = TO_VECTOR(:v) WHERE ROWID = CHARTOROWID(:rowid)".toList

/-- The loop over the rows: each is embedded and updated; an error is counted and the loop goes
    on. What was embedded is committed, if anything was. -/
def embedRows (update : Text) : List Text → Nat → Handler
  | [], embedded => if 0 < embedded then query .commit fun _ => finished else finished
  | text :: rest, embedded =>
    .ask ⟨.session, .embed text⟩ fun
      | .error _ => embedRows update rest embedded
      | .ok _ => .ask ⟨.session, .composed update⟩ fun
        | .error _ => embedRows update rest embedded
        | .ok _ => embedRows update rest (embedded + 1)

def PSDPM_EMBED_ERROR : CallError :=
  .coded PSDPM_BLOCKED ("PSDPM mode active — embed.batch issues background UPDATEs and is blocked. ".toList ++
    "Disable PSDPM to run vector embedding.".toList)

/-- `embed.batch`, with the check of the method's own in index.ts. -/
def embedBatch (safety : ConnectionSafety) (p : EmbedBatchParams) : Handler :=
  if safety.psdpm then failed PSDPM_EMBED_ERROR
  else
    orFail (quoteIdent p.owner) fun qOwner =>
    orFail (quoteIdent p.tableName) fun qTable =>
    orFail (quoteIdent p.textColumn) fun qText =>
    orFail (quoteIdent p.vectorColumn) fun qVec =>
    query (.composed (batchText qOwner qTable qText qVec p.batchSize)) fun rows =>
    embedRows (updateText qOwner qTable qVec) (rows.map fun row => (row[1]?.join).getD []) 0

/-! ## 7. Counting rows -/

def countText (qName : Text) (fromWhere : Option Text) : Text :=
  "SELECT COUNT(*) AS n FROM ".toList ++ qName ++ (fromWhere.map fun w => ' ' :: w).getD []

def rowsText (qOwner qName : Text) : Text :=
  "SELECT COUNT(*) FROM ".toList ++ qOwner ++ ".".toList ++ qName

def tableCountRows (owner name : Text) : Handler :=
  orFail (quoteIdent owner) fun qOwner =>
  orFail (quoteIdent name) fun qName =>
  query (.composed (rowsText qOwner qName)) fun _ => finished

/-- `/^kw/i`: a pattern without the `u` flag folds ASCII letters only onto ASCII letters. -/
def startsWithI (kw s : Text) : Bool := (s.take kw.length).map Char.toUpper == kw

/-- A keyword and the white space behind it are taken off the start. -/
def afterKeyword (kw s : Text) : Option Text :=
  if startsWithI kw s then
    let r := s.drop kw.length
    if r.head?.any isSpace then some (trimStart r) else none
  else none

/-- `/[A-Za-z0-9_$#"]+/`, and what follows it. -/
def takeTable (s : Text) : Option (Text × Text) :=
  let name := s.takeWhile fun c => isTableChar c || c == '"'
  if name = [] then none else some (name, s.drop name.length)

/-- `/\bWHERE\b.+/is`: the text from the first such word on. -/
def fromWhere : Option Char → Text → Option Text
  | _, [] => none
  | prev, c :: cs =>
    if prev.any isWordChar = false ∧ startsWithI "WHERE".toList (c :: cs) ∧
        (c :: cs)[5]?.any (fun d => !isWordChar d) then some (c :: cs)
    else fromWhere (some c) cs

/-- A table's name, and the rest of the statement behind it. -/
def previewTarget (normalized : Text) : Option (Text × Text) :=
  let upper := toUpperCase normalized
  if startsWith upper "MERGE".toList then none
  else if startsWith upper "TRUNCATE".toList then do
    let r ← afterKeyword "TRUNCATE".toList normalized
    let t ← ((afterKeyword "TABLE".toList r).bind takeTable).or (takeTable r)
    return (t.1, [])
  else if startsWith upper "DELETE".toList then do
    let r ← afterKeyword "DELETE".toList normalized
    let t ← ((afterKeyword "FROM".toList r).bind takeTable).or (takeTable r)
    return (t.1, trim t.2)
  else if startsWith upper "UPDATE".toList then do
    let r ← afterKeyword "UPDATE".toList normalized
    let t ← takeTable r
    if t.2.head?.any isSpace = false then none
    let s := trimStart t.2
    if startsWithI "SET".toList s ∧ s[3]?.any (fun d => !isWordChar d) then
      return (t.1, s.drop 3)
    else none
  else none

/-- `dmlPreview`: how many rows the statement's own `WHERE` selects. -/
def dmlPreview (sql : Text) : Handler :=
  match previewTarget (collapse (trim sql)) with
  | none => finished
  | some (table, rest) =>
    orFail (quoteIdent table) fun qName =>
    attempt .session (.composed (countText qName (fromWhere none rest))) finished

/-! ## 8. ORDS -/

/-- An error that says the ORDS packages are out of reach. -/
def isOrdsNotAccessible (e : OracleError) : Bool :=
  includes e.message "ORA-00942".toList || includes e.message "ORA-04043".toList ||
    includes e.message "PLS-00201".toList

def enableSchemaText : Text := "BEGIN ORDS.ENABLE_SCHEMA(p_enabled => TRUE); COMMIT; END;".toList

def ordsEnableSchema : Handler :=
  .ask ⟨.session, .metadata enableSchemaText⟩ fun
    | .ok _ => finished
    | .error e => if includes e.message "ORA-20000".toList then finished else failed (.oracle e)

/-- The second half of `ordsApply`. -/
def ordsExecute (sql : Text) : Handler :=
  .ask ⟨.session, .metadata sql⟩ fun
    | .ok _ => finished
    | .error e =>
      if isOrdsNotAccessible e then failed (.coded (-32014)
        ("ORDS package not accessible. Enable the schema for ORDS first (Bootstrap ORDS).".toList))
      else failed (.oracle e)

/-- `ordsApply`: where the parameters have to be looked up first, the session is looked up again. -/
def ordsApply (params : OrdsParams) : Handler :=
  orFail (ordsGenerateSql params) fun
    | .ready sql => ordsExecute sql
    | .describe _ _ finish => procDescribe fun procParams =>
      orFail (finish procParams) fun sql => .done (.ok [.ordsApply sql])

/-- `ords.generate_sql` executes nothing of what it generates. -/
def ordsGenerate (params : OrdsParams) : Handler :=
  orFail (ordsGenerateSql params) fun
    | .ready _ => finished
    | .describe _ _ finish => procDescribe fun procParams => orFail (finish procParams) fun _ => finished

def createClientText : Text :=
  ("BEGIN\n    OAUTH.CREATE_CLIENT(\n      p_name            => :name,\n" ++
    "      p_grant_type      => 'client_credentials',\n      p_owner           => USER,\n" ++
    "      p_description     => :description,\n      p_support_email   => NULL,\n" ++
    "      p_privilege_names => NULL);\n    COMMIT;\n  END;").toList

/-- One `GRANT_CLIENT_ROLE` for each role, in one block. -/
def grantRolesText (roles : Nat) : Text :=
  "BEGIN\n".toList ++ joinLines ((List.range roles).map fun i =>
    "  OAUTH.GRANT_CLIENT_ROLE(p_client_name => :n, p_role_name => :r".toList ++ (toString i).toList ++
      ");".toList) ++ "\n  COMMIT;\nEND;".toList

/-- `ordsClientsCreate`, by how many roles the client is given. -/
def ordsClientsCreate (roles : Nat) : Handler :=
  .ask ⟨.session, .metadata createClientText⟩ fun
    | .error e =>
      if isOrdsNotAccessible e then failed (.coded (-32014)
        ("ORDS/OAUTH packages not accessible to this schema. Enable the schema for ORDS via the ".toList ++
          "Bootstrap modal.".toList))
      else failed (.oracle e)
    | .ok _ =>
      let credentials := query .lookup fun _ => finished
      if 0 < roles then query (.metadata (grantRolesText roles)) fun _ => credentials else credentials

def revokeClientText : Text := "BEGIN OAUTH.DELETE_CLIENT(p_name => :n); COMMIT; END;".toList

def ordsClientsRevoke : Handler := query (.metadata revokeClientText) fun _ => finished

/-! ## 9. The methods -/

/-- **A request**, by its method: every method of the dispatcher but `query.execute`, the ones that
    open and close the session and the ones that open and close windows. -/
inductive Call where
  /-- `schema.list`, `objects.list`, `table.describe`, `compile.errors`, `object.ddl`,
      `objects.list.plsql`, `object.dataflow`, `vision.graph`, `table.related`, `objects.search`,
      `schema.kind_counts`, `vector.tables_in_schema`, `vector.index_list`, `proc.describe`,
      `connection.txState`, `oracle.session_self`, `ords.detect`, `ords.modules.list`,
      `ords.module.get`, `ords.module.export_sql`, `ords.roles.list`, `ords.clients.list`,
      `debug.open`, `debug.get_source`, `perf.stats`: that many dictionary queries -/
  | lookups (count : Nat)
  /-- `oracle.session_dbms_output_enable`, `session.setAction` -/
  | sessionBlock
  /-- `debug.stop`, `debug.step_into` and its like, the breakpoints and values of a running debugger:
      that many `DBMS_DEBUG` blocks -/
  | debugger (blocks : Nat)
  /-- the methods that never talk to the user's database: `query.cancel`, `driver.mode`, `ping`,
      `chart.*`, `ai.*` (the dispatcher starts the chat without its tools), `connection.test` and
      `sandbox.*`, which have connections of their own -/
  | elsewhere
  | tableCountRows (owner name : Text)
  | connectionCommit
  | connectionRollback
  | vectorSearch (text : Text) (p : VectorSearchParams)
  | vectorCreateIndex (p : VectorIndexParams)
  | vectorDropIndex (owner indexName : Text)
  | embedCountPending (owner tableName vectorColumn : Text)
  | embedBatch (p : EmbedBatchParams)
  | explainPlan (sql : Text)
  | procExecute (owner name : Text)
  | ordsEnableSchema
  | ordsGenerateSql (params : OrdsParams)
  | ordsApply (params : OrdsParams)
  | ordsClientsCreate (roles : Nat)
  | ordsClientsRevoke
  | debugStart (p : DebugStartParams)
  | debugRun (script : Text)
  | traceProc (owner name : Text)
  | traceSql (sql : Text) (withRuntimeStats : Bool)
  | dmlPreview (sql : Text)
  deriving DecidableEq

/-- That many questions of a kind, up to the first that fails. -/
def repeated (q : Sent) : Nat → Handler
  | 0 => finished
  | n + 1 => .ask q fun
    | .ok _ => repeated q n
    | .error e => failed (.oracle e)

/-- **What a request sends.** -/
def handler (safety : ConnectionSafety) : Call → Handler
  | .lookups count => repeated ⟨.session, .lookup⟩ count
  | .sessionBlock => attempt .session .dbmsOutput finished
  | .debugger blocks => repeated ⟨.debugger, .dbmsDebug⟩ blocks
  | .elsewhere => finished
  | .tableCountRows owner name => tableCountRows owner name
  | .connectionCommit => query .commit fun _ => finished
  | .connectionRollback => query .rollback fun _ => finished
  | .vectorSearch text p => vectorSearch text p
  | .vectorCreateIndex p => vectorCreateIndex p
  | .vectorDropIndex owner indexName => vectorDropIndex owner indexName
  | .embedCountPending owner tableName vectorColumn => embedCountPending owner tableName vectorColumn
  | .embedBatch p => embedBatch safety p
  | .explainPlan sql => explainPlan sql finished
  | .procExecute owner name => procExecute owner name
  | .ordsEnableSchema => ordsEnableSchema
  | .ordsGenerateSql params => ordsGenerate params
  | .ordsApply params => ordsApply params
  | .ordsClientsCreate roles => ordsClientsCreate roles
  | .ordsClientsRevoke => ordsClientsRevoke
  | .debugStart p => debugStart p
  | .debugRun script => debugRun script
  | .traceProc owner name => traceProc owner name
  | .traceSql sql withRuntimeStats => explainPlanFlow sql withRuntimeStats
  | .dmlPreview sql => dmlPreview sql

/-- What is sent when its turn comes. -/
def laterHandler : Later → Handler
  | .runtimeStats sql => gatherRuntimeStats sql
  | .ordsApply sql => ordsExecute sql

end Veesker.Sidecar
