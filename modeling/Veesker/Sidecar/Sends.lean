/-
  File:      Veesker/Sidecar/Sends.lean
  Subject:   WHAT A REQUEST CAN COME TO SEND.

  `Sends c q` lists, method by method, the questions a request can come to ask beside the sidecar's
  own (its dictionary queries and its `DBMS_OUTPUT` and `DBMS_DEBUG` blocks). `handler_asks_iff`
  proves the list complete and every entry of it reached: a property that the sidecar's own questions
  have is asked for by the handler exactly when every entry has it. What is said of all methods later
  on is said of this list.
-/
import Veesker.Sidecar.Rpc

namespace Veesker.Sidecar

open Run Safety

/-! ## 1. The list -/

/-- The sidecar's own questions. What is explained is not run. -/
def What.own : What → Bool
  | .explain _ | .planRows | .rollback | .lookup | .dbmsOutput | .dbmsDebug | .embed _ => true
  | .statement _ | .hinted _ | .call _ | .composed _ | .metadata _ | .commit => false

/-- The four names of an index, quoted. -/
structure IndexNames (p : VectorIndexParams) (qOwner qTable qCol qIdx : Text) : Prop where
  owner : quoteIdent p.owner = .ok qOwner
  table : quoteIdent p.tableName = .ok qTable
  column : quoteIdent p.columnName = .ok qCol
  index : quoteIdent p.indexName = .ok qIdx

/-- The four names of an embedding batch, quoted; none without the PSDPM check. -/
structure BatchNames (f : ConnectionSafety) (p : EmbedBatchParams) (qOwner qTable qText qVec : Text) :
    Prop where
  psdpm : f.psdpm = false
  owner : quoteIdent p.owner = .ok qOwner
  table : quoteIdent p.tableName = .ok qTable
  text : quoteIdent p.textColumn = .ok qText
  vector : quoteIdent p.vectorColumn = .ok qVec

/-- **What a request can come to send**, beside the sidecar's own questions. -/
inductive Sends (f : ConnectionSafety) : Call → Sent → Prop where
  | countRows {owner name qOwner qName : Text} (h₁ : quoteIdent owner = .ok qOwner)
      (h₂ : quoteIdent name = .ok qName) :
      Sends f (.tableCountRows owner name) ⟨.session, .composed (rowsText qOwner qName)⟩
  | commit : Sends f .connectionCommit ⟨.session, .commit⟩
  | search {text : Text} {p : VectorSearchParams} {rows : List Row} {colList qOwner qTable qCol : Text}
      (h : columnList (rows.filterMap fun row => row.head?.join) = .ok colList)
      (h₁ : quoteIdent p.owner = .ok qOwner) (h₂ : quoteIdent p.tableName = .ok qTable)
      (h₃ : quoteIdent p.columnName = .ok qCol) :
      Sends f (.vectorSearch text p) ⟨.session, .composed (searchText p colList qOwner qTable qCol)⟩
  | createIndex {p : VectorIndexParams} {qOwner qTable qCol qIdx : Text}
      (h : IndexNames p qOwner qTable qCol qIdx) :
      Sends f (.vectorCreateIndex p) ⟨.session, .composed (createIndexText qIdx qOwner qTable qCol p)⟩
  | createIndexCommit {p : VectorIndexParams} {qOwner qTable qCol qIdx : Text}
      (h : IndexNames p qOwner qTable qCol qIdx) : Sends f (.vectorCreateIndex p) ⟨.session, .commit⟩
  | dropIndex {owner indexName qOwner qIdx : Text} (h₁ : quoteIdent owner = .ok qOwner)
      (h₂ : quoteIdent indexName = .ok qIdx) :
      Sends f (.vectorDropIndex owner indexName) ⟨.session, .composed (dropIndexText qIdx)⟩
  | dropIndexCommit {owner indexName qOwner qIdx : Text} (h₁ : quoteIdent owner = .ok qOwner)
      (h₂ : quoteIdent indexName = .ok qIdx) :
      Sends f (.vectorDropIndex owner indexName) ⟨.session, .commit⟩
  | countPending {owner tableName vectorColumn qOwner qTable qVec : Text}
      (h₁ : quoteIdent owner = .ok qOwner) (h₂ : quoteIdent tableName = .ok qTable)
      (h₃ : quoteIdent vectorColumn = .ok qVec) :
      Sends f (.embedCountPending owner tableName vectorColumn)
        ⟨.session, .composed (pendingText qOwner qTable qVec)⟩
  | embedRead {p : EmbedBatchParams} {qOwner qTable qText qVec : Text}
      (h : BatchNames f p qOwner qTable qText qVec) :
      Sends f (.embedBatch p) ⟨.session, .composed (batchText qOwner qTable qText qVec p.batchSize)⟩
  | embedUpdate {p : EmbedBatchParams} {qOwner qTable qText qVec : Text}
      (h : BatchNames f p qOwner qTable qText qVec) :
      Sends f (.embedBatch p) ⟨.session, .composed (updateText qOwner qTable qVec)⟩
  | embedCommit {p : EmbedBatchParams} {qOwner qTable qText qVec : Text}
      (h : BatchNames f p qOwner qTable qText qVec) : Sends f (.embedBatch p) ⟨.session, .commit⟩
  | procedure {owner name qOwner qName : Text} {rows : List Row} {args : List Text}
      (h : callArgs (rows.map procParam) = .ok args) (h₁ : quoteIdent owner = .ok qOwner)
      (h₂ : quoteIdent name = .ok qName) :
      Sends f (.procExecute owner name) ⟨.session, .call (procBlock qOwner qName args)⟩
  | enableSchema : Sends f .ordsEnableSchema ⟨.session, .metadata enableSchemaText⟩
  | apply {params : OrdsParams} {sql : Text} (h : ordsGenerateSql params = .ok (.ready sql)) :
      Sends f (.ordsApply params) ⟨.session, .metadata sql⟩
  | createClient {roles : Nat} : Sends f (.ordsClientsCreate roles) ⟨.session, .metadata createClientText⟩
  | grantRoles {roles : Nat} (h : 0 < roles) :
      Sends f (.ordsClientsCreate roles) ⟨.session, .metadata (grantRolesText roles)⟩
  | revokeClient : Sends f .ordsClientsRevoke ⟨.session, .metadata revokeClientText⟩
  | start {p : DebugStartParams} : Sends f (.debugStart p) ⟨.target, .statement p.script⟩
  | run {script : Text} : Sends f (.debugRun script) ⟨.session, .statement script⟩
  | trace {owner name : Text} {rows : List Row} {args : List Text}
      (h₁ : (validateOracleIdentifier (toUpperCase owner) []).isOk = true)
      (h₂ : (validateOracleIdentifier (toUpperCase name) []).isOk = true)
      (h : callArgs (rows.map procParam) = .ok args) :
      Sends f (.traceProc owner name)
        ⟨.target, .call (traceBlock (toUpperCase owner) (toUpperCase name) args)⟩
  | preview {sql table rest qName : Text}
      (h : previewTarget (collapse (trim sql)) = some (table, rest)) (h₁ : quoteIdent table = .ok qName) :
      Sends f (.dmlPreview sql) ⟨.session, .composed (countText qName (fromWhere none rest))⟩

/-- A procedure may turn out to have no parameters. -/
theorem no_args : callArgs (([] : List Row).map procParam) = .ok [] := rfl

/-- What a leftover can come to send. -/
inductive SendsLater : Later → Sent → Prop where
  | stats {sql : Text} : SendsLater (.runtimeStats sql) ⟨.session, .hinted sql⟩
  | apply {sql : Text} : SendsLater (.ordsApply sql) ⟨.session, .metadata sql⟩

/-! ## 2. The parts handlers are made of -/

section
variable {P : Sent → Prop}

/-- The sidecar's own questions all have the property. -/
def HasOwn (P : Sent → Prop) : Prop := ∀ on what, What.own what = true → P ⟨on, what⟩

theorem repeated_asks {q : Sent} (h : P q) (n : Nat) : (repeated q n).Asks P := by
  induction n with
  | zero => trivial
  | succ n ih =>
    refine ⟨h, fun a => ?_⟩
    cases a with
    | ok rows => exact ih
    | error e => trivial

/-- The label only goes into the message. -/
theorem validate_ok_iff {value label : Text} {u : Unit} :
    validateOracleIdentifier value label = .ok u ↔
      (validateOracleIdentifier value []).isOk = true := by
  unfold validateOracleIdentifier
  split
  · exact ⟨fun _ => rfl, fun _ => rfl⟩
  · constructor
    · intro h
      cases h
    · intro h
      cases h

theorem initializeDebugger_asks_iff (hown : HasOwn P) {k : Handler} : (initializeDebugger k).Asks P ↔ k.Asks P := by
  constructor
  · intro h
    exact (h.2 (.ok [])).2 (.ok [])
  · intro h
    refine ⟨hown _ _ rfl, fun a => ?_⟩
    cases a with
    | error e => trivial
    | ok rows =>
      refine ⟨hown _ _ rfl, fun a => ?_⟩
      cases a with
      | error e => trivial
      | ok rows => exact h

theorem setBreakpoints_asks (hown : HasOwn P) {k : Bool → Handler} (h : ∀ valid, (k valid).Asks P) (n : Nat)
    (valid : Bool) : (setBreakpoints n valid k).Asks P := by
  induction n generalizing valid with
  | zero => exact h valid
  | succ n ih => exact ⟨hown _ _ rfl, fun a => ih _⟩

/-- The breakpoints are passed. -/
theorem setBreakpoints_asks_after {k : Bool → Handler} {n : Nat} {valid : Bool}
    (h : (setBreakpoints n valid k).Asks P) : ∃ valid', (k valid').Asks P := by
  induction n generalizing valid with
  | zero => exact ⟨valid, h⟩
  | succ n ih => exact ih (h.2 (.ok []))

/-- An explanation asks nothing but what is the sidecar's own. -/
theorem explainPlan_asks (hown : HasOwn P) {sql : Text} {k : Handler} (hk : k.Asks P) :
    (explainPlan sql k).Asks P := by
  have hr : P ⟨.session, .planRows⟩ := hown _ _ rfl
  have hgo : (query .planRows fun _ => k).Asks P := (asks_query _ _).mpr ⟨hr, fun _ => hk⟩
  have hstop (e : OracleError) : (attempt .session .planRows (failed (.oracle e))).Asks P :=
    (asks_attempt _ _ _).mpr ⟨hr, trivial⟩
  refine (asks_orFail _ _).mpr fun stmt _ => ⟨hown _ _ rfl, fun a => ?_⟩
  cases a with
  | error e => trivial
  | ok rows =>
    refine ⟨hr, fun a => ?_⟩
    cases a with
    | ok rows => exact hgo
    | error e =>
      simp only
      split
      · refine ⟨hr, fun a => ?_⟩
        cases a with
        | ok rows => exact hgo
        | error e => exact hstop e
      · exact hstop e

/-! ## 3. The list is complete, and every entry is reached -/

theorem tableCountRows_asks_iff (f : ConnectionSafety) (owner name : Text) :
    (tableCountRows owner name).Asks P ↔ ∀ q, Sends f (.tableCountRows owner name) q → P q := by
  simp only [tableCountRows, asks_orFail, asks_query, asks_finished, implies_true, and_true]
  constructor
  · rintro h q (⟨h₁, h₂⟩ | _)
    exact h _ h₁ _ h₂
  · exact fun h _ h₁ _ h₂ => h _ (.countRows h₁ h₂)

theorem vectorSearch_asks_iff (hown : HasOwn P) (f : ConnectionSafety) (text : Text)
    (p : VectorSearchParams) :
    (vectorSearch text p).Asks P ↔ ∀ q, Sends f (.vectorSearch text p) q → P q := by
  simp only [vectorSearch, asks_orFail, asks_query, asks_finished, implies_true, and_true]
  constructor
  · intro h q hq
    cases hq with
    | search hc h₁ h₂ h₃ => exact (h.2 []).2 _ _ hc _ h₁ _ h₂ _ h₃
  · exact fun h => ⟨hown _ _ rfl, fun _ => ⟨hown _ _ rfl, fun _ _ hc _ h₁ _ h₂ _ h₃ =>
      h _ (.search hc h₁ h₂ h₃)⟩⟩

theorem vectorCreateIndex_asks_iff (f : ConnectionSafety) (p : VectorIndexParams) :
    (vectorCreateIndex p).Asks P ↔ ∀ q, Sends f (.vectorCreateIndex p) q → P q := by
  simp only [vectorCreateIndex, asks_orFail, asks_query, asks_finished, implies_true, and_true]
  constructor
  · intro h q hq
    cases hq with
    | createIndex hn => exact (h _ hn.owner _ hn.table _ hn.column _ hn.index).1
    | createIndexCommit hn => exact (h _ hn.owner _ hn.table _ hn.column _ hn.index).2 []
  · intro h _ h₁ _ h₂ _ h₃ _ h₄
    exact ⟨h _ (.createIndex ⟨h₁, h₂, h₃, h₄⟩), fun _ => h _ (.createIndexCommit ⟨h₁, h₂, h₃, h₄⟩)⟩

theorem vectorDropIndex_asks_iff (f : ConnectionSafety) (owner indexName : Text) :
    (vectorDropIndex owner indexName).Asks P ↔
      ∀ q, Sends f (.vectorDropIndex owner indexName) q → P q := by
  simp only [vectorDropIndex, asks_orFail, asks_query, asks_finished, implies_true, and_true]
  constructor
  · intro h q hq
    cases hq with
    | dropIndex h₁ h₂ => exact (h _ h₁ _ h₂).1
    | dropIndexCommit h₁ h₂ => exact (h _ h₁ _ h₂).2 []
  · intro h _ h₁ _ h₂
    exact ⟨h _ (.dropIndex h₁ h₂), fun _ => h _ (.dropIndexCommit h₁ h₂)⟩

theorem embedCountPending_asks_iff (f : ConnectionSafety) (owner tableName vectorColumn : Text) :
    (embedCountPending owner tableName vectorColumn).Asks P ↔
      ∀ q, Sends f (.embedCountPending owner tableName vectorColumn) q → P q := by
  simp only [embedCountPending, asks_orFail, asks_query, asks_finished, implies_true, and_true]
  constructor
  · intro h q hq
    cases hq with
    | countPending h₁ h₂ h₃ => exact h _ h₁ _ h₂ _ h₃
  · exact fun h _ h₁ _ h₂ _ h₃ => h _ (.countPending h₁ h₂ h₃)

/-- The loop: the update, and a commit where something was embedded. -/
theorem embedRows_asks (hown : HasOwn P) {update : Text} (hu : P ⟨.session, .composed update⟩)
    (hc : P ⟨.session, .commit⟩) (texts : List Text) (embedded : Nat) :
    (embedRows update texts embedded).Asks P := by
  induction texts generalizing embedded with
  | nil =>
    unfold embedRows
    split
    · exact (asks_query _ _).mpr ⟨hc, fun _ => trivial⟩
    · trivial
  | cons text texts ih =>
    refine ⟨hown _ _ rfl, fun a => ?_⟩
    cases a with
    | error e => exact ih embedded
    | ok rows =>
      refine ⟨hu, fun a => ?_⟩
      cases a with
      | error e => exact ih embedded
      | ok rows => exact ih (embedded + 1)

theorem embedBatch_asks_iff (hown : HasOwn P) (f : ConnectionSafety) (p : EmbedBatchParams) :
    (embedBatch f p).Asks P ↔ ∀ q, Sends f (.embedBatch p) q → P q := by
  unfold embedBatch
  by_cases hp : f.psdpm = true
  · rw [if_pos hp]
    refine ⟨fun _ q hq => ?_, fun _ => trivial⟩
    cases hq with
    | embedRead hn | embedUpdate hn | embedCommit hn =>
      rw [hn.psdpm] at hp
      cases hp
  · rw [if_neg hp]
    simp only [asks_orFail, asks_query]
    constructor
    · intro h q hq
      -- one row, embedded and updated
      cases hq with
      | embedRead hn => exact (h _ hn.owner _ hn.table _ hn.text _ hn.vector).1
      | embedUpdate hn =>
        exact ((((h _ hn.owner _ hn.table _ hn.text _ hn.vector).2 [[]]).2 (.ok []))).1
      | embedCommit hn =>
        exact ((((h _ hn.owner _ hn.table _ hn.text _ hn.vector).2 [[]]).2 (.ok [])).2 (.ok [])).1
    · intro h _ h₁ _ h₂ _ h₃ _ h₄
      have hn : BatchNames f p _ _ _ _ := ⟨by simpa using hp, h₁, h₂, h₃, h₄⟩
      exact ⟨h _ (.embedRead hn),
        fun _ => embedRows_asks hown (h _ (.embedUpdate hn)) (h _ (.embedCommit hn)) _ _⟩

theorem procExecute_asks_iff (hown : HasOwn P) (f : ConnectionSafety) (owner name : Text) :
    (procExecute owner name).Asks P ↔ ∀ q, Sends f (.procExecute owner name) q → P q := by
  simp only [procExecute, procDescribe, asks_orFail, asks_query, asks_attempt, asks_finished, and_true]
  constructor
  · intro h q hq
    cases hq with
    | procedure hargs h₁ h₂ => exact ((h.2 _ _ hargs _ h₁ _ h₂).2 []).1
  · exact fun h => ⟨hown _ _ rfl, fun _ _ hargs _ h₁ _ h₂ =>
      ⟨hown _ _ rfl, fun _ => ⟨h _ (.procedure hargs h₁ h₂), fun _ => hown _ _ rfl⟩⟩⟩

theorem debugRun_asks_iff (hown : HasOwn P) (f : ConnectionSafety) (script : Text) :
    (debugRun script).Asks P ↔ ∀ q, Sends f (.debugRun script) q → P q := by
  simp only [debugRun, asks_query, asks_finished, implies_true, and_true]
  constructor
  · intro h q hq
    cases hq with
    | run => exact (h.2 []).1
  · exact fun h => ⟨hown _ _ rfl, fun _ => ⟨h _ .run, fun _ => hown _ _ rfl⟩⟩

/-- The answer that says a breakpoint is set. -/
def breakpointSet : Answer := .ok [[some ['0']]]

theorem debugStart_asks_iff (hown : HasOwn P) (f : ConnectionSafety) (p : DebugStartParams) :
    (debugStart p).Asks P ↔ ∀ q, Sends f (.debugStart p) q → P q := by
  unfold debugStart
  rw [initializeDebugger_asks_iff hown]
  constructor
  · intro h q hq
    cases hq with
    | start =>
      obtain ⟨valid, h'⟩ := setBreakpoints_asks_after h
      have hset := h'.2 breakpointSet
      beta_reduce at hset
      rw [if_neg (by simp [isSet, breakpointSet])] at hset
      exact hset.1
  · intro h
    apply setBreakpoints_asks hown
    intro valid
    refine ⟨hown _ _ rfl, fun a => ?_⟩
    beta_reduce
    split
    · trivial
    · exact ⟨h _ .start, fun _ => (asks_attempt _ _ _).mpr ⟨hown _ _ rfl, trivial⟩⟩

theorem traceProc_asks_iff (hown : HasOwn P) (f : ConnectionSafety) (owner name : Text) :
    (traceProc owner name).Asks P ↔ ∀ q, Sends f (.traceProc owner name) q → P q := by
  simp only [traceProc, asks_orFail, validate_ok_iff]
  constructor
  · intro h q hq
    cases hq with
    | @trace _ _ rows _ h₁ h₂ hargs =>
      have hstart := (h () h₁ () h₂).2 (.ok [])
      beta_reduce at hstart
      rw [if_neg (by simp [firstCell])] at hstart
      have hpoint := (initializeDebugger_asks_iff hown).mp (hstart.2 (.ok []))
      have hset := hpoint.2 breakpointSet
      beta_reduce at hset
      rw [if_neg (by simp [isSet, breakpointSet])] at hset
      exact ((asks_orFail _ _).mp (((asks_query _ _).mp hset).2 rows) _ hargs).1
  · intro h _ h₁ _ h₂
    refine ⟨hown _ _ rfl, fun a => ?_⟩
    beta_reduce
    split
    · trivial
    · rw [asks_attempt, initializeDebugger_asks_iff hown]
      refine ⟨hown _ _ rfl, hown _ _ rfl, fun a => ?_⟩
      beta_reduce
      split
      · trivial
      · simp only [procDescribe, asks_query, asks_orFail]
        refine ⟨hown _ _ rfl, fun rows args hargs => ⟨h _ (.trace h₁ h₂ hargs), fun _ => ?_⟩⟩
        exact (asks_attempt _ _ _).mpr ⟨hown _ _ rfl, trivial⟩

theorem dmlPreview_asks_iff (f : ConnectionSafety) (sql : Text) :
    (dmlPreview sql).Asks P ↔ ∀ q, Sends f (.dmlPreview sql) q → P q := by
  unfold dmlPreview
  constructor
  · intro h q hq
    cases hq with
    | preview ht h₁ =>
      simp only [ht, asks_orFail, asks_attempt] at h
      exact (h _ h₁).1
  · intro h
    split
    · trivial
    · rename_i table rest ht
      rw [asks_orFail]
      intro qName h₁
      exact (asks_attempt _ _ _).mpr ⟨h _ (.preview ht h₁), trivial⟩

/-- What is generated is not sent. -/
theorem ordsGenerate_asks (hown : HasOwn P) (params : OrdsParams) : (ordsGenerate params).Asks P := by
  unfold ordsGenerate
  rw [asks_orFail]
  intro plan _
  cases plan with
  | ready sql => trivial
  | describe owner name finish =>
    simp only [procDescribe, asks_query, asks_orFail, asks_finished, implies_true, and_true]
    exact hown _ _ rfl

theorem ordsExecute_asks_iff {sql : Text} : (ordsExecute sql).Asks P ↔ P ⟨.session, .metadata sql⟩ := by
  refine ⟨fun h => h.1, fun h => ⟨h, fun a => ?_⟩⟩
  cases a with
  | ok rows => trivial
  | error e =>
    simp only
    split <;> trivial

theorem ordsApply_asks_iff (hown : HasOwn P) (f : ConnectionSafety) (params : OrdsParams) :
    (ordsApply params).Asks P ↔ ∀ q, Sends f (.ordsApply params) q → P q := by
  unfold ordsApply
  rw [asks_orFail]
  constructor
  · intro h q hq
    cases hq with
    | apply hplan => exact ordsExecute_asks_iff.mp (h _ hplan)
  · intro h plan hplan
    cases plan with
    | ready sql => exact ordsExecute_asks_iff.mpr (h _ (.apply hplan))
    | describe owner name finish =>
      simp only [procDescribe, asks_query, asks_orFail]
      exact ⟨hown _ _ rfl, fun _ _ _ => trivial⟩

theorem ordsClientsCreate_asks_iff (hown : HasOwn P) (f : ConnectionSafety) (roles : Nat) :
    (ordsClientsCreate roles).Asks P ↔ ∀ q, Sends f (.ordsClientsCreate roles) q → P q := by
  have hread : (query .lookup fun _ => finished).Asks P := (asks_query _ _).mpr ⟨hown _ _ rfl, fun _ => trivial⟩
  constructor
  · intro h q hq
    cases hq with
    | createClient => exact h.1
    | grantRoles hr =>
      have hgrant := h.2 (.ok [])
      simp only [if_pos hr, asks_query] at hgrant
      exact hgrant.1
  · intro h
    refine ⟨h _ .createClient, fun a => ?_⟩
    cases a with
    | error e =>
      simp only
      split <;> trivial
    | ok rows =>
      simp only
      split
      · rename_i hr
        exact (asks_query _ _).mpr ⟨h _ (.grantRoles hr), fun _ => hread⟩
      · exact hread

/-- A request that is not in the list at all. -/
theorem asks_iff_of_none {f : ConnectionSafety} {c : Call} {t : Handler} (ht : t.Asks P)
    (hno : ∀ q, ¬ Sends f c q) : t.Asks P ↔ ∀ q, Sends f c q → P q :=
  ⟨fun _ q hq => absurd hq (hno q), fun _ => ht⟩

/-- A request that is one question. -/
theorem asks_iff_of_one {f : ConnectionSafety} {c : Call} {t : Handler} {q : Sent}
    (ht : t.Asks P ↔ P q) (hone : ∀ q', Sends f c q' ↔ q' = q) : t.Asks P ↔ ∀ q, Sends f c q → P q := by
  simp only [ht, hone, forall_eq]

/-- **What a handler asks, but for the sidecar's own questions, is the list.** -/
theorem handler_asks_iff (hown : HasOwn P) (f : ConnectionSafety) (c : Call) :
    (handler f c).Asks P ↔ ∀ q, Sends f c q → P q := by
  cases c with
  | lookups count => exact asks_iff_of_none (repeated_asks (hown _ _ rfl) count) (fun q hq => by cases hq)
  | sessionBlock =>
    exact asks_iff_of_none ((asks_attempt _ _ _).mpr ⟨hown _ _ rfl, trivial⟩) (fun q hq => by cases hq)
  | debugger blocks =>
    exact asks_iff_of_none (repeated_asks (hown _ _ rfl) blocks) (fun q hq => by cases hq)
  | elsewhere => exact asks_iff_of_none trivial (fun q hq => by cases hq)
  | tableCountRows owner name => exact tableCountRows_asks_iff f owner name
  | connectionCommit =>
    refine asks_iff_of_one (q := ⟨.session, .commit⟩) (by simp [handler]) fun q => ⟨?_, ?_⟩
    · rintro ⟨⟩
      rfl
    · rintro rfl
      exact .commit
  | connectionRollback =>
    exact asks_iff_of_none ((asks_query _ _).mpr ⟨hown _ _ rfl, fun _ => trivial⟩)
      (fun q hq => by cases hq)
  | vectorSearch text p => exact vectorSearch_asks_iff hown f text p
  | vectorCreateIndex p => exact vectorCreateIndex_asks_iff f p
  | vectorDropIndex owner indexName => exact vectorDropIndex_asks_iff f owner indexName
  | embedCountPending owner tableName vectorColumn =>
    exact embedCountPending_asks_iff f owner tableName vectorColumn
  | embedBatch p => exact embedBatch_asks_iff hown f p
  | explainPlan sql =>
    exact asks_iff_of_none (explainPlan_asks hown trivial) (fun q hq => by cases hq)
  | procExecute owner name => exact procExecute_asks_iff hown f owner name
  | ordsEnableSchema =>
    refine asks_iff_of_one (q := ⟨.session, .metadata enableSchemaText⟩) ?_ fun q => ⟨?_, ?_⟩
    · refine ⟨fun h => h.1, fun h => ⟨h, fun a => ?_⟩⟩
      cases a with
      | ok rows => trivial
      | error e =>
        simp only
        split <;> trivial
    · rintro ⟨⟩
      rfl
    · rintro rfl
      exact .enableSchema
  | ordsGenerateSql params =>
    exact asks_iff_of_none (ordsGenerate_asks hown params) (fun q hq => by cases hq)
  | ordsApply params => exact ordsApply_asks_iff hown f params
  | ordsClientsCreate roles => exact ordsClientsCreate_asks_iff hown f roles
  | ordsClientsRevoke =>
    refine asks_iff_of_one (q := ⟨.session, .metadata revokeClientText⟩)
      (by simp [handler, ordsClientsRevoke]) fun q => ⟨?_, ?_⟩
    · rintro ⟨⟩
      rfl
    · rintro rfl
      exact .revokeClient
  | debugStart p => exact debugStart_asks_iff hown f p
  | debugRun script => exact debugRun_asks_iff hown f script
  | traceProc owner name => exact traceProc_asks_iff hown f owner name
  | traceSql sql withRuntimeStats =>
    exact asks_iff_of_none (explainPlan_asks hown trivial) (fun q hq => by cases hq)
  | dmlPreview sql => exact dmlPreview_asks_iff f sql

theorem laterHandler_asks_iff (hown : HasOwn P) (l : Later) :
    (laterHandler l).Asks P ↔ ∀ q, SendsLater l q → P q := by
  cases l with
  | ordsApply sql =>
    refine ordsExecute_asks_iff.trans ⟨fun h q hq => ?_, fun h => h _ .apply⟩
    cases hq
    exact h
  | runtimeStats sql =>
    simp only [laterHandler, gatherRuntimeStats, asks_query]
    constructor
    · intro h q hq
      cases hq
      exact h.1
    · refine fun h => ⟨h _ .stats, fun _ => ⟨hown _ _ rfl, fun rows => ?_⟩⟩
      split
      · trivial
      · exact (asks_query _ _).mpr ⟨hown _ _ rfl, fun _ => trivial⟩

end

end Veesker.Sidecar
