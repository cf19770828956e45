/-
  File:      Veesker/Sidecar/Changes.lean
  Subject:   WHICH REQUESTS CAN CHANGE DATA.

  `Call.changesData` says of a request, from its parameters alone, whether its handler can come to
  send something that changes data; `handler_changes_iff` proves it in both directions. The texts the
  handlers compose are told by their first keyword: only that much of them is ever looked at.
-/
import Veesker.Safety.ReadOnlyRule
import Veesker.Sidecar.Sends

namespace Veesker.Sidecar

open Run Safety Lexis

/-! ## 1. What the composed texts start with -/

/-- A text whose first characters are a keyword and a blank. -/
theorem startsWith_blank {lit : Text} (kw : Text) (hne : kw ≠ []) (hident : kw.all isIdentChar = true)
    (hup : kw.map Char.toUpper = kw) (hlit : lit.take (kw.length + 1) = kw ++ [' ']) (r : Text) :
    StartsWith kw (lit ++ r) := by
  have e : lit ++ r = kw ++ (' ' :: (lit.drop (kw.length + 1) ++ r)) := by
    calc lit ++ r = (lit.take (kw.length + 1) ++ lit.drop (kw.length + 1)) ++ r := by
          rw [List.take_append_drop]
      _ = kw ++ (' ' :: (lit.drop (kw.length + 1) ++ r)) := by simp [hlit]
  rw [e]
  exact startsWith_text hne kw _ hup (List.all_eq_true.mp hident)
    (fun c hc => by
      cases hc
      decide)
    (fun hq => by simp at hq)

theorem starts_select {lit : Text} (h : lit.take 7 = "SELECT ".toList) (r : Text) :
    StartsWith "SELECT".toList (lit ++ r) :=
  startsWith_blank "SELECT".toList (by simp) (by simp [isIdentChar]) (by simp [Char.toUpper]) h r

theorem starts_begin {lit : Text} (h : lit.take 6 = "BEGIN ".toList) (r : Text) :
    StartsWith "BEGIN".toList (lit ++ r) :=
  startsWith_blank "BEGIN".toList (by simp) (by simp [isIdentChar]) (by simp [Char.toUpper]) h r

theorem starts_create {lit : Text} (h : lit.take 7 = "CREATE ".toList) (r : Text) :
    StartsWith "CREATE".toList (lit ++ r) :=
  startsWith_blank "CREATE".toList (by simp) (by simp [isIdentChar]) (by simp [Char.toUpper]) h r

theorem starts_drop {lit : Text} (h : lit.take 5 = "DROP ".toList) (r : Text) :
    StartsWith "DROP".toList (lit ++ r) :=
  startsWith_blank "DROP".toList (by simp) (by simp [isIdentChar]) (by simp [Char.toUpper]) h r

/-- A hint in front of a statement is a comment. -/
theorem isFiller_hint : IsFiller "/*+ GATHER_PLAN_STATISTICS */ ".toList := by
  unfold IsFiller
  decide

theorem class_stats (sql : Text) : statementClass (statsText sql) = statementClass sql :=
  congrArg classOf (tokens_filler isFiller_hint sql)

theorem isFiller_indent : IsFiller "\n      ".toList :=
  isFiller_spaces (by simp [isSpace, spacePoints])

theorem starts_countText (qName : Text) (fromWhere : Option Text) :
    StartsWith "SELECT".toList (countText qName fromWhere) := by
  unfold countText
  simp only [List.append_assoc]
  exact starts_select (by simp) _

theorem starts_rowsText (qOwner qName : Text) : StartsWith "SELECT".toList (rowsText qOwner qName) := by
  unfold rowsText
  simp only [List.append_assoc]
  exact starts_select (by simp) _

theorem starts_pendingText (qOwner qTable qVec : Text) :
    StartsWith "SELECT".toList (pendingText qOwner qTable qVec) := by
  unfold pendingText
  simp only [List.append_assoc]
  exact starts_select (by simp) _

theorem starts_batchText (qOwner qTable qText qVec : Text) (batchSize : Option Int) :
    StartsWith "SELECT".toList (batchText qOwner qTable qText qVec batchSize) := by
  unfold batchText
  simp only [List.append_assoc]
  exact starts_select (by simp) _

theorem starts_dropIndexText (qIdx : Text) : StartsWith "DROP".toList (dropIndexText qIdx) :=
  starts_drop (by simp) _

theorem starts_searchText (p : VectorSearchParams) (colList qOwner qTable qCol : Text) :
    StartsWith "SELECT".toList (searchText p colList qOwner qTable qCol) := by
  have e : "\n      SELECT ".toList = "\n      ".toList ++ "SELECT ".toList := by simp
  unfold searchText
  rw [e]
  simp only [List.append_assoc]
  unfold StartsWith
  rw [tokens_filler isFiller_indent]
  exact starts_select (by simp) _

theorem starts_procBlock (owner name : Text) (args : List Text) :
    StartsWith "BEGIN".toList (procBlock owner name args) := by
  unfold procBlock
  simp only [List.append_assoc]
  exact starts_begin (by simp) _

theorem starts_traceBlock (owner name : Text) (args : List Text) :
    StartsWith "BEGIN".toList (traceBlock owner name args) := by
  unfold traceBlock
  split
  · simp only [List.append_assoc]
    exact starts_begin (by simp) _
  · exact starts_procBlock owner name args

theorem starts_createIndex (qIdx qOwner qTable qCol : Text) (p : VectorIndexParams) :
    StartsWith "CREATE".toList (createIndexText qIdx qOwner qTable qCol p) := by
  unfold createIndexText
  simp only [List.append_assoc]
  exact starts_create (by simp) _

/-! ## 2. What changes data -/

/-- Oracle changes data, runs code of the user's choice or commits. The rows `explain` leaves in
    `PLAN_TABLE` are its own. -/
def What.changes : What → Bool
  | .statement sql | .call sql | .composed sql => (statementClass sql).changes
  | .hinted sql => (statementClass (statsText sql)).changes
  | .metadata _ | .commit => true
  | .explain _ | .planRows | .rollback | .lookup | .dbmsOutput | .dbmsDebug | .embed _ => false

def Sent.changes (q : Sent) : Prop := q.what.changes = true

/-- **Whether a request's handler can send something that changes data.** -/
def Call.changesData (safety : ConnectionSafety) : Call → Bool
  | .connectionCommit | .ordsEnableSchema | .ordsClientsCreate _ | .ordsClientsRevoke => true
  | .vectorCreateIndex p =>
    isPlainName p.owner && isPlainName p.tableName && isPlainName p.columnName && isPlainName p.indexName
  | .vectorDropIndex owner indexName => isPlainName owner && isPlainName indexName
  | .embedBatch p => !safety.psdpm && isPlainName p.owner && isPlainName p.tableName &&
      isPlainName p.textColumn && isPlainName p.vectorColumn
  | .procExecute owner name => isPlainName owner && isPlainName name
  | .ordsApply params => match Sidecar.ordsGenerateSql params with
    | .ok (.ready _) => true
    | _ => false
  | .debugStart p => (statementClass p.script).changes
  | .debugRun script => (statementClass script).changes
  | .traceProc owner name =>
    (validateOracleIdentifier (toUpperCase owner) []).isOk &&
      (validateOracleIdentifier (toUpperCase name) []).isOk
  | _ => false

def Later.changesData : Later → Bool
  | .runtimeStats sql => (statementClass sql).changes
  | .ordsApply _ => true

/-- A name between quotes. -/
def quoted (name : Text) : Text := '"' :: (name ++ ['"'])

theorem quoteIdent_iff {name q : Text} :
    quoteIdent name = .ok q ↔ isPlainName name = true ∧ q = quoted name := by
  unfold quoteIdent
  split
  · rename_i h
    simp [h, quoted, eq_comm]
  · rename_i h
    simp [h]

theorem quoteIdent_ok {name q : Text} (h : quoteIdent name = .ok q) : isPlainName name = true :=
  (quoteIdent_iff.mp h).1

theorem quoteIdent_of_plain {name : Text} (h : isPlainName name = true) :
    quoteIdent name = .ok (quoted name) := quoteIdent_iff.mpr ⟨h, rfl⟩

/-! ## 3. The requests -/

theorem changes_composed {on : Connection} {sql : Text} {k : StatementClass}
    (hc : statementClass sql = k) : Sent.changes ⟨on, .composed sql⟩ ↔ k.changes = true := by
  rw [Sent.changes, What.changes, hc]

theorem not_changes_select {on : Connection} {sql : Text} (h : StartsWith "SELECT".toList sql) :
    ¬ Sent.changes ⟨on, .composed sql⟩ := by
  rw [changes_composed (statementClass_select h)]
  exact Bool.false_ne_true

theorem changes_call {on : Connection} {sql : Text} (h : StartsWith "BEGIN".toList sql) :
    Sent.changes ⟨on, .call sql⟩ := by
  rw [Sent.changes, What.changes, statementClass_block h (by decide)]
  rfl

/-- **Whether something in a request's list changes data.** -/
theorem sends_changes_iff (f : ConnectionSafety) (c : Call) :
    (∃ q, Sends f c q ∧ q.changes) ↔ c.changesData f = true := by
  constructor
  · rintro ⟨q, hq, hc⟩
    cases hq with
    | countRows => exact absurd hc (not_changes_select (starts_rowsText _ _))
    | search => exact absurd hc (not_changes_select (starts_searchText _ _ _ _ _))
    | countPending => exact absurd hc (not_changes_select (starts_pendingText _ _ _))
    | preview => exact absurd hc (not_changes_select (starts_countText _ _))
    | embedRead h => exact absurd hc (not_changes_select (starts_batchText _ _ _ _ _))
    | commit | enableSchema | createClient | grantRoles | revokeClient => rfl
    | createIndex h | createIndexCommit h =>
      simp [Call.changesData, quoteIdent_ok h.owner, quoteIdent_ok h.table, quoteIdent_ok h.column,
        quoteIdent_ok h.index]
    | dropIndex h₁ h₂ | dropIndexCommit h₁ h₂ | procedure _ h₁ h₂ =>
      simp [Call.changesData, quoteIdent_ok h₁, quoteIdent_ok h₂]
    | embedUpdate h | embedCommit h =>
      simp [Call.changesData, h.psdpm, quoteIdent_ok h.owner, quoteIdent_ok h.table,
        quoteIdent_ok h.text, quoteIdent_ok h.vector]
    | apply h => simp [Call.changesData, h]
    | start | run => exact hc
    | trace h₁ h₂ => simp [Call.changesData, h₁, h₂]
  · intro h
    cases c with
    | lookups | sessionBlock | debugger | elsewhere | tableCountRows | connectionRollback |
      vectorSearch | embedCountPending | explainPlan | ordsGenerateSql | traceSql | dmlPreview => cases h
    | connectionCommit => exact ⟨_, .commit, rfl⟩
    | vectorCreateIndex p =>
      simp only [Call.changesData, Bool.and_eq_true] at h
      obtain ⟨⟨⟨h₁, h₂⟩, h₃⟩, h₄⟩ := h
      have h₁ := quoteIdent_of_plain h₁
      have h₂ := quoteIdent_of_plain h₂
      have h₃ := quoteIdent_of_plain h₃
      have h₄ := quoteIdent_of_plain h₄
      exact ⟨_, .createIndexCommit ⟨h₁, h₂, h₃, h₄⟩, rfl⟩
    | vectorDropIndex owner indexName =>
      simp only [Call.changesData, Bool.and_eq_true] at h
      have h₁ := quoteIdent_of_plain h.1
      have h₂ := quoteIdent_of_plain h.2
      exact ⟨_, .dropIndexCommit h₁ h₂, rfl⟩
    | embedBatch p =>
      simp only [Call.changesData, Bool.and_eq_true, Bool.not_eq_true'] at h
      obtain ⟨⟨⟨⟨hp, h₁⟩, h₂⟩, h₃⟩, h₄⟩ := h
      have h₁ := quoteIdent_of_plain h₁
      have h₂ := quoteIdent_of_plain h₂
      have h₃ := quoteIdent_of_plain h₃
      have h₄ := quoteIdent_of_plain h₄
      exact ⟨_, .embedCommit ⟨hp, h₁, h₂, h₃, h₄⟩, rfl⟩
    | procExecute owner name =>
      simp only [Call.changesData, Bool.and_eq_true] at h
      have h₁ := quoteIdent_of_plain h.1
      have h₂ := quoteIdent_of_plain h.2
      exact ⟨_, .procedure no_args h₁ h₂, changes_call (starts_procBlock _ _ _)⟩
    | ordsEnableSchema => exact ⟨_, .enableSchema, rfl⟩
    | ordsApply params =>
      simp only [Call.changesData] at h
      split at h
      · rename_i sql hplan
        exact ⟨_, .apply hplan, rfl⟩
      · cases h
    | ordsClientsCreate roles => exact ⟨_, .createClient, rfl⟩
    | ordsClientsRevoke => exact ⟨_, .revokeClient, rfl⟩
    | debugStart p => exact ⟨_, .start, h⟩
    | debugRun script => exact ⟨_, .run, h⟩
    | traceProc owner name =>
      simp only [Call.changesData, Bool.and_eq_true] at h
      exact ⟨_, .trace h.1 h.2 no_args, changes_call (starts_traceBlock _ _ _)⟩

theorem sendsLater_changes_iff (l : Later) :
    (∃ q, SendsLater l q ∧ q.changes) ↔ l.changesData = true := by
  constructor
  · rintro ⟨q, hq, hc⟩
    cases hq with
    | stats =>
      rw [Sent.changes, What.changes, class_stats] at hc
      exact hc
    | apply => rfl
  · intro h
    cases l with
    | ordsApply sql => exact ⟨_, .apply, rfl⟩
    | runtimeStats sql =>
      refine ⟨_, .stats, ?_⟩
      rw [Sent.changes, What.changes, class_stats]
      exact h

/-! ## 4. The handlers -/

/-- A question that changes nothing. -/
abbrev Harmless (q : Sent) : Prop := ¬ q.changes

theorem hasOwn_harmless : HasOwn Harmless := by
  intro on what h
  cases what with
  | statement | hinted | call | composed | metadata | commit => cases h
  | explain | planRows | rollback | lookup | dbmsOutput | dbmsDebug | embed => exact Bool.false_ne_true

/-- **Which requests can change data.** -/
theorem handler_changes_iff (f : ConnectionSafety) (c : Call) :
    (handler f c).CanAsk Sent.changes ↔ c.changesData f = true := by
  rw [← Talk.not_asks_iff, handler_asks_iff hasOwn_harmless, ← sends_changes_iff]
  simp

theorem handler_harmless {f : ConnectionSafety} {c : Call} (h : c.changesData f = false) :
    (handler f c).Asks Harmless := by
  by_contra hno
  rw [Talk.not_asks_iff, handler_changes_iff, h] at hno
  cases hno

theorem laterHandler_changes_iff (l : Later) :
    (laterHandler l).CanAsk Sent.changes ↔ l.changesData = true := by
  rw [← Talk.not_asks_iff, laterHandler_asks_iff hasOwn_harmless, ← sendsLater_changes_iff]
  simp

theorem laterHandler_harmless {l : Later} (h : l.changesData = false) :
    (laterHandler l).Asks Harmless := by
  by_contra hno
  rw [Talk.not_asks_iff, laterHandler_changes_iff, h] at hno
  cases hno

end Veesker.Sidecar
