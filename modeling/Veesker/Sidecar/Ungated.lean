/-
  File:      Veesker/Sidecar/Ungated.lean
  Subject:   WHICH REQUESTS SEND WHAT THE GATE WOULD REFUSE ON PROD.

  `queryExecute` is the only caller of the gate. For every other request `Call.gated` says, from its
  parameters, the session's settings and the windows, whether all that it can come to have Oracle
  run for the caller is what the gate would let through just then; `gate_bypass_iff` proves it in
  both directions. The caller's own text counts, behind a hint too, and so does a statement or a
  block that is composed of the caller's names; what is only explained is not run.
-/
import Veesker.Safety.Rules
import Veesker.Sidecar.Changes

namespace Veesker.Sidecar

open Run Safety Lexis

/-! ## 1. What the gate lets through on prod -/

/-- By the detectors' answers: the read-only rule, no `TRUNCATE`, for a flagged statement an unlock of
    its table, for DDL a confirmation. -/
def prodAdmits (readOnly : Bool) (w : Windows) (now : Time) (p : Profile) : Bool :=
  (!readOnly || p.readOnlySafe) && !p.truncate &&
    if p.flagged then w.unsafeDml.any fun u => decide (now < u.expiresAt) && u.table == p.table
    else match p.ddl with
      | .free => true
      | .needs level => w.confirms now level

/-- The gate lets the statement through now. -/
def Admitted (f : ConnectionSafety) (w : Windows) (now : Time) (sql : Text) : Prop :=
  decisionOf (enforceSafetyForStatement f w now {} sql).1 = .ok ()

theorem admitted_iff {f : ConnectionSafety} (henv : f.env = some .prod) (w : Windows) (now : Time)
    (sql : Text) : Admitted f w now sql ↔ prodAdmits f.readOnly w now (profile sql) = true := by
  unfold Admitted
  rw [decision_eq]
  generalize profile sql = p
  unfold decideOn prodAdmits
  simp only [henv]
  by_cases hro : f.readOnly = true ∧ p.readOnlySafe = false
  · simp [hro]
  · rw [if_neg hro]
    have hro' : (!f.readOnly || p.readOnlySafe) = true := by
      cases hr : f.readOnly
      · rfl
      · simpa [hr] using hro
    rw [hro', Bool.true_and]
    by_cases ht : p.truncate = true
    · simp [ht]
    · rw [if_neg ht]
      by_cases hf : p.flagged = true
      · rw [if_pos hf, if_pos hf]
        by_cases hu : w.unsafeDml.any (fun u => decide (now < u.expiresAt) && u.table == p.table) = true
        · simp [ht, hu]
        · simp [ht, hu]
      · rw [if_neg hf, if_neg hf]
        cases p.ddl with
        | free => simp [ht, ddlDecision]
        | needs level =>
          by_cases hc : w.confirms now level = true
          · simp [ht, ddlDecision, hc]
          · simp [ht, ddlDecision, hc]

/-! ## 2. What the detectors answer to the composed texts -/

section
variable {sql R : Text}

/-- A statement that no detector but the read-only rule looks at twice. -/
theorem prodAdmits_plain {p : Profile} {readOnly : Bool} {w : Windows} {now : Time}
    (ht : p.truncate = false) (hf : p.flagged = false) (hd : p.ddl = .free) :
    prodAdmits readOnly w now p = (!readOnly || p.readOnlySafe) := by
  simp [prodAdmits, ht, hf, hd]

theorem ddlClass_free (h : classifySql sql ≠ .ddl) : ddlClass sql = .free := if_pos (.inl h)

/-- None of the detectors' keywords stands first. -/
theorem profile_other {kw : Text} (h : toUpperCase (stripLeadingComments sql) = kw ++ R)
    (hne : kw ≠ []) (hkw : kw.all (fun c => !isSpace c && c != ';') = true)
    (hno : ∀ Y, startsWith (kw ++ Y) "UPDATE ".toList = false ∧
      startsWith (kw ++ Y) "DELETE ".toList = false ∧ startsWith (kw ++ Y) "TRUNCATE ".toList = false ∧
      startsWith (kw ++ Y) "MERGE ".toList = false) :
    (profile sql).truncate = false ∧ (profile sql).flagged = false := by
  have hbulk := not_bulk_of_upper h hne hkw fun Y => ⟨(hno Y).1, (hno Y).2.1, (hno Y).2.2.1⟩
  have hmerge : isMergeSql sql = false := by rw [isMergeSql_eq, h, (hno R).2.2.2]
  refine ⟨?_, ?_⟩
  · show isTruncateSql sql = false
    rw [isTruncateSql_eq, h, (hno R).2.2.1]
  · show (isMergeSql sql || isUnsafeBulkDml sql) = false
    rw [hmerge, hbulk]
    rfl

/-- A block is refused on a read-only session and nowhere else. -/
theorem prodAdmits_begin (h : StartsWith "BEGIN".toList sql) (readOnly : Bool) (w : Windows)
    (now : Time) : prodAdmits readOnly w now (profile sql) = !readOnly := by
  obtain ⟨_, r, -, -, -, -, -, -, hup⟩ :=
    keyword_split ((startsWithKeyword_iff (by simp)).mpr h) (by simp)
  have hkind : classifySql sql = .plsql := by
    unfold classifySql
    rw [hup]
    rfl
  obtain ⟨ht, hf⟩ := profile_other hup (by simp) (by simp [isSpace, spacePoints])
    fun Y => ⟨rfl, rfl, rfl, rfl⟩
  rw [prodAdmits_plain ht hf (ddlClass_free (by rw [hkind]; decide))]
  have hsafe : (profile sql).readOnlySafe = false :=
    isReadOnlySafe_of_ne (by rw [hkind]; decide) sql
  rw [hsafe, Bool.or_false]

/-- A query is let through everywhere. -/
theorem prodAdmits_select (h : StartsWith "SELECT".toList sql) (readOnly : Bool) (w : Windows)
    (now : Time) : prodAdmits readOnly w now (profile sql) = true := by
  obtain ⟨v, r, hstrip, hv, -, -, -, -, hup⟩ :=
    keyword_split ((startsWithKeyword_iff (by simp)).mpr h) (by simp)
  have hkind : classifySql sql = .select := by
    unfold classifySql
    rw [hup]
    rfl
  obtain ⟨ht, hf⟩ := profile_other hup (by simp) (by simp [isSpace, spacePoints])
    fun Y => ⟨rfl, rfl, rfl, rfl⟩
  have hexplain : explainPlanPattern.test (stripLeadingComments sql) = false := by
    by_contra hx
    obtain ⟨m, hm⟩ := Pattern.test_iff.mp (by simpa using hx)
    obtain ⟨k, hk, -⟩ := Pattern.mem_ends_seq.mp hm
    obtain ⟨u, hu, he⟩ := Pattern.mem_ends_wordI hk
    simp only at hu
    rw [hstrip] at hu
    -- the first letter is an S and an E
    cases v with
    | nil => cases hv
    | cons c v =>
      cases u with
      | nil => cases he
      | cons d u =>
        simp only [List.cons_append, List.cons.injEq] at hu
        have hc : c.toUpper = 'S' := (List.cons.inj hv).1
        have hd : d.toUpper = 'E' := (List.cons.inj he).1
        rw [hu.1, hd] at hc
        cases hc
  have hsafe : (profile sql).readOnlySafe = true := by
    show isReadOnlySafe (classifySql sql) sql = true
    rw [isReadOnlySafe, hkind, hexplain, Bool.and_false]
    rfl
  rw [prodAdmits_plain ht hf (ddlClass_free (by rw [hkind]; decide)), hsafe, Bool.or_true]

/-- Nothing is stripped off a text that starts with a character of a statement. -/
theorem stripLeadingComments_head {c : Char} {s : Text} (hs : isSpace c = false) (hd : c ≠ '-')
    (hb : c ≠ '/') : stripLeadingComments (c :: s) = c :: s := by
  have htrim : trimStart (c :: s) = c :: s := List.dropWhile_cons_of_neg (by simp [hs])
  have hline : startsWith (c :: s) "--".toList = false := by
    show ('-' == c && _) = false
    rw [beq_false_of_ne hd.symm, Bool.false_and]
  have hblock : startsWith (c :: s) "/*".toList = false := by
    show ('/' == c && _) = false
    rw [beq_false_of_ne hb.symm, Bool.false_and]
  have hround : stripRound (c :: s) = c :: s := by
    rw [stripRound, stripLineComment, htrim, hline, if_neg Bool.false_ne_true, stripBlockComment,
      htrim, hblock, if_neg Bool.false_ne_true, htrim]
  rw [stripLeadingComments, List.length_cons, stripRounds, hround, if_pos rfl]

/-- `CREATE VECTOR INDEX` needs an ordinary confirmation. -/
theorem prodAdmits_createIndex (qIdx qOwner qTable qCol : Text) (p : VectorIndexParams)
    (readOnly : Bool) (w : Windows) (now : Time) :
    prodAdmits readOnly w now (profile (createIndexText qIdx qOwner qTable qCol p)) =
      (!readOnly && w.confirms now .ddl) := by
  obtain ⟨r, e⟩ : ∃ r, createIndexText qIdx qOwner qTable qCol p = "CREATE VECTOR INDEX ".toList ++ r := by
    unfold createIndexText
    simp only [List.append_assoc]
    exact ⟨_, rfl⟩
  have hfirst : StartsWithKeyword "CREATE".toList (createIndexText qIdx qOwner qTable qCol p) :=
    (startsWithKeyword_iff (by simp)).mpr (starts_createIndex qIdx qOwner qTable qCol p)
  have hcomment := not_comment hfirst (by simp)
  rw [e] at hcomment ⊢
  generalize hsql : "CREATE VECTOR INDEX ".toList ++ r = sql at hcomment ⊢
  have hup : toUpperCase (stripLeadingComments sql) = "CREATE".toList ++ (" VECTOR INDEX ".toList ++
      toUpperCase r) := by
    have hstrip : stripLeadingComments sql = sql := by
      subst hsql
      exact stripLeadingComments_head (c := 'C') (by decide) (by decide) (by decide)
    rw [hstrip, ← hsql, toUpperCase_append, toUpperCase_ascii (by simp)]
    simp [Char.toUpper]
  have hkind : classifySql sql = .ddl := by
    unfold classifySql
    rw [hup]
    rfl
  obtain ⟨ht, hf⟩ := profile_other hup (by simp) (by simp [isSpace, spacePoints])
    fun Y => ⟨rfl, rfl, rfl, rfl⟩
  have hlevel : destructiveDdlPatterns.any (·.test sql) = false := by
    subst hsql
    rfl
  have hddl : (profile sql).ddl = .needs .ddl := by
    show ddlClass sql = _
    have htr : isTruncateSql sql = false := ht
    unfold ddlClass classifyDdl
    simp only [hkind, htr, hcomment, hlevel]
    rfl
  have hsafe : (profile sql).readOnlySafe = false :=
    isReadOnlySafe_of_ne (by rw [hkind]; decide) sql
  simp [prodAdmits, ht, hf, hddl, hsafe]

/-- `DROP INDEX` needs a destructive one. -/
theorem prodAdmits_dropIndex (qIdx : Text) (readOnly : Bool) (w : Windows) (now : Time) :
    prodAdmits readOnly w now (profile (dropIndexText qIdx)) =
      (!readOnly && w.confirms now .destructive_ddl) := by
  have hfirst := starts_dropIndexText qIdx
  have hlevel : destructiveDdlPatterns.any (·.test (dropIndexText qIdx)) = true := rfl
  generalize dropIndexText qIdx = sql at hfirst hlevel ⊢
  have hdiscards : DiscardsData (tokens sql) := by
    obtain ⟨t, ht, hk⟩ := (startsWithKeyword_iff (by simp)).mpr hfirst
    cases htoks : tokens sql with
    | nil =>
      rw [htoks] at ht
      cases ht
    | cons a ts =>
      rw [htoks] at ht
      cases ht
      exact .drop hk
  obtain ⟨hsafe, htrunc, hflag, hddl⟩ := profile_discardsData hdiscards
  rw [hlevel, if_pos rfl] at hddl
  simp [prodAdmits, htrunc, hflag, hddl, hsafe]

end

/-! ## 3. The requests -/

/-- The text the caller has Oracle run: the caller's own, or one composed of the caller's names. -/
def What.userText : What → Option Text
  | .statement sql | .hinted sql | .call sql | .composed sql => some sql
  | _ => none

/-- A question the gate would let through, where it runs something for the caller. -/
def Gated (f : ConnectionSafety) (w : Windows) (now : Time) (q : Sent) : Prop :=
  ∀ sql ∈ q.what.userText, Admitted f w now sql

/-- **Whether everything a request can come to run is what the gate lets through on prod.** -/
def Call.gated (f : ConnectionSafety) (w : Windows) (now : Time) : Call → Bool
  | .vectorCreateIndex p =>
    !(isPlainName p.owner && isPlainName p.tableName && isPlainName p.columnName &&
      isPlainName p.indexName) || (!f.readOnly && w.confirms now .ddl)
  | .vectorDropIndex owner indexName =>
    !(isPlainName owner && isPlainName indexName) || (!f.readOnly && w.confirms now .destructive_ddl)
  | .embedBatch p =>
    !(!f.psdpm && isPlainName p.owner && isPlainName p.tableName && isPlainName p.textColumn &&
      isPlainName p.vectorColumn) || prodAdmits f.readOnly w now
        (profile (updateText (quoted p.owner) (quoted p.tableName) (quoted p.vectorColumn)))
  | .procExecute owner name => !(isPlainName owner && isPlainName name) || !f.readOnly
  | .traceProc owner name =>
    !((validateOracleIdentifier (toUpperCase owner) []).isOk &&
      (validateOracleIdentifier (toUpperCase name) []).isOk) || !f.readOnly
  | .debugStart p => prodAdmits f.readOnly w now (profile p.script)
  | .debugRun script => prodAdmits f.readOnly w now (profile script)
  | _ => true

def Later.gated (f : ConnectionSafety) (w : Windows) (now : Time) : Later → Bool
  | .runtimeStats sql => prodAdmits f.readOnly w now (profile sql)
  | .ordsApply _ => true

theorem hasOwn_gated (f : ConnectionSafety) (w : Windows) (now : Time) : HasOwn (Gated f w now) := by
  intro on what h sql hsql
  cases what with
  | statement | hinted | call | composed => cases h
  | metadata | commit | explain | planRows | rollback | lookup | dbmsOutput | dbmsDebug | embed =>
    cases hsql

section
variable {f : ConnectionSafety} {w : Windows} {now : Time}

theorem not_or_of_imp {a b : Bool} (h : a = true → b = true) : (!a || b) = true := by
  cases a
  · rfl
  · exact h rfl

theorem gated_iff (henv : f.env = some .prod) {on : Connection} {what : What} {sql : Text} (h : what.userText = some sql) :
    Gated f w now ⟨on, what⟩ ↔ prodAdmits f.readOnly w now (profile sql) = true := by
  rw [← admitted_iff henv, Gated]
  simp [h]

theorem gated_select (henv : f.env = some .prod) {on : Connection} {sql : Text}
    (h : StartsWith "SELECT".toList sql) : Gated f w now ⟨on, .composed sql⟩ :=
  (gated_iff henv rfl).mpr (prodAdmits_select h _ _ _)

/-- **Whether everything in a request's list would be let through.** -/
theorem sends_gated_iff (henv : f.env = some .prod) (c : Call) :
    (∀ q, Sends f c q → Gated f w now q) ↔ c.gated f w now = true := by
  constructor
  · intro h
    cases c with
    | vectorCreateIndex p =>
      refine not_or_of_imp fun hn => ?_
      simp only [Bool.and_eq_true] at hn
      obtain ⟨⟨⟨h₁, h₂⟩, h₃⟩, h₄⟩ := hn
      have hq := h _ (.createIndex ⟨quoteIdent_of_plain h₁, quoteIdent_of_plain h₂,
        quoteIdent_of_plain h₃, quoteIdent_of_plain h₄⟩)
      rw [gated_iff henv rfl, prodAdmits_createIndex] at hq
      exact hq
    | vectorDropIndex owner indexName =>
      refine not_or_of_imp fun hn => ?_
      rw [Bool.and_eq_true] at hn
      have hq := h _ (.dropIndex (quoteIdent_of_plain hn.1) (quoteIdent_of_plain hn.2))
      rw [gated_iff henv rfl, prodAdmits_dropIndex] at hq
      exact hq
    | embedBatch p =>
      refine not_or_of_imp fun hn => ?_
      simp only [Bool.and_eq_true, Bool.not_eq_true'] at hn
      obtain ⟨⟨⟨⟨hp, h₁⟩, h₂⟩, h₃⟩, h₄⟩ := hn
      have hq := h _ (.embedUpdate ⟨hp, quoteIdent_of_plain h₁, quoteIdent_of_plain h₂,
        quoteIdent_of_plain h₃, quoteIdent_of_plain h₄⟩)
      exact (gated_iff henv rfl).mp hq
    | procExecute owner name =>
      refine not_or_of_imp fun hn => ?_
      rw [Bool.and_eq_true] at hn
      have hq := h _ (.procedure no_args (quoteIdent_of_plain hn.1) (quoteIdent_of_plain hn.2))
      rw [gated_iff henv rfl, prodAdmits_begin (starts_procBlock _ _ _)] at hq
      exact hq
    | traceProc owner name =>
      refine not_or_of_imp fun hn => ?_
      rw [Bool.and_eq_true] at hn
      have hq := h _ (.trace hn.1 hn.2 no_args)
      rw [gated_iff henv rfl, prodAdmits_begin (starts_traceBlock _ _ _)] at hq
      exact hq
    | debugStart p => exact (gated_iff henv rfl).mp (h _ .start)
    | debugRun script => exact (gated_iff henv rfl).mp (h _ .run)
    | _ => rfl
  · intro h q hq
    cases hq with
    | countRows => exact gated_select henv (starts_rowsText _ _)
    | search => exact gated_select henv (starts_searchText _ _ _ _ _)
    | countPending => exact gated_select henv (starts_pendingText _ _ _)
    | preview => exact gated_select henv (starts_countText _ _)
    | embedRead => exact gated_select henv (starts_batchText _ _ _ _ _)
    | commit | createIndexCommit | dropIndexCommit | embedCommit | enableSchema | apply | createClient |
      grantRoles | revokeClient => simp [Gated, What.userText]
    | createIndex hn =>
      rw [gated_iff henv rfl, prodAdmits_createIndex]
      simpa [Call.gated, quoteIdent_ok hn.owner, quoteIdent_ok hn.table, quoteIdent_ok hn.column,
        quoteIdent_ok hn.index] using h
    | dropIndex h₁ h₂ =>
      rw [gated_iff henv rfl, prodAdmits_dropIndex]
      simpa [Call.gated, quoteIdent_ok h₁, quoteIdent_ok h₂] using h
    | embedUpdate hn =>
      rw [gated_iff henv rfl]
      obtain ⟨h₁, rfl⟩ := quoteIdent_iff.mp hn.owner
      obtain ⟨h₂, rfl⟩ := quoteIdent_iff.mp hn.table
      obtain ⟨h₄, rfl⟩ := quoteIdent_iff.mp hn.vector
      simpa [Call.gated, hn.psdpm, h₁, h₂, h₄, quoteIdent_ok hn.text] using h
    | procedure _ h₁ h₂ =>
      rw [gated_iff henv rfl, prodAdmits_begin (starts_procBlock _ _ _)]
      simpa [Call.gated, quoteIdent_ok h₁, quoteIdent_ok h₂] using h
    | trace h₁ h₂ =>
      rw [gated_iff henv rfl, prodAdmits_begin (starts_traceBlock _ _ _)]
      simpa [Call.gated, h₁, h₂] using h
    | start | run => exact (gated_iff henv rfl).mpr h

theorem sendsLater_gated_iff (henv : f.env = some .prod) (l : Later) :
    (∀ q, SendsLater l q → Gated f w now q) ↔ l.gated f w now = true := by
  cases l with
  | runtimeStats sql =>
    constructor
    · exact fun h => (gated_iff henv rfl).mp (h _ .stats)
    · intro h q hq
      cases hq
      exact (gated_iff henv rfl).mpr h
  | ordsApply sql =>
    refine ⟨fun _ => rfl, fun _ q hq => ?_⟩
    cases hq
    simp [Gated, What.userText]

end

/-! ## 4. The result -/

/-- A request to the sidecar, or the turn of what an earlier one left over. -/
inductive Request where
  | call (c : Call)
  | later (i : Nat)
  deriving DecidableEq

/-- The step that serves it, with Oracle's answers. -/
def Request.action : Request → List Answer → RpcAction
  | .call c, answers => .call c answers
  | .later i, answers => .later i answers

def Request.gated (s : RpcState) (now : Time) : Request → Bool
  | .call c => c.gated s.core.safety s.core.windows now
  | .later i => s.later[i]?.all fun l => l.gated s.core.safety s.core.windows now

/-- Everything the step has Oracle run for the caller, the gate would let through at that moment. -/
def NothingUngated (s : RpcState) (now : Time) (new : List RpcEvent) : Prop :=
  ∀ asker q id, .sent asker q id ∈ new → Gated s.core.safety s.core.windows now q

theorem nothingUngated_iff {s : RpcState} {now : Time} (asker : Asker) (id : SessionId)
    {t : Handler} : (∀ answers, NothingUngated s now (sentEvents asker t answers id)) ↔
      t.Asks (Gated s.core.safety s.core.windows now) := by
  rw [Talk.asks_iff]
  constructor
  · exact fun h answers q hq => h answers asker q id (List.mem_map_of_mem hq)
  · intro h answers asker' q id' hq
    obtain ⟨q', hq', he⟩ := List.mem_map.mp hq
    cases he
    exact h answers q hq'

/-- **What goes round the gate on prod**: for every request, whatever Oracle answers, nothing is run
    for the caller that the gate would refuse just then, exactly when there is no session or the
    request's own condition holds. -/
theorem gate_bypass_iff (s : RpcState) (henv : s.core.safety.env = some .prod) (now : Time) (r : Request) :
    (∀ answers s' new, rpcStep s (r.action answers) = some (s', new) → NothingUngated s now new) ↔
      s.core.session = none ∨ r.gated s now = true := by
  have hnil : NothingUngated s now [] := by
    intro asker q id hq
    cases hq
  cases hs : s.core.session with
  | none =>
    simp only [true_or, iff_true]
    intro answers s' new hstep
    cases r with
    | call c =>
      simp only [Request.action, rpcStep, hs] at hstep
      cases hstep
      exact hnil
    | later i =>
      cases hl : s.later[i]? with
      | none =>
        simp only [Request.action, rpcStep, hl] at hstep
        cases hstep
      | some l =>
        simp only [Request.action, rpcStep, hl, hs] at hstep
        cases hstep
        exact hnil
  | some id =>
    simp only [reduceCtorEq, false_or]
    cases r with
    | call c =>
      have hsends : (∀ q, Sends s.core.safety c q → Gated s.core.safety s.core.windows now q) ↔ _ :=
        sends_gated_iff henv c
      rw [← handler_asks_iff (hasOwn_gated _ _ _), ← nothingUngated_iff (.call c) id] at hsends
      refine Iff.trans ⟨fun h answers => ?_, fun h answers s' new hstep => ?_⟩ hsends
      · exact h answers _ _ (by
          simp only [Request.action, rpcStep, hs]
          rfl)
      · cases rpcStep_cases hstep with
        | quiet => exact hnil
        | call hid =>
          rw [hs] at hid
          cases hid
          exact h answers
    | later i =>
      cases hl : s.later[i]? with
      | none =>
        simp only [Request.gated, hl, Option.all_none, iff_true]
        intro answers s' new hstep
        simp only [Request.action, rpcStep, hl] at hstep
        cases hstep
      | some l =>
        have hsends : (∀ q, SendsLater l q → Gated s.core.safety s.core.windows now q) ↔ _ :=
          sendsLater_gated_iff henv l
        rw [← laterHandler_asks_iff (hasOwn_gated _ _ _), ← nothingUngated_iff (.later l) id] at hsends
        simp only [Request.gated, hl, Option.all_some]
        refine Iff.trans ⟨fun h answers => ?_, fun h answers s' new hstep => ?_⟩ hsends
        · exact h answers _ _ (by
            simp only [Request.action, rpcStep, hl, hs]
            rfl)
        · cases rpcStep_cases hstep with
          | quiet => exact hnil
          | later hl' hid =>
            rw [hs] at hid
            rw [hl] at hl'
            cases hid
            cases hl'
            exact h answers

/-- A prod session with an ordinary confirmation open. -/
def confirmedProd : RpcState where
  core := { session := some 0, safety := { env := some .prod },
            windows := { ddl := some ⟨.ddl, 0, DDL_WINDOW_TTL_MS⟩ }, nextId := 1 }

/-- Under it a vector index is created as a statement of its own would be. -/
theorem gate_bypass_createIndex : ∃ answers s' new,
    rpcStep confirmedProd ((Request.call (.vectorCreateIndex ⟨"HR".toList, "DOCS".toList, "EMB".toList,
      "IX".toList, "COSINE".toList, 95, "hnsw".toList⟩)).action answers) = some (s', new) ∧
    NothingUngated confirmedProd 1 new :=
  ⟨[.ok []], _, _, rfl, (gate_bypass_iff confirmedProd rfl 1 (.call (.vectorCreateIndex ⟨"HR".toList,
    "DOCS".toList, "EMB".toList, "IX".toList, "COSINE".toList, 95, "hnsw".toList⟩))).mpr
      (.inr (by decide)) _ _ _ rfl⟩

/-- `debug.run` hands a `TRUNCATE` to Oracle on prod. -/
theorem gate_bypassed :
    ∃ s sql, RpcReaches anyRpc s [.core .cleared, .core (.opened 0 { env := some .prod })] ∧
      (∃ s', rpcStep s (.call (.debugRun sql) [.ok []]) =
        some (s', [.sent (.call (.debugRun sql)) ⟨.session, .dbmsOutput⟩ 0,
          .sent (.call (.debugRun sql)) ⟨.session, .statement sql⟩ 0])) ∧
      ¬ Admitted s.core.safety s.core.windows 1 sql :=
  ⟨_, "TRUNCATE TABLE t".toList, Run.Reaches.run [.core (.openSession { env := some .prod }),
    .core .connected] .start rfl, ⟨_, rfl⟩, by
      rw [admitted_iff rfl]
      decide⟩

end Veesker.Sidecar
