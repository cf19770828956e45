/-
  File:      Veesker/Safety/Gate.lean
  Subject:   THE SAFETY GATE AND ITS WINDOWS (sidecar/src/oracle.ts, sidecar/src/errors.ts).

  Before a statement runs, `enforceSafetyForStatement` lets it through or refuses it with a coded
  error. What it decides on is the statement, the session's safety settings, two module-level
  windows (`Windows`: the one-shot unlock of an unsafe statement on prod, the DDL confirmation) and
  the clock; what it may change is the windows. The translation passes all of these explicitly.

  The gate asks the text six questions and nothing else. `Profile` is the list of the answers,
  `decideOn` the gate over a profile, and `gate_decision` says that the gate's decision is
  `decideOn` of the statement's profile.
-/
import Veesker.Safety.SqlKind

namespace Veesker.Safety

/-! ## 1. Error codes -/

def READ_ONLY_BLOCKED : Int := -32030
def UNSAFE_DML_WARNING : Int := -32031
def PSDPM_BLOCKED : Int := -32032
def UNSAFE_DML_STAGING : Int := -32038
def UNSAFE_DML_PROD_BLOCKED : Int := -32039
def TRUNCATE_PROD_BLOCKED : Int := -32040
def DDL_BLOCKED : Int := -32041
def DDL_UNLOCK_REQUIRED : Int := -32042

/-- `RpcCodedError`; `table` is the one field its `data` ever has here. -/
structure RpcCodedError where
  code : Int
  message : Text
  table : Option Text := none
  deriving DecidableEq

/-! ## 2. Settings and windows -/

inductive Env where
  | dev | staging | prod | local_
  deriving DecidableEq

def Env.name : Env → Text
  | .dev => "dev".toList
  | .staging => "staging".toList
  | .prod => "prod".toList
  | .local_ => "local".toList

/-- `${env}` in a message. -/
def envName (env : Option Env) : Text := env.elim "undefined".toList Env.name

/-- The part of `ConnectionSafety` the gates read. -/
structure ConnectionSafety where
  env : Option Env := none
  readOnly : Bool := false
  warnUnsafeDml : Bool := false
  psdpm : Bool := false
  deriving DecidableEq

/-- A clock reading, in milliseconds. -/
abbrev Time := Int

structure UnsafeDmlWindow where
  table : Text
  expiresAt : Time
  deriving DecidableEq

inductive ConfirmKind where
  | ddl | destructive_ddl
  deriving DecidableEq

structure DdlWindow where
  kind : ConfirmKind
  openedAt : Time
  expiresAt : Time
  deriving DecidableEq

/-- `_unsafeDmlWindow` and `_ddlWindow`. -/
structure Windows where
  unsafeDml : Option UnsafeDmlWindow := none
  ddl : Option DdlWindow := none
  deriving DecidableEq

def UNSAFE_DML_WINDOW_TTL_MS : Int := 15 * 60 * 1000

def DDL_WINDOW_TTL_MS : Int := 5 * 60 * 1000

/-- The options a caller passes. -/
structure GateOptions where
  acknowledgeUnsafe : Bool := false
  acknowledgeTable : Text := []
  dryRun : Bool := false
  deriving DecidableEq

/-- What a gate answers: a risk level or nothing when the statement passes, an error otherwise. -/
abbrev GateResult := Except RpcCodedError (Option DdlRiskLevel)

/-- `${table || "the target table"}`. -/
def tableOr (table : Text) : Text := if table = [] then "the target table".toList else table

/-! ## 3. The gate -/

def readOnlyError (kind : SqlKind) : RpcCodedError :=
  ⟨READ_ONLY_BLOCKED,
    "This connection is read-only — ".toList ++ kind.upperName ++ " statements are blocked. ".toList ++
      "Edit the connection to disable read-only mode if you need to run ".toList ++ kind.upperName ++
      ".".toList, none⟩

def truncateProdError : RpcCodedError :=
  ⟨TRUNCATE_PROD_BLOCKED,
    "TRUNCATE is permanently blocked on prod connections. No bypass is available.".toList, none⟩

def unsafeProdError (table : Text) : RpcCodedError :=
  ⟨UNSAFE_DML_PROD_BLOCKED,
    "Statement blocked on prod. Call workspace.unlockUnsafeDml with table \"".toList ++ tableOr table ++
      "\" to open a one-shot 15-minute window.".toList, some table⟩

def unsafeStagingError (table : Text) : RpcCodedError :=
  ⟨UNSAFE_DML_STAGING,
    "This statement will affect all rows in ".toList ++ tableOr table ++
      ". Type the table name to confirm.".toList, some table⟩

def stagingMismatchError (table typed : Text) : RpcCodedError :=
  ⟨UNSAFE_DML_STAGING,
    "Table name mismatch — expected \"".toList ++ table ++ "\", got \"".toList ++ toUpperCase typed ++
      "\".".toList, some table⟩

def unsafeWarningError : RpcCodedError :=
  ⟨UNSAFE_DML_WARNING,
    "This UPDATE/DELETE has no WHERE clause and will affect ALL rows. ".toList ++
      "Confirm you want to run it (the IDE will show a warning modal).".toList, none⟩

def destructiveDdlError (env : Option Env) : RpcCodedError :=
  ⟨DDL_UNLOCK_REQUIRED,
    "Destructive DDL requires explicit confirmation on ".toList ++ envName env ++
      ". Open the DDL confirmation dialog first.".toList, none⟩

def ddlError (env : Option Env) : RpcCodedError :=
  ⟨DDL_BLOCKED,
    "DDL statement requires confirmation on ".toList ++ envName env ++
      ". Open the DDL confirmation dialog first.".toList, none⟩

@[simp] theorem readOnlyError_code (k : SqlKind) : (readOnlyError k).code = READ_ONLY_BLOCKED := rfl
@[simp] theorem truncateProdError_code : truncateProdError.code = TRUNCATE_PROD_BLOCKED := rfl
@[simp] theorem unsafeProdError_code (t : Text) :
    (unsafeProdError t).code = UNSAFE_DML_PROD_BLOCKED := rfl
@[simp] theorem unsafeStagingError_code (t : Text) :
    (unsafeStagingError t).code = UNSAFE_DML_STAGING := rfl
@[simp] theorem stagingMismatchError_code (t u : Text) :
    (stagingMismatchError t u).code = UNSAFE_DML_STAGING := rfl
@[simp] theorem unsafeWarningError_code : unsafeWarningError.code = UNSAFE_DML_WARNING := rfl
@[simp] theorem destructiveDdlError_code (e : Option Env) :
    (destructiveDdlError e).code = DDL_UNLOCK_REQUIRED := rfl
@[simp] theorem ddlError_code (e : Option Env) : (ddlError e).code = DDL_BLOCKED := rfl

/-- A DDL window that is over is forgotten when a statement asks for it. -/
def Windows.dropExpiredDdl (w : Windows) (now : Time) : Windows :=
  match w.ddl with
  | some d => if d.expiresAt ≤ now then { w with ddl := none } else w
  | none => w

/-- The DDL gate of `enforceSafetyForStatement`: the part from `if (kind === "ddl")` on. -/
def enforceDdl (env : Option Env) (w : Windows) (now : Time) (opts : GateOptions) (kind : SqlKind)
    (sql : Text) : GateResult × Windows :=
  if kind ≠ .ddl then (.ok none, w)
  else
    let ddlLevel := classifyDdl sql
    if ddlLevel = .comment then (.ok none, w)
    else if isTruncateSql sql then (.ok none, w)
    else if env = some .dev ∨ env = some .local_ then
      (.ok (if opts.dryRun then some ddlLevel else none), w)
    else if opts.dryRun then (.ok (some ddlLevel), w)
    else if ddlLevel = .destructive_ddl then
      if w.ddl.any (fun d => d.kind = .destructive_ddl && decide (now < d.expiresAt)) then
        (.ok none, w)
      else (.error (destructiveDdlError env), w.dropExpiredDdl now)
    else
      if w.ddl.any (fun d => decide (now < d.expiresAt)) then (.ok none, w)
      else (.error (ddlError env), w.dropExpiredDdl now)

/-- **The gate**: what it answers to a statement, and the windows after it. -/
def enforceSafetyForStatement (safety : ConnectionSafety) (w : Windows) (now : Time)
    (opts : GateOptions) (sql : Text) : GateResult × Windows :=
  let kind := classifySql sql
  if safety.readOnly = true ∧ isReadOnlySafe kind sql = false then (.error (readOnlyError kind), w)
  else match safety.env with
    | some .prod =>
      if isTruncateSql sql then (.error truncateProdError, w)
      else if isMergeSql sql || isUnsafeBulkDml sql then
        let table := extractTableFromSql sql
        if w.unsafeDml.any (fun u => decide (now < u.expiresAt) && u.table == table) then
          (.ok none, { w with unsafeDml := none })
        else (.error (unsafeProdError table), w)
      else enforceDdl safety.env w now opts kind sql
    | some .staging =>
      if isMergeSql sql || isUnsafeBulkDml sql then
        let table := extractTableFromSql sql
        if opts.acknowledgeTable = [] then (.error (unsafeStagingError table), w)
        else if toUpperCase opts.acknowledgeTable ≠ table then
          (.error (stagingMismatchError table opts.acknowledgeTable), w)
        else enforceDdl safety.env w now opts kind sql
      else enforceDdl safety.env w now opts kind sql
    | _ =>
      if safety.warnUnsafeDml = true ∧ opts.acknowledgeUnsafe = false ∧ isUnsafeBulkDml sql then
        (.error unsafeWarningError, w)
      else enforceDdl safety.env w now opts kind sql

/-! ## 4. The calls that open and close windows -/

/-- `ddlConfirm`, which cannot fail. -/
def ddlConfirm (w : Windows) (now : Time) (kind : ConfirmKind) : Windows :=
  { w with ddl := some ⟨kind, now, now + DDL_WINDOW_TTL_MS⟩ }

def ddlUnlock (w : Windows) : Windows := { w with ddl := none }

def unlockUnsafeDml (safety : ConnectionSafety) (w : Windows) (now : Time) (table : Text) :
    Except RpcCodedError Time × Windows :=
  if safety.env ≠ some .prod then
    (.error ⟨UNSAFE_DML_PROD_BLOCKED,
      "workspace.unlockUnsafeDml is only available on prod connections.".toList, none⟩, w)
  else
    let table := trim (toUpperCase table)
    if table = [] then
      (.error ⟨UNSAFE_DML_PROD_BLOCKED,
        "table is required — pass the fully-qualified target (e.g. HR.EMPLOYEES).".toList, none⟩, w)
    else
      let expiresAt := now + UNSAFE_DML_WINDOW_TTL_MS
      (.ok expiresAt, { w with unsafeDml := some ⟨table, expiresAt⟩ })

/-- A granted unlock: the session is on prod, and the window is the caller's table's. -/
theorem unlockUnsafeDml_ok {safety : ConnectionSafety} {w w' : Windows} {now t : Time} {table : Text}
    (h : unlockUnsafeDml safety w now table = (.ok t, w')) :
    safety.env = some .prod ∧ trim (toUpperCase table) ≠ [] ∧ w' = { w with
      unsafeDml := some ⟨trim (toUpperCase table), now + UNSAFE_DML_WINDOW_TTL_MS⟩ } := by
  unfold unlockUnsafeDml at h
  simp only at h
  split_ifs at h with h1 h2
  · cases h
  · cases h
  · cases h
    exact ⟨by simpa using h1, h2, rfl⟩

/-- A refused unlock changes nothing. -/
theorem unlockUnsafeDml_error {safety : ConnectionSafety} {w w' : Windows} {now : Time}
    {table : Text} {e : RpcCodedError}
    (h : unlockUnsafeDml safety w now table = (.error e, w')) : w' = w := by
  unfold unlockUnsafeDml at h
  simp only at h
  split_ifs at h with h1 h2
  · cases h
    rfl
  · cases h
    rfl
  · cases h

/-- `enforcePsdpmForOrigin`, with the origin as the caller gave it. -/
def enforcePsdpmForOrigin (safety : ConnectionSafety) (origin : Option Text) :
    Except RpcCodedError Unit :=
  if safety.psdpm = false ∧ safety.env ≠ some .prod then .ok ()
  else if ["user_typed".toList, "user_clicked".toList].contains (origin.getD "user_typed".toList) then
    .ok ()
  else .error ⟨PSDPM_BLOCKED,
    "PSDPM active: only user-initiated statements allowed (origin: ".toList ++
      origin.getD "unspecified".toList ++ ")".toList, none⟩

/-! ## 5. Batches -/

/-- The options `queryExecute` passes on to the gate. -/
def queryOptions (acknowledgeUnsafe : Bool) (acknowledgeTable : Text) : GateOptions :=
  { acknowledgeUnsafe, acknowledgeTable }

/-- The gate over a batch, in order, up to the first refusal: what it lets through, with the clock's
    readings, and the windows after it. -/
def gateBatch (safety : ConnectionSafety) (opts : GateOptions) :
    Windows → List (Text × Time) → List (Text × Time) × Windows
  | w, [] => ([], w)
  | w, (sql, now) :: rest =>
    match enforceSafetyForStatement safety w now opts sql with
    | (.ok _, w') =>
      ((sql, now) :: (gateBatch safety opts w' rest).1, (gateBatch safety opts w' rest).2)
    | (.error _, w') => ([], w')

/-! ## 6. The gate over a profile -/

/-- What DDL gate a statement meets. -/
inductive DdlClass where
  | free
  | needs (level : ConfirmKind)
  deriving DecidableEq

/-- The confirmation a statement of the DDL gate needs; none for a `COMMENT ON`, and none for a
    `TRUNCATE`, which the gate leaves to the unsafe-DML rules. -/
def ddlClass (sql : Text) : DdlClass :=
  if classifySql sql ≠ .ddl ∨ isTruncateSql sql = true then .free
  else match classifyDdl sql with
    | .comment => .free
    | .destructive_ddl => .needs .destructive_ddl
    | .ddl => .needs .ddl

/-- **The answers the gate decides on.** -/
structure Profile where
  readOnlySafe : Bool
  truncate : Bool
  /-- flagged by the MERGE or the unsafe-DML detector -/
  flagged : Bool
  bulk : Bool
  /-- the target of a flagged statement -/
  table : Text
  ddl : DdlClass
  deriving DecidableEq

def isFlagged (sql : Text) : Bool := isMergeSql sql || isUnsafeBulkDml sql

def profile (sql : Text) : Profile where
  readOnlySafe := isReadOnlySafe (classifySql sql) sql
  truncate := isTruncateSql sql
  flagged := isFlagged sql
  bulk := isUnsafeBulkDml sql
  table := if isFlagged sql then extractTableFromSql sql else []
  ddl := ddlClass sql

/-- Let through, or the refusal's code. -/
abbrev Decision := Except Int Unit

def decisionOf (r : GateResult) : Decision :=
  match r with
  | .ok _ => .ok ()
  | .error e => .error e.code

@[simp] theorem decisionOf_ok (l : Option DdlRiskLevel) : decisionOf (.ok l) = .ok () := rfl
@[simp] theorem decisionOf_error (e : RpcCodedError) : decisionOf (.error e) = .error e.code := rfl

/-- Whether an open window covers a confirmation of this kind. -/
def Windows.confirms (w : Windows) (now : Time) (level : ConfirmKind) : Bool :=
  w.ddl.any fun d => (d.kind = .destructive_ddl || level = .ddl) && decide (now < d.expiresAt)

def ddlDecision (env : Option Env) (w : Windows) (now : Time) (dryRun : Bool) (c : DdlClass) :
    Decision × Windows :=
  match c with
  | .free => (.ok (), w)
  | .needs level =>
    if env = some .dev ∨ env = some .local_ ∨ dryRun = true ∨ w.confirms now level = true then
      (.ok (), w)
    else
      (.error (if level = .destructive_ddl then DDL_UNLOCK_REQUIRED else DDL_BLOCKED),
        w.dropExpiredDdl now)

/-- The gate, as a function of the answers. -/
def decideOn (safety : ConnectionSafety) (w : Windows) (now : Time) (opts : GateOptions)
    (p : Profile) : Decision × Windows :=
  if safety.readOnly = true ∧ p.readOnlySafe = false then (.error READ_ONLY_BLOCKED, w)
  else match safety.env with
    | some .prod =>
      if p.truncate then (.error TRUNCATE_PROD_BLOCKED, w)
      else if p.flagged then
        if w.unsafeDml.any (fun u => decide (now < u.expiresAt) && u.table == p.table) then
          (.ok (), { w with unsafeDml := none })
        else (.error UNSAFE_DML_PROD_BLOCKED, w)
      else ddlDecision safety.env w now opts.dryRun p.ddl
    | some .staging =>
      if p.flagged ∧ toUpperCase opts.acknowledgeTable ≠ p.table ∨
          p.flagged ∧ opts.acknowledgeTable = [] then (.error UNSAFE_DML_STAGING, w)
      else ddlDecision safety.env w now opts.dryRun p.ddl
    | _ =>
      if safety.warnUnsafeDml = true ∧ opts.acknowledgeUnsafe = false ∧ p.bulk then
        (.error UNSAFE_DML_WARNING, w)
      else ddlDecision safety.env w now opts.dryRun p.ddl

theorem enforceDdl_decision (env : Option Env) (w : Windows) (now : Time) (opts : GateOptions)
    (sql : Text) :
    (decisionOf (enforceDdl env w now opts (classifySql sql) sql).1,
      (enforceDdl env w now opts (classifySql sql) sql).2) =
      ddlDecision env w now opts.dryRun (ddlClass sql) := by
  unfold enforceDdl ddlClass
  by_cases hk : classifySql sql = .ddl
  · by_cases ht : isTruncateSql sql = true
    · cases classifyDdl sql <;> simp [hk, ht, ddlDecision]
    · have ht' : isTruncateSql sql = false := by simpa using ht
      by_cases he : env = some .dev ∨ env = some .local_
      · have he' (q : Prop) : env = some .dev ∨ env = some .local_ ∨ q :=
          he.elim .inl fun h => .inr (.inl h)
        cases classifyDdl sql <;> simp [hk, ht', he, he', ddlDecision]
      · obtain ⟨hd, hl⟩ := not_or.mp he
        cases hdry : opts.dryRun with
        | true => cases classifyDdl sql <;> simp [hk, ht', ddlDecision, hd, hl]
        | false =>
          cases classifyDdl sql with
          | comment => simp [hk, ddlDecision]
          | ddl =>
            simp only [hk, ht', hd, hl, ddlDecision, Windows.confirms]
            by_cases hw : w.ddl.any (fun d => decide (now < d.expiresAt)) = true
            · simp [hw]
            · simp [hw]
          | destructive_ddl =>
            simp only [hk, ht', hd, hl, ddlDecision, Windows.confirms]
            by_cases hw : w.ddl.any
                (fun d => d.kind = .destructive_ddl && decide (now < d.expiresAt)) = true
            · simp [hw]
            · simp [hw]
  · simp [hk, ddlDecision]

/-- **The gate's decision is a function of the statement's profile.** -/
theorem gate_decision (safety : ConnectionSafety) (w : Windows) (now : Time) (opts : GateOptions)
    (sql : Text) :
    (decisionOf (enforceSafetyForStatement safety w now opts sql).1,
      (enforceSafetyForStatement safety w now opts sql).2) =
      decideOn safety w now opts (profile sql) := by
  obtain ⟨env, readOnly, warnUnsafeDml, psdpm⟩ := safety
  have hddl := enforceDdl_decision env w now opts sql
  unfold enforceSafetyForStatement decideOn profile isFlagged
  by_cases hro : readOnly = true ∧ isReadOnlySafe (classifySql sql) sql = false
  · simp [hro]
  · simp only [if_neg hro]
    -- where neither prod nor staging is set, the warning comes before the DDL gate
    have hwarn : ∀ r : GateResult × Windows,
        (decisionOf r.1, r.2) = ddlDecision env w now opts.dryRun (ddlClass sql) →
        (decisionOf (if warnUnsafeDml = true ∧ opts.acknowledgeUnsafe = false ∧
              isUnsafeBulkDml sql = true then (.error unsafeWarningError, w) else r).1,
          (if warnUnsafeDml = true ∧ opts.acknowledgeUnsafe = false ∧
              isUnsafeBulkDml sql = true then (.error unsafeWarningError, w) else r).2) =
          if warnUnsafeDml = true ∧ opts.acknowledgeUnsafe = false ∧
              isUnsafeBulkDml sql = true then (.error UNSAFE_DML_WARNING, w)
          else ddlDecision env w now opts.dryRun (ddlClass sql) := by
      intro r hr
      split
      · simp
      · exact hr
    cases env with
    | none => exact hwarn _ hddl
    | some env =>
      cases env with
      | dev => exact hwarn _ hddl
      | local_ => exact hwarn _ hddl
      | prod =>
        by_cases ht : isTruncateSql sql = true
        · simp [ht]
        · by_cases hf : (isMergeSql sql || isUnsafeBulkDml sql) = true
          · simp only [ht, hf, if_true]
            by_cases hu : w.unsafeDml.any (fun u => decide (now < u.expiresAt) &&
                u.table == extractTableFromSql sql) = true
            · simp [hu]
            · simp [hu]
          · simp only [ht, hf]
            exact hddl
      | staging =>
        by_cases hf : (isMergeSql sql || isUnsafeBulkDml sql) = true
        · simp only [hf, if_true, true_and]
          by_cases hack : opts.acknowledgeTable = []
          · simp [hack]
          · by_cases hm : toUpperCase opts.acknowledgeTable ≠ extractTableFromSql sql
            · simp [hack, hm]
            · simp only [hack, hm, if_false, or_self]
              exact hddl
        · simp only [hf]
          simpa using hddl

/-- The gate's decision, where only it matters. -/
theorem decision_eq (safety : ConnectionSafety) (w : Windows) (now : Time) (opts : GateOptions)
    (sql : Text) : decisionOf (enforceSafetyForStatement safety w now opts sql).1 =
      (decideOn safety w now opts (profile sql)).1 :=
  congrArg Prod.fst (gate_decision safety w now opts sql)

theorem windows_eq (safety : ConnectionSafety) (w : Windows) (now : Time) (opts : GateOptions)
    (sql : Text) : (enforceSafetyForStatement safety w now opts sql).2 =
      (decideOn safety w now opts (profile sql)).2 :=
  congrArg Prod.snd (gate_decision safety w now opts sql)

/-- A batch that is let through as a whole is let through as it is. -/
theorem gateBatch_prefix (safety : ConnectionSafety) (opts : GateOptions) (w : Windows)
    (statements : List (Text × Time)) :
    (gateBatch safety opts w statements).1 <+: statements := by
  induction statements generalizing w with
  | nil => exact List.prefix_rfl
  | cons x rest ih =>
    unfold gateBatch
    split
    · exact (List.prefix_cons_inj _).mpr (ih _)
    · exact List.nil_prefix

theorem ddlDecision_unsafeDml (env : Option Env) (w : Windows) (now : Time) (dry : Bool)
    (c : DdlClass) : (ddlDecision env w now dry c).2.unsafeDml = w.unsafeDml := by
  unfold ddlDecision
  have hdrop : (w.dropExpiredDdl now).unsafeDml = w.unsafeDml := by
    unfold Windows.dropExpiredDdl
    split
    · split <;> rfl
    · rfl
  cases c with
  | free => rfl
  | needs level =>
    simp only
    split
    · rfl
    · exact hdrop

/-- The gate keeps the unlock window or uses it up. -/
theorem gate_unsafeDml (safety : ConnectionSafety) (w : Windows) (now : Time) (opts : GateOptions)
    (sql : Text) :
    (enforceSafetyForStatement safety w now opts sql).2.unsafeDml = w.unsafeDml ∨
      (enforceSafetyForStatement safety w now opts sql).2.unsafeDml = none := by
  have h := congrArg Prod.snd (gate_decision safety w now opts sql)
  simp only at h
  rw [h]
  unfold decideOn
  repeat' split
  all_goals first
    | exact .inl rfl
    | exact .inr rfl
    | exact .inl (ddlDecision_unsafeDml _ _ _ _ _)

/-- So does a batch. -/
theorem gateBatch_unsafeDml (safety : ConnectionSafety) (opts : GateOptions) (w : Windows)
    (statements : List (Text × Time)) :
    (gateBatch safety opts w statements).2.unsafeDml = w.unsafeDml ∨
      (gateBatch safety opts w statements).2.unsafeDml = none := by
  induction statements generalizing w with
  | nil => exact .inl rfl
  | cons x rest ih =>
    have hg := gate_unsafeDml safety w x.2 opts x.1
    unfold gateBatch
    split
    · rename_i l w' h
      rw [h] at hg
      rcases ih w' with hi | hi
      · exact hg.imp hi.trans hi.trans
      · exact .inr hi
    · rename_i e w' h
      rwa [h] at hg

/-! ## 7. From prod to the other environments -/

section

variable {safety : ConnectionSafety} {w w' : Windows} {opts : GateOptions}

/-- What prod lets through with no unlock window is flagged nowhere, and confirmed if it has to be. -/
theorem decideOn_prod {now : Time} {p : Profile} (henv : safety.env = some .prod)
    (hw : w.unsafeDml = none) (hbulk : p.bulk = true → p.flagged = true)
    (h : decideOn safety w now opts p = (.ok (), w')) (env : Option Env) (warnUnsafeDml : Bool) :
    w' = w ∧ decideOn { safety with env, warnUnsafeDml } w now opts p = (.ok (), w) := by
  simp only [decideOn, henv, hw, Option.any_none, Bool.false_eq_true, if_false] at h
  split_ifs at h with hread htruncate hflagged
  iterate 3 cases h
  have hddl : w' = w ∧ ddlDecision env w now opts.dryRun p.ddl = (.ok (), w) := by
    cases hd : p.ddl with
    | free =>
      rw [hd] at h
      exact ⟨(congrArg Prod.snd h).symm, rfl⟩
    | needs level =>
      rw [hd] at h
      simp only [ddlDecision] at h ⊢
      split at h
      · rename_i hconfirmed
        refine ⟨(congrArg Prod.snd h).symm, if_pos (.inr (.inr ?_))⟩
        rcases hconfirmed with h | h | h
        · cases h
        · cases h
        · exact h
      · cases h
  refine ⟨hddl.1, ?_⟩
  rw [decideOn, if_neg hread]
  split
  · rw [if_neg htruncate, if_neg hflagged]
    exact hddl.2
  · rw [if_neg (by simp [hflagged])]
    exact hddl.2
  · rw [if_neg fun h => hflagged (hbulk h.2.2)]
    exact hddl.2

/-- **Prod is the strictest**: a batch that prod lets through with no unlock window open, every
    environment lets through. -/
theorem gateBatch_prod {statements : List (Text × Time)} (henv : safety.env = some .prod)
    (hw : w.unsafeDml = none) (h : (gateBatch safety opts w statements).1 = statements)
    (env : Option Env) (warnUnsafeDml : Bool) :
    (gateBatch { safety with env, warnUnsafeDml } opts w statements).1 = statements := by
  induction statements with
  | nil => rfl
  | cons x rest ih =>
    obtain ⟨sql, now⟩ := x
    have hprod := gate_decision safety w now opts sql
    have hother := gate_decision { safety with env, warnUnsafeDml } w now opts sql
    rw [gateBatch] at h ⊢
    split at h
    · rename_i l w' hg
      rw [hg] at hprod
      obtain ⟨rfl, hok⟩ := decideOn_prod henv hw (fun h => Bool.or_eq_true_iff.mpr (.inr h))
        hprod.symm env warnUnsafeDml
      rw [hok] at hother
      split
      · rename_i l' w'' hg'
        rw [hg'] at hother
        obtain rfl : w'' = w' := congrArg Prod.snd hother
        exact congrArg (_ :: ·) (ih (List.cons.inj h).2)
      · rename_i e w'' hg'
        rw [hg'] at hother
        cases hother
    · cases h

end

/-- A confirmed DROP, also on staging. -/
theorem gateBatch_prod_drop :
    (gateBatch { env := some .staging } {} (ddlConfirm {} 0 .destructive_ddl)
      [("DROP TABLE t".toList, 1)]).1 = [("DROP TABLE t".toList, 1)] :=
  have h : (gateBatch { env := some .prod } {} (ddlConfirm {} 0 .destructive_ddl)
      [("DROP TABLE t".toList, 1)]).1 = [("DROP TABLE t".toList, 1)] := by decide
  gateBatch_prod rfl rfl h (some .staging) false

end Veesker.Safety
