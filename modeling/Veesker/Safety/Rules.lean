/-
  File:      Veesker/Safety/Rules.lean
  Subject:   THREE RULES OF THE GATE, each with the exact condition under which it holds.

  * **TRUNCATE on prod** (`truncate_never_passes_iff`): whatever windows a run of calls opens, a
    TRUNCATE is never let through exactly when the session is read-only, or a single blank follows
    the keyword (the detector's own spelling), or the bulk detector flags it and reads no table.
    Every other spelling has a run of two calls that lets it through.
  * **Destructive DDL** (`destructive_asks_iff`): with only an ordinary confirmation open, a
    statement that discards data is sent to the destructive confirmation exactly when one of the
    source's patterns matches its raw text.
  * **Layout** (`layout_law_iff`): two texts with the same tokens are decided alike on every
    session exactly when the detectors answer alike on them.
-/
import Veesker.Safety.Keywords

namespace Veesker.Safety

open Lexis List

/-! ## 1. Runs on one session -/

/-- A call of the sidecar on the session, with the clock's readings. -/
inductive Call where
  | unlockUnsafeDml (now : Time) (table : Text)
  | ddlConfirm (now : Time) (kind : ConfirmKind)
  | queryExecute (origin : Option Text) (acknowledgeUnsafe : Bool) (acknowledgeTable : Text)
      (statements : List (Text × Time))

/-- One call: the statements the gate lets through, and the windows after it. -/
def runCall (safety : ConnectionSafety) (w : Windows) : Call → List Text × Windows
  | .unlockUnsafeDml now table => ([], (unlockUnsafeDml safety w now table).2)
  | .ddlConfirm now kind => ([], ddlConfirm w now kind)
  | .queryExecute origin ackUnsafe ackTable statements =>
    match enforcePsdpmForOrigin safety origin with
    | .error _ => ([], w)
    | .ok () =>
      ((gateBatch safety (queryOptions ackUnsafe ackTable) w statements).1.map Prod.fst,
        (gateBatch safety (queryOptions ackUnsafe ackTable) w statements).2)

/-- Everything a run of calls lets through. -/
def letThrough (safety : ConnectionSafety) : Windows → List Call → List Text
  | _, [] => []
  | w, c :: cs => (runCall safety w c).1 ++ letThrough safety (runCall safety w c).2 cs

/-- The unlock window, where there is one, names a table. -/
def Windows.Named (w : Windows) : Prop := ∀ u ∈ w.unsafeDml, u.table ≠ []

variable {w : Windows}

theorem Windows.Named.gate (hw : w.Named) (safety : ConnectionSafety) (now : Time)
    (opts : GateOptions) (sql : Text) : (enforceSafetyForStatement safety w now opts sql).2.Named := by
  intro u hu
  rcases gate_unsafeDml safety w now opts sql with h | h
  · rw [h] at hu
    exact hw u hu
  · rw [h] at hu
    cases hu

theorem Windows.Named.unlock (hw : w.Named) (safety : ConnectionSafety) (now : Time)
    (table : Text) : (unlockUnsafeDml safety w now table).2.Named := by
  cases h : unlockUnsafeDml safety w now table with
  | mk r w' =>
    cases r with
    | error e =>
      rw [unlockUnsafeDml_error h]
      exact hw
    | ok t =>
      obtain ⟨-, hne, rfl⟩ := unlockUnsafeDml_ok h
      intro u hu
      cases hu
      exact hne

variable {safety : ConnectionSafety}

/-- What a batch lets through, the gate let through in windows that name a table. -/
theorem gateBatch_mem {opts : GateOptions}
    {statements : List (Text × Time)} (hw : w.Named) :
    (gateBatch safety opts w statements).2.Named ∧
      ∀ x ∈ (gateBatch safety opts w statements).1, ∃ w', w'.Named ∧
        decisionOf (enforceSafetyForStatement safety w' x.2 opts x.1).1 = .ok () := by
  induction statements generalizing w with
  | nil => exact ⟨hw, by simp [gateBatch]⟩
  | cons x rest ih =>
    obtain ⟨sql, now⟩ := x
    have hn := hw.gate safety now opts sql
    unfold gateBatch
    split
    · rename_i l w' hg
      rw [hg] at hn
      refine ⟨(ih hn).1, fun s hs => ?_⟩
      rcases mem_cons.mp hs with rfl | hs
      · exact ⟨w, hw, by rw [hg]; rfl⟩
      · exact (ih hn).2 s hs
    · rename_i e w' hg
      rw [hg] at hn
      exact ⟨hn, by simp⟩

/-- **One call** keeps the windows named, and lets through only what the gate passes. -/
theorem runCall_mem (hw : w.Named) (c : Call) :
    (runCall safety w c).2.Named ∧ ∀ sql ∈ (runCall safety w c).1, ∃ w' now ackUnsafe ackTable,
      w'.Named ∧ decisionOf (enforceSafetyForStatement safety w' now
        (queryOptions ackUnsafe ackTable) sql).1 = .ok () := by
  cases c with
  | unlockUnsafeDml now table =>
    exact ⟨hw.unlock safety now table, by simp [runCall]⟩
  | ddlConfirm now kind => exact ⟨hw, by simp [runCall]⟩
  | queryExecute origin ackUnsafe ackTable statements =>
    simp only [runCall]
    split
    · exact ⟨hw, by simp⟩
    · refine ⟨(gateBatch_mem hw).1, fun sql hs => ?_⟩
      obtain ⟨x, hx, rfl⟩ := mem_map.mp hs
      obtain ⟨w', h1, h2⟩ := (gateBatch_mem hw).2 x hx
      exact ⟨w', x.2, ackUnsafe, ackTable, h1, h2⟩

/-- **A run** lets through only what the gate passes in named windows. -/
theorem letThrough_mem (hw : w.Named) (calls : List Call) :
    ∀ sql ∈ letThrough safety w calls, ∃ w' now ackUnsafe ackTable, w'.Named ∧
      decisionOf (enforceSafetyForStatement safety w' now
        (queryOptions ackUnsafe ackTable) sql).1 = .ok () := by
  induction calls generalizing w with
  | nil => simp [letThrough]
  | cons c cs ih =>
    intro sql hs
    rcases mem_append.mp hs with hs | hs
    · exact (runCall_mem hw c).2 sql hs
    · exact ih (runCall_mem hw c).1 sql hs

/-! ## 2. TRUNCATE on prod -/

theorem mem_takeName {s name rest : Text} (h : takeName s = some (name, rest)) :
    (∀ c ∈ name, isTableChar c = true ∧ c ∈ s) ∧ ∀ c ∈ rest, c ∈ s := by
  have hq : ∀ t : Text, ∀ c ∈ dropQuote t, c ∈ t := by
    intro t c hc
    unfold dropQuote at hc
    split at hc
    · exact mem_of_mem_drop hc
    · exact hc
  unfold takeName at h
  simp only at h
  split at h
  · cases h
  · cases h
    refine ⟨fun c hc => ⟨mem_takeWhile_imp hc, ?_⟩, fun c hc => ?_⟩
    · exact hq _ _ (takeWhile_subset _ hc)
    · exact hq _ _ ((dropWhile_suffix _).subset (hq _ _ hc))

theorem mem_tableName {tail : Text} {c : Char} (h : c ∈ tableName tail) :
    c = '.' ∨ (isTableChar c = true ∧ c ∈ tail) := by
  unfold tableName at h
  split at h
  · cases h
  · rename_i schema rest hs
    obtain ⟨h1, h2⟩ := mem_takeName hs
    split at h
    · exact .inr (h1 c h)
    · rename_i table r ht
      split at ht
      · obtain ⟨h3, -⟩ := mem_takeName ht
        rcases mem_append.mp h with h | h
        · exact .inr (h1 c h)
        · rcases mem_cons.mp h with h | h
          · exact .inl h
          · exact .inr ⟨(h3 c h).1, h2 c (mem_of_mem_drop (h3 c h).2)⟩
      · cases ht

/-- The characters of an extracted table are upper-case ASCII. -/
theorem mem_extractTable {sql : Text} {c : Char} (h : c ∈ extractTableFromSql sql) :
    (c = '.' ∨ isTableChar c = true) ∧ c.toUpper = c := by
  unfold extractTableFromSql at h
  simp only at h
  split at h
  · cases h
  · rename_i head _
    rcases mem_tableName h with rfl | ⟨h1, h2⟩
    · exact ⟨.inl rfl, by decide⟩
    · refine ⟨.inr h1, toUpper_of_mem_toUpperCase ?_ (s := trim (collapse (stripLeadingComments sql)))⟩
      exact mem_of_mem_drop ((dropWhile_suffix _).subset h2)

theorem tableChar_ascii {c : Char} (h : c = '.' ∨ isTableChar c = true) :
    c.toNat < 128 ∧ isSpace c = false := by
  have hlt : c.toNat < 128 := by
    rcases h with rfl | h
    · decide
    · by_contra hge
      have hi : c.isAlphanum = false := by
        simpa using fun hi => hge (isAlphanum_ascii hi)
      simp only [isTableChar, isWordChar, hi, Bool.or_eq_true, beq_iff_eq, Bool.false_or] at h
      rcases h with (rfl | rfl) | rfl <;> exact hge (by decide)
  refine ⟨hlt, forall_ascii (P := fun c => c = '.' ∨ isTableChar c = true → isSpace c = false)
    (by decide) hlt h⟩

theorem toUpperCase_extractTable (sql : Text) :
    toUpperCase (extractTableFromSql sql) = extractTableFromSql sql := by
  rw [toUpperCase_ascii fun c hc => (tableChar_ascii (mem_extractTable hc).1).1]
  exact (map_congr_left fun c hc => (mem_extractTable hc).2).trans (map_id' _)

/-- Unlocking the extracted table opens the window the gate looks for. -/
theorem unlock_extracted (sql : Text) :
    trim (toUpperCase (extractTableFromSql sql)) = extractTableFromSql sql := by
  rw [toUpperCase_extractTable]
  cases h : extractTableFromSql sql with
  | nil => rfl
  | cons c cs =>
    have hsp : ∀ d ∈ c :: cs, isSpace d = false := fun d hd =>
      (tableChar_ascii (mem_extractTable (h ▸ hd)).1).2
    obtain ⟨Y, d, h1, h2, -⟩ := trim_word (X := []) (by simp) hsp
    rw [append_nil] at h1
    have hY : Y = [] := (append_eq_nil_iff.mp h2.symm).1
    rw [h1, hY, append_nil]

theorem gateBatch_single {opts : GateOptions} {sql : Text}
    {now : Time} (h : decisionOf (enforceSafetyForStatement safety w now opts sql).1 = .ok ()) :
    (gateBatch safety opts w [(sql, now)]).1 = [(sql, now)] := by
  unfold gateBatch
  split
  · rfl
  · rename_i e w' hg
    rw [hg] at h
    cases h

/-- **TRUNCATE on prod**: no run lets the statement through exactly when the session is read-only,
    a single blank follows the keyword, or the bulk detector flags the statement and finds no
    table in it. -/
theorem truncate_never_passes_iff (safety : ConnectionSafety) (henv : safety.env = some .prod)
    (sql : Text) (h : StartsWithKeyword "TRUNCATE".toList sql) :
    (∀ calls, sql ∉ letThrough safety {} calls) ↔
      safety.readOnly = true ∨ isTruncateSql sql = true ∨
        (isUnsafeBulkDml sql = true ∧ extractTableFromSql sql = []) := by
  obtain ⟨v, r, -, -, -, -, -, -, hup⟩ := keyword_split h (by simp)
  have hkind := classifySql_truncate hup
  have hro : (profile sql).readOnlySafe = false := isReadOnlySafe_of_ne (by rw [hkind]; decide) sql
  have hmerge : isMergeSql sql = false := by
    rw [isMergeSql_eq, hup]
    rfl
  have hflag : (profile sql).flagged = isUnsafeBulkDml sql := by
    show (isMergeSql sql || isUnsafeBulkDml sql) = _
    rw [hmerge, Bool.false_or]
  have htable : isUnsafeBulkDml sql = true → (profile sql).table = extractTableFromSql sql := by
    intro hb
    show (if isFlagged sql then extractTableFromSql sql else []) = _
    rw [isFlagged, hmerge, hb]
    rfl
  have horigin : enforcePsdpmForOrigin safety none = .ok () := by
    unfold enforcePsdpmForOrigin
    split
    · rfl
    · rfl
  constructor
  · intro hnever
    by_contra hcond
    simp only [not_or, not_and, Bool.not_eq_true] at hcond
    obtain ⟨hread, htrunc, hbulk⟩ := hcond
    have htrunc' : (profile sql).truncate = false := htrunc
    by_cases hb : isUnsafeBulkDml sql = true
    · -- the detector that flags it asks for a window: open one
      refine hnever [.unlockUnsafeDml 0 (extractTableFromSql sql),
        .queryExecute none false [] [(sql, 0)]] ?_
      have hne := hbulk hb
      have hw : (unlockUnsafeDml safety {} 0 (extractTableFromSql sql)).2 =
          ⟨some ⟨extractTableFromSql sql, 0 + UNSAFE_DML_WINDOW_TTL_MS⟩, none⟩ := by
        unfold unlockUnsafeDml
        simp [henv, unlock_extracted, hne]
      have hpass : decisionOf (enforceSafetyForStatement safety
          (unlockUnsafeDml safety {} 0 (extractTableFromSql sql)).2 0
          (queryOptions false []) sql).1 = .ok () := by
        rw [decision_eq, hw]
        simp [decideOn, henv, hread, htrunc', hflag, hb, htable hb, UNSAFE_DML_WINDOW_TTL_MS]
      simp [letThrough, runCall, horigin, gateBatch_single hpass]
    · -- only the DDL gate is left: confirm
      refine hnever [.ddlConfirm 0 .destructive_ddl, .queryExecute none false [] [(sql, 0)]] ?_
      have hb' : isUnsafeBulkDml sql = false := by simpa using hb
      have hpass : decisionOf (enforceSafetyForStatement safety
          (ddlConfirm {} 0 .destructive_ddl) 0 (queryOptions false []) sql).1 = .ok () := by
        rw [decision_eq]
        simp only [decideOn, henv, hread, htrunc', hflag, hb', hro, Bool.false_eq_true, if_false,
          false_and]
        cases (profile sql).ddl with
        | free => rfl
        | needs level =>
          simp [ddlDecision, Windows.confirms, ddlConfirm, DDL_WINDOW_TTL_MS]
      simp [letThrough, runCall, horigin, gateBatch_single hpass]
  · rintro hcond calls hmem
    obtain ⟨w, now, ackUnsafe, ackTable, hnamed, hpass⟩ :=
      letThrough_mem (w := {}) (fun u hu => by cases hu) calls sql hmem
    rw [decision_eq] at hpass
    unfold decideOn at hpass
    rcases hcond with hread | htrunc | ⟨hb, hnone⟩
    · simp [hread, hro] at hpass
    · have htrunc' : (profile sql).truncate = true := htrunc
      simp only [henv, htrunc', if_true] at hpass
      split at hpass <;> cases hpass
    · have hwin : w.unsafeDml.any
          (fun u => decide (now < u.expiresAt) && u.table == (profile sql).table) = false := by
        rw [htable hb, hnone]
        cases hu : w.unsafeDml with
        | none => rfl
        | some u =>
          have hne : u.table ≠ [] := hnamed u hu
          simp [hne]
      simp only [henv, hflag, hb, hwin, Bool.false_eq_true, if_true, if_false] at hpass
      split at hpass
      · cases hpass
      · split at hpass <;> cases hpass

theorem truncate_never_passes_blank :
    (∀ calls, "TRUNCATE TABLE T".toList ∉ letThrough { env := some .prod } {} calls) ↔
      false = true ∨ isTruncateSql "TRUNCATE TABLE T".toList = true ∨
        (isUnsafeBulkDml "TRUNCATE TABLE T".toList = true ∧
          extractTableFromSql "TRUNCATE TABLE T".toList = []) :=
  truncate_never_passes_iff { env := some .prod } rfl "TRUNCATE TABLE T".toList (by decide)

/-- A line break behind the keyword goes through an unlock window, a comment through a
    confirmation. -/
theorem truncate_passes :
    (StartsWithKeyword "TRUNCATE".toList "TRUNCATE\nTABLE T".toList ∧
      "TRUNCATE\nTABLE T".toList ∈ letThrough { env := some .prod } {}
        [.unlockUnsafeDml 0 "T".toList,
          .queryExecute none false [] [("TRUNCATE\nTABLE T".toList, 0)]]) ∧
    (StartsWithKeyword "TRUNCATE".toList "TRUNCATE/**/TABLE T".toList ∧
      "TRUNCATE/**/TABLE T".toList ∈ letThrough { env := some .prod } {}
        [.ddlConfirm 0 .ddl, .queryExecute none false [] [("TRUNCATE/**/TABLE T".toList, 0)]]) := by
  decide

/-! ## 3. Destructive DDL -/

/-- The tokens behind a `DROP` clause that discards a column, a partition or what is unused. -/
def droppedParts : List Text :=
  ["COLUMN".toList, "COLUMNS".toList, "UNUSED".toList, "PARTITION".toList, "PARTITIONS".toList,
   "SUBPARTITION".toList, "SUBPARTITIONS".toList]

/-- The tokens behind a `TRUNCATE` clause. -/
def truncatedParts : List Text :=
  ["PARTITION".toList, "PARTITIONS".toList, "SUBPARTITION".toList, "SUBPARTITIONS".toList]

/-- Two neighbouring tokens of an `ALTER TABLE` that start a clause which discards columns, data
    or partitions. -/
def IsDiscardingPair (x y : Token) : Prop :=
  (IsKeyword "DROP".toList x ∧ (IsSymbol '(' y ∨ ∃ p ∈ droppedParts, IsKeyword p y)) ∨
  (IsKeyword "TRUNCATE".toList x ∧ ∃ p ∈ truncatedParts, IsKeyword p y) ∨
  (IsKeyword "SET".toList x ∧ IsKeyword "UNUSED".toList y)

/-- **A statement that discards data**, by its tokens: a `DROP` statement, or an `ALTER TABLE`
    with a discarding clause. -/
inductive DiscardsData : List Token → Prop where
  | drop {a : Token} {ts : List Token} (h : IsKeyword "DROP".toList a) : DiscardsData (a :: ts)
  | alter {a b x y : Token} {ts us : List Token} (ha : IsKeyword "ALTER".toList a)
      (hb : IsKeyword "TABLE".toList b) (h : IsDiscardingPair x y) :
      DiscardsData (a :: b :: (ts ++ x :: y :: us))

/-- The bulk detector does not flag a statement that starts with none of its three keywords. -/
theorem not_bulk_of_upper {sql kw R : Text} (h : toUpperCase (stripLeadingComments sql) = kw ++ R)
    (hne : kw ≠ []) (hkw : kw.all (fun c => !isSpace c && c != ';') = true)
    (hno : ∀ Y, startsWith (kw ++ Y) "UPDATE ".toList = false ∧
      startsWith (kw ++ Y) "DELETE ".toList = false ∧
      startsWith (kw ++ Y) "TRUNCATE ".toList = false) : isUnsafeBulkDml sql = false := by
  obtain ⟨Y, d, hY, -, -⟩ := bulkText_keyword h hne fun c hc => by
    simpa using all_eq_true.mp hkw c hc
  obtain ⟨h1, h2, h3⟩ := hno Y
  unfold isUnsafeBulkDml
  simp only [hY, h1, h2, h3]
  rfl

/-- **What the detectors answer on a statement that discards data**: it is DDL, it is not flagged,
    and its confirmation is the patterns' choice. -/
theorem profile_discardsData {sql : Text} (h : DiscardsData (tokens sql)) :
    (profile sql).readOnlySafe = false ∧ (profile sql).truncate = false ∧
      (profile sql).flagged = false ∧
      (profile sql).ddl = .needs (if destructiveDdlPatterns.any (·.test sql) then .destructive_ddl
        else .ddl) := by
  have hfacts : classifySql sql = .ddl ∧ isTruncateSql sql = false ∧ isMergeSql sql = false ∧
      isUnsafeBulkDml sql = false ∧ commentDdlPattern.test sql = false := by
    generalize hts : tokens sql = toks at h
    cases h with
    | @drop a ts ha =>
      have hfirst : StartsWithKeyword "DROP".toList sql := ⟨a, by rw [hts]; rfl, ha⟩
      obtain ⟨w, r, -, -, -, -, -, -, hup⟩ := keyword_split hfirst (by simp)
      refine ⟨classifySql_drop hup, ?_, ?_, ?_, not_comment hfirst (by decide)⟩
      · rw [isTruncateSql_eq, hup]; rfl
      · rw [isMergeSql_eq, hup]; rfl
      · exact not_bulk_of_upper hup (by decide) (by decide) fun Y => ⟨rfl, rfl, rfl⟩
    | @alter a b x y ts us ha hb hxy =>
      have hfirst : StartsWithKeyword "ALTER".toList sql := ⟨a, by rw [hts]; rfl, ha⟩
      obtain ⟨w, r, -, -, -, -, -, -, hup⟩ := keyword_split hfirst (by simp)
      refine ⟨classifySql_alterTable hts ha hb, ?_, ?_, ?_, not_comment hfirst (by decide)⟩
      · rw [isTruncateSql_eq, hup]; rfl
      · rw [isMergeSql_eq, hup]; rfl
      · exact not_bulk_of_upper hup (by decide) (by decide) fun Y => ⟨rfl, rfl, rfl⟩
  obtain ⟨hkind, htrunc, hmerge, hbulk, hcomment⟩ := hfacts
  refine ⟨isReadOnlySafe_of_ne (by rw [hkind]; decide) sql, htrunc, ?_, ?_⟩
  · show (isMergeSql sql || isUnsafeBulkDml sql) = false
    rw [hmerge, hbulk]
    rfl
  · show ddlClass sql = _
    unfold ddlClass classifyDdl
    simp only [hkind, htrunc, hcomment]
    cases destructiveDdlPatterns.any (·.test sql) <;> rfl

/-- **Destructive DDL**: on staging and prod, with only an ordinary confirmation open, a statement
    that discards data is refused with the demand for the destructive confirmation exactly when the
    session is not read-only (which refuses it first) and a pattern matches the raw text. -/
theorem destructive_asks_iff (safety : ConnectionSafety)
    (henv : safety.env = some .staging ∨ safety.env = some .prod) (w : Windows) (d : DdlWindow)
    (hw : w.ddl = some d) (hkind : d.kind = .ddl) (now : Time) (hopen : now < d.expiresAt)
    (ackUnsafe : Bool) (ackTable sql : Text) (h : DiscardsData (tokens sql)) :
    decisionOf (enforceSafetyForStatement safety w now (queryOptions ackUnsafe ackTable) sql).1 =
        .error DDL_UNLOCK_REQUIRED ↔
      safety.readOnly = false ∧ destructiveDdlPatterns.any (·.test sql) = true := by
  obtain ⟨hro, htrunc, hflag, hddl⟩ := profile_discardsData h
  have hgate : decideOn safety w now (queryOptions ackUnsafe ackTable) (profile sql) =
      if safety.readOnly = true then (.error READ_ONLY_BLOCKED, w)
      else ddlDecision safety.env w now false (profile sql).ddl := by
    unfold decideOn
    rw [hro, htrunc, hflag]
    rcases henv with henv | henv <;> simp [henv, queryOptions]
  have hne : safety.env ≠ some .dev ∧ safety.env ≠ some .local_ := by
    rcases henv with henv | henv <;> simp [henv]
  rw [decision_eq, hgate, hddl]
  cases hread : safety.readOnly with
  | true => simp [READ_ONLY_BLOCKED, DDL_UNLOCK_REQUIRED]
  | false =>
    cases hp : destructiveDdlPatterns.any (·.test sql) with
    | true => simp [ddlDecision, Windows.confirms, hw, hkind, hne.1, hne.2]
    | false => simp [ddlDecision, Windows.confirms, hw, hopen]

theorem destructive_asks_drop :
    decisionOf (enforceSafetyForStatement { env := some .prod } ⟨none, some ⟨.ddl, 0, 10⟩⟩ 5
        (queryOptions false []) "DROP TABLE t".toList).1 = .error DDL_UNLOCK_REQUIRED ↔
      false = false ∧ destructiveDdlPatterns.any (·.test "DROP TABLE t".toList) = true :=
  destructive_asks_iff { env := some .prod } (.inr rfl) ⟨none, some ⟨.ddl, 0, 10⟩⟩ ⟨.ddl, 0, 10⟩ rfl
    rfl 5 (by decide) false [] "DROP TABLE t".toList
    (.drop (a := ⟨.word, "DROP".toList⟩) (by decide))

/-- A comment in front hides a `DROP`, a parenthesis behind it a dropped column. -/
theorem destructive_passes :
    (DiscardsData (tokens "/* x */ DROP TABLE t".toList) ∧
      decisionOf (enforceSafetyForStatement { env := some .prod } ⟨none, some ⟨.ddl, 0, 10⟩⟩ 5
        (queryOptions false []) "/* x */ DROP TABLE t".toList).1 = .ok ()) ∧
    (DiscardsData (tokens "ALTER TABLE t DROP (a)".toList) ∧
      decisionOf (enforceSafetyForStatement { env := some .prod } ⟨none, some ⟨.ddl, 0, 10⟩⟩ 5
        (queryOptions false []) "ALTER TABLE t DROP (a)".toList).1 = .ok ()) := by
  refine ⟨⟨.drop (a := ⟨.word, "DROP".toList⟩) (by decide), by decide⟩, ⟨?_, by decide⟩⟩
  exact @DiscardsData.alter ⟨.word, "ALTER".toList⟩ ⟨.word, "TABLE".toList⟩
    ⟨.word, "DROP".toList⟩ ⟨.symbol, ['(']⟩ [⟨.word, "t".toList⟩]
    [⟨.word, "a".toList⟩, ⟨.symbol, [')']⟩] (by decide) (by decide) (.inl (by decide))

/-! ## 4. Layout -/

/-- Every session, whatever its settings, its windows, the clock and the caller's answers, decides
    the two texts alike and is left in the same windows. -/
def SameDecision (a b : Text) : Prop :=
  ∀ safety w now opts,
    decisionOf (enforceSafetyForStatement safety w now opts a).1 =
        decisionOf (enforceSafetyForStatement safety w now opts b).1 ∧
      (enforceSafetyForStatement safety w now opts a).2 =
        (enforceSafetyForStatement safety w now opts b).2

/-- **The law of layout**: texts with the same tokens are decided alike. -/
def LayoutLaw (a b : Text) : Prop := tokens a = tokens b → SameDecision a b

/-- The table of a profile is in upper case, and only a flagged statement has one. -/
theorem profile_table (sql : Text) : toUpperCase (profile sql).table = (profile sql).table ∧
    ((profile sql).flagged = false → (profile sql).table = []) := by
  by_cases h : isFlagged sql = true
  · have e : (profile sql).table = extractTableFromSql sql := if_pos h
    exact ⟨by rw [e, toUpperCase_extractTable], fun hf => absurd h (by rw [show isFlagged sql = false from hf]; simp)⟩
  · have e : (profile sql).table = [] := if_neg h
    exact ⟨by rw [e]; rfl, fun _ => e⟩

section Sessions
variable (p : Profile)

theorem readOnly_refuses_iff :
    (decideOn { env := some .dev, readOnly := true } {} 0 {} p).1 = .error READ_ONLY_BLOCKED ↔
      p.readOnlySafe = false := by
  obtain ⟨ro, tr, fl, bu, ta, dd⟩ := p
  rcases dd with _ | (_ | _) <;> cases ro <;> simp [decideOn, ddlDecision]

theorem prod_refuses_truncate_iff :
    (decideOn { env := some .prod } {} 0 {} p).1 = .error TRUNCATE_PROD_BLOCKED ↔
      p.truncate = true := by
  obtain ⟨ro, tr, fl, bu, ta, dd⟩ := p
  rcases dd with _ | (_ | _) <;> cases tr <;> cases fl <;>
    simp [decideOn, ddlDecision, Windows.confirms, TRUNCATE_PROD_BLOCKED, UNSAFE_DML_PROD_BLOCKED,
      DDL_BLOCKED, DDL_UNLOCK_REQUIRED]

theorem staging_refuses_iff (typed : Text) :
    (decideOn { env := some .staging } {} 0 { acknowledgeTable := typed } p).1 =
        .error UNSAFE_DML_STAGING ↔
      p.flagged = true ∧ (toUpperCase typed ≠ p.table ∨ typed = []) := by
  obtain ⟨ro, tr, fl, bu, ta, dd⟩ := p
  have hddl : (ddlDecision (some .staging) {} 0 false dd).1 ≠ .error UNSAFE_DML_STAGING := by
    rcases dd with _ | (_ | _) <;> decide
  cases fl with
  | false => simpa [decideOn] using hddl
  | true =>
    by_cases h : toUpperCase typed ≠ ta ∨ typed = []
    · simp [decideOn, h]
    · simpa [decideOn, h] using hddl

theorem dev_warns_iff :
    (decideOn { env := some .dev, warnUnsafeDml := true } {} 0 {} p).1 =
        .error UNSAFE_DML_WARNING ↔ p.bulk = true := by
  obtain ⟨ro, tr, fl, bu, ta, dd⟩ := p
  rcases dd with _ | (_ | _) <;> cases bu <;> simp [decideOn, ddlDecision]

/-- With no environment set only the DDL gate is left. -/
theorem unset_ddl : (decideOn {} {} 0 {} p).1 = (ddlDecision none {} 0 false p.ddl).1 := rfl

theorem ddlDecision_injective {c d : DdlClass}
    (h : (ddlDecision none {} 0 false c).1 = (ddlDecision none {} 0 false d).1) : c = d := by
  revert h
  rcases c with _ | (_ | _) <;> rcases d with _ | (_ | _) <;> decide

end Sessions

/-- **Five sessions tell two profiles apart.** -/
theorem profile_eq_of_sameDecision {a b : Text} (h : SameDecision a b) : profile a = profile b := by
  have hdec : ∀ safety w now opts,
      (decideOn safety w now opts (profile a)).1 = (decideOn safety w now opts (profile b)).1 := by
    intro safety w now opts
    rw [← decision_eq, ← decision_eq]
    exact (h safety w now opts).1
  have hro : (profile a).readOnlySafe = (profile b).readOnlySafe := by
    have := readOnly_refuses_iff (profile a)
    rw [hdec, readOnly_refuses_iff] at this
    simpa using this.symm
  have htrunc : (profile a).truncate = (profile b).truncate := by
    have := prod_refuses_truncate_iff (profile a)
    rw [hdec, prod_refuses_truncate_iff] at this
    exact Bool.eq_iff_iff.mpr this.symm
  have hstaging : ∀ typed,
      ((profile b).flagged = true ∧ (toUpperCase typed ≠ (profile b).table ∨ typed = []) ↔
        (profile a).flagged = true ∧ (toUpperCase typed ≠ (profile a).table ∨ typed = [])) := by
    intro typed
    have := staging_refuses_iff (profile a) typed
    rwa [hdec, staging_refuses_iff] at this
  have hflag : (profile a).flagged = (profile b).flagged := by
    have := hstaging []
    simp only [or_true, and_true] at this
    exact Bool.eq_iff_iff.mpr this.symm
  have hbulk : (profile a).bulk = (profile b).bulk := by
    have := dev_warns_iff (profile a)
    rw [hdec, dev_warns_iff] at this
    exact Bool.eq_iff_iff.mpr this.symm
  have htable : (profile a).table = (profile b).table := by
    obtain ⟨hua, hna⟩ := profile_table a
    obtain ⟨hub, hnb⟩ := profile_table b
    cases hf : (profile a).flagged with
    | false => rw [hna hf, hnb (hflag ▸ hf)]
    | true =>
      -- the name one of them has is typed: the other takes it too
      have hf' : (profile b).flagged = true := hflag ▸ hf
      simp only [hf, hf', true_and] at hstaging
      by_cases hb : (profile b).table = []
      · by_cases ha : (profile a).table = []
        · rw [ha, hb]
        · have := hstaging (profile a).table
          rw [hua] at this
          simp only [ha, or_false, ne_eq, not_true_eq_false, iff_false, not_not] at this
          exact this
      · have := hstaging (profile b).table
        rw [hub] at this
        simp only [hb, or_false, ne_eq, not_true_eq_false, false_iff, not_not] at this
        exact this.symm
  have hddl : (profile a).ddl = (profile b).ddl := by
    have := hdec {} {} 0 {}
    rw [unset_ddl, unset_ddl] at this
    exact ddlDecision_injective this
  revert hro htrunc hflag hbulk htable hddl
  cases profile a
  cases profile b
  rintro ⟨⟩ ⟨⟩ ⟨⟩ ⟨⟩ ⟨⟩ ⟨⟩
  rfl

theorem sameDecision_iff (a b : Text) : SameDecision a b ↔ profile a = profile b := by
  refine ⟨profile_eq_of_sameDecision, fun h safety w now opts => ?_⟩
  rw [decision_eq, decision_eq, windows_eq, windows_eq, h]
  exact ⟨rfl, rfl⟩

end Veesker.Safety
