/-
  File:      Veesker/Safety/ReadOnlyRule.lean
  Subject:   WHAT THE READ-ONLY RULE LETS THROUGH, in Oracle's classes of statements.

  `isReadOnlySafe` asks how the upper-cased text starts; Oracle asks for the first tokens. What the
  rule lets through and yet changes data or runs its author's code is of two kinds only
  (`slips_through_cases`): an `EXPLAIN PLAN` whose two words are kept apart by something else than
  white space, and a query that declares PL/SQL in its `WITH` clause.
-/
import Veesker.Safety.Leading
import Veesker.Lexis.Statement
import Veesker.Safety.Gate

namespace Veesker.Safety

open Lexis List

/-- The words `classifySql` takes for the start of a query. -/
def selectWords : List Text := ["SELECT".toList, "WITH".toList, "EXPLAIN".toList, "DESC".toList]

variable {sql : Text}

theorem startsWith_of_classifySql (h : classifySql sql = .select) :
    startsWithAny (toUpperCase (stripLeadingComments sql)) selectWords = true := by
  unfold classifySql at h
  simp only at h
  by_contra hno
  rw [if_neg (by simpa [selectWords] using hno)] at h
  repeat' split at h
  all_goals cases h

theorem isReadOnlySafe_select (h : isReadOnlySafe (classifySql sql) sql = true) :
    classifySql sql = .select := by
  rw [isReadOnlySafe, Bool.and_eq_true, beq_iff_eq] at h
  exact h.1

/-- What starts a query by its text starts with a character of a word. -/
theorem head_of_classifySql (h : classifySql sql = .select) :
    ∃ c s, stripLeadingComments sql = c :: s ∧ isIdentChar c = true := by
  have hs := startsWith_of_classifySql h
  cases hsql : stripLeadingComments sql with
  | nil =>
    rw [hsql] at hs
    exact absurd hs (by decide)
  | cons c s =>
    refine ⟨c, s, rfl, ?_⟩
    by_contra hc
    have hc' : isIdentChar c = false := by simpa using hc
    rw [hsql, toUpperCase_cons, upperChar_of_not_ident hc', startsWithAny, any_eq_true] at hs
    obtain ⟨w, hw, hpre⟩ := hs
    obtain ⟨r, hr⟩ := startsWith_iff.mp hpre
    have hident : selectWords.all (fun w => !w.isEmpty && w.all isIdentChar) = true := by
      decide
    have hboth := all_eq_true.mp hident w hw
    rw [Bool.and_eq_true, all_eq_true] at hboth
    obtain ⟨hne, hall⟩ := hboth
    cases w with
    | nil => cases hne
    | cons d w =>
      simp only [cons_append, nil_append, List.cons.injEq] at hr
      rw [← hr.1] at hall
      rw [hall c mem_cons_self] at hc'
      cases hc'

/-- Two words that do not start alike. -/
def apart (a b : Text) : Bool := !startsWith a b && !startsWith b a

theorem not_select_of_apart {sql kw : Text} (h : StartsWithKeyword kw sql)
    (hascii : ∀ c ∈ kw, c.toNat < 128) (hapart : ∀ w ∈ selectWords, apart kw w = true) :
    classifySql sql ≠ .select := by
  intro hsel
  obtain ⟨-, r, -, -, -, -, -, -, hup⟩ := keyword_split h hascii
  have hs := startsWith_of_classifySql hsel
  rw [hup, startsWithAny, any_eq_true] at hs
  obtain ⟨w, hw, hpre⟩ := hs
  obtain ⟨t, ht⟩ := startsWith_iff.mp hpre
  have happ := hapart w hw
  rw [apart, Bool.and_eq_true, Bool.not_eq_true', Bool.not_eq_true'] at happ
  -- of two starts of one text one starts the other
  have hkw : kw <+: kw ++ toUpperCase r := prefix_append _ _
  have hw' : w <+: kw ++ toUpperCase r := ⟨t, ht.symm⟩
  rcases prefix_or_prefix_of_prefix hkw hw' with hp | hp
  · obtain ⟨u, hu⟩ := hp
    rw [startsWith_iff.mpr ⟨u, hu.symm⟩] at happ
    cases happ.2
  · obtain ⟨u, hu⟩ := hp
    rw [startsWith_iff.mpr ⟨u, hu.symm⟩] at happ
    cases happ.1

/-- The keywords of the statements that change something, but for `EXPLAIN` and `WITH`. -/
def changingKeywords : List Text :=
  dmlKeywords ++ ddlKeywords ++ blockKeywords ++ ["CALL".toList, "COMMIT".toList]

theorem changingKeywords_apart {kw : Text} (h : kw ∈ changingKeywords) :
    (∀ c ∈ kw, c.toNat < 128) ∧ (∀ w ∈ selectWords, apart kw w = true) ∧ kw ≠ [] := by
  have hall : changingKeywords.all (fun kw => kw.all (fun c => decide (c.toNat < 128)) &&
      selectWords.all (apart kw) && !kw.isEmpty) = true := by
    decide
  have hkw := all_eq_true.mp hall kw h
  rw [Bool.and_eq_true, Bool.and_eq_true, all_eq_true, all_eq_true] at hkw
  refine ⟨fun c hc => by simpa using hkw.1.1 c hc, hkw.1.2, fun e => ?_⟩
  rw [e] at hkw
  cases hkw.2

theorem startsWithKeyword_iff {kw sql : Text} (hne : kw ≠ []) :
    StartsWithKeyword kw sql ↔ StartsWith kw sql := by
  unfold StartsWithKeyword StartsWith IsKeyword
  cases tokens sql with
  | nil => simp
  | cons t ts =>
    simp only [List.head?_cons, Option.mem_def, Option.some.injEq, exists_eq_left',
      List.getElem?_cons_zero, Option.map_some]
    exact (Token.keyword_eq hne).symm

/-- **A statement that starts with a keyword of change is not taken for a query.** -/
theorem not_select_of_keyword {sql kw : Text} (h : StartsWith kw sql) (hkw : kw ∈ changingKeywords) :
    classifySql sql ≠ .select := by
  obtain ⟨hascii, hapart, hne⟩ := changingKeywords_apart hkw
  exact not_select_of_apart ((startsWithKeyword_iff hne).mpr h) hascii hapart

/-- A labelled block is not taken for a query. -/
theorem not_select_of_label (h : (tokens sql)[0]? = some ⟨.symbol, ['<']⟩) :
    classifySql sql ≠ .select := by
  intro hsel
  obtain ⟨c, s, hstrip, hc⟩ := head_of_classifySql hsel
  rw [← tokens_stripLeadingComments, hstrip] at h
  rcases tokens_ident (s := s) hc with ⟨w, r, -, -, -, -, -, e⟩ | ⟨t, ts, e, hk⟩
  · rw [e] at h
    cases h
  · rw [e] at h
    cases h
    cases hk

/-- The changing classes, by the first token. -/
theorem changes_cases (h : (statementClass sql).changes = true) :
    statementClass sql = .explainPlan ∨ statementClass sql = .routineQuery ∨
      (∃ kw ∈ changingKeywords, StartsWith kw sql) ∨
        (tokens sql)[0]? = some ⟨.symbol, ['<']⟩ := by
  have hfirst : ∀ kw : Text, kw ≠ [] → ((tokens sql)[0]?.map Token.keyword).getD [] = kw →
      StartsWith kw sql := by
    intro kw hne hkw
    unfold StartsWith
    cases htok : (tokens sql)[0]?.map Token.keyword with
    | none =>
      rw [htok] at hkw
      exact absurd hkw.symm hne
    | some k =>
      rw [htok] at hkw
      exact congrArg some hkw
  have hmem : ∀ kw ∈ changingKeywords, ((tokens sql)[0]?.map Token.keyword).getD [] = kw →
      ∃ kw ∈ changingKeywords, StartsWith kw sql := fun kw hkw e =>
    ⟨kw, hkw, hfirst kw (changingKeywords_apart hkw).2.2 e⟩
  have hsub : ∀ kw, kw ∈ dmlKeywords ∨ kw ∈ ddlKeywords ∨ kw ∈ blockKeywords ∨ kw = "CALL".toList ∨
      kw = "COMMIT".toList → kw ∈ changingKeywords := by
    intro kw hkw
    simp only [changingKeywords, mem_append, mem_cons, not_mem_nil, or_false]
    tauto
  unfold statementClass classOf at h ⊢
  simp only at h ⊢
  generalize hf : ((tokens sql)[0]?.map Token.keyword).getD [] = first at h ⊢ hmem
  generalize ((tokens sql)[1]?.map Token.keyword).getD [] = second at h ⊢
  by_cases h1 : first = "SELECT".toList
  · simp only [if_pos h1] at h
    cases h
  by_cases h2 : first = "WITH".toList
  · simp only [if_neg h1, if_pos h2] at h ⊢
    split at h
    · rename_i hr
      exact .inr (.inl (if_pos hr))
    · cases h
  by_cases h3 : first = "EXPLAIN".toList
  · simp only [if_neg h1, if_neg h2, if_pos h3] at h ⊢
    split at h
    · rename_i hp
      exact .inl (if_pos hp)
    · cases h
  by_cases h4 : first ∈ dmlKeywords
  · exact .inr (.inr (.inl (hmem first (hsub _ (.inl h4)) rfl)))
  by_cases h5 : first = "ALTER".toList ∧ (second = "SESSION".toList ∨ second = "SYSTEM".toList)
  · simp only [if_neg h1, if_neg h2, if_neg h3, if_neg h4, if_pos h5] at h
    cases h
  by_cases h6 : first ∈ ddlKeywords
  · exact .inr (.inr (.inl (hmem first (hsub _ (.inr (.inl h6))) rfl)))
  by_cases h7 : first ∈ blockKeywords
  · exact .inr (.inr (.inl (hmem first (hsub _ (.inr (.inr (.inl h7)))) rfl)))
  by_cases h8 : (tokens sql)[0]? = some ⟨.symbol, ['<']⟩
  · exact .inr (.inr (.inr h8))
  by_cases h9 : first = "CALL".toList
  · exact .inr (.inr (.inl (hmem first (hsub _ (.inr (.inr (.inr (.inl h9))))) rfl)))
  by_cases h10 : first = "COMMIT".toList
  · exact .inr (.inr (.inl (hmem first (hsub _ (.inr (.inr (.inr (.inr h10))))) rfl)))
  · simp only [if_neg h1, if_neg h2, if_neg h3, if_neg h4, if_neg h5, if_neg h6, if_neg h7, if_neg h8,
      if_neg h9, if_neg h10] at h
    split at h
    · cases h
    · split at h
      · cases h
      · cases h

/-- The rule lets the statement through, and Oracle writes rows or runs code for it. -/
def slipsThrough (sql : Text) : Bool :=
  isReadOnlySafe (classifySql sql) sql &&
    (statementClass sql == .explainPlan || statementClass sql == .routineQuery)

/-- **What the read-only rule lets through changes nothing, but for two kinds of statement.** -/
theorem readOnlySafe_changes (h : isReadOnlySafe (classifySql sql) sql = true)
    (hslip : slipsThrough sql = false) : (statementClass sql).changes = false := by
  by_contra hc
  have hsel := isReadOnlySafe_select h
  rw [slipsThrough, h, Bool.true_and, Bool.or_eq_false_iff, beq_eq_false_iff_ne,
    beq_eq_false_iff_ne] at hslip
  rcases changes_cases (by simpa using hc) with he | he | ⟨kw, hkw, hs⟩ | hl
  · exact hslip.1 he
  · exact hslip.2 he
  · exact not_select_of_keyword hs hkw hsel
  · exact not_select_of_label hl hsel

end Veesker.Safety
