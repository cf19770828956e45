/-
  File:      Veesker/Lexis/Statement.lean
  Subject:   WHAT KIND OF STATEMENT ORACLE SEES, from the first tokens of a text.

  The classes are those of Oracle's SQL manual, by the statement's first keywords: what changes
  rows, what changes the dictionary (and commits), what runs PL/SQL, what ends a transaction. A
  query that declares its own PL/SQL (`WITH FUNCTION …`) is a class of its own: it runs code
  its author wrote. A text that starts with none of the keywords is no statement Oracle runs.

  Nothing here names the repository.
-/
import Veesker.Lexis.Words

namespace Veesker.Lexis

/-! ## 1. The classes -/

inductive StatementClass where
  | query
  /-- a query whose `WITH` clause declares functions or procedures -/
  | routineQuery
  | explainPlan
  | dml
  | ddl
  /-- an anonymous block, with or without labels -/
  | block
  | call
  | commit
  | rollback
  /-- `SAVEPOINT`, `SET`, `ALTER SESSION`, `ALTER SYSTEM`, and what Oracle does not run -/
  | other
  deriving DecidableEq

/-- The keyword a token is, in upper case; empty for a token that is no word. -/
def Token.keyword (t : Token) : Text := if t.kind = .word then t.text.map Char.toUpper else []

/-- The keywords of the statements that change rows. -/
def dmlKeywords : List Text :=
  ["INSERT".toList, "UPDATE".toList, "DELETE".toList, "MERGE".toList, "LOCK".toList]

/-- The keywords of the statements that change the dictionary, and commit before they do. -/
def ddlKeywords : List Text :=
  ["CREATE".toList, "ALTER".toList, "DROP".toList, "TRUNCATE".toList, "RENAME".toList,
    "GRANT".toList, "REVOKE".toList, "COMMENT".toList, "ANALYZE".toList, "AUDIT".toList,
    "NOAUDIT".toList, "PURGE".toList, "FLASHBACK".toList, "ASSOCIATE".toList,
    "DISASSOCIATE".toList, "ADMINISTER".toList]

def blockKeywords : List Text := ["BEGIN".toList, "DECLARE".toList]

/-- The class, from the tokens. -/
def classOf (ts : List Token) : StatementClass :=
  let first := (ts[0]?.map Token.keyword).getD []
  let second := (ts[1]?.map Token.keyword).getD []
  if first = "SELECT".toList then .query
  else if first = "WITH".toList then
    if second = "FUNCTION".toList ∨ second = "PROCEDURE".toList then .routineQuery else .query
  else if first = "EXPLAIN".toList then if second = "PLAN".toList then .explainPlan else .other
  else if first ∈ dmlKeywords then .dml
  else if first = "ALTER".toList ∧ (second = "SESSION".toList ∨ second = "SYSTEM".toList) then .other
  else if first ∈ ddlKeywords then .ddl
  else if first ∈ blockKeywords then .block
  else if ts[0]? = some ⟨.symbol, ['<']⟩ then .block
  else if first = "CALL".toList then .call
  else if first = "COMMIT".toList then .commit
  else if first = "ROLLBACK".toList then .rollback
  else if ts[0]? = some ⟨.symbol, ['(']⟩ then .query
  else .other

/-- **The class of a statement**, comments and white space ignored. -/
def statementClass (sql : Text) : StatementClass := classOf (tokens sql)

/-- The classes that change data, run PL/SQL or make changes permanent. -/
def StatementClass.changes : StatementClass → Bool
  | .routineQuery | .explainPlan | .dml | .ddl | .block | .call | .commit => true
  | .query | .rollback | .other => false

/-- The classes Oracle may commit in: a DDL statement does so by itself, and so may any code. -/
def StatementClass.mayCommit : StatementClass → Bool
  | .routineQuery | .ddl | .block | .call | .commit => true
  | .query | .explainPlan | .dml | .rollback | .other => false

/-! ## 2. Reading a class off the first token -/

theorem Token.keyword_eq {t : Token} {kw : Text} (hne : kw ≠ []) :
    t.keyword = kw ↔ t.kind = .word ∧ t.text.map Char.toUpper = kw := by
  unfold Token.keyword
  split
  · rename_i hk
    simp [hk]
  · rename_i hk
    simp [hk, hne.symm]

/-- A statement that starts with the word. -/
def StartsWith (kw sql : Text) : Prop := (tokens sql)[0]?.map Token.keyword = some kw

theorem startsWith_text {kw : Text} (hne : kw ≠ []) (w r : Text) (hw : w.map Char.toUpper = kw)
    (hident : ∀ c ∈ w, isIdentChar c = true) (hr : ∀ c, r.head? = some c → isIdentChar c = false)
    (hq : r.head? = some '\'' → opensLiteral w = false) : StartsWith kw (w ++ r) := by
  have hwne : w ≠ [] := fun e => hne (by rw [← hw, e]; rfl)
  unfold StartsWith
  rw [tokens_word hwne hident hr hq]
  simp [Token.keyword, hw]

theorem statementClass_select {sql : Text} (h : StartsWith "SELECT".toList sql) :
    statementClass sql = .query := by
  unfold StartsWith at h
  simp only [statementClass, classOf, h, Option.getD_some, if_true]

/-- The keyword lists are disjoint, and no other rule comes before them. -/
theorem keywords_apart : (∀ kw ∈ dmlKeywords ++ ddlKeywords ++ blockKeywords,
      kw ≠ "SELECT".toList ∧ kw ≠ "WITH".toList ∧ kw ≠ "EXPLAIN".toList) ∧
    (∀ kw ∈ ddlKeywords ++ blockKeywords, kw ∉ dmlKeywords) ∧
    ∀ kw ∈ blockKeywords, kw ∉ ddlKeywords ∧ kw ≠ "ALTER".toList := by
  decide

theorem statementClass_block {sql kw : Text} (h : StartsWith kw sql) (hkw : kw ∈ blockKeywords) :
    statementClass sql = .block := by
  unfold StartsWith at h
  obtain ⟨h1, h2, h3⟩ := keywords_apart.1 kw (by simp [hkw])
  have h4 := keywords_apart.2.1 kw (by simp [hkw])
  obtain ⟨h5, h6⟩ := keywords_apart.2.2 kw hkw
  simp only [statementClass, classOf, h, Option.getD_some, if_neg h1, if_neg h2, if_neg h3,
    if_neg h4, h6, false_and, if_false, if_neg h5, if_pos hkw]

end Veesker.Lexis
