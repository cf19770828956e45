/-
  File:      Veesker/Splitter/Terminated.lean
  Subject:   STATEMENTS IN A ROW, each with a semicolon and a line break behind it.

  * `Passes` -- a stretch of code goes into the buffer as it is;
  * `passes_code`, `passes_name` -- plain code without a separator, a quoted name;
  * `Stands` -- what a statement needs to stand for itself;
  * **`splitSql_terminated`** -- a text of such statements is split into them.
-/
import Veesker.Splitter.Stable

namespace Veesker.Splitter

open List

/-! ## 1. Stretches of code -/

/-- The code `u` in front of `v` goes into the buffer as it is. -/
def Passes (u v : Text) : Prop :=
  ∀ s : Scan, s.state = .code → s.plsqlChecked = false →
    ∃ s', scanFrom s 0 0 (u ++ v) = scanFrom s' 0 0 v ∧ s'.state = .code ∧
      s'.buf = s.buf ++ u ∧ s'.statements = s.statements ∧ s'.plsqlChecked = false

theorem passes_nil (v : Text) : Passes [] v :=
  fun s hcode hun => ⟨s, rfl, hcode, (append_nil _).symm, rfl, hun⟩

theorem Passes.append {u w v : Text} (hu : Passes u (w ++ v)) (hw : Passes w v) :
    Passes (u ++ w) v := by
  intro s hcode hun
  obtain ⟨s₁, h1, hcode₁, hbuf₁, hout₁, hun₁⟩ := hu s hcode hun
  obtain ⟨s₂, h2, hcode₂, hbuf₂, hout₂, hun₂⟩ := hw s₁ hcode₁ hun₁
  refine ⟨s₂, ?_, hcode₂, ?_, hout₂.trans hout₁, hun₂⟩
  · rw [append_assoc, h1, h2]
  · rw [hbuf₂, hbuf₁, append_assoc]

/-- A stretch that is left in the code state and has no plain separator. -/
theorem passes_of_lex {u v : Text} (hend : lexEnd .code 0 u v = (.code, 0))
    (hno : ∀ p ∈ plainSplits .code 0 [] u v, p.2.1 ≠ ';' ∧ p.2.1 ≠ '/') : Passes u v := by
  intro s hcode hun
  have hset : s.Settled := fun h => by rw [hun] at h; cases h
  obtain ⟨s', h1, h2, h3, h4, -, h6, -⟩ := scanFrom_keep u v (s := s) (k := 0)
    (show s.buf = s.buf ++ [] by rw [append_nil]) hset
    (fun p hp hc => absurd hc (hno p (hcode ▸ hp)).1)
    (fun p hp hc => absurd hc (hno p (hcode ▸ hp)).2)
  rw [hcode, hend] at h1 h2
  refine ⟨s', h1, h2, ?_, h4, ?_⟩
  · rw [h3, append_nil]
  · rw [h6 fun p hp => (hno p (hcode ▸ hp)).1, hun]

theorem passes_char {c : Char} {v : Text} (hlex : lexStep .code c v = (.code, 0, true))
    (hsep : c ≠ ';' ∧ c ≠ '/') : Passes [c] v := by
  refine passes_of_lex ?_ ?_
  · rw [lexEnd, nil_append, hlex]
    rfl
  · intro p hp
    rw [plainSplits, nil_append, hlex] at hp
    obtain rfl := mem_singleton.mp hp
    exact hsep

/-- The character opens nothing in front of `next` and separates nothing. -/
def opensNothing (c : Char) (next : Option Char) : Bool :=
  if c = '-' then next != some '-'
  else if c = 'n' ∨ c = 'N' then next != some '\'' && next != some 'q' && next != some 'Q'
  else if c = 'q' ∨ c = 'Q' then next != some '\''
  else c != '/' && c != '"' && c != '\'' && c != ';'

theorem lexStep_opensNothing {c : Char} {v : Text} (h : opensNothing c v.head? = true) :
    lexStep .code c v = (.code, 0, true) ∧ c ≠ ';' ∧ c ≠ '/' := by
  rw [opensNothing] at h
  split at h
  · rename_i hc
    subst hc
    have hnext : v.head? ≠ some '-' := by simpa using h
    simp [lexStep, qOpens, hnext]
  split at h
  · rename_i hc
    obtain ⟨⟨hquote, hq⟩, hQ⟩ : (v.head? ≠ some '\'' ∧ v.head? ≠ some 'q') ∧ v.head? ≠ some 'Q' := by
      simpa using h
    rcases hc with rfl | rfl <;> simp [lexStep, qOpens, hquote, hq, hQ]
  split at h
  · rename_i hc
    have hquote : v.head? ≠ some '\'' := by simpa using h
    rcases hc with rfl | rfl <;> simp [lexStep, qOpens, hquote]
  · rename_i hminus hn hq
    obtain ⟨⟨⟨hslash, hname⟩, hquote⟩, hsemi⟩ : ((c ≠ '/' ∧ c ≠ '"') ∧ c ≠ '\'') ∧ c ≠ ';' := by
      simpa using h
    simp [lexStep, qOpens, hminus, hslash, hname, hquote, hn, hq, hsemi]

/-- No character of the text opens or separates anything, read in front of `next`. -/
def isCode : Text → Option Char → Bool
  | [], _ => true
  | [c], next => opensNothing c next
  | c :: d :: cs, next => opensNothing c (some d) && isCode (d :: cs) next

/-- **Plain code without a separator.** -/
theorem passes_code {u v : Text} (h : isCode u v.head? = true) : Passes u v := by
  induction u with
  | nil => exact passes_nil v
  | cons c u ih =>
    have hboth : opensNothing c (u ++ v).head? = true ∧ isCode u v.head? = true := by
      cases u with
      | nil => exact ⟨h, rfl⟩
      | cons d u => exact Bool.and_eq_true_iff.mp h
    obtain ⟨hlex, hsep⟩ := lexStep_opensNothing hboth.1
    exact (passes_char hlex hsep).append (ih hboth.2)

theorem lex_name {s v : Text} (hs : '"' ∉ s) (hv : v.head? ≠ some '"') (before : Text) :
    lexEnd .inDoubleString 0 (s ++ ['"']) v = (.code, 0) ∧
      plainSplits .inDoubleString 0 before (s ++ ['"']) v = [] := by
  induction s generalizing before with
  | nil =>
    have hstep : lexStep .inDoubleString '"' v = (.code, 0, false) := by simp [lexStep, hv]
    rw [nil_append, lexEnd, plainSplits, nil_append, hstep]
    exact ⟨rfl, rfl⟩
  | cons c s ih =>
    rw [mem_cons, not_or] at hs
    have hstep : lexStep .inDoubleString c (s ++ ['"'] ++ v) = (.inDoubleString, 0, false) := by
      simp [lexStep, Ne.symm hs.1]
    obtain ⟨hend, hno⟩ := ih hs.2 (before ++ [c])
    rw [cons_append, lexEnd, plainSplits, hstep]
    exact ⟨hend, hno⟩

/-- **A quoted name.** -/
theorem passes_name {s v : Text} (hs : '"' ∉ s) (hv : v.head? ≠ some '"') :
    Passes ('"' :: (s ++ ['"'])) v := by
  have hstep : lexStep .code '"' (s ++ ['"'] ++ v) = (.inDoubleString, 0, false) := by simp [lexStep]
  obtain ⟨hend, hno⟩ := lex_name hs hv ([] ++ ['"'])
  refine passes_of_lex ?_ ?_
  · rw [lexEnd, hstep]
    exact hend
  · rw [plainSplits, hstep]
    intro p hp
    rw [hno] at hp
    cases hp

/-! ## 2. Statements -/

/-- A statement that stands for itself: code up to its semicolon, and no PL/SQL block. -/
structure Stands (t : Text) : Prop where
  passes : ∀ v, Passes t (';' :: v)
  noBlock : detectPlsqlStart t = false
  code : isCommentsOnly t = false
  trimmed : trim t = t

/-- The semicolon behind a statement that is no block. -/
theorem scanFrom_semicolon {s : Scan} (hcode : s.state = .code) (hun : s.plsqlChecked = false)
    (hblock : detectPlsqlStart s.buf = false) (v : Text) :
    ∃ s', scanFrom s 0 0 (';' :: v) = scanFrom s' 0 0 v ∧ s'.state = .code ∧ s'.buf = [] ∧
      s'.statements = s.flush.statements ∧ s'.plsqlChecked = false := by
  have hchecked : s.checkPlsql = { s with isPlsql := false, plsqlChecked := true } := by
    rw [Scan.checkPlsql, hun, hblock]
    rfl
  have hlex : lexStep s.state ';' v = (.code, 0, true) := by simp [hcode, lexStep, qOpens]
  refine ⟨s.checkPlsql.flush, ?_, ?_, rfl, ?_, rfl⟩
  · rw [scanFrom, if_neg (by decide), Scan.step, hlex, hchecked]
    rfl
  · rw [hchecked]
    exact hcode
  · rw [hchecked]
    rfl

/-- **A statement, its semicolon and its line break**, read behind white space. -/
theorem scanFrom_statement {t : Text} (ht : Stands t) {s : Scan} (hcode : s.state = .code)
    (hbuf : Blank s.buf) (hun : s.plsqlChecked = false) (v : Text) :
    ∃ s', scanFrom s 0 0 (t ++ ';' :: '\n' :: v) = scanFrom s' 0 0 v ∧ s'.state = .code ∧
      Blank s'.buf ∧ s'.statements = s.statements ++ [t] ∧ s'.plsqlChecked = false := by
  have hfiller := filler_spaces hbuf
  obtain ⟨s₁, h1, hcode₁, hbuf₁, hout₁, hun₁⟩ := ht.passes ('\n' :: v) s hcode hun
  have hblock : detectPlsqlStart s₁.buf = false := by
    rw [hbuf₁, detectPlsqlStart_filler hfiller, ht.noBlock]
  have hcomments : isCommentsOnly s₁.buf = false := by
    rw [hbuf₁, isCommentsOnly_filler_append hfiller, ht.code]
  have htrim : trim s₁.buf = t := by
    rw [hbuf₁, trim, trimStart, dropWhile_append_of_pos hbuf]
    exact ht.trimmed
  obtain ⟨s₂, h2, hcode₂, hbuf₂, hout₂, hun₂⟩ := scanFrom_semicolon hcode₁ hun₁ hblock ('\n' :: v)
  obtain ⟨s₃, h3, hcode₃, hbuf₃, hout₃, hun₃, -⟩ := scanFrom_newline (.inl hcode₂) v
  refine ⟨s₃, ?_, hcode₃, ?_, ?_, hun₃.trans hun₂⟩
  · rw [h1, h2, h3]
  · rw [hbuf₃, hbuf₂]
    exact newline_spaces
  · rw [hout₃, hout₂, Scan.flush_of_code hcomments, htrim, hout₁]

theorem scanFrom_terminated {ts : List Text} (hts : ∀ t ∈ ts, Stands t) {s : Scan}
    (hcode : s.state = .code) (hbuf : Blank s.buf) (hun : s.plsqlChecked = false) :
    ∃ s', scanFrom s 0 0 (ts.flatMap fun t => t ++ [';', '\n']) = s' ∧ s'.state = .code ∧
      Blank s'.buf ∧ s'.statements = s.statements ++ ts := by
  induction ts generalizing s with
  | nil => exact ⟨s, rfl, hcode, hbuf, (append_nil _).symm⟩
  | cons t ts ih =>
    obtain ⟨s₁, h1, hcode₁, hbuf₁, hout₁, hun₁⟩ := scanFrom_statement (hts t mem_cons_self)
      hcode hbuf hun (ts.flatMap fun t => t ++ [';', '\n'])
    obtain ⟨s₂, h2, hcode₂, hbuf₂, hout₂⟩ := ih (fun u hu => hts u (mem_cons_of_mem t hu))
      hcode₁ hbuf₁ hun₁
    refine ⟨s₂, ?_, hcode₂, hbuf₂, ?_⟩
    · rw [flatMap_cons, append_assoc, ← h2, ← h1]
      rfl
    · rw [hout₂, hout₁, append_assoc]
      rfl

/-- **A text of terminated statements is split into them**, in order and without an error. -/
theorem splitSql_terminated {ts : List Text} (hts : ∀ t ∈ ts, Stands t) :
    splitSql (ts.flatMap fun t => t ++ [';', '\n']) = ⟨ts, []⟩ := by
  obtain ⟨s, hs, hcode, hbuf, hout⟩ := @scanFrom_terminated ts hts {} rfl nofun rfl
  rw [splitSql_eq, hs, Scan.finish_closed (.inl hcode),
    Scan.flush_of_comments (isCommentsOnly_filler (filler_spaces hbuf)), hout]
  rfl

end Veesker.Splitter
