/-
  File:      Veesker/Safety/Keywords.lean
  Subject:   THE DETECTORS ON A STATEMENT WHOSE FIRST TOKEN IS A KEYWORD.

  Each detector reads the text its own way, so "the statement is a TRUNCATE" means something else
  to each. What they do agree on is shown here: the kind of a statement is decided by its first
  token (its second too, for ALTER), and a detector for another keyword stays silent. What they
  do not agree on is the character behind the keyword.
-/
import Veesker.Safety.Leading

namespace Veesker.Safety

open Lexis List
open Pattern (word wordI spaces spaces0)

/-! ## 1. The kind -/

theorem trimStart_stripLeadingComments (sql : Text) :
    trimStart (stripLeadingComments sql) = stripLeadingComments sql :=
  (stripRound_parts (stripRound_stripLeadingComments sql)).2.2

theorem isMergeSql_eq (sql : Text) :
    isMergeSql sql = startsWith (toUpperCase (stripLeadingComments sql)) "MERGE ".toList := by
  rw [isMergeSql, trimStart_stripLeadingComments]

theorem isTruncateSql_eq (sql : Text) :
    isTruncateSql sql = startsWith (toUpperCase (stripLeadingComments sql)) "TRUNCATE ".toList := by
  rw [isTruncateSql, trimStart_stripLeadingComments]

section
variable {sql R : Text}

theorem classifySql_truncate (h : toUpperCase (stripLeadingComments sql) = "TRUNCATE".toList ++ R) :
    classifySql sql = .ddl := by
  unfold classifySql
  rw [h]
  rfl

theorem classifySql_drop (h : toUpperCase (stripLeadingComments sql) = "DROP".toList ++ R) :
    classifySql sql = .ddl := by
  unfold classifySql
  rw [h]
  rfl

end

/-- A word that is in a word of the lexer, in either case. -/
theorem isIdentChar_of_toUpper {c : Char} (h : isIdentChar c.toUpper = true) :
    isIdentChar c = true := by
  by_cases hc : c.toNat < 128
  · exact forall_ascii (P := fun c => isIdentChar c.toUpper = true → isIdentChar c = true)
      (by decide) hc h
  · have e : c.toUpper = c := toUpper_foreign (by omega)
    rwa [e] at h

/-- Where the text starts with a keyword, its first character is the keyword's. -/
theorem upperChar_of_keyword {c : Char} {s kw : Text} {t : Token} {ts : List Token}
    (h : tokens (c :: s) = t :: ts) (ht : IsKeyword kw t) (hc : isIdentChar c = true)
    (hkw : ∀ d ∈ kw, d.toNat < 128) : ∃ k, kw = c.toUpper :: k ∧ upperChar c = [c.toUpper] := by
  rcases tokens_ident (s := s) hc with ⟨w, r, e, hne, -, -, -, htok⟩ | ⟨t', ts', e, hk⟩
  · rw [htok] at h
    simp only [List.cons.injEq] at h
    obtain ⟨rfl, -⟩ := h
    obtain ⟨-, hup⟩ := ht
    cases w with
    | nil => exact absurd rfl hne
    | cons d w =>
      simp only [cons_append, List.cons.injEq] at e
      obtain ⟨rfl, -⟩ := e
      simp only [map_cons] at hup
      refine ⟨w.map Char.toUpper, hup.symm, upperChar_ascii (toUpper_lt.mp (hkw _ ?_))⟩
      rw [← hup]
      exact mem_cons_self
  · rw [e] at h
    cases h
    cases hk.symm.trans ht.1

/-- `ALTER TABLE` is neither `ALTER SESSION` nor `ALTER SYSTEM`, however it is spelled. -/
theorem not_twoWords_alter {sql second : Text} {a b : Token} {ts : List Token}
    (h : tokens sql = a :: b :: ts) (ha : IsKeyword "ALTER".toList a)
    (hb : IsKeyword "TABLE".toList b) (hs : second.head? = some 'S') :
    (twoWords "ALTER".toList second).test (toUpperCase (stripLeadingComments sql)) = false := by
  have hfirst : StartsWithKeyword "ALTER".toList sql := ⟨a, by rw [h]; rfl, ha⟩
  obtain ⟨w, r, -, -, -, -, -, htail, hup⟩ := keyword_split hfirst (by simp)
  rw [h, tail_cons] at htail
  by_contra htest
  obtain ⟨k, hk, hrest⟩ := Pattern.test_word_all (Bool.not_eq_false _ ▸ htest)
  rw [hup, append_cancel_left_eq] at hk
  obtain ⟨m, hm⟩ := exists_mem_of_ne_nil _ hrest
  obtain ⟨l, hl, hm⟩ := Pattern.mem_ends_seq.mp hm
  obtain ⟨n, hn, hm⟩ := Pattern.mem_ends_seq.mp hm
  -- the white space and then the second word, in upper case; so in the text
  obtain ⟨l₁, h₁, hl⟩ := Pattern.mem_ends_seq.mp hl
  obtain ⟨c, cs, hc, hcs, rfl⟩ := Pattern.mem_ends_one.mp h₁
  obtain ⟨d, hd, hds⟩ := Pattern.mem_manyEnds hl
  have hsp : ∀ x ∈ c :: d, isSpace x = true := fun x hx =>
    (mem_cons.mp hx).elim (fun e => e ▸ hcs) (hds x)
  have hcut : toUpperCase r = (c :: d) ++ (second ++ n.rest) := by
    rw [hk, hc, ← Pattern.mem_ends_word hn]
    simpa using hd
  obtain ⟨r', rfl, hr'⟩ := toUpperCase_spaces_inv hcut hsp
  rw [tokens_filler (isFiller_spaces hsp)] at htail
  cases r' with
  | nil => cases htail
  | cons x r' =>
    obtain ⟨s, hs'⟩ : ∃ s, second = 'S' :: s := by
      cases second with
      | nil => cases hs
      | cons y s => simp only [List.head?_cons, Option.some.injEq] at hs; exact ⟨s, by rw [hs]⟩
    rw [hs', toUpperCase_cons] at hr'
    by_cases hx : isIdentChar x = true
    · obtain ⟨kw, hkw, hux⟩ := upperChar_of_keyword htail hb hx (by simp)
      rw [hux] at hr'
      simp only [cons_append, List.cons.injEq] at hr'
      rw [hr'.1] at hkw
      have hT : "TABLE".toList.head? = some 'S' := by rw [hkw]; rfl
      exact absurd hT (by decide)
    · rw [upperChar_of_not_ident (by simpa using hx)] at hr'
      simp only [cons_append, List.cons.injEq] at hr'
      rw [hr'.1] at hx
      exact hx (by decide)

theorem classifySql_alterTable {sql : Text} {a b : Token} {ts : List Token}
    (h : tokens sql = a :: b :: ts) (ha : IsKeyword "ALTER".toList a)
    (hb : IsKeyword "TABLE".toList b) : classifySql sql = .ddl := by
  have hfirst : StartsWithKeyword "ALTER".toList sql := ⟨a, by rw [h]; rfl, ha⟩
  obtain ⟨w, r, -, -, -, -, -, -, hup⟩ := keyword_split hfirst (by simp)
  have h1 := @not_twoWords_alter sql "SESSION".toList a b ts h ha hb rfl
  have h2 := @not_twoWords_alter sql "SYSTEM".toList a b ts h ha hb rfl
  unfold classifySql
  simp only [h1, h2]
  rw [hup]
  rfl

/-! ## 2. The text the bulk detector reads -/

/-- A suffix that shares no character with `kw` cuts nothing off `kw`. -/
theorem append_keep {kw X D d : Text} (h : kw ++ X = D ++ d) (hd : ∀ c ∈ d, c ∉ kw) :
    ∃ X', D = kw ++ X' ∧ X = X' ++ d := by
  rcases append_eq_append_iff.mp h with ⟨a, h1, h2⟩ | ⟨a, h1, h2⟩
  · exact ⟨a, h1, h2⟩
  · cases a with
    | nil => exact ⟨[], by rw [h1]; simp, by rw [h2]; rfl⟩
    | cons c a =>
      exact absurd (by rw [h1]; simp) (hd c (by rw [h2]; simp))

theorem collapseFrom_word {kw : Text} (hkw : ∀ c ∈ kw, isSpace c = false) (R : Text) :
    collapseFrom false (kw ++ R) = kw ++ collapseFrom false R := by
  induction kw with
  | nil => rfl
  | cons c kw ih =>
    rw [cons_append, collapseFrom, hkw c mem_cons_self]
    simp only [Bool.false_eq_true, if_false]
    rw [ih fun d hd => hkw d (mem_cons_of_mem _ hd)]
    rfl

theorem trim_word {kw X : Text} (hne : kw ≠ []) (hkw : ∀ c ∈ kw, isSpace c = false) :
    ∃ Y d, trim (kw ++ X) = kw ++ Y ∧ X = Y ++ d ∧ ∀ c ∈ d, isSpace c = true := by
  have hstart : trimStart (kw ++ X) = kw ++ X := by
    cases kw with
    | nil => exact absurd rfl hne
    | cons c kw =>
      rw [trimStart, cons_append, dropWhile_cons_of_neg]
      rw [hkw c mem_cons_self]
      simp
  obtain ⟨d, hd, hall⟩ := rdropWhile_split isSpace (kw ++ X)
  obtain ⟨Y, hY, hX⟩ := append_keep hd fun c hc hmem => by
    have := hall c hc
    rw [hkw c hmem] at this
    cases this
  exact ⟨Y, d, by rw [trim, hstart]; exact hY, hX, hall⟩

/-- **The bulk detector's text starts with the keyword**, and what it drops at the end of the
    collapsed text is white space and the final `;`. -/
theorem bulkText_keyword {sql kw R : Text} (h : toUpperCase (stripLeadingComments sql) = kw ++ R)
    (hne : kw ≠ []) (hkw : ∀ c ∈ kw, isSpace c = false ∧ c ≠ ';') :
    ∃ Y d, bulkText sql = kw ++ Y ∧ collapseFrom false R = Y ++ d ∧
      ∀ c ∈ d, isSpace c = true ∨ c = ';' := by
  have hsp : ∀ c ∈ kw, isSpace c = false := fun c hc => (hkw c hc).1
  unfold bulkText
  rw [h, collapse, collapseFrom_word hsp]
  obtain ⟨d₁, e₁, hcase⟩ := dropFinalSemicolon_split (kw ++ collapseFrom false R)
  have hd₁ : ∀ c ∈ d₁, isSpace c = true ∨ c = ';' := by
    rcases hcase with ⟨rfl, -⟩ | ⟨w, rfl, hw⟩
    · simp
    · intro c hc
      exact (mem_cons.mp hc).elim .inr fun hc => .inl (hw c hc)
  obtain ⟨X, hX, hR⟩ := append_keep e₁ fun c hc hmem => by
    rcases hd₁ c hc with hs | rfl
    · rw [hsp c hmem] at hs
      cases hs
    · exact (hkw ';' hmem).2 rfl
  obtain ⟨Y, d₂, e₂, hX₂, hd₂⟩ := trim_word (X := X) hne hsp
  refine ⟨Y, d₂ ++ d₁, by rw [hX, e₂], by rw [hR, hX₂, append_assoc], fun c hc => ?_⟩
  rcases mem_append.mp hc with hc | hc
  · exact .inl (hd₂ c hc)
  · exact hd₁ c hc

/-! ## 3. The profile -/

theorem isReadOnlySafe_of_ne {kind : SqlKind} (h : kind ≠ .select) (sql : Text) :
    isReadOnlySafe kind sql = false := by
  rw [isReadOnlySafe, beq_false_of_ne h, Bool.false_and]

/-- Where the comment pattern matches, the first token is `COMMENT`. -/
theorem startsWithKeyword_comment {sql : Text} (h : commentDdlPattern.test sql = true) :
    StartsWithKeyword "COMMENT".toList sql := by
  obtain ⟨m, hm⟩ := Pattern.test_iff.mp h
  obtain ⟨k, hk, hm⟩ := Pattern.mem_ends_seq.mp hm
  obtain ⟨l, hl, hm⟩ := Pattern.mem_ends_seq.mp hm
  obtain ⟨n, hn, hm⟩ := Pattern.mem_ends_seq.mp hm
  obtain ⟨d, hd, hsp⟩ := Pattern.mem_manyEnds hk
  obtain ⟨v, hv, hup⟩ := Pattern.mem_ends_wordI hl
  obtain ⟨l₁, h₁, -⟩ := Pattern.mem_ends_seq.mp hn
  obtain ⟨c, cs, hc, hcs, -⟩ := Pattern.mem_ends_one.mp h₁
  have hident : ∀ x ∈ v, isIdentChar x = true := fun x hx => by
    have hx' := mem_map_of_mem (f := Char.toUpper) hx
    rw [hup] at hx'
    have hall : "COMMENT".toList.all isIdentChar = true := by decide
    exact isIdentChar_of_toUpper (all_eq_true.mp hall _ hx')
  have hne : v ≠ [] := fun e => by rw [e] at hup; cases hup
  have htok : tokens (v ++ l.rest) = ⟨.word, v⟩ :: tokens l.rest := by
    refine tokens_word hne hident (fun x hx => ?_) (fun hq => ?_)
    · rw [hc, List.head?_cons, Option.some.injEq] at hx
      subst hx
      by_contra hi
      rw [isIdentChar_not_space (by simpa using hi)] at hcs
      cases hcs
    · rw [hc, List.head?_cons, Option.some.injEq] at hq
      rw [hq] at hcs
      exact absurd hcs (by decide)
  refine ⟨⟨.word, v⟩, ?_, rfl, hup⟩
  have hsql : sql = d ++ (v ++ l.rest) := by rw [← hv]; exact hd
  rw [hsql, tokens_filler (isFiller_spaces hsp), htok]
  rfl

/-- A statement starts with one keyword. -/
theorem StartsWithKeyword.unique {kw kw' sql : Text} (h : StartsWithKeyword kw sql)
    (h' : StartsWithKeyword kw' sql) : kw = kw' := by
  obtain ⟨t, ht, hk⟩ := h
  obtain ⟨t', ht', hk'⟩ := h'
  rw [Option.mem_unique ht ht'] at hk
  exact hk.2.symm.trans hk'.2

theorem not_comment {kw sql : Text} (h : StartsWithKeyword kw sql) (hne : kw ≠ "COMMENT".toList) :
    commentDdlPattern.test sql = false := by
  by_contra hc
  exact hne (h.unique (startsWithKeyword_comment (by simpa using hc)))

end Veesker.Safety
