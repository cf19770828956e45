/-
  File:      Veesker/Safety/Leading.lean
  Subject:   WHAT THE DETECTORS SEE OF A STATEMENT'S FIRST TOKEN.

  `stripLeadingComments` removes exactly what Oracle's lexer does not see: the text it leaves has
  the same tokens (`tokens_stripLeadingComments`) and, where there is a token at all, starts with
  it (`leading_word`). For a statement that starts with a keyword this fixes what the detectors
  read: their upper-case text is the keyword and then a character that is in no word
  (`upper_keyword`).
-/
import Veesker.Safety.Gate
import Veesker.Lexis.Words

namespace Veesker.Safety

open Lexis List

/-! ## 1. Leading comments -/

theorem afterBlockEnd_eq (x : Text) : afterBlockEnd x = (cutBlock x).map Prod.snd := by
  fun_induction cutBlock x with
  | case1 r => rfl
  | case2 c cs hne ih =>
    rw [afterBlockEnd.eq_2 c cs hne, ih, Option.map_map]
    rfl
  | case3 => rfl

theorem trimStart_filler (s : Text) : ∃ d, IsFiller d ∧ s = d ++ trimStart s := by
  obtain ⟨d, hs, hd⟩ := trimStart_split s
  exact ⟨d, isFiller_spaces hd, hs⟩

theorem dropWhile_newline {s r : Text} {c : Char} (h : s.dropWhile (· != '\n') = c :: r) :
    ∃ u, '\n' ∉ u ∧ s = u ++ ['\n'] ++ r := by
  have hc : c = '\n' := by
    have := List.head?_dropWhile_not (· != '\n') s
    rw [h] at this
    simpa using this
  refine ⟨s.takeWhile (· != '\n'), fun hm => ?_, ?_⟩
  · have := mem_takeWhile_imp hm
    simp at this
  · have e := (takeWhile_append_dropWhile (p := (· != '\n')) (l := s)).symm
    rw [h, hc] at e
    rw [append_assoc]
    exact e

/-- Each part of a round takes a filler away. -/
theorem stripLineComment_filler (s : Text) : ∃ d, IsFiller d ∧ s = d ++ stripLineComment s := by
  unfold stripLineComment
  split
  · rename_i h
    obtain ⟨x, hx⟩ := startsWith_iff.mp h
    split
    · rename_i c r hr
      obtain ⟨d, hd, hs⟩ := trimStart_filler s
      have hx' : trimStart s = '-' :: '-' :: x := hx
      rw [hx'] at hr hs
      have hr' : x.dropWhile (· != '\n') = c :: r := by simpa using hr
      obtain ⟨u, hu, e⟩ := dropWhile_newline hr'
      refine ⟨d ++ ('-' :: '-' :: (u ++ ['\n'])), hd.append (isFiller_line hu), ?_⟩
      rw [hs, e]
      simp
    · exact ⟨[], isFiller_nil, rfl⟩
  · exact ⟨[], isFiller_nil, rfl⟩

theorem stripBlockComment_filler (s : Text) : ∃ d, IsFiller d ∧ s = d ++ stripBlockComment s := by
  unfold stripBlockComment
  split
  · rename_i h
    obtain ⟨x, hx⟩ := startsWith_iff.mp h
    have hx' : trimStart s = '/' :: '*' :: x := hx
    rw [afterBlockEnd_eq, hx']
    show ∃ d, IsFiller d ∧ s = d ++ ((cutBlock x).map Prod.snd).getD s
    cases hcut : cutBlock x with
    | none => exact ⟨[], isFiller_nil, rfl⟩
    | some p =>
      obtain ⟨b, r⟩ := p
      obtain ⟨d, hd, hs⟩ := trimStart_filler s
      refine ⟨d ++ ('/' :: '*' :: b), hd.append (isFiller_block hcut), ?_⟩
      rw [hx', cutBlock_split hcut] at hs
      rw [hs]
      simp
  · exact ⟨[], isFiller_nil, rfl⟩

theorem stripRound_filler (s : Text) : ∃ d, IsFiller d ∧ s = d ++ stripRound s := by
  obtain ⟨d₁, h₁, e₁⟩ := stripLineComment_filler s
  obtain ⟨d₂, h₂, e₂⟩ := stripBlockComment_filler (stripLineComment s)
  obtain ⟨d₃, h₃, e₃⟩ := trimStart_filler (stripBlockComment (stripLineComment s))
  refine ⟨d₁ ++ (d₂ ++ d₃), h₁.append (h₂.append h₃), ?_⟩
  rw [append_assoc, append_assoc]
  exact e₁.trans (congrArg (d₁ ++ ·) (e₂.trans (congrArg (d₂ ++ ·) e₃)))

theorem stripRounds_filler (n : Nat) (s : Text) : ∃ d, IsFiller d ∧ s = d ++ stripRounds n s := by
  induction n generalizing s with
  | zero => exact ⟨[], isFiller_nil, rfl⟩
  | succ n ih =>
    unfold stripRounds
    split
    · exact stripRound_filler s
    · obtain ⟨d₁, h₁, e₁⟩ := stripRound_filler s
      obtain ⟨d₂, h₂, e₂⟩ := ih (stripRound s)
      exact ⟨d₁ ++ d₂, h₁.append h₂, by rw [append_assoc, ← e₂]; exact e₁⟩

/-- A round that keeps the length keeps the text. -/
theorem stripRound_eq_of_length {s : Text} (h : (stripRound s).length = s.length) :
    stripRound s = s := by
  obtain ⟨d, -, e⟩ := stripRound_filler s
  have hl := congrArg List.length e
  rw [length_append, h] at hl
  have hd : d = [] := length_eq_zero_iff.mp (by omega)
  rw [hd] at e
  exact e.symm

theorem stripRound_stripRounds {n : Nat} {s : Text} (hn : s.length ≤ n) :
    stripRound (stripRounds n s) = stripRounds n s := by
  induction n generalizing s with
  | zero =>
    have hs : s = [] := length_eq_zero_iff.mp (by omega)
    rw [hs]
    rfl
  | succ n ih =>
    unfold stripRounds
    split
    · rename_i h
      rw [stripRound_eq_of_length h, stripRound_eq_of_length h]
    · rename_i h
      obtain ⟨d, -, e⟩ := stripRound_filler s
      have hl := congrArg List.length e
      rw [length_append] at hl
      exact ih (by omega)

/-- **The rounds are enough**: one more changes nothing. -/
theorem stripRound_stripLeadingComments (sql : Text) :
    stripRound (stripLeadingComments sql) = stripLeadingComments sql :=
  stripRound_stripRounds (Nat.le_refl _)

/-- **What is stripped is not seen by the lexer.** -/
theorem tokens_stripLeadingComments (sql : Text) :
    tokens (stripLeadingComments sql) = tokens sql := by
  obtain ⟨d, hd, e⟩ := stripRounds_filler sql.length sql
  unfold stripLeadingComments
  conv_rhs => rw [e, tokens_filler hd]

/-- A text that a round leaves as it is: each part of the round does. -/
theorem stripRound_parts {s : Text} (h : stripRound s = s) :
    stripLineComment s = s ∧ stripBlockComment s = s ∧ trimStart s = s := by
  obtain ⟨d₁, -, e₁⟩ := stripLineComment_filler s
  obtain ⟨d₂, -, e₂⟩ := stripBlockComment_filler (stripLineComment s)
  obtain ⟨d₃, -, e₃⟩ := trimStart_filler (stripBlockComment (stripLineComment s))
  have e₃' : stripBlockComment (stripLineComment s) = d₃ ++ s := by
    rw [e₃]
    exact congrArg (d₃ ++ ·) h
  have l₁ := congrArg List.length e₁
  have l₂ := congrArg List.length e₂
  have l₃ := congrArg List.length e₃'
  rw [length_append] at l₁ l₂ l₃
  have h₁ : d₁ = [] := length_eq_zero_iff.mp (by omega)
  have h₃ : d₃ = [] := length_eq_zero_iff.mp (by omega)
  rw [h₁, nil_append] at e₁
  rw [h₃, nil_append, ← e₁] at e₃'
  refine ⟨e₁.symm, e₃', ?_⟩
  unfold stripRound at h
  rwa [← e₁, e₃'] at h

/-- Where the lexer sees a token, no comment is left in front. -/
theorem not_startsComment {s : Text} (h : stripRound s = s) (hne : tokens s ≠ []) :
    ¬ StartsComment s := by
  obtain ⟨hline, hblock, hspace⟩ := stripRound_parts h
  rintro (⟨r, rfl⟩ | ⟨r, rfl⟩)
  · by_cases hm : '\n' ∈ r
    · unfold stripLineComment at hline
      have hp : startsWith ('-' :: '-' :: r) "--".toList = true := startsWith_iff.mpr ⟨r, rfl⟩
      rw [hspace, if_pos hp] at hline
      have hd : ('-' :: '-' :: r).dropWhile (· != '\n') = r.dropWhile (· != '\n') := by
        simp
      rw [hd] at hline
      cases hr : r.dropWhile (· != '\n') with
      | nil =>
        rw [dropWhile_eq_nil_iff] at hr
        exact absurd (hr _ hm) (by simp)
      | cons c x =>
        rw [hr] at hline
        have hl := congrArg List.length hline
        have hle := (dropWhile_suffix (· != '\n') (l := r)).length_le
        rw [hr] at hle
        simp only [length_cons] at hl hle
        omega
    · exact hne (tokens_open_line hm)
  · unfold stripBlockComment at hblock
    have hp : startsWith ('/' :: '*' :: r) "/*".toList = true := startsWith_iff.mpr ⟨r, rfl⟩
    rw [hspace, if_pos hp, afterBlockEnd_eq] at hblock
    cases hcut : cutBlock r with
    | none => exact hne (tokens_open_block hcut)
    | some p =>
      obtain ⟨d, x⟩ := p
      have hr := congrArg List.length (cutBlock_split hcut)
      simp only [drop_succ_cons, drop_zero, hcut, Option.map_some, Option.getD_some]
        at hblock
      have hl := congrArg List.length hblock
      rw [length_append] at hr
      simp only [length_cons] at hl
      omega

/-- **Where the first token is a word, the stripped text starts with it**, and the word's end is
    the end of the token. -/
theorem leading_word {sql w : Text} {ts : List Token} (h : tokens sql = ⟨.word, w⟩ :: ts) :
    ∃ r, stripLeadingComments sql = w ++ r ∧ w ≠ [] ∧ (∀ d ∈ w, isIdentChar d = true) ∧
      (∀ d, r.head? = some d → isIdentChar d = false) ∧ tokens r = ts := by
  have hfix := stripRound_stripLeadingComments sql
  rw [← tokens_stripLeadingComments] at h
  exact tokens_word_inv h (stripRound_parts hfix).2.2
    (not_startsComment hfix (by rw [h]; simp))

/-! ## 2. Keywords -/

/-- The token is the keyword, given in upper case. -/
def IsKeyword (kw : Text) (t : Token) : Prop := t.kind = .word ∧ t.text.map Char.toUpper = kw

instance (kw : Text) (t : Token) : Decidable (IsKeyword kw t) := inferInstanceAs (Decidable (_ ∧ _))

/-- The token is the symbol. -/
def IsSymbol (c : Char) (t : Token) : Prop := t.kind = .symbol ∧ t.text = [c]

instance (c : Char) (t : Token) : Decidable (IsSymbol c t) := inferInstanceAs (Decidable (_ ∧ _))

/-- The statement's first token, comments and white space ignored, is the keyword. -/
def StartsWithKeyword (kw sql : Text) : Prop := ∃ t ∈ (tokens sql).head?, IsKeyword kw t

instance (kw sql : Text) : Decidable (StartsWithKeyword kw sql) :=
  inferInstanceAs (Decidable (∃ t ∈ (tokens sql).head?, IsKeyword kw t))

/-- A character that is in no word is its own upper case. -/
theorem upperChar_of_not_ident {c : Char} (h : isIdentChar c = false) : upperChar c = [c] := by
  by_cases hc : c.toNat < 128
  · rw [upperChar_ascii hc]
    exact congrArg (fun d => [d]) (forall_ascii (P := fun c => isIdentChar c = false → c.toUpper = c)
      (by decide) hc h)
  · apply upperChar_space
    simp only [isIdentChar, Bool.or_eq_false_iff, Bool.and_eq_false_iff, decide_eq_false_iff_not,
      Bool.not_eq_false'] at h
    exact h.2.resolve_left (by omega)

/-- A keyword in any case upper-cases to the keyword. -/
theorem toUpperCase_keyword {w kw : Text} (h : w.map Char.toUpper = kw)
    (hkw : ∀ c ∈ kw, c.toNat < 128) : toUpperCase w = kw := by
  rw [← h]
  refine toUpperCase_ascii fun c hc => ?_
  exact toUpper_lt.mp (hkw _ (h ▸ mem_map_of_mem hc))

/-- **What the detectors read of a statement that starts with a keyword.** -/
theorem keyword_split {kw sql : Text} (h : StartsWithKeyword kw sql)
    (hkw : ∀ c ∈ kw, c.toNat < 128) :
    ∃ w r, stripLeadingComments sql = w ++ r ∧ w.map Char.toUpper = kw ∧ w ≠ [] ∧
      (∀ d ∈ w, isIdentChar d = true) ∧
      (∀ d, r.head? = some d → isIdentChar d = false) ∧ tokens r = (tokens sql).tail ∧
      toUpperCase (stripLeadingComments sql) = kw ++ toUpperCase r := by
  obtain ⟨⟨k, w⟩, ht, rfl, hw⟩ := h
  cases hts : tokens sql with
  | nil => rw [hts] at ht; cases ht
  | cons t ts =>
    rw [hts] at ht
    cases ht
    obtain ⟨r, e, hne, hall, hr, htail⟩ := leading_word hts
    exact ⟨w, r, e, hw, hne, hall, hr, htail, by
      rw [e, toUpperCase_append, toUpperCase_keyword hw hkw]⟩

end Veesker.Safety
