/-
  File:      Veesker/Lexis/Words.lean
  Subject:   WHERE A TEXT'S FIRST TOKEN STANDS.

  * `IsFiller` -- a text of white space and whole comments, which may stand before any other text
    without changing its tokens (`tokens_filler`);
  * `tokens_word` -- a word that ends where another character begins is one token;
  * `tokens_word_inv` -- a text that starts with neither white space nor a comment, and whose
    first token is a word, starts with that word.

  Nothing here names the repository.
-/
import Veesker.Lexis.Oracle

namespace Veesker.Lexis

open List

/-! ## 1. Fillers -/

/-- White space and whole comments. -/
def IsFiller (d : Text) : Prop :=
  modeFrom .plain d = .plain ∧ ∀ t ∈ emitted .plain d, t.isSignificant = false

theorem isFiller_nil : IsFiller [] := ⟨rfl, by simp [emitted]⟩

theorem IsFiller.append {d e : Text} (hd : IsFiller d) (he : IsFiller e) : IsFiller (d ++ e) := by
  refine ⟨by rw [modeFrom_append, hd.1, he.1], fun t ht => ?_⟩
  rw [emitted_append, hd.1] at ht
  rcases mem_append.mp ht with h | h
  · exact hd.2 t h
  · exact he.2 t h

/-- **A filler in front of a text is not seen.** -/
theorem tokens_filler {d : Text} (hd : IsFiller d) (s : Text) : tokens (d ++ s) = tokens s := by
  unfold tokens lex
  rw [lexFrom_append, hd.1, filter_append,
    filter_eq_nil_iff.mpr (fun t ht => by rw [hd.2 t ht]; simp), nil_append]

variable {c : Char}

theorem fresh_space (h : isSpace c = true) : fresh c = (.plain, [⟨.blank, [c]⟩]) :=
  if_pos h

theorem isFiller_spaces {d : Text} (h : ∀ c ∈ d, isSpace c = true) : IsFiller d := by
  induction d with
  | nil => exact isFiller_nil
  | cons c d ih =>
    have hf := fresh_space (h c mem_cons_self)
    have hc : IsFiller [c] := by
      refine ⟨by rw [modeFrom, Mode.step, hf]; rfl, fun t ht => ?_⟩
      rw [emitted, Mode.step, hf] at ht
      simp only [emitted, append_nil, mem_singleton] at ht
      rw [ht]
      rfl
    exact hc.append (ih fun e he => h e (mem_cons_of_mem _ he))

/-- Inside a line comment, up to its end. -/
theorem line_comment (acc u : Text) (h : '\n' ∉ u) :
    modeFrom (.line acc) u = .line (acc ++ u) ∧ emitted (.line acc) u = [] := by
  induction u generalizing acc with
  | nil => exact ⟨by rw [append_nil]; rfl, rfl⟩
  | cons c u ih =>
    have hc : c ≠ '\n' := fun e => h (e ▸ mem_cons_self)
    have hs : (Mode.line acc).step c = (.line (acc ++ [c]), []) := by simp [Mode.step, hc]
    obtain ⟨h1, h2⟩ := ih (acc ++ [c]) (fun e => h (mem_cons_of_mem _ e))
    rw [modeFrom, emitted, hs, h1, h2]
    exact ⟨by simp, rfl⟩

theorem isFiller_line {u : Text} (h : '\n' ∉ u) : IsFiller ('-' :: '-' :: (u ++ ['\n'])) := by
  obtain ⟨h1, h2⟩ := line_comment ['-', '-'] u h
  have e1 : Mode.step .plain '-' = (.minus, []) := by decide
  have e2 : Mode.step .minus '-' = (.line ['-', '-'], []) := by decide
  have e3 : ∀ acc, Mode.step (.line acc) '\n' = (.plain, [⟨.comment, acc⟩, ⟨.blank, ['\n']⟩]) :=
    fun acc => by simp [Mode.step]
  constructor
  · rw [modeFrom, e1, modeFrom, e2, modeFrom_append, h1, modeFrom, e3]
    rfl
  · intro t ht
    rw [emitted, e1, emitted, e2, emitted_append, h1, h2, emitted, e3] at ht
    simp only [emitted, nil_append, append_nil, mem_cons, not_mem_nil,
      or_false] at ht
    rcases ht with rfl | rfl <;> rfl

/-- A line comment that no line break ends takes the rest of the text. -/
theorem tokens_open_line {u : Text} (h : '\n' ∉ u) : tokens ('-' :: '-' :: u) = [] := by
  obtain ⟨h1, h2⟩ := line_comment ['-', '-'] u h
  have e1 : Mode.step .plain '-' = (.minus, []) := by decide
  have e2 : Mode.step .minus '-' = (.line ['-', '-'], []) := by decide
  unfold tokens lex
  rw [lexFrom_cons, e1, lexFrom_cons, e2, lexFrom, h1, h2]
  rfl

/-- What follows the first `*/` of a text, and the text before it. -/
def cutBlock : Text → Option (Text × Text)
  | '*' :: '/' :: r => some (['*', '/'], r)
  | c :: cs => (cutBlock cs).map fun p => (c :: p.1, p.2)
  | [] => none

theorem cutBlock_split {x d r : Text} (h : cutBlock x = some (d, r)) : x = d ++ r := by
  fun_induction cutBlock x generalizing d with
  | case1 r' => cases h; rfl
  | case2 c cs _ ih =>
    obtain ⟨p, hp, e⟩ := Option.map_eq_some_iff.mp h
    cases e
    rw [ih hp]
    rfl
  | case3 => cases h

/-- A star that no slash follows leaves a comment as it was. -/
theorem blockStar_step {acc : Text} (h : c ≠ '/') :
    (Mode.blockStar acc).step c = (Mode.block acc).step c := by
  simp only [Mode.step, if_neg h]

theorem blockStar_run {acc x : Text} (h : x.head? ≠ some '/') (hx : x ≠ []) :
    modeFrom (.blockStar acc) x = modeFrom (.block acc) x ∧
      emitted (.blockStar acc) x = emitted (.block acc) x := by
  cases x with
  | nil => exact absurd rfl hx
  | cons c x =>
    have hc : c ≠ '/' := fun e => h (by rw [e]; rfl)
    simp only [modeFrom, emitted, blockStar_step hc, and_self]

/-- Inside a block comment, up to its end. -/
theorem block_comment {x d r : Text} (h : cutBlock x = some (d, r)) (acc : Text) :
    modeFrom (.block acc) d = .plain ∧ emitted (.block acc) d = [⟨.comment, acc ++ d⟩] := by
  fun_induction cutBlock x generalizing d acc with
  | case1 r' =>
    cases h
    simp [modeFrom, emitted, Mode.step]
  | case2 c cs hne ih =>
    obtain ⟨⟨d', r'⟩, hp, e⟩ := Option.map_eq_some_iff.mp h
    cases e
    have hrun := ih hp (acc ++ [c])
    have hstep : modeFrom ((Mode.block acc).step c).1 d' = modeFrom (.block (acc ++ [c])) d' ∧
        emitted ((Mode.block acc).step c).1 d' = emitted (.block (acc ++ [c])) d' := by
      by_cases hc : c = '*'
      · have hs : (Mode.block acc).step c = (.blockStar (acc ++ [c]), []) := by
          simp [Mode.step, hc]
        have hd : d' ≠ [] := fun e => by rw [e] at hrun; exact absurd hrun.1 (by simp [modeFrom])
        rw [hs]
        refine blockStar_run (fun e => ?_) hd
        obtain ⟨y, hy⟩ : ∃ y, d' = '/' :: y := by
          cases d' with
          | nil => cases e
          | cons a y => simp only [List.head?_cons, Option.some.injEq] at e; exact ⟨y, by rw [e]⟩
        exact hne (y ++ r') hc (by rw [cutBlock_split hp, hy]; rfl)
      · rw [Mode.step, if_neg hc]
        exact ⟨rfl, rfl⟩
    have hno : ((Mode.block acc).step c).2 = [] := by
      rw [Mode.step]
      split <;> rfl
    rw [modeFrom, emitted, hstep.1, hstep.2, hno, hrun.1, hrun.2]
    simp
  | case3 => cases h

theorem isFiller_block {x d r : Text} (h : cutBlock x = some (d, r)) :
    IsFiller ('/' :: '*' :: d) := by
  obtain ⟨h1, h2⟩ := block_comment h ['/', '*']
  have e1 : Mode.step .plain '/' = (.slash, []) := by decide
  have e2 : Mode.step .slash '*' = (.block ['/', '*'], []) := by decide
  constructor
  · rw [modeFrom, e1, modeFrom, e2, h1]
  · intro t ht
    rw [emitted, e1, emitted, e2, h2] at ht
    simp only [nil_append, mem_singleton] at ht
    rw [ht]
    rfl

/-- Inside a block comment that nothing ends. -/
theorem block_open {x : Text} (h : cutBlock x = none) (acc : Text) :
    emitted (.block acc) x = [] ∧ (modeFrom (.block acc) x).kind = .comment := by
  fun_induction cutBlock x generalizing acc with
  | case1 r' => cases h
  | case2 c cs hne ih =>
    have hcs : cutBlock cs = none := Option.map_eq_none_iff.mp h
    have hrun := ih hcs (acc ++ [c])
    by_cases hc : c = '*'
    · have hs : (Mode.block acc).step c = (.blockStar (acc ++ [c]), []) := by simp [Mode.step, hc]
      rw [modeFrom, emitted, hs]
      cases cs with
      | nil => exact ⟨rfl, rfl⟩
      | cons d ds =>
        have hd : (d :: ds).head? ≠ some '/' := fun e => by
          simp only [List.head?_cons, Option.some.injEq] at e
          exact hne ds hc (by rw [e])
        obtain ⟨h1, h2⟩ := @blockStar_run (acc ++ [c]) _ hd (by simp)
        rw [h1, h2]
        exact hrun
    · have hs : (Mode.block acc).step c = (.block (acc ++ [c]), []) := by simp [Mode.step, hc]
      rw [modeFrom, emitted, hs]
      exact hrun
  | case3 => exact ⟨rfl, rfl⟩

theorem flush_of_comment {m : Mode} (h : m.kind = .comment) : ∃ t, m.flush = [t] ∧ t.kind = .comment := by
  cases m <;> simp [Mode.kind] at h <;> exact ⟨_, rfl, rfl⟩

/-- A block comment that nothing ends takes the rest of the text. -/
theorem tokens_open_block {x : Text} (h : cutBlock x = none) : tokens ('/' :: '*' :: x) = [] := by
  obtain ⟨h1, h2⟩ := block_open h ['/', '*']
  have e1 : Mode.step .plain '/' = (.slash, []) := by decide
  have e2 : Mode.step .slash '*' = (.block ['/', '*'], []) := by decide
  obtain ⟨t, ht, hk⟩ := flush_of_comment h2
  unfold tokens lex
  rw [lexFrom_cons, e1, lexFrom_cons, e2, lexFrom, h1, ht]
  simp [Token.isSignificant, hk]

/-! ## 2. Words -/

theorem isIdentChar_not_space (h : isIdentChar c = true) : isSpace c = false := by
  by_contra hs
  have hs : isSpace c = true := by simpa using hs
  have hm := (isSpace_iff c).mp hs
  have hall : ∀ n ∈ allSpacePoints, n < 128 → isIdentChar (Char.ofNat n) = false := by
    decide
  by_cases hlt : c.toNat < 128
  · have := hall _ hm hlt
    rw [Char.ofNat_toNat] at this
    rw [this] at h
    cases h
  · have hrest : ¬ (c.isAlphanum = true ∨ c = '_' ∨ c = '$' ∨ c = '#') := by
      rintro (ha | rfl | rfl | rfl)
      · exact hlt (isAlphanum_ascii ha)
      all_goals exact absurd (by decide) hlt
    simp only [isIdentChar, hs, Bool.not_true, Bool.and_false, Bool.or_false, Bool.or_eq_true,
      beq_iff_eq] at h
    exact hrest (by tauto)

theorem fresh_ident (h : isIdentChar c = true) : fresh c = (.word [c], []) := by
  have h1 : c ≠ '-' := fun e => by rw [e] at h; exact absurd h (by decide)
  have h2 : c ≠ '/' := fun e => by rw [e] at h; exact absurd h (by decide)
  have h3 : c ≠ '\'' := fun e => by rw [e] at h; exact absurd h (by decide)
  have h4 : c ≠ '"' := fun e => by rw [e] at h; exact absurd h (by decide)
  simp [fresh, isIdentChar_not_space h, h1, h2, h3, h4, h]

/-- A quote after this word opens a literal. -/
def opensLiteral (w : Text) : Bool := isQPrefix w || isNPrefix w

/-- **A word goes on as far as its characters do.** -/
theorem lexFrom_word (acc u r : Text) (hu : ∀ c ∈ u, isIdentChar c = true)
    (hr : ∀ c, r.head? = some c → isIdentChar c = false)
    (hq : r.head? = some '\'' → opensLiteral (acc ++ u) = false) :
    lexFrom (.word acc) (u ++ r) = ⟨.word, acc ++ u⟩ :: lexFrom .plain r := by
  induction u generalizing acc with
  | nil =>
    rw [nil_append, append_nil]
    cases r with
    | nil => rfl
    | cons c r =>
      have hc := hr c rfl
      have hstep : (Mode.word acc).step c = (Mode.word acc).close c := by
        simp only [Mode.step, hc]
        by_cases h : c = '\''
        · have := hq (by rw [h]; rfl)
          simp only [append_nil, opensLiteral, Bool.or_eq_false_iff] at this
          simp [this.1, this.2]
        · simp [h]
      rw [lexFrom_cons, hstep, lexFrom_cons]
      rfl
  | cons c u ih =>
    have hc := hu c mem_cons_self
    have hstep : (Mode.word acc).step c = (.word (acc ++ [c]), []) := by simp [Mode.step, hc]
    rw [cons_append, lexFrom_cons, hstep]
    have := ih (acc ++ [c]) (fun d hd => hu d (mem_cons_of_mem _ hd)) (by simpa using hq)
    simpa using this

/-- A word that opens a literal is no word. -/
theorem lexFrom_literal (acc u r : Text) (hu : ∀ c ∈ u, isIdentChar c = true)
    (hq : opensLiteral (acc ++ u) = true) :
    ∃ t ts, lexFrom (.word acc) (u ++ '\'' :: r) = t :: ts ∧ t.kind = .string := by
  induction u generalizing acc with
  | nil =>
    rw [append_nil] at hq
    rw [nil_append, lexFrom_cons]
    have hi : isIdentChar '\'' = false := by decide
    by_cases h : isQPrefix acc = true
    · have hs : (Mode.word acc).step '\'' = (.qOpen (acc ++ ['\'']), []) := by
        simp [Mode.step, hi, h]
      obtain ⟨t, ts, x, e, hk, -⟩ := lexFrom_first (m := .qOpen (acc ++ ['\''])) (.inl rfl) r
      exact ⟨t, ts, by rw [hs]; exact e, hk⟩
    · have hn : isNPrefix acc = true := by
        simpa [opensLiteral, h] using hq
      have hs : (Mode.word acc).step '\'' = (.single (acc ++ ['\'']), []) := by
        simp [Mode.step, hi, h, hn]
      obtain ⟨t, ts, x, e, hk, -⟩ := lexFrom_first (m := .single (acc ++ ['\''])) (.inl rfl) r
      exact ⟨t, ts, by rw [hs]; exact e, hk⟩
  | cons c u ih =>
    have hc := hu c mem_cons_self
    have hstep : (Mode.word acc).step c = (.word (acc ++ [c]), []) := by simp [Mode.step, hc]
    rw [cons_append, lexFrom_cons, hstep]
    exact ih (acc ++ [c]) (fun d hd => hu d (mem_cons_of_mem _ hd)) (by simpa using hq)

/-- **A word at the start of a text is its first token.** -/
theorem lex_word {w r : Text} (hne : w ≠ []) (hw : ∀ c ∈ w, isIdentChar c = true)
    (hr : ∀ c, r.head? = some c → isIdentChar c = false)
    (hq : r.head? = some '\'' → opensLiteral w = false) :
    lex (w ++ r) = ⟨.word, w⟩ :: lex r := by
  cases w with
  | nil => exact absurd rfl hne
  | cons c w =>
    rw [cons_append, lex, lexFrom_cons, Mode.step, fresh_ident (hw c mem_cons_self)]
    exact lexFrom_word [c] w r (fun d hd => hw d (mem_cons_of_mem _ hd)) hr hq

theorem tokens_word {w r : Text} (hne : w ≠ []) (hw : ∀ c ∈ w, isIdentChar c = true)
    (hr : ∀ c, r.head? = some c → isIdentChar c = false)
    (hq : r.head? = some '\'' → opensLiteral w = false) :
    tokens (w ++ r) = ⟨.word, w⟩ :: tokens r := by
  unfold tokens
  rw [lex_word hne hw hr hq]
  rfl

/-- A text that starts with a character of a word starts with the word it goes on to, or with a
    literal that word opens. -/
theorem tokens_ident {s : Text} (h : isIdentChar c = true) :
    (∃ w r, c :: s = w ++ r ∧ w ≠ [] ∧ (∀ d ∈ w, isIdentChar d = true) ∧
        (∀ d, r.head? = some d → isIdentChar d = false) ∧
        (r.head? = some '\'' → opensLiteral w = false) ∧
        tokens (c :: s) = ⟨.word, w⟩ :: tokens r) ∨
      ∃ t ts, tokens (c :: s) = t :: ts ∧ t.kind = .string := by
  have hall : ∀ d ∈ s.takeWhile isIdentChar, isIdentChar d = true := fun d hd =>
    mem_takeWhile_imp hd
  have hsplit : s = s.takeWhile isIdentChar ++ s.dropWhile isIdentChar :=
    takeWhile_append_dropWhile.symm
  have hhead : ∀ d, (s.dropWhile isIdentChar).head? = some d → isIdentChar d = false := by
    intro d hd
    have := List.head?_dropWhile_not isIdentChar s
    rw [hd] at this
    exact this
  by_cases hq : (s.dropWhile isIdentChar).head? = some '\'' ∧
      opensLiteral (c :: s.takeWhile isIdentChar) = true
  · right
    obtain ⟨r, hr⟩ : ∃ r, s.dropWhile isIdentChar = '\'' :: r := by
      cases hd : s.dropWhile isIdentChar with
      | nil => rw [hd] at hq; cases hq.1
      | cons d r =>
        rw [hd] at hq
        simp only [List.head?_cons, Option.some.injEq] at hq
        exact ⟨r, by rw [hq.1]⟩
    obtain ⟨t, ts, e, hk⟩ := lexFrom_literal [c] _ r hall hq.2
    have hlex : lex (c :: s) = t :: ts := by
      rw [lex, lexFrom_cons, Mode.step, fresh_ident h, hsplit, hr]
      exact e
    refine ⟨t, ts.filter Token.isSignificant, ?_, hk⟩
    unfold tokens
    rw [hlex, filter_cons_of_pos (by simp [Token.isSignificant, hk])]
  · left
    have hq' : (s.dropWhile isIdentChar).head? = some '\'' →
        opensLiteral (c :: s.takeWhile isIdentChar) = false := fun e => by
      simpa using fun h' => hq ⟨e, h'⟩
    refine ⟨c :: s.takeWhile isIdentChar, s.dropWhile isIdentChar, ?_, by simp, ?_, hhead, hq', ?_⟩
    · rw [cons_append, ← hsplit]
    · intro d hd
      rcases mem_cons.mp hd with rfl | hd
      · exact h
      · exact hall d hd
    · have := tokens_word (w := c :: s.takeWhile isIdentChar) (by simp)
        (fun d hd => (mem_cons.mp hd).elim (fun e => e ▸ h) (hall d)) hhead hq'
      rwa [cons_append, ← hsplit] at this

/-- A text starts with a comment. -/
def StartsComment (s : Text) : Prop := (∃ r, s = '-' :: '-' :: r) ∨ ∃ r, s = '/' :: '*' :: r

/-- A character that starts neither white space, a comment nor a word is not in a word's token. -/
theorem tokens_not_word {s : Text} (hs : isSpace c = false) (hi : isIdentChar c = false)
    (hc : ¬ StartsComment (c :: s)) : ∃ t ts, tokens (c :: s) = t :: ts ∧ t.kind ≠ .word := by
  have hfirst : ∀ (t : Token) (ts : List Token), lex (c :: s) = t :: ts → t.isSignificant = true →
      t.kind ≠ .word → ∃ t ts, tokens (c :: s) = t :: ts ∧ t.kind ≠ .word := by
    intro t ts e h1 h2
    refine ⟨t, ts.filter Token.isSignificant, ?_, h2⟩
    unfold tokens
    rw [e, filter_cons_of_pos h1]
  have hsym : ∀ t : Text, (⟨.symbol, t⟩ : Token).isSignificant = true := fun _ => rfl
  by_cases h1 : c = '-'
  · subst h1
    have e : Mode.step .plain '-' = (.minus, []) := by decide
    cases s with
    | nil => exact hfirst ⟨.symbol, ['-']⟩ [] (by decide) rfl (by simp)
    | cons d s =>
      have hd : d ≠ '-' := fun e => hc (.inl ⟨s, by rw [e]⟩)
      refine hfirst ⟨.symbol, ['-']⟩ (lex (d :: s)) ?_ rfl (by simp)
      rw [lex, lexFrom_cons, e, lexFrom_cons, Mode.step, if_neg hd, lex, lexFrom_cons]
      rfl
  · by_cases h2 : c = '/'
    · subst h2
      have e : Mode.step .plain '/' = (.slash, []) := by decide
      cases s with
      | nil => exact hfirst ⟨.symbol, ['/']⟩ [] (by decide) rfl (by simp)
      | cons d s =>
        have hd : d ≠ '*' := fun e => hc (.inr ⟨s, by rw [e]⟩)
        refine hfirst ⟨.symbol, ['/']⟩ (lex (d :: s)) ?_ rfl (by simp)
        rw [lex, lexFrom_cons, e, lexFrom_cons, Mode.step, if_neg hd, lex, lexFrom_cons]
        rfl
    · by_cases h3 : c = '\''
      · subst h3
        obtain ⟨t, ts, r, e, hk, -⟩ := lexFrom_first (m := .single ['\'']) (.inl rfl) s
        refine hfirst t ts ?_ (by simp [Token.isSignificant, hk, Mode.kind]) (by simp [hk, Mode.kind])
        rw [lex, lexFrom_cons]
        exact e
      · by_cases h4 : c = '"'
        · subst h4
          obtain ⟨t, ts, r, e, hk, -⟩ := lexFrom_first (m := .double ['"']) (.inr (.inl rfl)) s
          refine hfirst t ts ?_ (by simp [Token.isSignificant, hk, Mode.kind])
            (by simp [hk, Mode.kind])
          rw [lex, lexFrom_cons]
          exact e
        · refine hfirst ⟨.symbol, [c]⟩ (lex s) ?_ rfl (by simp)
          have hf : fresh c = (.plain, [⟨.symbol, [c]⟩]) := by
            simp [fresh, hs, h1, h2, h3, h4, hi]
          rw [lex, lexFrom_cons, Mode.step, hf]
          rfl

/-- **Where the first token is a word, the text starts with it.** -/
theorem tokens_word_inv {s w : Text} {ts : List Token} (h : tokens s = ⟨.word, w⟩ :: ts)
    (hspace : trimStart s = s) (hc : ¬ StartsComment s) :
    ∃ r, s = w ++ r ∧ w ≠ [] ∧ (∀ d ∈ w, isIdentChar d = true) ∧
      (∀ d, r.head? = some d → isIdentChar d = false) ∧ tokens r = ts := by
  cases s with
  | nil => cases h
  | cons c s =>
    by_cases hi : isIdentChar c = true
    · rcases tokens_ident (s := s) hi with ⟨v, r, e, h1, h2, h3, -, h4⟩ | ⟨t, us, e, hk⟩
      · rw [h] at h4
        simp only [List.cons.injEq, Token.mk.injEq, true_and] at h4
        obtain ⟨rfl, rfl⟩ := h4
        exact ⟨r, e, h1, h2, h3, rfl⟩
      · rw [h] at e
        cases e
        cases hk
    · obtain ⟨t, us, e, hk⟩ := tokens_not_word (trimStart_head hspace) (by simpa using hi) hc
      rw [h] at e
      cases e
      exact absurd rfl hk

end Veesker.Lexis
