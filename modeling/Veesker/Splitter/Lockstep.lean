/-
  File:      Veesker/Splitter/Lockstep.lean
  Subject:   THE SPLITTER'S LEXICAL STATES AND ORACLE'S, CHARACTER BY CHARACTER.

  The splitter looks ahead and takes characters along (`keep`), Oracle's lexer remembers what it
  has read. `InStep` says which modes of the lexer go with a state of the scan; `InStep.step` is
  the simulation: one character keeps the two in step, unless the scan opens a q-quote behind a
  character of a word (`EntersWord`), where Oracle sees a longer word and no q-quote.
-/
import Veesker.Splitter.Lines

namespace Veesker.Splitter

open Lexis (Mode isIdentChar isQPrefix isNPrefix)

/-! ## 1. The relation -/

/-- **The modes that go with a state of the scan**, `keep` characters of the token still to come
    and `rest` ahead. -/
def InStep (rest : Text) : ScanState → Nat → Mode → Prop
  | .code, 0, .plain => True
  | .code, 0, .word acc => rest.head? = some '\'' →
      isNPrefix acc = false ∧ (isQPrefix acc = false ∨ rest = ['\''])
  | .code, 0, .minus => rest.head? ≠ some '-'
  | .code, 0, .slash => rest.head? ≠ some '*'
  | .code, 0, .singleEnd _ => rest.head? ≠ some '\''
  | .code, 1, .blockStar _ => rest.head? = some '/'
  | .code, 1, .qEnd _ _ => rest.head? = some '\''
  | .inLineComment, 1, .minus => rest.head? = some '-'
  | .inLineComment, 0, .line _ => True
  | .inBlockComment, 1, .slash => rest.head? = some '*'
  | .inBlockComment, 0, .block _ => True
  | .inBlockComment, 0, .blockStar _ => rest.head? ≠ some '/'
  | .inSingleString, 1, .word acc => rest.head? = some '\'' ∧ isQPrefix acc = false
  | .inSingleString, 1, .singleEnd _ => rest.head? = some '\''
  | .inSingleString, 0, .single _ => True
  -- a q-quote whose delimiter the text does not reach is an open string to both
  | .inSingleString, 0, .qOpen _ => rest = []
  | .inDoubleString, 1, .plain => rest.head? = some '"'
  | .inDoubleString, 0, .double _ => True
  | .inQString d, 3, .word acc => acc.map Char.toUpper = ['N'] ∧
      ∃ q delim s, rest = q :: '\'' :: delim :: s ∧ (q = 'q' ∨ q = 'Q') ∧ d = qCloser delim
  | .inQString d, 2, .word acc => isQPrefix acc = true ∧
      ∃ delim s, rest = '\'' :: delim :: s ∧ d = qCloser delim
  | .inQString d, 1, .qOpen _ => ∃ delim s, rest = delim :: s ∧ d = qCloser delim
  | .inQString d, 0, .qBody d' _ => d' = d
  | .inQString d, 0, .qEnd d' _ => d' = d ∧ rest.head? ≠ some '\''
  | _, _, _ => False

def isWordMode : Mode → Bool
  | .word _ => true
  | _ => false

/-- The scan opens a q-quote behind a character of a word. -/
def EntersWord (m : Mode) (c : Char) (rest : Text) : Prop :=
  isWordMode m = true ∧ (qOpens c rest).isSome = true

instance (m : Mode) (c : Char) (rest : Text) : Decidable (EntersWord m c rest) :=
  inferInstanceAs (Decidable (_ ∧ _))

/-! ## 2. From plain code -/

section

-- The equations of these definitions, made once for the proofs below.
attribute [local simp] InStep isWordMode

end

variable {cs : Text} {m : Mode}

/-- In plain code a character goes on with a word, or starts anew; at the end of the text a quote
    may still open a q-quote. -/
theorem step_code {c : Char} (h : InStep (c :: cs) .code 0 m) :
    (∃ acc, m = .word acc ∧ isIdentChar c = true ∧ (m.step c).1 = .word (acc ++ [c])) ∨
      ((m.step c).1 = (Lexis.fresh c).1 ∧ (isWordMode m = true → isIdentChar c = false)) ∨
      (c = '\'' ∧ cs = [] ∧ ∃ acc, (m.step c).1 = .qOpen acc) := by
  cases m with
  | plain => exact .inr (.inl ⟨rfl, by simp [isWordMode]⟩)
  | minus =>
    have hc : c ≠ '-' := fun e => h (by rw [e]; rfl)
    exact .inr (.inl ⟨by simp [Mode.step, hc, Mode.close], by simp [isWordMode]⟩)
  | slash =>
    have hc : c ≠ '*' := fun e => h (by rw [e]; rfl)
    exact .inr (.inl ⟨by simp [Mode.step, hc, Mode.close], by simp [isWordMode]⟩)
  | singleEnd acc =>
    have hc : c ≠ '\'' := fun e => h (by rw [e]; rfl)
    exact .inr (.inl ⟨by simp [Mode.step, hc, Mode.close], by simp [isWordMode]⟩)
  | word acc =>
    by_cases hi : isIdentChar c = true
    · exact .inl ⟨acc, rfl, hi, by simp [Mode.step, hi]⟩
    · right
      by_cases hc : c = '\''
      · subst hc
        obtain ⟨hn, hq⟩ := h rfl
        rcases hq with hq | hq
        · exact .inl ⟨by simp [Mode.step, hi, hq, hn, Mode.close], fun _ => by simpa using hi⟩
        · by_cases hq' : isQPrefix acc = true
          · exact .inr ⟨rfl, (List.cons.inj hq).2, _, by simp [Mode.step, hi, hq']; rfl⟩
          · exact .inl ⟨by simp [Mode.step, hi, hq', hn, Mode.close], fun _ => by simpa using hi⟩
      · exact .inl ⟨by simp [Mode.step, hi, hc, Mode.close], fun _ => by simpa using hi⟩
  | _ => exact h.elim

theorem toUpper_eq_N {c : Char} (h : c.toUpper = 'N') : c = 'n' ∨ c = 'N' := by
  by_cases hlt : c.toNat < 128
  · revert h
    exact forall_ascii (P := fun c => c.toUpper = 'N' → c = 'n' ∨ c = 'N') (by decide) hlt
  · rw [toUpper_foreign (by omega)] at h
    exact .inr h

theorem toUpper_eq_Q {c : Char} (h : c.toUpper = 'Q') : c = 'q' ∨ c = 'Q' := by
  by_cases hlt : c.toNat < 128
  · revert h
    exact forall_ascii (P := fun c => c.toUpper = 'Q' → c = 'q' ∨ c = 'Q') (by decide) hlt
  · rw [toUpper_foreign (by omega)] at h
    exact .inr h

/-- A word that opens a national literal ends in `n`, one that opens a q-quote in `q`. -/
theorem isNPrefix_concat {acc : Text} {c : Char} (h : isNPrefix (acc ++ [c]) = true) :
    c = 'n' ∨ c = 'N' := by
  simp only [isNPrefix, List.map_append, List.map_cons, List.map_nil, beq_iff_eq] at h
  cases acc with
  | nil => exact toUpper_eq_N (by simpa using h)
  | cons a acc => simp at h

theorem isQPrefix_concat {acc : Text} {c : Char} (h : isQPrefix (acc ++ [c]) = true) :
    c = 'q' ∨ c = 'Q' := by
  simp only [isQPrefix, List.map_append, List.map_cons, List.map_nil, Bool.or_eq_true,
    beq_iff_eq] at h
  refine toUpper_eq_Q ?_
  rcases h with h | h
  · cases acc with
    | nil => simpa using h
    | cons a acc => simp at h
  · match acc with
    | [] => simp at h
    | [a] => simpa using (List.cons.inj (List.cons.inj h).2).1
    | a :: b :: acc => simp at h

/-- A word the scan reads as plain code up to a quote. -/
theorem word_before_quote {acc cs : Text} {c : Char}
    (hn : ¬((c = 'n' ∨ c = 'N') ∧ cs.head? = some '\'')) (hq : qOpens c cs = none) :
    InStep cs .code 0 (.word (acc ++ [c])) := by
  intro hhead
  refine ⟨?_, ?_⟩
  · by_contra h
    exact hn ⟨isNPrefix_concat (by simpa using h), hhead⟩
  · by_cases h : isQPrefix (acc ++ [c]) = true
    · right
      have hcq := isQPrefix_concat h
      rw [qOpens, if_pos ⟨hcq, hhead⟩, Option.map_eq_none_iff] at hq
      rcases cs with _ | ⟨a, _ | ⟨b, cs⟩⟩
      · cases hhead
      · rw [show a = '\'' by simpa using hhead]
      · simp at hq
    · exact .inl (by simpa using h)

/-- What a fresh character leaves of plain code. -/
theorem fresh_code {c : Char} (h1 : ¬(c = '-' ∧ cs.head? = some '-'))
    (h2 : ¬(c = '/' ∧ cs.head? = some '*')) (h3 : c ≠ '"') (h4 : c ≠ '\'')
    (hn : ¬((c = 'n' ∨ c = 'N') ∧ cs.head? = some '\'')) (hq : qOpens c cs = none) :
    InStep cs .code 0 (Lexis.fresh c).1 := by
  simp only [Lexis.fresh, h3, h4, if_false]
  split
  · trivial
  · split
    · rename_i hc
      exact fun e => h1 ⟨hc, e⟩
    · split
      · rename_i hc
        exact fun e => h2 ⟨hc, e⟩
      · split
        · exact @word_before_quote [] _ _ hn hq
        · trivial

/-! ## 3. One character -/

theorem qOpens_cases {c : Char} {delim : Char} {n : Nat}
    (h : qOpens c cs = some (delim, n)) :
    (n = 2 ∧ (c = 'q' ∨ c = 'Q') ∧ ∃ s, cs = '\'' :: delim :: s) ∨
      (n = 3 ∧ (c = 'n' ∨ c = 'N') ∧ ∃ q s, cs = q :: '\'' :: delim :: s ∧ (q = 'q' ∨ q = 'Q')) := by
  unfold qOpens at h
  split at h
  · rename_i hc
    obtain ⟨d, hd, e⟩ := Option.map_eq_some_iff.mp h
    cases e
    match cs with
    | [] => simp at hd
    | [a] => simp at hd
    | a :: b :: s =>
      have ha : a = '\'' := by simpa using hc.2
      have hb : b = delim := by simpa using hd
      exact .inl ⟨rfl, hc.1, s, by rw [ha, hb]⟩
  · split at h
    · rename_i hc
      obtain ⟨d, hd, e⟩ := Option.map_eq_some_iff.mp h
      cases e
      match cs with
      | [] => simp at hd
      | [a] => simp at hd
      | [a, b] => simp at hd
      | a :: b :: d' :: s =>
        have hq : a = 'q' ∨ a = 'Q' := by simpa using hc.2.1
        have hb : b = '\'' := by simpa using hc.2.2
        have hd' : d' = delim := by simpa using hd
        exact .inr ⟨rfl, hc.1, a, s, by rw [hb, hd'], hq⟩
    · cases h

theorem fresh_ident_letter {c : Char} (h : c = 'q' ∨ c = 'Q' ∨ c = 'n' ∨ c = 'N') :
    (Lexis.fresh c).1 = .word [c] ∧ isIdentChar c = true := by
  rcases h with rfl | rfl | rfl | rfl <;> decide

/-- **From plain code the two stay in step.** -/
theorem InStep.step_code {c : Char} (h : InStep (c :: cs) .code 0 m)
    (hw : ¬EntersWord m c cs) :
    InStep cs (lexStep .code c cs).1 (lexStep .code c cs).2.1 (m.step c).1 := by
  have hstep := Splitter.step_code h
  -- a character that goes on with no word starts anew
  have hnew : isIdentChar c = false → c ≠ '\'' → (m.step c).1 = (Lexis.fresh c).1 := by
    intro hi hc
    rcases hstep with ⟨_, _, hi', _⟩ | ⟨e, -⟩ | ⟨hc', -⟩
    · rw [hi] at hi'
      cases hi'
    · exact e
    · exact absurd hc' hc
  simp only [lexStep]
  split
  · rename_i hc
    rw [hc.1] at hnew ⊢
    rw [hnew (by decide) (by decide)]
    exact hc.2
  · rename_i h1
    split
    · rename_i hc
      rw [hc.1] at hnew ⊢
      rw [hnew (by decide) (by decide)]
      exact hc.2
    · rename_i h2
      split
      · rename_i hc
        rw [hc] at hnew ⊢
        rw [hnew (by decide) (by decide)]
        trivial
      · rename_i h3
        cases hq : qOpens c cs with
        | some p =>
          obtain ⟨delim, n⟩ := p
          -- the prefix is a word of its own
          have hword : isWordMode m = false := by
            by_contra hm
            exact hw ⟨by simpa using hm, by rw [hq]; rfl⟩
          have hfresh : isIdentChar c = true → c ≠ '\'' → (m.step c).1 = (Lexis.fresh c).1 := by
            intro _ hc
            rcases hstep with ⟨acc, rfl, -⟩ | ⟨e, -⟩ | ⟨hc', -⟩
            · cases hword
            · exact e
            · exact absurd hc' hc
          simp only
          rcases qOpens_cases hq with ⟨rfl, hc, s, rfl⟩ | ⟨rfl, hc, q, s, rfl, hq'⟩
          · obtain ⟨f1, f2⟩ := fresh_ident_letter (hc.imp_right .inl)
            rw [hfresh f2 (by rintro rfl; simp at hc), f1]
            refine ⟨?_, delim, s, rfl, rfl⟩
            rcases hc with rfl | rfl <;> decide
          · obtain ⟨f1, f2⟩ := fresh_ident_letter (.inr (.inr hc))
            rw [hfresh f2 (by rintro rfl; simp at hc), f1]
            refine ⟨?_, q, delim, s, rfl, hq', rfl⟩
            rcases hc with rfl | rfl <;> decide
        | none =>
          simp only
          split
          · rename_i hn
            have hc : c ≠ '\'' := by
              rintro rfl
              simp at hn
            have hnq : ∀ acc : Text, isQPrefix (acc ++ [c]) = false := by
              intro acc
              by_contra hcon
              have := isQPrefix_concat (by simpa using hcon)
              rcases hn.1 with rfl | rfl <;> simp at this
            rcases hstep with ⟨acc, -, -, e⟩ | ⟨e, -⟩ | ⟨hc', -⟩
            · rw [e]
              exact ⟨hn.2, hnq acc⟩
            · rw [e, (fresh_ident_letter (.inr (.inr hn.1))).1]
              exact ⟨hn.2, hnq []⟩
            · exact absurd hc' hc
          · rename_i hn
            split
            · rename_i hc
              subst hc
              rcases hstep with ⟨acc, -, hi, -⟩ | ⟨e, -⟩ | ⟨-, hcs, acc, e⟩
              · exact absurd hi (by decide)
              · rw [e]
                trivial
              · rw [e]
                exact hcs
            · rename_i hc
              rcases hstep with ⟨acc, -, -, e⟩ | ⟨e, -⟩ | ⟨hc', -⟩
              · rw [e]
                exact word_before_quote hn hq
              · rw [e]
                exact fresh_code h1 h2 h3 hc hn hq
              · exact absurd hc' hc

variable {st : ScanState}

/-- **A character that the scan takes along.** -/
theorem InStep.step_keep {k : Nat} {c : Char}
    (h : InStep (c :: cs) st (k + 1) m) : InStep cs st k (m.step c).1 := by
  match st, k, m, h with
  | .code, 0, .blockStar acc, h =>
    have hc : c = '/' := by simpa [InStep] using h
    subst hc
    trivial
  | .code, 0, .qEnd d acc, h =>
    have hc : c = '\'' := by simpa [InStep] using h
    subst hc
    trivial
  | .inLineComment, 0, .minus, h =>
    have hc : c = '-' := by simpa [InStep] using h
    subst hc
    trivial
  | .inBlockComment, 0, .slash, h =>
    have hc : c = '*' := by simpa [InStep] using h
    subst hc
    trivial
  | .inSingleString, 0, .word acc, h =>
    obtain ⟨hc, hq⟩ : c = '\'' ∧ isQPrefix acc = false := by simpa [InStep] using h
    subst hc
    have hi : isIdentChar '\'' = false := by decide
    by_cases hn : isNPrefix acc = true
    · simp [Mode.step, hi, hq, hn, InStep]
    · have hf : (Lexis.fresh '\'').1 = .single ['\''] := by decide
      simp [Mode.step, hi, hq, hn, Mode.close, hf, InStep]
  | .inSingleString, 0, .singleEnd acc, h =>
    have hc : c = '\'' := by simpa [InStep] using h
    subst hc
    trivial
  | .inDoubleString, 0, .plain, h =>
    have hc : c = '"' := by simpa [InStep] using h
    subst hc
    trivial
  | .inQString d, 2, .word acc, h =>
    obtain ⟨hacc, q, delim, s, e, hq, hd⟩ := h
    obtain ⟨rfl, rfl⟩ := List.cons.inj e
    have hi : isIdentChar c = true := (fresh_ident_letter (hq.imp_right .inl)).2
    have hstep : ((Mode.word acc).step c).1 = .word (acc ++ [c]) := by simp [Mode.step, hi]
    rw [hstep]
    refine ⟨?_, delim, s, rfl, hd⟩
    rw [isQPrefix, List.map_append, hacc]
    rcases hq with rfl | rfl <;> decide
  | .inQString d, 1, .word acc, h =>
    obtain ⟨hacc, delim, s, e, hd⟩ := h
    obtain ⟨rfl, rfl⟩ := List.cons.inj e
    have hi : isIdentChar '\'' = false := by decide
    have hstep : ((Mode.word acc).step '\'').1 = .qOpen (acc ++ ['\'']) := by
      simp [Mode.step, hi, hacc]
    rw [hstep]
    exact ⟨delim, s, rfl, hd⟩
  | .inQString d, 0, .qOpen acc, h =>
    obtain ⟨delim, s, e, hd⟩ := h
    obtain ⟨rfl, rfl⟩ := List.cons.inj e
    exact hd.symm ▸ rfl

/-- **A character that the scan reads on its own.** -/
theorem InStep.step {c : Char}
    (h : InStep (c :: cs) st 0 m) (hw : st = .code → ¬EntersWord m c cs) :
    InStep cs (lexStep st c cs).1 (lexStep st c cs).2.1 (m.step c).1 := by
  match st, m, h with
  | .code, m, h => exact h.step_code (hw rfl)
  | .inLineComment, .line acc, h =>
    by_cases hc : c = '\n'
    · simp [lexStep, Mode.step, hc, InStep]
    · simp [lexStep, Mode.step, hc, InStep]
  | .inBlockComment, .block acc, h =>
    by_cases hc : c = '*'
    · by_cases hn : cs.head? = some '/'
      · simp [lexStep, Mode.step, hc, hn, InStep]
      · simp [lexStep, Mode.step, hc, hn, InStep]
    · simp [lexStep, Mode.step, hc, InStep]
  | .inBlockComment, .blockStar acc, h =>
    have hs : c ≠ '/' := fun e => h (by rw [e]; rfl)
    by_cases hc : c = '*'
    · by_cases hn : cs.head? = some '/'
      · simp [lexStep, Mode.step, hc, hn, InStep]
      · simp [lexStep, Mode.step, hc, hn, InStep]
    · simp [lexStep, Mode.step, hs, hc, InStep]
  | .inSingleString, .single acc, h =>
    by_cases hc : c = '\''
    · by_cases hn : cs.head? = some '\''
      · simp [lexStep, Mode.step, hc, hn, InStep]
      · simp [lexStep, Mode.step, hc, hn, InStep]
    · simp [lexStep, Mode.step, hc, InStep]
  | .inSingleString, .qOpen acc, h => exact absurd h (by simp [InStep])
  | .inDoubleString, .double acc, h =>
    by_cases hc : c = '"'
    · by_cases hn : cs.head? = some '"'
      · simp [lexStep, Mode.step, hc, hn, InStep]
      · simp [lexStep, Mode.step, hc, hn, InStep]
    · simp [lexStep, Mode.step, hc, InStep]
  | .inQString d, .qBody d' acc, h =>
    have hd : d' = d := h
    subst hd
    by_cases hc : c = d'
    · by_cases hn : cs.head? = some '\''
      · simp [lexStep, Mode.step, hc, hn, InStep]
      · simp [lexStep, Mode.step, hc, hn, InStep]
    · simp [lexStep, Mode.step, hc, InStep]
  | .inQString d, .qEnd d' acc, h =>
    obtain ⟨hd, hne⟩ := h
    subst hd
    have hq : c ≠ '\'' := fun e => hne (by rw [e]; rfl)
    by_cases hc : c = d'
    · rw [hc] at hq
      by_cases hn : cs.head? = some '\''
      · simp [lexStep, Mode.step, hc, hq, hn, InStep]
      · simp [lexStep, Mode.step, hc, hq, hn, InStep]
    · simp [lexStep, Mode.step, hc, hq, InStep]

/-! ## 4. What the two agree on -/

/-- A separator that the scan takes along is inside something. -/
theorem InStep.open_of_keep {k : Nat} {c : Char}
    (h : InStep (c :: cs) st (k + 1) m) (hc : IsSeparator c) : m.isOpen = true := by
  have hne : c ≠ '\'' ∧ c ≠ '-' ∧ c ≠ '*' ∧ c ≠ '"' ∧ c ≠ 'q' ∧ c ≠ 'Q' := by
    rcases hc with rfl | rfl <;> decide
  match st, k, m, h with
  | .code, 0, .blockStar acc, h => rfl
  | .code, 0, .qEnd d acc, h => rfl
  | .inLineComment, 0, .minus, h => simp [InStep, hne] at h
  | .inBlockComment, 0, .slash, h => simp [InStep, hne] at h
  | .inSingleString, 0, .word acc, h => simp [InStep, hne] at h
  | .inSingleString, 0, .singleEnd acc, h => simp [InStep, hne] at h
  | .inDoubleString, 0, .plain, h => simp [InStep, hne] at h
  | .inQString d, 2, .word acc, h =>
    obtain ⟨-, q, delim, s, e, hq, -⟩ := h
    rw [(List.cons.inj e).1] at hne
    exact absurd hq (not_or.mpr hne.2.2.2.2)
  | .inQString d, 1, .word acc, h =>
    obtain ⟨-, delim, s, e, -⟩ := h
    exact absurd (List.cons.inj e).1 hne.1
  | .inQString d, 0, .qOpen acc, h => rfl

/-- **A separator the scan reads on its own is plain code exactly where nothing is open.** -/
theorem InStep.plain_iff {c : Char}
    (h : InStep (c :: cs) st 0 m) (hc : IsSeparator c)
    (hstar : c = '/' → cs.head? ≠ some '*') :
    (lexStep st c cs).2.2 = true ↔ m.isOpen = false := by
  have hplain : lexStep .code c cs = (.code, 0, true) := by
    rcases hc with rfl | rfl
    · simp [lexStep, qOpens]
    · simp [lexStep, qOpens, hstar rfl]
  -- a mode that does not go with the state is excluded by `h`
  cases st with
  | code =>
    cases m with
    | plain | word | minus | slash | singleEnd => simp [hplain, Mode.isOpen]
    | _ => cases h
  | inLineComment =>
    cases m with
    | line => simp [lexStep, Mode.isOpen]
    | _ => cases h
  | inBlockComment =>
    cases m with
    | block | blockStar => simp only [lexStep]; split <;> simp [Mode.isOpen]
    | _ => cases h
  | inSingleString =>
    cases m with
    | single => simp only [lexStep]; split <;> simp [Mode.isOpen]
    | _ => exact absurd h (by simp [InStep])
  | inDoubleString =>
    cases m with
    | double => simp only [lexStep]; split <;> simp [Mode.isOpen]
    | _ => cases h
  | inQString d =>
    cases m with
    | qBody | qEnd => simp only [lexStep]; split <;> simp [Mode.isOpen]
    | _ => cases h

/-- In the code state nothing is open. -/
theorem InStep.not_open {rest : Text} (h : InStep rest .code 0 m) :
    m.isOpen = false := by
  cases m <;> first | rfl | exact h.elim

/-- Inside a string literal, a q-quoted literal, a quoted identifier or a block comment. -/
def endsInside : Mode → Bool
  | .line _ => false
  | m => m.isOpen

/-- **At the end of the text** the scan finds something unterminated exactly where Oracle does. -/
theorem InStep.unterminated_iff {k : Nat} (h : InStep [] st k m) :
    (unterminated st).isSome = true ↔ endsInside m = true := by
  match st, k, m, h with
  | .code, 0, .plain, h => simp [unterminated, endsInside, Mode.isOpen]
  | .code, 0, .word acc, h => simp [unterminated, endsInside, Mode.isOpen]
  | .code, 0, .minus, h => simp [unterminated, endsInside, Mode.isOpen]
  | .code, 0, .slash, h => simp [unterminated, endsInside, Mode.isOpen]
  | .code, 0, .singleEnd acc, h => simp [unterminated, endsInside, Mode.isOpen]
  | .inLineComment, 0, .line acc, h => simp [unterminated, endsInside]
  | .inBlockComment, 0, .block acc, h => simp [unterminated, endsInside, Mode.isOpen]
  | .inBlockComment, 0, .blockStar acc, h => simp [unterminated, endsInside, Mode.isOpen]
  | .inSingleString, 0, .single acc, h => simp [unterminated, endsInside, Mode.isOpen]
  | .inSingleString, 0, .qOpen acc, h => simp [unterminated, endsInside, Mode.isOpen]
  | .inDoubleString, 0, .double acc, h => simp [unterminated, endsInside, Mode.isOpen]
  | .inQString d, 0, .qBody d' acc, h => simp [unterminated, endsInside, Mode.isOpen]
  | .inQString d, 0, .qEnd d' acc, h => simp [unterminated, endsInside, Mode.isOpen]
  | .code, 1, .blockStar acc, h => cases h
  | .code, 1, .qEnd d acc, h => cases h
  | .inLineComment, 1, .minus, h => cases h
  | .inBlockComment, 1, .slash, h => cases h
  | .inSingleString, 1, .word acc, h => cases h.1
  | .inSingleString, 1, .singleEnd acc, h => cases h
  | .inDoubleString, 1, .plain, h => cases h
  | .inQString d, 3, .word acc, h =>
    obtain ⟨-, q, delim, s, e, -⟩ := h
    cases e
  | .inQString d, 2, .word acc, h =>
    obtain ⟨-, delim, s, e, -⟩ := h
    cases e
  | .inQString d, 1, .qOpen acc, h =>
    obtain ⟨delim, s, e, -⟩ := h
    cases e

end Veesker.Splitter
