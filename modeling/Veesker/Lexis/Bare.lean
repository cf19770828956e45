/-
  File:      Veesker/Lexis/Bare.lean
  Subject:   STATEMENT TEXTS UP TO COMMENTS, TERMINATORS AND SURROUNDING WHITE SPACE.

  * `bare` -- a text without its comments; `normal` -- its bare text without the white space around
    it and without semicolons at its end; `Same` -- two texts with one normal form;
  * `annot_cut` -- where a text may be cut without changing what any of its characters is;
  * `normal_filler`, `normal_trim`, `normal_cut` -- what may stand in front of a text, around it
    and behind it without changing its normal form.

  Nothing here names the repository.
-/
import Veesker.Lexis.Words

namespace Veesker.Lexis

open List

/-! ## 1. The normal form -/

def isKept (x : Char × Kind) : Bool := x.2 != .comment

/-- A text without its comments. -/
def bare (s : Text) : Text := ((annot s).filter isKept).map Prod.fst

/-- What may end a statement: white space and semicolons. -/
def isEnding (c : Char) : Bool := isSpace c || c == ';'

def normal (s : Text) : Text := trimStart ((bare s).rdropWhile isEnding)

/-- **Two texts are the same statement.** -/
def Same (s t : Text) : Prop := normal s = normal t

instance (s t : Text) : Decidable (Same s t) := inferInstanceAs (Decidable (_ = _))

theorem isEnding_of_isSpace {c : Char} (h : isSpace c = true) : isEnding c = true := by
  rw [isEnding, h, Bool.true_or]

/-- White space in front of a bare text is not seen. -/
theorem normal_of_bare_append {s t w : Text} (hw : ∀ c ∈ w, isSpace c = true)
    (h : bare s = w ++ bare t) : normal s = normal t := by
  unfold normal
  rw [h]
  by_cases hb : ∀ c ∈ bare t, isEnding c = true
  · have hall : ∀ c ∈ w ++ bare t, isEnding c = true := fun c hc =>
      (mem_append.mp hc).elim (fun hc => isEnding_of_isSpace (hw c hc)) (hb c)
    rw [rdropWhile_eq_nil_iff.mpr hall, rdropWhile_eq_nil_iff.mpr hb]
  · have hsplit : (w ++ bare t).rdropWhile isEnding = w ++ (bare t).rdropWhile isEnding := by
      unfold List.rdropWhile
      have hne : (bare t).reverse.dropWhile isEnding ≠ [] := by
        intro hnil
        have := dropWhile_eq_nil_iff.mp hnil
        exact hb fun c hc => this c (mem_reverse.mpr hc)
      rw [reverse_append, dropWhile_append]
      simp [hne]
    rw [hsplit, trimStart, dropWhile_append_of_pos hw]
    rfl

/-- Endings behind a bare text are not seen. -/
theorem normal_of_append_bare {s t w : Text} (hw : ∀ c ∈ w, isEnding c = true)
    (h : bare s = bare t ++ w) : normal s = normal t := by
  unfold normal
  rw [h, rdropWhile_append_of_all hw]

/-! ## 2. Cutting a text -/

/-- `v` starts no token that the end of `t` could be the start of. -/
def EndsBefore (t v : Text) : Prop :=
  ∀ c, v.head? = some c → isSpace c = true ∨ c = ';' ∨ (c = '-' ∧ endsWith t ['-'] = false)

theorem annotTokens_flush (m : Mode) : annotTokens m.flush = m.pending.map (·, m.kind) := by
  cases m <;> simp [Mode.flush, Mode.pending, annotTokens]

theorem annot_eq (s : Text) : annot s = annotTokens (emitted .plain s) ++
    annotTokens (modeFrom .plain s).flush := annotTokens_append _ _

/-- A text that ends with the mode `minus` ends in a minus sign. -/
theorem endsWith_minus {t : Text} (h : modeFrom .plain t = .minus) : endsWith t ['-'] = true := by
  have := textOf_emitted .plain t
  rw [h] at this
  exact endsWith_iff.mpr ⟨_, this.symm⟩

/-- Where nothing is open, a character that goes on with no token ends the one before it. -/
theorem step_close {t v : Text} {c : Char} (h : EndsBefore t (c :: v))
    (ho : (modeFrom .plain t).isOpen = false) :
    (modeFrom .plain t).step c =
      ((Mode.plain.step c).1, (modeFrom .plain t).flush ++ (Mode.plain.step c).2) := by
  have hi : isIdentChar c = false ∧ c ≠ '\'' ∧ c ≠ '*' := by
    rcases h c rfl with hs | rfl | ⟨rfl, -⟩
    · refine ⟨?_, ?_, ?_⟩
      · by_contra hi
        rw [isIdentChar_not_space (by simpa using hi)] at hs
        cases hs
      · rintro rfl
        exact absurd hs (by decide)
      · rintro rfl
        exact absurd hs (by decide)
    · decide
    · decide
  have hminus : modeFrom .plain t = .minus → c ≠ '-' := by
    intro hm hc
    subst hc
    rcases h '-' rfl with hs | hs | ⟨-, hs⟩
    · exact absurd hs (by decide)
    · exact absurd hs (by decide)
    · rw [endsWith_minus hm] at hs
      cases hs
  revert hminus ho
  generalize modeFrom .plain t = m
  intro ho hminus
  cases m with
  | plain => rfl
  | word acc => simp [Mode.step, Mode.close, hi]
  | minus => simp [Mode.step, Mode.close, hminus rfl]
  | slash => simp [Mode.step, Mode.close, hi]
  | singleEnd acc => simp [Mode.step, Mode.close, hi]
  | _ => cases ho

/-- **A cut outside everything**: the two parts are read apart. -/
theorem annot_apart {t v : Text} (h : EndsBefore t v) (ho : (modeFrom .plain t).isOpen = false) :
    annot (t ++ v) = annot t ++ annot v := by
  cases v with
  | nil =>
    rw [append_nil]
    exact (append_nil _).symm
  | cons c v =>
    have hv : annot (c :: v) = annotTokens (lexFrom .plain (c :: v)) := rfl
    have htv : annot (t ++ c :: v) = annotTokens (lexFrom .plain (t ++ c :: v)) := rfl
    rw [hv, htv, lexFrom_append, lexFrom_cons, lexFrom_cons, step_close h ho, annot_eq]
    simp only [annotTokens_append, append_assoc]

/-- **A cut anywhere**: what a character is does not depend on what is behind the cut. -/
theorem annot_cut {t v : Text} (h : EndsBefore t v) : ∃ r, annot (t ++ v) = annot t ++ r := by
  cases ho : (modeFrom .plain t).isOpen with
  | false => exact ⟨annot v, annot_apart h ho⟩
  | true =>
    have hk : (modeFrom .plain t).kind = .string ∨ (modeFrom .plain t).kind = .quoted ∨
        (modeFrom .plain t).kind = .comment := by
      revert ho
      cases modeFrom .plain t <;> simp [Mode.isOpen, Mode.kind]
    obtain ⟨tok, ts, r, e, h1, h2⟩ := lexFrom_first hk v
    have htv : annot (t ++ v) = annotTokens (lexFrom .plain (t ++ v)) := rfl
    refine ⟨r.map (·, (modeFrom .plain t).kind) ++ annotTokens ts, ?_⟩
    rw [htv, lexFrom_append, e, annot_eq, annotTokens_append, annotTokens_cons, h1, h2,
      annotTokens_flush]
    simp

/-- The characters behind a cut are those of the second part. -/
theorem annot_rest {t v : Text} {r : List (Char × Kind)} (h : annot (t ++ v) = annot t ++ r) :
    r.map Prod.fst = v := by
  have hf := map_fst_annot (t ++ v)
  rw [h, map_append, map_fst_annot] at hf
  exact append_cancel_left hf

/-- Nothing is open in front of a semicolon that is one. -/
theorem not_open_of_semicolon {t : Text} (h : modeFrom .plain (t ++ [';']) = .plain) :
    (modeFrom .plain t).isOpen = false := by
  rw [modeFrom_append] at h
  by_contra ho
  have hstep := (step_semicolon_open (by simpa using ho)).2.2
  have hp : ((modeFrom .plain t).step ';').1 = .plain := h
  rw [hp] at hstep
  cases hstep

theorem endsBefore_semicolon (t v : Text) : EndsBefore t (';' :: v) := by
  intro c hc
  cases hc
  exact .inr (.inl rfl)

theorem endsBefore_spaces (t : Text) {v : Text} (h : ∀ c ∈ v, isSpace c = true) :
    EndsBefore t v := by
  intro c hc
  exact .inl (h c (mem_of_mem_head? hc))

/-! ## 3. Around a text -/

theorem bare_spaces {r : List (Char × Kind)} {w : Text} (h : r.map Prod.fst = w)
    (hw : ∀ c ∈ w, isSpace c = true) : ∀ c ∈ (r.filter isKept).map Prod.fst, isSpace c = true := by
  intro c hc
  obtain ⟨x, hx, rfl⟩ := mem_map.mp hc
  exact hw _ (h ▸ mem_map_of_mem (mem_filter.mp hx).1)

/-- The tokens of a filler leave white space. -/
theorem IsFiller.bare_append {d : Text} (hd : IsFiller d)
    (hblank : ∀ t ∈ emitted .plain d, t.kind = .blank → ∀ c ∈ t.text, isSpace c = true) (s : Text) :
    ∃ w, bare (d ++ s) = w ++ bare s ∧ ∀ c ∈ w, isSpace c = true := by
  refine ⟨((annotTokens (emitted .plain d)).filter isKept).map Prod.fst, ?_, ?_⟩
  · have h : annot (d ++ s) = annotTokens (lexFrom .plain (d ++ s)) := rfl
    rw [bare, h, lexFrom_append, hd.1, annotTokens_append, filter_append, map_append]
    rfl
  · intro c hc
    obtain ⟨x, hx, rfl⟩ := mem_map.mp hc
    obtain ⟨hmem, hkept⟩ := mem_filter.mp hx
    obtain ⟨t, ht, hxt⟩ := mem_flatMap.mp hmem
    obtain ⟨c, hct, rfl⟩ := mem_map.mp hxt
    have hsig := hd.2 t ht
    have hkind : t.kind = .blank := by
      simp only [Token.isSignificant, Bool.and_eq_false_iff, bne_eq_false_iff_eq] at hsig
      rcases hsig with h | h
      · simp [isKept, h] at hkept
      · exact h
    exact hblank t ht hkind c hct

theorem blank_of_fresh {c : Char} {t : Token} (h : t ∈ (fresh c).2) (hk : t.kind = .blank) :
    ∀ d ∈ t.text, isSpace d = true := by
  unfold fresh at h
  split at h
  · rename_i hs
    rw [mem_singleton.mp h]
    simpa using hs
  · split_ifs at h <;> simp at h
    rw [h] at hk
    cases hk

/-- A blank token is white space. -/
theorem blank_of_step {m : Mode} {c : Char} {t : Token} (h : t ∈ (m.step c).2)
    (hk : t.kind = .blank) : ∀ d ∈ t.text, isSpace d = true := by
  have hclose : ∀ m : Mode, t ∈ (m.close c).2 → ∀ d ∈ t.text, isSpace d = true := by
    intro m hm
    rcases mem_append.mp hm with hf | hf
    · cases m <;> simp [Mode.flush, Mode.kind] at hf <;> rw [hf] at hk <;> cases hk
    · exact blank_of_fresh hf hk
  cases m with
  | plain => exact blank_of_fresh h hk
  | word acc =>
    simp only [Mode.step] at h
    split_ifs at h
    · cases h
    · cases h
    · cases h
    · exact hclose _ h
  | minus =>
    simp only [Mode.step] at h
    split_ifs at h
    · cases h
    · exact hclose _ h
  | slash =>
    simp only [Mode.step] at h
    split_ifs at h
    · cases h
    · exact hclose _ h
  | singleEnd acc =>
    simp only [Mode.step] at h
    split_ifs at h
    · cases h
    · exact hclose _ h
  | line acc =>
    simp only [Mode.step] at h
    split_ifs at h with hc
    · simp only [mem_cons, not_mem_nil, or_false] at h
      rcases h with rfl | rfl
      · cases hk
      · simpa [hc] using (by decide : isSpace '\n' = true)
    · cases h
  | qOpen acc => cases h
  | _ =>
    simp only [Mode.step] at h
    split_ifs at h <;> simp at h <;> rw [h] at hk <;> cases hk

theorem blank_of_emitted {m : Mode} {s : Text} {t : Token} (h : t ∈ emitted m s)
    (hk : t.kind = .blank) : ∀ d ∈ t.text, isSpace d = true := by
  induction s generalizing m with
  | nil => cases h
  | cons c s ih =>
    rcases mem_append.mp h with h | h
    · exact blank_of_step h hk
    · exact ih h

/-- **A filler in front of a text is not seen.** -/
theorem normal_filler {d : Text} (hd : IsFiller d) (s : Text) : normal (d ++ s) = normal s := by
  obtain ⟨w, h, hw⟩ := hd.bare_append (fun _ ht hk => blank_of_emitted ht hk) s
  exact normal_of_bare_append hw h

/-- **White space behind a text is not seen.** -/
theorem normal_append_spaces (s : Text) {w : Text} (hw : ∀ c ∈ w, isSpace c = true) :
    normal (s ++ w) = normal s := by
  obtain ⟨r, hr⟩ := annot_cut (endsBefore_spaces s hw)
  refine normal_of_append_bare (w := (r.filter isKept).map Prod.fst) (fun c hc => ?_) ?_
  · exact isEnding_of_isSpace (bare_spaces (annot_rest hr) hw c hc)
  · rw [bare, hr, filter_append, map_append]
    rfl

/-- **Trimming is not seen.** -/
theorem normal_trim (s : Text) : normal (trim s) = normal s := by
  obtain ⟨d, hd, hsp⟩ := trimStart_split s
  obtain ⟨e, he, hsp'⟩ := rdropWhile_split isSpace (trimStart s)
  have hfront : normal s = normal (trimStart s) := by
    have := normal_filler (isFiller_spaces hsp) (trimStart s)
    rwa [← hd] at this
  have hback : normal (trimStart s) = normal (trimEnd (trimStart s)) := by
    have := normal_append_spaces (trimEnd (trimStart s)) hsp'
    rwa [trimEnd, ← he] at this
  rw [hfront, hback]
  rfl

/-- White space, semicolons and line comments: what may stand behind a terminator. -/
inductive Trailer : Text → Prop where
  | nil : Trailer []
  | space {c : Char} {s : Text} (hc : isSpace c = true) (h : Trailer s) : Trailer (c :: s)
  | semicolon {s : Text} (h : Trailer s) : Trailer (';' :: s)
  | comment {w s : Text} (hw : '\n' ∉ w) (h : Trailer s) : Trailer ('-' :: '-' :: (w ++ '\n' :: s))
  | open_ {w : Text} (hw : '\n' ∉ w) : Trailer ('-' :: '-' :: w)

/-- A trailer leaves only endings. -/
theorem Trailer.bare_endings {s : Text} (h : Trailer s) : ∀ c ∈ bare s, isEnding c = true := by
  have hfiller : ∀ d s : Text, IsFiller d → (∀ c ∈ bare s, isEnding c = true) →
      ∀ c ∈ bare (d ++ s), isEnding c = true := by
    intro d s hd hs c hc
    obtain ⟨w, e, hw⟩ := hd.bare_append (fun _ ht hk => blank_of_emitted ht hk) s
    rw [e] at hc
    rcases mem_append.mp hc with hc | hc
    · exact isEnding_of_isSpace (hw c hc)
    · exact hs c hc
  induction h with
  | nil => intro c hc; cases hc
  | @space c s hc _ ih => exact hfiller [c] s (isFiller_spaces (by simpa using hc)) ih
  | @semicolon s _ ih =>
    intro c hc
    have hf : Mode.step .plain ';' = (.plain, [⟨.symbol, [';']⟩]) := by decide
    have e : annot (';' :: s) = (';', .symbol) :: annot s := by
      have h1 : annot (';' :: s) = annotTokens (lexFrom .plain (';' :: s)) := rfl
      rw [h1, lexFrom_cons, hf]
      rfl
    rw [bare, e] at hc
    rcases mem_cons.mp hc with rfl | hc
    · rfl
    · exact ih c hc
  | @comment w s hw _ ih =>
    have e : '-' :: '-' :: (w ++ '\n' :: s) = '-' :: '-' :: (w ++ ['\n']) ++ s := by simp
    rw [e]
    exact hfiller _ s (isFiller_line hw) ih
  | @open_ w hw =>
    intro c hc
    obtain ⟨h1, h2⟩ := line_comment ['-', '-'] w hw
    have e1 : Mode.step .plain '-' = (.minus, []) := by decide
    have e2 : Mode.step .minus '-' = (.line ['-', '-'], []) := by decide
    have e : annot ('-' :: '-' :: w) = annotTokens [⟨.comment, ['-', '-'] ++ w⟩] := by
      have h3 : annot ('-' :: '-' :: w) = annotTokens (lexFrom .plain ('-' :: '-' :: w)) := rfl
      rw [h3, lexFrom_cons, e1, lexFrom_cons, e2, lexFrom, h1, h2]
      rfl
    have hnil : (annot ('-' :: '-' :: w)).filter isKept = [] := by
      rw [e, filter_eq_nil_iff]
      intro x hx
      obtain ⟨t, ht, hxt⟩ := mem_flatMap.mp hx
      obtain ⟨d, -, rfl⟩ := mem_map.mp hxt
      rw [mem_singleton.mp ht]
      exact Bool.false_ne_true
    rw [bare, hnil] at hc
    cases hc

/-- **A terminator and what may stand behind it are not seen.** -/
theorem normal_cut {t r : Text} (ht : modeFrom .plain (t ++ [';']) = .plain) (hr : Trailer r) :
    normal (t ++ ';' :: r) = normal t := by
  have ha := annot_apart (endsBefore_semicolon t r) (not_open_of_semicolon ht)
  refine normal_of_append_bare (Trailer.semicolon hr).bare_endings ?_
  rw [bare, ha, filter_append, map_append]
  rfl

end Veesker.Lexis
