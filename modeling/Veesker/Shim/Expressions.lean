/-
  File:      Veesker/Shim/Expressions.lean
  Subject:   THE EXPRESSIONS ARE SOUND: each finds nothing inside a placeholder, and rewrites what
             it finds (`Sound`).

  * `sound_words` -- words for words: FROM DUAL, SYSDATE, SYSTIMESTAMP, ROWNUM;
  * `sound_nvl` -- NVL;
  * `sound_call` -- calls, from what is done with the arguments (`CallSound`): NVL2 here, DECODE and
    the dates in modules of their own.
-/
import Veesker.Shim.Rewrites

namespace Veesker.Shim

open List

variable {F : Nat → Prop} {find : Option Char → Text → Found} {prev : Option Char} {s : Text}

/-! ## 1. Where an expression begins -/

/-- A name that starts with one of the letters of `Begins`. -/
def Named (name : Text) : Prop := ∃ c cs, name = c :: cs ∧ c ∈ "FSNDTW".toList

theorem begins_of_keyword {name : Text} (hname : Named name) (h : keyword name prev s ≠ none) :
    Begins prev s := by
  obtain ⟨c, cs, rfl, hc⟩ := hname
  obtain ⟨r, hr⟩ := Option.ne_none_iff_exists'.mp h
  obtain ⟨hprev, w, rfl, hw⟩ := keyword_eq hr
  cases w with
  | nil => cases hw
  | cons d w => exact ⟨hprev, d, w ++ r, rfl, (List.cons.inj hw).1 ▸ hc⟩

theorem begins_of_callAt {name : Text} (hname : Named name) (h : callAt name prev s ≠ none) :
    Begins prev s := by
  refine begins_of_keyword hname fun hk => h ?_
  rw [callAt, hk]
  rfl

/-! ## 2. Words for words -/

/-- A text that is put in the place of another, neither with a placeholder in it. -/
structure Reworded (t r : Text) : Prop where
  ne : t ≠ []
  flat : flatFrom 0 (chars t) = true
  clean : '\x01' ∉ t
  flat' : flatFrom 0 (chars r) = true
  clean' : '\x01' ∉ r
  ends : ∃ x w y, r = x :: w ++ [y] ∧ isSpace x = false ∧ (x ≠ ')' ∧ x ≠ 'V') ∧
    isWordChar y = true ∧ y.toUpper ∉ nameLetters

theorem sound_words (hbegins : ∀ prev s, find prev s ≠ .nothing → Begins prev s)
    (h : ∀ prev s k r, find prev s = .hit k r →
      ∃ t rest, s = t ++ rest ∧ k = t.length ∧ Reworded t r) : Sound F find where
  begins := hbegins
  rewrites pre prev ps k r _ _ _ hf := by
    obtain ⟨t, rest, e, rfl, ht⟩ := h _ _ _ _ hf
    obtain ⟨qs, rfl, -⟩ := render_split ht.clean e
    obtain ⟨x, w, y, rfl, hx, hx', hy, hy'⟩ := ht.ends
    refine ⟨chars t, chars (x :: w ++ [y]), qs, rfl, ?_, by rw [render_chars], by rw [render_chars],
      rewrites_words ht.flat ht.flat' ht.clean' hx hx' hy hy'⟩
    obtain ⟨c, t, rfl⟩ := exists_cons_of_ne_nil ht.ne
    exact cons_ne_nil _ _

/-- No parenthesis, no comma and no placeholder. -/
def Plain (t : Text) : Prop := ∀ c ∈ t, (c ≠ '(' ∧ c ≠ ')' ∧ (c = ',' → 0 ≠ 0)) ∧ c ≠ '\x01'

theorem Plain.append {t t' : Text} (h : Plain t) (h' : Plain t') : Plain (t ++ t') := by
  intro c hc
  obtain hc | hc := mem_append.mp hc
  · exact h c hc
  · exact h' c hc

theorem Plain.flat {t : Text} (h : Plain t) : flatFrom 0 (chars t) = true := by
  have := flat_text (d := 0) (fun c hc => (h c hc).1) []
  rw [append_nil] at this
  exact this

theorem Plain.clean {t : Text} (h : Plain t) : '\x01' ∉ t := fun hc => (h _ hc).2 rfl

theorem plain_words {t : Text} (h : ∀ c ∈ t, isWordChar c = true) : Plain t := by
  intro c hc
  refine ⟨plain_word (h c hc), ?_⟩
  rintro rfl
  exact absurd (h _ hc) (by decide)

theorem plain_spaces {t : Text} (h : ∀ c ∈ t, isSpace c = true) : Plain t := by
  intro c hc
  refine ⟨plain_space (h c hc), ?_⟩
  rintro rfl
  exact absurd (h _ hc) (by decide)

theorem plain_name {w name : Text} (hw : w.map Char.toUpper = name)
    (hname : name.all isWordChar = true) : Plain w :=
  plain_words (word_of_capitals hw (all_eq_true.mp hname))

theorem named_ne {name w : Text} (hname : Named name) (hw : w.map Char.toUpper = name) : w ≠ [] := by
  rintro rfl
  obtain ⟨c, cs, rfl, -⟩ := hname
  cases hw

theorem sound_word {name : Text} (hname : Named name) (hword : name.all isWordChar = true) :
    Sound F (findWord name "CURRENT_TIMESTAMP".toList) := by
  refine sound_words ?_ ?_
  · intro prev s h
    refine begins_of_keyword hname fun hk => h ?_
    rw [findWord, hk]
  · intro prev s k r h
    unfold findWord at h
    split at h
    · rename_i rest hk
      split at h
      · obtain ⟨rfl, rfl⟩ := Found.hit.inj h
        obtain ⟨-, w, rfl, hw⟩ := keyword_eq hk
        have hplain := plain_name hw hword
        exact ⟨w, rest, rfl, by rw [← hw, length_map], named_ne hname hw, hplain.flat,
          hplain.clean, rfl, by decide, 'C', "URRENT_TIMESTAM".toList, 'P', rfl, rfl, by decide, rfl,
          by decide⟩
      · cases h
    · cases h

/-- White space and what stands behind it. -/
theorem spaces_split (s : Text) : ∃ g, s = g ++ s.dropWhile isSpace ∧ ∀ c ∈ g, isSpace c = true :=
  ⟨s.takeWhile isSpace, takeWhile_append_dropWhile.symm, fun _ hc => mem_takeWhile_imp hc⟩

theorem findFromDual_hit {k : Nat} {r : Text} (h : findFromDual prev s = .hit k r) :
    ∃ w t rest, s = t ++ rest ∧ k = t.length ∧ w.map Char.toUpper = "FROM".toList ∧ t ≠ [] ∧
      Plain t ∧ r = w ++ " (SELECT 'X' AS DUMMY) AS DUAL".toList := by
  unfold findFromDual at h
  split at h
  · cases h
  rename_i r₁ hk
  split at h
  swap
  · cases h
  split at h
  swap
  · cases h
  rename_i rest hk'
  split at h
  swap
  · cases h
  obtain ⟨rfl, rfl⟩ := Found.hit.inj h
  obtain ⟨-, w, rfl, hw⟩ := keyword_eq hk
  obtain ⟨-, w', e', hw'⟩ := keyword_eq hk'
  obtain ⟨g, e, hg⟩ := spaces_split r₁
  rw [e'] at e
  have hlen : w.length = 4 := by
    rw [← length_map Char.toUpper, hw]
    rfl
  refine ⟨w, w ++ g ++ w', rest, by simp [e], ?_, hw, ?_, ?_, ?_⟩
  · simp only [e, length_append]
    omega
  · exact append_ne_nil_of_left_ne_nil (append_ne_nil_of_left_ne_nil
      (named_ne ⟨'F', "ROM".toList, rfl, by decide⟩ hw) _) _
  · exact ((plain_name hw rfl).append (plain_spaces hg)).append (plain_name hw' rfl)
  · rw [← hlen, take_left]

theorem sound_fromDual : Sound F findFromDual := by
  have hname : Named "FROM".toList := ⟨'F', "ROM".toList, rfl, by decide⟩
  refine sound_words ?_ ?_
  · intro prev s h
    refine begins_of_keyword hname fun hk => h ?_
    rw [findFromDual, hk]
  · intro prev s k r h
    obtain ⟨w, t, rest, rfl, rfl, hw, hne, ht, rfl⟩ := findFromDual_hit h
    refine ⟨t, rest, rfl, rfl, ?_⟩
    have hplain := plain_name hw rfl
    obtain ⟨c, cs, rfl⟩ := exists_cons_of_ne_nil (named_ne hname hw)
    have hc : isWordChar c = true :=
      word_of_capitals hw (all_eq_true.mp rfl) c mem_cons_self
    refine ⟨hne, ht.flat, ht.clean, ?_, ?_, c, cs ++ " (SELECT 'X' AS DUMMY) AS DUA".toList, 'L',
      ?_, space_of_word hc, ⟨(plain_word (d := 0) hc).2.1, ?_⟩, rfl, by decide⟩
    · rw [chars_append, flat_text fun d hd => (hplain d hd).1]
      rfl
    · rw [mem_append, not_or]
      exact ⟨hplain.clean, by decide⟩
    · rw [cons_append, cons_append, append_assoc]
      rfl
    · rintro rfl
      exact absurd (List.cons.inj hw).1 (by decide)

theorem not_letter_of_digit {c : Char} (h : c.isDigit = true) : c.toUpper ∉ nameLetters := by
  have hascii : c.toNat < 128 := isAlphanum_ascii (by simp [Char.isAlphanum, h])
  exact forall_ascii (P := fun c => c.isDigit = true → c.toUpper ∉ nameLetters) (by decide) hascii h

/-- The condition on a number of rows, as it is found. -/
theorem findRownum_hit {op : Text} {limit : Text → Text} {k : Nat} {r : Text} (hop : Plain op)
    (h : findRownum op limit prev s = .hit k r) :
    ∃ t n rest, s = t ++ rest ∧ k = t.length ∧ t ≠ [] ∧ Plain t ∧ n ≠ [] ∧
      (∀ c ∈ n, c.isDigit = true) ∧ r = "LIMIT ".toList ++ limit n := by
  unfold findRownum at h
  split at h
  · cases h
  rename_i r₁ hk
  split at h
  swap
  · cases h
  split at h
  · cases h
  rename_i r₂ hk'
  dsimp only at h
  split at h
  swap
  · cases h
  rename_i hstart
  split at h
  swap
  · cases h
  rename_i hn
  obtain ⟨rfl, rfl⟩ := Found.hit.inj h
  obtain ⟨-, w, rfl, hw⟩ := keyword_eq hk
  obtain ⟨-, w', e', hw'⟩ := keyword_eq hk'
  obtain ⟨r₃, e₃⟩ := startsWith_iff.mp hstart
  rw [e₃, drop_left] at hn ⊢
  -- the stretches, one behind the other
  obtain ⟨g₁, e₁, hg₁⟩ := spaces_split r₁
  obtain ⟨g₂, e₂, hg₂⟩ := spaces_split r₂
  obtain ⟨g₃, e₄, hg₃⟩ := spaces_split r₃
  obtain ⟨g₄, e₅, hg₄⟩ := spaces_split ((r₃.dropWhile isSpace).dropWhile Char.isDigit)
  have e₆ : r₃.dropWhile isSpace = (r₃.dropWhile isSpace).takeWhile Char.isDigit ++
      (r₃.dropWhile isSpace).dropWhile Char.isDigit := takeWhile_append_dropWhile.symm
  have hdigits : ∀ c ∈ (r₃.dropWhile isSpace).takeWhile Char.isDigit, c.isDigit = true :=
    fun c hc => mem_takeWhile_imp hc
  generalize (r₃.dropWhile isSpace).takeWhile Char.isDigit = n at hn e₆ hdigits ⊢
  generalize ((r₃.dropWhile isSpace).dropWhile Char.isDigit).dropWhile isSpace = rest at e₅ ⊢
  have e : w ++ r₁ = w ++ g₁ ++ w' ++ g₂ ++ op ++ g₃ ++ n ++ g₄ ++ rest := by
    rw [e₁, e', e₂, e₃, e₄, e₆, e₅]
    simp only [append_assoc]
  refine ⟨_, n, rest, e, ?_, ?_, ?_, hn.1, hdigits, rfl⟩
  · rw [e, length_append]
    omega
  · have hne := @named_ne "WHERE".toList w ⟨'W', "HERE".toList, rfl, by decide⟩ hw
    simp [hne]
  · have hd := plain_words fun c hc => isWordChar_of_isDigit (hdigits c hc)
    have hhead := ((plain_name hw rfl).append (plain_spaces hg₁)).append (plain_name hw' rfl)
    exact (((((hhead.append (plain_spaces hg₂)).append hop).append (plain_spaces hg₃)).append
      hd).append (plain_spaces hg₄))

theorem sound_rownum {op : Text} {limit : Text → Text} (hop : Plain op)
    (hlimit : ∀ n, n ≠ [] → (∀ c ∈ n, c.isDigit = true) →
      ∃ l y, limit n = l ++ [y] ∧ Plain l ∧ y.isDigit = true) :
    Sound F (findRownum op limit) := by
  have hname : Named "WHERE".toList := ⟨'W', "HERE".toList, rfl, by decide⟩
  refine sound_words ?_ ?_
  · intro prev s h
    refine begins_of_keyword hname fun hk => h ?_
    rw [findRownum, hk]
  · intro prev s k r h
    obtain ⟨t, n, rest, rfl, rfl, hne, ht, hn, hdigits, rfl⟩ := findRownum_hit hop h
    refine ⟨t, rest, rfl, rfl, ?_⟩
    obtain ⟨l, y, e, hl, hy⟩ := hlimit n hn hdigits
    have hdigit := isWordChar_of_isDigit hy
    have hword : ∀ c ∈ "LIMIT".toList, isWordChar c = true := all_eq_true.mp rfl
    have hspace : ∀ c ∈ " ".toList, isSpace c = true := all_eq_true.mp rfl
    have hlimit : Plain "LIMIT ".toList := (plain_words hword).append (plain_spaces hspace)
    have hall : Plain ("LIMIT ".toList ++ limit n) := by
      rw [e, ← append_assoc]
      exact (hlimit.append hl).append (plain_words (by simpa using hdigit))
    refine ⟨hne, ht.flat, ht.clean, hall.flat, hall.clean, 'L', "IMIT ".toList ++ l, y, ?_, rfl,
      by decide, hdigit, not_letter_of_digit hy⟩
    rw [e, ← append_assoc]
    rfl

/-! ## 3. Calls -/

theorem render_call (w g : Text) (args : List Piece) :
    render (call w g args) = w ++ g ++ '(' :: (render args ++ [')']) := by
  rw [call_eq, render_append, render_append, render_chars, render_chars, render_char, render_append]
  rfl

theorem sound_nvl : Sound F findNvl := by
  have hname : Named "NVL".toList := ⟨'N', "VL".toList, rfl, by decide⟩
  refine ⟨?_, ?_⟩
  · intro prev s h
    refine begins_of_callAt hname fun hk => h ?_
    rw [findNvl, hk]
  · intro pre prev ps k r _ _ _ hf
    unfold findNvl at hf
    split at hf
    · rename_i inner hc
      obtain ⟨rfl, rfl⟩ := Found.hit.inj hf
      obtain ⟨w, g, qs, rfl, hw, hg, rfl⟩ := callAt_render rfl hc
      refine ⟨chars w ++ chars g ++ [.char '('], chars "COALESCE(".toList, qs, by simp, by simp, ?_,
        by rw [render_chars], rewrites_nvl hw hg⟩
      simp only [render_append, render_chars, render_char, length_append, length_cons,
        render_nil, length_nil]
      omega
    · cases hf

/-- What a rewrite of calls must see to. -/
def CallSound (F : Nat → Prop) (name : Text) (rewrite : Text → Text) : Prop :=
  ∀ pre w g args rest, Edge pre → (∀ n, IsFormat (pre ++ call w g args ++ rest) n → F n) →
    Clean args → w.map Char.toUpper = name → (∀ c ∈ g, isSpace c = true) →
    insideFrom 0 args = true →
      ∃ R', rewrite (render args) = render R' ∧ Rewrites (call w g args) R'

theorem sound_call {name : Text} {rewrite : Text → Text} (hname : Named name)
    (hword : name.all isWordChar = true) (h : CallSound F name rewrite) :
    Sound F (findCall name rewrite) where
  begins prev s hf := by
    refine begins_of_callAt hname fun hk => hf ?_
    rw [findCall, hk]
  rewrites pre prev ps k r hpre hF hclean hf := by
    obtain ⟨w, g, args, rest, rfl, hw, hg, hin, rfl, rfl⟩ := findCall_hit hword hf
    have hsplit : chars w ++ chars g ++ .char '(' :: args ++ .char ')' :: rest =
        call w g args ++ rest := by simp [call]
    rw [hsplit] at hF hclean ⊢
    have hargs : Clean args := (clean_of_call (u := []) hclean).1
    rw [← append_assoc] at hF
    obtain ⟨R', e, hrw⟩ := h pre w g args rest hpre hF hargs hw hg hin
    exact ⟨call w g args, R', rest, rfl, by simp [call], rfl, e, hrw⟩

/-- A call that stays a call. -/
theorem unchanged_sound {c : Char} {name w g : Text} {args : List Piece}
    (hw : w.map Char.toUpper = c :: name) (hword : (c :: name).all isWordChar = true)
    (hg : ∀ c ∈ g, isSpace c = true) (hV : c ≠ 'V') :
    ∃ R', unchanged (c :: name) (render args) = render R' ∧ Rewrites (call w g args) R' := by
  refine ⟨call (c :: name) [] args, ?_, rewrites_unchanged hw hword hg hV⟩
  rw [render_call, unchanged]
  simp

/-! ## 4. NVL2 -/

theorem seg_case : Seg "(CASE WHEN ".toList :=
  seg_text (c := ' ') (x := '(') (by decide) rfl rfl rfl (by decide) rfl rfl (by decide)

theorem seg_notNull : Seg " IS NOT NULL THEN ".toList :=
  seg_text (c := ' ') (x := 'I') (by decide) rfl rfl rfl (by decide) rfl rfl (by decide)

theorem seg_else : Seg " ELSE ".toList :=
  seg_text (c := ' ') (x := 'E') (by decide) rfl rfl rfl (by decide) rfl rfl (by decide)

theorem last_case : Last " END)".toList :=
  last_close (k := " END".toList) (x := 'E') (clean_chars (by decide)) ⟨' ', _, rfl, rfl, by decide⟩
    rfl (by decide)

theorem nvl2_sound : CallSound F "NVL2".toList rewriteNvl2 := by
  intro pre w g args rest _ _ hclean hw hg hin
  obtain ⟨a, l, hparts, rfl, hflat⟩ := parts_spec hin
  have hsplit := splitArgs_render (a ++ behindCommas l)
  rw [hparts] at hsplit
  unfold rewriteNvl2
  rw [hsplit]
  match l with
  | [b, c] =>
    let segs := [("(CASE WHEN ".toList, trimmed a), (" IS NOT NULL THEN ".toList, trimmed b),
      (" ELSE ".toList, trimmed c)]
    have hsegs : ∀ s ∈ segs, Seg s.1 ∧ ∃ q ∈ [a, b, c], s.2 = trimmed q := by
      refine forall_mem_cons.mpr ⟨⟨seg_case, a, by simp, rfl⟩, ?_⟩
      refine forall_mem_cons.mpr ⟨⟨seg_notNull, b, by simp, rfl⟩, ?_⟩
      exact forall_mem_singleton.mpr ⟨seg_else, c, by simp, rfl⟩
    have hopens : ∀ s ∈ segs.tail, Opens s.1 := by
      refine forall_mem_cons.mpr ⟨⟨' ', _, rfl, rfl, by decide⟩, ?_⟩
      exact forall_mem_singleton.mpr ⟨' ', _, rfl, rfl, by decide⟩
    refine ⟨build segs " END)".toList, by simp [segs, build, joined, trim_render], ?_⟩
    · refine rewrites_args (word_of_capitals hw (all_eq_true.mp rfl)) hg hin hflat hsegs
        hopens ⟨'(', _, rfl, by decide⟩ last_case ?_ fun u v _ F _ => ?_
      · have hopen : ∀ z, flatFrom 0 (chars "(CASE WHEN ".toList ++ z) = flatFrom 1 z := fun z => rfl
        have hthen : ∀ z, flatFrom 1 (chars " IS NOT NULL THEN ".toList ++ z) = flatFrom 1 z :=
          fun z => rfl
        have helse : ∀ z, flatFrom 1 (chars " ELSE ".toList ++ z) = flatFrom 1 z := fun z => rfl
        rw [build_cons, build_cons, build_cons, hopen, flat_arg (flat_trimmed (hflat a (by simp))),
          hthen, flat_arg (flat_trimmed (hflat b (by simp))), helse,
          flat_arg (flat_trimmed (hflat c (by simp)))]
        rfl
      · refine .of_sublist ?_
        simp [segs, refs_behindCommas, refs_trimmed]
  | [] => exact unchanged_sound hw rfl hg (by decide)
  | [b] => exact unchanged_sound hw rfl hg (by decide)
  | b :: c :: d :: l => exact unchanged_sound hw rfl hg (by decide)

theorem sound_nvl2 : Sound F (findCall "NVL2".toList rewriteNvl2) :=
  sound_call ⟨'N', "VL2".toList, rfl, by decide⟩ rfl nvl2_sound

end Veesker.Shim
