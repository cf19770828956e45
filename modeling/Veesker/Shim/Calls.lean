/-
  File:      Veesker/Shim/Calls.lean
  Subject:   WORDS, CALLS AND ARGUMENTS OF A MASKED TEXT, as pieces.

  What an expression finds in `render ps` it finds in `ps`: words, white space and parentheses are
  pieces of their own, and a placeholder is never cut.

  * `keyword_render`, `callAt_render`, `matchParen_render`, `findCall_hit` -- a call;
  * `splitArgs_render` -- its arguments: **each balances, and joined by commas they are the text**;
  * `trim_render`, `trimmed_split` -- an argument without the white space around it.
-/
import Veesker.Shim.Passes

namespace Veesker.Shim

open List

variable {ps qs : List Piece} {s t : Text} {d e : Nat}

/-! ## 1. Words and white space -/

theorem not_mem_of_words (h : ∀ c ∈ t, isWordChar c = true) : '\x01' ∉ t := by
  intro hc
  exact absurd (h _ hc) (by decide)

theorem not_mem_of_spaces (h : ∀ c ∈ t, isSpace c = true) : '\x01' ∉ t := by
  intro hc
  exact absurd (h _ hc) (by decide)

variable {prev : Option Char}

theorem keyword_eq {name : Text} {r : Text} (h : keyword name prev s = some r) :
    prev.all (fun c => !isWordChar c) = true ∧ ∃ w, s = w ++ r ∧ w.map Char.toUpper = name := by
  unfold keyword at h
  split at h
  · rename_i hk
    cases h
    exact ⟨hk.1, _, (take_append_drop _ _).symm, hk.2⟩
  · cases h

theorem keyword_render {name : Text} (hname : name.all isWordChar = true)
    {r : Text} (h : keyword name prev (render ps) = some r) :
    ∃ w qs, ps = chars w ++ qs ∧ w.map Char.toUpper = name ∧ r = render qs := by
  obtain ⟨-, w, e, hw⟩ := keyword_eq h
  have hword := word_of_capitals hw (all_eq_true.mp hname)
  obtain ⟨qs, rfl, hqs⟩ := render_split (not_mem_of_words hword) e
  exact ⟨w, qs, rfl, hw, hqs.symm⟩

theorem spaces_render (ps : List Piece) :
    ∃ g qs, ps = chars g ++ qs ∧ (∀ c ∈ g, isSpace c = true) ∧
      (render ps).dropWhile isSpace = render qs := by
  have hg : ∀ c ∈ (render ps).takeWhile isSpace, isSpace c = true := fun c hc =>
    mem_takeWhile_imp hc
  obtain ⟨qs, e, hqs⟩ := render_split (not_mem_of_spaces hg) takeWhile_append_dropWhile.symm
  exact ⟨_, qs, e, hg, hqs.symm⟩

theorem callAt_render {name : Text} (hname : name.all isWordChar = true)
    {inner : Text} (h : callAt name prev (render ps) = some inner) :
    ∃ w g qs, ps = chars w ++ chars g ++ .char '(' :: qs ∧ w.map Char.toUpper = name ∧
      (∀ c ∈ g, isSpace c = true) ∧ inner = render qs := by
  unfold callAt at h
  cases hk : keyword name prev (render ps) with
  | none => rw [hk] at h; cases h
  | some r =>
    obtain ⟨w, qs, rfl, hw, rfl⟩ := keyword_render hname hk
    obtain ⟨g, qs, rfl, hg, hdrop⟩ := spaces_render qs
    rw [hk, Option.map_some, hdrop] at h
    split at h
    · rename_i inner' e
      cases h
      obtain ⟨qs, rfl, rfl⟩ := render_split (t := ['(']) (by decide) (Option.some.inj e)
      exact ⟨w, g, qs, by simp, hw, hg, rfl⟩
    · cases h

/-! ## 2. Parentheses -/

/-- Parentheses that balance; `depth` more are open in front. -/
def insideFrom : Nat → List Piece → Bool
  | depth, [] => depth = 0
  | depth, .lit _ :: ps => insideFrom depth ps
  | depth, .char c :: ps =>
    if c = '(' then insideFrom (depth + 1) ps
    else if c = ')' then depth ≠ 0 && insideFrom (depth - 1) ps
    else insideFrom depth ps

/-- What balances, commas and all, is flat within a parenthesis. -/
theorem flat_inside (h : insideFrom d ps = true) :
    flatFrom (d + e + 1) (ps ++ qs) = flatFrom (e + 1) qs := by
  induction ps generalizing d with
  | nil =>
    have hd : d = 0 := by simpa [insideFrom] using h
    rw [hd, Nat.zero_add]
    rfl
  | cons p ps ih =>
    cases p with
    | lit n => exact ih h
    | char c =>
      rw [insideFrom] at h
      rw [cons_append, flatFrom]
      split at h
      · rename_i hc
        rw [if_pos hc, ← ih h]
        congr 1
        omega
      · rename_i h1
        rw [if_neg h1]
        split at h
        · rename_i hc
          obtain ⟨hd, h⟩ := Bool.and_eq_true_iff.mp h
          obtain ⟨k, rfl⟩ := Nat.exists_eq_succ_of_ne_zero (of_decide_eq_true hd)
          have hk : decide (k.succ + e + 1 ≠ 0) = true := decide_eq_true (by omega)
          rw [if_pos hc, hk, Bool.true_and, ← ih h]
          congr 1
          omega
        · rename_i h2
          have hk : decide (d + e + 1 ≠ 0) = true := decide_eq_true (by omega)
          rw [if_neg h2, hk, Bool.true_and, ite_self, ih h]

theorem flat_call (h : insideFrom 0 ps = true) : flatFrom 0 (.char '(' :: ps ++ [.char ')']) = true := by
  rw [cons_append, flatFrom_open]
  exact (flat_inside (e := 0) h).trans rfl

/-- A character of a placeholder is no parenthesis and no comma. -/
theorem placeholder_plain {n : Nat} {c : Char} (h : c ∈ placeholder n) :
    c ≠ '(' ∧ c ≠ ')' ∧ c ≠ ',' := by
  obtain rfl | hc | rfl := mem_placeholder h
  · decide
  · refine ⟨?_, ?_, ?_⟩ <;> (intro e; rw [e] at hc; exact absurd hc (by decide))
  · decide

theorem matchParen_plain (h : ∀ c ∈ t, c ≠ '(' ∧ c ≠ ')') :
    matchParen d (t ++ s) = (matchParen d s).map fun r => (t ++ r.1, r.2) := by
  induction t with
  | nil => simp
  | cons c t ih =>
    obtain ⟨h1, h2⟩ := h c mem_cons_self
    rw [cons_append, matchParen, if_neg h1, if_neg h2,
      ih fun x hx => h x (mem_cons_of_mem _ hx), Option.map_map]
    rfl

theorem matchParen_render {a rest : Text} (h : matchParen d (render ps) = some (a, rest)) :
    ∃ args qs, ps = args ++ .char ')' :: qs ∧ a = render args ∧ rest = render qs ∧
      insideFrom d args = true := by
  induction ps generalizing d a with
  | nil => cases h
  | cons p ps ih =>
    cases p with
    | lit n =>
      rw [render_lit, matchParen_plain fun c hc =>
        ⟨(placeholder_plain hc).1, (placeholder_plain hc).2.1⟩] at h
      obtain ⟨⟨a', rest'⟩, h', e⟩ := Option.map_eq_some_iff.mp h
      obtain ⟨rfl, rfl⟩ := Prod.mk.inj e
      obtain ⟨args, qs, rfl, rfl, rfl, hin⟩ := ih h'
      exact ⟨.lit n :: args, qs, rfl, rfl, rfl, hin⟩
    | char c =>
      rw [render_char, matchParen] at h
      by_cases h1 : c = '('
      · rw [if_pos h1] at h
        obtain ⟨⟨a', rest'⟩, h', e⟩ := Option.map_eq_some_iff.mp h
        obtain ⟨rfl, rfl⟩ := Prod.mk.inj e
        obtain ⟨args, qs, rfl, rfl, rfl, hin⟩ := ih h'
        refine ⟨.char c :: args, qs, rfl, rfl, rfl, ?_⟩
        rw [insideFrom, if_pos h1]
        exact hin
      rw [if_neg h1] at h
      by_cases h2 : c = ')'
      · rw [if_pos h2] at h
        split at h
        · rename_i hd
          obtain ⟨rfl, rfl⟩ := Prod.mk.inj (Option.some.inj h)
          exact ⟨[], ps, by rw [h2]; rfl, rfl, rfl, by rw [insideFrom]; exact decide_eq_true hd⟩
        · rename_i hd
          obtain ⟨⟨a', rest'⟩, h', e⟩ := Option.map_eq_some_iff.mp h
          obtain ⟨rfl, rfl⟩ := Prod.mk.inj e
          obtain ⟨args, qs, rfl, rfl, rfl, hin⟩ := ih h'
          refine ⟨.char c :: args, qs, rfl, rfl, rfl, ?_⟩
          rw [insideFrom, if_neg h1, if_pos h2, hin, Bool.and_true]
          exact decide_eq_true hd
      · rw [if_neg h2] at h
        obtain ⟨⟨a', rest'⟩, h', e⟩ := Option.map_eq_some_iff.mp h
        obtain ⟨rfl, rfl⟩ := Prod.mk.inj e
        obtain ⟨args, qs, rfl, rfl, rfl, hin⟩ := ih h'
        refine ⟨.char c :: args, qs, rfl, rfl, rfl, ?_⟩
        rw [insideFrom, if_neg h1, if_neg h2]
        exact hin

/-- **What a rewritten call is**: a name, white space, and parentheses that balance. -/
theorem findCall_hit {name : Text} (hname : name.all isWordChar = true) {rewrite : Text → Text}
    {k : Nat} {r : Text}
    (h : findCall name rewrite prev (render ps) = .hit k r) :
    ∃ w g args rest, ps = chars w ++ chars g ++ .char '(' :: args ++ .char ')' :: rest ∧
      w.map Char.toUpper = name ∧ (∀ c ∈ g, isSpace c = true) ∧ insideFrom 0 args = true ∧
      k = (render (chars w ++ chars g ++ .char '(' :: args ++ [.char ')'])).length ∧
      r = rewrite (render args) := by
  unfold findCall at h
  cases hc : callAt name prev (render ps) with
  | none => rw [hc] at h; cases h
  | some inner =>
    rw [hc] at h
    obtain ⟨w, g, qs, rfl, hw, hg, rfl⟩ := callAt_render hname hc
    dsimp only at h
    cases hm : matchParen 0 (render qs) with
    | none => rw [hm] at h; cases h
    | some m =>
      obtain ⟨a, rest⟩ := m
      rw [hm] at h
      obtain ⟨args, rest, rfl, rfl, rfl, hin⟩ := matchParen_render hm
      obtain ⟨rfl, rfl⟩ := Found.hit.inj h
      refine ⟨w, g, args, rest, by simp, hw, hg, hin, ?_, rfl⟩
      simp only [render_append, render_chars, render_char, length_append, length_cons,
        render_nil, length_nil]
      omega

/-! ## 3. Arguments -/

/-- `splitArgsFrom` on pieces. -/
def partsFrom : Nat → List Piece → List Piece → List (List Piece)
  | _, arg, [] => [arg]
  | depth, arg, .lit n :: ps => partsFrom depth (arg ++ [.lit n]) ps
  | depth, arg, .char ch :: ps =>
    if ch = '(' then partsFrom (depth + 1) (arg ++ [.char ch]) ps
    else if ch = ')' then
      if depth = 0 then [arg] else partsFrom (depth - 1) (arg ++ [.char ch]) ps
    else if ch = ',' ∧ depth = 0 then arg :: partsFrom 0 [] ps
    else partsFrom depth (arg ++ [.char ch]) ps

def parts (ps : List Piece) : List (List Piece) := partsFrom 0 [] ps

theorem splitArgsFrom_plain (h : ∀ c ∈ t, c ≠ '(' ∧ c ≠ ')' ∧ c ≠ ',') (arg : Text) :
    splitArgsFrom d arg (t ++ s) = splitArgsFrom d (arg ++ t) s := by
  induction t generalizing arg with
  | nil => rw [nil_append, append_nil]
  | cons c t ih =>
    obtain ⟨h1, h2, h3⟩ := h c mem_cons_self
    have h3' : ¬ (c = ',' ∧ d = 0) := fun h => h3 h.1
    rw [cons_append, splitArgsFrom, if_neg h1, if_neg h2, if_neg h3',
      ih (fun x hx => h x (mem_cons_of_mem _ hx)), append_assoc, singleton_append]

theorem splitArgsFrom_render (d : Nat) (arg ps : List Piece) :
    splitArgsFrom d (render arg) (render ps) = (partsFrom d arg ps).map render := by
  induction ps generalizing d arg with
  | nil => rfl
  | cons p ps ih =>
    cases p with
    | lit n =>
      have hlit : render arg ++ placeholder n = render (arg ++ [.lit n]) := by simp
      rw [render_lit, splitArgsFrom_plain fun c hc => placeholder_plain hc, hlit, ih]
      rfl
    | char c =>
      have hchar : render arg ++ [c] = render (arg ++ [.char c]) := by simp
      rw [render_char, splitArgsFrom, partsFrom, hchar]
      split
      · exact ih _ _
      · split
        · split
          · rfl
          · exact ih _ _
        · split
          · exact congrArg (render arg :: ·) (ih 0 [])
          · exact ih _ _

theorem splitArgs_render (ps : List Piece) : splitArgs (render ps) = (parts ps).map render :=
  splitArgsFrom_render 0 [] ps

/-- The arguments behind the first, each with its comma. -/
def behindCommas (qs : List (List Piece)) : List Piece := qs.flatMap (.char ',' :: ·)

theorem partsFrom_spec {arg : List Piece} (hin : insideFrom d ps = true)
    (harg : ∀ z, flatFrom 0 (arg ++ z) = flatFrom d z) :
    ∃ p qs, partsFrom d arg ps = p :: qs ∧ arg ++ ps = p ++ behindCommas qs ∧
      ∀ q ∈ p :: qs, flatFrom 0 q = true := by
  induction ps generalizing d arg with
  | nil =>
    refine ⟨arg, [], rfl, rfl, ?_⟩
    intro q hq
    rw [mem_singleton.mp hq]
    have := harg []
    rw [append_nil] at this
    exact this.trans hin
  | cons p ps ih =>
    -- the argument goes on, at this depth
    have hnext : ∀ k, insideFrom k ps = true → (∀ z, flatFrom d (p :: z) = flatFrom k z) →
        ∃ q qs, partsFrom k (arg ++ [p]) ps = q :: qs ∧ arg ++ p :: ps = q ++ behindCommas qs ∧
          ∀ x ∈ q :: qs, flatFrom 0 x = true := by
      intro k hk hp
      have hgoes : ∀ z, flatFrom 0 (arg ++ [p] ++ z) = flatFrom k z := fun z => by
        rw [append_assoc, harg]
        exact hp z
      obtain ⟨q, qs, e, e', hq⟩ := ih hk hgoes
      exact ⟨q, qs, e, by simpa using e', hq⟩
    cases p with
    | lit n => exact hnext d hin fun z => rfl
    | char c =>
      rw [insideFrom] at hin
      rw [partsFrom]
      split at hin
      · rename_i hc
        rw [if_pos hc]
        exact hnext _ hin fun z => by rw [hc, flatFrom_open]
      · rename_i h1
        rw [if_neg h1]
        split at hin
        · rename_i hc
          obtain ⟨hd, hin⟩ := Bool.and_eq_true_iff.mp hin
          have hd := of_decide_eq_true hd
          rw [if_pos hc, if_neg hd]
          obtain ⟨k, rfl⟩ := Nat.exists_eq_succ_of_ne_zero hd
          exact hnext _ hin fun z => by rw [hc]; exact flatFrom_close
        · rename_i h2
          rw [if_neg h2]
          split
          · -- a new argument
            rename_i hc
            obtain ⟨rfl, rfl⟩ := hc
            have hnew : ∀ z, flatFrom 0 ([] ++ z) = flatFrom 0 z := fun z => rfl
            obtain ⟨q, qs, e, e', hq⟩ := ih hin hnew
            refine ⟨arg, q :: qs, by rw [e], ?_, ?_⟩
            · rw [nil_append] at e'
              rw [e', behindCommas, behindCommas, flatMap_cons, cons_append]
            · refine forall_mem_cons.mpr ⟨?_, hq⟩
              have := harg []
              rw [append_nil] at this
              exact this.trans rfl
          · rename_i hc
            refine hnext _ hin fun z => ?_
            rw [flatFrom, if_neg h1, if_neg h2]
            split
            · rename_i h3
              have hd : decide (d ≠ 0) = true := decide_eq_true fun hd => hc ⟨h3, hd⟩
              rw [hd, Bool.true_and]
            · rfl

/-- **The arguments of a call.** -/
theorem parts_spec (h : insideFrom 0 ps = true) :
    ∃ p qs, parts ps = p :: qs ∧ ps = p ++ behindCommas qs ∧ ∀ q ∈ p :: qs, flatFrom 0 q = true :=
  partsFrom_spec h fun _ => rfl

/-! ## 4. White space around an argument -/

def trimmed (ps : List Piece) : List Piece := (ps.dropWhile Piece.space).rdropWhile Piece.space

theorem dropWhile_render (ps : List Piece) :
    (render ps).dropWhile isSpace = render (ps.dropWhile Piece.space) := by
  induction ps with
  | nil => rfl
  | cons p ps ih =>
    cases p with
    | lit n => rfl
    | char c =>
      rw [render_char, dropWhile_cons, dropWhile_cons]
      cases hc : isSpace c with
      | true =>
        have hp : Piece.space (.char c) = true := hc
        rw [if_pos rfl, if_pos hp]
        exact ih
      | false =>
        have hp : ¬ Piece.space (.char c) = true := by simp [Piece.space, hc]
        rw [if_neg hp]
        rfl

theorem rdropWhile_render (ps : List Piece) :
    (render ps).rdropWhile isSpace = render (ps.rdropWhile Piece.space) := by
  induction ps using List.reverseRecOn with
  | nil => rfl
  | append_singleton ps p ih =>
    cases p with
    | lit n =>
      have hlast : render (ps ++ [.lit n]) =
          (render ps ++ STR_PLACEHOLDER_OPEN ++ Nat.toDigits 10 n) ++ ['\x02'] := by
        simp [placeholder, STR_PLACEHOLDER_CLOSE]
      rw [rdropWhile_concat_neg _ _ _ Bool.false_ne_true, hlast,
        rdropWhile_concat_neg _ _ _ (by decide)]
    | char c =>
      rw [render_append, render_char, render_nil, rdropWhile_concat, rdropWhile_concat]
      cases hc : isSpace c with
      | true =>
        have hp : Piece.space (.char c) = true := hc
        rw [if_pos rfl, if_pos hp]
        exact ih
      | false =>
        have hp : ¬ Piece.space (.char c) = true := by simp [Piece.space, hc]
        rw [if_neg hp, render_append]
        rfl

theorem trim_render (ps : List Piece) : trim (render ps) = render (trimmed ps) := by
  rw [trim, trimStart, trimEnd, dropWhile_render, rdropWhile_render]
  rfl

theorem chars_of_spaces (h : ∀ p ∈ ps, Piece.space p = true) :
    ∃ g, ps = chars g ∧ ∀ c ∈ g, isSpace c = true := by
  induction ps with
  | nil => exact ⟨[], rfl, by simp⟩
  | cons p ps ih =>
    obtain ⟨hp, hps⟩ := forall_mem_cons.mp h
    obtain ⟨g, rfl, hg⟩ := ih hps
    cases p with
    | lit n => cases hp
    | char c => exact ⟨c :: g, rfl, forall_mem_cons.mpr ⟨hp, hg⟩⟩

theorem trimmed_split (ps : List Piece) : ∃ g h, ps = chars g ++ trimmed ps ++ chars h ∧
    (∀ c ∈ g, isSpace c = true) ∧ ∀ c ∈ h, isSpace c = true := by
  have hbegin : ∀ p ∈ ps.takeWhile Piece.space, Piece.space p = true := fun p hp =>
    mem_takeWhile_imp hp
  have hend : ∀ p ∈ (ps.dropWhile Piece.space).rtakeWhile Piece.space, Piece.space p = true := by
    intro p hp
    rw [List.rtakeWhile, mem_reverse] at hp
    exact mem_takeWhile_imp hp
  obtain ⟨g, eg, hg⟩ := chars_of_spaces hbegin
  obtain ⟨h, eh, hh⟩ := chars_of_spaces hend
  refine ⟨g, h, ?_, hg, hh⟩
  rw [append_assoc, trimmed, ← eh, rdropWhile_append_rtakeWhile, ← eg,
    takeWhile_append_dropWhile]

end Veesker.Shim
