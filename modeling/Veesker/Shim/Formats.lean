/-
  File:      Veesker/Shim/Formats.lean
  Subject:   DATE-FORMAT ARGUMENTS of a masked text, and rewrites that make no new ones.

  A literal is a format argument when it is all of the second and last argument of a call of
  TO_DATE or TO_CHAR (`FormatArgument`). Read backwards from the literal that is a matter of one
  automaton (`back`): white space, a comma, a text whose parentheses balance, an open parenthesis,
  a name.

  * `called_iff` -- the automaton accepts what stands in front of a format argument;
  * `Rewrites` -- what a rewrite must leave alone, and `Step`, one rewrite within a text;
  * **`steps_keep`** -- rewrites make no new format arguments, and take no other literals away.
-/
import Veesker.Shim.Pieces
import Veesker.Text.Runs

namespace Veesker.Shim

open List

/-! ## 1. Format arguments -/

/-- Parentheses that balance, with no comma outside them; `depth` more are open in front. -/
def flatFrom : Nat → List Piece → Bool
  | depth, [] => depth = 0
  | depth, .lit _ :: ps => flatFrom depth ps
  | depth, .char c :: ps =>
    if c = '(' then flatFrom (depth + 1) ps
    else if c = ')' then depth ≠ 0 && flatFrom (depth - 1) ps
    else if c = ',' then depth ≠ 0 && flatFrom depth ps
    else flatFrom depth ps

def Piece.space : Piece → Bool
  | .char c => isSpace c
  | .lit _ => false

/-- No word is going on at the end. -/
def Edge (ps : List Piece) : Prop := ∀ c, ps.getLast? = some (.char c) → isWordChar c = false

def dateFunctions : List Text := ["TO_DATE".toList, "TO_CHAR".toList]

/-- **The literal is all of the second and last argument of a call of a date function.** -/
def FormatArgument (ps : List Piece) (n : Nat) : Prop :=
  ∃ (before : List Piece) (name gap : Text) (arg : List Piece) (gap' gap'' : Text)
    (behind : List Piece),
    ps = before ++ chars name ++ chars gap ++ .char '(' :: arg ++ .char ',' :: chars gap' ++
      .lit n :: chars gap'' ++ .char ')' :: behind ∧
    Edge before ∧ name.map Char.toUpper ∈ dateFunctions ∧ flatFrom 0 arg = true ∧
    (∀ c ∈ gap, isSpace c = true) ∧ (∀ c ∈ gap', isSpace c = true) ∧ ∀ c ∈ gap'', isSpace c = true

/-! ## 2. Read backwards -/

/-- What is read, from the literal on backwards. -/
inductive Back where
  | spaces
  | depth (d : Nat)
  | gap
  /-- What is still to come of the name. -/
  | word (rest : Text)
  | called
  | dead
  deriving DecidableEq

/-- The letters of the date functions' names. -/
def nameLetters : Text := "TO_DATECHR".toList

def back : Piece → Back → Back
  | _, .called => .called
  | _, .dead => .dead
  | .lit _, .depth d => .depth d
  | .lit _, .word [] => .called
  | .lit _, _ => .dead
  | .char c, .spaces => if isSpace c then .spaces else if c = ',' then .depth 0 else .dead
  | .char c, .depth d =>
    if c = ')' then .depth (d + 1)
    else if c = '(' then match d with
      | 0 => .gap
      | d + 1 => .depth d
    else if c = ',' ∧ d = 0 then .dead
    else .depth d
  | .char c, .gap =>
    if isSpace c then .gap else if c.toUpper = 'E' then .word "TAD_OT".toList
    else if c.toUpper = 'R' then .word "AHC_OT".toList else .dead
  | .char c, .word [] => if isWordChar c then .dead else .called
  | .char c, .word (x :: xs) => if c.toUpper = x ∧ x ∈ nameLetters then .word xs else .dead

def run (ps : List Piece) (st : Back) : Back := ps.foldr back st

def Back.accepts : Back → Bool
  | .word [] => true
  | .called => true
  | _ => false

/-- The next piece that is no white space is a parenthesis that closes. -/
def Closes (ps : List Piece) : Prop := (ps.dropWhile Piece.space).head? = some (.char ')')

section Run

variable {ps qs : List Piece} {st : Back} {t : Text} {d e : Nat}

section

-- The equations of these definitions, made once for the proofs below.
attribute [local simp] flatFrom back Closes

end

@[simp] theorem run_nil : run [] st = st := rfl

@[simp] theorem run_cons {p : Piece} : run (p :: ps) st = back p (run ps st) := rfl

@[simp] theorem run_append : run (ps ++ qs) st = run ps (run qs st) := foldr_append

@[simp] theorem back_called {p : Piece} : back p .called = .called := by cases p <;> rfl

@[simp] theorem back_dead {p : Piece} : back p .dead = .dead := by cases p <;> rfl

@[simp] theorem run_called : run ps .called = .called := by
  induction ps with
  | nil => rfl
  | cons p ps ih => rw [run_cons, ih, back_called]

@[simp] theorem run_dead : run ps .dead = .dead := by
  induction ps with
  | nil => rfl
  | cons p ps ih => rw [run_cons, ih, back_dead]

theorem flatFrom_open : flatFrom d (.char '(' :: ps) = flatFrom (d + 1) ps := by simp [flatFrom]

theorem flatFrom_close : flatFrom (d + 1) (.char ')' :: ps) = flatFrom d ps := by simp [flatFrom]

theorem back_close : back (.char ')') (.depth d) = .depth (d + 1) := by simp [back]

theorem back_open : back (.char '(') (.depth (d + 1)) = .depth d := by simp [back]

theorem back_depth {c : Char} (h1 : c ≠ '(') (h2 : c ≠ ')') (h3 : c = ',' → d ≠ 0) :
    back (.char c) (.depth d) = .depth d := by
  have h4 : ¬ (c = ',' ∧ d = 0) := fun h => h3 h.1 h.2
  simp only [back, if_neg h1, if_neg h2, if_neg h4]

/-- **A text whose parentheses balance is passed over.** -/
theorem run_flat (h : flatFrom d ps = true) : run ps (.depth e) = .depth (e + d) := by
  induction ps generalizing d with
  | nil =>
    have hd : d = 0 := by simpa [flatFrom] using h
    rw [hd]
    rfl
  | cons p ps ih =>
    cases p with
    | lit n =>
      rw [run_cons, ih h]
      rfl
    | char c =>
      rw [flatFrom] at h
      split at h
      · rename_i hc
        rw [run_cons, ih h, hc]
        exact back_open
      · rename_i h1
        split at h
        · rename_i hc
          obtain ⟨hd, h⟩ := Bool.and_eq_true_iff.mp h
          obtain ⟨k, rfl⟩ := Nat.exists_eq_succ_of_ne_zero (of_decide_eq_true hd)
          rw [run_cons, ih h, hc]
          exact back_close
        · rename_i h2
          split at h
          · rename_i hc
            obtain ⟨hd, h⟩ := Bool.and_eq_true_iff.mp h
            rw [run_cons, ih h]
            have hd := of_decide_eq_true hd
            exact back_depth h1 h2 fun _ => by omega
          · rename_i h3
            rw [run_cons, ih h]
            exact back_depth h1 h2 fun h => absurd h h3

/-- Behind an argument that balances there is no comma of its own. -/
theorem not_flat_comma (h : flatFrom d ps = true) (he : e ≤ d) :
    flatFrom e (ps ++ .char ',' :: qs) = false := by
  induction ps generalizing d e with
  | nil =>
    have hd : d = 0 := by simpa [flatFrom] using h
    obtain rfl : e = 0 := by omega
    rfl
  | cons p ps ih =>
    cases p with
    | lit n => exact ih h he
    | char c =>
      rw [flatFrom] at h
      rw [cons_append, flatFrom]
      split at h
      · rename_i hc
        rw [if_pos hc]
        exact ih h (by omega)
      · rename_i h1
        rw [if_neg h1]
        split at h
        · rename_i hc
          obtain ⟨hd, h⟩ := Bool.and_eq_true_iff.mp h
          rw [if_pos hc]
          cases e with
          | zero => rfl
          | succ e =>
            rw [ih h (by omega)]
            exact Bool.and_false _
        · rename_i h2
          rw [if_neg h2]
          split at h
          · rename_i hc
            obtain ⟨hd, h⟩ := Bool.and_eq_true_iff.mp h
            rw [if_pos hc, ih h he]
            exact Bool.and_false _
          · rename_i h3
            rw [if_neg h3]
            exact ih h he

/-- What balances is passed at every depth. -/
theorem flatFrom_append (h : flatFrom d ps = true) :
    flatFrom (d + e) (ps ++ qs) = flatFrom e qs := by
  induction ps generalizing d with
  | nil =>
    have hd : d = 0 := by simpa [flatFrom] using h
    rw [hd, Nat.zero_add]
    rfl
  | cons p ps ih =>
    cases p with
    | lit n => exact ih h
    | char c =>
      rw [flatFrom] at h
      rw [cons_append, flatFrom]
      split at h
      · rename_i hc
        rw [if_pos hc, ← ih h]
        congr 1
        omega
      · rename_i h1
        rw [if_neg h1]
        split at h
        · rename_i hc
          obtain ⟨hd, h⟩ := Bool.and_eq_true_iff.mp h
          obtain ⟨k, rfl⟩ := Nat.exists_eq_succ_of_ne_zero (of_decide_eq_true hd)
          have hk : decide (k.succ + e ≠ 0) = true := decide_eq_true (by omega)
          rw [if_pos hc, hk, Bool.true_and, ← ih h]
          congr 1
          omega
        · rename_i h2
          rw [if_neg h2]
          split at h
          · rename_i hc
            obtain ⟨hd, h⟩ := Bool.and_eq_true_iff.mp h
            have hd := of_decide_eq_true hd
            have hk : decide (d + e ≠ 0) = true := decide_eq_true (by omega)
            rw [if_pos hc, hk, Bool.true_and, ih h]
          · rename_i h3
            rw [if_neg h3]
            exact ih h

theorem run_spaces (h : ∀ c ∈ t, isSpace c = true) : run (chars t) .spaces = .spaces := by
  induction t with
  | nil => rfl
  | cons c t ih =>
    rw [chars_cons, run_cons, ih fun d hd => h d (mem_cons_of_mem _ hd)]
    simp [back, h c mem_cons_self]

theorem run_gap (h : ∀ c ∈ t, isSpace c = true) : run (chars t) .gap = .gap := by
  induction t with
  | nil => rfl
  | cons c t ih =>
    rw [chars_cons, run_cons, ih fun d hd => h d (mem_cons_of_mem _ hd)]
    simp [back, h c mem_cons_self]

end Run

/-! ## 3. What the automaton accepts -/

/-- What stands in front of a literal when the automaton is in this state. -/
inductive Behind : Back → List Piece → Prop where
  | spaces {g : Text} (hg : ∀ c ∈ g, isSpace c = true) : Behind .spaces (chars g)
  | depth {d : Nat} {a : List Piece} {g : Text} (harg : flatFrom d a = true)
      (hg : ∀ c ∈ g, isSpace c = true) : Behind (.depth d) (a ++ .char ',' :: chars g)
  | gap {k : Text} {a : List Piece} {g : Text} (hk : ∀ c ∈ k, isSpace c = true)
      (harg : flatFrom 0 a = true) (hg : ∀ c ∈ g, isSpace c = true) :
      Behind .gap (chars k ++ .char '(' :: a ++ .char ',' :: chars g)
  | word {rest w k : Text} {a : List Piece} {g : Text}
      (hw : rest.reverse ++ w.map Char.toUpper ∈ dateFunctions)
      (hk : ∀ c ∈ k, isSpace c = true) (harg : flatFrom 0 a = true)
      (hg : ∀ c ∈ g, isSpace c = true) :
      Behind (.word rest) (chars w ++ chars k ++ .char '(' :: a ++ .char ',' :: chars g)
  | called {b : List Piece} {w k : Text} {a : List Piece} {g : Text} (hne : b ≠ [])
      (hb : Edge b) (hw : w.map Char.toUpper ∈ dateFunctions)
      (hk : ∀ c ∈ k, isSpace c = true) (harg : flatFrom 0 a = true)
      (hg : ∀ c ∈ g, isSpace c = true) : Behind .called
        (b ++ chars w ++ chars k ++ .char '(' :: a ++ .char ',' :: chars g)
  | dead {ps : List Piece} : Behind .dead ps

theorem Edge.cons {ps : List Piece} (h : Edge ps) (hne : ps ≠ []) (p : Piece) : Edge (p :: ps) := by
  intro c hc
  cases ps with
  | nil => exact (hne rfl).elim
  | cons q ps =>
    rw [List.getLast?_cons_cons] at hc
    exact h c hc

theorem behind_back {p : Piece} {ps : List Piece} {st : Back} (h : Behind st ps) :
    Behind (back p st) (p :: ps) := by
  cases h with
  | dead =>
    rw [back_dead]
    exact .dead
  | called hne hb hw hk harg hg =>
    rw [back_called]
    exact .called (cons_ne_nil _ _) (hb.cons hne p) hw hk harg hg
  | @spaces g hg =>
    cases p with
    | lit n => exact .dead
    | char c =>
      rw [back]
      split
      · rename_i hc
        exact .spaces (g := c :: g) (forall_mem_cons.mpr ⟨hc, hg⟩)
      · split
        · rename_i hc
          rw [hc]
          exact .depth (a := []) rfl hg
        · exact .dead
  | @depth d arg g harg hg =>
    cases p with
    | lit n => exact .depth (a := .lit n :: arg) harg hg
    | char c =>
      by_cases h2 : c = ')'
      · rw [h2, back_close]
        exact .depth (a := .char ')' :: arg) (flatFrom_close.trans harg) hg
      by_cases h1 : c = '('
      · rw [h1]
        cases d with
        | zero => exact .gap (k := []) (by simp) harg hg
        | succ d =>
          rw [back_open]
          exact .depth (a := .char '(' :: arg) (flatFrom_open.trans harg) hg
      by_cases h3 : c = ',' ∧ d = 0
      · rw [h3.1, h3.2]
        exact .dead
      · rw [back_depth h1 h2 fun hc hd => h3 ⟨hc, hd⟩]
        refine .depth (a := .char c :: arg) ?_ hg
        rw [flatFrom, if_neg h1, if_neg h2]
        split
        · rename_i hc
          rw [harg, Bool.and_true]
          exact decide_eq_true fun hd => h3 ⟨hc, hd⟩
        · exact harg
  | @gap k arg g hk harg hg =>
    cases p with
    | lit n => exact .dead
    | char c =>
      rw [back]
      split
      · rename_i hc
        exact .gap (k := c :: k) (forall_mem_cons.mpr ⟨hc, hk⟩) harg hg
      · split
        · rename_i hc
          exact .word (w := [c]) (by rw [map_singleton, hc]; decide) hk harg hg
        · split
          · rename_i hc
            exact .word (w := [c]) (by rw [map_singleton, hc]; decide) hk harg hg
          · exact .dead
  | @word rest w k arg g hw hk harg hg =>
    cases rest with
    | nil =>
      cases p with
      | lit n =>
        exact .called (b := [.lit n]) (cons_ne_nil _ _) (fun c hc => nomatch hc) hw hk
          harg hg
      | char c =>
        simp only [back]
        split
        · exact .dead
        · rename_i hc
          refine .called (b := [.char c]) (cons_ne_nil _ _) ?_ hw hk harg hg
          intro d hd
          obtain rfl := Piece.char.inj (Option.some.inj hd)
          simpa using hc
    | cons x xs =>
      cases p with
      | lit n => exact .dead
      | char c =>
        rw [back]
        split
        · rename_i hc
          refine .word (w := c :: w) ?_ hk harg hg
          rw [map_cons, hc.1]
          rw [reverse_cons, append_assoc] at hw
          exact hw
        · exact .dead

theorem behind_run (ps : List Piece) : Behind (run ps .spaces) ps := by
  induction ps with
  | nil => exact .spaces (g := []) (by simp)
  | cons p ps ih => exact behind_back ih

/-- A word reads the same in capitals. -/
theorem back_toUpper {c : Char} (h : isWordChar c = true) (st : Back) :
    back (.char c.toUpper) st = back (.char c) st := by
  have hu : isWordChar c.toUpper = true := (Pattern.isWordChar_toUpper c).trans h
  have hne : ∀ b d : Char, isWordChar b = true → isWordChar d = false → b ≠ d := by
    intro b d hb hd e
    rw [e, hd] at hb
    cases hb
  have hspace : isSpace c = false := by
    rw [Bool.eq_false_iff]
    intro hs
    rw [isWordChar_of_space hs] at h
    cases h
  have hspace' : isSpace c.toUpper = false := (isSpace_toUpper c).trans hspace
  cases st with
  | spaces => simp [back, hspace, hspace', hne c ',' h rfl, hne _ ',' hu rfl]
  | depth d =>
    rw [back_depth (hne c '(' h rfl) (hne c ')' h rfl) fun e => absurd e (hne c ',' h rfl),
      back_depth (hne _ '(' hu rfl) (hne _ ')' hu rfl) fun e => absurd e (hne _ ',' hu rfl)]
  | gap => simp only [back, hspace, hspace', toUpper_toUpper]
  | word rest =>
    cases rest with
    | nil => simp only [back, h, hu]
    | cons x xs => simp only [back, toUpper_toUpper]
  | called => rfl
  | dead => rfl

theorem run_toUpper {w : Text} (h : ∀ c ∈ w, isWordChar c = true) (st : Back) :
    run (chars (w.map Char.toUpper)) st = run (chars w) st := by
  induction w with
  | nil => rfl
  | cons c w ih =>
    rw [map_cons, chars_cons, chars_cons, run_cons, run_cons,
      ih fun d hd => h d (mem_cons_of_mem _ hd)]
    exact back_toUpper (h c mem_cons_self) _

/-- What reads as a word in capitals is one. -/
theorem word_of_capitals {w v : Text} (h : w.map Char.toUpper = v)
    (hv : ∀ c ∈ v, isWordChar c = true) : ∀ c ∈ w, isWordChar c = true := by
  intro c hc
  rw [← Pattern.isWordChar_toUpper]
  exact hv _ (h ▸ mem_map_of_mem hc)

theorem run_name {name : Text} (h : name.map Char.toUpper ∈ dateFunctions) :
    run (chars name) .gap = .word [] := by
  have hword : ∀ v ∈ dateFunctions, v.all isWordChar = true ∧
      run (chars v) .gap = .word [] := by
    intro v hv
    obtain rfl | hv := mem_cons.mp hv
    · exact ⟨rfl, rfl⟩
    · obtain rfl := mem_singleton.mp hv
      exact ⟨rfl, rfl⟩
  obtain ⟨hw, hrun⟩ := hword _ h
  rw [← run_toUpper (word_of_capitals rfl (all_eq_true.mp hw))]
  exact hrun

theorem accepts_edge {u : List Piece} (h : Edge u) : (run u (.word [])).accepts = true := by
  obtain rfl | ⟨u, p, rfl⟩ := eq_nil_or_concat u
  · rfl
  · rw [concat_eq_append, run_append]
    have hp : run [p] (.word []) = .called := by
      cases p with
      | lit n => rfl
      | char c =>
        have hc := h c (by rw [concat_eq_append]; simp)
        simp [back, hc]
    rw [hp, run_called]
    rfl

/-! ## 4. The two readings of a format argument -/

theorem mem_chars_space {g : Text} (hg : ∀ c ∈ g, isSpace c = true) :
    ∀ p ∈ chars g, p.space = true := by
  intro p hp
  obtain ⟨c, hc, rfl⟩ := mem_map.mp hp
  exact hg c hc

theorem closes_of_spaces {x y : List Piece} (hx : ∀ p ∈ x, p.space = true) :
    Closes (x ++ y) ↔ Closes y := by
  unfold Closes
  rw [dropWhile_append_of_pos hx]

theorem closes_of_text {x y z : List Piece} {p : Piece} (hp : p ∈ x) (hs : p.space = false) :
    Closes (x ++ y) ↔ Closes (x ++ z) := by
  induction x with
  | nil => cases hp
  | cons q x ih =>
    unfold Closes at ih ⊢
    rw [cons_append, cons_append]
    cases hq : q.space with
    | true =>
      rw [dropWhile_cons_of_pos hq, dropWhile_cons_of_pos hq]
      obtain rfl | hp := mem_cons.mp hp
      · rw [hs] at hq
        cases hq
      · exact ih hp
    | false =>
      rw [dropWhile_cons_of_neg (by simp [hq]), dropWhile_cons_of_neg (by simp [hq])]
      rfl

theorem closes_iff {v : List Piece} : Closes v ↔ ∃ g behind, v = chars g ++ .char ')' :: behind ∧
    ∀ c ∈ g, isSpace c = true := by
  constructor
  · intro h
    induction v with
    | nil => cases h
    | cons p v ih =>
      cases hp : p.space with
      | false =>
        unfold Closes at h
        rw [dropWhile_cons_of_neg (by simp [hp])] at h
        cases h
        exact ⟨[], v, rfl, by simp⟩
      | true =>
        cases p with
        | lit n => cases hp
        | char c =>
          have hv : Closes v := (closes_of_spaces (x := [.char c]) (by simpa using hp)).mp h
          obtain ⟨g, behind, rfl, hg⟩ := ih hv
          exact ⟨c :: g, behind, rfl, forall_mem_cons.mpr ⟨hp, hg⟩⟩
  · intro h
    obtain ⟨g, behind, rfl, hg⟩ := h
    rw [closes_of_spaces (mem_chars_space hg)]
    rfl

/-- The literal stands behind what the automaton accepts, and in front of a parenthesis. -/
def IsFormat (ps : List Piece) (n : Nat) : Prop :=
  ∃ u v, ps = u ++ .lit n :: v ∧ (run u .spaces).accepts = true ∧ Closes v

theorem accepts_call {before arg : List Piece} {name k g : Text} (hb : Edge before)
    (hname : name.map Char.toUpper ∈ dateFunctions) (harg : flatFrom 0 arg = true)
    (hk : ∀ c ∈ k, isSpace c = true) (hg : ∀ c ∈ g, isSpace c = true) :
    (run (before ++ chars name ++ chars k ++ .char '(' :: arg ++ .char ',' :: chars g)
      .spaces).accepts = true := by
  have hrun : run (.char '(' :: arg ++ .char ',' :: chars g) .spaces = .gap := by
    have hcomma : back (.char ',') .spaces = .depth 0 := rfl
    rw [cons_append, run_cons, run_append, run_cons, run_spaces hg, hcomma, run_flat harg]
    rfl
  rw [append_assoc, run_append, hrun, run_append, run_append, run_gap hk, run_name hname]
  exact accepts_edge hb

/-- **A format argument, read forwards and backwards.** -/
theorem formatArgument_iff {ps : List Piece} {n : Nat} : FormatArgument ps n ↔ IsFormat ps n := by
  constructor
  · intro h
    obtain ⟨before, name, k, arg, g, g', behind, rfl, hb, hname, harg, hk, hg, hg'⟩ := h
    refine ⟨_, chars g' ++ .char ')' :: behind, ?_, accepts_call hb hname harg hk hg,
      closes_iff.mpr ⟨g', behind, rfl, hg'⟩⟩
    simp only [append_assoc, cons_append]
  · intro h
    obtain ⟨u, v, rfl, hu, hv⟩ := h
    obtain ⟨g', behind, rfl, hg'⟩ := closes_iff.mp hv
    have hbehind := behind_run u
    cases hst : run u .spaces with
    | spaces => rw [hst] at hu; cases hu
    | depth d => rw [hst] at hu; cases hu
    | gap => rw [hst] at hu; cases hu
    | dead => rw [hst] at hu; cases hu
    | word rest =>
      rw [hst] at hu hbehind
      cases rest with
      | cons x xs => cases hu
      | nil =>
        cases hbehind with
        | word hw hk harg hg =>
          have hedge : Edge [] := nofun
          refine ⟨[], _, _, _, _, g', behind, ?_, hedge, hw, harg, hk, hg, hg'⟩
          simp only [append_assoc, cons_append, nil_append]
    | called =>
      rw [hst] at hbehind
      cases hbehind with
      | called hne hb hw hk harg hg =>
        refine ⟨_, _, _, _, _, g', behind, ?_, hb, hw, harg, hk, hg, hg'⟩
        simp only [append_assoc, cons_append]

/-! ## 5. Rewrites -/

/-- No placeholder goes on behind an edge. -/
theorem clean_edge {u ps : List Piece} {c : Char} (hu : Edge u) (hu' : Clean u)
    (hps : Clean (.char c :: ps)) (hc : c ≠ 'V') : Clean (u ++ .char c :: ps) := by
  refine clean_append hu' hps fun t₁ t₂ h₁ h₂ ht hi hi' => ?_
  obtain ⟨w, e, hw⟩ := ht.word
  obtain ⟨d, t₂, rfl⟩ := exists_cons_of_ne_nil h₂
  obtain ⟨v, e'⟩ := hi'
  obtain rfl := Piece.char.inj (List.cons.inj e').1
  match t₁ with
  | [] => exact h₁ rfl
  | [a] => exact hc (List.cons.inj (List.cons.inj e).2).1
  | a :: b :: t₁ =>
    obtain ⟨t, x, ex⟩ := (eq_nil_or_concat (b :: t₁)).resolve_left (cons_ne_nil _ _)
    rw [concat_eq_append] at ex
    have hx : x ∈ b :: t₁ := by rw [ex]; simp
    have hword : isWordChar x = true := by
      have ht' : Fake ([a] ++ (b :: t₁ ++ d :: t₂)) := ht
      obtain h | rfl := ht'.of_mem_behind
        (cons_ne_nil _ _) (mem_append_left _ hx)
      · exact h
      · obtain h | h := ht.of_mem_front h₂ (mem_cons_of_mem a hx)
        · exact absurd h (by decide)
        · exact absurd h (by decide)
    obtain ⟨y, ey⟩ := hi
    have hlast : u.getLast? = some (.char x) := by
      rw [← ey, ex, ← cons_append, chars_append, ← append_assoc]
      exact List.getLast?_concat
    rw [hu x hlast] at hword
    cases hword

/-- Every list of such numbers that are not `F` stays, in its order. -/
def Keeps (F : Nat → Prop) (ns ns' : List Nat) : Prop :=
  ∀ ms : List Nat, ms.Sublist ns → (∀ n ∈ ms, ¬ F n) → ms.Sublist ns'

theorem Keeps.of_sublist {F : Nat → Prop} {ns ns' : List Nat} (h : ns.Sublist ns') :
    Keeps F ns ns' := fun _ hms _ => hms.trans h

theorem Keeps.trans {F : Nat → Prop} {a b c : List Nat} (h : Keeps F a b) (h' : Keeps F b c) :
    Keeps F a c := fun ms hms hF => h' ms (h ms hms hF) hF

theorem Keeps.append {F : Nat → Prop} {a b c d : List Nat} (h : Keeps F a b) (h' : Keeps F c d) :
    Keeps F (a ++ c) (b ++ d) := by
  intro ms hms hF
  obtain ⟨x, y, rfl, hx, hy⟩ := sublist_append_iff.mp hms
  exact (h x hx fun n hn => hF n (mem_append_left _ hn)).append
    (h' y hy fun n hn => hF n (mem_append_right _ hn))

/-- **What a rewrite leaves alone**: it shows the automaton nothing new, from whatever side; a
    literal inside it is no more a format argument than before; it takes none away that is none;
    and no characters read as a placeholder that did not before. -/
structure Rewrites (R R' : List Piece) : Prop where
  run : ∀ st, Shim.run R' st = .dead ∨ Shim.run R' st = Shim.run R st
  closes : ∀ v, ¬ Closes (R' ++ v)
  inside : ∀ r₁ n r₂ v, R' = r₁ ++ .lit n :: r₂ → Closes (r₂ ++ v) →
    ∃ s₁ s₂, R = s₁ ++ .lit n :: s₂ ∧ Closes (s₂ ++ v) ∧ ∀ u,
      (Shim.run u (Shim.run r₁ .spaces)).accepts = true →
        (Shim.run u (Shim.run s₁ .spaces)).accepts = true
  keeps : ∀ u v, Edge u → ∀ F, (∀ n, IsFormat (u ++ R ++ v) n → F n) → Keeps F (refs R) (refs R')
  clean : ∀ u v, Edge u → Clean (u ++ R ++ v) → Clean (u ++ R' ++ v)

def Step (ps ps' : List Piece) : Prop :=
  ∃ u R R' v, ps = u ++ R ++ v ∧ ps' = u ++ R' ++ v ∧ Edge u ∧ Rewrites R R'

abbrev Steps : List Piece → List Piece → Prop := Relation.ReflTransGen Step

/-- Where an element of two lists in a row stands. -/
theorem append_eq_middle {α : Type} {a b p q : List α} {x : α} (h : a ++ b = p ++ x :: q) :
    (∃ r, a = p ++ x :: r ∧ q = r ++ b) ∨ ∃ r, p = a ++ r ∧ b = r ++ x :: q := by
  obtain ⟨r, h1, h2⟩ | ⟨r, h1, h2⟩ := append_eq_append_iff.mp h
  · exact .inr ⟨r, h1, h2⟩
  · cases r with
    | nil => exact .inr ⟨[], by simpa using h1.symm, by simpa using h2.symm⟩
    | cons y r =>
      obtain ⟨rfl, rfl⟩ := List.cons.inj h2
      exact .inl ⟨r, h1, rfl⟩

/-- **A rewrite makes no new format arguments.** -/
theorem Step.isFormat {ps ps' : List Piece} (h : Step ps ps') {n : Nat} (hn : IsFormat ps' n) :
    IsFormat ps n := by
  obtain ⟨u, R, R', v, rfl, rfl, -, hR⟩ := h
  obtain ⟨p, q, e, hp, hq⟩ := hn
  rw [append_assoc] at e
  obtain ⟨r, rfl, rfl⟩ | ⟨r, rfl, e'⟩ := append_eq_middle e
  · -- in front of it
    refine ⟨p, r ++ (R ++ v), by simp, hp, ?_⟩
    by_cases hr : ∀ p ∈ r, p.space = true
    · rw [closes_of_spaces hr] at hq
      exact (hR.closes v hq).elim
    · push Not at hr
      obtain ⟨x, hx, hs⟩ := hr
      exact (closes_of_text hx (by simpa using hs)).mp hq
  · obtain ⟨r', rfl, rfl⟩ | ⟨r', rfl, rfl⟩ := append_eq_middle e'
    · -- inside it
      obtain ⟨s₁, s₂, rfl, hs, hacc⟩ := hR.inside r n r' v rfl hq
      refine ⟨u ++ s₁, s₂ ++ v, by simp, ?_, hs⟩
      rw [run_append] at hp ⊢
      exact hacc u hp
    · -- behind it
      refine ⟨u ++ (R ++ r'), q, by simp, ?_, hq⟩
      rw [run_append, run_append] at hp ⊢
      obtain hd | hd := hR.run (Shim.run r' .spaces)
      · rw [hd, run_dead] at hp
        cases hp
      · rw [← hd]
        exact hp

/-- **Rewrites take no literal away that was no format argument to begin with.** -/
theorem steps_keep {ps ps' : List Piece} (h : Steps ps ps') :
    (∀ n, IsFormat ps' n → IsFormat ps n) ∧ Keeps (IsFormat ps) (refs ps) (refs ps') := by
  induction h with
  | refl => exact ⟨fun n hn => hn, .of_sublist (List.Sublist.refl _)⟩
  | tail _ hs ih =>
    refine ⟨fun n hn => ih.1 n (hs.isFormat hn), ih.2.trans ?_⟩
    obtain ⟨u, R, R', v, rfl, rfl, hu, hR⟩ := hs
    simp only [refs_append]
    exact ((Keeps.of_sublist (List.Sublist.refl _)).append (hR.keeps u v hu _ ih.1)).append
      (.of_sublist (List.Sublist.refl _))

/-- **Rewrites make no placeholders.** -/
theorem steps_clean {ps ps' : List Piece} (h : Steps ps ps') (hps : Clean ps) : Clean ps' := by
  induction h with
  | refl => exact hps
  | tail _ hs ih =>
    obtain ⟨u, R, R', v, rfl, rfl, hu, hR⟩ := hs
    exact hR.clean u v hu ih

end Veesker.Shim
