/-
  File:      Veesker/Shim/Rewrites.lean
  Subject:   WHAT THE TEN REWRITES PUT IN PLACE of some pieces of a masked text.

  * `rewrites_words` -- words for words;
  * `rewrites_unchanged` -- a call that stays a call;
  * `rewrites_build` -- **a call's arguments between constant texts** (NVL2, DECODE, the dates);
  * `Holds` -- an argument stands in the call behind an edge.
-/
import Veesker.Shim.Calls

namespace Veesker.Shim

open List

variable {ps qs R : List Piece} {t : Text} {d e : Nat} {c : Char}

/-! ## 1. Where the automaton stops -/

/-- Nothing is read on through these pieces but an argument, or the edge of a name. -/
structure Stops (ps : List Piece) : Prop where
  spaces : run ps .spaces = .dead
  gap : run ps .gap = .dead
  word : ∀ x xs, run ps (.word (x :: xs)) = .dead

theorem Stops.behind (h : Stops ps) (qs : List Piece) : Stops (qs ++ ps) := by
  refine ⟨?_, ?_, fun x xs => ?_⟩
  · rw [run_append, h.spaces, run_dead]
  · rw [run_append, h.gap, run_dead]
  · rw [run_append, h.word, run_dead]

/-- No name ends in this character. -/
theorem back_word (h : c.toUpper ∉ nameLetters) (x : Char) (xs : Text) :
    back (.char c) (.word (x :: xs)) = .dead := by
  rw [back, if_neg]
  rintro ⟨rfl, hx⟩
  exact h hx

theorem stops_text {k : Text} {c : Char} (hs : run (chars (k ++ [c])) .spaces = .dead)
    (hg : run (chars (k ++ [c])) .gap = .dead) (hc : c.toUpper ∉ nameLetters) :
    Stops (chars (k ++ [c])) := by
  refine ⟨hs, hg, fun x xs => ?_⟩
  rw [chars_append, run_append, chars_cons, chars_nil, run_cons, run_nil, back_word hc, run_dead]

theorem space_of_word (hw : isWordChar c = true) : isSpace c = false := by
  rw [Bool.eq_false_iff]
  intro hs
  rw [isWordChar_of_space hs] at hw
  cases hw

theorem stops_word {c : Char} (hw : isWordChar c = true) (hc : c.toUpper ∉ nameLetters) :
    Stops [.char c] := by
  have hne : ∀ b, isWordChar b = false → c ≠ b := by
    intro b hb e
    rw [e, hb] at hw
    cases hw
  have hspace := space_of_word hw
  have hE : c.toUpper ≠ 'E' := fun h => hc (h ▸ by decide)
  have hR : c.toUpper ≠ 'R' := fun h => hc (h ▸ by decide)
  refine ⟨?_, ?_, back_word hc⟩
  · simp [back, hspace, hne ',' rfl]
  · simp [back, hspace, hE, hR]

theorem flat_text (h : ∀ c ∈ t, c ≠ '(' ∧ c ≠ ')' ∧ (c = ',' → d ≠ 0)) (z : List Piece) :
    flatFrom d (chars t ++ z) = flatFrom d z := by
  induction t with
  | nil => rfl
  | cons c t ih =>
    obtain ⟨h1, h2, h3⟩ := h c mem_cons_self
    rw [chars_cons, cons_append, flatFrom, if_neg h1, if_neg h2,
      ih fun x hx => h x (mem_cons_of_mem _ hx)]
    split
    · rename_i hc
      rw [decide_eq_true (h3 hc), Bool.true_and]
    · rfl

theorem plain_word (h : isWordChar c = true) : c ≠ '(' ∧ c ≠ ')' ∧ (c = ',' → d ≠ 0) := by
  refine ⟨?_, ?_, ?_⟩
  · rintro rfl
    exact absurd h (by decide)
  · rintro rfl
    exact absurd h (by decide)
  · rintro rfl
    exact absurd h (by decide)

theorem plain_space (h : isSpace c = true) : c ≠ '(' ∧ c ≠ ')' ∧ (c = ',' → d ≠ 0) := by
  refine ⟨?_, ?_, ?_⟩
  · rintro rfl
    exact absurd h (by decide)
  · rintro rfl
    exact absurd h (by decide)
  · rintro rfl
    exact absurd h (by decide)

/-- **When a rewrite shows the automaton nothing new.** -/
theorem run_stops {R R' : List Piece} (hR : flatFrom 0 R = true) (hR' : flatFrom 0 R' = true)
    (hs : Stops R') (hw : run R' (.word []) = .dead ∨ run R' (.word []) = run R (.word []))
    (st : Back) : run R' st = .dead ∨ run R' st = run R st := by
  cases st with
  | spaces => exact .inl hs.spaces
  | depth d => exact .inr ((run_flat hR').trans (run_flat hR).symm)
  | gap => exact .inl hs.gap
  | word rest =>
    cases rest with
    | nil => exact hw
    | cons x xs => exact .inl (hs.word x xs)
  | called => exact .inr (by rw [run_called, run_called])
  | dead => exact .inl run_dead

theorem not_closes (hs : isSpace c = false) (hc : c ≠ ')') : ¬ Closes (.char c :: ps) := by
  unfold Closes
  rw [dropWhile_cons_of_neg (by simp [Piece.space, hs])]
  intro h
  exact hc (Piece.char.inj (Option.some.inj h))

/-- **When a rewrite makes no placeholder**: it begins with a character that none goes on with, and
    none begins in it and goes on behind it. -/
theorem clean_replace {u R' v : List Piece} (hu : Edge u) (hu' : Clean u) (hR' : Clean (R' ++ v))
    (h : ∃ c r, R' = .char c :: r ∧ c ≠ 'V') : Clean (u ++ R' ++ v) := by
  obtain ⟨c, r, rfl, hc⟩ := h
  rw [append_assoc]
  exact clean_edge hu hu' hR' hc

/-! ## 2. Words -/

theorem no_lit_of_chars {r₁ r₂ : List Piece} {n : Nat} (h : chars t = r₁ ++ .lit n :: r₂) : False := by
  have hmem : Piece.lit n ∈ chars t := h ▸ mem_append_right _ mem_cons_self
  obtain ⟨c, -, e⟩ := mem_map.mp hmem
  cases e

/-- **Words for words.** -/
theorem rewrites_words {w w' : Text} {x y : Char} (hw : flatFrom 0 (chars w) = true)
    (hw' : flatFrom 0 (chars (x :: w' ++ [y])) = true) (hclean : '\x01' ∉ x :: w' ++ [y])
    (hx : isSpace x = false) (hx' : x ≠ ')' ∧ x ≠ 'V') (hy : isWordChar y = true)
    (hy' : y.toUpper ∉ nameLetters) : Rewrites (chars w) (chars (x :: w' ++ [y])) where
  run := by
    have hstops : Stops (chars (x :: w' ++ [y])) := by
      rw [chars_append]
      exact (stops_word hy hy').behind _
    refine run_stops hw hw' hstops (.inl ?_)
    rw [chars_append, run_append]
    have hlast : Shim.run (chars [y]) (.word []) = .dead := by
      simp [back, hy]
    rw [hlast, run_dead]
  closes v := not_closes hx hx'.1
  inside r₁ n r₂ v h _ := (no_lit_of_chars h).elim
  keeps u v _ F _ := by
    rw [refs_chars, refs_chars]
    exact .of_sublist (List.Sublist.refl _)
  clean u v hu h := clean_replace hu h.left.left (clean_text hclean h.right) ⟨x, _, rfl, hx'.2⟩

/-! ## 3. Calls -/

/-- What an open parenthesis leaves the automaton in. -/
inductive Opened : Back → Prop where
  | gap : Opened .gap
  | depth (d : Nat) : Opened (.depth d)
  | called : Opened .called
  | dead : Opened .dead

theorem opened (st : Back) : Opened (back (.char '(') st) := by
  cases st with
  | spaces => exact .dead
  | gap => exact .dead
  | depth d =>
    cases d with
    | zero => exact .gap
    | succ d =>
      rw [back_open]
      exact .depth d
  | word rest =>
    cases rest with
    | nil => exact .called
    | cons x xs =>
      rw [back_word (by decide)]
      exact .dead
  | called => exact .called
  | dead => exact .dead

/-- A name in front of a parenthesis reads as it is written in capitals. -/
theorem run_head {w g name : Text} (hw : w.map Char.toUpper = name)
    (hname : name.all isWordChar = true) (hg : ∀ c ∈ g, isSpace c = true) {st : Back}
    (h : Opened st) : run (chars w ++ chars g) st = run (chars name) st := by
  have hspaces : run (chars g) st = st := by
    cases h with
    | gap => exact run_gap hg
    | depth d =>
      have hflat := flat_text (d := 0) (fun c hc => plain_space (hg c hc)) []
      rw [append_nil] at hflat
      exact run_flat hflat
    | called => exact run_called
    | dead => exact run_dead
  rw [run_append, hspaces, ← hw, run_toUpper (word_of_capitals hw (all_eq_true.mp hname))]

/-- `NVL(` becomes `COALESCE(`: neither is the name of a date function. -/
theorem rewrites_nvl {w g : Text} (hw : w.map Char.toUpper = "NVL".toList)
    (hg : ∀ c ∈ g, isSpace c = true) :
    Rewrites (chars w ++ chars g ++ [.char '(']) (chars "COALESCE(".toList) where
  run st := by
    have hsplit : chars "COALESCE(".toList = chars "COALESCE".toList ++ [.char '('] := rfl
    rw [hsplit, run_append, run_append, run_cons, run_nil, run_head hw rfl hg (opened st)]
    generalize back (.char '(') st = st', opened st = h
    cases h with
    | gap => exact .inl rfl
    | depth d => exact .inr ((run_flat (d := 0) rfl).trans (run_flat (d := 0) rfl).symm)
    | called => exact .inr rfl
    | dead => exact .inl rfl
  closes v := not_closes rfl (by decide)
  inside r₁ n r₂ v h _ := (no_lit_of_chars h).elim
  keeps u v _ F _ := by
    simp only [refs_append, refs_chars]
    exact .of_sublist (nil_sublist _)
  clean u v hu h := clean_replace hu h.left.left (clean_text (by decide) h.right)
    ⟨'C', _, rfl, by decide⟩

/-- A call, as it is found. -/
def call (w g : Text) (args : List Piece) : List Piece :=
  chars w ++ chars g ++ .char '(' :: args ++ [.char ')']

section Call

variable {w g : Text} {args : List Piece}

theorem call_eq : call w g args =
    (chars w ++ chars g) ++ .char '(' :: (args ++ [.char ')']) := by
  simp [call]

theorem run_call (st : Back) : run (call w g args) st =
    run (chars w ++ chars g) (back (.char '(') (run (args ++ [.char ')']) st)) := by
  rw [call_eq, run_append, run_cons]

theorem run_call_word : run (call w g args) (.word []) = .called := by
  have hargs : run (args ++ [.char ')']) (.word []) = .called := by
    rw [run_append]
    exact run_called
  rw [run_call, hargs, back_called, run_called]

theorem flat_named (hw : ∀ c ∈ w, isWordChar c = true) (hg : ∀ c ∈ g, isSpace c = true)
    (h : insideFrom 0 args = true) : flatFrom 0 (call w g args) = true := by
  rw [call_eq, append_assoc, flat_text fun c hc => plain_word (hw c hc),
    flat_text fun c hc => plain_space (hg c hc)]
  exact flat_call h

@[simp] theorem refs_call : refs (call w g args) = refs args := by
  have hlast : refs [.char ')'] = [] := rfl
  rw [call_eq, ← chars_append, refs_append, refs_chars, nil_append, refs, refs_append, hlast,
    append_nil]

/-- The arguments of a call, and its parenthesis with what stands behind it. -/
theorem clean_of_call {u v : List Piece} (h : Clean (u ++ call w g args ++ v)) :
    Clean args ∧ Clean (.char ')' :: v) := by
  have hsplit : u ++ call w g args ++ v =
      u ++ chars w ++ chars g ++ [.char '('] ++ args ++ .char ')' :: v := by simp [call]
  rw [hsplit] at h
  exact ⟨h.left.right, h.right⟩

/-- **A call that stays a call**, with its name in capitals. -/
theorem rewrites_unchanged {c : Char} {name : Text} (hw : w.map Char.toUpper = c :: name)
    (hname : (c :: name).all isWordChar = true) (hg : ∀ c ∈ g, isSpace c = true) (hV : c ≠ 'V') :
    Rewrites (call w g args) (call (c :: name) [] args) where
  run st := by
    refine .inr ?_
    rw [run_call, run_call, run_head hw hname hg (opened _), chars_nil, append_nil]
  closes v := by
    have hc : isWordChar c = true := all_eq_true.mp hname c mem_cons_self
    exact not_closes (space_of_word hc) (plain_word (d := 0) hc).2.1
  inside r₁ n r₂ v h hc := by
    rw [call_eq, chars_nil, append_nil] at h
    obtain ⟨r, e, -⟩ | ⟨r, rfl, e⟩ := append_eq_middle h
    · exact (no_lit_of_chars e).elim
    · cases r with
      | nil => cases (List.cons.inj e).1
      | cons p r =>
        obtain ⟨rfl, e⟩ := List.cons.inj e
        refine ⟨chars w ++ chars g ++ .char '(' :: r, r₂, ?_, hc, ?_⟩
        · rw [call_eq, e]
          simp
        · intro u hu
          rw [run_append, run_cons] at hu ⊢
          rw [run_head hw hname hg (opened _)]
          exact hu
  keeps u v _ F _ := by
    rw [refs_call, refs_call]
    exact .of_sublist (List.Sublist.refl _)
  clean u v hu h := by
    refine clean_replace hu h.left.left ?_ ⟨c, _, rfl, hV⟩
    have hopen : '\x01' ∉ c :: name ++ ['('] := by
      rw [mem_append, not_or]
      exact ⟨not_mem_of_words (all_eq_true.mp hname), by decide⟩
    have hsplit : call (c :: name) [] args ++ v =
        chars (c :: name ++ ['(']) ++ (args ++ .char ')' :: v) := by simp [call]
    rw [hsplit]
    obtain ⟨hargs, hv⟩ := clean_of_call h
    exact clean_text hopen (clean_stop hargs hv rfl (by decide))

end Call

/-! ## 4. Arguments between constant texts -/

/-- The argument stands in the text, behind an edge. -/
def Holds (R a : List Piece) : Prop := ∃ x y, R = x ++ a ++ y ∧ run x (.word []) = .called

theorem called_edge (hc : isWordChar c = false) {g : Text} (hg : ∀ c ∈ g, isSpace c = true)
    (x : List Piece) : run (x ++ .char c :: chars g) (.word []) = .called := by
  have hedge : run (.char c :: chars g) (.word []) = .called := by
    obtain rfl | ⟨g, b, rfl⟩ := eq_nil_or_concat g
    · simp [back, hc]
    · have hb : isWordChar b = false := isWordChar_of_space (hg b (by simp))
      have hlast : run (chars [b]) (.word []) = .called := by simp [back, hb]
      rw [concat_eq_append, chars_append, ← cons_append, run_append, hlast, run_called]
  rw [run_append, hedge, run_called]

theorem holds_behind (hc : isWordChar c = false) (x a y : List Piece) :
    Holds (x ++ .char c :: a ++ y) (trimmed a) := by
  obtain ⟨g, h, e, hg, -⟩ := trimmed_split a
  refine ⟨x ++ .char c :: chars g, chars h ++ y, ?_, called_edge hc hg x⟩
  conv_lhs => rw [e]
  simp

/-- **Every argument of a call stands in it behind an edge.** -/
theorem holds_args {w g : Text} {p q : List Piece} {l : List (List Piece)} (hq : q ∈ p :: l) :
    Holds (call w g (p ++ behindCommas l)) (trimmed q) := by
  obtain rfl | hq := mem_cons.mp hq
  · have := holds_behind (c := '(') rfl (chars w ++ chars g) q (behindCommas l ++ [.char ')'])
    simpa [call] using this
  · obtain ⟨l₁, l₂, rfl⟩ := append_of_mem hq
    have := holds_behind (c := ',') rfl (chars w ++ chars g ++ .char '(' :: p ++ behindCommas l₁) q
      (behindCommas l₂ ++ [.char ')'])
    simpa [call, behindCommas] using this

/-- The text begins with a character that no placeholder goes on with. -/
def Opens (k : Text) : Prop := ∃ c r, k = c :: r ∧ isWordChar c = false ∧ c ≠ '\x02'

/-- A text that can stand in front of an argument. -/
structure Seg (k : Text) : Prop where
  clean : '\x01' ∉ k
  stops : Stops (chars k)
  edge : run (chars k) (.word []) = .called
  closes : ∀ z, ¬ Closes (chars k ++ z)

/-- A text that can stand behind the last argument. -/
structure Last (k : Text) : Prop where
  clean : ∀ v, Clean v → Clean (chars k ++ v)
  opens : Opens k
  stops : Stops (chars k)
  edge : run (chars k) (.word []) = .dead ∨ run (chars k) (.word []) = .called
  closes : ∀ z, ¬ Closes (chars k ++ z)

def joined (segs : List (Text × List Piece)) : List Piece := segs.flatMap fun s => chars s.1 ++ s.2

/-- Arguments between constant texts. -/
def build (segs : List (Text × List Piece)) (last : Text) : List Piece := joined segs ++ chars last

theorem build_cons (k : Text) (a : List Piece) (segs : List (Text × List Piece)) (last : Text) :
    build ((k, a) :: segs) last = chars k ++ (a ++ build segs last) := by
  simp [build, joined]

section Build

variable {segs : List (Text × List Piece)} {last : Text} {n : Nat}

theorem clean_build (h : ∀ s ∈ segs, Seg s.1 ∧ Clean s.2) (hopens : ∀ s ∈ segs.tail, Opens s.1)
    (hlast : Last last) {v : List Piece} (hv : Clean v) : Clean (build segs last ++ v) := by
  induction segs with
  | nil => exact hlast.clean v hv
  | cons s segs ih =>
    obtain ⟨hs, hsegs⟩ := forall_mem_cons.mp h
    have hrest := ih hsegs fun s hs => hopens s (mem_of_mem_tail hs)
    have hnext : ∃ c r, build segs last ++ v = .char c :: r ∧ isWordChar c = false ∧ c ≠ '\x02' := by
      cases segs with
      | nil =>
        obtain ⟨c, r, e, hc⟩ := hlast.opens
        exact ⟨c, chars r ++ v, by rw [e]; rfl, hc⟩
      | cons s' segs =>
        obtain ⟨c, r, e, hc⟩ := hopens s' mem_cons_self
        exact ⟨c, _, by rw [build, joined, flatMap_cons, e]; rfl, hc⟩
    obtain ⟨c, r, e, hc, hc'⟩ := hnext
    obtain ⟨k, a⟩ := s
    rw [build_cons, append_assoc, append_assoc]
    rw [e] at hrest ⊢
    exact clean_text hs.1.clean (clean_stop hs.2 hrest hc hc')

/-- A literal stands in one of the arguments. -/
theorem build_split {r₁ r₂ : List Piece} (h : build segs last = r₁ ++ .lit n :: r₂) :
    ∃ S₁ k t₁ t₂ S₂, segs = S₁ ++ (k, t₁ ++ .lit n :: t₂) :: S₂ ∧
      r₁ = joined S₁ ++ chars k ++ t₁ ∧ r₂ = t₂ ++ build S₂ last := by
  induction segs generalizing r₁ with
  | nil => exact (no_lit_of_chars h).elim
  | cons s segs ih =>
    obtain ⟨k, a⟩ := s
    rw [build_cons] at h
    obtain ⟨r, e, -⟩ | ⟨r, rfl, e⟩ := append_eq_middle h
    · exact (no_lit_of_chars e).elim
    · obtain ⟨t₂, rfl, rfl⟩ | ⟨r', rfl, e'⟩ := append_eq_middle e
      · exact ⟨[], k, r, t₂, segs, rfl, by simp [joined], rfl⟩
      · obtain ⟨S₁, k', t₁, t₂, S₂, rfl, rfl, rfl⟩ := ih e'
        exact ⟨(k, a) :: S₁, k', t₁, t₂, S₂, rfl, by simp [joined], rfl⟩

theorem not_closes_build (hseg : ∀ s ∈ segs, Seg s.1) (hlast : Last last) (v : List Piece) :
    ¬ Closes (build segs last ++ v) := by
  cases segs with
  | nil => exact hlast.closes v
  | cons s segs =>
    obtain ⟨k, a⟩ := s
    rw [build_cons, append_assoc]
    exact (hseg (k, a) mem_cons_self).closes _

/-- A literal of an argument that balances has no comma of the argument's own in front. -/
theorem run_front {t₁ t₂ : List Piece} (h : flatFrom 0 (t₁ ++ .lit n :: t₂) = true) (k : Nat) :
    run t₁ .spaces ≠ .depth k := by
  intro hk
  have hb := behind_run t₁
  rw [hk] at hb
  cases hb with
  | @depth _ a g harg hg =>
    rw [append_assoc, cons_append, not_flat_comma harg (Nat.zero_le k)] at h
    cases h

/-- **A literal of an argument is no more a format argument between other texts.** -/
theorem inside_part {P x y z t₁ t₂ v : List Piece} (hP : Stops P)
    (hflat : flatFrom 0 (t₁ ++ .lit n :: t₂) = true) (hx : run x (.word []) = .called)
    (hz : ¬ Closes (z ++ v)) (hc : Closes (t₂ ++ z ++ v)) :
    Closes (t₂ ++ y ++ v) ∧ ∀ u, (run u (run (P ++ t₁) .spaces)).accepts = true →
      (run u (run (x ++ t₁) .spaces)).accepts = true := by
  constructor
  · rw [append_assoc] at hc ⊢
    by_cases hspace : ∀ p ∈ t₂, Piece.space p = true
    · rw [closes_of_spaces hspace] at hc
      exact (hz hc).elim
    · push Not at hspace
      obtain ⟨p, hp, hs⟩ := hspace
      exact (closes_of_text hp (by simpa using hs)).mp hc
  · intro u hu
    rw [run_append] at hu ⊢
    have hdepth := run_front hflat
    cases hst : run t₁ .spaces with
    | spaces =>
      rw [hst, hP.spaces, run_dead] at hu
      cases hu
    | depth k => exact (hdepth k hst).elim
    | gap =>
      rw [hst, hP.gap, run_dead] at hu
      cases hu
    | word rest =>
      cases rest with
      | nil =>
        rw [hx, run_called]
        rfl
      | cons b bs =>
        rw [hst, hP.word, run_dead] at hu
        cases hu
    | called =>
      rw [run_called, run_called]
      rfl
    | dead =>
      rw [hst, run_dead, run_dead] at hu
      cases hu

/-- **Arguments of a call, between other texts.** -/
theorem rewrites_build (hR : flatFrom 0 R = true) (hword : run R (.word []) = .called)
    (hR' : flatFrom 0 (build segs last) = true) (hseg : ∀ s ∈ segs, Seg s.1) (hlast : Last last)
    (harg : ∀ s ∈ segs, flatFrom 0 s.2 = true ∧ Holds R s.2)
    (hopens : ∀ s ∈ segs.tail, Opens s.1)
    (hfirst : ∃ c r, build segs last = .char c :: r ∧ c ≠ 'V')
    (hclean : ∀ u v, Clean (u ++ R ++ v) → ∀ s ∈ segs, Clean s.2)
    (hkeep : ∀ u v, Edge u → ∀ F, (∀ n, IsFormat (u ++ R ++ v) n → F n) →
      Keeps F (refs R) (refs (build segs last))) : Rewrites R (build segs last) where
  run := by
    refine run_stops hR hR' (hlast.stops.behind _) ?_
    rw [build, run_append, hword]
    obtain h | h := hlast.edge
    · exact .inl (by rw [h, run_dead])
    · exact .inr (by rw [h, run_called])
  closes v := not_closes_build hseg hlast v
  inside r₁ n r₂ v h hc := by
    obtain ⟨S₁, k, t₁, t₂, S₂, rfl, rfl, rfl⟩ := build_split h
    have hmem : (k, t₁ ++ .lit n :: t₂) ∈ S₁ ++ (k, t₁ ++ .lit n :: t₂) :: S₂ := by simp
    obtain ⟨hflat, x, y, rfl, hx⟩ := harg _ hmem
    have hz : ¬ Closes (build S₂ last ++ v) :=
      not_closes_build (fun s hs => hseg s (by simp [hs])) hlast v
    obtain ⟨hclose, hacc⟩ := inside_part (y := y) ((hseg _ hmem).stops.behind (joined S₁)) hflat hx
      hz hc
    exact ⟨x ++ t₁, t₂ ++ y, by simp, hclose, hacc⟩
  keeps := hkeep
  clean u v hu h := by
    refine clean_replace hu h.left.left ?_ hfirst
    exact clean_build (fun s hs => ⟨hseg s hs, hclean u v h s hs⟩) hopens hlast h.right

end Build

/-! ## 5. Texts that can stand between arguments -/

theorem not_closes_text {x : Char} (h : (t.dropWhile isSpace).head? = some x) (hx : x ≠ ')')
    (z : List Piece) : ¬ Closes (chars t ++ z) := by
  obtain ⟨r, hr⟩ : ∃ r, t.dropWhile isSpace = x :: r := List.head?_eq_some_iff.mp h
  have hspace : ∀ p ∈ chars (t.takeWhile isSpace), Piece.space p = true :=
    mem_chars_space fun c hc => mem_takeWhile_imp hc
  rw [← takeWhile_append_dropWhile (p := isSpace) (l := t), chars_append, append_assoc,
    closes_of_spaces hspace, hr]
  exact not_closes (trimStart_head hr) hx

theorem seg_text {c x : Char} (hclean : '\x01' ∉ t) (hl : t.getLast? = some c) (hs : run (chars t) .spaces = .dead)
    (hg : run (chars t) .gap = .dead) (hc : c.toUpper ∉ nameLetters) (he : isWordChar c = false)
    (hx : (t.dropWhile isSpace).head? = some x) (hx' : x ≠ ')') : Seg t := by
  obtain ⟨k, rfl⟩ := List.getLast?_eq_some_iff.mp hl
  refine ⟨hclean, stops_text hs hg hc, ?_, not_closes_text hx hx'⟩
  · rw [chars_append]
    exact called_edge he (forall_mem_nil _) (chars k)

theorem last_close {k : Text} {x : Char} (hk : Clean (chars (k ++ [')']))) (hk' : Opens (k ++ [')']))
    (hx : ((k ++ [')']).dropWhile isSpace).head? = some x) (hx' : x ≠ ')') : Last (k ++ [')']) := by
  have hstops : Stops (chars (k ++ [')'])) := by
    have hlast : Stops [.char ')'] := ⟨rfl, rfl, fun y ys => back_word (by decide) y ys⟩
    rw [chars_append]
    exact hlast.behind _
  refine ⟨fun v hv => ?_, hk', hstops, .inr ?_, not_closes_text hx hx'⟩
  · rw [chars_append] at hk ⊢
    exact clean_behind hk hv (by decide) rfl
  · rw [chars_append]
    exact called_edge rfl (forall_mem_nil _) (chars k)

/-- `END` ends in a letter of the names, but with none of them in front. -/
theorem last_end {k : Text} {x : Char} (hk : '\x01' ∉ k ++ "END".toList)
    (hk' : Opens (k ++ "END".toList))
    (hx : ((k ++ "END".toList).dropWhile isSpace).head? = some x) (hx' : x ≠ ')') :
    Last (k ++ "END".toList) := by
  have hN : ∀ rest, back (.char 'N') (.word rest) = .dead := by
    intro rest
    cases rest with
    | nil => rfl
    | cons y ys => exact back_word (by decide) y ys
  have hstops : Stops [.char 'N', .char 'D'] := by
    refine ⟨rfl, rfl, fun y ys => ?_⟩
    rw [run_cons, run_cons, run_nil, back]
    split
    · exact hN ys
    · rfl
  have hsplit : chars (k ++ "END".toList) = chars k ++ [.char 'E'] ++ [.char 'N', .char 'D'] := by
    rw [chars_append, append_assoc]
    rfl
  refine ⟨fun v hv => clean_text hk hv, hk', ?_, .inl ?_, not_closes_text hx hx'⟩
  · rw [hsplit]
    exact hstops.behind _
  · rw [hsplit, run_append]
    exact run_dead

/-! ## 6. Arguments without the white space around them -/

theorem flatFrom_congr {x y : List Piece} (h : ∀ d, flatFrom d x = flatFrom d y) (d : Nat) :
    flatFrom d (ps ++ x) = flatFrom d (ps ++ y) := by
  induction ps generalizing d with
  | nil => exact h d
  | cons p ps ih =>
    cases p with
    | lit n => exact ih d
    | char c => simp only [cons_append, flatFrom, ih]

theorem flat_trimmed (h : flatFrom 0 ps = true) : flatFrom 0 (trimmed ps) = true := by
  obtain ⟨g, k, e, hg, hk⟩ := trimmed_split ps
  rw [e, append_assoc, flat_text fun c hc => plain_space (hg c hc)] at h
  have hend : ∀ d, flatFrom d (chars k) = flatFrom d [] := by
    intro d
    have := flat_text (d := d) (fun c hc => plain_space (hk c hc)) []
    rwa [append_nil] at this
  rw [flatFrom_congr hend, append_nil] at h
  exact h

theorem refs_trimmed (ps : List Piece) : refs (trimmed ps) = refs ps := by
  obtain ⟨g, k, e, -, -⟩ := trimmed_split ps
  conv_rhs => rw [e]
  simp

theorem clean_trimmed (h : Clean ps) : Clean (trimmed ps) := by
  obtain ⟨g, k, e, -, -⟩ := trimmed_split ps
  rw [e] at h
  exact h.left.right

theorem clean_args {p : List Piece} {l : List (List Piece)} (h : Clean (p ++ behindCommas l))
    {q : List Piece} (hq : q ∈ p :: l) : Clean q := by
  obtain rfl | hq := mem_cons.mp hq
  · exact h.left
  · obtain ⟨l₁, l₂, rfl⟩ := append_of_mem hq
    have hsplit : p ++ behindCommas (l₁ ++ q :: l₂) =
        p ++ behindCommas l₁ ++ [.char ','] ++ q ++ behindCommas l₂ := by simp [behindCommas]
    rw [hsplit] at h
    exact h.left.right

/-- **A call becomes its arguments, without the white space around them, between other texts.** -/
theorem rewrites_args {w g : Text} {p : List Piece} {l : List (List Piece)}
    {segs : List (Text × List Piece)} {last : Text} (hw : ∀ c ∈ w, isWordChar c = true)
    (hg : ∀ c ∈ g, isSpace c = true) (hin : insideFrom 0 (p ++ behindCommas l) = true)
    (hflat : ∀ q ∈ p :: l, flatFrom 0 q = true)
    (hsegs : ∀ s ∈ segs, Seg s.1 ∧ ∃ q ∈ p :: l, s.2 = trimmed q)
    (hopens : ∀ s ∈ segs.tail, Opens s.1)
    (hfirst : ∃ c r, build segs last = .char c :: r ∧ c ≠ 'V') (hlast : Last last)
    (hR' : flatFrom 0 (build segs last) = true)
    (hkeep : ∀ u v, Edge u → ∀ F,
      (∀ n, IsFormat (u ++ call w g (p ++ behindCommas l) ++ v) n → F n) →
        Keeps F (refs (p ++ behindCommas l)) (refs (build segs last))) :
    Rewrites (call w g (p ++ behindCommas l)) (build segs last) := by
  refine rewrites_build (flat_named hw hg hin) run_call_word hR' (fun s hs => (hsegs s hs).1) hlast
    (fun s hs => ?_) hopens hfirst (fun u v h s hs => ?_) (by rwa [refs_call])
  · obtain ⟨-, q, hq, e⟩ := hsegs s hs
    rw [e]
    exact ⟨flat_trimmed (hflat q hq), holds_args hq⟩
  · obtain ⟨-, q, hq, e⟩ := hsegs s hs
    rw [e]
    exact clean_trimmed (clean_args (clean_of_call h).1 hq)

theorem flat_arg (h : flatFrom 0 ps = true) (e : Nat) (z : List Piece) :
    flatFrom e (ps ++ z) = flatFrom e z := by
  have hpass : flatFrom (0 + e) (ps ++ z) = flatFrom e z := flatFrom_append h
  rwa [Nat.zero_add] at hpass

@[simp] theorem refs_build (segs : List (Text × List Piece)) (last : Text) :
    refs (build segs last) = segs.flatMap fun s => refs s.2 := by
  induction segs with
  | nil => exact refs_chars
  | cons s segs ih =>
    rw [build_cons, refs_append, refs_append, refs_chars, ih]
    rfl

theorem refs_behindCommas (l : List (List Piece)) : refs (behindCommas l) = l.flatMap refs := by
  induction l with
  | nil => rfl
  | cons q l ih =>
    rw [behindCommas, flatMap_cons, refs_append, flatMap_cons, ← ih]
    rfl

end Veesker.Shim
