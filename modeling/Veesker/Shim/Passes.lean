/-
  File:      Veesker/Shim/Passes.lean
  Subject:   A PASS OVER A MASKED TEXT is a row of rewrites of its pieces.

  * `Sound` -- what an expression must see to: it finds nothing inside a placeholder, and what it
    puts in the place of some pieces `Rewrites` them;
  * `Sound.pass` -- **a pass is a row of such rewrites**, the last place first;
  * `keyword_render`, `callAt_render`, `findCall_hit`, `splitArgs_render`, `trim_render` -- what the
    parts of the expressions find in a masked text.
-/
import Veesker.Shim.Formats

namespace Veesker.Shim

/-! ## 1. Passes -/

/-- Where an expression can find something: no word goes on, and one of these letters follows. -/
def Begins (prev : Option Char) (s : Text) : Prop :=
  prev.all (fun c => !isWordChar c) = true ∧ ∃ c cs, s = c :: cs ∧ c.toUpper ∈ "FSNDTW".toList

/-- An expression that rewrites masked texts soundly, in which only `F` are format arguments. -/
structure Sound (F : Nat → Prop) (find : Option Char → Text → Found) : Prop where
  begins : ∀ prev s, find prev s ≠ .nothing → Begins prev s
  rewrites : ∀ pre prev ps k r, Edge pre → (∀ n, IsFormat (pre ++ ps) n → F n) → Clean ps →
    find prev (render ps) = .hit k r → ∃ R R' rest, ps = R ++ rest ∧ R ≠ [] ∧
      k = (render R).length ∧ r = render R' ∧ Rewrites R R'

section Pass

variable {F : Nat → Prop} {find : Option Char → Text → Found}

/-- **Nothing begins inside a placeholder.** -/
theorem placeholder_not_begins {n : Nat} {prev : Option Char} {u v t : Text} {c : Char}
    (h : placeholder n = u ++ c :: v) : ¬ Begins (lastOf prev u) (c :: v ++ t) := by
  intro hb
  obtain ⟨hprev, d, ds, hd, hletter⟩ := hb
  obtain rfl : c = d := (List.cons.inj hd).1
  rw [placeholder_eq] at h
  cases u with
  | nil =>
    obtain rfl : '\x01' = c := (List.cons.inj h).1
    exact absurd hletter (by decide)
  | cons a u =>
    cases u with
    | nil =>
      obtain rfl : 'V' = c := (List.cons.inj (List.cons.inj h).2).1
      exact absurd hletter (by decide)
    | cons b u =>
      -- the character in front is one of the placeholder's word
      have hin : ∀ x ∈ b :: u, isWordChar x = true := by
        have e : ('V' :: ("SKSTR".toList ++ Nat.toDigits 10 n)) ++ ['\x02'] =
            (b :: u) ++ c :: v := (List.cons.inj h).2
        intro x hx
        obtain ⟨r, e, -⟩ | ⟨r, e, e'⟩ := append_eq_middle e
        · exact isWordChar_inside (e ▸ List.mem_append_left _ hx)
        · cases r with
          | nil => exact isWordChar_inside (by rw [List.append_nil] at e; exact e ▸ hx)
          | cons y r => exact absurd (congrArg List.length e') (by simp)
      obtain ⟨x, hx, e⟩ := lastOf_cons (some a) b u
      rw [lastOf, e, Option.all_some, hin x hx] at hprev
      cases hprev

theorem Sound.placeholder (h : Sound F find) (prev : Option Char) (n : Nat) (t : Text) :
    scanFrom find prev 0 (placeholder n ++ t) =
      placeholder n ++ scanFrom find (lastOf prev (placeholder n)) 0 t := by
  refine scanFrom_pass fun u c v e => ?_
  by_contra hne
  exact placeholder_not_begins e (h.begins _ _ hne)

theorem edge_of_last {pre : List Piece}
    (h : (lastOf none (render pre)).all (fun c => !isWordChar c) = true) : Edge pre := by
  intro c hc
  obtain ⟨pre, rfl⟩ := List.getLast?_eq_some_iff.mp hc
  rw [render_append, lastOf_append] at h
  simpa [lastOf] using h

/-- **A pass over pieces** is a row of rewrites: the rest of the text is rewritten first, so that
    what stands in front of a place is still as it was found. -/
theorem Sound.pass (h : Sound F find) {pre todo : List Piece} (hclean : Clean todo)
    (hF : ∀ n, IsFormat (pre ++ todo) n → F n) :
    ∃ out, scanFrom find (lastOf none (render pre)) 0 (render todo) = render out ∧
      Steps (pre ++ todo) (pre ++ out) := by
  induction hlen : todo.length using Nat.strong_induction_on generalizing pre todo with
  | _ m ih =>
  subst hlen
  cases todo with
  | nil => exact ⟨[], rfl, .refl⟩
  | cons p todo =>
    -- one piece is passed over
    have hnext : ∃ out, scanFrom find (lastOf none (render (pre ++ [p]))) 0 (render todo) =
        render out ∧ Steps (pre ++ p :: todo) (pre ++ p :: out) := by
      have hF' : ∀ n, IsFormat (pre ++ [p] ++ todo) n → F n := by simpa using hF
      obtain ⟨out, e, hsteps⟩ := ih todo.length (by simp) hclean.tail hF' rfl
      exact ⟨out, e, by simpa using hsteps⟩
    cases p with
    | lit n =>
      obtain ⟨out, e, hsteps⟩ := hnext
      refine ⟨.lit n :: out, ?_, hsteps⟩
      rw [render_lit, h.placeholder, render_lit, ← e, render_append, lastOf_append]
      simp
    | char c =>
      cases hf : find (lastOf none (render pre)) (c :: render todo) with
      | nothing =>
        obtain ⟨out, e, hsteps⟩ := hnext
        refine ⟨.char c :: out, ?_, hsteps⟩
        rw [render_char, scanFrom_nothing hf, render_char, ← e, render_append, lastOf_append]
        rfl
      | stop =>
        refine ⟨.char c :: todo, ?_, .refl⟩
        rw [render_char, scanFrom, hf]
      | hit k r =>
        have hedge : Edge pre := edge_of_last (h.begins _ _ (by rw [hf]; rintro ⟨⟩)).1
        obtain ⟨R, R', rest, e, hne, rfl, rfl, hrw⟩ :=
          h.rewrites pre _ (.char c :: todo) k r hedge hF hclean hf
        obtain ⟨d, R, rfl⟩ := List.exists_cons_of_ne_nil hne
        obtain ⟨rfl, rfl⟩ := List.cons.inj e
        have hrest : Clean rest := hclean.tail.right
        have hF' : ∀ n, IsFormat (pre ++ .char c :: R ++ rest) n → F n := by simpa using hF
        have hlen : rest.length < (Piece.char c :: (R ++ rest)).length := by
          simp only [List.length_cons, List.length_append]
          omega
        obtain ⟨out, e', hsteps⟩ := ih rest.length hlen hrest hF' rfl
        refine ⟨R' ++ out, ?_, ?_⟩
        · have hf' : find (lastOf none (render pre)) (c :: render R ++ render rest) =
              .hit (c :: render R).length (render R') := by
            rw [List.cons_append, ← render_append]
            exact hf
          change scanFrom find _ 0 (c :: render (R ++ rest)) = _
          rw [render_append, ← List.cons_append, scanFrom_hit hf', render_append, ← e',
            render_append, lastOf_append, render_char]
        · have hlast : Step (pre ++ .char c :: R ++ out) (pre ++ R' ++ out) :=
            ⟨pre, .char c :: R, R', out, rfl, rfl, hedge, hrw⟩
          simpa using Relation.ReflTransGen.tail hsteps hlast

/-- The whole pass, from the front of the text. -/
theorem Sound.scan (h : Sound F find) {ps : List Piece} (hclean : Clean ps)
    (hF : ∀ n, IsFormat ps n → F n) :
    ∃ out, Shim.scan find (render ps) = render out ∧ Steps ps out :=
  @Sound.pass F find h [] ps hclean hF

end Pass

end Veesker.Shim
