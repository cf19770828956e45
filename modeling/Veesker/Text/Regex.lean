/-
  File:      Veesker/Text/Regex.lean
  Subject:   SEARCHING FOR THE MATCHES OF AN EXPRESSION, and replacing them.

  A `Regex` tries its alternatives in order and its repetitions longest first; `ends` lists where its
  matches from a place stop, the one an engine finds first. A place is the text from it on and
  whether a word character stands before it, which is all an edge looks at.

  * `ends_extend`, `ends_stop` -- a match in front of more text;
  * `Segmented`, `segmented` -- a text as its matches and the gaps between them;
  * `Free`, `Only` -- no match from the places of a text, or only such as reach its end;
  * **`Segmented.free_gap`, `Segmented.only_gap`** -- what matches in a gap matches in the text, unless
    it ends where a match of the other expression begins within a word.

  Nothing here names the repository.
-/
import Veesker.Text.Js

namespace Veesker

open List

/-- Whether a word character stands before it, and the text from it on. -/
abbrev Place := Bool × Text

inductive Regex where
  | empty
  | one (p : Char → Bool)
  | seq (a b : Regex)
  | alt (a b : Regex)
  | many (p : Char → Bool)
  | edge

namespace Regex

/-- One of the parts after the other. -/
def all : List Regex → Regex
  | [] => empty
  | [r] => r
  | r :: rs => seq r (all rs)

/-- `r?`. -/
def opt (r : Regex) : Regex := alt r empty

/-- `r{n}`, in front of `s`. -/
def times : Nat → Regex → Regex → Regex
  | 0, _, s => s
  | n + 1, r, s => seq r (times n r s)

/-- `r{0,n}`. -/
def upTo : Nat → Regex → Regex
  | 0, _ => empty
  | n + 1, r => opt (seq r (upTo n r))

/-- The character `c`. -/
def lit (c : Char) : Regex := one (· == c)

section

variable (w : Char → Bool)

/-- The ends of the matches of `p*`, the longest first. -/
def manyEnds (p : Char → Bool) : Bool → Text → List Place
  | b, [] => [(b, [])]
  | b, c :: cs => (if p c then manyEnds p (w c) cs else []) ++ [(b, c :: cs)]

/-- Where the matches from a place end, the preferred one first. -/
def ends : Regex → Place → List Place
  | empty, k => [k]
  | one p, (_, c :: cs) => if p c then [(w c, cs)] else []
  | one _, (_, []) => []
  | seq a b, k => (ends a k).flatMap (ends b)
  | alt a b, k => ends a k ++ ends b k
  | many p, (b, s) => manyEnds w p b s
  | edge, (b, s) => if b != s.head?.any w then [(b, s)] else []

/-- What is left of the text behind the match an engine finds at the place. -/
def find (r : Regex) (k : Place) : Option Text := (r.ends w k).head?.map Prod.snd

/-- A part of a text that was searched. -/
inductive Piece where
  | kept (c : Char)
  | found (m : Text)
  deriving DecidableEq

/-- The search for an expression that matches no empty text; the first argument is how much of a match
    is still to be skipped. -/
def scan (r : Regex) : Nat → Bool → Text → List Piece
  | _, _, [] => []
  | skip + 1, _, c :: cs => scan r skip (w c) cs
  | 0, b, c :: cs =>
    match r.find w (b, c :: cs) with
    | some rest => .found ((c :: cs).take (cs.length + 1 - rest.length)) ::
        scan r (cs.length - rest.length) (w c) cs
    | none => .kept c :: scan r 0 (w c) cs

end

def Piece.render (f : Text → Text) : Piece → Text
  | .kept c => [c]
  | .found m => f m

/-- `s.replace(r, f)` with the flag `g`. -/
def replaceAll (w : Char → Bool) (r : Regex) (f : Text → Text) (s : Text) : Text :=
  (r.scan w 0 false s).flatMap (Piece.render f)

/-- A character in front of matches and gaps. -/
def prepend (c : Char) : List (Text × Text) × Text → List (Text × Text) × Text
  | ([], g) => ([], c :: g)
  | ((g, m) :: l, last) => ((c :: g, m) :: l, last)

/-- The matches, each with the gap before it, and the gap behind the last. -/
def segments : List Piece → List (Text × Text) × Text
  | [] => ([], [])
  | .kept c :: ps => prepend c (segments ps)
  | .found m :: ps => (([], m) :: (segments ps).1, (segments ps).2)

variable {w : Char → Bool}

section

-- The equations of these definitions, made once for the proofs below.
attribute [local simp] manyEnds ends find scan segments

end

/-! ## 1. Where matches end -/

/-- Whether a word character stands behind `u`. -/
def after (w : Char → Bool) (b : Bool) (u : Text) : Bool := u.foldl (fun _ c => w c) b

@[simp] theorem after_nil (b : Bool) : after w b [] = b := rfl

@[simp] theorem after_cons (b : Bool) (c : Char) (u : Text) : after w b (c :: u) = after w (w c) u := rfl

theorem after_append (b : Bool) (u v : Text) : after w b (u ++ v) = after w (after w b u) v :=
  foldl_append

variable {k m : Place}

theorem mem_ends_seq {a b : Regex} :
    m ∈ (seq a b).ends w k ↔ ∃ l ∈ a.ends w k, m ∈ b.ends w l := by
  rw [ends, mem_flatMap]

theorem mem_ends_alt {a b : Regex} :
    m ∈ (alt a b).ends w k ↔ m ∈ a.ends w k ∨ m ∈ b.ends w k := by
  rw [ends, mem_append]

theorem mem_ends_one {p : Char → Bool} :
    m ∈ (one p).ends w k ↔ ∃ c, k.2 = c :: m.2 ∧ p c = true ∧ m.1 = w c := by
  obtain ⟨b, s⟩ := k
  obtain ⟨f, t⟩ := m
  cases s with
  | nil => simp [ends]
  | cons c cs =>
    by_cases hc : p c = true
    · simp only [ends, if_pos hc, mem_singleton, Prod.mk.injEq, List.cons.injEq]
      grind
    · simp only [ends, if_neg hc, not_mem_nil, List.cons.injEq]
      grind

theorem mem_ends_edge :
    m ∈ edge.ends w k ↔ m = k ∧ k.1 ≠ k.2.head?.any w := by
  obtain ⟨b, s⟩ := k
  by_cases h : b = s.head?.any w
  · simp [ends, h]
  · simp [ends, h]

variable {s : Text}

theorem mem_manyEnds {p : Char → Bool} {b : Bool} {m : Place} :
    m ∈ manyEnds w p b s ↔ ∃ u, s = u ++ m.2 ∧ m.1 = after w b u ∧ ∀ c ∈ u, p c = true := by
  obtain ⟨f, t⟩ := m
  induction s generalizing b with
  | nil =>
    constructor
    · intro h
      obtain ⟨rfl, rfl⟩ := Prod.mk.inj (mem_singleton.mp h)
      exact ⟨[], rfl, rfl, nofun⟩
    · intro h
      obtain ⟨u, hu, hf, -⟩ := h
      obtain ⟨rfl, rfl⟩ := append_eq_nil_iff.mp hu.symm
      rw [show f = b from hf]
      exact mem_singleton_self _
  | cons c s ih =>
    rw [manyEnds, mem_append, mem_singleton]
    constructor
    · intro h
      rcases h with h | h
      · split at h
        · rename_i hc
          obtain ⟨u, hu, hf, hall⟩ := ih.mp h
          exact ⟨c :: u, congrArg (List.cons c) hu, hf, forall_mem_cons.mpr ⟨hc, hall⟩⟩
        · cases h
      · obtain ⟨rfl, rfl⟩ := Prod.mk.inj h
        exact ⟨[], rfl, rfl, nofun⟩
    · intro h
      obtain ⟨u, hu, hf, hall⟩ := h
      cases u with
      | nil =>
        right
        rw [show t = c :: s from hu.symm, show f = b from hf]
      | cons d u =>
        obtain ⟨rfl, hs⟩ := List.cons.inj hu
        obtain ⟨hc, hall⟩ := forall_mem_cons.mp hall
        left
        rw [if_pos hc]
        exact ih.mpr ⟨u, hs, hf, hall⟩

/-- **What a match takes**, and the flag behind it. -/
theorem ends_split (r : Regex) (h : m ∈ r.ends w k) :
    ∃ u, k.2 = u ++ m.2 ∧ m.1 = after w k.1 u := by
  induction r generalizing k m with
  | empty =>
    obtain rfl := mem_singleton.mp h
    exact ⟨[], rfl, rfl⟩
  | one p =>
    obtain ⟨c, hk, -, hm⟩ := mem_ends_one.mp h
    exact ⟨[c], hk, hm⟩
  | seq a b iha ihb =>
    obtain ⟨l, hl, hm⟩ := mem_ends_seq.mp h
    obtain ⟨u, hu, hfu⟩ := iha hl
    obtain ⟨v, hv, hfv⟩ := ihb hm
    refine ⟨u ++ v, ?_, ?_⟩
    · rw [hu, hv, append_assoc]
    · rw [hfv, hfu, after_append]
  | alt a b iha ihb =>
    rcases mem_ends_alt.mp h with h | h
    · exact iha h
    · exact ihb h
  | many p =>
    obtain ⟨b, s⟩ := k
    obtain ⟨u, hu, hf, -⟩ := mem_manyEnds.mp h
    exact ⟨u, hu, hf⟩
  | edge =>
    obtain ⟨rfl, -⟩ := mem_ends_edge.mp h
    exact ⟨[], rfl, rfl⟩

/-- **A match is one in front of more text**, unless it reaches the end and a word goes on there. -/
theorem ends_extend (r : Regex) (h : m ∈ r.ends w k) {z : Text}
    (hz : m.2 ≠ [] ∨ z.head?.any w = false) : (m.1, m.2 ++ z) ∈ r.ends w (k.1, k.2 ++ z) := by
  induction r generalizing k m with
  | empty =>
    obtain rfl := mem_singleton.mp h
    exact mem_singleton_self _
  | one p =>
    obtain ⟨c, hk, hc, hm⟩ := mem_ends_one.mp h
    exact mem_ends_one.mpr ⟨c, by rw [hk]; rfl, hc, hm⟩
  | seq a b iha ihb =>
    obtain ⟨l, hl, hm⟩ := mem_ends_seq.mp h
    obtain ⟨u, hu, -⟩ := ends_split b hm
    have hl' : l.2 ≠ [] ∨ z.head?.any w = false := by
      refine hz.imp_left fun hne hnil => hne ?_
      rw [hnil] at hu
      exact (append_eq_nil_iff.mp hu.symm).2
    exact mem_ends_seq.mpr ⟨_, iha hl hl', ihb hm hz⟩
  | alt a b iha ihb =>
    rcases mem_ends_alt.mp h with h | h
    · exact mem_ends_alt.mpr (.inl (iha h hz))
    · exact mem_ends_alt.mpr (.inr (ihb h hz))
  | many p =>
    obtain ⟨b, s⟩ := k
    obtain ⟨u, hu, hf, hall⟩ := mem_manyEnds.mp h
    refine mem_manyEnds.mpr ⟨u, ?_, hf, hall⟩
    show s ++ z = _
    rw [hu, append_assoc]
  | edge =>
    obtain ⟨rfl, hedge⟩ := mem_ends_edge.mp h
    refine mem_ends_edge.mpr ⟨rfl, ?_⟩
    obtain ⟨b, s⟩ := m
    cases s with
    | nil =>
      obtain hne | hz := hz
      · exact absurd rfl hne
      · show b ≠ z.head?.any w
        rw [hz]
        exact hedge
    | cons c s => exact hedge

/-- No part of the expression takes the character. -/
def Avoids (x : Char) : Regex → Prop
  | empty | edge => True
  | one p | many p => p x = false
  | seq a b | alt a b => Avoids x a ∧ Avoids x b

/-- **A character that no part takes, and that is in no word, ends the text for the expression.** -/
theorem ends_stop {x : Char} (hx : w x = false) (r : Regex) (hr : r.Avoids x) (b : Bool) (s z : Text) :
    r.ends w (b, s ++ x :: z) = (r.ends w (b, s)).map fun m => (m.1, m.2 ++ x :: z) := by
  induction r generalizing b s with
  | empty => rfl
  | one p =>
    cases s with
    | nil =>
      have hp : p x = false := hr
      simp [ends, hp]
    | cons c s =>
      simp only [cons_append, ends]
      split
      · rfl
      · rfl
  | seq p q ihp ihq =>
    rw [ends, ends, ihp hr.1, flatMap_map, map_flatMap]
    refine flatMap_congr fun m _ => ?_
    exact ihq hr.2 m.1 m.2
  | alt p q ihp ihq => rw [ends, ends, ihp hr.1, ihq hr.2, map_append]
  | many p =>
    have hp : p x = false := hr
    show manyEnds w p b (s ++ x :: z) = (manyEnds w p b s).map _
    induction s generalizing b with
    | nil => simp [manyEnds, hp]
    | cons c s ih =>
      rw [cons_append, manyEnds, manyEnds, map_append]
      split
      · rw [ih]
        rfl
      · rfl
  | edge =>
    cases s with
    | nil => cases b <;> simp [ends, hx]
    | cons c s =>
      by_cases h : b = w c
      · simp [ends, h]
      · simp [ends, h]

theorem ends_stop_nil {x : Char} (hx : w x = false) (r : Regex) (hr : r.Avoids x) (b : Bool) (s z : Text) :
    r.ends w (b, s ++ x :: z) = [] ↔ r.ends w (b, s) = [] := by
  rw [ends_stop hx r hr, map_eq_nil_iff]

/-! ## 2. Matches and gaps -/

/-- From no place of `u`, in front of `z`, a match. -/
def Free (w : Char → Bool) (r : Regex) : Bool → Text → Text → Prop
  | _, [], _ => True
  | b, c :: u, z => r.ends w (b, c :: (u ++ z)) = [] ∧ Free w r (w c) u z

/-- A text as gaps and matches in turn, and the gap behind the last match. -/
inductive Segmented (w : Char → Bool) (r : Regex) : Bool → Text → List (Text × Text) → Text → Prop
  | last {b : Bool} {g : Text} (hg : Free w r b g []) : Segmented w r b g [] g
  | cons {b : Bool} {g m s : Text} {l : List (Text × Text)} {g' : Text} (hg : Free w r b g (m ++ s))
      (hm : r.find w (after w b g, m ++ s) = some s) (hne : m ≠ [])
      (hs : Segmented w r (after w b (g ++ m)) s l g') :
      Segmented w r b (g ++ (m ++ s)) ((g, m) :: l) g'

/-- The expression matches no empty text. -/
def Solid (w : Char → Bool) (r : Regex) : Prop := ∀ k, ∀ m ∈ r.ends w k, m.2.length < k.2.length

variable {r : Regex}

theorem find_eq_none {k : Place} : r.find w k = none ↔ r.ends w k = [] := by
  rw [find, Option.map_eq_none_iff, List.head?_eq_none_iff]

theorem find_eq_some {k : Place} {t : Text} (h : r.find w k = some t) :
    ∃ f, (f, t) ∈ r.ends w k := by
  rw [find, Option.map_eq_some_iff] at h
  obtain ⟨⟨f, t⟩, hm, rfl⟩ := h
  exact ⟨f, mem_of_mem_head? hm⟩

variable {l : List (Text × Text)} {g : Text}

theorem Segmented.prepend {b : Bool} {c : Char}
    (hc : r.ends w (b, c :: s) = []) (h : Segmented w r (w c) s l g) :
    Segmented w r b (c :: s) (Regex.prepend c (l, g)).1 (Regex.prepend c (l, g)).2 := by
  cases h with
  | last hg =>
    refine .last ⟨?_, hg⟩
    rwa [append_nil]
  | @cons _ g₁ m s l _ hg hm hne hs => exact .cons (g := c :: g₁) ⟨hc, hg⟩ hm hne hs

/-- Characters to be skipped. -/
theorem scan_skip (r : Regex) (b : Bool) (u s : Text) :
    r.scan w u.length b (u ++ s) = r.scan w 0 (after w b u) s := by
  induction u generalizing b with
  | nil => rfl
  | cons c u ih =>
    rw [length_cons, cons_append, scan, ih]
    rfl

theorem scan_found {b : Bool} {m s : Text} (hne : m ≠ [])
    (h : r.find w (b, m ++ s) = some s) :
    r.scan w 0 b (m ++ s) = .found m :: r.scan w 0 (after w b m) s := by
  obtain ⟨c, u, rfl⟩ := exists_cons_of_ne_nil hne
  have htake : (c :: (u ++ s)).take ((u ++ s).length + 1 - s.length) = c :: u := by
    rw [← cons_append]
    refine take_left' ?_
    simp only [length_cons, length_append]
    omega
  have hskip : (u ++ s).length - s.length = u.length := by
    rw [length_append]
    omega
  have hfind : r.find w (b, c :: (u ++ s)) = some s := h
  rw [cons_append, scan, hfind]
  simp only [htake, hskip, scan_skip, after_cons]

theorem scan_kept {b : Bool} {c : Char} (h : r.ends w (b, c :: s) = []) :
    r.scan w 0 b (c :: s) = .kept c :: r.scan w 0 (w c) s := by
  rw [scan, find_eq_none.mpr h]

/-- **The search takes a text apart.** -/
theorem segmented_scan (hr : r.Solid w) (b : Bool) (s : Text) :
    Segmented w r b s (segments (r.scan w 0 b s)).1 (segments (r.scan w 0 b s)).2 := by
  induction hn : s.length using Nat.strong_induction_on generalizing b s with
  | _ n ih =>
    cases s with
    | nil => exact .last trivial
    | cons c s =>
      cases hfind : r.find w (b, c :: s) with
      | none =>
        have hends := find_eq_none.mp hfind
        have hrest := ih s.length (by rw [← hn]; exact Nat.lt_succ_self _) (w c) s rfl
        rw [scan_kept hends, segments]
        exact hrest.prepend hends
      | some t =>
        obtain ⟨f, hmem⟩ := find_eq_some hfind
        obtain ⟨m, hm, -⟩ := ends_split r hmem
        have hlt : t.length < (c :: s).length := hr _ _ hmem
        have hm : c :: s = m ++ t := hm
        have hne : m ≠ [] := by
          rintro rfl
          rw [hm, nil_append] at hlt
          exact lt_irrefl _ hlt
        have hrest := ih t.length (by rw [← hn]; exact hlt) (after w b m) t rfl
        rw [hm] at hfind ⊢
        rw [scan_found hne hfind, segments]
        exact .cons (g := []) trivial hfind hne hrest

/-- **What replacing makes of a text**: the gaps with what replaces the matches. -/
theorem replace_segments (f : Text → Text) (ps : List Piece) :
    ps.flatMap (Piece.render f) =
      (segments ps).1.flatMap (fun p => p.1 ++ f p.2) ++ (segments ps).2 := by
  induction ps with
  | nil => rfl
  | cons p ps ih =>
    rw [flatMap_cons, ih]
    cases p with
    | kept c =>
      rw [segments]
      obtain ⟨l, g⟩ := segments ps
      cases l with
      | nil => rfl
      | cons q l => rfl
    | found m =>
      rw [segments, flatMap_cons]
      simp only [Piece.render, nil_append, append_assoc]

/-! ## 3. What matches in a gap -/

/-- From the places of `u`, in front of `z`, only matches that reach the end. -/
def Only (w : Char → Bool) (r : Regex) : Bool → Text → Text → Prop
  | _, [], _ => True
  | b, c :: u, z => (∀ m ∈ r.ends w (b, c :: (u ++ z)), m.2 = []) ∧ Only w r (w c) u z

/-- A match takes something and ends a word. -/
structure Closed (w : Char → Bool) (r : Regex) : Prop where
  solid : r.Solid w
  closes : ∀ k, ∀ m ∈ r.ends w k, m.1 = true ∧ m.2.head?.any w = false

/-- A match begins at an edge. -/
def Leads (w : Char → Bool) (r : Regex) : Prop := ∀ k, ∀ m ∈ r.ends w k, k.1 ≠ k.2.head?.any w

/-- What stands before a match is no matter. -/
def Indifferent (w : Char → Bool) (r : Regex) : Prop :=
  ∀ b b' s, r.ends w (b, s) = r.ends w (b', s)

/-- The start of a text, or a place behind a word that has ended. -/
def Start (w : Char → Bool) (b : Bool) (s : Text) : Prop := b = false ∨ s.head?.any w = false

theorem free_append {b : Bool} {u v z : Text} :
    Free w r b (u ++ v) z ↔ Free w r b u (v ++ z) ∧ Free w r (after w b u) v z := by
  induction u generalizing b with
  | nil => simp [Free]
  | cons c u ih => rw [cons_append, Free, Free, ih, append_assoc, and_assoc, after_cons]

theorem only_append {b : Bool} {u v z : Text} :
    Only w r b (u ++ v) z ↔ Only w r b u (v ++ z) ∧ Only w r (after w b u) v z := by
  induction u generalizing b with
  | nil => simp [Only]
  | cons c u ih => rw [cons_append, Only, Only, ih, append_assoc, and_assoc, after_cons]

section

variable {q : Regex} (hq : q.Closed w) (hstart : q.Leads w ∨ q.Indifferent w)

include hstart

variable {b b' : Bool}

/-- **A match in a gap that stands alone is one in the text**, from the same place. -/
theorem match_in_context {c : Char} {u z : Text} {m : Place}
    (hm : m ∈ q.ends w (b', c :: u)) (hflag : b' = b ∨ b' = false ∧ Start w b [c])
    (hright : m.2 ≠ [] ∨ z.head?.any w = false) :
    (m.1, m.2 ++ z) ∈ q.ends w (b, c :: (u ++ z)) := by
  have hsame : m ∈ q.ends w (b, c :: u) := by
    rcases hflag with rfl | ⟨rfl, rfl | hc⟩
    · exact hm
    · exact hm
    · rcases hstart with hleads | hany
      · exact absurd hc.symm (hleads _ _ hm)
      · rwa [hany b false]
  exact ends_extend q hsame hright

/-- With no edge promised behind the gap, a match may reach its end. -/
theorem only_gap {g z : Text} (h : Free w q b g z)
    (hleft : b' = b ∨ b' = false ∧ Start w b (g ++ z)) : Only w q b' g [] := by
  induction g generalizing b b' with
  | nil => trivial
  | cons c u ih =>
    refine ⟨fun m hm => ?_, ih h.2 (.inl rfl)⟩
    rw [append_nil] at hm
    by_contra hne
    have hmem := match_in_context hstart hm (b := b) (z := z) hleft (.inl hne)
    rw [h.1] at hmem
    cases hmem

theorem only_gap_of_only (h : Only w q b g [])
    (hleft : b' = b ∨ b' = false ∧ Start w b g) : Only w q b' g [] := by
  induction g generalizing b b' with
  | nil => trivial
  | cons c u ih =>
    refine ⟨fun m hm => ?_, ih h.2 (.inl rfl)⟩
    rw [append_nil] at hm
    have hmem := match_in_context hstart hm (b := b) (z := []) hleft (.inr rfl)
    rw [← append_nil m.2]
    exact h.1 _ hmem

omit hstart

include hq

/-- A match that reaches the end of a gap ends a word there. -/
theorem match_ends_in {b : Bool} {c : Char} {u z : Text} {m : Place} (hm : m ∈ q.ends w (b, c :: u))
    (hright : after w (w c) u = true → z.head?.any w = false) :
    m.2 ≠ [] ∨ z.head?.any w = false := by
  obtain ⟨v, hv, hf⟩ := ends_split q hm
  by_cases hnil : m.2 = []
  · rw [hnil, append_nil] at hv
    refine .inr (hright ?_)
    rw [← (hq.closes _ m hm).1, hf, ← hv]
    rfl
  · exact .inl hnil

include hstart

theorem free_gap {g z : Text} (h : Free w q b g z)
    (hright : after w b g = true → z.head?.any w = false)
    (hleft : b' = b ∨ b' = false ∧ Start w b (g ++ z)) : Free w q b' g [] := by
  induction g generalizing b b' with
  | nil => trivial
  | cons c u ih =>
    refine ⟨?_, ih h.2 hright (.inl rfl)⟩
    rw [append_nil, eq_nil_iff_forall_not_mem]
    intro m hm
    have hmem := match_in_context hstart hm (b := b) hleft (match_ends_in hq hm hright)
    rw [h.1] at hmem
    cases hmem

/-- Matches that reach the end of the text do not lie in a gap before it. -/
theorem free_gap_of_only {g z : Text} (h : Only w q b g z) (hz : z ≠ [])
    (hright : after w b g = true → z.head?.any w = false)
    (hleft : b' = b ∨ b' = false ∧ Start w b (g ++ z)) : Free w q b' g [] := by
  induction g generalizing b b' with
  | nil => trivial
  | cons c u ih =>
    refine ⟨?_, ih h.2 hright (.inl rfl)⟩
    rw [append_nil, eq_nil_iff_forall_not_mem]
    intro m hm
    have hmem := match_in_context hstart hm (b := b) hleft (match_ends_in hq hm hright)
    exact hz (append_eq_nil_iff.mp (h.1 _ hmem)).2

end

section

variable {p q : Regex} (hp : p.Closed w) (hq : q.Closed w) (hstart : q.Leads w ∨ q.Indifferent w)

include hp

/-- Behind a match stands no word. -/
theorem match_closes {b : Bool} {m s : Text} (h : p.find w (b, m ++ s) = some s) :
    Start w (after w b m) s := by
  obtain ⟨f, hf⟩ := find_eq_some h
  exact .inr (hp.closes _ _ hf).2

omit hp

theorem match_leads (hlead : p.Leads w) {b : Bool} {m s : Text}
    (h : p.find w (b, m ++ s) = some s) : b = true → (m ++ s).head?.any w = false := by
  obtain ⟨f, hf⟩ := find_eq_some h
  intro hb
  have hne := hlead _ _ hf
  rw [hb] at hne
  simpa using hne

include hp hq hstart

/-- What each gap in front of a match has, and that the last gap holds no match. -/
theorem Segmented.gaps {P : Text → Prop}
    (hgap : ∀ {b : Bool} {g m s : Text}, Free w q b g (m ++ s) →
      p.find w (after w b g, m ++ s) = some s → Start w b (g ++ (m ++ s)) → P g)
    {b : Bool} (h : Segmented w p b s l g)
    (hfree : Free w q b s [] ∨ q = p) (hleft : Start w b s) :
    (∀ x ∈ l, P x.1) ∧ Free w q false g [] := by
  induction h with
  | @last b g hg =>
    have hg : Free w q b g [] := hfree.elim id fun he => he ▸ hg
    refine ⟨nofun, free_gap hq hstart hg (fun _ => rfl) (.inr ⟨rfl, ?_⟩)⟩
    rwa [append_nil]
  | @cons b g m s l g' hg hm hne hs ih =>
    have hparts : Free w q b g (m ++ s) ∧ (Free w q (after w b (g ++ m)) s [] ∨ q = p) := by
      rcases hfree with hfree | he
      · rw [← append_assoc, free_append, free_append, append_nil] at hfree
        exact ⟨hfree.1.1, .inl hfree.2⟩
      · exact ⟨he ▸ hg, .inr he⟩
    have hclosed : Start w (after w b (g ++ m)) s := by
      rw [after_append]
      exact match_closes hp hm
    obtain ⟨hl, hlast⟩ := ih hparts.2 hclosed
    exact ⟨forall_mem_cons.mpr ⟨hgap hparts.1 hm hleft, hl⟩, hlast⟩

/-- **The gaps between matches that begin and end at edges** hold no match the text does not. -/
theorem Segmented.free_gaps (hlead : p.Leads w) {b : Bool}
    (h : Segmented w p b s l g) (hfree : Free w q b s [] ∨ q = p) (hleft : Start w b s) :
    (∀ x ∈ l, Free w q false x.1 []) ∧ Free w q false g [] :=
  h.gaps hp hq hstart
    (fun hf hm hs => free_gap hq hstart hf (match_leads hlead hm) (.inr ⟨rfl, hs⟩)) hfree hleft

/-- **Before matches that may begin within a word** a gap may hold a match that reaches its end. -/
theorem Segmented.only_gaps {b : Bool}
    (h : Segmented w p b s l g) (hfree : Free w q b s [] ∨ q = p) (hleft : Start w b s) :
    (∀ x ∈ l, Only w q false x.1 []) ∧ Free w q false g [] :=
  h.gaps hp hq hstart (fun hf _ hs => only_gap hstart hf (.inr ⟨rfl, hs⟩)) hfree hleft

/-- A match that reaches the end of the text lies in the last gap. -/
theorem Segmented.only_last (hlead : p.Leads w) {b : Bool}
    (h : Segmented w p b s l g) (honly : Only w q b s []) (hleft : Start w b s) :
    (∀ x ∈ l, Free w q false x.1 []) ∧ Only w q false g [] := by
  induction h with
  | @last b g hg => exact ⟨nofun, only_gap_of_only hstart honly (.inr ⟨rfl, hleft⟩)⟩
  | @cons b g m s l g' hg hm hne hs ih =>
    have hclosed : Start w (after w b (g ++ m)) s := by
      rw [after_append]
      exact match_closes hp hm
    rw [← append_assoc, only_append, only_append, append_nil] at honly
    obtain ⟨hl, hlast⟩ := ih honly.2 hclosed
    have hgap := free_gap_of_only hq hstart honly.1.1 (append_ne_nil_of_left_ne_nil hne s)
      (match_leads hlead hm) (.inr ⟨rfl, hleft⟩)
    exact ⟨forall_mem_cons.mpr ⟨hgap, hl⟩, hlast⟩

end

/-! ## 4. Texts with marks between them -/

section

variable {r : Regex} (hr : r.Solid w) {x : Char} (hx : w x = false) (hrx : r.Avoids x)

include hr

theorem ends_nil (b : Bool) : r.ends w (b, []) = [] := by
  rw [eq_nil_iff_forall_not_mem]
  intro m hm
  exact absurd (hr _ m hm) (Nat.not_lt_zero _)

include hx hrx

theorem free_stop (b : Bool) (s z : Text) :
    Free w r b (s ++ x :: z) [] ↔ Free w r b s [] ∧ Free w r false z [] := by
  induction s generalizing b with
  | nil =>
    have hnone : r.ends w (b, x :: (z ++ [])) = [] :=
      (ends_stop_nil hx r hrx b [] _).mpr (ends_nil hr b)
    rw [nil_append, Free, Free, hnone, hx]
    exact and_congr_left fun _ => iff_of_true rfl trivial
  | cons c s ih =>
    have hsame : r.ends w (b, c :: (s ++ x :: z ++ [])) = [] ↔ r.ends w (b, c :: (s ++ [])) = [] := by
      rw [append_nil, append_nil]
      exact ends_stop_nil hx r hrx b (c :: s) z
    rw [cons_append, Free, Free, ih, hsame, and_assoc]

/-- The search starts anew behind a mark. -/
theorem scan_stop (b : Bool) (skip : Nat) (s z : Text) (hskip : skip ≤ s.length) :
    r.scan w skip b (s ++ x :: z) = r.scan w skip b s ++ .kept x :: r.scan w 0 false z := by
  induction s generalizing b skip with
  | nil =>
    obtain rfl := Nat.le_zero.mp hskip
    rw [nil_append, scan_kept ((ends_stop_nil hx r hrx b [] z).mpr (ends_nil hr b)), hx]
    rfl
  | cons c s ih =>
    cases skip with
    | succ skip => exact ih (w c) skip (Nat.le_of_succ_le_succ hskip)
    | zero =>
      have hfind : r.find w (b, c :: (s ++ x :: z)) =
          (r.find w (b, c :: s)).map fun t => t ++ x :: z := by
        have hends : r.ends w (b, c :: (s ++ x :: z)) = _ := ends_stop hx r hrx b (c :: s) z
        rw [find, find, hends, List.head?_map, Option.map_map, Option.map_map]
        rfl
      rw [cons_append, scan, scan, hfind]
      cases hcase : r.find w (b, c :: s) with
      | none =>
        rw [Option.map_none]
        exact congrArg _ (ih (w c) 0 (Nat.zero_le _))
      | some t =>
        obtain ⟨f, hf⟩ := find_eq_some hcase
        have hlt : t.length < s.length + 1 := hr _ _ hf
        have hlength : (s ++ x :: z).length - (t ++ x :: z).length = s.length - t.length := by
          simp only [length_append]
          omega
        have htake : (c :: (s ++ x :: z)).take ((s ++ x :: z).length + 1 - (t ++ x :: z).length) =
            (c :: s).take (s.length + 1 - t.length) := by
          have hcount : (s ++ x :: z).length + 1 - (t ++ x :: z).length = s.length + 1 - t.length := by
            simp only [length_append]
            omega
          rw [hcount, ← cons_append]
          refine take_append_of_le_length ?_
          rw [length_cons]
          omega
        simp only [Option.map_some, hlength, htake, cons_append]
        rw [ih (w c) (s.length - t.length) (Nat.sub_le _ _)]

theorem replaceAll_stop (f : Text → Text) (s z : Text) :
    replaceAll w r f (s ++ x :: z) = replaceAll w r f s ++ x :: replaceAll w r f z := by
  rw [replaceAll, scan_stop hr hx hrx false 0 s z (Nat.zero_le _), flatMap_append,
    flatMap_cons]
  rfl

end

/-- Where nothing matches, nothing is replaced. -/
theorem replaceAll_free (h : Free w r false s []) (f : Text → Text) :
    replaceAll w r f s = s := by
  have hscan : ∀ b u, Free w r b u [] → (r.scan w 0 b u).flatMap (Piece.render f) = u := by
    intro b u hu
    induction u generalizing b with
    | nil => rfl
    | cons c u ih =>
      rw [Free, append_nil] at hu
      rw [scan_kept hu.1, flatMap_cons, ih _ hu.2]
      rfl
  exact hscan false s h

/-- A text between two characters that end a text for the expression, itself without a match. -/
def Marker (w : Char → Bool) (r : Regex) (t : Text) : Prop :=
  ∃ x i y, t = x :: (i ++ [y]) ∧ w x = false ∧ r.Avoids x ∧ w y = false ∧ r.Avoids y ∧
    Free w r false i []

section

variable {r : Regex} (hr : r.Solid w) {t : Text} (ht : Marker w r t)

include hr ht

theorem free_marker (b : Bool) (s z : Text) :
    Free w r b (s ++ t ++ z) [] ↔ Free w r b s [] ∧ Free w r false z [] := by
  obtain ⟨x, i, y, rfl, hx, hrx, hy, hry, hi⟩ := ht
  have htext : s ++ x :: (i ++ [y]) ++ z = s ++ x :: (i ++ y :: z) := by simp
  rw [htext, free_stop hr hx hrx, free_stop hr hy hry]
  exact and_congr_right fun _ => and_iff_right hi

theorem replaceAll_marker (f : Text → Text) (s z : Text) :
    replaceAll w r f (s ++ t ++ z) = replaceAll w r f s ++ t ++ replaceAll w r f z := by
  obtain ⟨x, i, y, rfl, hx, hrx, hy, hry, hi⟩ := ht
  have htext : s ++ x :: (i ++ [y]) ++ z = s ++ x :: (i ++ y :: z) := by simp
  rw [htext, replaceAll_stop hr hx hrx, replaceAll_stop hr hy hry, replaceAll_free hi]
  simp

/-- **A text with marks for its matches** is free where its gaps are. -/
theorem free_marked (l : List (Text × Text)) (g : Text) :
    Free w r false (l.flatMap (fun p => p.1 ++ t) ++ g) [] ↔
      (∀ p ∈ l, Free w r false p.1 []) ∧ Free w r false g [] := by
  induction l with
  | nil => simp
  | cons p l ih =>
    rw [flatMap_cons, append_assoc, free_marker hr ht, ih, forall_mem_cons, and_assoc]

theorem replaceAll_marked (f : Text → Text) (l : List (Text × Text)) (g : Text) :
    replaceAll w r f (l.flatMap (fun p => p.1 ++ t) ++ g) =
      l.flatMap (fun p => replaceAll w r f p.1 ++ t) ++ replaceAll w r f g := by
  induction l with
  | nil => rfl
  | cons p l ih =>
    rw [flatMap_cons, append_assoc, replaceAll_marker hr ht, ih, flatMap_cons,
      ← append_assoc]

end

end Regex

end Veesker
