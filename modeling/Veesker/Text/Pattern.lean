/-
  File:      Veesker/Text/Pattern.lean
  Subject:   ANCHORED PATTERNS, as the set of places where a match can end.

  A `Pattern` is what a regular expression of the source is built of: a character of a class, one
  after the other, a choice, a repeated class, a word edge. `ends` gives every place where a match
  from a cursor can stop, so `test` is the expression's `test` whatever the order in which an
  engine tries (greedy, lazy and backtracking engines differ in WHICH match they find, not in
  whether there is one).

  * `ends_suffix` -- a match ends further on in the same text;
  * `test_word_all` -- a pattern that starts with a word only matches a text that does;
  * `Stops` -- that a match can stop at a given place, whatever stands before it, part by part.

  Nothing here names the repository.
-/
import Veesker.Text.Js

namespace Veesker

open List

/-- A place in a text: the character before it, and the text from it on. -/
structure Cursor where
  prev : Option Char
  rest : Text
  deriving DecidableEq

inductive Pattern where
  | empty
  | one (p : Char → Bool)
  | seq (a b : Pattern)
  | alt (a b : Pattern)
  | many (p : Char → Bool)
  | wordEdge

namespace Pattern

/-- The ends of the matches of `p*` from a cursor. -/
def manyEnds (p : Char → Bool) : Option Char → Text → List Cursor
  | prev, [] => [⟨prev, []⟩]
  | prev, c :: cs => ⟨prev, c :: cs⟩ :: (if p c then manyEnds p (some c) cs else [])

/-- Whether a word character stands there. -/
def isWordAt (c : Option Char) : Bool := c.any isWordChar

/-- Every place where a match from the cursor can end. -/
def ends : Pattern → Cursor → List Cursor
  | empty, k => [k]
  | one p, ⟨_, c :: cs⟩ => if p c then [⟨some c, cs⟩] else []
  | one _, ⟨_, []⟩ => []
  | seq a b, k => (ends a k).flatMap (ends b)
  | alt a b, k => ends a k ++ ends b k
  | many p, ⟨prev, s⟩ => manyEnds p prev s
  | wordEdge, k => if isWordAt k.prev != isWordAt k.rest.head? then [k] else []

/-- `/^…/.test(s)`. -/
def test (p : Pattern) (s : Text) : Bool := !(p.ends ⟨none, s⟩).isEmpty

/-- A word, letter by letter. -/
def word : Text → Pattern
  | [] => empty
  | c :: cs => seq (one (· == c)) (word cs)

/-- A word under the flag `i`, itself given in upper case. -/
def wordI : Text → Pattern
  | [] => empty
  | c :: cs => seq (one (fun d => d.toUpper == c)) (wordI cs)

/-- `\s+`. -/
def spaces : Pattern := seq (one isSpace) (many isSpace)

/-- `\s*`. -/
def spaces0 : Pattern := many isSpace

/-- `(?:p)?`. -/
def opt (p : Pattern) : Pattern := alt p empty

def all : List Pattern → Pattern
  | [] => empty
  | p :: ps => seq p (all ps)

def any : List Pattern → Pattern
  | [] => one fun _ => false
  | [p] => p
  | p :: ps => alt p (any ps)

/-! ## The rules of matching -/

section

-- The equations of these definitions, made once for the proofs below.
attribute [local simp] manyEnds ends

end

variable {k m : Cursor}

theorem mem_ends_seq {a b : Pattern} :
    m ∈ (seq a b).ends k ↔ ∃ l ∈ a.ends k, m ∈ b.ends l := by
  simp [ends, mem_flatMap]

theorem mem_ends_alt {a b : Pattern} :
    m ∈ (alt a b).ends k ↔ m ∈ a.ends k ∨ m ∈ b.ends k := by
  simp [ends]

variable {p : Char → Bool}

theorem mem_ends_one :
    m ∈ (one p).ends k ↔ ∃ c cs, k.rest = c :: cs ∧ p c = true ∧ m = ⟨some c, cs⟩ := by
  obtain ⟨prev, s⟩ := k
  cases s with
  | nil => simp [ends]
  | cons c cs =>
    by_cases h : p c = true
    · simp [ends, h]
    · simp [ends, h]

theorem mem_manyEnds {prev : Option Char} {s : Text} {m : Cursor}
    (h : m ∈ manyEnds p prev s) : ∃ d, s = d ++ m.rest ∧ ∀ c ∈ d, p c = true := by
  induction s generalizing prev with
  | nil =>
    simp only [manyEnds, mem_singleton] at h
    exact ⟨[], by rw [h]; rfl, by simp⟩
  | cons c s ih =>
    simp only [manyEnds, mem_cons] at h
    rcases h with rfl | h
    · exact ⟨[], rfl, by simp⟩
    · by_cases hc : p c = true
      · rw [if_pos hc] at h
        obtain ⟨d, hd, hall⟩ := ih h
        exact ⟨c :: d, by rw [hd]; rfl, by simpa [hc] using hall⟩
      · rw [if_neg hc] at h
        cases h

theorem test_iff {p : Pattern} {s : Text} : p.test s = true ↔ ∃ m, m ∈ p.ends ⟨none, s⟩ := by
  unfold test
  cases h : p.ends ⟨none, s⟩ with
  | nil => simp
  | cons m ms => simp

/-- Where a word ends. -/
theorem mem_ends_word {w : Text} (h : m ∈ (word w).ends k) :
    k.rest = w ++ m.rest := by
  induction w generalizing k with
  | nil =>
    simp only [word, ends, mem_singleton] at h
    rw [h]
    rfl
  | cons c w ih =>
    obtain ⟨l, hl, hm⟩ := mem_ends_seq.mp h
    obtain ⟨d, cs, hk, hd, rfl⟩ := mem_ends_one.mp hl
    rw [hk, eq_of_beq hd, cons_append, ← ih hm]

theorem mem_ends_wordI {w : Text} (h : m ∈ (wordI w).ends k) :
    ∃ v, k.rest = v ++ m.rest ∧ v.map Char.toUpper = w := by
  induction w generalizing k with
  | nil =>
    simp only [wordI, ends, mem_singleton] at h
    exact ⟨[], by rw [h]; rfl, rfl⟩
  | cons c w ih =>
    obtain ⟨l, hl, hm⟩ := mem_ends_seq.mp h
    obtain ⟨d, cs, hk, hd, rfl⟩ := mem_ends_one.mp hl
    obtain ⟨v, hv, hw⟩ := ih hm
    refine ⟨d :: v, ?_, ?_⟩
    · rw [hk, cons_append, ← hv]
    · rw [map_cons, eq_of_beq hd, hw]

/-- A pattern of parts that starts with a word matches only a text that does. -/
theorem test_word_all {w : Text} {ps : List Pattern} {s : Text}
    (h : (all (word w :: ps)).test s = true) : ∃ k, s = w ++ k.rest ∧ (all ps).ends k ≠ [] := by
  obtain ⟨m, hm⟩ := test_iff.mp h
  obtain ⟨k, hk, hm'⟩ := mem_ends_seq.mp hm
  exact ⟨k, mem_ends_word hk, ne_nil_of_mem hm'⟩

/-- **A match ends further on in the same text.** -/
theorem ends_suffix (p : Pattern) (h : m ∈ p.ends k) : m.rest <:+ k.rest := by
  induction p generalizing k m with
  | empty =>
    obtain rfl := mem_singleton.mp h
    exact suffix_rfl
  | one p =>
    obtain ⟨c, cs, hk, -, rfl⟩ := mem_ends_one.mp h
    rw [hk]
    exact suffix_cons c cs
  | seq a b iha ihb =>
    obtain ⟨l, hl, hm⟩ := mem_ends_seq.mp h
    exact (ihb hm).trans (iha hl)
  | alt a b iha ihb =>
    rcases mem_ends_alt.mp h with h | h
    · exact iha h
    · exact ihb h
  | many p =>
    obtain ⟨d, hd, -⟩ := mem_manyEnds h
    exact ⟨d, hd.symm⟩
  | wordEdge =>
    unfold ends at h
    split at h
    · obtain rfl := mem_singleton.mp h
      exact suffix_rfl
    · cases h

/-- Every part of a pattern of parts is matched somewhere. -/
theorem mem_ends_all {ps : List Pattern} (h : m ∈ (all ps).ends k) {p : Pattern}
    (hp : p ∈ ps) : ∃ l l', l.rest <:+ k.rest ∧ l' ∈ p.ends l := by
  induction ps generalizing k with
  | nil => cases hp
  | cons q ps ih =>
    obtain ⟨l, hl, hm⟩ := mem_ends_seq.mp h
    rcases mem_cons.mp hp with rfl | hp
    · exact ⟨k, l, suffix_rfl, hl⟩
    · obtain ⟨j, j', hj, hj'⟩ := ih hm hp
      exact ⟨j, j', hj.trans (ends_suffix q hl), hj'⟩

/-! ## Where a match can stop -/

/-- From `s`, a match of the pattern can stop with `u` left over. -/
def Stops (p : Pattern) (s u : Text) : Prop :=
  ∀ prev, ∃ m ∈ p.ends ⟨prev, s⟩, m.rest = u

theorem Stops.test {p : Pattern} {s u : Text} (h : Stops p s u) : p.test s = true := by
  obtain ⟨m, hm, -⟩ := h none
  exact test_iff.mpr ⟨m, hm⟩

theorem stops_one {c : Char} (h : p c = true) (u : Text) :
    Stops (one p) (c :: u) u := by
  intro prev
  exact ⟨⟨some c, u⟩, mem_ends_one.mpr ⟨c, u, rfl, h, rfl⟩, rfl⟩

theorem Stops.seq {a b : Pattern} {s t u : Text} (ha : Stops a s t) (hb : Stops b t u) :
    Stops (.seq a b) s u := by
  intro prev
  obtain ⟨⟨before, rest⟩, hl, rfl⟩ := ha prev
  obtain ⟨m, hm, hu⟩ := hb before
  exact ⟨m, mem_ends_seq.mpr ⟨_, hl, hm⟩, hu⟩

theorem stops_word (w u : Text) : Stops (word w) (w ++ u) u := by
  induction w with
  | nil => exact fun prev => ⟨⟨prev, u⟩, mem_singleton_self _, rfl⟩
  | cons c w ih => exact (stops_one (by simp) (w ++ u)).seq ih

/-- A word that is in upper case already. -/
theorem stops_wordI {w : Text} (h : ∀ c ∈ w, c.toUpper = c) (u : Text) :
    Stops (wordI w) (w ++ u) u := by
  induction w with
  | nil => exact fun prev => ⟨⟨prev, u⟩, mem_singleton_self _, rfl⟩
  | cons c w ih =>
    have hc : c.toUpper = c := h c mem_cons_self
    exact (stops_one (by simp [hc]) (w ++ u)).seq (ih fun d hd => h d (mem_cons_of_mem _ hd))

theorem stops_many {b : Text} (h : ∀ c ∈ b, p c = true) (u : Text) :
    Stops (many p) (b ++ u) u := by
  induction b with
  | nil =>
    intro prev
    refine ⟨⟨prev, u⟩, ?_, rfl⟩
    cases u with
    | nil => exact mem_singleton_self _
    | cons c u => exact mem_cons_self
  | cons c b ih =>
    intro prev
    obtain ⟨m, hm, hu⟩ := ih (fun d hd => h d (mem_cons_of_mem _ hd)) (some c)
    refine ⟨m, mem_cons_of_mem _ ?_, hu⟩
    rw [if_pos (h c mem_cons_self)]
    exact hm

theorem stops_spaces {b : Text} (hne : b ≠ []) (h : ∀ c ∈ b, isSpace c = true) (u : Text) :
    Stops spaces (b ++ u) u := by
  obtain ⟨c, b, rfl⟩ := exists_cons_of_ne_nil hne
  exact (stops_one (h c mem_cons_self) _).seq
    (stops_many (fun d hd => h d (mem_cons_of_mem _ hd)) u)

theorem Stops.opt {p : Pattern} {s u : Text} (h : Stops p s u) : Stops (.opt p) s u := by
  intro prev
  obtain ⟨m, hm, hu⟩ := h prev
  exact ⟨m, mem_ends_alt.mpr (.inl hm), hu⟩

theorem stops_skip (p : Pattern) (s : Text) : Stops (.opt p) s s := by
  intro prev
  exact ⟨⟨prev, s⟩, mem_ends_alt.mpr (.inr (mem_singleton_self _)), rfl⟩

theorem stops_all_nil (s : Text) : Stops (all []) s s :=
  fun prev => ⟨⟨prev, s⟩, mem_singleton_self _, rfl⟩

theorem Stops.all_cons {p : Pattern} {ps : List Pattern} {s t u : Text} (hp : Stops p s t)
    (hps : Stops (.all ps) t u) : Stops (.all (p :: ps)) s u :=
  hp.seq hps

end Pattern

end Veesker
