/-
  File:      Veesker/Editor/Destructive.lean
  Subject:   WHAT THE EDITOR ASKS ABOUT (src/lib/sql-safety.ts): the rules, and the two expressions
             that take the comments out of a text before the rules are tried.

  The expressions know no literals: block comments go first, wherever they seem to start, and line
  comments after them. `blank` is that reading on the text itself -- every character of what seems
  to be a comment is a blank, so every other character keeps its place.

  * `detectDestructive_iff` -- **something is found exactly if one of the words stands in
    `blank sql`**, whatever the text.
-/
import Veesker.Text.Runs
import Veesker.Lexis.Statement
import Veesker.Safety.Leading

namespace Veesker.Editor

open Lexis Pattern List

/-! ## 1. The rules -/

/-- `Severity`. -/
inductive Severity where
  | critical | destructive | warning
  deriving DecidableEq

structure DestructiveOp where
  keyword : Text
  severity : Severity
  description : Text
  deriving DecidableEq

structure Rule where
  pattern : Pattern
  keyword : Text
  severity : Severity
  description : Text

/-- `/\bWORD\b/i`. -/
def wholeWord (w : Text) : Pattern := .seq .wordEdge (.seq (.any ([w].map wordI)) .wordEdge)

/-- `/\bCREATE\s+OR\s+REPLACE\b/i`. -/
def createOrReplace : Pattern :=
  .all [.wordEdge, wordI "CREATE".toList, spaces, wordI "OR".toList, spaces,
    wordI "REPLACE".toList, .wordEdge]

/-- `RULES`. -/
def rules : List Rule :=
  [⟨wholeWord "DROP".toList, "DROP".toList, .critical, "Removes object permanently".toList⟩,
    ⟨wholeWord "TRUNCATE".toList, "TRUNCATE".toList, .critical,
      "Removes all rows; not rollbackable in Oracle".toList⟩,
    ⟨wholeWord "DELETE".toList, "DELETE".toList, .destructive,
      "Removes rows permanently".toList⟩,
    ⟨wholeWord "UPDATE".toList, "UPDATE".toList, .destructive, "Modifies existing data".toList⟩,
    ⟨wholeWord "MERGE".toList, "MERGE".toList, .destructive, "May update or delete rows".toList⟩,
    ⟨wholeWord "ALTER".toList, "ALTER".toList, .warning, "Modifies object structure".toList⟩,
    ⟨createOrReplace, "CREATE OR REPLACE".toList, .warning, "Overwrites existing object".toList⟩]

/-! ## 2. Taking the comments out -/

/-- How many characters a match of `/\/\*[\s\S]*?\*\//` that starts here has behind the first. -/
def blockAt (c : Char) (cs : Text) : Option Nat :=
  if c = '/' ∧ cs.head? = some '*' then (cutBlock cs.tail).map fun p => p.1.length + 1 else none

/-- `sql.replace(/\/\*[\s\S]*?\*\//g, " ")`, with the characters of a match still to pass. -/
def replaceBlocks : Nat → Text → Text
  | _, [] => []
  | n + 1, _ :: cs => replaceBlocks n cs
  | 0, c :: cs =>
    match blockAt c cs with
    | some n => ' ' :: replaceBlocks n cs
    | none => c :: replaceBlocks 0 cs

/-- The same for the expression `--[^\n]*`; the flag says whether a match is being passed. -/
def replaceLines : Bool → Text → Text
  | _, [] => []
  | true, c :: cs => if c = '\n' then c :: replaceLines false cs else replaceLines true cs
  | false, c :: cs =>
    if c = '-' ∧ cs.head? = some '-' then ' ' :: replaceLines true cs
    else c :: replaceLines false cs

def stripComments (sql : Text) : Text := replaceLines false (replaceBlocks 0 sql)

/-- One rule of the loop, with the keywords seen and the operations found. -/
def tryRule (stripped : Text) (found : List Text × List DestructiveOp) (rule : Rule) :
    List Text × List DestructiveOp :=
  if rule.keyword ∉ found.1 ∧ rule.pattern.search stripped = true then
    (found.1 ++ [rule.keyword], found.2 ++ [⟨rule.keyword, rule.severity, rule.description⟩])
  else found

def detectDestructive (sql : Text) : List DestructiveOp :=
  (rules.foldl (tryRule (stripComments sql)) ([], [])).2

/-! ## 3. The same on the text itself -/

/-- Block comments, as they seem, blanked. -/
def blankBlocks : Nat → Text → Text
  | _, [] => []
  | n + 1, _ :: cs => ' ' :: blankBlocks n cs
  | 0, c :: cs =>
    match blockAt c cs with
    | some n => ' ' :: blankBlocks n cs
    | none => c :: blankBlocks 0 cs

/-- Line comments, as they seem, blanked. -/
def blankLines : Bool → Text → Text
  | _, [] => []
  | true, c :: cs => if c = '\n' then c :: blankLines false cs else ' ' :: blankLines true cs
  | false, c :: cs =>
    if c = '-' ∧ cs.head? = some '-' then ' ' :: blankLines true cs else c :: blankLines false cs

/-- A text with blanks for everything that a reading without literals takes for a comment. -/
def blank (sql : Text) : Text := blankLines false (blankBlocks 0 sql)

/-! ## 4. Blanks for blanks -/

/-- The second text is the first one with further blanks behind some of its blanks. -/
inductive Padded : Text → Text → Prop where
  | nil : Padded [] []
  | cons (c : Char) {s t : Text} (h : Padded s t) : Padded (c :: s) (c :: t)
  | pad {s t : Text} (h : Padded (' ' :: s) t) : Padded (' ' :: s) (' ' :: t)

variable {s t : Text}

/-- A match that is passed leaves one blank here and blanks there. -/
theorem padded_replaceBlocks (s : Text) (n : Nat) :
    Padded (' ' :: replaceBlocks n s) (' ' :: blankBlocks n s) ∧
      Padded (replaceBlocks 0 s) (blankBlocks 0 s) := by
  induction s generalizing n with
  | nil => cases n <;> exact ⟨.cons _ .nil, .nil⟩
  | cons c cs ih =>
    have hzero : Padded (replaceBlocks 0 (c :: cs)) (blankBlocks 0 (c :: cs)) := by
      rw [replaceBlocks, blankBlocks]
      split
      · exact (ih _).1
      · exact .cons c (ih 0).2
    cases n with
    | zero => exact ⟨.cons _ hzero, hzero⟩
    | succ n => exact ⟨.pad (ih n).1, hzero⟩

theorem Padded.head (h : Padded s t) : s.head? = t.head? := by
  cases h <;> rfl

/-- Line comments begin and end alike in the two. -/
theorem padded_replaceLines (h : Padded s t) :
    Padded (' ' :: replaceLines true s) (' ' :: blankLines true t) ∧
      Padded (replaceLines false s) (blankLines false t) := by
  induction h with
  | nil => exact ⟨.cons _ .nil, .nil⟩
  | @cons c s t h ih =>
    constructor
    · rw [replaceLines, blankLines]
      split
      · exact .cons _ (.cons c ih.2)
      · exact .pad ih.1
    · rw [replaceLines, blankLines, h.head]
      split
      · exact ih.1
      · exact .cons c ih.2
  | @pad s t h ih =>
    have hblank : ¬ (' ' = '-' ∧ t.head? = some '-') := fun e => absurd e.1 (by decide)
    constructor
    · rw [blankLines, if_neg (by decide)]
      exact .pad ih.1
    · have h2 := ih.2
      rw [blankLines, if_neg hblank]
      rw [replaceLines, if_neg (fun e => absurd e.1 (by decide))] at h2 ⊢
      exact .pad h2

theorem padded_stripComments (sql : Text) : Padded (stripComments sql) (blank sql) :=
  (padded_replaceLines (padded_replaceBlocks sql 0).2).2

/-- The two have the same words. -/
theorem Padded.runs_eq (h : Padded s t) : runs s = runs t := by
  suffices hacc : ∀ acc, runsFrom acc s = runsFrom acc t from hacc []
  induction h with
  | nil => exact fun _ => rfl
  | cons c _ ih =>
    intro acc
    rw [runsFrom, runsFrom, ih, ih]
  | @pad s t _ ih =>
    intro acc
    have hb : isWordChar ' ' = false := by decide
    have hsplit : ∀ u, runsFrom acc (' ' :: u) = ended acc ++ runsFrom [] u := fun u => by
      rw [runsFrom, hb, if_neg Bool.false_ne_true]
    rw [hsplit t, ← ih [], hsplit s, runsFrom, hb, if_neg Bool.false_ne_true]
    rfl

/-- A cut of the first text is a cut of the second. -/
theorem Padded.split (h : Padded s t) {a b : Text} (hs : s = a ++ b) :
    ∃ a' b', t = a' ++ b' ∧ Padded a a' ∧ Padded b b' := by
  induction h generalizing a b with
  | nil =>
    obtain ⟨rfl, rfl⟩ := append_eq_nil_iff.mp hs.symm
    exact ⟨[], [], rfl, .nil, .nil⟩
  | @cons c s t h ih =>
    cases a with
    | nil =>
      obtain rfl : c :: s = b := hs
      exact ⟨[], c :: t, rfl, .nil, .cons c h⟩
    | cons x a =>
      obtain ⟨rfl, hs'⟩ := List.cons.inj hs
      obtain ⟨a', b', rfl, ha, hb⟩ := ih hs'
      exact ⟨c :: a', b', rfl, .cons c ha, hb⟩
  | @pad s t h ih =>
    cases a with
    | nil =>
      obtain rfl : ' ' :: s = b := hs
      exact ⟨[], ' ' :: t, rfl, .nil, .pad h⟩
    | cons x a =>
      obtain ⟨rfl, hs'⟩ := List.cons.inj hs
      obtain ⟨a', b', rfl, ha, hb⟩ := ih hs
      exact ⟨' ' :: a', b', rfl, .pad ha, hb⟩

/-- A cut of the second text is one of the first, unless it is before a blank. -/
theorem Padded.unsplit (h : Padded s t) {a' b' : Text} (ht : t = a' ++ b')
    (hb' : b'.head? ≠ some ' ') : ∃ a b, s = a ++ b ∧ Padded a a' ∧ Padded b b' := by
  induction h generalizing a' b' with
  | nil =>
    obtain ⟨rfl, rfl⟩ := append_eq_nil_iff.mp ht.symm
    exact ⟨[], [], rfl, .nil, .nil⟩
  | @cons c s t h ih =>
    cases a' with
    | nil =>
      obtain rfl : c :: t = b' := ht
      exact ⟨[], c :: s, rfl, .nil, .cons c h⟩
    | cons x a' =>
      obtain ⟨rfl, ht'⟩ := List.cons.inj ht
      obtain ⟨a, b, rfl, ha, hb⟩ := ih ht' hb'
      exact ⟨c :: a, b, rfl, .cons c ha, hb⟩
  | @pad s t h ih =>
    cases a' with
    | nil =>
      obtain rfl : ' ' :: t = b' := ht
      exact absurd rfl hb'
    | cons x a' =>
      obtain ⟨rfl, ht'⟩ := List.cons.inj ht
      obtain ⟨a, b, hs, ha, hb⟩ := ih ht' hb'
      cases a with
      | nil =>
        obtain rfl : ' ' :: s = b := hs
        exact absurd hb.head.symm hb'
      | cons y a =>
        obtain ⟨rfl, -⟩ := List.cons.inj hs
        exact ⟨' ' :: a, b, hs, .pad ha, hb⟩

/-- Where there are no blanks the two are the same. -/
theorem Padded.eq (h : Padded s t) (hb : ' ' ∉ s ∨ ' ' ∉ t) : s = t := by
  induction h with
  | nil => rfl
  | cons c _ ih =>
    rw [ih (hb.imp (fun h hm => h (mem_cons_of_mem _ hm))
      fun h hm => h (mem_cons_of_mem _ hm))]
  | pad _ _ => exact (hb.elim (fun h => h mem_cons_self) fun h => h mem_cons_self).elim

/-- The two have the same characters. -/
theorem Padded.mem_iff (h : Padded s t) (c : Char) : c ∈ s ↔ c ∈ t := by
  induction h with
  | nil => rfl
  | cons d _ ih => rw [mem_cons, mem_cons, ih]
  | @pad s t _ ih =>
    rw [ih, mem_cons (a := c) (b := ' ') (l := t)]
    refine ⟨Or.inr, fun h => h.elim (fun e => ih.mp (e ▸ mem_cons_self)) id⟩

theorem Padded.getLast (h : Padded s t) : s.getLast? = t.getLast? := by
  induction h with
  | nil => rfl
  | cons c _ ih => rw [List.getLast?_cons, List.getLast?_cons, ih]
  | @pad s t h ih =>
    rw [ih, List.getLast?_cons]
    cases ht : t.getLast? with
    | none =>
      rw [List.getLast?_eq_none_iff] at ht
      rw [ht] at h
      cases h
    | some c => rfl

/-! ## 5. What the rules find -/

/-- The words that the rules of one word name. -/
def destructiveWords : List Text :=
  ["DROP".toList, "TRUNCATE".toList, "DELETE".toList, "UPDATE".toList, "MERGE".toList,
    "ALTER".toList]

/-- White space, and some of it. -/
def IsGap (d : Text) : Prop := d ≠ [] ∧ ∀ c ∈ d, isSpace c = true

/-- The text has CREATE OR REPLACE in it. -/
def HasCreateOrReplace (s : Text) : Prop :=
  ∃ a create d or_ e replace b, s = a ++ (create ++ (d ++ (or_ ++ (e ++ (replace ++ b))))) ∧
    create.map Char.toUpper = "CREATE".toList ∧ or_.map Char.toUpper = "OR".toList ∧
    replace.map Char.toUpper = "REPLACE".toList ∧ IsGap d ∧ IsGap e ∧ EdgeAfter a ∧ EdgeBefore b

/-- One of the words stands in the text outside what a reading without literals takes for a
    comment. -/
def Visible (sql : Text) : Prop :=
  (∃ r ∈ runs (blank sql), r.map Char.toUpper ∈ destructiveWords) ∨ HasCreateOrReplace (blank sql)

/-- Where `\s+` ends. -/
theorem mem_ends_spaces_iff {k m : Cursor} : m ∈ spaces.ends k ↔
    ∃ d, IsGap d ∧ k.rest = d ++ m.rest ∧ m.prev = d.getLast? := by
  have hmany : ∀ (p : Option Char) (s : Text), m ∈ manyEnds isSpace p s ↔
      ∃ d, (∀ c ∈ d, isSpace c = true) ∧ s = d ++ m.rest ∧ m.prev = (d.getLast?).or p := by
    intro p s
    constructor
    · intro h
      obtain ⟨d, h1, h2, h3⟩ := mem_manyEnds_prev h
      exact ⟨d, h3, h1, h2⟩
    · intro ⟨d, hd, hs, hp⟩
      induction d generalizing p s with
      | nil =>
        obtain ⟨prev, rest⟩ := m
        obtain rfl : prev = p := hp
        obtain rfl : s = rest := hs
        cases s <;> exact mem_cons_self
      | cons c d ih =>
        rw [hs, cons_append, manyEnds, if_pos (hd c mem_cons_self)]
        refine mem_cons_of_mem _ (ih _ _ (fun x hx => hd x (mem_cons_of_mem _ hx)) rfl ?_)
        rw [hp, List.getLast?_cons]
        cases d.getLast? <;> rfl
  rw [spaces, mem_ends_seq]
  constructor
  · intro ⟨l, hl, hm⟩
    obtain ⟨c, s, hk, hc, rfl⟩ := mem_ends_one.mp hl
    obtain ⟨d, hd, hs, hp⟩ := (hmany _ _).mp hm
    refine ⟨c :: d, ⟨cons_ne_nil _ _, fun x hx => ?_⟩, by rw [hk, hs]; rfl, ?_⟩
    · rcases mem_cons.mp hx with rfl | hx
      · exact hc
      · exact hd x hx
    · rw [hp, List.getLast?_cons]
      cases d.getLast? <;> rfl
  · intro ⟨d, ⟨hne, hd⟩, hk, hp⟩
    cases d with
    | nil => exact absurd rfl hne
    | cons c d =>
      refine ⟨⟨some c, d ++ m.rest⟩, mem_ends_one.mpr ⟨c, _, hk, hd c mem_cons_self, rfl⟩,
        (hmany _ _).mpr ⟨d, fun x hx => hd x (mem_cons_of_mem _ hx), rfl, ?_⟩⟩
      rw [hp, List.getLast?_cons]
      cases d.getLast? <;> rfl

/-- A text that is a word in capitals is a word. -/
theorem word_of_upper {v w : Text} (h : v.map Char.toUpper = w) (hw : ∀ c ∈ w, isWordChar c = true)
    (c : Char) (hc : c ∈ v) : isWordChar c = true := by
  rw [← isWordChar_toUpper]
  exact hw _ (h ▸ mem_map_of_mem hc)

theorem wordEdge_before {a v b : Text} (hne : v ≠ []) (hv : ∀ c ∈ v, isWordChar c = true) :
    (isWordAt a.getLast? != isWordAt (v ++ b).head?) = true ↔ EdgeAfter a := by
  have hhead : isWordAt (v ++ b).head? = true := by
    cases v with
    | nil => exact absurd rfl hne
    | cons c v => exact hv c mem_cons_self
  rw [hhead]
  constructor
  · intro h c hc
    rw [hc] at h
    simpa [isWordAt] using h
  · intro h
    cases hl : a.getLast? with
    | none => rfl
    | some c =>
      have := h c hl
      simp [isWordAt, this]

theorem wordEdge_after {v b : Text} {p : Option Char} (hne : v ≠ [])
    (hv : ∀ c ∈ v, isWordChar c = true) :
    (isWordAt ((v.getLast?).or p) != isWordAt b.head?) = true ↔ EdgeBefore b := by
  have hlast : isWordAt ((v.getLast?).or p) = true := by
    rw [List.getLast?_eq_some_getLast hne]
    exact hv _ (getLast_mem hne)
  rw [hlast]
  constructor
  · intro h c hc
    rw [hc] at h
    simpa [isWordAt] using h
  · intro h
    cases hl : b.head? with
    | none => rfl
    | some c =>
      have := h c hl
      simp [isWordAt, this]

theorem ne_nil_of_upper {v w : Text} (h : v.map Char.toUpper = w) (hw : w ≠ []) : v ≠ [] := by
  intro e
  rw [e] at h
  exact hw h.symm

theorem createOrReplace_search (s : Text) :
    createOrReplace.search s = true ↔ HasCreateOrReplace s := by
  have hcreate : ∀ c ∈ "CREATE".toList, isWordChar c = true :=
    all_eq_true.mp (by decide)
  have hreplace : ∀ c ∈ "REPLACE".toList, isWordChar c = true :=
    all_eq_true.mp (by decide)
  rw [search_iff]
  constructor
  · intro ⟨a, b, m, hs, hm⟩
    obtain ⟨k, hk, hm⟩ := mem_ends_seq.mp hm
    obtain ⟨rfl, he⟩ := mem_ends_wordEdge.mp hk
    obtain ⟨l1, h1, hm⟩ := mem_ends_seq.mp hm
    obtain ⟨v1, hv1, hu1, hp1⟩ := mem_ends_wordI_iff.mp h1
    obtain ⟨l2, h2, hm⟩ := mem_ends_seq.mp hm
    obtain ⟨d, hd, hv2, hp2⟩ := mem_ends_spaces_iff.mp h2
    obtain ⟨l3, h3, hm⟩ := mem_ends_seq.mp hm
    obtain ⟨v3, hv3, hu3, hp3⟩ := mem_ends_wordI_iff.mp h3
    obtain ⟨l4, h4, hm⟩ := mem_ends_seq.mp hm
    obtain ⟨e, hgap, hv4, hp4⟩ := mem_ends_spaces_iff.mp h4
    obtain ⟨l5, h5, hm⟩ := mem_ends_seq.mp hm
    obtain ⟨v5, hv5, hu5, hp5⟩ := mem_ends_wordI_iff.mp h5
    obtain ⟨l6, h6, -⟩ := mem_ends_seq.mp hm
    obtain ⟨rfl, he'⟩ := mem_ends_wordEdge.mp h6
    have hb : b = v1 ++ l1.rest := hv1
    have hne1 := ne_nil_of_upper hu1 (by decide)
    have hne5 := ne_nil_of_upper hu5 (by decide)
    refine ⟨a, v1, d, v3, e, v5, l6.rest, by rw [hs, hb, hv2, hv3, hv4, hv5], hu1, hu3, hu5, hd,
      hgap, (wordEdge_before hne1 (word_of_upper hu1 hcreate)).mp (hb ▸ he), ?_⟩
    rw [hp5] at he'
    exact (wordEdge_after hne5 (word_of_upper hu5 hreplace)).mp he'
  · intro ⟨a, v1, d, v3, e, v5, b, hs, hu1, hu3, hu5, hd, hgap, ha, hb⟩
    have hne1 := ne_nil_of_upper hu1 (by decide)
    have hne5 := ne_nil_of_upper hu5 (by decide)
    refine ⟨a, v1 ++ (d ++ (v3 ++ (e ++ (v5 ++ b)))), ⟨v5.getLast?.or e.getLast?, b⟩, hs, ?_⟩
    refine mem_ends_seq.mpr ⟨⟨a.getLast?, _⟩, mem_ends_wordEdge.mpr ⟨rfl, ?_⟩, ?_⟩
    · exact (wordEdge_before hne1 (word_of_upper hu1 hcreate)).mpr ha
    refine mem_ends_seq.mpr ⟨⟨v1.getLast?.or a.getLast?, _⟩,
      mem_ends_wordI_iff.mpr ⟨v1, rfl, hu1, rfl⟩, ?_⟩
    refine mem_ends_seq.mpr ⟨⟨d.getLast?, _⟩, mem_ends_spaces_iff.mpr ⟨d, hd, rfl, rfl⟩, ?_⟩
    refine mem_ends_seq.mpr ⟨⟨v3.getLast?.or d.getLast?, _⟩,
      mem_ends_wordI_iff.mpr ⟨v3, rfl, hu3, rfl⟩, ?_⟩
    refine mem_ends_seq.mpr ⟨⟨e.getLast?, _⟩, mem_ends_spaces_iff.mpr ⟨e, hgap, rfl, rfl⟩, ?_⟩
    refine mem_ends_seq.mpr ⟨⟨v5.getLast?.or e.getLast?, b⟩,
      mem_ends_wordI_iff.mpr ⟨v5, rfl, hu5, rfl⟩, ?_⟩
    refine mem_ends_seq.mpr ⟨⟨v5.getLast?.or e.getLast?, b⟩, mem_ends_wordEdge.mpr ⟨rfl, ?_⟩, ?_⟩
    · exact (wordEdge_after hne5 (word_of_upper hu5 hreplace)).mpr hb
    · exact mem_singleton_self _

theorem space_notMem {v w : Text} (h : v.map Char.toUpper = w)
    (hw : ∀ c ∈ w, isWordChar c = true) : ' ' ∉ v := fun hm =>
  absurd (word_of_upper h hw _ hm) (by decide)

theorem IsGap.padded {d d' : Text} (h : Padded d d') : IsGap d ↔ IsGap d' := by
  have hne : d = [] ↔ d' = [] := by
    rw [← List.head?_eq_none_iff, h.head, List.head?_eq_none_iff]
  rw [IsGap, IsGap, Ne, hne]
  exact and_congr_right fun _ => forall_congr' fun c => by rw [h.mem_iff]

/-- Further blanks neither make the three words nor break them. -/
theorem Padded.createOrReplace_iff (h : Padded s t) :
    HasCreateOrReplace s ↔ HasCreateOrReplace t := by
  have hcreate : ∀ c ∈ "CREATE".toList, isWordChar c = true :=
    all_eq_true.mp (by decide)
  have hor : ∀ c ∈ "OR".toList, isWordChar c = true :=
    all_eq_true.mp (by decide)
  have hreplace : ∀ c ∈ "REPLACE".toList, isWordChar c = true :=
    all_eq_true.mp (by decide)
  have hstart : ∀ {v w : Text} (r : Text), v.map Char.toUpper = w → w ≠ [] →
      (∀ c ∈ w, isWordChar c = true) → (v ++ r).head? ≠ some ' ' := by
    intro v w r hu hne hw he
    cases v with
    | nil => exact hne hu.symm
    | cons c v =>
      cases he
      exact space_notMem hu hw mem_cons_self
  constructor
  · intro ⟨a, v1, d, v3, e, v5, b, hs, hu1, hu3, hu5, hd, hgap, ha, hb⟩
    obtain ⟨a', t1, rfl, pa, p⟩ := h.split hs
    obtain ⟨w1, t2, rfl, p1, p⟩ := p.split rfl
    obtain ⟨d', t3, rfl, pd, p⟩ := p.split rfl
    obtain ⟨w3, t4, rfl, p3, p⟩ := p.split rfl
    obtain ⟨e', t5, rfl, pe, p⟩ := p.split rfl
    obtain ⟨w5, b', rfl, p5, pb⟩ := p.split rfl
    obtain rfl := p1.eq (.inl (space_notMem hu1 hcreate))
    obtain rfl := p3.eq (.inl (space_notMem hu3 hor))
    obtain rfl := p5.eq (.inl (space_notMem hu5 hreplace))
    exact ⟨a', v1, d', v3, e', v5, b', rfl, hu1, hu3, hu5, (IsGap.padded pd).mp hd,
      (IsGap.padded pe).mp hgap, fun c hc => ha c (pa.getLast.trans hc),
      fun c hc => hb c (pb.head.trans hc)⟩
  · intro ⟨a', v1, d', v3, e', v5, b', ht, hu1, hu3, hu5, hd, hgap, ha, hb⟩
    -- behind a word the cut is found from the word's own characters
    have hword : ∀ {v s r' : Text}, ' ' ∉ v → Padded s (v ++ r') →
        ∃ r, s = v ++ r ∧ Padded r r' := by
      intro v
      induction v with
      | nil => exact fun _ p => ⟨_, rfl, p⟩
      | cons c v ih =>
        intro s r' hv p
        cases p with
        | cons _ p =>
          obtain ⟨r, rfl, pr⟩ := ih (fun hm => hv (mem_cons_of_mem _ hm)) p
          exact ⟨r, rfl, pr⟩
        | pad _ => exact absurd mem_cons_self hv
    obtain ⟨a, s1, hs, pa, p1⟩ := h.unsplit ht (hstart _ hu1 (by decide) hcreate)
    obtain ⟨s2, rfl, p2⟩ := hword (space_notMem hu1 hcreate) p1
    obtain ⟨d, s3, rfl, pd, p3⟩ := p2.unsplit rfl (hstart _ hu3 (by decide) hor)
    obtain ⟨s4, rfl, p4⟩ := hword (space_notMem hu3 hor) p3
    obtain ⟨e, s5, rfl, pe, p5⟩ := p4.unsplit rfl (hstart _ hu5 (by decide) hreplace)
    obtain ⟨b, rfl, pb⟩ := hword (space_notMem hu5 hreplace) p5
    exact ⟨a, v1, d, v3, e, v5, b, hs, hu1, hu3, hu5, (IsGap.padded pd).mpr hd,
      (IsGap.padded pe).mpr hgap, fun c hc => ha c (pa.getLast.symm.trans hc),
      fun c hc => hb c (pb.head.symm.trans hc)⟩

/-- The loop finds something exactly if a rule matches. -/
theorem foldl_tryRule (stripped : Text) (rs : List Rule) (found : List Text × List DestructiveOp)
    (hfound : found.1 = [] ↔ found.2 = []) :
    (rs.foldl (tryRule stripped) found).2 = [] ↔
      found.2 = [] ∧ ∀ r ∈ rs, r.pattern.search stripped = false := by
  induction rs generalizing found with
  | nil => simp
  | cons r rs ih =>
    rw [foldl_cons, tryRule, forall_mem_cons]
    split
    · rename_i h
      rw [ih _ (by simp)]
      simp [h.2]
    · rename_i h
      rw [ih _ hfound]
      constructor
      · intro ⟨h2, hall⟩
        refine ⟨h2, Bool.eq_false_iff.mpr fun hr => h ⟨?_, hr⟩, hall⟩
        rw [hfound.mpr h2]
        exact not_mem_nil
      · exact fun ⟨h2, _, hall⟩ => ⟨h2, hall⟩

theorem wholeWord_search {w : Text} (hw : w ≠ [] ∧ ∀ c ∈ w, isWordChar c = true) (s : Text) :
    (wholeWord w).search s = true ↔ ∃ r ∈ runs s, r.map Char.toUpper = w := by
  have hws : AreWords [w] := by
    intro v hv
    rw [mem_singleton.mp hv]
    exact hw
  rw [wholeWord, search_words hws]
  exact exists_congr fun r => and_congr_right fun _ => mem_singleton

theorem destructiveWords_words : AreWords destructiveWords := by
  have h : destructiveWords.all (fun w => !w.isEmpty && w.all isWordChar) = true := by
    decide
  intro w hw
  have hw := all_eq_true.mp h w hw
  rw [Bool.and_eq_true, Bool.not_eq_true', isEmpty_eq_false_iff] at hw
  exact ⟨hw.1, all_eq_true.mp hw.2⟩

/-- **Something is found exactly if one of the words stands outside what seems a comment.** -/
theorem detectDestructive_iff (sql : Text) : detectDestructive sql ≠ [] ↔ Visible sql := by
  have hp := padded_stripComments sql
  rw [detectDestructive, Ne, foldl_tryRule _ _ _ (iff_of_true rfl rfl)]
  have hwords : ∀ w ∈ destructiveWords, ((wholeWord w).search (stripComments sql) = true ↔
      ∃ r ∈ runs (blank sql), r.map Char.toUpper = w) := fun w hw => by
    rw [wholeWord_search (destructiveWords_words w hw), hp.runs_eq]
  have hthree : createOrReplace.search (stripComments sql) = true ↔
      HasCreateOrReplace (blank sql) := by
    rw [createOrReplace_search, hp.createOrReplace_iff]
  have hrules : rules.map Rule.pattern = destructiveWords.map wholeWord ++ [createOrReplace] := rfl
  have hall : (∀ r ∈ rules, r.pattern.search (stripComments sql) = false) ↔
      ∀ p ∈ rules.map Rule.pattern, p.search (stripComments sql) = false := by simp
  rw [hall, hrules, and_iff_right rfl]
  simp only [forall_mem_append, forall_mem_map, forall_mem_singleton,
    not_and_or, Bool.not_eq_false, hthree]
  rw [Visible]
  refine or_congr ?_ Iff.rfl
  push Not
  constructor
  · intro ⟨w, hw, hs⟩
    obtain ⟨r, hr, hu⟩ := (hwords w hw).mp (by simpa using hs)
    exact ⟨r, hr, hu ▸ hw⟩
  · intro ⟨r, hr, hw⟩
    exact ⟨_, hw, by simpa using (hwords _ hw).mpr ⟨r, hr, rfl⟩⟩

-- A literal with a comment's start in it hides the DROP behind it.
example : detectDestructive "SELECT '/*' FROM dual;DROP TABLE t;--*/".toList = [] := by
  decide

/-! ## 6. What it should find -/

/-- What a statement says first, as Oracle reads it. -/
def leadingWords (st : Text) : List Text := (tokens st).map Token.keyword

/-- A DELETE, UPDATE, MERGE, TRUNCATE, DROP, ALTER or CREATE OR REPLACE. -/
def isDestructive (st : Text) : Bool :=
  (leadingWords st).head?.any destructiveWords.contains ||
    (leadingWords st).take 3 == ["CREATE".toList, "OR".toList, "REPLACE".toList]

end Veesker.Editor
