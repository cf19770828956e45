/-
  File:      Veesker/Text/Runs.lean
  Subject:   THE WORDS BETWEEN WORD EDGES: the maximal runs of `\w` in a text, and what an
             expression `\b(?:…|…)\b` without anchor finds.

  * `mem_runs` -- a run is what stands between two edges;
  * `runs_append` -- texts that do not touch in two word characters are read apart;
  * `search_words` -- **`/\b(?:w₁|…|wₙ)\b/i` finds something exactly if some run is a `wᵢ`**;
  * `lead` -- the run a text starts with after its white space (`/^(\w+)/` on a trimmed text).

  Nothing here names the repository.
-/
import Veesker.Text.Pattern
import Veesker.Lexis.Words

namespace Veesker

open List

/-! ## 1. Runs -/

/-- What is read of a run when it ends. -/
def ended (acc : Text) : List Text := if acc = [] then [] else [acc]

/-- The runs of a text when `acc` is read already. -/
def runsFrom : Text → Text → List Text
  | acc, [] => ended acc
  | acc, c :: s => if isWordChar c then runsFrom (acc ++ [c]) s else ended acc ++ runsFrom [] s

/-- The maximal runs of word characters. -/
def runs (s : Text) : List Text := runsFrom [] s

/-- No word character starts the text. -/
def EdgeBefore (s : Text) : Prop := ∀ c, s.head? = some c → isWordChar c = false

/-- No word character ends the text. -/
def EdgeAfter (s : Text) : Prop := ∀ c, s.getLast? = some c → isWordChar c = false

section

-- The equations of these definitions, made once for the proofs below.
attribute [local simp] ended runsFrom runs

end

theorem edgeBefore_nil : EdgeBefore [] := fun _ h => absurd h nofun

theorem edgeBefore_cons {c : Char} (h : isWordChar c = false) (s : Text) : EdgeBefore (c :: s) :=
  fun _ hd => Option.some.inj hd ▸ h

theorem edgeAfter_nil : EdgeAfter [] := fun _ h => absurd h nofun

variable {s : Text}

theorem edgeAfter_of_all (h : ∀ c ∈ s, isWordChar c = false) : EdgeAfter s :=
  fun c hc => h c (mem_of_getLast? hc)

theorem runsFrom_words {w : Text} (h : ∀ c ∈ w, isWordChar c = true) (acc s : Text) :
    runsFrom acc (w ++ s) = runsFrom (acc ++ w) s := by
  induction w generalizing acc with
  | nil => rw [nil_append, append_nil]
  | cons c w ih =>
    rw [cons_append, runsFrom, if_pos (h c mem_cons_self),
      ih (fun d hd => h d (mem_cons_of_mem _ hd)), append_assoc, singleton_append]

theorem runsFrom_edge (h : EdgeBefore s) (acc : Text) :
    runsFrom acc s = ended acc ++ runs s := by
  cases s with
  | nil => exact (append_nil _).symm
  | cons c s =>
    have hc := h c rfl
    rw [runs, runsFrom, runsFrom, hc]
    rfl

theorem runsFrom_append {t : Text} (h : EdgeBefore t) (acc s : Text) :
    runsFrom acc (s ++ t) = runsFrom acc s ++ runs t := by
  induction s generalizing acc with
  | nil => exact runsFrom_edge h acc
  | cons c s ih =>
    rw [cons_append, runsFrom, runsFrom]
    split
    · exact ih _
    · rw [ih, append_assoc]

theorem runs_cons_edge {c : Char} (h : isWordChar c = false) (s : Text) : runs (c :: s) = runs s := by
  rw [runs, runsFrom, h]
  rfl

/-- **Two texts that do not touch in two word characters.** -/
theorem runs_append {s t : Text} (h : EdgeAfter s ∨ EdgeBefore t) :
    runs (s ++ t) = runs s ++ runs t := by
  rcases h with h | h
  · rcases eq_nil_or_concat s with rfl | ⟨s, c, rfl⟩
    · rfl
    · have hc : isWordChar c = false := h c (by rw [concat_eq_append]; simp)
      have hcut : ∀ r, runs (s ++ c :: r) = runs s ++ runs r := fun r => by
        rw [runs, runsFrom_append (edgeBefore_cons hc r), runs_cons_edge hc]
        rfl
      rw [concat_eq_append, append_assoc, singleton_append, hcut t, hcut []]
      exact congrArg (· ++ runs t) (append_nil _).symm
  · exact runsFrom_append h [] s

theorem runs_word {w : Text} (hne : w ≠ []) (h : ∀ c ∈ w, isWordChar c = true) : runs w = [w] := by
  have := runsFrom_words h [] []
  rw [append_nil, nil_append] at this
  rw [runs, this, runsFrom, ended, if_neg hne]

theorem runs_of_none (h : ∀ c ∈ s, isWordChar c = false) : runs s = [] := by
  induction s with
  | nil => rfl
  | cons c s ih =>
    rw [runs_cons_edge (h c mem_cons_self)]
    exact ih fun d hd => h d (mem_cons_of_mem _ hd)

theorem mem_runsFrom {acc s r : Text} (hacc : ∀ c ∈ acc, isWordChar c = true)
    (h : r ∈ runsFrom acc s) : r ≠ [] ∧ (∀ c ∈ r, isWordChar c = true) ∧
      ∃ a b, acc ++ s = a ++ (r ++ b) ∧ EdgeAfter a ∧ EdgeBefore b := by
  induction s generalizing acc with
  | nil =>
    rw [runsFrom, ended] at h
    split at h
    · cases h
    · rename_i hne
      obtain rfl := mem_singleton.mp h
      exact ⟨hne, hacc, [], [], rfl, edgeAfter_nil, edgeBefore_nil⟩
  | cons c s ih =>
    rw [runsFrom] at h
    split at h
    · rename_i hc
      have hacc' : ∀ d ∈ acc ++ [c], isWordChar d = true := by
        intro d hd
        rcases mem_append.mp hd with hd | hd
        · exact hacc d hd
        · rwa [mem_singleton.mp hd]
      obtain ⟨h1, h2, a, b, e, ha, hb⟩ := ih hacc' h
      exact ⟨h1, h2, a, b, by rw [← e, append_assoc]; rfl, ha, hb⟩
    · rename_i hc
      have hc : isWordChar c = false := by simpa using hc
      rcases mem_append.mp h with h | h
      · rw [ended] at h
        split at h
        · cases h
        · rename_i hne
          obtain rfl := mem_singleton.mp h
          exact ⟨hne, hacc, [], c :: s, rfl, edgeAfter_nil, edgeBefore_cons hc s⟩
      · obtain ⟨h1, h2, a, b, e, ha, hb⟩ := ih (fun _ hd => absurd hd not_mem_nil) h
        refine ⟨h1, h2, acc ++ c :: a, b, ?_, fun d hd => ?_, hb⟩
        · rw [append_assoc, cons_append, ← e]
          rfl
        · rw [List.getLast?_append_cons, List.getLast?_cons] at hd
          cases hl : a.getLast? with
          | none =>
            rw [hl] at hd
            exact Option.some.inj hd ▸ hc
          | some x =>
            rw [hl] at hd
            exact ha d (hl.trans hd)

/-- **A run is a stretch of word characters between two edges.** -/
theorem mem_runs {s r : Text} : r ∈ runs s ↔ r ≠ [] ∧ (∀ c ∈ r, isWordChar c = true) ∧
    ∃ a b, s = a ++ (r ++ b) ∧ EdgeAfter a ∧ EdgeBefore b := by
  constructor
  · intro h
    exact mem_runsFrom (fun _ hd => absurd hd not_mem_nil) h
  · rintro ⟨hne, hr, a, b, rfl, ha, hb⟩
    rw [runs_append (Or.inl ha), runs_append (Or.inr hb), runs_word hne hr]
    simp

/-! ## 2. White space -/

theorem isWordChar_of_space {c : Char} (h : isSpace c = true) : isWordChar c = false := by
  by_contra hw
  have hw : c.isAlphanum = true ∨ c = '_' := by
    rwa [Bool.not_eq_false, isWordChar, Bool.or_eq_true, beq_iff_eq] at hw
  have hi : Lexis.isIdentChar c = true := by
    rcases hw with hw | rfl
    · simp [Lexis.isIdentChar, hw]
    · decide
  rw [Lexis.isIdentChar_not_space hi] at h
  cases h

theorem runsFrom_collapse (s : Text) : (∀ acc, runsFrom acc (collapseFrom false s) = runsFrom acc s) ∧
    runs (collapseFrom true s) = runs s := by
  induction s with
  | nil => exact ⟨fun _ => rfl, rfl⟩
  | cons c s ih =>
    by_cases hc : isSpace c = true
    · have hw := isWordChar_of_space hc
      have hsp : isWordChar ' ' = false := by decide
      refine ⟨fun acc => ?_, ?_⟩
      · rw [collapseFrom, if_pos hc, if_neg Bool.false_ne_true, runsFrom, runsFrom, hw, hsp]
        exact congrArg (ended acc ++ ·) ih.2
      · rw [collapseFrom, if_pos hc, if_pos rfl, runs_cons_edge hw]
        exact ih.2
    · have hstep : ∀ acc, runsFrom acc (c :: collapseFrom false s) = runsFrom acc (c :: s) := by
        intro acc
        rw [runsFrom, runsFrom, ih.1, ih.1]
      refine ⟨fun acc => ?_, ?_⟩
      · rw [collapseFrom, if_neg hc]
        exact hstep acc
      · rw [collapseFrom, if_neg hc]
        exact hstep []

theorem runs_collapse (s : Text) : runs (collapse s) = runs s := (runsFrom_collapse s).1 []

theorem runs_trim (s : Text) : runs (trim s) = runs s := by
  have hstart : runs (trimStart s) = runs s := by
    obtain ⟨d, e, hd⟩ := trimStart_split s
    have hd : ∀ c ∈ d, isWordChar c = false := fun c hc => isWordChar_of_space (hd c hc)
    conv_rhs => rw [e]
    rw [runs_append (Or.inl (edgeAfter_of_all hd)), runs_of_none hd, nil_append]
  obtain ⟨d, e, hd⟩ := rdropWhile_split isSpace (trimStart s)
  have hd : ∀ c ∈ d, isWordChar c = false := fun c hc => isWordChar_of_space (hd c hc)
  have hedge : EdgeBefore d := fun c hc => hd c (mem_of_mem_head? hc)
  rw [← hstart]
  conv_rhs => rw [e]
  rw [runs_append (Or.inr hedge), runs_of_none hd, append_nil]
  rfl

/-- The run at the start of a text, its white space left out. -/
def lead (s : Text) : Text := (trimStart s).takeWhile isWordChar

theorem lead_space {d : Text} (h : ∀ c ∈ d, isSpace c = true) (s : Text) : lead (d ++ s) = lead s := by
  rw [lead, trimStart, dropWhile_append_of_pos h]
  rfl

theorem lead_edge {c : Char} (hs : isSpace c = false) (hw : isWordChar c = false) (s : Text) :
    lead (c :: s) = [] := by
  rw [lead, trimStart, dropWhile_cons_of_neg (by rw [hs]; exact Bool.false_ne_true),
    takeWhile_cons_of_neg (by rw [hw]; exact Bool.false_ne_true)]

/-- What follows a text does not matter where an edge is between. -/
theorem lead_append {c : Char} {s t : Text} (hs : isSpace c = false) (ht : EdgeBefore t) :
    lead (c :: s ++ t) = (c :: s).takeWhile isWordChar := by
  have hcut : ∀ u : Text, (u ++ t).takeWhile isWordChar = u.takeWhile isWordChar := by
    intro u
    induction u with
    | nil =>
      cases t with
      | nil => rfl
      | cons d t => exact takeWhile_cons_of_neg (by rw [ht d rfl]; exact Bool.false_ne_true)
    | cons d u ih =>
      rw [cons_append, takeWhile_cons, takeWhile_cons, ih]
  rw [lead, trimStart, cons_append, dropWhile_cons_of_neg (by rw [hs]; exact Bool.false_ne_true)]
  exact hcut (c :: s)

theorem takeWhile_collapse (s : Text) :
    (collapseFrom false s).takeWhile isWordChar = s.takeWhile isWordChar := by
  induction s with
  | nil => rfl
  | cons c s ih =>
    by_cases hc : isSpace c = true
    · have hw := isWordChar_of_space hc
      rw [collapseFrom, if_pos hc, if_neg Bool.false_ne_true,
        takeWhile_cons_of_neg (by decide),
        takeWhile_cons_of_neg (by rw [hw]; exact Bool.false_ne_true)]
    · rw [collapseFrom, if_neg hc, takeWhile_cons, takeWhile_cons, ih]

theorem lead_collapseFrom (s : Text) (b : Bool) : lead (collapseFrom b s) = lead s := by
  induction s generalizing b with
  | nil => rfl
  | cons c s ih =>
    by_cases hc : isSpace c = true
    · have hone : ∀ d ∈ [c], isSpace d = true := fun d hd => by rwa [mem_singleton.mp hd]
      have hsp : ∀ d ∈ [' '], isSpace d = true := fun d hd => by
        rw [mem_singleton.mp hd]
        decide
      have hskip : lead (c :: s) = lead s := lead_space hone s
      rw [hskip, collapseFrom, if_pos hc]
      split
      · exact ih true
      · exact (lead_space hsp (collapseFrom true s)).trans (ih true)
    · rw [collapseFrom, if_neg hc]
      have hkeep : ∀ u : Text, lead (c :: u) = (c :: u).takeWhile isWordChar := fun u => by
        rw [lead, trimStart, dropWhile_cons_of_neg hc]
      rw [hkeep, hkeep, takeWhile_cons, takeWhile_cons, takeWhile_collapse]

/-- **`/^(\w+)/` on a text whose white space is collapsed and trimmed.** -/
theorem takeWhile_trim_collapse (s : Text) :
    (trim (collapse s)).takeWhile isWordChar = lead s := by
  rw [← lead_collapseFrom s false]
  obtain ⟨d, e, hd⟩ := rdropWhile_split isSpace (trimStart (collapse s))
  show ((trimStart (collapse s)).rdropWhile isSpace).takeWhile isWordChar =
    (trimStart (collapse s)).takeWhile isWordChar
  conv_rhs => rw [e]
  induction (trimStart (collapse s)).rdropWhile isSpace with
  | nil =>
    cases d with
    | nil => rfl
    | cons c d =>
      refine (takeWhile_cons_of_neg ?_).symm
      rw [isWordChar_of_space (hd c mem_cons_self)]
      exact Bool.false_ne_true
  | cons c u ih => rw [cons_append, takeWhile_cons, takeWhile_cons, ih]

/-! ## 3. Searching -/

/-- The places of a text. -/
def cursors : Option Char → Text → List Cursor
  | prev, [] => [⟨prev, []⟩]
  | prev, c :: s => ⟨prev, c :: s⟩ :: cursors (some c) s

namespace Pattern

/-- `/…/.test(s)` for an expression without anchor. -/
def search (p : Pattern) (s : Text) : Bool := (cursors none s).any fun k => !(p.ends k).isEmpty

theorem mem_cursors {prev : Option Char} {k : Cursor} :
    k ∈ cursors prev s ↔ ∃ a, s = a ++ k.rest ∧ k.prev = (a.getLast?).or prev := by
  induction s generalizing prev with
  | nil =>
    rw [cursors, mem_singleton]
    constructor
    · rintro rfl
      exact ⟨[], rfl, rfl⟩
    · rintro ⟨a, h1, h2⟩
      obtain ⟨rfl, hr⟩ := append_eq_nil_iff.mp h1.symm
      obtain ⟨p, r⟩ := k
      obtain rfl : r = [] := hr
      obtain rfl : p = prev := h2
      rfl
  | cons c s ih =>
    rw [cursors, mem_cons]
    constructor
    · rintro (rfl | h)
      · exact ⟨[], rfl, rfl⟩
      · obtain ⟨a, h1, h2⟩ := ih.mp h
        refine ⟨c :: a, by rw [h1]; rfl, ?_⟩
        rw [h2, List.getLast?_cons]
        cases a.getLast? <;> rfl
    · rintro ⟨a, h1, h2⟩
      cases a with
      | nil =>
        obtain ⟨p, r⟩ := k
        obtain rfl : c :: s = r := h1
        obtain rfl : p = prev := h2
        exact Or.inl rfl
      | cons d a =>
        obtain ⟨rfl, h1'⟩ := List.cons.inj h1
        refine Or.inr (ih.mpr ⟨a, h1', ?_⟩)
        rw [h2, List.getLast?_cons]
        cases a.getLast? <;> rfl

theorem search_iff {p : Pattern} :
    p.search s = true ↔ ∃ a b m, s = a ++ b ∧ m ∈ p.ends ⟨a.getLast?, b⟩ := by
  rw [search, any_eq_true]
  constructor
  · rintro ⟨k, hk, hm⟩
    obtain ⟨a, h1, h2⟩ := mem_cursors.mp hk
    cases he : p.ends k with
    | nil =>
      rw [he] at hm
      cases hm
    | cons m ms =>
      refine ⟨a, k.rest, m, h1, ?_⟩
      rw [Option.or_none] at h2
      rw [← h2, he]
      exact mem_cons_self
  · rintro ⟨a, b, m, h1, h2⟩
    refine ⟨⟨a.getLast?, b⟩, mem_cursors.mpr ⟨a, h1, (Option.or_none).symm⟩, ?_⟩
    cases he : p.ends ⟨a.getLast?, b⟩ with
    | nil =>
      rw [he] at h2
      cases h2
    | cons _ _ => rfl

theorem mem_ends_any {ps : List Pattern} {k m : Cursor} :
    m ∈ (any ps).ends k ↔ ∃ p ∈ ps, m ∈ p.ends k := by
  induction ps with
  | nil =>
    rw [any, mem_ends_one]
    simp
  | cons p ps ih =>
    cases ps with
    | nil => simp [any]
    | cons q ps =>
      rw [any, mem_ends_alt, ih]
      · simp
      · exact cons_ne_nil q ps

theorem mem_ends_wordEdge {k m : Cursor} : m ∈ wordEdge.ends k ↔
    m = k ∧ (isWordAt k.prev != isWordAt k.rest.head?) = true := by
  rw [ends]
  split
  · simp_all
  · simp_all

/-- A word under the flag `i` ends after as many characters as it has. -/
theorem mem_ends_wordI_iff {w : Text} {k m : Cursor} : m ∈ (wordI w).ends k ↔
    ∃ v, k.rest = v ++ m.rest ∧ v.map Char.toUpper = w ∧ m.prev = (v.getLast?).or k.prev := by
  induction w generalizing k with
  | nil =>
    rw [wordI, ends, mem_singleton]
    constructor
    · rintro rfl
      exact ⟨[], rfl, rfl, rfl⟩
    · rintro ⟨v, h1, h2, h3⟩
      obtain rfl : v = [] := map_eq_nil_iff.mp h2
      obtain ⟨p, r⟩ := m
      obtain ⟨p', r'⟩ := k
      obtain rfl : r' = r := h1
      obtain rfl : p = p' := h3
      rfl
  | cons c w ih =>
    rw [wordI, mem_ends_seq]
    constructor
    · rintro ⟨l, hl, hm⟩
      obtain ⟨d, s, hk, hd, rfl⟩ := mem_ends_one.mp hl
      obtain ⟨v, h1, h2, h3⟩ := ih.mp hm
      refine ⟨d :: v, ?_, ?_, ?_⟩
      · rw [hk, cons_append, ← h1]
      · rw [map_cons, eq_of_beq hd, h2]
      · rw [h3, List.getLast?_cons]
        cases v.getLast? <;> rfl
    · rintro ⟨v, h1, h2, h3⟩
      cases v with
      | nil => cases h2
      | cons d v =>
        obtain ⟨h2, h2'⟩ := List.cons.inj h2
        refine ⟨⟨some d, v ++ m.rest⟩, mem_ends_one.mpr ⟨d, _, h1, beq_iff_eq.mpr h2, rfl⟩, ?_⟩
        refine ih.mpr ⟨v, rfl, h2', ?_⟩
        rw [h3, List.getLast?_cons]
        cases v.getLast? <;> rfl

theorem isWordChar_toUpper (c : Char) : isWordChar c.toUpper = isWordChar c := by
  by_cases h : 128 ≤ c.toNat
  · rw [toUpper_foreign h]
  · have hall : ∀ n < 128, isWordChar (Char.ofNat n).toUpper = isWordChar (Char.ofNat n) := by
      decide
    have := hall c.toNat (by omega)
    rwa [Char.ofNat_toNat] at this

/-- The words of a list are words, in upper case or not. -/
def AreWords (ws : List Text) : Prop := ∀ w ∈ ws, w ≠ [] ∧ ∀ c ∈ w, isWordChar c = true

/-- Between two word edges there is a run, where what stands between are word characters. -/
theorem run_between {a v b : Text} (hne : v ≠ []) (hv : ∀ c ∈ v, isWordChar c = true)
    (h1 : (isWordAt a.getLast? != isWordAt (v ++ b).head?) = true)
    (h2 : (isWordAt ((v.getLast?).or a.getLast?) != isWordAt b.head?) = true) :
    v ∈ runs (a ++ (v ++ b)) := by
  have hhead : isWordAt (v ++ b).head? = true := by
    cases v with
    | nil => exact absurd rfl hne
    | cons c v => exact hv c mem_cons_self
  have hlast : isWordAt ((v.getLast?).or a.getLast?) = true := by
    rw [List.getLast?_eq_some_getLast hne]
    exact hv _ (getLast_mem hne)
  rw [hhead] at h1
  rw [hlast] at h2
  refine mem_runs.mpr ⟨hne, hv, a, b, rfl, fun c hc => ?_, fun c hc => ?_⟩
  · rw [hc] at h1
    simpa [isWordAt] using h1
  · rw [hc] at h2
    simpa [isWordAt] using h2

/-- **What an expression of whole words finds.** -/
theorem search_words {ws : List Text} (hws : AreWords ws) (s : Text) :
    (seq wordEdge (seq (any (ws.map wordI)) wordEdge)).search s = true ↔
      ∃ r ∈ runs s, r.map Char.toUpper ∈ ws := by
  rw [search_iff]
  constructor
  · rintro ⟨a, b, m, rfl, hm⟩
    obtain ⟨k, hk, hm⟩ := mem_ends_seq.mp hm
    obtain ⟨rfl, he⟩ := mem_ends_wordEdge.mp hk
    obtain ⟨l, hl, hm⟩ := mem_ends_seq.mp hm
    obtain ⟨rfl, he'⟩ := mem_ends_wordEdge.mp hm
    obtain ⟨p, hp, hl⟩ := mem_ends_any.mp hl
    obtain ⟨w, hw, rfl⟩ := mem_map.mp hp
    obtain ⟨v, h1, h2, h3⟩ := mem_ends_wordI_iff.mp hl
    obtain ⟨hne, hall⟩ := hws w hw
    have h1 : b = v ++ m.rest := h1
    rw [h3] at he'
    rw [h1] at he ⊢
    refine ⟨v, run_between (fun e => ?_) (fun c hc => ?_) he he', by rw [h2]; exact hw⟩
    · rw [e] at h2
      exact hne h2.symm
    · rw [← isWordChar_toUpper]
      exact hall _ (h2 ▸ mem_map_of_mem hc)
  · rintro ⟨r, hr, hmem⟩
    obtain ⟨hne, hall, a, b, rfl, ha, hb⟩ := mem_runs.mp hr
    have hlast : (r.getLast?).or a.getLast? = r.getLast? := by
      rw [List.getLast?_eq_some_getLast hne]
      rfl
    have hword : isWordAt r.getLast? = true := by
      rw [List.getLast?_eq_some_getLast hne]
      exact hall _ (getLast_mem hne)
    have hhead : isWordAt (r ++ b).head? = true := by
      cases r with
      | nil => exact absurd rfl hne
      | cons c r => exact hall c mem_cons_self
    have hbefore : isWordAt a.getLast? = false := by
      cases h : a.getLast? with
      | none => rfl
      | some c => exact ha c h
    have hafter : isWordAt b.head? = false := by
      cases h : b.head? with
      | none => rfl
      | some c => exact hb c h
    refine ⟨a, r ++ b, ⟨r.getLast?, b⟩, rfl, mem_ends_seq.mpr ⟨_, mem_ends_wordEdge.mpr ⟨rfl, ?_⟩,
      mem_ends_seq.mpr ⟨⟨r.getLast?, b⟩, mem_ends_any.mpr ⟨_, mem_map_of_mem hmem,
        mem_ends_wordI_iff.mpr ⟨r, rfl, rfl, hlast.symm⟩⟩, mem_ends_wordEdge.mpr ⟨rfl, ?_⟩⟩⟩⟩
    · rw [hhead, hbefore]
      rfl
    · rw [hword, hafter]
      rfl

theorem mem_manyEnds_prev {p : Char → Bool} {prev : Option Char} {m : Cursor}
    (h : m ∈ manyEnds p prev s) :
    ∃ d, s = d ++ m.rest ∧ m.prev = (d.getLast?).or prev ∧ ∀ c ∈ d, p c = true := by
  induction s generalizing prev with
  | nil =>
    obtain rfl := mem_singleton.mp h
    exact ⟨[], rfl, rfl, fun _ hc => absurd hc not_mem_nil⟩
  | cons c s ih =>
    rw [manyEnds] at h
    rcases mem_cons.mp h with rfl | h
    · exact ⟨[], rfl, rfl, fun _ hc => absurd hc not_mem_nil⟩
    · split at h
      · rename_i hc
        obtain ⟨d, h1, h2, h3⟩ := ih h
        refine ⟨c :: d, by rw [h1]; rfl, ?_, fun x hx => ?_⟩
        · rw [h2, List.getLast?_cons]
          cases d.getLast? <;> rfl
        · rcases mem_cons.mp hx with rfl | hx
          · exact hc
          · exact h3 x hx
      · cases h

/-- An expression that ends in a whole word finds that word as a run. -/
theorem search_last {p : Pattern} {w : Text} (hne : w ≠ []) (hw : ∀ c ∈ w, isWordChar c = true)
    (hp : ∀ k m, m ∈ p.ends k → (∃ d, k.rest = d ++ m.rest ∧ m.prev = (d.getLast?).or k.prev) ∧
      isWordAt m.prev = false)
    (h : (seq p (seq (wordI w) wordEdge)).search s = true) :
    ∃ r ∈ runs s, r.map Char.toUpper = w := by
  obtain ⟨a, b, m, rfl, hm⟩ := search_iff.mp h
  obtain ⟨k, hk, hm⟩ := mem_ends_seq.mp hm
  obtain ⟨l, hl, hm⟩ := mem_ends_seq.mp hm
  obtain ⟨rfl, he⟩ := mem_ends_wordEdge.mp hm
  obtain ⟨v, h1, h2, h3⟩ := mem_ends_wordI_iff.mp hl
  obtain ⟨⟨d, hd, hprev⟩, hedge⟩ := hp _ _ hk
  have hd : b = d ++ k.rest := hd
  have hv : ∀ c ∈ v, isWordChar c = true := fun c hc => by
    rw [← isWordChar_toUpper]
    exact hw _ (h2 ▸ mem_map_of_mem hc)
  have hvne : v ≠ [] := fun e => hne (h2 ▸ congrArg (List.map Char.toUpper) e)
  have hlast : k.prev = (a ++ d).getLast? := by rw [hprev, List.getLast?_append]
  have hhead : isWordAt (v ++ m.rest).head? = true := by
    cases v with
    | nil => exact absurd rfl hvne
    | cons c v => exact hv c mem_cons_self
  refine ⟨v, ?_, h2⟩
  rw [hd, h1, ← append_assoc]
  refine run_between hvne hv ?_ ?_
  · rw [← hlast, hedge, hhead]
    rfl
  · rw [← hlast, ← h3]
    exact he

/-- What `\s+` leaves behind it. -/
theorem mem_ends_spaces {k m : Cursor} (h : m ∈ spaces.ends k) :
    ∃ d, k.rest = d ++ m.rest ∧ m.prev = (d.getLast?).or k.prev ∧ isWordAt m.prev = false := by
  obtain ⟨l, hl, hm⟩ := mem_ends_seq.mp h
  obtain ⟨c, s, hk, hc, rfl⟩ := mem_ends_one.mp hl
  obtain ⟨d, h1, h2, h3⟩ := mem_manyEnds_prev hm
  refine ⟨c :: d, by rw [hk, h1]; rfl, ?_, ?_⟩
  · rw [h2, List.getLast?_cons]
    cases d.getLast? <;> rfl
  · rw [h2]
    cases hl : d.getLast? with
    | none => exact isWordChar_of_space hc
    | some x => exact isWordChar_of_space (h3 x (mem_of_getLast? hl))

end Pattern

end Veesker
