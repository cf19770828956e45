/-
  File:      Veesker/Safety/WhereScan.lean
  Subject:   THE SCAN FOR A TOP-LEVEL `WHERE`, carried back to the text as it was written.

  `isUnsafeBulkDml` looks for `WHERE` in a text that is stripped, upper-cased, collapsed, freed of
  its final `;` and trimmed. `where_pullback` carries what it finds back: where the scan of that
  text finds a `WHERE`, the raw text has one in the same place, in some case, behind white space
  and before a character that is in no word, and the same scan over the raw text up to there is
  outside quotes at depth zero (`Scan.run`). The one thing to check is that no character outside
  ASCII can take part in the match (`upperChar_where`).
-/
import Veesker.Safety.Keywords

namespace Veesker.Safety

open Lexis List

/-! ## 1. The letters of WHERE -/

/-- What the upper case of a character outside ASCII may start with: not `E` or `R`, and behind a
    `W` or `H` stands a character outside ASCII. -/
def noWhereLetter : List Nat → Bool
  | [] => true
  | [u] => !([69, 72, 82, 87].contains u)
  | u :: v :: _ => !([69, 82].contains u) && (!([72, 87].contains u) || decide (128 ≤ v))

theorem upperSpecials_where : upperSpecials.all (fun p => noWhereLetter p.2) = true := by
  decide

theorem upperRuns_where : upperRuns.all (fun r =>
    (decide (r.1 = r.2.1) && noWhereLetter [((r.1 : Int) + r.2.2.2).toNat]) ||
      decide (128 ≤ (r.1 : Int) + r.2.2.2)) = true := by decide

theorem noWhereLetter_of_ge {n : Nat} (h : 128 ≤ n) : noWhereLetter [n] = true := by
  simp [noWhereLetter]
  omega

theorem upperPoint_where {n : Nat} (hn : 128 ≤ n) : noWhereLetter (upperPoint n) = true := by
  unfold upperPoint
  split
  · rename_i us hus
    obtain ⟨l₁, l₂, e, -⟩ := lookup_eq_some_iff.mp hus
    exact all_eq_true.mp upperSpecials_where (n, us) (by rw [e]; simp)
  · split
    · rename_i r hr
      have hp := List.find?_some hr
      have hall := all_eq_true.mp upperRuns_where r (mem_of_find?_eq_some hr)
      obtain ⟨lo, hi, st, off⟩ := r
      simp only [Bool.and_eq_true, decide_eq_true_eq, Bool.or_eq_true] at hp hall
      rcases hall with ⟨e, h⟩ | h
      · have : n = lo := by omega
        rw [this]
        exact h
      · refine noWhereLetter_of_ge ?_
        show 128 ≤ ((n : Int) + off).toNat
        omega
    · exact noWhereLetter_of_ge hn

/-- **No character outside ASCII gives a letter of `WHERE`** that the next letter could follow. -/
theorem upperChar_where {c k : Char} {u : Text} (hc : 128 ≤ c.toNat) (h : upperChar c = k :: u)
    (hk : k ∈ "WHERE".toList) :
    (k = 'W' ∨ k = 'H') ∧ ∃ y u', u = y :: u' ∧ 128 ≤ y.toNat := by
  have hnot : ¬ c.toNat < 128 := by omega
  have hno := upperPoint_where hc
  unfold upperChar at h
  rw [if_neg hnot] at h
  have hgood : ∀ n ∈ upperPoint c.toNat, (Char.ofNat n).toNat = n := by
    rcases upperPoint_cases c.toNat with e | ⟨-, hall⟩
    · rw [e]
      intro n hn
      rw [mem_singleton.mp hn, Char.ofNat_toNat]
    · exact fun n hn => toNat_ofNat_of_good (hall n hn)
  cases hp : upperPoint c.toNat with
  | nil => rw [hp] at h; cases h
  | cons a as =>
    rw [hp] at h hno hgood
    simp only [map_cons, List.cons.injEq] at h
    have ha : k.toNat = a := by rw [← h.1]; exact hgood a mem_cons_self
    have hk' : k.toNat ∈ [87, 72, 69, 82] := by
      have hall : ∀ k ∈ "WHERE".toList, k.toNat ∈ [87, 72, 69, 82] := by simp
      exact hall k hk
    cases as with
    | nil =>
      simp only [noWhereLetter, ← ha] at hno
      simp only [mem_cons, not_mem_nil, or_false] at hk'
      rcases hk' with e | e | e | e <;> rw [e] at hno <;> cases hno
    | cons b bs =>
      have hb : (Char.ofNat b).toNat = b := hgood b (by simp)
      have hkw : ∀ n, k.toNat = n → k = Char.ofNat n := fun n e => by rw [← e, Char.ofNat_toNat]
      simp only [noWhereLetter, ← ha] at hno
      simp only [mem_cons, not_mem_nil, or_false] at hk'
      refine ⟨?_, Char.ofNat b, bs.map Char.ofNat, h.2.symm, ?_⟩
      · rcases hk' with e | e | e | e
        · exact .inl (hkw 87 e)
        · exact .inr (hkw 72 e)
        · rw [e] at hno; cases hno
        · rw [e] at hno; cases hno
      · rw [hb]
        rcases hk' with e | e | e | e <;> rw [e] at hno
        · simpa using hno
        · simpa using hno
        · cases hno
        · cases hno

/-! ## 2. The scan as a state -/

/-- What the scan carries: the depth of parentheses, and the quote it is inside of. -/
structure Scan where
  depth : Int := 0
  inStr : Option Char := none
  deriving DecidableEq

variable {k : Scan} {c : Char}

namespace Scan

def step (k : Scan) (ch : Char) : Scan :=
  match k.inStr with
  | some strCh => if ch = strCh then { k with inStr := none } else k
  | none =>
    if ch = '\'' ∨ ch = '"' then { k with inStr := some ch }
    else if ch = '(' then { k with depth := k.depth + 1 }
    else if ch = ')' then { k with depth := k.depth - 1 }
    else k

def run (k : Scan) (s : Text) : Scan := s.foldl step k

@[simp] theorem run_nil (k : Scan) : k.run [] = k := rfl

@[simp] theorem run_cons (k : Scan) (c : Char) (s : Text) : k.run (c :: s) = (k.step c).run s := rfl

/-- The quote it is inside of is one. -/
def Quoted (k : Scan) : Prop := ∀ q ∈ k.inStr, q = '\'' ∨ q = '"'

theorem Quoted.step (hk : k.Quoted) (c : Char) : (k.step c).Quoted := by
  unfold Scan.step
  repeat' split
  all_goals first
    | exact hk
    | (intro q hq; cases hq)
  assumption

/-- The characters the scan takes no notice of. -/
def isPlain (c : Char) : Bool := c != '\'' && c != '"' && c != '(' && c != ')'

theorem step_plain (hk : k.Quoted) (hc : isPlain c = true) : k.step c = k := by
  simp only [isPlain, Bool.and_eq_true, bne_iff_ne, ne_eq] at hc
  obtain ⟨⟨⟨h1, h2⟩, h3⟩, h4⟩ := hc
  unfold step
  split
  · rename_i q hq
    rcases hk q hq with rfl | rfl
    · rw [if_neg h1]
    · rw [if_neg h2]
  · simp [h1, h2, h3, h4]

theorem isPlain_of_space (h : isSpace c = true) : isPlain c = true := by
  simp only [isPlain, Bool.and_eq_true, bne_iff_ne, ne_eq]
  refine ⟨⟨⟨?_, ?_⟩, ?_⟩, ?_⟩ <;> rintro rfl <;> exact absurd h (by decide)

theorem isPlain_of_upperOrForeign (h : IsUpperOrForeign c) : isPlain c = true := by
  simp only [isPlain, Bool.and_eq_true, bne_iff_ne, ne_eq]
  refine ⟨⟨⟨?_, ?_⟩, ?_⟩, ?_⟩ <;> rintro rfl <;> rcases h with ⟨h, -⟩ | ⟨h, -⟩ <;>
    exact absurd h (by decide)

/-- The scan of an ASCII character does not depend on its case. -/
theorem step_toUpper (hk : k.Quoted) (hc : c.toNat < 128) :
    k.step c.toUpper = k.step c := by
  have h := forall_ascii (P := fun c => c.toUpper = c ∨ (isPlain c = true ∧ isPlain c.toUpper = true))
    (by decide) hc
  rcases h with h | ⟨h1, h2⟩
  · rw [h]
  · rw [step_plain hk h1, step_plain hk h2]

end Scan

/-- The source's test for `WHERE` at a place of the scan. -/
def WhereAt (k : Scan) (prev : Option Char) (s : Text) : Prop :=
  k = {} ∧ toUpperCase (s.take 5) = "WHERE".toList ∧ isSpaceOrEdge prev = true ∧
    isSpaceOrEdge (s.drop 5).head? = true

/-- **One character of the scan**: the test holds here, or the scan goes on. -/
theorem whereFrom_cons {prev : Option Char} {i j : Nat} {ch : Char} {cs : Text}
    (h : whereFrom k.depth k.inStr prev i (ch :: cs) = some j) :
    WhereAt k prev (ch :: cs) ∨
      whereFrom (k.step ch).depth (k.step ch).inStr (some ch) (i + 1) cs = some j := by
  obtain ⟨depth, inStr⟩ := k
  unfold whereFrom at h
  unfold Scan.step
  cases inStr with
  | some q =>
    right
    simp only at h ⊢
    by_cases hq : ch = q
    · simpa [hq] using h
    · simpa [hq] using h
  | none =>
    simp only at h ⊢
    split_ifs at h ⊢ with h1 h2 h3 h4
    · exact .inr h
    · exact .inr h
    · exact .inr h
    · obtain ⟨rfl, -, h5, h6, h7⟩ := h4
      refine .inl ⟨rfl, h5, h6, ?_⟩
      rw [List.head?_drop, List.getElem?_cons_succ]
      exact h7
    · exact .inr h

/-! ## 3. Back to the raw text -/

theorem toUpperCase_where_inv {x kw : Text} (hkw : ∀ k ∈ kw, k ∈ "WHERE".toList)
    (h : toUpperCase x = kw) : x.map Char.toUpper = kw := by
  induction x generalizing kw with
  | nil => exact h
  | cons c x ih =>
    rw [toUpperCase_cons] at h
    obtain ⟨k, u, hu⟩ := exists_cons_of_ne_nil (upperChar_ne_nil c)
    have hascii : ∀ y ∈ kw, y.toNat < 128 := fun y hy => by
      have hall : ∀ k ∈ "WHERE".toList, k.toNat < 128 := by simp
      exact hall y (hkw y hy)
    have hk : k ∈ kw := by rw [← h, hu]; simp
    by_cases hc : c.toNat < 128
    · rw [upperChar_ascii hc] at h
      cases kw with
      | nil => cases h
      | cons k' kw =>
        simp only [singleton_append, List.cons.injEq] at h
        rw [map_cons, h.1, ih (fun y hy => hkw y (mem_cons_of_mem _ hy)) h.2]
    · obtain ⟨-, y, u', hu', hy⟩ := upperChar_where (by omega) hu (hkw k hk)
      have : y ∈ kw := by rw [← h, hu, hu']; simp
      exact absurd (hascii y this) (by omega)

/-- The upper case of a character that is not white space, in front of a collapsed text. -/
theorem collapseFrom_upperChar (hs : isSpace c = false) (flag : Bool) (s : Text) :
    collapseFrom flag (upperChar c ++ s) = upperChar c ++ collapseFrom false s := by
  have hall : ∀ d ∈ upperChar c, isSpace d = false := by
    intro d hd
    by_contra h
    have := (upperChar_of_mem_space hd (by simpa using h)).1
    rw [this] at hs
    cases hs
  obtain ⟨k, u, hu⟩ := exists_cons_of_ne_nil (upperChar_ne_nil c)
  rw [hu] at hall ⊢
  have hk := hall k mem_cons_self
  rw [cons_append, collapseFrom, hk]
  simp only [Bool.false_eq_true, if_false, cons_append, List.cons.injEq, true_and]
  exact collapseFrom_word (fun d hd => hall d (mem_cons_of_mem _ hd)) s

/-- White space in front of a collapsed text. -/
theorem collapseFrom_space (hs : isSpace c = true) (flag : Bool) (s : Text) :
    collapseFrom flag (upperChar c ++ s) =
      if flag then collapseFrom true s else ' ' :: collapseFrom true s := by
  rw [upperChar_space hs, singleton_append, collapseFrom, hs]
  rfl

/-- The letters of a keyword in the collapsed text stand in the raw text. -/
theorem collapse_letters {kw s Y d : Text} (hkw : ∀ k ∈ kw, k ∈ "WHERE".toList)
    (hlast : kw.getLast?.all (· = 'E') = true) (hY : (Y.take kw.length).map Char.toUpper = kw)
    (h : collapseFrom false (toUpperCase s) = Y ++ d) :
    ∃ v b, s = v ++ b ∧ v.map Char.toUpper = kw ∧
      collapseFrom false (toUpperCase b) = Y.drop kw.length ++ d := by
  induction kw generalizing s Y with
  | nil => exact ⟨[], s, rfl, rfl, h⟩
  | cons k kw ih =>
    cases Y with
    | nil => cases hY
    | cons y Y =>
      simp only [length_cons, take_succ_cons, map_cons, List.cons.injEq] at hY
      have hk := hkw k mem_cons_self
      have hk' : isSpace k = false ∧ ' ' ≠ k := by
        have hall : ∀ k ∈ "WHERE".toList, isSpace k = false ∧ ' ' ≠ k := by
          simp only [String.reduceToList, mem_cons, not_mem_nil, or_false]
          rintro k (rfl | rfl | rfl | rfl | rfl) <;> decide
        exact hall k hk
      cases s with
      | nil => cases h
      | cons c s =>
        rw [toUpperCase_cons] at h
        cases hs : isSpace c with
        | true =>
          rw [collapseFrom_space hs] at h
          simp only [Bool.false_eq_true, if_false, cons_append, List.cons.injEq] at h
          rw [← h.1] at hY
          exact absurd hY.1 hk'.2
        | false =>
          rw [collapseFrom_upperChar hs] at h
          by_cases hc : c.toNat < 128
          · rw [upperChar_ascii hc] at h
            simp only [cons_append, nil_append, List.cons.injEq] at h
            have hl : kw.getLast?.all (· = 'E') = true := by
              cases kw with
              | nil => rfl
              | cons k₂ kw => simpa using hlast
            obtain ⟨v, b, e1, e2, e3⟩ := ih (fun x hx => hkw x (mem_cons_of_mem _ hx)) hl hY.2
              h.2
            refine ⟨c :: v, b, by rw [e1]; rfl, ?_, e3⟩
            rw [map_cons, e2, ← hY.1, ← h.1, toUpper_toUpper]
          · exfalso
            obtain ⟨x, u, hu⟩ := exists_cons_of_ne_nil (upperChar_ne_nil c)
            have hux : x.toUpper = x := toUpper_of_mem_toUpperCase (s := [c]) (by simp [hu])
            rw [hu] at h
            simp only [cons_append, List.cons.injEq] at h
            have hxk : x = k := by rw [← hY.1, ← h.1, hux]
            subst hxk
            obtain ⟨hwh, z, u', hu', hz⟩ := upperChar_where (by omega) hu hk
            rw [hu'] at h
            cases kw with
            | nil =>
              have : x = 'E' := by simpa using hlast
              rcases hwh with rfl | rfl <;> exact absurd this (by decide)
            | cons k₂ kw =>
              cases Y with
              | nil => cases hY.2
              | cons y₂ Y =>
                simp only [cons_append, List.cons.injEq] at h
                have hy₂ : y₂.toUpper = k₂ := by simpa using (List.cons.inj hY.2).1
                rw [← h.2.1, toUpper_foreign hz] at hy₂
                have hall : ∀ k ∈ "WHERE".toList, k.toNat < 128 := by simp
                have := hall k₂ (hkw k₂ (by simp))
                rw [← hy₂] at this
                omega

/-- Behind the match stands no character of a word. -/
theorem collapse_boundary {b Y d : Text} (hd : ∀ c ∈ d, isSpace c = true ∨ c = ';')
    (h : collapseFrom false (toUpperCase b) = Y ++ d) (hY : isSpaceOrEdge Y.head? = true) :
    ∀ c, b.head? = some c → isIdentChar c = false := by
  intro c hc
  cases b with
  | nil => cases hc
  | cons c' b =>
    simp only [List.head?_cons, Option.some.injEq] at hc
    subst hc
    by_contra hi
    have hi : isIdentChar c' = true := by simpa using hi
    have hs := isIdentChar_not_space hi
    rw [toUpperCase_cons, collapseFrom_upperChar hs] at h
    obtain ⟨k, u, hu⟩ := exists_cons_of_ne_nil (upperChar_ne_nil c')
    have hk : isSpace k = false := by
      by_contra hk
      have := (upperChar_of_mem_space (c := c') (d := k) (by rw [hu]; simp) (by simpa using hk)).1
      rw [this] at hs
      cases hs
    rw [hu] at h
    cases Y with
    | nil =>
      rcases hd k (by rw [← nil_append d, ← h]; simp) with hsp | rfl
      · rw [hsp] at hk
        cases hk
      · -- a `;` only comes from a `;`
        by_cases hlt : c'.toNat < 128
        · rw [upperChar_ascii hlt] at hu
          have := forall_ascii (P := fun c => isIdentChar c = true → c.toUpper ≠ ';')
            (by decide) hlt hi
          exact this (List.cons.inj hu).1
        · have := (upperChar_foreign (by omega) hs).2 ';' (by rw [hu]; simp)
          rcases this with ⟨h1, -⟩ | ⟨h1, -⟩ <;> exact absurd h1 (by decide)
    | cons y Y =>
      simp only [cons_append, List.cons.injEq] at h
      rw [← h.1] at hY
      simp only [List.head?_cons, isSpaceOrEdge, Option.all_some] at hY
      rw [hY] at hk
      cases hk

/-- The last character of a text, or the one before it. -/
def lastFrom (prev : Option Char) : Text → Option Char
  | [] => prev
  | c :: cs => lastFrom (some c) cs

/-- A `WHERE` of the raw text, at depth zero outside quotes as the scan counts them. -/
def RawWhere (k : Scan) (prev : Option Char) (r : Text) : Prop :=
  ∃ a v b, r = a ++ (v ++ b) ∧ k.run a = {} ∧ isSpaceOrEdge (lastFrom prev a) = true ∧
    v.map Char.toUpper = "WHERE".toList ∧ ∀ c, b.head? = some c → isIdentChar c = false

theorem RawWhere.cons {prev : Option Char} {r : Text}
    (h : RawWhere (k.step c) (some c) r) : RawWhere k prev (c :: r) := by
  obtain ⟨a, v, b, e, h1, h2, h3, h4⟩ := h
  exact ⟨c :: a, v, b, by rw [e]; rfl, h1, h2, h3, h4⟩

/-- Between the characters that one character became, no match starts. -/
theorem whereFrom_skip (hk : k.Quoted) {u Y : Text} {p : Char} {i j : Nat}
    (hp : isSpace p = false) (hu : ∀ c ∈ u, Scan.isPlain c = true ∧ isSpace c = false)
    (h : whereFrom k.depth k.inStr (some p) i (u ++ Y) = some j) :
    ∃ p' i', isSpace p' = false ∧ whereFrom k.depth k.inStr (some p') i' Y = some j := by
  induction u generalizing p i with
  | nil => exact ⟨p, i, hp, h⟩
  | cons c u ih =>
    obtain ⟨hc, hcs⟩ := hu c mem_cons_self
    rcases whereFrom_cons h with ⟨-, -, hedge, -⟩ | h
    · simp only [isSpaceOrEdge, Option.all_some] at hedge
      rw [hedge] at hp
      cases hp
    · rw [Scan.step_plain hk hc] at h
      exact ih hcs (fun d hd => hu d (mem_cons_of_mem _ hd)) h

/-- **What the scan finds is there**: a `WHERE` in the collapsed text stands in the raw text. -/
theorem where_pullback {r Y d : Text} {flag : Bool} (hk : k.Quoted)
    {prevT prev : Option Char} {i j : Nat} (hd : ∀ c ∈ d, isSpace c = true ∨ c = ';')
    (h : collapseFrom flag (toUpperCase r) = Y ++ d)
    (hprev : isSpaceOrEdge prevT = true → isSpaceOrEdge prev = true)
    (hw : whereFrom k.depth k.inStr prevT i Y = some j) : RawWhere k prev r := by
  induction r generalizing Y flag k prevT prev i with
  | nil =>
    have hY : Y = [] := (append_eq_nil_iff.mp h.symm).1
    rw [hY] at hw
    cases hw
  | cons c r ih =>
    rw [toUpperCase_cons] at h
    cases hs : isSpace c with
    | true =>
      have hstep : k.step c = k := Scan.step_plain hk (Scan.isPlain_of_space hs)
      have hc : isSpaceOrEdge (some c) = true := by simpa [isSpaceOrEdge] using hs
      rw [collapseFrom_space hs] at h
      cases flag with
      | true =>
        -- the run goes on: nothing of it is in the collapsed text
        exact (ih (hk.step c) h (fun _ => hc) (by rw [hstep]; exact hw)).cons
      | false =>
        simp only [Bool.false_eq_true, if_false] at h
        cases Y with
        | nil => cases hw
        | cons y Y =>
          simp only [cons_append, List.cons.injEq] at h
          obtain ⟨rfl, h⟩ := h
          rcases whereFrom_cons hw with ⟨-, hwh, -, -⟩ | hw
          · have := toUpperCase_where_inv (by simp) hwh
            exact absurd (congrArg List.head? this) (by simp)
          · have hsp : k.step ' ' = k.step c := by
              rw [hstep]
              exact Scan.step_plain hk (by decide)
            rw [hsp] at hw
            exact (ih (hk.step c) h (fun _ => hc) hw).cons
    | false =>
      rw [collapseFrom_upperChar hs] at h
      by_cases hlt : c.toNat < 128
      · rw [upperChar_ascii hlt, singleton_append] at h
        cases Y with
        | nil => cases hw
        | cons y Y =>
          simp only [cons_append, List.cons.injEq] at h
          obtain ⟨rfl, h⟩ := h
          rcases whereFrom_cons hw with ⟨rfl, hwh, hedge, hafter⟩ | hw
          · have hmap := toUpperCase_where_inv (by simp) hwh
            simp only [take_succ_cons, map_cons, toUpper_toUpper, String.reduceToList,
              List.cons.injEq] at hmap
            obtain ⟨v, b, e1, e2, e3⟩ := @collapse_letters "HERE".toList _ _ _ (by simp) (by decide)
              hmap.2 h
            refine ⟨[], c :: v, b, by rw [e1]; rfl, rfl, hprev hedge, ?_, ?_⟩
            · rw [map_cons, hmap.1, e2]
              rfl
            · exact collapse_boundary hd e3 hafter
          · rw [Scan.step_toUpper hk hlt] at hw
            refine (ih (hk.step c) h (fun hsp => ?_) hw).cons
            simp only [isSpaceOrEdge, Option.all_some, isSpace_toUpper] at hsp
            rw [hsp] at hs
            cases hs
      · -- a character outside ASCII: plain to the scan, and no match starts in it
        obtain ⟨-, hall⟩ := upperChar_foreign (by omega) hs
        have hplain : ∀ x ∈ upperChar c, Scan.isPlain x = true ∧ isSpace x = false := by
          intro x hx
          refine ⟨Scan.isPlain_of_upperOrForeign (hall x hx), ?_⟩
          by_contra hsp
          have := (upperChar_of_mem_space hx (by simpa using hsp)).1
          rw [this] at hs
          cases hs
        obtain ⟨Y', rfl, hr⟩ := append_keep h fun x hx hmem => by
          rcases hd x hx with hsp | rfl
          · rw [(hplain x hmem).2] at hsp
            cases hsp
          · rcases hall ';' hmem with ⟨h1, -⟩ | ⟨h1, -⟩ <;> exact absurd h1 (by decide)
        obtain ⟨x, u, hu⟩ := exists_cons_of_ne_nil (upperChar_ne_nil c)
        rw [hu] at hw hplain
        have hx := hplain x mem_cons_self
        have hskip : ∃ p' i', isSpace p' = false ∧
            whereFrom k.depth k.inStr (some p') i' Y' = some j := by
          rcases whereFrom_cons hw with ⟨-, hwh, -, -⟩ | hw
          · exfalso
            have hmap := toUpperCase_where_inv (by simp) hwh
            have hux : x.toUpper = x := toUpper_of_mem_toUpperCase (s := [c]) (by simp [hu])
            have hxW : x = 'W' := by
              rw [← hux]
              simpa using congrArg List.head? hmap
            subst hxW
            obtain ⟨-, y, u', hu', hy⟩ := upperChar_where (by omega) hu (by simp)
            rw [hu'] at hmap
            have hyH : y.toUpper = 'H' := by
              have := congrArg (fun l => l[1]?) hmap
              simpa using this
            rw [toUpper_foreign hy] at hyH
            rw [hyH] at hy
            exact absurd hy (by decide)
          · rw [Scan.step_plain hk hx.1] at hw
            exact whereFrom_skip hk hx.2 (fun z hz => hplain z (mem_cons_of_mem _ hz)) hw
        obtain ⟨p', i', hp', hw'⟩ := hskip
        have hstep : k.step c = k := by
          refine Scan.step_plain hk (Scan.isPlain_of_upperOrForeign (.inr ⟨by omega, hs⟩))
        refine (ih (hk.step c) hr (fun hsp => ?_) (by rw [hstep]; exact hw')).cons
        simp only [isSpaceOrEdge, Option.all_some] at hsp
        rw [hsp] at hp'
        cases hp'

end Veesker.Safety
