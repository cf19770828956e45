/-
  File:      Veesker/Editor/Cursor.lean
  Subject:   THE STATEMENT AT THE CURSOR (src/lib/stores/sql-editor.svelte.ts `runStatementAtCursor`).

  The splitter keeps no places, so the run looks for each statement's text behind the last one it
  has found. The first place that has the text is taken, wherever it is: a comment that was dropped,
  a literal of a longer statement.

  * `rightStatement` -- the statement at the cursor, by the places of the scan;
  * `picked_iff` -- the search takes the last statement that can be reached in front of the cursor;
  * **`at_cursor_iff`** -- the run takes the statement at the cursor if and only if no other can be
    reached;
  * `comment_runs` -- a statement that runs because a comment quotes the one at the cursor.
-/
import Veesker.Editor.Actions
import Veesker.Splitter.Places

namespace Veesker.Editor

open Splitter List

/-! ## 1. The statement at the cursor -/

/-- The statement that the cursor is in, else the last that begins before it, else the first. -/
def rightStatement (fullText : Text) (cursor : Nat) : Text :=
  let places := statementPlaces fullText
  let within := places.find? fun p => p.1 ≤ cursor ∧ cursor ≤ p.1 + p.2.length
  let before := (places.filter fun p => p.1 ≤ cursor).getLast?
  ((within.or before).map Prod.snd).getD ((places.map Prod.snd).headD [])

/-! ## 2. What can be reached -/

/-- The statements can be found in the text one behind the other from place `a` on, the last of them
    beginning at the cursor or before it, the others ending before it. -/
inductive Fits (s : Text) (cursor : Nat) : Nat → List Text → Prop where
  | last {a i : Nat} {w : Text} (ha : a ≤ i) (hw : StandsAt s w i) (hi : i ≤ cursor) :
      Fits s cursor a [w]
  | cons {a i : Nat} {w : Text} {ws : List Text} (ha : a ≤ i) (hw : StandsAt s w i)
      (hi : i + w.length < cursor) (hws : Fits s cursor (i + w.length) ws) :
      Fits s cursor a (w :: ws)

/-- The statements up to `st` can be found in front of the cursor, those up to the next cannot. -/
def CursorReaches (s : Text) (cursor a : Nat) (sts : List Text) (st : Text) : Prop :=
  ∃ before after, sts = before ++ st :: after ∧ Fits s cursor a (before ++ [st]) ∧
    ∀ behind ∈ after.head?, ¬ Fits s cursor a (before ++ [st, behind])

theorem standsAt_iff {s w : Text} {i : Nat} :
    StandsAt s w i ↔ i ≤ s.length ∧ startsWith (s.drop i) w = true := by
  constructor
  · intro ⟨before, after, hs, hi⟩
    subst hi
    rw [hs]
    refine ⟨?_, ?_⟩
    · simp only [length_append]
      omega
    · rw [append_assoc, drop_left]
      exact List.isPrefixOf_iff_prefix.mpr (prefix_append _ _)
  · intro ⟨hi, hw⟩
    obtain ⟨after, hafter⟩ := List.isPrefixOf_iff_prefix.mp hw
    refine ⟨s.take i, after, ?_, length_take_of_le hi⟩
    rw [append_assoc, hafter, take_append_drop]

/-- `indexOf` finds the first place that has the text. -/
theorem indexFrom_eq_some {w s : Text} {a i : Nat} :
    indexFrom w s a = some i ↔ a ≤ i ∧ StandsAt s w i ∧ ∀ j, a ≤ j → j < i → ¬ StandsAt s w j := by
  rw [indexFrom, List.find?_range'_eq_some, standsAt_iff]
  constructor
  · intro ⟨hw, hi, hfirst⟩
    rw [List.mem_range'_1] at hi
    refine ⟨hi.1, ⟨by omega, hw⟩, ?_⟩
    intro j ha hj hstands
    have h := hfirst j ha hj
    rw [(standsAt_iff.mp hstands).2] at h
    cases h
  · intro ⟨ha, ⟨hi, hw⟩, hfirst⟩
    refine ⟨hw, List.mem_range'_1.mpr (by omega), ?_⟩
    intro j hj hij
    have h : startsWith (s.drop j) w ≠ true :=
      fun hw => hfirst j hj hij (standsAt_iff.mpr ⟨by omega, hw⟩)
    simpa only [Bool.not_eq_true'] using Bool.eq_false_iff.mpr h

/-- A text that stands somewhere behind is found, there or before it. -/
theorem indexFrom_of_standsAt {w s : Text} {a o : Nat} (ha : a ≤ o) (hw : StandsAt s w o) :
    ∃ i, indexFrom w s a = some i ∧ i ≤ o := by
  cases h : indexFrom w s a with
  | none =>
    rw [indexFrom, List.find?_range'_eq_none] at h
    obtain ⟨ho, hstands⟩ := standsAt_iff.mp hw
    have hno := h o ha (by omega)
    rw [hstands] at hno
    cases hno
  | some i =>
    refine ⟨i, rfl, ?_⟩
    by_contra hi
    exact (indexFrom_eq_some.mp h).2.2 o ha (by omega) hw

namespace Fits

variable {s : Text} {cursor a b i : Nat} {w : Text} {ws : List Text}

theorem mono (h : Fits s cursor a ws) (hb : b ≤ a) : Fits s cursor b ws := by
  cases h with
  | last ha hw hi => exact .last (hb.trans ha) hw hi
  | cons ha hw hi hws => exact .cons (hb.trans ha) hw hi hws

theorem ne_nil (h : Fits s cursor a ws) : ws ≠ [] := by
  cases h <;> exact cons_ne_nil _ _

/-- The first place is as good as any. -/
theorem single_iff (hi : indexFrom w s a = some i) : Fits s cursor a [w] ↔ i ≤ cursor := by
  obtain ⟨ha, hw, hfirst⟩ := indexFrom_eq_some.mp hi
  constructor
  · intro h
    cases h with
    | @last _ j _ hj hwj hcursor =>
      by_contra hlt
      exact hfirst j hj (by omega) hwj
    | cons _ _ _ hws => exact absurd rfl hws.ne_nil
  · exact .last ha hw

theorem cons_iff (hi : indexFrom w s a = some i) (hne : ws ≠ []) :
    Fits s cursor a (w :: ws) ↔ i + w.length < cursor ∧ Fits s cursor (i + w.length) ws := by
  obtain ⟨ha, hw, hfirst⟩ := indexFrom_eq_some.mp hi
  constructor
  · intro h
    cases h with
    | last _ _ _ => exact absurd rfl hne
    | @cons _ j _ _ hj hwj hcursor hws =>
      have hij : i ≤ j := by
        by_contra hlt
        exact hfirst j hj (by omega) hwj
      exact ⟨by omega, hws.mono (by omega)⟩
  · intro h
    exact .cons ha hw h.1 h.2

end Fits

/-! ## 3. The search -/

/-- Both rounds of the search. -/
def picked (s : Text) (cursor a : Nat) (sts : List Text) : Option Text :=
  (statementAround s cursor a sts).or (statementBefore s cursor a none sts)

theorem statementBefore_last (s : Text) (cursor : Nat) (sts : List Text) (a : Nat)
    (last : Option Text) :
    statementBefore s cursor a last sts = (statementBefore s cursor a none sts).or last := by
  induction sts generalizing a last with
  | nil => rfl
  | cons st sts ih =>
    rw [statementBefore, statementBefore]
    cases indexFrom st s a with
    | none => exact ih a last
    | some i =>
      change statementBefore s cursor (i + st.length) _ sts =
        (statementBefore s cursor (i + st.length) _ sts).or last
      rw [ih _ (if i ≤ cursor then some st else last), ih _ (if i ≤ cursor then some st else none)]
      by_cases hi : i ≤ cursor
      · rw [if_pos hi, if_pos hi, Option.or_assoc]
        rfl
      · rw [if_neg hi, if_neg hi, Option.or_none]

variable {s : Text}

/-- Behind the cursor nothing is found. -/
theorem picked_behind {cursor a : Nat} (ha : cursor < a) (sts : List Text) :
    picked s cursor a sts = none := by
  induction sts generalizing a with
  | nil => rfl
  | cons st sts ih =>
    rw [picked, statementAround, statementBefore]
    cases hi : indexFrom st s a with
    | none => exact ih ha
    | some i =>
      have hai := (indexFrom_eq_some.mp hi).1
      have hlate : ¬ i ≤ cursor := by omega
      simp only [hlate, false_and, if_false]
      exact ih (by omega)

theorem picked_cons {cursor a i : Nat} {w : Text} (hi : indexFrom w s a = some i)
    (ws : List Text) :
    picked s cursor a (w :: ws) =
      if cursor < i then none
      else if cursor ≤ i + w.length then some w
      else (picked s cursor (i + w.length) ws).or (some w) := by
  rw [picked, statementAround, statementBefore, hi]
  by_cases hlate : cursor < i
  · have hlate' : ¬ i ≤ cursor := by omega
    simp only [hlate, hlate', false_and, if_false, if_true]
    exact picked_behind (by omega) ws
  · have hearly : i ≤ cursor := by omega
    by_cases hin : cursor ≤ i + w.length
    · simp only [hlate, hearly, hin, and_self, if_true, if_false, Option.some_or]
    · simp only [hlate, hearly, hin, and_false, if_false, if_true]
      rw [statementBefore_last, picked, Option.or_assoc]

/-- The search comes back without a statement only where the first stands behind the cursor. -/
theorem picked_none {cursor a : Nat} {ps : List (Nat × Text)} (hps : Apart s a ps) :
    picked s cursor a (ps.map Prod.snd) = none ↔
      ∀ w ∈ (ps.map Prod.snd).head?, ¬ Fits s cursor a [w] := by
  cases hps with
  | nil => exact iff_of_true rfl nofun
  | @cons _ o w ps ha hw hps =>
    obtain ⟨i, hi, -⟩ := indexFrom_of_standsAt ha hw
    rw [map_cons, picked_cons hi, List.head?_cons]
    simp only [Option.mem_some_iff, forall_eq', Fits.single_iff hi]
    by_cases hlate : cursor < i
    · rw [if_pos hlate]
      exact iff_of_true rfl (by omega)
    · rw [if_neg hlate]
      refine iff_of_false ?_ (by omega)
      split
      · exact Option.some_ne_none w
      · rw [Option.or_eq_none_iff]
        exact fun h => Option.some_ne_none w h.2

theorem cursorReaches_cons {cursor a i : Nat} {w st : Text} {ws : List Text}
    (hi : indexFrom w s a = some i) :
    CursorReaches s cursor a (w :: ws) st ↔
      (st = w ∧ i ≤ cursor ∧ ∀ behind ∈ ws.head?, ¬ Fits s cursor a [w, behind]) ∨
        i + w.length < cursor ∧ CursorReaches s cursor (i + w.length) ws st := by
  constructor
  · intro ⟨before, after, hsts, hfits, hnext⟩
    cases before with
    | nil =>
      obtain ⟨rfl, rfl⟩ := List.cons.inj hsts
      exact .inl ⟨rfl, (Fits.single_iff hi).mp hfits, hnext⟩
    | cons b before =>
      obtain ⟨rfl, rfl⟩ := List.cons.inj hsts
      have hne : ∀ sts : List Text, before ++ st :: sts ≠ [] :=
        fun sts => append_ne_nil_of_right_ne_nil before (cons_ne_nil st sts)
      obtain ⟨hcursor, hws⟩ := (Fits.cons_iff hi (hne [])).mp hfits
      refine .inr ⟨hcursor, before, after, rfl, hws, ?_⟩
      intro behind hbehind h
      exact hnext behind hbehind ((Fits.cons_iff hi (hne [behind])).mpr ⟨hcursor, h⟩)
  · intro h
    rcases h with ⟨rfl, hcursor, hnext⟩ | ⟨hcursor, before, after, rfl, hfits, hnext⟩
    · exact ⟨[], ws, rfl, (Fits.single_iff hi).mpr hcursor, hnext⟩
    · have hne : ∀ sts : List Text, before ++ st :: sts ≠ [] :=
        fun sts => append_ne_nil_of_right_ne_nil before (cons_ne_nil st sts)
      refine ⟨w :: before, after, rfl, (Fits.cons_iff hi (hne [])).mpr ⟨hcursor, hfits⟩, ?_⟩
      intro behind hbehind h
      exact hnext behind hbehind ((Fits.cons_iff hi (hne [behind])).mp h).2

/-- **The search takes the last statement that can be reached.** -/
theorem picked_iff {cursor a : Nat} {ps : List (Nat × Text)} (hps : Apart s a ps)
    {st : Text} :
    picked s cursor a (ps.map Prod.snd) = some st ↔
      CursorReaches s cursor a (ps.map Prod.snd) st := by
  induction ps generalizing a with
  | nil =>
    refine iff_of_false nofun ?_
    intro ⟨before, after, h, _⟩
    exact append_ne_nil_of_right_ne_nil before (cons_ne_nil st after) h.symm
  | cons p ps ih =>
    obtain ⟨o, w⟩ := p
    cases hps with
    | cons ha hw hps =>
    obtain ⟨i, hi, hio⟩ := indexFrom_of_standsAt ha hw
    have hrest : Apart s (i + w.length) ps := hps.mono (by omega)
    rw [map_cons, picked_cons hi, cursorReaches_cons hi]
    by_cases hlate : cursor < i
    · rw [if_pos hlate]
      refine iff_of_false nofun ?_
      intro h
      rcases h with ⟨-, h, -⟩ | ⟨h, -⟩ <;> omega
    · rw [if_neg hlate]
      by_cases hin : cursor ≤ i + w.length
      · -- the cursor is in what was found: the next statement cannot be reached any more
        rw [if_pos hin, Option.some.injEq]
        constructor
        · intro h
          refine .inl ⟨h.symm, by omega, ?_⟩
          intro behind _ hfits
          have h := ((Fits.cons_iff hi (cons_ne_nil behind [])).mp hfits).1
          omega
        · intro h
          rcases h with ⟨h, -⟩ | ⟨h, -⟩
          · exact h.symm
          · omega
      · rw [if_neg hin]
        have hbehind : i + w.length < cursor := by omega
        cases hpicked : picked s cursor (i + w.length) (ps.map Prod.snd) with
        | some found =>
          rw [Option.some_or, ← hpicked, ih hrest]
          constructor
          · exact fun h => .inr ⟨hbehind, h⟩
          · intro h
            rcases h with ⟨-, -, hnone⟩ | ⟨-, h⟩
            · -- something behind was found, so the next statement fits
              have hno : picked s cursor (i + w.length) (ps.map Prod.snd) = none := by
                refine (picked_none hrest).mpr ?_
                intro behind hb hfits
                exact hnone behind hb
                  ((Fits.cons_iff hi (cons_ne_nil behind [])).mpr ⟨hbehind, hfits⟩)
              rw [hno] at hpicked
              cases hpicked
            · exact h
        | none =>
          rw [Option.none_or, Option.some.injEq]
          constructor
          · intro h
            refine .inl ⟨h.symm, by omega, ?_⟩
            intro behind hb hfits
            exact (picked_none hrest).mp hpicked behind hb
              ((Fits.cons_iff hi (cons_ne_nil behind [])).mp hfits).2
          · intro h
            rcases h with ⟨h, -⟩ | ⟨-, h⟩
            · exact h.symm
            · rw [← ih hrest, hpicked] at h
              cases h

/-! ## 4. The run -/

/-- The place that `rightStatement` looks for is one of a statement that begins before the cursor,
    or the first. -/
theorem rightStatement_early {fullText : Text} {cursor : Nat}
    (h : ∀ p ∈ statementPlaces fullText, ¬ p.1 ≤ cursor) :
    rightStatement fullText cursor = ((statementPlaces fullText).map Prod.snd).headD [] := by
  have hwithin : (statementPlaces fullText).find?
      (fun p => p.1 ≤ cursor ∧ cursor ≤ p.1 + p.2.length) = none := by
    refine List.find?_eq_none.mpr ?_
    intro p hp hin
    exact h p hp (of_decide_eq_true hin).1
  have hbefore : (statementPlaces fullText).filter (fun p => p.1 ≤ cursor) = [] := by
    refine filter_eq_nil_iff.mpr ?_
    intro p hp hin
    exact h p hp (of_decide_eq_true hin)
  rw [rightStatement, hwithin, hbefore]
  rfl

/-- The first statement fits as soon as one of the statements begins before the cursor. -/
theorem Apart.head_fits {cursor a : Nat} {ps : List (Nat × Text)} {p : Nat × Text}
    (hps : Apart s a ps) (hp : p ∈ ps) (hcursor : p.1 ≤ cursor) :
    ∃ w ∈ (ps.map Prod.snd).head?, Fits s cursor a [w] := by
  induction hps with
  | nil => cases hp
  | @cons a o w ps ha hw hps ih =>
    refine ⟨w, rfl, ?_⟩
    rcases mem_cons.mp hp with rfl | hp
    · exact .last ha hw hcursor
    · obtain ⟨_, _, h⟩ := ih hp
      cases h with
      | last hj _ hlt => exact .last ha hw (by omega)
      | cons _ _ _ hws => exact absurd rfl hws.ne_nil

/-- **The run takes the statement at the cursor if and only if no other can be reached.** -/
theorem at_cursor_iff {fullText : Text} (cursor : Nat) (rawSql : Text)
    (he : (splitSql fullText).errors = []) (hne : (splitSql fullText).statements ≠ []) :
    (Request.atCursor fullText cursor rawSql).prepared =
        some (.single, stripTrailingSemicolon
          (statementAt fullText cursor (splitSql fullText).statements)) ∧
      (statementAt fullText cursor (splitSql fullText).statements = rightStatement fullText cursor ↔
        ∀ st, CursorReaches fullText cursor 0 (splitSql fullText).statements st →
          st = rightStatement fullText cursor) := by
  refine ⟨?_, ?_⟩
  · rw [Request.prepared]
    cases h : (splitSql fullText).statements with
    | nil => exact absurd h hne
    | cons st sts => rfl
  · have hps := statementPlaces_apart fullText
    have hat : statementAt fullText cursor (splitSql fullText).statements =
        (picked fullText cursor 0 (splitSql fullText).statements).getD
          ((splitSql fullText).statements.headD []) := rfl
    rw [hat, ← statementPlaces_statements he]
    cases hpicked : picked fullText cursor 0 ((statementPlaces fullText).map Prod.snd) with
    | some found =>
      rw [Option.getD_some]
      constructor
      · intro h st hst
        rw [← picked_iff hps, hpicked] at hst
        exact (Option.some.inj hst).symm.trans h
      · exact fun h => h found ((picked_iff hps).mp hpicked)
    | none =>
      -- nothing is found before the cursor, so nothing stands there either
      rw [Option.getD_none]
      refine iff_of_true ?_ ?_
      · refine (rightStatement_early ?_).symm
        intro p hp hcursor
        obtain ⟨w, hw, hfits⟩ := Apart.head_fits hps hp hcursor
        exact (picked_none hps).mp hpicked w hw hfits
      · intro st hst
        rw [← picked_iff hps, hpicked] at hst
        cases hst

theorem at_cursor_iff_second :
    let fullText := "SELECT 1 FROM dual;\nCOMMIT".toList
    (Request.atCursor fullText 22 []).prepared =
        some (.single, stripTrailingSemicolon
          (statementAt fullText 22 (splitSql fullText).statements)) ∧
      (statementAt fullText 22 (splitSql fullText).statements = rightStatement fullText 22 ↔
        ∀ st, CursorReaches fullText 22 0 (splitSql fullText).statements st →
          st = rightStatement fullText 22) :=
  at_cursor_iff 22 [] (by decide) (by decide)

/-- The first statement's text stands in a comment, and the second's in the first's literal: with the
    cursor in the query, the `COMMIT` runs. -/
theorem comment_runs :
    let fullText := "/* SELECT 'COMMIT' FROM dual */;\nSELECT 'COMMIT' FROM dual;\nCOMMIT".toList
    (splitSql fullText).errors = [] ∧
      rightStatement fullText 43 = "SELECT 'COMMIT' FROM dual".toList ∧
      (Request.atCursor fullText 43 []).prepared = some (.single, "COMMIT".toList) := by
  decide

end Veesker.Editor
