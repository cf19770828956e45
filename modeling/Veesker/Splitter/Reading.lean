/-
  File:      Veesker/Splitter/Reading.lean
  Subject:   HOW THE SPLITTER READS A STRETCH OF TEXT.

  * `strip_eq` -- leading comments go one by one, whatever the number of rounds;
  * `Filler` -- white space and whole line comments, which the block test does not see
    (`strip_filler`);
  * `plainSplits`, `lexEnd` -- where a stretch has plain code and what is open at its end; a
    separator behind the stretch stands for everything that follows it (`plainSplits_stable`,
    `lexEnd_stable`);
  * `scanFrom_keep` -- **a stretch without a separator goes into the buffer as it is**.
-/
import Veesker.Splitter.SplitSql
import Veesker.Lexis.Words

namespace Veesker.Splitter

open List

/-! ## 1. Leading comments -/

theorem sliceAfter_length {w t r : Text} (h : sliceAfter w t = some r) (hw : w ≠ []) :
    r.length < t.length := by
  induction t with
  | nil => cases h
  | cons c cs ih =>
    unfold sliceAfter at h
    split at h
    · cases h
      have := length_pos_iff.mpr hw
      rw [length_drop]
      simp only [length_cons]
      omega
    · have := ih h
      simp only [length_cons]
      omega

theorem sliceAfter_suffix {w t r : Text} (h : sliceAfter w t = some r) : r <:+ t := by
  induction t with
  | nil => cases h
  | cons c cs ih =>
    unfold sliceAfter at h
    split at h
    · cases h
      exact drop_suffix _ _
    · exact (ih h).trans (suffix_cons c cs)

theorem trimStart_length (s : Text) : (trimStart s).length ≤ s.length :=
  (dropWhile_suffix _).length_le

/-- A round's result is shorter. -/
theorem slice_length {w t : Text} (hw : w ≠ []) (ht : t ≠ []) :
    (((sliceAfter w t).map trimStart).getD []).length < t.length := by
  cases h : sliceAfter w t with
  | none => exact length_pos_iff.mpr ht
  | some r => exact lt_of_le_of_lt (trimStart_length r) (sliceAfter_length h hw)

theorem stripLoop_nil (n : Nat) : stripLoop n [] = [] := by
  cases n with
  | zero => rfl
  | succ n => rfl

/-- Rounds to spare change nothing. -/
theorem stripLoop_fuel {n m : Nat} {t : Text} (hn : t.length ≤ n) (hm : t.length ≤ m) :
    stripLoop n t = stripLoop m t := by
  induction n generalizing m t with
  | zero =>
    rw [length_eq_zero_iff.mp (Nat.le_zero.mp hn), stripLoop_nil, stripLoop_nil]
  | succ n ih =>
    cases m with
    | zero => rw [length_eq_zero_iff.mp (Nat.le_zero.mp hm), stripLoop_nil, stripLoop_nil]
    | succ m =>
      by_cases ht : t = []
      · rw [ht, stripLoop_nil, stripLoop_nil]
      · have h1 := slice_length (w := ['\n']) (by simp) ht
        have h2 := slice_length (w := "*/".toList) (by decide) ht
        unfold stripLoop
        split
        · exact ih (by omega) (by omega)
        · split
          · exact ih (by omega) (by omega)
          · rfl

/-- **One leading comment at a time.** -/
theorem strip_eq (s : Text) : stripLeadingComments s =
    if startsWith (trimStart s) "--".toList then
      ((sliceAfter ['\n'] (trimStart s)).map stripLeadingComments).getD []
    else if startsWith (trimStart s) "/*".toList then
      ((sliceAfter "*/".toList (trimStart s)).map stripLeadingComments).getD []
    else trimStart s := by
  have hround : ∀ w : Text, w ≠ [] → ∀ n, (trimStart s).length ≤ n + 1 → trimStart s ≠ [] →
      stripLoop n (((sliceAfter w (trimStart s)).map trimStart).getD []) =
        ((sliceAfter w (trimStart s)).map stripLeadingComments).getD [] := by
    intro w hw n hn hne
    have hlen := slice_length hw hne
    cases h : sliceAfter w (trimStart s) with
    | none => exact stripLoop_nil n
    | some r =>
      rw [h] at hlen
      exact stripLoop_fuel (by simp at hlen ⊢; omega) le_rfl
  unfold stripLeadingComments
  cases hs : trimStart s with
  | nil => simp [stripLoop, startsWith]
  | cons c cs =>
    rw [hs] at hround
    simp only [length_cons, stripLoop]
    split
    · exact hround ['\n'] (by simp) cs.length (by simp) (by simp)
    · split
      · exact hround "*/".toList (by decide) cs.length (by simp) (by simp)
      · rfl

theorem strip_trimStart {s t : Text} (h : trimStart s = trimStart t) :
    stripLeadingComments s = stripLeadingComments t := by
  unfold stripLeadingComments
  rw [h]

theorem trimStart_cons_space {c : Char} (h : isSpace c = true) (s : Text) :
    trimStart (c :: s) = trimStart s := by
  unfold trimStart
  rw [dropWhile_cons_of_pos h]

theorem sliceAfter_newline {w s : Text} (h : '\n' ∉ w) :
    sliceAfter ['\n'] (w ++ '\n' :: s) = some s := by
  induction w with
  | nil => simp [sliceAfter, startsWith]
  | cons c w ih =>
    have hc : c ≠ '\n' := fun e => h (e ▸ mem_cons_self)
    have hno : startsWith (c :: (w ++ '\n' :: s)) ['\n'] = false := by
      simp [startsWith, List.isPrefixOf, hc.symm]
    rw [cons_append, sliceAfter, hno]
    exact ih fun hw => h (mem_cons_of_mem _ hw)

/-! ## 2. Fillers -/

/-- White space and whole line comments. -/
inductive Filler : Text → Prop where
  | nil : Filler []
  | space {c : Char} {s : Text} (hc : isSpace c = true) (h : Filler s) : Filler (c :: s)
  | comment {w s : Text} (hw : '\n' ∉ w) (h : Filler s) : Filler ('-' :: '-' :: (w ++ '\n' :: s))

theorem Filler.append {s t : Text} (hs : Filler s) (ht : Filler t) : Filler (s ++ t) := by
  induction hs with
  | nil => exact ht
  | space hc _ ih => exact .space hc ih
  | @comment w s hw _ ih =>
    have : '-' :: '-' :: (w ++ '\n' :: s) ++ t = '-' :: '-' :: (w ++ '\n' :: (s ++ t)) := by simp
    rw [this]
    exact .comment hw ih

theorem filler_spaces {s : Text} (h : ∀ c ∈ s, isSpace c = true) : Filler s := by
  induction s with
  | nil => exact .nil
  | cons c s ih =>
    exact .space (h c mem_cons_self) (ih fun d hd => h d (mem_cons_of_mem _ hd))

/-- A filler is one to Oracle too. -/
theorem Filler.isFiller {s : Text} (h : Filler s) : Lexis.IsFiller s := by
  induction h with
  | nil => exact Lexis.isFiller_nil
  | @space c s hc _ ih =>
    have h1 : Lexis.IsFiller [c] := Lexis.isFiller_spaces (by simpa using hc)
    exact h1.append ih
  | @comment w s hw _ ih =>
    have e : '-' :: '-' :: (w ++ '\n' :: s) = '-' :: '-' :: (w ++ ['\n']) ++ s := by simp
    rw [e]
    exact (Lexis.isFiller_line hw).append ih

/-- **The block test does not see a filler.** -/
theorem strip_filler {F : Text} (h : Filler F) (s : Text) :
    stripLeadingComments (F ++ s) = stripLeadingComments s := by
  induction h with
  | nil => rfl
  | space hc _ ih => exact (strip_trimStart (trimStart_cons_space hc _)).trans ih
  | @comment w F hw _ ih =>
    have e : '-' :: '-' :: (w ++ '\n' :: F) ++ s = '-' :: '-' :: w ++ '\n' :: (F ++ s) := by simp
    have ht : trimStart ('-' :: '-' :: w ++ '\n' :: (F ++ s)) =
        '-' :: '-' :: w ++ '\n' :: (F ++ s) := by
      unfold trimStart
      exact dropWhile_cons_of_neg (by decide)
    have hno : '\n' ∉ '-' :: '-' :: w := by simpa using hw
    rw [e, strip_eq, ht, if_pos (by rfl), sliceAfter_newline hno]
    exact ih

theorem isCommentsOnly_filler {F : Text} (h : Filler F) : isCommentsOnly F = true := by
  have := strip_filler h []
  rw [append_nil] at this
  rw [isCommentsOnly, this]
  rfl

theorem startsWith_of_append {s t w : Text} (h : startsWith (s ++ t) w = true)
    (hlen : w.length ≤ s.length) : startsWith s w = true := by
  obtain ⟨r, hr⟩ := startsWith_iff.mp h
  have hp : w <+: s ++ t := ⟨r, hr.symm⟩
  obtain ⟨r', hr'⟩ := prefix_of_prefix_length_le hp (prefix_append s t) hlen
  exact startsWith_iff.mpr ⟨r', hr'.symm⟩

theorem startsWith_append {s w : Text} (h : startsWith s w = true) (t : Text) :
    startsWith (s ++ t) w = true := by
  obtain ⟨r, rfl⟩ := startsWith_iff.mp h
  exact startsWith_iff.mpr ⟨r ++ t, by simp⟩

theorem length_of_startsWith {s w : Text} (h : startsWith s w = true) : w.length ≤ s.length := by
  obtain ⟨r, rfl⟩ := startsWith_iff.mp h
  simp

theorem length_of_sliceAfter {w t r : Text} (h : sliceAfter w t = some r) :
    w.length ≤ t.length := by
  induction t with
  | nil => cases h
  | cons c t ih =>
    unfold sliceAfter at h
    split at h
    · rename_i hs
      exact length_of_startsWith hs
    · exact Nat.le_succ_of_le (ih h)

/-- What is found in a text is found in a longer one. -/
theorem sliceAfter_append {w t r : Text} (h : sliceAfter w t = some r) (u : Text) :
    sliceAfter w (t ++ u) = some (r ++ u) := by
  induction t with
  | nil => cases h
  | cons c t ih =>
    unfold sliceAfter at h
    rw [cons_append, sliceAfter]
    split at h
    · rename_i hs
      cases h
      rw [← cons_append, if_pos (startsWith_append hs u),
        drop_append_of_le_length (length_of_startsWith hs)]
    · rename_i hs
      have hlen := length_of_sliceAfter h
      have hno : ¬ startsWith (c :: (t ++ u)) w = true := fun hs' =>
        hs (startsWith_of_append (s := c :: t) hs' (Nat.le_succ_of_le hlen))
      rw [if_neg hno]
      exact ih h

theorem sliceAfter_newline_none {t : Text} (h : sliceAfter ['\n'] t = none) (u : Text) :
    sliceAfter ['\n'] (t ++ u) = sliceAfter ['\n'] u := by
  induction t with
  | nil => rfl
  | cons c t ih =>
    unfold sliceAfter at h
    split at h
    · cases h
    · rename_i hs
      have hno : ¬ startsWith (c :: (t ++ u)) ['\n'] = true := fun hs' =>
        hs (startsWith_of_append (s := c :: t) hs' (by simp))
      rw [cons_append, sliceAfter, if_neg hno]
      exact ih h

/-- A block comment that is open stays open where only white space follows. -/
theorem sliceAfter_blockEnd_none {t w : Text} (h : sliceAfter "*/".toList t = none)
    (hw : ∀ c ∈ w, isSpace c = true) : sliceAfter "*/".toList (t ++ w) = none := by
  induction t with
  | nil =>
    induction w with
    | nil => rfl
    | cons c w ih =>
      have hc := hw c mem_cons_self
      have hno : ¬ startsWith (c :: w) "*/".toList = true := by
        intro hs
        obtain ⟨r, hr⟩ := startsWith_iff.mp hs
        obtain ⟨rfl, -⟩ := List.cons.inj hr
        exact absurd hc (by decide)
      rw [nil_append, sliceAfter, if_neg hno]
      exact ih fun d hd => hw d (mem_cons_of_mem _ hd)
  | cons c t ih =>
    unfold sliceAfter at h
    split at h
    · cases h
    · rename_i hs
      have hno : ¬ startsWith (c :: (t ++ w)) "*/".toList = true := by
        intro hs'
        cases t with
        | nil =>
          obtain ⟨r, hr⟩ := startsWith_iff.mp hs'
          have hr' : c :: w = '*' :: '/' :: r := hr
          have hmem : '/' ∈ w := by
            rw [(List.cons.inj hr').2]
            simp
          exact absurd (hw '/' hmem) (by decide)
        | cons d t => exact hs (startsWith_of_append (s := c :: d :: t) hs' (by simp))
      rw [cons_append, sliceAfter, if_neg hno]
      exact ih h

theorem trimStart_append {s : Text} (h : trimStart s ≠ []) (t : Text) :
    trimStart (s ++ t) = trimStart s ++ t := by
  unfold trimStart at h ⊢
  rw [dropWhile_append]
  simp [h]

theorem trimStart_of_spaces {s : Text} (h : ∀ c ∈ s, isSpace c = true) : trimStart s = [] :=
  dropWhile_eq_nil_iff.mpr h

theorem strip_spaces {s : Text} (h : ∀ c ∈ s, isSpace c = true) : stripLeadingComments s = [] := by
  rw [strip_trimStart (t := []) (trimStart_of_spaces h)]
  rfl

/-- **White space behind a text does not make code of it.** -/
theorem strip_append_spaces {s w : Text} (hs : stripLeadingComments s = [])
    (hw : ∀ c ∈ w, isSpace c = true) : stripLeadingComments (s ++ w) = [] := by
  induction hn : s.length using Nat.strong_induction_on generalizing s with
  | _ n ih =>
    by_cases ht : trimStart s = []
    · have hsp : ∀ c ∈ s, isSpace c = true := dropWhile_eq_nil_iff.mp ht
      exact strip_spaces fun c hc => (mem_append.mp hc).elim (hsp c) (hw c)
    · have hle := trimStart_length s
      have hcut : ∀ m r : Text, m ≠ [] → sliceAfter m (trimStart s) = some r →
          stripLeadingComments r = [] → stripLeadingComments (r ++ w) = [] := by
        intro m r hm hr hr0
        exact ih r.length (by have := sliceAfter_length hr hm; omega) hr0 rfl
      rw [strip_eq] at hs
      rw [strip_eq, trimStart_append ht]
      split at hs
      · rename_i hline
        rw [if_pos (startsWith_append hline w)]
        cases hr : sliceAfter ['\n'] (trimStart s) with
        | some r =>
          rw [hr] at hs
          rw [sliceAfter_append hr]
          exact hcut ['\n'] r (by simp) hr hs
        | none =>
          rw [sliceAfter_newline_none hr]
          cases hr' : sliceAfter ['\n'] w with
          | none => rfl
          | some r' =>
            exact strip_spaces fun c hc => hw c ((sliceAfter_suffix hr').subset hc)
      · rename_i hline
        split at hs
        · rename_i hblock
          have hno : ¬ startsWith (trimStart s ++ w) "--".toList = true := fun h' =>
            hline (startsWith_of_append h' (le_trans (by decide) (length_of_startsWith hblock)))
          rw [if_neg hno, if_pos (startsWith_append hblock w)]
          cases hr : sliceAfter "*/".toList (trimStart s) with
          | some r =>
            rw [hr] at hs
            rw [sliceAfter_append hr]
            exact hcut "*/".toList r (by decide) hr hs
          | none =>
            rw [sliceAfter_blockEnd_none hr hw]
            rfl
        · exact absurd hs ht

/-! ## 3. Plain code -/

/-- Every character of a stretch `u` in front of `v` that the scan reads as plain code, with what
    stands before and behind it. -/
def plainSplits : ScanState → Nat → Text → Text → Text → List (Text × Char × Text)
  | _, _, _, [], _ => []
  | m, k + 1, before, c :: u, v => plainSplits m k (before ++ [c]) u v
  | m, 0, before, c :: u, v =>
    let r := lexStep m c (u ++ v)
    (if r.2.2 then [(before, c, u ++ v)] else []) ++ plainSplits r.1 r.2.1 (before ++ [c]) u v

/-- What the scan is inside of at the end of a stretch, and how many characters more belong to the
    last one. -/
def lexEnd : ScanState → Nat → Text → Text → ScanState × Nat
  | m, k, [], _ => (m, k)
  | m, k + 1, _ :: u, v => lexEnd m k u v
  | m, 0, c :: u, v => lexEnd (lexStep m c (u ++ v)).1 (lexStep m c (u ++ v)).2.1 u v

/-- Plain code is read in the code state and alone. -/
theorem lexStep_plain {m : ScanState} {c : Char} {rest : Text}
    (h : (lexStep m c rest).2.2 = true) : m = .code ∧ lexStep m c rest = (.code, 0, true) := by
  cases m with
  | code =>
    refine ⟨rfl, ?_⟩
    revert h
    simp only [lexStep]
    split
    · exact nofun
    · split
      · exact nofun
      · split
        · exact nofun
        · cases qOpens c rest with
          | some p => exact nofun
          | none =>
            simp only
            split
            · exact nofun
            · split
              · exact nofun
              · exact fun _ => rfl
  | inLineComment => cases h
  | inBlockComment => simp only [lexStep] at h; split at h <;> cases h
  | inSingleString => simp only [lexStep] at h; split at h <;> cases h
  | inDoubleString => simp only [lexStep] at h; split at h <;> cases h
  | inQString d => simp only [lexStep] at h; split at h <;> cases h

/-- The two separators; nothing opens with one of them and a quote. -/
def IsSeparator (x : Char) : Prop := x = ';' ∨ x = '/'

/-- **A character is read in the same way whatever follows the separator behind it.** -/
theorem lexStep_stable {x : Char} (hx : IsSeparator x) (m : ScanState) (c : Char) (u z : Text) :
    lexStep m c (u ++ x :: z) = lexStep m c (u ++ [x]) := by
  have hquote : x ≠ '\'' ∧ x ≠ 'q' ∧ x ≠ 'Q' := by
    rcases hx with rfl | rfl <;> decide
  have hhead : (u ++ x :: z).head? = (u ++ [x]).head? := by cases u <;> rfl
  have hq : qOpens c (u ++ x :: z) = qOpens c (u ++ [x]) := by
    unfold qOpens
    match u with
    | [] => simp [hquote]
    | [a] => simp [hquote]
    | [a, b] => simp
    | a :: b :: d :: u => simp
  cases m with
  | code => simp only [lexStep, hhead, hq]
  | inLineComment => rfl
  | inBlockComment => simp only [lexStep, hhead]
  | inSingleString => simp only [lexStep, hhead]
  | inDoubleString => simp only [lexStep, hhead]
  | inQString d => simp only [lexStep, hhead]

theorem lexEnd_stable {x : Char} (hx : IsSeparator x) (m : ScanState) (k : Nat) (u z : Text) :
    lexEnd m k u (x :: z) = lexEnd m k u [x] := by
  induction u generalizing m k with
  | nil => rfl
  | cons c u ih =>
    cases k with
    | succ k => exact ih m k
    | zero =>
      simp only [lexEnd, lexStep_stable hx m c u z]
      exact ih _ _

theorem plainSplits_stable {x : Char} (hx : IsSeparator x) (m : ScanState) (k : Nat)
    (before u z : Text) : plainSplits m k before u (x :: z) =
      (plainSplits m k before u [x]).map fun p => (p.1, p.2.1, p.2.2 ++ z) := by
  induction u generalizing m k before with
  | nil => rfl
  | cons c u ih =>
    cases k with
    | succ k => exact ih m k _
    | zero =>
      simp only [plainSplits, lexStep_stable hx m c u z, map_append, ih]
      congr 1
      split <;> simp

/-- What stands behind a plain character ends in what stands behind the stretch. -/
theorem plainSplits_behind {m : ScanState} {k : Nat} {before u v : Text}
    {p : Text × Char × Text} (h : p ∈ plainSplits m k before u v) :
    ∃ u₁ u₂, u = u₁ ++ p.2.1 :: u₂ ∧ p.1 = before ++ u₁ ∧ p.2.2 = u₂ ++ v := by
  induction u generalizing m k before with
  | nil => cases h
  | cons c u ih =>
    cases k with
    | succ k =>
      obtain ⟨u₁, u₂, h1, h2, h3⟩ := ih h
      exact ⟨c :: u₁, u₂, by rw [h1]; rfl, by rw [h2]; simp, h3⟩
    | zero =>
      simp only [plainSplits, mem_append] at h
      rcases h with h | h
      · split at h
        · rw [mem_singleton.mp h]
          exact ⟨[], u, rfl, by simp, rfl⟩
        · cases h
      · obtain ⟨u₁, u₂, h1, h2, h3⟩ := ih h
        exact ⟨c :: u₁, u₂, by rw [h1]; rfl, by rw [h2]; simp, h3⟩

/-! ## 4. A stretch without a separator -/

/-- What a scan keeps in mind of a block, once asked: that it is one. -/
def Scan.Settled (s : Scan) : Prop := s.plsqlChecked = true → s.isPlsql = true

theorem Scan.checkPlsql_same (s : Scan) : s.checkPlsql.state = s.state ∧
    s.checkPlsql.buf = s.buf ∧ s.checkPlsql.statements = s.statements ∧
    s.checkPlsql.plsqlChecked = true := by
  unfold Scan.checkPlsql
  split
  · rename_i h
    exact ⟨rfl, rfl, rfl, h⟩
  · exact ⟨rfl, rfl, rfl, rfl⟩

/-- A character that ends nothing goes into the buffer. -/
theorem Scan.step_keep {s : Scan} {c : Char} (rest : Text) (hset : s.Settled)
    (hsemi : (lexStep s.state c rest).2.2 = true → c = ';' →
      s.plsqlChecked = true ∨ detectPlsqlStart s.buf = true)
    (hslash : (lexStep s.state c rest).2.2 = true → c = '/' → slashAlone s.buf rest = false) :
    ∃ s', s.step c rest = (s', (lexStep s.state c rest).2.1, 0) ∧
      s'.state = (lexStep s.state c rest).1 ∧ s'.buf = s.buf ++ [c] ∧
      s'.statements = s.statements ∧ s'.Settled ∧
      (((lexStep s.state c rest).2.2 = true → c ≠ ';') → s'.plsqlChecked = s.plsqlChecked) ∧
      (s.plsqlChecked = true → s'.plsqlChecked = true) := by
  unfold Scan.step
  cases hp : (lexStep s.state c rest).2.2 with
  | false =>
    refine ⟨{ s.push c with state := (lexStep s.state c rest).1 }, ?_, rfl, rfl, rfl, hset,
      fun _ => rfl, id⟩
    simp only [hp, if_true]
  | true =>
    obtain ⟨hcode, hlex⟩ := lexStep_plain hp
    rw [hlex]
    simp only [Bool.true_eq_false, if_false]
    by_cases hc : c = ';'
    · have hplsql : s.checkPlsql.isPlsql = true := by
        unfold Scan.checkPlsql
        split
        · rename_i h
          exact hset h
        · rename_i h
          exact (hsemi hp hc).resolve_left h
      refine ⟨s.checkPlsql.push c, by rw [if_pos hc, if_pos hplsql], ?_⟩
      obtain ⟨h1, h2, h3, h4⟩ := s.checkPlsql_same
      exact ⟨h1.trans hcode, congrArg (· ++ [c]) h2, h3, fun _ => hplsql,
        fun h => absurd hc (h trivial), fun _ => h4⟩
    · refine ⟨s.push c, ?_, hcode, rfl, rfl, hset, fun _ => rfl, id⟩
      rw [if_neg hc, if_neg]
      rintro ⟨hsl, halone⟩
      rw [hslash hp hsl] at halone
      cases halone

/-- **A stretch without a separator goes into the buffer as it is**: no plain `;` but inside a
    PL/SQL block, no plain `/` alone on its line. -/
theorem scanFrom_keep (u v : Text) {s : Scan} {k : Nat} {before F : Text}
    (hbuf : s.buf = F ++ before) (hset : s.Settled)
    (hsemi : ∀ p ∈ plainSplits s.state k before u v, p.2.1 = ';' →
      s.plsqlChecked = true ∨ detectPlsqlStart (F ++ p.1) = true)
    (hslash : ∀ p ∈ plainSplits s.state k before u v, p.2.1 = '/' →
      slashAlone (F ++ p.1) p.2.2 = false) :
    ∃ s', scanFrom s k 0 (u ++ v) = scanFrom s' (lexEnd s.state k u v).2 0 v ∧
      s'.state = (lexEnd s.state k u v).1 ∧ s'.buf = F ++ before ++ u ∧
      s'.statements = s.statements ∧ s'.Settled ∧
      ((∀ p ∈ plainSplits s.state k before u v, p.2.1 ≠ ';') →
        s'.plsqlChecked = s.plsqlChecked) ∧
      (s.plsqlChecked = true → s'.plsqlChecked = true) := by
  induction u generalizing s k before with
  | nil =>
    exact ⟨s, rfl, rfl, by rw [append_nil]; exact hbuf, rfl, hset, fun _ => rfl, id⟩
  | cons c u ih =>
    cases k with
    | succ k =>
      obtain ⟨s', h1, h2, h3, h4, h5, h6, h7⟩ := ih (s := s.push c) (k := k)
        (show (s.push c).buf = F ++ (before ++ [c]) by rw [Scan.push, hbuf]; simp) hset hsemi hslash
      exact ⟨s', h1, h2, by rw [h3]; simp, h4, h5, h6, h7⟩
    | zero =>
      obtain ⟨s₀, hs₀, hst, hb, hout, hset₀, hch⟩ : ∃ s₀ : Scan,
          (if c = '\n' then { s with line := s.line + 1 } else s) = s₀ ∧ s₀.state = s.state ∧
          s₀.buf = s.buf ∧ s₀.statements = s.statements ∧ s₀.Settled ∧
          s₀.plsqlChecked = s.plsqlChecked := by
        refine ⟨_, rfl, ?_⟩
        split <;> exact ⟨rfl, rfl, rfl, hset, rfl⟩
      have hhere : (lexStep s₀.state c (u ++ v)).2.2 = true →
          (before, c, u ++ v) ∈ plainSplits s.state 0 before (c :: u) v := by
        intro hp
        rw [hst] at hp
        simp [plainSplits, hp]
      obtain ⟨s₁, e1, e2, e3, e4, e5, e6, e7⟩ := Scan.step_keep (c := c) (u ++ v) hset₀
        (fun hp hc => by rw [hb, hbuf, hch]; exact hsemi (before, c, u ++ v) (hhere hp) hc)
        (fun hp hc => by rw [hb, hbuf]; exact hslash (before, c, u ++ v) (hhere hp) hc)
      rw [hst] at e1 e2
      have hmem : ∀ p ∈ plainSplits s₁.state (lexStep s.state c (u ++ v)).2.1 (before ++ [c]) u v,
          p ∈ plainSplits s.state 0 before (c :: u) v := by
        intro p hp
        rw [e2] at hp
        exact mem_append_right _ hp
      have hkept : s.plsqlChecked = true → s₁.plsqlChecked = true := fun h => e7 (hch.trans h)
      obtain ⟨s', h1, h2, h3, h4, h5, h6, h7⟩ := ih (s := s₁)
        (k := (lexStep s.state c (u ++ v)).2.1)
        (show s₁.buf = F ++ (before ++ [c]) by rw [e3, hb, hbuf]; simp) e5
        (fun p hp hc => (hsemi p (hmem p hp) hc).imp_left hkept)
        (fun p hp => hslash p (hmem p hp))
      rw [e2] at h1 h2
      refine ⟨s', ?_, h2, by rw [h3]; simp, h4.trans (e4.trans hout), h5, fun hno => ?_,
        fun h => h7 (hkept h)⟩
      · rw [cons_append, scanFrom, hs₀, e1]
        exact h1
      · have hno₁ : ∀ p ∈ plainSplits s₁.state (lexStep s.state c (u ++ v)).2.1 (before ++ [c]) u v,
            p.2.1 ≠ ';' := by
          intro p hp
          exact hno p (hmem p hp)
        have hlater := h6 hno₁
        have hnow : s₁.plsqlChecked = s₀.plsqlChecked := by
          refine e6 fun hp => ?_
          exact hno (before, c, u ++ v) (hhere hp)
        rw [hlater, hnow, hch]

end Veesker.Splitter
