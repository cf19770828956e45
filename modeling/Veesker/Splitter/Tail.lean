/-
  File:      Veesker/Splitter/Tail.lean
  Subject:   A TEXT WITHOUT ITS TRAILING COMMENTS, as the splitter's lexer reads it.

  A character counts if it is neither white space nor in a comment; the text up to the last one that
  counts is what two texts share that differ in trailing comments and white space only.

  * `solid_separator` -- a `;` or a `/` in plain code counts;
  * `solid_append` -- what adds nothing at the end of a text leaves it as it is;
  * `kept_or_cut` -- a scan keeps the whole text, or cuts it at a first place.
-/
import Veesker.Splitter.Stable
import Veesker.Splitter.Leading

namespace Veesker.Splitter

open List

open Leading (isComment)

/-! ## 1. What counts -/

/-- The character is code or stands in a literal. -/
def significant (m : ScanState) (c : Char) (rest : Text) : Bool :=
  !(isComment m || isComment (lexStep m c rest).1) && !((lexStep m c rest).2.2 && isSpace c)

/-- One character more, in front of `n`. -/
def solidMore (counts : Bool) (n : Nat) : Nat := if n = 0 ∧ counts = false then 0 else n + 1

/-- How many characters there are up to the last that counts; one that was taken along counts as the
    one in front of it. -/
def solidFrom : ScanState → Nat → Bool → Text → Nat
  | _, _, _, [] => 0
  | m, keep + 1, counts, _ :: cs => solidMore counts (solidFrom m keep counts cs)
  | m, 0, _, c :: cs =>
    let r := lexStep m c cs
    solidMore (significant m c cs) (solidFrom r.1 r.2.1 (significant m c cs) cs)

def solidLength (s : Text) : Nat := solidFrom .code 0 false s

def withoutTail (s : Text) : Text := s.take (solidLength s)

section

-- The equations of these definitions, made once for the proofs below.
attribute [local simp] significant solidMore solidFrom

end

variable {counts : Bool}

theorem solidMore_le {n l : Nat} (h : n ≤ l) : solidMore counts n ≤ l + 1 := by
  unfold solidMore
  split <;> omega

theorem solidMore_pos {n : Nat} (h : 0 < n ∨ counts = true) :
    solidMore counts n = n + 1 := by
  unfold solidMore
  refine if_neg ?_
  intro ⟨hn, hc⟩
  rcases h with h | h
  · omega
  · rw [h] at hc
    cases hc

theorem solidFrom_le (m : ScanState) (k : Nat) (counts : Bool) (s : Text) :
    solidFrom m k counts s ≤ s.length := by
  induction s generalizing m k counts with
  | nil => exact Nat.le_refl 0
  | cons c cs ih =>
    cases k with
    | succ k => exact solidMore_le (ih m k counts)
    | zero => exact solidMore_le (ih _ _ _)

variable {x : Char}

theorem lexStep_separator {z : Text} (hx : x = ';' ∨ x = '/' ∧ z.head? ≠ some '*') :
    lexStep .code x z = (.code, 0, true) := by
  rcases hx with rfl | ⟨rfl, hz⟩
  · rfl
  · simp [lexStep, hz, qOpens]

/-- **A separator in plain code counts.** -/
theorem solid_separator {m : ScanState} {k : Nat} {u z : Text}
    (h : lexEnd m k u (x :: z) = (.code, 0)) (hx : x = ';' ∨ x = '/' ∧ z.head? ≠ some '*') :
    u.length < solidFrom m k counts (u ++ x :: z) := by
  induction u generalizing m k counts with
  | nil =>
    cases h
    have hcounts : significant .code x z = true := by
      rw [significant, lexStep_separator hx]
      rcases hx with rfl | ⟨rfl, -⟩ <;> decide
    rw [nil_append, solidFrom, hcounts, solidMore_pos (.inr rfl)]
    exact Nat.succ_pos _
  | cons c u ih =>
    cases k with
    | succ k =>
      have hlt : u.length < solidFrom m k counts (u ++ x :: z) := ih h
      rw [cons_append, solidFrom, solidMore_pos (.inl (by omega)), length_cons]
      omega
    | zero =>
      have hlt : u.length < solidFrom (lexStep m c (u ++ x :: z)).1 (lexStep m c (u ++ x :: z)).2.1
          (significant m c (u ++ x :: z)) (u ++ x :: z) := ih h
      rw [cons_append, solidFrom, solidMore_pos (.inl (by omega)), length_cons]
      omega

/-- What begins a block comment does not count. -/
theorem solid_blockComment {m : ScanState} {k : Nat} {u z : Text}
    (h : lexEnd m k u ('/' :: '*' :: z) = (.code, 0)) :
    solidFrom m k counts (u ++ '/' :: '*' :: z) ≠ u.length + 1 := by
  have hmore : ∀ (b : Bool) (n l : Nat), 0 < l → n ≠ l → solidMore b n ≠ l + 1 := by
    intro b n l hl hne
    unfold solidMore
    split <;> omega
  induction u generalizing m k counts with
  | nil =>
    cases h
    rw [nil_append, solidFrom]
    change solidMore false (solidMore false (solidFrom .inBlockComment 0 false z)) ≠ 1
    unfold solidMore
    grind
  | cons c u ih =>
    cases k with
    | succ k => exact hmore _ _ _ (Nat.succ_pos _) (ih h)
    | zero => exact hmore _ _ _ (Nat.succ_pos _) (ih h)

/-- Nothing in a line comment counts. -/
theorem solid_comment {y : Text} (hy : '\n' ∉ y) (counts : Bool) :
    solidFrom .inLineComment 0 counts y = 0 := by
  induction y generalizing counts with
  | nil => rfl
  | cons c y ih =>
    have hc : c ≠ '\n' := fun e => hy (e ▸ mem_cons_self)
    have hlex : lexStep .inLineComment c y = (.inLineComment, 0, false) := by
      simp [lexStep, hc]
    rw [solidFrom, hlex]
    have hno : significant .inLineComment c y = false := rfl
    rw [hno, ih (fun h => hy (mem_cons_of_mem c h))]
    rfl

theorem lexEnd_pending {m : ScanState} {k : Nat} {u v : Text} (h : (lexEnd m k u v).2 = 0) :
    k ≤ u.length := by
  induction u generalizing m k with
  | nil => exact Nat.le_of_eq h
  | cons c u ih =>
    cases k with
    | succ k => exact Nat.succ_le_succ (ih h)
    | zero => exact Nat.zero_le _

/-- **What adds nothing leaves the text as it is.** -/
theorem solid_append {y : Text} (hy : Quiet y) {m : ScanState} {k : Nat} {u : Text}
    (hk : (lexEnd m k u y).2 = 0)
    (hnone : ∀ counts, solidFrom (lexEnd m k u y).1 0 counts y = 0) :
    solidFrom m k counts (u ++ y) = solidFrom m k counts u := by
  induction u generalizing m k counts with
  | nil =>
    have hk' : k = 0 := hk
    subst hk'
    exact hnone counts
  | cons c u ih =>
    cases k with
    | succ k => exact congrArg (solidMore counts) (ih hk hnone)
    | zero =>
      have hlex : lexStep m c u = lexStep m c (u ++ y) := by
        have h := lexStep_end hy m c u (lexEnd_pending hk)
        rwa [append_nil] at h
      rw [cons_append, solidFrom, solidFrom, significant, significant, hlex]
      exact congrArg _ (ih hk hnone)

/-- What two texts share at their start, as far as it counts. -/
theorem prefix_of_withoutTail {a b p : Text} (h : withoutTail a = withoutTail b) (hp : p <+: a)
    (hlen : p.length ≤ solidLength a) : p <+: b := by
  have h1 : p <+: withoutTail a := by
    rw [withoutTail, prefix_take_iff]
    exact ⟨hp, hlen⟩
  rw [h] at h1
  exact h1.trans (List.take_prefix _ _)

/-! ## 2. The first cut of a scan -/

theorem Kept.lexed {v u : Text} {s s' : Scan} {k k' : Nat} (h : Kept v s k u s' k') :
    lexEnd s.state k u v = (s'.state, k') := by
  induction h with
  | nil s k => rfl
  | inside _ ih => exact ih
  | here _ _ ih =>
    rw [Scan.take_state, Scan.counted_state] at ih
    exact ih

/-- **A scan keeps the whole text, or cuts it at a first place.** -/
theorem kept_or_cut (rest : Text) (s : Scan) (k : Nat) :
    (∃ r l, Kept [] s k rest r l) ∨
      ∃ u x z r, rest = u ++ x :: z ∧ Kept (x :: z) s k u r 0 ∧ ¬ (r.counted x).Keeps x z := by
  induction rest generalizing s k with
  | nil => exact .inl ⟨s, k, .nil s k⟩
  | cons c rest ih =>
    cases k with
    | succ k =>
      rcases ih (s.push c) k with ⟨r, l, h⟩ | ⟨u, x, z, r, hrest, h, hcut⟩
      · exact .inl ⟨r, l, .inside h⟩
      · subst hrest
        exact .inr ⟨c :: u, x, z, r, rfl, .inside h, hcut⟩
    | zero =>
      by_cases hkeeps : (s.counted c).Keeps c rest
      · rcases ih ((s.counted c).take c rest) (lexStep s.state c rest).2.1 with
          ⟨r, l, h⟩ | ⟨u, x, z, r, hrest, h, hcut⟩
        · refine .inl ⟨r, l, .here ?_ ?_⟩
          · rwa [append_nil]
          · rwa [append_nil]
        · subst hrest
          exact .inr ⟨c :: u, x, z, r, rfl, .here hkeeps h, hcut⟩
      · exact .inr ⟨[], c, rest, s, rfl, .nil s 0, hkeeps⟩

/-- What cuts a scan in front of `z`, and where the scan goes on. -/
inductive Cut (r : Scan) : Char → Text → Text → Prop where
  | semicolon {z : Text} (h : r.checkPlsql.isPlsql = false) : Cut r ';' z z
  | slash {tail z : Text} (hline : Blank (lastLine r.buf)) (ht : ∀ c ∈ tail, isSlashTail c = true)
      (hz : z.head?.all (· == '\n') = true) : Cut r '/' (tail ++ z) (z.drop 1)

theorem Cut.separator {r : Scan} {z z' : Text} (h : Cut r x z z') :
    x = ';' ∨ x = '/' ∧ z.head? ≠ some '*' := by
  cases h with
  | semicolon _ => exact .inl rfl
  | @slash tail z hline ht hz =>
    refine .inr ⟨rfl, ?_⟩
    intro h
    cases tail with
    | nil =>
      rw [nil_append] at h
      rw [h] at hz
      cases hz
    | cons c tail =>
      have hc : c = '*' := Option.some.inj h
      have htail := ht c mem_cons_self
      rw [hc] at htail
      cases htail

theorem isSlashTail_space {tail : Text} (ht : ∀ c ∈ tail, isSlashTail c = true) : Blank tail :=
  fun c hc => isSpace_of_isSlashTail (ht c hc)

theorem cut_of_not_keeps {r : Scan} {z : Text} (h : ¬ (r.counted x).Keeps x z) :
    r.state = .code ∧ ∃ z', Cut r x z z' := by
  unfold Scan.Keeps at h
  rw [Classical.not_imp] at h
  obtain ⟨hp, h⟩ := h
  rw [Scan.counted_state] at hp
  obtain ⟨hcode, -⟩ := lexStep_plain hp
  refine ⟨hcode, ?_⟩
  rw [Scan.counted_buf, not_and_or, Classical.not_imp, Classical.not_imp] at h
  rcases h with ⟨rfl, h⟩ | ⟨rfl, h⟩
  · have hsame : r.counted ';' = r := if_neg (by decide)
    rw [hsame] at h
    exact ⟨z, .semicolon (by simpa using h)⟩
  · obtain ⟨hline, hafter⟩ := slashAlone_iff.mp (by simpa using h)
    have hz : z = z.takeWhile isSlashTail ++ z.dropWhile isSlashTail :=
      takeWhile_append_dropWhile.symm
    rw [hz]
    exact ⟨_, .slash hline (fun c hc => mem_takeWhile_imp hc) hafter⟩

/-- Behind a cut the scan starts anew. -/
theorem scanFrom_cut {r : Scan} {z z' : Text} (hcode : r.state = .code)
    (h : Cut r x z z') : ∃ r', scanFrom r 0 0 (x :: z) = scanFrom r' 0 0 z' ∧ r'.state = .code ∧
      r'.buf = [] ∧ r'.statements = r.flush.statements := by
  cases h with
  | semicolon hno =>
    obtain ⟨h1, h2, h3, -⟩ := r.checkPlsql_same
    refine ⟨r.checkPlsql.flush, ?_, h1.trans hcode, rfl, ?_⟩
    · have hlex : lexStep r.state ';' z = (.code, 0, true) := by
        rw [hcode]
        rfl
      rw [scanFrom, if_neg (by decide), Scan.step_semicolon hlex, hno]
      rfl
    · rw [Scan.flush_statements, Scan.flush_statements, h2, h3]
  | slash hline ht hz =>
    obtain ⟨r', h1, h2, h3, -, h4⟩ := scanFrom_slash hcode hline ht hz
    exact ⟨r', h1, h2, h3, h4⟩

/-! ## 3. Where a statement stands -/

theorem lexEnd_append (m : ScanState) (k : Nat) (a b v : Text) :
    lexEnd m k (a ++ b) v = lexEnd (lexEnd m k a (b ++ v)).1 (lexEnd m k a (b ++ v)).2 b v := by
  induction a generalizing m k with
  | nil => rfl
  | cons c a ih =>
    cases k with
    | succ k => exact ih m k
    | zero =>
      rw [cons_append, lexEnd, lexEnd, append_assoc]
      exact ih _ _

theorem lexEnd_blank {w : Text} (hw : Blank w) (v : Text) :
    lexEnd .code 0 w v = (.code, 0) := by
  induction w with
  | nil => rfl
  | cons c w ih =>
    rw [lexEnd, lexStep_space (hw c mem_cons_self)]
    exact ih (fun d hd => hw d (mem_cons_of_mem c hd))

/-- What a cut drops is white space. -/
theorem Cut.gap {r : Scan} {z z' : Text} (h : Cut r x z z') :
    ∃ gap, z = gap ++ z' ∧ Blank gap := by
  cases h with
  | semicolon _ => exact ⟨[], rfl, nofun⟩
  | @slash tail z hline ht hz =>
    have htail := isSlashTail_space ht
    cases z with
    | nil => exact ⟨tail, rfl, htail⟩
    | cons c z =>
      have hc : c = '\n' := by simpa using hz
      subst hc
      refine ⟨tail ++ ['\n'], by simp, ?_⟩
      intro d hd
      rcases mem_append.mp hd with hd | hd
      · exact htail d hd
      · rw [mem_singleton.mp hd]
        rfl

/-- What is read up to a cut, and from there on behind it. -/
theorem lexEnd_cut {r : Scan} {u : Text} {gap z' pre v : Text}
    (hu : lexEnd .code 0 u (x :: (gap ++ z')) = (.code, 0)) (h : Cut r x (gap ++ z') z')
    (hgap : Blank gap) (hz : z' = pre ++ v) (hpre : lexEnd .code 0 pre v = (.code, 0)) :
    lexEnd .code 0 (u ++ x :: (gap ++ pre)) v = (.code, 0) := by
  have hbehind : x :: (gap ++ pre) ++ v = x :: (gap ++ z') := by
    rw [hz, cons_append, append_assoc]
  have hstep : lexStep .code x (gap ++ pre ++ v) = (.code, 0, true) := by
    rw [append_assoc, ← hz]
    exact lexStep_separator h.separator
  rw [lexEnd_append, hbehind, hu, lexEnd, hstep, lexEnd_append, lexEnd_blank hgap]
  exact hpre

/-- The text stands behind something after which the lexer reads plain code, and no `*` behind it. -/
def PlacedIn (rest t : Text) : Prop :=
  ∃ pre post, rest = pre ++ (t ++ post) ∧ lexEnd .code 0 pre (t ++ post) = (.code, 0) ∧
    post.head? ≠ some '*'

theorem placedIn_trim (buf : Text) {v : Text} (hv : v.head? ≠ some '*') :
    PlacedIn (buf ++ v) (trim buf) := by
  obtain ⟨w, hsplit, hw⟩ := rdropWhile_split isSpace (trimStart buf)
  have hbuf : buf = buf.takeWhile isSpace ++ (trim buf ++ w) :=
    (takeWhile_append_dropWhile (p := isSpace)).symm.trans
      (congrArg (buf.takeWhile isSpace ++ ·) hsplit)
  refine ⟨buf.takeWhile isSpace, w ++ v, ?_, lexEnd_blank ?_ _, ?_⟩
  · nth_rewrite 1 [hbuf]
    simp only [append_assoc]
  · exact fun c hc => mem_takeWhile_imp hc
  · cases w with
    | nil => exact hv
    | cons c w =>
      intro h
      have hc := hw c mem_cons_self
      rw [Option.some.inj h] at hc
      cases hc

/-- What a stretch that is kept adds to the statements. -/
theorem Kept.flushed {s r : Scan} {k l : Nat} {u v t : Text} (h : Kept v s k u r l)
    (hbuf : s.buf = []) (ht : t ∈ r.flush.statements) : t ∈ s.statements ∨ t = trim u := by
  have hr : r.buf = u := by
    rw [h.buf, hbuf, nil_append]
  rw [r.flush_statements, h.statements, hr] at ht
  split at ht
  · exact .inl ht
  · rcases mem_append.mp ht with ht | ht
    · exact .inl ht
    · exact .inr (mem_singleton.mp ht)

/-- **Where a statement stands the lexer reads plain code.** -/
theorem statement_place {n : Nat} {rest : Text} (hn : rest.length ≤ n) {s : Scan}
    (hcode : s.state = .code) (hbuf : s.buf = []) {t : Text}
    (ht : t ∈ (scanFrom s 0 0 rest).flush.statements) : t ∈ s.statements ∨ PlacedIn rest t := by
  induction n generalizing rest s with
  | zero =>
    have hrest : rest = [] := length_eq_zero_iff.mp (Nat.le_zero.mp hn)
    subst hrest
    rw [scanFrom, s.flush_of_comments (by rw [hbuf]; rfl)] at ht
    exact .inl ht
  | succ n ih =>
    rcases kept_or_cut rest s 0 with ⟨r, l, h⟩ | ⟨u, x, z, r, rfl, h, hcut⟩
    · have hr : scanFrom s 0 0 rest = r := by
        have hscan := h.scan
        rwa [append_nil, scanFrom] at hscan
      rw [hr] at ht
      rcases h.flushed hbuf ht with ht | rfl
      · exact .inl ht
      · have hplace : PlacedIn (rest ++ []) (trim rest) := placedIn_trim rest (by rintro ⟨⟩)
        rw [append_nil] at hplace
        exact .inr hplace
    · obtain ⟨hrcode, z', hcut'⟩ := cut_of_not_keeps hcut
      obtain ⟨r', hscan, hcode', hbuf', hstatements⟩ := scanFrom_cut hrcode hcut'
      obtain ⟨gap, rfl, hgap⟩ := hcut'.gap
      rw [h.scan, hscan] at ht
      have hlength : z'.length ≤ n := by
        simp only [length_append, length_cons] at hn
        omega
      rcases ih hlength hcode' hbuf' ht with ht | ⟨pre, post, hz, hpre, hpost⟩
      · rw [hstatements] at ht
        rcases h.flushed hbuf ht with ht | rfl
        · exact .inl ht
        · refine .inr (placedIn_trim u ?_)
          intro h
          rcases hcut'.separator with hx | ⟨hx, -⟩ <;> rw [hx] at h <;> cases h
      · have hu : lexEnd .code 0 u (x :: (gap ++ z')) = (.code, 0) := by
          have hlexed := h.lexed
          rwa [hcode, hrcode] at hlexed
        refine .inr ⟨u ++ x :: (gap ++ pre), post, ?_, lexEnd_cut hu hcut' hgap hz hpre, hpost⟩
        rw [hz]
        simp only [append_assoc, cons_append]

/-! ## 4. The end of a statement -/

/-- A scan of the same text keeps it in one way. -/
theorem Kept.unique {v u : Text} {s r r' : Scan} {k l l' : Nat} (h : Kept v s k u r l)
    (h' : Kept v s k u r' l') : r = r' := by
  induction h with
  | nil s k =>
    cases h'
    rfl
  | inside _ ih =>
    cases h' with
    | inside h' => exact ih h'
  | here _ _ ih =>
    cases h' with
    | here _ h' => exact ih h'

theorem Kept.settled {v u : Text} {s r : Scan} {k l : Nat} (h : Kept v s k u r l)
    (hs : s.Settled) : r.Settled := by
  induction h with
  | nil s k => exact hs
  | inside _ ih => exact ih hs
  | @here s s' k' c u hk _ ih =>
    refine ih ?_
    have hcounted : (s.counted c).Settled := by
      intro h
      rw [Scan.counted_checked] at h
      rw [Scan.counted_isPlsql]
      exact hs h
    unfold Scan.take
    split
    · rename_i hplain
      rw [Scan.counted_state] at hplain
      intro _
      refine (hk ?_).1 hplain.2
      rw [Scan.counted_state]
      exact hplain.1
    · exact hcounted

theorem Quiet.semicolon {w z : Text} (hw : Blank w) : Quiet (w ++ ';' :: z) := by
  intro c hc
  cases w with
  | nil => exact .inl (Option.some.inj hc).symm
  | cons d w =>
    refine .inr ?_
    rw [← Option.some.inj hc]
    exact hw d mem_cons_self

/-- What stands behind the separator does not matter to what is read before it. -/
theorem lexEnd_before (hx : IsSeparator x) (m : ScanState) (k : Nat) (u w z : Text) :
    lexEnd m k u (w ++ x :: z) = lexEnd m k u (w ++ [x]) := by
  induction u generalizing m k with
  | nil => rfl
  | cons c u ih =>
    cases k with
    | succ k => exact ih m k
    | zero =>
      have h := lexStep_stable hx m c (u ++ w) z
      simp only [append_assoc] at h
      rw [lexEnd, lexEnd, h]
      exact ih _ _

/-- In front of a separator a stretch is kept as it is at the start of a text, whatever follows. -/
theorem Kept.aligned (hx : IsSeparator x) {w u z₁ : Text} {s s' : Scan} (hw : Blank w)
    (h : Kept (x :: z₁) s 0 u s' 0) (ha : Alongside w s {}) (z : Text) :
    ∃ r, Kept (x :: z) {} 0 u r 0 ∧ Alongside w s' r := by
  have hs : s.buf = w := ha.buf.trans (append_nil w)
  have htail : isSlashTail x = false := by
    rcases hx with rfl | rfl <;> decide
  refine h.alongside hw ha ?_ ?_
  · intro m c u₁ u₂ _ _
    exact (lexStep_stable hx m c u₂ z).trans (lexStep_stable hx m c u₂ z₁).symm
  · intro u₁ u₂ _ halone
    obtain ⟨hl, hz⟩ := slashAlone_iff.mp halone
    rw [hs, slashAlone_iff, blank_front hw]
    refine ⟨hl, ?_⟩
    have hsplit : ∀ v, u₂ ++ x :: v = (u₂ ++ [x]) ++ v := fun v => by simp
    have hmem : ∃ c ∈ u₂ ++ [x], isSlashTail c = false := ⟨x, by simp, htail⟩
    rw [hsplit z] at hz
    rw [hsplit z₁, @slashTail_append _ _ z hmem]
    exact hz

/-- Whether a block was seen does not depend on what follows, nor on white space in front. -/
theorem Kept.same_block (hx : IsSeparator x) {w w' u z₁ z₂ : Text} {s₁ s₂ r₁ r₂ : Scan}
    (hw : Blank w) (hw' : Blank w') (h₁ : Kept (x :: z₁) s₁ 0 u r₁ 0) (ha₁ : Alongside w s₁ {})
    (h₂ : Kept (x :: z₂) s₂ 0 u r₂ 0) (ha₂ : Alongside w' s₂ {}) :
    r₁.checkPlsql.isPlsql = r₂.checkPlsql.isPlsql := by
  obtain ⟨r, hr, halong₁⟩ := h₁.aligned hx hw ha₁ []
  obtain ⟨r', hr', halong₂⟩ := h₂.aligned hx hw' ha₂ []
  obtain rfl := hr.unique hr'
  exact (halong₁.checkPlsql hw).plsql.trans (halong₂.checkPlsql hw').plsql.symm

/-- White space that leaves a line comment open has no line break. -/
theorem line_of_open {w v : Text} (hw : Blank w)
    (h : lexEnd .inLineComment 0 w v = (.inLineComment, 0)) : '\n' ∉ w := by
  induction w with
  | nil => exact not_mem_nil
  | cons c w ih =>
    have hw' : Blank w := fun d hd => hw d (mem_cons_of_mem c hd)
    by_cases hc : c = '\n'
    · subst hc
      have hlex : lexEnd .inLineComment 0 ('\n' :: w) v = lexEnd .code 0 w v := rfl
      rw [hlex, lexEnd_blank hw'] at h
      cases h
    · have hlex : lexEnd .inLineComment 0 (c :: w) v = lexEnd .inLineComment 0 w v := by
        rw [lexEnd, lexStep, if_neg hc]
      rw [hlex] at h
      intro hmem
      rcases mem_cons.mp hmem with he | hmem
      · exact hc he.symm
      · exact ih hw' h hmem

/-- **The `;` at the end of a statement** is plain code, or ends an open line comment. -/
theorem Inside.semicolon {b w y : Text} {s s' : Scan} (h : Inside (b ++ [';']) w y s s') :
    lexEnd .code 0 b [';'] = (.code, 0) ∨
      ∃ c sp, b = c ++ sp ∧ c = trimEnd b ∧ Blank sp ∧ '\n' ∉ sp ∧
        lexEnd .code 0 b [';'] = (.inLineComment, 0) ∧
        lexEnd .code 0 c (sp ++ [';']) = (.inLineComment, 0) := by
  have hstart : s.state = .code := h.start.state
  obtain ⟨s₃, k₃, hb, hend⟩ := h.kept.split
  have hnone : Pending s.state 0 s.buf (b ++ ';' :: y) := .none (by rw [hstart]; exact nofun)
  have hpending : Pending s₃.state k₃ s₃.buf (';' :: y) := hb.pending hnone
  have hread : lexEnd s.state 0 b (';' :: y) = (s₃.state, k₃) := hb.lexed
  rw [hstart, lexEnd_stable (.inl rfl)] at hread
  cases hend with
  | inside hend =>
    -- a pending `;` would be the delimiter of a q-quote, which stays open
    cases hend
    rcases hpending.ahead with hk | ⟨d, hd⟩ | ⟨-, c, hc, -, hno, -⟩
    · cases hk
    · have hclosed : s₃.state.Closed := h.closed
      rw [hd] at hclosed
      rcases hclosed with he | he <;> cases he
    · exact absurd (Option.some.inj hc).symm hno
  | here _ hend =>
    have hstate : s'.state = (lexStep s₃.state ';' y).1 := by
      rw [← Scan.counted_state s₃ ';', ← Scan.take_state]
      generalize (lexStep s₃.state ';' ([] ++ y)).2.1 = n at hend
      cases hend
      rfl
    have hclosed := h.closed
    rw [hstate] at hclosed
    have hs₃ : s₃.state.Closed := by
      cases hm : s₃.state with
      | code => exact .inl rfl
      | inLineComment => exact .inr rfl
      | inBlockComment =>
        rw [hm] at hclosed
        rcases hclosed with he | he <;> simp [lexStep] at he
      | inSingleString =>
        rw [hm] at hclosed
        rcases hclosed with he | he <;> simp [lexStep] at he
      | inDoubleString =>
        rw [hm] at hclosed
        rcases hclosed with he | he <;> simp [lexStep] at he
      | inQString d =>
        have hquote : y.head? ≠ some '\'' := h.quiet.head (by decide)
        rw [hm] at hclosed
        rcases hclosed with he | he <;> simp [lexStep, hquote] at he
    rcases hs₃ with hm | hm
    · rw [hm] at hread
      exact .inl hread
    · rw [hm] at hread
      obtain ⟨sp, hsplit, hsp⟩ := rdropWhile_split isSpace b
      refine .inr ⟨trimEnd b, sp, hsplit, rfl, hsp, ?_⟩
      have hkept : Kept (';' :: y) s 0 (trimEnd b ++ sp) s₃ 0 := by
        rw [← show b = trimEnd b ++ sp from hsplit]
        exact hb
      obtain ⟨s₂, k₂, hc, hback⟩ := hkept.split
      obtain ⟨hk₂, hs₂⟩ := hback.back (.inr hm)
        (hc.pending (.none (by rw [hstart]; exact nofun))) hsp (by simp)
      subst hk₂
      have hafter := hback.lexed
      have hbefore := hc.lexed
      rw [hm] at hafter
      rw [hstart, lexEnd_before (.inl rfl)] at hbefore
      rcases hs₂ with hm₂ | hm₂
      · rw [hm₂, lexEnd_blank hsp] at hafter
        cases hafter
      · rw [hm₂] at hafter hbefore
        exact ⟨line_of_open hsp hafter, hread, hbefore⟩

/-- **A separator in a statement's plain code ends nothing there.** -/
theorem Inside.separator (hx : IsSeparator x) {u v w y : Text} {s s' : Scan}
    (h : Inside (u ++ x :: v) w y s s') (hu : lexEnd .code 0 u [x] = (.code, 0))
    (hv : x = '/' → v.head? ≠ some '*') :
    ∃ r, Kept (x :: (v ++ y)) s 0 u r 0 ∧ (x = ';' → r.checkPlsql.isPlsql = true) ∧
      (x = '/' → slashAlone r.buf (v ++ y) = false) := by
  obtain ⟨r, k, hbefore, hafter⟩ := h.kept.split
  have hread : lexEnd s.state 0 u (x :: (v ++ y)) = (r.state, k) := hbefore.lexed
  rw [show s.state = .code from h.start.state, lexEnd_stable hx, hu] at hread
  obtain ⟨hcode, hk⟩ := Prod.mk.inj hread
  subst hk
  refine ⟨r, hbefore, ?_⟩
  cases hafter with
  | here hkeeps _ =>
    have hplain : (lexStep (r.counted x).state x (v ++ y)).2.2 = true := by
      rw [Scan.counted_state, ← hcode, lexStep_separator]
      rcases hx with rfl | rfl
      · exact .inl rfl
      · refine .inr ⟨rfl, ?_⟩
        cases v with
        | nil => exact h.quiet.head (by decide)
        | cons c v => exact hv rfl
    obtain ⟨hsemi, hslash⟩ := hkeeps hplain
    have hsame : r.counted x = r := by
      rcases hx with rfl | rfl <;> exact if_neg (by decide)
    rw [hsame] at hsemi hslash
    exact ⟨hsemi, hslash⟩

end Veesker.Splitter
