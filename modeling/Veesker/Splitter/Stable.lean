/-
  File:      Veesker/Splitter/Stable.lean
  Subject:   A STATEMENT OF THE SPLITTER, SPLIT AGAIN.

  A statement is cut out of its context, and the scan of the statement alone has to decide the
  same again: the same quotes and comments, the same block, the same slashes. `Kept` is a stretch
  that goes into the buffer character by character, with what stands behind it in view; a
  statement is the trimmed text of such a stretch (`statement_segment`), and the scan of the
  trimmed text walks beside the scan of the stretch (`Kept.alongside`).

  Main result: `splitSql_stable` -- a statement is split into itself, unless its last line is a
  lone slash, which the scan of the statement drops.
-/
import Veesker.Splitter.Lines

namespace Veesker.Splitter

open List

/-! ## 1. One character kept -/

/-- `if (ch === "\n") line++`. -/
def Scan.counted (s : Scan) (c : Char) : Scan :=
  if c = '\n' then { s with line := s.line + 1 } else s

/-- The character ends nothing: no `;` outside a block, no `/` alone on its line. -/
def Scan.Keeps (s : Scan) (c : Char) (rest : Text) : Prop :=
  (lexStep s.state c rest).2.2 = true →
    (c = ';' → s.checkPlsql.isPlsql = true) ∧ (c = '/' → slashAlone s.buf rest = false)

/-- The scan after a character it keeps. -/
def Scan.take (s : Scan) (c : Char) (rest : Text) : Scan :=
  if (lexStep s.state c rest).2.2 = true ∧ c = ';' then s.checkPlsql.push c
  else { s.push c with state := (lexStep s.state c rest).1 }

variable {c : Char} {s : Scan} {rest : Text}

theorem Scan.step_take (h : s.Keeps c rest) :
    s.step c rest = (s.take c rest, (lexStep s.state c rest).2.1, 0) := by
  unfold Scan.step Scan.take
  cases hp : (lexStep s.state c rest).2.2 with
  | false => simp [hp]
  | true =>
    obtain ⟨hcode, hlex⟩ := lexStep_plain hp
    obtain ⟨hsemi, hslash⟩ := h hp
    rw [hlex]
    simp only [Bool.true_eq_false, if_false, true_and]
    by_cases h1 : c = ';'
    · rw [if_pos h1, if_pos (hsemi h1), if_pos h1]
    · have h2 : ¬(c = '/' ∧ slashAlone s.buf rest = true) := fun ⟨e, ha⟩ => by
        rw [hslash e] at ha
        cases ha
      rw [if_neg h1, if_neg h2, if_neg h1, ← hcode]
      rfl

theorem Scan.take_state :
    (s.take c rest).state = (lexStep s.state c rest).1 := by
  unfold Scan.take
  split
  · rename_i h
    obtain ⟨hcode, hlex⟩ := lexStep_plain h.1
    rw [hlex]
    exact s.checkPlsql_same.1.trans hcode
  · rfl

theorem Scan.take_buf :
    (s.take c rest).buf = s.buf ++ [c] := by
  unfold Scan.take
  split
  · exact congrArg (· ++ [c]) s.checkPlsql_same.2.1
  · rfl

theorem Scan.take_statements :
    (s.take c rest).statements = s.statements := by
  unfold Scan.take
  split
  · exact s.checkPlsql_same.2.2.1
  · rfl

@[simp] theorem Scan.counted_state (s : Scan) (c : Char) : (s.counted c).state = s.state := by
  unfold Scan.counted
  split <;> rfl

@[simp] theorem Scan.counted_buf (s : Scan) (c : Char) : (s.counted c).buf = s.buf := by
  unfold Scan.counted
  split <;> rfl

@[simp] theorem Scan.counted_statements (s : Scan) (c : Char) :
    (s.counted c).statements = s.statements := by
  unfold Scan.counted
  split <;> rfl

@[simp] theorem Scan.counted_checked (s : Scan) (c : Char) :
    (s.counted c).plsqlChecked = s.plsqlChecked := by
  unfold Scan.counted
  split <;> rfl

@[simp] theorem Scan.counted_isPlsql (s : Scan) (c : Char) :
    (s.counted c).isPlsql = s.isPlsql := by
  unfold Scan.counted
  split <;> rfl

/-! ## 2. A stretch that is kept -/

/-- From one scan to the other the whole stretch `u` goes into the buffer, with `v` behind it. -/
inductive Kept (v : Text) : Scan → Nat → Text → Scan → Nat → Prop where
  | nil (s : Scan) (k : Nat) : Kept v s k [] s k
  | inside {s s' : Scan} {k k' : Nat} {c : Char} {u : Text} (h : Kept v (s.push c) k u s' k') :
      Kept v s (k + 1) (c :: u) s' k'
  | here {s s' : Scan} {k' : Nat} {c : Char} {u : Text} (hk : (s.counted c).Keeps c (u ++ v))
      (h : Kept v ((s.counted c).take c (u ++ v)) (lexStep s.state c (u ++ v)).2.1 u s' k') :
      Kept v s 0 (c :: u) s' k'

variable {s' : Scan} {s r : Scan} {k k' : Nat}

namespace Kept

theorem buf {v u : Text} (h : Kept v s k u s' k') :
    s'.buf = s.buf ++ u := by
  induction h with
  | nil s k => simp
  | inside _ ih =>
    rw [ih, Scan.push]
    simp
  | here _ _ ih =>
    rw [ih, Scan.take_buf, Scan.counted_buf]
    simp

theorem statements {v u : Text} (h : Kept v s k u s' k') :
    s'.statements = s.statements := by
  induction h with
  | nil s k => rfl
  | inside _ ih => exact ih
  | here _ _ ih => rw [ih, Scan.take_statements, Scan.counted_statements]

theorem scan {v u : Text} (h : Kept v s k u s' k') :
    scanFrom s k 0 (u ++ v) = scanFrom s' k' 0 v := by
  induction h with
  | nil s k => rfl
  | inside _ ih => exact ih
  | @here s s' k' c u hk _ ih =>
    have hs := Scan.step_take hk
    rw [Scan.counted_state] at hs
    rw [cons_append, scanFrom]
    show scanFrom ((s.counted c).step c (u ++ v)).1 ((s.counted c).step c (u ++ v)).2.1
      ((s.counted c).step c (u ++ v)).2.2 (u ++ v) = _
    rw [hs]
    exact ih

theorem append {v a b : Text} {s t r : Scan} {k l m : Nat} (h : Kept (b ++ v) s k a t l)
    (h' : Kept v t l b r m) : Kept v s k (a ++ b) r m := by
  induction h with
  | nil s k => exact h'
  | inside _ ih => exact .inside (ih h')
  | here hk _ ih =>
    rw [← append_assoc] at hk ih
    exact .here hk (ih h')

theorem split {v a b : Text} {k m : Nat} (h : Kept v s k (a ++ b) r m) :
    ∃ t l, Kept (b ++ v) s k a t l ∧ Kept v t l b r m := by
  induction a generalizing s k with
  | nil => exact ⟨s, k, .nil s k, h⟩
  | cons c a ih =>
    cases h with
    | inside h =>
      obtain ⟨t, l, h1, h2⟩ := ih h
      exact ⟨t, l, .inside h1, h2⟩
    | here hk h =>
      obtain ⟨t, l, h1, h2⟩ := ih h
      have e : a.append b ++ v = a ++ (b ++ v) := append_assoc a b v
      rw [e] at hk h1
      exact ⟨t, l, .here hk h1, h2⟩

/-- More characters may be pending than the stretch has: the rest of them stay pending. -/
theorem pending_lt {v u : Text} {k : Nat} (h : Kept v s k u s' 0) :
    k ≤ u.length := by
  induction u generalizing s k with
  | nil =>
    cases h
    exact Nat.le_refl 0
  | cons c u ih =>
    cases h with
    | inside h => exact Nat.succ_le_succ (ih h)
    | here _ _ => exact Nat.zero_le _

end Kept

/-! ## 3. What is pending -/

/-- Nothing but white space on the line so far. -/
def Blank (line : Text) : Prop := ∀ c ∈ line, isSpace c = true

theorem trim_eq_nil {s : Text} : trim s = [] ↔ Blank s := by
  constructor
  · intro h c hc
    obtain ⟨d, hd, hsp⟩ := trimStart_split s
    obtain ⟨w, he, hw⟩ := rdropWhile_split isSpace (trimStart s)
    have ht : (trimStart s).rdropWhile isSpace = [] := h
    rw [ht, nil_append] at he
    rw [hd, he] at hc
    exact (mem_append.mp hc).elim (hsp c) (hw c)
  · intro h
    rw [trim, trimStart_of_spaces h]
    rfl

theorem slashAlone_iff {before after : Text} : slashAlone before after = true ↔
    Blank (lastLine before) ∧ (after.dropWhile isSlashTail).head?.all (· == '\n') = true := by
  rw [slashAlone, Bool.and_eq_true, beq_iff_eq, trim_eq_nil]

theorem lastLine_concat (b : Text) (c : Char) :
    lastLine (b ++ [c]) = if c = '\n' then [] else lastLine b ++ [c] := by
  unfold lastLine List.rtakeWhile
  rw [reverse_append, reverse_singleton, singleton_append, takeWhile_cons]
  by_cases h : c = '\n' <;> simp [h]

theorem not_blank_concat {b : Text} (h : isSpace c = false) :
    ¬ Blank (lastLine (b ++ [c])) := by
  have hc : c ≠ '\n' := by
    rintro rfl
    exact absurd h (by decide)
  rw [lastLine_concat, if_neg hc]
  intro hb
  have := hb c (by simp)
  rw [h] at this
  cases this

/-- What is known of a scan that has characters pending: they are the delimiter of a q-quote, or
    one that is seen and no white space; and a line comment stands behind its two dashes. -/
structure Pending (m : ScanState) (k : Nat) (before rest : Text) : Prop where
  ahead : k = 0 ∨ (∃ d, m = .inQString d) ∨
    (k = 1 ∧ ∃ c, rest.head? = some c ∧ isSpace c = false ∧ c ≠ ';' ∧
      (c = '/' → ¬ Blank (lastLine before)))
  line : m = .inLineComment → ¬ Blank (lastLine before)

namespace Pending

variable {before rest : Text}

/-- One character more that is seen and belongs to the one just read. -/
theorem one {m : ScanState} {c d : Char} (hc : isSpace c = false)
    (hd : rest.head? = some d) (hsp : isSpace d = false) (hsemi : d ≠ ';') :
    Pending m 1 (before ++ [c]) rest :=
  ⟨.inr (.inr ⟨rfl, d, hd, hsp, hsemi, fun _ => not_blank_concat hc⟩), fun _ => not_blank_concat hc⟩

theorem none {m : ScanState} (h : m ≠ .inLineComment) :
    Pending m 0 before rest :=
  ⟨.inl rfl, fun e => absurd e h⟩

theorem step {m : ScanState} (h : Pending m 0 before (c :: rest)) :
    Pending (lexStep m c rest).1 (lexStep m c rest).2.1 (before ++ [c]) rest := by
  cases m with
  | code =>
    simp only [lexStep]
    split
    · rename_i h1
      exact one (by rw [h1.1]; decide) h1.2 (by decide) (by decide)
    · split
      · rename_i h1
        exact one (by rw [h1.1]; decide) h1.2 (by decide) (by decide)
      · split
        · exact none (by rintro ⟨⟩)
        · cases qOpens c rest with
          | some p => exact ⟨.inr (.inl ⟨_, rfl⟩), by rintro ⟨⟩⟩
          | none =>
            simp only
            split
            · rename_i h1
              exact one (by rcases h1.1 with e | e <;> rw [e] <;> decide) h1.2 (by decide) (by decide)
            · split
              · exact none (by rintro ⟨⟩)
              · exact none (by rintro ⟨⟩)
  | inLineComment =>
    simp only [lexStep]
    split
    · exact none (by rintro ⟨⟩)
    · rename_i hc
      refine ⟨.inl rfl, fun _ hb => h.line rfl fun d hd => hb d ?_⟩
      rw [lastLine_concat, if_neg hc]
      exact mem_append_left _ hd
  | inBlockComment =>
    simp only [lexStep]
    split
    · rename_i h1
      exact one (by rw [h1.1]; decide) h1.2 (by decide) (by decide)
    · exact none (by rintro ⟨⟩)
  | inSingleString =>
    simp only [lexStep]
    split
    · rename_i h1
      exact one (by rw [h1.1]; decide) h1.2 (by decide) (by decide)
    · split <;> exact none (by rintro ⟨⟩)
  | inDoubleString =>
    simp only [lexStep]
    split
    · rename_i h1
      exact one (by rw [h1.1]; decide) h1.2 (by decide) (by decide)
    · split <;> exact none (by rintro ⟨⟩)
  | inQString d =>
    simp only [lexStep]
    split
    · rename_i h1
      -- the closing character may be any; behind it the quote is seen
      exact ⟨.inr (.inr ⟨rfl, '\'', h1.2, by decide, by decide, fun e => absurd e (by decide)⟩),
        by rintro ⟨⟩⟩
    · exact none (by rintro ⟨⟩)

theorem inside {m : ScanState} {k : Nat}
    (h : Pending m (k + 1) before (c :: rest)) : Pending m k (before ++ [c]) rest := by
  rcases h.ahead with h1 | ⟨d, rfl⟩ | ⟨h1, d, hd, hsp, -, -⟩
  · cases h1
  · exact ⟨.inr (.inl ⟨d, rfl⟩), nofun⟩
  · have hk : k = 0 := by omega
    subst hk
    cases hd
    exact ⟨.inl rfl, fun _ => not_blank_concat hsp⟩

end Pending

theorem Kept.pending {v u : Text} (h : Kept v s k u s' k')
    (hp : Pending s.state k s.buf (u ++ v)) : Pending s'.state k' s'.buf v := by
  induction h with
  | nil s k => exact hp
  | inside _ ih => exact ih hp.inside
  | @here s s' k' c u hk _ ih =>
    refine ih ?_
    have := Pending.step hp
    rw [Scan.take_state, Scan.take_buf, Scan.counted_state, Scan.counted_buf]
    exact this

/-! ## 4. White space around a stretch -/

theorem lexStep_space (h : isSpace c = true) (rest : Text) :
    lexStep .code c rest = (.code, 0, true) :=
  lexStep_ending (Lexis.isEnding_of_isSpace h) rest

/-- White space in front of a statement changes nothing but the buffer. -/
theorem Kept.front {v w : Text} {k' : Nat} (h : Kept v s 0 w s' k')
    (hcode : s.state = .code) (hw : Blank w) : k' = 0 ∧ s'.state = .code ∧
      s'.plsqlChecked = s.plsqlChecked ∧ s'.isPlsql = s.isPlsql := by
  induction w generalizing s with
  | nil =>
    cases h
    exact ⟨rfl, hcode, rfl, rfl⟩
  | cons c w ih =>
    cases h with
    | here hk h =>
      have hc : isSpace c = true := hw c mem_cons_self
      have hlex := lexStep_space hc (w ++ v)
      have hne : c ≠ ';' := by
        rintro rfl
        exact absurd hc (by decide)
      have htake : (s.counted c).take c (w ++ v) = { (s.counted c).push c with state := .code } := by
        unfold Scan.take
        rw [if_neg fun e => hne e.2, Scan.counted_state, hcode, hlex]
      rw [hcode, hlex, htake] at h
      obtain ⟨h1, h2, h3, h4⟩ := ih h rfl fun d hd => hw d (mem_cons_of_mem _ hd)
      exact ⟨h1, h2, h3.trans (Scan.counted_checked s c), h4.trans (Scan.counted_isPlsql s c)⟩

/-- What is open stays open over white space. -/
theorem Kept.stays_open {v w : Text} (h : Kept v s k w s' k')
    (hopen : ¬ s.state.Closed) (hk : k = 0 ∨ ∃ d, s.state = .inQString d) (hw : Blank w)
    (hv : v.head? ≠ some '\'') : ¬ s'.state.Closed := by
  induction w generalizing s k with
  | nil =>
    cases h
    exact hopen
  | cons c w ih =>
    have hc : isSpace c = true := hw c mem_cons_self
    have hw' : Blank w := fun d hd => hw d (mem_cons_of_mem _ hd)
    cases h with
    | inside h =>
      obtain ⟨d, hd⟩ := hk.resolve_left (by omega)
      exact ih h (s := s.push c) hopen (.inr ⟨d, hd⟩) hw'
    | here _ h =>
      have hhead : (w ++ v).head? ≠ some '\'' := by
        cases w with
        | nil => exact hv
        | cons d w =>
          have hd : isSpace d = true := hw' d mem_cons_self
          rintro e
          cases e
          exact absurd hd (by decide)
      have hstay : lexStep s.state c (w ++ v) = (s.state, 0, false) := by
        have h1 : c ≠ '*' ∧ c ≠ '\'' ∧ c ≠ '"' := by
          refine ⟨?_, ?_, ?_⟩ <;> rintro rfl <;> exact absurd hc (by decide)
        cases hs : s.state with
        | code => exact absurd (.inl hs) hopen
        | inLineComment => exact absurd (.inr hs) hopen
        | inBlockComment => simp [lexStep, h1]
        | inSingleString => simp [lexStep, h1]
        | inDoubleString => simp [lexStep, h1]
        | inQString d => rw [lexStep, if_neg fun e => hhead e.2]
      have hst : ((s.counted c).take c (w ++ v)).state = s.state := by
        rw [Scan.take_state, Scan.counted_state, hstay]
      rw [hstay] at h
      exact ih h (by rw [hst]; exact hopen) (.inl rfl) hw'

/-- White space behind a statement: the statement was closed before it. -/
theorem Kept.back {v w : Text} {k : Nat} (h : Kept v s k w s' 0)
    (hclosed : s'.state.Closed) (hp : Pending s.state k s.buf (w ++ v)) (hw : Blank w)
    (hv : v.head? ≠ some '\'') : k = 0 ∧ s.state.Closed := by
  cases w with
  | nil =>
    cases h
    exact ⟨rfl, hclosed⟩
  | cons c w =>
    have hstays := fun ho hk => h.stays_open ho hk hw hv hclosed
    rcases hp.ahead with hk | ⟨d, hd⟩ | ⟨-, e, he, hsp, -⟩
    · exact ⟨hk, by_contra fun ho => hstays ho (.inl hk)⟩
    · have ho : ¬ s.state.Closed := by
        rw [hd]
        rintro (h | h) <;> cases h
      exact (hstays ho (.inr ⟨d, hd⟩)).elim
    · cases he
      rw [hw c mem_cons_self] at hsp
      cases hsp

/-! ## 5. The statement alone beside the stretch -/

/-- The two scans agree, but for white space at the start of the first one's buffer, and for what
    they have counted and emitted. -/
structure Alongside (w : Text) (s r : Scan) : Prop where
  state : s.state = r.state
  buf : s.buf = w ++ r.buf
  checked : s.plsqlChecked = r.plsqlChecked
  plsql : s.isPlsql = r.isPlsql

namespace Alongside

theorem counted {w : Text} (h : Alongside w s r) (c : Char) :
    Alongside w (s.counted c) (r.counted c) := by
  refine ⟨?_, ?_, ?_, ?_⟩ <;> simp [h.state, h.buf, h.checked, h.plsql]

theorem push {w : Text} (h : Alongside w s r) (c : Char) :
    Alongside w (s.push c) (r.push c) :=
  ⟨h.state, by rw [Scan.push, Scan.push, h.buf]; simp, h.checked, h.plsql⟩

theorem checkPlsql {w : Text} (hw : Blank w) (h : Alongside w s r) :
    Alongside w s.checkPlsql r.checkPlsql := by
  have hd : detectPlsqlStart s.buf = detectPlsqlStart r.buf := by
    rw [h.buf]
    exact detectPlsqlStart_filler (filler_spaces hw) r.buf
  unfold Scan.checkPlsql
  rw [h.checked]
  split
  · exact h
  · exact ⟨h.state, h.buf, rfl, hd⟩

theorem take {w x y : Text} (hw : Blank w) (h : Alongside w s r)
    (hl : lexStep s.state c y = lexStep s.state c x) :
    Alongside w (s.take c x) (r.take c y) := by
  unfold Scan.take
  rw [← h.state, hl]
  split
  · exact (h.checkPlsql hw).push c
  · have hp := h.push c
    exact ⟨rfl, hp.buf, hp.checked, hp.plsql⟩

theorem keeps {w x y : Text} (hw : Blank w) (h : Alongside w s r)
    (hk : s.Keeps c x) (hl : lexStep s.state c y = lexStep s.state c x)
    (hslash : c = '/' → slashAlone r.buf y = true → slashAlone s.buf x = true) :
    r.Keeps c y := by
  intro hp
  rw [← h.state, hl] at hp
  obtain ⟨h1, h2⟩ := hk hp
  refine ⟨fun e => (h.checkPlsql hw).plsql ▸ h1 e, fun e => ?_⟩
  by_contra ha
  have := hslash e (by simpa using ha)
  rw [h2 e] at this
  cases this

end Alongside

/-- **The scan of the statement alone keeps what the scan of the stretch keeps**, where it reads
    each character the same and finds no slash alone that is not. -/
theorem Kept.alongside {w y z u : Text} {s r s' : Scan} {k : Nat} (hw : Blank w)
    (h : Kept y s k u s' 0) (ha : Alongside w s r)
    (hlex : ∀ m c u₁ u₂, u = u₁ ++ c :: u₂ → (lexStep m c (u₂ ++ y)).2.1 ≤ u₂.length →
      lexStep m c (u₂ ++ z) = lexStep m c (u₂ ++ y))
    (hslash : ∀ u₁ u₂, u = u₁ ++ '/' :: u₂ → slashAlone (r.buf ++ u₁) (u₂ ++ z) = true →
      slashAlone (s.buf ++ u₁) (u₂ ++ y) = true) :
    ∃ r', Kept z r k u r' 0 ∧ Alongside w s' r' := by
  induction u generalizing s r k with
  | nil =>
    cases h
    exact ⟨r, .nil r 0, ha⟩
  | cons c u ih =>
    have hlex' : ∀ m d u₁ u₂, u = u₁ ++ d :: u₂ → (lexStep m d (u₂ ++ y)).2.1 ≤ u₂.length →
        lexStep m d (u₂ ++ z) = lexStep m d (u₂ ++ y) := fun m d u₁ u₂ e =>
      hlex m d (c :: u₁) u₂ (by rw [e]; rfl)
    have hslash' : ∀ s₁ r₁ : Scan, s₁.buf = s.buf ++ [c] → r₁.buf = r.buf ++ [c] →
        ∀ u₁ u₂, u = u₁ ++ '/' :: u₂ → slashAlone (r₁.buf ++ u₁) (u₂ ++ z) = true →
          slashAlone (s₁.buf ++ u₁) (u₂ ++ y) = true := by
      intro s₁ r₁ hs hr u₁ u₂ e
      rw [hs, hr, append_assoc, append_assoc]
      exact hslash (c :: u₁) u₂ (by rw [e]; rfl)
    cases h with
    | inside h =>
      obtain ⟨r', h1, h2⟩ := ih h (ha.push c) hlex' (hslash' _ _ rfl rfl)
      exact ⟨r', .inside h1, h2⟩
    | here hk h =>
      have hl := hlex s.state c [] u rfl h.pending_lt
      have hc := ha.counted c
      have hl' : lexStep (s.counted c).state c (u ++ z) = lexStep (s.counted c).state c (u ++ y) := by
        rw [Scan.counted_state]
        exact hl
      have hkeep : (r.counted c).Keeps c (u ++ z) := by
        refine hc.keeps hw hk hl' fun e => ?_
        have := hslash [] u (by rw [e]; rfl)
        simpa using this
      obtain ⟨r', h1, h2⟩ := ih h (hc.take hw hl') hlex'
        (hslash' _ _ (by rw [Scan.take_buf, Scan.counted_buf]) (by rw [Scan.take_buf, Scan.counted_buf]))
      refine ⟨r', .here hkeep ?_, h2⟩
      rw [← ha.state, hl]
      exact h1

/-! ## 6. Where statements come from -/

/-- A scan at the start of a statement. -/
structure Fresh (s : Scan) : Prop where
  buf : s.buf = []
  state : s.state = .code
  plsql : s.isPlsql = false
  checked : s.plsqlChecked = false

theorem Scan.flush_fresh (h : s.state = .code) (n : Nat) :
    Fresh { s.flush with line := n } := ⟨rfl, h, rfl, rfl⟩

/-- A stretch of the text between two ends of statements, and what stands behind it. -/
structure Segment (buf y : Text) : Prop where
  run : ∃ s₀ s₁, Fresh s₀ ∧ Kept y s₀ 0 buf s₁ 0 ∧ s₁.state.Closed
  ends : y = [] ∨ (∃ z, y = ';' :: z) ∨ ((∃ z, y = '/' :: z) ∧ Blank (lastLine buf))

/-- A character the scan does not keep ends the statement. -/
theorem Scan.step_cuts (h : ¬ s.Keeps c rest) :
    s.state = .code ∧ ∃ (s₁ : Scan) (n d : Nat), s₁.buf = s.buf ∧ s₁.statements = s.statements ∧
      s₁.state = .code ∧ s.step c rest = ({ s₁.flush with line := n }, 0, d) ∧
      (c = ';' ∨ (c = '/' ∧ Blank (lastLine s.buf))) := by
  unfold Scan.Keeps at h
  rw [Classical.not_imp] at h
  obtain ⟨hp, h⟩ := h
  obtain ⟨hcode, hlex⟩ := lexStep_plain hp
  refine ⟨hcode, ?_⟩
  by_cases h1 : c = ';'
  · subst h1
    have hno : s.checkPlsql.isPlsql = false := by
      by_contra hyes
      exact h ⟨fun _ => by simpa using hyes, fun e => absurd e (by decide)⟩
    obtain ⟨c1, c2, c3, -⟩ := s.checkPlsql_same
    refine ⟨s.checkPlsql, s.checkPlsql.line, 0, c2, c3, c1.trans hcode, ?_, .inl rfl⟩
    unfold Scan.step
    rw [hlex]
    simp [hno, Scan.flush]
  · have halone : c = '/' ∧ slashAlone s.buf rest = true := by
      by_contra hno
      refine h ⟨fun e => absurd e h1, fun e => ?_⟩
      by_contra ha
      exact hno ⟨e, by simpa using ha⟩
    refine ⟨s, (s.step c rest).1.line, (s.step c rest).2.2, rfl, rfl, hcode, ?_,
      .inr ⟨halone.1, (slashAlone_iff.mp halone.2).1⟩⟩
    unfold Scan.step
    rw [hlex]
    simp only [Bool.true_eq_false, if_false, if_neg h1, if_pos halone]
    split <;> rfl

/-- Where the scan stands in the text: inside a stretch it keeps, or dropping the rest of a line. -/
def InSegment (s : Scan) (k drop : Nat) (rest : Text) : Prop :=
  (drop = 0 → ∃ s₀, Fresh s₀ ∧ Kept rest s₀ 0 s.buf s k) ∧ (drop ≠ 0 → Fresh s ∧ k = 0)

theorem Kept.concat {s₀ s s' : Scan} {u rest : Text}
    (h : Kept (c :: rest) s₀ 0 u s k) (h' : Kept rest s k [c] s' k') :
    Kept rest s₀ 0 (u ++ [c]) s' k' := Kept.append (b := [c]) h h'

theorem Fresh.kept (h : Fresh s) (rest : Text) :
    ∃ s₀, Fresh s₀ ∧ Kept rest s₀ 0 s.buf s 0 :=
  ⟨s, h, by rw [h.buf]; exact .nil s 0⟩

/-- A stretch is in view of what stands behind it, from the start of a statement on. -/
theorem Fresh.pending {s₀ s : Scan} {k : Nat} {u rest : Text} (hf : Fresh s₀)
    (h : Kept rest s₀ 0 u s k) : Pending s.state k s.buf rest :=
  h.pending (.none (by rw [hf.state]; exact nofun))

/-- **A statement of the scan is the trimmed text of a stretch.** -/
theorem scan_statement (rest : Text) {k drop : Nat} (h : InSegment s k drop rest)
    (hclosed : (scanFrom s k drop rest).state.Closed) {t : Text}
    (ht : t ∈ (scanFrom s k drop rest).flush.statements) :
    t ∈ s.statements ∨ ∃ buf y, Segment buf y ∧ isCommentsOnly buf = false ∧ t = trim buf := by
  -- what `flush` adds is a stretch that ends here
  have hflush : ∀ {s s₁ : Scan} {rest : Text} {k : Nat}, InSegment s k 0 rest → s₁.buf = s.buf →
      s₁.statements = s.statements → s.state.Closed → k = 0 →
      (rest = [] ∨ (∃ z, rest = ';' :: z) ∨ ((∃ z, rest = '/' :: z) ∧ Blank (lastLine s.buf))) →
      t ∈ s₁.flush.statements →
      t ∈ s.statements ∨ ∃ buf y, Segment buf y ∧ isCommentsOnly buf = false ∧ t = trim buf := by
    intro s s₁ rest k hin hb hs hc hk hends ht
    obtain ⟨s₀, hf, hkept⟩ := hin.1 rfl
    subst hk
    rw [s₁.flush_statements, hb, hs] at ht
    split at ht
    · exact .inl ht
    · rename_i hcode
      rcases mem_append.mp ht with ht | ht
      · exact .inl ht
      · exact .inr ⟨s.buf, rest, ⟨⟨s₀, s, hf, hkept, hc⟩, hends⟩, by simpa using hcode,
          mem_singleton.mp ht⟩
  induction rest generalizing s k drop with
  | nil =>
    by_cases hd : drop = 0
    · subst hd
      obtain ⟨s₀, hf, hkept⟩ := h.1 rfl
      have hc : s.state.Closed := hclosed
      have hk : k = 0 := by
        rcases (hf.pending hkept).ahead with hk | ⟨d, e⟩ | ⟨-, c, hc', -⟩
        · exact hk
        · rw [e] at hc
          rcases hc with hc | hc <;> cases hc
        · cases hc'
      exact hflush h rfl rfl hc hk (.inl rfl) ht
    · have hf := (h.2 hd).1
      exact hflush (k := 0) ⟨fun _ => hf.kept [], fun e => absurd rfl e⟩ rfl rfl (.inl hf.state) rfl
        (.inl rfl) ht
  | cons c cs ih =>
    cases drop with
    | succ d =>
      have hf := (h.2 (Nat.succ_ne_zero d)).1
      have hk := (h.2 (Nat.succ_ne_zero d)).2
      subst hk
      exact ih ⟨fun _ => hf.kept cs, fun _ => ⟨hf, rfl⟩⟩ hclosed ht
    | zero =>
      obtain ⟨s₀, hf, hkept⟩ := h.1 rfl
      cases k with
      | succ k =>
        have hnext : InSegment (s.push c) k 0 cs :=
          ⟨fun _ => ⟨s₀, hf, hkept.concat (.inside (.nil _ k))⟩, fun e => absurd rfl e⟩
        have := ih hnext hclosed ht
        exact this
      | zero =>
        rw [scanFrom] at hclosed ht
        change (scanFrom ((s.counted c).step c cs).1 ((s.counted c).step c cs).2.1
          ((s.counted c).step c cs).2.2 cs).state.Closed at hclosed
        change t ∈ (scanFrom ((s.counted c).step c cs).1 ((s.counted c).step c cs).2.1
          ((s.counted c).step c cs).2.2 cs).flush.statements at ht
        by_cases hk : (s.counted c).Keeps c cs
        · rw [Scan.step_take hk] at hclosed ht
          rw [Scan.counted_state] at hclosed ht
          have hnext : InSegment ((s.counted c).take c cs) (lexStep s.state c cs).2.1 0 cs := by
            refine ⟨fun _ => ⟨s₀, hf, ?_⟩, fun e => absurd rfl e⟩
            rw [Scan.take_buf, Scan.counted_buf]
            exact hkept.concat (.here hk (.nil _ _))
          have := ih hnext hclosed ht
          rwa [Scan.take_statements, Scan.counted_statements] at this
        · obtain ⟨hcode, s₁, n, d, h1, h2, h3, h4, h5⟩ := Scan.step_cuts hk
          rw [h4] at hclosed ht
          have hfresh := Scan.flush_fresh h3 n
          rw [Scan.counted_buf] at h1
          rw [Scan.counted_statements] at h2
          rw [Scan.counted_state] at hcode
          rw [Scan.counted_buf] at h5
          have hends : c :: cs = [] ∨ (∃ z, c :: cs = ';' :: z) ∨
              ((∃ z, c :: cs = '/' :: z) ∧ Blank (lastLine s.buf)) := by
            rcases h5 with rfl | ⟨rfl, hb⟩
            · exact .inr (.inl ⟨cs, rfl⟩)
            · exact .inr (.inr ⟨⟨cs, rfl⟩, hb⟩)
          rcases ih ⟨fun _ => hfresh.kept cs, fun _ => ⟨hfresh, rfl⟩⟩ hclosed ht with hs | hs
          · exact hflush h h1 h2 (.inl hcode) rfl hends hs
          · exact .inr hs

/-! ## 7. The statement alone -/

/-- The last line of the statement holds a slash and nothing else. -/
def EndsInSlash (t : Text) : Prop := ∃ b, t = b ++ ['/'] ∧ Blank (lastLine b)

/-- What a statement in front of white space or of an end of statements may be followed by. -/
def Quiet (y : Text) : Prop := ∀ c, y.head? = some c → c = ';' ∨ isSpace c = true

theorem Quiet.head {y : Text} (hy : Quiet y) {d : Char} (hd : isSpace d = false ∧ d ≠ ';') :
    y.head? ≠ some d := by
  intro h
  rcases hy d h with rfl | hs
  · exact hd.2 rfl
  · rw [hd.1] at hs
    cases hs

/-- A q-quote that would not open at the end of the text has its delimiter behind it. -/
theorem qOpens_end {y : Text} (hy : Quiet y) (c : Char) (u : Text) :
    qOpens c (u ++ []) = qOpens c (u ++ y) ∨
      ∃ p, qOpens c (u ++ y) = some p ∧ u.length < p.2 ∧ c ≠ '-' ∧ c ≠ '/' ∧ c ≠ '"' := by
  have h1 : y.head? ≠ some '\'' := hy.head (by decide)
  have h2 : y.head? ≠ some 'q' := hy.head (by decide)
  have h3 : y.head? ≠ some 'Q' := hy.head (by decide)
  unfold qOpens
  match u with
  | [] => exact .inl (by simp [h1, h2, h3])
  | [a] =>
    cases y with
    | nil => exact .inl rfl
    | cons d y =>
      have hd : d ≠ '\'' := fun e => h1 (by rw [e]; rfl)
      by_cases hq : (c = 'q' ∨ c = 'Q') ∧ a = '\''
      · refine .inr ⟨(d, 2), ?_, by simp, ?_⟩
        · simp [hq]
        · rcases hq.1 with rfl | rfl <;> decide
      · exact .inl (by simpa [hd] using hq)
  | [a, b] =>
    cases y with
    | nil => exact .inl rfl
    | cons d y =>
      by_cases hq : (c = 'q' ∨ c = 'Q') ∧ a = '\''
      · exact .inl (by simp [hq])
      · have hq' : ¬((c = 'q' ∨ c = 'Q') ∧ ([a, b] ++ d :: y).head? = some '\'') := by simpa using hq
        have hq'' : ¬((c = 'q' ∨ c = 'Q') ∧ ([a, b] ++ []).head? = some '\'') := hq'
        rw [if_neg hq', if_neg hq'']
        by_cases hn : (c = 'n' ∨ c = 'N') ∧ (a = 'q' ∨ a = 'Q') ∧ b = '\''
        · refine .inr ⟨(d, 3), ?_, by simp, ?_⟩
          · simp [hn]
          · rcases hn.1 with rfl | rfl <;> decide
        · have hn' : ¬((c = 'n' ∨ c = 'N') ∧ (([a, b] ++ d :: y).head? = some 'q' ∨
              ([a, b] ++ d :: y).head? = some 'Q') ∧ ([a, b] ++ d :: y)[1]? = some '\'') := by
            simpa using hn
          have hn'' : ¬((c = 'n' ∨ c = 'N') ∧ (([a, b] ++ []).head? = some 'q' ∨
              ([a, b] ++ []).head? = some 'Q') ∧ ([a, b] ++ [])[1]? = some '\'') := hn'
          exact .inl (by rw [if_neg hn', if_neg hn''])
  | a :: b :: d :: u => exact .inl (by simp)

/-- At the end of the text a character is read as it is in front of white space or a semicolon,
    unless it opens a q-quote with that as its delimiter. -/
theorem lexStep_end {y : Text} (hy : Quiet y) (m : ScanState) (c : Char) (u : Text)
    (hn : (lexStep m c (u ++ y)).2.1 ≤ u.length) :
    lexStep m c (u ++ []) = lexStep m c (u ++ y) := by
  have hhead : ∀ d : Char, isSpace d = false ∧ d ≠ ';' →
      ((u ++ []).head? = some d ↔ (u ++ y).head? = some d) := by
    intro d hd
    cases u with
    | nil => simp [hy.head hd]
    | cons a u => rfl
  have h1 := hhead '-' (by decide)
  have h2 := hhead '*' (by decide)
  have h3 := hhead '\'' (by decide)
  have h4 := hhead '/' (by decide)
  have h5 := hhead '"' (by decide)
  cases m with
  | code =>
    rcases qOpens_end hy c u with hq | ⟨p, hq, hlen, hc1, hc2, hc3⟩
    · simp only [lexStep, h1, h2, h3, hq]
    · rw [lexStep, if_neg (by simp [hc1]), if_neg (by simp [hc2]), if_neg hc3, hq] at hn
      exact absurd hn (Nat.not_le.mpr hlen)
  | inLineComment => rfl
  | inBlockComment => simp only [lexStep, h4]
  | inSingleString => simp only [lexStep, h3]
  | inDoubleString => simp only [lexStep, h5]
  | inQString d => simp only [lexStep, h3]

/-- White space in front of a text does not matter to what stands on its last line. -/
theorem blank_front {w : Text} (hw : Blank w) (u : Text) :
    Blank (lastLine (w ++ u)) ↔ Blank (lastLine u) := by
  induction u using List.reverseRecOn with
  | nil =>
    have h1 : Blank (lastLine w) := fun c hc =>
      hw c (mem_reverse.mp (takeWhile_subset _ (mem_reverse.mp hc)))
    rw [append_nil]
    exact ⟨fun _ => nofun, fun _ => h1⟩
  | append_singleton u c ih =>
    rw [← append_assoc, lastLine_concat, lastLine_concat]
    split
    · exact Iff.rfl
    · constructor
      · intro h d hd
        rcases mem_append.mp hd with hd | hd
        · exact ih.mp (fun e he => h e (mem_append_left _ he)) d hd
        · exact h d (mem_append_right _ hd)
      · intro h d hd
        rcases mem_append.mp hd with hd | hd
        · exact ih.mpr (fun e he => h e (mem_append_left _ he)) d hd
        · exact h d (mem_append_right _ hd)

/-- What stands behind a slash, up to the first character that may not stand behind it. -/
theorem slashTail_append {u v v' : Text} (h : ∃ c ∈ u, isSlashTail c = false) :
    ((u ++ v).dropWhile isSlashTail).head? = ((u ++ v').dropWhile isSlashTail).head? := by
  induction u with
  | nil =>
    obtain ⟨c, hc, -⟩ := h
    cases hc
  | cons d u ih =>
    rw [cons_append, cons_append, dropWhile_cons, dropWhile_cons]
    split
    · rename_i hd
      obtain ⟨c, hc, hno⟩ := h
      rcases mem_cons.mp hc with rfl | hc
      · rw [hd] at hno
        cases hno
      · exact ih ⟨c, hc, hno⟩
    · rfl

theorem isSpace_of_isSlashTail (h : isSlashTail c = true) : isSpace c = true := by
  simp only [isSlashTail, Bool.or_eq_true, beq_iff_eq] at h
  rcases h with (rfl | rfl) | rfl <;> decide

/-- A statement inside its stretch: the scan of the stretch reaches the statement as the scan of
    the statement alone starts, and has nothing open at its end. -/
structure Inside (t w y : Text) (s s' : Scan) : Prop where
  blank : Blank w
  quiet : Quiet y
  kept : Kept y s 0 t s' 0
  start : Alongside w s {}
  closed : s'.state.Closed
  last : ∀ b c, t = b ++ [c] → isSpace c = false

theorem Segment.inside {buf y : Text} (h : Segment buf y) (hcode : isCommentsOnly buf = false) :
    ∃ w y' s s', Inside (trim buf) w y' s s' := by
  obtain ⟨⟨s₀, s₁, hf, hkept, hclosed⟩, hends⟩ := h
  obtain ⟨w₁, hbuf, hw₁⟩ := trimStart_split buf
  obtain ⟨w₂, htrim, hw₂⟩ := rdropWhile_split isSpace (trimStart buf)
  have hall : buf = w₁ ++ (trim buf ++ w₂) := by
    rw [trim, trimEnd, ← htrim]
    exact hbuf
  have hlast : ∀ b c, trim buf = b ++ [c] → isSpace c = false := fun b c e => rdropWhile_last e
  have hne : trim buf ≠ [] := by
    intro e
    rw [← isCommentsOnly_trim, e] at hcode
    exact absurd hcode (by decide)
  rw [hall] at hkept
  obtain ⟨s, k, h1, h2⟩ := hkept.split
  obtain ⟨hk, hst, hch, hpl⟩ := h1.front hf.state hw₁
  subst hk
  obtain ⟨s', k', h3, h4⟩ := h2.split
  have hquote : y.head? ≠ some '\'' := by
    rcases hends with rfl | ⟨z, rfl⟩ | ⟨⟨z, rfl⟩, -⟩ <;> simp
  have hpend : Pending s'.state k' s'.buf (w₂ ++ y) :=
    h3.pending (.none (by rw [hst]; rintro ⟨⟩))
  obtain ⟨hk', hcl⟩ := h4.back hclosed hpend hw₂ hquote
  subst hk'
  refine ⟨w₁, w₂ ++ y, s, s', hw₁, ?_, h3, ⟨hst, ?_, ?_, ?_⟩, hcl, hlast⟩
  · intro c hc
    cases w₂ with
    | cons d w =>
      cases hc
      exact .inr (hw₂ _ mem_cons_self)
    | nil =>
      rcases hends with rfl | ⟨z, rfl⟩ | ⟨⟨z, rfl⟩, hb⟩
      · cases hc
      · cases hc
        exact .inl rfl
      · -- a slash right behind the statement is not the first on its line
        obtain ⟨b, d, e⟩ : ∃ b d, trim buf = b ++ [d] :=
          ⟨_, _, (dropLast_concat_getLast hne).symm⟩
        rw [hall, blank_front hw₁, append_nil, e] at hb
        exact absurd hb (not_blank_concat (hlast b d e))
  · rw [h1.buf, hf.buf]
    simp
  · exact hch.trans hf.checked
  · exact hpl.trans hf.plsql

/-- The scan of a text that is kept as a whole. -/
theorem splitSql_kept {t : Text} {r : Scan} (h : Kept [] {} 0 t r 0) (hc : r.state.Closed)
    (hcode : isCommentsOnly t = false) : splitSql t = ⟨[trim t], []⟩ := by
  have hs := h.scan
  rw [append_nil] at hs
  have hr : scanFrom {} 0 0 t = r := hs
  have hbuf : r.buf = t := h.buf
  rw [splitSql_eq, hr, Scan.finish_closed hc, Scan.flush_of_code (by rw [hbuf]; exact hcode),
    h.statements, hbuf]
  rfl

theorem Inside.splits {t w y : Text} (h : Inside t w y s s')
    (hcode : isCommentsOnly t = false) (hno : ¬ EndsInSlash t) : splitSql t = ⟨[trim t], []⟩ := by
  obtain ⟨r, h1, h2⟩ := h.kept.alongside (z := []) h.blank h.start
    (fun m c u₁ u₂ _ => lexStep_end h.quiet m c u₂) (fun u₁ u₂ e ha => by
      obtain ⟨hb, hz⟩ := slashAlone_iff.mp ha
      have hs : s.buf = w := h.start.buf.trans (append_nil w)
      rw [hs, slashAlone_iff, blank_front h.blank]
      refine ⟨hb, ?_⟩
      have hne : u₂ ≠ [] := by
        rintro rfl
        exact hno ⟨u₁, e, hb⟩
      obtain ⟨b, d, hd⟩ : ∃ b d, u₂ = b ++ [d] := ⟨_, _, (dropLast_concat_getLast hne).symm⟩
      have hsp := h.last (u₁ ++ '/' :: b) d (by rw [e, hd]; simp)
      have htail : isSlashTail d = false := by
        by_contra ht
        rw [isSpace_of_isSlashTail (by simpa using ht)] at hsp
        cases hsp
      rw [@slashTail_append _ _ [] ⟨d, by rw [hd]; simp, htail⟩]
      exact hz)
  exact splitSql_kept h1 (h2.state ▸ h.closed) hcode

/-- Before a slash at the end, first on its line, nothing is open. -/
theorem Inside.before_slash {b w y : Text} (h : Inside (b ++ ['/']) w y s s')
    (hb : Blank (lastLine b)) : ∃ sb, Kept ('/' :: y) s 0 b sb 0 ∧ sb.state = .code := by
  obtain ⟨sb, k, h1, h2⟩ := h.kept.split
  have hbuf : sb.buf = w ++ b := by
    rw [h1.buf, h.start.buf]
    simp
  have hline : Blank (lastLine sb.buf) := by rw [hbuf, blank_front h.blank]; exact hb
  have hpend : Pending sb.state k sb.buf ('/' :: y) :=
    h1.pending (.none (by rw [h.start.state]; exact nofun))
  have hquote : y.head? ≠ some '\'' := h.quiet.head (by decide)
  cases h2 with
  | inside h2 =>
    cases h2
    rcases hpend.ahead with hk | ⟨d, hd⟩ | ⟨-, c, hc, -, -, hno⟩
    · cases hk
    · have hcl : sb.state.Closed := h.closed
      rw [hd] at hcl
      rcases hcl with e | e <;> cases e
    · cases hc
      exact absurd hline (hno rfl)
  | here _ h2 =>
    have hs' : s'.state = (lexStep sb.state '/' y).1 := by
      rw [← Scan.counted_state sb '/', ← Scan.take_state]
      generalize (lexStep sb.state '/' ([] ++ y)).2.1 = n at h2
      cases h2
      rfl
    refine ⟨sb, h1, ?_⟩
    have hcl := h.closed
    rw [hs'] at hcl
    cases hst : sb.state with
    | code => rfl
    | inLineComment => exact absurd hline (hpend.line hst)
    | inBlockComment =>
      rw [hst] at hcl
      rcases hcl with e | e <;> simp [lexStep] at e
    | inSingleString =>
      rw [hst] at hcl
      rcases hcl with e | e <;> simp [lexStep] at e
    | inDoubleString =>
      rw [hst] at hcl
      rcases hcl with e | e <;> simp [lexStep] at e
    | inQString d =>
      rw [hst] at hcl
      rcases hcl with e | e <;> simp [lexStep, hquote] at e

/-- A slash alone at the end of the statement is dropped. -/
theorem Inside.drops {b w y : Text} (h : Inside (b ++ ['/']) w y s s')
    (hb : Blank (lastLine b)) :
    splitSql (b ++ ['/']) = ⟨if isCommentsOnly b then [] else [trim b], []⟩ := by
  obtain ⟨sb, hkept, hcode⟩ := h.before_slash hb
  have hs : s.buf = w := h.start.buf.trans (append_nil w)
  obtain ⟨r, h1, h2⟩ := hkept.alongside (z := ['/']) h.blank h.start
    (fun m c u₁ u₂ _ _ => (lexStep_stable (.inr rfl) m c u₂ y).symm) (fun u₁ u₂ _ ha => by
      obtain ⟨hl, hz⟩ := slashAlone_iff.mp ha
      rw [hs, slashAlone_iff, blank_front h.blank]
      refine ⟨hl, ?_⟩
      have e : u₂ ++ '/' :: y = (u₂ ++ ['/']) ++ y := by simp
      rw [e, @slashTail_append _ _ [] ⟨'/', by simp, by decide⟩, append_nil]
      exact hz)
  have hbuf : r.buf = b := h1.buf
  have hrun := h1.scan
  have hrcode : r.state = .code := h2.state ▸ hcode
  obtain ⟨r', e1, e2, e3, -, e5⟩ := scanFrom_slash (t := []) (z := []) hrcode
    (by rw [hbuf]; exact hb) nofun rfl
  have hend : scanFrom {} 0 0 (b ++ ['/']) = r' := hrun.trans e1
  have hout : r'.flush.statements = r'.statements :=
    Scan.flush_of_comments (by rw [e3]; rfl)
  rw [splitSql_eq, hend, Scan.finish_closed (.inl e2), hout, e5, r.flush_statements, hbuf,
    h1.statements]
  rfl

theorem trim_trim (s : Text) : trim (trim s) = trim s := by
  obtain ⟨w, he, hw⟩ := rdropWhile_split isSpace (trimStart s)
  have hstart : trimStart (trim s) = trim s := by
    cases ht : trim s with
    | nil => rfl
    | cons c r =>
      have hc : isSpace c = false := by
        have e : trimStart s = c :: (r ++ w) := by
          rw [he]
          show trim s ++ w = _
          rw [ht]
          rfl
        exact trimStart_head e
      exact dropWhile_cons_of_neg (by simp [hc])
  rw [trim, hstart]
  exact rdropWhile_idempotent _ _

theorem closed_of_noErrors {input : Text} (h : (splitSql input).errors = []) :
    (scanFrom {} 0 0 input).state.Closed := by
  rw [splitSql_eq, Scan.finish] at h
  cases hs : (scanFrom {} 0 0 input).state with
  | code => exact .inl rfl
  | inLineComment => exact .inr rfl
  | inBlockComment => rw [hs] at h; cases h
  | inSingleString => rw [hs] at h; cases h
  | inDoubleString => rw [hs] at h; cases h
  | inQString d => rw [hs] at h; cases h

/-- Every statement stands inside a stretch of the text. -/
theorem statement_inside {input t : Text} (he : (splitSql input).errors = [])
    (ht : t ∈ (splitSql input).statements) :
    isCommentsOnly t = false ∧ trim t = t ∧ ∃ w y s s', Inside t w y s s' := by
  have hclosed := closed_of_noErrors he
  rw [splitSql_eq, Scan.finish_closed hclosed] at ht
  have hstart : InSegment {} 0 0 input :=
    ⟨fun _ => Fresh.kept (s := {}) ⟨rfl, rfl, rfl, rfl⟩ input, fun h => absurd rfl h⟩
  rcases scan_statement input hstart hclosed ht with h | ⟨buf, y, hseg, hcode, rfl⟩
  · cases h
  · exact ⟨(isCommentsOnly_trim buf).trans hcode, trim_trim buf, hseg.inside hcode⟩

/-- **A statement is split into itself**, unless its last line is a lone slash: that is dropped. -/
theorem splitSql_stable (input t : Text) (he : (splitSql input).errors = [])
    (ht : t ∈ (splitSql input).statements) :
    (¬ EndsInSlash t → splitSql t = ⟨[t], []⟩) ∧
      ∀ b, t = b ++ ['/'] → Blank (lastLine b) →
        splitSql t = ⟨if isCommentsOnly b then [] else [trim b], []⟩ := by
  obtain ⟨hcode, htrim, w, y, s, s', hin⟩ := statement_inside he ht
  refine ⟨fun hno => ?_, fun b e hb => ?_⟩
  · rw [hin.splits hcode hno, htrim]
  · subst e
    exact hin.drops hb

theorem splitSql_stable_two :
    splitSql "BEGIN NULL; END;".toList = ⟨["BEGIN NULL; END;".toList], []⟩ :=
  (splitSql_stable "BEGIN NULL; END;\n/\nSELECT 1".toList "BEGIN NULL; END;".toList (by rfl)
    (by decide)).1 (by
      rintro ⟨b, e, -⟩
      have := congrArg List.getLast? e
      simp at this)

/-- A slash before a semicolon is not alone on its line; at the end of the statement it is. -/
theorem splitSql_unstable : ¬ ∀ input, (splitSql input).errors = [] →
    ∀ t ∈ (splitSql input).statements, splitSql t = ⟨[t], []⟩ := by
  intro h
  have hs : splitSql "SELECT 1\n/;".toList = ⟨["SELECT 1\n/".toList], []⟩ := by decide
  have := h "SELECT 1\n/;".toList (by rw [hs]) "SELECT 1\n/".toList (by rw [hs]; simp)
  revert this
  decide

end Veesker.Splitter
