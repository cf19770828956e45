/-
  File:      Veesker/Splitter/Lines.lean
  Subject:   THE SPLITTER, LINE BY LINE.

  What one line, or one part of a line, does to the scan:

  * `isCommentsOnly_trim`, `flush_statements` -- what `flush` emits;
  * `scanFrom_newline`, `scanFrom_spaces`, `scanFrom_slash`, `scanFrom_trailer`, `scanFrom_held` --
    a line break, white space, a slash alone on its line, what may stand behind a terminator, and
    the same inside a PL/SQL block;
  * `finish_code` -- the end of the text.
-/
import Veesker.Splitter.Reading
import Veesker.Lexis.Bare

namespace Veesker.Splitter

open List

open Veesker.Lexis (Trailer)

/-! ## 1. What `flush` emits -/

/-- Code stays code whatever goes on behind it, unless that could end a comment's start. -/
theorem strip_append_code {s w : Text} (hs : stripLeadingComments s ≠ [])
    (hw : ∀ c, w.head? = some c → c ≠ '-' ∧ c ≠ '*') : stripLeadingComments (s ++ w) ≠ [] := by
  induction hn : s.length using Nat.strong_induction_on generalizing s with
  | _ n ih =>
    have ht : trimStart s ≠ [] := by
      intro ht
      rw [strip_eq, ht] at hs
      exact hs rfl
    have hle := trimStart_length s
    have hcut : ∀ m r : Text, m ≠ [] → sliceAfter m (trimStart s) = some r →
        stripLeadingComments r ≠ [] → stripLeadingComments (r ++ w) ≠ [] := by
      intro m r hm hr hr0
      exact ih r.length (by have := sliceAfter_length hr hm; omega) hr0 rfl
    -- no comment starts with the last character of the text
    have hstart : ∀ a b : Char, b = '-' ∨ b = '*' → startsWith (trimStart s ++ w) [a, b] = true →
        startsWith (trimStart s) [a, b] = true := by
      intro a b hb h
      refine startsWith_of_append h ?_
      by_contra hlt
      have hlt' : (trimStart s).length < 2 := by simpa using hlt
      obtain ⟨c, hc⟩ : ∃ c, trimStart s = [c] := by
        have := length_pos_iff.mpr ht
        exact length_eq_one_iff.mp (by omega)
      obtain ⟨r, hr⟩ := startsWith_iff.mp h
      rw [hc] at hr
      have hrest : w = b :: r := by simpa using (List.cons.inj hr).2
      obtain ⟨h1, h2⟩ := hw b (by rw [hrest]; rfl)
      exact hb.elim h1 h2
    rw [strip_eq] at hs
    rw [strip_eq, trimStart_append ht]
    split at hs
    · rename_i hline
      rw [if_pos (startsWith_append hline w)]
      cases hr : sliceAfter ['\n'] (trimStart s) with
      | some r =>
        rw [hr] at hs
        rw [sliceAfter_append hr]
        exact hcut ['\n'] r (by simp) hr hs
      | none =>
        rw [hr] at hs
        exact absurd rfl hs
    · rename_i hline
      have hline' : ¬ startsWith (trimStart s ++ w) "--".toList = true := fun h =>
        hline (hstart '-' '-' (.inl rfl) h)
      rw [if_neg hline']
      split at hs
      · rename_i hblock
        rw [if_pos (startsWith_append hblock w)]
        cases hr : sliceAfter "*/".toList (trimStart s) with
        | some r =>
          rw [hr] at hs
          rw [sliceAfter_append hr]
          exact hcut "*/".toList r (by decide) hr hs
        | none =>
          rw [hr] at hs
          exact absurd rfl hs
      · rename_i hblock
        have hblock' : ¬ startsWith (trimStart s ++ w) "/*".toList = true := fun h =>
          hblock (hstart '/' '*' (.inr rfl) h)
        rw [if_neg hblock']
        exact append_ne_nil_of_left_ne_nil ht w

theorem isCommentsOnly_append_code {s w : Text} (hs : isCommentsOnly s = false)
    (hw : ∀ c, w.head? = some c → c ≠ '-' ∧ c ≠ '*') : isCommentsOnly (s ++ w) = false := by
  simp only [isCommentsOnly, beq_eq_false_iff_ne, ne_eq] at hs ⊢
  exact strip_append_code hs hw

theorem isCommentsOnly_append_spaces {s w : Text} (hw : ∀ c ∈ w, isSpace c = true) :
    isCommentsOnly (s ++ w) = isCommentsOnly s := by
  rw [Bool.eq_iff_iff]
  simp only [isCommentsOnly, beq_iff_eq]
  constructor
  · intro h
    by_contra hs
    refine strip_append_code hs (fun c hc => ?_) h
    have := hw c (mem_of_mem_head? hc)
    constructor <;> rintro rfl <;> exact absurd this (by decide)
  · exact fun h => strip_append_spaces h hw

/-- **The test for code does not see the trimming.** -/
theorem isCommentsOnly_trim (s : Text) : isCommentsOnly (trim s) = isCommentsOnly s := by
  obtain ⟨w, he, hw⟩ := rdropWhile_split isSpace (trimStart s)
  have h1 : isCommentsOnly (trimStart s) = isCommentsOnly (trim s) := by
    rw [he]
    exact isCommentsOnly_append_spaces hw
  obtain ⟨d, hd, hsp⟩ := trimStart_split s
  have h2 : isCommentsOnly s = isCommentsOnly (trimStart s) := by
    have := strip_filler (filler_spaces hsp) (trimStart s)
    rw [← hd] at this
    simp only [isCommentsOnly, this]
  rw [h2, h1]

/-- A filler in front does not change what the test for code says. -/
theorem isCommentsOnly_filler_append {F : Text} (h : Filler F) (s : Text) :
    isCommentsOnly (F ++ s) = isCommentsOnly s := by
  simp only [isCommentsOnly, strip_filler h]

/-- **What `flush` emits.** -/
theorem Scan.flush_statements (s : Scan) : s.flush.statements =
    if isCommentsOnly s.buf then s.statements else s.statements ++ [trim s.buf] := by
  have ht := isCommentsOnly_trim s.buf
  unfold Scan.flush
  simp only
  cases hc : isCommentsOnly s.buf with
  | true => simp [ht, hc]
  | false =>
    have hne : trim s.buf ≠ [] := by
      intro h
      rw [hc, h] at ht
      exact absurd ht (by decide)
    simp [ht, hc, hne]

variable {s : Scan}

theorem Scan.flush_of_comments (h : isCommentsOnly s.buf = true) :
    s.flush.statements = s.statements := by
  rw [s.flush_statements, h, if_pos rfl]

theorem Scan.flush_of_code (h : isCommentsOnly s.buf = false) :
    s.flush.statements = s.statements ++ [trim s.buf] := by
  rw [s.flush_statements, h]
  rfl

/-! ## 2. The end of the text -/

/-- What `splitSql` returns after its loop. -/
def Scan.finish (s : Scan) : SplitResult :=
  match unterminated s.state with
  | some message => ⟨s.statements, [⟨s.line, message⟩]⟩
  | none => ⟨s.flush.statements, []⟩

theorem splitSql_eq (input : Text) : splitSql input = (scanFrom {} 0 0 input).finish := rfl

/-- Nothing that has to be closed is open. -/
def ScanState.Closed (m : ScanState) : Prop := m = .code ∨ m = .inLineComment

theorem Scan.finish_closed (h : s.state.Closed) : s.finish = ⟨s.flush.statements, []⟩ := by
  unfold Scan.finish
  rcases h with h | h <;> rw [h] <;> rfl

/-! ## 3. Parts of a line -/

/-- The buffer ends where a line does. -/
def LineStart (buf : Text) : Prop := buf = [] ∨ ∃ b, buf = b ++ ['\n']

theorem takeWhile_stop {p : Char → Bool} {c : Char} (hc : p c = false) (s t : Text) :
    (s ++ c :: t).takeWhile p = s.takeWhile p := by
  induction s with
  | nil => rw [nil_append, takeWhile_cons, hc]; rfl
  | cons d s ih => rw [cons_append, takeWhile_cons, takeWhile_cons, ih]

/-- The last line of a text that goes on from the start of a line. -/
theorem lastLine_append {F : Text} (h : LineStart F) (u : Text) :
    lastLine (F ++ u) = lastLine u := by
  rcases h with rfl | ⟨b, rfl⟩
  · rfl
  · unfold lastLine List.rtakeWhile
    have e : (b ++ ['\n'] ++ u).reverse = u.reverse ++ '\n' :: b.reverse := by simp
    rw [e, takeWhile_stop (by decide)]

theorem newline_spaces : ∀ c ∈ ['\n'], isSpace c = true := by
  simp [show isSpace '\n' = true by decide]

theorem filler_newline : Filler ['\n'] := filler_spaces newline_spaces

/-- A line break ends a line comment and is kept. -/
theorem scanFrom_newline (h : s.state.Closed) (z : Text) :
    ∃ s', scanFrom s 0 0 ('\n' :: z) = scanFrom s' 0 0 z ∧ s'.state = .code ∧
      s'.buf = s.buf ++ ['\n'] ∧ s'.statements = s.statements ∧
      s'.plsqlChecked = s.plsqlChecked ∧ s'.isPlsql = s.isPlsql := by
  have hstep : lexStep s.state '\n' z = (.code, 0, false) ∨
      lexStep s.state '\n' z = (.code, 0, true) := by
    rcases h with h | h
    · exact .inr (by simp [h, lexStep, qOpens])
    · exact .inl (by simp [h, lexStep])
  refine ⟨{ s with line := s.line + 1, buf := s.buf ++ ['\n'], state := .code }, ?_, rfl, rfl, rfl,
    rfl, rfl⟩
  rcases hstep with hstep | hstep
  · simp [scanFrom, Scan.step, hstep, Scan.push]
  · have hcode : s.state = .code := (lexStep_plain (by rw [hstep])).1
    rw [hcode] at hstep
    simp [scanFrom, Scan.step, hstep, Scan.push, hcode]

/-- White space and semicolons are read as plain code, or inside a line comment. -/
theorem lexStep_ending {c : Char} (h : Lexis.isEnding c = true) (rest : Text) :
    lexStep .code c rest = (.code, 0, true) := by
  have hc : c ≠ '-' ∧ c ≠ '/' ∧ c ≠ '"' ∧ c ≠ 'q' ∧ c ≠ 'Q' ∧ c ≠ 'n' ∧ c ≠ 'N' ∧ c ≠ '\'' := by
    refine ⟨?_, ?_, ?_, ?_, ?_, ?_, ?_, ?_⟩ <;> rintro rfl <;> exact absurd h (by decide)
  simp [lexStep, qOpens, hc]

/-- A stretch of white space and semicolons. -/
theorem lex_endings {u v : Text} (h : ∀ c ∈ u, Lexis.isEnding c = true) (before : Text) :
    lexEnd .code 0 u v = (.code, 0) ∧
      ∀ p ∈ plainSplits .code 0 before u v, Lexis.isEnding p.2.1 = true := by
  induction u generalizing before with
  | nil => exact ⟨rfl, by simp [plainSplits]⟩
  | cons c u ih =>
    have hc := h c mem_cons_self
    obtain ⟨h1, h2⟩ := ih (fun d hd => h d (mem_cons_of_mem _ hd)) (before ++ [c])
    rw [lexEnd, lexStep_ending hc]
    refine ⟨h1, fun p hp => ?_⟩
    simp only [plainSplits, lexStep_ending hc, if_true, mem_append, mem_singleton] at hp
    rcases hp with rfl | hp
    · exact hc
    · exact h2 p hp

/-- A line comment up to the end of its line. -/
theorem lex_lineComment {w v : Text} (hw : '\n' ∉ w) (before : Text) :
    lexEnd .inLineComment 0 w v = (.inLineComment, 0) ∧
      plainSplits .inLineComment 0 before w v = [] := by
  induction w generalizing before with
  | nil => exact ⟨rfl, rfl⟩
  | cons c w ih =>
    have hc : c ≠ '\n' := fun e => hw (e ▸ mem_cons_self)
    have hstep : lexStep .inLineComment c (w ++ v) = (.inLineComment, 0, false) := by
      simp [lexStep, hc]
    obtain ⟨h1, h2⟩ := ih (fun e => hw (mem_cons_of_mem _ e)) (before ++ [c])
    simp only [lexEnd, plainSplits, hstep]
    exact ⟨h1, h2⟩

/-- **What may stand behind a terminator on its line**: nothing in it is open at its end but a
    line comment, and its plain code is white space and semicolons. -/
theorem lex_trailer {r : Text} (h : Trailer r) (hline : '\n' ∉ r) (v before : Text) :
    (lexEnd .code 0 r v).1.Closed ∧ (lexEnd .code 0 r v).2 = 0 ∧
      ∀ p ∈ plainSplits .code 0 before r v, Lexis.isEnding p.2.1 = true := by
  have hnl : ∀ c (s : Text), '\n' ∉ c :: s → '\n' ∉ s := fun c s h e =>
    h (mem_cons_of_mem _ e)
  have hopen : ∀ w : Text, '\n' ∉ w → ∀ before : Text,
      lexEnd .code 0 ('-' :: '-' :: w) v = (.inLineComment, 0) ∧
        plainSplits .code 0 before ('-' :: '-' :: w) v = [] := by
    intro w hw before
    have hstep : lexStep .code '-' ('-' :: w ++ v) = (.inLineComment, 1, false) := by
      simp [lexStep]
    obtain ⟨h1, h2⟩ := lex_lineComment (v := v) hw (before ++ ['-'] ++ ['-'])
    simp only [lexEnd, plainSplits, hstep]
    exact ⟨h1, h2⟩
  induction h generalizing before with
  | nil => exact ⟨.inl rfl, rfl, by simp [plainSplits]⟩
  | @space c s hc _ ih =>
    obtain ⟨h1, h2, h3⟩ := ih (hnl _ _ hline) (before ++ [c])
    have hstep := lexStep_ending (Lexis.isEnding_of_isSpace hc) (s ++ v)
    simp only [lexEnd, plainSplits, hstep, if_true]
    refine ⟨h1, h2, fun p hp => ?_⟩
    rcases mem_append.mp hp with hp | hp
    · rw [mem_singleton.mp hp]
      exact Lexis.isEnding_of_isSpace hc
    · exact h3 p hp
  | @semicolon s _ ih =>
    obtain ⟨h1, h2, h3⟩ := ih (hnl _ _ hline) (before ++ [';'])
    have hstep := lexStep_ending (c := ';') (by decide) (s ++ v)
    simp only [lexEnd, plainSplits, hstep, if_true]
    refine ⟨h1, h2, fun p hp => ?_⟩
    rcases mem_append.mp hp with hp | hp
    · rw [mem_singleton.mp hp]
      rfl
    · exact h3 p hp
  | comment _ _ => exact absurd hline (by simp)
  | @open_ w hw =>
    obtain ⟨h1, h2⟩ := hopen w hw before
    rw [h1, h2]
    exact ⟨.inr rfl, rfl, by simp⟩

/-- What a scan that stands in plain code needs to know to go on. -/
theorem notSlash_of_ending {c : Char} (h : Lexis.isEnding c = true) : c ≠ '/' := by
  rintro rfl
  exact absurd h (by decide)

/-- White space goes into the buffer. -/
theorem scanFrom_spaces {w : Text} (hcode : s.state = .code) (hset : s.Settled)
    (hw : ∀ c ∈ w, isSpace c = true) (v : Text) :
    ∃ s', scanFrom s 0 0 (w ++ v) = scanFrom s' 0 0 v ∧ s'.state = .code ∧
      s'.buf = s.buf ++ w ∧ s'.statements = s.statements ∧ s'.Settled ∧
      s'.plsqlChecked = s.plsqlChecked := by
  obtain ⟨h1, h2⟩ := lex_endings (v := v) (fun c hc => Lexis.isEnding_of_isSpace (hw c hc)) []
  have hno : ∀ p ∈ plainSplits .code 0 [] w v, p.2.1 ≠ ';' := by
    intro p hp hc
    obtain ⟨u₁, u₂, e, -, -⟩ := plainSplits_behind hp
    have := hw p.2.1 (by rw [e]; simp)
    rw [hc] at this
    exact absurd this (by decide)
  obtain ⟨s', e1, e2, e3, e4, e5, e6, -⟩ := scanFrom_keep w v (s := s) (k := 0)
    (show s.buf = s.buf ++ [] by simp) hset
    (fun p hp hc => absurd hc (hno p (by rwa [hcode] at hp)))
    (fun p hp hc => absurd hc (notSlash_of_ending (h2 p (by rwa [hcode] at hp))))
  rw [hcode] at e1 e2 e6
  rw [h1] at e1 e2
  exact ⟨s', e1, e2, by rw [e3]; simp, e4, e5, e6 hno⟩

/-- A trailer behind a statement that is no block: its semicolons end nothing. -/
theorem scanFrom_trailer {r : Text} (h : Trailer r) (hline : '\n' ∉ r)
    (hcode : s.state = .code) (hbuf : Filler s.buf) (hun : s.plsqlChecked = false) (v : Text) :
    ∃ s', scanFrom s 0 0 (r ++ v) = scanFrom s' 0 0 v ∧ s'.state.Closed ∧
      isCommentsOnly s'.buf = true ∧ Filler (s'.buf ++ ['\n']) ∧ s'.statements = s.statements ∧
      s'.plsqlChecked = false := by
  have hset : s.Settled := fun hc => by rw [hun] at hc; cases hc
  have hnl : ∀ c (s : Text), '\n' ∉ c :: s → '\n' ∉ s := fun c s h e =>
    h (mem_cons_of_mem _ e)
  induction h generalizing s with
  | nil =>
    exact ⟨s, rfl, .inl hcode, isCommentsOnly_filler hbuf,
      hbuf.append filler_newline, rfl, hun⟩
  | @space c r hc _ ih =>
    obtain ⟨s', e1, e2, e3, e4, e5, e6⟩ := scanFrom_spaces (w := [c]) hcode hset
      (by simpa using hc) (r ++ v)
    have hfill : Filler s'.buf := by
      rw [e3]
      exact hbuf.append (filler_spaces (by simpa using hc))
    obtain ⟨s'', d1, d2, d3, d4, d5, d6⟩ := ih (hnl _ _ hline) e2 hfill (e6.trans hun) e5
    exact ⟨s'', e1.trans d1, d2, d3, d4, d5.trans e4, d6⟩
  | @semicolon r _ ih =>
    -- nothing but a filler is in the buffer: the statement is empty
    have hno : s.checkPlsql.isPlsql = false := by
      have hb : detectPlsqlStart s.buf = false := by
        have hs := strip_filler hbuf []
        rw [append_nil] at hs
        rw [detectPlsqlStart, hs]
        decide
      simp [Scan.checkPlsql, hun, hb]
    have hstep := lexStep_ending (c := ';') (by decide) (r ++ v)
    have hrun : scanFrom s 0 0 (';' :: r ++ v) = scanFrom s.checkPlsql.flush 0 0 (r ++ v) := by
      simp [scanFrom, Scan.step, hcode, hstep, hno]
    obtain ⟨c1, c2, c3, -⟩ := s.checkPlsql_same
    have hout : s.checkPlsql.flush.statements = s.statements := by
      rw [Scan.flush_of_comments (by rw [c2]; exact isCommentsOnly_filler hbuf), c3]
    obtain ⟨s', d1, d2, d3, d4, d5, d6⟩ := ih (hnl _ _ hline) (s := s.checkPlsql.flush)
      (c1.trans hcode) .nil rfl (fun hc => by cases hc)
    exact ⟨s', hrun.trans d1, d2, d3, d4, d5.trans hout, d6⟩
  | comment _ _ => exact absurd hline (by simp)
  | @open_ w hw =>
    obtain ⟨l1, l2, -⟩ := lex_trailer (.open_ hw) hline v []
    have hstep : lexStep .code '-' ('-' :: w ++ v) = (.inLineComment, 1, false) := by
      simp [lexStep]
    have hno : plainSplits .code 0 [] ('-' :: '-' :: w) v = [] := by
      simp only [plainSplits, hstep]
      exact (lex_lineComment hw _).2
    obtain ⟨s', e1, e2, e3, e4, -, e6, -⟩ := scanFrom_keep ('-' :: '-' :: w) v (s := s) (k := 0)
      (show s.buf = s.buf ++ [] by simp) hset
      (by rw [hcode, hno]; simp) (by rw [hcode, hno]; simp)
    rw [hcode] at e1 e2 e6
    rw [l2] at e1
    have hbuf' : s'.buf = s.buf ++ '-' :: '-' :: w := by rw [e3]; simp
    have hfill : Filler (s'.buf ++ ['\n']) := by
      have : s'.buf ++ ['\n'] = s.buf ++ '-' :: '-' :: (w ++ '\n' :: []) := by rw [hbuf']; simp
      rw [this]
      exact hbuf.append (.comment hw .nil)
    refine ⟨s', e1, e2 ▸ l1, ?_, hfill, e4, (e6 (by rw [hno]; simp)).trans hun⟩
    have := isCommentsOnly_filler hfill
    rwa [isCommentsOnly_append_spaces newline_spaces] at this

/-- A trailer inside a block that is known to be one goes into the buffer. -/
theorem scanFrom_held {r : Text} (h : Trailer r) (hline : '\n' ∉ r)
    (hcode : s.state = .code) (hset : s.Settled) (hch : s.plsqlChecked = true) (v : Text) :
    ∃ s', scanFrom s 0 0 (r ++ v) = scanFrom s' 0 0 v ∧ s'.state.Closed ∧
      s'.buf = s.buf ++ r ∧ s'.statements = s.statements ∧ s'.Settled ∧
      s'.plsqlChecked = true := by
  obtain ⟨l1, l2, l3⟩ := lex_trailer h hline v []
  obtain ⟨s', e1, e2, e3, e4, e5, -, e7⟩ := scanFrom_keep r v (s := s) (k := 0)
    (show s.buf = s.buf ++ [] by simp) hset (fun p hp hc => .inl hch)
    (fun p hp hc => absurd hc (notSlash_of_ending (l3 p (by rwa [hcode] at hp))))
  rw [hcode] at e1 e2
  rw [l2] at e1
  exact ⟨s', e1, e2 ▸ l1, by rw [e3]; simp, e4, e5, e7 hch⟩

theorem detectPlsqlStart_filler {F : Text} (h : Filler F) (s : Text) :
    detectPlsqlStart (F ++ s) = detectPlsqlStart s := by
  simp only [detectPlsqlStart, strip_filler h]

/-- Whether a slash is alone on its line does not depend on the lines before, nor on what follows
    a separator behind it. -/
theorem slashAlone_stable {F b u z : Text} {x : Char} (hF : LineStart F) (hx : IsSeparator x) :
    slashAlone (F ++ b) (u ++ [x] ++ z) = slashAlone b (u ++ [x]) := by
  have htail : isSlashTail x = false := by rcases hx with rfl | rfl <;> decide
  have hdrop : ∀ y : Text, (u ++ x :: y).dropWhile isSlashTail =
      u.dropWhile isSlashTail ++ x :: y := by
    intro y
    rw [dropWhile_append]
    split
    · rename_i h
      rw [List.isEmpty_iff.mp h, nil_append, dropWhile_cons_of_neg (by simp [htail])]
    · rfl
  have hhead : ((u ++ [x] ++ z).dropWhile isSlashTail).head? =
      ((u ++ [x]).dropWhile isSlashTail).head? := by
    rw [append_assoc, singleton_append, hdrop, hdrop]
    cases u.dropWhile isSlashTail <;> rfl
  rw [slashAlone, slashAlone, lastLine_append hF, hhead]

/-- **A part of a statement up to a separator**, read from the start of a line. -/
theorem scanFrom_part {a z : Text} {x : Char} (hx : IsSeparator x)
    (hcode : s.state = .code) (hbuf : Filler s.buf) (hstart : LineStart s.buf)
    (hun : s.plsqlChecked = false) (hclosed : lexEnd .code 0 a [x] = (.code, 0))
    (hsemi : ∀ p ∈ plainSplits .code 0 [] a [x], p.2.1 = ';' → detectPlsqlStart p.1 = true)
    (hslash : ∀ p ∈ plainSplits .code 0 [] a [x], p.2.1 = '/' → slashAlone p.1 p.2.2 = false) :
    ∃ s', scanFrom s 0 0 (a ++ x :: z) = scanFrom s' 0 0 (x :: z) ∧ s'.state = .code ∧
      s'.buf = s.buf ++ a ∧ s'.statements = s.statements ∧ s'.Settled ∧
      ((∀ p ∈ plainSplits .code 0 [] a [x], p.2.1 ≠ ';') → s'.plsqlChecked = false) := by
  have hsplits := plainSplits_stable hx .code 0 [] a z
  have hend := lexEnd_stable hx .code 0 a z
  obtain ⟨s', e1, e2, e3, e4, e5, e6, -⟩ := scanFrom_keep a (x :: z) (s := s) (k := 0)
    (show s.buf = s.buf ++ [] by simp) (fun hc => by rw [hun] at hc; cases hc)
    (fun p hp hc => by
      rw [hcode, hsplits] at hp
      obtain ⟨q, hq, rfl⟩ := mem_map.mp hp
      exact .inr ((detectPlsqlStart_filler hbuf q.1).trans (hsemi q hq hc)))
    (fun p hp hc => by
      rw [hcode, hsplits] at hp
      obtain ⟨q, hq, rfl⟩ := mem_map.mp hp
      obtain ⟨u₁, u₂, -, -, hb⟩ := plainSplits_behind hq
      have := hslash q hq hc
      rw [hb] at this
      show slashAlone (s.buf ++ q.1) (q.2.2 ++ z) = false
      rw [hb, slashAlone_stable hstart hx, this])
  rw [hcode, hend, hclosed] at e1 e2
  refine ⟨s', e1, e2, by rw [e3]; simp, e4, e5, fun hno => (e6 fun p hp => ?_).trans hun⟩
  rw [hcode, hsplits] at hp
  obtain ⟨q, hq, rfl⟩ := mem_map.mp hp
  exact hno q hq

/-- **A slash alone on its line** ends what is in the buffer; the line break behind it goes with
    it. -/
theorem scanFrom_slash {t z : Text} (hcode : s.state = .code)
    (hline : ∀ c ∈ lastLine s.buf, isSpace c = true) (ht : ∀ c ∈ t, isSlashTail c = true)
    (hz : z.head?.all (· == '\n') = true) :
    ∃ s', scanFrom s 0 0 ('/' :: (t ++ z)) = scanFrom s' 0 0 (z.drop 1) ∧ s'.state = .code ∧
      s'.buf = [] ∧ s'.plsqlChecked = false ∧ s'.statements = s.flush.statements := by
  have hdrop : ∀ (s : Scan) (t z : Text), scanFrom s 0 t.length (t ++ z) = scanFrom s 0 0 z := by
    intro s t
    induction t with
    | nil => intro z; rfl
    | cons c t ih => exact ih
  have hztail : z.dropWhile isSlashTail = z := by
    cases z with
    | nil => rfl
    | cons c z =>
      have hc : c = '\n' := by simpa using hz
      rw [hc]
      rfl
  have htail : (t ++ z).dropWhile isSlashTail = z := by
    rw [dropWhile_append_of_pos ht, hztail]
  have htake : ((t ++ z).takeWhile isSlashTail).length = t.length := by
    have := congrArg List.length
      (takeWhile_append_dropWhile (p := isSlashTail) (l := t ++ z))
    rw [length_append, htail, length_append] at this
    omega
  have hnostar : (t ++ z).head? ≠ some '*' := by
    intro e
    cases t with
    | cons c t =>
      have hc : c = '*' := by simpa using e
      have := ht c mem_cons_self
      rw [hc] at this
      exact absurd this (by decide)
    | nil =>
      rw [nil_append] at e
      rw [e] at hz
      exact absurd hz (by decide)
  have hlex : lexStep s.state '/' (t ++ z) = (.code, 0, true) := by
    rw [hcode, lexStep, if_neg (by simp), if_neg fun h => hnostar h.2]
    simp [qOpens]
  have hspace : trim (lastLine s.buf) = [] := by
    rw [trim, trimStart_of_spaces hline]
    rfl
  have halone : slashAlone s.buf (t ++ z) = true := by
    rw [slashAlone, hspace, htail, hz]
    rfl
  have hstep : s.step '/' (t ++ z) = if z = [] then (s.flush, 0, t.length)
      else ({ s.flush with line := s.line + 1 }, 0, t.length + 1) := by
    unfold Scan.step
    rw [hlex]
    simp only [htail, htake, halone]
    rfl
  cases z with
  | nil =>
    refine ⟨s.flush, ?_, hcode, rfl, rfl, rfl⟩
    rw [scanFrom, if_neg (by decide), hstep]
    exact hdrop s.flush t []
  | cons c z =>
    have hc : c = '\n' := by simpa using hz
    subst hc
    refine ⟨{ s.flush with line := s.line + 1 }, ?_, hcode, rfl, rfl, rfl⟩
    have := hdrop { s.flush with line := s.line + 1 } (t ++ ['\n']) z
    rw [append_assoc, length_append, length_singleton, singleton_append] at this
    rw [scanFrom, if_neg (by decide), hstep]
    exact this

end Veesker.Splitter
