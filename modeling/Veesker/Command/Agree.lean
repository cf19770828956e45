/-
  File:      Veesker/Command/Agree.lean
  Subject:   COMMAND MODE AND THE SPLITTER READ THE SAME STATEMENTS, where no statement is one of
             those the parser cuts elsewhere.

  The parser cuts at a line that ends in `;`, the splitter at a `;` in plain code that is not
  inside a PL/SQL block and at a slash alone on its line. `Clean` says of a session's chunks that
  these are the same places:

  * a SQL statement's first separator is the `;` the parser found, and nothing is open there;
  * a CREATE unit's first line that ends in `;` is its last one before the slash;
  * a PL/SQL block is one to the splitter too, and its slash is a slash to it;
  * the `--` at which the parser cuts a statement's text is behind its code.

  `agree_of_clean` carries the agreement through a whole session, chunk by chunk (`Scan.Run`).
-/
import Veesker.Command.Session
import Veesker.Splitter.Lines

namespace Veesker.Command

open Veesker.Lexis Veesker.Splitter List

/-! ## 1. Clean sessions -/

/-- `a` ends in the `;` the parser found, and that `;` is the first separator the splitter finds
    but for those inside a block; `r` stands behind it. -/
structure EndsAlone (joined a r : Text) : Prop where
  split : joined = a ++ ';' :: r
  trailer : Trailer r
  oneLine : '\n' ∉ r
  closed : lexEnd .code 0 a [';'] = (.code, 0)
  noSlash : ∀ p ∈ plainSplits .code 0 [] a [';'], p.2.1 = '/' → slashAlone p.1 p.2.2 = false
  terminator : modeFrom .plain (a ++ [';']) = .plain
  comment : CommentIsLast joined
  code : isCommentsOnly a = false

/-- No block: the statement's first `;` is its end. -/
def IsPlain (a : Text) : Prop :=
  (∀ p ∈ plainSplits .code 0 [] a [';'], p.2.1 ≠ ';') ∧ detectPlsqlStart a = false

/-- A CREATE unit: every `;` is inside the block. -/
def IsUnit (a : Text) : Prop :=
  (∀ p ∈ plainSplits .code 0 [] a [';'], p.2.1 = ';' → detectPlsqlStart p.1 = true) ∧
    detectPlsqlStart a = true

/-- A slash line the splitter knows, too: no white space behind the slash but blanks, tabs and
    carriage returns. -/
def IsSlashLine (line : Text) : Prop :=
  ∃ w t, line = w ++ '/' :: t ∧ (∀ c ∈ w, isSpace c = true) ∧ ∀ c ∈ t, isSlashTail c = true

/-- A block the splitter reads as one: nothing is open at its slash, and every `;` is inside. -/
def IsBlock (body : List Text) (close : Text) : Prop :=
  ∃ w t, close = w ++ '/' :: t ∧ (∀ c ∈ w, isSpace c = true) ∧ (∀ c ∈ t, isSlashTail c = true) ∧
    lexEnd .code 0 (joinLines body ++ '\n' :: w) ['/'] = (.code, 0) ∧
    ∀ p ∈ plainSplits .code 0 [] (joinLines body ++ '\n' :: w) ['/'], p.2.1 = ';' →
      detectPlsqlStart p.1 = true

/-- What may follow a CREATE unit: blank lines, and then its slash or the end. -/
def UnitCloses : List Chunk → Prop
  | [] => True
  | .blank _ :: cs => UnitCloses cs
  | .slash _ :: _ => True
  | _ => False

/-- **The parser's cuts are the splitter's.** -/
def Clean : List Chunk → Prop
  | [] => True
  | .blank _ :: cs => Clean cs
  | .slash line :: cs => IsSlashLine line ∧ Clean cs
  | .sql before last :: cs =>
    (∃ a r, EndsAlone (joinLines (before ++ [last])) a r ∧
      (IsPlain a ∨ (IsUnit a ∧ UnitCloses cs))) ∧ Clean cs
  | .plsql body close :: cs => IsBlock body close ∧ Clean cs

/-- **Command mode and the splitter agree on a session**: the texts of its events are the
    statements of its text, in order. -/
def Agree (lines : List Text) : Prop :=
  List.Forall₂ Same (statementTexts (CommandParser.fresh.events lines))
    (splitSql (joinLines lines)).statements

/-! ## 2. Lines and their text -/

/-- What stands behind some lines in a joined text. -/
def behind : List Text → Text
  | [] => []
  | l :: ls => '\n' :: joinLines (l :: ls)

theorem joinLines_append {a : List Text} (h : a ≠ []) (b : List Text) :
    joinLines (a ++ b) = joinLines a ++ behind b := by
  cases b with
  | nil => rw [append_nil, behind, append_nil]
  | cons l ls =>
    induction a with
    | nil => exact absurd rfl h
    | cons k ks ih =>
      cases ks with
      | nil => simp [joinLines, behind, List.intercalate]
      | cons m ms =>
        have := ih (by simp)
        simp only [joinLines, cons_append, intercalate_cons_cons] at this ⊢
        rw [this]
        simp

theorem behind_head (b : List Text) : (behind b).head?.all (· == '\n') = true := by
  cases b <;> rfl

theorem behind_drop (b : List Text) : (behind b).drop 1 = joinLines b := by
  cases b <;> rfl

/-- The line a character of a joined text stands on. -/
theorem line_of_mem {ls : List Text} (hne : ls ≠ []) (hl : ∀ l ∈ ls, '\n' ∉ l) {u v : Text}
    {c : Char} (hc : c ≠ '\n') (h : joinLines ls = u ++ c :: v) :
    lastLine u ++ c :: v.takeWhile (· != '\n') ∈ ls := by
  have hall : ∀ {s : Text}, '\n' ∉ s → ∀ d ∈ s, (d != '\n') = true := by
    intro s hs d hd
    rw [bne_iff_ne]
    rintro rfl
    exact hs hd
  have hfull : ∀ {s : Text}, '\n' ∉ s → lastLine s = s := by
    intro s hs
    unfold lastLine List.rtakeWhile
    rw [takeWhile_eq_self_iff.mpr fun d hd => hall hs d (mem_reverse.mp hd),
      reverse_reverse]
  induction ls generalizing u with
  | nil => exact absurd rfl hne
  | cons l ls ih =>
    have hl0 := hl l mem_cons_self
    cases ls with
    | nil =>
      have hj : l = u ++ c :: v := by simpa [joinLines] using h
      have hu : '\n' ∉ u := fun hm => hl0 (by rw [hj]; exact mem_append_left _ hm)
      have hv : '\n' ∉ v := fun hm => hl0 (by rw [hj]; simp [hm])
      rw [hfull hu, takeWhile_eq_self_iff.mpr (hall hv), ← hj]
      exact mem_cons_self
    | cons m ms =>
      have hj : l ++ '\n' :: joinLines (m :: ms) = u ++ c :: v := by
        rw [← h, joinLines, joinLines, intercalate_cons_cons]
        simp
      rcases append_eq_append_iff.mp hj with ⟨y, hy, hy'⟩ | ⟨y, hy, hy'⟩
      · -- the character is behind the first line
        cases y with
        | nil => exact absurd (List.cons.inj hy').1.symm hc
        | cons d y =>
          obtain ⟨hd, hrest⟩ := List.cons.inj hy'
          have := ih (by simp) (fun k hk => hl k (mem_cons_of_mem _ hk)) hrest
          have hlast : lastLine u = lastLine y := by
            rw [hy, ← hd]
            have := lastLine_append (.inr ⟨l, rfl⟩) y
            rw [← this]
            simp
          rw [hlast]
          exact mem_cons_of_mem _ this
      · -- it is on the first line
        cases y with
        | nil => exact absurd (List.cons.inj hy').1 hc
        | cons d y =>
          obtain ⟨hd, hrest'⟩ := List.cons.inj hy'
          have hrest : v = y ++ '\n' :: joinLines (m :: ms) := hrest'
          have hu : '\n' ∉ u := fun hm => hl0 (by rw [hy]; exact mem_append_left _ hm)
          have hyn : '\n' ∉ y := fun hm => hl0 (by rw [hy]; simp [hm])
          rw [hfull hu, hrest, takeWhile_stop (by decide),
            takeWhile_eq_self_iff.mpr (hall hyn), hd, ← hy]
          exact mem_cons_self

/-- No slash of a block's lines is alone on its line to the splitter: the parser would have
    stopped there. -/
theorem block_noSlash {body : List Text} {w : Text} (hnl : ∀ l ∈ body, '\n' ∉ l)
    (hne : body ≠ []) (hno : ∀ l ∈ body, isOnlySlash l = false)
    (hw : ∀ c ∈ w, isSpace c = true) (hwl : '\n' ∉ w) :
    ∀ p ∈ plainSplits .code 0 [] (joinLines body ++ '\n' :: w) ['/'], p.2.1 = '/' →
      slashAlone p.1 p.2.2 = false := by
  rintro ⟨b, c, v⟩ hp hc
  have hc' : c = '/' := hc
  subst hc'
  obtain ⟨u₁, u₂, hu, hb, hv⟩ := plainSplits_behind hp
  have hb' : b = u₁ := by simpa using hb
  have hv' : v = u₂ ++ ['/'] := hv
  subst hb' hv'
  by_contra halone
  have halone : slashAlone b (u₂ ++ ['/']) = true := by simpa using halone
  simp only [slashAlone, Bool.and_eq_true, beq_iff_eq] at halone
  obtain ⟨hfront, hback⟩ := halone
  -- the line break behind the slash
  obtain ⟨y, hy⟩ : ∃ y, u₂.dropWhile isSlashTail = '\n' :: y := by
    rw [dropWhile_append] at hback
    cases hd : u₂.dropWhile isSlashTail with
    | nil =>
      rw [hd] at hback
      exact absurd hback (by decide)
    | cons d y =>
      rw [hd] at hback
      have : d = '\n' := by simpa using hback
      exact ⟨y, by rw [this]⟩
  have htake : u₂.takeWhile (· != '\n') = u₂.takeWhile isSlashTail := by
    have hsplit := takeWhile_append_dropWhile (p := isSlashTail) (l := u₂)
    rw [hy] at hsplit
    have htails : ∀ d ∈ u₂.takeWhile isSlashTail, (d != '\n') = true := by
      intro d hd
      have := mem_takeWhile_imp hd
      rw [bne_iff_ne]
      rintro rfl
      exact absurd this (by decide)
    conv_lhs => rw [← hsplit]
    rw [takeWhile_stop (by decide), takeWhile_eq_self_iff.mpr htails]
  have hjoin : joinLines (body ++ [w]) = b ++ '/' :: u₂ := by
    rw [joinLines_concat hne]
    exact hu
  have hline := line_of_mem (by simp) (fun l hl => by
    rcases mem_append.mp hl with hl | hl
    · exact hnl l hl
    · rw [mem_singleton.mp hl]
      exact hwl) (by decide) hjoin
  rw [htake] at hline
  have hspaces : ∀ c ∈ lastLine b, isSpace c = true := by
    have : (trimStart (lastLine b)).rdropWhile isSpace = [] := hfront
    have hall := rdropWhile_eq_nil_iff.mp this
    by_contra hcon
    cases ht : trimStart (lastLine b) with
    | nil => exact hcon (dropWhile_eq_nil_iff.mp ht)
    | cons d r =>
      rw [ht] at hall
      have := hall d mem_cons_self
      rw [trimStart_head ht] at this
      cases this
  have hslash : isOnlySlash (lastLine b ++ '/' :: u₂.takeWhile isSlashTail) = true := by
    have hts : ∀ c ∈ u₂.takeWhile isSlashTail, isSpace c = true := by
      intro c hc
      have := mem_takeWhile_imp hc
      simp only [isSlashTail, Bool.or_eq_true, beq_iff_eq] at this
      rcases this with (rfl | rfl) | rfl <;> decide
    have h1 : trimStart (lastLine b ++ '/' :: u₂.takeWhile isSlashTail) =
        '/' :: u₂.takeWhile isSlashTail := by
      unfold trimStart
      rw [dropWhile_append_of_pos hspaces]
      exact dropWhile_cons_of_neg (by decide)
    have h2 : trimEnd (['/'] ++ u₂.takeWhile isSlashTail) = ['/'] := by
      unfold trimEnd
      rw [rdropWhile_append_of_all hts]
      rfl
    rw [isOnlySlash, trim, h1]
    exact beq_iff_eq.mpr h2
  rcases mem_append.mp hline with h | h
  · rw [hno _ h] at hslash
    cases hslash
  · have := hw '/' (by rw [← mem_singleton.mp h]; simp)
    exact absurd this (by decide)

/-! ## 3. The scan at the start of a line -/

/-- Between two statements. -/
structure AtLine (s : Scan) (out : List Text) : Prop where
  state : s.state = .code
  filler : Filler s.buf
  start : LineStart s.buf
  unchecked : s.plsqlChecked = false
  out : s.statements = out

/-- Behind the last line of a CREATE unit whose event has the text `e`. -/
structure InUnit (s : Scan) (out : List Text) (e : Text) : Prop where
  state : s.state = .code
  start : LineStart s.buf
  settled : s.Settled
  checked : s.plsqlChecked = true
  out : s.statements = out
  code : isCommentsOnly s.buf = false
  same : Same e s.buf

/-- From here on the scan adds the statements `texts` to `out`, and nothing is unterminated. -/
def Yields (s : Scan) (z : Text) (out texts : List Text) : Prop :=
  ∃ new, (scanFrom s 0 0 z).finish = ⟨out ++ new, []⟩ ∧ List.Forall₂ Same texts new

theorem Yields.of_run {s s' : Scan} {z z' : Text} {out texts : List Text}
    (h : scanFrom s 0 0 z = scanFrom s' 0 0 z') (hy : Yields s' z' out texts) :
    Yields s z out texts := by
  obtain ⟨new, h1, h2⟩ := hy
  exact ⟨new, by rw [h, h1], h2⟩

variable {s : Scan}

/-- A statement is emitted and the scan goes on. -/
theorem Yields.cons {z e x : Text} {out texts : List Text} (hx : Same e x)
    (hy : Yields s z (out ++ [x]) texts) : Yields s z out (e :: texts) := by
  obtain ⟨new, h1, h2⟩ := hy
  exact ⟨x :: new, by rw [h1]; simp, .cons hx h2⟩

theorem same_trim {e s : Text} (h : Same e s) : Same e (trim s) := h.trans (normal_trim s).symm

variable {out texts rest : List Text}

/-- The end of a line between two statements. -/
theorem yields_lineEnd (hclosed : s.state.Closed)
    (hfill : Filler (s.buf ++ ['\n'])) (hcom : isCommentsOnly s.buf = true)
    (hun : s.plsqlChecked = false) (hout : s.statements = out) (hnil : rest = [] → texts = [])
    (ih : ∀ s', AtLine s' out → Yields s' (joinLines rest) out texts) :
    Yields s (behind rest) out texts := by
  cases rest with
  | nil =>
    refine ⟨[], ?_, by rw [hnil rfl]; exact .nil⟩
    show s.finish = _
    rw [Scan.finish_closed hclosed, Scan.flush_of_comments hcom, hout, append_nil]
  | cons l ls =>
    obtain ⟨s', e1, e2, e3, e4, e5, -⟩ := scanFrom_newline hclosed (joinLines (l :: ls))
    exact .of_run e1 (ih s' ⟨e2, e3 ▸ hfill, e3 ▸ .inr ⟨s.buf, rfl⟩, e5.trans hun, e4.trans hout⟩)

/-- The end of a line of a CREATE unit. -/
theorem yields_unitEnd {e : Text}
    (hclosed : s.state.Closed) (hset : s.Settled) (hch : s.plsqlChecked = true)
    (hout : s.statements = out) (hcode : isCommentsOnly s.buf = false) (hsame : Same e s.buf)
    (hnil : rest = [] → texts = [])
    (ih : ∀ s', InUnit s' out e → Yields s' (joinLines rest) out (e :: texts)) :
    Yields s (behind rest) out (e :: texts) := by
  cases rest with
  | nil =>
    refine ⟨[trim s.buf], ?_, by rw [hnil rfl]; exact .cons (same_trim hsame) .nil⟩
    show s.finish = _
    rw [Scan.finish_closed hclosed, Scan.flush_of_code hcode, hout]
  | cons l ls =>
    obtain ⟨s', e1, e2, e3, e4, e5, e6⟩ := scanFrom_newline hclosed (joinLines (l :: ls))
    refine .of_run e1 (ih s' ⟨e2, e3 ▸ .inr ⟨s.buf, rfl⟩, ?_, e5.trans hch, e4.trans hout, ?_, ?_⟩)
    · exact fun h => e6.trans (hset (e5.symm.trans h))
    · rw [e3, isCommentsOnly_append_spaces newline_spaces, hcode]
    · rw [e3]
      exact hsame.trans (normal_append_spaces _ newline_spaces).symm

/-! ## 4. One chunk -/

/-- The white space in front of a slash, and the slash. -/
theorem yields_slash {w t : Text} (hcode : s.state = .code)
    (hstart : LineStart s.buf) (hset : s.Settled) (hw : ∀ c ∈ w, isSpace c = true)
    (ht : ∀ c ∈ t, isSlashTail c = true)
    (ih : ∀ s', AtLine s' ((if isCommentsOnly s.buf then s.statements
      else s.statements ++ [trim (s.buf ++ w)])) → Yields s' (joinLines rest) out texts) :
    Yields s (w ++ '/' :: t ++ behind rest) out texts := by
  obtain ⟨s₁, e1, e2, e3, e4, e5, e6⟩ := scanFrom_spaces hcode hset hw ('/' :: (t ++ behind rest))
  have hline : ∀ c ∈ lastLine s₁.buf, isSpace c = true := by
    intro c hc
    rw [e3, lastLine_append hstart] at hc
    exact hw c ((rtakeWhile_suffix _ _).subset hc)
  obtain ⟨s₂, d1, d2, d3, d4, d5⟩ := scanFrom_slash e2 hline ht (behind_head rest)
  rw [behind_drop] at d1
  have hrun : scanFrom s 0 0 (w ++ '/' :: t ++ behind rest) =
      scanFrom s₂ 0 0 (joinLines rest) := by
    rw [append_assoc, cons_append, e1, d1]
  refine .of_run hrun (ih s₂ ⟨d2, d3 ▸ .nil, d3 ▸ .inl rfl, d4, ?_⟩)
  rw [d5, s₁.flush_statements, e3, e4, isCommentsOnly_append_spaces hw]

/-- A blank line. -/
theorem spaces_of_trim {line : Text} (h : trim line = []) : ∀ c ∈ line, isSpace c = true := by
  have hall := rdropWhile_eq_nil_iff.mp h
  cases ht : trimStart line with
  | nil => exact dropWhile_eq_nil_iff.mp ht
  | cons d r =>
    rw [ht] at hall
    have := hall d mem_cons_self
    rw [trimStart_head ht] at this
    cases this

theorem AtLine.settled {out : List Text} (h : AtLine s out) : s.Settled := by
  intro hc
  rw [h.unchecked] at hc
  cases hc

/-- A SQL statement that is no block. -/
theorem yields_plain {joined a r : Text}
    (hs : AtLine s out) (he : EndsAlone joined a r) (ha : IsPlain a) (hnil : rest = [] → texts = [])
    (ih : ∀ out' s', AtLine s' out' → Yields s' (joinLines rest) out' texts) :
    Yields s (joined ++ behind rest) out (CommandParser.emitText joined :: texts) := by
  obtain ⟨s₁, e1, e2, e3, e4, e5, e6⟩ := scanFrom_part (z := r ++ behind rest) (.inl rfl) hs.state
    hs.filler hs.start hs.unchecked he.closed (fun p hp hc => absurd hc (ha.1 p hp)) he.noSlash
  have hun := e6 ha.1
  have hcode : isCommentsOnly s₁.buf = false := by
    rw [e3, isCommentsOnly_filler_append hs.filler, he.code]
  -- the semicolon: no block, so the statement ends
  have hno : s₁.checkPlsql.isPlsql = false := by
    simp [Scan.checkPlsql, hun, e3, detectPlsqlStart_filler hs.filler, ha.2]
  have hstep := lexStep_ending (c := ';') (by decide) (r ++ behind rest)
  have hsemi : scanFrom s₁ 0 0 (';' :: (r ++ behind rest)) =
      scanFrom s₁.checkPlsql.flush 0 0 (r ++ behind rest) := by
    simp [scanFrom, Scan.step, e2, hstep, hno]
  obtain ⟨c1, c2, c3, -⟩ := s₁.checkPlsql_same
  have hout : s₁.checkPlsql.flush.statements = out ++ [trim s₁.buf] := by
    rw [Scan.flush_of_code (by rw [c2]; exact hcode), c2, c3, e4, hs.out]
  obtain ⟨s₂, d1, d2, d3, d4, d5, d6⟩ := scanFrom_trailer he.trailer he.oneLine
    (s := s₁.checkPlsql.flush) (c1.trans e2) .nil rfl (behind rest)
  have hrun : scanFrom s 0 0 (joined ++ behind rest) = scanFrom s₂ 0 0 (behind rest) := by
    rw [he.split, append_assoc, cons_append, e1, hsemi, d1]
  have hsame : Same (CommandParser.emitText joined) (trim s₁.buf) := by
    refine same_trim ?_
    rw [Same, normal_emitText he.split he.terminator he.trailer he.comment, e3,
      normal_filler hs.filler.isFiller]
  exact .of_run hrun (.cons hsame (yields_lineEnd d2 d4 d3 d6 (d5.trans hout) hnil
    (fun s' hs' => ih _ s' hs')))

/-- A CREATE unit up to the line that ends in its semicolon. -/
theorem yields_unit {joined a r : Text}
    (hs : AtLine s out) (he : EndsAlone joined a r) (ha : IsUnit a) (hnil : rest = [] → texts = [])
    (ih : ∀ s', InUnit s' out (CommandParser.emitText joined) →
      Yields s' (joinLines rest) out (CommandParser.emitText joined :: texts)) :
    Yields s (joined ++ behind rest) out (CommandParser.emitText joined :: texts) := by
  obtain ⟨s₁, e1, e2, e3, e4, e5, -⟩ := scanFrom_part (z := r ++ behind rest) (.inl rfl) hs.state
    hs.filler hs.start hs.unchecked he.closed ha.1 he.noSlash
  -- the semicolon: inside the block
  have hyes : s₁.checkPlsql.isPlsql = true := by
    unfold Scan.checkPlsql
    split
    · rename_i h
      exact e5 h
    · show detectPlsqlStart s₁.buf = true
      rw [e3, detectPlsqlStart_filler hs.filler, ha.2]
  have hstep := lexStep_ending (c := ';') (by decide) (r ++ behind rest)
  have hsemi : scanFrom s₁ 0 0 (';' :: (r ++ behind rest)) =
      scanFrom (s₁.checkPlsql.push ';') 0 0 (r ++ behind rest) := by
    simp [scanFrom, Scan.step, e2, hstep, hyes]
  obtain ⟨c1, c2, c3, c4⟩ := s₁.checkPlsql_same
  obtain ⟨s₂, d1, d2, d3, d4, d5, d6⟩ := scanFrom_held he.trailer he.oneLine
    (s := s₁.checkPlsql.push ';') (c1.trans e2) (fun _ => hyes) c4 (behind rest)
  have hrun : scanFrom s 0 0 (joined ++ behind rest) = scanFrom s₂ 0 0 (behind rest) := by
    rw [he.split, append_assoc, cons_append, e1, hsemi, d1]
  have hbuf : s₂.buf = s.buf ++ (a ++ ';' :: r) := by
    rw [d3, Scan.push, c2, e3]
    simp
  have hcode : isCommentsOnly s₂.buf = false := by
    rw [hbuf, isCommentsOnly_filler_append hs.filler]
    refine isCommentsOnly_append_code he.code fun c hc => ?_
    have hc' : ';' = c := by simpa using hc
    exact hc' ▸ by decide
  have hsame : Same (CommandParser.emitText joined) s₂.buf := by
    rw [Same, normal_emitText he.split he.terminator he.trailer he.comment, hbuf,
      normal_filler hs.filler.isFiller, normal_cut he.terminator he.trailer]
  exact .of_run hrun (yields_unitEnd d2 d5 d6 (d4.trans (c3.trans (e4.trans hs.out))) hcode hsame
    hnil ih)

/-- A PL/SQL block and its slash. -/
theorem yields_block {out texts rest body : List Text} {close : Text}
    (hs : AtLine s out) (hb : IsBlock body close) (hr : (Chunk.plsql body close).Reads)
    (hnl : ∀ l ∈ body ++ [close], '\n' ∉ l)
    (ih : ∀ out' s', AtLine s' out' → Yields s' (joinLines rest) out' texts) :
    Yields s (joinLines (body ++ [close]) ++ behind rest) out (joinLines body :: texts) := by
  obtain ⟨w, t, hclose, hw, ht, hclosed, hsemi⟩ := hb
  obtain ⟨-, hno, first, more, hbody, c, hfirst, hc1, hc2⟩ := hr
  have hne : body ≠ [] := by simp [hbody]
  have hwl : '\n' ∉ w := fun h => hnl close (by simp) (by rw [hclose]; exact mem_append_left _ h)
  have hnoslash := block_noSlash (fun l hl => hnl l (mem_append_left _ hl)) hne hno hw hwl
  obtain ⟨s₁, e1, e2, e3, e4, e5, -⟩ := scanFrom_part (z := t ++ behind rest) (.inr rfl) hs.state
    hs.filler hs.start hs.unchecked hclosed hsemi hnoslash
  have hline : ∀ c ∈ lastLine s₁.buf, isSpace c = true := by
    intro d hd
    have hlast : s₁.buf = s.buf ++ joinLines body ++ ['\n'] ++ w := by rw [e3]; simp
    rw [hlast, lastLine_append (.inr ⟨_, rfl⟩)] at hd
    exact hw d ((rtakeWhile_suffix _ _).subset hd)
  obtain ⟨s₂, d1, d2, d3, d4, d5⟩ := scanFrom_slash e2 hline ht (behind_head rest)
  rw [behind_drop] at d1
  have hrun : scanFrom s 0 0 (joinLines (body ++ [close]) ++ behind rest) =
      scanFrom s₂ 0 0 (joinLines rest) := by
    rw [joinLines_concat hne, hclose, ← d1, ← e1]
    simp
  have hspaces : ∀ c ∈ '\n' :: w, isSpace c = true := by
    intro d hd
    rcases mem_cons.mp hd with rfl | hd
    · decide
    · exact hw d hd
  -- the block starts with code
  have hcode : isCommentsOnly s₁.buf = false := by
    have hfirst' : trimStart first ≠ [] := by
      intro h
      rw [h] at hfirst
      cases hfirst
    obtain ⟨x, hx⟩ : ∃ x, joinLines body = first ++ x := by
      rw [hbody]
      exact ⟨behind more, by simpa [joinLines] using joinLines_append (a := [first]) (by simp) more⟩
    have hstart : ∃ y, trimStart (joinLines body) = c :: y := by
      rw [hx, trimStart_append hfirst']
      cases hf : trimStart first with
      | nil => exact absurd hf hfirst'
      | cons d y =>
        rw [hf] at hfirst
        have : d = c := by simpa using hfirst
        exact ⟨y ++ x, by rw [this]; rfl⟩
    obtain ⟨y, hy⟩ := hstart
    have hbodycode : isCommentsOnly (joinLines body) = false := by
      rw [isCommentsOnly, strip_eq, hy, if_neg, if_neg]
      · rfl
      · intro h
        obtain ⟨r, hr⟩ := startsWith_iff.mp h
        exact hc2 (List.cons.inj hr).1
      · intro h
        obtain ⟨r, hr⟩ := startsWith_iff.mp h
        exact hc1 (List.cons.inj hr).1
    rw [e3, isCommentsOnly_filler_append hs.filler, isCommentsOnly_append_spaces hspaces, hbodycode]
  have hout : s₂.statements = out ++ [trim s₁.buf] := by
    rw [d5, Scan.flush_of_code hcode, e4, hs.out]
  have hsame : Same (joinLines body) (trim s₁.buf) := by
    refine same_trim ?_
    rw [Same, e3, normal_filler hs.filler.isFiller, normal_append_spaces _ hspaces]
  exact .of_run hrun (.cons hsame (ih _ s₂ ⟨d2, d3 ▸ .nil, d3 ▸ .inl rfl, d4, hout⟩))

/-! ## 5. The session -/

/-- Chunks without lines are no chunks. -/
theorem texts_of_no_lines {cs : List Chunk} (h : cs.flatMap Chunk.lines = []) :
    cs.flatMap Chunk.texts = [] := by
  cases cs with
  | nil => rfl
  | cons c cs =>
    rw [flatMap_cons] at h
    exact absurd (append_eq_nil_iff.mp h).1 c.lines_ne_nil

/-- **Clean chunks are read as the same statements**, between two statements and behind a CREATE
    unit that is still to be closed. -/
theorem yields_chunks {cs : List Chunk} (hclean : Clean cs) (hreads : ∀ c ∈ cs, c.Reads)
    (hnl : ∀ c ∈ cs, ∀ l ∈ c.lines, '\n' ∉ l) :
    (∀ out s, AtLine s out →
      Yields s (joinLines (cs.flatMap Chunk.lines)) out (cs.flatMap Chunk.texts)) ∧
    (UnitCloses cs → ∀ out s e, InUnit s out e →
      Yields s (joinLines (cs.flatMap Chunk.lines)) out (e :: cs.flatMap Chunk.texts)) := by
  induction cs with
  | nil =>
    constructor
    · intro out s hs
      refine ⟨[], ?_, .nil⟩
      show s.finish = _
      rw [Scan.finish_closed (.inl hs.state),
        Scan.flush_of_comments (isCommentsOnly_filler hs.filler), hs.out, append_nil]
    · intro _ out s e hs
      refine ⟨[trim s.buf], ?_, .cons (same_trim hs.same) .nil⟩
      show s.finish = _
      rw [Scan.finish_closed (.inl hs.state), Scan.flush_of_code hs.code, hs.out]
  | cons c cs ih =>
    have hreads' : ∀ c ∈ cs, c.Reads := fun d hd => hreads d (mem_cons_of_mem _ hd)
    have hnl' : ∀ c ∈ cs, ∀ l ∈ c.lines, '\n' ∉ l := fun d hd => hnl d (mem_cons_of_mem _ hd)
    have hread := hreads c mem_cons_self
    have hline := hnl c mem_cons_self
    rw [flatMap_cons, flatMap_cons, joinLines_append c.lines_ne_nil]
    cases c with
    | blank line =>
      obtain ⟨ih1, ih2⟩ := ih hclean hreads' hnl'
      have hsp := spaces_of_trim hread
      have hj : joinLines (Chunk.blank line).lines = line := by simp [joinLines, Chunk.lines]
      rw [hj]
      constructor
      · intro out s hs
        obtain ⟨s', e1, e2, e3, e4, e5, e6⟩ := scanFrom_spaces hs.state hs.settled hsp
          (behind (cs.flatMap Chunk.lines))
        have hfill : Filler s'.buf := e3 ▸ hs.filler.append (filler_spaces hsp)
        exact .of_run e1 (yields_lineEnd (.inl e2) (hfill.append filler_newline)
          (isCommentsOnly_filler hfill) (e6.trans hs.unchecked) (e4.trans hs.out)
          texts_of_no_lines (fun s'' h => ih1 out s'' h))
      · intro hu out s e hs
        obtain ⟨s', e1, e2, e3, e4, e5, e6⟩ := scanFrom_spaces hs.state hs.settled hsp
          (behind (cs.flatMap Chunk.lines))
        refine .of_run e1 (yields_unitEnd (.inl e2) e5 (e6.trans hs.checked) (e4.trans hs.out) ?_ ?_
          texts_of_no_lines (fun s'' h => ih2 hu out s'' e h))
        · rw [e3, isCommentsOnly_append_spaces hsp, hs.code]
        · rw [e3]
          exact hs.same.trans (normal_append_spaces _ hsp).symm
    | slash line =>
      obtain ⟨⟨w, t, rfl, hw, ht⟩, hclean'⟩ := hclean
      obtain ⟨ih1, -⟩ := ih hclean' hreads' hnl'
      have hj : joinLines (Chunk.slash (w ++ '/' :: t)).lines = w ++ '/' :: t := by
        simp [joinLines, Chunk.lines]
      rw [hj]
      constructor
      · intro out s hs
        refine yields_slash hs.state hs.start hs.settled hw ht fun s' hs' => ih1 out s' ?_
        rwa [if_pos (isCommentsOnly_filler hs.filler), hs.out] at hs'
      · intro _ out s e hs
        have hsame : Same e (trim (s.buf ++ w)) :=
          same_trim (hs.same.trans (normal_append_spaces _ hw).symm)
        refine Yields.cons hsame (yields_slash hs.state hs.start hs.settled hw ht
          fun s' hs' => ih1 _ s' ?_)
        rwa [if_neg (by simp [hs.code]), hs.out] at hs'
    | sql before last =>
      obtain ⟨⟨a, r, he, ha⟩, hclean'⟩ := hclean
      obtain ⟨ih1, ih2⟩ := ih hclean' hreads' hnl'
      constructor
      · intro out s hs
        rcases ha with ha | ⟨ha, hu⟩
        · exact yields_plain hs he ha texts_of_no_lines ih1
        · exact yields_unit hs he ha texts_of_no_lines fun s' h => ih2 hu out s' _ h
      · exact fun hu => absurd hu (by simp [UnitCloses])
    | plsql body close =>
      obtain ⟨hb, hclean'⟩ := hclean
      obtain ⟨ih1, -⟩ := ih hclean' hreads' hnl'
      constructor
      · intro out s hs
        exact yields_block hs hb hread hline ih1
      · exact fun hu => absurd hu (by simp [UnitCloses])

/-- A query, a block and its slash, and a CREATE unit on one line and its slash. -/
def session : List Text :=
  ["SELECT 1; -- one".toList, "BEGIN".toList, "  NULL; END;".toList, "/".toList, [],
   "CREATE TYPE t AS OBJECT (a INT);".toList, "/".toList]

theorem session_query :
    EndsAlone (joinLines ["SELECT 1; -- one".toList]) "SELECT 1".toList
      [' ', '-', '-', ' ', 'o', 'n', 'e'] where
  split := by decide
  trailer := .space (by decide) (.open_ (by decide))
  oneLine := by decide
  closed := by decide
  noSlash := by decide
  terminator := by decide
  comment := .inl (by decide)
  code := by decide

theorem session_unit : EndsAlone (joinLines ["CREATE TYPE t AS OBJECT (a INT);".toList])
    "CREATE TYPE t AS OBJECT (a INT)".toList [] where
  split := by decide
  trailer := .nil
  oneLine := by decide
  closed := by decide
  noSlash := by decide
  terminator := by decide
  comment := .inl (by decide)
  code := by decide

theorem session_block : IsBlock ["BEGIN".toList, "  NULL; END;".toList] ['/'] :=
  ⟨[], [], rfl, by simp, by simp, by decide, by decide⟩

theorem session_clean : Clean (CommandParser.fresh.chunks session) := by
  have hchunks : CommandParser.fresh.chunks session =
      [.sql [] "SELECT 1; -- one".toList, .plsql ["BEGIN".toList, "  NULL; END;".toList] ['/'],
       .blank [], .sql [] "CREATE TYPE t AS OBJECT (a INT);".toList, .slash ['/']] := by
    decide
  have hplain : IsPlain "SELECT 1".toList := ⟨by decide, by decide⟩
  have hunit : IsUnit "CREATE TYPE t AS OBJECT (a INT)".toList :=
    ⟨by decide, by decide⟩
  have hslash : IsSlashLine ['/'] := ⟨[], [], rfl, by simp, by simp⟩
  rw [hchunks]
  exact ⟨⟨_, _, session_query, .inl hplain⟩, session_block,
    ⟨_, _, session_unit, .inr ⟨hunit, trivial⟩⟩, hslash, trivial⟩

end Veesker.Command
