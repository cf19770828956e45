/-
  File:      Veesker/Command/Session.lean
  Subject:   A COMMAND-MODE SESSION, CUT WHERE THE PARSER CUTS IT.

  * `Chunk` -- the lines of one statement, or a line between two; `chunks` -- a session's chunks,
    read off the parser's states line by line;
  * `feed_cases` -- what one line can do, where no directive and no comment stands at a statement's
    start;
  * `chunks_spec` -- **the lines of a session are the lines of its chunks, and the texts of its
    events are the texts of its chunks**;
  * `normal_emitText` -- the text of a `sql` event is its statement up to the terminator, comments
    and white space aside.
-/
import Veesker.Command.Emission
import Veesker.Lexis.Bare

namespace Veesker.Command

open Veesker.Lexis List

/-! ## 1. Chunks -/

/-- The lines of one statement, or a line between two statements. -/
inductive Chunk where
  | blank (line : Text)
  | slash (line : Text)
  | sql (before : List Text) (last : Text)
  | plsql (body : List Text) (slash : Text)
  deriving DecidableEq

namespace Chunk

def lines : Chunk → List Text
  | .blank line => [line]
  | .slash line => [line]
  | .sql before last => before ++ [last]
  | .plsql body close => body ++ [close]

/-- The text of the chunk's event. -/
def texts : Chunk → List Text
  | .blank _ => []
  | .slash _ => []
  | .sql before last => [CommandParser.emitText (joinLines (before ++ [last]))]
  | .plsql body _ => [joinLines body]

theorem lines_ne_nil (c : Chunk) : c.lines ≠ [] := by cases c <;> simp [lines]

/-- The code of a PL/SQL block's first line. -/
def StartsWithCode (line : Text) : Prop :=
  ∃ c, (trimStart line).head? = some c ∧ c ≠ '-' ∧ c ≠ '/'

/-- What the parser has seen of a chunk's lines. -/
def Reads : Chunk → Prop
  | .blank line => trim line = []
  | .slash line => isOnlySlash line = true
  | .sql _ _ => True
  | .plsql body close => isOnlySlash close = true ∧ (∀ l ∈ body, isOnlySlash l = false) ∧
      ∃ first rest, body = first :: rest ∧ StartsWithCode first

end Chunk

/-- The chunk a line completes. -/
def CommandParser.chunk (p : CommandParser) (line : Text) : List Chunk :=
  match (p.feed line).1 with
  | .sql _ _ => [.sql p.before line]
  | .plsql _ _ => [.plsql p.buffer line]
  | .blank => [if isOnlySlash line then .slash line else .blank line]
  | _ => []

/-- The chunks a session completes. -/
def CommandParser.chunks (p : CommandParser) : List Text → List Chunk
  | [] => []
  | l :: ls => p.chunk l ++ (p.feed l).2.chunks ls

/-- The text of an event that is a statement. -/
def Parsed.statement? : Parsed → Option Text
  | .sql text _ => some text
  | .plsql text _ => some text
  | _ => none

/-- The statements among some events. -/
def statementTexts (events : List Parsed) : List Text := events.filterMap Parsed.statement?

/-! ## 2. One line -/

/-- No directive, `@`, `!`, REM or comment line. -/
def IsStatementLine (line : Text) : Prop :=
  isCommentStart (trim line) = false ∧ startsWith (trim line) "@".toList = false ∧
    startsWith (trim line) "!".toList = false ∧
    parseDirective (trim line) (firstWord (trim line)) line = none

instance (line : Text) : Decidable (IsStatementLine line) := inferInstanceAs (Decidable (_ ∧ _))

namespace CommandParser

/-- The lines of the statement under way. -/
def held (p : CommandParser) : List Text := if p.mode = .idle then [] else p.buffer

/-- Where a parser can be: a PL/SQL block under way starts with code and holds no slash line. -/
def Held (p : CommandParser) : Prop :=
  p.mode = .plsql → (∀ l ∈ p.buffer, isOnlySlash l = false) ∧
    ∃ first rest, p.buffer = first :: rest ∧ Chunk.StartsWithCode first

theorem held_fresh : fresh.Held := fun h => by cases h

/-- A line whose first word opens a block starts with that word. -/
theorem startsWithCode_of_opener {line : Text}
    (h : plsqlOpeners.contains (toUpperCase (firstWord (trim line))) = true) :
    Chunk.StartsWithCode line := by
  have hup : toUpperCase (firstWord (trim line)) = "BEGIN".toList ∨
      toUpperCase (firstWord (trim line)) = "DECLARE".toList := by
    simpa [plsqlOpeners] using h
  obtain ⟨w, hw, -⟩ := rdropWhile_split isSpace (trimStart line)
  have hw' : trimStart line = trim line ++ w := hw
  cases ht : trim line with
  | nil =>
    rw [ht] at hup
    rcases hup with h | h <;> cases h
  | cons c t =>
    rw [ht] at hup hw'
    refine ⟨c, by rw [hw']; rfl, ?_, ?_⟩
    · rintro rfl
      have hc : upperChar '-' = ['-'] := by decide
      rw [firstWord, takeWhile_cons_of_pos (by decide), toUpperCase_cons, hc] at hup
      rcases hup with h | h <;> cases h
    · rintro rfl
      have hc : upperChar '/' = ['/'] := by decide
      rw [firstWord, takeWhile_cons_of_pos (by decide), toUpperCase_cons, hc] at hup
      rcases hup with h | h <;> cases h

/-- What `continueSql` can do. -/
theorem continueSql_cases (p : CommandParser) (line : Text) (hp : p.mode ≠ .plsql) :
    p.continueSql line = (.sql (emitText (joinLines (p.held ++ [line]))) [';'], fresh) ∨
      ∃ t, p.continueSql line = (.incomplete t, ⟨p.held ++ [line], .sql⟩) := by
  have hbefore : (if p.mode = .sql then p.buffer else []) = p.held := by
    unfold held
    cases hm : p.mode with
    | idle => rfl
    | sql => rfl
    | plsql => exact absurd hm hp
  unfold continueSql
  rw [hbefore]
  simp only
  split
  · exact .inl rfl
  · exact .inr ⟨_, rfl⟩

/-- **What one line can do** where no directive and no comment starts a statement. -/
theorem feed_cases {p : CommandParser} {line : Text} (hp : p.Held)
    (h : p.mode = .idle → IsStatementLine line) :
    (p.mode = .idle ∧ p.feed line = (.blank, p) ∧ (trim line = [] ∨ isOnlySlash line = true)) ∨
    (∃ t m, m ≠ .idle ∧ p.feed line = (.incomplete t, ⟨p.held ++ [line], m⟩) ∧
      Held ⟨p.held ++ [line], m⟩) ∨
    (p.mode ≠ .plsql ∧
      p.feed line = (.sql (emitText (joinLines (p.held ++ [line]))) [';'], fresh)) ∨
    (p.mode = .plsql ∧ isOnlySlash line = true ∧
      p.feed line = (.plsql (joinLines p.buffer) ['/'], fresh)) := by
  have hsql : p.mode ≠ .plsql → p.feed line = p.continueSql line →
      (∃ t m, m ≠ .idle ∧ p.feed line = (.incomplete t, ⟨p.held ++ [line], m⟩) ∧
        Held ⟨p.held ++ [line], m⟩) ∨
      (p.mode ≠ .plsql ∧
        p.feed line = (.sql (emitText (joinLines (p.held ++ [line]))) [';'], fresh)) := by
    intro hm e
    rcases p.continueSql_cases line hm with h | ⟨t, h⟩
    · exact .inr ⟨hm, e.trans h⟩
    · exact .inl ⟨t, .sql, by simp, e.trans h, fun hc => by cases hc⟩
  cases hm : p.mode with
  | plsql =>
    have hheld : p.held = p.buffer := by simp [held, hm]
    by_cases hs : isOnlySlash line = true
    · refine .inr (.inr (.inr ⟨rfl, hs, ?_⟩))
      simp [feed, hm, hs]
    · refine .inr (.inl ⟨_, .plsql, by simp, by simp [feed, hm, hs, hheld]; rfl, fun _ => ?_⟩)
      obtain ⟨h1, first, rest, h2, h3⟩ := hp hm
      rw [hheld]
      refine ⟨fun l hl => ?_, first, rest ++ [line], by simp [h2], h3⟩
      rcases mem_append.mp hl with hl | hl
      · exact h1 l hl
      · rw [mem_singleton.mp hl]
        simpa using hs
  | sql =>
    have hheld : p.held = p.buffer := by simp [held, hm]
    by_cases hb : trim line = []
    · exact .inr (.inl ⟨_, .sql, by simp, by simp [feed, hm, hb, hheld]; rfl,
        fun hc => by cases hc⟩)
    · have e : p.feed line = p.continueSql line := by simp [feed, hm, hb]
      rcases hsql (by simp [hm]) e with h | h
      · exact .inr (.inl h)
      · exact .inr (.inr (.inl (by rw [hm] at h; exact h)))
  | idle =>
    have hheld : p.held = [] := by simp [held, hm]
    obtain ⟨h1, h2, h3, h4⟩ := h hm
    by_cases hb : trim line = []
    · exact .inl ⟨rfl, by simp [feed, hm, hb], .inl hb⟩
    · have h2' : startsWith (trim line) "@@".toList = false := by
        by_contra hat
        obtain ⟨r, hr⟩ := startsWith_iff.mp (by simpa using hat)
        have : startsWith (trim line) "@".toList = true := startsWith_iff.mpr ⟨'@' :: r, hr⟩
        rw [h2] at this
        cases this
      have hfeed : p.feed line = p.feedIdle line := by simp [feed, hm, hb]
      by_cases hs : isOnlySlash line = true
      · exact .inl ⟨rfl, by simp [hfeed, feedIdle, hs], .inr hs⟩
      · by_cases ho : plsqlOpeners.contains (toUpperCase (firstWord (trim line))) = true
        · refine .inr (.inl ⟨joinLines [line], .plsql, by simp, ?_, fun _ => ?_⟩)
          · rw [hfeed, hheld]
            simp only [feedIdle, hs, h1, h2, h2', h3, h4, ho, Bool.false_eq_true, if_false,
              if_true, nil_append]
          · rw [hheld]
            exact ⟨by simpa using hs, line, [], rfl, startsWithCode_of_opener ho⟩
        · have e : p.feed line = p.continueSql line := by
            rw [hfeed]
            simp only [feedIdle, hs, h1, h2, h2', h3, h4, ho, Bool.false_eq_true, if_false]
          rcases hsql (by simp [hm]) e with h | h
          · exact .inr (.inl h)
          · exact .inr (.inr (.inl (by rw [hm] at h; exact h)))

/-! ## 3. The session -/

/-- No directive, `@`, `!`, REM or comment line stands where a new statement starts. -/
def OnlyStatements : CommandParser → List Text → Prop
  | _, [] => True
  | p, l :: ls => (p.mode = .idle → IsStatementLine l) ∧ OnlyStatements (p.feed l).2 ls

instance decidableOnlyStatements : ∀ (p : CommandParser) (ls : List Text),
    Decidable (OnlyStatements p ls)
  | _, [] => .isTrue trivial
  | p, l :: ls =>
    have := decidableOnlyStatements (p.feed l).2 ls
    inferInstanceAs (Decidable ((p.mode = .idle → IsStatementLine l) ∧ _))

theorem feedLines_cons (p : CommandParser) (l : Text) (ls : List Text) :
    p.feedLines (l :: ls) = (p.feed l).2.feedLines ls := rfl

/-- **The chunks of a session are its lines and its events.** -/
theorem chunks_spec (lines : List Text) {p : CommandParser} (hp : p.Held)
    (hs : p.OnlyStatements lines) (hend : (p.feedLines lines).mode = .idle) :
    (∀ c ∈ p.chunks lines, c.Reads) ∧
      p.held ++ lines = (p.chunks lines).flatMap Chunk.lines ∧
      statementTexts (p.events lines) = (p.chunks lines).flatMap Chunk.texts := by
  induction lines generalizing p with
  | nil =>
    have hm : p.mode = .idle := hend
    exact ⟨by simp [chunks], by simp [chunks, held, hm], rfl⟩
  | cons l ls ih =>
    obtain ⟨hl, hrest⟩ := hs
    rw [feedLines_cons] at hend
    rcases feed_cases hp hl with ⟨hm, e, hb⟩ | ⟨t, m, hm, e, hh⟩ | ⟨hm, e⟩ | ⟨hm, hsl, e⟩
    · -- a line between two statements
      rw [e] at hrest hend
      obtain ⟨h1, h2, h3⟩ := ih hp hrest hend
      have hheld : p.held = [] := by simp [held, hm]
      rw [hheld, nil_append] at h2
      have hch : p.chunk l = [if isOnlySlash l then .slash l else .blank l] := by
        rw [chunk, e]
      have hline : (if isOnlySlash l then Chunk.slash l else .blank l).lines = [l] := by
        split <;> rfl
      have htext : (if isOnlySlash l then Chunk.slash l else .blank l).texts = [] := by
        split <;> rfl
      have hreads : (if isOnlySlash l then Chunk.slash l else .blank l).Reads := by
        split
        · rename_i h
          exact h
        · rename_i h
          exact hb.resolve_right h
      refine ⟨?_, ?_, ?_⟩
      · simp only [chunks, hch, e, singleton_append, mem_cons]
        rintro c (rfl | hc)
        · exact hreads
        · exact h1 c hc
      · rw [hheld, chunks, hch, e, nil_append, singleton_append, flatMap_cons,
          hline, ← h2]
        rfl
      · rw [chunks, hch, e, singleton_append, flatMap_cons, htext, nil_append, ← h3,
          events, e]
        rfl
    · -- a line of a statement that goes on
      rw [e] at hrest hend
      obtain ⟨h1, h2, h3⟩ := ih hh hrest hend
      have hheld : held ⟨p.held ++ [l], m⟩ = p.held ++ [l] := by simp [held, hm]
      rw [hheld] at h2
      have hch : p.chunk l = [] := by rw [chunk, e]
      refine ⟨?_, ?_, ?_⟩
      · rw [chunks, hch, e]
        exact h1
      · rw [chunks, hch, e, nil_append, ← h2]
        simp
      · rw [chunks, hch, e, nil_append, ← h3, events, e]
        rfl
    · -- the last line of a SQL statement
      rw [e] at hrest hend
      obtain ⟨h1, h2, h3⟩ := ih held_fresh hrest hend
      have hbefore : p.before = p.held := by
        unfold before held
        cases hc : p.mode with
        | idle => rfl
        | sql => rfl
        | plsql => exact absurd hc hm
      have hch : p.chunk l = [.sql p.held l] := by rw [chunk, e, hbefore]
      refine ⟨?_, ?_, ?_⟩
      · simp only [chunks, hch, e, singleton_append, mem_cons]
        rintro c (rfl | hc)
        · exact trivial
        · exact h1 c hc
      · rw [chunks, hch, e, singleton_append, flatMap_cons, ← h2]
        simp [Chunk.lines, held, fresh]
      · rw [chunks, hch, e, singleton_append, flatMap_cons, ← h3, events, e]
        rfl
    · -- the slash behind a PL/SQL block
      rw [e] at hrest hend
      obtain ⟨h1, h2, h3⟩ := ih held_fresh hrest hend
      have hheld : p.held = p.buffer := by simp [held, hm]
      have hch : p.chunk l = [.plsql p.buffer l] := by rw [chunk, e]
      refine ⟨?_, ?_, ?_⟩
      · simp only [chunks, hch, e, singleton_append, mem_cons]
        rintro c (rfl | hc)
        · exact ⟨hsl, hp hm⟩
        · exact h1 c hc
      · rw [hheld, chunks, hch, e, singleton_append, flatMap_cons, ← h2]
        simp [Chunk.lines, held, fresh]
      · rw [chunks, hch, e, singleton_append, flatMap_cons, ← h3, events, e]
        rfl

end CommandParser

/-! ## 4. The text of a `sql` event -/

/-- The scan stops nowhere but in plain code. -/
theorem stripInlineFrom_nil {st : InlineScan} {skip : Nat} {c : Char} {cs : Text}
    (h : stripInlineFrom st skip (c :: cs) = []) :
    st = .code ∧ skip = 0 ∧ c = '-' ∧ cs.head? = some '-' := by
  generalize hs : c :: cs = s at h
  fun_induction stripInlineFrom st skip s with
  | case11 c' cs' _ _ _ hdash =>
    cases hs
    exact ⟨rfl, rfl, hdash⟩
  | case1 => cases hs
  | _ => cases h

/-- Where the scan stops it stands before a `--`, and behind no minus sign. -/
theorem stripInlineFrom_stop {st : InlineScan} {skip : Nat} {s r : Text}
    (h : s = stripInlineFrom st skip s ++ r) (hr : r ≠ [])
    (hskip : st = .code → 0 < skip → skip = 1 ∧ s.head? = some '\'') :
    (∃ r', r = '-' :: '-' :: r') ∧ endsWith (stripInlineFrom st skip s) ['-'] = false := by
  -- a character in front of the kept rest ends the kept text only where that rest is empty
  have hkeep : ∀ (c : Char) (st' : InlineScan) (skip' : Nat) (cs : Text),
      c :: cs = c :: stripInlineFrom st' skip' cs ++ r →
      (cs = stripInlineFrom st' skip' cs ++ r → (∃ r', r = '-' :: '-' :: r') ∧
        endsWith (stripInlineFrom st' skip' cs) ['-'] = false) →
      (st' = .code → skip' = 0 → cs.head? = some '-' → c ≠ '-') →
      (∃ r', r = '-' :: '-' :: r') ∧
        endsWith (c :: stripInlineFrom st' skip' cs) ['-'] = false := by
    intro c st' skip' cs hc ih hne
    have hcs := (List.cons.inj hc).2
    obtain ⟨⟨r', hr'⟩, hk⟩ := ih hcs
    refine ⟨⟨r', hr'⟩, ?_⟩
    by_contra hcon
    obtain ⟨u, hu⟩ := endsWith_iff.mp (by simpa using hcon)
    cases u with
    | cons d u =>
      have : endsWith (stripInlineFrom st' skip' cs) ['-'] = true :=
        endsWith_iff.mpr ⟨u, (List.cons.inj hu).2⟩
      rw [hk] at this
      cases this
    | nil =>
      obtain ⟨hcd, hnil⟩ := List.cons.inj hu
      have hcs' : cs = '-' :: '-' :: r' := by
        rw [← hr', hcs]
        simp [hnil]
      rw [hcs'] at hnil
      obtain ⟨h1, h2, -, -⟩ := stripInlineFrom_nil hnil
      exact hne h1 h2 (by rw [hcs']; rfl) hcd
  fun_induction stripInlineFrom st skip s with
  | case1 st skip => exact absurd h.symm hr
  | case2 st skip c cs ih =>
    refine hkeep c st skip cs h (fun h' => ih h' fun h1 h2 => ?_) fun h1 h2 _ hc => ?_
    · have := (hskip h1 (Nat.succ_pos _)).1
      omega
    · have := (hskip h1 (Nat.succ_pos _)).2
      rw [hc] at this
      cases this
  | case3 c cs hq ih => exact hkeep c _ _ cs h (fun h' => ih h' (by rintro ⟨⟩)) (by rintro ⟨⟩)
  | case4 c cs hq ih =>
    refine hkeep c _ _ cs h (fun h' => ih h' fun _ h2 => absurd h2 (by decide)) fun h1 _ _ hc => ?_
    rw [hc] at h1
    exact absurd h1 (by decide)
  | case5 c cs ih =>
    refine hkeep c _ _ cs h (fun h' => ih h' fun _ h2 => absurd h2 (by decide)) fun h1 _ _ hc => ?_
    rw [hc] at h1
    exact absurd h1 (by decide)
  | case6 qCloser c cs hq ih =>
    exact hkeep c _ _ cs h (fun h' => ih h' fun _ _ => ⟨rfl, hq.2⟩) fun _ h2 => absurd h2 (by decide)
  | case7 qCloser c cs hq ih =>
    exact hkeep c _ _ cs h (fun h' => ih h' (by rintro ⟨⟩)) (by rintro ⟨⟩)
  | case8 c cs delim hq ih =>
    exact hkeep c _ _ cs h (fun h' => ih h' (by rintro ⟨⟩)) (by rintro ⟨⟩)
  | case9 cs hq ih => exact hkeep _ _ _ cs h (fun h' => ih h' (by rintro ⟨⟩)) (by rintro ⟨⟩)
  | case10 cs hq hd ih =>
    exact hkeep _ _ _ cs h (fun h' => ih h' (by rintro ⟨⟩)) (by rintro ⟨⟩)
  | case11 c cs _ _ _ hdash =>
    refine ⟨?_, rfl⟩
    obtain ⟨d, ds, rfl⟩ : ∃ d ds, cs = d :: ds := by
      cases cs with
      | nil => exact absurd hdash.2 (by simp)
      | cons d ds => exact ⟨d, ds, rfl⟩
    have hd : d = '-' := by simpa using hdash.2
    refine ⟨ds, ?_⟩
    rw [hdash.1, hd] at h
    exact h.symm
  | case12 c cs _ _ _ hno ih =>
    exact hkeep c _ _ cs h (fun h' => ih h' fun _ h2 => absurd h2 (by decide))
      fun _ _ h3 hc => hno ⟨hc, h3⟩

/-- **The text of a `sql` event is its statement up to the terminator**, comments and white space
    aside. -/
theorem normal_emitText {joined a r : Text} (hj : joined = a ++ ';' :: r)
    (hmode : modeFrom .plain (a ++ [';']) = .plain) (hr : Trailer r) (hc : CommentIsLast joined) :
    normal (CommandParser.emitText joined) = normal a := by
  obtain ⟨t, q, hkept, hall, hcase⟩ := emitText_split joined
  have hall' : joined = CommandParser.emitText joined ++ (t ++ q) := by
    rw [← append_assoc]
    exact hall
  have hends : EndsBefore (CommandParser.emitText joined) (t ++ q) := by
    intro c hcq
    cases t with
    | cons d t =>
      have hd : d = c := by simpa using hcq
      subst hd
      rcases hcase with ⟨hsp, -⟩ | ⟨w, hw, -⟩
      · exact .inl (hsp d mem_cons_self)
      · exact .inr (.inl (List.cons.inj hw).1)
    | nil =>
      have hq : q ≠ [] := by
        rintro rfl
        cases hcq
      rw [append_nil] at hkept hall
      have hstrip : joined = stripInlineFrom .code 0 joined ++ q := by
        rw [show stripInlineFrom .code 0 joined = CommandParser.emitText joined from hkept]
        exact hall
      obtain ⟨⟨q', rfl⟩, hno⟩ := stripInlineFrom_stop hstrip hq fun _ h => absurd h (by decide)
      rw [show stripInlineFrom .code 0 joined = CommandParser.emitText joined from hkept] at hno
      have hcd : '-' = c := by simpa using hcq
      exact .inr (.inr ⟨hcd.symm, hno⟩)
  obtain ⟨r₁, hr₁⟩ := annot_cut hends
  rw [← hall'] at hr₁
  have hr₂ : annot joined = annot a ++ annot (';' :: r) := by
    rw [hj]
    exact annot_apart (endsBefore_semicolon a r) (not_open_of_semicolon hmode)
  have hsemi : annot (';' :: r) = (';', .symbol) :: annot r := by
    have hf : Mode.step .plain ';' = (.plain, [⟨.symbol, [';']⟩]) := by decide
    have h1 : annot (';' :: r) = annotTokens (lexFrom .plain (';' :: r)) := rfl
    rw [h1, lexFrom_cons, hf]
    rfl
  -- the code behind the event's text is the terminator alone
  have hcode := ((keepsCode_iff joined).mpr hc).2
  have hdrop : codeFrom joined (CommandParser.emitText joined).length =
      (r₁.filter isCode).map Prod.fst := by
    rw [codeFrom, hr₁, drop_left' (length_annot _)]
  rw [hdrop] at hcode
  rcases append_eq_append_iff.mp (hr₁.symm.trans hr₂) with ⟨y, hy, hy'⟩ | ⟨y, hy, hy'⟩
  · -- the event's text stops before the terminator
    rw [hy', hsemi, filter_append, map_append,
      filter_cons_of_pos (show isCode (';', .symbol) = true by decide), map_cons] at hcode
    have hnil : y.filter isCode = [] := by
      rcases mem_cons.mp hcode with h | h
      · simp at h
      · have h' := congrArg List.length (mem_singleton.mp h)
        simp only [length_append, length_map, length_cons, length_nil] at h'
        exact length_eq_zero_iff.mp (by omega)
    refine (normal_of_append_bare (w := (y.filter isKept).map Prod.fst) (fun c hcy => ?_) ?_).symm
    · obtain ⟨x, hx, rfl⟩ := mem_map.mp hcy
      obtain ⟨hx1, hx2⟩ := mem_filter.mp hx
      have hno := filter_eq_nil_iff.mp hnil x hx1
      refine isEnding_of_isSpace ?_
      simp only [isKept] at hx2
      simpa [isCode, hx2] using hno
    · rw [bare, hy, filter_append, map_append]
      rfl
  · -- the event's text goes on behind it: nothing but endings
    refine normal_of_append_bare (w := (y.filter isKept).map Prod.fst) (fun c hcy => ?_) ?_
    · refine (Trailer.semicolon hr).bare_endings c ?_
      rw [bare, hy', filter_append, map_append]
      exact mem_append_left _ hcy
    · rw [bare, hy, filter_append, map_append]
      rfl

end Veesker.Command
