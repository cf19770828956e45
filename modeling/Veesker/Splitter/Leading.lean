/-
  File:      Veesker/Splitter/Leading.lean
  Subject:   THE SPLITTER'S TWO READINGS OF LEADING COMMENTS (sidecar/src/sql-splitter.ts
             `stripLeadingComments` and the lexer of `splitSql`).

  Where a semicolon is asked about, the lexer has read the buffer: comments, white space, and from
  somewhere on code. `stripLeadingComments` reads the same buffer again, and looks for the end of a
  block comment from its first character on, so that it takes `/*/` for a whole one.

  * `asks` -- the buffers that are asked about, with what the lexer has made of each;
  * **`leading_agrees_iff`** -- the second reading is the first, comment for comment, if and only if no
    leading block comment begins with `/*/`;
  * `comment_taken_for_code` -- without it: a comment that makes a query look like a block.
-/
import Veesker.Splitter.Faithful

namespace Veesker.Splitter

open List

/-! ## 1. What the lexer makes of the buffer -/

/-- The comments in front of the first code, and the buffer from there on. -/
structure Leading where
  comments : List Text := []
  code : Text := []
  deriving DecidableEq

namespace Leading

/-- The character goes on with the last comment. -/
def extend (r : Leading) (c : Char) : Leading :=
  { r with comments := r.comments.dropLast ++ [(r.comments.getLast?.getD []) ++ [c]] }

/-- A character that was taken along. -/
def keep (r : Leading) (c : Char) : Leading :=
  if r.code ≠ [] then { r with code := r.code ++ [c] } else r.extend c

def isComment : ScanState → Bool
  | .inLineComment => true
  | .inBlockComment => true
  | _ => false

/-- A character that the lexer came to in a state, the state behind it, and whether it is plain
    code. -/
def read (r : Leading) (before after : ScanState) (plain : Bool) (c : Char) : Leading :=
  if r.code ≠ [] then { r with code := r.code ++ [c] }
  else if isComment before then r.extend c
  else if isComment after then { r with comments := r.comments ++ [[c]] }
  else if plain && isSpace c then r
  else { r with code := [c] }

end Leading

/-- The scan with what its lexer makes of the buffer: the buffers that `detectPlsqlStart` is asked
    about. -/
def asksFrom : Scan → Leading → Nat → Nat → Text → List (Text × Leading)
  | _, _, _, _, [] => []
  | s, r, keep + 1, drop, c :: cs => asksFrom (s.push c) (r.keep c) keep drop cs
  | s, r, 0, drop + 1, _ :: cs => asksFrom s r 0 drop cs
  | s, r, 0, 0, c :: cs =>
    let s := if c = '\n' then { s with line := s.line + 1 } else s
    let lexed := lexStep s.state c cs
    let step := s.step c cs
    -- the buffer is empty behind a statement's end only
    let r' := if step.1.buf = [] then {} else r.read s.state lexed.1 lexed.2.2 c
    (if lexed.2.2 ∧ c = ';' ∧ s.plsqlChecked = false then [(s.buf, r)] else []) ++
      asksFrom step.1 r' step.2.1 step.2.2 cs

def asks (input : Text) : List (Text × Leading) := asksFrom {} {} 0 0 input

/-! ## 2. What the second reading makes of it -/

/-- The comments that `stripLoop` skips. -/
def skipLoop : Nat → Text → List Text
  | 0, _ => []
  | n + 1, t =>
    if startsWith t "--".toList then
      match sliceAfter ['\n'] t with
      | some r => t.take (t.length - r.length) :: skipLoop n (trimStart r)
      | none => [t]
    else if startsWith t "/*".toList then
      match sliceAfter "*/".toList t with
      | some r => t.take (t.length - r.length) :: skipLoop n (trimStart r)
      | none => [t]
    else []

def skipped (s : Text) : List Text := skipLoop (trimStart s).length (trimStart s)

/-- `stripLeadingComments` skips the comments of the lexer, and stops at its code. -/
def Agrees (ask : Text × Leading) : Prop :=
  skipped ask.1 = ask.2.comments ∧ stripLeadingComments ask.1 = ask.2.code

instance (ask : Text × Leading) : Decidable (Agrees ask) := inferInstanceAs (Decidable (_ ∧ _))

/-- No comment of the lexer's begins with `/*/`. -/
def Plain (ask : Text × Leading) : Prop :=
  ∀ comment ∈ ask.2.comments, startsWith comment "/*/".toList = false

/-! ## 3. Comments and gaps -/

variable {c : Char}

section Gaps

/-- A whole comment, as the lexer reads it. -/
inductive Comment : Text → Prop where
  | line {w : Text} (hw : '\n' ∉ w) : Comment ('-' :: '-' :: (w ++ ['\n']))
  | block {w : Text} (hw : sliceAfter ['*', '/'] w = none) :
      Comment ('/' :: '*' :: (w ++ ['*', '/']))

/-- White space and comments, with the comments. -/
inductive Gap : List Text → Text → Prop where
  | nil : Gap [] []
  | space {c : Char} {ks : List Text} {g : Text} (hc : isSpace c = true) (h : Gap ks g) :
      Gap ks (c :: g)
  | comment {k : Text} {ks : List Text} {g : Text} (hk : Comment k) (h : Gap ks g) :
      Gap (k :: ks) (k ++ g)

theorem Gap.append_space {ks : List Text} {g : Text} (h : Gap ks g)
    (hc : isSpace c = true) : Gap ks (g ++ [c]) := by
  induction h with
  | nil => exact .space hc .nil
  | space hd _ ih => exact .space hd ih
  | comment hk _ ih =>
    rw [append_assoc]
    exact .comment hk ih

theorem Gap.append_comment {ks : List Text} {g : Text} (h : Gap ks g) {k : Text} (hk : Comment k) :
    Gap (ks ++ [k]) (g ++ k) := by
  induction h with
  | nil => simpa using Gap.comment hk .nil
  | space hd _ ih => exact .space hd ih
  | comment hk' _ ih =>
    rw [append_assoc]
    exact .comment hk' ih

theorem startsWith_pair {x y c : Char} {s : Text} :
    startsWith (c :: s) [x, y] = true ↔ c = x ∧ s.head? = some y := by
  rw [startsWith_iff]
  constructor
  · intro h
    obtain ⟨r, hr⟩ := h
    obtain ⟨rfl, rfl⟩ := List.cons.inj hr
    exact ⟨rfl, rfl⟩
  · intro h
    obtain ⟨rfl, hs⟩ := h
    obtain ⟨r, rfl⟩ := List.head?_eq_some_iff.mp hs
    exact ⟨r, rfl⟩

theorem sliceAfter_slash (s : Text) :
    sliceAfter ['*', '/'] ('/' :: s) = sliceAfter ['*', '/'] s := by
  have hno : ¬ startsWith ('/' :: s) ['*', '/'] = true := fun h =>
    absurd (startsWith_pair.mp h).1 (by decide)
  rw [sliceAfter, if_neg hno]

theorem sliceAfter_end (s : Text) : sliceAfter ['*', '/'] ('*' :: '/' :: s) = some s := by
  have h : startsWith ('*' :: '/' :: s) ['*', '/'] = true := startsWith_pair.mpr ⟨rfl, rfl⟩
  rw [sliceAfter, if_pos h]
  rfl

/-- The end of a block comment is found behind a body that has none. -/
theorem sliceAfter_body {w : Text} (hw : sliceAfter ['*', '/'] w = none) (s : Text) :
    sliceAfter ['*', '/'] (w ++ '*' :: '/' :: s) = some s := by
  induction w with
  | nil => exact sliceAfter_end s
  | cons c w ih =>
    rw [sliceAfter] at hw
    split at hw
    · cases hw
    · rename_i hno
      have hno' : ¬ startsWith (c :: (w ++ '*' :: '/' :: s)) ['*', '/'] = true := by
        intro h
        obtain ⟨rfl, hh⟩ := startsWith_pair.mp h
        cases w with
        | nil => simp at hh
        | cons d w => exact hno (startsWith_pair.mpr ⟨rfl, hh⟩)
      rw [cons_append, sliceAfter, if_neg hno']
      exact ih hw

/-- A body goes on with a character that does not end it. -/
theorem sliceAfter_push {w : Text} (hw : sliceAfter ['*', '/'] w = none)
    (hc : ∀ v, w = v ++ ['*'] → c ≠ '/') : sliceAfter ['*', '/'] (w ++ [c]) = none := by
  induction w with
  | nil =>
    have hno : ¬ startsWith [c] ['*', '/'] = true := fun h => nomatch (startsWith_pair.mp h).2
    rw [nil_append, sliceAfter, if_neg hno]
    rfl
  | cons d w ih =>
    rw [sliceAfter] at hw
    split at hw
    · cases hw
    · rename_i hno
      have hno' : ¬ startsWith (d :: (w ++ [c])) ['*', '/'] = true := by
        intro h
        obtain ⟨rfl, hh⟩ := startsWith_pair.mp h
        cases w with
        | nil => exact hc [] rfl (Option.some.inj hh)
        | cons e w => exact hno (startsWith_pair.mpr ⟨rfl, hh⟩)
      rw [cons_append, sliceAfter, if_neg hno']
      exact ih hw fun v hv => hc (d :: v) (by rw [hv]; rfl)

/-- Where code starts: no white space, and no start of a comment. -/
def CodeStart : Text → Prop
  | [] => False
  | c :: cs => isSpace c = false ∧ ¬ (c = '-' ∧ cs.head? = some '-') ∧
      ¬ (c = '/' ∧ cs.head? = some '*')

theorem CodeStart.of_append {s t : Text} (h : CodeStart (s ++ t)) (hs : s ≠ []) : CodeStart s := by
  cases s with
  | nil => exact (hs rfl).elim
  | cons c s =>
    cases s with
    | nil => exact ⟨h.1, by simp, by simp⟩
    | cons d s => exact h

end Gaps

/-! ## 4. The second reading over a gap -/

section Second

theorem skipLoop_nil (n : Nat) : skipLoop n [] = [] := by
  cases n with
  | zero => rfl
  | succ n => rfl

/-- Rounds to spare change nothing. -/
theorem skipLoop_fuel {n m : Nat} {t : Text} (hn : t.length ≤ n) (hm : t.length ≤ m) :
    skipLoop n t = skipLoop m t := by
  induction n generalizing m t with
  | zero =>
    rw [length_eq_zero_iff.mp (Nat.le_zero.mp hn), skipLoop_nil, skipLoop_nil]
  | succ n ih =>
    cases m with
    | zero => rw [length_eq_zero_iff.mp (Nat.le_zero.mp hm), skipLoop_nil, skipLoop_nil]
    | succ m =>
      -- what is behind a comment is shorter than the text
      have hround : ∀ w : Text, w ≠ [] → ∀ r, sliceAfter w t = some r →
          skipLoop n (trimStart r) = skipLoop m (trimStart r) := by
        intro w hw r hr
        have h1 := sliceAfter_length hr hw
        have h2 := trimStart_length r
        exact ih (by omega) (by omega)
      unfold skipLoop
      split
      · cases hr : sliceAfter ['\n'] t with
        | none => rfl
        | some r => exact congrArg _ (hround _ (by simp) r hr)
      · split
        · cases hr : sliceAfter "*/".toList t with
          | none => rfl
          | some r => exact congrArg _ (hround _ (by decide) r hr)
        · rfl

theorem trimStart_of_start (hc : isSpace c = false) (s : Text) :
    trimStart (c :: s) = c :: s := by
  unfold trimStart
  exact dropWhile_cons_of_neg (by simp [hc])

theorem skipped_space (hc : isSpace c = true) (s : Text) :
    skipped (c :: s) = skipped s := by
  unfold skipped
  rw [trimStart_cons_space hc]

/-- **One comment of the second reading**: its mark, and where its end is found. -/
theorem skipped_comment {c d : Char} {s r w : Text} (hc : isSpace c = false)
    (hmark : startsWith (c :: d :: s) "--".toList = true ∧ w = ['\n'] ∨
      startsWith (c :: d :: s) "--".toList = false ∧
        startsWith (c :: d :: s) "/*".toList = true ∧ w = "*/".toList)
    (hr : sliceAfter w (c :: d :: s) = some r) :
    skipped (c :: d :: s) = (c :: d :: s).take ((c :: d :: s).length - r.length) :: skipped r ∧
      stripLeadingComments (c :: d :: s) = stripLeadingComments r := by
  have hw : w ≠ [] := by
    obtain ⟨-, rfl⟩ | ⟨-, -, rfl⟩ := hmark
    · simp
    · decide
  have h1 := sliceAfter_length hr hw
  have h2 := trimStart_length r
  have hfuel : skipLoop (d :: s).length (trimStart r) = skipped r :=
    skipLoop_fuel (by simp only [length_cons] at h1 ⊢; omega) le_rfl
  constructor
  · rw [skipped, trimStart_of_start hc, length_cons, skipLoop]
    obtain ⟨hs, rfl⟩ | ⟨hno, hs, rfl⟩ := hmark
    · rw [if_pos hs, hr]
      exact congrArg _ hfuel
    · rw [if_neg (by rw [hno]; exact Bool.false_ne_true), if_pos hs, hr]
      exact congrArg _ hfuel
  · rw [strip_eq, trimStart_of_start hc]
    obtain ⟨hs, rfl⟩ | ⟨hno, hs, rfl⟩ := hmark
    · rw [if_pos hs, hr]; rfl
    · rw [if_neg (by rw [hno]; exact Bool.false_ne_true), if_pos hs, hr]; rfl

theorem Comment.ne_mark {k : Text} (hk : Comment k) : k ≠ "/*/".toList := by
  intro e
  have hlen := congrArg List.length e
  cases hk with
  | line => cases e
  | block => simp at hlen

theorem startsWith_mark {k : Text} : startsWith k "/*/".toList = true ↔
    ∃ w, k = '/' :: '*' :: '/' :: w :=
  startsWith_iff

/-- The two readings of a whole comment of the lexer's agree if it does not begin with `/*/`. -/
theorem skipped_whole {k : Text} (hk : Comment k) (h : startsWith k "/*/".toList = false)
    (s : Text) : skipped (k ++ s) = k :: skipped s ∧
      stripLeadingComments (k ++ s) = stripLeadingComments s := by
  have htake : ∀ r : Text, (r ++ s).take ((r ++ s).length - s.length) = r := by simp
  cases hk with
  | @line w hw =>
    have e : '-' :: '-' :: (w ++ ['\n']) ++ s = '-' :: '-' :: (w ++ '\n' :: s) := by simp
    have hno : '\n' ∉ '-' :: '-' :: w := by simpa using hw
    have hr : sliceAfter ['\n'] ('-' :: '-' :: (w ++ '\n' :: s)) = some s :=
      sliceAfter_newline (w := '-' :: '-' :: w) hno
    have := skipped_comment (by decide) (.inl ⟨rfl, rfl⟩) hr
    rw [← e, htake] at this
    exact this
  | @block w hw =>
    have e : '/' :: '*' :: (w ++ ['*', '/']) ++ s = '/' :: '*' :: (w ++ '*' :: '/' :: s) := by simp
    have hslash : ¬ startsWith ('*' :: (w ++ '*' :: '/' :: s)) ['*', '/'] = true := by
      intro hs
      have hh := (startsWith_pair.mp hs).2
      cases w with
      | nil => simp at hh
      | cons c w =>
        obtain rfl : c = '/' := Option.some.inj hh
        exact Bool.false_ne_true (h.symm.trans (startsWith_mark.mpr ⟨_, rfl⟩))
    have hr : sliceAfter ['*', '/'] ('/' :: '*' :: (w ++ '*' :: '/' :: s)) = some s := by
      rw [sliceAfter_slash, sliceAfter, if_neg hslash]
      exact sliceAfter_body hw s
    have := skipped_comment (by decide) (.inr ⟨rfl, rfl, rfl⟩) hr
    rw [← e, htake] at this
    exact this

/-- A comment that begins with `/*/` ends there for the second reading. -/
theorem skipped_short {k : Text} (hk : Comment k) (h : startsWith k "/*/".toList = true)
    (s : Text) : ∃ rest, skipped (k ++ s) = "/*/".toList :: rest ∧ k ≠ "/*/".toList := by
  obtain ⟨v, rfl⟩ := startsWith_mark.mp h
  have hr : sliceAfter ['*', '/'] ('/' :: '*' :: ('/' :: v ++ s)) = some (v ++ s) := by
    rw [sliceAfter_slash]
    exact sliceAfter_end _
  have := (skipped_comment (by decide) (.inr ⟨rfl, rfl, rfl⟩) hr).1
  have htake : ('/' :: '*' :: ('/' :: v ++ s)).take
      (('/' :: '*' :: ('/' :: v ++ s)).length - (v ++ s).length) = "/*/".toList := by
    have e : '/' :: '*' :: ('/' :: v ++ s) = "/*/".toList ++ (v ++ s) := rfl
    rw [e, length_append, Nat.add_sub_cancel]
    exact take_left
  rw [htake] at this
  exact ⟨_, this, hk.ne_mark⟩

theorem skipped_code {t : Text} (h : t = [] ∨ CodeStart t) :
    skipped t = [] ∧ stripLeadingComments t = t := by
  cases t with
  | nil => exact ⟨rfl, rfl⟩
  | cons c cs =>
    obtain ⟨hc, hl, hb⟩ : CodeStart (c :: cs) := h.resolve_left (by simp)
    have hno : ∀ d e : Char, ¬ (c = d ∧ cs.head? = some e) → startsWith (c :: cs) [d, e] = false := by
      intro d e hde
      rw [Bool.eq_false_iff]
      intro hs
      obtain ⟨r, hr⟩ := startsWith_iff.mp hs
      obtain ⟨rfl, rfl⟩ := List.cons.inj hr
      exact hde ⟨rfl, rfl⟩
    have h1 : startsWith (c :: cs) "--".toList = false := hno _ _ hl
    have h2 : startsWith (c :: cs) "/*".toList = false := hno _ _ hb
    constructor
    · rw [skipped, trimStart_of_start hc, length_cons, skipLoop, h1, h2]
      rfl
    · rw [strip_eq, trimStart_of_start hc, h1, h2]
      rfl

/-- Over a gap whose comments are plain the second reading is the first. -/
theorem skipped_gap {ks : List Text} {g : Text} (h : Gap ks g)
    (hks : ∀ k ∈ ks, startsWith k "/*/".toList = false) (s : Text) :
    skipped (g ++ s) = ks ++ skipped s ∧
      stripLeadingComments (g ++ s) = stripLeadingComments s := by
  induction h with
  | nil => exact ⟨rfl, rfl⟩
  | space hc _ ih =>
    obtain ⟨h1, h2⟩ := ih hks
    exact ⟨(skipped_space hc _).trans h1, (strip_trimStart (trimStart_cons_space hc _)).trans h2⟩
  | @comment k ks g hk _ ih =>
    obtain ⟨h1, h2⟩ := ih fun k' hk' => hks k' (mem_cons_of_mem _ hk')
    obtain ⟨h3, h4⟩ := skipped_whole hk (hks k mem_cons_self) (g ++ s)
    rw [append_assoc, h3, h4, h1, h2]
    exact ⟨rfl, rfl⟩

/-- Where the second reading finds the comments of a gap, they are plain. -/
theorem plain_of_skipped {ks : List Text} {g : Text} (h : Gap ks g) {s : Text} {rest : List Text}
    (he : skipped (g ++ s) = ks ++ rest) : ∀ k ∈ ks, startsWith k "/*/".toList = false := by
  induction h with
  | nil => simp
  | space hc _ ih => exact ih ((skipped_space hc _).symm.trans he)
  | @comment k ks g hk _ ih =>
    rw [append_assoc] at he
    intro k' hk'
    have hplain : startsWith k "/*/".toList = false := by
      rw [Bool.eq_false_iff]
      intro hs
      obtain ⟨rest', hr, hne⟩ := skipped_short hk hs (g ++ s)
      exact hne (List.cons.inj (he.symm.trans hr)).1
    obtain rfl | hk' := mem_cons.mp hk'
    · exact hplain
    · have h3 := (skipped_whole hk hplain (g ++ s)).1
      exact ih (List.cons.inj (h3.symm.trans he)).2 k' hk'

end Second

/-! ## 5. The lexer over a run -/

section Run

/-- **What the buffer is while the lexer reads**: a gap, and a comment that is open or the code.
    `keep` characters of the rest belong to the last step. -/
inductive Reads : ScanState → Nat → Text → Text → Leading → Prop where
  | blank {ks : List Text} {g rest : Text} (h : Gap ks g) : Reads .code 0 rest g ⟨ks, []⟩
  | lineOpens {ks : List Text} {g rest : Text} (h : Gap ks g) :
      Reads .inLineComment 1 ('-' :: rest) (g ++ ['-']) ⟨ks ++ [['-']], []⟩
  | line {ks : List Text} {g w rest : Text} (h : Gap ks g) (hw : '\n' ∉ w) :
      Reads .inLineComment 0 rest (g ++ '-' :: '-' :: w) ⟨ks ++ ['-' :: '-' :: w], []⟩
  | blockOpens {ks : List Text} {g rest : Text} (h : Gap ks g) :
      Reads .inBlockComment 1 ('*' :: rest) (g ++ ['/']) ⟨ks ++ [['/']], []⟩
  | block {ks : List Text} {g w rest : Text} (h : Gap ks g)
      (hw : sliceAfter ['*', '/'] w = none)
      (hend : ∀ v, w = v ++ ['*'] → rest.head? ≠ some '/') :
      Reads .inBlockComment 0 rest (g ++ '/' :: '*' :: w) ⟨ks ++ ['/' :: '*' :: w], []⟩
  | blockCloses {ks : List Text} {g w rest : Text} (h : Gap ks g)
      (hw : sliceAfter ['*', '/'] w = none) :
      Reads .code 1 ('/' :: rest) (g ++ '/' :: '*' :: (w ++ ['*']))
        ⟨ks ++ ['/' :: '*' :: (w ++ ['*'])], []⟩
  | found {state : ScanState} {keep : Nat} {ks : List Text} {g code rest : Text} (h : Gap ks g)
      (hne : code ≠ []) (hstart : CodeStart (code ++ rest)) :
      Reads state keep rest (g ++ code) ⟨ks, code⟩

theorem extend_last (ks : List Text) (k : Text) (c : Char) :
    (Leading.mk (ks ++ [k]) []).extend c = ⟨ks ++ [k ++ [c]], []⟩ := by
  simp [Leading.extend]

/-- A character that was taken along keeps the reading. -/
theorem Reads.keep {state : ScanState} {n : Nat} {cs buf : Text} {r : Leading}
    (h : Reads state (n + 1) (c :: cs) buf r) :
    Reads state n cs (buf ++ [c]) (r.keep c) := by
  cases h with
  | @lineOpens ks g rest h =>
    rw [Leading.keep, if_neg (by simp), extend_last, append_assoc]
    exact .line (w := []) h (by simp)
  | @blockOpens ks g rest h =>
    rw [Leading.keep, if_neg (by simp), extend_last, append_assoc]
    exact .block (w := []) h rfl (by simp)
  | @blockCloses ks g w rest h hw =>
    have e : '/' :: '*' :: (w ++ ['*']) ++ ['/'] = '/' :: '*' :: (w ++ ['*', '/']) := by simp
    rw [Leading.keep, if_neg (by simp), extend_last, append_assoc, e]
    exact .blank (h.append_comment (.block hw))
  | found h hne hstart =>
    rw [Leading.keep, if_pos hne, append_assoc]
    exact .found h (by simp) (by rw [append_assoc]; exact hstart)

/-- **What a step does to the buffer**: it ends a statement, or takes the character. -/
theorem Scan.step_cases (s : Scan) (c : Char) (rest : Text) :
    ((lexStep s.state c rest).2.2 = true ∧ (s.step c rest).1.buf = [] ∧
      (s.step c rest).1.state = .code ∧ (s.step c rest).2.1 = 0) ∨
    ((s.step c rest).1.buf = s.buf ++ [c] ∧
      (s.step c rest).1.state = (lexStep s.state c rest).1 ∧
      (s.step c rest).2 = ((lexStep s.state c rest).2.1, 0)) := by
  cases hp : (lexStep s.state c rest).2.2 with
  | false =>
    rw [Scan.step_inside hp]
    exact .inr ⟨rfl, rfl, rfl⟩
  | true =>
    obtain ⟨hcode, hplain⟩ := lexStep_plain hp
    rw [hplain]
    by_cases h1 : c = ';'
    · subst h1
      have hcheck : s.checkPlsql.state = s.state ∧ s.checkPlsql.buf = s.buf := by
        unfold Scan.checkPlsql
        split
        · exact ⟨rfl, rfl⟩
        · exact ⟨rfl, rfl⟩
      rw [Scan.step_semicolon hplain]
      split
      · exact .inr ⟨congrArg (· ++ [';']) hcheck.2, hcheck.1.trans hcode, rfl⟩
      · exact .inl ⟨rfl, rfl, hcheck.1.trans hcode, rfl⟩
    · by_cases h2 : c = '/'
      · subst h2
        rw [Scan.step_slash hplain]
        split
        · split
          · exact .inl ⟨rfl, rfl, hcode, rfl⟩
          · exact .inl ⟨rfl, rfl, hcode, rfl⟩
        · exact .inr ⟨rfl, hcode, rfl⟩
      · rw [Scan.step_other hplain h1 h2]
        exact .inr ⟨rfl, hcode, rfl⟩

/-- In code: a comment begins, or the character is code or white space. -/
theorem lexStep_code (c : Char) (rest : Text) :
    (c = '-' ∧ rest.head? = some '-' ∧ lexStep .code c rest = (.inLineComment, 1, false)) ∨
    (c = '/' ∧ rest.head? = some '*' ∧ lexStep .code c rest = (.inBlockComment, 1, false)) ∨
    (¬ (c = '-' ∧ rest.head? = some '-') ∧ ¬ (c = '/' ∧ rest.head? = some '*') ∧
      Leading.isComment (lexStep .code c rest).1 = false ∧
      ((lexStep .code c rest).2.2 = true ∨ isSpace c = false)) := by
  by_cases h1 : c = '-' ∧ rest.head? = some '-'
  · exact .inl ⟨h1.1, h1.2, by rw [lexStep, if_pos h1]⟩
  by_cases h2 : c = '/' ∧ rest.head? = some '*'
  · exact .inr (.inl ⟨h2.1, h2.2, by rw [lexStep, if_neg h1, if_pos h2]⟩)
  refine .inr (.inr ⟨h1, h2, ?_⟩)
  have hletter : ∀ d, d = 'q' ∨ d = 'Q' ∨ d = 'n' ∨ d = 'N' → isSpace d = false := by
    intro d hd
    obtain rfl | rfl | rfl | rfl := hd
    all_goals decide
  rw [lexStep, if_neg h1, if_neg h2]
  by_cases h3 : c = '"'
  · rw [if_pos h3]
    exact ⟨rfl, .inr (by rw [h3]; decide)⟩
  rw [if_neg h3]
  cases hq : qOpens c rest with
  | some p =>
    refine ⟨rfl, .inr (hletter c ?_)⟩
    unfold qOpens at hq
    split at hq
    · rename_i hc
      exact hc.1.imp_right .inl
    · split at hq
      · rename_i hc
        exact .inr (.inr hc.1)
      · cases hq
  | none =>
    dsimp only
    split
    · rename_i hc
      exact ⟨rfl, .inr (hletter c (.inr (.inr hc.1)))⟩
    · split
      · rename_i hc
        exact ⟨rfl, .inr (by rw [hc]; decide)⟩
      · exact ⟨rfl, .inl rfl⟩

/-- A character that is no part of a statement's end keeps the reading. -/
theorem Reads.read {state : ScanState} {cs buf : Text} {r : Leading}
    (h : Reads state 0 (c :: cs) buf r) :
    Reads (lexStep state c cs).1 (lexStep state c cs).2.1 cs (buf ++ [c])
      (r.read state (lexStep state c cs).1 (lexStep state c cs).2.2 c) := by
  cases h with
  | @blank ks g _ h =>
    obtain ⟨rfl, hnext, e⟩ | ⟨rfl, hnext, e⟩ | ⟨h1, h2, hno, hplain⟩ := lexStep_code c cs
    · obtain ⟨cs, rfl⟩ := List.head?_eq_some_iff.mp hnext
      rw [e]
      exact .lineOpens h
    · obtain ⟨cs, rfl⟩ := List.head?_eq_some_iff.mp hnext
      rw [e]
      exact .blockOpens h
    · by_cases hspace : isSpace c = true
      · have hp : (lexStep .code c cs).2.2 = true := hplain.resolve_right (by simp [hspace])
        obtain ⟨-, e⟩ := lexStep_plain hp
        have hread : (Leading.mk ks []).read .code .code true c = ⟨ks, []⟩ := by
          simp [Leading.read, Leading.isComment, hspace]
        rw [e, hread]
        exact .blank (h.append_space hspace)
      · have hread : (Leading.mk ks []).read .code (lexStep .code c cs).1
            (lexStep .code c cs).2.2 c = ⟨ks, [c]⟩ := by
          simp only [Leading.read, hno, hspace, Bool.and_false]
          rfl
        rw [hread]
        exact .found h (by simp) ⟨by simpa using hspace, h1, h2⟩
  | @line ks g w _ h hw =>
    have hread : ∀ after plain, (Leading.mk (ks ++ ['-' :: '-' :: w]) []).read .inLineComment after
        plain c = ⟨ks ++ ['-' :: '-' :: (w ++ [c])], []⟩ := by
      intro after plain
      rw [Leading.read, if_neg (by simp), if_pos (by rfl), extend_last]
      rfl
    rw [hread, lexStep, append_assoc]
    by_cases hc : c = '\n'
    · rw [if_pos hc, hc]
      exact .blank (h.append_comment (.line hw))
    · rw [if_neg hc]
      exact .line h (by simp [hw, Ne.symm hc])
  | @block ks g w _ h hw hend =>
    have hread : ∀ after plain, (Leading.mk (ks ++ ['/' :: '*' :: w]) []).read .inBlockComment after
        plain c = ⟨ks ++ ['/' :: '*' :: (w ++ [c])], []⟩ := by
      intro after plain
      rw [Leading.read, if_neg (by simp), if_pos (by rfl), extend_last]
      rfl
    rw [hread, lexStep, append_assoc]
    by_cases hc : c = '*' ∧ cs.head? = some '/'
    · obtain ⟨rfl, hnext⟩ := hc
      obtain ⟨cs, rfl⟩ := List.head?_eq_some_iff.mp hnext
      rw [if_pos ⟨rfl, hnext⟩]
      exact .blockCloses h hw
    · rw [if_neg hc]
      refine .block h (sliceAfter_push hw fun v hv => ?_) fun v hv => ?_
      · exact fun e => hend v hv (by rw [e]; rfl)
      · have hlast : c = '*' := by
          have := congrArg List.getLast? hv
          simpa using this
        exact fun e => hc ⟨hlast, e⟩
  | @found _ _ ks g code _ h hne hstart =>
    rw [Leading.read, if_pos hne, append_assoc]
    exact .found h (by simp) (by rw [append_assoc]; exact hstart)

/-- **Every buffer asked about is a gap and code**, as the lexer reads it. -/
theorem asksFrom_reads {input : Text} {s : Scan} {r : Leading} {keep drop : Nat}
    (h : Reads s.state keep input s.buf r)
    (hdrop : drop = 0 ∨ keep = 0 ∧ s.state = .code ∧ s.buf = [] ∧ r = {}) :
    ∀ a ∈ asksFrom s r keep drop input, ∃ g, Gap a.2.comments g ∧ a.1 = g ++ a.2.code ∧
      (a.2.code = [] ∨ CodeStart a.2.code) := by
  induction input generalizing s r keep drop with
  | nil => simp [asksFrom]
  | cons c cs ih =>
    intro a ha
    cases keep with
    | succ keep =>
      rw [asksFrom] at ha
      obtain rfl | ⟨h0, -⟩ := hdrop
      · exact ih h.keep (.inl rfl) a ha
      · cases h0
    | zero =>
      cases drop with
      | succ drop =>
        obtain h0 | ⟨-, hcode, hbuf, rfl⟩ := hdrop
        · cases h0
        · rw [asksFrom] at ha
          refine ih (s := s) ?_ (.inr ⟨rfl, hcode, hbuf, rfl⟩) a ha
          rw [hcode, hbuf]
          exact .blank .nil
      | zero =>
        rw [asksFrom] at ha
        -- the line number is all that the line break changes
        have hline : ∀ s' : Scan, s' = (if c = '\n' then { s with line := s.line + 1 } else s) →
            s'.state = s.state ∧ s'.buf = s.buf := by
          intro s' e
          rw [e]
          split
          · exact ⟨rfl, rfl⟩
          · exact ⟨rfl, rfl⟩
        generalize he : (if c = '\n' then { s with line := s.line + 1 } else s) = s' at ha
        obtain ⟨hstate, hbuf⟩ := hline s' he.symm
        rw [← hstate, ← hbuf] at h
        obtain ha | ha := mem_append.mp ha
        · split at ha
          · rename_i hask
            obtain rfl := mem_singleton.mp ha
            obtain ⟨hcode, -⟩ := lexStep_plain hask.1
            generalize hb : s'.buf = buf at h
            rw [hcode] at h
            cases h with
            | blank h => exact ⟨_, h, by simp, .inl rfl⟩
            | found h hne hstart => exact ⟨_, h, rfl, .inr (hstart.of_append hne)⟩
          · cases ha
        · obtain ⟨-, hb, hst, hk⟩ | ⟨hb, hst, hk⟩ := s'.step_cases c cs
          · refine ih (s := (s'.step c cs).1) ?_ (.inr ⟨hk, hst, hb, if_pos hb⟩) a ha
            rw [if_pos hb, hb, hst, hk]
            exact .blank .nil
          · have hne : ¬ (s'.step c cs).1.buf = [] := by rw [hb]; simp
            rw [if_neg hne] at ha
            refine ih (s := (s'.step c cs).1) ?_ (.inl (by rw [hk])) a ha
            rw [hb, hst, hk]
            exact h.read

end Run

/-! ## 6. The two readings -/

/-- One buffer: a gap and code are read alike if and only if the gap's comments are plain. -/
theorem agrees_gap {ask : Text × Leading} {g : Text} (h : Gap ask.2.comments g)
    (hbuf : ask.1 = g ++ ask.2.code) (hcode : ask.2.code = [] ∨ CodeStart ask.2.code) :
    Agrees ask ↔ Plain ask := by
  obtain ⟨hs, ht⟩ := skipped_code hcode
  unfold Agrees Plain
  rw [hbuf]
  constructor
  · intro hag
    have he : skipped (g ++ ask.2.code) = ask.2.comments ++ [] := by
      rw [append_nil]
      exact hag.1
    exact plain_of_skipped h he
  · intro hks
    obtain ⟨h1, h2⟩ := skipped_gap h hks ask.2.code
    rw [h1, h2, hs, ht, append_nil]
    exact ⟨rfl, rfl⟩

/-- **The comments that `stripLeadingComments` skips are those of the lexer, at every question of a
    text, if and only if none of them begins with `/*/`.** -/
theorem leading_agrees_iff (input : Text) :
    (∀ ask ∈ asks input, Agrees ask) ↔ ∀ ask ∈ asks input, Plain ask := by
  have hgap : ∀ ask ∈ asks input, (Agrees ask ↔ Plain ask) := by
    intro ask hask
    obtain ⟨g, hg, hbuf, hcode⟩ :=
      asksFrom_reads (s := {}) (r := {}) (.blank .nil) (.inl rfl) ask hask
    exact agrees_gap hg hbuf hcode
  exact forall₂_congr hgap

/-- **A comment makes a query look like a block**: the second reading leaves the comment
    `/*/ BEGIN */` behind `/*/`, goes on with what it says, and two queries become one. -/
theorem comment_taken_for_code :
    ¬ (∀ ask ∈ asks "/*/ BEGIN */ SELECT 1; SELECT 2;".toList, Agrees ask) ∧
    asks "/*/ BEGIN */ SELECT 1; SELECT 2;".toList =
      [("/*/ BEGIN */ SELECT 1".toList, ⟨["/*/ BEGIN */".toList], "SELECT 1".toList⟩)] ∧
    stripLeadingComments "/*/ BEGIN */ SELECT 1".toList = "BEGIN */ SELECT 1".toList ∧
    detectPlsqlStart "/*/ BEGIN */ SELECT 1".toList = true ∧
    (splitSql "/*/ BEGIN */ SELECT 1; SELECT 2;".toList).statements =
      ["/*/ BEGIN */ SELECT 1; SELECT 2;".toList] := by
  decide

end Veesker.Splitter
