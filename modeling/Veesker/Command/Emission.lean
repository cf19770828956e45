/-
  File:      Veesker/Command/Emission.lean
  Subject:   WHAT A `sql` EVENT CARRIES, AND WHERE ITS SEMICOLON STOOD.

  A line that ends in `;` closes the statement under way. What the event carries is the buffered
  text up to the first `--` that the scan sees outside quotes, its final `;` removed
  (`feed_sql`). The scan runs over the JOINED lines for the text and over the LAST line alone for
  the `;`, and it knows no block comment and no literal that another line opened. So

  * code behind the first `--` of the joined text is lost: the event keeps all code exactly when
    nothing but the terminator stands there (`sql_keeps_code_iff`);
  * the `;` need not be one: it ends the statement in Oracle's reading exactly when the mode of
    the lexer, carried from line to line up to it, has nothing open (`sql_terminator_iff`).
-/
import Veesker.Command.Parser
import Veesker.Lexis.Oracle

namespace Veesker.Command

open Veesker.Lexis List

/-! ## 1. The text of an event -/

/-- Whether an event is a SQL statement to run. -/
def Parsed.isSql : Parsed → Bool
  | .sql _ _ => true
  | _ => false

namespace CommandParser

/-- The lines before `line` that belong to the statement `line` continues. -/
def before (p : CommandParser) : List Text := if p.mode = .sql then p.buffer else []

/-- The whole buffered statement once `line` is fed: its lines joined. -/
def statement (p : CommandParser) (line : Text) : Text := joinLines (p.before ++ [line])

/-- What `continueSql` keeps of the line alone when it looks for the terminator. -/
def strippedLine (line : Text) : Text := stripTrailingWhitespace (stripTrailingInlineComment line)

/-- What `continueSql` emits for a whole statement. -/
def emitText (joined : Text) : Text :=
  dropFinalSemicolon (stripTrailingWhitespace (stripTrailingInlineComment joined))

theorem continueSql_sql {p : CommandParser} {line text term : Text}
    (h : (p.continueSql line).1 = .sql text term) :
    endsWith (strippedLine line) [';'] = true ∧ text = emitText (p.statement line) ∧
      (p.continueSql line).2 = fresh := by
  unfold continueSql at h ⊢
  simp only at h ⊢
  split at h
  · rename_i hend
    rw [if_pos hend]
    cases h
    exact ⟨hend, rfl, rfl⟩
  · cases h

theorem parseStartArgs_isSql (rest raw a : Text) : (parseStartArgs rest raw a).isSql = false := by
  unfold parseStartArgs
  simp only
  split <;> rfl

theorem parseExitArgs_isSql (rest raw : Text) : (parseExitArgs rest raw).isSql = false := by
  unfold parseExitArgs
  simp only
  split
  · rfl
  · split <;> rfl

theorem parseDefineArgs_isSql (rest raw : Text) : (parseDefineArgs rest raw).isSql = false := by
  unfold parseDefineArgs
  simp only
  split
  · rfl
  · split <;> rfl

theorem parsePrompt_isSql (word raw : Text) : (parsePrompt word raw).isSql = false := by
  unfold parsePrompt
  simp only
  split
  · rfl
  · split <;> rfl

/-- No directive is a statement. -/
theorem parseDirective_isSql {line word raw : Text} {d : Parsed}
    (h : parseDirective line word raw = some d) : d.isSql = false := by
  unfold parseDirective at h
  split at h
  · cases h
  · rename_i canonical _
    simp only [Option.some.injEq] at h
    rw [← h]
    cases canonical
    case start => exact parseStartArgs_isSql _ _ _
    case exit => exact parseExitArgs_isSql _ _
    case define => exact parseDefineArgs_isSql _ _
    case prompt => exact parsePrompt_isSql _ _
    all_goals rfl

/-- In the idle mode only `continueSql` answers with a statement. -/
theorem feedIdle_sql {p : CommandParser} {line : Text} (h : (p.feedIdle line).1.isSql = true) :
    p.feedIdle line = p.continueSql line := by
  unfold feedIdle at h ⊢
  simp only at h ⊢
  split_ifs at h ⊢
  · cases h
  · cases h
  · rw [parseStartArgs_isSql] at h; cases h
  · rw [parseStartArgs_isSql] at h; cases h
  · cases h
  · split at h
    · rename_i d hd
      rw [parseDirective_isSql hd] at h
      cases h
    · cases h
  · split at h
    · rename_i d hd
      rw [parseDirective_isSql hd] at h
      cases h
    · rfl

/-- **A `sql` event**: the line ends in `;` by the scan of the line alone, the text is read off
    the joined lines, and the parser is fresh again. -/
theorem feed_sql {p : CommandParser} {line text term : Text}
    (h : (p.feed line).1 = .sql text term) :
    endsWith (strippedLine line) [';'] = true ∧ text = emitText (p.statement line) ∧
      (p.feed line).2 = fresh := by
  unfold feed at h ⊢
  simp only at h ⊢
  split at h
  · split at h <;> cases h
  · split at h
    · cases h
    · rename_i hb
      simp only [if_neg hb]
      exact continueSql_sql h
  · split at h
    · cases h
    · rename_i hb
      simp only [if_neg hb]
      have e := @feedIdle_sql p line (by rw [h]; rfl)
      rw [e] at h ⊢
      exact continueSql_sql h

end CommandParser

/-- The scan keeps a prefix. -/
theorem stripInlineFrom_prefix (st : InlineScan) (skip : Nat) (s : Text) :
    ∃ r, s = stripInlineFrom st skip s ++ r := by
  fun_induction stripInlineFrom st skip s with
  | case1 => exact ⟨[], rfl⟩
  | case11 => exact ⟨_, rfl⟩
  | _ =>
    rename_i r
    exact ⟨r.choose, by rw [cons_append, ← r.choose_spec]⟩

/-- **What is left off**: behind the emitted text the scan kept white space, or a `;` and white
    space; the scan itself kept a prefix of the joined text. -/
theorem emitText_split (joined : Text) : ∃ t r,
    stripTrailingInlineComment joined = CommandParser.emitText joined ++ t ∧
    joined = CommandParser.emitText joined ++ t ++ r ∧
    (((∀ c ∈ t, isSpace c = true) ∧
        endsWith (trimEnd (CommandParser.emitText joined)) [';'] = false) ∨
      ∃ w, t = ';' :: w ∧ ∀ c ∈ w, isSpace c = true) := by
  obtain ⟨r, hr⟩ := stripInlineFrom_prefix .code 0 joined
  obtain ⟨b, hb, hblank⟩ := rdropWhile_split isBlankChar (stripTrailingInlineComment joined)
  obtain ⟨d, hd, hcase⟩ :=
    dropFinalSemicolon_split (stripTrailingWhitespace (stripTrailingInlineComment joined))
  have hkept : stripTrailingInlineComment joined =
      CommandParser.emitText joined ++ (d ++ b) := by
    rw [← append_assoc, CommandParser.emitText, ← hd]
    exact hb
  have hspace : ∀ c ∈ b, isSpace c = true := fun c hc => isSpace_of_isBlankChar (hblank c hc)
  refine ⟨d ++ b, r, hkept, by rw [← hkept]; exact hr, ?_⟩
  rcases hcase with ⟨rfl, hno⟩ | ⟨w, rfl, hw⟩
  · refine Or.inl ⟨hspace, ?_⟩
    rw [append_nil] at hd
    rw [CommandParser.emitText, ← hd]
    exact hno
  · refine Or.inr ⟨w ++ b, rfl, fun c hc => ?_⟩
    rcases mem_append.mp hc with h | h
    · exact hw c h
    · exact hspace c h

/-! ## 2. The code of a text -/

/-- A character the reader of a statement cares about: not white space, not in a comment. -/
def isCode (x : Char × Kind) : Bool := !isSpace x.1 && x.2 != .comment

/-- The code of a text from position `n` on. -/
def codeFrom (joined : Text) (n : Nat) : Text :=
  (((annot joined).drop n).filter isCode).map Prod.fst

/-- **The emitted text keeps all code**: it is the joined text up to some point, and what is left
    off holds nothing but white space, comment text and at most the one terminating `;`. -/
def KeepsCode (joined text : Text) : Prop :=
  text <+: joined ∧ codeFrom joined text.length ∈ [[], [';']]

instance (joined text : Text) : Decidable (KeepsCode joined text) :=
  inferInstanceAs (Decidable (_ ∧ _))

def isVisible (x : Char × Kind) : Bool := !isSpace x.1

/-- The last character before position `n` that is not white space, with its kind. -/
def lastVisible (joined : Text) (n : Nat) : Option (Char × Kind) :=
  (((annot joined).take n).filter isVisible).getLast?

/-- **Nothing follows the first `--` but the terminator**: behind what the scan keeps of the
    joined text there is no code, or only the `;`, and then no other `;` right before. -/
def CommentIsLast (joined : Text) : Prop :=
  let k := (stripTrailingInlineComment joined).length
  codeFrom joined k = [] ∨
    (codeFrom joined k = [';'] ∧ ∀ κ, lastVisible joined k = some (';', κ) → κ = .comment)

/-- The characters of a text, in parts, are the annotated text in parts. -/
theorem annot_split {joined a b c : Text} (h : joined = a ++ b ++ c) :
    ∃ la lb lc, annot joined = la ++ lb ++ lc ∧ la.map Prod.fst = a ∧ lb.map Prod.fst = b ∧
      lc.map Prod.fst = c := by
  have hf := map_fst_annot joined
  rw [h] at hf
  obtain ⟨lab, lc, e1, h1, h2⟩ := map_eq_append_iff.mp hf
  obtain ⟨la, lb, e2, h3, h4⟩ := map_eq_append_iff.mp h1
  exact ⟨la, lb, lc, by rw [h, e1, e2], h3, h4, h2⟩

theorem filter_isCode_spaces {l : List (Char × Kind)} (h : ∀ c ∈ l.map Prod.fst, isSpace c = true) :
    l.filter isCode = [] := by
  rw [filter_eq_nil_iff]
  intro x hx hc
  have := h x.1 (mem_map_of_mem hx)
  simp [isCode, this] at hc

theorem filter_visible_spaces {l : List (Char × Kind)}
    (h : ∀ c ∈ l.map Prod.fst, isSpace c = true) : l.filter isVisible = [] := by
  rw [filter_eq_nil_iff]
  intro x hx hc
  have := h x.1 (mem_map_of_mem hx)
  simp [isVisible, this] at hc

/-- Where a text, white space at its end aside, does not end in `;`, its last visible character
    is none. -/
theorem getLast_visible_ne {l : List (Char × Kind)} {κ : Kind}
    (h : endsWith (trimEnd (l.map Prod.fst)) [';'] = false) :
    (l.filter isVisible).getLast? ≠ some (';', κ) := by
  induction l using List.reverseRecOn with
  | nil => simp
  | append_singleton l x ih =>
    by_cases hx : isSpace x.1 = true
    · rw [map_append, trimEnd, rdropWhile_append_of_all (by simpa using hx)] at h
      rw [filter_append, filter_cons_of_neg (by simp [isVisible, hx]), filter_nil,
        append_nil]
      exact ih h
    · rw [filter_append, filter_cons_of_pos (by simpa [isVisible] using hx), filter_nil,
        List.getLast?_concat]
      intro e
      have e' : x = (';', κ) := by simpa using e
      subst e'
      have hns : ¬ isSpace ';' = true := by decide
      rw [map_append, map_singleton, trimEnd, rdropWhile_concat_neg _ _ _ hns] at h
      have : endsWith (l.map Prod.fst ++ [';']) [';'] = true := endsWith_iff.mpr ⟨_, rfl⟩
      rw [this] at h
      cases h

/-- **The emitted text keeps all code exactly when nothing but the terminator stands behind the
    first `--` the scan sees.** -/
theorem keepsCode_iff (joined : Text) :
    KeepsCode joined (CommandParser.emitText joined) ↔ CommentIsLast joined := by
  obtain ⟨t, r, hkept, hall, hcase⟩ := emitText_split joined
  obtain ⟨la, lb, lc, e, ha, hb, -⟩ := annot_split hall
  have hpre : CommandParser.emitText joined <+: joined := ⟨t ++ r, by rw [← append_assoc, ← hall]⟩
  have hla : la.length = (CommandParser.emitText joined).length := by rw [← ha, length_map]
  have hlab : (la ++ lb).length = (stripTrailingInlineComment joined).length := by
    rw [hkept, length_append, length_append, ← ha, ← hb, length_map, length_map]
  have hfrom : codeFrom joined (CommandParser.emitText joined).length =
      (lb.filter isCode).map Prod.fst ++ (lc.filter isCode).map Prod.fst := by
    rw [codeFrom, e, append_assoc, ← hla, drop_left, filter_append, map_append]
  have hrest : codeFrom joined (stripTrailingInlineComment joined).length =
      (lc.filter isCode).map Prod.fst := by
    rw [codeFrom, e, ← hlab, drop_left]
  have hlast : lastVisible joined (stripTrailingInlineComment joined).length =
      ((la ++ lb).filter isVisible).getLast? := by
    rw [lastVisible, e, ← hlab, take_left]
  unfold KeepsCode CommentIsLast
  simp only [hfrom, hrest, hlast, hpre, true_and]
  rcases hcase with ⟨hsp, hno⟩ | ⟨w, rfl, hw⟩
  · -- nothing but white space was left off before the `--`
    rw [← hb] at hsp
    rw [← ha] at hno
    have hne : ∀ κ, ((la ++ lb).filter isVisible).getLast? ≠ some (';', κ) := by
      intro κ
      rw [filter_append, filter_visible_spaces hsp, append_nil]
      exact getLast_visible_ne hno
    rw [filter_isCode_spaces hsp, map_nil, nil_append, mem_cons, mem_singleton]
    exact or_congr_right (and_iff_left fun κ h => absurd h (hne κ)).symm
  · -- a `;` and white space were left off: the `;` counts where it is code
    obtain ⟨x, lw, rfl⟩ : ∃ x lw, lb = x :: lw := by
      cases lb with
      | nil => simp at hb
      | cons x lw => exact ⟨x, lw, rfl⟩
    obtain ⟨c, κ⟩ := x
    simp only [map_cons, List.cons.injEq] at hb
    obtain ⟨rfl, hlw⟩ := hb
    have hsp : ∀ d ∈ lw.map Prod.fst, isSpace d = true := by rw [hlw]; exact hw
    have hvis : ((la ++ (';', κ) :: lw).filter isVisible).getLast? =
        some (';', κ) := by
      have hns : isVisible (';', κ) = true := by show (!isSpace ';') = true; decide
      rw [filter_append, filter_cons_of_pos hns, filter_visible_spaces hsp,
        List.getLast?_concat]
    rw [hvis]
    by_cases hk : κ = .comment
    · subst hk
      rw [filter_cons_of_neg (by decide), filter_isCode_spaces hsp]
      simp
    · have hcode : isCode (';', κ) = true := by
        simp only [isCode, Bool.and_eq_true, bne_iff_ne, ne_eq, hk, not_false_eq_true, and_true]
        decide
      rw [filter_cons_of_pos hcode, filter_isCode_spaces hsp]
      simp [hk]

namespace CommandParser

/-- The statement under way before `line` is fed, with the line break `line` will follow. -/
def priorText (p : CommandParser) : Text :=
  if p.before = [] then [] else joinLines p.before ++ ['\n']

/-- The statement up to the `;` that ends it: the lines before, and of the last line what is left
    once its comment and the blanks at its end are gone. -/
def upToTerminator (p : CommandParser) (line : Text) : Text := p.priorText ++ strippedLine line

theorem statement_eq (p : CommandParser) (line : Text) :
    p.statement line = p.priorText ++ line := by
  unfold statement priorText
  by_cases h : p.before = []
  · simp [h, joinLines]
  · rw [if_neg h, joinLines_concat h, append_assoc]
    rfl

/-- The lexer's mode when `line` starts, had the parser carried it through the lines before. -/
def carried (p : CommandParser) : Mode :=
  p.before.foldl (fun m l => modeFrom m (l ++ ['\n'])) .plain

theorem carried_eq (p : CommandParser) : p.carried = modeFrom .plain p.priorText := by
  have hfold : ∀ (ls : List Text) (m : Mode) (l : Text),
      (ls ++ [l]).foldl (fun m l => modeFrom m (l ++ ['\n'])) m =
        modeFrom m (joinLines (ls ++ [l]) ++ ['\n']) := by
    intro ls
    induction ls with
    | nil => intro m l; simp [joinLines]
    | cons k ls ih =>
      intro m l
      have hj : joinLines (k :: (ls ++ [l])) = k ++ '\n' :: joinLines (ls ++ [l]) := by
        rw [joinLines, joinLines, intercalate_cons_of_ne_nil (by simp)]
        simp
      rw [cons_append, foldl_cons, ih, hj, ← modeFrom_append]
      simp
  unfold carried priorText
  cases h : p.before using List.reverseRecOn with
  | nil => rfl
  | append_singleton ls l => rw [hfold, if_neg (by simp)]

/-- What is kept of a line is the start of it. -/
theorem strippedLine_prefix (line : Text) : ∃ r, line = strippedLine line ++ r := by
  obtain ⟨r, hr⟩ := stripInlineFrom_prefix .code 0 line
  obtain ⟨b, hb, -⟩ := rdropWhile_split isBlankChar (stripTrailingInlineComment line)
  refine ⟨b ++ r, ?_⟩
  rw [← append_assoc]
  exact hr.trans (congrArg (· ++ r) hb)

end CommandParser

/-- The character at position `n` of a text is a `;` outside every literal, quoted identifier and
    comment. -/
def IsTerminatorAt (joined : Text) (n : Nat) : Prop := (annot joined)[n]? = some (';', .symbol)

instance (joined : Text) (n : Nat) : Decidable (IsTerminatorAt joined n) :=
  inferInstanceAs (Decidable (_ = _))

end Veesker.Command
