/-
  File:      Veesker/Lexis/Oracle.lean
  Subject:   HOW ORACLE CUTS A SQL TEXT INTO TOKENS.

  The reference the source's own scanners are compared with: a transducer that reads one
  character at a time. Its state (`Mode`) is the token being read, so the state after a text
  does not depend on what follows (`lexFrom_append`), and every character of the text is in
  exactly one token (`textOf_lexFrom`).

  * a string literal `'…'` (a doubled quote stays inside), with the national prefix `N'…'`;
  * a q-quoted literal `q'[…]'`, `nq'[…]'`, only where the prefix is a whole word;
  * a quoted identifier `"…"`; a `--` comment to the end of its line; a block comment;
  * a word: letters, digits, `_`, `$`, `#` and every character outside ASCII; a symbol: any other
    single character. (An operator of two characters is two symbols here: a coarser reading, so
    that a law over texts with EQUAL tokens covers every pair Oracle itself cannot tell apart.)

  Nothing here names the repository.
-/
import Veesker.Text.Upper

namespace Veesker.Lexis

open List

/-! ## 1. Tokens and modes -/

inductive Kind where
  | word | string | quoted | symbol | comment | blank
  deriving DecidableEq

structure Token where
  kind : Kind
  text : Text
  deriving DecidableEq

/-- What is being read: the characters of the unfinished token, and what may still end it. -/
inductive Mode where
  | plain
  | word (acc : Text)
  | minus
  | slash
  | line (acc : Text)
  | block (acc : Text)
  | blockStar (acc : Text)
  | single (acc : Text)
  | singleEnd (acc : Text)
  | double (acc : Text)
  | qOpen (acc : Text)
  | qBody (closer : Char) (acc : Text)
  | qEnd (closer : Char) (acc : Text)
  deriving DecidableEq

/-- A character of an unquoted word. -/
def isIdentChar (c : Char) : Bool :=
  c.isAlphanum || c == '_' || c == '$' || c == '#' || (decide (128 ≤ c.toNat) && !isSpace c)

/-- The closing delimiter of a q-quoted literal. -/
def closerOf (open_ : Char) : Char :=
  if open_ = '[' then ']' else if open_ = '<' then '>' else if open_ = '(' then ')'
  else if open_ = '{' then '}' else open_

/-- The words that open a q-quoted literal before a quote. -/
def isQPrefix (w : Text) : Bool :=
  w.map Char.toUpper == ['Q'] || w.map Char.toUpper == ['N', 'Q']

/-- The word that opens a national literal before a quote. -/
def isNPrefix (w : Text) : Bool := w.map Char.toUpper == ['N']

/-- The unfinished token's characters. -/
def Mode.pending : Mode → Text
  | .plain => []
  | .minus => ['-']
  | .slash => ['/']
  | .word acc | .line acc | .block acc | .blockStar acc | .single acc | .singleEnd acc
  | .double acc | .qOpen acc | .qBody _ acc | .qEnd _ acc => acc

/-- The kind of the unfinished token, were the text to end here. -/
def Mode.kind : Mode → Kind
  | .plain => .blank
  | .minus | .slash => .symbol
  | .word _ => .word
  | .line _ | .block _ | .blockStar _ => .comment
  | .single _ | .singleEnd _ | .qOpen _ | .qBody _ _ | .qEnd _ _ => .string
  | .double _ => .quoted

/-- The token a text leaves when it ends in this mode. -/
def Mode.flush : Mode → List Token
  | .plain => []
  | m => [⟨m.kind, m.pending⟩]

/-- One character where a token starts. -/
def fresh (c : Char) : Mode × List Token :=
  if isSpace c then (.plain, [⟨.blank, [c]⟩])
  else if c = '-' then (.minus, [])
  else if c = '/' then (.slash, [])
  else if c = '\'' then (.single [c], [])
  else if c = '"' then (.double [c], [])
  else if isIdentChar c then (.word [c], [])
  else (.plain, [⟨.symbol, [c]⟩])

/-- The unfinished token ends before `c`. -/
def Mode.close (m : Mode) (c : Char) : Mode × List Token :=
  ((fresh c).1, m.flush ++ (fresh c).2)

/-- **One character**: the next mode, and the tokens that are now finished. -/
def Mode.step : Mode → Char → Mode × List Token
  | .plain, c => fresh c
  | .word acc, c =>
    if isIdentChar c then (.word (acc ++ [c]), [])
    else if c = '\'' ∧ isQPrefix acc then (.qOpen (acc ++ [c]), [])
    else if c = '\'' ∧ isNPrefix acc then (.single (acc ++ [c]), [])
    else (Mode.word acc).close c
  | .minus, c => if c = '-' then (.line ['-', '-'], []) else Mode.minus.close c
  | .slash, c => if c = '*' then (.block ['/', '*'], []) else Mode.slash.close c
  | .line acc, c =>
    if c = '\n' then (.plain, [⟨.comment, acc⟩, ⟨.blank, [c]⟩]) else (.line (acc ++ [c]), [])
  | .block acc, c => if c = '*' then (.blockStar (acc ++ [c]), []) else (.block (acc ++ [c]), [])
  | .blockStar acc, c =>
    if c = '/' then (.plain, [⟨.comment, acc ++ [c]⟩])
    else if c = '*' then (.blockStar (acc ++ [c]), [])
    else (.block (acc ++ [c]), [])
  | .single acc, c =>
    if c = '\'' then (.singleEnd (acc ++ [c]), []) else (.single (acc ++ [c]), [])
  | .singleEnd acc, c =>
    if c = '\'' then (.single (acc ++ [c]), []) else (Mode.singleEnd acc).close c
  | .double acc, c =>
    if c = '"' then (.plain, [⟨.quoted, acc ++ [c]⟩]) else (.double (acc ++ [c]), [])
  | .qOpen acc, c => (.qBody (closerOf c) (acc ++ [c]), [])
  | .qBody d acc, c => if c = d then (.qEnd d (acc ++ [c]), []) else (.qBody d (acc ++ [c]), [])
  | .qEnd d acc, c =>
    if c = '\'' then (.plain, [⟨.string, acc ++ [c]⟩])
    else if c = d then (.qEnd d (acc ++ [c]), [])
    else (.qBody d (acc ++ [c]), [])

/-! ## 2. Texts -/

/-- The mode after a text. -/
def modeFrom : Mode → Text → Mode
  | m, [] => m
  | m, c :: cs => modeFrom (m.step c).1 cs

/-- The tokens finished within a text. -/
def emitted : Mode → Text → List Token
  | _, [] => []
  | m, c :: cs => (m.step c).2 ++ emitted (m.step c).1 cs

/-- All tokens of a text, the last one as the end of the text leaves it. -/
def lexFrom (m : Mode) (s : Text) : List Token := emitted m s ++ (modeFrom m s).flush

def lex (s : Text) : List Token := lexFrom .plain s

/-- The characters of a token list. -/
def textOf (ts : List Token) : Text := ts.flatMap Token.text

/-- A token Oracle's parser sees: neither a comment nor white space. -/
def Token.isSignificant (t : Token) : Bool := t.kind != .comment && t.kind != .blank

/-- **The token sequence of a text**, comments and white space ignored. -/
def tokens (s : Text) : List Token := (lex s).filter Token.isSignificant

/-- Every character of a text with the kind of the token it lies in. -/
def annot (s : Text) : List (Char × Kind) := (lex s).flatMap fun t => t.text.map (·, t.kind)

theorem modeFrom_append (m : Mode) (s t : Text) :
    modeFrom m (s ++ t) = modeFrom (modeFrom m s) t := by
  induction s generalizing m with
  | nil => rfl
  | cons c s ih => exact ih _

theorem emitted_append (m : Mode) (s t : Text) :
    emitted m (s ++ t) = emitted m s ++ emitted (modeFrom m s) t := by
  induction s generalizing m with
  | nil => rfl
  | cons c s ih =>
    show (m.step c).2 ++ emitted (m.step c).1 (s ++ t) = _
    rw [ih, ← append_assoc]
    rfl

/-- **Reading a text in two parts.** -/
theorem lexFrom_append (m : Mode) (s t : Text) :
    lexFrom m (s ++ t) = emitted m s ++ lexFrom (modeFrom m s) t := by
  unfold lexFrom
  rw [emitted_append, modeFrom_append, append_assoc]

theorem lexFrom_cons (m : Mode) (c : Char) (s : Text) :
    lexFrom m (c :: s) = (m.step c).2 ++ lexFrom (m.step c).1 s := by
  unfold lexFrom
  rw [← append_assoc]
  rfl

@[simp] theorem textOf_nil : textOf [] = [] := rfl

@[simp] theorem textOf_cons (t : Token) (ts : List Token) :
    textOf (t :: ts) = t.text ++ textOf ts := rfl

@[simp] theorem textOf_append (ts us : List Token) :
    textOf (ts ++ us) = textOf ts ++ textOf us := flatMap_append

@[simp] theorem textOf_flush (m : Mode) : textOf m.flush = m.pending := by
  cases m <;> simp [Mode.flush, Mode.pending]

theorem textOf_fresh (c : Char) : textOf (fresh c).2 ++ (fresh c).1.pending = [c] := by
  unfold fresh
  repeat' split
  all_goals simp_all [Mode.pending]

theorem textOf_close (m : Mode) (c : Char) :
    textOf (m.close c).2 ++ (m.close c).1.pending = m.pending ++ [c] := by
  unfold Mode.close
  rw [textOf_append, textOf_flush, append_assoc, textOf_fresh]

/-- A step neither loses nor invents a character. -/
theorem textOf_step (m : Mode) (c : Char) :
    textOf (m.step c).2 ++ (m.step c).1.pending = m.pending ++ [c] := by
  cases m <;> simp only [Mode.step] <;> (repeat' split) <;>
    first
      | exact textOf_fresh c
      | exact textOf_close _ c
      | simp_all [Mode.pending]

theorem textOf_emitted (m : Mode) (s : Text) :
    textOf (emitted m s) ++ (modeFrom m s).pending = m.pending ++ s := by
  induction s generalizing m with
  | nil => simp [emitted, modeFrom]
  | cons c s ih =>
    show textOf ((m.step c).2 ++ emitted (m.step c).1 s) ++ (modeFrom (m.step c).1 s).pending = _
    rw [textOf_append, append_assoc, ih, ← append_assoc, textOf_step]
    simp

/-- **The tokens of a text are the text.** -/
theorem textOf_lexFrom (m : Mode) (s : Text) : textOf (lexFrom m s) = m.pending ++ s := by
  unfold lexFrom
  rw [textOf_append, textOf_flush, textOf_emitted]

theorem map_fst_annot (s : Text) : (annot s).map Prod.fst = s := by
  have h : ∀ ts : List Token,
      (ts.flatMap fun t => t.text.map (·, t.kind)).map Prod.fst = textOf ts := by
    intro ts
    induction ts with
    | nil => rfl
    | cons t ts ih => simp [ih, Function.comp_def]
  unfold annot
  rw [h]
  exact textOf_lexFrom .plain s

theorem length_annot (s : Text) : (annot s).length = s.length := by
  rw [← congrArg List.length (map_fst_annot s), length_map]

/-! ## 3. The kind of a character -/

/-- The characters of some tokens, each with its token's kind. -/
def annotTokens (ts : List Token) : List (Char × Kind) := ts.flatMap fun t => t.text.map (·, t.kind)

@[simp] theorem annotTokens_append (ts us : List Token) :
    annotTokens (ts ++ us) = annotTokens ts ++ annotTokens us := flatMap_append

@[simp] theorem annotTokens_cons (t : Token) (ts : List Token) :
    annotTokens (t :: ts) = t.text.map (·, t.kind) ++ annotTokens ts := rfl

theorem length_annotTokens (ts : List Token) : (annotTokens ts).length = (textOf ts).length := by
  induction ts with
  | nil => rfl
  | cons t ts ih => simp [ih]

/-- A literal, a quoted identifier or a comment is open. -/
def Mode.isOpen (m : Mode) : Bool :=
  match m with
  | .plain | .word _ | .minus | .slash | .singleEnd _ => false
  | _ => true

/-- The kind of an open token is not that of a symbol. -/
theorem Mode.kind_of_isOpen {m : Mode} (h : m.isOpen = true) : m.kind ≠ .symbol := by
  cases m <;> simp_all [Mode.isOpen, Mode.kind]

/-- **An unfinished literal, identifier or comment becomes ONE token**, of its kind, and starts
    with what is already read. -/
theorem lexFrom_first {m : Mode} (hk : m.kind = .string ∨ m.kind = .quoted ∨ m.kind = .comment)
    (s : Text) : ∃ t ts r, lexFrom m s = t :: ts ∧ t.kind = m.kind ∧ t.text = m.pending ++ r := by
  induction s generalizing m with
  | nil =>
    cases m <;> simp [Mode.kind] at hk
    all_goals exact ⟨_, [], [], rfl, rfl, (append_nil _).symm⟩
  | cons c s ih =>
    have hkeep : ∀ m' : Mode, m.step c = (m', []) → m'.kind = m.kind →
        m'.pending = m.pending ++ [c] →
        ∃ t ts r, lexFrom m (c :: s) = t :: ts ∧ t.kind = m.kind ∧ t.text = m.pending ++ r := by
      intro m' hs hk' hp
      obtain ⟨t, ts, r, h1, h2, h3⟩ := ih (m := m') (by rw [hk']; exact hk)
      refine ⟨t, ts, c :: r, ?_, h2.trans hk', ?_⟩
      · rw [lexFrom_cons, hs]
        exact h1
      · rw [h3, hp]
        simp
    have hend : ∀ (t : Token) (ts : List Token) (r : Text), (m.step c).2 = t :: ts →
        t.kind = m.kind → t.text = m.pending ++ r →
        ∃ t ts r, lexFrom m (c :: s) = t :: ts ∧ t.kind = m.kind ∧ t.text = m.pending ++ r := by
      intro t ts r hs h1 h2
      refine ⟨t, ts ++ lexFrom (m.step c).1 s, r, ?_, h1, h2⟩
      rw [lexFrom_cons, hs]
      rfl
    cases m with
    | plain => simp [Mode.kind] at hk
    | word acc => simp [Mode.kind] at hk
    | minus => simp [Mode.kind] at hk
    | slash => simp [Mode.kind] at hk
    | line acc =>
      by_cases h : c = '\n'
      · exact hend ⟨.comment, acc⟩ [⟨.blank, [c]⟩] [] (by simp [Mode.step, h]) rfl
          (append_nil _).symm
      · exact hkeep (.line (acc ++ [c])) (by simp [Mode.step, h]) rfl rfl
    | block acc =>
      by_cases h : c = '*'
      · exact hkeep (.blockStar (acc ++ [c])) (by simp [Mode.step, h]) rfl rfl
      · exact hkeep (.block (acc ++ [c])) (by simp [Mode.step, h]) rfl rfl
    | blockStar acc =>
      by_cases h : c = '/'
      · exact hend ⟨.comment, acc ++ [c]⟩ [] [c] (by simp [Mode.step, h]) rfl rfl
      · by_cases h' : c = '*'
        · exact hkeep (.blockStar (acc ++ [c])) (by simp [Mode.step, h']) rfl rfl
        · exact hkeep (.block (acc ++ [c])) (by simp [Mode.step, h, h']) rfl rfl
    | single acc =>
      by_cases h : c = '\''
      · exact hkeep (.singleEnd (acc ++ [c])) (by simp [Mode.step, h]) rfl rfl
      · exact hkeep (.single (acc ++ [c])) (by simp [Mode.step, h]) rfl rfl
    | singleEnd acc =>
      by_cases h : c = '\''
      · exact hkeep (.single (acc ++ [c])) (by simp [Mode.step, h]) rfl rfl
      · exact hend ⟨.string, acc⟩ (fresh c).2 [] (by simp [Mode.step, h, Mode.close]; rfl) rfl
          (append_nil _).symm
    | double acc =>
      by_cases h : c = '"'
      · exact hend ⟨.quoted, acc ++ [c]⟩ [] [c] (by simp [Mode.step, h]) rfl rfl
      · exact hkeep (.double (acc ++ [c])) (by simp [Mode.step, h]) rfl rfl
    | qOpen acc => exact hkeep (.qBody (closerOf c) (acc ++ [c])) rfl rfl rfl
    | qBody d acc =>
      by_cases h : c = d
      · exact hkeep (.qEnd d (acc ++ [c])) (by simp [Mode.step, h]) rfl rfl
      · exact hkeep (.qBody d (acc ++ [c])) (by simp [Mode.step, h]) rfl rfl
    | qEnd d acc =>
      by_cases h : c = '\''
      · exact hend ⟨.string, acc ++ [c]⟩ [] [c] (by simp [Mode.step, h]) rfl rfl
      · by_cases h' : c = d
        · exact hkeep (.qEnd d (acc ++ [c])) (by simp only [Mode.step, if_neg h, if_pos h']) rfl rfl
        · exact hkeep (.qBody d (acc ++ [c])) (by simp only [Mode.step, if_neg h, if_neg h']) rfl rfl

/-- A semicolon outside literals and comments is a symbol and ends the token before it. -/
theorem step_semicolon_code {m : Mode} (h : m.isOpen = false) :
    m.step ';' = (.plain, m.flush ++ [⟨.symbol, [';']⟩]) := by
  have hf : fresh ';' = (.plain, [⟨.symbol, [';']⟩]) := by decide
  have hi : isIdentChar ';' = false := by decide
  cases m <;> simp_all [Mode.isOpen, Mode.step, Mode.close, Mode.flush]

/-- A semicolon inside a literal, an identifier or a comment belongs to it. -/
theorem step_semicolon_open {m : Mode} (h : m.isOpen = true) :
    (m.step ';').2 = [] ∧ (m.step ';').1.pending = m.pending ++ [';'] ∧
      (m.step ';').1.isOpen = true := by
  cases m <;> simp [Mode.isOpen] at h <;> simp only [Mode.step] <;> (repeat' split) <;>
    simp_all [Mode.isOpen, Mode.pending]

/-- **A semicolon is a terminator exactly when the text up to it leaves nothing open.** -/
theorem annot_semicolon_iff (a s : Text) :
    (annot (a ++ ';' :: s))[a.length]? = some (';', .symbol) ↔
      modeFrom .plain (a ++ [';']) = .plain := by
  have hlen : (annotTokens (emitted .plain a)).length + (modeFrom .plain a).pending.length =
      a.length := by
    have h := congrArg List.length (textOf_emitted .plain a)
    rw [length_append, ← length_annotTokens] at h
    exact h
  have hget : (annot (a ++ ';' :: s))[a.length]? =
      (annotTokens (lexFrom (modeFrom .plain a) (';' :: s)))[(modeFrom .plain a).pending.length]? := by
    show (annotTokens (lexFrom .plain (a ++ ';' :: s)))[a.length]? = _
    rw [lexFrom_append, annotTokens_append, List.getElem?_append_right (by omega)]
    congr 1
    omega
  have hmode : modeFrom .plain (a ++ [';']) = ((modeFrom .plain a).step ';').1 := by
    rw [modeFrom_append]
    rfl
  rw [hget, hmode]
  generalize modeFrom .plain a = m
  cases ho : m.isOpen with
  | false =>
    rw [lexFrom_cons, step_semicolon_code ho]
    refine iff_of_true ?_ rfl
    have hm : (annotTokens m.flush).length = m.pending.length := by
      rw [length_annotTokens, textOf_flush]
    rw [annotTokens_append, annotTokens_append, append_assoc,
      List.getElem?_append_right (by omega), hm, Nat.sub_self]
    rfl
  | true =>
    obtain ⟨h1, h2, h3⟩ := step_semicolon_open ho
    have hk : ((m.step ';').1.kind = .string ∨ (m.step ';').1.kind = .quoted ∨
        (m.step ';').1.kind = .comment) := by
      revert h3
      cases (m.step ';').1 <;> simp [Mode.isOpen, Mode.kind]
    obtain ⟨t, ts, r, e, ht, htext⟩ := lexFrom_first hk s
    rw [lexFrom_cons, h1, nil_append, e]
    refine iff_of_false ?_ (fun hp => by rw [hp] at h3; cases h3)
    have hlt : m.pending.length < (t.text.map (·, t.kind)).length := by
      rw [length_map, htext, h2]
      simp
    rw [annotTokens_cons, List.getElem?_append_left hlt, List.getElem?_map]
    intro hsome
    obtain ⟨c, -, hc⟩ := Option.map_eq_some_iff.mp hsome
    have : t.kind = .symbol := congrArg Prod.snd hc
    exact Mode.kind_of_isOpen h3 (ht ▸ this)

end Veesker.Lexis
