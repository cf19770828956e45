/-
  File:      Veesker/Ai/ReadOnlySql.lean
  Subject:   THE GATE OF THE AI'S QUERIES (sidecar/src/ai.ts): `stripStringsAndComments` and
             `isReadOnlySql`, against the tokens of the text.

  The stripper leaves a placeholder for every comment, literal and quoted identifier; the
  expressions then look for whole words in what is left.

  * `rendering_lex` -- what the stripper leaves, token by token;
  * `isReadOnlySql_ordinary` -- **on a text without the oddities listed in `Ordinary` the answer
    is whether the first token is SELECT or WITH and no unquoted word is a dangerous one**;
  * `passes_quoted` -- a quoted identifier is no obstacle, whatever its name.
-/
import Veesker.Text.Runs
import Veesker.Lexis.Literals
import Veesker.Lexis.Statement

namespace Veesker.Ai

open Lexis
open List hiding lex

variable {c : Char}

/-! ## 1. The source's functions -/

/-- `while (i < sql.length - 1 && !(sql[i] === "*" && sql[i + 1] === "/")) i++; i += 2`. -/
def afterBlock : Text → Text
  | [] => []
  | c :: s => if c = '*' ∧ s.head? = some '/' then s.tail else afterBlock s

/-- Behind a string literal, from inside it. -/
def afterString : Text → Text
  | '\'' :: '\'' :: s => afterString s
  | '\'' :: s => s
  | _ :: s => afterString s
  | [] => []

/-- Behind a q-quoted literal, from behind its opening delimiter. The loop stops one character
    before the end, so the last character of an open literal is read as code. -/
def afterQ (close : Option Char) : Text → Text
  | [] => []
  | [c] => [c]
  | c :: d :: s => if some c = close ∧ d = '\'' then s else afterQ close (d :: s)

/-- Behind a quoted identifier, from inside it. -/
def afterQuoted : Text → Text
  | [] => []
  | c :: s => if c = '"' then s else afterQuoted s

/-- `closingMap[open] ?? open`. A delimiter outside the basic plane is two units, and no unit
    before a quote is equal to its first one. -/
def closeOf (open_ : Char) : Option Char :=
  if open_.toNat < 0x10000 then
    some (if open_ = '[' then ']' else if open_ = '(' then ')'
      else if open_ = '\x7b' then '\x7d' else if open_ = '<' then '>' else open_)
  else none

/-- Behind the q-quoted literal that `c` starts, if it does. -/
def afterQLiteral (c : Char) : Text → Option Text
  | '\'' :: open_ :: s => if c = 'q' ∨ c = 'Q' then some (afterQ (closeOf open_) s) else none
  | _ => none

section

-- The equations of these definitions, made once for the proofs below.
attribute [local simp] afterString afterQ afterQuoted afterQLiteral

end

theorem length_afterBlock (s : Text) : (afterBlock s).length ≤ s.length := by
  induction s with
  | nil => exact Nat.le_refl 0
  | cons c s ih =>
    rw [afterBlock]
    split
    · simp
      omega
    · simp
      omega

theorem length_afterString (s : Text) : (afterString s).length ≤ s.length := by
  fun_induction afterString s <;> grind

theorem length_afterQ (close : Option Char) (s : Text) : (afterQ close s).length ≤ s.length := by
  fun_induction afterQ close s <;> grind

theorem length_afterQuoted (s : Text) : (afterQuoted s).length ≤ s.length := by
  fun_induction afterQuoted s <;> grind

theorem length_afterQLiteral {s r : Text} (h : afterQLiteral c s = some r) :
    r.length < s.length := by
  unfold afterQLiteral at h
  split at h
  · split at h
    · obtain rfl := Option.some.inj h
      exact Nat.lt_succ_of_le (Nat.le_succ_of_le (length_afterQ _ _))
    · cases h
  · cases h

def stripStringsAndComments : Text → Text
  | [] => []
  | c :: s =>
    if c = '-' ∧ s.head? = some '-' then
      ' ' :: stripStringsAndComments (s.dropWhile (· ≠ '\n'))
    else if c = '/' ∧ s.head? = some '*' then ' ' :: stripStringsAndComments (afterBlock s.tail)
    else if c = '\'' then '\'' :: '\'' :: stripStringsAndComments (afterString s)
    else match _h : afterQLiteral c s with
      | some r => '\'' :: '\'' :: stripStringsAndComments r
      | none =>
        if c = '"' then '"' :: '"' :: stripStringsAndComments (afterQuoted s)
        else c :: stripStringsAndComments s
termination_by s => s.length
decreasing_by
  · exact Nat.lt_succ_of_le (dropWhile_sublist _).length_le
  · have := length_afterBlock s.tail
    rw [length_tail] at this
    rw [length_cons]
    omega
  · exact Nat.lt_succ_of_le (length_afterString s)
  · exact Nat.lt_succ_of_lt (length_afterQLiteral _h)
  · exact Nat.lt_succ_of_le (length_afterQuoted s)
  · exact Nat.lt_succ_self _

/-- DML, DDL and transaction control. -/
def statementKeywords : List Text :=
  ["INSERT".toList, "UPDATE".toList, "DELETE".toList, "MERGE".toList, "CREATE".toList,
    "DROP".toList, "ALTER".toList, "TRUNCATE".toList, "RENAME".toList, "GRANT".toList,
    "REVOKE".toList, "EXECUTE".toList, "EXEC".toList, "CALL".toList, "BEGIN".toList,
    "DECLARE".toList, "COMMIT".toList, "ROLLBACK".toList, "UPSERT".toList, "LOCK".toList,
    "SET".toList]

/-- Side-effecting Oracle packages. -/
def sideEffectingPackages : List Text :=
  ["UTL_HTTP".toList, "UTL_TCP".toList, "UTL_SMTP".toList, "UTL_FILE".toList,
    "UTL_INADDR".toList, "DBMS_LOCK".toList, "DBMS_HTTP".toList, "DBMS_LDAP".toList,
    "DBMS_SCHEDULER".toList, "DBMS_AQ".toList, "DBMS_PIPE".toList, "DBMS_FLASHBACK".toList,
    "DBMS_OUTPUT".toList]

def DANGEROUS_KEYWORDS : List Text := statementKeywords ++ sideEffectingPackages

/-- `\b(…|…)\b` with the flag `i`. -/
def DANGEROUS_RE : Pattern :=
  .seq .wordEdge (.seq (.any (DANGEROUS_KEYWORDS.map .wordI)) .wordEdge)

/-- `\bFOR\s+UPDATE\b` with the flag `i`. -/
def FOR_UPDATE_RE : Pattern :=
  .seq (.seq .wordEdge (.seq (.wordI "FOR".toList) .spaces))
    (.seq (.wordI "UPDATE".toList) .wordEdge)

def isReadOnlySql (raw : Text) : Bool :=
  let stripped := trim (collapse (stripStringsAndComments raw))
  let first := toUpperCase (stripped.takeWhile isWordChar)
  if first ≠ "SELECT".toList ∧ first ≠ "WITH".toList then false
  else if DANGEROUS_RE.search stripped then false
  else if FOR_UPDATE_RE.search stripped then false
  else true

/-! ## 2. The stripper, case by case -/

section

-- The equations of these definitions, made once for the proofs below.
attribute [local simp] stripStringsAndComments

end

theorem strip_line (s : Text) : stripStringsAndComments ('-' :: '-' :: s) =
    ' ' :: stripStringsAndComments (s.dropWhile (· ≠ '\n')) := by
  rw [stripStringsAndComments, if_pos ⟨rfl, rfl⟩, dropWhile_cons_of_pos (by decide)]

theorem strip_block (s : Text) : stripStringsAndComments ('/' :: '*' :: s) =
    ' ' :: stripStringsAndComments (afterBlock s) := by
  rw [stripStringsAndComments, if_neg (by simp), if_pos ⟨rfl, rfl⟩]
  rfl

theorem strip_string (s : Text) : stripStringsAndComments ('\'' :: s) =
    '\'' :: '\'' :: stripStringsAndComments (afterString s) := by
  rw [stripStringsAndComments, if_neg (by simp), if_neg (by simp), if_pos rfl]

theorem strip_q (hc : c = 'q' ∨ c = 'Q') (d : Char) (s : Text) :
    stripStringsAndComments (c :: '\'' :: d :: s) =
      '\'' :: '\'' :: stripStringsAndComments (afterQ (closeOf d) s) := by
  have hq : afterQLiteral c ('\'' :: d :: s) = some (afterQ (closeOf d) s) := if_pos hc
  have h1 : c ≠ '-' := by rcases hc with rfl | rfl <;> decide
  have h2 : c ≠ '/' := by rcases hc with rfl | rfl <;> decide
  have h3 : c ≠ '\'' := by rcases hc with rfl | rfl <;> decide
  rw [stripStringsAndComments, if_neg fun h => h1 h.1, if_neg fun h => h2 h.1, if_neg h3]
  split
  · rename_i r hr
    obtain rfl : afterQ (closeOf d) s = r := Option.some.inj (hq.symm.trans hr)
    rfl
  · rename_i hr
    exact absurd (hq.symm.trans hr) nofun

theorem strip_quoted (s : Text) : stripStringsAndComments ('"' :: s) =
    '"' :: '"' :: stripStringsAndComments (afterQuoted s) := by
  have hq : afterQLiteral '"' s = none := by
    unfold afterQLiteral
    split
    · exact if_neg (by decide)
    · rfl
  rw [stripStringsAndComments, if_neg (by simp), if_neg (by simp), if_neg (by decide)]
  split
  · rename_i r hr
    exact absurd (hq.symm.trans hr) nofun
  · rw [if_pos rfl]

/-- Nothing of what the stripper looks for starts here. -/
theorem strip_other {s : Text} (h1 : c = '-' → s.head? ≠ some '-')
    (h2 : c = '/' → s.head? ≠ some '*') (h3 : c ≠ '\'') (h4 : c ≠ '"')
    (h5 : c = 'q' ∨ c = 'Q' → ∀ d r, s ≠ '\'' :: d :: r) :
    stripStringsAndComments (c :: s) = c :: stripStringsAndComments s := by
  have hq : afterQLiteral c s = none := by
    unfold afterQLiteral
    split
    · exact if_neg fun hc => h5 hc _ _ rfl
    · rfl
  rw [stripStringsAndComments, if_neg fun h => h1 h.1 h.2, if_neg fun h => h2 h.1 h.2, if_neg h3]
  split
  · rename_i r hr
    exact absurd (hq.symm.trans hr) nofun
  · rw [if_neg h4]

/-- The words that end in the letter of a q-quoted literal. -/
def endsInQ (w : Text) : Bool := w.getLast? == some 'q' || w.getLast? == some 'Q'

theorem ident_plain (h : isIdentChar c = true) :
    c ≠ '-' ∧ c ≠ '/' ∧ c ≠ '\'' ∧ c ≠ '"' := by
  refine ⟨?_, ?_, ?_, ?_⟩ <;> rintro rfl <;> exact absurd h (by decide)

/-- A word is left as it is, unless it ends in `q` before a quote. -/
theorem strip_word {w s : Text} (hw : ∀ c ∈ w, isIdentChar c = true)
    (hs : endsInQ w = true → ∀ d r, s ≠ '\'' :: d :: r) :
    stripStringsAndComments (w ++ s) = w ++ stripStringsAndComments s := by
  induction w with
  | nil => rfl
  | cons c w ih =>
    obtain ⟨h1, h2, h3, h4⟩ := ident_plain (hw c mem_cons_self)
    have hrest : endsInQ w = true → ∀ d r, s ≠ '\'' :: d :: r := by
      intro hq
      refine hs ?_
      cases w with
      | nil => cases hq
      | cons d w => exact hq
    rw [cons_append, strip_other (fun e => absurd e h1) (fun e => absurd e h2) h3 h4,
      ih (fun d hd => hw d (mem_cons_of_mem _ hd)) hrest]
    · rfl
    · intro hc d r e
      cases w with
      | nil => exact hs (by rcases hc with rfl | rfl <;> rfl) d r e
      | cons x w =>
        obtain ⟨rfl, -⟩ := List.cons.inj e
        exact absurd (hw '\'' (mem_cons_of_mem _ mem_cons_self)) (by decide)

theorem strip_single (c : Char) : (stripStringsAndComments [c]).length ≤ 2 := by
  by_cases h3 : c = '\''
  · subst h3
    rw [strip_string, afterString, stripStringsAndComments]
    exact Nat.le_refl 2
  · by_cases h4 : c = '"'
    · subst h4
      rw [strip_quoted, afterQuoted, stripStringsAndComments]
      exact Nat.le_refl 2
    · rw [strip_other (by simp) (by simp) h3 h4 (by simp), stripStringsAndComments]
      exact Nat.le_succ 1

/-! ## 3. What is left of the tokens -/

/-- What the stripper leaves of a list of tokens. -/
inductive Rendering : List Token → Text → Prop
  /-- The last character of an open literal. -/
  | rest (x : Text) (h : x.length ≤ 2) : Rendering [] x
  | word (w : Text) (ts : List Token) (out : Text) (hne : w ≠ [])
      (hw : ∀ c ∈ w, isIdentChar c = true) (he : EdgeBefore out) (h : Rendering ts out) :
      Rendering (⟨.word, w⟩ :: ts) (w ++ out)
  | symbol (c : Char) (ts : List Token) (out : Text) (hs : isSpace c = false)
      (hw : isWordChar c = false) (h : Rendering ts out) :
      Rendering (⟨.symbol, [c]⟩ :: ts) (c :: out)
  | blank (c : Char) (ts : List Token) (out : Text) (hs : isSpace c = true)
      (h : Rendering ts out) : Rendering (⟨.blank, [c]⟩ :: ts) (c :: out)
  | comment (x : Text) (ts : List Token) (out : Text) (h : Rendering ts out) :
      Rendering (⟨.comment, x⟩ :: ts) (' ' :: out)
  | quoted (x : Text) (ts : List Token) (out : Text) (h : Rendering ts out) :
      Rendering (⟨.quoted, x⟩ :: ts) ('"' :: '"' :: out)
  /-- A literal leaves the letter of its prefix that is not `q`. -/
  | string (x p : Text) (ts : List Token) (out : Text) (hlen : p.length ≤ 2)
      (hp : ∀ c ∈ p, isWordChar c = true) (h : Rendering ts out) :
      Rendering (⟨.string, x⟩ :: ts) (p ++ '\'' :: '\'' :: out)

/-- The delimiter of a q-quoted literal. -/
def qDelimiter (t : Token) : Option Char :=
  let w := t.text.takeWhile (· ≠ '\'')
  if t.kind = .string ∧ isQPrefix w then (t.text.drop (w.length + 1)).head? else none

/-- No word that ends in `q` stands directly before a literal, and no q-quoted literal has a
    delimiter outside the basic plane. -/
structure LiteralsPlain (ts : List Token) : Prop where
  prefixes : ts.IsChain fun t u => t.kind = .word ∧ endsInQ t.text = true → u.kind ≠ .string
  delimiters : ∀ t ∈ ts, (qDelimiter t).all (·.toNat < 0x10000) = true

theorem LiteralsPlain.right {ts us : List Token} (h : LiteralsPlain (ts ++ us)) :
    LiteralsPlain us :=
  ⟨h.prefixes.right_of_append, fun t ht => h.delimiters t (mem_append_right _ ht)⟩

/-- A piece of the stripper's output that starts with a placeholder. -/
def mark (p : Text) (r : Text) : Text := p ++ '\'' :: '\'' :: r

/-- The letters of a prefix that stay. -/
def IsStub (p : Text) : Prop := p.length ≤ 2 ∧ ∀ c ∈ p, isWordChar c = true

/-- What the stripper has yet to write when the tokens have been read so far. -/
inductive Out : Mode → Text → Text → Prop
  | plain (s : Text) : Out .plain s (stripStringsAndComments s)
  | word (acc s : Text) (hne : acc ≠ []) (h : ∀ c ∈ acc, isIdentChar c = true) :
      Out (.word acc) s (stripStringsAndComments (acc ++ s))
  | minus (s : Text) : Out .minus s (stripStringsAndComments ('-' :: s))
  | slash (s : Text) : Out .slash s (stripStringsAndComments ('/' :: s))
  | line (acc s : Text) :
      Out (.line acc) s (' ' :: stripStringsAndComments (s.dropWhile (· ≠ '\n')))
  | block (acc s : Text) : Out (.block acc) s (' ' :: stripStringsAndComments (afterBlock s))
  | blockStar (acc s : Text) :
      Out (.blockStar acc) s (' ' :: stripStringsAndComments (afterBlock ('*' :: s)))
  | single (acc s p : Text) (hp : IsStub p) :
      Out (.single acc) s (mark p (stripStringsAndComments (afterString s)))
  | singleEnd (acc s p : Text) (hp : IsStub p) :
      Out (.singleEnd acc) s (mark p (stripStringsAndComments (afterString ('\'' :: s))))
  | double (acc s : Text) :
      Out (.double acc) s ('"' :: '"' :: stripStringsAndComments (afterQuoted s))
  | qOpen (w s : Text) (hq : isQPrefix w = true) :
      Out (.qOpen (w ++ ['\''])) s (stripStringsAndComments (w ++ '\'' :: s))
  | qBody (d : Char) (acc s p : Text) (hp : IsStub p) :
      Out (.qBody d acc) s (mark p (stripStringsAndComments (afterQ (some d) s)))
  | qEnd (d : Char) (acc s p : Text) (hp : IsStub p) :
      Out (.qEnd d acc) s (mark p (stripStringsAndComments (afterQ (some d) (d :: s))))
  /-- Nothing is left but the last character of an open literal. -/
  | qRest (d : Char) (acc p x : Text) (hp : IsStub p) (hx : x.length ≤ 2) :
      Out (.qBody d acc) [] (mark p x)

theorem isStub_of_all {p : Text} (h : p.length ≤ 2) (hp : p.all isWordChar = true) : IsStub p :=
  ⟨h, all_eq_true.mp hp⟩

theorem isStub_nil : IsStub [] := ⟨Nat.zero_le 2, fun _ h => absurd h not_mem_nil⟩

/-- A word character in upper case is one. -/
theorem isStub_of_map {w v : Text} (h : w.map Char.toUpper = v) (hv : IsStub v) : IsStub w := by
  refine ⟨?_, fun c hc => ?_⟩
  · have hlen : w.length = v.length := by rw [← h, length_map]
    exact hlen ▸ hv.1
  · rw [← Pattern.isWordChar_toUpper]
    exact hv.2 _ (h ▸ mem_map_of_mem hc)

theorem isStub_q {w : Text} (h : isQPrefix w = true) : IsStub w := by
  rcases Bool.or_eq_true_iff.mp h with h | h
  · exact isStub_of_map (beq_iff_eq.mp h) (isStub_of_all (by decide) (by decide))
  · exact isStub_of_map (beq_iff_eq.mp h) (isStub_of_all (by decide) (by decide))

theorem isStub_n {w : Text} (h : isNPrefix w = true) : IsStub w :=
  isStub_of_map (beq_iff_eq.mp h) (isStub_of_all (by decide) (by decide))

/-- The two characters of an upper-case form below the foreign ones. -/
theorem of_toUpper {c u a b : Char} (h : c.toUpper = u) (hu : u.toNat < 128)
    (hall : ∀ n < 128, (Char.ofNat n).toUpper = u → Char.ofNat n = a ∨ Char.ofNat n = b) :
    c = a ∨ c = b := by
  have := hall c.toNat (toUpper_lt.mp (h ▸ hu))
  rw [Char.ofNat_toNat] at this
  exact this h

theorem q_of_toUpper (h : c.toUpper = 'Q') : c = 'q' ∨ c = 'Q' :=
  of_toUpper h (by decide) (by decide)

theorem n_of_toUpper (h : c.toUpper = 'N') : c = 'n' ∨ c = 'N' :=
  of_toUpper h (by decide) (by decide)

/-- The letters of a q-prefix: the `q`, and perhaps an `n` before it. -/
theorem qPrefix_split {w : Text} (h : isQPrefix w = true) :
    ∃ p q, w = p ++ [q] ∧ (q = 'q' ∨ q = 'Q') ∧ IsStub p ∧ endsInQ p = false ∧
      ∀ c ∈ p, isIdentChar c = true := by
  rcases Bool.or_eq_true_iff.mp h with h | h
  · have h : w.map Char.toUpper = ['Q'] := beq_iff_eq.mp h
    obtain ⟨q, rfl, hq⟩ := map_eq_singleton_iff.mp h
    exact ⟨[], q, rfl, q_of_toUpper hq, isStub_nil, rfl, fun _ hc => absurd hc not_mem_nil⟩
  · have h : w.map Char.toUpper = ['N', 'Q'] := beq_iff_eq.mp h
    obtain ⟨n, w, rfl, hn, h⟩ := map_eq_cons_iff.mp h
    obtain ⟨q, rfl, hq⟩ := map_eq_singleton_iff.mp h
    refine ⟨[n], q, rfl, q_of_toUpper hq, isStub_of_map (v := ['N']) (by rw [map_singleton, hn])
      (isStub_of_all (by decide) (by decide)), ?_, fun c hc => ?_⟩
    · rcases n_of_toUpper hn with rfl | rfl <;> rfl
    · rw [mem_singleton.mp hc]
      rcases n_of_toUpper hn with rfl | rfl <;> rfl

/-! ## 4. Token by token -/

/-- The step of the reading: what was to be written is written for the finished tokens. -/
def Goes (m : Mode) (c : Char) (s out : Text) : Prop :=
  ∃ out', Out (m.step c).1 s out' ∧
    ∀ ts, Rendering ts out' → Rendering ((m.step c).2 ++ ts) out

variable {s out : Text}

theorem Goes.here {m n : Mode} (hs : m.step c = (n, []))
    (h : Out n s out) : Goes m c s out :=
  ⟨out, by rw [hs]; exact h, fun ts ht => by rw [hs]; exact ht⟩

variable {m : Mode}

/-- The character ends the open token and is read behind it. -/
theorem Goes.ends {u : List Token}
    (hs : m.step c = (.plain, u))
    (h : ∀ ts, Rendering ts (stripStringsAndComments s) → Rendering (u ++ ts) out) :
    Goes m c s out :=
  ⟨_, by rw [hs]; exact .plain s, fun ts ht => by rw [hs]; exact h ts ht⟩

/-- No word goes on there. -/
theorem not_word (hi : isIdentChar c = false) : isWordChar c = false := by
  by_contra hw
  rw [Bool.not_eq_false, isWordChar, Bool.or_eq_true, beq_iff_eq] at hw
  rcases hw with hw | rfl
  · simp [isIdentChar, hw] at hi
  · exact absurd hi (by decide)

/-- A character no token is open before. -/
theorem goes_fresh (c : Char) (s : Text) : ∃ out', Out (fresh c).1 s out' ∧
    ∀ ts, Rendering ts out' → Rendering ((fresh c).2 ++ ts) (stripStringsAndComments (c :: s)) := by
  by_cases hs : isSpace c = true
  · have hf := fresh_space hs
    have hne : ∀ d : Char, isSpace d = false → c ≠ d := fun d hd e => by
      rw [e, hd] at hs
      cases hs
    refine ⟨_, by rw [hf]; exact .plain s, fun ts ht => ?_⟩
    rw [hf, strip_other (fun e => absurd e (hne _ (by decide)))
      (fun e => absurd e (hne _ (by decide))) (hne _ (by decide)) (hne _ (by decide))
      (fun e => (e.elim (hne _ (by decide)) (hne _ (by decide))).elim)]
    exact .blank c ts _ hs ht
  · have hs : isSpace c = false := by simpa using hs
    by_cases h1 : c = '-'
    · subst h1
      exact ⟨_, .minus s, fun ts ht => ht⟩
    by_cases h2 : c = '/'
    · subst h2
      exact ⟨_, .slash s, fun ts ht => ht⟩
    by_cases h3 : c = '\''
    · subst h3
      exact ⟨_, .single ['\''] s [] isStub_nil, fun ts ht => by rw [strip_string]; exact ht⟩
    by_cases h4 : c = '"'
    · subst h4
      exact ⟨_, .double ['"'] s, fun ts ht => by rw [strip_quoted]; exact ht⟩
    by_cases hi : isIdentChar c = true
    · have hf := fresh_ident hi
      exact ⟨_, by rw [hf]; exact .word [c] s (cons_ne_nil _ _) (by simpa using hi),
        fun ts ht => by rw [hf]; exact ht⟩
    · have hf : fresh c = (.plain, [⟨.symbol, [c]⟩]) := by
        simp [fresh, hs, h1, h2, h3, h4, hi]
      refine ⟨_, by rw [hf]; exact .plain s, fun ts ht => ?_⟩
      rw [hf, strip_other (fun e => absurd e h1) (fun e => absurd e h2) h3 h4
        (fun e => absurd (by rcases e with rfl | rfl <;> decide) hi)]
      exact .symbol c ts _ hs (not_word (by simpa using hi)) ht

/-- Where no word goes on, an edge is what the stripper writes next. -/
theorem edgeBefore_strip (hi : isIdentChar c = false) (s : Text) :
    EdgeBefore (stripStringsAndComments (c :: s)) := by
  by_cases h1 : c = '-' ∧ s.head? = some '-'
  · obtain ⟨rfl, h1⟩ := h1
    obtain ⟨s, rfl⟩ := List.head?_eq_some_iff.mp h1
    rw [strip_line]
    exact edgeBefore_cons (by decide) _
  by_cases h2 : c = '/' ∧ s.head? = some '*'
  · obtain ⟨rfl, h2⟩ := h2
    obtain ⟨s, rfl⟩ := List.head?_eq_some_iff.mp h2
    rw [strip_block]
    exact edgeBefore_cons (by decide) _
  by_cases h3 : c = '\''
  · subst h3
    rw [strip_string]
    exact edgeBefore_cons (by decide) _
  by_cases h4 : c = '"'
  · subst h4
    rw [strip_quoted]
    exact edgeBefore_cons (by decide) _
  rw [strip_other (fun e h => h1 ⟨e, h⟩) (fun e h => h2 ⟨e, h⟩) h3 h4
    (fun e => absurd hi (by rcases e with rfl | rfl <;> decide))]
  exact edgeBefore_cons (not_word hi) _

theorem afterBlock_cons {s : Text} (h : ¬ (c = '*' ∧ s.head? = some '/')) :
    afterBlock (c :: s) = afterBlock s := if_neg h

theorem afterString_cons (h : c ≠ '\'') (s : Text) :
    afterString (c :: s) = afterString s := by
  cases s with
  | nil =>
    rw [afterString.eq_def]
    split <;> simp_all
  | cons d s =>
    conv_lhs => rw [afterString.eq_def]
    split <;> simp_all

theorem afterString_end (h : c ≠ '\'') (s : Text) :
    afterString ('\'' :: c :: s) = c :: s := by
  have hne : ∀ r, c :: s = '\'' :: r → False := fun r e => h (List.cons.inj e).1
  rw [afterString]
  exact hne

/-- A character inside a q-quoted literal that does not end it. -/
theorem out_qBody {d c : Char} {s p : Text} (acc : Text) (hp : IsStub p)
    (h : ¬ (c = d ∧ s.head? = some '\'')) :
    Out (.qBody d acc) s (mark p (stripStringsAndComments (afterQ (some d) (c :: s)))) := by
  cases s with
  | nil => exact .qRest d acc p _ hp (strip_single c)
  | cons e s =>
    have hcut : afterQ (some d) (c :: e :: s) = afterQ (some d) (e :: s) := by
      rw [afterQ, if_neg]
      rintro ⟨h1, h2⟩
      exact h ⟨Option.some.inj h1, congrArg some h2⟩
    rw [hcut]
    exact .qBody d acc _ p hp

theorem closeOf_eq {d : Char} (h : d.toNat < 0x10000) : closeOf d = some (closerOf d) := by
  rw [closeOf, if_pos h, closerOf]
  by_cases h1 : d = '['
  · rw [if_pos h1, if_pos h1]
  · by_cases h2 : d = '<'
    · subst h2
      rfl
    · rw [if_neg h1, if_neg h1, if_neg h2, if_neg h2]

/-- The token of an open q-quoted literal has its delimiter. -/
theorem qDelimiter_of {w r : Text} (hq : isQPrefix w = true) :
    qDelimiter ⟨.string, w ++ '\'' :: c :: r⟩ = some c := by
  have hcut : (w ++ '\'' :: c :: r).takeWhile (· ≠ '\'') = w := takeWhile_quote (quote_notMem_q hq) _
  rw [qDelimiter]
  simp only [hcut, hq, and_self, if_true]
  rw [append_cons, drop_left' (by simp)]
  rfl

/-- The character ends the open token and is read as one that no token is open before. -/
theorem Goes.closes {t : Token}
    (hs : m.step c = ((fresh c).1, t :: (fresh c).2))
    (h : ∀ ts, Rendering ts (stripStringsAndComments (c :: s)) → Rendering (t :: ts) out) :
    Goes m c s out := by
  obtain ⟨out', ho, hr⟩ := goes_fresh c s
  exact ⟨out', by rw [hs]; exact ho, fun ts ht => by rw [hs]; exact h _ (hr ts ht)⟩

theorem Out.goes (h : Out m (c :: s) out)
    (hl : LiteralsPlain (lexFrom m (c :: s))) : Goes m c s out := by
  cases h with
  | plain => exact goes_fresh c s
  | word acc _ hne hacc =>
    by_cases hi : isIdentChar c = true
    · have hstep : (Mode.word acc).step c = (.word (acc ++ [c]), []) := by rw [Mode.step, if_pos hi]
      refine Goes.here hstep ?_
      rw [append_cons acc c s]
      refine .word (acc ++ [c]) s (by simp) fun d hd => ?_
      rcases mem_append.mp hd with hd | hd
      · exact hacc d hd
      · rwa [mem_singleton.mp hd]
    by_cases hq : c = '\'' ∧ isQPrefix acc = true
    · have hstep : (Mode.word acc).step c = (.qOpen (acc ++ [c]), []) := by
        rw [Mode.step, if_neg hi, if_pos hq]
      refine Goes.here hstep ?_
      rw [hq.1]
      exact .qOpen acc s hq.2
    by_cases hn : c = '\'' ∧ isNPrefix acc = true
    · have hstep : (Mode.word acc).step c = (.single (acc ++ [c]), []) := by
        rw [Mode.step, if_neg hi, if_neg hq, if_pos hn]
      refine Goes.here hstep ?_
      have hkeep : stripStringsAndComments (acc ++ c :: s) =
          mark acc (stripStringsAndComments (afterString s)) := by
        rw [strip_word hacc, hn.1, strip_string]
        · rfl
        · intro hend
          obtain ⟨n, rfl, hup⟩ := map_eq_singleton_iff.mp (beq_iff_eq.mp hn.2)
          rcases n_of_toUpper hup with rfl | rfl <;> exact absurd hend (by decide)
      rw [hkeep]
      exact .single _ s acc (isStub_n hn.2)
    · have hstep : (Mode.word acc).step c = (Mode.word acc).close c := by
        rw [Mode.step, if_neg hi, if_neg hq, if_neg hn]
      rw [lexFrom_cons, hstep] at hl
      have hi : isIdentChar c = false := by simpa using hi
      have hend : endsInQ acc = true → ∀ d r, c :: s ≠ '\'' :: d :: r := by
        intro hend d r e
        obtain ⟨rfl, rfl⟩ := List.cons.inj e
        obtain ⟨t, ts, x, ht, hk, -⟩ := lexFrom_first (m := .single ['\'']) (.inl rfl) (d :: r)
        have hchain : LiteralsPlain (⟨.word, acc⟩ :: t :: ts) := by
          rw [← ht]
          exact hl
        exact (isChain_cons_cons.mp hchain.prefixes).1 ⟨rfl, hend⟩ hk
      refine .closes hstep fun ts ht => ?_
      rw [strip_word hacc hend]
      exact .word acc _ _ hne hacc (edgeBefore_strip hi s) ht
  | minus =>
    by_cases h : c = '-'
    · subst h
      refine Goes.here (n := .line ['-', '-']) rfl ?_
      rw [strip_line]
      exact .line _ s
    · have hcut : stripStringsAndComments ('-' :: c :: s) = '-' :: stripStringsAndComments (c :: s) :=
        strip_other (fun _ e => h (Option.some.inj e)) (by simp) (by simp) (by simp) (by simp)
      refine .closes (if_neg h) fun ts ht => ?_
      rw [hcut]
      exact .symbol '-' _ _ (by decide) (by decide) ht
  | slash =>
    by_cases h : c = '*'
    · subst h
      refine Goes.here (n := .block ['/', '*']) rfl ?_
      rw [strip_block]
      exact .block _ s
    · have hcut : stripStringsAndComments ('/' :: c :: s) = '/' :: stripStringsAndComments (c :: s) :=
        strip_other (by simp) (fun _ e => h (Option.some.inj e)) (by simp) (by simp) (by simp)
      refine .closes (if_neg h) fun ts ht => ?_
      rw [hcut]
      exact .symbol '/' _ _ (by decide) (by decide) ht
  | line acc =>
    by_cases h : c = '\n'
    · subst h
      refine .ends (u := [⟨.comment, acc⟩, ⟨.blank, ['\n']⟩]) rfl fun ts ht => ?_
      rw [dropWhile_cons_of_neg (by decide),
        strip_other (by simp) (by simp) (by simp) (by simp) (by simp)]
      exact .comment acc _ _ (.blank '\n' ts _ (by decide) ht)
    · refine Goes.here (n := .line (acc ++ [c])) (if_neg h) ?_
      rw [dropWhile_cons_of_pos (by simpa using h)]
      exact .line _ s
  | block acc =>
    by_cases h : c = '*'
    · subst h
      exact Goes.here (n := .blockStar (acc ++ ['*'])) rfl (.blockStar _ s)
    · refine Goes.here (n := .block (acc ++ [c])) (if_neg h) ?_
      rw [afterBlock_cons fun e => h e.1]
      exact .block _ s
  | blockStar acc =>
    by_cases h : c = '/'
    · subst h
      exact .ends rfl fun ts ht => .comment _ ts _ ht
    · rw [afterBlock_cons (c := '*') (s := c :: s) fun e => h (Option.some.inj e.2)]
      by_cases h' : c = '*'
      · subst h'
        exact Goes.here (n := .blockStar (acc ++ ['*'])) rfl (.blockStar _ s)
      · refine Goes.here (n := .block (acc ++ [c])) (by rw [Mode.step, if_neg h, if_neg h']) ?_
        rw [afterBlock_cons fun e => h' e.1]
        exact .block _ s
  | single acc _ p hp =>
    by_cases h : c = '\''
    · subst h
      exact Goes.here (n := .singleEnd (acc ++ ['\''])) rfl (.singleEnd _ s p hp)
    · refine Goes.here (n := .single (acc ++ [c])) (if_neg h) ?_
      rw [afterString_cons h]
      exact .single _ s p hp
  | singleEnd acc _ p hp =>
    by_cases h : c = '\''
    · subst h
      exact Goes.here (n := .single (acc ++ ['\''])) rfl (.single _ s p hp)
    · refine .closes (if_neg h) fun ts ht => ?_
      rw [afterString_end h]
      exact .string acc p _ _ hp.1 hp.2 ht
  | double acc =>
    by_cases h : c = '"'
    · subst h
      refine .ends rfl fun ts ht => ?_
      rw [afterQuoted, if_pos rfl]
      exact .quoted _ ts _ ht
    · refine Goes.here (n := .double (acc ++ [c])) (if_neg h) ?_
      rw [afterQuoted, if_neg h]
      exact .double _ s
  | qOpen w _ hq =>
    refine Goes.here (n := .qBody (closerOf c) (w ++ ['\''] ++ [c])) rfl ?_
    rw [lexFrom_cons] at hl
    obtain ⟨t, ts, r, ht, hk, hx⟩ :=
      lexFrom_first (m := .qBody (closerOf c) (w ++ ['\''] ++ [c])) (.inl rfl) s
    have hd : c.toNat < 0x10000 := by
      have hall := LiteralsPlain.delimiters hl t ?_
      · have e : t = ⟨.string, w ++ '\'' :: c :: r⟩ := by
          obtain ⟨k, x⟩ := t
          obtain rfl : k = .string := hk
          obtain rfl : x = w ++ ['\''] ++ [c] ++ r := hx
          simp
        rw [e, qDelimiter_of hq] at hall
        exact of_decide_eq_true hall
      · show t ∈ lexFrom (.qBody (closerOf c) (w ++ ['\''] ++ [c])) s
        rw [ht]
        exact mem_cons_self
    obtain ⟨p, q, rfl, hqq, hp, hpq, hident⟩ := qPrefix_split hq
    have hcut : stripStringsAndComments (p ++ [q] ++ '\'' :: c :: s) =
        mark p (stripStringsAndComments (afterQ (some (closerOf c)) s)) := by
      rw [append_assoc, singleton_append, strip_word hident, strip_q hqq, closeOf_eq hd]
      · rfl
      · intro h
        rw [hpq] at h
        cases h
    rw [hcut]
    exact .qBody _ _ s p hp
  | qBody d acc _ p hp =>
    by_cases h : c = d
    · subst h
      exact Goes.here (n := .qEnd c (acc ++ [c])) (if_pos rfl) (.qEnd c _ s p hp)
    · exact Goes.here (n := .qBody d (acc ++ [c])) (if_neg h) (out_qBody _ hp fun e => h e.1)
  | qEnd d acc _ p hp =>
    by_cases h : c = '\''
    · subst h
      refine .ends rfl fun ts ht => ?_
      rw [afterQ, if_pos ⟨rfl, rfl⟩]
      exact .string _ p ts _ hp.1 hp.2 ht
    · have hcut : afterQ (some d) (d :: c :: s) = afterQ (some d) (c :: s) := by
        rw [afterQ, if_neg fun e => h e.2]
      rw [hcut]
      by_cases h' : c = d
      · subst h'
        refine Goes.here (n := .qEnd c (acc ++ [c])) ?_ (.qEnd c _ s p hp)
        rw [Mode.step, if_neg h, if_pos rfl]
      · refine Goes.here (n := .qBody d (acc ++ [c])) ?_ (out_qBody _ hp fun e => h' e.1)
        rw [Mode.step, if_neg h, if_neg h']

/-- **At the end of the text.** -/
theorem Out.ends {out : Text} (h : Out m [] out) : Rendering m.flush out := by
  have hend : Rendering [] (stripStringsAndComments []) := by
    rw [stripStringsAndComments]
    exact .rest [] (Nat.zero_le 2)
  cases h with
  | plain => exact hend
  | word acc _ hne hacc =>
    rw [strip_word hacc (s := []) (by simp)]
    refine .word acc [] _ hne hacc ?_ hend
    rw [stripStringsAndComments]
    exact edgeBefore_nil
  | minus =>
    have hcut : stripStringsAndComments ['-'] = '-' :: stripStringsAndComments [] :=
      strip_other (by simp) (by simp) (by simp) (by simp) (by simp)
    rw [hcut]
    exact .symbol '-' [] _ (by decide) (by decide) hend
  | slash =>
    have hcut : stripStringsAndComments ['/'] = '/' :: stripStringsAndComments [] :=
      strip_other (by simp) (by simp) (by simp) (by simp) (by simp)
    rw [hcut]
    exact .symbol '/' [] _ (by decide) (by decide) hend
  | line acc => exact .comment acc [] _ hend
  | block acc => exact .comment acc [] _ hend
  | blockStar acc =>
    rw [afterBlock_cons (c := '*') (s := []) (by simp)]
    exact .comment acc [] _ hend
  | single acc _ p hp => exact .string acc p [] _ hp.1 hp.2 hend
  | singleEnd acc _ p hp =>
    have hcut : afterString ['\''] = [] := rfl
    rw [hcut]
    exact .string acc p [] _ hp.1 hp.2 hend
  | double acc => exact .quoted acc [] _ hend
  | qOpen w _ hq =>
    obtain ⟨p, q, rfl, hqq, hp, hpq, hident⟩ := qPrefix_split hq
    have hall : ∀ c ∈ p ++ [q], isIdentChar c = true := by
      intro c hc
      rcases mem_append.mp hc with hc | hc
      · exact hident c hc
      · rw [mem_singleton.mp hc]
        rcases hqq with rfl | rfl <;> decide
    rw [strip_word hall (s := ['\'']) (by simp), strip_string]
    exact .string _ _ [] _ (isStub_q hq).1 (isStub_q hq).2 hend
  | qBody d acc _ p hp => exact .string acc p [] _ hp.1 hp.2 hend
  | qEnd d acc _ p hp =>
    exact .string acc p [] _ hp.1 hp.2 (.rest _ (strip_single d))
  | qRest d acc p x hp hx => exact .string acc p [] _ hp.1 hp.2 (.rest x hx)

theorem rendering_lexFrom (h : Out m s out)
    (hl : LiteralsPlain (lexFrom m s)) : Rendering (lexFrom m s) out := by
  induction s generalizing m out with
  | nil => exact h.ends
  | cons c s ih =>
    obtain ⟨out', ho, hr⟩ := h.goes hl
    rw [lexFrom_cons] at hl ⊢
    exact hr _ (ih ho hl.right)

variable {sql : Text}

/-- **What the stripper leaves of a text.** -/
theorem rendering_lex (hl : LiteralsPlain (lex sql)) :
    Rendering (lex sql) (stripStringsAndComments sql) := rendering_lexFrom (.plain sql) hl

/-! ## 5. Its words -/

theorem length_of_mem_runs {s r : Text} (h : r ∈ runs s) : r.length ≤ s.length := by
  obtain ⟨-, -, a, b, rfl, -, -⟩ := mem_runs.mp h
  simp
  omega

/-- **A run of what is left is a run of a word, or short.** -/
theorem Rendering.mem_runs {ts : List Token} {out r : Text} (h : Rendering ts out)
    (hr : r ∈ runs out) : r.length ≤ 2 ∨ ∃ t ∈ ts, t.kind = .word ∧ r ∈ runs t.text := by
  have hlater : ∀ (t : Token) (ts : List Token),
      (r.length ≤ 2 ∨ ∃ t ∈ ts, t.kind = .word ∧ r ∈ runs t.text) →
      r.length ≤ 2 ∨ ∃ u ∈ t :: ts, u.kind = .word ∧ r ∈ runs u.text := by
    rintro t ts (h | ⟨u, hu, h⟩)
    · exact Or.inl h
    · exact Or.inr ⟨u, mem_cons_of_mem _ hu, h⟩
  have hquote : isWordChar '\'' = false := by decide
  induction h with
  | rest x hx => exact Or.inl ((length_of_mem_runs hr).trans hx)
  | word w ts out hne hw he h ih =>
    rw [runs_append (Or.inr he)] at hr
    rcases mem_append.mp hr with hr | hr
    · exact Or.inr ⟨_, mem_cons_self, rfl, hr⟩
    · exact hlater _ _ (ih hr)
  | symbol c ts out hs hw h ih =>
    rw [runs_cons_edge hw] at hr
    exact hlater _ _ (ih hr)
  | blank c ts out hs h ih =>
    rw [runs_cons_edge (isWordChar_of_space hs)] at hr
    exact hlater _ _ (ih hr)
  | comment x ts out h ih =>
    rw [runs_cons_edge (by decide)] at hr
    exact hlater _ _ (ih hr)
  | quoted x ts out h ih =>
    rw [runs_cons_edge (by decide), runs_cons_edge (by decide)] at hr
    exact hlater _ _ (ih hr)
  | string x p ts out hlen hp h ih =>
    rw [runs_append (Or.inr (edgeBefore_cons hquote _)), runs_cons_edge hquote,
      runs_cons_edge hquote] at hr
    rcases mem_append.mp hr with hr | hr
    · exact Or.inl ((length_of_mem_runs hr).trans hlen)
    · exact hlater _ _ (ih hr)

/-- The runs of the words are all left. -/
theorem Rendering.keeps {ts : List Token} {out r : Text} (h : Rendering ts out) {t : Token}
    (ht : t ∈ ts) (hk : t.kind = .word) (hr : r ∈ runs t.text) : r ∈ runs out := by
  have hquote : isWordChar '\'' = false := by decide
  induction h with
  | rest x hx => cases ht
  | word w ts out hne hw he h ih =>
    rw [runs_append (Or.inr he)]
    rcases mem_cons.mp ht with rfl | ht
    · exact mem_append_left _ hr
    · exact mem_append_right _ (ih ht)
  | symbol c ts out hs hw h ih =>
    rw [runs_cons_edge hw]
    rcases mem_cons.mp ht with rfl | ht
    · cases hk
    · exact ih ht
  | blank c ts out hs h ih =>
    rw [runs_cons_edge (isWordChar_of_space hs)]
    rcases mem_cons.mp ht with rfl | ht
    · cases hk
    · exact ih ht
  | comment x ts out h ih =>
    rw [runs_cons_edge (by decide)]
    rcases mem_cons.mp ht with rfl | ht
    · cases hk
    · exact ih ht
  | quoted x ts out h ih =>
    rw [runs_cons_edge (by decide), runs_cons_edge (by decide)]
    rcases mem_cons.mp ht with rfl | ht
    · cases hk
    · exact ih ht
  | string x p ts out hlen hp h ih =>
    rw [runs_append (Or.inr (edgeBefore_cons hquote _)), runs_cons_edge hquote,
      runs_cons_edge hquote]
    rcases mem_cons.mp ht with rfl | ht
    · cases hk
    · exact mem_append_right _ (ih ht)

theorem length_lead_le (s : Text) : (lead s).length ≤ s.length :=
  ((takeWhile_sublist _).trans (dropWhile_sublist _)).length_le

/-- **The run at the start is the first token's, if that is a word, and short if it is not.** -/
theorem Rendering.lead {ts : List Token} {out : Text} (h : Rendering ts out) :
    (∃ w us, ts.filter Token.isSignificant = ⟨.word, w⟩ :: us ∧
      lead out = w.takeWhile isWordChar) ∨
    ((∀ t us, ts.filter Token.isSignificant = t :: us → t.kind ≠ .word) ∧
      (lead out).length ≤ 2) := by
  have hquote : isWordChar '\'' = false := by decide
  have hspace : isSpace '\'' = false := by decide
  induction h with
  | rest x hx => exact Or.inr ⟨fun _ _ e => absurd e nofun, (length_lead_le x).trans hx⟩
  | word w ts out hne hw he h ih =>
    obtain ⟨c, w, rfl⟩ := exists_cons_of_ne_nil hne
    refine Or.inl ⟨c :: w, _, filter_cons_of_pos rfl, ?_⟩
    exact lead_append (isIdentChar_not_space (hw c mem_cons_self)) he
  | symbol c ts out hs hw h ih =>
    refine Or.inr ⟨fun t us e => ?_, ?_⟩
    · rw [filter_cons_of_pos (by rfl)] at e
      obtain ⟨rfl, -⟩ := List.cons.inj e
      exact nofun
    · rw [lead_edge hs hw]
      exact Nat.zero_le 2
  | blank c ts out hs h ih =>
    have hskip : Veesker.lead (c :: out) = Veesker.lead out :=
      lead_space (d := [c]) (fun d hd => by rwa [mem_singleton.mp hd]) out
    rw [hskip, filter_cons_of_neg Bool.false_ne_true]
    exact ih
  | comment x ts out h ih =>
    have hskip : Veesker.lead (' ' :: out) = Veesker.lead out :=
      lead_space (d := [' ']) (fun d hd => by rw [mem_singleton.mp hd]; decide) out
    rw [hskip, filter_cons_of_neg Bool.false_ne_true]
    exact ih
  | quoted x ts out h ih =>
    refine Or.inr ⟨fun t us e => ?_, ?_⟩
    · rw [filter_cons_of_pos (by rfl)] at e
      obtain ⟨rfl, -⟩ := List.cons.inj e
      exact nofun
    · rw [lead_edge (by decide) (by decide)]
      exact Nat.zero_le 2
  | string x p ts out hlen hp h ih =>
    refine Or.inr ⟨fun t us e => ?_, ?_⟩
    · rw [filter_cons_of_pos (by rfl)] at e
      obtain ⟨rfl, -⟩ := List.cons.inj e
      exact nofun
    · cases p with
      | nil =>
        rw [nil_append, lead_edge hspace hquote]
        exact Nat.zero_le 2
      | cons c p =>
        have hs : isSpace c = false := by
          by_contra hs
          rw [Bool.not_eq_false] at hs
          have := hp c mem_cons_self
          rw [isWordChar_of_space hs] at this
          cases this
        rw [lead_append hs (edgeBefore_cons hquote _)]
        exact (takeWhile_sublist _).length_le.trans hlen

/-! ## 6. The answer -/

theorem areWords_dangerous : Pattern.AreWords DANGEROUS_KEYWORDS := by
  have h : DANGEROUS_KEYWORDS.all (fun w => !w.isEmpty && w.all isWordChar) = true := by
    decide
  intro w hw
  have hw := all_eq_true.mp h w hw
  rw [Bool.and_eq_true, Bool.not_eq_true', isEmpty_eq_false_iff] at hw
  exact ⟨hw.1, all_eq_true.mp hw.2⟩

theorem length_dangerous {w : Text} (h : w ∈ DANGEROUS_KEYWORDS) : 2 < w.length := by
  have hall : ∀ w ∈ DANGEROUS_KEYWORDS, 2 < w.length := by decide
  exact hall w h

theorem update_dangerous : "UPDATE".toList ∈ DANGEROUS_KEYWORDS := by decide

/-- Where the words FOR UPDATE are found, a dangerous word is found. -/
theorem dangerous_of_forUpdate {s : Text} (h : FOR_UPDATE_RE.search s = true) :
    ∃ r ∈ runs s, r.map Char.toUpper ∈ DANGEROUS_KEYWORDS := by
  obtain ⟨hne, hw⟩ := areWords_dangerous _ update_dangerous
  have hspaces : ∀ k m, m ∈ (Pattern.seq .wordEdge (.seq (.wordI "FOR".toList) .spaces)).ends k →
      (∃ d, k.rest = d ++ m.rest ∧ m.prev = (d.getLast?).or k.prev) ∧
        Pattern.isWordAt m.prev = false := by
    intro k m hm
    obtain ⟨l, hl, hfor⟩ := Pattern.mem_ends_seq.mp hm
    obtain rfl : l = k := (Pattern.mem_ends_wordEdge.mp hl).1
    obtain ⟨n, hn, hsp⟩ := Pattern.mem_ends_seq.mp hfor
    obtain ⟨v, h1, -, h2⟩ := Pattern.mem_ends_wordI_iff.mp hn
    obtain ⟨d, h3, h4, h5⟩ := Pattern.mem_ends_spaces hsp
    refine ⟨⟨v ++ d, by rw [h1, h3, append_assoc], ?_⟩, h5⟩
    rw [h4, h2, List.getLast?_append, Option.or_assoc]
  obtain ⟨r, hr, hup⟩ := Pattern.search_last hne hw hspaces h
  exact ⟨r, hr, hup ▸ update_dangerous⟩

theorem isReadOnlySql_iff_runs (sql : Text) : isReadOnlySql sql = true ↔
    (lead (stripStringsAndComments sql)).map Char.toUpper ∈ ["SELECT".toList, "WITH".toList] ∧
      ∀ r ∈ runs (stripStringsAndComments sql), r.map Char.toUpper ∉ DANGEROUS_KEYWORDS := by
  have hfirst : toUpperCase ((trim (collapse (stripStringsAndComments sql))).takeWhile isWordChar) =
      (lead (stripStringsAndComments sql)).map Char.toUpper := by
    rw [takeWhile_trim_collapse]
    refine toUpperCase_ascii fun c hc => ?_
    have hc : c.isAlphanum = true ∨ c = '_' := by
      have := mem_takeWhile_imp hc
      rwa [isWordChar, Bool.or_eq_true, beq_iff_eq] at this
    rcases hc with hc | rfl
    · exact isAlphanum_ascii hc
    · decide
  have hruns : runs (trim (collapse (stripStringsAndComments sql))) =
      runs (stripStringsAndComments sql) := by rw [runs_trim, runs_collapse]
  have hdanger : DANGEROUS_RE.search (trim (collapse (stripStringsAndComments sql))) = true ↔
      ∃ r ∈ runs (stripStringsAndComments sql), r.map Char.toUpper ∈ DANGEROUS_KEYWORDS := by
    rw [← hruns]
    exact Pattern.search_words areWords_dangerous _
  unfold isReadOnlySql
  simp only [hfirst]
  by_cases hf : (lead (stripStringsAndComments sql)).map Char.toUpper ∈
      ["SELECT".toList, "WITH".toList]
  · have hf' : ¬ ((lead (stripStringsAndComments sql)).map Char.toUpper ≠ "SELECT".toList ∧
        (lead (stripStringsAndComments sql)).map Char.toUpper ≠ "WITH".toList) := by
      rintro ⟨h1, h2⟩
      rcases mem_cons.mp hf with hf | hf
      · exact h1 hf
      · exact h2 (mem_singleton.mp hf)
    rw [if_neg hf']
    by_cases hd : DANGEROUS_RE.search (trim (collapse (stripStringsAndComments sql))) = true
    · rw [if_pos hd]
      obtain ⟨r, hr, hmem⟩ := hdanger.mp hd
      exact iff_of_false Bool.false_ne_true fun h => h.2 r hr hmem
    · have hu : ¬ FOR_UPDATE_RE.search (trim (collapse (stripStringsAndComments sql))) = true := by
        intro hu
        obtain ⟨r, hr, hmem⟩ := dangerous_of_forUpdate hu
        exact hd (hdanger.mpr ⟨r, hruns ▸ hr, hmem⟩)
      rw [if_neg hd, if_neg hu]
      exact iff_of_true rfl ⟨hf, fun r hr hmem => hd (hdanger.mpr ⟨r, hr, hmem⟩)⟩
  · have hf' : (lead (stripStringsAndComments sql)).map Char.toUpper ≠ "SELECT".toList ∧
        (lead (stripStringsAndComments sql)).map Char.toUpper ≠ "WITH".toList :=
      ⟨fun e => hf (e ▸ mem_cons_self),
        fun e => hf (mem_cons_of_mem _ (e ▸ mem_cons_self))⟩
    rw [if_pos hf']
    exact iff_of_false Bool.false_ne_true fun h => hf h.1

/-- The first token is the word SELECT or the word WITH. -/
def StartsAsQuery (sql : Text) : Prop :=
  StartsWith "SELECT".toList sql ∨ StartsWith "WITH".toList sql

/-- The words FOR UPDATE, one behind the other. -/
def ForUpdate (sql : Text) : Prop := ∃ ts t u us, tokens sql = ts ++ t :: u :: us ∧
  t.keyword = "FOR".toList ∧ u.keyword = "UPDATE".toList

/-- The name of an identifier, as Oracle looks it up. -/
def identifier (t : Token) : Option Text :=
  match t.kind with
  | .word => some (t.text.map Char.toUpper)
  | .quoted => some (t.text.tail.takeWhile (· ≠ '"'))
  | _ => none

/-- A text without what misleads the stripper or the word edges. -/
structure Ordinary (sql : Text) : Prop where
  literals : LiteralsPlain (lex sql)
  /-- The pieces of a word, cut at `$`, `#` and foreign letters, are no dangerous words. -/
  pieces : ∀ t ∈ lex sql, t.kind = .word →
    ∀ r ∈ runs t.text, r.map Char.toUpper ∈ DANGEROUS_KEYWORDS → r = t.text
  /-- Nor is the first token only at its start SELECT or WITH. -/
  first : ∀ t ∈ (tokens sql).head?, t.kind = .word →
    (t.text.takeWhile isWordChar).map Char.toUpper ∈ ["SELECT".toList, "WITH".toList] →
    t.text.takeWhile isWordChar = t.text

theorem mem_lex_of_tokens {t : Token} (h : t ∈ tokens sql) : t ∈ lex sql :=
  mem_of_mem_filter h

theorem mem_tokens_of_word {t : Token} (h : t ∈ lex sql) (hk : t.kind = .word) :
    t ∈ tokens sql := mem_filter.mpr ⟨h, by simp [Token.isSignificant, hk]⟩

/-- **Dangerous runs are dangerous words.** -/
theorem dangerous_iff (h : Ordinary sql) :
    (∃ r ∈ runs (stripStringsAndComments sql), r.map Char.toUpper ∈ DANGEROUS_KEYWORDS) ↔
      ∃ t ∈ tokens sql, t.keyword ∈ DANGEROUS_KEYWORDS := by
  have hr := rendering_lex h.literals
  constructor
  · rintro ⟨r, hmem, hd⟩
    rcases hr.mem_runs hmem with hshort | ⟨t, ht, hk, hrt⟩
    · have := length_dangerous hd
      rw [length_map] at this
      omega
    · refine ⟨t, mem_tokens_of_word ht hk, ?_⟩
      rw [Token.keyword, if_pos hk, ← h.pieces t ht hk r hrt hd]
      exact hd
  · rintro ⟨t, ht, hd⟩
    obtain ⟨hne, hword⟩ := areWords_dangerous _ hd
    by_cases hk : t.kind = .word
    · rw [Token.keyword, if_pos hk] at hd hne hword
      refine ⟨t.text, hr.keeps (mem_lex_of_tokens ht) hk ?_, hd⟩
      rw [runs_word (fun e => hne (by rw [e]; rfl)) fun c hc => ?_]
      · exact mem_singleton.mpr rfl
      · rw [← Pattern.isWordChar_toUpper]
        exact hword _ (mem_map_of_mem hc)
    · rw [Token.keyword, if_neg hk] at hne
      exact absurd rfl hne

theorem startsWith_iff_head {kw : Text} (sql : Text) :
    StartsWith kw sql ↔ ∃ t us, tokens sql = t :: us ∧ t.keyword = kw := by
  unfold StartsWith
  cases h : tokens sql with
  | nil => simp
  | cons t us => simp

/-- **The first run is the first token.** -/
theorem lead_iff (h : Ordinary sql) :
    (lead (stripStringsAndComments sql)).map Char.toUpper ∈ ["SELECT".toList, "WITH".toList] ↔
      StartsAsQuery sql := by
  have hmem : ∀ v : Text, v ∈ ["SELECT".toList, "WITH".toList] → 2 < v.length ∧
      v ≠ [] ∧ v.all isWordChar = true := by decide
  have hsplit : StartsAsQuery sql ↔
      ∃ t us, tokens sql = t :: us ∧ t.keyword ∈ ["SELECT".toList, "WITH".toList] := by
    unfold StartsAsQuery
    rw [startsWith_iff_head, startsWith_iff_head]
    constructor
    · rintro (⟨t, us, e, hk⟩ | ⟨t, us, e, hk⟩)
      · exact ⟨t, us, e, by rw [hk]; exact mem_cons_self⟩
      · exact ⟨t, us, e, by rw [hk]; exact mem_cons_of_mem _ mem_cons_self⟩
    · rintro ⟨t, us, e, hk⟩
      rcases mem_cons.mp hk with hk | hk
      · exact Or.inl ⟨t, us, e, hk⟩
      · exact Or.inr ⟨t, us, e, mem_singleton.mp hk⟩
  rw [hsplit]
  rcases (rendering_lex h.literals).lead with ⟨w, us, e, hl⟩ | ⟨hno, hshort⟩
  · rw [hl]
    constructor
    · intro hw
      have hall := h.first ⟨.word, w⟩ (by show _ ∈ (tokens sql).head?; rw [show tokens sql = _ from e]; rfl)
        rfl hw
      refine ⟨⟨.word, w⟩, us, e, ?_⟩
      show w.map Char.toUpper ∈ _
      have hall : w.takeWhile isWordChar = w := hall
      rwa [hall] at hw
    · rintro ⟨t, us', e', hk⟩
      obtain ⟨rfl, -⟩ := List.cons.inj ((show tokens sql = _ from e).symm.trans e')
      have hk : w.map Char.toUpper ∈ ["SELECT".toList, "WITH".toList] := hk
      have hword : ∀ c ∈ w, isWordChar c = true := fun c hc => by
        rw [← Pattern.isWordChar_toUpper]
        exact all_eq_true.mp (hmem _ hk).2.2 _ (mem_map_of_mem hc)
      rwa [takeWhile_eq_self_iff.mpr hword]
  · constructor
    · intro hw
      have := (hmem _ hw).1
      rw [length_map] at this
      omega
    · rintro ⟨t, us, e, hk⟩
      rw [Token.keyword, if_neg (hno t us e)] at hk
      exact absurd rfl (hmem _ hk).2.1

/-- **What the gate answers on an ordinary text.** -/
theorem isReadOnlySql_ordinary {sql : Text} (h : Ordinary sql) :
    (isReadOnlySql sql = true → StartsAsQuery sql ∧
      (∀ t ∈ tokens sql, t.keyword ∉ DANGEROUS_KEYWORDS) ∧ ¬ ForUpdate sql) ∧
    (StartsAsQuery sql → (∀ t ∈ tokens sql, t.keyword ∉ DANGEROUS_KEYWORDS) →
      (∀ t ∈ tokens sql, t.kind = .quoted → ∀ n ∈ identifier t, n ∉ sideEffectingPackages) →
      isReadOnlySql sql = true) := by
  rw [isReadOnlySql_iff_runs, lead_iff h]
  refine ⟨fun ⟨hs, hd⟩ => ?_, fun hs hd _ => ⟨hs, fun r hr hmem => ?_⟩⟩
  · have hwords : ∀ t ∈ tokens sql, t.keyword ∉ DANGEROUS_KEYWORDS := fun t ht hmem => by
      obtain ⟨r, hr, hmem⟩ := (dangerous_iff h).mpr ⟨t, ht, hmem⟩
      exact hd r hr hmem
    refine ⟨hs, hwords, fun ⟨ts, t, u, us, e, _, hu⟩ => hwords u ?_ (hu ▸ update_dangerous)⟩
    rw [e]
    exact mem_append_right _ (mem_cons_of_mem _ mem_cons_self)
  · obtain ⟨t, ht, hmem⟩ := (dangerous_iff h).mp ⟨r, hr, hmem⟩
    exact hd t ht hmem

/-- A text with a literal, a comment and a `$` in a name. -/
def sample : Text := "SELECT q'[DELETE]' /* DROP */ FROM v$session".toList

theorem isReadOnlySql_ordinary_sample : isReadOnlySql sample = true :=
  (isReadOnlySql_ordinary ⟨⟨by decide, by decide⟩, by decide,
    by decide⟩).2 (Or.inl (by unfold StartsWith; decide))
      (by decide) (by decide)

/-- **A quoted identifier is no obstacle.** -/
theorem passes_quoted : ¬ ∀ sql, isReadOnlySql sql = true → StartsAsQuery sql ∧
    (∀ t ∈ tokens sql, ∀ n ∈ identifier t, n ∉ DANGEROUS_KEYWORDS) ∧ ¬ ForUpdate sql := by
  intro h
  have hread : isReadOnlySql "SELECT \"DELETE\" FROM my_table".toList = true := by decide +kernel
  have ht : (⟨.quoted, "\"DELETE\"".toList⟩ : Token) ∈ tokens "SELECT \"DELETE\" FROM my_table".toList := by
    decide
  exact (h _ hread).2.1 _ ht "DELETE".toList (by decide) (by decide)

end Veesker.Ai
