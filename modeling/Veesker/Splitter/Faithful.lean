/-
  File:      Veesker/Splitter/Faithful.lean
  Subject:   WHAT THE SPLITTER LOSES AND WHAT IT REPORTS, against Oracle's reading of the text.

  `Ref` is the statement of what splitting is: the text cut at every `;` that is a token of its own
  outside PL/SQL blocks and at every slash on a line of its own, in Oracle's lexical reading
  (`expected`: the segments that hold a token, trimmed). The source decides the same things with
  pattern tests on its buffer. `Alike` says that these tests answer as the tokens do;
  `splitSql_faithful` is the refinement: **where they do all along, the statements are the
  segments, and an error is reported exactly when the text ends inside a literal, a quoted
  identifier or a block comment.**
-/
import Veesker.Splitter.Lockstep

namespace Veesker.Splitter

open List

open Lexis (Mode Token Kind tokens modeFrom)

/-! ## 1. PL/SQL blocks -/

def isKeyword (w : Text) (t : Token) : Bool := t.kind == .word && t.text.map Char.toUpper == w

def isSymbol (c : Char) (t : Token) : Bool := t.kind == .symbol && t.text == [c]

/-- The labels `<<name>>` in front of a block. -/
def skipLabels : List Token → List Token
  | a :: b :: n :: c :: d :: ts =>
    if isSymbol '<' a && isSymbol '<' b && isSymbol '>' c && isSymbol '>' d then skipLabels ts
    else a :: b :: n :: c :: d :: ts
  | ts => ts

/-- The first token meets the test. -/
def startsBy (p : Token → Bool) : List Token → Bool
  | t :: _ => p t
  | [] => false

/-- `OR REPLACE`. -/
def skipOrReplace : List Token → List Token
  | a :: b :: ts => if isKeyword "OR".toList a && isKeyword "REPLACE".toList b then ts
      else a :: b :: ts
  | ts => ts

/-- `EDITIONABLE`, `NONEDITIONABLE`. -/
def skipEditionable : List Token → List Token
  | a :: ts => if isKeyword "EDITIONABLE".toList a || isKeyword "NONEDITIONABLE".toList a then ts
      else a :: ts
  | [] => []

def isUnitWord (t : Token) : Bool :=
  isKeyword "FUNCTION".toList t || isKeyword "PROCEDURE".toList t || isKeyword "TRIGGER".toList t ||
    isKeyword "PACKAGE".toList t || isKeyword "TYPE".toList t

def isBlockWord (t : Token) : Bool := isKeyword "DECLARE".toList t || isKeyword "BEGIN".toList t

/-- `CREATE`, and a unit behind it. -/
def createsUnit : List Token → Bool
  | t :: ts => isKeyword "CREATE".toList t &&
      startsBy isUnitWord (skipEditionable (skipOrReplace ts))
  | [] => false

/-- A WITH clause that declares a function or a procedure. -/
def declaresRoutine : List Token → Bool
  | t :: f :: n :: _ => isKeyword "WITH".toList t &&
      (isKeyword "FUNCTION".toList f || isKeyword "PROCEDURE".toList f) &&
      (n.kind == .quoted || n.kind == .word && !isKeyword "AS".toList n)
  | _ => false

/-- **The tokens of a statement open a PL/SQL block**: an anonymous block, a CREATE unit, or a
    WITH clause with a routine of its own. -/
def opensBlock (ts : List Token) : Bool :=
  startsBy isBlockWord (skipLabels ts) || createsUnit ts || declaresRoutine ts

variable {ts : List Token}

theorem startsBy_append {p : Token → Bool} (h : startsBy p ts = true)
    (us : List Token) : startsBy p (ts ++ us) = true := by
  cases ts with
  | nil => cases h
  | cons t ts => exact h

theorem isKeyword_ne {v w : Text} {t : Token} (hv : isKeyword v t = true) (hne : v ≠ w) :
    isKeyword w t = false := by
  simp only [isKeyword, Bool.and_eq_true, beq_iff_eq] at hv
  simp [isKeyword, hv.1, hv.2, hne]

theorem skipLabels_append (h : startsBy isBlockWord (skipLabels ts) = true)
    (us : List Token) : startsBy isBlockWord (skipLabels (ts ++ us)) = true := by
  fun_induction skipLabels ts with
  | case1 a b n c d ts hl ih =>
    have e : (a :: b :: n :: c :: d :: ts) ++ us = a :: b :: n :: c :: d :: (ts ++ us) := rfl
    rw [e, skipLabels, if_pos hl]
    exact ih h
  | case2 a b n c d ts hl =>
    have e : (a :: b :: n :: c :: d :: ts) ++ us = a :: b :: n :: c :: d :: (ts ++ us) := rfl
    rw [e, skipLabels, if_neg hl]
    exact h
  | case3 ts hshort =>
    -- the first token is a word, and no label starts with one
    cases ts with
    | nil => cases h
    | cons t ts =>
      have hword : isSymbol '<' t = false := by
        have ht : isBlockWord t = true := h
        simp only [isBlockWord, isKeyword, Bool.or_eq_true, Bool.and_eq_true, beq_iff_eq] at ht
        have hk : t.kind = .word := ht.elim And.left And.left
        simp [isSymbol, hk]
      show startsBy isBlockWord (skipLabels (t :: (ts ++ us))) = true
      match ts ++ us with
      | b :: n :: c :: d :: vs =>
        rw [skipLabels, hword]
        exact h
      | [] => exact h
      | [_] => exact h
      | [_, _] => exact h
      | [_, _, _] => exact h

theorem createsUnit_append (h : createsUnit ts = true) (us : List Token) :
    createsUnit (ts ++ us) = true := by
  cases ts with
  | nil => cases h
  | cons t ts =>
    simp only [createsUnit, Bool.and_eq_true] at h
    simp only [cons_append, createsUnit, Bool.and_eq_true]
    refine ⟨h.1, ?_⟩
    have hunit : ∀ t, isKeyword "OR".toList t = true → isUnitWord t = false := by
      intro t ht
      have h1 := isKeyword_ne ht (w := "FUNCTION".toList) (by decide)
      have h2 := isKeyword_ne ht (w := "PROCEDURE".toList) (by decide)
      have h3 := isKeyword_ne ht (w := "TRIGGER".toList) (by decide)
      have h4 := isKeyword_ne ht (w := "PACKAGE".toList) (by decide)
      have h5 := isKeyword_ne ht (w := "TYPE".toList) (by decide)
      simp only [isUnitWord, h1, h2, h3, h4, h5, Bool.or_self]
    have hedit : ∀ vs ws : List Token, startsBy isUnitWord (skipEditionable vs) = true →
        startsBy isUnitWord (skipEditionable (vs ++ ws)) = true := by
      intro vs ws hv
      cases vs with
      | nil => cases hv
      | cons v vs =>
        simp only [cons_append, skipEditionable] at hv ⊢
        split at hv
        · rename_i he
          rw [if_pos he]
          exact startsBy_append hv ws
        · rename_i he
          rw [if_neg he]
          exact hv
    match ts, h.2 with
    | [], h => cases h
    | [a], h =>
      -- a lone OR is no unit
      have hor : isKeyword "OR".toList a = false := by
        by_contra hor
        have hor : isKeyword "OR".toList a = true := by simpa using hor
        have he : skipEditionable (skipOrReplace [a]) = [a] := by
          have h1 : isKeyword "EDITIONABLE".toList a = false := isKeyword_ne hor (by decide)
          have h2 : isKeyword "NONEDITIONABLE".toList a = false := isKeyword_ne hor (by decide)
          simp only [skipOrReplace, skipEditionable, h1, h2, Bool.or_self]
          rfl
        rw [he] at h
        have h' : isUnitWord a = true := h
        rw [hunit a hor] at h'
        cases h'
      have hskip : skipOrReplace ([a] ++ us) = [a] ++ us := by
        cases us with
        | nil => rfl
        | cons u us =>
          simp only [cons_append, nil_append, skipOrReplace, hor, Bool.false_and]
          rfl
      rw [hskip]
      exact hedit [a] us h
    | a :: b :: vs, h =>
      simp only [cons_append, skipOrReplace] at h ⊢
      split at h
      · rename_i ho
        rw [if_pos ho]
        exact hedit vs us h
      · rename_i ho
        rw [if_neg ho]
        exact hedit (a :: b :: vs) us h

theorem declaresRoutine_append (h : declaresRoutine ts = true)
    (us : List Token) : declaresRoutine (ts ++ us) = true := by
  match ts, h with
  | t :: f :: n :: ts, h => exact h

/-- A block stays one whatever follows. -/
theorem opensBlock_append (h : opensBlock ts = true) (us : List Token) :
    opensBlock (ts ++ us) = true := by
  simp only [opensBlock, Bool.or_eq_true] at h ⊢
  rcases h with (h | h) | h
  · exact .inl (.inl (skipLabels_append h us))
  · exact .inl (.inr (createsUnit_append h us))
  · exact .inr (declaresRoutine_append h us)

/-- The tokens of a text around a semicolon that is one. -/
theorem tokens_semicolon {a : Text} (ha : (modeFrom .plain a).isOpen = false) (x : Text) :
    ∃ us, tokens (a ++ ';' :: x) = tokens a ++ us := by
  refine ⟨(⟨.symbol, [';']⟩ :: tokens x), ?_⟩
  unfold tokens Lexis.lex
  rw [Lexis.lexFrom_append, Lexis.lexFrom_cons, Lexis.step_semicolon_code ha]
  simp only [filter_append, Lexis.lexFrom, append_assoc]
  rfl

/-! ## 2. The reference -/

/-- Where the reference stands: Oracle's mode, the line so far, the segment so far, and the
    segments cut off. -/
structure Ref where
  mode : Mode := .plain
  line : Text := []
  seg : Text := []
  out : List Text := []

namespace Ref

/-- A character is passed over. -/
def pass (r : Ref) (c : Char) : Ref :=
  { r with mode := (r.mode.step c).1, line := if c = '\n' then [] else r.line ++ [c] }

/-- The segment is cut off. -/
def cut (r : Ref) : Ref := { r with seg := [], out := r.out ++ [r.seg] }

def keep (r : Ref) (c : Char) : Ref := { r.pass c with seg := r.seg ++ [c] }

end Ref

/-- A slash between these two is on a line of its own. -/
def ownLine (line after : Text) : Bool :=
  line.all isSpace && (after.takeWhile (· != '\n')).all isSpace

/-- The rest of a line, with its line break. -/
def restOfLine (after : Text) : Text :=
  after.takeWhile (· != '\n') ++ (after.dropWhile (· != '\n')).take 1

/-- One character, and how many characters behind it are removed with it. -/
def Ref.step (r : Ref) (c : Char) (after : Text) : Ref × Nat :=
  if c = ';' ∧ r.mode.isOpen = false ∧ opensBlock (tokens r.seg) = false then (r.cut.pass c, 0)
  else if c = '/' ∧ r.mode.isOpen = false ∧ ownLine r.line after = true then
    (r.cut.pass c, (restOfLine after).length)
  else (r.keep c, 0)

def refFrom : Ref → Nat → Text → Ref
  | r, _, [] => r
  | r, drop + 1, c :: cs => refFrom (r.pass c) drop cs
  | r, 0, c :: cs => refFrom (r.step c cs).1 (r.step c cs).2 cs

/-- The segments that hold a token, trimmed. -/
def statementsOf (segs : List Text) : List Text :=
  (segs.filter fun s => !(tokens s).isEmpty).map trim

/-- **What splitting a text is**: terminators, surrounding white space and segments without a token
    removed, everything else kept in order. -/
def expected (input : Text) : List Text :=
  statementsOf ((refFrom {} 0 input).out ++ [(refFrom {} 0 input).seg])

/-- **Nothing but terminators, surrounding white space and comment-only segments is removed, and
    an error is reported exactly when the text ends inside something.** -/
def Faithful (input : Text) : Prop :=
  ((splitSql input).errors = [] →
    (splitSql input).statements.flatten = (expected input).flatten) ∧
  ((splitSql input).errors ≠ [] ↔ endsInside (modeFrom .plain input) = true)

/-! ## 3. Where the tests answer alike -/

/-- The test for code on a segment answers as its tokens do. -/
def SeesCode (seg : Text) : Prop := isCommentsOnly seg = (tokens seg).isEmpty

/-- The source's tests at a character answer as Oracle's reading does. -/
structure Alike (r : Ref) (c : Char) (after : Text) : Prop where
  /-- a q-quote starts no word's tail -/
  prefixes : ¬EntersWord r.mode c after
  /-- the block test, and the test for code where the segment ends -/
  block : c = ';' → detectPlsqlStart r.seg = opensBlock (tokens r.seg) ∧
    (opensBlock (tokens r.seg) = false → SeesCode r.seg)
  /-- the slash test, and the test for code where the segment ends -/
  slash : c = '/' → slashAlone r.seg after = ownLine r.line after ∧
    (ownLine r.line after = true → SeesCode r.seg)

/-- They answer alike wherever Oracle has nothing open, and at the end. -/
def AlikeAlong : Ref → Nat → Text → Prop
  | r, _, [] => SeesCode r.seg
  | r, drop + 1, c :: cs => AlikeAlong (r.pass c) drop cs
  | r, 0, c :: cs => (r.mode.isOpen = false → Alike r c cs) ∧
      AlikeAlong (r.step c cs).1 (r.step c cs).2 cs

/-! ## 4. The scan and the reference, in step -/

/-- **Where the scan and the reference stand together.** -/
structure Together (s : Scan) (k drop : Nat) (r : Ref) (rest : Text) : Prop where
  /-- while a slash line is removed, nothing is read -/
  dropping : 0 < drop → s.state = .code ∧ k = 0 ∧ (r.mode = .plain ∨ r.mode = .slash) ∧
    r.seg = [] ∧ drop ≤ rest.length ∧ ∀ c ∈ rest.take drop, isSpace c = true
  lex : drop = 0 → InStep rest s.state k r.mode
  /-- a segment is read as a text of its own -/
  mode : drop = 0 → rest ≠ [] → r.mode = modeFrom .plain r.seg
  buf : s.buf = r.seg
  out : s.statements = statementsOf r.out
  /-- a block, once found, stays one -/
  checked : s.plsqlChecked = true → s.isPlsql = true ∧ ∃ a x, r.seg = a ++ ';' :: x ∧
    (modeFrom .plain a).isOpen = false ∧ opensBlock (tokens a) = true

theorem statementsOf_concat (segs : List Text) (seg : Text) : statementsOf (segs ++ [seg]) =
    statementsOf segs ++ if (tokens seg).isEmpty then [] else [trim seg] := by
  unfold statementsOf
  rw [filter_append, map_append]
  congr 1
  cases h : (tokens seg).isEmpty with
  | true => rw [filter_cons_of_neg (by simp [h])]; rfl
  | false => rw [filter_cons_of_pos (by simp [h])]; rfl

variable {s : Scan} {r : Ref}

/-- `flush` emits the segment the reference cuts off. -/
theorem flush_segment (hbuf : s.buf = r.seg)
    (hout : s.statements = statementsOf r.out) (hc : SeesCode r.seg) :
    s.flush.statements = statementsOf (r.out ++ [r.seg]) := by
  rw [s.flush_statements, hbuf, hout, statementsOf_concat, hc]
  cases (tokens r.seg).isEmpty <;> simp

variable {c : Char}

/-- Reading one character into the segment. -/
theorem Together.keep {s s' : Scan} {k k' : Nat} {cs : Text}
    (h : Together s k 0 r (c :: cs)) (hlex : InStep cs s'.state k' (r.mode.step c).1)
    (hbuf : s'.buf = s.buf ++ [c]) (hout : s'.statements = s.statements)
    (hch : s'.plsqlChecked = true → s'.isPlsql = true ∧ (s.plsqlChecked = true ∨
      (c = ';' ∧ r.mode.isOpen = false ∧ opensBlock (tokens r.seg) = true))) :
    Together s' k' 0 (r.keep c) cs where
  dropping := fun hd => absurd hd (by decide)
  lex := fun _ => hlex
  mode := fun _ _ => by
    show (r.mode.step c).1 = modeFrom .plain (r.seg ++ [c])
    rw [Lexis.modeFrom_append, ← h.mode rfl (by simp)]
    rfl
  buf := by rw [hbuf, h.buf]; rfl
  out := hout.trans h.out
  checked := fun hc => by
    obtain ⟨h1, h2⟩ := hch hc
    refine ⟨h1, ?_⟩
    rcases h2 with h2 | ⟨rfl, ho, hb⟩
    · obtain ⟨-, a, x, e, h3, h4⟩ := h.checked h2
      exact ⟨a, x ++ [c], by show r.seg ++ [c] = _; rw [e]; simp, h3, h4⟩
    · refine ⟨r.seg, [], rfl, ?_, hb⟩
      rw [← h.mode rfl (by simp)]
      exact ho

/-- Where a slash is alone on its line, the blanks behind it are the rest of the line. -/
theorem tail_of_alone {b after : Text} (h : slashAlone b after = true) :
    after.takeWhile isSlashTail = after.takeWhile (· != '\n') ∧
      after.dropWhile isSlashTail = after.dropWhile (· != '\n') := by
  simp only [slashAlone, Bool.and_eq_true] at h
  have hback := h.2
  have htails : ∀ d ∈ after.takeWhile isSlashTail, (d != '\n') = true := by
    intro d hd
    have := mem_takeWhile_imp hd
    rw [bne_iff_ne]
    rintro rfl
    exact absurd this (by decide)
  have hsplit := takeWhile_append_dropWhile (p := isSlashTail) (l := after)
  cases hd : after.dropWhile isSlashTail with
  | nil =>
    rw [hd, append_nil] at hsplit
    rw [hsplit] at htails ⊢
    rw [takeWhile_eq_self_iff.mpr htails]
    exact ⟨rfl, (dropWhile_eq_nil_iff.mpr htails).symm⟩
  | cons d y =>
    rw [hd] at hback hsplit
    have hdn : d = '\n' := by simpa using hback
    subst hdn
    have ht : after.takeWhile (· != '\n') = after.takeWhile isSlashTail := by
      conv_lhs => rw [← hsplit]
      rw [takeWhile_stop (by decide), takeWhile_eq_self_iff.mpr htails]
    refine ⟨ht.symm, ?_⟩
    have hsplit' := takeWhile_append_dropWhile (p := (· != '\n')) (l := after)
    rw [ht] at hsplit'
    exact append_cancel_left (hsplit.trans hsplit'.symm)

variable {rest : Text}

theorem Scan.step_inside
    (h : (lexStep s.state c rest).2.2 = false) :
    s.step c rest = ({ s.push c with state := (lexStep s.state c rest).1 },
      (lexStep s.state c rest).2.1, 0) := by
  unfold Scan.step
  simp only [h, if_true]

theorem Scan.step_semicolon
    (h : lexStep s.state ';' rest = (.code, 0, true)) :
    s.step ';' rest = if s.checkPlsql.isPlsql then (s.checkPlsql.push ';', 0, 0)
      else (s.checkPlsql.flush, 0, 0) := by
  unfold Scan.step
  rw [h]
  rfl

theorem Scan.step_slash
    (h : lexStep s.state '/' rest = (.code, 0, true)) :
    s.step '/' rest = if slashAlone s.buf rest then
        if rest.dropWhile isSlashTail = [] then
          (s.flush, 0, (rest.takeWhile isSlashTail).length)
        else ({ s.flush with line := s.line + 1 }, 0, (rest.takeWhile isSlashTail).length + 1)
      else (s.push '/', 0, 0) := by
  unfold Scan.step
  rw [h]
  simp

theorem Scan.step_other
    (h : lexStep s.state c rest = (.code, 0, true)) (h1 : c ≠ ';') (h2 : c ≠ '/') :
    s.step c rest = (s.push c, 0, 0) := by
  unfold Scan.step
  rw [h]
  simp [h1, h2]

theorem Ref.step_keep {after : Text}
    (h1 : c = ';' → r.mode.isOpen = false → opensBlock (tokens r.seg) = true)
    (h2 : c = '/' → r.mode.isOpen = false → ownLine r.line after = false) :
    r.step c after = (r.keep c, 0) := by
  unfold Ref.step
  rw [if_neg, if_neg]
  · rintro ⟨hc, ho, hl⟩
    rw [h2 hc ho] at hl
    cases hl
  · rintro ⟨hc, ho, hb⟩
    rw [h1 hc ho] at hb
    cases hb

/-- White space ends what a slash may have started. -/
theorem step_space {m : Mode} (hm : m = .plain ∨ m = .slash) (hc : isSpace c = true) :
    (m.step c).1 = .plain := by
  have hf := Lexis.fresh_space hc
  have hstar : c ≠ '*' := by
    rintro rfl
    exact absurd hc (by decide)
  rcases hm with rfl | rfl
  · simp [Mode.step, hf]
  · simp [Mode.step, hstar, Mode.close, hf]

/-- A removed character. -/
theorem Together.drop {k d : Nat} {cs : Text}
    (h : Together s k (d + 1) r (c :: cs)) : k = 0 ∧ Together s k d (r.pass c) cs := by
  obtain ⟨h1, h2, h3, h4, h5, h6⟩ := h.dropping (Nat.succ_pos d)
  have hc : isSpace c = true := h6 c (by simp)
  have hmode : (r.pass c).mode = .plain := step_space h3 hc
  refine ⟨h2, ?_, ?_, ?_, h.buf, h.out, h.checked⟩
  · intro _
    exact ⟨h1, h2, .inl hmode, h4, by simpa using h5, fun d' hd' => h6 d' (by simp [hd'])⟩
  · intro _
    rw [h1, h2, hmode]
    trivial
  · intro _ _
    have : (r.pass c).seg = [] := h4
    rw [hmode, this]
    rfl

/-- A slash where nothing is open. -/
theorem step_slash_mode {m : Mode} (h : m.isOpen = false) : (m.step '/').1 = .slash := by
  have hf : Lexis.fresh '/' = (.slash, []) := by decide
  have hi : Lexis.isIdentChar '/' = false := by decide
  cases m <;> simp_all [Mode.isOpen, Mode.step, Mode.close]

theorem restOfLine_prefix (after : Text) : ∃ y, after = restOfLine after ++ y := by
  refine ⟨(after.dropWhile (· != '\n')).drop 1, ?_⟩
  rw [restOfLine, append_assoc, take_append_drop, takeWhile_append_dropWhile]

theorem restOfLine_eq_nil {after : Text} (h : restOfLine after = []) : after = [] := by
  cases after with
  | nil => rfl
  | cons a y =>
    simp only [restOfLine, append_eq_nil_iff, takeWhile_cons, dropWhile_cons] at h
    cases ha : a != '\n' <;> simp [ha] at h

theorem restOfLine_spaces {line after : Text} (h : ownLine line after = true) :
    ∀ c ∈ restOfLine after, isSpace c = true := by
  simp only [ownLine, Bool.and_eq_true, all_eq_true] at h
  intro c hc
  rcases mem_append.mp hc with hc | hc
  · exact h.2 c hc
  · cases hdr : after.dropWhile (· != '\n') with
    | nil => rw [hdr] at hc; cases hc
    | cons a y =>
      rw [hdr] at hc
      have ha : (a != '\n') = false := by
        have := List.head?_dropWhile_not (· != '\n') after
        rw [hdr] at this
        exact this
      have hca : c = a := by simpa using hc
      rw [hca, show a = '\n' by simpa using ha]
      decide

/-- A removed slash line. -/
theorem Together.cutSlash {s' : Scan} {after : Text} (hcode : s'.state = .code)
    (hbuf : s'.buf = []) (hout : s'.statements = statementsOf (r.out ++ [r.seg]))
    (hch : s'.plsqlChecked = false) (ho : r.mode.isOpen = false)
    (hown : ownLine r.line after = true) :
    Together s' 0 (restOfLine after).length (r.cut.pass '/') after := by
  have hmode : (r.cut.pass '/').mode = .slash := step_slash_mode ho
  obtain ⟨y, hy⟩ := restOfLine_prefix after
  have htake : after.take (restOfLine after).length = restOfLine after :=
    prefix_iff_eq_take.mp ⟨y, hy.symm⟩ |>.symm
  have hnil : (restOfLine after).length = 0 → after = [] := fun h =>
    restOfLine_eq_nil (length_eq_zero_iff.mp h)
  refine ⟨fun _ => ⟨hcode, rfl, .inr hmode, rfl, ?_, ?_⟩, ?_, ?_, hbuf, hout, fun hc => ?_⟩
  · exact (show restOfLine after <+: after from ⟨y, hy.symm⟩).length_le
  · rw [htake]
    exact restOfLine_spaces hown
  · intro hd0
    rw [hcode, hmode, hnil hd0]
    simp [InStep]
  · exact fun hd0 hne => absurd (hnil hd0) hne
  · rw [hch] at hc
    cases hc

/-- A semicolon that ends a statement. -/
theorem Together.cutSemicolon {s' : Scan} {after : Text} (hcode : s'.state = .code)
    (hbuf : s'.buf = []) (hout : s'.statements = statementsOf (r.out ++ [r.seg]))
    (hch : s'.plsqlChecked = false) (ho : r.mode.isOpen = false) :
    Together s' 0 0 (r.cut.pass ';') after := by
  have hmode : (r.cut.pass ';').mode = .plain :=
    congrArg Prod.fst (Lexis.step_semicolon_code ho)
  refine ⟨fun hd => absurd hd (by decide), fun _ => ?_, fun _ _ => hmode, hbuf, hout,
    fun hc => ?_⟩
  · rw [hcode, hmode]
    trivial
  · rw [hch] at hc
    cases hc

/-- The drop behind a slash alone on its line is the rest of the line. -/
theorem restOfLine_length {b after : Text} (h : slashAlone b after = true) :
    (restOfLine after).length = if after.dropWhile isSlashTail = [] then
      (after.takeWhile isSlashTail).length else (after.takeWhile isSlashTail).length + 1 := by
  obtain ⟨h1, h2⟩ := tail_of_alone h
  rw [h1, h2, restOfLine, length_append]
  cases after.dropWhile (· != '\n') <;> simp

/-- **One character keeps the scan and the reference together.** -/
theorem Together.step {cs : Text}
    (h : Together s 0 0 r (c :: cs)) (ha : r.mode.isOpen = false → Alike r c cs) :
    Together (s.step c cs).1 (s.step c cs).2.1 (s.step c cs).2.2 (r.step c cs).1 cs ∧
      (s.step c cs).2.2 = (r.step c cs).2 := by
  have hin := h.lex rfl
  have hopen : s.state = .code → r.mode.isOpen = false := fun hs => by
    rw [hs] at hin
    exact hin.not_open
  have hlex := hin.step fun hs => (ha (hopen hs)).prefixes
  cases hp : (lexStep s.state c cs).2.2 with
  | false =>
    -- inside something, or the start of it
    have hkeep : r.step c cs = (r.keep c, 0) := by
      refine Ref.step_keep (fun hc ho => ?_) fun hc ho => ?_
      · subst hc
        have := (hin.plain_iff (.inl rfl) fun hc => absurd hc (by decide)).mpr ho
        rw [hp] at this
        cases this
      · subst hc
        by_contra hl
        have hl : ownLine r.line cs = true := by simpa using hl
        have hstar : cs.head? ≠ some '*' := by
          intro hstar
          simp only [ownLine, Bool.and_eq_true, all_eq_true] at hl
          cases cs with
          | nil => cases hstar
          | cons a y =>
            have hst : a = '*' := by simpa using hstar
            have := hl.2 a (by rw [hst]; simp)
            rw [hst] at this
            exact absurd this (by decide)
        have := (hin.plain_iff (.inr rfl) fun _ => hstar).mpr ho
        rw [hp] at this
        cases this
    rw [Scan.step_inside hp, hkeep]
    exact ⟨h.keep hlex rfl rfl fun hc => ⟨(h.checked hc).1, .inl hc⟩, rfl⟩
  | true =>
    obtain ⟨hcode, hplain⟩ := lexStep_plain hp
    have ho := hopen hcode
    have hal := ha ho
    rw [hplain] at hlex
    by_cases h1 : c = ';'
    · subst h1
      obtain ⟨hdetect, hsees⟩ := hal.block rfl
      obtain ⟨c1, c2, c3, c4⟩ := s.checkPlsql_same
      -- the cached answer is the block test's, and that is Oracle's
      have hanswer : s.checkPlsql.isPlsql = opensBlock (tokens r.seg) := by
        cases hch : s.plsqlChecked with
        | false => simp [Scan.checkPlsql, hch, h.buf, hdetect]
        | true =>
          obtain ⟨hyes, a, x, e, hao, hab⟩ := h.checked hch
          obtain ⟨us, hus⟩ := tokens_semicolon hao x
          rw [e, hus, opensBlock_append hab]
          simp [Scan.checkPlsql, hch, hyes]
      cases hb : opensBlock (tokens r.seg) with
      | false =>
        have hcut : r.step ';' cs = (r.cut.pass ';', 0) := by
          rw [Ref.step, if_pos ⟨rfl, ho, hb⟩]
        rw [Scan.step_semicolon hplain, hanswer, hb, hcut]
        refine ⟨Together.cutSemicolon (c1.trans hcode) rfl ?_ rfl ho, rfl⟩
        exact flush_segment (c2.trans h.buf) (c3.trans h.out) (hsees hb)
      | true =>
        have hkeep : r.step ';' cs = (r.keep ';', 0) :=
          Ref.step_keep (fun _ _ => hb) fun hc => absurd hc (by decide)
        rw [Scan.step_semicolon hplain, hanswer, hb, hkeep]
        refine ⟨h.keep ?_ (congrArg (· ++ [';']) c2) c3 fun _ => ⟨hanswer.trans hb, .inr
          ⟨rfl, ho, hb⟩⟩, rfl⟩
        show InStep cs s.checkPlsql.state 0 _
        rw [c1, hcode]
        exact hlex
    · by_cases h2 : c = '/'
      · subst h2
        obtain ⟨halike, hsees⟩ := hal.slash rfl
        rw [← h.buf] at halike
        cases hl : ownLine r.line cs with
        | false =>
          rw [hl] at halike
          have hkeep : r.step '/' cs = (r.keep '/', 0) :=
            Ref.step_keep (fun hc => absurd hc (by decide)) fun _ _ => hl
          rw [Scan.step_slash hplain, halike, hkeep]
          refine ⟨h.keep ?_ rfl rfl fun hc => ⟨(h.checked hc).1, .inl hc⟩, rfl⟩
          show InStep cs s.state 0 _
          rw [hcode]
          exact hlex
        | true =>
          rw [hl] at halike
          have hcut : r.step '/' cs = (r.cut.pass '/', (restOfLine cs).length) := by
            rw [Ref.step, if_neg (by simp), if_pos ⟨rfl, ho, hl⟩]
          have hlen := restOfLine_length halike
          have hout := flush_segment h.buf h.out (hsees hl)
          rw [Scan.step_slash hplain, halike, hcut, if_pos rfl]
          split
          · rename_i hd
            rw [if_pos hd] at hlen
            rw [← hlen]
            exact ⟨Together.cutSlash hcode rfl hout rfl ho hl, rfl⟩
          · rename_i hd
            rw [if_neg hd] at hlen
            rw [← hlen]
            exact ⟨Together.cutSlash hcode rfl hout rfl ho hl, rfl⟩
      · have hkeep : r.step c cs = (r.keep c, 0) :=
          Ref.step_keep (fun hc => absurd hc h1) fun hc => absurd hc h2
        rw [Scan.step_other hplain h1 h2, hkeep]
        refine ⟨h.keep ?_ rfl rfl fun hc => ⟨(h.checked hc).1, .inl hc⟩, rfl⟩
        show InStep cs s.state 0 _
        rw [hcode]
        exact hlex

/-- The line counter is no part of what the two have in common. -/
theorem Together.newline {k drop : Nat} (n : Nat)
    (h : Together s k drop r rest) : Together { s with line := n } k drop r rest :=
  ⟨h.dropping, h.lex, h.mode, h.buf, h.out, h.checked⟩

/-- **The scan and the reference stay together to the end of the text.** -/
theorem together_run (rest : Text) {k drop : Nat}
    (h : Together s k drop r rest) (ha : AlikeAlong r drop rest) :
    (scanFrom s k drop rest).flush.statements =
        statementsOf ((refFrom r drop rest).out ++ [(refFrom r drop rest).seg]) ∧
      ((unterminated (scanFrom s k drop rest).state).isSome = true ↔
        endsInside (refFrom r drop rest).mode = true) := by
  induction rest generalizing s k drop r with
  | nil =>
    have hd : drop = 0 := by
      by_contra hne
      have := (h.dropping (Nat.pos_of_ne_zero hne)).2.2.2.2.1
      exact hne (Nat.le_zero.mp this)
    exact ⟨flush_segment h.buf h.out ha, (h.lex hd).unterminated_iff⟩
  | cons c cs ih =>
    cases drop with
    | succ d =>
      obtain ⟨rfl, h'⟩ := h.drop
      exact ih h' ha
    | zero =>
      cases k with
      | succ k =>
        have hin := h.lex rfl
        have hkeep : r.step c cs = (r.keep c, 0) := by
          refine Ref.step_keep (fun hc ho => ?_) fun hc ho => ?_
          · rw [hin.open_of_keep (.inl hc)] at ho
            cases ho
          · rw [hin.open_of_keep (.inr hc)] at ho
            cases ho
        have h' : Together (s.push c) k 0 (r.keep c) cs :=
          h.keep hin.step_keep rfl rfl fun hc => ⟨(h.checked hc).1, .inl hc⟩
        have ha' := ha.2
        rw [hkeep] at ha'
        have hrun := ih h' ha'
        rw [scanFrom, refFrom, hkeep]
        exact hrun
      | zero =>
        have hs : Together (if c = '\n' then { s with line := s.line + 1 } else s) 0 0 r (c :: cs) := by
          split
          · exact h.newline _
          · exact h
        obtain ⟨h', hdrop⟩ := hs.step ha.1
        have ha' := ha.2
        rw [← hdrop] at ha'
        have hrun := ih h' ha'
        rw [scanFrom, refFrom, ← hdrop]
        exact hrun

/-! ## 5. The whole text -/

/-- The reference reads every character with Oracle's lexer. -/
theorem refFrom_mode (rest : Text) (r : Ref) (drop : Nat) :
    (refFrom r drop rest).mode = modeFrom r.mode rest := by
  induction rest generalizing r drop with
  | nil => rfl
  | cons c cs ih =>
    cases drop with
    | succ d => exact ih (r.pass c) d
    | zero =>
      have hstep : (r.step c cs).1.mode = (r.mode.step c).1 := by
        unfold Ref.step
        split
        · rfl
        · split <;> rfl
      rw [refFrom, ih, hstep]
      rfl

/-- **Where the source's tests answer as Oracle's reading does, the statements are the segments.** -/
theorem splitSql_segments {input : Text} (h : AlikeAlong {} 0 input) :
    ((splitSql input).errors = [] → (splitSql input).statements = expected input) ∧
      ((splitSql input).errors ≠ [] ↔ endsInside (modeFrom .plain input) = true) := by
  have hstart : Together {} 0 0 {} input :=
    ⟨fun hd => absurd hd (by decide), fun _ => trivial, fun _ _ => rfl, rfl, rfl, nofun⟩
  obtain ⟨h1, h2⟩ := together_run input hstart h
  rw [refFrom_mode] at h2
  rw [splitSql_eq, Scan.finish]
  cases hu : unterminated (scanFrom {} 0 0 input).state with
  | some message =>
    rw [hu] at h2
    exact ⟨nofun, fun _ => h2.mp rfl, fun _ => by simp⟩
  | none =>
    rw [hu] at h2
    exact ⟨fun _ => h1, fun hne => absurd rfl hne, fun he => absurd (h2.mpr he) (by simp)⟩

instance (r : Ref) (c : Char) (after : Text) : Decidable (Alike r c after) :=
  decidable_of_iff (¬EntersWord r.mode c after ∧
    (c = ';' → detectPlsqlStart r.seg = opensBlock (tokens r.seg) ∧
      (opensBlock (tokens r.seg) = false → isCommentsOnly r.seg = (tokens r.seg).isEmpty)) ∧
    (c = '/' → slashAlone r.seg after = ownLine r.line after ∧
      (ownLine r.line after = true → isCommentsOnly r.seg = (tokens r.seg).isEmpty)))
    ⟨fun ⟨h1, h2, h3⟩ => ⟨h1, h2, h3⟩, fun h => ⟨h.prefixes, h.block, h.slash⟩⟩

instance decidableAlikeAlong : ∀ (r : Ref) (drop : Nat) (rest : Text),
    Decidable (AlikeAlong r drop rest)
  | r, _, [] => inferInstanceAs (Decidable (isCommentsOnly r.seg = (tokens r.seg).isEmpty))
  | r, drop + 1, c :: cs => decidableAlikeAlong (r.pass c) drop cs
  | r, 0, c :: cs =>
    have := decidableAlikeAlong (r.step c cs).1 (r.step c cs).2 cs
    inferInstanceAs (Decidable ((r.mode.isOpen = false → Alike r c cs) ∧ _))

end Veesker.Splitter
