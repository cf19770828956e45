/-
  File:      Veesker/Safety/BulkDml.lean
  Subject:   A WHOLE-TABLE DELETE OR UPDATE ON PROD IS REFUSED.

  The bulk detector's scan and Oracle's lexer read a statement side by side (`Sync`): as long as no
  comment holds a quote or a parenthesis and no q-quoted literal an apostrophe inside, the scan is
  inside quotes exactly where the lexer is inside a literal or a quoted identifier, and counts the
  same parentheses (`sync_step`, `sync_run`). So a `WHERE` that the scan finds at depth zero is one
  of the statement's tokens (`toplevelWhere_of_raw`), and a DELETE or UPDATE without one is
  flagged (`bulk_dml_refused`). A q-quoted literal with an apostrophe inside is the detector's
  documented blind spot (`bulk_dml_passes`).
-/
import Veesker.Safety.WhereScan

namespace Veesker.Safety

open Lexis
open List hiding lex

/-! ## 1. The tokens of a statement -/

/-- What a token adds to the depth of parentheses. -/
def depthOf (t : Token) : Int :=
  if t.kind = .symbol then (if t.text = ['('] then 1 else if t.text = [')'] then -1 else 0) else 0

def parenDepth (ts : List Token) : Int := (ts.map depthOf).sum

def toplevelWhereFrom (depth : Int) : List Token → Bool
  | [] => false
  | t :: ts =>
    (decide (depth = 0) && decide (IsKeyword "WHERE".toList t)) || toplevelWhereFrom (depth + depthOf t) ts

/-- **A `WHERE` at depth zero**, outside literals, quoted identifiers and comments. -/
def HasToplevelWhere (ts : List Token) : Prop := toplevelWhereFrom 0 ts = true

instance (ts : List Token) : Decidable (HasToplevelWhere ts) := inferInstanceAs (Decidable (_ = _))

/-- The tokens of a text from the first that is neither white space nor a comment. -/
def fromFirstToken (sql : Text) : List Token := (lex sql).dropWhile fun t => !t.isSignificant

/-- The literal's text between its first apostrophe and its last character. -/
def literalBody (text : Text) : Text := ((text.dropWhile (· != '\'')).drop 1).dropLast

def isQLiteral (t : Token) : Bool :=
  t.kind == .string && isQPrefix (t.text.takeWhile (· != '\''))

/-- **A token the scan cannot misread**: a comment without quotes, parentheses and the word WHERE,
    a q-quoted literal without an apostrophe inside, any other token. -/
structure Readable (t : Token) : Prop where
  comment : t.kind = .comment →
    t.text.all Scan.isPlain = true ∧ ¬ "WHERE".toList <:+: t.text.map Char.toUpper
  literal : isQLiteral t = true → '\'' ∉ literalBody t.text

instance (t : Token) : Decidable (Readable t) :=
  decidable_of_iff
    ((t.kind = .comment →
        t.text.all Scan.isPlain = true ∧ ¬ "WHERE".toList <:+: t.text.map Char.toUpper) ∧
      (isQLiteral t = true → '\'' ∉ literalBody t.text))
    ⟨fun h => ⟨h.1, h.2⟩, fun h => ⟨h.comment, h.literal⟩⟩

@[simp] theorem parenDepth_nil : parenDepth [] = 0 := rfl

@[simp] theorem parenDepth_cons (t : Token) (ts : List Token) :
    parenDepth (t :: ts) = depthOf t + parenDepth ts := by
  simp [parenDepth]

@[simp] theorem parenDepth_append (ts us : List Token) :
    parenDepth (ts ++ us) = parenDepth ts + parenDepth us := by
  simp [parenDepth]

theorem depthOf_insignificant {t : Token} (h : t.isSignificant = false) : depthOf t = 0 := by
  unfold depthOf
  rw [if_neg]
  intro hk
  simp [Token.isSignificant, hk] at h

theorem parenDepth_significant (ts : List Token) :
    parenDepth (ts.filter Token.isSignificant) = parenDepth ts := by
  induction ts with
  | nil => rfl
  | cons t ts ih =>
    cases h : t.isSignificant with
    | true => rw [filter_cons_of_pos h, parenDepth_cons, parenDepth_cons, ih]
    | false =>
      rw [filter_cons_of_neg (by rw [h]; simp), parenDepth_cons, ih, depthOf_insignificant h,
        Int.zero_add]

theorem toplevelWhereFrom_split {d : Int} {pre post : List Token} {w : Token}
    (hw : IsKeyword "WHERE".toList w) (hd : d + parenDepth pre = 0) :
    toplevelWhereFrom d (pre ++ w :: post) = true := by
  induction pre generalizing d with
  | nil =>
    rw [parenDepth_nil, Int.add_zero] at hd
    rw [nil_append, toplevelWhereFrom, hd, decide_eq_true hw]
    rfl
  | cons t pre ih =>
    rw [parenDepth_cons, ← Int.add_assoc] at hd
    rw [cons_append, toplevelWhereFrom, ih hd, Bool.or_true]

/-! ## 2. The scan beside the lexer -/

/-- **The scan and the lexer side by side**: the quote the scan is inside of, in each mode. -/
def Sync (q : Option Char) : Mode → Prop
  | .single _ => q = some '\''
  | .double _ => q = some '"'
  | .qOpen acc => q = some '\'' ∧ ∃ p, acc = p ++ ['\''] ∧ isQPrefix p = true
  | .qBody _ acc | .qEnd _ acc => q = some '\'' ∧ ∃ p x, acc = p ++ '\'' :: x ∧ isQPrefix p = true
  | _ => q = none

theorem sync_fresh {k : Scan} (hk : k.inStr = none) (c : Char) :
    Sync (k.step c).inStr (fresh c).1 ∧ (k.step c).depth = k.depth + parenDepth (fresh c).2 := by
  have hq : k.Quoted := by
    intro q hq
    rw [hk] at hq
    cases hq
  by_cases hplain : Scan.isPlain c = true
  · have h1 : c ≠ '\'' := by rintro rfl; cases hplain
    have h2 : c ≠ '"' := by rintro rfl; cases hplain
    have h3 : c ≠ '(' := by rintro rfl; cases hplain
    have h4 : c ≠ ')' := by rintro rfl; cases hplain
    rw [Scan.step_plain hq hplain]
    unfold fresh
    repeat' split
    all_goals simp_all [Sync, depthOf]
  · have hcases : c = '\'' ∨ c = '"' ∨ c = '(' ∨ c = ')' := by
      simp only [Scan.isPlain, Bool.and_eq_true, bne_iff_ne, ne_eq] at hplain
      tauto
    have f1 : fresh '\'' = (.single ['\''], []) := by decide
    have f2 : fresh '"' = (.double ['"'], []) := by decide
    have f3 : fresh '(' = (.plain, [⟨.symbol, ['(']⟩]) := by decide
    have f4 : fresh ')' = (.plain, [⟨.symbol, [')']⟩]) := by decide
    rcases hcases with rfl | rfl | rfl | rfl
    · simp [f1, Sync, Scan.step, hk]
    · simp [f2, Sync, Scan.step, hk]
    · simp [f3, Sync, Scan.step, hk, depthOf]
    · simp [f4, Sync, Scan.step, hk, depthOf, Int.sub_eq_add_neg]

variable {m : Mode}

theorem sync_close {k : Scan} (hk : k.inStr = none) (hm : parenDepth m.flush = 0)
    (c : Char) :
    Sync (k.step c).inStr (m.close c).1 ∧
      (k.step c).depth = k.depth + parenDepth (m.close c).2 := by
  unfold Mode.close
  rw [parenDepth_append, hm, Int.zero_add]
  exact sync_fresh hk c

/-- What a comment still open has read is plain, where all tokens are readable. -/
theorem plain_of_comment {s : Text} (hm : m.kind = .comment)
    (hread : ∀ t ∈ lexFrom m s, Readable t) : ∀ c ∈ m.pending, Scan.isPlain c = true := by
  obtain ⟨t, ts, r, e, hk, htext⟩ := lexFrom_first (.inr (.inr hm)) s
  have ht := (hread t (by rw [e]; simp)).comment (hk.trans hm)
  intro c hc
  exact all_eq_true.mp ht.1 c (by rw [htext]; exact mem_append_left _ hc)

/-- Inside a q-quoted literal the next character belongs to it. -/
theorem lexFrom_literal_next {d : Char} {acc : Text}
    (hm : m = .qBody d acc ∨ m = .qEnd d acc) (c : Char) (s : Text) :
    ∃ t ts r, lexFrom m (c :: s) = t :: ts ∧ t.kind = .string ∧ t.text = acc ++ c :: r := by
  have hopen : ∀ m' : Mode, m'.kind = .string → m'.pending = acc ++ [c] → m.step c = (m', []) →
      ∃ t ts r, lexFrom m (c :: s) = t :: ts ∧ t.kind = .string ∧ t.text = acc ++ c :: r := by
    intro m' hk hp hs
    obtain ⟨t, ts, r, e, h1, h2⟩ := lexFrom_first (.inl hk) s
    exact ⟨t, ts, r, by rw [lexFrom_cons, hs]; exact e, h1.trans hk, by rw [h2, hp]; simp⟩
  rcases hm with rfl | rfl
  · by_cases h : c = d
    · exact hopen (.qEnd d (acc ++ [c])) rfl rfl (by simp [Mode.step, h])
    · exact hopen (.qBody d (acc ++ [c])) rfl rfl (by simp [Mode.step, h])
  · by_cases h : c = '\''
    · exact ⟨⟨.string, acc ++ [c]⟩, lexFrom .plain s, [], by simp [lexFrom_cons, Mode.step, h], rfl,
        rfl⟩
    · by_cases h' : c = d
      · exact hopen (.qEnd d (acc ++ [c])) rfl rfl (by simp only [Mode.step, if_neg h, if_pos h'])
      · exact hopen (.qBody d (acc ++ [c])) rfl rfl (by simp only [Mode.step, if_neg h, if_neg h'])

/-- An apostrophe inside a q-quoted literal that goes on makes the literal unreadable. -/
theorem not_readable_literal {p x r : Text} {c : Char} {t : Token} (hp : isQPrefix p = true)
    (hk : t.kind = .string) (ht : t.text = p ++ '\'' :: x ++ ['\''] ++ c :: r) : ¬ Readable t := by
  intro hread
  have hne : ∀ y ∈ p, (y != '\'') = true := by
    intro y hy
    rw [bne_iff_ne]
    rintro rfl
    have hm := mem_map_of_mem (f := Char.toUpper) hy
    simp only [isQPrefix, Bool.or_eq_true, beq_iff_eq] at hp
    rcases hp with e | e <;> rw [e] at hm <;> revert hm <;> decide
  have hself : ('\'' != '\'') = false := by decide
  have htake : t.text.takeWhile (· != '\'') = p := by
    rw [ht]
    simp only [append_assoc, cons_append]
    rw [takeWhile_append_of_pos hne, takeWhile_cons_of_neg (by simp), append_nil]
  have hdrop : t.text.dropWhile (· != '\'') = '\'' :: (x ++ ['\''] ++ c :: r) := by
    rw [ht]
    simp only [append_assoc, cons_append]
    rw [dropWhile_append_of_pos hne, dropWhile_cons_of_neg (by simp)]
  have hbody := hread.literal (by rw [isQLiteral, hk, htake, hp]; rfl)
  rw [literalBody, hdrop, drop_succ_cons, drop_zero, dropLast_append_of_ne_nil
    (by simp)] at hbody
  exact hbody (by simp)

/-- **One character**: the scan and the lexer stay side by side. -/
theorem sync_step {k : Scan} (hk : k.Quoted) {c : Char} {s : Text} (h : Sync k.inStr m)
    (hread : ∀ t ∈ lexFrom m (c :: s), Readable t) (hne : s ≠ []) :
    Sync (k.step c).inStr (m.step c).1 ∧
      (k.step c).depth = k.depth + parenDepth (m.step c).2 := by
  -- a character the scan takes no notice of, in a token that goes on
  have hgo : ∀ m' : Mode, m.step c = (m', []) → Scan.isPlain c = true →
      Sync k.inStr m' → Sync (k.step c).inStr (m.step c).1 ∧
        (k.step c).depth = k.depth + parenDepth (m.step c).2 := by
    intro m' hs hc hm'
    rw [Scan.step_plain hk hc, hs]
    exact ⟨hm', by simp⟩
  have hcomment : ∀ m' : Mode, m.step c = (m', []) → m'.kind = .comment →
      m'.pending = m.pending ++ [c] → k.inStr = none → Sync k.inStr m' →
      Sync (k.step c).inStr (m.step c).1 ∧
        (k.step c).depth = k.depth + parenDepth (m.step c).2 := by
    intro m' hs hkind hp _ hm'
    refine hgo m' hs (plain_of_comment (s := s) hkind (fun t ht => hread t ?_) c (by rw [hp]; simp)) hm'
    rw [lexFrom_cons, hs]
    exact ht
  have hliteral : ∀ (d : Char) (p x : Text), isQPrefix p = true → k.inStr = some '\'' →
      (m.step c = (.qBody d (p ++ '\'' :: x ++ [c]), []) ∨
        m.step c = (.qEnd d (p ++ '\'' :: x ++ [c]), [])) →
      Sync (k.step c).inStr (m.step c).1 ∧
        (k.step c).depth = k.depth + parenDepth (m.step c).2 := by
    intro d p x hp hq hs
    have hc : c ≠ '\'' := by
      rintro rfl
      obtain ⟨c', s', rfl⟩ := exists_cons_of_ne_nil hne
      have hm : (m.step '\'').1 = .qBody d (p ++ '\'' :: x ++ ['\'']) ∨
          (m.step '\'').1 = .qEnd d (p ++ '\'' :: x ++ ['\'']) := by
        rcases hs with hs | hs <;> rw [hs]
        · exact .inl rfl
        · exact .inr rfl
      obtain ⟨t, ts, r, e, hkind, htext⟩ := lexFrom_literal_next hm c' s'
      refine not_readable_literal hp hkind htext (hread t ?_)
      rw [lexFrom_cons, e]
      simp
    have hstep : k.step c = k := by
      unfold Scan.step
      rw [hq]
      simp [hc]
    rw [hstep]
    rcases hs with hs | hs <;> rw [hs] <;> exact ⟨⟨hq, p, x ++ [c], by simp, hp⟩, by simp⟩
  cases m with
  | plain => exact sync_fresh h c
  | word acc =>
    by_cases hi : isIdentChar c = true
    · refine hgo (.word (acc ++ [c])) (by simp [Mode.step, hi]) ?_ h
      simp only [Scan.isPlain, Bool.and_eq_true, bne_iff_ne, ne_eq]
      refine ⟨⟨⟨?_, ?_⟩, ?_⟩, ?_⟩ <;> rintro rfl <;> exact absurd hi (by decide)
    · have hopens : c = '\'' → (k.step c).inStr = some '\'' ∧ (k.step c).depth = k.depth := by
        rintro rfl
        have hq : k.inStr = none := h
        simp [Scan.step, hq]
      by_cases hq : c = '\'' ∧ isQPrefix acc = true
      · have hs : (Mode.word acc).step c = (.qOpen (acc ++ [c]), []) := by
          simp only [Mode.step, if_neg hi, if_pos hq]
        rw [hs]
        obtain ⟨h1, h2⟩ := hopens hq.1
        exact ⟨⟨h1, acc, by rw [hq.1], hq.2⟩, by simpa using h2⟩
      · by_cases hn : c = '\'' ∧ isNPrefix acc = true
        · have hs : (Mode.word acc).step c = (.single (acc ++ [c]), []) := by
            simp only [Mode.step, if_neg hi, if_neg hq, if_pos hn]
          rw [hs]
          obtain ⟨h1, h2⟩ := hopens hn.1
          exact ⟨h1, by simpa using h2⟩
        · have hs : (Mode.word acc).step c = (Mode.word acc).close c := by
            simp only [Mode.step, if_neg hi, if_neg hq, if_neg hn]
          rw [hs]
          exact sync_close h rfl c
  | minus =>
    by_cases hc : c = '-'
    · exact hgo (.line ['-', '-']) (by simp [Mode.step, hc]) (by rw [hc]; decide) h
    · have hs : Mode.minus.step c = Mode.minus.close c := by simp [Mode.step, hc]
      rw [hs]
      exact sync_close h rfl c
  | slash =>
    by_cases hc : c = '*'
    · exact hgo (.block ['/', '*']) (by simp [Mode.step, hc]) (by rw [hc]; decide) h
    · have hs : Mode.slash.step c = Mode.slash.close c := by simp [Mode.step, hc]
      rw [hs]
      exact sync_close h rfl c
  | line acc =>
    by_cases hc : c = '\n'
    · rw [hc, Scan.step_plain hk (by decide)]
      exact ⟨h, by simp [Mode.step, depthOf]⟩
    · exact hcomment (.line (acc ++ [c])) (by simp [Mode.step, hc]) rfl rfl h h
  | block acc =>
    by_cases hc : c = '*'
    · exact hcomment (.blockStar (acc ++ [c])) (by simp [Mode.step, hc]) rfl rfl h h
    · exact hcomment (.block (acc ++ [c])) (by simp [Mode.step, hc]) rfl rfl h h
  | blockStar acc =>
    by_cases hc : c = '/'
    · rw [hc, Scan.step_plain hk (by decide)]
      exact ⟨h, by simp [Mode.step, depthOf]⟩
    · by_cases hc' : c = '*'
      · exact hcomment (.blockStar (acc ++ [c])) (by simp [Mode.step, hc']) rfl rfl h h
      · exact hcomment (.block (acc ++ [c])) (by simp [Mode.step, hc, hc']) rfl rfl h h
  | single acc =>
    have hq : k.inStr = some '\'' := h
    by_cases hc : c = '\''
    · simp [Mode.step, Scan.step, hq, hc, Sync]
    · simp [Mode.step, Scan.step, hq, hc, Sync]
  | singleEnd acc =>
    by_cases hc : c = '\''
    · have hq : k.inStr = none := h
      simp [Mode.step, Scan.step, hq, hc, Sync]
    · have hs : (Mode.singleEnd acc).step c = (Mode.singleEnd acc).close c := by simp [Mode.step, hc]
      rw [hs]
      exact sync_close h rfl c
  | double acc =>
    have hq : k.inStr = some '"' := h
    by_cases hc : c = '"'
    · simp [Mode.step, Scan.step, hq, hc, Sync, depthOf]
    · simp [Mode.step, Scan.step, hq, hc, Sync]
  | qOpen acc =>
    obtain ⟨hq, p, rfl, hp⟩ := h
    exact hliteral (closerOf c) p [] hp hq (.inl (by simp [Mode.step]))
  | qBody d acc =>
    obtain ⟨hq, p, x, rfl, hp⟩ := h
    by_cases hc : c = d
    · exact hliteral d p x hp hq (.inr (by simp [Mode.step, hc]))
    · exact hliteral d p x hp hq (.inl (by simp [Mode.step, hc]))
  | qEnd d acc =>
    obtain ⟨hq, p, x, rfl, hp⟩ := h
    by_cases hc : c = '\''
    · simp [Mode.step, Scan.step, hq, hc, Sync, depthOf]
    · by_cases hc' : c = d
      · exact hliteral d p x hp hq (.inr (by simp only [Mode.step, if_neg hc, if_pos hc']))
      · exact hliteral d p x hp hq (.inl (by simp only [Mode.step, if_neg hc, if_neg hc']))

/-- **A text**: side by side over all of it, where more text follows. -/
theorem sync_run {k : Scan} (hk : k.Quoted) {a rest : Text} (h : Sync k.inStr m)
    (hread : ∀ t ∈ lexFrom m (a ++ rest), Readable t) (hne : rest ≠ []) :
    Sync (k.run a).inStr (modeFrom m a) ∧
      (k.run a).depth = k.depth + parenDepth (emitted m a) ∧
      ∀ t ∈ lexFrom (modeFrom m a) rest, Readable t := by
  induction a generalizing k m with
  | nil => exact ⟨h, by simp [emitted], hread⟩
  | cons c a ih =>
    rw [cons_append] at hread
    obtain ⟨h1, h2⟩ := sync_step hk h hread (by simp [hne])
    have hread' : ∀ t ∈ lexFrom (m.step c).1 (a ++ rest), Readable t := fun t ht =>
      hread t (by rw [lexFrom_cons]; exact mem_append_right _ ht)
    obtain ⟨h3, h4, h5⟩ := ih (hk.step c) h1 hread'
    refine ⟨h3, ?_, h5⟩
    rw [Scan.run_cons, h4, h2, emitted, parenDepth_append, Int.add_assoc]

/-! ## 3. The rule -/

/-- White space leaves the lexer between tokens, or inside an open token. -/
theorem step_space {c : Char} (hc : isSpace c = true) :
    (m.step c).1 = .plain ∨ (m.step c).1.isOpen = true := by
  have hf := fresh_space hc
  have hi : isIdentChar c = false := by
    by_contra h
    rw [isIdentChar_not_space (by simpa using h)] at hc
    cases hc
  have hne : c ≠ '-' ∧ c ≠ '*' ∧ c ≠ '\'' := by
    refine ⟨?_, ?_, ?_⟩ <;> rintro rfl <;> exact absurd hc (by decide)
  cases m <;> simp only [Mode.step, Mode.close, hf, hi, hne, if_false, false_and,
    Bool.false_eq_true] <;> (repeat' split) <;> simp [Mode.isOpen]

/-- A mode outside quotes that is open is a comment. -/
theorem comment_of_sync (h : Sync none m) (ho : m.isOpen = true) : m.kind = .comment := by
  cases m <;> simp_all [Sync, Mode.isOpen, Mode.kind]

/-- A comment takes in the letters that follow. -/
theorem comment_letters {v b : Text} (hm : m.kind = .comment)
    (hv : ∀ c ∈ v, isIdentChar c = true) :
    ∃ t ts r, lexFrom m (v ++ b) = t :: ts ∧ t.kind = .comment ∧ t.text = m.pending ++ v ++ r := by
  induction v generalizing m with
  | nil =>
    obtain ⟨t, ts, r, e, h1, h2⟩ := lexFrom_first (.inr (.inr hm)) b
    exact ⟨t, ts, r, e, h1.trans hm, by rw [append_nil]; exact h2⟩
  | cons c v ih =>
    have hi := hv c mem_cons_self
    have hne : c ≠ '\n' ∧ c ≠ '*' ∧ c ≠ '/' := by
      refine ⟨?_, ?_, ?_⟩ <;> rintro rfl <;> exact absurd hi (by decide)
    have hstep : ∃ m', m.step c = (m', []) ∧ m'.kind = .comment ∧ m'.pending = m.pending ++ [c] := by
      cases m with
      | line acc => exact ⟨.line (acc ++ [c]), by simp [Mode.step, hne], rfl, rfl⟩
      | block acc => exact ⟨.block (acc ++ [c]), by simp [Mode.step, hne], rfl, rfl⟩
      | blockStar acc => exact ⟨.block (acc ++ [c]), by simp [Mode.step, hne], rfl, rfl⟩
      | _ => cases hm
    obtain ⟨m', hs, hk, hp⟩ := hstep
    obtain ⟨t, ts, r, e, h1, h2⟩ := ih hk (fun d hd => hv d (mem_cons_of_mem _ hd))
    exact ⟨t, ts, r, by rw [cons_append, lexFrom_cons, hs]; exact e, h1, by
      rw [h2, hp]; simp⟩

theorem lastFrom_concat (prev : Option Char) (a : Text) (c : Char) :
    lastFrom prev (a ++ [c]) = some c := by
  induction a generalizing prev with
  | nil => rfl
  | cons d a ih => exact ih _

/-- **A `WHERE` the scan finds is a token at depth zero.** -/
theorem toplevelWhere_of_raw {r : Text} {prev : Option Char} (hread : ∀ t ∈ lex r, Readable t)
    (h : RawWhere {} prev r) : HasToplevelWhere (tokens r) := by
  obtain ⟨a, v, b, rfl, hrun, hedge, hv, hb⟩ := h
  have hident : ∀ c ∈ v, isIdentChar c = true := fun c hc => by
    have hm := mem_map_of_mem (f := Char.toUpper) hc
    rw [hv] at hm
    have hall : "WHERE".toList.all isIdentChar = true := by decide
    exact isIdentChar_of_toUpper (all_eq_true.mp hall _ hm)
  have hne : v ≠ [] := fun e => by rw [e] at hv; cases hv
  obtain ⟨h1, h2, h3⟩ := sync_run (k := {}) (m := .plain) (fun q hq => by cases hq) rfl hread
    (by simp [hne])
  rw [hrun] at h1 h2
  have hplain : modeFrom .plain a = .plain := by
    cases a using List.reverseRecOn with
    | nil => rfl
    | append_singleton a c =>
      rw [lastFrom_concat, isSpaceOrEdge, Option.all_some] at hedge
      have hmode : modeFrom .plain (a ++ [c]) = ((modeFrom .plain a).step c).1 := by
        rw [modeFrom_append]
        rfl
      rw [hmode] at h1 h3 ⊢
      rcases step_space (m := modeFrom .plain a) hedge with h | h
      · exact h
      · -- inside a comment, which then holds the word
        obtain ⟨t, ts, x, e, hk, htext⟩ := comment_letters (b := b) (comment_of_sync h1 h) hident
        refine absurd ?_ ((h3 t (by rw [e]; simp)).comment hk).2
        rw [htext, map_append, map_append, hv]
        exact ⟨_, _, rfl⟩
  have htok : tokens (a ++ (v ++ b)) =
      (emitted .plain a).filter Token.isSignificant ++ ⟨.word, v⟩ :: tokens b := by
    unfold tokens lex
    rw [lexFrom_append, hplain, filter_append]
    congr 1
    refine tokens_word hne hident hb fun _ => ?_
    simp [opensLiteral, isQPrefix, isNPrefix, hv]
  unfold HasToplevelWhere
  rw [htok]
  refine toplevelWhereFrom_split ⟨rfl, hv⟩ ?_
  rw [parenDepth_significant, Int.zero_add]
  simpa using h2.symm

/-- A text of white space and `;` has no other tokens. -/
theorem tokens_semicolons {s : Text} (h : ∀ c ∈ s, isSpace c = true ∨ c = ';') :
    ∀ t ∈ tokens s, IsSymbol ';' t := by
  induction s with
  | nil =>
    intro t ht
    cases ht
  | cons c s ih =>
    have hs := ih fun d hd => h d (mem_cons_of_mem _ hd)
    intro t ht
    unfold tokens lex at ht
    rw [lexFrom_cons, Mode.step, filter_append] at ht
    rcases h c mem_cons_self with hc | rfl
    · rw [fresh_space hc] at ht
      exact hs t ht
    · have hf : fresh ';' = (.plain, [⟨.symbol, [';']⟩]) := by decide
      rw [hf] at ht
      rcases mem_append.mp ht with ht | ht
      · have : t = ⟨.symbol, [';']⟩ := by simpa using (mem_filter.mp ht).1
        rw [this]
        exact ⟨rfl, rfl⟩
      · exact hs t ht

/-- Where the collapsed text holds nothing but white space and `;`, neither does the text. -/
theorem semicolons_of_collapse {r : Text} {flag : Bool}
    (h : ∀ c ∈ collapseFrom flag (toUpperCase r), isSpace c = true ∨ c = ';') :
    ∀ c ∈ r, isSpace c = true ∨ c = ';' := by
  induction r generalizing flag with
  | nil => simp
  | cons c r ih =>
    rw [toUpperCase_cons] at h
    intro d hd
    cases hs : isSpace c with
    | true =>
      rw [collapseFrom_space hs] at h
      rcases mem_cons.mp hd with rfl | hd
      · exact .inl hs
      · refine @ih true (fun x hx => h x ?_) d hd
        split
        · exact hx
        · exact mem_cons_of_mem _ hx
    | false =>
      rw [collapseFrom_upperChar hs] at h
      have hc : c = ';' := by
        obtain ⟨x, u, hu⟩ := exists_cons_of_ne_nil (upperChar_ne_nil c)
        have hx := h x (by rw [hu]; simp)
        by_cases hlt : c.toNat < 128
        · rw [upperChar_ascii hlt] at hu
          obtain ⟨rfl, -⟩ := List.cons.inj hu
          rw [isSpace_toUpper, hs] at hx
          exact forall_ascii (P := fun c => c.toUpper = ';' → c = ';') (by decide) hlt
            (hx.resolve_left (by simp))
        · exfalso
          rcases (upperChar_foreign (by omega) hs).2 x (by rw [hu]; simp) with h1 | h1
          · rcases hx with hx | rfl
            · have := (upperChar_of_mem_space (c := c) (d := x) (by rw [hu]; simp) hx).1
              rw [this] at hs
              cases hs
            · exact absurd h1 (by decide)
          · rcases hx with hx | rfl
            · rw [h1.2] at hx
              cases hx
            · exact absurd h1.1 (by decide)
      rcases mem_cons.mp hd with rfl | hd
      · exact .inr hc
      · exact ih (fun x hx => h x (mem_append_right _ hx)) d hd

/-- The texts from the first token on: the lexer's tokens of what the detectors read. -/
theorem fromFirstToken_eq {sql w r : Text} (he : stripLeadingComments sql = w ++ r) (hne : w ≠ [])
    (hw : ∀ c ∈ w, isIdentChar c = true) (hr : ∀ c, r.head? = some c → isIdentChar c = false)
    (hq : opensLiteral w = false) : fromFirstToken sql = ⟨.word, w⟩ :: lex r := by
  obtain ⟨d, hd, e⟩ := stripRounds_filler sql.length sql
  have hlex : lex (w ++ r) = ⟨.word, w⟩ :: lex r := lex_word hne hw hr fun _ => hq
  have hsql : lex sql = emitted .plain d ++ (⟨.word, w⟩ :: lex r) := by
    have he' : stripRounds sql.length sql = w ++ r := he
    conv_lhs => rw [e, he']
    rw [lex, lexFrom_append, hd.1, ← hlex]
    rfl
  unfold fromFirstToken
  rw [hsql, dropWhile_append_of_pos fun t ht => by rw [hd.2 t ht]; rfl,
    dropWhile_cons_of_neg (by simp [Token.isSignificant])]

/-- The two statements of the rule, and their length. -/
def bulkKeywords : List Text := ["DELETE".toList, "UPDATE".toList]

/-- **A whole-table statement is flagged**: a DELETE or UPDATE whose keyword white space follows,
    which names a target, has no top-level `WHERE` and no token the scan can misread. -/
theorem isUnsafeBulkDml_of_no_where {sql kw : Text} (hkw : kw ∈ bulkKeywords)
    (h : StartsWithKeyword kw sql)
    (hblank : ((textOf (fromFirstToken sql)).drop kw.length).head?.any isSpace = true)
    (htarget : ∃ t, (tokens sql)[1]? = some t ∧ ¬ IsSymbol ';' t)
    (hread : ∀ t ∈ fromFirstToken sql, Readable t) (hwhere : ¬ HasToplevelWhere (tokens sql)) :
    isUnsafeBulkDml sql = true := by
  have hfacts : (∀ c ∈ kw, c.toNat < 128) ∧ kw ≠ [] ∧ (∀ c ∈ kw, isSpace c = false ∧ c ≠ ';') ∧
      (∀ Y, whereFrom 0 none none 0 (kw ++ Y) = whereFrom 0 none kw.getLast? 6 Y) ∧
      (∀ Y, (startsWith (kw ++ ' ' :: Y) "UPDATE ".toList ||
        startsWith (kw ++ ' ' :: Y) "DELETE ".toList) = true) ∧
      (∀ Y, startsWith (kw ++ Y) "TRUNCATE ".toList = false) ∧
      kw ∉ [['Q'], ['N', 'Q'], ['N']] := by
    have hsep : ∀ k : Text, k.all (fun c => !isSpace c && c != ';') = true →
        ∀ c ∈ k, isSpace c = false ∧ c ≠ ';' := fun k hk c hc => by
      simpa using all_eq_true.mp hk c hc
    simp only [bulkKeywords, mem_cons, not_mem_nil, or_false] at hkw
    rcases hkw with rfl | rfl
    · exact ⟨by simp, by decide, hsep _ (by decide), fun _ => rfl, fun _ => rfl, fun _ => rfl,
        by decide⟩
    · exact ⟨by simp, by decide, hsep _ (by decide), fun _ => rfl, fun _ => rfl, fun _ => rfl,
        by decide⟩
  obtain ⟨hascii, hne, hsep, hskip, hstart, hno, hq⟩ := hfacts
  obtain ⟨w, r, he, hup, hwne, hw, hr, htail, hupper⟩ := keyword_split h hascii
  have hlit : opensLiteral w = false := by
    simp only [mem_cons, not_mem_nil, or_false, not_or] at hq
    simp [opensLiteral, isQPrefix, isNPrefix, hup, hq]
  have hfirst := fromFirstToken_eq he hwne hw hr hlit
  have htokens : tokens sql = ⟨.word, w⟩ :: tokens r := by
    rw [← tokens_stripLeadingComments, he]
    exact tokens_word hwne hw hr fun _ => hlit
  have hdrop : (textOf (fromFirstToken sql)).drop kw.length = r := by
    have hl : kw.length = w.length := by rw [← hup, length_map]
    rw [hfirst, textOf_cons, lex, textOf_lexFrom, hl, drop_left]
    rfl
  rw [hdrop] at hblank
  obtain ⟨Y, d, hY, hsplit, hd⟩ := bulkText_keyword hupper hne hsep
  -- white space behind the keyword, and a target behind that
  obtain ⟨Y', rfl⟩ : ∃ Y', Y = ' ' :: Y' := by
    cases r with
    | nil => cases hblank
    | cons c r =>
      have hc : isSpace c = true := by simpa using hblank
      have hcollapse := hsplit
      rw [toUpperCase_cons, collapseFrom_space hc] at hcollapse
      simp only [Bool.false_eq_true, if_false] at hcollapse
      cases Y with
      | nil =>
        exfalso
        obtain ⟨t, ht, hsemi⟩ := htarget
        rw [nil_append] at hsplit
        rw [htokens, List.getElem?_cons_succ] at ht
        refine hsemi (tokens_semicolons (@semicolons_of_collapse _ false ?_) t
          (mem_of_getElem? ht))
        rw [hsplit]
        exact hd
      | cons y Y => exact ⟨Y, by rw [(List.cons.inj hcollapse).1]⟩
  have hnone : findToplevelWhere (kw ++ ' ' :: Y') = none := by
    unfold findToplevelWhere
    rw [hskip]
    cases hw' : whereFrom 0 none kw.getLast? 6 (' ' :: Y') with
    | none => rfl
    | some j =>
      have hraw : RawWhere {} kw.getLast? r :=
        where_pullback (k := {}) (fun q hq => by cases hq) hd hsplit id hw'
      have hlexr : ∀ t ∈ lex r, Readable t := fun t ht =>
        hread t (by rw [hfirst]; exact mem_cons_of_mem _ ht)
      have hin := toplevelWhere_of_raw hlexr hraw
      refine absurd ?_ hwhere
      unfold HasToplevelWhere at hin ⊢
      rw [htokens, toplevelWhereFrom]
      have hdepth : depthOf ⟨.word, w⟩ = 0 := rfl
      rw [hdepth, Int.add_zero, hin, Bool.or_true]
  unfold isUnsafeBulkDml
  simp only [hY, hno, hnone]
  rcases Bool.or_eq_true_iff.mp (hstart Y') with hs | hs
  · rw [hs]
    rfl
  · rw [hs, Bool.not_true, Bool.and_false]
    rfl

/-- **A whole-table DELETE or UPDATE on prod**: with no unlock window open the gate refuses it. -/
theorem bulk_dml_refused (safety : ConnectionSafety) (henv : safety.env = some .prod) (w : Windows)
    (now : Time) (hclosed : ∀ u ∈ w.unsafeDml, u.expiresAt ≤ now) (opts : GateOptions) {sql kw : Text}
    (hkw : kw ∈ bulkKeywords) (h : StartsWithKeyword kw sql)
    (hblank : ((textOf (fromFirstToken sql)).drop kw.length).head?.any isSpace = true)
    (htarget : ∃ t, (tokens sql)[1]? = some t ∧ ¬ IsSymbol ';' t)
    (hread : ∀ t ∈ fromFirstToken sql, Readable t) (hwhere : ¬ HasToplevelWhere (tokens sql)) :
    ∃ code, decisionOf (enforceSafetyForStatement safety w now opts sql).1 = .error code := by
  have hbulk := isUnsafeBulkDml_of_no_where hkw h hblank htarget hread hwhere
  have hflag : (profile sql).flagged = true := by
    show (isMergeSql sql || isUnsafeBulkDml sql) = true
    rw [hbulk, Bool.or_true]
  have hwin : w.unsafeDml.any
      (fun u => decide (now < u.expiresAt) && u.table == (profile sql).table) = false := by
    cases hu : w.unsafeDml with
    | none => rfl
    | some u =>
      have : ¬ now < u.expiresAt := not_lt.mpr (hclosed u hu)
      simp [this]
  rw [decision_eq]
  unfold decideOn
  simp only [henv, hflag, hwin, if_true, Bool.false_eq_true, if_false]
  split_ifs
  · exact ⟨_, rfl⟩
  · exact ⟨_, rfl⟩
  · exact ⟨_, rfl⟩

theorem bulk_dml_refused_commented :
    ∃ code, decisionOf (enforceSafetyForStatement { env := some .prod } {} 0 {}
      "/* where */ DELETE FROM t -- all of it".toList).1 = .error code :=
  @bulk_dml_refused { env := some .prod } rfl {} 0 (by simp) {} _ "DELETE".toList (by decide)
    (by decide) (by decide) ⟨⟨.word, "FROM".toList⟩, by decide, by decide⟩ (by decide) (by decide)

/-- The documented blind spot: an apostrophe inside a q-quoted literal turns the scan inside out,
    and the literal's own `where` passes for the statement's. -/
theorem bulk_dml_passes :
    StartsWithKeyword "UPDATE".toList "UPDATE t SET a = q'[it's where x]'".toList ∧
      ¬ HasToplevelWhere (tokens "UPDATE t SET a = q'[it's where x]'".toList) ∧
      decisionOf (enforceSafetyForStatement { env := some .prod } {} 0 {}
        "UPDATE t SET a = q'[it's where x]'".toList).1 = .ok () := by
  decide

end Veesker.Safety
