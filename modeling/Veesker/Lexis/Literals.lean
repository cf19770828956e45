/-
  File:      Veesker/Lexis/Literals.lean
  Subject:   A SQL TEXT WITHOUT WHAT ITS STRING LITERALS SAY.

  * `skeleton` -- the tokens of a text, of a string literal its opening and whether it is closed.
    Two texts with one skeleton differ only in what their literals say.
  * `codeBefore` -- the text up to where its first literal begins to speak, which the skeleton
    tells (`codeBefore_prefix`).
  * `exists_insert` -- **at that place any letter may be inserted any number of times** (two of
    three letters at least) and the skeleton stays.

  Nothing here names the repository.
-/
import Veesker.Lexis.Oracle

namespace Veesker.Lexis

open List

/-! ## 1. The skeleton -/

/-- The beginning of a literal: its prefix, the quote, and the delimiter of a q-quoted one. -/
def opening (t : Text) : Text :=
  let w := t.takeWhile (· ≠ '\'')
  t.take (w.length + if isQPrefix w then 2 else 1)

/-- A token, or what a string literal shows but for what it says. -/
inductive Shape where
  | token (t : Token)
  | literal (opening : Text) (closed : Bool)
  deriving DecidableEq

/-- A token that is finished. -/
def shape (t : Token) : Shape := if t.kind = .string then .literal (opening t.text) true else .token t

/-- The shapes of what the end of a text leaves. A q-quote before its delimiter says nothing. -/
def endShape : Mode → List Shape
  | .single acc => [.literal (opening acc) false]
  | .qBody _ acc => [.literal (opening acc) false]
  | .qEnd _ acc => [.literal (opening acc) false]
  | .qOpen acc => [.token ⟨.string, acc⟩]
  | m => m.flush.map shape

def skeletonFrom (m : Mode) (s : Text) : List Shape := (emitted m s).map shape ++ endShape (modeFrom m s)

def skeleton (s : Text) : List Shape := skeletonFrom .plain s

/-- The text before what the first literal says; none without a literal. -/
def codeBefore : List Shape → Option Text
  | [] => none
  | .token t :: ss => (codeBefore ss).map (t.text ++ ·)
  | .literal o _ :: _ => some o

/-- Two texts that differ only in what their string literals say. -/
def SameButLiterals (s t : Text) : Prop := skeleton s = skeleton t

instance (s t : Text) : Decidable (SameButLiterals s t) := inferInstanceAs (Decidable (_ = _))

theorem skeletonFrom_cons (m : Mode) (c : Char) (s : Text) :
    skeletonFrom m (c :: s) = (m.step c).2.map shape ++ skeletonFrom (m.step c).1 s := by
  unfold skeletonFrom
  rw [← append_assoc, ← map_append]
  rfl

theorem skeletonFrom_append (m : Mode) (s t : Text) :
    skeletonFrom m (s ++ t) = (emitted m s).map shape ++ skeletonFrom (modeFrom m s) t := by
  unfold skeletonFrom
  rw [emitted_append, modeFrom_append, map_append, append_assoc]

/-! ## 2. Openings -/

theorem opening_eq (t : Text) : opening t = t.take ((t.takeWhile (· ≠ '\'')).length +
    if isQPrefix (t.takeWhile (· ≠ '\'')) then 2 else 1) := rfl

/-- The opening is complete. -/
def Opened (t : Text) : Prop := (opening t).length =
  (t.takeWhile (· ≠ '\'')).length + if isQPrefix (t.takeWhile (· ≠ '\'')) then 2 else 1

theorem takeWhile_append_of_opened {t : Text} (h : Opened t) (u : Text) :
    (t ++ u).takeWhile (· ≠ '\'') = t.takeWhile (· ≠ '\'') := by
  rw [takeWhile_append, if_neg]
  intro hlen
  have hle : (opening t).length ≤ t.length := (take_sublist _ _).length_le
  rw [h, hlen] at hle
  split at hle <;> omega

/-- What follows leaves a complete opening as it is. -/
theorem opening_append {t : Text} (h : Opened t) (u : Text) : opening (t ++ u) = opening t := by
  have hle : (opening t).length ≤ t.length := (take_sublist _ _).length_le
  rw [h] at hle
  rw [opening_eq, takeWhile_append_of_opened h]
  exact take_append_of_le_length hle

theorem Opened.append {t : Text} (h : Opened t) (u : Text) : Opened (t ++ u) := by
  unfold Opened
  rw [opening_append h, takeWhile_append_of_opened h]
  exact h

theorem quote_notMem_of_map {w v : Text} (h : w.map Char.toUpper = v) (hv : '\'' ∉ v) : '\'' ∉ w :=
  fun hm => hv (h ▸ mem_map.mpr ⟨'\'', hm, by decide⟩)

variable {w : Text}

theorem quote_notMem_q (h : isQPrefix w = true) : '\'' ∉ w := by
  rcases Bool.or_eq_true_iff.mp h with h | h
  · exact quote_notMem_of_map (beq_iff_eq.mp h) (by decide)
  · exact quote_notMem_of_map (beq_iff_eq.mp h) (by decide)

theorem quote_notMem_n (h : isNPrefix w = true) : '\'' ∉ w :=
  quote_notMem_of_map (beq_iff_eq.mp h) (by decide)

theorem not_q_of_n (h : isNPrefix w = true) : isQPrefix w = false := by
  rw [isQPrefix, beq_iff_eq.mp h]
  decide

theorem takeWhile_quote (h : '\'' ∉ w) (r : Text) :
    (w ++ '\'' :: r).takeWhile (· ≠ '\'') = w := by
  rw [takeWhile_append_of_pos fun c hc => by
    rw [decide_eq_true_eq]
    rintro rfl
    exact h hc]
  rw [takeWhile_cons_of_neg (by decide), append_nil]

/-- The opening of an ordinary literal, just read. -/
theorem opened_single (h : '\'' ∉ w) (hq : isQPrefix w = false) :
    opening (w ++ ['\'']) = w ++ ['\''] ∧ Opened (w ++ ['\'']) := by
  have ho : opening (w ++ ['\'']) = w ++ ['\''] := by
    rw [opening_eq, takeWhile_quote h, hq]
    exact take_of_length_le (by simp)
  refine ⟨ho, ?_⟩
  rw [Opened, ho, takeWhile_quote h, hq]
  simp

/-- The opening of a q-quoted literal, just read. -/
theorem opened_q (hq : isQPrefix w = true) (d : Char) :
    opening (w ++ ['\''] ++ [d]) = w ++ ['\''] ++ [d] ∧ Opened (w ++ ['\''] ++ [d]) := by
  have hw : (w ++ ['\''] ++ [d]).takeWhile (· ≠ '\'') = w := by
    rw [append_assoc]
    exact takeWhile_quote (quote_notMem_q hq) [d]
  have ho : opening (w ++ ['\''] ++ [d]) = w ++ ['\''] ++ [d] := by
    rw [opening_eq, hw, hq]
    exact take_of_length_le (by simp)
  refine ⟨ho, ?_⟩
  rw [Opened, ho, hw, hq]
  simp

/-! ## 3. Modes that differ in what a literal has said -/

/-- The same mode, but for what the literal said since its opening. -/
inductive Alike : Mode → Mode → Prop where
  | same (m : Mode) : Alike m m
  | single (a b : Text) (ha : Opened a) (hb : Opened b) (h : opening a = opening b) :
      Alike (.single a) (.single b)
  | singleEnd (a b : Text) (ha : Opened a) (hb : Opened b) (h : opening a = opening b) :
      Alike (.singleEnd a) (.singleEnd b)
  | qBody (d : Char) (a b : Text) (ha : Opened a) (hb : Opened b) (h : opening a = opening b) :
      Alike (.qBody d a) (.qBody d b)
  | qEnd (d : Char) (a b : Text) (ha : Opened a) (hb : Opened b) (h : opening a = opening b) :
      Alike (.qEnd d a) (.qEnd d b)

theorem shape_string (t : Text) : shape ⟨.string, t⟩ = .literal (opening t) true := rfl

/-- **One character keeps modes alike** and finishes tokens of one shape. -/
theorem Alike.step {m m' : Mode} (h : Alike m m') (c : Char) :
    Alike (m.step c).1 (m'.step c).1 ∧ (m.step c).2.map shape = (m'.step c).2.map shape := by
  have hopen : ∀ {a b : Text}, Opened a → Opened b → opening a = opening b →
      opening (a ++ [c]) = opening (b ++ [c]) := fun ha hb h => by
    rw [opening_append ha, opening_append hb, h]
  cases h with
  | same => exact ⟨.same _, rfl⟩
  | single a b ha hb h =>
    simp only [Mode.step]
    split
    · exact ⟨.singleEnd _ _ (ha.append _) (hb.append _) (hopen ha hb h), rfl⟩
    · exact ⟨.single _ _ (ha.append _) (hb.append _) (hopen ha hb h), rfl⟩
  | singleEnd a b ha hb h =>
    simp only [Mode.step]
    split
    · exact ⟨.single _ _ (ha.append _) (hb.append _) (hopen ha hb h), rfl⟩
    · refine ⟨.same _, ?_⟩
      simp only [Mode.close, Mode.flush, Mode.kind, Mode.pending, map_append, map_cons,
        map_nil, shape_string, h]
  | qBody d a b ha hb h =>
    simp only [Mode.step]
    split
    · exact ⟨.qEnd _ _ _ (ha.append _) (hb.append _) (hopen ha hb h), rfl⟩
    · exact ⟨.qBody _ _ _ (ha.append _) (hb.append _) (hopen ha hb h), rfl⟩
  | qEnd d a b ha hb h =>
    simp only [Mode.step]
    split
    · refine ⟨.same _, ?_⟩
      simp only [map_cons, map_nil, shape_string, hopen ha hb h]
    split
    · exact ⟨.qEnd _ _ _ (ha.append _) (hb.append _) (hopen ha hb h), rfl⟩
    · exact ⟨.qBody _ _ _ (ha.append _) (hb.append _) (hopen ha hb h), rfl⟩

/-- **What follows reads the same** in modes that are alike. -/
theorem Alike.skeletonFrom {m m' : Mode} (h : Alike m m') (s : Text) :
    skeletonFrom m s = skeletonFrom m' s := by
  induction s generalizing m m' with
  | nil =>
    cases h with
    | same => rfl
    | single a b _ _ h => exact congrArg (fun o => [Shape.literal o false]) h
    | singleEnd a b _ _ h => exact congrArg (fun o => [Shape.literal o true]) h
    | qBody d a b _ _ h => exact congrArg (fun o => [Shape.literal o false]) h
    | qEnd d a b _ _ h => exact congrArg (fun o => [Shape.literal o false]) h
  | cons c s ih =>
    obtain ⟨hm, hs⟩ := h.step c
    rw [skeletonFrom_cons, skeletonFrom_cons, hs, ih hm]

/-! ## 4. Where the first literal begins to speak -/

/-- No literal has said anything yet. -/
def Silent : Mode → Prop
  | .single _ => False
  | .singleEnd _ => False
  | .qBody _ _ => False
  | .qEnd _ _ => False
  | .qOpen acc => ∃ w, acc = w ++ ['\''] ∧ isQPrefix w = true
  | _ => True

/-- A literal is about to speak: only its opening was read. -/
def AboutTo (m : Mode) : Prop :=
  ∃ acc, opening acc = acc ∧ Opened acc ∧ (m = .single acc ∨ ∃ d, m = .qBody d acc)

theorem silent_fresh (c : Char) : (∀ t ∈ (fresh c).2, t.kind ≠ .string) ∧
    (Silent (fresh c).1 ∨ AboutTo (fresh c).1) := by
  unfold fresh
  split
  · exact ⟨fun t ht => mem_singleton.mp ht ▸ nofun, Or.inl trivial⟩
  split
  · exact ⟨fun t ht => absurd ht not_mem_nil, Or.inl trivial⟩
  split
  · exact ⟨fun t ht => absurd ht not_mem_nil, Or.inl trivial⟩
  split
  · rename_i hc
    refine ⟨fun t ht => absurd ht not_mem_nil, Or.inr ⟨[c], ?_⟩⟩
    subst hc
    obtain ⟨h1, h2⟩ := opened_single (w := []) not_mem_nil (by decide)
    exact ⟨h1, h2, Or.inl rfl⟩
  split
  · exact ⟨fun t ht => absurd ht not_mem_nil, Or.inl trivial⟩
  split
  · exact ⟨fun t ht => absurd ht not_mem_nil, Or.inl trivial⟩
  · exact ⟨fun t ht => mem_singleton.mp ht ▸ nofun, Or.inl trivial⟩

variable {m : Mode}

theorem silent_close (hm : ∀ t ∈ m.flush, t.kind ≠ .string) (c : Char) :
    (∀ t ∈ (m.close c).2, t.kind ≠ .string) ∧ (Silent (m.close c).1 ∨ AboutTo (m.close c).1) := by
  refine ⟨fun t ht => ?_, (silent_fresh c).2⟩
  rcases mem_append.mp ht with ht | ht
  · exact hm t ht
  · exact (silent_fresh c).1 t ht

/-- **One character outside literals**: no literal is finished, and one begins at most. -/
theorem silent_step (h : Silent m) (c : Char) :
    (∀ t ∈ (m.step c).2, t.kind ≠ .string) ∧ (Silent (m.step c).1 ∨ AboutTo (m.step c).1) := by
  have hnil : ∀ t ∈ ([] : List Token), t.kind ≠ .string := fun t ht => absurd ht not_mem_nil
  have hone : ∀ {k : Kind} {x : Text}, k ≠ .string → ∀ t ∈ [(⟨k, x⟩ : Token)], t.kind ≠ .string :=
    fun hk t ht => mem_singleton.mp ht ▸ hk
  cases m with
  | plain => exact silent_fresh c
  | word acc =>
    simp only [Mode.step]
    split
    · exact ⟨hnil, Or.inl trivial⟩
    split
    · rename_i hq
      exact ⟨hnil, Or.inl ⟨acc, by rw [hq.1], hq.2⟩⟩
    split
    · rename_i hn
      obtain ⟨h1, h2⟩ := opened_single (quote_notMem_n hn.2) (not_q_of_n hn.2)
      exact ⟨hnil, Or.inr ⟨acc ++ [c], by rw [hn.1]; exact h1, by rw [hn.1]; exact h2, Or.inl rfl⟩⟩
    · exact silent_close (m := .word acc) (hone (k := .word) (by decide)) c
  | minus =>
    simp only [Mode.step]
    split
    · exact ⟨hnil, Or.inl trivial⟩
    · exact silent_close (m := .minus) (hone (k := .symbol) (by decide)) c
  | slash =>
    simp only [Mode.step]
    split
    · exact ⟨hnil, Or.inl trivial⟩
    · exact silent_close (m := .slash) (hone (k := .symbol) (by decide)) c
  | line acc =>
    simp only [Mode.step]
    split
    · refine ⟨fun t ht => ?_, Or.inl trivial⟩
      rcases mem_cons.mp ht with rfl | ht
      · rintro ⟨⟩
      · exact hone (k := .blank) (by decide) t ht
    · exact ⟨hnil, Or.inl trivial⟩
  | block acc =>
    simp only [Mode.step]
    split <;> exact ⟨hnil, Or.inl trivial⟩
  | blockStar acc =>
    simp only [Mode.step]
    split
    · exact ⟨hone (k := .comment) (by decide), Or.inl trivial⟩
    split <;> exact ⟨hnil, Or.inl trivial⟩
  | double acc =>
    simp only [Mode.step]
    split
    · exact ⟨hone (k := .quoted) (by decide), Or.inl trivial⟩
    · exact ⟨hnil, Or.inl trivial⟩
  | qOpen acc =>
    obtain ⟨w, rfl, hw⟩ := h
    obtain ⟨h1, h2⟩ := opened_q hw c
    exact ⟨hnil, Or.inr ⟨_, h1, h2, Or.inr ⟨_, rfl⟩⟩⟩
  | single acc => exact absurd h id
  | singleEnd acc => exact absurd h id
  | qBody d acc => exact absurd h id
  | qEnd d acc => exact absurd h id

theorem map_shape_of_silent {ts : List Token} (h : ∀ t ∈ ts, t.kind ≠ .string) :
    ts.map shape = ts.map .token :=
  map_congr_left fun t ht => if_neg (h t ht)

theorem codeBefore_tokens (ts : List Token) (ss : List Shape) :
    codeBefore (ts.map .token ++ ss) = (codeBefore ss).map (textOf ts ++ ·) := by
  induction ts with
  | nil => simp
  | cons t ts ih =>
    rw [map_cons, cons_append, codeBefore, ih, Option.map_map]
    congr 1
    funext x
    simp

/-- Inside a literal the place was its opening. -/
theorem codeBefore_speaking {acc : Text} (h : Opened acc) (s : Text) :
    codeBefore (skeletonFrom (.single acc) s) = some (opening acc) ∧
      codeBefore (skeletonFrom (.singleEnd acc) s) = some (opening acc) ∧
      ∀ d, codeBefore (skeletonFrom (.qBody d acc) s) = some (opening acc) ∧
        codeBefore (skeletonFrom (.qEnd d acc) s) = some (opening acc) := by
  induction s generalizing acc with
  | nil => exact ⟨rfl, rfl, fun _ => ⟨rfl, rfl⟩⟩
  | cons c s ih =>
    obtain ⟨h1, h2, h3⟩ := ih (h.append [c])
    rw [opening_append h] at h1 h2 h3
    refine ⟨?_, ?_, fun d => ⟨?_, ?_⟩⟩
    · rw [skeletonFrom_cons, Mode.step]
      split
      · exact h2
      · exact h1
    · rw [skeletonFrom_cons, Mode.step]
      split
      · exact h1
      · rfl
    · rw [skeletonFrom_cons, Mode.step]
      split
      · exact (h3 d).2
      · exact (h3 d).1
    · rw [skeletonFrom_cons, Mode.step]
      split
      · rw [map_cons, shape_string, opening_append h]
        rfl
      split
      · exact (h3 d).2
      · exact (h3 d).1

theorem codeBefore_aboutTo (h : AboutTo m) (s : Text) :
    codeBefore (skeletonFrom m s) = some m.pending := by
  obtain ⟨acc, ho, h, rfl | ⟨d, rfl⟩⟩ := h
  · exact (codeBefore_speaking h s).1.trans (congrArg some ho)
  · exact ((codeBefore_speaking h s).2.2 d).1.trans (congrArg some ho)

theorem codeBefore_endShape (h : Silent m) : codeBefore (endShape m) = none := by
  cases m <;> first | rfl | exact absurd h id

/-- **The text up to the place where the first literal begins to speak.** -/
theorem codeBefore_some (hm : Silent m) {s pre : Text}
    (h : codeBefore (skeletonFrom m s) = some pre) :
    ∃ u r, s = u ++ r ∧ pre = m.pending ++ u ∧ AboutTo (modeFrom m u) := by
  induction s generalizing m pre with
  | nil =>
    have hn : codeBefore (skeletonFrom m []) = none := codeBefore_endShape hm
    exact absurd (hn ▸ h) nofun
  | cons c s ih =>
    obtain ⟨hts, hnext⟩ := silent_step hm c
    rw [skeletonFrom_cons, map_shape_of_silent hts, codeBefore_tokens] at h
    obtain ⟨pre', hpre, rfl⟩ := Option.map_eq_some_iff.mp h
    rcases hnext with hs | ha
    · obtain ⟨u, r, rfl, rfl, hu⟩ := ih hs hpre
      refine ⟨c :: u, r, rfl, ?_, hu⟩
      rw [← append_assoc, textOf_step, append_assoc]
      rfl
    · rw [codeBefore_aboutTo ha] at hpre
      cases hpre
      exact ⟨[c], s, rfl, textOf_step m c, ha⟩

/-- The text of the shapes of tokens. -/
def shapesText : List Shape → Text
  | [] => []
  | .token t :: ss => t.text ++ shapesText ss
  | .literal _ _ :: ss => shapesText ss

theorem shapesText_tokens (ts : List Token) (ss : List Shape) :
    shapesText (ts.map .token ++ ss) = textOf ts ++ shapesText ss := by
  induction ts with
  | nil => rfl
  | cons t ts ih => rw [map_cons, cons_append, shapesText, ih, textOf_cons, append_assoc]

/-- **Without a literal the skeleton is the text.** -/
theorem shapesText_of_none (hm : Silent m) {s : Text}
    (h : codeBefore (skeletonFrom m s) = none) : shapesText (skeletonFrom m s) = m.pending ++ s := by
  induction s generalizing m with
  | nil =>
    cases m <;> first | rfl | exact absurd hm id
  | cons c s ih =>
    obtain ⟨hts, hnext⟩ := silent_step hm c
    rw [skeletonFrom_cons, map_shape_of_silent hts, codeBefore_tokens] at h
    rw [Option.map_eq_none_iff] at h
    rcases hnext with hs | ha
    · rw [skeletonFrom_cons, map_shape_of_silent hts, shapesText_tokens, ih hs h, ← append_assoc,
        textOf_step, append_assoc]
      rfl
    · rw [codeBefore_aboutTo ha] at h
      cases h

/-! ## 5. Texts of one skeleton -/

/-- **Texts of one skeleton agree up to where their first literal begins to speak**, and
    everywhere where they have none. -/
theorem skeleton_eq {s t : Text} (h : SameButLiterals s t) :
    s = t ∨ ∃ pre r r', codeBefore (skeleton s) = some pre ∧ s = pre ++ r ∧ t = pre ++ r' := by
  cases hc : codeBefore (skeleton s) with
  | none =>
    have hs := shapesText_of_none (m := .plain) trivial hc
    have ht := shapesText_of_none (m := .plain) trivial (h ▸ hc)
    exact Or.inl ((hs.symm.trans (congrArg shapesText h)).trans ht)
  | some pre =>
    obtain ⟨u, r, rfl, e, -⟩ := codeBefore_some (m := .plain) trivial hc
    obtain ⟨u', r', rfl, e', -⟩ := codeBefore_some (m := .plain) trivial (h ▸ hc)
    obtain rfl : pre = u := e
    obtain rfl : pre = u' := e'
    exact Or.inr ⟨pre, r, r', rfl, rfl, rfl⟩

/-- A letter that ends no literal may be said any number of times. -/
theorem alike_replicate (h : AboutTo m) {c : Char} (hq : c ≠ '\'')
    (hd : ∀ d acc, m = .qBody d acc → c ≠ d) (n : Nat) :
    Alike m (modeFrom m (List.replicate n c)) ∧
      (emitted m (List.replicate n c)).map shape = [] := by
  have key : ∀ acc : Text, Opened acc →
      modeFrom (.single acc) (List.replicate n c) = .single (acc ++ List.replicate n c) ∧
      emitted (.single acc) (List.replicate n c) = [] ∧ ∀ d, c ≠ d →
        modeFrom (.qBody d acc) (List.replicate n c) = .qBody d (acc ++ List.replicate n c) ∧
        emitted (.qBody d acc) (List.replicate n c) = [] := by
    intro acc hacc
    induction n generalizing acc with
    | zero => simp [modeFrom, emitted]
    | succ n ih =>
      obtain ⟨h1, h2, h3⟩ := ih (acc ++ [c]) (hacc.append [c])
      rw [append_assoc, singleton_append] at h1
      refine ⟨?_, ?_, fun d hd => ?_⟩
      · rw [replicate_succ, modeFrom, Mode.step, if_neg hq]
        exact h1
      · rw [replicate_succ, emitted, Mode.step, if_neg hq]
        exact h2
      · obtain ⟨h4, h5⟩ := h3 d hd
        rw [append_assoc, singleton_append] at h4
        rw [replicate_succ, modeFrom, emitted, Mode.step, if_neg hd]
        exact ⟨h4, h5⟩
  obtain ⟨acc, ho, h, rfl | ⟨d, rfl⟩⟩ := h
  · obtain ⟨h1, h2, -⟩ := key acc h
    rw [h1, h2]
    exact ⟨.single _ _ h (h.append _) (opening_append h _).symm, rfl⟩
  · obtain ⟨-, -, h3⟩ := key acc h
    obtain ⟨h1, h2⟩ := h3 d (hd d acc rfl)
    rw [h1, h2]
    exact ⟨.qBody _ _ _ h (h.append _) (opening_append h _).symm, rfl⟩

theorem quote_mem_of_opened {t : Text} (h : Opened t) : '\'' ∈ t := by
  by_contra hm
  have hw : t.takeWhile (· ≠ '\'') = t := takeWhile_eq_self_iff.mpr fun c hc => by
    rw [decide_eq_true_eq]
    rintro rfl
    exact hm hc
  have hle : (opening t).length ≤ t.length := (take_sublist _ _).length_le
  rw [h, hw] at hle
  split at hle <;> omega

/-- The text before what the first literal says holds its quote. -/
theorem quote_mem_codeBefore {s pre : Text} (h : codeBefore (skeleton s) = some pre) :
    '\'' ∈ pre := by
  obtain ⟨u, r, rfl, e, hu⟩ := codeBefore_some (m := .plain) trivial h
  obtain rfl : pre = u := e
  have hp := textOf_emitted .plain pre
  have hmem : '\'' ∈ (modeFrom .plain pre).pending := by
    obtain ⟨acc, -, ho, e | ⟨d, e⟩⟩ := hu
    · rw [e]
      exact quote_mem_of_opened ho
    · rw [e]
      exact quote_mem_of_opened ho
  have hin : '\'' ∈ Mode.plain.pending ++ pre := hp ▸ mem_append_right _ hmem
  exact hin

/-- **What a literal says may begin with one letter, or another, any number of times.** -/
theorem exists_insert {s pre : Text} (h : codeBefore (skeleton s) = some pre) :
    ∃ r, s = pre ++ r ∧ ∃ c ∈ ['a', 'b', 'c'], ∃ c' ∈ ['a', 'b', 'c'], c ≠ c' ∧
      ∀ n, skeleton (pre ++ (List.replicate n c ++ r)) = skeleton s ∧
        skeleton (pre ++ (List.replicate n c' ++ r)) = skeleton s := by
  obtain ⟨u, r, rfl, e, hu⟩ := codeBefore_some (m := .plain) trivial h
  obtain rfl : pre = u := e
  have hins : ∀ c : Char, c ≠ '\'' → (∀ d acc, modeFrom .plain pre = .qBody d acc → c ≠ d) →
      ∀ n, skeleton (pre ++ (List.replicate n c ++ r)) = skeleton (pre ++ r) := by
    intro c hq hd n
    obtain ⟨ha, he⟩ := alike_replicate hu hq hd n
    rw [skeleton, skeleton, skeletonFrom_append, skeletonFrom_append, skeletonFrom_append, he,
      nil_append, ha.skeletonFrom r]
  obtain ⟨d, hd⟩ : ∃ d, ∀ c, c ≠ d → ∀ d' acc, modeFrom .plain pre = .qBody d' acc → c ≠ d' := by
    obtain ⟨acc, -, -, e | ⟨d, e⟩⟩ := hu
    · exact ⟨'x', fun c _ d' acc' e' => absurd (e.symm.trans e') nofun⟩
    · exact ⟨d, fun c hc d' acc' e' => (Mode.qBody.inj (e.symm.trans e')).1 ▸ hc⟩
  refine ⟨r, rfl, ?_⟩
  by_cases ha : 'a' = d
  · refine ⟨'b', by decide, 'c', by decide, by decide, fun n => ⟨?_, ?_⟩⟩
    · exact hins 'b' (by decide) (hd 'b' (ha ▸ by decide)) n
    · exact hins 'c' (by decide) (hd 'c' (ha ▸ by decide)) n
  · by_cases hb : 'b' = d
    · refine ⟨'a', by decide, 'c', by decide, by decide, fun n => ⟨?_, ?_⟩⟩
      · exact hins 'a' (by decide) (hd 'a' ha) n
      · exact hins 'c' (by decide) (hd 'c' (hb ▸ by decide)) n
    · refine ⟨'a', by decide, 'b', by decide, by decide, fun n => ⟨?_, ?_⟩⟩
      · exact hins 'a' (by decide) (hd 'a' ha) n
      · exact hins 'b' (by decide) (hd 'b' hb) n

end Veesker.Lexis
