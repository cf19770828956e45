/-
  File:      Veesker/Pii/Patterns.lean
  Subject:   THE SIX PII PATTERNS (sidecar/src/pii.ts `maskPii`; src-tauri/src/pii.rs `mask_pii` is its
             copy for the host).

  * `Classes` -- what an engine takes for a digit, for a character of a word and for white space; they
    agree about ASCII and about the two brackets of the markers;
  * `maskPii`, `Host.maskPii` -- the two functions;
  * `Pattern` -- what the six expressions have in common: a match ends a word, and begins at an edge
    or wherever its first character stands;
  * `maskPii_eq` -- the callback of the card numbers never declines.
-/
import Veesker.Text.Regex

namespace Veesker.Pii

open Regex

/-! ## 1. The model -/

/-- `\d`, `\w` and `\s`, as an engine has them. -/
structure Classes where
  digit : Char → Bool
  word : Char → Bool
  space : Char → Bool
  ascii : ∀ c, c.toNat < 128 → digit c = c.isDigit ∧ word c = isWordChar c
  word_of_digit : ∀ c, digit c = true → word c = true
  brackets : ∀ c, c = '⟨' ∨ c = '⟩' → digit c = false ∧ word c = false ∧ space c = false

/-- The classes of a JavaScript expression without the flag `u`. -/
def jsClasses : Classes where
  digit := Char.isDigit
  word := isWordChar
  space := isSpace
  ascii _ _ := ⟨rfl, rfl⟩
  word_of_digit c hc := by simp [isWordChar, Char.isAlphanum, hc]
  brackets c hc := by rcases hc with rfl | rfl <;> decide

section

variable (K : Classes)

/-- `\d{n}`. -/
def digits (n : Nat) : List Regex := List.replicate n (.one K.digit)

/-- `\b\d{2}\.\d{3}\.\d{3}\/\d{4}-\d{2}\b`. -/
def cnpjRe : Regex :=
  .all (.edge :: digits K 2 ++ lit '.' :: digits K 3 ++ lit '.' :: digits K 3 ++ lit '/' ::
    digits K 4 ++ lit '-' :: digits K 2 ++ [.edge])

/-- `\b\d{3}\.\d{3}\.\d{3}-\d{2}\b`. -/
def cpfRe : Regex :=
  .all (.edge :: digits K 3 ++ lit '.' :: digits K 3 ++ lit '.' :: digits K 3 ++ lit '-' ::
    digits K 2 ++ [.edge])

/-- `[A-Za-z0-9._%+\-]`. -/
def isLocalChar (c : Char) : Bool :=
  c.isAlphanum || c == '.' || c == '_' || c == '%' || c == '+' || c == '-'

/-- `[A-Za-z0-9.\-]`. -/
def isDomainChar (c : Char) : Bool := c.isAlphanum || c == '.' || c == '-'

/-- `\b[A-Za-z0-9._%+\-]+@[A-Za-z0-9.\-]+\.[A-Za-z]{2,}\b`. -/
def emailRe : Regex :=
  .all [.edge, .one isLocalChar, .many isLocalChar, lit '@', .one isDomainChar, .many isDomainChar,
    lit '.', .one Char.isAlpha, .one Char.isAlpha, .many Char.isAlpha, .edge]

/-- `[ -]?\d`. -/
def cardDigit : Regex := .seq (opt (.one fun c => c == ' ' || c == '-')) (.one K.digit)

/-- `\b\d(?:[ -]?\d){12,18}\b`. -/
def ccRe : Regex :=
  .all [.edge, .one K.digit, times 12 (cardDigit K) (upTo 6 (cardDigit K)), .edge]

/-- `[\s\-]?`. -/
def separator : Regex := opt (.one fun c => K.space c || c == '-')

/-- `\(?\d{2}\)?[\s\-]?\d{4,5}[\s\-]?\d{4}\b`. -/
def phoneRe : Regex :=
  .all (opt (lit '(') :: digits K 2 ++ opt (lit ')') :: separator K :: digits K 4 ++
    opt (.one K.digit) :: separator K :: digits K 4 ++ [.edge])

/-- `\b\d{1,2}\.\d{3}\.\d{3}-[\dXx]\b`. -/
def rgRe : Regex :=
  .all (.edge :: .one K.digit :: opt (.one K.digit) :: lit '.' :: digits K 3 ++ lit '.' ::
    digits K 3 ++ lit '-' :: .one (fun c => K.digit c || c == 'X' || c == 'x') :: [.edge])

end

def cpfMarker : Text := "⟨CPF_REDACTED⟩".toList
def cnpjMarker : Text := "⟨CNPJ_REDACTED⟩".toList
def emailMarker : Text := "⟨EMAIL_REDACTED⟩".toList
def ccMarker : Text := "⟨CC_REDACTED⟩".toList
def phoneMarker : Text := "⟨PHONE_REDACTED⟩".toList
def rgMarker : Text := "⟨RG_REDACTED⟩".toList

/-- The callback of the card numbers. -/
def maskCard (m : Text) : Text :=
  let digits := m.filter fun c => c != ' ' && c != '-'
  if digits.length < 13 ∨ digits.length > 19 then m else ccMarker

/-- A replacement by a marker. -/
def mask (K : Classes) (r : Classes → Regex) (marker : Text) (s : Text) : Text :=
  replaceAll K.word (r K) (fun _ => marker) s

/-- `maskPii`. -/
def maskPii (value : Text) : Text :=
  let K := jsClasses
  let s := mask K cnpjRe cnpjMarker value
  let s := mask K cpfRe cpfMarker s
  let s := mask K (fun _ => emailRe) emailMarker s
  let s := replaceAll K.word (ccRe K) maskCard s
  let s := mask K phoneRe phoneMarker s
  mask K rgRe rgMarker s

/-- The first four replacements of `mask_pii`. -/
def beforePhones (K : Classes) (s : Text) : Text :=
  let s := mask K cnpjRe cnpjMarker s
  let s := mask K cpfRe cpfMarker s
  let s := mask K (fun _ => emailRe) emailMarker s
  mask K ccRe ccMarker s

/-- `mask_pii`. -/
def Host.maskPii (K : Classes) (input : Text) : Text :=
  mask K rgRe rgMarker (mask K phoneRe phoneMarker (beforePhones K input))

/-! ## 2. What the expressions have in common -/

variable {r : Regex} {p : Char → Bool}

section

variable {w : Char → Bool}

/-- Every match ends behind a character of a word. -/
def Wordy (w : Char → Bool) (r : Regex) : Prop := ∀ k, ∀ m ∈ r.ends w k, m.1 = true

/-- A match from behind a character of a word ends behind one. -/
def KeepsWord (w : Char → Bool) (r : Regex) : Prop :=
  ∀ k, k.1 = true → ∀ m ∈ r.ends w k, m.1 = true

theorem solid_one (p : Char → Bool) : (Regex.one p).Solid w := by
  intro k m hm
  obtain ⟨c, hk, -, -⟩ := mem_ends_one.mp hm
  rw [hk]
  exact Nat.lt_succ_self _

theorem shorter (r : Regex) {k m : Place} (h : m ∈ r.ends w k) : m.2.length ≤ k.2.length := by
  obtain ⟨u, hu, -⟩ := ends_split r h
  rw [hu, List.length_append]
  exact Nat.le_add_left _ _

theorem solid_seq {a b : Regex} (h : a.Solid w ∨ b.Solid w) : (a.seq b).Solid w := by
  intro k m hm
  obtain ⟨l, hl, hm⟩ := mem_ends_seq.mp hm
  rcases h with h | h
  · exact lt_of_le_of_lt (shorter b hm) (h k l hl)
  · exact lt_of_lt_of_le (h l m hm) (shorter a hl)

theorem wordy_one (h : ∀ c, p c = true → w c = true) : Wordy w (.one p) := by
  intro k m hm
  obtain ⟨c, -, hc, hf⟩ := mem_ends_one.mp hm
  rw [hf]
  exact h c hc

theorem wordy_seq {a b : Regex} (h : Wordy w b ∨ Wordy w a ∧ KeepsWord w b) : Wordy w (a.seq b) := by
  intro k m hm
  obtain ⟨l, hl, hm⟩ := mem_ends_seq.mp hm
  rcases h with h | ⟨ha, hb⟩
  · exact h l m hm
  · exact hb l (ha k l hl) m hm

theorem keepsWord_many (h : ∀ c, p c = true → w c = true) :
    KeepsWord w (.many p) := by
  intro k hk m hm
  obtain ⟨b, s⟩ := k
  obtain ⟨u, -, hf, hall⟩ := mem_manyEnds.mp hm
  rw [hf]
  clear hf hm
  induction u generalizing b with
  | nil => exact hk
  | cons c u ih =>
    obtain ⟨hc, hall⟩ := List.forall_mem_cons.mp hall
    exact ih (w c) (h c hc) hall

theorem keepsWord_upTo (h : Wordy w r) (n : Nat) : KeepsWord w (upTo n r) := by
  induction n with
  | zero =>
    intro k hk m hm
    obtain rfl := List.mem_singleton.mp hm
    exact hk
  | succ n ih =>
    intro k hk m hm
    rcases mem_ends_alt.mp hm with hm | hm
    · exact wordy_seq (.inr ⟨h, ih⟩) k m hm
    · obtain rfl := List.mem_singleton.mp hm
      exact hk

theorem wordy_times {r s : Regex} (hr : Wordy w r) (hs : KeepsWord w s) (n : Nat) :
    Wordy w (times (n + 1) r s) := by
  have hkeep : KeepsWord w (times n r s) := by
    induction n with
    | zero => exact hs
    | succ n ih => exact fun k _ => wordy_seq (.inr ⟨hr, ih⟩) k
  exact wordy_seq (.inr ⟨hr, hkeep⟩)

/-- A word and its edge. -/
theorem closed_edge (hs : r.Solid w) (hw : Wordy w r) : (r.seq .edge).Closed w := by
  refine ⟨solid_seq (.inl hs), ?_⟩
  intro k m hm
  obtain ⟨l, hl, hm⟩ := mem_ends_seq.mp hm
  obtain ⟨rfl, hedge⟩ := mem_ends_edge.mp hm
  have htrue := hw k m hl
  rw [htrue] at hedge
  exact ⟨htrue, by simpa using hedge.symm⟩

theorem closed_seq {a b : Regex} (h : b.Closed w) : (a.seq b).Closed w := by
  refine ⟨solid_seq (.inr h.solid), ?_⟩
  intro k m hm
  obtain ⟨l, -, hm⟩ := mem_ends_seq.mp hm
  exact h.closes l m hm

theorem closed_letters (h : ∀ c, p c = true → w c = true) :
    (Regex.seq (.one p) (.seq (.many p) .edge)).Closed w := by
  refine ⟨solid_seq (.inl (solid_one p)), ?_⟩
  intro k m hm
  obtain ⟨l, hl, hm⟩ := mem_ends_seq.mp hm
  obtain ⟨l', hl', hm⟩ := mem_ends_seq.mp hm
  obtain ⟨rfl, hedge⟩ := mem_ends_edge.mp hm
  have htrue := keepsWord_many h l (wordy_one h k l hl) m hl'
  rw [htrue] at hedge
  exact ⟨htrue, by simpa using hedge.symm⟩

theorem leads_edge (r : Regex) : (Regex.seq .edge r).Leads w := by
  intro k m hm
  obtain ⟨l, hl, -⟩ := mem_ends_seq.mp hm
  exact (mem_ends_edge.mp hl).2

theorem indifferent_opt {p q : Char → Bool} (r : Regex) :
    (Regex.seq (opt (.one p)) (.seq (.one q) r)).Indifferent w := by
  intro b b' s
  cases s with
  | nil => simp [ends, opt]
  | cons c s =>
    by_cases hp : p c = true
    · by_cases hq : q c = true <;> simp [ends, opt, hp, hq]
    · by_cases hq : q c = true <;> simp [ends, opt, hp, hq]

end

/-- An expression whose matches end words and begin at edges or anywhere, that takes no bracket, and
    that matches nothing in a text of letters and underscores. -/
structure Pattern (K : Classes) (r : Regex) : Prop where
  closed : r.Closed K.word
  start : r.Leads K.word ∨ r.Indifferent K.word
  opening : r.Avoids '⟨'
  closing : r.Avoids '⟩'
  letters : ∀ t : Text, (∀ c ∈ t, c.isAlpha = true ∨ c = '_') → ∀ b, r.ends K.word (b, t) = []

section

variable {K : Classes}

/-- A letter is an ASCII character and no digit. -/
theorem alpha_ascii {c : Char} (h : c.isAlpha = true) : c.toNat < 128 ∧ c.isDigit = false := by
  have hascii : c.toNat < 128 := by
    simp only [Char.isAlpha, Char.isUpper, Char.isLower, Bool.or_eq_true, Bool.and_eq_true,
      decide_eq_true_eq] at h
    rcases h with ⟨-, h⟩ | ⟨-, h⟩
    · exact lt_of_le_of_lt h (by decide)
    · exact lt_of_le_of_lt h (by decide)
  have hall : ∀ n < 128, (Char.ofNat n).isAlpha = true → (Char.ofNat n).isDigit = false := by decide
  have hdigit := hall c.toNat hascii
  rw [Char.ofNat_toNat] at hdigit
  exact ⟨hascii, hdigit h⟩

theorem Classes.word_of_alpha (K : Classes) {c : Char} (h : c.isAlpha = true) : K.word c = true := by
  rw [(K.ascii c (alpha_ascii h).1).2]
  simp [isWordChar, Char.isAlphanum, h]

/-- A letter or an underscore is no digit, no parenthesis and no at sign. -/
theorem Classes.letter_ne (K : Classes) {c : Char} (h : c.isAlpha = true ∨ c = '_') :
    K.digit c = false ∧ c ≠ '(' ∧ c ≠ '@' := by
  rcases h with h | rfl
  · obtain ⟨hascii, hdigit⟩ := alpha_ascii h
    refine ⟨(K.ascii c hascii).1.trans hdigit, ?_, ?_⟩
    · rintro rfl
      exact absurd h (by decide)
    · rintro rfl
      exact absurd h (by decide)
  · exact ⟨(K.ascii '_' (by decide)).1, by decide, by decide⟩

theorem ends_one_none {w : Char → Bool} {b : Bool} {t : Text}
    (h : ∀ c, t.head? = some c → p c = false) : (Regex.seq (.one p) r).ends w (b, t) = [] := by
  cases t with
  | nil => rfl
  | cons c t => simp [ends, h c rfl]

theorem ends_edge_none {w : Char → Bool} {b : Bool} {t : Text} (h : r.ends w (b, t) = []) :
    (Regex.seq .edge r).ends w (b, t) = [] := by
  rw [ends, ends]
  split
  · rw [List.flatMap_singleton, h]
  · rfl

/-- The first characters are digits behind an edge. -/
theorem letters_digit (t : Text) (ht : ∀ c ∈ t, c.isAlpha = true ∨ c = '_') (b : Bool) :
    (Regex.seq .edge (.seq (.one K.digit) r)).ends K.word (b, t) = [] :=
  ends_edge_none (ends_one_none fun _ hc => (K.letter_ne (ht _ (List.mem_of_mem_head? hc))).1)

theorem pattern_of_digit (hr : r.Closed K.word)
    (hopen : r.Avoids '⟨') (hclose : r.Avoids '⟩') :
    Pattern K (.seq .edge (.seq (.one K.digit) r)) where
  closed := closed_seq (closed_seq hr)
  start := .inl (leads_edge _)
  opening := ⟨trivial, (K.brackets _ (.inl rfl)).1, hopen⟩
  closing := ⟨trivial, (K.brackets _ (.inr rfl)).1, hclose⟩
  letters := letters_digit

/-- The last digit and the edge behind it. -/
theorem closed_digit : (Regex.seq (.one K.digit) .edge).Closed K.word :=
  closed_edge (solid_one _) (wordy_one K.word_of_digit)

theorem pattern_cnpj : Pattern K (cnpjRe K) := by
  have hopen := (K.brackets '⟨' (.inl rfl)).1
  have hclose := (K.brackets '⟩' (.inr rfl)).1
  refine pattern_of_digit ?_ ?_ ?_
  · iterate 16 refine closed_seq ?_
    exact closed_digit
  · simp [Avoids, lit, all, digits, hopen, List.replicate]
  · simp [Avoids, lit, all, digits, hclose, List.replicate]

theorem pattern_cpf : Pattern K (cpfRe K) := by
  have hopen := (K.brackets '⟨' (.inl rfl)).1
  have hclose := (K.brackets '⟩' (.inr rfl)).1
  refine pattern_of_digit ?_ ?_ ?_
  · iterate 12 refine closed_seq ?_
    exact closed_digit
  · simp [Avoids, lit, all, digits, hopen, List.replicate]
  · simp [Avoids, lit, all, digits, hclose, List.replicate]

theorem pattern_rg : Pattern K (rgRe K) := by
  have hopen := (K.brackets '⟨' (.inl rfl)).1
  have hclose := (K.brackets '⟩' (.inr rfl)).1
  have hlast : ∀ c, (K.digit c || c == 'X' || c == 'x') = true → K.word c = true := by
    intro c hc
    simp only [Bool.or_eq_true, beq_iff_eq] at hc
    rcases hc with (hc | rfl) | rfl
    · exact K.word_of_digit c hc
    · exact K.word_of_alpha rfl
    · exact K.word_of_alpha rfl
  refine pattern_of_digit ?_ ?_ ?_
  · iterate 10 refine closed_seq ?_
    exact closed_edge (solid_one _) (wordy_one hlast)
  · simp [Avoids, lit, all, opt, digits, hopen, List.replicate]
  · simp [Avoids, lit, all, opt, digits, hclose, List.replicate]

theorem pattern_cc : Pattern K (ccRe K) := by
  have hopen := (K.brackets '⟨' (.inl rfl)).1
  have hclose := (K.brackets '⟩' (.inr rfl)).1
  have hdigit : Wordy K.word (cardDigit K) := wordy_seq (.inl (wordy_one K.word_of_digit))
  have hwordy : Wordy K.word (times 12 (cardDigit K) (upTo 6 (cardDigit K))) :=
    wordy_times hdigit (keepsWord_upTo hdigit 6) 11
  have hsolid : (times 12 (cardDigit K) (upTo 6 (cardDigit K))).Solid K.word :=
    solid_seq (.inl (solid_seq (.inr (solid_one _))))
  have havoids : ∀ x : Char, K.digit x = false → x ≠ ' ' → x ≠ '-' → ∀ n k : Nat,
      (times n (cardDigit K) (upTo k (cardDigit K))).Avoids x := by
    intro x hx hspace hminus n k
    have hone : (cardDigit K).Avoids x := by simp [Avoids, opt, cardDigit, hx, hspace, hminus]
    have hupTo : (upTo k (cardDigit K)).Avoids x := by
      induction k with
      | zero => trivial
      | succ k ih => exact ⟨⟨hone, ih⟩, trivial⟩
    induction n with
    | zero => exact hupTo
    | succ n ih => exact ⟨hone, ih⟩
  refine pattern_of_digit (closed_edge hsolid hwordy) ?_ ?_
  · exact ⟨havoids _ hopen (by decide) (by decide) 12 6, trivial⟩
  · exact ⟨havoids _ hclose (by decide) (by decide) 12 6, trivial⟩

theorem pattern_phone : Pattern K (phoneRe K) where
  closed := by
    iterate 14 refine closed_seq ?_
    exact closed_digit
  start := .inr (indifferent_opt _)
  opening := by
    obtain ⟨hdigit, -, hspace⟩ := K.brackets '⟨' (.inl rfl)
    simp [phoneRe, Avoids, lit, all, opt, digits, separator, hdigit, hspace, List.replicate]
  closing := by
    obtain ⟨hdigit, -, hspace⟩ := K.brackets '⟩' (.inr rfl)
    simp [phoneRe, Avoids, lit, all, opt, digits, separator, hdigit, hspace, List.replicate]
  letters := by
    intro t ht b
    cases t with
    | nil => rfl
    | cons c t =>
      obtain ⟨hdigit, hparen, -⟩ := K.letter_ne (ht c List.mem_cons_self)
      simp [phoneRe, ends, lit, all, opt, digits, List.replicate, hdigit, hparen]

theorem pattern_email : Pattern K emailRe where
  closed := by
    iterate 8 refine closed_seq ?_
    exact closed_letters fun c hc => K.word_of_alpha hc
  start := .inl (leads_edge _)
  opening := by
    simp [emailRe, Avoids, lit, all]
    decide
  closing := by
    simp [emailRe, Avoids, lit, all]
    decide
  letters := by
    intro t ht b
    rw [List.eq_nil_iff_forall_not_mem]
    intro m hm
    obtain ⟨l₁, h₁, hm⟩ := mem_ends_seq.mp hm
    obtain ⟨l₂, h₂, hm⟩ := mem_ends_seq.mp hm
    obtain ⟨l₃, h₃, hm⟩ := mem_ends_seq.mp hm
    obtain ⟨l₄, h₄, -⟩ := mem_ends_seq.mp hm
    obtain ⟨u₁, hu₁, -⟩ := ends_split _ h₁
    obtain ⟨u₂, hu₂, -⟩ := ends_split _ h₂
    obtain ⟨u₃, hu₃, -⟩ := ends_split _ h₃
    obtain ⟨c, hc, hat, -⟩ := mem_ends_one.mp h₄
    obtain rfl : c = '@' := by simpa using hat
    have hmem : '@' ∈ t := by
      have htext : t = u₁ ++ (u₂ ++ (u₃ ++ '@' :: l₄.2)) := by
        rw [← hc, ← hu₃, ← hu₂, ← hu₁]
      rw [htext]
      simp
    exact (K.letter_ne (ht '@' hmem)).2.2 rfl

end

end Veesker.Pii
