/-
  File:      Veesker/Shim/Pieces.lean
  Subject:   MASKED TEXTS, PIECE BY PIECE: what `maskStrings` makes of a text, and what
             `unmaskStrings` makes of a text whose placeholders are all its own.

  * `maskStrings_eq` -- the masked text is the text's pieces: its characters outside literals, and
    a placeholder for each literal, numbered in order;
  * `Clean` -- no characters that read as a placeholder;
  * `unmaskStrings_render` -- clean pieces come back with the literals in their places;
  * `unmask_mask` -- **masked and unmasked a text is what it was**.
-/
import Veesker.Shim.Translator

namespace Veesker.Shim

open List

/-! ## 1. Pieces -/

inductive Piece where
  | char (c : Char)
  | lit (n : Nat)
  deriving DecidableEq

def Piece.text : Piece → Text
  | .char c => [c]
  | .lit n => placeholder n

def render (ps : List Piece) : Text := ps.flatMap Piece.text

def chars (t : Text) : List Piece := t.map .char

/-- The literals, in order. -/
def refs : List Piece → List Nat
  | [] => []
  | .char _ :: ps => refs ps
  | .lit n :: ps => n :: refs ps

/-- Characters that read as a placeholder. -/
def Fake (t : Text) : Prop := ∃ ds, ds ≠ [] ∧ (∀ c ∈ ds, Char.isDigit c = true) ∧
  t = STR_PLACEHOLDER_OPEN ++ ds ++ STR_PLACEHOLDER_CLOSE

/-- No characters but the literals' own placeholders read as one. -/
def Clean (ps : List Piece) : Prop := ∀ t, Fake t → ¬ chars t <:+: ps

/-- The pieces with the literals in their places. -/
def expand (literals : List Text) (ps : List Piece) : Text :=
  ps.flatMap fun
    | .char c => [c]
    | .lit n => (literals[n]?).getD "undefined".toList

section Basics

variable {ps qs : List Piece} {c : Char} {n : Nat} {t : Text} {literals : List Text}

@[simp] theorem render_nil : render [] = [] := rfl

@[simp] theorem render_char : render (.char c :: ps) = c :: render ps := rfl

@[simp] theorem render_lit : render (.lit n :: ps) = placeholder n ++ render ps := rfl

@[simp] theorem render_append : render (ps ++ qs) = render ps ++ render qs := flatMap_append

@[simp] theorem render_chars : render (chars t) = t := by
  induction t with
  | nil => rfl
  | cons c t ih => exact congrArg (c :: ·) ih

@[simp] theorem chars_append {s : Text} : chars (s ++ t) = chars s ++ chars t := map_append

@[simp] theorem chars_cons : chars (c :: t) = .char c :: chars t := rfl

@[simp] theorem chars_nil : chars [] = [] := rfl

@[simp] theorem refs_append : refs (ps ++ qs) = refs ps ++ refs qs := by
  induction ps with
  | nil => rfl
  | cons p ps ih =>
    cases p with
    | char c => exact ih
    | lit n => exact congrArg (n :: ·) ih

@[simp] theorem refs_chars : refs (chars t) = [] := by
  induction t with
  | nil => rfl
  | cons c t ih => exact ih

theorem Clean.infix (h : Clean ps) (hqs : qs <:+: ps) : Clean qs := fun t ht hi => h t ht (hi.trans hqs)

theorem Clean.tail {p : Piece} (h : Clean (p :: ps)) : Clean ps :=
  h.infix (suffix_cons p ps).isInfix

theorem Clean.left (h : Clean (ps ++ qs)) : Clean ps := h.infix (prefix_append ps qs).isInfix

theorem Clean.right (h : Clean (ps ++ qs)) : Clean qs := h.infix (suffix_append ps qs).isInfix

/-- A stretch without U+0001 is a stretch of characters. -/
theorem render_split {s : Text} (ht : '\x01' ∉ t) (h : render ps = t ++ s) :
    ∃ qs, ps = chars t ++ qs ∧ render qs = s := by
  induction t generalizing ps with
  | nil => exact ⟨ps, rfl, h⟩
  | cons c t ih =>
    rw [mem_cons, not_or] at ht
    cases ps with
    | nil => cases h
    | cons p ps =>
      cases p with
      | char c' =>
        rw [render_char, cons_append] at h
        obtain ⟨rfl, h'⟩ := List.cons.inj h
        obtain ⟨qs, rfl, hqs⟩ := ih ht.2 h'
        exact ⟨qs, rfl, hqs⟩
      | lit n => exact absurd (List.cons.inj h).1 ht.1

end Basics

/-! ## 2. Placeholders -/

theorem placeholder_eq (n : Nat) : placeholder n =
    '\x01' :: 'V' :: ("SKSTR".toList ++ Nat.toDigits 10 n ++ ['\x02']) := rfl

variable {c : Char}

theorem isDigit_of_mem {n : Nat} (h : c ∈ Nat.toDigits 10 n) : c.isDigit = true :=
  Nat.isDigit_of_mem_toDigits (by decide) (by decide) h

theorem isWordChar_of_isDigit (h : c.isDigit = true) : isWordChar c = true := by
  simp [isWordChar, Char.isAlphanum, h]

/-- The inside of a placeholder is a word. -/
theorem isWordChar_inside {n : Nat}
    (h : c ∈ 'V' :: ("SKSTR".toList ++ Nat.toDigits 10 n)) : isWordChar c = true := by
  have h' : c ∈ "VSKSTR".toList ∨ c ∈ Nat.toDigits 10 n := by
    rwa [← cons_append, mem_append] at h
  obtain h' | h' := h'
  · have hall : "VSKSTR".toList.all isWordChar = true := rfl
    exact all_eq_true.mp hall c h'
  · exact isWordChar_of_isDigit (isDigit_of_mem h')

theorem mem_placeholder {n : Nat} (h : c ∈ placeholder n) :
    c = '\x01' ∨ isWordChar c = true ∨ c = '\x02' := by
  rw [placeholder_eq] at h
  obtain h | h := mem_cons.mp h
  · exact .inl h
  · rw [← cons_append, mem_append, mem_singleton] at h
    exact .inr (h.imp_left isWordChar_inside)

/-- What reads as a placeholder is a word between the two control characters. -/
theorem Fake.word {t : Text} (h : Fake t) : ∃ w, t = '\x01' :: 'V' :: w ++ ['\x02'] ∧
    ∀ c ∈ 'V' :: w, isWordChar c = true := by
  obtain ⟨ds, -, hds, rfl⟩ := h
  refine ⟨"SKSTR".toList ++ ds, rfl, fun c hc => ?_⟩
  have h' : c ∈ "VSKSTR".toList ∨ c ∈ ds := by rwa [← cons_append, mem_append] at hc
  obtain h' | h' := h'
  · have hall : "VSKSTR".toList.all isWordChar = true := rfl
    exact all_eq_true.mp hall c h'
  · exact isWordChar_of_isDigit (hds c h')

theorem placeholderAt_fake {s rest : Text} {n : Nat} (h : placeholderAt s = some (n, rest)) :
    ∃ t, Fake t ∧ s = t ++ rest := by
  unfold placeholderAt at h
  split at h
  swap
  · cases h
  rename_i hstart
  obtain ⟨behind, rfl⟩ := startsWith_iff.mp hstart
  rw [drop_left] at h
  dsimp only at h
  split at h
  · cases h
  rename_i hne
  split at h
  swap
  · cases h
  rename_i rest' e
  obtain rfl := (Prod.mk.inj (Option.some.inj h)).2
  refine ⟨_, ⟨_, hne, fun c hc => mem_takeWhile_imp hc, rfl⟩, ?_⟩
  have hsplit := takeWhile_append_dropWhile (p := Char.isDigit) (l := behind)
  rw [e] at hsplit
  conv_lhs => rw [← hsplit]
  simp [STR_PLACEHOLDER_CLOSE]

/-- No placeholder starts with a character of clean pieces. -/
theorem not_placeholderAt {ps : List Piece} (h : Clean (.char c :: ps)) :
    placeholderAt (c :: render ps) = none := by
  cases hp : placeholderAt (c :: render ps) with
  | none => rfl
  | some r =>
    obtain ⟨n, rest⟩ := r
    obtain ⟨t, ht, e⟩ := placeholderAt_fake hp
    obtain ⟨w, rfl, hw⟩ := ht.word
    obtain ⟨rfl, e'⟩ := List.cons.inj e
    have hno : '\x01' ∉ 'V' :: w ++ ['\x02'] := by
      rw [mem_append, not_or]
      exact ⟨fun hc => absurd (hw _ hc) (by decide), by decide⟩
    obtain ⟨qs, rfl, -⟩ := render_split hno e'
    exact (h _ ht ⟨[], qs, rfl⟩).elim

/-! ## 3. Clean pieces together -/

/-- Clean pieces are clean together, unless a placeholder begins in one and ends in the other. -/
theorem clean_append {ps qs : List Piece} (hps : Clean ps) (hqs : Clean qs)
    (h : ∀ t₁ t₂, t₁ ≠ [] → t₂ ≠ [] → Fake (t₁ ++ t₂) → chars t₁ <:+ ps → ¬ chars t₂ <+: qs) :
    Clean (ps ++ qs) := by
  intro t ht hi
  obtain ⟨u, v, e⟩ := hi
  obtain ⟨r, e₁, e₂⟩ | ⟨r, e₁, e₂⟩ := append_eq_append_iff.mp e
  · exact hps t ht ⟨u, r, e₁.symm⟩
  obtain ⟨r', e₃, e₄⟩ | ⟨r', e₃, e₄⟩ := append_eq_append_iff.mp e₁
  · -- it begins in the first
    obtain ⟨t₁, t₂, rfl, rfl, rfl⟩ := map_eq_append_iff.mp e₄
    by_cases h₁ : t₁ = []
    · exact hqs t₂ (by simpa [h₁] using ht) ⟨[], v, e₂.symm⟩
    by_cases h₂ : t₂ = []
    · exact hps t₁ (by simpa [h₂] using ht) ⟨u, [], by rw [append_nil]; exact e₃.symm⟩
    · exact h t₁ t₂ h₁ h₂ ht ⟨u, e₃.symm⟩ ⟨v, e₂.symm⟩
  · exact hqs t ht ⟨r', v, by rw [← e₄]; exact e₂.symm⟩

section Together

variable {ps qs : List Piece} {t t₁ t₂ : Text} {c : Char}

theorem Fake.mem_front (h : Fake (t₁ ++ t₂)) (h₁ : t₁ ≠ []) : '\x01' ∈ t₁ := by
  obtain ⟨w, e, -⟩ := h.word
  cases t₁ with
  | nil => exact (h₁ rfl).elim
  | cons a t₁ => exact (List.cons.inj e).1 ▸ mem_cons_self

theorem Fake.of_mem_front (h : Fake (t₁ ++ t₂)) (h₂ : t₂ ≠ []) (hc : c ∈ t₁) :
    c ∈ STR_PLACEHOLDER_OPEN ∨ c.isDigit = true := by
  obtain ⟨ds, -, hds, e⟩ := h
  obtain ⟨t₂, x, rfl⟩ := (eq_nil_or_concat t₂).resolve_left h₂
  rw [concat_eq_append, ← append_assoc] at e
  have e' := (append_inj' e rfl).1
  exact (mem_append.mp (e' ▸ mem_append_left t₂ hc)).imp_right (hds c)

theorem Fake.of_mem_behind (h : Fake (t₁ ++ t₂)) (h₁ : t₁ ≠ []) (hc : c ∈ t₂) :
    isWordChar c = true ∨ c = '\x02' := by
  obtain ⟨w, e, hw⟩ := h.word
  cases t₁ with
  | nil => exact (h₁ rfl).elim
  | cons a t₁ =>
    have e' : t₁ ++ t₂ = 'V' :: w ++ ['\x02'] := (List.cons.inj e).2
    obtain hc | hc := mem_append.mp (e' ▸ mem_append_right t₁ hc)
    · exact .inl (hw c hc)
    · exact .inr (mem_singleton.mp hc)

theorem mem_of_suffix (h : chars t <:+ ps) (hc : c ∈ t) : .char c ∈ ps :=
  h.subset (mem_map_of_mem hc)

theorem mem_chars : .char c ∈ chars t ↔ c ∈ t := by
  constructor
  · intro h
    obtain ⟨d, hd, e⟩ := mem_map.mp h
    exact Piece.char.inj e ▸ hd
  · exact mem_map_of_mem

theorem clean_chars (h : '\x01' ∉ t) : Clean (chars t) := by
  intro f hf hi
  obtain ⟨w, rfl, -⟩ := hf.word
  exact h (mem_chars.mp (hi.subset mem_cons_self))

/-- Behind a text without U+0001. -/
theorem clean_text (h : '\x01' ∉ t) (hqs : Clean qs) : Clean (chars t ++ qs) :=
  clean_append (clean_chars h) hqs fun _ _ h₁ _ ht hi _ =>
    h (mem_chars.mp (mem_of_suffix hi (ht.mem_front h₁)))

/-- In front of a character that is in no placeholder, or begins one. -/
theorem clean_stop (hps : Clean ps) (hqs : Clean (.char c :: qs)) (hc : isWordChar c = false)
    (hc' : c ≠ '\x02') : Clean (ps ++ .char c :: qs) := by
  refine clean_append hps hqs fun t₁ t₂ h₁ h₂ ht _ hi => ?_
  cases t₂ with
  | nil => exact h₂ rfl
  | cons d t₂ =>
    obtain ⟨v, e⟩ := hi
    obtain rfl := Piece.char.inj (List.cons.inj e).1
    obtain hd | hd := ht.of_mem_behind h₁ mem_cons_self
    · rw [hc] at hd
      cases hd
    · exact hc' hd

/-- Behind a character that is in no placeholder, or ends one. -/
theorem clean_behind (hps : Clean (ps ++ [.char c])) (hqs : Clean qs)
    (hc : c ∉ STR_PLACEHOLDER_OPEN) (hc' : c.isDigit = false) : Clean (ps ++ [.char c] ++ qs) := by
  refine clean_append hps hqs fun t₁ t₂ h₁ h₂ ht hi _ => ?_
  obtain ⟨t, d, rfl⟩ := (eq_nil_or_concat t₁).resolve_left h₁
  obtain ⟨u, e⟩ := hi
  rw [concat_eq_append, chars_append, ← append_assoc] at e
  obtain rfl := Piece.char.inj (List.cons.inj (append_inj' e rfl).2).1
  obtain hd | hd := ht.of_mem_front h₂ (c := d) (by simp)
  · exact hc hd
  · rw [hc'] at hd
    cases hd

end Together

/-! ## 4. A pass goes on -/

/-- The last character of a text, or what stands in front of it. -/
def lastOf : Option Char → Text → Option Char
  | prev, [] => prev
  | _, c :: s => lastOf (some c) s

theorem lastOf_append (prev : Option Char) (s t : Text) :
    lastOf prev (s ++ t) = lastOf (lastOf prev s) t := by
  induction s generalizing prev with
  | nil => rfl
  | cons c s ih => exact ih _

/-- Behind a text that is not empty it does not matter what stands in front. -/
theorem lastOf_cons (prev : Option Char) (c : Char) (s : Text) :
    ∃ d ∈ c :: s, lastOf prev (c :: s) = some d := by
  induction s generalizing c with
  | nil => exact ⟨c, mem_cons_self, rfl⟩
  | cons d s ih =>
    obtain ⟨e, he, h⟩ := ih d
    exact ⟨e, mem_cons_of_mem _ he, h⟩

section Scan

variable {find : Option Char → Text → Found} {prev : Option Char}

theorem scanFrom_skip (s t : Text) :
    scanFrom find prev s.length (s ++ t) = scanFrom find (lastOf prev s) 0 t := by
  induction s generalizing prev with
  | nil => rfl
  | cons c s ih => exact ih

theorem scanFrom_hit {x t r : Text}
    (h : find prev (c :: x ++ t) = .hit (c :: x).length r) :
    scanFrom find prev 0 (c :: x ++ t) = r ++ scanFrom find (lastOf prev (c :: x)) 0 t := by
  rw [cons_append] at h ⊢
  rw [scanFrom, h]
  exact congrArg (r ++ ·) (scanFrom_skip x t)

theorem scanFrom_nothing {t : Text} (h : find prev (c :: t) = .nothing) :
    scanFrom find prev 0 (c :: t) = c :: scanFrom find (some c) 0 t := by
  rw [scanFrom, h]

/-- A stretch in which nothing is found. -/
theorem scanFrom_pass {x t : Text}
    (h : ∀ u c v, x = u ++ c :: v → find (lastOf prev u) (c :: v ++ t) = .nothing) :
    scanFrom find prev 0 (x ++ t) = x ++ scanFrom find (lastOf prev x) 0 t := by
  induction x generalizing prev with
  | nil => rfl
  | cons c x ih =>
    have hc : find prev (c :: (x ++ t)) = .nothing := h [] c x rfl
    rw [cons_append, scanFrom_nothing hc]
    exact congrArg (c :: ·) (ih fun u d v e => h (c :: u) d v (by rw [e]; rfl))

theorem scan_id {t : Text}
    (h : ∀ u c v, t = u ++ c :: v → find (lastOf none u) (c :: v) = .nothing) :
    scan find t = t := by
  have := scanFrom_pass (x := t) (t := []) fun u c v e => by
    rw [append_nil]
    exact h u c v e
  rw [append_nil, scanFrom, append_nil] at this
  exact this

end Scan

/-! ## 5. Unmasking -/

section Unmask

variable {literals : List Text}

theorem placeholderAt_placeholder (n : Nat) (t : Text) :
    placeholderAt (placeholder n ++ t) = some (n, t) := by
  have hdigits : ∀ c ∈ Nat.toDigits 10 n, Char.isDigit c = true := fun c hc => isDigit_of_mem hc
  have hstart : startsWith (placeholder n ++ t) STR_PLACEHOLDER_OPEN = true := by
    rw [startsWith_iff]
    exact ⟨Nat.toDigits 10 n ++ STR_PLACEHOLDER_CLOSE ++ t, by
      simp only [placeholder, append_assoc]⟩
  have hdrop : (placeholder n ++ t).drop STR_PLACEHOLDER_OPEN.length =
      Nat.toDigits 10 n ++ '\x02' :: t := by
    rw [placeholder, append_assoc, append_assoc, drop_left]
    rfl
  have htake : (Nat.toDigits 10 n ++ '\x02' :: t).takeWhile Char.isDigit = Nat.toDigits 10 n := by
    rw [takeWhile_append_of_pos hdigits]
    simp
  have hrest : (Nat.toDigits 10 n ++ '\x02' :: t).dropWhile Char.isDigit = '\x02' :: t := by
    rw [dropWhile_append_of_pos hdigits]
    rfl
  rw [placeholderAt, if_pos hstart]
  simp only [hdrop, htake, hrest, Nat.toDigits_ne_nil, if_false, Nat.ofDigitChars_ten_toDigits]

/-- **Unmasking puts each literal in its place**, where every placeholder is a literal's. -/
theorem unmaskFrom_render {ps : List Piece} (h : Clean ps) (prev : Option Char) :
    scanFrom (fun _ s => findPlaceholder literals s) prev 0 (render ps) = expand literals ps := by
  induction ps generalizing prev with
  | nil => rfl
  | cons p ps ih =>
    cases p with
    | char c =>
      rw [render_char, scanFrom, findPlaceholder, not_placeholderAt h]
      exact congrArg (c :: ·) (ih h.tail _)
    | lit n =>
      have hfind : findPlaceholder literals (placeholder n ++ render ps) =
          .hit (placeholder n).length ((literals[n]?).getD "undefined".toList) := by
        rw [findPlaceholder, placeholderAt_placeholder]
        simp
      rw [render_lit]
      exact (scanFrom_hit hfind).trans
        (congrArg _ (ih h.tail _))

theorem unmaskStrings_render {ps : List Piece} (h : Clean ps) :
    unmaskStrings (render ps) literals = expand literals ps := unmaskFrom_render h none

end Unmask

/-! ## 6. Masking -/

def readFrom : MaskState → Nat → Text → List Piece
  | .code, _, [] => []
  | .literal _, n, [] => [.lit n]
  | .doubled _, n, [] => [.lit n]
  | .code, n, ch :: cs =>
    if ch ≠ '\'' then .char ch :: readFrom .code n cs else readFrom (.literal ['\'']) n cs
  | .literal lit, n, c :: cs =>
    if c = '\'' then
      if cs.head? = some '\'' then readFrom (.doubled (lit ++ ['\''])) n cs
      else .lit n :: readFrom .code (n + 1) cs
    else readFrom (.literal (lit ++ [c])) n cs
  | .doubled lit, n, c :: cs => readFrom (.literal (lit ++ [c])) n cs

def literalsFrom : MaskState → Text → List Text
  | .code, [] => []
  | .literal lit, [] => [lit]
  | .doubled lit, [] => [lit]
  | .code, ch :: cs =>
    if ch ≠ '\'' then literalsFrom .code cs else literalsFrom (.literal ['\'']) cs
  | .literal lit, c :: cs =>
    if c = '\'' then
      if cs.head? = some '\'' then literalsFrom (.doubled (lit ++ ['\''])) cs
      else (lit ++ ['\'']) :: literalsFrom .code cs
    else literalsFrom (.literal (lit ++ [c])) cs
  | .doubled lit, c :: cs => literalsFrom (.literal (lit ++ [c])) cs

/-- A SQL text as `maskStrings` reads it. -/
def pieces (sql : Text) : List Piece := readFrom .code 0 sql

/-- Its string literals, as `maskStrings` reads them. -/
def literals (sql : Text) : List Text := literalsFrom .code sql

theorem maskFrom_eq (st : MaskState) (m : MaskedSql) (s : Text) : maskFrom st m s =
    ⟨m.masked ++ render (readFrom st m.literals.length s), m.literals ++ literalsFrom st s⟩ := by
  induction s generalizing st m with
  | nil =>
    cases st with
    | code => simp [maskFrom, readFrom, literalsFrom]
    | literal lit => simp [maskFrom, readFrom, literalsFrom, MaskedSql.push]
    | doubled lit => simp [maskFrom, readFrom, literalsFrom, MaskedSql.push]
  | cons c cs ih =>
    cases st with
    | code =>
      rw [maskFrom, readFrom, literalsFrom]
      split
      · rw [ih]; simp
      · rw [ih]
    | literal lit =>
      rw [maskFrom, readFrom, literalsFrom]
      split
      · split
        · rw [ih]
        · rw [ih]; simp [MaskedSql.push]
      · rw [ih]
    | doubled lit => rw [maskFrom, readFrom, literalsFrom, ih]

theorem maskStrings_eq (sql : Text) :
    maskStrings sql = ⟨render (pieces sql), literals sql⟩ := by
  have := maskFrom_eq .code {} sql
  simpa [maskStrings, pieces, literals] using this

/-- What is read of a literal. -/
def MaskState.lit : MaskState → Text
  | .code => []
  | .literal lit => lit
  | .doubled lit => lit

theorem expand_readFrom (st : MaskState) (before : List Text) (s : Text) :
    expand (before ++ literalsFrom st s) (readFrom st before.length s) = st.lit ++ s := by
  induction s generalizing st before with
  | nil =>
    cases st with
    | code => rfl
    | literal lit => simp [readFrom, literalsFrom, expand, MaskState.lit]
    | doubled lit => simp [readFrom, literalsFrom, expand, MaskState.lit]
  | cons c cs ih =>
    cases st with
    | code =>
      rw [readFrom, literalsFrom]
      split
      · exact congrArg (c :: ·) (ih .code before)
      · rename_i hc
        rw [ih, not_not.mp hc]
        rfl
    | literal lit =>
      rw [readFrom, literalsFrom]
      split
      · rename_i hc
        rw [hc]
        split
        · rw [ih]; simp [MaskState.lit]
        · have := ih .code (before ++ [lit ++ ['\'']])
          rw [length_append, length_singleton, append_assoc] at this
          rw [expand, flatMap_cons]
          change _ ++ expand _ _ = _
          rw [singleton_append] at this
          rw [this]
          simp [MaskState.lit]
      · rw [ih]; simp [MaskState.lit]
    | doubled lit => rw [readFrom, literalsFrom, ih]; simp [MaskState.lit]

theorem expand_pieces (sql : Text) : expand (literals sql) (pieces sql) = sql := by
  have := expand_readFrom .code [] sql
  simpa [MaskState.lit, literals, pieces] using this

/-- **Masked and unmasked a text is what it was**, where no characters outside its literals read as
    a placeholder. -/
theorem unmask_mask {sql : Text} (h : Clean (pieces sql)) :
    unmaskStrings (maskStrings sql).masked (maskStrings sql).literals = sql := by
  rw [maskStrings_eq, unmaskStrings_render h, expand_pieces]

/-- The literals are numbered in their order. -/
theorem refs_readFrom (st : MaskState) (n : Nat) (s : Text) :
    refs (readFrom st n s) = List.range' n (literalsFrom st s).length := by
  induction s generalizing st n with
  | nil =>
    cases st with
    | code => rfl
    | literal lit => rfl
    | doubled lit => rfl
  | cons c cs ih =>
    cases st with
    | code =>
      rw [readFrom, literalsFrom]
      split
      · exact ih .code n
      · exact ih _ n
    | literal lit =>
      rw [readFrom, literalsFrom]
      split
      · split
        · exact ih _ n
        · rw [length_cons, List.range'_succ, refs, ih]
      · exact ih _ n
    | doubled lit =>
      rw [readFrom, literalsFrom]
      exact ih _ n

theorem refs_pieces (sql : Text) : refs (pieces sql) = List.range (literals sql).length := by
  rw [range_eq_range']
  exact refs_readFrom .code 0 sql

end Veesker.Shim
