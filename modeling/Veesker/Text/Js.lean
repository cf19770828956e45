/-
  File:      Veesker/Text/Js.lean
  Subject:   THE SOURCE LANGUAGE'S STRINGS, as lists of characters.

  Every program text of this development (a line, a statement, a whole buffer) is a `Text`.
  This file holds the library operations the source calls on strings, each by its documented
  behaviour, and the few facts about them the later files rest on:

  * `isSpace` -- the class `\s` of a pattern, which is also what `trim` removes;
  * `trimStart`, `trimEnd`, `trim`, `startsWith`, `endsWith`, `collapse`, `joinLines`;
  * `dropFinalSemicolon` -- `s.replace(/;\s*$/, "")`, with `dropFinalSemicolon_split`: what it
    removes is at most one `;` and white space.

  Nothing here names the repository.
-/
import Mathlib

namespace Veesker

open List

/-- A string: its characters, in order. -/
abbrev Text := List Char

instance : LawfulBEq Text := inferInstance

/-! ## 1. White space -/

/-- The code points of `\s` outside the interval U+2000 .. U+200A. -/
def spacePoints : List Nat :=
  [9, 10, 11, 12, 13, 32, 0xA0, 0x1680, 0x2028, 0x2029, 0x202F, 0x205F, 0x3000, 0xFEFF]

/-- `\s`: white space and line terminators. -/
def isSpace (c : Char) : Bool :=
  spacePoints.contains c.toNat || (decide (0x2000 ≤ c.toNat) && decide (c.toNat ≤ 0x200A))

/-- `[ \t]`. -/
def isBlankChar (c : Char) : Bool := c == ' ' || c == '\t'

theorem isSpace_of_isBlankChar {c : Char} (h : isBlankChar c = true) : isSpace c = true := by
  simp only [isBlankChar, Bool.or_eq_true, beq_iff_eq] at h
  rcases h with rfl | rfl <;> decide

/-- `\w`: a letter, a digit or the underscore, of ASCII only. -/
def isWordChar (c : Char) : Bool := c.isAlphanum || c == '_'

theorem isAlphanum_ascii {c : Char} (h : c.isAlphanum = true) : c.toNat < 128 := by
  have hz : 'z'.toNat = 122 ∧ 'Z'.toNat = 90 ∧ '9'.toNat = 57 := by decide
  simp only [Char.isAlphanum, Char.isAlpha, Char.isUpper, Char.isLower, Char.isDigit,
    Bool.or_eq_true, Bool.and_eq_true, decide_eq_true_eq, UInt32.le_iff_toNat_le] at h
  norm_num at h
  omega

/-! ## 2. Trimming, joining, searching -/

def trimStart (s : Text) : Text := s.dropWhile isSpace

def trimEnd (s : Text) : Text := s.rdropWhile isSpace

def trim (s : Text) : Text := trimEnd (trimStart s)

def startsWith (s w : Text) : Bool := w.isPrefixOf s

def endsWith (s w : Text) : Bool := w.isSuffixOf s

/-- `lines.join("\n")`. -/
def joinLines (lines : List Text) : Text := List.intercalate ['\n'] lines

/-- `s.replace(/\s+/g, " ")`: every maximal run of white space becomes one space. The flag says
    that the run a space was written for is still going on. -/
def collapseFrom : Bool → Text → Text
  | _, [] => []
  | inRun, c :: cs =>
    if isSpace c then
      if inRun then collapseFrom true cs else ' ' :: collapseFrom true cs
    else c :: collapseFrom false cs

def collapse (s : Text) : Text := collapseFrom false s

/-- `s.split(/\s+/)` on a text that neither starts nor ends with white space. -/
def splitSpaces : Text → List Text
  | [] => [[]]
  | c :: cs =>
    if isSpace c then
      match cs with
      | d :: _ => if isSpace d then splitSpaces cs else [] :: splitSpaces cs
      | [] => [[], []]
    else
      match splitSpaces cs with
      | w :: ws => (c :: w) :: ws
      | [] => [[c]]

/-- The last line of a join. -/
theorem joinLines_concat {lines : List Text} (h : lines ≠ []) (line : Text) :
    joinLines (lines ++ [line]) = joinLines lines ++ '\n' :: line := by
  induction lines with
  | nil => exact absurd rfl h
  | cons l ls ih =>
    cases ls with
    | nil => simp [joinLines]
    | cons m ms =>
      have := ih (by simp)
      simp only [joinLines, cons_append, intercalate_cons_cons] at this ⊢
      rw [this]
      simp

theorem startsWith_iff {s w : Text} : startsWith s w = true ↔ ∃ r, s = w ++ r := by
  unfold startsWith
  rw [List.isPrefixOf_iff_prefix]
  constructor
  · rintro ⟨r, h⟩; exact ⟨r, h.symm⟩
  · rintro ⟨r, h⟩; exact ⟨r, h.symm⟩

theorem endsWith_iff {s w : Text} : endsWith s w = true ↔ ∃ r, s = r ++ w := by
  unfold endsWith
  rw [isSuffixOf_iff_suffix]
  constructor
  · rintro ⟨r, h⟩; exact ⟨r, h.symm⟩
  · rintro ⟨r, h⟩; exact ⟨r, h.symm⟩

/-- What `rdropWhile` removes is a suffix of elements that meet the test. -/
theorem rdropWhile_split (p : Char → Bool) (s : Text) :
    ∃ d, s = s.rdropWhile p ++ d ∧ ∀ c ∈ d, p c = true := by
  refine ⟨(s.reverse.takeWhile p).reverse, ?_, fun c hc => ?_⟩
  · have h := takeWhile_append_dropWhile (p := p) (l := s.reverse)
    have h' := congrArg List.reverse h
    rw [reverse_append, reverse_reverse] at h'
    exact h'.symm
  · exact mem_takeWhile_imp (mem_reverse.mp hc)

/-- The last element `rdropWhile` keeps fails the test. -/
theorem rdropWhile_last {p : Char → Bool} {s r : Text} {c : Char}
    (h : s.rdropWhile p = r ++ [c]) : p c = false := by
  have hne : s.rdropWhile p ≠ [] := by rw [h]; simp
  have hl := rdropWhile_last_not p s hne
  simpa [h] using hl

/-- Cutting a suffix that meets the test changes nothing. -/
theorem rdropWhile_append_of_all {p : Char → Bool} {s d : Text} (h : ∀ c ∈ d, p c = true) :
    (s ++ d).rdropWhile p = s.rdropWhile p := by
  unfold List.rdropWhile
  rw [reverse_append, dropWhile_append_of_pos (fun c hc => h c (mem_reverse.mp hc))]

theorem trimStart_split (s : Text) :
    ∃ d, s = d ++ trimStart s ∧ ∀ c ∈ d, isSpace c = true :=
  ⟨s.takeWhile isSpace, (takeWhile_append_dropWhile).symm, fun _ hc =>
    mem_takeWhile_imp hc⟩

theorem trimStart_head {s r : Text} {c : Char} (h : trimStart s = c :: r) : isSpace c = false := by
  unfold trimStart at h
  have hne : s.dropWhile isSpace ≠ [] := by rw [h]; simp
  have hl := head_dropWhile_not isSpace hne
  simpa [h] using hl

/-! ## 3. The final semicolon -/

/-- `s.replace(/;\s*$/, "")`: where the text, white space at its end aside, ends in `;`, that
    `;` and the white space go; otherwise the text stays as it is. -/
def dropFinalSemicolon (s : Text) : Text :=
  if endsWith (trimEnd s) [';'] then (trimEnd s).dropLast else s

/-- **What `dropFinalSemicolon` removes**: nothing, or one `;` and the white space after it. -/
theorem dropFinalSemicolon_split (s : Text) :
    ∃ d, s = dropFinalSemicolon s ++ d ∧
      ((d = [] ∧ endsWith (trimEnd s) [';'] = false) ∨
        ∃ w, d = ';' :: w ∧ ∀ c ∈ w, isSpace c = true) := by
  obtain ⟨w, hs, hw⟩ := rdropWhile_split isSpace s
  by_cases h : endsWith (trimEnd s) [';'] = true
  · obtain ⟨r, hr⟩ := endsWith_iff.mp h
    refine ⟨';' :: w, ?_, Or.inr ⟨w, rfl, hw⟩⟩
    have hs' : s = r ++ [';'] ++ w := by rw [← hr]; exact hs
    unfold dropFinalSemicolon
    rw [if_pos h, hr, dropLast_concat]
    simpa using hs'
  · refine ⟨[], ?_, Or.inl ⟨rfl, by simpa using h⟩⟩
    unfold dropFinalSemicolon
    rw [if_neg h, append_nil]

end Veesker
