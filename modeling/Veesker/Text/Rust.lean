/-
  File:      Veesker/Text/Rust.lean
  Subject:   THE HOST LANGUAGE'S STRINGS, as lists of characters.

  What the host's standard library does with strings: its white space (`char::is_whitespace`, which
  is not the sidecar's `\s`), `str::trim` and `str::lines`. A file is read as a list of characters
  in which `none` stands for bytes that are no character.

  Nothing here names the repository.
-/
import Veesker.Text.Js

namespace Veesker.Rust

open List

/-- `char::is_whitespace`: the property White_Space. -/
def isWhitespace (c : Char) : Bool :=
  [9, 10, 11, 12, 13, 32, 0x85, 0xA0, 0x1680, 0x2028, 0x2029, 0x202F, 0x205F, 0x3000].contains c.toNat ||
    (decide (0x2000 ≤ c.toNat) && decide (c.toNat ≤ 0x200A))

def trim (s : Text) : Text := (s.dropWhile isWhitespace).rdropWhile isWhitespace

/-- `s.trim().is_empty()`. -/
def isBlank (s : Text) : Bool := s.all isWhitespace

/-- `a.eq_ignore_ascii_case(b)`. -/
def eqIgnoreAsciiCase (a b : Text) : Bool := a.map Char.toLower == b.map Char.toLower

/-! ## Lines -/

/-- A line without the carriage return before its line feed. -/
def chopReturn (s : Text) : Text := if s.getLast? = some '\r' then s.dropLast else s

/-- The lines from here on, `line` being what is read of the current one, last character first. -/
def linesFrom (line : Text) : Text → List Text
  | [] => if line.isEmpty then [] else [line.reverse]
  | c :: cs => if c = '\n' then chopReturn line.reverse :: linesFrom [] cs else linesFrom (c :: line) cs

/-- `s.lines()`: a carriage return before a line feed goes with it, a last one stays. -/
def lines (s : Text) : List Text := linesFrom [] s

theorem linesFrom_line {l : Text} (h : '\n' ∉ l) (line rest : Text) :
    linesFrom line (l ++ '\n' :: rest) = chopReturn (line.reverse ++ l) :: linesFrom [] rest := by
  induction l generalizing line with
  | nil => simp [linesFrom]
  | cons c l ih =>
    have hc : c ≠ '\n' := fun he => h (he ▸ mem_cons_self ..)
    rw [cons_append, linesFrom, if_neg hc, ih fun hl => h (mem_cons_of_mem _ hl)]
    simp

theorem linesFrom_append {l : Text} (hl : '\n' ∉ l) (hr : l.getLast? ≠ some '\r') (s line : Text)
    (h : s = [] ∧ line = [] ∨ s.getLast? = some '\n') :
    linesFrom line (s ++ (l ++ ['\n'])) = linesFrom line s ++ [l] := by
  have hkeep : chopReturn l = l := if_neg hr
  induction s generalizing line with
  | nil =>
    rcases h with ⟨-, rfl⟩ | h
    · rw [nil_append, linesFrom_line hl]
      simp [linesFrom, hkeep]
    · cases h
  | cons c s ih =>
    have hlast : (c :: s).getLast? = some '\n' := by
      rcases h with ⟨h, -⟩ | h
      · cases h
      · exact h
    rw [cons_append, linesFrom, linesFrom]
    cases s with
    | nil =>
      obtain rfl : c = '\n' := by simpa using hlast
      rw [if_pos rfl, if_pos rfl, nil_append, linesFrom_line hl]
      simp [linesFrom, hkeep]
    | cons d s =>
      rw [List.getLast?_cons_cons] at hlast
      split
      · rw [ih [] (.inr hlast), cons_append]
      · exact ih _ (.inr hlast)

/-- **A line written at the end of whole lines is the last one read.** -/
theorem lines_append {s l : Text} (hs : s = [] ∨ s.getLast? = some '\n') (hl : '\n' ∉ l)
    (hr : l.getLast? ≠ some '\r') : lines (s ++ (l ++ ['\n'])) = lines s ++ [l] :=
  linesFrom_append hl hr s [] (hs.imp_left fun h => ⟨h, rfl⟩)

theorem linesFrom_part {l : Text} (hl : '\n' ∉ l) (line : Text) :
    linesFrom line l = if line.isEmpty && l.isEmpty then [] else [line.reverse ++ l] := by
  induction l generalizing line with
  | nil => simp [linesFrom]
  | cons c l ih =>
    have hc : c ≠ '\n' := fun he => hl (he ▸ mem_cons_self ..)
    rw [linesFrom, if_neg hc, ih fun h => hl (mem_cons_of_mem _ h)]
    simp

/-- **A part of a line** at the end of whole lines is the last one read. -/
theorem lines_append_part {s l : Text} (hs : s = [] ∨ s.getLast? = some '\n') (hl : '\n' ∉ l)
    (hne : l ≠ []) : lines (s ++ l) = lines s ++ [l] := by
  suffices hfrom : ∀ (s line : Text), s = [] ∧ line = [] ∨ s.getLast? = some '\n' →
      linesFrom line (s ++ l) = linesFrom line s ++ [l] from
    hfrom s [] (hs.imp_left fun h => ⟨h, rfl⟩)
  intro s
  induction s with
  | nil =>
    intro line h
    obtain ⟨-, rfl⟩ := h.resolve_right nofun
    simp [linesFrom_part hl, linesFrom, hne]
  | cons c s ih =>
    intro line h
    have hlast : (c :: s).getLast? = some '\n' := h.resolve_left fun h => nomatch h.1
    rw [cons_append, linesFrom, linesFrom]
    cases s with
    | nil =>
      obtain rfl : c = '\n' := by simpa using hlast
      simp [linesFrom_part hl, linesFrom, hne]
    | cons d s =>
      rw [List.getLast?_cons_cons] at hlast
      split
      · rw [ih [] (.inr hlast), cons_append]
      · exact ih _ (.inr hlast)

/-! ## Files -/

/-- A file's contents; `none` for bytes that are no character. -/
abbrev File := List (Option Char)

/-- `std::str::from_utf8`. -/
def fromUtf8 (f : File) : Option Text := f.mapM id

@[simp] theorem fromUtf8_map_some (s : Text) : fromUtf8 (s.map some) = some s := by
  unfold fromUtf8
  induction s with
  | nil => rfl
  | cons c s ih =>
    rw [map_cons, mapM_cons, ih]
    rfl

end Veesker.Rust
