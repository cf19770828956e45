/-
  File:      Veesker/Text/Like.lean
  Subject:   THE OPERATOR `LIKE` OF A DATABASE, with an escape character: `%` stands for any text,
             `_` for one character, letters of ASCII match in either case.

  * `like_literal` -- a pattern of escaped characters matches what reads the same, whatever follows.
  * **`like_escaped_iff`**: between two `%` an escaped text matches exactly the texts that contain it.

  Nothing here names the repository.
-/
import Veesker.Text.Js

namespace Veesker.Like

open List

/-! ## 1. The operator -/

/-- Letters of ASCII are the same in either case. -/
def sameLetter (c d : Char) : Bool := c.toLower == d.toLower

/-- `s LIKE pattern ESCAPE esc`; an escape at the very end matches nothing. -/
def like (esc : Char) : Text → Text → Bool
  | [], s => s.isEmpty
  | p :: ps, s =>
    if p = esc then
      match ps, s with
      | q :: qs, c :: s => sameLetter q c && like esc qs s
      | _, _ => false
    else if p = '%' then s.tails.any (like esc ps)
    else match s with
      | c :: s => (p == '_' || sameLetter p c) && like esc ps s
      | [] => false

/-- A character of a pattern that stands for itself. -/
def escapeChar (esc c : Char) : Text := if c = esc ∨ c = '%' ∨ c = '_' then [esc, c] else [c]

def escape (esc : Char) (s : Text) : Text := s.flatMap (escapeChar esc)

/-- Somewhere in the text stands the other one, letters in either case. -/
def Contains (word s : Text) : Prop :=
  ∃ before found behind, s = before ++ found ++ behind ∧
    found.map Char.toLower = word.map Char.toLower

/-! ## 2. What an escaped text matches -/

section

variable {esc : Char} {s ps : Text}

theorem like_cons (p : Char) : like esc (p :: ps) s =
    if p = esc then
      match ps, s with
      | q :: qs, c :: s => sameLetter q c && like esc qs s
      | _, _ => false
    else if p = '%' then s.tails.any (like esc ps)
    else match s with
      | c :: s => (p == '_' || sameLetter p c) && like esc ps s
      | [] => false := by
  rw [like.eq_def]
  rfl

theorem like_percent (h : esc ≠ '%') :
    like esc ('%' :: ps) s = true ↔ ∃ before rest, s = before ++ rest ∧ like esc ps rest = true := by
  rw [like_cons, if_neg (Ne.symm h), if_pos rfl, any_eq_true]
  constructor
  · intro hm
    obtain ⟨rest, hr, hl⟩ := hm
    obtain ⟨before, rfl⟩ := (mem_tails _ _).mp hr
    exact ⟨before, rest, rfl, hl⟩
  · intro hm
    obtain ⟨before, rest, rfl, hl⟩ := hm
    exact ⟨rest, (mem_tails _ _).mpr ⟨before, rfl⟩, hl⟩

/-- One escaped character matches one letter. -/
theorem like_escapeChar (c : Char) :
    like esc (escapeChar esc c ++ ps) s = true ↔
      ∃ d rest, s = d :: rest ∧ d.toLower = c.toLower ∧ like esc ps rest = true := by
  have hletter : ∀ d rest, (sameLetter c d && like esc ps rest) = true ↔
      d.toLower = c.toLower ∧ like esc ps rest = true := by
    intro d rest
    rw [Bool.and_eq_true, sameLetter, beq_iff_eq, eq_comm]
  have hlike : like esc (escapeChar esc c ++ ps) s =
      match s with
      | d :: rest => sameLetter c d && like esc ps rest
      | [] => false := by
    rw [escapeChar]
    split
    · rw [cons_append, singleton_append, like_cons, if_pos rfl]
      cases s <;> rfl
    · rename_i hplain
      rw [not_or, not_or] at hplain
      rw [singleton_append, like_cons, if_neg hplain.1, if_neg hplain.2.1]
      cases s with
      | nil => rfl
      | cons d rest => simp only [beq_eq_false_iff_ne.mpr hplain.2.2, Bool.false_or]
  rw [hlike]
  cases s with
  | nil => exact ⟨nofun, fun ⟨_, _, h, _⟩ => nomatch h⟩
  | cons d rest =>
    rw [hletter]
    constructor
    · exact fun h => ⟨d, rest, rfl, h⟩
    · intro h
      obtain ⟨d', rest', hs, h⟩ := h
      cases hs
      exact h

/-- **An escaped text matches what reads the same**, whatever follows. -/
theorem like_literal (word : Text) : ∀ s : Text, like esc (escape esc word ++ ps) s = true ↔
    ∃ found behind, s = found ++ behind ∧ found.map Char.toLower = word.map Char.toLower ∧
      like esc ps behind = true := by
  induction word with
  | nil =>
    intro s
    constructor
    · exact fun h => ⟨[], s, rfl, rfl, h⟩
    · intro h
      obtain ⟨found, behind, rfl, hf, h⟩ := h
      rw [map_nil, map_eq_nil_iff] at hf
      rw [hf]
      exact h
  | cons c word ih =>
    intro s
    rw [escape, flatMap_cons, append_assoc, like_escapeChar]
    constructor
    · intro h
      obtain ⟨d, rest, rfl, hd, h⟩ := h
      obtain ⟨found, behind, rfl, hf, h⟩ := (ih rest).mp h
      exact ⟨d :: found, behind, rfl, by rw [map_cons, map_cons, hd, hf], h⟩
    · intro h
      obtain ⟨found, behind, rfl, hf, h⟩ := h
      cases found with
      | nil => cases hf
      | cons d found =>
        rw [map_cons, map_cons, List.cons.injEq] at hf
        exact ⟨d, found ++ behind, rfl, hf.1, (ih _).mpr ⟨found, behind, rfl, hf.2, h⟩⟩

/-- **Between two `%` an escaped text matches exactly the texts that contain it.** -/
theorem like_escaped_iff (h : esc ≠ '%') (word s : Text) :
    like esc ('%' :: (escape esc word ++ ['%'])) s = true ↔ Contains word s := by
  have hall : ∀ rest, like esc ['%'] rest = true := fun rest =>
    (like_percent h).mpr ⟨rest, [], by simp, rfl⟩
  rw [like_percent h]
  constructor
  · intro hm
    obtain ⟨before, rest, rfl, hl⟩ := hm
    obtain ⟨found, behind, rfl, hf, -⟩ := (like_literal word rest).mp hl
    exact ⟨before, found, behind, by rw [append_assoc], hf⟩
  · intro hm
    obtain ⟨before, found, behind, rfl, hf⟩ := hm
    exact ⟨before, found ++ behind, by rw [append_assoc],
      (like_literal word _).mpr ⟨found, behind, rfl, hf, hall _⟩⟩

end

end Veesker.Like
