/-
  File:      Veesker/Format/JsonIndent.lean
  Subject:   INDENTED JSON TEXTS: `JSON.stringify(value, null, gap)` and its way back.

  * `indented` -- the text of a value over several lines, as the reference algorithm writes it.
  * `Json.printed` -- what that text denotes: a number that is not finite is written `null`, and
    of a finite one only what its printed form says is kept.
  * `parse_indented` -- **the text reads back as what it denotes**, for every value whose objects
    have distinct keys; `parse_indented_append` -- behind the text of an object or an array there
    may be white space and nothing else.

  Nothing here names the repository.
-/
import Veesker.Format.Json

namespace Veesker.Format

open List

section

variable {ν : Type} (N : Numbers ν)

/-! ## 1. Writing -/

/-- A line break and the blanks of the line behind it. -/
def freshLine (n : Nat) : Text := '\n' :: List.replicate n ' '

mutual

/-- `JSON.stringify(value, null, gap)` for a gap above zero, on a line with that many blanks. -/
def indented (gap : Nat) : Nat → Json ν → Text
  | _, .null => "null".toList
  | _, .bool true => "true".toList
  | _, .bool false => "false".toList
  | _, .num n => if N.finite n then N.text n else "null".toList
  | _, .str s => quote s
  | blanks, .arr items =>
    if items.isEmpty then "[]".toList
    else
      '[' :: (freshLine (blanks + gap) ++ (indentedItems gap (blanks + gap) items ++
        (freshLine blanks ++ [']'])))
  | blanks, .obj members =>
    if members.isEmpty then "\x7b\x7d".toList
    else
      '\x7b' :: (freshLine (blanks + gap) ++ (indentedMembers gap (blanks + gap) members ++
        (freshLine blanks ++ ['\x7d'])))

def indentedItems (gap blanks : Nat) : List (Json ν) → Text
  | [] => []
  | [v] => indented gap blanks v
  | v :: w :: vs =>
    indented gap blanks v ++ ',' :: (freshLine blanks ++ indentedItems gap blanks (w :: vs))

def indentedMembers (gap blanks : Nat) : List (Text × Json ν) → Text
  | [] => []
  | [(k, v)] => quote k ++ ':' :: ' ' :: indented gap blanks v
  | (k, v) :: w :: ms =>
    quote k ++ ':' :: ' ' :: (indented gap blanks v ++
      ',' :: (freshLine blanks ++ indentedMembers gap blanks (w :: ms)))

end

/-! ## 2. What a text denotes -/

mutual

/-- The value that the text of a value denotes. -/
def Json.printed : Json ν → Json ν
  | .num n => if N.finite n then .num (N.read (N.text n)) else .null
  | .arr items => .arr (printedItems items)
  | .obj members => .obj (printedMembers members)
  | v => v

def printedItems : List (Json ν) → List (Json ν)
  | [] => []
  | v :: vs => v.printed :: printedItems vs

def printedMembers : List (Text × Json ν) → List (Text × Json ν)
  | [] => []
  | (k, v) :: ms => (k, v.printed) :: printedMembers ms

end

mutual

/-- No object holds a key twice. -/
def Json.DistinctKeys : Json ν → Prop
  | .arr items => DistinctItems items
  | .obj members => (members.map Prod.fst).Nodup ∧ DistinctMembers members
  | _ => True

def DistinctItems : List (Json ν) → Prop
  | [] => True
  | v :: vs => v.DistinctKeys ∧ DistinctItems vs

def DistinctMembers : List (Text × Json ν) → Prop
  | [] => True
  | (_, v) :: ms => v.DistinctKeys ∧ DistinctMembers ms

end

theorem keys_printedMembers (ms : List (Text × Json ν)) :
    (printedMembers N ms).map Prod.fst = ms.map Prod.fst := by
  induction ms with
  | nil => rfl
  | cons m ms ih => rw [printedMembers, map_cons, ih, map_cons]

/-! ## 3. White space -/

variable {N}

theorem dropWhile_freshLine (n : Nat) (s : Text) :
    (freshLine n ++ s).dropWhile isJsonSpace = s.dropWhile isJsonSpace :=
  dropWhile_append_of_pos fun c hc => by
    rcases mem_cons.mp hc with rfl | hc
    · rfl
    · rw [eq_of_mem_replicate hc]
      rfl

/-- White space before a value is skipped. -/
theorem readValue_freshLine (fuel n : Nat) (s : Text) :
    readValue N fuel (freshLine n ++ s) = readValue N fuel s := by
  cases fuel with
  | zero => rw [readValue, readValue]
  | succ fuel => rw [readValue, readValue, dropWhile_freshLine]

theorem readValue_blank (fuel : Nat) (s : Text) : readValue N fuel (' ' :: s) = readValue N fuel s := by
  cases fuel with
  | zero => rw [readValue, readValue]
  | succ fuel => rw [readValue, readValue, dropWhile_cons_of_pos (by decide)]

theorem readItems_freshLine (fuel n : Nat) (s : Text) :
    readItems N fuel (freshLine n ++ s) = readItems N fuel s := by
  cases fuel with
  | zero => rw [readItems, readItems]
  | succ fuel => rw [readItems, readItems, readValue_freshLine]

theorem readMembers_freshLine (fuel n : Nat) (s : Text) :
    readMembers N fuel (freshLine n ++ s) = readMembers N fuel s := by
  cases fuel with
  | zero => rw [readMembers, readMembers]
  | succ fuel => rw [readMembers, readMembers, dropWhile_freshLine]

theorem ends_freshLine (n : Nat) (s : Text) : Ends (freshLine n ++ s) := ends_cons (by decide)

/-! ## 4. An indented text is read back -/

/-- The first character of an indented text. -/
theorem indented_head (gap blanks : Nat) (v : Json ν) :
    ∃ c t, indented N gap blanks v = c :: t ∧ isJsonSpace c = false ∧ c ≠ ']' := by
  cases v with
  | null => exact ⟨'n', "ull".toList, by rw [indented]; rfl, by decide, by decide⟩
  | bool b => cases b with
    | true => exact ⟨'t', "rue".toList, by rw [indented]; rfl, by decide, by decide⟩
    | false => exact ⟨'f', "alse".toList, by rw [indented]; rfl, by decide, by decide⟩
  | num n =>
    rw [indented]
    split
    · rename_i h
      obtain ⟨c, r, e, hc⟩ := number_head (N.number_text n h)
      exact ⟨c, r, e, (digit_or_minus_ne hc).1, (digit_or_minus_ne hc).2.2.2.2.2.2.2⟩
    · exact ⟨'n', "ull".toList, rfl, by decide, by decide⟩
  | str s => exact ⟨'"', _, by rw [indented]; rfl, by decide, by decide⟩
  | arr items =>
    rw [indented]
    split
    · exact ⟨'[', [']'], rfl, by decide, by decide⟩
    · exact ⟨'[', _, rfl, by decide, by decide⟩
  | obj members =>
    rw [indented]
    split
    · exact ⟨'\x7b', ['\x7d'], rfl, by decide, by decide⟩
    · exact ⟨'\x7b', _, rfl, by decide, by decide⟩

theorem indentedItems_head (gap blanks : Nat) (v : Json ν) (vs : List (Json ν)) (r : Text) :
    ∃ c t, indentedItems N gap blanks (v :: vs) ++ r = c :: t ∧ isJsonSpace c = false ∧ c ≠ ']' := by
  obtain ⟨c, t, e, hc, hne⟩ := indented_head (N := N) gap blanks v
  cases vs with
  | nil => exact ⟨c, t ++ r, by rw [indentedItems, e, cons_append], hc, hne⟩
  | cons w vs => exact ⟨c, _, by rw [indentedItems, e, cons_append, cons_append], hc, hne⟩

theorem indentedMembers_head (gap blanks : Nat) (m : Text × Json ν) (ms : List (Text × Json ν))
    (r : Text) : ∃ t, indentedMembers N gap blanks (m :: ms) ++ r = '"' :: t := by
  obtain ⟨k, v⟩ := m
  cases ms with
  | nil => exact ⟨_, by rw [indentedMembers, quote, cons_append, cons_append]⟩
  | cons w ms => exact ⟨_, by rw [indentedMembers, quote, cons_append, cons_append]⟩

mutual

/-- **An indented value is read back** as what it denotes. -/
theorem readValue_indented (gap : Nat) : ∀ (v : Json ν), v.DistinctKeys → ∀ (blanks fuel : Nat)
    (r : Text), 2 * (indented N gap blanks v).length ≤ fuel → Ends r →
      readValue N fuel (indented N gap blanks v ++ r) = some (v.printed N, r)
  | v, _, blanks, 0, r, hf, _ => by
    obtain ⟨c, t, e, -⟩ := indented_head (N := N) gap blanks v
    rw [e] at hf
    simp at hf
  | .null, _, blanks, fuel + 1, r, _, _ => by rw [indented, readValue]; rfl
  | .bool true, _, blanks, fuel + 1, r, _, _ => by rw [indented, readValue]; rfl
  | .bool false, _, blanks, fuel + 1, r, _, _ => by rw [indented, readValue]; rfl
  | .num n, _, blanks, fuel + 1, r, _, hr => by
    rw [indented, Json.printed]
    by_cases hfin : N.finite n = true
    · rw [if_pos hfin, if_pos hfin, readValue_number hfin fuel hr]
    · rw [if_neg hfin, if_neg hfin, readValue]
      rfl
  | .str s, _, blanks, fuel + 1, r, _, _ => by
    rw [indented, quote_append, readValue, dropWhile_cons_of_neg (by decide)]
    simp only [Char.reduceEq, ↓reduceIte, readString_quote, Option.map_some]
    rfl
  | .arr [], _, blanks, fuel + 1, r, _, _ => by rw [indented, readValue]; rfl
  | .arr (v :: vs), hd, blanks, fuel + 1, r, hf, _ => by
    rw [Json.DistinctKeys] at hd
    rw [indented, isEmpty_cons, if_neg Bool.false_ne_true] at hf ⊢
    have hitems := readItems_indented gap v vs hd (blanks + gap) blanks fuel r (by simp at hf; omega)
    obtain ⟨c, t, e, hc, hne⟩ := indentedItems_head (N := N) gap (blanks + gap) v vs
      (freshLine blanks ++ ']' :: r)
    simp only [cons_append, append_assoc, nil_append]
    refine readValue_array (t := t) ?_ hne ((readItems_freshLine ..).trans hitems)
    rw [dropWhile_freshLine, e, dropWhile_cons_of_neg (by rw [hc]; exact Bool.false_ne_true)]
  | .obj [], _, blanks, fuel + 1, r, _, _ => by rw [indented, readValue]; rfl
  | .obj (m :: ms), hd, blanks, fuel + 1, r, hf, _ => by
    rw [indented, isEmpty_cons, if_neg Bool.false_ne_true] at hf ⊢
    rw [readValue_indentedObject gap m ms hd blanks fuel r (by simp at hf; omega)]
termination_by _ _ _ fuel => (fuel, 0)

theorem readItems_indented (gap : Nat) : ∀ (v : Json ν) (vs : List (Json ν)),
    DistinctItems (v :: vs) → ∀ (blanks outer fuel : Nat) (r : Text),
      2 * (indentedItems N gap blanks (v :: vs)).length + 1 ≤ fuel →
      readItems N fuel (indentedItems N gap blanks (v :: vs) ++ (freshLine outer ++ ']' :: r)) =
        some (printedItems N (v :: vs), r)
  | _, _, _, _, _, 0, _, hf => absurd hf (Nat.not_succ_le_zero _)
  | v, [], hd, blanks, outer, fuel + 1, r, hf => by
    rw [DistinctItems] at hd
    rw [indentedItems] at hf ⊢
    exact readItems_last
      (readValue_indented gap v hd.1 blanks fuel _ (by omega) (ends_freshLine _ _))
      (dropWhile_freshLine _ _)
  | v, w :: vs, hd, blanks, outer, fuel + 1, r, hf => by
    rw [DistinctItems] at hd
    rw [indentedItems] at hf ⊢
    simp only [length_append, length_cons] at hf
    rw [append_assoc, cons_append, append_assoc]
    exact readItems_more
      (readValue_indented gap v hd.1 blanks fuel _ (by omega) (ends_cons (by decide))) rfl
      ((readItems_freshLine ..).trans
        (readItems_indented gap w vs hd.2 blanks outer fuel r (by omega)))
termination_by _ _ _ _ _ fuel => (fuel, 0)

theorem readMembers_indented (gap : Nat) : ∀ (m : Text × Json ν) (ms : List (Text × Json ν)),
    DistinctMembers (m :: ms) → ∀ (blanks outer fuel : Nat) (r : Text),
      2 * (indentedMembers N gap blanks (m :: ms)).length + 1 ≤ fuel →
      readMembers N fuel (indentedMembers N gap blanks (m :: ms) ++ (freshLine outer ++ '\x7d' :: r)) =
        some (printedMembers N (m :: ms), r)
  | _, _, _, _, _, 0, _, hf => absurd hf (Nat.not_succ_le_zero _)
  | (k, v), [], hd, blanks, outer, fuel + 1, r, hf => by
    rw [DistinctMembers] at hd
    rw [indentedMembers] at hf ⊢
    simp only [length_append, length_cons] at hf
    rw [append_assoc, cons_append, cons_append]
    exact readMembers_last ((readValue_blank ..).trans
      (readValue_indented gap v hd.1 blanks fuel _ (by omega) (ends_freshLine _ _)))
      (dropWhile_freshLine _ _)
  | (k, v), w :: ms, hd, blanks, outer, fuel + 1, r, hf => by
    rw [DistinctMembers] at hd
    rw [indentedMembers] at hf ⊢
    simp only [length_append, length_cons] at hf
    simp only [cons_append, append_assoc]
    exact readMembers_more ((readValue_blank ..).trans
      (readValue_indented gap v hd.1 blanks fuel _ (by omega) (ends_cons (by decide)))) rfl
      ((readMembers_freshLine ..).trans
        (readMembers_indented gap w ms hd.2 blanks outer fuel r (by omega)))
termination_by _ _ _ _ _ fuel => (fuel, 0)

/-- Behind an object may stand what cannot stand behind a number. -/
theorem readValue_indentedObject (gap : Nat) : ∀ (m : Text × Json ν) (ms : List (Text × Json ν)),
    (Json.obj (m :: ms)).DistinctKeys → ∀ (blanks fuel : Nat) (r : Text),
      2 * (indentedMembers N gap (blanks + gap) (m :: ms)).length + 1 ≤ fuel →
      readValue N (fuel + 1) ('\x7b' :: (freshLine (blanks + gap) ++
        (indentedMembers N gap (blanks + gap) (m :: ms) ++ (freshLine blanks ++ ['\x7d']))) ++ r) =
          some ((Json.obj (m :: ms)).printed N, r)
  | m, ms, hd, blanks, fuel, r, hf => by
    rw [Json.DistinctKeys] at hd
    have hmembers := readMembers_indented gap m ms hd.2 (blanks + gap) blanks fuel r hf
    obtain ⟨t, e⟩ := indentedMembers_head (N := N) gap (blanks + gap) m ms
      (freshLine blanks ++ '\x7d' :: r)
    simp only [cons_append, append_assoc, nil_append]
    refine readValue_object (t := t) ?_ ((readMembers_freshLine ..).trans hmembers) ?_
    · rw [dropWhile_freshLine, e, dropWhile_cons_of_neg (by decide)]
    · rw [keys_printedMembers]
      exact hd.1
termination_by _ _ _ _ fuel => (fuel, 1)

end

/-- **An indented text reads back as what it denotes.** -/
theorem parse_indented (gap : Nat) {v : Json ν} (h : v.DistinctKeys) :
    parse N (indented N gap 0 v) = some (v.printed N) := by
  have hread := readValue_indented (N := N) gap v h 0 (2 * (indented N gap 0 v).length + 2) [] (by omega)
    ends_nil
  rw [append_nil] at hread
  rw [parse, hread]
  rfl

/-- **Behind the text of an object nothing but white space is read over.** -/
theorem parse_indented_append (gap : Nat) {m : Text × Json ν} {ms : List (Text × Json ν)}
    (h : (Json.obj (m :: ms)).DistinctKeys) {r : Text} (hr : r.all isJsonSpace = false) :
    parse N (indented N gap 0 (.obj (m :: ms)) ++ r) = none := by
  have hread := readValue_indentedObject (N := N) gap m ms h 0
    (2 * (indented N gap 0 (.obj (m :: ms)) ++ r).length + 1) r (by
      rw [indented, isEmpty_cons, if_neg Bool.false_ne_true]
      simp only [length_append, length_cons]
      omega)
  rw [indented, isEmpty_cons, if_neg Bool.false_ne_true] at hread ⊢
  rw [parse, hread]
  simp only [hr, Bool.false_eq_true, ↓reduceIte]

end

end Veesker.Format
