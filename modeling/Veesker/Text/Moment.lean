/-
  File:      Veesker/Text/Moment.lean
  Subject:   READING A MOMENT: the text `[-]Y-MM-DD hh:mm[:ss[.f]]`, as databases write one, and what
             it says of the text that `toISOString` writes.

  * `dayNumber_civilDate` -- the calendar read back: the number of a day from its year, month and day;
  * `readMoment_upTo` -- a moment that is written up to its minute, with or without its second, is
    read as the start of what is written.

  Nothing here names the repository.
-/
import Veesker.Text.Date

namespace Veesker

open List

/-! ## 1. The calendar, back -/

/-- The number of a day since the start of 1970. -/
def dayNumber (year : Int) (month day : Nat) : Int :=
  let y := if month ≤ 2 then year - 1 else year
  let yoe := (y % 400).toNat
  let mp := if month ≤ 2 then month + 9 else month - 3
  let doy := (153 * mp + 2) / 5 + (day - 1)
  y / 400 * 146097 + (yoe * 365 + yoe / 4 - yoe / 100 + doy : Nat) - 719468

/-- A day of an era lies in the year that is reckoned for it. -/
theorem yearOfEra {doe yoe : Nat} (h : doe < 146097)
    (hy : (doe - doe / 1460 + doe / 36524 - doe / 146096) / 365 = yoe) :
    yoe < 400 ∧ 365 * yoe + yoe / 4 - yoe / 100 ≤ doe ∧
      doe - (365 * yoe + yoe / 4 - yoe / 100) < 366 := by
  -- the last day of the era is the only one the last correction is for
  by_cases hlast : doe = 146096
  · subst hlast
    have hyoe : yoe = 399 := by rw [← hy]
    subst hyoe
    decide
  have hlast' : doe / 146096 = 0 := by omega
  rw [hlast', Nat.sub_zero] at hy
  have hcentury : doe / 36524 = 0 ∨ doe / 36524 = 1 ∨ doe / 36524 = 2 ∨ doe / 36524 = 3 := by omega
  have hsame : yoe / 100 = doe / 36524 ∨ yoe / 100 + 1 = doe / 36524 := by
    rcases hcentury with hc | hc | hc | hc <;> rw [hc] at hy ⊢ <;> omega
  have hyear : 365 * yoe ≤ doe - doe / 1460 + doe / 36524 ∧
      doe - doe / 1460 + doe / 36524 < 365 * yoe + 365 := by omega
  clear hy
  rcases hcentury with hc | hc | hc | hc <;> rw [hc] at hyear hsame <;>
    rcases hsame with hs | hs <;> omega

/-- What the reckoning of a date goes through. -/
theorem civilDate_eq (days : Int) : ∃ (era : Int) (yoe doy : Nat), yoe < 400 ∧ doy < 366 ∧
    era = (days + 719468) / 146097 ∧
    days = era * 146097 + (yoe * 365 + yoe / 4 - yoe / 100 + doy : Nat) - 719468 ∧
    civilDate days =
      let mp := (5 * doy + 2) / 153
      let month := if mp < 10 then mp + 3 else mp - 9
      ((yoe : Int) + era * 400 + if month ≤ 2 then 1 else 0, month, doy - (153 * mp + 2) / 5 + 1) := by
  obtain ⟨doe, hdoe⟩ : ∃ doe, ((days + 719468) % 146097).toNat = doe := ⟨_, rfl⟩
  obtain ⟨yoe, hyoe⟩ : ∃ yoe, (doe - doe / 1460 + doe / 36524 - doe / 146096) / 365 = yoe := ⟨_, rfl⟩
  obtain ⟨hlt, hle, hdoy⟩ := yearOfEra (by omega) hyoe
  refine ⟨(days + 719468) / 146097, yoe, doe - (365 * yoe + yoe / 4 - yoe / 100), hlt, hdoy, rfl, ?_, ?_⟩
  · omega
  · simp only [civilDate, hdoe, hyoe]

theorem dayNumber_civilDate (days : Int) :
    dayNumber (civilDate days).1 (civilDate days).2.1 (civilDate days).2.2 = days := by
  obtain ⟨era, yoe, doy, hyoe, hdoy, -, hdays, h⟩ := civilDate_eq days
  rw [h]
  obtain ⟨mp, hmp⟩ : ∃ mp, (5 * doy + 2) / 153 = mp := ⟨_, rfl⟩
  simp only [hmp]
  unfold dayNumber
  by_cases h10 : mp < 10
  · have hm : ¬ mp + 3 ≤ 2 := by omega
    simp only [if_pos h10, if_neg hm]
    omega
  · have hm : mp - 9 ≤ 2 := by omega
    simp only [if_neg h10, if_pos hm]
    omega

theorem civilDate_lt (days : Int) : (civilDate days).2.1 < 100 ∧ (civilDate days).2.2 < 100 := by
  obtain ⟨era, yoe, doy, hyoe, hdoy, -, -, h⟩ := civilDate_eq days
  rw [h]
  dsimp only
  split <;> omega

/-- A year of six digits reaches far beyond the moments there are. -/
theorem civilDate_year {days : Int} (h : days.natAbs ≤ 100000001) :
    (civilDate days).1.natAbs < 1000000 := by
  obtain ⟨era, yoe, doy, hyoe, hdoy, hera, -, h⟩ := civilDate_eq days
  rw [h]
  dsimp only
  split <;> split <;> omega

/-! ## 2. Digits -/

theorem padded_digits {width n : Nat} {c : Char} (hc : c ∈ padded width n) : c.isDigit = true := by
  rcases mem_append.mp hc with hz | hd
  · rw [(mem_replicate.mp hz).2]
    rfl
  · exact Nat.isDigit_of_mem_toDigits (by decide) (by decide) hd

theorem padded_value (width n : Nat) : Nat.ofDigitChars 10 (padded width n) 0 = n := by
  rw [padded, Nat.ofDigitChars_append, Nat.ofDigitChars_replicate_zero, Nat.mul_zero,
    Nat.ofDigitChars_ten_toDigits]

theorem length_padded {width n : Nat} (hw : 0 < width) (h : n < 10 ^ width) :
    (padded width n).length = width := by
  have hlength : (Nat.toDigits 10 n).length ≤ width := (Nat.length_toDigits_le_iff (by decide) hw).mpr h
  rw [padded, length_append, length_replicate]
  omega

/-- A number of `k` digits, and what is behind it. -/
def readFixed (k : Nat) (t : Text) : Option (Nat × Text) :=
  if (t.take k).length = k ∧ (t.take k).all Char.isDigit then
    some (Nat.ofDigitChars 10 (t.take k) 0, t.drop k)
  else none

theorem readFixed_padded {k n : Nat} (hk : 0 < k) (h : n < 10 ^ k) (r : Text) :
    readFixed k (padded k n ++ r) = some (n, r) := by
  have hl := length_padded hk h
  have hdigits : (padded k n).all Char.isDigit = true :=
    all_eq_true.mpr fun c hc => padded_digits hc
  rw [readFixed, take_left' hl, drop_left' hl, if_pos ⟨hl, hdigits⟩, padded_value]

/-! ## 3. A moment -/

/-- The text behind the character `c`. -/
def readMark (c : Char) : Text → Option Text
  | [] => none
  | d :: r => if d = c then some r else none

/-- A number of any number of digits, and what is behind it. -/
def readNatural (t : Text) : Option (Nat × Text) :=
  if t.takeWhile Char.isDigit = [] then none
  else some (Nat.ofDigitChars 10 (t.takeWhile Char.isDigit) 0, t.dropWhile Char.isDigit)

def readYear (t : Text) : Option (Int × Text) :=
  if t.head? = some '-' then (readNatural t.tail).map fun (n, r) => (-(n : Int), r)
  else (readNatural t).map fun (n, r) => ((n : Int), r)

/-- Nothing, or `:ss`, or `:ss.f` with any number of digits: the seconds and the millionths. -/
def readSeconds : Text → Option (Nat × Nat)
  | [] => some (0, 0)
  | c :: r => do
    if c ≠ ':' then none
    let (second, r) ← readFixed 2 r
    match r with
    | [] => some (second, 0)
    | '.' :: digits =>
      if digits = [] ∨ ¬ digits.all Char.isDigit then none
      else some (second, Nat.ofDigitChars 10 ((digits ++ List.replicate 6 '0').take 6) 0)
    | _ => none

/-- The moment of a text, in millionths of a second since the start of 1970. -/
def readMoment (t : Text) : Option Int := do
  let (year, t) ← readYear t
  let (month, t) ← (readMark '-' t).bind (readFixed 2)
  let (day, t) ← (readMark '-' t).bind (readFixed 2)
  let (hour, t) ← (readMark ' ' t).bind (readFixed 2)
  let (minute, t) ← (readMark ':' t).bind (readFixed 2)
  let (second, micro) ← readSeconds t
  if civilDate (dayNumber year month day) = (year, month, day) ∧ hour < 24 ∧ minute < 60 ∧ second < 60
  then some ((((dayNumber year month day * 24 + hour) * 60 + minute) * 60 + second) * 1000000 + micro)
  else none

@[simp] theorem readMark_cons (c : Char) (r : Text) : readMark c (c :: r) = some r := if_pos rfl

theorem padded_ne_nil (width n : Nat) : padded width n ≠ [] := by
  intro h
  have hnil := (append_eq_nil_iff.mp h).2
  exact Nat.toDigits_ne_nil hnil

theorem readNatural_padded (width n : Nat) {c : Char} (hc : c.isDigit = false) (r : Text) :
    readNatural (padded width n ++ c :: r) = some (n, c :: r) := by
  have htake : (padded width n ++ c :: r).takeWhile Char.isDigit = padded width n := by
    rw [takeWhile_append_of_pos fun _ hd => padded_digits hd, takeWhile_cons, hc]
    exact append_nil _
  have hdrop : (padded width n ++ c :: r).dropWhile Char.isDigit = c :: r := by
    rw [dropWhile_append_of_pos fun _ hd => padded_digits hd, dropWhile_cons, hc]
    rfl
  rw [readNatural, htake, hdrop, if_neg (padded_ne_nil _ _), padded_value]

theorem readYear_yearText {year : Int} (h : year ≤ 9999) (r : Text) :
    readYear (yearText year ++ '-' :: r) = some (year, '-' :: r) := by
  by_cases hneg : year < 0
  · have htext : yearText year = '-' :: padded 6 year.natAbs := by
      rw [yearText, if_neg (by omega), if_pos hneg]
    have habs : -(year.natAbs : Int) = year := by omega
    rw [htext, readYear, cons_append, List.head?_cons, if_pos rfl, tail_cons,
      readNatural_padded 6 _ rfl, Option.map_some]
    exact congrArg (fun y => some (y, '-' :: r)) habs
  · have htext : yearText year = padded 4 year.toNat := by rw [yearText, if_pos (by omega)]
    have hhead : (padded 4 year.toNat ++ '-' :: r).head? ≠ some '-' := by
      obtain ⟨c, s, hs⟩ := exists_cons_of_ne_nil (padded_ne_nil 4 year.toNat)
      intro he
      have hc : c.isDigit = true := padded_digits (hs ▸ mem_cons_self)
      rw [hs, cons_append, List.head?_cons, Option.some.injEq] at he
      rw [he] at hc
      exact absurd hc (by decide)
    have hnat : (year.toNat : Int) = year := by omega
    rw [htext, readYear, if_neg hhead, readNatural_padded 4 _ rfl, Option.map_some]
    exact congrArg (fun y => some (y, '-' :: r)) hnat

/-- Behind a year beyond 9999 there is no reading: it begins with a sign no moment begins with. -/
theorem readMoment_later {year : Int} (h : 9999 < year) (r : Text) :
    readMoment (yearText year ++ r) = none := by
  have htext : yearText year = '+' :: padded 6 year.natAbs := by
    rw [yearText, if_neg (by omega), if_neg (by omega)]
  rw [htext]
  rfl

/-- The day of a moment, as `toISOString` writes it. -/
def dateText (ms : Int) : Text :=
  let date := civilDate (ms / 86400000)
  yearText date.1 ++ '-' :: (padded 2 date.2.1 ++ '-' :: padded 2 date.2.2)

/-- Its hour and minute. -/
def clockText (ms : Int) : Text :=
  let rest := (ms % 86400000).toNat
  padded 2 (rest / 3600000) ++ ':' :: padded 2 (rest / 60000 % 60)

def minuteText (mark : Char) (ms : Int) : Text := dateText ms ++ mark :: clockText ms

/-- **A moment up to its minute**, and what is read of the text behind it. -/
theorem readMoment_upTo {ms : Int} (hyear : (civilDate (ms / 86400000)).1 ≤ 9999) {r : Text}
    {second micro : Nat} (hr : readSeconds r = some (second, micro)) (hs : second < 60) :
    readMoment (minuteText ' ' ms ++ r) =
      some ((ms / 60000 * 60 + second) * 1000000 + micro) := by
  obtain ⟨hmonth, hday⟩ := civilDate_lt (ms / 86400000)
  have hnumber := dayNumber_civilDate (ms / 86400000)
  have hhour : (ms % 86400000).toNat / 3600000 < 24 := by omega
  have hminute : (ms % 86400000).toNat / 60000 % 60 < 60 := Nat.mod_lt _ (by decide)
  simp only [minuteText, dateText, clockText, append_assoc, cons_append]
  rw [readMoment, readYear_yearText hyear]
  simp only [Option.bind_eq_bind, Option.bind_some, readMark_cons]
  rw [readFixed_padded (by decide) hmonth]
  simp only [Option.bind_some, readMark_cons]
  rw [readFixed_padded (by decide) hday]
  simp only [Option.bind_some, readMark_cons]
  rw [readFixed_padded (by decide) (by omega)]
  simp only [Option.bind_some, readMark_cons]
  rw [readFixed_padded (by decide) (by omega)]
  simp only [Option.bind_some]
  rw [hr]
  simp only [Option.bind_some]
  rw [hnumber, if_pos ⟨rfl, hhour, hminute, hs⟩]
  congr 1
  omega

/-! ## 4. The text of a moment, in two parts -/

theorem toISOString_eq (ms : Int) : toISOString ms = minuteText 'T' ms ++
    (':' :: padded 2 ((ms % 86400000).toNat / 1000 % 60) ++
      '.' :: padded 3 ((ms % 86400000).toNat % 1000) ++ ['Z']) := by
  simp only [toISOString, minuteText, dateText, clockText, append_assoc, cons_append]

/-- Four characters of the year, or seven, and twelve. -/
theorem length_minuteText {ms : Int} (h : ms.natAbs ≤ 8640000000000000) (mark : Char) :
    (minuteText mark ms).length =
      if 0 ≤ (civilDate (ms / 86400000)).1 ∧ (civilDate (ms / 86400000)).1 ≤ 9999 then 16 else 19 := by
  obtain ⟨hmonth, hday⟩ := civilDate_lt (ms / 86400000)
  have hyear := @civilDate_year (ms / 86400000) (by omega)
  have hlength : (yearText (civilDate (ms / 86400000)).1).length =
      if 0 ≤ (civilDate (ms / 86400000)).1 ∧ (civilDate (ms / 86400000)).1 ≤ 9999 then 4 else 7 := by
    rw [yearText]
    split
    · exact length_padded (by decide) (by omega)
    · rw [length_cons, length_padded (by decide) hyear]
  simp only [minuteText, dateText, clockText, length_append, length_cons, hlength]
  rw [length_padded (by decide) hmonth, length_padded (by decide) hday,
    length_padded (by decide) (by omega), length_padded (by decide) (by omega)]
  split <;> rfl

/-- The characters of a day, and those of a time. -/
theorem mem_dateText {c : Char} {ms : Int} (h : c ∈ dateText ms) :
    c.isDigit = true ∨ c = '+' ∨ c = '-' := by
  have hyear : c ∈ yearText (civilDate (ms / 86400000)).1 → c.isDigit = true ∨ c = '+' ∨ c = '-' := by
    intro hc
    rw [yearText] at hc
    split at hc
    · exact .inl (padded_digits hc)
    · rcases mem_cons.mp hc with rfl | hd
      · split
        · exact .inr (.inr rfl)
        · exact .inr (.inl rfl)
      · exact .inl (padded_digits hd)
  simp only [dateText, mem_append, mem_cons] at h
  rcases h with h | rfl | h | rfl | h
  · exact hyear h
  · exact .inr (.inr rfl)
  · exact .inl (padded_digits h)
  · exact .inr (.inr rfl)
  · exact .inl (padded_digits h)

theorem mem_clockText {c : Char} {ms : Int} (h : c ∈ clockText ms) : c.isDigit = true ∨ c = ':' := by
  simp only [clockText, mem_append, mem_cons] at h
  rcases h with h | rfl | h
  · exact .inl (padded_digits h)
  · exact .inr rfl
  · exact .inl (padded_digits h)

end Veesker
