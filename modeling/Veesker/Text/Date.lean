/-
  File:      Veesker/Text/Date.lean
  Subject:   THE TEXT OF A MOMENT: `new Date(ms).toISOString()`.

  A moment is its milliseconds since the start of 1970; the calendar is the Gregorian one.

  Nothing here names the repository.
-/
import Veesker.Text.Js

namespace Veesker

/-- `String(n).padStart(width, "0")`. -/
def padded (width n : Nat) : Text :=
  let s := Nat.toDigits 10 n
  List.replicate (width - s.length) '0' ++ s

/-- Year, month and day of a day since the start of 1970. The count starts at a March of a year that
    four hundred divides, so that a leap day is the last of its year. -/
def civilDate (days : Int) : Int × Nat × Nat :=
  let z := days + 719468
  let era := z / 146097
  let doe := (z % 146097).toNat
  let yoe := (doe - doe / 1460 + doe / 36524 - doe / 146096) / 365
  let doy := doe - (365 * yoe + yoe / 4 - yoe / 100)
  let mp := (5 * doy + 2) / 153
  let day := doy - (153 * mp + 2) / 5 + 1
  let month := if mp < 10 then mp + 3 else mp - 9
  let year := (yoe : Int) + era * 400 + if month ≤ 2 then 1 else 0
  (year, month, day)

/-- Four digits, or a sign and six. -/
def yearText (year : Int) : Text :=
  if 0 ≤ year ∧ year ≤ 9999 then padded 4 year.toNat
  else (if year < 0 then '-' else '+') :: padded 6 year.natAbs

def toISOString (ms : Int) : Text :=
  let (year, month, day) := civilDate (ms / 86400000)
  let rest := (ms % 86400000).toNat
  yearText year ++ '-' :: padded 2 month ++ '-' :: padded 2 day ++ 'T' :: padded 2 (rest / 3600000) ++
    ':' :: padded 2 (rest / 60000 % 60) ++ ':' :: padded 2 (rest / 1000 % 60) ++
    '.' :: padded 3 (rest % 1000) ++ ['Z']

example : toISOString 1709210096789 = "2024-02-29T12:34:56.789Z".toList := by decide

end Veesker
