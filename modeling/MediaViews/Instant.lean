/-! Instants in whole milliseconds of Coordinated Universal Time, and their calendar text. -/
namespace MediaViews

/-- Milliseconds since the start of 1970, from the start of the year -262143 to the end of the year
262142. -/
structure Instant where
  millis : Int
  earliest_le : -8334601228800000 ≤ millis
  le_latest : millis ≤ 8210266876799999
  deriving DecidableEq

namespace Instant

def ofMillis? (millis : Int) : Option Instant :=
  if h : -8334601228800000 ≤ millis ∧ millis ≤ 8210266876799999 then
    some ⟨millis, h.1, h.2⟩
  else none

/-- Year, month and day of a day counted from the start of 1970. Years are counted from March, so
that the leap day comes last, in cycles of 400 years. -/
def civil (day : Int) : Int × Nat × Nat :=
  let shifted := day + 719468
  let cycle := shifted / 146097
  let dayOfCycle := (shifted % 146097).toNat
  let yearOfCycle :=
    (dayOfCycle - dayOfCycle / 1460 + dayOfCycle / 36524 - dayOfCycle / 146096) / 365
  let dayOfYear := dayOfCycle - (365 * yearOfCycle + yearOfCycle / 4 - yearOfCycle / 100)
  let march := (5 * dayOfYear + 2) / 153
  let dayOfMonth := dayOfYear - (153 * march + 2) / 5 + 1
  let month := if march < 10 then march + 3 else march - 9
  (yearOfCycle + cycle * 400 + (if month ≤ 2 then 1 else 0), month, dayOfMonth)

def padded (width n : Nat) : String :=
  let digits := Nat.toDigits 10 n
  String.ofList (List.replicate (width - digits.length) '0' ++ digits)

def yearText (year : Int) : String :=
  let digits := padded 4 year.natAbs
  if year < 0 then "-" ++ digits else if 9999 < year then "+" ++ digits else digits

def text (t : Instant) : String :=
  let (year, month, day) := civil (t.millis / 86400000)
  let ofDay := (t.millis % 86400000).toNat
  yearText year ++ "-" ++ padded 2 month ++ "-" ++ padded 2 day ++ "T" ++
    padded 2 (ofDay / 3600000) ++ ":" ++ padded 2 (ofDay / 60000 % 60) ++ ":" ++
    padded 2 (ofDay / 1000 % 60) ++ "." ++ padded 3 (ofDay % 1000) ++ "Z"

end Instant
end MediaViews
