import SqlDraft.Kind

/-! Instants of time, counted in milliseconds, and how they are written: day and time of day in
universal time. A calendar year begins in March here, so that a leap day is the last of its year;
four hundred such years always have the same number of days. -/

namespace SqlDraft

/-- The milliseconds from the start of 1970, as far as a hundred million days either way. -/
structure Instant where
  millis : Int
  bounded : millis.natAbs ≤ 8640000000000000
deriving DecidableEq

namespace Instant

def ofMillis? (millis : Int) : Option Instant :=
  if h : millis.natAbs ≤ 8640000000000000 then some ⟨millis, h⟩ else none

/-- The day an instant falls on, counted from the first of 1970. -/
def dayNumber (i : Instant) : Int := i.millis / 86400000

/-- The milliseconds since that day began. -/
def timeOfDay (i : Instant) : Nat := (i.millis % 86400000).toNat

end Instant

/-- A day of the calendar. -/
structure CivilDay where
  year : Int
  month : Nat
  day : Nat
deriving DecidableEq, Repr

namespace CivilDay

/-- The month and the day within it, from the days since the first of March. -/
def ofDayOfYear (d : Nat) : Nat × Nat :=
  let fifth := (5 * d + 2) / 153
  (if fifth < 10 then fifth + 3 else fifth - 9, d - (153 * fifth + 2) / 5 + 1)

/-- The calendar day, from its number counted from the first of 1970. -/
def ofDayNumber (n : Int) : CivilDay :=
  let march := n + 719468
  let cycle := march / 146097
  let inCycle := (march % 146097).toNat
  let century := min (inCycle / 36524) 3
  let inCentury := inCycle - 36524 * century
  let leap := inCentury / 1461
  let inLeap := inCentury - 1461 * leap
  let single := min (inLeap / 365) 3
  let (month, day) := ofDayOfYear (inLeap - 365 * single)
  let year := 400 * cycle + (100 * century + 4 * leap + single : Nat)
  { year := if month ≤ 2 then year + 1 else year, month, day }

end CivilDay

namespace Instant

/-- The digits of a number, with zeros in front up to the width. -/
def padded (width n : Nat) : List Char :=
  let digits := Nat.toDigits 10 n
  List.replicate (width - digits.length) '0' ++ digits

/-- Four digits for the years 0 to 9999, otherwise a sign and six. -/
def yearText (y : Int) : List Char :=
  if 0 ≤ y ∧ y ≤ 9999 then padded 4 y.toNat
  else (if y < 0 then '-' else '+') :: padded 6 y.natAbs

def dayText (d : CivilDay) : List Char :=
  yearText d.year ++ '-' :: padded 2 d.month ++ '-' :: padded 2 d.day

def clockText (t : Nat) : List Char :=
  padded 2 (t / 3600000) ++ ':' :: padded 2 (t / 60000 % 60) ++ ':' :: padded 2 (t / 1000 % 60) ++
    '.' :: padded 3 (t % 1000)

/-- Day and time of day, as in `2024-02-03T04:05:06.789Z`. -/
def text (i : Instant) : List Char :=
  dayText (.ofDayNumber i.dayNumber) ++ 'T' :: clockText i.timeOfDay ++ ['Z']

/-- The places of the day in the text of an instant. A year of more than four digits pushes its end
out of them. -/
def dateText (i : Instant) : List Char := i.text.take 10

/-- The places of the time of day in the text of an instant, whatever the year's digits. -/
def timeText (i : Instant) : List Char := (i.text.drop 11).take 12

/-- The text of an instant as a day, a time of day, or both. -/
def textAs (i : Instant) : Temporal → List Char
  | .date => i.dateText
  | .time => i.timeText
  | .datetime => i.dateText ++ ' ' :: i.timeText

end Instant

end SqlDraft
