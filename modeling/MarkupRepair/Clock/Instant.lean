/-!
# Instants

A point in time, its calendar date and its written form in universal time, such as
`2026-01-31T08:05:00.250+00:00`.
-/

namespace MarkupRepair

/-- A point in time, counted in nanoseconds from the first of January 1970. -/
structure Instant where
  /-- Nanoseconds since then. -/
  nanoseconds : Nat
  deriving DecidableEq, Repr

/-- A day of the calendar. -/
structure Date where
  /-- The year. -/
  year : Nat
  /-- The month, from one. -/
  month : Nat
  /-- The day of the month, from one. -/
  day : Nat
  deriving DecidableEq, Repr

namespace Date

/-- The date a number of days after the first of January 1970. Years are counted from the
first of March, so that a leap day is the last day of its year, and days from the first of
March of the year zero, in eras of four hundred years. -/
def ofDays (days : Nat) : Date :=
  let days := days + 719468
  let era := days / 146097
  let dayOfEra := days % 146097
  let yearOfEra := (dayOfEra - dayOfEra / 1460 + dayOfEra / 36524 - dayOfEra / 146096) / 365
  let dayOfYear := dayOfEra - (365 * yearOfEra + yearOfEra / 4 - yearOfEra / 100)
  let monthFromMarch := (5 * dayOfYear + 2) / 153
  let month := if monthFromMarch < 10 then monthFromMarch + 3 else monthFromMarch - 9
  { year := yearOfEra + 400 * era + if month ≤ 2 then 1 else 0
    month
    day := dayOfYear - (153 * monthFromMarch + 2) / 5 + 1 }

example : ofDays 0 = ⟨1970, 1, 1⟩ := by decide
example : ofDays 11016 = ⟨2000, 2, 29⟩ := by decide
example : ofDays 11017 = ⟨2000, 3, 1⟩ := by decide

end Date

namespace Instant

/-- A number in a given number of digits. -/
def padded (width n : Nat) : String :=
  let digits := Nat.toDigits 10 n
  String.ofList (List.replicate (width - digits.length) '0' ++ digits)

/-- The part of a second, in as few groups of three digits as it needs. -/
def fraction (nanoseconds : Nat) : String :=
  if nanoseconds = 0 then ""
  else if nanoseconds % 1000000 = 0 then "." ++ padded 3 (nanoseconds / 1000000)
  else if nanoseconds % 1000 = 0 then "." ++ padded 6 (nanoseconds / 1000)
  else "." ++ padded 9 nanoseconds

/-- The written form. -/
def toText (i : Instant) : String :=
  let seconds := i.nanoseconds / 1000000000
  let date := Date.ofDays (seconds / 86400)
  let time := seconds % 86400
  s!"{padded 4 date.year}-{padded 2 date.month}-{padded 2 date.day}T" ++
    s!"{padded 2 (time / 3600)}:{padded 2 (time / 60 % 60)}:{padded 2 (time % 60)}" ++
    fraction (i.nanoseconds % 1000000000) ++ "+00:00"

/-- Whole milliseconds from one instant to another; none when the second is the earlier. -/
def millisecondsUntil (i j : Instant) : Nat := (j.nanoseconds - i.nanoseconds) / 1000000

end Instant

end MarkupRepair
