import ProtoTypings.Text.Decimal

namespace ProtoTypings

-- Seconds since the beginning of 1970, and nanoseconds. A thousand million nanoseconds or more stand
-- for a leap second.
structure Timestamp where
  seconds : Int
  nanos : Nat := 0
  deriving DecidableEq, Repr

namespace Timestamp

open Text (padded)

structure Date where
  year : Int
  month : Nat
  day : Nat
  deriving DecidableEq, Repr

-- The date of a day, counted from the first of January 1970. Years are counted from March here, so
-- that a leap day is the last day of its year, in cycles of 400 years.
def Date.ofDay (day : Int) : Date :=
  let shifted := day + 719468
  let cycle := shifted / 146097
  let dayOfCycle := (shifted % 146097).toNat
  let year := (dayOfCycle - dayOfCycle / 1460 + dayOfCycle / 36524 - dayOfCycle / 146096) / 365
  let dayOfYear := dayOfCycle - (365 * year + year / 4 - year / 100)
  let month := (5 * dayOfYear + 2) / 153
  let date := dayOfYear - (153 * month + 2) / 5 + 1
  let calendarMonth := if month < 10 then month + 3 else month - 9
  { year := cycle * 400 + year + (if calendarMonth ≤ 2 then 1 else 0)
    month := calendarMonth
    day := date }

-- A year of four digits stands without a sign.
def yearText (year : Int) : String :=
  if 0 ≤ year ∧ year ≤ 9999 then padded 4 year.toNat
  else (if year < 0 then "-" else "+") ++ padded 4 year.natAbs

def text (t : Timestamp) : String :=
  let date := Date.ofDay (t.seconds / 86400)
  let second := (t.seconds % 86400).toNat
  let leap := t.nanos / 1000000000
  yearText date.year ++ "-" ++ padded 2 date.month ++ "-" ++ padded 2 date.day ++ "T" ++
    padded 2 (second / 3600) ++ ":" ++ padded 2 (second / 60 % 60) ++ ":" ++
    padded 2 (second % 60 + leap) ++ "." ++ padded 3 (t.nanos % 1000000000 / 1000000) ++ "Z"

end Timestamp

end ProtoTypings
