import ProtoTypings.Text.Affix
import ProtoTypings.Text.Decimal

namespace ProtoTypings.Settings

structure Date where
  year : Nat
  month : Nat
  day : Nat
  deriving DecidableEq, Repr

structure TimeOfDay where
  hour : Nat
  minute : Nat
  -- up to 60, which is a leap second
  second : Nat := 0
  nanos : Nat := 0
  deriving DecidableEq, Repr

inductive Offset where
  | utc
  | ahead (minutes : Nat)
  | behind (minutes : Nat)
  deriving DecidableEq, Repr

inductive Moment where
  | date (date : Date)
  | time (time : TimeOfDay)
  | instant (date : Date) (time : TimeOfDay) (offset : Option Offset)
  deriving DecidableEq, Repr

open Text (padded decimal? decimalValue)

namespace Date

def isLeapYear (year : Nat) : Bool :=
  year % 4 = 0 && (year % 100 ≠ 0 || year % 400 = 0)

def daysOfMonth (year month : Nat) : Nat :=
  if month = 2 then (if isLeapYear year then 29 else 28)
  else if month = 4 ∨ month = 6 ∨ month = 9 ∨ month = 11 then 30
  else 31

def isValid (d : Date) : Bool :=
  1 ≤ d.month && d.month ≤ 12 && 1 ≤ d.day && d.day ≤ daysOfMonth d.year d.month

def text (d : Date) : String :=
  padded 4 d.year ++ "-" ++ padded 2 d.month ++ "-" ++ padded 2 d.day

end Date

namespace TimeOfDay

def isValid (t : TimeOfDay) : Bool :=
  t.hour ≤ 23 && t.minute ≤ 59 && t.second ≤ 60

-- The digits after the point, without zeros at the end.
def fraction (t : TimeOfDay) : String :=
  if t.nanos = 0 then ""
  else "." ++ Text.dropBack '0' (padded 9 t.nanos)

def text (t : TimeOfDay) : String :=
  padded 2 t.hour ++ ":" ++ padded 2 t.minute ++ ":" ++ padded 2 t.second ++ t.fraction

end TimeOfDay

-- An offset of no minutes is ahead of UTC, whatever its sign was.
def Offset.text : Offset → String
  | utc => "Z"
  | ahead minutes => "+" ++ padded 2 (minutes / 60) ++ ":" ++ padded 2 (minutes % 60)
  | behind 0 => "+00:00"
  | behind minutes => "-" ++ padded 2 (minutes / 60) ++ ":" ++ padded 2 (minutes % 60)

def Moment.text : Moment → String
  | date d => d.text
  | time t => t.text
  | instant d t offset => d.text ++ "T" ++ t.text ++ (offset.map Offset.text).getD ""

-- A character that has to stand next.
def mark? (c : Char) : List Char → Option (List Char)
  | d :: rest => if d = c then some rest else none
  | [] => none

def date? (cs : List Char) : Option (Date × List Char) := do
  let (year, rest) ← decimal? 4 cs
  let (month, rest) ← decimal? 2 (← mark? '-' rest)
  let (day, rest) ← decimal? 2 (← mark? '-' rest)
  let d : Date := { year, month, day }
  if d.isValid then return (d, rest) else none

-- The nanoseconds after the point of a second. Digits after the ninth do not count.
def nanos? (cs : List Char) : Option (Nat × List Char) :=
  match cs.takeWhile Char.isDigit with
  | [] => none
  | digits =>
    let digits := digits.take 9
    some (decimalValue (digits ++ List.replicate (9 - digits.length) '0'), cs.dropWhile Char.isDigit)

-- A time of day. Its seconds may be left out.
def time? (cs : List Char) : Option (TimeOfDay × List Char) := do
  let (hour, rest) ← decimal? 2 cs
  let (minute, rest) ← decimal? 2 (← mark? ':' rest)
  let (t, rest) ← match rest with
    | ':' :: rest => do
      let (second, rest) ← decimal? 2 rest
      match rest with
      | '.' :: rest => do
        let (nanos, rest) ← nanos? rest
        pure (({ hour, minute, second, nanos } : TimeOfDay), rest)
      | rest => pure ({ hour, minute, second }, rest)
    | rest => pure ({ hour, minute }, rest)
  if t.isValid then return (t, rest) else none

-- Hours and minutes of an offset, in minutes.
def offsetMinutes? (cs : List Char) : Option (Nat × List Char) := do
  let (hours, rest) ← decimal? 2 cs
  let (minutes, rest) ← decimal? 2 (← mark? ':' rest)
  if hours ≤ 23 ∧ minutes ≤ 59 then return (hours * 60 + minutes, rest) else none

-- The offset after a time, if there is one.
def offset? (cs : List Char) : Option (Option Offset × List Char) :=
  match cs with
  | 'Z' :: rest | 'z' :: rest => some (some .utc, rest)
  | '+' :: rest => (offsetMinutes? rest).map fun (minutes, rest) => (some (.ahead minutes), rest)
  | '-' :: rest => (offsetMinutes? rest).map fun (minutes, rest) => (some (.behind minutes), rest)
  | cs => some (none, cs)

def instant? (d : Date) (cs : List Char) : Option (Moment × List Char) := do
  let (t, rest) ← time? cs
  let (offset, rest) ← offset? rest
  return (.instant d t offset, rest)

-- A moment. Between date and time stands a letter or one space; a space that no digit follows does
-- not belong to the moment.
def moment? (cs : List Char) : Option (Moment × List Char) :=
  match cs.dropWhile Char.isDigit with
  | ':' :: _ => (time? cs).map fun (t, rest) => (.time t, rest)
  | '-' :: _ => do
    let (d, rest) ← date? cs
    match rest with
    | 'T' :: rest | 't' :: rest => instant? d rest
    | ' ' :: c :: rest =>
      if c.isDigit then instant? d (c :: rest) else return (.date d, ' ' :: c :: rest)
    | rest => return (.date d, rest)
  | _ => none

end ProtoTypings.Settings
