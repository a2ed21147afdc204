/-!
# Timestamps

A moment of universal time to the second, as reports show it.
-/
namespace LineCensus

structure Timestamp where
  year : Nat
  month : Nat
  day : Nat
  hour : Nat := 0
  minute : Nat := 0
  second : Nat := 0
deriving DecidableEq, Repr, Inhabited

namespace Timestamp

/-- A number with zeros before it. -/
def padded (width n : Nat) : String :=
  let digits := Nat.toDigits 10 n
  String.ofList (List.replicate (width - digits.length) '0' ++ digits)

/-- Year, month and day. -/
def date (t : Timestamp) : String :=
  padded 4 t.year ++ "-" ++ padded 2 t.month ++ "-" ++ padded 2 t.day

/-- Date and time, with the letter for universal time. -/
def text (t : Timestamp) : String :=
  t.date ++ "T" ++ padded 2 t.hour ++ ":" ++ padded 2 t.minute ++ ":" ++ padded 2 t.second ++ "Z"

/-- The numbers in a text, which anything else keeps apart. -/
def numbersIn (s : List Char) : List Nat :=
  let step (state : Option Nat × List Nat) (c : Char) : Option Nat × List Nat :=
    if c.isDigit then (some (state.1.getD 0 * 10 + (c.toNat - '0'.toNat)), state.2)
    else (none, state.1.toList ++ state.2)
  let last := s.foldl step (none, [])
  (last.1.toList ++ last.2).reverse

/-- Reads a moment back from its text; parts of a second are dropped. -/
def parse? (s : String) : Option Timestamp :=
  match numbersIn s.toList with
  | year :: month :: day :: hour :: minute :: second :: _ =>
    some { year, month, day, hour, minute, second }
  | _ => none

/-- The moment a number of seconds after the start of 1970. Years are counted from
March, so that a leap day is the last day of its year; 400 years have 146097 days. -/
def ofSeconds (seconds : Nat) : Timestamp :=
  let days := seconds / 86400 + 719468
  let dayOfEra := days % 146097
  let yearOfEra := (dayOfEra - dayOfEra / 1460 + dayOfEra / 36524 - dayOfEra / 146096) / 365
  let dayOfYear := dayOfEra - (365 * yearOfEra + yearOfEra / 4 - yearOfEra / 100)
  let fromMarch := (5 * dayOfYear + 2) / 153
  let month := if fromMarch < 10 then fromMarch + 3 else fromMarch - 9
  { year := yearOfEra + days / 146097 * 400 + if month ≤ 2 then 1 else 0
    month
    day := dayOfYear - (153 * fromMarch + 2) / 5 + 1
    hour := seconds / 3600 % 24
    minute := seconds / 60 % 60
    second := seconds % 60 }

end Timestamp

end LineCensus
