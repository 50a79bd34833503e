import Transcode.Decimal.Natural
import Transcode.Text.Blank
/-!
# Dates

Dates of the Gregorian calendar, carried on before its introduction and beyond the year 9999. Each
date has a day number; the calendar has a first and a last day.
-/

set_option autoImplicit false

namespace Transcode

/-- A day of the calendar. -/
structure Date where
  year : Int
  month : Nat
  day : Nat
deriving Repr, DecidableEq

namespace Date

/-- A year with 366 days. -/
def isLeap (year : Int) : Bool :=
  year % 4 == 0 && (year % 100 != 0 || year % 400 == 0)

/-- The number of days of a month. -/
def daysIn (year : Int) (month : Nat) : Nat :=
  if month = 2 then (if isLeap year then 29 else 28)
  else if month = 4 ∨ month = 6 ∨ month = 9 ∨ month = 11 then 30
  else 31

/-- Whether the calendar has this date. -/
def isValid (d : Date) : Bool :=
  1 ≤ d.month && d.month ≤ 12 && 1 ≤ d.day && d.day ≤ daysIn d.year d.month

/-- The days of a year before a month. -/
def daysBefore (year : Int) (month : Nat) : Nat :=
  (List.range (month - 1)).foldl (fun n m => n + daysIn year (m + 1)) 0

/-- The day after. -/
def tomorrow (date : Date) : Date :=
  if date.day < daysIn date.year date.month then ⟨date.year, date.month, date.day + 1⟩
  else if date.month < 12 then ⟨date.year, date.month + 1, 1⟩
  else ⟨date.year + 1, 1, 1⟩

/-- The number of a day; 1 is the first day of the year 1. -/
def dayNumber (d : Date) : Int :=
  let y := d.year - 1
  365 * y + y / 4 - y / 100 + y / 400 + daysBefore d.year d.month + d.day

/-- The first day of the calendar. -/
def first : Date := ⟨-262143, 1, 1⟩

/-- The last day of the calendar. -/
def last : Date := ⟨262142, 12, 31⟩

/-- Whether a day number belongs to the calendar. -/
def inCalendar (n : Int) : Bool :=
  first.dayNumber ≤ n && n ≤ last.dayNumber

/-- The year as text: four digits at least, with a sign outside the years 0 to 9999. -/
def yearText (year : Int) : String :=
  let digits := Decimal.padded 4 year.natAbs
  if year < 0 then "-" ++ digits else if 9999 < year then "+" ++ digits else digits

/-- The date as text. -/
def text (d : Date) : String :=
  yearText d.year ++ "-" ++ Decimal.padded 2 d.month ++ "-" ++ Decimal.padded 2 d.day

/-- Reads at most `most` digits at the front, at least one. -/
def number? (most : Nat) (cs : List Char) : Option (Nat × List Char) :=
  let digits := (cs.take most).takeWhile Char.isDigit
  if digits = [] then none else some (Decimal.ofDigits digits, cs.drop digits.length)

/-- Reads a year: any number of digits after a sign, at most four without one. -/
def year? (cs : List Char) : Option (Int × List Char) :=
  match cs.dropWhile Text.isBlank with
  | '-' :: rest => (number? rest.length rest).map fun (n, after) => (-(n : Int), after)
  | '+' :: rest => (number? rest.length rest).map fun (n, after) => ((n : Int), after)
  | rest => (number? 4 rest).map fun (n, after) => ((n : Int), after)

/-- Reads a hyphen and a number of one or two digits. -/
def part? : List Char → Option (Nat × List Char)
  | '-' :: rest => number? 2 (rest.dropWhile Text.isBlank)
  | _ => none

/-- Reads a date. White space before a number is skipped, and nothing may be left over. -/
def parse? (cs : List Char) : Option Date := do
  let (year, rest) ← year? cs
  let (month, rest) ← part? rest
  let (day, rest) ← part? rest
  let date : Date := ⟨year, month, day⟩
  if rest = [] ∧ date.isValid then some date else none

end Date

end Transcode
