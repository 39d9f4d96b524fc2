/-
The proleptic Gregorian calendar.

Days are numbered from 1970-01-01. A year starts `yearStart` days after
that, and a day of the year is split along the lengths of the months.
-/
namespace MergeOnWrite.Time

/-- True for years of 366 days. -/
def isLeap (year : Int) : Bool :=
  year % 4 == 0 && (year % 100 != 0 || year % 400 == 0)

def monthLengths (leap : Bool) : List Nat :=
  [31, if leap then 29 else 28, 31, 30, 31, 30, 31, 31, 30, 31, 30, 31]

/-- The number of the first day of a year: 365 days for every year since
the year 0 and one for each leap year among them, less the 719528 days
from 0000-01-01 to 1970-01-01. -/
def yearStart (year : Int) : Int :=
  365 * year + (year + 3) / 4 - (year + 99) / 100 + (year + 399) / 400
    - 719528

/-- The year of a day: the guess from the mean length of a year is off
by one at most. -/
def yearOf (day : Int) : Int :=
  let guess := (day + 719528) * 400 / 146097
  if day < yearStart guess then guess - 1
  else if yearStart (guess + 1) ≤ day then guess + 1
  else guess

/-- How many days some months have together, by their lengths. -/
def daysIn (lengths : List Nat) : Nat := lengths.foldr (· + ·) 0

theorem daysIn_cons (length : Nat) (rest : List Nat) :
    daysIn (length :: rest) = length + daysIn rest := rfl

/-- A day of the calendar. -/
structure Date where
  year : Int
  month : Nat
  day : Nat
deriving DecidableEq, Repr

/-- Splits a day of the year along month lengths: the month, counted
from `month` on, and the day of the month, counted from 1. -/
def splitMonths (month : Nat) : List Nat → Nat → Nat × Nat
  | [], day => (month, day + 1)
  | length :: rest, day =>
    if day < length then (month, day + 1)
    else splitMonths (month + 1) rest (day - length)

namespace Date

/-- True for days that the calendar has. -/
def isValid (date : Date) : Bool :=
  1 ≤ date.month && 1 ≤ date.day
    && ((monthLengths (isLeap date.year))[date.month - 1]?).any (date.day ≤ ·)

def toNumber (date : Date) : Int :=
  yearStart date.year
    + daysIn ((monthLengths (isLeap date.year)).take (date.month - 1))
    + date.day - 1

def ofNumber (number : Int) : Date :=
  let year := yearOf number
  let (month, day) := splitMonths 1 (monthLengths (isLeap year))
    (number - yearStart year).toNat
  ⟨year, month, day⟩

end Date

end MergeOnWrite.Time
