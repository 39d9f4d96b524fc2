/-
Instants as text, in UTC.

A stamp gives the date, the time of day and, if there is one, the part
of the second in three, six or nine digits, whichever are enough. Years
outside 0 to 9999 carry a sign. The stored form joins date and time by
`T` and ends in `Z`; messages separate them by a blank and end in `UTC`.

Reading is wider than writing: any number of digits of the fraction, an
offset in place of `Z`, `t` or a blank in place of `T`, blanks around
the parts, and numbers without their leading zeros.
-/
import MergeOnWrite.Text.Blank
import MergeOnWrite.Text.Numeral
import MergeOnWrite.Time.Instant

namespace MergeOnWrite.Instant

open Text Time

-- ================================================== writing

/-- A year: four digits, or a sign and at least four digits. -/
def yearChars (year : Int) : List Char :=
  if 0 ≤ year ∧ year ≤ 9999 then padded 4 year
  else if 0 ≤ year then '+' :: padded 4 year
  else padded 5 year

/-- The part of a second: none, or a point and three, six or nine
digits. -/
def fractionChars (nano : Nat) : List Char :=
  if nano = 0 then []
  else if nano % 1000000 = 0 then '.' :: padded 3 (nano / 1000000 : Nat)
  else if nano % 1000 = 0 then '.' :: padded 6 (nano / 1000 : Nat)
  else '.' :: padded 9 nano

def date (t : Instant) : Date := .ofNumber (t.second / 86400)

/-- The date, as year, month and day. -/
def dateChars (t : Instant) : List Char :=
  let date := t.date
  yearChars date.year ++ '-' :: padded 2 date.month ++ '-' ::
    padded 2 date.day

/-- The time of day. The nanoseconds of a leap second count as a second
of its own. -/
def timeChars (t : Instant) : List Char :=
  let second := (t.second % 86400).toNat
  padded 2 (second / 3600 : Nat) ++ ':' :: padded 2 (second / 60 % 60 : Nat)
    ++ ':' :: padded 2 (second % 60 + t.nano / 1000000000 : Nat)
    ++ fractionChars (t.nano % 1000000000)

def stampChars (t : Instant) : List Char :=
  t.dateChars ++ 'T' :: t.timeChars ++ ['Z']

def stamp (t : Instant) : String := .ofList t.stampChars

def message (t : Instant) : String :=
  .ofList (t.dateChars ++ ' ' :: t.timeChars) ++ " UTC"

-- ================================================== reading

def skipBlank (cs : List Char) : List Char := cs.dropWhile isBlank

/-- Reads the digits in front, at least one and at most `width`. -/
def readDigits? (width : Nat) (cs : List Char) : Option (Nat × List Char) :=
  let digits := (cs.take width).takeWhile Char.isDigit
  if digits = [] then none
  else some (Nat.ofDigitChars 10 digits 0, cs.drop digits.length)

/-- Reads a number of a range, at most `width` digits. -/
def readWithin? (width least greatest : Nat) (cs : List Char) :
    Option (Nat × List Char) := do
  let (n, rest) ← readDigits? width (skipBlank cs)
  if least ≤ n ∧ n ≤ greatest then some (n, rest) else none

/-- Reads a year: up to four digits, or a sign and any number of digits. -/
def readYear? (cs : List Char) : Option (Int × List Char) :=
  match skipBlank cs with
  | '-' :: rest => do
    let (n, rest) ← readDigits? rest.length rest
    return (-n, rest)
  | '+' :: rest => do
    let (n, rest) ← readDigits? rest.length rest
    return (n, rest)
  | cs => do
    let (n, rest) ← readDigits? 4 cs
    return (n, rest)

/-- Reads a separator with blanks around it. -/
def readMark? (mark : Char) (cs : List Char) : Option (List Char) :=
  match skipBlank cs with
  | c :: rest => if c = mark then some (skipBlank rest) else none
  | [] => none

/-- Reads the part of a second, if there is one; digits after the ninth
do not count. -/
def readFraction? : List Char → Option (Nat × List Char)
  | '.' :: rest => do
    let (n, after) ← readDigits? 9 rest
    return (n * Nat.pow 10 (9 - (rest.length - after.length)),
      after.dropWhile Char.isDigit)
  | cs => some (0, cs)

/-- Reads an offset from UTC in seconds. -/
def readOffset? : List Char → Option (Int × List Char)
  | 'Z' :: rest => some (0, rest)
  | 'z' :: rest => some (0, rest)
  | sign :: h :: h' :: rest => do
    let negative ←
      if sign = '+' then some false
      else if sign = '-' ∨ sign = '\u2212' then some true
      else if (lowerAscii (.ofList [sign, h, h'])) = "utc" then
        return (0, rest)
      else none
    let (hours, _) ← readDigits? 2 [h, h']
    if ¬ h'.isDigit ∨ 24 ≤ hours then none
    match rest.dropWhile fun c => c = ':' ∨ isBlank c with
    | m :: m' :: rest =>
      if m.isDigit ∧ m'.isDigit ∧ m < '6' then
        let minutes := Nat.ofDigitChars 10 [m, m'] 0
        let offset : Int := hours * 3600 + minutes * 60
        return (if negative then -offset else offset, rest)
      else none
    | _ => none
  | _ => none

/-- Reads a stamp in any of its spellings. -/
def read? (cs : List Char) : Option Instant := do
  let (year, cs) ← readYear? cs
  let cs ← readMark? '-' cs
  let (month, cs) ← readWithin? 2 1 12 cs
  let cs ← readMark? '-' cs
  let (day, cs) ← readWithin? 2 1 31 cs
  let cs ←
    match cs with
    | 'T' :: cs => some cs
    | 't' :: cs => some cs
    | ' ' :: cs => some cs
    | _ => none
  let (hour, cs) ← readWithin? 2 0 23 cs
  let cs ← readMark? ':' cs
  let (minute, cs) ← readWithin? 2 0 59 cs
  let cs ← readMark? ':' cs
  let (second, cs) ← readWithin? 2 0 60 cs
  let (nano, cs) ← readFraction? cs
  let (offset, cs) ← readOffset? (skipBlank cs)
  let date : Date := ⟨year, month, day⟩
  let whole := min second 59
  let clock : Int := hour * 3600 + minute * 60 + whole
  let atOffset : Instant :=
    ⟨date.toNumber * 86400 + clock, nano + (second - whole) * 1000000000⟩
  let t : Instant := ⟨atOffset.second - offset, atOffset.nano⟩
  if skipBlank cs = [] ∧ date.isValid ∧ atOffset.isInCalendar
      ∧ t.isInCalendar then
    some t
  else none

end MergeOnWrite.Instant
