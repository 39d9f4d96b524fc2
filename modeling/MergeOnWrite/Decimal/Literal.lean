/-
Reading floating-point numbers.

Settings are read with correct rounding. Stored records are read in
steps: the leading digits that fit 64 bits make a whole number, and one
multiplication or division, each rounded, brings it to its power of ten.
-/
import MergeOnWrite.Text.Blank
import MergeOnWrite.Text.Numeral

namespace MergeOnWrite.Decimal

def nearest (digits : Nat) (exponent : Int) : Float :=
  let magnitude := (Nat.toDigits 10 digits).length + exponent
  if digits = 0 ∨ magnitude < -400 then 0
  else if 400 < magnitude then 1.0 / 0.0
  else Float.ofScientific digits (exponent < 0) exponent.natAbs

/-- A sign, the digits in front of the point and after it, and the
exponent, of a literal. -/
structure Parts where
  negative : Bool
  whole : List Char
  fraction : List Char
  exponent : Int
deriving DecidableEq, Repr

/-- Splits off an optional sign; the first part says whether it is a
minus. -/
def readSign : List Char → Bool × List Char
  | '-' :: rest => (true, rest)
  | '+' :: rest => (false, rest)
  | cs => (false, cs)

/-- Reads an exponent that ends the text, or the end of the text. -/
def readExponent? : List Char → Option Int
  | [] => some 0
  | c :: rest =>
    if c = 'e' ∨ c = 'E' then
      let (negative, digits) := readSign rest
      if digits ≠ [] ∧ digits.all Char.isDigit then
        let n : Int := Nat.ofDigitChars 10 digits 0
        some (if negative then -n else n)
      else none
    else none

/-- The parts of an unsigned literal: digits with an optional point, at
least one digit, and an optional exponent. -/
def readParts? (negative : Bool) (cs : List Char) : Option Parts := do
  let whole := cs.takeWhile Char.isDigit
  let rest := cs.dropWhile Char.isDigit
  let (fraction, rest) :=
    match rest with
    | '.' :: rest => (rest.takeWhile Char.isDigit, rest.dropWhile Char.isDigit)
    | rest => ([], rest)
  if whole = [] ∧ fraction = [] then none
  else return ⟨negative, whole, fraction, ← readExponent? rest⟩

/-- The number that a setting denotes: a literal, or `inf`, `infinity`
or `nan` in any case. -/
def read? (text : String) : Option Float :=
  let (negative, cs) := readSign text.toList
  let word := Text.lowerAscii (.ofList cs)
  let sign (x : Float) : Float := if negative then -x else x
  if word = "inf" ∨ word = "infinity" then some (sign (1.0 / 0.0))
  else if word = "nan" then some (0.0 / 0.0)
  else do
    let parts ← readParts? negative cs
    let digits := Nat.ofDigitChars 10 (parts.whole ++ parts.fraction) 0
    return sign (nearest digits (parts.exponent - parts.fraction.length))

/-- The leading digits that fit 64 bits and the number of the others. -/
def leading (acc : Nat) : List Char → Nat × Nat
  | [] => (acc, 0)
  | c :: rest =>
    let next := acc * 10 + (c.toNat - '0'.toNat)
    if next < UInt64.size then leading next rest else (acc, rest.length + 1)

/-- Divides by `10 ^ 308` until the exponent is at least `-308`. -/
def lower : Nat → Float → Int → Float × Int
  | 0, x, exponent => (x, exponent)
  | fuel + 1, x, exponent =>
    if exponent < -308 ∧ x != 0 then lower fuel (x / 1e308) (exponent + 308)
    else (x, exponent)

/-- A whole number brought to a power of ten with one rounded step; what
grows beyond every finite number is refused. -/
def scale? (digits : Nat) (exponent : Int) : Option Float :=
  let x := (UInt64.ofNat digits).toFloat
  let (x, exponent) := lower 3 x exponent
  if x == 0 then some x
  else if 308 < exponent then none
  else if 0 ≤ exponent then
    let x := x * nearest 1 exponent
    if x.isInf then none else some x
  else if exponent < -308 then some 0
  else some (x / nearest 1 (-exponent))

/-- The number that the literal of a record denotes. -/
def ofLiteral? (literal : List Char) : Option Float := do
  let (negative, cs) := readSign literal
  let parts ← readParts? negative cs
  let (high, dropped) := leading 0 parts.whole
  let (digits, exponent) : Nat × Int :=
    if dropped ≠ 0 ∧ parts.fraction = [] then (high, dropped)
    else
      let (digits, unread) := leading high parts.fraction
      (digits, dropped - (parts.fraction.length - unread : Nat))
  let x ← scale? digits (exponent + parts.exponent)
  return if negative then -x else x

end MergeOnWrite.Decimal
