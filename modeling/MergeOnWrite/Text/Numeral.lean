/-
Whole numbers in decimal: writing, writing with leading zeros, and
reading into a bounded range with the cause of a refusal.

A numeral is read from left to right, and the first character that
cannot be accepted decides the cause: one that is no digit, or one that
takes the value out of the range.
-/

namespace MergeOnWrite.Text

/-- The decimal digits of a whole number, with a sign if it is
negative. -/
def numeral (n : Int) : List Char :=
  if n < 0 then '-' :: Nat.toDigits 10 n.natAbs else Nat.toDigits 10 n.natAbs

/-- A numeral of at least the given width, filled up with zeros between
the sign and the digits; the sign counts. -/
def padded (width : Nat) (n : Int) : List Char :=
  let digits := Nat.toDigits 10 n.natAbs
  if n < 0 then '-' :: (List.replicate (width - 1 - digits.length) '0' ++ digits)
  else List.replicate (width - digits.length) '0' ++ digits

/-- Why a text is not a numeral of the range. -/
inductive NumeralError where
  | empty
  | invalidDigit
  | tooLarge
  | tooSmall
deriving DecidableEq, Repr

def NumeralError.message : NumeralError → String
  | .empty => "cannot parse integer from empty string"
  | .invalidDigit => "invalid digit found in string"
  | .tooLarge => "number too large to fit in target type"
  | .tooSmall => "number too small to fit in target type"

/-- A range of whole numbers that numerals are read into. -/
structure NumeralRange where
  least : Int
  greatest : Int
deriving DecidableEq, Repr

namespace NumeralRange

def int64 : NumeralRange := ⟨-0x8000000000000000, 0x7FFFFFFFFFFFFFFF⟩

/-- The unsigned 64-bit numbers. -/
def uint64 : NumeralRange := ⟨0, 0xFFFFFFFFFFFFFFFF⟩

/-- The unsigned 32-bit numbers. -/
def uint32 : NumeralRange := ⟨0, 0xFFFFFFFF⟩

/-- True when a number lies in the range. -/
def contains (range : NumeralRange) (n : Int) : Bool :=
  range.least ≤ n && n ≤ range.greatest

/-- Reads the digits of a number that is not negative. -/
def readUp (range : NumeralRange) (acc : Int) :
    List Char → Except NumeralError Int
  | [] => .ok acc
  | c :: rest =>
    if c.isDigit then
      let next := acc * 10 + (c.toNat - '0'.toNat : Nat)
      if next ≤ range.greatest then readUp range next rest
      else .error .tooLarge
    else .error .invalidDigit

/-- Reads the digits of a number that is not positive. -/
def readDown (range : NumeralRange) (acc : Int) :
    List Char → Except NumeralError Int
  | [] => .ok acc
  | c :: rest =>
    if c.isDigit then
      let next := acc * 10 - (c.toNat - '0'.toNat : Nat)
      if range.least ≤ next then readDown range next rest
      else .error .tooSmall
    else .error .invalidDigit

/-- Reads a numeral: an optional `+`, or `-` where the range has negative
numbers, and at least one ASCII digit. -/
def read (range : NumeralRange) : List Char → Except NumeralError Int
  | [] => .error .empty
  | ['+'] => .error .invalidDigit
  | ['-'] => .error .invalidDigit
  | '+' :: digits => range.readUp 0 digits
  | '-' :: digits =>
    if range.least < 0 then range.readDown 0 digits
    else .error .invalidDigit
  | digits => range.readUp 0 digits

end NumeralRange

def readInt64 (cs : List Char) : Except NumeralError Int64 :=
  (NumeralRange.int64.read cs).map Int64.ofInt

def readUInt64 (cs : List Char) : Except NumeralError UInt64 :=
  (NumeralRange.uint64.read cs).map fun n => UInt64.ofNat n.toNat

def readUInt32 (cs : List Char) : Except NumeralError UInt32 :=
  (NumeralRange.uint32.read cs).map fun n => UInt32.ofNat n.toNat

end MergeOnWrite.Text
