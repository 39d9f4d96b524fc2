/-
The two layouts of floating-point numbers.

Messages write every finite number positionally, without an exponent and
without a fraction that is zero. Stored records write an exponent with
its sign for numbers below `10 ^ -5` and from `10 ^ 16` on, and a point
for all others. Where two decimals of the fewest digits are as near,
messages take the greater one and records the even one.
-/
import MergeOnWrite.Decimal.Shortest
import MergeOnWrite.Text.Numeral

namespace MergeOnWrite.Decimal

def zeros (n : Nat) : List Char := List.replicate n '0'

/-- A decimal without an exponent; `point` adds a zero fraction to whole
numbers. -/
def positional (point : Bool) (d : Decimal) : List Char :=
  let digits := Nat.toDigits 10 d.digits
  if 0 ≤ d.exponent then
    digits ++ zeros d.exponent.toNat ++ (if point then ['.', '0'] else [])
  else
    let places := (-d.exponent).toNat
    if places < digits.length then
      digits.take (digits.length - places) ++ '.' ::
        digits.drop (digits.length - places)
    else '0' :: '.' :: zeros (places - digits.length) ++ digits

def exponentText (exponent : Int) : List Char :=
  if 0 ≤ exponent then '+' :: Text.numeral exponent
  else Text.numeral exponent

/-- A decimal with one digit in front of the point and an exponent. -/
def scientific (d : Decimal) : List Char :=
  let digits := Nat.toDigits 10 d.digits
  let exponent := exponentText (d.exponent + digits.length - 1)
  match digits with
  | [digit] => digit :: 'e' :: exponent
  | digit :: rest => digit :: '.' :: rest ++ 'e' :: exponent
  | [] => []

/-- True when the sign bit of a double is set. -/
def isSigned (x : Float) : Bool := x.toBits >>> 63 == 1

def message (x : Float) : String :=
  if x.isNaN then "NaN"
  else
    let sign := if isSigned x then "-" else ""
    if x.isInf then sign ++ "inf"
    else if x == 0 then sign ++ "0"
    else sign ++ .ofList (positional false ((Binary.ofFloat x).shortest .up))

/-- The layout of stored records; what is not finite has none. -/
def stored? (x : Float) : Option (List Char) :=
  if x.isNaN || x.isInf then none
  else
    let sign := if isSigned x then ['-'] else []
    if x == 0 then some (sign ++ "0.0".toList)
    else
      let d := (Binary.ofFloat x).shortest .even
      let point := (Nat.toDigits 10 d.digits).length + d.exponent
      if -5 < point ∧ point ≤ 16 then some (sign ++ positional true d)
      else some (sign ++ scientific d)

end MergeOnWrite.Decimal
