/-
The fewest decimal digits that denote a floating-point number.

A finite double is `m * 2 ^ q` for whole numbers `m` and `q`, and the
reals that round to it form an interval around it, whose ends belong to
it when `m` is even. `shortest` tests, for one digit, then two, and so
on up to seventeen, the two neighbours of the number on the grid of that
many digits. The first grid with a neighbour in the interval wins; of
two neighbours the nearer, and of two at the same distance the one that a
rule for ties says.
-/

namespace MergeOnWrite

/-- The number `digits * 10 ^ exponent`. -/
structure Decimal where
  digits : Nat
  exponent : Int
deriving DecidableEq, Repr

/-- Which of two decimals at the same distance from a number denotes it. -/
inductive Tie where
  /-- The one whose last digit is even. -/
  | even
  | up
deriving DecidableEq, Repr

/-- True when a tie between `digits` and `digits + 1` goes to `digits`. -/
def Tie.goesDown (tie : Tie) (digits : Nat) : Bool :=
  tie == .even && digits % 2 == 0

namespace Decimal

/-- A power of two, one for an exponent below zero. -/
def pow2 (k : Int) : Nat := Nat.pow 2 k.toNat

/-- A power of ten, one for an exponent below zero. -/
def pow10 (k : Int) : Nat := Nat.pow 10 k.toNat

/-- Moves trailing zeros from the digits into the exponent. -/
def dropZeros : Nat → Decimal → Decimal
  | 0, d => d
  | fuel + 1, d =>
    if d.digits ≠ 0 ∧ d.digits % 10 = 0 then
      dropZeros fuel ⟨d.digits / 10, d.exponent + 1⟩
    else d

/-- A positive finite double `m * 2 ^ q`; `narrow` says that the next
double below is only half as far away as the next one above. -/
structure Binary where
  m : Nat
  q : Int
  narrow : Bool
deriving DecidableEq, Repr

/-- The parts of the absolute value of a finite double. -/
def Binary.ofFloat (x : Float) : Binary :=
  let bits := x.toBits.toNat
  let fraction : Nat := bits % pow2 52
  let exponent : Nat := bits / pow2 52 % pow2 11
  if exponent = 0 then ⟨fraction, -1074, false⟩
  else ⟨fraction + pow2 52, (exponent : Int) - 1075,
    fraction == 0 && exponent > 1⟩

/-- The exponent of the greatest power of ten that is at most a positive
double. -/
def Binary.magnitude (x : Binary) : Int :=
  let guess := ((x.m.log2 : Int) + x.q) * 30103 / 100000 - 1
  let atLeast (k : Int) : Bool :=
    pow10 k * pow2 (-x.q) ≤ x.m * pow2 x.q * pow10 (-k)
  if atLeast (guess + 2) then guess + 2
  else if atLeast (guess + 1) then guess + 1
  else guess

/-- The neighbour of a positive double on the grid of the multiples of
`10 ^ k` that rounds to it, if there is one. -/
def Binary.onGrid? (x : Binary) (tie : Tie) (k : Int) : Option Decimal :=
  let p := x.q - 2
  let left := pow2 p * pow10 (-k)
  let right := pow10 k * pow2 (-p)
  let value := 4 * x.m * left
  let low := (if x.narrow then 4 * x.m - 1 else 4 * x.m - 2) * left
  let high := (4 * x.m + 2) * left
  let even := x.m % 2 == 0
  let inside (d : Nat) : Bool :=
    (low < d * right || (even && low == d * right))
      && (d * right < high || (even && d * right == high))
  let down := value / right
  let up := down + 1
  if inside down && inside up then
    let below := value - down * right
    let above := up * right - value
    if below < above || (below == above && tie.goesDown down) then
      some ⟨down, k⟩
    else some ⟨up, k⟩
  else if inside down then some ⟨down, k⟩
  else if inside up then some ⟨up, k⟩
  else none

/-- Tests the grids of `tried + 1`, `tried + 2`, … digits. -/
def Binary.search (x : Binary) (tie : Tie) (magnitude : Int) :
    Nat → Nat → Decimal
  | 0, _ => ⟨0, 0⟩
  | fuel + 1, tried =>
    match x.onGrid? tie (magnitude - tried) with
    | some d => dropZeros 17 d
    | none => search x tie magnitude fuel (tried + 1)

/-- The fewest digits that denote a positive finite double. -/
def Binary.shortest (x : Binary) (tie : Tie) : Decimal :=
  x.search tie x.magnitude 17 0

end Decimal

end MergeOnWrite
