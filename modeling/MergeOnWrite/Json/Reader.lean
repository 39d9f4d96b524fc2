/-
Reading JSON texts.

`Json.read` accepts exactly one value with blanks around it; text after
it, a comma before a closing bracket, a number with leading zeros and an
unescaped control character within a string are refused. The fuel of the
mutual recursion is one more than the length of the text, which is
enough since every level consumes a character.
-/
import MergeOnWrite.Json.Basic

namespace MergeOnWrite.Json

/-- The blanks that may stand between the tokens of a text. -/
def isGap (c : Char) : Bool := c == ' ' || c == '\n' || c == '\t' || c == '\r'

/-- Drops the blanks in front of a token. -/
def skipGap (cs : List Char) : List Char := cs.dropWhile isGap

/-- Reads a string after its opening quote, up to and with its closing
quote; answers the spelling between them and what follows. -/
def readString : List Char → Option (List Char × List Char)
  | '"' :: rest => some ([], rest)
  | '\\' :: 'u' :: a :: b :: c :: d :: rest => do
    let _ ← hexUnit? a b c d
    let (spelling, rest) ← readString rest
    return ('\\' :: 'u' :: a :: b :: c :: d :: spelling, rest)
  | '\\' :: e :: rest => do
    let _ ← simpleEscape? e
    let (spelling, rest) ← readString rest
    return ('\\' :: e :: spelling, rest)
  | c :: rest => do
    if c.toNat < 0x20 ∨ c = '\\' then none
    else
      let (spelling, rest) ← readString rest
      return (c :: spelling, rest)
  | [] => none

/-- Splits off a run of digits. -/
def readDigits (cs : List Char) : List Char × List Char :=
  (cs.takeWhile Char.isDigit, cs.dropWhile Char.isDigit)

/-- Reads the digits in front of a point: a zero alone, or digits that
do not start with a zero. -/
def readWhole : List Char → Option (List Char × List Char)
  | '0' :: rest => some (['0'], rest)
  | cs =>
    match readDigits cs with
    | ([], _) => none
    | (digits, rest) => some (digits, rest)

/-- Reads a point and the digits after it, if there is a point. -/
def readFraction : List Char → Option (List Char × List Char)
  | '.' :: rest =>
    match readDigits rest with
    | ([], _) => none
    | (digits, rest) => some ('.' :: digits, rest)
  | cs => some ([], cs)

def readExponent : List Char → Option (List Char × List Char)
  | c :: rest =>
    if c = 'e' ∨ c = 'E' then
      let (sign, rest) :=
        match rest with
        | '+' :: rest => (['+'], rest)
        | '-' :: rest => (['-'], rest)
        | rest => ([], rest)
      match readDigits rest with
      | ([], _) => none
      | (digits, rest) => some (c :: sign ++ digits, rest)
    else some ([], c :: rest)
  | [] => some ([], [])

def readNumber (cs : List Char) : Option (List Char × List Char) := do
  let (sign, cs) :=
    match cs with
    | '-' :: rest => (['-'], rest)
    | cs => ([], cs)
  let (whole, cs) ← readWhole cs
  let (fraction, cs) ← readFraction cs
  let (exponent, cs) ← readExponent cs
  return (sign ++ whole ++ fraction ++ exponent, cs)

mutual

def readValue : Nat → List Char → Option (Json × List Char)
  | 0, _ => none
  | fuel + 1, cs =>
    match skipGap cs with
    | 'n' :: 'u' :: 'l' :: 'l' :: rest => some (.null, rest)
    | 't' :: 'r' :: 'u' :: 'e' :: rest => some (.bool true, rest)
    | 'f' :: 'a' :: 'l' :: 's' :: 'e' :: rest => some (.bool false, rest)
    | '"' :: rest => do
      let (spelling, rest) ← readString rest
      return (.string spelling, rest)
    | '[' :: rest =>
      match skipGap rest with
      | ']' :: rest => some (.array [], rest)
      | rest => do
        let (items, rest) ← readItems fuel rest
        return (.array items, rest)
    | '\x7b' :: rest =>
      match skipGap rest with
      | '\x7d' :: rest => some (.object [], rest)
      | rest => do
        let (members, rest) ← readMembers fuel rest
        return (.object members, rest)
    | cs => do
      let (literal, rest) ← readNumber cs
      return (.number literal, rest)

/-- Reads the items of an array and its closing bracket. -/
def readItems : Nat → List Char → Option (List Json × List Char)
  | 0, _ => none
  | fuel + 1, cs => do
    let (item, rest) ← readValue fuel cs
    match skipGap rest with
    | ',' :: rest => do
      let (items, rest) ← readItems fuel rest
      return (item :: items, rest)
    | ']' :: rest => some ([item], rest)
    | _ => none

/-- Reads the members of an object and its closing brace. -/
def readMembers : Nat → List Char →
    Option (List (List Char × Json) × List Char)
  | 0, _ => none
  | fuel + 1, cs =>
    match skipGap cs with
    | '"' :: rest => do
      let (name, rest) ← readString rest
      match skipGap rest with
      | ':' :: rest => do
        let (value, rest) ← readValue fuel rest
        match skipGap rest with
        | ',' :: rest => do
          let (members, rest) ← readMembers fuel rest
          return ((name, value) :: members, rest)
        | '\x7d' :: rest => some ([(name, value)], rest)
        | _ => none
      | _ => none
    | _ => none

end

/-- The value that a text spells. -/
def read (cs : List Char) : Option Json := do
  let (value, rest) ← readValue (2 * cs.length + 2) cs
  if skipGap rest = [] then some value else none

end MergeOnWrite.Json
