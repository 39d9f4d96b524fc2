/-
Reading any byte string as text.

Where the bytes are no UTF-8, a mark stands for each longest beginning of
a character that breaks off and for each byte that cannot begin a
character. For people the mark is the replacement character U+FFFD; who
has to tell the marks from the text takes a character that the text does
not use.
-/
import MergeOnWrite.Bytes

namespace MergeOnWrite.Text

/-- A character of which some bytes are read: the value so far, how many
bytes are left, and the bounds of the next one. -/
structure Partial where
  value : Nat
  left : Nat
  least : UInt8 := 0x80
  greatest : UInt8 := 0xBF
deriving DecidableEq, Repr

/-- What the first byte of a character tells. -/
inductive Lead where
  | whole (c : Char)
  | begun (p : Partial)
  | stray
deriving DecidableEq, Repr

/-- Reads the first byte of a character. -/
def Lead.ofByte (b : UInt8) : Lead :=
  let n := b.toNat
  if n < 0x80 then .whole (.ofNat n)
  else if n < 0xC2 then .stray
  else if n < 0xE0 then .begun { value := n - 0xC0, left := 1 }
  else if n < 0xF0 then
    .begun
      { value := n - 0xE0
        left := 2
        least := if n = 0xE0 then 0xA0 else 0x80
        greatest := if n = 0xED then 0x9F else 0xBF }
  else if n < 0xF5 then
    .begun
      { value := n - 0xF0
        left := 3
        least := if n = 0xF0 then 0x90 else 0x80
        greatest := if n = 0xF4 then 0x8F else 0xBF }
  else .stray

/-- Puts a mark for what is no UTF-8, with a character begun or not. -/
def markedFrom (mark : Char) : Option Partial → Bytes → List Char
  | none, [] => []
  | some _, [] => [mark]
  | pending, b :: rest =>
    let fresh : List Char :=
      match Lead.ofByte b with
      | .whole c => c :: markedFrom mark none rest
      | .begun p => markedFrom mark (some p) rest
      | .stray => mark :: markedFrom mark none rest
    match pending with
    | none => fresh
    | some p =>
      if p.least ≤ b ∧ b ≤ p.greatest then
        let value := p.value * 64 + (b.toNat - 0x80)
        if p.left = 1 then .ofNat value :: markedFrom mark none rest
        else markedFrom mark (some { value, left := p.left - 1 }) rest
      else mark :: fresh

/-- The characters of a byte string, with a mark for what is no UTF-8. -/
def marked (mark : Char) (bytes : Bytes) : List Char :=
  markedFrom mark none bytes

/-- The text of a byte string with what is no UTF-8 replaced. -/
def lossy (bytes : Bytes) : String := .ofList (marked '\uFFFD' bytes)

/-- A character that does not occur among some others: there are more
candidates than characters. -/
def unusedChar (cs : List Char) : Char :=
  let candidates := (List.range (cs.length + 1)).map fun i =>
    Char.ofNat (0x10000 + i)
  (candidates.find? fun c => !cs.contains c).getD '\uFFFD'

end MergeOnWrite.Text
