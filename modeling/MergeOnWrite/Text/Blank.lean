/-
Blank characters: the Unicode property `White_Space`, and trimming and
splitting of text by it.
-/

namespace MergeOnWrite.Text

/-- The Unicode property `White_Space`. -/
def isBlank (c : Char) : Bool :=
  let n := c.toNat
  (0x09 ≤ n && n ≤ 0x0D) || n == 0x20 || n == 0x85 || n == 0xA0
    || n == 0x1680 || (0x2000 ≤ n && n ≤ 0x200A) || n == 0x2028
    || n == 0x2029 || n == 0x202F || n == 0x205F || n == 0x3000

/-- The general category `Cc`: the C0 and C1 controls and `DEL`. -/
def isControl (c : Char) : Bool :=
  c.toNat < 0x20 || (0x7F ≤ c.toNat && c.toNat ≤ 0x9F)

/-- Drops the blanks at both ends. -/
def trimChars (cs : List Char) : List Char :=
  ((cs.dropWhile isBlank).reverse.dropWhile isBlank).reverse

/-- The parts of a text between occurrences of a separator; there is one
part more than there are separators. -/
def splitChars (sep : Char) : List Char → List (List Char)
  | [] => [[]]
  | c :: rest =>
    if c = sep then [] :: splitChars sep rest
    else
      match splitChars sep rest with
      | [] => [[c]]
      | part :: parts => (c :: part) :: parts

/-- Drops the blanks at both ends of a text. -/
def trim (text : String) : String := .ofList (trimChars text.toList)

/-- The items of a list written with a separator: blanks around an item
do not count, and empty items are dropped. -/
def items (sep : Char) (text : String) : List String :=
  (((splitChars sep text.toList).map trimChars).filter (· ≠ [])).map .ofList

/-- Lower case, for ASCII letters alone. -/
def lowerAscii (text : String) : String := text.map Char.toLower

end MergeOnWrite.Text
