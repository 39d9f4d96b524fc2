/-
JSON values as the records of the store use them.

A value keeps the spelling of its numbers and strings: a number is the
literal as written, a string what stands between its quotes, escapes
included. Whether a spelling denotes a value of some type is decided by
who reads it (`Json.integer?`, `Json.text?`), so a member that nobody
reads may hold a number of any size or an escape that denotes nothing.

# Main statements

- `unescape_escape`: a text reads back from its escaped spelling.
-/
import MergeOnWrite.Text.Numeral

namespace MergeOnWrite

/-- A JSON value with the spelling of its numbers and strings. -/
inductive Json where
  | null
  | bool (b : Bool)
  | number (literal : List Char)
  | string (spelling : List Char)
  | array (items : List Json)
  | object (members : List (List Char × Json))
deriving Inhabited, Repr

namespace Json

-- ================================================== strings

def hexValue? (c : Char) : Option Nat :=
  if '0' ≤ c ∧ c ≤ '9' then some (c.toNat - '0'.toNat)
  else if 'a' ≤ c ∧ c ≤ 'f' then some (c.toNat - 'a'.toNat + 10)
  else if 'A' ≤ c ∧ c ≤ 'F' then some (c.toNat - 'A'.toNat + 10)
  else none

def hexUnit? (a b c d : Char) : Option Nat := do
  return (((← hexValue? a) * 16 + (← hexValue? b)) * 16 + (← hexValue? c)) * 16
    + (← hexValue? d)

/-- The spelling of one character within a string: quotes, backslashes
and the control characters below U+0020 are escaped. -/
def escapeChar (c : Char) : List Char :=
  if c = '"' then ['\\', '"']
  else if c = '\\' then ['\\', '\\']
  else if c = '\x08' then ['\\', 'b']
  else if c = '\x0C' then ['\\', 'f']
  else if c = '\n' then ['\\', 'n']
  else if c = '\r' then ['\\', 'r']
  else if c = '\t' then ['\\', 't']
  else if c.toNat < 0x20 then
    ['\\', 'u', '0', '0', Nat.digitChar (c.toNat / 16),
      Nat.digitChar (c.toNat % 16)]
  else [c]

/-- The spelling of a text within a string. -/
def escape (cs : List Char) : List Char := cs.flatMap escapeChar

def simpleEscape? : Char → Option Char
  | '"' => some '"'
  | '\\' => some '\\'
  | '/' => some '/'
  | 'b' => some '\x08'
  | 'f' => some '\x0C'
  | 'n' => some '\n'
  | 'r' => some '\r'
  | 't' => some '\t'
  | _ => none

/-- The text a spelling denotes. Nothing is denoted by an unknown escape
and by a surrogate that is not one of a leading and trailing pair. -/
def unescape : List Char → Option (List Char)
  | [] => some []
  | '\\' :: 'u' :: a :: b :: c :: d :: rest => do
    let unit ← hexUnit? a b c d
    if 0xD800 ≤ unit ∧ unit ≤ 0xDBFF then
      match rest with
      | '\\' :: 'u' :: e :: f :: g :: h :: rest => do
        let low ← hexUnit? e f g h
        if 0xDC00 ≤ low ∧ low ≤ 0xDFFF then
          let code := 0x10000 + (unit - 0xD800) * 0x400 + (low - 0xDC00)
          return .ofNat code :: (← unescape rest)
        else none
      | _ => none
    else if 0xDC00 ≤ unit ∧ unit ≤ 0xDFFF then none
    else return .ofNat unit :: (← unescape rest)
  | '\\' :: e :: rest => do
    return (← simpleEscape? e) :: (← unescape rest)
  | ['\\'] => none
  | c :: rest => do return c :: (← unescape rest)

/-- Two hexadecimal digits after `00` give back a small number. -/
theorem hexUnit?_digitChar :
    ∀ n < 32, hexUnit? '0' '0' (Nat.digitChar (n / 16))
      (Nat.digitChar (n % 16)) = some n := by
  decide

/-- A one-letter escape reads back in front of any spelling. -/
theorem unescape_simpleEscape {e c : Char} (h : simpleEscape? e = some c)
    (rest : List Char) :
    unescape ('\\' :: e :: rest) = (unescape rest).map (c :: ·) := by
  have hu : e ≠ 'u' := by rintro rfl; cases h
  rw [unescape]
  · rw [h]
    cases unescape rest <;> rfl
  · intro _ _ _ _ _ he
    exact absurd he hu

/-- How a character is escaped: with one letter, with its number if it is a
control character that has no letter, or not at all. -/
theorem escapeChar_cases (c : Char) :
    (∃ e, simpleEscape? e = some c ∧ escapeChar c = ['\\', e])
      ∨ (c.toNat < 0x20 ∧ escapeChar c = ['\\', 'u', '0', '0',
        Nat.digitChar (c.toNat / 16), Nat.digitChar (c.toNat % 16)])
      ∨ (¬ c.toNat < 0x20 ∧ c ≠ '"' ∧ c ≠ '\\' ∧ escapeChar c = [c]) := by
  by_cases hquote : c = '"'
  · exact .inl ⟨'"', by subst hquote; exact ⟨rfl, rfl⟩⟩
  by_cases hback : c = '\\'
  · exact .inl ⟨'\\', by subst hback; exact ⟨rfl, rfl⟩⟩
  by_cases hb : c = '\x08'
  · exact .inl ⟨'b', by subst hb; exact ⟨rfl, rfl⟩⟩
  by_cases hf : c = '\x0C'
  · exact .inl ⟨'f', by subst hf; exact ⟨rfl, rfl⟩⟩
  by_cases hn : c = '\n'
  · exact .inl ⟨'n', by subst hn; exact ⟨rfl, rfl⟩⟩
  by_cases hr : c = '\r'
  · exact .inl ⟨'r', by subst hr; exact ⟨rfl, rfl⟩⟩
  by_cases ht : c = '\t'
  · exact .inl ⟨'t', by subst ht; exact ⟨rfl, rfl⟩⟩
  rw [escapeChar, if_neg hquote, if_neg hback, if_neg hb, if_neg hf, if_neg hn,
    if_neg hr, if_neg ht]
  by_cases hlow : c.toNat < 0x20
  · exact .inr (.inl ⟨hlow, if_pos hlow⟩)
  · exact .inr (.inr ⟨hlow, hquote, hback, if_neg hlow⟩)

/-- An escaped character reads back in front of any spelling. -/
theorem unescape_escapeChar_append (c : Char) (rest : List Char) :
    unescape (escapeChar c ++ rest) = (unescape rest).map (c :: ·) := by
  rcases escapeChar_cases c with ⟨e, he, heq⟩ | ⟨hlow, heq⟩
    | ⟨-, -, hback, heq⟩
  · rw [heq]
    exact unescape_simpleEscape he rest
  · have hunit := hexUnit?_digitChar c.toNat hlow
    have hleading : ¬ (0xD800 ≤ c.toNat ∧ c.toNat ≤ 0xDBFF) := by omega
    have htrailing : ¬ (0xDC00 ≤ c.toNat ∧ c.toNat ≤ 0xDFFF) := by omega
    rw [heq]
    simp only [List.cons_append, List.nil_append, unescape, hunit,
      Option.bind_eq_bind, Option.bind_some, if_neg hleading, if_neg htrailing,
      Char.ofNat_toNat]
    cases unescape rest <;> rfl
  · rw [heq, List.singleton_append, unescape]
    · cases unescape rest <;> rfl
    · rintro _ _ _ _ _ h
      exact absurd h hback
    · rintro _ _ h
      exact absurd h hback
    · rintro h
      exact absurd h hback

/-- A text reads back from its escaped spelling. -/
theorem unescape_escape (cs : List Char) : unescape (escape cs) = some cs := by
  induction cs with
  | nil => rfl
  | cons c cs ih =>
      rw [escape, List.flatMap_cons, unescape_escapeChar_append,
        show cs.flatMap escapeChar = escape cs from rfl, ih]
      rfl

/-- The value that holds a text. -/
def ofText (text : String) : Json := .string (escape text.toList)

def text? : Json → Option String
  | .string spelling => (unescape spelling).map .ofList
  | _ => none

-- ================================================== numbers

/-- The value that holds a whole number. -/
def ofInt (n : Int) : Json := .number (Text.numeral n)

/-- The whole number that digits with an optional sign denote. The
literal `-0` denotes no whole number: it is the negative zero of the
floating-point numbers. -/
def integerLiteral? (literal : List Char) : Option Int :=
  match literal with
  | '-' :: digits =>
    if digits.all Char.isDigit && digits ≠ ['0'] && digits ≠ [] then
      some (-(Nat.ofDigitChars 10 digits 0 : Int))
    else none
  | digits =>
    if digits.all Char.isDigit && digits ≠ [] then
      some (Nat.ofDigitChars 10 digits 0 : Int)
    else none

/-- The whole number of a number value within a range. -/
def integer? (range : Text.NumeralRange) : Json → Option Int
  | .number literal => (integerLiteral? literal).filter range.contains
  | _ => none

def int64? (value : Json) : Option Int64 :=
  (value.integer? .int64).map Int64.ofInt

def uint64? (value : Json) : Option UInt64 :=
  (value.integer? .uint64).map fun n => UInt64.ofNat n.toNat

def uint32? (value : Json) : Option UInt32 :=
  (value.integer? .uint32).map fun n => UInt32.ofNat n.toNat

def bool? : Json → Option Bool
  | .bool b => some b
  | _ => none

-- ================================================== writing

mutual

/-- The compact spelling of a value. -/
def render : Json → List Char
  | .null => "null".toList
  | .bool true => "true".toList
  | .bool false => "false".toList
  | .number literal => literal
  | .string spelling => '"' :: spelling ++ ['"']
  | .array items => '[' :: renderItems items ++ [']']
  | .object members => '\x7b' :: renderMembers members ++ ['\x7d']

/-- The items of an array, separated by commas. -/
def renderItems : List Json → List Char
  | [] => []
  | [item] => item.render
  | item :: rest => item.render ++ ',' :: renderItems rest

/-- The members of an object, separated by commas. -/
def renderMembers : List (List Char × Json) → List Char
  | [] => []
  | [(name, value)] => '"' :: name ++ '"' :: ':' :: value.render
  | (name, value) :: rest =>
    '"' :: name ++ '"' :: ':' :: value.render ++ ',' :: renderMembers rest

end

/-- A record: members named by plain words. -/
def ofMembers (members : List (String × Json)) : Json :=
  .object (members.map fun (name, value) => (escape name.toList, value))

end Json

end MergeOnWrite
