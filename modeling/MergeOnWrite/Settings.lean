/-
Settings: named texts that override the defaults of a configuration.

Blanks around a value do not count, and a blank value counts as unset.
A value that is set but cannot be read as what is asked for is a failure
that names the setting.
-/
import MergeOnWrite.Decimal.Literal
import MergeOnWrite.Failure

namespace MergeOnWrite

/-- Named texts; of two with one name the later one counts. -/
abbrev Settings := List (String × String)

namespace Settings

/-- The value of a setting without the blanks around it. -/
def string? (settings : Settings) (name : String) : Option String :=
  ((settings.reverse.lookup name).map Text.trim).filter (· ≠ "")

/-- The failure of a value that cannot be read. -/
def unreadable (name expected : String) : Failure :=
  .invalidInput (name ++ " must be " ++ expected)

def read? {α : Type} (settings : Settings) (name : String)
    (read : String → Except Failure α) : Except Failure (Option α) :=
  match settings.string? name with
  | none => .ok none
  | some text => (read text).map some

/-- Reads an unsigned 64-bit number; `word` names the type in failures. -/
def number? (word : String) (settings : Settings) (name : String) :
    Except Failure (Option UInt64) :=
  settings.read? name fun text =>
    (Text.readUInt64 text.toList).mapError fun e =>
      unreadable name ("a " ++ word ++ ": " ++ e.message)

/-- Reads an unsigned 64-bit number. -/
def uint64? : Settings → String → Except Failure (Option UInt64) :=
  number? "u64"

def size? : Settings → String → Except Failure (Option UInt64) :=
  number? "usize"

/-- Reads a floating-point number. -/
def float? (settings : Settings) (name : String) :
    Except Failure (Option Float) :=
  settings.read? name fun text =>
    match Decimal.read? text with
    | some x => .ok x
    | none => .error (unreadable name "a number: invalid float literal")

/-- Reads a truth value, in any case of its letters. -/
def bool? (settings : Settings) (name : String) :
    Except Failure (Option Bool) :=
  settings.read? name fun text =>
    let word := Text.lowerAscii text
    if word ∈ ["true", "1", "yes", "y"] then .ok true
    else if word ∈ ["false", "0", "no", "n"] then .ok false
    else .error (unreadable name "a boolean (true/false/1/0)")

end Settings

end MergeOnWrite
