/-
Records and enumerations within JSON texts.

A record is an object with a member for each of its fields, or an array
of its fields in order. Members that name no field are passed over; a
field that is missing or given twice refuses the record. An enumeration
is the name of a case, as a string or as an object whose only member is
that name with the value `null`.

A record is a byte string. Bytes that are no UTF-8 refuse it, unless they
stand in a string within a member that is passed over.
-/
import MergeOnWrite.Bytes
import MergeOnWrite.Json.Reader
import MergeOnWrite.Text.Lossy

namespace MergeOnWrite.Json

/-- The members of an object by their names. -/
def members? : Json → Option (List (String × Json))
  | .object members => members.mapM fun (name, value) => do
      return (.ofList (← unescape name), value)
  | _ => none

/-- The value of a field that is given exactly once. -/
def fieldOf? (members : List (String × Json)) (name : String) :
    Option Json :=
  match members.filter (·.1 = name) with
  | [(_, value)] => some value
  | _ => none

/-- The values of the named fields of a record, in the order of the
names. -/
def fields? (names : List String) : Json → Option (List Json)
  | .array items => if items.length = names.length then some items else none
  | value => do names.mapM (fieldOf? (← value.members?))

/-- The name of a case of an enumeration. -/
def case? : Json → Option String
  | .object [(name, .null)] => (unescape name).map .ofList
  | value => value.text?

def items? : Json → Option (List Json)
  | .array items => some items
  | _ => none

/-- A spelling, or if it holds a mark one that denotes nothing. -/
def voidSpelling (mark : Char) (spelling : List Char) : List Char :=
  if spelling.contains mark then ['\\'] else spelling

mutual

/-- Has the strings and names that hold a mark denote nothing. -/
def void (mark : Char) : Json → Json
  | .string spelling => .string (voidSpelling mark spelling)
  | .array items => .array (voidItems mark items)
  | .object members => .object (voidMembers mark members)
  | value => value

/-- Has the strings among some items that hold a mark denote nothing. -/
def voidItems (mark : Char) : List Json → List Json
  | [] => []
  | item :: rest => item.void mark :: voidItems mark rest

/-- Has the strings and names among some members that hold a mark denote
nothing. -/
def voidMembers (mark : Char) :
    List (List Char × Json) → List (List Char × Json)
  | [] => []
  | (name, value) :: rest =>
    (voidSpelling mark name, value.void mark) :: voidMembers mark rest

end

/-- The value that a byte string spells. A string may hold bytes that are
no UTF-8, as long as nobody reads it. -/
def ofBytes? (bytes : Bytes) : Option Json :=
  match bytes.toText? with
  | some text => read text.toList
  | none =>
    let mark := Text.unusedChar (Text.marked '\uFFFD' bytes)
    (read (Text.marked mark bytes)).map (void mark)

/-- The compact spelling of a value in UTF-8. -/
def toBytes (value : Json) : Bytes := .ofText (.ofList value.render)

end MergeOnWrite.Json
