/-
Identifiers of the tables under maintenance.

Instances and rowsets are named by text, everything else by number. A
name that is going to be part of a store key must not contain the
delimiter of keys, blanks or control characters, and its UTF-8 encoding
is bounded; `InstanceId.ofText` and `RowsetId.ofText` check this.
-/
import MergeOnWrite.Bytes
import MergeOnWrite.Text.Blank
import MergeOnWrite.Text.Quoted

namespace MergeOnWrite

-- ================================================== names

/-- What a name stands for. -/
inductive IdKind where
  | instanceName
  | rowsetName
deriving DecidableEq, Repr

namespace IdKind

def word : IdKind → String
  | .instanceName => "instance"
  | .rowsetName => "rowset"

/-- The greatest number of bytes of a name. -/
def maxBytes : IdKind → Nat
  | .instanceName => 128
  | .rowsetName => 64

end IdKind

/-- Why a text is no name. -/
inductive IdError where
  | empty (kind : IdKind)
  | tooLong (kind : IdKind) (text : String)
  | reserved (kind : IdKind) (text : String)
deriving DecidableEq, Repr

def IdError.message : IdError → String
  | .empty kind => kind.word ++ " id cannot be empty"
  | .tooLong kind text =>
    kind.word ++ " id exceeds " ++ toString kind.maxBytes ++ " characters: "
      ++ text
  | .reserved kind text =>
    kind.word ++ " id contains reserved characters: " ++ Text.quoted text

/-- True for the characters that no name contains: the delimiter of
keys, blanks and control characters. -/
def isReserved (c : Char) : Bool :=
  c == '/' || Text.isBlank c || Text.isControl c

/-- Checks that a text can be a name: the first rule it breaks decides
the error. -/
def IdKind.check (kind : IdKind) (text : String) : Except IdError Unit :=
  if text = "" then .error (.empty kind)
  else if kind.maxBytes < text.utf8ByteSize then .error (.tooLong kind text)
  else if text.toList.any isReserved then .error (.reserved kind text)
  else .ok ()

/-- The name of an instance. -/
structure InstanceId where
  text : String
deriving DecidableEq, Repr, Inhabited

/-- The name of a rowset. -/
structure RowsetId where
  text : String
deriving DecidableEq, Repr, Inhabited

def InstanceId.ofText (text : String) : Except IdError InstanceId := do
  IdKind.instanceName.check text
  return ⟨text⟩

def RowsetId.ofText (text : String) : Except IdError RowsetId := do
  IdKind.rowsetName.check text
  return ⟨text⟩

/-- True for the instances whose names pass the check. -/
def InstanceId.IsValid (id : InstanceId) : Prop :=
  IdKind.instanceName.check id.text = .ok ()

/-- True for the rowsets whose names pass the check. -/
def RowsetId.IsValid (id : RowsetId) : Prop :=
  IdKind.rowsetName.check id.text = .ok ()

instance (id : InstanceId) : Decidable id.IsValid := by
  unfold InstanceId.IsValid
  cases h : IdKind.instanceName.check id.text with
  | ok u => exact isTrue rfl
  | error e => exact isFalse (by simp)

instance (id : RowsetId) : Decidable id.IsValid := by
  unfold RowsetId.IsValid
  cases h : IdKind.rowsetName.check id.text with
  | ok u => exact isTrue rfl
  | error e => exact isFalse (by simp)

/-- The UTF-8 bytes of a rowset's name, by which rowsets are ordered. -/
def RowsetId.bytes (id : RowsetId) : Bytes := .ofText id.text

-- ================================================== numbers

/-- The number of a table. -/
structure TableId where
  val : Int64
deriving DecidableEq, Repr, Inhabited

/-- The number of a tablet, a shard of a table. -/
structure TabletId where
  val : Int64
deriving DecidableEq, Repr, Inhabited

/-- The number of a segment, a file of a rowset. -/
structure SegmentId where
  val : UInt32
deriving DecidableEq, Repr, Inhabited

/-- A version of a tablet's data. -/
structure Version where
  val : Int64
deriving DecidableEq, Repr, Inhabited

namespace Version

/-- Versions are ordered by number. -/
instance : LE Version := ⟨fun a b => a.val ≤ b.val⟩

instance (a b : Version) : Decidable (a ≤ b) :=
  inferInstanceAs (Decidable (a.val ≤ b.val))

end Version

end MergeOnWrite
