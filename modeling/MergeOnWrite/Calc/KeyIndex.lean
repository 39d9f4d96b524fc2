/-
Key indexes: the primary keys of segments, in row order.

An index is the list of what was entered, latest first; what was entered
for a segment last counts. A rowset exists once something was entered for
one of its segments.
-/
import MergeOnWrite.Calc.Error
import MergeOnWrite.SortedMap

namespace MergeOnWrite

/-- What an index has for a segment. -/
inductive SegmentKeys where
  | keys (keys : List Bytes)
  | corrupt (message : String)
deriving DecidableEq

/-- The number of the row at a place of a segment. Rows are numbered with
32 bits. -/
def SegmentRef.rowAt (ref : SegmentRef) (place : Nat) :
    Except CalcError UInt32 :=
  if place < UInt32.size then .ok place.toUInt32
  else .error (.corrupt ref
    ("row ordinal " ++ toString place ++ " exceeds u32"))

/-- An index of the keys of segments. -/
structure KeyIndex where
  /-- What was entered, latest first. -/
  entries : List (SegmentRef × SegmentKeys) := []
deriving Inhabited

namespace KeyIndex

/-- Enters the keys of a segment; they replace what was entered
before. -/
def insert (index : KeyIndex) (ref : SegmentRef) (keys : SegmentKeys) :
    KeyIndex :=
  ⟨(ref, keys) :: index.entries⟩

/-- Enters the keys of several segments, one after another. -/
def insertMany (index : KeyIndex)
    (entries : List (SegmentRef × SegmentKeys)) : KeyIndex :=
  entries.foldl (fun index entry => index.insert entry.1 entry.2) index

def find? (index : KeyIndex) (ref : SegmentRef) : Option SegmentKeys :=
  (index.entries.find? (·.1 = ref)).map Prod.snd

/-- The entered segments of a rowset, ascending. -/
def segmentsOf (index : KeyIndex) (tablet : TabletId) (rowset : RowsetId) :
    List SegmentId :=
  let numbers := index.entries.filterMap fun entry =>
    if entry.1.tablet = tablet ∧ entry.1.rowset = rowset then
      some entry.1.segment.val
    else none
  (SortedSet.ofList numbers).keys.map SegmentId.mk

def segments (index : KeyIndex) (tablet : TabletId) (rowset : RowsetId) :
    Except CalcError (List SegmentId) :=
  match index.segmentsOf tablet rowset with
  | [] => .error (.rowsetNotFound tablet rowset)
  | found => .ok found

def keys (index : KeyIndex) (ref : SegmentRef) :
    Except CalcError (List Bytes) :=
  match index.find? ref with
  | none => .error (.segmentNotFound ref)
  | some (.corrupt message) => .error (.corrupt ref message)
  | some (.keys keys) => .ok keys

/-- The keys of a segment, each with the place of its row. -/
def rows (index : KeyIndex) (ref : SegmentRef) :
    Except CalcError (List (Bytes × Nat)) := do
  return (← index.keys ref).zipIdx

end KeyIndex

end MergeOnWrite
