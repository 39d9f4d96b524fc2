/-
Calculations of superseded rows from the primary keys.

Marks are made at the pending version: which version the load gets is
not known yet.
-/
import MergeOnWrite.Calc.KeyIndex
import MergeOnWrite.Calc.Task

namespace MergeOnWrite

/-- The version of marks whose load has no version yet. -/
def pendingVersion : Version := ⟨0⟩

-- ================================================== other rowsets

/-- What a comparison with other rowsets has found so far: the marks, and
the rows of the new segment that supersede others. -/
structure CrossFindings where
  marks : DeleteBitmap := ∅
  replacing : RowSet := ∅

namespace CrossTask

/-- The last row of a segment with each of its keys. -/
def lastRows (ref : SegmentRef) (rows : List (Bytes × Nat)) :
    Except CalcError (SortedMap Bytes UInt32) :=
  rows.foldlM (fun last entry => do
    return last.insert entry.1 (← ref.rowAt entry.2)) ∅

/-- True when a row was deleted before the load. -/
def isDeleted (task : CrossTask) (rowset : RowsetId) (segment : SegmentId)
    (row : UInt32) : Bool :=
  task.tabletBitmap.any fun b =>
    b.containsAt rowset segment row task.endVersion

def compareRow (task : CrossTask) (newRows : SortedMap Bytes UInt32)
    (target : RowsetId) (segment : SegmentId) (found : CrossFindings)
    (entry : Bytes × Nat) : Except CalcError CrossFindings :=
  match newRows.get? entry.1 with
  | none => return found
  | some newRow => do
    let row ← SegmentRef.rowAt ⟨task.tablet, target, segment⟩ entry.2
    if task.isDeleted target segment row then return found
    else
      return {
        marks := found.marks.add ⟨target, segment, pendingVersion⟩ row
        replacing := found.replacing.insert newRow }

/-- Looks at one segment of another rowset. -/
def compareSegment (index : KeyIndex) (task : CrossTask)
    (newRows : SortedMap Bytes UInt32) (target : RowsetId)
    (found : CrossFindings) (segment : SegmentId) :
    Except CalcError CrossFindings := do
  let rows ← index.rows ⟨task.tablet, target, segment⟩
  rows.foldlM (task.compareRow newRows target segment) found

def compareTarget (index : KeyIndex) (task : CrossTask)
    (newRows : SortedMap Bytes UInt32) (found : CrossFindings)
    (target : RowsetId) : Except CalcError CrossFindings := do
  let segments ← index.segments task.tablet target
  segments.foldlM (task.compareSegment index newRows target) found

/-- Compares the new segment with the other rowsets. -/
def findings (index : KeyIndex) (task : CrossTask) :
    Except CalcError CrossFindings := do
  let ref : SegmentRef := ⟨task.tablet, task.rowset, task.segment⟩
  let newRows ← lastRows ref (← index.rows ref)
  task.targets.foldlM (task.compareTarget index newRows) {}

end CrossTask

/-- A call of a writer: the segment and its rows. -/
abbrev Rewrite := SegmentId × RowSet

def RowsetWriter.rewrite (writer : RowsetWriter) (segment : SegmentId) :
    Except CalcError Unit :=
  match writer with
  | .accepting => .ok ()
  | .refusing => .error (.corrupt ⟨⟨0⟩, ⟨"writer"⟩, segment⟩ "rewrite failed")

/-- What a calculation comes to. -/
structure CalcRun where
  result : Except CalcError DeleteBitmap
  rewrites : List Rewrite := []

namespace CrossTask

/-- The rows of the other rowsets that the new segment supersedes. The
writer is called if there are any, after all have been found. -/
def run (index : KeyIndex) (task : CrossTask) : CalcRun :=
  match task.findings index with
  | .error e => { result := .error e }
  | .ok found =>
    match task.writer with
    | none => { result := .ok found.marks }
    | some writer =>
      if found.replacing.isEmpty then { result := .ok found.marks }
      else
        { result := (writer.rewrite task.segment).map fun _ => found.marks
          rewrites := [(task.segment, found.replacing)] }

end CrossTask

-- ================================================== the new rowset

/-- What going back through the segments of a rowset has found so far: the
keys of later rows, and the marks. -/
structure IntraFindings where
  later : SortedSet Bytes := ∅
  marks : DeleteBitmap := ∅

namespace IntraTask

def compareRow (task : IntraTask) (segment : SegmentId)
    (found : IntraFindings) (entry : Bytes × Nat) :
    Except CalcError IntraFindings :=
  if (found.later.get? entry.1).isSome then do
    let row ← SegmentRef.rowAt ⟨task.tablet, task.rowset, segment⟩ entry.2
    let key : BitmapKey := ⟨task.rowset, segment, pendingVersion⟩
    return { found with marks := found.marks.add key row }
  else return { found with later := found.later.insert entry.1 () }

/-- Looks at the rows of one segment, the last one first. -/
def compareSegment (index : KeyIndex) (task : IntraTask)
    (found : IntraFindings) (segment : SegmentId) :
    Except CalcError IntraFindings := do
  let rows ← index.rows ⟨task.tablet, task.rowset, segment⟩
  rows.reverse.foldlM (task.compareRow segment) found

/-- The rows of the segments that later rows supersede. -/
def run (index : KeyIndex) (task : IntraTask) : CalcRun :=
  let found := task.segments.reverse.foldlM (task.compareSegment index) {}
  { result := found.map IntraFindings.marks }

end IntraTask

def CalcTask.run (index : KeyIndex) : CalcTask → CalcRun
  | .cross task => task.run index
  | .intra task => task.run index

end MergeOnWrite
