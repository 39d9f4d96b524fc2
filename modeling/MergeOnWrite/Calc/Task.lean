/-
Calculations that workers are asked for.

A load brings a new rowset. Its rows supersede the rows with the same
keys in the rowsets that are there already, which a task finds for one
segment of the new rowset, and the earlier rows with the same keys in the
new rowset itself, which a task finds for all of its segments.
-/
import MergeOnWrite.Calc.Error
import MergeOnWrite.DeleteBitmap

namespace MergeOnWrite

/-- What rewrites the superseding rows of a segment. -/
inductive RowsetWriter where
  | accepting
  /-- A writer that refuses whatever it is given. -/
  | refusing
deriving DecidableEq, Repr

/-- Asks which rows of other rowsets a new segment supersedes. -/
structure CrossTask where
  tablet : TabletId
  rowset : RowsetId
  segment : SegmentId
  /-- The rowsets that are there already. -/
  targets : List RowsetId
  /-- The version at which the tablet is looked at. -/
  endVersion : Version
  /-- What is told which rows of the new segment supersede others. -/
  writer : Option RowsetWriter := none
  /-- The rows that are deleted already. -/
  tabletBitmap : Option DeleteBitmap := none

/-- Asks which rows of some segments of one rowset later rows
supersede. -/
structure IntraTask where
  tablet : TabletId
  rowset : RowsetId
  /-- The segments in the order in which they were written. -/
  segments : List SegmentId

/-- A calculation. -/
inductive CalcTask where
  | cross (task : CrossTask)
  | intra (task : IntraTask)

namespace CalcTask

def kind : CalcTask → String
  | .cross _ => "cross_rowset"
  | .intra _ => "intra_rowset"

/-- The segment that a calculation is told apart by; a calculation
without segments goes by the first one. -/
def subject : CalcTask → SegmentRef
  | .cross task => ⟨task.tablet, task.rowset, task.segment⟩
  | .intra task => ⟨task.tablet, task.rowset, task.segments.head?.getD ⟨0⟩⟩

end CalcTask

end MergeOnWrite
