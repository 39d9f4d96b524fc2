/-
What can go wrong on the side of the workers: in calculations of delete
bitmaps, in their executor, and at the close barrier.
-/
import MergeOnWrite.Failure

namespace MergeOnWrite

/-- A segment of a rowset of a tablet. -/
structure SegmentRef where
  tablet : TabletId
  rowset : RowsetId
  segment : SegmentId
deriving DecidableEq, Repr

def SegmentRef.message (ref : SegmentRef) : String :=
  "tablet " ++ toString ref.tablet.val.toInt ++ " rowset " ++ ref.rowset.text
    ++ " segment " ++ toString ref.segment.val.toNat

/-- Why a calculation, or the executor, failed. -/
inductive CalcError where
  | rowsetNotFound (tablet : TabletId) (rowset : RowsetId)
  | segmentNotFound (segment : SegmentRef)
  /-- The keys of a segment cannot be read. -/
  | corrupt (segment : SegmentRef) (message : String)
  | cancelled
  | shutDown
  /-- Some senders were still open when a wait ran out. -/
  | closeTimeout (pending : Nat) (waitedMs : Nat)
  | unknownSender (sender : Int64)
  | config (message : String)
  | runtime (message : String)
deriving DecidableEq, Repr

namespace CalcError

def message : CalcError → String
  | .rowsetNotFound tablet rowset =>
    "rowset not found: tablet " ++ toString tablet.val.toInt ++ " rowset "
      ++ rowset.text
  | .segmentNotFound segment => "segment not found: " ++ segment.message
  | .corrupt segment m => "corrupt key index: " ++ segment.message ++ ": " ++ m
  | .cancelled => "delete bitmap calculation cancelled"
  | .shutDown => "delete bitmap calculation executor is shut down"
  | .closeTimeout pending waitedMs =>
    "timed out after " ++ toString waitedMs ++ "ms waiting for "
      ++ toString pending ++ " senders to close"
  | .unknownSender sender => "unknown sender " ++ toString sender.toInt
  | .config m => "invalid configuration: " ++ m
  | .runtime m => "runtime error: " ++ m

/-- The error that reports a failure from below. -/
def ofFailure (failure : Failure) : CalcError := .config failure.message

/-- True for the errors of tasks that were given up before they
calculated. -/
def isAbandonment : CalcError → Bool
  | .cancelled | .shutDown => true
  | _ => false

end CalcError

end MergeOnWrite
