/-
Sessions on named delete bitmaps.
-/
import MergeOnWrite.DeleteBitmap
import MergeOnWrite.Failure

namespace MergeOnWrite

/-- What is done to one bitmap. -/
inductive BitmapAction where
  | add (key : BitmapKey) (row : UInt32)
  | mergeEntry (key : BitmapKey) (rows : RowSet)
  /-- Merges the bitmap of another name. -/
  | merge (other : String)
  | equals (other : String)
  | replace (entries : DeleteBitmap)
  | get (key : BitmapKey)
  | containsAt (rowset : RowsetId) (segment : SegmentId) (row : UInt32)
      (version : Version)
  | aggregate (rowset : RowsetId) (segment : SegmentId) (version : Version)
  | entries
  | drain
  | size
  /-- A request that could not be made. -/
  | refused (failure : Failure)

/-- The answer to a step. -/
inductive BitmapAnswer where
  | yesNo (yes : Bool)
  | bitmap (bitmap : DeleteBitmap)
  | rows (rows : Option RowSet)
  | size (bitmap : DeleteBitmap)
  | refused (failure : Failure)

/-- The bitmaps of a session; a name that is not bound stands for an empty
one. -/
abbrev BitmapSession := SortedMap String DeleteBitmap

namespace BitmapSession

def find (s : BitmapSession) (name : String) : DeleteBitmap :=
  (s.get? name).getD ∅

def step (s : BitmapSession) (name : String) :
    BitmapAction → BitmapSession × BitmapAnswer
  | .add key row =>
    let b := find s name
    (s.insert name (b.add key row), .yesNo (!b.marks key row))
  | .mergeEntry key rows =>
    let b := (find s name).mergeEntry key rows
    (s.insert name b, .bitmap b)
  | .merge other =>
    let b := (find s name).merge (find s other)
    (s.insert name b, .bitmap b)
  | .equals other => (s, .yesNo (find s name = find s other))
  | .replace b => (s.insert name b, .bitmap b)
  | .get key => (s, .rows ((find s name).get? key))
  | .containsAt rowset segment row version =>
    (s, .yesNo ((find s name).containsAt rowset segment row version))
  | .aggregate rowset segment version =>
    (s, .rows (some ((find s name).aggregate rowset segment version)))
  | .entries => (s, .bitmap (find s name))
  | .drain => (s.erase name, .bitmap (find s name))
  | .size => (s, .size (find s name))
  | .refused failure => (s, .refused failure)

def answers (s : BitmapSession) :
    List (String × BitmapAction) → List BitmapAnswer
  | [] => []
  | (name, action) :: rest =>
    let (s, answer) := step s name action
    answer :: answers s rest

end BitmapSession

end MergeOnWrite
