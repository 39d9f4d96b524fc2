/-
The keys of the records in the store.

Each key starts with the name of its instance and gives its parts in
order, separated by slashes. Numbers are padded with zeros, so that the
entries of a tablet are listed by rowset, segment and version.

| Record | Key |
|---|---|
| update lock of a table | `I/delete_bitmap_lock/v1/table` |
| update lock of a tablet | `I/delete_bitmap_lock/v2/table/tablet` |
| delete bitmap entry | `I/delete_bitmap/tablet/rowset/segment/version` |
| statistics of a tablet | `I/tablet_stats/table/tablet` |
-/
import MergeOnWrite.Id
import MergeOnWrite.Text.Numeral

namespace MergeOnWrite.Key

/-- A signed number within a key: twenty characters, zeros between the
sign and the digits. -/
def number (n : Int64) : String := .ofList (Text.padded 20 n.toInt)

def tableLock (i : InstanceId) (table : TableId) : String :=
  i.text ++ "/delete_bitmap_lock/v1/" ++ number table.val

def tabletLock (i : InstanceId) (table : TableId) (tablet : TabletId) :
    String :=
  i.text ++ "/delete_bitmap_lock/v2/" ++ number table.val ++ "/"
    ++ number tablet.val

/-- What the keys of a tablet's entries start with. -/
def tabletStem (i : InstanceId) (tablet : TabletId) : String :=
  i.text ++ "/delete_bitmap/" ++ number tablet.val ++ "/"

/-- What the keys of a rowset's entries start with. -/
def rowsetStem (i : InstanceId) (tablet : TabletId) (rowset : RowsetId) :
    String :=
  tabletStem i tablet ++ rowset.text ++ "/"

def entry (i : InstanceId) (tablet : TabletId) (rowset : RowsetId)
    (segment : SegmentId) (version : Version) : String :=
  rowsetStem i tablet rowset
    ++ .ofList (Text.padded 10 (segment.val.toNat : Int)) ++ "/"
    ++ number version.val

def stats (i : InstanceId) (table : TableId) (tablet : TabletId) : String :=
  i.text ++ "/tablet_stats/" ++ number table.val ++ "/" ++ number tablet.val

/-- Reads the last three parts of a key as rowset, segment and version.
The parts in front of them are not looked at. -/
def parseEntry? (key : Bytes) : Option (RowsetId × SegmentId × Version) := do
  let text ← key.toText?
  match (Text.splitChars '/' text.toList).reverse with
  | version :: segment :: rowset :: _ => do
    let version ← (Text.readInt64 version).toOption
    let segment ← (Text.readUInt32 segment).toOption
    let rowset ← (RowsetId.ofText (.ofList rowset)).toOption
    return (rowset, ⟨segment⟩, ⟨version⟩)
  | _ => none

end MergeOnWrite.Key
