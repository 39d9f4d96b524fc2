/-
The statistics that the store keeps about the delete bitmap of a tablet.
-/
import MergeOnWrite.Json.Record

namespace MergeOnWrite

/-- The size of the delete bitmap that is stored for a tablet. -/
structure TabletStats where
  tablet : Int64
  /-- The number of stored entries. -/
  entries : UInt64 := 0
  /-- The number of rows in them. -/
  rows : UInt64 := 0
deriving DecidableEq, Repr, Inhabited

namespace TabletStats

/-- A count after a change, within the range of counts. -/
def shift (count : UInt64) (change : Int) : UInt64 :=
  .ofNat (min (count.toNat + change).toNat (UInt64.size - 1))

/-- The statistics after a change of both counts. -/
def change (stats : TabletStats) (entries rows : Int) : TabletStats :=
  { stats with
    entries := shift stats.entries entries
    rows := shift stats.rows rows }

def toJson (stats : TabletStats) : Json :=
  .ofMembers
    [("tablet_id", .ofInt stats.tablet.toInt),
      ("delete_bitmap_entries", .ofInt stats.entries.toNat),
      ("deleted_rows", .ofInt stats.rows.toNat)]

def ofJson? (value : Json) : Option TabletStats := do
  match ← value.fields? ["tablet_id", "delete_bitmap_entries",
      "deleted_rows"] with
  | [tablet, entries, rows] =>
    return ⟨← tablet.int64?, ← entries.uint64?, ← rows.uint64?⟩
  | _ => none

def encode (stats : TabletStats) : Bytes := stats.toJson.toBytes

def decode? (bytes : Bytes) : Option TabletStats := do
  ofJson? (← Json.ofBytes? bytes)

end TabletStats

end MergeOnWrite
