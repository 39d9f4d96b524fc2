/-
Statistics read back from the bytes that the store keeps, and change by
what they should, as long as the counts stay within their range.

# Main statements

- `decode?_encode`: statistics read back from their bytes.
- `toNat_shift`: a count within its range is not cut off.
-/
import MergeOnWrite.Proofs.Json.Record
import MergeOnWrite.Service.TabletStats

namespace MergeOnWrite.TabletStats

theorem ofJson?_toJson (stats : TabletStats) :
    ofJson? stats.toJson = some stats := by
  have hfields : stats.toJson.fields? ["tablet_id", "delete_bitmap_entries",
      "deleted_rows"] = some [.ofInt stats.tablet.toInt,
        .ofInt stats.entries.toNat, .ofInt stats.rows.toNat] :=
    Json.fields?_ofMembers (show ["tablet_id", "delete_bitmap_entries",
      "deleted_rows"].Nodup by decide)
  rw [ofJson?, hfields]
  simp only [Option.bind_eq_bind, Option.bind_some, Json.int64?_ofInt,
    Json.uint64?_ofInt, Option.pure_def]

/-- Statistics read back from their bytes. -/
theorem decode?_encode (stats : TabletStats) :
    decode? stats.encode = some stats := by
  have hbytes : Json.ofBytes? stats.encode = some stats.toJson := by
    refine Json.ofBytes?_ofMembers fun member hmember => ?_
    rcases List.mem_cons.1 hmember with rfl | hmember
    · exact Json.isWellSpelt_ofInt _
    · rcases List.mem_cons.1 hmember with rfl | hmember
      · exact Json.isWellSpelt_ofInt _
      · rw [List.mem_singleton.1 hmember]
        exact Json.isWellSpelt_ofInt _
  rw [decode?, hbytes]
  exact ofJson?_toJson stats

/-- A count within its range is not cut off. -/
theorem toNat_shift {count : UInt64} {change : Int} {n : Nat}
    (h : (count.toNat : Int) + change = n) (hn : n < UInt64.size) :
    (shift count change).toNat = n := by
  rw [shift, h, Int.toNat_natCast, UInt64.toNat_ofNat_of_lt']
  · omega
  · omega

end MergeOnWrite.TabletStats
