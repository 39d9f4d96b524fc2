/-
What a delete bitmap shows of a segment at a version.

A bitmap is made by additions, by merges and by gathering entries. Each of
these puts rows under keys and takes none away, so the marks of a bitmap are
the rows that were put under its keys, by whichever part of its making; the
induction is on how it was made (`Assembly.hasMark_bitmap`). A lookup at a
version reads the stretch of a segment and leaves out what is later. That the
stretch is all there is of the segment, and nothing else, is what
`mem_segmentEntries` says, so that a row and the aggregate are told by the
same marks.

# Main statements

- `mem_aggregate`: the rows of an aggregate.
- `Assembly.hasMark_bitmap`: the marks of a bitmap are the rows put there.
- `Assembly.ShowsVersions`, `Assembly.showsVersions`: what is shown of a
  segment at a version was put under its keys until then.
-/
import MergeOnWrite.Proofs.DeleteBitmap.Lookup

namespace MergeOnWrite

namespace Version

theorem le_trans {a b c : Version} (hab : a ≤ b) (hbc : b ≤ c) : a ≤ c :=
  Int64.le_trans hab hbc

end Version

namespace DeleteBitmap

variable {b : DeleteBitmap} {rowset : RowsetId} {segment : SegmentId}
  {version later : Version} {row : Nat}

-- ================================================== aggregates

/-- An aggregate has the rows of the entries up to its version. -/
theorem mem_aggregate :
    row ∈ b.aggregate rowset segment version
      ↔ b.Deletes rowset segment row version := by
  rw [aggregate, iff_of_foldl (fun acc : RowSet => row ∈ acc)
    (fun e => e.1.version ≤ version ∧ row ∈ e.2) fun acc e _ => ?_]
  · constructor
    · rintro (h | ⟨⟨key, rows⟩, hentry, hversion, hrow⟩)
      · exact absurd h (RowSet.not_mem_empty row)
      · obtain ⟨hmem, rfl, rfl⟩ := mem_segmentEntries.1 hentry
        exact ⟨key.version, hversion, rows, SortedMap.mem_toList_iff.1 hmem,
          hrow⟩
    · rintro ⟨since, hversion, rows, hget, hrow⟩
      refine .inr ⟨(⟨rowset, segment, since⟩, rows), ?_, hversion, hrow⟩
      exact mem_segmentEntries.2 ⟨SortedMap.mem_toList_iff.2 hget, rfl, rfl⟩
  · by_cases h : e.1.version ≤ version
    · rw [if_pos h, RowSet.mem_union]
      simp [h]
    · rw [if_neg h]
      simp [h]

/-- What is deleted at a version is deleted later on. -/
theorem Deletes.mono (h : b.Deletes rowset segment row version)
    (hle : version ≤ later) : b.Deletes rowset segment row later := by
  obtain ⟨since, hsince, hmark⟩ := h
  exact ⟨since, Version.le_trans hsince hle, hmark⟩

end DeleteBitmap

-- ================================================== how bitmaps are made

/-- How a bitmap was made. -/
inductive Assembly where
  | empty
  | gathered (entries : List (BitmapKey × RowSet))
  | add (made : Assembly) (key : BitmapKey) (row : UInt32)
  | mergeEntry (made : Assembly) (key : BitmapKey) (rows : RowSet)
  /-- Another bitmap is merged in, however that was made. -/
  | merge (made other : Assembly)

namespace Assembly

def bitmap : Assembly → DeleteBitmap
  | .empty => ∅
  | .gathered entries => .ofList entries
  | .add made key row => made.bitmap.add key row
  | .mergeEntry made key rows => made.bitmap.mergeEntry key rows
  | .merge made other => made.bitmap.merge other.bitmap

/-- True of the rows that were put under a key, one by one or as a set, there
and then or into a bitmap that was merged in. -/
def Puts : Assembly → BitmapKey → Nat → Prop
  | .empty, _, _ => False
  | .gathered entries, key, row => ∃ e ∈ entries, e.1 = key ∧ row ∈ e.2
  | .add made key' row', key, row =>
    made.Puts key row ∨ key = key' ∧ row = row'.toNat
  | .mergeEntry made key' rows, key, row =>
    made.Puts key row ∨ key = key' ∧ row ∈ rows
  | .merge made other, key, row => made.Puts key row ∨ other.Puts key row

/-- True of the rows that were put under a key of a segment, at a version or
an earlier one. -/
def PutBy (made : Assembly) (rowset : RowsetId) (segment : SegmentId)
    (row : Nat) (version : Version) : Prop :=
  ∃ since : Version, since ≤ version ∧ made.Puts ⟨rowset, segment, since⟩ row

variable {made : Assembly} {key : BitmapKey} {row : Nat}

/-- The marks of a bitmap are the rows that were put there. -/
theorem hasMark_bitmap :
    made.bitmap.HasMark key row ↔ made.Puts key row := by
  induction made with
  | empty => exact iff_of_false DeleteBitmap.not_hasMark_empty id
  | gathered entries => exact DeleteBitmap.hasMark_ofList
  | add made key' row' ih =>
      exact DeleteBitmap.hasMark_add.trans (or_congr ih Iff.rfl)
  | mergeEntry made key' rows ih =>
      exact DeleteBitmap.hasMark_mergeEntry.trans (or_congr ih Iff.rfl)
  | merge made other ih ihother =>
      exact DeleteBitmap.hasMark_merge.trans (or_congr ih ihother)

theorem deletes_bitmap {rowset : RowsetId} {segment : SegmentId}
    {version : Version} :
    made.bitmap.Deletes rowset segment row version
      ↔ made.PutBy rowset segment row version :=
  exists_congr fun _ => and_congr_right fun _ => hasMark_bitmap

/-- What a bitmap shows of the segments of a tablet at the versions. -/
structure ShowsVersions (made : Assembly) : Prop where
  /-- A row is deleted at a version if it was put under a key of its segment,
  and of that version or an earlier one. -/
  contained : ∀ rowset segment (row : UInt32) version,
    made.bitmap.containsAt rowset segment row version = true
      ↔ made.PutBy rowset segment row.toNat version
  /-- The aggregate has exactly these rows. -/
  aggregated : ∀ rowset segment row version,
    row ∈ made.bitmap.aggregate rowset segment version
      ↔ made.PutBy rowset segment row version
  agree : ∀ rowset segment (row : UInt32) version,
    made.bitmap.containsAt rowset segment row version
      = decide (row.toNat ∈ made.bitmap.aggregate rowset segment version)
  grows : ∀ rowset segment {version later : Version}, version ≤ later →
    (∀ row, made.bitmap.containsAt rowset segment row version = true →
      made.bitmap.containsAt rowset segment row later = true)
      ∧ ∀ row ∈ made.bitmap.aggregate rowset segment version,
        row ∈ made.bitmap.aggregate rowset segment later
  /-- Bitmaps that differ in what was put under keys of other segments show
  the same. -/
  apart : ∀ rowset segment (other : Assembly),
    (∀ since row, made.Puts ⟨rowset, segment, since⟩ row
      ↔ other.Puts ⟨rowset, segment, since⟩ row) →
    ∀ version, made.bitmap.aggregate rowset segment version
        = other.bitmap.aggregate rowset segment version
      ∧ ∀ row, made.bitmap.containsAt rowset segment row version
        = other.bitmap.containsAt rowset segment row version

theorem containsAt_bitmap {rowset : RowsetId} {segment : SegmentId}
    {row : UInt32} {version : Version} :
    made.bitmap.containsAt rowset segment row version = true
      ↔ made.PutBy rowset segment row.toNat version :=
  DeleteBitmap.containsAt_iff.trans deletes_bitmap

theorem mem_aggregate_bitmap {rowset : RowsetId} {segment : SegmentId}
    {version : Version} :
    row ∈ made.bitmap.aggregate rowset segment version
      ↔ made.PutBy rowset segment row version :=
  DeleteBitmap.mem_aggregate.trans deletes_bitmap

/-- Visibility follows the versions, however a bitmap was made. -/
theorem showsVersions (made : Assembly) : made.ShowsVersions where
  contained rowset segment row version := containsAt_bitmap
  aggregated rowset segment row version := mem_aggregate_bitmap
  agree rowset segment row version := by
    rw [Bool.eq_iff_iff, decide_eq_true_iff, containsAt_bitmap,
      mem_aggregate_bitmap]
  grows rowset segment version later hle := by
    constructor
    · intro row h
      rw [DeleteBitmap.containsAt_iff] at h ⊢
      exact h.mono hle
    · intro row h
      rw [DeleteBitmap.mem_aggregate] at h ⊢
      exact h.mono hle
  apart rowset segment other h version := by
    have hput : ∀ row, made.PutBy rowset segment row version
        ↔ other.PutBy rowset segment row version := fun row =>
      exists_congr fun since => and_congr_right fun _ => h since row
    constructor
    · refine RowSet.ext_mem fun row => ?_
      rw [mem_aggregate_bitmap, mem_aggregate_bitmap, hput]
    · intro row
      rw [Bool.eq_iff_iff, containsAt_bitmap, containsAt_bitmap, hput]

end Assembly

end MergeOnWrite
