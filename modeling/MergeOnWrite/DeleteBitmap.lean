/-
Delete bitmaps: which rows of which segments are deleted, and since
which version.

A bitmap holds a set of rows for each key of rowset, segment and
version. Keys are in that order, so the versions of one segment stand
next to each other and a segment is read as one stretch of the listing.
-/
import MergeOnWrite.Id
import MergeOnWrite.RowSet.Basic
import MergeOnWrite.SortedMap

namespace MergeOnWrite

-- ================================================== keys

/-- What one entry of a bitmap is about. -/
structure BitmapKey where
  rowset : RowsetId
  segment : SegmentId
  version : Version
deriving DecidableEq, Repr, Inhabited

namespace BitmapKey

/-- By the bytes of the rowset's name, then by segment, then by
version. -/
def order : BitmapKey → BitmapKey → Ordering :=
  compareLex (compareOn (·.rowset.bytes))
    (compareLex (compareOn (·.segment.val)) (compareOn (·.version.val)))

instance : Ord BitmapKey := ⟨order⟩

instance : Std.TransCmp order :=
  inferInstanceAs (Std.TransCmp (compareLex _ (compareLex _ _)))

instance : Std.TransOrd BitmapKey := inferInstanceAs (Std.TransCmp order)

instance : Std.LawfulEqOrd BitmapKey where
  compare_self {a} := @Std.ReflCmp.compare_self _ order _ a
  eq_of_compare {a b} h := by
    have h : (compareLex (compareOn (·.rowset.bytes))
        (compareLex (compareOn (·.segment.val))
          (compareOn (·.version.val)))) a b = .eq := h
    rw [compareLex_eq_eq, compareLex_eq_eq] at h
    obtain ⟨h1, h2, h3⟩ := h
    have h1 := Bytes.ofText_inj (Std.LawfulEqOrd.eq_of_compare h1)
    have h2 := Std.LawfulEqOrd.eq_of_compare h2
    have h3 := Std.LawfulEqOrd.eq_of_compare h3
    obtain ⟨⟨_⟩, ⟨_⟩, ⟨_⟩⟩ := a
    obtain ⟨⟨_⟩, ⟨_⟩, ⟨_⟩⟩ := b
    simp_all

end BitmapKey

-- ================================================== bitmaps

/-- A delete bitmap of a tablet, or a part of one. -/
structure DeleteBitmap where
  entries : SortedMap BitmapKey RowSet := ∅
deriving DecidableEq, Inhabited

namespace DeleteBitmap

instance : EmptyCollection DeleteBitmap := ⟨{}⟩

def get? (b : DeleteBitmap) (key : BitmapKey) : Option RowSet :=
  b.entries.get? key

/-- Adds rows to the entry of a key; the key has an entry afterwards even
if there are no rows. -/
def mergeEntry (b : DeleteBitmap) (key : BitmapKey) (rows : RowSet) :
    DeleteBitmap :=
  ⟨b.entries.insertWith RowSet.union key rows⟩

def add (b : DeleteBitmap) (key : BitmapKey) (row : UInt32) : DeleteBitmap :=
  b.mergeEntry key ((∅ : RowSet).insert row)

/-- True when the entry of a key has a row. -/
def marks (b : DeleteBitmap) (key : BitmapKey) (row : UInt32) : Bool :=
  (b.get? key).any fun rows => row.toNat ∈ rows

/-- Adds every entry of another bitmap. -/
def merge (b other : DeleteBitmap) : DeleteBitmap :=
  ⟨b.entries.mergeWith RowSet.union other.entries⟩

/-- The bitmap of some entries; the rows of equal keys are united. -/
def ofList (entries : List (BitmapKey × RowSet)) : DeleteBitmap :=
  entries.foldl (fun b e => b.mergeEntry e.1 e.2) ∅

def toList (b : DeleteBitmap) : List (BitmapKey × RowSet) := b.entries.toList

/-- The entries of one segment: the listing from the segment's least key
on, as far as it is about the segment. -/
def segmentEntries (b : DeleteBitmap) (rowset : RowsetId)
    (segment : SegmentId) : List (BitmapKey × RowSet) :=
  let start : BitmapKey := ⟨rowset, segment, ⟨Int64.minValue⟩⟩
  (b.toList.dropWhile fun e => compare e.1 start = .lt).takeWhile fun e =>
    e.1.rowset = rowset ∧ e.1.segment = segment

/-- True when a row of a segment is deleted at a version. -/
def containsAt (b : DeleteBitmap) (rowset : RowsetId) (segment : SegmentId)
    (row : UInt32) (version : Version) : Bool :=
  (b.segmentEntries rowset segment).any fun e =>
    e.1.version ≤ version ∧ row.toNat ∈ e.2

def aggregate (b : DeleteBitmap) (rowset : RowsetId) (segment : SegmentId)
    (version : Version) : RowSet :=
  (b.segmentEntries rowset segment).foldl
    (fun acc e => if e.1.version ≤ version then acc.union e.2 else acc) ∅

def size (b : DeleteBitmap) : Nat := b.entries.size

/-- True when there are no entries. -/
def isEmpty (b : DeleteBitmap) : Bool := b.entries.isEmpty

/-- The number of marks: the rows of all entries. -/
def cardinality (b : DeleteBitmap) : Nat :=
  total (fun e => e.2.cardinality) b.toList

end DeleteBitmap

end MergeOnWrite
