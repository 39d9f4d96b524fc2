/-
Merges of delete bitmaps.

A merged bitmap is told key by key: where both bitmaps have an entry it
has the union of their rows, and elsewhere the entry that is there. So
what some bitmaps are merged into in the end depends neither on their
order nor on how often one of them is merged.

# Main statements

- `get?_merge`: the entry of a key in a merged bitmap.
- `merge_comm`, `merge_assoc`, `merge_self`: merging is a union.
- `mergeAll_perm`: the order of the merged bitmaps is immaterial.
- `isPartOf_mergeAll`: whatever was merged in is there.
-/
import MergeOnWrite.DeleteBitmap
import MergeOnWrite.Proofs.RowSet.Basic
import MergeOnWrite.Proofs.SortedMap

namespace MergeOnWrite

namespace DeleteBitmap

/-- A bitmap is determined by its entries. -/
theorem ext_get? {a b : DeleteBitmap} (h : ∀ key, a.get? key = b.get? key) :
    a = b := by
  obtain ⟨entries⟩ := a
  obtain ⟨entries'⟩ := b
  obtain rfl : entries = entries' := SortedMap.ext_get? h
  rfl

theorem get?_merge (a b : DeleteBitmap) (key : BitmapKey) :
    (a.merge b).get? key
      = Option.merge RowSet.union (a.get? key) (b.get? key) :=
  SortedMap.get?_mergeWith RowSet.union a.entries b.entries key

-- ================================================== merging is a union

theorem merge_comm (a b : DeleteBitmap) : a.merge b = b.merge a :=
  ext_get? fun key => by
    rw [get?_merge, get?_merge, (Option.commutative_merge _).comm]

theorem merge_assoc (a b c : DeleteBitmap) :
    (a.merge b).merge c = a.merge (b.merge c) :=
  ext_get? fun key => by
    simp only [get?_merge, (Option.associative_merge _).assoc]

theorem merge_self (a : DeleteBitmap) : a.merge a = a :=
  ext_get? fun key => by
    rw [get?_merge, (Option.idempotentOp_merge _).idempotent]

theorem merge_right_comm (a b c : DeleteBitmap) :
    (a.merge b).merge c = (a.merge c).merge b := by
  rw [merge_assoc, merge_comm b c, ← merge_assoc]

-- ================================================== several merges

/-- Merges some bitmaps in, one after another. -/
def mergeAll (b : DeleteBitmap) (bitmaps : List DeleteBitmap) : DeleteBitmap :=
  bitmaps.foldl merge b

/-- The order in which bitmaps are merged in is immaterial. -/
theorem mergeAll_perm {l r : List DeleteBitmap} (h : l.Perm r)
    (b : DeleteBitmap) : b.mergeAll l = b.mergeAll r :=
  h.foldl_eq' (fun x _ y _ z => merge_right_comm z x y) b

theorem mergeAll_merge (b : DeleteBitmap) :
    ∀ (l : List DeleteBitmap) (marks : DeleteBitmap),
      (b.merge marks).mergeAll l = (b.mergeAll l).merge marks := by
  intro l
  induction l generalizing b with
  | nil => intro marks; rfl
  | cons a rest ih =>
      intro marks
      calc ((b.merge marks).merge a).mergeAll rest
          = ((b.merge a).merge marks).mergeAll rest := by
            rw [merge_right_comm]
        _ = ((b.merge a).mergeAll rest).merge marks := ih _ marks

-- ================================================== parts

/-- True when a bitmap has an entry wherever another one has, with all of
its rows. -/
def IsPartOf (a b : DeleteBitmap) : Prop :=
  ∀ key rows, a.get? key = some rows →
    ∃ more, b.get? key = some more ∧ ∀ row ∈ rows, row ∈ more

theorem isPartOf_merge_right (a b : DeleteBitmap) : b.IsPartOf (a.merge b) := by
  intro key rows h
  rw [get?_merge, h]
  cases a.get? key with
  | none => exact ⟨rows, rfl, fun row hrow => hrow⟩
  | some held =>
      exact ⟨held.union rows, rfl, fun row hrow =>
        RowSet.mem_union.2 (.inr hrow)⟩

/-- Whatever was merged in is there. -/
theorem isPartOf_mergeAll {l : List DeleteBitmap} {marks : DeleteBitmap}
    (h : marks ∈ l) (b : DeleteBitmap) : marks.IsPartOf (b.mergeAll l) := by
  obtain ⟨before, after, rfl⟩ := List.append_of_mem h
  rw [mergeAll_perm List.perm_middle]
  show marks.IsPartOf ((b.merge marks).mergeAll (before ++ after))
  rw [mergeAll_merge]
  exact isPartOf_merge_right _ marks

end DeleteBitmap

end MergeOnWrite
