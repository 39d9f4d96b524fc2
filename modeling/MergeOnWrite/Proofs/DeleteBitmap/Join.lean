/-
Merging is the join of delete bitmaps.

A bitmap is determined by which keys have an entry and which rows are marked
under them. An entry without rows marks nothing, and yet tells two bitmaps
apart, so the two are told side by side. Both of them pass over to merged and
to gathered bitmaps as unions, and a union depends neither on the order of its
parts nor on how often one is there.

The marks of a bitmap are a finite set, which has as many members as the
bitmap counts. So the marks of merged bitmaps are counted as unions are: those
that both bitmaps have count once.

# Main statements

- `ext_marks`: a bitmap is determined by its entries and its marks.
- `hasEntry_ofList`: the entries of a gathered bitmap.
- `card_markSet`: a bitmap counts its marks.
- `IsJoin`, `merge_isJoin`: the laws of merging and of gathering.
-/
import MergeOnWrite.Proofs.DeleteBitmap.Visibility
import Mathlib.Data.Finset.Card

namespace MergeOnWrite

namespace DeleteBitmap

variable {a b : DeleteBitmap} {key key' : BitmapKey} {row : Nat}
  {rows : RowSet}

-- ================================================== entries

/-- True of the keys that have an entry, with rows or without. -/
def HasEntry (b : DeleteBitmap) (key : BitmapKey) : Prop :=
  (b.get? key).isSome

/-- A bitmap is determined by its entries and its marks. -/
theorem ext_marks (hentry : ∀ key, a.HasEntry key ↔ b.HasEntry key)
    (hmark : ∀ key row, a.HasMark key row ↔ b.HasMark key row) : a = b := by
  refine ext_get? fun key => ?_
  have hkey := hentry key
  unfold HasEntry at hkey
  cases ha : a.get? key with
  | none =>
      rw [ha, Option.isSome_none] at hkey
      exact (Option.not_isSome_iff_eq_none.1
        (mt hkey.2 Bool.false_ne_true)).symm
  | some rows =>
      obtain ⟨rows', hb⟩ := Option.isSome_iff_exists.1
        (hkey.1 (Option.isSome_iff_exists.2 ⟨rows, ha⟩))
      rw [hb]
      refine congrArg some (RowSet.ext_mem fun row => ?_)
      have hrow := hmark key row
      unfold HasMark at hrow
      simpa [ha, hb] using hrow

theorem not_hasEntry_empty : ¬ (∅ : DeleteBitmap).HasEntry key :=
  Bool.false_ne_true

theorem hasEntry_mergeEntry :
    (b.mergeEntry key' rows).HasEntry key ↔ b.HasEntry key ∨ key = key' := by
  unfold HasEntry
  by_cases h : key = key'
  · subst h
    have hentry : (b.mergeEntry key rows).get? key
        = Option.merge RowSet.union (b.get? key) (some rows) :=
      SortedMap.get?_insertWith_self ..
    rw [hentry]
    cases b.get? key <;> simp
  · have hentry : (b.mergeEntry key' rows).get? key = b.get? key :=
      SortedMap.get?_insertWith_of_ne _ _ _ h
    rw [hentry]
    simp [h]

/-- A bitmap that is gathered from entries has an entry for each of their
keys. -/
theorem hasEntry_ofList {entries : List (BitmapKey × RowSet)} :
    (ofList entries).HasEntry key ↔ ∃ e ∈ entries, e.1 = key := by
  rw [ofList, iff_of_foldl (fun b : DeleteBitmap => b.HasEntry key)
    (fun e => e.1 = key)]
  · simp only [not_hasEntry_empty, false_or]
  · intro b e _
    rw [hasEntry_mergeEntry, eq_comm (a := key)]

-- ================================================== gathering

/-- What is gathered from entries depends neither on their order nor on how
often one of them is there. -/
theorem ofList_congr {l r : List (BitmapKey × RowSet)}
    (h : ∀ e, e ∈ l ↔ e ∈ r) : ofList l = ofList r := by
  refine ext_marks (fun key => ?_) fun key row => ?_
  · rw [hasEntry_ofList, hasEntry_ofList]
    simp only [h]
  · rw [hasMark_ofList, hasMark_ofList]
    simp only [h]

/-- A bitmap is gathered from its own entries. -/
theorem ofList_toList (b : DeleteBitmap) : ofList b.toList = b := by
  refine ext_marks (fun key => ?_) fun key row => ?_
  · rw [hasEntry_ofList, HasEntry, Option.isSome_iff_exists]
    constructor
    · rintro ⟨⟨_, rows⟩, hentry, rfl⟩
      exact ⟨rows, SortedMap.mem_toList_iff.1 hentry⟩
    · rintro ⟨rows, hget⟩
      exact ⟨(key, rows), SortedMap.mem_toList_iff.2 hget, rfl⟩
  · rw [hasMark_ofList]
    constructor
    · rintro ⟨⟨_, rows⟩, hentry, rfl, hrow⟩
      exact ⟨rows, SortedMap.mem_toList_iff.1 hentry, hrow⟩
    · rintro ⟨rows, hget, hrow⟩
      exact ⟨(key, rows), SortedMap.mem_toList_iff.2 hget, rfl, hrow⟩

-- ================================================== marks, counted

/-- The marks of a bitmap, one by one: each row with the key of its entry. -/
def markList (b : DeleteBitmap) : List (BitmapKey × Nat) :=
  b.toList.flatMap fun e => (runRows e.2.runs).map (e.1, ·)

/-- The marks of a bitmap. -/
def markSet (b : DeleteBitmap) : Finset (BitmapKey × Nat) :=
  b.markList.toFinset

theorem mem_markSet : (key, row) ∈ b.markSet ↔ b.HasMark key row := by
  rw [markSet, List.mem_toFinset, markList, List.mem_flatMap]
  constructor
  · rintro ⟨⟨_, rows⟩, hentry, hmark⟩
    obtain ⟨_, hrow, heq⟩ := List.mem_map.1 hmark
    obtain ⟨rfl, rfl⟩ := Prod.mk.inj heq
    exact ⟨rows, SortedMap.mem_toList_iff.1 hentry, mem_runRows.1 hrow⟩
  · rintro ⟨rows, hget, hrow⟩
    exact ⟨(key, rows), SortedMap.mem_toList_iff.2 hget,
      List.mem_map.2 ⟨row, mem_runRows.2 hrow, rfl⟩⟩

/-- No mark is there twice, as no key is bound twice and the rows of an entry
ascend. -/
theorem nodup_markList (b : DeleteBitmap) : b.markList.Nodup := by
  refine List.nodup_flatMap.2 ⟨fun e _ => ?_, ?_⟩
  · have hrows : (runRows e.2.runs).Nodup :=
      (ascending_runRows e.2.separated).imp Nat.ne_of_lt
    exact hrows.map fun _ _ heq => (Prod.mk.inj heq).2
  · refine b.entries.ascending.imp fun {e e'} hlt mark hmark hmark' => ?_
    obtain ⟨_, -, rfl⟩ := List.mem_map.1 hmark
    obtain ⟨_, -, heq⟩ := List.mem_map.1 hmark'
    rw [(Prod.mk.inj heq).1, Std.ReflOrd.compare_self] at hlt
    cases hlt

/-- A bitmap counts its marks. -/
theorem card_markSet (b : DeleteBitmap) : b.markSet.card = b.cardinality := by
  rw [markSet, List.toFinset_card_of_nodup b.nodup_markList, markList,
    length_flatMap_eq_total, cardinality]
  simp only [List.length_map, length_runRows, RowSet.cardinality]

theorem markSet_merge (a b : DeleteBitmap) :
    (a.merge b).markSet = a.markSet ∪ b.markSet := by
  ext ⟨key, row⟩
  rw [Finset.mem_union, mem_markSet, mem_markSet, mem_markSet, hasMark_merge]

/-- Marks that both bitmaps have count once in the merged one. -/
theorem cardinality_merge (a b : DeleteBitmap) :
    (a.merge b).cardinality + (a.markSet ∩ b.markSet).card
      = a.cardinality + b.cardinality := by
  rw [← card_markSet, ← card_markSet, ← card_markSet, markSet_merge]
  exact Finset.card_union_add_card_inter _ _

-- ================================================== lookups

variable {rowset : RowsetId} {segment : SegmentId} {version : Version}

/-- What either bitmap deletes is deleted by the merged one. -/
theorem deletes_merge :
    (a.merge b).Deletes rowset segment row version
      ↔ a.Deletes rowset segment row version
        ∨ b.Deletes rowset segment row version := by
  simp only [Deletes, hasMark_merge, and_or_left, exists_or]

theorem containsAt_merge (a b : DeleteBitmap) (row : UInt32) :
    (a.merge b).containsAt rowset segment row version
      = (a.containsAt rowset segment row version
        || b.containsAt rowset segment row version) := by
  rw [Bool.eq_iff_iff, Bool.or_eq_true, containsAt_iff, containsAt_iff,
    containsAt_iff, deletes_merge]

theorem aggregate_merge (a b : DeleteBitmap) :
    (a.merge b).aggregate rowset segment version
      = (a.aggregate rowset segment version).union
        (b.aggregate rowset segment version) := by
  refine RowSet.ext_mem fun row => ?_
  rw [RowSet.mem_union, mem_aggregate, mem_aggregate, mem_aggregate,
    deletes_merge]

-- ================================================== the laws

theorem merge_empty (a : DeleteBitmap) : a.merge ∅ = a := rfl

theorem empty_merge (a : DeleteBitmap) : (∅ : DeleteBitmap).merge a = a :=
  (merge_comm ∅ a).trans (merge_empty a)

/-- What holds of merging three bitmaps, and of gathering them anew. Bitmaps
are equal if they have the same entries, those without rows included. -/
structure IsJoin (a b c : DeleteBitmap) : Prop where
  comm : a.merge b = b.merge a
  assoc : (a.merge b).merge c = a.merge (b.merge c)
  idem : a.merge a = a
  neutral : a.merge ∅ = a ∧ (∅ : DeleteBitmap).merge a = a
  aggregate : ∀ rowset segment version,
    (a.merge b).aggregate rowset segment version
      = (a.aggregate rowset segment version).union
        (b.aggregate rowset segment version)
  containsAt : ∀ rowset segment row version,
    (a.merge b).containsAt rowset segment row version
      = (a.containsAt rowset segment row version
        || b.containsAt rowset segment row version)
  /-- Marks that both bitmaps have count once. -/
  counted : (a.merge b).cardinality + (a.markSet ∩ b.markSet).card
    = a.cardinality + b.cardinality
  rebuilt : ofList a.toList = a
  /-- Neither the order of entries matters nor how often one is there. -/
  gathered : ∀ l r : List (BitmapKey × RowSet), (∀ e, e ∈ l ↔ e ∈ r) →
    ofList l = ofList r

/-- Merging is the join of bitmaps, whichever they are. -/
theorem merge_isJoin (a b c : DeleteBitmap) : IsJoin a b c where
  comm := merge_comm a b
  assoc := merge_assoc a b c
  idem := merge_self a
  neutral := ⟨merge_empty a, empty_merge a⟩
  aggregate _ _ _ := aggregate_merge a b
  containsAt _ _ row _ := containsAt_merge a b row
  counted := cardinality_merge a b
  rebuilt := ofList_toList a
  gathered _ _ := ofList_congr

end DeleteBitmap

end MergeOnWrite
