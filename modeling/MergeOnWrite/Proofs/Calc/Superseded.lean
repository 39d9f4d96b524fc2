/-
Which rows a calculation finds superseded.

Both calculations go through rows and collect marks: the comparison with
other rowsets forwards, looking up the keys of the new segment and leaving
out what is deleted already, and the comparison within the new rowset
backwards, collecting the keys that it has seen. For the former it is enough
to know what one row adds (`iff_of_foldlM`). For the latter what has been
found depends on how far the scan has come: an induction on the rows that it
has passed carries which keys these have and which of them are superseded
among themselves (`Reached`).

# Main statements

- `hasMark_cross`: the marks of a comparison with other rowsets.
- `hasMark_intra`: the marks of a comparison within the new rowset.
-/
import MergeOnWrite.Calc.Calculator
import MergeOnWrite.Proofs.DeleteBitmap.Lookup
import Mathlib.Data.List.Nodup
import Mathlib.Data.List.Sigma

namespace MergeOnWrite

-- ================================================== rows

/-- A row of a segment, with its key. -/
structure KeyedRow where
  rowset : RowsetId
  segment : SegmentId
  place : Nat
  key : Bytes
deriving DecidableEq

namespace KeyIndex

/-- The rows that an index has for a segment, in row order. -/
def rowsIn (index : KeyIndex) (tablet : TabletId) (rowset : RowsetId)
    (segment : SegmentId) : List KeyedRow :=
  match index.find? ⟨tablet, rowset, segment⟩ with
  | some (.keys keys) =>
    keys.zipIdx.map fun entry => ⟨rowset, segment, entry.2, entry.1⟩
  | _ => []

/-- The rows of some segments, in the order of the segments. -/
def listing (index : KeyIndex) (tablet : TabletId) (rowset : RowsetId)
    (segments : List SegmentId) : List KeyedRow :=
  segments.flatMap (index.rowsIn tablet rowset)

/-- The rows of all segments of some rowsets. -/
def rowsOf (index : KeyIndex) (tablet : TabletId) (rowsets : List RowsetId) :
    List KeyedRow :=
  rowsets.flatMap fun rowset =>
    index.listing tablet rowset (index.segmentsOf tablet rowset)

/-- The keys that can be read of a segment. -/
def readable (index : KeyIndex) (ref : SegmentRef) : List Bytes :=
  (index.keys ref).toOption.getD []

variable {index : KeyIndex} {tablet : TabletId} {rowset : RowsetId}
  {segment : SegmentId} {segments : List SegmentId} {row row' : KeyedRow}

theorem rowsIn_eq :
    index.rowsIn tablet rowset segment
      = (index.readable ⟨tablet, rowset, segment⟩).zipIdx.map fun entry =>
        ⟨rowset, segment, entry.2, entry.1⟩ := by
  unfold rowsIn readable KeyIndex.keys
  cases index.find? ⟨tablet, rowset, segment⟩ with
  | none => rfl
  | some held => cases held <;> rfl

/-- The rows that a calculation goes through are those of the segment. -/
theorem rowsIn_of_rows {rows : List (Bytes × Nat)}
    (h : index.rows ⟨tablet, rowset, segment⟩ = .ok rows) :
    index.rowsIn tablet rowset segment
      = rows.map fun entry => ⟨rowset, segment, entry.2, entry.1⟩ := by
  rw [rowsIn_eq, readable]
  unfold KeyIndex.rows at h
  cases hkeys : index.keys ⟨tablet, rowset, segment⟩ with
  | error e =>
      rw [hkeys] at h
      cases h
  | ok keys =>
      rw [hkeys] at h
      cases h
      rfl

theorem mem_rowsIn :
    row ∈ index.rowsIn tablet rowset segment
      ↔ row.rowset = rowset ∧ row.segment = segment
        ∧ ∃ keys, index.find? ⟨tablet, rowset, segment⟩ = some (.keys keys)
          ∧ keys[row.place]? = some row.key := by
  unfold rowsIn
  cases hfound : index.find? ⟨tablet, rowset, segment⟩ with
  | none => simp
  | some held =>
      cases held with
      | corrupt message => simp
      | keys keys =>
          simp only [List.mem_map, Prod.exists, List.mem_zipIdx_iff_getElem?]
          constructor
          · rintro ⟨key, place, hkey, rfl⟩
            exact ⟨rfl, rfl, keys, rfl, hkey⟩
          · rintro ⟨rfl, rfl, keys', hkeys, hkey⟩
            obtain rfl := SegmentKeys.keys.inj (Option.some.inj hkeys)
            exact ⟨row.key, row.place, hkey, rfl⟩

theorem mem_listing :
    row ∈ index.listing tablet rowset segments
      ↔ ∃ segment ∈ segments, row ∈ index.rowsIn tablet rowset segment :=
  List.mem_flatMap

theorem exists_mem_listing {p : KeyedRow → Prop} :
    (∃ row ∈ index.listing tablet rowset segments, p row)
      ↔ ∃ segment ∈ segments, ∃ row ∈ index.rowsIn tablet rowset segment,
        p row := by
  constructor
  · rintro ⟨row, hrow, hp⟩
    obtain ⟨segment, hsegment, hrow⟩ := mem_listing.1 hrow
    exact ⟨segment, hsegment, row, hrow, hp⟩
  · rintro ⟨segment, hsegment, row, hrow, hp⟩
    exact ⟨row, mem_listing.2 ⟨segment, hsegment, hrow⟩, hp⟩

/-- A row is of the rowset that is listed. -/
theorem rowset_of_mem_listing
    (h : row ∈ index.listing tablet rowset segments) :
    row.rowset = rowset := by
  obtain ⟨segment, -, h⟩ := mem_listing.1 h
  exact (mem_rowsIn.1 h).1

/-- The key at a place is determined by the place. -/
theorem eq_of_place {segments' : List SegmentId} {rowset' : RowsetId}
    (h : row ∈ index.listing tablet rowset segments)
    (h' : row' ∈ index.listing tablet rowset' segments')
    (hrowset : row.rowset = row'.rowset) (hsegment : row.segment = row'.segment)
    (hplace : row.place = row'.place) : row = row' := by
  obtain ⟨s, -, hs⟩ := mem_listing.1 h
  obtain ⟨s', -, hs'⟩ := mem_listing.1 h'
  obtain ⟨rfl, rfl, keys, hkeys, hkey⟩ := mem_rowsIn.1 hs
  obtain ⟨rfl, rfl, keys', hkeys', hkey'⟩ := mem_rowsIn.1 hs'
  obtain ⟨r, s, p, k⟩ := row
  obtain ⟨r', s', p', k'⟩ := row'
  obtain rfl : r = r' := hrowset
  obtain rfl : s = s' := hsegment
  obtain rfl : p = p' := hplace
  obtain rfl := SegmentKeys.keys.inj (Option.some.inj (hkeys.symm.trans hkeys'))
  obtain rfl : k = k' := Option.some.inj (hkey.symm.trans hkey')
  rfl

/-- No row is listed twice if no segment is. -/
theorem nodup_listing (h : segments.Nodup) :
    (index.listing tablet rowset segments).Nodup := by
  refine List.nodup_flatMap.2 ⟨fun segment _ => ?_, h.imp ?_⟩
  · rw [rowsIn_eq]
    refine List.Nodup.map (fun a b hab => ?_)
      (List.Nodup.of_map Prod.snd (List.nodup_zipIdx_map_snd _))
    have hparts := KeyedRow.mk.inj hab
    exact Prod.ext hparts.2.2.2 hparts.2.2.1
  · intro s s' hne row hrow hrow'
    exact hne ((mem_rowsIn.1 hrow).2.1.symm.trans (mem_rowsIn.1 hrow').2.1)

end KeyIndex

theorem SegmentRef.toNat_of_rowAt {ref : SegmentRef} {place : Nat} {row : UInt32}
    (h : ref.rowAt place = .ok row) : row.toNat = place := by
  unfold SegmentRef.rowAt at h
  by_cases hplace : place < UInt32.size
  · rw [if_pos hplace] at h
    cases h
    exact Nat.mod_eq_of_lt hplace
  · rw [if_neg hplace] at h
    cases h

/-- The entry that a mark of a row belongs to, at a version. -/
def KeyedRow.entry (row : KeyedRow) (version : Version) : BitmapKey :=
  ⟨row.rowset, row.segment, version⟩

-- ================================================== scans

theorem Except.ok_of_bind {ε α β : Type} {x : Except ε α} {f : α → Except ε β}
    {b : β} (h : x >>= f = .ok b) : ∃ a, x = .ok a ∧ f a = .ok b := by
  cases x with
  | error e => cases h
  | ok a => exact ⟨a, rfl, h⟩

/-- What a scan has found is what it started with and what each of its steps
adds. -/
theorem iff_of_foldlM {ε α σ : Type} {step : σ → α → Except ε σ}
    (has : σ → Prop) (adds : α → Prop) :
    ∀ {l : List α} {s t : σ}, l.foldlM step s = .ok t →
      (∀ s a t, a ∈ l → step s a = .ok t → (has t ↔ has s ∨ adds a)) →
        (has t ↔ has s ∨ ∃ a ∈ l, adds a) := by
  intro l
  induction l with
  | nil =>
      intro s t h _
      cases h
      simp
  | cons a rest ih =>
      intro s t h hstep
      rw [List.foldlM_cons] at h
      obtain ⟨mid, hmid, h⟩ := Except.ok_of_bind h
      have hrest := ih h fun s a' t ha' => hstep s a' t (List.mem_cons_of_mem _ ha')
      rw [hrest, hstep s a mid (List.mem_cons_self ..) hmid, or_assoc]
      simp

/-- A scan none of whose steps can fail is a plain one. -/
theorem foldlM_of_ok {ε α σ : Type} {step : σ → α → Except ε σ}
    {next : σ → α → σ} :
    ∀ {l : List α} {s : σ}, (∀ s, ∀ a ∈ l, step s a = .ok (next s a)) →
      l.foldlM step s = .ok (l.foldl next s) := by
  intro l
  induction l with
  | nil => intro s _; rfl
  | cons a rest ih =>
      intro s h
      rw [List.foldlM_cons, List.foldl_cons, h s a (List.mem_cons_self ..)]
      exact ih fun s a' ha' => h s a' (List.mem_cons_of_mem _ ha')

-- ================================================== other rowsets

namespace CrossTask

variable {index : KeyIndex} {task : CrossTask} {newRows : SortedMap Bytes UInt32}
  {target : RowsetId} {segment : SegmentId} {found found' : CrossFindings}
  {key : BitmapKey} {row : Nat}

/-- True of the rows that were deleted before the load. -/
def DeletedBefore (task : CrossTask) (row : KeyedRow) : Prop :=
  ∃ b, task.tabletBitmap = some b
    ∧ b.Deletes row.rowset row.segment row.place task.endVersion

/-- The keys of the new segment are looked up. -/
theorem isSome_lastRows {ref : SegmentRef} {rows : List (Bytes × Nat)}
    (h : lastRows ref rows = .ok newRows) (k : Bytes) :
    (newRows.get? k).isSome ↔ ∃ entry ∈ rows, entry.1 = k := by
  rw [iff_of_foldlM (fun m : SortedMap Bytes UInt32 =>
    (m.get? k).isSome = true) (fun entry => entry.1 = k) h]
  · rw [SortedMap.get?_empty]
    simp
  · intro m entry m' _ hstep
    obtain ⟨row, _, hm⟩ := Except.ok_of_bind hstep
    cases hm
    by_cases hk : entry.1 = k
    · subst hk
      rw [SortedMap.get?_insert_self]
      simp
    · rw [SortedMap.get?_insert_of_ne _ _ (Ne.symm hk)]
      simp [hk]

theorem isDeleted_iff {place : UInt32} :
    task.isDeleted target segment place = true
      ↔ ∃ b, task.tabletBitmap = some b
        ∧ b.Deletes target segment place.toNat task.endVersion := by
  unfold isDeleted
  rw [Option.any_eq_true]
  simp only [DeleteBitmap.containsAt_iff]

/-- One row adds its own mark, if its key is one of the new segment and it
was not deleted before. -/
theorem hasMark_compareRow {entry : Bytes × Nat}
    (h : task.compareRow newRows target segment found entry = .ok found') :
    found'.marks.HasMark key row
      ↔ found.marks.HasMark key row
        ∨ (newRows.get? entry.1).isSome
          ∧ ¬ task.DeletedBefore ⟨target, segment, entry.2, entry.1⟩
          ∧ key = ⟨target, segment, pendingVersion⟩ ∧ row = entry.2 := by
  unfold compareRow at h
  cases hnew : newRows.get? entry.1 with
  | none =>
      rw [hnew] at h
      cases h
      simp
  | some newRow =>
      rw [hnew] at h
      obtain ⟨place, hplace, h⟩ := Except.ok_of_bind h
      have hplace := SegmentRef.toNat_of_rowAt hplace
      have hdeleted : task.isDeleted target segment place = true
          ↔ task.DeletedBefore ⟨target, segment, entry.2, entry.1⟩ := by
        rw [isDeleted_iff, hplace]
        exact Iff.rfl
      by_cases hd : task.isDeleted target segment place = true
      · rw [if_pos hd] at h
        cases h
        simp [hdeleted.1 hd]
      · rw [if_neg hd] at h
        cases h
        rw [DeleteBitmap.hasMark_add, hplace]
        simp [← hdeleted, hd]

/-- True of the mark of a row whose key is one of the new segment, unless the
row was deleted before. -/
def Finds (task : CrossTask) (newRows : SortedMap Bytes UInt32)
    (key : BitmapKey) (row : Nat) (old : KeyedRow) : Prop :=
  (newRows.get? old.key).isSome ∧ ¬ task.DeletedBefore old
    ∧ key = old.entry pendingVersion ∧ row = old.place

/-- A segment adds the marks of its rows. -/
theorem hasMark_compareSegment
    (h : task.compareSegment index newRows target found segment = .ok found') :
    found'.marks.HasMark key row
      ↔ found.marks.HasMark key row
        ∨ ∃ old ∈ index.rowsIn task.tablet target segment,
          task.Finds newRows key row old := by
  obtain ⟨rows, hrows, h⟩ := Except.ok_of_bind h
  rw [iff_of_foldlM (fun found : CrossFindings =>
    found.marks.HasMark key row) _ h fun found entry found' _ hstep =>
      hasMark_compareRow hstep, KeyIndex.rowsIn_of_rows hrows]
  simp only [List.mem_map, exists_exists_and_eq_and]
  rfl

/-- A rowset adds the marks of its segments. -/
theorem hasMark_compareTarget
    (h : task.compareTarget index newRows found target = .ok found') :
    found'.marks.HasMark key row
      ↔ found.marks.HasMark key row
        ∨ ∃ old ∈ index.listing task.tablet target
            (index.segmentsOf task.tablet target),
          task.Finds newRows key row old := by
  obtain ⟨segments, hsegments, h⟩ := Except.ok_of_bind h
  obtain rfl : index.segmentsOf task.tablet target = segments := by
    unfold KeyIndex.segments at hsegments
    split at hsegments
    · cases hsegments
    · cases hsegments
      rfl
  rw [iff_of_foldlM (fun found : CrossFindings =>
    found.marks.HasMark key row) _ h fun found segment found' _ hstep =>
      hasMark_compareSegment hstep, KeyIndex.exists_mem_listing]

theorem hasMark_findings (h : task.findings index = .ok found) :
    found.marks.HasMark key row
      ↔ ∃ old ∈ index.rowsOf task.tablet task.targets,
        (∃ new ∈ index.rowsIn task.tablet task.rowset task.segment,
          new.key = old.key)
        ∧ ¬ task.DeletedBefore old
        ∧ key = old.entry pendingVersion ∧ row = old.place := by
  obtain ⟨rows, hrows, h⟩ := Except.ok_of_bind h
  obtain ⟨newRows, hnew, h⟩ := Except.ok_of_bind h
  have hkeys : ∀ k, (newRows.get? k).isSome
      ↔ ∃ new ∈ index.rowsIn task.tablet task.rowset task.segment,
        new.key = k := by
    intro k
    rw [isSome_lastRows hnew, KeyIndex.rowsIn_of_rows hrows]
    simp only [List.mem_map, exists_exists_and_eq_and]
  rw [iff_of_foldlM (fun found : CrossFindings =>
    found.marks.HasMark key row) _ h fun found target found' _ hstep =>
      hasMark_compareTarget hstep]
  simp only [DeleteBitmap.not_hasMark_empty, false_or, Finds, hkeys]
  constructor
  · rintro ⟨target, htarget, old, hold, hmark⟩
    exact ⟨old, List.mem_flatMap.2 ⟨target, htarget, hold⟩, hmark⟩
  · rintro ⟨old, hold, hmark⟩
    obtain ⟨target, htarget, hold⟩ := List.mem_flatMap.1 hold
    exact ⟨target, htarget, old, hold, hmark⟩

/-- A comparison with other rowsets marks the rows that have a key of the new
segment and were not deleted before, whether a writer is told or not. -/
theorem hasMark_cross {marks : DeleteBitmap}
    (h : (task.run index).result = .ok marks) :
    marks.HasMark key row
      ↔ ∃ old ∈ index.rowsOf task.tablet task.targets,
        (∃ new ∈ index.rowsIn task.tablet task.rowset task.segment,
          new.key = old.key)
        ∧ ¬ task.DeletedBefore old
        ∧ key = old.entry pendingVersion ∧ row = old.place := by
  unfold run at h
  split at h
  · cases h
  · rename_i found hfound
    suffices found.marks = marks by
      rw [← this]
      exact hasMark_findings hfound
    split at h
    · cases h
      rfl
    · split at h
      · cases h
        rfl
      · rename_i writer _ _
        cases hwriter : writer.rewrite task.segment with
        | error e => simp [hwriter, Except.map] at h
        | ok _ => simpa [hwriter, Except.map] using h

end CrossTask

-- ================================================== the new rowset

/-- True of a row of a listing that a later row with the same key
supersedes. -/
def Superseded (listing : List KeyedRow) (row : KeyedRow) : Prop :=
  ∃ later, [row, later].Sublist listing ∧ later.key = row.key

theorem not_superseded_nil (row : KeyedRow) : ¬ Superseded [] row := by
  rintro ⟨later, h, -⟩
  cases h

/-- A row in front of a listing is superseded if its key is listed, and
supersedes nothing. -/
theorem superseded_cons {first row : KeyedRow} {listing : List KeyedRow} :
    Superseded (first :: listing) row
      ↔ Superseded listing row
        ∨ row = first ∧ ∃ later ∈ listing, later.key = first.key := by
  constructor
  · rintro ⟨later, hsub, hkey⟩
    rcases List.sublist_cons_iff.1 hsub with hsub | ⟨rest, hrest, hsub⟩
    · exact .inl ⟨later, hsub, hkey⟩
    · obtain ⟨rfl, rfl⟩ := List.cons.inj hrest
      exact .inr ⟨rfl, later, List.singleton_sublist.1 hsub, hkey⟩
  · rintro (⟨later, hsub, hkey⟩ | ⟨rfl, later, hlater, hkey⟩)
    · exact ⟨later, hsub.cons first, hkey⟩
    · exact ⟨later, (List.singleton_sublist.2 hlater).cons_cons row, hkey⟩

namespace IntraTask

variable {index : KeyIndex} {task : IntraTask} {found found' : IntraFindings}
  {passed : List KeyedRow}

/-- True of what has been found once the scan has come back over some rows:
their keys, and the marks of those among them that are superseded. -/
structure Reached (passed : List KeyedRow) (found : IntraFindings) : Prop where
  later : ∀ k, (found.later.get? k).isSome ↔ ∃ row ∈ passed, row.key = k
  marks : ∀ key place, found.marks.HasMark key place
    ↔ ∃ row, Superseded passed row
      ∧ key = row.entry pendingVersion ∧ place = row.place

theorem Reached.nil : Reached [] {} where
  later k := by simp
  marks key place := by
    refine iff_of_false DeleteBitmap.not_hasMark_empty ?_
    rintro ⟨row, hrow, -⟩
    exact not_superseded_nil row hrow

/-- The scan comes back over one more row. -/
theorem Reached.compareRow {segment : SegmentId} {entry : Bytes × Nat}
    (hr : Reached passed found)
    (h : task.compareRow segment found entry = .ok found') :
    Reached (⟨task.rowset, segment, entry.2, entry.1⟩ :: passed) found' := by
  unfold IntraTask.compareRow at h
  by_cases hseen : (found.later.get? entry.1).isSome = true
  · -- the key is one of a later row, which supersedes this one
    obtain ⟨later, hlater, hkey⟩ := (hr.later entry.1).1 hseen
    rw [if_pos hseen] at h
    obtain ⟨place, hplace, h⟩ := Except.ok_of_bind h
    have hplace := SegmentRef.toNat_of_rowAt hplace
    cases h
    constructor
    · intro k
      rw [hr.later k]
      simp only [List.mem_cons, exists_eq_or_imp]
      refine ⟨.inr, ?_⟩
      rintro (rfl | h)
      · exact ⟨later, hlater, hkey⟩
      · exact h
    · intro key p
      rw [DeleteBitmap.hasMark_add, hr.marks, hplace]
      constructor
      · rintro (⟨row, hrow, hmark⟩ | ⟨rfl, rfl⟩)
        · exact ⟨row, superseded_cons.2 (.inl hrow), hmark⟩
        · exact ⟨_, superseded_cons.2 (.inr ⟨rfl, later, hlater, hkey⟩), rfl,
            rfl⟩
      · rintro ⟨row, hrow, rfl, rfl⟩
        rcases superseded_cons.1 hrow with hrow | ⟨rfl, -⟩
        · exact .inl ⟨row, hrow, rfl, rfl⟩
        · exact .inr ⟨rfl, rfl⟩
  · -- the key is a new one, and no row is marked for it
    rw [if_neg hseen] at h
    cases h
    constructor
    · intro k
      by_cases hk : entry.1 = k
      · subst hk
        rw [SortedMap.get?_insert_self]
        simp
      · rw [SortedMap.get?_insert_of_ne _ _ (Ne.symm hk), hr.later k]
        simp [hk]
    · intro key p
      rw [hr.marks]
      refine exists_congr fun row => and_congr_left fun _ => ?_
      rw [superseded_cons]
      refine ⟨.inl, ?_⟩
      rintro (h | ⟨-, h⟩)
      · exact h
      · exact absurd ((hr.later entry.1).2 h) hseen

/-- The scan comes back over the rows of a segment, the last one first. -/
theorem Reached.compareRows {segment : SegmentId} {rows : List (Bytes × Nat)}
    (hr : Reached passed found)
    (h : rows.reverse.foldlM (task.compareRow segment) found = .ok found') :
    Reached (rows.map (fun entry => ⟨task.rowset, segment, entry.2, entry.1⟩)
      ++ passed) found' := by
  rw [List.foldlM_reverse] at h
  induction rows generalizing found' with
  | nil =>
      cases h
      exact hr
  | cons entry rest ih =>
      rw [List.foldrM_cons] at h
      obtain ⟨mid, hmid, h⟩ := Except.ok_of_bind h
      exact (ih hmid).compareRow h

theorem Reached.compareSegment {segment : SegmentId}
    (hr : Reached passed found)
    (h : task.compareSegment index found segment = .ok found') :
    Reached (index.rowsIn task.tablet task.rowset segment ++ passed) found' := by
  obtain ⟨rows, hrows, h⟩ := Except.ok_of_bind h
  rw [KeyIndex.rowsIn_of_rows hrows]
  exact hr.compareRows h

theorem reached_foldlM {segments : List SegmentId}
    (h : segments.reverse.foldlM (task.compareSegment index) {} = .ok found) :
    Reached (index.listing task.tablet task.rowset segments) found := by
  rw [List.foldlM_reverse] at h
  induction segments generalizing found with
  | nil =>
      cases h
      exact Reached.nil
  | cons segment rest ih =>
      rw [List.foldrM_cons] at h
      obtain ⟨mid, hmid, h⟩ := Except.ok_of_bind h
      exact (ih hmid).compareSegment h

/-- A comparison within the new rowset marks the rows with a later row of the
same key. -/
theorem hasMark_intra {marks : DeleteBitmap} {key : BitmapKey} {place : Nat}
    (h : (task.run index).result = .ok marks) :
    marks.HasMark key place
      ↔ ∃ row, Superseded (index.listing task.tablet task.rowset task.segments) row
        ∧ key = row.entry pendingVersion ∧ place = row.place := by
  unfold run at h
  cases hfound : task.segments.reverse.foldlM (task.compareSegment index) {} with
  | error e => simp [hfound, Except.map] at h
  | ok found =>
      obtain rfl : found.marks = marks := by
        simpa [hfound, Except.map] using h
      exact (reached_foldlM hfound).marks key place

end IntraTask

end MergeOnWrite
