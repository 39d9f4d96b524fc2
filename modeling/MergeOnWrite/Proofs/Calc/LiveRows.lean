/-
What is left of the rows with a key once a load has come.

The marks of all calculations of a load are merged. A row of the new rowset
is then marked if a later one has its key, so of the rows with a key the
last one stays. A row of another rowset is marked if its key is one of the
new rowset and it was not deleted before; which segment's comparison found it
does not matter, nor whether several did.

# Main statements

- `hasMark_merged`: the marks of a load, row by row.
- `KeepsLatest`, `keepsLatest`: of each key of the new rowset its last row is
  left, and nothing else is touched.
-/
import MergeOnWrite.Proofs.Calc.Superseded

namespace MergeOnWrite

-- ================================================== last rows

/-- True of the last row of a listing with a key. -/
def IsLast (listing : List KeyedRow) (key : Bytes) (last : KeyedRow) : Prop :=
  last.key = key ∧ ∃ before after, listing = before ++ last :: after
    ∧ ∀ row ∈ after, row.key ≠ key

section LastRows

variable {listing : List KeyedRow} {key : Bytes} {row last : KeyedRow}

theorem IsLast.mem (h : IsLast listing key last) : last ∈ listing := by
  obtain ⟨-, before, after, rfl, -⟩ := h
  simp

theorem exists_isLast (h : ∃ row ∈ listing, row.key = key) :
    ∃ last, IsLast listing key last := by
  induction listing with
  | nil =>
      obtain ⟨row, hrow, -⟩ := h
      cases hrow
  | cons first rest ih =>
      by_cases hrest : ∃ row ∈ rest, row.key = key
      · obtain ⟨last, hkey, before, after, rfl, hafter⟩ := ih hrest
        exact ⟨last, hkey, first :: before, after, rfl, hafter⟩
      · obtain ⟨row, hrow, hkey⟩ := h
        rcases List.mem_cons.1 hrow with rfl | hrow
        · refine ⟨row, hkey, [], rest, rfl, fun other hother => ?_⟩
          exact fun hk => hrest ⟨other, hother, hk⟩
        · exact absurd ⟨row, hrow, hkey⟩ hrest

theorem Superseded.mem (h : Superseded listing row) : row ∈ listing := by
  obtain ⟨later, hsub, -⟩ := h
  exact hsub.subset (List.mem_cons_self ..)

/-- Another row with the key stands before the last one. -/
theorem superseded_of_ne_last (hlast : IsLast listing key last)
    (hrow : row ∈ listing) (hkey : row.key = key) (hne : row ≠ last) :
    Superseded listing row := by
  obtain ⟨hlastkey, before, after, rfl, hafter⟩ := hlast
  have hbefore : row ∈ before := by
    rcases List.mem_append.1 hrow with h | h
    · exact h
    · rcases List.mem_cons.1 h with h | h
      · exact absurd h hne
      · exact absurd hkey (hafter row h)
  refine ⟨last, ?_, hlastkey.trans hkey.symm⟩
  exact (List.singleton_sublist.2 hbefore).append
    (List.singleton_sublist.2 (List.mem_cons_self ..))

/-- No row stands after the last one. -/
theorem not_superseded_last (hnodup : listing.Nodup)
    (hlast : IsLast listing key last) : ¬ Superseded listing last := by
  obtain ⟨hkey, before, after, rfl, hafter⟩ := hlast
  induction before with
  | nil =>
      obtain ⟨hnot, -⟩ := List.nodup_cons.1 hnodup
      intro h
      rcases superseded_cons.1 h with h | ⟨-, later, hlater, hlaterkey⟩
      · exact hnot h.mem
      · exact hafter later hlater (hlaterkey.trans hkey)
  | cons first rest ih =>
      obtain ⟨hnot, hrest⟩ := List.nodup_cons.1 hnodup
      intro h
      rcases superseded_cons.1 h with h | ⟨rfl, -⟩
      · exact ih hrest h
      · exact hnot (List.mem_append_right _ (List.mem_cons_self ..))

end LastRows

-- ================================================== loads

/-- A load: a new rowset, the rowsets that are there already, and what is
deleted of these. -/
structure Load where
  tablet : TabletId
  rowset : RowsetId
  /-- The segments of the new rowset in the order in which they were
  written. -/
  segments : List SegmentId
  targets : List RowsetId
  endVersion : Version
  deleted : DeleteBitmap
  writer : SegmentId → Option RowsetWriter := fun _ => none
  distinct : segments.Nodup
  isNew : rowset ∉ targets
  /-- Nothing of the new rowset is deleted yet. -/
  unmarked : ∀ key place, deleted.HasMark key place → key.rowset ≠ rowset

namespace Load

/-- The comparison of one segment with the other rowsets. -/
def crossTask (load : Load) (segment : SegmentId) : CrossTask where
  tablet := load.tablet
  rowset := load.rowset
  segment := segment
  targets := load.targets
  endVersion := load.endVersion
  writer := load.writer segment
  tabletBitmap := some load.deleted

/-- The comparison within the new rowset. -/
def intraTask (load : Load) : IntraTask where
  tablet := load.tablet
  rowset := load.rowset
  segments := load.segments

def tasks (load : Load) : List CalcTask :=
  .intra load.intraTask :: load.segments.map fun segment =>
    .cross (load.crossTask segment)

/-- True of the bitmap that the marks of all calculations, which have
succeeded, are merged into in some order. -/
def Merges (load : Load) (index : KeyIndex) (merged : DeleteBitmap) : Prop :=
  ∃ marks order : List DeleteBitmap,
    load.tasks.map (fun task => (task.run index).result) = marks.map .ok
      ∧ order.Perm marks ∧ merged = (∅ : DeleteBitmap).mergeAll order

/-- The rows of the new rowset, in the order in which they were written. -/
def newRows (load : Load) (index : KeyIndex) : List KeyedRow :=
  index.listing load.tablet load.rowset load.segments

/-- The rows of the rowsets that are there already. -/
def oldRows (load : Load) (index : KeyIndex) : List KeyedRow :=
  index.rowsOf load.tablet load.targets

/-- True of the rows that were deleted before the load. -/
def DeletedBefore (load : Load) (row : KeyedRow) : Prop :=
  load.deleted.Deletes row.rowset row.segment row.place load.endVersion

end Load

/-- True of the rows that a bitmap has a mark of, at whichever version. -/
def KeyedRow.MarkedBy (row : KeyedRow) (b : DeleteBitmap) : Prop :=
  ∃ version, b.HasMark (row.entry version) row.place

namespace Load

variable {load : Load} {index : KeyIndex} {merged : DeleteBitmap}
  {row : KeyedRow} {key : BitmapKey} {place : Nat}

-- ================================================== the marks of a load

/-- The merged marks are those of the calculations. -/
theorem hasMark_iff_of_merges (h : load.Merges index merged) :
    merged.HasMark key place
      ↔ ∃ task ∈ load.tasks, ∃ marks,
        (task.run index).result = .ok marks ∧ marks.HasMark key place := by
  obtain ⟨all, order, hresults, hperm, rfl⟩ := h
  rw [DeleteBitmap.hasMark_mergeAll]
  simp only [DeleteBitmap.not_hasMark_empty, false_or, hperm.mem_iff]
  constructor
  · rintro ⟨marks, hmarks, hmark⟩
    have hmem : Except.ok marks ∈ load.tasks.map fun task =>
        (task.run index).result := by
      rw [hresults]
      exact List.mem_map.2 ⟨marks, hmarks, rfl⟩
    obtain ⟨task, htask, hresult⟩ := List.mem_map.1 hmem
    exact ⟨task, htask, marks, hresult, hmark⟩
  · rintro ⟨task, htask, marks, hresult, hmark⟩
    have hmem : (task.run index).result ∈ all.map Except.ok := by
      rw [← hresults]
      exact List.mem_map.2 ⟨task, htask, rfl⟩
    obtain ⟨marks', hmarks', heq⟩ := List.mem_map.1 hmem
    obtain rfl := Except.ok.inj (heq.trans hresult)
    exact ⟨marks', hmarks', hmark⟩

/-- All calculations have succeeded. -/
theorem exists_ok_of_merges (h : load.Merges index merged) {task : CalcTask}
    (htask : task ∈ load.tasks) : ∃ marks, (task.run index).result = .ok marks := by
  obtain ⟨all, order, hresults, -, -⟩ := h
  have hmem : (task.run index).result ∈ all.map Except.ok := by
    rw [← hresults]
    exact List.mem_map.2 ⟨task, htask, rfl⟩
  obtain ⟨marks, -, hmarks⟩ := List.mem_map.1 hmem
  exact ⟨marks, hmarks.symm⟩

theorem deletedBefore_crossTask {segment : SegmentId} :
    (load.crossTask segment).DeletedBefore row ↔ load.DeletedBefore row := by
  constructor
  · rintro ⟨b, hb, h⟩
    obtain rfl := Option.some.inj hb
    exact h
  · exact fun h => ⟨load.deleted, rfl, h⟩

/-- The marks of a load are those of the rows that later rows of the new
rowset supersede, be it in the new rowset or in the others. -/
theorem hasMark_merged (h : load.Merges index merged) :
    merged.HasMark key place
      ↔ (∃ row, Superseded (load.newRows index) row
          ∧ key = row.entry pendingVersion ∧ place = row.place)
        ∨ ∃ row ∈ load.oldRows index,
          (∃ new ∈ load.newRows index, new.key = row.key)
          ∧ ¬ load.DeletedBefore row
          ∧ key = row.entry pendingVersion ∧ place = row.place := by
  rw [hasMark_iff_of_merges h]
  constructor
  · rintro ⟨task, htask, marks, hresult, hmark⟩
    rcases List.mem_cons.1 htask with rfl | htask
    · exact .inl ((IntraTask.hasMark_intra hresult).1 hmark)
    · obtain ⟨segment, hsegment, rfl⟩ := List.mem_map.1 htask
      obtain ⟨row, hrow, ⟨new, hnew, hkey⟩, hlive, hmark⟩ :=
        (CrossTask.hasMark_cross hresult).1 hmark
      refine .inr ⟨row, hrow, ⟨new, ?_, hkey⟩, ?_, hmark⟩
      · exact KeyIndex.mem_listing.2 ⟨segment, hsegment, hnew⟩
      · exact fun hd => hlive (deletedBefore_crossTask.2 hd)
  · rintro (hrow | ⟨row, hrow, ⟨new, hnew, hkey⟩, hlive, hmark⟩)
    · have htask : .intra load.intraTask ∈ load.tasks := List.mem_cons_self ..
      obtain ⟨marks, hresult⟩ := exists_ok_of_merges h htask
      exact ⟨_, htask, marks, hresult,
        (IntraTask.hasMark_intra hresult).2 hrow⟩
    · -- the comparison of a segment with the key finds the row
      obtain ⟨segment, hsegment, hnew⟩ := KeyIndex.mem_listing.1 hnew
      have htask : .cross (load.crossTask segment) ∈ load.tasks :=
        List.mem_cons_of_mem _ (List.mem_map.2 ⟨segment, hsegment, rfl⟩)
      obtain ⟨marks, hresult⟩ := exists_ok_of_merges h htask
      refine ⟨_, htask, marks, hresult,
        (CrossTask.hasMark_cross hresult).2 ⟨row, hrow, ⟨new, hnew, hkey⟩, ?_,
          hmark⟩⟩
      exact fun hd => hlive (deletedBefore_crossTask.1 hd)

-- ================================================== rows of a load

theorem rowset_of_mem_newRows (h : row ∈ load.newRows index) :
    row.rowset = load.rowset :=
  KeyIndex.rowset_of_mem_listing h

theorem rowset_of_mem_oldRows (h : row ∈ load.oldRows index) :
    row.rowset ∈ load.targets := by
  obtain ⟨target, htarget, h⟩ := List.mem_flatMap.1 h
  exact KeyIndex.rowset_of_mem_listing h ▸ htarget

theorem exists_listing (h : row ∈ load.newRows index ++ load.oldRows index) :
    ∃ rowset segments, row ∈ index.listing load.tablet rowset segments := by
  rcases List.mem_append.1 h with h | h
  · exact ⟨load.rowset, load.segments, h⟩
  · obtain ⟨target, -, h⟩ := List.mem_flatMap.1 h
    exact ⟨target, _, h⟩

/-- The rows of a load are told apart by where they are. -/
theorem eq_of_entry {row' : KeyedRow} {version version' : Version}
    (h : row ∈ load.newRows index ++ load.oldRows index)
    (h' : row' ∈ load.newRows index ++ load.oldRows index)
    (hentry : row.entry version = row'.entry version')
    (hplace : row.place = row'.place) : row = row' := by
  obtain ⟨_, _, h⟩ := exists_listing h
  obtain ⟨_, _, h'⟩ := exists_listing h'
  obtain ⟨hrowset, hsegment, -⟩ := BitmapKey.mk.inj hentry
  exact KeyIndex.eq_of_place h h' hrowset hsegment hplace

theorem not_deletedBefore_newRow (h : row ∈ load.newRows index) :
    ¬ load.DeletedBefore row := by
  rintro ⟨since, -, hmark⟩
  exact load.unmarked _ _ hmark (rowset_of_mem_newRows h)

/-- A row of the new rowset is marked if a later one supersedes it. -/
theorem markedBy_newRow (h : load.Merges index merged)
    (hrow : row ∈ load.newRows index) :
    row.MarkedBy merged ↔ Superseded (load.newRows index) row := by
  constructor
  · rintro ⟨version, hmark⟩
    rcases (hasMark_merged h).1 hmark with
      ⟨row', hrow', hentry, hplace⟩ | ⟨row', hrow', -, -, hentry, hplace⟩
    · have heq := eq_of_entry (List.mem_append_left _ hrow)
        (List.mem_append_left _ hrow'.mem) hentry hplace
      exact heq ▸ hrow'
    · -- the other rowsets do not include the new one
      have heq := eq_of_entry (List.mem_append_left _ hrow)
        (List.mem_append_right _ hrow') hentry hplace
      refine absurd ?_ load.isNew
      rw [← rowset_of_mem_newRows hrow, heq]
      exact rowset_of_mem_oldRows hrow'
  · exact fun hs => ⟨pendingVersion, (hasMark_merged h).2
      (.inl ⟨row, hs, rfl, rfl⟩)⟩

/-- A row of another rowset is marked if its key is one of the new rowset and
it was not deleted before. -/
theorem markedBy_oldRow (h : load.Merges index merged)
    (hrow : row ∈ load.oldRows index) :
    row.MarkedBy merged
      ↔ (∃ new ∈ load.newRows index, new.key = row.key)
        ∧ ¬ load.DeletedBefore row := by
  constructor
  · rintro ⟨version, hmark⟩
    rcases (hasMark_merged h).1 hmark with
      ⟨row', hrow', hentry, hplace⟩
        | ⟨row', hrow', hnew, hlive, hentry, hplace⟩
    · have heq := eq_of_entry (List.mem_append_right _ hrow)
        (List.mem_append_left _ hrow'.mem) hentry hplace
      refine absurd ?_ load.isNew
      rw [← rowset_of_mem_newRows hrow'.mem, ← heq]
      exact rowset_of_mem_oldRows hrow
    · have heq := eq_of_entry (List.mem_append_right _ hrow)
        (List.mem_append_right _ hrow') hentry hplace
      exact heq ▸ ⟨hnew, hlive⟩
  · exact fun ⟨hnew, hlive⟩ => ⟨pendingVersion, (hasMark_merged h).2
      (.inr ⟨row, hrow, hnew, hlive, rfl, rfl⟩)⟩

/-- Of the rows of the new rowset with a key only the last one stays. -/
theorem markedBy_iff_ne_last (h : load.Merges index merged) {k : Bytes}
    {last : KeyedRow} (hlast : IsLast (load.newRows index) k last)
    (hrow : row ∈ load.newRows index) (hkey : row.key = k) :
    ¬ row.MarkedBy merged ↔ row = last := by
  rw [markedBy_newRow h hrow]
  constructor
  · intro hns
    by_contra hne
    exact hns (superseded_of_ne_last hlast hrow hkey hne)
  · rintro rfl
    exact not_superseded_last (KeyIndex.nodup_listing load.distinct) hlast

-- ================================================== the load as a whole

/-- True of the rows that are live once the load has come. -/
def IsLive (load : Load) (merged : DeleteBitmap) (row : KeyedRow) : Prop :=
  ¬ load.DeletedBefore row ∧ ¬ row.MarkedBy merged

/-- What the marks of a load leave. -/
structure KeepsLatest (load : Load) (index : KeyIndex) (merged : DeleteBitmap) :
    Prop where
  /-- Of the rows of the new rowset with a key exactly the last one is not
  marked. -/
  last : ∀ k, (∃ row ∈ load.newRows index, row.key = k) →
    ∃ last, IsLast (load.newRows index) k last
      ∧ ∀ row ∈ load.newRows index, row.key = k →
        (¬ row.MarkedBy merged ↔ row = last)
  /-- The rows of the other rowsets with the key are marked or were deleted
  before. -/
  old : ∀ row ∈ load.oldRows index,
    (∃ new ∈ load.newRows index, new.key = row.key) →
      row.MarkedBy merged ∨ load.DeletedBefore row
  /-- Nothing else is marked than rows of the load with a key of the new
  rowset, and these at the pending version. -/
  others : ∀ key place, merged.HasMark key place →
    ∃ row ∈ load.newRows index ++ load.oldRows index,
      key = row.entry pendingVersion ∧ place = row.place
        ∧ ∃ new ∈ load.newRows index, new.key = row.key
  /-- No row with another key is marked, whichever rowset it is of. -/
  untouched : ∀ rowset segments,
    ∀ row ∈ index.listing load.tablet rowset segments, row.MarkedBy merged →
      ∃ new ∈ load.newRows index, new.key = row.key
  /-- What was deleted before is not marked again. -/
  once : ∀ row ∈ load.oldRows index, load.DeletedBefore row →
    ¬ row.MarkedBy merged
  /-- There is at most one live row with a key, if there was before. -/
  unique : (∀ a ∈ load.oldRows index, ∀ b ∈ load.oldRows index,
      ¬ load.DeletedBefore a → ¬ load.DeletedBefore b → a.key = b.key → a = b) →
    ∀ a ∈ load.newRows index ++ load.oldRows index,
      ∀ b ∈ load.newRows index ++ load.oldRows index,
        load.IsLive merged a → load.IsLive merged b → a.key = b.key → a = b
  /-- A key with a row that was live, or that has come, has a live row. -/
  kept : ∀ row ∈ load.newRows index ++ load.oldRows index,
    ¬ load.DeletedBefore row →
      ∃ live ∈ load.newRows index ++ load.oldRows index,
        live.key = row.key ∧ load.IsLive merged live

/-- The last row with a key of the new rowset is live. -/
theorem exists_isLive_last (h : load.Merges index merged) {k : Bytes}
    (hk : ∃ row ∈ load.newRows index, row.key = k) :
    ∃ last, IsLast (load.newRows index) k last ∧ load.IsLive merged last := by
  obtain ⟨last, hlast⟩ := exists_isLast hk
  refine ⟨last, hlast, not_deletedBefore_newRow hlast.mem, ?_⟩
  exact (markedBy_iff_ne_last h hlast hlast.mem hlast.1).2 rfl

/-- An old row is not live any more once a row with its key has come. -/
theorem not_isLive_oldRow (h : load.Merges index merged)
    (hrow : row ∈ load.oldRows index)
    (hnew : ∃ new ∈ load.newRows index, new.key = row.key) :
    ¬ load.IsLive merged row :=
  fun hlive => hlive.2 ((markedBy_oldRow h hrow).2 ⟨hnew, hlive.1⟩)

theorem eq_of_isLive (h : load.Merges index merged)
    (hunique : ∀ a ∈ load.oldRows index, ∀ b ∈ load.oldRows index,
      ¬ load.DeletedBefore a → ¬ load.DeletedBefore b → a.key = b.key → a = b)
    {a b : KeyedRow} (ha : a ∈ load.newRows index ++ load.oldRows index)
    (hb : b ∈ load.newRows index ++ load.oldRows index)
    (halive : load.IsLive merged a) (hblive : load.IsLive merged b)
    (hkey : a.key = b.key) : a = b := by
  rcases List.mem_append.1 ha with ha | ha <;>
    rcases List.mem_append.1 hb with hb | hb
  · -- both are the last row of the new rowset with their key
    obtain ⟨last, hlast⟩ := exists_isLast ⟨b, hb, rfl⟩
    have ha := (markedBy_iff_ne_last h hlast ha hkey).1 halive.2
    have hb := (markedBy_iff_ne_last h hlast hb rfl).1 hblive.2
    exact ha.trans hb.symm
  · exact absurd hblive (not_isLive_oldRow h hb ⟨a, ha, hkey⟩)
  · exact absurd halive (not_isLive_oldRow h ha ⟨b, hb, hkey.symm⟩)
  · exact hunique a ha b hb halive.1 hblive.1 hkey

/-- A key that was there, or that has come, has a live row. -/
theorem exists_isLive (h : load.Merges index merged)
    (hrow : row ∈ load.newRows index ++ load.oldRows index)
    (hlive : ¬ load.DeletedBefore row) :
    ∃ live ∈ load.newRows index ++ load.oldRows index,
      live.key = row.key ∧ load.IsLive merged live := by
  by_cases hnew : ∃ new ∈ load.newRows index, new.key = row.key
  · obtain ⟨last, hlast, hlastlive⟩ := exists_isLive_last h hnew
    exact ⟨last, List.mem_append_left _ hlast.mem, hlast.1, hlastlive⟩
  · have hold : row ∈ load.oldRows index := by
      rcases List.mem_append.1 hrow with hrow | hrow
      · exact absurd ⟨row, hrow, rfl⟩ hnew
      · exact hrow
    refine ⟨row, hrow, rfl, hlive, fun hmarked => ?_⟩
    exact hnew ((markedBy_oldRow h hold).1 hmarked).1

/-- Every mark is one of a row of the load with a key of the new rowset. -/
theorem exists_of_hasMark (h : load.Merges index merged)
    (hmark : merged.HasMark key place) :
    ∃ row ∈ load.newRows index ++ load.oldRows index,
      key = row.entry pendingVersion ∧ place = row.place
        ∧ ∃ new ∈ load.newRows index, new.key = row.key := by
  rcases (hasMark_merged h).1 hmark with
    ⟨row, hrow, hentry, hplace⟩ | ⟨row, hrow, hnew, -, hentry, hplace⟩
  · exact ⟨row, List.mem_append_left _ hrow.mem, hentry, hplace, row, hrow.mem,
      rfl⟩
  · exact ⟨row, List.mem_append_right _ hrow, hentry, hplace, hnew⟩

/-- Marks of a load leave the last row with each of its keys, and of other
keys what there was: whatever the rows are, whatever was deleted, and in
whichever order the marks are merged. -/
theorem keepsLatest (h : load.Merges index merged) :
    load.KeepsLatest index merged where
  last k hk := by
    obtain ⟨last, hlast⟩ := exists_isLast hk
    exact ⟨last, hlast, fun row hrow hkey =>
      markedBy_iff_ne_last h hlast hrow hkey⟩
  old row hrow hnew := by
    by_cases hd : load.DeletedBefore row
    · exact .inr hd
    · exact .inl ((markedBy_oldRow h hrow).2 ⟨hnew, hd⟩)
  others key place hmark := exists_of_hasMark h hmark
  untouched rowset segments row hrow := by
    rintro ⟨version, hmark⟩
    obtain ⟨row', hrow', hentry, hplace, hnew⟩ := exists_of_hasMark h hmark
    obtain ⟨hrowset, hsegment, -⟩ := BitmapKey.mk.inj hentry
    obtain ⟨_, _, hrow'⟩ := exists_listing hrow'
    exact KeyIndex.eq_of_place hrow hrow' hrowset hsegment hplace ▸ hnew
  once row hrow hd hmarked := ((markedBy_oldRow h hrow).1 hmarked).2 hd
  unique hunique a ha b hb := eq_of_isLive h hunique ha hb
  kept row hrow := exists_isLive h hrow

/-- A rowset with a deleted row and a live one of the same key, and two
segments of a new one that both have the key. -/
def sampleIndex : KeyIndex :=
  ({} : KeyIndex).insertMany
    [(⟨⟨1⟩, ⟨"old"⟩, ⟨0⟩⟩, .keys [[98], [97], [98]]),
      (⟨⟨1⟩, ⟨"new"⟩, ⟨0⟩⟩, .keys [[98], [99]]),
      (⟨⟨1⟩, ⟨"new"⟩, ⟨1⟩⟩, .keys [[98]])]

def sampleLoad : Load where
  tablet := ⟨1⟩
  rowset := ⟨"new"⟩
  segments := [⟨0⟩, ⟨1⟩]
  targets := [⟨"old"⟩]
  endVersion := ⟨10⟩
  deleted := (∅ : DeleteBitmap).add ⟨⟨"old"⟩, ⟨0⟩, ⟨5⟩⟩ 0
  distinct := by decide
  isNew := by decide
  unmarked key place h := by
    rcases DeleteBitmap.hasMark_add.1 h with h | ⟨rfl, -⟩
    · exact absurd h DeleteBitmap.not_hasMark_empty
    · decide

/-- Both segments' comparisons mark the live row of the old rowset, and the
second segment supersedes the first row of the first one. -/
theorem keepsLatest_sample :
    sampleLoad.KeepsLatest sampleIndex
      (((∅ : DeleteBitmap).add ⟨⟨"new"⟩, ⟨0⟩, pendingVersion⟩ 0).add
        ⟨⟨"old"⟩, ⟨0⟩, pendingVersion⟩ 2) := by
  refine keepsLatest ⟨[(∅ : DeleteBitmap).add ⟨⟨"new"⟩, ⟨0⟩, pendingVersion⟩ 0,
    (∅ : DeleteBitmap).add ⟨⟨"old"⟩, ⟨0⟩, pendingVersion⟩ 2,
    (∅ : DeleteBitmap).add ⟨⟨"old"⟩, ⟨0⟩, pendingVersion⟩ 2], _, ?_,
    List.Perm.refl _, ?_⟩
  · decide +kernel
  · decide +kernel

end Load

end MergeOnWrite
