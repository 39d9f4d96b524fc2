/-
Keys that recur within a rowset.

The comparison within a new rowset goes back through its segments, and back
through the rows of each, and marks a row whose key it has passed. Told
forwards it marks the rows whose key recurs: at a later position of the list
of segments, or at a later row at the same position. The rows are listed with
their positions for this (`positioned`); they ascend by position and row, so
that one row stands behind another in the listing exactly if it is later
(`pair_sublist_iff`). Nothing is asked of the list of segments. A segment that
is listed twice recurs as a whole.

Once all segments can be read, nothing can stop the scan but a recurring key
at a row whose number does not fit. Which row that is depends on how far the
scan has come, so what it comes to is carried along with what it has passed
(`Comes`).

# Main statements

- `superseded_listing`: what stands behind a row, by position and row.
- `comes_run`: what the scan of all segments comes to.
- `MarksRecurring`, `marks_recurring`: exactly the rows with recurring keys are
  marked, and of each key the last row is not.
-/
import MergeOnWrite.Proofs.Calc.LiveRows

namespace MergeOnWrite

-- ================================================== later rows

/-- Where a listing ascends, two members stand in it one behind the other if
the one is above the other. -/
theorem pair_sublist_iff {α : Type} {R : α → α → Prop} {a b : α}
    (hasymm : ∀ x y, R x y → ¬ R y x) :
    ∀ {l : List α}, l.Pairwise R →
      ([a, b].Sublist l ↔ a ∈ l ∧ b ∈ l ∧ R a b) := by
  intro l
  induction l with
  | nil => intro _; simp
  | cons x rest ih =>
      intro hl
      obtain ⟨hx, hrest⟩ := List.pairwise_cons.1 hl
      rw [List.sublist_cons_iff, ih hrest]
      constructor
      · rintro (⟨ha, hb, hab⟩ | ⟨after, heq, hsub⟩)
        · exact ⟨List.mem_cons_of_mem _ ha, List.mem_cons_of_mem _ hb, hab⟩
        · obtain ⟨rfl, rfl⟩ := List.cons.inj heq
          have hb := List.singleton_sublist.1 hsub
          exact ⟨List.mem_cons_self .., List.mem_cons_of_mem _ hb, hx b hb⟩
      · rintro ⟨ha, hb, hab⟩
        rcases List.mem_cons.1 ha with rfl | ha' <;>
          rcases List.mem_cons.1 hb with rfl | hb'
        · exact absurd hab (hasymm _ _ hab)
        · exact .inr ⟨[b], rfl, List.singleton_sublist.2 hb'⟩
        · exact absurd (hx a ha') (hasymm _ _ hab)
        · exact .inl ⟨ha', hb', hab⟩

theorem ascending_zipIdx {α : Type} (l : List α) :
    l.zipIdx.Pairwise fun a b => a.2 < b.2 := by
  have hsnd : (l.zipIdx.map Prod.snd).Pairwise (· < ·) := by
    rw [List.zipIdx_map_snd]
    exact List.pairwise_lt_range'
  exact List.pairwise_map.1 hsnd

theorem Superseded.append_left {rows passed : List KeyedRow} {row : KeyedRow}
    (h : Superseded passed row) : Superseded (rows ++ passed) row := by
  obtain ⟨later, hsub, hkey⟩ := h
  exact ⟨later, hsub.trans (List.sublist_append_right ..), hkey⟩

namespace KeyIndex

/-- The key of a row of a segment. -/
def keyAt? (index : KeyIndex) (ref : SegmentRef) (place : Nat) :
    Option Bytes :=
  (index.readable ref)[place]?

variable {index : KeyIndex} {tablet : TabletId} {rowset : RowsetId}
  {segment : SegmentId} {segments : List SegmentId} {row : KeyedRow}

theorem mem_rowsIn_iff_keyAt? :
    row ∈ index.rowsIn tablet rowset segment
      ↔ row.rowset = rowset ∧ row.segment = segment
        ∧ index.keyAt? ⟨tablet, rowset, segment⟩ row.place = some row.key := by
  simp only [rowsIn_eq, List.mem_map, Prod.exists, List.mem_zipIdx_iff_getElem?]
  constructor
  · rintro ⟨key, place, hkey, rfl⟩
    exact ⟨rfl, rfl, hkey⟩
  · rintro ⟨rfl, rfl, hkey⟩
    exact ⟨row.key, row.place, hkey, rfl⟩

/-- The rows of a segment ascend. -/
theorem ascending_rowsIn :
    (index.rowsIn tablet rowset segment).Pairwise
      fun a b => a.place < b.place := by
  rw [rowsIn_eq]
  exact List.pairwise_map.2 (ascending_zipIdx _)

/-- The rows of some segments, each with the position of its segment. -/
def positioned (index : KeyIndex) (tablet : TabletId) (rowset : RowsetId)
    (segments : List SegmentId) : List (Nat × KeyedRow) :=
  segments.zipIdx.flatMap fun entry =>
    (index.rowsIn tablet rowset entry.1).map (entry.2, ·)

theorem mem_positioned {position : Nat} :
    (position, row) ∈ index.positioned tablet rowset segments
      ↔ row.rowset = rowset ∧ segments[position]? = some row.segment
        ∧ index.keyAt? ⟨tablet, rowset, row.segment⟩ row.place
          = some row.key := by
  simp only [positioned, List.mem_flatMap, List.mem_map, Prod.exists,
    List.mem_zipIdx_iff_getElem?, Prod.mk.injEq]
  constructor
  · rintro ⟨segment, _, hsegment, _, hrow, rfl, rfl⟩
    obtain ⟨hrowset, rfl, hkey⟩ := mem_rowsIn_iff_keyAt?.1 hrow
    exact ⟨hrowset, hsegment, hkey⟩
  · rintro ⟨hrowset, hsegment, hkey⟩
    exact ⟨row.segment, position, hsegment, row,
      mem_rowsIn_iff_keyAt?.2 ⟨hrowset, rfl, hkey⟩, rfl, rfl⟩

/-- By position, and at one position by row. -/
def Precedes (a b : Nat × KeyedRow) : Prop :=
  a.1 < b.1 ∨ a.1 = b.1 ∧ a.2.place < b.2.place

theorem ascending_positioned :
    (index.positioned tablet rowset segments).Pairwise Precedes := by
  refine List.pairwise_flatMap.2 ⟨fun entry _ => ?_, ?_⟩
  · exact List.pairwise_map.2 (ascending_rowsIn.imp fun h => .inr ⟨rfl, h⟩)
  · refine (ascending_zipIdx segments).imp fun h x hx y hy => .inl ?_
    obtain ⟨_, -, rfl⟩ := List.mem_map.1 hx
    obtain ⟨_, -, rfl⟩ := List.mem_map.1 hy
    exact h

theorem listing_eq_map_positioned :
    index.listing tablet rowset segments
      = (index.positioned tablet rowset segments).map Prod.snd := by
  calc index.listing tablet rowset segments
      = (segments.zipIdx.map Prod.fst).flatMap (index.rowsIn tablet rowset) := by
        rw [List.zipIdx_map_fst, listing]
    _ = (index.positioned tablet rowset segments).map Prod.snd := by
        rw [positioned, List.map_flatMap, List.flatMap_map]
        simp only [List.map_map, Function.comp_def, List.map_id']

/-- A row of some segments is superseded if its key stands at a later position
again, or at a later row at the same position. -/
theorem superseded_listing :
    Superseded (index.listing tablet rowset segments) row
      ↔ ∃ position later other,
        (position, row) ∈ index.positioned tablet rowset segments
        ∧ (later, other) ∈ index.positioned tablet rowset segments
        ∧ other.key = row.key ∧ Precedes (position, row) (later, other) := by
  have hasymm : ∀ a b : Nat × KeyedRow, Precedes a b → ¬ Precedes b a := by
    unfold Precedes
    omega
  have hpair : ∀ a b, [a, b].Sublist (index.positioned tablet rowset segments)
      ↔ a ∈ index.positioned tablet rowset segments
        ∧ b ∈ index.positioned tablet rowset segments ∧ Precedes a b :=
    fun _ _ => pair_sublist_iff hasymm ascending_positioned
  rw [Superseded, listing_eq_map_positioned]
  constructor
  · rintro ⟨other, hsub, hkey⟩
    obtain ⟨pair, hpairsub, heq⟩ := List.sublist_map_iff.1 hsub
    obtain ⟨⟨position, _⟩, rest, rfl, rfl, hrest⟩ := List.map_eq_cons_iff.1 heq.symm
    obtain ⟨⟨later, _⟩, _, rfl, rfl, hnil⟩ := List.map_eq_cons_iff.1 hrest
    obtain rfl := List.map_eq_nil_iff.1 hnil
    obtain ⟨hrow, hother, hbefore⟩ := (hpair _ _).1 hpairsub
    exact ⟨position, later, _, hrow, hother, hkey, hbefore⟩
  · rintro ⟨position, later, other, hrow, hother, hkey, hbefore⟩
    exact ⟨other, ((hpair _ _).2 ⟨hrow, hother, hbefore⟩).map Prod.snd, hkey⟩

end KeyIndex

namespace IntraTask

variable {index : KeyIndex} {task : IntraTask} {passed passed' : List KeyedRow}
  {found : IntraFindings}

/-- True of a row whose key recurs: at a later position of the segments, or at
a later row at the same position. -/
def Recurs (task : IntraTask) (index : KeyIndex) (segment : SegmentId)
    (place : Nat) : Prop :=
  ∃ (position later : Nat) (segment' : SegmentId) (place' : Nat) (key : Bytes),
    task.segments[position]? = some segment
    ∧ task.segments[later]? = some segment'
    ∧ index.keyAt? ⟨task.tablet, task.rowset, segment⟩ place = some key
    ∧ index.keyAt? ⟨task.tablet, task.rowset, segment'⟩ place' = some key
    ∧ (position < later ∨ position = later ∧ place < place')

/-- The rows that a scan marks are those whose keys recur. -/
theorem recurs_iff {segment : SegmentId} {place : Nat} :
    task.Recurs index segment place
      ↔ ∃ row, Superseded
          (index.listing task.tablet task.rowset task.segments) row
        ∧ row.rowset = task.rowset ∧ row.segment = segment
        ∧ row.place = place := by
  simp only [KeyIndex.superseded_listing, KeyIndex.mem_positioned]
  constructor
  · rintro ⟨position, later, segment', place', key, hsegment, hsegment', hkey,
      hkey', hbefore⟩
    exact ⟨⟨task.rowset, segment, place, key⟩, ⟨position, later,
      ⟨task.rowset, segment', place', key⟩, ⟨rfl, hsegment, hkey⟩,
      ⟨rfl, hsegment', hkey'⟩, rfl, hbefore⟩, rfl, rfl, rfl⟩
  · rintro ⟨row, ⟨position, later, other, ⟨-, hsegment, hkey⟩,
      ⟨-, hsegment', hkey'⟩, hsame, hbefore⟩, -, rfl, rfl⟩
    exact ⟨position, later, other.segment, other.place, row.key, hsegment,
      hsegment', hkey, hsame ▸ hkey', hbefore⟩

-- ================================================== what a scan comes to

/-- The error of a row whose number does not fit. -/
def rowError (task : IntraTask) (segment : SegmentId) (place : Nat) :
    CalcError :=
  .corrupt ⟨task.tablet, task.rowset, segment⟩
    ("row ordinal " ++ toString place ++ " exceeds u32")

/-- True of what a scan that has come back over some rows comes to: what it
has found of them, or the error of a superseded row whose number does not
fit. -/
def Comes (task : IntraTask) (passed : List KeyedRow) :
    Except CalcError IntraFindings → Prop
  | .ok found => Reached passed found
  | .error e => ∃ row, Superseded passed row ∧ row.rowset = task.rowset
    ∧ UInt32.size ≤ row.place ∧ e = task.rowError row.segment row.place

/-- A scan that goes on comes to what it does next, or to the error that has
stopped it. -/
theorem Comes.bind {result : Except CalcError IntraFindings}
    {next : IntraFindings → Except CalcError IntraFindings}
    (h : task.Comes passed result)
    (hmore : ∀ row, Superseded passed row → Superseded passed' row)
    (hnext : ∀ found, Reached passed found → task.Comes passed' (next found)) :
    task.Comes passed' (result >>= next) := by
  cases result with
  | ok found => exact hnext found h
  | error e =>
      obtain ⟨row, hrow, herror⟩ := h
      exact ⟨row, hmore row hrow, herror⟩

theorem comes_compareRow {segment : SegmentId} {entry : Bytes × Nat}
    (hr : Reached passed found) :
    task.Comes (⟨task.rowset, segment, entry.2, entry.1⟩ :: passed)
      (task.compareRow segment found entry) := by
  cases hresult : task.compareRow segment found entry with
  | ok found' => exact hr.compareRow hresult
  | error e =>
      unfold compareRow at hresult
      split at hresult
      · -- the key is that of a later row, and only the number can be at fault
        rename_i hseen
        unfold SegmentRef.rowAt at hresult
        split at hresult
        · cases hresult
        · rename_i hplace
          cases hresult
          exact ⟨_, superseded_cons.2 (.inr ⟨rfl, (hr.later _).1 hseen⟩), rfl,
            Nat.le_of_not_lt hplace, rfl⟩
      · cases hresult

theorem comes_compareRows {segment : SegmentId} (hr : Reached passed found) :
    ∀ {rows : List (Bytes × Nat)},
      task.Comes (rows.map (fun entry =>
          ⟨task.rowset, segment, entry.2, entry.1⟩) ++ passed)
        (rows.reverse.foldlM (task.compareRow segment) found) := by
  intro rows
  rw [List.foldlM_reverse]
  induction rows with
  | nil => exact hr
  | cons entry rest ih =>
      rw [List.foldrM_cons]
      exact ih.bind (fun row hrow => superseded_cons.2 (.inl hrow))
        fun found' hr' => comes_compareRow hr'

/-- True when the keys of all segments can be read. -/
def IsReadable (task : IntraTask) (index : KeyIndex) : Prop :=
  ∀ segment ∈ task.segments,
    ∃ keys, index.keys ⟨task.tablet, task.rowset, segment⟩ = .ok keys

theorem comes_compareSegment {segment : SegmentId} {keys : List Bytes}
    (hread : index.keys ⟨task.tablet, task.rowset, segment⟩ = .ok keys)
    (hr : Reached passed found) :
    task.Comes (index.rowsIn task.tablet task.rowset segment ++ passed)
      (task.compareSegment index found segment) := by
  have hrows : index.rows ⟨task.tablet, task.rowset, segment⟩
      = .ok keys.zipIdx := by
    rw [KeyIndex.rows, hread]
    rfl
  rw [KeyIndex.rowsIn_of_rows hrows, compareSegment, hrows]
  exact comes_compareRows hr

theorem comes_segments :
    ∀ {segments : List SegmentId},
      (∀ segment ∈ segments,
        ∃ keys, index.keys ⟨task.tablet, task.rowset, segment⟩ = .ok keys) →
        task.Comes (index.listing task.tablet task.rowset segments)
          (segments.reverse.foldlM (task.compareSegment index) {}) := by
  intro segments
  rw [List.foldlM_reverse]
  induction segments with
  | nil => intro _; exact Reached.nil
  | cons segment rest ih =>
      intro hread
      obtain ⟨keys, hkeys⟩ := hread segment (List.mem_cons_self ..)
      rw [List.foldrM_cons]
      exact (ih fun s hs => hread s (List.mem_cons_of_mem _ hs)).bind
        (fun row hrow => hrow.append_left)
        fun found hr => comes_compareSegment hkeys hr

-- ================================================== the comparison as a whole

/-- What a comparison within a rowset comes to, all of whose segments can be
read. -/
structure MarksRecurring (task : IntraTask) (index : KeyIndex) : Prop where
  /-- It succeeds if the rows with recurring keys have numbers that fit. -/
  succeeds : (∀ segment place, task.Recurs index segment place →
      place < UInt32.size) →
    ∃ marks, (task.run index).result = .ok marks
  /-- Otherwise it names one of the others. -/
  refuses : (∃ segment place, task.Recurs index segment place
      ∧ UInt32.size ≤ place) →
    ∃ segment place, task.Recurs index segment place ∧ UInt32.size ≤ place
      ∧ (task.run index).result = .error (task.rowError segment place)
  /-- A row is marked, at the pending version, if its key recurs. -/
  marks : ∀ {marks}, (task.run index).result = .ok marks →
    ∀ key place, marks.HasMark key place
      ↔ key.rowset = task.rowset ∧ key.version = pendingVersion
        ∧ task.Recurs index key.segment place
  /-- Without repetition in the list of segments, of the rows with a key
  exactly the last one stays unmarked. -/
  last : ∀ {marks}, (task.run index).result = .ok marks →
    task.segments.Nodup →
    ∀ k, (∃ row ∈ index.listing task.tablet task.rowset task.segments,
        row.key = k) →
      ∃ last, IsLast (index.listing task.tablet task.rowset task.segments) k last
        ∧ ∀ row ∈ index.listing task.tablet task.rowset task.segments,
          row.key = k → (¬ row.MarkedBy marks ↔ row = last)

theorem hasMark_iff_recurs {marks : DeleteBitmap} {key : BitmapKey}
    {place : Nat} (h : (task.run index).result = .ok marks) :
    marks.HasMark key place
      ↔ key.rowset = task.rowset ∧ key.version = pendingVersion
        ∧ task.Recurs index key.segment place := by
  rw [hasMark_intra h, recurs_iff]
  constructor
  · rintro ⟨row, hrow, rfl, rfl⟩
    have hrowset := KeyIndex.rowset_of_mem_listing hrow.mem
    exact ⟨hrowset, rfl, row, hrow, hrowset, rfl, rfl⟩
  · rintro ⟨hrowset, hversion, row, hrow, hrow', hsegment, rfl⟩
    refine ⟨row, hrow, ?_, rfl⟩
    obtain ⟨_, _, _⟩ := key
    subst hrowset hversion hsegment
    rw [KeyedRow.entry, hrow']

/-- A row of the listing is marked if a later one supersedes it. -/
theorem markedBy_iff_superseded {marks : DeleteBitmap} {row : KeyedRow}
    (h : (task.run index).result = .ok marks)
    (hrow : row ∈ index.listing task.tablet task.rowset task.segments) :
    row.MarkedBy marks
      ↔ Superseded (index.listing task.tablet task.rowset task.segments) row := by
  constructor
  · rintro ⟨version, hmark⟩
    obtain ⟨row', hrow', hentry, hplace⟩ := (hasMark_intra h).1 hmark
    obtain ⟨hrowset, hsegment, -⟩ := BitmapKey.mk.inj hentry
    exact KeyIndex.eq_of_place hrow hrow'.mem hrowset hsegment hplace ▸ hrow'
  · exact fun hs => ⟨pendingVersion, (hasMark_intra h).2 ⟨row, hs, rfl, rfl⟩⟩

theorem comes_run (hread : task.IsReadable index) :
    (∃ marks, (task.run index).result = .ok marks)
      ∨ ∃ segment place, task.Recurs index segment place
        ∧ UInt32.size ≤ place
        ∧ (task.run index).result = .error (task.rowError segment place) := by
  have hcomes := comes_segments hread
  unfold run
  cases hresult : task.segments.reverse.foldlM (task.compareSegment index) {} with
  | ok found => exact .inl ⟨found.marks, rfl⟩
  | error e =>
      rw [hresult] at hcomes
      obtain ⟨row, hrow, hrowset, hplace, rfl⟩ := hcomes
      exact .inr ⟨row.segment, row.place,
        recurs_iff.2 ⟨row, hrow, hrowset, rfl, rfl⟩, hplace, rfl⟩

/-- A comparison within a rowset marks exactly the rows whose keys recur,
whichever segments it is given in whichever order. -/
theorem marks_recurring (hread : task.IsReadable index) :
    task.MarksRecurring index where
  succeeds hfit := by
    rcases comes_run hread with h | ⟨segment, place, hrecurs, hplace, -⟩
    · exact h
    · exact absurd (hfit segment place hrecurs) (Nat.not_lt.2 hplace)
  refuses := by
    rintro ⟨segment, place, hrecurs, hplace⟩
    rcases comes_run hread with ⟨marks, h⟩ | h
    · -- a bitmap has no marks of such rows
      have hmark : marks.HasMark ⟨task.rowset, segment, pendingVersion⟩ place :=
        (hasMark_iff_recurs h).2 ⟨rfl, rfl, hrecurs⟩
      obtain ⟨rows, -, hrow⟩ := hmark
      exact absurd (RowSet.lt_bound_of_mem hrow) (Nat.not_lt.2 hplace)
    · exact h
  marks h _ _ := hasMark_iff_recurs h
  last h hnodup k hk := by
    obtain ⟨last, hlast⟩ := exists_isLast hk
    refine ⟨last, hlast, fun row hrow hkey => ?_⟩
    rw [markedBy_iff_superseded h hrow]
    constructor
    · intro hns
      by_contra hne
      exact hns (superseded_of_ne_last hlast hrow hkey hne)
    · rintro rfl
      exact not_superseded_last (KeyIndex.nodup_listing hnodup) hlast

/-- A rowset whose second segment was listed before the first one, and once
more after it. -/
def relisted : IntraTask where
  tablet := ⟨1⟩
  rowset := ⟨"new"⟩
  segments := [⟨1⟩, ⟨0⟩, ⟨1⟩]

/-- The rows of the segment that is listed twice recur all, those of the other
one only with a key of their own segment or of that one. -/
theorem marks_recurring_relisted :
    relisted.IsReadable Load.sampleIndex
      ∧ relisted.MarksRecurring Load.sampleIndex
      ∧ (relisted.run Load.sampleIndex).result = .ok
        (((∅ : DeleteBitmap).add ⟨⟨"new"⟩, ⟨0⟩, pendingVersion⟩ 0).add
          ⟨⟨"new"⟩, ⟨1⟩, pendingVersion⟩ 0) := by
  have hread : relisted.IsReadable Load.sampleIndex := by
    intro segment hsegment
    simp only [relisted, List.mem_cons, List.not_mem_nil, or_false] at hsegment
    rcases hsegment with rfl | rfl | rfl <;> exact ⟨_, rfl⟩
  exact ⟨hread, marks_recurring hread, by decide +kernel⟩

end IntraTask

end MergeOnWrite
