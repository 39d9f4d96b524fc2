/-
Which rows of other rowsets a new segment replaces, and with which of its own.

The keys of the new segment are looked up in a table that each of its rows has
entered, so that a key finds the last row that has it (`get?_newest`). An old
row whose key finds one is marked unless it was deleted before, and the row
that was found is noted for the writer. So both what is marked and what is
noted are told by the old rows that are replaced (`Replaces`), and there is
something to tell the writer exactly if there is a mark.

When which question is asked, and what comes of the first one that fails, was
settled with the reads of a comparison.

# Main statements

- `get?_newest`: a key finds the last row that has it.
- `mem_replacing`: the rows that the writer is told of.
- `IsExact`, `cross_exact`: what a comparison comes to, whatever the index
  holds.
-/
import MergeOnWrite.Proofs.Calc.Inquiry
import MergeOnWrite.Proofs.Calc.LiveRows
import Mathlib.Data.List.Induction

namespace MergeOnWrite

-- ================================================== last rows

theorem isLast_concat {listing : List KeyedRow} {row last : KeyedRow}
    {key : Bytes} :
    IsLast (listing ++ [row]) key last
      ↔ row.key = key ∧ last = row ∨ row.key ≠ key ∧ IsLast listing key last := by
  constructor
  · rintro ⟨hkey, before, after, heq, hafter⟩
    rcases List.eq_nil_or_concat after with rfl | ⟨after, x, rfl⟩
    · obtain ⟨-, hrow⟩ := List.append_inj' heq rfl
      obtain rfl : row = last := List.cons.inj hrow |>.1
      exact .inl ⟨hkey, rfl⟩
    · rw [List.concat_eq_append, ← List.cons_append, ← List.append_assoc] at heq
      obtain ⟨hlisting, hrow⟩ := List.append_inj' heq rfl
      obtain rfl : row = x := List.cons.inj hrow |>.1
      refine .inr ⟨hafter row (by simp), hkey, before, after, hlisting, ?_⟩
      exact fun other hother => hafter other (by simp [hother])
  · rintro (⟨hkey, rfl⟩ | ⟨hne, hkey, before, after, rfl, hafter⟩)
    · exact ⟨hkey, listing, [], rfl, nofun⟩
    · refine ⟨hkey, before, after ++ [row], by simp, fun other hother => ?_⟩
      rcases List.mem_append.1 hother with hother | hother
      · exact hafter other hother
      · rw [List.mem_singleton.1 hother]
        exact hne

namespace CrossTask

variable {index : KeyIndex} {task : CrossTask} {newRows : SortedMap Bytes UInt32}
  {found : CrossFindings} {row : Nat}

/-- A key finds the last row that has it. -/
theorem get?_newest {rows : List KeyedRow} {key : Bytes} {newRow : UInt32} :
    (newest rows).get? key = some newRow
      ↔ ∃ last, IsLast rows key last ∧ newRow = last.place.toUInt32 := by
  induction rows using List.reverseRecOn with
  | nil =>
      refine iff_of_false nofun ?_
      rintro ⟨last, hlast, -⟩
      cases hlast.mem
  | append_singleton rest new ih =>
      simp only [isLast_concat]
      rw [newest, List.foldl_append]
      show ((newest rest).insert new.key new.place.toUInt32).get? key = _ ↔ _
      by_cases h : new.key = key
      · subst h
        rw [SortedMap.get?_insert_self]
        simp [eq_comm]
      · rw [SortedMap.get?_insert_of_ne _ _ (Ne.symm h), ih]
        simp [h]

-- ================================================== replaced rows

/-- True of the rows of the targets whose key is one of the new segment and
that were not deleted before. -/
def Replaces (task : CrossTask) (index : KeyIndex) (old : KeyedRow) : Prop :=
  old ∈ index.rowsOf task.tablet task.targets
    ∧ (∃ new ∈ index.rowsIn task.tablet task.rowset task.segment,
      new.key = old.key)
    ∧ ¬ task.DeletedBefore old

theorem place_lt_of_mem_rowsOf (hfits : index.FitsNumbers) {old : KeyedRow}
    {tablet : TabletId} {rowsets : List RowsetId}
    (h : old ∈ index.rowsOf tablet rowsets) : old.place < UInt32.size := by
  obtain ⟨target, -, h⟩ := List.mem_flatMap.1 h
  obtain ⟨segment, -, h⟩ := KeyIndex.mem_listing.1 h
  exact hfits.place_lt h

/-- One row adds the row that replaces it, if one does. -/
theorem mem_replacing_find {old : KeyedRow} (h : old.place < UInt32.size) :
    row ∈ (task.find newRows found old).replacing
      ↔ row ∈ found.replacing
        ∨ ¬ task.DeletedBefore old
          ∧ ∃ newRow, newRows.get? old.key = some newRow
            ∧ row = newRow.toNat := by
  have hdeleted : task.isDeleted old.rowset old.segment old.place.toUInt32 = true
      ↔ task.DeletedBefore old := by
    rw [isDeleted_iff, show old.place.toUInt32.toNat = old.place from
      Nat.mod_eq_of_lt h]
    exact Iff.rfl
  unfold find
  cases hnew : newRows.get? old.key with
  | none => simp
  | some newRow =>
      by_cases hd : task.isDeleted old.rowset old.segment old.place.toUInt32 = true
      · simp [hd, hdeleted.1 hd]
      · simp [hd, ← hdeleted, RowSet.mem_insert]

/-- The writer is told of the last rows with the keys of the rows that are
replaced. -/
theorem mem_replacing (hfits : index.FitsNumbers) :
    row ∈ (task.allFindings index).replacing
      ↔ ∃ old last, task.Replaces index old
        ∧ IsLast (index.rowsIn task.tablet task.rowset task.segment) old.key last
        ∧ row = last.place := by
  rw [allFindings, iff_of_foldl
    (fun found : CrossFindings => row ∈ found.replacing)
    (fun old => ¬ task.DeletedBefore old
      ∧ ∃ newRow, (newest (index.rowsIn task.tablet task.rowset
          task.segment)).get? old.key = some newRow ∧ row = newRow.toNat)
    fun found old hold =>
      mem_replacing_find (place_lt_of_mem_rowsOf hfits hold)]
  have hnumber : ∀ {key last},
      IsLast (index.rowsIn task.tablet task.rowset task.segment) key last →
        last.place.toUInt32.toNat = last.place := fun hlast =>
    Nat.mod_eq_of_lt (hfits.place_lt hlast.mem)
  simp only [get?_newest]
  constructor
  · rintro (h | ⟨old, hold, hlive, _, ⟨last, hlast, rfl⟩, rfl⟩)
    · exact absurd h (RowSet.not_mem_empty row)
    · exact ⟨old, last, ⟨hold, ⟨last, hlast.mem, hlast.1⟩, hlive⟩, hlast,
        hnumber hlast⟩
  · rintro ⟨old, last, ⟨hold, -, hlive⟩, hlast, rfl⟩
    exact .inr ⟨old, hold, hlive, _, ⟨last, hlast, rfl⟩, (hnumber hlast).symm⟩

/-- The writer is told of something if anything is replaced. -/
theorem replacing_isEmpty (hfits : index.FitsNumbers) :
    (task.allFindings index).replacing.isEmpty = true
      ↔ ¬ ∃ old, task.Replaces index old := by
  rw [RowSet.isEmpty_iff]
  constructor
  · rintro h ⟨old, hold⟩
    obtain ⟨last, hlast⟩ := exists_isLast hold.2.1
    exact h last.place ((mem_replacing hfits).2 ⟨old, last, hold, hlast, rfl⟩)
  · rintro h row hrow
    obtain ⟨old, _, hold, -⟩ := (mem_replacing hfits).1 hrow
    exact h ⟨old, hold⟩

-- ================================================== the comparison as a whole

/-- What a comparison with other rowsets comes to if it makes all its reads,
and its writer does not fail. -/
structure Completes (task : CrossTask) (index : KeyIndex) (marks : DeleteBitmap) :
    Prop where
  /-- The marks are those of the rows that are replaced, at the pending
  version. -/
  marked : ∀ key place, marks.HasMark key place
    ↔ ∃ old, task.Replaces index old ∧ key = old.entry pendingVersion
      ∧ place = old.place
  /-- A writer is called once if there is a mark, with the last rows of the new
  segment that have the keys of the marked rows. -/
  told : task.writer.isSome → (∃ key place, marks.HasMark key place) →
    ∃ rows, (task.run index).rewrites = [(task.segment, rows)]
      ∧ ∀ row, row ∈ rows ↔ ∃ old last, task.Replaces index old
        ∧ IsLast (index.rowsIn task.tablet task.rowset task.segment) old.key last
        ∧ row = last.place
  /-- Without a writer, or without a mark, none is called. -/
  untold : task.writer = none ∨ (¬ ∃ key place, marks.HasMark key place) →
    (task.run index).rewrites = []
  /-- It is called behind all reads. -/
  order : (task.inquire index).1 = (task.reads index).map .read
    ++ (task.run index).rewrites.map .rewrite

/-- What a comparison with other rowsets comes to. -/
structure IsExact (task : CrossTask) (index : KeyIndex) : Prop where
  /-- Asked question by question, it comes to the same. -/
  inquired : (task.inquire index).2 = (task.run index).result
  completes : (∀ r ∈ task.reads index, ∃ a, index.read r = .ok a) →
    (∀ writer, task.writer = some writer →
      writer.rewrite task.segment = .ok ()) →
    ∃ marks, (task.run index).result = .ok marks ∧ task.Completes index marks
  /-- The first read that fails is the last one, its error is the result, and
  the writer is not called. -/
  stops : ∀ {before r after e}, task.reads index = before ++ r :: after →
    (∀ r ∈ before, ∃ a, index.read r = .ok a) → index.read r = .error e →
    (task.run index).result = .error e ∧ (task.run index).rewrites = []
      ∧ (task.inquire index).1 = (before ++ [r]).map .read

theorem run_of_ok (hfits : index.FitsNumbers)
    (h : ∀ r ∈ task.reads index, ∃ a, index.read r = .ok a) :
    task.run index = task.conclude (task.allFindings index) := by
  rw [run_eq, findings_eq hfits, KeyIndex.goThrough_of_ok h]
  rfl

theorem run_of_error (hfits : index.FitsNumbers) {before after : List IndexRead}
    {r : IndexRead} {e : CalcError}
    (hreads : task.reads index = before ++ r :: after)
    (h : ∀ r ∈ before, ∃ a, index.read r = .ok a)
    (hr : index.read r = .error e) :
    task.run index = { result := .error e } := by
  rw [run_eq, findings_eq hfits, hreads, KeyIndex.goThrough_of_error h hr]
  rfl

/-- A writer that does not fail leaves the marks as they were found. -/
theorem result_conclude (h : ∀ writer, task.writer = some writer →
    writer.rewrite task.segment = .ok ()) (found : CrossFindings) :
    (task.conclude found).result = .ok found.marks := by
  unfold conclude
  cases hwriter : task.writer with
  | none => rfl
  | some writer =>
      cases hempty : found.replacing.isEmpty with
      | true => simp
      | false => simp [h writer hwriter, Except.map]

/-- A writer is called once, or not if there is nothing to tell it. -/
theorem rewrites_conclude (found : CrossFindings) :
    (task.conclude found).rewrites
      = if task.writer.isSome ∧ ¬ found.replacing.isEmpty then
          [(task.segment, found.replacing)]
        else [] := by
  unfold conclude
  cases task.writer with
  | none => rfl
  | some writer => cases found.replacing.isEmpty <;> simp

theorem completes_of_ok (hfits : index.FitsNumbers)
    (h : ∀ r ∈ task.reads index, ∃ a, index.read r = .ok a)
    (hwriter : ∀ writer, task.writer = some writer →
      writer.rewrite task.segment = .ok ()) :
    task.Completes index (task.allFindings index).marks := by
  have hrun := run_of_ok hfits h
  have hresult : (task.run index).result = .ok (task.allFindings index).marks :=
    hrun ▸ result_conclude hwriter _
  have hmarks : ∀ key place, (task.allFindings index).marks.HasMark key place
      ↔ ∃ old, task.Replaces index old ∧ key = old.entry pendingVersion
        ∧ place = old.place := by
    intro key place
    rw [hasMark_cross hresult]
    simp only [Replaces, and_assoc]
  have hany : (∃ key place, (task.allFindings index).marks.HasMark key place)
      ↔ (task.allFindings index).replacing.isEmpty ≠ true := by
    rw [Ne, replacing_isEmpty hfits, Classical.not_not]
    constructor
    · rintro ⟨key, place, hmark⟩
      obtain ⟨old, hold, -⟩ := (hmarks key place).1 hmark
      exact ⟨old, hold⟩
    · rintro ⟨old, hold⟩
      exact ⟨_, _, (hmarks _ _).2 ⟨old, hold, rfl, rfl⟩⟩
  constructor
  · exact hmarks
  · intro hsome hmark
    refine ⟨(task.allFindings index).replacing, ?_, fun row =>
      mem_replacing hfits⟩
    rw [hrun, rewrites_conclude, if_pos ⟨hsome, hany.1 hmark⟩]
  · intro hnot
    rw [hrun, rewrites_conclude, if_neg]
    rintro ⟨hsome, hmark⟩
    rcases hnot with hnone | hnone
    · rw [hnone] at hsome
      cases hsome
    · exact hnone (hany.2 hmark)
  · rw [inquire_eq hfits, KeyIndex.goThrough_of_ok h]

/-- A comparison with other rowsets marks exactly the rows that are replaced,
or fails as the first of its reads does that fails: whatever the index holds,
as long as its rows can be numbered. -/
theorem cross_exact (hfits : index.FitsNumbers) : task.IsExact index where
  inquired := by rw [inquire_eq hfits]
  completes h hwriter := by
    refine ⟨_, ?_, completes_of_ok hfits h hwriter⟩
    rw [run_of_ok hfits h, result_conclude hwriter]
  stops hreads h hr := by
    have hrun := run_of_error hfits hreads h hr
    refine ⟨by rw [hrun], by rw [hrun], ?_⟩
    rw [inquire_eq hfits, hrun, hreads, KeyIndex.goThrough_of_error h hr]
    exact List.append_nil _

/-- An old rowset that has keys twice and a new one that has, too. -/
def duplicates : KeyIndex :=
  ({} : KeyIndex).insertMany
    [(⟨⟨1⟩, ⟨"old"⟩, ⟨0⟩⟩, .keys [[98], [97], [98]]),
      (⟨⟨1⟩, ⟨"old"⟩, ⟨1⟩⟩, .keys [[99], [100]]),
      (⟨⟨1⟩, ⟨"new"⟩, ⟨0⟩⟩, .keys [[99], [98], [99]])]

/-- Of the rows of the old rowset, which is given twice, the first one was
deleted before, and the third one later than the comparison looks. -/
def duplicatesTask : CrossTask where
  tablet := ⟨1⟩
  rowset := ⟨"new"⟩
  segment := ⟨0⟩
  targets := [⟨"old"⟩, ⟨"old"⟩]
  endVersion := ⟨10⟩
  writer := some .accepting
  tabletBitmap := some (((∅ : DeleteBitmap).add ⟨⟨"old"⟩, ⟨0⟩, ⟨5⟩⟩ 0).add
    ⟨⟨"old"⟩, ⟨0⟩, ⟨11⟩⟩ 2)

theorem duplicates_fitsNumbers : duplicates.FitsNumbers := by
  intro ref keys h
  have hentry := KeyIndex.mem_entries_of_keys h
  simp only [duplicates, KeyIndex.insertMany, KeyIndex.insert, List.foldl_cons,
    List.foldl_nil, List.mem_cons, List.not_mem_nil, or_false, Prod.mk.injEq,
    SegmentKeys.keys.injEq] at hentry
  rcases hentry with ⟨-, rfl⟩ | ⟨-, rfl⟩ | ⟨-, rfl⟩ <;> decide

/-- The third row with the one key and the first one with the other are marked,
and the writer is told of the last row of the new segment with each. -/
theorem cross_exact_duplicates :
    duplicates.FitsNumbers ∧ duplicatesTask.IsExact duplicates
      ∧ (duplicatesTask.run duplicates).result = .ok
        (((∅ : DeleteBitmap).add ⟨⟨"old"⟩, ⟨0⟩, pendingVersion⟩ 2).add
          ⟨⟨"old"⟩, ⟨1⟩, pendingVersion⟩ 0)
      ∧ (duplicatesTask.run duplicates).rewrites
        = [(⟨0⟩, ((∅ : RowSet).insert 1).insert 2)] :=
  ⟨duplicates_fitsNumbers, cross_exact duplicates_fitsNumbers,
    by decide +kernel, by decide +kernel⟩

end CrossTask

end MergeOnWrite
