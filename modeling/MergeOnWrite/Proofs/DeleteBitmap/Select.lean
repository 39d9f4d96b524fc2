/-
Entries of delete bitmaps that are replaced, removed and selected.

Each operation is told key by key. A selection may also be put together
entry by entry, in any order and with some of them taken twice
(`IsRestriction.mergeEntry`), as rows united with themselves are the same
rows.

# Main statements

- `get?_overwrite`, `get?_without`, `get?_select`: the entry of a key
  afterwards.
- `IsRestriction.eq_select`: what has been put together from the entries to
  select is the selection.
-/
import MergeOnWrite.Proofs.DeleteBitmap.Merge

namespace MergeOnWrite

namespace DeleteBitmap

/-- Replaces the entries of the keys that another bitmap has. -/
def overwrite (b new : DeleteBitmap) : DeleteBitmap :=
  ⟨b.entries.mergeWith (fun _ rows => rows) new.entries⟩

/-- Removes the entries of some rowsets. -/
def without (b : DeleteBitmap) (rowsets : List String) : DeleteBitmap :=
  ⟨b.entries.filter fun key _ => key.rowset.text ∉ rowsets⟩

/-- The entries of some rowsets between two versions. -/
def select (b : DeleteBitmap) (rowsets : List String)
    (first last : Version) : DeleteBitmap :=
  ⟨b.entries.filter fun key _ => key.rowset.text ∈ rowsets
    ∧ first ≤ key.version ∧ key.version ≤ last⟩

theorem get?_overwrite (b new : DeleteBitmap) (key : BitmapKey) :
    (b.overwrite new).get? key = (new.get? key).or (b.get? key) := by
  refine (SortedMap.get?_mergeWith ..).trans ?_
  show Option.merge _ (b.get? key) (new.get? key) = _
  cases b.get? key <;> cases new.get? key <;> rfl

theorem get?_without (b : DeleteBitmap) (rowsets : List String)
    (key : BitmapKey) :
    (b.without rowsets).get? key
      = if key.rowset.text ∈ rowsets then none else b.get? key := by
  refine (SortedMap.get?_filter ..).trans ?_
  show Option.filter _ (b.get? key) = _
  by_cases h : key.rowset.text ∈ rowsets <;> cases b.get? key <;> simp [h]

theorem get?_select (b : DeleteBitmap) (rowsets : List String)
    (first last : Version) (key : BitmapKey) :
    (b.select rowsets first last).get? key
      = if key.rowset.text ∈ rowsets ∧ first ≤ key.version
          ∧ key.version ≤ last then b.get? key else none := by
  refine (SortedMap.get?_filter ..).trans ?_
  show Option.filter _ (b.get? key) = _
  by_cases h : key.rowset.text ∈ rowsets ∧ first ≤ key.version
    ∧ key.version ≤ last <;> cases b.get? key <;> simp [h]

-- ================================================== restrictions

/-- True of a bitmap that has the entries of another at the keys of some
kind, and no others. -/
def IsRestriction (part whole : DeleteBitmap) (kind : BitmapKey → Prop) :
    Prop :=
  ∀ key rows, part.get? key = some rows
    ↔ kind key ∧ whole.get? key = some rows

namespace IsRestriction

variable {part whole : DeleteBitmap} {kind kind' : BitmapKey → Prop}

theorem empty (whole : DeleteBitmap) : IsRestriction ∅ whole fun _ => False :=
  fun _ _ => ⟨nofun, fun h => h.1.elim⟩

theorem congr (h : part.IsRestriction whole kind)
    (hkind : ∀ key, (whole.get? key).isSome → (kind key ↔ kind' key)) :
    part.IsRestriction whole kind' := by
  intro key rows
  rw [h key rows]
  refine and_congr_left fun hkey => hkind key ?_
  rw [hkey]
  rfl

/-- One more entry is taken, or one that has been taken before. -/
theorem mergeEntry (h : part.IsRestriction whole kind) {key : BitmapKey}
    {rows : RowSet} (hkey : whole.get? key = some rows) :
    (part.mergeEntry key rows).IsRestriction whole
      fun k => kind k ∨ k = key := by
  intro k other
  by_cases hk : k = key
  · subst hk
    -- what has been taken before are the same rows
    have hmerged : (part.mergeEntry k rows).get? k = some rows := by
      refine (SortedMap.get?_insertWith_self ..).trans ?_
      show Option.merge _ (part.get? k) (some rows) = _
      cases hpart : part.get? k with
      | none => rfl
      | some held =>
          have hheld := ((h k held).1 hpart).2
          obtain rfl := Option.some.inj (hkey.symm.trans hheld)
          exact congrArg some rows.union_self
    rw [hmerged, hkey]
    exact ⟨fun h => ⟨.inr rfl, h⟩, And.right⟩
  · have hother : (part.mergeEntry key rows).get? k = part.get? k :=
      SortedMap.get?_insertWith_of_ne _ _ _ hk
    rw [hother, h k other]
    simp only [hk, or_false]

/-- A part that is taken key by key is the selection. -/
theorem eq_select {rowsets : List String} {first last : Version}
    (h : part.IsRestriction whole fun key => key.rowset.text ∈ rowsets
      ∧ first ≤ key.version ∧ key.version ≤ last) :
    part = whole.select rowsets first last := by
  refine ext_get? fun key => Option.ext fun rows => ?_
  rw [h key rows, get?_select]
  split
  · rename_i hkind
    exact and_iff_right hkind
  · rename_i hkind
    exact ⟨fun h => absurd h.1 hkind, nofun⟩

end IsRestriction

end DeleteBitmap

end MergeOnWrite
