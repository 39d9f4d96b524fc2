/-
The delete bitmaps of all tablets, and the entries that hold them.

What callers store, remove and read are parts of one map, from instances
and tablets to delete bitmaps (`Bitmaps`). The store has an entry for every
key of every bitmap, at a key of its own; the relation is `Entries.Holds`.
Nothing else stands below the keys of a tablet, so a scan of a rowset finds
exactly the entries of its bitmap.

# Main statements

- `Entries.Holds.change`: entries hold another bitmap of one tablet, when
  the entries of that tablet are its entries and all others are the same.
- `Entries.Holds.mem_scan`: a scan of a rowset lists the entries of its
  bitmap.
-/
import MergeOnWrite.Proofs.DeleteBitmap.Select
import MergeOnWrite.Proofs.Key.Entry
import MergeOnWrite.Proofs.RowSet.RoundTrip
import MergeOnWrite.Proofs.Store.Snapshot

namespace MergeOnWrite

-- ================================================== all tablets

/-- The delete bitmaps of all tablets of all instances. -/
abbrev Bitmaps : Type := InstanceId → TabletId → DeleteBitmap

namespace Bitmaps

/-- Changes the bitmap of one tablet. -/
def change (m : Bitmaps) (name : String) (tablet : TabletId)
    (f : DeleteBitmap → DeleteBitmap) : Bitmaps := fun i t =>
  if i.text = name ∧ t = tablet then f (m i t) else m i t

theorem change_same (m : Bitmaps) (i : InstanceId) (tablet : TabletId)
    (f : DeleteBitmap → DeleteBitmap) :
    m.change i.text tablet f i tablet = f (m i tablet) :=
  if_pos ⟨rfl, rfl⟩

theorem change_other (m : Bitmaps) {i j : InstanceId} {tablet other : TabletId}
    (f : DeleteBitmap → DeleteBitmap) (h : ¬ (j = i ∧ other = tablet)) :
    m.change i.text tablet f j other = m j other :=
  if_neg fun ⟨htext, htablet⟩ => h ⟨InstanceId.text_inj.1 htext, htablet⟩

end Bitmaps

-- ================================================== entries

/-- True of entries that hold the bitmaps of all tablets, and nothing else
below the keys of tablets. -/
structure Entries.Holds (entries : Entries) (m : Bitmaps) : Prop where
  get?_stored : ∀ (i : InstanceId) tablet (key : BitmapKey), i.IsValid →
    key.rowset.IsValid →
    entries.get? (key.stored i tablet)
      = ((m i tablet).get? key).map RowSet.encode
  eq_stored : ∀ (i : InstanceId) (tablet : TabletId) bytes, i.IsValid →
    tablet.stem i <+: bytes → (entries.get? bytes).isSome →
    ∃ key : BitmapKey, key.rowset.IsValid ∧ bytes = key.stored i tablet
  isValid : ∀ i tablet (key : BitmapKey), ((m i tablet).get? key).isSome →
    key.rowset.IsValid

namespace Entries.Holds

variable {before after : Entries} {m : Bitmaps} {i : InstanceId}
  {tablet : TabletId} {f : DeleteBitmap → DeleteBitmap}

theorem empty : (∅ : Entries).Holds fun _ _ => ∅ :=
  ⟨fun _ _ _ _ _ => rfl, nofun, nofun⟩

/-- What stands below the keys of no tablet counts for nothing. -/
theorem congr (h : before.Holds m)
    (hsame : ∀ (i : InstanceId) (tablet : TabletId) bytes, i.IsValid →
      tablet.stem i <+: bytes → after.get? bytes = before.get? bytes) :
    after.Holds m := by
  refine ⟨fun i tablet key hi hkey => ?_,
    fun i tablet bytes hi hext hsome => ?_, h.isValid⟩
  · rw [hsame i tablet _ hi (key.stored_extends i tablet)]
    exact h.get?_stored i tablet key hi hkey
  · rw [hsame i tablet bytes hi hext] at hsome
    exact h.eq_stored i tablet bytes hi hext hsome

/-- Entries hold another bitmap of one tablet, when the entries of that
tablet are its entries and those of all others are the same. -/
theorem change (h : before.Holds m)
    (hothers : ∀ (j : InstanceId) (other : TabletId) bytes, j.IsValid →
      ¬ (j = i ∧ other = tablet) → other.stem j <+: bytes →
      after.get? bytes = before.get? bytes)
    (hget : ∀ key : BitmapKey, key.rowset.IsValid →
      after.get? (key.stored i tablet)
        = ((f (m i tablet)).get? key).map RowSet.encode)
    (hstored : ∀ bytes, tablet.stem i <+: bytes →
      (after.get? bytes).isSome →
      ∃ key : BitmapKey, key.rowset.IsValid ∧ bytes = key.stored i tablet)
    (hvalid : ∀ key : BitmapKey, ((f (m i tablet)).get? key).isSome →
      key.rowset.IsValid) :
    after.Holds (m.change i.text tablet f) := by
  refine ⟨fun j other key hj hkey => ?_, fun j other bytes hj hext hsome => ?_,
    fun j other key hsome => ?_⟩
  · by_cases hsame : j = i ∧ other = tablet
    · obtain ⟨rfl, rfl⟩ := hsame
      rw [Bitmaps.change_same]
      exact hget key hkey
    · rw [Bitmaps.change_other _ _ hsame,
        hothers j other _ hj hsame (key.stored_extends j other)]
      exact h.get?_stored j other key hj hkey
  · by_cases hsame : j = i ∧ other = tablet
    · obtain ⟨rfl, rfl⟩ := hsame
      exact hstored bytes hext hsome
    · rw [hothers j other bytes hj hsame hext] at hsome
      exact h.eq_stored j other bytes hj hext hsome
  · by_cases hsame : j = i ∧ other = tablet
    · obtain ⟨rfl, rfl⟩ := hsame
      rw [Bitmaps.change_same] at hsome
      exact hvalid key hsome
    · rw [Bitmaps.change_other _ _ hsame] at hsome
      exact h.isValid j other key hsome

/-- A scan of a rowset lists the entries of its bitmap. -/
theorem mem_scan (h : before.Holds m) (hi : i.IsValid) {rowset : RowsetId}
    (hrowset : rowset.IsValid) {e : Bytes × Bytes} :
    e ∈ (before.within (.extending
        (.ofText (Key.rowsetStem i tablet rowset)))).toList
      ↔ ∃ key rows, key.rowset = rowset
        ∧ (m i tablet).get? key = some rows
        ∧ e = (key.stored i tablet, rows.encode) := by
  obtain ⟨bytes, value⟩ := e
  rw [SortedMap.mem_toList_iff, Entries.get?_within]
  constructor
  · intro hget
    split at hget
    · rename_i hrange
      have hstem := KeyRange.contains_extending.1 hrange
      obtain ⟨key, hkey, rfl⟩ := h.eq_stored i tablet bytes hi
        ((Key.rowsetStem_extends i tablet rowset).trans hstem)
        (by rw [hget]; rfl)
      rw [h.get?_stored i tablet key hi hkey] at hget
      obtain ⟨rows, hrows, rfl⟩ := Option.map_eq_some_iff.1 hget
      have hsame :=
        (BitmapKey.rowsetStem_prefix_stored hi hkey hrowset).1 hstem
      exact ⟨key, rows, hsame, hrows, rfl⟩
    · cases hget
  · rintro ⟨key, rows, rfl, hrows, heq⟩
    obtain ⟨rfl, rfl⟩ := Prod.mk.inj heq
    rw [if_pos (KeyRange.contains_extending.2
        ((BitmapKey.rowsetStem_prefix_stored hi hrowset hrowset).2 rfl)),
      h.get?_stored i tablet key hi hrowset, hrows]
    rfl

end Entries.Holds

end MergeOnWrite
