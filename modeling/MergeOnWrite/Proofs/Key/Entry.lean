/-
The keys of the entries of delete bitmaps.

The key of an entry tells its rowset, its segment and its version, whatever
numbers these are, and a scan of what extends the stem of a rowset finds the
entries of that rowset and no others.

# Main statements

- `parse_entry`: the parts of an entry are read back from its key.
- `rowsetStem_prefix`: the key of an entry extends the stem of its own
  rowset only.
-/
import MergeOnWrite.DeleteBitmap
import MergeOnWrite.Proofs.Key.Separation
import MergeOnWrite.Proofs.Text.Spelling

namespace MergeOnWrite

theorem RowsetId.text_inj {a b : RowsetId} : a.text = b.text ↔ a = b := by
  obtain ⟨a⟩ := a
  obtain ⟨b⟩ := b
  exact (iff_of_eq (RowsetId.mk.injEq a b)).symm

theorem RowsetId.notMem_slash {r : RowsetId} (h : r.IsValid) :
    '/' ∉ r.text.toList :=
  IdKind.notMem_slash h

theorem RowsetId.ofText_eq {r : RowsetId} (h : r.IsValid) :
    RowsetId.ofText r.text = .ok r := by
  rw [ofText, show IdKind.rowsetName.check r.text = .ok () from h]
  rfl

theorem RowsetId.eq_of_ofText {name : String} {r : RowsetId}
    (h : RowsetId.ofText name = .ok r) : r.IsValid ∧ r.text = name := by
  unfold RowsetId.ofText at h
  cases hc : IdKind.rowsetName.check name with
  | ok u =>
      rw [hc] at h
      obtain rfl := Except.ok.inj h
      exact ⟨hc, rfl⟩
  | error e => rw [hc] at h; cases h

namespace Key

theorem notMem_slash_padded (width : Nat) (n : Int) :
    '/' ∉ Text.padded width n := by
  intro hmem
  rcases Text.mem_padded hmem with h | h
  · exact absurd h (by decide)
  · exact absurd h (by decide)

/-- The key of an entry, behind the stem of its tablet. -/
theorem toList_entry (i : InstanceId) (tablet : TabletId) (rowset : RowsetId)
    (segment : SegmentId) (version : Version) :
    (entry i tablet rowset segment version).toList
      = (tabletStem i tablet).toList ++ (rowset.text.toList
        ++ '/' :: (Text.padded 10 (segment.val.toNat : Int)
          ++ '/' :: Text.padded 20 version.val.toInt)) := by
  simp [entry, rowsetStem, number, String.toList_append]

theorem parts_rowsetStem_append {i : InstanceId} {rowset : RowsetId}
    (hi : i.IsValid) (hr : rowset.IsValid) (tablet : TabletId)
    (rest : List Char) :
    parts ((rowsetStem i tablet rowset).toList ++ rest)
      = i.text.toList :: "delete_bitmap".toList
        :: (number tablet.val).toList :: rowset.text.toList :: parts rest := by
  have hkey : (rowsetStem i tablet rowset).toList ++ rest
      = (tabletStem i tablet).toList
        ++ (rowset.text.toList ++ '/' :: rest) := by
    simp [rowsetStem, String.toList_append]
  rw [hkey, parts_tabletStem_append hi]
  exact congrArg (i.text.toList :: "delete_bitmap".toList
    :: (number tablet.val).toList :: ·)
    (Text.splitChars_append (RowsetId.notMem_slash hr))

theorem parts_entry {i : InstanceId} {rowset : RowsetId} (hi : i.IsValid)
    (hr : rowset.IsValid) (tablet : TabletId) (segment : SegmentId)
    (version : Version) :
    parts (entry i tablet rowset segment version).toList
      = [i.text.toList, "delete_bitmap".toList, (number tablet.val).toList,
        rowset.text.toList, Text.padded 10 (segment.val.toNat : Int),
        Text.padded 20 version.val.toInt] := by
  have hkey : (entry i tablet rowset segment version).toList
      = (rowsetStem i tablet rowset).toList
        ++ (Text.padded 10 (segment.val.toNat : Int)
          ++ '/' :: Text.padded 20 version.val.toInt) := by
    simp [entry, number, String.toList_append]
  rw [hkey, parts_rowsetStem_append hi hr, parts,
    Text.splitChars_append (notMem_slash_padded _ _),
    Text.splitChars_of_notMem (notMem_slash_padded _ _)]

/-- The parts of an entry are read back from its key. -/
theorem parse_entry {i : InstanceId} {rowset : RowsetId} (hi : i.IsValid)
    (hr : rowset.IsValid) (tablet : TabletId) (segment : SegmentId)
    (version : Version) :
    parseEntry? (.ofText (entry i tablet rowset segment version))
      = some (rowset, segment, version) := by
  have hparts := parts_entry hi hr tablet segment version
  rw [parts] at hparts
  unfold parseEntry?
  simp only [Bytes.toText?_ofText, Option.bind_eq_bind,
    Option.bind_some, hparts, List.reverse_cons, List.reverse_nil,
    List.nil_append, List.cons_append]
  rw [Text.readInt64_padded, Text.readUInt32_padded, String.ofList_toList,
    RowsetId.ofText_eq hr]
  rfl

/-- The key of an entry extends the stem of its own rowset only. -/
theorem rowsetStem_prefix {i : InstanceId} {rowset other : RowsetId}
    (hi : i.IsValid) (hr : rowset.IsValid) (ho : other.IsValid)
    (tablet : TabletId) (segment : SegmentId) (version : Version) :
    Bytes.ofText (rowsetStem i tablet other)
        <+: Bytes.ofText (entry i tablet rowset segment version)
      ↔ rowset = other := by
  constructor
  · intro h
    obtain ⟨rest, hrest⟩ := Bytes.ofText_prefix h
    have hparts := congrArg parts hrest
    rw [parts_rowsetStem_append hi ho, parts_entry hi hr] at hparts
    simp only [List.cons.injEq, String.toList_inj] at hparts
    exact RowsetId.text_inj.1 hparts.2.2.2.1.symm
  · rintro rfl
    exact entry_extends_rowset ..

end Key

/-- What the keys of a tablet's entries start with, as the store has it. -/
def TabletId.stem (tablet : TabletId) (i : InstanceId) : Bytes :=
  .ofText (Key.tabletStem i tablet)

namespace BitmapKey

/-- The key of an entry of a tablet, as the store has it. -/
def stored (key : BitmapKey) (i : InstanceId) (tablet : TabletId) : Bytes :=
  .ofText (Key.entry i tablet key.rowset key.segment key.version)

variable {i : InstanceId} {tablet : TabletId} {a b : BitmapKey}

theorem parse_stored (hi : i.IsValid) (ha : a.rowset.IsValid) :
    Key.parseEntry? (a.stored i tablet)
      = some (a.rowset, a.segment, a.version) :=
  Key.parse_entry hi ha ..

/-- Entries of a tablet have keys of their own. -/
theorem stored_inj (hi : i.IsValid) (ha : a.rowset.IsValid)
    (hb : b.rowset.IsValid) (h : a.stored i tablet = b.stored i tablet) :
    a = b := by
  have hparts := congrArg Key.parseEntry? h
  rw [parse_stored hi ha, parse_stored hi hb] at hparts
  obtain ⟨_, _, _⟩ := a
  obtain ⟨_, _, _⟩ := b
  cases hparts
  rfl

/-- Whatever text a rowset is named by, entries of a tablet have keys of their
own: no number has a slash in it, so a key is read from its end. -/
theorem stored_injective (i : InstanceId) (tablet : TabletId) :
    Function.Injective (stored · i tablet) := by
  intro a b h
  have hlist := congrArg String.toList (Bytes.ofText_inj h)
  rw [Key.toList_entry, Key.toList_entry] at hlist
  have hback := congrArg List.reverse (List.append_cancel_left hlist)
  simp only [List.reverse_append, List.reverse_cons, List.append_assoc,
    List.singleton_append] at hback
  have hslash : ∀ (width : Nat) (n : Int),
      '/' ∉ (Text.padded width n).reverse := fun width n hmem =>
    Key.notMem_slash_padded width n (List.mem_reverse.1 hmem)
  obtain ⟨hversion, hback⟩ :=
    Text.eq_of_append_cons (hslash _ _) (hslash _ _) hback
  obtain ⟨hsegment, hback⟩ :=
    Text.eq_of_append_cons (hslash _ _) (hslash _ _) hback
  obtain ⟨⟨rowset⟩, ⟨segment⟩, ⟨version⟩⟩ := a
  obtain ⟨⟨rowset'⟩, ⟨segment'⟩, ⟨version'⟩⟩ := b
  obtain rfl : rowset = rowset' :=
    String.toList_inj.1 (List.reverse_inj.1 hback)
  obtain rfl : segment = segment' := UInt32.toNat_inj.1
    (Int.ofNat_inj.1 (Text.padded_inj (List.reverse_inj.1 hsegment)))
  obtain rfl : version = version' :=
    Int64.toInt_inj.1 (Text.padded_inj (List.reverse_inj.1 hversion))
  rfl

theorem stored_extends (key : BitmapKey) (i : InstanceId)
    (tablet : TabletId) : tablet.stem i <+: key.stored i tablet :=
  Key.entry_extends ..

/-- The key of an entry extends the stem of its own rowset only. -/
theorem rowsetStem_prefix_stored {rowset : RowsetId} (hi : i.IsValid)
    (ha : a.rowset.IsValid) (hrowset : rowset.IsValid) :
    Bytes.ofText (Key.rowsetStem i tablet rowset) <+: a.stored i tablet
      ↔ a.rowset = rowset :=
  Key.rowsetStem_prefix hi ha hrowset ..

end BitmapKey

end MergeOnWrite
