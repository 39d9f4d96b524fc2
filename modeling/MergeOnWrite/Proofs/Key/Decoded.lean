/-
The keys of entries whose rowset is named by a record.

A name is checked where it enters the program, but a key of a bitmap that is
read from a record takes the name as it stands there. So the name of a rowset
can have slashes in it, or blanks, or nothing at all, and it goes on into the
keys of the store. There it is cut at its slashes: the key is read as that of
the rowset which the last part names, and it lies among the entries of the
rowset which the first part names. Only for a name that would pass the check
are both parts the name itself.

# Main statements

- `ofJson?_toBytes`: whatever its rowset is called, a key reads back from its
  record.
- `parseEntry_stored`: the last part is the rowset that is read.
- `rowsetStem_prefix_stored_iff`: the first part is the rowset among whose
  entries the key lies.
- `stored_exact`: what becomes of a key that is read from a record.
- `slash_name_is_taken`: a record with a name that has a slash in it.
-/
import MergeOnWrite.Proofs.Json.Record
import MergeOnWrite.Proofs.Key.Parse
import MergeOnWrite.Records

namespace MergeOnWrite

-- ================================================== names

namespace RowsetId

variable {rowset : RowsetId}

/-- The part of a name in front of its first slash. -/
def firstPart (rowset : RowsetId) : String :=
  .ofList ((Key.parts rowset.text.toList).head (Text.splitChars_ne_nil _ _))

/-- The part of a name behind its last slash. -/
def lastPart (rowset : RowsetId) : String :=
  .ofList ((Key.parts rowset.text.toList).getLast (Text.splitChars_ne_nil _ _))

theorem parts_of_isValid (h : rowset.IsValid) :
    Key.parts rowset.text.toList = [rowset.text.toList] :=
  Text.splitChars_of_notMem (notMem_slash h)

/-- A name that passes the check is its own last part. -/
theorem lastPart_of_isValid (h : rowset.IsValid) :
    rowset.lastPart = rowset.text := by
  simp only [lastPart, parts_of_isValid h, List.getLast_singleton,
    String.ofList_toList]

/-- What stands in front of the first slash of a name, or in front of the one
behind it, is its first part. -/
theorem text_eq_firstPart (rowset : RowsetId) :
    '/' ∉ rowset.firstPart.toList
      ∧ ∃ rest, rowset.text.toList ++ ['/']
        = rowset.firstPart.toList ++ '/' :: rest := by
  rw [firstPart, String.toList_ofList]
  by_cases hmem : '/' ∈ rowset.text.toList
  · obtain ⟨a, b, hcut, ha⟩ := List.eq_append_cons_of_mem hmem
    have hparts : Key.parts rowset.text.toList = a :: Key.parts b := by
      rw [hcut]
      exact Text.splitChars_append ha
    simp only [hparts, List.head_cons]
    exact ⟨ha, b ++ ['/'], by rw [hcut, List.append_assoc]; rfl⟩
  · have hparts : Key.parts rowset.text.toList = [rowset.text.toList] :=
      Text.splitChars_of_notMem hmem
    simp only [hparts, List.head_cons]
    exact ⟨hmem, [], rfl⟩

end RowsetId

namespace BitmapKey

variable {i : InstanceId} {tablet : TabletId} {other : RowsetId}

-- ================================================== records

theorem ofJson?_toJson (key : BitmapKey) : ofJson? key.toJson = some key := by
  have hfields : key.toJson.fields? ["rowset", "segment", "version"]
      = some [.ofText key.rowset.text, .ofInt key.segment.val.toNat,
        .ofInt key.version.val.toInt] :=
    Json.fields?_ofMembers
      (show ["rowset", "segment", "version"].Nodup by decide)
  rw [ofJson?, hfields]
  simp only [Option.bind_eq_bind, Option.bind_some, Json.text?_ofText,
    Json.uint32?_ofInt, Json.int64?_ofInt, Option.pure_def]

/-- Whatever its rowset is called, a key reads back from its record. -/
theorem ofJson?_toBytes (key : BitmapKey) :
    (Json.ofBytes? key.toJson.toBytes).bind ofJson? = some key := by
  have hbytes : Json.ofBytes? key.toJson.toBytes = some key.toJson := by
    refine Json.ofBytes?_ofMembers fun member hmember => ?_
    rcases List.mem_cons.1 hmember with rfl | hmember
    · exact Json.isWellSpelt_ofText _
    · rcases List.mem_cons.1 hmember with rfl | hmember
      · exact Json.isWellSpelt_ofInt _
      · rw [List.mem_singleton.1 hmember]
        exact Json.isWellSpelt_ofInt _
  rw [hbytes, Option.bind_some, ofJson?_toJson]

-- ================================================== keys

/-- The key of an entry ends with the last part of the name and the numbers. -/
theorem reverse_parts_stored (key : BitmapKey) (i : InstanceId)
    (tablet : TabletId) :
    ∃ rest, (Key.parts (Key.entry i tablet key.rowset key.segment
        key.version).toList).reverse
      = Text.padded 20 key.version.val.toInt
        :: Text.padded 10 (key.segment.val.toNat : Int)
        :: key.rowset.lastPart.toList :: rest := by
  obtain ⟨rest, hparts⟩ :=
    Key.reverse_parts_entry i tablet key.rowset key.segment key.version
  have hlast : Key.parts key.rowset.text.toList
      = (Key.parts key.rowset.text.toList).dropLast
        ++ [key.rowset.lastPart.toList] := by
    rw [RowsetId.lastPart, String.toList_ofList]
    exact (List.dropLast_concat_getLast _).symm
  rw [hlast, List.reverse_concat, List.cons_append] at hparts
  exact ⟨_, hparts⟩

/-- The rowset that is read from the key of an entry is the one that the last
part of the name stands for. -/
theorem parseEntry_stored (key : BitmapKey) (i : InstanceId)
    (tablet : TabletId) :
    Key.parseEntry? (key.stored i tablet)
      = (RowsetId.ofText key.rowset.lastPart).toOption.map
        (·, key.segment, key.version) := by
  obtain ⟨rest, hparts⟩ := key.reverse_parts_stored i tablet
  rw [Key.parts] at hparts
  unfold Key.parseEntry? stored
  simp only [Bytes.toText?_ofText, Option.bind_eq_bind, Option.bind_some,
    hparts]
  rw [Text.readInt64_padded, Text.readUInt32_padded, String.ofList_toList]
  cases RowsetId.ofText key.rowset.lastPart with
  | ok rowset => rfl
  | error e => rfl

/-- The key of an entry reads back exactly if the name of its rowset passes
the check. -/
theorem parseEntry_stored_eq_self_iff (key : BitmapKey) (i : InstanceId)
    (tablet : TabletId) :
    Key.parseEntry? (key.stored i tablet)
        = some (key.rowset, key.segment, key.version)
      ↔ key.rowset.IsValid := by
  constructor
  · intro h
    rw [parseEntry_stored, Option.map_eq_some_iff] at h
    obtain ⟨rowset, hrowset, heq⟩ := h
    obtain rfl : rowset = key.rowset := congrArg Prod.fst heq
    exact (RowsetId.eq_of_ofText (toOption_eq_some_iff.1 hrowset)).1
  · intro h
    rw [parseEntry_stored, RowsetId.lastPart_of_isValid h,
      RowsetId.ofText_eq h]
    rfl

/-- The key of an entry lies among the entries of the rowset that the first
part of the name stands for, and of no other. -/
theorem rowsetStem_prefix_stored_iff (key : BitmapKey) (ho : other.IsValid) :
    Bytes.ofText (Key.rowsetStem i tablet other) <+: key.stored i tablet
      ↔ other.text = key.rowset.firstPart := by
  obtain ⟨hslash, rest, hname⟩ := key.rowset.text_eq_firstPart
  have hkey : (Key.entry i tablet key.rowset key.segment key.version).toList
      = (Key.tabletStem i tablet).toList
        ++ (key.rowset.firstPart.toList ++ '/' :: (rest
          ++ (Text.padded 10 (key.segment.val.toNat : Int)
            ++ '/' :: Text.padded 20 key.version.val.toInt))) := by
    rw [Key.toList_entry, ← List.singleton_append, ← List.append_assoc
      key.rowset.text.toList, hname]
    simp
  constructor
  · intro h
    obtain ⟨back, hback⟩ := Bytes.ofText_prefix h
    rw [hkey, Key.rowsetStem, String.toList_append, String.toList_append,
      List.append_assoc, List.append_assoc] at hback
    exact String.toList_inj.1 (Text.eq_of_append_cons
      (RowsetId.notMem_slash ho) hslash (List.append_cancel_left hback)).1
  · intro h
    have hstem : Key.entry i tablet key.rowset key.segment key.version
        = Key.rowsetStem i tablet other ++ .ofList (rest
          ++ (Text.padded 10 (key.segment.val.toNat : Int)
            ++ '/' :: Text.padded 20 key.version.val.toInt)) := by
      apply String.toList_inj.1
      rw [hkey, ← h]
      simp [Key.rowsetStem, String.toList_append]
    rw [stored, hstem, Bytes.ofText_append]
    exact List.prefix_append _ _

-- ================================================== records to keys

/-- Every key is read from some record, whatever its rowset is called, and goes
into the keys of the store as it is. There it reads back as itself exactly if
its rowset's name passes the check, and it lies among the entries of the one
rowset that is named by what stands in front of the first slash. -/
theorem stored_exact (key : BitmapKey) (i : InstanceId)
    (tablet : TabletId) (ho : other.IsValid) :
    (Json.ofBytes? key.toJson.toBytes).bind ofJson? = some key
      ∧ (Key.parseEntry? (key.stored i tablet)
          = some (key.rowset, key.segment, key.version)
        ↔ key.rowset.IsValid)
      ∧ (Bytes.ofText (Key.rowsetStem i tablet other) <+: key.stored i tablet
        ↔ other.text = key.rowset.firstPart) :=
  ⟨key.ofJson?_toBytes, key.parseEntry_stored_eq_self_iff i tablet,
    key.rowsetStem_prefix_stored_iff ho⟩

/-- A blank within a name is enough for the key not to read back, though the
key lies among no entries of other rowsets. -/
theorem stored_exact_blank :
    RowsetId.IsValid ⟨"a"⟩
      ∧ Key.parseEntry? (stored ⟨⟨"a b"⟩, ⟨0⟩, ⟨1⟩⟩ ⟨"acme"⟩ ⟨7⟩)
        ≠ some (⟨"a b"⟩, ⟨0⟩, ⟨1⟩)
      ∧ ¬ Bytes.ofText (Key.rowsetStem ⟨"acme"⟩ ⟨7⟩ ⟨"a"⟩)
        <+: stored ⟨⟨"a b"⟩, ⟨0⟩, ⟨1⟩⟩ ⟨"acme"⟩ ⟨7⟩ := by
  have ha : RowsetId.IsValid ⟨"a"⟩ := by decide
  obtain ⟨-, hparse, hstem⟩ := stored_exact
    ⟨⟨"a b"⟩, ⟨0⟩, ⟨1⟩⟩ ⟨"acme"⟩ ⟨7⟩ ha
  exact ⟨ha, fun h => absurd (hparse.1 h) (by decide),
    fun h => absurd (hstem.1 h) (by decide)⟩

/-- A record whose rowset has a slash in its name is read; the key of the entry
reads back as that of another rowset, and lies among the entries of a third
one. -/
theorem slash_name_is_taken :
    (Json.ofBytes? (.ofText
        "\x7b\"rowset\":\"a/b\",\"segment\":0,\"version\":1\x7d")).bind ofJson?
      = some ⟨⟨"a/b"⟩, ⟨0⟩, ⟨1⟩⟩
      ∧ ¬ RowsetId.IsValid ⟨"a/b"⟩ ∧ InstanceId.IsValid ⟨"acme"⟩
      ∧ Key.parseEntry? (stored ⟨⟨"a/b"⟩, ⟨0⟩, ⟨1⟩⟩ ⟨"acme"⟩ ⟨7⟩)
        = some (⟨"b"⟩, ⟨0⟩, ⟨1⟩)
      ∧ RowsetId.IsValid ⟨"a"⟩
      ∧ Bytes.ofText (Key.rowsetStem ⟨"acme"⟩ ⟨7⟩ ⟨"a"⟩)
        <+: stored ⟨⟨"a/b"⟩, ⟨0⟩, ⟨1⟩⟩ ⟨"acme"⟩ ⟨7⟩ := by
  have ha : RowsetId.IsValid ⟨"a"⟩ := by decide
  have htext : (toJson ⟨⟨"a/b"⟩, ⟨0⟩, ⟨1⟩⟩).render
      = "\x7b\"rowset\":\"a/b\",\"segment\":0,\"version\":1\x7d".toList := by
    decide
  refine ⟨?_, by decide, by decide, ?_, ha, ?_⟩
  · have hread := ofJson?_toBytes ⟨⟨"a/b"⟩, ⟨0⟩, ⟨1⟩⟩
    rwa [Json.toBytes, htext, String.ofList_toList] at hread
  · rw [parseEntry_stored]
    decide
  · exact (rowsetStem_prefix_stored_iff _ ha).2 (by decide)

end BitmapKey

end MergeOnWrite
