/-
Which keys are read as the key of an entry.

A key is read from its end. The last part is a version, the one before it a
segment and the one before that the name of a rowset; what stands in front of
the name, if it is set off by a slash, is not looked at. The numbers may be
spelled in any way, so a sign or fewer zeros than the key of an entry has do
not matter. Hence every entry is found again from its key, but a key from
which an entry is found need not be that of an entry: it may do without an
instance and a tablet.

The numbers in the key of an entry have one width each, ten characters and
twenty. The sign of a version below zero is one of the twenty and stands in
front, so that nineteen are left for the digits; the least version has no more.

# Main statements

- `parseEntry_eq_some_iff_parts`: the parts that a key is read by.
- `parseEntry_eq_some_iff`: what a key looks like that is read as an entry.
- `headless_key_is_read`: a key that is read and is not that of an entry.
- `entry_reads_back`: the key of an entry is read as what it was made from, and
  how wide its numbers are.
-/
import MergeOnWrite.Proofs.Key.Entry

namespace MergeOnWrite

theorem toOption_eq_some_iff {ε α : Type} {x : Except ε α} {a : α} :
    x.toOption = some a ↔ x = .ok a := by
  cases x with
  | ok b => simp [Except.toOption]
  | error e => simp [Except.toOption]

namespace Key

variable {key : Bytes} {rowset : RowsetId} {segment : SegmentId}
  {version : Version}

-- ================================================== parts

theorem notMem_slash_of_spells {cs : List Char} {n : Int}
    (h : Text.Spells cs n) : '/' ∉ cs := by
  intro hmem
  rcases h.mem hmem with hc | hc | hc
  · exact absurd hc (by decide)
  · exact absurd hc (by decide)
  · exact absurd hc (by decide)

/-- The last parts of a key are the numbers at its end. -/
theorem reverse_parts {a segmentText versionText : List Char}
    (hsegment : '/' ∉ segmentText) (hversion : '/' ∉ versionText) :
    (parts (a ++ '/' :: (segmentText ++ '/' :: versionText))).reverse
      = versionText :: segmentText :: (parts a).reverse := by
  rw [parts, Text.splitChars_append_cons, Text.splitChars_append hsegment,
    Text.splitChars_of_notMem hversion]
  simp [parts]

/-- A name is the last part of a text exactly if it stands at its end, behind
nothing or behind a slash. -/
theorem exists_reverse_parts_iff {name : String} (hname : '/' ∉ name.toList)
    {cs : List Char} : (∃ rest, (parts cs).reverse = name.toList :: rest)
      ↔ ∃ front : String, (front = "" ∨ ∃ rest, front = rest ++ "/")
        ∧ cs = front.toList ++ name.toList := by
  constructor
  · rintro ⟨rest, hparts⟩
    rcases Text.of_reverse_splitChars hparts with ⟨-, rfl⟩ | ⟨a, rfl, -⟩
    · exact ⟨"", .inl rfl, rfl⟩
    · refine ⟨.ofList a ++ "/", .inr ⟨_, rfl⟩, ?_⟩
      simp [String.toList_append]
  · rintro ⟨front, rfl | ⟨rest, rfl⟩, rfl⟩
    · exact ⟨[], by rw [parts]; simp [Text.splitChars_of_notMem hname]⟩
    · refine ⟨(parts rest.toList).reverse, ?_⟩
      rw [String.toList_append, List.append_assoc, parts,
        show "/".toList ++ name.toList = '/' :: name.toList from rfl,
        Text.splitChars_append_cons, Text.splitChars_of_notMem hname]
      simp [parts]

/-- A key is read by its last three parts: a rowset with a name that passes
the check, a segment without a minus sign, and a version. -/
theorem parseEntry_eq_some_iff_parts :
    parseEntry? key = some (rowset, segment, version)
      ↔ ∃ text segmentText versionText rest, key = .ofText text
        ∧ (parts text.toList).reverse
          = versionText :: segmentText :: rowset.text.toList :: rest
        ∧ rowset.IsValid
        ∧ ('-' ∉ segmentText
          ∧ Text.Spells segmentText (segment.val.toNat : Int))
        ∧ Text.Spells versionText version.val.toInt := by
  constructor
  · intro h
    unfold parseEntry? at h
    obtain ⟨text, htext, h⟩ := Option.bind_eq_some_iff.1 h
    refine ⟨text, ?_⟩
    split at h
    · rename_i versionText segmentText rowsetText rest hparts
      obtain ⟨v, hversion, h⟩ := Option.bind_eq_some_iff.1 h
      obtain ⟨s, hsegment, h⟩ := Option.bind_eq_some_iff.1 h
      obtain ⟨r, hrowset, h⟩ := Option.bind_eq_some_iff.1 h
      obtain ⟨rfl, rfl, rfl⟩ : r = rowset ∧ ⟨s⟩ = segment ∧ ⟨v⟩ = version := by
        simpa using h
      obtain ⟨hvalid, hname⟩ :=
        RowsetId.eq_of_ofText (toOption_eq_some_iff.1 hrowset)
      refine ⟨segmentText, versionText, rest, Bytes.eq_ofText_of_toText? htext,
        ?_, hvalid, ?_, ?_⟩
      · rw [hname, String.toList_ofList]
        exact hparts
      · exact Text.readUInt32_eq_ok_iff.1 (toOption_eq_some_iff.1 hsegment)
      · exact Text.readInt64_eq_ok_iff.1 (toOption_eq_some_iff.1 hversion)
    · cases h
  · rintro ⟨text, segmentText, versionText, rest, rfl, hparts, hvalid, hsegment,
      hversion⟩
    rw [parts] at hparts
    unfold parseEntry?
    simp only [Bytes.toText?_ofText, Option.bind_eq_bind, Option.bind_some,
      hparts]
    rw [Text.readInt64_eq_ok_iff.2 hversion,
      Text.readUInt32_eq_ok_iff.2 hsegment, String.ofList_toList,
      RowsetId.ofText_eq hvalid]
    rfl

-- ================================================== texts

/-- A key is read as an entry exactly if it is a name that passes the check, a
segment and a version with slashes between them, behind nothing or behind
anything that ends with a slash. -/
theorem parseEntry_eq_some_iff :
    parseEntry? key = some (rowset, segment, version)
      ↔ rowset.IsValid ∧ ∃ front segmentText versionText : String,
        (front = "" ∨ ∃ rest, front = rest ++ "/")
        ∧ key = .ofText (front ++ rowset.text ++ "/" ++ segmentText ++ "/"
          ++ versionText)
        ∧ ('-' ∉ segmentText.toList
          ∧ Text.Spells segmentText.toList (segment.val.toNat : Int))
        ∧ Text.Spells versionText.toList version.val.toInt := by
  rw [parseEntry_eq_some_iff_parts]
  constructor
  · rintro ⟨text, segmentText, versionText, rest, rfl, hparts, hvalid, hsegment,
      hversion⟩
    refine ⟨hvalid, ?_⟩
    rcases Text.of_reverse_splitChars hparts with ⟨hnil, -⟩ | ⟨a, htext, ha⟩
    · cases hnil
    rcases Text.of_reverse_splitChars ha with ⟨hnil, -⟩ | ⟨b, rfl, hb⟩
    · cases hnil
    obtain ⟨front, hends, rfl⟩ :=
      (exists_reverse_parts_iff (RowsetId.notMem_slash hvalid)).1 ⟨rest, hb⟩
    refine ⟨front, .ofList segmentText, .ofList versionText, hends, ?_, ?_, ?_⟩
    · refine congrArg Bytes.ofText (String.toList_inj.1 ?_)
      rw [htext]
      simp [String.toList_append]
    · rwa [String.toList_ofList]
    · rwa [String.toList_ofList]
  · rintro ⟨hvalid, front, segmentText, versionText, hends, rfl, hsegment,
      hversion⟩
    obtain ⟨rest, hlast⟩ := (exists_reverse_parts_iff
      (RowsetId.notMem_slash hvalid)).2 ⟨front, hends, rfl⟩
    refine ⟨_, segmentText.toList, versionText.toList, rest, rfl, ?_, hvalid,
      hsegment, hversion⟩
    have htext : (front ++ rowset.text ++ "/" ++ segmentText ++ "/"
        ++ versionText).toList
        = (front.toList ++ rowset.text.toList) ++ '/' :: (segmentText.toList
          ++ '/' :: versionText.toList) := by
      simp [String.toList_append]
    rw [htext, reverse_parts (notMem_slash_of_spells hsegment.2)
      (notMem_slash_of_spells hversion), hlast]

/-- Neither an instance nor a tablet is needed, nor the zeros that fill up the
numbers: what is read is the entry of a key that no entry has. -/
theorem headless_key_is_read :
    parseEntry? (.ofText "r/1/5") = some (⟨"r"⟩, ⟨1⟩, ⟨5⟩)
      ∧ ∀ (i : InstanceId) (tablet : TabletId) (entry : BitmapKey),
        i.IsValid → entry.rowset.IsValid →
          Bytes.ofText "r/1/5" ≠ entry.stored i tablet := by
  constructor
  · have hdigits : ∀ c n, c.isDigit = true → Nat.ofDigitChars 10 [c] 0 = n →
        Text.Spells [c] (n : Int) := fun c n hc hn =>
      .digits ⟨List.cons_ne_nil c [], by simpa using hc, hn⟩
    exact parseEntry_eq_some_iff_parts.2 ⟨"r/1/5", ['1'], ['5'], [], rfl,
      by decide, by decide, ⟨by decide, hdigits '1' 1 rfl rfl⟩,
      hdigits '5' 5 rfl rfl⟩
  · intro i tablet entry hi hentry heq
    have hparts := congrArg (parts ·.toList) (Bytes.ofText_inj heq)
    simp only [parts_entry hi hentry] at hparts
    have hlength : 3 = 6 := congrArg List.length hparts
    exact absurd hlength (by decide)

-- ================================================== entries

/-- The key of an entry ends with the parts of its rowset's name and the two
numbers, whatever the instance and the rowset are called. -/
theorem reverse_parts_entry (i : InstanceId) (tablet : TabletId)
    (rowset : RowsetId) (segment : SegmentId) (version : Version) :
    ∃ rest, (parts (entry i tablet rowset segment version).toList).reverse
      = Text.padded 20 version.val.toInt
        :: Text.padded 10 (segment.val.toNat : Int)
        :: ((parts rowset.text.toList).reverse ++ rest) := by
  -- the stem of the tablet ends with a slash, so that the name starts a part
  have hstem : (tabletStem i tablet).toList
      = (i.text ++ "/delete_bitmap/" ++ number tablet.val).toList ++ ['/'] := by
    simp [tabletStem, String.toList_append]
  rw [toList_entry, ← List.append_assoc, reverse_parts
    (notMem_slash_padded _ _) (notMem_slash_padded _ _), hstem,
    List.append_assoc, List.singleton_append, parts,
    Text.splitChars_append_cons, List.reverse_append]
  exact ⟨_, rfl⟩

/-- A key reads back as the rowset, the segment and the version that it was
made from, whichever numbers these are and whatever the instance is called.
Behind the stem of the rowset, the two numbers are spelled in ten and in
twenty characters, signs included. -/
theorem entry_reads_back (i : InstanceId) (tablet : TabletId)
    (hr : rowset.IsValid) (segment : SegmentId) (version : Version) :
    parseEntry? (.ofText (entry i tablet rowset segment version))
        = some (rowset, segment, version)
      ∧ ∃ segmentText versionText : String,
        entry i tablet rowset segment version
          = rowsetStem i tablet rowset ++ segmentText ++ "/" ++ versionText
        ∧ (segmentText.length = 10
          ∧ Text.Spells segmentText.toList (segment.val.toNat : Int))
        ∧ versionText.length = 20
          ∧ Text.Spells versionText.toList version.val.toInt := by
  have hsegment := Text.spells_padded 10 (segment.val.toNat : Int)
  have hversion := Text.spells_padded 20 version.val.toInt
  constructor
  · have hminus : '-' ∉ Text.padded 10 (segment.val.toNat : Int) :=
      (Text.digits_padded 10 segment.val.toNat).notMem rfl
    obtain ⟨rest, hparts⟩ :=
      reverse_parts_entry i tablet rowset segment version
    have hname : parts rowset.text.toList = [rowset.text.toList] :=
      Text.splitChars_of_notMem (RowsetId.notMem_slash hr)
    rw [hname, List.reverse_singleton, List.singleton_append] at hparts
    exact parseEntry_eq_some_iff_parts.2 ⟨_, _, _, rest, rfl, hparts, hr,
      ⟨hminus, hsegment⟩, hversion⟩
  · refine ⟨_, _, rfl, ⟨?_, ?_⟩, ?_, ?_⟩
    · rw [String.length_ofList, Text.length_padded_uint32]
    · rwa [String.toList_ofList]
    · rw [number, String.length_ofList, Text.length_padded_int64]
    · rwa [number, String.toList_ofList]

/-- The least version, the greatest segment, and names with characters of
several bytes. -/
theorem entry_reads_back_least :
    RowsetId.IsValid ⟨"ログ-α"⟩
      ∧ entry ⟨"größe"⟩ ⟨-7⟩ ⟨"ログ-α"⟩ ⟨0xFFFFFFFF⟩ ⟨Int64.minValue⟩
        = "größe/delete_bitmap/-0000000000000000007/ログ-α/4294967295/"
          ++ "-9223372036854775808"
      ∧ parseEntry? (.ofText
          (entry ⟨"größe"⟩ ⟨-7⟩ ⟨"ログ-α"⟩ ⟨0xFFFFFFFF⟩ ⟨Int64.minValue⟩))
        = some (⟨"ログ-α"⟩, ⟨0xFFFFFFFF⟩, ⟨Int64.minValue⟩) := by
  have hr : RowsetId.IsValid ⟨"ログ-α"⟩ := by decide
  exact ⟨hr, by decide, (entry_reads_back _ _ hr _ _).1⟩

end Key

end MergeOnWrite
