/-
Which rows a delete bitmap marks.

A mark is a row in the entry of a key. Additions and merges are told by the
marks that they leave; which entries there are, and whether one of them is
empty, is immaterial here. What is deleted at a version are the rows with a
mark of that version or an earlier one.

# Main statements

- `hasMark_mergeEntry`, `hasMark_add`, `hasMark_mergeAll`, `hasMark_ofList`:
  the marks of what additions and merges make.
- `containsAt_iff`: the listing is read as far as it is about a segment, and
  no mark of the segment is missed.
-/
import MergeOnWrite.Proofs.DeleteBitmap.Merge

namespace MergeOnWrite

namespace DeleteBitmap

/-- True of a bitmap that has a row in the entry of a key. -/
def HasMark (b : DeleteBitmap) (key : BitmapKey) (row : Nat) : Prop :=
  ∃ rows, b.get? key = some rows ∧ row ∈ rows

/-- True of the rows with a mark of a version or an earlier one. -/
def Deletes (b : DeleteBitmap) (rowset : RowsetId) (segment : SegmentId)
    (row : Nat) (version : Version) : Prop :=
  ∃ since : Version, since ≤ version ∧ b.HasMark ⟨rowset, segment, since⟩ row

variable {a b : DeleteBitmap} {key key' : BitmapKey} {row : Nat}

-- ================================================== what leaves marks

theorem not_hasMark_empty : ¬ (∅ : DeleteBitmap).HasMark key row := by
  rintro ⟨rows, h, -⟩
  cases h

/-- The rows of a bitmap's entries are joined. -/
theorem exists_mem_merge {held added : Option RowSet} :
    (∃ rows, Option.merge RowSet.union held added = some rows ∧ row ∈ rows)
      ↔ (∃ rows, held = some rows ∧ row ∈ rows)
        ∨ ∃ rows, added = some rows ∧ row ∈ rows := by
  cases held with
  | none => cases added <;> simp
  | some rows => cases added <;> simp

theorem hasMark_merge :
    (a.merge b).HasMark key row ↔ a.HasMark key row ∨ b.HasMark key row := by
  unfold HasMark
  rw [get?_merge]
  exact exists_mem_merge

theorem hasMark_mergeAll : ∀ {l : List DeleteBitmap} {b : DeleteBitmap},
    (b.mergeAll l).HasMark key row
      ↔ b.HasMark key row ∨ ∃ marks ∈ l, marks.HasMark key row := by
  intro l
  induction l with
  | nil => intro b; simp [mergeAll]
  | cons marks rest ih =>
      intro b
      show ((b.merge marks).mergeAll rest).HasMark key row ↔ _
      rw [ih, hasMark_merge, or_assoc]
      simp

/-- An entry that is merged in leaves marks of its rows, and no others. -/
theorem hasMark_mergeEntry {rows : RowSet} :
    (b.mergeEntry key' rows).HasMark key row
      ↔ b.HasMark key row ∨ key = key' ∧ row ∈ rows := by
  unfold HasMark
  by_cases h : key = key'
  · subst h
    have hentry : (b.mergeEntry key rows).get? key
        = Option.merge RowSet.union (b.get? key) (some rows) :=
      SortedMap.get?_insertWith_self ..
    rw [hentry, exists_mem_merge]
    simp
  · have hentry : (b.mergeEntry key' rows).get? key = b.get? key :=
      SortedMap.get?_insertWith_of_ne _ _ _ h
    rw [hentry]
    simp [h]

theorem hasMark_add {row' : UInt32} :
    (b.add key' row').HasMark key row
      ↔ b.HasMark key row ∨ key = key' ∧ row = row'.toNat := by
  rw [add, hasMark_mergeEntry, RowSet.mem_insert]
  simp only [RowSet.not_mem_empty, false_or]

/-- A bitmap that is gathered from entries has the marks of their rows. -/
theorem hasMark_ofList {entries : List (BitmapKey × RowSet)} :
    (ofList entries).HasMark key row
      ↔ ∃ e ∈ entries, e.1 = key ∧ row ∈ e.2 := by
  rw [ofList, iff_of_foldl (fun b : DeleteBitmap => b.HasMark key row)
    (fun e => e.1 = key ∧ row ∈ e.2)]
  · simp only [not_hasMark_empty, false_or]
  · intro b e _
    rw [hasMark_mergeEntry, eq_comm (a := key)]

-- ================================================== one segment

/-- Where whatever stands before a member that passes a test passes it as
well, a listing is taken as long as its members pass. -/
theorem mem_takeWhile_iff {α : Type} {R : α → α → Prop} {p : α → Bool} {x : α}
    (hdown : ∀ a b, R a b → p b = true → p a = true) :
    ∀ {l : List α}, l.Pairwise R →
      (x ∈ l.takeWhile p ↔ x ∈ l ∧ p x = true) := by
  intro l
  induction l with
  | nil => intro _; simp
  | cons a rest ih =>
      intro hl
      obtain ⟨ha, hrest⟩ := List.pairwise_cons.1 hl
      rw [List.takeWhile_cons]
      cases hpa : p a with
      | true =>
          rw [if_pos rfl, List.mem_cons, List.mem_cons, ih hrest]
          constructor
          · rintro (rfl | h)
            · exact ⟨.inl rfl, hpa⟩
            · exact ⟨.inr h.1, h.2⟩
          · rintro ⟨rfl | h, hx⟩
            · exact .inl rfl
            · exact .inr ⟨h, hx⟩
      | false =>
          rw [if_neg Bool.false_ne_true]
          refine iff_of_false (List.not_mem_nil) ?_
          rintro ⟨hx, hpx⟩
          rcases List.mem_cons.1 hx with rfl | hx
          · exact absurd (hpx.symm.trans hpa) (by decide)
          · exact absurd ((hdown a x (ha x hx) hpx).symm.trans hpa) (by decide)

/-- What is left of a listing of which such members have been taken are the
others. -/
theorem mem_dropWhile_iff {α : Type} {R : α → α → Prop} {p : α → Bool} {x : α}
    (hdown : ∀ a b, R a b → p b = true → p a = true) :
    ∀ {l : List α}, l.Pairwise R →
      (x ∈ l.dropWhile p ↔ x ∈ l ∧ p x = false) := by
  intro l
  induction l with
  | nil => intro _; simp
  | cons a rest ih =>
      intro hl
      obtain ⟨ha, hrest⟩ := List.pairwise_cons.1 hl
      rw [List.dropWhile_cons]
      cases hpa : p a with
      | true =>
          rw [if_pos rfl, ih hrest, List.mem_cons]
          constructor
          · exact fun h => ⟨.inr h.1, h.2⟩
          · rintro ⟨rfl | h, hx⟩
            · exact absurd (hx.symm.trans hpa) (by decide)
            · exact ⟨h, hx⟩
      | false =>
          rw [if_neg Bool.false_ne_true]
          refine ⟨fun hx => ⟨hx, ?_⟩, And.left⟩
          rcases List.mem_cons.1 hx with rfl | hx
          · exact hpa
          · cases hpx : p x with
            | false => rfl
            | true =>
                exact absurd ((hdown a x (ha x hx) hpx).symm.trans hpa)
                  (by decide)

/-- The least key of a segment. -/
def leastKey (rowset : RowsetId) (segment : SegmentId) : BitmapKey :=
  ⟨rowset, segment, ⟨Int64.minValue⟩⟩

/-- The order of keys: the first part that differs decides. -/
theorem compare_key (a b : BitmapKey) :
    compare a b = (compare a.rowset.bytes b.rowset.bytes).then
      ((compare a.segment.val b.segment.val).then
        (compare a.version.val b.version.val)) :=
  rfl

/-- No key of a segment is below its least one. -/
theorem compare_leastKey (key : BitmapKey) :
    compare key (leastKey key.rowset key.segment) ≠ .lt := by
  rw [compare_key, leastKey, Std.ReflOrd.compare_self,
    Std.ReflOrd.compare_self]
  show compare key.version.val Int64.minValue ≠ .lt
  rw [Ne, Std.compare_eq_lt, Int64.not_lt]
  exact Int64.minValue_le _

/-- What is between the least key of a segment and another key of it is of
the segment. -/
theorem of_segment_between {rowset : RowsetId} {segment : SegmentId}
    {a b : BitmapKey} (hleast : compare a (leastKey rowset segment) ≠ .lt)
    (hlt : compare a b = .lt)
    (hb : b.rowset = rowset ∧ b.segment = segment) :
    a.rowset = rowset ∧ a.segment = segment := by
  obtain ⟨rfl, rfl⟩ := hb
  rw [compare_key] at hleast hlt
  simp only [leastKey] at hleast
  cases hrowset : compare a.rowset.bytes b.rowset.bytes with
  | lt => simp [hrowset] at hleast
  | gt => simp [hrowset] at hlt
  | eq =>
      cases hsegment : compare a.segment.val b.segment.val with
      | lt => simp [hrowset, hsegment] at hleast
      | gt => simp [hrowset, hsegment] at hlt
      | eq =>
          obtain ⟨⟨text⟩, ⟨val⟩, version⟩ := a
          obtain ⟨⟨text'⟩, ⟨val'⟩, version'⟩ := b
          obtain rfl : text = text' :=
            Bytes.ofText_inj (Std.LawfulEqOrd.eq_of_compare hrowset)
          obtain rfl : val = val' := Std.LawfulEqOrd.eq_of_compare hsegment
          exact ⟨rfl, rfl⟩

/-- The entries of a segment are those of its keys. -/
theorem mem_segmentEntries {rowset : RowsetId} {segment : SegmentId}
    {entry : BitmapKey × RowSet} :
    entry ∈ b.segmentEntries rowset segment
      ↔ entry ∈ b.toList
        ∧ entry.1.rowset = rowset ∧ entry.1.segment = segment := by
  let below : BitmapKey × RowSet → Bool := fun e =>
    compare e.1 (leastKey rowset segment) = .lt
  let within : BitmapKey × RowSet → Bool := fun e =>
    e.1.rowset = rowset ∧ e.1.segment = segment
  -- what is left after the keys below the segment begins with its own
  have hrest : ∀ e, e ∈ b.toList.dropWhile below
      ↔ e ∈ b.toList ∧ below e = false := fun e =>
    mem_dropWhile_iff (p := below) (fun x y hxy hy => decide_eq_true
      (Std.TransCmp.lt_trans hxy (of_decide_eq_true hy))) b.entries.ascending
  have hsorted : (b.toList.dropWhile below).Pairwise fun x y =>
      compare x.1 (leastKey rowset segment) ≠ .lt
        ∧ compare x.1 y.1 = .lt := by
    refine List.Pairwise.imp_of_mem (fun hx _ hxy => ⟨?_, hxy⟩)
      (b.entries.ascending.sublist (List.dropWhile_sublist _))
    exact of_decide_eq_false ((hrest _).1 hx).2
  have hmem : entry ∈ b.segmentEntries rowset segment
      ↔ entry ∈ b.toList.dropWhile below ∧ within entry = true :=
    mem_takeWhile_iff (p := within) (fun x y hxy hy => decide_eq_true
      (of_segment_between hxy.1 hxy.2 (of_decide_eq_true hy))) hsorted
  rw [hmem, hrest, and_assoc]
  refine and_congr_right fun _ => ?_
  constructor
  · exact fun h => of_decide_eq_true h.2
  · rintro ⟨hr, hs⟩
    refine ⟨decide_eq_false ?_, decide_eq_true ⟨hr, hs⟩⟩
    rw [← hr, ← hs]
    exact compare_leastKey entry.1

/-- Reading the stretch of a segment misses none of its marks. -/
theorem containsAt_iff {rowset : RowsetId} {segment : SegmentId}
    {row : UInt32} {version : Version} :
    b.containsAt rowset segment row version = true
      ↔ b.Deletes rowset segment row.toNat version := by
  unfold containsAt
  rw [List.any_eq_true]
  constructor
  · rintro ⟨⟨key, rows⟩, hentry, hrow⟩
    obtain ⟨hmem, rfl, rfl⟩ := mem_segmentEntries.1 hentry
    obtain ⟨hversion, hrow⟩ := of_decide_eq_true hrow
    exact ⟨key.version, hversion, rows, SortedMap.mem_toList_iff.1 hmem, hrow⟩
  · rintro ⟨since, hversion, rows, hget, hrow⟩
    refine ⟨(⟨rowset, segment, since⟩, rows), ?_, decide_eq_true
      ⟨hversion, hrow⟩⟩
    exact mem_segmentEntries.2 ⟨SortedMap.mem_toList_iff.2 hget, rfl, rfl⟩

end DeleteBitmap

end MergeOnWrite
