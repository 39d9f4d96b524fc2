/-
Keys tell what they are about.

The parts of a key stand between slashes, and neither the name of an
instance nor a number has a slash in it, so a key tells its parts
(`parts_tableLock` and those after it). Hence two records of the store
never share a key, and no lock and no statistics lie among the entries of
a tablet.

# Main statements

- `LockScope.key_inj`, `Key.stats_inj`: locks and statistics have keys of
  their own.
- `Key.tabletStem_disjoint`: no key extends the stems of two tablets.
- `not_extends_lock`, `not_extends_stats`: what lies among the entries of a
  tablet is neither a lock nor statistics.
-/
import MergeOnWrite.Lock.Kind
import MergeOnWrite.Proofs.Bytes
import MergeOnWrite.Proofs.Text.Items
import MergeOnWrite.Proofs.Text.Numeral

namespace MergeOnWrite

-- ================================================== parts

/-- A name that passes the check is not empty, and has no reserved character
in it. -/
theorem IdKind.of_check {kind : IdKind} {text : String}
    (h : kind.check text = .ok ()) :
    text ≠ "" ∧ ∀ c ∈ text.toList, isReserved c = false := by
  unfold IdKind.check at h
  split at h
  · cases h
  · rename_i hne
    split at h
    · cases h
    · split at h
      · cases h
      · rename_i hany
        refine ⟨hne, fun c hc => Bool.eq_false_iff.2 fun hreserved => ?_⟩
        exact hany (List.any_eq_true.2 ⟨c, hc, hreserved⟩)

theorem IdKind.notMem_slash {kind : IdKind} {text : String}
    (h : kind.check text = .ok ()) : '/' ∉ text.toList := by
  intro hmem
  exact absurd ((of_check h).2 '/' hmem) (by decide)

theorem InstanceId.notMem_slash {i : InstanceId} (h : i.IsValid) :
    '/' ∉ i.text.toList :=
  IdKind.notMem_slash h

theorem InstanceId.ofText_eq {i : InstanceId} (h : i.IsValid) :
    InstanceId.ofText i.text = .ok i := by
  rw [ofText, show IdKind.instanceName.check i.text = .ok () from h]
  rfl

theorem InstanceId.isValid_of_ofText {name : String} {i : InstanceId}
    (h : InstanceId.ofText name = .ok i) : i.IsValid := by
  unfold InstanceId.ofText at h
  cases hc : IdKind.instanceName.check name with
  | ok u =>
      rw [hc] at h
      obtain rfl := Except.ok.inj h
      exact hc
  | error e => rw [hc] at h; cases h

theorem InstanceId.text_inj {a b : InstanceId} : a.text = b.text ↔ a = b := by
  obtain ⟨a⟩ := a
  obtain ⟨b⟩ := b
  exact (iff_of_eq (InstanceId.mk.injEq a b)).symm

theorem InstanceId.text_of_ofText {name : String} {i : InstanceId}
    (h : InstanceId.ofText name = .ok i) : i.text = name := by
  unfold InstanceId.ofText at h
  cases hc : IdKind.instanceName.check name with
  | ok u =>
      rw [hc] at h
      obtain rfl := Except.ok.inj h
      rfl
  | error e => rw [hc] at h; cases h

namespace Key

theorem notMem_slash_number (n : Int64) : '/' ∉ (number n).toList := by
  intro hmem
  rw [number, String.toList_ofList] at hmem
  rcases Text.mem_padded hmem with h | h
  · exact absurd h (by decide)
  · exact absurd h (by decide)

theorem number_inj {m n : Int64} (h : (number m).toList = (number n).toList) :
    m = n := by
  rw [number, number, String.toList_ofList, String.toList_ofList] at h
  exact Int64.toInt_inj.1 (Text.padded_inj h)

/-- The parts of a key. -/
def parts (key : List Char) : List (List Char) := Text.splitChars '/' key

theorem parts_tableLock {i : InstanceId} (h : i.IsValid) (table : TableId) :
    parts (tableLock i table).toList
      = [i.text.toList, "delete_bitmap_lock".toList, "v1".toList,
        (number table.val).toList] := by
  have hkey : (tableLock i table).toList
      = i.text.toList ++ '/' :: ("delete_bitmap_lock".toList
        ++ '/' :: ("v1".toList ++ '/' :: (number table.val).toList)) := by
    simp [tableLock, String.toList_append]
  rw [parts, hkey, Text.splitChars_append (InstanceId.notMem_slash h),
    Text.splitChars_append (by decide), Text.splitChars_append (by decide),
    Text.splitChars_of_notMem (notMem_slash_number _)]

theorem parts_tabletLock {i : InstanceId} (h : i.IsValid) (table : TableId)
    (tablet : TabletId) :
    parts (tabletLock i table tablet).toList
      = [i.text.toList, "delete_bitmap_lock".toList, "v2".toList,
        (number table.val).toList, (number tablet.val).toList] := by
  have hkey : (tabletLock i table tablet).toList
      = i.text.toList ++ '/' :: ("delete_bitmap_lock".toList
        ++ '/' :: ("v2".toList ++ '/' :: ((number table.val).toList
        ++ '/' :: (number tablet.val).toList))) := by
    simp [tabletLock, String.toList_append]
  rw [parts, hkey, Text.splitChars_append (InstanceId.notMem_slash h),
    Text.splitChars_append (by decide), Text.splitChars_append (by decide),
    Text.splitChars_append (notMem_slash_number _),
    Text.splitChars_of_notMem (notMem_slash_number _)]

theorem parts_stats {i : InstanceId} (h : i.IsValid) (table : TableId)
    (tablet : TabletId) :
    parts (stats i table tablet).toList
      = [i.text.toList, "tablet_stats".toList, (number table.val).toList,
        (number tablet.val).toList] := by
  have hkey : (stats i table tablet).toList
      = i.text.toList ++ '/' :: ("tablet_stats".toList
        ++ '/' :: ((number table.val).toList
        ++ '/' :: (number tablet.val).toList)) := by
    simp [stats, String.toList_append]
  rw [parts, hkey, Text.splitChars_append (InstanceId.notMem_slash h),
    Text.splitChars_append (by decide),
    Text.splitChars_append (notMem_slash_number _),
    Text.splitChars_of_notMem (notMem_slash_number _)]

theorem parts_tabletStem_append {i : InstanceId} (h : i.IsValid)
    (tablet : TabletId) (rest : List Char) :
    parts ((tabletStem i tablet).toList ++ rest)
      = i.text.toList :: "delete_bitmap".toList
        :: (number tablet.val).toList :: parts rest := by
  have hkey : (tabletStem i tablet).toList ++ rest
      = i.text.toList ++ '/' :: ("delete_bitmap".toList
        ++ '/' :: ((number tablet.val).toList ++ '/' :: rest)) := by
    simp [tabletStem, String.toList_append]
  rw [parts, hkey, Text.splitChars_append (InstanceId.notMem_slash h),
    Text.splitChars_append (by decide),
    Text.splitChars_append (notMem_slash_number _)]
  rfl

end Key

-- ================================================== separation

theorem LockScope.key_inj {i j : InstanceId} {a b : LockScope}
    (hi : i.IsValid) (hj : j.IsValid) (h : a.key i = b.key j) :
    i = j ∧ a = b := by
  have hparts := congrArg (Key.parts ·.toList) h
  cases a with
  | table t =>
      cases b with
      | table u =>
          simp only [key, Key.parts_tableLock hi, Key.parts_tableLock hj,
            List.cons.injEq, String.toList_inj] at hparts
          obtain ⟨htext, -, -, hnumber, -⟩ := hparts
          obtain ⟨i⟩ := i
          obtain ⟨j⟩ := j
          obtain ⟨t⟩ := t
          obtain ⟨u⟩ := u
          obtain rfl : i = j := htext
          obtain rfl : t = u :=
            Key.number_inj (congrArg String.toList hnumber)
          exact ⟨rfl, rfl⟩
      | tablet u v =>
          simp only [key, Key.parts_tableLock hi, Key.parts_tabletLock hj,
            List.cons.injEq] at hparts
          exact absurd hparts.2.2.1 (by decide)
  | tablet t s =>
      cases b with
      | table u =>
          simp only [key, Key.parts_tabletLock hi, Key.parts_tableLock hj,
            List.cons.injEq] at hparts
          exact absurd hparts.2.2.1 (by decide)
      | tablet u v =>
          simp only [key, Key.parts_tabletLock hi, Key.parts_tabletLock hj,
            List.cons.injEq, String.toList_inj] at hparts
          obtain ⟨htext, -, -, htable, htablet, -⟩ := hparts
          obtain ⟨i⟩ := i
          obtain ⟨j⟩ := j
          obtain ⟨t⟩ := t
          obtain ⟨u⟩ := u
          obtain ⟨s⟩ := s
          obtain ⟨v⟩ := v
          obtain rfl : i = j := htext
          obtain rfl : t = u :=
            Key.number_inj (congrArg String.toList htable)
          obtain rfl : s = v :=
            Key.number_inj (congrArg String.toList htablet)
          exact ⟨rfl, rfl⟩

/-- The key of a lock tells its instance, and that it is one of a lock. -/
theorem LockScope.parts_key {i : InstanceId} (h : i.IsValid)
    (scope : LockScope) :
    ∃ rest, Key.parts (scope.key i).toList
      = i.text.toList :: "delete_bitmap_lock".toList :: rest := by
  cases scope with
  | table table => exact ⟨_, Key.parts_tableLock h table⟩
  | tablet table tablet => exact ⟨_, Key.parts_tabletLock h table tablet⟩

theorem LockScope.key_ne_stats {i j : InstanceId} {scope : LockScope}
    {table : TableId} {tablet : TabletId} (hi : i.IsValid) (hj : j.IsValid) :
    scope.key i ≠ Key.stats j table tablet := by
  intro h
  obtain ⟨rest, hscope⟩ := scope.parts_key hi
  have hparts := congrArg (Key.parts ·.toList) h
  simp only [hscope, Key.parts_stats hj, List.cons.injEq] at hparts
  exact absurd hparts.2.1 (by decide)

namespace Key

theorem stats_inj {i j : InstanceId} {t u : TableId} {a b : TabletId}
    (hi : i.IsValid) (hj : j.IsValid) (h : stats i t a = stats j u b) :
    i = j ∧ t = u ∧ a = b := by
  have hparts := congrArg (parts ·.toList) h
  simp only [parts_stats hi, parts_stats hj, List.cons.injEq,
    String.toList_inj] at hparts
  obtain ⟨htext, -, htable, htablet, -⟩ := hparts
  obtain ⟨i⟩ := i
  obtain ⟨j⟩ := j
  obtain ⟨t⟩ := t
  obtain ⟨u⟩ := u
  obtain ⟨a⟩ := a
  obtain ⟨b⟩ := b
  obtain rfl : i = j := htext
  obtain rfl : t = u := number_inj (congrArg String.toList htable)
  obtain rfl : a = b := number_inj (congrArg String.toList htablet)
  exact ⟨rfl, rfl, rfl⟩

/-- No stem of a tablet extends that of another. -/
theorem tabletStem_inj {i j : InstanceId} {a b : TabletId} (hi : i.IsValid)
    (hj : j.IsValid)
    (h : (tabletStem i a).toList <+: (tabletStem j b).toList) :
    i = j ∧ a = b := by
  obtain ⟨rest, hrest⟩ := h
  have hparts := congrArg parts hrest
  rw [← List.append_nil (tabletStem j b).toList, parts_tabletStem_append hi,
    parts_tabletStem_append hj] at hparts
  simp only [List.cons.injEq, String.toList_inj] at hparts
  obtain ⟨htext, -, hnumber, -⟩ := hparts
  obtain ⟨i⟩ := i
  obtain ⟨j⟩ := j
  obtain ⟨a⟩ := a
  obtain ⟨b⟩ := b
  obtain rfl : i = j := htext
  obtain rfl : a = b := number_inj (congrArg String.toList hnumber)
  exact ⟨rfl, rfl⟩

/-- No key extends the stems of two tablets. -/
theorem tabletStem_disjoint {i j : InstanceId} {a b : TabletId} {key : Bytes}
    (hi : i.IsValid) (hj : j.IsValid)
    (ha : Bytes.ofText (tabletStem i a) <+: key)
    (hb : Bytes.ofText (tabletStem j b) <+: key) : i = j ∧ a = b := by
  rcases List.prefix_or_prefix_of_prefix ha hb with h | h
  · exact tabletStem_inj hi hj (Bytes.ofText_prefix h)
  · obtain ⟨rfl, rfl⟩ := tabletStem_inj hj hi (Bytes.ofText_prefix h)
    exact ⟨rfl, rfl⟩

/-- No lock lies among the entries of a tablet. -/
theorem not_extends_lock {i j : InstanceId} {tablet : TabletId}
    {scope : LockScope} (hi : i.IsValid) (hj : j.IsValid) :
    ¬ Bytes.ofText (tabletStem i tablet) <+: Bytes.ofText (scope.key j) := by
  intro h
  obtain ⟨rest, hrest⟩ := Bytes.ofText_prefix h
  obtain ⟨others, hscope⟩ := scope.parts_key hj
  have hparts := congrArg parts hrest
  rw [parts_tabletStem_append hi, hscope] at hparts
  exact absurd (List.cons.inj (List.cons.inj hparts).2).1 (by decide)

/-- No statistics lie among the entries of a tablet. -/
theorem not_extends_stats {i j : InstanceId} {a b : TabletId} {table : TableId}
    (hi : i.IsValid) (hj : j.IsValid) :
    ¬ Bytes.ofText (tabletStem i a) <+: Bytes.ofText (stats j table b) := by
  intro h
  obtain ⟨rest, hrest⟩ := Bytes.ofText_prefix h
  have hparts := congrArg parts hrest
  rw [parts_tabletStem_append hi, parts_stats hj] at hparts
  exact absurd (List.cons.inj (List.cons.inj hparts).2).1 (by decide)

/-- The entries of a rowset lie among those of its tablet. -/
theorem rowsetStem_extends (i : InstanceId) (tablet : TabletId)
    (rowset : RowsetId) :
    Bytes.ofText (tabletStem i tablet)
      <+: Bytes.ofText (rowsetStem i tablet rowset) := by
  rw [rowsetStem, Bytes.ofText_append, Bytes.ofText_append, List.append_assoc]
  exact List.prefix_append ..

theorem entry_extends_rowset (i : InstanceId) (tablet : TabletId)
    (rowset : RowsetId) (segment : SegmentId) (version : Version) :
    Bytes.ofText (rowsetStem i tablet rowset)
      <+: Bytes.ofText (entry i tablet rowset segment version) := by
  rw [entry, Bytes.ofText_append, Bytes.ofText_append, Bytes.ofText_append,
    List.append_assoc, List.append_assoc]
  exact List.prefix_append ..

theorem entry_extends (i : InstanceId) (tablet : TabletId) (rowset : RowsetId)
    (segment : SegmentId) (version : Version) :
    Bytes.ofText (tabletStem i tablet)
      <+: Bytes.ofText (entry i tablet rowset segment version) :=
  (rowsetStem_extends i tablet rowset).trans (entry_extends_rowset ..)

end Key

-- ================================================== scopes of requests

/-- The scopes that a request names have keys of their own. -/
theorem LockScope.pairwise_ofRequest {i : InstanceId} {version : LockVersion}
    {table : TableId} {tablets : List TabletId} {scopes : List LockScope}
    (hi : i.IsValid) (h : ofRequest version table tablets = .ok scopes) :
    scopes.Pairwise fun a b =>
      Bytes.ofText (a.key i) ≠ Bytes.ofText (b.key i) := by
  cases version with
  | v1 =>
      obtain rfl := Except.ok.inj h
      exact List.pairwise_singleton ..
  | v2 =>
      unfold ofRequest at h
      simp only at h
      split at h
      · cases h
      · obtain rfl := Except.ok.inj h
        refine List.pairwise_map.2 (List.pairwise_map.2 ?_)
        refine (SortedMap.ascending _).imp fun {a b} hlt hkey => ?_
        obtain ⟨-, hscope⟩ := key_inj hi hi (Bytes.ofText_inj hkey)
        have hid : a.1 = b.1 := by
          injection hscope with _ hid
          exact TabletId.mk.inj hid
        rw [hid, Std.ReflOrd.compare_self] at hlt
        cases hlt

end MergeOnWrite
