/-
The records of the service, and stores that hold nothing else.

Three kinds of records are stored: locks, entries of delete bitmaps, and
statistics. What may stand at a key is told by what the key is made from
(`StoreKey.Holds`), and since no two records share a key, a value that is
found at the key of a record is one of that record's kind. So where nothing
but records is stored, all that can be looked for can be read.

# Main statements

- `StoreKey.IsRecord.holds`: what is found at the key of a record is what may
  stand there.
- `Entries.AreRecords.insert`, `Entries.AreRecords.erase`: records are added
  and taken away.
- `Entries.AreRecords.isReadable`: where nothing but records is stored, locks,
  entries and statistics are read, and so are the keys of entries.
- `records_read_back`: locks and statistics are read as they were written.
-/
import MergeOnWrite.Proofs.Key.Space
import MergeOnWrite.Proofs.Lock.Codec
import MergeOnWrite.Proofs.RowSet.RoundTrip
import MergeOnWrite.Proofs.Service.TabletStats
import MergeOnWrite.Proofs.Store.Snapshot

namespace MergeOnWrite

-- ================================================== records

namespace StoreKey

/-- True of the values that may stand at the key of a record: statistics name
their tablet, and the lease of a lock ends at an instant that can be
written. -/
def Holds : StoreKey → Bytes → Prop
  | .lock _ _, value => ∃ record : LockRecord,
    record.expiration.IsProper ∧ value = record.encode
  | .entry _ _ _, value => ∃ rows : RowSet, value = rows.encode
  | .stats _ _ tablet, value => ∃ stats : TabletStats,
    stats.tablet = tablet.val ∧ value = stats.encode

/-- True of a key with a value that are a record of the service. -/
def IsRecord (key value : Bytes) : Prop :=
  ∃ name : StoreKey, name.IsValid ∧ key = name.bytes ∧ name.Holds value

variable {key value : Bytes}

/-- What is found at the key of a record is what may stand there. -/
theorem IsRecord.holds (name : StoreKey) (hname : name.IsValid)
    (h : IsRecord name.bytes value) : name.Holds value := by
  obtain ⟨other, hother, hkey, hholds⟩ := h
  obtain rfl := bytes_inj hname hother hkey
  exact hholds

/-- What lies among the entries of a tablet is an entry, of a valid
rowset. -/
theorem IsRecord.entry {i : InstanceId} {tablet : TabletId} (hi : i.IsValid)
    (h : IsRecord key value)
    (hstem : Bytes.ofText (Key.tabletStem i tablet) <+: key) :
    ∃ entry : BitmapKey, entry.rowset.IsValid
      ∧ key = bytes (.entry i tablet entry) ∧ ∃ rows : RowSet,
        value = rows.encode := by
  obtain ⟨name, hname, rfl, hholds⟩ := h
  obtain ⟨entry, rfl⟩ := (extends_tabletStem_iff hi hname).1 hstem
  exact ⟨entry, hname.2, rfl, hholds⟩

end StoreKey

-- ================================================== stores

namespace Entries

open StoreKey (IsRecord)

/-- True of entries that are records of the service, all of them. -/
def AreRecords (entries : Entries) : Prop :=
  ∀ key value, entries.get? key = some value → IsRecord key value

variable {entries : Entries} {key value : Bytes}

theorem areRecords_empty : AreRecords (∅ : Entries) := nofun

theorem AreRecords.insert (h : entries.AreRecords)
    (hvalue : IsRecord key value) :
    AreRecords (SortedMap.insert entries key value) := by
  intro j x hx
  rw [SortedMap.get?_insert] at hx
  split at hx
  · rename_i heq
    obtain rfl := Std.LawfulEqOrd.eq_of_compare heq
    obtain rfl := Option.some.inj hx
    exact hvalue
  · exact h j x hx

theorem AreRecords.erase (h : entries.AreRecords) (key : Bytes) :
    AreRecords (SortedMap.erase entries key) := by
  intro j x hx
  rw [SortedMap.get?_erase] at hx
  split at hx
  · cases hx
  · exact h j x hx

/-- What is listed are records whose keys extend the stem. -/
theorem AreRecords.of_mem_within (h : entries.AreRecords) {stem : Bytes}
    {e : Bytes × Bytes} (he : e ∈ (entries.within (.extending stem)).toList) :
    stem <+: e.1 ∧ IsRecord e.1 e.2 := by
  have hget := SortedMap.mem_toList_iff.1 he
  rw [get?_within] at hget
  split at hget
  · rename_i hstem
    exact ⟨KeyRange.contains_extending.1 hstem, h _ _ hget⟩
  · cases hget

-- ================================================== reading

/-- True of entries of which all that is looked for can be read: what stands
at the key of a lock is read as a lock record, at that of an entry as a set of
rows, and at that of statistics as statistics of that tablet; and all keys
that a scan of a rowset comes across are keys of entries. -/
structure IsReadable (entries : Entries) : Prop where
  lock : ∀ (i : InstanceId) (scope : LockScope) value, i.IsValid →
    entries.get? (.ofText (scope.key i)) = some value →
    ∃ record, LockRecord.decode? value = some record
  entry : ∀ (i : InstanceId) tablet (rowset : RowsetId) segment version value,
    i.IsValid → rowset.IsValid →
    entries.get? (.ofText (Key.entry i tablet rowset segment version))
      = some value →
    ∃ rows, RowSet.decode value = .ok rows
  stats : ∀ (i : InstanceId) table (tablet : TabletId) value, i.IsValid →
    entries.get? (.ofText (Key.stats i table tablet)) = some value →
    ∃ stats, TabletStats.decode? value = some stats
      ∧ stats.tablet = tablet.val
  parses : ∀ (i : InstanceId) tablet (rowset : RowsetId) key, i.IsValid →
    Bytes.ofText (Key.rowsetStem i tablet rowset) <+: key →
    (entries.get? key).isSome → ∃ parts, Key.parseEntry? key = some parts

/-- Where nothing but records is stored, all that is looked for can be
read. -/
theorem AreRecords.isReadable (h : entries.AreRecords) :
    entries.IsReadable where
  lock i scope value hi hget := by
    obtain ⟨record, hproper, rfl⟩ :=
      (h _ _ hget).holds (.lock i scope) hi
    exact ⟨record, LockRecord.decode?_encode hproper⟩
  entry i tablet rowset segment version value hi hr hget := by
    obtain ⟨rows, rfl⟩ := (h _ _ hget).holds
      (.entry i tablet ⟨rowset, segment, version⟩) ⟨hi, hr⟩
    exact ⟨rows, rows.decode_encode⟩
  stats i table tablet value hi hget := by
    obtain ⟨stats, htablet, rfl⟩ :=
      (h _ _ hget).holds (.stats i table tablet) hi
    exact ⟨stats, stats.decode?_encode, htablet⟩
  parses i tablet rowset key hi hstem hsome := by
    obtain ⟨value, hget⟩ := Option.isSome_iff_exists.1 hsome
    obtain ⟨entry, hentry, rfl, -⟩ := (h _ _ hget).entry hi
      ((Key.rowsetStem_extends i tablet rowset).trans hstem)
    exact ⟨_, BitmapKey.parse_stored hi hentry⟩

end Entries

-- ================================================== bytes

/-- What is stored of locks and of tablets reads back as it was: any lock
whose lease ends in the calendar and in no leap second, so that its lease has
ended for who reads it exactly when it has ended, and any statistics. -/
theorem records_read_back (record : LockRecord) (stats : TabletStats)
    (hcalendar : record.expiration.isInCalendar = true)
    (hnano : record.expiration.nano < 1000000000) :
    LockRecord.decode? record.encode = some record
      ∧ (∀ now, (LockRecord.decode? record.encode).map (·.isExpired now)
        = some (record.isExpired now))
      ∧ TabletStats.decode? stats.encode = some stats := by
  have hrecord : LockRecord.decode? record.encode = some record :=
    LockRecord.decode?_encode ⟨hcalendar, .inl hnano⟩
  refine ⟨hrecord, fun now => ?_, stats.decode?_encode⟩
  rw [hrecord, Option.map_some]

/-- A lease that ends in the last nanosecond of the calendar and a record that
lists nobody. -/
theorem records_read_back_last :
    Instant.isInCalendar ⟨Instant.greatestSecond, 999999999⟩ = true
      ∧ LockRecord.decode? (LockRecord.encode
          ⟨-9223372036854775808, ∅, ⟨Instant.greatestSecond, 999999999⟩⟩)
        = some
          ⟨-9223372036854775808, ∅, ⟨Instant.greatestSecond, 999999999⟩⟩
      ∧ TabletStats.decode? (TabletStats.encode
          ⟨-1, 18446744073709551615, 18446744073709551615⟩)
        = some ⟨-1, 18446744073709551615, 18446744073709551615⟩ := by
  have hcalendar :
      Instant.isInCalendar ⟨Instant.greatestSecond, 999999999⟩ = true := by
    decide +kernel
  obtain ⟨hrecord, -, hstats⟩ := records_read_back
    ⟨-9223372036854775808, ∅, ⟨Instant.greatestSecond, 999999999⟩⟩
    ⟨-1, 18446744073709551615, 18446744073709551615⟩ hcalendar (by decide)
  exact ⟨hcalendar, hrecord, hstats⟩

end MergeOnWrite
