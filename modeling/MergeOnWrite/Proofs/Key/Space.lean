/-
The space of keys: locks, entries and statistics, none in the way of
another.

A record is named by what its key is made from. The locks of two scopes,
the statistics of two tablets and the entries of one tablet are kept apart
elsewhere; here this is put together. Entries of different tablets differ
since no key extends the stems of two tablets, and neither a lock nor
statistics extend the stem of a tablet. So an instance whose name starts
like another's, or a rowset that is called like a number or like a word
within a key, is mistaken for nothing else.

# Main statements

- `StoreKey.bytes_exact`: no two records share a key, the stem of a tablet
  is in front of the keys of its own entries only, and the stem of a rowset
  in front of those of its own entries.
-/
import MergeOnWrite.Proofs.Key.Entry

namespace MergeOnWrite

/-- A record of the store, by what its key is made from. -/
inductive StoreKey where
  | lock (i : InstanceId) (scope : LockScope)
  | entry (i : InstanceId) (tablet : TabletId) (key : BitmapKey)
  | stats (i : InstanceId) (table : TableId) (tablet : TabletId)
deriving DecidableEq, Repr

namespace StoreKey

def text : StoreKey → String
  | .lock i scope => scope.key i
  | .entry i tablet key =>
    Key.entry i tablet key.rowset key.segment key.version
  | .stats i table tablet => Key.stats i table tablet

/-- The key as the store has it. -/
def bytes (key : StoreKey) : Bytes := .ofText key.text

/-- True for the records whose names pass the check. -/
def IsValid : StoreKey → Prop
  | .lock i _ => i.IsValid
  | .entry i _ key => i.IsValid ∧ key.rowset.IsValid
  | .stats i _ _ => i.IsValid

variable {a b key : StoreKey} {i : InstanceId} {tablet : TabletId}
  {rowset : RowsetId}

-- ================================================== stems

/-- What extends the stem of a tablet is an entry of this tablet. -/
theorem extends_tabletStem_iff (hi : i.IsValid) (hkey : key.IsValid) :
    tablet.stem i <+: key.bytes ↔ ∃ entry, key = .entry i tablet entry := by
  constructor
  · intro h
    cases key with
    | lock j scope => exact absurd h (Key.not_extends_lock hi hkey)
    | entry j other entry =>
        obtain ⟨rfl, rfl⟩ := Key.tabletStem_disjoint hi hkey.1 h
          (entry.stored_extends j other)
        exact ⟨entry, rfl⟩
    | stats j table other => exact absurd h (Key.not_extends_stats hi hkey)
  · rintro ⟨entry, rfl⟩
    exact entry.stored_extends i tablet

/-- What extends the stem of a rowset is an entry of this rowset. -/
theorem extends_rowsetStem_iff (hi : i.IsValid) (hr : rowset.IsValid)
    (hkey : key.IsValid) :
    Bytes.ofText (Key.rowsetStem i tablet rowset) <+: key.bytes
      ↔ ∃ segment version,
        key = .entry i tablet ⟨rowset, segment, version⟩ := by
  constructor
  · intro h
    obtain ⟨entry, rfl⟩ := (extends_tabletStem_iff hi hkey).1
      ((Key.rowsetStem_extends i tablet rowset).trans h)
    obtain rfl := (BitmapKey.rowsetStem_prefix_stored hi hkey.2 hr).1 h
    exact ⟨entry.segment, entry.version, rfl⟩
  · rintro ⟨segment, version, rfl⟩
    exact (BitmapKey.rowsetStem_prefix_stored hi hkey.2 hr).2 rfl

-- ================================================== collisions

/-- What has the key of an entry lies among the entries of its tablet, and
there each has a key of its own. -/
theorem eq_entry_of_bytes {entry : BitmapKey} (hkey : key.IsValid)
    (h : IsValid (.entry i tablet entry))
    (heq : key.bytes = bytes (.entry i tablet entry)) :
    key = .entry i tablet entry := by
  have hstem := entry.stored_extends i tablet
  rw [show entry.stored i tablet = key.bytes from heq.symm] at hstem
  obtain ⟨other, rfl⟩ := (extends_tabletStem_iff h.1 hkey).1 hstem
  rw [BitmapKey.stored_inj h.1 hkey.2 h.2 heq]

theorem bytes_inj (ha : a.IsValid) (hb : b.IsValid) (h : a.bytes = b.bytes) :
    a = b := by
  cases b with
  | lock j other =>
      cases a with
      | lock i scope =>
          obtain ⟨rfl, rfl⟩ := LockScope.key_inj ha hb (Bytes.ofText_inj h)
          rfl
      | entry i tablet entry => exact (eq_entry_of_bytes hb ha h.symm).symm
      | stats i table tablet =>
          exact absurd (Bytes.ofText_inj h.symm) (LockScope.key_ne_stats hb ha)
  | entry j tablet entry => exact eq_entry_of_bytes ha hb h
  | stats j table other =>
      cases a with
      | lock i scope =>
          exact absurd (Bytes.ofText_inj h) (LockScope.key_ne_stats ha hb)
      | entry i tablet entry => exact (eq_entry_of_bytes hb ha h.symm).symm
      | stats i fellow tablet =>
          obtain ⟨rfl, rfl, rfl⟩ := Key.stats_inj ha hb (Bytes.ofText_inj h)
          rfl

-- ================================================== the space

/-- Keys collide for no two records, and the stems of tablets and rowsets
are in front of the keys of their own entries, of all of them and of no
other record. -/
theorem bytes_exact (ha : a.IsValid) (hb : b.IsValid) (hi : i.IsValid)
    (hr : rowset.IsValid) (tablet : TabletId) :
    (a.bytes = b.bytes ↔ a = b)
      ∧ (Bytes.ofText (Key.rowsetStem i tablet rowset) <+: a.bytes
          ↔ ∃ segment version,
            a = .entry i tablet ⟨rowset, segment, version⟩)
      ∧ (Bytes.ofText (Key.tabletStem i tablet) <+: a.bytes
          ↔ ∃ entry, a = .entry i tablet entry) :=
  ⟨⟨bytes_inj ha hb, congrArg bytes⟩, extends_rowsetStem_iff hi hr ha,
    extends_tabletStem_iff hi ha⟩

/-- The instance and the rowset are called like parts of other keys, and
the numbers are below zero. -/
theorem bytes_exact_lookalikes :
    bytes (.entry ⟨"acme"⟩ ⟨-1⟩ ⟨⟨"tablet_stats"⟩, ⟨7⟩, ⟨-20⟩⟩)
        ≠ bytes (.stats ⟨"acm"⟩ ⟨-1⟩ ⟨-20⟩)
      ∧ Bytes.ofText (Key.rowsetStem ⟨"acme"⟩ ⟨-1⟩ ⟨"tablet_stats"⟩)
          <+: bytes (.entry ⟨"acme"⟩ ⟨-1⟩ ⟨⟨"tablet_stats"⟩, ⟨7⟩, ⟨-20⟩⟩)
      ∧ ¬ Bytes.ofText (Key.tabletStem ⟨"acme"⟩ ⟨1⟩)
          <+: bytes (.entry ⟨"acme"⟩ ⟨-1⟩ ⟨⟨"tablet_stats"⟩, ⟨7⟩, ⟨-20⟩⟩) := by
  have hentry : IsValid (.entry ⟨"acme"⟩ ⟨-1⟩ ⟨⟨"tablet_stats"⟩, ⟨7⟩, ⟨-20⟩⟩) :=
    ⟨by decide, by decide⟩
  have hstats : IsValid (.stats ⟨"acm"⟩ ⟨-1⟩ ⟨-20⟩) :=
    show InstanceId.IsValid _ by decide
  have hacme : InstanceId.IsValid ⟨"acme"⟩ := by decide
  have hrowset : RowsetId.IsValid ⟨"tablet_stats"⟩ := by decide
  refine ⟨fun h => ?_, ?_, fun h => ?_⟩
  · cases (bytes_exact hentry hstats hacme hrowset ⟨-1⟩).1.1 h
  · exact (bytes_exact hentry hstats hacme hrowset ⟨-1⟩).2.1.2 ⟨_, _, rfl⟩
  · obtain ⟨entry, heq⟩ :=
      (bytes_exact hentry hstats hacme hrowset ⟨1⟩).2.2.1 h
    exact absurd heq (by simp)

end StoreKey

end MergeOnWrite
