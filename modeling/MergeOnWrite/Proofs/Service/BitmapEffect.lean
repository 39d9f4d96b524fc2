/-
What the commits of delete bitmap requests do.

A request that stores or removes entries of a tablet changes the entries of
that tablet, and in the same commit its statistics, by as much as the
entries and their rows became more or fewer. One that stores entries on
behalf of a holder has found, in the entries that its transaction began
with, a record that lets the caller do so.

# The change of a tablet

`BitmapChange` keeps the account: which keys are touched, what may stand at
them afterwards, and how the numbers of entries and rows change. It holds
for a single entry that is put or removed (`bitmapChange_put`,
`bitmapChange_remove`), and for one change after another
(`BitmapChange.trans`), whether or not keys repeat.

# Main statements

- `UpdateBitmap.safe_updateBitmap`, `RemoveBitmap.safe_removeBitmap`: the
  commits of both requests have the effects `UpdateBitmap.Effect` and
  `RemoveBitmap.Effect`.
-/
import MergeOnWrite.Proofs.Key.Entry
import MergeOnWrite.Proofs.RowSet.RoundTrip
import MergeOnWrite.Proofs.Service.LockEffect
import MergeOnWrite.Proofs.Store.Tally

namespace MergeOnWrite

open RowSet

-- ================================================== accounts

/-- The number of rows that stored bytes tell. -/
def rowsIn (bytes : Bytes) : Nat :=
  match Container.decodeAll bytes with
  | .ok containers => Container.cardinalityAll containers
  | .error _ => 0

theorem rowsIn_eq {bytes : Bytes} {containers : List Container}
    (h : Container.decodeAll bytes = .ok containers) :
    rowsIn bytes = Container.cardinalityAll containers := by
  rw [rowsIn, h]

theorem rowsIn_encode (s : RowSet) : rowsIn s.encode = s.cardinality := by
  have h := s.decodeAll_encode []
  rw [List.append_nil] at h
  rw [rowsIn_eq h]
  exact s.cardinalityAll_containers

/-- The number of entries of a tablet. -/
def Entries.entryCount (entries : Entries) (i : InstanceId)
    (tablet : TabletId) : Nat :=
  entries.tally (fun _ => 1) (tablet.stem i)

/-- The number of rows in the entries of a tablet. -/
def Entries.rowCount (entries : Entries) (i : InstanceId)
    (tablet : TabletId) : Nat :=
  entries.tally rowsIn (tablet.stem i)

/-- True of bytes that the service may store at a key of a tablet. -/
def IsEntry (i : InstanceId) (tablet : TabletId) (key value : Bytes) : Prop :=
  ∃ rowset segment version, ∃ rows : RowSet,
    key = .ofText (Key.entry i tablet rowset segment version)
      ∧ value = rows.encode

/-- A change of the entries of a tablet, and of their numbers. -/
structure BitmapChange (i : InstanceId) (tablet : TabletId)
    (before after : Entries) (entries rows : Int) : Prop where
  others : ∀ key, ¬ tablet.stem i <+: key → after.get? key = before.get? key
  written : ∀ key value, after.get? key = some value →
    before.get? key = some value ∨ IsEntry i tablet key value
  entries_eq : (after.entryCount i tablet : Int)
    = before.entryCount i tablet + entries
  rows_eq : (after.rowCount i tablet : Int) = before.rowCount i tablet + rows

/-- True of entries that hold statistics, or none, for a tablet. -/
def Entries.HasStats (entries : Entries) (i : InstanceId) (table : TableId)
    (tablet : TabletId) (record : Option TabletStats) : Prop :=
  (entries.get? (.ofText (Key.stats i table tablet))).map TabletStats.decode?
    = record.map some

/-- What is done about the statistics of a tablet: nothing if nothing
changed, and else its record is replaced. -/
def StatsChange (i : InstanceId) (table : TableId) (tablet : TabletId)
    (entries rows : Int) (before after : Entries) : Prop :=
  (entries = 0 ∧ rows = 0 ∧ after = before)
    ∨ ∃ record, before.HasStats i table tablet record
        ∧ after = before.insert (.ofText (Key.stats i table tablet))
          ((record.getD { tablet := tablet.val }).change entries rows).encode

/-- A change of the entries of a tablet together with its statistics. -/
def TabletChange (i : InstanceId) (table : TableId) (tablet : TabletId)
    (before after : Entries) : Prop :=
  ∃ mid entries rows, BitmapChange i tablet before mid entries rows
    ∧ StatsChange i table tablet entries rows mid after

/-- Statistics stand at the key of no entry. -/
theorem StatsChange.get?_of_extends {i j : InstanceId} {table : TableId}
    {tablet other : TabletId} {entries rows : Int} {mid after : Entries}
    {key : Bytes}
    (h : StatsChange i table tablet entries rows mid after) (hi : i.IsValid)
    (hj : j.IsValid) (hkey : other.stem j <+: key) :
    after.get? key = mid.get? key := by
  rcases h with ⟨-, -, rfl⟩ | ⟨record, -, rfl⟩
  · rfl
  · refine SortedMap.get?_insert_of_ne _ _ fun heq => ?_
    rw [heq] at hkey
    exact Key.not_extends_stats hj hi hkey

namespace BitmapChange

variable {i : InstanceId} {tablet : TabletId} {before mid after : Entries}
  {entries rows entries' rows' : Int}

protected theorem refl : BitmapChange i tablet before before 0 0 :=
  ⟨fun _ _ => rfl, fun _ _ h => .inl h, (Int.add_zero _).symm,
    (Int.add_zero _).symm⟩

protected theorem trans (h : BitmapChange i tablet before mid entries rows)
    (h' : BitmapChange i tablet mid after entries' rows') :
    BitmapChange i tablet before after (entries + entries') (rows + rows') := by
  refine ⟨fun key hkey => (h'.others key hkey).trans (h.others key hkey),
    fun key value hvalue => ?_, ?_, ?_⟩
  · rcases h'.written key value hvalue with hmid | hnew
    · exact h.written key value hmid
    · exact .inr hnew
  · rw [h'.entries_eq, h.entries_eq, Int.add_assoc]
  · rw [h'.rows_eq, h.rows_eq, Int.add_assoc]

end BitmapChange

/-- An entry that is put is one more, or counts instead of the one it
replaces. -/
theorem bitmapChange_put (i : InstanceId) (tablet : TabletId)
    (rowset : RowsetId) (segment : SegmentId) (version : Version)
    (rows : RowSet) (before : Entries) :
    let key := Bytes.ofText (Key.entry i tablet rowset segment version)
    BitmapChange i tablet before (before.insert key rows.encode)
      (1 - ((before.get? key).elim 0 fun _ => 1 : Nat))
      (rows.cardinality - ((before.get? key).elim 0 rowsIn : Nat)) := by
  intro key
  have hext : tablet.stem i <+: key := Key.entry_extends ..
  refine ⟨fun k hk => SortedMap.get?_insert_of_ne _ _ fun h => hk (h ▸ hext),
    fun k value hvalue => ?_, ?_, ?_⟩
  · by_cases hk : k = key
    · subst hk
      rw [SortedMap.get?_insert_self] at hvalue
      exact .inr ⟨rowset, segment, version, rows, rfl,
        (Option.some.inj hvalue).symm⟩
    · rw [SortedMap.get?_insert_of_ne _ _ hk] at hvalue
      exact .inl hvalue
  · have h := Entries.tally_insert (fun _ => 1) before
      hext rows.encode
    simp only [Entries.entryCount]
    omega
  · have h := Entries.tally_insert rowsIn before
      hext rows.encode
    rw [rowsIn_encode] at h
    simp only [Entries.rowCount]
    omega

/-- An entry that is removed counts no longer. -/
theorem bitmapChange_remove {i : InstanceId} {tablet : TabletId}
    {before : Entries} {key value : Bytes} (hext : tablet.stem i <+: key)
    (hkey : before.get? key = some value) :
    BitmapChange i tablet before (before.erase key) (-1) (-(rowsIn value)) := by
  refine ⟨fun k hk => SortedMap.get?_erase_of_ne _ fun h => hk (h ▸ hext),
    fun k v hv => ?_, ?_, ?_⟩
  · by_cases hk : k = key
    · subst hk
      rw [SortedMap.get?_erase_self] at hv
      cases hv
    · rw [SortedMap.get?_erase_of_ne _ hk] at hv
      exact .inl hv
  · have h := Entries.tally_erase (fun _ => 1) before
      hext
    rw [hkey, Option.elim_some] at h
    simp only [Entries.entryCount]
    omega
  · have h := Entries.tally_erase rowsIn before hext
    rw [hkey, Option.elim_some] at h
    simp only [Entries.rowCount]
    omega

-- ================================================== contents

/-- The entries after some have been put among those of a tablet. -/
def Entries.putAll (entries : Entries) (i : InstanceId) (tablet : TabletId)
    (l : List (BitmapKey × RowSet)) : Entries :=
  l.foldl (fun entries e => entries.insert (e.1.stored i tablet) e.2.encode)
    entries

/-- The entries after some listed ones have been removed. -/
def Entries.eraseAll (entries : Entries) (l : List (Bytes × Bytes)) :
    Entries :=
  l.foldl (fun entries e => entries.erase e.1) entries

theorem Entries.get?_eraseAll {key : Bytes} :
    ∀ {l : List (Bytes × Bytes)} {entries : Entries},
      (entries.eraseAll l).get? key
        = if key ∈ l.map Prod.fst then none else entries.get? key := by
  intro l
  induction l with
  | nil => intro entries; rfl
  | cons e rest ih =>
      intro entries
      show (Entries.eraseAll (entries.erase e.1) rest).get? key = _
      rw [ih, List.map_cons]
      by_cases hkey : key = e.1
      · rw [hkey, SortedMap.get?_erase_self, ite_self,
          if_pos List.mem_cons_self]
      · rw [SortedMap.get?_erase_of_ne _ hkey]
        simp only [List.mem_cons, hkey, false_or]

/-- True of entries that are left when the entries of some rowsets of a
tablet are removed. -/
structure Entries.Cleared (i : InstanceId) (tablet : TabletId)
    (names : List String) (before after : Entries) : Prop where
  isValid : ∀ name ∈ names, (RowsetId.mk name).IsValid
  gone : ∀ key, (∃ name ∈ names, Bytes.ofText (Key.rowsetStem i tablet ⟨name⟩)
    <+: key) → after.get? key = none
  kept : ∀ key, (∀ name ∈ names, ¬ Bytes.ofText
    (Key.rowsetStem i tablet ⟨name⟩) <+: key) →
    after.get? key = before.get? key

namespace Entries.Cleared

theorem nil (i : InstanceId) (tablet : TabletId) (entries : Entries) :
    entries.Cleared i tablet [] entries :=
  ⟨nofun, fun _ ⟨_, hname, _⟩ => absurd hname List.not_mem_nil, fun _ _ => rfl⟩

/-- One rowset is scanned and removed before the others. -/
theorem cons {i : InstanceId} {tablet : TabletId} {name : String}
    {rowset : RowsetId} {names : List String} {before after : Entries}
    (hname : RowsetId.ofText name = .ok rowset)
    (h : (before.eraseAll (before.within (.extending
      (.ofText (Key.rowsetStem i tablet rowset)))).toList).Cleared i tablet
        names after) :
    before.Cleared i tablet (name :: names) after := by
  obtain ⟨hvalid, rfl⟩ := RowsetId.eq_of_ofText hname
  -- what is removed first: all that extends the stem
  have hfirst : ∀ key, (before.eraseAll (before.within (.extending
      (.ofText (Key.rowsetStem i tablet rowset)))).toList).get? key
        = if Bytes.ofText (Key.rowsetStem i tablet rowset) <+: key then none
          else before.get? key := by
    intro key
    rw [Entries.get?_eraseAll]
    have hkeys := SortedMap.mem_keys (k := key) (m := before.within (.extending
      (.ofText (Key.rowsetStem i tablet rowset))))
    rw [Entries.get?_within] at hkeys
    by_cases hstem : Bytes.ofText (Key.rowsetStem i tablet rowset) <+: key
    · rw [if_pos (KeyRange.contains_extending.2 hstem)] at hkeys
      rw [if_pos hstem]
      split
      · rfl
      · rename_i hnot
        exact Option.not_isSome_iff_eq_none.1 fun h => hnot (hkeys.2 h)
    · rw [if_neg (mt KeyRange.contains_extending.1 hstem)] at hkeys
      rw [if_neg hstem]
      exact if_neg fun h => absurd (hkeys.1 h) nofun
  refine ⟨fun other hother => ?_, fun key hkey => ?_, fun key hkey => ?_⟩
  · rcases List.mem_cons.1 hother with rfl | hother
    · exact hvalid
    · exact h.isValid other hother
  · by_cases hlater : ∃ other ∈ names,
        Bytes.ofText (Key.rowsetStem i tablet ⟨other⟩) <+: key
    · exact h.gone key hlater
    · obtain ⟨other, hother, hstem⟩ := hkey
      rcases List.mem_cons.1 hother with rfl | hother
      · rw [h.kept key fun other hother hstem => hlater ⟨other, hother, hstem⟩,
          hfirst, if_pos hstem]
      · exact absurd ⟨other, hother, hstem⟩ hlater
  · rw [h.kept key fun other hother =>
        hkey other (List.mem_cons_of_mem _ hother),
      hfirst, if_neg (hkey _ List.mem_cons_self)]

end Entries.Cleared

/-- What a commit of a request that stores entries makes of all entries. -/
def UpdateBitmap.Rewrites (r : UpdateBitmap) (i : InstanceId) (d : Draft) :
    Prop :=
  ∃ entries rows, StatsChange i r.table r.tablet entries rows
    (d.before.putAll i r.tablet r.bitmap.toList) d.after

/-- What a commit of a request that removes entries makes of all
entries. -/
def RemoveBitmap.Rewrites (r : RemoveBitmap) (i : InstanceId) (d : Draft) :
    Prop :=
  ∃ mid entries rows, d.before.Cleared i r.tablet r.rowsets mid
    ∧ StatsChange i r.table r.tablet entries rows mid d.after

-- ================================================== effects

/-- What a commit of a request that stores entries does. -/
structure UpdateBitmap.Effect (route : InstanceId → LockVersion)
    (r : UpdateBitmap) (i : InstanceId) (kind : LockKind)
    (readings : List Instant) (d : Draft) : Prop where
  instance_eq : InstanceId.ofText r.instanceName = .ok i
  kind_eq : LockKind.ofLockId r.lockId = .ok kind
  holder : kind = .lockFreeCompaction ∨ ∃ current now, readings = [now]
    ∧ d.before.HasLock i (.guarding (route i) r.table r.tablet) current
    ∧ LockRecord.holds current kind r.initiator now = true
  change : TabletChange i r.table r.tablet d.before d.after

/-- What a commit of a request that removes entries does. -/
structure RemoveBitmap.Effect (r : RemoveBitmap) (i : InstanceId) (d : Draft) :
    Prop where
  instance_eq : InstanceId.ofText r.instanceName = .ok i
  change : TabletChange i r.table r.tablet d.before d.after

-- ================================================== parts of handlers

namespace Handler

variable {c : Contract} {p : Progress} {d : Draft} {i : InstanceId}
  {table : TableId} {tablet : TabletId}

/-- Stored bytes are read as the rows they tell. -/
theorem safe_rowsOf {ends : Progress → List Container → Prop} {bytes : Bytes}
    (h₀ : p.commits = 0)
    (h : ∀ containers, Container.decodeAll bytes = .ok containers →
      ends p containers) : Safe c ends p (rowsOf bytes) :=
  safe_check h₀ fun containers hread => h containers (ok_of_mapError hread)

/-- A caller that passes the check holds the lock that guards the tablet,
by the record in the draft and one reading of the clock. -/
theorem safe_checkHolder {ends : Progress → Unit → Prop} {kind : LockKind}
    {initiator : Int64} (h₀ : p.commits = 0) (hd : p.draft = some d)
    (h : ∀ current now,
      d.after.HasLock i (.guarding (c.route i) table tablet) current →
      LockRecord.holds current kind initiator now = true →
      ends { p with readings := now :: p.readings } ()) :
    Safe c ends p (checkHolder i table tablet kind initiator) := by
  refine safe_bind (safe_route ?_)
  refine safe_bind (safe_readLock h₀ hd fun current hcurrent => ?_)
  refine safe_bind (safe_now fun now _ => ?_)
  split
  · rename_i hholds
    exact safe_pure (h current now hcurrent hholds)
  · exact safe_throw h₀

/-- Entries are put one after another, and their account is kept. -/
theorem safe_putEntries :
    ∀ {l : List (BitmapKey × RowSet)} {p : Progress} {d : Draft}
      {ends : Progress → Int × Int → Prop},
      p.commits = 0 → p.draft = some d →
      (∀ change, BitmapChange i tablet d.after (d.after.putAll i tablet l)
          change.1 change.2 →
        ends { p with draft := some ⟨d.before, d.after.putAll i tablet l⟩ }
          change) →
      Safe c ends p (putEntries i tablet l) := by
  intro l
  induction l with
  | nil =>
      intro p d ends h₀ hd h
      refine safe_pure ?_
      have hp : { p with draft := some ⟨d.before, d.after⟩ } = p := by rw [← hd]
      rw [← hp]
      exact h (0, 0) .refl
  | cons entry rest ih =>
      intro p d ends h₀ hd h
      obtain ⟨key, rows⟩ := entry
      have hput := bitmapChange_put i tablet key.rowset key.segment
        key.version rows d.after
      simp only at hput
      -- what is left of the loop, once the stored entry has been read
      have hgoes : ∀ (entries : Int) (removed : Nat),
          entries = 1 - ((d.after.get? (.ofText (Key.entry i tablet key.rowset
            key.segment key.version))).elim 0 fun _ => 1 : Nat) →
          removed = (d.after.get? (.ofText (Key.entry i tablet key.rowset
            key.segment key.version))).elim 0 rowsIn →
          Safe c ends p (do
            ask (.put (.ofText (Key.entry i tablet key.rowset key.segment
              key.version)) rows.encode)
            let change ← putEntries i tablet rest
            return (change.1 + entries,
              change.2 + rows.cardinality - removed)) := by
        intro entries removed hentries hremoved
        refine safe_bind (safe_put ?_)
        rw [Progress.write, hd]
        refine safe_bind (ih h₀ rfl fun change hafter => ?_)
        refine safe_pure (h _ ?_)
        rw [← hentries, ← hremoved] at hput
        have hboth := hput.trans hafter
        rw [show change.1 + entries = entries + change.1 from
            Int.add_comm ..,
          show change.2 + (rows.cardinality : Int) - removed
            = rows.cardinality - removed + change.2 by omega]
        exact hboth
      rw [putEntries]
      refine safe_bind (safe_get h₀ hd ?_)
      cases hheld : d.after.get? (.ofText (Key.entry i tablet key.rowset
          key.segment key.version)) with
      | none => exact safe_bind (safe_pure (hgoes 1 0 (by rw [hheld]; rfl)
          (by rw [hheld]; rfl)))
      | some bytes =>
          refine safe_bind (safe_rowsOf h₀ fun containers hrows => ?_)
          exact safe_bind (safe_pure (hgoes 0 _ (by rw [hheld]; rfl)
            (by rw [hheld]; exact (rowsIn_eq hrows).symm)))

theorem safe_changeStats {ends : Progress → Unit → Prop} {entries rows : Int}
    (h₀ : p.commits = 0) (hd : p.draft = some d)
    (h : ∀ after, StatsChange i table tablet entries rows d.after after →
      ends { p with draft := some ⟨d.before, after⟩ } ()) :
    Safe c ends p (changeStats i table tablet entries rows) := by
  unfold changeStats
  split
  · rename_i hzero
    refine safe_pure ?_
    have hp : { p with draft := some ⟨d.before, d.after⟩ } = p := by rw [← hd]
    rw [← hp]
    exact h d.after (.inl ⟨hzero.1, hzero.2, rfl⟩)
  · refine safe_bind (safe_bind (safe_get h₀ hd ?_))
    refine safe_bind (safe_stored h₀ fun record hrecord => ?_)
    refine safe_pure (safe_put ?_)
    rw [Progress.write, hd]
    exact h _ (.inr ⟨record, hrecord, rfl⟩)

/-- Listed entries are removed one after another, and their account is
kept. -/
theorem safe_removeEntries :
    ∀ {l : List (Bytes × Bytes)} {p : Progress} {d : Draft}
      {ends : Progress → Nat → Prop},
      p.commits = 0 → p.draft = some d →
      l.Pairwise (fun a b => a.1 ≠ b.1) →
      (∀ b ∈ l, tablet.stem i <+: b.1 ∧ d.after.get? b.1 = some b.2) →
      (∀ rows, BitmapChange i tablet d.after (d.after.eraseAll l)
          (-(l.length : Nat)) (-(rows : Nat)) →
        ends { p with draft := some ⟨d.before, d.after.eraseAll l⟩ } rows) →
      Safe c ends p (removeEntries l) := by
  intro l
  induction l with
  | nil =>
      intro p d ends h₀ hd _ _ h
      refine safe_pure ?_
      have hp : { p with draft := some ⟨d.before, d.after⟩ } = p := by rw [← hd]
      rw [← hp]
      exact h 0 .refl
  | cons entry rest ih =>
      intro p d ends h₀ hd hdistinct hheld h
      obtain ⟨key, value⟩ := entry
      obtain ⟨hne, hrest⟩ := List.pairwise_cons.1 hdistinct
      obtain ⟨hext, hkey⟩ := hheld _ (List.mem_cons_self ..)
      have hremove := bitmapChange_remove hext hkey
      refine safe_bind (safe_rowsOf h₀ fun containers hrows => ?_)
      refine safe_bind (safe_remove ?_)
      rw [Progress.write, hd]
      refine safe_bind (ih h₀ rfl hrest (fun b hb => ?_)
        fun rows hafter => ?_)
      · obtain ⟨hbext, hbkey⟩ := hheld b (List.mem_cons_of_mem _ hb)
        exact ⟨hbext,
          (SortedMap.get?_erase_of_ne _ (hne b hb).symm).trans hbkey⟩
      · refine safe_pure (h _ ?_)
        have hboth := hremove.trans hafter
        rw [← rowsIn_eq hrows, List.length_cons,
          show (-((rest.length + 1 : Nat)) : Int) = -1 + -(rest.length : Nat) by
            omega,
          show (-((rowsIn value + rows : Nat)) : Int)
            = -(rowsIn value) + -(rows : Nat) by omega]
        exact hboth

/-- The entries of rowsets are removed, whether or not rowsets repeat. -/
theorem safe_removeRowsets :
    ∀ {l : List String} {p : Progress} {d : Draft}
      {ends : Progress → Nat × Nat → Prop},
      p.commits = 0 → p.draft = some d →
      (∀ after removed, BitmapChange i tablet d.after after
          (-(removed.1 : Nat)) (-(removed.2 : Nat)) →
        d.after.Cleared i tablet l after →
        ends { p with draft := some ⟨d.before, after⟩ } removed) →
      Safe c ends p (removeRowsets i tablet l) := by
  intro l
  induction l with
  | nil =>
      intro p d ends h₀ hd h
      refine safe_pure ?_
      have hp : { p with draft := some ⟨d.before, d.after⟩ } = p := by rw [← hd]
      rw [← hp]
      exact h d.after (0, 0) .refl (.nil ..)
  | cons name rest ih =>
      intro p d ends h₀ hd h
      refine safe_bind (safe_rowsetOf h₀ fun rowset hrowset => ?_)
      refine safe_bind (safe_scan h₀ hd ?_)
      have hheld : ∀ b ∈ (d.after.within (.extending
          (.ofText (Key.rowsetStem i tablet rowset)))).toList,
          tablet.stem i <+: b.1 ∧ d.after.get? b.1 = some b.2 := by
        intro b hb
        have hget := SortedMap.mem_toList_iff.1 hb
        rw [Entries.get?_within] at hget
        split at hget
        · rename_i hc
          exact ⟨(Key.rowsetStem_extends i tablet rowset).trans
            (KeyRange.contains_extending.1 hc), hget⟩
        · cases hget
      have hdistinct : (d.after.within (.extending
          (.ofText (Key.rowsetStem i tablet rowset)))).toList.Pairwise
          (fun a b => a.1 ≠ b.1) :=
        (SortedMap.ascending _).imp fun hlt heq => by
          rw [heq, Std.ReflOrd.compare_self] at hlt
          cases hlt
      refine safe_bind (safe_removeEntries h₀ hd hdistinct hheld
        fun rows hmid => ?_)
      refine safe_bind (ih h₀ rfl fun after others hafter hcleared => ?_)
      refine safe_pure (h after _ ?_ (hcleared.cons hrowset))
      have hboth := hmid.trans hafter
      simp only [Int.natCast_add, Int.neg_add]
      exact hboth

end Handler

-- ================================================== requests

/-- A request that stores entries commits only that, and has committed it
if it ends well. -/
theorem UpdateBitmap.safe_updateBitmap (route : InstanceId → LockVersion)
    (r : UpdateBitmap) :
    Handler.Safe ⟨route, fun readings d => ∃ i kind,
        r.Effect route i kind readings d ∧ r.Rewrites i d⟩
      (fun p _ => p.commits = 1) {} (Handler.updateBitmap r) := by
  unfold Handler.updateBitmap
  refine Handler.safe_bind (Handler.safe_instanceOf rfl fun i hi => ?_)
  refine Handler.safe_bind (Handler.safe_lift rfl fun kind hkind => ?_)
  refine Handler.safe_bind (Handler.safe_start rfl fun entries => ?_)
  -- the rest of the handler, once the caller may store entries
  have hgoes : ∀ readings : List Instant,
      (kind = .lockFreeCompaction ∨ ∃ current now, readings = [now]
        ∧ entries.HasLock i (.guarding (route i) r.table r.tablet) current
        ∧ LockRecord.holds current kind r.initiator now = true) →
      Handler.Safe ⟨route, fun readings d => ∃ i kind,
          r.Effect route i kind readings d ∧ r.Rewrites i d⟩
        (fun p _ => p.commits = 1)
        { draft := some ⟨entries, entries⟩, readings } (do
          let change ← Handler.putEntries i r.tablet r.bitmap.toList
          Handler.changeStats i r.table r.tablet change.1 change.2
          Handler.commit "commit delete bitmap") := by
    intro readings hholder
    refine Handler.safe_bind (Handler.safe_putEntries rfl rfl
      fun change hmid => ?_)
    refine Handler.safe_bind (Handler.safe_changeStats rfl rfl
      fun after hafter => ?_)
    exact Handler.safe_commit rfl rfl ⟨i, kind, ⟨hi, hkind, hholder,
      _, change.1, change.2, hmid, hafter⟩, change.1, change.2, hafter⟩ rfl
  split
  · exact Handler.safe_bind (Handler.safe_checkHolder rfl rfl
      fun current now hcurrent hholds =>
        hgoes [now] (.inr ⟨current, now, rfl, hcurrent, hholds⟩))
  · rename_i hkind
    exact hgoes [] (.inl (Classical.not_not.1 hkind))

/-- A request that removes entries commits only that. -/
theorem RemoveBitmap.safe_removeBitmap (route : InstanceId → LockVersion)
    (r : RemoveBitmap) :
    Handler.Safe ⟨route, fun _ d => ∃ i, r.Effect i d ∧ r.Rewrites i d⟩
      (fun p _ => p.commits = 1) {} (Handler.removeBitmap r) := by
  unfold Handler.removeBitmap
  refine Handler.safe_bind (Handler.safe_instanceOf rfl fun i hi => ?_)
  refine Handler.safe_bind (Handler.safe_start rfl fun entries => ?_)
  refine Handler.safe_bind (Handler.safe_removeRowsets rfl rfl
    fun mid removed hmid hcleared => ?_)
  refine Handler.safe_bind (Handler.safe_changeStats rfl rfl
    fun after hafter => ?_)
  exact Handler.safe_commit rfl rfl ⟨i, ⟨hi, mid, _, _, hmid, hafter⟩,
    mid, _, _, hcleared, hafter⟩ rfl

end MergeOnWrite
