/-
The statistics of a tablet agree with its stored entries.

A request that changes entries changes the statistics in the same commit,
by the difference that it makes. So the statistics agree with the entries
in every store, as long as a tablet is always named with the same table:
its statistics are kept under the table as well, its entries are not.

# The invariant

`Entries.Accounted` says of all tablets of an instance that their
statistics are what their entries come to (`Entries.StatsAgree`), and that
there are none under any other table. A commit of a request for the lock
touches neither; one that changes a tablet moves both, and leaves all
others alone. While the totals stay within their range, no addition is cut
off (`TabletStats.AddsUp`).

# Main statements

- `Accounted.change`: a change of a tablet keeps the account.
- `accounted_of_chained`: so do all commits.
- `stats_agree`: the statistics in all traffic that starts from nothing.
-/
import Mathlib.Algebra.Group.Nat.Defs
import MergeOnWrite.Proofs.Service.Alone
import MergeOnWrite.Proofs.Service.TabletStats

namespace MergeOnWrite

open RowSet

-- ================================================== agreement

/-- True of entries in which the statistics of a tablet under a table, none
counting as zeros, tell the number of its entries and of the rows in them,
and all entries can be read. -/
structure Entries.StatsAgree (entries : Entries) (i : InstanceId)
    (table : TableId) (tablet : TabletId) : Prop where
  readable : ∀ key value, tablet.stem i <+: key →
    entries.get? key = some value →
    ∃ rows : RowSet, decode value = .ok rows ∧ rowsIn value = rows.cardinality
  counts : ∃ record, entries.HasStats i table tablet record
    ∧ (record.getD { tablet := tablet.val }).entries.toNat
      = entries.entryCount i tablet
    ∧ (record.getD { tablet := tablet.val }).rows.toNat
      = entries.rowCount i tablet

/-- True of entries in which all statistics agree, and are kept under one
table for every tablet. -/
structure Entries.Accounted (entries : Entries)
    (tableOf : InstanceId → TabletId → TableId) : Prop where
  agree : ∀ i tablet, i.IsValid →
    entries.StatsAgree i (tableOf i tablet) tablet
  others : ∀ i table tablet, i.IsValid → table ≠ tableOf i tablet →
    entries.HasStats i table tablet none

/-- True of entries in which the totals of all tablets are small enough. -/
def Entries.IsBounded (entries : Entries) : Prop :=
  ∀ i tablet, entries.entryCount i tablet < 2 ^ 63
    ∧ entries.rowCount i tablet < 2 ^ 63

/-- True of statistics that change by just as much as they should, so no
addition is cut off at the end of the range. -/
def TabletStats.AddsUp (stats : TabletStats) (entries rows : Int) : Prop :=
  ((stats.change entries rows).entries.toNat : Int)
      = stats.entries.toNat + entries
    ∧ ((stats.change entries rows).rows.toNat : Int) = stats.rows.toNat + rows

/-- A change of a tablet whose statistics add up. -/
def ExactChange (i : InstanceId) (table : TableId) (tablet : TabletId)
    (before after : Entries) : Prop :=
  ∃ mid entries rows record, BitmapChange i tablet before mid entries rows
    ∧ mid.HasStats i table tablet record
    ∧ (record.getD { tablet := tablet.val }).AddsUp entries rows
    ∧ StatsChange i table tablet entries rows mid after

variable {i : InstanceId} {table : TableId} {tablet : TabletId}
  {before mid after : Entries} {tableOf : InstanceId → TabletId → TableId}

theorem Entries.HasStats.unique {entries : Entries} {a b : Option TabletStats}
    (ha : entries.HasStats i table tablet a)
    (hb : entries.HasStats i table tablet b) : a = b :=
  Option.map_injective (fun _ _ h => Option.some.inj h) (ha.symm.trans hb)

theorem Entries.StatsAgree.congr (h : before.StatsAgree i table tablet)
    (hentries : ∀ key, tablet.stem i <+: key →
      after.get? key = before.get? key)
    (hstats : after.get? (.ofText (Key.stats i table tablet))
      = before.get? (.ofText (Key.stats i table tablet))) :
    after.StatsAgree i table tablet := by
  obtain ⟨record, hrecord, hcounts⟩ := h.counts
  refine ⟨fun key value hkey hvalue =>
    h.readable key value hkey (hentries key hkey ▸ hvalue), record, ?_, ?_⟩
  · rw [HasStats, hstats]
    exact hrecord
  · rw [entryCount, rowCount, tally_congr _ hentries, tally_congr _ hentries]
    exact hcounts

theorem Entries.Accounted.congr (h : before.Accounted tableOf)
    (hentries : ∀ (i : InstanceId) (tablet : TabletId) key, i.IsValid →
      tablet.stem i <+: key → after.get? key = before.get? key)
    (hstats : ∀ (i : InstanceId) table tablet, i.IsValid →
      after.get? (.ofText (Key.stats i table tablet))
        = before.get? (.ofText (Key.stats i table tablet))) :
    after.Accounted tableOf := by
  refine ⟨fun i tablet hi => (h.agree i tablet hi).congr
    (fun key => hentries i tablet key hi) (hstats i _ tablet hi),
    fun i table tablet hi htable => ?_⟩
  rw [HasStats, hstats i table tablet hi]
  exact h.others i table tablet hi htable

theorem Entries.accounted_empty : (∅ : Entries).Accounted tableOf :=
  ⟨fun _ _ _ => ⟨nofun, none, rfl, rfl, rfl⟩, fun _ _ _ _ _ => rfl⟩

-- ================================================== one change

theorem TabletChange.get?_stats {j : InstanceId} {other : TableId}
    {b : TabletId} (h : TabletChange i table tablet before after)
    (hi : i.IsValid) (hj : j.IsValid)
    (hne : ¬ (j = i ∧ other = table ∧ b = tablet)) :
    after.get? (.ofText (Key.stats j other b))
      = before.get? (.ofText (Key.stats j other b)) := by
  obtain ⟨mid, entries, rows, hbitmap, hstats⟩ := h
  rw [← hbitmap.others _ (Key.not_extends_stats hi hj)]
  rcases hstats with ⟨-, -, rfl⟩ | ⟨record, -, rfl⟩
  · rfl
  · exact SortedMap.get?_insert_of_ne _ _ fun heq =>
      hne (Key.stats_inj hj hi (Bytes.ofText_inj heq))

theorem TabletChange.get?_entry {j : InstanceId} {b : TabletId} {key : Bytes}
    (h : TabletChange i table tablet before after) (hi : i.IsValid)
    (hj : j.IsValid) (hne : ¬ (j = i ∧ b = tablet)) (hkey : b.stem j <+: key) :
    after.get? key = before.get? key := by
  obtain ⟨mid, entries, rows, hbitmap, hstats⟩ := h
  rw [hstats.get?_of_extends hi hj hkey]
  exact hbitmap.others key fun hkey' =>
    hne (Key.tabletStem_disjoint hj hi hkey hkey')

/-- The statistics of a tablet follow a change of its entries. -/
theorem Entries.StatsAgree.change (h : before.StatsAgree i table tablet)
    (hi : i.IsValid) (hchange : TabletChange i table tablet before after)
    (hbound : after.IsBounded) :
    after.StatsAgree i table tablet
      ∧ ExactChange i table tablet before after := by
  obtain ⟨mid, entries, rows, hbitmap, hstats⟩ := hchange
  obtain ⟨record, hrecord, hentries, hrows⟩ := h.counts
  have hmid : mid.HasStats i table tablet record := by
    rw [HasStats, hbitmap.others _ (Key.not_extends_stats hi hi)]
    exact hrecord
  have hsame : ∀ key, tablet.stem i <+: key → after.get? key = mid.get? key :=
    fun key hkey => hstats.get?_of_extends hi hi hkey
  have hentryCount : after.entryCount i tablet = mid.entryCount i tablet :=
    tally_congr _ hsame
  have hrowCount : after.rowCount i tablet = mid.rowCount i tablet :=
    tally_congr _ hsame
  obtain ⟨hentryBound, hrowBound⟩ := hbound i tablet
  have hentriesAfter := hbitmap.entries_eq
  have hrowsAfter := hbitmap.rows_eq
  -- both counts stay within their range, so none is cut off
  have hchanged : ((record.getD { tablet := tablet.val }).change entries
        rows).entries.toNat = after.entryCount i tablet
      ∧ ((record.getD { tablet := tablet.val }).change entries
        rows).rows.toNat = after.rowCount i tablet :=
    ⟨TabletStats.toNat_shift (by omega) (Nat.lt_trans hentryBound (by decide)),
      TabletStats.toNat_shift (by omega) (Nat.lt_trans hrowBound (by decide))⟩
  have hreadable : ∀ key value, tablet.stem i <+: key →
      after.get? key = some value →
      ∃ rows : RowSet, decode value = .ok rows
        ∧ rowsIn value = rows.cardinality := by
    intro key value hkey hvalue
    rw [hsame key hkey] at hvalue
    rcases hbitmap.written key value hvalue with hold | ⟨_, _, _, set, -, rfl⟩
    · exact h.readable key value hkey hold
    · exact ⟨set, set.decode_encode, rowsIn_encode set⟩
  refine ⟨⟨hreadable, ?_⟩, mid, entries, rows, record, hbitmap, hmid,
    ⟨?_, ?_⟩, hstats⟩
  · rcases hstats with ⟨hzero, hzero', rfl⟩ | ⟨found, hfound, rfl⟩
    · exact ⟨record, hmid, by omega, by omega⟩
    · obtain rfl := hfound.unique hmid
      refine ⟨some _, ?_, hchanged⟩
      rw [HasStats, SortedMap.get?_insert_self, Option.map_some,
        TabletStats.decode?_encode]
      rfl
  · rw [hchanged.1]
    omega
  · rw [hchanged.2]
    omega

theorem Entries.Accounted.change (h : before.Accounted tableOf)
    (hi : i.IsValid) (htable : table = tableOf i tablet)
    (hchange : TabletChange i table tablet before after)
    (hbound : after.IsBounded) :
    after.Accounted tableOf ∧ ExactChange i table tablet before after := by
  obtain ⟨hagree, hexact⟩ := ((htable ▸ h.agree i tablet hi :
    before.StatsAgree i table tablet)).change hi hchange hbound
  refine ⟨⟨fun j b hj => ?_, fun j other b hj hother => ?_⟩, hexact⟩
  · by_cases hsame : j = i ∧ b = tablet
    · obtain ⟨rfl, rfl⟩ := hsame
      exact htable ▸ hagree
    · exact (h.agree j b hj).congr
        (fun key hkey => hchange.get?_entry hi hj hsame hkey)
        (hchange.get?_stats hi hj fun ⟨hji, _, hb⟩ => hsame ⟨hji, hb⟩)
  · rw [HasStats, hchange.get?_stats hi hj]
    · exact h.others j other b hj hother
    · rintro ⟨rfl, rfl, rfl⟩
      exact hother htable

-- ================================================== all commits

/-- True of commits that store or remove entries of a tablet, named with a
table. -/
def Granted.Changes (g : Granted) (i : InstanceId) (table : TableId)
    (tablet : TabletId) : Prop :=
  (∃ r, g.call = .updateBitmap r ∧ InstanceId.ofText r.instanceName = .ok i
      ∧ r.table = table ∧ r.tablet = tablet)
    ∨ ∃ r, g.call = .removeBitmap r ∧ InstanceId.ofText r.instanceName = .ok i
      ∧ r.table = table ∧ r.tablet = tablet

/-- True of commits that name every tablet with its table. -/
def Granted.IsNamed (g : Granted)
    (tableOf : InstanceId → TabletId → TableId) : Prop :=
  ∀ i table tablet, g.Changes i table tablet → table = tableOf i tablet

variable {route : InstanceId → LockVersion} {s : Traffic} {g : Granted}

theorem Granted.Changes.isValid (h : g.Changes i table tablet) :
    i.IsValid := by
  rcases h with ⟨r, -, hi, -⟩ | ⟨r, -, hi, -⟩
  · exact InstanceId.isValid_of_ofText hi
  · exact InstanceId.isValid_of_ofText hi

/-- A commit that changes a tablet does so as its request does. -/
theorem Granted.tabletChange (h : g.Sound route s)
    (hchanges : g.Changes i table tablet) :
    TabletChange i table tablet g.before.live g.after.live := by
  have heffect := h.effect
  rcases hchanges with ⟨r, hcall, hi, rfl, rfl⟩ | ⟨r, hcall, hi, rfl, rfl⟩
  · rw [hcall] at heffect
    obtain ⟨j, kind, heffect⟩ := heffect
    obtain rfl := Except.ok.inj (hi.symm.trans heffect.instance_eq)
    exact heffect.change
  · rw [hcall] at heffect
    obtain ⟨j, heffect⟩ := heffect
    obtain rfl := Except.ok.inj (hi.symm.trans heffect.instance_eq)
    exact heffect.change

/-- A commit that changes no tablet writes to locks alone. -/
theorem Granted.get?_of_not_changes (h : g.Sound route s)
    (hchanges : ∀ i table tablet, ¬ g.Changes i table tablet) {key : Bytes}
    (hkey : ∀ (i : InstanceId) (scope : LockScope), i.IsValid →
      key ≠ scope.keyBytes i) : g.after.live.get? key = g.before.live.get? key := by
  have heffect := h.effect
  cases hcall : g.call with
  | acquireLock r =>
      rw [hcall] at heffect
      obtain ⟨j, kind, scopes, now, expiration, heffect⟩ := heffect
      exact heffect.others key fun scope _ =>
        hkey j scope (InstanceId.isValid_of_ofText heffect.instance_eq)
  | releaseLock r =>
      rw [hcall] at heffect
      obtain ⟨j, kind, scopes, heffect⟩ := heffect
      exact heffect.others key fun scope _ =>
        hkey j scope (InstanceId.isValid_of_ofText heffect.instance_eq)
  | updateBitmap r =>
      rw [hcall] at heffect
      obtain ⟨j, kind, heffect⟩ := heffect
      exact absurd (.inl ⟨r, hcall, heffect.instance_eq, rfl, rfl⟩)
        (hchanges j r.table r.tablet)
  | readBitmap r =>
      rw [hcall] at heffect
      exact heffect.elim
  | removeBitmap r =>
      rw [hcall] at heffect
      obtain ⟨j, heffect⟩ := heffect
      exact absurd (.inr ⟨r, hcall, heffect.instance_eq, rfl, rfl⟩)
        (hchanges j r.table r.tablet)

/-- A commit keeps the account. -/
theorem Granted.accounted (h : g.Sound route s)
    (hbefore : g.before.live.Accounted tableOf) (hnamed : g.IsNamed tableOf)
    (hbound : g.after.live.IsBounded) :
    g.after.live.Accounted tableOf
      ∧ ∀ i table tablet, g.Changes i table tablet →
        ExactChange i table tablet g.before.live g.after.live := by
  have hchange : ∀ i table tablet, g.Changes i table tablet →
      g.after.live.Accounted tableOf
        ∧ ExactChange i table tablet g.before.live g.after.live :=
    fun i table tablet hchanges => hbefore.change hchanges.isValid
      (hnamed i table tablet hchanges) (g.tabletChange h hchanges) hbound
  refine ⟨?_, fun i table tablet hchanges => (hchange i table tablet
    hchanges).2⟩
  by_cases hchanges : ∃ i table tablet, g.Changes i table tablet
  · obtain ⟨i, table, tablet, hchanges⟩ := hchanges
    exact (hchange i table tablet hchanges).1
  · have hnone : ∀ i table tablet, ¬ g.Changes i table tablet :=
      fun i table tablet hc => hchanges ⟨i, table, tablet, hc⟩
    refine hbefore.congr
      (fun i tablet key hi hkey => g.get?_of_not_changes h hnone
        fun j scope hj heq => ?_)
      fun i table tablet hi => g.get?_of_not_changes h hnone
        fun j scope hj heq => ?_
    · rw [heq] at hkey
      exact Key.not_extends_lock hi hj hkey
    · exact LockScope.key_ne_stats hj hi (Bytes.ofText_inj heq).symm

/-- All commits from an empty store keep the account. -/
theorem accounted_of_chained :
    ∀ {commits : List Granted} {last : Store}, Chained {} commits last →
      (∀ g ∈ commits, g.Sound route s ∧ g.IsNamed tableOf
        ∧ g.after.live.IsBounded) →
      last.live.Accounted tableOf
        ∧ ∀ g ∈ commits, ∀ i table tablet, g.Changes i table tablet →
          ExactChange i table tablet g.before.live g.after.live := by
  intro commits
  induction commits with
  | nil =>
      intro last hchained _
      rw [show last = {} from hchained]
      exact ⟨Entries.accounted_empty, nofun⟩
  | cons g earlier ih =>
      intro last hchained hcommits
      obtain ⟨rfl, hearlier⟩ := hchained
      obtain ⟨hbefore, hexact⟩ :=
        ih hearlier fun x hx => hcommits x (List.mem_cons_of_mem _ hx)
      obtain ⟨hsound, hnamed, hbound⟩ := hcommits g (List.mem_cons_self ..)
      obtain ⟨hafter, hchange⟩ := g.accounted hsound hbefore hnamed hbound
      refine ⟨hafter, fun x hx => ?_⟩
      rcases List.mem_cons.1 hx with rfl | hx
      · exact hchange
      · exact hexact x hx

/-- The statistics of every tablet agree with its stored entries, in all
traffic that starts from an empty store, if commits name every tablet with
its table and the totals that they leave are small enough: the record under
the table of a tablet, none counting as zeros, tells the number of live
entries and the sum of the cardinalities of the sets in them. No commit
changes a count by less than it should. -/
theorem stats_agree (h : Traffic.Reachable route {} s)
    (hnamed : ∀ g ∈ s.history, g.IsNamed tableOf)
    (hbound : ∀ g ∈ s.history, g.after.live.IsBounded) :
    s.store.live.Accounted tableOf
      ∧ ∀ g ∈ s.history, ∀ i table tablet, g.Changes i table tablet →
        ExactChange i table tablet g.before.live g.after.live := by
  have hsound := Traffic.sound_of_reachable h
  exact accounted_of_chained hsound.chained fun g hg =>
    ⟨hsound.granted g hg, hnamed g hg, hbound g hg⟩

/-- Few entries with few rows are bounded. -/
theorem Entries.isBounded_of_total {entries : Entries}
    (hentries : total (fun _ => 1) entries.toList < 2 ^ 63)
    (hrows : total (fun b => rowsIn b.2) entries.toList < 2 ^ 63) :
    entries.IsBounded := fun _ _ =>
  ⟨Nat.lt_of_le_of_lt (tally_le _ entries) hentries,
    Nat.lt_of_le_of_lt (tally_le _ entries) hrows⟩

/-- A request of a lock-free compaction that stores an entry of a tablet. -/
def UpdateBitmap.ofRow (row : UInt32) : UpdateBitmap where
  instanceName := "inst"
  table := ⟨1⟩
  tablet := ⟨2⟩
  lockId := -3
  bitmap := .ofList [(⟨⟨"rowset"⟩, ⟨0⟩, ⟨3⟩⟩, (∅ : RowSet).insert row)]

/-- The statistics of a tablet agree with its entries after one of them has
been stored and replaced. -/
theorem stats_agree_replaced : ∃ s x g,
    Traffic.Reachable (fun _ => .v1) {} s ∧ s.history = [x, g]
      ∧ x.call = .updateBitmap (.ofRow 5) ∧ g.call = .updateBitmap (.ofRow 4)
      ∧ s.store.live.StatsAgree ⟨"inst"⟩ ⟨1⟩ ⟨2⟩ := by
  obtain ⟨s, hs⟩ : ∃ s, s = Traffic.served (fun _ => .v1) ⟨1000, 0⟩ 20
    [.updateBitmap (.ofRow 5), .updateBitmap (.ofRow 4)] := ⟨_, rfl⟩
  have hreachable : Traffic.Reachable (fun _ => .v1) {} s := by
    rw [hs]
    exact Traffic.reachable_served _ ⟨by decide +kernel, by decide⟩ 20 _
  obtain ⟨x, g, hhistory, ⟨-, hx⟩, -, hg⟩ :=
    Traffic.history_pair (fun _ => .v1) ⟨1000, 0⟩ 20
      (.updateBitmap (.ofRow 4)) (.updateBitmap (.ofRow 5))
      (by decide +kernel) (by decide +kernel)
  have hsmall : s.history.all (fun g =>
      total (fun _ => 1) g.after.live.toList < 2 ^ 63
      && total (fun b => rowsIn b.2) g.after.live.toList < 2 ^ 63) = true := by
    rw [hs]
    decide +kernel
  rw [← hs] at hhistory
  have hcalls : ∀ y ∈ s.history, ∃ row, y.call = .updateBitmap (.ofRow row) := by
    intro y hy
    rw [hhistory] at hy
    rcases List.mem_cons.1 hy with rfl | hy
    · exact ⟨5, hx⟩
    · exact ⟨4, List.mem_singleton.1 hy ▸ hg⟩
  have hnamed : ∀ y ∈ s.history, y.IsNamed fun _ _ => ⟨1⟩ := by
    rintro y hy i table tablet (⟨r, hcall, -, rfl, -⟩ | ⟨r, hcall, -⟩)
    · obtain ⟨row, hrow⟩ := hcalls y hy
      obtain rfl := Call.updateBitmap.inj (hrow.symm.trans hcall)
      rfl
    · obtain ⟨row, hrow⟩ := hcalls y hy
      cases hrow.symm.trans hcall
  have hbound : ∀ y ∈ s.history, y.after.live.IsBounded := by
    intro y hy
    have hy := List.all_eq_true.1 hsmall y hy
    rw [Bool.and_eq_true, decide_eq_true_eq, decide_eq_true_eq] at hy
    exact Entries.isBounded_of_total hy.1 hy.2
  exact ⟨s, x, g, hreachable, hhistory, hx, hg,
    (stats_agree hreachable hnamed hbound).1.agree ⟨"inst"⟩ ⟨2⟩
      (by decide +kernel)⟩

end MergeOnWrite
