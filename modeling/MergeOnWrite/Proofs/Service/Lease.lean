/-
Lease safety.

Whoever is granted a scope stays a holder of it until the lease ends or is
given up by the same class and participant, whatever other requests do in
the meantime. The record may be joined, left and prolonged, so what is
kept is not the record but what it grants (`LockRecord.Keeps`).

# The argument

A commit finds the record as the last commit before it left it. If it
acquires the scope, it decides by that record and a reading of the clock
that is no later than the commit; the lease runs until after that, so the
scope is not taken over. If it gives up the scope, it is for another
participant, so the holder stays listed. All other commits leave the
record as it is.

# Main statements

- `lock_joins`, `lock_keeps`: one commit keeps what a record grants.
- `keeps_of_chained`: so do all commits while the lease runs.
- `lease_safe`: lease safety in all traffic.
-/
import MergeOnWrite.Proofs.Service.Alone
import MergeOnWrite.Proofs.Service.LockHistory

namespace MergeOnWrite

variable {route : InstanceId → LockVersion} {initial : Store} {s : Traffic}
  {i : InstanceId} {scope : LockScope} {kind : LockKind} {initiator : Int64}
  {granted : LockRecord}

/-- True of commits that may end the part of a participant of some class in
a scope: those that give it up for the same class and participant. -/
def Granted.Ends (route : InstanceId → LockVersion) (g : Granted)
    (i : InstanceId) (scope : LockScope) (kind : LockKind)
    (initiator : Int64) : Prop :=
  ∃ kind', g.Releases route i scope kind' initiator
    ∧ kind'.sameClass kind = true

/-- What a commit that acquires a scope may be, while a record grants the
scope to a participant: it is of the same class, and unless these are
loads, for a participant that was listed. -/
def Granted.Compatible (route : InstanceId → LockVersion) (g : Granted)
    (i : InstanceId) (scope : LockScope) (kind : LockKind)
    (granted : LockRecord) : Prop :=
  ∀ kind' other, g.Acquires route i scope kind' other →
    kind'.sameClass kind = true
      ∧ (kind.isLoad = false → granted.lists other = true)

/-- A commit before the lease ends acquires the scope for compatible
callers alone, and keeps what the record grants. -/
theorem Granted.lock_joins {g : Granted} {record : LockRecord}
    {kind' : LockKind} {other : Int64} (h : g.Sound route s)
    (hkind : kind.IsTold)
    (hrecord : g.before.live.HasLock i scope (some record))
    (hkeeps : LockRecord.Keeps kind initiator granted record)
    (hclock : g.clock < granted.expiration)
    (hacquires : g.Acquires route i scope kind' other) :
    (∃ record', g.after.live.HasLock i scope (some record')
        ∧ LockRecord.Keeps kind initiator granted record')
      ∧ kind'.sameClass kind = true
      ∧ (kind.isLoad = false → granted.lists other = true) := by
  obtain ⟨current, record', outcome, now, expiration, hcurrent, hacquire,
    hafter, hnow, -⟩ := lock_of_acquires h hacquires
  obtain rfl := hcurrent.unique hrecord
  obtain ⟨hkept, hcompatible⟩ := hkeeps.acquire hkind hacquires.isTold
    (Instant.lt_of_le_of_lt hnow hclock) hacquire
  exact ⟨⟨record', hafter, hkept⟩, hcompatible⟩

/-- A commit before the lease ends keeps what the record grants. -/
theorem Granted.lock_keeps {g : Granted} {record : LockRecord}
    (h : g.Sound route s) (hi : i.IsValid) (hkind : kind.IsTold)
    (hrecord : g.before.live.HasLock i scope (some record))
    (hkeeps : LockRecord.Keeps kind initiator granted record)
    (hclock : g.clock < granted.expiration)
    (hends : ¬ g.Ends route i scope kind initiator) :
    ∃ record', g.after.live.HasLock i scope (some record')
      ∧ LockRecord.Keeps kind initiator granted record' := by
  rcases lock_cases h hi scope with ⟨kind', other, hacquires⟩
    | ⟨kind', other, hreleases⟩ | hsame
  · exact (lock_joins h hkind hrecord hkeeps hclock hacquires).1
  · obtain ⟨current, hcurrent, hafter⟩ := lock_of_releases h hreleases
    obtain rfl := hcurrent.unique hrecord
    obtain ⟨rest, hrest, hkept⟩ := hkeeps.release hkind hreleases.isTold
      fun ⟨hclass, heq⟩ => hends ⟨kind', heq ▸ hreleases, hclass⟩
    rw [hrest] at hafter
    exact ⟨rest, hafter, hkept⟩
  · refine ⟨record, ?_, hkeeps⟩
    rw [Entries.HasLock, hsame]
    exact hrecord

/-- Commits before the lease ends keep what a record grants. -/
theorem keeps_of_chained {store : Store} (hi : i.IsValid)
    (hkind : kind.IsTold)
    (hrecord : store.live.HasLock i scope (some granted))
    (hkeeps : LockRecord.Keeps kind initiator granted granted) :
    ∀ {commits : List Granted} {last : Store}, Chained store commits last →
      (∀ g ∈ commits, g.Sound route s ∧ g.clock < granted.expiration
        ∧ ¬ g.Ends route i scope kind initiator) →
      ∃ record, last.live.HasLock i scope (some record)
        ∧ LockRecord.Keeps kind initiator granted record := by
  intro commits
  induction commits with
  | nil =>
      intro last hchained _
      rw [show last = store from hchained]
      exact ⟨granted, hrecord, hkeeps⟩
  | cons g earlier ih =>
      intro last hchained hcommits
      obtain ⟨rfl, hearlier⟩ := hchained
      obtain ⟨record, hbefore, hkept⟩ :=
        ih hearlier fun x hx => hcommits x (List.mem_cons_of_mem _ hx)
      obtain ⟨hsound, hclock, hends⟩ := hcommits g (List.mem_cons_self ..)
      exact g.lock_keeps hsound hi hkind hbefore hkept hclock hends

/-- Lease safety. A commit that acquires a scope leaves a record there that
grants it to the caller, until the end of the lease that was asked for at
least. From then on, as long as no commit gives up the scope for the same
class and participant:

- while the clock shows less than the end of the lease, the record at the
  scope is of that class, lists the participant and ends no earlier, so a
  check of the lease at any time before its end succeeds;
- nobody acquires the scope before the end of the lease who is of another
  class, or, unless loads hold it, was not listed. -/
theorem lease_safe (h : Traffic.Reachable route initial s) {g : Granted}
    {later earlier : List Granted} (hhistory : s.history = later ++ g :: earlier)
    (hacquires : g.Acquires route i scope kind initiator) :
    ∃ granted requested, g.after.live.HasLock i scope (some granted)
      ∧ granted.isHeldBy kind = true ∧ granted.lists initiator = true
      ∧ g.AskedUntil requested ∧ requested ≤ granted.expiration
      ∧ (s.clock < granted.expiration →
        (∀ x ∈ later, ¬ x.Ends route i scope kind initiator) →
        ∃ record, s.store.live.HasLock i scope (some record)
          ∧ record.isHeldBy kind = true ∧ record.lists initiator = true
          ∧ granted.expiration ≤ record.expiration
          ∧ ∀ now, now < granted.expiration →
            LockRecord.holds (some record) kind initiator now = true)
      ∧ ∀ newer x older, later = newer ++ x :: older →
        x.clock < granted.expiration →
        (∀ y ∈ older, ¬ y.Ends route i scope kind initiator) →
        x.Compatible route i scope kind granted := by
  have hsound := Traffic.sound_of_reachable h
  have hgranted : ∀ x ∈ later, x.Sound route s := fun x hx =>
    hsound.granted x (hhistory ▸ List.mem_append_left _ hx)
  have hg : g.Sound route s := hsound.granted g (hhistory ▸ by simp)
  have hchained : Chained g.after later s.store :=
    (hhistory ▸ hsound.chained).after
  obtain ⟨current, granted, outcome, now, requested, -, hacquire, hrecord, -,
    hasked⟩ := Granted.lock_of_acquires hg hacquires
  have hkind := hacquires.isTold
  have hi := hacquires.isValid
  obtain ⟨hheld, hlists, hle⟩ := LockRecord.isHeldBy_of_acquire hkind hacquire
  have hkeeps : LockRecord.Keeps kind initiator granted granted :=
    ⟨hheld, hlists, Instant.le_refl _, fun _ _ => id⟩
  refine ⟨granted, requested, hrecord, hheld, hlists, hasked, hle,
    fun hclock hends => ?_, fun newer x older hlater hclock hends => ?_⟩
  · obtain ⟨record, hlast, hkept⟩ := keeps_of_chained hi hkind hrecord hkeeps
      hchained fun x hx => ⟨hgranted x hx, Instant.lt_of_le_of_lt
        (hgranted x hx).clock_le hclock, hends x hx⟩
    exact ⟨record, hlast, hkept.isHeldBy, hkept.lists, hkept.expiration_le,
      fun now hnow => LockRecord.holds_some hkept.isHeldBy hkept.lists
        (Instant.lt_of_lt_of_le hnow hkept.expiration_le)⟩
  · -- the clock showed less at all commits before this one
    have hordered : ∀ y ∈ older, y.clock ≤ x.clock := by
      intro y hy
      have hpairs := hhistory ▸ hsound.ordered
      rw [hlater, List.append_assoc] at hpairs
      exact (List.pairwise_cons.1 (List.pairwise_append.1 hpairs).2.1).1 y
        (List.mem_append_left _ hy)
    have hsub : ∀ y ∈ x :: older, y.Sound route s := fun y hy =>
      hgranted y (hlater ▸ List.mem_append_right _ hy)
    obtain ⟨record, hbefore, hkept⟩ := keeps_of_chained hi hkind hrecord hkeeps
      (hlater ▸ hchained).before fun y hy =>
        ⟨hsub y (List.mem_cons_of_mem _ hy),
          Instant.lt_of_le_of_lt (hordered y hy) hclock,
          hends y hy⟩
    exact fun kind' other hacquires' => (x.lock_joins
      (hsub x (List.mem_cons_self ..)) hkind hbefore hkept hclock hacquires').2

/-- A request of a load for the lock of a table. -/
def AcquireLock.ofLoad (load : Int64) : AcquireLock where
  instanceName := "inst"
  table := ⟨1⟩
  lockId := load
  initiator := load

/-- The first of two loads still holds the lock of a table after the second
one has joined it. -/
theorem lease_safe_two_loads : ∃ s x g record,
    Traffic.Reachable (fun _ => .v1) {} s ∧ s.clock = ⟨1000, 0⟩
      ∧ s.history = [x] ++ g :: []
      ∧ x.call = .acquireLock (.ofLoad 8) ∧ g.call = .acquireLock (.ofLoad 7)
      ∧ s.store.live.HasLock ⟨"inst"⟩ (.table ⟨1⟩) (some record)
      ∧ LockRecord.holds (some record) (.load 7) 7 ⟨1009, 0⟩ = true := by
  let s := Traffic.served (fun _ => .v1) ⟨1000, 0⟩ 20
    [.acquireLock (.ofLoad 8), .acquireLock (.ofLoad 7)]
  have hreachable : Traffic.Reachable (fun _ => .v1) {} s :=
    Traffic.reachable_served _ ⟨by decide +kernel, by decide⟩ 20 _
  obtain ⟨x, g, hhistory, ⟨-, hx⟩, hconfig, hg⟩ :=
    Traffic.history_pair (fun _ => .v1) ⟨1000, 0⟩ 20 (.acquireLock (.ofLoad 7))
      (.acquireLock (.ofLoad 8)) (by decide +kernel) (by decide +kernel)
  replace hhistory : s.history = [x] ++ g :: [] := hhistory
  have hclock : s.clock = ⟨1000, 0⟩ := by decide +kernel
  have hall : s.history.all (·.readings = [⟨1000, 0⟩]) = true := by
    decide +kernel
  have hreadings : g.readings = [⟨1000, 0⟩] :=
    of_decide_eq_true (List.all_eq_true.1 hall g (by simp [hhistory]))
  have hname : InstanceId.ofText "inst" = .ok ⟨"inst"⟩ := by
    rw [InstanceId.ofText,
      show (⟨"inst"⟩ : InstanceId).IsValid by decide +kernel]
    rfl
  have hacquires : g.Acquires (fun _ => .v1) ⟨"inst"⟩ (.table ⟨1⟩) (.load 7) 7 :=
    ⟨.ofLoad 7, hg, ⟨hname, _, rfl, List.mem_singleton_self _⟩, rfl, rfl⟩
  obtain ⟨granted, requested, -, -, -, ⟨r, now, hcall, hnow, hasked⟩, hle,
    hkept, -⟩ := lease_safe hreachable hhistory hacquires
  -- the lease was asked for ten seconds, the configured time
  have hlease : Handler.leaseEnd ⟨1000, 0⟩ 10 = .ok ⟨1010, 0⟩ := by rfl
  obtain rfl := Call.acquireLock.inj (hg.symm.trans hcall)
  obtain rfl : now = ⟨1000, 0⟩ :=
    (List.cons.inj (hnow.symm.trans hreadings)).1
  rw [hconfig] at hasked
  obtain rfl := Except.ok.inj (hlease.symm.trans hasked)
  have hends : ∀ y ∈ [x], ¬ y.Ends (fun _ => .v1) ⟨"inst"⟩ (.table ⟨1⟩)
      (.load 7) 7 := by
    rintro y hy ⟨kind', ⟨r, hrelease, -⟩, -⟩
    rw [List.mem_singleton.1 hy, hx] at hrelease
    cases hrelease
  obtain ⟨record, hrecord, -, -, -, hholds⟩ := hkept
    (Instant.lt_of_lt_of_le (by rw [hclock]; decide) hle) hends
  exact ⟨s, x, g, record, hreachable, hclock, hhistory, hx, hg, hrecord,
    hholds _ (Instant.lt_of_lt_of_le (by decide) hle)⟩

end MergeOnWrite
