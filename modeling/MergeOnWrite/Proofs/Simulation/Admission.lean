/-
A request for the lock that is made when nobody else is about.

Such a request runs as on a slate, and what requests have stored are records
and nothing else. So its outcome is told by what is stored of its scopes and by
the time: all of them are granted or none. If its lease cannot be granted, it
is refused, and nothing at all has happened.

# Main statements

- `World.decides_acquireLock`: the outcome of a request for the lock, and what
  it leaves, for all leases.
-/
import MergeOnWrite.Proofs.Service.Admission
import MergeOnWrite.Proofs.Service.Integrity
import MergeOnWrite.Proofs.Simulation.Repetition

namespace MergeOnWrite

namespace World

variable {w : World} {r : AcquireLock} {i : InstanceId} {kind : LockKind}

/-- A request for the lock whose lease cannot be granted leaves the
surroundings as they are, the store included. -/
theorem respond_of_not_lasts (h : w.IsLone)
    (hi : InstanceId.ofText r.instanceName = .ok i)
    (hkind : LockKind.ofTakingLockId r.lockId = .ok kind)
    (hversion : ∀ version, r.version = some version →
      version = w.allowList.versionFor i)
    (htablets : w.allowList.versionFor i = .v2 → r.tablets ≠ [])
    (hlasts : ¬r.Lasts w.config.lock w.clock.now) :
    (w.respond true (.acquireLock r)).1 = w
      ∧ (w.respond true (.acquireLock r)).2.status.code = .invalidArgument := by
  have hroute : answerAlone (w, none) (.route i)
      = ((w, none), w.allowList.versionFor i) := rfl
  have hnow : answerAlone (w, none) .now = ((w, none), w.clock.now) := rfl
  obtain ⟨message, hfails⟩ := AcquireLock.fails_of_not_lasts hroute hnow hi
    hkind hversion htablets hlasts
  rw [respond_direct h, Call.run_attempt_of_fails hfails]
  exact ⟨rfl, rfl⟩

/-- Whatever has been stored by requests, and whatever time it is: a request
for the lock that passes its checks, is not disturbed and is refused nothing
by the store, is granted all its scopes or none, as their records tell, if its
lease runs at all and ends within the calendar. Then the lease ends later than
now, and its length in milliseconds fits into 64 bits. Any other lease is an
invalid argument, and nothing is as much as looked up in the store. -/
theorem decides_acquireLock (h : w.IsLone)
    (hserved : w.RefusesNothing (.acquireLock r)) {s : Traffic}
    (hs : s.Regular) (hlive : w.backing.store.live = s.store.live)
    (hnow : w.clock.now.isInCalendar = true)
    (hi : InstanceId.ofText r.instanceName = .ok i)
    (hkind : LockKind.ofTakingLockId r.lockId = .ok kind)
    (hversion : ∀ version, r.version = some version →
      version = w.allowList.versionFor i)
    (htablets : w.allowList.versionFor i = .v2 → r.tablets ≠ []) :
    (r.Lasts w.config.lock w.clock.now →
        w.clock.now < r.ends w.config.lock w.clock.now
        ∧ (r.secs w.config.lock).toNat * 1000 < 2 ^ 63
        ∧ r.Decides i (w.allowList.versionFor i) w.clock.now
          (r.ends w.config.lock w.clock.now) w.backing.store.live
          (w.respond true (.acquireLock r)).1.backing.store.live
          (w.respond true (.acquireLock r)).2.status.code)
      ∧ (¬r.Lasts w.config.lock w.clock.now →
        (w.respond true (.acquireLock r)).1 = w
        ∧ (w.respond true (.acquireLock r)).2.status.code
          = .invalidArgument) := by
  refine ⟨fun hlasts => ?_,
    respond_of_not_lasts h hi hkind hversion htablets⟩
  refine ⟨AcquireLock.lt_ends hlasts, AcquireLock.secs_lt hnow hlasts, ?_⟩
  have hrecords : w.backing.store.live.AreRecords := by
    rw [hlive]
    exact (Traffic.kept_of_regular hs).live
  obtain ⟨slate, response, hrun, hdecides⟩ := AcquireLock.decides_attempt
    ⟨hnow, w.clock.nano_lt⟩ hrecords hi hkind hversion htablets hlasts
  obtain ⟨slate', response', hrun', hresponse, hafter⟩ :=
    respond_shows h hserved
  obtain ⟨rfl, rfl⟩ := Prod.mk.inj (hrun.symm.trans hrun')
  rw [hresponse, hafter]
  exact hdecides

/-- Of two tablets one is held by a load for a minute, the other one by a
compaction for five seconds. -/
def twoHeld : Traffic :=
  Traffic.served (fun _ => .v2) ⟨1000, 0⟩ 20
    [.acquireLock { instanceName := "inst", table := ⟨1⟩, tablets := [⟨2⟩],
                    lockId := -1, initiator := 5, leaseSecs := some 5 },
      .acquireLock { instanceName := "inst", table := ⟨1⟩, tablets := [⟨1⟩],
                     lockId := 101, initiator := 1, leaseSecs := some 60 }]

/-- The same, in the moment in which the lease of the compaction ends. -/
def fiveSecondsOn : World where
  config := {}
  backing.store := twoHeld.store
  clock.base := ⟨1005, 0⟩
  allowList := ⟨["inst"]⟩

/-- Another load asks for both tablets and for a third one, for as long as
the configuration tells. -/
abbrev lockThree : AcquireLock where
  instanceName := "inst"
  table := ⟨1⟩
  tablets := [⟨3⟩, ⟨1⟩, ⟨2⟩]
  lockId := 102
  initiator := 2

/-- It joins the first load, takes over from the compaction, whose lease ends
that very moment, and acquires the third tablet. -/
theorem decides_acquireLock_three : ∃ after,
    (fiveSecondsOn.respond true (.acquireLock lockThree)).1.backing.store.live
        = after
      ∧ (fiveSecondsOn.respond true (.acquireLock lockThree)).2.status.code
        = .ok
      ∧ (∃ record, after.HasLock ⟨"inst"⟩ (.tablet ⟨1⟩ ⟨1⟩) (some record)
        ∧ record.lockId = 101 ∧ record.lists 2 = true
        ∧ record.expiration = ⟨1060, 0⟩)
      ∧ after.HasLock ⟨"inst"⟩ (.tablet ⟨1⟩ ⟨2⟩)
        (some ⟨102, SortedSet.ofList [2], ⟨1015, 0⟩⟩)
      ∧ after.HasLock ⟨"inst"⟩ (.tablet ⟨1⟩ ⟨3⟩)
        (some ⟨102, SortedSet.ofList [2], ⟨1015, 0⟩⟩) := by
  have hcalm : fiveSecondsOn.IsCalm := ⟨⟨rfl, rfl, rfl, rfl, rfl⟩, rfl, rfl⟩
  have hregular : twoHeld.Regular :=
    Traffic.regular_served ⟨by decide +kernel, by decide⟩ 20 _
      (by decide +kernel)
  have hstore : fiveSecondsOn.backing.store.live = twoHeld.store.live := by
    simp only [fiveSecondsOn]
  have hnow : fiveSecondsOn.clock.now = ⟨1005, 0⟩ := by decide +kernel
  have hends : lockThree.ends fiveSecondsOn.config.lock ⟨1005, 0⟩
      = ⟨1015, 0⟩ := by
    decide +kernel
  have hroute : fiveSecondsOn.allowList.versionFor ⟨"inst"⟩ = .v2 := by
    decide +kernel
  have hdecides := ((decides_acquireLock hcalm.lone
    (refusesNothing_of_calm hcalm rfl (.acquireLock lockThree)) hregular hstore
    (by decide +kernel) (i := ⟨"inst"⟩) (by decide +kernel) rfl nofun
    (fun _ => nofun)).1 ⟨by decide, by decide +kernel⟩).2.2
  rw [hnow, hends, hroute] at hdecides
  have hload : fiveSecondsOn.backing.store.live.HasLock ⟨"inst"⟩
      (.tablet ⟨1⟩ ⟨1⟩) (some ⟨101, SortedSet.ofList [1], ⟨1060, 0⟩⟩) := by
    decide +kernel
  have hcompaction : fiveSecondsOn.backing.store.live.HasLock ⟨"inst"⟩
      (.tablet ⟨1⟩ ⟨2⟩) (some ⟨-1, SortedSet.ofList [5], ⟨1005, 0⟩⟩) := by
    decide +kernel
  have hnobody : fiveSecondsOn.backing.store.live.HasLock ⟨"inst"⟩
      (.tablet ⟨1⟩ ⟨3⟩) none := by
    decide +kernel
  generalize fiveSecondsOn.respond true (.acquireLock lockThree) = x
    at hdecides ⊢
  generalize fiveSecondsOn.backing.store.live = before
    at hdecides hload hcompaction hnobody
  have hall : ∀ scope ∈ [LockScope.tablet ⟨1⟩ ⟨3⟩, .tablet ⟨1⟩ ⟨1⟩,
      .tablet ⟨1⟩ ⟨2⟩], lockThree.MayHave ⟨"inst"⟩ ⟨1005, 0⟩ before scope := by
    simp only [List.forall_mem_cons]
    exact ⟨⟨none, hnobody, nofun⟩,
      ⟨_, hload, LockRecord.admits_some.2 (by decide)⟩,
      ⟨_, hcompaction, LockRecord.admits_some.2 (by decide)⟩, nofun⟩
  have hok := hdecides.ok_iff.2 hall
  rw [hok] at hdecides
  obtain ⟨record, hafter, hid, hlists, hends⟩ :=
    hdecides.joins (by decide) hload (by decide)
  refine ⟨_, rfl, hok, ?_, ?_, ?_⟩
  · exact ⟨record, hafter, hid, (hlists 2).2 (.inl rfl), hends⟩
  · apply hdecides.renews (by decide) hcompaction
    intro held hheld
    rw [← Option.some.inj hheld]
    decide
  · exact hdecides.renews (by decide) hnobody nofun

end World

end MergeOnWrite
