/-
Who is admitted to a scope, and what record that makes.

Of a request for a scope only the lock id, the participant and two instants
matter: when it is made and until when the lease is to run. Whether it is
granted is told here in these terms, without the steps of the decision
(`Admits`), and so are the record that comes of it (`Admission`) and who holds
a scope by a record (`Covers`).

# Main statements

- `told_of_ofTakingLockId`, `not_told_of_ofTakingLockId`: the lock ids of
  those who may take the lock.
- `acquire_of_admits`, `acquire_of_not_admits`: a request is granted a scope
  if it is admitted, and finds it busy if not.
- `admission_of_acquire`: what record it is granted.
- `holds_iff_covers`: who holds a scope.
-/
import MergeOnWrite.Proofs.Lock.Transition

namespace MergeOnWrite

namespace LockKind

variable {id : Int64} {kind : LockKind} {e : ServiceError}

theorem lockId_of_ofTakingLockId (h : ofTakingLockId id = .ok kind) :
    kind.lockId = id :=
  lockId_of_ofLockId (ofLockId_of_ofTakingLockId h)

/-- The lock ids that tell a class. -/
theorem told_of_ofLockId (h : ofLockId id = .ok kind) :
    id = -1 ∨ id = -2 ∨ id = -3 ∨ 0 < id := by
  have hid := lockId_of_ofLockId h
  have hkind := isTold_of_ofLockId h
  cases kind with
  | compaction => exact .inl hid.symm
  | schemaChange => exact .inr (.inl hid.symm)
  | lockFreeCompaction => exact .inr (.inr (.inl hid.symm))
  | load txn =>
      rw [← hid]
      exact .inr (.inr (.inr (hkind.isLoad_iff.1 rfl)))

theorem not_told_of_ofLockId (h : ofLockId id = .error e) :
    ¬ (id = -1 ∨ id = -2 ∨ id = -3 ∨ 0 < id)
      ∧ e.code = .invalidArgument := by
  unfold ofLockId at h
  split at h
  · cases h
  · split at h
    · cases h
    · split at h
      · cases h
      · split at h
        · cases h
        · cases h
          simp_all [ServiceError.code]

/-- Those of them that tell a class that takes the lock. -/
theorem told_of_ofTakingLockId (h : ofTakingLockId id = .ok kind) :
    id = -1 ∨ id = -2 ∨ 0 < id := by
  have hkind := ofLockId_of_ofTakingLockId h
  rcases told_of_ofLockId hkind with hid | hid | hid | hid
  · exact .inl hid
  · exact .inr (.inl hid)
  · subst hid
    cases h
  · exact .inr (.inr hid)

theorem not_told_of_ofTakingLockId (h : ofTakingLockId id = .error e) :
    ¬ (id = -1 ∨ id = -2 ∨ 0 < id) ∧ e.code = .invalidArgument := by
  unfold ofTakingLockId at h
  cases hkind : ofLockId id with
  | error e' =>
      rw [hkind] at h
      obtain rfl := Except.error.inj h
      obtain ⟨hnot, hcode⟩ := not_told_of_ofLockId hkind
      refine ⟨fun hid => hnot ?_, hcode⟩
      rcases hid with hid | hid | hid
      · exact .inl hid
      · exact .inr (.inl hid)
      · exact .inr (.inr (.inr hid))
  | ok kind =>
      rw [hkind] at h
      cases kind with
      | compaction | schemaChange | load => cases h
      | lockFreeCompaction =>
          have hid := lockId_of_ofLockId hkind
          obtain rfl := Except.error.inj h
          subst hid
          exact ⟨by decide, rfl⟩

end LockKind

namespace LockRecord

/-- True of a scope that a request may have: nobody holds it, or the lease has
ended, or loads hold it and a load asks for it, or it is the participant's
already. -/
def Admits (current : Option LockRecord) (lockId initiator : Int64)
    (now : Instant) : Prop :=
  ∀ held, current = some held →
    held.expiration ≤ now
      ∨ 0 < held.lockId ∧ 0 < lockId
      ∨ held.lockId = lockId ∧ held.lists initiator = true

/-- True of the record of a scope that a participant holds at some time: its
lease runs, it is of the participant's class, and it lists the participant.
All loads are of one class. -/
def Covers (current : Option LockRecord) (lockId initiator : Int64)
    (now : Instant) : Prop :=
  ∃ held, current = some held ∧ now < held.expiration
    ∧ (0 < held.lockId ∧ 0 < lockId ∨ held.lockId = lockId)
    ∧ held.lists initiator = true

/-- What an admitted request makes of a scope: a record of its own where
nobody holds the scope or the lease has ended; elsewhere one that lists the
participant too, until the later of the two ends. -/
structure Admission (current : Option LockRecord) (lockId initiator : Int64)
    (now expiration : Instant) (record : LockRecord) : Prop where
  alone : (∀ held, current = some held → held.expiration ≤ now) →
    record = ⟨lockId, SortedSet.ofList [initiator], expiration⟩
  beside : ∀ held, current = some held → now < held.expiration →
    record.lockId = held.lockId
      ∧ (∀ other, record.lists other = true
        ↔ other = initiator ∨ held.lists other = true)
      ∧ record.expiration = held.expiration.latest expiration

variable {current : Option LockRecord} {kind : LockKind} {initiator : Int64}
  {now expiration : Instant} {held record : LockRecord} {outcome : LockOutcome}

@[simp] theorem admits_none (lockId initiator : Int64) (now : Instant) :
    Admits none lockId initiator now :=
  nofun

@[simp] theorem admits_some {lockId : Int64} :
    Admits (some held) lockId initiator now
      ↔ held.expiration ≤ now
        ∨ 0 < held.lockId ∧ 0 < lockId
        ∨ held.lockId = lockId ∧ held.lists initiator = true := by
  simp [Admits]

theorem isExpired_iff : held.isExpired now = true ↔ held.expiration ≤ now :=
  decide_eq_true_iff

/-- A participant joins a record whose lease runs if it is listed there for
its lock id, or if this is a record of loads and it is of a load. -/
theorem joins_iff (hkind : kind.IsTold) :
    (held.lockId = kind.lockId ∧ held.lists initiator = true
        ∨ kind.isLoad = true ∧ held.isLoad = true)
      ↔ 0 < held.lockId ∧ 0 < kind.lockId
        ∨ held.lockId = kind.lockId ∧ held.lists initiator = true := by
  rw [hkind.isLoad_iff, isLoad, decide_eq_true_iff, or_comm,
    and_comm (a := 0 < held.lockId)]

/-- Who is admitted is granted the scope. -/
theorem acquire_of_admits (hkind : kind.IsTold) (expiration : Instant)
    (h : Admits current kind.lockId initiator now) :
    ∃ record outcome, acquire current kind initiator now expiration
      = .granted record outcome := by
  cases current with
  | none => exact ⟨_, _, rfl⟩
  | some held =>
      rw [admits_some, ← isExpired_iff, ← joins_iff hkind] at h
      unfold acquire
      by_cases hexpired : held.isExpired now = true
      · exact ⟨_, _, if_pos hexpired⟩
      · have hjoins := h.resolve_left hexpired
        exact ⟨_, _, (if_neg hexpired).trans (if_pos hjoins)⟩

/-- Who is not admitted finds the scope busy. -/
theorem acquire_of_not_admits (hkind : kind.IsTold) (expiration : Instant)
    (h : ¬Admits current kind.lockId initiator now) :
    ∃ holder, acquire current kind initiator now expiration
      = .busy holder := by
  cases current with
  | none => exact absurd (admits_none _ _ _) h
  | some held =>
      rw [admits_some, ← isExpired_iff, ← joins_iff hkind, not_or] at h
      unfold acquire
      exact ⟨held, (if_neg h.1).trans (if_neg h.2)⟩

/-- Only who is admitted is granted a scope. -/
theorem admits_of_acquire (hkind : kind.IsTold)
    (h : acquire current kind initiator now expiration
      = .granted record outcome) :
    Admits current kind.lockId initiator now := by
  apply Classical.byContradiction
  intro hnot
  obtain ⟨holder, hbusy⟩ := acquire_of_not_admits hkind expiration hnot
  rw [hbusy] at h
  cases h

theorem not_admits_of_acquire (hkind : kind.IsTold)
    (h : acquire current kind initiator now expiration = .busy held) :
    ¬ Admits current kind.lockId initiator now := by
  intro hadmits
  obtain ⟨record, outcome, hgranted⟩ :=
    acquire_of_admits hkind expiration hadmits
  rw [hgranted] at h
  cases h

/-- What is granted is what admission makes of a scope. -/
theorem admission_of_acquire (h : acquire current kind initiator now expiration
    = .granted record outcome) :
    Admission current kind.lockId initiator now expiration record := by
  rcases acquire_cases h with ⟨hended, rfl⟩ | ⟨held, rfl, hruns, -, rfl⟩
  · refine ⟨fun _ => rfl, fun held hheld hlt => ?_⟩
    exact absurd hlt (isExpired_iff.1 (hended held hheld))
  · refine ⟨fun hended => ?_, fun other hother _ => ?_⟩
    · rw [isExpired_iff.2 (hended held rfl)] at hruns
      cases hruns
    · rw [← Option.some.inj hother]
      exact ⟨rfl, fun _ => lists_join, rfl⟩

theorem isHeldBy_iff (hkind : kind.IsTold) : held.isHeldBy kind = true
    ↔ 0 < held.lockId ∧ 0 < kind.lockId ∨ held.lockId = kind.lockId := by
  unfold isHeldBy
  by_cases hload : kind.isLoad = true
  · have hpos := hkind.isLoad_iff.1 hload
    rw [if_pos hload, isLoad, decide_eq_true_iff, and_iff_left hpos]
    constructor
    · exact .inl
    · intro h
      rcases h with h | h
      · exact h
      · rw [h]
        exact hpos
  · have hpos : ¬ 0 < kind.lockId := fun h => hload (hkind.isLoad_iff.2 h)
    rw [if_neg hload, decide_eq_true_iff]
    simp [hpos]

/-- Who holds a scope is told by the lock id too. -/
theorem holds_iff_covers (hkind : kind.IsTold) :
    holds current kind initiator now = true
      ↔ Covers current kind.lockId initiator now := by
  constructor
  · intro h
    obtain ⟨held, hcurrent, hclass, hlists, hruns⟩ := of_holds h
    exact ⟨held, hcurrent, hruns, (isHeldBy_iff hkind).1 hclass, hlists⟩
  · intro ⟨held, hcurrent, hruns, hclass, hlists⟩
    subst hcurrent
    exact holds_some ((isHeldBy_iff hkind).2 hclass) hlists hruns

end LockRecord

end MergeOnWrite
