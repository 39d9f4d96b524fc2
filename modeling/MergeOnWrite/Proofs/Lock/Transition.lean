/-
What the transitions of a lock record keep, and what they give.

While a lease runs, others may join the record or leave it, but the class
that holds it stays, and a participant stays listed until it leaves by
itself. Nobody becomes a holder but by acquiring the scope.

# Main statements

- `isHeldBy_of_acquire`: what is granted makes the caller a holder.
- `Keeps.acquire`, `Keeps.release`: a holder stays one while its lease
  runs, whoever else acquires or gives up the scope.
- `acquire_gains`, `release_gains`: who is a holder afterwards was one
  before, or is the caller that acquired the scope.
-/
import MergeOnWrite.Lock.Record
import MergeOnWrite.Proofs.SortedMap
import MergeOnWrite.Proofs.Time.Order

namespace MergeOnWrite

-- ================================================== classes

namespace LockKind

/-- True of callers of one class; all loads are of one. -/
def sameClass : LockKind → LockKind → Bool
  | .load _, .load _ => true
  | a, b => a = b

/-- True of the classes that lock ids tell. -/
def IsTold (kind : LockKind) : Prop := ofLockId kind.lockId = .ok kind

theorem lockId_of_ofLockId {id : Int64} {kind : LockKind}
    (h : ofLockId id = .ok kind) : kind.lockId = id := by
  unfold ofLockId at h
  split at h
  · cases h; rename_i hid; exact hid.symm
  · split at h
    · cases h; rename_i hid; exact hid.symm
    · split at h
      · cases h; rename_i hid; exact hid.symm
      · split at h
        · cases h; rfl
        · cases h

theorem isTold_of_ofLockId {id : Int64} {kind : LockKind}
    (h : ofLockId id = .ok kind) : kind.IsTold := by
  rw [IsTold, lockId_of_ofLockId h, h]

/-- A class that takes the lock is one that its lock id tells. -/
theorem ofLockId_of_ofTakingLockId {id : Int64} {kind : LockKind}
    (h : ofTakingLockId id = .ok kind) : ofLockId id = .ok kind := by
  unfold ofTakingLockId at h
  cases hkind : ofLockId id with
  | error e => rw [hkind] at h; cases h
  | ok other =>
      rw [hkind] at h
      cases other with
      | lockFreeCompaction => cases h
      | compaction | schemaChange | load => cases h; rfl

theorem isTold_of_ofTakingLockId {id : Int64} {kind : LockKind}
    (h : ofTakingLockId id = .ok kind) : kind.IsTold :=
  isTold_of_ofLockId (ofLockId_of_ofTakingLockId h)

/-- The lock ids of loads, and no others, are above zero. -/
theorem IsTold.isLoad_iff {kind : LockKind} (h : kind.IsTold) :
    kind.isLoad = true ↔ 0 < kind.lockId := by
  cases kind with
  | compaction | schemaChange | lockFreeCompaction => decide
  | load txn =>
      refine ⟨fun _ => ?_, fun _ => rfl⟩
      show 0 < txn
      rw [IsTold, lockId, ofLockId] at h
      split at h
      · cases h
      · split at h
        · cases h
        · split at h
          · cases h
          · split at h
            · assumption
            · cases h

theorem sameClass_comm (a b : LockKind) : a.sameClass b = b.sameClass a := by
  cases a <;> cases b <;> simp [sameClass]

/-- Lock ids tell classes apart that are not of loads. -/
theorem sameClass_of_lockId_eq {a b : LockKind} (ha : a.IsTold)
    (hb : b.IsTold) (h : a.lockId = b.lockId) : a.sameClass b = true := by
  have hab : a = b := by
    rw [IsTold, h, hb] at ha
    exact (Except.ok.inj ha).symm
  subst hab
  cases a <;> rfl

theorem sameClass_of_isLoad {a b : LockKind} (ha : a.isLoad = true)
    (hb : b.isLoad = true) : a.sameClass b = true := by
  cases a with
  | load m =>
      cases b with
      | load n => rfl
      | compaction | schemaChange | lockFreeCompaction => cases hb
  | compaction | schemaChange | lockFreeCompaction => cases ha

theorem isLoad_of_sameClass {a b : LockKind} (h : a.sameClass b = true) :
    a.isLoad = b.isLoad ∧ (b.isLoad = false → a = b) := by
  cases a with
  | load m =>
      cases b with
      | load n => exact ⟨rfl, nofun⟩
      | compaction | schemaChange | lockFreeCompaction =>
          simp [sameClass] at h
  | compaction | schemaChange | lockFreeCompaction =>
      obtain rfl := of_decide_eq_true h
      exact ⟨rfl, fun _ => rfl⟩

end LockKind

namespace LockRecord

variable {record held granted : LockRecord} {current : Option LockRecord}
  {kind kind' : LockKind} {initiator initiator' : Int64}
  {now expiration : Instant} {outcome : LockOutcome}

-- ================================================== questions

/-- Callers that a record is held by are of one class. -/
theorem sameClass_of_isHeldBy (hkind : kind.IsTold) (hkind' : kind'.IsTold)
    (h : record.isHeldBy kind = true) (h' : record.isHeldBy kind' = true) :
    kind'.sameClass kind = true := by
  unfold isHeldBy at h h'
  split at h
  · rename_i hload
    split at h'
    · rename_i hload'
      exact LockKind.sameClass_of_isLoad hload' hload
    · rename_i hload'
      have hid := of_decide_eq_true h'
      rw [hkind'.isLoad_iff, ← hid] at hload'
      exact absurd (of_decide_eq_true h) hload'
  · rename_i hload
    have hid := of_decide_eq_true h
    split at h'
    · rw [hkind.isLoad_iff, ← hid] at hload
      exact absurd (of_decide_eq_true h') hload
    · exact LockKind.sameClass_of_lockId_eq hkind' hkind
        ((of_decide_eq_true h').symm.trans hid)

theorem lists_fresh :
    (fresh kind initiator' expiration).lists initiator = true
      ↔ initiator = initiator' :=
  SortedSet.get?_ofList_isSome.trans List.mem_singleton

theorem lists_join :
    (record.join initiator' expiration).lists initiator = true
      ↔ initiator = initiator' ∨ record.lists initiator = true := by
  show ((record.initiators.insert initiator' ()).get? initiator).isSome ↔ _
  by_cases h : initiator = initiator'
  · subst h
    rw [SortedMap.get?_insert_self]
    simp
  · rw [SortedMap.get?_insert_of_ne _ _ h]
    exact (or_iff_right h).symm

/-- Who leaves is the only one that is no longer listed. -/
theorem lists_erase :
    (LockRecord.mk record.lockId (record.initiators.erase initiator')
      record.expiration).lists initiator = true
      ↔ initiator ≠ initiator' ∧ record.lists initiator = true := by
  show ((record.initiators.erase initiator').get? initiator).isSome ↔ _
  by_cases h : initiator = initiator'
  · subst h
    rw [SortedMap.get?_erase_self]
    simp
  · rw [SortedMap.get?_erase_of_ne _ h]
    exact (and_iff_right h).symm

-- ================================================== decisions

/-- The record that is there after a scope has been given up. -/
def Release.left (current : Option LockRecord) : Release → Option LockRecord
  | .delete => none
  | .rewrite record => some record
  | .stale _ => current

/-- What has been granted: a scope that nobody's lease runs on is taken,
or a record is joined. -/
theorem acquire_cases
    (h : acquire current kind initiator now expiration
      = .granted record outcome) :
    (∀ held, current = some held → held.isExpired now = true)
        ∧ record = fresh kind initiator expiration
      ∨ ∃ held, current = some held ∧ held.isExpired now = false
        ∧ (held.lockId = kind.lockId ∧ held.lists initiator = true
          ∨ kind.isLoad = true ∧ held.isLoad = true)
        ∧ record = held.join initiator expiration := by
  cases current with
  | none =>
      cases h
      exact .inl ⟨nofun, rfl⟩
  | some held =>
      rw [acquire] at h
      split at h
      · rename_i hexpired
        cases h
        exact .inl ⟨fun other heq => Option.some.inj heq ▸ hexpired, rfl⟩
      · rename_i hexpired
        split at h
        · rename_i hjoins
          cases h
          exact .inr ⟨held, rfl, Bool.eq_false_iff.2 hexpired, hjoins, rfl⟩
        · cases h

/-- What giving up a scope comes to: nothing, or the caller leaves. -/
theorem release_cases (current : Option LockRecord) (kind : LockKind)
    (initiator : Int64) :
    (∃ reason, release current kind initiator = .stale reason)
      ∨ ∃ record, current = some record ∧ record.isHeldBy kind = true
        ∧ record.lists initiator = true
        ∧ release current kind initiator
          = if (record.initiators.erase initiator).isEmpty then .delete
            else .rewrite
              { record with initiators := record.initiators.erase initiator }
      := by
  cases current with
  | none => exact .inl ⟨_, rfl⟩
  | some record =>
      rw [release]
      split
      · exact .inl ⟨_, rfl⟩
      · rename_i hheld
        split
        · exact .inl ⟨_, rfl⟩
        · rename_i hlists
          refine .inr ⟨record, rfl, ?_, ?_, rfl⟩
          · simpa using hheld
          · simpa using hlists

theorem expiration_of_release
    (h : release current kind initiator = .rewrite record) :
    ∃ held, current = some held ∧ record.expiration = held.expiration := by
  rcases release_cases current kind initiator with ⟨reason, hstale⟩
    | ⟨held, rfl, -, -, hrest⟩
  · rw [h] at hstale
    cases hstale
  · rw [h] at hrest
    split at hrest
    · cases hrest
    · cases hrest
      exact ⟨held, rfl, rfl⟩

theorem isHeldBy_of_joins (hkind : kind.IsTold)
    (h : held.lockId = kind.lockId ∧ held.lists initiator = true
      ∨ kind.isLoad = true ∧ held.isLoad = true) :
    held.isHeldBy kind = true := by
  unfold isHeldBy
  split
  · rename_i hload
    rcases h with ⟨hid, -⟩ | ⟨-, hheld⟩
    · rw [isLoad, hid]
      exact decide_eq_true (hkind.isLoad_iff.1 hload)
    · exact hheld
  · rename_i hload
    rcases h with ⟨hid, -⟩ | ⟨hkindLoad, -⟩
    · exact decide_eq_true hid
    · exact absurd hkindLoad hload

theorem isHeldBy_fresh (hkind : kind.IsTold) :
    (fresh kind initiator expiration).isHeldBy kind = true := by
  unfold isHeldBy
  split
  · rename_i hload
    exact decide_eq_true (hkind.isLoad_iff.1 hload)
  · exact decide_eq_true rfl

/-- What is granted makes the caller a holder, for as long as it asked at
least. -/
theorem isHeldBy_of_acquire (hkind : kind.IsTold)
    (h : acquire current kind initiator now expiration
      = .granted record outcome) :
    record.isHeldBy kind = true ∧ record.lists initiator = true
      ∧ expiration ≤ record.expiration := by
  rcases acquire_cases h with ⟨-, rfl⟩ | ⟨held, -, -, hjoins, rfl⟩
  · exact ⟨isHeldBy_fresh hkind, lists_fresh.2 rfl, Instant.le_refl _⟩
  · have hheld := isHeldBy_of_joins hkind hjoins
    exact ⟨hheld, lists_join.2 (.inl rfl),
      Instant.le_latest_right held.expiration expiration⟩

/-- A holder whose lease runs passes the check of its lease. -/
theorem holds_some (hheld : record.isHeldBy kind = true)
    (hlists : record.lists initiator = true) (hnow : now < record.expiration) :
    holds (some record) kind initiator now = true := by
  rw [holds, Option.any_some, hheld, hlists, isExpired, Bool.and_true,
    Bool.and_true, Bool.not_eq_true', decide_eq_false_iff_not]
  exact fun hle => hle hnow

/-- Who passes the check of its lease is a holder. -/
theorem of_holds (h : holds current kind initiator now = true) :
    ∃ record, current = some record ∧ record.isHeldBy kind = true
      ∧ record.lists initiator = true ∧ now < record.expiration := by
  rw [holds, Option.any_eq_true] at h
  obtain ⟨record, rfl, h⟩ := h
  rw [Bool.and_eq_true, Bool.and_eq_true, Bool.not_eq_true', isExpired,
    decide_eq_false_iff_not] at h
  exact ⟨record, rfl, h.1.2, h.2, Decidable.not_not.1 h.1.1⟩

-- ================================================== staying a holder

/-- True of a record that still grants a participant of some class what an
earlier one did: its lease ends no earlier, and unless loads hold it,
nobody is listed who was not. -/
structure Keeps (kind : LockKind) (initiator : Int64)
    (granted record : LockRecord) : Prop where
  isHeldBy : record.isHeldBy kind = true
  lists : record.lists initiator = true
  expiration_le : granted.expiration ≤ record.expiration
  closed : kind.isLoad = false →
    ∀ other, record.lists other = true → granted.lists other = true

namespace Keeps

/-- While the lease runs, a record is acquired by its own class alone, and
goes on granting what it did. -/
protected theorem acquire (h : Keeps kind initiator granted record)
    (hkind : kind.IsTold) (hkind' : kind'.IsTold)
    (hnow : now < granted.expiration)
    (hacquire : acquire (some record) kind' initiator' now expiration
      = .granted held outcome) :
    Keeps kind initiator granted held ∧ kind'.sameClass kind = true
      ∧ (kind.isLoad = false → granted.lists initiator' = true) := by
  rcases acquire_cases hacquire with ⟨hexpired, -⟩ | ⟨_, heq, -, hjoins, rfl⟩
  · have hle := of_decide_eq_true (hexpired record rfl)
    exact absurd (Instant.lt_of_lt_of_le hnow h.expiration_le) hle
  · obtain rfl := Option.some.inj heq
    have hclass := sameClass_of_isHeldBy hkind hkind' h.isHeldBy
      (isHeldBy_of_joins hkind' hjoins)
    have hlisted : kind.isLoad = false → record.lists initiator' = true := by
      intro hload
      rcases hjoins with ⟨-, hlists⟩ | ⟨hload', -⟩
      · exact hlists
      · rw [(LockKind.isLoad_of_sameClass hclass).1, hload] at hload'
        cases hload'
    refine ⟨⟨h.isHeldBy, lists_join.2 (.inr h.lists),
      Instant.le_trans h.expiration_le
        (Instant.le_latest_left record.expiration expiration),
      fun hload other hother => ?_⟩, hclass,
      fun hload => h.closed hload _ (hlisted hload)⟩
    rcases lists_join.1 hother with rfl | hlists
    · exact h.closed hload _ (hlisted hload)
    · exact h.closed hload other hlists

/-- A record goes on granting what it did until the participant itself
leaves. -/
protected theorem release (h : Keeps kind initiator granted record)
    (hkind : kind.IsTold) (hkind' : kind'.IsTold)
    (hother : ¬ (kind'.sameClass kind = true ∧ initiator' = initiator)) :
    ∃ rest, (release (some record) kind' initiator').left (some record)
        = some rest ∧ Keeps kind initiator granted rest := by
  rcases release_cases (some record) kind' initiator' with ⟨reason, hstale⟩
    | ⟨_, heq, hheld, hlists, hrelease⟩
  · rw [hstale]
    exact ⟨record, rfl, h⟩
  · obtain rfl := Option.some.inj heq
    have hne : initiator ≠ initiator' := fun heq =>
      hother ⟨sameClass_of_isHeldBy hkind hkind' h.isHeldBy hheld, heq.symm⟩
    have hstays := lists_erase.2 ⟨hne, h.lists⟩
    rw [hrelease, if_neg]
    · exact ⟨_, rfl, h.isHeldBy, hstays, h.expiration_le,
        fun hload other hlisted =>
          h.closed hload other (lists_erase.1 hlisted).2⟩
    · intro hempty
      rw [LockRecord.lists, SortedMap.eq_empty_of_isEmpty hempty] at hstays
      cases hstays

end Keeps

-- ================================================== becoming a holder

/-- Who is a holder after a scope has been acquired was one before, or has
acquired it. -/
theorem acquire_gains (hkind : kind.IsTold) (hkind' : kind'.IsTold)
    (h : acquire current kind' initiator' now expiration
      = .granted record outcome)
    (hheld : record.isHeldBy kind = true)
    (hlists : record.lists initiator = true) :
    (∃ held, current = some held ∧ held.isHeldBy kind = true
        ∧ held.lists initiator = true)
      ∨ kind'.sameClass kind = true ∧ initiator' = initiator := by
  have hclass := sameClass_of_isHeldBy hkind hkind' hheld
    (isHeldBy_of_acquire hkind' h).1
  rcases acquire_cases h with ⟨-, rfl⟩ | ⟨held, rfl, -, hjoins, rfl⟩
  · exact .inr ⟨hclass, (lists_fresh.1 hlists).symm⟩
  · rcases lists_join.1 hlists with heq | hlisted
    · exact .inr ⟨hclass, heq.symm⟩
    · exact .inl ⟨held, rfl, hheld, hlisted⟩

/-- Who is a holder after another one left was one before. -/
theorem release_gains
    (h : (release current kind' initiator').left current = some record)
    (hheld : record.isHeldBy kind = true)
    (hlists : record.lists initiator = true) :
    ∃ held, current = some held ∧ held.isHeldBy kind = true
      ∧ held.lists initiator = true := by
  rcases release_cases current kind' initiator' with ⟨reason, hstale⟩
    | ⟨held, rfl, -, -, hrest⟩
  · rw [hstale] at h
    exact ⟨record, h, hheld, hlists⟩
  · rw [hrest] at h
    split at h
    · cases h
    · cases h
      exact ⟨held, rfl, hheld, (lists_erase.1 hlists).2⟩

end LockRecord

end MergeOnWrite
