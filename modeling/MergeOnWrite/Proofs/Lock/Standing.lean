/-
What acquiring a scope and giving it up come to when they are done again.

Who has acquired a scope is granted as much again, and the record stays as
it is: the participant is listed already, and the lease ends no earlier than
asked for. Who has given a scope up has no part in what is left of it, so to
give it up again changes nothing. Both hold of any record that grants so much
(`LockRecord.Grants`), or of which a participant has no part
(`LockRecord.Lacks`), whatever became of the scope in between.

# Main statements

- `LockRecord.grants_of_acquire`, `LockRecord.Grants.acquire_eq`: acquiring a
  scope again joins it without a change.
- `LockRecord.lacks_of_release`, `LockRecord.Lacks.release_eq`: giving a scope
  up again is stale.
-/
import MergeOnWrite.Proofs.Lock.Holders

namespace MergeOnWrite

namespace LockRecord

variable {record held : LockRecord} {current : Option LockRecord}
  {kind : LockKind} {initiator : Int64} {now expiration : Instant}
  {outcome : LockOutcome}

/-- True of a record by which a participant of a class holds the scope, at
least until some time. -/
structure Grants (record : LockRecord) (kind : LockKind) (initiator : Int64)
    (expiration : Instant) : Prop where
  isHeldBy : record.isHeldBy kind = true
  lists : record.lists initiator = true
  expiration_le : expiration ≤ record.expiration

theorem grants_of_acquire (hkind : kind.IsTold)
    (h : acquire current kind initiator now expiration
      = .granted record outcome) : record.Grants kind initiator expiration := by
  obtain ⟨hheld, hlists, hle⟩ := isHeldBy_of_acquire hkind h
  exact ⟨hheld, hlists, hle⟩

/-- To join a record that grants as much already changes nothing. -/
theorem Grants.join_eq (h : record.Grants kind initiator expiration) :
    record.join initiator expiration = record := by
  have hlists : record.initiators.insert initiator () = record.initiators :=
    SortedMap.insert_of_get? (Option.isSome_iff_exists.1 h.lists).choose_spec
  have hlatest : record.expiration.latest expiration = record.expiration :=
    Instant.latest_of_le h.expiration_le
  rw [join, hlists, hlatest]

/-- What is granted already is granted again. -/
theorem Grants.acquire_eq (h : record.Grants kind initiator expiration)
    (hnow : now < expiration) :
    acquire (some record) kind initiator now expiration
      = .granted record .joined := by
  have hruns : ¬record.isExpired now = true := by
    rw [Bool.not_eq_true, isExpired_eq_false]
    exact Instant.lt_of_lt_of_le hnow h.expiration_le
  have hjoins : record.lockId = kind.lockId ∧ record.lists initiator
      ∨ kind.isLoad ∧ record.isLoad := by
    have hheld := h.isHeldBy
    unfold LockRecord.isHeldBy at hheld
    split at hheld
    · rename_i hload
      exact .inr ⟨hload, hheld⟩
    · exact .inl ⟨of_decide_eq_true hheld, h.lists⟩
  rw [acquire, if_neg hruns, if_pos hjoins, h.join_eq]

/-- A record as the one that the keeping of it is about. -/
theorem Grants.keeps (h : record.Grants kind initiator expiration) :
    Keeps kind initiator record record :=
  ⟨h.isHeldBy, h.lists, Instant.le_refl _, fun _ _ => id⟩

theorem Grants.of_keeps (h : record.Grants kind initiator expiration)
    (hkeeps : Keeps kind initiator record held) :
    held.Grants kind initiator expiration :=
  ⟨hkeeps.isHeldBy, hkeeps.lists,
    Instant.le_trans h.expiration_le hkeeps.expiration_le⟩

/-- True where a participant of a class has no part in what a scope
holds. -/
def Lacks (current : Option LockRecord) (kind : LockKind)
    (initiator : Int64) : Prop :=
  ∀ record, current = some record → record.isHeldBy kind = true →
    ¬record.lists initiator = true

theorem Lacks.release_eq (h : Lacks current kind initiator) :
    ∃ reason, release current kind initiator = .stale reason := by
  rcases release_cases current kind initiator with hstale
    | ⟨record, heq, hheld, hlists, -⟩
  · exact hstale
  · exact absurd hlists (h record heq hheld)

/-- Who gave up a scope has no part in it. -/
theorem lacks_of_release (current : Option LockRecord) (kind : LockKind)
    (initiator : Int64) :
    Lacks ((release current kind initiator).left current) kind initiator := by
  intro record hleft hheld hlists
  cases current with
  | none => cases hleft
  | some held =>
      rw [release] at hleft
      split at hleft
      · rename_i hnot
        obtain rfl := Option.some.inj hleft
        rw [hheld] at hnot
        cases hnot
      · split at hleft
        · rename_i hnot
          obtain rfl := Option.some.inj hleft
          rw [hlists] at hnot
          cases hnot
        · dsimp only at hleft
          split at hleft
          · cases hleft
          · obtain rfl := Option.some.inj hleft
            exact (lists_erase.1 hlists).1 rfl

end LockRecord

end MergeOnWrite
