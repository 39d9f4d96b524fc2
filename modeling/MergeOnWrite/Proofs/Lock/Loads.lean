/-
Loads that share a scope.

Loads join the record of the first of them, which lists participants and
tells nothing of whose they are. As long as no lease ends, a load that was
granted the scope passes the check of its lease until its participant is
given up: by itself, or by another load with a participant of that number
(`TakenAway`). So loads whose participants have different numbers do not evict
each other; loads with participants of one number do.

# Main statements

- `LockRecord.loads_stay`: a load stays until a load gives up its
  participant, and the record stays as long as one of them does.
- `LockRecord.load_evicted`: two loads with a participant of one number, the
  second of which loses the scope when the first one gives it up.
-/
import MergeOnWrite.Proofs.Lock.Lifetimes

namespace MergeOnWrite

-- ======================================================== leases

/-- True of moves that ask for no lease that has ended at some time. -/
def LockMove.EndsAfter (time : Instant) : LockMove → Prop
  | .acquire _ _ _ expiration => time < expiration
  | .release .. => True

/-- True of moves before any lease ends: when the scope is asked for, none of
the leases has ended that were asked for before. -/
def AreTimely : List LockMove → Prop
  | [] => True
  | .acquire _ _ now _ :: earlier =>
    (∀ move ∈ earlier, move.EndsAfter now) ∧ AreTimely earlier
  | .release .. :: earlier => AreTimely earlier

/-- True of a holder that was granted the scope and has not given it up by
itself since. -/
def HasPart (kind : LockKind) (initiator : Int64) : List LockMove → Prop
  | [] => False
  | move :: earlier =>
    move.IsGranted (recordAfter earlier) kind initiator
      ∨ HasPart kind initiator earlier ∧ move ≠ .release kind initiator

/-- True of a holder whose participant somebody else has given up since the
holder was last granted the scope. -/
def TakenAway (kind : LockKind) (initiator : Int64) : List LockMove → Prop
  | [] => False
  | move :: earlier =>
    ¬move.IsGranted (recordAfter earlier) kind initiator
      ∧ ((∃ other, other ≠ kind ∧ move = .release other initiator)
        ∨ TakenAway kind initiator earlier)

instance (time : Instant) : DecidablePred (LockMove.EndsAfter time)
  | .acquire .. => inferInstanceAs (Decidable (_ < _))
  | .release .. => inferInstanceAs (Decidable True)

instance decidableAreTimely : DecidablePred AreTimely
  | [] => inferInstanceAs (Decidable True)
  | .acquire .. :: earlier =>
    have := decidableAreTimely earlier
    inferInstanceAs (Decidable (_ ∧ _))
  | .release .. :: earlier => decidableAreTimely earlier

instance decidableHasPart (kind : LockKind) (initiator : Int64) :
    DecidablePred (HasPart kind initiator)
  | [] => inferInstanceAs (Decidable False)
  | _ :: earlier =>
    have := decidableHasPart kind initiator earlier
    inferInstanceAs (Decidable (_ ∨ _ ∧ _))

-- ======================================================== records

variable {moves earlier : List LockMove} {record : LockRecord}
  {kind : LockKind} {initiator : Int64} {now expiration : Instant}

/-- A move leaves a lease that was there before, or that it asks for. -/
theorem expiration_leaves {move : LockMove} {current : Option LockRecord}
    (h : move.leaves current = some record) :
    (∃ held, current = some held ∧ record.expiration = held.expiration)
      ∨ ∃ kind initiator now,
        move = .acquire kind initiator now record.expiration := by
  have hdoes := move.does_leaves current
  rw [h] at hdoes
  generalize hleft : some record = left at hdoes
  cases hdoes with
  | writes kind initiator now expiration =>
      obtain rfl := Option.some.inj hleft
      exact .inr ⟨kind, initiator, now, rfl⟩
  | joins held kind initiator now expiration hheld =>
      obtain rfl := Option.some.inj hleft
      unfold LockRecord.join Instant.latest
      by_cases hlt : expiration < held.expiration
      · exact .inl ⟨held, hheld, if_pos hlt⟩
      · simp only [if_neg hlt]
        exact .inr ⟨kind, initiator, now, rfl⟩
  | isRefused | isStale => exact .inl ⟨record, hleft.symm, rfl⟩
  | departs held kind initiator hheld =>
      split at hleft
      · cases hleft
      · obtain rfl := Option.some.inj hleft
        exact .inl ⟨held, hheld, rfl⟩

/-- The lease of a record is one that somebody asked for. -/
theorem expiration_mem (h : recordAfter moves = some record) :
    ∃ kind initiator now,
      .acquire kind initiator now record.expiration ∈ moves := by
  induction moves generalizing record with
  | nil => cases h
  | cons move earlier ih =>
      rcases expiration_leaves h with
        ⟨held, hheld, hsame⟩ | ⟨kind, initiator, now, hmove⟩
      · obtain ⟨kind, initiator, now, hmem⟩ := ih hheld
        rw [hsame]
        exact ⟨kind, initiator, now, List.mem_cons_of_mem _ hmem⟩
      · refine ⟨kind, initiator, now, ?_⟩
        rw [← hmove]
        exact List.mem_cons_self ..

/-- Before any lease ends that of the record has not ended. -/
theorem lt_expiration (h : recordAfter moves = some record)
    (hnow : ∀ move ∈ moves, move.EndsAfter now) : now < record.expiration := by
  obtain ⟨kind, initiator, time, hmem⟩ := expiration_mem h
  exact hnow _ hmem

/-- Before any lease ends a record is not written afresh. -/
theorem not_writesAfresh (h : recordAfter earlier = some record)
    (hnow : ∀ move ∈ earlier, move.EndsAfter now) :
    ¬LockMove.WritesAfresh (some record)
      (.acquire kind initiator now expiration) := by
  have hruns : record.isExpired now = false :=
    LockRecord.isExpired_eq_false.2 (lt_expiration h hnow)
  simp only [LockMove.WritesAfresh, LockMove.grant?, LockRecord.acquire, hruns]
  by_cases hjoins : record.lockId = kind.lockId ∧ record.lists initiator
      ∨ kind.isLoad ∧ record.isLoad
  · simp [hjoins]
  · simp [hjoins]

-- ======================================================== loads

/-- True of a move of a load. -/
def LockMove.IsOfLoad (move : LockMove) : Prop :=
  ∃ txn, 0 < txn ∧ move.kind = .load txn

theorem LockKind.isTold_load {txn : Int64} (h : 0 < txn) :
    (LockKind.load txn).IsTold := by
  have hreserved : txn ≠ -1 ∧ txn ≠ -2 ∧ txn ≠ -3 := by
    refine ⟨?_, ?_, ?_⟩ <;> rintro rfl <;> exact absurd h (by decide)
  simp [IsTold, lockId, ofLockId, hreserved, h]

theorem describes_loads (h : ∀ move ∈ moves, move.IsOfLoad) :
    Describes (recordAfter moves)
      fun kind initiator => Stands kind initiator moves := by
  apply describes_after
  intro move hmove
  obtain ⟨txn, hpositive, hkind⟩ := h move hmove
  rw [hkind]
  exact LockKind.isTold_load hpositive

/-- The part of a load stands unless it is taken away. -/
theorem stands_of_hasPart {txn : Int64}
    (hloads : ∀ move ∈ moves, move.IsOfLoad) (htimely : AreTimely moves)
    (hpart : HasPart (.load txn) initiator moves)
    (hkept : ¬TakenAway (.load txn) initiator moves) :
    Stands (.load txn) initiator moves := by
  induction moves with
  | nil => exact hpart
  | cons move earlier ih =>
      simp only [List.mem_cons, forall_eq_or_imp] at hloads
      obtain ⟨⟨mover, -, hmover⟩, hloads⟩ := hloads
      by_cases hgranted :
          move.IsGranted (recordAfter earlier) (.load txn) initiator
      · exact .inl hgranted
      obtain ⟨hpart, hstays⟩ := hpart.resolve_left hgranted
      have hstands : AreTimely earlier → Stands (.load txn) initiator earlier :=
        fun htimely => ih hloads htimely hpart fun htaken =>
          hkept ⟨hgranted, .inr htaken⟩
      cases move with
      | acquire kind' initiator' now expiration =>
          obtain ⟨hnow, htimely⟩ := htimely
          refine .inr ⟨hstands htimely, ?_, id⟩
          cases hrecord : recordAfter earlier with
          | none =>
              exact absurd (hstands htimely)
                ((describes_loads hloads).nobody hrecord _ _)
          | some record => exact not_writesAfresh hrecord hnow
      | release kind' initiator' =>
          refine .inr ⟨hstands htimely,
            by simp [LockMove.WritesAfresh, LockMove.grant?], ?_⟩
          intro hgives
          obtain rfl : kind' = .load mover := hmover
          obtain rfl : initiator' = initiator := hgives.2
          by_cases hself : LockKind.load mover = .load txn
          · exact hstays (by rw [hself])
          · exact hkept ⟨hgranted, .inl ⟨_, hself, rfl⟩⟩

/-- Whatever loads do at a scope before any lease ends: a load that was
granted the scope, and has not given it up, passes the check of its lease
unless another load has given up a participant of the same number since. Only
then can the record be gone while the load has its part. -/
theorem LockRecord.loads_stay (moves : List LockMove)
    (hloads : ∀ move ∈ moves, move.IsOfLoad) (htimely : AreTimely moves) :
    (∀ txn initiator, HasPart (.load txn) initiator moves →
        ¬TakenAway (.load txn) initiator moves →
        ∀ now, (∀ move ∈ moves, move.EndsAfter now) →
          LockRecord.holds (recordAfter moves) (.load txn) initiator now = true)
      ∧ (recordAfter moves = none →
        ∀ txn initiator, HasPart (.load txn) initiator moves →
          TakenAway (.load txn) initiator moves) := by
  have hdescribes := describes_loads hloads
  constructor
  · intro txn initiator hpart hkept now hnow
    have hstands := stands_of_hasPart hloads htimely hpart hkept
    cases hrecord : recordAfter moves with
    | none => exact absurd hstands (hdescribes.nobody hrecord _ _)
    | some record =>
        have hruns : record.isExpired now = false :=
          LockRecord.isExpired_eq_false.2 (lt_expiration hrecord hnow)
        have hclass := hdescribes.isHeldBy record hrecord _ _ hstands
        have hlisted :=
          (hdescribes.lists_iff record hrecord initiator).2 ⟨_, hstands⟩
        simp [LockRecord.holds, hruns, hclass, hlisted]
  · intro hnone txn initiator hpart
    apply Classical.byContradiction
    intro hkept
    exact hdescribes.nobody hnone _ _
      (stands_of_hasPart hloads htimely hpart hkept)

/-- Two loads with participants of different numbers; the first one leaves. -/
def apart : List LockMove :=
  [.release (.load 101) 1, .acquire (.load 102) 2 ⟨1, 0⟩ ⟨61, 0⟩,
    .acquire (.load 101) 1 ⟨0, 0⟩ ⟨60, 0⟩]

/-- The second of the two passes the check of its lease. -/
theorem LockRecord.loads_stay_apart :
    (∀ move ∈ apart, move.IsOfLoad) ∧ AreTimely apart
      ∧ HasPart (.load 102) 2 apart
      ∧ LockRecord.holds (recordAfter apart) (.load 102) 2 ⟨59, 0⟩ = true := by
  have hloads : ∀ move ∈ apart, move.IsOfLoad := by
    simp only [apart, List.forall_mem_cons]
    exact ⟨⟨101, by decide, rfl⟩, ⟨102, by decide, rfl⟩,
      ⟨101, by decide, rfl⟩, nofun⟩
  have htimely : AreTimely apart := by decide +kernel
  have hpart : HasPart (.load 102) 2 apart := by decide +kernel
  refine ⟨hloads, htimely, hpart, ?_⟩
  refine (loads_stay apart hloads htimely).1 102 2 hpart ?_ ⟨59, 0⟩
    (by decide +kernel)
  simp [apart, TakenAway]

/-- Two loads with a participant of one number; the first one leaves. -/
def namesakes : List LockMove :=
  [.release (.load 101) 1, .acquire (.load 102) 1 ⟨1, 0⟩ ⟨61, 0⟩,
    .acquire (.load 101) 1 ⟨0, 0⟩ ⟨60, 0⟩]

/-- The second of the two was granted the scope and has not given it up, yet
it has lost it, and there is no record any more. -/
theorem LockRecord.load_evicted :
    (∀ move ∈ namesakes, move.IsOfLoad) ∧ AreTimely namesakes
      ∧ (∀ move ∈ namesakes, move.EndsAfter ⟨2, 0⟩)
      ∧ HasPart (.load 102) 1 namesakes
      ∧ recordAfter namesakes = none
      ∧ LockRecord.holds (recordAfter namesakes) (.load 102) 1 ⟨2, 0⟩
        = false := by
  have hloads : ∀ move ∈ namesakes, move.IsOfLoad := by
    simp only [namesakes, List.forall_mem_cons]
    exact ⟨⟨101, by decide, rfl⟩, ⟨102, by decide, rfl⟩,
      ⟨101, by decide, rfl⟩, nofun⟩
  exact ⟨hloads, by decide +kernel⟩

end MergeOnWrite
