/-
What the record of a scope says of those to whom the scope was granted.

A scope is asked for and given up again and again, by anybody and in any
order, and the clock may show any time to each of them, also an earlier one
than before. The record keeps little of that: one lock id, the participants,
the end of a lease. It describes a history nevertheless. A record lives from
the move that writes it afresh, because there was none or its lease had
ended, until it is deleted or written afresh again; and what it lists are the
grants of its life that nobody of its class has given up since (`Stands`).

# The invariant

`Describes` says this of one moment. What a move may do is said once
(`LockMove.Does`), and every property follows by its five cases. The hard one
is the release: whether it takes effect depends on the class of the record,
whether a grant stands on the class of the grant. Both are the same because a
record is held by no class but one (`isHeldBy_iff_sameClass`).

# Main statements

- `LockMove.does_leaves`: what a move does to a record.
- `describes_after`: the invariant holds after all moves.
- `LockRecord.describes_holders`: a record describes exactly who holds the
  scope, and within its life keeps its lock id and never shortens its lease.
-/
import Mathlib.Logic.ExistsUnique
import MergeOnWrite.Proofs.Lock.Standing

namespace MergeOnWrite

-- ======================================================== moves

/-- A move at a scope: it is asked for, at some time and with a lease until
another, or it is given up. -/
inductive LockMove where
  | acquire (kind : LockKind) (initiator : Int64) (now expiration : Instant)
  | release (kind : LockKind) (initiator : Int64)
deriving DecidableEq

/-- The record that is there after a scope has been asked for. -/
def LockRecord.Acquisition.left (current : Option LockRecord) :
    LockRecord.Acquisition → Option LockRecord
  | .granted record _ => some record
  | .busy _ => current

namespace LockMove

/-- The class of who moves. -/
def kind : LockMove → LockKind
  | .acquire kind .. => kind
  | .release kind _ => kind

/-- What a move leaves of the record of a scope. -/
def leaves (current : Option LockRecord) : LockMove → Option LockRecord
  | .acquire kind initiator now expiration =>
    (LockRecord.acquire current kind initiator now expiration).left current
  | .release kind initiator =>
    (LockRecord.release current kind initiator).left current

/-- How the scope changes hands if a move is granted it. -/
def grant? (current : Option LockRecord) : LockMove → Option LockOutcome
  | .acquire kind initiator now expiration =>
    match LockRecord.acquire current kind initiator now expiration with
    | .granted _ outcome => some outcome
    | .busy _ => none
  | .release .. => none

/-- True of a move that is granted the scope for a participant of a class. -/
def IsGranted (current : Option LockRecord) (kind : LockKind)
    (initiator : Int64) : LockMove → Prop
  | .acquire kind' initiator' now expiration =>
    kind' = kind ∧ initiator' = initiator
      ∧ (grant? current (.acquire kind' initiator' now expiration)).isSome
  | .release .. => False

/-- True of a move that writes the record afresh: the scope is acquired where
there is no record, or taken over. -/
def WritesAfresh (current : Option LockRecord) (move : LockMove) : Prop :=
  move.grant? current = some .acquired ∨ move.grant? current = some .takenOver

/-- True of a move by which a participant gives up what its class holds. -/
def GivesUp (kind : LockKind) (initiator : Int64) : LockMove → Prop
  | .acquire .. => False
  | .release kind' initiator' =>
    kind'.sameClass kind = true ∧ initiator' = initiator

instance (current : Option LockRecord) (kind : LockKind) (initiator : Int64) :
    DecidablePred (IsGranted current kind initiator)
  | .acquire .. => inferInstanceAs (Decidable (_ ∧ _))
  | .release .. => inferInstanceAs (Decidable False)

instance (current : Option LockRecord) :
    DecidablePred (WritesAfresh current) :=
  fun _ => inferInstanceAs (Decidable (_ ∨ _))

instance (kind : LockKind) (initiator : Int64) :
    DecidablePred (GivesUp kind initiator)
  | .acquire .. => inferInstanceAs (Decidable False)
  | .release .. => inferInstanceAs (Decidable (_ ∧ _))

end LockMove

/-- The record of a scope after some moves, the latest of which comes first.
At first there is none. -/
def recordAfter : List LockMove → Option LockRecord
  | [] => none
  | move :: earlier => move.leaves (recordAfter earlier)

/-- True of a grant that stands: a participant of a class was granted the
scope, and since then the record has not been written afresh, nor has the
participant given it up for the class. -/
def Stands (kind : LockKind) (initiator : Int64) : List LockMove → Prop
  | [] => False
  | move :: earlier =>
    move.IsGranted (recordAfter earlier) kind initiator
      ∨ Stands kind initiator earlier
        ∧ ¬move.WritesAfresh (recordAfter earlier)
        ∧ ¬move.GivesUp kind initiator

/-- True of later moves none of which writes the record afresh. -/
def NoneAfresh (earlier : List LockMove) : List LockMove → Prop
  | [] => True
  | move :: later =>
    ¬move.WritesAfresh (recordAfter (later ++ earlier))
      ∧ NoneAfresh earlier later

instance decidableStands (kind : LockKind) (initiator : Int64) :
    DecidablePred (Stands kind initiator)
  | [] => inferInstanceAs (Decidable False)
  | _ :: earlier =>
    have := decidableStands kind initiator earlier
    inferInstanceAs (Decidable (_ ∨ _ ∧ _ ∧ _))

-- ================================================ one move

namespace LockRecord

variable {record : LockRecord} {kind kind' : LockKind}

/-- Of the classes that lock ids tell, a record is held by that of one holder
and by no other. -/
theorem isHeldBy_iff_sameClass (hkind : kind.IsTold) (hkind' : kind'.IsTold)
    (h : record.isHeldBy kind = true) :
    record.isHeldBy kind' = true ↔ kind'.sameClass kind = true := by
  constructor
  · exact sameClass_of_isHeldBy hkind hkind' h
  · intro hclass
    obtain ⟨hload, hsame⟩ := LockKind.isLoad_of_sameClass hclass
    by_cases hkindLoad : kind.isLoad = true
    · simpa [isHeldBy, hload, hkindLoad] using h
    · rw [hsame (by simpa using hkindLoad)]
      exact h

end LockRecord

namespace LockMove

open LockRecord (fresh)

/-- What a move does: it writes the record afresh, joins it, is refused,
leaves it, or is stale. -/
inductive Does (current : Option LockRecord) :
    LockMove → Option LockRecord → Prop
  | writes (kind : LockKind) (initiator : Int64) (now expiration : Instant) :
    WritesAfresh current (.acquire kind initiator now expiration) →
    Does current (.acquire kind initiator now expiration)
      (some (fresh kind initiator expiration))
  | joins (held : LockRecord) (kind : LockKind) (initiator : Int64)
    (now expiration : Instant) :
    current = some held → held.isExpired now = false →
    held.lockId = kind.lockId ∧ held.lists initiator = true
      ∨ kind.isLoad = true ∧ held.isLoad = true →
    grant? current (.acquire kind initiator now expiration) = some .joined →
    Does current (.acquire kind initiator now expiration)
      (some (held.join initiator expiration))
  | isRefused (kind : LockKind) (initiator : Int64)
    (now expiration : Instant) : current ≠ none →
    grant? current (.acquire kind initiator now expiration) = none →
    Does current (.acquire kind initiator now expiration) current
  | departs (held : LockRecord) (kind : LockKind) (initiator : Int64) :
    current = some held → held.isHeldBy kind = true →
    held.lists initiator = true →
    Does current (.release kind initiator)
      (if (held.initiators.erase initiator).isEmpty then none
       else some { held with initiators := held.initiators.erase initiator })
  | isStale (kind : LockKind) (initiator : Int64) :
    LockRecord.Lacks current kind initiator →
    Does current (.release kind initiator) current

variable {current : Option LockRecord} {kind : LockKind} {initiator : Int64}
  {now expiration : Instant} {held record : LockRecord}

theorem does_acquire (current : Option LockRecord) (kind : LockKind)
    (initiator : Int64) (now expiration : Instant) :
    Does current (.acquire kind initiator now expiration)
      (leaves current (.acquire kind initiator now expiration)) := by
  cases current with
  | none => exact .writes kind initiator now expiration (.inl rfl)
  | some held =>
      have hgrant : ∀ acquisition, LockRecord.acquire (some held) kind
          initiator now expiration = acquisition →
          leaves (some held) (.acquire kind initiator now expiration)
            = acquisition.left (some held) := by
        intro acquisition h
        rw [leaves, h]
      by_cases hexpired : held.isExpired now = true
      · have h : LockRecord.acquire (some held) kind initiator now expiration
            = .granted (fresh kind initiator expiration) .takenOver := by
          simp [LockRecord.acquire, hexpired]
        rw [hgrant _ h]
        exact .writes kind initiator now expiration (.inr (by simp [grant?, h]))
      · by_cases hjoins : held.lockId = kind.lockId ∧ held.lists initiator
            ∨ kind.isLoad ∧ held.isLoad
        · have h : LockRecord.acquire (some held) kind initiator now expiration
              = .granted (held.join initiator expiration) .joined := by
            simp [LockRecord.acquire, hexpired, hjoins]
          rw [hgrant _ h]
          exact .joins held kind initiator now expiration rfl
            (by simpa using hexpired) hjoins (by simp [grant?, h])
        · have h : LockRecord.acquire (some held) kind initiator now expiration
              = .busy held := by
            simp [LockRecord.acquire, hexpired, hjoins]
          rw [hgrant _ h]
          exact .isRefused kind initiator now expiration
            (Option.some_ne_none held)
            (by simp [grant?, h])

theorem does_release (current : Option LockRecord) (kind : LockKind)
    (initiator : Int64) :
    Does current (.release kind initiator)
      (leaves current (.release kind initiator)) := by
  show Does current (.release kind initiator)
    ((LockRecord.release current kind initiator).left current)
  rcases LockRecord.release_cases current kind initiator with
    ⟨reason, hstale⟩ | ⟨held, hheld, hclass, hlists, hrest⟩
  · have hlacks := LockRecord.lacks_of_release current kind initiator
    rw [hstale] at hlacks ⊢
    exact .isStale kind initiator hlacks
  · have hleft : (LockRecord.release current kind initiator).left current
        = if (held.initiators.erase initiator).isEmpty then none
          else some
            { held with initiators := held.initiators.erase initiator } := by
      rw [hrest]
      split <;> rfl
    rw [hleft]
    exact .departs held kind initiator hheld hclass hlists

/-- All that a move does to a record. -/
theorem does_leaves (current : Option LockRecord) (move : LockMove) :
    move.Does current (move.leaves current) := by
  cases move with
  | acquire kind initiator now expiration => apply does_acquire
  | release kind initiator => apply does_release

end LockMove

-- ============================================= the invariant

/-- True of what a scope holds where exactly some participants of some
classes hold it, whether or not their leases have ended. -/
structure Describes (current : Option LockRecord)
    (who : LockKind → Int64 → Prop) : Prop where
  isTold : ∀ kind initiator, who kind initiator → kind.IsTold
  nobody : current = none → ∀ kind initiator, ¬who kind initiator
  someone : ∀ record, current = some record →
    ∃ kind initiator, who kind initiator
  isHeldBy : ∀ record, current = some record →
    ∀ kind initiator, who kind initiator → record.isHeldBy kind = true
  lists_iff : ∀ record, current = some record → ∀ initiator,
    record.lists initiator = true ↔ ∃ kind, who kind initiator
  single : ∀ record, current = some record → record.lockId < 0 →
    ∀ a b, record.lists a = true → record.lists b = true → a = b

namespace Describes

open LockRecord (fresh)

variable {current : Option LockRecord} {held : LockRecord}
  {who who' : LockKind → Int64 → Prop} {kind : LockKind} {initiator : Int64}
  {now expiration : Instant}

theorem congr (h : Describes current who)
    (hwho : ∀ kind initiator, who' kind initiator ↔ who kind initiator) :
    Describes current who' := by
  obtain rfl : who' = who :=
    funext fun kind => funext fun initiator => propext (hwho kind initiator)
  exact h

theorem of_none : Describes none fun _ _ => False where
  isTold _ _ := False.elim
  nobody _ _ _ := id
  someone _ := nofun
  isHeldBy _ := nofun
  lists_iff _ := nofun
  single _ := nofun

/-- A record that is written afresh describes its only holder. -/
theorem of_fresh (hkind : kind.IsTold) :
    Describes (some (fresh kind initiator expiration))
      fun kind' initiator' => kind = kind' ∧ initiator = initiator' where
  isTold := by
    intro kind' initiator' h
    rw [← h.1]
    exact hkind
  nobody := nofun
  someone _ _ := ⟨kind, initiator, rfl, rfl⟩
  isHeldBy := by
    intro record hrecord kind' initiator' h
    rw [← Option.some.inj hrecord, ← h.1]
    exact LockRecord.isHeldBy_fresh hkind
  lists_iff := by
    intro record hrecord initiator'
    rw [← Option.some.inj hrecord, LockRecord.lists_fresh]
    simp [eq_comm]
  single := by
    intro record hrecord _ a b ha hb
    rw [← Option.some.inj hrecord, LockRecord.lists_fresh] at ha hb
    rw [ha, hb]

/-- Who joins a record is one more holder; of a record with a reserved lock id
it is the one that was there before. -/
theorem join (h : Describes (some held) who) (hkind : kind.IsTold)
    (hjoins : held.lockId = kind.lockId ∧ held.lists initiator = true
      ∨ kind.isLoad = true ∧ held.isLoad = true) :
    Describes (some (held.join initiator expiration))
      fun kind' initiator' =>
        (kind = kind' ∧ initiator = initiator') ∨ who kind' initiator' where
  isTold := by
    intro kind' initiator' hwho
    rcases hwho with ⟨rfl, -⟩ | hwho
    · exact hkind
    · exact h.isTold _ _ hwho
  nobody := nofun
  someone _ _ := ⟨kind, initiator, .inl ⟨rfl, rfl⟩⟩
  isHeldBy := by
    intro record hrecord kind' initiator' hwho
    rw [← Option.some.inj hrecord]
    show held.isHeldBy kind' = true
    rcases hwho with ⟨rfl, -⟩ | hwho
    · exact LockRecord.isHeldBy_of_joins hkind hjoins
    · exact h.isHeldBy held rfl _ _ hwho
  lists_iff := by
    intro record hrecord initiator'
    rw [← Option.some.inj hrecord, LockRecord.lists_join,
      h.lists_iff held rfl, exists_or]
    simp [eq_comm]
  single := by
    intro record hrecord hnegative a b ha hb
    rw [← Option.some.inj hrecord] at hnegative ha hb
    have hlisted : held.lists initiator = true := by
      rcases hjoins with ⟨-, hlists⟩ | ⟨-, hload⟩
      · exact hlists
      · have hpositive : (0 : Int64) < held.lockId := of_decide_eq_true hload
        exact absurd hnegative (Int64.lt_asymm hpositive)
    have hstays : ∀ other, (held.join initiator expiration).lists other = true →
        held.lists other = true := by
      intro other hother
      rcases LockRecord.lists_join.1 hother with rfl | hother
      · exact hlisted
      · exact hother
    exact h.single held rfl hnegative a b (hstays a ha) (hstays b hb)

/-- Who departs is the only one that leaves; with the last one the record
goes. -/
theorem depart (h : Describes (some held) who) (hkind : kind.IsTold)
    (hclass : held.isHeldBy kind = true) :
    Describes (if (held.initiators.erase initiator).isEmpty then none
        else some { held with initiators := held.initiators.erase initiator })
      fun kind' initiator' => who kind' initiator'
        ∧ ¬(kind.sameClass kind' = true ∧ initiator = initiator') := by
  -- all who hold the record are of the class that departs
  have hwho : ∀ kind' initiator', who kind' initiator'
      ∧ ¬(kind.sameClass kind' = true ∧ initiator = initiator')
      ↔ who kind' initiator' ∧ initiator' ≠ initiator := by
    intro kind' initiator'
    refine and_congr_right fun hholds => ?_
    have hsame := (LockRecord.isHeldBy_iff_sameClass
      (h.isTold _ _ hholds) hkind (h.isHeldBy held rfl _ _ hholds)).1 hclass
    simp [hsame, eq_comm]
  refine Describes.congr ?_ hwho
  have hlists : ∀ initiator', (LockRecord.mk held.lockId
      (held.initiators.erase initiator) held.expiration).lists initiator' = true
      ↔ ∃ kind', who kind' initiator' ∧ initiator' ≠ initiator := by
    intro initiator'
    rw [LockRecord.lists_erase, h.lists_iff held rfl]
    simp [and_comm]
  by_cases hempty : (held.initiators.erase initiator).isEmpty = true
  · rw [if_pos hempty]
    refine of_none.congr fun kind' initiator' => ?_
    rw [iff_false]
    intro hholds
    have hlisted := (hlists initiator').2 ⟨kind', hholds⟩
    rw [LockRecord.lists, SortedMap.eq_empty_of_isEmpty hempty] at hlisted
    cases hlisted
  · rw [if_neg hempty]
    refine ⟨fun _ _ hholds => h.isTold _ _ hholds.1,
      fun hnone => absurd hnone (Option.some_ne_none _), ?_, ?_, ?_, ?_⟩
    · intro record _
      obtain ⟨b, hb⟩ := List.exists_mem_of_ne_nil _
        (mt List.isEmpty_iff.2 hempty)
      have hget := SortedMap.mem_toList_iff.1 hb
      obtain ⟨kind', hholds⟩ :=
        (hlists b.1).1 (Option.isSome_iff_exists.2 ⟨_, hget⟩)
      exact ⟨kind', b.1, hholds⟩
    · intro record hrecord kind' initiator' hholds
      rw [← Option.some.inj hrecord]
      exact h.isHeldBy held rfl _ _ hholds.1
    · intro record hrecord initiator'
      rw [← Option.some.inj hrecord]
      exact hlists initiator'
    · intro record hrecord hnegative a b ha hb
      rw [← Option.some.inj hrecord] at hnegative ha hb
      exact h.single held rfl hnegative a b (LockRecord.lists_erase.1 ha).2
        (LockRecord.lists_erase.1 hb).2

end Describes

-- ============================================= all moves

variable {earlier : List LockMove} {move : LockMove} {kind : LockKind}
  {initiator : Int64} {now expiration : Instant}

theorem stands_of_fresh (h : LockMove.WritesAfresh (recordAfter earlier)
    (.acquire kind initiator now expiration)) (kind' : LockKind)
    (initiator' : Int64) :
    Stands kind' initiator' (.acquire kind initiator now expiration :: earlier)
      ↔ kind = kind' ∧ initiator = initiator' := by
  have hgranted : (LockMove.grant? (recordAfter earlier)
      (.acquire kind initiator now expiration)).isSome := by
    rcases h with h | h <;> simp [h]
  simp [Stands, LockMove.IsGranted, h, hgranted]

theorem stands_of_joined (h : LockMove.grant? (recordAfter earlier)
    (.acquire kind initiator now expiration) = some .joined) (kind' : LockKind)
    (initiator' : Int64) :
    Stands kind' initiator' (.acquire kind initiator now expiration :: earlier)
      ↔ (kind = kind' ∧ initiator = initiator')
        ∨ Stands kind' initiator' earlier := by
  simp [Stands, LockMove.IsGranted, LockMove.WritesAfresh, LockMove.GivesUp, h]

theorem stands_of_refused (h : LockMove.grant? (recordAfter earlier)
    (.acquire kind initiator now expiration) = none) (kind' : LockKind)
    (initiator' : Int64) :
    Stands kind' initiator' (.acquire kind initiator now expiration :: earlier)
      ↔ Stands kind' initiator' earlier := by
  simp [Stands, LockMove.IsGranted, LockMove.WritesAfresh, LockMove.GivesUp, h]

theorem stands_of_released (earlier : List LockMove) (kind : LockKind)
    (initiator : Int64) (kind' : LockKind) (initiator' : Int64) :
    Stands kind' initiator' (.release kind initiator :: earlier)
      ↔ Stands kind' initiator' earlier
        ∧ ¬(kind.sameClass kind' = true ∧ initiator = initiator') := by
  simp [Stands, LockMove.IsGranted, LockMove.WritesAfresh, LockMove.GivesUp,
    LockMove.grant?]

/-- A move keeps the record in step with who holds the scope. -/
theorem describes_step (h : Describes (recordAfter earlier)
      fun kind initiator => Stands kind initiator earlier)
    (hkind : move.kind.IsTold) :
    Describes (recordAfter (move :: earlier))
      fun kind initiator => Stands kind initiator (move :: earlier) := by
  have hdoes := move.does_leaves (recordAfter earlier)
  show Describes (move.leaves (recordAfter earlier)) _
  generalize move.leaves (recordAfter earlier) = after at hdoes ⊢
  cases hdoes with
  | writes kind initiator now expiration hafresh =>
      exact (Describes.of_fresh hkind).congr (stands_of_fresh hafresh)
  | joins held kind initiator now expiration hheld _ hjoins hgrant =>
      rw [hheld] at h
      exact (h.join hkind hjoins).congr (stands_of_joined hgrant)
  | isRefused kind initiator now expiration _ hgrant =>
      exact h.congr (stands_of_refused hgrant)
  | departs held kind initiator hheld hclass _ =>
      rw [hheld] at h
      exact (h.depart hkind hclass).congr
        (stands_of_released earlier kind initiator)
  | isStale kind initiator hlacks =>
      refine h.congr fun kind' initiator' => ?_
      rw [stands_of_released, and_iff_left_iff_imp]
      intro hstands hgives
      obtain ⟨hclass, rfl⟩ := hgives
      cases hrecord : recordAfter earlier with
      | none => exact h.nobody hrecord _ _ hstands
      | some record =>
          have hheld := h.isHeldBy record hrecord _ _ hstands
          have hlists := (h.lists_iff record hrecord initiator).2 ⟨_, hstands⟩
          exact hlacks record hrecord ((LockRecord.isHeldBy_iff_sameClass
            (h.isTold _ _ hstands) hkind hheld).2 hclass) hlists

/-- After any moves the record describes who holds the scope. -/
theorem describes_after {moves : List LockMove}
    (h : ∀ move ∈ moves, move.kind.IsTold) :
    Describes (recordAfter moves)
      fun kind initiator => Stands kind initiator moves := by
  induction moves with
  | nil => exact Describes.of_none
  | cons move earlier ih =>
      simp only [List.mem_cons, forall_eq_or_imp] at h
      exact describes_step (ih h.2) h.1

-- ============================================= one life

/-- A move that does not write the record afresh, and does not delete it,
keeps its lock id and does not shorten its lease. -/
theorem keeps_leaves {before after : LockRecord}
    (hafter : move.leaves (some before) = some after)
    (hnot : ¬move.WritesAfresh (some before)) :
    after.lockId = before.lockId
      ∧ before.expiration ≤ after.expiration := by
  have hdoes := move.does_leaves (some before)
  rw [hafter] at hdoes
  generalize hcurrent : some before = current at hdoes hnot
  generalize hleft : some after = left at hdoes
  cases hdoes with
  | writes _ _ _ _ hafresh => exact absurd hafresh hnot
  | joins held _ initiator _ expiration hheld =>
      obtain rfl := Option.some.inj (hcurrent.trans hheld)
      obtain rfl := Option.some.inj hleft
      exact ⟨rfl, Instant.le_latest_left _ _⟩
  | isRefused | isStale =>
      obtain rfl := Option.some.inj (hleft.trans hcurrent.symm)
      exact ⟨rfl, Instant.le_refl _⟩
  | departs held _ initiator hheld =>
      obtain rfl := Option.some.inj (hcurrent.trans hheld)
      split at hleft
      · cases hleft
      · obtain rfl := Option.some.inj hleft
        exact ⟨rfl, Instant.le_refl _⟩

/-- Where there is no record, one comes about only by being written afresh. -/
theorem leaves_none (hnot : ¬move.WritesAfresh none) :
    move.leaves none = none := by
  cases move with
  | acquire kind initiator now expiration => exact absurd (.inl rfl) hnot
  | release kind initiator => rfl

/-- Within the life of a record its lock id stays and its lease gets no
shorter. -/
theorem keeps_of_noneAfresh {before after : LockRecord} :
    ∀ {later : List LockMove}, NoneAfresh earlier later →
      recordAfter earlier = some before →
      recordAfter (later ++ earlier) = some after →
      after.lockId = before.lockId
        ∧ before.expiration ≤ after.expiration := by
  intro later
  induction later generalizing after with
  | nil =>
      intro _ hbefore hafter
      obtain rfl := Option.some.inj (hbefore.symm.trans hafter)
      exact ⟨rfl, Instant.le_refl _⟩
  | cons move later ih =>
      intro hnone hbefore hafter
      obtain ⟨hnot, hnone⟩ := hnone
      replace hafter : move.leaves (recordAfter (later ++ earlier))
        = some after := hafter
      cases hbetween : recordAfter (later ++ earlier) with
      | none =>
          rw [hbetween] at hnot hafter
          rw [leaves_none hnot] at hafter
          cases hafter
      | some between =>
          rw [hbetween] at hnot hafter
          obtain ⟨hid, hle⟩ := ih hnone hbefore hbetween
          obtain ⟨hid', hle'⟩ := keeps_leaves hafter hnot
          exact ⟨hid'.trans hid, Instant.le_trans hle hle'⟩

/-- Whatever moves are made at a scope, by holders of any classes and at any
times: a record lists somebody, and nobody but one if its lock id is
negative; it lists those whose grants stand, which are all of its class, and
there is none exactly if no grant stands. As long as it is not written afresh
it keeps its lock id, and its lease gets no shorter. -/
theorem LockRecord.describes_holders (moves : List LockMove)
    (h : ∀ move ∈ moves, move.kind.IsTold) :
    (∀ record, recordAfter moves = some record →
        (∃ initiator, record.lists initiator = true)
        ∧ (record.lockId < 0 → ∃! initiator, record.lists initiator = true)
        ∧ (∀ initiator, record.lists initiator = true
          ↔ ∃ kind, Stands kind initiator moves)
        ∧ ∀ kind initiator, Stands kind initiator moves →
          record.isHeldBy kind = true)
      ∧ (recordAfter moves = none
        ↔ ∀ kind initiator, ¬Stands kind initiator moves)
      ∧ ∀ later earlier before after, moves = later ++ earlier →
        NoneAfresh earlier later → recordAfter earlier = some before →
        recordAfter moves = some after →
        after.lockId = before.lockId
          ∧ before.expiration ≤ after.expiration := by
  have hdescribes := describes_after h
  refine ⟨fun record hrecord => ?_, ⟨hdescribes.nobody, fun hnobody => ?_⟩, ?_⟩
  · have hlists := hdescribes.lists_iff record hrecord
    obtain ⟨kind, initiator, hstands⟩ := hdescribes.someone record hrecord
    have hlisted := (hlists initiator).2 ⟨kind, hstands⟩
    refine ⟨⟨initiator, hlisted⟩, fun hnegative => ?_, hlists,
      hdescribes.isHeldBy record hrecord⟩
    exact ⟨initiator, hlisted, fun other hother =>
      hdescribes.single record hrecord hnegative other initiator hother hlisted⟩
  · cases hrecord : recordAfter moves with
    | none => rfl
    | some record =>
        obtain ⟨kind, initiator, hstands⟩ := hdescribes.someone record hrecord
        exact absurd hstands (hnobody kind initiator)
  · intro later earlier before after hmoves hnone hbefore hafter
    rw [hmoves] at hafter
    exact keeps_of_noneAfresh hnone hbefore hafter

/-- A compaction holds a scope until its lease ends and loads take the scope
over, one of them by a clock that went back. One load is released by another
one, and a schema change gives up what it does not hold. -/
def handedOver : List LockMove :=
  [.release .schemaChange 2, .release (.load 103) 1,
    .acquire .lockFreeCompaction 2 ⟨6, 0⟩ ⟨90, 0⟩,
    .acquire (.load 102) 2 ⟨5, 0⟩ ⟨15, 0⟩,
    .acquire (.load 101) 1 ⟨10, 0⟩ ⟨20, 0⟩,
    .acquire .compaction 7 ⟨0, 0⟩ ⟨10, 0⟩]

/-- The second load is left, in a record with the lock id and the lease of the
first one. -/
theorem LockRecord.describes_holders_handedOver :
    (∀ move ∈ handedOver, move.kind.IsTold)
      ∧ recordAfter handedOver
        = some ⟨101, SortedSet.ofList [2], ⟨20, 0⟩⟩
      ∧ (∀ initiator, LockRecord.lists
          ⟨101, SortedSet.ofList [2], ⟨20, 0⟩⟩ initiator = true
        ↔ ∃ kind, Stands kind initiator handedOver)
      ∧ Stands (.load 102) 2 handedOver
      ∧ ¬Stands (.load 101) 1 handedOver ∧ ¬Stands .compaction 7 handedOver := by
  have htold : ∀ move ∈ handedOver, move.kind.IsTold := by
    simp only [handedOver, List.forall_mem_cons]
    exact ⟨rfl, rfl, rfl, rfl, rfl, rfl, nofun⟩
  have hrecord : recordAfter handedOver
      = some ⟨101, SortedSet.ofList [2], ⟨20, 0⟩⟩ := by
    decide +kernel
  obtain ⟨-, -, hlists, -⟩ :=
    (describes_holders handedOver htold).1 _ hrecord
  exact ⟨htold, hrecord, hlists, by decide +kernel, by decide +kernel,
    by decide +kernel⟩

end MergeOnWrite
