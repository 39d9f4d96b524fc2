/-
Who holds a scope.

While nobody gives a scope up, its record tells who has acquired it: all of
them pass the check of their lease, and a record whose lease runs lists
nobody else. Loads hold a scope together; a holder of any other class is the
only one, since nobody else could acquire the scope from then on.

# Main statements

- `HeldBy.acquire`: who acquires a scope becomes one more holder of it.
- `HeldBy.ne_busy`: a load is not refused a scope that loads hold.
- `HeldBy.lists_iff`: the record lists exactly who holds the scope.
-/
import MergeOnWrite.Proofs.Lock.Transition

namespace MergeOnWrite

/-- True of what a scope holds at a time at which exactly some participants
of some classes hold it. -/
structure LockRecord.HeldBy (current : Option LockRecord) (now : Instant)
    (who : LockKind → Int64 → Prop) : Prop where
  holds : ∀ kind initiator, who kind initiator →
    LockRecord.holds current kind initiator now = true
  someone : ∀ record, current = some record → record.isExpired now = false →
    ∃ kind initiator, who kind initiator
  listed : ∀ record, current = some record → record.isExpired now = false →
    ∀ initiator, record.lists initiator = true → ∃ kind, who kind initiator
  single : ∀ kind initiator, who kind initiator → kind.isLoad = false →
    ∀ kind' initiator', who kind' initiator' →
      kind'.lockId = kind.lockId ∧ initiator' = initiator

namespace LockRecord

variable {current : Option LockRecord} {record holder : LockRecord}
  {kind kind' : LockKind} {initiator initiator' : Int64}
  {now expiration : Instant} {outcome : LockOutcome}
  {who who' : LockKind → Int64 → Prop}

/-- Who is refused meets a running record of another class, or one of its
own class that does not list it. -/
theorem acquire_busy
    (h : acquire current kind initiator now expiration = .busy holder) :
    current = some holder ∧ holder.isExpired now = false
      ∧ ¬ (kind.isLoad = true ∧ holder.isLoad = true) := by
  cases current with
  | none => cases h
  | some record =>
      rw [acquire] at h
      split at h
      · cases h
      · rename_i hexpired
        split at h
        · cases h
        · rename_i hjoins
          cases h
          exact ⟨rfl, Bool.eq_false_iff.2 hexpired, fun hloads =>
            hjoins (.inr hloads)⟩

theorem isExpired_eq_false : record.isExpired now = false
    ↔ now < record.expiration := by
  rw [isExpired, decide_eq_false_iff_not]
  exact Decidable.not_not

/-- A scope on which no lease runs is held by nobody. -/
theorem heldBy_of_expired
    (h : ∀ record, current = some record → record.isExpired now = true) :
    HeldBy current now fun _ _ => False := by
  have hnone : ∀ record, current = some record →
      record.isExpired now ≠ false := fun record hrecord hruns => by
    rw [h record hrecord] at hruns
    cases hruns
  exact ⟨fun _ _ => False.elim,
    fun record hrecord hruns => absurd hruns (hnone record hrecord),
    fun record hrecord hruns => absurd hruns (hnone record hrecord),
    fun _ _ => False.elim⟩

namespace HeldBy

theorem congr (h : HeldBy current now who)
    (hwho : ∀ kind initiator, who kind initiator ↔ who' kind initiator) :
    HeldBy current now who' := by
  obtain rfl : who = who' :=
    funext fun kind => funext fun initiator => propext (hwho kind initiator)
  exact h

/-- Of holders that are not all loads, none other than the only one acquires
the scope again. -/
theorem eq_of_acquire (h : HeldBy current now who)
    (hwho : who kind' initiator') (hkind' : kind'.IsTold) (hkind : kind.IsTold)
    (hloads : kind'.isLoad = false ∨ kind.isLoad = false)
    (hacquire : acquire current kind initiator now expiration
      = .granted record outcome) :
    kind.lockId = kind'.lockId ∧ initiator = initiator' := by
  obtain ⟨held, rfl, hheld, -, hruns⟩ := of_holds (h.holds _ _ hwho)
  rw [← isExpired_eq_false] at hruns
  rcases acquire_cases hacquire with ⟨hexpired, -⟩ | ⟨_, heq, -, hjoins, -⟩
  · rw [hexpired held rfl] at hruns
    cases hruns
  · obtain rfl := Option.some.inj heq
    unfold isHeldBy isLoad at hheld
    cases hload' : kind'.isLoad with
    | true =>
        have hload := hloads.resolve_left (by simp [hload'])
        rw [if_pos hload', decide_eq_true_iff] at hheld
        rcases hjoins with ⟨hid, -⟩ | ⟨hload₂, -⟩
        · rw [hid, ← hkind.isLoad_iff, hload] at hheld
          cases hheld
        · rw [hload] at hload₂
          cases hload₂
    | false =>
        rw [if_neg (by simp [hload']), decide_eq_true_iff] at hheld
        rcases hjoins with ⟨hid, hlists⟩ | ⟨-, hload₂⟩
        · obtain ⟨other, hother⟩ := h.listed held rfl hruns _ hlists
          exact ⟨hid.symm.trans hheld, (h.single _ _ hwho hload' _ _ hother).2⟩
        · rw [isLoad, decide_eq_true_iff, hheld, ← hkind'.isLoad_iff,
            hload'] at hload₂
          cases hload₂

/-- Who acquires a scope becomes one more holder of it. -/
protected theorem acquire (h : HeldBy current now who)
    (htold : ∀ kind initiator, who kind initiator → kind.IsTold)
    (hkind : kind.IsTold) (hnow : now < expiration)
    (hacquire : acquire current kind initiator now expiration
      = .granted record outcome) :
    HeldBy (some record) now fun kind' initiator' =>
      kind' = kind ∧ initiator' = initiator ∨ who kind' initiator' := by
  refine ⟨fun kind' initiator' hwho => ?_,
    fun _ _ _ => ⟨kind, initiator, .inl ⟨rfl, rfl⟩⟩,
    fun record' hrecord _ initiator' hlists => ?_,
    fun a x ha hload b y hb => ?_⟩
  · rcases hwho with ⟨rfl, rfl⟩ | hwho
    · obtain ⟨hheld, hlists, hle⟩ := isHeldBy_of_acquire hkind hacquire
      exact holds_some hheld hlists (Instant.lt_of_lt_of_le hnow hle)
    · -- whoever holds the scope goes on holding it
      obtain ⟨held, rfl, hheld, hlists, hruns⟩ := of_holds (h.holds _ _ hwho)
      have hkeeps : Keeps kind' initiator' held held :=
        ⟨hheld, hlists, Instant.le_refl _, fun _ _ => id⟩
      have hkept :=
        (hkeeps.acquire (htold _ _ hwho) hkind hruns hacquire).1
      exact holds_some hkept.isHeldBy hkept.lists
        (Instant.lt_of_lt_of_le hruns hkept.expiration_le)
  · obtain rfl := Option.some.inj hrecord
    rcases acquire_cases hacquire with ⟨-, rfl⟩ | ⟨held, hheld, hruns, -, rfl⟩
    · exact ⟨kind, .inl ⟨rfl, lists_fresh.1 hlists⟩⟩
    · rcases lists_join.1 hlists with heq | hlisted
      · exact ⟨kind, .inl ⟨rfl, heq⟩⟩
      · obtain ⟨other, hother⟩ := h.listed held hheld hruns _ hlisted
        exact ⟨other, .inr hother⟩
  · rcases ha with ⟨rfl, rfl⟩ | ha
    · rcases hb with ⟨rfl, rfl⟩ | hb
      · exact ⟨rfl, rfl⟩
      · obtain ⟨hid, heq⟩ := h.eq_of_acquire hb (htold _ _ hb) hkind
          (.inr hload) hacquire
        exact ⟨hid.symm, heq.symm⟩
    · rcases hb with ⟨rfl, rfl⟩ | hb
      · exact h.eq_of_acquire ha (htold _ _ ha) hkind (.inl hload) hacquire
      · exact h.single a x ha hload b y hb

/-- A load is never refused where loads alone hold the scope. -/
theorem ne_busy (h : HeldBy current now who)
    (hloads : ∀ kind initiator, who kind initiator → kind.isLoad = true)
    (hkind : kind.isLoad = true) :
    acquire current kind initiator now expiration ≠ .busy holder := by
  intro hbusy
  obtain ⟨rfl, hruns, hjoins⟩ := acquire_busy hbusy
  obtain ⟨other, participant, hwho⟩ := h.someone holder rfl hruns
  obtain ⟨_, heq, hheld, -⟩ := of_holds (h.holds _ _ hwho)
  obtain rfl := Option.some.inj heq
  rw [isHeldBy, if_pos (hloads _ _ hwho)] at hheld
  exact hjoins ⟨hkind, hheld⟩

/-- The record of a scope that somebody holds lists exactly who holds it. -/
theorem lists_iff (h : HeldBy current now who) (hsomeone : who kind initiator) :
    ∃ record, current = some record ∧ record.isHeldBy kind = true
      ∧ ∀ other, record.lists other = true ↔ ∃ kind, who kind other := by
  obtain ⟨record, rfl, hheld, -, hruns⟩ := of_holds (h.holds _ _ hsomeone)
  refine ⟨record, rfl, hheld, fun other => ⟨fun hlists =>
    h.listed record rfl (isExpired_eq_false.2 hruns) other hlists, ?_⟩⟩
  rintro ⟨kind', hwho⟩
  obtain ⟨_, heq, -, hlists, -⟩ := of_holds (h.holds _ _ hwho)
  obtain rfl := Option.some.inj heq
  exact hlists

end HeldBy

end LockRecord

end MergeOnWrite
