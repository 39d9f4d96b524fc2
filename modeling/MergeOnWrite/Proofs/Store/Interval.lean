/-
The interval of keys that a scan reads.

A scan reads an interval of the keys in their order, and a commit looks for
writes in the same interval. Both ends are made from the byte string that is
scanned for, without a look at any key. That the keys between them are the
extensions of the byte string is a fact of the lexicographic order: what does
not extend the byte string differs from it at some byte, or ends within it,
and that place decides on which side of all extensions it lies.

The upper end is found from the back. Bytes of the greatest value are dropped,
since none of them can be incremented, and the byte in front of them is. It is
the least bound above all extensions, so an interval that ends earlier would
lose keys. A string of greatest bytes alone, the empty one among them, has no
such bound, and its interval no end.

# Main statements

- `Bytes.above?_eq_some_iff`, `Bytes.above?_eq_none_iff`: the upper end, by
  the bytes of the string.
- `Bytes.prefix_iff`: the extensions, by the lexicographic order.
- `Bytes.forall_before_iff`: the upper end is the least bound above them.
- `KeyRange.extending_exact`: the interval holds the extensions, and no other
  key; its ends are in order.
-/
import MergeOnWrite.Proofs.Bytes

namespace MergeOnWrite

namespace Bytes

variable {a b stem up : Bytes}

-- ================================================== order

/-- The lexicographic order: the first byte that differs decides, and where
there is none, the shorter one comes first. -/
abbrev Before (a b : Bytes) : Prop := List.Lex (· < ·) a b

theorem compare_eq_lt_iff : ∀ {a b : Bytes},
    compare a b = .lt ↔ a.Before b := by
  intro a
  induction a with
  | nil =>
      intro b
      cases b with
      | nil => exact iff_of_false (by decide) List.not_lex_nil
      | cons d back => exact iff_of_true rfl .nil
  | cons c rest ih =>
      intro b
      cases b with
      | nil => exact iff_of_false (by rintro ⟨⟩) List.not_lex_nil
      | cons d back =>
          rw [List.compare_cons_cons, Ordering.then_eq_lt, Std.compare_eq_lt,
            Std.LawfulEqOrd.compare_eq_iff_eq, ih]
          exact List.cons_lex_cons_iff.symm

theorem isLE_compare_iff : (compare a b).isLE = true ↔ ¬ b.Before a := by
  rw [← compare_eq_lt_iff, Ordering.isLE_iff_ne_gt,
    Std.OrientedCmp.gt_iff_lt]

theorem not_before_self : ¬ a.Before a := by
  rw [← isLE_compare_iff, Std.ReflOrd.compare_self]
  rfl

theorem Before.trans_not {c : Bytes} (hab : a.Before b)
    (hcb : ¬ c.Before b) : a.Before c := by
  rw [← isLE_compare_iff] at hcb
  exact compare_eq_lt_iff.1
    (Std.TransCmp.lt_of_lt_of_isLE (compare_eq_lt_iff.2 hab) hcb)

-- ================================================== upper ends

theorem above?_replicate (n : Nat) :
    above? (List.replicate n 0xFF) = none := by
  induction n with
  | zero => rfl
  | succ n ih =>
      rw [List.replicate_succ, above?, ih]
      rfl

/-- Greatest bytes at the end are dropped, and the byte in front of them is
incremented. -/
theorem above?_append (front : Bytes) {c : UInt8} (hc : c ≠ 0xFF) (n : Nat) :
    above? (front ++ c :: List.replicate n 0xFF) = some (front ++ [c + 1]) := by
  induction front with
  | nil =>
      rw [List.nil_append, above?, above?_replicate]
      exact if_neg hc
  | cons d rest ih =>
      rw [List.cons_append, above?, ih]
      rfl

/-- Behind its last byte below the greatest one, a byte string has greatest
bytes only. -/
theorem eq_replicate_or_append (stem : Bytes) :
    (∃ n, stem = List.replicate n 0xFF)
      ∨ ∃ front c n, c ≠ 0xFF
        ∧ stem = front ++ c :: List.replicate n 0xFF := by
  induction stem with
  | nil => exact .inl ⟨0, rfl⟩
  | cons d rest ih =>
      rcases ih with ⟨n, rfl⟩ | ⟨front, c, n, hc, rfl⟩
      · by_cases hd : d = 0xFF
        · exact .inl ⟨n + 1, by rw [hd, List.replicate_succ]⟩
        · exact .inr ⟨[], d, n, hd, rfl⟩
      · exact .inr ⟨d :: front, c, n, hc, rfl⟩

theorem above?_eq_some_iff : above? stem = some up
    ↔ ∃ front c n, c ≠ 0xFF ∧ stem = front ++ c :: List.replicate n 0xFF
      ∧ up = front ++ [c + 1] := by
  constructor
  · intro h
    rcases eq_replicate_or_append stem with ⟨n, rfl⟩ | ⟨front, c, n, hc, rfl⟩
    · rw [above?_replicate] at h
      cases h
    · rw [above?_append front hc] at h
      exact ⟨front, c, n, hc, rfl, (Option.some.inj h).symm⟩
  · rintro ⟨front, c, n, hc, rfl, rfl⟩
    exact above?_append front hc n

theorem above?_eq_none_iff : above? stem = none ↔ ∀ c ∈ stem, c = 0xFF := by
  constructor
  · intro h
    rcases eq_replicate_or_append stem with ⟨n, rfl⟩ | ⟨front, c, n, hc, rfl⟩
    · exact fun _ => List.eq_of_mem_replicate
    · rw [above?_append front hc] at h
      cases h
  · intro h
    rw [List.eq_replicate_of_mem h]
    exact above?_replicate _

end Bytes

-- ================================================== intervals

/-- The lower end is within an interval, and the upper end is not. -/
theorem KeyRange.contains_iff {range : KeyRange} {key : Bytes} :
    range.contains key = true ↔ ¬ key.Before range.lower
      ∧ ∀ up, range.upper = some up → key.Before up := by
  rw [contains, Bool.and_eq_true, Bytes.isLE_compare_iff, Option.all_eq_true]
  refine and_congr_right fun _ => forall_congr' fun up => ?_
  rw [beq_iff_eq, Bytes.compare_eq_lt_iff]

namespace Bytes

variable {stem key up bound : Bytes}

/-- The extensions of a byte string, by their place in the order. -/
theorem prefix_iff : stem <+: key ↔ ¬ key.Before stem
    ∧ ∀ up, above? stem = some up → key.Before up :=
  KeyRange.contains_extending.symm.trans KeyRange.contains_iff

/-- A byte string extends itself, and so it is below the upper end. -/
theorem before_above? (h : above? stem = some up) : stem.Before up :=
  (prefix_iff.1 (List.prefix_refl stem)).2 up h

/-- Nothing that is less than the upper end bounds all extensions, and where
there is no upper end nothing does: it would itself be an extension, and
below itself. -/
theorem forall_before_iff : (∀ key : Bytes, stem <+: key → key.Before bound)
    ↔ ∃ up, above? stem = some up ∧ ¬ bound.Before up := by
  constructor
  · intro h
    have hout : ¬ stem <+: bound := fun hp => not_before_self (h bound hp)
    have hlower : ¬ bound.Before stem := fun hlt =>
      List.lex_asymm UInt8.lt_asymm hlt (h stem (List.prefix_refl stem))
    cases hup : above? stem with
    | none => exact absurd (prefix_iff.2 ⟨hlower, by simp [hup]⟩) hout
    | some up =>
        refine ⟨up, rfl, fun hlt => hout (prefix_iff.2 ⟨hlower, ?_⟩)⟩
        simpa [hup] using hlt
  · rintro ⟨up, hup, hbound⟩ key hkey
    exact ((prefix_iff.1 hkey).2 up hup).trans_not hbound

end Bytes

namespace KeyRange

/-- The interval of a scan holds the extensions of its byte string, by the
lexicographic order of the bytes, and no other key. Its upper end drops
greatest bytes and increments the byte in front of them, it is above the lower
end, and there is one unless all bytes are greatest ones. -/
theorem extending_exact (stem : Bytes) :
    (∀ key : Bytes, (extending stem).contains key = true ↔ stem <+: key)
      ∧ (∀ key : Bytes, (¬ key.Before (extending stem).lower
          ∧ ∀ up, (extending stem).upper = some up → key.Before up)
        ↔ stem <+: key)
      ∧ (∀ up, (extending stem).upper = some up →
        (extending stem).lower.Before up)
      ∧ (∀ up, (extending stem).upper = some up
        ↔ ∃ front c n, c ≠ 0xFF
          ∧ stem = front ++ c :: List.replicate n 0xFF
          ∧ up = front ++ [c + 1])
      ∧ ((extending stem).upper = none ↔ ∀ c ∈ stem, c = 0xFF) :=
  ⟨fun _ => contains_extending, fun _ => Bytes.prefix_iff.symm,
    fun _ => Bytes.before_above?, fun _ => Bytes.above?_eq_some_iff,
    Bytes.above?_eq_none_iff⟩

/-- A string that ends in greatest bytes, and one of them alone. -/
theorem extending_exact_greatest :
    (extending [0x01, 0xFF]).upper = some [0x02]
      ∧ (extending [0x01, 0xFF]).contains [0x01, 0xFF, 0xFF] = true
      ∧ (extending [0x01, 0xFF]).contains [0x02] = false
      ∧ (extending [0xFF]).upper = none
      ∧ (extending [0xFF]).contains [0xFF, 0xFF] = true := by
  obtain ⟨hcontains, -, -, hupper, -⟩ := extending_exact [0x01, 0xFF]
  obtain ⟨hcontains', -, -, -, hnone⟩ := extending_exact [0xFF]
  refine ⟨(hupper _).2 ⟨[], 0x01, 1, by decide, rfl, rfl⟩,
    (hcontains _).2 ⟨[0xFF], rfl⟩, ?_, hnone.2 fun _ => List.mem_singleton.1,
    (hcontains' _).2 ⟨[0xFF], rfl⟩⟩
  rw [← Bool.not_eq_true, hcontains, List.cons_prefix_cons]
  exact fun h => absurd h.1 (by decide)

end KeyRange

end MergeOnWrite
