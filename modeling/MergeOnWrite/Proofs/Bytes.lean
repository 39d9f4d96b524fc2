/-
Extensions of byte strings, and of texts as byte strings.

# Main statements

- `contains_extending`: the interval that a scan reads holds exactly the
  extensions of the byte string.
- `ofText_prefix`: one text extends another if its bytes do.
-/
import MergeOnWrite.Bytes

namespace MergeOnWrite

-- ================================================== intervals

/-- A byte below the greatest one is below its successor, and nothing lies
between the two. -/
theorem lt_add_one_iff {b k : UInt8} (hb : b ≠ 0xFF) : k < b + 1 ↔ k ≤ b := by
  have hlt : b.toNat < 255 := by
    have := b.toNat_lt
    have hne : b.toNat ≠ 255 := fun h => hb (UInt8.toNat_inj.1 h)
    omega
  rw [UInt8.lt_iff_toNat_lt, UInt8.le_iff_toNat_le, UInt8.toNat_add]
  show k.toNat < (b.toNat + 1) % 256 ↔ _
  omega

namespace KeyRange

/-- The interval of the extensions of a longer byte string, for keys that
start with the same byte. -/
theorem contains_extending_cons {b k : UInt8} {rest ks : Bytes} :
    (extending (b :: rest)).contains (k :: ks) = true
      ↔ k = b ∧ (extending rest).contains ks = true := by
  simp only [contains, extending, Bytes.above?, Bool.and_eq_true,
    List.compare_cons_cons]
  by_cases hkb : k = b
  · subst hkb
    rw [Std.ReflOrd.compare_self]
    cases hup : Bytes.above? rest with
    | some up =>
        simp [List.compare_cons_cons]
    | none =>
        by_cases hff : k = 0xFF
        · simp [hff]
        · have hlt : compare k (k + 1) = .lt :=
            Std.compare_eq_lt.2 ((lt_add_one_iff hff).2 (UInt8.le_refl k))
          simp [hff, List.compare_cons_cons, hlt]
  · refine iff_of_false (fun h => ?_) fun h => hkb h.1
    obtain ⟨hlower, hupper⟩ := h
    rcases UInt8.lt_or_lt_of_ne hkb with hlt | hlt
    · rw [Std.compare_eq_gt.2 hlt] at hlower
      cases hlower
    · cases hup : Bytes.above? rest with
      | some up =>
          rw [hup] at hupper
          simp [List.compare_cons_cons, Std.compare_eq_gt.2 hlt] at hupper
      | none =>
          rw [hup] at hupper
          by_cases hff : b = 0xFF
          · subst hff
            have := UInt8.lt_iff_toNat_lt.1 hlt
            have := k.toNat_lt
            have : (0xFF : UInt8).toNat = 255 := rfl
            omega
          · have hge : ¬ k < b + 1 := fun h =>
              absurd ((lt_add_one_iff hff).1 h) (UInt8.not_le.2 hlt)
            have hne : compare k (b + 1) ≠ .lt :=
              fun h => hge (Std.compare_eq_lt.1 h)
            simp only [hff, if_false, Option.all_some, beq_iff_eq,
              List.compare_cons_cons] at hupper
            cases hc : compare k (b + 1) with
            | lt => exact hne hc
            | eq => rw [hc] at hupper; cases ks <;> cases hupper
            | gt => rw [hc] at hupper; cases hupper

/-- The interval that a scan reads holds exactly the extensions of the
byte string. -/
theorem contains_extending {stem : Bytes} :
    ∀ {key : Bytes}, (extending stem).contains key = true ↔ stem <+: key := by
  induction stem with
  | nil =>
      intro key
      refine iff_of_true ?_ (List.nil_prefix)
      cases key <;> rfl
  | cons b rest ih =>
      intro key
      cases key with
      | nil =>
          refine iff_of_false (fun h => ?_) (by simp)
          cases (Bool.and_eq_true _ _ ▸ h).1
      | cons k ks =>
          rw [contains_extending_cons, List.cons_prefix_cons, ih, eq_comm]

end KeyRange

-- ================================================== texts

namespace Bytes

theorem ofText_append (a b : String) : ofText (a ++ b) = ofText a ++ ofText b := by
  simp [ofText]

theorem ofText_prefix {a b : String} (h : ofText a <+: ofText b) :
    a.toList <+: b.toList := by
  obtain ⟨rest, hrest⟩ := h
  refine List.isPrefix_of_utf8Encode_append_eq_utf8Encode ⟨rest.toArray⟩ ?_
  rw [String.utf8Encode_toList, String.utf8Encode_toList]
  refine ByteArray.ext (Array.toList_inj.1 ?_)
  rw [ByteArray.data_append, Array.toList_append]
  exact hrest

end Bytes

end MergeOnWrite
