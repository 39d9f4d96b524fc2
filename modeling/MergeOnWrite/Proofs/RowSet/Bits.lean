/-
Bitmaps tell the rows whose bits they have.

A byte of a bitmap is a sum of different powers of two, so its bits are the
rows that it was made of. The rows ascend, which is what makes them the
rows that are read back in their order.

# Main statements

- `unpackByte_packByte`: the rows of one byte.
- `unpackBytes_packBytes`: the rows of a bitmap.
-/
import Mathlib.Algebra.Group.Nat.Defs
import MergeOnWrite.RowSet.Portable

namespace MergeOnWrite.RowSet

-- ================================================== ascending numbers

/-- Ascending numbers are determined by which there are. -/
theorem eq_of_ascending {l r : List Nat} (hl : l.Pairwise (· < ·))
    (hr : r.Pairwise (· < ·)) (h : ∀ n, n ∈ l ↔ n ∈ r) : l = r := by
  have hperm : l.Perm r := (List.perm_ext_iff_of_nodup
    (hl.imp Nat.ne_of_lt) (hr.imp Nat.ne_of_lt)).2 h
  exact hperm.eq_of_pairwise
    (fun a b _ _ hab hba => absurd hab (Nat.lt_asymm hba)) hl hr

/-- There are no more ascending numbers than fit between two bounds. -/
theorem length_le_of_ascending (top : Nat) :
    ∀ {l : List Nat} (bottom : Nat), l.Pairwise (· < ·) →
      (∀ n ∈ l, bottom ≤ n ∧ n < top) → l.length ≤ top - bottom := by
  intro l
  induction l with
  | nil => intro bottom _ _; exact Nat.zero_le _
  | cons a rest ih =>
      intro bottom h hrange
      obtain ⟨ha, hrest⟩ := List.pairwise_cons.1 h
      have hlen := ih (a + 1) hrest fun n hn =>
        ⟨ha n hn, (hrange n (List.mem_cons_of_mem _ hn)).2⟩
      have := hrange a (List.mem_cons_self ..)
      rw [List.length_cons]
      omega

-- ================================================== one byte

/-- A sum of different powers of two has exactly their bits. The powers
descend, so that the first one is greater than the sum of the others. -/
theorem testBit_total :
    ∀ {ws : List Nat}, ws.Pairwise (· > ·) →
      (∀ n, (∀ w ∈ ws, w < n) → total (Nat.pow 2) ws < 2 ^ n)
        ∧ ∀ i, (total (Nat.pow 2) ws).testBit i = decide (i ∈ ws) := by
  intro ws
  induction ws with
  | nil =>
      intro _
      refine ⟨fun n _ => Nat.two_pow_pos n, fun i => ?_⟩
      rw [total, Nat.zero_testBit]
      rfl
  | cons w rest ih =>
      intro h
      obtain ⟨hw, hrest⟩ := List.pairwise_cons.1 h
      obtain ⟨hsum, hbits⟩ := ih hrest
      have hlt : total (Nat.pow 2) rest < 2 ^ w := hsum w hw
      have htotal : total (Nat.pow 2) (w :: rest)
          = 2 ^ w + total (Nat.pow 2) rest := rfl
      have hbound : total (Nat.pow 2) (w :: rest) < 2 ^ (w + 1) := by
        rw [htotal, Nat.pow_succ]
        omega
      refine ⟨fun n hn => ?_, fun i => ?_⟩
      · have hwn : w + 1 ≤ n := hn w (List.mem_cons_self ..)
        exact Nat.lt_of_lt_of_le hbound
          (Nat.pow_le_pow_right (by decide) hwn)
      · rcases Nat.lt_trichotomy i w with hi | rfl | hi
        · rw [htotal, Nat.testBit_two_pow_add_gt hi, hbits]
          refine decide_eq_decide.2 ⟨List.mem_cons_of_mem _, fun hmem => ?_⟩
          exact (List.mem_cons.1 hmem).resolve_left (Nat.ne_of_lt hi)
        · rw [htotal, Nat.testBit_two_pow_add_eq, hbits,
            decide_eq_false fun hmem => Nat.lt_irrefl _ (hw _ hmem)]
          exact (decide_eq_true (List.mem_cons_self ..)).symm
        · rw [Nat.testBit_lt_two_pow (Nat.lt_of_lt_of_le hbound
            (Nat.pow_le_pow_right (by decide) hi))]
          refine (decide_eq_false fun hmem => ?_).symm
          rcases List.mem_cons.1 hmem with rfl | hmem
          · exact Nat.lt_irrefl _ hi
          · exact Nat.lt_asymm hi (hw _ hmem)

theorem total_reverse {α : Type} (measure : α → Nat) (l : List α) :
    total measure l.reverse = total measure l := by
  induction l with
  | nil => rfl
  | cons a rest ih =>
      rw [List.reverse_cons, total_append, ih]
      simp only [total]
      omega

/-- The rows of one byte are read back. -/
theorem unpackByte_packByte {base : Nat} {values : List Nat}
    (h : values.Pairwise (· < ·))
    (hrange : ∀ v ∈ values, base ≤ v ∧ v < base + 8) :
    unpackByte base (Container.packByte base values) = values := by
  have hshift : total (fun v => Nat.pow 2 (v - base)) values
      = total (Nat.pow 2) (values.map (· - base)).reverse := by
    rw [total_reverse]
    clear h hrange
    induction values with
    | nil => rfl
    | cons v rest ih => rw [total, ih]; rfl
  have hws : (values.map (· - base)).reverse.Pairwise (· > ·) := by
    rw [List.pairwise_reverse, List.pairwise_map]
    refine h.imp_of_mem fun {a b} ha hb hab => ?_
    have := (hrange a ha).1
    omega
  have hmem : ∀ w ∈ (values.map (· - base)).reverse, w < 8 := by
    intro w hw
    obtain ⟨v, hv, rfl⟩ := List.mem_map.1 (List.mem_reverse.1 hw)
    have := hrange v hv
    omega
  obtain ⟨hsum, hbits⟩ := testBit_total hws
  have hbyte : (Container.packByte base values).toNat
      = total (Nat.pow 2) (values.map (· - base)).reverse := by
    rw [Container.packByte, hshift, UInt8.toNat_ofNat']
    exact Nat.mod_eq_of_lt (hsum 8 hmem)
  refine eq_of_ascending ?_ h fun v => ?_
  · rw [unpackByte, List.pairwise_map]
    refine (List.pairwise_lt_range.filter _).imp fun {a b} hab => ?_
    omega
  · simp only [unpackByte, hbyte, hbits, List.mem_map, List.mem_filter,
      List.mem_range, decide_eq_true_eq, List.mem_reverse]
    constructor
    · rintro ⟨i, ⟨-, u, hu, rfl⟩, rfl⟩
      have := (hrange u hu).1
      rw [Nat.add_sub_cancel' this]
      exact hu
    · intro hv
      have := hrange v hv
      exact ⟨v - base, ⟨by omega, v, hv, rfl⟩, by omega⟩

-- ================================================== bitmaps

theorem length_packBytes :
    ∀ (count base : Nat) (values : List Nat),
      (Container.packBytes count base values).length = count := by
  intro count
  induction count with
  | zero => intro _ _; rfl
  | succ count ih =>
      intro base values
      rw [Container.packBytes, List.length_cons, ih]

/-- Ascending rows fall into those of the first byte and those after it. -/
theorem split_ascending (bound : Nat) :
    ∀ {values : List Nat}, values.Pairwise (· < ·) →
      (∀ v ∈ values.takeWhile (· < bound), v < bound)
        ∧ ∀ v ∈ values.dropWhile (· < bound), bound ≤ v := by
  intro values
  induction values with
  | nil => intro _; exact ⟨nofun, nofun⟩
  | cons v rest ih =>
      intro h
      obtain ⟨hv, hrest⟩ := List.pairwise_cons.1 h
      by_cases hlt : v < bound
      · simp only [List.takeWhile_cons, List.dropWhile_cons, hlt, decide_true,
          if_true]
        refine ⟨fun u hu => ?_, (ih hrest).2⟩
        rcases List.mem_cons.1 hu with rfl | hu
        · exact hlt
        · exact (ih hrest).1 u hu
      · simp only [List.takeWhile_cons, List.dropWhile_cons, hlt, decide_false,
          Bool.false_eq_true, if_false]
        refine ⟨nofun, fun u hu => ?_⟩
        rcases List.mem_cons.1 hu with rfl | hu
        · omega
        · have := hv u hu
          omega

/-- The rows of a bitmap are read back. -/
theorem unpackBytes_packBytes :
    ∀ {count base : Nat} {values : List Nat}, values.Pairwise (· < ·) →
      (∀ v ∈ values, base ≤ v ∧ v < base + 8 * count) →
        unpackBytes base (Container.packBytes count base values) = values := by
  intro count
  induction count with
  | zero =>
      intro base values _ hrange
      cases values with
      | nil => rfl
      | cons v rest =>
          have := hrange v (List.mem_cons_self ..)
          omega
  | succ count ih =>
      intro base values h hrange
      obtain ⟨hfront, hback⟩ := split_ascending (base + 8) h
      have hsplit := List.takeWhile_append_dropWhile
        (p := fun v => decide (v < base + 8)) (l := values)
      have hpieces := List.pairwise_append.1 (hsplit.symm ▸ h)
      have hmem : ∀ v ∈ values, base ≤ v ∧ v < base + 8 * (count + 1) := hrange
      rw [Container.packBytes, unpackBytes,
        unpackByte_packByte hpieces.1 fun v hv => ⟨?_, hfront v hv⟩,
        ih hpieces.2.1 fun v hv => ⟨hback v hv, ?_⟩, hsplit]
      · have := (hmem v (hsplit ▸ List.mem_append_right _ hv)).2
        omega
      · exact (hmem v (hsplit ▸ List.mem_append_left _ hv)).1

end MergeOnWrite.RowSet
