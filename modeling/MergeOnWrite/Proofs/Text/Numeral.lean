/-
What numerals look like, and which number they stand for.

A number that is not negative is written in digits alone, filled up with
zeros in front where it has a width; a negative one has a sign before
them. So a numeral tells its number, whatever the width.

# Main statements

- `isDigit_of_mem_padded`, `length_padded`, `ofDigitChars_padded`: the
  digits of a number that is not negative.
- `padded_inj`: a number is determined by its numeral of some width.
- `length_padded_int64`, `length_padded_uint32`: the widths of the numbers in
  keys.
-/
import Mathlib.Algebra.Group.Nat.Defs
import MergeOnWrite.Text.Numeral

namespace MergeOnWrite.Text

-- ================================================== digits

theorem isDigit_of_mem_toDigits {n : Nat} {c : Char}
    (h : c ∈ Nat.toDigits 10 n) : c.isDigit = true :=
  Nat.isDigit_of_mem_toDigits (by decide) (by decide) h

/-- The digits of a number above zero start with no zero. -/
theorem toDigits_head {n : Nat} (h : 0 < n) :
    ∃ c tail, Nat.toDigits 10 n = c :: tail ∧ c ≠ '0' := by
  induction n using Nat.strongRecOn with
  | ind n ih =>
      rcases Nat.lt_or_ge n 10 with hlt | hge
      · refine ⟨_, [], Nat.toDigits_of_lt_base hlt, fun hc => ?_⟩
        exact absurd (Nat.digitChar_eq_zero.1 hc) (by omega)
      · obtain ⟨c, tail, hrest, hc⟩ :=
          ih (n / 10) (by omega) (by omega)
        rw [Nat.toDigits_of_base_le (by decide) hge, hrest]
        exact ⟨c, _, rfl, hc⟩

theorem padded_natCast (width n : Nat) :
    padded width (n : Int)
      = List.replicate (width - (Nat.toDigits 10 n).length) '0'
        ++ Nat.toDigits 10 n := by
  have hn : ¬ (n : Int) < 0 := by omega
  rw [padded, if_neg hn, Int.natAbs_natCast]

theorem padded_of_neg {width : Nat} {n : Int} (h : n < 0) :
    padded width n = '-' :: padded (width - 1) (n.natAbs : Int) := by
  rw [padded_natCast, padded, if_pos h]

theorem isDigit_of_mem_padded {width n : Nat} {c : Char}
    (h : c ∈ padded width (n : Int)) : c.isDigit = true := by
  rw [padded_natCast] at h
  rcases List.mem_append.1 h with hz | hd
  · rw [List.eq_of_mem_replicate hz]
    rfl
  · exact isDigit_of_mem_toDigits hd

theorem padded_ne_nil (width n : Nat) : padded width (n : Int) ≠ [] := by
  rw [padded_natCast]
  exact List.append_ne_nil_of_right_ne_nil _ Nat.toDigits_ne_nil

theorem padded_head (width n : Nat) : ∃ c tail,
    padded width (n : Int) = c :: tail ∧ c.isDigit = true := by
  obtain ⟨c, tail, hdigits⟩ :=
    List.exists_cons_of_ne_nil (padded_ne_nil width n)
  have hc : c ∈ padded width (n : Int) := by
    rw [hdigits]
    exact List.mem_cons_self
  exact ⟨c, tail, hdigits, isDigit_of_mem_padded hc⟩

/-- The digits of a numeral tell the number. -/
theorem ofDigitChars_padded (width n : Nat) :
    Nat.ofDigitChars 10 (padded width (n : Int)) 0 = n := by
  rw [padded_natCast, Nat.ofDigitChars_append, Nat.ofDigitChars_replicate_zero,
    Nat.mul_zero, Nat.ofDigitChars_ten_toDigits]

/-- A numeral is as long as its width, if the number fits in. -/
theorem length_padded {width n : Nat} (hw : 0 < width) (h : n < 10 ^ width) :
    (padded width (n : Int)).length = width := by
  have hle := (Nat.length_toDigits_le_iff (by decide) hw).2 h
  rw [padded_natCast, List.length_append, List.length_replicate]
  omega

/-- The first digit counts for what stands behind it. -/
theorem ofDigitChars_cons_zero (c : Char) (rest : List Char) :
    Nat.ofDigitChars 10 (c :: rest) 0
      = 10 ^ rest.length * (c.toNat - '0'.toNat)
        + Nat.ofDigitChars 10 rest 0 := by
  rw [Nat.ofDigitChars_cons, Nat.ofDigitChars_eq_ofDigitChars_zero,
    Nat.mul_zero, Nat.zero_add]

/-- Digits stand for a number of as many digits. -/
theorem ofDigitChars_lt {digits : List Char}
    (h : ∀ c ∈ digits, c.isDigit = true) :
    Nat.ofDigitChars 10 digits 0 < 10 ^ digits.length := by
  induction digits with
  | nil => exact Nat.one_pos
  | cons c rest ih =>
      have hrest := ih fun d hd => h d (List.mem_cons_of_mem _ hd)
      have hc : c.toNat ≤ 57 :=
        (Char.isDigit_iff_toNat.1 (h c List.mem_cons_self)).2
      have hvalue : c.toNat - '0'.toNat ≤ 9 := by
        show c.toNat - 48 ≤ 9
        omega
      rw [ofDigitChars_cons_zero, List.length_cons, Nat.pow_succ]
      have hmul := Nat.mul_le_mul_left (10 ^ rest.length) hvalue
      omega

-- ================================================== signs

/-- The characters of a numeral are digits and the sign. -/
theorem mem_padded {width : Nat} {n : Int} {c : Char}
    (h : c ∈ padded width n) : c = '-' ∨ c.isDigit = true := by
  by_cases hn : n < 0
  · rw [padded_of_neg hn] at h
    exact (List.mem_cons.1 h).imp id isDigit_of_mem_padded
  · obtain ⟨m, rfl⟩ := Int.eq_ofNat_of_zero_le (Int.not_lt.1 hn)
    exact .inr (isDigit_of_mem_padded h)

theorem padded_ne_neg {width m : Nat} {cs : List Char} :
    padded width (m : Int) ≠ '-' :: cs := by
  intro h
  have hc : '-' ∈ padded width (m : Int) := h ▸ List.mem_cons_self ..
  exact absurd (isDigit_of_mem_padded hc) (by decide)

/-- A number is determined by its numeral of some width. -/
theorem padded_inj {width : Nat} {m n : Int}
    (h : padded width m = padded width n) : m = n := by
  have hvalue : ∀ (w a b : Nat), padded w (a : Int) = padded w (b : Int) →
      a = b := by
    intro w a b hab
    rw [← ofDigitChars_padded w a, hab, ofDigitChars_padded]
  by_cases hm : m < 0 <;> by_cases hn : n < 0
  · rw [padded_of_neg hm, padded_of_neg hn] at h
    have := hvalue _ _ _ (List.cons.inj h).2
    omega
  · obtain ⟨b, rfl⟩ := Int.eq_ofNat_of_zero_le (Int.not_lt.1 hn)
    rw [padded_of_neg hm] at h
    exact absurd h.symm padded_ne_neg
  · obtain ⟨a, rfl⟩ := Int.eq_ofNat_of_zero_le (Int.not_lt.1 hm)
    rw [padded_of_neg hn] at h
    exact absurd h padded_ne_neg
  · obtain ⟨a, rfl⟩ := Int.eq_ofNat_of_zero_le (Int.not_lt.1 hm)
    obtain ⟨b, rfl⟩ := Int.eq_ofNat_of_zero_le (Int.not_lt.1 hn)
    rw [hvalue _ _ _ h]

/-- The sign of a number below zero takes one character of the width. -/
theorem length_padded_of_neg {width : Nat} {n : Int} (hw : 1 < width)
    (hn : n < 0) (h : n.natAbs < 10 ^ (width - 1)) :
    (padded width n).length = width := by
  rw [padded_of_neg hn, List.length_cons, length_padded (by omega) h]
  omega

/-- Twenty characters hold every number: nineteen digits and the sign for the
least one, and nineteen digits for the greatest. -/
theorem length_padded_int64 (n : Int64) :
    (padded 20 n.toInt).length = 20 := by
  have hleast : -9223372036854775808 ≤ n.toInt := n.le_toInt
  have hgreatest : n.toInt < 9223372036854775808 := n.toInt_lt
  by_cases hn : n.toInt < 0
  · exact length_padded_of_neg (by decide) hn (by omega)
  · obtain ⟨m, hm⟩ := Int.eq_ofNat_of_zero_le (Int.not_lt.1 hn)
    rw [hm] at hgreatest ⊢
    exact length_padded (by decide) (by omega)

theorem length_padded_uint32 (n : UInt32) :
    (padded 10 (n.toNat : Int)).length = 10 := by
  have hlt := n.toNat_lt
  exact length_padded (by decide) (by omega)

-- ================================================== reading

theorem le_ofDigitChars (digits : List Char) (n : Nat) :
    n ≤ Nat.ofDigitChars 10 digits n := by
  rw [Nat.ofDigitChars_eq_ofDigitChars_zero]
  have hpos : 0 < 10 ^ digits.length := Nat.pow_pos (by decide)
  have := Nat.le_mul_of_pos_left n hpos
  omega

namespace NumeralRange

theorem read_of_digit (range : NumeralRange) {c : Char}
    (hc : c.isDigit = true) (rest : List Char) :
    range.read (c :: rest) = range.readUp 0 (c :: rest) := by
  have hplus : c ≠ '+' := fun h => absurd (h ▸ hc) (by decide)
  have hminus : c ≠ '-' := fun h => absurd (h ▸ hc) (by decide)
  unfold read
  split
  · rename_i h; cases h
  · rename_i h; exact absurd (List.cons.inj h).1 hplus
  · rename_i h; exact absurd (List.cons.inj h).1 hminus
  · rename_i h; exact absurd (List.cons.inj h).1 hplus
  · rename_i h; exact absurd (List.cons.inj h).1 hminus
  · rfl

theorem contains_int64 (n : Int64) : int64.contains n.toInt = true := by
  have hleast := n.le_toInt
  have hgreatest := n.toInt_lt
  rw [contains, Bool.and_eq_true, decide_eq_true_eq, decide_eq_true_eq]
  exact ⟨hleast, Int.le_of_lt_add_one hgreatest⟩

theorem contains_uint32 (n : UInt32) : uint32.contains n.toNat = true := by
  have hlt := n.toNat_lt
  rw [contains, Bool.and_eq_true, decide_eq_true_eq, decide_eq_true_eq]
  exact ⟨Int.natCast_nonneg _, by
    show (n.toNat : Int) ≤ 0xFFFFFFFF
    omega⟩

theorem contains_uint64 (n : UInt64) : uint64.contains n.toNat = true := by
  have hlt := n.toNat_lt
  rw [contains, Bool.and_eq_true, decide_eq_true_eq, decide_eq_true_eq]
  exact ⟨Int.natCast_nonneg _, by
    show (n.toNat : Int) ≤ 0xFFFFFFFFFFFFFFFF
    omega⟩

end NumeralRange

end MergeOnWrite.Text
