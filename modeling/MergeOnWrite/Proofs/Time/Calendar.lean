/-
The days of the calendar and their numbers.

A year is as long as its months, and the year of a day is the one whose
days are around it; so a day is what its number says.

# Main statements

- `yearStart_succ`: a year ends where the next one starts.
- `yearOf_spec`: a day lies within its year.
- `Date.toNumber_ofNumber`, `Date.isValid_ofNumber`: the day of a number
  has that number and is one of the calendar.
-/
import MergeOnWrite.Time.Calendar

namespace MergeOnWrite.Time

-- ================================================== years

/-- The number of days of a year. -/
def yearLength (leap : Bool) : Nat := if leap then 366 else 365

theorem daysIn_monthLengths :
    ∀ leap, daysIn (monthLengths leap) = yearLength leap := by
  decide

/-- A year ends where the next one starts. -/
theorem yearStart_succ (year : Int) :
    yearStart (year + 1) = yearStart year + yearLength (isLeap year) := by
  have hleap : isLeap year = true ↔
      year % 4 = 0 ∧ (year % 100 ≠ 0 ∨ year % 400 = 0) := by
    rw [isLeap, Bool.and_eq_true, Bool.or_eq_true, beq_iff_eq, bne_iff_ne,
      beq_iff_eq]
  unfold yearStart yearLength
  split
  · rename_i h
    have h := hleap.1 h
    omega
  · rename_i h
    have h := mt hleap.2 h
    omega

/-- A day lies within its year. -/
theorem yearOf_spec (day : Int) :
    yearStart (yearOf day) ≤ day ∧ day < yearStart (yearOf day + 1) := by
  -- the mean year has 146097 / 400 days, and no year starts more than two
  -- days from where the mean years before it end
  have hbounds : ∀ year, 146097 * year - 396 ≤ 400 * (yearStart year + 719528)
      ∧ 400 * (yearStart year + 719528) ≤ 146097 * year + 699 := by
    intro year
    unfold yearStart
    omega
  simp only [yearOf]
  generalize hguess : (day + 719528) * 400 / 146097 = guess
  have hlow := (hbounds (guess - 1)).2
  have hhigh := (hbounds (guess + 1 + 1)).1
  split
  · rw [Int.sub_add_cancel]
    omega
  · split
    · omega
    · omega

-- ================================================== days

/-- A day of the year falls within a month. -/
theorem splitMonths_spec (month : Nat) (lengths : List Nat) (day : Nat)
    (h : day < daysIn lengths) : ∃ passed length rest,
      splitMonths month lengths day = (month + passed, rest + 1)
      ∧ lengths[passed]? = some length ∧ rest < length
      ∧ daysIn (lengths.take passed) + rest = day := by
  induction lengths generalizing month day with
  | nil => exact absurd h (Nat.not_lt_zero _)
  | cons length others ih =>
      rw [daysIn_cons] at h
      rw [splitMonths]
      split
      · rename_i hlt
        exact ⟨0, length, day, rfl, rfl, hlt, Nat.zero_add _⟩
      · rename_i hge
        obtain ⟨passed, found, rest, hsplit, hfound, hrest, hsum⟩ :=
          ih (month + 1) (day - length) (by omega)
        refine ⟨passed + 1, found, rest, ?_, hfound, hrest, ?_⟩
        · rw [hsplit, Nat.add_assoc, Nat.add_comm 1]
        · rw [List.take_succ_cons, daysIn_cons]
          omega

namespace Date

/-- How the day of a number is made up. -/
theorem ofNumber_spec (number : Int) : ∃ passed length rest,
    ofNumber number = ⟨yearOf number, 1 + passed, rest + 1⟩
    ∧ (monthLengths (isLeap (yearOf number)))[passed]? = some length
    ∧ rest < length
    ∧ yearStart (yearOf number)
        + (daysIn ((monthLengths (isLeap (yearOf number))).take passed)
          + rest : Nat) = number := by
  obtain ⟨hstart, hend⟩ := yearOf_spec number
  rw [yearStart_succ] at hend
  obtain ⟨passed, length, rest, hsplit, hlength, hrest, hsum⟩ :=
    splitMonths_spec 1 (monthLengths (isLeap (yearOf number)))
      (number - yearStart (yearOf number)).toNat
      (by rw [daysIn_monthLengths]; omega)
  refine ⟨passed, length, rest, ?_, hlength, hrest, by omega⟩
  rw [ofNumber, hsplit]

theorem toNumber_ofNumber (number : Int) :
    (ofNumber number).toNumber = number := by
  obtain ⟨passed, length, rest, hdate, -, -, hnumber⟩ := ofNumber_spec number
  rw [hdate, toNumber]
  show yearStart (yearOf number)
    + daysIn ((monthLengths (isLeap (yearOf number))).take (1 + passed - 1))
    + (rest + 1 : Nat) - 1 = number
  rw [Nat.add_sub_cancel_left]
  omega

theorem isValid_ofNumber (number : Int) : (ofNumber number).isValid = true := by
  obtain ⟨passed, length, rest, hdate, hlength, hrest, -⟩ :=
    ofNumber_spec number
  rw [hdate, isValid]
  show (decide (1 ≤ 1 + passed) && decide (1 ≤ rest + 1)
    && ((monthLengths _)[1 + passed - 1]?).any (rest + 1 ≤ ·)) = true
  rw [Nat.add_sub_cancel_left, hlength, decide_eq_true (by omega),
    decide_eq_true (by omega)]
  exact decide_eq_true hrest

/-- The months of a day of the calendar are numbered up to twelve, its
days up to thirty-one. -/
theorem bounds_of_isValid {date : Date} (h : date.isValid = true) :
    1 ≤ date.month ∧ date.month ≤ 12 ∧ 1 ≤ date.day ∧ date.day ≤ 31 := by
  have hmonth : ∀ leap, ∀ length ∈ monthLengths leap, length ≤ 31 := by
    decide
  rw [isValid, Bool.and_eq_true, Bool.and_eq_true, decide_eq_true_eq,
    decide_eq_true_eq, Option.any_eq_true] at h
  obtain ⟨⟨hone, hday⟩, length, hlength, hle⟩ := h
  obtain ⟨hlt, hget⟩ := List.getElem?_eq_some_iff.1 hlength
  have hle31 := hmonth _ length (List.mem_of_getElem? hlength)
  have htwelve : ∀ leap, (monthLengths leap).length = 12 := by decide
  rw [htwelve] at hlt
  exact ⟨hone, by omega, hday,
    Nat.le_trans (of_decide_eq_true hle) hle31⟩

end Date

end MergeOnWrite.Time
