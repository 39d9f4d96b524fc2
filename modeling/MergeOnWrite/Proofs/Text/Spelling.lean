/-
The texts that are read as a number.

A number is written in one way for every width, but read from many texts:
zeros in front of the digits do not count, and a plus sign in front of them
does not either. A minus sign is taken by the ranges that have numbers below
zero, and by no others, so that a range of natural numbers does not even take
it in front of zeros.

# Main statements

- `spells_padded`: a numeral of some width spells its number.
- `NumeralRange.read_eq_ok_iff`: what a range reads, and from which texts.
- `readInt64_eq_ok_iff`, `readUInt32_eq_ok_iff`: the same of the numbers that
  stand in keys.
-/
import MergeOnWrite.Proofs.Text.Numeral

namespace MergeOnWrite.Text

/-- True of a text of digits, at least one, that stand for the number. -/
structure Digits (cs : List Char) (n : Nat) : Prop where
  ne_nil : cs ≠ []
  isDigit : ∀ c ∈ cs, c.isDigit = true
  value : Nat.ofDigitChars 10 cs 0 = n

/-- True of a text that spells the number: digits, and at most one sign in
front of them. -/
inductive Spells : List Char → Int → Prop where
  | digits {cs : List Char} {n : Nat} : Digits cs n → Spells cs n
  | plus {cs : List Char} {n : Nat} : Digits cs n → Spells ('+' :: cs) n
  | minus {cs : List Char} {n : Nat} : Digits cs n → Spells ('-' :: cs) (-n)

theorem Digits.notMem {cs : List Char} {n : Nat} (h : Digits cs n) {c : Char}
    (hc : c.isDigit = false) : c ∉ cs := by
  intro hmem
  rw [h.isDigit c hmem] at hc
  cases hc

theorem Digits.head {cs : List Char} {n : Nat} (h : Digits cs n) :
    ∃ c rest, cs = c :: rest ∧ c.isDigit = true := by
  obtain ⟨c, rest, rfl⟩ := List.exists_cons_of_ne_nil h.ne_nil
  exact ⟨c, rest, rfl, h.isDigit c List.mem_cons_self⟩

/-- The characters of a text that spells a number are digits and signs. -/
theorem Spells.mem {cs : List Char} {n : Int} (h : Spells cs n) {c : Char}
    (hc : c ∈ cs) : c = '+' ∨ c = '-' ∨ c.isDigit = true := by
  cases h with
  | digits hdigits => exact .inr (.inr (hdigits.isDigit c hc))
  | plus hdigits =>
      exact (List.mem_cons.1 hc).imp id fun hc => .inr (hdigits.isDigit c hc)
  | minus hdigits =>
      exact .inr ((List.mem_cons.1 hc).imp id (hdigits.isDigit c))

theorem digits_padded (width n : Nat) : Digits (padded width (n : Int)) n :=
  ⟨padded_ne_nil width n, fun _ => isDigit_of_mem_padded,
    ofDigitChars_padded width n⟩

/-- A numeral of some width spells its number, with the sign in front of the
zeros. -/
theorem spells_padded (width : Nat) (n : Int) : Spells (padded width n) n := by
  by_cases hn : n < 0
  · have hvalue : -(n.natAbs : Int) = n := by omega
    have hspells := Spells.minus (digits_padded (width - 1) n.natAbs)
    rwa [hvalue, ← padded_of_neg hn] at hspells
  · obtain ⟨m, rfl⟩ := Int.eq_ofNat_of_zero_le (Int.not_lt.1 hn)
    exact .digits (digits_padded width m)

namespace NumeralRange

variable {range : NumeralRange} {cs : List Char}

-- ================================================== digits

/-- Digits are read upwards one after another. They only add to the number, so
that one which is too large on the way is too large in the end. -/
theorem readUp_eq_ok_iff_from : ∀ {cs : List Char} {n : Nat} {m : Int},
    (n : Int) ≤ range.greatest → (range.readUp n cs = .ok m
      ↔ (∀ c ∈ cs, c.isDigit = true) ∧ m = Nat.ofDigitChars 10 cs n
        ∧ m ≤ range.greatest) := by
  intro cs
  induction cs with
  | nil =>
      intro n m hn
      constructor
      · intro h
        obtain rfl := Except.ok.inj h
        exact ⟨fun _ hc => absurd hc List.not_mem_nil, rfl, hn⟩
      · rintro ⟨-, rfl, -⟩
        rfl
  | cons c rest ih =>
      intro n m hn
      have hnext : (n : Int) * 10 + (c.toNat - '0'.toNat : Nat)
          = (10 * n + (c.toNat - '0'.toNat) : Nat) := by
        omega
      have hgrows := le_ofDigitChars rest (10 * n + (c.toNat - '0'.toNat))
      rw [readUp, Nat.ofDigitChars_cons, List.forall_mem_cons]
      by_cases hc : c.isDigit = true
      · simp only [if_pos hc, hnext]
        split
        · rename_i hle
          rw [ih hle, and_iff_right hc]
        · rename_i hgt
          refine iff_of_false nofun fun ⟨_, hm, hle⟩ => hgt ?_
          omega
      · rw [if_neg hc]
        exact iff_of_false nofun fun h => hc h.1.1

/-- The range of the numbers below zero for those above it, and the other way
round. -/
def mirrored (range : NumeralRange) : NumeralRange :=
  ⟨-range.greatest, -range.least⟩

/-- Reading downwards mirrors reading upwards. -/
theorem readDown_eq_ok_iff_mirrored : ∀ {cs : List Char} {n : Nat} {m : Int},
    range.readDown (-n) cs = .ok m
      ↔ range.mirrored.readUp n cs = .ok (-m) := by
  intro cs
  induction cs with
  | nil =>
      intro n m
      rw [readDown, readUp, Except.ok.injEq, Except.ok.injEq]
      omega
  | cons c rest ih =>
      intro n m
      have hdown : -(n : Int) * 10 - (c.toNat - '0'.toNat : Nat)
          = -(10 * n + (c.toNat - '0'.toNat) : Nat) := by
        omega
      have hup : (n : Int) * 10 + (c.toNat - '0'.toNat : Nat)
          = (10 * n + (c.toNat - '0'.toNat) : Nat) := by
        omega
      have hmirrored : range.mirrored.greatest = -range.least := rfl
      rw [readDown, readUp]
      by_cases hc : c.isDigit = true
      · simp only [if_pos hc, hdown, hup, hmirrored]
        split
        · rename_i hle
          rw [if_pos (by omega), ih]
        · rename_i hlt
          rw [if_neg (by omega)]
          exact iff_of_false nofun nofun
      · rw [if_neg hc, if_neg hc]
        exact iff_of_false nofun nofun

theorem readUp_eq_ok_iff (hzero : 0 ≤ range.greatest) (hcs : cs ≠ [])
    {m : Int} : range.readUp 0 cs = .ok m
      ↔ ∃ n, Digits cs n ∧ m = n ∧ m ≤ range.greatest := by
  refine (readUp_eq_ok_iff_from (n := 0) hzero).trans ?_
  constructor
  · rintro ⟨hdigits, hvalue, hle⟩
    exact ⟨_, ⟨hcs, hdigits, rfl⟩, hvalue, hle⟩
  · rintro ⟨n, hdigits, hvalue, hle⟩
    exact ⟨hdigits.isDigit, by rw [hdigits.value, hvalue], hle⟩

theorem readDown_eq_ok_iff (hzero : range.least ≤ 0) (hcs : cs ≠ [])
    {m : Int} : range.readDown 0 cs = .ok m
      ↔ ∃ n : Nat, Digits cs n ∧ m = -n ∧ range.least ≤ m := by
  have hmirrored : 0 ≤ range.mirrored.greatest := by
    show 0 ≤ -range.least
    omega
  refine (readDown_eq_ok_iff_mirrored (n := 0)).trans
    ((readUp_eq_ok_iff hmirrored hcs).trans ?_)
  refine exists_congr fun n => and_congr_right fun _ => ?_
  show (-m = n ∧ -m ≤ -range.least) ↔ _
  omega

-- ================================================== signs

theorem read_plus (hcs : cs ≠ []) :
    range.read ('+' :: cs) = range.readUp 0 cs := by
  obtain ⟨c, rest, rfl⟩ := List.exists_cons_of_ne_nil hcs
  rfl

theorem read_minus (hcs : cs ≠ []) :
    range.read ('-' :: cs)
      = if range.least < 0 then range.readDown 0 cs
        else .error .invalidDigit := by
  obtain ⟨c, rest, rfl⟩ := List.exists_cons_of_ne_nil hcs
  rfl

theorem read_of_no_sign (hcs : cs ≠ []) (hplus : ∀ rest, cs ≠ '+' :: rest)
    (hminus : ∀ rest, cs ≠ '-' :: rest) :
    range.read cs = range.readUp 0 cs := by
  unfold read
  split
  · exact absurd rfl hcs
  · exact absurd rfl (hplus _)
  · exact absurd rfl (hminus _)
  · exact absurd rfl (hplus _)
  · exact absurd rfl (hminus _)
  · rfl

/-- A range around zero reads its numbers, from the texts that spell them, and
without numbers below zero it takes no minus sign. -/
theorem read_eq_ok_iff (hleast : range.least ≤ 0)
    (hgreatest : 0 ≤ range.greatest) {m : Int} : range.read cs = .ok m
      ↔ Spells cs m ∧ range.contains m = true
        ∧ ('-' ∈ cs → range.least < 0) := by
  rw [contains, Bool.and_eq_true, decide_eq_true_eq, decide_eq_true_eq]
  constructor
  · intro h
    by_cases hcs : cs = []
    · subst hcs
      cases h
    by_cases hplus : ∃ rest, cs = '+' :: rest
    · obtain ⟨rest, rfl⟩ := hplus
      have hrest : rest ≠ [] := by rintro rfl; cases h
      rw [read_plus hrest, readUp_eq_ok_iff hgreatest hrest] at h
      obtain ⟨n, hdigits, rfl, hle⟩ := h
      refine ⟨.plus hdigits, ⟨by omega, hle⟩, fun hmem => ?_⟩
      rcases List.mem_cons.1 hmem with hc | hmem
      · cases hc
      · exact absurd hmem (hdigits.notMem rfl)
    by_cases hminus : ∃ rest, cs = '-' :: rest
    · obtain ⟨rest, rfl⟩ := hminus
      have hrest : rest ≠ [] := by rintro rfl; cases h
      rw [read_minus hrest] at h
      split at h
      · rename_i hneg
        rw [readDown_eq_ok_iff hleast hrest] at h
        obtain ⟨n, hdigits, rfl, hle⟩ := h
        exact ⟨.minus hdigits, ⟨hle, by omega⟩, fun _ => hneg⟩
      · cases h
    · rw [read_of_no_sign hcs (not_exists.1 hplus) (not_exists.1 hminus),
        readUp_eq_ok_iff hgreatest hcs] at h
      obtain ⟨n, hdigits, rfl, hle⟩ := h
      exact ⟨.digits hdigits, ⟨by omega, hle⟩,
        fun hmem => absurd hmem (hdigits.notMem rfl)⟩
  · rintro ⟨hspells, ⟨hge, hle⟩, hneg⟩
    cases hspells with
    | digits hdigits =>
        obtain ⟨c, rest, rfl, hc⟩ := hdigits.head
        rw [read_of_digit range hc]
        exact (readUp_eq_ok_iff hgreatest hdigits.ne_nil).2
          ⟨_, hdigits, rfl, hle⟩
    | plus hdigits =>
        rw [read_plus hdigits.ne_nil]
        exact (readUp_eq_ok_iff hgreatest hdigits.ne_nil).2
          ⟨_, hdigits, rfl, hle⟩
    | minus hdigits =>
        rw [read_minus hdigits.ne_nil, if_pos (hneg List.mem_cons_self)]
        exact (readDown_eq_ok_iff hleast hdigits.ne_nil).2
          ⟨_, hdigits, rfl, hge⟩

/-- A type that has just the numbers of the range reads what the range
reads. -/
theorem map_read_eq_ok_iff {α : Type} (ofInt : Int → α) (toInt : α → Int)
    (hleast : range.least ≤ 0) (hgreatest : 0 ≤ range.greatest)
    (hto : ∀ a, ofInt (toInt a) = a)
    (hof : ∀ m, range.contains m = true → toInt (ofInt m) = m) {a : α} :
    (range.read cs).map ofInt = .ok a ↔ range.read cs = .ok (toInt a) := by
  constructor
  · intro h
    cases hcs : range.read cs with
    | error e => rw [hcs] at h; cases h
    | ok m =>
        rw [hcs] at h
        obtain rfl := Except.ok.inj h
        have hm := ((read_eq_ok_iff hleast hgreatest).1 hcs).2.1
        rw [hof m hm]
  · intro h
    rw [h]
    exact congrArg Except.ok (hto a)

end NumeralRange

-- ================================================== the numbers in keys

theorem readInt64_eq_ok_iff {cs : List Char} {n : Int64} :
    readInt64 cs = .ok n ↔ Spells cs n.toInt := by
  have hof : ∀ m, NumeralRange.int64.contains m = true →
      (Int64.ofInt m).toInt = m := by
    intro m hm
    rw [NumeralRange.contains, Bool.and_eq_true, decide_eq_true_eq,
      decide_eq_true_eq] at hm
    exact Int64.toInt_ofInt_of_le hm.1 (Int.lt_add_one_of_le hm.2)
  rw [readInt64, NumeralRange.map_read_eq_ok_iff _ _ (by decide) (by decide)
    Int64.ofInt_toInt hof, NumeralRange.read_eq_ok_iff (by decide) (by decide),
    and_iff_left (fun _ => by decide),
    and_iff_left (NumeralRange.contains_int64 n)]

/-- A number that is not below zero is read without a minus sign. -/
theorem readUInt32_eq_ok_iff {cs : List Char} {n : UInt32} :
    readUInt32 cs = .ok n ↔ '-' ∉ cs ∧ Spells cs n.toNat := by
  have hof : ∀ m, NumeralRange.uint32.contains m = true →
      ((UInt32.ofNat m.toNat).toNat : Int) = m := by
    intro m hm
    rw [NumeralRange.contains, Bool.and_eq_true, decide_eq_true_eq,
      decide_eq_true_eq] at hm
    have hle : m ≤ 0xFFFFFFFF := hm.2
    obtain ⟨k, rfl⟩ := Int.eq_ofNat_of_zero_le hm.1
    have hk : k < UInt32.size := by
      show k < 4294967296
      omega
    exact congrArg Int.ofNat (UInt32.toNat_ofNat_of_lt' hk)
  have hneg : ('-' ∈ cs → NumeralRange.uint32.least < 0) ↔ '-' ∉ cs :=
    imp_congr_right fun _ => iff_of_false (by decide) id
  rw [readUInt32, NumeralRange.map_read_eq_ok_iff _ (fun m => (m.toNat : Int))
    (by decide) (by decide) (fun m => m.ofNat_toNat) hof,
    NumeralRange.read_eq_ok_iff (by decide) (by decide), hneg,
    and_iff_right (NumeralRange.contains_uint32 n), and_comm]

theorem readInt64_padded (width : Nat) (n : Int64) :
    readInt64 (padded width n.toInt) = .ok n :=
  readInt64_eq_ok_iff.2 (spells_padded width n.toInt)

theorem readUInt32_padded (width : Nat) (n : UInt32) :
    readUInt32 (padded width (n.toNat : Int)) = .ok n :=
  readUInt32_eq_ok_iff.2 ⟨(digits_padded width n.toNat).notMem rfl,
    spells_padded width n.toNat⟩

end MergeOnWrite.Text
