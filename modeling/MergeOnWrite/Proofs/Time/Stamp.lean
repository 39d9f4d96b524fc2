/-
An instant reads back from its stamp.

A stamp can be read part by part, since every part is written in as many
digits as are read, or in digits with a separator behind them. What is
read from any stamp is an instant that can be written: a second is split
into a thousand million nanoseconds, and only the last second of a minute
may have a leap second behind it.

# Main statements

- `read?_stampChars`: an instant reads back from its stamp.
- `isProper_of_read?`: what is read can be written.
-/
import MergeOnWrite.Proofs.Text.Numeral
import MergeOnWrite.Proofs.Time.Calendar
import MergeOnWrite.Time.Stamp

namespace MergeOnWrite.Instant

open Text Time

/-- True of the instants that stamps are for: those of the calendar,
with leap seconds at the end of a minute alone. -/
structure IsProper (t : Instant) : Prop where
  inCalendar : t.isInCalendar = true
  nano : t.nano < 1000000000
    ∨ t.nano < 2000000000 ∧ t.second % 60 = 59

-- ================================================== digits

/-- True of what starts with no digit. -/
def NoDigit (rest : List Char) : Prop :=
  ∀ c tail, rest = c :: tail → c.isDigit = false

theorem noDigit_cons {c : Char} (h : c.isDigit = false) (rest : List Char) :
    NoDigit (c :: rest) := by
  intro d tail heq
  rw [← (List.cons.inj heq).1]
  exact h

theorem isBlank_of_isDigit {c : Char} (h : c.isDigit = true) :
    isBlank c = false := by
  have hrange : 48 ≤ c.toNat ∧ c.toNat ≤ 57 := Char.isDigit_iff_toNat.1 h
  rw [Bool.eq_false_iff]
  simp only [isBlank, ne_eq, Bool.or_eq_true, Bool.and_eq_true,
    decide_eq_true_eq, beq_iff_eq]
  omega

theorem skipBlank_cons {c : Char} (h : isBlank c = false)
    (rest : List Char) : skipBlank (c :: rest) = c :: rest := by
  rw [skipBlank, List.dropWhile_cons_of_neg (by rw [h]; decide)]

theorem skipBlank_padded (width n : Nat) (rest : List Char) :
    skipBlank (padded width (n : Int) ++ rest)
      = padded width (n : Int) ++ rest := by
  obtain ⟨c, tail, hdigits, hc⟩ := padded_head width n
  rw [hdigits, List.cons_append, skipBlank_cons (isBlank_of_isDigit hc)]

/-- Digits are taken up to what starts with no digit. -/
theorem takeWhile_isDigit {digits rest : List Char}
    (h : ∀ c ∈ digits, c.isDigit = true) (hrest : NoDigit rest) :
    (digits ++ rest).takeWhile Char.isDigit = digits := by
  have hstop : rest.takeWhile Char.isDigit = [] := by
    cases rest with
    | nil => rfl
    | cons c tail =>
        rw [List.takeWhile_cons_of_neg]
        rw [hrest c tail rfl]
        decide
  rw [List.takeWhile_append_of_pos h, hstop, List.append_nil]

/-- A numeral is read if it fills the width or ends at something else. -/
theorem readDigits?_padded {width reach n : Nat} {rest : List Char}
    (h : (padded width (n : Int)).length = reach ∨
      (padded width (n : Int)).length ≤ reach ∧ NoDigit rest) :
    readDigits? reach (padded width (n : Int) ++ rest) = some (n, rest) := by
  have hdigits : ∀ c ∈ padded width (n : Int), c.isDigit = true :=
    fun c hc => isDigit_of_mem_padded hc
  have hread : ((padded width (n : Int) ++ rest).take reach).takeWhile
      Char.isDigit = padded width (n : Int) := by
    rcases h with hreach | ⟨hle, hstop⟩
    · have hall := takeWhile_isDigit hdigits (show NoDigit [] from nofun)
      rw [List.append_nil] at hall
      rw [← hreach, List.take_left, hall]
    · rw [List.take_append, List.take_of_length_le hle]
      refine takeWhile_isDigit hdigits fun c tail htake => ?_
      cases rest with
      | nil => rw [List.take_nil] at htake; cases htake
      | cons d others =>
          cases hk : reach - (padded width (n : Int)).length with
          | zero => rw [hk, List.take_zero] at htake; cases htake
          | succ k =>
              rw [hk, List.take_succ_cons] at htake
              rw [← (List.cons.inj htake).1]
              exact hstop d others rfl
  rw [readDigits?, hread]
  show (if padded width (n : Int) = [] then none else
    some (Nat.ofDigitChars 10 (padded width (n : Int)) 0,
      (padded width (n : Int) ++ rest).drop (padded width (n : Int)).length))
    = _
  rw [if_neg (padded_ne_nil width n), List.drop_left, ofDigitChars_padded]

-- ================================================== parts

theorem readWithin?_padded {n least greatest : Nat} (h : n < 100)
    (hleast : least ≤ n) (hgreatest : n ≤ greatest) (rest : List Char) :
    readWithin? 2 least greatest (padded 2 (n : Int) ++ rest)
      = some (n, rest) := by
  rw [readWithin?, skipBlank_padded,
    readDigits?_padded (.inl (length_padded (by decide) h))]
  show (if least ≤ n ∧ n ≤ greatest then some (n, rest) else none) = _
  rw [if_pos ⟨hleast, hgreatest⟩]

theorem readMark?_padded {mark : Char} (h : isBlank mark = false)
    (width n : Nat) (rest : List Char) :
    readMark? mark (mark :: (padded width (n : Int) ++ rest))
      = some (padded width (n : Int) ++ rest) := by
  rw [readMark?, skipBlank_cons h]
  show (if mark = mark then some (skipBlank (padded width (n : Int) ++ rest))
    else none) = _
  rw [if_pos rfl, skipBlank_padded]

theorem readYear?_yearChars (year : Int) (rest : List Char) :
    readYear? (yearChars year ++ '-' :: rest) = some (year, '-' :: rest) := by
  have hstop : NoDigit ('-' :: rest) := noDigit_cons (by decide) rest
  have hsigned : ∀ n : Nat, readDigits?
      (padded 4 (n : Int) ++ '-' :: rest).length
      (padded 4 (n : Int) ++ '-' :: rest) = some (n, '-' :: rest) :=
    fun n => readDigits?_padded
      (.inr ⟨by rw [List.length_append]; omega, hstop⟩)
  rw [yearChars]
  split
  · rename_i h
    obtain ⟨n, rfl⟩ := Int.eq_ofNat_of_zero_le h.1
    have hread : readDigits? 4 (padded 4 (n : Int) ++ '-' :: rest)
        = some (n, '-' :: rest) :=
      readDigits?_padded (.inl (length_padded (by decide) (by omega)))
    obtain ⟨c, tail, hdigits, hc⟩ := padded_head 4 n
    rw [readYear?, skipBlank_padded]
    rw [hdigits, List.cons_append] at hread ⊢
    split
    · rename_i heq
      rw [(List.cons.inj heq).1] at hc
      cases hc
    · rename_i heq
      rw [(List.cons.inj heq).1] at hc
      cases hc
    · show (readDigits? 4 (c :: (tail ++ '-' :: rest))).bind _ = _
      rw [hread]
      rfl
  · split
    · rename_i h
      obtain ⟨n, rfl⟩ := Int.eq_ofNat_of_zero_le h
      rw [readYear?, List.cons_append, skipBlank_cons (by decide)]
      show (readDigits? _ _).bind _ = _
      rw [hsigned n]
      rfl
    · rw [padded_of_neg (by omega), readYear?, List.cons_append,
        skipBlank_cons (by decide)]
      show (readDigits? _ _).bind _ = _
      rw [hsigned year.natAbs]
      show some (-(year.natAbs : Int), _) = _
      rw [show -(year.natAbs : Int) = year by omega]

/-- The part of a second is read up to the letter behind it. -/
theorem readFraction?_fractionChars {nano : Nat} (h : nano < 1000000000) :
    readFraction? (fractionChars nano ++ ['Z']) = some (nano, ['Z']) := by
  have hpart : ∀ (width n : Nat), 0 < width → width ≤ 9 → n < 10 ^ width →
      readFraction? ('.' :: (padded width (n : Int) ++ ['Z']))
        = some (n * 10 ^ (9 - width), ['Z']) := by
    intro width n hpos hle hn
    have hlength := length_padded hpos hn
    rw [readFraction?, readDigits?_padded
      (.inr ⟨by rw [hlength]; exact hle, noDigit_cons (c := 'Z') rfl []⟩)]
    show some (n * Nat.pow 10 (9 - ((padded width (n : Int) ++ ['Z']).length
      - 1)), ['Z']) = _
    rw [List.length_append, hlength]
    rfl
  rw [fractionChars]
  split
  · rename_i hzero
    rw [hzero]
    rfl
  · split
    · rw [List.cons_append, hpart 3 _ (by decide) (by decide) (by omega)]
      congr 2
      omega
    · split
      · rw [List.cons_append, hpart 6 _ (by decide) (by decide) (by omega)]
        congr 2
        omega
      · rw [List.cons_append, hpart 9 _ (by decide) (by decide) h]
        congr 2
        omega

-- ================================================== whole stamps

/-- The parts of a stamp are read one after another. -/
theorem read?_parts {date : Date} {hour minute second nano : Nat}
    {t : Instant} (hvalid : date.isValid = true)
    (hhour : hour ≤ 23) (hminute : minute ≤ 59) (hsecond : second ≤ 60)
    (hnano : nano < 1000000000)
    (htsecond : date.toNumber * 86400
      + (hour * 3600 + minute * 60 + (min second 59 : Nat)) = t.second)
    (htnano : nano + (second - min second 59) * 1000000000 = t.nano)
    (hcalendar : t.isInCalendar = true) :
    read? ((yearChars date.year ++ '-' :: padded 2 date.month ++ '-' ::
          padded 2 date.day) ++ 'T' :: (padded 2 hour ++ ':' :: padded 2 minute
          ++ ':' :: padded 2 second ++ fractionChars nano) ++ ['Z'])
      = some t := by
  obtain ⟨hmonth, hmonth12, hday, hday31⟩ := Date.bounds_of_isValid hvalid
  have hoffset : readOffset? (skipBlank ['Z']) = some (0, []) := rfl
  simp only [List.append_assoc, List.cons_append]
  rw [read?]
  -- the date
  refine Option.bind_eq_some_iff.2 ⟨_, readYear?_yearChars _ _, ?_⟩
  refine Option.bind_eq_some_iff.2 ⟨_, readMark?_padded (by decide) _ _ _, ?_⟩
  refine Option.bind_eq_some_iff.2
    ⟨_, readWithin?_padded (by omega) hmonth hmonth12 _, ?_⟩
  refine Option.bind_eq_some_iff.2 ⟨_, readMark?_padded (by decide) _ _ _, ?_⟩
  refine Option.bind_eq_some_iff.2
    ⟨_, readWithin?_padded (by omega) hday hday31 _, ?_⟩
  refine Option.bind_eq_some_iff.2 ⟨_, rfl, ?_⟩
  -- the time of day
  refine Option.bind_eq_some_iff.2
    ⟨_, readWithin?_padded (by omega) (Nat.zero_le _) hhour _, ?_⟩
  refine Option.bind_eq_some_iff.2 ⟨_, readMark?_padded (by decide) _ _ _, ?_⟩
  refine Option.bind_eq_some_iff.2
    ⟨_, readWithin?_padded (by omega) (Nat.zero_le _) hminute _, ?_⟩
  refine Option.bind_eq_some_iff.2 ⟨_, readMark?_padded (by decide) _ _ _, ?_⟩
  refine Option.bind_eq_some_iff.2
    ⟨_, readWithin?_padded (by omega) (Nat.zero_le _) hsecond _, ?_⟩
  refine Option.bind_eq_some_iff.2 ⟨_, readFraction?_fractionChars hnano, ?_⟩
  refine Option.bind_eq_some_iff.2 ⟨_, hoffset, ?_⟩
  dsimp only
  rw [Int.sub_zero, htsecond, htnano,
    if_pos ⟨rfl, hvalid, hcalendar, hcalendar⟩]

/-- An instant reads back from its stamp. -/
theorem read?_stampChars {t : Instant} (h : t.IsProper) :
    read? t.stampChars = some t := by
  have hnano := h.nano
  rw [stampChars, dateChars, timeChars]
  refine read?_parts (Date.isValid_ofNumber _) (by omega) (by omega) (by omega)
    (by omega) ?_ ?_ h.inCalendar
  · rw [date, Date.toNumber_ofNumber]
    omega
  · omega

-- ================================================== what is read

/-- The digits that are read stand for a number of as many digits. -/
theorem readDigits?_lt {width n : Nat} {cs rest : List Char}
    (h : readDigits? width cs = some (n, rest)) :
    n < 10 ^ (cs.length - rest.length) ∧ cs.length - rest.length ≤ width := by
  rw [readDigits?] at h
  generalize hdigits : (cs.take width).takeWhile Char.isDigit = digits at h
  have hall : ∀ c ∈ digits, c.isDigit = true := by
    intro c hc
    rw [← hdigits] at hc
    exact List.all_eq_true.1 List.all_takeWhile c hc
  have hlength : digits.length ≤ (cs.take width).length := by
    rw [← hdigits]
    exact (List.takeWhile_sublist _).length_le
  rw [List.length_take] at hlength
  split at h
  · cases h
  · obtain ⟨rfl, rfl⟩ := Prod.mk.inj (Option.some.inj h)
    have hused : cs.length - (cs.drop digits.length).length
        = digits.length := by
      rw [List.length_drop]
      omega
    rw [hused]
    exact ⟨ofDigitChars_lt hall, by omega⟩

theorem readWithin?_bounds {width least greatest n : Nat} {cs rest : List Char}
    (h : readWithin? width least greatest cs = some (n, rest)) :
    least ≤ n ∧ n ≤ greatest := by
  rw [readWithin?, Option.bind_eq_bind, Option.bind_eq_some_iff] at h
  obtain ⟨⟨m, after⟩, -, h⟩ := h
  dsimp only at h
  split at h
  · rename_i hm
    cases h
    exact hm
  · cases h

/-- The part of a second is less than one. -/
theorem readFraction?_lt {nano : Nat} {cs rest : List Char}
    (h : readFraction? cs = some (nano, rest)) : nano < 1000000000 := by
  unfold readFraction? at h
  split at h
  · rename_i tail
    rw [Option.bind_eq_bind, Option.bind_eq_some_iff] at h
    obtain ⟨⟨n, after⟩, hread, h⟩ := h
    obtain ⟨hn, hused⟩ := readDigits?_lt hread
    obtain ⟨rfl, -⟩ := Prod.mk.inj (Option.some.inj h)
    generalize tail.length - after.length = used at *
    have hpow : 10 ^ used * 10 ^ (9 - used) = 1000000000 := by
      rw [← Nat.pow_add, Nat.add_sub_cancel' hused]
    calc n * Nat.pow 10 (9 - used)
        < 10 ^ used * Nat.pow 10 (9 - used) :=
          Nat.mul_lt_mul_of_pos_right hn (Nat.pow_pos (by decide))
      _ = 1000000000 := hpow
  · cases h
    decide

/-- The hours and minutes of an offset make whole minutes. -/
theorem mod_of_readHours (negative : Bool) {a b : Char} {offset : Int}
    {cs rest : List Char}
    (h : (do
      let (hours, _) ← readDigits? 2 [a, b]
      if ¬ b.isDigit ∨ 24 ≤ hours then none
      match cs.dropWhile fun c => c = ':' ∨ isBlank c with
      | m :: m' :: rest =>
        if m.isDigit ∧ m'.isDigit ∧ m < '6' then
          let minutes := Nat.ofDigitChars 10 [m, m'] 0
          let offset : Int := hours * 3600 + minutes * 60
          return (if negative then -offset else offset, rest)
        else none
      | _ => none) = some (offset, rest)) : offset % 60 = 0 := by
  obtain ⟨⟨hours, _⟩, -, h⟩ := Option.bind_eq_some_iff.1 h
  dsimp only at h
  split at h
  · cases h
  · split at h
    · split at h
      · obtain ⟨rfl, -⟩ := Prod.mk.inj (Option.some.inj h)
        split
        · omega
        · omega
      · cases h
    · cases h

theorem readOffset?_mod {offset : Int} {cs rest : List Char}
    (h : readOffset? cs = some (offset, rest)) : offset % 60 = 0 := by
  unfold readOffset? at h
  split at h
  · cases h
    rfl
  · cases h
    rfl
  · dsimp only at h
    split at h
    · exact mod_of_readHours false h
    · split at h
      · exact mod_of_readHours true h
      · split at h
        · cases h
          rfl
        · cases h
  · cases h

/-- A date with a time of day and an offset makes an instant that can be
written. -/
theorem isProper_of_readTime {date : Date} {cs : List Char} {t : Instant}
    (h : (do
      let (hour, cs) ← readWithin? 2 0 23 cs
      let cs ← readMark? ':' cs
      let (minute, cs) ← readWithin? 2 0 59 cs
      let cs ← readMark? ':' cs
      let (second, cs) ← readWithin? 2 0 60 cs
      let (nano, cs) ← readFraction? cs
      let (offset, cs) ← readOffset? (skipBlank cs)
      let whole := min second 59
      let clock : Int := hour * 3600 + minute * 60 + whole
      let atOffset : Instant :=
        ⟨date.toNumber * 86400 + clock, nano + (second - whole) * 1000000000⟩
      let t : Instant := ⟨atOffset.second - offset, atOffset.nano⟩
      if skipBlank cs = [] ∧ date.isValid ∧ atOffset.isInCalendar
          ∧ t.isInCalendar then
        some t
      else none) = some t) : t.IsProper := by
  simp only [Option.bind_eq_bind, Option.bind_eq_some_iff] at h
  obtain ⟨⟨hour, _⟩, -, _, -, ⟨minute, _⟩, -, _, -, ⟨second, _⟩, hsecond,
    ⟨nano, _⟩, hnano, ⟨offset, _⟩, hoffset, h⟩ := h
  dsimp only at hsecond hnano hoffset h
  have hsecond := (readWithin?_bounds hsecond).2
  have hnano := readFraction?_lt hnano
  have hoffset := readOffset?_mod hoffset
  split at h
  · rename_i hread
    obtain ⟨-, -, -, hcalendar⟩ := hread
    have ht := Option.some.inj h
    rw [ht] at hcalendar
    refine ⟨hcalendar, ?_⟩
    rw [← ht]
    dsimp only
    omega
  · cases h

/-- What is read can be written. -/
theorem isProper_of_read? {cs : List Char} {t : Instant}
    (h : read? cs = some t) : t.IsProper := by
  rw [read?] at h
  obtain ⟨⟨year, _⟩, -, h⟩ := Option.bind_eq_some_iff.1 h
  obtain ⟨_, -, h⟩ := Option.bind_eq_some_iff.1 h
  obtain ⟨⟨month, _⟩, -, h⟩ := Option.bind_eq_some_iff.1 h
  obtain ⟨_, -, h⟩ := Option.bind_eq_some_iff.1 h
  obtain ⟨⟨day, _⟩, -, h⟩ := Option.bind_eq_some_iff.1 h
  dsimp only at h
  split at h
  · exact isProper_of_readTime h
  · exact isProper_of_readTime h
  · exact isProper_of_readTime h
  · cases h

end MergeOnWrite.Instant
