/-
Instants: points in time of the wall clock, to the nanosecond.

An instant is a second of the epoch and the nanoseconds within it. The
nanoseconds of a leap second follow those of the second before it, so
they run from one to two thousand million. The calendar holds the years
-262143 to 262142.
-/
import MergeOnWrite.Time.Calendar

namespace MergeOnWrite

/-- A point in time: seconds since 1970-01-01T00:00:00Z and nanoseconds. -/
structure Instant where
  second : Int
  nano : Nat
deriving DecidableEq, Repr

namespace Instant

instance : Inhabited Instant := ⟨⟨0, 0⟩⟩

/-- Earlier seconds first, then fewer nanoseconds. -/
instance : LT Instant where
  lt a b := a.second < b.second ∨ a.second = b.second ∧ a.nano < b.nano

instance : LE Instant where
  le a b := ¬ b < a

instance (a b : Instant) : Decidable (a < b) :=
  inferInstanceAs (Decidable (_ ∨ _))

instance (a b : Instant) : Decidable (a ≤ b) :=
  inferInstanceAs (Decidable (¬ _))

/-- The later of two instants, the second one if neither is later. -/
def latest (a b : Instant) : Instant := if b < a then a else b

def ofMillis (ms : Int) : Instant := ⟨ms / 1000, (ms % 1000).toNat * 1000000⟩

def addMillis (t : Instant) (ms : Int) : Instant :=
  let nanos := (t.nano : Int) + ms % 1000 * 1000000
  ⟨t.second + ms / 1000 + nanos / 1000000000, (nanos % 1000000000).toNat⟩

def leastSecond : Int := Time.yearStart (-262143) * 86400

def greatestSecond : Int := Time.yearStart 262143 * 86400 - 1

def isInCalendar (t : Instant) : Bool :=
  leastSecond ≤ t.second && t.second ≤ greatestSecond

/-- The instant some seconds later, if the calendar has it. -/
def addSeconds? (t : Instant) (seconds : Nat) : Option Instant :=
  let later : Instant := ⟨t.second + seconds, t.nano⟩
  if later.isInCalendar then some later else none

end Instant

end MergeOnWrite
