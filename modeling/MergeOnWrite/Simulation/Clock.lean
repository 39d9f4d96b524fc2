/-
A wall clock that is moved by hand.
-/
import MergeOnWrite.Time.Instant

namespace MergeOnWrite

/-- A clock: where it began, and how far it was moved since. -/
structure SimulatedClock where
  base : Instant := .ofMillis 1700000000000
  elapsedMs : UInt64 := 0
deriving DecidableEq, Inhabited

namespace SimulatedClock

/-- The time that the clock shows. -/
def now (clock : SimulatedClock) : Instant :=
  clock.base.addMillis clock.elapsedMs.toInt64.toInt

def advance (clock : SimulatedClock) (ms : UInt64) : SimulatedClock :=
  { clock with elapsedMs := clock.elapsedMs + ms }

/-- Moves the clock by the whole milliseconds of a time in nanoseconds. -/
def advanceNanos (clock : SimulatedClock) (ns : UInt64) : SimulatedClock :=
  clock.advance (ns / 1000000)

/-- The clock after each of some moves, and before the first. -/
def course (clock : SimulatedClock) : List UInt64 → List SimulatedClock
  | [] => [clock]
  | ns :: rest => clock :: (clock.advanceNanos ns).course rest

end SimulatedClock

end MergeOnWrite
