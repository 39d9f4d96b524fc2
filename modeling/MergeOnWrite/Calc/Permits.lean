/-
Permits: a bounded number of tasks may be past a point at once.

Tasks that find no permit wait in a queue, and a permit that is given
back goes to the first of them. Once the permits are closed nobody gets
one any more, not even who was given one while waiting and has not gone
on since.
-/

namespace MergeOnWrite

/-- A pool of permits. -/
structure Permits where
  free : Nat
  /-- The tasks that wait, first come first served. -/
  waiting : List Nat := []
  closed : Bool := false
deriving DecidableEq, Repr, Inhabited

namespace Permits

/-- What asking for a permit comes to. -/
inductive Request where
  | closed
  | taken (permits : Permits)
  | queued (permits : Permits)

def request (p : Permits) (task : Nat) : Request :=
  if p.closed then .closed
  else if p.free = 0 then .queued { p with waiting := p.waiting ++ [task] }
  else .taken { p with free := p.free - 1 }

/-- Gives a permit back: the first task that waits gets it. -/
def release (p : Permits) : Permits × Option Nat :=
  match p.waiting with
  | [] => ({ p with free := p.free + 1 }, none)
  | task :: rest => ({ p with waiting := rest }, some task)

/-- Closes the permits; nobody waits any more. -/
def close (p : Permits) : Permits := { p with closed := true, waiting := [] }

end Permits

end MergeOnWrite
