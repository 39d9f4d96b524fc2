/-
The close barrier of the senders of a channel.

Each sender closes once it has sent its last batch, and may then wait
until its peers have closed too, for a limited time. A sender that closed
stays closed, however its wait ends.
-/
import MergeOnWrite.Calc.Error
import MergeOnWrite.SortedMap

namespace MergeOnWrite

/-- The senders of a channel, and those of them that are open. -/
structure Barrier where
  expected : SortedSet Int64
  opened : SortedSet Int64
deriving DecidableEq

/-- The wait of a sender for its peers. -/
structure CloseWait where
  limitMs : Nat
  deadline : Nat
deriving DecidableEq, Repr

namespace Barrier

def ofSenders (senders : List Int64) : Barrier :=
  ⟨.ofList senders, .ofList senders⟩

/-- The number of open senders. -/
def pending (b : Barrier) : Nat := b.opened.size

/-- True when no sender is open. -/
def isClosed (b : Barrier) : Bool := b.pending = 0

def isOpen (b : Barrier) (sender : Int64) : Bool :=
  (b.opened.get? sender).isSome

/-- Closes a sender; once closed it stays so. -/
def close (b : Barrier) (sender : Int64) : Except CalcError Barrier :=
  if (b.expected.get? sender).isSome then
    .ok { b with opened := b.opened.erase sender }
  else .error (.unknownSender sender)

/-- How a wait ends at some time, if it ends: well once no sender is
open, and with an error once it has run out. -/
def poll (b : Barrier) (wait : CloseWait) (now : Nat) :
    Option (Except CalcError Unit) :=
  if b.isClosed then some (.ok ())
  else if wait.deadline ≤ now then
    some (.error (.closeTimeout b.pending wait.limitMs))
  else none

end Barrier

end MergeOnWrite
