/-
Courses: what happens while a script runs in simulated surroundings.

A script of the observed service only asks. Its course has, between the
questions, what the surroundings add to them: the latency of the store,
pauses that really pass, failures of reads, and the strikes of a rival,
who works on the same store right after a begin or right before a commit.
Apart from the waits (`Deed.sleep`, `Deed.giveWay`) nothing else goes on
while a deed is done, so a course falls into stretches that others cannot
interrupt.
-/
import MergeOnWrite.Service.Call
import MergeOnWrite.Service.Script

namespace MergeOnWrite

/-- A step of the rival. -/
inductive RivalStep where
  | call (call : Call)
  /-- A request that could not be made. -/
  | refused (failure : Failure)
  | write (key : Bytes) (value : Option Bytes)
  /-- Moves virtual time, and lets others go on. -/
  | advance (ms : Nat)
  | advanceClock (ms : UInt64)

/-- When the rival may strike. -/
inductive Moment where
  /-- When a transaction was opened. -/
  | afterStart
  | beforeCommit
deriving DecidableEq, Repr

/-- What may happen next along a course. -/
inductive Deed where
  | operation (q : Question)
  /-- Takes what the next read fails with, if it is to fail. -/
  | readFault
  /-- Takes the rival's next strike, if there is one. -/
  | strike (moment : Moment)
  | rival (step : RivalStep)
  | move (ms : Nat)
  /-- Lets all others go on that can. -/
  | giveWay
  /-- Waits some virtual time. -/
  | sleep (ms : Nat)

@[reducible]
def Deed.Answer : Deed → Type
  | .operation q => q.Answer
  | .readFault => Option StoreCode
  | .strike _ => List RivalStep
  | .rival _ | .move _ | .giveWay | .sleep _ => Unit

/-- What happens while a script runs. -/
abbrev Course : Type → Type := Program Deed Deed.Answer

/-- How pauses between attempts pass. -/
inductive Pausing where
  /-- They take no time and are noted. -/
  | noted
  /-- They take virtual time. -/
  | real
deriving DecidableEq, Repr

/-- How the surroundings slow a service down. -/
structure Pace where
  /-- The wait before each read and commit. -/
  latency : Option Nat := none
  pausing : Pausing := .noted
deriving DecidableEq, Repr

namespace Course

def deed (d : Deed) : Course d.Answer := .ask d .done

/-- The steps of a strike. Who moves virtual time lets others go on before
the next step. -/
def strike : List RivalStep → Course Unit
  | [] => return ()
  | .advance ms :: rest => do
    deed (.move ms)
    deed .giveWay
    deed (.rival (.advance ms))
    strike rest
  | step :: rest => do
    deed (.rival step)
    strike rest

def latency (pace : Pace) : Course Unit :=
  match pace.latency with
  | none => return ()
  | some ms => deed (.sleep ms)

/-- What happens when a script asks a question. -/
def ofQuestion (pace : Pace) : (q : Question) → Course q.Answer
  | .start => do
    match ← deed (.operation .start) with
    | .error code => return .error code
    | .ok () => do
      strike (← deed (.strike .afterStart))
      return .ok ()
  | .get key => do
    match ← deed .readFault with
    | some code => return .error code
    | none => do
      latency pace
      deed (.operation (.get key))
  | .scan stem => do
    match ← deed .readFault with
    | some code => return .error code
    | none => do
      latency pace
      deed (.operation (.scan stem))
  | .commit => do
    strike (← deed (.strike .beforeCommit))
    latency pace
    deed (.operation .commit)
  | .pause ms =>
    match pace.pausing with
    | .noted => deed (.operation (.pause ms))
    | .real => deed (.sleep ms.toNat)
  | q => deed (.operation q)

/-- What happens while a script runs. -/
def ofScript {α : Type} (pace : Pace) : Script α → Course α
  | .done a => .done a
  | .ask q next => (ofQuestion pace q).bind fun x => ofScript pace (next x)

end Course

end MergeOnWrite
