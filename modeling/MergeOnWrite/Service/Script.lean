/-
Scripts: what a handler asks of its surroundings, step by step.

A script names no store, clock or timer, so one script serves every
setting: alone on a store, between the steps of other scripts, under
scripted failures, or attempted several times.
-/
import MergeOnWrite.Lock.AllowList
import MergeOnWrite.Program
import MergeOnWrite.Service.Call
import MergeOnWrite.Service.Report

namespace MergeOnWrite

/-- A question to the surroundings. The transaction of the operations on
the store is the one opened last. -/
inductive Question where
  /-- The time of the wall clock. -/
  | now
  /-- The version of the lock protocol that an instance uses. -/
  | route (i : InstanceId)
  | start
  | get (key : Bytes)
  /-- The entries whose keys extend a byte string. -/
  | scan (stem : Bytes)
  | put (key value : Bytes)
  | remove (key : Bytes)
  | commit
  | report (event : Report)
  /-- The random part of the waits of one request. -/
  | jitter
  | pause (ms : UInt64)
  /-- Draws an event of some probability. -/
  | chance (probability : Float)
  /-- Draws a number between `-range` and `range`. -/
  | spread (range : Nat)
  /-- Has another attempt at a request made after some milliseconds,
  whose response nobody sees. -/
  | replay (call : Call) (delayMs : Nat)

/-- What the answer to a question is. -/
@[reducible]
def Question.Answer : Question → Type
  | .now => Instant
  | .route _ => LockVersion
  | .start | .commit => Except StoreCode Unit
  | .get _ => Except StoreCode (Option Bytes)
  | .scan _ => Except StoreCode (List (Bytes × Bytes))
  | .put .. | .remove _ | .report _ | .pause _ | .replay .. => Unit
  | .jitter => UInt64
  | .chance _ => Bool
  | .spread _ => Int

/-- The answer of surroundings where nothing is stored and no time
passes. -/
def Question.idle : (q : Question) → q.Answer
  | .now => default
  | .route _ => .v1
  | .start | .commit => .ok ()
  | .get _ => .ok none
  | .scan _ => .ok []
  | .put .. | .remove _ | .report _ | .pause _ | .replay .. => ()
  | .jitter => 0
  | .chance _ => false
  | .spread _ => 0

/-- What a handler asks, step by step. -/
abbrev Script : Type → Type := Program Question Question.Answer

namespace Script

def question (q : Question) : Script q.Answer := .ask q .done

/-- Tells the surroundings about an event. -/
def report (event : Report) : Script Unit := question (.report event)

end Script

end MergeOnWrite
