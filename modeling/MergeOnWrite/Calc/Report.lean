/-
What workers report: calculations and their ends, tokens, and the senders
of a close barrier.
-/
import MergeOnWrite.Metrics

namespace MergeOnWrite

namespace WorkerMetric

/-- Calculations that were accepted. -/
def submitted : Metric where
  kind := .counter
  name := "nimbus_worker_calc_tasks_submitted_total"
  description := "Delete bitmap calculation tasks accepted"

def finished : Metric where
  kind := .counter
  name := "nimbus_worker_calc_tasks_finished_total"
  description := "Delete bitmap calculation tasks finished"

/-- The times that calculations took. -/
def duration : Metric where
  kind := .histogram
  name := "nimbus_worker_calc_task_duration_seconds"
  description := "Delete bitmap calculation time in seconds"

def tokens : Metric where
  kind := .gauge
  name := "nimbus_worker_calc_active_tokens"
  description := "Calculation tokens alive"

def senders : Metric where
  kind := .gauge
  name := "nimbus_worker_open_senders"
  description := "Senders not yet closed"

/-- Waits for senders that ran out. -/
def timeouts : Metric where
  kind := .counter
  name := "nimbus_worker_sender_close_timeouts_total"
  description := "Sender close waits that timed out"

def all : List Metric :=
  [submitted, finished, duration, tokens, senders, timeouts]

end WorkerMetric

/-- How a task ended. -/
inductive TaskEnd where
  | succeeded
  | failed
  /-- Given up before it calculated. -/
  | abandoned
deriving DecidableEq, Repr

/-- The word for an end in reports. -/
def TaskEnd.label : TaskEnd → String
  | .succeeded => "succeeded"
  | .failed => "failed"
  | .abandoned => "abandoned"

/-- One event of a worker. -/
inductive WorkerReport where
  | submitted (kind : String)
  | finished (kind : String) (ending : TaskEnd)
  | tokenOpened
  | tokenClosed
  | sendersOpened (count : Nat)
  | senderClosed
  | closeTimedOut
deriving DecidableEq, Repr

namespace WorkerReport

/-- How many tokens are open after an event. -/
def tokensAfter (tokens : Nat) : WorkerReport → Nat
  | .tokenOpened => tokens + 1
  | .tokenClosed => tokens - 1
  | _ => tokens

/-- How many senders are open after an event. -/
def sendersAfter (senders : Nat) : WorkerReport → Nat
  | .sendersOpened count => senders + count
  | .senderClosed => senders - 1
  | _ => senders

/-- The measurements of an event, after which some tokens and senders are
open. -/
def samples (tokens senders : Nat) : WorkerReport → List Sample
  | .submitted kind =>
    [⟨WorkerMetric.submitted, [("kind", kind)], .increment 1⟩]
  | .finished kind ending =>
    ⟨WorkerMetric.finished, [("kind", kind), ("result", ending.label)],
        .increment 1⟩ ::
      if ending = .abandoned then []
      else [⟨WorkerMetric.duration, [("kind", kind)], .duration⟩]
  | .tokenOpened | .tokenClosed => [⟨WorkerMetric.tokens, [], .level tokens⟩]
  | .sendersOpened _ | .senderClosed =>
    [⟨WorkerMetric.senders, [], .level senders⟩]
  | .closeTimedOut => [⟨WorkerMetric.timeouts, [], .increment 1⟩]

/-- The measurements of some events, before which some tokens and senders
were open. -/
def allSamples (tokens senders : Nat) : List WorkerReport → List Sample
  | [] => []
  | event :: rest =>
    let tokens := event.tokensAfter tokens
    let senders := event.sendersAfter senders
    event.samples tokens senders ++ allSamples tokens senders rest

end WorkerReport

/-- What a worker counted. -/
structure WorkerTally where
  submitted : Nat
  succeeded : Nat
  failed : Nat
  abandoned : Nat
  openTokens : Nat
  openSenders : Nat
  timeouts : Nat
deriving DecidableEq, Repr

/-- Counts the events, earliest first. -/
def WorkerTally.ofReports (reports : List WorkerReport) : WorkerTally :=
  let ends (ending : TaskEnd) : Nat :=
    reports.countP fun
      | .finished _ e => e = ending
      | _ => false
  { submitted := reports.countP fun r => r matches .submitted _
    succeeded := ends .succeeded
    failed := ends .failed
    abandoned := ends .abandoned
    openTokens := reports.foldl WorkerReport.tokensAfter 0
    openSenders := reports.foldl WorkerReport.sendersAfter 0
    timeouts := reports.count .closeTimedOut }

end MergeOnWrite
