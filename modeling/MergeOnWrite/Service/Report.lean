/-
What the service reports about its work: waits before another attempt,
requests that ran out of attempts, transitions of locks, and replays.
-/
import MergeOnWrite.Lock.Record
import MergeOnWrite.Metrics

namespace MergeOnWrite

namespace ServiceMetric

/-- Attempts that follow a failed one. -/
def retries : Metric where
  kind := .counter
  name := "nimbus_meta_txn_retry_total"
  description := "Handler attempts retried after a transient store error"

/-- Requests that ran out of attempts. -/
def exhausted : Metric where
  kind := .counter
  name := "nimbus_meta_txn_retry_exhausted_total"
  description := "Calls that exhausted their retry budget"

/-- The waits between attempts. -/
def backoff : Metric where
  kind := .histogram
  name := "nimbus_meta_txn_retry_backoff_seconds"
  description := "Backoff slept before a retry in seconds"

def locks : Metric where
  kind := .counter
  name := "nimbus_meta_delete_bitmap_lock_total"
  description := "Delete bitmap update lock transitions"

def replays : Metric where
  kind := .counter
  name := "nimbus_meta_idempotent_replay_total"
  description := "Requests replayed to check idempotence"

def all : List Metric := [retries, exhausted, backoff, locks, replays]

end ServiceMetric

/-- One event of the service. -/
inductive Report where
  /-- Another attempt follows after a wait. -/
  | retry (method : String) (backoffMs : UInt64)
  /-- No attempt is left; the code is the terminal one. -/
  | exhausted (method : String) (code : ServiceCode)
  | lock (outcome : LockOutcome)
  | replay (method : String)
deriving DecidableEq, Repr

/-- The measurements of an event. -/
def Report.samples : Report → List Sample
  | .retry method backoffMs =>
    [⟨ServiceMetric.retries, [("method", method)], .increment 1⟩,
      ⟨ServiceMetric.backoff, [("method", method)],
        .value (backoffMs.toFloat / 1000.0)⟩]
  | .exhausted method code =>
    [⟨ServiceMetric.exhausted, [("method", method), ("code", code.name)],
      .increment 1⟩]
  | .lock outcome =>
    [⟨ServiceMetric.locks, [("outcome", outcome.label)], .increment 1⟩]
  | .replay method =>
    [⟨ServiceMetric.replays, [("method", method)], .increment 1⟩]

/-- How often the service reported each kind of event. -/
structure ServiceTally where
  retries : Nat
  exhausted : Nat
  acquired : Nat
  takenOver : Nat
  joined : Nat
  busy : Nat
  released : Nat
  staleReleases : Nat
  replays : Nat
deriving DecidableEq, Repr

/-- Counts the events of each kind. -/
def ServiceTally.ofReports (reports : List Report) : ServiceTally :=
  let locks (outcome : LockOutcome) : Nat := reports.count (.lock outcome)
  { retries := reports.countP fun r => r matches .retry ..
    exhausted := reports.countP fun r => r matches .exhausted ..
    acquired := locks .acquired
    takenOver := locks .takenOver
    joined := locks .joined
    busy := locks .busy
    released := locks .released
    staleReleases := locks .staleRelease
    replays := reports.countP fun r => r matches .replay _ }

end MergeOnWrite
