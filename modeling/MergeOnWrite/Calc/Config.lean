/-
The configuration of a worker: how many calculations run at once.

| Setting | Field |
|---|---|
| `NIMBUS_CALC_DELETE_BITMAP_THREADS` | both |
| `NIMBUS_CALC_DELETE_BITMAP_MAX_TOKEN_CONCURRENCY` | `tokenConcurrency` |
-/
import MergeOnWrite.Calc.Error
import MergeOnWrite.Json.Record
import MergeOnWrite.Settings

namespace MergeOnWrite

/-- How many calculations run at once. -/
structure WorkerConfig where
  threads : UInt64 := 8
  tokenConcurrency : UInt64 := 8
deriving DecidableEq, Repr, Inhabited

namespace WorkerConfig

/-- Checks the configuration: the first rule it breaks decides the
error. -/
def check (config : WorkerConfig) : Except CalcError Unit :=
  if config.threads = 0 then
    .error (.config "NIMBUS_CALC_DELETE_BITMAP_THREADS must be positive")
  else if config.tokenConcurrency = 0 then
    .error (.config
      "NIMBUS_CALC_DELETE_BITMAP_MAX_TOKEN_CONCURRENCY must be positive")
  else .ok ()

def ofSettings (settings : Settings) : Except CalcError WorkerConfig := do
  let size (name : String) : Except CalcError (Option UInt64) :=
    (settings.size? name).mapError .ofFailure
  let threads ← size "NIMBUS_CALC_DELETE_BITMAP_THREADS"
  let tokens ← size "NIMBUS_CALC_DELETE_BITMAP_MAX_TOKEN_CONCURRENCY"
  let base : WorkerConfig := {}
  let config : WorkerConfig := {
    threads := threads.getD base.threads
    tokenConcurrency := tokens.getD (threads.getD base.tokenConcurrency) }
  config.check
  return config

def toJson (config : WorkerConfig) : Json :=
  .ofMembers
    [("calc_threads", .ofInt config.threads.toNat),
      ("max_token_concurrency", .ofInt config.tokenConcurrency.toNat)]

def ofJson? (value : Json) : Option WorkerConfig := do
  match ← value.fields? ["calc_threads", "max_token_concurrency"] with
  | [threads, tokens] => return ⟨← threads.uint64?, ← tokens.uint64?⟩
  | _ => none

end WorkerConfig

end MergeOnWrite
