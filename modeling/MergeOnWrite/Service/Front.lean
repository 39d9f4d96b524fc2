/-
The service as its callers see it: attempts, and replays behind their
back.

An attempt at a request is the handler of its method, and the response.

A replay makes another attempt at a request that was already answered
with success, some time later. Where the handlers are idempotent nobody
notices; a test that compares what is stored does, where they are not.
-/
import MergeOnWrite.Service.BitmapHandler
import MergeOnWrite.Service.LockHandler
import MergeOnWrite.Service.Retry

namespace MergeOnWrite

-- ================================================== attempts

namespace Call

def handler (config : LockConfig) : (call : Call) → Handler call.Payload
  | .acquireLock r => Handler.acquireLock config r
  | .releaseLock r => Handler.releaseLock r
  | .updateBitmap r => Handler.updateBitmap r
  | .readBitmap r => Handler.readBitmap r
  | .removeBitmap r => Handler.removeBitmap r

def attempt (config : LockConfig) (call : Call) :
    Script (Response call.Payload) := do
  let result ← (call.handler config).run
  return .ofResult call.noPayload result

end Call

-- ================================================== replays

namespace ReplayConfig

/-- True when a request with some status may be replayed at all. -/
def admits (config : ReplayConfig) (method : String) (status : Status) :
    Bool :=
  config.enabled && status.isOk && !config.excludes method
    && !config.probability.isNaN && 0.0 < config.probability

/-- The longest delay: the greatest signed number of milliseconds. -/
def longestMs : Int := 0x7FFFFFFFFFFFFFFF

/-- A number of milliseconds, as far as a signed number can hold it. -/
def signedMs (ms : UInt64) : Int := min ms.toNat longestMs

/-- The delay of a replay that lies `offset` from its base; there is no
replay before the present. -/
def delayAt? (config : ReplayConfig) (offset : Int) : Option Nat :=
  let delay := min (signedMs config.delayBaseMs + offset) longestMs
  if 0 ≤ delay then some delay.toNat else none

end ReplayConfig

namespace Call

/-- Possibly has a request replayed that was answered with some status. -/
def offerReplay (config : ReplayConfig) (call : Call) (status : Status) :
    Script Unit :=
  if config.admits call.method status then do
    if ← Script.question (.chance config.probability) then
      let offset ← Script.question
        (.spread (ReplayConfig.signedMs config.delayRangeMs).toNat)
      match config.delayAt? offset with
      | none => return ()
      | some delay => do
        Script.report (.replay call.method)
        Script.question (.replay call delay)
    else return ()
  else return ()

/-- Answers a request: attempts it as often as configured, and possibly
has it replayed. -/
def serve (config : ServiceConfig) (call : Call) :
    Script (Response call.Payload) := do
  let response ← Script.withRetries config.retry call.method fun _ =>
    call.attempt config.lock
  call.offerReplay config.replay response.status
  return response

end Call

end MergeOnWrite
