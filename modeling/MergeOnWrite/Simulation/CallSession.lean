/-
Sessions that try the retries and the replays of the service by
themselves.
-/
import MergeOnWrite.Service.Front
import MergeOnWrite.Simulation.World

namespace MergeOnWrite

-- ================================================== retries

/-- What a probe of the retries shows. -/
structure RetryProbe where
  response : Response (List Nat)
  attempts : Nat
  waits : List UInt64
  reports : List Report

namespace RetryProbe

/-- What has been seen so far, latest first. -/
structure Notes where
  waits : List UInt64 := []
  reports : List Report := []

/-- Answers the questions of a probe: every wait is noted and takes no
time. -/
def answer (jitterMs : UInt64) (notes : Notes) :
    (q : Question) → Notes × q.Answer
  | .jitter => (notes, jitterMs)
  | .pause ms => ({ notes with waits := ms :: notes.waits }, ())
  | .report event => ({ notes with reports := event :: notes.reports }, ())
  | q => (notes, q.idle)

/-- The response of an attempt, which counts from zero: its code, and the
number of the attempt as message and payload. After the last code the
attempts go on with it. -/
def attempt (codes : List ServiceCode) (n : Nat) : Response (List Nat) :=
  let code := (codes[n]?.or codes.getLast?).getD .ok
  ⟨⟨code, "attempt " ++ toString n⟩, [n]⟩

/-- Probes the retries with a request whose attempts end with the given
codes. -/
def run (config : RetryConfig) (jitterMs : UInt64)
    (codes : List ServiceCode) : RetryProbe :=
  let script := Script.withRetries config "probe" fun n =>
    .done (attempt codes n)
  let (notes, response) := script.run (answer jitterMs) {}
  { response
    attempts := notes.waits.length + 1
    waits := notes.waits.reverse
    reports := notes.reports.reverse }

end RetryProbe

-- ================================================== replays

/-- What became of the offer to replay one request. -/
inductive ReplayProbe where
  | notScheduled
  /-- Scheduled too far ahead to wait for. -/
  | scheduled
  /-- Scheduled and waited for: the delay if it was not drawn, and the
  requests that were attempted when it had passed. -/
  | awaited (afterMs : Option Nat) (calls : List Call)

namespace ReplayProbe

/-- What has been seen so far. -/
structure Notes where
  /-- The replays scheduled for the request at hand. -/
  scheduled : List (Call × Nat) := []
  /-- All reports, latest first. -/
  reports : List Report := []

/-- Answers the questions of an offer. An event is drawn if it is certain,
and the middle of a range stands for any number in it. -/
def answer (notes : Notes) : (q : Question) → Notes × q.Answer
  | .chance probability => (notes, 1.0 ≤ probability)
  | .report event => ({ notes with reports := event :: notes.reports }, ())
  | .replay call delayMs =>
    ({ notes with scheduled := notes.scheduled ++ [(call, delayMs)] }, ())
  | q => (notes, q.idle)

/-- The longest delay, range included, that is waited for. -/
def patience : Nat := 1000000

def ofScheduled (config : ReplayConfig) : List (Call × Nat) → ReplayProbe
  | [] => .notScheduled
  | replays@((_, delayMs) :: _) =>
    if patience < config.delayBaseMs.toNat + config.delayRangeMs.toNat then
      .scheduled
    else
      .awaited (if config.delayRangeMs = 0 then some delayMs else none)
        (replays.map Prod.fst)

/-- Offers a request that ended with a code. -/
def offer (config : ReplayConfig) (notes : Notes) (call : Call)
    (code : ServiceCode) : Notes × ReplayProbe :=
  let (notes, _) :=
    (call.offerReplay config ⟨code, ""⟩).run answer { notes with scheduled := [] }
  (notes, ofScheduled config notes.scheduled)

/-- Offers some requests one after another. -/
def offers (config : ReplayConfig) (notes : Notes) :
    List (Call × ServiceCode) → Notes × List ReplayProbe
  | [] => (notes, [])
  | (call, code) :: rest =>
    let (notes, probe) := offer config notes call code
    let (notes, probes) := offers config notes rest
    (notes, probe :: probes)

end ReplayProbe

end MergeOnWrite
