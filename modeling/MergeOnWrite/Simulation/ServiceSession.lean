/-
Sessions with a service in simulated surroundings.
-/
import MergeOnWrite.Simulation.World

namespace MergeOnWrite

/-- What a session begins with. -/
structure SessionSetup where
  config : ServiceConfig := {}
  jitterMs : UInt64 := 0
  maxAge : Option Nat := none
  pace : Pace := {}

/-- A step of a session. -/
inductive ServiceStep where
  /-- A request; made directly it is attempted once and never
  replayed. -/
  | call (direct : Bool) (call : Call)
  /-- A request that could not be made. -/
  | refused (failure : Failure)
  | control (control : StoreControl)
  | write (key : Bytes) (value : Option Bytes)
  | advance (ms : Nat)
  | advanceClock (ms : UInt64)
  /-- Waits virtual time, and lets the background go on. -/
  | sleep (ms : Nat)
  | elapsed
  /-- Replaces the list of the instances that use the second version of
  the protocol. -/
  | allowList (text : String)
  | version (instanceName : String)
  | tally
  | strikes (moment : Moment) (strikes : List (List RivalStep))
  | reads (codes : List (Option StoreCode))

/-- The answer to a step. -/
inductive ServiceAnswer where
  /-- A response, and the pauses noted since the last one. -/
  | response (answer : CallAnswer) (pauses : Option (List UInt64))
  | refused (failure : Failure)
  | done
  | view (view : StoreView)
  | elapsed (ms : Nat)
  | version (version : LockVersion)
  | tally (tally : ServiceTally)

/-- What a step leaves: its answer, what the rival got to see during it,
and what is stored after it. -/
structure StepRecord where
  answer : ServiceAnswer
  rival : List RivalAnswer
  stored : List (Bytes × Bytes)

namespace World

/-- The surroundings that a session begins in. -/
def ofSetup (setup : SessionSetup) : Except ServiceError World := do
  setup.config.check
  let allowList := AllowList.ofText setup.config.lock.allowList
  return {
    config := setup.config
    backing := { maxAge := setup.maxAge }
    pace := setup.pace
    jitterMs := setup.jitterMs
    allowList
    rivalAllowList := allowList }

def answerCall (w : World) (direct : Bool) (call : Call) :
    World × ServiceAnswer :=
  let script :=
    if direct then call.attempt w.config.lock else call.serve w.config
  let (w, response) := w.runForeground none (.ofScript w.pace script)
  let answer : CallAnswer := ⟨call, response⟩
  match w.pace.pausing with
  | .real => (w, .response answer none)
  | .noted =>
    ({ w with pauses := [] }, .response answer (some w.pauses.reverse))

def step (w : World) : ServiceStep → World × ServiceAnswer
  | .call direct call => w.answerCall direct call
  | .refused failure => (w, .refused failure)
  | .control control =>
    let (backing, view) := w.backing.control control
    ({ w with backing }, .view view)
  | .write key value =>
    ({ w with backing.store := w.backing.store.write key value }, .done)
  | .advance ms => (w.advance ms, .done)
  | .advanceClock ms => ({ w with clock := w.clock.advance ms }, .done)
  | .sleep ms => ((w.sleep ms).settle, .done)
  | .elapsed => (w, .elapsed w.time)
  | .allowList text => ({ w with allowList := .ofText text }, .done)
  | .version name =>
    match InstanceId.ofText name with
    | .error e => (w, .refused (.ofIdError e))
    | .ok i => (w, .version (w.allowList.versionFor i))
  | .tally => (w, .tally (.ofReports w.reports))
  | .strikes moment strikes => (w.plan moment strikes, .done)
  | .reads codes => ({ w with reads := w.reads ++ codes }, .done)

/-- Carries out a step and notes what it leaves. -/
def recordStep (w : World) (step : ServiceStep) : World × StepRecord :=
  let (w, answer) := { w with rivalAnswers := [] }.step step
  (w, ⟨answer, w.rivalAnswers.reverse, w.backing.store.live.toList⟩)

/-- What some steps leave, and the surroundings after them. -/
def recordSteps (w : World) : List ServiceStep → World × List StepRecord
  | [] => (w, [])
  | step :: rest =>
    let (w, record) := w.recordStep step
    let (w, records) := w.recordSteps rest
    (w, record :: records)

/-- The measurements of both services, earliest first. -/
def samples (w : World) : List Sample :=
  w.allReports.reverse.flatMap Report.samples

end World

end MergeOnWrite
