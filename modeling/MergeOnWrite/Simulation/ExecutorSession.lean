/-
Sessions with an executor.

The tasks of the executor share one thread, on which a task goes on until
it has to wait, and then the next one that can. They do so only while the
session waits for something. Calculations have threads of their own; a
gate in front of them can be shut, and a chosen one panics.
-/
import MergeOnWrite.Calc.Calculator
import MergeOnWrite.Calc.Wait

namespace MergeOnWrite

/-- A step of a session with an executor. -/
inductive ExecutorStep where
  | token (name : String)
  | submit (token handle : String) (task : CalcTask) (destination : String)
  /-- A request that could not be made. -/
  | refused (failure : Failure)
  | wait (token : String)
  | status (token : String)
  /-- Waits for the outcome of a task, which can be had once. -/
  | outcome (handle : String)
  | cancel (token : String)
  | abandon (token : String)
  | shutDown
  | isShutDown
  | enter (entries : List (SegmentRef × SegmentKeys))
  | openGate
  | closeGate
  /-- Waits until some calculations have started and the tasks rest. -/
  | untilStarted (count : Nat)
  /-- Waits until the tasks rest. -/
  | settle
  | started
  | marks (destination : String)
  | tally

/-- The answer to a step. -/
inductive ExecutorAnswer where
  | done
  | failed (error : CalcError)
  | refused (failure : Failure)
  | opened (id : Nat)
  | outcome (outcome : TaskOutcome)
  /-- There is no task of the name. -/
  | noHandle
  | noToken
  /-- What was waited for does not come. -/
  | stuck
  | yesNo (yes : Bool)
  | count (n : Nat)
  | bitmap (marks : DeleteBitmap)
  | tally (tally : WorkerTally)

/-- A session with an executor. -/
structure ExecutorSession extends Attended where
  index : KeyIndex := {}
  gateOpen : Bool := true
  /-- The segment whose calculations panic. -/
  panicOn : Option SegmentId := none
  tokens : List (String × Nat) := []
  /-- The tasks by the names of their handles. -/
  handles : List (String × Nat) := []
  /-- The tasks that can go on, in the order in which they became able
  to. -/
  ready : List Nat := []
  /-- The tasks that calculate, in the order in which they started. -/
  calculating : List Nat := []
  started : Nat := 0

namespace ExecutorSession

-- ================================================== running

/-- The tasks that wait for a permit. -/
def waiting (e : Executor) : List Nat :=
  e.pool.waiting ++ e.tokens.flatMap fun t => t.lane.waiting

/-- Carries out a step of the executor; the waiting tasks that it lets go
on become ready. -/
def perform (s : ExecutorSession) (step : Executor.Step) : ExecutorSession :=
  let attended := (s.toAttended.step (.executor step)).tellAll
  let woken := (waiting s.executor).filter attended.executor.canAdvance
  { s with toAttended := attended, ready := s.ready ++ woken }

/-- Notes that a task started to calculate, if it did. -/
def noteStart (s : ExecutorSession) (task : Nat) : ExecutorSession :=
  match (s.executor.tasks[task]?).map Job.stage with
  | some .calculating =>
    { s with
      calculating := s.calculating ++ [task]
      started := s.started + 1 }
  | _ => s

/-- Lets a task go on until it has to wait. -/
def runTask (task : Nat) : (fuel : Nat) → ExecutorSession → ExecutorSession
  | 0, s => s
  | fuel + 1, s =>
    if s.executor.canAdvance task then
      runTask task fuel (s.perform (.advance task))
    else s.noteStart task

/-- The number of stages of a task. -/
def stageCount : Nat := 24

/-- Lets the tasks go on until all of them have to wait. -/
def runReady : (fuel : Nat) → ExecutorSession → ExecutorSession
  | 0, s => s
  | fuel + 1, s =>
    match s.ready with
    | [] => s
    | task :: rest =>
      runReady fuel (runTask task stageCount { s with ready := rest })

/-- Lets the tasks go on until all of them have to wait. A task becomes
ready at most once per stage. -/
def rest (s : ExecutorSession) : ExecutorSession :=
  runReady (stageCount * (s.executor.tasks.length + 1)) s

def calculate (s : ExecutorSession) (task : CalcTask) :
    Except CalcError DeleteBitmap :=
  if s.panicOn = some task.subject.segment then
    .error (.runtime "calculation task panicked")
  else (task.run s.index).result

/-- Ends the calculation that started first, if the gate lets it. -/
def endFirst? (s : ExecutorSession) : Option ExecutorSession :=
  if s.gateOpen then
    match s.calculating with
    | [] => none
    | task :: rest => do
      let job ← s.executor.tasks[task]?
      let s := { s with calculating := rest, ready := s.ready ++ [task] }
      return s.perform (.endCalculation task (s.calculate job.work))
  else none

/-- Waits for something: tasks go on and calculations end until it is
there, or until nothing goes on. -/
def waitFor (goal : ExecutorSession → Bool) :
    (fuel : Nat) → ExecutorSession → ExecutorSession
  | 0, s => s
  | fuel + 1, s =>
    if goal s then s
    else
      let s := s.rest
      if goal s then s
      else
        match s.endFirst? with
        | none => s
        | some s => waitFor goal fuel s

/-- Waits for something. Each round ends a calculation, and each task has
at most one. -/
def await (s : ExecutorSession) (goal : ExecutorSession → Bool) :
    ExecutorSession :=
  waitFor goal (s.executor.tasks.length + 1) s

-- ================================================== steps

def withToken (s : ExecutorSession) (name : String)
    (work : Nat → ExecutorSession × ExecutorAnswer) :
    ExecutorSession × ExecutorAnswer :=
  match s.tokens.lookup name with
  | some token => work token
  | none => (s, .noToken)

def statusAnswer : Except CalcError Unit → ExecutorAnswer
  | .ok _ => .done
  | .error e => .failed e

/-- Forgets the token of a name, if there is one. -/
def abandon (s : ExecutorSession) (name : String) : ExecutorSession :=
  if (s.tokens.lookup name).isSome then
    { s with tokens := s.tokens.filter (·.1 ≠ name) }.perform .closeToken
  else s

/-- Opens a token; it replaces one of the same name. -/
def openToken (s : ExecutorSession) (name : String) :
    ExecutorSession × ExecutorAnswer :=
  if s.executor.shutDown = .no then
    let id := s.executor.tokens.length
    let s := (s.perform .openToken).abandon name
    ({ s with tokens := (name, id) :: s.tokens }, .opened (id + 1))
  else (s, .failed .shutDown)

/-- Offers a task to a token and has the offer checked. -/
def submit (s : ExecutorSession) (token : Nat) (handle : String)
    (task : CalcTask) (destination : String) :
    ExecutorSession × ExecutorAnswer :=
  let id := s.executor.tasks.length
  let advance := Executor.Step.advance id
  let s := (s.perform (.offer token task destination)).perform advance
    |>.perform advance |>.perform advance |>.perform advance
  match (s.executor.tasks[id]?).map Job.stage with
  | some (.rejected e) => (s, .failed e)
  | _ =>
    ({ s with
      handles := (handle, id) :: s.handles.filter (·.1 ≠ handle)
      ready := s.ready ++ [id] }, .done)

/-- Lets a wait go on until it sleeps or returns. -/
def goOn (s : ExecutorSession) (wait : Nat) : ExecutorSession :=
  let goOn := Attended.Step.goOn wait
  { s with toAttended := ((s.toAttended.step goOn).step goOn).step goOn }

def isAsleep (s : ExecutorSession) (wait : Nat) : Bool :=
  match (s.waits[wait]?).map Wait.stage with
  | some .asleep => true
  | _ => false

/-- Waits for a token, until nothing goes on if it is not woken. -/
def wait (s : ExecutorSession) (token : Nat) :
    ExecutorSession × ExecutorAnswer :=
  let id := s.waits.length
  let s := { s with toAttended := s.toAttended.step (.wait token) }
  let s := ((s.goOn id).await fun s => !s.isAsleep id).goOn id
  match (s.waits[id]?).map Wait.stage with
  | some (.returned status) => (s, statusAnswer status)
  | _ => (s, .stuck)

/-- Waits for the outcome of a task. -/
def outcome (s : ExecutorSession) (handle : String) :
    ExecutorSession × ExecutorAnswer :=
  match s.handles.lookup handle with
  | none => (s, .noHandle)
  | some task =>
    let s := { s with handles := s.handles.filter (·.1 ≠ handle) }
    let s := s.await fun s => (s.executor.outcome? task).isSome
    match s.executor.outcome? task with
    | some outcome => (s, .outcome outcome)
    | none => (s, .stuck)

/-- Cancels a token, unless that was done before. -/
def cancel (s : ExecutorSession) (token : Nat) : ExecutorSession :=
  let cancel := Executor.Step.cancel token
  ((s.perform cancel).perform cancel).perform cancel

def step (s : ExecutorSession) :
    ExecutorStep → ExecutorSession × ExecutorAnswer
  | .token name => s.openToken name
  | .submit token handle task destination =>
    s.withToken token fun token => s.submit token handle task destination
  | .refused failure => (s, .refused failure)
  | .wait token => s.withToken token s.wait
  | .status token =>
    s.withToken token fun token => (s, statusAnswer (s.executor.status token))
  | .outcome handle => s.outcome handle
  | .cancel token => s.withToken token fun token => (s.cancel token, .done)
  | .abandon token => (s.abandon token, .done)
  | .shutDown => ((s.perform .shutDown).perform .shutDown, .done)
  | .isShutDown => (s, .yesNo (s.executor.shutDown ≠ .no))
  | .enter entries =>
    ({ s with index := s.index.insertMany entries }, .done)
  | .openGate => ({ s with gateOpen := true }, .done)
  | .closeGate => ({ s with gateOpen := false }, .done)
  | .untilStarted count =>
    let s := (s.await fun s => count ≤ s.started).rest
    (s, .count s.started)
  | .settle => (s.rest, .done)
  | .started => (s, .count s.started)
  | .marks destination => (s, .bitmap (s.executor.bitmap destination))
  | .tally => (s, .tally (.ofReports s.executor.reports.reverse))

def answers (s : ExecutorSession) :
    List ExecutorStep → ExecutorSession × List ExecutorAnswer
  | [] => (s, [])
  | step :: rest =>
    let (s, answer) := s.step step
    let (s, answers) := s.answers rest
    (s, answer :: answers)

/-- The measurements of a session at whose end all tokens are given up,
earliest first. -/
def samples (s : ExecutorSession) : List Sample :=
  let s := s.tokens.foldl (fun s token => s.abandon token.1) s
  WorkerReport.allSamples 0 0 s.executor.reports.reverse

end ExecutorSession

end MergeOnWrite
