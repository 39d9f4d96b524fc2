/-
The executor of calculations.

A worker has one pool of permits for all calculations. Each load opens a
token with a lane of permits of its own, which bounds its share of the
pool, and offers tasks to it. A task that is accepted asks for a permit
of its lane, then for one of the pool, then calculates, and merges its
marks into its destination. The first error of a token's tasks becomes
the status of the token, and cancelling a token or shutting the worker
down gives up the tasks that did not get as far as to calculate.

Tasks run side by side, so everything that others can come in between
with is a step of its own: `Stage` lists where a task can be, and
`Executor.step` carries out one step of anyone.

    offered > accepted > lane > pool > calculating > merged
            > permits back > end noted > outcome delivered > finished
-/
import MergeOnWrite.Calc.Config
import MergeOnWrite.Calc.Permits
import MergeOnWrite.Calc.Report
import MergeOnWrite.Calc.Task

namespace MergeOnWrite

-- ================================================== state

/-- The permits that a task has yet to give back. -/
inductive Held where
  | none
  | lane
  /-- One of the lane and one of the pool. -/
  | both
deriving DecidableEq, Repr

/-- Where a task is. -/
inductive Stage where
  /-- Offered to a token; nothing was checked yet. -/
  | offered
  | statusChecked
  /-- The token was not cancelled. -/
  | cancelChecked
  /-- Nothing was shut down either; the task is not counted yet. -/
  | shutDownChecked
  | rejected (error : CalcError)
  /-- Accepted; it has not asked for a permit of its lane. -/
  | accepted
  /-- Waits for a permit of its lane. -/
  | laneQueued
  /-- Was given a permit of its lane and has not gone on since. -/
  | laneGranted
  | laneHeld
  /-- Waits for a permit of the pool. -/
  | poolQueued
  /-- Was given a permit of the pool and has not gone on since. -/
  | poolGranted
  | poolHeld
  | calculating
  /-- The calculation ended; its marks are not merged. -/
  | calculated (result : Except CalcError DeleteBitmap)
  /-- The result is certain; permits are to be given back. -/
  | ending (held : Held) (result : Except CalcError Unit)
  | noted (result : Except CalcError Unit)
  | delivered (result : Except CalcError Unit)
  /-- The token does not count on the task any more. -/
  | finished (result : Except CalcError Unit)

/-- How far the cancelling of a token, or a shutdown, has got. -/
inductive Stopping where
  | no
  | raised
  | closed
  /-- The error was recorded as the status. -/
  | recorded
deriving DecidableEq, Repr

/-- A token: the lane of one load. -/
structure Token where
  lane : Permits
  /-- The first error. -/
  status : Option CalcError := none
  cancel : Stopping := .no
  /-- How many accepted tasks have not finished. -/
  pending : Nat := 0

/-- A task that was offered to a token. -/
structure Job where
  token : Nat
  work : CalcTask
  /-- The name of the bitmap that the marks are merged into. -/
  destination : String
  stage : Stage := .offered

/-- The token with an error as its status, unless it has one. -/
def Token.fail (token : Token) (error : CalcError) : Token :=
  { token with status := token.status <|> some error }

/-- The outcome of a task. -/
structure TaskOutcome where
  subject : SegmentRef
  result : Except CalcError Unit

/-- The end that an outcome is reported as. -/
def endOf : Except CalcError Unit → TaskEnd
  | .ok _ => .succeeded
  | .error e => if e.isAbandonment then .abandoned else .failed

/-- The state of a worker's executor. -/
structure Executor where
  config : WorkerConfig
  pool : Permits
  shutDown : Stopping := .no
  /-- The tokens in the order in which they were opened. -/
  tokens : List Token := []
  /-- The tasks in the order in which they were offered. -/
  tasks : List Job := []
  bitmaps : SortedMap String DeleteBitmap := ∅
  /-- The delivered outcomes with the numbers of their tasks, latest
  first. -/
  outcomes : List (Nat × TaskOutcome) := []
  /-- The reports, latest first. -/
  reports : List WorkerReport := []

namespace Executor

/-- An executor without tokens. -/
def new (config : WorkerConfig) : Except CalcError Executor := do
  config.check
  return { config, pool := { free := config.threads.toNat } }

def bitmap (e : Executor) (name : String) : DeleteBitmap :=
  (e.bitmaps.get? name).getD ∅

def report (e : Executor) (event : WorkerReport) : Executor :=
  { e with reports := event :: e.reports }

def modifyToken (e : Executor) (id : Nat) (f : Token → Token) : Executor :=
  { e with tokens := e.tokens.modify id f }

def setStage (e : Executor) (id : Nat) (stage : Stage) : Executor :=
  { e with tasks := e.tasks.modify id fun t => { t with stage } }

/-- Moves a task on that got a permit, if one did. -/
def grantTo (e : Executor) (stage : Stage) : Option Nat → Executor
  | none => e
  | some id => e.setStage id stage

/-- Gives a permit of a token's lane back. -/
def releaseLane (e : Executor) (token : Nat) : Executor :=
  match e.tokens[token]? with
  | none => e
  | some t =>
    let (lane, granted) := t.lane.release
    (e.modifyToken token fun t => { t with lane }).grantTo .laneGranted granted

/-- Gives a permit of the pool back. -/
def releasePool (e : Executor) : Executor :=
  let (pool, granted) := e.pool.release
  { e with pool }.grantTo .poolGranted granted

-- ================================================== tasks

/-- The next stage of a task that was offered: the first reason against
it decides. -/
def checkOffer (e : Executor) (token : Token) : Stage → Stage
  | .offered => token.status.elim .statusChecked .rejected
  | .statusChecked =>
    if token.cancel = .no then .cancelChecked else .rejected .cancelled
  | .cancelChecked =>
    if e.shutDown = .no then .shutDownChecked else .rejected .shutDown
  | .shutDownChecked => .accepted
  | stage => stage

/-- Checks an offer. A task that is accepted counts as pending and is
reported.

The two make one step, since nobody who takes part looks at both: the
count is for the waits, which report nothing, and the reports are read
from outside. Whatever comes in between can as well come after both if it
looks at the count, and before them if it reads the reports. -/
def advanceOffer (e : Executor) (id : Nat) (t : Job) (token : Token) :
    Executor :=
  match e.checkOffer token t.stage with
  | .accepted =>
    ((e.modifyToken t.token fun token =>
      { token with pending := token.pending + 1 }).report
        (.submitted t.work.kind)).setStage id .accepted
  | stage => e.setStage id stage

/-- Asks for a permit of the lane. -/
def requestLane (e : Executor) (id : Nat) (t : Job) (token : Token) :
    Executor :=
  match token.lane.request id with
  | .closed => e.setStage id (.ending .none (.error .cancelled))
  | .taken lane =>
    (e.modifyToken t.token fun token => { token with lane }).setStage id
      .laneHeld
  | .queued lane =>
    (e.modifyToken t.token fun token => { token with lane }).setStage id
      .laneQueued

/-- Asks for a permit of the pool. -/
def requestPool (e : Executor) (id : Nat) : Executor :=
  match e.pool.request id with
  | .closed => e.setStage id (.ending .lane (.error .shutDown))
  | .taken pool => { e with pool }.setStage id .poolHeld
  | .queued pool => { e with pool }.setStage id .poolQueued

def mergeMarks (e : Executor) (t : Job) (marks : DeleteBitmap) : Executor :=
  { e with
    bitmaps :=
      e.bitmaps.insert t.destination
        ((e.bitmap t.destination).merge marks) }

/-- Notes the end of a task: an error may become the status of the token,
and the end is reported.

One step again: where a status is looked at, an offer is rejected or
somebody is answered, and neither is reported, so whatever comes in
between can be moved out in the same way. -/
def noteEnd (e : Executor) (t : Job) (result : Except CalcError Unit) :
    Executor :=
  let e := match result with
    | .ok _ => e
    | .error error => e.modifyToken t.token (·.fail error)
  e.report (.finished t.work.kind (endOf result))

def deliver (e : Executor) (id : Nat) (t : Job)
    (result : Except CalcError Unit) : Executor :=
  { e with outcomes := (id, ⟨t.work.subject, result⟩) :: e.outcomes }

/-- Lets a task go on by one step, if it can. -/
def advanceTask (e : Executor) (id : Nat) (t : Job) (token : Token) :
    Executor :=
  match t.stage with
  | .offered | .statusChecked | .cancelChecked | .shutDownChecked =>
    e.advanceOffer id t token
  | .accepted => e.requestLane id t token
  | .laneQueued =>
    if token.lane.closed then
      e.setStage id (.ending .none (.error .cancelled))
    else e
  | .laneGranted =>
    if token.lane.closed then
      (e.releaseLane t.token).setStage id (.ending .none (.error .cancelled))
    else e.setStage id .laneHeld
  | .laneHeld => e.requestPool id
  | .poolQueued =>
    if e.pool.closed then e.setStage id (.ending .lane (.error .shutDown))
    else e
  | .poolGranted =>
    if e.pool.closed then
      e.releasePool.setStage id (.ending .lane (.error .shutDown))
    else e.setStage id .poolHeld
  | .poolHeld =>
    if token.cancel = .no then e.setStage id .calculating
    else e.setStage id (.ending .both (.error .cancelled))
  | .calculated (.ok marks) =>
    (e.mergeMarks t marks).setStage id (.ending .both (.ok ()))
  | .calculated (.error error) =>
    e.setStage id (.ending .both (.error error))
  | .ending .both result => e.releasePool.setStage id (.ending .lane result)
  | .ending .lane result =>
    (e.releaseLane t.token).setStage id (.ending .none result)
  | .ending .none result => (e.noteEnd t result).setStage id (.noted result)
  | .noted result => (e.deliver id t result).setStage id (.delivered result)
  | .delivered result =>
    (e.modifyToken t.token fun token =>
      { token with pending := token.pending - 1 }).setStage id
        (.finished result)
  | .calculating | .rejected _ | .finished _ => e

/-- Lets a task go on by one step, if there is such a task. -/
def advance (e : Executor) (id : Nat) : Executor :=
  match e.tasks[id]? with
  | none => e
  | some t =>
    match e.tokens[t.token]? with
    | none => e
    | some token => e.advanceTask id t token

/-- True when a task that has begun to wait, or to calculate, can go
on. -/
def canAdvance (e : Executor) (id : Nat) : Bool :=
  match e.tasks[id]? with
  | none => false
  | some t =>
    match t.stage with
    | .laneQueued => e.tokens[t.token]?.any fun token => token.lane.closed
    | .poolQueued => e.pool.closed
    | .calculating | .rejected _ | .finished _ => false
    | _ => true

def endCalculation (e : Executor) (id : Nat)
    (result : Except CalcError DeleteBitmap) : Executor :=
  match e.tasks[id]? with
  | some { stage := .calculating, .. } => e.setStage id (.calculated result)
  | _ => e

-- ================================================== stopping

/-- Lets the cancelling of a token go on by one step: its flag goes up,
its lane closes, and the error is recorded. -/
def advanceCancel (token : Token) : Token :=
  match token.cancel with
  | .no => { token with cancel := .raised }
  | .raised => { token with cancel := .closed, lane := token.lane.close }
  | .closed => { token.fail .cancelled with cancel := .recorded }
  | .recorded => token

/-- Lets a shutdown go on by one step: its flag goes up, and the pool
closes. -/
def advanceShutDown (e : Executor) : Executor :=
  match e.shutDown with
  | .no => { e with shutDown := .raised }
  | .raised => { e with shutDown := .closed, pool := e.pool.close }
  | .closed | .recorded => e

-- ================================================== steps

/-- Opens a token, unless there is a shutdown. One that has found the flag
down is there at once: nobody knows it yet, so it makes no difference but
for the moment of its report whether the flag goes up first. -/
def openToken (e : Executor) : Executor :=
  if e.shutDown = .no then
    let token : Token := { lane := { free := e.config.tokenConcurrency.toNat } }
    { e with tokens := e.tokens ++ [token] }.report .tokenOpened
  else e

/-- A step of anyone who works with the executor. -/
inductive Step where
  | openToken
  /-- The owner of a token gives it up; its tasks go on. -/
  | closeToken
  | offer (token : Nat) (work : CalcTask) (destination : String)
  | advance (task : Nat)
  | endCalculation (task : Nat) (result : Except CalcError DeleteBitmap)
  | cancel (token : Nat)
  | shutDown

def step (e : Executor) : Step → Executor
  | .openToken => e.openToken
  | .closeToken => e.report .tokenClosed
  | .offer token work destination =>
    { e with tasks := e.tasks ++ [{ token, work, destination }] }
  | .advance task => e.advance task
  | .endCalculation task result => e.endCalculation task result
  | .cancel token => e.modifyToken token advanceCancel
  | .shutDown => e.advanceShutDown

def status (e : Executor) (token : Nat) : Except CalcError Unit :=
  match e.tokens[token]?.bind Token.status with
  | none => .ok ()
  | some error => .error error

/-- True when no accepted task of a token is unfinished. -/
def isIdle (e : Executor) (token : Nat) : Bool :=
  e.tokens[token]?.all fun t => t.pending = 0

/-- The outcome of a task, once it is delivered. -/
def outcome? (e : Executor) (task : Nat) : Option TaskOutcome :=
  e.outcomes.lookup task

end Executor

end MergeOnWrite
