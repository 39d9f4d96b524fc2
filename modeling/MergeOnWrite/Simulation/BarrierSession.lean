/-
Sessions at a close barrier, on virtual time.

The session in the foreground and the closes in the background take
turns. While the foreground waits, the background goes on whenever it
can; where a wait of both ends at the same time, the foreground goes on
first, and a close in the background may then still find that its peers
have closed.
-/
import MergeOnWrite.Calc.Barrier
import MergeOnWrite.Calc.Report

namespace MergeOnWrite

/-- A close in the background. -/
structure BackgroundClose where
  /-- Its name, unless another close was given it since. -/
  name : Option String
  wait : CloseWait
  result : Option (Except CalcError Unit)

/-- A step of a session at a barrier. -/
inductive BarrierStep where
  /-- Closes a sender, and waits for its peers up to a limit. -/
  | close (sender : Int64) (hangMs : Option Nat)
  | spawnClose (name : String) (sender : Int64) (hangMs : Option Nat)
  | sleep (ms : Nat)
  /-- Tells whether a close in the background has ended. -/
  | finished (name : String)
  /-- Waits for a close in the background to end. -/
  | join (name : String)
  | tally

/-- What a step comes to. -/
inductive BarrierResult where
  | done
  | failed (error : CalcError)
  | finished (yes : Bool)
  /-- There is no close of the name. -/
  | unknown
  | tally (tally : WorkerTally)

/-- The answer to a step, with the state of the barrier after it. -/
structure BarrierAnswer where
  result : BarrierResult
  pending : Nat
  closed : Bool
  elapsed : Nat

/-- A session at a barrier. -/
structure BarrierSession where
  barrier : Barrier
  /-- Virtual time in milliseconds. -/
  time : Nat := 0
  closes : List BackgroundClose := []
  /-- The reports, latest first. -/
  reports : List WorkerReport := []

namespace BarrierSession

def ofSenders (senders : List Int64) : BarrierSession :=
  let barrier := Barrier.ofSenders senders
  { barrier, reports := [.sendersOpened barrier.pending] }

def report (s : BarrierSession) (event : WorkerReport) : BarrierSession :=
  { s with reports := event :: s.reports }

def noteEnd (s : BarrierSession) : Except CalcError Unit → BarrierSession
  | .ok _ => s
  | .error _ => s.report .closeTimedOut

def pollClose (s : BarrierSession) (c : BackgroundClose) :
    BarrierSession × BackgroundClose :=
  match c.result with
  | some _ => (s, c)
  | none =>
    match s.barrier.poll c.wait s.time with
    | none => (s, c)
    | some result => (s.noteEnd result, { c with result := some result })

/-- Lets some closes in the background go on. -/
def pollAll (s : BarrierSession) :
    List BackgroundClose → BarrierSession × List BackgroundClose
  | [] => (s, [])
  | c :: rest =>
    let (s, c) := s.pollClose c
    let (s, rest) := s.pollAll rest
    (s, c :: rest)

/-- Lets all closes in the background go on. -/
def poll (s : BarrierSession) : BarrierSession :=
  let (s, closes) := s.pollAll s.closes
  { s with closes }

/-- Lets those closes in the background go on whose waits have run out
before the present. -/
def pollOverdue (s : BarrierSession) : BarrierSession :=
  let (s, closes) := s.pollAll
    (s.closes.filter fun c => c.wait.deadline < s.time)
  { s with
    closes := closes ++ s.closes.filter fun c => s.time ≤ c.wait.deadline }

/-- Passes virtual time in the foreground. Nothing closes meanwhile, so the
waits that end are those that run out. Those that run out with the
foreground's go on after it. -/
def pass (s : BarrierSession) (ms : Nat) : BarrierSession :=
  if ms = 0 then s
  else { s.poll with time := s.time + ms }.pollOverdue

/-- Closes a sender: the barrier after it, unless it does not know the
sender. -/
def closeSender (s : BarrierSession) (sender : Int64) :
    Except CalcError BarrierSession := do
  let barrier ← s.barrier.close sender
  let closed := s.barrier.isOpen sender
  let s := { s with barrier }
  return if closed then s.report .senderClosed else s

def waitOf (s : BarrierSession) (limitMs : Nat) : CloseWait :=
  ⟨limitMs, s.time + limitMs⟩

/-- What the end of a close is answered with. -/
def resultOf : Except CalcError Unit → BarrierResult
  | .ok _ => .done
  | .error e => .failed e

def close (s : BarrierSession) (sender : Int64) (hangMs : Option Nat) :
    BarrierSession × BarrierResult :=
  match s.closeSender sender with
  | .error e => (s, .failed e)
  | .ok s =>
    match hangMs with
    | none => (s, .done)
    | some limitMs =>
      let wait := s.waitOf limitMs
      let s := if s.barrier.isClosed then s else s.pass limitMs
      match s.barrier.poll wait s.time with
      | none => (s, .done)
      | some result => (s.noteEnd result, resultOf result)

/-- Takes the name from the close that has it. -/
def forget (s : BarrierSession) (name : String) : BarrierSession :=
  { s with
    closes := s.closes.map fun c =>
      if c.name = some name then { c with name := none } else c }

def keep (s : BarrierSession) (c : BackgroundClose) : BarrierSession :=
  { s with closes := s.closes ++ [c] }

/-- Closes a sender in the background, after all there that could go on
before. -/
def spawnClose (s : BarrierSession) (name : String) (sender : Int64)
    (hangMs : Option Nat) : BarrierSession :=
  let s := (s.forget name).poll
  match s.closeSender sender with
  | .error e => s.keep ⟨some name, s.waitOf 0, some (.error e)⟩
  | .ok s =>
    match hangMs with
    | none => (s.keep ⟨some name, s.waitOf 0, some (.ok ())⟩).poll
    | some limitMs => (s.keep ⟨some name, s.waitOf limitMs, none⟩).poll

def find? (s : BarrierSession) (name : String) : Option BackgroundClose :=
  s.closes.find? (·.name = some name)

def waitOf? (s : BarrierSession) (name : String) : Option CloseWait :=
  match s.find? name with
  | some ⟨_, wait, none⟩ => some wait
  | _ => none

/-- Waits until the close of a name has ended: not at all if it has, and
until its wait runs out if it cannot end before. -/
def awaitClose (s : BarrierSession) (name : String) : BarrierSession :=
  if (s.waitOf? name).isNone then s
  else
    match s.poll.waitOf? name with
    | none => s.poll
    | some wait => { s.poll with time := wait.deadline }.poll

/-- Waits for a close in the background and takes its name. -/
def join (s : BarrierSession) (name : String) :
    BarrierSession × BarrierResult :=
  let s := s.awaitClose name
  let result := (s.find? name).bind BackgroundClose.result
  (s.forget name, (result.map resultOf).getD .unknown)

def step (s : BarrierSession) : BarrierStep → BarrierSession × BarrierResult
  | .close sender hangMs => s.close sender hangMs
  | .spawnClose name sender hangMs => (s.spawnClose name sender hangMs, .done)
  | .sleep ms => ((s.pass ms).poll, .done)
  | .finished name =>
    let s := s.poll
    match s.find? name with
    | none => (s, .unknown)
    | some c => (s, .finished c.result.isSome)
  | .join name => s.join name
  | .tally => (s, .tally (.ofReports s.reports.reverse))

def answers (s : BarrierSession) :
    List BarrierStep → BarrierSession × List BarrierAnswer
  | [] => (s, [])
  | step :: rest =>
    let (s, result) := s.step step
    let answer : BarrierAnswer :=
      ⟨result, s.barrier.pending, s.barrier.isClosed, s.time⟩
    let (s, answers) := s.answers rest
    (s, answer :: answers)

end BarrierSession

end MergeOnWrite
