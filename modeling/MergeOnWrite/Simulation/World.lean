/-
The simulated surroundings of a service: its store, clocks and
interference.

Two services work on one store. The service under observation sees it
through latency, scripted failures and the rival: the rival is a second
service that strikes right after a begin or right before a commit, works
on the store itself, and waits for nothing. Virtual time, by which
transactions age and pauses pass, is separate from the wall clock, by
which leases end.

The session in the foreground and the replays in the background take
turns (`World.turn`). Who runs goes on until it waits. When nobody can go
on, those go on who gave way; only when there are none of those either,
virtual time moves to the end of the next wait. A wait ends at the end of
a turn, never within it.
-/
import MergeOnWrite.Service.Front
import MergeOnWrite.Simulation.Clock
import MergeOnWrite.Simulation.Course
import MergeOnWrite.Store.Scripted

namespace MergeOnWrite

/-- A request with its response. -/
structure CallAnswer where
  call : Call
  response : Response call.Payload

/-- The answer to a step of the rival. -/
inductive RivalAnswer where
  | response (answer : CallAnswer)
  | refused (failure : Failure)
  | done

-- ================================================== state

/-- A replay in the background: its transaction, and what is left of its
course. -/
structure Background where
  txn : Option Txn
  course : Course Unit

/-- Who may wait: the foreground (`none`) or a replay. -/
abbrev Waiter := Option Background

/-- The surroundings of a service. -/
structure World where
  config : ServiceConfig
  backing : ScriptedStore
  pace : Pace := {}
  jitterMs : UInt64 := 0
  clock : SimulatedClock := {}
  /-- Virtual time in milliseconds. -/
  time : Nat := 0
  /-- The virtual time at the end of the last turn: waits until then have
  ended. -/
  settled : Nat := 0
  /-- What the rival does after the next begins. -/
  afterStart : List (List RivalStep) := []
  beforeCommit : List (List RivalStep) := []
  /-- How often the rival may move virtual time at most, in all strikes
  together. -/
  moves : Nat := 0
  /-- What the next reads fail with, where they fail. -/
  reads : List (Option StoreCode) := []
  allowList : AllowList := {}
  rivalAllowList : AllowList := {}
  /-- The pauses that nobody asked for yet, latest first. -/
  pauses : List UInt64 := []
  /-- What the observed service reported, latest first. -/
  reports : List Report := []
  /-- What both services reported, latest first. -/
  allReports : List Report := []
  /-- The answers of the rival that nobody asked for yet, latest first. -/
  rivalAnswers : List RivalAnswer := []
  /-- The replays that can go on, in their order. -/
  ready : List Background := []
  /-- Who waits, and until when, in the order in which the waits began. -/
  waits : List (Nat × Waiter) := []
  /-- Who gave way, latest first. -/
  givenWay : List Waiter := []

namespace World

-- ================================================== the rival

/-- Answers a question of the rival, on the store itself. -/
def answerRival (state : World × Option Txn) :
    (q : Question) → (World × Option Txn) × q.Answer
  | .now => (state, state.1.clock.now)
  | .route i => (state, state.1.rivalAllowList.versionFor i)
  | .start =>
    ((state.1, some (.open state.1.backing.store state.1.time)), .ok ())
  | .get key =>
    match state with
    | (w, some t) =>
      match t.unlessTooOld w.backing.maxAge w.time (.ok (t.get key)) with
      | .ok (value, t) => ((w, some t), .ok value)
      | .error code => ((w, some t), .error code)
    | (w, none) => ((w, none), .error .other)
  | .scan stem =>
    match state with
    | (w, some t) =>
      match t.unlessTooOld w.backing.maxAge w.time (.ok (t.scan stem)) with
      | .ok (found, t) => ((w, some t), .ok found)
      | .error code => ((w, some t), .error code)
    | (w, none) => ((w, none), .error .other)
  | .put key value => ((state.1, state.2.map (·.put key value)), ())
  | .remove key => ((state.1, state.2.map (·.remove key)), ())
  | .commit =>
    match state with
    | (w, some t) =>
      match w.backing.grant t w.time with
      | .ok store => (({ w with backing.store := store }, none), .ok ())
      | .error code => ((w, none), .error code)
    | (w, none) => ((w, none), .error .other)
  | .report event =>
    (({ state.1 with allReports := event :: state.1.allReports }, state.2), ())
  | q => (state, q.idle)

def noteRival (w : World) (answer : RivalAnswer) : World :=
  { w with rivalAnswers := answer :: w.rivalAnswers }

/-- Carries out a step of the rival, apart from its moving of virtual
time. -/
def rivalStep (w : World) : RivalStep → World
  | .call call =>
    let ((w, _), response) :=
      (call.attempt w.config.lock).run answerRival (w, none)
    w.noteRival (.response ⟨call, response⟩)
  | .refused failure => w.noteRival (.refused failure)
  | .write key value =>
    { w with backing.store := w.backing.store.write key value }.noteRival .done
  | .advance _ => w.noteRival .done
  | .advanceClock ms =>
    { w with clock := w.clock.advance ms }.noteRival .done

def takeStrike (w : World) : Moment → World × List RivalStep
  | .afterStart =>
    ({ w with afterStart := w.afterStart.tail }, w.afterStart.headD [])
  | .beforeCommit =>
    ({ w with beforeCommit := w.beforeCommit.tail }, w.beforeCommit.headD [])

def movesTime : RivalStep → Bool
  | .advance _ => true
  | _ => false

/-- Plans strikes after those that are planned already. -/
def plan (w : World) (moment : Moment) (strikes : List (List RivalStep)) :
    World :=
  let w := { w with moves := w.moves + strikes.flatten.countP movesTime }
  match moment with
  | .afterStart => { w with afterStart := w.afterStart ++ strikes }
  | .beforeCommit => { w with beforeCommit := w.beforeCommit ++ strikes }

-- ================================================== deeds

/-- The operation that a question asks for. -/
def operate (w : World) (txn : Option Txn) :
    (q : Question) → World × Option Txn × q.Answer
  | .now => (w, txn, w.clock.now)
  | .route i => (w, txn, w.allowList.versionFor i)
  | .start =>
    match w.backing.start w.time with
    | (backing, .ok t) => ({ w with backing }, some t, .ok ())
    | (backing, .error code) => ({ w with backing }, none, .error code)
  | .get key =>
    match txn with
    | none => (w, none, .error .other)
    | some t =>
      match w.backing.get t key w.time with
      | (backing, .ok (value, t)) => ({ w with backing }, some t, .ok value)
      | (backing, .error code) => ({ w with backing }, some t, .error code)
  | .scan stem =>
    match txn with
    | none => (w, none, .error .other)
    | some t =>
      match w.backing.scan t stem w.time with
      | (backing, .ok (found, t)) => ({ w with backing }, some t, .ok found)
      | (backing, .error code) => ({ w with backing }, some t, .error code)
  | .put key value =>
    match txn with
    | none => (w, none, ())
    | some t =>
      let (backing, t) := w.backing.put t key value
      ({ w with backing }, some t, ())
  | .remove key =>
    match txn with
    | none => (w, none, ())
    | some t =>
      let (backing, t) := w.backing.remove t key
      ({ w with backing }, some t, ())
  | .commit =>
    match txn with
    | none => (w, none, .error .other)
    | some t =>
      let (backing, result) := w.backing.commit t w.time
      ({ w with backing }, none, result)
  | .report event =>
    ({ w with
      reports := event :: w.reports
      allReports := event :: w.allReports }, txn, ())
  | .jitter => (w, txn, w.jitterMs)
  | .pause ms => ({ w with pauses := ms :: w.pauses }, txn, ())
  | .chance probability => (w, txn, 1.0 ≤ probability)
  | .spread _ => (w, txn, 0)
  | .replay call delayMs =>
    let attempt := Course.ofScript w.pace (call.attempt w.config.lock)
    let course := (Course.deed (.sleep delayMs)).bind fun _ =>
      attempt.bind fun _ => .done ()
    ({ w with ready := w.ready ++ [⟨none, course⟩] }, txn, ())

/-- Does a deed that is no wait. -/
def perform (w : World) (txn : Option Txn) :
    (d : Deed) → World × Option Txn × d.Answer
  | .operation q => w.operate txn q
  | .readFault =>
    ({ w with reads := w.reads.tail }, txn, w.reads.head?.join)
  | .strike moment =>
    let (w, steps) := w.takeStrike moment
    (w, txn, steps)
  | .rival step => (w.rivalStep step, txn, ())
  | .move ms => ({ w with time := w.time + ms }, txn, ())
  | .giveWay | .sleep _ => (w, txn, ())

-- ================================================== the background

def addWait (w : World) (ms : Nat) (waiter : Waiter) : World :=
  { w with waits := w.waits ++ [(w.time + ms, waiter)] }

/-- True when a wait of some milliseconds has ended as soon as it
begins. -/
def isOver (w : World) (ms : Nat) : Bool := w.time + ms ≤ w.settled

def addGivenWay (w : World) (waiter : Waiter) : World :=
  { w with givenWay := waiter :: w.givenWay }

/-- Runs a replay until it waits or is done. -/
def runBackground (w : World) (txn : Option Txn) : Course Unit → World
  | .done _ => w
  | .ask (.sleep ms) next =>
    if w.isOver ms then w.runBackground txn (next ())
    else w.addWait ms (some ⟨txn, next ()⟩)
  | .ask .giveWay next => w.addGivenWay (some ⟨txn, next ()⟩)
  | .ask d next =>
    let (w, txn, x) := w.perform txn d
    w.runBackground txn (next x)

/-- Lets all replays go on that can. -/
def runReady (w : World) : World :=
  w.ready.foldl (fun w b => w.runBackground b.txn b.course)
    { w with ready := [] }

/-- Where virtual time moves when nobody can go on: nowhere if somebody
gave way, and else to the end of the next wait. -/
def nextTime (w : World) : Nat :=
  if w.givenWay.isEmpty then
    max w.time ((w.waits.map Prod.fst).min?.getD w.time)
  else w.time

/-- Ends the waits that are over, in the order in which they end, and then
lets those go on who gave way, the latest first. Tells whether the
foreground is among them. -/
def wake (w : World) : World × Bool :=
  let due := w.waits.filter fun wait => wait.1 ≤ w.time
  let woken := (due.mergeSort fun a b => a.1 ≤ b.1).map Prod.snd ++ w.givenWay
  ({ w with
    settled := w.time
    ready := w.ready ++ woken.filterMap id
    waits := w.waits.filter fun wait => w.time < wait.1
    givenWay := [] }, woken.any Option.isNone)

/-- One turn: the background goes on until nobody there can, and then
waits end. Tells whether the foreground goes on. -/
def turn (w : World) : World × Bool :=
  let w := w.runReady
  { w with time := w.nextTime }.wake

-- ================================================== the foreground

/-- Lets turns pass until the foreground goes on. `fuel` bounds their
number. -/
def await : (fuel : Nat) → World → World
  | 0, w => w
  | fuel + 1, w =>
    match w.turn with
    | (w, true) => w
    | (w, false) => await fuel w

/-- Waits some virtual time. A turn before the end moves virtual time on,
unless the rival moved it and gave way, so the milliseconds and the moves
of the rival bound the number of turns. -/
def sleep (w : World) (ms : Nat) : World :=
  if w.isOver ms then w else await (ms + w.moves + 2) (w.addWait ms none)

/-- Lets the background go on that can. -/
def giveWay (w : World) : World := (w.addGivenWay none).turn.1

/-- Lets the background go on until all there wait for a later time or
are done. Who goes on again at the same time has waited for a move of the
rival, so the moves bound the number of turns. -/
def settle (w : World) : World := Nat.repeat giveWay (w.moves + 2) w

/-- Moves virtual time from outside, and lets the background go on. -/
def advance (w : World) (ms : Nat) : World :=
  { w with time := w.time + ms }.giveWay

def runForeground {α : Type} (w : World) (txn : Option Txn) :
    Course α → World × α
  | .done a => (w, a)
  | .ask (.sleep ms) next => (w.sleep ms).runForeground txn (next ())
  | .ask .giveWay next => w.giveWay.runForeground txn (next ())
  | .ask d next =>
    let (w, txn, x) := w.perform txn d
    w.runForeground txn (next x)

end World

end MergeOnWrite
