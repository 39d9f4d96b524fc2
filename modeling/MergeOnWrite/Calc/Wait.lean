/-
Waits for a token to have no unfinished task.

A wait begins to listen before it looks, so that nothing it should see
happens in between. Where it sees unfinished tasks it sleeps, unless it was
told something since it listens, and begins again when it is told. Whoever
finishes the last unfinished task of a token tells those that listen to the
token, after others came in between, who may have offered more. Where a
wait sees no unfinished task it reads the status of the token, which is
what it returns.
-/
import MergeOnWrite.Calc.Executor

namespace MergeOnWrite

/-- Where a wait is. -/
inductive WaitStage where
  /-- Called, or told to look again. -/
  | begun
  /-- Listens and has not looked. -/
  | listening (told : Bool)
  | asleep
  /-- Saw no unfinished task. -/
  | sawIdle
  | returned (status : Except CalcError Unit)

/-- A wait for a token. -/
structure Wait where
  token : Nat
  stage : WaitStage := .begun

namespace Wait

/-- Tells a wait that its token became idle, which only who listens
hears. -/
def hear (w : Wait) : Wait :=
  match w.stage with
  | .listening _ => { w with stage := .listening true }
  | .asleep => { w with stage := .begun }
  | .begun | .sawIdle | .returned _ => w

/-- Lets a wait go on by one step, if it can. -/
def advance (e : Executor) (w : Wait) : Wait :=
  match w.stage with
  | .begun => { w with stage := .listening false }
  | .listening told =>
    if e.isIdle w.token then { w with stage := .sawIdle }
    else if told then { w with stage := .begun }
    else { w with stage := .asleep }
  | .sawIdle => { w with stage := .returned (e.status w.token) }
  | .asleep | .returned _ => w

end Wait

/-- The tokens that became idle when one executor became another. -/
def Executor.newlyIdle (before after : Executor) : List Nat :=
  (List.range after.tokens.length).filter fun token =>
    after.isIdle token && !before.isIdle token

/-- An executor, and the waits for its tokens in the order in which they
were called. -/
structure Attended where
  executor : Executor
  waits : List Wait := []
  /-- The tokens that became idle and whose waits are to be told so. -/
  untold : List Nat := []

namespace Attended

/-- A step of anyone who works with the executor or waits for it. -/
inductive Step where
  | executor (step : Executor.Step)
  | wait (token : Nat)
  | goOn (wait : Nat)
  /-- Tells the waits for a token that it became idle. -/
  | tell (token : Nat)

def step (a : Attended) : Step → Attended
  | .executor step =>
    let executor := a.executor.step step
    { a with
      executor
      untold := a.untold ++ a.executor.newlyIdle executor }
  | .wait token => { a with waits := a.waits ++ [{ token }] }
  | .goOn wait => { a with waits := a.waits.modify wait (·.advance a.executor) }
  | .tell token =>
    if token ∈ a.untold then
      { a with
        waits := a.waits.map fun w => if w.token = token then w.hear else w
        untold := a.untold.erase token }
    else a

/-- Tells the waits whatever they are to be told. -/
def tellAll (a : Attended) : Attended :=
  a.untold.foldl (fun a token => a.step (.tell token)) a

end Attended

end MergeOnWrite
