/-
How many tasks are anywhere at once.

A task past its lane holds a permit of the lane, and a task at work holds one
of the pool as well: the stages tell who holds what. The permits of each
desk are accounted for in every state, so whoever is past it counts against
the permits it began with, however tasks succeed, fail or are given up, and
whether the desk is closed by then or not.

# Main statements

- `caps_kept`: in every run, the tasks past each lane and those at work are
  no more than there are permits, and what is free and what is held add up.
-/
import MergeOnWrite.Proofs.Calc.Accounts

namespace MergeOnWrite

namespace Stage

variable {stage : Stage}

/-- True of a task from when it has a permit of its lane until it gives it
back. -/
def isPastLane : Stage → Bool
  | .laneHeld | .poolQueued | .poolGranted | .poolHeld | .calculating
  | .calculated _ | .ending .both _ | .ending .lane _ => true
  | _ => false

/-- True of a task from when it has a permit of the pool until its marks are
merged. -/
def isAtWork : Stage → Bool
  | .poolHeld | .calculating | .calculated _ => true
  | _ => false

theorem holding_of_isPastLane (h : stage.isPastLane = true) :
    stage.laneStanding = .holding := by
  cases stage with
  | ending held result =>
      cases held with
      | both | lane => rfl
      | none => cases h
  | laneHeld | poolQueued | poolGranted | poolHeld | calculating | calculated =>
      rfl
  | _ => cases h

theorem holding_of_isAtWork (h : stage.isAtWork = true) :
    stage.poolStanding = .holding := by
  cases stage with
  | poolHeld | calculating | calculated => rfl
  | _ => cases h

end Stage

namespace Executor

variable {e : Executor} {k : Nat}

/-- How many tasks hold a permit of a lane. -/
def heldOfLane (e : Executor) (k : Nat) : Nat :=
  (e.laneStandings k).count .holding

/-- How many tasks hold a permit of the pool. -/
def heldOfPool (e : Executor) : Nat := e.poolStandings.count .holding

/-- True when no more tasks are anywhere than there are permits, and no permit
is lost or made. -/
structure Capped (e : Executor) (config : WorkerConfig) : Prop where
  /-- Also of tokens that are not open. -/
  lanes : ∀ k, (e.tasks.countP fun t => t.token = k ∧ t.stage.isPastLane)
    ≤ config.tokenConcurrency.toNat
  pool : e.tasks.countP (·.stage.isAtWork) ≤ config.threads.toNat
  lanePermits : ∀ (k : Nat) (token : Token), e.tokens[k]? = some token →
    token.lane.free + e.heldOfLane k = config.tokenConcurrency.toNat
  poolPermits : e.pool.free + e.heldOfPool = config.threads.toNat

/-- Who is past a lane holds a permit of it. -/
theorem countP_isPastLane_le (e : Executor) (k : Nat) :
    (e.tasks.countP fun t => t.token = k ∧ t.stage.isPastLane)
      ≤ e.heldOfLane k := by
  rw [heldOfLane, laneStandings, List.count_eq_countP, List.countP_map]
  refine List.countP_mono_left fun t _ h => ?_
  obtain ⟨hk, hpast⟩ := of_decide_eq_true h
  simp [hk, Stage.holding_of_isPastLane hpast]

/-- Who is at work holds a permit of the pool. -/
theorem countP_isAtWork_le (e : Executor) :
    e.tasks.countP (·.stage.isAtWork) ≤ e.heldOfPool := by
  rw [heldOfPool, poolStandings, List.count_eq_countP, List.countP_map]
  refine List.countP_mono_left fun t _ hwork => ?_
  simp [Stage.holding_of_isAtWork hwork]

/-- Nobody is past the lane of a token that is not open. -/
theorem Balanced.countP_of_unopened (h : e.Balanced)
    (htoken : e.tokens[k]? = none) :
    (e.tasks.countP fun t => t.token = k ∧ t.stage.isPastLane) = 0 := by
  refine List.countP_eq_zero.2 fun t ht hcounts => ?_
  obtain ⟨rfl, hpast⟩ := of_decide_eq_true hcounts
  obtain ⟨id, hid⟩ := List.getElem?_of_mem ht
  exact absurd hpast (by rw [h.unopened id t hid htoken]; decide)

theorem Balanced.capped (h : e.Balanced) : e.Capped e.config where
  lanes k := by
    cases htoken : e.tokens[k]? with
    | none => exact h.countP_of_unopened htoken ▸ Nat.zero_le _
    | some token =>
        have hsum := (h.lanes k token.lane (by rw [lane?, htoken]; rfl)).sum
        exact Nat.le_trans (e.countP_isPastLane_le k) (Nat.le.intro
          ((Nat.add_comm _ _).trans hsum))
  pool := Nat.le_trans e.countP_isAtWork_le
    (Nat.le.intro ((Nat.add_comm _ _).trans h.pool.sum))
  lanePermits k token htoken :=
    (h.lanes k token.lane (by rw [lane?, htoken]; rfl)).sum
  poolPermits := h.pool.sum

end Executor

/-- The caps are kept. In every state that any steps lead to, whoever takes
them, no token has more tasks past its lane than it has permits, no more
tasks are at work than the pool has permits, and the free permits of the pool
and of each lane add up with those that are held. -/
theorem caps_kept {config : WorkerConfig} {e : Executor}
    (hnew : Executor.new config = .ok e)
    (bitmaps : SortedMap String DeleteBitmap) (steps : List Executor.Step) :
    let start : ExecutorRun := { executor := { e with bitmaps } }
    (start.after steps).executor.Capped config := by
  intro start
  have hstart : start.executor.Balanced := Executor.balanced_new hnew bitmaps
  obtain ⟨hbalanced, hconfig⟩ := ExecutorRun.balanced_after hstart steps
  have hsame : (start.after steps).executor.config = config := by
    rw [hconfig]
    exact congrArg Executor.config (Executor.eq_of_new hnew)
  exact hsame ▸ hbalanced.capped

/-- Of two tasks of one token and one of another, with a single permit each,
one calculates, one waits for the lane and one for the pool. -/
def crowd : List Executor.Step :=
  let offer (token : Nat) (segment : SegmentId) : Executor.Step :=
    .offer token (.intra ⟨⟨1⟩, ⟨"new"⟩, [segment]⟩) "marks"
  [.openToken, .openToken, offer 0 ⟨0⟩, offer 0 ⟨1⟩, offer 1 ⟨0⟩]
    ++ .replicate 7 (.advance 0) ++ .replicate 5 (.advance 1)
    ++ .replicate 6 (.advance 2)

/-- The first token is cancelled and the worker shut down. -/
def stopAll : List Executor.Step :=
  .replicate 3 (.cancel 0) ++ .replicate 2 .shutDown

/-- The first task keeps the single permits, whatever is stopped. -/
theorem caps_kept_crowd :
    let start : ExecutorRun :=
      { executor := { config := ⟨1, 1⟩, pool := { free := 1 } } }
    let run := start.after (crowd ++ stopAll)
    Executor.new ⟨1, 1⟩ = .ok start.executor
      ∧ run.executor.tasks.countP (·.stage.isAtWork) = 1
      ∧ run.executor.Capped ⟨1, 1⟩ := by
  have hnew : Executor.new ⟨1, 1⟩
      = .ok { config := ⟨1, 1⟩, pool := { free := 1 } } := rfl
  exact ⟨rfl, rfl, caps_kept hnew ∅ (crowd ++ stopAll)⟩

end MergeOnWrite
