/-
Cancelling and shutting down give up what has not begun, and nothing else.

# The argument

A task asks three times whether to go on: for a permit of its lane, for one
of the pool, and, once it has that, whether its token was cancelled. A task
that was not past the last question when the flag of its token went up, or
had no permit of the pool when the pool closed, finds the answer against it
at one of the three, and none of the stages in between is that of
calculating (`doomed_step`). It never merges, as only a result that is `Ok`
does. A task that calculates is not asked again, so it ends as its
calculation does (`hasStarted_after` and the fates of tasks); one between
the permit of the pool and the flag is asked about its own token only
(`spared_step`).

Who finished holds no permits. So the lane of a token is whole again when
none of its tasks is pending, and the pool when no token has any.

# Main statements

- `stopping_exact`: what becomes of every task when tokens are cancelled and
  the worker is shut down, in every run.
-/
import MergeOnWrite.Proofs.Calc.Caps
import MergeOnWrite.Proofs.Calc.Fates

namespace MergeOnWrite

-- ================================================== stages

namespace Stage

variable {stage stage' : Stage}

/-- True of a task that has not checked whether its token was cancelled since
it got a permit of the pool. -/
def isBeforeCheck : Stage → Bool
  | .offered | .statusChecked | .cancelChecked | .shutDownChecked | .accepted
  | .laneQueued | .laneGranted | .laneHeld | .poolQueued | .poolGranted
  | .poolHeld => true
  | _ => false

/-- True of a task that has no permit of the pool yet. -/
def isBeforePool : Stage → Bool
  | .poolHeld => false
  | stage => stage.isBeforeCheck

theorem isBeforeCheck_of_isBeforePool (h : stage.isBeforePool = true) :
    stage.isBeforeCheck = true := by
  cases stage <;> first | rfl | cases h

theorem isBeforePool_of_ne (h : stage.isBeforeCheck = true)
    (hne : stage ≠ .poolHeld) : stage.isBeforePool = true := by
  cases stage <;> first | rfl | exact absurd rfl hne | cases h

/-- A task that has not calculated has not asked the last question yet, was
refused, or calculates. -/
theorem isUncalculated_iff : stage.phase.isUncalculated = true
    ↔ stage.isBeforeCheck = true ∨ (∃ error, stage = .rejected error)
      ∨ stage = .calculating := by
  cases stage <;> simp [phase, Phase.isUncalculated, isBeforeCheck]

end Stage

/-- The results of tasks that were given up. -/
def IsAbandoned (result : Except CalcError Unit) : Prop :=
  result = .error .cancelled ∨ result = .error .shutDown

theorem endOf_of_isAbandoned {result : Except CalcError Unit}
    (h : IsAbandoned result) : endOf result = .abandoned := by
  rcases h with rfl | rfl <;> rfl

namespace Executor

variable {e : Executor} {id k : Nat} {t : Job} {token : Token}
  {stage stage' : Stage}

theorem isBeforeCheck_granted (h : Granted stage stage') :
    stage'.isBeforeCheck = stage.isBeforeCheck := by
  cases h <;> rfl

theorem isBeforePool_granted (h : Granted stage stage') :
    stage'.isBeforePool = stage.isBeforePool := by
  cases h <;> rfl

/-- A task that goes to calculate has found the flag down. -/
theorem calculating_of_nextStage
    (h : e.nextStage token stage = .calculating) :
    stage = .calculating ∨ stage = .poolHeld ∧ token.cancel = .no := by
  cases stage with
  | calculating => exact .inl rfl
  | poolHeld =>
      simp only [nextStage] at h
      split at h
      · exact .inr ⟨rfl, ‹_›⟩
      · cases h
  | offered => cases hs : token.status <;> simp [nextStage, checkOffer, hs] at h
  | calculated result => cases result <;> cases h
  | ending held result => cases held <;> cases h
  | shutDownChecked | rejected | noted | delivered | finished => cases h
  | statusChecked | cancelChecked | laneQueued | laneGranted | poolQueued
  | poolGranted =>
      simp only [nextStage, checkOffer] at h
      split at h <;> cases h
  | accepted | laneHeld =>
      simp only [nextStage] at h
      split at h
      · cases h
      · split at h <;> cases h

/-- A task that gets a permit of the pool has found it open. -/
theorem open_of_nextStage (h : e.nextStage token stage = .poolHeld) :
    e.pool.closed = false := by
  cases stage with
  | laneHeld =>
      simp only [nextStage] at h
      split at h
      · cases h
      · simpa using ‹¬ e.pool.closed = true›
  | poolGranted =>
      simp only [nextStage] at h
      split at h
      · cases h
      · simpa using ‹¬ e.pool.closed = true›
  | offered => cases hs : token.status <;> simp [nextStage, checkOffer, hs] at h
  | calculated result => cases result <;> cases h
  | ending held result => cases held <;> cases h
  | shutDownChecked | calculating | rejected | noted | delivered | finished =>
      cases h
  | statusChecked | cancelChecked | laneQueued | laneGranted | poolQueued
  | poolHeld =>
      simp only [nextStage, checkOffer] at h
      split at h <;> cases h
  | accepted =>
      simp only [nextStage] at h
      split at h
      · cases h
      · split at h <;> cases h

end Executor

namespace ExecutorRun

variable {r now : ExecutorRun} {id k : Nat} {t : Job} {stage : Stage}
  {bitmaps : SortedMap String DeleteBitmap}
  {result : Except CalcError Unit}

-- ================================================== what it is to be given up

/-- True when the calculator was called for a task. -/
def hasStarted (r : ExecutorRun) (id : Nat) : Bool :=
  r.executor.isCalculating id || (r.ledger.computed.lookup id).isSome

/-- True of a result that is what the calculation came to; if that was marks,
they are merged into the destination. -/
def EndsAsComputed (r : ExecutorRun) (id : Nat) (destination : String)
    (result : Except CalcError Unit) : Prop :=
  ∃ computed, r.ledger.computed.lookup id = some computed
    ∧ result = computed.map (fun _ => ())
    ∧ ∀ marks, computed = .ok marks → id ∈ r.ledger.merged
      ∧ marks.IsPartOf (r.executor.bitmap destination)

/-- The runs that a schedule leads to. -/
def along (r : ExecutorRun) (schedule : Nat → Executor.Step) (n : Nat) :
    ExecutorRun :=
  r.after ((List.range n).map schedule)

/-- True when a task delivers one outcome on every fair schedule, and with a
result of a kind. -/
def Delivers (now : ExecutorRun) (id : Nat) (subject : SegmentRef)
    (q : ExecutorRun → Except CalcError Unit → Prop) : Prop :=
  ∀ schedule, now.executor.IsFair schedule → ∃ n result, ∀ m, n ≤ m →
    (now.along schedule m).executor.outcomes.filter (·.1 = id)
        = [(id, ⟨subject, result⟩)]
      ∧ q (now.along schedule m) result

/-- What it is for a task to be given up, whatever anyone does from now on. -/
structure GivesUp (now : ExecutorRun) (id : Nat) (t : Job) : Prop where
  uncalled : ∀ steps, (now.after steps).hasStarted id = false
  unmerged : ∀ steps, id ∉ (now.after steps).ledger.merged
    ∧ ((now.after steps).executor.advance id).bitmaps
      = (now.after steps).executor.bitmaps
  result : ∀ steps result, (now.after steps).executor.certain? id = some result →
    IsAbandoned result ∧ endOf result = .abandoned
  outcome : ∀ steps t', (now.after steps).executor.tasks[id]? = some t' →
    t'.stage.phase.isAccepted = true →
      (now.after steps).Delivers id t.work.subject fun _ => IsAbandoned

/-- What it is for a task to end as its calculation does, whatever anyone does
from now on. -/
structure RunsOn (now : ExecutorRun) (id : Nat) (t : Job) : Prop where
  result : ∀ steps result, (now.after steps).executor.certain? id = some result →
    (now.after steps).EndsAsComputed id t.destination result
  outcome : now.Delivers id t.work.subject fun later =>
    later.EndsAsComputed id t.destination

end ExecutorRun

/-- True of a task that comes too late: its token was cancelled before it
checked that, or the pool closed before it had a permit. -/
def Executor.IsLate (e : Executor) (t : Job) : Prop :=
  e.IsCancelled t.token ∧ t.stage.isBeforeCheck = true
    ∨ e.pool.closed = true ∧ t.stage.isBeforePool = true

/-- True of a task that comes too late, was refused, or was given up. -/
def Executor.IsDoomed (e : Executor) (t : Job) : Prop :=
  e.IsLate t ∨ (∃ error, t.stage = .rejected error)
    ∨ ∃ result, t.stage.phase.result? = some result ∧ IsAbandoned result

namespace ExecutorRun

variable {r now : ExecutorRun} {id k : Nat} {t : Job} {stage : Stage}
  {bitmaps : SortedMap String DeleteBitmap}
  {result : Except CalcError Unit}

/-- What each step keeps true of a task stays true of it. -/
theorem task_after {p : ExecutorRun → Job → Prop}
    (hstep : ∀ {r : ExecutorRun} {t : Job} {stage : Stage}
      {step : Executor.Step}, p r t → r.executor.Balanced →
      r.executor.tasks[id]? = some t →
      (r.step step).executor.tasks[id]? = some { t with stage } →
      r.Follows id t (r.step step) stage → p (r.step step) { t with stage })
    (h : p r t) (hb : r.executor.Balanced)
    (ht : r.executor.tasks[id]? = some t) (steps : List Executor.Step) :
    ∃ stage, (r.after steps).executor.tasks[id]? = some { t with stage }
      ∧ p (r.after steps) { t with stage } := by
  refine after_of_step (p := fun r => ∃ stage,
    r.executor.tasks[id]? = some { t with stage } ∧ p r { t with stage })
    ?_ steps hb ⟨t.stage, ht, h⟩
  rintro r step hb ⟨stage, ht, h⟩
  obtain ⟨stage', ht', hfollows⟩ := follows_step hb.orderly ht step
  exact ⟨stage', ht', hstep (t := { t with stage }) h hb ht ht' hfollows⟩

-- ================================================== what comes too late

theorem isBeforeCheck_of_isLate (h : r.executor.IsLate t) :
    t.stage.isBeforeCheck = true :=
  h.elim (·.2) fun h => Stage.isBeforeCheck_of_isBeforePool h.2

theorem ne_calculating_of_isDoomed (h : r.executor.IsDoomed t) :
    t.stage ≠ .calculating := by
  rintro hstage
  rcases h with hlate | ⟨error, hrejected⟩ | ⟨result, hresult, -⟩
  · have hbefore := isBeforeCheck_of_isLate hlate
    rw [hstage] at hbefore
    cases hbefore
  · cases hstage.symm.trans hrejected
  · rw [hstage] at hresult
    cases hresult

/-- The turn of a task that comes too late. -/
theorem isDoomed_turn {token : Token} (h : r.executor.IsLate t)
    (hb : r.executor.Balanced) (step : Executor.Step)
    (htoken : r.executor.tokens[t.token]? = some token) :
    (r.step step).executor.IsDoomed
      { t with stage := r.executor.nextStage token t.stage } := by
  have hbefore := isBeforeCheck_of_isLate h
  rcases Executor.phase_nextStage r.executor token
      (Stage.isUncalculated_iff.2 (.inl hbefore)) with
    hstill | ⟨hphase, -⟩ | ⟨hphase, -⟩
  · rcases Stage.isUncalculated_iff.1 hstill with
      hbefore' | hrejected | hcalculating
    · refine .inl ?_
      rcases h with ⟨hcancelled, -⟩ | ⟨hclosed, -⟩
      · exact .inl ⟨hcancelled.step step, hbefore'⟩
      · refine .inr ⟨closed_step hb hclosed step,
          Stage.isBeforePool_of_ne hbefore' fun hheld => ?_⟩
        rw [Executor.open_of_nextStage hheld] at hclosed
        cases hclosed
    · exact .inr (.inl hrejected)
    · -- it would have found the flag down, with a permit of the pool
      rcases Executor.calculating_of_nextStage hcalculating with
        hstage | ⟨hstage, hflag⟩
      · rw [hstage] at hbefore
        cases hbefore
      · rcases h with ⟨⟨token', htoken', hcancel⟩, -⟩ | ⟨-, hpool⟩
        · obtain rfl := Option.some.inj (htoken.symm.trans htoken')
          exact absurd hflag hcancel
        · rw [hstage] at hpool
          cases hpool
  · exact .inr (.inr ⟨_, congrArg Phase.result? hphase, .inl rfl⟩)
  · exact .inr (.inr ⟨_, congrArg Phase.result? hphase, .inr rfl⟩)

theorem doomed_step (h : r.executor.IsDoomed t) (hb : r.executor.Balanced)
    {step : Executor.Step} (hfollows : r.Follows id t (r.step step) stage) :
    (r.step step).executor.IsDoomed { t with stage }
      ∧ (r.step step).ledger.computed.lookup id
        = r.ledger.computed.lookup id := by
  cases hfollows with
  | ended result hstage => exact absurd hstage (ne_calculating_of_isDoomed h)
  | turn htoken hcomputed =>
      refine ⟨?_, hcomputed⟩
      rcases h with hlate | ⟨error, hrejected⟩ | ⟨result, hresult, hgiven⟩
      · exact isDoomed_turn hlate hb step htoken
      · refine .inr (.inl ⟨error, ?_⟩)
        show r.executor.nextStage _ t.stage = _
        rw [hrejected]
        rfl
      · exact .inr (.inr
          ⟨result, Executor.result?_nextStage _ _ hresult, hgiven⟩)
  | granted hgranted hcomputed =>
      refine ⟨?_, hcomputed⟩
      rcases h with hlate | ⟨error, hrejected⟩ | ⟨result, hresult, hgiven⟩
      · refine .inl (hlate.imp ?_ ?_)
        · exact fun h => ⟨h.1.step step,
            (Executor.isBeforeCheck_granted hgranted).trans h.2⟩
        · exact fun h => ⟨closed_step hb h.1 step,
            (Executor.isBeforePool_granted hgranted).trans h.2⟩
      · refine .inr (.inl ⟨error, ?_⟩)
        rw [hrejected] at hgranted
        cases hgranted
        rfl
      · refine .inr (.inr ⟨result, ?_, hgiven⟩)
        exact (congrArg Phase.result? (Executor.phase_granted hgranted)).trans
          hresult

/-- A task that comes too late stays where it cannot calculate. -/
theorem doomed_after (h : r.executor.IsDoomed t) (hb : r.executor.Balanced)
    (ht : r.executor.tasks[id]? = some t)
    (hnone : r.ledger.computed.lookup id = none)
    (steps : List Executor.Step) :
    ∃ stage, (r.after steps).executor.tasks[id]? = some { t with stage }
      ∧ (r.after steps).executor.IsDoomed { t with stage }
      ∧ (r.after steps).ledger.computed.lookup id = none := by
  refine task_after (p := fun r t => r.executor.IsDoomed t
    ∧ r.ledger.computed.lookup id = none) ?_ ⟨h, hnone⟩ hb ht steps
  rintro r t stage step ⟨hdoomed, hnone⟩ hb - - hfollows
  obtain ⟨hdoomed', hcomputed⟩ := doomed_step hdoomed hb hfollows
  exact ⟨hdoomed', hcomputed.trans hnone⟩

theorem result_of_isDoomed (h : r.executor.IsDoomed t)
    (hresult : t.stage.phase.result? = some result) : IsAbandoned result := by
  have huncertain : t.stage.phase.isUncalculated = true → IsAbandoned result :=
    fun hphase => by
      cases hresult.symm.trans (Phase.result?_of_isUncalculated hphase)
  rcases h with hlate | hrejected | ⟨result', hresult', hgiven⟩
  · exact huncertain
      (Stage.isUncalculated_iff.2 (.inl (isBeforeCheck_of_isLate hlate)))
  · exact huncertain (Stage.isUncalculated_iff.2 (.inr (.inl hrejected)))
  · exact Option.some.inj (hresult'.symm.trans hresult) ▸ hgiven

-- ================================================== what has started

/-- A task of which a result is certain does not calculate. -/
theorem not_isCalculating (ht : r.executor.tasks[id]? = some t)
    (hne : t.stage ≠ .calculating) : r.executor.isCalculating id = false := by
  rw [Bool.eq_false_iff]
  exact mt (Executor.isCalculating_iff ht).1 hne

theorem hasStarted_step (h : r.hasStarted id = true)
    (ht : r.executor.tasks[id]? = some t) {step : Executor.Step}
    (ht' : (r.step step).executor.tasks[id]? = some { t with stage })
    (hfollows : r.Follows id t (r.step step) stage) :
    (r.step step).hasStarted id = true := by
  have hcases : t.stage = .calculating
      ∨ (r.ledger.computed.lookup id).isSome = true := by
    rw [← Executor.isCalculating_iff ht]
    simpa [hasStarted] using h
  rw [hasStarted, Bool.or_eq_true]
  cases hfollows with
  | ended result _ hcomputed => exact .inr (by rw [hcomputed]; rfl)
  | turn htoken hcomputed =>
      rcases hcases with hcalc | hsome
      · exact .inl ((Executor.isCalculating_iff ht').2 (by rw [hcalc]; rfl))
      · exact .inr (hcomputed ▸ hsome)
  | granted hgranted hcomputed =>
      rcases hcases with hcalc | hsome
      · rw [hcalc] at hgranted
        cases hgranted
        exact .inl ((Executor.isCalculating_iff ht').2 rfl)
      · exact .inr (hcomputed ▸ hsome)

/-- The calculator that was called was called. -/
theorem hasStarted_after (h : r.hasStarted id = true)
    (hb : r.executor.Balanced) (ht : r.executor.tasks[id]? = some t)
    (steps : List Executor.Step) :
    ∃ stage, (r.after steps).executor.tasks[id]? = some { t with stage }
      ∧ (r.after steps).hasStarted id = true :=
  task_after (p := fun r _ => r.hasStarted id = true)
    (fun h _ ht ht' => hasStarted_step h ht ht') h hb ht steps

/-- What the calculation came to is the result, and marks are merged. -/
theorem endsAsComputed (h : r.Sound bitmaps)
    (ht : r.executor.tasks[id]? = some t)
    {computed : Except CalcError DeleteBitmap}
    (hresult : t.stage.phase.result? = some (computed.map fun _ => ()))
    (hcomputed : r.ledger.computed.lookup id = some computed) :
    r.EndsAsComputed id t.destination (computed.map fun _ => ()) := by
  refine ⟨computed, hcomputed, rfl, fun marks hmarks => ?_⟩
  subst hmarks
  have hmerged : id ∈ r.ledger.merged := (h.agrees ht).merged.2 hresult
  exact ⟨hmerged, h.books.isPartOf (Executor.overview_charge ht) hmerged
    hcomputed⟩

/-- A result that is certain is what the calculation came to, or the task was
given up, for its own token or for the pool. -/
theorem certain_cases (h : r.Fated) (hsound : r.Sound bitmaps)
    (ht : r.executor.tasks[id]? = some t)
    (hresult : t.stage.phase.result? = some result) :
    r.EndsAsComputed id t.destination result
      ∨ r.hasStarted id = false
        ∧ (result = .error .cancelled ∧ r.executor.IsCancelled t.token
          ∨ result = .error .shutDown ∧ r.executor.pool.closed = true) := by
  have hstill : r.ledger.computed.lookup id = none →
      r.hasStarted id = false := fun hnone => by
    rw [hasStarted, hnone, not_isCalculating ht fun hstage => by
      rw [hstage] at hresult
      cases hresult]
    rfl
  cases h.fate id t ht with
  | pending hphase =>
      cases hresult.symm.trans (Phase.result?_of_isUncalculated hphase)
  | calculated computed hphase =>
      rw [hphase] at hresult
      cases hresult
  | ended computed hresult' hcomputed =>
      obtain rfl := Option.some.inj (hresult.symm.trans hresult')
      exact .inl (endsAsComputed hsound ht hresult hcomputed)
  | cancelled hresult' hnone hcancelled =>
      obtain rfl := Option.some.inj (hresult.symm.trans hresult')
      exact .inr ⟨hstill hnone, .inl ⟨rfl, hcancelled⟩⟩
  | shutDown hresult' hnone hclosed =>
      obtain rfl := Option.some.inj (hresult.symm.trans hresult')
      exact .inr ⟨hstill hnone, .inr ⟨rfl, hclosed⟩⟩

-- ================================================== between the two

/-- True of a task that has a permit of the pool, whether it has checked the
flag since or not: if it ended without a calculation, its token is
cancelled. -/
def IsSpared (r : ExecutorRun) (id : Nat) (t : Job) : Prop :=
  t.stage = .poolHeld ∨ r.hasStarted id = true
    ∨ t.stage.phase.result? = some (.error .cancelled)
      ∧ r.executor.IsCancelled t.token

theorem spared_step (h : r.IsSpared id t)
    (ht : r.executor.tasks[id]? = some t) {step : Executor.Step}
    (ht' : (r.step step).executor.tasks[id]? = some { t with stage })
    (hfollows : r.Follows id t (r.step step) stage) :
    (r.step step).IsSpared id { t with stage } := by
  rcases h with hheld | hstarted | ⟨hresult, hcancelled⟩
  · cases hfollows with
    | ended result hstage => cases hheld.symm.trans hstage
    | granted hgranted =>
        rw [hheld] at hgranted
        cases hgranted
        exact .inl rfl
    | @turn token htoken hcomputed =>
        rw [hheld] at ht' ⊢
        by_cases hcancel : token.cancel = .no
        · refine .inr (.inl ?_)
          rw [hasStarted, (Executor.isCalculating_iff ht').2 (if_pos hcancel)]
          rfl
        · refine .inr (.inr ⟨?_, .step ⟨token, htoken, hcancel⟩ step⟩)
          show (r.executor.nextStage token .poolHeld).phase.result? = _
          rw [Executor.nextStage, if_neg hcancel]
          rfl
  · exact .inr (.inl (hasStarted_step hstarted ht ht' hfollows))
  · refine .inr (.inr ⟨?_, hcancelled.step step⟩)
    cases hfollows with
    | ended result hstage =>
        rw [hstage] at hresult
        cases hresult
    | turn htoken => exact Executor.result?_nextStage _ _ hresult
    | granted hgranted =>
        exact (congrArg Phase.result? (Executor.phase_granted hgranted)).trans
          hresult

theorem spared_after (h : r.IsSpared id t) (hb : r.executor.Balanced)
    (ht : r.executor.tasks[id]? = some t) (steps : List Executor.Step) :
    ∃ stage, (r.after steps).executor.tasks[id]? = some { t with stage }
      ∧ (r.after steps).IsSpared id { t with stage } :=
  task_after (p := fun r t => r.IsSpared id t)
    (fun h _ ht ht' => spared_step h ht ht') h hb ht steps

-- ================================================== permits come back

/-- A task of an idle token stands before no desk. -/
theorem apart_of_isIdle (h : r.Sound bitmaps)
    (hidle : r.executor.isIdle t.token = true)
    (ht : r.executor.tasks[id]? = some t) :
    t.stage.laneStanding = .apart ∧ t.stage.poolStanding = .apart := by
  have hfinished := fun haccepted : t.stage.phase.isAccepted = true =>
    h.finished hidle (Executor.overview_charge ht) rfl haccepted
  obtain ⟨token, work, name, stage⟩ := t
  cases stage with
  | offered | statusChecked | cancelChecked | shutDownChecked | rejected
  | finished =>
      exact ⟨rfl, rfl⟩
  | _ =>
      obtain ⟨result, hphase⟩ := hfinished rfl
      cases hphase

/-- The lane of an idle token has all its permits. -/
theorem free_of_isIdle {token : Token} (h : r.Sound bitmaps)
    (hb : r.executor.Balanced) (htoken : r.executor.tokens[k]? = some token)
    (hidle : r.executor.isIdle k = true) :
    token.lane.free = r.executor.config.tokenConcurrency.toNat := by
  have hnone : r.executor.heldOfLane k = 0 := by
    refine List.count_eq_zero.2 fun hmem => ?_
    obtain ⟨t, ht, hstanding⟩ := List.mem_map.1 hmem
    obtain ⟨id, hid⟩ := List.getElem?_of_mem ht
    by_cases hk : t.token = k
    · rw [if_pos hk, (apart_of_isIdle h (hk ▸ hidle) hid).1] at hstanding
      cases hstanding
    · rw [if_neg hk] at hstanding
      cases hstanding
  have hsum := hb.capped.lanePermits k token htoken
  rwa [hnone] at hsum

/-- The pool has all its permits when all tokens are idle. -/
theorem free_of_allIdle (h : r.Sound bitmaps) (hb : r.executor.Balanced)
    (hidle : ∀ k, r.executor.isIdle k = true) :
    r.executor.pool.free = r.executor.config.threads.toNat := by
  have hnone : r.executor.heldOfPool = 0 := by
    refine List.count_eq_zero.2 fun hmem => ?_
    obtain ⟨t, ht, hstanding⟩ := List.mem_map.1 hmem
    obtain ⟨id, hid⟩ := List.getElem?_of_mem ht
    rw [(apart_of_isIdle h (hidle t.token) hid).2] at hstanding
    cases hstanding
  have hsum := hb.capped.poolPermits
  rwa [hnone] at hsum

-- ================================================== every run

/-- What holds of every run of a worker. -/
structure Underway (config : WorkerConfig)
    (bitmaps : SortedMap String DeleteBitmap) (r : ExecutorRun) : Prop where
  balanced : r.executor.Balanced
  configured : r.executor.config = config
  threads : 0 < config.threads.toNat
  lanes : 0 < config.tokenConcurrency.toNat
  fated : r.Fated
  sound : r.Sound bitmaps
  told : r.overview.Told

variable {config : WorkerConfig}

theorem underway_new {e : Executor} (hnew : Executor.new config = .ok e)
    (bitmaps : SortedMap String DeleteBitmap) :
    ({ executor := { e with bitmaps } } : ExecutorRun).Underway config
      bitmaps := by
  have hconfig : e.config = config :=
    congrArg Executor.config (Executor.eq_of_new hnew)
  obtain ⟨hthreads, hlanes⟩ := Executor.permits_of_new hnew
  rw [hconfig] at hthreads hlanes
  exact ⟨Executor.balanced_new hnew bitmaps, hconfig, hthreads, hlanes,
    fated_new hnew bitmaps, sound_new hnew, Executor.told_of_new hnew bitmaps⟩

theorem Underway.after (h : r.Underway config bitmaps)
    (steps : List Executor.Step) :
    (r.after steps).Underway config bitmaps := by
  obtain ⟨hbalanced, hconfig⟩ := balanced_after h.balanced steps
  exact ⟨hbalanced, hconfig.trans h.configured, h.threads, h.lanes,
    fated_after h.fated h.balanced steps, (sound_after steps h.sound).1,
    after_of_next (fun _ _ => Overview.told_next) steps h.sound.orderly h.told⟩

/-- An accepted task delivers one outcome on every fair schedule, and its
result is certain by then. -/
theorem Underway.delivers (h : r.Underway config bitmaps)
    (ht : r.executor.tasks[id]? = some t)
    (haccepted : t.stage.phase.isAccepted = true)
    {q : ExecutorRun → Except CalcError Unit → Prop}
    (hq : ∀ steps result, (r.after steps).executor.certain? id = some result →
      q (r.after steps) result) : r.Delivers id t.work.subject q := by
  intro schedule hfair
  have hrun : r.executor.FairRun schedule :=
    ⟨h.balanced, h.configured ▸ h.threads, h.configured ▸ h.lanes, hfair⟩
  obtain ⟨n, result, hfinished⟩ :=
    Executor.finished_along hrun ht haccepted
  refine ⟨n, result, fun m hm => ?_⟩
  have ht' : (r.along schedule m).executor.tasks[id]?
      = some { t with stage := .finished result } := by
    rw [along, ← along_eq]
    exact hfinished m hm
  have haccounts : (r.along schedule m).executor.Accounts :=
    Executor.accounts_after h.sound h.told _
  exact ⟨haccounts.outcomes id _ ht', hq _ result (Executor.certain?_eq ht')⟩

/-- A task that comes too late is given up. -/
theorem Underway.givesUp (h : r.Underway config bitmaps)
    (ht : r.executor.tasks[id]? = some t) (hlate : r.executor.IsLate t) :
    r.GivesUp id t := by
  have hnone : r.ledger.computed.lookup id = none := by
    have hphase : t.stage.phase.isUncalculated = true :=
      Stage.isUncalculated_iff.2 (.inl (isBeforeCheck_of_isLate hlate))
    cases h.fated.fate id t ht with
    | pending _ hcomputed => exact hcomputed
    | calculated _ hcalculated =>
        rw [hcalculated] at hphase
        cases hphase
    | ended _ hresult | cancelled hresult | shutDown hresult =>
        cases hresult.symm.trans (Phase.result?_of_isUncalculated hphase)
  have hdoomed := doomed_after (.inl hlate) h.balanced ht hnone
  have hresult : ∀ steps result,
      (r.after steps).executor.certain? id = some result →
        IsAbandoned result := fun steps result hcertain => by
    obtain ⟨stage, ht', hdoomed', -⟩ := hdoomed steps
    rw [Executor.certain?_eq ht'] at hcertain
    exact result_of_isDoomed hdoomed' hcertain
  refine ⟨fun steps => ?_, fun steps => ?_, fun steps result hcertain => ?_,
    fun steps t' ht' haccepted => ?_⟩
  · obtain ⟨stage, ht', hdoomed', hcomputed⟩ := hdoomed steps
    rw [hasStarted, hcomputed,
      not_isCalculating ht' (ne_calculating_of_isDoomed hdoomed')]
    rfl
  · obtain ⟨stage, ht', hdoomed', hcomputed⟩ := hdoomed steps
    have hlater := h.after steps
    refine ⟨fun hmerged => ?_, Executor.bitmaps_advance ht' fun marks hmarks => ?_⟩
    · obtain ⟨marks, hmarks⟩ := (hlater.sound.agrees ht').marks hmerged
      cases hcomputed.symm.trans hmarks
    · have hagrees := (hlater.sound.agrees ht').computed (.ok marks)
        (congrArg Stage.phase hmarks)
      cases hcomputed.symm.trans hagrees
  · exact ⟨hresult steps result hcertain,
      endOf_of_isAbandoned (hresult steps result hcertain)⟩
  · obtain ⟨stage, ht'', -⟩ := hdoomed steps
    obtain rfl := Option.some.inj (ht'.symm.trans ht'')
    refine (h.after steps).delivers ht' haccepted fun rest result hcertain => ?_
    rw [← after_append] at hcertain
    exact hresult (steps ++ rest) result hcertain

theorem isAccepted_of_hasStarted (h : r.Fated)
    (ht : r.executor.tasks[id]? = some t) (hstarted : r.hasStarted id = true) :
    t.stage.phase.isAccepted = true := by
  rcases (Bool.or_eq_true ..).mp hstarted with hcalc | hcomputed
  · rw [(Executor.isCalculating_iff ht).1 hcalc]
    rfl
  · cases h.fate id t ht with
    | pending _ hnone | cancelled _ hnone | shutDown _ hnone =>
        rw [hnone] at hcomputed
        cases hcomputed
    | calculated result hphase =>
        rw [hphase]
        rfl
    | ended result hresult =>
        cases hphase : t.stage.phase with
        | offered | rejected =>
            rw [hphase] at hresult
            cases hresult
        | _ => rfl

/-- A task that has started ends as its calculation does. -/
theorem Underway.runsOn (h : r.Underway config bitmaps)
    (ht : r.executor.tasks[id]? = some t) (hstarted : r.hasStarted id = true) :
    r.RunsOn id t := by
  have hresult : ∀ steps result,
      (r.after steps).executor.certain? id = some result →
        (r.after steps).EndsAsComputed id t.destination result :=
    fun steps result hcertain => by
      obtain ⟨stage, ht', hstarted'⟩ :=
        hasStarted_after hstarted h.balanced ht steps
      rw [Executor.certain?_eq ht'] at hcertain
      have hlater := h.after steps
      refine (certain_cases hlater.fated hlater.sound ht' hcertain).resolve_right
        fun hgiven => ?_
      rw [hgiven.1] at hstarted'
      cases hstarted'
  exact ⟨hresult,
    h.delivers ht (isAccepted_of_hasStarted h.fated ht hstarted) hresult⟩

/-- A task that has a permit of the pool ends as its calculation does, unless
its own token is cancelled. -/
theorem Underway.endsAsComputed_of_poolHeld (h : r.Underway config bitmaps)
    (ht : r.executor.tasks[id]? = some t) (hstage : t.stage = .poolHeld)
    (steps : List Executor.Step)
    (hcertain : (r.after steps).executor.certain? id = some result) :
    (r.after steps).EndsAsComputed id t.destination result
      ∨ result = .error .cancelled
        ∧ (r.after steps).executor.IsCancelled t.token := by
  obtain ⟨stage, ht', hspared⟩ :=
    spared_after (.inl hstage) h.balanced ht steps
  rw [Executor.certain?_eq ht'] at hcertain
  have hlater := h.after steps
  rcases hspared with hheld | hstarted | ⟨hresult, hcancelled⟩
  · obtain rfl : stage = .poolHeld := hheld
    cases hcertain
  · refine .inl ((certain_cases hlater.fated hlater.sound ht'
      hcertain).resolve_right fun hgiven => ?_)
    rw [hgiven.1] at hstarted
    cases hstarted
  · exact .inr ⟨Option.some.inj (hcertain.symm.trans hresult), hcancelled⟩

end ExecutorRun

/-- Stopping gives up exactly what has not begun. In every run, a task that has
not checked the flag of its token when that goes up, or has no permit of the
pool when that closes, is given up; one that calculates, or has calculated,
ends as its calculation does; and so does one that has a permit of the pool,
unless its own token is cancelled. A task is given up for its own token or
for the pool, and by those who asked for it. A token without pending tasks
has its lane whole again, and where no token has any the pool is whole. -/
theorem stopping_exact {config : WorkerConfig} {e : Executor}
    (hnew : Executor.new config = .ok e)
    (bitmaps : SortedMap String DeleteBitmap) (steps : List Executor.Step) :
    let start : ExecutorRun := { executor := { e with bitmaps } }
    let now := start.after steps
    (∀ (id : Nat) (t : Job), now.executor.tasks[id]? = some t →
        (now.executor.IsLate t → now.GivesUp id t)
          ∧ (now.hasStarted id = true → now.RunsOn id t)
          ∧ (t.stage = .poolHeld → ∀ rest result,
              (now.after rest).executor.certain? id = some result →
                (now.after rest).EndsAsComputed id t.destination result
                  ∨ result = .error .cancelled
                    ∧ (now.after rest).executor.IsCancelled t.token)
          ∧ ∀ result, now.executor.certain? id = some result →
              now.EndsAsComputed id t.destination result
                ∨ now.hasStarted id = false
                  ∧ (result = .error .cancelled ∧ .cancel t.token ∈ steps
                    ∨ result = .error .shutDown ∧ .shutDown ∈ steps))
      ∧ (∀ (k : Nat) (token : Token), now.executor.tokens[k]? = some token →
          now.executor.isIdle k = true →
            token.lane.free = config.tokenConcurrency.toNat)
      ∧ ((∀ k, now.executor.isIdle k = true) →
          now.executor.pool.free = config.threads.toNat) := by
  intro start now
  have hstart := ExecutorRun.underway_new hnew bitmaps
  have hnow : now.Underway config bitmaps := hstart.after steps
  refine ⟨fun id t ht => ⟨hnow.givesUp ht, hnow.runsOn ht, ?_, ?_⟩, ?_, ?_⟩
  · intro hstage rest result hcertain
    exact hnow.endsAsComputed_of_poolHeld ht hstage rest hcertain
  · intro result hcertain
    rw [Executor.certain?_eq ht] at hcertain
    obtain rfl := Executor.eq_of_new hnew
    refine (ExecutorRun.certain_cases hnow.fated hnow.sound ht hcertain).imp_right
      fun ⟨hstill, hwhy⟩ => ⟨hstill, hwhy.imp ?_ ?_⟩
    · rintro ⟨hresult, hcancelled⟩
      refine ⟨hresult, (ExecutorRun.cancel_mem steps hcancelled).resolve_left ?_⟩
      rintro ⟨token, htoken, -⟩
      cases htoken
    · rintro ⟨hresult, hclosed⟩
      exact ⟨hresult, ExecutorRun.shutDown_mem steps hclosed rfl⟩
  · intro k token htoken hidle
    rw [← hnow.configured]
    exact ExecutorRun.free_of_isIdle hnow.sound hnow.balanced htoken hidle
  · intro hidle
    rw [← hnow.configured]
    exact ExecutorRun.free_of_allIdle hnow.sound hnow.balanced hidle

/-- Those who wait give up, and the calculation ends. -/
def goHome : List Executor.Step :=
  .replicate 4 (.advance 1) ++ .replicate 5 (.advance 2)
    ++ .endCalculation 0 (.ok ∅) :: .replicate 6 (.advance 0)

/-- The task that calculates runs on, and those who wait for the lane and for
the pool are given up. -/
theorem stopping_exact_crowd :
    let start : ExecutorRun :=
      { executor := { config := ⟨1, 1⟩, pool := { free := 1 } } }
    let now := start.after (crowd ++ stopAll)
    let last := start.after (crowd ++ stopAll ++ goHome)
    Executor.new ⟨1, 1⟩ = .ok start.executor
      ∧ (∃ t, now.executor.tasks[0]? = some t ∧ now.RunsOn 0 t)
      ∧ (∃ t, now.executor.tasks[1]? = some t ∧ now.GivesUp 1 t)
      ∧ (∃ t, now.executor.tasks[2]? = some t ∧ now.GivesUp 2 t)
      ∧ last.executor.certain? 0 = some (.ok ())
      ∧ last.executor.certain? 1 = some (.error .cancelled)
      ∧ last.executor.certain? 2 = some (.error .shutDown)
      ∧ last.executor.pool.free = 1 := by
  have hnew : Executor.new ⟨1, 1⟩
      = .ok { config := ⟨1, 1⟩, pool := { free := 1 } } := rfl
  obtain ⟨htasks, -, -⟩ := stopping_exact hnew ∅ (crowd ++ stopAll)
  obtain ⟨-, -, hpool⟩ := stopping_exact hnew ∅ (crowd ++ stopAll ++ goHome)
  refine ⟨rfl, ⟨_, rfl, (htasks 0 _ rfl).2.1 rfl⟩,
    ⟨_, rfl, (htasks 1 _ rfl).1 (.inl ⟨⟨_, rfl, by decide⟩, rfl⟩)⟩,
    ⟨_, rfl, (htasks 2 _ rfl).1 (.inr ⟨rfl, rfl⟩)⟩, rfl, rfl, rfl,
    hpool fun k => ?_⟩
  match k with
  | 0 | 1 | _ + 2 => rfl

end MergeOnWrite
