/-
What becomes of a task: it ends as its calculation did, or it was given up.

# The argument

The ledger tells what the calculation of a task came to, once it has ended.
A step moves a task on without a word to the ledger, or it ends the
calculation (`Follows`). Of a task that has not calculated, only a flag or
closed permits make the result certain: that of its own token's cancelling,
or those of the pool. So in every state a result that is certain is the
calculation's, or the task never calculated, its error is that it was
cancelled and its token is, or its error is the shutdown and the pool is
closed (`Fate`).

# Main statements

- `follows_step`: what a step does to a task, and to what is told of its
  calculation.
- `fated_after`: what holds of every task in every run.
-/
import MergeOnWrite.Proofs.Calc.Accounts

namespace MergeOnWrite

/-- True of the phases of a task whose calculation has not ended. -/
def Phase.isUncalculated : Phase → Bool
  | .offered | .rejected | .running => true
  | _ => false

theorem Phase.result?_of_isUncalculated {phase : Phase}
    (h : phase.isUncalculated = true) : phase.result? = none := by
  cases phase <;> first | rfl | cases h

theorem Stage.eq_calculated_of_phase {stage : Stage}
    {result : Except CalcError DeleteBitmap}
    (h : stage.phase = .calculated result) : stage = .calculated result := by
  cases stage with
  | calculated other => exact congrArg Stage.calculated (Phase.calculated.inj h)
  | _ => cases h

namespace Executor

variable {e : Executor} {id k : Nat} {t : Job} {token : Token}
  {stage stage' : Stage}

/-- The result of a task, once it is certain. -/
def certain? (e : Executor) (id : Nat) : Option (Except CalcError Unit) :=
  e.tasks[id]?.bind (·.stage.phase.result?)

theorem certain?_eq (ht : e.tasks[id]? = some t) :
    e.certain? id = t.stage.phase.result? := by
  rw [certain?, ht, Option.bind_some]

theorem isCalculating_iff (ht : e.tasks[id]? = some t) :
    e.isCalculating id = true ↔ t.stage = .calculating := by
  obtain ⟨k, work, name, stage⟩ := t
  rw [isCalculating, ht]
  cases stage <;> simp

-- ================================================== where a turn leads

theorem phase_granted (h : Granted stage stage') :
    stage'.phase = stage.phase := by
  cases h <;> rfl

/-- The turn of a task that has not calculated gives it up, if at all, for a
closed lane or a flag of its token, or for the closed pool. -/
theorem phase_nextStage (e : Executor) (token : Token)
    (h : stage.phase.isUncalculated = true) :
    (e.nextStage token stage).phase.isUncalculated = true
      ∨ (e.nextStage token stage).phase = .certain (.error .cancelled)
        ∧ (token.lane.closed = true ∨ token.cancel ≠ .no)
      ∨ (e.nextStage token stage).phase = .certain (.error .shutDown)
        ∧ e.pool.closed = true := by
  cases stage with
  | offered =>
      cases hs : token.status <;>
        exact .inl (by simp [nextStage, checkOffer, hs, Stage.phase,
          Phase.isUncalculated])
  | statusChecked | cancelChecked =>
      refine .inl ?_
      simp only [nextStage, checkOffer]
      split <;> rfl
  | shutDownChecked => exact .inl rfl
  | accepted =>
      simp only [nextStage]
      split
      · exact .inr (.inl ⟨rfl, .inl ‹_›⟩)
      · split <;> exact .inl rfl
  | laneQueued | laneGranted =>
      simp only [nextStage]
      split
      · exact .inr (.inl ⟨rfl, .inl ‹_›⟩)
      · exact .inl rfl
  | laneHeld =>
      simp only [nextStage]
      split
      · exact .inr (.inr ⟨rfl, ‹_›⟩)
      · split <;> exact .inl rfl
  | poolQueued | poolGranted =>
      simp only [nextStage]
      split
      · exact .inr (.inr ⟨rfl, ‹_›⟩)
      · exact .inl rfl
  | poolHeld =>
      simp only [nextStage]
      split
      · exact .inl rfl
      · exact .inr (.inl ⟨rfl, .inr ‹_›⟩)
  | calculating | rejected => exact .inl rfl
  | _ => cases h

/-- A result that is certain stays. -/
theorem result?_nextStage (e : Executor) (token : Token)
    {result : Except CalcError Unit}
    (h : stage.phase.result? = some result) :
    (e.nextStage token stage).phase.result? = some result := by
  cases stage with
  | ending held _ => cases held <;> exact h
  | noted | delivered | finished => exact h
  | _ => cases h

/-- What was calculated becomes the result. -/
theorem phase_nextStage_calculated (e : Executor) (token : Token)
    (result : Except CalcError DeleteBitmap) :
    (e.nextStage token (.calculated result)).phase
      = .certain (result.map fun _ => ()) := by
  cases result <;> rfl

-- ================================================== what a turn leaves

/-- A change that neither closes or opens the pool nor touches bitmaps. -/
structure Leaves (e e' : Executor) : Prop where
  closed : e'.pool.closed = e.pool.closed
  bitmaps : e'.bitmaps = e.bitmaps

theorem leaves_grantTo (stage : Stage) (granted : Option Nat) :
    Leaves e (e.grantTo stage granted) := by
  cases granted <;> exact ⟨rfl, rfl⟩

theorem leaves_releaseLane (k : Nat) : Leaves e (e.releaseLane k) := by
  unfold releaseLane
  split
  · exact ⟨rfl, rfl⟩
  · obtain ⟨hclosed, hbitmaps⟩ := leaves_grantTo (e := e.modifyToken k _) _ _
    exact ⟨hclosed, hbitmaps⟩

theorem leaves_releasePool : Leaves e e.releasePool := by
  rw [releasePool, Permits.release]
  cases e.pool.waiting <;> exact ⟨rfl, rfl⟩

theorem leaves_requestPool (id : Nat) : Leaves e (e.requestPool id) := by
  obtain ⟨-, hr⟩ | ⟨-, -, hr⟩ | ⟨-, -, hr⟩ := e.pool.request_cases id <;>
    simp only [requestPool, hr] <;> exact ⟨rfl, rfl⟩

/-- The turn of a task does not close the pool, and touches bitmaps only where
there are marks to merge. -/
theorem leaves_advanceTask (id : Nat) (t : Job) (token : Token) :
    Leaves e (e.advanceTask id t token)
      ∨ (∃ marks, t.stage = .calculated (.ok marks))
        ∧ (e.advanceTask id t token).pool = e.pool := by
  obtain ⟨k, work, name, stage⟩ := t
  cases stage with
  | calculated result =>
      cases result with
      | ok marks => exact .inr ⟨⟨marks, rfl⟩, rfl⟩
      | error error => exact .inl ⟨rfl, rfl⟩
  | offered | statusChecked | cancelChecked | shutDownChecked =>
      refine .inl ?_
      simp only [advanceTask, advanceOffer]
      split <;> exact ⟨rfl, rfl⟩
  | accepted =>
      refine .inl ?_
      simp only [advanceTask, requestLane]
      split <;> exact ⟨rfl, rfl⟩
  | laneQueued | poolQueued | poolHeld =>
      refine .inl ?_
      simp only [advanceTask]
      split <;> exact ⟨rfl, rfl⟩
  | laneGranted =>
      refine .inl ?_
      simp only [advanceTask]
      split
      · exact ⟨(leaves_releaseLane k).closed, (leaves_releaseLane k).bitmaps⟩
      · exact ⟨rfl, rfl⟩
  | poolGranted =>
      refine .inl ?_
      simp only [advanceTask]
      split
      · exact ⟨leaves_releasePool.closed, leaves_releasePool.bitmaps⟩
      · exact ⟨rfl, rfl⟩
  | laneHeld => exact .inl (leaves_requestPool id)
  | ending held result =>
      refine .inl ?_
      cases held with
      | both => exact ⟨leaves_releasePool.closed, leaves_releasePool.bitmaps⟩
      | lane =>
          exact ⟨(leaves_releaseLane k).closed, (leaves_releaseLane k).bitmaps⟩
      | none => cases result <;> exact ⟨rfl, rfl⟩
  | noted | delivered | calculating | rejected | finished =>
      exact .inl ⟨rfl, rfl⟩

theorem closed_advance (id : Nat) :
    (e.advance id).pool.closed = e.pool.closed := by
  unfold advance
  split
  · rfl
  · split
    · rfl
    · rename_i t _ _ token _
      exact (leaves_advanceTask id t token).elim Leaves.closed fun h =>
        congrArg Permits.closed h.2

/-- A turn of a task that has no marks to merge touches no bitmap. -/
theorem bitmaps_advance (ht : e.tasks[id]? = some t)
    (h : ∀ marks, t.stage ≠ .calculated (.ok marks)) :
    (e.advance id).bitmaps = e.bitmaps := by
  cases htoken : e.tokens[t.token]? with
  | none => simp only [advance, ht, htoken]
  | some token =>
      simp only [advance, ht, htoken]
      rcases leaves_advanceTask id t token with hleaves | ⟨hmarks, -⟩
      · exact hleaves.bitmaps
      · obtain ⟨marks, hstage⟩ := hmarks
        exact absurd hstage (h marks)

/-- Nothing but a shutdown closes the pool. -/
theorem shutDown_of_closed {step : Step} (h : (e.step step).pool.closed = true)
    (hopen : e.pool.closed = false) : step = .shutDown := by
  have hsame : (e.step step).pool.closed = e.pool.closed →
      step = .shutDown := fun hsame => by
    rw [h, hopen] at hsame
    cases hsame
  cases step with
  | shutDown => rfl
  | openToken =>
      refine hsame ?_
      show e.openToken.pool.closed = _
      unfold openToken
      split <;> rfl
  | closeToken | offer | cancel => exact hsame rfl
  | advance id => exact hsame (closed_advance id)
  | endCalculation id result =>
      refine hsame ?_
      show (e.endCalculation id result).pool.closed = _
      rw [endCalculation_eq]
      split <;> rfl

end Executor

-- ================================================== a step and a task

namespace ExecutorRun

variable {r r' : ExecutorRun} {id k : Nat} {t : Job} {stage : Stage}

/-- What a step does to a task, and to what is told of its calculation. -/
inductive Follows (r : ExecutorRun) (id : Nat) (t : Job) (r' : ExecutorRun) :
    Stage → Prop
  | ended (result : Except CalcError DeleteBitmap)
      (hstage : t.stage = .calculating)
      (hcomputed : r'.ledger.computed.lookup id = some result) :
      Follows r id t r' (.calculated result)
  | turn {token : Token} (htoken : r.executor.tokens[t.token]? = some token)
      (hcomputed : r'.ledger.computed.lookup id
        = r.ledger.computed.lookup id) :
      Follows r id t r' (r.executor.nextStage token t.stage)
  | granted {stage : Stage} (hgranted : Executor.Granted t.stage stage)
      (hcomputed : r'.ledger.computed.lookup id
        = r.ledger.computed.lookup id) :
      Follows r id t r' stage

/-- Nothing is told of a calculation that does not end. -/
theorem computed_step {step : Executor.Step}
    (h : ∀ result, step = .endCalculation id result →
      r.executor.isCalculating id = false) :
    (r.step step).ledger.computed.lookup id
      = r.ledger.computed.lookup id := by
  show (r.ledger.note r.executor step).computed.lookup id = _
  cases step with
  | endCalculation j result =>
      rw [MarkLedger.note]
      split
      · rename_i hj
        refine Overview.lookup_cons_of_ne ?_ result _
        rintro rfl
        rw [h result rfl] at hj
        cases hj
      · rfl
  | advance j =>
      rw [MarkLedger.note]
      split <;> rfl
  | openToken | closeToken | offer | cancel | shutDown => rfl

theorem follows_step (h : r.executor.Orderly)
    (ht : r.executor.tasks[id]? = some t) (step : Executor.Step) :
    ∃ stage, (r.step step).executor.tasks[id]? = some { t with stage }
      ∧ r.Follows id t (r.step step) stage := by
  by_cases hends : ∃ result, step = .endCalculation id result
      ∧ r.executor.isCalculating id = true
  · obtain ⟨result, rfl, hcalc⟩ := hends
    refine ⟨.calculated result, ?_,
      .ended result ((Executor.isCalculating_iff ht).1 hcalc) ?_⟩
    · show (r.executor.endCalculation id result).tasks[id]? = _
      rw [Executor.endCalculation_eq, if_pos hcalc]
      exact Executor.tasks_setStage_self _ ht
    · show (r.ledger.note r.executor _).computed.lookup id = _
      rw [MarkLedger.note, if_pos hcalc]
      exact Overview.lookup_cons_same id result _
  · have hcomputed : (r.step step).ledger.computed.lookup id
        = r.ledger.computed.lookup id := computed_step fun result hstep => by
      by_contra hcalc
      exact hends ⟨result, hstep, by simpa using hcalc⟩
    obtain ⟨stage, ht', hmoves⟩ := Executor.stage_step h ht step
    refine ⟨stage, ht', ?_⟩
    cases hmoves with
    | turn htoken => exact .turn htoken hcomputed
    | ended result hstage =>
        exact absurd ⟨result, rfl, (Executor.isCalculating_iff ht).2 hstage⟩
          hends
    | granted step hgranted => exact .granted hgranted hcomputed

/-- What every step keeps is kept by every run. -/
theorem after_of_step {p : ExecutorRun → Prop}
    (hstep : ∀ r step, r.executor.Balanced → p r → p (r.step step))
    (steps : List Executor.Step) :
    r.executor.Balanced → p r → p (r.after steps) :=
  foldl_keeps (fun _ step hb => Executor.balanced_step hb step) hstep steps

-- ================================================== fates

/-- What has become of a task, and what the ledger tells of it. -/
inductive Fate (r : ExecutorRun) (id : Nat) (t : Job) : Prop
  | pending (hphase : t.stage.phase.isUncalculated = true)
      (hcomputed : r.ledger.computed.lookup id = none)
  | calculated (result : Except CalcError DeleteBitmap)
      (hphase : t.stage.phase = .calculated result)
      (hcomputed : r.ledger.computed.lookup id = some result)
  /-- It ended as its calculation did. -/
  | ended (result : Except CalcError DeleteBitmap)
      (hresult : t.stage.phase.result? = some (result.map fun _ => ()))
      (hcomputed : r.ledger.computed.lookup id = some result)
  /-- It was given up, as its token is cancelled. -/
  | cancelled (hresult : t.stage.phase.result? = some (.error .cancelled))
      (hcomputed : r.ledger.computed.lookup id = none)
      (hcancelled : r.executor.IsCancelled t.token)
  /-- It was given up, as the pool is closed. -/
  | shutDown (hresult : t.stage.phase.result? = some (.error .shutDown))
      (hcomputed : r.ledger.computed.lookup id = none)
      (hclosed : r.executor.pool.closed = true)

theorem closed_step (h : r.executor.Balanced)
    (hclosed : r.executor.pool.closed = true) (step : Executor.Step) :
    (r.step step).executor.pool.closed = true :=
  (Executor.atDesks_step h step).pool.closed_of_closed hclosed

/-- Who stays in a phase keeps its fate. -/
theorem Fate.of_phase (h : r.Fate id t) (hb : r.executor.Balanced)
    {step : Executor.Step} (hphase : stage.phase = t.stage.phase)
    (hcomputed : (r.step step).ledger.computed.lookup id
      = r.ledger.computed.lookup id) :
    (r.step step).Fate id { t with stage } := by
  cases h with
  | pending huncalculated hnone =>
      exact .pending (hphase ▸ huncalculated) (hcomputed.trans hnone)
  | calculated result hold hsome =>
      exact .calculated result (hphase.trans hold) (hcomputed.trans hsome)
  | ended result hresult hsome =>
      exact .ended result (hphase ▸ hresult) (hcomputed.trans hsome)
  | cancelled hresult hnone hcancelled =>
      exact .cancelled (hphase ▸ hresult) (hcomputed.trans hnone)
        (hcancelled.step step)
  | shutDown hresult hnone hclosed =>
      exact .shutDown (hphase ▸ hresult) (hcomputed.trans hnone)
        (closed_step hb hclosed step)

theorem Fate.turn (h : r.Fate id t) (hb : r.executor.Balanced)
    (hw : r.executor.Welcoming) {step : Executor.Step} {token : Token}
    (htoken : r.executor.tokens[t.token]? = some token)
    (hcomputed : (r.step step).ledger.computed.lookup id
      = r.ledger.computed.lookup id) :
    (r.step step).Fate id
      { t with stage := r.executor.nextStage token t.stage } := by
  cases h with
  | pending huncalculated hnone =>
      rcases Executor.phase_nextStage r.executor token huncalculated with
        hstill | ⟨hphase, hflag⟩ | ⟨hphase, hclosed⟩
      · exact .pending hstill (hcomputed.trans hnone)
      · have hcancelled : r.executor.IsCancelled t.token :=
          ⟨token, htoken, hflag.elim (hw _ _ htoken) fun h => h⟩
        exact .cancelled (congrArg Phase.result? hphase)
          (hcomputed.trans hnone) (hcancelled.step step)
      · exact .shutDown (congrArg Phase.result? hphase)
          (hcomputed.trans hnone) (closed_step hb hclosed step)
  | calculated result hphase hsome =>
      refine .ended result ?_ (hcomputed.trans hsome)
      show (r.executor.nextStage token t.stage).phase.result? = _
      rw [Stage.eq_calculated_of_phase hphase,
        Executor.phase_nextStage_calculated]
      rfl
  | ended result hresult hsome =>
      exact .ended result (Executor.result?_nextStage _ token hresult)
        (hcomputed.trans hsome)
  | cancelled hresult hnone hcancelled =>
      exact .cancelled (Executor.result?_nextStage _ token hresult)
        (hcomputed.trans hnone) (hcancelled.step step)
  | shutDown hresult hnone hclosed =>
      exact .shutDown (Executor.result?_nextStage _ token hresult)
        (hcomputed.trans hnone) (closed_step hb hclosed step)

theorem Fate.step (h : r.Fate id t) (hb : r.executor.Balanced)
    (hw : r.executor.Welcoming) {step : Executor.Step}
    (hfollows : r.Follows id t (r.step step) stage) :
    (r.step step).Fate id { t with stage } := by
  cases hfollows with
  | ended result hstage hcomputed => exact .calculated result rfl hcomputed
  | granted hgranted hcomputed =>
      exact h.of_phase hb (Executor.phase_granted hgranted) hcomputed
  | turn htoken hcomputed => exact h.turn hb hw htoken hcomputed

/-- What holds of all tasks, offered and to come. -/
structure Fated (r : ExecutorRun) : Prop where
  lanes : r.executor.Welcoming
  unknown : ∀ id, r.executor.tasks[id]? = none →
    r.ledger.computed.lookup id = none
  fate : ∀ (id : Nat) (t : Job), r.executor.tasks[id]? = some t → r.Fate id t

theorem Fated.step (h : r.Fated) (hb : r.executor.Balanced)
    (step : Executor.Step) : (r.step step).Fated := by
  have hunknown : ∀ id, r.executor.tasks[id]? = none →
      (r.step step).ledger.computed.lookup id = none := fun id hnone => by
    rw [computed_step fun _ _ => by rw [Executor.isCalculating, hnone]]
    exact h.unknown id hnone
  refine ⟨h.lanes.step step, fun id hnone' => ?_, fun id t' ht' => ?_⟩
  · cases ht : r.executor.tasks[id]? with
    | none => exact hunknown id ht
    | some t =>
        obtain ⟨stage, ht', -⟩ := follows_step hb.orderly ht step
        cases hnone'.symm.trans ht'
  · cases ht : r.executor.tasks[id]? with
    | none =>
        have hoffered := Executor.offered_of_new ht' ht
        exact .pending (by rw [hoffered]; rfl) (hunknown id ht)
    | some t =>
        obtain ⟨stage, hstage, hfollows⟩ := follows_step hb.orderly ht step
        obtain rfl := Option.some.inj (hstage.symm.trans ht')
        exact (h.fate id t ht).step hb h.lanes hfollows

/-- In every run, every task has one of the fates. -/
theorem fated_after (h : r.Fated) (hb : r.executor.Balanced)
    (steps : List Executor.Step) : (r.after steps).Fated :=
  after_of_step (fun _ step hb h => h.step hb step) steps hb h

theorem fated_new {config : WorkerConfig} {e : Executor}
    (hnew : Executor.new config = .ok e)
    (bitmaps : SortedMap String DeleteBitmap) :
    ({ executor := { e with bitmaps } } : ExecutorRun).Fated := by
  rw [Executor.eq_of_new hnew]
  refine ⟨nofun, fun _ _ => rfl, fun id t ht => ?_⟩
  cases ht

-- ================================================== what was asked for

/-- A token is cancelled by those who asked for it. -/
theorem cancel_mem (steps : List Executor.Step)
    (h : (r.after steps).executor.IsCancelled k) :
    r.executor.IsCancelled k ∨ .cancel k ∈ steps := by
  induction steps generalizing r with
  | nil => exact .inl h
  | cons step rest ih =>
      rcases ih (r := r.step step) h with hstep | hrest
      · rcases Executor.isCancelled_of_step hstep with hold | rfl
        · exact .inl hold
        · exact .inr (List.mem_cons_self ..)
      · exact .inr (List.mem_cons_of_mem _ hrest)

/-- The pool is closed by those who asked for a shutdown. -/
theorem shutDown_mem (steps : List Executor.Step)
    (h : (r.after steps).executor.pool.closed = true)
    (hopen : r.executor.pool.closed = false) : .shutDown ∈ steps := by
  induction steps generalizing r with
  | nil => cases hopen.symm.trans h
  | cons step rest ih =>
      cases hstep : (r.step step).executor.pool.closed with
      | false => exact List.mem_cons_of_mem _ (ih (r := r.step step) h hstep)
      | true =>
          obtain rfl := Executor.shutDown_of_closed hstep hopen
          exact List.mem_cons_self ..

end ExecutorRun

end MergeOnWrite
