/-
The first error of a token is its status, and stays so.

# The argument

A step records at most one error for a token (`Executor.failure?`), and the
token keeps it only if it has none (`token_step`). So the status is the first
of the errors that a run recorded, in the order in which it did
(`status?_after`). Which errors these are can be read off the state they led
to: they are those of the tasks whose end was noted, and that the token was
cancelled (`hasFailed_after`).

An offer is checked against the status first, so once there is one, offers
that were not checked by then are refused with it. Next it is checked
against the flag that cancelling raises first, so offers that were not
checked against that are refused from there on, whatever the status.

# Main statements

- `status?_step`: what a step records, and for which token.
- `first_error_sticks`: the status of a token in every run, and what waits
  and offers come to after it is an error.
-/
import MergeOnWrite.Proofs.Calc.Desks
import MergeOnWrite.Proofs.Calc.Waits

namespace MergeOnWrite

/-- The stages of an offer that was not found to be one to a token that is not
cancelled. -/
def Stage.isUnchecked : Stage → Bool
  | .offered | .statusChecked | .rejected _ => true
  | _ => false

namespace Executor

variable {e : Executor} {id k : Nat} {t : Job} {token : Token} {error : CalcError}

-- ================================================== what is recorded

/-- The first error of a token. -/
def status? (e : Executor) (k : Nat) : Option CalcError :=
  e.tokens[k]?.bind Token.status

/-- True of the errors that were recorded for a token, were they the first or
not: those of tasks whose end was noted, and that it was cancelled. -/
def HasFailed (e : Executor) (k : Nat) (error : CalcError) : Prop :=
  (∃ (id : Nat) (t : Job), e.tasks[id]? = some t ∧ t.token = k
      ∧ t.stage.phase.noted? = some (.error error))
    ∨ error = .cancelled
      ∧ ∃ token, e.tokens[k]? = some token ∧ token.cancel = .recorded

theorem status_eq (e : Executor) (k : Nat) :
    e.status k = (e.status? k).elim (.ok ()) .error := by
  rw [status, status?]
  cases e.tokens[k]?.bind Token.status <;> rfl

theorem status?_of_status (h : e.status k = .error error) :
    e.status? k = some error := by
  rw [status_eq] at h
  cases hs : e.status? k with
  | none =>
      rw [hs] at h
      cases h
  | some other =>
      rw [hs] at h
      cases h
      rfl

/-- Nothing is recorded for a token that is not open. -/
theorem failure?_of_unopened (h : e.Balanced) (htoken : e.tokens[k]? = none)
    (step : Step) : e.failure? k step = none := by
  cases step with
  | advance id =>
      cases ht : e.tasks[id]? with
      | none => rw [failure?, ht]
      | some t =>
          refine failure?_advance_of_ne ht fun error hstage hk => ?_
          have hoffered := h.unopened id t ht (hk ▸ htoken)
          cases hstage.symm.trans hoffered
  | cancel j => simp [failure?, htoken]
  | _ => rfl

/-- What a step records for a token, it records if there is no status. -/
theorem status?_step (h : e.Balanced) (k : Nat) (step : Step) :
    (e.step step).status? k = (e.status? k <|> e.failure? k step) := by
  cases htoken : e.tokens[k]? with
  | some token =>
      obtain ⟨token', htoken', hstep⟩ := token_step htoken step
      rw [status?, status?, htoken, htoken']
      exact hstep.status
  | none =>
      rw [failure?_of_unopened h htoken, status?, status?, htoken]
      cases hnew : (e.step step).tokens[k]? with
      | none => rfl
      | some token =>
          obtain ⟨rfl, -⟩ := token_of_new hnew htoken
          rfl

/-- An end that was noted stays noted, and a new one is that of the task whose
turn it is. -/
theorem noted_nextStage (e : Executor) (token : Token) (stage : Stage) :
    (e.nextStage token stage).phase.noted? = stage.phase.noted?
      ∨ ∃ result, stage = .ending .none result := by
  cases stage with
  | offered =>
      cases hs : token.status <;>
        exact .inl (by simp [nextStage, checkOffer, hs, Stage.phase, Phase.noted?])
  | statusChecked | cancelChecked =>
      refine .inl ?_
      simp only [nextStage, checkOffer]
      split <;> rfl
  | shutDownChecked => exact .inl rfl
  | accepted | laneHeld =>
      refine .inl ?_
      simp only [nextStage]
      split
      · rfl
      · split <;> rfl
  | laneQueued | laneGranted | poolQueued | poolGranted | poolHeld =>
      refine .inl ?_
      simp only [nextStage]
      split <;> rfl
  | calculated result => cases result <;> exact .inl rfl
  | ending held result =>
      cases held with
      | none => exact .inr ⟨result, rfl⟩
      | lane | both => exact .inl rfl
  | noted | delivered | finished | calculating | rejected => exact .inl rfl

theorem noted_granted {stage stage' : Stage} (h : Granted stage stage') :
    stage'.phase.noted? = stage.phase.noted? := by
  cases h <;> rfl

/-- What a step records is told by the state after it. -/
theorem hasFailed_of_failure? (h : e.Balanced) {step : Step}
    (hfailure : e.failure? k step = some error) :
    (e.step step).HasFailed k error := by
  cases step with
  | advance id =>
      rw [failure?] at hfailure
      split at hfailure
      · rename_i token work name error' ht
        split at hfailure
        · rename_i hk
          cases hfailure
          have hopened := h.opened ht fun hrejected => by cases hrejected
          obtain ⟨tk, htk⟩ := Option.isSome_iff_exists.1 hopened
          exact .inl ⟨id, _, stage_advance h.orderly ht htk, hk, rfl⟩
        · cases hfailure
      · cases hfailure
  | cancel j =>
      rw [failure?] at hfailure
      split at hfailure
      · rename_i hcancel
        obtain ⟨rfl, hclosed⟩ := hcancel
        cases hfailure
        obtain ⟨token, htoken, hclosed⟩ := Option.any_eq_true _ _ |>.1 hclosed
        obtain ⟨token', htoken', hstep⟩ := token_step htoken (.cancel j)
        refine .inr ⟨rfl, token', htoken', ?_⟩
        rw [hstep.cancel, of_decide_eq_true hclosed]
        simp [Step.cancels, Stopping.next]
      · cases hfailure
  | openToken | closeToken | offer | endCalculation | shutDown => cases hfailure

/-- What was recorded stays recorded. -/
theorem HasFailed.step (h : e.HasFailed k error) (hb : e.Balanced)
    (step : Step) : (e.step step).HasFailed k error := by
  rcases h with ⟨id, t, ht, hk, hnoted⟩ | ⟨rfl, token, htoken, hcancel⟩
  · obtain ⟨stage, ht', hmoves⟩ := stage_step hb.orderly ht step
    refine .inl ⟨id, _, ht', hk, ?_⟩
    cases hmoves with
    | turn htoken =>
        rcases noted_nextStage e _ t.stage with hsame | ⟨result, hstage⟩
        · exact hsame.trans hnoted
        · rw [hstage] at hnoted
          cases hnoted
    | ended result hstage =>
        rw [hstage] at hnoted
        cases hnoted
    | granted step hgranted => exact (noted_granted hgranted).trans hnoted
  · obtain ⟨token', htoken', hstep⟩ := token_step htoken step
    refine .inr ⟨rfl, token', htoken', ?_⟩
    rw [hstep.cancel, hcancel]
    split <;> rfl

/-- What a state tells of errors that were recorded was told before the step,
or is what the step recorded. -/
theorem hasFailed_step (h : e.Balanced) (k : Nat) (error : CalcError)
    (step : Step) :
    (e.step step).HasFailed k error
      ↔ e.HasFailed k error ∨ e.failure? k step = some error := by
  refine ⟨?_, fun hor => hor.elim (·.step h step) (hasFailed_of_failure? h)⟩
  rintro (⟨id, t', ht', hk, hnoted⟩ | ⟨rfl, token', htoken', hcancel⟩)
  · cases ht : e.tasks[id]? with
    | none =>
        rw [offered_of_new ht' ht] at hnoted
        cases hnoted
    | some t =>
        obtain ⟨stage, hstage, hmoves⟩ := stage_step h.orderly ht step
        obtain rfl := Option.some.inj (hstage.symm.trans ht')
        cases hmoves with
        | turn htoken =>
            rcases noted_nextStage e _ t.stage with hsame | ⟨result, hstage'⟩
            · exact .inl (.inl ⟨id, t, ht, hk, hsame.symm.trans hnoted⟩)
            · obtain ⟨token, work, name, stage⟩ := t
              obtain rfl : stage = _ := hstage'
              obtain rfl : result = .error error := Option.some.inj hnoted
              refine .inr ?_
              rw [failure?, ht]
              exact if_pos hk
        | ended => cases hnoted
        | granted step hgranted =>
            exact .inl (.inl ⟨id, t, ht, hk,
              (noted_granted hgranted).symm.trans hnoted⟩)
  · cases htoken : e.tokens[k]? with
    | none =>
        obtain ⟨rfl, -⟩ := token_of_new htoken' htoken
        cases hcancel
    | some token =>
        obtain ⟨token'', htoken'', hstep⟩ := token_step htoken step
        obtain rfl := Option.some.inj (htoken'.symm.trans htoken'')
        rw [hstep.cancel] at hcancel
        by_cases hc : step.cancels k = true
        · rw [if_pos hc] at hcancel
          obtain ⟨j, rfl⟩ : ∃ j, step = .cancel j := by
            cases step with
            | cancel j => exact ⟨j, rfl⟩
            | _ => cases hc
          obtain rfl : j = k := of_decide_eq_true hc
          cases hold : token.cancel with
          | no | raised =>
              rw [hold] at hcancel
              cases hcancel
          | closed => exact .inr (by simp [failure?, htoken, hold])
          | recorded => exact .inl (.inr ⟨rfl, token, htoken, hold⟩)
        · rw [if_neg hc] at hcancel
          exact .inl (.inr ⟨rfl, token, htoken, hcancel⟩)

-- ================================================== offers

/-- The token of a status is open. -/
theorem token_of_status (h : e.status k = .error error) :
    ∃ token, e.tokens[k]? = some token ∧ token.status = some error := by
  have hstatus := status?_of_status h
  rw [status?] at hstatus
  exact Option.bind_eq_some_iff.1 hstatus

/-- An offer that is checked against a status is refused with it, and nothing
else happens. -/
theorem advance_of_status (h : e.status k = .error error)
    (ht : e.tasks[id]? = some t) (hk : t.token = k) (hstage : t.stage = .offered) :
    e.advance id = e.setStage id (.rejected error) := by
  obtain ⟨token, htoken, hstatus⟩ := token_of_status h
  subst hk
  have hchecked : e.checkOffer token .offered = .rejected error := by
    simp [checkOffer, hstatus]
  simp only [advance, ht, htoken, advanceTask, hstage, advanceOffer, hchecked]

theorem isUnchecked_nextStage (h : token.cancel ≠ .no) {stage : Stage}
    (hstage : stage.isUnchecked = true) :
    (e.nextStage token stage).isUnchecked = true := by
  cases stage with
  | offered =>
      cases hs : token.status <;>
        simp [nextStage, checkOffer, hs, Stage.isUnchecked]
  | statusChecked => simp [nextStage, checkOffer, h, Stage.isUnchecked]
  | rejected error => rfl
  | _ => cases hstage

end Executor

namespace Attended

variable {a : Attended} {k : Nat} {error : CalcError}

-- ================================================== runs

/-- The error that a step records for a token, unless the token has one. -/
def failure? (a : Attended) (k : Nat) (step : Step) : Option CalcError :=
  step.executor?.bind (a.executor.failure? k)

/-- The errors that a run records for a token, in the order in which it
does. -/
def failures (a : Attended) (k : Nat) : List Step → List CalcError
  | [] => []
  | step :: rest => (a.failure? k step).toList ++ (a.step step).failures k rest

theorem balanced_step (h : a.executor.Balanced) (step : Step) :
    (a.step step).executor.Balanced := by
  rw [executor_step]
  cases step.executor? with
  | none => exact h
  | some inner => exact Executor.balanced_step h inner

/-- What every step keeps is kept by every run. -/
theorem after_of_step {p : Attended → Prop}
    (hstep : ∀ a step, a.executor.Balanced → p a → p (a.step step))
    (steps : List Step) :
    a.executor.Balanced → p a → p (a.after steps) :=
  foldl_keeps (fun _ step hb => balanced_step hb step) hstep steps

theorem status?_step (h : a.executor.Balanced) (k : Nat) (step : Step) :
    (a.step step).executor.status? k
      = (a.executor.status? k <|> a.failure? k step) := by
  rw [executor_step, failure?]
  cases step.executor? with
  | none =>
      show a.executor.status? k = _
      cases a.executor.status? k <;> rfl
  | some inner => exact Executor.status?_step h k inner

theorem hasFailed_step (h : a.executor.Balanced) (step : Step) :
    (a.step step).executor.HasFailed k error
      ↔ a.executor.HasFailed k error ∨ a.failure? k step = some error := by
  rw [executor_step, failure?]
  cases step.executor? with
  | none => simp
  | some inner => exact Executor.hasFailed_step h k error inner

/-- The status of a token is the first of the errors that were recorded. -/
theorem status?_after (h : a.executor.Balanced) (k : Nat) (steps : List Step) :
    (a.after steps).executor.status? k
      = (a.executor.status? k <|> (a.failures k steps).head?) := by
  induction steps generalizing a with
  | nil => cases hs : a.executor.status? k <;> simp [after, failures, hs]
  | cons step rest ih =>
      have hrest := ih (a := a.step step) (balanced_step h step)
      rw [status?_step h k step] at hrest
      refine hrest.trans ?_
      cases a.executor.status? k with
      | some error => rfl
      | none => cases hf : a.failure? k step <;> simp [failures, hf]

/-- The errors that were recorded can be read off the state. -/
theorem hasFailed_after (h : a.executor.Balanced) (steps : List Step) :
    (a.after steps).executor.HasFailed k error
      ↔ a.executor.HasFailed k error ∨ error ∈ a.failures k steps := by
  induction steps generalizing a with
  | nil => simp [after, failures]
  | cons step rest ih =>
      have hrest := ih (a := a.step step) (balanced_step h step)
      rw [hasFailed_step h step, or_assoc] at hrest
      refine hrest.trans ?_
      rw [failures, List.mem_append, Option.mem_toList]

/-- A status stays. -/
theorem status_after (h : a.executor.Balanced)
    (hstatus : a.executor.status k = .error error) (steps : List Step) :
    (a.after steps).executor.status k = .error error := by
  rw [Executor.status_eq, status?_after h k steps,
    Executor.status?_of_status hstatus]
  rfl

-- ================================================== after an error

/-- A wait that returns reads the status. -/
theorem returned_step {w : Nat} {wait : Wait} {status : Except CalcError Unit}
    {step : Step} (hw : (a.step step).waits[w]? = some wait)
    (hreturned : wait.stage = .returned status) :
    (∃ before, a.waits[w]? = some before ∧ before.stage = .returned status)
      ∨ status = a.executor.status wait.token := by
  cases step with
  | executor step => exact .inl ⟨wait, hw, hreturned⟩
  | wait k =>
      by_cases hlen : w < a.waits.length
      · rw [Attended.step, List.getElem?_append_left hlen] at hw
        exact .inl ⟨wait, hw, hreturned⟩
      · rw [Attended.step, List.getElem?_append_right (Nat.not_lt.1 hlen)] at hw
        obtain rfl := List.mem_singleton.1 (List.mem_of_getElem? hw)
        cases hreturned
  | goOn j =>
      rw [Attended.step, List.getElem?_modify] at hw
      obtain ⟨before, hbefore, rfl⟩ := Option.map_eq_some_iff.1 hw
      by_cases hj : j = w
      · rw [if_pos hj] at hreturned ⊢
        rw [token_advance]
        obtain ⟨k, stage⟩ := before
        cases stage with
        | sawIdle =>
            obtain rfl := WaitStage.returned.inj hreturned
            exact .inr rfl
        | returned => exact .inl ⟨_, hbefore, hreturned⟩
        | begun | asleep => cases hreturned
        | listening told =>
            simp only [Wait.advance] at hreturned
            split at hreturned
            · cases hreturned
            · split at hreturned <;> cases hreturned
      · rw [if_neg hj] at hreturned
        exact .inl ⟨before, hbefore, hreturned⟩
  | tell k =>
      rw [Attended.step] at hw
      split at hw
      · rw [List.getElem?_map] at hw
        obtain ⟨before, hbefore, rfl⟩ := Option.map_eq_some_iff.1 hw
        split at hreturned
        · obtain ⟨token, stage⟩ := before
          cases stage with
          | returned => exact .inl ⟨_, hbefore, hreturned⟩
          | begun | listening | asleep | sawIdle => cases hreturned
        · exact .inl ⟨before, hbefore, hreturned⟩
      · exact .inl ⟨wait, hw, hreturned⟩

/-- After an error every wait that returns has it. -/
theorem returned_after (h : a.executor.Balanced)
    (hstatus : a.executor.status k = .error error) (steps : List Step) {w : Nat}
    {wait : Wait} {status : Except CalcError Unit}
    (hw : (a.after steps).waits[w]? = some wait) (hk : wait.token = k)
    (hreturned : wait.stage = .returned status) :
    (∃ before, a.waits[w]? = some before ∧ before.stage = .returned status)
      ∨ status = .error error := by
  let late : Attended → Prop := fun a' =>
    a'.executor.status k = .error error
      ∧ ∀ (w : Nat) (wait : Wait) (status : Except CalcError Unit),
          a'.waits[w]? = some wait → wait.token = k →
            wait.stage = .returned status →
              (∃ before, a.waits[w]? = some before
                ∧ before.stage = .returned status) ∨ status = .error error
  have hlate : late (a.after steps) := by
    refine after_of_step (fun a' step hb hlate => ?_) steps h
      ⟨hstatus, fun w wait status hw _ hret => .inl ⟨wait, hw, hret⟩⟩
    refine ⟨status_after hb hlate.1 [step], fun w wait status hw hk hret => ?_⟩
    rcases returned_step hw hret with ⟨before, hbefore, hret'⟩ | hread
    · obtain ⟨before', hbefore', htoken, -⟩ := wait_step hbefore step
      obtain rfl := Option.some.inj (hbefore'.symm.trans hw)
      exact hlate.2 w before status hbefore (htoken.symm.trans hk) hret'
    · rw [hk, hlate.1] at hread
      exact .inr hread
  exact hlate.2 w wait status hw hk hreturned

/-- What holds of the stages of a token's offers stays so if a turn at a state
of a kind keeps it and whom it holds of neither waits nor calculates. -/
theorem stages_after (q : Stage → Prop) (inv : Attended → Prop)
    (hinv : ∀ a step, a.executor.Balanced → inv a → inv (a.step step))
    (hturn : ∀ (a : Attended) (token : Token) (stage : Stage), inv a →
      a.executor.tokens[k]? = some token → q stage →
        q (a.executor.nextStage token stage))
    (hoffered : q .offered) (hcalculating : ¬ q .calculating)
    (hlane : ¬ q .laneQueued) (hpool : ¬ q .poolQueued)
    (h : a.executor.Balanced) (ha : inv a) (steps : List Step) {id : Nat}
    {t : Job} (ht : (a.after steps).executor.tasks[id]? = some t)
    (hk : t.token = k)
    (hbefore : ∀ t₀, a.executor.tasks[id]? = some t₀ → q t₀.stage) :
    q t.stage := by
  let kept : Attended → Prop := fun a' =>
    inv a' ∧ ∀ t, a'.executor.tasks[id]? = some t → t.token = k → q t.stage
  have hkept : kept (a.after steps) := by
    refine after_of_step (fun a' step hb hkept => ?_) steps h
      ⟨ha, fun t ht _ => hbefore t ht⟩
    refine ⟨hinv a' step hb hkept.1, fun t ht hk => ?_⟩
    rw [executor_step] at ht
    cases hs : step.executor? with
    | none =>
        rw [hs] at ht
        exact hkept.2 t ht hk
    | some inner =>
        rw [hs] at ht
        cases hold : a'.executor.tasks[id]? with
        | none => exact Executor.offered_of_new ht hold ▸ hoffered
        | some before =>
            obtain ⟨stage, hstage, hmoves⟩ :=
              Executor.stage_step hb.orderly hold inner
            obtain rfl := Option.some.inj (hstage.symm.trans ht)
            have hq := hkept.2 before hold hk
            cases hmoves with
            | turn htoken => exact hturn a' _ _ hkept.1 (hk ▸ htoken) hq
            | ended result hcalc => exact absurd (hcalc ▸ hq) hcalculating
            | granted inner hgranted =>
                generalize before.stage = old at hgranted hq
                cases hgranted with
                | stays => exact hq
                | lane => exact absurd hq hlane
                | pool => exact absurd hq hpool
  exact hkept.2 t ht hk

/-- An offer that was not checked before there was a status is refused. -/
theorem refused_after (h : a.executor.Balanced)
    (hstatus : a.executor.status k = .error error) (steps : List Step) {id : Nat}
    {t : Job} (ht : (a.after steps).executor.tasks[id]? = some t)
    (hk : t.token = k)
    (hbefore : ∀ t₀, a.executor.tasks[id]? = some t₀ → t₀.stage = .offered) :
    t.stage = .offered ∨ t.stage = .rejected error := by
  refine stages_after (k := k)
    (fun stage => stage = .offered ∨ stage = .rejected error)
    (fun a => a.executor.status k = .error error)
    (fun a step hb hstatus => status_after hb hstatus [step])
    (fun a token stage hstatus htoken hstage => .inr ?_) (.inl rfl)
    (by simp) (by simp) (by simp) h hstatus steps ht hk
    fun t₀ ht₀ => .inl (hbefore t₀ ht₀)
  obtain ⟨token', htoken', hsome⟩ := Executor.token_of_status hstatus
  obtain rfl := Option.some.inj (htoken.symm.trans htoken')
  rcases hstage with rfl | rfl
  · simp [Executor.nextStage, Executor.checkOffer, hsome]
  · rfl

/-- The flag of cancelling stays up. -/
theorem isCancelled_step (h : a.executor.IsCancelled k) (step : Step) :
    (a.step step).executor.IsCancelled k := by
  rw [executor_step]
  cases step.executor? with
  | none => exact h
  | some inner => exact h.step inner

/-- An offer that was not checked against the flag before it was up is not
accepted. -/
theorem isUnchecked_after (h : a.executor.Balanced) {token : Token}
    (htoken : a.executor.tokens[k]? = some token) (hcancel : token.cancel ≠ .no)
    (steps : List Step) {id : Nat} {t : Job}
    (ht : (a.after steps).executor.tasks[id]? = some t) (hk : t.token = k)
    (hbefore : ∀ t₀, a.executor.tasks[id]? = some t₀ →
      t₀.stage.isUnchecked = true) :
    t.stage.isUnchecked = true := by
  refine stages_after (k := k) (fun stage => stage.isUnchecked = true)
    (fun a => a.executor.IsCancelled k)
    (fun a step _ hflag => isCancelled_step hflag step)
    (fun a token stage hflag htoken hstage => ?_) rfl nofun nofun nofun h
    ⟨token, htoken, hcancel⟩ steps ht hk hbefore
  obtain ⟨token', htoken', hcancel⟩ := hflag
  obtain rfl := Option.some.inj (htoken.symm.trans htoken')
  exact Executor.isUnchecked_nextStage hcancel hstage

end Attended

/-- The first error of a token is its status and stays so. In every run the
status is the first of the errors that were recorded, which are those of the
tasks whose end was noted and that it was cancelled. Once there is one, it is
the status after every other run; every wait that returns only then returns
it; every offer that was not checked by then is refused with it, if at all,
and nothing else happens. And once the flag of cancelling is up, no offer is
accepted that was not checked against it by then. -/
theorem first_error_sticks {config : WorkerConfig} {e : Executor}
    (hnew : Executor.new config = .ok e)
    (bitmaps : SortedMap String DeleteBitmap) (steps rest : List Attended.Step)
    (k : Nat) :
    let start : Attended := { executor := { e with bitmaps } }
    let now := start.after steps
    let later := now.after rest
    now.executor.status k = (start.failures k steps).head?.elim (.ok ()) .error
      ∧ (∀ error, error ∈ start.failures k steps
          ↔ now.executor.HasFailed k error)
      ∧ (∀ error, now.executor.status k = .error error →
          later.executor.status k = .error error
            ∧ (∀ (w : Nat) (wait : Wait) (status : Except CalcError Unit),
                later.waits[w]? = some wait → wait.token = k →
                  wait.stage = .returned status →
                    (∃ before, now.waits[w]? = some before
                      ∧ before.stage = .returned status)
                    ∨ status = .error error)
            ∧ ∀ (id : Nat) (t : Job), later.executor.tasks[id]? = some t →
                t.token = k →
                  (∀ t₀, now.executor.tasks[id]? = some t₀ →
                    t₀.stage = .offered) →
                      t.stage = .rejected error
                        ∨ t.stage = .offered
                          ∧ later.executor.advance id
                            = later.executor.setStage id (.rejected error))
      ∧ ∀ token, now.executor.tokens[k]? = some token → token.cancel ≠ .no →
          ∀ (id : Nat) (t : Job), later.executor.tasks[id]? = some t →
            t.token = k →
              (∀ t₀, now.executor.tasks[id]? = some t₀ →
                t₀.stage.isUnchecked = true) →
                  t.stage.isUnchecked = true := by
  obtain rfl := Executor.eq_of_new hnew
  intro start now later
  have hstart : start.executor.Balanced := Executor.balanced_new hnew bitmaps
  have hnow : now.executor.Balanced :=
    Attended.after_of_step (p := fun a => a.executor.Balanced)
      (fun a step hb _ => Attended.balanced_step hb step) steps hstart hstart
  have hclear : start.executor.status? k = none := rfl
  refine ⟨?_, fun error => ?_, fun error hstatus => ⟨?_, ?_, ?_⟩, ?_⟩
  · rw [Executor.status_eq, Attended.status?_after hstart, hclear]
    rfl
  · rw [Attended.hasFailed_after hstart, or_iff_right]
    rintro (⟨_, _, ⟨⟩, -⟩ | ⟨-, _, ⟨⟩, -⟩)
  · exact Attended.status_after hnow hstatus rest
  · intro w wait status hw hk hreturned
    exact Attended.returned_after hnow hstatus rest hw hk hreturned
  · intro id t ht hk hbefore
    rcases Attended.refused_after hnow hstatus rest ht hk hbefore with
      hoffered | hrejected
    · exact .inr ⟨hoffered, Executor.advance_of_status
        (Attended.status_after hnow hstatus rest) ht hk hoffered⟩
    · exact .inl hrejected
  · intro token htoken hcancel id t ht hk hbefore
    exact Attended.isUnchecked_after hnow htoken hcancel rest ht hk hbefore

/-- The calculation of a task fails, and its end is noted. -/
def oneFailure : List Attended.Step :=
  [.executor .openToken,
    .executor (.offer 0 (.intra ⟨⟨1⟩, ⟨"new"⟩, [⟨0⟩]⟩) "marks")]
    ++ .replicate 7 (.executor (.advance 0))
    ++ .executor (.endCalculation 0 (.error (.runtime "no keys")))
      :: .replicate 4 (.executor (.advance 0))

/-- Another task is offered, the token is cancelled, and whoever waits for it
returns. -/
def cancelAndReturn : List Attended.Step :=
  [.wait 0, .executor (.offer 0 (.intra ⟨⟨1⟩, ⟨"new"⟩, [⟨1⟩]⟩) "marks")]
    ++ .replicate 3 (.executor (.cancel 0))
    ++ [.executor (.advance 1), .executor (.advance 0), .executor (.advance 0)]
    ++ [.goOn 0, .goOn 0, .goOn 0]

/-- The flag of cancelling is raised, and a task is offered. -/
def raiseFlag : List Attended.Step :=
  [.executor .openToken, .executor (.cancel 0)]

def offerLate : List Attended.Step :=
  .executor (.offer 0 (.intra ⟨⟨1⟩, ⟨"new"⟩, [⟨0⟩]⟩) "marks")
    :: .replicate 3 (.executor (.advance 0))

/-- The error of the task stays the status when the token is cancelled; the
wait returns it, and the other task is refused with it. A task that is
offered while a token is being cancelled is refused as well. -/
theorem first_error_sticks_one_failure :
    let start : Attended :=
      { executor := { config := {}, pool := { free := 8 } } }
    let later := (start.after oneFailure).after cancelAndReturn
    Executor.new {} = .ok start.executor
      ∧ start.failures 0 (oneFailure ++ cancelAndReturn)
        = [.runtime "no keys", .cancelled]
      ∧ later.executor.status 0 = .error (.runtime "no keys")
      ∧ (∃ status, later.waits = [⟨0, .returned status⟩]
        ∧ status = .error (.runtime "no keys"))
      ∧ (∃ t, later.executor.tasks[1]? = some t
        ∧ t.stage = .rejected (.runtime "no keys"))
      ∧ ∃ t, ((start.after raiseFlag).after offerLate).executor.tasks[0]? = some t
        ∧ t.stage.isUnchecked = true := by
  have hnew : Executor.new {} = .ok { config := {}, pool := { free := 8 } } :=
    rfl
  obtain ⟨-, -, hsticks, -⟩ :=
    first_error_sticks hnew ∅ oneFailure cancelAndReturn 0
  obtain ⟨hstatus, hwaits, hoffers⟩ := hsticks (.runtime "no keys") rfl
  obtain ⟨-, -, -, hflag⟩ := first_error_sticks hnew ∅ raiseFlag offerLate 0
  -- the runs are evaluated once, to states that are written out
  let refused (segment : SegmentId) (error : CalcError) : Job :=
    ⟨0, .intra ⟨⟨1⟩, ⟨"new"⟩, [segment]⟩, "marks", .rejected error⟩
  refine ⟨rfl, rfl, hstatus, ⟨.error (.runtime "no keys"), rfl, ?_⟩,
    ⟨refused ⟨1⟩ (.runtime "no keys"), rfl, ?_⟩, refused ⟨0⟩ .cancelled, rfl, ?_⟩
  · refine (hwaits 0 ⟨0, .returned _⟩ _ rfl rfl rfl).resolve_left ?_
    rintro ⟨before, hbefore, -⟩
    cases show none = some before from hbefore
  · refine (hoffers 1 (refused ⟨1⟩ _) rfl rfl ?_).resolve_right nofun
    intro t₀ ht₀
    cases show none = some t₀ from ht₀
  · refine hflag _ rfl nofun 0 (refused ⟨0⟩ .cancelled) rfl rfl ?_
    intro t₀ ht₀
    cases show none = some t₀ from ht₀

end MergeOnWrite
