/-
What a step does to one task, and to one token.

A task goes from stage to stage by steps of its own, and where it goes is
read off its token, the pool and the shutdown (`nextStage`). What it does
beside is one of few things (`Turn`), none of which moves another task but
out of a queue, when it is given a permit. A token gets its status from the
task that ends, or from whoever cancels it, and nobody else has a say in
that.

# Main statements

- `advanceTask_eq`: the turn of a task.
- `stage_advance`: where a task goes by its own step.
- `granted_step`: where it goes by a step of someone else.
- `token_step`: what a step does to the status of a token and to how far its
  cancelling got.
- `IsCancelled.step`, `Welcoming.step`: a token that is cancelled stays so, and
  only lanes of such tokens are closed.
-/
import MergeOnWrite.Proofs.Calc.Overview

namespace MergeOnWrite

/-- How far the cancelling of a token is after another step of it. -/
def Stopping.next : Stopping → Stopping
  | .no => .raised
  | .raised => .closed
  | .closed | .recorded => .recorded

namespace Executor

variable {e e' e'' : Executor} {id j k : Nat} {t : Job} {token : Token}
  {stage : Stage}

-- ================================================== the turn of a task

/-- The stage after a stage. -/
def nextStage (e : Executor) (token : Token) : Stage → Stage
  | .accepted =>
    if token.lane.closed then .ending .none (.error .cancelled)
    else if token.lane.free = 0 then .laneQueued
    else .laneHeld
  | .laneQueued =>
    if token.lane.closed then .ending .none (.error .cancelled)
    else .laneQueued
  | .laneGranted =>
    if token.lane.closed then .ending .none (.error .cancelled) else .laneHeld
  | .laneHeld =>
    if e.pool.closed then .ending .lane (.error .shutDown)
    else if e.pool.free = 0 then .poolQueued
    else .poolHeld
  | .poolQueued =>
    if e.pool.closed then .ending .lane (.error .shutDown) else .poolQueued
  | .poolGranted =>
    if e.pool.closed then .ending .lane (.error .shutDown) else .poolHeld
  | .poolHeld =>
    if token.cancel = .no then .calculating
    else .ending .both (.error .cancelled)
  | .calculated (.ok _) => .ending .both (.ok ())
  | .calculated (.error error) => .ending .both (.error error)
  | .ending .both result => .ending .lane result
  | .ending .lane result => .ending .none result
  | .ending .none result => .noted result
  | .noted result => .delivered result
  | .delivered result => .finished result
  | stage => e.checkOffer token stage

/-- What a task does in its turn beside going to the next stage. -/
inductive Turn (e : Executor) (id : Nat) (t : Job) (token : Token) :
    Executor → Prop
  | rest : Turn e id t token e
  | counted : Turn e id t token ((e.modifyToken t.token fun token =>
      { token with pending := token.pending + 1 }).report
        (.submitted t.work.kind))
  | askedLane (lane : Permits) (hclosed : lane.closed = token.lane.closed) :
      Turn e id t token (e.modifyToken t.token fun token =>
        { token with lane })
  | askedPool (pool : Permits) : Turn e id t token { e with pool }
  | gaveLane : Turn e id t token (e.releaseLane t.token)
  | gavePool : Turn e id t token e.releasePool
  | merged (marks : DeleteBitmap) : Turn e id t token (e.mergeMarks t marks)
  | noted (result : Except CalcError Unit) (hstage : t.stage = .ending .none result) :
      Turn e id t token (e.noteEnd t result)
  | delivered (result : Except CalcError Unit) :
      Turn e id t token (e.deliver id t result)
  | discounted : Turn e id t token (e.modifyToken t.token fun token =>
      { token with pending := token.pending - 1 })

/-- To go to the stage where a task is already is no change. -/
theorem setStage_self (ht : e.tasks[id]? = some t) :
    e.setStage id t.stage = e := by
  rw [setStage, modify_eq_self fun t' ht' => by
    obtain rfl := Option.some.inj (ht.symm.trans ht')
    rfl]

/-- The turn of a task: what it does, and then the next stage. -/
theorem advanceTask_eq (ht : e.tasks[id]? = some t) (token : Token) :
    ∃ e', e.Turn id t token e' ∧ e.advanceTask id t token
      = e'.setStage id (e.nextStage token t.stage) := by
  have hself : e = e.setStage id t.stage := (setStage_self ht).symm
  obtain ⟨k, work, name, stage⟩ := t
  cases stage with
  | offered | statusChecked | cancelChecked | shutDownChecked =>
      simp only [advanceTask, advanceOffer, nextStage]
      split
      · rename_i hchecked
        exact ⟨_, .counted, congrArg (setStage _ id) hchecked.symm⟩
      · exact ⟨_, .rest, rfl⟩
  | accepted =>
      simp only [advanceTask, requestLane, nextStage]
      obtain ⟨hlane, hr⟩ | ⟨hlane, hfree, hr⟩ | ⟨hlane, hfree, hr⟩ :=
        token.lane.request_cases id
      · rw [hr, if_pos hlane]
        exact ⟨_, .rest, rfl⟩
      · rw [hr, if_neg (by rw [hlane]; decide), if_pos hfree]
        exact ⟨_, .askedLane _ (by rfl), rfl⟩
      · rw [hr, if_neg (by rw [hlane]; decide), if_neg hfree]
        exact ⟨_, .askedLane _ (by rfl), rfl⟩
  | laneHeld =>
      simp only [advanceTask, requestPool, nextStage]
      obtain ⟨hpool, hr⟩ | ⟨hpool, hfree, hr⟩ | ⟨hpool, hfree, hr⟩ :=
        e.pool.request_cases id
      · rw [hr, if_pos hpool]
        exact ⟨_, .rest, rfl⟩
      · rw [hr, if_neg (by rw [hpool]; decide), if_pos hfree]
        exact ⟨_, .askedPool _, rfl⟩
      · rw [hr, if_neg (by rw [hpool]; decide), if_neg hfree]
        exact ⟨_, .askedPool _, rfl⟩
  | laneQueued | poolQueued =>
      simp only [advanceTask, nextStage]
      split
      · exact ⟨_, .rest, rfl⟩
      · exact ⟨_, .rest, hself⟩
  | laneGranted =>
      simp only [advanceTask, nextStage]
      split
      · exact ⟨_, .gaveLane, rfl⟩
      · exact ⟨_, .rest, rfl⟩
  | poolGranted =>
      simp only [advanceTask, nextStage]
      split
      · exact ⟨_, .gavePool, rfl⟩
      · exact ⟨_, .rest, rfl⟩
  | poolHeld =>
      simp only [advanceTask, nextStage]
      split <;> exact ⟨_, .rest, rfl⟩
  | calculated result =>
      cases result with
      | ok marks => exact ⟨_, .merged marks, rfl⟩
      | error error => exact ⟨_, .rest, rfl⟩
  | ending held result =>
      cases held with
      | both => exact ⟨_, .gavePool, rfl⟩
      | lane => exact ⟨_, .gaveLane, rfl⟩
      | none => exact ⟨_, .noted result rfl, rfl⟩
  | noted result => exact ⟨_, .delivered result, rfl⟩
  | delivered result => exact ⟨_, .discounted, rfl⟩
  | calculating | rejected _ | finished _ => exact ⟨_, .rest, hself⟩

-- ================================================== who is there

/-- A change that brings neither tasks nor tokens. -/
structure Frame (e e' : Executor) : Prop where
  tasks : e'.tasks.length = e.tasks.length
  tokens : e'.tokens.length = e.tokens.length
  config : e'.config = e.config

theorem Frame.refl (e : Executor) : Frame e e := ⟨rfl, rfl, rfl⟩

theorem Frame.setStage (h : Frame e e') (id : Nat) (stage : Stage) :
    Frame e (e'.setStage id stage) :=
  ⟨(List.length_modify _ _ _).trans h.tasks, h.tokens, h.config⟩

theorem frame_modifyToken (k : Nat) (f : Token → Token) :
    Frame e (e.modifyToken k f) :=
  ⟨rfl, List.length_modify _ _ _, rfl⟩

theorem Frame.grantTo (h : Frame e e') (stage : Stage) (granted : Option Nat) :
    Frame e (e'.grantTo stage granted) := by
  cases granted with
  | none => exact h
  | some id => exact h.setStage id stage

theorem frame_releaseLane (k : Nat) : Frame e (e.releaseLane k) := by
  unfold releaseLane
  split
  · exact .refl e
  · exact (frame_modifyToken k _).grantTo _ _

theorem frame_releasePool : Frame e e.releasePool := by
  have hset : Frame e { e with pool := e.pool.release.1 } := ⟨rfl, rfl, rfl⟩
  exact hset.grantTo .poolGranted e.pool.release.2

theorem frame_turn (h : e.Turn id t token e') : Frame e e' := by
  cases h with
  | rest => exact .refl e
  | askedLane | discounted => exact frame_modifyToken _ _
  | counted =>
      have hcounted := frame_modifyToken (e := e) t.token fun token =>
        { token with pending := token.pending + 1 }
      exact ⟨hcounted.tasks, hcounted.tokens, hcounted.config⟩
  | askedPool | merged | delivered => exact ⟨rfl, rfl, rfl⟩
  | gaveLane => exact frame_releaseLane _
  | gavePool => exact frame_releasePool
  | noted result =>
      cases result with
      | ok _ => exact ⟨rfl, rfl, rfl⟩
      | error error =>
          have hfailed := frame_modifyToken (e := e) t.token (·.fail error)
          exact ⟨hfailed.tasks, hfailed.tokens, hfailed.config⟩

theorem frame_advance (id : Nat) : Frame e (e.advance id) := by
  unfold advance
  split
  · exact .refl e
  · rename_i t ht
    split
    · exact .refl e
    · rename_i token _
      obtain ⟨e', hturn, hadvance⟩ := advanceTask_eq ht token
      rw [hadvance]
      exact (frame_turn hturn).setStage _ _

/-- True of the steps that bring neither tasks nor tokens. -/
def Step.isInner : Step → Bool
  | .openToken | .offer .. => false
  | _ => true

theorem frame_step {step : Step} (h : step.isInner = true) :
    Frame e (e.step step) := by
  cases step with
  | openToken | offer => cases h
  | closeToken => exact ⟨rfl, rfl, rfl⟩
  | advance id => exact frame_advance id
  | endCalculation id result =>
      show Frame e (e.endCalculation id result)
      rw [endCalculation_eq]
      split
      · exact (Frame.refl e).setStage _ _
      · exact .refl e
  | cancel k => exact frame_modifyToken k _
  | shutDown =>
      show Frame e e.advanceShutDown
      unfold advanceShutDown
      split <;> exact ⟨rfl, rfl, rfl⟩

theorem config_step (step : Step) : (e.step step).config = e.config := by
  cases step with
  | openToken =>
      show e.openToken.config = e.config
      unfold openToken
      split <;> rfl
  | offer k work name => rfl
  | closeToken | advance id | endCalculation id result | cancel k | shutDown =>
      exact (frame_step rfl).config

/-- A task that is new was only offered. -/
theorem offered_of_new {step : Step} (ht : (e.step step).tasks[id]? = some t)
    (hnew : e.tasks[id]? = none) : t.stage = .offered := by
  have hlen := (List.getElem?_eq_some_iff.1 ht).1
  rw [List.getElem?_eq_none_iff] at hnew
  cases step with
  | openToken =>
      have htasks : (e.step .openToken).tasks = e.tasks := by
        show e.openToken.tasks = e.tasks
        unfold openToken
        split <;> rfl
      rw [htasks] at hlen
      omega
  | offer k work name =>
      rw [Executor.step, List.getElem?_append_right hnew] at ht
      obtain rfl := List.mem_singleton.1 (List.mem_of_getElem? ht)
      rfl
  | closeToken | advance id | endCalculation id result | cancel k | shutDown =>
      rw [(frame_step rfl).tasks] at hlen
      omega

/-- A token that is new has nothing but all permits of its lane. -/
theorem token_of_new {step : Step} {token : Token}
    (htoken : (e.step step).tokens[k]? = some token)
    (hnew : e.tokens[k]? = none) :
    token = { lane := { free := e.config.tokenConcurrency.toNat } }
      ∧ (e.step step).tasks = e.tasks := by
  have hlen := (List.getElem?_eq_some_iff.1 htoken).1
  rw [List.getElem?_eq_none_iff] at hnew
  cases step with
  | openToken =>
      have hstep : e.step .openToken = e.openToken := rfl
      rw [hstep] at htoken hlen ⊢
      unfold openToken at htoken hlen ⊢
      split at htoken
      · rw [if_pos ‹_›]
        rw [report, List.getElem?_append_right hnew] at htoken
        obtain rfl := List.mem_singleton.1 (List.mem_of_getElem? htoken)
        exact ⟨rfl, rfl⟩
      · rw [if_neg ‹_›] at hlen
        omega
  | offer k work name => exact absurd hlen (Nat.not_lt.2 hnew)
  | closeToken | advance id | endCalculation id result | cancel k | shutDown =>
      rw [(frame_step rfl).tokens] at hlen
      omega

-- ================================================== one task

/-- Where a task goes by a step of someone else: nowhere, or out of a
queue. -/
inductive Granted : Stage → Stage → Prop
  | stays (stage : Stage) : Granted stage stage
  | lane : Granted .laneQueued .laneGranted
  | pool : Granted .poolQueued .poolGranted

/-- True when a task is where it was, or was moved out of a queue. -/
def Keeps (e e' : Executor) (j : Nat) : Prop :=
  ∀ t, e.tasks[j]? = some t →
    ∃ stage, e'.tasks[j]? = some { t with stage } ∧ Granted t.stage stage

theorem Keeps.of_tasks (h : e'.tasks = e.tasks) : Keeps e e' j :=
  fun t ht => ⟨t.stage, (congrArg (·[j]?) h).trans ht, .stays _⟩

theorem Keeps.setStage (h : Keeps e e' j) (hj : j ≠ id) (stage : Stage) :
    Keeps e (e'.setStage id stage) j := by
  intro t ht
  obtain ⟨stage', ht', hgranted⟩ := h t ht
  exact ⟨stage', (tasks_setStage_of_ne stage hj).trans ht', hgranted⟩

/-- Who is given a permit waits for it. -/
theorem keeps_setStage_granted {other : Job} {stage : Stage}
    (htasks : e'.tasks = e.tasks) (hother : e.tasks[id]? = some other)
    (hgranted : Granted other.stage stage) (j : Nat) :
    Keeps e (e'.setStage id stage) j := by
  by_cases hj : j = id
  · subst hj
    intro t ht
    obtain rfl := Option.some.inj (hother.symm.trans ht)
    exact ⟨stage, tasks_setStage_self stage (htasks ▸ ht), hgranted⟩
  · exact (Keeps.of_tasks htasks).setStage hj stage

theorem keeps_releaseLane (h : e.Orderly) (k j : Nat) :
    Keeps e (e.releaseLane k) j := by
  unfold releaseLane
  split
  · exact .of_tasks rfl
  · rename_i token htoken
    rw [Permits.release]
    cases hw : token.lane.waiting with
    | nil => exact .of_tasks rfl
    | cons first rest =>
        obtain ⟨t, ht, -, hstage⟩ :=
          (h.lanes k token htoken).waits first (hw ▸ List.mem_cons_self ..)
        exact keeps_setStage_granted (by rfl) ht
          (hstage ▸ .lane) j

theorem keeps_releasePool (h : e.Orderly) (j : Nat) : Keeps e e.releasePool j := by
  rw [releasePool, Permits.release]
  cases hw : e.pool.waiting with
  | nil => exact .of_tasks rfl
  | cons first rest =>
      obtain ⟨t, ht, hstage⟩ := h.pool.waits first (hw ▸ List.mem_cons_self ..)
      exact keeps_setStage_granted (by rfl) ht
        (hstage ▸ .pool) j

theorem keeps_turn (h : e.Orderly) (hturn : e.Turn id t token e') (j : Nat) :
    Keeps e e' j := by
  cases hturn with
  | gaveLane => exact keeps_releaseLane h _ j
  | gavePool => exact keeps_releasePool h j
  | noted result => cases result <;> exact .of_tasks rfl
  | rest | counted | askedLane | askedPool | merged | delivered | discounted =>
      exact .of_tasks rfl

/-- Where a task goes by its own step. -/
theorem stage_advance (h : e.Orderly) (ht : e.tasks[id]? = some t)
    (htoken : e.tokens[t.token]? = some token) :
    (e.advance id).tasks[id]?
      = some { t with stage := e.nextStage token t.stage } := by
  obtain ⟨e', hturn, hadvance⟩ := advanceTask_eq ht token
  obtain ⟨stage, ht', -⟩ := keeps_turn h hturn id t ht
  simp only [advance, ht, htoken, hadvance]
  exact (tasks_setStage_self (t := { t with stage }) _ ht').trans rfl

/-- Where a step moves a task. -/
inductive Moves (e : Executor) (id : Nat) (t : Job) : Step → Stage → Prop
  | turn {token : Token} (htoken : e.tokens[t.token]? = some token) :
      Moves e id t (.advance id) (e.nextStage token t.stage)
  | ended (result : Except CalcError DeleteBitmap)
      (hstage : t.stage = .calculating) :
      Moves e id t (.endCalculation id result) (.calculated result)
  | granted {stage : Stage} (step : Step) (hgranted : Granted t.stage stage) :
      Moves e id t step stage

/-- Every step moves a task by its own turn, by the end of its calculation, or
out of a queue. -/
theorem stage_step (h : e.Orderly) (ht : e.tasks[id]? = some t) (step : Step) :
    ∃ stage, (e.step step).tasks[id]? = some { t with stage }
      ∧ e.Moves id t step stage := by
  have hkept : Keeps e (e.step step) id →
      ∃ stage, (e.step step).tasks[id]? = some { t with stage }
        ∧ e.Moves id t step stage := fun hkeeps => by
    obtain ⟨stage, ht', hgranted⟩ := hkeeps t ht
    exact ⟨stage, ht', .granted step hgranted⟩
  cases step with
  | openToken =>
      refine hkept (.of_tasks ?_)
      show e.openToken.tasks = e.tasks
      unfold openToken
      split <;> rfl
  | closeToken => exact hkept (.of_tasks rfl)
  | offer k work name =>
      refine hkept fun t ht => ⟨t.stage, ?_, .stays _⟩
      rw [Executor.step,
        List.getElem?_append_left (List.getElem?_eq_some_iff.1 ht).1]
      exact ht
  | advance j =>
      show ∃ stage, (e.advance j).tasks[id]? = _ ∧ _
      cases hj : e.tasks[j]? with
      | none => exact hkept (.of_tasks (by simp only [Executor.step, advance, hj]))
      | some other =>
          cases htoken : e.tokens[other.token]? with
          | none =>
              exact hkept (.of_tasks (by
                simp only [Executor.step, advance, hj, htoken]))
          | some token =>
              by_cases hid : id = j
              · subst hid
                obtain rfl := Option.some.inj (ht.symm.trans hj)
                exact ⟨_, stage_advance h ht htoken, .turn htoken⟩
              · obtain ⟨e', hturn, hadvance⟩ := advanceTask_eq hj token
                refine hkept ?_
                simp only [Executor.step, advance, hj, htoken, hadvance]
                exact (keeps_turn h hturn id).setStage hid _
  | endCalculation j result =>
      by_cases hc : e.isCalculating j = true
      · have hstep : e.step (.endCalculation j result)
            = e.setStage j (.calculated result) :=
          (endCalculation_eq j result).trans (if_pos hc)
        by_cases hid : id = j
        · subst hid
          obtain ⟨t', ht', hstage⟩ := stage_of_isCalculating hc
          obtain rfl := Option.some.inj (ht.symm.trans ht')
          exact ⟨_, hstep ▸ tasks_setStage_self _ ht, .ended result hstage⟩
        · exact hkept (hstep ▸ Keeps.setStage (.of_tasks rfl) hid _)
      · have hstep : e.step (.endCalculation j result) = e :=
          (endCalculation_eq j result).trans (if_neg hc)
        exact hkept (.of_tasks (congrArg Executor.tasks hstep))
  | cancel k => exact hkept (.of_tasks rfl)
  | shutDown =>
      refine hkept (.of_tasks ?_)
      show e.advanceShutDown.tasks = e.tasks
      unfold advanceShutDown
      split <;> rfl

-- ================================================== one token

/-- The error that a step records as the status of a token, unless there is
one already: that of a task whose end is noted, or that it was cancelled. -/
def failure? (e : Executor) (k : Nat) : Step → Option CalcError
  | .advance id =>
    match e.tasks[id]? with
    | some { token, stage := .ending .none (.error error), .. } =>
      if token = k then some error else none
    | _ => none
  | .cancel token =>
    if token = k ∧ (e.tokens[k]?).any (·.cancel = .closed) then some .cancelled
    else none
  | _ => none

/-- True of the steps of whoever cancels a token. -/
def Step.cancels (k : Nat) : Step → Bool
  | .cancel token => token = k
  | _ => false

/-- True when tokens have their status, and are as far cancelled. -/
def Steady (e e' : Executor) : Prop :=
  ∀ (k : Nat) (token : Token), e.tokens[k]? = some token →
    ∃ token', e'.tokens[k]? = some token' ∧ token'.status = token.status
      ∧ token'.cancel = token.cancel
      ∧ token'.lane.closed = token.lane.closed

theorem Steady.of_tokens (h : e'.tokens = e.tokens) : Steady e e' :=
  fun k token htoken =>
    ⟨token, (congrArg (·[k]?) h).trans htoken, rfl, rfl, rfl⟩

theorem steady_modifyToken {f : Token → Token}
    (hf : ∀ token, e.tokens[k]? = some token → (f token).status = token.status
      ∧ (f token).cancel = token.cancel
      ∧ (f token).lane.closed = token.lane.closed) :
    Steady e (e.modifyToken k f) := by
  intro j token htoken
  by_cases hj : k = j
  · subst hj
    refine ⟨f token, ?_, hf token htoken⟩
    rw [modifyToken, List.getElem?_modify_eq, htoken]
    rfl
  · refine ⟨token, ?_, rfl, rfl, rfl⟩
    rw [modifyToken, List.getElem?_modify_ne _ _ hj, htoken]

theorem steady_releaseLane (k : Nat) : Steady e (e.releaseLane k) := by
  unfold releaseLane
  split
  · exact .of_tokens rfl
  · rename_i token htoken
    rw [Permits.release]
    cases token.lane.waiting with
    | nil | cons =>
        refine steady_modifyToken fun token' htoken' => ⟨rfl, rfl, ?_⟩
        obtain rfl := Option.some.inj (htoken.symm.trans htoken')
        rfl

theorem steady_releasePool : Steady e e.releasePool := by
  rw [releasePool, Permits.release]
  cases e.pool.waiting <;> exact .of_tokens rfl

/-- A turn in which no end is noted. -/
theorem steady_turn (h : e.Turn id t token e')
    (htoken : e.tokens[t.token]? = some token)
    (hstage : ∀ result, t.stage ≠ .ending .none result) : Steady e e' := by
  cases h with
  | rest | askedPool | merged | delivered => exact .of_tokens rfl
  | counted | discounted =>
      exact steady_modifyToken fun _ _ => ⟨rfl, rfl, rfl⟩
  | askedLane lane hclosed =>
      refine steady_modifyToken fun token' htoken' => ⟨rfl, rfl, ?_⟩
      obtain rfl := Option.some.inj (htoken.symm.trans htoken')
      exact hclosed
  | gaveLane => exact steady_releaseLane _
  | gavePool => exact steady_releasePool
  | noted result hnoted => exact absurd hnoted (hstage result)

/-- What a step does to a token: the first error that is recorded is its
status, and cancelling goes on. -/
structure TokenStep (e : Executor) (k : Nat) (token : Token) (step : Step)
    (token' : Token) : Prop where
  status : token'.status = (token.status <|> e.failure? k step)
  cancel : token'.cancel
    = if step.cancels k then token.cancel.next else token.cancel
  closed : token'.lane.closed
    = (token.lane.closed || (step.cancels k && token.cancel = .raised))

theorem Steady.tokenStep {step : Step} (h : Steady e e')
    (htoken : e.tokens[k]? = some token)
    (hfailure : e.failure? k step = none) (hcancels : step.cancels k = false) :
    ∃ token', e'.tokens[k]? = some token' ∧ e.TokenStep k token step token' := by
  obtain ⟨token', htoken', hstatus, hcancel, hclosed⟩ := h k token htoken
  refine ⟨token', htoken', ?_, ?_, ?_⟩
  · rw [hstatus, hfailure]
    cases token.status <;> rfl
  · rw [hcancel, hcancels]
    rfl
  · rw [hclosed, hcancels]
    simp

theorem failure?_advance_of_ne (ht : e.tasks[id]? = some t)
    (h : ∀ error, t.stage = .ending .none (.error error) → t.token ≠ k) :
    e.failure? k (.advance id) = none := by
  obtain ⟨token, work, name, stage⟩ := t
  rw [failure?, ht]
  cases stage with
  | ending held result =>
      cases held with
      | none =>
          cases result with
          | ok _ => rfl
          | error error => exact if_neg (h error rfl)
      | lane | both => rfl
  | _ => rfl

/-- The end of a task is noted for its token. -/
theorem tokenStep_noteEnd {result : Except CalcError Unit}
    (ht : e.tasks[id]? = some t) (hstage : t.stage = .ending .none result)
    (htoken : e.tokens[k]? = some token) :
    ∃ token', (e.noteEnd t result).tokens[k]? = some token'
      ∧ e.TokenStep k token (.advance id) token' := by
  cases result with
  | ok _ =>
      refine (Steady.of_tokens (e := e) rfl).tokenStep htoken ?_ rfl
      exact failure?_advance_of_ne ht fun error herror => by
        rw [hstage] at herror
        cases herror
  | error error =>
      by_cases hk : t.token = k
      · subst hk
        have hfailure : e.failure? t.token (.advance id) = some error := by
          obtain ⟨k, work, name, stage⟩ := t
          obtain rfl : stage = .ending .none (.error error) := hstage
          rw [failure?, ht]
          exact if_pos rfl
        refine ⟨token.fail error, ?_, ?_, rfl, ?_⟩
        · show (e.tokens.modify t.token _)[t.token]? = _
          rw [List.getElem?_modify_eq, htoken]
          rfl
        · rw [hfailure]
          rfl
        · simp [Token.fail, Step.cancels]
      · refine ⟨token, ?_, ?_, rfl, ?_⟩
        · show (e.tokens.modify t.token _)[k]? = _
          rw [List.getElem?_modify_ne _ _ hk, htoken]
        · rw [failure?_advance_of_ne ht fun _ _ => hk]
          cases token.status <;> rfl
        · simp [Step.cancels]

theorem token_advance (id : Nat) (htoken : e.tokens[k]? = some token) :
    ∃ token', (e.advance id).tokens[k]? = some token'
      ∧ e.TokenStep k token (.advance id) token' := by
  cases ht : e.tasks[id]? with
  | none =>
      have hstill : e.advance id = e := by rw [advance, ht]
      rw [hstill]
      exact (Steady.of_tokens rfl).tokenStep htoken (by rw [failure?, ht]) rfl
  | some t =>
      cases hother : e.tokens[t.token]? with
      | none =>
          have hstill : e.advance id = e := by simp only [advance, ht, hother]
          rw [hstill]
          refine (Steady.of_tokens rfl).tokenStep htoken ?_ rfl
          refine failure?_advance_of_ne ht fun _ _ hk => ?_
          rw [hk, htoken] at hother
          cases hother
      | some other =>
          have hadvance : e.advance id = e.advanceTask id t other := by
            simp only [advance, ht, hother]
          rw [hadvance]
          by_cases hnoted : ∃ result, t.stage = .ending .none result
          · obtain ⟨result, hstage⟩ := hnoted
            have hturn : e.advanceTask id t other
                = (e.noteEnd t result).setStage id (.noted result) := by
              rw [advanceTask, hstage]
            rw [hturn]
            exact tokenStep_noteEnd ht hstage htoken
          · have hnoted : ∀ result, t.stage ≠ .ending .none result :=
              fun result hstage => hnoted ⟨result, hstage⟩
            obtain ⟨e', hturn, heq⟩ := advanceTask_eq ht other
            rw [heq]
            exact (steady_turn hturn hother hnoted).tokenStep htoken
              (failure?_advance_of_ne ht fun error hstage =>
                absurd hstage (hnoted _)) rfl

theorem token_cancel (j : Nat) (htoken : e.tokens[k]? = some token) :
    ∃ token', (e.modifyToken j advanceCancel).tokens[k]? = some token'
      ∧ e.TokenStep k token (.cancel j) token' := by
  by_cases hj : j = k
  · subst hj
    refine ⟨advanceCancel token, ?_, ?_⟩
    · rw [modifyToken, List.getElem?_modify_eq, htoken]
      rfl
    · cases hcancel : token.cancel <;> constructor <;>
        simp [advanceCancel, Token.fail, failure?, Step.cancels, Stopping.next,
          Permits.close, htoken, hcancel]
  · refine ⟨token, ?_, ?_⟩
    · rw [modifyToken, List.getElem?_modify_ne _ _ hj, htoken]
    · constructor <;> simp [failure?, Step.cancels, hj]

theorem token_step (htoken : e.tokens[k]? = some token) (step : Step) :
    ∃ token', (e.step step).tokens[k]? = some token'
      ∧ e.TokenStep k token step token' := by
  cases step with
  | advance id => exact token_advance id htoken
  | cancel j => exact token_cancel j htoken
  | openToken =>
      refine Steady.tokenStep (fun k token htoken => ⟨token, ?_, rfl, rfl, rfl⟩)
        htoken rfl rfl
      show e.openToken.tokens[k]? = _
      unfold openToken
      split
      · rw [report,
          List.getElem?_append_left (List.getElem?_eq_some_iff.1 htoken).1]
        exact htoken
      · exact htoken
  | closeToken | offer k' work name =>
      exact (Steady.of_tokens (by rfl)).tokenStep htoken rfl rfl
  | endCalculation id result =>
      refine Steady.tokenStep (.of_tokens ?_) htoken rfl rfl
      show (e.endCalculation id result).tokens = e.tokens
      rw [endCalculation_eq]
      split <;> rfl
  | shutDown =>
      refine Steady.tokenStep (.of_tokens ?_) htoken rfl rfl
      show e.advanceShutDown.tokens = e.tokens
      unfold advanceShutDown
      split <;> rfl

-- ================================================== stopping

/-- True of a token that is being cancelled, or was. -/
def IsCancelled (e : Executor) (k : Nat) : Prop :=
  ∃ token, e.tokens[k]? = some token ∧ token.cancel ≠ .no

/-- The flag of cancelling stays up. -/
theorem IsCancelled.step (h : e.IsCancelled k) (step : Step) :
    (e.step step).IsCancelled k := by
  obtain ⟨token, htoken, hcancel⟩ := h
  obtain ⟨token', htoken', hstep⟩ := token_step htoken step
  refine ⟨token', htoken', ?_⟩
  rw [hstep.cancel]
  split
  · cases token.cancel <;> nofun
  · exact hcancel

/-- Whose flag goes up is being cancelled. -/
theorem isCancelled_of_step {step : Step} (h : (e.step step).IsCancelled k) :
    e.IsCancelled k ∨ step = .cancel k := by
  obtain ⟨token', htoken', hcancel'⟩ := h
  cases htoken : e.tokens[k]? with
  | none =>
      obtain ⟨rfl, -⟩ := token_of_new htoken' htoken
      exact absurd rfl hcancel'
  | some token =>
      obtain ⟨token'', htoken'', hstep⟩ := token_step htoken step
      obtain rfl := Option.some.inj (htoken'.symm.trans htoken'')
      rw [hstep.cancel] at hcancel'
      split at hcancel'
      · rename_i hcancels
        cases step with
        | cancel j =>
            obtain rfl : j = k := of_decide_eq_true hcancels
            exact .inr rfl
        | _ => cases hcancels
      · exact .inl ⟨token, htoken, hcancel'⟩

/-- True when the only lanes that are closed are those of tokens that are
cancelled. -/
def Welcoming (e : Executor) : Prop :=
  ∀ (k : Nat) (token : Token), e.tokens[k]? = some token →
    token.lane.closed = true → token.cancel ≠ .no

theorem Welcoming.step (h : e.Welcoming) (step : Step) :
    (e.step step).Welcoming := by
  intro k token' htoken' hclosed
  cases htoken : e.tokens[k]? with
  | none =>
      obtain ⟨rfl, -⟩ := token_of_new htoken' htoken
      cases hclosed
  | some token =>
      obtain ⟨token'', htoken'', hstep⟩ := token_step htoken step
      obtain rfl := Option.some.inj (htoken'.symm.trans htoken'')
      rw [hstep.closed, Bool.or_eq_true] at hclosed
      rw [hstep.cancel]
      rcases hclosed with hclosed | hcloses
      · split
        · cases token.cancel <;> nofun
        · exact h k token htoken hclosed
      · obtain ⟨hcancels, hraised⟩ := (Bool.and_eq_true ..).mp hcloses
        rw [if_pos hcancels, of_decide_eq_true hraised]
        nofun

end Executor

end MergeOnWrite
