/-
The pool and the lanes of an executor as desks.

A task stands to the pool and to the lane of its token as its stage says.
Each step of the executor is, at each of these desks, one of the few things
that can happen there; most steps are nothing at most desks. Which task a
returned permit moves on is told by the desk itself: who waits there is at
the stage of waiting there (`Balanced.poolQueued`, `Balanced.laneQueued`), so
the other desks do not see it. And whichever task is moved on by a step comes
further in the order of stages, whoever's step it is.

# Main statements

- `atDesks_step`: what a step is at the desks and to the tasks.
- `balanced_step`: the permits of the pool and of every lane are accounted
  for in every state.
- `onward_advance`: a task that can go on comes further by its own step.
-/
import MergeOnWrite.Proofs.Calc.Permits
import MergeOnWrite.Proofs.Calc.Turns

namespace MergeOnWrite

-- ================================================== standings

/-- How a task stands to the lane of its token. -/
def Stage.laneStanding : Stage → Standing
  | .laneQueued => .queued
  | .laneGranted | .laneHeld | .poolQueued | .poolGranted | .poolHeld
  | .calculating | .calculated _ | .ending .both _ | .ending .lane _ =>
    .holding
  | _ => .apart

/-- How a task stands to the pool. -/
def Stage.poolStanding : Stage → Standing
  | .poolQueued => .queued
  | .poolGranted | .poolHeld | .calculating | .calculated _
  | .ending .both _ => .holding
  | _ => .apart

/-- How far a task has come. -/
def Stage.depth : Stage → Nat
  | .offered => 0
  | .statusChecked => 1
  | .cancelChecked => 2
  | .shutDownChecked => 3
  | .rejected _ | .accepted => 4
  | .laneQueued => 5
  | .laneGranted => 6
  | .laneHeld => 7
  | .poolQueued => 8
  | .poolGranted => 9
  | .poolHeld => 10
  | .calculating => 11
  | .calculated _ => 12
  | .ending .both _ => 13
  | .ending .lane _ => 14
  | .ending .none _ => 15
  | .noted _ => 16
  | .delivered _ => 17
  | .finished _ => 18

namespace Executor

variable {e e' e'' : Executor} {id k : Nat} {t : Job} {stage : Stage}

/-- The lane of a token. -/
def lane? (e : Executor) (k : Nat) : Option Permits :=
  e.tokens[k]?.map Token.lane

def poolStandings (e : Executor) : List Standing :=
  e.tasks.map fun t => t.stage.poolStanding

/-- How the tasks stand to a lane; those of other tokens stand apart. -/
def laneStandings (e : Executor) (k : Nat) : List Standing :=
  e.tasks.map fun t => if t.token = k then t.stage.laneStanding else .apart

def poolDesk (e : Executor) : Desk := ⟨e.pool, e.poolStandings⟩

def laneDesk (e : Executor) (k : Nat) (lane : Permits) : Desk :=
  ⟨lane, e.laneStandings k⟩

/-- True when all permits are accounted for, and a task whose token is not
open was only offered. -/
structure Balanced (e : Executor) : Prop where
  pool : e.poolDesk.Sound e.config.threads.toNat
  lanes : ∀ k lane, e.lane? k = some lane →
    (e.laneDesk k lane).Sound e.config.tokenConcurrency.toNat
  unopened : ∀ (id : Nat) (t : Job), e.tasks[id]? = some t →
    e.tokens[t.token]? = none → t.stage = .offered

/-- True when each task is at the stage where it was, or further on; only
tasks of tokens that are open come further. -/
def Onward (e e' : Executor) : Prop :=
  ∀ (j : Nat) (t : Job), e.tasks[j]? = some t →
    ∃ stage, e'.tasks[j]? = some { t with stage }
      ∧ (stage = t.stage
        ∨ t.stage.depth < stage.depth ∧ (e.tokens[t.token]?).isSome)

/-- True of a stage to which a task of an open token comes further. -/
structure Goes (e : Executor) (id : Nat) (t : Job) (stage : Stage) : Prop where
  task : e.tasks[id]? = some t
  deeper : t.stage.depth < stage.depth
  opened : (e.tokens[t.token]?).isSome

/-- What the change from one state to another is at the desks and to the
tasks. -/
structure AtDesks (e e' : Executor) : Prop where
  pool : e.poolDesk.Next e'.poolDesk
  lanes : ∀ k lane, e.lane? k = some lane → ∃ lane',
    e'.lane? k = some lane' ∧ (e.laneDesk k lane).Next (e'.laneDesk k lane')
  tasks : Onward e e'

-- ================================================== stages and standings

theorem poolStandings_eq (ht : e.tasks[id]? = some t) :
    e.poolStandings[id]? = some t.stage.poolStanding := by
  rw [poolStandings, List.getElem?_map, ht]
  rfl

theorem laneStandings_eq (ht : e.tasks[id]? = some t) :
    (e.laneStandings t.token)[id]? = some t.stage.laneStanding := by
  rw [laneStandings, List.getElem?_map, ht]
  simp

theorem poolStandings_congr (h : e'.tasks = e.tasks) :
    e'.poolStandings = e.poolStandings := by
  rw [poolStandings, poolStandings, h]

theorem laneStandings_congr (h : e'.tasks = e.tasks) :
    e'.laneStandings k = e.laneStandings k := by
  rw [laneStandings, laneStandings, h]

theorem poolStandings_setStage :
    (e.setStage id stage).poolStandings
      = e.poolStandings.set id stage.poolStanding := by
  rw [poolStandings, setStage, List.set_eq_modify]
  exact map_modify fun _ _ => rfl

theorem laneStandings_setStage_of_ne (ht : e.tasks[id]? = some t)
    (hk : t.token ≠ k) :
    (e.setStage id stage).laneStandings k = e.laneStandings k := by
  have hself : (e.laneStandings k).modify id (fun s => s) = e.laneStandings k :=
    modify_eq_self fun _ _ => rfl
  rw [← hself]
  refine map_modify fun t' ht' => ?_
  obtain rfl := Option.some.inj (ht.symm.trans ht')
  simp [hk]

theorem laneStandings_setStage (ht : e.tasks[id]? = some t) :
    (e.setStage id stage).laneStandings t.token
      = (e.laneStandings t.token).set id stage.laneStanding := by
  rw [laneStandings, setStage, List.set_eq_modify]
  refine map_modify fun t' ht' => ?_
  obtain rfl := Option.some.inj (ht.symm.trans ht')
  simp

theorem set_eq_self {α : Type} {l : List α} {i : Nat} {a : α}
    (h : l[i]? = some a) : l.set i a = l := by
  rw [List.set_eq_modify]
  exact modify_eq_self fun b hb => Option.some.inj (h.symm.trans hb)

/-- The pool does not see a change of stage that keeps the standing. -/
theorem poolStandings_setStage_same (ht : e.tasks[id]? = some t)
    (h : stage.poolStanding = t.stage.poolStanding) :
    (e.setStage id stage).poolStandings = e.poolStandings := by
  rw [poolStandings_setStage, h]
  exact set_eq_self (poolStandings_eq ht)

theorem laneStandings_setStage_same (ht : e.tasks[id]? = some t)
    (h : stage.laneStanding = t.stage.laneStanding) (k : Nat) :
    (e.setStage id stage).laneStandings k = e.laneStandings k := by
  by_cases hk : t.token = k
  · subst hk
    rw [laneStandings_setStage ht, h]
    exact set_eq_self (laneStandings_eq ht)
  · exact laneStandings_setStage_of_ne ht hk

/-- Who waits for the pool is at the stage of waiting for it. -/
theorem Balanced.poolQueued (h : e.Balanced) (hid : id ∈ e.pool.waiting) :
    ∃ t, e.tasks[id]? = some t ∧ t.stage = .poolQueued := by
  have hstanding := ((h.pool.waits id).1 hid).2
  obtain ⟨t, ht, hs⟩ :=
    Option.map_eq_some_iff.1 ((List.getElem?_map ..).symm.trans hstanding)
  refine ⟨t, ht, ?_⟩
  revert hs
  unfold Stage.poolStanding
  split <;> simp_all

/-- Who waits for a lane is a task of its token, at the stage of waiting for
it. -/
theorem Balanced.laneQueued {lane : Permits} (h : e.Balanced)
    (hlane : e.lane? k = some lane) (hid : id ∈ lane.waiting) :
    ∃ t, e.tasks[id]? = some t ∧ t.token = k ∧ t.stage = .laneQueued := by
  have hstanding := (((h.lanes k lane hlane).waits id).1 hid).2
  obtain ⟨t, ht, hs⟩ :=
    Option.map_eq_some_iff.1 ((List.getElem?_map ..).symm.trans hstanding)
  by_cases hk : t.token = k
  · refine ⟨t, ht, hk, ?_⟩
    rw [if_pos hk] at hs
    revert hs
    unfold Stage.laneStanding
    split <;> simp_all
  · rw [if_neg hk] at hs
    cases hs

theorem Balanced.opened (h : e.Balanced) (ht : e.tasks[id]? = some t)
    (hstage : t.stage ≠ .offered) : (e.tokens[t.token]?).isSome := by
  cases htoken : e.tokens[t.token]? with
  | none => exact absurd (h.unopened id t ht htoken) hstage
  | some token => rfl

-- ================================================== tasks

theorem Onward.of_tasks (h : e'.tasks = e.tasks) : Onward e e' :=
  fun j t ht => ⟨t.stage, (congrArg (·[j]?) h).trans ht, .inl rfl⟩

theorem Goes.onward (h : e.Goes id t stage) (htasks : e'.tasks = e.tasks) :
    Onward e (e'.setStage id stage) := by
  intro j t' ht'
  by_cases hj : j = id
  · subst hj
    obtain rfl := Option.some.inj (h.task.symm.trans ht')
    exact ⟨stage, tasks_setStage_self stage (htasks ▸ ht'),
      .inr ⟨h.deeper, h.opened⟩⟩
  · refine ⟨t'.stage, ?_, .inl rfl⟩
    rw [tasks_setStage_of_ne stage hj, htasks]
    exact ht'

/-- Two tasks come further at once. -/
theorem Goes.onward_both {first : Nat} {t' : Job} {stage' : Stage}
    (h : e.Goes id t stage) (hfirst : e.Goes first t' stage')
    (hne : id ≠ first) (htasks : e'.tasks = e.tasks) :
    Onward e ((e'.setStage first stage').setStage id stage) := by
  intro j other hother
  by_cases hj : j = id
  · subst hj
    obtain rfl := Option.some.inj (h.task.symm.trans hother)
    refine ⟨stage, tasks_setStage_self stage ?_, .inr ⟨h.deeper, h.opened⟩⟩
    rw [tasks_setStage_of_ne stage' hne, htasks]
    exact hother
  · obtain ⟨stage'', hstage'', hdepth⟩ := hfirst.onward htasks j other hother
    exact ⟨stage'', (tasks_setStage_of_ne stage hj).trans hstage'', hdepth⟩

-- ================================================== lanes

theorem lane?_modifyToken_of_ne {f : Token → Token} {j : Nat} (h : k ≠ j) :
    (e.modifyToken k f).lane? j = e.lane? j := by
  rw [lane?, modifyToken, List.getElem?_modify_ne _ _ h]
  rfl

theorem lane?_modifyToken_same {f : Token → Token}
    (hf : ∀ token, e.tokens[k]? = some token → (f token).lane = token.lane)
    (j : Nat) : (e.modifyToken k f).lane? j = e.lane? j := by
  by_cases hj : k = j
  · subst hj
    rw [lane?, lane?, modifyToken, List.getElem?_modify_eq]
    cases htoken : e.tokens[k]? with
    | none => rfl
    | some token => simp [hf token htoken]
  · exact lane?_modifyToken_of_ne hj

theorem lane?_setLane {lane lane' : Permits} (h : e.lane? k = some lane) :
    (e.modifyToken k fun t => { t with lane := lane' }).lane? k = some lane' := by
  obtain ⟨token, htoken, -⟩ := Option.map_eq_some_iff.1 h
  rw [lane?, modifyToken, List.getElem?_modify_eq, htoken]
  rfl

-- ================================================== what desks see

/-- A change that no desk sees. -/
structure Unseen (e e' : Executor) : Prop where
  pool : e'.pool = e.pool
  tasks : e'.tasks = e.tasks
  lanes : ∀ k, e'.lane? k = e.lane? k

theorem Unseen.refl (e : Executor) : Unseen e e := ⟨rfl, rfl, fun _ => rfl⟩

theorem Unseen.trans (h : Unseen e e') (h' : Unseen e' e'') : Unseen e e'' :=
  ⟨h'.pool.trans h.pool, h'.tasks.trans h.tasks,
    fun k => (h'.lanes k).trans (h.lanes k)⟩

theorem unseen_modifyToken {f : Token → Token}
    (hf : ∀ token, (f token).lane = token.lane) :
    Unseen e (e.modifyToken k f) :=
  ⟨rfl, rfl, lane?_modifyToken_same fun token _ => hf token⟩

theorem unseen_report (event : WorkerReport) : Unseen e (e.report event) :=
  ⟨rfl, rfl, fun _ => rfl⟩

theorem unseen_mergeMarks (marks : DeleteBitmap) :
    Unseen e (e.mergeMarks t marks) :=
  ⟨rfl, rfl, fun _ => rfl⟩

theorem unseen_deliver (result : Except CalcError Unit) :
    Unseen e (e.deliver id t result) :=
  ⟨rfl, rfl, fun _ => rfl⟩

theorem unseen_noteEnd (result : Except CalcError Unit) :
    Unseen e (e.noteEnd t result) := by
  cases result with
  | ok _ => exact unseen_report _
  | error error =>
      have hfail : Unseen e (e.modifyToken t.token (·.fail error)) :=
        unseen_modifyToken fun _ => rfl
      exact hfail.trans (unseen_report _)

theorem Unseen.atDesks (h : Unseen e e') : AtDesks e e' := by
  have hpool : e'.poolDesk = e.poolDesk := by
    rw [poolDesk, poolDesk, poolStandings_congr h.tasks, h.pool]
  refine ⟨hpool ▸ .rest, fun k lane hk => ⟨lane, (h.lanes k).trans hk, ?_⟩,
    .of_tasks h.tasks⟩
  rw [laneDesk, laneDesk, laneStandings_congr h.tasks]
  exact .rest

/-- A task goes to another stage, and what that is at the pool. -/
theorem atDesks_atPool (htasks : e'.tasks = e.tasks)
    (hlanes : ∀ k, e'.lane? k = e.lane? k) (hgo : e.Goes id t stage)
    (hnext : e.poolDesk.Next
      ⟨e'.pool, e.poolStandings.set id stage.poolStanding⟩)
    (hlane : stage.laneStanding = t.stage.laneStanding) :
    AtDesks e (e'.setStage id stage) := by
  have ht' : e'.tasks[id]? = some t := htasks ▸ hgo.task
  refine ⟨?_, fun k lane hk => ⟨lane, (hlanes k).trans hk, ?_⟩,
    hgo.onward htasks⟩
  · have hdesk : (e'.setStage id stage).poolDesk
        = ⟨e'.pool, e.poolStandings.set id stage.poolStanding⟩ := by
      rw [← poolStandings_congr htasks, ← poolStandings_setStage]
      rfl
    rw [hdesk]
    exact hnext
  · rw [laneDesk, laneDesk, laneStandings_setStage_same ht' hlane,
      laneStandings_congr htasks]
    exact .rest

/-- After a change that no desk sees, a task goes to a stage where it stands
as before. -/
theorem Unseen.atDesks_setStage (h : Unseen e e') (hgo : e.Goes id t stage)
    (hpool : stage.poolStanding = t.stage.poolStanding)
    (hlane : stage.laneStanding = t.stage.laneStanding) :
    AtDesks e (e'.setStage id stage) := by
  refine atDesks_atPool h.tasks h.lanes hgo ?_ hlane
  rw [hpool, set_eq_self (poolStandings_eq hgo.task), h.pool]
  exact .rest

/-- A task goes to another stage, and what that is at the lane of its
token. -/
theorem atDesks_atLane {lane lane' : Permits} (hpool : e'.pool = e.pool)
    (htasks : e'.tasks = e.tasks) (hgo : e.Goes id t stage)
    (hlane : e.lane? t.token = some lane)
    (hlane' : e'.lane? t.token = some lane')
    (hothers : ∀ k, t.token ≠ k → e'.lane? k = e.lane? k)
    (hnext : (e.laneDesk t.token lane).Next
      ⟨lane', (e.laneStandings t.token).set id stage.laneStanding⟩)
    (hstanding : stage.poolStanding = t.stage.poolStanding) :
    AtDesks e (e'.setStage id stage) := by
  have ht' : e'.tasks[id]? = some t := htasks ▸ hgo.task
  refine ⟨?_, fun k held hk => ?_, hgo.onward htasks⟩
  · have hdesk : (e'.setStage id stage).poolDesk = e.poolDesk := by
      rw [poolDesk, poolStandings_setStage_same ht' hstanding,
        poolStandings_congr htasks]
      exact congrArg (Desk.mk · e.poolStandings) hpool
    rw [hdesk]
    exact .rest
  · by_cases hkt : t.token = k
    · subst hkt
      obtain rfl := Option.some.inj (hlane.symm.trans hk)
      refine ⟨lane', hlane', ?_⟩
      have hdesk : (e'.setStage id stage).laneDesk t.token lane'
          = ⟨lane', (e.laneStandings t.token).set id stage.laneStanding⟩ := by
        rw [laneDesk, laneStandings_setStage ht', laneStandings_congr htasks]
      rw [hdesk]
      exact hnext
    · refine ⟨held, (hothers k hkt).trans hk, ?_⟩
      rw [laneDesk, laneDesk, laneStandings_setStage_of_ne ht' hkt,
        laneStandings_congr htasks]
      exact .rest

-- ================================================== permits given back

/-- A task gives its permit of the pool back. -/
theorem atDesks_releasePool (h : e.Balanced) (hgo : e.Goes id t stage)
    (hheld : t.stage.poolStanding = .holding)
    (hpool : stage.poolStanding = .apart)
    (hlane : stage.laneStanding = t.stage.laneStanding) :
    AtDesks e (e.releasePool.setStage id stage) := by
  have hid := (poolStandings_eq hgo.task).trans (congrArg some hheld)
  cases hw : e.pool.waiting with
  | nil =>
      rw [releasePool, Permits.release_of_nil hw]
      refine atDesks_atPool (by rfl) (fun _ => by rfl) hgo
        ?_ hlane
      rw [hpool]
      exact .gaveBack hid hw
  | cons first rest =>
      rw [releasePool, Permits.release_of_cons hw]
      -- who is first moves on as well, which the lanes do not see
      obtain ⟨t', ht', hstage⟩ := h.poolQueued (hw ▸ List.mem_cons_self ..)
      have hfirst : e.Goes first t' .poolGranted :=
        ⟨ht', by rw [hstage]; decide, h.opened ht' fun hrejected => by
          rw [hstage] at hrejected
          cases hrejected⟩
      have hne : id ≠ first := by
        rintro rfl
        obtain rfl := Option.some.inj (hgo.task.symm.trans ht')
        rw [hstage] at hheld
        cases hheld
      let given : Executor := { e with pool := { e.pool with waiting := rest } }
      have hmoved : (given.setStage first .poolGranted).tasks[id]? = some t :=
        (tasks_setStage_of_ne _ hne).trans hgo.task
      show AtDesks e ((given.setStage first .poolGranted).setStage id stage)
      refine ⟨?_, fun k lane hk => ⟨lane, hk, ?_⟩,
        hgo.onward_both hfirst hne rfl⟩
      · have hdesk : ((given.setStage first .poolGranted).setStage id
            stage).poolDesk = ⟨{ e.pool with waiting := rest },
              (e.poolStandings.set first .holding).set id .apart⟩ := by
          refine congrArg (Desk.mk _) ?_
          rw [poolStandings_setStage, poolStandings_setStage, hpool]
          rfl
        rw [hdesk]
        exact .passedOn hid hw
      · have hsame : (given.setStage first .poolGranted).laneStandings k
            = e.laneStandings k :=
          laneStandings_setStage_same (e := given) ht' (by rw [hstage]; rfl) k
        rw [laneDesk, laneDesk, laneStandings_setStage_same hmoved hlane, hsame]
        exact .rest

/-- A task gives its permit of the lane back. -/
theorem atDesks_releaseLane {token : Token} (h : e.Balanced)
    (hgo : e.Goes id t stage) (htoken : e.tokens[t.token]? = some token)
    (hheld : t.stage.laneStanding = .holding)
    (hlane : stage.laneStanding = .apart)
    (hpool : stage.poolStanding = t.stage.poolStanding) :
    AtDesks e ((e.releaseLane t.token).setStage id stage) := by
  have hid := (laneStandings_eq hgo.task).trans (congrArg some hheld)
  have hk : e.lane? t.token = some token.lane := by rw [lane?, htoken]; rfl
  cases hw : token.lane.waiting with
  | nil =>
      simp only [releaseLane, htoken, Permits.release_of_nil hw]
      refine atDesks_atLane rfl rfl hgo hk (lane?_setLane hk)
        (fun k hne => lane?_modifyToken_of_ne hne) ?_ hpool
      rw [hlane]
      exact .gaveBack hid hw
  | cons first rest =>
      simp only [releaseLane, htoken, Permits.release_of_cons hw]
      obtain ⟨t', ht', htoken', hstage⟩ :=
        h.laneQueued hk (hw ▸ List.mem_cons_self ..)
      have hfirst : e.Goes first t' .laneGranted :=
        ⟨ht', by rw [hstage]; decide, h.opened ht' (by rw [hstage]; nofun)⟩
      have hne : id ≠ first := by
        rintro rfl
        obtain rfl := Option.some.inj (hgo.task.symm.trans ht')
        rw [hstage] at hheld
        cases hheld
      let given : Executor := e.modifyToken t.token fun tk =>
        { tk with lane := { token.lane with waiting := rest } }
      have hgiven : given.tasks[first]? = some t' := ht'
      have hmoved : (given.setStage first .laneGranted).tasks[id]? = some t :=
        (tasks_setStage_of_ne _ hne).trans hgo.task
      show AtDesks e ((given.setStage first .laneGranted).setStage id stage)
      refine ⟨?_, fun k held hheldk => ?_, hgo.onward_both hfirst hne rfl⟩
      · have hdesk : ((given.setStage first .laneGranted).setStage id
            stage).poolDesk = e.poolDesk := by
          refine congrArg (Desk.mk _) ?_
          rw [poolStandings_setStage_same hmoved hpool]
          exact poolStandings_setStage_same (e := given) ht'
            (by rw [hstage]; rfl)
        rw [hdesk]
        exact .rest
      · by_cases hkt : t.token = k
        · subst hkt
          obtain rfl := Option.some.inj (hk.symm.trans hheldk)
          refine ⟨_, lane?_setLane hk, ?_⟩
          have hdesk : ((given.setStage first .laneGranted).setStage id
              stage).laneDesk t.token { token.lane with waiting := rest }
              = ⟨{ token.lane with waiting := rest },
                ((e.laneStandings t.token).set first .holding).set id .apart⟩ := by
            refine congrArg (Desk.mk _) ?_
            rw [laneStandings_setStage hmoved, ← htoken',
              laneStandings_setStage hgiven, hlane]
            rfl
          rw [hdesk]
          exact .passedOn hid hw
        · refine ⟨held, (lane?_modifyToken_of_ne hkt).trans hheldk, ?_⟩
          have hdesk : ((given.setStage first .laneGranted).setStage id
              stage).laneDesk k held = e.laneDesk k held := by
            refine congrArg (Desk.mk _) ?_
            rw [laneStandings_setStage_of_ne hmoved hkt,
              laneStandings_setStage_of_ne hgiven (htoken'.symm ▸ hkt)]
            rfl
          rw [hdesk]
          exact .rest

-- ================================================== steps of a task

/-- An offer that is checked comes further, and stands apart. -/
theorem checkOffer_further (e : Executor) (token : Token)
    (hphase : stage.phase = .offered) :
    stage.depth < (e.checkOffer token stage).depth
      ∧ (e.checkOffer token stage).poolStanding = stage.poolStanding
      ∧ (e.checkOffer token stage).laneStanding = stage.laneStanding := by
  cases stage with
  | offered =>
      cases hs : token.status <;> simp [checkOffer, hs, Stage.depth,
        Stage.poolStanding, Stage.laneStanding]
  | statusChecked =>
      by_cases hc : token.cancel = .no <;> simp [checkOffer, hc, Stage.depth,
        Stage.poolStanding, Stage.laneStanding]
  | cancelChecked =>
      by_cases hs : e.shutDown = .no <;> simp [checkOffer, hs, Stage.depth,
        Stage.poolStanding, Stage.laneStanding]
  | shutDownChecked =>
      simp [checkOffer, Stage.depth, Stage.poolStanding, Stage.laneStanding]
  | _ => cases hphase

theorem atDesks_advanceOffer {token : Token} (ht : e.tasks[id]? = some t)
    (htoken : e.tokens[t.token]? = some token)
    (hphase : t.stage.phase = .offered) :
    AtDesks e (e.advanceOffer id t token) := by
  have hopen : (e.tokens[t.token]?).isSome := by rw [htoken]; rfl
  obtain ⟨hdepth, hpool, hlane⟩ := checkOffer_further e token hphase
  unfold advanceOffer
  split
  · rename_i hchecked
    rw [hchecked] at hdepth hpool hlane
    have hcounted : Unseen e (e.modifyToken t.token fun token =>
        { token with pending := token.pending + 1 }) :=
      unseen_modifyToken fun _ => rfl
    exact (hcounted.trans (unseen_report _)).atDesks_setStage
      ⟨ht, hdepth, hopen⟩ hpool hlane
  · exact (Unseen.refl e).atDesks_setStage ⟨ht, hdepth, hopen⟩ hpool hlane

theorem atDesks_requestLane {token : Token} (ht : e.tasks[id]? = some t)
    (htoken : e.tokens[t.token]? = some token) (hstage : t.stage = .accepted) :
    AtDesks e (e.requestLane id t token) := by
  have hopen : (e.tokens[t.token]?).isSome := by rw [htoken]; rfl
  have hk : e.lane? t.token = some token.lane := by rw [lane?, htoken]; rfl
  have hid : (e.laneDesk t.token token.lane).standings[id]? = some .apart := by
    rw [← show t.stage.laneStanding = .apart by rw [hstage]; rfl]
    exact laneStandings_eq ht
  obtain ⟨-, hr⟩ | ⟨hlane, hfree, hr⟩ | ⟨hlane, hfree, hr⟩ :=
    token.lane.request_cases id
  · simp only [requestLane, hr]
    exact (Unseen.refl e).atDesks_setStage ⟨ht, by rw [hstage]; decide, hopen⟩
      (by rw [hstage]; rfl) (by rw [hstage]; rfl)
  · simp only [requestLane, hr]
    exact atDesks_atLane rfl rfl ⟨ht, by rw [hstage]; decide, hopen⟩ hk
      (lane?_setLane hk) (fun k hne => lane?_modifyToken_of_ne hne)
      (.joined hid hlane hfree) (by rw [hstage]; rfl)
  · simp only [requestLane, hr]
    exact atDesks_atLane rfl rfl ⟨ht, by rw [hstage]; decide, hopen⟩ hk
      (lane?_setLane hk) (fun k hne => lane?_modifyToken_of_ne hne)
      (.took hid hlane hfree) (by rw [hstage]; rfl)

theorem atDesks_requestPool (hopen : (e.tokens[t.token]?).isSome)
    (ht : e.tasks[id]? = some t) (hstage : t.stage = .laneHeld) :
    AtDesks e (e.requestPool id) := by
  have hid : e.poolDesk.standings[id]? = some .apart := by
    rw [← show t.stage.poolStanding = .apart by rw [hstage]; rfl]
    exact poolStandings_eq ht
  obtain ⟨-, hr⟩ | ⟨hpool, hfree, hr⟩ | ⟨hpool, hfree, hr⟩ :=
    e.pool.request_cases id
  · simp only [requestPool, hr]
    exact (Unseen.refl e).atDesks_setStage ⟨ht, by rw [hstage]; decide, hopen⟩
      (by rw [hstage]; rfl) (by rw [hstage]; rfl)
  · simp only [requestPool, hr]
    exact atDesks_atPool (by rfl) (fun _ => by rfl)
      ⟨ht, by rw [hstage]; decide, hopen⟩ (.joined hid hpool hfree)
      (by rw [hstage]; rfl)
  · simp only [requestPool, hr]
    exact atDesks_atPool (by rfl) (fun _ => by rfl)
      ⟨ht, by rw [hstage]; decide, hopen⟩ (.took hid hpool hfree)
      (by rw [hstage]; rfl)

/-- A task that waits gives up as there will be no permits. -/
theorem atDesks_laneClosed {token : Token} (ht : e.tasks[id]? = some t)
    (htoken : e.tokens[t.token]? = some token)
    (hstage : t.stage = .laneQueued) (hclosed : token.lane.closed = true) :
    AtDesks e (e.setStage id (.ending .none (.error .cancelled))) := by
  have hopen : (e.tokens[t.token]?).isSome := by rw [htoken]; rfl
  have hk : e.lane? t.token = some token.lane := by rw [lane?, htoken]; rfl
  have hid : (e.laneDesk t.token token.lane).standings[id]? = some .queued := by
    rw [← show t.stage.laneStanding = .queued by rw [hstage]; rfl]
    exact laneStandings_eq ht
  exact atDesks_atLane rfl rfl ⟨ht, by rw [hstage]; decide, hopen⟩ hk hk
    (fun _ _ => rfl) (.left hid hclosed) (by rw [hstage]; rfl)

theorem atDesks_poolClosed (hopen : (e.tokens[t.token]?).isSome)
    (ht : e.tasks[id]? = some t) (hstage : t.stage = .poolQueued)
    (hclosed : e.pool.closed = true) :
    AtDesks e (e.setStage id (.ending .lane (.error .shutDown))) := by
  have hid : e.poolDesk.standings[id]? = some .queued := by
    rw [← show t.stage.poolStanding = .queued by rw [hstage]; rfl]
    exact poolStandings_eq ht
  exact atDesks_atPool rfl (fun _ => rfl) ⟨ht, by rw [hstage]; decide, hopen⟩
    (.left hid hclosed) (by rw [hstage]; rfl)

/-- A task goes on by one step. -/
theorem atDesks_advanceTask {token : Token} (h : e.Balanced)
    (ht : e.tasks[id]? = some t) (htoken : e.tokens[t.token]? = some token) :
    AtDesks e (e.advanceTask id t token) := by
  have hopen : (e.tokens[t.token]?).isSome := by rw [htoken]; rfl
  have hgo : ∀ {stage : Stage}, t.stage.depth < stage.depth →
      e.Goes id t stage := fun hdepth => ⟨ht, hdepth, hopen⟩
  have hsame := Unseen.refl e
  obtain ⟨k, work, name, stage⟩ := t
  cases stage with
  | offered | statusChecked | cancelChecked | shutDownChecked =>
      exact atDesks_advanceOffer ht htoken rfl
  | accepted => exact atDesks_requestLane ht htoken rfl
  | laneQueued =>
      simp only [advanceTask]
      split
      · rename_i hclosed
        exact atDesks_laneClosed ht htoken rfl hclosed
      · exact hsame.atDesks
  | laneGranted =>
      simp only [advanceTask]
      split
      · exact atDesks_releaseLane h (hgo (by simp [Stage.depth])) htoken rfl rfl rfl
      · exact hsame.atDesks_setStage (hgo (by simp [Stage.depth])) rfl rfl
  | laneHeld => exact atDesks_requestPool hopen ht rfl
  | poolQueued =>
      simp only [advanceTask]
      split
      · rename_i hclosed
        exact atDesks_poolClosed hopen ht rfl hclosed
      · exact hsame.atDesks
  | poolGranted =>
      simp only [advanceTask]
      split
      · exact atDesks_releasePool h (hgo (by simp [Stage.depth])) rfl rfl rfl
      · exact hsame.atDesks_setStage (hgo (by simp [Stage.depth])) rfl rfl
  | poolHeld =>
      simp only [advanceTask]
      split
      · exact hsame.atDesks_setStage (hgo (by simp [Stage.depth])) rfl rfl
      · exact hsame.atDesks_setStage (hgo (by simp [Stage.depth])) rfl rfl
  | calculated result =>
      cases result with
      | ok marks =>
          exact (unseen_mergeMarks marks).atDesks_setStage
            (hgo (by simp [Stage.depth])) rfl rfl
      | error error => exact hsame.atDesks_setStage (hgo (by simp [Stage.depth])) rfl rfl
  | ending held result =>
      cases held with
      | both => exact atDesks_releasePool h (hgo (by simp [Stage.depth])) rfl rfl rfl
      | lane =>
          exact atDesks_releaseLane h (hgo (by simp [Stage.depth])) htoken rfl rfl rfl
      | none =>
          exact (unseen_noteEnd result).atDesks_setStage (hgo (by simp [Stage.depth]))
            rfl rfl
  | noted result =>
      exact (unseen_deliver result).atDesks_setStage
        (hgo (by simp [Stage.depth])) rfl rfl
  | delivered result =>
      have hcounted : Unseen e (e.modifyToken k fun token =>
          { token with pending := token.pending - 1 }) :=
        unseen_modifyToken fun _ => rfl
      exact hcounted.atDesks_setStage (hgo (by simp [Stage.depth])) rfl rfl
  | calculating | rejected _ | finished _ => exact hsame.atDesks

-- ================================================== all steps

theorem atDesks_advance (h : e.Balanced) (id : Nat) :
    AtDesks e (e.advance id) := by
  unfold advance
  split
  · exact (Unseen.refl e).atDesks
  · rename_i t ht
    split
    · exact (Unseen.refl e).atDesks
    · rename_i token htoken
      exact atDesks_advanceTask h ht htoken

theorem atDesks_endCalculation (h : e.Balanced) (id : Nat)
    (result : Except CalcError DeleteBitmap) :
    AtDesks e (e.endCalculation id result) := by
  rw [endCalculation_eq]
  split
  · rename_i hc
    obtain ⟨t, ht, hstage⟩ := stage_of_isCalculating hc
    have hopen := h.opened ht (by rw [hstage]; nofun)
    exact (Unseen.refl e).atDesks_setStage
      ⟨ht, by simp [hstage, Stage.depth], hopen⟩ (by rw [hstage]; rfl)
      (by rw [hstage]; rfl)
  · exact (Unseen.refl e).atDesks

/-- A lane that closes sends away who waits; no other desk sees it. -/
theorem atDesks_cancel (k : Nat) : AtDesks e (e.modifyToken k advanceCancel) := by
  refine ⟨.rest, fun j lane hj => ?_, .of_tasks rfl⟩
  by_cases hk : k = j
  · subst hk
    obtain ⟨token, htoken, rfl⟩ := Option.map_eq_some_iff.1 hj
    refine ⟨(advanceCancel token).lane, ?_, ?_⟩
    · rw [lane?, modifyToken, List.getElem?_modify_eq, htoken]
      rfl
    · unfold advanceCancel
      cases token.cancel with
      | raised => exact .closed
      | no | closed | recorded => exact .rest
  · exact ⟨lane, (lane?_modifyToken_of_ne hk).trans hj, .rest⟩

theorem atDesks_openToken : AtDesks e e.openToken := by
  unfold openToken
  split
  · refine ⟨.rest, fun k lane hk => ⟨lane, ?_, .rest⟩, .of_tasks rfl⟩
    obtain ⟨token, htoken, rfl⟩ := Option.map_eq_some_iff.1 hk
    rw [lane?, report,
      List.getElem?_append_left (List.getElem?_eq_some_iff.1 htoken).1, htoken]
    rfl
  · exact (Unseen.refl e).atDesks

theorem atDesks_offer (k : Nat) (work : CalcTask) (name : String) :
    AtDesks e (e.step (.offer k work name)) := by
  refine ⟨?_, fun j lane hj => ⟨lane, hj, ?_⟩, fun j t ht => ⟨t.stage, ?_, .inl rfl⟩⟩
  · have hdesk : (e.step (.offer k work name)).poolDesk
        = { e.poolDesk with standings := e.poolDesk.standings ++ [.apart] } := by
      rw [poolDesk, poolStandings, step, List.map_append]
      rfl
    rw [hdesk]
    exact .came
  · have hdesk : (e.step (.offer k work name)).laneDesk j lane
        = { e.laneDesk j lane with
            standings := (e.laneDesk j lane).standings ++ [.apart] } := by
      rw [laneDesk, laneStandings, step, List.map_append]
      simp [Stage.laneStanding, laneDesk, laneStandings]
    rw [hdesk]
    exact .came
  · rw [step, List.getElem?_append_left (List.getElem?_eq_some_iff.1 ht).1]
    exact ht

theorem atDesks_shutDown : AtDesks e e.advanceShutDown := by
  unfold advanceShutDown
  cases e.shutDown with
  | no => exact Unseen.atDesks ⟨rfl, rfl, fun _ => rfl⟩
  | raised => exact ⟨.closed, fun _ lane hk => ⟨lane, hk, .rest⟩, .of_tasks rfl⟩
  | closed | recorded => exact (Unseen.refl e).atDesks

/-- What a step is at the desks and to the tasks. -/
theorem atDesks_step (h : e.Balanced) (step : Step) : AtDesks e (e.step step) := by
  cases step with
  | openToken => exact atDesks_openToken
  | closeToken => exact (unseen_report _).atDesks
  | offer k work name => exact atDesks_offer k work name
  | advance id => exact atDesks_advance h id
  | endCalculation id result => exact atDesks_endCalculation h id result
  | cancel k => exact atDesks_cancel k
  | shutDown => exact atDesks_shutDown

-- ================================================== who is there

/-- A lane that is new has all its permits, and nobody asked for one. -/
theorem lane_of_new {step : Step} {lane : Permits}
    (hk : (e.step step).lane? k = some lane) (hnew : e.lane? k = none) :
    lane = { free := e.config.tokenConcurrency.toNat }
      ∧ (e.step step).tasks = e.tasks := by
  obtain ⟨token, htoken, rfl⟩ := Option.map_eq_some_iff.1 hk
  obtain ⟨rfl, htasks⟩ := token_of_new htoken (Option.map_eq_none_iff.1 hnew)
  exact ⟨rfl, htasks⟩

/-- Permits of a lane that nobody asked for are accounted for. -/
theorem sound_new_lane (h : e.Balanced) (hnew : e.lane? k = none)
    (htasks : e'.tasks = e.tasks) (capacity : Nat) :
    (e'.laneDesk k { free := capacity }).Sound capacity := by
  have hapart : ∀ s ∈ e'.laneStandings k, s = .apart := by
    rw [laneStandings_congr htasks]
    intro s hs
    obtain ⟨t, ht, rfl⟩ := List.mem_map.1 hs
    obtain ⟨id, hid⟩ := List.getElem?_of_mem ht
    by_cases hk : t.token = k
    · rw [lane?, Option.map_eq_none_iff, ← hk] at hnew
      rw [if_pos hk, h.unopened id t hid hnew]
      rfl
    · rw [if_neg hk]
  have hcount : (e'.laneStandings k).count .holding = 0 :=
    List.count_eq_zero.2 fun hmem => nomatch hapart _ hmem
  refine ⟨?_, nofun, fun id => iff_of_false nofun ?_, .nil⟩
  · show capacity + (e'.laneStandings k).count .holding = capacity
    rw [hcount]
    rfl
  · rintro ⟨-, hqueued⟩
    exact nomatch hapart _ (List.mem_of_getElem? hqueued)

/-- The permits of the pool and of every lane are accounted for. -/
theorem balanced_step (h : e.Balanced) (step : Step) : (e.step step).Balanced := by
  have hat := atDesks_step h step
  refine ⟨?_, fun k lane hk => ?_, fun id t ht hclosed => ?_⟩
  · rw [config_step]
    exact Desk.sound_next h.pool hat.pool
  · rw [config_step]
    cases hold : e.lane? k with
    | some before =>
        obtain ⟨lane', hlane', hnext⟩ := hat.lanes k before hold
        obtain rfl := Option.some.inj (hlane'.symm.trans hk)
        exact Desk.sound_next (h.lanes k before hold) hnext
    | none =>
        obtain ⟨rfl, htasks⟩ := lane_of_new hk hold
        exact sound_new_lane h hold htasks _
  · have hclosed' : e.tokens[t.token]? = none := by
      by_contra hne
      obtain ⟨token, htoken⟩ := Option.ne_none_iff_exists'.1 hne
      obtain ⟨lane', hlane', -⟩ := hat.lanes t.token token.lane (by
        rw [lane?, htoken]; rfl)
      rw [lane?, hclosed] at hlane'
      cases hlane'
    cases hold : e.tasks[id]? with
    | none => exact offered_of_new ht hold
    | some before =>
        obtain ⟨stage, hstage, hmoved⟩ := hat.tasks id before hold
        obtain rfl := Option.some.inj (hstage.symm.trans ht)
        rcases hmoved with rfl | ⟨-, hopen⟩
        · exact h.unopened id before hold hclosed'
        · rw [show e.tokens[before.token]? = none from hclosed'] at hopen
          cases hopen

/-- An executor of which nothing was asked yet. -/
theorem balanced_new {config : WorkerConfig}
    (hnew : Executor.new config = .ok e) (bitmaps : SortedMap String DeleteBitmap) :
    ({ e with bitmaps } : Executor).Balanced := by
  rw [eq_of_new hnew]
  refine ⟨⟨rfl, nofun, fun _ => iff_of_false nofun nofun, .nil⟩, nofun, ?_⟩
  intro id t ht
  cases ht

-- ================================================== going on

/-- Who is in a queue is at the stage of waiting in it. -/
theorem Balanced.orderly (h : e.Balanced) : e.Orderly where
  lanes k token htoken := by
    have hk : e.lane? k = some token.lane := by rw [lane?, htoken]; rfl
    have hsound := h.lanes k token.lane hk
    refine ⟨hsound.nodup, fun hclosed => List.eq_nil_iff_forall_not_mem.2
      fun id hid => ?_, fun id hid => h.laneQueued hk hid⟩
    exact absurd (((hsound.waits id).1 hid).1.symm.trans hclosed) (by decide)
  pool := by
    refine ⟨h.pool.nodup, fun hclosed => List.eq_nil_iff_forall_not_mem.2
      fun id hid => ?_, fun id hid => h.poolQueued hid⟩
    exact absurd (((h.pool.waits id).1 hid).1.symm.trans hclosed) (by decide)

/-- The next stage of a task that can go on is further on. -/
theorem depth_nextStage {token : Token} (ht : e.tasks[id]? = some t)
    (htoken : e.tokens[t.token]? = some token) (hcan : e.canAdvance id = true) :
    t.stage.depth < (e.nextStage token t.stage).depth := by
  have hoffer : t.stage.phase = .offered →
      t.stage.depth < (e.checkOffer token t.stage).depth := fun hphase =>
    (checkOffer_further e token hphase).1
  rw [canAdvance, ht] at hcan
  obtain ⟨k, work, name, stage⟩ := t
  cases stage with
  | offered | statusChecked | cancelChecked | shutDownChecked => exact hoffer rfl
  | laneQueued =>
      have hclosed : token.lane.closed = true := by simpa [htoken] using hcan
      simp [nextStage, hclosed, Stage.depth]
  | poolQueued =>
      have hclosed : e.pool.closed = true := hcan
      simp [nextStage, hclosed, Stage.depth]
  | accepted | laneHeld =>
      simp only [nextStage]
      split
      · simp [Stage.depth]
      · split <;> simp [Stage.depth]
  | laneGranted | poolGranted | poolHeld =>
      simp only [nextStage]
      split <;> simp [Stage.depth]
  | calculated result => cases result <;> simp [nextStage, Stage.depth]
  | ending held result => cases held <;> simp [nextStage, Stage.depth]
  | noted result | delivered result => simp [nextStage, Stage.depth]
  | calculating | rejected _ | finished _ => cases hcan

/-- A task that can go on comes further by its own step. -/
theorem onward_advance {token : Token} (h : e.Balanced)
    (ht : e.tasks[id]? = some t) (htoken : e.tokens[t.token]? = some token)
    (hcan : e.canAdvance id = true) :
    ∃ stage, (e.advance id).tasks[id]? = some { t with stage }
      ∧ t.stage.depth < stage.depth :=
  ⟨_, stage_advance h.orderly ht htoken, depth_nextStage ht htoken hcan⟩

end Executor

end MergeOnWrite
