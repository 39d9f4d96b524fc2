/-
Every accepted task comes to its end.

Steps are taken in any order, and others may go on without end. All that is
asked of a schedule is that whoever can go on does so at last, and that every
calculation ends at last.

# The argument

A task that does not wait for a permit comes further by a step of its own
(`comes_of_canAdvance`, `comes_of_calculating`). Who holds a permit of the
pool never waits, so it gives the permit back at last, and so nobody waits
for the pool forever (`comes_of_poolQueued`). Who holds a permit of a lane may
wait for the pool, but not forever, and nobody waits for a lane forever
either (`comes_of_laneQueued`). The pool has to come first: the two arguments
are the same, and differ in what a holder may have to wait for. There are
finitely many stages, so whoever always comes further comes to the end.

# Main statements

- `comes_further`: an accepted task that has not finished comes further.
- `finishes`: every accepted task finishes.
-/
import MergeOnWrite.Proofs.Calc.Desks
import Mathlib.Data.Nat.Pairing

namespace MergeOnWrite

namespace Stage

variable {stage : Stage}

/-- True of the stages at which a task goes on whoever else does. -/
def goesOn : Stage → Bool
  | .laneQueued | .poolQueued | .calculating | .rejected _ | .finished _ =>
    false
  | _ => true

/-- Permits of the pool are held along a stretch of the stages. -/
theorem depth_of_poolHolding (h : stage.poolStanding = .holding) :
    9 ≤ stage.depth ∧ stage.depth < 14 := by
  cases stage with
  | poolGranted | poolHeld | calculating | calculated => simp [depth]
  | ending held result =>
      cases held with
      | both => simp [depth]
      | lane | none => cases h
  | _ => cases h

/-- Permits of a lane are held along a longer one. -/
theorem depth_of_laneHolding (h : stage.laneStanding = .holding) :
    6 ≤ stage.depth ∧ stage.depth < 15 := by
  cases stage with
  | laneGranted | laneHeld | poolQueued | poolGranted | poolHeld | calculating
  | calculated => simp [depth]
  | ending held result =>
      cases held with
      | both | lane => simp [depth]
      | none => cases h
  | _ => cases h

/-- At most stages past the queue of the lane a task goes on whoever else
does. -/
theorem goesOn_of_depth (hlo : 6 ≤ stage.depth) (hhi : stage.depth < 18) :
    stage.goesOn = true ∨ stage = .calculating ∨ stage = .poolQueued := by
  cases stage with
  | calculating => exact .inr (.inl rfl)
  | poolQueued => exact .inr (.inr rfl)
  | offered | statusChecked | cancelChecked | shutDownChecked | rejected
  | accepted | laneQueued =>
      simp [depth] at hlo
  | finished => simp [depth] at hhi
  | _ => exact .inl rfl

theorem depth_le (stage : Stage) : stage.depth ≤ 18 := by
  cases stage with
  | ending held result => cases held <;> simp [depth]
  | _ => simp [depth]

end Stage

namespace Executor

-- ================================================== schedules

/-- The states that a schedule leads to. -/
def along (e : Executor) (schedule : Nat → Step) : Nat → Executor
  | 0 => e
  | n + 1 => (e.along schedule n).step (schedule n)

/-- True of a schedule on which whoever can go on does so at last, and every
calculation ends at last. -/
structure IsFair (e : Executor) (schedule : Nat → Step) : Prop where
  goesOn : ∀ n id, (e.along schedule n).canAdvance id = true →
    ∃ m, n ≤ m ∧ schedule m = .advance id
  ends : ∀ n id, (e.along schedule n).isCalculating id = true →
    ∃ m result, n ≤ m ∧ schedule m = .endCalculation id result

/-- A run along a fair schedule, with permits to be had. -/
structure FairRun (e : Executor) (schedule : Nat → Step) : Prop where
  balanced : e.Balanced
  threads : 0 < e.config.threads.toNat
  lanes : 0 < e.config.tokenConcurrency.toNat
  fair : e.IsFair schedule

variable {e : Executor} {schedule : Nat → Step} {id n m : Nat} {t : Job}

theorem balanced_along (h : e.Balanced) (n : Nat) :
    (e.along schedule n).Balanced := by
  induction n with
  | zero => exact h
  | succ n ih => exact balanced_step ih _

theorem config_along (schedule : Nat → Step) (n : Nat) :
    (e.along schedule n).config = e.config := by
  induction n with
  | zero => rfl
  | succ n ih => exact (config_step _).trans ih

/-- A task is where it was, or further on. -/
theorem onward_along (h : e.Balanced) (hnm : n ≤ m)
    (ht : (e.along schedule n).tasks[id]? = some t) :
    ∃ stage, (e.along schedule m).tasks[id]? = some { t with stage }
      ∧ (stage = t.stage ∨ t.stage.depth < stage.depth) := by
  induction m, hnm using Nat.le_induction with
  | base => exact ⟨t.stage, ht, .inl rfl⟩
  | succ m hnm ih =>
      obtain ⟨stage, hstage, hdepth⟩ := ih
      obtain ⟨stage', hstage', hdepth'⟩ :=
        (atDesks_step (balanced_along h m) (schedule m)).tasks id _ hstage
      refine ⟨stage', hstage', ?_⟩
      rcases hdepth' with rfl | ⟨hdepth', -⟩
      · exact hdepth
      · rcases hdepth with rfl | hdepth
        · exact .inr hdepth'
        · exact .inr (Nat.lt_trans hdepth hdepth')

theorem pool_closed_along (h : e.Balanced) (hnm : n ≤ m)
    (hclosed : (e.along schedule n).pool.closed = true) :
    (e.along schedule m).pool.closed = true := by
  induction m, hnm using Nat.le_induction with
  | base => exact hclosed
  | succ m hnm ih =>
      exact (atDesks_step (balanced_along h m) (schedule m)).pool.closed_of_closed
        ih

theorem lane_along (h : e.Balanced) (hnm : n ≤ m) {k : Nat} {lane : Permits}
    (hlane : (e.along schedule n).lane? k = some lane) :
    ∃ lane', (e.along schedule m).lane? k = some lane'
      ∧ (lane.closed = true → lane'.closed = true) := by
  induction m, hnm using Nat.le_induction with
  | base => exact ⟨lane, hlane, fun h => h⟩
  | succ m hnm ih =>
      obtain ⟨lane', hlane', hclosed⟩ := ih
      obtain ⟨lane'', hlane'', hnext⟩ :=
        (atDesks_step (balanced_along h m) (schedule m)).lanes k lane' hlane'
      exact ⟨lane'', hlane'', fun hc => hnext.closed_of_closed (hclosed hc)⟩

-- ================================================== coming further

/-- True of a task, where it is at a moment, if it comes further. -/
def Comes (e : Executor) (schedule : Nat → Step) (n id : Nat) (t : Job) :
    Prop :=
  ∃ m stage, n ≤ m ∧ (e.along schedule m).tasks[id]? = some { t with stage }
    ∧ t.stage.depth < stage.depth

/-- Where a task is not at the same stage any more, it has come further. -/
theorem comes_of_ne (h : e.Balanced) (hnm : n ≤ m)
    (ht : (e.along schedule n).tasks[id]? = some t)
    (hne : (e.along schedule m).tasks[id]? ≠ some t) :
    e.Comes schedule n id t := by
  obtain ⟨stage, hstage, rfl | hdepth⟩ := onward_along h hnm ht
  · exact absurd hstage hne
  · exact ⟨m, stage, hnm, hstage, hdepth⟩

/-- A task that never comes further stays as it is. -/
theorem still_of_not_comes (h : e.Balanced)
    (ht : (e.along schedule n).tasks[id]? = some t)
    (hnever : ¬ e.Comes schedule n id t) (hnm : n ≤ m) :
    (e.along schedule m).tasks[id]? = some t := by
  by_contra hne
  exact hnever (comes_of_ne h hnm ht hne)

theorem Comes.not_still (h : e.Comes schedule n id t) :
    ¬ ∀ m, n ≤ m → (e.along schedule m).tasks[id]? = some t := by
  intro hstill
  obtain ⟨m, stage, hm, hstage, hdepth⟩ := h
  have hsame : t.stage = stage :=
    congrArg Job.stage (Option.some.inj ((hstill m hm).symm.trans hstage))
  rw [hsame] at hdepth
  exact Nat.lt_irrefl _ hdepth

/-- A task that can go on where it is comes further by its own step. -/
theorem comes_of_canAdvance (h : e.FairRun schedule)
    (ht : (e.along schedule n).tasks[id]? = some t)
    (hstage : t.stage ≠ .offered)
    (hcan : ∀ m, n ≤ m → (e.along schedule m).tasks[id]? = some t →
      (e.along schedule m).canAdvance id = true) :
    e.Comes schedule n id t := by
  obtain ⟨m, hm, hstep⟩ := h.fair.goesOn n id (hcan n (Nat.le_refl n) ht)
  by_cases hm' : (e.along schedule m).tasks[id]? = some t
  · have hbalanced : (e.along schedule m).Balanced :=
      balanced_along h.balanced m
    obtain ⟨token, htoken⟩ :=
      Option.isSome_iff_exists.1 (hbalanced.opened hm' hstage)
    obtain ⟨stage, hnext, hdepth⟩ :=
      onward_advance hbalanced hm' htoken (hcan m hm hm')
    refine ⟨m + 1, stage, Nat.le_succ_of_le hm, ?_, hdepth⟩
    rw [along, hstep]
    exact hnext
  · exact comes_of_ne h.balanced hm ht hm'

theorem comes_of_calculating (h : e.FairRun schedule)
    (ht : (e.along schedule n).tasks[id]? = some t)
    (hstage : t.stage = .calculating) : e.Comes schedule n id t := by
  have hcalc : ∀ {m}, (e.along schedule m).tasks[id]? = some t →
      (e.along schedule m).isCalculating id = true := by
    intro m hm
    obtain ⟨k, work, name, stage⟩ := t
    obtain rfl : stage = .calculating := hstage
    rw [isCalculating, hm]
  obtain ⟨m, result, hm, hstep⟩ := h.fair.ends n id (hcalc ht)
  by_cases hm' : (e.along schedule m).tasks[id]? = some t
  · refine ⟨m + 1, .calculated result, Nat.le_succ_of_le hm, ?_, ?_⟩
    · rw [along, hstep]
      show ((e.along schedule m).endCalculation id result).tasks[id]? = _
      rw [endCalculation_eq, if_pos (hcalc hm')]
      exact tasks_setStage_self _ hm'
    · rw [hstage]
      simp [Stage.depth]
  · exact comes_of_ne h.balanced hm ht hm'

/-- Whoever comes further as long as it is not far enough gets there. -/
theorem reaches (lo hi : Nat)
    (hgo : ∀ m t, n ≤ m → (e.along schedule m).tasks[id]? = some t →
      lo ≤ t.stage.depth → t.stage.depth < hi → e.Comes schedule m id t)
    (ht : (e.along schedule n).tasks[id]? = some t) (hlo : lo ≤ t.stage.depth) :
    ∃ m stage, n ≤ m ∧ (e.along schedule m).tasks[id]? = some { t with stage }
      ∧ hi ≤ stage.depth := by
  induction hleft : hi - t.stage.depth using Nat.strong_induction_on
    generalizing n t with
  | _ left ih =>
      by_cases hfar : hi ≤ t.stage.depth
      · exact ⟨n, t.stage, Nat.le_refl n, ht, hfar⟩
      · obtain ⟨m, stage, hm, hstage, hdepth⟩ :=
          hgo n t (Nat.le_refl n) ht hlo (Nat.lt_of_not_le hfar)
        obtain ⟨j, stage', hj, hstage', hfar'⟩ :=
          ih (hi - stage.depth) (by omega) (n := m) (t := { t with stage })
            (fun j t hj => hgo j t (Nat.le_trans hm hj)) hstage
            (Nat.le_of_lt (Nat.lt_of_le_of_lt hlo hdepth)) rfl
        exact ⟨j, stage', Nat.le_trans hm hj, hstage', hfar'⟩

-- ================================================== the pool

theorem canAdvance_of_goesOn (ht : e.tasks[id]? = some t)
    (hstage : t.stage.goesOn = true) : e.canAdvance id = true := by
  rw [canAdvance, ht]
  obtain ⟨k, work, name, stage⟩ := t
  cases stage <;> first | rfl | cases hstage

theorem comes_of_goesOn (h : e.FairRun schedule)
    (ht : (e.along schedule n).tasks[id]? = some t)
    (hgoes : t.stage.goesOn = true) (hstage : t.stage ≠ .offered) :
    e.Comes schedule n id t :=
  comes_of_canAdvance h ht hstage fun _ _ hm => canAdvance_of_goesOn hm hgoes

/-- Who holds a permit of the pool gives it back at last. -/
theorem gives_pool_back (h : e.FairRun schedule) {holder : Nat}
    (hholds : (e.along schedule n).poolStandings[holder]? = some .holding) :
    ∃ m, n ≤ m
      ∧ (e.along schedule m).poolStandings[holder]? ≠ some .holding := by
  rw [poolStandings, List.getElem?_map] at hholds
  obtain ⟨t, ht, hstanding⟩ := Option.map_eq_some_iff.1 hholds
  -- none of the stages at which a permit is held is one of waiting
  have hgo : ∀ m t, n ≤ m → (e.along schedule m).tasks[holder]? = some t →
      9 ≤ t.stage.depth → t.stage.depth < 14 →
        e.Comes schedule m holder t := by
    intro m t _ ht hlo hhi
    rcases Stage.goesOn_of_depth (Nat.le_trans (by decide) hlo)
        (Nat.lt_trans hhi (by decide)) with
      hgoes | hcalc | hwaits
    · exact comes_of_goesOn h ht hgoes
        (by rintro heq; rw [heq] at hlo; simp [Stage.depth] at hlo)
    · exact comes_of_calculating h ht hcalc
    · rw [hwaits] at hlo
      simp [Stage.depth] at hlo
  obtain ⟨m, stage, hm, hstage, hfar⟩ := reaches 9 14 hgo ht
    (Stage.depth_of_poolHolding hstanding).1
  refine ⟨m, hm, fun hholding => ?_⟩
  rw [poolStandings_eq hstage] at hholding
  have hnear : stage.depth < 14 :=
    (Stage.depth_of_poolHolding (Option.some.inj hholding)).2
  omega

/-- Nobody waits for the pool forever. -/
theorem comes_of_poolQueued (h : e.FairRun schedule)
    (ht : (e.along schedule n).tasks[id]? = some t)
    (hstage : t.stage = .poolQueued) : e.Comes schedule n id t := by
  by_contra hnever
  have hstill : ∀ m, n ≤ m → (e.along schedule m).tasks[id]? = some t :=
    fun m hm => still_of_not_comes h.balanced ht hnever hm
  have hopen : ∀ m, n ≤ m → (e.along schedule m).pool.closed ≠ true := by
    intro m hm hclosed
    have hcomes : e.Comes schedule m id t := comes_of_canAdvance h
      (hstill m hm) (by rw [hstage]; nofun) fun j hj hj' => by
        rw [canAdvance, hj']
        simpa [hstage] using pool_closed_along h.balanced hj hclosed
    exact hcomes.not_still fun j hj => hstill j (Nat.le_trans hm hj)
  obtain ⟨m, hm, hleft⟩ := Desk.leaves_queue (n := n)
    (fun m => (e.along schedule m).poolDesk) id
    (fun m _ => (atDesks_step (balanced_along h.balanced m) (schedule m)).pool)
    (fun m _ => config_along schedule m ▸
      (balanced_along h.balanced m).pool)
    h.threads (fun m _ holder hholds => gives_pool_back h hholds)
    (fun m hm hclosed _ => absurd hclosed (hopen m hm))
  refine hleft ?_
  show (e.along schedule m).poolStandings[id]? = some .queued
  rw [poolStandings_eq (hstill m hm), hstage]
  rfl

-- ================================================== the lanes

/-- Past the queue of its lane, a task that has not finished comes further. -/
theorem comes_past_lane (h : e.FairRun schedule)
    (ht : (e.along schedule n).tasks[id]? = some t)
    (hlo : 6 ≤ t.stage.depth) (hhi : t.stage.depth < 18) :
    e.Comes schedule n id t := by
  rcases Stage.goesOn_of_depth hlo hhi with hgoes | hcalc | hwaits
  · exact comes_of_goesOn h ht hgoes
      (by rintro heq; rw [heq] at hlo; simp [Stage.depth] at hlo)
  · exact comes_of_calculating h ht hcalc
  · exact comes_of_poolQueued h ht hwaits

/-- Who holds a permit of a lane gives it back at last. -/
theorem gives_lane_back (h : e.FairRun schedule) {k holder : Nat}
    (hholds : ((e.along schedule n).laneStandings k)[holder]? = some .holding) :
    ∃ m, n ≤ m
      ∧ ((e.along schedule m).laneStandings k)[holder]? ≠ some .holding := by
  rw [laneStandings, List.getElem?_map] at hholds
  obtain ⟨t, ht, hholding⟩ := Option.map_eq_some_iff.1 hholds
  obtain ⟨rfl, hstanding⟩ : t.token = k ∧ t.stage.laneStanding = .holding := by
    by_cases hk : t.token = k
    · exact ⟨hk, by rwa [if_pos hk] at hholding⟩
    · rw [if_neg hk] at hholding
      cases hholding
  obtain ⟨m, stage, hm, hstage, hfar⟩ := reaches 6 15
    (fun m t _ ht hlo hhi => comes_past_lane h ht hlo (by omega)) ht
    (Stage.depth_of_laneHolding hstanding).1
  refine ⟨m, hm, fun hholding => ?_⟩
  have hnow := laneStandings_eq hstage
  have hnear : stage.depth < 15 := (Stage.depth_of_laneHolding
    (Option.some.inj (hnow.symm.trans hholding))).2
  omega

/-- Nobody waits for a lane forever. -/
theorem comes_of_laneQueued (h : e.FairRun schedule)
    (ht : (e.along schedule n).tasks[id]? = some t)
    (hstage : t.stage = .laneQueued) : e.Comes schedule n id t := by
  by_contra hnever
  have hstill : ∀ m, n ≤ m → (e.along schedule m).tasks[id]? = some t :=
    fun m hm => still_of_not_comes h.balanced ht hnever hm
  obtain ⟨token, htoken⟩ := Option.isSome_iff_exists.1
    ((balanced_along h.balanced n).opened ht (by rw [hstage]; nofun))
  have hlane : ∀ m, n ≤ m → ∃ lane,
      (e.along schedule m).lane? t.token = some lane := fun m hm => by
    obtain ⟨lane, hlane, -⟩ := lane_along h.balanced hm
      (show (e.along schedule n).lane? t.token = some token.lane by
        rw [lane?, htoken]; rfl)
    exact ⟨lane, hlane⟩
  have hopen : ∀ m lane, n ≤ m →
      (e.along schedule m).lane? t.token = some lane → lane.closed ≠ true := by
    intro m lane hm hk hclosed
    have hcomes : e.Comes schedule m id t := comes_of_canAdvance h
      (hstill m hm) (by rw [hstage]; nofun) fun j hj hj' => by
        obtain ⟨lane', hlane', hclosed'⟩ := lane_along h.balanced hj hk
        obtain ⟨token', htoken', rfl⟩ := Option.map_eq_some_iff.1 hlane'
        rw [canAdvance, hj']
        simpa [hstage, htoken'] using hclosed' hclosed
    exact hcomes.not_still fun j hj => hstill j (Nat.le_trans hm hj)
  let desk : Nat → Desk := fun m => (e.along schedule m).laneDesk t.token
    (((e.along schedule m).lane? t.token).getD { free := 0 })
  have hdesk : ∀ {m lane}, (e.along schedule m).lane? t.token = some lane →
      desk m = (e.along schedule m).laneDesk t.token lane := fun hk => by
    simp only [desk, hk, Option.getD_some]
  obtain ⟨m, hm, hleft⟩ := Desk.leaves_queue (n := n) desk id
    (fun m hm => by
      obtain ⟨lane, hk⟩ := hlane m hm
      obtain ⟨lane', hk', hnext⟩ :=
        (atDesks_step (balanced_along h.balanced m) (schedule m)).lanes _ _ hk
      rw [hdesk hk, hdesk (m := m + 1) hk']
      exact hnext)
    (fun m hm => by
      obtain ⟨lane, hk⟩ := hlane m hm
      rw [hdesk hk, ← config_along schedule m]
      exact (balanced_along h.balanced m).lanes _ _ hk)
    h.lanes (fun m _ holder hholds => gives_lane_back h hholds)
    (fun m hm hclosed _ => by
      obtain ⟨lane, hk⟩ := hlane m hm
      rw [hdesk hk] at hclosed
      exact absurd hclosed (hopen m lane hm hk))
  refine hleft ?_
  show ((e.along schedule m).laneStandings t.token)[id]? = some .queued
  rw [laneStandings_eq (hstill m hm), hstage]
  rfl

-- ================================================== the end

/-- An accepted task that has not finished comes further. -/
theorem comes_further (h : e.FairRun schedule)
    (ht : (e.along schedule n).tasks[id]? = some t)
    (haccepted : t.stage.phase.isAccepted = true) (hhi : t.stage.depth < 18) :
    e.Comes schedule n id t := by
  by_cases hlo : 6 ≤ t.stage.depth
  · exact comes_past_lane h ht hlo hhi
  · cases hstage : t.stage with
    | accepted =>
        exact comes_of_goesOn h ht (by rw [hstage]; rfl) (by rw [hstage]; nofun)
    | laneQueued => exact comes_of_laneQueued h ht hstage
    | offered | statusChecked | cancelChecked | shutDownChecked | rejected =>
        rw [hstage] at haccepted
        cases haccepted
    | ending held result =>
        cases held <;> simp [hstage, Stage.depth] at hlo
    | _ => simp [hstage, Stage.depth] at hlo

theorem isAccepted_of_depth {stage : Stage} (h : 5 ≤ stage.depth) :
    stage.phase.isAccepted = true := by
  cases stage with
  | offered | statusChecked | cancelChecked | shutDownChecked | rejected =>
      simp [Stage.depth] at h
  | _ => rfl

theorem finished_of_depth {stage : Stage} (h : 18 ≤ stage.depth) :
    ∃ result, stage = .finished result := by
  cases stage with
  | finished result => exact ⟨result, rfl⟩
  | ending held result => cases held <;> simp [Stage.depth] at h
  | _ => simp [Stage.depth] at h

/-- Every accepted task finishes. -/
theorem finishes (h : e.FairRun schedule) (ht : e.tasks[id]? = some t)
    (haccepted : t.stage.phase.isAccepted = true) :
    ∃ m result, (e.along schedule m).tasks[id]?
      = some { t with stage := .finished result } := by
  have hgo : ∀ m t, 0 ≤ m → (e.along schedule m).tasks[id]? = some t →
      5 ≤ t.stage.depth → t.stage.depth < 18 → e.Comes schedule m id t :=
    fun m t _ ht hlo hhi => comes_further h ht (isAccepted_of_depth hlo) hhi
  have hend : ∀ {n t}, (e.along schedule n).tasks[id]? = some t →
      5 ≤ t.stage.depth → ∃ m result, (e.along schedule m).tasks[id]?
        = some { t with stage := .finished result } := by
    intro n t ht hlo
    obtain ⟨m, stage, -, hstage, hfar⟩ := reaches 5 18
      (fun m t _ => hgo m t (Nat.zero_le m)) ht hlo
    obtain ⟨result, rfl⟩ := finished_of_depth hfar
    exact ⟨m, result, hstage⟩
  by_cases hfar : 5 ≤ t.stage.depth
  · exact hend (n := 0) ht hfar
  · obtain ⟨m, stage, -, hstage, hdepth⟩ :=
      comes_further (n := 0) h ht haccepted (by omega)
    have haccepted' : 4 ≤ t.stage.depth := by
      cases hs : t.stage with
      | offered | statusChecked | cancelChecked | shutDownChecked | rejected =>
          rw [hs] at haccepted
          cases haccepted
      | ending held result => cases held <;> simp [Stage.depth]
      | _ => simp [Stage.depth]
    exact hend (t := { t with stage }) hstage (by show 5 ≤ stage.depth; omega)

end Executor

end MergeOnWrite
