/-
The accounts of the executor balance.

# The argument

What is told of a task is told when it goes to another phase: that it was
accepted, how it ended, what its outcome is. So what has been told so far is
known from the phases (`Overview.Told`), whatever was told in between of
other tasks. A task goes through each of these phases once, so it is told of
once. A wait returns after it has seen its token idle, and then the tasks
that were accepted before it was called have finished, with their outcomes
delivered (`finished_of_hasSeen`). And every accepted task gets there on
every fair schedule (`finishes`).

# Main statements

- `told_next`: every change of an overview keeps what is told.
- `accounts_balance`: outcomes, counters, counts of unfinished tasks and waits
  in every run.
-/
import MergeOnWrite.Proofs.Calc.Progress
import MergeOnWrite.Proofs.Calc.Waits

namespace MergeOnWrite

-- ================================================== what is told

/-- True of the reports that a task of some kinds was accepted. -/
def WorkerReport.isSubmitted (kinds : String → Bool) : WorkerReport → Bool
  | .submitted kind => kinds kind
  | _ => false

/-- True of the reports that a task of some kinds came to an end. -/
def WorkerReport.isEnd (kinds : String → Bool) (ending : TaskEnd) :
    WorkerReport → Bool
  | .finished kind e => kinds kind && decide (e = ending)
  | _ => false

/-- True of the phases of an accepted task whose end was not noted yet. -/
def Phase.isUnnoted : Phase → Bool
  | .running | .calculated _ | .certain _ => true
  | .offered | .rejected | .noted _ | .delivered _ | .finished _ => false

/-- What a tally counted of an end. -/
def WorkerTally.ended (tally : WorkerTally) : TaskEnd → Nat
  | .succeeded => tally.succeeded
  | .failed => tally.failed
  | .abandoned => tally.abandoned

namespace Overview

variable {v v' : Overview} {id : Nat} {c : Charge} {phase : Phase}

/-- How many tasks are of some kinds and in some phases. -/
def total (v : Overview) (kinds : String → Bool) (phases : Phase → Bool) : Nat :=
  v.charges.countP fun c => kinds c.kind && phases c.phase

/-- True of the phases of a task whose end was noted as one of a sort. -/
def hasEnd (ending : TaskEnd) (phase : Phase) : Bool :=
  decide (phase.noted?.map endOf = some ending)

/-- The outcomes that were delivered of a task. -/
def outcomesOf (v : Overview) (id : Nat) : List (Nat × TaskOutcome) :=
  v.outcomes.filter (·.1 = id)

/-- What has been told of the tasks, from where they are: each that was
accepted and each end was reported once, and there is one outcome of each
task that delivered it. -/
structure Told (v : Overview) : Prop where
  submitted : ∀ kinds : String → Bool,
    v.reports.countP (·.isSubmitted kinds) = v.total kinds Phase.isAccepted
  ended : ∀ (kinds : String → Bool) (ending : TaskEnd),
    v.reports.countP (·.isEnd kinds ending) = v.total kinds (hasEnd ending)
  outcomes : ∀ (id : Nat) (c : Charge), v.charges[id]? = some c →
    v.outcomesOf id
      = (c.phase.delivered?.map fun result => (id, ⟨c.subject, result⟩)).toList
  unknown : ∀ id : Nat, v.charges[id]? = none → v.outcomesOf id = []

theorem total_setPhase (hc : v.charges[id]? = some c) (phase : Phase)
    (kinds : String → Bool) (phases : Phase → Bool) :
    (v.setPhase id phase).total kinds phases
        + (kinds c.kind && phases c.phase).toNat
      = v.total kinds phases + (kinds c.kind && phases phase).toNat :=
  countP_modify (p := fun c : Charge => kinds c.kind && phases c.phase)
    (f := fun c : Charge => { c with phase }) hc

/-- A task that goes to another of some phases, or of the others, changes no
total of them. -/
theorem total_setPhase_of_eq (hc : v.charges[id]? = some c)
    {phases : Phase → Bool} (hphase : phases phase = phases c.phase)
    (kinds : String → Bool) :
    (v.setPhase id phase).total kinds phases = v.total kinds phases := by
  have := total_setPhase hc phase kinds phases
  rw [hphase] at this
  omega

/-- A task that goes to one of some phases from one of the others adds to the
total of its kind. -/
theorem total_setPhase_of_new (hc : v.charges[id]? = some c)
    {phases : Phase → Bool} (hold : phases c.phase = false)
    (hnew : phases phase = true) (kinds : String → Bool) :
    (v.setPhase id phase).total kinds phases
      = v.total kinds phases + (kinds c.kind).toNat := by
  have := total_setPhase hc phase kinds phases
  rw [hold, hnew, Bool.and_false, Bool.and_true] at this
  exact this

theorem outcomes_setPhase (h : v.Told) (hc : v.charges[id]? = some c)
    (hphase : phase.delivered? = c.phase.delivered?) (j : Nat) (c' : Charge)
    (hc' : (v.setPhase id phase).charges[j]? = some c') :
    v.outcomesOf j
      = (c'.phase.delivered?.map fun result => (j, ⟨c'.subject, result⟩)).toList :=
    by
  by_cases hj : j = id
  · subst hj
    obtain rfl := Option.some.inj ((charges_setPhase_self hc).symm.trans hc')
    rw [hphase]
    exact h.outcomes j c hc
  · rw [charges_setPhase_of_ne hj] at hc'
    exact h.outcomes j c' hc'

/-- A task goes to another phase of which nothing is told. -/
theorem told_setPhase (h : v.Told) (hc : v.charges[id]? = some c)
    (haccepted : phase.isAccepted = c.phase.isAccepted)
    (hnoted : phase.noted? = c.phase.noted?)
    (hdelivered : phase.delivered? = c.phase.delivered?) :
    (v.setPhase id phase).Told where
  submitted kinds :=
    (h.submitted kinds).trans (total_setPhase_of_eq hc haccepted kinds).symm
  ended kinds ending := (h.ended kinds ending).trans
    (total_setPhase_of_eq hc (by rw [hasEnd, hasEnd, hnoted]) kinds).symm
  outcomes := outcomes_setPhase h hc hdelivered
  unknown j hj := h.unknown j (charges_setPhase_eq_none.1 hj)

/-- What is told of tasks is told by nothing else. -/
theorem Told.of_eq (h : v.Told) (hcharges : v'.charges = v.charges)
    (hreports : v'.reports = v.reports) (houtcomes : v'.outcomes = v.outcomes) :
    v'.Told := by
  obtain ⟨accounts, charges, bitmaps, outcomes, reports, ledger⟩ := v'
  obtain rfl := hcharges
  obtain rfl := hreports
  obtain rfl := houtcomes
  exact ⟨h.submitted, h.ended, h.outcomes, h.unknown⟩

theorem countP_report (event : WorkerReport) (p : WorkerReport → Bool) :
    (v.report event).reports.countP p
      = v.reports.countP p + (p event).toNat := by
  rw [report, List.countP_cons]
  cases p event <;> rfl

/-- A report of something else than a task tells nothing of tasks. -/
theorem told_report (h : v.Told) {event : WorkerReport}
    (hsubmitted : ∀ kinds, event.isSubmitted kinds = false)
    (hend : ∀ kinds ending, event.isEnd kinds ending = false) :
    (v.report event).Told where
  submitted kinds := by
    rw [countP_report, hsubmitted]
    exact h.submitted kinds
  ended kinds ending := by
    rw [countP_report, hend]
    exact h.ended kinds ending
  outcomes := h.outcomes
  unknown := h.unknown

theorem told_offered (h : v.Told) (k : Nat) (kind : String)
    (subject : SegmentRef) (name : String) :
    Told { v with
      charges := v.charges ++ [⟨k, kind, subject, name, .offered⟩] } where
  submitted kinds := by
    rw [total, List.countP_append, List.countP_cons_of_neg (by
      simp [Phase.isAccepted]), List.countP_nil]
    exact h.submitted kinds
  ended kinds ending := by
    rw [total, List.countP_append, List.countP_cons_of_neg (by
      simp [hasEnd, Phase.noted?]), List.countP_nil]
    exact h.ended kinds ending
  outcomes j c hc := by
    by_cases hj : j < v.charges.length
    · rw [List.getElem?_append_left hj] at hc
      exact h.outcomes j c hc
    · rw [List.getElem?_append_right (Nat.not_lt.1 hj)] at hc
      obtain rfl := List.mem_singleton.1 (List.mem_of_getElem? hc)
      exact h.unknown j (List.getElem?_eq_none (Nat.not_lt.1 hj))
  unknown j hj := by
    rw [List.getElem?_eq_none_iff, List.length_append] at hj
    exact h.unknown j (List.getElem?_eq_none (by omega))

/-- Whoever is accepted is reported once. -/
theorem told_accepted (h : v.Told) (hc : v.charges[id]? = some c)
    (hphase : c.phase = .offered) :
    ((v.setPhase id .running).report (.submitted c.kind)).Told where
  submitted kinds := by
    have htotal : (v.setPhase id .running).total kinds Phase.isAccepted
        = v.total kinds Phase.isAccepted + (kinds c.kind).toNat :=
      total_setPhase_of_new hc (by rw [hphase]; rfl) rfl kinds
    refine Eq.trans ?_ htotal.symm
    rw [← h.submitted kinds]
    exact countP_report _ _
  ended kinds ending := by
    refine Eq.trans ?_ (total_setPhase_of_eq hc (by rw [hphase]; rfl) kinds).symm
    exact (countP_report _ _).trans (h.ended kinds ending)
  outcomes := outcomes_setPhase h hc (by rw [hphase]; rfl)
  unknown j hj := h.unknown j (charges_setPhase_eq_none.1 hj)

/-- Whoever ends is reported once more. -/
theorem told_noted (h : v.Told) (hc : v.charges[id]? = some c)
    {result : Except CalcError Unit} (hphase : c.phase = .certain result) :
    ((v.setPhase id (.noted result)).report
      (.finished c.kind (endOf result))).Told where
  submitted kinds := by
    refine Eq.trans ?_ (total_setPhase_of_eq hc (by rw [hphase]; rfl) kinds).symm
    exact (countP_report _ _).trans (h.submitted kinds)
  ended kinds ending := by
    refine (countP_report _ _).trans ?_
    refine (congrArg (· + _) (h.ended kinds ending)).trans ?_
    by_cases hend : endOf result = ending
    · have htotal : (v.setPhase id (.noted result)).total kinds (hasEnd ending)
          = v.total kinds (hasEnd ending) + (kinds c.kind).toNat :=
        total_setPhase_of_new hc (by rw [hphase]; rfl)
          (by simp [hasEnd, Phase.noted?, hend]) kinds
      refine Eq.trans ?_ htotal.symm
      simp [WorkerReport.isEnd, hend]
    · have htotal : (v.setPhase id (.noted result)).total kinds (hasEnd ending)
          = v.total kinds (hasEnd ending) :=
        total_setPhase_of_eq hc
          (by rw [hphase]; simp [hasEnd, Phase.noted?, hend]) kinds
      refine Eq.trans ?_ htotal.symm
      simp [WorkerReport.isEnd, hend]
  outcomes := outcomes_setPhase h hc (by rw [hphase]; rfl)
  unknown j hj := h.unknown j (charges_setPhase_eq_none.1 hj)

/-- Whoever delivers an outcome had not delivered one. -/
theorem told_delivered (h : v.Told) (hc : v.charges[id]? = some c)
    {result : Except CalcError Unit} (hphase : c.phase = .noted result) :
    Told { v.setPhase id (.delivered result) with
      outcomes := (id, ⟨c.subject, result⟩) :: v.outcomes } where
  submitted kinds := (h.submitted kinds).trans
    (total_setPhase_of_eq hc (by rw [hphase]; rfl) kinds).symm
  ended kinds ending := (h.ended kinds ending).trans
    (total_setPhase_of_eq hc (by rw [hphase]; rfl) kinds).symm
  outcomes j c' hc' := by
    by_cases hj : j = id
    · subst hj
      obtain rfl := Option.some.inj ((charges_setPhase_self hc).symm.trans hc')
      have hnone : v.outcomesOf j = [] := by
        rw [h.outcomes j c hc, hphase]
        rfl
      rw [outcomesOf, List.filter_cons_of_pos (by simp)]
      exact congrArg (_ :: ·) hnone
    · replace hc' := (charges_setPhase_of_ne hj).symm.trans hc'
      rw [outcomesOf, List.filter_cons_of_neg (by simpa using Ne.symm hj)]
      exact h.outcomes j c' hc'
  unknown j hj := by
    replace hj := charges_setPhase_eq_none.1 hj
    have hne : id ≠ j := by
      rintro rfl
      cases hc.symm.trans hj
    rw [outcomesOf, List.filter_cons_of_neg (by simpa using hne)]
    exact h.unknown j hj

/-- Every change of an overview keeps what is told. -/
theorem told_next (h : v.Told) (hnext : v.Next v') : v'.Told := by
  cases hnext with
  | rest => exact h
  | opened =>
      exact (told_report h (fun _ => rfl) fun _ _ => rfl).of_eq
        (v := v.report .tokenOpened) rfl rfl rfl
  | closed => exact told_report h (fun _ => rfl) fun _ _ => rfl
  | cancelled => exact h.of_eq rfl rfl rfl
  | offered k kind subject name => exact told_offered h k kind subject name
  | rejected hc hphase | gaveUp hc hphase | failed hc hphase =>
      exact told_setPhase h hc (by rw [hphase]; rfl) (by rw [hphase]; rfl)
        (by rw [hphase]; rfl)
  | calculated hc hphase | merged hc hphase | finished hc hphase =>
      exact (told_setPhase h hc (by rw [hphase]; rfl) (by rw [hphase]; rfl)
        (by rw [hphase]; rfl)).of_eq rfl rfl rfl
  | accepted hc hphase => exact (told_accepted h hc hphase).of_eq rfl rfl rfl
  | noted hc hphase => exact (told_noted h hc hphase).of_eq rfl rfl rfl
  | delivered hc hphase => exact told_delivered h hc hphase

/-- Whoever was accepted has ended in one of three ways, or not yet. -/
theorem total_isAccepted (v : Overview) (kinds : String → Bool) :
    v.total kinds Phase.isAccepted
      = v.total kinds (hasEnd .succeeded) + v.total kinds (hasEnd .failed)
        + v.total kinds (hasEnd .abandoned)
        + v.total kinds Phase.isUnnoted := by
  have hphase : ∀ p : Phase, p.isAccepted.toNat
      = (hasEnd .succeeded p).toNat + (hasEnd .failed p).toNat
        + (hasEnd .abandoned p).toNat + p.isUnnoted.toNat := by
    intro p
    cases p with
    | noted r | delivered r | finished r =>
        cases hend : endOf r <;>
          simp [hasEnd, Phase.noted?, Phase.isAccepted, Phase.isUnnoted, hend]
    | _ => rfl
  unfold total
  induction v.charges with
  | nil => rfl
  | cons c rest ih =>
      have := hphase c.phase
      simp only [List.countP_cons, ih]
      cases hkind : kinds c.kind with
      | false => simp
      | true =>
          simp only [Bool.true_and]
          grind

end Overview

-- ================================================== runs

namespace ExecutorRun

variable {r : ExecutorRun} {bitmaps : SortedMap String DeleteBitmap} {id : Nat}

/-- What no change of an overview takes away is there after every run. -/
theorem after_of_next {p : Overview → Prop}
    (hnext : ∀ v v', p v → v.Next v' → p v') (steps : List Executor.Step) :
    r.executor.Orderly → p r.overview → p (r.after steps).overview := by
  induction steps generalizing r with
  | nil => exact fun _ h => h
  | cons step rest ih =>
      intro horderly h
      have hmoved := Executor.moved_step (l := r.ledger) horderly step
      exact ih (r := r.step step) hmoved.orderly (hnext _ _ h hmoved.next)

theorem balanced_after (h : r.executor.Balanced) (steps : List Executor.Step) :
    (r.after steps).executor.Balanced ∧
      (r.after steps).executor.config = r.executor.config := by
  induction steps generalizing r with
  | nil => exact ⟨h, rfl⟩
  | cons step rest ih =>
      obtain ⟨hbalanced, hconfig⟩ := ih (r := r.step step)
        (Executor.balanced_step h step)
      exact ⟨hbalanced, hconfig.trans (Executor.config_step step)⟩

/-- A schedule leads where its steps lead. -/
theorem along_eq (schedule : Nat → Executor.Step) (n : Nat) :
    r.executor.along schedule n
      = (r.after ((List.range n).map schedule)).executor := by
  induction n with
  | zero => rfl
  | succ n ih =>
      rw [List.range_succ, List.map_append, after_append, Executor.along, ih]
      rfl

end ExecutorRun

namespace Executor

/-- The accounts of an executor. -/
structure Accounts (e : Executor) : Prop where
  /-- Each task that got as far has delivered one outcome, with its own
  segment, and the others none. -/
  outcomes : ∀ (id : Nat) (t : Job), e.tasks[id]? = some t →
    e.outcomes.filter (·.1 = id)
      = (t.stage.phase.delivered?.map
          fun result => (id, ⟨t.work.subject, result⟩)).toList
  strangers : ∀ id : Nat, e.tasks[id]? = none →
    e.outcomes.filter (·.1 = id) = []
  /-- A token counts its accepted tasks that have not finished. -/
  pending : ∀ (k : Nat) (token : Token), e.tokens[k]? = some token →
    token.pending
      = e.tasks.countP fun t => t.token = k ∧ t.stage.phase.isPending
  /-- So a count is never lowered below zero. -/
  positive : ∀ (id : Nat) (t : Job), e.tasks[id]? = some t →
    t.stage.phase.isPending → ∃ token, e.tokens[t.token]? = some token
      ∧ 0 < token.pending
  /-- Whatever was counted as submitted was counted as one of three ends, or
  has not come to one. -/
  counters : (WorkerTally.ofReports e.reports.reverse).submitted
    = (WorkerTally.ofReports e.reports.reverse).succeeded
      + (WorkerTally.ofReports e.reports.reverse).failed
      + (WorkerTally.ofReports e.reports.reverse).abandoned
      + e.tasks.countP (·.stage.phase.isUnnoted)

variable {e : Executor} {id : Nat} {t : Job} {l : MarkLedger}

theorem total_overview (kinds : String → Bool) (phases : Phase → Bool) :
    (e.overview l).total kinds phases
      = e.tasks.countP fun t => kinds t.work.kind && phases t.stage.phase := by
  rw [Overview.total, overview, List.countP_map]
  rfl

theorem unfinished_overview (k : Nat) :
    (e.overview l).unfinished k
      = e.tasks.countP fun t => t.token = k ∧ t.stage.phase.isPending := by
  rw [Overview.unfinished, overview, List.countP_map]
  rfl

theorem tally_submitted (reports : List WorkerReport) :
    (WorkerTally.ofReports reports.reverse).submitted
      = reports.countP (·.isSubmitted fun _ => true) := by
  refine List.countP_reverse.trans (List.countP_congr fun event _ => ?_)
  cases event <;> simp [WorkerReport.isSubmitted]

theorem tally_ended (reports : List WorkerReport) (ending : TaskEnd) :
    (WorkerTally.ofReports reports.reverse).ended ending
      = reports.countP (·.isEnd (fun _ => true) ending) := by
  cases ending <;>
    exact List.countP_reverse.trans (List.countP_congr fun event _ => by
      cases event <;> simp [WorkerReport.isEnd])

/-- The accounts balance where what was told is known from the phases. -/
theorem accounts_of_told {bitmaps : SortedMap String DeleteBitmap}
    (h : (⟨e, l⟩ : ExecutorRun).Sound bitmaps) (htold : (e.overview l).Told) :
    e.Accounts where
  outcomes id t ht := htold.outcomes id t.charge (overview_charge ht)
  strangers id ht :=
    htold.unknown id (ExecutorRun.charges_eq_none (r := ⟨e, l⟩) ht)
  pending k token htoken := by
    rw [← unfinished_overview (l := l)]
    exact h.books.pending k token.account (overview_account htoken)
  positive id t ht hpending := by
    obtain ⟨a, ha⟩ := (h.agrees ht).account
      (Overview.isAccepted_of_isPending hpending)
    rw [ExecutorRun.overview, overview, List.getElem?_map] at ha
    obtain ⟨token, htoken, -⟩ := Option.map_eq_some_iff.1 ha
    refine ⟨token, htoken, ?_⟩
    refine Nat.lt_of_lt_of_eq ?_ (h.books.pending t.token token.account
      (overview_account htoken)).symm
    exact List.countP_pos_iff.2 ⟨t.charge,
      List.mem_of_getElem? (overview_charge (l := l) ht),
      decide_eq_true ⟨rfl, hpending⟩⟩
  counters := by
    have hended : ∀ ending, (e.overview l).total (fun _ => true)
        (Overview.hasEnd ending)
          = (WorkerTally.ofReports e.reports.reverse).ended ending :=
      fun ending => (htold.ended _ ending).symm.trans (tally_ended _ _).symm
    have htotal := (e.overview l).total_isAccepted fun _ => true
    rw [hended, hended, hended, total_overview _ Phase.isUnnoted] at htotal
    exact ((tally_submitted e.reports).trans (htold.submitted _)).trans htotal

theorem accounts_after {r : ExecutorRun}
    {bitmaps : SortedMap String DeleteBitmap} (h : r.Sound bitmaps)
    (htold : r.overview.Told) (steps : List Step) :
    (r.after steps).executor.Accounts :=
  accounts_of_told (ExecutorRun.sound_after steps h).1
    (ExecutorRun.after_of_next (fun _ _ => Overview.told_next) steps h.orderly
      htold)

/-- Nothing is told of tasks before there are any. -/
theorem told_of_new {config : WorkerConfig} (hnew : new config = .ok e)
    (bitmaps : SortedMap String DeleteBitmap) :
    (({ e with bitmaps } : Executor).overview l).Told := by
  rw [eq_of_new hnew]
  exact ⟨fun _ => rfl, fun _ _ => rfl, nofun, fun _ _ => rfl⟩

theorem permits_of_new {config : WorkerConfig} (hnew : new config = .ok e) :
    0 < e.config.threads.toNat ∧ 0 < e.config.tokenConcurrency.toNat := by
  rw [new, WorkerConfig.check] at hnew
  split at hnew
  · cases hnew
  · rename_i hthreads
    split at hnew
    · cases hnew
    · rename_i hlanes
      cases hnew
      refine ⟨Nat.pos_of_ne_zero fun h => hthreads ?_,
        Nat.pos_of_ne_zero fun h => hlanes ?_⟩
      · exact UInt64.toNat_inj.1 h
      · exact UInt64.toNat_inj.1 h

/-- On every fair schedule an accepted task finishes at last, and stays where
it is. -/
theorem finished_along {schedule : Nat → Step} (hfair : e.FairRun schedule)
    (ht : e.tasks[id]? = some t)
    (haccepted : t.stage.phase.isAccepted = true) :
    ∃ n result, ∀ m, n ≤ m → (e.along schedule m).tasks[id]?
      = some { t with stage := .finished result } := by
  obtain ⟨n, result, hfinished⟩ := finishes hfair ht haccepted
  refine ⟨n, result, fun m hm => ?_⟩
  obtain ⟨stage, hstage, hdepth⟩ := onward_along hfair.balanced hm hfinished
  obtain rfl : stage = .finished result := hdepth.resolve_right fun hfar =>
    absurd stage.depth_le (Nat.not_le.2 hfar)
  exact hstage

/-- On every fair schedule an accepted task delivers an outcome at last, and
no other after it. -/
theorem delivers {r : ExecutorRun} {bitmaps : SortedMap String DeleteBitmap}
    {schedule : Nat → Step} (h : r.Sound bitmaps) (htold : r.overview.Told)
    (hfair : r.executor.FairRun schedule)
    (ht : r.executor.tasks[id]? = some t)
    (haccepted : t.stage.phase.isAccepted = true) :
    ∃ n result, ∀ m, n ≤ m →
      (r.executor.along schedule m).outcomes.filter (·.1 = id)
        = [(id, ⟨t.work.subject, result⟩)] := by
  obtain ⟨n, result, hfinished⟩ := finished_along hfair ht haccepted
  refine ⟨n, result, fun m hm => ?_⟩
  have haccounts : (r.executor.along schedule m).Accounts :=
    ExecutorRun.along_eq schedule m ▸ accounts_after h htold _
  exact haccounts.outcomes id _ (hfinished m hm)

end Executor

end MergeOnWrite
