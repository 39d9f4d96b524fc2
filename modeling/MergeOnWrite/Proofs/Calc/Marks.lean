/-
No marks of the executor are lost.

Runs of the executor are told with their ledgers, and keep the invariant
that ties the two. When a wait returns `Ok`, the token was idle at a moment
after the call: the tasks that it had accepted had finished. If one of them
had ended with an error, the status would have been set by then, and a
status stays. So all of them ended with `Ok`, which only a task does that
has merged its marks.

# Main statements

- `sound_after`: every run keeps the invariant.
- `marks_kept`: what holds of bitmaps, outcomes and waits in every run.
-/
import MergeOnWrite.Proofs.Calc.Ledger

namespace MergeOnWrite

-- ================================================== runs

/-- What each step keeps, as long as an invariant holds, is kept by every
sequence of steps. -/
theorem foldl_keeps {σ τ : Type} {step : σ → τ → σ} {inv p : σ → Prop}
    (hinv : ∀ s t, inv s → inv (step s t))
    (hstep : ∀ s t, inv s → p s → p (step s t)) (steps : List τ) :
    ∀ {s : σ}, inv s → p s → p (steps.foldl step s) := by
  induction steps with
  | nil => exact fun _ h => h
  | cons t rest ih => exact fun hs h => ih (hinv _ t hs) (hstep _ t hs h)

/-- An executor, and the ledger of the run that led to it. -/
structure ExecutorRun where
  executor : Executor
  ledger : MarkLedger := {}

namespace ExecutorRun

def step (r : ExecutorRun) (step : Executor.Step) : ExecutorRun where
  executor := r.executor.step step
  ledger := r.ledger.note r.executor step

def after (r : ExecutorRun) (steps : List Executor.Step) : ExecutorRun :=
  steps.foldl step r

/-- The tasks that merged their marks into a bitmap. -/
def mergedInto (r : ExecutorRun) (name : String) : List Nat :=
  r.ledger.merged.filter fun id =>
    r.executor.tasks[id]?.any (·.destination = name)

def overview (r : ExecutorRun) : Overview := r.executor.overview r.ledger

/-- True when a wait for a token that was called after some steps returns
`Ok` after some more: it saw the token idle at a moment in between, and
then its status clear. -/
def WaitSucceeds (start : ExecutorRun) (called steps : List Executor.Step)
    (k : Nat) : Prop :=
  ∃ seen rest, steps = called ++ seen ++ rest
    ∧ (start.after (called ++ seen)).executor.isIdle k = true
    ∧ (start.after steps).executor.status k = .ok ()

variable {r start : ExecutorRun} {bitmaps : SortedMap String DeleteBitmap}
  {id k : Nat} {t : Job}

/-- The invariant of runs. -/
structure Sound (bitmaps : SortedMap String DeleteBitmap) (r : ExecutorRun) :
    Prop where
  orderly : r.executor.Orderly
  books : r.overview.Sound bitmaps

/-- An executor of which nothing was asked yet. -/
theorem sound_new {config : WorkerConfig} {e : Executor}
    (hnew : Executor.new config = .ok e) :
    ({ executor := { e with bitmaps } } : ExecutorRun).Sound bitmaps := by
  rw [Executor.eq_of_new hnew]
  exact ⟨⟨nofun, .nil, fun _ => rfl, nofun⟩, .nil, fun _ _ => ⟨nofun, rfl⟩,
    nofun, fun _ => rfl, nofun⟩

theorem sound_after (steps : List Executor.Step) :
    r.Sound bitmaps → (r.after steps).Sound bitmaps
      ∧ r.overview.Ahead (r.after steps).overview := by
  induction steps generalizing r with
  | nil => exact fun h => ⟨h, .refl _⟩
  | cons step rest ih =>
      intro h
      have hmoved := Executor.moved_step (l := r.ledger) h.orderly step
      obtain ⟨hsound, hahead⟩ := ih (r := r.step step)
        ⟨hmoved.orderly, Overview.sound_next h.books hmoved.next⟩
      exact ⟨hsound, (Overview.ahead_next hmoved.next).trans hahead⟩

theorem after_append (steps rest : List Executor.Step) :
    r.after (steps ++ rest) = (r.after steps).after rest :=
  List.foldl_append

-- ================================================== what they keep

theorem overview_mergedInto (name : String) :
    r.overview.mergedInto name = (r.mergedInto name).map r.ledger.marks := by
  have hany : ∀ id : Nat, r.overview.charges[id]?.any (·.destination = name)
      = r.executor.tasks[id]?.any (·.destination = name) := fun id => by
    rw [overview, Executor.overview, List.getElem?_map, Option.any_map]
    rfl
  simp only [Overview.mergedInto, mergedInto, hany]
  rfl

/-- A bitmap is what it was, merged with the marks of the tasks that merged
into it, in any order. -/
theorem Sound.bitmap (h : r.Sound bitmaps) (name : String) {order : List Nat}
    (horder : order.Perm (r.mergedInto name)) :
    r.executor.bitmap name = ((bitmaps.get? name).getD ∅).mergeAll
      (order.map r.ledger.marks) := by
  have hbitmap := h.books.bitmap name
  rw [overview_mergedInto,
    ← DeleteBitmap.mergeAll_perm (horder.map r.ledger.marks)] at hbitmap
  exact hbitmap

theorem Sound.agrees (h : r.Sound bitmaps)
    (ht : r.executor.tasks[id]? = some t) : r.overview.Agrees id t.charge :=
  h.books.agrees id t.charge (Executor.overview_charge ht)

theorem charges_eq_none (ht : r.executor.tasks[id]? = none) :
    r.overview.charges[id]? = none := by
  rw [overview, Executor.overview, List.getElem?_map, ht]
  rfl

/-- Who merged is a task, with marks. -/
theorem Sound.merged (h : r.Sound bitmaps) (hid : id ∈ r.ledger.merged) :
    ∃ t marks, r.executor.tasks[id]? = some t
      ∧ r.ledger.computed.lookup id = some (.ok marks) := by
  cases ht : r.executor.tasks[id]? with
  | none => exact absurd hid (h.books.known id (charges_eq_none ht)).1
  | some t =>
      obtain ⟨marks, hmarks⟩ := (h.agrees ht).marks hid
      exact ⟨t, marks, rfl, hmarks⟩

/-- An outcome is `Ok` if and only if its task merged its marks. -/
theorem Sound.outcome (h : r.Sound bitmaps) {o : TaskOutcome}
    (ho : r.executor.outcome? id = some o) :
    o.result = .ok () ↔ id ∈ r.ledger.merged := by
  cases ht : r.executor.tasks[id]? with
  | none => cases ho.symm.trans (h.books.known id (charges_eq_none ht)).2
  | some t =>
      have hagrees := h.agrees ht
      have houtcome := ho.symm.trans hagrees.outcome
      refine Iff.trans ?_ hagrees.merged.symm
      cases hphase : t.charge.phase with
      | delivered result | finished result =>
          rw [hphase] at houtcome
          obtain rfl := Option.some.inj houtcome
          simp [Phase.result?]
      | _ =>
          rw [hphase] at houtcome
          cases houtcome

theorem status_of_ok {a : Account} (h : r.executor.status k = .ok ())
    (ha : r.overview.accounts[k]? = some a) : a.status = none := by
  rw [overview, Executor.overview, List.getElem?_map] at ha
  obtain ⟨token, htoken, rfl⟩ := Option.map_eq_some_iff.1 ha
  rw [Executor.status, htoken] at h
  show token.status = none
  cases hs : token.status with
  | none => rfl
  | some error =>
      rw [Option.bind_some, hs] at h
      cases h

theorem pending_of_idle {a : Account} (h : r.executor.isIdle k = true)
    (ha : r.overview.accounts[k]? = some a) : a.pending = 0 := by
  rw [overview, Executor.overview, List.getElem?_map] at ha
  obtain ⟨token, htoken, rfl⟩ := Option.map_eq_some_iff.1 ha
  rw [Executor.isIdle, htoken] at h
  exact of_decide_eq_true h

/-- An accepted task of an idle token has finished. -/
theorem Sound.finished {c : Charge} (h : r.Sound bitmaps)
    (hidle : r.executor.isIdle k = true) (hc : r.overview.charges[id]? = some c)
    (htoken : c.token = k) (haccepted : c.phase.isAccepted) :
    ∃ result, c.phase = .finished result := by
  obtain ⟨a, ha⟩ := (h.books.agrees id c hc).account haccepted
  rw [htoken] at ha
  have hcount : r.overview.unfinished k = 0 :=
    (h.books.pending k a ha).symm.trans (pending_of_idle hidle ha)
  have hpending : ¬ c.phase.isPending := fun hpending =>
    List.countP_eq_zero.1 hcount c (List.mem_of_getElem? hc)
      (decide_eq_true ⟨htoken, hpending⟩)
  cases hphase : c.phase with
  | finished result => exact ⟨result, rfl⟩
  | offered | rejected =>
      rw [hphase] at haccepted
      cases haccepted
  | _ => exact absurd (by rw [hphase]; rfl) hpending

/-- When a wait succeeds, every task that was accepted before has merged its
marks, and they are in its bitmap. -/
theorem Sound.wait {called steps : List Executor.Step}
    (h : start.Sound bitmaps) (hwait : start.WaitSucceeds called steps k)
    (ht : (start.after called).executor.tasks[id]? = some t)
    (htoken : t.token = k) (haccepted : t.stage.phase.isAccepted) :
    ∃ marks, (start.after steps).executor.outcome? id
        = some ⟨t.work.subject, .ok ()⟩
      ∧ (start.after steps).ledger.computed.lookup id = some (.ok marks)
      ∧ marks.IsPartOf ((start.after steps).executor.bitmap t.destination) := by
  obtain ⟨seen, rest, rfl, hidle, hstatus⟩ := hwait
  rw [after_append, after_append] at hstatus ⊢
  rw [after_append] at hidle
  obtain ⟨hseen, hahead⟩ := sound_after seen (sound_after called h).1
  obtain ⟨hend, hahead'⟩ := sound_after rest hseen
  -- when the token was idle, the task had finished
  obtain ⟨c, hc, hctoken, hcsubject, hcname, hcaccepted, -⟩ :=
    hahead.charges id t.charge (Executor.overview_charge ht)
  have hck : c.token = k := hctoken.trans htoken
  obtain ⟨result, hresult⟩ :=
    hseen.finished hidle hc hck (hcaccepted haccepted)
  -- an error would be the status of the token now
  have hok : result = .ok () := by
    cases result with
    | ok _ => rfl
    | error error =>
        obtain ⟨a, ha, hsome⟩ := (hseen.books.agrees id c hc).status error
          (by rw [hresult]; rfl)
        rw [hck] at ha
        obtain ⟨a', ha', hsome'⟩ := hahead'.accounts k a ha
        rw [status_of_ok hstatus ha'] at hsome'
        cases hsome' hsome
  obtain ⟨c', hc', -, hsubject, hname, -, hfinished⟩ :=
    hahead'.charges id c hc
  have hphase := hfinished result hresult
  have hagrees := hend.books.agrees id c' hc'
  have hmerged := hagrees.merged.2 (by rw [hphase, hok]; rfl)
  obtain ⟨marks, hmarks⟩ := hagrees.marks hmerged
  refine ⟨marks, ?_, hmarks, ?_⟩
  · refine hagrees.outcome.trans ?_
    rw [hphase, hsubject, hcsubject, hok]
    rfl
  · have hpart := hend.books.isPartOf hc' hmerged hmarks
    rw [hname, hcname] at hpart
    exact hpart

end ExecutorRun

/-- No marks are lost. In every run, a bitmap is what it was, merged with the
marks that exactly the tasks computed that merged into it, in any order;
these are the tasks whose result is certain and `Ok`; an outcome is `Ok`
for no others; and when a wait succeeds, every task that its token accepted
before has the outcome `Ok` and its marks in its bitmap. -/
theorem marks_kept {config : WorkerConfig} {e : Executor}
    (hnew : Executor.new config = .ok e)
    (bitmaps : SortedMap String DeleteBitmap) (steps : List Executor.Step) :
    let start : ExecutorRun := { executor := { e with bitmaps } }
    let run := start.after steps
    (∀ (name : String) (order : List Nat), order.Perm (run.mergedInto name) →
        run.executor.bitmap name = (start.executor.bitmap name).mergeAll
          (order.map run.ledger.marks))
      ∧ run.ledger.merged.Nodup
      ∧ (∀ id ∈ run.ledger.merged, ∃ t marks,
          run.executor.tasks[id]? = some t
            ∧ run.ledger.computed.lookup id = some (.ok marks))
      ∧ (∀ (id : Nat) (t : Job), run.executor.tasks[id]? = some t →
          (id ∈ run.ledger.merged ↔ t.stage.phase.result? = some (.ok ())))
      ∧ (∀ (id : Nat) (o : TaskOutcome), run.executor.outcome? id = some o →
          (o.result = .ok () ↔ id ∈ run.ledger.merged))
      ∧ ∀ (called : List Executor.Step) (k : Nat),
          start.WaitSucceeds called steps k →
            ∀ (id : Nat) (t : Job),
              (start.after called).executor.tasks[id]? = some t →
                t.token = k → t.stage.phase.isAccepted →
                  ∃ marks, run.executor.outcome? id
                      = some ⟨t.work.subject, .ok ()⟩
                    ∧ run.ledger.computed.lookup id = some (.ok marks)
                    ∧ marks.IsPartOf (run.executor.bitmap t.destination) := by
  intro start run
  have hstart : start.Sound bitmaps := ExecutorRun.sound_new hnew
  have hrun : run.Sound bitmaps := (ExecutorRun.sound_after steps hstart).1
  refine ⟨fun name order horder => hrun.bitmap name horder, hrun.books.nodup,
    fun id hid => hrun.merged hid, fun id t ht => (hrun.agrees ht).merged,
    fun id o ho => hrun.outcome ho, ?_⟩
  intro called k hwait id t ht htoken haccepted
  exact hstart.wait hwait ht htoken haccepted

/-- Two tasks of a token are accepted and start to calculate. -/
def twoTasks : List Executor.Step :=
  [.openToken,
    .offer 0 (.intra ⟨⟨1⟩, ⟨"new"⟩, [⟨0⟩]⟩) "marks",
    .offer 0 (.intra ⟨⟨1⟩, ⟨"new"⟩, [⟨1⟩]⟩) "marks"]
    ++ .replicate 7 (.advance 0) ++ .replicate 7 (.advance 1)

/-- The marks that one of them computes. -/
def markIn (segment : SegmentId) : DeleteBitmap :=
  (∅ : DeleteBitmap).add ⟨⟨"new"⟩, segment, ⟨0⟩⟩ 7

/-- Both end, the second one first. -/
def twoEnds : List Executor.Step :=
  .endCalculation 1 (.ok (markIn ⟨1⟩)) :: .replicate 6 (.advance 1)
    ++ .endCalculation 0 (.ok (markIn ⟨0⟩)) :: .replicate 6 (.advance 0)

/-- Two tasks merge into one bitmap, and the wait for them succeeds. -/
theorem marks_kept_two_tasks :
    let start : ExecutorRun :=
      { executor := { config := {}, pool := { free := 8 } } }
    let run := start.after (twoTasks ++ twoEnds)
    Executor.new {} = .ok start.executor
      ∧ run.executor.bitmap "marks"
        = (∅ : DeleteBitmap).mergeAll [markIn ⟨0⟩, markIn ⟨1⟩]
      ∧ ∃ marks, run.executor.outcome? 0
          = some ⟨⟨⟨1⟩, ⟨"new"⟩, ⟨0⟩⟩, .ok ()⟩
        ∧ run.ledger.computed.lookup 0 = some (.ok marks)
        ∧ marks.IsPartOf (run.executor.bitmap "marks") := by
  have hnew : Executor.new {} = .ok { config := {}, pool := { free := 8 } } :=
    rfl
  obtain ⟨hbitmap, -, -, -, -, hwait⟩ :=
    marks_kept hnew ∅ (twoTasks ++ twoEnds)
  refine ⟨rfl, hbitmap "marks" [0, 1] (by decide), ?_⟩
  exact hwait twoTasks 0 ⟨twoEnds, [], (List.append_nil _).symm, rfl, rfl⟩
    0 _ rfl rfl rfl

end MergeOnWrite
