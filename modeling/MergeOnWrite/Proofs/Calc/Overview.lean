/-
What the steps of the executor come to, permits apart.

Most stages of a task differ only in the permits that it holds or waits
for. An overview leaves them out: of each task it keeps the phase, of each
token the status and the count of unfinished tasks. Beside them it keeps
the ledger of a run, which tells what calculations came to and which tasks
merged their marks.

# The argument

A permit that is given back moves another task on than the one that goes
on. That it is one that waits, and one that waits for this permit, is the
invariant `Orderly`: who is in a queue is at the stage of waiting in it.
So a permit changes the overview of nobody (`quiet_releaseLane`,
`quiet_releasePool`), and each step of the executor is one of the changes
of the overview that `Overview.Next` lists.

# Main statements

- `moved_step`: every step of the executor keeps the queues in order, and is
  one of the changes of its overview.
-/
import MergeOnWrite.Calc.Executor

namespace MergeOnWrite

-- ================================================== phases

/-- Where a task is, permits apart. -/
inductive Phase where
  | offered
  | rejected
  /-- Accepted; its calculation has not ended. -/
  | running
  /-- The calculation ended; its marks are not merged. -/
  | calculated (result : Except CalcError DeleteBitmap)
  | certain (result : Except CalcError Unit)
  | noted (result : Except CalcError Unit)
  | delivered (result : Except CalcError Unit)
  | finished (result : Except CalcError Unit)

def Stage.phase : Stage → Phase
  | .offered | .statusChecked | .cancelChecked | .shutDownChecked => .offered
  | .rejected _ => .rejected
  | .accepted | .laneQueued | .laneGranted | .laneHeld | .poolQueued
  | .poolGranted | .poolHeld | .calculating => .running
  | .calculated result => .calculated result
  | .ending _ result => .certain result
  | .noted result => .noted result
  | .delivered result => .delivered result
  | .finished result => .finished result

namespace Phase

def isAccepted : Phase → Bool
  | .offered | .rejected => false
  | _ => true

/-- True of accepted tasks that the token still counts on. -/
def isPending : Phase → Bool
  | .offered | .rejected | .finished _ => false
  | _ => true

/-- The result of a task, once it is certain. -/
def result? : Phase → Option (Except CalcError Unit)
  | .certain r | .noted r | .delivered r | .finished r => some r
  | _ => none

/-- The result of a task, once its token knows it. -/
def noted? : Phase → Option (Except CalcError Unit)
  | .noted r | .delivered r | .finished r => some r
  | _ => none

/-- The result of a task, once it is delivered. -/
def delivered? : Phase → Option (Except CalcError Unit)
  | .delivered r | .finished r => some r
  | _ => none

end Phase

-- ================================================== the ledger

/-- What a run has brought about, beside the state that it led to. -/
structure MarkLedger where
  /-- What the calculations of tasks came to, latest first. -/
  computed : List (Nat × Except CalcError DeleteBitmap) := []
  /-- The tasks that merged their marks, latest first. -/
  merged : List Nat := []

/-- The marks that a task has yet to merge. -/
def Executor.toMerge? (e : Executor) (id : Nat) : Option DeleteBitmap :=
  match e.tasks[id]? with
  | some { stage := .calculated (.ok marks), .. } => some marks
  | _ => none

/-- True while the calculation of a task goes on. -/
def Executor.isCalculating (e : Executor) (id : Nat) : Bool :=
  match e.tasks[id]? with
  | some { stage := .calculating, .. } => true
  | _ => false

namespace MarkLedger

/-- The marks that a task computed, if it did. -/
def marks (l : MarkLedger) (id : Nat) : DeleteBitmap :=
  match l.computed.lookup id with
  | some (.ok marks) => marks
  | _ => ∅

/-- The ledger after a step from a state. A task merges its marks when it
has them no more. -/
def note (l : MarkLedger) (e : Executor) : Executor.Step → MarkLedger
  | .endCalculation id result =>
    if e.isCalculating id then { l with computed := (id, result) :: l.computed }
    else l
  | .advance id =>
    if (e.toMerge? id).isSome ∧ ((e.advance id).toMerge? id).isNone then
      { l with merged := id :: l.merged }
    else l
  | _ => l

end MarkLedger

-- ================================================== overviews

/-- What an overview keeps of a token. -/
structure Account where
  status : Option CalcError := none
  pending : Nat := 0

/-- The account after a task ended: the first error is kept. -/
def Account.note (a : Account) : Except CalcError Unit → Account
  | .ok _ => a
  | .error error => { a with status := a.status <|> some error }

/-- What an overview keeps of a task. -/
structure Charge where
  token : Nat
  kind : String
  subject : SegmentRef
  destination : String
  phase : Phase

/-- What an executor has come to, permits apart. -/
structure Overview where
  accounts : List Account
  charges : List Charge
  bitmaps : SortedMap String DeleteBitmap
  outcomes : List (Nat × TaskOutcome)
  reports : List WorkerReport
  ledger : MarkLedger

def Token.account (token : Token) : Account := ⟨token.status, token.pending⟩

def Job.charge (t : Job) : Charge :=
  ⟨t.token, t.work.kind, t.work.subject, t.destination, t.stage.phase⟩

def Executor.overview (e : Executor) (ledger : MarkLedger) : Overview where
  accounts := e.tokens.map Token.account
  charges := e.tasks.map Job.charge
  bitmaps := e.bitmaps
  outcomes := e.outcomes
  reports := e.reports
  ledger

namespace Overview

def bitmap (v : Overview) (name : String) : DeleteBitmap :=
  (v.bitmaps.get? name).getD ∅

def setPhase (v : Overview) (id : Nat) (phase : Phase) : Overview :=
  { v with charges := v.charges.modify id fun c => { c with phase } }

def modifyAccount (v : Overview) (token : Nat) (f : Account → Account) :
    Overview :=
  { v with accounts := v.accounts.modify token f }

def report (v : Overview) (event : WorkerReport) : Overview :=
  { v with reports := event :: v.reports }

/-- The changes that a step can make. -/
inductive Next (v : Overview) : Overview → Prop
  | rest : Next v v
  | opened : Next v { v with
      accounts := v.accounts ++ [{}]
      reports := .tokenOpened :: v.reports }
  | closed : Next v (v.report .tokenClosed)
  | offered (token : Nat) (kind : String) (subject : SegmentRef)
      (destination : String) :
      Next v { v with
        charges := v.charges
          ++ [⟨token, kind, subject, destination, .offered⟩] }
  | rejected {id : Nat} {c : Charge} (hc : v.charges[id]? = some c)
      (hphase : c.phase = .offered) : Next v (v.setPhase id .rejected)
  | accepted {id : Nat} {c : Charge} {a : Account}
      (hc : v.charges[id]? = some c) (hphase : c.phase = .offered)
      (ha : v.accounts[c.token]? = some a) :
      Next v (((v.modifyAccount c.token fun a =>
        { a with pending := a.pending + 1 }).report (.submitted c.kind)).setPhase
          id .running)
  | calculated {id : Nat} {c : Charge} (hc : v.charges[id]? = some c)
      (hphase : c.phase = .running) (result : Except CalcError DeleteBitmap) :
      Next v { v.setPhase id (.calculated result) with
        ledger := { v.ledger with
          computed := (id, result) :: v.ledger.computed } }
  /-- Given up before it calculated. -/
  | gaveUp {id : Nat} {c : Charge} (hc : v.charges[id]? = some c)
      (hphase : c.phase = .running) (error : CalcError) :
      Next v (v.setPhase id (.certain (.error error)))
  | failed {id : Nat} {c : Charge} {error : CalcError}
      (hc : v.charges[id]? = some c)
      (hphase : c.phase = .calculated (.error error)) :
      Next v (v.setPhase id (.certain (.error error)))
  | merged {id : Nat} {c : Charge} {marks : DeleteBitmap}
      (hc : v.charges[id]? = some c)
      (hphase : c.phase = .calculated (.ok marks)) :
      Next v { v.setPhase id (.certain (.ok ())) with
        bitmaps := v.bitmaps.insert c.destination
          ((v.bitmap c.destination).merge marks)
        ledger := { v.ledger with merged := id :: v.ledger.merged } }
  | noted {id : Nat} {c : Charge} {result : Except CalcError Unit}
      (hc : v.charges[id]? = some c) (hphase : c.phase = .certain result) :
      Next v (((v.modifyAccount c.token (·.note result)).report
        (.finished c.kind (endOf result))).setPhase id (.noted result))
  | delivered {id : Nat} {c : Charge} {result : Except CalcError Unit}
      (hc : v.charges[id]? = some c) (hphase : c.phase = .noted result) :
      Next v { v.setPhase id (.delivered result) with
        outcomes := (id, ⟨c.subject, result⟩) :: v.outcomes }
  | finished {id : Nat} {c : Charge} {result : Except CalcError Unit}
      (hc : v.charges[id]? = some c) (hphase : c.phase = .delivered result) :
      Next v ((v.modifyAccount c.token fun a =>
        { a with pending := a.pending - 1 }).setPhase id (.finished result))
  /-- Cancelling a token may give it a status. -/
  | cancelled (token : Nat) (error : CalcError) :
      Next v (v.modifyAccount token (·.note (.error error)))

end Overview

-- ================================================== modified lists

theorem map_modify {α β : Type} {f : α → β} {g : α → α} {g' : β → β}
    {l : List α} {i : Nat} (h : ∀ a, l[i]? = some a → f (g a) = g' (f a)) :
    (l.modify i g).map f = (l.map f).modify i g' := by
  refine List.ext_getElem? fun j => ?_
  rw [List.getElem?_map, List.getElem?_modify, List.getElem?_modify,
    List.getElem?_map]
  by_cases hij : i = j
  · subst hij
    cases ha : l[i]? with
    | none => rfl
    | some a => simp [h a ha]
  · cases l[j]? <;> simp [hij]

theorem modify_eq_self {α : Type} {f : α → α} {l : List α} {i : Nat}
    (h : ∀ a, l[i]? = some a → f a = a) : l.modify i f = l := by
  refine List.ext_getElem? fun j => ?_
  rw [List.getElem?_modify]
  by_cases hij : i = j
  · subst hij
    cases ha : l[i]? with
    | none => rfl
    | some a => simp [h a ha]
  · simp [hij]

-- ================================================== queues

/-- Who waits for permits is a task of a kind, and waits once; nobody waits
for permits that are closed. -/
structure Permits.Orderly (p : Permits) (waits : Nat → Prop) : Prop where
  nodup : p.waiting.Nodup
  idle : p.closed = true → p.waiting = []
  waits : ∀ id ∈ p.waiting, waits id

/-- Who waits for permits may become fewer. -/
theorem Permits.Orderly.sublist {p q : Permits} {waits : Nat → Prop}
    (h : p.Orderly waits) (hwaiting : q.waiting.Sublist p.waiting)
    (hclosed : q.closed = p.closed) : q.Orderly waits := by
  refine ⟨h.nodup.sublist hwaiting, fun hc => ?_,
    fun id hid => h.waits id (hwaiting.subset hid)⟩
  rw [h.idle (hclosed ▸ hc)] at hwaiting
  exact List.sublist_nil.1 hwaiting

theorem Permits.Orderly.mono {p : Permits} {waits waits' : Nat → Prop}
    (h : p.Orderly waits) (himp : ∀ id, waits id → waits' id) :
    p.Orderly waits' :=
  ⟨h.nodup, h.idle, fun id hid => himp id (h.waits id hid)⟩

/-- Someone who did not wait joins the queue. -/
theorem Permits.Orderly.join {p : Permits} {waits waits' : Nat → Prop}
    {id : Nat} (h : p.Orderly waits) (hopen : p.closed = false)
    (hid : id ∉ p.waiting) (hkept : ∀ j ∈ p.waiting, waits' j)
    (hjoins : waits' id) :
    ({ p with waiting := p.waiting ++ [id] } : Permits).Orderly waits' := by
  refine ⟨List.nodup_append.2 ⟨h.nodup, List.pairwise_singleton _ id, ?_⟩,
    fun hc => absurd (hopen.symm.trans hc) Bool.false_ne_true, fun j hj => ?_⟩
  · intro j hj k hk hjk
    rw [List.mem_singleton] at hk
    exact hid (hk ▸ hjk ▸ hj)
  · rcases List.mem_append.1 hj with hj | hj
    · exact hkept j hj
    · exact List.mem_singleton.1 hj ▸ hjoins

/-- What asking for a permit comes to. -/
theorem Permits.request_cases (p : Permits) (task : Nat) :
    (p.closed = true ∧ p.request task = .closed)
      ∨ (p.closed = false ∧ p.free = 0
        ∧ p.request task = .queued { p with waiting := p.waiting ++ [task] })
      ∨ (p.closed = false ∧ p.free ≠ 0
        ∧ p.request task = .taken { p with free := p.free - 1 }) := by
  unfold request
  cases p.closed with
  | true => exact .inl ⟨rfl, rfl⟩
  | false =>
      rw [if_neg Bool.false_ne_true]
      by_cases hfree : p.free = 0
      · exact .inr (.inl ⟨rfl, hfree, if_pos hfree⟩)
      · exact .inr (.inr ⟨rfl, hfree, if_neg hfree⟩)

namespace Executor

/-- An executor of which nothing was asked yet. -/
theorem eq_of_new {config : WorkerConfig} {e : Executor}
    (hnew : new config = .ok e) :
    e = { config, pool := { free := config.threads.toNat } } := by
  rw [new] at hnew
  cases hcheck : config.check with
  | error error =>
      rw [hcheck] at hnew
      cases hnew
  | ok _ =>
      rw [hcheck] at hnew
      exact (Except.ok.inj hnew).symm

def WaitsForLane (e : Executor) (k id : Nat) : Prop :=
  ∃ t, e.tasks[id]? = some t ∧ t.token = k ∧ t.stage = .laneQueued

def WaitsForPool (e : Executor) (id : Nat) : Prop :=
  ∃ t, e.tasks[id]? = some t ∧ t.stage = .poolQueued

/-- Who is in a queue is at the stage of waiting in it. -/
structure Orderly (e : Executor) : Prop where
  lanes : ∀ (k : Nat) (token : Token), e.tokens[k]? = some token →
    token.lane.Orderly (e.WaitsForLane k)
  pool : e.pool.Orderly e.WaitsForPool

/-- True of a task that is in no queue. -/
structure Unqueued (e : Executor) (id : Nat) : Prop where
  lanes : ∀ (k : Nat) (token : Token), e.tokens[k]? = some token →
    id ∉ token.lane.waiting
  pool : id ∉ e.pool.waiting

variable {e : Executor} {id k : Nat} {t : Job} {l : MarkLedger}

-- ================================================== overviews of updates

theorem overview_setStage (stage : Stage) :
    (e.setStage id stage).overview l
      = (e.overview l).setPhase id stage.phase := by
  have h : (e.setStage id stage).tasks.map Job.charge
      = (e.tasks.map Job.charge).modify id fun c =>
          { c with phase := stage.phase } :=
    map_modify (by intros; rfl)
  rw [overview, h]
  rfl

theorem overview_modifyToken {f : Token → Token} {g : Account → Account}
    (h : ∀ token, e.tokens[k]? = some token →
      (f token).account = g token.account) :
    (e.modifyToken k f).overview l = (e.overview l).modifyAccount k g := by
  simp only [overview, modifyToken, Overview.modifyAccount, map_modify h]

/-- An overview tells nothing of a change that keeps the account. -/
theorem overview_modifyToken_self {f : Token → Token}
    (h : ∀ token, e.tokens[k]? = some token →
      (f token).account = token.account) :
    (e.modifyToken k f).overview l = e.overview l := by
  have hself : (e.overview l).accounts.modify k (fun a => a)
      = (e.overview l).accounts := modify_eq_self fun _ _ => rfl
  rw [overview_modifyToken (g := fun a => a) h, Overview.modifyAccount, hself]

theorem overview_addToken (token : Token) :
    ({ e with tokens := e.tokens ++ [token] } : Executor).overview l
      = { e.overview l with
          accounts := (e.overview l).accounts ++ [token.account] } := by
  rw [overview, List.map_append]
  rfl

theorem overview_addTask (t : Job) :
    ({ e with tasks := e.tasks ++ [t] } : Executor).overview l
      = { e.overview l with
          charges := (e.overview l).charges ++ [t.charge] } := by
  rw [overview, List.map_append]
  rfl

theorem overview_charge (ht : e.tasks[id]? = some t) :
    (e.overview l).charges[id]? = some t.charge := by
  rw [overview, List.getElem?_map, ht]
  rfl

theorem overview_account {token : Token}
    (htoken : e.tokens[k]? = some token) :
    (e.overview l).accounts[k]? = some token.account := by
  rw [overview, List.getElem?_map, htoken]
  rfl

/-- To go to the phase where a task is already is no change. -/
theorem overview_setPhase_self {phase : Phase} (ht : e.tasks[id]? = some t)
    (hphase : t.stage.phase = phase) :
    (e.overview l).setPhase id phase = e.overview l := by
  have : (e.overview l).charges.modify id (fun c => { c with phase })
      = (e.overview l).charges := modify_eq_self fun c hc => by
    rw [overview_charge ht] at hc
    obtain rfl := Option.some.inj hc
    rw [← hphase, Job.charge]
  rw [Overview.setPhase, this]

-- ================================================== queues in order

theorem Unqueued.of_stage (h : e.Orderly) (ht : e.tasks[id]? = some t)
    (hlane : t.stage ≠ .laneQueued) (hpool : t.stage ≠ .poolQueued) :
    e.Unqueued id := by
  refine ⟨fun k token htoken hid => ?_, fun hid => ?_⟩
  · obtain ⟨t', ht', -, hstage⟩ := (h.lanes k token htoken).waits id hid
    rw [ht] at ht'
    exact hlane (Option.some.inj ht' ▸ hstage)
  · obtain ⟨t', ht', hstage⟩ := h.pool.waits id hid
    rw [ht] at ht'
    exact hpool (Option.some.inj ht' ▸ hstage)

/-- Nobody waits for permits of a lane that is closed. -/
theorem Unqueued.of_laneClosed {token : Token} (h : e.Orderly)
    (ht : e.tasks[id]? = some t) (hstage : t.stage = .laneQueued)
    (htoken : e.tokens[t.token]? = some token)
    (hclosed : token.lane.closed = true) : e.Unqueued id := by
  refine ⟨fun k other hother hid => ?_, fun hid => ?_⟩
  · obtain ⟨t', ht', rfl, -⟩ := (h.lanes k other hother).waits id hid
    obtain rfl := Option.some.inj (ht.symm.trans ht')
    obtain rfl := Option.some.inj (htoken.symm.trans hother)
    rw [(h.lanes _ token htoken).idle hclosed] at hid
    cases hid
  · obtain ⟨t', ht', hstage'⟩ := h.pool.waits id hid
    obtain rfl := Option.some.inj (ht.symm.trans ht')
    cases hstage.symm.trans hstage'

/-- Nobody waits for permits of the pool when it is closed. -/
theorem Unqueued.of_poolClosed (h : e.Orderly) (ht : e.tasks[id]? = some t)
    (hstage : t.stage = .poolQueued) (hclosed : e.pool.closed = true) :
    e.Unqueued id := by
  refine ⟨fun k other hother hid => ?_, fun hid => ?_⟩
  · obtain ⟨t', ht', -, hstage'⟩ := (h.lanes k other hother).waits id hid
    obtain rfl := Option.some.inj (ht.symm.trans ht')
    cases hstage.symm.trans hstage'
  · rw [h.pool.idle hclosed] at hid
    cases hid

theorem tasks_setStage_of_ne {j : Nat} (stage : Stage) (h : j ≠ id) :
    (e.setStage id stage).tasks[j]? = e.tasks[j]? :=
  List.getElem?_modify_ne _ _ (Ne.symm h)

theorem tasks_setStage_self (stage : Stage) (ht : e.tasks[id]? = some t) :
    (e.setStage id stage).tasks[id]? = some { t with stage } := by
  rw [setStage, List.getElem?_modify_eq, ht]
  rfl

/-- A task that is in no queue may go to any stage. -/
theorem orderly_setStage (h : e.Orderly) (hid : e.Unqueued id)
    (stage : Stage) : (e.setStage id stage).Orderly := by
  have hkept : ∀ {j : Nat} {waiting : List Nat}, id ∉ waiting → j ∈ waiting →
      (e.setStage id stage).tasks[j]? = e.tasks[j]? := fun hid hj =>
    tasks_setStage_of_ne stage fun he => hid (he ▸ hj)
  refine ⟨fun k token htoken => ?_, ?_⟩
  · have hlane := h.lanes k token htoken
    refine ⟨hlane.nodup, hlane.idle, fun j hj => ?_⟩
    rw [WaitsForLane, hkept (hid.lanes k token htoken) hj]
    exact hlane.waits j hj
  · refine ⟨h.pool.nodup, h.pool.idle, fun j hj => ?_⟩
    rw [WaitsForPool, hkept hid.pool hj]
    exact h.pool.waits j hj

/-- A token's queue may become any other that is in order. -/
theorem orderly_modifyToken {f : Token → Token} (h : e.Orderly)
    (hf : ∀ token, e.tokens[k]? = some token →
      (f token).lane.Orderly (e.WaitsForLane k)) :
    (e.modifyToken k f).Orderly := by
  refine ⟨fun j token htoken => ?_, h.pool⟩
  rw [modifyToken] at htoken
  by_cases hj : k = j
  · subst hj
    rw [List.getElem?_modify_eq] at htoken
    obtain ⟨token', htoken', rfl⟩ := Option.map_eq_some_iff.1 htoken
    exact hf token' htoken'
  · rw [List.getElem?_modify_ne _ _ hj] at htoken
    exact h.lanes j token htoken

-- ================================================== permits given back

/-- A change that keeps the queues in order and puts nobody into one, and
what it changes of an overview. -/
structure Becomes (e e' : Executor) (change : Overview → Overview) :
    Prop where
  orderly : e'.Orderly
  overview : ∀ l, e'.overview l = change (e.overview l)
  unqueued : ∀ id, e.Unqueued id → e'.Unqueued id

/-- A change that only permits tell from none. -/
abbrev Quiet (e e' : Executor) : Prop := Becomes e e' fun v => v

theorem Quiet.refl (h : e.Orderly) : Quiet e e :=
  ⟨h, fun _ => rfl, fun _ hid => hid⟩

theorem Quiet.trans {e₁ e₂ e₃ : Executor} (h₁ : Quiet e₁ e₂)
    (h₂ : Quiet e₂ e₃) : Quiet e₁ e₃ :=
  ⟨h₂.orderly, fun l => (h₂.overview l).trans (h₁.overview l),
    fun id hid => h₂.unqueued id (h₁.unqueued id hid)⟩

theorem quiet_setStage (stage : Stage) (h : e.Orderly) (hid : e.Unqueued id)
    (ht : e.tasks[id]? = some t) (hphase : t.stage.phase = stage.phase) :
    Quiet e (e.setStage id stage) :=
  ⟨orderly_setStage h hid stage,
    fun _ => (overview_setStage stage).trans (overview_setPhase_self ht hphase),
    fun _ hj => ⟨hj.lanes, hj.pool⟩⟩

theorem quiet_setLane {token : Token} (lane : Permits) (h : e.Orderly)
    (htoken : e.tokens[k]? = some token)
    (hwaiting : lane.waiting.Sublist token.lane.waiting)
    (hclosed : lane.closed = token.lane.closed) :
    Quiet e (e.modifyToken k fun token => { token with lane }) := by
  refine ⟨?_, fun _ => overview_modifyToken_self fun _ _ => rfl,
    fun id hid => ⟨fun j other hother => ?_, hid.pool⟩⟩
  · refine orderly_modifyToken h fun token' htoken' => ?_
    obtain rfl := Option.some.inj (htoken.symm.trans htoken')
    exact (h.lanes k token htoken).sublist hwaiting hclosed
  · rw [modifyToken] at hother
    by_cases hj : k = j
    · subst hj
      rw [List.getElem?_modify_eq, htoken] at hother
      obtain rfl := Option.some.inj hother
      exact fun hmem => hid.lanes k token htoken (hwaiting.subset hmem)
    · rw [List.getElem?_modify_ne _ _ hj] at hother
      exact hid.lanes j other hother

theorem quiet_setPool (pool : Permits) (h : e.Orderly)
    (hwaiting : pool.waiting.Sublist e.pool.waiting)
    (hclosed : pool.closed = e.pool.closed) : Quiet e { e with pool } :=
  ⟨⟨h.lanes, h.pool.sublist hwaiting hclosed⟩, fun _ => rfl, fun _ hid =>
    ⟨hid.lanes, fun hmem => hid.pool (hwaiting.subset hmem)⟩⟩

/-- A permit of a lane that is given back moves on who waits for it. -/
theorem quiet_releaseLane (h : e.Orderly) (k : Nat) :
    Quiet e (e.releaseLane k) := by
  unfold releaseLane
  split
  · exact .refl h
  · rename_i token htoken
    have hlane := h.lanes k token htoken
    rw [Permits.release]
    cases hw : token.lane.waiting with
    | nil => exact quiet_setLane _ h htoken (by simp [hw]) rfl
    | cons j rest =>
        have hset : Quiet e (e.modifyToken k fun t =>
            { t with lane := { token.lane with waiting := rest } }) :=
          quiet_setLane _ h htoken (hw ▸ List.sublist_cons_self j rest) rfl
        obtain ⟨t, ht, htk, hstage⟩ :=
          hlane.waits j (hw ▸ List.mem_cons_self ..)
        -- who is first in this queue is in no other one, nor twice in it
        have hj : Unqueued (e.modifyToken k fun t =>
            { t with lane := { token.lane with waiting := rest } }) j := by
          refine ⟨fun k' other hother hmem => ?_, fun hmem => ?_⟩
          · rw [modifyToken] at hother
            by_cases hk : k = k'
            · subst hk
              rw [List.getElem?_modify_eq, htoken] at hother
              obtain rfl := Option.some.inj hother
              exact (List.nodup_cons.1 (hw ▸ hlane.nodup)).1 hmem
            · rw [List.getElem?_modify_ne _ _ hk] at hother
              obtain ⟨t', ht', htk', -⟩ :=
                (h.lanes k' other hother).waits j hmem
              rw [ht] at ht'
              exact hk (htk.symm.trans (Option.some.inj ht' ▸ htk'))
          · obtain ⟨t', ht', hstage'⟩ := h.pool.waits j hmem
            rw [ht] at ht'
            rw [← Option.some.inj ht', hstage] at hstage'
            cases hstage'
        exact hset.trans (quiet_setStage _ hset.orderly hj ht
          (by rw [hstage]; rfl))

/-- A permit of the pool that is given back moves on who waits for it. -/
theorem quiet_releasePool (h : e.Orderly) : Quiet e e.releasePool := by
  rw [releasePool, Permits.release]
  cases hw : e.pool.waiting with
  | nil => exact quiet_setPool _ h (by simp [hw]) rfl
  | cons j rest =>
      have hset : Quiet e { e with pool := { e.pool with waiting := rest } } :=
        quiet_setPool _ h (hw ▸ List.sublist_cons_self j rest) rfl
      obtain ⟨t, ht, hstage⟩ := h.pool.waits j (hw ▸ List.mem_cons_self ..)
      have hj :
          Unqueued { e with pool := { e.pool with waiting := rest } } j := by
        refine ⟨fun k' other hother hmem => ?_,
          (List.nodup_cons.1 (hw ▸ h.pool.nodup)).1⟩
        obtain ⟨t', ht', -, hstage'⟩ := (h.lanes k' other hother).waits j hmem
        rw [ht] at ht'
        rw [← Option.some.inj ht', hstage] at hstage'
        cases hstage'
      exact hset.trans (quiet_setStage _ hset.orderly hj ht
        (by rw [hstage]; rfl))

-- ================================================== steps of a task

/-- A change of an executor and of the ledger that keeps the queues in
order and that an overview knows. -/
structure Moved (e : Executor) (l : MarkLedger) (e' : Executor)
    (l' : MarkLedger) : Prop where
  orderly : e'.Orderly
  next : (e.overview l).Next (e'.overview l')

theorem next_self {phase : Phase} (ht : e.tasks[id]? = some t)
    (hphase : t.stage.phase = phase) :
    (e.overview l).Next ((e.overview l).setPhase id phase) := by
  rw [overview_setPhase_self ht hphase]
  exact .rest

theorem Quiet.moved {e' : Executor} (h : Quiet e e') : Moved e l e' l :=
  ⟨h.orderly, h.overview l ▸ .rest⟩

/-- After a change, a task that is in no queue goes to another phase. -/
theorem Becomes.moved_setStage {e' : Executor} {change : Overview → Overview}
    {stage : Stage} (h : e.Becomes e' change) (hid : e.Unqueued id)
    (hnext : (e.overview l).Next
      ((change (e.overview l)).setPhase id stage.phase)) :
    Moved e l (e'.setStage id stage) l := by
  refine ⟨orderly_setStage h.orderly (h.unqueued id hid) stage, ?_⟩
  rw [overview_setStage, h.overview]
  exact hnext

/-- After a change that permits alone tell, a task gives up. -/
theorem Quiet.moved_gaveUp {e' : Executor} (h : Quiet e e')
    (ht : e.tasks[id]? = some t) (hid : e.Unqueued id)
    (hphase : t.stage.phase = .running) (held : Held) (error : CalcError) :
    Moved e l (e'.setStage id (.ending held (.error error))) l :=
  h.moved_setStage hid (.gaveUp (overview_charge ht) hphase error)

/-- A token's account may change while its lane stays. -/
theorem becomes_modifyToken {f : Token → Token} {g : Account → Account}
    (h : e.Orderly) (hlane : ∀ token, (f token).lane = token.lane)
    (haccount : ∀ token, (f token).account = g token.account) (k : Nat) :
    e.Becomes (e.modifyToken k f) (·.modifyAccount k g) := by
  refine ⟨?_, fun l => overview_modifyToken fun token _ => haccount token,
    fun id hid => ⟨fun j token htoken => ?_, hid.pool⟩⟩
  · exact orderly_modifyToken h fun token htoken =>
      (hlane token).symm ▸ h.lanes k token htoken
  · rw [modifyToken] at htoken
    by_cases hj : k = j
    · subst hj
      rw [List.getElem?_modify_eq] at htoken
      obtain ⟨token', htoken', rfl⟩ := Option.map_eq_some_iff.1 htoken
      exact (hlane token').symm ▸ hid.lanes k token' htoken'
    · rw [List.getElem?_modify_ne _ _ hj] at htoken
      exact hid.lanes j token htoken

theorem Becomes.report {e' : Executor} {change : Overview → Overview}
    (h : e.Becomes e' change) (event : WorkerReport) :
    e.Becomes (e'.report event) fun v => (change v).report event :=
  ⟨⟨h.orderly.lanes, h.orderly.pool⟩,
    fun l => congrArg (Overview.report · event) (h.overview l), fun id hid =>
      ⟨(h.unqueued id hid).lanes, (h.unqueued id hid).pool⟩⟩

theorem checkOffer_cases (e : Executor) (token : Token) {stage : Stage}
    (hphase : stage.phase = .offered) :
    e.checkOffer token stage = .statusChecked
      ∨ e.checkOffer token stage = .cancelChecked
      ∨ e.checkOffer token stage = .shutDownChecked
      ∨ (∃ error, e.checkOffer token stage = .rejected error)
      ∨ e.checkOffer token stage = .accepted := by
  cases stage with
  | offered =>
      cases hs : token.status with
      | none => exact .inl (by simp [checkOffer, hs])
      | some error =>
          exact .inr (.inr (.inr (.inl ⟨error, by simp [checkOffer, hs]⟩)))
  | statusChecked =>
      by_cases hc : token.cancel = .no
      · exact .inr (.inl (by simp [checkOffer, hc]))
      · exact .inr (.inr (.inr (.inl ⟨.cancelled, by simp [checkOffer, hc]⟩)))
  | cancelChecked =>
      by_cases hs : e.shutDown = .no
      · exact .inr (.inr (.inl (by simp [checkOffer, hs])))
      · exact .inr (.inr (.inr (.inl ⟨.shutDown, by simp [checkOffer, hs]⟩)))
  | shutDownChecked => exact .inr (.inr (.inr (.inr rfl)))
  | _ => cases hphase

theorem moved_advanceOffer {token : Token} (h : e.Orderly)
    (hid : e.Unqueued id) (ht : e.tasks[id]? = some t)
    (htoken : e.tokens[t.token]? = some token)
    (hphase : t.stage.phase = .offered) :
    Moved e l (e.advanceOffer id t token) l := by
  obtain hs | hs | hs | ⟨error, hs⟩ | hs := checkOffer_cases e token hphase
  · simp only [advanceOffer, hs]
    exact (quiet_setStage .statusChecked h hid ht hphase).moved
  · simp only [advanceOffer, hs]
    exact (quiet_setStage .cancelChecked h hid ht hphase).moved
  · simp only [advanceOffer, hs]
    exact (quiet_setStage .shutDownChecked h hid ht hphase).moved
  · simp only [advanceOffer, hs]
    exact (Quiet.refl h).moved_setStage hid
      (.rejected (overview_charge ht) hphase)
  · simp only [advanceOffer, hs]
    have hcounted := becomes_modifyToken h (k := t.token)
      (f := fun token => { token with pending := token.pending + 1 })
      (g := fun a => { a with pending := a.pending + 1 }) (fun _ => rfl)
      (fun _ => rfl)
    exact (hcounted.report _).moved_setStage hid
      (.accepted (overview_charge ht) hphase (overview_account htoken))

theorem moved_requestLane {token : Token} (h : e.Orderly)
    (hid : e.Unqueued id) (ht : e.tasks[id]? = some t)
    (htoken : e.tokens[t.token]? = some token)
    (hphase : t.stage.phase = .running) :
    Moved e l (e.requestLane id t token) l := by
  obtain ⟨-, hr⟩ | ⟨hopen, -, hr⟩ | ⟨-, -, hr⟩ := token.lane.request_cases id
  · simp only [requestLane, hr]
    exact (Quiet.refl h).moved_gaveUp ht hid hphase .none .cancelled
  · simp only [requestLane, hr]
    -- the stage first, then the queue: in this order both are kept
    have hset := quiet_setStage .laneQueued h hid ht hphase
    have hlane := hset.orderly.lanes t.token token htoken
    refine ⟨orderly_modifyToken hset.orderly fun token' htoken' => ?_, ?_⟩
    · obtain rfl := Option.some.inj (htoken.symm.trans htoken')
      exact hlane.join hopen (hid.lanes t.token token htoken) hlane.waits
        ⟨_, tasks_setStage_self .laneQueued ht, rfl, rfl⟩
    · rw [overview_setStage, overview_modifyToken_self (by intros; rfl)]
      exact next_self ht hphase
  · simp only [requestLane, hr]
    have hset := quiet_setLane
      { token.lane with free := token.lane.free - 1 } h htoken
      (List.Sublist.refl _) rfl
    exact (hset.trans (quiet_setStage .laneHeld hset.orderly
      (hset.unqueued id hid) ht hphase)).moved

theorem moved_requestPool (h : e.Orderly) (hid : e.Unqueued id)
    (ht : e.tasks[id]? = some t) (hphase : t.stage.phase = .running) :
    Moved e l (e.requestPool id) l := by
  obtain ⟨-, hr⟩ | ⟨hopen, -, hr⟩ | ⟨-, -, hr⟩ := e.pool.request_cases id
  · simp only [requestPool, hr]
    exact (Quiet.refl h).moved_gaveUp ht hid hphase .lane .shutDown
  · simp only [requestPool, hr]
    have hset := quiet_setStage .poolQueued h hid ht hphase
    have hpool := hset.orderly.pool
    refine ⟨⟨hset.orderly.lanes, hpool.join hopen hid.pool hpool.waits
      ⟨_, tasks_setStage_self .poolQueued ht, rfl⟩⟩, ?_⟩
    rw [overview_setStage]
    exact next_self ht hphase
  · simp only [requestPool, hr]
    have hset := quiet_setPool { e.pool with free := e.pool.free - 1 } h
      (List.Sublist.refl _) rfl
    exact (hset.trans (quiet_setStage .poolHeld hset.orderly
      (hset.unqueued id hid) ht hphase)).moved

theorem becomes_noteEnd (h : e.Orderly) (result : Except CalcError Unit) :
    e.Becomes (e.noteEnd t result) fun v =>
      (v.modifyAccount t.token (·.note result)).report
        (.finished t.work.kind (endOf result)) := by
  cases result with
  | ok _ =>
      have hquiet : e.Becomes e (·.modifyAccount t.token (·.note (.ok ()))) := by
        refine ⟨h, fun l => ?_, fun _ hid => hid⟩
        have hself : (e.overview l).accounts.modify t.token (fun a => a)
            = (e.overview l).accounts := modify_eq_self fun _ _ => rfl
        show e.overview l = (e.overview l).modifyAccount t.token fun a => a
        rw [Overview.modifyAccount, hself]
      exact hquiet.report _
  | error error =>
      exact (becomes_modifyToken (f := (·.fail error))
        (g := (·.note (.error error))) h (fun _ => rfl) (fun _ => rfl)
        t.token).report _

/-- A task that merges no marks goes on by one step. -/
theorem moved_advanceTask {token : Token} (h : e.Orderly)
    (ht : e.tasks[id]? = some t) (htoken : e.tokens[t.token]? = some token)
    (hmarks : ∀ marks, t.stage ≠ .calculated (.ok marks)) :
    Moved e l (e.advanceTask id t token) l := by
  have hquiet := Quiet.refl h
  have hunqueued := Unqueued.of_stage h ht
  have hc := overview_charge (l := l) ht
  obtain ⟨k, work, name, stage⟩ := t
  cases stage with
  | offered | statusChecked | cancelChecked | shutDownChecked =>
      exact moved_advanceOffer h (hunqueued nofun nofun) ht htoken rfl
  | accepted => exact moved_requestLane h (hunqueued nofun nofun) ht htoken rfl
  | laneQueued =>
      simp only [advanceTask]
      split
      · rename_i hclosed
        have hid := Unqueued.of_laneClosed h ht rfl htoken hclosed
        exact hquiet.moved_gaveUp ht hid rfl .none .cancelled
      · exact hquiet.moved
  | laneGranted =>
      have hid := hunqueued nofun nofun
      simp only [advanceTask]
      split
      · exact (quiet_releaseLane h k).moved_gaveUp ht hid rfl .none .cancelled
      · exact (quiet_setStage .laneHeld h hid ht rfl).moved
  | laneHeld => exact moved_requestPool h (hunqueued nofun nofun) ht rfl
  | poolQueued =>
      simp only [advanceTask]
      split
      · rename_i hclosed
        have hid := Unqueued.of_poolClosed h ht rfl hclosed
        exact hquiet.moved_gaveUp ht hid rfl .lane .shutDown
      · exact hquiet.moved
  | poolGranted =>
      have hid := hunqueued nofun nofun
      simp only [advanceTask]
      split
      · exact (quiet_releasePool h).moved_gaveUp ht hid rfl .lane .shutDown
      · exact (quiet_setStage .poolHeld h hid ht rfl).moved
  | poolHeld =>
      have hid := hunqueued nofun nofun
      simp only [advanceTask]
      split
      · exact (quiet_setStage .calculating h hid ht rfl).moved
      · exact hquiet.moved_gaveUp ht hid rfl .both .cancelled
  | calculated result =>
      cases result with
      | ok marks => exact absurd rfl (hmarks marks)
      | error error =>
          exact hquiet.moved_setStage (hunqueued nofun nofun) (.failed hc rfl)
  | ending held result =>
      have hid := hunqueued nofun nofun
      cases held with
      | both =>
          exact (quiet_releasePool h).moved_setStage hid (next_self ht rfl)
      | lane =>
          exact (quiet_releaseLane h k).moved_setStage hid (next_self ht rfl)
      | none =>
          exact (becomes_noteEnd h result).moved_setStage hid (.noted hc rfl)
  | noted result =>
      have hid := hunqueued nofun nofun
      refine ⟨orderly_setStage (e := e.deliver id _ result) ⟨h.lanes, h.pool⟩
        ⟨hid.lanes, hid.pool⟩ _, ?_⟩
      simp only [advanceTask]
      rw [overview_setStage]
      exact .delivered hc rfl
  | delivered result =>
      have hcounted := becomes_modifyToken h (k := k)
        (f := fun token => { token with pending := token.pending - 1 })
        (g := fun a => { a with pending := a.pending - 1 }) (fun _ => rfl)
        (fun _ => rfl)
      exact hcounted.moved_setStage (hunqueued nofun nofun) (.finished hc rfl)
  | calculating | rejected _ | finished _ => exact hquiet.moved

/-- A task that has marks merges them. -/
theorem moved_merge {marks : DeleteBitmap} (h : e.Orderly)
    (ht : e.tasks[id]? = some t) (hstage : t.stage = .calculated (.ok marks)) :
    Moved e l ((e.mergeMarks t marks).setStage id (.ending .both (.ok ())))
      { l with merged := id :: l.merged } := by
  have hid := Unqueued.of_stage h ht (by rw [hstage]; nofun)
    (by rw [hstage]; nofun)
  refine ⟨orderly_setStage (e := e.mergeMarks t marks) ⟨h.lanes, h.pool⟩
    ⟨hid.lanes, hid.pool⟩ _, ?_⟩
  rw [overview_setStage]
  exact .merged (overview_charge (l := l) ht) (by rw [Job.charge, hstage]; rfl)

-- ================================================== all steps

/-- A task that has no marks to merge after all keeps the ledger. -/
theorem note_advance_of_not
    (h : ¬((e.toMerge? id).isSome ∧ ((e.advance id).toMerge? id).isNone)) :
    l.note e (.advance id) = l :=
  if_neg h

theorem toMerge?_of_stage (ht : e.tasks[id]? = some t)
    (hstage : ∀ marks, t.stage ≠ .calculated (.ok marks)) :
    e.toMerge? id = none := by
  rw [toMerge?, ht]
  split
  · rename_i marks heq
    exact absurd (congrArg Job.stage (Option.some.inj heq)) (hstage marks)
  · rfl

/-- A task goes on by one step. -/
theorem moved_advance (h : e.Orderly) (id : Nat) :
    Moved e l (e.advance id) (l.note e (.advance id)) := by
  have hstill : e.advance id = e →
      Moved e l (e.advance id) (l.note e (.advance id)) := fun he => by
    rw [note_advance_of_not fun hm => by
      rw [he] at hm
      cases hmarks : e.toMerge? id <;> simp [hmarks] at hm, he]
    exact (Quiet.refl h).moved
  cases ht : e.tasks[id]? with
  | none => exact hstill (by rw [advance, ht])
  | some t =>
      cases htoken : e.tokens[t.token]? with
      | none => exact hstill (by simp only [advance, ht, htoken])
      | some token =>
          have hadvance : e.advance id = e.advanceTask id t token := by
            simp only [advance, ht, htoken]
          by_cases hmarks : ∃ marks, t.stage = .calculated (.ok marks)
          · obtain ⟨marks, hstage⟩ := hmarks
            have hmerge : e.advance id = (e.mergeMarks t marks).setStage id
                (.ending .both (.ok ())) := by
              rw [hadvance, advanceTask, hstage]
            have hafter : ((e.advance id).toMerge? id).isNone := by
              rw [hmerge, toMerge?_of_stage (tasks_setStage_self
                (e := e.mergeMarks t marks) _ ht) (by simp)]
              rfl
            have hbefore : (e.toMerge? id).isSome := by
              obtain ⟨k, work, name, stage⟩ := t
              obtain rfl : stage = _ := hstage
              rw [toMerge?, ht]
              rfl
            rw [MarkLedger.note, if_pos ⟨hbefore, hafter⟩, hmerge]
            exact moved_merge h ht hstage
          · have hmarks : ∀ marks, t.stage ≠ .calculated (.ok marks) :=
              fun marks hstage => hmarks ⟨marks, hstage⟩
            have hnone := toMerge?_of_stage ht hmarks
            rw [note_advance_of_not (by simp [hnone]), hadvance]
            exact moved_advanceTask h ht htoken hmarks

theorem endCalculation_eq (id : Nat)
    (result : Except CalcError DeleteBitmap) :
    e.endCalculation id result
      = if e.isCalculating id then e.setStage id (.calculated result)
        else e := by
  rw [endCalculation, isCalculating]
  split <;> simp_all

theorem stage_of_isCalculating (h : e.isCalculating id = true) :
    ∃ t, e.tasks[id]? = some t ∧ t.stage = .calculating := by
  rw [isCalculating] at h
  split at h
  · rename_i ht
    exact ⟨_, ht, rfl⟩
  · cases h

theorem moved_endCalculation (h : e.Orderly) (id : Nat)
    (result : Except CalcError DeleteBitmap) :
    Moved e l (e.endCalculation id result)
      (l.note e (.endCalculation id result)) := by
  rw [endCalculation_eq, MarkLedger.note]
  split
  · rename_i hc
    obtain ⟨t, ht, hstage⟩ := stage_of_isCalculating hc
    have hid := Unqueued.of_stage h ht (by rw [hstage]; nofun)
      (by rw [hstage]; nofun)
    refine ⟨orderly_setStage h hid _, ?_⟩
    rw [overview_setStage]
    exact .calculated (overview_charge (l := l) ht)
      (by rw [Job.charge, hstage]; rfl) result
  · exact (Quiet.refl h).moved

/-- Cancelling a token empties its queue, and may give it a status. -/
theorem moved_cancel (h : e.Orderly) (k : Nat) :
    Moved e l (e.modifyToken k advanceCancel) l := by
  refine ⟨orderly_modifyToken h fun token htoken => ?_, ?_⟩
  · have hlane := h.lanes k token htoken
    rw [advanceCancel]
    cases token.cancel with
    | raised => exact ⟨.nil, fun _ => rfl, fun id hid => by cases hid⟩
    | no | closed | recorded => exact hlane
  · by_cases hclosed : ∃ token, e.tokens[k]? = some token
        ∧ token.cancel = .closed
    · obtain ⟨token, htoken, hcancel⟩ := hclosed
      rw [overview_modifyToken (g := (·.note (.error .cancelled)))
        fun token' htoken' => by
          obtain rfl := Option.some.inj (htoken.symm.trans htoken')
          rw [advanceCancel, hcancel]
          rfl]
      exact .cancelled k .cancelled
    · rw [overview_modifyToken_self fun token htoken => by
        rw [advanceCancel]
        cases hcancel : token.cancel with
        | closed => exact absurd ⟨token, htoken, hcancel⟩ hclosed
        | no | raised | recorded => rfl]
      exact .rest

theorem moved_openToken (h : e.Orderly) : Moved e l e.openToken l := by
  unfold openToken
  split
  · refine ⟨⟨fun k token htoken => ?_, h.pool⟩, ?_⟩
    · by_cases hk : k < e.tokens.length
      · rw [report, List.getElem?_append_left hk] at htoken
        exact h.lanes k token htoken
      · rw [report, List.getElem?_append_right (Nat.not_lt.1 hk)] at htoken
        obtain rfl := List.mem_singleton.1 (List.mem_of_getElem? htoken)
        exact ⟨.nil, fun _ => rfl, fun id hid => by cases hid⟩
    · show (e.overview l).Next ((({ e with tokens := e.tokens ++ [_] } :
        Executor).overview l).report .tokenOpened)
      rw [overview_addToken]
      exact .opened
  · exact (Quiet.refl h).moved

theorem moved_offer (h : e.Orderly) (k : Nat) (work : CalcTask)
    (name : String) : Moved e l (e.step (.offer k work name)) l := by
  have hkept : ∀ {id : Nat} {t : Job}, e.tasks[id]? = some t →
      (e.step (.offer k work name)).tasks[id]? = some t := fun ht => by
    rw [step, List.getElem?_append_left (List.getElem?_eq_some_iff.1 ht).1, ht]
  refine ⟨⟨fun k token htoken => (h.lanes k token htoken).mono ?_,
    h.pool.mono ?_⟩, ?_⟩
  · rintro id ⟨t, ht, hstage⟩
    exact ⟨t, hkept ht, hstage⟩
  · rintro id ⟨t, ht, hstage⟩
    exact ⟨t, hkept ht, hstage⟩
  · rw [step, overview_addTask]
    exact .offered k work.kind work.subject name

theorem moved_shutDown (h : e.Orderly) : Moved e l e.advanceShutDown l := by
  unfold advanceShutDown
  cases e.shutDown with
  | no => exact ⟨⟨h.lanes, h.pool⟩, .rest⟩
  | raised =>
      exact ⟨⟨h.lanes, .nil, fun _ => rfl, fun id hid => by cases hid⟩, .rest⟩
  | closed | recorded => exact (Quiet.refl h).moved

theorem moved_step (h : e.Orderly) (step : Step) :
    Moved e l (e.step step) (l.note e step) := by
  cases step with
  | openToken => exact moved_openToken h
  | closeToken =>
      have hclosed := (Quiet.refl h).report .tokenClosed
      exact ⟨hclosed.orderly, hclosed.overview _ ▸ .closed⟩
  | offer k work name => exact moved_offer h k work name
  | advance id => exact moved_advance h id
  | endCalculation id result => exact moved_endCalculation h id result
  | cancel k => exact moved_cancel h k
  | shutDown => exact moved_shutDown h

end Executor

end MergeOnWrite
