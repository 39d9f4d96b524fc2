/-
A service that nobody disturbs.

Where no rival strikes and no replay waits, the course of a script is the
script itself: between two of its questions nothing happens but that
virtual time passes, and a wait ends in the first turn. So what comes of a
script that asks for no replay can be told question by question
(`World.answerAlone`).

# Main statements

- `sleep_eq`: a wait is over after one turn, and only time has passed.
- `runForeground_ofScript`: the course of a script is its run.
- `keeps_run`: what such a run leaves as it is.
-/
import MergeOnWrite.Proofs.Service.Phases
import MergeOnWrite.Simulation.ServiceSession

namespace MergeOnWrite

/-- True of the questions of a single attempt, and of the waits between
attempts. -/
def Question.IsPlain : Question → Prop
  | .replay .. => False
  | _ => True

theorem TxnPhase.isPlain_of_next? {mayWrite : Bool} {a b : TxnPhase}
    {q : Question} (h : a.next? mayWrite q = some b) : q.IsPlain := by
  cases q with
  | replay => cases a <;> cases h
  | _ => trivial

/-- Handlers ask for no replay. -/
theorem Script.asks_of_follows {α : Type} {mayWrite : Bool}
    {ends : TxnPhase → α → Prop} {fails : StoreCode → α → Prop}
    {s : Script α} :
    ∀ {a : TxnPhase}, Script.Follows mayWrite ends fails a s →
      s.Asks Question.IsPlain := by
  induction s with
  | done r => intro _ _; trivial
  | ask q next ih =>
      rintro a ⟨a', ha', hnext⟩
      refine ⟨TxnPhase.isPlain_of_next? ha', fun x => ?_⟩
      have hx := hnext x
      split at hx
      · obtain ⟨y, hx, -⟩ := hx
        rw [hx]
        trivial
      · exact ih x hx

namespace World

-- ================================================== time

/-- True of surroundings where nobody else does anything. -/
structure IsLone (w : World) : Prop where
  ready : w.ready = []
  waits : w.waits = []
  givenWay : w.givenWay = []
  afterStart : w.afterStart = []
  beforeCommit : w.beforeCommit = []

/-- Lets virtual time pass. -/
def pass (w : World) (ms : Nat) : World :=
  if w.isOver ms then w
  else { w with time := w.time + ms, settled := w.time + ms }

def passLatency (w : World) : World :=
  match w.pace.latency with
  | none => w
  | some ms => w.pass ms

/-- A wait is over after one turn, and only time has passed. -/
theorem sleep_eq {w : World} (h : w.IsLone) (ms : Nat) :
    w.sleep ms = w.pass ms := by
  unfold sleep pass
  by_cases hover : w.isOver ms
  · rw [if_pos hover, if_pos hover]
  · rw [if_neg hover, if_neg hover]
    have hturn : (w.addWait ms none).turn
        = ({ w with time := w.time + ms, settled := w.time + ms }, true) := by
      obtain ⟨hready, hwaits, hgiven, -, -⟩ := h
      simp [turn, runReady, addWait, nextTime, wake, hready, hwaits, hgiven]
    rw [await, hturn]

/-- Passes over what the next read fails with. -/
def takeRead (w : World) : World := { w with reads := w.reads.tail }

@[simp] theorem backing_pass (w : World) (ms : Nat) :
    (w.pass ms).backing = w.backing := by
  unfold pass
  split <;> rfl

@[simp] theorem backing_passLatency (w : World) :
    w.passLatency.backing = w.backing := by
  unfold passLatency
  split
  · rfl
  · exact backing_pass w _

@[simp] theorem backing_takeRead (w : World) :
    w.takeRead.backing = w.backing := rfl

-- ================================================== questions

/-- Answers a question of a script that runs undisturbed. -/
def answerAlone (state : World × Option Txn) :
    (q : Question) → (World × Option Txn) × q.Answer
  | .get key =>
    let w := state.1.takeRead
    match state.1.reads.head?.join with
    | some code => ((w, state.2), .error code)
    | none =>
      let (w, txn, x) := w.passLatency.operate state.2 (.get key)
      ((w, txn), x)
  | .scan stem =>
    let w := state.1.takeRead
    match state.1.reads.head?.join with
    | some code => ((w, state.2), .error code)
    | none =>
      let (w, txn, x) := w.passLatency.operate state.2 (.scan stem)
      ((w, txn), x)
  | .commit =>
    let (w, txn, x) := state.1.passLatency.operate state.2 .commit
    ((w, txn), x)
  | .pause ms =>
    match state.1.pace.pausing with
    | .noted =>
      let (w, txn, x) := state.1.operate state.2 (.pause ms)
      ((w, txn), x)
    | .real => ((state.1.pass ms.toNat, state.2), ())
  | q =>
    let (w, txn, x) := state.1.operate state.2 q
    ((w, txn), x)

/-- A begin is refused if and only if a failure is due. -/
theorem answerAlone_start (w : World) (txn : Option Txn) :
    ∃ w', match w.backing.faults.starts with
    | [] => answerAlone (w, txn) .start
        = ((w', some (.open w.backing.store w.time)), .ok ())
      ∧ w'.backing = w.backing.note (.start (.ok ()))
    | code :: rest => answerAlone (w, txn) .start = ((w', none), .error code)
      ∧ w'.backing = { w.backing with faults.starts := rest }.note
        (.start (.error code)) := by
  cases hstarts : w.backing.faults.starts with
  | nil =>
      refine ⟨{ w with backing := w.backing.note (.start (.ok ())) }, ?_, rfl⟩
      simp only [answerAlone, operate, ScriptedStore.start, hstarts]
  | cons code rest =>
      let backing := { w.backing with faults.starts := rest }
      refine ⟨{ w with backing := backing.note (.start (.error code)) }, ?_,
        rfl⟩
      simp only [answerAlone, operate, ScriptedStore.start, hstarts, backing]

/-- What no question of an undisturbed script changes. -/
structure Keeps (w w' : World) : Prop where
  config : w'.config = w.config
  pace : w'.pace = w.pace
  jitterMs : w'.jitterMs = w.jitterMs
  clock : w'.clock = w.clock
  allowList : w'.allowList = w.allowList
  maxAge : w'.backing.maxAge = w.backing.maxAge
  reads : w.reads = [] → w'.reads = []
  lone : w.IsLone → w'.IsLone

theorem Keeps.refl (w : World) : w.Keeps w :=
  ⟨rfl, rfl, rfl, rfl, rfl, rfl, id, id⟩

theorem Keeps.trans {w₁ w₂ w₃ : World} (h₁ : w₁.Keeps w₂)
    (h₂ : w₂.Keeps w₃) : w₁.Keeps w₃ where
  config := h₂.config.trans h₁.config
  pace := h₂.pace.trans h₁.pace
  jitterMs := h₂.jitterMs.trans h₁.jitterMs
  clock := h₂.clock.trans h₁.clock
  allowList := h₂.allowList.trans h₁.allowList
  maxAge := h₂.maxAge.trans h₁.maxAge
  reads h := h₂.reads (h₁.reads h)
  lone h := h₂.lone (h₁.lone h)

theorem keeps_pass (w : World) (ms : Nat) : w.Keeps (w.pass ms) := by
  unfold pass
  split
  · exact .refl w
  · exact ⟨rfl, rfl, rfl, rfl, rfl, rfl, id,
      fun h => ⟨h.ready, h.waits, h.givenWay, h.afterStart, h.beforeCommit⟩⟩

theorem keeps_passLatency (w : World) : w.Keeps w.passLatency := by
  unfold passLatency
  split
  · exact .refl w
  · exact keeps_pass w _

theorem keeps_backing (w : World) {backing : ScriptedStore}
    (h : backing.maxAge = w.backing.maxAge) :
    w.Keeps { w with backing } :=
  ⟨rfl, rfl, rfl, rfl, rfl, h, id,
    fun h => ⟨h.ready, h.waits, h.givenWay, h.afterStart, h.beforeCommit⟩⟩

theorem maxAge_start (s : ScriptedStore) (now : Nat) :
    (s.start now).1.maxAge = s.maxAge := by
  unfold ScriptedStore.start
  split <;> rfl

theorem maxAge_commit (s : ScriptedStore) (t : Txn) (now : Nat) :
    (s.commit t now).1.maxAge = s.maxAge := by
  unfold ScriptedStore.commit
  simp only
  split <;> rfl

theorem keeps_operate (w : World) (txn : Option Txn) {q : Question}
    (hq : q.IsPlain) : w.Keeps (w.operate txn q).1 := by
  cases q with
  | now | route | jitter | chance | spread => exact .refl w
  | start =>
      have h := keeps_backing w (maxAge_start w.backing w.time)
      simp only [operate]
      split <;> rename_i heq <;> rw [heq] at h <;> exact h
  | get key =>
      cases txn with
      | none => exact .refl w
      | some t =>
          simp only [operate]
          split <;> rename_i heq <;>
            exact keeps_backing w (congrArg (·.1.maxAge) heq).symm
  | scan stem =>
      cases txn with
      | none => exact .refl w
      | some t =>
          simp only [operate]
          split <;> rename_i heq <;>
            exact keeps_backing w (congrArg (·.1.maxAge) heq).symm
  | put | remove =>
      cases txn with
      | none => exact .refl w
      | some t => exact keeps_backing w rfl
  | commit =>
      cases txn with
      | none => exact .refl w
      | some t => exact keeps_backing w (maxAge_commit w.backing t w.time)
  | report | pause =>
      exact ⟨rfl, rfl, rfl, rfl, rfl, rfl, id,
        fun h => ⟨h.ready, h.waits, h.givenWay, h.afterStart, h.beforeCommit⟩⟩
  | replay => exact hq.elim

theorem keeps_takeRead (w : World) : w.Keeps w.takeRead :=
  ⟨rfl, rfl, rfl, rfl, rfl, rfl, fun h => by rw [takeRead, h]; rfl,
    fun h => ⟨h.ready, h.waits, h.givenWay, h.afterStart, h.beforeCommit⟩⟩

theorem keeps_answerAlone (state : World × Option Txn) {q : Question}
    (hq : q.IsPlain) : state.1.Keeps (answerAlone state q).1.1 := by
  obtain ⟨w, txn⟩ := state
  cases q with
  | get | scan =>
      have hread := keeps_takeRead w
      simp only [answerAlone]
      split
      · exact hread
      · refine (hread.trans (keeps_passLatency _)).trans ?_
        exact keeps_operate _ txn trivial
  | commit =>
      exact (keeps_passLatency w).trans
        (keeps_operate _ txn (q := .commit) trivial)
  | pause ms =>
      simp only [answerAlone]
      split
      · exact keeps_operate w txn trivial
      · exact keeps_pass w _
  | _ => exact keeps_operate w txn hq

/-- What a run of plain questions leaves as it is. -/
theorem keeps_run {α : Type} {s : Script α} (hs : s.Asks Question.IsPlain)
    (state : World × Option Txn) :
    state.1.Keeps (s.run answerAlone state).1.1 := by
  induction s generalizing state with
  | done a => exact .refl _
  | ask q next ih =>
      exact (keeps_answerAlone state hs.1).trans (ih _ (hs.2 _) _)

-- ================================================== courses

variable {w : World} {txn : Option Txn} {α : Type}

theorem takeStrike_of_nil (hstart : w.afterStart = [])
    (hcommit : w.beforeCommit = []) (moment : Moment) :
    w.takeStrike moment = (w, []) := by
  cases moment with
  | afterStart =>
      obtain ⟨_, _, _, _, _, _, _, afterStart, _⟩ := w
      obtain rfl : afterStart = [] := hstart
      rfl
  | beforeCommit =>
      obtain ⟨_, _, _, _, _, _, _, _, beforeCommit, _⟩ := w
      obtain rfl : beforeCommit = [] := hcommit
      rfl

theorem takeStrike_of_lone (h : w.IsLone) (moment : Moment) :
    w.takeStrike moment = (w, []) :=
  takeStrike_of_nil h.afterStart h.beforeCommit moment

/-- A deed comes after the latency. -/
theorem runForeground_afterLatency {pace : Pace} (h : w.IsLone)
    (hpace : w.pace = pace) (d : Deed) (k : d.Answer → Course α) :
    w.runForeground txn
        (((Course.latency pace).bind fun _ => Course.deed d).bind k)
      = w.passLatency.runForeground txn (.ask d k) := by
  subst hpace
  unfold Course.latency passLatency
  cases w.pace.latency with
  | none => rfl
  | some ms =>
      show (w.sleep ms).runForeground txn (.ask d k) = _
      rw [sleep_eq h]

theorem runForeground_operation (q : Question) (k : q.Answer → Course α) :
    w.runForeground txn (.ask (.operation q) k)
      = (w.operate txn q).1.runForeground (w.operate txn q).2.1
          (k (w.operate txn q).2.2) :=
  rfl

theorem runForeground_readFault (k : Option StoreCode → Course α) :
    w.runForeground txn (.ask .readFault k)
      = w.takeRead.runForeground txn (k w.reads.head?.join) :=
  rfl

/-- Nobody strikes. -/
theorem runForeground_strike (h : w.IsLone) (moment : Moment)
    (k : List RivalStep → Course α) :
    w.runForeground txn (.ask (.strike moment) k)
      = w.runForeground txn (k []) := by
  rw [runForeground, perform, takeStrike_of_lone h]
  · nofun
  · nofun

/-- The course of a question is its answer. -/
theorem runForeground_ofQuestion (h : w.IsLone) (q : Question)
    (k : q.Answer → Course α) :
    w.runForeground txn ((Course.ofQuestion w.pace q).bind k)
      = (answerAlone (w, txn) q).1.1.runForeground
          (answerAlone (w, txn) q).1.2 (k (answerAlone (w, txn) q).2) := by
  cases q with
  | get key =>
      have hkeeps := keeps_takeRead w
      refine (runForeground_readFault _).trans ?_
      simp only [answerAlone]
      cases w.reads.head?.join with
      | some code => rfl
      | none =>
          exact runForeground_afterLatency (hkeeps.lone h) hkeeps.pace
            (.operation (.get key)) k
  | scan stem =>
      have hkeeps := keeps_takeRead w
      refine (runForeground_readFault _).trans ?_
      simp only [answerAlone]
      cases w.reads.head?.join with
      | some code => rfl
      | none =>
          exact runForeground_afterLatency (hkeeps.lone h) hkeeps.pace
            (.operation (.scan stem)) k
  | start =>
      have hlone := (keeps_operate w txn (q := .start) trivial).lone h
      refine (runForeground_operation .start _).trans ?_
      simp only [answerAlone]
      cases (w.operate txn .start).2.2 with
      | error code => rfl
      | ok _ => exact runForeground_strike hlone .afterStart _
  | commit =>
      refine (runForeground_strike h .beforeCommit _).trans ?_
      exact runForeground_afterLatency h rfl (.operation .commit) k
  | pause ms =>
      simp only [answerAlone, Course.ofQuestion]
      cases w.pace.pausing with
      | noted => rfl
      | real =>
          show (w.sleep ms.toNat).runForeground txn (k ()) = _
          rw [sleep_eq h]
  | _ => rfl

/-- The course of a script that asks for no replay is its run. -/
theorem runForeground_ofScript {s : Script α}
    (hs : s.Asks Question.IsPlain) (h : w.IsLone) :
    w.runForeground txn (.ofScript w.pace s)
      = ((s.run answerAlone (w, txn)).1.1, (s.run answerAlone (w, txn)).2) := by
  induction s generalizing w txn with
  | done a => rfl
  | ask q next ih =>
      have hkeeps := keeps_answerAlone (w, txn) hs.1
      rw [Course.ofScript, runForeground_ofQuestion h, ← hkeeps.pace,
        ih _ (hs.2 _) (hkeeps.lone h)]
      rfl

-- ================================================== requests

/-- What a request comes to: its response, and the surroundings after
it. -/
def respond (w : World) (direct : Bool) (call : Call) :
    World × Response call.Payload :=
  w.runForeground none (.ofScript w.pace
    (if direct then call.attempt w.config.lock else call.serve w.config))

/-- A session shows the response, and what is stored. -/
theorem answerCall_eq (w : World) (direct : Bool) (call : Call) :
    (∃ pauses, (w.answerCall direct call).2
        = .response ⟨call, (w.respond direct call).2⟩ pauses)
      ∧ (w.answerCall direct call).1.backing
        = (w.respond direct call).1.backing := by
  unfold answerCall respond
  simp only
  split
  · exact ⟨⟨_, rfl⟩, rfl⟩
  · exact ⟨⟨_, rfl⟩, rfl⟩

theorem keeps_answerCall (w : World) (direct : Bool) (call : Call)
    (h : w.Keeps (w.respond direct call).1) :
    w.Keeps (w.answerCall direct call).1 := by
  unfold answerCall
  simp only
  split
  · exact h
  · exact h.trans ⟨rfl, rfl, rfl, rfl, rfl, rfl, id,
      fun h => ⟨h.ready, h.waits, h.givenWay, h.afterStart, h.beforeCommit⟩⟩

end World

end MergeOnWrite
