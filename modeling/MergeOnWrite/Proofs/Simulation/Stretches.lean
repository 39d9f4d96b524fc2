/-
Attempts while others wait.

Where the store keeps nobody waiting, an attempt at a request is one stretch
of its course: nobody else gets a turn before it is over. So what it comes to
is what it comes to alone, whoever waits in the meantime; and where nothing
goes wrong either, that is what it comes to on a slate (`World.Attempted`).

# Main statements

- `Course.goes_ofScript`: an attempt is one stretch of its course.
- `World.run_among`: it comes to the same, whoever waits.
- `World.attempted`: what that is.
-/
import MergeOnWrite.Proofs.Service.Undoing
import MergeOnWrite.Proofs.Simulation.Isolation
import MergeOnWrite.Proofs.Simulation.Repetition
import MergeOnWrite.Proofs.Simulation.Transparency

namespace MergeOnWrite

variable {α : Type} {w v : World} {txn : Option Txn} {q : Question}
  {mayWrite : Bool} {a b : TxnPhase}

-- ================================================== surroundings

namespace World

/-- The surroundings while nobody waits. -/
def alone (w : World) : World :=
  { w with ready := [], waits := [], givenWay := [] }

/-- The surroundings while those wait, and that was noted, as in others. -/
def among (w v : World) : World :=
  { w with
    ready := v.ready
    waits := v.waits
    givenWay := v.givenWay
    pauses := v.pauses
    rivalAnswers := v.rivalAnswers }

/-- True of surroundings where nothing goes wrong, and where the store keeps
nobody waiting. -/
structure IsPrompt (w : World) : Prop where
  calm : w.alone.IsCalm
  faultless : w.backing.faults = {}
  latency : w.pace.latency = none

/-- Whether surroundings are prompt does not depend on who waits. -/
theorem IsPrompt.of_same (h : w.IsPrompt) (hstart : v.afterStart = w.afterStart)
    (hcommit : v.beforeCommit = w.beforeCommit) (hreads : v.reads = w.reads)
    (hbacking : v.backing = w.backing) (hpace : v.pace = w.pace) :
    v.IsPrompt where
  calm := ⟨⟨rfl, rfl, rfl, hstart.trans h.calm.lone.afterStart,
    hcommit.trans h.calm.lone.beforeCommit⟩, hreads.trans h.calm.reads,
    (congrArg (·.maxAge) hbacking).trans h.calm.maxAge⟩
  faultless := (congrArg (·.faults) hbacking).trans h.faultless
  latency := (congrArg (·.latency) hpace).trans h.latency

theorem operate_among (w v : World) (txn : Option Txn)
    (hq : a.next? mayWrite q = some b) :
    (w.among v).operate txn q
      = ((w.operate txn q).1.among v, (w.operate txn q).2) := by
  cases q with
  | start =>
      simp only [operate]
      split <;> rename_i heq <;> simp only [among] at heq <;> rw [heq] <;> rfl
  | get key | scan key =>
      cases txn with
      | none => rfl
      | some t =>
          simp only [operate]
          split <;> rename_i heq <;> simp only [among] at heq <;> rw [heq] <;>
            rfl
  | put | remove | commit => cases txn <;> rfl
  | now | route | report => rfl
  | jitter | pause | chance | spread | replay => cases a <;> cases hq

theorem passLatency_of_none (h : w.pace.latency = none) :
    w.passLatency = w := by
  rw [passLatency, h]

/-- An attempt is answered alike, whoever waits. -/
theorem answerAlone_among (w v : World) (txn : Option Txn)
    (h : w.pace.latency = none) (hq : a.next? mayWrite q = some b) :
    answerAlone (w.among v, txn) q
      = (((answerAlone (w, txn) q).1.1.among v, (answerAlone (w, txn) q).1.2),
        (answerAlone (w, txn) q).2) := by
  have hpass : w.passLatency = w := passLatency_of_none h
  have hpass' : (w.among v).passLatency = w.among v := passLatency_of_none h
  have hread : w.takeRead.passLatency = w.takeRead := passLatency_of_none h
  have hread' : (w.among v).takeRead.passLatency = w.takeRead.among v :=
    passLatency_of_none h
  have hreads : (w.among v).reads = w.reads := rfl
  have hoperate := fun w => operate_among w v txn hq
  cases q with
  | get key | scan key =>
      simp only [answerAlone, hreads, hread, hread', hoperate]
      split <;> rfl
  | commit => simp only [answerAlone, hpass, hpass', hoperate]
  | start | put | remove | now | route | report =>
      simp only [answerAlone, hoperate]
  | jitter | pause | chance | spread | replay => cases a <;> cases hq

-- ================================================== failures

theorem faultless_start {s : ScriptedStore} (h : s.faults = {}) (now : Nat) :
    (s.start now).1.faults = {} := by
  rw [ScriptedStore.start, h]
  exact h

theorem faultless_commit {s : ScriptedStore} (h : s.faults = {}) (t : Txn)
    (now : Nat) : (s.commit t now).1.faults = {} := by
  have hnext : s.faults.nextCommit.2 = {} := by rw [h]; rfl
  simp only [ScriptedStore.commit]
  split <;> exact hnext

theorem faultless_operate (txn : Option Txn) (h : w.backing.faults = {})
    (hq : a.next? mayWrite q = some b) :
    (w.operate txn q).1.backing.faults = {} := by
  cases q with
  | start =>
      have hstart := faultless_start h w.time
      simp only [operate]
      split <;> rename_i heq <;> rw [heq] at hstart <;> exact hstart
  | get key =>
      cases txn with
      | none => exact h
      | some t =>
          simp only [operate]
          split <;> rename_i heq <;>
            exact (congrArg (·.1.faults) heq).symm.trans h
  | scan stem =>
      cases txn with
      | none => exact h
      | some t =>
          simp only [operate]
          split <;> rename_i heq <;>
            exact (congrArg (·.1.faults) heq).symm.trans h
  | put | remove => cases txn <;> exact h
  | commit =>
      cases txn with
      | none => exact h
      | some t => exact faultless_commit h t w.time
  | now | route | report => exact h
  | jitter | pause | chance | spread | replay => cases a <;> cases hq

/-- What has not been told to fail does not. -/
theorem faultless_answerAlone (h : w.backing.faults = {})
    (hq : a.next? mayWrite q = some b) :
    (answerAlone (w, txn) q).1.1.backing.faults = {} := by
  have hread : w.takeRead.passLatency.backing.faults = {} := by
    rw [backing_passLatency, backing_takeRead, h]
  have hpass : w.passLatency.backing.faults = {} := by
    rw [backing_passLatency, h]
  cases q with
  | get | scan =>
      simp only [answerAlone]
      split
      · exact h
      · exact faultless_operate txn hread hq
  | commit => exact faultless_operate txn hpass hq
  | start | put | remove | now | route | report =>
      exact faultless_operate txn h hq
  | jitter | pause | chance | spread | replay => cases a <;> cases hq

/-- An answer leaves surroundings prompt. -/
theorem IsPrompt.answered (h : w.IsPrompt)
    (hq : a.next? mayWrite q = some b) :
    (answerAlone (w, txn) q).1.1.IsPrompt := by
  have hkeeps := keeps_answerAlone (w.alone, txn) (TxnPhase.isPlain_of_next? hq)
  have hprompt : (answerAlone (w.alone, txn) q).1.1.IsPrompt := by
    refine ⟨h.calm.of_keeps ?_, faultless_answerAlone h.faultless hq, ?_⟩
    · exact hkeeps.trans ⟨rfl, rfl, rfl, rfl, rfl, rfl, id, fun h =>
        ⟨rfl, rfl, rfl, h.afterStart, h.beforeCommit⟩⟩
    · exact (congrArg Pace.latency hkeeps.pace).trans h.latency
  have hamong := answerAlone_among w.alone w txn h.latency hq
  have hself : w.alone.among w = w := rfl
  rw [hself] at hamong
  rw [hamong]
  exact hprompt.of_same rfl rfl rfl rfl rfl

end World

-- ================================================== stretches

namespace Course

variable {s s' s'' : World × Option Txn} {c c' c'' : Course α}

/-- What a course leads to without a wait. -/
inductive Goes : World × Option Txn → Course α → World × Option Txn →
    Course α → Prop
  | here {s : World × Option Txn} {c : Course α} : Goes s c s c
  | deed {w : World} {txn : Option Txn} {d : Deed}
    {next : d.Answer → Course α} {s : World × Option Txn} {c : Course α} :
    d ≠ .giveWay → (∀ ms, d ≠ .sleep ms) →
    Goes ((w.perform txn d).1, (w.perform txn d).2.1)
      (next (w.perform txn d).2.2) s c →
    Goes (w, txn) (.ask d next) s c

theorem Goes.trans (h : Goes s c s' c') (h' : Goes s' c' s'' c'') :
    Goes s c s'' c'' := by
  induction h with
  | here => exact h'
  | deed hgive hsleep _ ih => exact .deed hgive hsleep (ih h')

theorem Goes.operation {q : Question} {k : q.Answer → Course α} :
    Goes (w, txn) (.ask (.operation q) k)
      ((w.operate txn q).1, (w.operate txn q).2.1)
      (k (w.operate txn q).2.2) :=
  .deed nofun nofun .here

/-- Nobody strikes. -/
theorem Goes.strike (h : w.IsPrompt) {moment : Moment}
    {k : List RivalStep → Course α} :
    Goes (w, txn) (.ask (.strike moment) k) (w, txn) (k []) := by
  have htake : w.takeStrike moment = (w, []) :=
    World.takeStrike_of_nil (w := w) h.calm.lone.afterStart
      h.calm.lone.beforeCommit moment
  refine .deed nofun nofun ?_
  rw [World.perform, htake]
  exact .here

/-- The store keeps nobody waiting. -/
theorem Goes.afterLatency {pace : Pace} (h : pace.latency = none) (d : Deed)
    (k : d.Answer → Course α) :
    Goes s (((Course.latency pace).bind fun _ => Course.deed d).bind k) s
      (.ask d k) := by
  rw [Course.latency, h]
  exact .here

/-- A question of an attempt is one stretch. -/
theorem goes_ofQuestion (h : w.IsPrompt) (hq : a.next? mayWrite q = some b)
    (k : q.Answer → Course α) :
    Goes (w, txn) ((Course.ofQuestion w.pace q).bind k)
      (World.answerAlone (w, txn) q).1
      (k (World.answerAlone (w, txn) q).2) := by
  have hpass : w.passLatency = w := World.passLatency_of_none h.latency
  have hread : w.takeRead.passLatency = w.takeRead :=
    World.passLatency_of_none h.latency
  have hnone : w.reads.head?.join = none := by
    rw [show w.reads = [] from h.calm.reads]
    rfl
  cases q with
  | get key =>
      refine .deed (d := .readFault) nofun nofun ?_
      simp only [World.answerAlone, World.perform, hread, hnone]
      exact (Goes.afterLatency h.latency (.operation (.get key)) k).trans
        .operation
  | scan key =>
      refine .deed (d := .readFault) nofun nofun ?_
      simp only [World.answerAlone, World.perform, hread, hnone]
      exact (Goes.afterLatency h.latency (.operation (.scan key)) k).trans
        .operation
  | start =>
      have hprompt : (World.answerAlone (w, txn) .start).1.1.IsPrompt :=
        h.answered hq
      refine Goes.trans .operation ?_
      simp only [World.answerAlone] at hprompt ⊢
      cases (w.operate txn .start).2.2 with
      | error code => exact .here
      | ok _ => exact .strike hprompt
  | commit =>
      refine Goes.trans (.strike h) ?_
      simp only [World.answerAlone, hpass]
      exact (Goes.afterLatency h.latency (.operation .commit) k).trans
        .operation
  | put | remove | now | route | report => exact .operation
  | jitter | pause | chance | spread | replay => cases a <;> cases hq

/-- An attempt is one stretch of its course. -/
theorem goes_ofScript {β : Type} {ends : TxnPhase → β → Prop}
    {fails : StoreCode → β → Prop} {script : Script β} {k : β → Course α}
    (txn : Option Txn) (h : w.IsPrompt)
    (hfollows : Script.Follows mayWrite ends fails a script) :
    Goes (w, txn) ((Course.ofScript w.pace script).bind k)
      (script.run World.answerAlone (w, txn)).1
      (k (script.run World.answerAlone (w, txn)).2) := by
  refine Script.Follows.run_induction World.answerAlone
    (motive := fun _ s script => s.1.IsPrompt →
      Goes s ((Course.ofScript s.1.pace script).bind k)
        (script.run World.answerAlone s).1
        (k (script.run World.answerAlone s).2))
    ?ended ?refused ?goesOn (w, txn) hfollows h
  case ended => exact fun _ _ _ => .here
  case refused =>
    intro a b q next code y s hb _ hdone _ h
    rw [Course.ofScript, Program.bind_assoc, Program.run_ask, hdone]
    refine (goes_ofQuestion h hb _).trans ?_
    rw [hdone]
    exact .here
  case goesOn =>
    intro a b q next s hb _ ih h
    -- what is left was made for the pace before the answer
    have hpace := (World.keeps_answerAlone s (TxnPhase.isPlain_of_next? hb)).pace
    rw [Course.ofScript, Program.bind_assoc, Program.run_ask]
    refine (goes_ofQuestion h hb _).trans ?_
    rw [← hpace]
    exact ih (h.answered hb)

end Course

namespace World

section Stretches

variable {s s' : World × Option Txn}

theorem runForeground_of_goes {c c' : Course α} (h : Course.Goes s c s' c') :
    s.1.runForeground s.2 c = s'.1.runForeground s'.2 c' := by
  induction h with
  | here => rfl
  | @deed w txn d next _ _ hgive hsleep _ ih =>
      cases d with
      | giveWay => exact absurd rfl hgive
      | sleep ms => exact absurd rfl (hsleep ms)
      | _ => exact ih

theorem runBackground_of_goes {c c' : Course Unit}
    (h : Course.Goes s c s' c') :
    s.1.runBackground s.2 c = s'.1.runBackground s'.2 c' := by
  induction h with
  | here => rfl
  | @deed w txn d next _ _ hgive hsleep _ ih =>
      cases d with
      | giveWay => exact absurd rfl hgive
      | sleep ms => exact absurd rfl (hsleep ms)
      | _ => exact ih

end Stretches

-- ================================================== attempts

section Attempts

variable {ends : TxnPhase → α → Prop} {fails : StoreCode → α → Prop}
  {script : Script α}

/-- An attempt comes to the same, whoever waits. -/
theorem run_among (txn : Option Txn) (h : w.IsPrompt)
    (hfollows : Script.Follows mayWrite ends fails a script) (v : World) :
    script.run answerAlone (w.among v, txn)
      = (((script.run answerAlone (w, txn)).1.1.among v,
          (script.run answerAlone (w, txn)).1.2),
        (script.run answerAlone (w, txn)).2) := by
  refine Script.Follows.run_induction World.answerAlone
    (motive := fun _ s script => s.1.IsPrompt →
      script.run answerAlone (s.1.among v, s.2)
        = (((script.run answerAlone s).1.1.among v,
            (script.run answerAlone s).1.2), (script.run answerAlone s).2))
    ?ended ?refused ?goesOn (w, txn) hfollows h
  case ended => exact fun _ _ _ => rfl
  case refused =>
    intro a b q next code y s hb _ hdone _ h
    rw [Program.run_ask, Program.run_ask,
      answerAlone_among s.1 v s.2 h.latency hb, hdone]
    rfl
  case goesOn =>
    intro a b q next s hb _ ih h
    rw [Program.run_ask, Program.run_ask,
      answerAlone_among s.1 v s.2 h.latency hb]
    exact ih (h.answered hb)

/-- An attempt is refused nothing, whoever waits, if it is refused nothing
alone. -/
theorem unrefused_among (h : w.IsPrompt)
    (hfollows : Script.Follows mayWrite ends fails a script) (v : World)
    (hunrefused : script.Unrefused (w, txn)) :
    script.Unrefused (w.among v, txn) := by
  refine Script.Follows.run_induction World.answerAlone
    (motive := fun _ s script => s.1.IsPrompt → script.Unrefused s →
      script.Unrefused (s.1.among v, s.2))
    ?ended ?refused ?goesOn (w, txn) hfollows h hunrefused
  case ended => exact fun _ _ _ _ => trivial
  case refused =>
    intro a b q next code y s _ hcode _ _ _ hunrefused
    rw [(Script.unrefused_ask.1 hunrefused).1] at hcode
    cases hcode
  case goesOn =>
    intro a b q next s hb hnone ih h hunrefused
    rw [Script.unrefused_ask, answerAlone_among s.1 v s.2 h.latency hb]
    exact ⟨hnone, ih (h.answered hb) (Script.unrefused_ask.1 hunrefused).2⟩

/-- An attempt leaves surroundings prompt. -/
theorem IsPrompt.run (h : w.IsPrompt)
    (hfollows : Script.Follows mayWrite ends fails a script) :
    (script.run answerAlone (w, txn)).1.1.IsPrompt := by
  refine Script.Follows.run_induction World.answerAlone
    (motive := fun _ s script => s.1.IsPrompt →
      (script.run answerAlone s).1.1.IsPrompt)
    ?ended ?refused ?goesOn (w, txn) hfollows h
  case ended => exact fun _ _ h => h
  case refused =>
    intro a b q next code y s hb _ hdone _ h
    rw [Program.run_ask, hdone]
    exact h.answered hb
  case goesOn => exact fun _ hb _ ih h => ih (h.answered hb)

/-- A script that is refused nothing ends in some phase. -/
theorem ends_of_unrefused {state : World × Option Txn}
    (hfollows : Script.Follows mayWrite ends fails a script)
    (hunrefused : script.Unrefused state) :
    ∃ b, ends b (script.run answerAlone state).2 := by
  refine Script.Follows.run_induction World.answerAlone
    (motive := fun _ state script => script.Unrefused state →
      ∃ b, ends b (script.run answerAlone state).2)
    ?ended ?refused ?goesOn state hfollows hunrefused
  case ended => exact fun _ hend _ => ⟨_, hend⟩
  case refused =>
    intro a b q next code y state _ hcode _ _ hunrefused
    rw [(Script.unrefused_ask.1 hunrefused).1] at hcode
    cases hcode
  case goesOn =>
    exact fun _ _ _ ih hunrefused => ih (Script.unrefused_ask.1 hunrefused).2

end Attempts

-- ================================================== what callers see

/-- True of surroundings that are alike but for what goes on behind the back
of callers. -/
structure LooksLike (w v : World) : Prop where
  lock : w.config.lock = v.config.lock
  retry : w.config.retry = v.config.retry
  pace : w.pace = v.pace
  clock : w.clock = v.clock
  allowList : w.allowList = v.allowList
  pauses : w.pauses = v.pauses
  rivalAnswers : w.rivalAnswers = v.rivalAnswers
  live : w.backing.store.live = v.backing.store.live

namespace LooksLike

variable {u : World}

theorem refl (w : World) : w.LooksLike w := ⟨rfl, rfl, rfl, rfl, rfl, rfl, rfl, rfl⟩

theorem symm (h : w.LooksLike v) : v.LooksLike w :=
  ⟨h.lock.symm, h.retry.symm, h.pace.symm, h.clock.symm, h.allowList.symm,
    h.pauses.symm, h.rivalAnswers.symm, h.live.symm⟩

theorem trans (h : w.LooksLike v) (h' : v.LooksLike u) : w.LooksLike u :=
  ⟨h.lock.trans h'.lock, h.retry.trans h'.retry, h.pace.trans h'.pace,
    h.clock.trans h'.clock, h.allowList.trans h'.allowList,
    h.pauses.trans h'.pauses, h.rivalAnswers.trans h'.rivalAnswers,
    h.live.trans h'.live⟩

end LooksLike

/-- What a request has brought about stands. -/
def HasStanding (w : World) (call : Call) : Prop :=
  call.Stands w.config.lock w.allowList.versionFor w.clock.now
    w.backing.store.live

theorem HasStanding.of_looksLike {call : Call} (h : w.HasStanding call)
    (hlike : w.LooksLike v) : v.HasStanding call := by
  unfold HasStanding at h ⊢
  rwa [← hlike.lock, ← hlike.allowList, ← hlike.clock, ← hlike.live]

/-- What an attempt at a request responds, and what is live after it, where
the store refuses nothing. -/
def outcome (w : World) (call : Call) : Slate × Response call.Payload :=
  (call.attempt w.config.lock).run
    (Slate.answer w.clock.now w.allowList.versionFor)
    { live := w.backing.store.live }

theorem outcome_of_looksLike (h : w.LooksLike v) (call : Call) :
    w.outcome call = v.outcome call := by
  unfold outcome
  rw [h.lock, h.clock, h.allowList, h.live]

theorem live_outcome_of_standing {call : Call} (h : w.HasStanding call) :
    (w.outcome call).1.live = w.backing.store.live :=
  Call.effect_of_stands h

theorem hasStanding_of_outcome {call : Call}
    (hok : (w.outcome call).2.status.code = .ok) :
    call.Stands w.config.lock w.allowList.versionFor w.clock.now
      (w.outcome call).1.live :=
  Call.stands_of_succeeds w.clock.nano_lt (Call.succeeds_of_ok rfl hok).1

/-- What an attempt comes to while others wait. -/
structure Attempted (w w' : World) (call : Call)
    (response : Response call.Payload) : Prop where
  prompt : w'.IsPrompt
  config : w'.config = w.config
  pace : w'.pace = w.pace
  clock : w'.clock = w.clock
  allowList : w'.allowList = w.allowList
  ready : w'.ready = w.ready
  waits : w'.waits = w.waits
  givenWay : w'.givenWay = w.givenWay
  pauses : w'.pauses = w.pauses
  rivalAnswers : w'.rivalAnswers = w.rivalAnswers
  live : w'.backing.store.live = (w.outcome call).1.live
  response_eq : response = (w.outcome call).2
  lasting : response.status.code.isTransient = false

/-- What an attempt comes to while others wait: what it comes to alone. -/
theorem attempted (h : w.IsPrompt) (call : Call) :
    w.Attempted ((call.attempt w.config.lock).run answerAlone (w, none)).1.1
      call ((call.attempt w.config.lock).run answerAlone (w, none)).2 := by
  have hfollows := call.follows_attempt w.config.lock
  have halone : w.alone.IsPrompt := ⟨h.calm, h.faultless, h.latency⟩
  have hunrefused : Script.Unrefused (call.attempt w.config.lock) (w, none) :=
    unrefused_among halone hfollows w
      (refusesNothing_of_calm h.calm h.faultless call)
  have hamong := run_among none halone hfollows w
  have hself : w.alone.among w = w := rfl
  rw [hself] at hamong
  have hkeeps := keeps_run (Script.asks_of_follows hfollows) (w, none)
  obtain ⟨hresponse, hshows, -⟩ := run_shows rfl rfl
    (call.within_attempt w.config.lock) hunrefused
    (s := { live := w.backing.store.live }) ⟨rfl, rfl, nofun⟩
  refine ⟨h.run hfollows, hkeeps.config, hkeeps.pace, hkeeps.clock,
    hkeeps.allowList, ?_, ?_, ?_, ?_, ?_, hshows.live.symm, hresponse, ?_⟩
  · rw [hamong]
    rfl
  · rw [hamong]
    rfl
  · rw [hamong]
    rfl
  · rw [hamong]
    rfl
  · rw [hamong]
    rfl
  · obtain ⟨b, ⟨-, hok⟩ | ⟨-, e, hcheck, hfail⟩⟩ :=
      ends_of_unrefused hfollows hunrefused
    · rw [hok]
      rfl
    · rw [hfail]
      exact ServiceError.isTransient_of_isCheck hcheck

end World

end MergeOnWrite
