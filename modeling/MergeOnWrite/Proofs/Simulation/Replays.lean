/-
Sessions with a service that replays requests.

A request that was answered with success may be replayed, after whatever time,
behind the back of its caller, who goes on in the meantime. The caller notices
nothing of it, neither in a response nor in what is stored, as long as no
later request takes back what the request has brought about. That is a
condition on the requests alone, and it cannot be done without: who gives up a
lock before the request for it is replayed holds the lock again.

# Main statements

- `World.respond_front`: what a request comes to while replays go on.
- `World.replays_unnoticed`: whatever is replayed, and whenever, a session is
  the same as without replays, if no request takes back what an earlier one
  has brought about that may be replayed.
- `World.replay_noticed`: a lock that was given up, and an entry that was
  removed, come back with a replay.
-/
import MergeOnWrite.Proofs.Simulation.Background
import MergeOnWrite.Proofs.Simulation.Refinement

namespace MergeOnWrite

-- ================================================== courses

namespace Course

variable {α β : Type}

theorem ofScript_bind (pace : Pace) (script : Script α) (f : α → Script β) :
    ofScript pace (script.bind f)
      = (ofScript pace script).bind fun a => ofScript pace (f a) := by
  induction script with
  | done a => rfl
  | ask q next ih =>
      rw [Program.bind, ofScript, ofScript, Program.bind_assoc]
      exact congrArg _ (funext fun x => ih x)

/-- A request whose response is no failure that passes is attempted once. -/
theorem goes_withRetries {w : World} (h : w.IsPrompt) (config : RetryConfig)
    (method : String) (call : Call) (k : Response call.Payload → Course α) :
    Goes (w, none)
      ((ofScript w.pace (Script.withRetries config method fun _ =>
        call.attempt w.config.lock)).bind k)
      ((call.attempt w.config.lock).run World.answerAlone (w, none)).1
      (k ((call.attempt w.config.lock).run World.answerAlone (w, none)).2) := by
  have hlasting := (World.attempted h call).lasting
  have hgoes := fun k : Response call.Payload → Course α =>
    goes_ofScript none (k := k) h (call.follows_attempt w.config.lock)
  generalize (call.attempt w.config.lock).run World.answerAlone (w, none) = x
    at hlasting hgoes ⊢
  have hretries := config.retries_of_not_transient hlasting
  unfold RetryConfig.retries at hretries
  unfold Script.withRetries
  split at hretries
  · rename_i henabled
    rw [if_pos henabled]
    cases config.maxRetries.toNat with
    | zero =>
        rw [Script.retrying_zero, ofScript_bind, Program.bind_assoc]
        refine (hgoes _).trans ?_
        rw [hretries]
        exact .here
    | succ left =>
        rw [Script.retrying_succ, ofScript_bind, Program.bind_assoc]
        refine (hgoes _).trans ?_
        rw [hretries, if_neg fun h => Bool.false_ne_true h.1]
        exact .here
  · rename_i hdisabled
    rw [if_neg hdisabled]
    show Goes (w, none) ((ofScript w.pace
      ((call.attempt w.config.lock).bind fun response =>
        if response.status.code.isStoreRetryable then pure response.exhausted
          else pure response)).bind k) x.1 (k x.2)
    rw [ofScript_bind, Program.bind_assoc]
    refine (hgoes _).trans ?_
    rw [hretries]
    exact .here

end Course

-- ================================================== offers

/-- True of the methods whose requests may be replayed. -/
def ReplayConfig.mayReplay (config : ReplayConfig) (method : String) : Bool :=
  config.enabled && !config.excludes method

theorem ReplayConfig.excludes_of_mayReplay {config : ReplayConfig}
    {method : String} (h : config.mayReplay method) :
    config.excludes method = false := by
  unfold mayReplay at h
  rw [Bool.and_eq_true, Bool.not_eq_true'] at h
  exact h.2

namespace World

variable {w v : World} {call : Call}

/-- What becomes of surroundings when a replay of a request is offered: at
most one more replay, and nothing that callers see. -/
structure Offered (w w' : World) (call : Call) (mayReplay : Prop) : Prop where
  prompt : w'.IsPrompt
  config : w'.config = w.config
  like : w.LooksLike w'
  pends : ∀ b, w'.Pends b → w.Pends b ∨ mayReplay ∧ w.IsReplay call b

theorem IsPrompt.offered (h : w.IsPrompt) (call : Call) (mayReplay : Prop) :
    w.Offered w call mayReplay :=
  ⟨h, rfl, .refl w, fun _ => .inl⟩

/-- A replay is scheduled. -/
theorem IsPrompt.offered_replay (h : w.IsPrompt) (call : Call) (delayMs : Nat)
    {mayReplay : Prop} (hmay : mayReplay) (txn : Option Txn) :
    w.Offered (w.operate txn (.replay call delayMs)).1 call mayReplay := by
  refine ⟨h.of_same rfl rfl rfl rfl rfl, rfl,
    ⟨rfl, rfl, rfl, rfl, rfl, rfl, rfl, rfl⟩, fun b hb => ?_⟩
  rcases hb with hready | hrest
  · rcases List.mem_append.1 hready with hready | hnew
    · exact .inl (.inl hready)
    · obtain rfl := List.mem_singleton.1 hnew
      exact .inr ⟨hmay, rfl, .inr ⟨delayMs, rfl⟩⟩
  · exact .inl (.inr hrest)

end World

namespace Course

variable {α : Type} {w : World} {call : Call}

/-- What follows a question that the surroundings add nothing to. -/
theorem goes_question {β : Type} {pace : Pace} {q : Question}
    (hq : ofQuestion pace q = deed (.operation q)) {txn : Option Txn}
    {f : q.Answer → Script β} {k : β → Course α} {s : World × Option Txn}
    {c : Course α}
    (h : Goes ((w.operate txn q).1, (w.operate txn q).2.1)
      ((ofScript pace (f (w.operate txn q).2.2)).bind k) s c) :
    Goes (w, txn)
      ((ofScript pace (Program.bind (Script.question q) f)).bind k) s c := by
  rw [ofScript_bind, Script.question, ofScript, hq]
  exact Goes.operation.trans h

/-- To offer a replay takes no wait. -/
theorem goes_offerReplay (h : w.IsPrompt) (config : ReplayConfig) (call : Call)
    (status : Status) (txn : Option Txn) (k : Unit → Course α) :
    ∃ w', Goes (w, txn)
        ((ofScript w.pace (call.offerReplay config status)).bind k)
        (w', txn) (k ())
      ∧ w.Offered w' call (config.mayReplay call.method ∧ status.code = .ok) := by
  unfold Call.offerReplay
  split
  · rename_i hadmits
    have hmay : config.mayReplay call.method ∧ status.code = .ok := by
      simp only [ReplayConfig.admits, Bool.and_eq_true, Status.isOk,
        beq_iff_eq] at hadmits
      exact ⟨by simp [ReplayConfig.mayReplay, hadmits], by simp_all⟩
    obtain ⟨goes, hchance⟩ : ∃ goes,
        w.operate txn (.chance config.probability) = (w, txn, goes) := ⟨_, rfl⟩
    obtain ⟨offset, hspread⟩ : ∃ offset,
        w.operate txn (.spread (ReplayConfig.signedMs
          config.delayRangeMs).toNat) = (w, txn, offset) := ⟨_, rfl⟩
    cases goes with
    | false =>
        refine ⟨w, goes_question (w := w) rfl ?_, h.offered call _⟩
        rw [hchance]
        exact .here
    | true =>
        cases hdelay : config.delayAt? offset with
        | none =>
            refine ⟨w, goes_question (w := w) rfl ?_, h.offered call _⟩
            rw [hchance]
            refine goes_question (w := w) rfl ?_
            rw [hspread]
            dsimp only
            rw [hdelay]
            exact .here
        | some delay =>
            let reported := (w.operate txn (.report (.replay call.method))).1
            have hreported : reported.IsPrompt :=
              h.of_same rfl rfl rfl rfl rfl
            have hlike : w.LooksLike reported :=
              ⟨rfl, rfl, rfl, rfl, rfl, rfl, rfl, rfl⟩
            have hoffered := hreported.offered_replay call delay hmay txn
            refine ⟨(reported.operate txn (.replay call delay)).1,
              goes_question (w := w) rfl ?_, hoffered.prompt, hoffered.config,
              hlike.trans hoffered.like, hoffered.pends⟩
            rw [hchance]
            refine goes_question (w := w) rfl ?_
            rw [hspread]
            dsimp only
            rw [hdelay]
            exact goes_question (w := w) rfl .operation
  · exact ⟨w, .here, h.offered call _⟩

end Course

-- ================================================== requests

namespace World

variable {w v : World} {call : Call} {replay : ReplayConfig}
  {later : List Call}

/-- What a request comes to while replays go on: what a single attempt comes
to, and then its own replay is offered. -/
theorem respond_front (h : w.IsPrompt) (call : Call) :
    ∃ attempted, w.Attempted attempted call (w.respond false call).2
      ∧ attempted.Offered (w.respond false call).1 call
        (w.config.replay.mayReplay call.method
          ∧ (w.respond false call).2.status.code = .ok) := by
  have hattempted := attempted h call
  have hgoes := Course.goes_withRetries h w.config.retry call.method call
    fun response => (Course.ofScript w.pace (call.offerReplay w.config.replay
      response.status)).bind fun _ => .done response
  generalize (call.attempt w.config.lock).run answerAlone (w, none) = x
    at hattempted hgoes
  obtain ⟨⟨w', txn⟩, response⟩ := x
  obtain ⟨w'', hoffer, hoffered⟩ := Course.goes_offerReplay hattempted.prompt
    w.config.replay call response.status txn
    fun _ => (.done response : Course (Response call.Payload))
  rw [hattempted.pace] at hoffer
  have hserve : Course.ofScript w.pace (call.serve w.config)
      = (Course.ofScript w.pace (Script.withRetries w.config.retry call.method
          fun _ => call.attempt w.config.lock)).bind fun response =>
        (Course.ofScript w.pace (call.offerReplay w.config.replay
          response.status)).bind fun _ => .done response := by
    refine (Course.ofScript_bind ..).trans ?_
    refine congrArg _ (funext fun response => ?_)
    exact Course.ofScript_bind ..
  have hrespond : w.respond false call = (w'', response) := by
    show w.runForeground none (Course.ofScript w.pace (call.serve w.config)) = _
    rw [hserve]
    exact runForeground_of_goes (s := (w, none)) (hgoes.trans hoffer)
  rw [hrespond]
  exact ⟨w', hattempted, hoffered⟩

/-- Surroundings that look alike look alike after a request. -/
theorem respond_looksLike (hw : w.IsPrompt) (hv : v.IsPrompt)
    (h : w.LooksLike v) (call : Call) :
    (w.respond false call).2 = (v.respond false call).2
      ∧ (w.respond false call).1.LooksLike (v.respond false call).1 := by
  obtain ⟨w', hattempt, hoffer⟩ := respond_front hw call
  obtain ⟨v', hattempt', hoffer'⟩ := respond_front hv call
  have hsame := outcome_of_looksLike h call
  have hlike : w'.LooksLike v' := by
    refine ⟨?_, ?_, ?_, ?_, ?_, ?_, ?_, ?_⟩
    · rw [hattempt.config, hattempt'.config, h.lock]
    · rw [hattempt.config, hattempt'.config, h.retry]
    · rw [hattempt.pace, hattempt'.pace, h.pace]
    · rw [hattempt.clock, hattempt'.clock, h.clock]
    · rw [hattempt.allowList, hattempt'.allowList, h.allowList]
    · rw [hattempt.pauses, hattempt'.pauses, h.pauses]
    · rw [hattempt.rivalAnswers, hattempt'.rivalAnswers, h.rivalAnswers]
    · rw [hattempt.live, hattempt'.live, hsame]
  refine ⟨?_, hoffer.like.symm.trans (hlike.trans hoffer'.like)⟩
  rw [hattempt.response_eq, hattempt'.response_eq, hsame]

/-- A request leaves replays without effect if it takes back nothing that they
have brought about. -/
theorem Replaying.attempted (h : w.Replaying replay (call :: later))
    {w' : World} {response : Response call.Payload}
    (hattempt : w.Attempted w' call response) : w'.Replaying replay later := by
  refine ⟨hattempt.prompt, by rw [hattempt.config, h.config], fun b hb => ?_⟩
  have hpends : w.Pends b := by
    unfold Pends at hb ⊢
    rwa [hattempt.ready, hattempt.waits, hattempt.givenWay] at hb
  obtain ⟨other, hreplay, hstands, hlater⟩ := h.idle b hpends
  refine ⟨other, ?_, ?_, fun c hc => ?_⟩
  · unfold IsReplay Call.replay at hreplay ⊢
    rwa [hattempt.pace, hattempt.config]
  · unfold HasStanding
    rw [hattempt.config, hattempt.allowList, hattempt.clock, hattempt.live]
    exact Call.Stands.effect hstands w.clock.nano_lt
      (hlater call List.mem_cons_self)
  · rw [hattempt.allowList]
    exact hlater c (List.mem_cons_of_mem _ hc)

/-- One more replay. -/
theorem Replaying.offered (h : w.Replaying replay later) {w' : World}
    {mayReplay : Prop} (hoffer : w.Offered w' call mayReplay)
    (hcall : mayReplay → w.HasStanding call
      ∧ ∀ other ∈ later, ¬ other.Undoes w.allowList.versionFor call) :
    w'.Replaying replay later := by
  refine h.of_pends hoffer.prompt (congrArg (·.replay) hoffer.config)
    hoffer.like fun b hb => ?_
  rcases hoffer.pends b hb with hpends | ⟨hmay, hreplay⟩
  · exact .inl hpends
  · obtain ⟨hstands, hlater⟩ := hcall hmay
    have hidle : w.IsIdle later b := ⟨call, hreplay, hstands, hlater⟩
    exact .inr (hidle.of_looksLike hoffer.like)

/-- A request while replays without effect go on. What it has brought about
stands if it succeeds. -/
theorem Replaying.respond (h : w.Replaying replay (call :: later))
    (hlater : replay.mayReplay call.method → ∀ other ∈ later,
      ¬ other.Undoes w.allowList.versionFor call) :
    (w.respond false call).1.Replaying replay later
      ∧ ((w.respond false call).2.status.code = .ok →
        (w.respond false call).1.HasStanding call)
      ∧ (w.respond false call).1.allowList = w.allowList := by
  obtain ⟨w', hattempt, hoffer⟩ := respond_front h.prompt call
  have hstands : (w.respond false call).2.status.code = .ok →
      w'.HasStanding call := by
    intro hok
    rw [hattempt.response_eq] at hok
    unfold HasStanding
    rw [hattempt.config, hattempt.allowList, hattempt.clock, hattempt.live]
    exact hasStanding_of_outcome hok
  refine ⟨(h.attempted hattempt).offered hoffer fun hmay => ?_,
    fun hok => (hstands hok).of_looksLike hoffer.like,
    hoffer.like.allowList.symm.trans hattempt.allowList⟩
  refine ⟨hstands hmay.2, ?_⟩
  rw [hattempt.allowList]
  exact hlater (h.config ▸ hmay.1)

end World

-- ================================================== sessions

/-- What the callers of a service do while it replays requests. Simulated
surroundings draw alike every time, so a request comes with what else may be
drawn for it: the time after which it is replayed, if it succeeds, or that it
is not. -/
inductive Errand where
  | request (call : Call) (replayAfter : Option Nat)
  | sleep (ms : Nat)
  | advance (ms : Nat)

namespace Errand

/-- The step of a session that an errand is. -/
def step : Errand → ServiceStep
  | .request call _ => .call false call
  | .sleep ms => .sleep ms
  | .advance ms => .advance ms

def request? : Errand → Option Call
  | .request call _ => some call
  | .sleep _ | .advance _ => none

end Errand

namespace World

/-- Schedules the replay that was drawn for an errand, if the request
succeeded and is not excluded. -/
def scheduleReplay (w : World) (errand : Errand) (answer : ServiceAnswer) :
    World :=
  match errand with
  | .request call (some delayMs) =>
    if answer.isSuccess && !w.config.replay.excludes call.method then
      (w.operate none (.replay call delayMs)).1
    else w
  | .request _ none | .sleep _ | .advance _ => w

/-- Carries out an errand, and notes what it leaves. -/
def carryOut (w : World) (errand : Errand) : World × StepRecord :=
  let (w, record) := w.recordStep errand.step
  (w.scheduleReplay errand record.answer, record)

/-- What some errands leave, and the surroundings after them. -/
def carryOutAll (w : World) : List Errand → World × List StepRecord
  | [] => (w, [])
  | errand :: rest =>
    let (w, record) := w.carryOut errand
    let (w, records) := w.carryOutAll rest
    (w, record :: records)

variable {w v : World} {call : Call} {replay : ReplayConfig}
  {later : List Call}

/-- What was noted for the caller does not matter to replays. -/
theorem Replaying.noted (h : w.Replaying replay later) (pauses : List UInt64)
    (rivalAnswers : List RivalAnswer) :
    ({ w with pauses, rivalAnswers } : World).Replaying replay later :=
  ⟨h.prompt.of_same rfl rfl rfl rfl rfl, h.config, h.idle⟩

section Answers

variable (w : World) (call : Call)

/-- The response to a request, and no pauses. -/
theorem answerCall_of_real
    (h : (w.respond false call).1.pace.pausing = .real) :
    w.answerCall false call = ((w.respond false call).1,
      .response ⟨call, (w.respond false call).2⟩ none) := by
  unfold respond at h ⊢
  simp only [World.answerCall, h]

/-- The response to a request, with the pauses that were noted. -/
theorem answerCall_of_noted
    (h : (w.respond false call).1.pace.pausing = .noted) :
    w.answerCall false call
      = ({ (w.respond false call).1 with pauses := [] },
        .response ⟨call, (w.respond false call).2⟩
          (some (w.respond false call).1.pauses.reverse)) := by
  unfold respond at h ⊢
  simp only [World.answerCall, h]

end Answers

/-- Callers cannot tell apart what looks alike. -/
theorem answerCall_looksLike (hw : w.IsPrompt) (hv : v.IsPrompt)
    (h : w.LooksLike v) (call : Call) :
    (w.answerCall false call).2 = (v.answerCall false call).2
      ∧ (w.answerCall false call).1.LooksLike (v.answerCall false call).1 := by
  obtain ⟨hresponse, hlike⟩ := respond_looksLike hw hv h call
  cases hpausing : (w.respond false call).1.pace.pausing with
  | real =>
      rw [answerCall_of_real w call hpausing,
        answerCall_of_real v call (hlike.pace ▸ hpausing), hresponse]
      exact ⟨rfl, hlike⟩
  | noted =>
      rw [answerCall_of_noted w call hpausing,
        answerCall_of_noted v call (hlike.pace ▸ hpausing), hresponse,
        hlike.pauses]
      exact ⟨rfl, hlike.lock, hlike.retry, hlike.pace, hlike.clock,
        hlike.allowList, rfl, hlike.rivalAnswers, hlike.live⟩

theorem Replaying.answerCall (h : w.Replaying replay (call :: later))
    (hlater : replay.mayReplay call.method → ∀ other ∈ later,
      ¬ other.Undoes w.allowList.versionFor call) :
    (w.answerCall false call).1.Replaying replay later
      ∧ ((w.answerCall false call).2.isSuccess →
        (w.answerCall false call).1.HasStanding call)
      ∧ (w.answerCall false call).1.allowList = w.allowList := by
  obtain ⟨hreplaying, hstands, hroute⟩ := h.respond hlater
  cases hpausing : (w.respond false call).1.pace.pausing with
  | real =>
      rw [answerCall_of_real w call hpausing]
      exact ⟨hreplaying, fun hok => hstands (eq_of_beq hok), hroute⟩
  | noted =>
      rw [answerCall_of_noted w call hpausing]
      exact ⟨hreplaying.noted [] _, fun hok => hstands (eq_of_beq hok), hroute⟩

/-- An errand while replays without effect go on. What a request has brought
about stands if it succeeds. -/
theorem Replaying.recordStep {errand : Errand}
    (h : w.Replaying replay (errand.request?.toList ++ later))
    (hlater : ∀ call, errand.request? = some call →
      replay.mayReplay call.method → ∀ other ∈ later,
      ¬ other.Undoes w.allowList.versionFor call) :
    (w.recordStep errand.step).1.Replaying replay later
      ∧ (∀ call, errand.request? = some call →
        (w.recordStep errand.step).2.answer.isSuccess →
        (w.recordStep errand.step).1.HasStanding call)
      ∧ (w.recordStep errand.step).1.allowList = w.allowList := by
  have hnoted := h.noted w.pauses []
  cases errand with
  | request call replayAfter =>
      obtain ⟨hreplaying, hstands, hroute⟩ :=
        hnoted.answerCall (hlater call rfl)
      refine ⟨hreplaying, fun other heq => ?_, hroute⟩
      obtain rfl := Option.some.inj heq
      exact hstands
  | sleep ms =>
      have hslept := hnoted.sleep ms
      have hrests := hslept.trans hslept.replaying.settle
      exact ⟨hrests.replaying, nofun, hrests.like.allowList.symm⟩
  | advance ms =>
      have hrests := hnoted.advance ms
      exact ⟨hrests.replaying, nofun, hrests.like.allowList.symm⟩

/-- Callers cannot tell apart what looks alike, whatever is replayed behind
their backs. -/
theorem recordStep_looksLike {replay' : ReplayConfig} {later' : List Call}
    {errand : Errand}
    (h : w.Replaying replay (errand.request?.toList ++ later))
    (h' : v.Replaying replay' (errand.request?.toList ++ later'))
    (hlike : w.LooksLike v) :
    (w.recordStep errand.step).2 = (v.recordStep errand.step).2
      ∧ (w.recordStep errand.step).1.LooksLike (v.recordStep errand.step).1 := by
  have hw := h.noted w.pauses []
  have hv := h'.noted v.pauses []
  have hnoted : ({ w with rivalAnswers := [] } : World).LooksLike
      { v with rivalAnswers := [] } :=
    ⟨hlike.lock, hlike.retry, hlike.pace, hlike.clock, hlike.allowList,
      hlike.pauses, rfl, hlike.live⟩
  obtain ⟨hanswer, hafter⟩ :
      (({ w with rivalAnswers := [] } : World).step errand.step).2
          = (({ v with rivalAnswers := [] } : World).step errand.step).2
        ∧ (({ w with rivalAnswers := [] } : World).step errand.step).1.LooksLike
          (({ v with rivalAnswers := [] } : World).step errand.step).1 := by
    cases errand with
    | request call replayAfter =>
        exact answerCall_looksLike hw.prompt hv.prompt hnoted call
    | sleep ms =>
        have hw := (hw.sleep ms).trans (hw.sleep ms).replaying.settle
        have hv := (hv.sleep ms).trans (hv.sleep ms).replaying.settle
        exact ⟨rfl, hw.like.symm.trans (hnoted.trans hv.like)⟩
    | advance ms =>
        exact ⟨rfl, (hw.advance ms).like.symm.trans
          (hnoted.trans (hv.advance ms).like)⟩
  refine ⟨?_, hafter⟩
  unfold World.recordStep
  simp only [hanswer, hafter.rivalAnswers, hafter.live]

/-- A replay that was drawn for an errand. -/
theorem Replaying.scheduleReplay {errand : Errand} {answer : ServiceAnswer}
    (h : w.Replaying replay later)
    (hstands : ∀ call, errand.request? = some call → answer.isSuccess →
      w.HasStanding call)
    (hlater : ∀ call, errand.request? = some call →
      replay.excludes call.method = false → ∀ other ∈ later,
      ¬ other.Undoes w.allowList.versionFor call) :
    w.Rests replay later (w.scheduleReplay errand answer) := by
  unfold World.scheduleReplay
  split
  · rename_i call delayMs
    split
    · rename_i hdrawn
      rw [Bool.and_eq_true, Bool.not_eq_true', h.config] at hdrawn
      have hoffered := h.prompt.offered_replay call delayMs trivial none
      refine ⟨h.offered hoffered fun _ => ?_, hoffered.like⟩
      exact ⟨hstands call rfl hdrawn.1, hlater call rfl hdrawn.2⟩
    · exact h.rests
  all_goals exact h.rests

/-- Where no request takes back what an earlier one has brought about, errands
are the same with replays and without. -/
theorem carryOutAll_looksLike {replay' : ReplayConfig}
    (hnever : replay'.enabled = false) {errands : List Errand} :
    ∀ {w v : World}, w.Replaying replay (errands.filterMap Errand.request?) →
      v.Replaying replay' (errands.filterMap Errand.request?) →
      w.LooksLike v →
      (errands.filterMap Errand.request?).Pairwise (fun earlier later =>
        replay.excludes earlier.method = false →
        ¬ later.Undoes w.allowList.versionFor earlier) →
      (w.carryOutAll errands).2 = (v.recordSteps (errands.map Errand.step)).2
        ∧ (w.carryOutAll errands).1.LooksLike
          (v.recordSteps (errands.map Errand.step)).1 := by
  induction errands with
  | nil => exact fun _ _ hlike _ => ⟨rfl, hlike⟩
  | cons errand rest ih =>
      intro w v h h' hlike hundone
      have hcons : (errand :: rest).filterMap Errand.request?
          = errand.request?.toList ++ rest.filterMap Errand.request? := by
        cases errand <;> rfl
      rw [hcons] at h h' hundone
      obtain ⟨-, hrest, hfirst⟩ := List.pairwise_append.1 hundone
      have hlater : ∀ call, errand.request? = some call →
          replay.excludes call.method = false →
          ∀ other ∈ rest.filterMap Errand.request?,
          ¬ other.Undoes w.allowList.versionFor call :=
        fun call hcall hadmits other hother =>
          hfirst call (by simp [hcall]) other hother hadmits
      obtain ⟨hstep, hstands, hroute⟩ := h.recordStep fun call hcall hmay =>
        hlater call hcall (ReplayConfig.excludes_of_mayReplay hmay)
      -- nothing is replayed on the other side, so no condition arises there
      obtain ⟨hstep', -, -⟩ := h'.recordStep fun call _ hmay => by
        simp [ReplayConfig.mayReplay, hnever] at hmay
      obtain ⟨hrecord, hafter⟩ := recordStep_looksLike h h' hlike
      have hdrawn := hstep.scheduleReplay hstands fun call hcall hadmits =>
        hroute ▸ hlater call hcall hadmits
      obtain ⟨hrecords, hlast⟩ := ih hdrawn.replaying hstep'
        (hdrawn.like.symm.trans hafter) (by
          rw [← hdrawn.like.allowList, hroute]
          exact hrest)
      exact ⟨congrArg₂ List.cons hrecord hrecords, hlast⟩

/-- Where nobody is about, nobody replays anything. -/
theorem IsCalm.replaying (h : w.IsCalm) (hfaults : w.backing.faults = {})
    (hlatency : w.pace.latency = none) (later : List Call) :
    w.Replaying w.config.replay later := by
  have halone : w.alone = w := by
    unfold alone
    rw [← h.lone.ready, ← h.lone.waits, ← h.lone.givenWay]
  refine ⟨⟨halone.symm ▸ h, hfaults, hlatency⟩, rfl, ?_⟩
  rintro b (hready | ⟨time, hwaits⟩ | hgiven)
  · rw [h.lone.ready] at hready
    cases hready
  · rw [h.lone.waits] at hwaits
    cases hwaits
  · rw [h.lone.givenWay] at hgiven
    cases hgiven

/-- A session where nothing goes wrong, and where no request takes back what
an earlier one has brought about that may be replayed, is the same with
replays, whichever are drawn, and without: each answer, what is stored after
it, and what is stored in the end. -/
theorem replays_unnoticed {w : World} (hcalm : w.IsCalm)
    (hfaults : w.backing.faults = {}) (hlatency : w.pace.latency = none)
    {errands : List Errand}
    (hundone : (errands.filterMap Errand.request?).Pairwise
      (fun earlier later => w.config.replay.excludes earlier.method = false →
        ¬ later.Undoes w.allowList.versionFor earlier)) :
    (w.carryOutAll errands).2
        = (recordSteps { w with config.replay.enabled := false }
          (errands.map Errand.step)).2
      ∧ (w.carryOutAll errands).1.backing.store.live
        = (recordSteps { w with config.replay.enabled := false }
          (errands.map Errand.step)).1.backing.store.live := by
  have hsilent : IsCalm { w with config.replay.enabled := false } :=
    ⟨⟨hcalm.lone.ready, hcalm.lone.waits, hcalm.lone.givenWay,
      hcalm.lone.afterStart, hcalm.lone.beforeCommit⟩, hcalm.reads,
      hcalm.maxAge⟩
  obtain ⟨hrecords, hlike⟩ := carryOutAll_looksLike rfl
    (hcalm.replaying hfaults hlatency _)
    (hsilent.replaying hfaults hlatency _)
    ⟨rfl, rfl, rfl, rfl, rfl, rfl, rfl, rfl⟩ hundone
  exact ⟨hrecords, hlike.live⟩

/-- A load takes the lock of a table. -/
def lockSample : Call :=
  .acquireLock { instanceName := "inst", table := ⟨1⟩, lockId := 101,
                 initiator := 1 }

def unlockSample : Call :=
  .releaseLock { instanceName := "inst", table := ⟨1⟩, lockId := 101,
                 initiator := 1 }

/-- Stores two entries, which takes no lock. -/
def storeSample : Call :=
  .updateBitmap { instanceName := "inst", lockId := -3,
                  bitmap := sampleBitmap }

/-- Requests that succeed, and are replayed while the next one is made, and
after all of them, are not noticed. -/
theorem replays_unnoticed_sample : ∃ errands,
    errands = [.request lockSample (some 20), .request storeSample (some 60),
        .advance 20, .request (readSample ["r", "rs"]) (some 0), .sleep 100]
      ∧ ((fresh.carryOutAll errands).2.map (·.answer.isSuccess)
          = [true, true, false, true, false]
        ∧ (fresh.carryOutAll errands).1.backing.store.version = 4)
      ∧ (fresh.carryOutAll errands).2
        = (recordSteps { fresh with config.replay.enabled := false }
          (errands.map Errand.step)).2 := by
  refine ⟨_, rfl, by decide +kernel, ?_⟩
  refine (replays_unnoticed ⟨⟨rfl, rfl, rfl, rfl, rfl⟩, rfl, rfl⟩ rfl rfl ?_).1
  show [lockSample, storeSample, readSample ["r", "rs"]].Pairwise _
  simp [Call.Undoes, lockSample, storeSample, readSample]

/-- The condition cannot be done without: a lock that was given up before the
request for it is replayed is held again, and an entry that was removed is
stored again. -/
theorem replay_noticed :
    (∃ errands, errands = [.request lockSample (some 20),
          .request unlockSample none, .sleep 100]
        ∧ (fresh.recordSteps (errands.map Errand.step)).1.backing.store.live.get?
          (StoreKey.bytes (.lock ⟨"inst"⟩ (.table ⟨1⟩))) = none
        ∧ ((fresh.carryOutAll errands).1.backing.store.live.get?
          (StoreKey.bytes (.lock ⟨"inst"⟩ (.table ⟨1⟩)))).isSome)
      ∧ ∃ errands, errands = [.request storeSample (some 20),
          .request (.removeBitmap { instanceName := "inst",
                                    rowsets := ["r", "rs"] }) none,
          .sleep 100]
        ∧ (fresh.recordSteps (errands.map Errand.step)).1.backing.store.live.get?
          (BitmapKey.stored ⟨⟨"r"⟩, ⟨0⟩, ⟨-7⟩⟩ ⟨"inst"⟩ ⟨0⟩) = none
        ∧ ((fresh.carryOutAll errands).1.backing.store.live.get?
          (BitmapKey.stored ⟨⟨"r"⟩, ⟨0⟩, ⟨-7⟩⟩ ⟨"inst"⟩ ⟨0⟩)).isSome := by
  refine ⟨⟨_, rfl, ?_, ?_⟩, _, rfl, ?_, ?_⟩ <;> decide +kernel

end World

end MergeOnWrite
