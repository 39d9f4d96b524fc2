/-
The delete bitmaps of a service, told as a map.

A session that starts from an empty store makes requests one after another.
What is stored after each of them are the entries of a map from instances
and tablets to bitmaps, and that map is told by the responses alone
(`Bitmaps.after`): a request to store entries that succeeds overwrites them
in the map, one to remove rowsets removes them, and nothing else changes it,
failures, attempts that are made again and requests for locks among the
rest. A request that reads is told a selection of the map.

# The argument

On a draft of the entries, an attempt at a request does this to any map that
the entries hold (`Call.safe_bitmaps`), and a service that nobody disturbs
works on such a draft (`run_safe`). An attempt that another one follows has
changed nothing, so the attempts come to what the last of them comes to.

# Main statements

- `does_attempt`, `does_serve`: what an attempt at a request does, and what
  the service does.
- `explains_step`: the same of any step of a session.
- `explained_by_responses`: the same of all sessions.
- `explains_ofSetup`: the same as a session is set up, from a configuration.
-/
import MergeOnWrite.Proofs.Service.BitmapRequests
import MergeOnWrite.Proofs.Simulation.Drafts
import MergeOnWrite.Proofs.Simulation.Retries

namespace MergeOnWrite

-- ================================================== the map

namespace Bitmaps

/-- The bitmaps after a request with its response. -/
def afterResponse (m : Bitmaps) (call : Call)
    (response : Response call.Payload) : Bitmaps :=
  if response.status.code = .ok then m.afterCall call else m

/-- The bitmaps after a step of a session with its answer. -/
def after (m : Bitmaps) : ServiceAnswer → Bitmaps
  | .response answer _ => m.afterResponse answer.call answer.response
  | _ => m

/-- True of what a session leaves if it is what the bitmaps tell that it
begins with: reads that succeed are told what the bitmaps have, and what is
stored are the entries of the bitmaps after each answer. -/
def Explains (m : Bitmaps) : List StepRecord → Prop
  | [] => True
  | record :: rest =>
    (∀ call response pauses,
      record.answer = .response ⟨call, response⟩ pauses →
      response.status.code = .ok → m.Tells call response.payload)
    ∧ (∃ entries : Entries, record.stored = entries.toList
      ∧ entries.Holds (m.after record.answer))
    ∧ (m.after record.answer).Explains rest

end Bitmaps

/-- True of responses that report success. -/
def ServiceAnswer.isSuccess : ServiceAnswer → Bool
  | .response answer _ => answer.response.status.code == .ok
  | _ => false

-- ================================================== attempts

namespace World

/-- What a request does to the bitmaps that the store holds. -/
structure Does (w w' : World) (call : Call) (response : Response call.Payload) :
    Prop where
  holds : ∀ m, w.backing.store.live.Holds m →
    w'.backing.store.live.Holds (m.afterResponse call response)
  told : ∀ m : Bitmaps, w.backing.store.live.Holds m →
    response.status.code = .ok → m.Tells call response.payload
  unchanged : response.status.code ≠ .ok →
    w'.backing.store.live = w.backing.store.live

variable {w : World} {call : Call}

/-- Where nothing is committed nothing changes. -/
theorem live_of_leads {c : Contract} {first last : Entries}
    (h : c.Leads 0 first last) : last = first := by
  cases h
  rfl

/-- What an attempt at a request does. -/
theorem does_attempt (lock : LockConfig) (hnames : call.NamesRowsets)
    (hclock : w.clock.now.IsClockTime) (txn : Option Txn) :
    w.Does ((call.attempt lock).run answerAlone (w, txn)).1.1 call
      ((call.attempt lock).run answerAlone (w, txn)).2 := by
  obtain ⟨hworld, hresponse⟩ := run_fresh txn (call.follows_attempt lock)
  rw [hworld, hresponse]
  obtain ⟨p, ⟨hsettled, htold⟩, hmirrors, hleads⟩ :=
    run_safe (asks_attempt lock call)
      (call.safe_bitmaps w.allowList.versionFor lock hnames)
      ⟨fun _ => rfl, hclock⟩ (.closed w {}) (.none w.backing.store.live)
  generalize (call.attempt lock).run answerAlone (w, none) = x
    at hsettled htold hmirrors hleads
  by_cases hok : x.2.status.code = .ok
  · by_cases hwrites : call.writes
    · rw [hsettled, if_pos ⟨hok, hwrites⟩] at hleads
      refine ⟨fun m hm => ?_, fun m _ _ => ?_, fun h => absurd hok h⟩
      · rw [Bitmaps.afterResponse, if_pos hok]
        cases hleads with
        | commit readings hnone hcommit =>
            cases hnone
            exact hcommit m hm
      · cases call with
        | readBitmap r => cases hwrites
        | _ => trivial
    · rw [hsettled, if_neg fun h => hwrites h.2] at hleads
      have hlive := live_of_leads hleads
      have hdraft : ∀ d, p.draft = some d →
          d.before = w.backing.store.live := by
        intro d hd
        rw [hmirrors.draft] at hd
        obtain ⟨t, -, rfl⟩ := Option.map_eq_some_iff.1 hd
        exact hlive
      refine ⟨fun m hm => ?_, fun m hm _ => ?_, fun h => absurd hok h⟩
      · rw [Bitmaps.afterResponse, if_pos hok, hlive]
        cases call with
        | readBitmap r => exact hm
        | _ => exact absurd rfl hwrites
      · rcases htold hok with h | ⟨d, hd, hd'⟩
        · exact absurd h hwrites
        · exact hd' m (hdraft d hd ▸ hm)
  · rw [hsettled, if_neg fun h => hok h.1] at hleads
    have hlive := live_of_leads hleads
    refine ⟨fun m hm => ?_, fun m _ h => absurd h hok, fun _ => hlive⟩
    rw [Bitmaps.afterResponse, if_neg hok, hlive]
    exact hm

-- ================================================== requests

theorem Does.last {config : RetryConfig} {v v' : World}
    {response : Response call.Payload} (h : w.Does v call response)
    (hbacking : v'.backing = v.backing) :
    w.Does v' call (config.last response) := by
  by_cases hok : (config.last response).status.code = .ok
  · rw [config.last_of_ok hok]
    exact ⟨hbacking ▸ h.holds, h.told, hbacking ▸ h.unchanged⟩
  · have hlive : v'.backing.store.live = w.backing.store.live := by
      rw [hbacking]
      refine h.unchanged fun hcode => hok ?_
      rw [RetryConfig.last, hcode, config.retries_of_not_transient rfl]
      exact hcode
    refine ⟨fun m hm => ?_, fun m _ h => absurd h hok, fun _ => hlive⟩
    rw [Bitmaps.afterResponse, if_neg hok, hlive]
    exact hm

/-- What an attempt does that follows others. -/
theorem Does.of_live {v v' : World} {response : Response call.Payload}
    (h : v.Does v' call response)
    (hlive : v.backing.store.live = w.backing.store.live) :
    w.Does v' call response :=
  ⟨hlive ▸ h.holds, hlive ▸ h.told, hlive ▸ h.unchanged⟩

/-- An attempt that another one follows has done nothing. -/
theorem carries_does (config : RetryConfig) (lock : LockConfig)
    (hnames : call.NamesRowsets) :
    Carries config (call.attempt lock)
      (fun state x => state.1.clock.now.IsClockTime →
        state.1.Does x.1.1 call x.2)
      (fun _ state x => state.1.clock.now.IsClockTime →
        state.1.Does x.1.1 call x.2) where
  asks := asks_attempt lock call
  attempt state hclock := does_attempt lock hnames hclock state.2
  last n state x x' hx hresponse hbacking hclock := by
    rw [hresponse]
    exact (hx hclock).last hbacking
  again n state x w' y hx hretries hkeeps hbacking hy hclock := by
    refine (hy (hkeeps.clock ▸ hclock)).of_live ?_
    rw [hbacking]
    refine (hx hclock).unchanged fun hcode => ?_
    rw [hcode, config.retries_of_not_transient rfl] at hretries
    cases hretries

/-- What the service does about a request. -/
theorem does_serve (hreplay : w.config.replay.enabled = false)
    (hnames : call.NamesRowsets) (hclock : w.clock.now.IsClockTime) :
    w.Does ((call.serve w.config).run answerAlone (w, none)).1.1 call
      ((call.serve w.config).run answerAlone (w, none)).2 := by
  rw [serve_eq hreplay]
  exact (carries_does w.config.retry w.config.lock hnames).withRetries
    call.method (w, none) hclock

-- ================================================== sessions

/-- True of the steps of a session that make requests or prepare for them: a
request that is not made directly finds no replays, a request that stores
entries names valid rowsets, and the clock shows a time of the calendar.
Nobody else writes to the store. -/
def Admits (w : World) : ServiceStep → Prop
  | .call direct call => (direct ∨ w.config.replay.enabled = false)
    ∧ call.NamesRowsets ∧ w.clock.now.IsClockTime
  | .write .. | .strikes .. => False
  | _ => True

/-- True of sessions that only make requests and prepare for them. -/
def OnlyRequests (w : World) : List ServiceStep → Prop
  | [] => True
  | step :: rest => w.Admits step ∧ (w.recordStep step).1.OnlyRequests rest

theorem IsLone.allowList (h : w.IsLone) (allowList : AllowList) :
    { w with allowList }.IsLone :=
  ⟨h.ready, h.waits, h.givenWay, h.afterStart, h.beforeCommit⟩

theorem giveWay_of_lone (h : w.IsLone) :
    w.giveWay.IsLone ∧ w.giveWay.backing = w.backing := by
  obtain ⟨hready, hwaits, hgiven, hstart, hcommit⟩ := h
  have hgive : w.giveWay = { w with
      settled := w.time, ready := [], waits := [], givenWay := [] } := by
    simp [giveWay, turn, runReady, addGivenWay, nextTime, wake, hready, hwaits,
      hgiven]
  rw [hgive]
  exact ⟨⟨rfl, rfl, rfl, hstart, hcommit⟩, rfl⟩

theorem settle_of_lone (h : w.IsLone) :
    w.settle.IsLone ∧ w.settle.backing = w.backing := by
  have hrepeat : ∀ n, (Nat.repeat giveWay n w).IsLone
      ∧ (Nat.repeat giveWay n w).backing = w.backing := by
    intro n
    induction n with
    | zero => exact ⟨h, rfl⟩
    | succ n ih =>
        obtain ⟨hlone, hbacking⟩ := giveWay_of_lone ih.1
        exact ⟨hlone, hbacking.trans ih.2⟩
  exact hrepeat _

/-- What a request does, made directly or not. -/
theorem does_respond (h : w.IsLone) {direct : Bool}
    (hadmits : w.Admits (.call direct call)) :
    w.Does (w.respond direct call).1 call (w.respond direct call).2
      ∧ w.Keeps (w.respond direct call).1 := by
  obtain ⟨hdirect, hnames, hclock⟩ := hadmits
  cases direct with
  | true =>
      have hasks := asks_attempt w.config.lock call
      have hrun : w.respond true call = _ := runForeground_ofScript hasks h
      rw [hrun]
      exact ⟨does_attempt w.config.lock hnames hclock none,
        keeps_run hasks (w, none)⟩
  | false =>
      have hreplay := hdirect.resolve_left Bool.false_ne_true
      have hasks := asks_serve hreplay call
      have hrun : w.respond false call = _ := runForeground_ofScript hasks h
      rw [hrun]
      exact ⟨does_serve hreplay hnames hclock,
        keeps_run hasks (w, none)⟩

/-- What a step of a session does to the bitmaps that the store holds, and
what it is told of them. -/
structure Explained (w : World) (m : Bitmaps) (next : World)
    (answer : ServiceAnswer) : Prop where
  lone : next.IsLone
  holds : next.backing.store.live.Holds (m.after answer)
  told : ∀ call response pauses, answer = .response ⟨call, response⟩ pauses →
    response.status.code = .ok → m.Tells call response.payload

/-- A step that makes no request. -/
theorem Explained.of_other {m : Bitmaps} {next : World} {answer : ServiceAnswer}
    (hlone : next.IsLone) (hm : next.backing.store.live.Holds m)
    (hother : ∀ x pauses, answer ≠ .response x pauses) :
    w.Explained m next answer := by
  refine ⟨hlone, ?_, fun call response pauses h => absurd h (hother _ _)⟩
  cases answer with
  | response x pauses => exact absurd rfl (hother x pauses)
  | _ => exact hm

theorem explained_step {m : Bitmaps} (h : w.IsLone)
    (hm : w.backing.store.live.Holds m) {step : ServiceStep}
    (hadmits : w.Admits step) :
    w.Explained m (w.step step).1 (w.step step).2 := by
  cases step with
  | call direct call =>
      obtain ⟨hdoes, hkeeps⟩ := does_respond h hadmits
      obtain ⟨⟨pauses, hanswer⟩, hbacking⟩ := w.answerCall_eq direct call
      show w.Explained m (w.answerCall direct call).1
        (w.answerCall direct call).2
      rw [hanswer]
      refine ⟨(w.keeps_answerCall direct call hkeeps).lone h, ?_, ?_⟩
      · rw [hbacking]
        exact hdoes.holds m hm
      · intro other response pauses' heq hok
        cases heq
        exact hdoes.told m hm hok
  | write | strikes => exact hadmits.elim
  | advance ms =>
      obtain ⟨hlone, hbacking⟩ := giveWay_of_lone
        (w := { w with time := w.time + ms }) ⟨h.1, h.2, h.3, h.4, h.5⟩
      refine .of_other hlone ?_ fun _ _ => nofun
      rw [step, advance, hbacking]
      exact hm
  | sleep ms =>
      obtain ⟨hlone, hbacking⟩ := settle_of_lone ((keeps_pass w ms).lone h)
      rw [step, sleep_eq h]
      refine .of_other hlone ?_ fun _ _ => nofun
      rw [hbacking, backing_pass]
      exact hm
  | control control =>
      refine .of_other ⟨h.1, h.2, h.3, h.4, h.5⟩ ?_ fun _ _ => nofun
      cases control <;> exact hm
  | version name =>
      rw [step]
      split
      · exact .of_other h hm fun _ _ => nofun
      · exact .of_other h hm fun _ _ => nofun
  | refused | elapsed | tally => exact .of_other h hm fun _ _ => nofun
  | advanceClock | reads =>
      exact .of_other ⟨h.1, h.2, h.3, h.4, h.5⟩ hm fun _ _ => nofun
  | allowList text => exact .of_other (h.allowList _) hm fun _ _ => nofun

/-- The steps of a session are explained one after another. -/
theorem explains_steps :
    ∀ {steps : List ServiceStep} {w : World} {m : Bitmaps}, w.IsLone →
      w.backing.store.live.Holds m → w.OnlyRequests steps →
      m.Explains (w.recordSteps steps).2 := by
  intro steps
  induction steps with
  | nil => exact fun _ _ _ => trivial
  | cons step rest ih =>
      intro w m h hm hrequests
      have hexplained := explained_step
        (w := { w with rivalAnswers := [] }) ⟨h.1, h.2, h.3, h.4, h.5⟩ hm
        hrequests.1
      exact ⟨hexplained.told, ⟨_, rfl, hexplained.holds⟩,
        ih hexplained.lone hexplained.holds hrequests.2⟩

/-- A session of requests alone only makes requests, whatever requests they
are. -/
theorem onlyRequests_of_calls {direct : Bool}
    (hdirect : direct ∨ w.config.replay.enabled = false)
    (hclock : w.clock.now.IsClockTime) (hlone : w.IsLone) :
    ∀ {calls : List Call}, (∀ call ∈ calls, call.NamesRowsets) →
      w.OnlyRequests (calls.map (.call direct)) := by
  intro calls
  induction calls generalizing w with
  | nil => exact fun _ => trivial
  | cons call rest ih =>
      intro hnames
      have hadmits : w.Admits (.call direct call) :=
        ⟨hdirect, hnames call (List.mem_cons_self ..), hclock⟩
      let v : World := { w with rivalAnswers := [] }
      have hv : w.Keeps v := ⟨rfl, rfl, rfl, rfl, rfl, rfl, id, fun h =>
        ⟨h.ready, h.waits, h.givenWay, h.afterStart, h.beforeCommit⟩⟩
      have hkeeps : w.Keeps (w.recordStep (.call direct call)).1 :=
        hv.trans (v.keeps_answerCall direct call
          (does_respond (hv.lone hlone) hadmits).2)
      refine ⟨hadmits, ih ?_ ?_ (hkeeps.lone hlone) fun c hc =>
        hnames c (List.mem_cons_of_mem _ hc)⟩
      · rw [hkeeps.config]
        exact hdirect
      · rw [hkeeps.clock]
        exact hclock

/-- What a session begins with: nobody else is about, nothing is stored, and
the clock tells a time. -/
theorem fresh_ofSetup {setup : SessionSetup} {w : World}
    (h : ofSetup setup = .ok w) :
    w.IsLone ∧ w.backing.store = {} ∧ w.clock.now.IsClockTime
      ∧ w.config = setup.config := by
  have hclock : ({} : SimulatedClock).now.IsClockTime :=
    ⟨by decide +kernel, by decide +kernel⟩
  unfold ofSetup at h
  cases hcheck : setup.config.check with
  | error e => rw [hcheck] at h; cases h
  | ok u =>
      rw [hcheck] at h
      obtain rfl := Except.ok.inj h
      exact ⟨⟨rfl, rfl, rfl, rfl, rfl⟩, rfl, hclock, rfl⟩

/-- Whatever the configuration of a session is, its requests are explained
by the responses, from nothing on. -/
theorem explains_ofSetup {setup : SessionSetup} {w : World}
    (h : ofSetup setup = .ok w) {direct : Bool}
    (hdirect : direct ∨ setup.config.replay.enabled = false)
    {calls : List Call} (hnames : ∀ call ∈ calls, call.NamesRowsets) :
    Bitmaps.Explains (fun _ _ => ∅)
      (w.recordSteps (calls.map (.call direct))).2 := by
  obtain ⟨hlone, hempty, hclock, hconfig⟩ := fresh_ofSetup h
  refine explains_steps hlone ?_ <|
    onlyRequests_of_calls (hconfig ▸ hdirect) hclock hlone hnames
  rw [hempty]
  exact .empty

/-- In a session that only makes requests, from an empty store, all that is
stored of delete bitmaps and all that is read of them is explained by the
responses. -/
theorem explained_by_responses {w : World} (hlone : w.IsLone)
    (hempty : w.backing.store = {}) {steps : List ServiceStep}
    (hrequests : w.OnlyRequests steps) :
    Bitmaps.Explains (fun _ _ => ∅) (w.recordSteps steps).2 := by
  refine explains_steps hlone ?_ hrequests
  rw [hempty]
  exact .empty

/-- A service with the default configuration, on an empty store. -/
def fresh : World := { config := {}, backing := {} }

/-- An entry at a negative version, and one without rows. -/
def sampleBitmap : DeleteBitmap :=
  .ofList [(⟨⟨"r"⟩, ⟨0⟩, ⟨-7⟩⟩, (∅ : RowSet).insert 5),
    (⟨⟨"rs"⟩, ⟨1⟩, ⟨4⟩⟩, ∅)]

/-- Reads the entries of some rowsets. -/
def readSample (rowsets : List String) : Call :=
  .readBitmap { instanceName := "inst", rowsets,
                beginVersion := ⟨-7⟩, endVersion := ⟨4⟩ }

/-- Stores two entries, reads them by naming a rowset twice, removes one of
them, and reads what is left. -/
def sampleCalls : List Call :=
  [.updateBitmap { instanceName := "inst", lockId := -3,
                   bitmap := sampleBitmap },
    readSample ["r", "rs", "r"],
    .removeBitmap { instanceName := "inst", rowsets := ["r"] },
    readSample ["r", "rs"]]

/-- A session of four requests that succeed is explained. -/
theorem explained_by_responses_sample : ∃ steps,
    steps = sampleCalls.map (.call false) ∧ fresh.IsLone
      ∧ fresh.backing.store = {} ∧ fresh.OnlyRequests steps
      ∧ (fresh.recordSteps steps).2.all (·.answer.isSuccess) = true
      ∧ Bitmaps.Explains (fun _ _ => ∅) (fresh.recordSteps steps).2 := by
  have hlone : fresh.IsLone := ⟨rfl, rfl, rfl, rfl, rfl⟩
  -- the steps stay a name, so that nothing carries them out but the kernel
  obtain ⟨steps, hsteps⟩ : ∃ steps,
      steps = sampleCalls.map (ServiceStep.call false) := ⟨_, rfl⟩
  have hrequests : fresh.OnlyRequests steps := by
    rw [hsteps]
    exact onlyRequests_of_calls (.inr rfl)
      ⟨by decide +kernel, by decide +kernel⟩ hlone (by decide +kernel)
  have hsuccess :
      (fresh.recordSteps steps).2.all (·.answer.isSuccess) = true := by
    rw [hsteps]
    decide +kernel
  exact ⟨steps, hsteps, hlone, rfl, hrequests, hsuccess,
    explained_by_responses hlone rfl hrequests⟩

end World

end MergeOnWrite
