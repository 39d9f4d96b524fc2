/-
Requests for the lock that name the same tablets, and are made when nobody else
is about.

To make such a request is to run its handler on a slate, and of the handler is
seen what it leaves, how it fails and what it reports: in the surroundings
these are the live entries, the status of the response and the counters. So
requests that name the same tablets, in another order or more often, cannot be
told apart, and of tablets that are named again and again each is moved once.

The statistics of the tablets are read one by one in the order of the list, so
a store that refuses a read may well tell the lists apart. Requests that ask
for statistics are therefore compared where nothing is refused. The others are
the same program.

# Main statements

- `World.reports_run`: what an undisturbed script reports is noted.
- `World.respond_seen`: of a request is seen what is seen of its handler.
- `World.tablets_as_set`: what comes of a request depends on the set of its
  tablets, each of which is moved once.
-/
import MergeOnWrite.Proofs.Service.Integrity
import MergeOnWrite.Proofs.Service.Tablets
import MergeOnWrite.Proofs.Simulation.Admission

namespace MergeOnWrite

namespace World

variable {w : World} {α : Type}

-- ================================================== reports

@[simp] theorem reports_pass (w : World) (ms : Nat) :
    (w.pass ms).reports = w.reports := by
  unfold pass
  split <;> rfl

@[simp] theorem reports_passLatency (w : World) :
    w.passLatency.reports = w.reports := by
  unfold passLatency
  split
  · rfl
  · exact reports_pass w _

theorem reports_operate (w : World) (txn : Option Txn) (q : Question) :
    (w.operate txn q).1.reports
      = (Exchange.reports [⟨q, (w.operate txn q).2.2⟩]).reverse
        ++ w.reports := by
  cases q with
  | start =>
      simp only [operate]
      split <;> rfl
  | get | scan =>
      cases txn with
      | none => rfl
      | some t =>
          simp only [operate]
          split <;> rfl
  | put | remove | commit => cases txn <;> rfl
  | _ => rfl

/-- What is reported is noted, and nothing else. -/
theorem reports_answerAlone (state : World × Option Txn) (q : Question) :
    (answerAlone state q).1.1.reports
      = (Exchange.reports [⟨q, (answerAlone state q).2⟩]).reverse
        ++ state.1.reports := by
  obtain ⟨w, txn⟩ := state
  cases q with
  | get | scan =>
      simp only [answerAlone]
      split
      · rfl
      · exact (reports_operate _ txn _).trans (reports_passLatency _)
  | commit =>
      exact (reports_operate _ txn .commit).trans (reports_passLatency w)
  | pause ms =>
      simp only [answerAlone]
      split
      · exact reports_operate w txn (.pause ms)
      · exact reports_pass w _
  | start => exact reports_operate w txn .start
  | put key value => exact reports_operate w txn (.put key value)
  | remove key => exact reports_operate w txn (.remove key)
  | _ => rfl

/-- What an undisturbed script reports is noted, the latest first. -/
theorem reports_run (s : Script α) (state : World × Option Txn) :
    (s.run answerAlone state).1.1.reports
      = (Exchange.reports (s.talk answerAlone state)).reverse
        ++ state.1.reports := by
  induction s generalizing state with
  | done a => rfl
  | ask q next ih =>
      have htalk : Program.talk answerAlone (.ask q next) state
          = [⟨q, (answerAlone state q).2⟩]
            ++ (next (answerAlone state q).2).talk answerAlone
              (answerAlone state q).1 :=
        rfl
      rw [Program.run_ask, ih, reports_answerAlone, htalk,
        Exchange.reports_append, List.reverse_append, List.append_assoc]

-- ================================================== what is seen

/-- Of a request that nobody disturbs, and that is refused nothing, is seen
what is seen of its handler. -/
theorem respond_seen (h : w.IsLone) {call : Call}
    (hserved : w.RefusesNothing call) {sight : Sight}
    (hsight : Handler.seen w.clock.now w.allowList.versionFor
      (call.handler w.config.lock) { live := w.backing.store.live } = sight) :
    (w.respond true call).2.status = (Response.ofResult () sight.result).status
      ∧ (w.respond true call).1.backing.store.live = sight.left.live
      ∧ (w.respond true call).1.reports
        = sight.reports.reverse ++ w.reports := by
  have hstart : w.Shows none { live := w.backing.store.live } :=
    ⟨rfl, rfl, nofun⟩
  obtain ⟨hresponse, hshows, htalk⟩ :=
    run_shows rfl rfl (call.within_attempt w.config.lock) hserved hstart
  have hreports := reports_run (call.attempt w.config.lock) (w, none)
  rw [htalk, Call.talk_attempt] at hreports
  rw [respond_direct h]
  rw [Call.run_attempt] at hresponse hshows
  cases hrun : Program.run (Slate.answer w.clock.now w.allowList.versionFor)
      (call.handler w.config.lock).run { live := w.backing.store.live } with
  | mk left result =>
      rw [hrun] at hresponse hshows
      rw [Handler.seen_of_run hrun] at hsight
      subst hsight
      refine ⟨?_, hshows.live.symm, hreports⟩
      rw [hresponse]
      cases result with
      | ok payload => rfl
      | error e => rfl

-- ================================================== the same tablets

variable {q : LockRequest} {others : List TabletId}

/-- Requests that ask for no statistics are the same program if they name the
same tablets, whatever the store refuses. -/
theorem respond_naming_of_plain
    (h : ∀ tablet, tablet ∈ others ↔ tablet ∈ q.tablets)
    (hplain : q.wantsStats = false) :
    (w.respond true (q.naming others).call).2.status
        = (w.respond true q.call).2.status
      ∧ (w.respond true (q.naming others).call).1
        = (w.respond true q.call).1 := by
  cases q with
  | acquire r =>
      have hresponse := congrArg
        (fun script : Script (Response (List TabletStats)) =>
          w.runForeground none (.ofScript w.pace script))
        (AcquireLock.attempt_naming w.config.lock h hplain)
      exact ⟨congrArg (·.2.status) hresponse, congrArg (·.1) hresponse⟩
  | release r =>
      have hresponse := congrArg
        (fun script : Script (Response Unit) =>
          w.runForeground none (.ofScript w.pace script))
        (ReleaseLock.attempt_naming w.config.lock h)
      exact ⟨congrArg (·.2.status) hresponse, congrArg (·.1) hresponse⟩

/-- Where the store refuses nothing, requests that name the same tablets come
to the same, also if they ask for statistics. -/
theorem respond_naming_of_served (h : w.IsLone)
    (hrecords : w.backing.store.live.AreRecords)
    (hsame : ∀ tablet, tablet ∈ others ↔ tablet ∈ q.tablets)
    (hserved : w.RefusesNothing q.call)
    (hserved' : w.RefusesNothing (q.naming others).call) :
    (w.respond true (q.naming others).call).2.status
        = (w.respond true q.call).2.status
      ∧ (w.respond true (q.naming others).call).1.backing.store.live
        = (w.respond true q.call).1.backing.store.live
      ∧ (w.respond true (q.naming others).call).1.reports
        = (w.respond true q.call).1.reports := by
  obtain ⟨hstatus, hlive, hreports⟩ := respond_seen h hserved rfl
  obtain ⟨hstatus', hlive', hreports'⟩ := respond_seen h hserved'
    (LockRequest.seen_naming w.clock.nano_lt hrecords hsame)
  exact ⟨hstatus'.trans hstatus.symm, hlive'.trans hlive.symm,
    hreports'.trans hreports.symm⟩

/-- A request that succeeds makes one move at each of its tablets, once, and
reports each of these moves. -/
theorem passes_of_ok (h : w.IsLone) {i : InstanceId}
    (hi : InstanceId.ofText q.instanceName = .ok i)
    (hroute : w.allowList.versionFor i = .v2)
    (hok : (w.respond true q.call).2.status.code = .ok) :
    ∃ move outcomes, q.Makes w.config.lock w.clock.now move
      ∧ move.Passes i
        ((LockScope.distinct q.tablets).map (.tablet q.table)) outcomes
        w.backing.store.live (w.respond true q.call).1.backing.store.live
      ∧ (w.respond true q.call).1.reports
        = (outcomes.map .lock).reverse ++ w.reports := by
  have hserved := refusesNothing_of_ok h hok
  obtain ⟨-, -, hreports⟩ := respond_seen h hserved rfl
  obtain ⟨slate, response, hrun, hresponse, hlive⟩ := respond_shows h hserved
  rw [hresponse] at hok
  obtain ⟨hsucceeds, -⟩ := Call.succeeds_of_ok hrun hok
  obtain ⟨j, scopes, move, outcomes, hj, hscopes, hmakes, hpasses, hreported⟩ :=
    LockRequest.passes_of_succeeds w.clock.nano_lt hsucceeds
  obtain rfl := Except.ok.inj (hi.symm.trans hj)
  rw [hroute] at hscopes
  obtain rfl := LockScope.eq_of_ofRequest_v2 hscopes
  rw [hreported] at hreports
  rw [hlive]
  exact ⟨move, outcomes, hmakes, hpasses, hreports⟩

/-- What comes of a request that takes the lock, or gives it up, depends on the
set of its tablets only, whatever has been stored by requests and whatever time
it is. If another request differs from it in the order and repetition of its
tablets only, then the two have the same status, leave the same entries and
report the same. If they succeed in the second version, one and the same move
has been made at each of the tablets, once, and nothing else has changed.

To tell the statistics of a list, each of its tablets is read: requests that
ask for them are compared where the store refuses nothing to either. -/
theorem tablets_as_set (h : w.IsLone) {s : Traffic} (hs : s.Regular)
    (hlive : w.backing.store.live = s.store.live)
    (hsame : ∀ tablet, tablet ∈ others ↔ tablet ∈ q.tablets)
    (hserved : q.wantsStats = true → w.RefusesNothing q.call
      ∧ w.RefusesNothing (q.naming others).call) :
    ((w.respond true (q.naming others).call).2.status
          = (w.respond true q.call).2.status
        ∧ (w.respond true (q.naming others).call).1.backing.store.live
          = (w.respond true q.call).1.backing.store.live
        ∧ (w.respond true (q.naming others).call).1.reports
          = (w.respond true q.call).1.reports)
      ∧ ∀ i, InstanceId.ofText q.instanceName = .ok i →
        w.allowList.versionFor i = .v2 →
        (w.respond true q.call).2.status.code = .ok →
        ∃ (once : List TabletId) (move : LockMove)
            (outcomes : List LockOutcome),
          once.Nodup
          ∧ (∀ tablet, tablet ∈ once ↔ tablet ∈ q.tablets)
          ∧ q.Makes w.config.lock w.clock.now move
          ∧ move.Passes i (once.map (.tablet q.table)) outcomes
            w.backing.store.live
            (w.respond true q.call).1.backing.store.live
          ∧ (w.respond true q.call).1.reports
            = (outcomes.map .lock).reverse ++ w.reports := by
  constructor
  · cases hstats : q.wantsStats with
    | false =>
        obtain ⟨hstatus, hleft⟩ := respond_naming_of_plain hsame hstats
        rw [hleft]
        exact ⟨hstatus, rfl, rfl⟩
    | true =>
        obtain ⟨hthis, hother⟩ := hserved hstats
        have hrecords : w.backing.store.live.AreRecords := by
          rw [hlive]
          exact (Traffic.kept_of_regular hs).live
        exact respond_naming_of_served h hrecords hsame hthis hother
  · intro i hi hroute hok
    obtain ⟨move, outcomes, hmakes, hpasses, hreports⟩ :=
      passes_of_ok h hi hroute hok
    exact ⟨_, move, outcomes, LockScope.nodup_distinct q.tablets,
      fun _ => LockScope.mem_distinct, hmakes, hpasses, hreports⟩

/-- A request for three tablets, two of which are held, and for their
statistics. -/
def countThree : LockRequest := .acquire { lockThree with wantsStats := true }

/-- The same tablets in another order, two of them twice. -/
def inTurns : List TabletId := [⟨1⟩, ⟨3⟩, ⟨2⟩, ⟨3⟩, ⟨1⟩]

/-- The first tablet is joined, the second one is taken over, and the third one
is acquired: each once, also by the request that names two of them twice. -/
theorem tablets_as_set_three :
    (fiveSecondsOn.respond true (countThree.naming inTurns).call).2.status = {}
      ∧ (fiveSecondsOn.respond true
          (countThree.naming inTurns).call).1.reports
        = [.lock .acquired, .lock .takenOver, .lock .joined]
      ∧ ∃ (once : List TabletId) (move : LockMove)
          (outcomes : List LockOutcome),
        (∀ tablet, tablet ∈ once ↔ tablet ∈ lockThree.tablets)
        ∧ move.Passes ⟨"inst"⟩ (once.map (.tablet ⟨1⟩)) outcomes
          fiveSecondsOn.backing.store.live
          (fiveSecondsOn.respond true
            (countThree.naming inTurns).call).1.backing.store.live := by
  have hcalm : fiveSecondsOn.IsCalm := ⟨⟨rfl, rfl, rfl, rfl, rfl⟩, rfl, rfl⟩
  have hregular : twoHeld.Regular :=
    Traffic.regular_served ⟨by decide +kernel, by decide⟩ 20 _
      (by decide +kernel)
  have hstore : fiveSecondsOn.backing.store.live = twoHeld.store.live := by
    simp only [fiveSecondsOn]
  have hsame : ∀ tablet, tablet ∈ inTurns ↔ tablet ∈ countThree.tablets := by
    intro tablet
    simp only [inTurns, countThree, LockRequest.tablets, List.mem_cons,
      List.not_mem_nil]
    grind
  have hserved := refusesNothing_of_calm hcalm rfl
  obtain ⟨hok, hreports⟩ :
      (fiveSecondsOn.respond true countThree.call).2.status = {}
        ∧ (fiveSecondsOn.respond true countThree.call).1.reports
          = [.lock .acquired, .lock .takenOver, .lock .joined] := by
    decide +kernel
  obtain ⟨⟨hstatus, hlive, hsaid⟩, hmoves⟩ := tablets_as_set hcalm.lone hregular
    hstore hsame fun _ => ⟨hserved _, hserved _⟩
  have hcode : (fiveSecondsOn.respond true countThree.call).2.status.code
      = .ok := by
    rw [hok]
  obtain ⟨once, move, outcomes, -, honce, -, hpasses, -⟩ :=
    hmoves ⟨"inst"⟩ (by decide +kernel) (by decide +kernel) hcode
  rw [hstatus, hlive, hsaid]
  exact ⟨hok, hreports, once, move, outcomes, honce, hpasses⟩

end World

end MergeOnWrite
