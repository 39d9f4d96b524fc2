/-
Callers of a service whose store fails now and then.

A failure of the store ends an attempt at a request before it has changed
anything, so another attempt starts over. Whatever begins and commits the
store fails, a request that is attempted as often as configured ends like a
single attempt where nothing fails, or with the last failure and nothing
done; it is carried out once or not at all.

# Main statements

- `ends_attempt`: what an attempt comes to.
- `carries_served`: an attempt after one that failed starts over.
- `served_despite_failures`: the same as callers see it.
-/
import MergeOnWrite.Proofs.Simulation.Failures
import MergeOnWrite.Proofs.Simulation.Retries

namespace MergeOnWrite

-- ================================================== codes

/-- An error that is not the store's is not transient. -/
theorem ServiceError.isTransient_of_isCheck {e : ServiceError}
    (h : e.isCheck) : e.code.isTransient = false := by
  cases e with
  | store code context => cases h
  | _ => rfl

-- ================================================== attempts

namespace World

variable {w v : World} {call : Call}
  {events : List StoreEvent}

/-- What a request comes to: what it comes to where nothing fails, or a
response that tells of the last failure, with a code made of it. -/
inductive Served (w : World) (terminal : StoreCode → ServiceCode)
    (call : Call) (events : List StoreEvent)
    (x y : (World × Option Txn) × Response call.Payload) : Prop
  | alike : x.2 = y.2 → x.1.1.backing.store = y.1.1.backing.store →
    x.2.status.code.isTransient = false →
    events.countP StoreEvent.isGrantedCommit ≤ 1 →
    Served w terminal call events x y
  | failed (code : StoreCode) (context : String) :
    x.2 = ⟨⟨terminal code, (ServiceError.store code context).message⟩,
      call.noPayload⟩ →
    x.1.1.backing.store = w.backing.store →
    events.head?.bind StoreEvent.failure? = some code →
    code ∈ w.backing.faults.codes →
    events.countP StoreEvent.isGrantedCommit = 0 →
    Served w terminal call events x y

/-- What an attempt comes to. -/
theorem ends_attempt (config : LockConfig) (call : Call)
    (txn txn' : Option Txn) (h : w.Twins v) :
    ∃ events, w.backing.Logs ((call.attempt config).run answerAlone
        (w, txn)).1.1.backing events
      ∧ events.countP StoreEvent.isStart ≤ 1
      ∧ w.Served .ofStore call events
        ((call.attempt config).run answerAlone (w, txn))
        ((call.attempt config).run answerAlone (v, txn')) := by
  obtain ⟨events, hlogs, hstarts, hends⟩ :=
    run_twins txn txn' (call.follows_attempt config) h trivial
  refine ⟨events, hlogs, hstarts, ?_⟩
  cases hends with
  | alike b hresult hstore hend hcommits =>
      refine .alike hresult hstore ?_ hcommits
      rcases hend with ⟨-, hok⟩ | ⟨-, e, hcheck, hfail⟩
      · rw [hok]
        rfl
      · rw [hfail]
        exact ServiceError.isTransient_of_isCheck hcheck
  | failed code _ hfail hstore hlast hcode hcommits =>
      obtain ⟨context, hresult⟩ := hfail
      exact .failed code context hresult hstore hlast hcode hcommits

-- ================================================== more attempts

variable {config : RetryConfig} {x x' y : (World × Option Txn)
  × Response call.Payload}

/-- The response of the last attempt gets the terminal form of its code. -/
theorem Served.last (h : w.Served .ofStore call events x y)
    (hresponse : x'.2 = config.last x.2)
    (hbacking : x'.1.1.backing = x.1.1.backing) :
    w.Served config.terminal call events x' y := by
  rw [RetryConfig.last] at hresponse
  cases h with
  | alike hresult hstore hcode hcommits =>
      rw [RetryConfig.retries_of_not_transient config hcode,
        if_neg Bool.false_ne_true] at hresponse
      rw [← hresponse] at hresult hcode
      exact .alike hresult (hbacking ▸ hstore) hcode hcommits
  | failed code context hresult hstore hlast hcode hcommits =>
      refine .failed code context ?_ (hbacking ▸ hstore) hlast hcode hcommits
      rw [hresponse, hresult, RetryConfig.terminal]
      split <;> rfl

/-- Attempts after one that failed come to what they would have come to
without it. -/
theorem Served.after {w' : World} {earlier : List StoreEvent}
    {terminal : StoreCode → ServiceCode}
    (h : w'.Served terminal call events x y)
    (hlogs : w.backing.Logs w'.backing earlier)
    (hstore : w'.backing.store = w.backing.store)
    (hnone : earlier.countP StoreEvent.isGrantedCommit = 0) :
    w.Served terminal call (events ++ earlier) x y := by
  cases h with
  | alike hresult hx hcode hcommits =>
      refine .alike hresult hx hcode ?_
      rw [List.countP_append]
      omega
  | failed code context hresult hx hlast hcode hcommits =>
      refine .failed code context hresult (hx.trans hstore) ?_
        (hlogs.codes hcode) ?_
      · cases events with
        | nil => cases hlast
        | cons event rest => exact hlast
      · rw [List.countP_append]
        omega

/-- What attempts come to: what one attempt comes to that does not fail, or
the last failure. -/
def ServedWithin (lock : LockConfig) (call : Call)
    (terminal : StoreCode → ServiceCode) (n : Nat)
    (state : World × Option Txn)
    (x : (World × Option Txn) × Response call.Payload) : Prop :=
  ∀ (v : World) (txn' : Option Txn), state.1.Twins v →
    ∃ events, state.1.backing.Logs x.1.1.backing events
      ∧ events.countP StoreEvent.isStart ≤ n
      ∧ state.1.Served terminal call events x
        ((call.attempt lock).run answerAlone (v, txn'))

/-- An attempt after one that failed starts over. -/
theorem carries_served (config : RetryConfig) (lock : LockConfig)
    (call : Call) :
    Carries config (call.attempt lock) (ServedWithin lock call .ofStore 1)
      (ServedWithin lock call config.terminal) where
  asks := asks_attempt lock call
  attempt state v txn' h := ends_attempt lock call state.2 txn' h
  last n state x x' hx hresponse hbacking v txn' h := by
    obtain ⟨events, hlogs, hstarts, hserved⟩ := hx v txn' h
    exact ⟨events, hbacking ▸ hlogs, Nat.le_trans hstarts (Nat.le_add_left ..),
      hserved.last hresponse hbacking⟩
  again n state x w' y hx hretry hkeeps hbacking hy v txn' h := by
    obtain ⟨events, hlogs, hstarts, hserved⟩ := hx v txn' h
    cases hserved with
    | alike _ _ hcode _ =>
        rw [RetryConfig.retries_of_not_transient config hcode] at hretry
        cases hretry
    | failed code context _ hstore _ _ hnone =>
        rw [← hbacking] at hlogs hstore
        have htwins := h.of_keeps hkeeps (.refl v) (hstore.trans h.store)
          h.faultless
        obtain ⟨later, hlogs', hstarts', hserved'⟩ := hy v txn' htwins
        refine ⟨later ++ events, hlogs.trans hlogs', ?_,
          hserved'.after hlogs hstore hnone⟩
        rw [List.countP_append]
        omega

-- ================================================== callers

/-- What a caller gets of a service whose store fails begins and commits:
a response, while the store logs some events. -/
structure Transparent (w : World) (call : Call)
    (response : Response call.Payload) (events : List StoreEvent) :
    Prop where
  answer : ∃ pauses,
    (w.answerCall false call).2 = .response ⟨call, response⟩ pauses
  logs : w.backing.Logs (w.answerCall false call).1.backing events
  /-- The attempts come to an end. -/
  attempts : events.countP StoreEvent.isStart ≤ w.config.retry.maxAttempts
  /-- Nothing is carried out twice. -/
  once : events.countP StoreEvent.isGrantedCommit ≤ 1
  /-- It is as if the handler had been called where nothing fails; or else
  nothing is done, and the response tells of the last failure. -/
  outcome :
    ((∃ pauses, (w.faultless.answerCall true call).2
          = .response ⟨call, response⟩ pauses)
        ∧ (w.answerCall false call).1.backing.store
          = (w.faultless.answerCall true call).1.backing.store)
      ∨ ((w.answerCall false call).1.backing.store = w.backing.store
        ∧ ∃ code context, code ∈ w.backing.faults.codes
          ∧ events.head?.bind StoreEvent.failure? = some code
          ∧ response = ⟨⟨w.config.retry.terminal code,
            (ServiceError.store code context).message⟩, call.noPayload⟩)

/-- Callers of a calm service do not notice failures of its store, but for
the last one if all attempts fail. -/
theorem served_despite_failures {w : World} (hcalm : w.IsCalm)
    (hreplay : w.config.replay.enabled = false) (call : Call) :
    ∃ response events, w.Transparent call response events := by
  have htwins := twins_faultless hcalm
  obtain ⟨⟨pauses, hanswer⟩, hbacking⟩ := w.answerCall_eq false call
  obtain ⟨⟨pauses', hanswer'⟩, hbacking'⟩ := w.faultless.answerCall_eq true call
  have hproxied : w.respond false call = _ :=
    runForeground_ofScript (asks_serve hreplay call) hcalm.lone
  have hdirect : w.faultless.respond true call = _ :=
    runForeground_ofScript (asks_attempt w.config.lock call) htwins.calm'.lone
  rw [serve_eq hreplay] at hproxied
  obtain ⟨events, hlogs, hstarts, hserved⟩ :=
    (carries_served w.config.retry w.config.lock call).withRetries call.method
      (w, none) w.faultless none htwins
  rw [hproxied] at hanswer hbacking
  rw [hdirect] at hanswer' hbacking'
  refine ⟨_, events, ⟨pauses, hanswer⟩, hbacking ▸ hlogs, hstarts, ?_, ?_⟩
  · cases hserved with
    | alike _ _ _ hcommits => exact hcommits
    | failed _ _ _ _ _ _ hnone =>
        exact Nat.le_trans (Nat.le_of_eq hnone) (Nat.zero_le 1)
  · rw [hbacking, hbacking']
    cases hserved with
    | alike hresult hstore _ _ =>
        exact .inl ⟨⟨pauses', hresult ▸ hanswer'⟩, hstore⟩
    | failed code context hresult hstore hlast hcode _ =>
        exact .inr ⟨hstore, code, context, hcode, hlast, hresult⟩

/-- A service whose store fails a begin and then a commit. -/
def failsTwice : World where
  config := {}
  backing :=
    { faults := { starts := [.retryableCreate], commits := [.conflict] } }

/-- A load takes the lock of a table. -/
def lockOfTable : Call :=
  .acquireLock { instanceName := "warehouse", table := ⟨1⟩, lockId := 7,
                 initiator := 5 }

/-- The third attempt stores the record of the lock, as the only one would
where nothing fails. -/
theorem served_despite_failures_twice :
    failsTwice.IsCalm ∧ failsTwice.config.replay.enabled = false
      ∧ (∃ response events,
        failsTwice.Transparent lockOfTable response events)
      ∧ (failsTwice.answerCall false lockOfTable).1.backing.log.countP
          StoreEvent.isStart = 3
      ∧ (failsTwice.answerCall false lockOfTable).1.backing.store.live.keys
        = [.ofText ((LockScope.table ⟨1⟩).key ⟨"warehouse"⟩)]
      ∧ (failsTwice.faultless.answerCall true lockOfTable).1.backing.store.live
        = (failsTwice.answerCall false lockOfTable).1.backing.store.live := by
  have hcalm : failsTwice.IsCalm := ⟨⟨rfl, rfl, rfl, rfl, rfl⟩, rfl, rfl⟩
  refine ⟨hcalm, rfl, served_despite_failures hcalm rfl _, ?_, ?_, ?_⟩ <;>
    decide +kernel

end World

end MergeOnWrite
