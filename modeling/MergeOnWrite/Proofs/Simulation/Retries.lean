/-
Attempts one after another, by a service that nobody disturbs.

Between two attempts nothing happens to the store. So what all attempts at
a request come to can be told from what a single one comes to
(`Carries`): the last one gets the terminal form of its code, and each
before it ended with a code that another attempt may follow.

# Main statements

- `Carries.retrying`: the induction on the number of attempts that are left.
- `Carries.withRetries`: what all attempts come to.
- `serve_eq`: without replays the service only attempts.
-/
import MergeOnWrite.Proofs.Service.Retry
import MergeOnWrite.Proofs.Simulation.Lone

namespace MergeOnWrite

namespace World

variable {π : Type} {config : RetryConfig}

-- ================================================== between attempts

/-- Between two attempts the store stays as it is. -/
theorem run_wait {α : Type} (config : RetryConfig) (method : String)
    (jitterMs : Option UInt64) (retries : Nat) (k : UInt64 → Script α)
    (w : World) (txn : Option Txn) :
    ∃ ms w', Program.run answerAlone (do
        let ms ← Script.jitterOf jitterMs
        Script.report (.retry method (config.backoff retries ms))
        Script.question (.pause (config.backoff retries ms))
        k ms) (w, txn) = (k ms).run answerAlone (w', txn)
      ∧ w.Keeps w' ∧ w'.backing = w.backing := by
  have hpause : ∀ (w : World) (ms : UInt64), ∃ w',
      (answerAlone (w, txn) (.pause ms)).1 = (w', txn)
        ∧ w.Keeps w' ∧ w'.backing = w.backing := by
    intro w ms
    refine ⟨(answerAlone (w, txn) (.pause ms)).1.1, ?_,
      keeps_answerAlone (w, txn) trivial, ?_⟩
    · simp only [answerAlone]
      split <;> rfl
    · simp only [answerAlone]
      split
      · rfl
      · exact backing_pass ..
  have hrest : ∀ ms, ∃ w', Program.run answerAlone (do
        Script.report (.retry method (config.backoff retries ms))
        Script.question (.pause (config.backoff retries ms))
        k ms) (w, txn) = (k ms).run answerAlone (w', txn)
      ∧ w.Keeps w' ∧ w'.backing = w.backing := by
    intro ms
    let event := Report.retry method (config.backoff retries ms)
    have hreport := keeps_answerAlone (w, txn) (q := .report event) trivial
    obtain ⟨w', hw', hkeeps, hbacking⟩ :=
      hpause (answerAlone (w, txn) (.report event)).1.1
        (config.backoff retries ms)
    exact ⟨w', congrArg ((k ms).run answerAlone) hw', hreport.trans hkeeps,
      hbacking⟩
  cases jitterMs with
  | none => exact ⟨w.jitterMs, hrest w.jitterMs⟩
  | some ms => exact ⟨ms, hrest ms⟩

/-- After the last attempt the store stays as it is. -/
theorem run_last (henabled : config.enabled) (method : String)
    (response : Response π) (state : World × Option Txn) :
    ∃ w', Program.run answerAlone
        (if config.isRetryable response.status.code
          then Script.giveUp method response else pure response) state
        = ((w', state.2), config.last response)
      ∧ w'.backing = state.1.backing := by
  rw [RetryConfig.last, RetryConfig.retries, if_pos henabled]
  split
  · exact ⟨_, rfl, rfl⟩
  · exact ⟨_, rfl, rfl⟩

-- ================================================== all attempts

/-- What leads from what one attempt comes to, to what some come to: an
attempt after which there is none, and one that others follow. -/
structure Carries (config : RetryConfig) (attempt : Script (Response π))
    (attempted : World × Option Txn → (World × Option Txn) × Response π → Prop)
    (ended : Nat → World × Option Txn → (World × Option Txn) × Response π →
      Prop) : Prop where
  asks : attempt.Asks Question.IsPlain
  attempt : ∀ state, attempted state (attempt.run answerAlone state)
  last : ∀ n state x x', attempted state x → x'.2 = config.last x.2 →
    x'.1.1.backing = x.1.1.backing → ended (n + 1) state x'
  again : ∀ n state x w y, attempted state x →
    config.retries x.2.status.code → state.1.Keeps w →
    w.backing = x.1.1.backing → ended n (w, x.1.2) y → ended (n + 1) state y

namespace Carries

variable {attempt : Script (Response π)}
  {attempted : World × Option Txn → (World × Option Txn) × Response π → Prop}
  {ended : Nat → World × Option Txn → (World × Option Txn) × Response π → Prop}

/-- What attempts come to of which some are left. -/
theorem retrying (h : Carries config attempt attempted ended)
    (henabled : config.enabled) (method : String) :
    ∀ (left retries : Nat) (jitterMs : Option UInt64)
      (state : World × Option Txn), ended (left + 1) state
        ((Script.retrying config method (fun _ => attempt) jitterMs retries
          left).run answerAlone state) := by
  have hend : ∀ (n : Nat) (state : World × Option Txn), ended (n + 1) state
      (Program.run answerAlone
        (if config.isRetryable (attempt.run answerAlone state).2.status.code
          then Script.giveUp method (attempt.run answerAlone state).2
          else pure (attempt.run answerAlone state).2)
        (attempt.run answerAlone state).1) := by
    intro n state
    obtain ⟨w', hrun, hbacking⟩ := run_last henabled method
      (attempt.run answerAlone state).2 (attempt.run answerAlone state).1
    rw [hrun]
    exact h.last n state _ _ (h.attempt state) rfl hbacking
  intro left
  induction left with
  | zero =>
      intro retries jitterMs state
      rw [Script.retrying_zero, Program.run_bind]
      exact hend 0 state
  | succ left ih =>
      intro retries jitterMs state
      rw [Script.retrying_succ, Program.run_bind]
      split
      · rename_i hretry
        obtain ⟨ms, w', hrun, hkeeps, hbacking⟩ := run_wait config method
          jitterMs retries (fun ms => Script.retrying config method
            (fun _ => attempt) (some ms) (retries + 1) left)
          (attempt.run answerAlone state).1.1
          (attempt.run answerAlone state).1.2
        rw [hrun]
        have hcode : config.retries
            (attempt.run answerAlone state).2.status.code := by
          rw [RetryConfig.retries, if_pos henabled]
          exact hretry.1
        exact h.again _ state _ w' _ (h.attempt state) hcode
          ((keeps_run h.asks state).trans hkeeps) hbacking
          (ih (retries + 1) (some ms) _)
      · exact hend _ state

/-- What all attempts at a request come to. -/
theorem withRetries (h : Carries config attempt attempted ended)
    (method : String) (state : World × Option Txn) :
    ended config.maxAttempts state
      ((Script.withRetries config method fun _ => attempt).run answerAlone
        state) := by
  rw [Script.withRetries, RetryConfig.maxAttempts]
  split
  · rename_i henabled
    exact h.retrying henabled method _ 0 none state
  · rename_i hdisabled
    have hrun : Program.run answerAlone (do
          let response ← attempt
          if response.status.code.isStoreRetryable
            then return response.exhausted else return response) state
        = ((attempt.run answerAlone state).1,
          config.last (attempt.run answerAlone state).2) := by
      refine (Program.run_bind ..).trans ?_
      rw [RetryConfig.last, RetryConfig.retries, if_neg hdisabled]
      split <;> rfl
    rw [hrun]
    exact h.last 0 state _ _ (h.attempt state) rfl rfl

end Carries

-- ================================================== requests

theorem asks_attempt (config : LockConfig) (call : Call) :
    (call.attempt config).Asks Question.IsPlain :=
  Script.asks_of_follows (call.follows_attempt config)

/-- An attempt takes no account of a transaction that was left open. -/
theorem run_fresh {α : Type} {mayWrite : Bool} {ends : TxnPhase → α → Prop}
    {fails : StoreCode → α → Prop} {s : Script α} :
    ∀ {w : World} (txn : Option Txn),
      Script.Follows mayWrite ends fails .before s →
      (s.run answerAlone (w, txn)).1.1 = (s.run answerAlone (w, none)).1.1
        ∧ (s.run answerAlone (w, txn)).2 = (s.run answerAlone (w, none)).2 := by
  induction s with
  | done a => exact fun _ _ => ⟨rfl, rfl⟩
  | ask q next ih =>
      rintro w txn ⟨phase, hphase, hnext⟩
      cases q with
      | start => exact ⟨rfl, rfl⟩
      | now | route | report =>
          obtain rfl := Option.some.inj hphase
          exact ih _ txn (hnext _)
      | _ => cases hphase

theorem asks_retrying {attempt : Nat → Script (Response π)}
    (hattempt : ∀ n, (attempt n).Asks Question.IsPlain) (method : String) :
    ∀ (left retries : Nat) (jitterMs : Option UInt64),
      (Script.retrying config method attempt jitterMs retries left).Asks
        Question.IsPlain := by
  have hlast : ∀ response : Response π, Program.Asks
      Question.IsPlain (if config.isRetryable response.status.code
        then Script.giveUp method response else pure response) := by
    intro response
    split
    · exact ⟨trivial, fun _ => trivial⟩
    · trivial
  intro left
  induction left with
  | zero =>
      intro retries jitterMs
      rw [Script.retrying_zero]
      exact (hattempt retries).bind hlast
  | succ left ih =>
      intro retries jitterMs
      rw [Script.retrying_succ]
      refine (hattempt retries).bind fun response => ?_
      split
      · cases jitterMs with
        | none =>
            exact ⟨trivial, fun ms => ⟨trivial, fun _ => ⟨trivial, fun _ =>
              ih (retries + 1) (some ms)⟩⟩⟩
        | some ms =>
            exact ⟨trivial, fun _ => ⟨trivial, fun _ =>
              ih (retries + 1) (some ms)⟩⟩
      · exact hlast response

/-- Without replays the service only attempts. -/
theorem serve_eq {config : ServiceConfig} (h : config.replay.enabled = false)
    (call : Call) :
    call.serve config = Script.withRetries config.retry call.method fun _ =>
      call.attempt config.lock := by
  have hoffer : ∀ status : Status,
      call.offerReplay config.replay status = pure () := by
    intro status
    rw [Call.offerReplay, ReplayConfig.admits, h]
    rfl
  refine Eq.trans ?_ (Program.bind_done _)
  refine congrArg (Program.bind _) (funext fun response => ?_)
  rw [hoffer]
  rfl

theorem asks_serve {config : ServiceConfig} (h : config.replay.enabled = false)
    (call : Call) : (call.serve config).Asks Question.IsPlain := by
  rw [serve_eq h, Script.withRetries]
  have hattempt := asks_attempt config.lock call
  split
  · exact asks_retrying (fun _ => hattempt) call.method _ 0 none
  · refine hattempt.bind fun response => ?_
    split <;> trivial

end World

end MergeOnWrite
