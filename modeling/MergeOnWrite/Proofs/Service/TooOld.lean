/-
Transactions that are too old, and the one retry for them.

A store that finds a transaction too old is asked again once at most. What the
loop of attempts goes by is how often the request was attempted at all, and not
how often its transaction was too old: there is one count of retries for all
codes. So the one retry is for requests that meet this failure at their first
attempt. Who failed before, for whatever reason that goes away, and then finds
the transaction too old, is not granted another attempt, however many retries
are left.

# Main statements

- `stopsAt_tooOld_iff`: when the loop ends with a transaction that is too old.
- `too_old_retried_first`: a transaction that is too old is followed by
  another attempt exactly if it is that of the first one and there are
  retries, so never a second time.
- `too_old_after_failure`: a failed commit, and then a transaction that is too
  old: with four retries left nothing more is attempted.
-/
import MergeOnWrite.Proofs.Service.Retry

namespace MergeOnWrite

variable {π : Type} {config : RetryConfig} {method : String}
  {attempt : Nat → Script (Response π)}

-- ================================================== the count of retries

/-- After a transaction that was too old the loop ends, unless nothing was
retried yet and something may be. -/
theorem RetryConfig.stopsAt_tooOld_iff {retries : Nat} :
    config.StopsAt retries .tooOld
      ↔ ¬(retries = 0 ∧ 0 < config.maxRetries.toNat) := by
  have hretryable : config.isRetryable .tooOld = true := rfl
  unfold StopsAt
  rw [hretryable]
  simp only [Bool.true_eq_false, false_or, true_and]
  omega

namespace Lineage

variable {l : Lineage π} {log : List Exchange} {response : Response π}

/-- True of the attempts at a request that make up a conversation, which comes
to a response. -/
structure Explains (l : Lineage π) (config : RetryConfig) (method : String)
    (attempt : Nat → Script (Response π)) (log : List Exchange)
    (response : Response π) : Prop where
  fits : l.Fits config attempt 0
  log_eq : log = l.log config method
  response_eq : response = config.last (l.attempts l.last).response

/-- Another attempt follows exactly where the loop does not end. -/
theorem Fits.lt_last_iff (h : l.Fits config attempt 0) {k : Nat}
    (hk : k ≤ l.last) :
    k < l.last ↔ ¬config.StopsAt k (l.attempts k).code := by
  constructor
  · exact h.goesOn k (Nat.zero_le k)
  · intro hgoesOn
    apply Nat.lt_of_le_of_ne hk
    intro heq
    apply hgoesOn
    rw [heq]
    exact h.stops

/-- The terminal form of the code of a transaction that is too old is that
code. -/
theorem Explains.code_of_tooOld
    (h : l.Explains config method attempt log response)
    (hcode : (l.attempts l.last).code = .tooOld) :
    response.status.code = .tooOld := by
  rw [h.response_eq, (config.last_eq _).2.2,
    show (l.attempts l.last).response.status.code = .tooOld from hcode]
  split <;> rfl

end Lineage

-- ================================================== the one retry

/-- Where there are retries, every conversation of the loop is one of attempts,
and whichever they are: an attempt that found its transaction too old is
followed by another one exactly if it was the first of all and there may be a
retry. So a second transaction that is too old is never followed by an attempt,
and an attempt that is not followed tells callers that it was too old. -/
theorem too_old_retried_first (henabled : config.enabled = true)
    (method : String) (attempt : Nat → Script (Response π))
    (log : List Exchange) (response : Response π) :
    ((Script.withRetries config method attempt).Yields log response
        ↔ ∃ l : Lineage π, l.Explains config method attempt log response)
      ∧ ∀ l : Lineage π, l.Explains config method attempt log response →
        ∀ k ≤ l.last, (l.attempts k).code = .tooOld →
          (k < l.last ↔ k = 0 ∧ 0 < config.maxRetries.toNat)
          ∧ ((∃ j < k, (l.attempts j).code = .tooOld) → k = l.last)
          ∧ (k = l.last → response.status.code = .tooOld) := by
  constructor
  · rw [Script.yields_withRetries henabled]
    constructor
    · intro ⟨l, hfits, hlog, hresponse⟩
      exact ⟨l, hfits, hlog, hresponse⟩
    · intro ⟨l, h⟩
      exact ⟨l, h.fits, h.log_eq, h.response_eq⟩
  · intro l h k hk hcode
    have hfollowed : k < l.last ↔ k = 0 ∧ 0 < config.maxRetries.toNat := by
      rw [h.fits.lt_last_iff hk, hcode, RetryConfig.stopsAt_tooOld_iff, not_not]
    refine ⟨hfollowed, ?_, ?_⟩
    · intro ⟨j, hj, _⟩
      omega
    · intro hlast
      rw [hlast] at hcode
      exact h.code_of_tooOld hcode

/-- A store that finds the transaction too old twice. -/
def twiceTooOld : Lineage Nat :=
  ⟨fun k => ⟨[], ⟨⟨.tooOld, "stale"⟩, k⟩⟩, 7, 1⟩

/-- The first time another attempt follows, the second time none does. -/
theorem too_old_retried_first_twice :
    let config : RetryConfig := { maxRetries := 5, baseIntervalMs := 100 }
    (Script.withRetries config "read" fun k =>
        pure ⟨⟨.tooOld, "stale"⟩, k⟩).Yields
      (twiceTooOld.log config "read") ⟨⟨.tooOld, "stale"⟩, 1⟩
    ∧ 0 < twiceTooOld.last ∧ 1 = twiceTooOld.last := by
  intro config
  have hexplains : twiceTooOld.Explains config "read"
      (fun k => pure ⟨⟨.tooOld, "stale"⟩, k⟩) (twiceTooOld.log config "read")
      ⟨⟨.tooOld, "stale"⟩, 1⟩ := by
    refine ⟨⟨by decide, by decide, ?_, fun k _ _ => ⟨rfl, rfl⟩⟩, rfl, rfl⟩
    intro k _ hk
    obtain rfl : k = 0 := Nat.lt_one_iff.1 hk
    decide
  have henabled : config.enabled = true := rfl
  obtain ⟨hyields, hall⟩ := too_old_retried_first henabled "read"
    (fun k => pure ⟨⟨.tooOld, "stale"⟩, k⟩) (twiceTooOld.log config "read")
    ⟨⟨.tooOld, "stale"⟩, 1⟩
  refine ⟨hyields.2 ⟨twiceTooOld, hexplains⟩, ?_, ?_⟩
  · exact (hall twiceTooOld hexplains 0 (by decide) rfl).1.2
      ⟨rfl, by decide⟩
  · exact (hall twiceTooOld hexplains 1 (by decide) rfl).2.1 ⟨0, by decide, rfl⟩

/-- A commit fails in a way that goes away, the next transaction is too old,
and a third attempt would succeed. It is not made, whatever the surroundings
are, though of five retries one was made: callers get the response of the
second attempt, which is the first one whose transaction was too old. -/
theorem too_old_after_failure :
    let config : RetryConfig := { maxRetries := 5, baseIntervalMs := 100 }
    let code (k : Nat) : ServiceCode :=
      if k = 0 then .commitRetryable else if k = 1 then .tooOld else .ok
    config.enabled = true
      ∧ ∀ {σ : Type} (answer : σ → (q : Question) → σ × q.Answer) (s : σ),
        ((Script.withRetries config "read" fun k =>
            pure ⟨⟨code k, "stale"⟩, k⟩).run answer s).2
          = ⟨⟨.tooOld, "stale"⟩, 1⟩ :=
  ⟨rfl, fun _ _ => rfl⟩

end MergeOnWrite
