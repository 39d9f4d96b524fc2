/-
Attempts after a transient failure.

A request is attempted until its response is final or no attempt is
left. Between two attempts the caller waits; the wait doubles each time
and carries a random part that is drawn once per request. A store that
finds a transaction too old is asked a second time only.

| Code | Another attempt | Terminal code |
|---|---|---|
| retryable read, commit or creation | yes | its own |
| conflict | as configured | its own |
| too old | one | the same |
| any other | no | |
-/
import MergeOnWrite.Service.Config
import MergeOnWrite.Service.Script

namespace MergeOnWrite

namespace RetryConfig

/-- True for the codes that another attempt may follow. -/
def isRetryable (config : RetryConfig) : ServiceCode → Bool
  | .getRetryable | .commitRetryable | .createRetryable | .tooOld => true
  | .conflict => config.retryConflict
  | _ => false

/-- A product, or the greatest number if it is greater. -/
def satMul (a b : UInt64) : UInt64 :=
  .ofNat (min (a.toNat * b.toNat) (UInt64.size - 1))

/-- A sum, or the greatest number if it is greater. -/
def satAdd (a b : UInt64) : UInt64 :=
  .ofNat (min (a.toNat + b.toNat) (UInt64.size - 1))

/-- How many units the wait before a retry has: each retry doubles it. -/
def waitUnits (retry : Nat) : UInt64 :=
  if retry < 64 then .ofNat (Nat.pow 2 retry) else .ofNat (UInt64.size - 1)

/-- The wait before a retry in milliseconds; retries count from zero. -/
def backoff (config : RetryConfig) (retry : Nat) (jitterMs : UInt64) :
    UInt64 :=
  satAdd (satMul (waitUnits retry) config.baseIntervalMs) jitterMs

end RetryConfig

namespace Response

variable {π : Type}

/-- The response with the terminal form of its code. -/
def exhausted (response : Response π) : Response π :=
  { response with
    status := { response.status with code := response.status.code.exhausted } }

end Response

namespace Script

variable {π : Type}

/-- Ends a request that met a transient failure with no attempt left. -/
def giveUp (method : String) (response : Response π) : Script (Response π) := do
  report (.exhausted method response.status.code.exhausted)
  return response.exhausted

/-- The random part of the waits: drawn at the first one. -/
def jitterOf : Option UInt64 → Script UInt64
  | none => question .jitter
  | some ms => .done ms

/-- Attempts a request that was retried `retries` times and may be retried
`left` times more. -/
def retrying (config : RetryConfig) (method : String)
    (attempt : Nat → Script (Response π)) (jitterMs : Option UInt64)
    (retries : Nat) : (left : Nat) → Script (Response π)
  | 0 => do
    let response ← attempt retries
    if config.isRetryable response.status.code then giveUp method response
    else return response
  | left + 1 => do
    let response ← attempt retries
    if config.isRetryable response.status.code then
      if response.status.code = .tooOld ∧ 1 ≤ retries then
        giveUp method response
      else do
        let ms ← jitterOf jitterMs
        let wait := config.backoff retries ms
        report (.retry method wait)
        question (.pause wait)
        retrying config method attempt (some ms) (retries + 1) left
    else return response

/-- Attempts a request as often as configured. Without retries the codes
that call for one still get their terminal form. -/
def withRetries (config : RetryConfig) (method : String)
    (attempt : Nat → Script (Response π)) : Script (Response π) :=
  if config.enabled then
    retrying config method attempt none 0 config.maxRetries.toNat
  else do
    let response ← attempt 0
    if response.status.code.isStoreRetryable then return response.exhausted
    else return response

end Script

end MergeOnWrite
