/-
The configuration of the service: retries, leases, and the replay of
requests.

Every field has a default and a setting that overrides it. Settings are
read in the order of the table, so the first one that cannot be read
decides the failure; then the whole is checked.

| Setting | Field |
|---|---|
| `NIMBUS_TXN_STORE_RETRY` | `retry.enabled` |
| `NIMBUS_TXN_STORE_RETRY_TIMES` | `retry.maxRetries` |
| `NIMBUS_TXN_STORE_RETRY_BASE_INTERVAL_MS` | `retry.baseIntervalMs` |
| `NIMBUS_RETRY_TXN_CONFLICT` | `retry.retryConflict` |
| `NIMBUS_DELETE_BITMAP_LOCK_V2_ALLOW_LIST` | `lock.allowList` |
| `NIMBUS_DELETE_BITMAP_LOCK_EXPIRATION_SECS` | `lock.leaseSecs` |
| `NIMBUS_IDEMPOTENT_REPLAY_ENABLED` | `replay.enabled` |
| `NIMBUS_IDEMPOTENT_REPLAY_PROBABILITY` | `replay.probability` |
| `NIMBUS_IDEMPOTENT_REPLAY_DELAY_BASE_MS` | `replay.delayBaseMs` |
| `NIMBUS_IDEMPOTENT_REPLAY_DELAY_RANGE_MS` | `replay.delayRangeMs` |
| `NIMBUS_IDEMPOTENT_REPLAY_EXCLUSION` | `replay.exclusion` |
-/
import MergeOnWrite.Decimal.Layout
import MergeOnWrite.Json.Record
import MergeOnWrite.Service.Code
import MergeOnWrite.Settings

namespace MergeOnWrite

-- ================================================== parts

/-- How requests that met a transient failure are tried again. -/
structure RetryConfig where
  enabled : Bool := true
  /-- How many attempts may follow the first one. -/
  maxRetries : UInt32 := 20
  /-- The unit of the waits between attempts. -/
  baseIntervalMs : UInt64 := 500
  /-- Whether a conflict counts as transient. -/
  retryConflict : Bool := true
deriving DecidableEq, Repr, Inhabited

/-- How the update lock is kept. -/
structure LockConfig where
  /-- The instances that use the second version of the protocol. -/
  allowList : String := ""
  /-- The lease of requests that ask for none. -/
  leaseSecs : UInt64 := 10
deriving DecidableEq, Repr, Inhabited

/-- How successful requests are replayed to see whether they are
idempotent. -/
structure ReplayConfig where
  enabled : Bool := false
  /-- The chance that a successful request is replayed. -/
  probability : Float := 0.01
  delayBaseMs : UInt64 := 300
  /-- How far the delay may lie from its base. -/
  delayRangeMs : UInt64 := 200
  /-- The methods that are never replayed. -/
  exclusion : List String := []
deriving Inhabited

def ReplayConfig.excludes (config : ReplayConfig) (method : String) : Bool :=
  config.exclusion.contains method

/-- The configuration of the service. -/
structure ServiceConfig where
  retry : RetryConfig := {}
  lock : LockConfig := {}
  replay : ReplayConfig := {}
deriving Inhabited

-- ================================================== checks

namespace ServiceConfig

/-- Checks the configuration: the first rule it breaks decides the
error. -/
def check (config : ServiceConfig) : Except ServiceError Unit :=
  if config.retry.enabled ∧ config.retry.baseIntervalMs = 0 then
    .error (.invalidArgument
      ("NIMBUS_TXN_STORE_RETRY_BASE_INTERVAL_MS must be positive when retry "
        ++ "is enabled"))
  else if config.lock.leaseSecs = 0 then
    .error (.invalidArgument
      "NIMBUS_DELETE_BITMAP_LOCK_EXPIRATION_SECS must be positive")
  else if 0.0 ≤ config.replay.probability
      ∧ config.replay.probability ≤ 1.0 then .ok ()
  else
    .error (.invalidArgument
      ("NIMBUS_IDEMPOTENT_REPLAY_PROBABILITY must be within [0, 1], got "
        ++ Decimal.message config.replay.probability))

def ofSettings (settings : Settings) : Except ServiceError ServiceConfig := do
  let failing {α : Type} : Except Failure α → Except ServiceError α :=
    Except.mapError ServiceError.ofFailure
  let base : ServiceConfig := {}
  let retryEnabled ← failing (settings.bool? "NIMBUS_TXN_STORE_RETRY")
  let times ← failing (settings.uint64? "NIMBUS_TXN_STORE_RETRY_TIMES")
  let maxRetries ← match times with
    | none => pure base.retry.maxRetries
    | some n =>
      if n.toNat < UInt32.size then pure n.toUInt32
      else throw (.invalidArgument
        ("NIMBUS_TXN_STORE_RETRY_TIMES out of range: " ++ toString n.toNat))
  let interval ← failing
    (settings.uint64? "NIMBUS_TXN_STORE_RETRY_BASE_INTERVAL_MS")
  let retryConflict ← failing (settings.bool? "NIMBUS_RETRY_TXN_CONFLICT")
  let allowList := settings.string? "NIMBUS_DELETE_BITMAP_LOCK_V2_ALLOW_LIST"
  let leaseSecs ← failing
    (settings.uint64? "NIMBUS_DELETE_BITMAP_LOCK_EXPIRATION_SECS")
  let replayEnabled ← failing
    (settings.bool? "NIMBUS_IDEMPOTENT_REPLAY_ENABLED")
  let probability ← failing
    (settings.float? "NIMBUS_IDEMPOTENT_REPLAY_PROBABILITY")
  let delayBase ← failing
    (settings.uint64? "NIMBUS_IDEMPOTENT_REPLAY_DELAY_BASE_MS")
  let delayRange ← failing
    (settings.uint64? "NIMBUS_IDEMPOTENT_REPLAY_DELAY_RANGE_MS")
  let exclusion := settings.string? "NIMBUS_IDEMPOTENT_REPLAY_EXCLUSION"
  let config : ServiceConfig := {
    retry := {
      enabled := retryEnabled.getD base.retry.enabled
      maxRetries
      baseIntervalMs := interval.getD base.retry.baseIntervalMs
      retryConflict := retryConflict.getD base.retry.retryConflict }
    lock := {
      allowList := allowList.getD base.lock.allowList
      leaseSecs := leaseSecs.getD base.lock.leaseSecs }
    replay := {
      enabled := replayEnabled.getD base.replay.enabled
      probability := probability.getD base.replay.probability
      delayBaseMs := delayBase.getD base.replay.delayBaseMs
      delayRangeMs := delayRange.getD base.replay.delayRangeMs
      exclusion :=
        (exclusion.map (Text.items ',')).getD base.replay.exclusion } }
  config.check
  return config

end ServiceConfig

-- ================================================== records

def RetryConfig.toJson (config : RetryConfig) : Json :=
  .ofMembers
    [("enabled", .bool config.enabled),
      ("max_retries", .ofInt config.maxRetries.toNat),
      ("base_interval_ms", .ofInt config.baseIntervalMs.toNat),
      ("retry_txn_conflict", .bool config.retryConflict)]

def RetryConfig.ofJson? (value : Json) : Option RetryConfig := do
  match ← value.fields? ["enabled", "max_retries", "base_interval_ms",
      "retry_txn_conflict"] with
  | [enabled, maxRetries, interval, conflict] =>
    return ⟨← enabled.bool?, ← maxRetries.uint32?, ← interval.uint64?,
      ← conflict.bool?⟩
  | _ => none

def LockConfig.toJson (config : LockConfig) : Json :=
  .ofMembers
    [("v2_allow_list", .ofText config.allowList),
      ("default_expiration_secs", .ofInt config.leaseSecs.toNat)]

def LockConfig.ofJson? (value : Json) : Option LockConfig := do
  match ← value.fields? ["v2_allow_list", "default_expiration_secs"] with
  | [allowList, leaseSecs] =>
    return ⟨← allowList.text?, ← leaseSecs.uint64?⟩
  | _ => none

/-- A floating-point number as a JSON value; what is not finite has no
spelling and becomes `null`. -/
def Json.ofFloat (x : Float) : Json :=
  ((Decimal.stored? x).map Json.number).getD .null

/-- The floating-point number of a JSON value. -/
def Json.float? : Json → Option Float
  | .number literal => Decimal.ofLiteral? literal
  | _ => none

def ReplayConfig.toJson (config : ReplayConfig) : Json :=
  .ofMembers
    [("enabled", .bool config.enabled),
      ("probability", .ofFloat config.probability),
      ("delay_base_ms", .ofInt config.delayBaseMs.toNat),
      ("delay_range_ms", .ofInt config.delayRangeMs.toNat),
      ("exclusion", .array (config.exclusion.map Json.ofText))]

def ReplayConfig.ofJson? (value : Json) : Option ReplayConfig := do
  match ← value.fields? ["enabled", "probability", "delay_base_ms",
      "delay_range_ms", "exclusion"] with
  | [enabled, probability, delayBase, delayRange, exclusion] =>
    return ⟨← enabled.bool?, ← probability.float?, ← delayBase.uint64?,
      ← delayRange.uint64?, ← (← exclusion.items?).mapM Json.text?⟩
  | _ => none

namespace ServiceConfig

def toJson (config : ServiceConfig) : Json :=
  .ofMembers
    [("retry", config.retry.toJson), ("lock", config.lock.toJson),
      ("replay", config.replay.toJson)]

def ofJson? (value : Json) : Option ServiceConfig := do
  match ← value.fields? ["retry", "lock", "replay"] with
  | [retry, lock, replay] =>
    return ⟨← RetryConfig.ofJson? retry, ← LockConfig.ofJson? lock,
      ← ReplayConfig.ofJson? replay⟩
  | _ => none

end ServiceConfig

end MergeOnWrite
