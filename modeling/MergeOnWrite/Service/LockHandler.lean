/-
The handlers of the update lock.

Both handlers read the records of all scopes of a request within one
transaction and commit all changes at once, so a request that names many
tablets is granted on all of them or on none.
-/
import MergeOnWrite.Service.Call
import MergeOnWrite.Service.Handler

namespace MergeOnWrite.Handler

-- ================================================== checks

/-- The version of the protocol that an instance uses, which must be the
one that the caller takes for granted. -/
def versionOf (i : InstanceId) (taken : Option LockVersion) :
    Handler LockVersion := do
  let routed ← ask (.route i)
  match taken with
  | none => return routed
  | some version =>
    if version = routed then return routed
    else throw (.versionMismatch
      ("instance " ++ i.text ++ " uses delete bitmap lock " ++ routed.name
        ++ ", request uses " ++ version.name))

def leaseEnd (now : Instant) (secs : UInt64) : Except ServiceError Instant :=
  if secs = 0 then .error (.invalidArgument "lock expiration must be positive")
  else
    match now.addSeconds? secs.toNat with
    | some expiration => .ok expiration
    | none => .error (.invalidArgument
        ("lock expiration " ++ toString secs.toNat ++ "s is out of range"))

-- ================================================== acquiring

/-- What a request is granted on one scope. -/
structure Grant where
  scope : LockScope
  record : LockRecord
  outcome : LockOutcome

/-- The words of a refusal: who holds the scope and who asked for it. -/
def busyMessage (scope : LockScope) (holder : LockRecord) (kind : LockKind)
    (initiator : Int64) : String :=
  scope.message ++ " is held by lock_id=" ++ toString holder.lockId.toInt
    ++ " initiators=" ++ holder.initiatorsMessage ++ " until "
    ++ holder.expiration.message ++ ", requested by " ++ kind.message
    ++ " initiator=" ++ toString initiator.toInt

/-- Decides on the scopes one after another; the first one that another
class holds refuses the request. -/
def grants (i : InstanceId) (kind : LockKind) (initiator : Int64)
    (now expiration : Instant) : List LockScope → Handler (List Grant)
  | [] => return []
  | scope :: rest => do
    let current ← readLock i scope
    match LockRecord.acquire current kind initiator now expiration with
    | .busy holder => do
      ask (.report (.lock .busy))
      throw (.lockBusy (busyMessage scope holder kind initiator))
    | .granted record outcome => do
      return ⟨scope, record, outcome⟩
        :: (← grants i kind initiator now expiration rest)

/-- Takes the update lock, joins its holders, or extends its lease. -/
def acquireLock (config : LockConfig) (r : AcquireLock) :
    Handler (List TabletStats) := do
  let i ← instanceOf r.instanceName
  let kind ← LockKind.ofTakingLockId r.lockId
  let version ← versionOf i r.version
  let scopes ← LockScope.ofRequest version r.table r.tablets
  let now ← ask .now
  let expiration ← leaseEnd now (r.leaseSecs.getD config.leaseSecs)
  start
  let granted ← grants i kind r.initiator now expiration scopes
  granted.forM fun g => ask (.put (.ofText (g.scope.key i)) g.record.encode)
  let stats ←
    if r.wantsStats then r.tablets.mapM (readStats i r.table) else pure []
  commit "commit delete bitmap update lock"
  granted.forM fun g => ask (.report (.lock g.outcome))
  return stats

-- ================================================== releasing

/-- Gives up the scopes one after another and tells what became of
each. -/
def releases (i : InstanceId) (kind : LockKind) (initiator : Int64) :
    List LockScope → Handler (List LockOutcome)
  | [] => return []
  | scope :: rest => do
    let key := Bytes.ofText (scope.key i)
    let current ← readLock i scope
    let outcome ← match LockRecord.release current kind initiator with
      | .delete => do
        ask (.remove key)
        pure LockOutcome.released
      | .rewrite record => do
        ask (.put key record.encode)
        pure LockOutcome.released
      | .stale _ => pure LockOutcome.staleRelease
    return outcome :: (← releases i kind initiator rest)

/-- Ends the caller's part in the update lock. A caller that has no part
in it changes nothing, which is no error. -/
def releaseLock (r : ReleaseLock) : Handler Unit := do
  let i ← instanceOf r.instanceName
  let kind ← LockKind.ofTakingLockId r.lockId
  let version ← versionOf i r.version
  let scopes ← LockScope.ofRequest version r.table r.tablets
  start
  let outcomes ← releases i kind r.initiator scopes
  commit "commit delete bitmap update lock release"
  outcomes.forM fun outcome => ask (.report (.lock outcome))

end MergeOnWrite.Handler
