/-
Lock records and their transitions.

The record of a scope names the class that holds it, the participants
within the class, and when the lease ends. What a caller may do with a
scope is decided by the record alone: `acquire` and `release` answer what
to write, `holds` tells whether the lease of a participant is running.

| Record | A caller that acquires |
|---|---|
| absent | becomes the holder |
| expired | becomes the holder, whoever had it |
| running, same lock id and participant | extends the lease |
| running load, caller is a load | joins; the lock id stays |
| any other | is refused |
-/
import MergeOnWrite.Json.Record
import MergeOnWrite.Lock.Kind
import MergeOnWrite.Time.Stamp

namespace MergeOnWrite

/-- What the store keeps for a scope. -/
structure LockRecord where
  /-- The holder's class: a reserved number, or that of the first load. -/
  lockId : Int64
  /-- The participants that hold the lock. -/
  initiators : SortedSet Int64
  expiration : Instant
deriving DecidableEq

/-- How a request changed, or failed to change, a scope. -/
inductive LockOutcome where
  | acquired
  /-- An expired record was replaced. -/
  | takenOver
  /-- A load joined others, or a holder extended its lease. -/
  | joined
  /-- Another class holds the scope. -/
  | busy
  | released
  /-- The caller gave up what it did not hold. -/
  | staleRelease
deriving DecidableEq, Repr

/-- The word for an outcome in reports. -/
def LockOutcome.label : LockOutcome → String
  | .acquired => "acquired"
  | .takenOver => "taken_over"
  | .joined => "joined"
  | .busy => "busy"
  | .released => "released"
  | .staleRelease => "stale_release"

namespace LockRecord

-- ================================================== questions

/-- True from the end of the lease on. -/
def isExpired (record : LockRecord) (now : Instant) : Bool :=
  record.expiration ≤ now

/-- True when loads hold the scope. -/
def isLoad (record : LockRecord) : Bool := 0 < record.lockId

/-- True when the record lists a participant. -/
def lists (record : LockRecord) (initiator : Int64) : Bool :=
  (record.initiators.get? initiator).isSome

/-- True when the class of a caller holds the scope; all loads are of one
class. -/
def isHeldBy (record : LockRecord) (kind : LockKind) : Bool :=
  if kind.isLoad then record.isLoad else record.lockId = kind.lockId

/-- True when a participant holds the scope and its lease runs. -/
def holds (current : Option LockRecord) (kind : LockKind) (initiator : Int64)
    (now : Instant) : Bool :=
  current.any fun record =>
    !record.isExpired now && record.isHeldBy kind && record.lists initiator

-- ================================================== transitions

/-- The record of a class with one participant. -/
def fresh (kind : LockKind) (initiator : Int64) (expiration : Instant) :
    LockRecord :=
  ⟨kind.lockId, SortedSet.ofList [initiator], expiration⟩

/-- The record with one more participant; the lease gets no shorter. -/
def join (record : LockRecord) (initiator : Int64) (expiration : Instant) :
    LockRecord :=
  { record with
    initiators := record.initiators.insert initiator ()
    expiration := record.expiration.latest expiration }

/-- What an attempt to acquire a scope comes to. -/
inductive Acquisition where
  /-- The caller has the scope once this record is stored. -/
  | granted (record : LockRecord) (outcome : LockOutcome)
  | busy (holder : LockRecord)
deriving DecidableEq

/-- Decides an attempt to acquire a scope. -/
def acquire (current : Option LockRecord) (kind : LockKind)
    (initiator : Int64) (now expiration : Instant) : Acquisition :=
  match current with
  | none => .granted (fresh kind initiator expiration) .acquired
  | some record =>
    if record.isExpired now then
      .granted (fresh kind initiator expiration) .takenOver
    else if record.lockId = kind.lockId ∧ record.lists initiator
        ∨ kind.isLoad ∧ record.isLoad then
      .granted (record.join initiator expiration) .joined
    else .busy record

/-- Why giving up a scope changes nothing. -/
inductive StaleReason where
  | noRecord
  | otherHolder
  | notListed
deriving DecidableEq, Repr

def StaleReason.message : StaleReason → String
  | .noRecord => "no lock record"
  | .otherHolder => "lock is held by another holder"
  | .notListed => "initiator does not hold the lock"

/-- What giving up a scope comes to. -/
inductive Release where
  /-- The last participant left: no record stays. -/
  | delete
  | rewrite (record : LockRecord)
  | stale (reason : StaleReason)
deriving DecidableEq

/-- Decides what giving up a scope comes to, whether or not the lease is
running. -/
def release (current : Option LockRecord) (kind : LockKind)
    (initiator : Int64) : Release :=
  match current with
  | none => .stale .noRecord
  | some record =>
    if !record.isHeldBy kind then .stale .otherHolder
    else if !record.lists initiator then .stale .notListed
    else
      let rest := record.initiators.erase initiator
      if rest.isEmpty then .delete
      else .rewrite { record with initiators := rest }

-- ================================================== texts

def toJson (record : LockRecord) : Json :=
  .ofMembers
    [("lock_id", .ofInt record.lockId.toInt),
      ("initiators",
        .array (record.initiators.keys.map fun i => .ofInt i.toInt)),
      ("expiration", .ofText record.expiration.stamp)]

def ofJson? (value : Json) : Option LockRecord := do
  match ← value.fields? ["lock_id", "initiators", "expiration"] with
  | [lockId, initiators, expiration] =>
    return {
      lockId := ← lockId.int64?
      initiators := .ofList (← (← initiators.items?).mapM Json.int64?)
      expiration := ← Instant.read? (← expiration.text?).toList }
  | _ => none

def encode (record : LockRecord) : Bytes := record.toJson.toBytes

def decode? (bytes : Bytes) : Option LockRecord := do
  ofJson? (← Json.ofBytes? bytes)

/-- The participants between braces. -/
def initiatorsMessage (record : LockRecord) : String :=
  "\x7b" ++ ", ".intercalate
    (record.initiators.keys.map fun i => toString i.toInt) ++ "\x7d"

/-- The words for what a scope holds in messages. -/
def message : Option LockRecord → String
  | none => "None"
  | some record =>
    "Some(LockRecord \x7b lock_id: " ++ toString record.lockId.toInt
      ++ ", initiators: " ++ record.initiatorsMessage
      ++ ", expiration: " ++ record.expiration.stamp ++ " \x7d)"

end LockRecord

end MergeOnWrite
