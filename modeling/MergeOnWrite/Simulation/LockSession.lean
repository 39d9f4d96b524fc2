/-
Sessions on one lock record, with a clock that is moved by hand.
-/
import MergeOnWrite.Lock.Record

namespace MergeOnWrite

/-- A step of a session on a lock record. -/
inductive LockStep where
  /-- Moves the clock, forward or back. -/
  | advance (ms : Int)
  | set (record : Option LockRecord)
  | acquire (lockId initiator : Int64) (ttlMs : Int)
  | release (lockId initiator : Int64)
  | holds (lockId initiator : Int64)

/-- The answer to a step. -/
inductive LockAnswer where
  | now (now : Instant)
  | record (record : Option LockRecord)
  | acquisition (acquisition : LockRecord.Acquisition)
  | release (release : LockRecord.Release)
  | holds (yes : Bool)
  | refused (error : ServiceError)

/-- A session on a lock record. -/
structure LockSession where
  record : Option LockRecord := none
  now : Instant := .ofMillis 1700000000000

namespace LockSession

def withKind (s : LockSession) (lockId : Int64)
    (work : LockKind → LockSession × LockAnswer) : LockSession × LockAnswer :=
  match LockKind.ofLockId lockId with
  | .error e => (s, .refused e)
  | .ok kind => work kind

/-- The session after an attempt to acquire the record's scope. -/
def afterAcquisition (s : LockSession) : LockRecord.Acquisition → LockSession
  | .granted record _ => { s with record := some record }
  | .busy _ => s

def afterRelease (s : LockSession) : LockRecord.Release → LockSession
  | .delete => { s with record := none }
  | .rewrite record => { s with record := some record }
  | .stale _ => s

def step (s : LockSession) : LockStep → LockSession × LockAnswer
  | .advance ms =>
    let now := s.now.addMillis ms
    ({ s with now }, .now now)
  | .set record => ({ s with record }, .record record)
  | .acquire lockId initiator ttlMs => s.withKind lockId fun kind =>
    let acquisition := LockRecord.acquire s.record kind initiator s.now
      (s.now.addMillis ttlMs)
    (s.afterAcquisition acquisition, .acquisition acquisition)
  | .release lockId initiator => s.withKind lockId fun kind =>
    let release := LockRecord.release s.record kind initiator
    (s.afterRelease release, .release release)
  | .holds lockId initiator => s.withKind lockId fun kind =>
    (s, .holds (LockRecord.holds s.record kind initiator s.now))

def answers (s : LockSession) : List LockStep → List LockAnswer
  | [] => []
  | step :: rest =>
    let (s, answer) := s.step step
    answer :: s.answers rest

end LockSession

end MergeOnWrite
