/-
Status codes of the service, and the errors of its handlers.

Every response carries a status: a code and, unless it is `OK`, a
message. A code that the store reports transiently has a terminal form,
which is what the caller sees once the retries are used up.
-/
import MergeOnWrite.Failure

namespace MergeOnWrite

/-- The outcome of a request. -/
inductive ServiceCode where
  | ok
  | invalidArgument
  | protocolVersionMismatch
  | lockConflict
  | lockExpired
  | notFound
  | conflict
  | tooOld
  | getRetryable
  | commitRetryable
  | createRetryable
  | getFailed
  | commitFailed
  | createFailed
  | conflictRetriesExceeded
  | internal
deriving DecidableEq, Repr, Inhabited

namespace ServiceCode

def all : List ServiceCode :=
  [.ok, .invalidArgument, .protocolVersionMismatch, .lockConflict,
    .lockExpired, .notFound, .conflict, .tooOld, .getRetryable,
    .commitRetryable, .createRetryable, .getFailed, .commitFailed,
    .createFailed, .conflictRetriesExceeded, .internal]

def name : ServiceCode → String
  | .ok => "OK"
  | .invalidArgument => "INVALID_ARGUMENT"
  | .protocolVersionMismatch => "PROTOCOL_VERSION_MISMATCH"
  | .lockConflict => "LOCK_CONFLICT"
  | .lockExpired => "LOCK_EXPIRED"
  | .notFound => "NOT_FOUND"
  | .conflict => "KV_TXN_CONFLICT"
  | .tooOld => "KV_TXN_TOO_OLD"
  | .getRetryable => "KV_TXN_STORE_GET_RETRYABLE"
  | .commitRetryable => "KV_TXN_STORE_COMMIT_RETRYABLE"
  | .createRetryable => "KV_TXN_STORE_CREATE_RETRYABLE"
  | .getFailed => "KV_TXN_GET_ERR"
  | .commitFailed => "KV_TXN_COMMIT_ERR"
  | .createFailed => "KV_TXN_CREATE_ERR"
  | .conflictRetriesExceeded => "KV_TXN_CONFLICT_RETRY_EXCEEDED_MAX_TIMES"
  | .internal => "INTERNAL_ERROR"

def ofName? (name : String) : Option ServiceCode :=
  all.find? (·.name = name)

/-- True for codes of failures that the store calls retryable, conflicts
and old age apart. -/
def isStoreRetryable : ServiceCode → Bool
  | .getRetryable | .commitRetryable | .createRetryable => true
  | _ => false

/-- True for codes that the store reports transiently. -/
def isTransient (code : ServiceCode) : Bool :=
  code == .conflict || code == .tooOld || code.isStoreRetryable

/-- The terminal form of a code; a code without one is its own. -/
def exhausted : ServiceCode → ServiceCode
  | .getRetryable => .getFailed
  | .commitRetryable => .commitFailed
  | .createRetryable => .createFailed
  | .conflict => .conflictRetriesExceeded
  | code => code

def ofStore : StoreCode → ServiceCode
  | .conflict => .conflict
  | .tooOld => .tooOld
  | .retryableGet => .getRetryable
  | .retryableCommit => .commitRetryable
  | .retryableCreate => .createRetryable
  | .other => .internal

end ServiceCode

/-- What a handler can fail with. -/
inductive ServiceError where
  | invalidArgument (message : String)
  | versionMismatch (message : String)
  /-- An incompatible holder has the lock. -/
  | lockBusy (message : String)
  /-- The caller does not hold the lock it claims. -/
  | lockExpired (message : String)
  | notFound (what : String)
  | store (code : StoreCode) (context : String)
  | serialization (message : String)
  | internal (message : String)
deriving DecidableEq, Repr

namespace ServiceError

def message : ServiceError → String
  | .invalidArgument m => "invalid argument: " ++ m
  | .versionMismatch m => "lock version mismatch: " ++ m
  | .lockBusy m => "lock is busy: " ++ m
  | .lockExpired m => "lock expired: " ++ m
  | .notFound what => "not found: " ++ what
  | .store code context => context ++ ": " ++ code.message
  | .serialization m => "serialization error: " ++ m
  | .internal m => "internal error: " ++ m

def code : ServiceError → ServiceCode
  | .invalidArgument _ => .invalidArgument
  | .versionMismatch _ => .protocolVersionMismatch
  | .lockBusy _ => .lockConflict
  | .lockExpired _ => .lockExpired
  | .notFound _ => .notFound
  | .store code _ => .ofStore code
  | .serialization _ => .internal
  | .internal _ => .internal

/-- The error that reports a failure from below. -/
def ofFailure : Failure → ServiceError
  | .invalidId m => .invalidArgument m
  | .invalidInput m => .invalidArgument m
  | .store code context => .store code context
  | .serialization m => .serialization m
  | .notFound what => .notFound what
  | .internal m => .internal m

end ServiceError

/-- The status of a response. -/
structure Status where
  code : ServiceCode := .ok
  /-- What went wrong; empty on success. -/
  msg : String := ""
deriving DecidableEq, Repr, Inhabited

namespace Status

def ofError (e : ServiceError) : Status := ⟨e.code, e.message⟩

/-- True when the code is `OK`. -/
def isOk (s : Status) : Bool := s.code == .ok

end Status

end MergeOnWrite
