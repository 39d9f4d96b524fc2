/-
What handlers have in common: questions to the store with the errors of
their refusals, and the records they read.
-/
import MergeOnWrite.Service.Config
import MergeOnWrite.Service.Script
import MergeOnWrite.Service.TabletStats

namespace MergeOnWrite

/-- A handler: a script that ends early with an error or has a result. -/
abbrev Handler (α : Type) := ExceptT ServiceError Script α

namespace Handler

variable {α : Type}

def ask (q : Question) : Handler q.Answer := ExceptT.lift (.question q)

/-- Asks the store; `context` says what for if it refuses. -/
def fromStore (context : String) (s : Script (Except StoreCode α)) :
    Handler α :=
  .mk do return (← s).mapError (.store · context)

/-- Ends with the error that reports a failure, if there is one. -/
def check (result : Except Failure α) : Handler α :=
  .mk (.done (result.mapError .ofFailure))

def instanceOf (name : String) : Handler InstanceId :=
  check ((InstanceId.ofText name).mapError .ofIdError)

def rowsetOf (name : String) : Handler RowsetId :=
  check ((RowsetId.ofText name).mapError .ofIdError)

def start : Handler Unit :=
  fromStore "begin transaction" (.question .start)

/-- Reads a key; `context` says what for if the store refuses. -/
def get (context : String) (key : Bytes) : Handler (Option Bytes) :=
  fromStore context (.question (.get key))

/-- The entries whose keys extend a byte string. -/
def scan (context : String) (stem : Bytes) : Handler (List (Bytes × Bytes)) :=
  fromStore context (.question (.scan stem))

def commit (context : String) : Handler Unit :=
  fromStore context (.question .commit)

/-- A stored record: absent, or read from its bytes. -/
def stored (decode? : Bytes → Option α) (what : String) :
    Option Bytes → Handler (Option α)
  | none => return none
  | some bytes =>
    match decode? bytes with
    | some record => return some record
    | none => throw (.serialization ("malformed " ++ what))

def readLock (i : InstanceId) (scope : LockScope) :
    Handler (Option LockRecord) := do
  let bytes ← get "read delete bitmap update lock" (.ofText (scope.key i))
  stored LockRecord.decode? "lock record" bytes

/-- The statistics of a tablet; without a record the tablet is empty. -/
def readStats (i : InstanceId) (table : TableId) (tablet : TabletId) :
    Handler TabletStats := do
  let bytes ← get "read tablet stats" (.ofText (Key.stats i table tablet))
  let record ← stored TabletStats.decode? "tablet stats" bytes
  return record.getD { tablet := tablet.val }

/-- Changes the statistics of a tablet. No change leaves them unread. -/
def changeStats (i : InstanceId) (table : TableId) (tablet : TabletId)
    (entries rows : Int) : Handler Unit :=
  if entries = 0 ∧ rows = 0 then return ()
  else do
    let stats ← readStats i table tablet
    ask (.put (.ofText (Key.stats i table tablet))
      (stats.change entries rows).encode)

end Handler

end MergeOnWrite
