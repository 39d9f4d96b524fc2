/-
Who takes the update lock, on what, and by which version of the
protocol.

The lock serializes the operations that rewrite the delete bitmaps of
one scope. Its version decides the scope: a whole table in the first
version, single tablets in the second. All participants of an instance
must agree on it, or two records could both be the lock of one tablet.

| Kind | Lock id | Compatible with |
|---|---|---|
| compaction | -1 | nothing |
| schema change | -2 | nothing |
| lock-free compaction | -3 | never takes the lock |
| load | its transaction's number, above 0 | other loads |
-/
import MergeOnWrite.Key
import MergeOnWrite.Service.Code
import MergeOnWrite.SortedMap

namespace MergeOnWrite

/-- The version of the lock protocol. -/
inductive LockVersion where
  | v1
  | v2
deriving DecidableEq, Repr, Inhabited

namespace LockVersion

def name : LockVersion → String
  | .v1 => "v1"
  | .v2 => "v2"

def ofName? : String → Option LockVersion
  | "v1" => some .v1
  | "v2" => some .v2
  | _ => none

end LockVersion

/-- The class of a holder. -/
inductive LockKind where
  | compaction
  | schemaChange
  | lockFreeCompaction
  | load (txn : Int64)
deriving DecidableEq, Repr

namespace LockKind

def ofLockId (id : Int64) : Except ServiceError LockKind :=
  if id = -1 then .ok .compaction
  else if id = -2 then .ok .schemaChange
  else if id = -3 then .ok .lockFreeCompaction
  else if 0 < id then .ok (.load id)
  else .error (.invalidArgument ("invalid lock id " ++ toString id.toInt))

def lockId : LockKind → Int64
  | .compaction => -1
  | .schemaChange => -2
  | .lockFreeCompaction => -3
  | .load txn => txn

def isLoad : LockKind → Bool
  | .load _ => true
  | _ => false

/-- The word for a class in messages. -/
def message : LockKind → String
  | .compaction => "compaction"
  | .schemaChange => "schema_change"
  | .lockFreeCompaction => "lock_free_compaction"
  | .load txn => "load(" ++ toString txn.toInt ++ ")"

/-- The class of a caller that takes or releases the lock. -/
def ofTakingLockId (id : Int64) : Except ServiceError LockKind := do
  match ← ofLockId id with
  | .lockFreeCompaction =>
    throw (.invalidArgument
      "lock-free compaction does not take the delete bitmap update lock")
  | kind => return kind

end LockKind

/-- What one lock record is about. -/
inductive LockScope where
  | table (table : TableId)
  | tablet (table : TableId) (tablet : TabletId)
deriving DecidableEq, Repr

namespace LockScope

/-- The scopes that a request names. In the second version these are its
tablets, each once and ascending; there must be one. -/
def ofRequest (version : LockVersion) (table : TableId)
    (tablets : List TabletId) : Except ServiceError (List LockScope) :=
  match version with
  | .v1 => .ok [.table table]
  | .v2 =>
    if tablets = [] then
      .error (.invalidArgument ("v2 lock request for table "
        ++ toString table.val.toInt ++ " names no tablets"))
    else
      .ok ((SortedSet.ofList (tablets.map TabletId.val)).keys.map fun id =>
        .tablet table ⟨id⟩)

def guarding (version : LockVersion) (table : TableId) (tablet : TabletId) :
    LockScope :=
  match version with
  | .v1 => .table table
  | .v2 => .tablet table tablet

def key (i : InstanceId) : LockScope → String
  | .table id => Key.tableLock i id
  | .tablet owner id => Key.tabletLock i owner id

def message : LockScope → String
  | .table id => "table " ++ toString id.val.toInt
  | .tablet owner id =>
    "table " ++ toString owner.val.toInt ++ " tablet "
      ++ toString id.val.toInt

end LockScope

end MergeOnWrite
