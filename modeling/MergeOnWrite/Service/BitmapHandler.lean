/-
The handlers of delete bitmaps.

Entries are written by those who hold the update lock, which is checked
in the transaction that writes: if the record of the lock changes before
the commit, the commit is refused. The statistics of a tablet change
with its entries.
-/
import MergeOnWrite.Service.Call
import MergeOnWrite.Service.Handler
import MergeOnWrite.Text.Lossy

namespace MergeOnWrite.Handler

/-- The rows that stored bytes encode, in their containers. -/
def rowsOf (bytes : Bytes) : Handler (List RowSet.Container) :=
  check ((RowSet.Container.decodeAll bytes).mapError .ofPortableError)

-- ================================================== updating

/-- Ends with an error unless the caller holds the lock that guards a
tablet. -/
def checkHolder (i : InstanceId) (table : TableId) (tablet : TabletId)
    (kind : LockKind) (initiator : Int64) : Handler Unit := do
  let version ← ask (.route i)
  let scope := LockScope.guarding version table tablet
  let current ← readLock i scope
  let now ← ask .now
  if LockRecord.holds current kind initiator now then return ()
  else throw (.lockExpired
    (scope.message ++ ": " ++ kind.message ++ " initiator="
      ++ toString initiator.toInt
      ++ " does not hold the delete bitmap update lock, current="
      ++ LockRecord.message current))

/-- Stores entries, and tells how the numbers of entries and of rows
change. -/
def putEntries (i : InstanceId) (tablet : TabletId) :
    List (BitmapKey × RowSet) → Handler (Int × Int)
  | [] => return (0, 0)
  | (key, rows) :: rest => do
    let stored :=
      Bytes.ofText (Key.entry i tablet key.rowset key.segment key.version)
    let (entries, removed) ← match ← get "read delete bitmap" stored with
      | none => pure (1, 0)
      | some bytes => do
        pure (0, RowSet.Container.cardinalityAll (← rowsOf bytes))
    ask (.put stored rows.encode)
    let change ← putEntries i tablet rest
    return (change.1 + entries, change.2 + rows.cardinality - removed)

/-- Stores entries of the delete bitmap of a tablet. Lock-free compaction
stores them without a lock. -/
def updateBitmap (r : UpdateBitmap) : Handler Unit := do
  let i ← instanceOf r.instanceName
  let kind ← LockKind.ofLockId r.lockId
  start
  if kind ≠ .lockFreeCompaction then
    checkHolder i r.table r.tablet kind r.initiator
  let change ← putEntries i r.tablet r.bitmap.toList
  changeStats i r.table r.tablet change.1 change.2
  commit "commit delete bitmap"

-- ================================================== reading

/-- Adds stored entries to a bitmap, as far as their versions lie between
two versions. -/
def collect (first last : Version) (bitmap : DeleteBitmap) :
    List (Bytes × Bytes) → Handler DeleteBitmap
  | [] => return bitmap
  | (key, value) :: rest => do
    match Key.parseEntry? key with
    | none => throw (.internal
        ("malformed delete bitmap key " ++ Text.lossy key))
    | some (rowset, segment, version) =>
      if first ≤ version ∧ version ≤ last then
        let rows := RowSet.ofContainers (← rowsOf value)
        collect first last (bitmap.mergeEntry ⟨rowset, segment, version⟩ rows)
          rest
      else collect first last bitmap rest

/-- Adds the stored entries of some rowsets to a bitmap. -/
def collectRowsets (i : InstanceId) (tablet : TabletId)
    (first last : Version) (bitmap : DeleteBitmap) :
    List String → Handler DeleteBitmap
  | [] => return bitmap
  | name :: rest => do
    let rowset ← rowsetOf name
    let entries ← scan "scan delete bitmap"
      (.ofText (Key.rowsetStem i tablet rowset))
    let bitmap ← collect first last bitmap entries
    collectRowsets i tablet first last bitmap rest

/-- Reads the entries of some rowsets between two versions. The
transaction is given up, not committed. -/
def readBitmap (r : ReadBitmap) : Handler DeleteBitmap := do
  let i ← instanceOf r.instanceName
  if r.beginVersion ≤ r.endVersion then
    start
    collectRowsets i r.tablet r.beginVersion r.endVersion ∅ r.rowsets
  else
    throw (.invalidArgument
      ("begin_version " ++ toString r.beginVersion.val.toInt
        ++ " is after end_version " ++ toString r.endVersion.val.toInt))

-- ================================================== removing

/-- Removes listed entries, and tells how many rows they had. -/
def removeEntries : List (Bytes × Bytes) → Handler Nat
  | [] => return 0
  | (key, value) :: rest => do
    let rows ← rowsOf value
    ask (.remove key)
    return RowSet.Container.cardinalityAll rows + (← removeEntries rest)

/-- Removes the entries of some rowsets, and tells how many entries and
rows there were. -/
def removeRowsets (i : InstanceId) (tablet : TabletId) :
    List String → Handler (Nat × Nat)
  | [] => return (0, 0)
  | name :: rest => do
    let rowset ← rowsetOf name
    let entries ← scan "scan delete bitmap"
      (.ofText (Key.rowsetStem i tablet rowset))
    let rows ← removeEntries entries
    let others ← removeRowsets i tablet rest
    return (entries.length + others.1, rows + others.2)

def removeBitmap (r : RemoveBitmap) : Handler Unit := do
  let i ← instanceOf r.instanceName
  start
  let removed ← removeRowsets i r.tablet r.rowsets
  changeStats i r.table r.tablet (-(removed.1 : Int)) (-(removed.2 : Int))
  commit "commit delete bitmap removal"

end MergeOnWrite.Handler
