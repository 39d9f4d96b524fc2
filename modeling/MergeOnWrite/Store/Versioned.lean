/-
The store by the histories of its keys.

Of each key the store keeps the values that commits gave it, each with the
version of the commit, and never forgets one; a removal leaves `none`. So it
can be read at every version, and tells for each key when it was written last.
A transaction has nothing but the version of its begin, at which it reads, its
own writes, and what it read; whether it may commit is decided by the last
writes of that.

The same store as the list of its commits is in `Store.Basic`.
-/
import MergeOnWrite.Store.Basic

namespace MergeOnWrite

/-- The history of a key: the values it was given and the versions of the
commits, the latest one last. -/
abbrev History := List (Nat × Option Bytes)

namespace History

/-- What the key held at a version. -/
def valueAt (history : History) (version : Nat) : Option Bytes :=
  (history.reverse.find? fun entry => entry.1 ≤ version).bind Prod.snd

/-- The version of the last write. -/
def last? (history : History) : Option Nat := history.getLast?.map Prod.fst

end History

-- ================================================== the store

/-- A store of histories. -/
structure VersionedStore where
  /-- The number of commits that wrote something. -/
  version : Nat := 0
  histories : SortedMap Bytes History := ∅

namespace VersionedStore

def readAt (store : VersionedStore) (key : Bytes) (version : Nat) :
    Option Bytes :=
  (store.histories.get? key).bind (·.valueAt version)

/-- The version of the last write at a key; nothing is written with the
version zero. -/
def lastWrite (store : VersionedStore) (key : Bytes) : Nat :=
  ((store.histories.get? key).bind History.last?).getD 0

/-- The histories of the keys within an interval. -/
def within (store : VersionedStore) (range : KeyRange) :
    SortedMap Bytes History :=
  store.histories.filter fun key _ => range.contains key

def live (store : VersionedStore) : Entries :=
  store.histories.filterMap fun _ history => history.valueAt store.version

/-- Writes with the next version. -/
def write (store : VersionedStore) (writes : WriteSet) : VersionedStore where
  version := store.version + 1
  histories := writes.toList.foldl (fun histories w =>
    histories.alter w.1 fun history =>
      some (history.getD [] ++ [(store.version + 1, w.2)])) store.histories

end VersionedStore

-- ================================================== transactions

/-- An open transaction on a store of histories. -/
structure VersionedTxn where
  /-- The version at which it reads. -/
  version : Nat
  /-- When it began, in milliseconds. -/
  started : Nat
  /-- The keys it read from the store. -/
  readKeys : SortedSet Bytes := ∅
  /-- The byte strings whose extensions it scanned, in order. -/
  readStems : List Bytes := []
  writes : WriteSet := ∅
  stats : TxnStats := {}

namespace VersionedTxn

def «open» (store : VersionedStore) (now : Nat) : VersionedTxn :=
  { version := store.version, started := now }

/-- True when the transaction outlived the age limit. -/
def isTooOld (t : VersionedTxn) (maxAge : Option Nat) (now : Nat) : Bool :=
  maxAge.any (· < now - t.started)

/-- A result, unless the transaction outlived the limit. -/
def unlessTooOld {α : Type} (t : VersionedTxn) (maxAge : Option Nat)
    (now : Nat) (result : Except StoreCode α) : Except StoreCode α :=
  if t.isTooOld maxAge now then .error .tooOld else result

/-- Reads a key, in the own writes or else in the store. -/
def get (store : VersionedStore) (t : VersionedTxn) (key : Bytes) :
    Option Bytes × VersionedTxn :=
  match t.writes.get? key with
  | some value => (value, { t with stats := Txn.countRead t.stats key value })
  | none =>
    let value := store.readAt key t.version
    (value, { t with
      readKeys := t.readKeys.insert key ()
      stats := Txn.countRead t.stats key value })

/-- What the store and the own writes have at the extensions of `stem`, with
the keys that hold nothing. -/
def merged (store : VersionedStore) (t : VersionedTxn) (stem : Bytes) :
    SortedMap Bytes (Option Bytes) :=
  let found := (store.within (.extending stem)).filterMap fun _ history =>
    some (history.valueAt t.version)
  (t.writes.filter fun key _ => (KeyRange.extending stem).contains key).toList
    |>.foldl (fun merged w => merged.insert w.1 w.2) found

def listing (store : VersionedStore) (t : VersionedTxn) (stem : Bytes) :
    List (Bytes × Bytes) :=
  ((t.merged store stem).filterMap fun _ value => value).toList

/-- Reads the entries that extend `stem`, in key order. -/
def scan (store : VersionedStore) (t : VersionedTxn) (stem : Bytes) :
    List (Bytes × Bytes) × VersionedTxn :=
  let found := t.listing store stem
  let stats :=
    found.foldl (fun s e => Txn.countRead s e.1 (some e.2)) t.stats
  (found, { t with readStems := t.readStems ++ [stem], stats })

def put (t : VersionedTxn) (key value : Bytes) : VersionedTxn :=
  { t with
    writes := t.writes.insert key (some value)
    stats :=
      { t.stats with
        puts := t.stats.puts + 1
        putBytes := t.stats.putBytes + key.length + value.length } }

def remove (t : VersionedTxn) (key : Bytes) : VersionedTxn :=
  { t with
    writes := t.writes.insert key none
    stats :=
      { t.stats with
        deletes := t.stats.deletes + 1
        putBytes := t.stats.putBytes + key.length } }

/-- True when a key that was read has been written since the begin. -/
def hasStaleKey (store : VersionedStore) (t : VersionedTxn) : Bool :=
  t.readKeys.keys.any fun key => t.version < store.lastWrite key

/-- True when some key within an interval that was scanned has been written
since the begin. -/
def hasStaleStem (store : VersionedStore) (t : VersionedTxn) : Bool :=
  t.readStems.any fun stem =>
    (store.within (.extending stem)).toList.any fun entry =>
      entry.2.last?.any (t.version < ·)

end VersionedTxn

/-- Commits a transaction: refused if what it read has been written since its
begin; without writes, a commit leaves the store as it is. -/
def VersionedStore.commit (store : VersionedStore) (t : VersionedTxn) :
    Except StoreCode VersionedStore :=
  if t.hasStaleKey store || t.hasStaleStem store then .error .conflict
  else if t.writes.isEmpty then .ok store
  else .ok (store.write t.writes)

end MergeOnWrite
