/-
The transactional store and its optimistic transactions.

A store is the list of its commits, newest first, and a commit is the
set of its writes; what is live is what the writes leave when they are
applied in order. A transaction works on the state at its begin: it
reads from that snapshot, sees its own writes, and notes every key and
every interval it reads. It may commit unless a commit since its begin
wrote one of those.

A store that keeps the versions of every key instead, with transactions
that read at a version, is in `Store.Versioned`. Sessions cannot tell the
two apart (`StoreSession.on_histories` in `Proofs.Store.Histories`).

# Main statements

- `get?_applyTo`: after a set of writes a key holds what they put there,
  and what it held if they do not mention it.
- `live_commit`: a commit that is granted applies its writes to the live
  entries.
-/
import MergeOnWrite.Bytes
import MergeOnWrite.SortedMap
import MergeOnWrite.Store.Code

namespace MergeOnWrite

-- ================================================== writes

/-- The live keys of a store and their values. -/
abbrev Entries := SortedMap Bytes Bytes

/-- The writes of a transaction: the value put at a key, or `none` where
the key is removed. -/
abbrev WriteSet := SortedMap Bytes (Option Bytes)

def WriteSet.applyTo (writes : WriteSet) (entries : Entries) : Entries :=
  writes.toList.foldl (fun acc w => acc.alter w.1 fun _ => w.2) entries

def Entries.within (entries : Entries) (range : KeyRange) : Entries :=
  entries.filter fun key _ => range.contains key

/-- After a set of writes a key holds what they put there, and what it
held before if they do not mention it. -/
theorem WriteSet.get?_applyTo (writes : WriteSet) (entries : Entries)
    (key : Bytes) :
    (writes.applyTo entries).get? key
      = (writes.get? key).getD (entries.get? key) := by
  have halter := SortedMap.get?_foldl_alter (fun value _ => value) writes
    entries key
  rw [applyTo, halter]
  cases writes.get? key with
  | none => rfl
  | some value => rfl

-- ================================================== the store

/-- A store: the writes of its commits, newest first. -/
structure Store where
  commits : List WriteSet := []
deriving DecidableEq, Inhabited

namespace Store

def version (store : Store) : Nat := store.commits.length

def live (store : Store) : Entries :=
  store.commits.foldr (fun writes acc => writes.applyTo acc) ∅

/-- The commits after the first `version` ones. -/
def since (store : Store) (version : Nat) : List WriteSet :=
  store.commits.take (store.commits.length - version)

end Store

-- ================================================== transactions

/-- What one transaction did so far: point reads and scanned entries,
puts, removals, and the bytes of keys and values read and written. -/
structure TxnStats where
  gets : Nat := 0
  puts : Nat := 0
  deletes : Nat := 0
  getBytes : Nat := 0
  putBytes : Nat := 0
deriving DecidableEq, Repr, Inhabited

/-- An open transaction. -/
structure Txn where
  /-- The live entries at its begin. -/
  snapshot : Entries
  /-- The number of commits at its begin. -/
  version : Nat
  /-- When it began, in milliseconds. -/
  started : Nat
  /-- The keys it read from the snapshot. -/
  readKeys : List Bytes := []
  /-- The byte strings whose extensions it scanned. -/
  readStems : List Bytes := []
  writes : WriteSet := ∅
  stats : TxnStats := {}
deriving DecidableEq

namespace Txn

def «open» (store : Store) (now : Nat) : Txn :=
  { snapshot := store.live, version := store.version, started := now }

/-- True when the transaction outlived the age limit. -/
def isTooOld (t : Txn) (maxAge : Option Nat) (now : Nat) : Bool :=
  maxAge.any (· < now - t.started)

/-- What a key holds for the transaction: its own write, or else what the
snapshot has. -/
def value? (t : Txn) (key : Bytes) : Option Bytes :=
  (t.writes.get? key).getD (t.snapshot.get? key)

def countRead (stats : TxnStats) (key : Bytes) (value : Option Bytes) :
    TxnStats :=
  { stats with
    gets := stats.gets + 1
    getBytes := stats.getBytes + key.length + (value.map List.length).getD 0 }

/-- Reads a key. The transaction depends on the key unless it wrote it
itself. -/
def get (t : Txn) (key : Bytes) : Option Bytes × Txn :=
  let value := t.value? key
  let readKeys :=
    if (t.writes.get? key).isSome then t.readKeys else key :: t.readKeys
  (value, { t with readKeys, stats := countRead t.stats key value })

def listing (t : Txn) (stem : Bytes) : List (Bytes × Bytes) :=
  ((t.writes.applyTo t.snapshot).within (.extending stem)).toList

/-- Reads the entries that extend `stem`, in key order. -/
def scan (t : Txn) (stem : Bytes) : List (Bytes × Bytes) × Txn :=
  let found := t.listing stem
  let stats := found.foldl (fun s e => countRead s e.1 (some e.2)) t.stats
  (found, { t with readStems := stem :: t.readStems, stats })

def put (t : Txn) (key value : Bytes) : Txn :=
  { t with
    writes := t.writes.insert key (some value)
    stats :=
      { t.stats with
        puts := t.stats.puts + 1
        putBytes := t.stats.putBytes + key.length + value.length } }

def remove (t : Txn) (key : Bytes) : Txn :=
  { t with
    writes := t.writes.insert key none
    stats :=
      { t.stats with
        deletes := t.stats.deletes + 1
        putBytes := t.stats.putBytes + key.length } }

/-- True when the transaction read a key, by itself or within an
interval. -/
def dependsOn (t : Txn) (key : Bytes) : Bool :=
  t.readKeys.contains key
    || t.readStems.any fun stem => (KeyRange.extending stem).contains key

/-- True when the transaction read a key that the writes mention. -/
def clashesWith (t : Txn) (writes : WriteSet) : Bool :=
  writes.keys.any t.dependsOn

end Txn

namespace Store

/-- Commits a transaction: refused if it read what a commit since its
begin wrote; without writes, a commit leaves the store as it is. -/
def commit (store : Store) (t : Txn) : Except StoreCode Store :=
  if (store.since t.version).any t.clashesWith then .error .conflict
  else if t.writes.isEmpty then .ok store
  else .ok ⟨t.writes :: store.commits⟩

/-- Writes a value, or removes the key, with a commit of its own. -/
def write (store : Store) (key : Bytes) (value : Option Bytes) : Store :=
  ⟨(∅ : WriteSet).insert key value :: store.commits⟩

/-- A commit that is granted applies its writes to the live entries. -/
theorem live_commit {store next : Store} {t : Txn}
    (h : store.commit t = .ok next) :
    next.live = t.writes.applyTo store.live := by
  unfold commit at h
  split at h
  · cases h
  · split at h
    · rename_i hempty
      obtain rfl := Except.ok.inj h
      have hnil : t.writes.toList = [] := List.isEmpty_iff.1 hempty
      simp [WriteSet.applyTo, hnil]
    · obtain rfl := Except.ok.inj h
      rfl

end Store

end MergeOnWrite
