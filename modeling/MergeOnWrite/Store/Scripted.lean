/-
A store that fails as scripted and keeps a log.

Transactions outlive the age limit, or begins and commits are refused
because the script says so; all else is what the store itself answers. A
commit that the script refuses leaves no trace in the store.

# Main statements

- `store_commit_of_refused`: a refused commit leaves the store as it is.
-/
import MergeOnWrite.Store.Basic
import MergeOnWrite.Text.Lossy

namespace MergeOnWrite

/-- One operation on a store, with its outcome where it has one. -/
inductive StoreEvent where
  | start (result : Except StoreCode Unit)
  | get (key : Bytes)
  | scan (stem : Bytes)
  | put (key : Bytes)
  | remove (key : Bytes)
  | commit (result : Except StoreCode Unit)

namespace StoreEvent

def isCommit : StoreEvent → Bool
  | .commit _ => true
  | _ => false

def isGrantedCommit : StoreEvent → Bool
  | .commit (.ok _) => true
  | _ => false

end StoreEvent

/-- The failures to come. -/
structure Faults where
  /-- What the next begins fail with, one each. -/
  starts : List StoreCode := []
  /-- What the next commits fail with, one each. -/
  commits : List StoreCode := []
  /-- What all later commits fail with. -/
  always : Option StoreCode := none
deriving DecidableEq, Repr, Inhabited

/-- The failure that is due at a commit, and the failures left. -/
def Faults.nextCommit (faults : Faults) : Option StoreCode × Faults :=
  match faults.commits with
  | code :: rest => (some code, { faults with commits := rest })
  | [] => (faults.always, faults)

/-- A store with failures to come, a limit to the age of transactions, and
the log of the operations, newest first. -/
structure ScriptedStore where
  store : Store := {}
  /-- The greatest age of a transaction in milliseconds. -/
  maxAge : Option Nat := none
  faults : Faults := {}
  log : List StoreEvent := []

/-- A result, unless the transaction outlived the limit. -/
def Txn.unlessTooOld {α : Type} (t : Txn) (maxAge : Option Nat) (now : Nat)
    (result : Except StoreCode α) : Except StoreCode α :=
  if t.isTooOld maxAge now then .error .tooOld else result

namespace ScriptedStore

def note (s : ScriptedStore) (event : StoreEvent) : ScriptedStore :=
  { s with log := event :: s.log }

/-- Opens a transaction, unless a failure is due. -/
def start (s : ScriptedStore) (now : Nat) :
    ScriptedStore × Except StoreCode Txn :=
  match s.faults.starts with
  | code :: rest =>
    let s := { s with faults := { s.faults with starts := rest } }
    (s.note (.start (.error code)), .error code)
  | [] => (s.note (.start (.ok ())), .ok (.open s.store now))

def get (s : ScriptedStore) (t : Txn) (key : Bytes) (now : Nat) :
    ScriptedStore × Except StoreCode (Option Bytes × Txn) :=
  (s.note (.get key), t.unlessTooOld s.maxAge now (.ok (t.get key)))

/-- Reads the entries that extend a byte string. -/
def scan (s : ScriptedStore) (t : Txn) (stem : Bytes) (now : Nat) :
    ScriptedStore × Except StoreCode (List (Bytes × Bytes) × Txn) :=
  (s.note (.scan stem), t.unlessTooOld s.maxAge now (.ok (t.scan stem)))

def put (s : ScriptedStore) (t : Txn) (key value : Bytes) :
    ScriptedStore × Txn :=
  (s.note (.put key), t.put key value)

def remove (s : ScriptedStore) (t : Txn) (key : Bytes) :
    ScriptedStore × Txn :=
  (s.note (.remove key), t.remove key)

/-- What the store itself makes of a commit. -/
def grant (s : ScriptedStore) (t : Txn) (now : Nat) :
    Except StoreCode Store :=
  t.unlessTooOld s.maxAge now (s.store.commit t)

/-- Commits a transaction, unless a failure is due. -/
def commit (s : ScriptedStore) (t : Txn) (now : Nat) :
    ScriptedStore × Except StoreCode Unit :=
  let (failure, faults) := s.faults.nextCommit
  let s := { s with faults }
  let result := failure.elim (s.grant t now) .error
  match result with
  | .ok store => (({ s with store }).note (.commit (.ok ())), .ok ())
  | .error code => (s.note (.commit (.error code)), .error code)

theorem store_commit_of_refused {s next : ScriptedStore} {t : Txn}
    {now : Nat} {code : StoreCode}
    (h : s.commit t now = (next, .error code)) : next.store = s.store := by
  unfold commit at h
  simp only at h
  split at h
  · cases (Prod.mk.inj h).2
  · obtain ⟨rfl, _⟩ := Prod.mk.inj h
    rfl

end ScriptedStore

-- ================================================== control

/-- What a session can do to a scripted store from outside. -/
inductive StoreControl where
  | failStarts (codes : List StoreCode)
  | failCommits (codes : List StoreCode)
  | failAllCommits (code : StoreCode)
  | clearFailures
  | live
  | takeLog

/-- What a session sees of a scripted store. -/
inductive StoreView where
  | done
  | entries (entries : List (Bytes × Bytes))
  /-- The log, oldest first. -/
  | log (events : List StoreEvent)

namespace ScriptedStore

def control (s : ScriptedStore) : StoreControl → ScriptedStore × StoreView
  | .failStarts codes =>
    let faults := { s.faults with starts := s.faults.starts ++ codes }
    ({ s with faults }, .done)
  | .failCommits codes =>
    let faults := { s.faults with commits := s.faults.commits ++ codes }
    ({ s with faults }, .done)
  | .failAllCommits code =>
    ({ s with faults := { s.faults with always := some code } }, .done)
  | .clearFailures => ({ s with faults := {} }, .done)
  | .live => (s, .entries s.store.live.toList)
  | .takeLog => ({ s with log := [] }, .log s.log.reverse)

end ScriptedStore

end MergeOnWrite
