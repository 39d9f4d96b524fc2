/-
Sessions on a scripted store: named transactions that are open side by
side, on virtual time.
-/
import MergeOnWrite.Store.Scripted

namespace MergeOnWrite

/-- A step of a session on a store. -/
inductive StoreStep where
  /-- Opens a transaction; it replaces one of the same name. -/
  | start (txn : String)
  | get (txn : String) (key : Bytes)
  | scan (txn : String) (stem : Bytes)
  | put (txn : String) (key value : Bytes)
  | remove (txn : String) (key : Bytes)
  | stats (txn : String)
  | commit (txn : String)
  /-- Forgets a transaction without committing it. -/
  | abandon (txn : String)
  | advance (ms : Nat)
  | control (control : StoreControl)

/-- The answer to a step. -/
inductive StoreAnswer where
  | done
  | refused (code : StoreCode)
  /-- There is no open transaction of the name. -/
  | noTxn
  | value (value : Option Bytes)
  | listing (entries : List (Bytes × Bytes))
  | stats (stats : TxnStats)
  | view (view : StoreView)

/-- A session on a scripted store. -/
structure StoreSession where
  backing : ScriptedStore := {}
  /-- The open transactions by name. -/
  txns : List (String × Txn) := []
  /-- Virtual time in milliseconds. -/
  time : Nat := 0

namespace StoreSession

/-- Forgets the transaction of a name. -/
def close (s : StoreSession) (name : String) : StoreSession :=
  { s with txns := s.txns.filter (·.1 ≠ name) }

def keep (s : StoreSession) (name : String) (t : Txn) : StoreSession :=
  { s with txns := (name, t) :: s.txns.filter (·.1 ≠ name) }

/-- Works on the open transaction of a name. -/
def withTxn (s : StoreSession) (name : String)
    (work : Txn → StoreSession × StoreAnswer) : StoreSession × StoreAnswer :=
  match s.txns.lookup name with
  | some t => work t
  | none => (s, .noTxn)

def step (s : StoreSession) : StoreStep → StoreSession × StoreAnswer
  | .start name =>
    match s.backing.start s.time with
    | (backing, .ok t) => ({ s with backing }.keep name t, .done)
    | (backing, .error code) => ({ s with backing }, .refused code)
  | .get name key => s.withTxn name fun t =>
    match s.backing.get t key s.time with
    | (backing, .ok (value, t)) => ({ s with backing }.keep name t, .value value)
    | (backing, .error code) => ({ s with backing }, .refused code)
  | .scan name stem => s.withTxn name fun t =>
    match s.backing.scan t stem s.time with
    | (backing, .ok (found, t)) => ({ s with backing }.keep name t, .listing found)
    | (backing, .error code) => ({ s with backing }, .refused code)
  | .put name key value => s.withTxn name fun t =>
    let (backing, t) := s.backing.put t key value
    ({ s with backing }.keep name t, .done)
  | .remove name key => s.withTxn name fun t =>
    let (backing, t) := s.backing.remove t key
    ({ s with backing }.keep name t, .done)
  | .stats name => s.withTxn name fun t => (s, .stats t.stats)
  | .commit name => s.withTxn name fun t =>
    match s.backing.commit t s.time with
    | (backing, .ok _) => ({ s with backing }.close name, .done)
    | (backing, .error code) => ({ s with backing }.close name, .refused code)
  | .abandon name => s.withTxn name fun _ => (s.close name, .done)
  | .advance ms => ({ s with time := s.time + ms }, .done)
  | .control control =>
    let (backing, view) := s.backing.control control
    ({ s with backing }, .view view)

def answers (s : StoreSession) : List StoreStep → List StoreAnswer
  | [] => []
  | step :: rest =>
    let (s, answer) := s.step step
    answer :: s.answers rest

end StoreSession

end MergeOnWrite
