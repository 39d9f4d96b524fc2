/-
The codes with which the store refuses an operation.
-/

namespace MergeOnWrite

/-- Why the store refused an operation. -/
inductive StoreCode where
  /-- A key or range that the transaction read was written meanwhile. -/
  | conflict
  /-- The transaction outlived its validity. -/
  | tooOld
  | retryableGet
  | retryableCommit
  | retryableCreate
  | other
deriving DecidableEq, Repr, Inhabited

def StoreCode.message : StoreCode → String
  | .conflict => "transaction conflict"
  | .tooOld => "transaction too old"
  | .retryableGet => "retryable get"
  | .retryableCommit => "retryable commit"
  | .retryableCreate => "retryable create"
  | .other => "store failure"

/-- True for codes that another attempt may not meet again. -/
def StoreCode.isTransient : StoreCode → Bool
  | .other => false
  | _ => true

end MergeOnWrite
