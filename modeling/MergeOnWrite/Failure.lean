/-
What can go wrong below the services: in names, stored bytes and
settings.
-/
import MergeOnWrite.Id
import MergeOnWrite.RowSet.Portable
import MergeOnWrite.Store.Code

namespace MergeOnWrite

/-- A failure below the services. -/
inductive Failure where
  | invalidId (message : String)
  | store (code : StoreCode) (context : String)
  | serialization (message : String)
  | notFound (what : String)
  | invalidInput (message : String)
  | internal (message : String)
deriving DecidableEq, Repr

namespace Failure

def message : Failure → String
  | .invalidId m => "invalid identifier: " ++ m
  | .store code context =>
    "txn kv error: " ++ code.message ++ " (" ++ context ++ ")"
  | .serialization m => "serialization error: " ++ m
  | .notFound what => "not found: " ++ what
  | .invalidInput m => "invalid input: " ++ m
  | .internal m => "internal error: " ++ m

def storeCode? : Failure → Option StoreCode
  | .store code _ => some code
  | _ => none

/-- The failure of a text that is no name. -/
def ofIdError (e : IdError) : Failure := .invalidId e.message

/-- The failure of bytes that are no encoded set of rows. -/
def ofPortableError (e : RowSet.PortableError) : Failure :=
  .serialization ("decode delete bitmap: " ++ e.message)

end Failure

end MergeOnWrite
