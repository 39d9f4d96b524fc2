/-
The instances that use the second version of the lock protocol.
-/
import MergeOnWrite.Lock.Kind

namespace MergeOnWrite

/-- The names of the instances that use the second version. -/
structure AllowList where
  instances : List String := []
deriving DecidableEq, Repr, Inhabited

namespace AllowList

/-- Reads a list separated by semicolons. A blank text and two quotes
alone name no instance. -/
def ofText (text : String) : AllowList :=
  if Text.trim text = "''" then ⟨[]⟩ else ⟨Text.items ';' text⟩

def versionFor (list : AllowList) (i : InstanceId) : LockVersion :=
  if i.text ∈ list.instances then .v2 else .v1

/-- A use of a list: it is replaced, or asked for an instance. -/
inductive Use where
  | update (text : String)
  | query (instanceName : String)

/-- What a use answers. -/
inductive Answer where
  | updated
  | version (version : LockVersion)
  | refused (failure : Failure)

def answers (list : AllowList) : List Use → List Answer
  | [] => []
  | .update text :: rest => .updated :: (ofText text).answers rest
  | .query name :: rest =>
    let answer := match InstanceId.ofText name with
      | .error e => Answer.refused (.ofIdError e)
      | .ok i => .version (list.versionFor i)
    answer :: list.answers rest

end AllowList

end MergeOnWrite
