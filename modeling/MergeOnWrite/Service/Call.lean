/-
The requests that the service answers, and its responses.

Requests carry what the caller wrote: names that may be no names, lock
ids that may be no lock ids. A handler checks them in a fixed order. The
payload of a response depends on the request; a response that reports an
error carries the empty payload.
-/
import MergeOnWrite.DeleteBitmap
import MergeOnWrite.Lock.Kind
import MergeOnWrite.Service.TabletStats

namespace MergeOnWrite

-- ================================================== requests

/-- Asks for the update lock of a table or of some of its tablets. -/
structure AcquireLock where
  instanceName : String := ""
  table : TableId := ⟨0⟩
  tablets : List TabletId := []
  lockId : Int64 := 0
  initiator : Int64 := 0
  /-- The length of the lease; the configured one if absent. -/
  leaseSecs : Option UInt64 := none
  /-- The version of the protocol that the caller takes for granted. -/
  version : Option LockVersion := none
  /-- Whether the response is to tell the statistics of the tablets. -/
  wantsStats : Bool := false
deriving Inhabited

/-- Gives the update lock up. -/
structure ReleaseLock where
  instanceName : String := ""
  table : TableId := ⟨0⟩
  tablets : List TabletId := []
  lockId : Int64 := 0
  initiator : Int64 := 0
  /-- The version of the protocol that the caller takes for granted. -/
  version : Option LockVersion := none
deriving Inhabited

/-- Stores entries of the delete bitmap of a tablet. -/
structure UpdateBitmap where
  instanceName : String := ""
  table : TableId := ⟨0⟩
  tablet : TabletId := ⟨0⟩
  lockId : Int64 := 0
  initiator : Int64 := 0
  /-- The entries; each replaces the stored one of its key. -/
  bitmap : DeleteBitmap := ∅
deriving Inhabited

/-- Reads the entries of some rowsets between two versions. -/
structure ReadBitmap where
  instanceName : String := ""
  tablet : TabletId := ⟨0⟩
  rowsets : List String := []
  beginVersion : Version := ⟨0⟩
  endVersion : Version := ⟨0⟩
deriving Inhabited

/-- Removes all entries of some rowsets. -/
structure RemoveBitmap where
  instanceName : String := ""
  table : TableId := ⟨0⟩
  tablet : TabletId := ⟨0⟩
  rowsets : List String := []
deriving Inhabited

/-- A request to the service. -/
inductive Call where
  | acquireLock (r : AcquireLock)
  | releaseLock (r : ReleaseLock)
  | updateBitmap (r : UpdateBitmap)
  | readBitmap (r : ReadBitmap)
  | removeBitmap (r : RemoveBitmap)

namespace Call

def method : Call → String
  | .acquireLock _ => "get_delete_bitmap_update_lock"
  | .releaseLock _ => "remove_delete_bitmap_update_lock"
  | .updateBitmap _ => "update_delete_bitmap"
  | .readBitmap _ => "get_delete_bitmap"
  | .removeBitmap _ => "remove_delete_bitmap"

/-- The instance that a request is about. -/
def instanceName : Call → String
  | .acquireLock r => r.instanceName
  | .releaseLock r => r.instanceName
  | .updateBitmap r => r.instanceName
  | .readBitmap r => r.instanceName
  | .removeBitmap r => r.instanceName

-- ================================================== responses

/-- What the response to a request carries besides its status. -/
@[reducible]
def Payload : Call → Type
  | .acquireLock _ => List TabletStats
  | .readBitmap _ => DeleteBitmap
  | .releaseLock _ | .updateBitmap _ | .removeBitmap _ => Unit

def noPayload : (call : Call) → call.Payload
  | .acquireLock _ => []
  | .readBitmap _ => ∅
  | .releaseLock _ | .updateBitmap _ | .removeBitmap _ => ()

end Call

/-- A status and what comes with it. -/
structure Response (π : Type) where
  status : Status
  payload : π

/-- The response of a handler: an error leaves nothing but its status. -/
def Response.ofResult {π : Type} (nothing : π) :
    Except ServiceError π → Response π
  | .ok payload => ⟨{}, payload⟩
  | .error e => ⟨.ofError e, nothing⟩

end MergeOnWrite
