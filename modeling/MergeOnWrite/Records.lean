/-
The JSON forms of identifiers, keys, codes and statuses, and of all
records by their kind.

Names and numbers stand for themselves. A name that is read from a record
is taken as it is: the check that names pass where they enter the program
is not made again.
-/
import MergeOnWrite.Calc.Config
import MergeOnWrite.DeleteBitmap
import MergeOnWrite.Lock.Record
import MergeOnWrite.Service.Config
import MergeOnWrite.Service.TabletStats

namespace MergeOnWrite

namespace BitmapKey

def toJson (key : BitmapKey) : Json :=
  .ofMembers
    [("rowset", .ofText key.rowset.text),
      ("segment", .ofInt key.segment.val.toNat),
      ("version", .ofInt key.version.val.toInt)]

def ofJson? (value : Json) : Option BitmapKey := do
  match ← value.fields? ["rowset", "segment", "version"] with
  | [rowset, segment, version] =>
    return ⟨⟨← rowset.text?⟩, ⟨← segment.uint32?⟩, ⟨← version.int64?⟩⟩
  | _ => none

end BitmapKey

/-- The version of the lock protocol that a JSON value names. -/
def LockVersion.ofJson? (value : Json) : Option LockVersion := do
  ofName? (← value.case?)

def ServiceCode.ofJson? (value : Json) : Option ServiceCode := do
  ofName? (← value.case?)

namespace Status

def toJson (status : Status) : Json :=
  .ofMembers
    [("code", .ofText status.code.name), ("msg", .ofText status.msg)]

def ofJson? (value : Json) : Option Status := do
  match ← value.fields? ["code", "msg"] with
  | [code, msg] => return ⟨← ServiceCode.ofJson? code, ← msg.text?⟩
  | _ => none

end Status

/-- The kinds of records. -/
inductive RecordKind where
  /-- The name of an instance or of a rowset. -/
  | name
  /-- The number of a table or tablet, or a version. -/
  | number
  | segment
  | bitmapKey
  | lockVersion
  | serviceCode
  | status
  | tabletStats
  | serviceConfig
  | workerConfig
  | lockRecord
deriving DecidableEq, Repr

/-- Reads a record of some kind and writes it again in its canonical
form. -/
def RecordKind.canonical? : RecordKind → Json → Option Json
  | .name, value => value.text?.map Json.ofText
  | .number, value => value.int64?.map fun n => .ofInt n.toInt
  | .segment, value => value.uint32?.map fun n => .ofInt n.toNat
  | .bitmapKey, value => (BitmapKey.ofJson? value).map BitmapKey.toJson
  | .lockVersion, value =>
    (LockVersion.ofJson? value).map fun v => .ofText v.name
  | .serviceCode, value =>
    (ServiceCode.ofJson? value).map fun c => .ofText c.name
  | .status, value => (Status.ofJson? value).map Status.toJson
  | .tabletStats, value => (TabletStats.ofJson? value).map TabletStats.toJson
  | .serviceConfig, value =>
    (ServiceConfig.ofJson? value).map ServiceConfig.toJson
  | .workerConfig, value =>
    (WorkerConfig.ofJson? value).map WorkerConfig.toJson
  | .lockRecord, value => (LockRecord.ofJson? value).map LockRecord.toJson

/-- Reads the bytes of a record and spells it in its canonical form. -/
def RecordKind.canonicalText? (kind : RecordKind) (bytes : Bytes) :
    Option String := do
  let value ← kind.canonical? (← Json.ofBytes? bytes)
  return .ofList value.render

end MergeOnWrite
