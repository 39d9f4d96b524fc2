/-
Fixed subjects for simulations: a table with some tablets, and a source
of chance.
-/
import MergeOnWrite.Id

namespace MergeOnWrite

/-- A table with its tablets. -/
structure SampleTable where
  instanceId : InstanceId
  table : TableId
  tablets : List TabletId

namespace SampleTable

/-- The table of an instance: number 10001, with tablets numbered from
20001 on. -/
def ofInstance (instanceId : InstanceId) (count : Nat) : SampleTable where
  instanceId
  table := ⟨10001⟩
  tablets := (List.range count).map fun i => ⟨.ofNat (20001 + i)⟩

end SampleTable

/-- A source of chance that is determined by its seed. -/
structure ChanceSource where
  seed : UInt64

namespace ChanceSource

/-- Whether an event of some probability happens, where no draw decides
it. -/
def certain? (probability : Float) : Option Bool :=
  if probability ≤ 0.0 then some false
  else if 1.0 ≤ probability then some true
  else none

/-- The number that is drawn from a range, upper end excluded, where there
is only one. -/
def only? (low high : Nat) : Option Nat :=
  if high = low + 1 then some low else none

end ChanceSource

end MergeOnWrite
