/-
Lock records read back from the bytes that the store keeps.

The end of a lease is kept as a stamp, so a record reads back if a stamp
can tell it. That is so of every record that is read, and stays so when a
class takes a scope or is joined.

# Main statements

- `decode?_encode`: a record reads back from its bytes.
- `isProper_of_decode?`: the lease of a record that is read ends at an
  instant that can be written.
- `isProper_of_acquire`: so does one that is granted.
-/
import MergeOnWrite.Lock.Record
import MergeOnWrite.Proofs.Json.Record
import MergeOnWrite.Proofs.SortedMap
import MergeOnWrite.Proofs.Time.Stamp

namespace MergeOnWrite.LockRecord

theorem ofJson?_toJson {record : LockRecord}
    (h : record.expiration.IsProper) : ofJson? record.toJson = some record := by
  have hfields : record.toJson.fields? ["lock_id", "initiators", "expiration"]
      = some [.ofInt record.lockId.toInt,
        .array (record.initiators.keys.map fun i => .ofInt i.toInt),
        .ofText record.expiration.stamp] :=
    Json.fields?_ofMembers
      (show ["lock_id", "initiators", "expiration"].Nodup by decide)
  have hinitiators : (record.initiators.keys.map fun i =>
      Json.ofInt i.toInt).mapM Json.int64? = some record.initiators.keys := by
    rw [Json.mapM_map_of_eq_some id fun n _ => Json.int64?_ofInt n, List.map_id]
  have hstamp : Instant.read? record.expiration.stamp.toList
      = some record.expiration := by
    rw [Instant.stamp, String.toList_ofList, Instant.read?_stampChars h]
  rw [ofJson?, hfields]
  simp only [Option.bind_eq_bind, Option.bind_some, Json.int64?_ofInt,
    Json.items?, hinitiators, Json.text?_ofText, hstamp,
    SortedSet.ofList_keys, Option.pure_def]

/-- A record reads back from its bytes. -/
theorem decode?_encode {record : LockRecord} (h : record.expiration.IsProper) :
    decode? record.encode = some record := by
  have hbytes : Json.ofBytes? record.encode = some record.toJson := by
    refine Json.ofBytes?_ofMembers fun member hmember => ?_
    rcases List.mem_cons.1 hmember with rfl | hmember
    · exact Json.isWellSpelt_ofInt _
    · rcases List.mem_cons.1 hmember with rfl | hmember
      · refine Json.isWellSpelt_array fun item hitem => ?_
        obtain ⟨n, -, rfl⟩ := List.mem_map.1 hitem
        exact Json.isWellSpelt_ofInt _
      · rw [List.mem_singleton.1 hmember]
        exact Json.isWellSpelt_ofText _
  rw [decode?, hbytes]
  exact ofJson?_toJson h

/-- The lease of a record that is read ends at an instant that can be
written. -/
theorem isProper_of_decode? {bytes : Bytes} {record : LockRecord}
    (h : decode? bytes = some record) : record.expiration.IsProper := by
  obtain ⟨value, -, h⟩ := Option.bind_eq_some_iff.1 h
  rw [ofJson?] at h
  obtain ⟨fields, -, h⟩ := Option.bind_eq_some_iff.1 h
  split at h
  · simp only [Option.bind_eq_bind, Option.bind_eq_some_iff,
      Option.pure_def, Option.some.injEq] at h
    obtain ⟨_, -, _, -, _, -, _, -, expiration, hread, rfl⟩ := h
    exact Instant.isProper_of_read? hread
  · cases h

/-- The lease of a record that is granted ends at an instant that can be
written. -/
theorem isProper_of_acquire {current : Option LockRecord} {kind : LockKind}
    {initiator : Int64} {now expiration : Instant} {record : LockRecord}
    {outcome : LockOutcome}
    (hcurrent : ∀ held, current = some held → held.expiration.IsProper)
    (hexpiration : expiration.IsProper)
    (h : acquire current kind initiator now expiration
      = .granted record outcome) : record.expiration.IsProper := by
  cases current with
  | none =>
      cases h
      exact hexpiration
  | some held =>
      have hheld := hcurrent held rfl
      rw [acquire] at h
      split at h
      · cases h
        exact hexpiration
      · split at h
        · cases h
          show (Instant.latest _ _).IsProper
          unfold Instant.latest
          split
          · exact hheld
          · exact hexpiration
        · cases h

end MergeOnWrite.LockRecord
