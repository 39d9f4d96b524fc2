/-
What a record keeps reads back from its bytes.

# Main statements

- `fields?_ofMembers`: the fields of a record under their names.
- `int64?_ofInt`, `uint32?_ofInt`, `uint64?_ofInt`, `text?_ofText`: the values
  that fields hold.
- `ofBytes?_ofMembers`: a record reads back from its bytes.
-/
import MergeOnWrite.Proofs.Json.RoundTrip

namespace MergeOnWrite.Json

-- ================================================== spelling

theorem isWellSpelt_ofInt (n : Int) : IsWellSpelt (.ofInt n) := by
  rw [ofInt, IsWellSpelt]
  exact isLiteral_numeral n

theorem isWellSpelt_ofText (text : String) : IsWellSpelt (.ofText text) := by
  rw [ofText, IsWellSpelt]
  exact isSpelling_escape text.toList

theorem isWellSpelt_array {items : List Json}
    (h : ∀ item ∈ items, IsWellSpelt item) : IsWellSpelt (.array items) := by
  rw [IsWellSpelt]
  induction items with
  | nil => trivial
  | cons item rest ih =>
      rw [ItemsWellSpelt]
      exact ⟨h item List.mem_cons_self,
        ih fun item hitem => h item (List.mem_cons_of_mem _ hitem)⟩

theorem isWellSpelt_ofMembers {members : List (String × Json)}
    (h : ∀ member ∈ members, IsWellSpelt member.2) :
    IsWellSpelt (.ofMembers members) := by
  rw [ofMembers, IsWellSpelt]
  induction members with
  | nil => trivial
  | cons member rest ih =>
      rw [List.map_cons, MembersWellSpelt]
      exact ⟨isSpelling_escape _, h member List.mem_cons_self,
        ih fun member hmember => h member (List.mem_cons_of_mem _ hmember)⟩

-- ================================================== values

theorem int64?_ofInt (n : Int64) : (ofInt n.toInt).int64? = some n := by
  rw [ofInt, int64?, integer?, integerLiteral?_numeral, Option.filter_some,
    if_pos (Text.NumeralRange.contains_int64 n), Option.map_some,
    Int64.ofInt_toInt]

theorem uint32?_ofInt (n : UInt32) : (ofInt n.toNat).uint32? = some n := by
  rw [ofInt, uint32?, integer?, integerLiteral?_numeral, Option.filter_some,
    if_pos (Text.NumeralRange.contains_uint32 n), Option.map_some,
    Int.toNat_natCast, UInt32.ofNat_toNat]

theorem uint64?_ofInt (n : UInt64) : (ofInt n.toNat).uint64? = some n := by
  rw [ofInt, uint64?, integer?, integerLiteral?_numeral, Option.filter_some,
    if_pos (Text.NumeralRange.contains_uint64 n), Option.map_some,
    Int.toNat_natCast, UInt64.ofNat_toNat]

theorem text?_ofText (text : String) : (ofText text).text? = some text := by
  rw [ofText, text?, unescape_escape, Option.map_some, String.ofList_toList]

-- ================================================== fields

/-- Reading what has been written, item by item. -/
theorem mapM_map_of_eq_some {α β γ : Type} {read : β → Option γ}
    {write : α → β} (mean : α → γ) {items : List α}
    (h : ∀ item ∈ items, read (write item) = some (mean item)) :
    (items.map write).mapM read = some (items.map mean) := by
  induction items with
  | nil => rfl
  | cons item rest ih =>
      rw [List.map_cons, List.mapM_cons, h item List.mem_cons_self,
        ih fun item hitem => h item (List.mem_cons_of_mem _ hitem)]
      rfl

/-- The members of a record are found under their names. -/
theorem members?_ofMembers (members : List (String × Json)) :
    (ofMembers members).members? = some members := by
  rw [ofMembers, members?, mapM_map_of_eq_some id, List.map_id]
  rintro ⟨name, value⟩ -
  show (unescape (escape name.toList)).bind _ = _
  rw [unescape_escape, Option.bind_some, String.ofList_toList]
  rfl

/-- A member whose name is given once is the value of its field. -/
theorem fieldOf?_of_mem {members : List (String × Json)}
    (hnodup : (members.map (·.1)).Nodup) {member : String × Json}
    (h : member ∈ members) : fieldOf? members member.1 = some member.2 := by
  have honce : members.filter (·.1 = member.1) = [member] := by
    induction members with
    | nil => exact absurd h List.not_mem_nil
    | cons first rest ih =>
        obtain ⟨hnew, hrest⟩ := List.nodup_cons.1 hnodup
        rcases List.mem_cons.1 h with rfl | hmem
        · rw [List.filter_cons_of_pos (by simp), List.filter_eq_nil_iff.2]
          rintro other hother
          rw [decide_eq_true_eq]
          exact fun heq => hnew (List.mem_map.2 ⟨other, hother, heq⟩)
        · rw [List.filter_cons_of_neg, ih hrest hmem]
          rw [decide_eq_true_eq]
          exact fun heq => hnew (List.mem_map.2 ⟨member, hmem, heq.symm⟩)
  rw [fieldOf?, honce]

theorem fields?_ofMembers {members : List (String × Json)}
    (h : (members.map (·.1)).Nodup) :
    (ofMembers members).fields? (members.map (·.1))
      = some (members.map (·.2)) := by
  rw [fields?]
  · rw [members?_ofMembers, Option.bind_eq_bind, Option.bind_some]
    exact mapM_map_of_eq_some (·.2) fun member hmember =>
      fieldOf?_of_mem h hmember
  · intro items heq
    cases heq

/-- A record reads back from its bytes. -/
theorem ofBytes?_ofMembers {members : List (String × Json)}
    (h : ∀ member ∈ members, IsWellSpelt member.2) :
    ofBytes? (ofMembers members).toBytes = some (ofMembers members) :=
  ofBytes?_toBytes (isWellSpelt_ofMembers h)

end MergeOnWrite.Json
