/-
Sums over the entries whose keys extend a byte string.

A write at one key changes a sum by the difference between what the key
holds afterwards and what it held before, and a sum does not depend on
keys outside of its interval.

# Main statements

- `total_alterIn`: a sum over an ascending listing, one binding of which
  was rewritten.
- `tally_insert`, `tally_erase`: the same for the entries of an interval.
- `tally_congr`: entries that agree within the interval have the same
  sums.
-/
import MergeOnWrite.Proofs.Bytes
import MergeOnWrite.Proofs.Store.Snapshot
import MergeOnWrite.RowSet.Basic

namespace MergeOnWrite

-- ================================================== listings

theorem total_filter {α : Type} (measure : α → Nat) (p : α → Bool) (l : List α) :
    total measure (l.filter p)
      = total (fun a => if p a then measure a else 0) l := by
  induction l with
  | nil => rfl
  | cons a rest ih =>
      cases h : p a with
      | true =>
          rw [List.filter_cons_of_pos h, total, total, ih, if_pos h]
      | false =>
          rw [List.filter_cons_of_neg (by simp [h]), total, ih,
            if_neg (by simp [h]), Nat.zero_add]

namespace SortedMap

variable {κ ν : Type} [Ord κ] [Std.TransOrd κ] [Std.LawfulEqOrd κ]

/-- What one key counts for in a sum. -/
def worth (measure : κ × ν → Nat) (k : κ) (held : Option ν) : Nat :=
  held.elim 0 fun v => measure (k, v)

omit [Ord κ] [Std.TransOrd κ] [Std.LawfulEqOrd κ] in
theorem total_toList_map (measure : κ × ν → Nat) (k : κ) (held : Option ν) :
    total measure (held.toList.map (k, ·)) = worth measure k held := by
  cases held <;> rfl

/-- A sum over a listing changes with the binding that is rewritten. -/
theorem total_alterIn (measure : κ × ν → Nat) (k : κ)
    (f : Option ν → Option ν) :
    ∀ {l : List (κ × ν)},
      l.Pairwise (fun a b => compare a.1 b.1 = .lt) →
        total measure (alterIn k f l) + worth measure k (findIn k l)
          = total measure l + worth measure k (f (findIn k l)) := by
  intro l
  induction l with
  | nil =>
      intro _
      rw [alterIn, total_toList_map, findIn, total]
      exact Nat.add_comm ..
  | cons c rest ih =>
      intro h
      obtain ⟨hc, hrest⟩ := List.pairwise_cons.1 h
      rw [alterIn]
      split
      · rename_i hk
        have hnone : findIn k (c :: rest) = none := findIn_eq_none_of_lt
          fun b hb => by
            rcases List.mem_cons.1 hb with rfl | hb
            · exact hk
            · exact Std.TransCmp.lt_trans hk (hc b hb)
        rw [hnone, total_append, total_toList_map]
        show _ + total measure (c :: rest) + 0 = _
        omega
      · rename_i hk
        obtain rfl := Std.LawfulEqOrd.eq_of_compare hk
        rw [total_append, total_toList_map, findIn, if_pos hk]
        show _ + total measure rest + measure (c.1, c.2)
          = measure (c.1, c.2) + total measure rest + _
        omega
      · rename_i hk
        have := ih hrest
        rw [findIn, hk, if_neg (by decide)]
        show measure c + total measure (alterIn k f rest) + _
          = measure c + total measure rest + _
        omega

end SortedMap

-- ================================================== intervals

namespace Entries

/-- The sum of a measure over the values whose keys extend a byte
string. -/
def tally (measure : Bytes → Nat) (stem : Bytes) (entries : Entries) : Nat :=
  total (fun b => measure b.2) (entries.within (.extending stem)).toList

variable (measure : Bytes → Nat) (entries : Entries) {stem key : Bytes}

/-- What a key counts for, if it extends the byte string. -/
theorem tally_alter (h : stem <+: key) (f : Option Bytes → Option Bytes) :
    tally measure stem (entries.alter key f)
        + (entries.get? key).elim 0 measure
      = tally measure stem entries
        + (f (entries.get? key)).elim 0 measure := by
  have hsum : ∀ e : Entries, tally measure stem e = total
      (fun b => if (KeyRange.extending stem).contains b.1 then measure b.2
        else 0) e.toList := fun e => total_filter ..
  have hworth : ∀ held : Option Bytes, SortedMap.worth (fun b : Bytes × Bytes =>
      if (KeyRange.extending stem).contains b.1 then measure b.2 else 0) key
        held = held.elim 0 measure := by
    intro held
    cases held with
    | none => rfl
    | some value => exact if_pos (KeyRange.contains_extending.2 h)
  have halter := SortedMap.total_alterIn (fun b : Bytes × Bytes =>
    if (KeyRange.extending stem).contains b.1 then measure b.2 else 0) key f
    entries.ascending
  rw [hworth, hworth] at halter
  rw [hsum, hsum]
  exact halter

theorem tally_insert (h : stem <+: key) (value : Bytes) :
    tally measure stem (entries.insert key value)
        + (entries.get? key).elim 0 measure
      = tally measure stem entries + measure value :=
  tally_alter measure entries h _

theorem tally_erase (h : stem <+: key) :
    tally measure stem (entries.erase key)
        + (entries.get? key).elim 0 measure
      = entries.tally measure stem :=
  tally_alter measure entries h _

/-- The sum within the interval is no greater than the sum of all. -/
theorem tally_le : tally measure stem entries
    ≤ total (fun b : Bytes × Bytes => measure b.2) entries.toList := by
  have hle : ∀ l : List (Bytes × Bytes),
      total (fun b => if (KeyRange.extending stem).contains b.1
        then measure b.2 else 0) l ≤ total (fun b => measure b.2) l := by
    intro l
    induction l with
    | nil => exact Nat.le_refl _
    | cons b rest ih =>
        rw [total, total]
        split
        · exact Nat.add_le_add_left ih _
        · omega
  exact Nat.le_trans (Nat.le_of_eq (total_filter ..)) (hle _)

theorem tally_congr {entries entries' : Entries}
    (h : ∀ key, stem <+: key → entries.get? key = entries'.get? key) :
    tally measure stem entries = tally measure stem entries' := by
  have heq : entries.within (.extending stem)
      = entries'.within (.extending stem) := by
    refine SortedMap.ext_get? fun key => ?_
    rw [get?_within, get?_within]
    split
    · rename_i hc
      exact h key (KeyRange.contains_extending.1 hc)
    · rfl
  rw [tally, tally, heq]

end Entries

end MergeOnWrite
