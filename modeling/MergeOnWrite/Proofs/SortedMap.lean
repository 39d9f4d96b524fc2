/-
More laws of sorted maps: filtering, membership of keys, and maps without
bindings, each told by `get?`.

# Main statements

- `iff_of_foldl`: what a scan adds up to.
- `get?_filter`: a filtered map finds what the map finds and the test
  accepts.
- `mem_keys`: the keys of a map are those at which it finds something.
- `get?_foldl_insert`: after insertions at different keys, each of them
  finds its value.
- `get?_mergeWith`: a merged map finds the join of what both maps find.
- `SortedSet.ofList_keys`: a set is the set of its members.
-/
import MergeOnWrite.SortedMap

namespace MergeOnWrite

/-- What a scan has found is what it started with and what each of its steps
adds. -/
theorem iff_of_foldl {α σ : Type} {step : σ → α → σ} (has : σ → Prop)
    (adds : α → Prop) :
    ∀ {l : List α} {s : σ},
      (∀ s, ∀ a ∈ l, has (step s a) ↔ has s ∨ adds a) →
        (has (l.foldl step s) ↔ has s ∨ ∃ a ∈ l, adds a) := by
  intro l
  induction l with
  | nil => intro s _; simp
  | cons a rest ih =>
      intro s h
      rw [List.foldl_cons, ih fun s a' ha' => h s a' (List.mem_cons_of_mem _ ha'),
        h s a (List.mem_cons_self ..), or_assoc]
      simp

namespace SortedMap

variable {κ ν : Type} [Ord κ] [Std.TransOrd κ] [Std.LawfulEqOrd κ]

theorem get?_insert_self (m : SortedMap κ ν) (k : κ) (v : ν) :
    (m.insert k v).get? k = some v := by
  rw [get?_insert, if_pos Std.ReflOrd.compare_self]

theorem get?_insert_of_ne (m : SortedMap κ ν) {j k : κ} (v : ν)
    (h : j ≠ k) : (m.insert k v).get? j = m.get? j := by
  rw [get?_insert, if_neg fun hc => h (Std.LawfulEqOrd.compare_eq_iff_eq.1 hc)]

/-- To insert what is there already changes nothing. -/
theorem insert_of_get? {m : SortedMap κ ν} {k : κ} {v : ν}
    (h : m.get? k = some v) : m.insert k v = m := by
  refine ext_get? fun j => ?_
  by_cases hj : j = k
  · rw [hj, get?_insert_self, h]
  · exact get?_insert_of_ne _ _ hj

theorem get?_erase_self (m : SortedMap κ ν) (k : κ) :
    (m.erase k).get? k = none := by
  rw [get?_erase, if_pos Std.ReflOrd.compare_self]

theorem get?_erase_of_ne (m : SortedMap κ ν) {j k : κ} (h : j ≠ k) :
    (m.erase k).get? j = m.get? j := by
  rw [get?_erase, if_neg fun hc => h (Std.LawfulEqOrd.compare_eq_iff_eq.1 hc)]

omit [Std.TransOrd κ] in
/-- A filtered map finds what the map finds and the test accepts. -/
theorem get?_filter (m : SortedMap κ ν) (p : κ → ν → Bool) (k : κ) :
    (m.filter p).get? k = (m.get? k).filter (p k) := by
  refine Option.ext fun v => ?_
  rw [← mem_toList_iff, Option.filter_eq_some_iff, ← mem_toList_iff]
  exact List.mem_filter

omit [Std.TransOrd κ] in
theorem mem_keys {m : SortedMap κ ν} {k : κ} :
    k ∈ m.keys ↔ (m.get? k).isSome := by
  rw [Option.isSome_iff_exists]
  constructor
  · intro h
    obtain ⟨b, hb, rfl⟩ := List.mem_map.1 h
    exact ⟨b.2, mem_toList_iff.1 hb⟩
  · rintro ⟨v, hv⟩
    exact List.mem_map.2 ⟨(k, v), mem_toList_iff.2 hv, rfl⟩

theorem mem_keys_insert {m : SortedMap κ ν} {j k : κ} {v : ν} :
    j ∈ (m.insert k v).keys ↔ j = k ∨ j ∈ m.keys := by
  rw [mem_keys, mem_keys]
  by_cases h : j = k
  · rw [h, get?_insert_self]
    simp
  · rw [get?_insert_of_ne _ _ h, or_iff_right h]

omit [Std.TransOrd κ] [Std.LawfulEqOrd κ] in
/-- No key is bound twice. -/
theorem nodup_keys [Std.ReflOrd κ] (m : SortedMap κ ν) : m.keys.Nodup := by
  refine List.pairwise_map.2 (m.ascending.imp fun hlt heq => ?_)
  rw [heq, Std.ReflOrd.compare_self] at hlt
  cases hlt

omit [Std.TransOrd κ] [Std.LawfulEqOrd κ] in
theorem eq_empty_of_isEmpty {m : SortedMap κ ν} (h : m.isEmpty = true) :
    m = ∅ := by
  obtain ⟨l, hl⟩ := m
  obtain rfl : l = [] := List.isEmpty_iff.1 h
  rfl

theorem get?_insertWith_self (m : SortedMap κ ν) (join : ν → ν → ν) (k : κ)
    (v : ν) :
    (m.insertWith join k v).get? k = Option.merge join (m.get? k) (some v) := by
  rw [insertWith, get?_alter, if_pos Std.ReflOrd.compare_self]
  cases m.get? k <;> rfl

theorem get?_insertWith_of_ne (m : SortedMap κ ν) (join : ν → ν → ν) {j k : κ}
    (v : ν) (h : j ≠ k) : (m.insertWith join k v).get? j = m.get? j := by
  rw [insertWith, get?_alter,
    if_neg fun hc => h (Std.LawfulEqOrd.compare_eq_iff_eq.1 hc)]

/-- A merged map finds the join of what both maps find. -/
theorem get?_mergeWith (join : ν → ν → ν) (m other : SortedMap κ ν) (k : κ) :
    (m.mergeWith join other).get? k
      = Option.merge join (m.get? k) (other.get? k) := by
  have halter := get?_foldl_alter (fun v held => some (held.elim v (join · v)))
    other m k
  refine halter.trans ?_
  cases other.get? k with
  | none => exact Option.merge_none_right.symm
  | some v => cases m.get? k <;> rfl

/-- Insertions at other keys change nothing. -/
theorem get?_foldl_insert_of_ne {α : Type} {key : α → κ} {value : α → ν}
    {k : κ} :
    ∀ {l : List α} {m : SortedMap κ ν}, (∀ a ∈ l, k ≠ key a) →
      (l.foldl (fun m a => m.insert (key a) (value a)) m).get? k
        = m.get? k := by
  intro l
  induction l with
  | nil => intro m _; rfl
  | cons a rest ih =>
      intro m h
      rw [List.foldl_cons, ih fun b hb => h b (List.mem_cons_of_mem _ hb),
        get?_insert_of_ne _ _ (h a (List.mem_cons_self ..))]

/-- After insertions at different keys, each of them finds its value. -/
theorem get?_foldl_insert {α : Type} {key : α → κ} {value : α → ν} {a : α} :
    ∀ {l : List α} {m : SortedMap κ ν},
      l.Pairwise (fun a b => key a ≠ key b) → a ∈ l →
        (l.foldl (fun m a => m.insert (key a) (value a)) m).get? (key a)
          = some (value a) := by
  intro l
  induction l with
  | nil => intro m _ h; cases h
  | cons b rest ih =>
      intro m hl ha
      obtain ⟨hb, hrest⟩ := List.pairwise_cons.1 hl
      rw [List.foldl_cons]
      rcases List.mem_cons.1 ha with rfl | ha
      · rw [get?_foldl_insert_of_ne hb, get?_insert_self]
      · exact ih hrest ha

end SortedMap

namespace SortedSet

variable {κ : Type} [Ord κ] [Std.TransOrd κ] [Std.LawfulEqOrd κ]

/-- The members of a list are those of its set. -/
theorem get?_ofList_isSome {members : List κ} {k : κ} :
    ((ofList members).get? k).isSome ↔ k ∈ members := by
  rw [ofList, SortedMap.ofList, iff_of_foldl
    (fun m : SortedSet κ => (m.get? k).isSome = true) (fun b => b.1 = k)]
  · simp
  · intro m b _
    by_cases h : k = b.1
    · subst h
      rw [SortedMap.get?_insert_self]
      simp
    · rw [SortedMap.get?_insert_of_ne _ _ h]
      simp [Ne.symm h]

/-- A set is determined by its members. -/
theorem ext_isSome {s t : SortedSet κ}
    (h : ∀ k, (s.get? k).isSome ↔ (t.get? k).isSome) : s = t := by
  refine SortedMap.ext_get? fun k => ?_
  cases hk : t.get? k with
  | none =>
      have hmem := h k
      rw [hk, Option.isSome_none] at hmem
      exact Option.not_isSome_iff_eq_none.1 (mt hmem.1 Bool.false_ne_true)
  | some u =>
      have hmem := h k
      rw [hk, Option.isSome_some] at hmem
      obtain ⟨v, hv⟩ := Option.isSome_iff_exists.1 (hmem.2 rfl)
      exact hv

/-- A set is the set of its members. -/
theorem ofList_keys (s : SortedSet κ) : ofList s.keys = s := by
  apply ext_isSome
  intro k
  exact get?_ofList_isSome.trans SortedMap.mem_keys

/-- Neither the order nor the repetition of its members matters to a set. -/
theorem ofList_congr {members others : List κ}
    (h : ∀ k, k ∈ members ↔ k ∈ others) : ofList members = ofList others := by
  apply ext_isSome
  intro k
  exact get?_ofList_isSome.trans ((h k).trans get?_ofList_isSome.symm)

end SortedSet

end MergeOnWrite
