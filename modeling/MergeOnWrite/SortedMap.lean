/-
Finite maps kept as a list of bindings in strictly ascending key order.

The list is canonical: two maps that bind the same keys to the same
values are the same term (`SortedMap.ext_get?`), so equality of maps is
equality of their contents, and a listing is always in key order. The
kernel evaluates every operation by plain recursion on the list.

Every update goes through `alter`, which rewrites the binding of one
key; `get?_alter` is the only lemma about updates that has to be proved
by induction.

# Main statements

- `get?_alter`: after `alter k f` the key `k` holds `f` of what it held
  before, and every other key holds what it held.
- `mem_toList_iff`: the listing contains exactly the bindings that
  `get?` finds.
- `ext_get?`: a map is determined by `get?`.
-/

namespace MergeOnWrite

/-- A finite map: its bindings in strictly ascending key order. -/
structure SortedMap (κ : Type) (ν : Type) [Ord κ] where
  /-- The bindings, ascending by key. -/
  toList : List (κ × ν)
  ascending : toList.Pairwise fun a b => compare a.1 b.1 = .lt
deriving DecidableEq

namespace SortedMap

variable {κ ν : Type} [Ord κ]

-- ================================================== listings

def findIn (k : κ) : List (κ × ν) → Option ν
  | [] => none
  | (k', v) :: rest => if compare k k' = .eq then some v else findIn k rest

/-- Rewrites the binding of one key in an ascending listing: `f` is
given what the key holds and answers what it shall hold. -/
def alterIn (k : κ) (f : Option ν → Option ν) :
    List (κ × ν) → List (κ × ν)
  | [] => (f none).toList.map (k, ·)
  | (k', v) :: rest =>
    match compare k k' with
    | .lt => (f none).toList.map (k, ·) ++ (k', v) :: rest
    | .eq => (f (some v)).toList.map (k, ·) ++ rest
    | .gt => (k', v) :: alterIn k f rest

/-- The keys of an altered listing are old keys or the altered one. -/
theorem mem_alterIn {k : κ} {f : Option ν → Option ν} {b : κ × ν} :
    ∀ {l : List (κ × ν)}, b ∈ alterIn k f l → b ∈ l ∨ b.1 = k := by
  intro l
  induction l with
  | nil =>
      intro h
      simp only [alterIn, List.mem_map] at h
      obtain ⟨v, _, rfl⟩ := h
      exact .inr rfl
  | cons c rest ih =>
      intro h
      unfold alterIn at h
      split at h
      · rcases List.mem_append.1 h with h | h
        · obtain ⟨v, _, rfl⟩ := List.mem_map.1 h
          exact .inr rfl
        · exact .inl h
      · rcases List.mem_append.1 h with h | h
        · obtain ⟨v, _, rfl⟩ := List.mem_map.1 h
          exact .inr rfl
        · exact .inl (List.mem_cons_of_mem _ h)
      · rcases List.mem_cons.1 h with rfl | h
        · exact .inl (List.mem_cons_self ..)
        · exact (ih h).imp (List.mem_cons_of_mem _) id

theorem ascending_alterIn [Std.TransOrd κ] [Std.LawfulEqOrd κ] {k : κ}
    {f : Option ν → Option ν} :
    ∀ {l : List (κ × ν)},
      l.Pairwise (fun a b => compare a.1 b.1 = .lt) →
        (alterIn k f l).Pairwise fun a b => compare a.1 b.1 = .lt := by
  intro l
  induction l with
  | nil => intro _; cases h : f none <;> simp [alterIn, h]
  | cons c rest ih =>
      intro hl
      obtain ⟨hc, hrest⟩ := List.pairwise_cons.1 hl
      unfold alterIn
      split
      · rename_i hk
        cases f none with
        | none => exact hl
        | some v =>
            refine List.pairwise_cons.2 ⟨fun b hb => ?_, hl⟩
            rcases List.mem_cons.1 hb with rfl | hb
            · exact hk
            · exact Std.TransCmp.lt_trans hk (hc b hb)
      · rename_i hk
        cases f (some c.2) with
        | none => exact hrest
        | some v =>
            have hkc : k = c.1 := Std.LawfulEqOrd.eq_of_compare hk
            exact List.pairwise_cons.2 ⟨fun b hb => hkc ▸ hc b hb, hrest⟩
      · rename_i hk
        refine List.pairwise_cons.2 ⟨fun b hb => ?_, ih hrest⟩
        rcases mem_alterIn hb with hb | hb
        · exact hc b hb
        · exact hb ▸ Std.OrientedCmp.lt_of_gt hk

-- ================================================== operations

def empty : SortedMap κ ν := ⟨[], .nil⟩

instance : EmptyCollection (SortedMap κ ν) := ⟨empty⟩

instance : Inhabited (SortedMap κ ν) := ⟨empty⟩

def get? (m : SortedMap κ ν) (k : κ) : Option ν := findIn k m.toList

/-- The keys, ascending. -/
def keys (m : SortedMap κ ν) : List κ := m.toList.map Prod.fst

def size (m : SortedMap κ ν) : Nat := m.toList.length

/-- True when nothing is bound. -/
def isEmpty (m : SortedMap κ ν) : Bool := m.toList.isEmpty

/-- The bindings that satisfy a test. -/
def filter (p : κ → ν → Bool) (m : SortedMap κ ν) : SortedMap κ ν :=
  ⟨m.toList.filter fun b => p b.1 b.2, m.ascending.filter _⟩

/-- What a function makes of the bindings that it keeps. -/
def filterMap {μ : Type} (f : κ → ν → Option μ) (m : SortedMap κ ν) :
    SortedMap κ μ :=
  ⟨m.toList.filterMap fun b => (f b.1 b.2).map (b.1, ·), by
    refine m.ascending.filterMap _ fun a b hlt a' ha b' hb => ?_
    obtain ⟨u, -, rfl⟩ := Option.map_eq_some_iff.1 ha
    obtain ⟨v, -, rfl⟩ := Option.map_eq_some_iff.1 hb
    exact hlt⟩

section Updates

variable [Std.TransOrd κ] [Std.LawfulEqOrd κ]

/-- Rewrites the binding of one key. -/
def alter (m : SortedMap κ ν) (k : κ) (f : Option ν → Option ν) :
    SortedMap κ ν :=
  ⟨alterIn k f m.toList, ascending_alterIn m.ascending⟩

/-- Binds a key, replacing what it held. -/
def insert (m : SortedMap κ ν) (k : κ) (v : ν) : SortedMap κ ν :=
  m.alter k fun _ => some v

/-- Removes the binding of a key. -/
def erase (m : SortedMap κ ν) (k : κ) : SortedMap κ ν :=
  m.alter k fun _ => none

/-- Binds a key to `v`, or to `join u v` if it already holds `u`. -/
def insertWith (join : ν → ν → ν) (m : SortedMap κ ν) (k : κ) (v : ν) :
    SortedMap κ ν :=
  m.alter k fun held => some (held.elim v (join · v))

/-- Binds the pairs of a list one after another. -/
def ofList (pairs : List (κ × ν)) : SortedMap κ ν :=
  pairs.foldl (fun m b => m.insert b.1 b.2) ∅

/-- Merges the bindings of `other` in; a key bound on both sides holds
the join of both values. -/
def mergeWith (join : ν → ν → ν) (m other : SortedMap κ ν) :
    SortedMap κ ν :=
  other.toList.foldl (fun acc b => acc.insertWith join b.1 b.2) m

end Updates

-- ================================================== reading a map

@[simp] theorem get?_empty (k : κ) : (∅ : SortedMap κ ν).get? k = none := rfl

section Laws

variable [Std.TransOrd κ] [Std.LawfulEqOrd κ]

/-- What a listing binds after one key was altered. -/
theorem findIn_alterIn {k : κ} {f : Option ν → Option ν} (j : κ) :
    ∀ {l : List (κ × ν)},
      l.Pairwise (fun a b => compare a.1 b.1 = .lt) →
        findIn j (alterIn k f l)
          = if compare j k = .eq then f (findIn j l) else findIn j l := by
  intro l
  induction l with
  | nil =>
      intro _
      by_cases h : compare j k = .eq <;> cases hf : f none <;>
        simp [alterIn, findIn, h, hf]
  | cons c rest ih =>
      intro hl
      obtain ⟨hc, hrest⟩ := List.pairwise_cons.1 hl
      have habsent : ∀ i, (∀ b ∈ rest, compare i b.1 = .lt) →
          findIn i rest = none := by
        clear ih hl hc hrest
        induction rest with
        | nil => intro _ _; rfl
        | cons d r ihr =>
            intro i hi
            have hd := hi d (List.mem_cons_self ..)
            unfold findIn
            rw [if_neg (by rw [hd]; decide)]
            exact ihr i fun b hb => hi b (List.mem_cons_of_mem _ hb)
      unfold alterIn
      split
      · rename_i hk
        have hkr : findIn k rest = none := habsent k fun b hb =>
          Std.TransCmp.lt_trans hk (hc b hb)
        by_cases h : compare j k = .eq
        · obtain rfl := Std.LawfulEqOrd.eq_of_compare h
          cases hf : f none <;> simp [findIn, hk, hkr, hf]
        · cases hf : f none <;> simp [findIn, h]
      · rename_i hk
        obtain rfl := Std.LawfulEqOrd.eq_of_compare hk
        by_cases h : compare j c.1 = .eq
        · obtain rfl := Std.LawfulEqOrd.eq_of_compare h
          have hj := habsent c.1 hc
          cases hf : f (some c.2) <;> simp [findIn, hf, hj]
        · cases hf : f (some c.2) <;> simp [findIn, h]
      · rename_i hk
        by_cases h : compare j c.1 = .eq
        · obtain rfl := Std.LawfulEqOrd.eq_of_compare h
          have hjk : compare c.1 k ≠ .eq := by
            rw [Std.OrientedCmp.lt_of_gt hk]; decide
          simp [findIn, hjk]
        · simp only [findIn, h, if_false]
          exact ih hrest

theorem get?_alter (m : SortedMap κ ν) (k j : κ)
    (f : Option ν → Option ν) :
    (m.alter k f).get? j
      = if compare j k = .eq then f (m.get? j) else m.get? j :=
  findIn_alterIn j m.ascending

@[simp] theorem get?_insert (m : SortedMap κ ν) (k j : κ) (v : ν) :
    (m.insert k v).get? j
      = if compare j k = .eq then some v else m.get? j :=
  get?_alter ..

@[simp] theorem get?_erase (m : SortedMap κ ν) (k j : κ) :
    (m.erase k).get? j
      = if compare j k = .eq then none else m.get? j :=
  get?_alter ..

omit [Std.TransOrd κ] in
/-- A listing holds exactly the bindings that are found in it. -/
theorem mem_iff_findIn {k : κ} {v : ν} :
    ∀ {l : List (κ × ν)},
      l.Pairwise (fun a b => compare a.1 b.1 = .lt) →
        ((k, v) ∈ l ↔ findIn k l = some v) := by
  intro l
  induction l with
  | nil => intro _; simp [findIn]
  | cons c rest ih =>
      intro hl
      obtain ⟨hc, hrest⟩ := List.pairwise_cons.1 hl
      unfold findIn
      by_cases h : compare k c.1 = .eq
      · obtain rfl := Std.LawfulEqOrd.eq_of_compare h
        rw [if_pos h]
        refine ⟨fun hm => ?_, fun hv => ?_⟩
        · rcases List.mem_cons.1 hm with hm | hm
          · rw [← hm]
          · have := hc _ hm
            rw [h] at this
            cases this
        · rw [← Option.some.inj hv]
          exact List.mem_cons_self ..
      · rw [if_neg h, ← ih hrest]
        refine ⟨fun hm => ?_, fun hm => List.mem_cons_of_mem _ hm⟩
        rcases List.mem_cons.1 hm with hm | hm
        · exact absurd (by rw [← hm]; exact Std.ReflOrd.compare_self) h
        · exact hm

omit [Std.TransOrd κ] in
/-- The listing of a map holds exactly the bindings `get?` finds. -/
theorem mem_toList_iff {m : SortedMap κ ν} {k : κ} {v : ν} :
    (k, v) ∈ m.toList ↔ m.get? k = some v :=
  mem_iff_findIn m.ascending

/-- Two ascending listings with the same members are the same list. -/
theorem eq_of_mem_iff :
    ∀ {l r : List (κ × ν)},
      l.Pairwise (fun a b => compare a.1 b.1 = .lt) →
      r.Pairwise (fun a b => compare a.1 b.1 = .lt) →
        (∀ b, b ∈ l ↔ b ∈ r) → l = r := by
  intro l
  induction l with
  | nil =>
      intro r _ _ hmem
      cases r with
      | nil => rfl
      | cons d _ => exact absurd ((hmem d).2 (List.mem_cons_self ..)) (by simp)
  | cons c l ih =>
      intro r hl hr hmem
      cases r with
      | nil => exact absurd ((hmem c).1 (List.mem_cons_self ..)) (by simp)
      | cons d r =>
          obtain ⟨hc, hlt⟩ := List.pairwise_cons.1 hl
          obtain ⟨hd, hrt⟩ := List.pairwise_cons.1 hr
          have hcd : c = d := by
            rcases List.mem_cons.1 ((hmem c).1 (List.mem_cons_self ..))
              with e | e
            · exact e
            · rcases List.mem_cons.1 ((hmem d).2 (List.mem_cons_self ..))
                with e' | e'
              · exact e'.symm
              · exact absurd (Std.TransCmp.lt_trans (hd c e) (hc d e'))
                  (by rw [Std.ReflOrd.compare_self]; decide)
          subst hcd
          refine congrArg (c :: ·) (ih hlt hrt fun b => ⟨fun hb => ?_, fun hb => ?_⟩)
          · rcases List.mem_cons.1 ((hmem b).1 (List.mem_cons_of_mem _ hb))
              with e | e
            · exact absurd (hc b hb)
                (by rw [e, Std.ReflOrd.compare_self]; decide)
            · exact e
          · rcases List.mem_cons.1 ((hmem b).2 (List.mem_cons_of_mem _ hb))
              with e | e
            · exact absurd (hd b hb)
                (by rw [e, Std.ReflOrd.compare_self]; decide)
            · exact e

omit [Std.TransOrd κ] in
theorem get?_filterMap {μ : Type} (m : SortedMap κ ν) (f : κ → ν → Option μ)
    (k : κ) : (m.filterMap f).get? k = (m.get? k).bind (f k) := by
  refine Option.ext fun v => ?_
  rw [← mem_toList_iff, Option.bind_eq_some_iff, filterMap,
    List.mem_filterMap]
  constructor
  · intro ⟨b, hb, hv⟩
    obtain ⟨u, hu, heq⟩ := Option.map_eq_some_iff.1 hv
    cases heq
    exact ⟨b.2, mem_toList_iff.1 hb, hu⟩
  · intro ⟨u, hu, hv⟩
    exact ⟨(k, u), mem_toList_iff.2 hu, Option.map_eq_some_iff.2 ⟨v, hv, rfl⟩⟩

omit [Std.TransOrd κ] [Std.LawfulEqOrd κ] in
/-- Nothing is bound below the first key of an ascending listing. -/
theorem findIn_eq_none_of_lt {k : κ} :
    ∀ {l : List (κ × ν)}, (∀ b ∈ l, compare k b.1 = .lt) →
      findIn k l = none := by
  intro l
  induction l with
  | nil => intro _; rfl
  | cons b rest ih =>
      intro h
      rw [findIn, h b (List.mem_cons_self ..), if_neg (by decide)]
      exact ih fun x hx => h x (List.mem_cons_of_mem _ hx)

/-- What the bindings of one map make of another one, each at its own key. -/
theorem get?_foldl_alter {μ : Type} (f : μ → Option ν → Option ν)
    (changes : SortedMap κ μ) (m : SortedMap κ ν) (j : κ) :
    (changes.toList.foldl (fun m b => m.alter b.1 (f b.2)) m).get? j
      = (changes.get? j).elim (m.get? j) fun v => f v (m.get? j) := by
  have hfoldl : ∀ (l : List (κ × μ)) (m : SortedMap κ ν),
      l.Pairwise (fun a b => compare a.1 b.1 = .lt) →
        (l.foldl (fun m b => m.alter b.1 (f b.2)) m).get? j
          = (findIn j l).elim (m.get? j) fun v => f v (m.get? j) := by
    intro l
    induction l with
    | nil => intro _ _; rfl
    | cons c rest ih =>
        intro m hl
        obtain ⟨hc, hrest⟩ := List.pairwise_cons.1 hl
        rw [List.foldl_cons, ih _ hrest, get?_alter, findIn]
        by_cases h : compare j c.1 = .eq
        · obtain rfl := Std.LawfulEqOrd.eq_of_compare h
          rw [findIn_eq_none_of_lt hc, if_pos h, if_pos h]
          rfl
        · rw [if_neg h, if_neg h]
  exact hfoldl changes.toList m changes.ascending

/-- A map is determined by what it binds. -/
theorem ext_get? {m n : SortedMap κ ν} (h : ∀ k, m.get? k = n.get? k) :
    m = n := by
  have hlist : m.toList = n.toList :=
    eq_of_mem_iff m.ascending n.ascending fun b => by
      rw [show b = (b.1, b.2) from rfl, mem_toList_iff, mem_toList_iff, h]
  cases m
  cases n
  cases hlist
  rfl

end Laws

end SortedMap

-- ================================================== sets

/-- A finite set, kept as a map that binds its members to nothing. -/
abbrev SortedSet (κ : Type) [Ord κ] := SortedMap κ Unit

def SortedSet.ofList {κ : Type} [Ord κ] [Std.TransOrd κ]
    [Std.LawfulEqOrd κ] (members : List κ) : SortedSet κ :=
  SortedMap.ofList (members.map (·, ()))

end MergeOnWrite
