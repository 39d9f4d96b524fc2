/-
A set of rows reads back from its portable bytes.

What is written in front of the containers describes each of them: its
high bits, its number of rows, and with it the form it is written in. The
containers that are read are the containers that were written, run by
run, whatever follows them.

# Main statements

- `readContainer_toBytes`: one container reads back from its bytes.
- `decodeAll_encode`: all containers of a set read back.
- `decode_encode`: a set reads back from its bytes.
-/
import MergeOnWrite.Proofs.RowSet.Bits
import MergeOnWrite.Proofs.RowSet.Containers

namespace MergeOnWrite.RowSet

-- ================================================== numbers

/-- Two bytes tell the number modulo 65536. -/
theorem read16_bytes16 (n : Nat) (rest : Bytes) :
    read16 (bytes16 n ++ rest) = .ok (n % 65536, rest) := by
  show Except.ok ((UInt8.ofNat (n % 256)).toNat
    + 256 * (UInt8.ofNat (n / 256 % 256)).toNat, rest) = _
  rw [UInt8.toNat_ofNat', UInt8.toNat_ofNat']
  refine congrArg (fun m => Except.ok (m, rest)) ?_
  omega

theorem read32_bytes32 {n : Nat} (h : n < 4294967296) (rest : Bytes) :
    read32 (bytes32 n ++ rest) = .ok (n, rest) := by
  unfold read32 bytes32
  rw [List.append_assoc, read16_bytes16]
  show (read16 (bytes16 (n / 65536) ++ rest)).bind
    (fun high => .ok (n % 65536 % 65536 + 65536 * high.1, high.2)) = _
  rw [read16_bytes16]
  refine congrArg (fun m => Except.ok (m, rest)) ?_
  omega

theorem numbers16_append (n : Nat) (rest : Bytes) :
    numbers16 (bytes16 n ++ rest) = n % 65536 :: numbers16 rest := by
  show ((UInt8.ofNat (n % 256)).toNat
    + 256 * (UInt8.ofNat (n / 256 % 256)).toNat) :: numbers16 rest = _
  rw [UInt8.toNat_ofNat', UInt8.toNat_ofNat']
  refine congrArg (· :: numbers16 rest) ?_
  omega

/-- Numbers below 65536 read back. -/
theorem numbers16_flatMap :
    ∀ {values : List Nat}, (∀ v ∈ values, v < 65536) →
      numbers16 (values.flatMap bytes16) = values := by
  intro values
  induction values with
  | nil => intro _; rfl
  | cons v rest ih =>
      intro h
      rw [List.flatMap_cons, numbers16_append,
        Nat.mod_eq_of_lt (h v (List.mem_cons_self ..)),
        ih fun u hu => h u (List.mem_cons_of_mem _ hu)]

/-- Every number has two bytes. -/
theorem length_flatMap_bytes16 (values : List Nat) :
    (values.flatMap bytes16).length = 2 * values.length := by
  induction values with
  | nil => rfl
  | cons v rest ih =>
      rw [List.flatMap_cons, List.length_append, ih, List.length_cons]
      show 2 + _ = _
      omega

theorem readBytes_append {n : Nat} {front : Bytes} (h : front.length = n)
    (rest : Bytes) : readBytes n (front ++ rest) = .ok (front, rest) := by
  have hle : ¬ (front ++ rest).length < n := by
    rw [List.length_append]
    omega
  rw [readBytes, if_neg hle, ← h, List.take_left, List.drop_left]

-- ================================================== rows of a container

namespace Container

theorem length_values (c : Container) :
    c.values.length = c.cardinality :=
  length_runRows c.lows

theorem mem_values {c : Container} {v : Nat} :
    v ∈ c.values ↔ ∃ r ∈ c.lows, r.lo ≤ v ∧ v ≤ r.hi :=
  mem_runRows

theorem ascending_values {c : Container} (h : Separated c.lows) :
    c.values.Pairwise (· < ·) :=
  ascending_runRows h

end Container

/-- Ascending numbers pass the check of arrays. -/
theorem isIncreasing_of_ascending :
    ∀ {values : List Nat}, values.Pairwise (· < ·) →
      isIncreasing values = true := by
  intro values
  induction values with
  | nil => intro _; rfl
  | cons a rest ih =>
      intro h
      obtain ⟨ha, hrest⟩ := List.pairwise_cons.1 h
      cases rest with
      | nil => rfl
      | cons b rest =>
          rw [isIncreasing, ih hrest, Bool.and_true]
          exact decide_eq_true (ha b (List.mem_cons_self ..))

theorem lowRuns_values {g : Group} (h : g.IsValid) :
    lowRuns (singles (Container.ofLows g.1 g.2).values) = g.2 := by
  refine runs_ext (ofRuns _).separated h.separated
    (fun x hx => ((ofRuns _).valid x hx).1) (fun x hx => (h.low x hx).lo_le)
    fun row => ?_
  show row ∈ ofRuns _ ↔ _
  rw [mem_ofRuns]
  constructor
  · rintro ⟨x, hx, -, hc⟩
    obtain ⟨v, hv, rfl⟩ := List.mem_map.1 hx
    obtain ⟨r, hr, h1, h2⟩ := Container.mem_values.1 hv
    obtain rfl : row = v := Nat.le_antisymm hc.2 hc.1
    exact ⟨r, hr, h1, h2⟩
  · rintro ⟨r, hr, hc⟩
    have hlow := (h.low r hr).hi_lt
    have hhi := hc.2
    refine ⟨⟨row, row⟩, List.mem_map_of_mem
      (Container.mem_values.2 ⟨r, hr, hc⟩), ⟨Nat.le_refl _, ?_⟩,
      Nat.le_refl _, Nat.le_refl _⟩
    simp only [Run.bound]
    omega

/-- A group has between one and 65536 rows. -/
theorem Group.IsValid.rows_bounds {g : Group} (h : g.IsValid) :
    1 ≤ total Run.length g.2 ∧ total Run.length g.2 ≤ 65536 := by
  have hlen : (Container.ofLows g.1 g.2).values.length
      = total Run.length g.2 := Container.length_values _
  rw [← hlen]
  constructor
  · obtain ⟨r, hr⟩ := List.exists_mem_of_ne_nil _ h.ne_nil
    exact List.length_pos_of_mem (Container.mem_values.2
      ⟨r, hr, Nat.le_refl _, (h.low r hr).lo_le⟩)
  · have hasc : (Container.ofLows g.1 g.2).values.Pairwise (· < ·) :=
      Container.ascending_values h.separated
    refine length_le_of_ascending 65536 0 hasc fun v hv => ⟨Nat.zero_le v, ?_⟩
    obtain ⟨r, hr, -, h2⟩ := Container.mem_values.1 hv
    have := (h.low r hr).hi_lt
    omega

-- ================================================== containers

/-- The container of a valid group. -/
def Group.container (g : Group) : Container := Container.ofLows g.1 g.2

/-- What is told in front of a container of one group. -/
def Group.description (g : Group) : Description :=
  ⟨g.1, g.container.cardinality, false⟩

/-- A container reads back from its bytes. -/
theorem readContainer_toBytes {g : Group} (h : g.IsValid) (rest : Bytes) :
    readContainer g.description (g.container.toBytes ++ rest)
      = .ok (g.container, rest) := by
  have hlen := Container.length_values g.container
  have hasc : g.container.values.Pairwise (· < ·) :=
    Container.ascending_values h.separated
  have hlow : ∀ v ∈ g.container.values, v < 65536 := by
    intro v hv
    obtain ⟨r, hr, -, h2⟩ := Container.mem_values.1 hv
    have := (h.low r hr).hi_lt
    omega
  have hruns : lowRuns (singles g.container.values) = g.2 := lowRuns_values h
  unfold readContainer Group.description
  simp only [Bool.false_eq_true, if_false]
  by_cases hsize : g.container.cardinality ≤ arrayLimit
  · have hform : g.container.form = .array := if_pos hsize
    have hdata : (g.container.values.flatMap bytes16).length
        = 2 * g.container.cardinality := by
      rw [length_flatMap_bytes16, hlen]
    rw [if_pos hsize, Container.toBytes, hform]
    simp only [readBytes_append hdata, numbers16_flatMap hlow,
      isIncreasing_of_ascending hasc, hruns, bind, Except.bind, pure,
      Except.pure, if_true]
    rw [← hform]
    rfl
  · have hform : g.container.form = .bitmap := if_neg hsize
    have hdata : (Container.packBytes 8192 0 g.container.values).length = 8192 :=
      length_packBytes ..
    have hvalues : unpackBytes 0
        (Container.packBytes 8192 0 g.container.values) = g.container.values :=
      unpackBytes_packBytes hasc fun v hv =>
        ⟨Nat.zero_le v, by have := hlow v hv; omega⟩
    rw [if_neg hsize, Container.toBytes, hform]
    simp only [readBytes_append hdata, hvalues, hlen, hruns, bind,
      Except.bind, pure, Except.pure, if_true]
    rw [← hform]
    rfl

theorem readContainers_flatMap :
    ∀ {l : List Group}, (∀ g ∈ l, g.IsValid) → ∀ rest : Bytes,
      readContainers (l.map Group.description)
        ((l.map Group.container).flatMap Container.toBytes ++ rest)
        = .ok (l.map Group.container) := by
  intro l
  induction l with
  | nil => intro _ rest; rfl
  | cons g l ih =>
      intro h rest
      rw [List.map_cons, List.map_cons, List.flatMap_cons, List.append_assoc,
        readContainers, readContainer_toBytes (h g (List.mem_cons_self ..))]
      show (do return g.container :: (← readContainers _ _)) = _
      rw [ih (fun x hx => h x (List.mem_cons_of_mem _ hx)) rest]
      rfl

theorem descriptions_flatMap :
    ∀ {l : List Group} (i : Nat), (∀ g ∈ l, g.IsValid) →
      descriptions (fun _ => false) i
        (numbers16 ((l.map Group.container).flatMap Container.description))
        = l.map Group.description := by
  intro l
  induction l with
  | nil => intro _ _; rfl
  | cons g l ih =>
      intro i h
      have hvalid := h g (List.mem_cons_self ..)
      obtain ⟨h1, h2⟩ := hvalid.rows_bounds
      have hcard : g.container.cardinality = total Run.length g.2 := rfl
      have hhigh : g.container.high = g.1 := rfl
      have hlt := hvalid.high_lt
      rw [List.map_cons, List.map_cons, List.flatMap_cons,
        Container.description, List.append_assoc, numbers16_append,
        numbers16_append, descriptions,
        ih (i + 1) fun x hx => h x (List.mem_cons_of_mem _ hx)]
      refine congrArg (· :: _) ?_
      rw [Group.description, hhigh, Nat.mod_eq_of_lt hlt,
        show (g.container.cardinality + 65535) % 65536 + 1
          = g.container.cardinality by omega]

/-- Every container has an offset of four bytes. -/
theorem length_offsets :
    ∀ (cs : List Container) (start : Nat),
      (Container.offsets start cs).length = 4 * cs.length := by
  intro cs
  induction cs with
  | nil => intro _; rfl
  | cons c rest ih =>
      intro start
      rw [Container.offsets, List.length_append, ih, List.length_cons]
      show 4 + _ = _
      omega

theorem length_descriptions :
    ∀ cs : List Container,
      (cs.flatMap Container.description).length = 4 * cs.length := by
  intro cs
  induction cs with
  | nil => rfl
  | cons c rest ih =>
      rw [List.flatMap_cons, List.length_append, ih, List.length_cons]
      show 4 + _ = _
      omega

-- ================================================== sets

/-- A set has no more containers than there are high bits. -/
theorem length_containers_le (s : RowSet) : s.containers.length ≤ 65536 := by
  have hle := length_le_of_ascending 65536 0
    (List.pairwise_map.2 s.grouped_groups.ascending) fun n hn => by
      obtain ⟨g, hg, rfl⟩ := List.mem_map.1 hn
      exact ⟨Nat.zero_le _, (s.grouped_groups.valid g hg).high_lt⟩
  rw [containers_eq, List.length_map]
  rwa [List.length_map] at hle

/-- All containers of a set read back, whatever follows them. -/
theorem decodeAll_encode (s : RowSet) (rest : Bytes) :
    Container.decodeAll (s.encode ++ rest) = .ok s.containers := by
  have hgroups : s.containers = s.groups.map Group.container := rfl
  have hvalid := s.grouped_groups.valid
  have hcount := s.length_containers_le
  unfold encode Container.encodeAll Container.decodeAll
  simp only [List.append_assoc]
  rw [read32_bytes32 (by decide)]
  simp only [bind, Except.bind, if_true]
  rw [read32_bytes32 (by omega)]
  have hle : ¬ 65536 < s.containers.length := by omega
  simp only [pure, Except.pure, hle, if_false,
    readBytes_append (length_descriptions s.containers), Option.isNone_none,
    true_or, if_true, readBytes_append (length_offsets s.containers _),
    Option.any_none]
  rw [hgroups, descriptions_flatMap 0 hvalid]
  exact readContainers_flatMap hvalid rest

/-- A set reads back from its portable bytes, whatever follows them. -/
theorem decode_encode_append (s : RowSet) (rest : Bytes) :
    decode (s.encode ++ rest) = .ok s := by
  rw [decode, s.decodeAll_encode]
  exact congrArg Except.ok s.ofContainers_containers

/-- A set reads back from its portable bytes. -/
theorem decode_encode (s : RowSet) : decode s.encode = .ok s := by
  have h := s.decode_encode_append []
  rwa [List.append_nil] at h

end MergeOnWrite.RowSet
