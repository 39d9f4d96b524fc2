/-
The portable bytes of a set of rows are read as a whole or not at all.

A reader needs all of some bytes if it is refused every part of them
(`NeedsAll`). Bytes that are read one after another are needed together: a
part of them either ends within the first ones, or has all of these and ends
within those that follow, where the reader goes on as it does when nothing
is missing. So what is needed is put together in the order in which it is
read: the cookie, the number of containers, what is told of each of them,
the offsets, and the containers.

# Main statements

- `NeedsAll.append`, `NeedsAll.bind`: bytes that are read after others.
- `needsAll_encode`: all bytes of a set are needed.
- `portable_exact`: a set is what its bytes tell, with anything behind them
  and with nothing missing from them.
-/
import MergeOnWrite.Proofs.RowSet.RoundTrip

namespace MergeOnWrite.RowSet

variable {α β : Type}

-- ================================================== bytes in sequence

/-- True of a reader that is refused every part of some bytes. -/
def NeedsAll (read : Bytes → Except PortableError α) (bytes : Bytes) : Prop :=
  ∀ front, front <+: bytes → front ≠ bytes → read front = .error .truncated

/-- No bytes have no part that is missing something. -/
theorem needsAll_nil (read : Bytes → Except PortableError α) :
    NeedsAll read [] := by
  intro front hfront hne
  exact absurd (List.prefix_nil.1 hfront) hne

/-- A reader that goes on after another one needs what that one needs. -/
theorem NeedsAll.andThen {read : Bytes → Except PortableError α} {bytes : Bytes}
    (h : NeedsAll read bytes) (next : α → Except PortableError β) :
    NeedsAll (fun bytes => read bytes >>= next) bytes := by
  intro front hfront hne
  show read front >>= next = _
  rw [h front hfront hne]
  rfl

/-- Bytes that are needed behind others are needed together with them. -/
theorem NeedsAll.append {read : Bytes → Except PortableError α}
    {first second : Bytes} (hfirst : NeedsAll read first)
    (hsecond : NeedsAll (fun rest => read (first ++ rest)) second) :
    NeedsAll read (first ++ second) := by
  intro front hfront hne
  by_cases hle : first <+: front
  · obtain ⟨rest, rfl⟩ := hle
    apply hsecond rest
    · exact (List.prefix_append_right_inj first).1 hfront
    · exact fun h => hne (h ▸ rfl)
  · have hpart := List.prefix_or_prefix_of_prefix hfront
      (List.prefix_append first second)
    apply hfirst front (hpart.resolve_right hle)
    exact fun h => hle (h ▸ List.prefix_rfl)

/-- What is needed by a reader that goes on with what the first one found
and left over. -/
theorem NeedsAll.bind {read : Bytes → Except PortableError (α × Bytes)}
    {next : α × Bytes → Except PortableError β} {first second : Bytes} {a : α}
    (hfirst : NeedsAll read first)
    (hreads : ∀ rest, read (first ++ rest) = .ok (a, rest))
    (hsecond : NeedsAll (fun rest => next (a, rest)) second) :
    NeedsAll (fun bytes => read bytes >>= next) (first ++ second) := by
  apply (hfirst.andThen next).append
  simp only [hreads]
  exact hsecond

-- ================================================== numbers and blocks

/-- A part of some bytes that is missing something is shorter. -/
theorem length_lt_of_part {front bytes : Bytes} (hfront : front <+: bytes)
    (hne : front ≠ bytes) : front.length < bytes.length :=
  Nat.lt_of_le_of_ne hfront.length_le fun h => hne (hfront.eq_of_length h)

theorem needsAll_read16 (n : Nat) : NeedsAll read16 (bytes16 n) := by
  intro front hfront hne
  have hlt : front.length < 2 := length_lt_of_part hfront hne
  match front, hlt with
  | [], _ => rfl
  | [_], _ => rfl

theorem needsAll_read32 (n : Nat) : NeedsAll read32 (bytes32 n) := by
  apply (needsAll_read16 _).bind (read16_bytes16 _)
  exact (needsAll_read16 _).andThen _

theorem needsAll_readBytes {n : Nat} {data : Bytes} (h : data.length = n) :
    NeedsAll (readBytes n) data := by
  intro front hfront hne
  have hlt := length_lt_of_part hfront hne
  rw [readBytes, if_pos (by omega)]

-- ================================================== containers

/-- A container has as many bytes as its offsets allow for. -/
theorem length_toBytes (c : Container) : c.toBytes.length = c.size := by
  unfold Container.toBytes Container.size
  cases c.form with
  | array =>
      simp only
      rw [length_flatMap_bytes16, c.length_values]
  | bitmap => exact length_packBytes ..

theorem needsAll_readContainer (g : Group) :
    NeedsAll (readContainer g.description) g.container.toBytes := by
  intro front hfront hne
  have hlt := length_lt_of_part hfront hne
  rw [length_toBytes] at hlt
  unfold readContainer Group.description
  simp only [Bool.false_eq_true, if_false]
  by_cases hsize : g.container.cardinality ≤ arrayLimit
  · have hform : g.container.form = .array := if_pos hsize
    rw [Container.size, hform] at hlt
    rw [if_pos hsize, readBytes, if_pos hlt]
    rfl
  · have hform : g.container.form = .bitmap := if_neg hsize
    rw [Container.size, hform] at hlt
    rw [if_neg hsize, readBytes, if_pos hlt]
    rfl

theorem needsAll_readContainers :
    ∀ {l : List Group}, (∀ g ∈ l, g.IsValid) →
      NeedsAll (readContainers (l.map Group.description))
        ((l.map Group.container).flatMap Container.toBytes) := by
  intro l
  induction l with
  | nil => intro _; exact needsAll_nil _
  | cons g l ih =>
      intro h
      have hrest := ih fun x hx => h x (List.mem_cons_of_mem _ hx)
      apply (needsAll_readContainer g).bind
        (readContainer_toBytes (h g (List.mem_cons_self ..)))
      exact hrest.andThen fun cs => .ok (g.container :: cs)

-- ================================================== sets

/-- What is read after the cookie that sets are written with. -/
theorem decodeAll_eq (bytes : Bytes) :
    Container.decodeAll (bytes32 12346 ++ bytes)
      = (read32 bytes >>= fun count =>
          if 65536 < count.1 then .error .tooManyContainers else
          readBytes (4 * count.1) count.2 >>= fun told =>
          readBytes (4 * count.1) told.2 >>= fun offsets =>
          readContainers (descriptions (fun _ => false) 0 (numbers16 told.1))
            offsets.2) := by
  unfold Container.decodeAll
  rw [read32_bytes32 (by decide)]
  simp only [bind, Except.bind, pure, Except.pure, if_true, throw, throwThe,
    MonadExceptOf.throw]
  cases read32 bytes with
  | error e => rfl
  | ok count =>
      dsimp only
      split
      · rfl
      · simp only [Option.isNone_none, true_or, if_true, Option.any_none]

/-- All bytes of a set are needed. -/
theorem needsAll_encode (s : RowSet) : NeedsAll Container.decodeAll s.encode := by
  have hvalid := s.grouped_groups.valid
  have hgroups : s.containers = s.groups.map Group.container := rfl
  have hcount := s.length_containers_le
  have hle : ¬ 65536 < s.containers.length := by omega
  have hcookie : NeedsAll Container.decodeAll (bytes32 12346) :=
    (needsAll_read32 _).andThen _
  unfold encode Container.encodeAll
  simp only [List.append_assoc]
  apply hcookie.append
  simp only [decodeAll_eq]
  apply (needsAll_read32 _).bind (read32_bytes32 (by omega))
  simp only [hle, if_false]
  apply (needsAll_readBytes (length_descriptions _)).bind
    (readBytes_append (length_descriptions _))
  simp only
  apply (needsAll_readBytes (length_offsets ..)).bind
    (readBytes_append (length_offsets ..))
  rw [hgroups, descriptions_flatMap 0 hvalid]
  exact needsAll_readContainers hvalid

/-- A set has eight bytes in front, eight for each container, and those of
the containers. -/
theorem length_encode (s : RowSet) :
    s.encode.length
      = 8 + 8 * s.containers.length + total Container.size s.containers := by
  have hbytes : ∀ cs : List Container,
      (cs.flatMap Container.toBytes).length = total Container.size cs := by
    intro cs
    induction cs with
    | nil => rfl
    | cons c rest ih =>
        rw [List.flatMap_cons, List.length_append, length_toBytes, ih, total]
  unfold encode Container.encodeAll
  simp only [List.length_append, length_descriptions, length_offsets, hbytes]
  show 4 + 4 + _ + _ + _ = _
  omega

/-- A set is what its bytes tell, whatever follows them; nothing is told by a
part of them; other sets have other bytes; and what was read is written as
the bytes that it was read from. -/
theorem portable_exact (s : RowSet) :
    (∀ rest, decode (s.encode ++ rest) = .ok s)
      ∧ (∀ front, front <+: s.encode → front ≠ s.encode →
        decode front = .error .truncated)
      ∧ (∀ t : RowSet, t.encode = s.encode → t = s)
      ∧ ∀ rest, ∃ held, Container.decodeAll (s.encode ++ rest) = .ok held
        ∧ Container.encodeAll held = s.encode := by
  refine ⟨s.decode_encode_append, fun front hfront hne => ?_, fun t h => ?_,
    fun rest => ⟨_, s.decodeAll_encode rest, rfl⟩⟩
  · rw [decode, s.needsAll_encode front hfront hne]
    rfl
  · have hs := s.decode_encode_append []
    rw [← h, t.decode_encode_append] at hs
    exact Except.ok.inj hs

/-- Two containers, a bitmap of 4097 rows and an array of one, read with
other bytes behind them, and cut off within the bitmap. -/
theorem portable_exact_cut :
    let s : RowSet := ⟨[⟨0, 4096⟩, ⟨70000, 70000⟩], by decide, by decide⟩
    let front := s.encode.take 8000
    s.containers.map Container.form = [.bitmap, .array]
      ∧ decode (s.encode ++ [59, 48, 255]) = .ok s
      ∧ front <+: s.encode ∧ front ≠ s.encode
      ∧ decode front = .error .truncated := by
  intro s front
  have hlen : s.encode.length = 8218 := by
    rw [length_encode]
    decide
  have hfront : front <+: s.encode := List.take_prefix ..
  have hne : front ≠ s.encode := by
    intro h
    have := congrArg List.length h
    rw [List.length_take, hlen] at this
    omega
  obtain ⟨hwhole, hcut, -, -⟩ := s.portable_exact
  exact ⟨by decide, hwhole _, hfront, hne, hcut front hfront hne⟩

end MergeOnWrite.RowSet
