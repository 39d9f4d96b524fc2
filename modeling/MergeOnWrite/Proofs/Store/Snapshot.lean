/-
What a transaction depends on.

A transaction reads from the snapshot of its begin, so it behaves alike
on all live entries that hold what it read. A commit is granted only if
no commit since the begin wrote what the transaction read, so the live
entries of that moment are among them: a transaction whose commit is
granted has done all it did as if it had begun right then.

# Main statements

- `get_onto`, `scan_onto`: a read gives the same result on any begin
  whose snapshot agrees with what was read, this read included.
- `agreesWith_live`: when a commit is granted, the live entries agree with
  what the transaction read.
- `commit_onto`: a transaction that begins right before its commit is
  granted it, and the store is the same as after the commit of one that
  began earlier.
-/
import MergeOnWrite.Proofs.SortedMap
import MergeOnWrite.Store.Basic

namespace MergeOnWrite

-- ================================================== the own view

/-- The entries of an interval are those whose keys lie in it. -/
theorem Entries.get?_within (entries : Entries) (range : KeyRange)
    (key : Bytes) :
    (entries.within range).get? key
      = if range.contains key then entries.get? key else none := by
  rw [Entries.within, SortedMap.get?_filter]
  cases range.contains key <;> cases entries.get? key <;> rfl

namespace Txn

/-- The live entries as the transaction has them: its snapshot with its
own writes. -/
def view (t : Txn) : Entries := t.writes.applyTo t.snapshot

theorem value?_eq (t : Txn) (key : Bytes) : t.value? key = t.view.get? key :=
  (WriteSet.get?_applyTo ..).symm

theorem get_fst (t : Txn) (key : Bytes) : (t.get key).1 = t.view.get? key :=
  t.value?_eq key

@[simp] theorem view_get (t : Txn) (key : Bytes) :
    (t.get key).2.view = t.view := rfl

@[simp] theorem view_scan (t : Txn) (stem : Bytes) :
    (t.scan stem).2.view = t.view := rfl

theorem view_put (t : Txn) (key value : Bytes) :
    (t.put key value).view = t.view.insert key value := by
  refine SortedMap.ext_get? fun j => ?_
  rw [view, view, WriteSet.get?_applyTo, SortedMap.get?_insert,
    WriteSet.get?_applyTo]
  show ((t.writes.insert key (some value)).get? j).getD _ = _
  rw [SortedMap.get?_insert]
  split <;> rfl

theorem view_remove (t : Txn) (key : Bytes) :
    (t.remove key).view = t.view.erase key := by
  refine SortedMap.ext_get? fun j => ?_
  rw [view, view, WriteSet.get?_applyTo, SortedMap.get?_erase,
    WriteSet.get?_applyTo]
  show ((t.writes.insert key none).get? j).getD _ = _
  rw [SortedMap.get?_insert]
  split <;> rfl

-- ================================================== other begins

/-- The transaction as if it had begun where `base` did. -/
def onto (t base : Txn) : Txn :=
  { t with
    snapshot := base.snapshot
    version := base.version
    started := base.started }

/-- True of live entries that hold what the transaction read. -/
def AgreesWith (t : Txn) (entries : Entries) : Prop :=
  ∀ key, t.dependsOn key = true → t.snapshot.get? key = entries.get? key

/-- A transaction depends on the keys it read. -/
theorem dependsOn_iff {t : Txn} {key : Bytes} :
    t.dependsOn key = true ↔ key ∈ t.readKeys ∨
      ∃ stem ∈ t.readStems, (KeyRange.extending stem).contains key = true := by
  simp [dependsOn]

theorem agreesWith_snapshot (t : Txn) : t.AgreesWith t.snapshot :=
  fun _ _ => rfl

theorem AgreesWith.of_get {t : Txn} {key : Bytes} {entries : Entries}
    (h : (t.get key).2.AgreesWith entries) : t.AgreesWith entries := by
  intro j hj
  refine h j (dependsOn_iff.2 ?_)
  rcases dependsOn_iff.1 hj with hk | hs
  · refine .inl ?_
    show j ∈ (if _ then _ else _)
    split
    · exact hk
    · exact List.mem_cons_of_mem _ hk
  · exact .inr hs

theorem AgreesWith.of_scan {t : Txn} {stem : Bytes} {entries : Entries}
    (h : (t.scan stem).2.AgreesWith entries) : t.AgreesWith entries := by
  intro j hj
  refine h j (dependsOn_iff.2 ?_)
  rcases dependsOn_iff.1 hj with hk | ⟨s, hs, hc⟩
  · exact .inl hk
  · exact .inr ⟨s, List.mem_cons_of_mem _ hs, hc⟩

/-- A point read gives the same value on any begin that agrees with what
was read, this read included. -/
theorem get_onto {t base : Txn} {key : Bytes}
    (h : (t.get key).2.AgreesWith base.snapshot) :
    (t.onto base).get key = ((t.get key).1, (t.get key).2.onto base) := by
  have hvalue : (t.onto base).value? key = t.value? key := by
    show (t.writes.get? key).getD _ = (t.writes.get? key).getD _
    cases hw : t.writes.get? key with
    | some v => rfl
    | none =>
        have hread : key ∈ (t.get key).2.readKeys := by
          show key ∈ (if _ then _ else _)
          rw [hw]
          exact List.mem_cons_self ..
        exact (h key (dependsOn_iff.2 (.inl hread))).symm
  show ((t.onto base).value? key, _) = _
  rw [Txn.get, hvalue]
  rfl

/-- A scan lists the same entries on any begin that agrees with what was
read, this scan included. -/
theorem scan_onto {t base : Txn} {stem : Bytes}
    (h : (t.scan stem).2.AgreesWith base.snapshot) :
    (t.onto base).scan stem = ((t.scan stem).1, (t.scan stem).2.onto base) := by
  have hlist : (t.onto base).listing stem = t.listing stem := by
    refine congrArg SortedMap.toList (SortedMap.ext_get? fun key => ?_)
    rw [Entries.get?_within, Entries.get?_within]
    split
    · rename_i hc
      have hsnap : t.snapshot.get? key = base.snapshot.get? key :=
        h key (dependsOn_iff.2 (.inr ⟨stem, List.mem_cons_self .., hc⟩))
      rw [WriteSet.get?_applyTo, WriteSet.get?_applyTo, hsnap]
      rfl
    · rfl
  show ((t.onto base).listing stem, _) = _
  rw [Txn.scan, hlist]
  rfl

end Txn

-- ================================================== begins on a store

/-- What commits leave at a key that none of them wrote is what was there
before them. -/
theorem Store.get?_live_of_unwritten {key : Bytes} (below : List WriteSet) :
    ∀ {above : List WriteSet}, (∀ w ∈ above, w.get? key = none) →
      (Store.mk (above ++ below)).live.get? key
        = (Store.mk below).live.get? key := by
  intro above
  induction above with
  | nil => intro _; rfl
  | cons w above ih =>
      intro h
      show (w.applyTo (Store.mk (above ++ below)).live).get? key = _
      rw [WriteSet.get?_applyTo, h w (List.mem_cons_self ..)]
      exact ih fun x hx => h x (List.mem_cons_of_mem _ hx)

/-- A commit that is granted adds one version at most. -/
theorem Store.version_of_commit {store next : Store} {t : Txn}
    (h : store.commit t = .ok next) :
    store.version ≤ next.version ∧ next.version ≤ store.version + 1 := by
  unfold commit at h
  split at h
  · cases h
  · split at h
    · obtain rfl := Except.ok.inj h
      exact ⟨Nat.le_refl _, Nat.le_succ _⟩
    · obtain rfl := Except.ok.inj h
      exact ⟨Nat.le_succ _, Nat.le_refl _⟩

/-- A commit is refused only because of commits since the begin. -/
theorem Store.lt_version_of_refused {store : Store} {t : Txn} {code : StoreCode}
    (h : store.commit t = .error code) :
    code = .conflict ∧ t.version < store.version := by
  unfold commit at h
  split at h
  · rename_i hclash
    refine ⟨(Except.error.inj h).symm, Nat.lt_of_not_le fun hle => ?_⟩
    rw [since, show store.commits.length - t.version = 0 from
      Nat.sub_eq_zero_of_le hle, List.take_zero] at hclash
    cases hclash
  · split at h <;> cases h

namespace Txn

/-- True of transactions whose snapshot is what the store held at the
version of their begin. -/
structure BegunOn (t : Txn) (store : Store) : Prop where
  version_le : t.version ≤ store.version
  snapshot_eq : t.snapshot
    = (Store.mk (store.commits.drop (store.version - t.version))).live

theorem begunOn_open (store : Store) (now : Nat) :
    (Txn.open store now).BegunOn store where
  version_le := Nat.le_refl _
  snapshot_eq := by
    show store.live = (Store.mk (store.commits.drop (_ - _))).live
    rw [show store.version - (Txn.open store now).version = 0 from
      Nat.sub_self _]
    rfl

/-- Only the version and the snapshot count for where a transaction has
begun. -/
theorem BegunOn.congr {t u : Txn} {store : Store} (h : t.BegunOn store)
    (hv : u.version = t.version) (hs : u.snapshot = t.snapshot) :
    u.BegunOn store :=
  ⟨hv ▸ h.version_le, by rw [hs, hv]; exact h.snapshot_eq⟩

/-- A commit of another transaction does not change where this one has
begun. -/
theorem BegunOn.commit {t u : Txn} {store next : Store} (h : t.BegunOn store)
    (hc : store.commit u = .ok next) : t.BegunOn next := by
  unfold Store.commit at hc
  split at hc
  · cases hc
  · split at hc
    · obtain rfl := Except.ok.inj hc
      exact h
    · obtain rfl := Except.ok.inj hc
      have hle := h.version_le
      refine ⟨Nat.le_succ_of_le hle, ?_⟩
      have hsub : (Store.mk (u.writes :: store.commits)).version - t.version
          = (store.version - t.version) + 1 := by
        show store.commits.length + 1 - t.version
          = store.commits.length - t.version + 1
        have : t.version ≤ store.commits.length := hle
        omega
      rw [hsub, h.snapshot_eq]
      rfl

/-- When a commit is granted, the live entries hold what the transaction
read: no commit since its begin wrote a key that it depends on. -/
theorem agreesWith_live {t : Txn} {store next : Store} (h : t.BegunOn store)
    (hc : store.commit t = .ok next) : t.AgreesWith store.live := by
  intro key hdep
  have hnone : ∀ w ∈ store.since t.version, w.get? key = none := by
    intro w hw
    unfold Store.commit at hc
    split at hc
    · cases hc
    · rename_i hclash
      cases hk : w.get? key with
      | none => rfl
      | some v =>
          refine absurd (List.any_eq_true.2 ⟨w, hw, ?_⟩) hclash
          refine List.any_eq_true.2 ⟨key, SortedMap.mem_keys.2 ?_, hdep⟩
          rw [hk]
          rfl
  have hsplit := List.take_append_drop (store.version - t.version)
    store.commits
  have hlive := Store.get?_live_of_unwritten
    (store.commits.drop (store.version - t.version)) hnone
  rw [h.snapshot_eq, ← hlive]
  show (Store.mk (store.commits.take _ ++ _)).live.get? key = _
  rw [show store.commits.length - t.version = store.version - t.version
    from rfl, hsplit]

/-- A transaction that begins right before its commit is granted it, and
its commit has the same effect as if it had begun earlier. -/
theorem commit_onto {t : Txn} {store next : Store} (now : Nat)
    (hc : store.commit t = .ok next) :
    store.commit (t.onto (.open store now)) = .ok next := by
  unfold Store.commit at hc ⊢
  split at hc
  · cases hc
  · have hnone : store.since (t.onto (.open store now)).version = [] := by
      show store.commits.take (store.commits.length - store.version) = []
      rw [Store.version, Nat.sub_self, List.take_zero]
    rw [hnone]
    exact hc

end Txn

end MergeOnWrite
