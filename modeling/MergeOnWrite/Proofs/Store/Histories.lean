/-
A store of histories answers like the store of the commits.

The history of a key has an entry for each commit that wrote it, and nothing
else (`Store.history`). So a look at a version finds what was live after so
many commits, and the last write is later than a version exactly if a commit
since then has written the key. A transaction that reads at the version of its
begin therefore sees what was live then, and goes on to see it whatever is
committed meanwhile, since no entry up to that version is ever added or
changed (`VersionedTxn.Shows`, of which `Txn.BegunOn` is a part); and it is
refused its commit for the same reasons.

# Main statements

- `Store.valueAt_history`, `Store.lt_last_history_iff`: what a history tells.
- `VersionedTxn.Shows.get`, `VersionedTxn.Shows.scan`,
  `VersionedStore.Keeps.commit`: the operations of transactions.
- `VersionedSession.Shows.step`, `StoreSession.on_histories`: sessions.
-/
import MergeOnWrite.Proofs.Store.Rehearsal
import MergeOnWrite.Store.Versioned

namespace MergeOnWrite

-- ================================================== histories

namespace Store

/-- What commits, newest first, have written at a key. -/
def historyOf (key : Bytes) : List WriteSet → History
  | [] => []
  | writes :: earlier =>
    historyOf key earlier
      ++ ((writes.get? key).map (earlier.length + 1, ·)).toList

def history (store : Store) (key : Bytes) : History :=
  historyOf key store.commits

variable {version : Nat} {key : Bytes}

/-- A look at a version finds what was live after so many commits. -/
theorem valueAt_historyOf : ∀ commits : List WriteSet,
    (historyOf key commits).valueAt version
      = (Store.mk (commits.drop (commits.length - version))).live.get? key := by
  intro commits
  induction commits with
  | nil =>
      rw [List.drop_nil]
      rfl
  | cons writes earlier ih =>
      by_cases hle : version ≤ earlier.length
      · have hdrop : (writes :: earlier).drop (earlier.length + 1 - version)
            = earlier.drop (earlier.length - version) := by
          rw [Nat.succ_sub hle]
          rfl
        rw [List.length_cons, hdrop, ← ih, historyOf]
        cases writes.get? key with
        | none => simp
        | some value =>
            have hlater : ¬ earlier.length + 1 ≤ version := by omega
            simp [History.valueAt, hlater]
      · have hdrop : earlier.length + 1 - version = 0 := by omega
        have hearlier : earlier.length - version = 0 := by omega
        rw [hearlier, List.drop_zero] at ih
        rw [List.length_cons, hdrop, List.drop_zero]
        show _ = (writes.applyTo (Store.mk earlier).live).get? key
        rw [WriteSet.get?_applyTo, ← ih, historyOf]
        cases writes.get? key with
        | none => simp
        | some value =>
            have hreached : earlier.length + 1 ≤ version := by omega
            simp [History.valueAt, hreached]

theorem valueAt_history (store : Store) :
    (store.history key).valueAt version
      = (Store.mk (store.commits.drop (store.version - version))).live.get?
        key :=
  valueAt_historyOf store.commits

/-- The last write is later than a version if a commit since then has written
the key. -/
theorem lt_last_historyOf_iff : ∀ commits : List WriteSet,
    (historyOf key commits).last?.any (version < ·) = true
      ↔ ∃ writes ∈ commits.take (commits.length - version),
        (writes.get? key).isSome := by
  intro commits
  induction commits with
  | nil => simp [historyOf, History.last?]
  | cons writes earlier ih =>
      by_cases hle : version ≤ earlier.length
      · have htake : (writes :: earlier).take (earlier.length + 1 - version)
            = writes :: earlier.take (earlier.length - version) := by
          rw [Nat.succ_sub hle]
          rfl
        rw [List.length_cons, htake, historyOf]
        cases hwrites : writes.get? key with
        | none => simp [hwrites, ih]
        | some value => simp [History.last?, hwrites, Nat.lt_succ_of_le hle]
      · have htake : earlier.length + 1 - version = 0 := by omega
        have hearlier : earlier.length - version = 0 := by omega
        rw [hearlier, List.take_zero] at ih
        rw [List.length_cons, htake, List.take_zero, historyOf]
        cases writes.get? key with
        | none => simpa using ih
        | some value =>
            have hreached : ¬ version < earlier.length + 1 := by omega
            simp [History.last?, hreached]

theorem lt_last_history_iff (store : Store) :
    (store.history key).last?.any (version < ·) = true
      ↔ ∃ writes ∈ store.since version, (writes.get? key).isSome :=
  lt_last_historyOf_iff store.commits

end Store

-- ================================================== stores

namespace VersionedStore

/-- True of a store of histories that has kept what the commits of a store have
written. -/
structure Keeps (s : VersionedStore) (store : Store) : Prop where
  version_eq : s.version = store.version
  history_eq : ∀ key, (s.histories.get? key).getD [] = store.history key

variable {s : VersionedStore} {store : Store}

/-- Writes are kept as those of the next commit. -/
theorem Keeps.write (h : s.Keeps store) (writes : WriteSet) :
    (s.write writes).Keeps ⟨writes :: store.commits⟩ := by
  refine ⟨congrArg (· + 1) h.version_eq, fun key => ?_⟩
  have hlength : store.commits.length = s.version := h.version_eq.symm
  have halter := SortedMap.get?_foldl_alter
    (fun value (history : Option History) =>
      some (history.getD [] ++ [(s.version + 1, value)])) writes s.histories key
  show (SortedMap.get? (List.foldl _ _ _) key).getD []
    = store.history key ++ ((writes.get? key).map _).toList
  rw [halter, ← h.history_eq key, hlength]
  cases writes.get? key with
  | none => exact (List.append_nil _).symm
  | some value => rfl

/-- The store of the histories that some commits have left. -/
def ofCommits (store : Store) : VersionedStore :=
  store.commits.foldr (fun writes s => s.write writes) {}

theorem keeps_ofCommits (store : Store) : (ofCommits store).Keeps store := by
  obtain ⟨commits⟩ := store
  induction commits with
  | nil => exact ⟨rfl, fun _ => rfl⟩
  | cons writes earlier ih => exact ih.write writes

theorem Keeps.readAt (h : s.Keeps store) (key : Bytes) (version : Nat) :
    s.readAt key version = (store.history key).valueAt version := by
  rw [← h.history_eq, VersionedStore.readAt]
  cases s.histories.get? key with
  | none => rfl
  | some history => rfl

/-- What is live is what the histories have at the last version. -/
theorem Keeps.live (h : s.Keeps store) : s.live = store.live := by
  refine SortedMap.ext_get? fun key => ?_
  have hread := h.readAt key s.version
  rw [Store.valueAt_history, h.version_eq, Nat.sub_self, List.drop_zero,
    ← h.version_eq] at hread
  rw [VersionedStore.live, SortedMap.get?_filterMap]
  exact hread

/-- A key has been written since a version if its last write is later. -/
theorem Keeps.lt_lastWrite_iff (h : s.Keeps store) {version : Nat}
    {key : Bytes} : version < s.lastWrite key
      ↔ ∃ writes ∈ store.since version, (writes.get? key).isSome := by
  rw [← Store.lt_last_history_iff, ← h.history_eq, lastWrite]
  cases s.histories.get? key with
  | none => simp [History.last?]
  | some history => cases hlast : history.last? <;> simp [hlast]

/-- Some key within an interval has been written since a version if the history
of one has a later entry. -/
theorem Keeps.any_within_iff (h : s.Keeps store) {version : Nat}
    {range : KeyRange} :
    ((s.within range).toList.any fun entry =>
        entry.2.last?.any (version < ·)) = true
      ↔ ∃ key, range.contains key = true
        ∧ ∃ writes ∈ store.since version, (writes.get? key).isSome := by
  simp only [← Store.lt_last_history_iff, ← h.history_eq]
  rw [List.any_eq_true]
  constructor
  · intro ⟨⟨key, history⟩, hmem, hlast⟩
    rw [SortedMap.mem_toList_iff, within, SortedMap.get?_filter,
      Option.filter_eq_some_iff] at hmem
    refine ⟨key, hmem.2, ?_⟩
    rw [hmem.1]
    exact hlast
  · intro ⟨key, hwithin, hlast⟩
    cases hhistory : s.histories.get? key with
    | none =>
        rw [hhistory] at hlast
        cases hlast
    | some history =>
        rw [hhistory] at hlast
        refine ⟨(key, history), ?_, hlast⟩
        rw [SortedMap.mem_toList_iff, within, SortedMap.get?_filter, hhistory,
          Option.filter_eq_some_iff]
        exact ⟨rfl, hwithin⟩

end VersionedStore

-- ================================================== transactions

namespace VersionedTxn

/-- True of a transaction that is on a store of histories what another one is
on the store of the commits. -/
structure Shows (u : VersionedTxn) (t : Txn) (store : Store) : Prop where
  begun : t.BegunOn store
  version_eq : u.version = t.version
  started_eq : u.started = t.started
  writes_eq : u.writes = t.writes
  stats_eq : u.stats = t.stats
  mem_keys_iff : ∀ key, key ∈ u.readKeys.keys ↔ key ∈ t.readKeys
  mem_stems_iff : ∀ stem, stem ∈ u.readStems ↔ stem ∈ t.readStems

variable {s : VersionedStore} {store : Store} {u : VersionedTxn} {t : Txn}

theorem shows_open (h : s.Keeps store) (now : Nat) :
    (VersionedTxn.open s now).Shows (.open store now) store where
  begun := Txn.begunOn_open store now
  version_eq := h.version_eq
  started_eq := rfl
  writes_eq := rfl
  stats_eq := rfl
  mem_keys_iff _ := Iff.rfl
  mem_stems_iff _ := Iff.rfl

/-- At the version of its begin a transaction finds what was live then. -/
theorem Shows.readAt (h : u.Shows t store) (hs : s.Keeps store) (key : Bytes) :
    s.readAt key u.version = t.snapshot.get? key := by
  rw [hs.readAt, Store.valueAt_history, h.version_eq, h.begun.snapshot_eq]

/-- A look-up finds the same. -/
theorem Shows.get (h : u.Shows t store) (hs : s.Keeps store) (key : Bytes) :
    (u.get s key).1 = (t.get key).1
      ∧ (u.get s key).2.Shows (t.get key).2 store := by
  have hbegun : (t.get key).2.BegunOn store := h.begun.congr rfl rfl
  unfold Txn.get Txn.value? at hbegun ⊢
  unfold VersionedTxn.get
  rw [h.writes_eq]
  cases hwrite : t.writes.get? key with
  | some value =>
      rw [hwrite] at hbegun
      refine ⟨rfl, hbegun, h.version_eq, h.started_eq, rfl, ?_,
        h.mem_keys_iff, h.mem_stems_iff⟩
      exact congrArg (Txn.countRead · key value) h.stats_eq
  | none =>
      rw [hwrite] at hbegun
      rw [h.readAt hs, h.stats_eq]
      refine ⟨rfl, hbegun, h.version_eq, h.started_eq, rfl, rfl,
        fun other => ?_, h.mem_stems_iff⟩
      rw [SortedMap.mem_keys_insert, h.mem_keys_iff]
      exact List.mem_cons.symm

/-- What a scan puts together at a key: the own write, or else what the store
has at the version. -/
theorem get?_merged (s : VersionedStore) (u : VersionedTxn) (stem key : Bytes) :
    ((u.merged s stem).get? key).bind id
      = if (KeyRange.extending stem).contains key then
          (u.writes.get? key).getD (s.readAt key u.version)
        else none := by
  have halter := SortedMap.get?_foldl_alter
    (fun value (_ : Option (Option Bytes)) => some value)
    (u.writes.filter fun key _ => (KeyRange.extending stem).contains key)
    ((s.within (.extending stem)).filterMap
      fun _ history => some (history.valueAt u.version)) key
  rw [SortedMap.get?_filterMap, VersionedStore.within, SortedMap.get?_filter,
    SortedMap.get?_filter] at halter
  refine (congrArg (Option.bind · id) halter).trans ?_
  split
  · rename_i hwithin
    rw [hwithin, VersionedStore.readAt]
    cases u.writes.get? key with
    | some value => rfl
    | none => cases s.histories.get? key <;> rfl
  · rename_i hwithin
    rw [eq_false_of_ne_true hwithin]
    cases u.writes.get? key <;> cases s.histories.get? key <;> rfl

/-- A scan lists the same. -/
theorem Shows.listing (h : u.Shows t store) (hs : s.Keeps store)
    (stem : Bytes) : u.listing s stem = t.listing stem := by
  refine congrArg SortedMap.toList (SortedMap.ext_get? fun key => ?_)
  have hmerged := get?_merged s u stem key
  rw [h.writes_eq, h.readAt hs] at hmerged
  rw [SortedMap.get?_filterMap, Entries.get?_within, WriteSet.get?_applyTo]
  exact hmerged

theorem Shows.scan (h : u.Shows t store) (hs : s.Keeps store) (stem : Bytes) :
    (u.scan s stem).1 = (t.scan stem).1
      ∧ (u.scan s stem).2.Shows (t.scan stem).2 store := by
  have hbegun : (t.scan stem).2.BegunOn store := h.begun.congr rfl rfl
  unfold VersionedTxn.scan Txn.scan at *
  rw [h.listing hs, h.stats_eq]
  refine ⟨rfl, hbegun, h.version_eq, h.started_eq, h.writes_eq, rfl,
    h.mem_keys_iff, fun other => ?_⟩
  simp [h.mem_stems_iff, or_comm]

theorem Shows.put (h : u.Shows t store) (key value : Bytes) :
    (u.put key value).Shows (t.put key value) store := by
  unfold VersionedTxn.put
  rw [h.writes_eq, h.stats_eq]
  exact ⟨h.begun.congr rfl rfl, h.version_eq, h.started_eq, rfl, rfl,
    h.mem_keys_iff, h.mem_stems_iff⟩

theorem Shows.remove (h : u.Shows t store) (key : Bytes) :
    (u.remove key).Shows (t.remove key) store := by
  unfold VersionedTxn.remove
  rw [h.writes_eq, h.stats_eq]
  exact ⟨h.begun.congr rfl rfl, h.version_eq, h.started_eq, rfl, rfl,
    h.mem_keys_iff, h.mem_stems_iff⟩

theorem Shows.unlessTooOld {α : Type} (h : u.Shows t store)
    (maxAge : Option Nat) (now : Nat) (result : Except StoreCode α) :
    u.unlessTooOld maxAge now result = t.unlessTooOld maxAge now result := by
  unfold VersionedTxn.unlessTooOld VersionedTxn.isTooOld
  rw [h.started_eq]
  rfl

/-- A commit is refused for the same reasons: what was read has been written
since the begin. -/
theorem Shows.isStale (h : u.Shows t store) (hs : s.Keeps store) :
    (u.hasStaleKey s || u.hasStaleStem s)
      = (store.since t.version).any t.clashesWith := by
  rw [Bool.eq_iff_iff, Bool.or_eq_true]
  have hkeys : u.hasStaleKey s = true ↔ ∃ key ∈ t.readKeys,
      ∃ writes ∈ store.since t.version, (writes.get? key).isSome := by
    simp only [hasStaleKey, List.any_eq_true, decide_eq_true_eq,
      hs.lt_lastWrite_iff, h.version_eq, h.mem_keys_iff]
  have hstems : u.hasStaleStem s = true ↔ ∃ stem ∈ t.readStems,
      ∃ key, (KeyRange.extending stem).contains key = true
        ∧ ∃ writes ∈ store.since t.version, (writes.get? key).isSome := by
    rw [hasStaleStem, List.any_eq_true]
    simp only [hs.any_within_iff, h.version_eq, h.mem_stems_iff]
  have hclash : (store.since t.version).any t.clashesWith = true
      ↔ ∃ writes ∈ store.since t.version, ∃ key, (writes.get? key).isSome
        ∧ (key ∈ t.readKeys ∨ ∃ stem ∈ t.readStems,
          (KeyRange.extending stem).contains key = true) := by
    simp only [List.any_eq_true, Txn.clashesWith, SortedMap.mem_keys,
      Txn.dependsOn_iff]
  rw [hkeys, hstems, hclash]
  constructor
  · intro hstale
    rcases hstale with ⟨key, hkey, writes, hmem, hwrite⟩
      | ⟨stem, hstem, key, hwithin, writes, hmem, hwrite⟩
    · exact ⟨writes, hmem, key, hwrite, .inl hkey⟩
    · exact ⟨writes, hmem, key, hwrite, .inr ⟨stem, hstem, hwithin⟩⟩
  · intro ⟨writes, hmem, key, hwrite, hread⟩
    rcases hread with hkey | ⟨stem, hstem, hwithin⟩
    · exact .inl ⟨key, hkey, writes, hmem, hwrite⟩
    · exact .inr ⟨stem, hstem, key, hwithin, writes, hmem, hwrite⟩

/-- The begin of a transaction is not moved by what others commit. -/
theorem Shows.later (h : u.Shows t store) {other : Txn} {next : Store}
    (hcommit : store.commit other = .ok next) : u.Shows t next :=
  ⟨h.begun.commit hcommit, h.version_eq, h.started_eq, h.writes_eq, h.stats_eq,
    h.mem_keys_iff, h.mem_stems_iff⟩

end VersionedTxn

/-- Both stores refuse a commit, or both grant it. -/
theorem VersionedStore.Keeps.commit {s : VersionedStore} {store : Store}
    {u : VersionedTxn} {t : Txn} (hs : s.Keeps store) (h : u.Shows t store) :
    (∃ code, s.commit u = .error code ∧ store.commit t = .error code)
      ∨ ∃ s' next, s.commit u = .ok s' ∧ store.commit t = .ok next
        ∧ s'.Keeps next := by
  unfold VersionedStore.commit Store.commit
  rw [h.isStale hs, h.writes_eq]
  by_cases hclash : (store.since t.version).any t.clashesWith = true
  · rw [if_pos hclash, if_pos hclash]
    exact .inl ⟨_, rfl, rfl⟩
  · rw [if_neg hclash, if_neg hclash]
    by_cases hempty : t.writes.isEmpty = true
    · rw [if_pos hempty, if_pos hempty]
      exact .inr ⟨s, store, rfl, rfl, hs⟩
    · rw [if_neg hempty, if_neg hempty]
      exact .inr ⟨_, _, rfl, rfl, hs.write t.writes⟩

-- ================================================== sessions

/-- A session on a store of histories. -/
structure VersionedSession where
  store : VersionedStore := {}
  /-- The greatest age of a transaction in milliseconds. -/
  maxAge : Option Nat := none
  /-- The open transactions by name. -/
  txns : List (String × VersionedTxn) := []
  /-- Virtual time in milliseconds. -/
  time : Nat := 0

namespace VersionedSession

/-- Forgets the transaction of a name. -/
def close (v : VersionedSession) (name : String) : VersionedSession :=
  { v with txns := v.txns.filter (·.1 ≠ name) }

def keep (v : VersionedSession) (name : String) (u : VersionedTxn) :
    VersionedSession :=
  { v with txns := (name, u) :: v.txns.filter (·.1 ≠ name) }

/-- Works on the open transaction of a name. -/
def withTxn (v : VersionedSession) (name : String)
    (work : VersionedTxn → VersionedSession × StoreAnswer) :
    VersionedSession × StoreAnswer :=
  match v.txns.lookup name with
  | some u => work u
  | none => (v, .noTxn)

def step (v : VersionedSession) : StoreStep → VersionedSession × StoreAnswer
  | .start name => (v.keep name (.open v.store v.time), .done)
  | .get name key => v.withTxn name fun u =>
    match u.unlessTooOld v.maxAge v.time (.ok (u.get v.store key)) with
    | .ok (value, u) => (v.keep name u, .value value)
    | .error code => (v, .refused code)
  | .scan name stem => v.withTxn name fun u =>
    match u.unlessTooOld v.maxAge v.time (.ok (u.scan v.store stem)) with
    | .ok (found, u) => (v.keep name u, .listing found)
    | .error code => (v, .refused code)
  | .put name key value => v.withTxn name fun u =>
    (v.keep name (u.put key value), .done)
  | .remove name key => v.withTxn name fun u =>
    (v.keep name (u.remove key), .done)
  | .stats name => v.withTxn name fun u => (v, .stats u.stats)
  | .commit name => v.withTxn name fun u =>
    match u.unlessTooOld v.maxAge v.time (v.store.commit u) with
    | .ok store => ({ v with store }.close name, .done)
    | .error code => (v.close name, .refused code)
  | .abandon name => v.withTxn name fun _ => (v.close name, .done)
  | .advance ms => ({ v with time := v.time + ms }, .done)
  | .control .live => (v, .view (.entries v.store.live.toList))
  -- there is neither a script nor a log
  | .control _ => (v, .view .done)

/-- The session after some steps. -/
def after (v : VersionedSession) (steps : List StoreStep) : VersionedSession :=
  steps.foldl (fun v step => (v.step step).1) v

/-- True of a session that is on a store of histories what another one is on
the store of the commits. -/
structure Shows (v : VersionedSession) (p : PlainSession) : Prop where
  keeps : v.store.Keeps p.store
  maxAge_eq : v.maxAge = p.maxAge
  time_eq : v.time = p.time
  txns : ∀ name, Option.Rel (fun u t => u.Shows t p.store)
    (v.txns.lookup name) (p.txns.lookup name)

variable {v : VersionedSession} {p : PlainSession} {u : VersionedTxn} {t : Txn}

theorem Shows.close (h : v.Shows p) (name : String) :
    (v.close name).Shows (p.close name) := by
  refine ⟨h.keeps, h.maxAge_eq, h.time_eq, fun other => ?_⟩
  show Option.Rel _ (List.lookup other (v.txns.filter _))
    (List.lookup other (p.txns.filter _))
  rw [lookup_filter_ne, lookup_filter_ne]
  split
  · exact .none
  · exact h.txns other

theorem Shows.keep (h : v.Shows p) (name : String) (hu : u.Shows t p.store) :
    (v.keep name u).Shows (p.keep name t) := by
  refine ⟨h.keeps, h.maxAge_eq, h.time_eq, fun other => ?_⟩
  show Option.Rel _ (List.lookup other (_ :: v.txns.filter _))
    (List.lookup other (_ :: p.txns.filter _))
  rw [lookup_cons_filter_ne, lookup_cons_filter_ne]
  split
  · exact .some hu
  · exact h.txns other

/-- A commit that both stores grant moves nobody's begin. -/
theorem Shows.commit (h : v.Shows p) {store : VersionedStore} {next : Store}
    (hcommit : p.store.commit t = .ok next) (hkeeps : store.Keeps next) :
    Shows { v with store } { p with store := next } := by
  refine ⟨hkeeps, h.maxAge_eq, h.time_eq, fun name => ?_⟩
  have hname := h.txns name
  show Option.Rel _ (v.txns.lookup name) (p.txns.lookup name)
  generalize v.txns.lookup name = opened at hname
  generalize p.txns.lookup name = shown at hname
  cases hname with
  | some hu => exact .some (hu.later hcommit)
  | none => exact .none

theorem Shows.unlessTooOld {α : Type} (h : v.Shows p)
    (hu : u.Shows t p.store) (result : Except StoreCode α) :
    u.unlessTooOld v.maxAge v.time result
      = t.unlessTooOld p.maxAge p.time result := by
  rw [h.maxAge_eq, h.time_eq, hu.unlessTooOld]

/-- Both sessions have the same answer and go on alike. -/
def Agrees (x : VersionedSession × StoreAnswer)
    (y : PlainSession × StoreAnswer) : Prop :=
  x.2 = y.2 ∧ x.1.Shows y.1

/-- Work on an open transaction agrees if it does on all transactions that are
alike. -/
theorem Shows.withTxn (h : v.Shows p) (name : String)
    {work : VersionedTxn → VersionedSession × StoreAnswer}
    {plainWork : Txn → PlainSession × StoreAnswer}
    (hwork : ∀ u t, u.Shows t p.store → Agrees (work u) (plainWork t)) :
    Agrees (v.withTxn name work) (p.withTxn name plainWork) := by
  unfold VersionedSession.withTxn PlainSession.withTxn
  have hname := h.txns name
  cases hu : v.txns.lookup name with
  | none =>
      cases ht : p.txns.lookup name with
      | none => exact ⟨rfl, h⟩
      | some t =>
          rw [hu, ht] at hname
          cases hname
  | some u =>
      cases ht : p.txns.lookup name with
      | none =>
          rw [hu, ht] at hname
          cases hname
      | some t =>
          rw [hu, ht] at hname
          cases hname with
          | some hshows => exact hwork u t hshows

/-- Every step has the same answer on both stores. -/
theorem Shows.step (h : v.Shows p) (step : StoreStep) :
    Agrees (v.step step) (p.step step) := by
  cases step with
  | start name =>
      refine ⟨rfl, h.keep name ?_⟩
      rw [h.time_eq]
      exact VersionedTxn.shows_open h.keeps p.time
  | get name key =>
      refine h.withTxn name fun u t hu => ?_
      obtain ⟨hvalue, hnext⟩ := hu.get h.keeps key
      simp only [h.unlessTooOld hu, Txn.unlessTooOld]
      by_cases hage : t.isTooOld p.maxAge p.time = true
      · rw [if_pos hage, if_pos hage]
        exact ⟨rfl, h⟩
      · rw [if_neg hage, if_neg hage]
        exact ⟨congrArg _ hvalue, h.keep name hnext⟩
  | scan name stem =>
      refine h.withTxn name fun u t hu => ?_
      obtain ⟨hfound, hnext⟩ := hu.scan h.keeps stem
      simp only [h.unlessTooOld hu, Txn.unlessTooOld]
      by_cases hage : t.isTooOld p.maxAge p.time = true
      · rw [if_pos hage, if_pos hage]
        exact ⟨rfl, h⟩
      · rw [if_neg hage, if_neg hage]
        exact ⟨congrArg _ hfound, h.keep name hnext⟩
  | put name key value =>
      exact h.withTxn name fun u t hu => ⟨rfl, h.keep name (hu.put key value)⟩
  | remove name key =>
      exact h.withTxn name fun u t hu => ⟨rfl, h.keep name (hu.remove key)⟩
  | stats name =>
      exact h.withTxn name fun u t hu => ⟨congrArg _ hu.stats_eq, h⟩
  | commit name =>
      refine h.withTxn name fun u t hu => ?_
      simp only [h.unlessTooOld hu, Txn.unlessTooOld]
      by_cases hage : t.isTooOld p.maxAge p.time = true
      · rw [if_pos hage, if_pos hage]
        exact ⟨rfl, h.close name⟩
      · rw [if_neg hage, if_neg hage]
        rcases h.keeps.commit hu with ⟨code, hrefused, hplain⟩
          | ⟨store, next, hgranted, hplain, hkeeps⟩
        · rw [hrefused, hplain]
          exact ⟨rfl, h.close name⟩
        · rw [hgranted, hplain]
          exact ⟨rfl, (h.commit hplain hkeeps).close name⟩
  | abandon name =>
      exact h.withTxn name fun u t hu => ⟨rfl, h.close name⟩
  | advance ms =>
      refine ⟨rfl, h.keeps, h.maxAge_eq, ?_, h.txns⟩
      exact congrArg (· + ms) h.time_eq
  | control control =>
      cases control with
      | live =>
          have hlive := h.keeps.live
          refine ⟨?_, h⟩
          exact congrArg (fun entries : Entries =>
            StoreAnswer.view (.entries entries.toList)) hlive
      | failStarts | failCommits | failAllCommits | clearFailures | takeLog =>
          exact ⟨rfl, h⟩

theorem Shows.after (h : v.Shows p) (steps : List StoreStep) :
    (v.after steps).Shows (p.after steps) := by
  induction steps generalizing v p with
  | nil => exact h
  | cons step rest ih => exact ih (h.step step).2

end VersionedSession

/-- Whatever store, age limit and steps there are: the session on the histories
of the commits, which takes the same steps but those that are refused by the
script, has kept what the store has; each of its open transactions is what that
of the same name is; and it has the same answer to every further step that the
script does not refuse. -/
theorem StoreSession.on_histories (store : Store) (maxAge : Option Nat)
    (time : Nat) (steps : List StoreStep) :
    let s := (onto store maxAge time).after steps
    let r : Rehearsal := { plain := { store, maxAge, time } }
    let start : VersionedSession :=
      { store := .ofCommits store, maxAge, time }
    let v := start.after (r.stripped steps)
    v.store.Keeps s.backing.store
      ∧ (∀ name, Option.Rel (fun u t => u.Shows t s.backing.store)
        (v.txns.lookup name) (s.txns.lookup name))
      ∧ ∀ step, step.takesLog = false →
        (r.after steps).refusal? step = none →
        (s.step step).2 = (v.step step).2 := by
  intro s r start v
  have hsession : s = (r.after steps).session := r.after_session steps
  have hstart : start.Shows r.plain :=
    ⟨VersionedStore.keeps_ofCommits store, rfl, rfl, fun _ => .none⟩
  have hshows : v.Shows (r.after steps).plain := by
    rw [r.plain_after]
    exact hstart.after (r.stripped steps)
  rw [hsession]
  refine ⟨hshows.keeps, hshows.txns, fun step hlog hrefusal => ?_⟩
  have hanswer := Rehearsal.next_of_no_refusal (r.after steps) step hlog
    hrefusal
  rw [← Rehearsal.step_session] at hanswer
  rw [hanswer]
  exact (hshows.step step).1.symm

end MergeOnWrite
