/-
What the commits of lock requests do.

A request for the update lock decides on every scope by the record that it
finds there, with one reading of the clock, and stores all records that it
is granted. A request that gives the lock up deletes or rewrites the
records of its scopes, or leaves them. Neither touches anything else.

# Main statements

- `AcquireLock.safe_acquireLock`: the commit of a request for the lock has
  the effect `AcquireLock.Effect`.
- `ReleaseLock.safe_releaseLock`: the commit of a request that gives it up
  has the effect `ReleaseLock.Effect`.
-/
import MergeOnWrite.Proofs.Key.Separation
import MergeOnWrite.Proofs.Service.Solo

namespace MergeOnWrite

-- ================================================== records

/-- The key of the record of a scope, as the store has it. -/
def LockScope.keyBytes (scope : LockScope) (i : InstanceId) : Bytes :=
  .ofText (scope.key i)

/-- True of entries that hold a record, or none, for a scope. -/
def Entries.HasLock (entries : Entries) (i : InstanceId) (scope : LockScope)
    (current : Option LockRecord) : Prop :=
  (entries.get? (scope.keyBytes i)).map LockRecord.decode? = current.map some

/-- What giving up a scope leaves at its key, which held some bytes. -/
def LockRecord.Release.leaves (held : Option Bytes) :
    LockRecord.Release → Option Bytes
  | .delete => none
  | .rewrite record => some record.encode
  | .stale _ => held

/-- How giving up a scope is reported. -/
def LockRecord.Release.outcome : LockRecord.Release → LockOutcome
  | .delete | .rewrite _ => .released
  | .stale _ => .staleRelease

/-- The bytes at a key tell one record at most. -/
theorem Entries.HasLock.unique {entries : Entries} {i : InstanceId}
    {scope : LockScope} {a b : Option LockRecord}
    (ha : entries.HasLock i scope a) (hb : entries.HasLock i scope b) :
    a = b :=
  Option.map_injective (fun _ _ h => Option.some.inj h) (ha.symm.trans hb)

-- ================================================== effects

/-- What a commit of a request for the lock does: it stores what the
request is granted on its scopes, and nothing else. -/
structure AcquireLock.Effect (route : InstanceId → LockVersion)
    (config : LockConfig) (r : AcquireLock) (i : InstanceId) (kind : LockKind)
    (scopes : List LockScope) (now expiration : Instant)
    (readings : List Instant) (d : Draft) : Prop where
  instance_eq : InstanceId.ofText r.instanceName = .ok i
  kind_eq : LockKind.ofTakingLockId r.lockId = .ok kind
  scopes_eq : LockScope.ofRequest (route i) r.table r.tablets = .ok scopes
  readings_eq : readings = [now]
  isClockTime : now.IsClockTime
  expiration_eq :
    Handler.leaseEnd now (r.leaseSecs.getD config.leaseSecs) = .ok expiration
  granted : ∀ scope ∈ scopes, ∃ current record outcome,
    d.before.HasLock i scope current
      ∧ LockRecord.acquire current kind r.initiator now expiration
        = .granted record outcome
      ∧ d.after.get? (scope.keyBytes i) = some record.encode
  others : ∀ key, (∀ scope ∈ scopes, key ≠ scope.keyBytes i) →
    d.after.get? key = d.before.get? key

/-- What a commit of a request that gives up the lock does: it leaves on
its scopes what the records say, and changes nothing else. -/
structure ReleaseLock.Effect (route : InstanceId → LockVersion)
    (r : ReleaseLock) (i : InstanceId) (kind : LockKind)
    (scopes : List LockScope) (d : Draft) : Prop where
  instance_eq : InstanceId.ofText r.instanceName = .ok i
  kind_eq : LockKind.ofTakingLockId r.lockId = .ok kind
  scopes_eq : LockScope.ofRequest (route i) r.table r.tablets = .ok scopes
  released : ∀ scope ∈ scopes, ∃ current, d.before.HasLock i scope current
    ∧ d.after.get? (scope.keyBytes i)
      = (LockRecord.release current kind r.initiator).leaves
        (d.before.get? (scope.keyBytes i))
  others : ∀ key, (∀ scope ∈ scopes, key ≠ scope.keyBytes i) →
    d.after.get? key = d.before.get? key

-- ================================================== reading

namespace Handler

variable {c : Contract} {p : Progress} {d : Draft}

theorem safe_readLock {ends : Progress → Option LockRecord → Prop}
    {i : InstanceId} {scope : LockScope} (h₀ : p.commits = 0)
    (hd : p.draft = some d)
    (h : ∀ current, d.after.HasLock i scope current → ends p current) :
    Safe c ends p (readLock i scope) :=
  safe_bind (safe_get h₀ hd (safe_stored h₀ h))

/-- To read statistics changes nothing. -/
theorem safe_readStats {i : InstanceId} {table : TableId} {tablet : TabletId}
    (h₀ : p.commits = 0) (hd : p.draft = some d) :
    Safe c (fun p' _ => p' = p) p (readStats i table tablet) :=
  safe_bind (safe_get h₀ hd
    (safe_bind (safe_stored h₀ fun _ _ => safe_pure rfl)))

theorem safe_versionOf {ends : Progress → LockVersion → Prop}
    {i : InstanceId} {taken : Option LockVersion} (h₀ : p.commits = 0)
    (h : ends p (c.route i)) : Safe c ends p (versionOf i taken) := by
  refine safe_bind (safe_route ?_)
  cases taken with
  | none => exact safe_pure h
  | some version =>
      simp only
      split
      · exact safe_pure h
      · exact safe_throw h₀

-- ================================================== acquiring

/-- What a request is granted, scope by scope. -/
def GrantedOn (d : Draft) (i : InstanceId) (kind : LockKind)
    (initiator : Int64) (now expiration : Instant) (g : Grant) : Prop :=
  ∃ current, d.after.HasLock i g.scope current
    ∧ LockRecord.acquire current kind initiator now expiration
      = .granted g.record g.outcome

/-- Scopes are decided on by the records in the draft, which stays as it
is. -/
theorem safe_grants {i : InstanceId} {kind : LockKind} {initiator : Int64}
    {now expiration : Instant} (h₀ : p.commits = 0) (hd : p.draft = some d) :
    ∀ {scopes : List LockScope} {ends : Progress → List Grant → Prop},
      (∀ granted : List Grant, granted.map (·.scope) = scopes →
        (∀ g ∈ granted, GrantedOn d i kind initiator now expiration g) →
          ends p granted) →
      Safe c ends p (grants i kind initiator now expiration scopes) := by
  intro scopes
  induction scopes with
  | nil => intro ends h; exact safe_pure (h [] rfl nofun)
  | cons scope rest ih =>
      intro ends h
      refine safe_bind (safe_readLock h₀ hd fun current hcurrent => ?_)
      cases hacquire : LockRecord.acquire current kind initiator now
          expiration with
      | busy holder => exact safe_bind (safe_report (safe_throw h₀))
      | granted record outcome =>
          refine safe_bind (ih fun granted hscopes hgranted =>
            safe_pure (h _ ?_ ?_))
          · exact congrArg (scope :: ·) hscopes
          · intro g hg
            rcases List.mem_cons.1 hg with rfl | hg
            · exact ⟨current, hcurrent, hacquire⟩
            · exact hgranted g hg

theorem safe_puts {α : Type} {key value : α → Bytes} :
    ∀ {l : List α} {p : Progress} {ends : Progress → Unit → Prop},
      ends (p.write fun entries => l.foldl
        (fun entries a => entries.insert (key a) (value a)) entries) () →
      Safe c ends p (l.forM fun a => ask (.put (key a) (value a))) := by
  intro l
  induction l with
  | nil =>
      intro p ends h
      refine safe_pure ?_
      have hp : p.write (fun entries => entries) = p := by
        obtain ⟨draft, readings, commits⟩ := p
        cases draft <;> rfl
      rw [← hp]
      exact h
  | cons a rest ih =>
      intro p ends h
      refine safe_bind (safe_put (ih ?_))
      have hp : (p.write (·.insert (key a) (value a))).write
            (fun entries => rest.foldl
              (fun entries a => entries.insert (key a) (value a)) entries)
          = p.write fun entries => (a :: rest).foldl
              (fun entries a => entries.insert (key a) (value a)) entries := by
        obtain ⟨draft, readings, commits⟩ := p
        cases draft <;> rfl
      rw [hp]
      exact h

-- ================================================== releasing

/-- What giving up some scopes makes of the entries. -/
structure ReleasedOn (i : InstanceId) (kind : LockKind) (initiator : Int64)
    (scopes : List LockScope) (before after : Entries) : Prop where
  released : ∀ scope ∈ scopes, ∃ current, before.HasLock i scope current
    ∧ after.get? (scope.keyBytes i)
      = (LockRecord.release current kind initiator).leaves
        (before.get? (scope.keyBytes i))
  others : ∀ key, (∀ scope ∈ scopes, key ≠ scope.keyBytes i) →
    after.get? key = before.get? key

theorem releasedOn_cons {i : InstanceId} {kind : LockKind} {initiator : Int64}
    {scope : LockScope} {rest : List LockScope} {current : Option LockRecord}
    {before mid after : Entries}
    (hdistinct : ∀ b ∈ rest, scope.keyBytes i ≠ b.keyBytes i)
    (hcurrent : before.HasLock i scope current)
    (hmid : ∀ key, mid.get? key = if key = scope.keyBytes i then
      (LockRecord.release current kind initiator).leaves (before.get? key)
      else before.get? key)
    (h : ReleasedOn i kind initiator rest mid after) :
    ReleasedOn i kind initiator (scope :: rest) before after := by
  refine ⟨fun b hb => ?_, fun key hkey => ?_⟩
  · rcases List.mem_cons.1 hb with rfl | hb
    · exact ⟨current, hcurrent, by
        rw [h.others _ hdistinct, hmid, if_pos rfl]⟩
    · obtain ⟨other, hother, hafter⟩ := h.released b hb
      have hne := Ne.symm (hdistinct b hb)
      have hsame : mid.get? (b.keyBytes i) = before.get? (b.keyBytes i) := by
        rw [hmid, if_neg hne]
      refine ⟨other, ?_, by rw [hafter, hsame]⟩
      rw [Entries.HasLock, ← hsame]
      exact hother
  · rw [h.others key fun b hb => hkey b (List.mem_cons_of_mem _ hb), hmid,
      if_neg (hkey scope (List.mem_cons_self ..))]

/-- The scopes of a request are given up in the draft. -/
theorem safe_releases {i : InstanceId} {kind : LockKind} {initiator : Int64} :
    ∀ {scopes : List LockScope} {p : Progress} {d : Draft}
      {ends : Progress → List LockOutcome → Prop},
      p.commits = 0 → p.draft = some d →
      scopes.Pairwise (fun a b => a.keyBytes i ≠ b.keyBytes i) →
      (∀ outcomes after,
        ReleasedOn i kind initiator scopes d.after after →
          ends { p with draft := some ⟨d.before, after⟩ } outcomes) →
      Safe c ends p (releases i kind initiator scopes) := by
  intro scopes
  induction scopes with
  | nil =>
      intro p d ends h₀ hd _ h
      refine safe_pure ?_
      have hp : { p with draft := some ⟨d.before, d.after⟩ } = p := by rw [← hd]
      rw [← hp]
      exact h [] d.after ⟨nofun, fun _ _ => rfl⟩
  | cons scope rest ih =>
      intro p d ends h₀ hd hdistinct h
      obtain ⟨hscope, hrest⟩ := List.pairwise_cons.1 hdistinct
      refine safe_bind (safe_readLock h₀ hd fun current hcurrent => ?_)
      -- what is left of the loop, once this scope has been given up
      have hgoes : ∀ mid outcome,
          (∀ key, mid.get? key = if key = scope.keyBytes i then
            (LockRecord.release current kind initiator).leaves
              (d.after.get? key) else d.after.get? key) →
          Safe c ends { p with draft := some ⟨d.before, mid⟩ } (do
            return outcome :: (← releases i kind initiator rest)) := by
        intro mid outcome hmid
        refine safe_bind (ih h₀ rfl hrest fun outcomes after hafter => ?_)
        exact safe_pure (h _ after
          (releasedOn_cons hscope hcurrent hmid hafter))
      cases hrelease : LockRecord.release current kind initiator with
      | delete =>
          refine safe_bind (safe_remove ?_)
          rw [Progress.write, hd]
          refine hgoes _ _ fun key => ?_
          rw [hrelease]
          by_cases hkey : key = scope.keyBytes i
          · rw [if_pos hkey, hkey]
            exact SortedMap.get?_erase_self ..
          · rw [if_neg hkey]
            exact SortedMap.get?_erase_of_ne _ hkey
      | rewrite record =>
          refine safe_bind (safe_put ?_)
          rw [Progress.write, hd]
          refine hgoes _ _ fun key => ?_
          rw [hrelease]
          by_cases hkey : key = scope.keyBytes i
          · rw [if_pos hkey, hkey]
            exact SortedMap.get?_insert_self ..
          · rw [if_neg hkey]
            exact SortedMap.get?_insert_of_ne _ _ hkey
      | stale reason =>
          have hp : { p with draft := some ⟨d.before, d.after⟩ } = p := by
            rw [← hd]
          show Safe c ends p (do
            return LockOutcome.staleRelease :: (← releases i kind initiator rest))
          rw [← hp]
          refine hgoes _ _ fun key => ?_
          rw [hrelease]
          split <;> rfl

end Handler

-- ================================================== requests

/-- Where a request is granted its scopes, to store the records is its
effect. -/
theorem AcquireLock.effect_of_granted {route : InstanceId → LockVersion}
    {config : LockConfig} {r : AcquireLock} {i : InstanceId} {kind : LockKind}
    {scopes : List LockScope} {now expiration : Instant} {entries : Entries}
    {granted : List Handler.Grant}
    (hi : InstanceId.ofText r.instanceName = .ok i)
    (hkind : LockKind.ofTakingLockId r.lockId = .ok kind)
    (hscopes : LockScope.ofRequest (route i) r.table r.tablets = .ok scopes)
    (hnow : now.IsClockTime)
    (hend : Handler.leaseEnd now (r.leaseSecs.getD config.leaseSecs)
      = .ok expiration)
    (hmap : granted.map (·.scope) = scopes)
    (hgranted : ∀ g ∈ granted, Handler.GrantedOn ⟨entries, entries⟩ i kind
      r.initiator now expiration g) :
    r.Effect route config i kind scopes now expiration [now]
      ⟨entries, granted.foldl (fun entries g =>
        entries.insert (.ofText (g.scope.key i)) g.record.encode) entries⟩ := by
  have hdistinct : granted.Pairwise fun a b =>
      a.scope.keyBytes i ≠ b.scope.keyBytes i := by
    have h := LockScope.pairwise_ofRequest (InstanceId.isValid_of_ofText hi)
      hscopes
    rw [← hmap, List.pairwise_map] at h
    exact h
  refine ⟨hi, hkind, hscopes, rfl, hnow, hend, fun scope hscope => ?_,
    fun key hkey => ?_⟩
  · rw [← hmap] at hscope
    obtain ⟨g, hg, rfl⟩ := List.mem_map.1 hscope
    obtain ⟨current, hcurrent, hacquire⟩ := hgranted g hg
    exact ⟨current, g.record, g.outcome, hcurrent, hacquire,
      SortedMap.get?_foldl_insert hdistinct hg⟩
  · refine SortedMap.get?_foldl_insert_of_ne fun g hg => ?_
    exact hkey g.scope (hmap ▸ List.mem_map_of_mem hg)

/-- A request for the lock commits only what it is granted, and is granted
it if it ends well. -/
theorem AcquireLock.safe_acquireLock (route : InstanceId → LockVersion)
    (config : LockConfig) (r : AcquireLock) :
    Handler.Safe ⟨route, fun readings d => ∃ i kind scopes now expiration,
        r.Effect route config i kind scopes now expiration readings d⟩
      (fun p _ => p.commits = 1) {} (Handler.acquireLock config r) := by
  unfold Handler.acquireLock
  refine Handler.safe_bind (Handler.safe_instanceOf rfl fun i hi => ?_)
  refine Handler.safe_bind (Handler.safe_lift rfl fun kind hkind => ?_)
  refine Handler.safe_bind (Handler.safe_versionOf rfl ?_)
  refine Handler.safe_bind (Handler.safe_lift rfl fun scopes hscopes => ?_)
  refine Handler.safe_bind (Handler.safe_now fun now hnow => ?_)
  refine Handler.safe_bind (Handler.safe_lift rfl fun expiration hend => ?_)
  refine Handler.safe_bind (Handler.safe_start rfl fun entries => ?_)
  refine Handler.safe_bind (Handler.safe_grants rfl rfl
    fun granted hmap hgranted => ?_)
  refine Handler.safe_bind (Handler.safe_puts ?_)
  have heffect := AcquireLock.effect_of_granted hi hkind hscopes hnow hend hmap
    hgranted
  have hcommit : ∀ stats : List TabletStats, Handler.Safe
      ⟨route, fun readings d => ∃ i kind scopes now expiration,
        r.Effect route config i kind scopes now expiration readings d⟩
      (fun p _ => p.commits = 1)
      { draft := some ⟨entries, granted.foldl (fun entries g =>
          entries.insert (.ofText (g.scope.key i)) g.record.encode) entries⟩,
        readings := [now] } (do
      Handler.commit "commit delete bitmap update lock"
      granted.forM fun g => Handler.ask (.report (.lock g.outcome))
      return stats) := by
    intro stats
    refine Handler.safe_bind (Handler.safe_commit rfl rfl
      ⟨i, kind, scopes, now, expiration, heffect⟩ ?_)
    refine Handler.safe_bind (Handler.safe_mono
      (fun _ _ hp => Handler.safe_pure hp)
      (Handler.safe_forM (·.commits = 1) (fun g p hp => ?_) rfl))
    exact Handler.safe_report hp
  split
  · refine Handler.safe_bind (Handler.safe_mono (fun p stats hp => ?_)
      (Handler.safe_mapM (· = _) (fun tablet p hp => ?_) rfl))
    · rw [hp]
      exact hcommit stats
    · subst hp
      exact Handler.safe_readStats rfl rfl
  · exact hcommit []

/-- A request that gives up the lock commits only that. -/
theorem ReleaseLock.safe_releaseLock (route : InstanceId → LockVersion)
    (r : ReleaseLock) :
    Handler.Safe ⟨route, fun _ d => ∃ i kind scopes,
        r.Effect route i kind scopes d⟩
      (fun p _ => p.commits = 1) {} (Handler.releaseLock r) := by
  unfold Handler.releaseLock
  refine Handler.safe_bind (Handler.safe_instanceOf rfl fun i hi => ?_)
  refine Handler.safe_bind (Handler.safe_lift rfl fun kind hkind => ?_)
  refine Handler.safe_bind (Handler.safe_versionOf rfl ?_)
  refine Handler.safe_bind (Handler.safe_lift rfl fun scopes hscopes => ?_)
  refine Handler.safe_bind (Handler.safe_start rfl fun entries => ?_)
  refine Handler.safe_bind (Handler.safe_releases rfl rfl
    (LockScope.pairwise_ofRequest (InstanceId.isValid_of_ofText hi) hscopes)
    fun outcomes after hafter => ?_)
  refine Handler.safe_bind (Handler.safe_commit rfl rfl
    ⟨i, kind, scopes, hi, hkind, hscopes, hafter.released, hafter.others⟩ ?_)
  exact Handler.safe_forM (·.commits = 1)
    (fun outcome p hp => Handler.safe_report hp) rfl

end MergeOnWrite
