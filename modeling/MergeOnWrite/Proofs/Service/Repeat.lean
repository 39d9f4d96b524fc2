/-
Requests that are made again.

A request that has succeeded and is made again, with nothing in between,
takes other ways through its handler: what was acquired is joined, what was
given up is stale, what was stored is overwritten by the same, and what was
removed is not found. It succeeds on all of them, and it changes nothing.

What carries this is a condition on the entries that a request leaves, told
for itself (`Call.Stands`): the scopes are granted to the holder, the caller
has no part in them, the entries are stored, or none is left. Where it
stands a request that succeeds changes nothing, also long after it was first
made, and whatever else was done to the entries.

# Main statements

- `Call.stands_of_succeeds`: a request that succeeds has brought about what
  it asks for.
- `Call.live_of_stands`: where this stands the request changes nothing if it
  succeeds.
- `Call.succeeds_again`: right after, it succeeds, with the same payload.
-/
import MergeOnWrite.Proofs.Lock.Standing
import MergeOnWrite.Proofs.Service.BitmapRequests
import MergeOnWrite.Proofs.Service.LockHistory
import MergeOnWrite.Proofs.Service.Success

namespace MergeOnWrite

open Handler (GrantedOn ReleasedOn)

variable {config : LockConfig} {route : InstanceId → LockVersion}
  {now : Instant} {live : Entries} {t : Slate}

-- ================================================== what stands

namespace Entries

/-- True of entries by which a participant of a class holds a scope, at
least until some time. -/
def Grants (entries : Entries) (i : InstanceId) (scope : LockScope)
    (kind : LockKind) (initiator : Int64) (expiration : Instant) : Prop :=
  ∃ record : LockRecord, entries.get? (scope.keyBytes i) = some record.encode
    ∧ record.expiration.IsProper ∧ record.Grants kind initiator expiration

/-- True of entries by which a participant of a class has no part in a
scope. -/
def Lacks (entries : Entries) (i : InstanceId) (scope : LockScope)
    (kind : LockKind) (initiator : Int64) : Prop :=
  ∃ current, entries.HasLock i scope current
    ∧ LockRecord.Lacks current kind initiator

/-- True of entries among which a tablet has those of a bitmap. -/
def Stores (entries : Entries) (i : InstanceId) (tablet : TabletId)
    (bitmap : DeleteBitmap) : Prop :=
  ∀ e ∈ bitmap.toList,
    entries.get? (e.1.stored i tablet) = some e.2.encode

/-- True of entries among which a tablet has none of some rowsets. -/
structure Omits (entries : Entries) (i : InstanceId) (tablet : TabletId)
    (names : List String) : Prop where
  isValid : ∀ name ∈ names, (RowsetId.mk name).IsValid
  gone : ∀ key, (∃ name ∈ names, Bytes.ofText (Key.rowsetStem i tablet ⟨name⟩)
    <+: key) → entries.get? key = none

end Entries

-- ================================================== acquiring

namespace AcquireLock

/-- What the checks of a request for the lock come to. -/
structure Asks (config : LockConfig) (route : InstanceId → LockVersion)
    (now : Instant) (r : AcquireLock) (i : InstanceId) (kind : LockKind)
    (scopes : List LockScope) (expiration : Instant) : Prop where
  instance_eq : InstanceId.ofText r.instanceName = .ok i
  kind_eq : LockKind.ofTakingLockId r.lockId = .ok kind
  version_eq : ∀ version, r.version = some version → version = route i
  scopes_eq : LockScope.ofRequest (route i) r.table r.tablets = .ok scopes
  expiration_eq :
    Handler.leaseEnd now (r.leaseSecs.getD config.leaseSecs) = .ok expiration

/-- The entries after some grants have been stored. -/
def store (i : InstanceId) (granted : List Handler.Grant)
    (entries : Entries) : Entries :=
  granted.foldl (fun entries g =>
    entries.insert (g.scope.keyBytes i) g.record.encode) entries

/-- What a request for the lock is told of the statistics of its tablets. -/
def Tells (r : AcquireLock) (i : InstanceId) (entries : Entries)
    (stats : List TabletStats) : Prop :=
  if r.wantsStats then
    List.Forall₂ (fun tablet (s : TabletStats) =>
      ∃ record, entries.HasStats i r.table tablet record
        ∧ s = record.getD { tablet := tablet.val }) r.tablets stats
  else stats = []

/-- A request for the lock up to what it stores: what it is granted has been
put. -/
def granting (config : LockConfig) (r : AcquireLock) :
    Handler (InstanceId × List Handler.Grant) := do
  let i ← Handler.instanceOf r.instanceName
  let kind ← LockKind.ofTakingLockId r.lockId
  let version ← Handler.versionOf i r.version
  let scopes ← LockScope.ofRequest version r.table r.tablets
  let now ← Handler.ask .now
  let expiration ← Handler.leaseEnd now (r.leaseSecs.getD config.leaseSecs)
  Handler.start
  let granted ← Handler.grants i kind r.initiator now expiration scopes
  granted.forM fun g =>
    Handler.ask (.put (.ofText (g.scope.key i)) g.record.encode)
  return (i, granted)

/-- The statistics that a request for the lock asks for. -/
def statistics (r : AcquireLock) (i : InstanceId) :
    Handler (List TabletStats) :=
  if r.wantsStats then r.tablets.mapM (Handler.readStats i r.table) else pure []

/-- The end of a request for the lock. -/
def concluding (granted : List Handler.Grant) : Handler Unit := do
  Handler.commit "commit delete bitmap update lock"
  granted.forM fun g => Handler.ask (.report (.lock g.outcome))

theorem acquireLock_eq (config : LockConfig) (r : AcquireLock) :
    Handler.acquireLock config r = do
      let (i, granted) ← granting config r
      let stats ← statistics r i
      concluding granted
      return stats := by
  unfold Handler.acquireLock granting concluding statistics
  cases r.wantsStats with
  | false => simp only [Bool.false_eq_true, if_false, bind_assoc, pure_bind]
  | true => simp only [if_true, bind_assoc, pure_bind]

theorem succeeds_granting_iff {r : AcquireLock} {i : InstanceId}
    {granted : List Handler.Grant} :
    (granting config r).Succeeds now route { live } (i, granted) t
      ↔ ∃ kind scopes expiration,
        r.Asks config route now i kind scopes expiration
        ∧ granted.map (·.scope) = scopes
        ∧ (∀ g ∈ granted,
          GrantedOn ⟨live, live⟩ i kind r.initiator now expiration g)
        ∧ t = .opened live (store i granted live) := by
  unfold granting
  constructor
  · intro h
    obtain ⟨i, _, hof, h⟩ := Handler.succeeds_bind.1 h
    obtain ⟨hi, rfl⟩ := Handler.succeeds_instanceOf.1 hof
    obtain ⟨kind, _, hof, h⟩ := Handler.succeeds_bind.1 h
    obtain ⟨hkind, rfl⟩ := Handler.succeeds_lift.1 hof
    obtain ⟨_, _, hof, h⟩ := Handler.succeeds_bind.1 h
    obtain ⟨rfl, hversion, rfl⟩ := Handler.succeeds_versionOf.1 hof
    obtain ⟨scopes, _, hof, h⟩ := Handler.succeeds_bind.1 h
    obtain ⟨hscopes, rfl⟩ := Handler.succeeds_lift.1 hof
    obtain ⟨time, _, hnow, h⟩ := Handler.succeeds_bind.1 h
    obtain ⟨htime, rfl⟩ := Handler.succeeds_now.1 hnow
    rw [htime] at h
    obtain ⟨expiration, _, hof, h⟩ := Handler.succeeds_bind.1 h
    obtain ⟨hend, rfl⟩ := Handler.succeeds_lift.1 hof
    obtain ⟨_, _, hstart, h⟩ := Handler.succeeds_bind.1 h
    obtain rfl := Handler.succeeds_start.1 hstart
    obtain ⟨granted, _, hgrants, h⟩ := Handler.succeeds_bind.1 h
    obtain ⟨hmap, hgranted, rfl⟩ := Handler.succeeds_grants.1 hgrants
    obtain ⟨_, _, hputs, h⟩ := Handler.succeeds_bind.1 h
    obtain rfl := Handler.succeeds_puts.1 hputs
    obtain ⟨heq, rfl⟩ := Handler.succeeds_pure.1 h
    obtain ⟨rfl, rfl⟩ := Prod.mk.inj heq
    exact ⟨kind, scopes, expiration, ⟨hi, hkind, hversion, hscopes, hend⟩,
      hmap, hgranted, rfl⟩
  · intro ⟨kind, scopes, expiration, hasks, hmap, hgranted, ht⟩
    refine Handler.succeeds_bind.2 ⟨i, _,
      Handler.succeeds_instanceOf.2 ⟨hasks.instance_eq, rfl⟩, ?_⟩
    refine Handler.succeeds_bind.2 ⟨kind, _,
      Handler.succeeds_lift.2 ⟨hasks.kind_eq, rfl⟩, ?_⟩
    refine Handler.succeeds_bind.2 ⟨_, _,
      Handler.succeeds_versionOf.2 ⟨rfl, hasks.version_eq, rfl⟩, ?_⟩
    refine Handler.succeeds_bind.2 ⟨scopes, _,
      Handler.succeeds_lift.2 ⟨hasks.scopes_eq, rfl⟩, ?_⟩
    refine Handler.succeeds_bind.2 ⟨now, _,
      Handler.succeeds_now.2 ⟨rfl, rfl⟩, ?_⟩
    refine Handler.succeeds_bind.2 ⟨expiration, _,
      Handler.succeeds_lift.2 ⟨hasks.expiration_eq, rfl⟩, ?_⟩
    refine Handler.succeeds_bind.2 ⟨(), _, Handler.succeeds_start.2 rfl, ?_⟩
    refine Handler.succeeds_bind.2 ⟨granted, _,
      Handler.succeeds_grants.2 ⟨hmap, hgranted, rfl⟩, ?_⟩
    refine Handler.succeeds_bind.2 ⟨(), _, Handler.succeeds_puts.2 rfl, ?_⟩
    exact Handler.succeeds_pure.2 ⟨rfl, ht⟩

theorem succeeds_statistics_iff {r : AcquireLock} {i : InstanceId}
    {before : Entries} {stats : List TabletStats} :
    (statistics r i).Succeeds now route (.opened before live) stats t
      ↔ r.Tells i live stats ∧ t = .opened before live := by
  unfold statistics Tells
  split
  · exact Handler.succeeds_mapM_readStats
  · exact Handler.succeeds_pure

theorem succeeds_concluding_iff {granted : List Handler.Grant}
    {before : Entries} {a : Unit} :
    (concluding granted).Succeeds now route (.opened before live) a t
      ↔ t = { live } := by
  unfold concluding
  rw [Handler.succeeds_bind]
  simp only [Handler.succeeds_commit, Handler.succeeds_reports]
  constructor
  · intro ⟨_, _, hcommit, ht⟩
    rw [ht, hcommit]
  · intro ht
    exact ⟨(), _, rfl, ht⟩

theorem succeeds_iff (r : AcquireLock) {stats : List TabletStats} :
    (Handler.acquireLock config r).Succeeds now route { live } stats t
      ↔ ∃ i kind scopes expiration granted,
        r.Asks config route now i kind scopes expiration
        ∧ granted.map (·.scope) = scopes
        ∧ (∀ g ∈ granted,
          GrantedOn ⟨live, live⟩ i kind r.initiator now expiration g)
        ∧ r.Tells i (store i granted live) stats
        ∧ t = { live := store i granted live } := by
  rw [acquireLock_eq, Handler.succeeds_bind]
  constructor
  · intro ⟨⟨i, granted⟩, _, hgranting, h⟩
    obtain ⟨kind, scopes, expiration, hasks, hmap, hgranted, rfl⟩ :=
      succeeds_granting_iff.1 hgranting
    obtain ⟨found, _, hfound, h⟩ := Handler.succeeds_bind.1 h
    obtain ⟨htells, rfl⟩ := succeeds_statistics_iff.1 hfound
    obtain ⟨_, _, hend, h⟩ := Handler.succeeds_bind.1 h
    obtain rfl := succeeds_concluding_iff.1 hend
    obtain ⟨rfl, rfl⟩ := Handler.succeeds_pure.1 h
    exact ⟨i, kind, scopes, expiration, granted, hasks, hmap, hgranted,
      htells, rfl⟩
  · intro ⟨i, kind, scopes, expiration, granted, hasks, hmap, hgranted,
      htells, ht⟩
    refine ⟨(i, granted), _, succeeds_granting_iff.2
      ⟨kind, scopes, expiration, hasks, hmap, hgranted, rfl⟩, ?_⟩
    refine Handler.succeeds_bind.2
      ⟨stats, _, succeeds_statistics_iff.2 ⟨htells, rfl⟩, ?_⟩
    refine Handler.succeeds_bind.2
      ⟨(), _, succeeds_concluding_iff.2 rfl, ?_⟩
    exact Handler.succeeds_pure.2 ⟨rfl, ht⟩

variable {r : AcquireLock} {i : InstanceId} {kind : LockKind}
  {scopes : List LockScope} {expiration : Instant}
  {granted : List Handler.Grant} {stats : List TabletStats}

theorem Asks.unique {j : InstanceId} {kind' : LockKind}
    {scopes' : List LockScope} {expiration' : Instant}
    (h : r.Asks config route now i kind scopes expiration)
    (h' : r.Asks config route now j kind' scopes' expiration') :
    j = i ∧ kind' = kind ∧ scopes' = scopes ∧ expiration' = expiration := by
  obtain rfl := Except.ok.inj (h.instance_eq.symm.trans h'.instance_eq)
  obtain rfl := Except.ok.inj (h.kind_eq.symm.trans h'.kind_eq)
  obtain rfl := Except.ok.inj (h.scopes_eq.symm.trans h'.scopes_eq)
  obtain rfl := Except.ok.inj (h.expiration_eq.symm.trans h'.expiration_eq)
  exact ⟨rfl, rfl, rfl, rfl⟩

/-- To store what is there already changes nothing. -/
theorem store_eq_self {i : InstanceId} :
    ∀ {granted : List Handler.Grant},
      (∀ g ∈ granted,
        live.get? (g.scope.keyBytes i) = some g.record.encode) →
      store i granted live = live := by
  intro granted
  induction granted with
  | nil => intro _; rfl
  | cons g rest ih =>
      intro h
      have hsame := SortedMap.insert_of_get? (h g (List.mem_cons_self ..))
      show store i rest (live.insert _ _) = live
      rw [hsame]
      exact ih fun g' hg' => h g' (List.mem_cons_of_mem _ hg')

/-- A request for the lock stores what it is granted. -/
theorem get?_store (hasks : r.Asks config route now i kind scopes expiration)
    (hmap : granted.map (·.scope) = scopes) {g : Handler.Grant}
    (hg : g ∈ granted) :
    (store i granted live).get? (g.scope.keyBytes i)
      = some g.record.encode := by
  have hdistinct : granted.Pairwise fun a b =>
      a.scope.keyBytes i ≠ b.scope.keyBytes i := by
    have h := LockScope.pairwise_ofRequest
      (InstanceId.isValid_of_ofText hasks.instance_eq) hasks.scopes_eq
    rw [← hmap, List.pairwise_map] at h
    exact h
  exact SortedMap.get?_foldl_insert hdistinct hg

theorem isProper_of_grantedOn
    (hasks : r.Asks config route now i kind scopes expiration)
    (hnano : now.nano < 1000000000) {g : Handler.Grant}
    (hg : GrantedOn ⟨live, live⟩ i kind r.initiator now expiration g) :
    g.record.expiration.IsProper := by
  obtain ⟨current, hcurrent, hacquire⟩ := hg
  obtain ⟨-, rfl, hcalendar⟩ := Handler.eq_of_leaseEnd hasks.expiration_eq
  exact LockRecord.isProper_of_acquire hcurrent.isProper
    ⟨hcalendar, .inl hnano⟩ hacquire

/-- What a request for the lock has stored grants it what it asked for. -/
theorem grants_store (hasks : r.Asks config route now i kind scopes expiration)
    (hnano : now.nano < 1000000000) (hmap : granted.map (·.scope) = scopes)
    (hgranted : ∀ g ∈ granted,
      GrantedOn ⟨live, live⟩ i kind r.initiator now expiration g) :
    ∀ scope ∈ scopes, (store i granted live).Grants i scope kind r.initiator
      expiration := by
  intro scope hscope
  rw [← hmap] at hscope
  obtain ⟨g, hg, rfl⟩ := List.mem_map.1 hscope
  obtain ⟨current, hcurrent, hacquire⟩ := hgranted g hg
  exact ⟨g.record, get?_store hasks hmap hg,
    isProper_of_grantedOn hasks hnano (hgranted g hg),
    LockRecord.grants_of_acquire
      (LockKind.isTold_of_ofTakingLockId hasks.kind_eq) hacquire⟩

/-- A scope that is granted already is granted again, with the same
record. -/
theorem grantedOn_of_grants {scope : LockScope} (hnow : now < expiration)
    (h : live.Grants i scope kind r.initiator expiration) :
    ∃ record : LockRecord,
      live.get? (scope.keyBytes i) = some record.encode
      ∧ live.HasLock i scope (some record)
      ∧ LockRecord.acquire (some record) kind r.initiator now expiration
        = .granted record .joined := by
  obtain ⟨record, hget, hproper, hgrants⟩ := h
  exact ⟨record, hget, Entries.hasLock_of_get? hproper hget,
    hgrants.acquire_eq hnow⟩

/-- A request for the lock that is granted all it asks for already succeeds
and changes nothing. -/
theorem succeeds_again
    (hasks : r.Asks config route now i kind scopes expiration)
    (hgrants : ∀ scope ∈ scopes,
      live.Grants i scope kind r.initiator expiration)
    (htells : r.Tells i live stats) :
    (Handler.acquireLock config r).Succeeds now route { live } stats
      { live } := by
  have hnow := Handler.lt_of_leaseEnd hasks.expiration_eq
  have hgranted : ∃ granted : List Handler.Grant,
      granted.map (·.scope) = scopes ∧ ∀ g ∈ granted,
        GrantedOn ⟨live, live⟩ i kind r.initiator now expiration g
        ∧ live.get? (g.scope.keyBytes i) = some g.record.encode := by
    clear hasks
    induction scopes with
    | nil => exact ⟨[], rfl, nofun⟩
    | cons scope rest ih =>
        obtain ⟨granted, hmap, hall⟩ := ih fun other hother =>
          hgrants other (List.mem_cons_of_mem _ hother)
        obtain ⟨record, hget, hlock, hacquire⟩ :=
          grantedOn_of_grants hnow (hgrants scope (List.mem_cons_self ..))
        refine ⟨⟨scope, record, .joined⟩ :: granted,
          congrArg (scope :: ·) hmap, ?_⟩
        intro g hg
        rcases List.mem_cons.1 hg with rfl | hg
        · exact ⟨⟨some record, hlock, hacquire⟩, hget⟩
        · exact hall g hg
  obtain ⟨granted, hmap, hall⟩ := hgranted
  have hsame : store i granted live = live :=
    store_eq_self fun g hg => (hall g hg).2
  refine (succeeds_iff r).2 ⟨i, kind, scopes, expiration, granted, hasks, hmap,
    fun g hg => (hall g hg).1, ?_, ?_⟩
  · rw [hsame]
    exact htells
  · rw [hsame]

/-- Where it is granted all it asks for already, a request for the lock
changes nothing if it succeeds. -/
theorem eq_of_succeeds
    (hasks : r.Asks config route now i kind scopes expiration)
    (hgrants : ∀ scope ∈ scopes,
      live.Grants i scope kind r.initiator expiration)
    (h : (Handler.acquireLock config r).Succeeds now route { live } stats t) :
    t = { live } := by
  obtain ⟨_, _, _, _, granted, hasks', hmap, hgranted, -, rfl⟩ :=
    (succeeds_iff r).1 h
  obtain ⟨rfl, rfl, rfl, rfl⟩ := hasks.unique hasks'
  have hnow := Handler.lt_of_leaseEnd hasks.expiration_eq
  rw [store_eq_self]
  intro g hg
  have hscope : g.scope ∈ granted.map (·.scope) := List.mem_map_of_mem hg
  rw [hmap] at hscope
  obtain ⟨record, hget, hlock, hacquire⟩ :=
    grantedOn_of_grants hnow (hgrants g.scope hscope)
  obtain ⟨current, hcurrent, hagain⟩ := hgranted g hg
  obtain rfl := hcurrent.unique hlock
  rw [hacquire, LockRecord.Acquisition.granted.injEq] at hagain
  rw [← hagain.1]
  exact hget

end AcquireLock

-- ================================================== giving up the lock

namespace ReleaseLock

variable {r : ReleaseLock} {i : InstanceId} {kind : LockKind}
  {scopes : List LockScope} {after : Entries}

/-- What the checks of a request come to that gives up the lock. -/
structure Asks (route : InstanceId → LockVersion) (r : ReleaseLock)
    (i : InstanceId) (kind : LockKind) (scopes : List LockScope) : Prop where
  instance_eq : InstanceId.ofText r.instanceName = .ok i
  kind_eq : LockKind.ofTakingLockId r.lockId = .ok kind
  version_eq : ∀ version, r.version = some version → version = route i
  scopes_eq : LockScope.ofRequest (route i) r.table r.tablets = .ok scopes

theorem Asks.unique {j : InstanceId} {kind' : LockKind}
    {scopes' : List LockScope} (h : r.Asks route i kind scopes)
    (h' : r.Asks route j kind' scopes') :
    j = i ∧ kind' = kind ∧ scopes' = scopes := by
  obtain rfl := Except.ok.inj (h.instance_eq.symm.trans h'.instance_eq)
  obtain rfl := Except.ok.inj (h.kind_eq.symm.trans h'.kind_eq)
  obtain rfl := Except.ok.inj (h.scopes_eq.symm.trans h'.scopes_eq)
  exact ⟨rfl, rfl, rfl⟩

/-- A request that gives up the lock up to what it leaves: the scopes have been
given up. -/
def releasing (r : ReleaseLock) : Handler (List LockOutcome) := do
  let i ← Handler.instanceOf r.instanceName
  let kind ← LockKind.ofTakingLockId r.lockId
  let version ← Handler.versionOf i r.version
  let scopes ← LockScope.ofRequest version r.table r.tablets
  Handler.start
  Handler.releases i kind r.initiator scopes

theorem releaseLock_eq (r : ReleaseLock) :
    Handler.releaseLock r = (do
      let outcomes ← releasing r
      Handler.commit "commit delete bitmap update lock release"
      outcomes.forM fun outcome => Handler.ask (.report (.lock outcome))) := by
  unfold Handler.releaseLock releasing
  simp only [bind_assoc]

theorem releasing_of_succeeds {outcomes : List LockOutcome}
    (h : (releasing r).Succeeds now route { live } outcomes t) :
    ∃ i kind scopes after, r.Asks route i kind scopes
      ∧ ReleasedOn i kind r.initiator scopes live after
      ∧ List.Forall₂ (Handler.ReleaseTold live i kind r.initiator) scopes
        outcomes
      ∧ t = .opened live after := by
  unfold releasing at h
  obtain ⟨i, _, hof, h⟩ := Handler.succeeds_bind.1 h
  obtain ⟨hi, rfl⟩ := Handler.succeeds_instanceOf.1 hof
  obtain ⟨kind, _, hof, h⟩ := Handler.succeeds_bind.1 h
  obtain ⟨hkind, rfl⟩ := Handler.succeeds_lift.1 hof
  obtain ⟨_, _, hof, h⟩ := Handler.succeeds_bind.1 h
  obtain ⟨rfl, hversion, rfl⟩ := Handler.succeeds_versionOf.1 hof
  obtain ⟨scopes, _, hof, h⟩ := Handler.succeeds_bind.1 h
  obtain ⟨hscopes, rfl⟩ := Handler.succeeds_lift.1 hof
  obtain ⟨_, _, hstart, h⟩ := Handler.succeeds_bind.1 h
  obtain rfl := Handler.succeeds_start.1 hstart
  obtain ⟨after, hafter, htold, rfl⟩ := Handler.releasedOn_of_succeeds
    (LockScope.pairwise_ofRequest (InstanceId.isValid_of_ofText hi) hscopes) h
  exact ⟨i, kind, scopes, after, ⟨hi, hkind, hversion, hscopes⟩, hafter,
    htold, rfl⟩

theorem releasedOn_of_succeeds {a : Unit}
    (h : (Handler.releaseLock r).Succeeds now route { live } a t) :
    ∃ i kind scopes after, r.Asks route i kind scopes
      ∧ ReleasedOn i kind r.initiator scopes live after
      ∧ t = { live := after } := by
  rw [releaseLock_eq] at h
  obtain ⟨outcomes, _, hreleasing, h⟩ := Handler.succeeds_bind.1 h
  obtain ⟨i, kind, scopes, after, hasks, hafter, -, rfl⟩ :=
    releasing_of_succeeds hreleasing
  obtain ⟨_, _, hcommit, h⟩ := Handler.succeeds_bind.1 h
  obtain rfl := Handler.succeeds_commit.1 hcommit
  exact ⟨i, kind, scopes, after, hasks, hafter, Handler.succeeds_reports.1 h⟩

/-- Who gave up a scope has no part in it. -/
theorem lacks_of_releasedOn {initiator : Int64}
    (h : ReleasedOn i kind initiator scopes live after) :
    ∀ scope ∈ scopes, after.Lacks i scope kind initiator := by
  intro scope hscope
  obtain ⟨current, hcurrent, hafter⟩ := h.released scope hscope
  refine ⟨_, ?_, LockRecord.lacks_of_release current kind initiator⟩
  exact Entries.hasLock_of_leaves hcurrent hafter

/-- A request that gives up what it has no part in succeeds and changes
nothing. -/
theorem succeeds_again (hasks : r.Asks route i kind scopes)
    (hlacks : ∀ scope ∈ scopes, live.Lacks i scope kind r.initiator) :
    (Handler.releaseLock r).Succeeds now route { live } () { live } := by
  unfold Handler.releaseLock
  have hstale : ∀ scope ∈ scopes, ∃ current reason,
      live.HasLock i scope current
        ∧ LockRecord.release current kind r.initiator = .stale reason := by
    intro scope hscope
    obtain ⟨current, hcurrent, hlack⟩ := hlacks scope hscope
    obtain ⟨reason, hstale⟩ := hlack.release_eq
    exact ⟨current, reason, hcurrent, hstale⟩
  refine Handler.succeeds_bind.2 ⟨i, _,
    Handler.succeeds_instanceOf.2 ⟨hasks.instance_eq, rfl⟩, ?_⟩
  refine Handler.succeeds_bind.2 ⟨kind, _,
    Handler.succeeds_lift.2 ⟨hasks.kind_eq, rfl⟩, ?_⟩
  refine Handler.succeeds_bind.2 ⟨_, _,
    Handler.succeeds_versionOf.2 ⟨rfl, hasks.version_eq, rfl⟩, ?_⟩
  refine Handler.succeeds_bind.2 ⟨scopes, _,
    Handler.succeeds_lift.2 ⟨hasks.scopes_eq, rfl⟩, ?_⟩
  refine Handler.succeeds_bind.2 ⟨(), _, Handler.succeeds_start.2 rfl, ?_⟩
  refine Handler.succeeds_bind.2 ⟨_, _,
    Handler.succeeds_releases_stale hstale, ?_⟩
  refine Handler.succeeds_bind.2 ⟨(), _, Handler.succeeds_commit.2 rfl, ?_⟩
  exact Handler.succeeds_reports.2 rfl

end ReleaseLock

-- ================================================== storing entries

namespace UpdateBitmap

variable {r : UpdateBitmap} {i : InstanceId} {kind : LockKind}

/-- What a request that stores entries finds: the class of its caller, and
the lock that it needs. -/
structure Asks (route : InstanceId → LockVersion) (now : Instant)
    (r : UpdateBitmap) (i : InstanceId) (kind : LockKind) (live : Entries) :
    Prop where
  instance_eq : InstanceId.ofText r.instanceName = .ok i
  kind_eq : LockKind.ofLockId r.lockId = .ok kind
  holder : kind ≠ .lockFreeCompaction → ∃ current,
    live.HasLock i (.guarding (route i) r.table r.tablet) current
      ∧ LockRecord.holds current kind r.initiator now = true

theorem rewrites_of_succeeds {a : Unit}
    (h : (Handler.updateBitmap r).Succeeds now route { live } a t) :
    ∃ i kind after, r.Asks route now i kind live
      ∧ r.Rewrites i ⟨live, after⟩ ∧ t = { live := after } := by
  unfold Handler.updateBitmap at h
  obtain ⟨i, _, hof, h⟩ := Handler.succeeds_bind.1 h
  obtain ⟨hi, rfl⟩ := Handler.succeeds_instanceOf.1 hof
  obtain ⟨kind, _, hof, h⟩ := Handler.succeeds_bind.1 h
  obtain ⟨hkind, rfl⟩ := Handler.succeeds_lift.1 hof
  obtain ⟨_, _, hstart, h⟩ := Handler.succeeds_bind.1 h
  obtain rfl := Handler.succeeds_start.1 hstart
  -- the rest of the handler, once the caller may store entries
  have hgoes : Handler.Succeeds now route (do
        let change ← Handler.putEntries i r.tablet r.bitmap.toList
        Handler.changeStats i r.table r.tablet change.1 change.2
        Handler.commit "commit delete bitmap") (.opened live live) a t →
      ∃ after, r.Rewrites i ⟨live, after⟩ ∧ t = { live := after } := by
    intro h
    obtain ⟨change, _, hputs, h⟩ := Handler.succeeds_bind.1 h
    obtain rfl := Handler.putAll_of_succeeds hputs
    obtain ⟨_, _, hstats, h⟩ := Handler.succeeds_bind.1 h
    obtain ⟨after, hafter, rfl⟩ := Handler.statsChange_of_succeeds hstats
    exact ⟨after, ⟨_, _, hafter⟩, Handler.succeeds_commit.1 h⟩
  split at h
  · obtain ⟨_, _, hcheck, h⟩ := Handler.succeeds_bind.1 h
    obtain ⟨hholder, rfl⟩ := Handler.succeeds_checkHolder.1 hcheck
    obtain ⟨after, hafter, rfl⟩ := hgoes h
    exact ⟨i, kind, after, ⟨hi, hkind, fun _ => hholder⟩, hafter, rfl⟩
  · rename_i hfree
    obtain ⟨after, hafter, rfl⟩ := hgoes h
    exact ⟨i, kind, after, ⟨hi, hkind, fun h => absurd h hfree⟩, hafter, rfl⟩

/-- What a request stores is there afterwards. -/
theorem stores_of_rewrites {after : Entries} (hi : i.IsValid)
    (h : r.Rewrites i ⟨live, after⟩) : after.Stores i r.tablet r.bitmap := by
  obtain ⟨entries, rows, hstats⟩ := h
  intro e he
  have hdistinct : r.bitmap.toList.Pairwise fun a b =>
      a.1.stored i r.tablet ≠ b.1.stored i r.tablet := by
    refine r.bitmap.entries.ascending.imp fun hlt heq => ?_
    rw [BitmapKey.stored_injective i r.tablet heq, Std.ReflOrd.compare_self]
      at hlt
    cases hlt
  rw [hstats.get?_of_extends hi hi (e.1.stored_extends i r.tablet)]
  exact Entries.get?_putAll_of_mem live hdistinct he

/-- To store entries changes no lock, so who was let through is let through
again. -/
theorem Asks.of_changesOnly {after : Entries}
    (h : r.Asks route now i kind live)
    (hafter : live.ChangesOnly ((Call.updateBitmap r).MayChange route) after) :
    r.Asks route now i kind after := by
  refine ⟨h.instance_eq, h.kind_eq, fun hkind => ?_⟩
  obtain ⟨current, hcurrent, hholds⟩ := h.holder hkind
  refine ⟨current, ?_, hholds⟩
  have hsame := Decidable.of_not_not fun hne => List.not_mem_nil
    (Call.mem_scopes_of_mayChange (InstanceId.isValid_of_ofText h.instance_eq)
      (hafter ((LockScope.guarding (route i) r.table r.tablet).keyBytes i)
        hne)).2
  rw [Entries.HasLock, hsame]
  exact hcurrent

/-- A request that stores what is there already succeeds and changes
nothing. -/
theorem succeeds_again (hasks : r.Asks route now i kind live)
    (hstores : live.Stores i r.tablet r.bitmap) :
    (Handler.updateBitmap r).Succeeds now route { live } () { live } := by
  unfold Handler.updateBitmap
  refine Handler.succeeds_bind.2 ⟨i, _,
    Handler.succeeds_instanceOf.2 ⟨hasks.instance_eq, rfl⟩, ?_⟩
  refine Handler.succeeds_bind.2 ⟨kind, _,
    Handler.succeeds_lift.2 ⟨hasks.kind_eq, rfl⟩, ?_⟩
  refine Handler.succeeds_bind.2 ⟨(), _, Handler.succeeds_start.2 rfl, ?_⟩
  have hgoes : Handler.Succeeds now route (do
        let change ← Handler.putEntries i r.tablet r.bitmap.toList
        Handler.changeStats i r.table r.tablet change.1 change.2
        Handler.commit "commit delete bitmap") (.opened live live) ()
      { live } := by
    refine Handler.succeeds_bind.2 ⟨(0, 0), _,
      Handler.succeeds_putEntries_again hstores, ?_⟩
    exact Handler.succeeds_bind.2 ⟨(), _, Handler.succeeds_changeStats_zero,
      Handler.succeeds_commit.2 rfl⟩
  split
  · rename_i hkind
    exact Handler.succeeds_bind.2 ⟨(), _,
      Handler.succeeds_checkHolder.2 ⟨hasks.holder hkind, rfl⟩, hgoes⟩
  · exact hgoes

end UpdateBitmap

-- ================================================== removing entries

namespace RemoveBitmap

variable {r : RemoveBitmap} {i : InstanceId}

theorem rewrites_of_succeeds {a : Unit}
    (h : (Handler.removeBitmap r).Succeeds now route { live } a t) :
    ∃ i after, InstanceId.ofText r.instanceName = .ok i
      ∧ r.Rewrites i ⟨live, after⟩ ∧ t = { live := after } := by
  unfold Handler.removeBitmap at h
  obtain ⟨i, _, hof, h⟩ := Handler.succeeds_bind.1 h
  obtain ⟨hi, rfl⟩ := Handler.succeeds_instanceOf.1 hof
  obtain ⟨_, _, hstart, h⟩ := Handler.succeeds_bind.1 h
  obtain rfl := Handler.succeeds_start.1 hstart
  obtain ⟨removed, _, hremove, h⟩ := Handler.succeeds_bind.1 h
  obtain ⟨mid, hmid, rfl⟩ := Handler.cleared_of_succeeds hremove
  obtain ⟨_, _, hstats, h⟩ := Handler.succeeds_bind.1 h
  obtain ⟨after, hafter, rfl⟩ := Handler.statsChange_of_succeeds hstats
  exact ⟨i, after, hi, ⟨mid, _, _, hmid, hafter⟩, Handler.succeeds_commit.1 h⟩

/-- What a request removes is not there afterwards. -/
theorem omits_of_rewrites {after : Entries} (hi : i.IsValid)
    (h : r.Rewrites i ⟨live, after⟩) : after.Omits i r.tablet r.rowsets := by
  obtain ⟨mid, entries, rows, hcleared, hstats⟩ := h
  refine ⟨hcleared.isValid, fun key hkey => ?_⟩
  obtain ⟨name, hname, hstem⟩ := hkey
  rw [hstats.get?_of_extends hi hi
    ((Key.rowsetStem_extends i r.tablet ⟨name⟩).trans hstem)]
  exact hcleared.gone key ⟨name, hname, hstem⟩

/-- A request that removes what is not there succeeds and changes
nothing. -/
theorem succeeds_again (hi : InstanceId.ofText r.instanceName = .ok i)
    (homits : live.Omits i r.tablet r.rowsets) :
    (Handler.removeBitmap r).Succeeds now route { live } () { live } := by
  unfold Handler.removeBitmap
  refine Handler.succeeds_bind.2 ⟨i, _,
    Handler.succeeds_instanceOf.2 ⟨hi, rfl⟩, ?_⟩
  refine Handler.succeeds_bind.2 ⟨(), _, Handler.succeeds_start.2 rfl, ?_⟩
  refine Handler.succeeds_bind.2 ⟨(0, 0), _,
    Handler.succeeds_removeRowsets_again homits.isValid homits.gone, ?_⟩
  exact Handler.succeeds_bind.2 ⟨(), _, Handler.succeeds_changeStats_zero,
    Handler.succeeds_commit.2 rfl⟩

end RemoveBitmap

-- ================================================== attempts

namespace Call

variable {call : Call} {payload : call.Payload} {s : Slate}

/-- An attempt responds with what comes of its handler. -/
theorem run_attempt (config : LockConfig) (call : Call) (now : Instant)
    (route : InstanceId → LockVersion) (s : Slate) :
    (call.attempt config).run (Slate.answer now route) s
      = ((Program.run (Slate.answer now route) (call.handler config).run s).1,
        .ofResult call.noPayload
          (Program.run (Slate.answer now route)
            (call.handler config).run s).2) :=
  Program.run_bind ..

theorem run_attempt_of_succeeds
    (h : (call.handler config).Succeeds now route s payload t) :
    (call.attempt config).run (Slate.answer now route) s
      = (t, ⟨{}, payload⟩) := by
  rw [run_attempt, h]
  rfl

/-- An attempt succeeds only if its handler comes out well. -/
theorem succeeds_of_ok {response : Response call.Payload}
    (h : (call.attempt config).run (Slate.answer now route) s = (t, response))
    (hok : response.status.code = .ok) :
    (call.handler config).Succeeds now route s response.payload t
      ∧ response.status = {} := by
  rw [run_attempt] at h
  unfold Handler.Succeeds
  generalize Program.run (Slate.answer now route) (call.handler config).run s
    = x at h ⊢
  obtain ⟨u, result⟩ := x
  obtain ⟨rfl, rfl⟩ := Prod.mk.inj h
  cases result with
  | ok a => exact ⟨rfl, rfl⟩
  | error e => exact absurd hok (code_ne_ok e)

end Call

-- ================================================== requests

namespace Call

/-- What a request has brought about that succeeded. It may stand long after,
whatever else is done to the entries. -/
def Stands (config : LockConfig) (route : InstanceId → LockVersion)
    (now : Instant) (live : Entries) : Call → Prop
  | .acquireLock r => ∃ i kind scopes expiration,
    r.Asks config route now i kind scopes expiration
      ∧ ∀ scope ∈ scopes, live.Grants i scope kind r.initiator expiration
  | .releaseLock r => ∃ i kind scopes, r.Asks route i kind scopes
    ∧ ∀ scope ∈ scopes, live.Lacks i scope kind r.initiator
  | .updateBitmap r => ∃ i, InstanceId.ofText r.instanceName = .ok i
    ∧ live.Stores i r.tablet r.bitmap
  | .readBitmap _ => True
  | .removeBitmap r => ∃ i, InstanceId.ofText r.instanceName = .ok i
    ∧ live.Omits i r.tablet r.rowsets

variable {config : LockConfig} {call : Call} {payload : call.Payload}

/-- A request that succeeds changes only what it may change. -/
theorem changesOnly_of_succeeds
    (h : (call.handler config).Succeeds now route { live } payload t) :
    live.ChangesOnly (call.MayChange route) t.live := by
  have hconfined := Slate.run_confined now (call.within_handler config)
    (Slate.confined_live (call.footprint route) live)
  rw [h] at hconfined
  exact hconfined.live

/-- A request that succeeds has brought about what it asks for. -/
theorem stands_of_succeeds (hnano : now.nano < 1000000000)
    (h : (call.handler config).Succeeds now route { live } payload t) :
    call.Stands config route now t.live := by
  cases call with
  | acquireLock r =>
      obtain ⟨i, kind, scopes, expiration, granted, hasks, hmap, hgranted, -,
        rfl⟩ := (AcquireLock.succeeds_iff r).1 h
      exact ⟨i, kind, scopes, expiration, hasks,
        AcquireLock.grants_store hasks hnano hmap hgranted⟩
  | releaseLock r =>
      obtain ⟨i, kind, scopes, after, hasks, hreleased, rfl⟩ :=
        ReleaseLock.releasedOn_of_succeeds h
      exact ⟨i, kind, scopes, hasks,
        ReleaseLock.lacks_of_releasedOn hreleased⟩
  | updateBitmap r =>
      obtain ⟨i, kind, after, hasks, hrewrites, rfl⟩ :=
        UpdateBitmap.rewrites_of_succeeds h
      exact ⟨i, hasks.instance_eq, UpdateBitmap.stores_of_rewrites
        (InstanceId.isValid_of_ofText hasks.instance_eq) hrewrites⟩
  | readBitmap r => trivial
  | removeBitmap r =>
      obtain ⟨i, after, hi, hrewrites, rfl⟩ :=
        RemoveBitmap.rewrites_of_succeeds h
      exact ⟨i, hi, RemoveBitmap.omits_of_rewrites
        (InstanceId.isValid_of_ofText hi) hrewrites⟩

/-- Where what a request asks for stands, the request changes nothing if it
succeeds. -/
theorem live_of_stands (hstands : call.Stands config route now live)
    (h : (call.handler config).Succeeds now route { live } payload t) :
    t.live = live := by
  cases call with
  | acquireLock r =>
      obtain ⟨i, kind, scopes, expiration, hasks, hgrants⟩ := hstands
      rw [AcquireLock.eq_of_succeeds hasks hgrants h]
  | releaseLock r =>
      obtain ⟨i, kind, scopes, hasks, hlacks⟩ := hstands
      rw [h.unique (ReleaseLock.succeeds_again hasks hlacks)]
  | updateBitmap r =>
      obtain ⟨i, hi, hstores⟩ := hstands
      obtain ⟨j, kind, -, hasks, -, -⟩ := UpdateBitmap.rewrites_of_succeeds h
      obtain rfl := Except.ok.inj (hi.symm.trans hasks.instance_eq)
      rw [h.unique (UpdateBitmap.succeeds_again hasks hstores)]
  | readBitmap r =>
      refine SortedMap.ext_get? fun key => Decidable.of_not_not fun hne => ?_
      obtain ⟨i, -, htouches⟩ := changesOnly_of_succeeds h key hne
      exact htouches
  | removeBitmap r =>
      obtain ⟨i, hi, homits⟩ := hstands
      rw [h.unique (RemoveBitmap.succeeds_again hi homits)]

/-- A request that succeeds succeeds again, with the same payload, and then
changes nothing. -/
theorem succeeds_again (hnano : now.nano < 1000000000)
    (h : (call.handler config).Succeeds now route { live } payload t) :
    ∃ u, (call.handler config).Succeeds now route { live := t.live } payload u
      ∧ u.live = t.live := by
  have hstands := stands_of_succeeds hnano h
  cases call with
  | acquireLock r =>
      obtain ⟨i, kind, scopes, expiration, granted, hasks, hmap, hgranted,
        htells, rfl⟩ := (AcquireLock.succeeds_iff r).1 h
      exact ⟨_, AcquireLock.succeeds_again hasks
        (AcquireLock.grants_store hasks hnano hmap hgranted) htells, rfl⟩
  | releaseLock r =>
      obtain ⟨i, kind, scopes, hasks, hlacks⟩ := hstands
      exact ⟨_, ReleaseLock.succeeds_again hasks hlacks, rfl⟩
  | updateBitmap r =>
      obtain ⟨i, hi, hstores⟩ := hstands
      obtain ⟨j, kind, after, hasks, hrewrites, rfl⟩ :=
        UpdateBitmap.rewrites_of_succeeds h
      obtain rfl := Except.ok.inj (hi.symm.trans hasks.instance_eq)
      exact ⟨_, UpdateBitmap.succeeds_again
        (hasks.of_changesOnly (changesOnly_of_succeeds h)) hstores, rfl⟩
  | readBitmap r =>
      have hstood : (readBitmap r).Stands config route now live := trivial
      have hsame := live_of_stands hstood h
      rw [hsame]
      exact ⟨t, h, hsame⟩
  | removeBitmap r =>
      obtain ⟨i, hi, homits⟩ := hstands
      exact ⟨_, RemoveBitmap.succeeds_again hi homits, rfl⟩

end Call

end MergeOnWrite
