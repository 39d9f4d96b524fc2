/-
Whether a request for the lock is granted, and what it stores.

A request names one scope or several and is granted all of them or none. On a
slate it is told before it is made which of the two it will be: it is granted
them if it is admitted to every one (`LockRecord.Admits`), and refused as soon
as it is not admitted to one. For that all records must be readable, and they
are where nothing but records is stored.

A request whose lease cannot end is refused before that. It asks for the
version of the protocol and for the time and for nothing else, so the
surroundings that it is made in need not be a slate.

# Main statements

- `AcquireLock.lt_ends`, `AcquireLock.secs_lt`: a lease that can be granted
  ends later, and its length is no number that is too large.
- `AcquireLock.fails_of_not_lasts`: a request whose lease cannot end is
  refused, in any surroundings.
- `AcquireLock.decides_attempt`: what comes of all other requests.
-/
import MergeOnWrite.Proofs.Lock.Admission
import MergeOnWrite.Proofs.Service.Footprint
import MergeOnWrite.Proofs.Service.Records
import MergeOnWrite.Proofs.Service.Repeat

namespace MergeOnWrite

-- ================================================== failures

namespace Handler

variable {σ α β : Type} {answer : σ → (q : Question) → σ × q.Answer}
  {s t u : σ} {e : ServiceError}

/-- In some surroundings a handler fails with an error, and leaves them in
another state. -/
def Fails (answer : σ → (q : Question) → σ × q.Answer) (h : Handler α) (s : σ)
    (e : ServiceError) (t : σ) : Prop :=
  Program.run answer h.run s = (t, .error e)

theorem Fails.bind {h : Handler α} (hfails : h.Fails answer s e t)
    (f : α → Handler β) : (h >>= f).Fails answer s e t := by
  have hrun : Program.run answer (h >>= f).run s = _ :=
    Program.run_bind answer h.run (ExceptT.bindCont f) s
  unfold Fails
  rw [hrun, hfails]
  rfl

/-- A sequence whose first part comes out well runs as the rest does. -/
theorem run_bind_of_ok {h : Handler α} {f : α → Handler β} {a : α}
    (ha : Program.run answer h.run s = (u, .ok a)) :
    Program.run answer (h >>= f).run s = Program.run answer (f a).run u := by
  have hrun : Program.run answer (h >>= f).run s = _ :=
    Program.run_bind answer h.run (ExceptT.bindCont f) s
  rw [hrun, ha]
  rfl

/-- A sequence fails if its first part comes out well and the rest fails. -/
theorem fails_bind {h : Handler α} {f : α → Handler β} {a : α}
    (ha : Program.run answer h.run s = (u, .ok a))
    (hf : (f a).Fails answer u e t) : (h >>= f).Fails answer s e t :=
  (run_bind_of_ok ha).trans hf

theorem fails_throw : (throw e : Handler α).Fails answer s e s := rfl

theorem run_ask {q : Question} {x : q.Answer} (h : answer s q = (t, x)) :
    Program.run answer (ask q).run s = (t, .ok x) := by
  show ((answer s q).1, Except.ok (answer s q).2) = _
  rw [h]

theorem run_instanceOf {name : String} {i : InstanceId}
    (h : InstanceId.ofText name = .ok i) :
    Program.run answer (instanceOf name).run s = (s, .ok i) := by
  rw [instanceOf, h]
  rfl

theorem run_lift {result : Except ServiceError α} {a : α}
    (h : result = .ok a) :
    Program.run answer (liftM result : Handler α).run s = (s, .ok a) := by
  rw [h]
  rfl

theorem run_versionOf {i : InstanceId} {taken : Option LockVersion}
    {version : LockVersion} (hroute : answer s (.route i) = (t, version))
    (htaken : ∀ v, taken = some v → v = version) :
    Program.run answer (versionOf i taken).run s = (t, .ok version) := by
  have hrun : Program.run answer (versionOf i taken).run s = _ :=
    Program.run_bind answer (ask (.route i)).run (ExceptT.bindCont _) s
  rw [hrun, run_ask hroute]
  cases taken with
  | none => rfl
  | some v =>
      rw [htaken v rfl]
      show Program.run answer (if version = version then _ else _) t = _
      rw [if_pos rfl]
      rfl

/-- Where all scopes can be read and one is busy, a request is refused, and
nothing has changed. -/
theorem fails_grants {now : Instant} {route : InstanceId → LockVersion}
    {live view : Entries} {i : InstanceId} {kind : LockKind}
    {initiator : Int64} {time expiration : Instant} :
    ∀ {scopes : List LockScope},
      (∀ scope ∈ scopes, ∃ current, view.HasLock i scope current) →
      (∃ scope ∈ scopes, ∃ current holder, view.HasLock i scope current
        ∧ LockRecord.acquire current kind initiator time expiration
          = .busy holder) →
      ∃ message, (grants i kind initiator time expiration scopes).Fails
        (Slate.answer now route) (.opened live view) (.lockBusy message)
        (.opened live view) := by
  intro scopes
  induction scopes with
  | nil =>
      rintro - ⟨scope, hscope, -⟩
      cases hscope
  | cons scope rest ih =>
      intro hreads hbusy
      simp only [List.mem_cons, forall_eq_or_imp] at hreads
      obtain ⟨⟨current, hcurrent⟩, hreads⟩ := hreads
      have hread : (readLock i scope).Succeeds now route (.opened live view)
          current (.opened live view) :=
        succeeds_readLock.2 ⟨hcurrent, rfl⟩
      cases hacquire : LockRecord.acquire current kind initiator time
          expiration with
      | busy holder =>
          refine ⟨busyMessage scope holder kind initiator,
            fails_bind hread ?_⟩
          simp only [hacquire]
          exact fails_bind (run_ask rfl) fails_throw
      | granted record outcome =>
          -- the busy one is among the others
          have hothers : ∃ other ∈ rest, ∃ current holder,
              view.HasLock i other current
                ∧ LockRecord.acquire current kind initiator time expiration
                  = .busy holder := by
            obtain ⟨other, hother, current', holder, hcurrent', hheld⟩ := hbusy
            rcases List.mem_cons.1 hother with rfl | hother
            · rw [hcurrent'.unique hcurrent, hacquire] at hheld
              cases hheld
            · exact ⟨other, hother, current', holder, hcurrent', hheld⟩
          obtain ⟨message, hfails⟩ := ih hreads hothers
          refine ⟨message, fails_bind hread ?_⟩
          simp only [hacquire]
          exact hfails.bind _

end Handler

-- ================================================== records

namespace Entries

variable {entries : Entries} {i : InstanceId}

instance (entries : Entries) (i : InstanceId) (scope : LockScope)
    (current : Option LockRecord) :
    Decidable (entries.HasLock i scope current) :=
  inferInstanceAs (Decidable (_ = _))

/-- Where all can be read, every scope holds a record or none. -/
theorem IsReadable.hasLock (h : entries.IsReadable) (hi : i.IsValid)
    (scope : LockScope) : ∃ current, entries.HasLock i scope current := by
  unfold HasLock LockScope.keyBytes
  cases hget : entries.get? (.ofText (scope.key i)) with
  | none => exact ⟨none, rfl⟩
  | some value =>
      obtain ⟨record, hrecord⟩ := h.lock i scope value hi hget
      exact ⟨some record, congrArg some hrecord⟩

/-- Where all can be read, every tablet has statistics or none. -/
theorem IsReadable.hasStats (h : entries.IsReadable) (hi : i.IsValid)
    (table : TableId) (tablet : TabletId) :
    ∃ record, entries.HasStats i table tablet record := by
  unfold HasStats
  cases hget : entries.get? (.ofText (Key.stats i table tablet)) with
  | none => exact ⟨none, rfl⟩
  | some value =>
      obtain ⟨stats, hstats, -⟩ := h.stats i table tablet value hi hget
      exact ⟨some stats, congrArg some hstats⟩

end Entries

/-- Requests name the scopes that their tablets tell, each of them once. -/
theorem LockScope.exists_ofRequest {version : LockVersion} {table : TableId}
    {tablets : List TabletId} (h : version = .v2 → tablets ≠ []) :
    ∃ scopes, ofRequest version table tablets = .ok scopes
      ∧ ∀ scope, scope ∈ scopes ↔ scope ∈ named version table tablets := by
  cases version with
  | v1 => exact ⟨_, rfl, fun scope => Iff.rfl⟩
  | v2 =>
      have hscopes : ofRequest .v2 table tablets = .ok
          ((SortedSet.ofList (tablets.map TabletId.val)).keys.map fun id =>
            .tablet table ⟨id⟩) :=
        if_neg (h rfl)
      refine ⟨_, hscopes, fun scope => ⟨mem_named hscopes, fun hscope => ?_⟩⟩
      obtain ⟨tablet, htablet, rfl⟩ := List.mem_map.1 hscope
      refine List.mem_map.2 ⟨tablet.val, SortedMap.mem_keys.2 ?_, rfl⟩
      exact SortedSet.get?_ofList_isSome.2 (List.mem_map_of_mem htablet)

theorem Instant.isInCalendar_iff {t : Instant} : t.isInCalendar = true
    ↔ leastSecond ≤ t.second ∧ t.second ≤ greatestSecond := by
  simp [isInCalendar]

/-- An attempt whose handler fails responds with its error. -/
theorem Call.run_attempt_of_fails {σ : Type} {config : LockConfig} {call : Call}
    {answer : σ → (q : Question) → σ × q.Answer} {s t : σ} {e : ServiceError}
    (h : (call.handler config).Fails answer s e t) :
    (call.attempt config).run answer s
      = (t, ⟨.ofError e, call.noPayload⟩) := by
  have hrun : (call.attempt config).run answer s = _ :=
    Program.run_bind answer (call.handler config).run _ s
  rw [hrun, h]
  rfl

namespace AcquireLock

variable {config : LockConfig} {r : AcquireLock} {i : InstanceId}
  {kind : LockKind} {scopes : List LockScope} {now expiration : Instant}
  {route : InstanceId → LockVersion} {live : Entries}
  {granted : List Handler.Grant}

-- ================================================== leases

/-- The seconds that a lease is to run. -/
def secs (config : LockConfig) (r : AcquireLock) : UInt64 :=
  r.leaseSecs.getD config.leaseSecs

/-- The end of a lease that is asked for at some time. -/
def ends (config : LockConfig) (r : AcquireLock) (now : Instant) : Instant :=
  ⟨now.second + (r.secs config).toNat, now.nano⟩

/-- True of a request whose lease can be granted: it runs at all, and ends
within the calendar. -/
def Lasts (config : LockConfig) (r : AcquireLock) (now : Instant) : Prop :=
  0 < r.secs config ∧ (r.ends config now).isInCalendar = true

theorem leaseEnd_of_lasts (h : r.Lasts config now) :
    Handler.leaseEnd now (r.leaseSecs.getD config.leaseSecs)
      = .ok (r.ends config now) := by
  have hsecs : r.leaseSecs.getD config.leaseSecs ≠ 0 := by
    intro hzero
    have hpos := h.1
    rw [secs, hzero] at hpos
    exact absurd hpos (by decide)
  have hlater : now.addSeconds? (r.leaseSecs.getD config.leaseSecs).toNat
      = some (r.ends config now) :=
    if_pos h.2
  rw [Handler.leaseEnd, if_neg hsecs, hlater]

theorem leaseEnd_of_not_lasts (h : ¬r.Lasts config now) :
    ∃ message, Handler.leaseEnd now (r.leaseSecs.getD config.leaseSecs)
      = .error (.invalidArgument message) := by
  cases hend : Handler.leaseEnd now (r.leaseSecs.getD config.leaseSecs) with
  | ok expiration =>
      obtain ⟨hpos, rfl, hcalendar⟩ := Handler.eq_of_leaseEnd hend
      exact absurd ⟨UInt64.lt_iff_toNat_lt.2 hpos, hcalendar⟩ h
  | error e =>
      unfold Handler.leaseEnd at hend
      split at hend
      · exact ⟨_, hend.symm⟩
      · split at hend
        · cases hend
        · exact ⟨_, hend.symm⟩

/-- A lease that can be granted ends later than it was asked for. -/
theorem lt_ends (h : r.Lasts config now) : now < r.ends config now :=
  Handler.lt_of_leaseEnd (leaseEnd_of_lasts h)

/-- What a lease that can be granted lasts is counted in milliseconds by 64
bits, with one of them for the sign. -/
theorem secs_lt (hnow : now.isInCalendar = true) (h : r.Lasts config now) :
    (r.secs config).toNat * 1000 < 2 ^ 63 := by
  have hleast : Instant.leastSecond = -8334601228800 := by decide +kernel
  have hgreatest : Instant.greatestSecond = 8210266876799 := by decide +kernel
  have hstarts := (Instant.isInCalendar_iff.1 hnow).1
  have hends : now.second + (r.secs config).toNat ≤ Instant.greatestSecond :=
    (Instant.isInCalendar_iff.1 h.2).2
  omega

-- ================================================== refusals

/-- What is left of a request for the lock after its first checks. -/
def goesOn (config : LockConfig) (r : AcquireLock) (i : InstanceId)
    (kind : LockKind) (scopes : List LockScope) (now : Instant) :
    Handler (List TabletStats) := do
  let expiration ←
    Handler.leaseEnd now (r.leaseSecs.getD config.leaseSecs)
  Handler.start
  let granted ← Handler.grants i kind r.initiator now expiration scopes
  granted.forM fun g =>
    Handler.ask (.put (.ofText (g.scope.key i)) g.record.encode)
  let stats ←
    if r.wantsStats then r.tablets.mapM (Handler.readStats i r.table)
    else pure []
  Handler.commit "commit delete bitmap update lock"
  granted.forM fun g => Handler.ask (.report (.lock g.outcome))
  return stats

section Checks

variable {σ : Type} {answer : σ → (q : Question) → σ × q.Answer}
  {s t u v : σ} {version : LockVersion} {e : ServiceError}

/-- The first checks look up the version and the time, and nothing else. -/
theorem run_of_goesOn (hroute : answer s (.route i) = (t, version))
    (hnow : answer t .now = (u, now))
    (hi : InstanceId.ofText r.instanceName = .ok i)
    (hkind : LockKind.ofTakingLockId r.lockId = .ok kind)
    (hversion : ∀ taken, r.version = some taken → taken = version)
    (hscopes : LockScope.ofRequest version r.table r.tablets = .ok scopes) :
    Program.run answer (Handler.acquireLock config r).run s
      = Program.run answer (r.goesOn config i kind scopes now).run u := by
  unfold Handler.acquireLock
  rw [Handler.run_bind_of_ok (Handler.run_instanceOf hi),
    Handler.run_bind_of_ok (Handler.run_lift hkind),
    Handler.run_bind_of_ok (Handler.run_versionOf hroute hversion),
    Handler.run_bind_of_ok (Handler.run_lift hscopes),
    Handler.run_bind_of_ok (Handler.run_ask hnow)]
  rfl

theorem fails_of_goesOn (hroute : answer s (.route i) = (t, version))
    (hnow : answer t .now = (u, now))
    (hi : InstanceId.ofText r.instanceName = .ok i)
    (hkind : LockKind.ofTakingLockId r.lockId = .ok kind)
    (hversion : ∀ taken, r.version = some taken → taken = version)
    (hscopes : LockScope.ofRequest version r.table r.tablets = .ok scopes)
    (h : (r.goesOn config i kind scopes now).Fails answer u e v) :
    (Handler.acquireLock config r).Fails answer s e v :=
  (run_of_goesOn hroute hnow hi hkind hversion hscopes).trans h

/-- A request whose lease cannot be granted fails before it asks for anything
that is stored. -/
theorem fails_of_not_lasts (hroute : answer s (.route i) = (t, version))
    (hnow : answer t .now = (u, now))
    (hi : InstanceId.ofText r.instanceName = .ok i)
    (hkind : LockKind.ofTakingLockId r.lockId = .ok kind)
    (hversion : ∀ taken, r.version = some taken → taken = version)
    (htablets : version = .v2 → r.tablets ≠ [])
    (hlasts : ¬r.Lasts config now) :
    ∃ message, (Handler.acquireLock config r).Fails answer s
      (.invalidArgument message) u := by
  obtain ⟨scopes, hscopes, -⟩ := LockScope.exists_ofRequest htablets
  obtain ⟨message, hend⟩ := leaseEnd_of_not_lasts hlasts
  refine ⟨message,
    fails_of_goesOn hroute hnow hi hkind hversion hscopes ?_⟩
  unfold goesOn
  rw [hend]
  exact Handler.fails_throw.bind _

end Checks

/-- A request that finds a scope busy fails, and nothing has changed. -/
theorem fails_of_busy (hasks : r.Asks config route now i kind scopes expiration)
    (hreads : ∀ scope ∈ scopes, ∃ current, live.HasLock i scope current)
    (hbusy : ∃ scope ∈ scopes, ∃ current holder, live.HasLock i scope current
      ∧ LockRecord.acquire current kind r.initiator now expiration
        = .busy holder) :
    ∃ message, (Handler.acquireLock config r).Fails (Slate.answer now route)
      { live } (.lockBusy message) (.opened live live) := by
  obtain ⟨message, hgrants⟩ := Handler.fails_grants hreads hbusy
  refine ⟨message, fails_of_goesOn rfl rfl hasks.instance_eq hasks.kind_eq
    hasks.version_eq hasks.scopes_eq ?_⟩
  unfold goesOn
  apply Handler.fails_bind (Handler.run_lift hasks.expiration_eq)
  apply Handler.fails_bind (a := ()) (Handler.succeeds_start.2 rfl)
  exact hgrants.bind _

-- ================================================== grants

/-- True of a scope that a request may have, by the entries. -/
def MayHave (r : AcquireLock) (i : InstanceId) (now : Instant)
    (entries : Entries) (scope : LockScope) : Prop :=
  ∃ current, entries.HasLock i scope current
    ∧ LockRecord.Admits current r.lockId r.initiator now

/-- To store what is granted leaves nothing but records. -/
theorem areRecords_store (hi : i.IsValid)
    (hproper : ∀ g ∈ granted, g.record.expiration.IsProper)
    (h : live.AreRecords) : (store i granted live).AreRecords := by
  induction granted generalizing live with
  | nil => exact h
  | cons g rest ih =>
      simp only [List.mem_cons, forall_eq_or_imp] at hproper
      exact ih hproper.2 (h.insert
        ⟨.lock i g.scope, hi, rfl, g.record, hproper.1, rfl⟩)

/-- Where all can be read, a request is told of the statistics of all its
tablets. -/
theorem exists_tells {entries : Entries} (h : entries.IsReadable)
    (hi : i.IsValid) : ∃ stats, r.Tells i entries stats := by
  unfold Tells
  by_cases hwants : r.wantsStats = true
  · simp only [if_pos hwants]
    induction r.tablets with
    | nil => exact ⟨[], .nil⟩
    | cons tablet rest ih =>
        obtain ⟨stats, hstats⟩ := ih
        obtain ⟨record, hrecord⟩ := h.hasStats hi r.table tablet
        exact ⟨_, .cons ⟨record, hrecord, rfl⟩ hstats⟩
  · exact ⟨[], by rw [if_neg hwants]⟩

/-- Who may have all scopes is granted them. -/
theorem exists_granted (hkind : LockKind.ofTakingLockId r.lockId = .ok kind)
    (expiration : Instant)
    (h : ∀ scope ∈ scopes, r.MayHave i now live scope) :
    ∃ granted : List Handler.Grant, granted.map (·.scope) = scopes
      ∧ ∀ g ∈ granted, Handler.GrantedOn ⟨live, live⟩ i kind r.initiator now
        expiration g := by
  have hid := LockKind.lockId_of_ofTakingLockId hkind
  induction scopes with
  | nil => exact ⟨[], rfl, nofun⟩
  | cons scope rest ih =>
      simp only [List.mem_cons, forall_eq_or_imp] at h
      obtain ⟨⟨current, hcurrent, hadmits⟩, hrest⟩ := h
      obtain ⟨granted, hmap, hgranted⟩ := ih hrest
      rw [← hid] at hadmits
      obtain ⟨record, outcome, hacquire⟩ := LockRecord.acquire_of_admits
        (LockKind.isTold_of_ofTakingLockId hkind) expiration hadmits
      refine ⟨⟨scope, record, outcome⟩ :: granted,
        congrArg (scope :: ·) hmap, ?_⟩
      simp only [List.mem_cons, forall_eq_or_imp]
      exact ⟨⟨current, hcurrent, hacquire⟩, hgranted⟩

-- ================================================== decisions

/-- What becomes of a request for the lock whose lease can be granted. -/
structure Decides (r : AcquireLock) (i : InstanceId) (version : LockVersion)
    (now expiration : Instant) (before after : Entries) (code : ServiceCode) :
    Prop where
  /-- It has all its scopes exactly if it may have each. -/
  ok_iff : code = .ok ↔ ∀ scope ∈ LockScope.named version r.table r.tablets,
    r.MayHave i now before scope
  /-- Or it has none. -/
  refused : code ≠ .ok → code = .lockConflict ∧ after = before
  granted : code = .ok → ∀ scope ∈ LockScope.named version r.table r.tablets,
    ∃ current record, before.HasLock i scope current
      ∧ after.HasLock i scope (some record)
      ∧ LockRecord.Admission current r.lockId r.initiator now expiration record
  others : ∀ key, (∀ scope ∈ LockScope.named version r.table r.tablets,
    key ≠ scope.keyBytes i) → after.get? key = before.get? key

section Decided

variable {version : LockVersion} {before after : Entries}
  {scope : LockScope} {held : LockRecord} {current : Option LockRecord}

/-- A scope that nobody holds, or whose lease has ended, gets a record of the
request. -/
theorem Decides.renews
    (h : r.Decides i version now expiration before after .ok)
    (hscope : scope ∈ LockScope.named version r.table r.tablets)
    (hcurrent : before.HasLock i scope current)
    (hended : ∀ held, current = some held → held.expiration ≤ now) :
    after.HasLock i scope
      (some ⟨r.lockId, SortedSet.ofList [r.initiator], expiration⟩) := by
  obtain ⟨current', record, hcurrent', hafter, hadmission⟩ :=
    h.granted rfl scope hscope
  rw [hcurrent'.unique hcurrent] at hadmission
  rw [hadmission.alone hended] at hafter
  exact hafter

/-- A record whose lease runs is joined. -/
theorem Decides.joins
    (h : r.Decides i version now expiration before after .ok)
    (hscope : scope ∈ LockScope.named version r.table r.tablets)
    (hcurrent : before.HasLock i scope (some held))
    (hruns : now < held.expiration) :
    ∃ record, after.HasLock i scope (some record)
      ∧ record.lockId = held.lockId
      ∧ (∀ other, record.lists other = true
        ↔ other = r.initiator ∨ held.lists other = true)
      ∧ record.expiration = held.expiration.latest expiration := by
  obtain ⟨current, record, hcurrent', hafter, hadmission⟩ :=
    h.granted rfl scope hscope
  rw [hcurrent'.unique hcurrent] at hadmission
  exact ⟨record, hafter, hadmission.beside held rfl hruns⟩

end Decided

theorem decides_of_granted (hclock : now.IsClockTime)
    (hasks : r.Asks config route now i kind scopes expiration)
    (hnamed : ∀ scope,
      scope ∈ scopes ↔ scope ∈ LockScope.named (route i) r.table r.tablets)
    (hmap : granted.map (·.scope) = scopes)
    (hgranted : ∀ g ∈ granted,
      Handler.GrantedOn ⟨live, live⟩ i kind r.initiator now expiration g)
    (hall : ∀ scope ∈ scopes, r.MayHave i now live scope) :
    r.Decides i (route i) now expiration live (store i granted live) .ok := by
  have hid := LockKind.lockId_of_ofTakingLockId hasks.kind_eq
  have heffect := effect_of_granted hasks.instance_eq hasks.kind_eq
    hasks.scopes_eq hclock hasks.expiration_eq hmap hgranted
  refine ⟨?_, fun hne => absurd rfl hne, fun _ scope hscope => ?_,
    fun key hkey => ?_⟩
  · refine ⟨fun _ scope hscope => ?_, fun _ => rfl⟩
    exact hall scope ((hnamed scope).2 hscope)
  · obtain ⟨current, record, outcome, hcurrent, hacquire, hget⟩ :=
      heffect.granted scope ((hnamed scope).2 hscope)
    have hproper : record.expiration.IsProper :=
      LockRecord.isProper_of_acquire hcurrent.isProper
        (Handler.isProper_of_leaseEnd hclock hasks.expiration_eq) hacquire
    refine ⟨current, record, hcurrent, Entries.hasLock_of_get? hproper hget, ?_⟩
    rw [← hid]
    exact LockRecord.admission_of_acquire hacquire
  · exact heffect.others key fun scope hscope =>
      hkey scope ((hnamed scope).1 hscope)

theorem decides_of_busy {scope : LockScope}
    (hscope : scope ∈ LockScope.named (route i) r.table r.tablets)
    (hnot : ¬r.MayHave i now live scope) :
    r.Decides i (route i) now expiration live live .lockConflict where
  ok_iff := ⟨nofun, fun hall => absurd (hall scope hscope) hnot⟩
  refused _ := ⟨rfl, rfl⟩
  granted := nofun
  others _ _ := rfl

/-- On a slate with nothing but records, a request for the lock whose lease
can be granted is decided on by these records alone. -/
theorem decides_attempt (hclock : now.IsClockTime)
    (hrecords : live.AreRecords)
    (hi : InstanceId.ofText r.instanceName = .ok i)
    (hkind : LockKind.ofTakingLockId r.lockId = .ok kind)
    (hversion : ∀ v, r.version = some v → v = route i)
    (htablets : route i = .v2 → r.tablets ≠ [])
    (hlasts : r.Lasts config now) :
    ∃ t response, ((Call.acquireLock r).attempt config).run
        (Slate.answer now route) { live } = (t, response)
      ∧ r.Decides i (route i) now (r.ends config now) live t.live
        response.status.code := by
  obtain ⟨scopes, hscopes, hnamed⟩ := LockScope.exists_ofRequest htablets
  have hvalid := InstanceId.isValid_of_ofText hi
  have hasks : r.Asks config route now i kind scopes (r.ends config now) :=
    ⟨hi, hkind, hversion, hscopes, leaseEnd_of_lasts hlasts⟩
  by_cases hall : ∀ scope ∈ scopes, r.MayHave i now live scope
  · obtain ⟨granted, hmap, hgranted⟩ := exists_granted hkind _ hall
    have hstored : (store i granted live).AreRecords :=
      areRecords_store hvalid (fun g hg =>
        isProper_of_grantedOn hasks hclock.nano_lt (hgranted g hg)) hrecords
    obtain ⟨stats, htells⟩ := exists_tells (r := r) hstored.isReadable hvalid
    have hsucceeds := (succeeds_iff r).2
      ⟨i, kind, scopes, _, granted, hasks, hmap, hgranted, htells, rfl⟩
    exact ⟨_, _, Call.run_attempt_of_succeeds hsucceeds,
      decides_of_granted hclock hasks hnamed hmap hgranted hall⟩
  · obtain ⟨scope, hscope⟩ := Classical.not_forall.1 hall
    obtain ⟨hscope, hnot⟩ := Classical.not_imp.1 hscope
    have hreads : ∀ scope ∈ scopes, ∃ current, live.HasLock i scope current :=
      fun scope _ => hrecords.isReadable.hasLock hvalid scope
    obtain ⟨current, hcurrent⟩ := hreads scope hscope
    have hid := LockKind.lockId_of_ofTakingLockId hkind
    have hrefused :
        ¬LockRecord.Admits current kind.lockId r.initiator now := by
      rw [hid]
      exact fun hadmits => hnot ⟨current, hcurrent, hadmits⟩
    obtain ⟨holder, hheld⟩ := LockRecord.acquire_of_not_admits
      (LockKind.isTold_of_ofTakingLockId hkind) (r.ends config now) hrefused
    obtain ⟨message, hfails⟩ := fails_of_busy hasks hreads
      ⟨scope, hscope, current, holder, hcurrent, hheld⟩
    exact ⟨_, _, Call.run_attempt_of_fails hfails,
      decides_of_busy ((hnamed scope).1 hscope) hnot⟩

end AcquireLock

end MergeOnWrite
