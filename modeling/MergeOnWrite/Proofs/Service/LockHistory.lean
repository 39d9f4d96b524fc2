/-
What the commits in traffic do to the lock of one scope.

Every commit does what its request does alone (`Granted.Sound`), and the
keys of scopes are all different. So a commit either acquired the scope,
or gave it up, or leaves its record as it is.

# Main statements

- `lock_of_acquires`, `lock_of_releases`, `lock_of_others`: the record of
  a scope after a commit, by what the commit did.
- `lock_gains`: who is a holder after a commit was one before, or it is
  the caller's own commit that acquired the scope.
-/
import MergeOnWrite.Proofs.Lock.Codec
import MergeOnWrite.Proofs.Lock.Transition
import MergeOnWrite.Proofs.Service.Traffic

namespace MergeOnWrite

-- ================================================== who asks for what

/-- True of requests that name a scope of an instance. -/
def LockScope.IsNamedBy (scope : LockScope) (route : InstanceId → LockVersion)
    (i : InstanceId) (name : String) (table : TableId)
    (tablets : List TabletId) : Prop :=
  InstanceId.ofText name = .ok i ∧ ∃ scopes,
    ofRequest (route i) table tablets = .ok scopes ∧ scope ∈ scopes

namespace Granted

variable {route : InstanceId → LockVersion} {s : Traffic} {g : Granted}
  {i : InstanceId} {scope : LockScope} {kind kind' : LockKind}
  {initiator initiator' : Int64}

/-- True of commits that acquired a scope for a participant of a class. -/
def Acquires (route : InstanceId → LockVersion) (g : Granted) (i : InstanceId)
    (scope : LockScope) (kind : LockKind) (initiator : Int64) : Prop :=
  ∃ r : AcquireLock, g.call = .acquireLock r
    ∧ scope.IsNamedBy route i r.instanceName r.table r.tablets
    ∧ LockKind.ofTakingLockId r.lockId = .ok kind ∧ r.initiator = initiator

/-- True of the end of the lease that a commit asked for. -/
def AskedUntil (g : Granted) (expiration : Instant) : Prop :=
  ∃ r now, g.call = .acquireLock r ∧ g.readings = [now]
    ∧ Handler.leaseEnd now (r.leaseSecs.getD g.config.leaseSecs)
      = .ok expiration

/-- True of commits that gave up a scope for a participant of a class. -/
def Releases (route : InstanceId → LockVersion) (g : Granted) (i : InstanceId)
    (scope : LockScope) (kind : LockKind) (initiator : Int64) : Prop :=
  ∃ r : ReleaseLock, g.call = .releaseLock r
    ∧ scope.IsNamedBy route i r.instanceName r.table r.tablets
    ∧ LockKind.ofTakingLockId r.lockId = .ok kind ∧ r.initiator = initiator

theorem Acquires.isTold (h : g.Acquires route i scope kind initiator) :
    kind.IsTold := by
  obtain ⟨r, -, -, hkind, -⟩ := h
  exact LockKind.isTold_of_ofTakingLockId hkind

theorem Releases.isTold (h : g.Releases route i scope kind initiator) :
    kind.IsTold := by
  obtain ⟨r, -, -, hkind, -⟩ := h
  exact LockKind.isTold_of_ofTakingLockId hkind

theorem Acquires.isValid (h : g.Acquires route i scope kind initiator) :
    i.IsValid := by
  obtain ⟨r, -, ⟨hi, -⟩, -, -⟩ := h
  exact InstanceId.isValid_of_ofText hi

/-- A request acquires for one participant of one class. -/
theorem Acquires.unique (h : g.Acquires route i scope kind initiator)
    (h' : g.Acquires route i scope kind' initiator') :
    kind = kind' ∧ initiator = initiator' := by
  obtain ⟨r, hcall, -, hkind, rfl⟩ := h
  obtain ⟨r', hcall', -, hkind', rfl⟩ := h'
  obtain rfl := Call.acquireLock.inj (hcall.symm.trans hcall')
  exact ⟨Except.ok.inj (hkind.symm.trans hkind'), rfl⟩

end Granted

-- ================================================== leases

/-- A lease lasts for some seconds, and ends within the calendar. -/
theorem Handler.eq_of_leaseEnd {now expiration : Instant} {secs : UInt64}
    (h : leaseEnd now secs = .ok expiration) :
    0 < secs.toNat ∧ expiration = ⟨now.second + secs.toNat, now.nano⟩
      ∧ expiration.isInCalendar = true := by
  unfold leaseEnd at h
  split at h
  · cases h
  · rename_i hsecs
    have hpos : secs.toNat ≠ 0 := fun hzero => hsecs (UInt64.toNat_inj.1 hzero)
    unfold Instant.addSeconds? at h
    dsimp only at h
    split at h
    · rename_i later hlater
      split at hlater
      · rename_i hcalendar
        cases hlater
        cases h
        exact ⟨Nat.pos_of_ne_zero hpos, rfl, hcalendar⟩
      · cases hlater
    · cases h

/-- A lease ends at an instant that can be written. -/
theorem Handler.isProper_of_leaseEnd {now expiration : Instant} {secs : UInt64}
    (hnow : now.IsClockTime) (h : leaseEnd now secs = .ok expiration) :
    expiration.IsProper := by
  obtain ⟨-, rfl, hcalendar⟩ := eq_of_leaseEnd h
  exact ⟨hcalendar, .inl hnow.2⟩

/-- A lease ends after the time at which it was asked for. -/
theorem Handler.lt_of_leaseEnd {now expiration : Instant} {secs : UInt64}
    (h : leaseEnd now secs = .ok expiration) : now < expiration := by
  obtain ⟨hpos, rfl, -⟩ := eq_of_leaseEnd h
  apply Instant.lt_def.2
  dsimp only
  omega

/-- The lease of a stored record ends at an instant that can be written. -/
theorem Entries.HasLock.isProper {entries : Entries} {i : InstanceId}
    {scope : LockScope} {current : Option LockRecord}
    (h : entries.HasLock i scope current) :
    ∀ held, current = some held → held.expiration.IsProper := by
  rintro held rfl
  obtain ⟨bytes, -, hdecode⟩ := Option.map_eq_some_iff.1 h
  exact LockRecord.isProper_of_decode? hdecode

theorem Entries.hasLock_of_get? {entries : Entries} {i : InstanceId}
    {scope : LockScope} {record : LockRecord}
    (hrecord : record.expiration.IsProper)
    (h : entries.get? (scope.keyBytes i) = some record.encode) :
    entries.HasLock i scope (some record) := by
  rw [HasLock, h, Option.map_some, LockRecord.decode?_encode hrecord]
  rfl

/-- What giving up a scope leaves at its key is read as the record that is
left. -/
theorem Entries.hasLock_of_leaves {before after : Entries} {i : InstanceId}
    {scope : LockScope} {current : Option LockRecord} {kind : LockKind}
    {initiator : Int64} (hcurrent : before.HasLock i scope current)
    (hafter : after.get? (scope.keyBytes i)
      = (LockRecord.release current kind initiator).leaves
        (before.get? (scope.keyBytes i))) :
    after.HasLock i scope
      ((LockRecord.release current kind initiator).left current) := by
  cases hrelease : LockRecord.release current kind initiator with
  | delete =>
      rw [hrelease] at hafter
      rw [HasLock, hafter]
      rfl
  | rewrite rest =>
      rw [hrelease] at hafter
      obtain ⟨held, hheld, hexpiration⟩ :=
        LockRecord.expiration_of_release hrelease
      refine hasLock_of_get? ?_ hafter
      rw [hexpiration]
      exact hcurrent.isProper held hheld
  | stale reason =>
      rw [hrelease] at hafter
      rw [HasLock, hafter]
      exact hcurrent

-- ================================================== one commit

/-- A request that writes to the key of a scope names the scope. -/
theorem LockScope.isNamedBy_of_keyBytes {route : InstanceId → LockVersion}
    {i j : InstanceId} {scope other : LockScope} {scopes : List LockScope}
    {name : String} {table : TableId} {tablets : List TabletId}
    (hi : i.IsValid) (hj : InstanceId.ofText name = .ok j)
    (hscopes : ofRequest (route j) table tablets = .ok scopes)
    (hother : other ∈ scopes) (hkey : scope.keyBytes i = other.keyBytes j) :
    scope.IsNamedBy route i name table tablets := by
  obtain ⟨rfl, rfl⟩ := key_inj hi (InstanceId.isValid_of_ofText hj)
    (Bytes.ofText_inj hkey)
  exact ⟨hj, scopes, hscopes, hother⟩

namespace AcquireLock.Effect

variable {route : InstanceId → LockVersion} {config : LockConfig}
  {r : AcquireLock} {i j : InstanceId} {kind : LockKind}
  {scopes : List LockScope} {now expiration : Instant}
  {readings : List Instant} {d : Draft} {scope : LockScope}

/-- What a request that is granted its scopes leaves on one of them. -/
theorem lock_of_named
    (h : r.Effect route config j kind scopes now expiration readings d)
    (hnamed : scope.IsNamedBy route i r.instanceName r.table r.tablets) :
    ∃ current record outcome, d.before.HasLock i scope current
      ∧ LockRecord.acquire current kind r.initiator now expiration
        = .granted record outcome
      ∧ d.after.HasLock i scope (some record) := by
  obtain ⟨hi, named, hscopes, hscope⟩ := hnamed
  obtain rfl := Except.ok.inj (hi.symm.trans h.instance_eq)
  obtain rfl := Except.ok.inj (hscopes.symm.trans h.scopes_eq)
  obtain ⟨current, record, outcome, hcurrent, hacquire, hafter⟩ :=
    h.granted scope hscope
  have hexpiration := Handler.isProper_of_leaseEnd h.isClockTime
    h.expiration_eq
  exact ⟨current, record, outcome, hcurrent, hacquire,
    Entries.hasLock_of_get? (LockRecord.isProper_of_acquire hcurrent.isProper
      hexpiration hacquire) hafter⟩

/-- A request that is granted its scopes leaves all others alone. -/
theorem get?_of_not_named
    (h : r.Effect route config j kind scopes now expiration readings d)
    (hi : i.IsValid)
    (hnot : ¬ scope.IsNamedBy route i r.instanceName r.table r.tablets) :
    d.after.get? (scope.keyBytes i) = d.before.get? (scope.keyBytes i) :=
  h.others _ fun _ hother hkey => hnot (LockScope.isNamedBy_of_keyBytes hi
    h.instance_eq h.scopes_eq hother hkey)

end AcquireLock.Effect

namespace Granted

variable {route : InstanceId → LockVersion} {s : Traffic} {g : Granted}
  {i : InstanceId} {scope : LockScope} {kind kind' : LockKind}
  {initiator initiator' : Int64}

/-- What a commit that acquired a scope left there. -/
theorem lock_of_acquires (h : g.Sound route s)
    (hacquires : g.Acquires route i scope kind initiator) :
    ∃ current record outcome now expiration,
      g.before.live.HasLock i scope current
      ∧ LockRecord.acquire current kind initiator now expiration
        = .granted record outcome
      ∧ g.after.live.HasLock i scope (some record) ∧ now ≤ g.clock
      ∧ g.AskedUntil expiration := by
  obtain ⟨r, hcall, hnamed, hkind, rfl⟩ := hacquires
  have heffect := h.effect
  rw [hcall] at heffect
  obtain ⟨j, kind', scopes, now, expiration, heffect⟩ := heffect
  obtain rfl := Except.ok.inj (hkind.symm.trans heffect.kind_eq)
  obtain ⟨current, record, outcome, hcurrent, hacquire, hafter⟩ :=
    heffect.lock_of_named hnamed
  refine ⟨current, record, outcome, now, expiration, hcurrent, hacquire, hafter,
    h.readings_le now ?_, r, now, hcall, heffect.readings_eq,
    heffect.expiration_eq⟩
  rw [heffect.readings_eq]
  exact List.mem_singleton_self now

/-- What a commit that gave up a scope left there. -/
theorem lock_of_releases (h : g.Sound route s)
    (hreleases : g.Releases route i scope kind initiator) :
    ∃ current, g.before.live.HasLock i scope current
      ∧ g.after.live.HasLock i scope
        ((LockRecord.release current kind initiator).left current) := by
  obtain ⟨r, hcall, ⟨hi, scopes, hscopes, hscope⟩, hkind, rfl⟩ := hreleases
  have heffect := h.effect
  rw [hcall] at heffect
  obtain ⟨j, kind', scopes', heffect⟩ := heffect
  obtain rfl := Except.ok.inj (hi.symm.trans heffect.instance_eq)
  obtain rfl := Except.ok.inj (hkind.symm.trans heffect.kind_eq)
  obtain rfl := Except.ok.inj (hscopes.symm.trans heffect.scopes_eq)
  obtain ⟨current, hcurrent, hafter⟩ := heffect.released scope hscope
  exact ⟨current, hcurrent, Entries.hasLock_of_leaves hcurrent hafter⟩

end Granted

theorem TabletChange.get?_lock {i j : InstanceId} {table : TableId}
    {tablet : TabletId} {before after : Entries} {scope : LockScope}
    (h : TabletChange j table tablet before after) (hi : i.IsValid)
    (hj : j.IsValid) :
    after.get? (scope.keyBytes i) = before.get? (scope.keyBytes i) := by
  obtain ⟨mid, entries, rows, hbitmap, hstats⟩ := h
  have hmid : mid.get? (scope.keyBytes i) = before.get? (scope.keyBytes i) :=
    hbitmap.others _ (Key.not_extends_lock hj hi)
  rw [← hmid]
  rcases hstats with ⟨-, -, rfl⟩ | ⟨record, -, rfl⟩
  · rfl
  · exact SortedMap.get?_insert_of_ne _ _ fun heq =>
      LockScope.key_ne_stats hi hj (Bytes.ofText_inj heq)

namespace Granted

variable {route : InstanceId → LockVersion} {s : Traffic} {g : Granted}
  {i : InstanceId} {scope : LockScope} {kind kind' : LockKind}
  {initiator initiator' : Int64}

/-- Any other commit leaves the record of a scope as it is. -/
theorem lock_of_others (h : g.Sound route s) (hi : i.IsValid)
    (hacquires : ∀ kind initiator, ¬ g.Acquires route i scope kind initiator)
    (hreleases : ∀ kind initiator, ¬ g.Releases route i scope kind initiator) :
    g.after.live.get? (scope.keyBytes i)
      = g.before.live.get? (scope.keyBytes i) := by
  have heffect := h.effect
  cases hcall : g.call with
  | acquireLock r =>
      rw [hcall] at heffect
      obtain ⟨j, kind, scopes, now, expiration, heffect⟩ := heffect
      exact heffect.get?_of_not_named hi fun hnamed =>
        hacquires kind r.initiator ⟨r, hcall, hnamed, heffect.kind_eq, rfl⟩
  | releaseLock r =>
      rw [hcall] at heffect
      obtain ⟨j, kind, scopes, heffect⟩ := heffect
      exact heffect.others _ fun scope' hscope' hkey =>
        hreleases kind r.initiator ⟨r, hcall, LockScope.isNamedBy_of_keyBytes hi
          heffect.instance_eq heffect.scopes_eq hscope' hkey, heffect.kind_eq,
          rfl⟩
  | updateBitmap r =>
      rw [hcall] at heffect
      obtain ⟨j, kind, heffect⟩ := heffect
      exact heffect.change.get?_lock hi
        (InstanceId.isValid_of_ofText heffect.instance_eq)
  | readBitmap r =>
      rw [hcall] at heffect
      exact heffect.elim
  | removeBitmap r =>
      rw [hcall] at heffect
      obtain ⟨j, heffect⟩ := heffect
      exact heffect.change.get?_lock hi
        (InstanceId.isValid_of_ofText heffect.instance_eq)

/-- What a commit does about a scope. -/
theorem lock_cases (h : g.Sound route s) (hi : i.IsValid) (scope : LockScope) :
    (∃ kind initiator, g.Acquires route i scope kind initiator)
      ∨ (∃ kind initiator, g.Releases route i scope kind initiator)
      ∨ g.after.live.get? (scope.keyBytes i)
        = g.before.live.get? (scope.keyBytes i) := by
  by_cases hacquires : ∃ kind initiator,
      g.Acquires route i scope kind initiator
  · exact .inl hacquires
  · by_cases hreleases : ∃ kind initiator,
        g.Releases route i scope kind initiator
    · exact .inr (.inl hreleases)
    · exact .inr (.inr (lock_of_others h hi
        (fun kind initiator ha => hacquires ⟨kind, initiator, ha⟩)
        fun kind initiator hr => hreleases ⟨kind, initiator, hr⟩))

end Granted

-- ================================================== holders

/-- True of entries where a participant of a class is a holder of a scope,
whether or not its lease runs. -/
def Entries.HasHolder (entries : Entries) (i : InstanceId) (scope : LockScope)
    (kind : LockKind) (initiator : Int64) : Prop :=
  ∃ record, entries.HasLock i scope (some record)
    ∧ record.isHeldBy kind = true ∧ record.lists initiator = true

/-- Who is a holder after a commit was one before, or it is a commit that
acquired the scope for the holder's class and participant. -/
theorem Granted.lock_gains {route : InstanceId → LockVersion} {s : Traffic}
    {g : Granted} {i : InstanceId} {scope : LockScope} {kind : LockKind}
    {initiator : Int64} (h : g.Sound route s) (hi : i.IsValid)
    (hkind : kind.IsTold)
    (hafter : g.after.live.HasHolder i scope kind initiator) :
    g.before.live.HasHolder i scope kind initiator
      ∨ ∃ kind', g.Acquires route i scope kind' initiator
        ∧ kind'.sameClass kind = true := by
  obtain ⟨record, hrecord, hheld, hlists⟩ := hafter
  rcases lock_cases h hi scope with ⟨kind', initiator', hacquires⟩
    | ⟨kind', initiator', hreleases⟩ | hsame
  · obtain ⟨current, record', outcome, now, expiration, hcurrent, hacquire,
      hafter, -, -⟩ := lock_of_acquires h hacquires
    obtain rfl := Option.some.inj (hrecord.unique hafter)
    rcases LockRecord.acquire_gains hkind hacquires.isTold hacquire hheld hlists
      with ⟨held, rfl, hholder⟩ | ⟨hclass, rfl⟩
    · exact .inl ⟨held, hcurrent, hholder⟩
    · exact .inr ⟨kind', hacquires, hclass⟩
  · obtain ⟨current, hcurrent, hafter⟩ := lock_of_releases h hreleases
    obtain ⟨held, rfl, hholder⟩ := LockRecord.release_gains
      (hafter.unique hrecord) hheld hlists
    exact .inl ⟨held, hcurrent, hholder⟩
  · rw [Entries.HasLock, hsame] at hrecord
    exact .inl ⟨record, hrecord, hheld, hlists⟩

end MergeOnWrite
