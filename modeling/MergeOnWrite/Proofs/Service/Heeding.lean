/-
That handlers stop where a check fails, and nowhere else.

A handler does its checks in a fixed order, between the questions it asks,
and most of them in loops: over the scopes of a request, over the entries it
stores, over the rowsets it names and the entries of each. So the rules for
the loops say what has been heard when a turn begins. Of a read only the
current listing matters, and how many rowsets were listed; of a removal, what
is left of the listing (`Exchange.left?`).

# Main statements

- `Handler.heeds_grants`, `Handler.heeds_checkHolder`,
  `Handler.heeds_putEntries`, `Handler.heeds_collectRowsets`,
  `Handler.heeds_removeRowsets`: the loops and checks within a transaction.
- `Call.heeds_handler`, `Call.heeds_attempt`: a request that is refused
  nothing asks no more once it fails of something, and ends with the code of
  that; if it ends well, it fails of nothing.
-/
import MergeOnWrite.Proofs.Service.Checks

namespace MergeOnWrite

/-- Scopes cannot be told where tablets are missing. -/
theorem LockScope.of_ofRequest_error {version : LockVersion} {table : TableId}
    {tablets : List TabletId} {e : ServiceError}
    (h : ofRequest version table tablets = .error e) :
    ¬ (version = .v2 → tablets ≠ []) ∧ e.code = .invalidArgument := by
  constructor
  · intro htablets
    obtain ⟨scopes, hscopes, -⟩ :=
      LockScope.exists_ofRequest htablets
    rw [hscopes] at h
    cases h
  · unfold ofRequest at h
    cases version with
    | v1 => cases h
    | v2 =>
        simp only at h
        split at h
        · cases h
          rfl
        · cases h

namespace Handler

variable {config : LockConfig} {heard : List Exchange} {i : InstanceId}

-- ================================================== the lock

/-- The version in use is one that a request does not rule out. -/
theorem heeds_versionOf {call : Call} {taken : Option LockVersion}
    (hallows : ∀ version, call.Allows version
      ↔ ∀ v, taken = some v → v = version)
    (hpass : call.Passes config heard) :
    Heeds (call.FailsAt config)
      (fun later version => later = ⟨.route i, version⟩ :: heard
        ∧ call.Allows version) heard (versionOf i taken) := by
  unfold versionOf
  refine heeds_bind (heeds_ask rfl hpass) fun later routed hlater => ?_
  subst hlater
  cases taken with
  | none => exact heeds_pure ⟨rfl, (hallows routed).2 nofun⟩
  | some version =>
      simp only
      split
      · rename_i heq
        refine heeds_pure ⟨rfl, (hallows routed).2 fun v hv => ?_⟩
        rw [← Option.some.inj hv, heq]
      · rename_i hne
        refine heeds_throw (.version fun h => hne ?_) rfl
        exact (hallows routed).1 h version rfl

/-- What a request for the lock says, or one that gives it up. -/
structure IsOfLock (call : Call) (name : String) (lockId : Int64)
    (taken : Option LockVersion) (tablets : List TabletId) : Prop where
  name_eq : call.instanceName = name
  isInOrder_iff : call.IsInOrder ↔ InstanceId.IsValid ⟨name⟩
    ∧ (lockId = -1 ∨ lockId = -2 ∨ 0 < lockId)
  allows_iff : ∀ version,
    call.Allows version ↔ ∀ v, taken = some v → v = version
  namesScopes_iff : ∀ version,
    call.NamesScopes version ↔ (version = .v2 → tablets ≠ [])

/-- Both begin with the same checks. -/
theorem heeds_opening {β : Type} {call : Call} {name : String} {lockId : Int64}
    {taken : Option LockVersion} {table : TableId} {tablets : List TabletId}
    {post : List Exchange → β → Prop}
    {f : InstanceId → LockKind → LockVersion → List LockScope → Handler β}
    (h : IsOfLock call name lockId taken tablets)
    (hf : ∀ i kind version scopes, i.IsValid → i.text = call.instanceName →
      LockKind.ofTakingLockId lockId = .ok kind →
      LockScope.ofRequest version table tablets = .ok scopes →
      call.Passes config [⟨.route i, version⟩] →
      Heeds (call.FailsAt config) post [⟨.route i, version⟩]
        (f i kind version scopes)) :
    Heeds (call.FailsAt config) post [] (do
      let i ← instanceOf name
      let kind ← LockKind.ofTakingLockId lockId
      let version ← versionOf i taken
      let scopes ← LockScope.ofRequest version table tablets
      f i kind version scopes) := by
  refine heeds_bind (heeds_instanceOf fun hbad => ?_) ?_
  · exact .order fun hin => hbad (h.isInOrder_iff.1 hin).1
  intro _ i ⟨hlater, hi, htext⟩
  subst hlater
  refine heeds_bind (heeds_lift fun e he => ?_) ?_
  · obtain ⟨hnot, hcode⟩ := LockKind.not_told_of_ofTakingLockId he
    exact ⟨.order fun hin => hnot (h.isInOrder_iff.1 hin).2, hcode⟩
  intro _ kind ⟨hlater, hkind⟩
  subst hlater
  have hin : call.IsInOrder :=
    h.isInOrder_iff.2 ⟨htext ▸ hi, LockKind.told_of_ofTakingLockId hkind⟩
  refine heeds_bind (heeds_versionOf h.allows_iff (Call.passes_nil hin)) ?_
  intro _ version ⟨hlater, hallows⟩
  subst hlater
  refine heeds_bind (heeds_lift fun e he => ?_) ?_
  · obtain ⟨hnot, hcode⟩ := LockScope.of_ofRequest_error he
    exact ⟨.scopes hallows fun hnames =>
      hnot ((h.namesScopes_iff version).1 hnames), hcode⟩
  intro _ scopes ⟨hlater, hscopes⟩
  subst hlater
  refine hf i kind version scopes hi (htext.trans h.name_eq.symm) hkind hscopes
    (Call.passes_route hallows ((h.namesScopes_iff version).2 ?_))
  intro hversion htablets
  rw [hversion, htablets] at hscopes
  cases hscopes

section Acquiring

variable {r : AcquireLock} {kind : LockKind} {now expiration : Instant}
  {version : LockVersion}

/-- A scope is not busy by a record that admits who asks for it. -/
theorem not_busy_of_admits {key : Bytes} {found : Option Bytes}
    {current : Option LockRecord}
    (hcurrent : found.map LockRecord.decode? = current.map some)
    (hnow : ∀ time, ⟨.now, time⟩ ∈ heard → time = now)
    (hadmits : LockRecord.Admits current r.lockId r.initiator now) :
    ¬ Call.FailsAt config (.acquireLock r) (⟨.get key, .ok found⟩ :: heard)
      .busy := by
  intro hfails
  cases hfails with
  | busy _ _ _ _ _ hdecode htime hnot =>
      cases current with
      | none => cases hcurrent
      | some record =>
          have hrecord := Option.some.inj hcurrent
          rw [hdecode] at hrecord
          cases hrecord
          rw [hnow _ htime] at hnot
          exact hnot hadmits

/-- Scopes are looked at one after another until one is busy. -/
theorem heeds_grants (hi : i.IsValid)
    (htext : i.text = (Call.acquireLock r).instanceName)
    (hkind : LockKind.ofTakingLockId r.lockId = .ok kind) :
    ∀ (scopes : List LockScope) {heard : List Exchange},
      (∀ scope ∈ scopes, scope ∈ LockScope.named version r.table r.tablets) →
      ⟨.route i, version⟩ ∈ heard →
      (∀ time, ⟨.now, time⟩ ∈ heard ↔ time = now) →
      Call.Passes config (.acquireLock r) heard →
      Heeds (Call.FailsAt config (.acquireLock r))
        (fun later _ => Call.Passes config (.acquireLock r) later) heard
        (grants i kind r.initiator now expiration scopes) := by
  intro scopes
  induction scopes with
  | nil =>
      intro heard _ _ _ hpass
      exact heeds_pure hpass
  | cons scope rest ih =>
      intro heard hnamed hroute hnow hpass
      unfold grants
      refine heeds_bind (heeds_readLock hi htext hpass) ?_
      intro later current hread
      obtain ⟨found, hlater, hcurrent, hpassed⟩ := hread
      have hlock := LockKind.lockId_of_ofTakingLockId hkind
      have htold := LockKind.isTold_of_ofTakingLockId hkind
      cases hacquire : LockRecord.acquire current kind r.initiator now
          expiration with
      | granted record outcome =>
          have hadmits := LockRecord.admits_of_acquire htold hacquire
          rw [hlock] at hadmits
          simp only [List.mem_cons, forall_eq_or_imp] at hnamed
          subst hlater
          refine heeds_bind (ih hnamed.2 ?_ ?_ (hpassed ?_))
            fun last _ hlast => heeds_pure hlast
          · exact List.mem_cons_of_mem _ hroute
          · simpa using hnow
          · exact not_busy_of_admits hcurrent (fun time => (hnow time).1)
              hadmits
      | busy holder =>
          have hnot := LockRecord.not_admits_of_acquire htold hacquire
          rw [hlock] at hnot
          refine heeds_bind heeds_report fun last _ hlast => ?_
          subst hlast hlater
          obtain ⟨rfl, -, -⟩ := LockRecord.acquire_busy hacquire
          cases found with
          | none => cases hcurrent
          | some value =>
              exact heeds_throw (.busy hi htext hroute
                (hnamed scope List.mem_cons_self) rfl
                (Option.some.inj hcurrent) ((hnow now).2 rfl) hnot) rfl

/-- A request for the lock. -/
theorem heeds_acquireLock (config : LockConfig) (r : AcquireLock) :
    Heeds (Call.FailsAt config (.acquireLock r))
      (fun later _ => Call.Passes config (.acquireLock r) later) []
      (acquireLock config r) := by
  unfold acquireLock
  refine heeds_opening ⟨rfl, Iff.rfl, fun _ => Iff.rfl, fun _ => Iff.rfl⟩ ?_
  intro i kind version scopes hi htext hkind hscopes hpass
  refine heeds_bind (heeds_ask rfl hpass) ?_
  intro _ now hlater
  subst hlater
  refine heeds_bind (heeds_lift fun e he => ?_) ?_
  · have hlasts : ¬ r.Lasts config now := by
      intro hlasts
      rw [AcquireLock.leaseEnd_of_lasts hlasts] at he
      cases he
    obtain ⟨message, hmessage⟩ := AcquireLock.leaseEnd_of_not_lasts hlasts
    rw [hmessage] at he
    cases he
    exact ⟨.lease hlasts, rfl⟩
  intro _ expiration ⟨hlater, hend⟩
  subst hlater
  refine heeds_bind (heeds_start ?_) ?_
  · intro check hfails
    cases hfails with
    | lease hnot =>
        obtain ⟨message, hmessage⟩ := AcquireLock.leaseEnd_of_not_lasts hnot
        rw [hmessage] at hend
        cases hend
  intro _ _ hlater
  subst hlater
  have hnamed : ∀ scope ∈ scopes,
      scope ∈ LockScope.named version r.table r.tablets :=
    fun _ hscope => LockScope.mem_named hscopes hscope
  refine heeds_bind (heeds_grants hi htext hkind scopes hnamed ?_ ?_ ?_) ?_
  · simp
  · simp
  · intro check hfails
    cases hfails
  intro later granted hpass
  refine heeds_bind (heeds_forM _ (fun heard g hpass => ?_) granted hpass) ?_
  · refine (heeds_ask rfl hpass).imp fun later _ hlater => ?_
    subst hlater
    intro check hfails
    cases hfails
  intro later _ hpass
  have hgoes : ∀ {later : List Exchange} (stats : List TabletStats),
      Call.Passes config (.acquireLock r) later →
        Heeds (Call.FailsAt config (.acquireLock r))
          (fun last _ => Call.Passes config (.acquireLock r) last) later (do
            commit "commit delete bitmap update lock"
            granted.forM fun g => ask (.report (.lock g.outcome))
            return stats) := by
    intro later stats hpass
    refine heeds_bind (heeds_commit hpass) fun last _ hlast => ?_
    subst hlast
    refine heeds_bind (heeds_reports _ granted ?_)
      fun last _ hlast => heeds_pure hlast
    intro check hfails
    cases hfails
  split
  · refine heeds_bind
      (heeds_mapM _ (fun heard tablet hpass => ?_) r.tablets hpass) ?_
    · exact heeds_readStats hi htext hpass
    · intro last stats hlast
      exact hgoes stats hlast
  · exact hgoes [] hpass

end Acquiring

theorem heeds_releases {r : ReleaseLock} {kind : LockKind}
    {initiator : Int64} (hi : i.IsValid)
    (htext : i.text = (Call.releaseLock r).instanceName) :
    ∀ (scopes : List LockScope) {heard : List Exchange},
      Call.Passes config (.releaseLock r) heard →
      Heeds (Call.FailsAt config (.releaseLock r))
        (fun later _ => Call.Passes config (.releaseLock r) later) heard
        (releases i kind initiator scopes) := by
  intro scopes
  induction scopes with
  | nil =>
      intro heard hpass
      exact heeds_pure hpass
  | cons scope rest ih =>
      intro heard hpass
      unfold releases
      refine heeds_bind (heeds_readLock hi htext hpass) ?_
      intro later current ⟨_, _, _, hfree⟩
      have hpassed : Call.Passes config (.releaseLock r) later := hfree nofun
      have hgoes : ∀ {later : List Exchange} (outcome : LockOutcome),
          Call.Passes config (.releaseLock r) later →
            Heeds (Call.FailsAt config (.releaseLock r))
              (fun last _ => Call.Passes config (.releaseLock r) last) later
              (do return outcome :: (← releases i kind initiator rest)) := by
        intro later outcome hpass
        exact heeds_bind (ih hpass) fun last _ hlast => heeds_pure hlast
      split
      · refine heeds_bind (heeds_ask rfl hpassed) fun later _ hlater => ?_
        subst hlater
        exact hgoes .released nofun
      · refine heeds_bind (heeds_ask rfl hpassed) fun later _ hlater => ?_
        subst hlater
        exact hgoes .released nofun
      · exact hgoes .staleRelease hpassed

/-- A request that gives the lock up. -/
theorem heeds_releaseLock (config : LockConfig) (r : ReleaseLock) :
    Heeds (Call.FailsAt config (.releaseLock r))
      (fun later _ => Call.Passes config (.releaseLock r) later) []
      (releaseLock r) := by
  unfold releaseLock
  refine heeds_opening ⟨rfl, Iff.rfl, fun _ => Iff.rfl, fun _ => Iff.rfl⟩ ?_
  intro i kind version scopes hi htext _ _ hpass
  refine heeds_bind (heeds_start hpass) ?_
  intro _ _ hlater
  subst hlater
  refine heeds_bind (heeds_releases hi htext scopes nofun) ?_
  intro later outcomes hpass
  refine heeds_bind (heeds_commit hpass) fun last _ hlast => ?_
  subst hlast
  exact heeds_reports _ outcomes nofun

-- ================================================== updates

/-- Entries are stored by holders of the lock only, as their record and the
time tell. -/
theorem heeds_checkHolder {r : UpdateBitmap} {kind : LockKind}
    (hi : i.IsValid) (htext : i.text = (Call.updateBitmap r).instanceName)
    (hkind : LockKind.ofLockId r.lockId = .ok kind)
    (hpass : Call.Passes config (.updateBitmap r) heard) :
    Heeds (Call.FailsAt config (.updateBitmap r))
      (fun later _ => Call.Passes config (.updateBitmap r) later) heard
      (checkHolder i r.table r.tablet kind r.initiator) := by
  unfold checkHolder
  refine heeds_bind (heeds_ask rfl hpass) fun later version hlater => ?_
  subst hlater
  refine heeds_bind (heeds_readLock hi htext
    (Call.passes_route trivial trivial)) ?_
  intro later current ⟨found, hlater, hcurrent, hpassed⟩
  subst hlater
  refine heeds_bind (heeds_ask rfl (hpassed nofun)) fun later now hlater => ?_
  subst hlater
  split
  · rename_i hholds
    refine heeds_pure fun check hfails => ?_
    generalize hkey : LockScope.keyBytes _ i = key at hfails
    cases hfails with
    | expired _ _ _ hcurrent' hnot =>
        have hsame := Option.map_injective (fun _ _ h => Option.some.inj h)
          (hcurrent.symm.trans hcurrent')
        subst hsame
        rw [LockRecord.holds_iff_covers (LockKind.isTold_of_ofLockId hkind),
          LockKind.lockId_of_ofLockId hkind] at hholds
        exact hnot hholds
  · rename_i hnot
    refine heeds_throw (.expired htext (by simp) rfl hcurrent fun h => ?_) rfl
    rw [← LockKind.lockId_of_ofLockId hkind,
      ← LockRecord.holds_iff_covers (LockKind.isTold_of_ofLockId hkind)] at h
    exact hnot h

theorem passes_put {r : UpdateBitmap} {heard : List Exchange}
    {key value : Bytes} :
    Call.Passes config (.updateBitmap r) (⟨.put key value, ()⟩ :: heard) := by
  intro check hfails
  cases hfails

/-- A request to store entries takes no scope, so it finds none busy. -/
theorem not_busy_updateBitmap {r : UpdateBitmap} {heard : List Exchange} :
    ¬ Call.FailsAt config (.updateBitmap r) heard .busy := by
  intro hfails
  cases hfails

theorem heeds_putEntries {r : UpdateBitmap} {tablet : TabletId}
    (hi : i.IsValid) (htext : i.text = (Call.updateBitmap r).instanceName) :
    ∀ (entries : List (BitmapKey × RowSet)) {heard : List Exchange},
      Call.Passes config (.updateBitmap r) heard →
      Heeds (Call.FailsAt config (.updateBitmap r))
        (fun later _ => Call.Passes config (.updateBitmap r) later) heard
        (putEntries i tablet entries) := by
  intro entries
  induction entries with
  | nil =>
      intro heard hpass
      exact heeds_pure hpass
  | cons entry rest ih =>
      intro heard hpass
      have hgoes : ∀ {later : List Exchange} (entries : Int) (removed : Nat),
          Call.Passes config (.updateBitmap r) later →
            Heeds (Call.FailsAt config (.updateBitmap r))
              (fun last _ => Call.Passes config (.updateBitmap r) last) later
              (do
                ask (.put (.ofText (Key.entry i tablet entry.1.rowset
                  entry.1.segment entry.1.version)) entry.2.encode)
                let change ← putEntries i tablet rest
                return (change.1 + entries,
                  change.2 + entry.2.cardinality - removed)) := by
        intro later entries removed hpass
        refine heeds_bind (heeds_ask rfl hpass) fun last _ hlast => ?_
        subst hlast
        exact heeds_bind (ih passes_put) fun last _ hlast => heeds_pure hlast
      rw [putEntries]
      refine heeds_bind (heeds_get hpass) fun later found hlater => ?_
      subst hlater
      cases found with
      | none =>
          exact hgoes 1 0 (Call.passes_get (.entry i tablet entry.1) hi htext
            (by simp) not_busy_updateBitmap)
      | some value =>
          refine heeds_bind (heeds_rowsOf_entry hi htext
            fun _ => not_busy_updateBitmap) ?_
          intro later _ hpassed
          exact hgoes 0 _ hpassed

theorem heeds_changeStats {call : Call} {table : TableId} {tablet : TabletId}
    {entries rows : Int} (hi : i.IsValid) (htext : i.text = call.instanceName)
    (hpass : call.Passes config heard)
    (hput : ∀ {later : List Exchange} {key value : Bytes},
      call.Passes config (⟨.put key value, ()⟩ :: later)) :
    Heeds (call.FailsAt config) (fun later _ => call.Passes config later) heard
      (changeStats i table tablet entries rows) := by
  unfold changeStats
  split
  · exact heeds_pure hpass
  · refine heeds_bind (heeds_readStats hi htext hpass) ?_
    intro later stats hpassed
    refine (heeds_ask rfl hpassed).imp fun last _ hlast => ?_
    subst hlast
    exact hput

/-- A request that stores entries. -/
theorem heeds_updateBitmap (config : LockConfig) (r : UpdateBitmap) :
    Heeds (Call.FailsAt config (.updateBitmap r))
      (fun later _ => Call.Passes config (.updateBitmap r) later) []
      (updateBitmap r) := by
  unfold updateBitmap
  refine heeds_bind (heeds_instanceOf fun hbad => ?_) ?_
  · exact .order fun h => hbad h.1
  intro _ i ⟨hlater, hi, htext⟩
  subst hlater
  refine heeds_bind (heeds_lift fun e he => ?_) ?_
  · obtain ⟨hnot, hcode⟩ := LockKind.not_told_of_ofLockId he
    exact ⟨.order fun h => hnot h.2, hcode⟩
  intro _ kind ⟨hlater, hkind⟩
  subst hlater
  have hvalid : InstanceId.IsValid ⟨r.instanceName⟩ := htext ▸ hi
  have hstart : Call.Passes config (.updateBitmap r) [] :=
    Call.passes_nil ⟨hvalid, LockKind.told_of_ofLockId hkind⟩
  refine heeds_bind (heeds_start hstart) fun later _ hlater => ?_
  subst hlater
  have hwrite : ∀ {later : List Exchange},
      Call.Passes config (.updateBitmap r) later →
        Heeds (Call.FailsAt config (.updateBitmap r))
          (fun last _ => Call.Passes config (.updateBitmap r) last) later (do
            let change ← putEntries i r.tablet r.bitmap.toList
            changeStats i r.table r.tablet change.1 change.2
            commit "commit delete bitmap") := by
    intro later hpass
    refine heeds_bind (heeds_putEntries hi htext _ hpass) ?_
    intro later change hpass
    refine heeds_bind (heeds_changeStats hi htext hpass nofun) ?_
    intro later _ hpass
    refine (heeds_commit hpass).imp fun last _ hlast => ?_
    subst hlast
    exact nofun
  split
  · exact heeds_bind (heeds_checkHolder hi htext hkind nofun)
      fun later _ hpass => hwrite hpass
  · exact hwrite nofun

-- ================================================== reading

section Reading

variable {r : ReadBitmap} {entries : List (Bytes × Bytes)}

theorem passes_reading (hleft : Exchange.left? heard = some entries)
    (hall : ∀ entry ∈ entries, r.CanTake entry)
    (hnext : ∀ name, r.rowsets[Exchange.scans heard]? = some name →
      RowsetId.IsValid ⟨name⟩) : Call.Passes config (.readBitmap r) heard := by
  intro check hfails
  cases hfails with
  | order | version | scopes | record => cases hleft
  | listed hleft' hentry hnot =>
      obtain rfl := Option.some.inj (hleft.symm.trans hleft')
      exact hnot (hall _ hentry)
  | rowsetRead _ _ hname hnot => exact hnot (hnext _ hname)

/-- Nothing is asked while entries are collected. -/
theorem heeds_collect (hleft : Exchange.left? heard = some entries) :
    ∀ (l : List (Bytes × Bytes)) (bitmap : DeleteBitmap),
      (∀ entry ∈ l, entry ∈ entries) →
      Heeds (Call.FailsAt config (.readBitmap r))
        (fun later _ => later = heard ∧ ∀ entry ∈ l, r.CanTake entry) heard
        (collect r.beginVersion r.endVersion bitmap l) := by
  intro l
  induction l with
  | nil =>
      intro bitmap _
      exact heeds_pure ⟨rfl, by simp⟩
  | cons entry rest ih =>
      intro bitmap hmem
      simp only [List.mem_cons, forall_eq_or_imp] at hmem ⊢
      have hgoes : ∀ bitmap, r.CanTake entry →
          Heeds (Call.FailsAt config (.readBitmap r))
            (fun later _ => later = heard
              ∧ r.CanTake entry ∧ ∀ other ∈ rest, r.CanTake other) heard
            (collect r.beginVersion r.endVersion bitmap rest) := by
        intro bitmap htake
        refine (ih bitmap hmem.2).imp fun later _ hlater => ?_
        exact ⟨hlater.1, htake, hlater.2⟩
      rw [collect]
      split
      · rename_i hparse
        refine heeds_throw (.listed hleft hmem.1 fun htake => ?_) rfl
        obtain ⟨_, _, _, hparts, -⟩ := htake
        rw [hparse] at hparts
        cases hparts
      · rename_i rowset segment version hparse
        split
        · rename_i hrange
          refine heeds_bind (heeds_rowsOf fun hbad => ?_) ?_
          · refine .listed hleft hmem.1 fun htake => ?_
            obtain ⟨_, _, _, hparts, hrows⟩ := htake
            rw [hparse] at hparts
            cases hparts
            obtain ⟨containers, hcontainers⟩ := hrows hrange
            exact hbad containers hcontainers
          · intro later containers hread
            obtain ⟨rfl, hcontainers⟩ := hread
            exact hgoes _ ⟨_, _, _, hparse, fun _ => ⟨_, hcontainers⟩⟩
        · rename_i hrange
          exact hgoes _ ⟨_, _, _, hparse, fun h => absurd h hrange⟩

theorem heeds_collectRowsets {tablet : TabletId} :
    ∀ (names : List String) (bitmap : DeleteBitmap) {heard : List Exchange}
      {entries : List (Bytes × Bytes)},
      Exchange.left? heard = some entries →
      (∀ entry ∈ entries, r.CanTake entry) →
      r.rowsets.drop (Exchange.scans heard) = names →
      Heeds (Call.FailsAt config (.readBitmap r))
        (fun later _ => Call.Passes config (.readBitmap r) later) heard
        (collectRowsets i tablet r.beginVersion r.endVersion bitmap names) := by
  intro names
  induction names with
  | nil =>
      intro bitmap heard entries hleft hall hnames
      refine heeds_pure (passes_reading hleft hall fun name hname => ?_)
      cases (Exchange.getElem?_scans hnames).symm.trans hname
  | cons name rest ih =>
      intro bitmap heard entries hleft hall hnames
      have hname := Exchange.getElem?_scans hnames
      unfold collectRowsets
      refine heeds_bind (heeds_rowsetOf fun hbad => ?_) ?_
      · exact .rowsetRead hleft hall hname hbad
      intro later rowset ⟨hlater, hvalid⟩
      rw [hlater]
      refine heeds_bind (heeds_scan (passes_reading hleft hall ?_)) ?_
      · intro other hother
        exact Option.some.inj (hname.symm.trans hother) ▸ hvalid
      intro later listed hlater
      subst hlater
      refine heeds_bind (heeds_collect rfl listed bitmap fun _ h => h) ?_
      intro last bitmap ⟨hlast, htake⟩
      rw [hlast]
      exact ih bitmap rfl htake (Exchange.drop_scans_cons hnames)

/-- A request that reads entries. -/
theorem heeds_readBitmap (config : LockConfig) (r : ReadBitmap) :
    Heeds (Call.FailsAt config (.readBitmap r))
      (fun later _ => Call.Passes config (.readBitmap r) later) []
      (readBitmap r) := by
  unfold readBitmap
  refine heeds_bind (heeds_instanceOf fun hbad => ?_) ?_
  · exact .order fun h => hbad h.1
  intro _ i ⟨hlater, hi, htext⟩
  subst hlater
  split
  · rename_i hrange
    have hvalid : InstanceId.IsValid ⟨r.instanceName⟩ := htext ▸ hi
    have hstart : Call.Passes config (.readBitmap r) [] :=
      Call.passes_nil ⟨hvalid, hrange⟩
    refine heeds_bind (heeds_start hstart) fun later _ hlater => ?_
    subst hlater
    exact heeds_collectRowsets r.rowsets ∅ rfl nofun rfl
  · rename_i hrange
    exact heeds_throw (.order fun h => hrange h.2) rfl

end Reading

-- ================================================== removing

section Removing

variable {r : RemoveBitmap}

theorem passes_removing {entry : Bytes × Bytes} {rest : List (Bytes × Bytes)}
    {containers : List RowSet.Container}
    (hleft : Exchange.left? heard = some (entry :: rest))
    (hrows : RowSet.Container.decodeAll entry.2 = .ok containers) :
    Call.Passes config (.removeBitmap r) heard := by
  intro check hfails
  cases hfails with
  | order | version | scopes | record => cases hleft
  | removed hleft' hbad =>
      cases hleft.symm.trans hleft'
      exact hbad _ hrows
  | rowsetRemoved hleft' => cases hleft.symm.trans hleft'

theorem passes_removed (hleft : Exchange.left? heard = some [])
    (hnext : ∀ name, r.rowsets[Exchange.scans heard]? = some name →
      RowsetId.IsValid ⟨name⟩) :
    Call.Passes config (.removeBitmap r) heard := by
  intro check hfails
  cases hfails with
  | order | version | scopes | record => cases hleft
  | removed hleft' => cases hleft.symm.trans hleft'
  | rowsetRemoved _ hname hnot => exact hnot (hnext _ hname)

/-- Each entry that is removed is the first of those that are left. -/
theorem heeds_removeEntries :
    ∀ (entries : List (Bytes × Bytes)) {heard : List Exchange},
      Exchange.left? heard = some entries →
      Heeds (Call.FailsAt config (.removeBitmap r))
        (fun later _ => Exchange.left? later = some []
          ∧ Exchange.scans later = Exchange.scans heard) heard
        (removeEntries entries) := by
  intro entries
  induction entries with
  | nil =>
      intro heard hleft
      exact heeds_pure ⟨hleft, rfl⟩
  | cons entry rest ih =>
      intro heard hleft
      unfold removeEntries
      refine heeds_bind (heeds_rowsOf fun hbad => .removed hleft hbad) ?_
      intro later containers ⟨hlater, hrows⟩
      rw [hlater]
      refine heeds_bind (heeds_ask rfl (passes_removing hleft hrows)) ?_
      intro later _ hlater
      subst hlater
      have hrest : Exchange.left? (⟨.remove entry.1, ()⟩ :: heard)
          = some rest := by
        rw [Exchange.left?, hleft]
        rfl
      exact heeds_bind (ih hrest) fun last _ hlast => heeds_pure hlast

theorem heeds_removeRowsets {tablet : TabletId} :
    ∀ (names : List String) {heard : List Exchange},
      Exchange.left? heard = some [] →
      r.rowsets.drop (Exchange.scans heard) = names →
      Heeds (Call.FailsAt config (.removeBitmap r))
        (fun later _ => Call.Passes config (.removeBitmap r) later) heard
        (removeRowsets i tablet names) := by
  intro names
  induction names with
  | nil =>
      intro heard hleft hnames
      refine heeds_pure (passes_removed hleft fun name hname => ?_)
      cases (Exchange.getElem?_scans hnames).symm.trans hname
  | cons name rest ih =>
      intro heard hleft hnames
      have hname := Exchange.getElem?_scans hnames
      unfold removeRowsets
      refine heeds_bind (heeds_rowsetOf fun hbad => ?_) ?_
      · exact .rowsetRemoved hleft hname hbad
      intro later rowset ⟨hlater, hvalid⟩
      rw [hlater]
      refine heeds_bind (heeds_scan (passes_removed hleft ?_)) ?_
      · intro other hother
        exact Option.some.inj (hname.symm.trans hother) ▸ hvalid
      intro later listed hlater
      subst hlater
      refine heeds_bind (heeds_removeEntries listed rfl) ?_
      intro last rows ⟨hleft, hlast⟩
      refine heeds_bind (ih hleft ?_) fun _ _ hpass => heeds_pure hpass
      rw [hlast]
      exact Exchange.drop_scans_cons hnames

/-- A request that removes entries. -/
theorem heeds_removeBitmap (config : LockConfig) (r : RemoveBitmap) :
    Heeds (Call.FailsAt config (.removeBitmap r))
      (fun later _ => Call.Passes config (.removeBitmap r) later) []
      (removeBitmap r) := by
  unfold removeBitmap
  refine heeds_bind (heeds_instanceOf fun hbad => ?_) ?_
  · exact .order fun h => hbad h.1
  intro _ i ⟨hlater, hi, htext⟩
  subst hlater
  have hvalid : InstanceId.IsValid ⟨r.instanceName⟩ := htext ▸ hi
  have hstart : Call.Passes config (.removeBitmap r) [] :=
    Call.passes_nil ⟨hvalid, trivial⟩
  have hother : ∀ {later : List Exchange}, Exchange.left? later = none →
      (∀ key value rest, later ≠ ⟨.get key, .ok (some value)⟩ :: rest) →
      later ≠ [] → Call.Passes config (.removeBitmap r) later := by
    intro later hleft hget hne check hfails
    cases hfails with
    | order => exact hne rfl
    | version hnot => exact hnot trivial
    | scopes _ hnot => exact hnot trivial
    | record => exact hget _ _ _ rfl
    | removed hleft' => cases hleft.symm.trans hleft'
    | rowsetRemoved hleft' => cases hleft.symm.trans hleft'
  refine heeds_bind (heeds_start hstart) fun later _ hlater => ?_
  subst hlater
  refine heeds_bind (heeds_removeRowsets r.rowsets rfl rfl) ?_
  intro later removed hpass
  refine heeds_bind (heeds_changeStats hi htext hpass ?_) ?_
  · exact hother rfl nofun nofun
  intro later _ hpass
  refine (heeds_commit hpass).imp fun last _ hlast => ?_
  subst hlast
  exact hother rfl nofun nofun

end Removing

end Handler

-- ================================================== requests

namespace Call

/-- A request that is refused nothing comes out well, and then fails of
nothing, or ends with the code of what it fails of. -/
def EndsOn (config : LockConfig) (call : Call) (heard : List Exchange)
    (response : Response call.Payload) : Prop :=
  (response.status.code = .ok ∧ call.Passes config heard)
    ∨ ∃ check, call.FailsAt config heard check
      ∧ response.status.code = check.code

section Ends

variable {config : LockConfig} {call : Call} {heard : List Exchange}
  {response : Response call.Payload}

end Ends

theorem heeds_handler (config : LockConfig) (call : Call) :
    (call.handler config).Heeds (call.FailsAt config)
      (fun later _ => call.Passes config later) [] := by
  cases call with
  | acquireLock r => exact Handler.heeds_acquireLock config r
  | releaseLock r => exact Handler.heeds_releaseLock config r
  | updateBitmap r => exact Handler.heeds_updateBitmap config r
  | readBitmap r => exact Handler.heeds_readBitmap config r
  | removeBitmap r => exact Handler.heeds_removeBitmap config r

/-- A request that is refused nothing asks no more as soon as a check fails,
and not before it fails of that or is done. -/
theorem heeds_attempt (config : LockConfig) (call : Call) :
    Script.Heeds (call.FailsAt config) (call.EndsOn config) []
      (call.attempt config) := by
  refine Script.heeds_map (fun heard result hend => ?_)
    (call.heeds_handler config)
  cases result with
  | ok payload => exact .inl ⟨rfl, hend⟩
  | error e =>
      obtain ⟨check, hfails, hcode⟩ := hend
      exact .inr ⟨check, hfails, hcode⟩

end Call

end MergeOnWrite
