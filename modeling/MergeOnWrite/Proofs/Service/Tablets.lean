/-
Requests for the lock name a set of tablets.

A request lists tablets, in any order and as often as it likes. What it locks
or gives up are the scopes of these tablets, and they are gone through in their
own order, each of them once. So of two requests with the same tablets the
scopes are the same, and with them all that the request does: up to what it
puts they are one program. The only place where the list itself counts are the
statistics that a request for the lock may ask for, which are told in the order
of the list. But to read them leaves nothing and reports nothing, and where
nothing but records is stored it does not fail.

# Main statements

- `LockScope.ofRequest_congr`: the scopes of a request depend on the set of
  its tablets only.
- `AcquireLock.handler_naming`, `ReleaseLock.handler_naming`: requests that ask
  for no statistics are the same program if they name the same tablets.
- `LockRequest.seen_naming`: where nothing but records is stored, nothing else
  is seen of requests that name the same tablets.
- `LockRequest.passes_of_succeeds`: a request that comes out well makes one
  move at each of its scopes once, and reports each of these moves once.
-/
import MergeOnWrite.Proofs.Lock.Lifetimes
import MergeOnWrite.Proofs.Service.Admission
import MergeOnWrite.Proofs.Service.Reports

namespace MergeOnWrite

-- ================================================== sets of tablets

namespace LockScope

variable {table : TableId} {tablets others : List TabletId}

/-- The scopes of a request depend on the set of its tablets only. -/
theorem ofRequest_congr (version : LockVersion) (table : TableId)
    (h : ∀ tablet, tablet ∈ others ↔ tablet ∈ tablets) :
    ofRequest version table others = ofRequest version table tablets := by
  cases version with
  | v1 => rfl
  | v2 =>
      have hempty : others = [] ↔ tablets = [] := by
        simp only [List.eq_nil_iff_forall_not_mem, h]
      have hset : SortedSet.ofList (others.map TabletId.val)
          = SortedSet.ofList (tablets.map TabletId.val) := by
        apply SortedSet.ofList_congr
        intro id
        simp only [List.mem_map, h]
      simp only [ofRequest, hempty, hset]

/-- The tablets of a list in their order, each of them once. -/
def distinct (tablets : List TabletId) : List TabletId :=
  (SortedSet.ofList (tablets.map TabletId.val)).keys.map TabletId.mk

theorem mem_distinct {tablet : TabletId} :
    tablet ∈ distinct tablets ↔ tablet ∈ tablets := by
  unfold distinct
  rw [List.mem_map]
  constructor
  · intro ⟨id, hid, htablet⟩
    obtain ⟨other, hother, rfl⟩ := List.mem_map.1
      (SortedSet.get?_ofList_isSome.1 (SortedMap.mem_keys.1 hid))
    rw [← htablet]
    exact hother
  · intro htablet
    refine ⟨tablet.val, SortedMap.mem_keys.2 ?_, rfl⟩
    exact SortedSet.get?_ofList_isSome.2 (List.mem_map_of_mem htablet)

theorem nodup_distinct (tablets : List TabletId) :
    (distinct tablets).Nodup := by
  refine List.pairwise_map.2 (List.pairwise_map.2 ?_)
  refine (SortedMap.ascending _).imp fun hlt heq => ?_
  rw [TabletId.mk.inj heq, Std.ReflOrd.compare_self] at hlt
  cases hlt

/-- In the second version these are the scopes of a request. -/
theorem eq_of_ofRequest_v2 {scopes : List LockScope}
    (h : ofRequest .v2 table tablets = .ok scopes) :
    scopes = (distinct tablets).map (.tablet table) := by
  unfold ofRequest at h
  simp only at h
  split at h
  · cases h
  · obtain rfl := Except.ok.inj h
    rw [distinct, List.map_map]
    rfl

end LockScope

-- ================================================== requests

/-- A request that takes the lock, or gives it up. -/
inductive LockRequest where
  | acquire (r : AcquireLock)
  | release (r : ReleaseLock)

namespace LockRequest

def call : LockRequest → Call
  | .acquire r => .acquireLock r
  | .release r => .releaseLock r

def instanceName : LockRequest → String
  | .acquire r => r.instanceName
  | .release r => r.instanceName

def table : LockRequest → TableId
  | .acquire r => r.table
  | .release r => r.table

def tablets : LockRequest → List TabletId
  | .acquire r => r.tablets
  | .release r => r.tablets

/-- True of requests that ask for the statistics of their tablets. -/
def wantsStats : LockRequest → Bool
  | .acquire r => r.wantsStats
  | .release _ => false

/-- The same request with other tablets. -/
def naming (others : List TabletId) : LockRequest → LockRequest
  | .acquire r => .acquire { r with tablets := others }
  | .release r => .release { r with tablets := others }

end LockRequest

variable {config : LockConfig} {route : InstanceId → LockVersion}
  {now : Instant} {live : Entries} {t : Slate}

-- ================================================== the same tablets

section Naming

variable {others : List TabletId}

namespace AcquireLock

variable {r : AcquireLock} {i : InstanceId} {granted : List Handler.Grant}

theorem granting_naming (h : ∀ tablet, tablet ∈ others ↔ tablet ∈ r.tablets) :
    granting config { r with tablets := others } = granting config r := by
  unfold granting
  simp only [LockScope.ofRequest_congr _ _ h]

/-- Requests that ask for no statistics are the same program if they name the
same tablets. -/
theorem handler_naming (h : ∀ tablet, tablet ∈ others ↔ tablet ∈ r.tablets)
    (hplain : r.wantsStats = false) :
    Handler.acquireLock config { r with tablets := others }
      = Handler.acquireLock config r := by
  have hstats : ∀ i, statistics { r with tablets := others } i
      = statistics r i := by
    intro i
    simp only [statistics, hplain, Bool.false_eq_true, if_false]
  rw [acquireLock_eq, acquireLock_eq, granting_naming h]
  simp only [hstats]

theorem attempt_naming (config : LockConfig)
    (h : ∀ tablet, tablet ∈ others ↔ tablet ∈ r.tablets)
    (hplain : r.wantsStats = false) :
    (Call.acquireLock { r with tablets := others }).attempt config
      = (Call.acquireLock r).attempt config :=
  congrArg (fun handler : Handler (List TabletStats) =>
      handler.run >>= fun result => pure (Response.ofResult [] result))
    (handler_naming h hplain)

/-- Statistics are told where nothing but records is stored. -/
theorem exists_statistics (hnano : now.nano < 1000000000)
    (hrecords : live.AreRecords)
    (h : (granting config r).Succeeds now route { live } (i, granted) t)
    (asks : AcquireLock) :
    ∃ stats, (statistics asks i).Succeeds now route t stats t := by
  obtain ⟨kind, scopes, expiration, hasks, hmap, hgranted, rfl⟩ :=
    succeeds_granting_iff.1 h
  have hvalid := InstanceId.isValid_of_ofText hasks.instance_eq
  have hstored : (store i granted live).AreRecords :=
    areRecords_store hvalid
      (fun g hg => isProper_of_grantedOn hasks hnano (hgranted g hg)) hrecords
  obtain ⟨stats, hstats⟩ :=
    exists_tells (r := asks) hstored.isReadable hvalid
  exact ⟨stats, succeeds_statistics_iff.2 ⟨hstats, rfl⟩⟩

/-- What is seen of a request for the lock is what is seen of its end, if it
gets there. -/
theorem seen_of_granting {stats : List TabletStats}
    (h : (granting config r).Succeeds now route { live } (i, granted) t)
    (hstats : (statistics r i).Succeeds now route t stats t) :
    Handler.seen now route (Handler.acquireLock config r) { live }
      = Handler.seen now route (concluding granted) t := by
  rw [acquireLock_eq, Handler.seen_bind_of_succeeds h (r.quiet_granting config)]
  refine (Handler.seen_bind_of_succeeds hstats (r.quiet_statistics i)).trans ?_
  exact Handler.seen_bind_pure _ _

/-- The statistics are not seen, and up to them requests are the same program
if they name the same tablets. -/
theorem seen_naming (hnano : now.nano < 1000000000)
    (hrecords : live.AreRecords)
    (h : ∀ tablet, tablet ∈ others ↔ tablet ∈ r.tablets) :
    Handler.seen now route
        (Handler.acquireLock config { r with tablets := others }) { live }
      = Handler.seen now route (Handler.acquireLock config r) { live } := by
  have hsame : granting config { r with tablets := others }
      = granting config r :=
    granting_naming h
  cases hrun : Program.run (Slate.answer now route) (granting config r).run
      { live } with
  | mk t result =>
      cases result with
      | error e =>
          rw [acquireLock_eq, acquireLock_eq, hsame]
          exact Handler.seen_bind_of_fails hrun _ _
      | ok a =>
          obtain ⟨i, granted⟩ := a
          obtain ⟨stats, hstats⟩ := exists_statistics hnano hrecords hrun r
          obtain ⟨told, htold⟩ := exists_statistics hnano hrecords hrun
            { r with tablets := others }
          have hothers : (granting config { r with tablets := others }).Succeeds
              now route { live } (i, granted) t := by
            rw [hsame]
            exact hrun
          rw [seen_of_granting hothers htold, seen_of_granting hrun hstats]

end AcquireLock

namespace ReleaseLock

variable {r : ReleaseLock}

theorem handler_naming (h : ∀ tablet, tablet ∈ others ↔ tablet ∈ r.tablets) :
    Handler.releaseLock { r with tablets := others }
      = Handler.releaseLock r := by
  unfold Handler.releaseLock
  simp only [LockScope.ofRequest_congr _ _ h]

theorem attempt_naming (config : LockConfig)
    (h : ∀ tablet, tablet ∈ others ↔ tablet ∈ r.tablets) :
    (Call.releaseLock { r with tablets := others }).attempt config
      = (Call.releaseLock r).attempt config :=
  congrArg (fun handler : Handler Unit =>
      handler.run >>= fun result => pure (Response.ofResult () result))
    (handler_naming h)

end ReleaseLock

/-- Where nothing but records is stored, nothing else is seen of requests that
name the same tablets. -/
theorem LockRequest.seen_naming {q : LockRequest}
    (hnano : now.nano < 1000000000) (hrecords : live.AreRecords)
    (h : ∀ tablet, tablet ∈ others ↔ tablet ∈ q.tablets) :
    Handler.seen now route ((q.naming others).call.handler config) { live }
      = Handler.seen now route (q.call.handler config) { live } := by
  cases q with
  | acquire r => exact AcquireLock.seen_naming hnano hrecords h
  | release r =>
      exact congrArg (Handler.seen now route · { live })
        (ReleaseLock.handler_naming h)

end Naming

-- ================================================== one move each

/-- How a move at a scope is reported. -/
def LockMove.outcome (held : Option LockRecord) : LockMove → LockOutcome
  | .acquire kind initiator now expiration =>
    match LockRecord.acquire held kind initiator now expiration with
    | .granted _ outcome => outcome
    | .busy _ => .busy
  | .release kind initiator => (LockRecord.release held kind initiator).outcome

/-- The move that a request makes at its scopes. -/
def LockRequest.Makes (config : LockConfig) (now : Instant)
    (move : LockMove) : LockRequest → Prop
  | .acquire r => ∃ kind expiration,
    LockKind.ofTakingLockId r.lockId = .ok kind
      ∧ Handler.leaseEnd now (r.leaseSecs.getD config.leaseSecs)
        = .ok expiration
      ∧ move = .acquire kind r.initiator now expiration
  | .release r => ∃ kind, LockKind.ofTakingLockId r.lockId = .ok kind
    ∧ move = .release kind r.initiator

/-- A move has been made once at each of some scopes: the record of each is
what the move leaves of it, the outcomes are those of the moves, and nothing
else is another. -/
structure LockMove.Passes (move : LockMove) (i : InstanceId)
    (scopes : List LockScope) (outcomes : List LockOutcome)
    (before after : Entries) : Prop where
  each : List.Forall₂ (fun scope outcome => ∃ held,
    before.HasLock i scope held ∧ after.HasLock i scope (move.leaves held)
      ∧ outcome = move.outcome held) scopes outcomes
  others : ∀ key, (∀ scope ∈ scopes, key ≠ scope.keyBytes i) →
    after.get? key = before.get? key

/-- A request for the lock that comes out well moves each of its scopes, and
reports each of these moves. -/
theorem AcquireLock.passes_of_succeeds {r : AcquireLock}
    {stats : List TabletStats} (hnano : now.nano < 1000000000)
    (h : (Handler.acquireLock config r).Succeeds now route { live } stats t) :
    ∃ i kind scopes expiration outcomes,
      r.Asks config route now i kind scopes expiration
      ∧ (LockMove.acquire kind r.initiator now expiration).Passes i scopes
        outcomes live t.live
      ∧ (Handler.seen now route (Handler.acquireLock config r)
          { live }).reports = outcomes.map .lock := by
  rw [acquireLock_eq] at h
  obtain ⟨⟨i, granted⟩, u, hgranting, h⟩ := Handler.succeeds_bind.1 h
  obtain ⟨kind, scopes, expiration, hasks, hmap, hgranted, rfl⟩ :=
    succeeds_granting_iff.1 hgranting
  obtain ⟨found, _, hfound, h⟩ := Handler.succeeds_bind.1 h
  have hstats := hfound
  obtain ⟨-, rfl⟩ := succeeds_statistics_iff.1 hfound
  obtain ⟨_, _, hend, h⟩ := Handler.succeeds_bind.1 h
  obtain rfl := succeeds_concluding_iff.1 hend
  obtain ⟨-, rfl⟩ := Handler.succeeds_pure.1 h
  refine ⟨i, kind, scopes, expiration, granted.map (·.outcome), hasks,
    ⟨?_, ?_⟩, ?_⟩
  · rw [← hmap, List.forall₂_map_left_iff, List.forall₂_map_right_iff,
      List.forall₂_same]
    intro g hg
    obtain ⟨current, hcurrent, hacquire⟩ := hgranted g hg
    refine ⟨current, hcurrent, ?_, ?_⟩
    · rw [LockMove.leaves, hacquire]
      exact Entries.hasLock_of_get?
        (isProper_of_grantedOn hasks hnano (hgranted g hg))
        (get?_store hasks hmap hg)
    · rw [LockMove.outcome, hacquire]
  · intro key hkey
    refine SortedMap.get?_foldl_insert_of_ne fun g hg => ?_
    apply hkey
    rw [← hmap]
    exact List.mem_map_of_mem hg
  · rw [seen_of_granting hgranting hstats, concluding,
      Handler.seen_bind_of_succeeds (a := ()) (Handler.succeeds_commit.2 rfl)
        (Handler.quiet_commit _),
      Handler.seen_reports (fun g : Handler.Grant => .lock g.outcome),
      List.map_map]
    rfl

/-- So does one that gives it up. -/
theorem ReleaseLock.passes_of_succeeds {r : ReleaseLock} {a : Unit}
    (h : (Handler.releaseLock r).Succeeds now route { live } a t) :
    ∃ i kind scopes outcomes, r.Asks route i kind scopes
      ∧ (LockMove.release kind r.initiator).Passes i scopes outcomes live
        t.live
      ∧ (Handler.seen now route (Handler.releaseLock r) { live }).reports
        = outcomes.map .lock := by
  rw [releaseLock_eq] at h ⊢
  obtain ⟨outcomes, _, hreleasing, h⟩ := Handler.succeeds_bind.1 h
  obtain ⟨i, kind, scopes, after, hasks, hafter, htold, rfl⟩ :=
    releasing_of_succeeds hreleasing
  obtain ⟨_, _, hcommit, h⟩ := Handler.succeeds_bind.1 h
  obtain rfl := Handler.succeeds_commit.1 hcommit
  obtain rfl := Handler.succeeds_reports.1 h
  refine ⟨i, kind, scopes, outcomes, hasks, ⟨?_, hafter.others⟩, ?_⟩
  · have hleft : ∀ scope ∈ scopes, ∃ held, live.HasLock i scope held
        ∧ after.HasLock i scope
          ((LockMove.release kind r.initiator).leaves held) := by
      intro scope hscope
      obtain ⟨held, hheld, hleaves⟩ := hafter.released scope hscope
      exact ⟨held, hheld, Entries.hasLock_of_leaves hheld hleaves⟩
    refine ((List.forall₂_and_left _ _).2 ⟨hleft, htold⟩).imp ?_
    intro scope outcome ⟨⟨held, hheld, hleaves⟩, current, hcurrent, houtcome⟩
    obtain rfl := hheld.unique hcurrent
    exact ⟨held, hheld, hleaves, houtcome⟩
  · rw [Handler.seen_bind_of_succeeds hreleasing r.quiet_releasing,
      Handler.seen_bind_of_succeeds hcommit (Handler.quiet_commit _),
      Handler.seen_reports]

/-- A request that comes out well makes one and the same move at each of its
scopes once, and reports each of these moves once. -/
theorem LockRequest.passes_of_succeeds {q : LockRequest}
    {payload : q.call.Payload} (hnano : now.nano < 1000000000)
    (h : (q.call.handler config).Succeeds now route { live } payload t) :
    ∃ i scopes move outcomes, InstanceId.ofText q.instanceName = .ok i
      ∧ LockScope.ofRequest (route i) q.table q.tablets = .ok scopes
      ∧ q.Makes config now move
      ∧ move.Passes i scopes outcomes live t.live
      ∧ (Handler.seen now route (q.call.handler config) { live }).reports
        = outcomes.map .lock := by
  cases q with
  | acquire r =>
      obtain ⟨i, kind, scopes, expiration, outcomes, hasks, hpasses,
        hreports⟩ := AcquireLock.passes_of_succeeds hnano h
      exact ⟨i, scopes, _, outcomes, hasks.instance_eq, hasks.scopes_eq,
        ⟨kind, expiration, hasks.kind_eq, hasks.expiration_eq, rfl⟩, hpasses,
        hreports⟩
  | release r =>
      obtain ⟨i, kind, scopes, outcomes, hasks, hpasses, hreports⟩ :=
        ReleaseLock.passes_of_succeeds h
      exact ⟨i, scopes, _, outcomes, hasks.instance_eq, hasks.scopes_eq,
        ⟨kind, hasks.kind_eq, rfl⟩, hpasses, hreports⟩

end MergeOnWrite
