/-
Fencing of bitmap writes.

A request that stores entries for a holder commits to no store in which
its caller is not a holder with a running lease. The check is made long
before the commit, on what the transaction reads; but the record is among
what it has read, so the live entries of the commit hold the same record
(`UpdateBitmap.Effect`).

# Main statements

- `holder_of_update`: what the store holds that such a commit applies to.
- `exists_acquires`: between two commits, nobody becomes a holder but by
  acquiring the scope.
- `update_fenced`: fencing in all traffic.
-/
import MergeOnWrite.Proofs.Service.Alone
import MergeOnWrite.Proofs.Service.LockHistory

namespace MergeOnWrite

variable {route : InstanceId → LockVersion} {initial : Store} {s : Traffic}

/-- True of a commit that stores entries on behalf of a participant of a
class, which holds the lock that guards the tablet: the store that the
commit applies to has a record of that class there that lists the
participant, and its lease ended later than the one reading of the clock
that the request has made. -/
def Granted.IsFenced (route : InstanceId → LockVersion) (g : Granted)
    (r : UpdateBitmap) (i : InstanceId) (kind : LockKind) : Prop :=
  InstanceId.ofText r.instanceName = .ok i
    ∧ LockKind.ofLockId r.lockId = .ok kind
    ∧ ∃ record now, g.readings = [now]
      ∧ g.before.live.HasLock i (.guarding (route i) r.table r.tablet)
        (some record)
      ∧ record.isHeldBy kind = true ∧ record.lists r.initiator = true
      ∧ now < record.expiration

/-- A commit that stores entries for anyone but lock-free compaction is
fenced. -/
theorem Granted.holder_of_update {g : Granted} {r : UpdateBitmap}
    (h : g.Sound route s) (hcall : g.call = .updateBitmap r)
    (hlockId : r.lockId ≠ -3) : ∃ i kind, g.IsFenced route r i kind := by
  have heffect := h.effect
  rw [hcall] at heffect
  obtain ⟨i, kind, heffect⟩ := heffect
  refine ⟨i, kind, heffect.instance_eq, heffect.kind_eq, ?_⟩
  rcases heffect.holder with rfl | ⟨current, now, hreadings, hcurrent, hholds⟩
  · exact absurd (LockKind.lockId_of_ofLockId heffect.kind_eq).symm hlockId
  · obtain ⟨record, rfl, hholder⟩ := LockRecord.of_holds hholds
    exact ⟨record, now, hreadings, hcurrent, hholder⟩

/-- Whoever is a holder after some commits, and was none before, has
acquired the scope by one of them. -/
theorem exists_acquires {i : InstanceId} {scope : LockScope} {kind : LockKind}
    {initiator : Int64} {store : Store} (hi : i.IsValid) (hkind : kind.IsTold)
    (hnone : ¬ store.live.HasHolder i scope kind initiator) :
    ∀ {commits : List Granted} {last : Store}, Chained store commits last →
      (∀ g ∈ commits, g.Sound route s) →
      last.live.HasHolder i scope kind initiator →
      ∃ g ∈ commits, ∃ kind', g.Acquires route i scope kind' initiator
        ∧ kind'.sameClass kind = true := by
  intro commits
  induction commits with
  | nil =>
      intro last hchained _ hholder
      rw [show last = store from hchained] at hholder
      exact absurd hholder hnone
  | cons g earlier ih =>
      intro last hchained hsound hholder
      obtain ⟨rfl, hearlier⟩ := hchained
      rcases g.lock_gains (hsound g (List.mem_cons_self ..)) hi hkind hholder
        with hbefore | hacquires
      · obtain ⟨x, hx, hacquires⟩ := ih hearlier
          (fun x hx => hsound x (List.mem_cons_of_mem _ hx)) hbefore
        exact ⟨x, List.mem_cons_of_mem _ hx, hacquires⟩
      · exact ⟨g, List.mem_cons_self .., hacquires⟩

/-- A request that changes the store and succeeds has committed. -/
theorem Traffic.Sound.exists_granted {id : Nat} {inv : Invocation}
    {response : Response inv.call.Payload} (h : s.Sound route initial)
    (hinv : s.invocations id = some inv) (hscript : inv.script = .done response)
    (hok : response.status.code = .ok) (hwrites : inv.call.writes = true) :
    ∃ g ∈ s.history, g.id = id ∧ g.config = inv.config ∧ g.call = inv.call := by
  have hsafe := (h.invocations id inv hinv).fits.safe
    ((inv.stand.txn.map Txn.snapshot).getD ∅) fun t ht => by
      rw [ht]
      exact t.agreesWith_snapshot
  rw [hscript] at hsafe
  have hcommits : inv.stand.commits
      = if response.status.code = .ok ∧ inv.call.writes then 1 else 0 :=
    hsafe
  rw [if_pos ⟨hok, hwrites⟩] at hcommits
  exact h.noted id inv hinv (by omega)

/-- Fencing of bitmap writes.

- A request that stores entries for anyone but lock-free compaction, and
  succeeds, has committed and was fenced.
- So is every commit of such a request, whatever the request was answered;
  and if an earlier commit has left the store without that holder, a commit
  in between has acquired the scope for the holder's class and participant
  again. -/
theorem update_fenced (h : Traffic.Reachable route initial s) :
    (∀ id inv response r, s.invocations id = some inv →
      inv.call = .updateBitmap r → r.lockId ≠ -3 →
      inv.script = .done response → response.status.code = .ok →
      ∃ g ∈ s.history, g.id = id ∧ g.call = .updateBitmap r
        ∧ ∃ i kind, g.IsFenced route r i kind)
    ∧ ∀ later g earlier r, s.history = later ++ g :: earlier →
      g.call = .updateBitmap r → r.lockId ≠ -3 →
      ∃ i kind, g.IsFenced route r i kind
        ∧ ∀ mid x older, earlier = mid ++ x :: older →
          ¬ x.after.live.HasHolder i (.guarding (route i) r.table r.tablet)
            kind r.initiator →
          ∃ y ∈ mid, ∃ kind', y.Acquires route i
              (.guarding (route i) r.table r.tablet) kind' r.initiator
            ∧ kind'.sameClass kind = true := by
  have hsound := Traffic.sound_of_reachable h
  refine ⟨fun id inv response r hinv hcall hlockId hscript hok => ?_,
    fun later g earlier r hhistory hcall hlockId => ?_⟩
  · obtain ⟨g, hg, hid, -, hgcall⟩ :=
      hsound.exists_granted hinv hscript hok (by rw [hcall]; rfl)
    rw [hcall] at hgcall
    exact ⟨g, hg, hid, hgcall,
      g.holder_of_update (hsound.granted g hg) hgcall hlockId⟩
  · have hg := hsound.granted g (hhistory ▸ by simp)
    obtain ⟨i, kind, hfenced⟩ := g.holder_of_update hg hcall hlockId
    refine ⟨i, kind, hfenced, fun mid x older hearlier hnone => ?_⟩
    obtain ⟨hi, hkind, record, now, -, hrecord, hheld, hlists, -⟩ := hfenced
    have hbefore : Chained initial (mid ++ x :: older) g.before :=
      hearlier ▸ (hhistory ▸ hsound.chained).before
    exact exists_acquires (InstanceId.isValid_of_ofText hi)
      (LockKind.isTold_of_ofLockId hkind) hnone hbefore.after
      (fun y hy => hsound.granted y (by simp [hhistory, hearlier, hy]))
      ⟨record, hrecord, hheld, hlists⟩

/-- A request of a compaction for the lock of a table. -/
def AcquireLock.ofCompaction : AcquireLock where
  instanceName := "inst"
  table := ⟨1⟩
  lockId := -1
  initiator := 5

/-- A request of the same compaction that stores an entry of a tablet. -/
def UpdateBitmap.ofCompaction : UpdateBitmap where
  instanceName := "inst"
  table := ⟨1⟩
  tablet := ⟨2⟩
  lockId := -1
  initiator := 5
  bitmap := .ofList [(⟨⟨"rowset"⟩, ⟨0⟩, ⟨3⟩⟩, (∅ : RowSet).insert 4)]

/-- A compaction that has taken the lock stores an entry, and its commit is
fenced. -/
theorem update_fenced_compaction : ∃ s u g,
    Traffic.Reachable (fun _ => .v1) {} s ∧ s.history = [u, g]
      ∧ u.call = .updateBitmap .ofCompaction
      ∧ g.call = .acquireLock .ofCompaction
      ∧ (s.hasSucceeded 1 = true
        ∧ ∃ i kind, u.IsFenced (fun _ => .v1) .ofCompaction i kind) := by
  obtain ⟨s, hs⟩ : ∃ s, s = Traffic.served (fun _ => .v1) ⟨1000, 0⟩ 20
    [.updateBitmap .ofCompaction, .acquireLock .ofCompaction] := ⟨_, rfl⟩
  have hreachable : Traffic.Reachable (fun _ => .v1) {} s := by
    rw [hs]
    exact Traffic.reachable_served _ ⟨by decide +kernel, by decide⟩ 20 _
  obtain ⟨u, g, hhistory, ⟨-, hu⟩, -, hg⟩ :=
    Traffic.history_pair (fun _ => .v1) ⟨1000, 0⟩ 20
      (.acquireLock .ofCompaction) (.updateBitmap .ofCompaction)
      (by decide +kernel) (by decide +kernel)
  have hsucceeded : s.hasSucceeded 1 = true := by
    rw [hs]
    decide +kernel
  obtain ⟨inv, response, hinv, hcall, hscript, hok⟩ :=
    Traffic.succeeded_served (fun _ => .v1) ⟨1000, 0⟩ 20
      (.updateBitmap .ofCompaction) [.acquireLock .ofCompaction] rfl
      (hs ▸ hsucceeded)
  rw [← hs] at hinv hhistory
  obtain ⟨x, hx, -, hxcall, hfenced⟩ := (update_fenced hreachable).1 1 inv
    response .ofCompaction hinv hcall (by decide) hscript hok
  rw [hhistory] at hx
  refine ⟨s, u, g, hreachable, hhistory, hu, hg, hsucceeded, ?_⟩
  rcases List.mem_cons.1 hx with rfl | hx
  · exact hfenced
  · rw [List.mem_singleton.1 hx, hg] at hxcall
    cases hxcall

end MergeOnWrite
