/-
Requests that take back what others have brought about.

What a request has brought about stands (`Call.Stands`) until another one
takes it back: who acquired a scope gives it up, who gave it up acquires it
again, an entry is stored with other rows, or removed, or stored again after
it was removed (`Call.Undoes`). These are all the ways. A request of any other
kind, for other scopes, of another participant or another class, and one that
fails, leave it standing. As long as it stands, the request that has brought
it about can be made again, and nothing changes.

# Main statements

- `Call.effect_cases`: a request that fails has no effect.
- `Call.lock_cases`, `Call.entry_cases`: what a request does to a lock, and to
  an entry.
- `Call.Stands.effect`: what a request has brought about stands until another
  one takes it back.
- `Call.effect_of_stands`: as long as it stands, the request has no effect.
-/
import MergeOnWrite.Proofs.Service.Repeat

namespace MergeOnWrite

open Handler (GrantedOn)

variable {config : LockConfig} {route : InstanceId → LockVersion}
  {now : Instant} {live : Entries} {i : InstanceId}

-- ================================================== attempts

namespace Slate

variable {q : Question}

/-- Only a commit changes what is live. -/
theorem live_answer_of_ne (s : Slate) (hq : q ≠ .commit) :
    (s.answer now route q).1.live = s.live := by
  cases q with
  | commit => exact absurd rfl hq
  | _ => rfl

/-- A question that is refused changes nothing. -/
theorem answer_of_refusal {s : Slate} {code : StoreCode}
    (h : q.refusal? (s.answer now route q).2 = some code) :
    (s.answer now route q).1 = s := by
  cases q with
  | get | scan => rfl
  | commit =>
      cases hdraft : s.draft with
      | none => simp only [answer, hdraft]
      | some view =>
          simp only [answer, hdraft] at h
          cases h
  | now | route | start | put | remove | report | jitter | pause | chance
  | spread | replay => cases h

/-- A script that is refused something, or ends before any commit, leaves all
that is live as it is. -/
theorem live_of_follows (now : Instant) (route : InstanceId → LockVersion)
    {α : Type} {mayWrite : Bool} {ends : TxnPhase → α → Prop}
    {fails : StoreCode → α → Prop} {script : Script α} {a : TxnPhase}
    {s : Slate} (h : Script.Follows mayWrite ends fails a script)
    (hlive : a ≠ .after → s.live = live) :
    (∃ b, ends b (script.run (Slate.answer now route) s).2
        ∧ (b ≠ .after →
          (script.run (Slate.answer now route) s).1.live = live))
      ∨ (script.run (Slate.answer now route) s).1.live = live := by
  refine Script.Follows.run_induction (Slate.answer now route)
    (motive := fun a s script => (a ≠ .after → s.live = live) →
      (∃ b, ends b (script.run (Slate.answer now route) s).2
        ∧ (b ≠ .after →
          (script.run (Slate.answer now route) s).1.live = live))
      ∨ (script.run (Slate.answer now route) s).1.live = live)
    ?ended ?refused ?goesOn s h hlive
  case ended => exact fun s hend hlive => .inl ⟨_, hend, hlive⟩
  case refused =>
    intro a b q next code y s hb hrefusal hdone _ hlive
    rw [Program.run_ask, hdone, answer_of_refusal hrefusal]
    exact .inr (hlive (TxnPhase.ne_after_of_refusal hb hrefusal))
  case goesOn =>
    intro a b q next s hb _ ih hlive
    refine ih fun hafter => ?_
    have ha : a ≠ .after := by
      rintro rfl
      exact hafter (TxnPhase.eq_after_of_next? hb)
    rw [live_answer_of_ne, hlive ha]
    rintro rfl
    cases mayWrite <;> cases a <;> cases hb
    exact hafter rfl

end Slate

namespace Call

/-- What is live after an attempt at a request, where the store refuses
nothing. -/
def effect (config : LockConfig) (now : Instant)
    (route : InstanceId → LockVersion) (call : Call) (live : Entries) :
    Entries :=
  ((call.attempt config).run (Slate.answer now route) { live }).1.live

variable {call : Call}

/-- A request that succeeds leaves what its handler does, and any other one
has no effect. -/
theorem effect_cases (config : LockConfig) (now : Instant)
    (route : InstanceId → LockVersion) (call : Call) (live : Entries) :
    (∃ payload t, (call.handler config).Succeeds now route { live } payload t
        ∧ call.effect config now route live = t.live)
      ∨ call.effect config now route live = live := by
  rcases Slate.live_of_follows now route
    (s := { live }) (call.follows_attempt config) (fun _ => rfl)
    with ⟨b, hend, hlive⟩ | hlive
  · rcases hend with ⟨-, hok⟩ | ⟨hb, -⟩
    · exact .inl ⟨_, _, (succeeds_of_ok rfl hok).1, rfl⟩
    · exact .inr (hlive hb)
  · exact .inr hlive

/-- As long as what a request has brought about stands, the request has no
effect. -/
theorem effect_of_stands (h : call.Stands config route now live) :
    call.effect config now route live = live := by
  rcases call.effect_cases config now route live with ⟨_, t, hsucceeds, heq⟩
    | heq
  · rw [heq]
    exact live_of_stands h hsucceeds
  · exact heq

end Call

-- ================================================== taking back

/-- True of a request for the lock and one that gives it up, if they name a
scope in common, for one participant of one class. -/
def AcquireLock.Meets (route : InstanceId → LockVersion) (a : AcquireLock)
    (r : ReleaseLock) : Prop :=
  ∃ i scope kind kind',
    LockScope.IsNamedBy scope route i a.instanceName a.table a.tablets
    ∧ LockScope.IsNamedBy scope route i r.instanceName r.table r.tablets
    ∧ LockKind.ofTakingLockId a.lockId = .ok kind
    ∧ LockKind.ofTakingLockId r.lockId = .ok kind'
    ∧ kind.sameClass kind' = true ∧ a.initiator = r.initiator

/-- True of requests that store an entry of one tablet with different rows. -/
def UpdateBitmap.Contradicts (u v : UpdateBitmap) : Prop :=
  u.instanceName = v.instanceName ∧ u.tablet = v.tablet
    ∧ ∃ key rows rows', u.bitmap.entries.get? key = some rows
      ∧ v.bitmap.entries.get? key = some rows' ∧ rows ≠ rows'

/-- True of a request to remove rowsets and one that stores an entry of one
of them. -/
def RemoveBitmap.Meets (r : RemoveBitmap) (u : UpdateBitmap) : Prop :=
  r.tablet = u.tablet ∧ ∃ i, InstanceId.ofText r.instanceName = .ok i
    ∧ InstanceId.ofText u.instanceName = .ok i
    ∧ ∃ name ∈ r.rowsets, ∃ entry ∈ u.bitmap.entries.keys,
      Bytes.ofText (Key.rowsetStem i r.tablet ⟨name⟩)
        <+: entry.stored i u.tablet

namespace Call

/-- True of a request that may take back what another one has brought
about. -/
def Undoes (route : InstanceId → LockVersion) : Call → Call → Prop
  | .acquireLock a, .releaseLock r => a.Meets route r
  | .releaseLock r, .acquireLock a => a.Meets route r
  | .updateBitmap u, .updateBitmap v => u.Contradicts v
  | .updateBitmap u, .removeBitmap r => r.Meets u
  | .removeBitmap r, .updateBitmap u => r.Meets u
  | _, _ => False

end Call

-- ================================================== locks

variable {call : Call} {payload : call.Payload} {t : Slate}
  {scope : LockScope} {kind : LockKind} {initiator : Int64}

/-- What a request that succeeds does to the lock of a scope: it acquires the
scope, or gives it up, or leaves it alone. -/
theorem Call.lock_cases (hnano : now.nano < 1000000000)
    (h : (call.handler config).Succeeds now route { live } payload t)
    (hi : i.IsValid) (scope : LockScope) :
    (∃ a kind current record outcome expiration, call = .acquireLock a
        ∧ scope.IsNamedBy route i a.instanceName a.table a.tablets
        ∧ LockKind.ofTakingLockId a.lockId = .ok kind
        ∧ live.HasLock i scope current
        ∧ LockRecord.acquire current kind a.initiator now expiration
          = .granted record outcome
        ∧ t.live.get? (scope.keyBytes i) = some record.encode
        ∧ record.expiration.IsProper)
      ∨ (∃ r kind current, call = .releaseLock r
        ∧ scope.IsNamedBy route i r.instanceName r.table r.tablets
        ∧ LockKind.ofTakingLockId r.lockId = .ok kind
        ∧ live.HasLock i scope current
        ∧ t.live.get? (scope.keyBytes i)
          = (LockRecord.release current kind r.initiator).leaves
            (live.get? (scope.keyBytes i)))
      ∨ t.live.get? (scope.keyBytes i) = live.get? (scope.keyBytes i) := by
  have hothers : call.scopes route i = [] →
      t.live.get? (scope.keyBytes i) = live.get? (scope.keyBytes i) := by
    refine fun hnone => Decidable.of_not_not fun hne => ?_
    have hmay : call.MayChange route (StoreKey.bytes (.lock i scope)) :=
      changesOnly_of_succeeds h (scope.keyBytes i) hne
    have hmem := (mem_scopes_of_mayChange hi hmay).2
    rw [hnone] at hmem
    exact List.not_mem_nil hmem
  cases call with
  | acquireLock a =>
      obtain ⟨j, kind, scopes, expiration, granted, hasks, hmap, hgranted, -,
        rfl⟩ := (AcquireLock.succeeds_iff a).1 h
      by_cases hkey : ∃ g ∈ granted,
          scope.keyBytes i = g.scope.keyBytes j
      · obtain ⟨g, hg, hkey⟩ := hkey
        have hmem : g.scope ∈ scopes := hmap ▸ List.mem_map_of_mem hg
        obtain ⟨current, hcurrent, hacquire⟩ := hgranted g hg
        have hstored : (AcquireLock.store j granted live).get?
            (g.scope.keyBytes j) = some g.record.encode :=
          AcquireLock.get?_store hasks hmap hg
        have hproper := AcquireLock.isProper_of_grantedOn hasks hnano
          (hgranted g hg)
        obtain ⟨rfl, rfl⟩ := LockScope.key_inj hi
          (InstanceId.isValid_of_ofText hasks.instance_eq)
          (Bytes.ofText_inj hkey)
        exact .inl ⟨a, kind, current, g.record, g.outcome, expiration, rfl,
          ⟨hasks.instance_eq, scopes, hasks.scopes_eq, hmem⟩, hasks.kind_eq,
          hcurrent, hacquire, hstored, hproper⟩
      · exact .inr (.inr (SortedMap.get?_foldl_insert_of_ne fun g hg heq =>
          hkey ⟨g, hg, heq⟩))
  | releaseLock r =>
      obtain ⟨j, kind, scopes, after, hasks, hreleased, rfl⟩ :=
        ReleaseLock.releasedOn_of_succeeds h
      by_cases hkey : ∃ other ∈ scopes, scope.keyBytes i = other.keyBytes j
      · obtain ⟨other, hother, hkey⟩ := hkey
        obtain ⟨current, hcurrent, hafter⟩ := hreleased.released other hother
        obtain ⟨rfl, rfl⟩ := LockScope.key_inj hi
          (InstanceId.isValid_of_ofText hasks.instance_eq)
          (Bytes.ofText_inj hkey)
        exact .inr (.inl ⟨r, kind, current, rfl,
          ⟨hasks.instance_eq, scopes, hasks.scopes_eq, hother⟩, hasks.kind_eq,
          hcurrent, hafter⟩)
      · exact .inr (.inr (hreleased.others _ fun other hother heq =>
          hkey ⟨other, hother, heq⟩))
  | updateBitmap | readBitmap | removeBitmap => exact .inr (.inr (hothers rfl))

/-- Who holds a scope goes on holding it, unless the participant itself gives
it up. -/
theorem Entries.Grants.of_succeeds {expiration : Instant}
    (hgrants : live.Grants i scope kind initiator expiration)
    (hnow : now < expiration) (hnano : now.nano < 1000000000) (hi : i.IsValid)
    (hkind : kind.IsTold)
    (h : (call.handler config).Succeeds now route { live } payload t)
    (hkeeps : ∀ r kind', call = .releaseLock r →
      scope.IsNamedBy route i r.instanceName r.table r.tablets →
      LockKind.ofTakingLockId r.lockId = .ok kind' →
      ¬(kind'.sameClass kind = true ∧ r.initiator = initiator)) :
    t.live.Grants i scope kind initiator expiration := by
  obtain ⟨record, hget, hproper, hrecord⟩ := hgrants
  have hlock := Entries.hasLock_of_get? hproper hget
  rcases Call.lock_cases hnano h hi scope with
    ⟨a, kind', current, after, outcome, end', -, -, hkind', hcurrent, hacquire,
      hafter, hproper'⟩
    | ⟨r, kind', current, hcall, hnamed, hkind', hcurrent, hafter⟩ | hsame
  · obtain rfl := hcurrent.unique hlock
    obtain ⟨hkept, -⟩ := hrecord.keeps.acquire hkind
      (LockKind.isTold_of_ofTakingLockId hkind')
      (Instant.lt_of_lt_of_le hnow hrecord.expiration_le) hacquire
    exact ⟨after, hafter, hproper', hrecord.of_keeps hkept⟩
  · obtain rfl := hcurrent.unique hlock
    obtain ⟨rest, hleft, hkept⟩ := hrecord.keeps.release hkind
      (LockKind.isTold_of_ofTakingLockId hkind')
      (hkeeps r kind' hcall hnamed hkind')
    cases hrelease : LockRecord.release (some record) kind' r.initiator with
    | delete =>
        rw [hrelease] at hleft
        cases hleft
    | rewrite other =>
        rw [hrelease] at hleft hafter
        obtain rfl := Option.some.inj hleft
        obtain ⟨held, heq, hexpiration⟩ :=
          LockRecord.expiration_of_release hrelease
        obtain rfl := Option.some.inj heq
        exact ⟨other, hafter, hexpiration ▸ hproper, hrecord.of_keeps hkept⟩
    | stale reason =>
        rw [hrelease] at hafter
        exact ⟨record, hafter.trans hget, hproper, hrecord⟩
  · exact ⟨record, hsame.trans hget, hproper, hrecord⟩

/-- Who has no part in a scope gets none, unless the participant itself
acquires the scope. -/
theorem Entries.Lacks.of_succeeds
    (hlacks : live.Lacks i scope kind initiator)
    (hnano : now.nano < 1000000000) (hi : i.IsValid) (hkind : kind.IsTold)
    (h : (call.handler config).Succeeds now route { live } payload t)
    (hkeeps : ∀ a kind', call = .acquireLock a →
      scope.IsNamedBy route i a.instanceName a.table a.tablets →
      LockKind.ofTakingLockId a.lockId = .ok kind' →
      ¬(kind'.sameClass kind = true ∧ a.initiator = initiator)) :
    t.live.Lacks i scope kind initiator := by
  obtain ⟨current, hcurrent, hnone⟩ := hlacks
  rcases Call.lock_cases hnano h hi scope with
    ⟨a, kind', current', after, outcome, end', hcall, hnamed, hkind', hlock,
      hacquire, hafter, hproper⟩
    | ⟨r, kind', current', -, -, hkind', hlock, hafter⟩ | hsame
  · obtain rfl := hlock.unique hcurrent
    refine ⟨some after, Entries.hasLock_of_get? hproper hafter, ?_⟩
    intro record heq hheld hlists
    obtain rfl := Option.some.inj heq
    rcases LockRecord.acquire_gains hkind
      (LockKind.isTold_of_ofTakingLockId hkind') hacquire hheld hlists
      with ⟨held, heq, hheld', hlists'⟩ | hboth
    · exact hnone held heq hheld' hlists'
    · exact hkeeps a kind' hcall hnamed hkind' hboth
  · obtain rfl := hlock.unique hcurrent
    refine ⟨_, Entries.hasLock_of_leaves hcurrent hafter, ?_⟩
    intro record heq hheld hlists
    obtain ⟨held, heq', hheld', hlists'⟩ :=
      LockRecord.release_gains heq hheld hlists
    exact hnone held heq' hheld' hlists'
  · refine ⟨current, ?_, hnone⟩
    rw [Entries.HasLock, hsame]
    exact hcurrent

-- ================================================== entries

variable {tablet : TabletId} {key : Bytes}

/-- Of what lies among the entries of a tablet a request changes only entries
that it stores, and those of rowsets that it removes. -/
theorem Call.entry_cases (hi : i.IsValid) (hkey : tablet.stem i <+: key)
    (h : call.MayChange route key) :
    (∃ u, call = .updateBitmap u ∧ InstanceId.ofText u.instanceName = .ok i
        ∧ u.tablet = tablet ∧ ∃ entry ∈ u.bitmap.entries.keys,
          key = entry.stored i tablet)
      ∨ ∃ r, call = .removeBitmap r ∧ InstanceId.ofText r.instanceName = .ok i
        ∧ r.tablet = tablet ∧ ∃ name ∈ r.rowsets,
          Bytes.ofText (Key.rowsetStem i tablet ⟨name⟩) <+: key := by
  obtain ⟨j, hj, htouches⟩ := h
  have hvalid := InstanceId.isValid_of_ofText hj
  cases call with
  | acquireLock a | releaseLock a =>
      obtain ⟨scope, -, rfl⟩ := htouches
      exact absurd hkey (Key.not_extends_lock hi hvalid)
  | updateBitmap u =>
      rcases htouches with ⟨entry, hentry, rfl⟩ | rfl
      · obtain ⟨rfl, rfl⟩ := Key.tabletStem_disjoint hi hvalid hkey
          (entry.stored_extends j u.tablet)
        exact .inl ⟨u, rfl, hj, rfl, entry, hentry, rfl⟩
      · exact absurd hkey (Key.not_extends_stats hi hvalid)
  | readBitmap r => exact htouches.elim
  | removeBitmap r =>
      rcases htouches with ⟨name, hname, rowset, hrowset, hstem⟩ | rfl
      · obtain ⟨-, rfl⟩ := RowsetId.eq_of_ofText hrowset
        obtain ⟨rfl, rfl⟩ := Key.tabletStem_disjoint hi hvalid hkey
          ((Key.rowsetStem_extends j r.tablet rowset).trans hstem)
        exact .inr ⟨r, rfl, hj, rfl, rowset.text, hname, hstem⟩
      · exact absurd hkey (Key.not_extends_stats hi hvalid)

/-- Entries that are stored stay so, unless a request stores one of them with
other rows, or removes it. -/
theorem Entries.Stores.of_succeeds {bitmap : DeleteBitmap}
    (hstores : live.Stores i tablet bitmap) (hnano : now.nano < 1000000000)
    (hi : i.IsValid)
    (h : (call.handler config).Succeeds now route { live } payload t)
    (hupdates : ∀ u, call = .updateBitmap u →
      InstanceId.ofText u.instanceName = .ok i → u.tablet = tablet →
      ∀ entry rows rows', bitmap.entries.get? entry = some rows →
        u.bitmap.entries.get? entry = some rows' → rows = rows')
    (hremoves : ∀ r, call = .removeBitmap r →
      InstanceId.ofText r.instanceName = .ok i → r.tablet = tablet →
      ∀ name ∈ r.rowsets, ∀ entry ∈ bitmap.entries.keys,
        ¬ Bytes.ofText (Key.rowsetStem i tablet ⟨name⟩)
          <+: entry.stored i tablet) :
    t.live.Stores i tablet bitmap := by
  intro e he
  have hbefore := hstores e he
  have hentry : bitmap.entries.get? e.1 = some e.2 :=
    SortedMap.mem_toList_iff.1 he
  have hextends := e.1.stored_extends i tablet
  -- where the entry has changed, the request has stored or removed it, and
  -- what it has brought about instead stands after it
  by_cases hsame : t.live.get? (e.1.stored i tablet)
      = live.get? (e.1.stored i tablet)
  · exact hsame.trans hbefore
  · have hmay := Call.changesOnly_of_succeeds h _ hsame
    have hstands := Call.stands_of_succeeds hnano h
    rcases Call.entry_cases hi hextends hmay with
      ⟨u, rfl, hu, rfl, entry, hmem, hkey⟩ | ⟨r, rfl, hr, rfl, name, hname, hstem⟩
    · obtain rfl := BitmapKey.stored_injective i u.tablet hkey
      obtain ⟨rows, hrows⟩ :=
        Option.isSome_iff_exists.1 (SortedMap.mem_keys.1 hmem)
      obtain ⟨j, hj, hstored⟩ := hstands
      obtain rfl := Except.ok.inj (hj.symm.trans hu)
      rw [hupdates u rfl hu rfl e.1 e.2 rows hentry hrows]
      exact hstored (e.1, rows) (SortedMap.mem_toList_iff.2 hrows)
    · refine absurd hstem (hremoves r rfl hr rfl name hname e.1 ?_)
      exact SortedMap.mem_keys.2 (Option.isSome_iff_exists.2 ⟨_, hentry⟩)

/-- Rowsets that are removed stay so, unless a request stores an entry of one
of them. -/
theorem Entries.Omits.of_succeeds {names : List String}
    (homits : live.Omits i tablet names) (hnano : now.nano < 1000000000)
    (hi : i.IsValid)
    (h : (call.handler config).Succeeds now route { live } payload t)
    (hupdates : ∀ u, call = .updateBitmap u →
      InstanceId.ofText u.instanceName = .ok i → u.tablet = tablet →
      ∀ name ∈ names, ∀ entry ∈ u.bitmap.entries.keys,
        ¬ Bytes.ofText (Key.rowsetStem i tablet ⟨name⟩)
          <+: entry.stored i tablet) :
    t.live.Omits i tablet names := by
  refine ⟨homits.isValid, fun key hnamed => ?_⟩
  have hbefore := homits.gone key hnamed
  obtain ⟨name, hname, hstem⟩ := hnamed
  have hextends := (Key.rowsetStem_extends i tablet ⟨name⟩).trans hstem
  by_cases hsame : t.live.get? key = live.get? key
  · exact hsame.trans hbefore
  · have hmay := Call.changesOnly_of_succeeds h _ hsame
    have hstands := Call.stands_of_succeeds hnano h
    rcases Call.entry_cases hi hextends hmay with
      ⟨u, rfl, hu, rfl, entry, hmem, rfl⟩ | ⟨r, rfl, hr, rfl, hremoved⟩
    · exact absurd hstem (hupdates u rfl hu rfl name hname entry hmem)
    · obtain ⟨j, hj, hgone⟩ := hstands
      obtain rfl := Except.ok.inj (hj.symm.trans hr)
      exact hgone.gone key hremoved

-- ================================================== requests

namespace Call

/-- What a request has brought about stands after any other one that does not
take it back. -/
theorem Stands.effect {other : Call}
    (h : call.Stands config route now live) (hnano : now.nano < 1000000000)
    (hundoes : ¬ other.Undoes route call) :
    call.Stands config route now (other.effect config now route live) := by
  rcases other.effect_cases config now route live with
    ⟨_, t, hsucceeds, heq⟩ | heq
  · rw [heq]
    cases call with
    | acquireLock a =>
        obtain ⟨i, kind, scopes, expiration, hasks, hgrants⟩ := h
        refine ⟨i, kind, scopes, expiration, hasks, fun scope hscope => ?_⟩
        refine (hgrants scope hscope).of_succeeds
          (Handler.lt_of_leaseEnd hasks.expiration_eq) hnano
          (InstanceId.isValid_of_ofText hasks.instance_eq)
          (LockKind.isTold_of_ofTakingLockId hasks.kind_eq) hsucceeds ?_
        rintro r kind' rfl hnamed hkind' ⟨hclass, hsame⟩
        rw [LockKind.sameClass_comm] at hclass
        exact hundoes ⟨i, scope, kind, kind',
          ⟨hasks.instance_eq, scopes, hasks.scopes_eq, hscope⟩, hnamed,
          hasks.kind_eq, hkind', hclass, hsame.symm⟩
    | releaseLock r =>
        obtain ⟨i, kind, scopes, hasks, hlacks⟩ := h
        refine ⟨i, kind, scopes, hasks, fun scope hscope => ?_⟩
        refine (hlacks scope hscope).of_succeeds hnano
          (InstanceId.isValid_of_ofText hasks.instance_eq)
          (LockKind.isTold_of_ofTakingLockId hasks.kind_eq) hsucceeds ?_
        rintro a kind' rfl hnamed hkind' ⟨hclass, hsame⟩
        exact hundoes ⟨i, scope, kind', kind, hnamed,
          ⟨hasks.instance_eq, scopes, hasks.scopes_eq, hscope⟩, hkind',
          hasks.kind_eq, hclass, hsame⟩
    | updateBitmap v =>
        obtain ⟨i, hi, hstores⟩ := h
        refine ⟨i, hi, hstores.of_succeeds hnano
          (InstanceId.isValid_of_ofText hi) hsucceeds ?_ ?_⟩
        · rintro u rfl hu htablet entry rows rows' hrows hrows'
          refine Decidable.of_not_not fun hne => hundoes ⟨?_, htablet, entry,
            rows', rows, hrows', hrows, fun heq => hne heq.symm⟩
          rw [← InstanceId.text_of_ofText hu, InstanceId.text_of_ofText hi]
        · rintro r rfl hr htablet name hname entry hentry hstem
          rw [← htablet] at hstem
          exact hundoes ⟨htablet, i, hr, hi, name, hname, entry, hentry,
            htablet ▸ hstem⟩
    | readBitmap r => trivial
    | removeBitmap r =>
        obtain ⟨i, hi, homits⟩ := h
        refine ⟨i, hi, homits.of_succeeds hnano
          (InstanceId.isValid_of_ofText hi) hsucceeds ?_⟩
        rintro u rfl hu htablet name hname entry hentry hstem
        exact hundoes ⟨htablet.symm, i, hi, hu, name, hname, entry, hentry,
          htablet ▸ hstem⟩
  · rw [heq]
    exact h

end Call

end MergeOnWrite
