/-
Requests that leave the length of their lease to the configuration.

A configuration is accepted if its lease is longer than nothing; no bound is
set to it from above. But a lease ends at an instant, and the calendar has a
last one. So whether the service can grant a lock at all is not decided by the
check of its configuration: a request that asks for no lease of its own, and
is right in everything else, is told that its argument is invalid exactly if
the lease of the configuration ends beyond the calendar, whatever is stored
and whatever happens meanwhile.

That nothing else is called an invalid argument is a property of the parts of
the handler (`Handler.Spares`): the store refuses, a scope is busy or a record
cannot be read, and each of these has a code of its own. More attempts do not
change the code either (`Script.run_withRetries`).

# Main statements

- `Handler.spares_bind` and the rules after it: what calls nothing an invalid
  argument.
- `AcquireLock.refused_attempt_iff`: one attempt at a request for the lock.
- `Script.run_withRetries`: what all attempts agree on.
- `AcquireLock.default_lease_refused_iff`: the answer of the service to a
  request without a lease.
- `AcquireLock.accepted_lease_refused`: a configuration that is accepted and
  refuses all such requests.
-/
import MergeOnWrite.Proofs.Service.Admission
import MergeOnWrite.Proofs.Service.Retry
import MergeOnWrite.Service.Front
import MergeOnWrite.Simulation.Clock

namespace MergeOnWrite

-- ================================================== errors of handlers

namespace Handler

variable {α β : Type}

/-- True of handlers that call nothing an invalid argument, in whatever
surroundings. -/
def Spares (h : Handler α) : Prop :=
  ∀ (σ : Type) (answer : σ → (q : Question) → σ × q.Answer) (s : σ)
    (e : ServiceError), (Program.run answer h.run s).2 = .error e →
      e.code ≠ .invalidArgument

theorem spares_pure (a : α) : Spares (pure a) := by
  intro σ answer s e h
  cases h

theorem spares_throw {e : ServiceError} (he : e.code ≠ .invalidArgument) :
    Spares (throw e : Handler α) := by
  intro σ answer s e' h
  obtain rfl := Except.error.inj h
  exact he

/-- A sequence spares the caller if its parts do. -/
theorem spares_bind {h : Handler α} {f : α → Handler β} (hh : h.Spares)
    (hf : ∀ a, (f a).Spares) : Spares (h >>= f) := by
  intro σ answer s e hrun
  have hbind : Program.run answer (h >>= f).run s = _ :=
    Program.run_bind answer h.run (ExceptT.bindCont f) s
  rw [hbind] at hrun
  cases hfirst : (Program.run answer h.run s).2 with
  | ok a =>
      rw [hfirst] at hrun
      exact hf a σ answer _ e hrun
  | error e' =>
      rw [hfirst] at hrun
      obtain rfl := Except.error.inj hrun
      exact hh σ answer s e' hfirst

theorem spares_ask (q : Question) : Spares (ask q) := by
  intro σ answer s e h
  cases h

/-- What the store refuses has a code of the store. -/
theorem spares_fromStore (context : String)
    (script : Script (Except StoreCode α)) :
    Spares (fromStore context script) := by
  intro σ answer s e h
  have hrun : Program.run answer (fromStore context script).run s = _ :=
    Program.run_bind answer script _ s
  rw [hrun] at h
  cases hstore : (Program.run answer script s).2 with
  | ok a => rw [hstore] at h; cases h
  | error code =>
      rw [hstore] at h
      obtain rfl := Except.error.inj h
      show ServiceCode.ofStore code ≠ .invalidArgument
      cases code <;> decide

theorem spares_stored (decode? : Bytes → Option α) (what : String)
    (bytes : Option Bytes) : Spares (stored decode? what bytes) := by
  cases bytes with
  | none => exact spares_pure none
  | some value =>
      simp only [stored]
      cases decode? value with
      | some record => exact spares_pure _
      | none => exact spares_throw (by simp [ServiceError.code])

theorem spares_readLock (i : InstanceId) (scope : LockScope) :
    Spares (readLock i scope) :=
  spares_bind (spares_fromStore _ _) fun bytes => spares_stored _ _ bytes

theorem spares_readStats (i : InstanceId) (table : TableId)
    (tablet : TabletId) : Spares (readStats i table tablet) := by
  refine spares_bind (spares_fromStore _ _) fun bytes => ?_
  exact spares_bind (spares_stored _ _ bytes) fun _ => spares_pure _

theorem spares_mapM {f : α → Handler β} (hf : ∀ a, (f a).Spares)
    (l : List α) : Spares (l.mapM f) := by
  induction l with
  | nil => exact spares_pure []
  | cons a rest ih =>
      rw [List.mapM_cons]
      refine spares_bind (hf a) fun b => ?_
      exact spares_bind ih fun _ => spares_pure _

theorem spares_forM {f : α → Handler Unit} (hf : ∀ a, (f a).Spares)
    (l : List α) : Spares (l.forM f) := by
  induction l with
  | nil => exact spares_pure ()
  | cons a rest ih => exact spares_bind (hf a) fun _ => ih

/-- A scope that is busy is no fault of the caller. -/
theorem spares_grants (i : InstanceId) (kind : LockKind) (initiator : Int64)
    (time expiration : Instant) (scopes : List LockScope) :
    Spares (grants i kind initiator time expiration scopes) := by
  induction scopes with
  | nil => exact spares_pure []
  | cons scope rest ih =>
      refine spares_bind (spares_readLock i scope) fun current => ?_
      split
      · exact spares_bind (spares_ask _) fun _ =>
          spares_throw (by simp [ServiceError.code])
      · exact spares_bind ih fun _ => spares_pure _

/-- A caller that takes another version for granted is told so. -/
theorem fails_versionOf {σ : Type} {answer : σ → (q : Question) → σ × q.Answer}
    {s t : σ} {i : InstanceId} {routed version : LockVersion}
    (hroute : answer s (.route i) = (t, routed)) (hne : version ≠ routed) :
    ∃ message, (versionOf i (some version)).Fails answer s
      (.versionMismatch message) t := by
  refine ⟨"instance " ++ i.text ++ " uses delete bitmap lock " ++ routed.name
    ++ ", request uses " ++ version.name, fails_bind (run_ask hroute) ?_⟩
  simp only [if_neg hne]
  exact fails_throw

end Handler

-- ================================================== more attempts

namespace ServiceCode

/-- The terminal form of a code calls an argument invalid only if the code
does. -/
theorem exhausted_eq_invalidArgument {code : ServiceCode} :
    code.exhausted = .invalidArgument ↔ code = .invalidArgument := by
  cases code <;> decide

end ServiceCode

namespace Script

variable {π σ : Type} {attempt : Nat → Script (Response π)}
  {answer : σ → (q : Question) → σ × q.Answer} {P : Prop}

theorem run_giveUp (method : String) (response : Response π) (s : σ) :
    ((giveUp method response).run answer s).2 = response.exhausted := rfl

/-- What all attempts agree on, the loop comes to. -/
theorem run_retrying {config : RetryConfig} (method : String)
    (h : ∀ k s, ((attempt k).run answer s).2.status.code = .invalidArgument
      ↔ P) :
    ∀ (left retries : Nat) (jitterMs : Option UInt64) (s : σ),
      ((retrying config method attempt jitterMs retries left).run answer
        s).2.status.code = .invalidArgument ↔ P := by
  have hlast : ∀ (response : Response π) (s : σ),
      (response.status.code = .invalidArgument ↔ P) →
        ((Program.run answer (if config.isRetryable response.status.code
          then giveUp method response else pure response) s).2.status.code
            = .invalidArgument ↔ P) := by
    intro response s hresponse
    split
    · rw [run_giveUp]
      exact ServiceCode.exhausted_eq_invalidArgument.trans hresponse
    · exact hresponse
  intro left
  induction left with
  | zero =>
      intro retries jitterMs s
      rw [retrying_zero, Program.run_bind]
      exact hlast _ _ (h retries s)
  | succ left ih =>
      intro retries jitterMs s
      rw [retrying_succ, Program.run_bind]
      split
      · cases jitterMs with
        | none => exact ih _ _ _
        | some ms => exact ih _ _ _
      · exact hlast _ _ (h retries s)

theorem run_withRetries (config : RetryConfig) (method : String)
    (h : ∀ k s, ((attempt k).run answer s).2.status.code = .invalidArgument
      ↔ P) (s : σ) :
    ((withRetries config method attempt).run answer s).2.status.code
      = .invalidArgument ↔ P := by
  unfold withRetries
  split
  · exact run_retrying method h _ _ _ s
  · show (Program.run answer ((attempt 0).bind fun response =>
        if response.status.code.isStoreRetryable then pure response.exhausted
        else pure response) s).2.status.code = _ ↔ P
    rw [Program.run_bind]
    split
    · exact ServiceCode.exhausted_eq_invalidArgument.trans (h 0 s)
    · exact h 0 s

end Script

/-- An attempt calls an argument invalid only if its handler does. -/
theorem Call.attempt_ne {σ : Type} {config : LockConfig} {call : Call}
    {answer : σ → (q : Question) → σ × q.Answer} {s : σ}
    (h : ∀ e, (Program.run answer (call.handler config).run s).2 = .error e →
      e.code ≠ .invalidArgument) :
    ((call.attempt config).run answer s).2.status.code
      ≠ .invalidArgument := by
  have hrun : (call.attempt config).run answer s = _ :=
    Program.run_bind answer (call.handler config).run _ s
  rw [hrun]
  cases hresult : (Program.run answer (call.handler config).run s).2 with
  | ok payload => exact nofun
  | error e => exact h e hresult

/-- A replay changes nothing in the answer to a request. -/
theorem Call.run_serve {σ : Type} (config : ServiceConfig) (call : Call)
    (answer : σ → (q : Question) → σ × q.Answer) (s : σ) :
    ((call.serve config).run answer s).2
      = ((Script.withRetries config.retry call.method fun _ =>
        call.attempt config.lock).run answer s).2 := by
  show (Program.run answer ((Script.withRetries config.retry call.method
    fun _ => call.attempt config.lock).bind fun response =>
      (call.offerReplay config.replay response.status).bind fun _ =>
        .done response) s).2 = _
  rw [Program.run_bind, Program.run_bind]
  rfl

/-- A configuration is accepted only if its lease is longer than nothing. -/
theorem ServiceConfig.leaseSecs_ne_zero {config : ServiceConfig}
    (h : config.check = .ok ()) : config.lock.leaseSecs ≠ 0 := by
  intro hzero
  unfold check at h
  rw [hzero] at h
  split at h
  · cases h
  · cases h

namespace AcquireLock

variable {config : LockConfig} {r : AcquireLock} {i : InstanceId}
  {kind : LockKind} {scopes : List LockScope}
  {route : InstanceId → LockVersion} {now : Instant}

theorem goesOn_eq : r.goesOn config i kind scopes now = do
    let expiration ←
      Handler.leaseEnd now (r.leaseSecs.getD config.leaseSecs)
    Handler.start
    let granted ← Handler.grants i kind r.initiator now expiration scopes
    granted.forM fun g =>
      Handler.ask (.put (.ofText (g.scope.key i)) g.record.encode)
    let stats ← statistics r i
    concluding granted
    return stats := by
  unfold goesOn concluding statistics
  cases r.wantsStats with
  | false => simp only [Bool.false_eq_true, if_false, bind_assoc]
  | true => simp only [if_true, bind_assoc]

/-- Behind its checks a request whose lease can be granted is called no invalid
argument. -/
theorem spares_goesOn (hlasts : r.Lasts config now) :
    (r.goesOn config i kind scopes now).Spares := by
  rw [goesOn_eq, leaseEnd_of_lasts hlasts]
  refine Handler.spares_bind (Handler.spares_pure _) fun expiration => ?_
  refine Handler.spares_bind (Handler.spares_fromStore _ _) fun _ => ?_
  refine Handler.spares_bind (Handler.spares_grants _ _ _ _ _ _)
    fun granted => ?_
  refine Handler.spares_bind (Handler.spares_forM ?_ _) fun _ => ?_
  · exact fun g => Handler.spares_ask _
  refine Handler.spares_bind ?_ fun stats => ?_
  · unfold statistics
    split
    · exact Handler.spares_mapM (fun _ => Handler.spares_readStats _ _ _) _
    · exact Handler.spares_pure []
  refine Handler.spares_bind ?_ fun _ => Handler.spares_pure stats
  refine Handler.spares_bind (Handler.spares_fromStore _ _) fun _ => ?_
  exact Handler.spares_forM (fun g => Handler.spares_ask _) _

-- ================================================== attempts

section Surroundings

variable {σ : Type} {answer : σ → (q : Question) → σ × q.Answer} {s t u : σ}
  {version : LockVersion}

/-- An attempt whose lease can be granted calls nothing an invalid argument,
whatever the store answers. -/
theorem attempt_of_lasts (hroute : answer s (.route i) = (t, version))
    (hnow : answer t .now = (u, now))
    (hi : InstanceId.ofText r.instanceName = .ok i)
    (hkind : LockKind.ofTakingLockId r.lockId = .ok kind)
    (hversion : ∀ taken, r.version = some taken → taken = version)
    (htablets : version = .v2 → r.tablets ≠ [])
    (hlasts : r.Lasts config now) :
    (((Call.acquireLock r).attempt config).run answer s).2.status.code
      ≠ .invalidArgument := by
  obtain ⟨scopes, hscopes, -⟩ := LockScope.exists_ofRequest htablets
  have hrun : Program.run answer (Handler.acquireLock config r).run s
      = Program.run answer (r.goesOn config i kind scopes now).run u :=
    run_of_goesOn hroute hnow hi hkind hversion hscopes
  refine Call.attempt_ne fun e he => ?_
  change (Program.run answer (Handler.acquireLock config r).run s).2
    = .error e at he
  rw [hrun] at he
  exact spares_goesOn hlasts σ answer u e he

/-- An attempt whose caller takes another version for granted is told that. -/
theorem attempt_of_mismatch (hroute : answer s (.route i) = (t, version))
    (hi : InstanceId.ofText r.instanceName = .ok i)
    (hkind : LockKind.ofTakingLockId r.lockId = .ok kind)
    {taken : LockVersion} (htaken : r.version = some taken)
    (hne : taken ≠ version) :
    (((Call.acquireLock r).attempt config).run answer s).2.status.code
      = .protocolVersionMismatch := by
  obtain ⟨message, hmismatch⟩ := Handler.fails_versionOf hroute hne
  rw [← htaken] at hmismatch
  have hfails : ((Call.acquireLock r).handler config).Fails answer s
      (.versionMismatch message) t :=
    Handler.fails_bind (Handler.run_instanceOf hi)
      (Handler.fails_bind (Handler.run_lift hkind) (hmismatch.bind _))
  rw [Call.run_attempt_of_fails hfails]
  rfl

/-- An attempt calls its argument invalid exactly if the lease cannot be
granted, unless the caller takes another version for granted. -/
theorem refused_attempt_iff (hclock : ∀ s, (answer s .now).2 = now)
    (hroute : ∀ s j, (answer s (.route j)).2 = route j)
    (hi : InstanceId.ofText r.instanceName = .ok i)
    (hkind : LockKind.ofTakingLockId r.lockId = .ok kind)
    (htablets : route i = .v2 → r.tablets ≠ []) (s : σ) :
    (((Call.acquireLock r).attempt config).run answer s).2.status.code
        = .invalidArgument
      ↔ (∀ version, r.version = some version → version = route i)
        ∧ ¬r.Lasts config now := by
  obtain ⟨t, ht⟩ : ∃ t, answer s (.route i) = (t, route i) :=
    ⟨_, Prod.ext rfl (hroute s i)⟩
  obtain ⟨u, hu⟩ : ∃ u, answer t .now = (u, now) :=
    ⟨_, Prod.ext rfl (hclock t)⟩
  by_cases hversion : ∀ version, r.version = some version → version = route i
  · rw [and_iff_right hversion]
    by_cases hlasts : r.Lasts config now
    · exact iff_of_false
        (attempt_of_lasts ht hu hi hkind hversion htablets hlasts)
        (not_not_intro hlasts)
    · obtain ⟨message, hfails⟩ :=
        fails_of_not_lasts ht hu hi hkind hversion htablets hlasts
      have hattempt : ((Call.acquireLock r).handler config).Fails answer s
          (.invalidArgument message) u := hfails
      rw [Call.run_attempt_of_fails hattempt]
      exact iff_of_true rfl hlasts
  · obtain ⟨taken, htaken, hne⟩ : ∃ taken, r.version = some taken
        ∧ taken ≠ route i := by
      simpa only [not_forall, exists_prop] using hversion
    rw [attempt_of_mismatch ht hi hkind htaken hne]
    exact iff_of_false nofun fun h => hversion h.1

-- ================================================== the configured lease

/-- A lease that is longer than nothing can be granted as long as it ends
within the calendar. -/
theorem lasts_iff (hnow : now.isInCalendar = true) (hlease : r.leaseSecs = none)
    (hsecs : config.leaseSecs ≠ 0) :
    r.Lasts config now
      ↔ now.second + config.leaseSecs.toNat ≤ Instant.greatestSecond := by
  have hends : r.ends config now
      = ⟨now.second + config.leaseSecs.toNat, now.nano⟩ := by
    rw [ends, secs, hlease]
    rfl
  have hpos : 0 < r.secs config := by
    rw [secs, hlease]
    exact UInt64.pos_iff_ne_zero.2 hsecs
  rw [Lasts, hends, Instant.isInCalendar_iff, and_iff_right hpos]
  have hleast := (Instant.isInCalendar_iff.1 hnow).1
  have hlater : now.second ≤ now.second + config.leaseSecs.toNat := by omega
  exact and_iff_right (Int.le_trans hleast hlater)

/-- Under a configuration that is accepted, a request without a lease of its
own, from an instance and a holder that there can be, is told that its argument
is invalid exactly if the configured lease ends beyond the calendar, unless the
caller takes another version of the protocol for granted. So it is whatever the
surroundings are in which the clock stands still. -/
theorem default_lease_refused_iff {config : ServiceConfig}
    (hconfig : config.check = .ok ()) (hnow : now.isInCalendar = true)
    (hclock : ∀ s, (answer s .now).2 = now)
    (hroute : ∀ s j, (answer s (.route j)).2 = route j)
    (hlease : r.leaseSecs = none)
    (hi : InstanceId.ofText r.instanceName = .ok i)
    (hkind : LockKind.ofTakingLockId r.lockId = .ok kind)
    (htablets : route i = .v2 → r.tablets ≠ []) (s : σ) :
    (((Call.acquireLock r).serve config).run answer s).2.status.code
        = .invalidArgument
      ↔ (∀ version, r.version = some version → version = route i)
        ∧ Instant.greatestSecond
          < now.second + (config.lock.leaseSecs.toNat : Int) := by
  rw [Call.run_serve, Script.run_withRetries config.retry _ fun _ s =>
    refused_attempt_iff hclock hroute hi hkind htablets s,
    lasts_iff hnow hlease (ServiceConfig.leaseSecs_ne_zero hconfig),
    Int.not_le]

end Surroundings

/-- The answers of a slate at the time at which simulated clocks begin. -/
abbrev answerAtBase (s : Slate) : (q : Question) → Slate × q.Answer :=
  s.answer ({} : SimulatedClock).now fun _ => .v1

/-- A load that asks for the lock of a table, and leaves the length of the lease
open. -/
def ofTable : AcquireLock where
  instanceName := "inst"
  table := ⟨1⟩
  lockId := 101
  initiator := 1

/-- The lease that is configured unless something else is said. -/
theorem default_lease_refused_iff_ten_seconds :
    ServiceConfig.check {} = .ok ()
      ∧ (((Call.acquireLock ofTable).serve {}).run answerAtBase
        { live := ∅ }).2.status.code ≠ .invalidArgument := by
  have hconfig : ServiceConfig.check {} = .ok () := by
    rw [ServiceConfig.check, if_neg (by decide), if_neg (by decide),
      if_pos (by decide +kernel)]
  have hclock : ∀ s, (answerAtBase s .now).2 = ({} : SimulatedClock).now :=
    fun _ => rfl
  have hroute : ∀ s j,
      (answerAtBase s (.route j)).2 = (fun _ => LockVersion.v1) j :=
    fun _ _ => rfl
  have hi : InstanceId.ofText ofTable.instanceName = .ok ⟨"inst"⟩ := rfl
  have hkind : LockKind.ofTakingLockId ofTable.lockId = .ok (.load 101) := rfl
  have hiff := default_lease_refused_iff hconfig (by decide +kernel) hclock
    hroute rfl hi hkind (fun h => by cases h) { live := ∅ }
  exact ⟨hconfig, fun hcode => absurd (hiff.1 hcode).2 (by decide +kernel)⟩

/-- The greatest lease of all is accepted, and no request that relies on it is
granted. -/
theorem accepted_lease_refused :
    ServiceConfig.check { lock := { leaseSecs := 18446744073709551615 } }
        = .ok ()
      ∧ (((Call.acquireLock ofTable).serve
          { lock := { leaseSecs := 18446744073709551615 } }).run answerAtBase
        { live := ∅ }).2.status
        = ⟨.invalidArgument, "invalid argument: lock expiration "
          ++ "18446744073709551615s is out of range"⟩ := by
  constructor
  · rw [ServiceConfig.check, if_neg (by decide), if_neg (by decide),
      if_pos (by decide +kernel)]
  · decide +kernel

end AcquireLock

end MergeOnWrite
