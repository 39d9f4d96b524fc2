/-
What handlers report, and what is seen of them from outside.

Handlers of the lock report how each of its scopes changed hands, and they do
so at their end, after the commit; the one thing that is reported earlier is a
scope that is busy, and then the handler fails. So the parts in front of the
end report nothing if they come out well (`Handler.Quiet`), in whatever
surroundings.

Of a handler that is run on a slate is seen what it leaves, what it reports,
and that it fails and how, but not what it comes to if it does not
(`Handler.seen`). A part that is quiet and comes out well is not seen, apart
from what it leaves to the parts behind it.

# Main statements

- `Handler.quiet_bind` and the rules after it: what reports nothing.
- `Handler.seen_bind_of_succeeds`, `Handler.seen_bind_of_fails`: what is seen
  of a sequence.
- `Handler.seen_reports`: what is seen of the end.
-/
import MergeOnWrite.Proofs.Service.Repeat
import MergeOnWrite.Proofs.Service.Retry

namespace MergeOnWrite

theorem Exchange.reports_append (log rest : List Exchange) :
    reports (log ++ rest) = reports log ++ reports rest :=
  List.filterMap_append

namespace Handler

variable {α β γ : Type} {now : Instant} {route : InstanceId → LockVersion}
  {s u : Slate}

-- ================================================== quiet handlers

/-- True of handlers that report nothing in conversations in which they come
out well. -/
def Quiet (h : Handler α) : Prop :=
  ∀ log a, Program.Yields h.run log (.ok a) → Exchange.reports log = []

theorem quiet_pure (a : α) : Quiet (pure a) := by
  intro log b h
  rw [h.1]
  rfl

theorem quiet_throw (e : ServiceError) : Quiet (throw e : Handler α) := by
  intro log b h
  cases h.2

/-- A sequence is quiet if its parts are. -/
theorem quiet_bind {h : Handler α} {f : α → Handler β} (hh : h.Quiet)
    (hf : ∀ a, (f a).Quiet) : Quiet (h >>= f) := by
  intro log b hlog
  obtain ⟨first, result, rest, rfl, hfirst, hrest⟩ := Program.yields_bind.1 hlog
  cases result with
  | error e => cases hrest.2
  | ok a =>
      rw [Exchange.reports_append]
      exact List.append_eq_nil_iff.2 ⟨hh first a hfirst, hf a rest b hrest⟩

/-- What fails in the end may report what it likes. -/
theorem quiet_bind_throw {h : Handler α} (e : ServiceError) :
    Quiet (h >>= fun _ => (throw e : Handler β)) := by
  intro log b hlog
  obtain ⟨first, result, rest, -, -, hrest⟩ := Program.yields_bind.1 hlog
  cases result with
  | error e => cases hrest.2
  | ok a => cases hrest.2

theorem quiet_ask {q : Question} (hq : ∀ event, q ≠ .report event) :
    Quiet (ask q) := by
  intro log x hlog
  obtain ⟨y, _, rfl, rfl, -⟩ := hlog
  cases q with
  | report event => exact absurd rfl (hq event)
  | _ => rfl

theorem quiet_lift (result : Except ServiceError α) :
    Quiet (liftM result : Handler α) := by
  cases result with
  | ok a => exact quiet_pure a
  | error e => exact quiet_throw e

theorem quiet_instanceOf (name : String) : Quiet (instanceOf name) := by
  intro log i hlog
  rw [hlog.1]
  rfl

theorem quiet_start : Quiet start := by
  intro log a hlog
  obtain ⟨_, _, rfl, rfl, -⟩ := hlog
  rfl

theorem quiet_get (context : String) (key : Bytes) :
    Quiet (get context key) := by
  intro log a hlog
  obtain ⟨_, _, rfl, rfl, -⟩ := hlog
  rfl

theorem quiet_commit (context : String) : Quiet (commit context) := by
  intro log a hlog
  obtain ⟨_, _, rfl, rfl, -⟩ := hlog
  rfl

theorem quiet_stored (decode? : Bytes → Option α) (what : String)
    (bytes : Option Bytes) : Quiet (stored decode? what bytes) := by
  cases bytes with
  | none => exact quiet_pure none
  | some value =>
      simp only [stored]
      cases decode? value with
      | some record => exact quiet_pure _
      | none => exact quiet_throw _

theorem quiet_readLock (i : InstanceId) (scope : LockScope) :
    Quiet (readLock i scope) :=
  quiet_bind (quiet_get _ _) fun bytes => quiet_stored _ _ bytes

theorem quiet_readStats (i : InstanceId) (table : TableId)
    (tablet : TabletId) : Quiet (readStats i table tablet) := by
  refine quiet_bind (quiet_get _ _) fun bytes => ?_
  exact quiet_bind (quiet_stored _ _ bytes) fun _ => quiet_pure _

theorem quiet_versionOf (i : InstanceId) (taken : Option LockVersion) :
    Quiet (versionOf i taken) := by
  refine quiet_bind (quiet_ask nofun) fun routed => ?_
  split
  · exact quiet_pure _
  · split
    · exact quiet_pure _
    · exact quiet_throw _

theorem quiet_mapM {f : α → Handler β} (hf : ∀ a, (f a).Quiet) (l : List α) :
    Quiet (l.mapM f) := by
  induction l with
  | nil => exact quiet_pure []
  | cons a rest ih =>
      rw [List.mapM_cons]
      refine quiet_bind (hf a) fun b => ?_
      exact quiet_bind ih fun _ => quiet_pure _

theorem quiet_forM {f : α → Handler Unit} (hf : ∀ a, (f a).Quiet)
    (l : List α) : Quiet (l.forM f) := by
  induction l with
  | nil => exact quiet_pure ()
  | cons a rest ih => exact quiet_bind (hf a) fun _ => ih

theorem quiet_grants (i : InstanceId) (kind : LockKind) (initiator : Int64)
    (time expiration : Instant) (scopes : List LockScope) :
    Quiet (grants i kind initiator time expiration scopes) := by
  induction scopes with
  | nil => exact quiet_pure []
  | cons scope rest ih =>
      refine quiet_bind (quiet_readLock i scope) fun current => ?_
      split
      · exact quiet_bind_throw _
      · exact quiet_bind ih fun _ => quiet_pure _

theorem quiet_releases (i : InstanceId) (kind : LockKind) (initiator : Int64)
    (scopes : List LockScope) :
    Quiet (releases i kind initiator scopes) := by
  induction scopes with
  | nil => exact quiet_pure []
  | cons scope rest ih =>
      refine quiet_bind (quiet_readLock i scope) fun current => ?_
      have hrest : ∀ outcome : LockOutcome, Quiet (do
          return outcome :: (← releases i kind initiator rest)) :=
        fun _ => quiet_bind ih fun _ => quiet_pure _
      split
      · exact quiet_bind (quiet_ask nofun) fun _ => hrest _
      · exact quiet_bind (quiet_ask nofun) fun _ => hrest _
      · exact hrest _

end Handler

/-- A request for the lock reports nothing before its end. -/
theorem AcquireLock.quiet_granting (config : LockConfig) (r : AcquireLock) :
    (granting config r).Quiet := by
  unfold granting
  refine Handler.quiet_bind (Handler.quiet_instanceOf _) fun i => ?_
  refine Handler.quiet_bind (Handler.quiet_lift _) fun kind => ?_
  refine Handler.quiet_bind (Handler.quiet_versionOf _ _) fun version => ?_
  refine Handler.quiet_bind (Handler.quiet_lift _) fun scopes => ?_
  refine Handler.quiet_bind (Handler.quiet_ask nofun) fun time => ?_
  refine Handler.quiet_bind (Handler.quiet_lift _) fun expiration => ?_
  refine Handler.quiet_bind Handler.quiet_start fun _ => ?_
  refine Handler.quiet_bind (Handler.quiet_grants _ _ _ _ _ _) fun granted => ?_
  refine Handler.quiet_bind (Handler.quiet_forM ?_ _) fun _ => ?_
  · exact fun g => Handler.quiet_ask nofun
  · exact Handler.quiet_pure _

theorem AcquireLock.quiet_statistics (r : AcquireLock) (i : InstanceId) :
    (statistics r i).Quiet := by
  unfold statistics
  split
  · exact Handler.quiet_mapM (fun _ => Handler.quiet_readStats _ _ _) _
  · exact Handler.quiet_pure []

/-- Nor does one that gives it up. -/
theorem ReleaseLock.quiet_releasing (r : ReleaseLock) :
    (releasing r).Quiet := by
  unfold releasing
  refine Handler.quiet_bind (Handler.quiet_instanceOf _) fun i => ?_
  refine Handler.quiet_bind (Handler.quiet_lift _) fun kind => ?_
  refine Handler.quiet_bind (Handler.quiet_versionOf _ _) fun version => ?_
  refine Handler.quiet_bind (Handler.quiet_lift _) fun scopes => ?_
  exact Handler.quiet_bind Handler.quiet_start fun _ =>
    Handler.quiet_releases _ _ _ _

-- ================================================== what is seen

/-- What is seen of a handler from outside. -/
structure Sight where
  /-- The slate that it leaves. -/
  left : Slate
  /-- What it reports, earliest first. -/
  reports : List Report
  /-- The error with which it fails, if it does. -/
  result : Except ServiceError Unit

namespace Handler

variable {α β γ : Type} {now : Instant} {route : InstanceId → LockVersion}
  {s u : Slate}

/-- What is seen of a handler that is run on a slate. -/
def seen (now : Instant) (route : InstanceId → LockVersion) (h : Handler α)
    (s : Slate) : Sight :=
  let (left, result) := Program.run (Slate.answer now route) h.run s
  { left
    reports := Exchange.reports (Program.talk (Slate.answer now route) h.run s)
    result := result.map fun _ => () }

theorem seen_of_run {h : Handler α} {result : Except ServiceError α}
    (hrun : Program.run (Slate.answer now route) h.run s = (u, result)) :
    seen now route h s
      = ⟨u, Exchange.reports
          (Program.talk (Slate.answer now route) h.run s),
        result.map fun _ => ()⟩ := by
  rw [seen, hrun]

/-- Of a sequence is seen what its first part reports, and then what there is
behind it. -/
theorem seen_bind {h : Handler α} {f : α → Handler β}
    {result : Except ServiceError α}
    (hrun : Program.run (Slate.answer now route) h.run s = (u, result)) :
    seen now route (h >>= f) s
      = let rest := match result with
          | .ok a => seen now route (f a) u
          | .error e => ⟨u, [], .error e⟩
        { rest with
          reports := Exchange.reports
            (Program.talk (Slate.answer now route) h.run s) ++ rest.reports } := by
  have hwhole : Program.run (Slate.answer now route) (h >>= f).run s = _ :=
    Program.run_bind (Slate.answer now route) h.run (ExceptT.bindCont f) s
  have htalk : Program.talk (Slate.answer now route) (h >>= f).run s = _ :=
    Program.talk_bind (Slate.answer now route) h.run (ExceptT.bindCont f) s
  rw [seen_of_run hwhole, htalk, hrun, Exchange.reports_append]
  cases result with
  | ok a => rfl
  | error e => rfl

/-- What is quiet and comes out well is not seen. -/
theorem seen_bind_of_succeeds {h : Handler α} {f : α → Handler β} {a : α}
    (hs : h.Succeeds now route s a u) (hquiet : h.Quiet) :
    seen now route (h >>= f) s = seen now route (f a) u := by
  have hyields := Program.yields_talk (Slate.answer now route) h.run s
  rw [hs] at hyields
  rw [seen_bind hs, hquiet _ a hyields]
  rfl

/-- What fails is seen, and nothing behind it. -/
theorem seen_bind_of_fails {h : Handler α} {e : ServiceError}
    (hfails : Program.run (Slate.answer now route) h.run s = (u, .error e))
    (f : α → Handler β) (g : α → Handler γ) :
    seen now route (h >>= f) s = seen now route (h >>= g) s := by
  rw [seen_bind hfails, seen_bind hfails]

/-- What a handler comes to in the end is not seen. -/
theorem seen_bind_pure (h : Handler α) (b : β) :
    seen now route (h >>= fun _ => pure b) s = seen now route h s := by
  cases hrun : Program.run (Slate.answer now route) h.run s with
  | mk u result =>
      rw [seen_bind hrun, seen_of_run hrun]
      cases result with
      | ok a => exact congrArg (Sight.mk u · (.ok ())) (List.append_nil _)
      | error e => exact congrArg (Sight.mk u · (.error e)) (List.append_nil _)

/-- What is reported at the end is seen. -/
theorem seen_reports (event : α → Report) (l : List α) (s : Slate) :
    seen now route (l.forM fun x => ask (.report (event x))) s
      = ⟨s, l.map event, .ok ()⟩ := by
  induction l with
  | nil => rfl
  | cons a rest ih =>
      have hcons : seen now route
          ((a :: rest).forM fun x => ask (.report (event x))) s
          = let rest := seen now route
              (rest.forM fun x => ask (.report (event x))) s
            { rest with reports := event a :: rest.reports } :=
        rfl
      rw [hcons, ih]
      rfl

end Handler

/-- An attempt asks what its handler asks. -/
theorem Call.talk_attempt (config : LockConfig) (call : Call) (now : Instant)
    (route : InstanceId → LockVersion) (s : Slate) :
    (call.attempt config).talk (Slate.answer now route) s
      = Program.talk (Slate.answer now route) (call.handler config).run s :=
  (Program.talk_bind ..).trans (List.append_nil _)

end MergeOnWrite
