/-
A request that is made twice in a row.

Where nobody else is about, and the store refuses nothing, an attempt at a
request runs as on a slate, and there it is known what comes of it when it is
made again. Of the first attempt nothing has to be taken for granted but that
it succeeded: what the store refuses ends a handler with an error, so an
attempt that succeeds was refused nothing.

# Main statements

- `World.refusesNothing_of_ok`: an attempt that succeeds was refused nothing.
- `World.respond_again`: a request that succeeded succeeds again, with the
  same response, and leaves all that is stored as it is.
-/
import MergeOnWrite.Proofs.Service.Repeat
import MergeOnWrite.Proofs.Simulation.Isolation

namespace MergeOnWrite

-- ================================================== attempts

/-- A clock shows no leap seconds. -/
theorem SimulatedClock.nano_lt (clock : SimulatedClock) :
    clock.now.nano < 1000000000 := by
  unfold now Instant.addMillis
  dsimp only
  omega

-- ================================================== refusals

/-- A script that ends as it may where nothing is refused was refused
nothing. -/
theorem Script.unrefused_of_ends {α : Type} (good : α → Prop)
    {mayWrite : Bool} {ends : TxnPhase → α → Prop}
    {fails : StoreCode → α → Prop}
    (hfails : ∀ code x, fails code x → ¬ good x) {s : Script α} {a : TxnPhase}
    {state : World × Option Txn} (h : Script.Follows mayWrite ends fails a s)
    (hgood : good (s.run World.answerAlone state).2) : s.Unrefused state := by
  refine Script.Follows.run_induction World.answerAlone
    (motive := fun _ state s => good (s.run World.answerAlone state).2 →
      s.Unrefused state) ?ended ?refused ?goesOn state h hgood
  case ended => exact fun _ _ _ => trivial
  case refused =>
    intro a b q next code y state _ _ hdone hy hgood
    rw [Program.run_ask, hdone] at hgood
    exact absurd hgood (hfails code y hy)
  case goesOn => exact fun _ _ hnone ih hgood => ⟨hnone, ih hgood⟩

namespace World

variable {w : World}

/-- The attempt at a request that nobody disturbs is its run. -/
theorem respond_direct (h : w.IsLone) (call : Call) :
    w.respond true call
      = (((call.attempt w.config.lock).run answerAlone (w, none)).1.1,
        ((call.attempt w.config.lock).run answerAlone (w, none)).2) :=
  runForeground_ofScript
    (Script.asks_of_follows (call.follows_attempt w.config.lock)) h

/-- An attempt that succeeds was refused nothing. -/
theorem refusesNothing_of_ok (h : w.IsLone) {call : Call}
    (hok : (w.respond true call).2.status.code = .ok) :
    w.RefusesNothing call := by
  rw [respond_direct h] at hok
  refine Script.unrefused_of_ends (·.status.code = .ok) ?_
    (call.follows_attempt w.config.lock) hok
  rintro code _ ⟨context, rfl⟩
  exact Call.code_ne_ok (.store code context)

/-- What an attempt at a request leaves as it is. -/
theorem keeps_respond_direct (h : w.IsLone) (call : Call) :
    w.Keeps (w.respond true call).1 := by
  rw [respond_direct h]
  exact keeps_run
    (Script.asks_of_follows (call.follows_attempt w.config.lock)) (w, none)

-- ================================================== twice

/-- A request that succeeded, and is made again before anything else happens,
succeeds again where the store refuses nothing: the response is the same, and
all that is stored stays as it is. -/
theorem respond_again (call : Call) {w : World} (h : w.IsLone)
    (hok : (w.respond true call).2.status.code = .ok)
    (hserved : (w.respond true call).1.RefusesNothing call) :
    ((w.respond true call).1.respond true call).2 = (w.respond true call).2
      ∧ ((w.respond true call).1.respond true call).1.backing.store.live
        = (w.respond true call).1.backing.store.live := by
  obtain ⟨slate, response, hrun, hresponse, hlive⟩ :=
    respond_shows h (refusesNothing_of_ok h hok)
  have hkeeps := keeps_respond_direct h call
  obtain ⟨slate', response', hrun', hresponse', hlive'⟩ :=
    respond_shows (hkeeps.lone h) hserved
  rw [hkeeps.clock, hkeeps.allowList, hkeeps.config, hlive] at hrun'
  rw [hresponse] at hok
  obtain ⟨hfirst, hstatus⟩ := Call.succeeds_of_ok hrun hok
  obtain ⟨again, hagain, hsame⟩ :=
    Call.succeeds_again w.clock.nano_lt hfirst
  rw [Call.run_attempt_of_succeeds hagain, ← hstatus] at hrun'
  obtain ⟨rfl, rfl⟩ := Prod.mk.inj hrun'
  exact ⟨hresponse'.trans hresponse.symm,
    hlive'.trans (hsame.trans hlive.symm)⟩

/-- The lock of a table is acquired, which changes what is stored, and then
acquired again, which does not. -/
theorem respond_again_lock :
    (unshared.respond true lockAcme).1.backing.store.live.size = 2
      ∧ ((unshared.respond true lockAcme).1.respond true lockAcme).2
        = ⟨{}, [⟨2, 3, 5⟩]⟩
      ∧ ((unshared.respond true lockAcme).1.respond true
          lockAcme).1.backing.store.live
        = (unshared.respond true lockAcme).1.backing.store.live := by
  have hcalm : unshared.IsCalm := ⟨⟨rfl, rfl, rfl, rfl, rfl⟩, rfl, rfl⟩
  have hok : (unshared.respond true lockAcme).2.status.code = .ok := by
    decide +kernel
  have hfaults :
      (unshared.respond true lockAcme).1.backing.faults = {} := by
    decide +kernel
  obtain ⟨hresponse, hlive⟩ := respond_again lockAcme hcalm.lone hok
    (refusesNothing_of_calm
      (hcalm.of_keeps (keeps_respond_direct hcalm.lone lockAcme)) hfaults _)
  refine ⟨by decide +kernel, ?_, hlive⟩
  rw [hresponse]
  obtain ⟨hfirst, hpayload⟩ :
      (unshared.respond true lockAcme).2.status = {}
        ∧ (unshared.respond true lockAcme).2.payload = [⟨2, 3, 5⟩] := by
    decide +kernel
  rw [← hfirst, ← hpayload]

end World

end MergeOnWrite
