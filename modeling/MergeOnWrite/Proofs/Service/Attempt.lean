/-
What an attempt at a request does by itself.

# Main statements

- `Call.safe_attempt_of_handler`: an attempt keeps to what its handler keeps
  to.
- `Call.safe_attempt`: left alone, an attempt at a request commits only its
  effect, and once if it succeeds.
-/
import MergeOnWrite.Proofs.Service.BitmapReading
import MergeOnWrite.Proofs.Service.Phases

namespace MergeOnWrite

namespace Call

/-- What a commit of a request does: after some readings of the clock, it
makes some entries of others. -/
def Effect (route : InstanceId → LockVersion) (config : LockConfig) :
    Call → List Instant → Draft → Prop
  | .acquireLock r, readings, d => ∃ i kind scopes now expiration,
    r.Effect route config i kind scopes now expiration readings d
  | .releaseLock r, _, d => ∃ i kind scopes, r.Effect route i kind scopes d
  | .updateBitmap r, readings, d => ∃ i kind, r.Effect route i kind readings d
  | .readBitmap _, _, _ => False
  | .removeBitmap r, _, d => ∃ i, r.Effect i d

/-- How an attempt ends: a request that changes the store has committed if
it succeeded, and nothing is committed otherwise. -/
def Settled (call : Call) (p : Progress) (response : Response call.Payload) :
    Prop :=
  p.commits = if response.status.code = .ok ∧ call.writes then 1 else 0

theorem code_ne_ok (e : ServiceError) : e.code ≠ .ok := by
  cases e with
  | store code context => cases code <;> exact nofun
  | _ => exact nofun

/-- An attempt keeps to what its handler keeps to. -/
theorem safe_attempt_of_handler {c : Contract} {config : LockConfig}
    {call : Call} {ends : Progress → call.Payload → Prop}
    (h : Handler.Safe c
      (fun p payload => (p.commits = if call.writes then 1 else 0)
        ∧ ends p payload) {} (call.handler config)) :
    Script.Safe c (fun p response => call.Settled p response
        ∧ (response.status.code = .ok → ends p response.payload)) {}
      (call.attempt config) := by
  refine Script.safe_bind (Script.safe_mono (fun p result hp => ?_) h)
  cases result with
  | ok payload =>
      obtain ⟨hcommits, hends⟩ : _ ∧ _ := hp
      refine ⟨?_, fun _ => hends⟩
      rw [Settled, hcommits]
      simp [Response.ofResult]
  | error e =>
      refine ⟨?_, fun hok => absurd hok (code_ne_ok e)⟩
      rw [Settled, show p.commits = 0 from hp, if_neg fun h => code_ne_ok e h.1]

/-- Left alone, an attempt at a request commits only its effect, and once
if it succeeds. -/
theorem safe_attempt (route : InstanceId → LockVersion) (config : LockConfig)
    (call : Call) :
    Script.Safe ⟨route, call.Effect route config⟩ call.Settled {}
      (call.attempt config) := by
  have hhandler : Handler.Safe ⟨route, call.Effect route config⟩
      (fun p _ => (p.commits = if call.writes then 1 else 0) ∧ True) {}
      (call.handler config) := by
    cases call with
    | acquireLock r =>
        exact Handler.safe_mono (fun p _ hp => ⟨hp, trivial⟩)
          (r.safe_acquireLock route config)
    | releaseLock r =>
        exact Handler.safe_mono (fun p _ hp => ⟨hp, trivial⟩)
          (r.safe_releaseLock route)
    | updateBitmap r =>
        refine Handler.safe_mono (fun p _ hp => ⟨hp, trivial⟩)
          (Handler.safe_allow (r.safe_updateBitmap route) rfl fun _ _ h => ?_)
        obtain ⟨i, kind, heffect, -⟩ := h
        exact ⟨i, kind, heffect⟩
    | readBitmap r =>
        exact Handler.safe_mono (fun p _ hp => ⟨hp.1, trivial⟩)
          (r.safe_readBitmap route)
    | removeBitmap r =>
        refine Handler.safe_mono (fun p _ hp => ⟨hp, trivial⟩)
          (Handler.safe_allow (r.safe_removeBitmap route) rfl fun _ _ h => ?_)
        obtain ⟨i, heffect, -⟩ := h
        exact ⟨i, heffect⟩
  exact Script.safe_mono (fun p response h => h.1)
    (safe_attempt_of_handler hhandler)

end Call

end MergeOnWrite
