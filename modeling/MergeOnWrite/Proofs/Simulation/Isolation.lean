/-
Tenants of one store, and what they notice of each other.

A request whose questions to the store are not refused, and whose service
nobody disturbs, runs as on a slate. So all that its handler keeps to as a
script holds of what comes of it: the response depends on the entries of its
own instance only, and so does what it makes of them; everything else stays
as it is, the entries of instances included whose names begin alike.

# Main statements

- `Script.unrefused_of_calm`: nothing is refused where no failure is due.
- `World.run_shows`: a run that is refused nothing is a run on a slate.
- `World.changesOnly_respond`: a request changes only what it may change.
- `World.get?_respond_of_other`: no record of another instance changes.
- `World.isolated`: on stores that agree on the keys of its instance a
  request has the same response and makes the same change, to no other keys.
-/
import MergeOnWrite.Proofs.Service.Slate
import MergeOnWrite.Proofs.Simulation.Drafts
import MergeOnWrite.Proofs.Simulation.Failures

namespace MergeOnWrite

-- ================================================== refusals

variable {α : Type}

/-- True of runs of scripts that are refused nothing. -/
def Script.Unrefused : Script α → World × Option Txn → Prop
  | .done _, _ => True
  | .ask q next, state =>
    let (state', x) := World.answerAlone state q
    q.refusal? x = none ∧ Script.Unrefused (next x) state'

theorem Script.unrefused_ask {q : Question} {next : q.Answer → Script α}
    {state : World × Option Txn} :
    Script.Unrefused (.ask q next) state
      ↔ q.refusal? (World.answerAlone state q).2 = none
        ∧ (next (World.answerAlone state q).2).Unrefused
          (World.answerAlone state q).1 :=
  Iff.rfl

/-- Where no failure is due, nothing is refused to a script that goes through
the phases of a transaction. -/
theorem Script.unrefused_of_calm {mayWrite : Bool}
    {ends : TxnPhase → α → Prop} {fails : StoreCode → α → Prop}
    {s : Script α} :
    ∀ {a : TxnPhase} {w : World} {txn : Option Txn},
      Script.Follows mayWrite ends fails a s → w.IsCalm →
      w.backing.faults = {} → World.Abreast w.backing.store a txn txn →
      s.Unrefused (w, txn) := by
  induction s with
  | done r => intro _ _ _ _ _ _ _; trivial
  | ask q next ih =>
      rintro a w txn ⟨a', ha', hnext⟩ hcalm hfaults habreast
      obtain ⟨events, -, hbeside⟩ :=
        World.answer_twins ⟨hcalm, hcalm, rfl, rfl, rfl, hfaults⟩ ha' habreast
      have hrest := hnext (World.answerAlone (w, txn) q).2
      rcases hbeside with hlike | ⟨code, hfail⟩
      · rw [hlike.answered] at hrest
        have hkeeps := World.keeps_answerAlone (w, txn)
          (TxnPhase.isPlain_of_next? ha')
        exact ⟨hlike.answered, ih _ hrest (hcalm.of_keeps hkeeps)
          hlike.faultless hlike.abreast⟩
      · exact absurd hfail.scripted (by rw [hfaults]; exact List.not_mem_nil)

/-- True when the store refuses nothing to an attempt at a request. -/
def World.RefusesNothing (w : World) (call : Call) : Prop :=
  Script.Unrefused (call.attempt w.config.lock) (w, none)

theorem World.refusesNothing_of_calm {w : World} (h : w.IsCalm)
    (hfaults : w.backing.faults = {}) (call : Call) : w.RefusesNothing call :=
  Script.unrefused_of_calm (call.follows_attempt w.config.lock) h hfaults
    trivial

-- ================================================== slates

namespace Slate

/-- How far a script has come that has a slate before it. -/
def progress (s : Slate) : Progress where
  draft := s.draft.map (Draft.mk s.live)

/-- Allows the commit of the draft at hand and of no other, so that a commit
that is granted tells what is live. -/
def contract (s : Slate) (route : InstanceId → LockVersion) : Contract where
  route
  commits _ d := s.progress.draft = some d

theorem progress_write (s : Slate) (change : Entries → Entries) :
    ({ s with draft := s.draft.map change } : Slate).progress
      = s.progress.write change := by
  rw [progress, progress, Progress.write]
  cases s.draft <;> rfl

/-- What is read of a draft, and is no failure, is read of the slate. -/
theorem eq_read {β : Type} {s : Slate} {look : Entries → β}
    {x : Except StoreCode β}
    (h : (∃ code, x = .error code)
      ∨ ∃ d, s.progress.draft = some d ∧ x = .ok (look d.after))
    (hx : ∀ code, x ≠ .error code) : x = s.read look := by
  rcases h with ⟨code, hcode⟩ | ⟨d, hd, hvalue⟩
  · exact absurd hcode (hx code)
  · obtain ⟨view, hview, rfl⟩ := Option.map_eq_some_iff.1 hd
    rw [hvalue, read, hview]

end Slate

/-- Handlers ask for no replay. -/
theorem Question.Within.isPlain {f : Footprint} {q : Question}
    (hq : q.Within f) : q.IsPlain := by
  cases q with
  | replay => exact hq.elim
  | _ => trivial

namespace World

/-- True of surroundings that hold what a slate does. -/
structure Shows (w : World) (txn : Option Txn) (s : Slate) : Prop where
  live : s.live = w.backing.store.live
  mirrors : w.Mirrors txn s.progress

variable {w : World} {txn : Option Txn} {s s' : Slate} {q : Question}
  {f : Footprint}

namespace Answered

variable {c : Contract} {p : Progress}

/-- What a question that is no commit leads to. -/
theorem shows {x : (World × Option Txn) × q.Answer}
    (h : w.Answered c s.progress q x p) (hlive : s.live = w.backing.store.live)
    (hcommits : p.commits = 0) (hkept : s'.live = s.live)
    (hdraft : p.draft = s'.progress.draft) : x.1.1.Shows x.1.2 s' := by
  refine ⟨?_, hdraft ▸ h.mirrors.draft, h.mirrors.snapshot⟩
  rcases h.live with ⟨hsame, -⟩ | ⟨hmore, -⟩
  · rw [hkept, hlive, hsame]
  · rw [hcommits] at hmore
    cases hmore

/-- A transaction begins with what is live. -/
theorem shows_start {x : (World × Option Txn) × Except StoreCode Unit}
    (h : w.Answered c s.progress .start x p)
    (hlive : s.live = w.backing.store.live) (hx : ∀ code, x.2 ≠ .error code) :
    x.2 = .ok () ∧ x.1.1.Shows x.1.2 { s with draft := some s.live } := by
  rcases h.answers with ⟨code, hcode, -⟩ | ⟨entries, hok, rfl⟩
  · exact absurd hcode (hx code)
  · have hview : entries = s.live := by
      obtain ⟨t, -, ht⟩ := Option.map_eq_some_iff.1 h.mirrors.draft.symm
      rcases h.live with ⟨hsame, -⟩ | ⟨hmore, -⟩
      · rw [hlive, ← hsame]
        exact (congrArg Draft.before ht).symm
      · cases hmore
    subst hview
    exact ⟨hok, h.shows hlive rfl rfl rfl⟩

/-- A commit leaves the draft. -/
theorem shows_commit {route : InstanceId → LockVersion}
    {x : (World × Option Txn) × Except StoreCode Unit}
    (h : w.Answered (s.contract route) s.progress .commit x p)
    (hx : ∀ code, x.2 ≠ .error code) :
    ∃ view, s.draft = some view ∧ x.2 = .ok ()
      ∧ x.1.1.Shows x.1.2 { live := view } := by
  rcases h.answers with ⟨code, hcode, -⟩ | ⟨hopen, hok, rfl⟩
  · exact absurd hcode (hx code)
  · obtain ⟨d, hd⟩ := Option.isSome_iff_exists.1 hopen
    obtain ⟨view, hview, rfl⟩ := Option.map_eq_some_iff.1 hd
    have hlive : view = x.1.1.backing.store.live := by
      rcases h.live with ⟨-, hmore⟩ | ⟨-, hallowed⟩
      · exact absurd hmore (Nat.succ_ne_self _)
      · exact congrArg Draft.after (Option.some.inj (hd.symm.trans hallowed))
    exact ⟨view, hview, hok, hlive, h.mirrors.draft, h.mirrors.snapshot⟩

end Answered

/-- A question that is not refused is answered as on the slate. -/
theorem answer_shows (hq : q.Within f) (h : w.Shows txn s)
    (hx : q.refusal? (answerAlone (w, txn) q).2 = none) :
    (answerAlone (w, txn) q).2
        = (s.answer w.clock.now w.allowList.versionFor q).2
      ∧ (answerAlone (w, txn) q).1.1.Shows (answerAlone (w, txn) q).1.2
        (s.answer w.clock.now w.allowList.versionFor q).1 := by
  by_cases hnow : q = .now
  · subst hnow
    exact ⟨rfl, h⟩
  obtain ⟨p, hp⟩ := answers_of_ne_now (c := s.contract w.allowList.versionFor)
    (fun _ => rfl) h.mirrors hq.isPlain hnow fun _ _ => id
  generalize answerAlone (w, txn) q = x at hp hx ⊢
  have hanswers := hp.answers
  cases q with
  | now => exact absurd rfl hnow
  | route i =>
      obtain ⟨hversion, rfl⟩ := hanswers
      exact ⟨hversion, hp.shows h.live rfl rfl rfl⟩
  | report event =>
      obtain rfl := hanswers
      exact ⟨rfl, hp.shows h.live rfl rfl rfl⟩
  | start =>
      refine hp.shows_start h.live fun code hcode => ?_
      rw [hcode] at hx
      cases hx
  | get key | scan stem =>
      obtain ⟨rfl, hread⟩ := hanswers
      refine ⟨Slate.eq_read hread fun code hcode => ?_,
        hp.shows h.live rfl rfl rfl⟩
      rw [hcode] at hx
      cases hx
  | put key value | remove key =>
      obtain rfl := hanswers
      exact ⟨rfl, hp.shows h.live rfl rfl
        (congrArg Progress.draft (s.progress_write _).symm)⟩
  | commit =>
      have hne : ∀ code, x.2 ≠ .error code := fun code hcode => by
        rw [hcode] at hx
        cases hx
      obtain ⟨view, hview, hok, hshows⟩ := hp.shows_commit hne
      simp only [Slate.answer, hview]
      exact ⟨hok, hshows⟩
  | jitter | pause | chance | spread | replay => exact hq.elim

/-- A run that is refused nothing is a run on a slate: it asks the same and is
answered the same. -/
theorem run_shows {ends : α → Prop} {script : Script α} :
    ∀ {w : World} {txn : Option Txn} {s : Slate} {now : Instant}
      {route : InstanceId → LockVersion},
      w.clock.now = now → w.allowList.versionFor = route →
      Script.Within route f ends script → script.Unrefused (w, txn) →
      w.Shows txn s →
      (script.run answerAlone (w, txn)).2
          = (script.run (Slate.answer now route) s).2
        ∧ (script.run answerAlone (w, txn)).1.1.Shows
          (script.run answerAlone (w, txn)).1.2
          (script.run (Slate.answer now route) s).1
        ∧ script.talk answerAlone (w, txn)
          = script.talk (Slate.answer now route) s := by
  induction script with
  | done a => exact fun _ _ _ _ h => ⟨rfl, h, rfl⟩
  | ask q next ih =>
      rintro w txn s _ _ rfl rfl ⟨hq, hnext⟩ ⟨hx, hrest⟩ h
      obtain ⟨hanswer, hshows⟩ := answer_shows hq h hx
      have hkeeps := keeps_answerAlone (w, txn) hq.isPlain
      have hmay := Slate.mayAnswer w.clock.now w.allowList.versionFor s q
      rw [← hanswer] at hmay
      rw [Program.run_ask, Program.run_ask, Program.talk, Program.talk,
        ← hanswer]
      obtain ⟨hresult, hleft, htalk⟩ := ih _
        (congrArg SimulatedClock.now hkeeps.clock)
        (congrArg AllowList.versionFor hkeeps.allowList) (hnext _ hmay) hrest
        hshows
      exact ⟨hresult, hleft, congrArg (List.cons _) htalk⟩

-- ================================================== tenants

/-- What comes of a request that nobody disturbs, and that is refused
nothing, is what comes of it on a slate. -/
theorem respond_shows (h : w.IsLone) {call : Call}
    (hserved : w.RefusesNothing call) :
    ∃ slate response, (call.attempt w.config.lock).run
        (Slate.answer w.clock.now w.allowList.versionFor)
        { live := w.backing.store.live } = (slate, response)
      ∧ (w.respond true call).2 = response
      ∧ (w.respond true call).1.backing.store.live = slate.live := by
  have hrun : w.respond true call = _ := runForeground_ofScript
    (Script.asks_of_follows (call.follows_attempt w.config.lock)) h
  have hstart : w.Shows none { live := w.backing.store.live } :=
    ⟨rfl, rfl, nofun⟩
  obtain ⟨hresponse, hshows, -⟩ :=
    run_shows rfl rfl (call.within_attempt w.config.lock) hserved hstart
  refine ⟨_, _, rfl, ?_, ?_⟩
  · exact (congrArg Prod.snd hrun).trans hresponse
  · exact (congrArg (·.1.backing.store.live) hrun).trans hshows.live.symm

/-- What a request changes lies within its footprint, and so among the keys
of its instance. -/
theorem changesOnly_respond (h : w.IsLone) {call : Call}
    (hserved : w.RefusesNothing call) :
    w.backing.store.live.ChangesOnly
      (fun key =>
        call.stem <+: key ∧ call.MayChange w.allowList.versionFor key)
      (w.respond true call).1.backing.store.live := by
  obtain ⟨slate, response, hrun, -, hlive⟩ := respond_shows h hserved
  have hconfined := Slate.run_confined w.clock.now
    (call.within_attempt w.config.lock)
    (Slate.confined_live (call.footprint w.allowList.versionFor)
      w.backing.store.live)
  rw [hrun] at hconfined
  intro key hkey
  rw [hlive] at hkey
  have hmay := hconfined.live key hkey
  exact ⟨Call.extends_of_mayChange hmay, hmay⟩

/-- No record of another instance changes, however alike the names are. -/
theorem get?_respond_of_other (h : w.IsLone) {call : Call}
    (hserved : w.RefusesNothing call) {key : StoreKey}
    (hkey : key.owner.IsValid) (hother : key.owner.text ≠ call.instanceName) :
    (w.respond true call).1.backing.store.live.get? key.bytes
      = w.backing.store.live.get? key.bytes := by
  refine Decidable.of_not_not fun hne => hother ?_
  have hmay := (changesOnly_respond h hserved key.bytes hne).2
  exact InstanceId.text_of_ofText (Call.owner_of_mayChange _ hkey hmay)

/-- A request notices nothing of what there is of other instances, and does
nothing to it: on stores that agree on the keys of its own instance it has
the same response, they agree on those keys afterwards, and each store has
changed there only, and only where the request may change something. -/
theorem isolated (call : Call) {w v : World} (hw : w.IsLone) (hv : v.IsLone)
    (hserved : w.RefusesNothing call) (hserved' : v.RefusesNothing call)
    (hclock : w.clock = v.clock) (hconfig : w.config.lock = v.config.lock)
    (hroute : w.allowList = v.allowList)
    (hagree : w.backing.store.live.AgreeOn (call.stem <+: ·)
      v.backing.store.live) :
    (w.respond true call).2 = (v.respond true call).2
      ∧ (w.respond true call).1.backing.store.live.AgreeOn (call.stem <+: ·)
        (v.respond true call).1.backing.store.live
      ∧ w.backing.store.live.ChangesOnly
        (fun key =>
          call.stem <+: key ∧ call.MayChange w.allowList.versionFor key)
        (w.respond true call).1.backing.store.live
      ∧ v.backing.store.live.ChangesOnly
        (fun key =>
          call.stem <+: key ∧ call.MayChange w.allowList.versionFor key)
        (v.respond true call).1.backing.store.live := by
  obtain ⟨slate, response, hrun, hresponse, hlive⟩ := respond_shows hw hserved
  obtain ⟨slate', response', hrun', hresponse', hlive'⟩ :=
    respond_shows hv hserved'
  rw [← hclock, ← hconfig, ← hroute] at hrun'
  have hstart : Slate.Agrees (call.footprint w.allowList.versionFor)
      { live := w.backing.store.live } { live := v.backing.store.live } :=
    ⟨hagree, .none⟩
  obtain ⟨hsame, hagrees⟩ := Slate.run_alike w.clock.now
    (call.within_attempt w.config.lock) hstart
  rw [hrun, hrun'] at hsame hagrees
  refine ⟨?_, ?_, changesOnly_respond hw hserved, ?_⟩
  · rw [hresponse, hresponse']
    exact hsame
  · rw [hlive, hlive']
    exact hagrees.live
  · rw [hroute]
    exact changesOnly_respond hv hserved'

/-- The lock of a tenant whose name begins like that of another one. -/
def neighboursLock : Bytes := StoreKey.bytes (.lock ⟨"acme2"⟩ (.table ⟨1⟩))

/-- A service for one tenant, which has statistics of a tablet. -/
def unshared : World where
  config := {}
  backing.store := Store.write {} (StoreKey.bytes (.stats ⟨"acme"⟩ ⟨1⟩ ⟨2⟩))
    (some (TabletStats.encode ⟨2, 3, 5⟩))

/-- The same with a neighbour. -/
def shared : World :=
  { unshared with
    backing.store := unshared.backing.store.write neighboursLock (some [0]) }

/-- Takes the lock of a table and asks for the statistics of a tablet. -/
abbrev lockAcme : Call :=
  .acquireLock { instanceName := "acme", table := ⟨1⟩, tablets := [⟨2⟩],
                 lockId := 7, wantsStats := true }

/-- A neighbour with bytes that are no lock record is not noticed, and keeps
them. -/
theorem isolated_neighbours :
    (shared.respond true lockAcme).2 = (unshared.respond true lockAcme).2
      ∧ (shared.respond true lockAcme).2.payload = [⟨2, 3, 5⟩]
      ∧ (shared.respond true lockAcme).1.backing.store.live.get?
        neighboursLock = some [0] := by
  have hw : shared.IsCalm := ⟨⟨rfl, rfl, rfl, rfl, rfl⟩, rfl, rfl⟩
  have hv : unshared.IsCalm := ⟨⟨rfl, rfl, rfl, rfl, rfl⟩, rfl, rfl⟩
  have hforeign : ¬ lockAcme.stem <+: neighboursLock := by decide +kernel
  have hagree : shared.backing.store.live.AgreeOn (lockAcme.stem <+: ·)
      unshared.backing.store.live := by
    intro key hkey
    refine @Store.get?_live_of_unwritten key _ [_] fun writes hmem => ?_
    obtain rfl := List.mem_singleton.1 hmem
    have hne : key ≠ neighboursLock := fun heq => hforeign (heq ▸ hkey)
    rw [SortedMap.get?_insert_of_ne _ _ hne]
    rfl
  obtain ⟨hresponse, -, hchanges, -⟩ := isolated lockAcme hw.lone hv.lone
    (refusesNothing_of_calm hw rfl _) (refusesNothing_of_calm hv rfl _) rfl rfl
    rfl hagree
  refine ⟨hresponse, by decide +kernel, ?_⟩
  have hkept : (shared.respond true lockAcme).1.backing.store.live.get?
      neighboursLock = shared.backing.store.live.get? neighboursLock :=
    Decidable.of_not_not fun hne => hforeign (hchanges _ hne).1
  rw [hkept]
  decide +kernel

end World

end MergeOnWrite
