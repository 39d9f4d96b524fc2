/-
Replays in the background.

A replay waits for its time, and then makes an attempt. If what its request
has brought about still stands, the attempt has no effect, and then the same
holds of all other replays that wait. So whatever turns pass, and however
often virtual time moves, nothing that callers see changes.

# Main statements

- `World.runBackground_idle`: a replay whose request stands has no effect.
- `World.Replaying.turn`: a turn of such replays.
- `World.Replaying.sleep`, `World.Replaying.settle`,
  `World.Replaying.advance`: waits during which they go on.
-/
import MergeOnWrite.Proofs.Simulation.Stretches

namespace MergeOnWrite

-- ================================================== replays

/-- What is left of the course of a replay once it has begun. -/
def Call.replay (w : World) (call : Call) : Course Unit :=
  (Course.ofScript w.pace (call.attempt w.config.lock)).bind fun _ => .done ()

namespace World

variable {w v : World} {later : List Call} {b : Background}

/-- True of replays of a request, whether or not they have waited for their
time. -/
def IsReplay (w : World) (call : Call) (b : Background) : Prop :=
  b.txn = none
    ∧ (b.course = call.replay w
      ∨ ∃ ms, b.course = .ask (.sleep ms) fun _ => call.replay w)

/-- True of replays without effect, as long as nothing but some requests takes
place: what their request has brought about stands, and none of those takes
it back. -/
def IsIdle (later : List Call) (w : World) (b : Background) : Prop :=
  ∃ call, w.IsReplay call b ∧ w.HasStanding call
    ∧ ∀ other ∈ later, ¬ other.Undoes w.allowList.versionFor call

/-- True of the replays that go on sooner or later. -/
def Pends (w : World) (b : Background) : Prop :=
  b ∈ w.ready ∨ (∃ time, (time, some b) ∈ w.waits) ∨ some b ∈ w.givenWay

/-- True of surroundings where replays without effect go on. -/
structure Replaying (replay : ReplayConfig) (later : List Call)
    (w : World) : Prop where
  prompt : w.IsPrompt
  config : w.config.replay = replay
  idle : ∀ b, w.Pends b → w.IsIdle later b

theorem IsIdle.of_looksLike (h : w.IsIdle later b) (hlike : w.LooksLike v) :
    v.IsIdle later b := by
  obtain ⟨call, hreplay, hstands, hlater⟩ := h
  refine ⟨call, ?_, hstands.of_looksLike hlike, hlike.allowList ▸ hlater⟩
  unfold IsReplay Call.replay at hreplay ⊢
  rwa [← hlike.pace, ← hlike.lock]

variable {replay : ReplayConfig}

/-- Surroundings where nobody else goes on than in others. -/
theorem Replaying.of_pends (h : w.Replaying replay later) (hprompt : v.IsPrompt)
    (hconfig : v.config.replay = w.config.replay) (hlike : w.LooksLike v)
    (hpends : ∀ b, v.Pends b → w.Pends b ∨ v.IsIdle later b) :
    v.Replaying replay later := by
  refine ⟨hprompt, hconfig.trans h.config, fun b hb => ?_⟩
  rcases hpends b hb with hpends | hidle
  · exact (h.idle b hpends).of_looksLike hlike
  · exact hidle

/-- What a replay or a turn leaves: the same, as callers see it. -/
structure Rests (replay : ReplayConfig) (later : List Call) (w w' : World) :
    Prop where
  replaying : w'.Replaying replay later
  like : w.LooksLike w'

theorem Rests.trans {u : World} (h : w.Rests replay later v)
    (h' : v.Rests replay later u) : w.Rests replay later u :=
  ⟨h'.replaying, h.like.trans h'.like⟩

theorem Replaying.rests (h : w.Replaying replay later) :
    w.Rests replay later w := ⟨h, .refl w⟩

/-- An attempt without effect. -/
theorem Replaying.rests_attempt (h : w.Replaying replay later) {call : Call}
    (hstands : w.HasStanding call) {w' : World}
    {response : Response call.Payload}
    (hattempted : w.Attempted w' call response) :
    w.Rests replay later w' := by
  have hlike : w.LooksLike w' :=
    ⟨congrArg (·.lock) hattempted.config.symm,
      congrArg (·.retry) hattempted.config.symm, hattempted.pace.symm,
      hattempted.clock.symm, hattempted.allowList.symm,
      hattempted.pauses.symm, hattempted.rivalAnswers.symm,
      (hattempted.live.trans (live_outcome_of_standing hstands)).symm⟩
  refine ⟨h.of_pends hattempted.prompt (congrArg (·.replay) hattempted.config)
    hlike fun b hb => .inl ?_, hlike⟩
  unfold Pends at hb ⊢
  rwa [hattempted.ready, hattempted.waits, hattempted.givenWay] at hb

/-- Virtual time may move, and others may wait, as long as nobody goes on but
replays without effect. -/
theorem Replaying.reschedule (h : w.Replaying replay later)
    (hsame : v = { w with
      time := v.time
      settled := v.settled
      ready := v.ready
      waits := v.waits
      givenWay := v.givenWay })
    (hpends : ∀ b, v.Pends b → w.Pends b ∨ w.IsIdle later b) :
    w.Rests replay later v := by
  have hlike : w.LooksLike v := by
    rw [hsame]
    exact ⟨rfl, rfl, rfl, rfl, rfl, rfl, rfl, rfl⟩
  have hprompt : v.IsPrompt := by
    rw [hsame]
    exact h.prompt.of_same rfl rfl rfl rfl rfl
  have hconfig : v.config.replay = w.config.replay := by rw [hsame]
  exact ⟨h.of_pends hprompt hconfig hlike fun b hb =>
    (hpends b hb).imp_right (·.of_looksLike hlike), hlike⟩

/-- Somebody waits. -/
theorem Replaying.rests_addWait (h : w.Replaying replay later) (ms : Nat)
    (waiter : Waiter) (hwaiter : ∀ b, waiter = some b → w.IsIdle later b) :
    w.Rests replay later (w.addWait ms waiter) := by
  refine h.reschedule rfl fun b hb => ?_
  rcases hb with hready | ⟨time, hwaits⟩ | hgiven
  · exact .inl (.inl hready)
  · rcases List.mem_append.1 hwaits with hwaits | hnew
    · exact .inl (.inr (.inl ⟨time, hwaits⟩))
    · obtain ⟨-, heq⟩ := Prod.mk.inj (List.mem_singleton.1 hnew)
      exact .inr (hwaiter b heq.symm)
  · exact .inl (.inr (.inr hgiven))

/-- A replay whose request stands has no effect, whether it waits or makes its
attempt. -/
theorem runBackground_idle (h : w.Replaying replay later)
    (hb : w.IsIdle later b) :
    w.Rests replay later (w.runBackground b.txn b.course) := by
  obtain ⟨call, ⟨htxn, hcourse⟩, hstands, hlater⟩ := hb
  have hattempt : w.runBackground none (call.replay w)
      = ((call.attempt w.config.lock).run answerAlone (w, none)).1.1 :=
    runBackground_of_goes (s := (w, none)) (Course.goes_ofScript none h.prompt
      (call.follows_attempt w.config.lock))
  have hrests : w.Rests replay later (w.runBackground none (call.replay w)) := by
    rw [hattempt]
    exact h.rests_attempt hstands (attempted h.prompt call)
  rw [htxn]
  rcases hcourse with hcourse | ⟨ms, hcourse⟩
  · rw [hcourse]
    exact hrests
  · -- it may still have to wait, and then it is the same replay as before
    rw [hcourse, runBackground]
    split
    · exact hrests
    · refine h.rests_addWait ms _ ?_
      intro b heq
      obtain rfl := Option.some.inj heq
      exact ⟨call, ⟨rfl, .inl rfl⟩, hstands, hlater⟩

-- ================================================== turns

/-- Some replays go on, one after another. -/
theorem foldl_runBackground :
    ∀ (bs : List Background) {w : World}, w.Replaying replay later →
      (∀ b ∈ bs, w.IsIdle later b) →
      w.Rests replay later
        (bs.foldl (fun w b => w.runBackground b.txn b.course) w) := by
  intro bs
  induction bs with
  | nil => exact fun h _ => h.rests
  | cons b rest ih =>
      intro w h hidle
      have hfirst := runBackground_idle h (hidle b List.mem_cons_self)
      refine hfirst.trans (ih hfirst.replaying fun b' hb' => ?_)
      exact (hidle b' (List.mem_cons_of_mem _ hb')).of_looksLike hfirst.like

theorem Replaying.runReady (h : w.Replaying replay later) :
    w.Rests replay later w.runReady := by
  have hnone : w.Rests replay later { w with ready := [] } := by
    refine h.reschedule rfl fun b hb => .inl ?_
    rcases hb with hready | hwaits
    · cases hready
    · exact .inr hwaits
  exact hnone.trans (foldl_runBackground w.ready hnone.replaying fun b hb =>
    (h.idle b (.inl hb)).of_looksLike hnone.like)

/-- Who goes on after a wait has waited, or has given way. -/
theorem pends_wake (w : World) (hb : w.wake.1.Pends b) : w.Pends b := by
  rcases hb with hready | ⟨time, hwaits⟩ | hgiven
  · rcases List.mem_append.1 hready with hready | hwoken
    · exact .inl hready
    · obtain ⟨waiter, hwaiter, heq⟩ := List.mem_filterMap.1 hwoken
      obtain rfl : waiter = some b := heq
      rcases List.mem_append.1 hwaiter with hdue | hgiven
      · obtain ⟨⟨time, _⟩, hwait, rfl⟩ := List.mem_map.1 hdue
        exact .inr (.inl ⟨time,
          (List.mem_filter.1 (List.mem_mergeSort.1 hwait)).1⟩)
      · exact .inr (.inr hgiven)
  · exact .inr (.inl ⟨time, (List.mem_filter.1 hwaits).1⟩)
  · cases hgiven

/-- Virtual time moves, and waits end. -/
theorem Replaying.wake (h : w.Replaying replay later) (time : Nat) :
    w.Rests replay later { w with time }.wake.1 :=
  h.reschedule rfl fun _ hb => .inl (pends_wake { w with time } hb)

/-- A turn of replays without effect. -/
theorem Replaying.turn (h : w.Replaying replay later) :
    w.Rests replay later w.turn.1 :=
  h.runReady.trans (h.runReady.replaying.wake _)

-- ================================================== waits

theorem Replaying.await :
    ∀ (fuel : Nat) {w : World}, w.Replaying replay later →
      w.Rests replay later (await fuel w) := by
  intro fuel
  induction fuel with
  | zero => exact fun h => h.rests
  | succ fuel ih =>
      intro w h
      have hturn := h.turn
      rw [World.await]
      generalize w.turn = x at hturn ⊢
      obtain ⟨w', goes⟩ := x
      cases goes with
      | true => exact hturn
      | false => exact hturn.trans (ih hturn.replaying)

theorem Replaying.sleep (h : w.Replaying replay later) (ms : Nat) :
    w.Rests replay later (w.sleep ms) := by
  unfold World.sleep
  split
  · exact h.rests
  · have hwait := h.rests_addWait ms none nofun
    exact hwait.trans (hwait.replaying.await _)

theorem Replaying.giveWay (h : w.Replaying replay later) :
    w.Rests replay later w.giveWay := by
  have hgiven : w.Rests replay later (w.addGivenWay none) := by
    refine h.reschedule rfl fun b hb => .inl ?_
    rcases hb with hready | hwaits | hgiven
    · exact .inl hready
    · exact .inr (.inl hwaits)
    · rcases List.mem_cons.1 hgiven with heq | hgiven
      · cases heq
      · exact .inr (.inr hgiven)
  exact hgiven.trans hgiven.replaying.turn

theorem Replaying.settle (h : w.Replaying replay later) :
    w.Rests replay later w.settle := by
  have hrepeat : ∀ n, w.Rests replay later (Nat.repeat World.giveWay n w) := by
    intro n
    induction n with
    | zero => exact h.rests
    | succ n ih => exact ih.trans ih.replaying.giveWay
  exact hrepeat _

theorem Replaying.advance (h : w.Replaying replay later) (ms : Nat) :
    w.Rests replay later (w.advance ms) := by
  have hmoved : w.Rests replay later { w with time := w.time + ms } :=
    h.reschedule rfl fun b hb => .inl hb
  exact hmoved.trans hmoved.replaying.giveWay

end World

end MergeOnWrite
