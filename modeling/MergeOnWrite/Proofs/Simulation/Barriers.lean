/-
Sessions at a barrier are runs of its calls.

A session in the foreground and the closes that it starts in the background
take turns by rules of their own. Whatever they come to, each close is a call
at the barrier, and all they do together is some sequence of moves: a close
calls, a close has a look, time passes. So what every such sequence keeps to
holds of the sessions.

# The argument

A close in the background is matched with the place of its call
(`Follows`). A look of such a close is a move at its place and leaves all
other places alone (`Leads`), which is how a close in the foreground, of which
the session keeps nothing, finds its call again when its wait is over.

# Main statements

- `follows_step`: every step of a session is a sequence of moves.
- `closes_exact`: what the barrier promises, of every sequence of calls,
  looks and passing time, and so of every session.
-/
import Mathlib.Data.List.Induction
import MergeOnWrite.Proofs.Calc.Closing
import MergeOnWrite.Simulation.BarrierSession

namespace MergeOnWrite

namespace Closing

/-- True when some moves make one state of another. -/
def Reaches (c next : Closing) : Prop := ∃ moves, next = c.after moves

/-- True when moves do that which leave the calls at other places alone. -/
def Leads (places : List Nat) (c next : Closing) : Prop :=
  c.Reaches next ∧ ∀ i, i ∉ places → next.calls[i]? = c.calls[i]?

variable {c next last : Closing} {places : List Nat}

theorem reaches_step (c : Closing) (move : Move) : c.Reaches (c.step move) :=
  ⟨[move], rfl⟩

theorem Reaches.trans (h : c.Reaches next) (h' : next.Reaches last) :
    c.Reaches last := by
  obtain ⟨moves, rfl⟩ := h
  obtain ⟨rest, rfl⟩ := h'
  exact ⟨moves ++ rest, List.foldl_append.symm⟩

/-- A call stays where it is. -/
theorem Reaches.call (h : c.Reaches next) {i : Nat} {call : CloseCall}
    (hcall : c.calls[i]? = some call) :
    ∃ result, next.calls[i]? = some { call with result } := by
  obtain ⟨moves, rfl⟩ := h
  induction moves generalizing c call with
  | nil => exact ⟨call.result, hcall⟩
  | cons move rest ih =>
      obtain ⟨result, hstep, -⟩ := call_step hcall move
      have hrest := ih hstep
      exact hrest

theorem Leads.refl : Leads places c c := ⟨⟨[], rfl⟩, fun _ _ => rfl⟩

theorem Leads.trans (h : Leads places c next) (h' : Leads places next last) :
    Leads places c last :=
  ⟨h.1.trans h'.1, fun i hi => (h'.2 i hi).trans (h.2 i hi)⟩

theorem Leads.mono {more : List Nat} (h : Leads places c next)
    (hmore : ∀ i ∈ places, i ∈ more) : Leads more c next :=
  ⟨h.1, fun i hi => h.2 i fun hmem => hi (hmore i hmem)⟩

/-- A look touches no other place. -/
theorem leads_goOn (c : Closing) (i : Nat) :
    Leads [i] c (c.step (.goOn i)) := by
  refine ⟨c.reaches_step _, fun j hj => ?_⟩
  rcases c.step_goOn i with hstep | ⟨_, _, result, _, _, _, _, hstep⟩
  · rw [hstep]
  · rw [hstep, calls_conclude, if_neg]
    exact fun heq => hj (List.mem_singleton.2 heq.symm)

theorem leads_pass (c : Closing) (ms : Nat) :
    Leads places c (c.step (.pass ms)) :=
  ⟨c.reaches_step _, fun _ _ => rfl⟩

end Closing

namespace BarrierSession

/-- The session after some steps. -/
def after (s : BarrierSession) (steps : List BarrierStep) : BarrierSession :=
  steps.foldl (fun s step => (s.step step).1) s

/-- True of a close in the background and the place of its call. -/
def IsAt (c : Closing) (b : BackgroundClose) (place : Nat) : Prop :=
  ∃ call, c.calls[place]? = some call ∧ call.result = b.result
    ∧ (b.result = none → call.wait? = some b.wait)

/-- True when a session and the calls at a barrier have come to the same. -/
structure Shares (c : Closing) (s : BarrierSession) : Prop where
  barrier_eq : c.barrier = s.barrier
  time_eq : c.time = s.time
  reports_eq : c.reports = s.reports

/-- True when moreover each close in the background has a place of its own
among the calls. -/
structure Follows (c : Closing) (s : BarrierSession) (places : List Nat) :
    Prop extends Shares c s where
  nodup : places.Nodup
  closes : List.Forall₂ (IsAt c) s.closes places

-- ================================================== looks

section Looks

variable {c : Closing} {s : BarrierSession} {places : List Nat}

theorem IsAt.congr {c' : Closing} {b : BackgroundClose} {i : Nat}
    (h : IsAt c b i) (hcalls : c'.calls[i]? = c.calls[i]?) : IsAt c' b i := by
  obtain ⟨call, hcall, hrest⟩ := h
  exact ⟨call, hcalls.trans hcall, hrest⟩

theorem isAt_congr {c' : Closing} {closes : List BackgroundClose}
    (h : List.Forall₂ (IsAt c) closes places)
    (hcalls : ∀ i ∈ places, c'.calls[i]? = c.calls[i]?) :
    List.Forall₂ (IsAt c') closes places := by
  induction h with
  | nil => exact .nil
  | cons hb _ ih =>
      refine .cons (hb.congr (hcalls _ (List.mem_cons_self ..))) (ih ?_)
      exact fun i hi => hcalls i (List.mem_cons_of_mem _ hi)

theorem isAt_split {front back : List BackgroundClose}
    (h : List.Forall₂ (IsAt c) (front ++ back) places) :
    ∃ l r, places = l ++ r ∧ List.Forall₂ (IsAt c) front l
      ∧ List.Forall₂ (IsAt c) back r := by
  have hfront := List.forall₂_take front.length h
  have hback := List.forall₂_drop front.length h
  rw [List.take_left] at hfront
  rw [List.drop_left] at hback
  exact ⟨_, _, (List.take_append_drop ..).symm, hfront, hback⟩

/-- A look changes neither the barrier nor the time, and a close that goes on
waiting may do so. -/
theorem pollClose_keeps (s : BarrierSession) (b : BackgroundClose) :
    (s.pollClose b).1.barrier = s.barrier
      ∧ (s.pollClose b).1.time = s.time
      ∧ (s.pollClose b).1.closes = s.closes
      ∧ ((s.pollClose b).2.result = none →
        s.time < (s.pollClose b).2.wait.deadline) := by
  unfold pollClose
  cases hresult : b.result with
  | some r =>
      refine ⟨rfl, rfl, rfl, fun h => ?_⟩
      rw [hresult] at h
      cases h
  | none =>
      cases hpoll : s.barrier.poll b.wait s.time with
      | none => exact ⟨rfl, rfl, rfl, fun _ => (Closing.poll_none hpoll).2⟩
      | some result => cases result <;> exact ⟨rfl, rfl, rfl, nofun⟩

theorem pollAll_keeps (closes : List BackgroundClose) :
    ∀ s : BarrierSession, (s.pollAll closes).1.barrier = s.barrier
      ∧ (s.pollAll closes).1.time = s.time
      ∧ (s.pollAll closes).1.closes = s.closes
      ∧ ∀ b ∈ (s.pollAll closes).2, b.result = none →
        s.time < b.wait.deadline := by
  induction closes with
  | nil => intro s; exact ⟨rfl, rfl, rfl, nofun⟩
  | cons b rest ih =>
      intro s
      obtain ⟨hbarrier, htime, hsame, hwaits⟩ := s.pollClose_keeps b
      obtain ⟨hbarrier', htime', hsame', hwaits'⟩ := ih (s.pollClose b).1
      refine ⟨hbarrier'.trans hbarrier, htime'.trans htime,
        hsame'.trans hsame, ?_⟩
      intro x hx hnone
      rcases List.mem_cons.1 hx with rfl | hx
      · exact hwaits hnone
      · rw [← htime]
        exact hwaits' x hx hnone

/-- The end of a close is reported as that of its call. -/
theorem Shares.conclude (h : Shares c s) (i : Nat)
    (result : Except CalcError Unit) :
    Shares (c.conclude i result) (s.noteEnd result) := by
  cases result with
  | ok => exact ⟨h.barrier_eq, h.time_eq, h.reports_eq⟩
  | error e =>
      exact ⟨h.barrier_eq, h.time_eq, congrArg (_ :: ·) h.reports_eq⟩

/-- A look of a close in the background is one of its call. -/
theorem leads_pollClose (h : Shares c s) {b : BackgroundClose} {i : Nat}
    (hb : IsAt c b i) : ∃ c', c.Leads [i] c' ∧ Shares c' (s.pollClose b).1
      ∧ IsAt c' (s.pollClose b).2 i := by
  obtain ⟨call, hcall, hresult, hwait⟩ := hb
  unfold pollClose
  cases hb : b.result with
  | some r => exact ⟨c, .refl, h, call, hcall, hresult, hwait⟩
  | none =>
      have hgoOn := Closing.step_goOn_of_waits hcall (hresult.trans hb)
        (hwait hb)
      rw [h.barrier_eq, h.time_eq] at hgoOn
      cases hpoll : s.barrier.poll b.wait s.time with
      | none => exact ⟨c, .refl, h, call, hcall, hresult, hwait⟩
      | some result =>
          rw [hpoll, Option.elim_some] at hgoOn
          refine ⟨c.conclude i result, hgoOn ▸ c.leads_goOn i,
            h.conclude i result, { call with result := some result }, ?_, rfl,
            nofun⟩
          rw [Closing.calls_conclude, if_pos rfl, hcall]
          rfl

theorem leads_pollAll (closes : List BackgroundClose) :
    ∀ {c : Closing} {s : BarrierSession} {places : List Nat},
      Shares c s → places.Nodup → List.Forall₂ (IsAt c) closes places →
        ∃ c', c.Leads places c' ∧ Shares c' (s.pollAll closes).1
          ∧ List.Forall₂ (IsAt c') (s.pollAll closes).2 places := by
  induction closes with
  | nil =>
      intro c s places h _ hcloses
      cases hcloses
      exact ⟨c, .refl, h, .nil⟩
  | cons b closes ih =>
      intro c s places h hnodup hcloses
      obtain ⟨i, rest, hb, hrest, rfl⟩ := List.forall₂_cons_left_iff.1 hcloses
      obtain ⟨hi, hnodup⟩ := List.nodup_cons.1 hnodup
      obtain ⟨c₁, hleads, hshares, hb⟩ := leads_pollClose h hb
      -- no two places are the same, so neither look is seen at the other's
      have hothers : List.Forall₂ (IsAt c₁) closes rest := by
        refine isAt_congr hrest fun j hj => hleads.2 j fun hmem => hi ?_
        rwa [← List.mem_singleton.1 hmem]
      obtain ⟨c₂, hleads', hshares', hrest⟩ := ih hshares hnodup hothers
      refine ⟨c₂, (hleads.mono ?_).trans (hleads'.mono ?_), hshares',
        .cons (hb.congr (hleads'.2 i hi)) hrest⟩
      · exact fun j hj => List.mem_singleton.1 hj ▸ List.mem_cons_self ..
      · exact fun j hj => List.mem_cons_of_mem _ hj

/-- A close keeps its place, whatever the order of the closes. -/
theorem Follows.perm {closes : List BackgroundClose} (h : Follows c s places)
    (hperm : closes.Perm s.closes) : ∃ places', places'.Perm places
      ∧ Follows c { s with closes } places' := by
  obtain ⟨places', hcloses, hplaces⟩ := List.perm_comp_forall₂ hperm h.closes
  exact ⟨places', hplaces, ⟨h.barrier_eq, h.time_eq, h.reports_eq⟩,
    hplaces.nodup_iff.2 h.nodup, hcloses⟩

/-- The end of a close that has no place leaves the others alone. -/
theorem Follows.conclude (h : Follows c s places) {i : Nat} (hi : i ∉ places)
    (result : Except CalcError Unit) :
    Follows (c.conclude i result) (s.noteEnd result) places := by
  have hcloses : (s.noteEnd result).closes = s.closes := by
    cases result <;> rfl
  refine ⟨h.toShares.conclude i result, h.nodup, ?_⟩
  rw [hcloses]
  refine isAt_congr h.closes fun j hj => ?_
  rw [Closing.calls_conclude, if_neg]
  exact fun heq => hi (heq ▸ hj)

theorem leads_poll (h : Follows c s places) :
    ∃ c', c.Leads places c' ∧ Follows c' s.poll places := by
  obtain ⟨c', hleads, hshares, hcloses⟩ :=
    leads_pollAll s.closes h.toShares h.nodup h.closes
  exact ⟨c', hleads, ⟨hshares.barrier_eq, hshares.time_eq,
    hshares.reports_eq⟩, h.nodup, hcloses⟩

theorem leads_pollOverdue (h : Follows c s places) :
    ∃ c' places', c.Leads places c' ∧ places'.Perm places
      ∧ Follows c' s.pollOverdue places' := by
  have hsplit : (s.closes.filter (fun b => b.wait.deadline < s.time)
      ++ s.closes.filter fun b => s.time ≤ b.wait.deadline).Perm s.closes := by
    refine .trans (.of_eq (congrArg _ ?_)) (List.filter_append_perm
      (fun b : BackgroundClose => decide (b.wait.deadline < s.time)) s.closes)
    refine List.filter_congr fun b _ => ?_
    rw [← decide_not, decide_eq_decide, Nat.not_lt]
  obtain ⟨places', hplaces, hfollows⟩ := h.perm hsplit
  obtain ⟨l, r, rfl, hl, hr⟩ := isAt_split hfollows.closes
  obtain ⟨hnodup, -, hdisjoint⟩ := List.nodup_append.1 hfollows.nodup
  obtain ⟨c', hleads, hshares, hcloses⟩ :=
    leads_pollAll _ h.toShares hnodup hl
  obtain ⟨-, htime, hsame, -⟩ := pollAll_keeps
    (s.closes.filter fun b => b.wait.deadline < s.time) s
  refine ⟨c', l ++ r, hleads.mono fun i hi => ?_, hplaces,
    ⟨hshares.barrier_eq, hshares.time_eq, hshares.reports_eq⟩,
    hfollows.nodup, ?_⟩
  · exact hplaces.mem_iff.1 (List.mem_append_left _ hi)
  · simp only [pollOverdue, htime, hsame]
    exact List.rel_append hcloses (isAt_congr hr fun i hi =>
      hleads.2 i fun hmem => hdisjoint i hmem i hi rfl)

/-- What passes in the foreground leaves the barrier alone. -/
theorem pass_keeps (s : BarrierSession) (ms : Nat) :
    (s.pass ms).barrier = s.barrier ∧ (s.pass ms).time = s.time + ms := by
  unfold pass
  by_cases hms : ms = 0
  · rw [if_pos hms, hms]
    exact ⟨rfl, rfl⟩
  · rw [if_neg hms]
    obtain ⟨hbarrier, htime, -⟩ := pollAll_keeps s.closes s
    obtain ⟨hbarrier', htime', -⟩ := pollAll_keeps
      (s.poll.closes.filter fun b => b.wait.deadline < s.time + ms)
      { s.poll with time := s.time + ms }
    exact ⟨hbarrier'.trans hbarrier, htime'⟩

theorem leads_pass (h : Follows c s places) (ms : Nat) :
    ∃ c' places', c.Leads places c' ∧ places'.Perm places
      ∧ Follows c' (s.pass ms) places' := by
  unfold pass
  by_cases hms : ms = 0
  · rw [if_pos hms]
    exact ⟨c, places, .refl, .refl _, h⟩
  · rw [if_neg hms]
    obtain ⟨c₁, hleads, hfollows⟩ := leads_poll h
    have htime : c₁.time = s.time :=
      hfollows.time_eq.trans (pollAll_keeps s.closes s).2.1
    have hpassed : Follows (c₁.step (.pass ms))
        { s.poll with time := s.time + ms } places :=
      ⟨⟨hfollows.barrier_eq, congrArg (· + ms) htime, hfollows.reports_eq⟩,
        hfollows.nodup, hfollows.closes⟩
    obtain ⟨c₂, places', hleads', hplaces, hfollows'⟩ :=
      leads_pollOverdue hpassed
    exact ⟨c₂, places', (hleads.trans (c₁.leads_pass ms)).trans hleads',
      hplaces, hfollows'⟩

end Looks

-- ================================================== calls

section Calls

variable {c : Closing} {s : BarrierSession} {places : List Nat}

theorem Follows.lt_length (h : Follows c s places) :
    ∀ i ∈ places, i < c.calls.length := by
  have hlt : ∀ {closes : List BackgroundClose} {places : List Nat},
      List.Forall₂ (IsAt c) closes places →
        ∀ i ∈ places, i < c.calls.length := by
    intro closes places h
    induction h with
    | nil => exact nofun
    | cons hb _ ih =>
        obtain ⟨call, hcall, -⟩ := hb
        intro i hi
        rcases List.mem_cons.1 hi with rfl | hi
        · exact (List.getElem?_eq_some_iff.1 hcall).1
        · exact ih i hi
  exact hlt h.closes

/-- The call of a close has a new place. -/
theorem Follows.note (h : Follows c s places) (call : CloseCall) :
    Follows (c.note call) s places
      ∧ (c.note call).calls[c.calls.length]? = some call := by
  refine ⟨⟨⟨h.barrier_eq, h.time_eq, h.reports_eq⟩, h.nodup,
    isAt_congr h.closes fun i hi => ?_⟩, List.getElem?_concat_length⟩
  exact List.getElem?_append_left (h.lt_length i hi)

/-- A close in the background that a session keeps has the place of its
call. -/
theorem Follows.keep (h : Follows c s places) {b : BackgroundClose} {i : Nat}
    (hb : IsAt c b i) (hi : i ∉ places) :
    Follows c (s.keep b) (places ++ [i]) := by
  refine ⟨⟨h.barrier_eq, h.time_eq, h.reports_eq⟩,
    List.nodup_append.2 ⟨h.nodup, List.nodup_singleton i, ?_⟩,
    List.rel_append h.closes (.cons hb .nil)⟩
  intro j hj k hk heq
  rw [heq, List.mem_singleton.1 hk] at hj
  exact hi hj

/-- A close calls at the barrier first of all. -/
theorem leads_call (h : Follows c s places) (sender : Int64)
    (limit? : Option Nat) :
    (∃ e, s.closeSender sender = .error e
        ∧ Follows (c.step (.call sender limit?)) s places
        ∧ (c.step (.call sender limit?)).calls[c.calls.length]?
          = some ⟨sender, limit?, s.time, some (.error e)⟩)
      ∨ ∃ s', s.closeSender sender = .ok s' ∧ s'.time = s.time
        ∧ Follows (c.step (.call sender limit?)) s' places
        ∧ (c.step (.call sender limit?)).calls[c.calls.length]?
          = some ⟨sender, limit?, s.time,
            if limit?.isNone then some (.ok ()) else none⟩ := by
  rcases c.step_call sender limit? with
    ⟨e, herror, hstep⟩ | ⟨next, hclose, hstep⟩
  · rw [h.barrier_eq] at herror
    rw [hstep, h.time_eq]
    refine .inl ⟨e, ?_, h.note _⟩
    rw [closeSender, herror]
    rfl
  · rw [h.barrier_eq] at hclose
    let reports :=
      if s.barrier.isOpen sender then .senderClosed :: s.reports
      else s.reports
    have hclosed : s.closeSender sender
        = .ok { s with barrier := next, reports } := by
      simp only [closeSender, hclose, reports]
      cases s.barrier.isOpen sender <;> rfl
    have hnext : Follows { c with barrier := next, time := s.time, reports }
        { s with barrier := next, reports } places :=
      ⟨⟨rfl, rfl, rfl⟩, h.nodup, h.closes⟩
    rw [hstep, h.time_eq, h.barrier_eq, h.reports_eq]
    exact .inr ⟨_, hclosed, rfl, hnext.note _⟩

/-- A wait in the foreground ends: no sender is open, or its limit has
passed. -/
theorem leads_await (h : Follows c s places) (limit : Nat) :
    ∃ c' places' result, c.Leads places c' ∧ places'.Perm places
      ∧ Follows c' (if s.barrier.isClosed then s else s.pass limit) places'
      ∧ c'.barrier.poll (s.waitOf limit) c'.time = some result := by
  by_cases hclosed : s.barrier.isClosed = true
  · rw [if_pos hclosed]
    refine ⟨c, places, .ok (), .refl, .refl _, h, ?_⟩
    rw [h.barrier_eq, Barrier.poll, if_pos hclosed]
  · rw [if_neg hclosed]
    obtain ⟨c', places', hleads, hperm, hfollows⟩ := leads_pass h limit
    obtain ⟨hbarrier, htime⟩ := s.pass_keeps limit
    refine ⟨c', places', .error (.closeTimeout s.barrier.pending limit), hleads,
      hperm, hfollows, ?_⟩
    rw [hfollows.barrier_eq, hfollows.time_eq, hbarrier, htime, Barrier.poll,
      if_neg hclosed]
    exact if_pos (Nat.le_refl _)

/-- A close in the foreground is answered with the result of its call. -/
theorem reaches_close (h : Follows c s places) (sender : Int64)
    (limit? : Option Nat) :
    ∃ c' places' result, c.Reaches c'
      ∧ Follows c' (s.close sender limit?).1 places'
      ∧ c'.calls[c.calls.length]?
        = some ⟨sender, limit?, s.time, some result⟩
      ∧ (s.close sender limit?).2 = resultOf result := by
  unfold close
  rcases leads_call h sender limit? with
    ⟨e, herror, hfollows, hcall⟩ | ⟨s₁, hok, htime, hfollows, hcall⟩
  · rw [herror]
    exact ⟨_, places, .error e, c.reaches_step _, hfollows, hcall, rfl⟩
  · rw [hok]
    cases limit? with
    | none =>
        exact ⟨_, places, .ok (), c.reaches_step _, hfollows, hcall, rfl⟩
    | some limit =>
        -- the place of this call is no background close's, so it is still
        -- there after the wait
        have hnew : c.calls.length ∉ places :=
          fun hmem => Nat.lt_irrefl _ (h.lt_length _ hmem)
        obtain ⟨c₂, places', result, hleads, hperm, hfollows', hpoll⟩ :=
          leads_await hfollows limit
        have hcall' := (hleads.2 _ hnew).trans hcall
        have hwait : CloseCall.wait? ⟨sender, some limit, s.time, none⟩
            = some (s₁.waitOf limit) := by
          rw [waitOf, htime]
          rfl
        have hgoOn := Closing.step_goOn_of_waits hcall' rfl hwait
        rw [hpoll, Option.elim_some] at hgoOn
        have hreaches : c.Reaches (c₂.conclude c.calls.length result) := by
          rw [← hgoOn]
          exact ((c.reaches_step _).trans hleads.1).trans (c₂.reaches_step _)
        rw [hfollows'.barrier_eq, hfollows'.time_eq] at hpoll
        simp only [hpoll]
        refine ⟨_, places', result, hreaches, hfollows'.conclude
          (fun hmem => hnew (hperm.mem_iff.1 hmem)) result, ?_, rfl⟩
        rw [Closing.calls_conclude, if_pos rfl, hcall']
        rfl

/-- Names do not matter to the calls. -/
theorem Follows.forget (h : Follows c s places) (name : String) :
    Follows c (s.forget name) places := by
  refine ⟨⟨h.barrier_eq, h.time_eq, h.reports_eq⟩, h.nodup,
    List.forall₂_map_left_iff.2 (h.closes.imp ?_)⟩
  intro b i hb
  split <;> exact hb

/-- A close in the background is a call too, with looks of the others before
and after it. -/
theorem reaches_spawnClose (h : Follows c s places) (name : String)
    (sender : Int64) (limit? : Option Nat) :
    ∃ c' places' result, c.Reaches c'
      ∧ Follows c' (s.spawnClose name sender limit?) places'
      ∧ ⟨sender, limit?, s.time, result⟩ ∈ c'.calls := by
  obtain ⟨c₁, hleads, hfollows⟩ := leads_poll (h.forget name)
  have hnew : c₁.calls.length ∉ places :=
    fun hmem => Nat.lt_irrefl _ (hfollows.lt_length _ hmem)
  have htime : (s.forget name).poll.time = s.time :=
    (pollAll_keeps (s.forget name).closes (s.forget name)).2.1
  have hreaches := hleads.1.trans (c₁.reaches_step (.call sender limit?))
  unfold spawnClose
  rcases leads_call hfollows sender limit? with
    ⟨e, herror, hfollows', hcall⟩ | ⟨s₁, hok, htime', hfollows', hcall⟩
  · rw [htime] at hcall
    simp only [herror]
    exact ⟨_, _, some (.error e), hreaches,
      hfollows'.keep ⟨_, hcall, rfl, nofun⟩ hnew, List.mem_of_getElem? hcall⟩
  · rw [htime] at hcall
    simp only [hok]
    -- once the session has kept the close, all of them have a look
    have hkept : ∀ {b : BackgroundClose},
        IsAt (c₁.step (.call sender limit?)) b c₁.calls.length →
          ∃ c' places' result, c.Reaches c' ∧ Follows c' (s₁.keep b).poll places'
            ∧ ⟨sender, limit?, s.time, result⟩ ∈ c'.calls := by
      intro b hb
      obtain ⟨c₂, hleads', hpolled⟩ := leads_poll (hfollows'.keep hb hnew)
      obtain ⟨result, hstays⟩ := hleads'.1.call hcall
      exact ⟨c₂, _, result, hreaches.trans hleads'.1, hpolled,
        List.mem_of_getElem? hstays⟩
    cases limit? with
    | none => exact hkept ⟨_, hcall, rfl, nofun⟩
    | some limit =>
        refine hkept ⟨_, hcall, rfl, fun _ => ?_⟩
        rw [waitOf, htime', htime]
        rfl

/-- The time that a close in the background may still wait has not come. -/
theorem lt_deadline_of_waitOf? {name : String} {wait : CloseWait}
    (h : s.poll.waitOf? name = some wait) : s.poll.time < wait.deadline := by
  unfold waitOf? at h
  split at h
  · rename_i other w hfind
    obtain rfl := Option.some.inj h
    obtain ⟨-, htime, -, hwaits⟩ := pollAll_keeps s.closes s
    rw [show s.poll.time = s.time from htime]
    exact hwaits _ (List.mem_of_find?_eq_some hfind) rfl
  · cases h

theorem reaches_awaitClose (h : Follows c s places) (name : String) :
    ∃ c', c.Reaches c' ∧ Follows c' (s.awaitClose name) places := by
  unfold awaitClose
  by_cases hnone : (s.waitOf? name).isNone = true
  · rw [if_pos hnone]
    exact ⟨c, ⟨[], rfl⟩, h⟩
  · rw [if_neg hnone]
    obtain ⟨c₁, hleads, hfollows⟩ := leads_poll h
    cases hwait : s.poll.waitOf? name with
    | none => exact ⟨c₁, hleads.1, hfollows⟩
    | some wait =>
        have hlt := lt_deadline_of_waitOf? hwait
        have hpassed : Follows (c₁.step (.pass (wait.deadline - s.poll.time)))
            { s.poll with time := wait.deadline } places := by
          refine ⟨⟨hfollows.barrier_eq, ?_, hfollows.reports_eq⟩,
            hfollows.nodup, hfollows.closes⟩
          show c₁.time + (wait.deadline - s.poll.time) = wait.deadline
          rw [hfollows.time_eq]
          omega
        obtain ⟨c₂, hleads', hpolled⟩ := leads_poll hpassed
        exact ⟨c₂, (hleads.1.trans (c₁.reaches_step _)).trans hleads'.1,
          hpolled⟩

end Calls

-- ================================================== steps

/-- True of an answer that is the result of a call. -/
def Tells (c : Closing) (call : CloseCall) (answer : BarrierResult) : Prop :=
  call ∈ c.calls ∧ ∃ result, call.result = some result
    ∧ answer = resultOf result

section Steps

variable {c : Closing} {s : BarrierSession} {places : List Nat}

theorem exists_isAt (h : Follows c s places) {b : BackgroundClose}
    (hb : b ∈ s.closes) : ∃ i, IsAt c b i := by
  have hfind : ∀ {closes : List BackgroundClose} {places : List Nat},
      List.Forall₂ (IsAt c) closes places → b ∈ closes → ∃ i, IsAt c b i := by
    intro closes places h
    induction h with
    | nil => exact nofun
    | cons hat _ ih =>
        intro hmem
        rcases List.mem_cons.1 hmem with rfl | hmem
        · exact ⟨_, hat⟩
        · exact ih hmem
  exact hfind h.closes hb

/-- The end of a close in the background is that of its call. -/
theorem reaches_join (h : Follows c s places) (name : String) :
    ∃ c', c.Reaches c' ∧ Follows c' (s.join name).1 places
      ∧ ((s.join name).2 = .unknown
        ∨ ∃ call, Tells c' call (s.join name).2) := by
  obtain ⟨c', hreaches, hfollows⟩ := reaches_awaitClose h name
  refine ⟨c', hreaches, hfollows.forget name, ?_⟩
  unfold join
  cases hresult : ((s.awaitClose name).find? name).bind (·.result) with
  | none => exact .inl (by simp only [hresult]; rfl)
  | some result =>
      obtain ⟨b, hfind, hb⟩ := Option.bind_eq_some_iff.1 hresult
      obtain ⟨i, call, hcall, hsame, -⟩ :=
        exists_isAt hfollows (List.mem_of_find?_eq_some hfind)
      refine .inr ⟨call, List.mem_of_getElem? hcall, result,
        hsame.trans hb, ?_⟩
      simp only [hresult]
      rfl

/-- Every step of a session is a sequence of moves, and what it answers is
what its calls return. -/
theorem follows_step (h : Follows c s places) (step : BarrierStep) :
    ∃ c' places', c.Reaches c' ∧ Follows c' (s.step step).1 places'
      ∧ (∀ sender limit?, step = .close sender limit? → ∃ result,
        Tells c' ⟨sender, limit?, s.time, some result⟩ (s.step step).2)
      ∧ (∀ name sender limit?, step = .spawnClose name sender limit? →
        ∃ result, ⟨sender, limit?, s.time, result⟩ ∈ c'.calls)
      ∧ ∀ name, step = .join name → (s.step step).2 = .unknown
        ∨ ∃ call, Tells c' call (s.step step).2 := by
  cases step with
  | close sender limit? =>
      obtain ⟨c', places', result, hreaches, hfollows, hcall, hanswer⟩ :=
        reaches_close h sender limit?
      refine ⟨c', places', hreaches, hfollows, fun _ _ heq => ?_, nofun, nofun⟩
      cases heq
      exact ⟨result, List.mem_of_getElem? hcall, result, rfl, hanswer⟩
  | spawnClose name sender limit? =>
      obtain ⟨c', places', result, hreaches, hfollows, hcall⟩ :=
        reaches_spawnClose h name sender limit?
      refine ⟨c', places', hreaches, hfollows, nofun, fun _ _ _ heq => ?_, nofun⟩
      cases heq
      exact ⟨result, hcall⟩
  | sleep ms =>
      obtain ⟨c₁, places', hleads, -, hfollows⟩ := leads_pass h ms
      obtain ⟨c₂, hleads', hpolled⟩ := leads_poll hfollows
      exact ⟨c₂, places', hleads.1.trans hleads'.1, hpolled, nofun, nofun,
        nofun⟩
  | finished name =>
      obtain ⟨c', hleads, hfollows⟩ := leads_poll h
      refine ⟨c', places, hleads.1, ?_, nofun, nofun, nofun⟩
      simp only [step]
      split <;> exact hfollows
  | join name =>
      obtain ⟨c', hreaches, hfollows, hanswer⟩ := reaches_join h name
      exact ⟨c', places, hreaches, hfollows, nofun, nofun, fun _ _ => hanswer⟩
  | tally => exact ⟨c, places, ⟨[], rfl⟩, h, nofun, nofun, nofun⟩

theorem follows_after (senders : List Int64) (steps : List BarrierStep) :
    ∃ c places, (Closing.ofSenders senders).Reaches c
      ∧ Follows c ((ofSenders senders).after steps) places := by
  induction steps using List.reverseRecOn with
  | nil => exact ⟨_, [], ⟨[], rfl⟩, ⟨rfl, rfl, rfl⟩, List.nodup_nil, .nil⟩
  | append_singleton steps step ih =>
      obtain ⟨c, places, hreaches, hfollows⟩ := ih
      obtain ⟨c', places', hreaches', hfollows', -⟩ :=
        follows_step hfollows step
      refine ⟨c', places', hreaches.trans hreaches', ?_⟩
      rw [after, List.foldl_append]
      exact hfollows'

end Steps

end BarrierSession

-- ================================================== exactness

/-- The barrier is exact. Take any expected senders, and any sequence of calls
that close senders, known ones or not, again or not, and with a limit or
without one, of looks of the calls that wait, and of times that pass. Then

- as many senders are open as were expected and not called to close, the
  reported number of open senders is the same, each expected sender that was
  called to close was reported once, and it stays closed;
- no move opens a sender, and an unknown sender is turned away and nothing
  else changes;
- a call is noted with the time of its begin, it stays what it is, and what it
  has returned stands;
- a call that returns either did not know its sender; or it returns well, and
  if it waited then no sender is open and all were called to close; or it
  waited for its full limit at least, and returns the number of senders that
  are open, which is not zero;
- a call whose look does not make it return may wait: a sender is open, and
  its limit has not passed.

All that sessions at the barrier come to is such a sequence: they have its
barrier, its time and its reports, and what a close is answered with is what
its call returned. -/
theorem closes_exact (senders : List Int64) :
    (∀ moves, let c := (Closing.ofSenders senders).after moves
      c.barrier.pending = (senders.toFinset \ c.called).card
      ∧ c.openSenders = c.barrier.pending
      ∧ c.reports.count .senderClosed = (senders.toFinset ∩ c.called).card
      ∧ (∀ call ∈ c.calls, c.barrier.isOpen call.sender = false)
      ∧ (∀ move, (c.step move).barrier.pending ≤ c.barrier.pending)
      ∧ (∀ sender limit?, sender ∉ senders → c.step (.call sender limit?)
        = c.note ⟨sender, limit?, c.time,
          some (.error (.unknownSender sender))⟩)
      ∧ (∀ sender limit?, ∃ result, (c.step (.call sender limit?)).calls
        = c.calls ++ [⟨sender, limit?, c.time, result⟩])
      ∧ (∀ move (i : Nat) call, c.calls[i]? = some call → ∃ result,
        (c.step move).calls[i]? = some { call with result }
          ∧ (call.result.isSome → result = call.result))
      ∧ (∀ move call result, c.Returns move call result →
        let next := c.step move
        call.sender ∉ senders
            ∧ result = .error (.unknownSender call.sender)
          ∨ call.sender ∈ senders ∧ result = .ok ()
            ∧ (call.limit?.isSome → next.barrier.pending = 0
              ∧ ∀ sender ∈ senders, sender ∈ next.called)
          ∨ call.sender ∈ senders ∧ ∃ limit, call.limit? = some limit
            ∧ result = .error (.closeTimeout next.barrier.pending limit)
            ∧ call.begun + limit ≤ next.time ∧ 0 < next.barrier.pending)
      ∧ ∀ (i : Nat) call, c.calls[i]? = some call → call.result = none →
        (c.step (.goOn i)).calls[i]? = some call →
          ∃ limit, call.limit? = some limit ∧ 0 < c.barrier.pending
            ∧ c.time < call.begun + limit)
    ∧ ∀ steps, let s := (BarrierSession.ofSenders senders).after steps
      ∃ moves, let c := (Closing.ofSenders senders).after moves
        BarrierSession.Shares c s ∧ ∀ step, ∃ more,
          let next := c.after more
          let answer := (s.step step).2
          BarrierSession.Shares next (s.step step).1
          ∧ (∀ sender limit?, step = .close sender limit? → ∃ result,
            BarrierSession.Tells next ⟨sender, limit?, s.time, some result⟩
              answer)
          ∧ (∀ name sender limit?, step = .spawnClose name sender limit? →
            ∃ result, ⟨sender, limit?, s.time, result⟩ ∈ next.calls)
          ∧ ∀ name, step = .join name → answer = .unknown
            ∨ ∃ call, BarrierSession.Tells next call answer := by
  refine ⟨fun moves => ?_, fun steps => ?_⟩
  · intro c
    have hsound : c.Sound senders := Closing.sound_after senders moves
    refine ⟨hsound.pending_eq, hsound.openSenders_eq, hsound.closings_eq_card,
      fun call hcall => hsound.closed_of_called hcall, hsound.pending_step_le,
      fun sender limit? h => hsound.step_call_of_unknown h limit?,
      c.calls_call, fun move i call hcall => Closing.call_step hcall move,
      fun move call result => Closing.returns_exact hsound,
      fun i call hcall hnone => Closing.waits_of_goOn hsound hcall hnone⟩
  · obtain ⟨c, places, ⟨moves, rfl⟩, hfollows⟩ :=
      BarrierSession.follows_after senders steps
    refine ⟨moves, hfollows.toShares, fun step => ?_⟩
    obtain ⟨next, places', ⟨more, rfl⟩, hfollows', hanswers⟩ :=
      BarrierSession.follows_step hfollows step
    exact ⟨more, hfollows'.toShares, hanswers⟩

/-- A sender waits for the other one, an unknown one comes by, and the limit
passes. -/
def lateMoves : List Closing.Move :=
  [.call 1 (some 10), .call 9 none, .pass 10]

/-- When the sender has a look at the very end of its limit it returns that
one sender is open. -/
theorem closes_exact_late :
    let c := (Closing.ofSenders [1, 2]).after lateMoves
    let late : CloseCall :=
      ⟨1, some 10, 0, some (.error (.closeTimeout 1 10))⟩
    c.Returns (.goOn 0) late (.error (.closeTimeout 1 10))
      ∧ c.openSenders = c.barrier.pending
      ∧ ∃ limit, late.limit? = some limit
        ∧ late.begun + limit ≤ (c.step (.goOn 0)).time
        ∧ 0 < (c.step (.goOn 0)).barrier.pending := by
  intro c late
  have hreturns : c.Returns (.goOn 0) late (.error (.closeTimeout 1 10)) := by
    have hbefore : c.calls[0]? = some ⟨1, some 10, 0, none⟩ := rfl
    refine ⟨0, fun old hold => ?_, rfl, rfl⟩
    rw [← Option.some.inj (hbefore.symm.trans hold)]
  obtain ⟨-, hopen, -, -, -, -, -, -, hcases, -⟩ :=
    (closes_exact [1, 2]).1 lateMoves
  refine ⟨hreturns, hopen, ?_⟩
  rcases hcases (.goOn 0) late _ hreturns with
    ⟨hunknown, -⟩ | ⟨-, hok, -⟩ | ⟨-, limit, hlimit, -, hdue, hpos⟩
  · exact absurd (by decide) hunknown
  · cases hok
  · exact ⟨limit, hlimit, hdue, hpos⟩

end MergeOnWrite
