/-
Close calls at a barrier, in any order.

A barrier is used by calls. A call closes its sender at once, and it either
returns right then or waits for the other senders up to a limit. What happens
is any sequence of moves: somebody calls, a call that waits has a look, or
time passes. A call that has a look returns well if no sender is open, returns
with an error if its limit has passed, and else goes on waiting.

# The invariant

Who is open is told by the calls alone: the expected senders that none of them
closes (`Sound.isOpen_iff`). Each sender that a call finds open is taken out of
the barrier and reported once, so the reports and the barrier go in step
(`sound_step`). All counts follow from this.

# Main statements

- `sound_after`: the invariant holds after every sequence of moves.
- `Sound.pending_eq`: how many senders are open.
- `returns_exact`: how a call can return, and what is the case when it does.
- `waits_of_goOn`: when a call may go on waiting.
-/
import Mathlib.Data.Finset.Dedup
import Mathlib.Data.Finset.SDiff
import Mathlib.Data.Finset.Card
import MergeOnWrite.Calc.Barrier
import MergeOnWrite.Calc.Report
import MergeOnWrite.Proofs.SortedMap

namespace MergeOnWrite

/-- A call that closes a sender, and waits for the others if it has a
limit. -/
structure CloseCall where
  sender : Int64
  limit? : Option Nat
  begun : Nat
  result : Option (Except CalcError Unit)

/-- The wait of a call, which runs from its begin. -/
def CloseCall.wait? (call : CloseCall) : Option CloseWait :=
  call.limit?.map fun limit => ⟨limit, call.begun + limit⟩

/-- A barrier, on virtual time, with the calls in the order in which they
were made. -/
structure Closing where
  barrier : Barrier
  time : Nat := 0
  calls : List CloseCall := []
  /-- The reports, latest first. -/
  reports : List WorkerReport := []

namespace Closing

/-- What can happen at a barrier. -/
inductive Move where
  | call (sender : Int64) (limit? : Option Nat)
  /-- Lets a call that waits have a look. -/
  | goOn (call : Nat)
  | pass (ms : Nat)

def ofSenders (senders : List Int64) : Closing :=
  let barrier := Barrier.ofSenders senders
  { barrier, reports := [.sendersOpened barrier.pending] }

def note (c : Closing) (call : CloseCall) : Closing :=
  { c with calls := c.calls ++ [call] }

/-- What a look of a call comes to, if it makes the call return. -/
def outcome? (c : Closing) (call : CloseCall) :
    Option (Except CalcError Unit) :=
  match call.result with
  | some _ => none
  | none => call.wait?.bind fun wait => c.barrier.poll wait c.time

/-- Ends a call. -/
def conclude (c : Closing) (i : Nat) (result : Except CalcError Unit) :
    Closing :=
  { c with
    calls := c.calls.modify i fun call => { call with result := some result }
    reports :=
      match result with
      | .ok _ => c.reports
      | .error _ => .closeTimedOut :: c.reports }

def step (c : Closing) : Move → Closing
  | .call sender limit? =>
    match c.barrier.close sender with
    | .error e => c.note ⟨sender, limit?, c.time, some (.error e)⟩
    | .ok barrier =>
      let result := if limit?.isNone then some (.ok ()) else none
      let reports :=
        if c.barrier.isOpen sender then .senderClosed :: c.reports
        else c.reports
      { c with barrier, reports }.note ⟨sender, limit?, c.time, result⟩
  | .goOn i =>
    match (c.calls[i]?).bind c.outcome? with
    | none => c
    | some result => c.conclude i result
  | .pass ms => { c with time := c.time + ms }

def after (c : Closing) (moves : List Move) : Closing := moves.foldl step c

/-- The senders that were called to close. -/
def called (c : Closing) : Finset Int64 := (c.calls.map (·.sender)).toFinset

/-- The senders that count as open in what was reported. -/
def openSenders (c : Closing) : Nat :=
  (WorkerTally.ofReports c.reports.reverse).openSenders

/-- True when a move makes a call return, or when it is a call that returns
at once. -/
def Returns (c : Closing) (move : Move) (call : CloseCall)
    (result : Except CalcError Unit) : Prop :=
  ∃ i : Nat, (∀ old, c.calls[i]? = some old → old.result = none)
    ∧ (c.step move).calls[i]? = some call ∧ call.result = some result

-- ================================================== moves

theorem mem_called {c : Closing} {sender : Int64} :
    sender ∈ c.called ↔ ∃ call ∈ c.calls, call.sender = sender := by
  rw [called, List.mem_toFinset, List.mem_map]

theorem called_note (c : Closing) (call : CloseCall) :
    (c.note call).called = insert call.sender c.called := by
  ext sender
  rw [Finset.mem_insert, mem_called, mem_called]
  simp only [note, List.mem_append, List.mem_singleton, or_and_right,
    exists_or, exists_eq_left]
  rw [or_comm, eq_comm]

theorem openSenders_cons (c : Closing) (event : WorkerReport) :
    { c with reports := event :: c.reports }.openSenders
      = event.sendersAfter c.openSenders := by
  simp only [openSenders, WorkerTally.ofReports, List.reverse_cons,
    List.foldl_append]
  rfl

/-- A call closes its sender, or it does not know it and nothing changes. -/
theorem step_call (c : Closing) (sender : Int64) (limit? : Option Nat) :
    (∃ e, c.barrier.close sender = .error e
        ∧ c.step (.call sender limit?)
          = c.note ⟨sender, limit?, c.time, some (.error e)⟩)
      ∨ ∃ barrier, c.barrier.close sender = .ok barrier
        ∧ c.step (.call sender limit?)
          = { c with
              barrier
              reports :=
                if c.barrier.isOpen sender then .senderClosed :: c.reports
                else c.reports }.note
            ⟨sender, limit?, c.time,
              if limit?.isNone then some (.ok ()) else none⟩ := by
  simp only [step]
  cases c.barrier.close sender with
  | error e => exact .inl ⟨e, rfl, rfl⟩
  | ok barrier => exact .inr ⟨barrier, rfl, rfl⟩

/-- What a look of a call that waits comes to. -/
theorem step_goOn_of_waits {c : Closing} {i : Nat} {call : CloseCall}
    {wait : CloseWait} (hcall : c.calls[i]? = some call)
    (hnone : call.result = none) (hwait : call.wait? = some wait) :
    c.step (.goOn i)
      = (c.barrier.poll wait c.time).elim c (c.conclude i) := by
  have houtcome : c.outcome? call = c.barrier.poll wait c.time := by
    simp only [outcome?, hnone, hwait]
    rfl
  simp only [step, hcall, Option.bind_some, houtcome]
  cases c.barrier.poll wait c.time <;> rfl

/-- A look leaves all as it is, or it ends a call that waited. -/
theorem step_goOn (c : Closing) (i : Nat) :
    c.step (.goOn i) = c
      ∨ ∃ call wait result, c.calls[i]? = some call ∧ call.result = none
        ∧ call.wait? = some wait
        ∧ c.barrier.poll wait c.time = some result
        ∧ c.step (.goOn i) = c.conclude i result := by
  cases houtcome : (c.calls[i]?).bind c.outcome? with
  | none => exact .inl (by simp only [step, houtcome])
  | some result =>
      obtain ⟨call, hcall, hresult⟩ := Option.bind_eq_some_iff.1 houtcome
      unfold outcome? at hresult
      split at hresult
      · cases hresult
      · rename_i hnone
        obtain ⟨wait, hwait, hpoll⟩ := Option.bind_eq_some_iff.1 hresult
        exact .inr ⟨call, wait, result, hcall, hnone, hwait, hpoll,
          by simp only [step, houtcome]⟩

/-- The end of a call is its own. -/
theorem calls_conclude (c : Closing) (i j : Nat)
    (result : Except CalcError Unit) :
    (c.conclude i result).calls[j]?
      = if i = j
        then (c.calls[j]?).map fun call => { call with result := some result }
        else c.calls[j]? := by
  by_cases h : i = j
  · subst h
    rw [if_pos rfl]
    exact List.getElem?_modify_eq ..
  · rw [if_neg h]
    exact List.getElem?_modify_ne _ _ h

/-- Who calls is noted, with the time. -/
theorem calls_call (c : Closing) (sender : Int64) (limit? : Option Nat) :
    ∃ result, (c.step (.call sender limit?)).calls
      = c.calls ++ [⟨sender, limit?, c.time, result⟩] := by
  rcases c.step_call sender limit? with ⟨e, -, hstep⟩ | ⟨next, -, hstep⟩
  · exact ⟨_, congrArg calls hstep⟩
  · exact ⟨_, congrArg calls hstep⟩

/-- A call stays what it is, but that it may return, and only once. -/
theorem call_step {c : Closing} {i : Nat} {call : CloseCall}
    (h : c.calls[i]? = some call) (move : Move) :
    ∃ result, (c.step move).calls[i]? = some { call with result }
      ∧ (call.result.isSome → result = call.result) := by
  cases move with
  | call sender limit? =>
      obtain ⟨result, hcalls⟩ := c.calls_call sender limit?
      have hlt := (List.getElem?_eq_some_iff.1 h).1
      rw [hcalls, List.getElem?_append_left hlt]
      exact ⟨call.result, h, fun _ => rfl⟩
  | goOn j =>
      rcases c.step_goOn j with
        hstep | ⟨old, wait, result, hold, hnone, -, -, hstep⟩
      · rw [hstep]
        exact ⟨call.result, h, fun _ => rfl⟩
      · rw [hstep, calls_conclude]
        by_cases hij : j = i
        · subst hij
          obtain rfl := Option.some.inj (h.symm.trans hold)
          rw [if_pos rfl, h]
          refine ⟨some result, rfl, fun hsome => ?_⟩
          rw [hnone] at hsome
          cases hsome
        · rw [if_neg hij]
          exact ⟨call.result, h, fun _ => rfl⟩
  | pass ms => exact ⟨call.result, h, fun _ => rfl⟩

theorem called_conclude (c : Closing) (i : Nat)
    (result : Except CalcError Unit) :
    (c.conclude i result).called = c.called := by
  have hmap : ((c.conclude i result).calls).map (·.sender)
      = c.calls.map (·.sender) := by
    refine List.ext_getElem? fun j => ?_
    rw [List.getElem?_map, List.getElem?_map, calls_conclude]
    by_cases h : i = j
    · rw [if_pos h, Option.map_map]
      rfl
    · rw [if_neg h]
  rw [called, hmap, called]

theorem openSenders_conclude (c : Closing) (i : Nat)
    (result : Except CalcError Unit) :
    (c.conclude i result).openSenders = c.openSenders := by
  cases result with
  | ok => rfl
  | error e => exact c.openSenders_cons .closeTimedOut

-- ================================================== who is open

/-- The number of open senders, told by who they are. -/
theorem pending_of_isOpen_iff {b : Barrier} {opened : Finset Int64}
    (h : ∀ sender, b.isOpen sender = true ↔ sender ∈ opened) :
    b.pending = opened.card := by
  have hset : b.opened.keys.toFinset = opened := by
    ext sender
    rw [List.mem_toFinset, SortedMap.mem_keys, ← h]
    rfl
  rw [← hset, List.toFinset_card_of_nodup b.opened.nodup_keys]
  exact (List.length_map ..).symm

/-- A close takes the sender out of the open ones. -/
theorem isOpen_of_close {b next : Barrier} {sender : Int64}
    (h : b.close sender = .ok next) :
    next.expected = b.expected ∧ (b.expected.get? sender).isSome
      ∧ ∀ other, next.isOpen other = true
        ↔ other ≠ sender ∧ b.isOpen other = true := by
  unfold Barrier.close at h
  split at h
  · rename_i hexpected
    obtain rfl := Except.ok.inj h
    refine ⟨rfl, hexpected, fun other => ?_⟩
    show ((b.opened.erase sender).get? other).isSome = true ↔ _
    by_cases heq : other = sender
    · rw [heq, SortedMap.get?_erase_self]
      exact iff_of_false (by simp) fun h => h.1 rfl
    · rw [SortedMap.get?_erase_of_ne _ heq]
      exact (and_iff_right heq).symm
  · cases h

/-- The state of a barrier, told by the calls. -/
structure Sound (senders : List Int64) (c : Closing) : Prop where
  isOpen_iff : ∀ sender, c.barrier.isOpen sender = true
    ↔ sender ∈ senders.toFinset \ c.called
  isExpected_iff : ∀ sender, (c.barrier.expected.get? sender).isSome
    ↔ sender ∈ senders
  openSenders_eq : c.openSenders = c.barrier.pending
  closings_eq : c.reports.count .senderClosed + c.barrier.pending
    = senders.toFinset.card
  waits : ∀ call ∈ c.calls, call.result = none →
    call.sender ∈ senders ∧ call.limit?.isSome

theorem Sound.pending_eq {senders : List Int64} {c : Closing}
    (h : c.Sound senders) :
    c.barrier.pending = (senders.toFinset \ c.called).card :=
  pending_of_isOpen_iff h.isOpen_iff

theorem sound_ofSenders (senders : List Int64) :
    (ofSenders senders).Sound senders where
  isOpen_iff sender := by
    show ((SortedSet.ofList senders).get? sender).isSome = true ↔ _
    rw [SortedSet.get?_ofList_isSome, Finset.mem_sdiff, List.mem_toFinset]
    simp [called, ofSenders]
  isExpected_iff _ := SortedSet.get?_ofList_isSome
  openSenders_eq := Nat.zero_add _
  closings_eq := by
    show 0 + (Barrier.ofSenders senders).pending = _
    rw [Nat.zero_add]
    refine pending_of_isOpen_iff fun sender => ?_
    rw [List.mem_toFinset]
    exact SortedSet.get?_ofList_isSome
  waits _ h := by cases h

section Steps

variable {senders : List Int64} {c : Closing}

/-- A sender that the barrier does not know is not one of the expected. -/
theorem Sound.not_mem_of_error (h : c.Sound senders) {sender : Int64}
    {e : CalcError} (herror : c.barrier.close sender = .error e) :
    sender ∉ senders ∧ e = .unknownSender sender := by
  unfold Barrier.close at herror
  split at herror
  · cases herror
  · rename_i hexpected
    exact ⟨fun hmem => hexpected ((h.isExpected_iff sender).2 hmem),
      (Except.error.inj herror).symm⟩

/-- An open sender that is closed is reported, and counts no longer. -/
theorem Sound.reports_of_close (h : c.Sound senders) {sender : Int64}
    {next : Barrier} (hclose : c.barrier.close sender = .ok next)
    {reports : List WorkerReport}
    (hreports : reports = if c.barrier.isOpen sender
      then .senderClosed :: c.reports else c.reports) :
    { c with reports }.openSenders = next.pending
      ∧ reports.count .senderClosed + next.pending
        = senders.toFinset.card := by
  obtain ⟨-, -, hopen⟩ := isOpen_of_close hclose
  have hnext : next.pending
      = ((senders.toFinset \ c.called).erase sender).card := by
    refine pending_of_isOpen_iff fun other => ?_
    rw [hopen, h.isOpen_iff, Finset.mem_erase]
  have hcount := h.closings_eq
  have hpending := h.pending_eq
  by_cases hsender : c.barrier.isOpen sender = true
  · have hmem := (h.isOpen_iff sender).1 hsender
    rw [Finset.card_erase_of_mem hmem] at hnext
    have hpos := Finset.card_pos.2 ⟨sender, hmem⟩
    rw [hreports, if_pos hsender, openSenders_cons, List.count_cons_self,
      h.openSenders_eq]
    exact ⟨by rw [hnext, hpending]; rfl, by omega⟩
  · have hmem := fun hmem => hsender ((h.isOpen_iff sender).2 hmem)
    rw [Finset.erase_eq_of_notMem hmem] at hnext
    rw [hreports, if_neg hsender]
    exact ⟨h.openSenders_eq.trans (by omega), by omega⟩

theorem Sound.waits_note (h : c.Sound senders) {new : CloseCall}
    (hnew : new.result = none → new.sender ∈ senders ∧ new.limit?.isSome) :
    ∀ call ∈ c.calls ++ [new], call.result = none →
      call.sender ∈ senders ∧ call.limit?.isSome := by
  intro call hcall hnone
  rcases List.mem_append.1 hcall with hcall | hcall
  · exact h.waits call hcall hnone
  · obtain rfl := List.mem_singleton.1 hcall
    exact hnew hnone

/-- Who is turned away leaves the barrier as it is. -/
theorem Sound.turnAway (h : c.Sound senders) {call : CloseCall}
    (hunknown : call.sender ∉ senders) (hresult : call.result.isSome) :
    (c.note call).Sound senders where
  isOpen_iff other := by
    refine (h.isOpen_iff other).trans ?_
    rw [called_note, Finset.mem_sdiff, Finset.mem_sdiff, Finset.mem_insert,
      List.mem_toFinset]
    refine and_congr_right fun hmem => not_congr (or_iff_right ?_).symm
    exact fun heq => hunknown (heq ▸ hmem)
  isExpected_iff := h.isExpected_iff
  openSenders_eq := h.openSenders_eq
  closings_eq := h.closings_eq
  waits := h.waits_note fun hnone => by
    rw [hnone] at hresult
    cases hresult

/-- Who closes a sender takes it out of the barrier. -/
theorem Sound.letIn (h : c.Sound senders) {call : CloseCall} {next : Barrier}
    (hclose : c.barrier.close call.sender = .ok next)
    (hresult : call.result = none → call.limit?.isSome)
    {reports : List WorkerReport}
    (hreports : reports = if c.barrier.isOpen call.sender
      then .senderClosed :: c.reports else c.reports) :
    ({ c with barrier := next, reports }.note call).Sound senders := by
  obtain ⟨hexpected, hmem, hopen⟩ := isOpen_of_close hclose
  obtain ⟨hreported, hcount⟩ := h.reports_of_close hclose hreports
  refine ⟨fun other => ?_, fun other => ?_, hreported, hcount,
    h.waits_note fun hnone =>
      ⟨(h.isExpected_iff call.sender).1 hmem, hresult hnone⟩⟩
  · refine (hopen other).trans ?_
    rw [h.isOpen_iff, called_note, Finset.sdiff_insert, Finset.mem_erase]
    rfl
  · show (next.expected.get? other).isSome ↔ _
    rw [hexpected]
    exact h.isExpected_iff other

/-- The end of a call is no close. -/
theorem Sound.conclude (h : c.Sound senders) (i : Nat)
    (result : Except CalcError Unit) :
    (c.conclude i result).Sound senders where
  isOpen_iff other := by
    rw [called_conclude]
    exact h.isOpen_iff other
  isExpected_iff := h.isExpected_iff
  openSenders_eq := (c.openSenders_conclude i result).trans h.openSenders_eq
  closings_eq := by
    rw [← h.closings_eq]
    cases result <;> rfl
  waits call hcall hnone := by
    obtain ⟨j, hj⟩ := List.mem_iff_getElem?.1 hcall
    rw [calls_conclude] at hj
    by_cases hij : i = j
    · rw [if_pos hij] at hj
      obtain ⟨old, -, rfl⟩ := Option.map_eq_some_iff.1 hj
      cases hnone
    · rw [if_neg hij] at hj
      exact h.waits call (List.mem_of_getElem? hj) hnone

/-- Every move keeps the state told by the calls. -/
theorem sound_step (h : c.Sound senders) (move : Move) :
    (c.step move).Sound senders := by
  cases move with
  | call sender limit? =>
      rcases c.step_call sender limit? with
        ⟨e, herror, hstep⟩ | ⟨next, hclose, hstep⟩
      · rw [hstep]
        exact h.turnAway (h.not_mem_of_error herror).1 rfl
      · rw [hstep]
        refine h.letIn hclose (fun hnone => ?_) rfl
        cases limit? with
        | none => cases hnone
        | some limit => rfl
  | goOn i =>
      rcases c.step_goOn i with hstep | ⟨_, _, result, _, _, _, _, hstep⟩
      · rw [hstep]
        exact h
      · rw [hstep]
        exact h.conclude i result
  | pass ms => exact ⟨h.isOpen_iff, h.isExpected_iff, h.openSenders_eq,
      h.closings_eq, h.waits⟩

theorem sound_after (senders : List Int64) (moves : List Move) :
    ((ofSenders senders).after moves).Sound senders := by
  have hkeeps : ∀ (moves : List Move) {c : Closing}, c.Sound senders →
      (c.after moves).Sound senders := by
    intro moves
    induction moves with
    | nil => intro c h; exact h
    | cons move rest ih => intro c h; exact ih (sound_step h move)
  exact hkeeps moves (sound_ofSenders senders)

end Steps

-- ================================================== how calls return

/-- A wait that ends does so because no sender is open, or because it has run
out. -/
theorem poll_some {b : Barrier} {wait : CloseWait} {now : Nat}
    {result : Except CalcError Unit} (h : b.poll wait now = some result) :
    b.pending = 0 ∧ result = .ok ()
      ∨ 0 < b.pending ∧ wait.deadline ≤ now
        ∧ result = .error (.closeTimeout b.pending wait.limitMs) := by
  unfold Barrier.poll Barrier.isClosed at h
  split at h
  · rename_i hclosed
    exact .inl ⟨of_decide_eq_true hclosed, (Option.some.inj h).symm⟩
  · rename_i hopen
    split at h
    · rename_i hdue
      refine .inr ⟨Nat.pos_of_ne_zero fun hzero => hopen ?_, hdue,
        (Option.some.inj h).symm⟩
      exact decide_eq_true hzero
    · cases h

/-- A wait goes on only while a sender is open and it has not run out. -/
theorem poll_none {b : Barrier} {wait : CloseWait} {now : Nat}
    (h : b.poll wait now = none) : 0 < b.pending ∧ now < wait.deadline := by
  unfold Barrier.poll Barrier.isClosed at h
  split at h
  · cases h
  · rename_i hopen
    split at h
    · cases h
    · rename_i hdue
      refine ⟨Nat.pos_of_ne_zero fun hzero => hopen ?_, Nat.lt_of_not_le hdue⟩
      exact decide_eq_true hzero

section Returns

variable {senders : List Int64} {c : Closing}

/-- No sender is open once all of them were called to close. -/
theorem Sound.mem_called_of_closed (h : c.Sound senders)
    (hclosed : c.barrier.pending = 0) :
    ∀ sender ∈ senders, sender ∈ c.called := by
  intro sender hmem
  rw [h.pending_eq, Finset.card_eq_zero, Finset.sdiff_eq_empty_iff_subset]
    at hclosed
  exact hclosed (List.mem_toFinset.2 hmem)

/-- A call closes its sender for good. -/
theorem Sound.closed_of_called (h : c.Sound senders) {call : CloseCall}
    (hcall : call ∈ c.calls) : c.barrier.isOpen call.sender = false := by
  refine Bool.eq_false_iff.2 fun hopen => ?_
  have hmem := (h.isOpen_iff call.sender).1 hopen
  exact (Finset.mem_sdiff.1 hmem).2 (mem_called.2 ⟨call, hcall, rfl⟩)

/-- No move opens a sender. -/
theorem Sound.pending_step_le (h : c.Sound senders) (move : Move) :
    (c.step move).barrier.pending ≤ c.barrier.pending := by
  rw [h.pending_eq, (sound_step h move).pending_eq]
  refine Finset.card_le_card (Finset.sdiff_subset_sdiff
    (Finset.Subset.refl _) ?_)
  intro sender hsender
  obtain ⟨call, hcall, heq⟩ := mem_called.1 hsender
  obtain ⟨i, hi⟩ := List.mem_iff_getElem?.1 hcall
  obtain ⟨result, hstep, -⟩ := call_step hi move
  exact mem_called.2 ⟨_, List.mem_of_getElem? hstep, heq⟩

/-- As many closings were reported as expected senders were called. -/
theorem Sound.closings_eq_card (h : c.Sound senders) :
    c.reports.count .senderClosed = (senders.toFinset ∩ c.called).card := by
  have hcount := h.closings_eq
  have hpending := h.pending_eq
  have hcard := Finset.card_sdiff_add_card_inter senders.toFinset c.called
  omega

/-- The barrier turns a sender away that it does not know. -/
theorem Sound.step_call_of_unknown (h : c.Sound senders) {sender : Int64}
    (hunknown : sender ∉ senders) (limit? : Option Nat) :
    c.step (.call sender limit?)
      = c.note ⟨sender, limit?, c.time,
        some (.error (.unknownSender sender))⟩ := by
  rcases c.step_call sender limit? with
    ⟨e, herror, hstep⟩ | ⟨next, hclose, -⟩
  · obtain ⟨-, rfl⟩ := h.not_mem_of_error herror
    exact hstep
  · obtain ⟨-, hexpected, -⟩ := isOpen_of_close hclose
    exact absurd ((h.isExpected_iff sender).1 hexpected) hunknown

/-- Whoever is new in a list is at its end. -/
theorem eq_of_getElem?_concat {l : List CloseCall} {new call : CloseCall}
    {i : Nat} (hget : (l ++ [new])[i]? = some call)
    (hnot : l[i]? ≠ some call) : call = new := by
  by_cases hlt : i < l.length
  · rw [List.getElem?_append_left hlt] at hget
    exact absurd hget hnot
  · rw [List.getElem?_append_right (Nat.le_of_not_lt hlt)] at hget
    exact List.mem_singleton.1 (List.mem_of_getElem? hget)

/-- A call returns at once if the barrier does not know its sender, or if it
does not wait. Else it returns well when no sender is open, and with the
number of open ones when some are and its limit has passed. -/
theorem returns_cases (h : c.Sound senders) {move : Move} {call : CloseCall}
    {result : Except CalcError Unit} (hreturns : c.Returns move call result) :
    call.sender ∉ senders ∧ result = .error (.unknownSender call.sender)
      ∨ call.sender ∈ senders ∧ call.limit? = none ∧ result = .ok ()
      ∨ ∃ limit, call.sender ∈ senders ∧ call.limit? = some limit
        ∧ (c.step move).barrier = c.barrier ∧ (c.step move).time = c.time
        ∧ c.barrier.poll ⟨limit, call.begun + limit⟩ c.time
          = some result := by
  obtain ⟨i, hwaits, hcall, hresult⟩ := hreturns
  -- it has not returned before, so it is not there as it is now
  have hnot : c.calls[i]? ≠ some call := by
    intro hold
    rw [hwaits call hold] at hresult
    cases hresult
  cases move with
  | call sender limit? =>
      rcases c.step_call sender limit? with
        ⟨e, herror, hstep⟩ | ⟨next, hclose, hstep⟩
      · obtain ⟨hunknown, rfl⟩ := h.not_mem_of_error herror
        rw [hstep] at hcall
        obtain rfl := eq_of_getElem?_concat hcall hnot
        exact .inl ⟨hunknown, (Option.some.inj hresult).symm⟩
      · obtain ⟨-, hmem, -⟩ := isOpen_of_close hclose
        rw [hstep] at hcall
        obtain rfl := eq_of_getElem?_concat hcall hnot
        refine .inr (.inl ⟨(h.isExpected_iff sender).1 hmem, ?_⟩)
        cases limit? with
        | none => exact ⟨rfl, (Option.some.inj hresult).symm⟩
        | some limit => cases hresult
  | goOn j =>
      rcases c.step_goOn j with
        hstep | ⟨old, wait, r, hold, hnone, hwait, hpoll, hstep⟩
      · rw [hstep] at hcall
        exact absurd hcall hnot
      · rw [hstep]
        rw [hstep, calls_conclude] at hcall
        by_cases hij : j = i
        · subst hij
          rw [if_pos rfl, hold] at hcall
          obtain rfl := Option.some.inj hcall
          obtain rfl : r = result := Option.some.inj hresult
          obtain ⟨limit, hlimit, rfl⟩ := Option.map_eq_some_iff.1 hwait
          refine .inr (.inr ⟨limit, ?_, hlimit, rfl, rfl, hpoll⟩)
          exact (h.waits old (List.mem_of_getElem? hold) hnone).1
        · rw [if_neg hij] at hcall
          exact absurd hcall hnot
  | pass ms => exact absurd hcall hnot

/-- How a call can return, told by the state in which it has returned. -/
theorem returns_exact (h : c.Sound senders) {move : Move} {call : CloseCall}
    {result : Except CalcError Unit} (hreturns : c.Returns move call result) :
    let next := c.step move
    call.sender ∉ senders ∧ result = .error (.unknownSender call.sender)
      ∨ call.sender ∈ senders ∧ result = .ok ()
        ∧ (call.limit?.isSome → next.barrier.pending = 0
          ∧ ∀ sender ∈ senders, sender ∈ next.called)
      ∨ call.sender ∈ senders ∧ ∃ limit, call.limit? = some limit
        ∧ result = .error (.closeTimeout next.barrier.pending limit)
        ∧ call.begun + limit ≤ next.time ∧ 0 < next.barrier.pending := by
  intro next
  rcases returns_cases h hreturns with
    hunknown | ⟨hmem, hlimit, hok⟩ | ⟨limit, hmem, hlimit, hbarrier, htime,
      hpoll⟩
  · exact .inl hunknown
  · refine .inr (.inl ⟨hmem, hok, fun hsome => ?_⟩)
    rw [hlimit] at hsome
    cases hsome
  · rw [← hbarrier, ← htime] at hpoll
    rcases poll_some hpoll with ⟨hzero, hok⟩ | ⟨hpos, hdue, herror⟩
    · have hall := (sound_step h move).mem_called_of_closed hzero
      exact .inr (.inl ⟨hmem, hok, fun _ => ⟨hzero, hall⟩⟩)
    · exact .inr (.inr ⟨hmem, limit, hlimit, herror, hdue, hpos⟩)

/-- A call that waits, and has a look that does not make it return, may go on
waiting. -/
theorem waits_of_goOn {i : Nat} {call : CloseCall}
    (h : c.Sound senders) (hcall : c.calls[i]? = some call)
    (hnone : call.result = none)
    (hstays : (c.step (.goOn i)).calls[i]? = some call) :
    ∃ limit, call.limit? = some limit ∧ 0 < c.barrier.pending
      ∧ c.time < call.begun + limit := by
  obtain ⟨-, hlimit⟩ := h.waits call (List.mem_of_getElem? hcall) hnone
  obtain ⟨limit, hlimit⟩ := Option.isSome_iff_exists.1 hlimit
  have hwait : call.wait? = some ⟨limit, call.begun + limit⟩ := by
    rw [CloseCall.wait?, hlimit]
    rfl
  rw [step_goOn_of_waits hcall hnone hwait] at hstays
  refine ⟨limit, hlimit, ?_⟩
  cases hpoll : c.barrier.poll ⟨limit, call.begun + limit⟩ c.time with
  | none => exact poll_none hpoll
  | some result =>
      rw [hpoll, Option.elim_some, calls_conclude, if_pos rfl, hcall] at hstays
      rw [← Option.some.inj hstays] at hnone
      cases hnone

end Returns

end Closing

end MergeOnWrite
