/-
An invocation that goes on while nothing else happens.

What it is answered is determined by the traffic: the clock stands still,
the store refuses nothing that it would grant, and what is left to chance
comes out as in idle surroundings. So one can tell what becomes of it.

# Main statements

- `reachable_serve`: what becomes of traffic in which one invocation
  arrives and goes on alone can come about.
- `addsOnly_serve`: it adds at most commits of that invocation.
- `reachable_served`: requests can be served one after another.
-/
import MergeOnWrite.Proofs.Service.Traffic

namespace MergeOnWrite

namespace Stand

/-- What an invocation is answered while nothing else happens, a granted
commit apart. -/
def reply (route : InstanceId → LockVersion) (clock : Instant) (store : Store)
    (s : Stand) : (q : Question) → q.Answer × Stand
  | .now => (clock, { s with readings := clock :: s.readings })
  | .route i => (route i, s)
  | .start => (.ok (), { s with txn := some (.open store 0) })
  | .get key =>
    match s.txn with
    | some t => (.ok (t.get key).1, { s with txn := some (t.get key).2 })
    | none => (.error .other, s)
  | .scan stem =>
    match s.txn with
    | some t => (.ok (t.scan stem).1, { s with txn := some (t.scan stem).2 })
    | none => (.error .other, s)
  | .put key value => ((), s.write (·.put key value))
  | .remove key => ((), s.write (·.remove key))
  | .commit => (.error .conflict, { s with txn := none })
  | .report event => (Question.idle (.report event), s)
  | .jitter => (Question.idle .jitter, s)
  | .pause ms => (Question.idle (.pause ms), s)
  | .chance probability => (Question.idle (.chance probability), s)
  | .spread range => (Question.idle (.spread range), s)
  | .replay call delay => (Question.idle (.replay call delay), s)

/-- These are answers that an invocation may be given. -/
theorem answers_reply (route : InstanceId → LockVersion) (clock : Instant)
    (store : Store) (s : Stand) (q : Question) :
    s.Answers route clock store q (s.reply route clock store q).1
      (s.reply route clock store q).2 := by
  cases q with
  | now | route => exact ⟨rfl, rfl⟩
  | start => exact .inr ⟨0, rfl, rfl⟩
  | get key =>
      cases ht : s.txn with
      | none =>
          simp only [reply, ht]
          exact .inl ⟨_, rfl, rfl⟩
      | some t =>
          simp only [reply, ht]
          exact .inr ⟨t, ht, rfl, rfl⟩
  | scan stem =>
      cases ht : s.txn with
      | none =>
          simp only [reply, ht]
          exact .inl ⟨_, rfl, rfl⟩
      | some t =>
          simp only [reply, ht]
          exact .inr ⟨t, ht, rfl, rfl⟩
  | commit => exact ⟨_, rfl, rfl⟩
  | put | remove | report | jitter | pause | chance | spread | replay =>
      exact rfl

end Stand

namespace Traffic

/-- The next step of one invocation, while nothing else happens. -/
def next (route : InstanceId → LockVersion) (s : Traffic) (id : Nat) :
    Traffic :=
  match s.invocations id with
  | none => s
  | some inv =>
    match inv.script with
    | .done _ => s
    | .ask q go =>
      let (x, stand) := inv.stand.reply route s.clock s.store q
      let refused := s.put id { inv with script := go x, stand }
      match q, go with
      | .commit, go =>
        match inv.stand.txn with
        | none => refused
        | some t =>
          match s.store.commit t with
          | .error _ => refused
          | .ok store =>
            { s.put id { inv with
                script := go (.ok ())
                stand := inv.stand.committed (.ok ()) } with
              store
              history := ⟨id, inv.config, inv.call, inv.stand.readings,
                s.clock, s.store, store⟩ :: s.history }
      | _, _ => refused

/-- Some steps of one invocation, while nothing else happens. -/
def alone (route : InstanceId → LockVersion) (id : Nat) :
    Nat → Traffic → Traffic
  | 0, s => s
  | steps + 1, s => alone route id steps (s.next route id)

variable {route : InstanceId → LockVersion} {initial : Store} {s : Traffic}

theorem reachable_next (h : Reachable route initial s) (id : Nat) :
    Reachable route initial (s.next route id) := by
  unfold next
  cases hinv : s.invocations id with
  | none => exact h
  | some inv =>
      simp only
      cases hscript : inv.script with
      | done response => exact h
      | ask q go =>
          have hrefused := h.step (.answer s id inv q go _ _ hinv hscript
            (Stand.answers_reply route s.clock s.store inv.stand q))
          cases q with
          | commit =>
              simp only
              split
              · exact hrefused
              · rename_i t ht
                split
                · exact hrefused
                · rename_i store hcommit
                  exact h.step (.commit s id inv go t store (.ok ()) hinv
                    hscript ht hcommit)
          | now | route | start | get | scan | put | remove | report | jitter
          | pause | chance | spread | replay => exact hrefused

/-- What becomes of traffic in which one invocation alone goes on can come
about. -/
theorem reachable_alone (id : Nat) :
    ∀ (steps : Nat) {s : Traffic}, Reachable route initial s →
      Reachable route initial (s.alone route id steps) := by
  intro steps
  induction steps with
  | zero => exact fun h => h
  | succ steps ih => exact fun h => ih (reachable_next h id)

/-- What happened before stays on record, the clock stands still, and other
invocations stay where they are. What is added are commits of the
invocation. -/
structure AddsOnly (id : Nat) (config : LockConfig) (call : Call)
    (s s' : Traffic) : Prop where
  clock_eq : s'.clock = s.clock
  others : ∀ n, n ≠ id → s'.invocations n = s.invocations n
  added : ∃ new, s'.history = new ++ s.history
    ∧ ∀ g ∈ new, g.id = id ∧ g.config = config ∧ g.call = call

/-- True of traffic in which an invocation is one of some request. -/
def HasCall (s : Traffic) (id : Nat) (config : LockConfig) (call : Call) :
    Prop :=
  ∃ inv, s.invocations id = some inv ∧ inv.config = config ∧ inv.call = call

theorem hasCall_put (s : Traffic) (id : Nat) (inv : Invocation) :
    (s.put id inv).HasCall id inv.config inv.call :=
  ⟨inv, if_pos rfl, rfl, rfl⟩

/-- A step of an invocation adds at most a commit of its own. -/
theorem addsOnly_next (route : InstanceId → LockVersion) {id : Nat}
    {config : LockConfig} {call : Call} (h : s.HasCall id config call) :
    AddsOnly id config call s (s.next route id)
      ∧ (s.next route id).HasCall id config call := by
  obtain ⟨inv, hinv, rfl, rfl⟩ := h
  have hput : ∀ inv' : Invocation,
      AddsOnly id inv.config inv.call s (s.put id inv') :=
    fun inv' => ⟨rfl, fun n hn => if_neg hn, [], rfl, nofun⟩
  unfold next
  rw [hinv]
  simp only
  cases hscript : inv.script with
  | done response =>
      exact ⟨⟨rfl, fun _ _ => rfl, [], rfl, nofun⟩, inv, hinv, rfl, rfl⟩
  | ask q go =>
      cases q with
      | commit =>
          simp only
          split
          · exact ⟨hput _, hasCall_put ..⟩
          · split
            · exact ⟨hput _, hasCall_put ..⟩
            · refine ⟨⟨rfl, fun n hn => if_neg hn, [_], rfl, fun g hg => ?_⟩,
                hasCall_put ..⟩
              rw [List.mem_singleton.1 hg]
              exact ⟨rfl, rfl, rfl⟩
      | now | route | start | get | scan | put | remove | report | jitter
      | pause | chance | spread | replay => exact ⟨hput _, hasCall_put ..⟩

theorem addsOnly_alone (route : InstanceId → LockVersion) {id : Nat}
    {config : LockConfig} {call : Call} :
    ∀ (steps : Nat) {s : Traffic}, s.HasCall id config call →
      AddsOnly id config call s (s.alone route id steps)
        ∧ (s.alone route id steps).HasCall id config call := by
  intro steps
  induction steps with
  | zero => exact fun h => ⟨⟨rfl, fun _ _ => rfl, [], rfl, nofun⟩, h⟩
  | succ steps ih =>
      intro s h
      obtain ⟨hfirst, hcall⟩ := addsOnly_next route h
      obtain ⟨⟨hclock, hothers, new, hnew, hadded⟩, hlast⟩ := ih hcall
      obtain ⟨old, hold, haddedOld⟩ := hfirst.added
      refine ⟨⟨hclock.trans hfirst.clock_eq, fun n hn =>
        (hothers n hn).trans (hfirst.others n hn), new ++ old, ?_,
        fun g hg => ?_⟩, hlast⟩
      · rw [alone, hnew, hold, List.append_assoc]
      · rcases List.mem_append.1 hg with hg | hg
        · exact hadded g hg
        · exact haddedOld g hg

/-- Has an invocation arrive and go on for some steps, while nothing else
happens. -/
def serve (route : InstanceId → LockVersion) (config : LockConfig)
    (steps id : Nat) (call : Call) (s : Traffic) : Traffic :=
  alone route id steps (s.put id ⟨config, call, call.attempt config, {}⟩)

theorem reachable_serve (h : Reachable route initial s) {id : Nat}
    (hfree : s.invocations id = none) (config : LockConfig) (steps : Nat)
    (call : Call) :
    Reachable route initial (s.serve route config steps id call) :=
  reachable_alone id steps (h.step (.arrive s id config call hfree))

/-- An invocation that arrives, and goes on alone, adds at most commits of
its own. -/
theorem addsOnly_serve (s : Traffic) (route : InstanceId → LockVersion)
    (config : LockConfig) (steps id : Nat) (call : Call) :
    AddsOnly id config call s (s.serve route config steps id call)
      ∧ (s.serve route config steps id call).HasCall id config call := by
  obtain ⟨h, hcall⟩ := addsOnly_alone route steps (hasCall_put s id
    ⟨config, call, call.attempt config, {}⟩)
  exact ⟨⟨h.clock_eq, fun n hn => (h.others n hn).trans (if_neg hn), h.added⟩,
    hcall⟩

-- ================================================== one after another

/-- Traffic in which requests were served one after another from an empty
store, all of one time; the latest comes first. -/
def served (route : InstanceId → LockVersion) (clock : Instant) (steps : Nat) :
    List Call → Traffic
  | [] => { store := {}, clock }
  | call :: earlier =>
    (served route clock steps earlier).serve route {} steps earlier.length call

/-- Requests are numbered in the order in which they were served. -/
theorem invocations_served (route : InstanceId → LockVersion) (clock : Instant)
    (steps : Nat) : ∀ (calls : List Call) {n : Nat}, calls.length ≤ n →
      (served route clock steps calls).invocations n = none := by
  intro calls
  induction calls with
  | nil => exact fun _ => rfl
  | cons call earlier ih =>
      intro n hn
      rw [List.length_cons] at hn
      rw [served, (addsOnly_serve ..).1.others n (by omega), ih (by omega)]

theorem reachable_served (route : InstanceId → LockVersion) {clock : Instant}
    (h : clock.IsClockTime) (steps : Nat) : ∀ calls : List Call,
      Reachable route {} (served route clock steps calls) := by
  intro calls
  induction calls with
  | nil => exact .start clock h
  | cons call earlier ih =>
      exact reachable_serve ih
        (invocations_served route clock steps earlier (Nat.le_refl _)) ..

/-- What the latest request adds are commits of its own. -/
theorem history_served (route : InstanceId → LockVersion) (clock : Instant)
    (steps : Nat) (call : Call) (earlier : List Call) :
    ∃ new, (served route clock steps (call :: earlier)).history
        = new ++ (served route clock steps earlier).history
      ∧ ∀ g ∈ new, g.config = {} ∧ g.call = call := by
  obtain ⟨new, hnew, hadded⟩ := (addsOnly_serve
    (served route clock steps earlier) route {} steps earlier.length
      call).1.added
  exact ⟨new, hnew, fun g hg => (hadded g hg).2⟩

/-- True if an invocation has ended with success. -/
def hasSucceeded (s : Traffic) (id : Nat) : Bool :=
  match s.invocations id with
  | none => false
  | some inv =>
    match inv.script with
    | .done response => response.status.code = .ok
    | .ask .. => false

/-- What the invocation of the latest request has come to, if it has ended
with success. -/
theorem succeeded_served (route : InstanceId → LockVersion) (clock : Instant)
    (steps : Nat) (call : Call) (earlier : List Call) {id : Nat}
    (hid : earlier.length = id)
    (h : (served route clock steps (call :: earlier)).hasSucceeded id = true) :
    ∃ inv response,
      (served route clock steps (call :: earlier)).invocations id = some inv
      ∧ inv.call = call ∧ inv.script = .done response
      ∧ response.status.code = .ok := by
  subst hid
  obtain ⟨inv, hinv, -, hcall⟩ := (addsOnly_serve
    (served route clock steps earlier) route {} steps earlier.length call).2
  replace hinv : (served route clock steps
    (call :: earlier)).invocations earlier.length = some inv := hinv
  rw [hasSucceeded, hinv] at h
  simp only at h
  cases hscript : inv.script with
  | done response =>
      rw [hscript] at h
      exact ⟨inv, response, hinv, hcall, hscript, of_decide_eq_true h⟩
  | ask q go =>
      rw [hscript] at h
      cases h

/-- Of two requests that each added to the history, each has committed
once. -/
theorem history_pair (route : InstanceId → LockVersion) (clock : Instant)
    (steps : Nat) (a b : Call)
    (hfirst : (served route clock steps [a]).history.length = 1)
    (hsecond : (served route clock steps [b, a]).history.length = 2) :
    ∃ x g, (served route clock steps [b, a]).history = [x, g]
      ∧ (x.config = {} ∧ x.call = b) ∧ g.config = {} ∧ g.call = a := by
  obtain ⟨old, hold, hg⟩ := history_served route clock steps a []
  obtain ⟨new, hnew, hx⟩ := history_served route clock steps b [a]
  obtain ⟨g, hgs⟩ := List.length_eq_one_iff.1 hfirst
  rw [hgs] at hnew
  rw [hnew, List.length_append] at hsecond
  obtain ⟨x, rfl⟩ := List.length_eq_one_iff.1
    (show new.length = 1 from Nat.succ.inj hsecond)
  refine ⟨x, g, hnew, hx x (List.mem_singleton_self x), hg g ?_⟩
  rw [hgs] at hold
  rw [show old = [g] from (hold.trans (List.append_nil old)).symm]
  exact List.mem_singleton_self g

end Traffic

end MergeOnWrite
