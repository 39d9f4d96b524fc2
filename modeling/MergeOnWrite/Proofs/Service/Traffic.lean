/-
Traffic: any number of invocations of handlers on one store.

Invocations arrive at any time and take their steps in any order, one
question at a time. The store may refuse any question with any code, and
grants a commit only as `Store.commit` does; it may even answer a commit
with an error that it has granted. The wall clock never goes back; it may
move between any two steps. Which version of the protocol an
instance uses is fixed. What happened is noted as the list of the commits
that were granted (`Traffic.history`).

# The invariant

A script that reads in a transaction cannot tell it from a draft on any
entries that hold what it has read so far (`answers_progress`). So an
invocation is safe on all of those (`Invocation.Sound`), and when its
commit is granted, the live entries of that moment are among them. This
makes the history a chain of stores in which every link is what one
request, alone on the store, does to it.

# Main statements

- `Invocation.Fits.effect_of_commit`: a commit that is granted does what its
  request does alone on the live entries of that moment.
- `sound_step`, `sound_of_reachable`: the invariant is kept.
-/
import MergeOnWrite.Proofs.Service.Attempt
import MergeOnWrite.Proofs.Time.Order

namespace MergeOnWrite

-- ================================================== invocations

/-- What one invocation did so far. -/
structure Stand where
  /-- Its transaction, if one is open. -/
  txn : Option Txn := none
  /-- What the clock showed, latest first. -/
  readings : List Instant := []
  /-- How many of its commits it knows to be granted. -/
  commits : Nat := 0

/-- An invocation of the handler of a request. -/
structure Invocation where
  config : LockConfig
  call : Call
  /-- What is left of it. -/
  script : Script (Response call.Payload)
  stand : Stand := {}

namespace Stand

/-- Changes the transaction, if one is open. -/
def write (s : Stand) (change : Txn → Txn) : Stand :=
  { s with txn := s.txn.map change }

/-- Closes the transaction after a commit that was granted. The answer may
get lost, which the invocation cannot tell from a refusal. -/
def committed (s : Stand) (result : Except StoreCode Unit) : Stand :=
  { s with
    txn := none
    commits := s.commits + if result.isOk then 1 else 0 }

/-- What an invocation may be answered, a granted commit apart, while the
clock shows a time and the store is in some state. -/
def Answers (route : InstanceId → LockVersion) (clock : Instant)
    (store : Store) (s : Stand) : (q : Question) → q.Answer → Stand → Prop
  | .now, now, s' => now = clock ∧ s' = { s with readings := now :: s.readings }
  | .route i, version, s' => version = route i ∧ s' = s
  | .start, result, s' =>
    (∃ code, result = .error code ∧ s' = { s with txn := none })
      ∨ ∃ time, result = .ok () ∧ s' = { s with txn := some (.open store time) }
  | .get key, result, s' =>
    (∃ code, result = .error code ∧ s' = s)
      ∨ ∃ t, s.txn = some t ∧ result = .ok (t.get key).1
        ∧ s' = { s with txn := some (t.get key).2 }
  | .scan stem, result, s' =>
    (∃ code, result = .error code ∧ s' = s)
      ∨ ∃ t, s.txn = some t ∧ result = .ok (t.scan stem).1
        ∧ s' = { s with txn := some (t.scan stem).2 }
  | .put key value, _, s' => s' = s.write (·.put key value)
  | .remove key, _, s' => s' = s.write (·.remove key)
  | .commit, result, s' => ∃ code, result = .error code
    ∧ s' = { s with txn := none }
  | .report _, _, s' | .jitter, _, s' | .pause _, _, s' | .chance _, _, s'
  | .spread _, _, s' | .replay .., _, s' => s' = s

/-- The progress of an invocation, as if its transaction had begun on some
entries. -/
def progress (s : Stand) (base : Entries) : Progress where
  draft := s.txn.map fun t => ⟨base, t.writes.applyTo base⟩
  readings := s.readings
  commits := s.commits

/-- True of entries that hold what an invocation has read. -/
def AgreesWith (s : Stand) (base : Entries) : Prop :=
  ∀ t, s.txn = some t → t.AgreesWith base

end Stand

-- ================================================== traffic

/-- A commit that was granted. -/
structure Granted where
  /-- The invocation that asked for it. -/
  id : Nat
  config : LockConfig
  call : Call
  /-- What the clock showed to the invocation before, latest first. -/
  readings : List Instant
  /-- What the clock showed at the commit. -/
  clock : Instant
  /-- The store that the commit applied to. -/
  before : Store
  after : Store

/-- Invocations on one store. -/
structure Traffic where
  store : Store
  clock : Instant
  /-- The invocations that have arrived, those that have ended among
  them. -/
  invocations : Nat → Option Invocation := fun _ => none
  /-- The commits that were granted, latest first. -/
  history : List Granted := []

namespace Traffic

/-- Puts an invocation in the place of one that it goes on from. -/
def put (s : Traffic) (id : Nat) (inv : Invocation) : Traffic :=
  { s with
    invocations := fun n => if n = id then some inv else s.invocations n }

/-- One step of one invocation, or of the clock. -/
inductive Step (route : InstanceId → LockVersion) : Traffic → Traffic → Prop
  | tick (s : Traffic) (now : Instant) :
    now.IsClockTime → s.clock ≤ now → Step route s { s with clock := now }
  | arrive (s : Traffic) (id : Nat) (config : LockConfig) (call : Call) :
    s.invocations id = none →
    Step route s (s.put id ⟨config, call, call.attempt config, {}⟩)
  | answer (s : Traffic) (id : Nat) (inv : Invocation) (q : Question)
    (next : q.Answer → Script (Response inv.call.Payload)) (x : q.Answer)
    (stand : Stand) :
    s.invocations id = some inv → inv.script = .ask q next →
    inv.stand.Answers route s.clock s.store q x stand →
    Step route s (s.put id { inv with script := next x, stand })
  | commit (s : Traffic) (id : Nat) (inv : Invocation)
    (next : Except StoreCode Unit → Script (Response inv.call.Payload))
    (t : Txn) (store : Store) (result : Except StoreCode Unit) :
    s.invocations id = some inv → inv.script = .ask .commit next →
    inv.stand.txn = some t → s.store.commit t = .ok store →
    Step route s
      { s.put id { inv with
          script := next result
          stand := inv.stand.committed result } with
        store
        history := ⟨id, inv.config, inv.call, inv.stand.readings, s.clock,
          s.store, store⟩ :: s.history }

/-- The traffic that can come about on a store. -/
inductive Reachable (route : InstanceId → LockVersion) (initial : Store) :
    Traffic → Prop
  | start (clock : Instant) : clock.IsClockTime →
    Reachable route initial { store := initial, clock }
  | step {s s' : Traffic} : Reachable route initial s → Step route s s' →
    Reachable route initial s'

end Traffic

-- ================================================== drafts of transactions

theorem Stand.progress_draft {s : Stand} {t : Txn} (h : s.txn = some t)
    (base : Entries) :
    (s.progress base).draft = some ⟨base, t.writes.applyTo base⟩ := by
  rw [progress, h]
  rfl

/-- A transaction that has just begun on some entries. -/
def Txn.begunWith (entries : Entries) : Txn :=
  { snapshot := entries, version := 0, started := 0 }

/-- A write of a transaction that reads nothing is one into the draft. -/
theorem Stand.write_progress {s : Stand} {base : Entries}
    {change : Txn → Txn} {change' : Entries → Entries}
    (hreads : ∀ t, (change t).AgreesWith base → t.AgreesWith base)
    (hview : ∀ t, (change t).writes.applyTo base
      = change' (t.writes.applyTo base))
    (hagree : (s.write change).AgreesWith base) :
    s.AgreesWith base
      ∧ (s.write change).progress base = (s.progress base).write change' := by
  cases ht : s.txn with
  | none =>
      refine ⟨fun u hu => (by rw [ht] at hu; cases hu), ?_⟩
      rw [progress, progress, Progress.write, write, ht]
      rfl
  | some t =>
      refine ⟨fun u hu => ?_, ?_⟩
      · obtain rfl := Option.some.inj (ht.symm.trans hu)
        exact hreads t (hagree (change t) (by rw [write, ht]; rfl))
      · rw [progress, progress, Progress.write, write, ht]
        exact congrArg (fun after => Progress.mk (some ⟨base, after⟩)
          s.readings s.commits) (hview t)

/-- What an invocation is answered, a draft answers as well, if it is on
entries that agree with all that has been read by then. -/
theorem Stand.answers_progress {route : InstanceId → LockVersion}
    {clock : Instant} {store : Store} {s s' : Stand} {q : Question}
    {x : q.Answer} {base : Entries} (hclock : clock.IsClockTime)
    (h : s.Answers route clock store q x s') (hagree : s'.AgreesWith base) :
    ∃ base₀, s.AgreesWith base₀
      ∧ (s.progress base₀).Answers route q x (s'.progress base) := by
  -- an invocation agrees with the snapshot of its own transaction
  have hself : s.AgreesWith ((s.txn.map Txn.snapshot).getD ∅) := by
    intro t ht
    rw [ht]
    exact t.agreesWith_snapshot
  cases q with
  | now =>
      obtain ⟨rfl, rfl⟩ := h
      exact ⟨base, hagree, hclock, rfl⟩
  | route i =>
      obtain ⟨rfl, rfl⟩ := h
      exact ⟨base, hagree, rfl, rfl⟩
  | start =>
      rcases h with ⟨code, rfl, rfl⟩ | ⟨time, rfl, rfl⟩
      · exact ⟨_, hself, .inl ⟨code, rfl, rfl⟩⟩
      · exact ⟨_, hself, .inr ⟨base, rfl, rfl⟩⟩
  | get key =>
      rcases h with ⟨code, rfl, rfl⟩ | ⟨t, ht, rfl, rfl⟩
      · exact ⟨base, hagree, rfl, .inl ⟨code, rfl⟩⟩
      · have hafter : (t.get key).2.AgreesWith (Txn.begunWith base).snapshot :=
          hagree _ rfl
        refine ⟨base, fun u hu => ?_, ?_, .inr ⟨_, progress_draft ht base, ?_⟩⟩
        · obtain rfl := Option.some.inj (ht.symm.trans hu)
          exact hafter.of_get
        · rw [progress, progress, ht]
          rfl
        · exact congrArg Except.ok
            ((congrArg Prod.fst (Txn.get_onto hafter)).symm.trans
              (Txn.get_fst ..))
  | scan stem =>
      rcases h with ⟨code, rfl, rfl⟩ | ⟨t, ht, rfl, rfl⟩
      · exact ⟨base, hagree, rfl, .inl ⟨code, rfl⟩⟩
      · have hafter : (t.scan stem).2.AgreesWith (Txn.begunWith base).snapshot :=
          hagree _ rfl
        refine ⟨base, fun u hu => ?_, ?_, .inr ⟨_, progress_draft ht base, ?_⟩⟩
        · obtain rfl := Option.some.inj (ht.symm.trans hu)
          exact hafter.of_scan
        · rw [progress, progress, ht]
          rfl
        · exact congrArg Except.ok
            (congrArg Prod.fst (Txn.scan_onto hafter)).symm
  | put key value =>
      obtain rfl := h
      exact ⟨base, write_progress (fun _ => id)
        (fun t => (t.onto (.begunWith base)).view_put key value) hagree⟩
  | remove key =>
      obtain rfl := h
      exact ⟨base, write_progress (fun _ => id)
        (fun t => (t.onto (.begunWith base)).view_remove key) hagree⟩
  | commit =>
      obtain ⟨code, rfl, rfl⟩ := h
      exact ⟨_, hself, .inl ⟨code, rfl, rfl⟩⟩
  | report | jitter | pause | chance | spread | replay =>
      obtain rfl := h
      exact ⟨base, hagree, rfl⟩

/-- After an answer, the transaction is one that was open before, with its
snapshot, or it has just begun. -/
theorem Stand.answers_txn {route : InstanceId → LockVersion}
    {clock : Instant} {store : Store} {s s' : Stand} {q : Question}
    {x : q.Answer} (h : s.Answers route clock store q x s') {t : Txn}
    (ht : s'.txn = some t) :
    (q = .start ∧ ∃ time, t = .open store time)
      ∨ ∃ u, s.txn = some u ∧ t.version = u.version
        ∧ t.snapshot = u.snapshot := by
  cases q with
  | now => obtain ⟨-, rfl⟩ := h; exact .inr ⟨t, ht, rfl, rfl⟩
  | route i => obtain ⟨-, rfl⟩ := h; exact .inr ⟨t, ht, rfl, rfl⟩
  | start =>
      rcases h with ⟨code, -, rfl⟩ | ⟨time, -, rfl⟩
      · cases ht
      · exact .inl ⟨rfl, time, (Option.some.inj ht).symm⟩
  | get key =>
      rcases h with ⟨code, -, rfl⟩ | ⟨u, hu, -, rfl⟩
      · exact .inr ⟨t, ht, rfl, rfl⟩
      · obtain rfl := Option.some.inj ht
        exact .inr ⟨u, hu, rfl, rfl⟩
  | scan stem =>
      rcases h with ⟨code, -, rfl⟩ | ⟨u, hu, -, rfl⟩
      · exact .inr ⟨t, ht, rfl, rfl⟩
      · obtain rfl := Option.some.inj ht
        exact .inr ⟨u, hu, rfl, rfl⟩
  | put key value =>
      obtain rfl := h
      obtain ⟨u, hu, rfl⟩ := Option.map_eq_some_iff.1 ht
      exact .inr ⟨u, hu, rfl, rfl⟩
  | remove key =>
      obtain rfl := h
      obtain ⟨u, hu, rfl⟩ := Option.map_eq_some_iff.1 ht
      exact .inr ⟨u, hu, rfl, rfl⟩
  | commit => obtain ⟨code, -, rfl⟩ := h; cases ht
  | report | jitter | pause | chance | spread | replay =>
      obtain rfl := h
      exact .inr ⟨t, ht, rfl, rfl⟩

/-- An answer leaves a transaction where it has begun. -/
theorem Stand.answers_begun {route : InstanceId → LockVersion}
    {clock : Instant} {store : Store} {s s' : Stand} {q : Question}
    {x : q.Answer} (h : s.Answers route clock store q x s')
    (hbegun : ∀ t, s.txn = some t → t.BegunOn store) :
    ∀ t, s'.txn = some t → t.BegunOn store := by
  intro t ht
  rcases answers_txn h ht with ⟨-, time, rfl⟩ | ⟨u, hu, hversion, hsnapshot⟩
  · exact Txn.begunOn_open ..
  · exact (hbegun u hu).congr hversion hsnapshot

/-- An answer adds at most what the clock shows to the readings, and grants
no commit. -/
theorem Stand.answers_readings {route : InstanceId → LockVersion}
    {clock : Instant} {store : Store} {s s' : Stand} {q : Question}
    {x : q.Answer} (h : s.Answers route clock store q x s') :
    (∀ now ∈ s'.readings, now = clock ∨ now ∈ s.readings)
      ∧ s'.commits = s.commits := by
  cases q with
  | now =>
      obtain ⟨rfl, rfl⟩ := h
      exact ⟨fun now hnow => List.mem_cons.1 hnow, rfl⟩
  | route i => obtain ⟨-, rfl⟩ := h; exact ⟨fun _ => .inr, rfl⟩
  | start =>
      rcases h with ⟨code, -, rfl⟩ | ⟨time, -, rfl⟩ <;>
        exact ⟨fun _ => .inr, rfl⟩
  | get key =>
      rcases h with ⟨code, -, rfl⟩ | ⟨u, hu, -, rfl⟩ <;>
        exact ⟨fun _ => .inr, rfl⟩
  | scan stem =>
      rcases h with ⟨code, -, rfl⟩ | ⟨u, hu, -, rfl⟩ <;>
        exact ⟨fun _ => .inr, rfl⟩
  | commit => obtain ⟨code, -, rfl⟩ := h; exact ⟨fun _ => .inr, rfl⟩
  | put | remove | report | jitter | pause | chance | spread | replay =>
      obtain rfl := h
      exact ⟨fun _ => .inr, rfl⟩

-- ================================================== the invariant

/-- What holds of an invocation on a store: it is safe on any entries that
hold what it has read. -/
structure Invocation.Fits (route : InstanceId → LockVersion) (store : Store)
    (inv : Invocation) : Prop where
  begun : ∀ t, inv.stand.txn = some t → t.BegunOn store
  safe : ∀ base, inv.stand.AgreesWith base →
    Script.Safe ⟨route, inv.call.Effect route inv.config⟩ inv.call.Settled
      (inv.stand.progress base) inv.script

namespace Invocation.Fits

variable {route : InstanceId → LockVersion} {store store' : Store}
  {inv : Invocation} {q : Question} {t : Txn}

theorem arrive (route : InstanceId → LockVersion) (store : Store)
    (config : LockConfig) (call : Call) :
    Fits route store ⟨config, call, call.attempt config, {}⟩ :=
  ⟨nofun, fun _ _ => call.safe_attempt route config⟩

/-- An answer leaves an invocation safe. -/
theorem answer (h : inv.Fits route store) {clock : Instant}
    (hclock : clock.IsClockTime)
    {next : q.Answer → Script (Response inv.call.Payload)} {x : q.Answer}
    {stand : Stand} (hscript : inv.script = .ask q next)
    (hanswers : inv.stand.Answers route clock store q x stand) :
    Fits route store { inv with script := next x, stand } := by
  refine ⟨Stand.answers_begun hanswers h.begun, fun base hbase => ?_⟩
  obtain ⟨base₀, hagree, hprogress⟩ :=
    Stand.answers_progress hclock hanswers hbase
  have hsafe := h.safe base₀ hagree
  rw [hscript] at hsafe
  exact hsafe.2 x _ hprogress

/-- The commit of an invocation that is granted does what its request does
to the live entries of that moment. -/
theorem effect_of_commit (h : inv.Fits route store)
    {next : Except StoreCode Unit → Script (Response inv.call.Payload)}
    (hscript : inv.script = .ask .commit next) (ht : inv.stand.txn = some t)
    (hcommit : store.commit t = .ok store') :
    inv.call.Effect route inv.config inv.stand.readings
      ⟨store.live, store'.live⟩ := by
  have hagree : inv.stand.AgreesWith store.live := by
    intro u hu
    obtain rfl := Option.some.inj (ht.symm.trans hu)
    exact Txn.agreesWith_live (h.begun t ht) hcommit
  have hsafe := h.safe _ hagree
  rw [hscript] at hsafe
  rw [Store.live_commit hcommit]
  exact hsafe.1 rfl _ (Stand.progress_draft ht _)

/-- A commit leaves its invocation safe, whatever it is told. -/
theorem commit (h : inv.Fits route store)
    {next : Except StoreCode Unit → Script (Response inv.call.Payload)}
    (hscript : inv.script = .ask .commit next) (ht : inv.stand.txn = some t)
    (result : Except StoreCode Unit) :
    Fits route store' { inv with
      script := next result
      stand := inv.stand.committed result } := by
  refine ⟨nofun, fun base _ => ?_⟩
  have hsafe := h.safe _ fun u hu => by
    obtain rfl := Option.some.inj (ht.symm.trans hu)
    exact t.agreesWith_snapshot
  rw [hscript] at hsafe
  cases result with
  | ok x =>
      refine hsafe.2 (.ok ()) _ (.inr ⟨?_, rfl, rfl⟩)
      rw [Stand.progress_draft ht]
      rfl
  | error code => exact hsafe.2 (.error code) _ (.inl ⟨code, rfl, rfl⟩)

/-- A commit of another transaction leaves an invocation safe. -/
theorem later (h : inv.Fits route store) {u : Txn}
    (hcommit : store.commit u = .ok store') : inv.Fits route store' :=
  ⟨fun t ht => (h.begun t ht).commit hcommit, h.safe⟩

end Invocation.Fits

/-- What holds of an invocation in traffic: it is safe, and read the clock
in the past. -/
structure Invocation.Sound (route : InstanceId → LockVersion) (s : Traffic)
    (inv : Invocation) : Prop where
  fits : inv.Fits route s.store
  readings_le : ∀ now ∈ inv.stand.readings, now ≤ s.clock

/-- What holds of a commit in traffic: it did to the live entries what its
request does. -/
structure Granted.Sound (route : InstanceId → LockVersion) (s : Traffic)
    (g : Granted) : Prop where
  effect : g.call.Effect route g.config g.readings ⟨g.before.live, g.after.live⟩
  readings_le : ∀ now ∈ g.readings, now ≤ g.clock
  clock_le : g.clock ≤ s.clock

/-- True of commits, latest first, that lead from one store to another, each
going on from the store that the one before left. -/
def Chained (initial : Store) : List Granted → Store → Prop
  | [], store => store = initial
  | g :: earlier, store => store = g.after ∧ Chained initial earlier g.before

/-- The invariant of traffic. -/
structure Traffic.Sound (route : InstanceId → LockVersion) (initial : Store)
    (s : Traffic) : Prop where
  isClockTime : s.clock.IsClockTime
  invocations : ∀ id inv, s.invocations id = some inv → inv.Sound route s
  granted : ∀ g ∈ s.history, g.Sound route s
  chained : Chained initial s.history s.store
  ordered : s.history.Pairwise fun g earlier => earlier.clock ≤ g.clock
  noted : ∀ id inv, s.invocations id = some inv → 0 < inv.stand.commits →
    ∃ g ∈ s.history, g.id = id ∧ g.config = inv.config ∧ g.call = inv.call

namespace Traffic

variable {route : InstanceId → LockVersion} {initial : Store} {s s' : Traffic}

/-- One invocation goes on, or arrives; all others stay as they are. -/
theorem Sound.put (h : s.Sound route initial) {id : Nat} {inv : Invocation}
    (hinv : inv.Sound route s)
    (hnoted : 0 < inv.stand.commits →
      ∃ g ∈ s.history, g.id = id ∧ g.config = inv.config ∧ g.call = inv.call) :
    (s.put id inv).Sound route initial := by
  refine ⟨h.isClockTime, fun n other hother => ?_, fun g hg => ?_, h.chained,
    h.ordered, fun n other hother => ?_⟩
  · replace hother : (if n = id then some inv else s.invocations n)
        = some other := hother
    split at hother
    · obtain rfl := Option.some.inj hother
      exact ⟨hinv.fits, hinv.readings_le⟩
    · have ho := h.invocations n other hother
      exact ⟨ho.fits, ho.readings_le⟩
  · have ho := h.granted g hg
    exact ⟨ho.effect, ho.readings_le, ho.clock_le⟩
  · replace hother : (if n = id then some inv else s.invocations n)
        = some other := hother
    split at hother
    · rename_i hn
      obtain rfl := Option.some.inj hother
      rw [hn]
      exact hnoted
    · exact h.noted n other hother

/-- Every step keeps the invariant. -/
theorem sound_step (h : s.Sound route initial) (hstep : Step route s s') :
    s'.Sound route initial := by
  cases hstep with
  | tick now hnow hle =>
      refine ⟨hnow, fun id inv hinv => ?_, fun g hg => ?_, h.chained, h.ordered,
        h.noted⟩
      · have ho := h.invocations id inv hinv
        exact ⟨ho.fits, fun now hnow =>
          Instant.le_trans (ho.readings_le now hnow) hle⟩
      · have ho := h.granted g hg
        exact ⟨ho.effect, ho.readings_le, Instant.le_trans ho.clock_le hle⟩
  | arrive id config call hfree =>
      exact h.put ⟨.arrive route s.store config call, nofun⟩ nofun
  | answer id inv q next x stand hinv hscript hanswers =>
      have hsound := h.invocations id inv hinv
      obtain ⟨hreadings, hcommits⟩ := Stand.answers_readings hanswers
      refine h.put ⟨hsound.fits.answer h.isClockTime hscript hanswers,
        fun now hnow => ?_⟩ fun hpos => h.noted id inv hinv (hcommits ▸ hpos)
      rcases hreadings now hnow with rfl | hold
      · exact Instant.le_refl _
      · exact hsound.readings_le now hold
  | commit id inv next t store result hinv hscript ht hcommit =>
      have hsound := h.invocations id inv hinv
      have heffect := hsound.fits.effect_of_commit hscript ht hcommit
      refine ⟨h.isClockTime, fun n other hother => ?_, fun g hg => ?_,
        ⟨rfl, h.chained⟩, List.pairwise_cons.2
          ⟨fun g hg => (h.granted g hg).clock_le, h.ordered⟩,
        fun n other hother hpos => ?_⟩
      · replace hother : (if n = id then some _ else s.invocations n)
            = some other := hother
        split at hother
        · obtain rfl := Option.some.inj hother
          exact ⟨hsound.fits.commit hscript ht result, hsound.readings_le⟩
        · have ho := h.invocations n other hother
          exact ⟨ho.fits.later hcommit, ho.readings_le⟩
      · rcases List.mem_cons.1 hg with rfl | hg
        · exact ⟨heffect, hsound.readings_le, Instant.le_refl _⟩
        · have ho := h.granted g hg
          exact ⟨ho.effect, ho.readings_le, ho.clock_le⟩
      · replace hother : (if n = id then some _ else s.invocations n)
            = some other := hother
        split at hother
        · rename_i hn
          obtain rfl := Option.some.inj hother
          exact ⟨_, List.mem_cons_self .., hn.symm, rfl, rfl⟩
        · obtain ⟨g, hg, hnoted⟩ := h.noted n other hother hpos
          exact ⟨g, List.mem_cons_of_mem _ hg, hnoted⟩

/-- The invariant holds of all traffic on a store. -/
theorem sound_of_reachable (h : Reachable route initial s) :
    s.Sound route initial := by
  induction h with
  | start clock hclock => exact ⟨hclock, nofun, nofun, rfl, .nil, nofun⟩
  | step _ hstep ih => exact sound_step ih hstep

end Traffic

/-- The commits after one of them go on from the store that it left. -/
theorem Chained.after {initial : Store} {g : Granted} {earlier : List Granted} :
    ∀ {later : List Granted} {store : Store},
      Chained initial (later ++ g :: earlier) store →
        Chained g.after later store := by
  intro later
  induction later with
  | nil => intro store h; exact h.1
  | cons x later ih => intro store h; exact ⟨h.1, ih h.2⟩

/-- The commits before one of them lead to the store that it found. -/
theorem Chained.before {initial : Store} {g : Granted}
    {earlier : List Granted} :
    ∀ {later : List Granted} {store : Store},
      Chained initial (later ++ g :: earlier) store →
        Chained initial earlier g.before := by
  intro later
  induction later with
  | nil => intro store h; exact h.2
  | cons x later ih => intro store h; exact ih h.2

end MergeOnWrite
