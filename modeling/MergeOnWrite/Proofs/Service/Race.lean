/-
Races: requests for the lock that are made of one store at the same time.

Each request is served as any other, one attempt after another. The
requests take their steps in any order, one question at a time, so that
their attempts interleave in any way at begins, reads and commits. Nothing
goes wrong: the store refuses a commit only where the transaction read what
was written meanwhile. The clock stands still, and nothing but the race
happens.

# The invariant

What is stored is what the requests make of it whose commits were granted
(`Contest.Standing`). Each such request writes its scopes once and is done, so
the version of the store counts them. A refused commit in turn shows that
the version went up during the attempt. So a request was refused no more
often than others were granted theirs before, and that many of them hold
their scopes in whatever its next transaction finds.

# Main statements

- `Contest.sound_step`, `Contest.sound_of_reaches`: the invariant is kept.
- `Contest.wellFounded_step`: no race goes on forever.
- `Contest.exists_step`: a race goes on until all requests are answered.
-/
import Mathlib.Data.DFinsupp.WellFounded
import Mathlib.Logic.Relation
import MergeOnWrite.Proofs.Lock.Holders
import MergeOnWrite.Proofs.Program
import MergeOnWrite.Proofs.Service.Contender
import MergeOnWrite.Proofs.Service.LockHistory

namespace MergeOnWrite

-- ================================================== races

/-- One of the requests in a race. -/
structure Racer where
  /-- What is left of it. -/
  script : Script (Response (List TabletStats))
  stand : Stand := {}

/-- Requests for the lock on one store. -/
structure Race (n : Nat) where
  store : Store
  racers : Fin n → Racer

/-- What a race is about: the requests, and where and when they are made. -/
structure Contest (n : Nat) where
  config : ServiceConfig
  route : InstanceId → LockVersion
  clock : Instant
  /-- The store at the start. -/
  initial : Store
  requests : Fin n → AcquireLock

/-- True of answers that refuse nothing and bring nothing else about. The
answers to commits are up to the store alone. -/
def Question.Faultless : (q : Question) → q.Answer → Prop
  | .start, result => result.isOk = true
  | .get _, result => result.isOk = true
  | .scan _, result => result.isOk = true
  | .commit, _ | .replay .., _ => False
  | _, _ => True

namespace Race

variable {n : Nat}

/-- Puts a request in the place of one that it goes on from. -/
def put (s : Race n) (k : Fin n) (racer : Racer) : Race n :=
  { s with racers := Function.update s.racers k racer }

/-- The code that a request is answered with, once it is. -/
def code? (s : Race n) (k : Fin n) : Option ServiceCode :=
  match (s.racers k).script with
  | .done response => some response.status.code
  | .ask .. => none

end Race

namespace Contest

variable {n : Nat} (c : Contest n)

/-- The race before the first question. -/
def start : Race n where
  store := c.initial
  racers k := { script := (Call.acquireLock (c.requests k)).serve c.config }

/-- One step of one request. -/
inductive Step : Race n → Race n → Prop
  | answer (s : Race n) (k : Fin n) (q : Question)
    (next : q.Answer → Script (Response (List TabletStats))) (x : q.Answer)
    (stand : Stand) :
    (s.racers k).script = .ask q next → q.Faultless x →
    (s.racers k).stand.Answers c.route c.clock s.store q x stand →
    Step s (s.put k ⟨next x, stand⟩)
  | granted (s : Race n) (k : Fin n)
    (next : Except StoreCode Unit → Script (Response (List TabletStats)))
    (t : Txn) (store : Store) :
    (s.racers k).script = .ask .commit next →
    (s.racers k).stand.txn = some t → s.store.commit t = .ok store →
    Step s { s.put k ⟨next (.ok ()), (s.racers k).stand.committed (.ok ())⟩ with
      store }
  | refused (s : Race n) (k : Fin n)
    (next : Except StoreCode Unit → Script (Response (List TabletStats)))
    (t : Txn) (code : StoreCode) :
    (s.racers k).script = .ask .commit next →
    (s.racers k).stand.txn = some t → s.store.commit t = .error code →
    Step s (s.put k
      ⟨next (.error code), (s.racers k).stand.committed (.error code)⟩)

/-- True of what a race may come to. -/
def Reaches (s : Race n) : Prop := Relation.ReflTransGen c.Step c.start s

/-- No race goes on forever. -/
theorem wellFounded_step :
    WellFounded fun next s : Race n => c.Step s next := by
  -- with each step, what is left of one of the requests gets less
  have hwf := Pi.Lex.wellFounded (ι := Fin n) (· < ·) fun _ =>
    Program.wellFounded_goesOn (Q := Question) (A := Question.Answer)
      (α := Response (List TabletStats))
  refine Subrelation.wf (fun {next s} hstep => ?_)
    (InvImage.wf (fun (s : Race n) k => (s.racers k).script) hwf)
  have hput : ∀ (k : Fin n) (racer : Racer) (store : Store),
      racer.script.GoesOn (s.racers k).script →
      Pi.Lex (· < ·) (fun {_} rest => Program.GoesOn rest)
        (fun j => (({ s.put k racer with store } : Race n).racers j).script)
        (fun j => (s.racers j).script) := by
    intro k racer store hgoes
    refine ⟨k, fun j hj => ?_, ?_⟩
    · show (Function.update s.racers k racer j).script = _
      rw [Function.update_of_ne (ne_of_lt hj)]
    · show Program.GoesOn (Function.update s.racers k racer k).script _
      rw [Function.update_self]
      exact hgoes
  cases hstep with
  | answer k q next x stand hscript _ _ =>
      exact hput k ⟨next x, stand⟩ s.store (hscript ▸ ⟨x, rfl⟩)
  | granted k next t store hscript _ _ =>
      exact hput k _ store (hscript ▸ ⟨.ok (), rfl⟩)
  | refused k next t code hscript _ _ =>
      exact hput k _ s.store (hscript ▸ ⟨.error code, rfl⟩)

-- ================================================== who holds what

/-- True of the scopes that a request names. -/
def Names (k : Fin n) (i : InstanceId) (scope : LockScope) : Prop :=
  scope.IsNamedBy c.route i (c.requests k).instanceName (c.requests k).table
    (c.requests k).tablets

/-- True of the participants that take a scope with some of the requests. -/
def Takes (winners : List (Fin n)) (i : InstanceId) (scope : LockScope)
    (kind : LockKind) (initiator : Int64) : Prop :=
  ∃ k ∈ winners, c.Names k i scope
    ∧ LockKind.ofTakingLockId (c.requests k).lockId = .ok kind
    ∧ (c.requests k).initiator = initiator

/-- What is stored after the commits of some of the requests: each scope that
is named is held by those of them that name it. -/
structure Standing (winners : List (Fin n)) (entries : Entries) : Prop where
  held : ∀ k i scope, c.Names k i scope → ∃ current,
    entries.HasLock i scope current
      ∧ LockRecord.HeldBy current c.clock (c.Takes winners i scope)
  stats : ∀ k i, InstanceId.ofText (c.requests k).instanceName = .ok i →
    (c.requests k).FindsStats i entries

theorem Takes.isTold {c : Contest n} {winners : List (Fin n)} {i : InstanceId}
    {scope : LockScope} {kind : LockKind} {initiator : Int64}
    (h : c.Takes winners i scope kind initiator) : kind.IsTold := by
  obtain ⟨k, -, -, hkind, -⟩ := h
  exact LockKind.isTold_of_ofTakingLockId hkind

/-- What the commit of a request makes of what is stored: the request is one
more of those that hold their scopes. -/
theorem Standing.commit {c : Contest n} {winners : List (Fin n)} {k : Fin n}
    {before after : Entries} (h : c.Standing winners before)
    {i : InstanceId} {kind : LockKind} {scopes : List LockScope}
    {expiration : Instant} {readings : List Instant}
    (heffect : (c.requests k).Effect c.route c.config.lock i kind scopes c.clock
      expiration readings ⟨before, after⟩) :
    c.Standing (k :: winners) after := by
  refine ⟨fun j i' scope hnames => ?_, fun j i' hname => heffect.findsStats
    (InstanceId.isValid_of_ofText hname) (h.stats j i' hname)⟩
  obtain ⟨current, hcurrent, hheld⟩ := h.held j i' scope hnames
  by_cases hk : c.Names k i' scope
  · -- the request acquired the scope
    obtain ⟨current', record, outcome, hcurrent', hacquire, hafter⟩ :=
      heffect.lock_of_named hk
    obtain rfl := hcurrent.unique hcurrent'
    have hkind := LockKind.isTold_of_ofTakingLockId heffect.kind_eq
    refine ⟨some record, hafter, (hheld.acquire (fun _ _ => Takes.isTold) hkind
      (Handler.lt_of_leaseEnd heffect.expiration_eq) hacquire).congr
        fun kind' initiator' => ?_⟩
    rw [Takes, Takes, List.exists_mem_cons_iff]
    refine or_congr_left ⟨?_, ?_⟩
    · rintro ⟨rfl, rfl⟩
      exact ⟨hk, heffect.kind_eq, rfl⟩
    · rintro ⟨-, hkind', rfl⟩
      exact ⟨Except.ok.inj (hkind'.symm.trans heffect.kind_eq), rfl⟩
  · -- the request left the scope alone
    refine ⟨current, ?_, hheld.congr fun kind' initiator' => ?_⟩
    · rw [Entries.HasLock, heffect.get?_of_not_named
        (InstanceId.isValid_of_ofText hnames.1) hk]
      exact hcurrent
    · rw [Takes, Takes, List.exists_mem_cons_iff]
      exact (or_iff_right fun hk' => hk hk'.1).symm

/-- What a request meets in a race. -/
def odds (k : Fin n) : Odds where
  route := c.route
  clock := c.clock
  rivals := n - 1
  finds refusals entries := ∃ others : List (Fin n),
    k ∉ others ∧ refusals ≤ others.length ∧ c.Standing others entries
  commits d := (Call.acquireLock (c.requests k)).Effect c.route c.config.lock
    [c.clock] d

end Contest

-- ================================================== requests in a race

/-- How far a request has come, as if its transaction had begun on some
entries. -/
def Stand.effort (s : Stand) (base : Entries) (refusals : Nat) (won : Bool) :
    Effort where
  draft := s.txn.map fun t => ⟨base, t.writes.applyTo base⟩
  refusals := refusals
  won := won

section Meets

variable {o : Odds} {store : Store} {s s' : Stand} {q : Question} {x : q.Answer}
  {base : Entries} {refusals : Nat} {won : Bool}

/-- To begin a transaction is to find what the store holds. -/
theorem Stand.meets_start {x : Question.start.Answer}
    (h : s.Answers o.route o.clock store .start x s')
    (hfaultless : Question.start.Faultless x) (hbase : o.finds refusals base)
    (before : Entries) :
    (s.effort before refusals won).Meets o .start x
      (s'.effort base refusals won) := by
  rcases h with ⟨code, rfl, -⟩ | ⟨time, rfl, rfl⟩
  · cases hfaultless
  · exact ⟨rfl, base, hbase, rfl⟩

/-- What a request is answered in its transaction, a draft answers as well,
if it is on entries that agree with all that has been read by then. -/
theorem Stand.meets_answer {before : Entries} (hstart : q ≠ .start)
    (hask : (s.effort before refusals won).MayAsk o q)
    (h : s.Answers o.route o.clock store q x s') (hfaultless : q.Faultless x)
    (hagree : s'.AgreesWith base) :
    s.AgreesWith base ∧ s'.txn.isSome = s.txn.isSome
      ∧ (s.effort base refusals won).Meets o q x
        (s'.effort base refusals won) := by
  cases q with
  | start => exact absurd rfl hstart
  | scan | remove | replay => exact hask.elim
  | commit => exact hfaultless.elim
  | now => obtain ⟨rfl, rfl⟩ := h; exact ⟨hagree, rfl, rfl, rfl⟩
  | route i => obtain ⟨rfl, rfl⟩ := h; exact ⟨hagree, rfl, rfl, rfl⟩
  | report | jitter | pause | chance | spread =>
      obtain rfl := h
      exact ⟨hagree, rfl, rfl⟩
  | get key =>
      rcases h with ⟨code, rfl, -⟩ | ⟨t, ht, rfl, rfl⟩
      · cases hfaultless
      · have hafter : (t.get key).2.AgreesWith (Txn.begunWith base).snapshot :=
          hagree _ rfl
        refine ⟨fun u hu => ?_, by rw [ht]; rfl,
          ⟨base, t.writes.applyTo base⟩, by rw [effort, ht]; rfl, ?_, ?_⟩
        · obtain rfl := Option.some.inj (ht.symm.trans hu)
          exact hafter.of_get
        · exact congrArg Except.ok
            ((congrArg Prod.fst (Txn.get_onto hafter)).symm.trans
              (Txn.get_fst ..))
        · rw [effort, effort, ht]
          rfl
  | put key value =>
      obtain rfl := h
      refine ⟨fun t ht => ?_, by cases h : s.txn <;> rw [write, h] <;> rfl, ?_⟩
      · exact hagree (t.put key value) (by rw [write, ht]; rfl)
      · cases ht : s.txn with
        | none =>
            rw [Effort.Meets, Effort.write, effort, effort, write, ht]
            rfl
        | some t =>
            rw [Effort.Meets, Effort.write, effort, effort, write, ht]
            exact congrArg (fun after => Effort.mk (some ⟨base, after⟩)
              refusals won) ((t.onto (.begunWith base)).view_put key value)

end Meets

/-- What holds of a request in a race: its transaction has begun after as many
commits of others as it was refused, and it goes on as it may on whatever
agrees with what it has read. -/
structure Racer.Sound {n : Nat} (c : Contest n) (b : Bid) (store : Store)
    (winners : List (Fin n)) (k : Fin n) (refusals : Nat) (racer : Racer) :
    Prop where
  begun : ∀ t, racer.stand.txn = some t → t.BegunOn store
  found : ∀ t, racer.stand.txn = some t →
    c.initial.version + refusals ≤ t.version ∧ ∃ earlier, earlier ⊆ winners
      ∧ k ∉ earlier ∧ refusals ≤ earlier.length ∧ c.Standing earlier t.snapshot
  refusals_le : c.initial.version + refusals ≤ store.version
  contends : ∀ base, racer.stand.AgreesWith base →
    (racer.stand.txn.isSome = true → (c.odds k).finds refusals base) →
    Script.Contends (c.odds k)
      (fun e response => b.Settles e response.status.code)
      (racer.stand.effort base refusals (decide (k ∈ winners))) racer.script

namespace Racer.Sound

variable {n : Nat} {c : Contest n} {b : Bid} {store store' : Store}
  {winners : List (Fin n)} {k : Fin n} {refusals : Nat} {racer : Racer}
  {t : Txn}

/-- A request goes on as it may on the snapshot of its transaction. -/
theorem contends_snapshot (h : racer.Sound c b store winners k refusals) :
    ∃ base, (∀ t, racer.stand.txn = some t → base = t.snapshot)
      ∧ Script.Contends (c.odds k)
        (fun e response => b.Settles e response.status.code)
        (racer.stand.effort base refusals (decide (k ∈ winners)))
        racer.script := by
  cases ht : racer.stand.txn with
  | none =>
      refine ⟨∅, nofun, h.contends ∅ (fun t hagree => ?_) fun hopen => ?_⟩
      · rw [ht] at hagree
        cases hagree
      · rw [ht] at hopen
        cases hopen
  | some t =>
      refine ⟨t.snapshot, fun u hu => ?_,
        h.contends t.snapshot (fun u hu => ?_) fun _ => ?_⟩
      · rw [Option.some.inj hu]
      · obtain rfl := Option.some.inj (ht.symm.trans hu)
        exact t.agreesWith_snapshot
      · obtain ⟨-, earlier, -, hk, hle, hstanding⟩ := h.found t ht
        exact ⟨earlier, hk, hle, hstanding⟩

/-- What a request may ask. -/
theorem mayAsk (h : racer.Sound c b store winners k refusals) {q : Question}
    {next : q.Answer → Script (Response (List TabletStats))}
    (hscript : racer.script = .ask q next) :
    ∃ base, (racer.stand.effort base refusals (decide (k ∈ winners))).MayAsk
      (c.odds k) q := by
  obtain ⟨base, -, hcontends⟩ := h.contends_snapshot
  rw [hscript] at hcontends
  exact ⟨base, hcontends.1⟩

/-- Who asks for the store has not won yet. -/
theorem notMem_of_mayAsk {q : Question} {base : Entries}
    (hask : (racer.stand.effort base refusals (decide (k ∈ winners))).MayAsk
      (c.odds k) q) (hq : q = .start ∨ q = .commit) : k ∉ winners := by
  rcases hq with rfl | rfl
  · exact of_decide_eq_false hask
  · exact of_decide_eq_false hask.1

/-- A request stays sound with each answer, a commit apart. -/
theorem answer (h : racer.Sound c b store winners k refusals)
    (hversion : store.version ≤ c.initial.version + winners.length)
    (hstanding : c.Standing winners store.live) {q : Question}
    {next : q.Answer → Script (Response (List TabletStats))} {x : q.Answer}
    {stand : Stand} (hscript : racer.script = .ask q next)
    (hfaultless : q.Faultless x)
    (hanswers : racer.stand.Answers c.route c.clock store q x stand) :
    Racer.Sound c b store winners k refusals ⟨next x, stand⟩ := by
  have hle := h.refusals_le
  refine ⟨Stand.answers_begun hanswers h.begun, fun t ht => ?_, hle,
    fun base hagree hfinds => ?_⟩
  · rcases Stand.answers_txn hanswers ht with ⟨rfl, time, rfl⟩
      | ⟨u, hu, hsame, hsnapshot⟩
    · obtain ⟨base, hask⟩ := h.mayAsk hscript
      exact ⟨hle, winners, List.Subset.refl _,
        notMem_of_mayAsk hask (.inl rfl), by omega, hstanding⟩
    · rw [hsame, hsnapshot]
      exact h.found u hu
  · by_cases hq : q = .start
    · subst hq
      obtain ⟨before, -, hcontends⟩ := h.contends_snapshot
      rw [hscript] at hcontends
      refine hcontends.2 x _ (Stand.meets_start hanswers hfaultless
        (hfinds ?_) before)
      rcases hanswers with ⟨code, rfl, -⟩ | ⟨time, -, rfl⟩
      · cases hfaultless
      · rfl
    · obtain ⟨before, hask⟩ := h.mayAsk hscript
      obtain ⟨hbefore, hopen, hmeets⟩ := Stand.meets_answer hq hask hanswers
        hfaultless hagree
      have hcontends := h.contends base hbefore (hopen ▸ hfinds)
      rw [hscript] at hcontends
      exact hcontends.2 x _ hmeets

/-- A commit that is granted is the effect of the request, which has won by
it. -/
theorem granted (h : racer.Sound c b store winners k refusals)
    (hversion : store.version ≤ c.initial.version + winners.length)
    (hstanding : c.Standing winners store.live)
    {next : Except StoreCode Unit → Script (Response (List TabletStats))}
    (hscript : racer.script = .ask .commit next) (ht : racer.stand.txn = some t)
    (hcommit : store.commit t = .ok store') :
    k ∉ winners ∧ c.Standing (k :: winners) store'.live
      ∧ Racer.Sound c b store' (k :: winners) k refusals
        ⟨next (.ok ()), racer.stand.committed (.ok ())⟩ := by
  obtain ⟨snapshot, hask⟩ := h.mayAsk hscript
  have hk := notMem_of_mayAsk hask (.inr rfl)
  have hle := h.refusals_le
  -- the live entries agree with what the request has read
  have hagree : racer.stand.AgreesWith store.live := by
    intro u hu
    obtain rfl := Option.some.inj (ht.symm.trans hu)
    exact Txn.agreesWith_live (h.begun t ht) hcommit
  have hcontends := h.contends store.live hagree
    fun _ => ⟨winners, hk, by omega, hstanding⟩
  rw [hscript] at hcontends
  refine ⟨hk, ?_, nofun, nofun, Nat.le_trans hle
    (Store.version_of_commit hcommit).1, fun base _ _ => ?_⟩
  · obtain ⟨-, d, hd, i, kind, scopes, now, expiration, heffect⟩ := hcontends.1
    obtain rfl := List.singleton_inj.1 heffect.readings_eq
    rw [Stand.effort, ht] at hd
    rw [Store.live_commit hcommit]
    obtain rfl := Option.some.inj hd
    exact hstanding.commit heffect
  · have hwon := hcontends.2 (.ok ()) _ (.inl ⟨rfl, rfl⟩)
    simpa [Stand.effort, Stand.committed] using hwon

/-- A commit that is refused was overtaken by another one. -/
theorem refused (h : racer.Sound c b store winners k refusals)
    (hnodup : winners.Nodup)
    (hversion : store.version ≤ c.initial.version + winners.length)
    {next : Except StoreCode Unit → Script (Response (List TabletStats))}
    (hscript : racer.script = .ask .commit next) (ht : racer.stand.txn = some t)
    {code : StoreCode} (hcommit : store.commit t = .error code) :
    Racer.Sound c b store winners k (refusals + 1)
      ⟨next (.error code), racer.stand.committed (.error code)⟩ := by
  obtain ⟨rfl, hlt⟩ := Store.lt_version_of_refused hcommit
  obtain ⟨hle, -⟩ := h.found t ht
  obtain ⟨snapshot, hask⟩ := h.mayAsk hscript
  have hk := notMem_of_mayAsk hask (.inr rfl)
  -- whoever overtook it is one of the others
  have hrivals : winners.length ≤ n - 1 := by
    have hall := (List.nodup_cons.2 ⟨hk, hnodup⟩).length_le_card
    rw [List.length_cons, Fintype.card_fin] at hall
    omega
  refine ⟨nofun, nofun, by omega, fun base _ _ => ?_⟩
  obtain ⟨before, -, hcontends⟩ := h.contends_snapshot
  rw [hscript] at hcontends
  exact hcontends.2 (.error .conflict) _ (.inr ⟨rfl, by
    show refusals < n - 1
    omega, rfl⟩)

/-- A request stays sound while others commit. -/
theorem later (h : racer.Sound c b store winners k refusals)
    {j : Fin n} (hne : k ≠ j) (hcommit : store.commit t = .ok store') :
    racer.Sound c b store' (j :: winners) k refusals := by
  refine ⟨fun u hu => (h.begun u hu).commit hcommit, fun u hu => ?_,
    Nat.le_trans h.refusals_le (Store.version_of_commit hcommit).1, ?_⟩
  · obtain ⟨hle, earlier, hsub, hearlier⟩ := h.found u hu
    exact ⟨hle, earlier, List.subset_cons_of_subset j hsub, hearlier⟩
  · rw [show decide (k ∈ j :: winners) = decide (k ∈ winners) by simp [hne]]
    exact h.contends

/-- A request that is not answered yet can be answered. -/
theorem exists_answer (h : racer.Sound c b store winners k refusals)
    {q : Question} {next : q.Answer → Script (Response (List TabletStats))}
    (hscript : racer.script = .ask q next) :
    (∃ x stand, q.Faultless x
        ∧ racer.stand.Answers c.route c.clock store q x stand)
      ∨ q = .commit ∧ ∃ t, racer.stand.txn = some t := by
  obtain ⟨base, hask⟩ := h.mayAsk hscript
  cases q with
  | now => exact .inl ⟨c.clock, _, trivial, rfl, rfl⟩
  | route i => exact .inl ⟨c.route i, _, trivial, rfl, rfl⟩
  | start => exact .inl ⟨.ok (), _, rfl, .inr ⟨0, rfl, rfl⟩⟩
  | get key =>
      cases ht : racer.stand.txn with
      | none =>
          rw [Effort.MayAsk, Stand.effort, ht] at hask
          cases hask
      | some t =>
          exact .inl ⟨.ok (t.get key).1, _, rfl, .inr ⟨t, ht, rfl, rfl⟩⟩
  | put key value => exact .inl ⟨(), _, trivial, rfl⟩
  | commit =>
      obtain ⟨-, d, hd, -⟩ := hask
      obtain ⟨t, ht, -⟩ := Option.map_eq_some_iff.1 hd
      exact .inr ⟨rfl, t, ht⟩
  | report | pause => exact .inl ⟨(), _, trivial, rfl⟩
  | jitter => exact .inl ⟨0, _, trivial, rfl⟩
  | chance => exact .inl ⟨false, _, trivial, rfl⟩
  | spread => exact .inl ⟨0, _, trivial, rfl⟩
  | scan | remove | replay => exact hask.elim

end Racer.Sound

-- ================================================== the invariant

/-- The invariant of races: so many requests have won as there were commits,
and they hold their scopes. -/
structure Race.Sound {n : Nat} (c : Contest n) (bids : Fin n → Bid) (s : Race n)
    (winners : List (Fin n)) : Prop where
  nodup : winners.Nodup
  version_le : s.store.version ≤ c.initial.version + winners.length
  standing : c.Standing winners s.store.live
  racers : ∀ k, ∃ refusals,
    (s.racers k).Sound c (bids k) s.store winners k refusals

namespace Contest

variable {n : Nat} {c : Contest n} {bids : Fin n → Bid} {s s' : Race n}
  {winners : List (Fin n)}

/-- What holds of the request that goes on, and of all others. -/
theorem racers_put {store : Store} {k : Fin n} {racer : Racer} {refusals : Nat}
    (hracer : racer.Sound c (bids k) store winners k refusals)
    (hothers : ∀ j, j ≠ k → ∃ refusals,
      (s.racers j).Sound c (bids j) store winners j refusals) (j : Fin n) :
    ∃ refusals,
      ((s.put k racer).racers j).Sound c (bids j) store winners j refusals := by
  show ∃ refusals, (Function.update s.racers k racer j).Sound c (bids j) store
    winners j refusals
  by_cases hj : j = k
  · subst hj
    rw [Function.update_self]
    exact ⟨refusals, hracer⟩
  · rw [Function.update_of_ne hj]
    exact hothers j hj

/-- One request goes on; the store and all others stay as they are. -/
theorem sound_put (h : s.Sound c bids winners) {k : Fin n} {racer : Racer}
    {refusals : Nat}
    (hracer : racer.Sound c (bids k) s.store winners k refusals) :
    (s.put k racer).Sound c bids winners :=
  ⟨h.nodup, h.version_le, h.standing,
    racers_put hracer fun j _ => h.racers j⟩

/-- Every step keeps the invariant. -/
theorem sound_step (h : s.Sound c bids winners) (hstep : c.Step s s') :
    ∃ winners', s'.Sound c bids winners' := by
  cases hstep with
  | answer k q next x stand hscript hfaultless hanswers =>
      obtain ⟨refusals, hracer⟩ := h.racers k
      exact ⟨winners, sound_put h (hracer.answer h.version_le h.standing hscript
        hfaultless hanswers)⟩
  | granted k next t store hscript ht hcommit =>
      obtain ⟨refusals, hracer⟩ := h.racers k
      obtain ⟨hk, hstanding, hwinner⟩ := hracer.granted h.version_le h.standing
        hscript ht hcommit
      have hversion := (Store.version_of_commit hcommit).2
      have hle := h.version_le
      refine ⟨k :: winners, List.nodup_cons.2 ⟨hk, h.nodup⟩, ?_, hstanding,
        racers_put hwinner fun j hj => ?_⟩
      · show store.version ≤ _
        rw [List.length_cons]
        omega
      · obtain ⟨refusals, hother⟩ := h.racers j
        exact ⟨refusals, hother.later hj hcommit⟩
  | refused k next t code hscript ht hcommit =>
      obtain ⟨refusals, hracer⟩ := h.racers k
      exact ⟨winners, sound_put h
        (hracer.refused h.nodup h.version_le hscript ht hcommit)⟩

/-- The invariant holds of whatever a race comes to. -/
theorem sound_of_reaches (hstart : c.start.Sound c bids [])
    (h : c.Reaches s) : ∃ winners, s.Sound c bids winners := by
  induction h with
  | refl => exact ⟨[], hstart⟩
  | tail _ hstep ih =>
      obtain ⟨winners, hsound⟩ := ih
      exact sound_step hsound hstep

/-- A race goes on until all requests are answered. -/
theorem exists_step (h : s.Sound c bids winners) {k : Fin n} {q : Question}
    {next : q.Answer → Script (Response (List TabletStats))}
    (hscript : (s.racers k).script = .ask q next) : ∃ s', c.Step s s' := by
  obtain ⟨refusals, hracer⟩ := h.racers k
  rcases hracer.exists_answer hscript with ⟨x, stand, hfaultless, hanswers⟩
    | ⟨rfl, t, ht⟩
  · exact ⟨_, .answer s k q next x stand hscript hfaultless hanswers⟩
  · cases hcommit : s.store.commit t with
    | ok store => exact ⟨_, .granted s k next t store hscript ht hcommit⟩
    | error code => exact ⟨_, .refused s k next t code hscript ht hcommit⟩

/-- A race that is over has answered all requests: those that have won, and
those whose scopes were held by some of these. -/
theorem settled (h : s.Sound c bids winners) (hover : ∀ s', ¬ c.Step s s')
    (k : Fin n) :
    k ∈ winners ∧ s.code? k = some .ok
      ∨ k ∉ winners ∧ s.code? k = some .lockConflict
        ∧ ∃ earlier entries, earlier ⊆ winners ∧ c.Standing earlier entries
          ∧ (bids k).IsRefusedOn entries := by
  obtain ⟨refusals, hracer⟩ := h.racers k
  obtain ⟨base, hbase, hcontends⟩ := hracer.contends_snapshot
  unfold Race.code?
  cases hscript : (s.racers k).script with
  | ask q next =>
      obtain ⟨s', hstep⟩ := exists_step h hscript
      exact absurd hstep (hover s')
  | done response =>
      rw [hscript] at hcontends
      rcases hcontends with ⟨hwon, hcode⟩ | ⟨hlost, hcode, d, hd, hrefused⟩
      · exact .inl ⟨of_decide_eq_true hwon, congrArg some hcode⟩
      · refine .inr ⟨of_decide_eq_false hlost, congrArg some hcode, ?_⟩
        obtain ⟨t, ht, rfl⟩ := Option.map_eq_some_iff.1 hd
        obtain ⟨-, earlier, hsub, -, -, hstanding⟩ := hracer.found t ht
        exact ⟨earlier, t.snapshot, hsub, hstanding, hbase t ht ▸ hrefused⟩

end Contest

end MergeOnWrite
