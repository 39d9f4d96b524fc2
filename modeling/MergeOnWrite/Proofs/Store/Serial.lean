/-
Sessions on a store are serializable.

A session interleaves the steps of its transactions at will. Its ledger
notes the steps of every transaction with their answers, and lines up the
transactions whose commit was granted in the order of their commits. To
run their steps once more in that order, each transaction without
interruption, gives the same answers and leaves the same store: the other
transactions might as well not have been.

# The invariant

Along a session the ledger is kept in step with it (`Ledger.Tracks`). The
transactions that were committed have been replayed to the store of the
session. What a transaction under way did so far is replayed by the same
transaction on any begin that agrees with its reads
(`Txn.Replays`, `carryOut_onto`), so in particular on the live entries at
its commit. A transaction that outlived the age limit is no longer
replayed, and is never committed.

# Main statements

- `replays_commit`: a replayed transaction whose commit is granted can be
  appended to the serial session.
- `tracks_step`, `tracks_after`: a step, and hence a whole session, keeps
  the ledger in step.
- `session_serializable`: the serial session gives the same answers and
  leaves the same live entries.
-/
import MergeOnWrite.Proofs.Store.Session

namespace MergeOnWrite

-- ================================================== ledgers

/-- A step of a session with its answer. -/
abbrev StoreRecord := StoreStep × StoreAnswer

/-- The steps of the transactions of a session, with their answers. -/
structure Ledger where
  /-- Those of the open transactions by name, latest first. -/
  underWay : List (String × List StoreRecord) := []
  /-- Those of the committed transactions in the order of the commits,
  earliest first. -/
  committed : List (List StoreRecord) := []

namespace Ledger

/-- Forgets the open transaction of a name. -/
def close (l : Ledger) (name : String) : Ledger :=
  { l with underWay := l.underWay.filter (·.1 ≠ name) }

/-- Keeps the steps of an open transaction. -/
def keep (l : Ledger) (name : String) (records : List StoreRecord) : Ledger :=
  { l with underWay := (name, records) :: l.underWay.filter (·.1 ≠ name) }

/-- Lines up the open transaction of a name as the latest committed
one. -/
def commit (l : Ledger) (name : String) : Ledger :=
  { l.close name with
    committed := l.committed
      ++ (l.underWay.lookup name).toList.map fun records =>
        ((.commit name, .done) :: records).reverse }

/-- Notes a step of an open transaction. -/
def append (l : Ledger) (name : String) (record : StoreRecord) : Ledger :=
  match l.underWay.lookup name with
  | some records => l.keep name (record :: records)
  | none => l

/-- Notes a step with its answer. -/
def note (l : Ledger) : StoreStep → StoreAnswer → Ledger
  | .start name, .done => l.keep name [(.start name, .done)]
  | .start _, _ => l
  | .commit name, .done => l.commit name
  | .commit name, _ => l.close name
  | .abandon name, _ => l.close name
  | step, answer =>
    match step.txn? with
    | some name => l.append name (step, answer)
    | none => l

/-- The ledger after some more steps of a session. -/
def after (l : Ledger) (s : StoreSession) : List StoreStep → Ledger
  | [] => l
  | step :: rest => (l.note step (s.step step).2).after (s.step step).1 rest

/-- The steps of the committed transactions, one transaction after
another. -/
def serialSteps (l : Ledger) : List StoreStep := l.committed.flatten.map Prod.fst

/-- The answers to the steps of the committed transactions, one
transaction after another. -/
def serialAnswers (l : Ledger) : List StoreAnswer :=
  l.committed.flatten.map Prod.snd

end Ledger

-- ================================================== replays

namespace Txn

/-- The steps that took the transaction of a name from `base` to where it
is, latest first, with the answers they get. -/
inductive Replays (name : String) (base : Txn) : List StoreRecord → Txn → Prop
  | start : Replays name base [(.start name, .done)] base
  | step {records : List StoreRecord} {t next : Txn} {step : StoreStep}
      {answer : StoreAnswer} :
      Replays name base records t → step.txn? = some name →
      t.carryOut step = some (answer, next) →
      Replays name base ((step, answer) :: records) next

end Txn

-- ================================================== undisturbed sessions

/-- A session where nothing is going to fail. -/
def StoreSession.undisturbed (store : Store) (maxAge : Option Nat)
    (time : Nat) (txns : List (String × Txn)) (log : List StoreEvent) :
    StoreSession :=
  { backing := { store, maxAge, log }, txns, time }

namespace Txn

theorem Replays.started_eq {name : String} {base t : Txn}
    {records : List StoreRecord} (h : Replays name base records t) :
    t.started = base.started := by
  induction h with
  | start => rfl
  | step _ _ hcarry ih => rw [(carryOut_keeps hcarry).2.2, ih]

/-- An undisturbed session answers a step of its only transaction as the
transaction does, while no time passes. -/
theorem step_undisturbed {name : String} {t next : Txn} {step : StoreStep}
    {answer : StoreAnswer} (hname : step.txn? = some name)
    (hcarry : t.carryOut step = some (answer, next)) (store : Store)
    (maxAge : Option Nat) (log : List StoreEvent) :
    ∃ log', (StoreSession.undisturbed store maxAge t.started
        [(name, t)] log).step step
      = (.undisturbed store maxAge t.started [(name, next)] log', answer) := by
  have hopen : [(name, t)].lookup name = some t := by
    rw [List.lookup_cons, beq_self_eq_true]
  have hclose : [(name, t)].filter (·.1 ≠ name) = [] := by simp
  cases step with
  | start | commit | abandon | advance | control => cases hcarry
  | get other key =>
      obtain rfl := Option.some.inj hname
      cases hcarry
      simp only [StoreSession.step, StoreSession.withTxn,
        StoreSession.undisturbed, hopen, ScriptedStore.get, unlessTooOld,
        isTooOld_self, StoreSession.keep, hclose]
      exact ⟨_, rfl⟩
  | scan other stem =>
      obtain rfl := Option.some.inj hname
      cases hcarry
      simp only [StoreSession.step, StoreSession.withTxn,
        StoreSession.undisturbed, hopen, ScriptedStore.scan, unlessTooOld,
        isTooOld_self, StoreSession.keep, hclose]
      exact ⟨_, rfl⟩
  | put other key value =>
      obtain rfl := Option.some.inj hname
      cases hcarry
      simp only [StoreSession.step, StoreSession.withTxn,
        StoreSession.undisturbed, hopen, ScriptedStore.put,
        StoreSession.keep, hclose]
      exact ⟨_, rfl⟩
  | remove other key =>
      obtain rfl := Option.some.inj hname
      cases hcarry
      simp only [StoreSession.step, StoreSession.withTxn,
        StoreSession.undisturbed, hopen, ScriptedStore.remove,
        StoreSession.keep, hclose]
      exact ⟨_, rfl⟩
  | stats other =>
      obtain rfl := Option.some.inj hname
      cases hcarry
      simp only [StoreSession.step, StoreSession.withTxn,
        StoreSession.undisturbed, hopen]
      exact ⟨_, rfl⟩

/-- An undisturbed session answers the steps of a transaction as they were
answered. -/
theorem Replays.answers_eq {name : String} {store : Store} {time : Nat}
    {t : Txn} {records : List StoreRecord} (maxAge : Option Nat)
    (log : List StoreEvent)
    (h : Replays name (.open store time) records t) :
    let w := StoreSession.undisturbed store maxAge time [] log
    w.answers (records.reverse.map Prod.fst) = records.reverse.map Prod.snd
      ∧ ∃ log', w.after (records.reverse.map Prod.fst)
        = .undisturbed store maxAge time [(name, t)] log' := by
  induction h with
  | start => exact ⟨rfl, _, rfl⟩
  | step hreplays hname hcarry ih =>
      rename_i records t next step answer
      obtain ⟨hanswers, log₁, hafter⟩ := ih
      have hstarted : t.started = time := hreplays.started_eq
      obtain ⟨log₂, hstep⟩ := step_undisturbed hname hcarry store maxAge log₁
      rw [hstarted] at hstep
      simp only [List.reverse_cons, List.map_append, List.map_cons,
        List.map_nil]
      refine ⟨?_, log₂, ?_⟩
      · rw [StoreSession.answers_append, hanswers, hafter]
        rw [StoreSession.answers_singleton, hstep]
      · rw [StoreSession.after_append, hafter]
        rw [StoreSession.after_singleton, hstep]

/-- A replayed transaction whose commit is granted can be committed at the
end of an undisturbed session, with the same effect. -/
theorem replays_commit {name : String} {store next : Store} {time : Nat}
    {t : Txn} {records : List StoreRecord} (maxAge : Option Nat)
    (log : List StoreEvent)
    (h : Replays name (.open store time) records (t.onto (.open store time)))
    (hcommit : store.commit t = .ok next) :
    let w := StoreSession.undisturbed store maxAge time [] log
    let steps := ((.commit name, .done) :: records).reverse
    w.answers (steps.map Prod.fst) = steps.map Prod.snd
      ∧ ∃ log', w.after (steps.map Prod.fst)
        = .undisturbed next maxAge time [] log' := by
  obtain ⟨hanswers, log₁, hafter⟩ := h.answers_eq maxAge log
  have hage : (t.onto (.open store time)).isTooOld maxAge time = false :=
    isTooOld_self (t.onto (.open store time)) maxAge
  have hstep : ∃ log₂, (StoreSession.undisturbed store maxAge time
        [(name, t.onto (.open store time))] log₁).step (.commit name)
      = (.undisturbed next maxAge time [] log₂, .done) := by
    simp only [StoreSession.step, StoreSession.withTxn,
      StoreSession.undisturbed, List.lookup_cons, beq_self_eq_true,
      ScriptedStore.commit, Faults.nextCommit, Option.elim_none,
      ScriptedStore.grant, unlessTooOld, hage, Bool.false_eq_true, if_false,
      commit_onto time hcommit]
    refine ⟨.commit (.ok ()) :: log₁, ?_⟩
    simp [StoreSession.close, ScriptedStore.note]
  obtain ⟨log₂, hstep⟩ := hstep
  simp only [List.reverse_cons, List.map_append, List.map_cons, List.map_nil]
  refine ⟨?_, log₂, ?_⟩
  · rw [StoreSession.answers_append, hanswers, hafter]
    rw [StoreSession.answers_singleton, hstep]
  · rw [StoreSession.after_append, hafter]
    rw [StoreSession.after_singleton, hstep]

end Txn

-- ================================================== the invariant

/-- The steps of an open transaction, as far as it can still be
committed, are replayed by the same transaction on any begin that agrees
with what it read. -/
structure StoreSession.Ongoing (s : StoreSession) (name : String) (t : Txn)
    (records : List StoreRecord) : Prop where
  begun : t.BegunOn s.backing.store
  replays : t.isTooOld s.backing.maxAge s.time = true ∨
    ∀ store time, t.AgreesWith (Txn.open store time).snapshot →
      Txn.Replays name (.open store time) records
        (t.onto (.open store time))

/-- The ledger of a session that began with some store: the committed
transactions have been replayed, and the open ones can be. -/
structure Ledger.Tracks (l : Ledger) (initial : Store)
    (maxAge : Option Nat) (time : Nat) (s : StoreSession) : Prop where
  maxAge_eq : s.backing.maxAge = maxAge
  answered : (StoreSession.undisturbed initial maxAge time [] []).answers
    l.serialSteps = l.serialAnswers
  replayed : ∃ log, (StoreSession.undisturbed initial maxAge time [] []).after
      l.serialSteps
    = .undisturbed s.backing.store maxAge time [] log
  paired : ∀ name, Option.Rel (s.Ongoing name) (s.txns.lookup name)
    (l.underWay.lookup name)

namespace StoreSession

/-- What can be replayed still can be after other transactions moved on,
and after a commit of one of them. -/
theorem Ongoing.later {s next : StoreSession} {name : String} {t : Txn}
    {records : List StoreRecord} (h : s.Ongoing name t records)
    (hstore : next.backing.store = s.backing.store
      ∨ ∃ u, s.backing.store.commit u = .ok next.backing.store)
    (hmax : next.backing.maxAge = s.backing.maxAge)
    (htime : s.time ≤ next.time) : next.Ongoing name t records := by
  refine ⟨?_, ?_⟩
  · rcases hstore with heq | ⟨u, hcommit⟩
    · rw [heq]
      exact h.begun
    · exact h.begun.commit hcommit
  · rw [hmax]
    exact h.replays.imp (Txn.isTooOld_of_le htime) id

/-- A transaction that begins has all its future before it. -/
theorem ongoing_open (s : StoreSession) (name : String) :
    s.Ongoing name (.open s.backing.store s.time) [(.start name, .done)] :=
  ⟨Txn.begunOn_open .., .inr fun _ _ _ => .start⟩

/-- A step that a transaction carries out is replayed with the others. -/
theorem Ongoing.carried {s : StoreSession} {name : String} {t u : Txn}
    {records : List StoreRecord} {step : StoreStep} {answer : StoreAnswer}
    (h : s.Ongoing name t records) (hname : step.txn? = some name)
    (hcarry : t.carryOut step = some (answer, u)) :
    s.Ongoing name u ((step, answer) :: records) := by
  obtain ⟨hversion, hsnapshot, hstarted⟩ := Txn.carryOut_keeps hcarry
  refine ⟨h.begun.congr hversion hsnapshot, h.replays.imp ?_ ?_⟩
  · intro hage
    rw [Txn.isTooOld, hstarted]
    exact hage
  · intro hreplays store time hagree
    obtain ⟨hbefore, honto⟩ := Txn.carryOut_onto hcarry hagree
    exact .step (hreplays store time hbefore) hname honto

/-- A transaction that is too old has nothing to be replayed. -/
theorem Ongoing.outlived {s : StoreSession} {name : String} {t : Txn}
    {records : List StoreRecord} (h : s.Ongoing name t records)
    (hage : t.isTooOld s.backing.maxAge s.time = true)
    (record : StoreRecord) : s.Ongoing name t (record :: records) :=
  ⟨h.begun, .inl hage⟩

end StoreSession

namespace Ledger

/-- A step that its transaction carries out is appended to the others. -/
theorem note_eq_append {l : Ledger} {step : StoreStep} {name : String}
    {t : Txn} (answer : StoreAnswer) (hname : step.txn? = some name)
    (hcarry : (t.carryOut step).isSome = true) :
    l.note step answer = l.append name (step, answer) := by
  cases step with
  | start | commit | abandon | advance | control => cases hcarry
  | get | scan | put | remove | stats =>
      cases hname
      rfl

/-- A step without a transaction is noted nowhere. -/
theorem note_idle {l : Ledger} {step : StoreStep} {answer : StoreAnswer}
    (hstart : ∀ name, step = .start name → answer ≠ .done)
    (hrest : ∀ name, step.txn? = some name → (∀ n, step ≠ .start n) →
      l.underWay.lookup name = none ∧ answer = .noTxn) :
    (l.note step answer).committed = l.committed
      ∧ ∀ other, (l.note step answer).underWay.lookup other
        = l.underWay.lookup other := by
  have hclose : ∀ name, l.underWay.lookup name = none → ∀ other,
      (l.close name).underWay.lookup other = l.underWay.lookup other := by
    intro name hnone other
    rw [close, lookup_filter_ne]
    split
    · rename_i h
      rw [h, hnone]
    · rfl
  have happend : ∀ name record, l.underWay.lookup name = none →
      l.append name record = l := by
    intro name record hnone
    rw [append, hnone]
  cases step with
  | start name =>
      have hne := hstart name rfl
      cases answer with
      | done => exact absurd rfl hne
      | refused | noTxn | value | listing | stats | view =>
          exact ⟨rfl, fun _ => rfl⟩
  | commit name =>
      obtain ⟨hnone, rfl⟩ := hrest name rfl (by simp)
      exact ⟨rfl, hclose name hnone⟩
  | abandon name =>
      obtain ⟨hnone, rfl⟩ := hrest name rfl (by simp)
      exact ⟨rfl, hclose name hnone⟩
  | get name | scan name | put name | remove name | stats name =>
      obtain ⟨hnone, rfl⟩ := hrest name rfl (by simp)
      show (l.append name _).committed = _ ∧
        ∀ other, (l.append name _).underWay.lookup other = _
      rw [happend name _ hnone]
      exact ⟨rfl, fun _ => rfl⟩
  | advance | control => exact ⟨rfl, fun _ => rfl⟩

/-- A session that only moves one transaction stays in step with a ledger
that notes the move. -/
theorem Tracks.moves {l l' : Ledger} {initial : Store} {maxAge : Option Nat}
    {time : Nat} {s next : StoreSession} {name : String} {txn : Option Txn}
    {records : Option (List StoreRecord)} (h : l.Tracks initial maxAge time s)
    (hmoves : s.Moves next name txn) (hcommitted : l'.committed = l.committed)
    (hlookup : ∀ other, l'.underWay.lookup other
      = if other = name then records else l.underWay.lookup other)
    (hrel : Option.Rel (s.Ongoing name) txn records) :
    l'.Tracks initial maxAge time next := by
  have hlater : ∀ {other t rs}, s.Ongoing other t rs →
      next.Ongoing other t rs := fun ho =>
    ho.later (.inl hmoves.store_eq) hmoves.maxAge_eq
      (Nat.le_of_eq hmoves.time_eq.symm)
  refine ⟨hmoves.maxAge_eq.trans h.maxAge_eq, ?_, ?_, fun other => ?_⟩
  · rw [serialSteps, serialAnswers, hcommitted]
    exact h.answered
  · rw [hmoves.store_eq, serialSteps, hcommitted]
    exact h.replayed
  · rw [hmoves.lookup_eq, hlookup]
    split
    · rename_i heq
      subst heq
      cases hrel with
      | none => exact .none
      | some ho => exact .some (hlater ho)
    · have hrel := h.paired other
      generalize s.txns.lookup other = open?,
        l.underWay.lookup other = kept? at hrel ⊢
      cases hrel with
      | none => exact .none
      | some ho => exact .some (hlater ho)

theorem lookup_keep (l : Ledger) (name other : String)
    (records : List StoreRecord) :
    (l.keep name records).underWay.lookup other
      = if other = name then some records else l.underWay.lookup other :=
  lookup_cons_filter_ne name other records l.underWay

theorem lookup_close (l : Ledger) (name other : String) :
    (l.close name).underWay.lookup other
      = if other = name then none else l.underWay.lookup other :=
  lookup_filter_ne name other l.underWay

/-- A step of an open transaction is noted, and it stays replayed. -/
theorem Tracks.append {l : Ledger} {initial : Store} {maxAge : Option Nat}
    {time : Nat} {s next : StoreSession} {name : String} {t u : Txn}
    {record : StoreRecord} (h : l.Tracks initial maxAge time s)
    (hopen : s.txns.lookup name = some t)
    (hmoves : s.Moves next name (some u))
    (hongoing : ∀ records, s.Ongoing name t records →
      s.Ongoing name u (record :: records)) :
    (l.append name record).Tracks initial maxAge time next := by
  have hrel := h.paired name
  rw [hopen] at hrel
  unfold Ledger.append
  generalize hkept : l.underWay.lookup name = kept? at hrel ⊢
  cases hrel with
  | some ho =>
      exact h.moves hmoves rfl (l.lookup_keep name · _) (.some (hongoing _ ho))

/-- A granted commit is replayed at the end of the serial session. -/
theorem Tracks.commit {l : Ledger} {initial : Store} {maxAge : Option Nat}
    {time : Nat} {s next : StoreSession} {name : String} {t : Txn}
    (h : l.Tracks initial maxAge time s) (hopen : s.txns.lookup name = some t)
    (hage : t.isTooOld s.backing.maxAge s.time = false)
    (hcommit : s.backing.store.commit t = .ok next.backing.store)
    (hmoves : { s with backing.store := next.backing.store }.Moves next name
      none) :
    (l.commit name).Tracks initial maxAge time next := by
  have hrel := h.paired name
  rw [hopen] at hrel
  obtain ⟨records, hkept, hongoing⟩ :
      ∃ records, l.underWay.lookup name = some records
        ∧ s.Ongoing name t records := by
    generalize l.underWay.lookup name = kept? at hrel ⊢
    cases hrel with
    | some ho => exact ⟨_, rfl, ho⟩
  have hreplays : Txn.Replays name (.open s.backing.store time) records
      (t.onto (.open s.backing.store time)) := by
    rcases hongoing.replays with hold | hreplays
    · rw [hage] at hold
      cases hold
    · exact hreplays _ _ (Txn.agreesWith_live hongoing.begun hcommit)
  have hmax : next.backing.maxAge = s.backing.maxAge := hmoves.maxAge_eq
  obtain ⟨log, hafter⟩ := h.replayed
  obtain ⟨hanswers, hcommitted⟩ :=
    Txn.replays_commit maxAge log hreplays hcommit
  have hlist : (l.commit name).committed
      = l.committed ++ [((.commit name, .done) :: records).reverse] := by
    show l.committed ++ (l.underWay.lookup name).toList.map _ = _
    rw [hkept]
    rfl
  have hsteps : (l.commit name).serialSteps = l.serialSteps
      ++ ((.commit name, .done) :: records).reverse.map Prod.fst := by
    rw [serialSteps, hlist, List.flatten_append, List.map_append,
      List.flatten_singleton]
    rfl
  refine ⟨hmax.trans h.maxAge_eq, ?_, ?_, fun other => ?_⟩
  · have hserial : (l.commit name).serialAnswers = l.serialAnswers
        ++ ((.commit name, .done) :: records).reverse.map Prod.snd := by
      rw [serialAnswers, hlist, List.flatten_append, List.map_append,
        List.flatten_singleton]
      rfl
    rw [hsteps, hserial, StoreSession.answers_append, h.answered,
      hafter, hanswers]
  · rw [hsteps, StoreSession.after_append, hafter]
    exact hcommitted
  · rw [hmoves.lookup_eq]
    show Option.Rel _ _ ((l.close name).underWay.lookup other)
    rw [lookup_close]
    split
    · exact .none
    · have hrel := h.paired other
      show Option.Rel _ (s.txns.lookup other) _
      generalize s.txns.lookup other = open?,
        l.underWay.lookup other = kept? at hrel ⊢
      cases hrel with
      | none => exact .none
      | some ho =>
          exact .some (ho.later (.inr ⟨t, hcommit⟩) hmax
            (Nat.le_of_eq hmoves.time_eq.symm))

theorem tracks_step {l : Ledger} {initial : Store} {maxAge : Option Nat}
    {time : Nat} {s : StoreSession} (h : l.Tracks initial maxAge time s)
    (step : StoreStep) :
    (l.note step (s.step step).2).Tracks initial maxAge time (s.step step).1 := by
  have hcases := s.step_cases step
  generalize (s.step step).1 = next, (s.step step).2 = answer at hcases ⊢
  cases hcases with
  | opened name hstep hmoves =>
      subst hstep
      exact h.moves hmoves rfl (l.lookup_keep name · _)
        (.some (s.ongoing_open name))
  | carried name t u hopen hname hcarry hmoves =>
      rw [note_eq_append answer hname (by rw [hcarry]; rfl)]
      exact h.append hopen hmoves fun _ ho => ho.carried hname hcarry
  | outlived name t hopen hname hcarry hage hmoves =>
      rw [note_eq_append answer hname hcarry]
      exact h.append hopen hmoves fun _ ho => ho.outlived hage _
  | dropped name hstep hmoves =>
      have hnote : l.note step answer = l.close name := by
        rcases hstep with ⟨rfl, hne⟩ | rfl
        · cases answer with
          | done => exact absurd rfl hne
          | refused | noTxn | value | listing | stats | view => rfl
        · rfl
      rw [hnote]
      exact h.moves hmoves rfl (l.lookup_close name ·) .none
  | committed name t hstep hopen hage hcommit hmoves =>
      subst hstep
      exact h.commit hopen hage hcommit hmoves
  | idle hstore hmax htime hlookup hstart hrest =>
      obtain ⟨hcommitted, hkept⟩ := note_idle (l := l) hstart
        fun name hname hne => by
          obtain ⟨hnone, hanswer⟩ := hrest name hname hne
          have hrel := h.paired name
          rw [hnone] at hrel
          generalize l.underWay.lookup name = kept? at hrel ⊢
          cases hrel with
          | none => exact ⟨rfl, hanswer⟩
      refine ⟨hmax.trans h.maxAge_eq, ?_, ?_, fun other => ?_⟩
      · rw [serialSteps, serialAnswers, hcommitted]
        exact h.answered
      · rw [hstore, serialSteps, hcommitted]
        exact h.replayed
      · rw [hlookup, hkept]
        have hrel := h.paired other
        generalize s.txns.lookup other = open?,
          l.underWay.lookup other = kept? at hrel ⊢
        cases hrel with
        | none => exact .none
        | some ho => exact .some (ho.later (.inl hstore) hmax htime)

theorem tracks_after {initial : Store} {maxAge : Option Nat} {time : Nat}
    (steps : List StoreStep) :
    ∀ {l : Ledger} {s : StoreSession}, l.Tracks initial maxAge time s →
      (l.after s steps).Tracks initial maxAge time (s.after steps) := by
  induction steps with
  | nil => intro l s h; exact h
  | cons step rest ih => intro l s h; exact ih (tracks_step h step)

/-- A session without transactions has an empty ledger. -/
theorem tracks_start (backing : ScriptedStore) (time : Nat) :
    ({} : Ledger).Tracks backing.store backing.maxAge time { backing, time } :=
  ⟨rfl, rfl, ⟨[], rfl⟩, fun _ => .none⟩

end Ledger

-- ================================================== serializability

/-- Sessions on a store are serializable. The transactions whose commit
was granted, executed one after another in the order of their commits,
give every step the answer it had in the session, and leave the same live
entries. All other steps, those of transactions that were not committed
among them, leave the live entries as they are. -/
theorem session_serializable (backing : ScriptedStore) (time : Nat)
    (steps : List StoreStep) :
    let session : StoreSession := { backing, time }
    let ledger := ({} : Ledger).after session steps
    let alone : StoreSession :=
      { backing := { store := backing.store, maxAge := backing.maxAge }, time }
    alone.answers ledger.serialSteps = ledger.serialAnswers
      ∧ (alone.after ledger.serialSteps).backing.store.live
        = (session.after steps).backing.store.live
      ∧ ∀ (s : StoreSession) (step : StoreStep),
        (∃ name, step = .commit name ∧ (s.step step).2 = .done)
          ∨ (s.step step).1.backing.store = s.backing.store := by
  intro session ledger alone
  have htracks : ledger.Tracks backing.store backing.maxAge time
      (session.after steps) :=
    Ledger.tracks_after steps (Ledger.tracks_start backing time)
  refine ⟨htracks.answered, ?_, fun s step => ?_⟩
  · obtain ⟨log, h⟩ := htracks.replayed
    show (StoreSession.after (.undisturbed ..) _).backing.store.live = _
    rw [h]
    rfl
  · have hcases := s.step_cases step
    generalize (s.step step).1 = next, (s.step step).2 = answer at hcases ⊢
    cases hcases with
    | opened _ _ hmoves => exact .inr hmoves.store_eq
    | carried _ _ _ _ _ _ hmoves => exact .inr hmoves.store_eq
    | outlived _ _ _ _ _ _ hmoves => exact .inr hmoves.store_eq
    | dropped _ _ hmoves => exact .inr hmoves.store_eq
    | committed name _ hstep => exact .inl ⟨name, hstep, rfl⟩
    | idle hstore => exact .inr hstore

end MergeOnWrite
