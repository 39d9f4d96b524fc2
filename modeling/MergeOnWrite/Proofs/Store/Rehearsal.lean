/-
A scripted store fails as it is told, and does nothing else of its own.

A session on a scripted store is compared with one on a store that never
fails. The failures to come are told by what the session was told and by how
many of them it met (`FailureQueue`): a begin meets the next one for begins,
and a commit of an open transaction the next one for commits, or the one for
all commits if there is no next one. What meets a failure is refused. In the
session without failures a begin that is refused does not take place, and a
transaction whose commit is refused is abandoned instead (`stripped`); every
other step is the same there, and it is answered in the same way. The log has
one entry for each operation, with the answer that was given.

# Main statements

- `Rehearsal.plain_after`: what is left of some steps in the session without
  failures.
- `Rehearsal.step_session`: one step of the session with failures is one of its
  rehearsal.
- `StoreSession.rehearsal_exact`: states, answers, failures and log of every
  session.
-/
import MergeOnWrite.Proofs.Store.Session

namespace MergeOnWrite

-- ================================================== without failures

/-- A session on a store that does not fail of its own. -/
structure PlainSession where
  store : Store := {}
  /-- The greatest age of a transaction in milliseconds. -/
  maxAge : Option Nat := none
  /-- The open transactions by name. -/
  txns : List (String × Txn) := []
  /-- Virtual time in milliseconds. -/
  time : Nat := 0

namespace PlainSession

/-- Forgets the transaction of a name. -/
def close (s : PlainSession) (name : String) : PlainSession :=
  { s with txns := s.txns.filter (·.1 ≠ name) }

def keep (s : PlainSession) (name : String) (t : Txn) : PlainSession :=
  { s with txns := (name, t) :: s.txns.filter (·.1 ≠ name) }

/-- Works on the open transaction of a name. -/
def withTxn (s : PlainSession) (name : String)
    (work : Txn → PlainSession × StoreAnswer) : PlainSession × StoreAnswer :=
  match s.txns.lookup name with
  | some t => work t
  | none => (s, .noTxn)

def step (s : PlainSession) : StoreStep → PlainSession × StoreAnswer
  | .start name => (s.keep name (.open s.store s.time), .done)
  | .get name key => s.withTxn name fun t =>
    match t.unlessTooOld s.maxAge s.time (.ok (t.get key)) with
    | .ok (value, t) => (s.keep name t, .value value)
    | .error code => (s, .refused code)
  | .scan name stem => s.withTxn name fun t =>
    match t.unlessTooOld s.maxAge s.time (.ok (t.scan stem)) with
    | .ok (found, t) => (s.keep name t, .listing found)
    | .error code => (s, .refused code)
  | .put name key value => s.withTxn name fun t =>
    (s.keep name (t.put key value), .done)
  | .remove name key => s.withTxn name fun t =>
    (s.keep name (t.remove key), .done)
  | .stats name => s.withTxn name fun t => (s, .stats t.stats)
  -- the transaction ends in any case
  | .commit name => s.withTxn name fun t =>
    match t.unlessTooOld s.maxAge s.time (s.store.commit t) with
    | .ok store => ({ s with store }.close name, .done)
    | .error code => (s.close name, .refused code)
  | .abandon name => s.withTxn name fun _ => (s.close name, .done)
  | .advance ms => ({ s with time := s.time + ms }, .done)
  | .control .live => (s, .view (.entries s.store.live.toList))
  -- there is neither a script nor a log
  | .control _ => (s, .view .done)

/-- The session after some steps. -/
def after (s : PlainSession) (steps : List StoreStep) : PlainSession :=
  steps.foldl (fun s step => (s.step step).1) s

end PlainSession

/-- What is left of a step that is refused: a commit leaves a transaction that
is not committed, a begin leaves nothing. -/
def StoreStep.refused : StoreStep → List StoreStep
  | .commit name => [.abandon name]
  | _ => []

-- ================================================== failures

/-- Failures that are met one after another, in the order in which they were
told. -/
structure FailureQueue where
  told : List StoreCode := []
  /-- How many of them were met. -/
  met : Nat := 0
  met_le : met ≤ told.length := by exact Nat.zero_le _

namespace FailureQueue

def tell (q : FailureQueue) (codes : List StoreCode) : FailureQueue where
  told := q.told ++ codes
  met := q.met
  met_le := by
    rw [List.length_append]
    exact Nat.le_add_right_of_le q.met_le

/-- The failure that is due. -/
def due? (q : FailureQueue) : Option StoreCode := q.told[q.met]?

/-- Meets the failure that is due, if there is one. -/
def meet (q : FailureQueue) : FailureQueue where
  told := q.told
  met := min (q.met + 1) q.told.length
  met_le := Nat.min_le_right _ _

/-- The failures that are still to come. -/
def left (q : FailureQueue) : List StoreCode := q.told.drop q.met

theorem left_tell (q : FailureQueue) (codes : List StoreCode) :
    (q.tell codes).left = q.left ++ codes :=
  List.drop_append_of_le_length q.met_le

theorem head?_left (q : FailureQueue) : q.left.head? = q.due? :=
  List.head?_drop

theorem left_meet (q : FailureQueue) : q.meet.left = q.left.tail := by
  rw [left, left, List.tail_drop]
  show q.told.drop (min (q.met + 1) q.told.length) = _
  rcases Nat.le_total (q.met + 1) q.told.length with h | h
  · rw [Nat.min_eq_left h]
  · rw [Nat.min_eq_right h, List.drop_length, List.drop_of_length_le h]

end FailureQueue

/-- What a store was told to fail with. -/
structure FailureScript where
  starts : FailureQueue := {}
  commits : FailureQueue := {}
  /-- What the commits fail with that meet no other failure. -/
  always : Option StoreCode := none

namespace FailureScript

/-- The failures that are still to come, as a scripted store keeps them. -/
def faults (f : FailureScript) : Faults where
  starts := f.starts.left
  commits := f.commits.left
  always := f.always

/-- The failure that is due at a commit. -/
def dueCommit? (f : FailureScript) : Option StoreCode :=
  f.commits.due?.or f.always

/-- The script after a step has been taken while the transactions of some
names were open. -/
def next (f : FailureScript) (isOpen : String → Bool) :
    StoreStep → FailureScript
  | .start _ => { f with starts := f.starts.meet }
  | .commit name =>
    if isOpen name then { f with commits := f.commits.meet } else f
  | .control (.failStarts codes) => { f with starts := f.starts.tell codes }
  | .control (.failCommits codes) => { f with commits := f.commits.tell codes }
  | .control (.failAllCommits code) => { f with always := some code }
  | .control .clearFailures => {}
  | _ => f

theorem nextCommit_faults (f : FailureScript) :
    f.faults.nextCommit
      = (f.dueCommit?, { f with commits := f.commits.meet }.faults) := by
  have hdue := f.commits.head?_left
  have hmeet := f.commits.left_meet
  unfold Faults.nextCommit dueCommit?
  simp only [faults]
  cases hleft : f.commits.left with
  | nil =>
      rw [hleft] at hdue hmeet
      rw [← hdue, hmeet]
      rfl
  | cons code rest =>
      rw [hleft] at hdue hmeet
      rw [← hdue, hmeet]
      rfl

end FailureScript

-- ================================================== rehearsals

/-- The entry of the log for a step that was answered, if it is an operation
on the store. -/
def StoreStep.event? : StoreStep → StoreAnswer → Option StoreEvent
  | .start _, .refused code => some (.start (.error code))
  | .start _, _ => some (.start (.ok ()))
  | _, .noTxn => none
  | .get _ key, _ => some (.get key)
  | .scan _ stem, _ => some (.scan stem)
  | .put _ key _, _ => some (.put key)
  | .remove _ key, _ => some (.remove key)
  | .commit _, .refused code => some (.commit (.error code))
  | .commit _, _ => some (.commit (.ok ()))
  | _, _ => none

/-- The log after a step that was answered, oldest first. -/
def StoreStep.logged (answer : StoreAnswer) (log : List StoreEvent) :
    StoreStep → List StoreEvent
  | .control .takeLog => []
  | step => log ++ (step.event? answer).toList

def StoreStep.takesLog : StoreStep → Bool
  | .control .takeLog => true
  | _ => false

/-- Newest first, an operation stands in front of those before it. -/
theorem StoreStep.reverse_logged {step : StoreStep}
    (hlog : step.takesLog = false) (answer : StoreAnswer)
    (log : List StoreEvent) : (step.logged answer log).reverse
      = (step.event? answer).toList ++ log.reverse := by
  unfold logged
  split
  · cases hlog
  · rw [List.reverse_append]
    cases step.event? answer with
    | none => rfl
    | some event => rfl

/-- A session without failures, beside what another session was told to fail
with and what it did so far. -/
structure Rehearsal where
  plain : PlainSession
  script : FailureScript := {}
  /-- The log since it was last taken, oldest first. -/
  log : List StoreEvent := []

namespace Rehearsal

def isOpen (r : Rehearsal) (name : String) : Bool :=
  (r.plain.txns.lookup name).isSome

/-- What a step is refused with by the script. -/
def refusal? (r : Rehearsal) : StoreStep → Option StoreCode
  | .start _ => r.script.starts.due?
  | .commit name => if r.isOpen name then r.script.dueCommit? else none
  | _ => none

/-- The answer to a step: a refusal if one is due, and else that of the session
without failures. -/
def answer (r : Rehearsal) (step : StoreStep) : StoreAnswer :=
  match r.refusal? step, step with
  | some code, _ => .refused code
  | none, .control .takeLog => .view (.log r.log)
  | none, step => (r.plain.step step).2

/-- The steps that take the place of one in the session without failures. -/
def instead (r : Rehearsal) (step : StoreStep) : List StoreStep :=
  match r.refusal? step with
  | some _ => step.refused
  | none => [step]

def next (r : Rehearsal) (step : StoreStep) : Rehearsal where
  plain := r.plain.after (r.instead step)
  script := r.script.next r.isOpen step
  log := step.logged (r.answer step) r.log

def after (r : Rehearsal) (steps : List StoreStep) : Rehearsal :=
  steps.foldl next r

/-- The steps of the session without failures that take the place of some. -/
def stripped (r : Rehearsal) : List StoreStep → List StoreStep
  | [] => []
  | step :: rest => r.instead step ++ (r.next step).stripped rest

theorem plain_after (steps : List StoreStep) : ∀ r : Rehearsal,
    (r.after steps).plain = r.plain.after (r.stripped steps) := by
  induction steps with
  | nil => intro r; rfl
  | cons step rest ih =>
      intro r
      show ((r.next step).after rest).plain
        = r.plain.after (r.instead step ++ (r.next step).stripped rest)
      rw [ih, PlainSession.after, PlainSession.after, List.foldl_append]
      rfl

end Rehearsal

-- ================================================== the session itself

/-- The session on a store that has failures to come and a log, newest
first. -/
def PlainSession.scripted (p : PlainSession) (faults : Faults)
    (log : List StoreEvent) : StoreSession where
  backing := { store := p.store, maxAge := p.maxAge, faults, log }
  txns := p.txns
  time := p.time

namespace Rehearsal

variable {r : Rehearsal} {step : StoreStep} {name : String}

/-- The session that is rehearsed. -/
def session (r : Rehearsal) : StoreSession :=
  r.plain.scripted r.script.faults r.log.reverse

@[simp] theorem session_store (r : Rehearsal) :
    r.session.backing.store = r.plain.store := rfl

@[simp] theorem session_maxAge (r : Rehearsal) :
    r.session.backing.maxAge = r.plain.maxAge := rfl

@[simp] theorem session_time (r : Rehearsal) :
    r.session.time = r.plain.time := rfl

/-- What a step comes to if the session without failures is left in a state
and there is an answer. -/
def comesTo (r : Rehearsal) (step : StoreStep)
    (result : PlainSession × StoreAnswer) : StoreSession × StoreAnswer :=
  (result.1.scripted (r.script.next r.isOpen step).faults
    ((step.event? result.2).toList ++ r.log.reverse), result.2)

/-- A step that is refused is taken as what is left of it. -/
theorem next_of_refusal {code : StoreCode} (h : r.refusal? step = some code) :
    ((r.next step).session, r.answer step)
      = r.comesTo step (r.plain.after step.refused, .refused code) := by
  have hanswer : r.answer step = .refused code := by
    unfold answer
    rw [h]
  have hinstead : r.instead step = step.refused := by
    rw [instead, h]
  have hlog : step.takesLog = false := by
    unfold StoreStep.takesLog
    split
    · cases h
    · rfl
  rw [comesTo, session, next, hanswer, hinstead,
    StoreStep.reverse_logged hlog]

/-- Any other step is taken as it is. -/
theorem next_of_no_refusal (r : Rehearsal) (step : StoreStep)
    (hlog : step.takesLog = false) (h : r.refusal? step = none) :
    ((r.next step).session, r.answer step)
      = r.comesTo step (r.plain.step step) := by
  have hanswer : r.answer step = (r.plain.step step).2 := by
    unfold answer
    rw [h]
    split
    · rename_i heq; cases heq
    · cases hlog
    · rfl
  have hinstead : r.instead step = [step] := by
    rw [instead, h]
  rw [comesTo, session, next, hanswer, hinstead,
    StoreStep.reverse_logged hlog]
  rfl

-- ================================================== one step

/-- Work on a transaction comes to the same if it does where the transaction is
open. -/
theorem withTxn_comesTo {work : Txn → StoreSession × StoreAnswer}
    {plainWork : Txn → PlainSession × StoreAnswer}
    (hclosed : (r.session, .noTxn) = r.comesTo step (r.plain, .noTxn))
    (hopen : ∀ t, work t = r.comesTo step (plainWork t)) :
    r.session.withTxn name work
      = r.comesTo step (r.plain.withTxn name plainWork) := by
  unfold StoreSession.withTxn PlainSession.withTxn
  show (match r.plain.txns.lookup name with
    | some t => work t
    | none => (r.session, .noTxn)) = _
  cases r.plain.txns.lookup name with
  | none => exact hclosed
  | some t => exact hopen t

/-- A begin that meets a failure does not take place. -/
theorem step_start (r : Rehearsal) (name : String) :
    r.session.step (.start name)
      = ((r.next (.start name)).session, r.answer (.start name)) := by
  have hstarts : r.session.backing.faults.starts = r.script.starts.left := rfl
  have hdue : r.refusal? (.start name) = r.script.starts.left.head? :=
    r.script.starts.head?_left.symm
  have hmeet : (r.script.next r.isOpen (.start name)).faults
      = { r.script.faults with starts := r.script.starts.left.tail } := by
    rw [← r.script.starts.left_meet]
    rfl
  cases hleft : r.script.starts.left with
  | nil =>
      rw [hleft] at hstarts hdue hmeet
      have hfaults : r.script.faults = { r.script.faults with starts := [] } :=
        congrArg (fun starts => { r.script.faults with starts }) hleft
      rw [next_of_no_refusal r (.start name) rfl hdue, comesTo, hmeet,
        List.tail_nil, ← hfaults]
      simp only [StoreSession.step, ScriptedStore.start, hstarts]
      rfl
  | cons code rest =>
      rw [hleft] at hstarts hdue hmeet
      rw [next_of_refusal hdue, comesTo, hmeet]
      simp only [StoreSession.step, ScriptedStore.start, hstarts]
      rfl

/-- A commit meets no failure if its transaction is not open. -/
theorem step_commit_of_closed (hlookup : r.plain.txns.lookup name = none) :
    r.session.step (.commit name)
      = ((r.next (.commit name)).session, r.answer (.commit name)) := by
  have hclosed : r.isOpen name = false := by rw [isOpen, hlookup]; rfl
  have hrefusal : r.refusal? (.commit name) = none := by
    rw [refusal?, hclosed]
    rfl
  have hscript : r.script.next r.isOpen (.commit name) = r.script := by
    rw [FailureScript.next, hclosed]
    rfl
  have hsession : r.session.txns.lookup name = none := hlookup
  rw [next_of_no_refusal r (.commit name) rfl hrefusal]
  simp only [StoreSession.step, StoreSession.withTxn, hsession,
    PlainSession.step, PlainSession.withTxn, hlookup, comesTo, hscript]
  rfl

/-- A commit that meets a failure abandons its transaction. -/
theorem step_commit_of_open {t : Txn}
    (hlookup : r.plain.txns.lookup name = some t) :
    r.session.step (.commit name)
      = ((r.next (.commit name)).session, r.answer (.commit name)) := by
  have hopen : r.isOpen name = true := by rw [isOpen, hlookup]; rfl
  have hrefusal : r.refusal? (.commit name) = r.script.dueCommit? :=
    if_pos hopen
  have hscript : r.script.next r.isOpen (.commit name)
      = { r.script with commits := r.script.commits.meet } := if_pos hopen
  have hnext : r.session.backing.faults.nextCommit = (r.script.dueCommit?,
      (r.script.next r.isOpen (.commit name)).faults) := by
    rw [hscript]
    exact r.script.nextCommit_faults
  have hsession : r.session.txns.lookup name = some t := hlookup
  cases hdue : r.script.dueCommit? with
  | none =>
      rw [hdue] at hrefusal hnext
      rw [next_of_no_refusal r (.commit name) rfl hrefusal]
      simp only [StoreSession.step, StoreSession.withTxn, hsession,
        PlainSession.step, PlainSession.withTxn, hlookup, ScriptedStore.commit,
        hnext, Option.elim_none, ScriptedStore.grant, session_store,
        session_maxAge, session_time]
      cases t.unlessTooOld r.plain.maxAge r.plain.time
          (r.plain.store.commit t) with
      | ok store => rfl
      | error code => rfl
  | some code =>
      rw [hdue] at hrefusal hnext
      have habandon : r.plain.after [.abandon name] = r.plain.close name := by
        show (r.plain.withTxn name fun _ => (r.plain.close name, .done)).1 = _
        rw [PlainSession.withTxn, hlookup]
      rw [next_of_refusal hrefusal, StoreStep.refused, habandon]
      simp only [StoreSession.step, StoreSession.withTxn, hsession,
        ScriptedStore.commit, hnext, Option.elim_some]
      rfl

/-- Every step takes the session that is rehearsed to the one that its
rehearsal goes on to, and has the answer of the rehearsal. -/
theorem step_session (r : Rehearsal) (step : StoreStep) :
    r.session.step step = ((r.next step).session, r.answer step) := by
  cases step with
  | start name => exact r.step_start name
  | commit name =>
      cases hlookup : r.plain.txns.lookup name with
      | none => exact step_commit_of_closed hlookup
      | some t => exact step_commit_of_open hlookup
  | get name key =>
      rw [next_of_no_refusal r (.get name key) rfl rfl]
      refine withTxn_comesTo rfl fun t => ?_
      simp only [ScriptedStore.get, session_maxAge, session_time]
      cases t.unlessTooOld r.plain.maxAge r.plain.time (.ok (t.get key)) with
      | ok result => rfl
      | error code => rfl
  | scan name stem =>
      rw [next_of_no_refusal r (.scan name stem) rfl rfl]
      refine withTxn_comesTo rfl fun t => ?_
      simp only [ScriptedStore.scan, session_maxAge, session_time]
      cases t.unlessTooOld r.plain.maxAge r.plain.time (.ok (t.scan stem)) with
      | ok result => rfl
      | error code => rfl
  | put name key value =>
      rw [next_of_no_refusal r (.put name key value) rfl rfl]
      exact withTxn_comesTo rfl fun t => rfl
  | remove name key =>
      rw [next_of_no_refusal r (.remove name key) rfl rfl]
      exact withTxn_comesTo rfl fun t => rfl
  | stats name =>
      rw [next_of_no_refusal r (.stats name) rfl rfl]
      exact withTxn_comesTo rfl fun t => rfl
  | abandon name =>
      rw [next_of_no_refusal r (.abandon name) rfl rfl]
      exact withTxn_comesTo rfl fun t => rfl
  | advance ms => exact (next_of_no_refusal r (.advance ms) rfl rfl).symm
  | control control =>
      cases control with
      | takeLog =>
          show (_, StoreAnswer.view (.log r.log.reverse.reverse)) = _
          rw [List.reverse_reverse]
          rfl
      | failStarts codes =>
          rw [next_of_no_refusal r (.control (.failStarts codes)) rfl rfl,
            comesTo, FailureScript.next, FailureScript.faults,
            FailureQueue.left_tell]
          rfl
      | failCommits codes =>
          rw [next_of_no_refusal r (.control (.failCommits codes)) rfl rfl,
            comesTo, FailureScript.next, FailureScript.faults,
            FailureQueue.left_tell]
          rfl
      | failAllCommits code =>
          exact (next_of_no_refusal r (.control (.failAllCommits code)) rfl
            rfl).symm
      | clearFailures =>
          exact (next_of_no_refusal r (.control .clearFailures) rfl rfl).symm
      | live => exact (next_of_no_refusal r (.control .live) rfl rfl).symm

-- ================================================== all steps

theorem after_session (steps : List StoreStep) : ∀ r : Rehearsal,
    r.session.after steps = (r.after steps).session := by
  induction steps with
  | nil => intro r; rfl
  | cons step rest ih =>
      intro r
      show (r.session.step step).1.after rest
        = ((r.next step).after rest).session
      rw [r.step_session, ih]

end Rehearsal

namespace StoreSession

/-- A session on a store that has been told nothing yet. -/
def onto (store : Store) (maxAge : Option Nat) (time : Nat) : StoreSession where
  backing := { store, maxAge }
  time := time

/-- Whatever the store, its age limit and the steps of a session are, the store
is that of the session without failures, in which the commits that were refused
by the script are abandoned instead; so are the answers, refusals by the script
apart; the failures to come are those that were told and not met; and the log
has the operations with the answers that they were given. -/
theorem rehearsal_exact (store : Store) (maxAge : Option Nat) (time : Nat)
    (steps : List StoreStep) (step : StoreStep) :
    let s := onto store maxAge time
    let r : Rehearsal := { plain := { store, maxAge, time } }
    (s.after steps).backing.store
        = (r.plain.after (r.stripped steps)).store
      ∧ ((s.after steps).step step).2 = (r.after steps).answer step
      ∧ (s.after steps).backing.faults = (r.after steps).script.faults
      ∧ (s.after steps).backing.log.reverse = (r.after steps).log := by
  intro s r
  have hsession : s.after steps = (r.after steps).session :=
    r.after_session steps
  rw [← r.plain_after, hsession]
  refine ⟨rfl, ?_, rfl, List.reverse_reverse _⟩
  rw [Rehearsal.step_session]

end StoreSession

end MergeOnWrite
