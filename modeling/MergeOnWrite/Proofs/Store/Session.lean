/-
What the steps of a session on a store do.

A session is a run of its steps. Every step is one of a few cases: a
transaction begins, goes on, or ends, with a commit or without one; or
nothing happens to any of them. Only a commit that is granted changes the
store, and no step touches a transaction of another name.

# Main statements

- `carryOut_onto`: a step has the same answer and the same effect on any
  begin of its transaction that agrees with what was read.
- `step_cases`: every step is one of the cases.
-/
import MergeOnWrite.Proofs.Store.Snapshot
import MergeOnWrite.Simulation.StoreSession

namespace MergeOnWrite

-- ================================================== sessions as runs

namespace StoreSession

/-- The session after some steps. -/
def after (s : StoreSession) (steps : List StoreStep) : StoreSession :=
  steps.foldl (fun s step => (s.step step).1) s

theorem answers_append (l r : List StoreStep) :
    ∀ s : StoreSession, s.answers (l ++ r) = s.answers l ++ (s.after l).answers r := by
  induction l with
  | nil => intro s; rfl
  | cons step l ih =>
      intro s
      show _ :: (s.step step).1.answers (l ++ r) = _
      rw [ih]
      rfl

theorem answers_singleton (s : StoreSession) (step : StoreStep) :
    s.answers [step] = [(s.step step).2] := rfl

theorem after_singleton (s : StoreSession) (step : StoreStep) :
    s.after [step] = (s.step step).1 := rfl

theorem after_append (s : StoreSession) (l r : List StoreStep) :
    s.after (l ++ r) = (s.after l).after r := List.foldl_append

end StoreSession

/-- The transaction that a step is about. -/
def StoreStep.txn? : StoreStep → Option String
  | .start name => some name
  | .get name _ => some name
  | .scan name _ => some name
  | .put name _ _ => some name
  | .remove name _ => some name
  | .stats name => some name
  | .commit name => some name
  | .abandon name => some name
  | .advance _ => none
  | .control _ => none

-- ================================================== names

section Names

variable {α : Type}

/-- What names stand for once one of them is forgotten. -/
theorem lookup_filter_ne (name other : String) :
    ∀ l : List (String × α), (l.filter (·.1 ≠ name)).lookup other
      = if other = name then none else l.lookup other := by
  intro l
  induction l with
  | nil => split <;> rfl
  | cons b rest ih =>
      by_cases hb : b.1 = name
      · rw [List.filter_cons_of_neg (by simp [hb]), ih]
        split
        · rfl
        · rename_i hne
          rw [List.lookup_cons, beq_eq_false_iff_ne.2 (hb ▸ hne)]
      · rw [List.filter_cons_of_pos (by simp [hb]), List.lookup_cons,
          List.lookup_cons, ih]
        by_cases ho : other = b.1
        · rw [if_neg (ho ▸ hb), if_neg (ho ▸ hb), beq_iff_eq.2 ho]
        · rw [beq_eq_false_iff_ne.2 ho]

/-- What names stand for once one of them is given anew. -/
theorem lookup_cons_filter_ne (name other : String) (a : α)
    (l : List (String × α)) :
    ((name, a) :: l.filter (·.1 ≠ name)).lookup other
      = if other = name then some a else l.lookup other := by
  rw [List.lookup_cons, lookup_filter_ne]
  by_cases h : other = name
  · rw [if_pos h, if_pos h, beq_iff_eq.2 h]
  · rw [if_neg h, if_neg h, beq_eq_false_iff_ne.2 h]

end Names

-- ================================================== steps within

namespace Txn

/-- What an open transaction makes of a step that neither opens nor ends
it. -/
def carryOut (t : Txn) : StoreStep → Option (StoreAnswer × Txn)
  | .get _ key => some (.value (t.get key).1, (t.get key).2)
  | .scan _ stem => some (.listing (t.scan stem).1, (t.scan stem).2)
  | .put _ key value => some (.done, t.put key value)
  | .remove _ key => some (.done, t.remove key)
  | .stats _ => some (.stats t.stats, t)
  | _ => none

/-- No step moves the begin of a transaction. -/
theorem carryOut_keeps {t next : Txn} {step : StoreStep}
    {answer : StoreAnswer} (h : t.carryOut step = some (answer, next)) :
    next.version = t.version ∧ next.snapshot = t.snapshot
      ∧ next.started = t.started := by
  cases step <;> cases h <;> exact ⟨rfl, rfl, rfl⟩

/-- A step has the same answer and the same effect on any begin that
agrees with what was read, reads of this step included. -/
theorem carryOut_onto {t next base : Txn} {step : StoreStep}
    {answer : StoreAnswer} (h : t.carryOut step = some (answer, next))
    (hagree : next.AgreesWith base.snapshot) :
    t.AgreesWith base.snapshot
      ∧ (t.onto base).carryOut step = some (answer, next.onto base) := by
  cases step with
  | get name key =>
      cases h
      refine ⟨hagree.of_get, ?_⟩
      rw [carryOut, get_onto hagree]
  | scan name stem =>
      cases h
      refine ⟨hagree.of_scan, ?_⟩
      rw [carryOut, scan_onto hagree]
  | put name key value => cases h; exact ⟨hagree, rfl⟩
  | remove name key => cases h; exact ⟨hagree, rfl⟩
  | stats name => cases h; exact ⟨hagree, rfl⟩
  | start | commit | abandon | advance | control => cases h

theorem isTooOld_self (t : Txn) (maxAge : Option Nat) :
    t.isTooOld maxAge t.started = false := by
  cases maxAge with
  | none => rfl
  | some age => simp [isTooOld]

theorem isTooOld_of_le {t : Txn} {maxAge : Option Nat} {now later : Nat}
    (hle : now ≤ later) (h : t.isTooOld maxAge now = true) :
    t.isTooOld maxAge later = true := by
  obtain ⟨age, rfl, hage⟩ := (Option.any_eq_true _ _).1 h
  refine (Option.any_eq_true _ _).2 ⟨age, rfl, ?_⟩
  have : age < now - t.started := of_decide_eq_true hage
  exact decide_eq_true (by omega)

end Txn

-- ================================================== steps

/-- A commit is granted by the store itself, to transactions that are not
too old. -/
theorem ScriptedStore.commit_granted {s next : ScriptedStore} {t : Txn}
    {now : Nat} {u : Unit} (h : s.commit t now = (next, .ok u)) :
    t.isTooOld s.maxAge now = false ∧ s.store.commit t = .ok next.store
      ∧ next.maxAge = s.maxAge := by
  unfold ScriptedStore.commit at h
  simp only at h
  split at h
  · rename_i store hgrant
    obtain ⟨rfl, -⟩ := Prod.mk.inj h
    cases hf : s.faults.nextCommit.1 with
    | some code => rw [hf] at hgrant; cases hgrant
    | none =>
        rw [hf] at hgrant
        replace hgrant : t.unlessTooOld s.maxAge now (s.store.commit t)
            = .ok store := hgrant
        unfold Txn.unlessTooOld at hgrant
        split at hgrant
        · cases hgrant
        · rename_i hage
          exact ⟨Bool.eq_false_iff.2 hage, hgrant, rfl⟩
  · cases (Prod.mk.inj h).2

/-- A refused commit changes neither the store nor its age limit. -/
theorem ScriptedStore.commit_refused {s next : ScriptedStore} {t : Txn}
    {now : Nat} {code : StoreCode} (h : s.commit t now = (next, .error code)) :
    next.store = s.store ∧ next.maxAge = s.maxAge := by
  refine ⟨store_commit_of_refused h, ?_⟩
  unfold ScriptedStore.commit at h
  simp only at h
  split at h
  · cases (Prod.mk.inj h).2
  · obtain ⟨rfl, -⟩ := Prod.mk.inj h
    rfl

namespace StoreSession

/-- The session changed in the transaction of one name at most, and in
what no step asks for. -/
structure Moves (s next : StoreSession) (name : String) (txn : Option Txn) :
    Prop where
  store_eq : next.backing.store = s.backing.store
  maxAge_eq : next.backing.maxAge = s.backing.maxAge
  time_eq : next.time = s.time
  lookup_eq : ∀ other, next.txns.lookup other
    = if other = name then txn else s.txns.lookup other

/-- A session that only keeps a transaction under a name. -/
theorem moves_keep (s : StoreSession) (name : String) (t : Txn)
    (log : List StoreEvent) :
    s.Moves ({ s with backing.log := log }.keep name t) name (some t) :=
  ⟨rfl, rfl, rfl, fun other => lookup_cons_filter_ne name other t s.txns⟩

/-- A session in which nothing changes but the log keeps a transaction
where it is. -/
theorem moves_self {s : StoreSession} {name : String} {t : Txn}
    (hopen : s.txns.lookup name = some t) (log : List StoreEvent) :
    s.Moves { s with backing.log := log } name (some t) := by
  refine ⟨rfl, rfl, rfl, fun other => ?_⟩
  split
  · rename_i h
    rw [h]
    exact hopen
  · rfl

/-- What a step of a session can do, and what it answers then. -/
inductive StepCases (s : StoreSession) (step : StoreStep) :
    StoreSession → StoreAnswer → Prop
  /-- A transaction begins. -/
  | opened {next : StoreSession} (name : String) :
      step = .start name →
      s.Moves next name (some (.open s.backing.store s.time)) →
      StepCases s step next .done
  /-- An open transaction goes on. -/
  | carried {next : StoreSession} {answer : StoreAnswer} (name : String)
      (t u : Txn) :
      s.txns.lookup name = some t → step.txn? = some name →
      t.carryOut step = some (answer, u) → s.Moves next name (some u) →
      StepCases s step next answer
  /-- A transaction that is too old is refused a read. -/
  | outlived {next : StoreSession} {answer : StoreAnswer} (name : String)
      (t : Txn) :
      s.txns.lookup name = some t → step.txn? = some name →
      (t.carryOut step).isSome →
      t.isTooOld s.backing.maxAge s.time = true →
      s.Moves next name (some t) → StepCases s step next answer
  /-- A transaction ends without a commit. -/
  | dropped {next : StoreSession} {answer : StoreAnswer} (name : String) :
      (step = .commit name ∧ answer ≠ .done ∨ step = .abandon name) →
      s.Moves next name none → StepCases s step next answer
  /-- A transaction is committed. -/
  | committed {next : StoreSession} (name : String) (t : Txn) :
      step = .commit name → s.txns.lookup name = some t →
      t.isTooOld s.backing.maxAge s.time = false →
      s.backing.store.commit t = .ok next.backing.store →
      { s with backing.store := next.backing.store }.Moves next name none →
      StepCases s step next .done
  /-- Nothing happens to any transaction; time may pass. -/
  | idle {next : StoreSession} {answer : StoreAnswer} :
      next.backing.store = s.backing.store →
      next.backing.maxAge = s.backing.maxAge → s.time ≤ next.time →
      (∀ other, next.txns.lookup other = s.txns.lookup other) →
      (∀ name, step = .start name → answer ≠ .done) →
      (∀ name, step.txn? = some name → (∀ n, step ≠ .start n) →
        s.txns.lookup name = none ∧ answer = .noTxn) →
      StepCases s step next answer

/-- A step that finds no transaction under its name does nothing. -/
theorem stepCases_noTxn {s : StoreSession} {step : StoreStep} {name : String}
    (hname : step.txn? = some name) (hstart : ∀ n, step ≠ .start n)
    (hopen : s.txns.lookup name = none) : StepCases s step s .noTxn := by
  refine .idle rfl rfl (Nat.le_refl _) (fun _ => rfl)
    (fun n h => absurd h (hstart n)) fun n h _ => ⟨?_, rfl⟩
  rw [hname] at h
  rw [← Option.some.inj h, hopen]

/-- Every step of a session is one of the cases. -/
theorem step_cases (s : StoreSession) (step : StoreStep) :
    StepCases s step (s.step step).1 (s.step step).2 := by
  cases step with
  | start name =>
      simp only [StoreSession.step, ScriptedStore.start]
      cases hf : s.backing.faults.starts with
      | nil => exact .opened name rfl (s.moves_keep ..)
      | cons code rest =>
          exact .idle rfl rfl (Nat.le_refl _) (fun _ => rfl) (by simp)
            fun _ _ h => absurd rfl (h name)
  | get name key =>
      simp only [StoreSession.step, withTxn]
      cases hopen : s.txns.lookup name with
      | none => exact stepCases_noTxn rfl (by simp) hopen
      | some t =>
          simp only [ScriptedStore.get, Txn.unlessTooOld]
          cases hage : t.isTooOld s.backing.maxAge s.time with
          | false => exact .carried name t _ hopen rfl rfl (s.moves_keep ..)
          | true =>
              exact .outlived name t hopen rfl rfl hage (moves_self hopen _)
  | scan name stem =>
      simp only [StoreSession.step, withTxn]
      cases hopen : s.txns.lookup name with
      | none => exact stepCases_noTxn rfl (by simp) hopen
      | some t =>
          simp only [ScriptedStore.scan, Txn.unlessTooOld]
          cases hage : t.isTooOld s.backing.maxAge s.time with
          | false => exact .carried name t _ hopen rfl rfl (s.moves_keep ..)
          | true =>
              exact .outlived name t hopen rfl rfl hage (moves_self hopen _)
  | put name key value =>
      simp only [StoreSession.step, withTxn]
      cases hopen : s.txns.lookup name with
      | none => exact stepCases_noTxn rfl (by simp) hopen
      | some t => exact .carried name t _ hopen rfl rfl (s.moves_keep ..)
  | remove name key =>
      simp only [StoreSession.step, withTxn]
      cases hopen : s.txns.lookup name with
      | none => exact stepCases_noTxn rfl (by simp) hopen
      | some t => exact .carried name t _ hopen rfl rfl (s.moves_keep ..)
  | stats name =>
      simp only [StoreSession.step, withTxn]
      cases hopen : s.txns.lookup name with
      | none => exact stepCases_noTxn rfl (by simp) hopen
      | some t => exact .carried name t t hopen rfl rfl (moves_self hopen _)
  | commit name =>
      simp only [StoreSession.step, withTxn]
      cases hopen : s.txns.lookup name with
      | none => exact stepCases_noTxn rfl (by simp) hopen
      | some t =>
          rcases hc : s.backing.commit t s.time with ⟨backing, result⟩
          simp only [hc]
          cases result with
          | ok u =>
              obtain ⟨hage, hstore, hmax⟩ := ScriptedStore.commit_granted hc
              exact .committed name t rfl hopen hage hstore
                ⟨rfl, hmax, rfl, fun other =>
                  lookup_filter_ne name other s.txns⟩
          | error code =>
              obtain ⟨hstore, hmax⟩ := ScriptedStore.commit_refused hc
              exact .dropped name (.inl ⟨rfl, by simp⟩)
                ⟨hstore, hmax, rfl, fun other =>
                  lookup_filter_ne name other s.txns⟩
  | abandon name =>
      simp only [StoreSession.step, withTxn]
      cases hopen : s.txns.lookup name with
      | none => exact stepCases_noTxn rfl (by simp) hopen
      | some t =>
          exact .dropped name (.inr rfl)
            ⟨rfl, rfl, rfl, fun other => lookup_filter_ne name other s.txns⟩
  | advance ms =>
      exact .idle rfl rfl (Nat.le_add_right ..) (fun _ => rfl) (by simp)
        fun _ h => by cases h
  | control control =>
      simp only [StoreSession.step]
      cases control <;>
        exact .idle rfl rfl (Nat.le_refl _) (fun _ => rfl) (by simp)
          fun _ h => by cases h

end StoreSession

end MergeOnWrite
