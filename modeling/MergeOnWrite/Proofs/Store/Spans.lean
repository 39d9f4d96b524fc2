/-
What an open transaction is, told by the steps of its session.

A transaction begins where a step that starts its name is granted, and it
is the same one until its name is committed, abandoned or started anew
(`Spans`). In between it is known from the steps: where it began it took the
live entries of that moment, each put or removal of its own stands until the
next one at the same key, and it depends on the keys that it looked up
before it wrote them and on the stems that it scanned. What others do
meanwhile, their commits included, leaves all of this alone.

# Main statements

- `holds_of_spans`: the transaction that a session holds open is the one
  that its steps tell (`Holds`).
- `exists_spans`: every open transaction has such steps.
- `snapshot_exact`: look-ups and scans answer with what the transaction
  itself wrote last, and else with what was live where it began.
-/
import Mathlib.Data.List.Induction
import MergeOnWrite.Proofs.Bytes
import MergeOnWrite.Proofs.Store.Session

namespace MergeOnWrite

-- ================================================== steps of a name

/-- True when some step, with those before it, is as asked. -/
def Occurs (p : List StoreStep → StoreStep → Prop) (steps : List StoreStep) :
    Prop :=
  ∃ front step back, steps = front ++ step :: back ∧ p front step

theorem not_occurs_nil {p : List StoreStep → StoreStep → Prop} :
    ¬ Occurs p [] := by
  intro ⟨front, step, back, h, _⟩
  exact absurd h (by simp)

/-- A further step adds itself to what occurs. -/
theorem occurs_append {p : List StoreStep → StoreStep → Prop}
    {steps : List StoreStep} {step : StoreStep} :
    Occurs p (steps ++ [step]) ↔ Occurs p steps ∨ p steps step := by
  constructor
  · intro ⟨front, x, back, h, hp⟩
    rcases List.eq_nil_or_concat back with rfl | ⟨init, last, rfl⟩
    · obtain ⟨rfl, hx⟩ := List.append_inj' h rfl
      cases hx
      exact .inr hp
    · have hsplit : steps ++ [step] = (front ++ x :: init) ++ [last] := by
        rw [h]
        simp
      obtain ⟨rfl, -⟩ := List.append_inj' hsplit rfl
      exact .inl ⟨front, x, init, rfl, hp⟩
  · intro h
    rcases h with ⟨front, x, back, rfl, hp⟩ | hp
    · exact ⟨front, x, back ++ [step], by simp, hp⟩
    · exact ⟨steps, step, [], rfl, hp⟩

/-- What a step writes at a key for the transaction of a name: a value, or
nothing where it removes the key. -/
def StoreStep.write? (name : String) (key : Bytes) :
    StoreStep → Option (Option Bytes)
  | .put n k value => if n = name ∧ k = key then some (some value) else none
  | .remove n k => if n = name ∧ k = key then some none else none
  | _ => none

/-- The last write of the transaction of a name at a key. -/
def lastWrite (name : String) (key : Bytes) (steps : List StoreStep) :
    Option (Option Bytes) :=
  steps.reverse.findSome? (·.write? name key)

/-- True of the keys that the transaction of a name looked up when it had not
written them, and of those that extend a stem it scanned. -/
def DependsOn (name : String) (steps : List StoreStep) (key : Bytes) : Prop :=
  Occurs (fun front step =>
    step = .get name key ∧ lastWrite name key front = none
      ∨ ∃ stem, step = .scan name stem ∧ stem <+: key) steps

theorem lastWrite_append (name : String) (key : Bytes)
    (steps : List StoreStep) (step : StoreStep) :
    lastWrite name key (steps ++ [step])
      = (step.write? name key).or (lastWrite name key steps) := by
  unfold lastWrite
  rw [List.reverse_append, List.reverse_singleton, List.singleton_append,
    List.findSome?_cons]
  cases step.write? name key <;> rfl

theorem StoreStep.write?_of_ne {name : String} {step : StoreStep}
    (h : step.txn? ≠ some name) (key : Bytes) :
    step.write? name key = none := by
  cases step with
  | put n k value =>
      have hne : n ≠ name := fun hn => h (congrArg some hn)
      simp [write?, hne]
  | remove n k =>
      have hne : n ≠ name := fun hn => h (congrArg some hn)
      simp [write?, hne]
  | start | get | scan | stats | commit | abandon | advance | control => rfl

/-- What is written last at a key stands there. -/
theorem WriteSet.get?_insert_or (writes : WriteSet) (k key : Bytes)
    (value : Option Bytes) :
    (writes.insert k value).get? key
      = (if k = key then some value else none).or (writes.get? key) := by
  rw [SortedMap.get?_insert]
  by_cases h : k = key
  · rw [if_pos (by rw [h, Std.ReflOrd.compare_self]), if_pos h]
    rfl
  · rw [if_neg fun heq => h (Std.LawfulEqOrd.eq_of_compare heq).symm,
      if_neg h]
    rfl

/-- A step of no transaction of the name leaves what it depends on. -/
theorem dependsOn_append_of_ne {name : String} {steps : List StoreStep}
    {step : StoreStep} {key : Bytes} (h : step.txn? ≠ some name) :
    DependsOn name (steps ++ [step]) key ↔ DependsOn name steps key := by
  refine occurs_append.trans (or_iff_left fun hread => ?_)
  rcases hread with ⟨rfl, -⟩ | ⟨stem, rfl, -⟩
  · exact h rfl
  · exact h rfl

namespace StoreSession

-- ================================================== from begin to end

/-- True of a step that ends the transaction of a name, or begins another one
under that name. -/
def Ends (s : StoreSession) (name : String) (step : StoreStep) : Prop :=
  step = .commit name ∨ step = .abandon name
    ∨ step = .start name ∧ (s.step step).2 = .done

/-- True of steps that the open transaction of a name outlasts. -/
def Lasts (name : String) : StoreSession → List StoreStep → Prop
  | _, [] => True
  | s, step :: rest => ¬ s.Ends name step ∧ Lasts name (s.step step).1 rest

/-- The transaction of a name that begins after some steps and is open during
others. -/
structure Spans (s : StoreSession) (name : String)
    (before during : List StoreStep) : Prop where
  begins : ((s.after before).step (.start name)).2 = .done
  lasts : Lasts name ((s.after before).step (.start name)).1 during

theorem lasts_append {name : String} {step : StoreStep} :
    ∀ {steps : List StoreStep} {s : StoreSession},
      Lasts name s (steps ++ [step])
        ↔ Lasts name s steps ∧ ¬ (s.after steps).Ends name step := by
  intro steps
  induction steps with
  | nil => intro s; simp [Lasts, after]
  | cons first rest ih =>
      intro s
      show ¬ _ ∧ Lasts name _ (rest ++ [step]) ↔ (¬ _ ∧ Lasts name _ rest) ∧ _
      rw [ih, and_assoc]
      rfl

theorem after_span (s : StoreSession) (name : String)
    (before during : List StoreStep) :
    s.after (before ++ .start name :: during)
      = (((s.after before).step (.start name)).1).after during :=
  after_append s before (.start name :: during)

-- ================================================== single steps

/-- No step changes the age limit or turns time back. -/
theorem step_keeps (s : StoreSession) (step : StoreStep) :
    (s.step step).1.backing.maxAge = s.backing.maxAge
      ∧ s.time ≤ (s.step step).1.time := by
  have hmoves : ∀ {next : StoreSession} {name : String} {txn : Option Txn},
      s.Moves next name txn → next.backing.maxAge = s.backing.maxAge
        ∧ s.time ≤ next.time :=
    fun h => ⟨h.maxAge_eq, Nat.le_of_eq h.time_eq.symm⟩
  have hcases := s.step_cases step
  generalize (s.step step).1 = next, (s.step step).2 = answer at hcases ⊢
  cases hcases with
  | opened _ _ h => exact hmoves h
  | carried _ _ _ _ _ _ h => exact hmoves h
  | outlived _ _ _ _ _ _ h => exact hmoves h
  | dropped _ _ h => exact hmoves h
  | committed _ _ _ _ _ _ h =>
      exact ⟨h.maxAge_eq, Nat.le_of_eq h.time_eq.symm⟩
  | idle _ hmax htime => exact ⟨hmax, htime⟩

/-- No step touches a transaction of another name. -/
theorem lookup_of_ne {name : String} {s : StoreSession} {step : StoreStep}
    (h : step.txn? ≠ some name) :
    (s.step step).1.txns.lookup name = s.txns.lookup name := by
  have hcases := s.step_cases step
  generalize (s.step step).1 = next, (s.step step).2 = answer at hcases ⊢
  have hmoves : ∀ {n : String} {txn : Option Txn}, step.txn? = some n →
      s.Moves next n txn → next.txns.lookup name = s.txns.lookup name := by
    intro n txn hn hmoves
    have hne : name ≠ n := fun heq => h (heq ▸ hn)
    rw [hmoves.lookup_eq, if_neg hne]
  cases hcases with
  | opened n hstep hm => exact hmoves (by rw [hstep]; rfl) hm
  | carried n t u _ hn _ hm => exact hmoves hn hm
  | outlived n t _ hn _ _ hm => exact hmoves hn hm
  | dropped n hstep hm =>
      refine hmoves ?_ hm
      rcases hstep with ⟨rfl, -⟩ | rfl <;> rfl
  | committed n t hstep _ _ _ hm =>
      have hne : name ≠ n := fun heq => h (by rw [hstep, heq]; rfl)
      rw [hm.lookup_eq, if_neg hne]
  | idle _ _ _ hlookup => exact hlookup name

/-- A step of an open transaction that does not end it is carried out, unless
it reads and the transaction is too old, or is a begin that is refused. -/
theorem lookup_of_lasting {s : StoreSession} {name : String} {t : Txn}
    {step : StoreStep} (hopen : s.txns.lookup name = some t)
    (hname : step.txn? = some name) (hends : ¬ s.Ends name step) :
    ∃ u, (s.step step).1.txns.lookup name = some u ∧
      ((∃ answer, t.carryOut step = some (answer, u))
        ∨ u = t ∧ (∀ key, step.write? name key = none)
          ∧ (t.isTooOld s.backing.maxAge s.time = true
            ∨ step = .start name)) := by
  have hkeep : ∀ (backing : ScriptedStore) (u : Txn),
      ({ s with backing }.keep name u).txns.lookup name = some u := by
    intro backing u
    show ((name, u) :: s.txns.filter (·.1 ≠ name)).lookup name = some u
    rw [lookup_cons_filter_ne, if_pos rfl]
  cases step with
  | start n =>
      obtain rfl := Option.some.inj hname
      refine ⟨t, ?_, .inr ⟨rfl, fun _ => rfl, .inr rfl⟩⟩
      have hne : (s.step (.start n)).2 ≠ .done :=
        fun h => hends (.inr (.inr ⟨rfl, h⟩))
      simp only [StoreSession.step, ScriptedStore.start] at hne ⊢
      cases hf : s.backing.faults.starts with
      | nil =>
          rw [hf] at hne
          exact absurd rfl hne
      | cons code rest => exact hopen
  | get n key =>
      obtain rfl := Option.some.inj hname
      simp only [StoreSession.step, withTxn, hopen, ScriptedStore.get,
        Txn.unlessTooOld]
      cases hage : t.isTooOld s.backing.maxAge s.time with
      | true => exact ⟨t, hopen, .inr ⟨rfl, fun _ => rfl, .inl rfl⟩⟩
      | false => exact ⟨_, hkeep _ _, .inl ⟨_, rfl⟩⟩
  | scan n stem =>
      obtain rfl := Option.some.inj hname
      simp only [StoreSession.step, withTxn, hopen, ScriptedStore.scan,
        Txn.unlessTooOld]
      cases hage : t.isTooOld s.backing.maxAge s.time with
      | true => exact ⟨t, hopen, .inr ⟨rfl, fun _ => rfl, .inl rfl⟩⟩
      | false => exact ⟨_, hkeep _ _, .inl ⟨_, rfl⟩⟩
  | put n key value =>
      obtain rfl := Option.some.inj hname
      simp only [StoreSession.step, withTxn, hopen]
      exact ⟨_, hkeep _ _, .inl ⟨_, rfl⟩⟩
  | remove n key =>
      obtain rfl := Option.some.inj hname
      simp only [StoreSession.step, withTxn, hopen]
      exact ⟨_, hkeep _ _, .inl ⟨_, rfl⟩⟩
  | stats n =>
      obtain rfl := Option.some.inj hname
      simp only [StoreSession.step, withTxn, hopen]
      exact ⟨t, rfl, .inl ⟨_, rfl⟩⟩
  | commit n =>
      obtain rfl := Option.some.inj hname
      exact absurd (.inl rfl) hends
  | abandon n =>
      obtain rfl := Option.some.inj hname
      exact absurd (.inr (.inl rfl)) hends
  | advance | control => cases hname

-- ================================================== open transactions

/-- A session has a transaction open that began as `base` and has done some
steps since. What it depends on is told as long as it is not too old, since
no read is answered after that. -/
structure Holds (s : StoreSession) (name : String) (base : Txn)
    (during : List StoreStep) (t : Txn) : Prop where
  lookup_eq : s.txns.lookup name = some t
  version_eq : t.version = base.version
  snapshot_eq : t.snapshot = base.snapshot
  started_eq : t.started = base.started
  writes_eq : ∀ key, t.writes.get? key = lastWrite name key during
  dependsOn_iff : t.isTooOld s.backing.maxAge s.time = false →
    ∀ key, t.dependsOn key = true ↔ DependsOn name during key

/-- A transaction that begins has done nothing. -/
theorem holds_open {s : StoreSession} {name : String}
    (h : (s.step (.start name)).2 = .done) :
    (s.step (.start name)).1.Holds name (.open s.backing.store s.time) []
      (.open s.backing.store s.time) := by
  have hlookup : (s.step (.start name)).1.txns.lookup name
      = some (.open s.backing.store s.time) := by
    simp only [StoreSession.step, ScriptedStore.start] at h ⊢
    cases hf : s.backing.faults.starts with
    | nil =>
        show ((name, _) :: s.txns.filter (·.1 ≠ name)).lookup name = _
        rw [lookup_cons_filter_ne, if_pos rfl]
    | cons code rest =>
        rw [hf] at h
        cases h
  refine ⟨hlookup, rfl, rfl, rfl, fun _ => rfl, fun _ key => ?_⟩
  refine iff_of_false (fun h => ?_) not_occurs_nil
  cases h

section Lifetime

variable {s : StoreSession} {name : String} {base t : Txn}
  {during : List StoreStep} {step : StoreStep}

/-- A transaction is not too old yet if it is not too old later on. -/
theorem isTooOld_before (h : t.isTooOld (s.step step).1.backing.maxAge
      (s.step step).1.time = false) :
    t.isTooOld s.backing.maxAge s.time = false := by
  obtain ⟨hmax, htime⟩ := s.step_keeps step
  rw [hmax] at h
  cases hage : t.isTooOld s.backing.maxAge s.time with
  | false => rfl
  | true =>
      rw [Txn.isTooOld_of_le htime hage] at h
      cases h

/-- What a transaction writes and depends on after a step that it carries
out. -/
theorem carryOut_tells {u : Txn} {answer : StoreAnswer}
    (hname : step.txn? = some name)
    (hcarry : t.carryOut step = some (answer, u)) :
    (∀ key, u.writes.get? key
        = (step.write? name key).or (t.writes.get? key))
      ∧ ∀ key, u.dependsOn key = true ↔ t.dependsOn key = true
        ∨ (step = .get name key ∧ t.writes.get? key = none
          ∨ ∃ stem, step = .scan name stem ∧ stem <+: key) := by
  cases step with
  | start | commit | abandon | advance | control => cases hcarry
  | get n k =>
      obtain rfl := Option.some.inj hname
      cases hcarry
      refine ⟨fun _ => rfl, fun key => ?_⟩
      simp only [Txn.dependsOn_iff, StoreStep.get.injEq, true_and, reduceCtorEq,
        false_and, exists_false, or_false]
      show (key ∈ (if _ then _ else _) ∨ _) ↔ _
      cases hw : t.writes.get? k with
      | none =>
          simp only [Option.isSome_none, Bool.false_eq_true, if_false,
            List.mem_cons]
          constructor
          · intro h
            rcases h with (rfl | h) | h
            · exact .inr ⟨rfl, hw⟩
            · exact .inl (.inl h)
            · exact .inl (.inr h)
          · intro h
            rcases h with (h | h) | ⟨rfl, -⟩
            · exact .inl (.inr h)
            · exact .inr h
            · exact .inl (.inl rfl)
      | some v =>
          simp only [Option.isSome_some, if_true]
          refine (or_iff_left fun h => ?_).symm
          rw [← h.1, hw] at h
          cases h.2
  | scan n stem =>
      obtain rfl := Option.some.inj hname
      cases hcarry
      refine ⟨fun _ => rfl, fun key => ?_⟩
      simp only [Txn.dependsOn_iff, KeyRange.contains_extending,
        StoreStep.scan.injEq, true_and, reduceCtorEq, false_and, false_or,
        exists_eq_left']
      show (key ∈ t.readKeys ∨ ∃ x ∈ stem :: t.readStems, _) ↔ _
      simp only [List.mem_cons, exists_eq_or_imp]
      rw [or_assoc, or_comm (a := stem <+: key)]
  | put n k value =>
      obtain rfl := Option.some.inj hname
      cases hcarry
      refine ⟨fun key => ?_, fun key => ?_⟩
      · refine (WriteSet.get?_insert_or ..).trans ?_
        simp only [StoreStep.write?, true_and]
      · simp only [reduceCtorEq, false_and, exists_false, or_false]
        rfl
  | remove n k =>
      obtain rfl := Option.some.inj hname
      cases hcarry
      refine ⟨fun key => ?_, fun key => ?_⟩
      · refine (WriteSet.get?_insert_or ..).trans ?_
        simp only [StoreStep.write?, true_and]
      · simp only [reduceCtorEq, false_and, exists_false, or_false]
        rfl
  | stats n =>
      cases hcarry
      refine ⟨fun _ => rfl, fun key => ?_⟩
      simp only [reduceCtorEq, false_and, exists_false, or_false]

/-- A step that the open transaction outlasts is one more of its steps. -/
theorem Holds.goOn (h : s.Holds name base during t)
    (hends : ¬ s.Ends name step) :
    ∃ u, (s.step step).1.Holds name base (during ++ [step]) u := by
  by_cases hname : step.txn? = some name
  · obtain ⟨u, hlookup, hu⟩ := lookup_of_lasting h.lookup_eq hname hends
    rcases hu with ⟨answer, hcarry⟩ | ⟨rfl, hwrite, hidle⟩
    · obtain ⟨hversion, hsnapshot, hstarted⟩ := Txn.carryOut_keeps hcarry
      obtain ⟨hwrites, hdepends⟩ := carryOut_tells hname hcarry
      refine ⟨u, hlookup, hversion.trans h.version_eq,
        hsnapshot.trans h.snapshot_eq, hstarted.trans h.started_eq,
        fun key => ?_, fun hage key => ?_⟩
      · rw [hwrites, h.writes_eq, lastWrite_append]
      · rw [Txn.isTooOld, hstarted] at hage
        have hage' : t.isTooOld s.backing.maxAge s.time = false :=
          isTooOld_before hage
        rw [hdepends, h.dependsOn_iff hage', h.writes_eq]
        exact occurs_append.symm
    · refine ⟨u, hlookup, h.version_eq, h.snapshot_eq, h.started_eq,
        fun key => ?_, fun hage key => ?_⟩
      · rw [h.writes_eq, lastWrite_append, hwrite]
        rfl
      -- a read refused for age tells nothing, but then it is too old for good
      · rcases hidle with hold | rfl
        · rw [isTooOld_before hage] at hold
          cases hold
        · rw [h.dependsOn_iff (isTooOld_before hage)]
          refine (occurs_append.trans (or_iff_left fun hread => ?_)).symm
          rcases hread with ⟨heq, -⟩ | ⟨_, heq, -⟩ <;> cases heq
  · refine ⟨t, (lookup_of_ne hname).trans h.lookup_eq, h.version_eq,
      h.snapshot_eq, h.started_eq, fun key => ?_, fun hage key => ?_⟩
    · rw [h.writes_eq, lastWrite_append, StoreStep.write?_of_ne hname]
      rfl
    · rw [h.dependsOn_iff (isTooOld_before hage),
        dependsOn_append_of_ne hname]

theorem Holds.after (rest : List StoreStep) :
    ∀ {s : StoreSession} {during : List StoreStep} {t : Txn},
      s.Holds name base during t → Lasts name s rest →
        ∃ u, (s.after rest).Holds name base (during ++ rest) u := by
  induction rest with
  | nil =>
      intro s during t h _
      rw [List.append_nil]
      exact ⟨t, h⟩
  | cons step rest ih =>
      intro s during t h hlasts
      obtain ⟨u, hu⟩ := h.goOn hlasts.1
      obtain ⟨v, hv⟩ := ih hu hlasts.2
      rw [List.append_assoc] at hv
      exact ⟨v, hv⟩

/-- The transaction that a session holds open is the one that its steps
tell. -/
theorem holds_of_spans {before : List StoreStep}
    (h : s.Spans name before during) :
    ∃ t, (s.after (before ++ .start name :: during)).Holds name
      (.open (s.after before).backing.store (s.after before).time) during t := by
  rw [after_span]
  exact (holds_open h.begins).after during h.lasts

theorem holds_of_open {before steps : List StoreStep}
    (hsteps : steps = before ++ .start name :: during)
    (hspans : s.Spans name before during)
    (hopen : (s.after steps).txns.lookup name = some t) :
    (s.after steps).Holds name
      (.open (s.after before).backing.store (s.after before).time) during t := by
  obtain ⟨u, hu⟩ := holds_of_spans hspans
  rw [← hsteps] at hu
  obtain rfl : t = u := Option.some.inj (hopen.symm.trans hu.lookup_eq)
  exact hu

/-- A transaction that is still open was so before, and has not ended, unless
it begins right now. -/
theorem lookup_before (hopen : (s.step step).1.txns.lookup name = some t)
    (hbegins : ¬ (step = .start name ∧ (s.step step).2 = .done)) :
    (∃ u, s.txns.lookup name = some u) ∧ ¬ s.Ends name step := by
  have hcases := s.step_cases step
  unfold Ends
  generalize (s.step step).1 = next, (s.step step).2 = answer
    at hcases hopen hbegins ⊢
  have hends : step ≠ .commit name → step ≠ .abandon name →
      ¬ (step = .commit name ∨ step = .abandon name
        ∨ step = .start name ∧ answer = .done) := by
    intro h1 h2 h
    rcases h with h | h | h
    · exact h1 h
    · exact h2 h
    · exact hbegins h
  -- whoever goes on was open, and its step is neither a commit nor a drop
  have hgoes : ∀ {n : String} {u v : Txn}, s.txns.lookup n = some u →
      (u.carryOut step).isSome → s.Moves next n (some v) →
      (∃ u, s.txns.lookup name = some u) ∧ ¬ (step = .commit name
        ∨ step = .abandon name ∨ step = .start name ∧ answer = .done) := by
    intro n u v hu hcarry hm
    refine ⟨?_, hends (fun h => ?_) fun h => ?_⟩
    · by_cases heq : name = n
      · exact ⟨u, heq ▸ hu⟩
      · rw [hm.lookup_eq, if_neg heq] at hopen
        exact ⟨t, hopen⟩
    · rw [h] at hcarry
      cases hcarry
    · rw [h] at hcarry
      cases hcarry
  cases hcases with
  | opened n hstep hm =>
      subst hstep
      have hne : name ≠ n := fun heq => hbegins ⟨heq ▸ rfl, rfl⟩
      rw [hm.lookup_eq, if_neg hne] at hopen
      exact ⟨⟨t, hopen⟩, hends nofun nofun⟩
  | carried n u v hu _ hcarry hm => exact hgoes hu (by simp [hcarry]) hm
  | outlived n u hu _ hcarry _ hm => exact hgoes hu hcarry hm
  | dropped n hstep hm =>
      by_cases heq : name = n
      · rw [hm.lookup_eq, if_pos heq] at hopen
        cases hopen
      · rw [hm.lookup_eq, if_neg heq] at hopen
        refine ⟨⟨t, hopen⟩, hends (fun h => ?_) fun h => ?_⟩
        · rcases hstep with ⟨rfl, -⟩ | rfl
          · exact heq (StoreStep.commit.inj h).symm
          · cases h
        · rcases hstep with ⟨rfl, -⟩ | rfl
          · cases h
          · exact heq (StoreStep.abandon.inj h).symm
  | committed n u hstep _ _ _ hm =>
      by_cases heq : name = n
      · rw [hm.lookup_eq, if_pos heq] at hopen
        cases hopen
      · rw [hm.lookup_eq, if_neg heq] at hopen
        subst hstep
        exact ⟨⟨t, hopen⟩, hends
          (fun h => heq (StoreStep.commit.inj h).symm) nofun⟩
  | idle _ _ _ hlookup _ hrest =>
      rw [hlookup] at hopen
      refine ⟨⟨t, hopen⟩, hends (fun h => ?_) fun h => ?_⟩ <;>
        · have hnone := (hrest name (h ▸ rfl) (h ▸ nofun)).1
          rw [hopen] at hnone
          cases hnone

/-- Every open transaction of a session that began without one has its
steps. -/
theorem exists_spans (hnone : s.txns = []) (steps : List StoreStep) :
    ∀ {name : String} {t : Txn}, (s.after steps).txns.lookup name = some t →
      ∃ before during, steps = before ++ .start name :: during
        ∧ s.Spans name before during := by
  induction steps using List.reverseRecOn with
  | nil =>
      intro name t h
      rw [StoreSession.after, List.foldl_nil, hnone] at h
      cases h
  | append_singleton steps step ih =>
      intro name t h
      rw [after_append, after_singleton] at h
      by_cases hbegins : step = .start name
          ∧ ((s.after steps).step step).2 = .done
      · obtain ⟨rfl, hdone⟩ := hbegins
        exact ⟨steps, [], rfl, hdone, trivial⟩
      · obtain ⟨⟨u, hu⟩, hends⟩ := lookup_before h hbegins
        obtain ⟨before, during, rfl, hspans⟩ := ih hu
        refine ⟨before, during ++ [step], by simp, hspans.begins, ?_⟩
        rw [after_span] at hends
        exact lasts_append.2 ⟨hspans.lasts, hends⟩

end Lifetime

-- ================================================== reads

/-- A scan lists, in the order of the keys, what the transaction has at the
keys that extend the stem. -/
theorem mem_listing {t : Txn} {stem key value : Bytes} :
    (key, value) ∈ t.listing stem
      ↔ stem <+: key ∧ t.value? key = some value := by
  show (key, value) ∈ (t.view.within (.extending stem)).toList ↔ _
  rw [SortedMap.mem_toList_iff, Entries.get?_within, Txn.value?_eq]
  by_cases h : stem <+: key
  · rw [if_pos (KeyRange.contains_extending.2 h)]
    exact (and_iff_right h).symm
  · rw [if_neg fun hc => h (KeyRange.contains_extending.1 hc)]
    exact iff_of_false nofun fun hc => h hc.1

section Reads

variable {s : StoreSession} {name : String} {t : Txn}

/-- A transaction that is not too old is told what it has at a key. -/
theorem step_get (hopen : s.txns.lookup name = some t)
    (hage : t.isTooOld s.backing.maxAge s.time = false) (key : Bytes) :
    (s.step (.get name key)).2 = .value (t.value? key) := by
  simp only [StoreSession.step, withTxn, hopen, ScriptedStore.get,
    Txn.unlessTooOld, hage]
  rfl

theorem step_scan (hopen : s.txns.lookup name = some t)
    (hage : t.isTooOld s.backing.maxAge s.time = false) (stem : Bytes) :
    (s.step (.scan name stem)).2 = .listing (t.listing stem) := by
  simp only [StoreSession.step, withTxn, hopen, ScriptedStore.scan,
    Txn.unlessTooOld, hage]
  rfl

/-- What an open transaction has at a key: its last write there, and else
what was live where it began. -/
theorem Holds.value?_eq {base : Txn} {during : List StoreStep}
    (h : s.Holds name base during t) (key : Bytes) :
    t.value? key
      = (lastWrite name key during).getD (base.snapshot.get? key) := by
  rw [Txn.value?, h.writes_eq, h.snapshot_eq]

end Reads

/-- Snapshot reads. Take any session and any transaction that is open in it
and not too old. It began somewhere, and is the same one since. Whatever
happened in between, a look-up answers with its own last write at the key, or
else with what was live where it began. A scan lists in strictly increasing
order of the keys, and so each key once, exactly what look-ups would find at
the extensions of the stem, whichever byte string that is. -/
theorem snapshot_exact (backing : ScriptedStore) (time : Nat)
    (steps : List StoreStep) (name : String) (t : Txn) :
    let s : StoreSession := { backing, time }
    let now := s.after steps
    now.txns.lookup name = some t →
    t.isTooOld now.backing.maxAge now.time = false →
    ∃ before during, steps = before ++ .start name :: during
      ∧ s.Spans name before during
      ∧ (∀ key, (now.step (.get name key)).2
          = .value ((lastWrite name key during).getD
            ((s.after before).backing.store.live.get? key)))
      ∧ ∀ stem, ∃ entries, (now.step (.scan name stem)).2 = .listing entries
        ∧ entries.Pairwise (fun a b => compare a.1 b.1 = .lt)
        ∧ ∀ key value, (key, value) ∈ entries
          ↔ stem <+: key
            ∧ (now.step (.get name key)).2 = .value (some value) := by
  intro s now hopen hage
  obtain ⟨before, during, hsteps, hspans⟩ := exists_spans rfl steps hopen
  have hholds := holds_of_open hsteps hspans hopen
  refine ⟨before, during, hsteps, hspans, fun key => ?_, fun stem => ?_⟩
  · rw [step_get hopen hage, hholds.value?_eq]
    rfl
  · refine ⟨t.listing stem, step_scan hopen hage stem,
      SortedMap.ascending _, fun key value => ?_⟩
    rw [step_get hopen hage, mem_listing, StoreAnswer.value.injEq]

/-- A transaction that removes one of two keys and puts a third, while another
one is committed that puts the first anew and removes the second. -/
def overtakenSteps : List StoreStep :=
  [.start "a", .put "a" [1] [10], .put "a" [0xFF, 1] [11], .commit "a",
    .start "t", .remove "t" [1], .put "t" [0xFF, 0xFF] [20],
    .start "b", .put "b" [1] [12], .remove "b" [0xFF, 1], .commit "b",
    .advance 5]

/-- The transaction that was overtaken does not see it: it finds neither the
value put anew nor that the other key is gone. -/
theorem snapshot_exact_overtaken :
    let s : StoreSession := { backing := { maxAge := some 5 }, time := 0 }
    let now := s.after overtakenSteps
    (now.step (.get "t" [1])).2 = .value none
      ∧ (now.step (.scan "t" [0xFF])).2
        = .listing [([0xFF, 1], [11]), ([0xFF, 0xFF], [20])]
      ∧ ∃ before during, overtakenSteps = before ++ .start "t" :: during
        ∧ s.Spans "t" before during
        ∧ ∀ key, (now.step (.get "t" key)).2
          = .value ((lastWrite "t" key during).getD
            ((s.after before).backing.store.live.get? key)) := by
  have hopen : ((StoreSession.after
      { backing := { maxAge := some 5 }, time := 0 } overtakenSteps).txns.lookup
        "t").any (fun t => !t.isTooOld (some 5) 5 && t.value? [1] == none
          && t.listing [0xFF] == [([0xFF, 1], [11]), ([0xFF, 0xFF], [20])])
            = true := by
    decide +kernel
  obtain ⟨t, ht, htells⟩ := (Option.any_eq_true _ _).1 hopen
  simp only [Bool.and_eq_true, Bool.not_eq_true', beq_iff_eq] at htells
  obtain ⟨⟨hage, hvalue⟩, hlisting⟩ := htells
  obtain ⟨before, during, hsteps, hspans, hget, _⟩ :=
    snapshot_exact { maxAge := some 5 } 0 overtakenSteps "t" t ht hage
  refine ⟨?_, ?_, before, during, hsteps, hspans, hget⟩
  · exact (step_get ht hage [1]).trans (congrArg _ hvalue)
  · exact (step_scan ht hage [0xFF]).trans (congrArg _ hlisting)

end StoreSession

end MergeOnWrite
