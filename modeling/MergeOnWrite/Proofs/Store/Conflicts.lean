/-
When a commit is refused for a conflict.

The store compares what a transaction read with the commits since its begin,
and both are told by the steps of the session: what it depends on by its own
look-ups and scans (`DependsOn`), and the commits since its begin by the
transactions whose commit was granted meanwhile, each with the keys that it
wrote on its way there (`Overwritten`).

# The argument

Along a session each granted commit of a transaction that wrote something
puts its writes in front of the commits of the store, and no other step
touches them (`commits_step`). So the commits since a begin hold a key
exactly if it was overwritten since (`commits_since`), and these are the ones
with which the store compares (`clashes_iff`).

# Main statements

- `conflicts_exact`: a commit is refused for a conflict exactly if a key that
  the transaction depends on was overwritten since its begin, and else all it
  wrote is live at once.
-/
import MergeOnWrite.Proofs.Store.Spans

namespace MergeOnWrite.StoreSession

/-- True when the transaction that some steps leave open has written a
key. -/
def Wrote (s : StoreSession) (name : String) (steps : List StoreStep)
    (key : Bytes) : Prop :=
  ∃ before during, steps = before ++ .start name :: during
    ∧ s.Spans name before during ∧ (lastWrite name key during).isSome

/-- True when a commit is granted with some step, of a transaction that has
written a key. -/
def Publishes (s : StoreSession) (steps : List StoreStep) (step : StoreStep)
    (key : Bytes) : Prop :=
  ∃ other, step = .commit other ∧ ((s.after steps).step step).2 = .done
    ∧ s.Wrote other steps key

/-- True when, after some steps and within further ones, a transaction was
committed that has written a key. -/
def Overwritten (s : StoreSession) (front steps : List StoreStep)
    (key : Bytes) : Prop :=
  Occurs (fun since step => s.Publishes (front ++ since) step key) steps

-- ================================================== commits of a session

/-- A granted commit is one of an open transaction, and no other step
changes the store. -/
theorem store_step (s : StoreSession) (step : StoreStep) :
    (∃ name t, step = .commit name ∧ (s.step step).2 = .done
        ∧ s.txns.lookup name = some t
        ∧ s.backing.store.commit t = .ok (s.step step).1.backing.store)
      ∨ (s.step step).1.backing.store = s.backing.store
        ∧ ∀ name, step = .commit name → (s.step step).2 ≠ .done := by
  have hcases := s.step_cases step
  generalize (s.step step).1 = next, (s.step step).2 = answer at hcases ⊢
  cases hcases with
  | opened n hstep hm =>
      refine .inr ⟨hm.store_eq, fun name h => ?_⟩
      rw [hstep] at h
      cases h
  | carried n t u _ _ hcarry hm =>
      refine .inr ⟨hm.store_eq, fun name h => ?_⟩
      rw [h] at hcarry
      cases hcarry
  | outlived n t _ _ hcarry _ hm =>
      refine .inr ⟨hm.store_eq, fun name h => ?_⟩
      rw [h] at hcarry
      cases hcarry
  | dropped n hstep hm =>
      refine .inr ⟨hm.store_eq, fun name h => ?_⟩
      rcases hstep with ⟨-, hne⟩ | hab
      · exact hne
      · rw [h] at hab
        cases hab
  | committed n t hstep hopen _ hcommit _ =>
      exact .inl ⟨n, t, hstep, rfl, hopen, hcommit⟩
  | idle hstore _ _ _ _ hrest =>
      refine .inr ⟨hstore, fun name h hdone => ?_⟩
      subst h
      rw [(hrest name rfl nofun).2] at hdone
      cases hdone

section Commits

variable {s : StoreSession} {steps : List StoreStep}

/-- What an open transaction has written is what it buffers. -/
theorem wrote_iff (hnone : s.txns = []) {name : String} {t : Txn}
    (hopen : (s.after steps).txns.lookup name = some t) (key : Bytes) :
    s.Wrote name steps key ↔ (t.writes.get? key).isSome := by
  constructor
  · intro ⟨before, during, hsteps, hspans, hkey⟩
    rw [(holds_of_open hsteps hspans hopen).writes_eq]
    exact hkey
  · intro hkey
    obtain ⟨before, during, hsteps, hspans⟩ := exists_spans hnone steps hopen
    rw [(holds_of_open hsteps hspans hopen).writes_eq] at hkey
    exact ⟨before, during, hsteps, hspans, hkey⟩

/-- A step adds to the commits of the store what it publishes. -/
theorem commits_step (hnone : s.txns = []) (steps : List StoreStep)
    (step : StoreStep) :
    ∃ news, (s.after (steps ++ [step])).backing.store.commits
        = news ++ (s.after steps).backing.store.commits
      ∧ ∀ key, (∃ w ∈ news, (w.get? key).isSome)
        ↔ s.Publishes steps step key := by
  rw [after_append, after_singleton]
  rcases (s.after steps).store_step step with
    ⟨name, t, rfl, hdone, hopen, hcommit⟩ | ⟨hstore, hnot⟩
  · have hwrote : ∀ key, s.Publishes steps (.commit name) key
        ↔ (t.writes.get? key).isSome := by
      intro key
      rw [← wrote_iff hnone hopen key]
      constructor
      · intro ⟨other, heq, _, h⟩
        rw [StoreStep.commit.inj heq]
        exact h
      · intro h
        exact ⟨name, rfl, hdone, h⟩
    unfold Store.commit at hcommit
    split at hcommit
    · cases hcommit
    -- without writes no version is added, and no key was written either
    · split at hcommit
      · rename_i hempty
        rw [← Except.ok.inj hcommit]
        refine ⟨[], rfl, fun key => ?_⟩
        rw [hwrote, SortedMap.eq_empty_of_isEmpty hempty]
        simp
      · rw [← Except.ok.inj hcommit]
        refine ⟨[t.writes], rfl, fun key => ?_⟩
        rw [hwrote]
        simp
  · refine ⟨[], by rw [hstore]; rfl, fun key => ?_⟩
    refine iff_of_false (by simp) fun ⟨name, hstep, hdone, _⟩ => ?_
    exact hnot name hstep hdone

/-- The commits since a moment of a session hold the keys that were
overwritten since. -/
theorem commits_since (hnone : s.txns = []) (front steps : List StoreStep) :
    ∃ news, (s.after (front ++ steps)).backing.store.commits
        = news ++ (s.after front).backing.store.commits
      ∧ ∀ key, (∃ w ∈ news, (w.get? key).isSome)
        ↔ s.Overwritten front steps key := by
  induction steps using List.reverseRecOn with
  | nil =>
      rw [List.append_nil]
      refine ⟨[], rfl, fun key => iff_of_false (by simp) not_occurs_nil⟩
  | append_singleton steps step ih =>
      obtain ⟨news, hcommits, hnews⟩ := ih
      obtain ⟨last, hstep, hlast⟩ := commits_step hnone (front ++ steps) step
      rw [← List.append_assoc]
      refine ⟨last ++ news, ?_, fun key => ?_⟩
      · rw [hstep, hcommits, List.append_assoc]
      · rw [Overwritten, occurs_append, ← hlast, ← Overwritten, ← hnews,
          or_comm]
        simp only [List.mem_append, or_and_right, exists_or]

end Commits

-- ================================================== the comparison

section Comparison

variable {s : StoreSession} {name : String} {before during : List StoreStep}
  {t : Txn}

/-- No begin changes the store. -/
theorem store_start (s : StoreSession) (name : String) :
    (s.step (.start name)).1.backing.store = s.backing.store := by
  rcases s.store_step (.start name) with ⟨n, _, h, _⟩ | ⟨hstore, _⟩
  · cases h
  · exact hstore

/-- The store finds a clash exactly if a key that the transaction depends on
was overwritten since its begin. -/
theorem clashes_iff {steps : List StoreStep} (hnone : s.txns = [])
    (hsteps : steps = before ++ .start name :: during)
    (hholds : (s.after steps).Holds name
      (.open (s.after before).backing.store (s.after before).time) during t)
    (hage : t.isTooOld (s.after steps).backing.maxAge (s.after steps).time
      = false) :
    ((s.after steps).backing.store.since t.version).any t.clashesWith = true
      ↔ ∃ key, DependsOn name during key
        ∧ s.Overwritten (before ++ [.start name]) during key := by
  obtain ⟨news, hcommits, hnews⟩ :=
    commits_since hnone (before ++ [.start name]) during
  have hfront : (s.after (before ++ [.start name])).backing.store
      = (s.after before).backing.store := by
    rw [after_append, after_singleton]
    exact store_start ..
  rw [List.append_assoc, List.singleton_append, ← hsteps, hfront] at hcommits
  have hsince : (s.after steps).backing.store.since t.version = news := by
    rw [Store.since, hcommits, hholds.version_eq, List.length_append]
    show List.take (_ + Store.version _ - Store.version _) _ = _
    rw [Nat.add_sub_cancel, List.take_left']
    rfl
  rw [hsince, List.any_eq_true]
  constructor
  · intro h
    obtain ⟨w, hw, hclash⟩ := h
    obtain ⟨key, hkey, hdep⟩ := List.any_eq_true.1 hclash
    exact ⟨key, (hholds.dependsOn_iff hage key).1 hdep,
      (hnews key).1 ⟨w, hw, SortedMap.mem_keys.1 hkey⟩⟩
  · intro h
    obtain ⟨key, hdep, hover⟩ := h
    obtain ⟨w, hw, hkey⟩ := (hnews key).2 hover
    exact ⟨w, hw, List.any_eq_true.2 ⟨key, SortedMap.mem_keys.2 hkey,
      (hholds.dependsOn_iff hage key).2 hdep⟩⟩

/-- What the store makes of a transaction that clashes with no commit since
its begin: the writes are live, with one version more if there are any. -/
theorem commit_of_unclashing {store : Store}
    (hclash : ¬ (store.since t.version).any t.clashesWith = true) :
    ∃ next, store.commit t = .ok next
      ∧ ((∃ key, (t.writes.get? key).isSome) →
        next.version = store.version + 1)
      ∧ ((∀ key, t.writes.get? key = none) → next = store) := by
  unfold Store.commit
  rw [if_neg hclash]
  by_cases hempty : t.writes.isEmpty = true
  · rw [if_pos hempty]
    refine ⟨store, rfl, fun ⟨key, hkey⟩ => ?_, fun _ => rfl⟩
    rw [SortedMap.eq_empty_of_isEmpty hempty] at hkey
    cases hkey
  · rw [if_neg hempty]
    refine ⟨_, rfl, fun _ => rfl, fun hnone => absurd ?_ hempty⟩
    have hwrites : t.writes = ∅ := SortedMap.ext_get? hnone
    rw [hwrites]
    rfl

/-- The commit of a transaction that is not too old, where no failure is due:
refused if it clashes, and else granted. -/
theorem step_commit (hopen : s.txns.lookup name = some t)
    (hage : t.isTooOld s.backing.maxAge s.time = false)
    (hdue : s.backing.faults.nextCommit.1 = none) :
    let ends := s.step (.commit name)
    ends.2 = .refused .conflict ∧ ends.1.backing.store = s.backing.store
        ∧ (s.backing.store.since t.version).any t.clashesWith = true
      ∨ ends.2 = .done
        ∧ ¬ (s.backing.store.since t.version).any t.clashesWith = true
        ∧ (∀ key, ends.1.backing.store.live.get? key
          = (t.writes.get? key).getD (s.backing.store.live.get? key))
        ∧ ((∃ key, (t.writes.get? key).isSome) →
          ends.1.backing.store.version = s.backing.store.version + 1)
        ∧ ((∀ key, t.writes.get? key = none) →
          ends.1.backing.store = s.backing.store) := by
  simp only [StoreSession.step, withTxn, hopen, ScriptedStore.commit, hdue,
    Option.elim_none, ScriptedStore.grant, Txn.unlessTooOld, hage,
    Bool.false_eq_true, if_false]
  by_cases hclash : (s.backing.store.since t.version).any t.clashesWith = true
  · have hcommit : s.backing.store.commit t = .error .conflict := by
      rw [Store.commit, if_pos hclash]
    rw [hcommit]
    exact .inl ⟨rfl, rfl, hclash⟩
  · obtain ⟨next, hcommit, hversion, hsame⟩ := commit_of_unclashing hclash
    have hlive := Store.live_commit hcommit
    rw [hcommit]
    refine .inr ⟨rfl, hclash, fun key => ?_, hversion, hsame⟩
    show next.live.get? key = _
    rw [hlive, WriteSet.get?_applyTo]

end Comparison

-- ================================================== exactness

/-- A transaction without look-ups and scans depends on nothing. -/
theorem not_dependsOn_of_blind {name : String} {during : List StoreStep}
    (hget : ∀ key, .get name key ∉ during)
    (hscan : ∀ stem, .scan name stem ∉ during) (key : Bytes) :
    ¬ DependsOn name during key := by
  intro ⟨front, step, back, hsplit, hread⟩
  have hmem : step ∈ during := by simp [hsplit]
  rcases hread with ⟨rfl, -⟩ | ⟨stem, rfl, -⟩
  · exact hget key hmem
  · exact hscan stem hmem

/-- Where no commit is granted nothing is overwritten. -/
theorem not_overwritten_of_first {s : StoreSession}
    {front steps : List StoreStep}
    (hfirst : ∀ since other back, steps = since ++ .commit other :: back →
      ((s.after (front ++ since)).step (.commit other)).2 ≠ .done)
    (key : Bytes) : ¬ s.Overwritten front steps key := by
  intro ⟨since, step, back, hsplit, other, hstep, hdone, _⟩
  subst hstep
  exact hfirst since other back hsplit hdone

/-- Conflicts are exact. Take any session and any transaction that is open in
it, not too old, and for whose commit no failure is due. It began somewhere,
and is the same one since. Its commit is refused for a conflict exactly if,
since it began, another transaction was committed that had put or removed a
key which this one looked up before it wrote it, or which extends a stem that
this one scanned. Otherwise it is granted: all it wrote last is live at once,
as one version more, and nothing else changes. So the commit is granted if
the transaction has read nothing, and if none was granted since it began. -/
theorem conflicts_exact (backing : ScriptedStore) (time : Nat)
    (steps : List StoreStep) (name : String) (t : Txn) :
    let s : StoreSession := { backing, time }
    let now := s.after steps
    let ends := now.step (.commit name)
    now.txns.lookup name = some t →
    t.isTooOld now.backing.maxAge now.time = false →
    now.backing.faults.nextCommit.1 = none →
    ∃ before during, steps = before ++ .start name :: during
      ∧ s.Spans name before during
      ∧ (ends.2 = .refused .conflict ↔ ∃ key, DependsOn name during key
        ∧ s.Overwritten (before ++ [.start name]) during key)
      ∧ (ends.2 = .refused .conflict
          ∧ ends.1.backing.store = now.backing.store
        ∨ ends.2 = .done
          ∧ (∀ key, ends.1.backing.store.live.get? key
            = (lastWrite name key during).getD
              (now.backing.store.live.get? key))
          ∧ ((∃ key, (lastWrite name key during).isSome) →
            ends.1.backing.store.version = now.backing.store.version + 1)
          ∧ ((∀ key, lastWrite name key during = none) →
            ends.1.backing.store = now.backing.store))
      ∧ ((∀ key, .get name key ∉ during) →
        (∀ stem, .scan name stem ∉ during) → ends.2 = .done)
      ∧ ((∀ since other back, during = since ++ .commit other :: back →
          ((s.after (before ++ .start name :: since)).step
            (.commit other)).2 ≠ .done) → ends.2 = .done) := by
  intro s now ends hopen hage hdue
  obtain ⟨before, during, hsteps, hspans⟩ := exists_spans rfl steps hopen
  have hholds := holds_of_open hsteps hspans hopen
  have hclash := clashes_iff rfl hsteps hholds hage
  have hfirst : ∀ key, (∀ since other back,
      during = since ++ .commit other :: back →
        ((s.after (before ++ .start name :: since)).step
          (.commit other)).2 ≠ .done) →
      ¬ s.Overwritten (before ++ [.start name]) during key := by
    intro key h
    refine not_overwritten_of_first (fun since other back hsplit => ?_) key
    rw [List.append_assoc]
    exact h since other back hsplit
  have hwrites := hholds.writes_eq
  refine ⟨before, during, hsteps, hspans, ?_⟩
  rcases step_commit hopen hage hdue with
    ⟨hanswer, hstore, hyes⟩ | ⟨hanswer, hno, hlive, hversion, hsame⟩
  · obtain ⟨key, hdep, hover⟩ := hclash.1 hyes
    refine ⟨iff_of_true hanswer ⟨key, hdep, hover⟩, .inl ⟨hanswer, hstore⟩,
      fun hget hscan => ?_, fun h => absurd hover (hfirst key h)⟩
    exact absurd hdep (not_dependsOn_of_blind hget hscan key)
  · simp only [hwrites] at hlive hversion hsame
    refine ⟨iff_of_false (fun h => ?_) fun h => hno (hclash.2 h),
      .inr ⟨hanswer, hlive, hversion, hsame⟩, fun _ _ => hanswer,
      fun _ => hanswer⟩
    rw [hanswer] at h
    cases h

/-- A transaction that scans, a blind one that writes what was scanned, and a
third one that removes it, though it is not there, and is committed first. -/
def phantomSteps : List StoreStep :=
  [.start "t", .scan "t" [1], .put "t" [2] [20],
    .start "w", .put "w" [1, 5] [21],
    .start "b", .remove "b" [1, 5], .commit "b"]

/-- The removal of a key that is not there is a conflict for the one that
scanned, and none for the one that writes. -/
theorem conflicts_exact_phantom :
    let s : StoreSession := { backing := {}, time := 0 }
    let now := s.after phantomSteps
    (now.step (.commit "t")).2 = .refused .conflict
      ∧ (now.step (.commit "w")).2 = .done
      ∧ ∃ before during, phantomSteps = before ++ .start "t" :: during
        ∧ s.Spans "t" before during
        ∧ ∃ key, DependsOn "t" during key
          ∧ s.Overwritten (before ++ [.start "t"]) during key := by
  let now := StoreSession.after { backing := {}, time := 0 } phantomSteps
  have hopen : (now.txns.lookup "t").any (fun t => !t.isTooOld none 0
      && (now.backing.store.since t.version).any t.clashesWith) = true := by
    decide +kernel
  have hopen' : (now.txns.lookup "w").any (fun t => !t.isTooOld none 0
      && !(now.backing.store.since t.version).any t.clashesWith) = true := by
    decide +kernel
  obtain ⟨t, ht, htells⟩ := (Option.any_eq_true _ _).1 hopen
  obtain ⟨w, hw, hwtells⟩ := (Option.any_eq_true _ _).1 hopen'
  simp only [Bool.and_eq_true, Bool.not_eq_true'] at htells hwtells
  have hrefused : (now.step (.commit "t")).2 = .refused .conflict := by
    rcases step_commit ht htells.1 rfl with ⟨h, -⟩ | ⟨-, hno, -⟩
    · exact h
    · exact absurd htells.2 hno
  have hdone : (now.step (.commit "w")).2 = .done := by
    rcases step_commit hw hwtells.1 rfl with ⟨-, -, hyes⟩ | ⟨h, -⟩
    · exact absurd hyes (Bool.eq_false_iff.1 hwtells.2)
    · exact h
  obtain ⟨before, during, hsteps, hspans, hexact, _⟩ :=
    conflicts_exact {} 0 phantomSteps "t" t ht htells.1 rfl
  exact ⟨hrefused, hdone, before, during, hsteps, hspans, hexact.1 hrefused⟩

end MergeOnWrite.StoreSession
