/-
Scripts on drafts, and scripts of a service that nobody disturbs.

A transaction of such a service begins with the live entries and ends before
anybody else changes them. What it reads is its draft of them, and what a
commit leaves is that draft. So what has been shown of a script on drafts
holds of its run (`run_safe`): it ends as it may, and its commits, one after
another, are those that it may make (`Contract.Leads`).

# Main statements

- `answers_alone`: a question is answered as a draft answers it.
- `run_safe`: a script that is safe on drafts is safe when it runs.
-/
import MergeOnWrite.Proofs.Service.Solo
import MergeOnWrite.Proofs.Simulation.Lone

namespace MergeOnWrite

/-- What some commits lead to, each of which a contract allows. -/
inductive Contract.Leads (c : Contract) : Nat → Entries → Entries → Prop
  | none (entries : Entries) : Leads c 0 entries entries
  | commit {n : Nat} {first before after : Entries} (readings : List Instant) :
    Leads c n first before → c.commits readings ⟨before, after⟩ →
    Leads c (n + 1) first after

namespace World

/-- How far a script has come whose transaction is on the live entries. -/
structure Mirrors (w : World) (txn : Option Txn) (p : Progress) : Prop where
  draft : p.draft = txn.map fun t => ⟨w.backing.store.live, t.view⟩
  snapshot : ∀ t, txn = some t → t.snapshot = w.backing.store.live

/-- What a contract takes for granted, as the service has it. -/
structure Hosts (w : World) (c : Contract) : Prop where
  route : ∀ i, w.allowList.versionFor i = c.route i
  clock : w.clock.now.IsClockTime

theorem Hosts.of_keeps {w w' : World} {c : Contract} (h : w.Hosts c)
    (hkeeps : w.Keeps w') : w'.Hosts c :=
  ⟨hkeeps.allowList ▸ h.route, hkeeps.clock ▸ h.clock⟩

variable {w : World} {txn : Option Txn} {p : Progress} {c : Contract}

theorem Mirrors.of_store {w' : World} (h : w.Mirrors txn p)
    (hstore : w'.backing.store = w.backing.store) : w'.Mirrors txn p :=
  ⟨hstore ▸ h.draft, hstore ▸ h.snapshot⟩

theorem Mirrors.closed (w : World) (p : Progress) :
    w.Mirrors none { p with draft := none } :=
  ⟨rfl, nofun⟩

/-- A transaction that has read some more has the same draft. -/
theorem Mirrors.of_view {t u : Txn} (h : w.Mirrors (some t) p)
    (hsnapshot : u.snapshot = t.snapshot) (hview : u.view = t.view) :
    w.Mirrors (some u) p := by
  refine ⟨h.draft.trans ?_, fun x hx => ?_⟩
  · rw [Option.map_some, Option.map_some, hview]
  · obtain rfl := Option.some.inj hx
    exact hsnapshot.trans (h.snapshot t rfl)

/-- A write of a transaction is one into the draft. -/
theorem Mirrors.write (h : w.Mirrors txn p) (change : Txn → Txn)
    (change' : Entries → Entries)
    (hsnapshot : ∀ t, (change t).snapshot = t.snapshot)
    (hview : ∀ t, (change t).view = change' t.view) :
    w.Mirrors (txn.map change) (p.write change') := by
  refine ⟨?_, fun u hu => ?_⟩
  · rw [Progress.write, h.draft]
    cases txn with
    | none => rfl
    | some t =>
        exact congrArg (fun after => some (Draft.mk w.backing.store.live after))
          (hview t).symm
  · obtain ⟨t, ht, rfl⟩ := Option.map_eq_some_iff.1 hu
    exact (hsnapshot t).trans (h.snapshot t ht)

-- ================================================== one question

/-- What comes of a question: an answer as a draft gives it, and the same
live entries, unless it asks for a commit that is granted. -/
structure Answered (w : World) (c : Contract) (p : Progress) (q : Question)
    (x : (World × Option Txn) × q.Answer) (p' : Progress) : Prop where
  answers : p.Answers c.route q x.2 p'
  mirrors : x.1.1.Mirrors x.1.2 p'
  live : x.1.1.backing.store.live = w.backing.store.live
      ∧ p'.commits = p.commits
    ∨ p'.commits = p.commits + 1
      ∧ c.commits p.readings ⟨w.backing.store.live, x.1.1.backing.store.live⟩

/-- A commit is refused, and the store stays as it is, or it is granted and
the live entries are those that the transaction saw. -/
theorem commit_alone (backing : ScriptedStore) (t : Txn) (now : Nat)
    (h : t.snapshot = backing.store.live) :
    (∃ code, (backing.commit t now).2 = .error code
        ∧ (backing.commit t now).1.store = backing.store)
      ∨ (backing.commit t now).2 = .ok ()
        ∧ (backing.commit t now).1.store.live = t.view := by
  cases hcommit : backing.commit t now with
  | mk next result =>
    cases result with
    | error code =>
        exact .inl ⟨code, rfl, ScriptedStore.store_commit_of_refused hcommit⟩
    | ok _ =>
        refine .inr ⟨rfl, ?_⟩
        unfold ScriptedStore.commit at hcommit
        simp only at hcommit
        split at hcommit
        · rename_i store hgrant
          obtain ⟨rfl, -⟩ := Prod.mk.inj hcommit
          have hlive : backing.store.commit t = .ok store := by
            cases hfailure : backing.faults.nextCommit.1 with
            | some code => rw [hfailure] at hgrant; cases hgrant
            | none =>
                rw [hfailure] at hgrant
                simp only [Option.elim_none, ScriptedStore.grant,
                  Txn.unlessTooOld] at hgrant
                split at hgrant
                · cases hgrant
                · exact hgrant
          rw [Txn.view, h]
          exact Store.live_commit hlive
        · cases (Prod.mk.inj hcommit).2

/-- Most questions leave the store as it is. -/
theorem Answered.of_store {q : Question} {x : (World × Option Txn) × q.Answer}
    {p' : Progress} (hanswers : p.Answers c.route q x.2 p')
    (hmirrors : w.Mirrors x.1.2 p') (hcommits : p'.commits = p.commits)
    (hstore : x.1.1.backing.store = w.backing.store) :
    w.Answered c p q x p' :=
  ⟨hanswers, hmirrors.of_store hstore,
    .inl ⟨congrArg Store.live hstore, hcommits⟩⟩

/-- What comes of a read: what the transaction reads, or a failure. The store
stays as it is. -/
inductive Reads (w : World) (txn : Option Txn) {β : Type}
    (read : Txn → β × Txn) :
    (World × Option Txn) × Except StoreCode β → Prop
  | failed (w' : World) (code : StoreCode) :
    w'.backing.store = w.backing.store →
    Reads w txn read ((w', txn), .error code)
  | read (w' : World) (t : Txn) : txn = some t →
    w'.backing.store = w.backing.store →
    Reads w txn read ((w', some (read t).2), .ok (read t).1)

theorem reads_get (w : World) (txn : Option Txn) (key : Bytes) :
    w.Reads txn (·.get key) (answerAlone (w, txn) (.get key)) := by
  have hlater : w.takeRead.passLatency.backing.store = w.backing.store := by
    rw [backing_passLatency, backing_takeRead]
  simp only [answerAlone]
  cases w.reads.head?.join with
  | some code => exact .failed _ code rfl
  | none =>
      cases txn with
      | none => exact .failed _ .other hlater
      | some t =>
          generalize w.takeRead.passLatency = v at hlater ⊢
          by_cases h : t.isTooOld v.backing.maxAge v.time
          · simp only [operate, ScriptedStore.get, Txn.unlessTooOld, h,
              if_true]
            exact .failed _ .tooOld hlater
          · simp only [operate, ScriptedStore.get, Txn.unlessTooOld, h,
              Bool.false_eq_true, if_false]
            exact .read _ t rfl hlater

theorem reads_scan (w : World) (txn : Option Txn) (stem : Bytes) :
    w.Reads txn (·.scan stem) (answerAlone (w, txn) (.scan stem)) := by
  have hlater : w.takeRead.passLatency.backing.store = w.backing.store := by
    rw [backing_passLatency, backing_takeRead]
  simp only [answerAlone]
  cases w.reads.head?.join with
  | some code => exact .failed _ code rfl
  | none =>
      cases txn with
      | none => exact .failed _ .other hlater
      | some t =>
          generalize w.takeRead.passLatency = v at hlater ⊢
          by_cases h : t.isTooOld v.backing.maxAge v.time
          · simp only [operate, ScriptedStore.scan, Txn.unlessTooOld, h,
              if_true]
            exact .failed _ .tooOld hlater
          · simp only [operate, ScriptedStore.scan, Txn.unlessTooOld, h,
              Bool.false_eq_true, if_false]
            exact .read _ t rfl hlater

/-- A transaction begins with the live entries, or not at all. -/
theorem answered_start (w : World) (txn : Option Txn) (p : Progress) :
    ∃ p', w.Answered c p .start (answerAlone (w, txn) .start) p' := by
  obtain ⟨w', hw⟩ := answerAlone_start w txn
  cases hstarts : w.backing.faults.starts with
  | nil =>
      rw [hstarts] at hw
      obtain ⟨hw, hbacking⟩ := hw
      rw [hw]
      refine ⟨_, .of_store (.inr ⟨w.backing.store.live, rfl, rfl⟩)
        ⟨rfl, fun t ht => ?_⟩ rfl (by rw [hbacking]; rfl)⟩
      obtain rfl := Option.some.inj ht
      rfl
  | cons code rest =>
      rw [hstarts] at hw
      obtain ⟨hw, hbacking⟩ := hw
      rw [hw]
      exact ⟨_, .of_store (.inl ⟨code, rfl, rfl⟩) (.closed w p) rfl
        (by rw [hbacking]; rfl)⟩

/-- A commit leaves the draft, or fails and leaves the store as it is. -/
theorem answered_commit (h : w.Mirrors txn p)
    (hcommit : ∀ d, p.draft = some d → c.commits p.readings d) :
    ∃ p', w.Answered c p .commit (answerAlone (w, txn) .commit) p' := by
  have hlater : w.passLatency.backing = w.backing := backing_passLatency w
  cases txn with
  | none =>
      exact ⟨_, .of_store (.inl ⟨.other, rfl, rfl⟩) (.closed w p) rfl
        (congrArg ScriptedStore.store hlater)⟩
  | some t =>
      have hanswer : answerAlone (w, some t) .commit
          = (({ w.passLatency with backing :=
              (w.backing.commit t w.passLatency.time).1 }, none),
            (w.backing.commit t w.passLatency.time).2) := by
        simp only [answerAlone, operate, hlater]
      rw [hanswer]
      rcases commit_alone w.backing t w.passLatency.time
          (h.snapshot t rfl) with ⟨code, hresult, hstore⟩ | ⟨hresult, hlive⟩
      · rw [hresult]
        exact ⟨_, .of_store (.inl ⟨code, rfl, rfl⟩) (.closed w p) rfl hstore⟩
      · rw [hresult]
        have hdraft : p.draft = some ⟨w.backing.store.live, t.view⟩ := h.draft
        refine ⟨_, ⟨.inr ⟨by rw [hdraft]; rfl, rfl, rfl⟩,
          .closed _ { p with commits := p.commits + 1 }, .inr ⟨rfl, ?_⟩⟩⟩
        rw [hlive]
        exact hcommit _ hdraft

/-- Whatever the clock shows, all other questions are answered as a draft
answers them. -/
theorem answers_of_ne_now (hroute : ∀ i, w.allowList.versionFor i = c.route i)
    (h : w.Mirrors txn p) {q : Question} (hq : q.IsPlain) (hnow : q ≠ .now)
    (hcommit : q = .commit → ∀ d, p.draft = some d → c.commits p.readings d) :
    ∃ p', w.Answered c p q (answerAlone (w, txn) q) p' := by
  cases q with
  | now => exact absurd rfl hnow
  | route i => exact ⟨p, .of_store ⟨hroute i, rfl⟩ h rfl rfl⟩
  | start => exact answered_start w txn p
  | get key =>
      have hreads := reads_get w txn key
      generalize answerAlone (w, txn) (.get key) = x at hreads
      cases hreads with
      | failed w' code hstore =>
          exact ⟨p, .of_store ⟨rfl, .inl ⟨code, rfl⟩⟩ h rfl hstore⟩
      | read w' t htxn hstore =>
          subst htxn
          exact ⟨p, .of_store
            ⟨rfl, .inr ⟨_, h.draft, congrArg Except.ok (t.get_fst key)⟩⟩
            (h.of_view rfl (t.view_get key)) rfl hstore⟩
  | scan stem =>
      have hreads := reads_scan w txn stem
      generalize answerAlone (w, txn) (.scan stem) = x at hreads
      cases hreads with
      | failed w' code hstore =>
          exact ⟨p, .of_store ⟨rfl, .inl ⟨code, rfl⟩⟩ h rfl hstore⟩
      | read w' t htxn hstore =>
          subst htxn
          exact ⟨p, .of_store ⟨rfl, .inr ⟨_, h.draft, rfl⟩⟩
            (h.of_view rfl (t.view_scan stem)) rfl hstore⟩
  | put key value =>
      have hwrite := h.write (·.put key value) (·.insert key value)
        (fun _ => rfl) (fun t => t.view_put key value)
      cases txn with
      | none => exact ⟨_, .of_store rfl hwrite rfl rfl⟩
      | some t => exact ⟨_, .of_store rfl hwrite rfl rfl⟩
  | remove key =>
      have hwrite := h.write (·.remove key) (·.erase key) (fun _ => rfl)
        (fun t => t.view_remove key)
      cases txn with
      | none => exact ⟨_, .of_store rfl hwrite rfl rfl⟩
      | some t => exact ⟨_, .of_store rfl hwrite rfl rfl⟩
  | commit => exact answered_commit h (hcommit rfl)
  | report event => exact ⟨p, .of_store rfl h rfl rfl⟩
  | jitter | chance | spread => exact ⟨p, .of_store rfl h rfl rfl⟩
  | pause ms =>
      simp only [answerAlone]
      split
      · exact ⟨p, .of_store rfl h rfl rfl⟩
      · exact ⟨p, .of_store rfl h rfl (by rw [backing_pass])⟩
  | replay => exact hq.elim

/-- A question is answered as a draft answers it. -/
theorem answers_alone (hhosts : w.Hosts c) (h : w.Mirrors txn p)
    {q : Question} (hq : q.IsPlain)
    (hcommit : q = .commit → ∀ d, p.draft = some d → c.commits p.readings d) :
    ∃ p', w.Answered c p q (answerAlone (w, txn) q) p' := by
  by_cases hnow : q = .now
  · subst hnow
    exact ⟨_, .of_store ⟨hhosts.clock, rfl⟩ ⟨h.draft, h.snapshot⟩ rfl rfl⟩
  · exact answers_of_ne_now hhosts.route h hq hnow hcommit

-- ================================================== scripts

variable {α : Type}

/-- A script that is safe on drafts is safe when it runs: it ends as it may,
and so do its commits. -/
theorem run_safe {ends : Progress → α → Prop} {s : Script α} :
    ∀ {w : World} {txn : Option Txn} {p : Progress} {first : Entries},
      s.Asks Question.IsPlain → Script.Safe c ends p s → w.Hosts c →
      w.Mirrors txn p → c.Leads p.commits first w.backing.store.live →
      ∃ p', ends p' (s.run answerAlone (w, txn)).2
        ∧ (s.run answerAlone (w, txn)).1.1.Mirrors
          (s.run answerAlone (w, txn)).1.2 p'
        ∧ c.Leads p'.commits first
          (s.run answerAlone (w, txn)).1.1.backing.store.live := by
  induction s with
  | done a => exact fun _ hsafe _ h hleads => ⟨_, hsafe, h, hleads⟩
  | ask q next ih =>
      intro w txn p first hasks hsafe hhosts h hleads
      obtain ⟨p', hanswered⟩ := answers_alone hhosts h hasks.1 hsafe.1
      rw [Program.run_ask]
      refine ih _ (hasks.2 _) (hsafe.2 _ p' hanswered.answers)
        (hhosts.of_keeps (keeps_answerAlone (w, txn) hasks.1))
        hanswered.mirrors ?_
      rcases hanswered.live with ⟨hlive, hcommits⟩ | ⟨hcommits, hallowed⟩
      · rw [hlive, hcommits]
        exact hleads
      · rw [hcommits]
        exact .commit p.readings hleads hallowed

end World

end MergeOnWrite
