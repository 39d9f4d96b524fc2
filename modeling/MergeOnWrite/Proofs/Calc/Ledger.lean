/-
The ledger of the executor agrees with its state.

The ledger of a run tells what every calculation came to, and which tasks
merged their marks. The invariant `Overview.Sound` ties it to the state: a
task is among those that merged exactly when its result is certain and
`Ok`; each bitmap is what it was, merged with the marks of the tasks that
merged into it; an error that a task ended with is the status of its token
or comes after it; and a token counts the accepted tasks that have not
finished.

# Main statements

- `ahead_next`: what was accepted, finished or noted is not taken back.
- `sound_next`: every change of an overview keeps the invariant.
-/
import MergeOnWrite.Proofs.Calc.Overview
import MergeOnWrite.Proofs.DeleteBitmap.Merge

namespace MergeOnWrite

/-- The count of a list of which one element was modified. -/
theorem countP_modify {α : Type} {p : α → Bool} {f : α → α} {a : α} :
    ∀ {l : List α} {i : Nat}, l[i]? = some a →
      (l.modify i f).countP p + (p a).toNat
        = l.countP p + (p (f a)).toNat := by
  intro l
  induction l with
  | nil => intro i h; cases h
  | cons b rest ih =>
      intro i h
      cases i with
      | zero =>
          obtain rfl := Option.some.inj h
          rw [List.modify_zero_cons, List.countP_cons, List.countP_cons]
          cases p b <;> cases p (f b) <;> simp
      | succ i =>
          have := ih (i := i) h
          rw [List.modify_succ_cons, List.countP_cons, List.countP_cons]
          omega

namespace Overview

variable {v v' : Overview} {id k : Nat} {c : Charge} {phase : Phase}

-- ================================================== what only grows

/-- What stays of an overview in whatever comes after it. -/
structure Ahead (v v' : Overview) : Prop where
  accounts : ∀ (k : Nat) (a : Account), v.accounts[k]? = some a →
    ∃ a', v'.accounts[k]? = some a' ∧ (a.status.isSome → a'.status.isSome)
  charges : ∀ (id : Nat) (c : Charge), v.charges[id]? = some c →
    ∃ c', v'.charges[id]? = some c' ∧ c'.token = c.token
      ∧ c'.subject = c.subject ∧ c'.destination = c.destination
      ∧ (c.phase.isAccepted → c'.phase.isAccepted)
      ∧ ∀ r, c.phase = .finished r → c'.phase = .finished r

theorem Ahead.refl (v : Overview) : v.Ahead v :=
  ⟨fun _ a ha => ⟨a, ha, fun h => h⟩,
    fun _ c hc => ⟨c, hc, rfl, rfl, rfl, fun h => h, fun _ h => h⟩⟩

theorem Ahead.trans {v₁ v₂ v₃ : Overview} (h₁ : v₁.Ahead v₂)
    (h₂ : v₂.Ahead v₃) : v₁.Ahead v₃ := by
  constructor
  · intro k a ha
    obtain ⟨a', ha', hstatus⟩ := h₁.accounts k a ha
    obtain ⟨a'', ha'', hstatus'⟩ := h₂.accounts k a' ha'
    exact ⟨a'', ha'', fun h => hstatus' (hstatus h)⟩
  · intro id c hc
    obtain ⟨c', hc', htoken, hsubject, hname, haccepted, hfinished⟩ :=
      h₁.charges id c hc
    obtain ⟨c'', hc'', htoken', hsubject', hname', haccepted', hfinished'⟩ :=
      h₂.charges id c' hc'
    exact ⟨c'', hc'', htoken'.trans htoken, hsubject'.trans hsubject,
      hname'.trans hname, fun h => haccepted' (haccepted h),
      fun r h => hfinished' r (hfinished r h)⟩

theorem charges_setPhase_self (hc : v.charges[id]? = some c) :
    (v.setPhase id phase).charges[id]? = some { c with phase } := by
  rw [setPhase, List.getElem?_modify_eq, hc]
  rfl

theorem charges_setPhase_of_ne {j : Nat} (h : j ≠ id) :
    (v.setPhase id phase).charges[j]? = v.charges[j]? :=
  List.getElem?_modify_ne _ _ (Ne.symm h)

theorem ahead_setPhase (hc : v.charges[id]? = some c)
    (haccepted : c.phase.isAccepted → phase.isAccepted)
    (hfinished : ∀ r, c.phase ≠ .finished r) :
    v.Ahead (v.setPhase id phase) := by
  refine ⟨fun _ a ha => ⟨a, ha, fun h => h⟩, fun j c' hc' => ?_⟩
  by_cases hj : j = id
  · subst hj
    obtain rfl := Option.some.inj (hc.symm.trans hc')
    exact ⟨_, charges_setPhase_self hc, rfl, rfl, rfl, haccepted,
      fun r hr => absurd hr (hfinished r)⟩
  · exact ⟨c', (charges_setPhase_of_ne hj).trans hc', rfl, rfl, rfl,
      fun h => h, fun _ h => h⟩

theorem accounts_modifyAccount {f : Account → Account} {a : Account}
    (ha : v.accounts[k]? = some a) (j : Nat) :
    (v.modifyAccount j f).accounts[k]? = some (if j = k then f a else a) := by
  rw [modifyAccount, List.getElem?_modify, ha]
  rfl

theorem ahead_modifyAccount {f : Account → Account}
    (hf : ∀ a, a.status.isSome → (f a).status.isSome) (k : Nat) :
    v.Ahead (v.modifyAccount k f) := by
  refine ⟨fun j a ha => ⟨_, accounts_modifyAccount ha k, fun h => ?_⟩,
    (Ahead.refl v).charges⟩
  split
  · exact hf a h
  · exact h

theorem isSome_note {a : Account} (result : Except CalcError Unit)
    (h : a.status.isSome) : (a.note result).status.isSome := by
  cases result with
  | ok _ => exact h
  | error error =>
      obtain ⟨status, hstatus⟩ := Option.isSome_iff_exists.1 h
      rw [Account.note, hstatus]
      rfl

/-- Nothing that was accepted, finished or noted is taken back. -/
theorem ahead_next (h : v.Next v') : v.Ahead v' := by
  cases h with
  | rest | closed => exact ⟨(Ahead.refl v).accounts, (Ahead.refl v).charges⟩
  | opened =>
      refine ⟨fun k a ha => ⟨a, ?_, fun h => h⟩, (Ahead.refl v).charges⟩
      rw [List.getElem?_append_left (List.getElem?_eq_some_iff.1 ha).1, ha]
  | offered =>
      refine ⟨(Ahead.refl v).accounts, fun id c hc =>
        ⟨c, ?_, rfl, rfl, rfl, fun h => h, fun _ h => h⟩⟩
      rw [List.getElem?_append_left (List.getElem?_eq_some_iff.1 hc).1, hc]
  | rejected hc hphase =>
      exact ahead_setPhase hc (by simp [hphase, Phase.isAccepted])
        (by simp [hphase])
  | calculated hc hphase | gaveUp hc hphase | failed hc hphase
  | merged hc hphase | delivered hc hphase =>
      exact ⟨(Ahead.refl v).accounts,
        (ahead_setPhase hc (by intro; rfl) (by simp [hphase])).charges⟩
  | noted hc hphase =>
      exact ⟨(ahead_modifyAccount (fun _ => isSome_note _) _).accounts,
        (ahead_setPhase hc (by intro; rfl) (by simp [hphase])).charges⟩
  | accepted hc hphase | finished hc hphase =>
      exact ⟨(ahead_modifyAccount (by intro _ h; exact h) _).accounts,
        (ahead_setPhase hc (by intro; rfl) (by simp [hphase])).charges⟩
  | cancelled k error => exact ahead_modifyAccount (fun _ => isSome_note _) k

-- ================================================== the invariant

/-- The marks that some tasks merged into a bitmap, latest first. -/
def mergedInto (v : Overview) (name : String) : List DeleteBitmap :=
  (v.ledger.merged.filter fun id =>
    v.charges[id]?.any (·.destination = name)).map v.ledger.marks

/-- How many tasks of a token are accepted and not finished. -/
def unfinished (v : Overview) (k : Nat) : Nat :=
  v.charges.countP fun c => c.token = k ∧ c.phase.isPending

/-- What the ledger, the outcomes and the tokens tell of a task. -/
structure Agrees (v : Overview) (id : Nat) (c : Charge) : Prop where
  account : c.phase.isAccepted → ∃ a, v.accounts[c.token]? = some a
  merged : id ∈ v.ledger.merged ↔ c.phase.result? = some (.ok ())
  computed : ∀ result, c.phase = .calculated result →
    v.ledger.computed.lookup id = some result
  marks : id ∈ v.ledger.merged →
    ∃ marks, v.ledger.computed.lookup id = some (.ok marks)
  outcome : v.outcomes.lookup id = c.phase.delivered?.map (⟨c.subject, ·⟩)
  status : ∀ error, c.phase.noted? = some (.error error) →
    ∃ a, v.accounts[c.token]? = some a ∧ a.status.isSome

/-- What holds of every run that began with some bitmaps. -/
structure Sound (start : SortedMap String DeleteBitmap) (v : Overview) :
    Prop where
  nodup : v.ledger.merged.Nodup
  known : ∀ id, v.charges[id]? = none →
    id ∉ v.ledger.merged ∧ v.outcomes.lookup id = none
  agrees : ∀ (id : Nat) (c : Charge), v.charges[id]? = some c → v.Agrees id c
  bitmap : ∀ name,
    v.bitmap name = ((start.get? name).getD ∅).mergeAll (v.mergedInto name)
  pending : ∀ (k : Nat) (a : Account), v.accounts[k]? = some a →
    a.pending = v.unfinished k

variable {start : SortedMap String DeleteBitmap}

-- ================================================== tasks

/-- What is told of a task stays while nothing new is told of it. -/
theorem Agrees.keep (h : v.Agrees id c) (hahead : v.Ahead v')
    (hmerged : id ∈ v'.ledger.merged ↔ id ∈ v.ledger.merged)
    (hcomputed : v'.ledger.computed.lookup id = v.ledger.computed.lookup id)
    (houtcomes : v'.outcomes.lookup id = v.outcomes.lookup id) :
    v'.Agrees id c where
  account haccepted := by
    obtain ⟨a, ha⟩ := h.account haccepted
    obtain ⟨a', ha', -⟩ := hahead.accounts _ a ha
    exact ⟨a', ha'⟩
  merged := hmerged.trans h.merged
  computed result hphase := hcomputed.trans (h.computed result hphase)
  marks hid := by
    rw [hcomputed]
    exact h.marks (hmerged.1 hid)
  outcome := houtcomes.trans h.outcome
  status error herror := by
    obtain ⟨a, ha, hstatus⟩ := h.status error herror
    obtain ⟨a', ha', hstatus'⟩ := hahead.accounts _ a ha
    exact ⟨a', ha', hstatus' hstatus⟩

theorem Agrees.at_phase (h : v.Agrees id c) (hphase : c.phase = phase) :
    v.Agrees id { c with phase } := by
  obtain ⟨token, subject, name, _⟩ := c
  obtain rfl := hphase
  exact h

theorem Agrees.unmerged (h : v.Agrees id c)
    (hresult : c.phase.result? ≠ some (.ok ())) : id ∉ v.ledger.merged :=
  mt h.merged.1 hresult

theorem lookup_cons_of_ne {β : Type} {j id : Nat} (h : j ≠ id) (b : β)
    (l : List (Nat × β)) : ((id, b) :: l).lookup j = l.lookup j := by
  rw [List.lookup_cons, beq_eq_false_iff_ne.2 h]

theorem lookup_cons_same {β : Type} (id : Nat) (b : β) (l : List (Nat × β)) :
    ((id, b) :: l).lookup id = some b := by
  rw [List.lookup_cons, beq_self_eq_true]

/-- When one task moves on, what is told of the others stays. -/
theorem agrees_setPhase (h : v.Sound start) (hahead : v.Ahead v')
    (hc : v.charges[id]? = some c)
    (hcharges : v'.charges = (v.setPhase id phase).charges)
    (hmerged : ∀ j ≠ id, j ∈ v'.ledger.merged ↔ j ∈ v.ledger.merged)
    (hcomputed : ∀ j ≠ id,
      v'.ledger.computed.lookup j = v.ledger.computed.lookup j)
    (houtcomes : ∀ j ≠ id, v'.outcomes.lookup j = v.outcomes.lookup j)
    (hself : v'.Agrees id { c with phase }) :
    ∀ (j : Nat) (c' : Charge), v'.charges[j]? = some c' → v'.Agrees j c' := by
  intro j c' hc'
  rw [hcharges] at hc'
  by_cases hj : j = id
  · subst hj
    rw [charges_setPhase_self hc] at hc'
    exact Option.some.inj hc' ▸ hself
  · rw [charges_setPhase_of_ne hj] at hc'
    exact (h.agrees j c' hc').keep hahead (hmerged j hj) (hcomputed j hj)
      (houtcomes j hj)

/-- A task that moves on without a word to the ledger or the outcomes. -/
theorem agrees_quietly (h : v.Sound start) (hahead : v.Ahead v')
    (hc : v.charges[id]? = some c)
    (hcharges : v'.charges = (v.setPhase id phase).charges)
    (hledger : v'.ledger = v.ledger) (houtcomes : v'.outcomes = v.outcomes)
    (hself : v'.Agrees id { c with phase }) :
    ∀ (j : Nat) (c' : Charge), v'.charges[j]? = some c' → v'.Agrees j c' :=
  agrees_setPhase h hahead hc hcharges (by simp [hledger]) (by simp [hledger])
    (by simp [houtcomes]) hself

theorem agrees_next (h : v.Sound start) (hnext : v.Next v') :
    ∀ (j : Nat) (c' : Charge), v'.charges[j]? = some c' → v'.Agrees j c' := by
  have hahead := ahead_next hnext
  cases hnext with
  | rest => exact h.agrees
  | opened | closed | cancelled =>
      exact fun j c hc => (h.agrees j c hc).keep hahead .rfl rfl rfl
  | offered k kind subject name =>
      intro j c' hc'
      by_cases hj : j < v.charges.length
      · rw [List.getElem?_append_left hj] at hc'
        exact (h.agrees j c' hc').keep hahead .rfl rfl rfl
      · have hnone := h.known j (List.getElem?_eq_none (Nat.not_lt.1 hj))
        rw [List.getElem?_append_right (Nat.not_lt.1 hj)] at hc'
        obtain rfl := List.mem_singleton.1 (List.mem_of_getElem? hc')
        exact ⟨nofun, iff_of_false hnone.1 nofun, nofun,
          fun hid => absurd hid hnone.1, hnone.2, nofun⟩
  | rejected hc hphase =>
      have hold := (h.agrees _ _ hc).at_phase hphase
      exact agrees_quietly h hahead hc rfl rfl rfl
        ⟨nofun, hold.merged, nofun, hold.marks, hold.outcome, nofun⟩
  | accepted hc hphase ha =>
      have hold := (h.agrees _ _ hc).at_phase hphase
      exact agrees_quietly h hahead hc rfl rfl rfl
        ⟨fun _ => ⟨_, accounts_modifyAccount ha _⟩, hold.merged, nofun,
          hold.marks, hold.outcome, nofun⟩
  | @calculated id c hc hphase result =>
      have hold := (h.agrees _ _ hc).at_phase hphase
      have hid := hold.unmerged nofun
      refine agrees_setPhase h hahead hc rfl (fun _ _ => .rfl)
        (fun j hj => lookup_cons_of_ne hj _ _) (fun _ _ => rfl)
        ⟨hold.account, hold.merged, ?_, fun hid' => absurd hid' hid,
          hold.outcome, nofun⟩
      rintro _ ⟨⟩
      exact lookup_cons_same id result _
  | gaveUp hc hphase error =>
      have hold := (h.agrees _ _ hc).at_phase hphase
      exact agrees_quietly h hahead hc rfl rfl rfl
        ⟨hold.account, iff_of_false (hold.unmerged nofun) nofun, nofun,
          hold.marks, hold.outcome, nofun⟩
  | failed hc hphase =>
      have hold := (h.agrees _ _ hc).at_phase hphase
      exact agrees_quietly h hahead hc rfl rfl rfl
        ⟨hold.account, iff_of_false (hold.unmerged nofun) nofun, nofun,
          hold.marks, hold.outcome, nofun⟩
  | @merged id c marks hc hphase =>
      have hold := (h.agrees _ _ hc).at_phase hphase
      exact agrees_setPhase h hahead hc rfl
        (fun j hj => by rw [List.mem_cons, or_iff_right hj]) (fun _ _ => rfl)
        (fun _ _ => rfl)
        ⟨hold.account, iff_of_true (List.mem_cons_self ..) rfl, nofun,
          fun _ => ⟨marks, hold.computed _ rfl⟩, hold.outcome, nofun⟩
  | @noted id c result hc hphase =>
      have hold := (h.agrees _ _ hc).at_phase hphase
      obtain ⟨a, ha⟩ := hold.account rfl
      have ha' := accounts_modifyAccount (f := (·.note result)) ha c.token
      rw [if_pos rfl] at ha'
      refine agrees_quietly h hahead hc rfl rfl rfl
        ⟨fun _ => ⟨_, ha'⟩, hold.merged, nofun, hold.marks, hold.outcome, ?_⟩
      rintro error ⟨⟩
      refine ⟨_, ha', ?_⟩
      cases hs : a.status <;> simp [Account.note, hs]
  | @delivered id c result hc hphase =>
      have hold := (h.agrees _ _ hc).at_phase hphase
      exact agrees_setPhase h hahead hc rfl (fun _ _ => .rfl) (fun _ _ => rfl)
        (fun j hj => lookup_cons_of_ne hj _ _)
        ⟨hold.account, hold.merged, nofun, hold.marks,
          lookup_cons_same id _ _, hold.status⟩
  | @finished id c result hc hphase =>
      have hold := ((h.agrees _ _ hc).at_phase hphase).keep hahead .rfl rfl rfl
      exact agrees_quietly h hahead hc rfl rfl rfl
        ⟨hold.account, hold.merged, nofun, hold.marks, hold.outcome,
          hold.status⟩

-- ================================================== bitmaps

/-- What was merged stays while neither the ledger tells otherwise nor a
task changes its destination. -/
theorem mergedInto_congr (hmerged : v'.ledger.merged = v.ledger.merged)
    (hkept : ∀ j ∈ v.ledger.merged, v'.ledger.marks j = v.ledger.marks j
      ∧ (v'.charges[j]?).map Charge.destination
        = (v.charges[j]?).map Charge.destination) (name : String) :
    v'.mergedInto name = v.mergedInto name := by
  rw [mergedInto, mergedInto, hmerged]
  have hfilter : v.ledger.merged.filter
        (fun id => v'.charges[id]?.any (·.destination = name))
      = v.ledger.merged.filter
        fun id => v.charges[id]?.any (·.destination = name) :=
    List.filter_congr fun j hj => by
      have := congrArg (Option.any (· = name)) (hkept j hj).2
      simpa only [Option.any_map] using this
  rw [hfilter]
  exact List.map_congr_left fun j hj =>
    (hkept j (List.mem_filter.1 hj).1).1

theorem destination_setPhase (id : Nat) (phase : Phase) (j : Nat) :
    ((v.setPhase id phase).charges[j]?).map Charge.destination
      = (v.charges[j]?).map Charge.destination := by
  rw [setPhase, List.getElem?_modify]
  cases v.charges[j]? with
  | none => rfl
  | some c => by_cases hj : id = j <;> simp [hj]

theorem mergedInto_setPhase
    (hcharges : v'.charges = (v.setPhase id phase).charges)
    (hledger : v'.ledger = v.ledger) (name : String) :
    v'.mergedInto name = v.mergedInto name := by
  refine mergedInto_congr ?_ (fun j _ => ⟨?_, ?_⟩) name
  · rw [hledger]
  · rw [hledger]
  · rw [hcharges, destination_setPhase]

/-- A task that merges its marks puts them before the others'. -/
theorem mergedInto_merged {marks : DeleteBitmap} (h : v.Sound start)
    (hc : v.charges[id]? = some c) (hphase : c.phase = .calculated (.ok marks))
    (hcharges : v'.charges = (v.setPhase id phase).charges)
    (hledger : v'.ledger
      = { v.ledger with merged := id :: v.ledger.merged }) (name : String) :
    v'.mergedInto name
      = if c.destination = name then marks :: v.mergedInto name
        else v.mergedInto name := by
  have hmarks : v.ledger.marks id = marks := by
    rw [MarkLedger.marks, (h.agrees id c hc).computed _ hphase]
  have hrest : (v.setPhase id phase).mergedInto name = v.mergedInto name :=
    mergedInto_setPhase rfl rfl name
  rw [mergedInto, hcharges, hledger, List.filter_cons,
    charges_setPhase_self hc, Option.any_some, ← hrest, mergedInto, ← hmarks]
  by_cases hname : c.destination = name
  · rw [if_pos hname, if_pos (decide_eq_true hname)]
    rfl
  · rw [if_neg hname, if_neg (by simp [hname])]
    rfl

theorem bitmap_next (h : v.Sound start) (hnext : v.Next v') (name : String) :
    v'.bitmap name = ((start.get? name).getD ∅).mergeAll
      (v'.mergedInto name) := by
  cases hnext with
  | rest | opened | closed | cancelled => exact h.bitmap name
  | offered k kind subject destination =>
      refine (h.bitmap name).trans (congrArg _ ?_)
      refine (mergedInto_congr ?_ (fun j hj => ⟨?_, ?_⟩) name).symm
      · rfl
      · rfl
      cases hc : v.charges[j]? with
      | none => exact absurd hj (h.known j hc).1
      | some c =>
          rw [List.getElem?_append_left (List.getElem?_eq_some_iff.1 hc).1, hc]
  | rejected | accepted | gaveUp | failed | noted | delivered | finished =>
      refine (h.bitmap name).trans (congrArg _ ?_)
      exact (mergedInto_setPhase rfl rfl name).symm
  | @calculated id c hc hphase result =>
      have hid := (h.agrees id c hc).unmerged (by rw [hphase]; nofun)
      refine (h.bitmap name).trans (congrArg _ ?_)
      refine (mergedInto_congr ?_ (fun j hj => ⟨?_, ?_⟩) name).symm
      · rfl
      · rw [MarkLedger.marks, lookup_cons_of_ne
          fun he : j = id => hid (he ▸ hj)]
        rfl
      · exact destination_setPhase _ _ j
  | @merged id c marks hc hphase =>
      refine Eq.trans ?_ (congrArg _
        (mergedInto_merged h hc hphase (by rfl) (by rfl) name).symm)
      show ((v.bitmaps.insert c.destination _).get? name).getD ∅ = _
      by_cases hname : c.destination = name
      · subst hname
        rw [SortedMap.get?_insert_self, if_pos rfl, Option.getD_some,
          h.bitmap c.destination, ← DeleteBitmap.mergeAll_merge]
        rfl
      · rw [SortedMap.get?_insert_of_ne _ _ (Ne.symm hname), if_neg hname]
        exact h.bitmap name

/-- The marks that a task merged are in its bitmap. -/
theorem Sound.isPartOf {marks : DeleteBitmap} (h : v.Sound start)
    (hc : v.charges[id]? = some c) (hid : id ∈ v.ledger.merged)
    (hmarks : v.ledger.computed.lookup id = some (.ok marks)) :
    marks.IsPartOf (v.bitmap c.destination) := by
  rw [h.bitmap]
  refine DeleteBitmap.isPartOf_mergeAll (List.mem_map.2 ⟨id, ?_, ?_⟩) _
  · exact List.mem_filter.2 ⟨hid, by rw [hc]; exact decide_eq_true rfl⟩
  · rw [MarkLedger.marks, hmarks]

-- ================================================== counts

theorem unfinished_setPhase (hc : v.charges[id]? = some c) (phase : Phase)
    (k : Nat) :
    (v.setPhase id phase).unfinished k
        + (decide (c.token = k ∧ c.phase.isPending)).toNat
      = v.unfinished k + (decide (c.token = k ∧ phase.isPending)).toNat :=
  countP_modify (p := fun c : Charge => c.token = k ∧ c.phase.isPending)
    (f := fun c : Charge => { c with phase }) hc

theorem unfinished_setPhase_of_eq (hc : v.charges[id]? = some c)
    (hphase : phase.isPending = c.phase.isPending) (k : Nat) :
    (v.setPhase id phase).unfinished k = v.unfinished k := by
  have := unfinished_setPhase hc phase k
  rw [hphase] at this
  omega

theorem of_accounts_modifyAccount {f : Account → Account} {a : Account}
    {j : Nat} (h : (v.modifyAccount j f).accounts[k]? = some a) :
    ∃ a', v.accounts[k]? = some a' ∧ a = if j = k then f a' else a' := by
  rw [modifyAccount, List.getElem?_modify] at h
  obtain ⟨a', ha', rfl⟩ := Option.map_eq_some_iff.1 h
  exact ⟨a', ha', rfl⟩

theorem pending_note (a : Account) (result : Except CalcError Unit) :
    (a.note result).pending = a.pending := by
  cases result <;> rfl

theorem isAccepted_of_isPending (h : phase.isPending) : phase.isAccepted := by
  cases phase <;> first | rfl | cases h

/-- A token that is not open yet has accepted nothing. -/
theorem unfinished_eq_zero (h : v.Sound start)
    (hk : v.accounts.length ≤ k) : v.unfinished k = 0 := by
  refine List.countP_eq_zero.2 fun c hc hp => ?_
  obtain ⟨rfl, hpending⟩ := of_decide_eq_true hp
  obtain ⟨id, hid⟩ := List.getElem?_of_mem hc
  obtain ⟨a, ha⟩ :=
    (h.agrees id c hid).account (isAccepted_of_isPending hpending)
  have := (List.getElem?_eq_some_iff.1 ha).1
  omega

theorem pending_next (h : v.Sound start) (hnext : v.Next v') :
    ∀ (k : Nat) (a : Account), v'.accounts[k]? = some a →
      a.pending = v'.unfinished k := by
  intro k a ha
  cases hnext with
  | rest | closed => exact h.pending k a ha
  | opened =>
      by_cases hk : k < v.accounts.length
      · rw [List.getElem?_append_left hk] at ha
        exact h.pending k a ha
      · rw [List.getElem?_append_right (Nat.not_lt.1 hk)] at ha
        obtain rfl := List.mem_singleton.1 (List.mem_of_getElem? ha)
        exact (unfinished_eq_zero h (Nat.not_lt.1 hk)).symm
  | offered token kind subject name =>
      refine (h.pending k a ha).trans ?_
      simp [unfinished, List.countP_append, Phase.isPending]
  | rejected hc hphase | calculated hc hphase | gaveUp hc hphase
  | failed hc hphase | merged hc hphase | delivered hc hphase =>
      exact (h.pending k a ha).trans
        (unfinished_setPhase_of_eq hc (by rw [hphase]; rfl) k).symm
  | @noted id c result hc hphase =>
      obtain ⟨a', ha', rfl⟩ := of_accounts_modifyAccount ha
      have hsame : (v.setPhase id (.noted result)).unfinished k
          = v.unfinished k :=
        unfinished_setPhase_of_eq hc (by rw [hphase]; rfl) k
      refine Eq.trans ?_ ((h.pending k a' ha').trans hsame.symm)
      split
      · exact pending_note a' result
      · rfl
  | @accepted id c _ hc hphase =>
      obtain ⟨a', ha', rfl⟩ := of_accounts_modifyAccount ha
      have hcount := unfinished_setPhase hc .running k
      rw [hphase, ← h.pending k a' ha'] at hcount
      show _ = (v.setPhase id .running).unfinished k
      by_cases hk : c.token = k
      · simp [hk, Phase.isPending] at hcount ⊢
        omega
      · simp [hk] at hcount ⊢
        omega
  | @finished id c result hc hphase =>
      obtain ⟨a', ha', rfl⟩ := of_accounts_modifyAccount ha
      have hcount := unfinished_setPhase hc (.finished result) k
      rw [hphase, ← h.pending k a' ha'] at hcount
      show _ = (v.setPhase id (.finished result)).unfinished k
      by_cases hk : c.token = k
      · simp [hk, Phase.isPending] at hcount ⊢
        omega
      · simp [hk] at hcount ⊢
        omega
  | cancelled token error =>
      obtain ⟨a', ha', rfl⟩ := of_accounts_modifyAccount ha
      refine Eq.trans ?_ (h.pending k a' ha')
      split
      · exact pending_note a' (.error error)
      · rfl

-- ================================================== all changes

theorem charges_setPhase_eq_none {j : Nat} :
    (v.setPhase id phase).charges[j]? = none ↔ v.charges[j]? = none := by
  rw [setPhase, List.getElem?_eq_none_iff, List.getElem?_eq_none_iff,
    List.length_modify]

theorem known_next (h : v.Sound start) (hnext : v.Next v') :
    ∀ id, v'.charges[id]? = none →
      id ∉ v'.ledger.merged ∧ v'.outcomes.lookup id = none := by
  intro j hj
  have hne : ∀ {id : Nat} {c : Charge}, v.charges[id]? = some c →
      v.charges[j]? = none → j ≠ id := by
    rintro id c hc hnone rfl
    cases hc.symm.trans hnone
  cases hnext with
  | rest | opened | closed | cancelled => exact h.known j hj
  | offered =>
      rw [List.getElem?_eq_none_iff, List.length_append] at hj
      exact h.known j (List.getElem?_eq_none (by omega))
  | rejected | accepted | calculated | gaveUp | failed | noted | finished =>
      exact h.known j (charges_setPhase_eq_none.1 hj)
  | merged hc =>
      have hj := charges_setPhase_eq_none.1 hj
      obtain ⟨hmerged, houtcome⟩ := h.known j hj
      exact ⟨fun hm => (List.mem_cons.1 hm).elim (hne hc hj) hmerged, houtcome⟩
  | delivered hc =>
      have hj := charges_setPhase_eq_none.1 hj
      obtain ⟨hmerged, houtcome⟩ := h.known j hj
      exact ⟨hmerged, (lookup_cons_of_ne (hne hc hj) _ _).trans houtcome⟩

theorem nodup_next (h : v.Sound start) (hnext : v.Next v') :
    v'.ledger.merged.Nodup := by
  cases hnext with
  | @merged id c marks hc hphase =>
      have hid := (h.agrees id c hc).unmerged (by rw [hphase]; nofun)
      exact List.nodup_cons.2 ⟨hid, h.nodup⟩
  | _ => exact h.nodup

/-- Every change of an overview keeps the invariant. -/
theorem sound_next (h : v.Sound start) (hnext : v.Next v') :
    v'.Sound start :=
  ⟨nodup_next h hnext, known_next h hnext, agrees_next h hnext,
    bitmap_next h hnext, pending_next h hnext⟩

end Overview

end MergeOnWrite
