/-
Failures of the store, and what becomes of an attempt that meets one.

A calm service is disturbed by nothing but the failures that its store has
been told to make of begins and commits. An attempt at a request runs there
in step with its twin where nothing fails: both transactions begin on the
same entries and are answered the same. They part only where a failure ends
the attempt, and it does so before the attempt has changed anything.

# Main statements

- `answer_twins`: what a question comes to where the store may fail, and
  where it does not.
- `run_twins`: an attempt that may meet failures ends like its twin, or
  with a failure and nothing done.
-/
import MergeOnWrite.Proofs.Simulation.Lone

namespace MergeOnWrite

-- ================================================== events

namespace StoreEvent

/-- The failure that an event tells of, if any. -/
def failure? : StoreEvent → Option StoreCode
  | .start (.error code) | .commit (.error code) => some code
  | _ => none

def isStart : StoreEvent → Bool
  | .start _ => true
  | _ => false

end StoreEvent

/-- The codes of the failures to come. -/
def Faults.codes (faults : Faults) : List StoreCode :=
  faults.starts ++ faults.commits ++ faults.always.toList

/-- True of the events, latest first, between two states of a store. -/
structure ScriptedStore.Logs (s s' : ScriptedStore)
    (events : List StoreEvent) : Prop where
  log : s'.log = events ++ s.log
  codes : s'.faults.codes ⊆ s.faults.codes

namespace ScriptedStore.Logs

variable {s₁ s₂ s₃ : ScriptedStore} {earlier later : List StoreEvent}

theorem refl (s : ScriptedStore) : s.Logs s [] := ⟨rfl, fun _ => id⟩

theorem trans (h₁ : s₁.Logs s₂ earlier) (h₂ : s₂.Logs s₃ later) :
    s₁.Logs s₃ (later ++ earlier) :=
  ⟨by rw [h₂.log, h₁.log, List.append_assoc],
    fun _ hcode => h₁.codes (h₂.codes hcode)⟩

theorem note (s : ScriptedStore) (event : StoreEvent) :
    s.Logs (s.note event) [event] :=
  ⟨rfl, fun _ => id⟩

end ScriptedStore.Logs

-- ================================================== twins

namespace World

/-- True of surroundings where nothing goes wrong but what the store has
been told to fail. -/
structure IsCalm (w : World) : Prop where
  lone : w.IsLone
  reads : w.reads = []
  maxAge : w.backing.maxAge = none

theorem IsCalm.of_keeps {w w' : World} (h : w.IsCalm) (hkeeps : w.Keeps w') :
    w'.IsCalm :=
  ⟨hkeeps.lone h.lone, hkeeps.reads h.reads, hkeeps.maxAge.trans h.maxAge⟩

/-- The same surroundings, with no failures to come. -/
def faultless (w : World) : World := { w with backing.faults := {} }

/-- True of calm surroundings and their like where nothing fails. -/
structure Twins (w v : World) : Prop where
  calm : w.IsCalm
  calm' : v.IsCalm
  clock : w.clock = v.clock
  allowList : w.allowList = v.allowList
  store : w.backing.store = v.backing.store
  faultless : v.backing.faults = {}

theorem twins_faultless {w : World} (h : w.IsCalm) : w.Twins w.faultless :=
  ⟨h, ⟨⟨h.lone.ready, h.lone.waits, h.lone.givenWay, h.lone.afterStart,
    h.lone.beforeCommit⟩, h.reads, h.maxAge⟩, rfl, rfl, rfl, rfl⟩

theorem Twins.of_keeps {w w' v v' : World} (h : w.Twins v)
    (hw : w.Keeps w') (hv : v.Keeps v')
    (hstore : w'.backing.store = v'.backing.store)
    (hfaults : v'.backing.faults = {}) : w'.Twins v' :=
  ⟨h.calm.of_keeps hw, h.calm'.of_keeps hv,
    hw.clock.trans (h.clock.trans hv.clock.symm),
    hw.allowList.trans (h.allowList.trans hv.allowList.symm), hstore, hfaults⟩

/-- What holds of the transactions of twins in a phase: while they are open,
they differ in the time of their begin at most, and nothing was committed
since. -/
def Abreast (store : Store) : TxnPhase → Option Txn → Option Txn → Prop
  | .within, txn, txn' => ∃ t time, txn = some t
    ∧ txn' = some { t with started := time } ∧ t.version = store.version
  | _, _, _ => True

end World

namespace TxnPhase

/-- The number of begins that may come from a phase on. -/
def startsLeft : TxnPhase → Nat
  | .before => 1
  | _ => 0

/-- The number of commits that may be granted from a phase on. -/
def commitsLeft : TxnPhase → Nat
  | .after => 0
  | _ => 1

theorem commitsLeft_of_ne {a : TxnPhase} (h : a ≠ .after) :
    a.commitsLeft = 1 := by
  cases a with
  | after => exact absurd rfl h
  | before | within => rfl

end TxnPhase

namespace World

-- ================================================== one question

/-- What comes of a question asked of twins, if no failure meets it: the
same answer, and twins again. -/
structure Alike (w : World) (a b : TxnPhase) (q : Question)
    (x y : (World × Option Txn) × q.Answer) (events : List StoreEvent) :
    Prop where
  answer : x.2 = y.2
  answered : q.refusal? x.2 = none
  store : x.1.1.backing.store = y.1.1.backing.store
  faultless : y.1.1.backing.faults = {}
  kept : b ≠ .after → x.1.1.backing.store = w.backing.store
  abreast : Abreast x.1.1.backing.store b x.1.2 y.1.2
  starts : events.countP StoreEvent.isStart + b.startsLeft ≤ a.startsLeft
  commits :
    events.countP StoreEvent.isGrantedCommit + b.commitsLeft = a.commitsLeft

/-- What comes of a question that a failure meets: the failure, and nothing
else. -/
structure Fails (w : World) (a : TxnPhase) (q : Question)
    (x : (World × Option Txn) × q.Answer) (events : List StoreEvent)
    (code : StoreCode) : Prop where
  refusal : q.refusal? x.2 = some code
  store : x.1.1.backing.store = w.backing.store
  last : events.head?.bind StoreEvent.failure? = some code
  scripted : code ∈ w.backing.faults.codes
  early : a ≠ .after
  starts : events.countP StoreEvent.isStart ≤ a.startsLeft
  commits : events.countP StoreEvent.isGrantedCommit = 0

/-- What comes of a question where the store may fail, beside what comes of
it where it does not: the same, or a failure and nothing else. -/
def Beside (w : World) (a b : TxnPhase) (q : Question)
    (x y : (World × Option Txn) × q.Answer) : Prop :=
  ∃ events, w.backing.Logs x.1.1.backing events
    ∧ (w.Alike a b q x y events ∨ ∃ code, w.Fails a q x events code)

variable {w v : World} {txn txn' : Option Txn} {t : Txn}

/-- In calm surroundings a read is answered from its transaction. -/
theorem answerAlone_get (h : w.IsCalm) (t : Txn) (key : Bytes) :
    ∃ w', answerAlone (w, some t) (.get key)
        = ((w', some (t.get key).2), .ok (t.get key).1)
      ∧ w'.backing = w.backing.note (.get key) := by
  refine ⟨{ w.takeRead.passLatency with
    backing := w.takeRead.passLatency.backing.note (.get key) }, ?_, ?_⟩
  · simp [answerAlone, h.reads, operate, ScriptedStore.get, Txn.unlessTooOld,
      Txn.isTooOld, h.maxAge]
  · rw [backing_passLatency, backing_takeRead]

theorem answerAlone_scan (h : w.IsCalm) (t : Txn) (stem : Bytes) :
    ∃ w', answerAlone (w, some t) (.scan stem)
        = ((w', some (t.scan stem).2), .ok (t.scan stem).1)
      ∧ w'.backing = w.backing.note (.scan stem) := by
  refine ⟨{ w.takeRead.passLatency with
    backing := w.takeRead.passLatency.backing.note (.scan stem) }, ?_, ?_⟩
  · simp [answerAlone, h.reads, operate, ScriptedStore.scan, Txn.unlessTooOld,
      Txn.isTooOld, h.maxAge]
  · rw [backing_passLatency, backing_takeRead]

/-- Nothing stands in the way of a commit if nothing was committed since the
begin. -/
theorem commit_of_version {store : Store} (h : t.version = store.version) :
    ∃ next, store.commit t = .ok next := by
  have hsince : store.since t.version = [] := by
    rw [Store.since, h, Store.version, Nat.sub_self, List.take_zero]
  unfold Store.commit
  rw [hsince, List.any_nil, if_neg nofun]
  split
  · exact ⟨store, rfl⟩
  · exact ⟨_, rfl⟩

/-- In calm surroundings a commit is refused if and only if a failure is
due. -/
theorem answerAlone_commit (h : w.IsCalm) {next : Store}
    (hcommit : w.backing.store.commit t = .ok next) :
    ∃ w', match w.backing.faults.nextCommit with
    | (none, faults) => answerAlone (w, some t) .commit = ((w', none), .ok ())
      ∧ w'.backing = { w.backing with faults, store := next }.note
        (.commit (.ok ()))
    | (some code, faults) =>
      answerAlone (w, some t) .commit = ((w', none), .error code)
      ∧ w'.backing = { w.backing with faults }.note
        (.commit (.error code)) := by
  cases hfaults : w.backing.faults.nextCommit with
  | mk failure faults =>
    cases failure with
    | none =>
        let backing := { w.backing with faults, store := next }
        refine ⟨{ w.passLatency with
          backing := backing.note (.commit (.ok ())) }, ?_, rfl⟩
        simp [answerAlone, operate, ScriptedStore.commit, hfaults,
          ScriptedStore.grant, Txn.unlessTooOld, Txn.isTooOld, h.maxAge,
          hcommit, backing]
    | some code =>
        let backing := { w.backing with faults }
        refine ⟨{ w.passLatency with
          backing := backing.note (.commit (.error code)) }, ?_, rfl⟩
        simp [answerAlone, operate, ScriptedStore.commit, hfaults, backing]

/-- The codes of the failures of commits come from those to come. -/
theorem codes_nextCommit (faults : Faults) :
    faults.nextCommit.2.codes ⊆ faults.codes
      ∧ ∀ code, faults.nextCommit.1 = some code → code ∈ faults.codes := by
  obtain ⟨starts, commits, always⟩ := faults
  cases commits with
  | nil =>
      refine ⟨fun _ => id, fun code hcode => ?_⟩
      obtain rfl : always = some code := hcode
      simp [Faults.codes]
  | cons c rest =>
      refine ⟨fun code hcode => ?_, fun code hcode => ?_⟩
      · simp only [Faults.codes, Faults.nextCommit, List.mem_append,
          List.mem_cons] at hcode ⊢
        rcases hcode with (hstart | hrest) | halways
        · exact .inl (.inl hstart)
        · exact .inl (.inr (.inr hrest))
        · exact .inr halways
      · obtain rfl : c = code := Option.some.inj hcode
        simp [Faults.codes]

/-- An operation that nobody refuses is answered the same to both. -/
theorem beside_of_note {a b : TxnPhase} {q : Question}
    {x y : (World × Option Txn) × q.Answer} {event : StoreEvent}
    (h : w.Twins v) (hx : x.1.1.backing = w.backing.note event)
    (hy : y.1.1.backing = v.backing.note event) (hanswer : x.2 = y.2)
    (hanswered : q.refusal? x.2 = none)
    (habreast : Abreast w.backing.store b x.1.2 y.1.2)
    (hstarts : [event].countP StoreEvent.isStart + b.startsLeft
      ≤ a.startsLeft)
    (hcommits : [event].countP StoreEvent.isGrantedCommit + b.commitsLeft
      = a.commitsLeft) :
    w.Beside a b q x y := by
  refine ⟨[event], hx ▸ .note .., .inl ⟨hanswer, hanswered, ?_, ?_, fun _ => ?_,
    ?_, hstarts, hcommits⟩⟩
  · rw [hx, hy]
    exact h.store
  · rw [hy]
    exact h.faultless
  · rw [hx]
    rfl
  · rw [hx]
    exact habreast

/-- A begin meets a failure, or opens the same transaction for both. -/
theorem beside_start (h : w.Twins v) (txn txn' : Option Txn) :
    w.Beside .before .within .start (answerAlone (w, txn) .start)
      (answerAlone (v, txn') .start) := by
  obtain ⟨w', hw⟩ := answerAlone_start w txn
  obtain ⟨v', hv⟩ := answerAlone_start v txn'
  rw [h.faultless] at hv
  obtain ⟨hv, hbacking'⟩ := hv
  cases hstarts : w.backing.faults.starts with
  | nil =>
      rw [hstarts] at hw
      obtain ⟨hw, hbacking⟩ := hw
      rw [hw, hv]
      exact beside_of_note h hbacking hbacking' rfl rfl
        ⟨_, v.time, rfl, by rw [← h.store]; rfl, rfl⟩ (Nat.le_refl _) rfl
  | cons code rest =>
      rw [hstarts] at hw
      obtain ⟨hw, hbacking⟩ := hw
      rw [hw]
      refine ⟨[.start (.error code)], ⟨?_, ?_⟩, .inr ⟨code, rfl, ?_, rfl,
        ?_, by decide, Nat.le_refl _, rfl⟩⟩
      · rw [hbacking]
        rfl
      · rw [hbacking]
        simp [Faults.codes, hstarts, ScriptedStore.note]
      · rw [hbacking]
        rfl
      · simp [Faults.codes, hstarts]

/-- A commit meets a failure, or leaves the same to both. -/
theorem beside_commit (h : w.Twins v)
    (htxn : Abreast w.backing.store .within txn txn') :
    w.Beside .within .after .commit (answerAlone (w, txn) .commit)
      (answerAlone (v, txn') .commit) := by
  obtain ⟨t, time, rfl, rfl, hversion⟩ := htxn
  obtain ⟨next, hcommit⟩ := commit_of_version hversion
  obtain ⟨w', hw⟩ := answerAlone_commit h.calm hcommit
  have hcommit' : v.backing.store.commit { t with started := time }
      = .ok next := by
    rw [← h.store]
    exact hcommit
  obtain ⟨v', hv⟩ := answerAlone_commit h.calm' hcommit'
  rw [h.faultless] at hv
  obtain ⟨hv, hbacking'⟩ := hv
  have hcodes := codes_nextCommit w.backing.faults
  cases hfaults : w.backing.faults.nextCommit with
  | mk failure faults =>
    rw [hfaults] at hw hcodes
    cases failure with
    | none =>
        obtain ⟨hw, hbacking⟩ := hw
        rw [hw, hv]
        refine ⟨[.commit (.ok ())], ⟨by rw [hbacking]; rfl, ?_⟩, .inl ⟨rfl,
          rfl, ?_, ?_, fun hb => absurd rfl hb, trivial, Nat.le_refl _,
          rfl⟩⟩
        · rw [hbacking]
          exact hcodes.1
        · rw [hbacking, hbacking']
          rfl
        · rw [hbacking']
          rfl
    | some code =>
        obtain ⟨hw, hbacking⟩ := hw
        rw [hw]
        refine ⟨[.commit (.error code)], ⟨by rw [hbacking]; rfl, ?_⟩,
          .inr ⟨code, rfl, ?_, rfl, hcodes.2 code rfl, by decide,
            Nat.le_refl _, rfl⟩⟩
        · rw [hbacking]
          exact hcodes.1
        · rw [hbacking]
          rfl

/-- What a question comes to where the store may fail, and where it does
not: to the same, or to a failure and nothing else. -/
theorem answer_twins (h : w.Twins v) {mayWrite : Bool} {a b : TxnPhase}
    {q : Question} (hq : a.next? mayWrite q = some b)
    (htxn : Abreast w.backing.store a txn txn') :
    w.Beside a b q (answerAlone (w, txn) q) (answerAlone (v, txn') q) := by
  cases q with
  | now | route | report =>
      obtain rfl : a = b := by cases a <;> exact Option.some.inj hq
      refine ⟨[], .refl _, .inl ⟨?_, rfl, h.store, h.faultless, fun _ => rfl,
        htxn, Nat.le_of_eq (Nat.zero_add _), Nat.zero_add _⟩⟩
      simp only [answerAlone, operate, h.clock, h.allowList]
  | start =>
      obtain ⟨rfl, rfl⟩ : a = .before ∧ b = .within := by
        cases a <;> cases hq
        exact ⟨rfl, rfl⟩
      exact beside_start h txn txn'
  | get key =>
      obtain ⟨rfl, rfl⟩ : a = .within ∧ b = .within := by
        cases a <;> cases hq
        exact ⟨rfl, rfl⟩
      obtain ⟨t, time, rfl, rfl, hversion⟩ := htxn
      obtain ⟨w', hw, hbacking⟩ := answerAlone_get h.calm t key
      obtain ⟨v', hv, hbacking'⟩ :=
        answerAlone_get h.calm' { t with started := time } key
      rw [hw, hv]
      exact beside_of_note h hbacking hbacking' rfl rfl
        ⟨_, time, rfl, rfl, hversion⟩ (Nat.le_refl _) rfl
  | scan stem =>
      obtain ⟨rfl, rfl⟩ : a = .within ∧ b = .within := by
        cases a <;> cases hq
        exact ⟨rfl, rfl⟩
      obtain ⟨t, time, rfl, rfl, hversion⟩ := htxn
      obtain ⟨w', hw, hbacking⟩ := answerAlone_scan h.calm t stem
      obtain ⟨v', hv, hbacking'⟩ :=
        answerAlone_scan h.calm' { t with started := time } stem
      rw [hw, hv]
      exact beside_of_note h hbacking hbacking' rfl rfl
        ⟨_, time, rfl, rfl, hversion⟩ (Nat.le_refl _) rfl
  | put | remove =>
      obtain ⟨rfl, rfl⟩ : a = .within ∧ b = .within := by
        cases mayWrite <;> cases a <;> cases hq
        exact ⟨rfl, rfl⟩
      obtain ⟨t, time, rfl, rfl, hversion⟩ := htxn
      exact beside_of_note h rfl rfl rfl rfl ⟨_, time, rfl, rfl, hversion⟩
        (Nat.le_refl _) rfl
  | commit =>
      obtain ⟨rfl, rfl⟩ : a = .within ∧ b = .after := by
        cases mayWrite <;> cases a <;> cases hq
        exact ⟨rfl, rfl⟩
      exact beside_commit h htxn
  | jitter | pause | chance | spread | replay => cases a <;> cases hq

-- ================================================== attempts

variable {α : Type}

/-- What comes of a run of a script that begins in a phase, and whose twin
ends in some way. -/
inductive Ends (w : World) (ends : TxnPhase → α → Prop)
    (fails : StoreCode → α → Prop) (a : TxnPhase) (events : List StoreEvent)
    (x y : (World × Option Txn) × α) : Prop
  | alike (b : TxnPhase) : x.2 = y.2 →
    x.1.1.backing.store = y.1.1.backing.store → ends b x.2 →
    events.countP StoreEvent.isGrantedCommit ≤ a.commitsLeft →
    Ends w ends fails a events x y
  | failed (code : StoreCode) : a ≠ .after → fails code x.2 →
    x.1.1.backing.store = w.backing.store →
    events.head?.bind StoreEvent.failure? = some code →
    code ∈ w.backing.faults.codes →
    events.countP StoreEvent.isGrantedCommit = 0 →
    Ends w ends fails a events x y

/-- What comes of a run whose first question is answered alike. -/
theorem Ends.after {mayWrite : Bool} {ends : TxnPhase → α → Prop}
    {fails : StoreCode → α → Prop} {q : Question} {a b : TxnPhase}
    {earlier later : List StoreEvent}
    {x y : (World × Option Txn) × q.Answer}
    {x' y' : (World × Option Txn) × α}
    (h : x.1.1.Ends ends fails b later x' y')
    (hq : a.next? mayWrite q = some b) (hlike : w.Alike a b q x y earlier)
    (hlogs : w.backing.Logs x.1.1.backing earlier) :
    w.Ends ends fails a (later ++ earlier) x' y' := by
  have hcommits := hlike.commits
  cases h with
  | alike c hresult hstore hend hle =>
      refine .alike c hresult hstore hend ?_
      rw [List.countP_append]
      omega
  | failed code hearly hfail hstore hlast hcode hzero =>
      have ha : a ≠ .after := by
        rintro rfl
        exact hearly (TxnPhase.eq_after_of_next? hq)
      refine .failed code ha hfail (hstore.trans (hlike.kept hearly)) ?_
        (hlogs.codes hcode) ?_
      · cases later with
        | nil => cases hlast
        | cons event rest => exact hlast
      · rw [TxnPhase.commitsLeft_of_ne ha,
          TxnPhase.commitsLeft_of_ne hearly] at hcommits
        rw [List.countP_append]
        omega

/-- A script that may meet failures ends like its twin that meets none, or
with a failure and nothing done. -/
theorem run_twins {mayWrite : Bool} {ends : TxnPhase → α → Prop}
    {fails : StoreCode → α → Prop} {s : Script α} :
    ∀ {a : TxnPhase} {w v : World} (txn txn' : Option Txn),
      Script.Follows mayWrite ends fails a s → w.Twins v →
      Abreast w.backing.store a txn txn' →
      ∃ events,
        w.backing.Logs (s.run answerAlone (w, txn)).1.1.backing events
          ∧ events.countP StoreEvent.isStart ≤ a.startsLeft
          ∧ w.Ends ends fails a events (s.run answerAlone (w, txn))
            (s.run answerAlone (v, txn')) := by
  induction s with
  | done r =>
      intro a w v txn txn' hs h _
      exact ⟨[], .refl _, Nat.zero_le _,
        .alike a rfl h.store hs (Nat.zero_le _)⟩
  | ask q next ih =>
      rintro a w v txn txn' ⟨a', ha', hnext⟩ h htxn
      have hrest := hnext (answerAlone (w, txn) q).2
      have hplain := TxnPhase.isPlain_of_next? ha'
      rw [Program.run_ask, Program.run_ask]
      obtain ⟨events, hlogs, hlike | ⟨code, hfails⟩⟩ := answer_twins h ha' htxn
      · rw [hlike.answered] at hrest
        rw [← hlike.answer]
        have htwins := h.of_keeps (keeps_answerAlone (w, txn) hplain)
          (keeps_answerAlone (v, txn') hplain) hlike.store hlike.faultless
        obtain ⟨later, hlogs', hstarts, hends⟩ :=
          ih _ _ _ hrest htwins hlike.abreast
        refine ⟨later ++ events, hlogs.trans hlogs', ?_,
          hends.after ha' hlike hlogs⟩
        rw [List.countP_append]
        have := hlike.starts
        omega
      · rw [hfails.refusal] at hrest
        obtain ⟨y, hrest, hy⟩ := hrest
        rw [hrest]
        exact ⟨events, hlogs, hfails.starts, .failed code hfails.early hy
          hfails.store hfails.last hfails.scripted hfails.commits⟩

end World

end MergeOnWrite
