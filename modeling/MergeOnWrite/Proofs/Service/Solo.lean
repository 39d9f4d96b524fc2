/-
What a script does by itself.

A script that works on a transaction might as well work on a draft: a copy
of the live entries, where it reads what it wrote and where nobody else
writes. Left alone with its draft, a script is safe (`Script.Safe`) if,
whatever it is answered, it asks for a commit only with a draft that
satisfies a condition, and ends only in a way that satisfies another one.
The store may refuse any question, the clock may show anything, and the
draft may begin with any entries.

Safety is shown along the script, one rule for each question and one for
the sequence of two scripts.

# Main statements

- `Script.safe_bind`: a sequence is safe if its first part ends where its
  second part is safe.
- `Handler.safe_bind` and the rules after it: the same for handlers, which
  may also fail as long as they have not committed anything.
-/
import MergeOnWrite.Proofs.Store.Snapshot
import MergeOnWrite.Service.Front

namespace MergeOnWrite

/-- True of what the wall clock can show: an instant of the calendar, in no
leap second. -/
structure Instant.IsClockTime (t : Instant) : Prop where
  inCalendar : t.isInCalendar = true
  nano_lt : t.nano < 1000000000

-- ================================================== drafts

/-- The entries that a transaction began with, and what it would leave. -/
structure Draft where
  before : Entries
  after : Entries

/-- How far a script has come. -/
structure Progress where
  /-- Its transaction, if one is open. -/
  draft : Option Draft := none
  /-- What the clock showed, latest first. -/
  readings : List Instant := []
  /-- How many of its commits were granted. -/
  commits : Nat := 0

namespace Progress

/-- Writes into the draft, if there is one. -/
def write (p : Progress) (change : Entries → Entries) : Progress :=
  { p with draft := p.draft.map fun d => { d with after := change d.after } }

/-- What a script may be answered, and where that leads. -/
def Answers (route : InstanceId → LockVersion) (p : Progress) :
    (q : Question) → q.Answer → Progress → Prop
  | .now, now, p' =>
    now.IsClockTime ∧ p' = { p with readings := now :: p.readings }
  | .route i, version, p' => version = route i ∧ p' = p
  | .start, result, p' =>
    (∃ code, result = .error code ∧ p' = { p with draft := none })
      ∨ ∃ entries, result = .ok ()
        ∧ p' = { p with draft := some ⟨entries, entries⟩ }
  | .get key, result, p' =>
    p' = p ∧ ((∃ code, result = .error code)
      ∨ ∃ d, p.draft = some d ∧ result = .ok (d.after.get? key))
  | .scan stem, result, p' =>
    p' = p ∧ ((∃ code, result = .error code)
      ∨ ∃ d, p.draft = some d
        ∧ result = .ok (d.after.within (.extending stem)).toList)
  | .put key value, _, p' => p' = p.write (·.insert key value)
  | .remove key, _, p' => p' = p.write (·.erase key)
  | .commit, result, p' =>
    (∃ code, result = .error code ∧ p' = { p with draft := none })
      ∨ p.draft.isSome = true ∧ result = .ok ()
        ∧ p' = { p with draft := none, commits := p.commits + 1 }
  | .report _, _, p' | .jitter, _, p' | .pause _, _, p' | .chance _, _, p'
  | .spread _, _, p' | .replay .., _, p' => p' = p

end Progress

-- ================================================== scripts

/-- What a script has to keep to: the versions that it is told, and the
drafts that it may commit after some readings of the clock. -/
structure Contract where
  route : InstanceId → LockVersion
  commits : List Instant → Draft → Prop

variable {c : Contract} {α β : Type}

/-- True of scripts that, from some progress on, ask only for commits that
the contract allows, and end only as a condition allows. -/
def Script.Safe (c : Contract) (ends : Progress → α → Prop) :
    Progress → Script α → Prop
  | p, .done a => ends p a
  | p, .ask q next =>
    (q = .commit → ∀ d, p.draft = some d → c.commits p.readings d)
      ∧ ∀ x p', p.Answers c.route q x p' → Script.Safe c ends p' (next x)

namespace Script

theorem safe_mono {ends ends' : Progress → α → Prop} {p : Progress}
    {s : Script α} (h : ∀ p a, ends p a → ends' p a)
    (hs : Safe c ends p s) : Safe c ends' p s := by
  induction s generalizing p with
  | done a => exact h p a hs
  | ask q next ih => exact ⟨hs.1, fun x p' hx => ih x (hs.2 x p' hx)⟩

/-- Who keeps to a contract keeps to one that allows more. -/
theorem safe_allow {c' : Contract} {ends : Progress → α → Prop} {p : Progress}
    {s : Script α} (hs : Safe c ends p s) (hroute : c'.route = c.route)
    (hcommits : ∀ readings d, c.commits readings d → c'.commits readings d) :
    Safe c' ends p s := by
  induction s generalizing p with
  | done a => exact hs
  | ask q next ih =>
      refine ⟨fun hq d hd => hcommits _ d (hs.1 hq d hd), fun x p' hx => ?_⟩
      exact ih x (hs.2 x p' (hroute ▸ hx))

/-- A sequence is safe if its first part ends where its second part is
safe. -/
theorem safe_bind {ends : Progress → β → Prop} {p : Progress} {s : Script α}
    {f : α → Script β}
    (h : Safe c (fun p a => Safe c ends p (f a)) p s) :
    Safe c ends p (s >>= f) := by
  induction s generalizing p with
  | done a => exact h
  | ask q next ih => exact ⟨h.1, fun x p' hx => ih x (h.2 x p' hx)⟩

end Script

-- ================================================== handlers

namespace Handler

/-- How a handler ends that fails only before it has committed. -/
def Ends (ends : Progress → α → Prop) (p : Progress) :
    Except ServiceError α → Prop
  | .ok a => ends p a
  | .error _ => p.commits = 0

/-- True of handlers that are safe as scripts and fail only before they
have committed. -/
def Safe (c : Contract) (ends : Progress → α → Prop) (p : Progress)
    (h : Handler α) : Prop :=
  Script.Safe c (Ends ends) p h.run

section Rules

variable {ends : Progress → α → Prop} {p : Progress}

theorem safe_pure {a : α} (h : ends p a) :
    Safe c ends p (pure a : Handler α) := h

theorem safe_throw {e : ServiceError} (h : p.commits = 0) :
    Safe c ends p (throw e : Handler α) := h

theorem safe_mono {ends' : Progress → α → Prop} {h : Handler α}
    (himp : ∀ p a, ends p a → ends' p a) (hs : Safe c ends p h) :
    Safe c ends' p h := by
  refine Script.safe_mono (fun p r hr => ?_) hs
  cases r with
  | ok a => exact himp p a hr
  | error e => exact hr

/-- Who keeps to a contract keeps to one that allows more. -/
theorem safe_allow {c' : Contract} {h : Handler α} (hs : Safe c ends p h)
    (hroute : c'.route = c.route)
    (hcommits : ∀ readings d, c.commits readings d → c'.commits readings d) :
    Safe c' ends p h :=
  Script.safe_allow hs hroute hcommits

/-- A sequence is safe if its first part ends where its second part is
safe. -/
theorem safe_bind {ends : Progress → β → Prop} {h : Handler α}
    {f : α → Handler β}
    (hs : Safe c (fun p a => Safe c ends p (f a)) p h) :
    Safe c ends p (h >>= f) := by
  show Script.Safe c (Ends ends) p (h.run >>= _)
  refine Script.safe_bind (Script.safe_mono (fun p r hr => ?_) hs)
  cases r with
  | ok a => exact hr
  | error e => exact hr

/-- A question that is always answered may be asked, unless it asks for a
commit. -/
theorem safe_ask {q : Question} {ends : Progress → q.Answer → Prop}
    (hq : q ≠ .commit) (h : ∀ x p', p.Answers c.route q x p' → ends p' x) :
    Safe c ends p (ask q) :=
  ⟨fun heq => absurd heq hq, h⟩

theorem safe_now {ends : Progress → Instant → Prop}
    (h : ∀ now : Instant, now.IsClockTime →
      ends { p with readings := now :: p.readings } now) :
    Safe c ends p (ask .now) :=
  safe_ask nofun fun now _ ⟨hnow, hp⟩ => hp ▸ h now hnow

theorem safe_route {ends : Progress → LockVersion → Prop} {i : InstanceId}
    (h : ends p (c.route i)) : Safe c ends p (ask (.route i)) :=
  safe_ask nofun fun _ _ ⟨hversion, hp⟩ => hversion ▸ hp ▸ h

theorem safe_report {ends : Progress → Unit → Prop} {event : Report}
    (h : ends p ()) : Safe c ends p (ask (.report event)) :=
  safe_ask nofun fun _ _ hp => hp ▸ h

theorem safe_put {ends : Progress → Unit → Prop} {key value : Bytes}
    (h : ends (p.write (·.insert key value)) ()) :
    Safe c ends p (ask (.put key value)) :=
  safe_ask nofun fun _ _ hp => hp ▸ h

theorem safe_remove {ends : Progress → Unit → Prop} {key : Bytes}
    (h : ends (p.write (·.erase key)) ()) :
    Safe c ends p (ask (.remove key)) :=
  safe_ask nofun fun _ _ hp => hp ▸ h

theorem safe_start {ends : Progress → Unit → Prop} (h₀ : p.commits = 0)
    (h : ∀ entries, ends { p with draft := some ⟨entries, entries⟩ } ()) :
    Safe c ends p start := by
  refine ⟨nofun, fun x p' hx => ?_⟩
  rcases hx with ⟨code, rfl, rfl⟩ | ⟨entries, rfl, rfl⟩
  · exact h₀
  · exact h entries

theorem safe_get {ends : Progress → Option Bytes → Prop} {context : String}
    {key : Bytes} {d : Draft} (h₀ : p.commits = 0) (hd : p.draft = some d)
    (h : ends p (d.after.get? key)) : Safe c ends p (get context key) := by
  refine ⟨nofun, fun x p' hx => ?_⟩
  obtain ⟨rfl, ⟨code, rfl⟩ | ⟨d', hd', rfl⟩⟩ := hx
  · exact h₀
  · obtain rfl := Option.some.inj (hd.symm.trans hd')
    exact h

theorem safe_scan {ends : Progress → List (Bytes × Bytes) → Prop}
    {context : String} {stem : Bytes} {d : Draft} (h₀ : p.commits = 0)
    (hd : p.draft = some d)
    (h : ends p (d.after.within (.extending stem)).toList) :
    Safe c ends p (scan context stem) := by
  refine ⟨nofun, fun x p' hx => ?_⟩
  obtain ⟨rfl, ⟨code, rfl⟩ | ⟨d', hd', rfl⟩⟩ := hx
  · exact h₀
  · obtain rfl := Option.some.inj (hd.symm.trans hd')
    exact h

/-- A draft may be committed that the contract allows. -/
theorem safe_commit {ends : Progress → Unit → Prop} {context : String}
    {d : Draft} (h₀ : p.commits = 0) (hd : p.draft = some d)
    (hcommits : c.commits p.readings d)
    (h : ends { p with draft := none, commits := 1 } ()) :
    Safe c ends p (commit context) := by
  refine ⟨fun _ d' hd' => ?_, fun x p' hx => ?_⟩
  · obtain rfl := Option.some.inj (hd.symm.trans hd')
    exact hcommits
  · rcases hx with ⟨code, rfl, rfl⟩ | ⟨-, rfl, rfl⟩
    · exact h₀
    · rw [h₀]
      exact h

/-- A check that comes out well may be relied on. -/
theorem safe_check {result : Except Failure α} (h₀ : p.commits = 0)
    (h : ∀ a, result = .ok a → ends p a) : Safe c ends p (check result) := by
  cases result with
  | ok a => exact h a rfl
  | error e => exact h₀

theorem safe_lift {result : Except ServiceError α} (h₀ : p.commits = 0)
    (h : ∀ a, result = .ok a → ends p a) :
    Safe c ends p (liftM result : Handler α) := by
  cases result with
  | ok a => exact h a rfl
  | error e => exact h₀

/-- What comes out well was not turned into another error. -/
theorem ok_of_mapError {ε ε' : Type} {result : Except ε α} {f : ε → ε'}
    {a : α} (h : result.mapError f = .ok a) : result = .ok a := by
  cases result with
  | ok b => exact congrArg Except.ok (Except.ok.inj h)
  | error e => cases h

theorem safe_instanceOf {ends : Progress → InstanceId → Prop} {name : String}
    (h₀ : p.commits = 0) (h : ∀ i, InstanceId.ofText name = .ok i → ends p i) :
    Safe c ends p (instanceOf name) :=
  safe_check h₀ fun i hi => h i (ok_of_mapError hi)

theorem safe_rowsetOf {ends : Progress → RowsetId → Prop} {name : String}
    (h₀ : p.commits = 0) (h : ∀ i, RowsetId.ofText name = .ok i → ends p i) :
    Safe c ends p (rowsetOf name) :=
  safe_check h₀ fun i hi => h i (ok_of_mapError hi)

/-- What stays true of the progress while a handler works on one item
after another is true in the end. -/
theorem safe_forM {f : α → Handler Unit} (stays : Progress → Prop)
    (hstep : ∀ a p, stays p → Safe c (fun p _ => stays p) p (f a)) :
    ∀ {l : List α} {p : Progress}, stays p →
      Safe c (fun p _ => stays p) p (l.forM f) := by
  intro l
  induction l with
  | nil => intro p h; exact safe_pure h
  | cons a rest ih =>
      intro p h
      exact safe_bind (safe_mono (fun _ _ hp => ih hp) (hstep a p h))

theorem safe_mapM {β : Type} {f : α → Handler β} (stays : Progress → Prop)
    (hstep : ∀ a p, stays p → Safe c (fun p _ => stays p) p (f a)) :
    ∀ {l : List α} {p : Progress}, stays p →
      Safe c (fun p _ => stays p) p (l.mapM f) := by
  intro l
  induction l with
  | nil => intro p h; exact safe_pure h
  | cons a rest ih =>
      intro p h
      rw [List.mapM_cons]
      refine safe_bind (safe_mono (fun p _ hp => ?_) (hstep a p h))
      exact safe_bind (safe_mono (fun _ _ hp => safe_pure hp) (ih hp))

theorem safe_stored {decode? : Bytes → Option α} {what : String}
    {ends : Progress → Option α → Prop} {bytes : Option Bytes}
    (h₀ : p.commits = 0)
    (h : ∀ record, bytes.map decode? = record.map some → ends p record) :
    Safe c ends p (stored decode? what bytes) := by
  cases bytes with
  | none => exact h none rfl
  | some b =>
      simp only [stored]
      cases hb : decode? b with
      | none => exact safe_throw h₀
      | some record => exact safe_pure (h (some record) (congrArg some hb))

end Rules

end Handler

end MergeOnWrite
