/-
Two runs of one script, on stores that differ where it does not look.

A store that refuses nothing, and that nobody else uses, is a slate: the live
entries, and those that the open transaction would leave. What a script is
answered there is determined by the slate, the clock and the routing, so two
runs can be compared by comparing slates. If a script keeps to a footprint,
then slates that agree on what it reads answer it alike and agree again; and
a slate changes only where the script writes.

# Main statements

- `Slate.run_alike`: on slates that agree on what a script reads it comes to
  the same, and they agree afterwards.
- `Slate.run_confined`: what a script leaves differs from what there was only
  where it writes.
-/
import MergeOnWrite.Proofs.Service.Footprint
import MergeOnWrite.Proofs.Store.Snapshot

namespace MergeOnWrite

-- ================================================== entries

namespace Entries

/-- True of entries that are the same at some keys. -/
def AgreeOn (keys : Bytes → Prop) (a b : Entries) : Prop :=
  ∀ key, keys key → a.get? key = b.get? key

/-- True of entries that are the same except at some keys. -/
def ChangesOnly (keys : Bytes → Prop) (before after : Entries) : Prop :=
  ∀ key, after.get? key ≠ before.get? key → keys key

variable {keys : Bytes → Prop} {a b : Entries} {key : Bytes}

theorem AgreeOn.insert (h : a.AgreeOn keys b) (key value : Bytes) :
    AgreeOn keys (SortedMap.insert a key value)
      (SortedMap.insert b key value) := by
  intro j hj
  rw [SortedMap.get?_insert, SortedMap.get?_insert, h j hj]

theorem AgreeOn.erase (h : a.AgreeOn keys b) (key : Bytes) :
    AgreeOn keys (SortedMap.erase a key) (SortedMap.erase b key) := by
  intro j hj
  rw [SortedMap.get?_erase, SortedMap.get?_erase, h j hj]

/-- A listing reads the extensions of its stem, those that are there and
those that are not. -/
theorem AgreeOn.within_eq (h : a.AgreeOn keys b) {stem : Bytes}
    (hstem : ∀ key, stem <+: key → keys key) :
    a.within (.extending stem) = b.within (.extending stem) := by
  refine SortedMap.ext_get? fun j => ?_
  rw [get?_within, get?_within]
  split
  · rename_i hj
    exact h j (hstem j (KeyRange.contains_extending.1 hj))
  · rfl

/-- What is listed extends the stem. -/
theorem mem_within {stem : Bytes} {e : Bytes × Bytes}
    (h : e ∈ (a.within (.extending stem)).toList) : stem <+: e.1 := by
  have hget := SortedMap.mem_toList_iff.1 h
  rw [get?_within] at hget
  split at hget
  · rename_i hj
    exact KeyRange.contains_extending.1 hj
  · cases hget

theorem ChangesOnly.insert (h : a.ChangesOnly keys b) (hkey : keys key)
    (value : Bytes) : ChangesOnly keys a (SortedMap.insert b key value) := by
  intro j hj
  by_cases heq : j = key
  · rw [heq]
    exact hkey
  · rw [SortedMap.get?_insert_of_ne _ _ heq] at hj
    exact h j hj

theorem ChangesOnly.erase (h : a.ChangesOnly keys b) (hkey : keys key) :
    ChangesOnly keys a (SortedMap.erase b key) := by
  intro j hj
  by_cases heq : j = key
  · rw [heq]
    exact hkey
  · rw [SortedMap.get?_erase_of_ne _ heq] at hj
    exact h j hj

end Entries

-- ================================================== slates

/-- What a store that refuses nothing holds: the live entries, and those that
the open transaction would leave. -/
structure Slate where
  live : Entries
  draft : Option Entries := none

namespace Slate

/-- What the open transaction reads, if there is one. -/
def read {β : Type} (s : Slate) (look : Entries → β) : Except StoreCode β :=
  match s.draft with
  | some view => .ok (look view)
  | none => .error .other

/-- Answers a question of a script, at some time of the wall clock. -/
def answer (now : Instant) (route : InstanceId → LockVersion) (s : Slate) :
    (q : Question) → Slate × q.Answer
  | .now => (s, now)
  | .route i => (s, route i)
  | .start => ({ s with draft := some s.live }, .ok ())
  | .get key => (s, s.read (·.get? key))
  | .scan stem =>
    (s, s.read fun view => (view.within (.extending stem)).toList)
  | .put key value => ({ s with draft := s.draft.map (·.insert key value) }, ())
  | .remove key => ({ s with draft := s.draft.map (·.erase key) }, ())
  | .commit =>
    match s.draft with
    | some view => ({ live := view }, .ok ())
    | none => (s, .error .other)
  | q => (s, q.idle)

variable {α : Type} {f : Footprint} {now : Instant}
  {route : InstanceId → LockVersion} {s t : Slate} {q : Question}

/-- A slate answers as is known of answers. -/
theorem mayAnswer (now : Instant) (route : InstanceId → LockVersion)
    (s : Slate) (q : Question) :
    q.MayAnswer route (s.answer now route q).2 := by
  cases q with
  | route i => rfl
  | scan stem =>
      simp only [answer, read]
      cases s.draft with
      | none => trivial
      | some view => exact fun e he => Entries.mem_within he
  | now | start | get | put | remove | commit | report | jitter | pause
  | chance | spread | replay => trivial

-- ================================================== two runs

/-- True of slates that agree on what may be read. -/
structure Agrees (f : Footprint) (s t : Slate) : Prop where
  live : s.live.AgreeOn f.reads t.live
  draft : Option.Rel (Entries.AgreeOn f.reads) s.draft t.draft

/-- A read that looks at nothing but what may be read is the same on
both. -/
theorem Agrees.read_eq {β : Type} (h : s.Agrees f t) {look : Entries → β}
    (hlook : ∀ a b : Entries, a.AgreeOn f.reads b → look a = look b) :
    s.read look = t.read look := by
  have hdraft := h.draft
  unfold read
  generalize s.draft = d, t.draft = d' at hdraft
  cases hdraft with
  | none => rfl
  | some hviews => exact congrArg Except.ok (hlook _ _ hviews)

/-- A write that keeps views in agreement keeps the slates so. -/
theorem Agrees.write (h : s.Agrees f t) {change : Entries → Entries}
    (hchange : ∀ a b : Entries, a.AgreeOn f.reads b →
      (change a).AgreeOn f.reads (change b)) :
    Agrees f { s with draft := s.draft.map change }
      { t with draft := t.draft.map change } := by
  refine ⟨h.live, ?_⟩
  have hdraft := h.draft
  generalize s.draft = d, t.draft = d' at hdraft
  cases hdraft with
  | none => exact .none
  | some hviews => exact .some (hchange _ _ hviews)

/-- Slates that agree on what is read answer a question alike. -/
theorem answer_alike (now : Instant) (route : InstanceId → LockVersion)
    (hq : q.Within f) (h : s.Agrees f t) :
    (s.answer now route q).2 = (t.answer now route q).2
      ∧ (s.answer now route q).1.Agrees f (t.answer now route q).1 := by
  cases q with
  | now | route | report => exact ⟨rfl, h⟩
  | start => exact ⟨rfl, h.live, .some h.live⟩
  | get key => exact ⟨h.read_eq fun a b hab => hab key hq, h⟩
  | scan stem =>
      refine ⟨h.read_eq fun a b hab => ?_, h⟩
      exact congrArg SortedMap.toList (hab.within_eq hq)
  | put key value => exact ⟨rfl, h.write fun a b hab => hab.insert key value⟩
  | remove key => exact ⟨rfl, h.write fun a b hab => hab.erase key⟩
  | commit =>
      have hdraft := h.draft
      simp only [answer]
      cases hs : s.draft with
      | none =>
          rw [hs] at hdraft
          cases ht : t.draft with
          | none => exact ⟨rfl, h⟩
          | some view => rw [ht] at hdraft; cases hdraft
      | some view =>
          rw [hs] at hdraft
          cases ht : t.draft with
          | none => rw [ht] at hdraft; cases hdraft
          | some view' =>
              rw [ht] at hdraft
              cases hdraft with
              | some hviews => exact ⟨rfl, hviews, .none⟩
  | jitter | pause | chance | spread | replay => exact hq.elim

/-- On slates that agree on what it reads a script comes to the same, and
they agree afterwards. -/
theorem run_alike (now : Instant) {ends : α → Prop} {script : Script α} :
    ∀ {s t : Slate}, Script.Within route f ends script → s.Agrees f t →
      (script.run (answer now route) s).2 = (script.run (answer now route) t).2
        ∧ (script.run (answer now route) s).1.Agrees f
          (script.run (answer now route) t).1 := by
  induction script with
  | done a => exact fun _ h => ⟨rfl, h⟩
  | ask q next ih =>
      intro s t hscript h
      obtain ⟨hanswer, hagrees⟩ := answer_alike now route hscript.1 h
      rw [Program.run_ask, Program.run_ask, ← hanswer]
      exact ih _ (hscript.2 _ (mayAnswer now route s q)) hagrees

-- ================================================== one run

/-- True of slates that differ from what there was only where may be
written. -/
structure Confined (f : Footprint) (before : Entries) (s : Slate) : Prop where
  live : before.ChangesOnly f.writes s.live
  draft : ∀ view, s.draft = some view → before.ChangesOnly f.writes view

variable {before : Entries}

/-- At first a slate holds what there was. -/
theorem confined_live (f : Footprint) (before : Entries) :
    Confined f before { live := before } where
  live _ hne := absurd rfl hne
  draft _ hview := nomatch hview

theorem Confined.write (h : s.Confined f before) {change : Entries → Entries}
    (hchange : ∀ a : Entries, before.ChangesOnly f.writes a →
      before.ChangesOnly f.writes (change a)) :
    Confined f before { s with draft := s.draft.map change } := by
  refine ⟨h.live, fun view hview => ?_⟩
  obtain ⟨a, ha, rfl⟩ := Option.map_eq_some_iff.1 hview
  exact hchange a (h.draft a ha)

/-- A question changes only what may be written. -/
theorem answer_confined (hq : q.Within f) (h : s.Confined f before) :
    (s.answer now route q).1.Confined f before := by
  cases q with
  | now | route | report | get | scan => exact h
  | start =>
      refine ⟨h.live, fun view hview => ?_⟩
      obtain rfl := Option.some.inj hview
      exact h.live
  | put key value => exact h.write fun a ha => ha.insert hq value
  | remove key => exact h.write fun a ha => ha.erase hq
  | commit =>
      simp only [answer]
      cases hs : s.draft with
      | none => exact h
      | some view => exact ⟨h.draft view hs, nofun⟩
  | jitter | pause | chance | spread | replay => exact hq.elim

/-- What a script leaves differs from what there was only where it
writes. -/
theorem run_confined (now : Instant) {ends : α → Prop} {script : Script α} :
    ∀ {s : Slate}, Script.Within route f ends script → s.Confined f before →
      (script.run (answer now route) s).1.Confined f before := by
  induction script with
  | done a => exact fun _ h => h
  | ask q next ih =>
      intro s hscript h
      rw [Program.run_ask]
      exact ih _ (hscript.2 _ (mayAnswer now route s q))
        (answer_confined hscript.1 h)

end Slate

end MergeOnWrite
