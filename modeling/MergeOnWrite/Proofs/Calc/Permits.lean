/-
Permits, and those who stand before them.

Tasks come to permits as to a desk: each stands apart, waits in the queue, or
holds a permit. Pools and lanes of the executor are such desks, and whatever
a step of the executor does is one of the few things that can happen at one
(`Desk.Next`).

# The argument

Permits are neither made nor lost, and who waits does so for want of a free
one (`Desk.Sound`). So where someone waits all permits are out, and if
whoever holds one gives it back at last, the queue moves on again and again.
A place in the queue is never lost to others, and it gets better with each
permit that comes back (`idxOf_next`); who waited forever would go through
infinitely many better places (`leaves_queue`).

# Main statements

- `sound_next`: whatever happens at a desk, its permits are accounted for.
- `leaves_queue`: nobody waits forever where permits are given back.
-/
import MergeOnWrite.Calc.Permits
import Mathlib.Data.List.Nodup
import Mathlib.Data.Nat.Init

namespace MergeOnWrite

theorem Permits.release_of_nil {p : Permits} (h : p.waiting = []) :
    p.release = ({ p with free := p.free + 1 }, none) := by
  rw [release, h]

theorem Permits.release_of_cons {p : Permits} {first : Nat} {rest : List Nat}
    (h : p.waiting = first :: rest) :
    p.release = ({ p with waiting := rest }, some first) := by
  rw [release, h]

/-- How a task stands to some permits. -/
inductive Standing where
  | apart
  | queued
  | holding
deriving DecidableEq

/-- Permits, and how each task stands to them. -/
structure Desk where
  permits : Permits
  standings : List Standing

namespace Desk

/-- What can happen at a desk. -/
inductive Next (d : Desk) : Desk → Prop
  | rest : Next d d
  | came : Next d { d with standings := d.standings ++ [.apart] }
  | took {id : Nat} (hid : d.standings[id]? = some .apart)
      (hopen : d.permits.closed = false) (hfree : d.permits.free ≠ 0) :
      Next d ⟨{ d.permits with free := d.permits.free - 1 },
        d.standings.set id .holding⟩
  | joined {id : Nat} (hid : d.standings[id]? = some .apart)
      (hopen : d.permits.closed = false) (hfree : d.permits.free = 0) :
      Next d ⟨{ d.permits with waiting := d.permits.waiting ++ [id] },
        d.standings.set id .queued⟩
  /-- Gives a permit back that nobody waits for. -/
  | gaveBack {id : Nat} (hid : d.standings[id]? = some .holding)
      (hwaiting : d.permits.waiting = []) :
      Next d ⟨{ d.permits with free := d.permits.free + 1 },
        d.standings.set id .apart⟩
  /-- Gives a permit back to who is first in the queue. -/
  | passedOn {id first : Nat} {rest : List Nat}
      (hid : d.standings[id]? = some .holding)
      (hwaiting : d.permits.waiting = first :: rest) :
      Next d ⟨{ d.permits with waiting := rest },
        (d.standings.set first .holding).set id .apart⟩
  /-- Does not wait any longer, as there will be no permits. -/
  | left {id : Nat} (hid : d.standings[id]? = some .queued)
      (hclosed : d.permits.closed = true) :
      Next d ⟨d.permits, d.standings.set id .apart⟩
  | closed : Next d { d with permits := d.permits.close }

/-- Permits are accounted for. -/
structure Sound (d : Desk) (capacity : Nat) : Prop where
  sum : d.permits.free + d.standings.count .holding = capacity
  full : d.permits.waiting ≠ [] → d.permits.free = 0
  waits : ∀ id, id ∈ d.permits.waiting
    ↔ d.permits.closed = false ∧ d.standings[id]? = some .queued
  nodup : d.permits.waiting.Nodup

variable {d d' : Desk} {capacity id : Nat} {s s' : Standing}

-- ================================================== standings

/-- The number of those who hold a permit when one stands otherwise. -/
theorem count_set {l : List Standing} (s' : Standing) (h : l[id]? = some s) :
    (l.set id s').count .holding + (if s = .holding then 1 else 0)
      = l.count .holding + if s' = .holding then 1 else 0 := by
  obtain ⟨hid, hs⟩ := List.getElem?_eq_some_iff.1 h
  rw [List.count_set hid, hs]
  cases s with
  | holding =>
      have hpos : 0 < l.count .holding :=
        List.count_pos_iff.2 (hs ▸ List.getElem_mem hid)
      cases s' <;> simp <;> omega
  | apart | queued => cases s' <;> simp

theorem getElem?_set_iff {l : List Standing} {j : Nat} (h : l[id]? = some s) :
    (l.set id s')[j]? = some .queued
      ↔ if j = id then s' = .queued else l[j]? = some .queued := by
  by_cases hj : j = id
  · subst hj
    have hlt := (List.getElem?_eq_some_iff.1 h).1
    simp [List.getElem?_set_self hlt]
  · rw [List.getElem?_set_ne (Ne.symm hj), if_neg hj]

/-- Where permits are free nobody waits. -/
theorem Sound.waiting_of_free (h : d.Sound capacity)
    (hfree : d.permits.free ≠ 0) : d.permits.waiting = [] := by
  by_contra hne
  exact hfree (h.full hne)

/-- Permits that are closed stay so. -/
theorem Next.closed_of_closed (h : d.Next d')
    (hclosed : d.permits.closed = true) : d'.permits.closed = true := by
  cases h with
  | closed => rfl
  | _ => exact hclosed

/-- Someone holds a permit where someone waits. -/
theorem Sound.exists_holding (h : d.Sound capacity) (hpos : 0 < capacity)
    (hwaiting : id ∈ d.permits.waiting) :
    ∃ holder : Nat, d.standings[holder]? = some .holding := by
  have hfree := h.full (List.ne_nil_of_mem hwaiting)
  have hsum := h.sum
  have hcount : 0 < d.standings.count .holding := by omega
  exact List.getElem?_of_mem (List.count_pos_iff.1 hcount)

-- ================================================== the account

theorem sound_took (h : d.Sound capacity)
    (hid : d.standings[id]? = some .apart) (hfree : d.permits.free ≠ 0) :
    Sound ⟨{ d.permits with free := d.permits.free - 1 },
      d.standings.set id .holding⟩ capacity := by
  have hnone := h.waiting_of_free hfree
  have hcount := count_set .holding hid
  have hsum := h.sum
  refine ⟨?_, fun hne => absurd hnone hne, fun j => ?_, h.nodup⟩
  · simp at hcount ⊢
    omega
  · rw [getElem?_set_iff hid]
    by_cases hj : j = id
    · subst hj
      simp [h.waits, hid]
    · rw [if_neg hj]
      exact h.waits j

theorem sound_joined (h : d.Sound capacity)
    (hid : d.standings[id]? = some .apart) (hopen : d.permits.closed = false)
    (hfree : d.permits.free = 0) :
    Sound ⟨{ d.permits with waiting := d.permits.waiting ++ [id] },
      d.standings.set id .queued⟩ capacity := by
  have hnot : id ∉ d.permits.waiting := fun hmem => by
    have := ((h.waits id).1 hmem).2
    rw [hid] at this
    cases this
  have hcount := count_set .queued hid
  have hsum := h.sum
  refine ⟨?_, fun _ => hfree, fun j => ?_, ?_⟩
  · simp at hcount ⊢
    omega
  · rw [getElem?_set_iff hid, List.mem_append, List.mem_singleton]
    by_cases hj : j = id
    · simp [hj, hopen]
    · simp only [hj, or_false, if_false]
      exact h.waits j
  · refine List.nodup_append.2 ⟨h.nodup, List.nodup_singleton _, ?_⟩
    rintro j hj k hk rfl
    exact hnot (List.mem_singleton.1 hk ▸ hj)

theorem sound_gaveBack (h : d.Sound capacity)
    (hid : d.standings[id]? = some .holding)
    (hwaiting : d.permits.waiting = []) :
    Sound ⟨{ d.permits with free := d.permits.free + 1 },
      d.standings.set id .apart⟩ capacity := by
  have hcount := count_set .apart hid
  have hsum := h.sum
  refine ⟨?_, fun hne => absurd hwaiting hne, fun j => ?_, h.nodup⟩
  · simp at hcount ⊢
    omega
  · rw [getElem?_set_iff hid]
    by_cases hj : j = id
    · subst hj
      simp [h.waits, hid]
    · rw [if_neg hj]
      exact h.waits j

theorem sound_passedOn {first : Nat} {rest : List Nat} (h : d.Sound capacity)
    (hid : d.standings[id]? = some .holding)
    (hwaiting : d.permits.waiting = first :: rest) :
    Sound ⟨{ d.permits with waiting := rest },
      (d.standings.set first .holding).set id .apart⟩ capacity := by
  obtain ⟨hopen, hfirst⟩ :=
    (h.waits first).1 (hwaiting ▸ List.mem_cons_self ..)
  obtain ⟨hnot, hnodup⟩ := List.nodup_cons.1 (hwaiting ▸ h.nodup)
  have hne : id ≠ first := by
    rintro rfl
    rw [hid] at hfirst
    cases hfirst
  have hid' : (d.standings.set first .holding)[id]? = some .holding := by
    rw [List.getElem?_set_ne hne.symm, hid]
  have hcount := count_set .holding hfirst
  have hcount' := count_set .apart hid'
  have hsum := h.sum
  refine ⟨?_, fun _ => h.full (by simp [hwaiting]), fun j => ?_, hnodup⟩
  · simp at hcount hcount' ⊢
    omega
  · have hwaits := h.waits j
    rw [hwaiting, List.mem_cons] at hwaits
    rw [getElem?_set_iff hid', getElem?_set_iff hfirst]
    by_cases hj : j = id
    · subst hj
      simp only [if_true, reduceCtorEq, and_false, iff_false]
      rw [hid] at hwaits
      simp at hwaits
      exact hwaits.2
    · by_cases hjf : j = first
      · subst hjf
        simp [hj, hnot]
      · simpa [hj, hjf] using hwaits

theorem sound_left (h : d.Sound capacity)
    (hid : d.standings[id]? = some .queued)
    (hclosed : d.permits.closed = true) :
    Sound ⟨d.permits, d.standings.set id .apart⟩ capacity := by
  have hcount := count_set .apart hid
  have hsum := h.sum
  refine ⟨?_, h.full, fun j => ?_, h.nodup⟩
  · simp at hcount ⊢
    omega
  · simp [h.waits, hclosed]

theorem sound_closed (h : d.Sound capacity) :
    Sound { d with permits := d.permits.close } capacity :=
  ⟨h.sum, fun hne => absurd rfl hne,
    fun j => by simp [Permits.close], List.nodup_nil⟩

/-- Whatever happens at a desk, its permits are accounted for. -/
theorem sound_next (h : d.Sound capacity) (hnext : d.Next d') :
    d'.Sound capacity := by
  cases hnext with
  | rest => exact h
  | came =>
      refine ⟨?_, h.full, fun j => ?_, h.nodup⟩
      · simpa [List.count_append] using h.sum
      · rw [h.waits, List.getElem?_append]
        refine and_congr_right fun _ => ?_
        split
        · exact .rfl
        · rename_i hj
          rw [List.getElem?_eq_none (Nat.not_lt.1 hj)]
          simp [List.getElem?_singleton]
  | took hid _ hfree => exact sound_took h hid hfree
  | joined hid hopen hfree => exact sound_joined h hid hopen hfree
  | gaveBack hid hwaiting => exact sound_gaveBack h hid hwaiting
  | passedOn hid hwaiting => exact sound_passedOn h hid hwaiting
  | left hid hclosed => exact sound_left h hid hclosed
  | closed => exact sound_closed h

-- ================================================== the queue

/-- A place in the queue is not lost to others, and it gets better when a
permit comes back. -/
theorem idxOf_next (h : d.Sound capacity) (hnext : d.Next d')
    (hid : id ∈ d.permits.waiting) (hid' : id ∈ d'.permits.waiting) :
    d'.permits.waiting.idxOf id ≤ d.permits.waiting.idxOf id
      ∧ ∀ holder : Nat, d.standings[holder]? = some .holding →
        d'.standings[holder]? ≠ some .holding →
          d'.permits.waiting.idxOf id < d.permits.waiting.idxOf id := by
  have hkept : ∀ {j holder : Nat} {s s' : Standing}, s ≠ .holding →
      d.standings[j]? = some s → d.standings[holder]? = some .holding →
        (d.standings.set j s')[holder]? = some .holding := by
    intro j holder s s' hs hj hholder
    have hne : j ≠ holder := by
      rintro rfl
      exact hs (Option.some.inj (hj.symm.trans hholder))
    rw [List.getElem?_set_ne hne, hholder]
  cases hnext with
  | rest => exact ⟨Nat.le_refl _, fun holder hh hn => absurd hh hn⟩
  | came =>
      refine ⟨Nat.le_refl _, fun holder hh hn => absurd ?_ hn⟩
      rw [List.getElem?_append_left (List.getElem?_eq_some_iff.1 hh).1, hh]
  | took _ _ hfree =>
      exact absurd (h.waiting_of_free hfree) (List.ne_nil_of_mem hid)
  | @joined j hj _ _ =>
      refine ⟨?_, fun holder hh hn => absurd (hkept (by decide) hj hh) hn⟩
      exact Nat.le_of_eq (List.idxOf_append_of_mem hid)
  | gaveBack _ hwaiting => exact absurd hwaiting (List.ne_nil_of_mem hid)
  | @passedOn j first rest hj hwaiting =>
      have hne : first ≠ id := by
        rintro rfl
        exact (List.nodup_cons.1 (hwaiting ▸ h.nodup)).1 hid'
      have hplace : d.permits.waiting.idxOf id = rest.idxOf id + 1 := by
        rw [hwaiting, List.idxOf_cons_ne _ hne]
      rw [hplace]
      exact ⟨Nat.le_succ _, fun _ _ _ => Nat.lt_succ_self _⟩
  | left _ hclosed =>
      exact absurd (((h.waits id).1 hid).1.symm.trans hclosed) (by decide)
  | closed => cases hid'

/-- What holds at one moment and not at a later one stops to hold in
between. -/
theorem exists_last {p : Nat → Prop} {n m : Nat} (hnm : n ≤ m) (hn : p n)
    (hm : ¬ p m) : ∃ j, n ≤ j ∧ p j ∧ ¬ p (j + 1) := by
  induction m, hnm using Nat.le_induction with
  | base => exact absurd hn hm
  | succ m hnm ih =>
      by_cases hp : p m
      · exact ⟨m, hnm, hp, hm⟩
      · exact ih hp

/-- Nobody waits forever at a desk where whoever holds a permit gives it back
at last, and nobody waits on when there will be no permits. -/
theorem leaves_queue {n : Nat} (desk : Nat → Desk) (id : Nat)
    (hnext : ∀ m, n ≤ m → (desk m).Next (desk (m + 1)))
    (hsound : ∀ m, n ≤ m → (desk m).Sound capacity) (hpos : 0 < capacity)
    (hback : ∀ m, n ≤ m → ∀ holder : Nat,
      (desk m).standings[holder]? = some .holding →
        ∃ j, m ≤ j ∧ (desk j).standings[holder]? ≠ some .holding)
    (hclosed : ∀ m, n ≤ m → (desk m).permits.closed = true →
      (desk m).standings[id]? = some .queued →
        ∃ j, m ≤ j ∧ (desk j).standings[id]? ≠ some .queued) :
    ∃ m, n ≤ m ∧ (desk m).standings[id]? ≠ some .queued := by
  by_contra hnever
  have hstays : ∀ m, n ≤ m → (desk m).standings[id]? = some .queued := by
    intro m hm
    by_contra hne
    exact hnever ⟨m, hm, hne⟩
  have hmem : ∀ m, n ≤ m → id ∈ (desk m).permits.waiting := by
    intro m hm
    refine ((hsound m hm).waits id).2 ⟨?_, hstays m hm⟩
    cases hc : (desk m).permits.closed with
    | false => rfl
    | true =>
        obtain ⟨j, hj, hne⟩ := hclosed m hm hc (hstays m hm)
        exact absurd (hstays j (Nat.le_trans hm hj)) hne
  have hplace := fun m (hm : n ≤ m) => idxOf_next (hsound m hm) (hnext m hm)
    (hmem m hm) (hmem (m + 1) (Nat.le_succ_of_le hm))
  have hmono : ∀ m, n ≤ m → ∀ j, m ≤ j →
      (desk j).permits.waiting.idxOf id ≤ (desk m).permits.waiting.idxOf id := by
    intro m hm j hj
    induction j, hj using Nat.le_induction with
    | base => exact Nat.le_refl _
    | succ j hj ih => exact Nat.le_trans (hplace j (Nat.le_trans hm hj)).1 ih
  have hbetter : ∀ m, n ≤ m → ∃ j, n ≤ j
      ∧ (desk j).permits.waiting.idxOf id < (desk m).permits.waiting.idxOf id := by
    intro m hm
    obtain ⟨holder, hholder⟩ := (hsound m hm).exists_holding hpos (hmem m hm)
    obtain ⟨m', hm', hgave⟩ := hback m hm holder hholder
    obtain ⟨j, hj, hholds, hgives⟩ := exists_last
      (p := fun j => (desk j).standings[holder]? = some .holding)
      hm' hholder hgave
    refine ⟨j + 1, by omega, Nat.lt_of_lt_of_le ?_ (hmono m hm j hj)⟩
    exact (hplace j (Nat.le_trans hm hj)).2 holder hholds hgives
  -- places cannot get better forever
  have hdescent : ∀ place m, n ≤ m →
      (desk m).permits.waiting.idxOf id = place → False := by
    intro place
    induction place using Nat.strong_induction_on with
    | _ place ih =>
        rintro m hm rfl
        obtain ⟨j, hj, hlt⟩ := hbetter m hm
        exact ih _ hlt j hj rfl
  exact hdescent _ n (Nat.le_refl n) rfl

end Desk

end MergeOnWrite
