/-
Sets of rows of a segment.

A set is the ascending list of its maximal runs of consecutive rows, so
a range of any length is one run, and two sets with the same rows are
the same term.

A union interleaves the runs of both sides by their first rows
(`interleave`) and then joins those that overlap or touch (`coalesce`).

# Main statements

- `mem_coalesce`: joining runs keeps the rows.
- `separated_coalesce`: joined runs are maximal.
- `RowSet.mem_union`, `RowSet.mem_insertRun`: the operations on sets are
  those on the rows.
-/

namespace MergeOnWrite

-- ================================================== sums

/-- The sum of a measure over the items of a list. -/
def total {α : Type} (measure : α → Nat) : List α → Nat
  | [] => 0
  | a :: rest => measure a + total measure rest

/-- The sum over two lists is that of their sums. -/
theorem total_append {α : Type} (measure : α → Nat) (l r : List α) :
    total measure (l ++ r) = total measure l + total measure r := by
  induction l with
  | nil => exact (Nat.zero_add _).symm
  | cons a rest ih =>
      rw [List.cons_append, total, total, ih, Nat.add_assoc]

/-- Lists that are joined have the sum of their lengths. -/
theorem length_flatMap_eq_total {α β : Type} (f : α → List β) (l : List α) :
    (l.flatMap f).length = total (fun a => (f a).length) l := by
  induction l with
  | nil => rfl
  | cons a rest ih => rw [List.flatMap_cons, List.length_append, ih, total]

-- ================================================== runs

/-- The rows from `lo` to `hi`. -/
structure Run where
  lo : Nat
  hi : Nat
deriving DecidableEq, Repr, Inhabited

namespace Run

/-- The number of rows a segment may have. -/
def bound : Nat := 0x100000000

/-- A run has a row, and only rows that a segment may have. -/
def IsValid (r : Run) : Prop := r.lo ≤ r.hi ∧ r.hi < bound

instance (r : Run) : Decidable r.IsValid := inferInstanceAs (Decidable (_ ∧ _))

def Covers (r : Run) (row : Nat) : Prop := r.lo ≤ row ∧ row ≤ r.hi

instance (r : Run) (row : Nat) : Decidable (r.Covers row) :=
  inferInstanceAs (Decidable (_ ∧ _))

def length (r : Run) : Nat := r.hi + 1 - r.lo

end Run

-- ================================================== joining runs

/-- Joins overlapping and touching runs into `current`, for runs that
ascend by their first rows. -/
def coalesceFrom (current : Run) : List Run → List Run
  | [] => [current]
  | r :: rest =>
    if r.lo ≤ current.hi + 1 then
      coalesceFrom ⟨current.lo, max current.hi r.hi⟩ rest
    else current :: coalesceFrom r rest

/-- Joins overlapping and touching runs, for runs that ascend by their
first rows. -/
def coalesce : List Run → List Run
  | [] => []
  | r :: rest => coalesceFrom r rest

/-- Puts `a` and what follows it in front of the first run that does not
start before it; `rest` interleaves what follows `a`. -/
def interleaveOne (a : Run) (as : List Run) (rest : List Run → List Run) :
    List Run → List Run
  | [] => a :: as
  | b :: bs =>
    if a.lo ≤ b.lo then a :: rest (b :: bs)
    else b :: interleaveOne a as rest bs

/-- Interleaves two lists of runs by their first rows. -/
def interleave : List Run → List Run → List Run
  | [] => id
  | a :: as => interleaveOne a as (interleave as)

theorem mem_interleave {r : Run} :
    ∀ {as bs : List Run}, r ∈ interleave as bs ↔ r ∈ as ∨ r ∈ bs := by
  intro as
  induction as with
  | nil => intro bs; simp [interleave]
  | cons a as ih =>
      intro bs
      induction bs with
      | nil => simp [interleave, interleaveOne]
      | cons b bs ihb =>
          unfold interleave interleaveOne
          split
          · rw [List.mem_cons, ih, List.mem_cons (a := r) (b := a), or_assoc]
          · have := ihb
            unfold interleave at this
            rw [List.mem_cons, this, List.mem_cons (a := r) (b := b)]
            exact or_left_comm

theorem ascending_interleave :
    ∀ {as bs : List Run},
      as.Pairwise (fun a b => a.lo ≤ b.lo) →
      bs.Pairwise (fun a b => a.lo ≤ b.lo) →
        (interleave as bs).Pairwise fun a b => a.lo ≤ b.lo := by
  intro as
  induction as with
  | nil => intro bs _ h; exact h
  | cons a as ih =>
      intro bs ha hb
      obtain ⟨ha1, ha2⟩ := List.pairwise_cons.1 ha
      induction bs with
      | nil => exact ha
      | cons b bs ihb =>
          obtain ⟨hb1, hb2⟩ := List.pairwise_cons.1 hb
          unfold interleave interleaveOne
          split
          · rename_i hle
            refine List.pairwise_cons.2 ⟨fun r hr => ?_, ih ha2 hb⟩
            rcases mem_interleave.1 hr with hr | hr
            · exact ha1 r hr
            · rcases List.mem_cons.1 hr with rfl | hr
              · exact hle
              · exact Nat.le_trans hle (hb1 r hr)
          · rename_i hle
            refine List.pairwise_cons.2 ⟨fun r hr => ?_, ihb hb2⟩
            have hr : r ∈ interleave (a :: as) bs := hr
            rcases mem_interleave.1 hr with hr | hr
            · rcases List.mem_cons.1 hr with rfl | hr
              · omega
              · have := ha1 r hr
                omega
            · exact hb1 r hr

/-- Joining runs keeps the rows. -/
theorem mem_coalesceFrom {row : Nat} :
    ∀ {l : List Run} {current : Run},
      (current :: l).Pairwise (fun a b => a.lo ≤ b.lo) →
      current.lo ≤ current.hi → (∀ r ∈ l, r.lo ≤ r.hi) →
        ((∃ r ∈ coalesceFrom current l, r.Covers row)
          ↔ current.Covers row ∨ ∃ r ∈ l, r.Covers row) := by
  intro l
  induction l with
  | nil => intro current _ _ _; simp [coalesceFrom]
  | cons r rest ih =>
      intro current h hc hv
      obtain ⟨h1, h2⟩ := List.pairwise_cons.1 h
      obtain ⟨h3, h4⟩ := List.pairwise_cons.1 h2
      have hcr := h1 r (List.mem_cons_self ..)
      have hr := hv r (List.mem_cons_self ..)
      unfold coalesceFrom
      split
      · rename_i hle
        have hjoin : current.lo ≤ max current.hi r.hi := by omega
        rw [@ih ⟨current.lo, max current.hi r.hi⟩
          (List.pairwise_cons.2
            ⟨fun x hx => h1 x (List.mem_cons_of_mem _ hx), h4⟩)
          hjoin fun x hx => hv x (List.mem_cons_of_mem _ hx)]
        simp only [List.mem_cons, exists_eq_or_imp, ← or_assoc]
        have : (Run.mk current.lo (max current.hi r.hi)).Covers row
            ↔ current.Covers row ∨ r.Covers row := by
          simp only [Run.Covers]
          omega
        rw [this]
      · have := ih h2 hr fun x hx => hv x (List.mem_cons_of_mem _ hx)
        simp only [List.mem_cons, exists_eq_or_imp]
        rw [this]

/-- Joined runs start no earlier than the first one. -/
theorem lo_le_of_mem_coalesceFrom :
    ∀ {l : List Run} {current r : Run},
      (current :: l).Pairwise (fun a b => a.lo ≤ b.lo) →
        r ∈ coalesceFrom current l → current.lo ≤ r.lo := by
  intro l
  induction l with
  | nil =>
      intro current r _ h
      exact Nat.le_of_eq (congrArg Run.lo (List.mem_singleton.1 h).symm)
  | cons x rest ih =>
      intro current r h hr
      obtain ⟨h1, h2⟩ := List.pairwise_cons.1 h
      have hx := h1 x (List.mem_cons_self ..)
      unfold coalesceFrom at hr
      split at hr
      · exact @ih ⟨current.lo, max current.hi x.hi⟩ r
          (List.pairwise_cons.2 ⟨fun y hy =>
            h1 y (List.mem_cons_of_mem _ hy), (List.pairwise_cons.1 h2).2⟩) hr
      · rcases List.mem_cons.1 hr with rfl | hr
        · exact Nat.le_refl _
        · exact Nat.le_trans hx (ih h2 hr)

/-- Joined runs are maximal: a row at least lies between two of them. -/
theorem separated_coalesceFrom :
    ∀ {l : List Run} {current : Run},
      (current :: l).Pairwise (fun a b => a.lo ≤ b.lo) →
        (coalesceFrom current l).Pairwise fun a b => a.hi + 1 < b.lo := by
  intro l
  induction l with
  | nil => intro current _; exact List.pairwise_singleton ..
  | cons r rest ih =>
      intro current h
      obtain ⟨h1, h2⟩ := List.pairwise_cons.1 h
      unfold coalesceFrom
      split
      · exact ih (List.pairwise_cons.2 ⟨fun y hy =>
          h1 y (List.mem_cons_of_mem _ hy), (List.pairwise_cons.1 h2).2⟩)
      · refine List.pairwise_cons.2 ⟨fun x hx => ?_, ih h2⟩
        have := lo_le_of_mem_coalesceFrom h2 hx
        omega

theorem valid_coalesceFrom :
    ∀ {l : List Run} {current : Run}, current.IsValid →
      (∀ r ∈ l, r.IsValid) → ∀ r ∈ coalesceFrom current l, r.IsValid := by
  intro l
  induction l with
  | nil =>
      intro current hc _ r hr
      rw [List.mem_singleton.1 hr]
      exact hc
  | cons x rest ih =>
      intro current hc hl r hr
      have hx := hl x (List.mem_cons_self ..)
      have hrest := fun y hy => hl y (List.mem_cons_of_mem _ hy)
      unfold coalesceFrom at hr
      split at hr
      · refine @ih ⟨current.lo, max current.hi x.hi⟩ ?_ hrest r hr
        simp only [Run.IsValid] at hc hx ⊢
        omega
      · rcases List.mem_cons.1 hr with rfl | hr
        · exact hc
        · exact ih hx hrest r hr

theorem separated_coalesce {l : List Run}
    (h : l.Pairwise fun a b => a.lo ≤ b.lo) :
    (coalesce l).Pairwise fun a b => a.hi + 1 < b.lo := by
  cases l with
  | nil => exact .nil
  | cons r rest => exact separated_coalesceFrom h

theorem valid_coalesce {l : List Run} (h : ∀ r ∈ l, r.IsValid) :
    ∀ r ∈ coalesce l, r.IsValid := by
  cases l with
  | nil => intro r hr; cases hr
  | cons x rest =>
      exact valid_coalesceFrom (h x (List.mem_cons_self ..))
        fun y hy => h y (List.mem_cons_of_mem _ hy)

theorem mem_coalesce {l : List Run} {row : Nat}
    (h : l.Pairwise fun a b => a.lo ≤ b.lo) (hv : ∀ r ∈ l, r.IsValid) :
    (∃ r ∈ coalesce l, r.Covers row) ↔ ∃ r ∈ l, r.Covers row := by
  cases l with
  | nil => exact Iff.rfl
  | cons x rest =>
      rw [coalesce, mem_coalesceFrom h (hv x (List.mem_cons_self ..)).1
        fun y hy => (hv y (List.mem_cons_of_mem _ hy)).1]
      simp

-- ================================================== sets

/-- A set of rows: its maximal runs in ascending order. -/
structure RowSet where
  runs : List Run
  separated : runs.Pairwise fun a b => a.hi + 1 < b.lo
  valid : ∀ r ∈ runs, r.IsValid
deriving DecidableEq

namespace RowSet

def empty : RowSet := ⟨[], .nil, nofun⟩

instance : EmptyCollection RowSet := ⟨empty⟩

instance : Inhabited RowSet := ⟨empty⟩

instance : Membership Nat RowSet := ⟨fun s row => ∃ r ∈ s.runs, r.Covers row⟩

instance (row : Nat) (s : RowSet) : Decidable (row ∈ s) :=
  inferInstanceAs (Decidable (∃ r ∈ s.runs, r.Covers row))

theorem ascending (s : RowSet) : s.runs.Pairwise fun a b => a.lo ≤ b.lo := by
  refine s.separated.imp_of_mem fun ha hb h => ?_
  have := (s.valid _ ha).1
  omega

def ofRun (r : Run) (h : r.IsValid) : RowSet :=
  ⟨[r], List.pairwise_singleton .., fun _ hx =>
    List.mem_singleton.1 hx ▸ h⟩

def union (s t : RowSet) : RowSet where
  runs := coalesce (interleave s.runs t.runs)
  separated := separated_coalesce (ascending_interleave s.ascending t.ascending)
  valid := valid_coalesce fun r hr =>
    (mem_interleave.1 hr).elim (s.valid r) (t.valid r)

/-- Adds the rows from `lo` to `hi`; nothing if there are none. -/
def insertRun (s : RowSet) (lo hi : Nat) : RowSet :=
  if h : (Run.mk lo hi).IsValid then s.union (ofRun ⟨lo, hi⟩ h) else s

def insert (s : RowSet) (row : UInt32) : RowSet :=
  s.insertRun row.toNat row.toNat

/-- The runs of a list by their first rows. -/
def sortRuns (l : List Run) : List Run :=
  (l.filter fun r => decide r.IsValid).mergeSort fun a b => a.lo ≤ b.lo

theorem ascending_sortRuns (l : List Run) :
    (sortRuns l).Pairwise fun a b => a.lo ≤ b.lo :=
  (List.pairwise_mergeSort (by simp only [decide_eq_true_eq]; omega)
    (by simp only [Bool.or_eq_true, decide_eq_true_eq]; omega) _).imp
    fun h => by simpa using h

theorem mem_sortRuns {l : List Run} {r : Run} :
    r ∈ sortRuns l ↔ r ∈ l ∧ r.IsValid := by
  simp [sortRuns]

/-- The rows of some runs in any order; runs that are not valid count for
nothing. -/
def ofRuns (l : List Run) : RowSet where
  runs := coalesce (sortRuns l)
  separated := separated_coalesce (ascending_sortRuns l)
  valid := valid_coalesce fun _ hr => (mem_sortRuns.1 hr).2

def cardinality (s : RowSet) : Nat := total Run.length s.runs

/-- True when there are no rows. -/
def isEmpty (s : RowSet) : Bool := s.runs.isEmpty

@[simp] theorem not_mem_empty (row : Nat) : ¬ row ∈ (∅ : RowSet) := by
  rintro ⟨r, hr, _⟩
  cases hr

@[simp] theorem mem_union {s t : RowSet} {row : Nat} :
    row ∈ s.union t ↔ row ∈ s ∨ row ∈ t := by
  show (∃ r ∈ coalesce (interleave s.runs t.runs), r.Covers row) ↔ _
  rw [mem_coalesce (ascending_interleave s.ascending t.ascending)
    fun r hr => (mem_interleave.1 hr).elim (s.valid r) (t.valid r)]
  simp only [mem_interleave, or_and_right, exists_or]
  rfl

theorem mem_insertRun {s : RowSet} {lo hi row : Nat} (h : hi < Run.bound) :
    row ∈ s.insertRun lo hi ↔ row ∈ s ∨ lo ≤ row ∧ row ≤ hi := by
  unfold insertRun
  split
  · rw [mem_union]
    refine or_congr Iff.rfl ?_
    show (∃ r ∈ [Run.mk lo hi], r.Covers row) ↔ _
    simp [Run.Covers]
  · rename_i hv
    simp only [Run.IsValid] at hv
    constructor
    · exact .inl
    · rintro (h' | h')
      · exact h'
      · omega

theorem mem_insert {s : RowSet} {new : UInt32} {row : Nat} :
    row ∈ s.insert new ↔ row ∈ s ∨ row = new.toNat := by
  have hbound : new.toNat < Run.bound := new.toNat_lt
  rw [insert, mem_insertRun hbound]
  refine or_congr Iff.rfl ⟨fun h => ?_, fun h => ?_⟩
  · exact Nat.le_antisymm h.2 h.1
  · exact ⟨Nat.le_of_eq h.symm, Nat.le_of_eq h⟩

theorem mem_ofRuns {l : List Run} {row : Nat} :
    row ∈ ofRuns l ↔ ∃ r ∈ l, r.IsValid ∧ r.Covers row := by
  show (∃ r ∈ coalesce (sortRuns l), r.Covers row) ↔ _
  rw [mem_coalesce (ascending_sortRuns l) fun _ hr => (mem_sortRuns.1 hr).2]
  simp only [mem_sortRuns, and_assoc]

/-- The rows of a set are numbers that a segment may have. -/
theorem lt_bound_of_mem {s : RowSet} {row : Nat} (h : row ∈ s) :
    row < Run.bound := by
  obtain ⟨r, hr, hc⟩ := h
  have := (s.valid r hr).2
  have := hc.2
  omega

end RowSet

end MergeOnWrite
