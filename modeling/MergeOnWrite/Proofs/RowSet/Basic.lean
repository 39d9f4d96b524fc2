/-
A set of rows is determined by its rows, and holds as many as it counts.

# Main statements

- `mem_runRows`, `length_runRows`: the rows of runs, one by one.
- `runs_ext`: separated runs that cover the same rows are the same runs.
- `RowSet.ext_mem`: sets with the same rows are the same set.
- `RowSet.union_comm`, `RowSet.union_assoc`, `RowSet.union_self`: unions
  depend on neither order nor repetition.
-/
import MergeOnWrite.RowSet.Basic

namespace MergeOnWrite

/-- True of runs with a gap of at least one row between any two of them. -/
abbrev Separated (runs : List Run) : Prop :=
  runs.Pairwise fun a b => a.hi + 1 < b.lo

-- ================================================== row by row

/-- The rows of some runs, one by one. -/
def runRows (runs : List Run) : List Nat :=
  runs.flatMap fun r => List.range' r.lo r.length

theorem mem_runRows {runs : List Run} {row : Nat} :
    row ∈ runRows runs ↔ ∃ r ∈ runs, r.Covers row := by
  refine List.mem_flatMap.trans (exists_congr fun r => and_congr_right fun _ => ?_)
  rw [List.mem_range'_1, Run.length, Run.Covers]
  omega

/-- There are as many rows as the runs are long. -/
theorem length_runRows (runs : List Run) :
    (runRows runs).length = total Run.length runs := by
  rw [runRows, length_flatMap_eq_total]
  simp only [List.length_range']

theorem ascending_runRows {runs : List Run} (h : Separated runs) :
    (runRows runs).Pairwise (· < ·) := by
  refine List.pairwise_flatMap.2 ⟨fun r _ => List.pairwise_lt_range', ?_⟩
  refine h.imp fun {a b} hab x hx y hy => ?_
  rw [List.mem_range'_1, Run.length] at hx hy
  omega

-- ================================================== runs and their rows

/-- The rows of runs after the first one lie above a gap. -/
theorem gap_of_covers {a : Run} {l : List Run} {row : Nat}
    (h : Separated (a :: l)) (hrow : ∃ r ∈ l, r.Covers row) :
    a.hi + 1 < row := by
  obtain ⟨r, hr, hlo, -⟩ := hrow
  have := (List.pairwise_cons.1 h).1 r hr
  omega

/-- The first of separated runs begins with their least row. -/
theorem lo_le_of_covers {a : Run} {l : List Run} {row : Nat}
    (h : Separated (a :: l)) (ha : a.lo ≤ a.hi)
    (hrow : ∃ r ∈ a :: l, r.Covers row) : a.lo ≤ row := by
  obtain ⟨r, hr, hc⟩ := hrow
  rcases List.mem_cons.1 hr with rfl | hr
  · exact hc.1
  · have := gap_of_covers h ⟨r, hr, hc⟩
    omega

/-- The first of separated runs ends no later than the first of others that
cover the same rows. -/
theorem hi_le_of_covers {a b : Run} {l r : List Run}
    (hl : Separated (a :: l)) (hlo : a.lo = b.lo) (ha : a.lo ≤ a.hi)
    (hsub : ∀ row, (∃ x ∈ b :: r, x.Covers row) → ∃ x ∈ a :: l, x.Covers row) :
    b.hi ≤ a.hi := by
  by_cases h : a.hi < b.hi
  · -- the row after `a` is one of `b`, but none of the runs after `a`
    have hb : b.Covers (a.hi + 1) := ⟨by omega, h⟩
    obtain ⟨x, hx, hc⟩ := hsub _ ⟨b, List.mem_cons_self .., hb⟩
    rcases List.mem_cons.1 hx with rfl | hx
    · have := hc.2
      omega
    · have := gap_of_covers hl ⟨x, hx, hc⟩
      omega
  · omega

/-- Separated runs that cover the same rows are the same runs. -/
theorem runs_ext :
    ∀ {l r : List Run}, Separated l → Separated r →
      (∀ x ∈ l, x.lo ≤ x.hi) → (∀ x ∈ r, x.lo ≤ x.hi) →
      (∀ row, (∃ x ∈ l, x.Covers row) ↔ ∃ x ∈ r, x.Covers row) → l = r := by
  intro l
  induction l with
  | nil =>
      intro r _ _ _ hr h
      cases r with
      | nil => rfl
      | cons b r =>
          have hb := hr b (List.mem_cons_self ..)
          obtain ⟨x, hx, -⟩ := (h b.lo).2
            ⟨b, List.mem_cons_self .., Nat.le_refl _, hb⟩
          cases hx
  | cons a l ih =>
      intro r hl hr hla hrb h
      have ha := hla a (List.mem_cons_self ..)
      cases r with
      | nil =>
          obtain ⟨x, hx, -⟩ := (h a.lo).1
            ⟨a, List.mem_cons_self .., Nat.le_refl _, ha⟩
          cases hx
      | cons b r =>
          have hb := hrb b (List.mem_cons_self ..)
          have hba := lo_le_of_covers hr hb
            ((h a.lo).1 ⟨a, List.mem_cons_self .., Nat.le_refl _, ha⟩)
          have hab := lo_le_of_covers hl ha
            ((h b.lo).2 ⟨b, List.mem_cons_self .., Nat.le_refl _, hb⟩)
          have hlo : a.lo = b.lo := Nat.le_antisymm hab hba
          have h1 := hi_le_of_covers hl hlo ha fun row => (h row).2
          have h2 := hi_le_of_covers hr hlo.symm hb fun row => (h row).1
          obtain ⟨alo, ahi⟩ := a
          obtain ⟨blo, bhi⟩ := b
          obtain rfl : alo = blo := hlo
          obtain rfl : ahi = bhi := Nat.le_antisymm h2 h1
          refine congrArg (_ :: ·) (ih (List.pairwise_cons.1 hl).2
            (List.pairwise_cons.1 hr).2
            (fun x hx => hla x (List.mem_cons_of_mem _ hx))
            (fun x hx => hrb x (List.mem_cons_of_mem _ hx)) fun row => ?_)
          have hrest : ∀ {s t : List Run}, Separated (⟨alo, ahi⟩ :: s) →
              ((∃ x ∈ Run.mk alo ahi :: s, x.Covers row) →
                ∃ x ∈ Run.mk alo ahi :: t, x.Covers row) →
              (∃ x ∈ s, x.Covers row) → ∃ x ∈ t, x.Covers row := by
            intro s t hs himp hrow
            have hgap := gap_of_covers hs hrow
            obtain ⟨x, hx, hc⟩ := hrow
            obtain ⟨y, hy, hcy⟩ := himp ⟨x, List.mem_cons_of_mem _ hx, hc⟩
            rcases List.mem_cons.1 hy with rfl | hy
            · have := hcy.2
              simp only at this hgap
              omega
            · exact ⟨y, hy, hcy⟩
          exact ⟨hrest hl (h row).1, hrest hr (h row).2⟩

theorem RowSet.ext_mem {s t : RowSet} (h : ∀ row, row ∈ s ↔ row ∈ t) :
    s = t := by
  have hruns : s.runs = t.runs := runs_ext s.separated t.separated
    (fun x hx => (s.valid x hx).1) (fun x hx => (t.valid x hx).1) h
  obtain ⟨runs, _, _⟩ := s
  obtain ⟨runs', _, _⟩ := t
  obtain rfl : runs = runs' := hruns
  rfl

namespace RowSet

theorem isEmpty_iff {s : RowSet} : s.isEmpty = true ↔ ∀ row, ¬ row ∈ s := by
  refine List.isEmpty_iff.trans ⟨fun h row hrow => ?_, fun h => ?_⟩
  · obtain ⟨r, hr, -⟩ := hrow
    rw [h] at hr
    cases hr
  · refine List.eq_nil_iff_forall_not_mem.2 fun r hr => h r.lo ⟨r, hr, ?_⟩
    exact ⟨Nat.le_refl _, (s.valid r hr).1⟩

theorem union_comm (s t : RowSet) : s.union t = t.union s :=
  ext_mem fun row => by rw [mem_union, mem_union, or_comm]

theorem union_assoc (s t u : RowSet) :
    (s.union t).union u = s.union (t.union u) :=
  ext_mem fun row => by simp only [mem_union, or_assoc]

theorem union_self (s : RowSet) : s.union s = s :=
  ext_mem fun row => by rw [mem_union, or_self]

instance : Std.Commutative RowSet.union := ⟨union_comm⟩

instance : Std.Associative RowSet.union := ⟨union_assoc⟩

instance : Std.IdempotentOp RowSet.union := ⟨union_self⟩

end RowSet

end MergeOnWrite
