/-
The containers of a set have its rows, each once.

A set is split into groups of low bits from its last run down to its first
one, and each run piece by piece in the same order. What has been split so
far is `Grouped`: groups ascend by their high bits, and the runs within
each are separated. A piece that is added lies below all of that and apart
from it, which the rows covered so far tell (`Adds`), so no invariant
about the pieces themselves is needed.

# Main statements

- `adds_piece`, `adds_run`, `adds_runs`: a piece, a run, and all runs of a
  set add their rows and nothing else.
- `grouped_groups`: the containers of a set are well formed.
- `cardinalityAll_containers`, `ofContainers_containers`: they have as many
  rows as the set, and the same.
-/
import MergeOnWrite.Proofs.RowSet.Basic
import MergeOnWrite.RowSet.Portable

namespace MergeOnWrite.RowSet

-- ================================================== groups

/-- The runs of low bits that share their high bits. -/
abbrev Group := Nat × List Run

/-- True of the rows of a group. -/
def Group.Covers (g : Group) (row : Nat) : Prop :=
  row / 65536 = g.1 ∧ ∃ r ∈ g.2, r.Covers (row % 65536)

/-- True of runs of low bits. -/
structure LowRun (r : Run) : Prop where
  lo_le : r.lo ≤ r.hi
  hi_lt : r.hi < 65536

/-- True of groups that a container can hold. -/
structure Group.IsValid (g : Group) : Prop where
  high_lt : g.1 < 65536
  ne_nil : g.2 ≠ []
  separated : Separated g.2
  low : ∀ r ∈ g.2, LowRun r

/-- True of valid groups that ascend by their high bits. -/
structure Grouped (l : List Group) : Prop where
  ascending : l.Pairwise fun a b => a.1 < b.1
  valid : ∀ g ∈ l, g.IsValid

/-- True of the rows of some groups. -/
def CoveredBy (l : List Group) (row : Nat) : Prop := ∃ g ∈ l, g.Covers row

/-- The number of rows of some groups. -/
def groupRows (l : List Group) : Nat := total (fun g => total Run.length g.2) l

/-- True of groups that have some rows more than others. -/
structure Adds (rows : Nat → Prop) (count : Nat) (l l' : List Group) : Prop where
  grouped : Grouped l'
  covered : ∀ row, CoveredBy l' row ↔ rows row ∨ CoveredBy l row
  count_eq : groupRows l' = count + groupRows l

theorem coveredBy_lo {l : List Group} (hl : Grouped l) {g : Group}
    (hg : g ∈ l) {r : Run} (hr : r ∈ g.2) :
    CoveredBy l (g.1 * 65536 + r.lo) := by
  have hlow := (hl.valid g hg).low r hr
  have h1 := hlow.lo_le
  have h2 := hlow.hi_lt
  refine ⟨g, hg, by omega, r, hr, ?_⟩
  rw [show (g.1 * 65536 + r.lo) % 65536 = r.lo by omega]
  exact ⟨Nat.le_refl _, h1⟩

-- ================================================== pieces

/-- A piece in front of groups above it adds its rows. -/
theorem adds_piece {high : Nat} {piece : Run} {l : List Group}
    (hl : Grouped l) (hhigh : high < 65536) (hpiece : LowRun piece)
    (habove : ∀ g ∈ l, high ≤ g.1)
    (hgap : ∀ g ∈ l, g.1 = high → ∀ r ∈ g.2, piece.hi + 1 < r.lo) :
    Adds (fun row => row / 65536 = high ∧ piece.Covers (row % 65536))
      piece.length l (Container.addPiece high piece l) := by
  -- a group of its own, in front of groups with other high bits
  have hnew : ∀ {l : List Group}, Grouped l → (∀ g ∈ l, high < g.1) →
      Adds (fun row => row / 65536 = high ∧ piece.Covers (row % 65536))
        piece.length l ((high, [piece]) :: l) := by
    intro l hl hlt
    refine ⟨⟨List.pairwise_cons.2 ⟨hlt, hl.ascending⟩, fun g hg => ?_⟩,
      fun row => ?_, ?_⟩
    · rcases List.mem_cons.1 hg with rfl | hg
      · exact ⟨hhigh, List.cons_ne_nil _ _, List.pairwise_singleton ..,
          fun r hr => List.mem_singleton.1 hr ▸ hpiece⟩
      · exact hl.valid g hg
    · simp only [CoveredBy, List.mem_cons, exists_eq_or_imp, Group.Covers,
        List.not_mem_nil, or_false, exists_eq_left]
    · simp only [groupRows, total, Nat.add_zero]
  cases l with
  | nil => exact hnew hl (List.forall_mem_nil _)
  | cons g rest =>
      obtain ⟨next, lows⟩ := g
      obtain ⟨hhead, hrest⟩ := List.pairwise_cons.1 hl.ascending
      rw [Container.addPiece]
      split
      · rename_i heq
        subst heq
        have hvalid := hl.valid _ (List.mem_cons_self ..)
        have hlow := hgap _ (List.mem_cons_self ..) rfl
        refine ⟨⟨List.pairwise_cons.2 ⟨hhead, hrest⟩, fun g hg => ?_⟩,
          fun row => ?_, ?_⟩
        · rcases List.mem_cons.1 hg with rfl | hg
          · refine ⟨hhigh, List.cons_ne_nil _ _,
              List.pairwise_cons.2 ⟨hlow, hvalid.separated⟩, fun r hr => ?_⟩
            rcases List.mem_cons.1 hr with rfl | hr
            · exact hpiece
            · exact hvalid.low r hr
          · exact hl.valid g (List.mem_cons_of_mem _ hg)
        · simp only [CoveredBy, List.mem_cons, exists_eq_or_imp, Group.Covers,
            and_or_left, or_assoc]
        · simp only [groupRows, total, Nat.add_assoc]
      · rename_i hne
        refine hnew hl fun g hg => ?_
        have hle : high ≤ next := habove _ (List.mem_cons_self ..)
        have hlt : high < next := by omega
        rcases List.mem_cons.1 hg with rfl | hg
        · exact hlt
        · exact Nat.lt_trans hlt (hhead g hg)

-- ================================================== runs

/-- The rows of a run from some high bits on. -/
theorem adds_pieces {r : Run} {above : List Group} (hr : r.lo ≤ r.hi)
    (hbound : r.hi < Run.bound) (habove : Grouped above)
    (hgap : ∀ row, CoveredBy above row → r.hi + 1 < row) :
    ∀ (n high : Nat), r.lo / 65536 ≤ high → high + n = r.hi / 65536 + 1 →
      Adds (fun row => high ≤ row / 65536 ∧ r.Covers row)
        (r.hi + 1 - max r.lo (high * 65536)) above
        ((List.range' high n).foldr (fun high acc =>
          Container.addPiece high (Container.piece r high) acc) above) := by
  intro n
  induction n with
  | zero =>
      intro high _ hn
      refine ⟨habove, fun row => ?_, ?_⟩
      · refine ⟨.inr, fun h => h.resolve_left fun hrow => ?_⟩
        have h1 := hrow.1
        have h2 := hrow.2.2
        omega
      · show groupRows above = _
        omega
  | succ n ih =>
      intro high hlo hn
      have hrest := ih (high + 1) (by omega) (by omega)
      rw [show List.range' high (n + 1) = high :: List.range' (high + 1) n
        from rfl, List.foldr_cons]
      generalize (List.range' (high + 1) n).foldr _ above = rest at hrest ⊢
      have hbound' : r.hi < 4294967296 := hbound
      have hpiece : LowRun (Container.piece r high) := by
        constructor <;> simp only [Container.piece] <;> omega
      have hhigh : high < 65536 := by omega
      have hadd := adds_piece hrest.grouped hhigh hpiece
        (fun g hg => ?_) (fun g hg heq x hx => ?_)
      · refine ⟨hadd.grouped, fun row => ?_, ?_⟩
        · rw [hadd.covered, hrest.covered, ← or_assoc]
          refine or_congr_left ?_
          simp only [Run.Covers, Container.piece]
          omega
        · rw [hadd.count_eq, hrest.count_eq]
          simp only [Run.length, Container.piece]
          omega
      · -- a group below would have a row that is neither above nor added
        obtain ⟨x, hx⟩ := List.exists_mem_of_ne_nil _
          (hrest.grouped.valid g hg).ne_nil
        have hlow := (hrest.grouped.valid g hg).low x hx
        have h1 := hlow.lo_le
        have h2 := hlow.hi_lt
        rcases (hrest.covered _).1 (coveredBy_lo hrest.grouped hg hx)
          with h | h
        · have := h.1
          omega
        · have := hgap _ h
          omega
      · have hlow := (hrest.grouped.valid g hg).low x hx
        have h1 := hlow.lo_le
        have h2 := hlow.hi_lt
        simp only [Container.piece]
        rcases (hrest.covered _).1 (coveredBy_lo hrest.grouped hg hx)
          with h | h
        · have := h.1
          omega
        · have := hgap _ h
          omega

theorem adds_run {r : Run} {above : List Group} (hr : r.IsValid)
    (habove : Grouped above)
    (hgap : ∀ row, CoveredBy above row → r.hi + 1 < row) :
    Adds r.Covers r.length above (Container.addRun r above) := by
  obtain ⟨hle, hbound⟩ := hr
  have h := adds_pieces hle hbound habove hgap
    (r.hi / 65536 + 1 - r.lo / 65536) (r.lo / 65536) (Nat.le_refl _)
    (by omega)
  refine ⟨h.grouped, fun row => ?_, ?_⟩
  · refine (h.covered row).trans (or_congr_left ⟨And.right, fun hc => ⟨?_, hc⟩⟩)
    exact Nat.div_le_div_right hc.1
  · refine h.count_eq.trans (congrArg (· + groupRows above) ?_)
    rw [Run.length, Nat.max_eq_left (by omega)]

theorem adds_runs :
    ∀ {runs : List Run}, Separated runs → (∀ r ∈ runs, r.IsValid) →
      Adds (fun row => ∃ r ∈ runs, r.Covers row) (total Run.length runs) []
        (runs.foldr Container.addRun []) := by
  intro runs
  induction runs with
  | nil =>
      intro _ _
      refine ⟨⟨.nil, nofun⟩, fun row => ?_, rfl⟩
      simp [CoveredBy]
  | cons r rest ih =>
      intro hs hv
      have hrest := ih (List.pairwise_cons.1 hs).2
        fun x hx => hv x (List.mem_cons_of_mem _ hx)
      have hadd := adds_run (hv r (List.mem_cons_self ..)) hrest.grouped
        fun row hrow => gap_of_covers hs
          (((hrest.covered row).1 hrow).resolve_right fun ⟨_, hg, _⟩ => by
            cases hg)
      refine ⟨hadd.grouped, fun row => ?_, ?_⟩
      · rw [List.foldr_cons, hadd.covered, hrest.covered]
        simp only [List.mem_cons, exists_eq_or_imp, or_assoc]
      · rw [List.foldr_cons, hadd.count_eq, hrest.count_eq, total]
        omega

-- ================================================== containers

/-- The groups of a set. -/
def groups (s : RowSet) : List Group := s.runs.foldr Container.addRun []

theorem containers_eq (s : RowSet) :
    s.containers = s.groups.map fun g => Container.ofLows g.1 g.2 := rfl

theorem adds_groups (s : RowSet) :
    Adds (· ∈ s) s.cardinality [] s.groups := adds_runs s.separated s.valid

/-- The containers of a set are well formed. -/
theorem grouped_groups (s : RowSet) : Grouped s.groups := s.adds_groups.grouped

/-- The containers of a set have as many rows as the set. -/
theorem cardinalityAll_containers (s : RowSet) :
    Container.cardinalityAll s.containers = s.cardinality := by
  have hmap : ∀ l : List Group, Container.cardinalityAll
      (l.map fun g => Container.ofLows g.1 g.2) = groupRows l := by
    intro l
    induction l with
    | nil => rfl
    | cons g rest ih =>
        show Container.cardinality _ + Container.cardinalityAll _ = _
        rw [ih]
        rfl
  rw [containers_eq, hmap, s.adds_groups.count_eq]
  rfl

/-- The containers of a set have its rows. -/
theorem ofContainers_containers (s : RowSet) :
    ofContainers s.containers = s := by
  refine ext_mem fun row => ?_
  have hrow : row ∈ s ↔ CoveredBy s.groups row := by
    rw [s.adds_groups.covered]
    exact ⟨.inl, fun h => h.resolve_right fun ⟨_, hg, _⟩ => by cases hg⟩
  rw [ofContainers, mem_ofRuns, hrow]
  constructor
  · rintro ⟨r, hr, -, hc⟩
    obtain ⟨container, hcontainer, hr⟩ := List.mem_flatMap.1 hr
    obtain ⟨g, hg, rfl⟩ := List.mem_map.1 hcontainer
    obtain ⟨x, hx, rfl⟩ := List.mem_map.1 hr
    have hlow := ((s.grouped_groups.valid g hg).low x hx).hi_lt
    obtain ⟨h1, h2⟩ := hc
    simp only [Container.ofLows] at h1 h2
    refine ⟨g, hg, by omega, x, hx, ?_, ?_⟩ <;> omega
  · rintro ⟨g, hg, hhigh, x, hx, h1, h2⟩
    have hvalid := s.grouped_groups.valid g hg
    have hlow := hvalid.low x hx
    have hlo := hlow.lo_le
    have hhi := hlow.hi_lt
    have hlt := hvalid.high_lt
    refine ⟨⟨g.1 * 65536 + x.lo, g.1 * 65536 + x.hi⟩,
      List.mem_flatMap.2 ⟨Container.ofLows g.1 g.2,
        List.mem_map_of_mem hg, List.mem_map_of_mem hx⟩, ?_, ?_⟩
    · constructor <;> simp only [Run.bound] <;> omega
    · constructor <;> simp only <;> omega

end MergeOnWrite.RowSet
