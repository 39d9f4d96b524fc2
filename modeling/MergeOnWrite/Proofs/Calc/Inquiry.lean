/-
What a comparison with other rowsets asks, question by question.

The calculation is told once more as a program that asks for the keys and the
segments that it needs, one after the other, and calls the writer itself. What
it asks when is then there to be seen, which the result does not show. That
the program comes to the same is part of what is proved of it.

The questions to the index are known beforehand (`CrossTask.reads`), up to the
first one that fails. Going through reads is a judgement on a program and on
the calculation that it tells (`Asks`), with one rule for each way of putting
them together. It says both which of the reads are made and which error there
is, if any.

# Main statements

- `Asks.bind`, `Asks.foldlM`: reads are made in the order of the program.
- `CrossTask.findings_eq`: the error of the first read that fails, and
  otherwise what the rows add up to.
- `CrossTask.inquire_eq`: the program comes to the same, and calls the writer
  behind all reads.
-/
import MergeOnWrite.Proofs.Calc.Superseded
import MergeOnWrite.Proofs.Program

namespace MergeOnWrite

-- ================================================== questions

/-- A question to a key index. -/
inductive IndexRead where
  | keys (ref : SegmentRef)
  | segments (tablet : TabletId) (rowset : RowsetId)

@[reducible]
def IndexRead.Answer : IndexRead → Type
  | .keys _ => List Bytes
  | .segments .. => List SegmentId

def KeyIndex.read (index : KeyIndex) :
    (r : IndexRead) → Except CalcError r.Answer
  | .keys ref => index.keys ref
  | .segments tablet rowset => index.segments tablet rowset

/-- A question of a calculation: to its index, or a call of its writer. -/
inductive CalcQuestion where
  | read (r : IndexRead)
  | rewrite (call : Rewrite)

@[reducible]
def CalcQuestion.Answer : CalcQuestion → Type
  | .read r => Except CalcError r.Answer
  | .rewrite _ => Except CalcError Unit

/-- A calculation that asks for what it needs. -/
abbrev Calculation (α : Type) :=
  ExceptT CalcError (Program CalcQuestion CalcQuestion.Answer) α

namespace Calculation

variable {α : Type}

def ofResult (result : Except CalcError α) : Calculation α :=
  .mk (.done result)

def read (r : IndexRead) : Calculation r.Answer := .mk (.ask (.read r) .done)

def rewrite (call : Rewrite) : Calculation Unit :=
  .mk (.ask (.rewrite call) .done)

end Calculation

def CalcQuestion.answer (index : KeyIndex) (writer : Option RowsetWriter) :
    (q : CalcQuestion) → q.Answer
  | .read r => index.read r
  | .rewrite call => writer.elim (.ok ()) (·.rewrite call.1)

/-- Answers a question, and notes it behind the earlier ones. -/
def CalcQuestion.note (index : KeyIndex) (writer : Option RowsetWriter)
    (log : List CalcQuestion) (q : CalcQuestion) :
    List CalcQuestion × q.Answer :=
  (log ++ [q], q.answer index writer)

namespace CrossTask

/-- The keys of a segment, each with the place of its row. -/
def askRows (ref : SegmentRef) : Calculation (List (Bytes × Nat)) := do
  return (← Calculation.read (.keys ref)).zipIdx

def inquireSegment (task : CrossTask) (newRows : SortedMap Bytes UInt32)
    (target : RowsetId) (found : CrossFindings) (segment : SegmentId) :
    Calculation CrossFindings := do
  let rows ← askRows ⟨task.tablet, target, segment⟩
  Calculation.ofResult (rows.foldlM (task.compareRow newRows target segment) found)

def inquireTarget (task : CrossTask) (newRows : SortedMap Bytes UInt32)
    (found : CrossFindings) (target : RowsetId) : Calculation CrossFindings := do
  let segments ← Calculation.read (.segments task.tablet target)
  segments.foldlM (task.inquireSegment newRows target) found

/-- Compares the new segment with the other rowsets. -/
def inquiry (task : CrossTask) : Calculation CrossFindings := do
  let ref : SegmentRef := ⟨task.tablet, task.rowset, task.segment⟩
  let newRows ← Calculation.ofResult (lastRows ref (← askRows ref))
  task.targets.foldlM (task.inquireTarget newRows) {}

/-- Calls the writer if some rows supersede others, and marks these. -/
def tell (task : CrossTask) (found : CrossFindings) :
    Calculation DeleteBitmap := do
  if task.writer.isSome ∧ ¬ found.replacing.isEmpty then
    Calculation.rewrite (task.segment, found.replacing)
  return found.marks

def calculation (task : CrossTask) : Calculation DeleteBitmap := do
  task.tell (← task.inquiry)

/-- What a comparison asks in the end, and what it comes to. -/
def inquire (task : CrossTask) (index : KeyIndex) :
    List CalcQuestion × Except CalcError DeleteBitmap :=
  task.calculation.run.run (CalcQuestion.note index task.writer) []

end CrossTask

-- ================================================== going through reads

namespace KeyIndex

/-- Makes some reads until one of them fails: those that were made, and the
error of the last one, if it has failed. -/
def goThrough (index : KeyIndex) :
    List IndexRead → List IndexRead × Option CalcError
  | [] => ([], none)
  | r :: rest =>
    match index.read r with
    | .error e => ([r], some e)
    | .ok _ => ((index.goThrough rest).1.cons r, (index.goThrough rest).2)

variable {index : KeyIndex} {before after reads : List IndexRead}
  {r : IndexRead} {e : CalcError}

/-- Where no read fails all of them are made. -/
theorem goThrough_of_ok (h : ∀ r ∈ reads, ∃ a, index.read r = .ok a) :
    index.goThrough reads = (reads, none) := by
  induction reads with
  | nil => rfl
  | cons r rest ih =>
      obtain ⟨a, ha⟩ := h r (List.mem_cons_self ..)
      rw [goThrough, ha, ih fun r' hr' => h r' (List.mem_cons_of_mem _ hr')]

/-- The first read that fails is the last one to be made. -/
theorem goThrough_of_error (h : ∀ r ∈ before, ∃ a, index.read r = .ok a)
    (hr : index.read r = .error e) :
    index.goThrough (before ++ r :: after) = (before ++ [r], some e) := by
  induction before with
  | nil => rw [List.nil_append, goThrough, hr, List.nil_append]
  | cons r' rest ih =>
      obtain ⟨a, ha⟩ := h r' (List.mem_cons_self ..)
      rw [List.cons_append, goThrough, ha,
        ih fun r'' hr'' => h r'' (List.mem_cons_of_mem _ hr'')]
      rfl

/-- Reads are made behind others only if none of these has failed. -/
theorem goThrough_append (l m : List IndexRead) :
    index.goThrough (l ++ m)
      = match (index.goThrough l).2 with
        | some e => ((index.goThrough l).1, some e)
        | none => ((index.goThrough l).1 ++ (index.goThrough m).1,
            (index.goThrough m).2) := by
  induction l with
  | nil => rfl
  | cons r rest ih =>
      rw [List.cons_append, goThrough, goThrough]
      cases index.read r with
      | error e => rfl
      | ok a =>
          simp only [ih]
          cases (index.goThrough rest).2 <;> rfl

end KeyIndex

-- ================================================== programs that read

/-- True of a program, and of the calculation that it tells, which go through
some reads and come to a value. -/
structure Asks {α : Type} (index : KeyIndex) (writer : Option RowsetWriter)
    (p : Calculation α) (plain : Except CalcError α) (reads : List IndexRead)
    (value : α) : Prop where
  asks : ∀ log, p.run.run (CalcQuestion.note index writer) log
    = (log ++ (index.goThrough reads).1.map .read, plain)
  comes : plain = (index.goThrough reads).2.elim (.ok value) .error

namespace Asks

variable {α β : Type} {index : KeyIndex} {writer : Option RowsetWriter}
  {p : Calculation α} {plain : Except CalcError α} {l m : List IndexRead}
  {a : α}

theorem ofResult (h : plain = .ok a) :
    Asks index writer (.ofResult plain) plain [] a where
  asks log := by
    show (log, plain) = (log ++ [], plain)
    rw [List.append_nil]
  comes := h

theorem pure (a : α) :
    Asks index writer (Pure.pure a) (Pure.pure a) [] a :=
  ofResult rfl

theorem read {r : IndexRead} {a : r.Answer}
    (h : ∀ a', index.read r = .ok a' → a' = a) :
    Asks index writer (.read r) (index.read r) [r] a := by
  have hasks : ∀ log, (Calculation.read r).run.run
      (CalcQuestion.note index writer) log = (log ++ [.read r], index.read r) :=
    fun _ => rfl
  cases hr : index.read r with
  | error e => constructor <;> simp [hasks, KeyIndex.goThrough, hr]
  | ok a' => constructor <;> simp [hasks, KeyIndex.goThrough, hr, h a' hr]

/-- What follows is asked if nothing has failed. -/
theorem bind {f : α → Calculation β} {g : α → Except CalcError β} {b : β}
    (hp : Asks index writer p plain l a)
    (hf : Asks index writer (f a) (g a) m b) :
    Asks index writer (p >>= f) (plain >>= g) (l ++ m) b := by
  have hrun : ∀ log, (p >>= f).run.run (CalcQuestion.note index writer) log
      = Program.run (CalcQuestion.note index writer)
        (ExceptT.bindCont f plain)
        (log ++ (index.goThrough l).1.map .read) := by
    intro log
    have := Program.run_bind (CalcQuestion.note index writer) p.run
      (ExceptT.bindCont f) log
    rw [hp.asks log] at this
    exact this
  have hplain := hp.comes
  cases hl : (index.goThrough l).2 with
  | some e =>
      rw [hl] at hplain
      subst hplain
      constructor
      · intro log
        rw [hrun, KeyIndex.goThrough_append, hl]
        rfl
      · rw [KeyIndex.goThrough_append, hl]
        rfl
  | none =>
      rw [hl] at hplain
      subst hplain
      constructor
      · intro log
        rw [hrun, KeyIndex.goThrough_append, hl, List.map_append,
          ← List.append_assoc]
        exact hf.asks _
      · rw [KeyIndex.goThrough_append, hl]
        exact hf.comes

/-- A loop goes through the reads of its rounds. -/
theorem foldlM {σ ι : Type} {step : σ → ι → Calculation σ}
    {plainStep : σ → ι → Except CalcError σ} {reads : ι → List IndexRead}
    {next : σ → ι → σ} :
    ∀ {items : List ι} {s : σ},
      (∀ s, ∀ i ∈ items,
        Asks index writer (step s i) (plainStep s i) (reads i) (next s i)) →
        Asks index writer (items.foldlM step s) (items.foldlM plainStep s)
          (items.flatMap reads) (items.foldl next s) := by
  intro items
  induction items with
  | nil => intro s _; exact pure s
  | cons i rest ih =>
      intro s h
      rw [List.foldlM_cons, List.foldlM_cons, List.flatMap_cons,
        List.foldl_cons]
      exact (h s i (List.mem_cons_self ..)).bind
        (ih fun s i' hi' => h s i' (List.mem_cons_of_mem _ hi'))

end Asks

-- ================================================== rows whose numbers fit

/-- True of an index none of whose segments has more rows than can be
numbered. -/
def KeyIndex.FitsNumbers (index : KeyIndex) : Prop :=
  ∀ ref keys, index.keys ref = .ok keys → keys.length ≤ UInt32.size

namespace KeyIndex

variable {index : KeyIndex} {tablet : TabletId} {rowset : RowsetId}
  {segment : SegmentId}

/-- What can be read of a segment was entered for it. -/
theorem mem_entries_of_keys {ref : SegmentRef} {keys : List Bytes}
    (h : index.keys ref = .ok keys) : (ref, .keys keys) ∈ index.entries := by
  unfold KeyIndex.keys find? at h
  cases hfound : index.entries.find? (·.1 = ref) with
  | none =>
      rw [hfound] at h
      cases h
  | some entry =>
      obtain ⟨ref', held⟩ := entry
      obtain rfl : ref' = ref := by simpa using List.find?_some hfound
      rw [hfound] at h
      cases held with
      | corrupt message => cases h
      | keys keys' =>
          cases h
          exact List.mem_of_find?_eq_some hfound

theorem FitsNumbers.lt (h : index.FitsNumbers) {ref : SegmentRef}
    {entry : Bytes × Nat} (hentry : entry ∈ (index.readable ref).zipIdx) :
    entry.2 < UInt32.size := by
  have hlt : entry.2 < (index.readable ref).length :=
    (List.getElem?_eq_some_iff.1 (List.mem_zipIdx_iff_getElem?.1 hentry)).1
  unfold readable at hlt
  cases hkeys : index.keys ref with
  | error e =>
      rw [hkeys] at hlt
      exact absurd hlt (Nat.not_lt_zero _)
  | ok keys =>
      rw [hkeys] at hlt
      exact Nat.lt_of_lt_of_le hlt (h ref keys hkeys)

/-- The rows of segments are numbered. -/
theorem FitsNumbers.place_lt (h : index.FitsNumbers) {row : KeyedRow}
    (hrow : row ∈ index.rowsIn tablet rowset segment) :
    row.place < UInt32.size := by
  rw [rowsIn_eq] at hrow
  obtain ⟨entry, hentry, rfl⟩ := List.mem_map.1 hrow
  exact h.lt hentry

end KeyIndex

theorem SegmentRef.rowAt_of_lt {ref : SegmentRef} {place : Nat}
    (h : place < UInt32.size) : ref.rowAt place = .ok place.toUInt32 :=
  if_pos h

namespace CrossTask

variable {index : KeyIndex} {task : CrossTask} {newRows : SortedMap Bytes UInt32}
  {target : RowsetId} {segment : SegmentId} {found : CrossFindings}

/-- The rows of a list by their keys, the last one of each. -/
def newest (rows : List KeyedRow) : SortedMap Bytes UInt32 :=
  rows.foldl (fun last new => last.insert new.key new.place.toUInt32) ∅

/-- What has been found after one more row. -/
def find (task : CrossTask) (newRows : SortedMap Bytes UInt32)
    (found : CrossFindings) (old : KeyedRow) : CrossFindings :=
  match newRows.get? old.key with
  | none => found
  | some newRow =>
    if task.isDeleted old.rowset old.segment old.place.toUInt32 then found
    else
      { marks := found.marks.add (old.entry pendingVersion) old.place.toUInt32
        replacing := found.replacing.insert newRow }

theorem lastRows_eq {ref : SegmentRef} {rows : List (Bytes × Nat)}
    (h : ∀ entry ∈ rows, entry.2 < UInt32.size) :
    lastRows ref rows = .ok (newest (rows.map fun entry =>
      ⟨ref.rowset, ref.segment, entry.2, entry.1⟩)) := by
  rw [newest, List.foldl_map]
  refine foldlM_of_ok fun last entry hentry => ?_
  rw [SegmentRef.rowAt_of_lt (h entry hentry)]
  rfl

theorem compareRow_eq {entry : Bytes × Nat} (h : entry.2 < UInt32.size) :
    task.compareRow newRows target segment found entry
      = .ok (task.find newRows found ⟨target, segment, entry.2, entry.1⟩) := by
  unfold compareRow find
  cases newRows.get? entry.1 with
  | none => rfl
  | some newRow =>
      simp only [SegmentRef.rowAt_of_lt h]
      show (if task.isDeleted target segment entry.2.toUInt32 then Pure.pure found
        else Pure.pure _) = Except.ok (if _ then _ else _)
      split <;> rfl

theorem compareRows_eq {rows : List (Bytes × Nat)}
    (h : ∀ entry ∈ rows, entry.2 < UInt32.size) :
    rows.foldlM (task.compareRow newRows target segment) found
      = .ok ((rows.map fun entry =>
          (⟨target, segment, entry.2, entry.1⟩ : KeyedRow)).foldl
            (task.find newRows) found) := by
  rw [List.foldl_map]
  exact foldlM_of_ok fun found entry hentry => compareRow_eq (h entry hentry)

-- ================================================== the reads of a comparison

/-- The reads that a comparison needs, in the order in which it makes them:
the new segment, and of each target its segments and then their keys. -/
def reads (task : CrossTask) (index : KeyIndex) : List IndexRead :=
  .keys ⟨task.tablet, task.rowset, task.segment⟩
    :: task.targets.flatMap fun target =>
      .segments task.tablet target
        :: (index.segmentsOf task.tablet target).map fun segment =>
          .keys ⟨task.tablet, target, segment⟩

/-- What there is to be found. -/
def allFindings (task : CrossTask) (index : KeyIndex) : CrossFindings :=
  (index.rowsOf task.tablet task.targets).foldl
    (task.find (newest (index.rowsIn task.tablet task.rowset task.segment))) {}

variable {writer : Option RowsetWriter}

theorem asks_rows (ref : SegmentRef) :
    Asks index writer (askRows ref) (index.rows ref) [.keys ref]
      (index.readable ref).zipIdx := by
  have hread : Asks index writer (.read (.keys ref)) (index.keys ref)
      [.keys ref] (index.readable ref) := by
    refine Asks.read (r := .keys ref) fun keys (hkeys : index.keys ref = _) => ?_
    rw [KeyIndex.readable, hkeys]
    rfl
  exact hread.bind (f := fun keys => pure keys.zipIdx)
    (g := fun keys => pure keys.zipIdx) (Asks.pure _)

theorem asks_segments (tablet : TabletId) (target : RowsetId) :
    Asks index writer (.read (.segments tablet target))
      (index.segments tablet target) [.segments tablet target]
      (index.segmentsOf tablet target) := by
  refine Asks.read (r := .segments tablet target)
    fun segments (hsegments : index.segments tablet target = _) => ?_
  unfold KeyIndex.segments at hsegments
  split at hsegments
  · cases hsegments
  · cases hsegments
    rfl

theorem asks_compareSegment (hfits : index.FitsNumbers) :
    Asks index writer (task.inquireSegment newRows target found segment)
      (task.compareSegment index newRows target found segment)
      [.keys ⟨task.tablet, target, segment⟩]
      ((index.rowsIn task.tablet target segment).foldl (task.find newRows)
        found) := by
  rw [KeyIndex.rowsIn_eq]
  exact (asks_rows _).bind (m := [])
    (Asks.ofResult (compareRows_eq fun _ => hfits.lt))

theorem asks_compareTarget (hfits : index.FitsNumbers) :
    Asks index writer (task.inquireTarget newRows found target)
      (task.compareTarget index newRows found target)
      (.segments task.tablet target
        :: (index.segmentsOf task.tablet target).map fun segment =>
          .keys ⟨task.tablet, target, segment⟩)
      ((index.listing task.tablet target
        (index.segmentsOf task.tablet target)).foldl (task.find newRows)
        found) := by
  rw [KeyIndex.listing, List.foldl_flatMap, ← List.flatMap_pure_eq_map]
  exact (asks_segments task.tablet target).bind
    (Asks.foldlM fun found segment _ => asks_compareSegment hfits)

/-- A comparison goes through its reads. -/
theorem asks_findings (hfits : index.FitsNumbers) :
    Asks index writer task.inquiry (task.findings index) (task.reads index)
      (task.allFindings index) := by
  rw [allFindings, KeyIndex.rowsOf, List.foldl_flatMap, KeyIndex.rowsIn_eq]
  refine (asks_rows _).bind (Asks.bind (l := [])
    (Asks.ofResult (lastRows_eq fun _ => hfits.lt)) ?_)
  exact Asks.foldlM fun found target _ => asks_compareTarget hfits

/-- A comparison fails as the first of its reads does that fails, and finds
all there is to be found if none of them does. -/
theorem findings_eq (hfits : index.FitsNumbers) :
    task.findings index = (index.goThrough (task.reads index)).2.elim
      (.ok (task.allFindings index)) .error :=
  have hasks : Asks index none task.inquiry _ _ _ := asks_findings hfits
  hasks.comes

/-- What a comparison comes to once all has been found. -/
def conclude (task : CrossTask) (found : CrossFindings) : CalcRun :=
  match task.writer with
  | none => { result := .ok found.marks }
  | some writer =>
    if found.replacing.isEmpty then { result := .ok found.marks }
    else
      { result := (writer.rewrite task.segment).map fun _ => found.marks
        rewrites := [(task.segment, found.replacing)] }

theorem run_eq :
    task.run index = match task.findings index with
      | .error e => { result := .error e }
      | .ok found => task.conclude found :=
  rfl

theorem run_tell (found : CrossFindings) (log : List CalcQuestion) :
    (task.tell found).run.run (CalcQuestion.note index task.writer) log
      = (log ++ (task.conclude found).rewrites.map .rewrite,
        (task.conclude found).result) := by
  unfold tell conclude
  cases hwriter : task.writer with
  | none =>
      rw [List.map_nil, List.append_nil]
      rfl
  | some writer =>
      cases hempty : found.replacing.isEmpty with
      | true =>
          simp only [if_true, List.map_nil, List.append_nil]
          rfl
      | false =>
          rw [if_pos ⟨rfl, Bool.false_ne_true⟩]
          simp only [Bool.false_eq_true, if_false]
          -- the marks follow if the writer, which is answered now, succeeds
          show Program.run _ (ExceptT.bindCont (fun _ => pure found.marks)
            (writer.rewrite task.segment))
              (log ++ [.rewrite (task.segment, found.replacing)]) = _
          cases writer.rewrite task.segment <;> rfl

/-- Asked question by question, a comparison comes to the same; it makes its
reads, as far as they do not fail, and calls the writer behind them. -/
theorem inquire_eq (hfits : index.FitsNumbers) :
    task.inquire index
      = ((index.goThrough (task.reads index)).1.map .read
          ++ (task.run index).rewrites.map .rewrite,
        (task.run index).result) := by
  have hrun := Program.run_bind (CalcQuestion.note index task.writer)
    task.inquiry.run (ExceptT.bindCont task.tell) []
  rw [(asks_findings hfits).asks] at hrun
  have hinquire : task.inquire index = _ := hrun
  rw [hinquire, run_eq]
  cases task.findings index with
  | error e =>
      rw [List.map_nil, List.append_nil]
      rfl
  | ok found => exact run_tell found _

end CrossTask

end MergeOnWrite
