/-
Handlers that come out well, where nothing is refused.

What a handler comes to on a slate is told by a relation: it comes out well
with a result and leaves another slate (`Handler.Succeeds`). A sequence
comes out well if its parts do, one after the other, so a handler is taken
apart line by line, and put together line by line. Both directions are
needed: from a request that succeeded follows what is stored, and from what
is stored that the same request succeeds again.

Within a transaction only the view counts (`Slate.opened`). Most parts of
handlers are told by an equivalence. Of the loops that write, what they
leave is told if they come out well; that they do is told where they find
nothing to change.

# Main statements

- `Handler.succeeds_bind` and the rules after it: the parts of handlers.
- `Handler.succeeds_grants`, `Handler.releasedOn_of_succeeds`,
  `Handler.putAll_of_succeeds`, `Handler.cleared_of_succeeds`: what the loops
  of handlers find and leave.
- `Handler.succeeds_releases_stale`, `Handler.succeeds_putEntries_again`,
  `Handler.succeeds_removeRowsets_again`: the loops that change nothing.
-/
import Mathlib.Data.List.Forall2
import MergeOnWrite.Proofs.Service.BitmapEffect
import MergeOnWrite.Proofs.Service.Slate

namespace MergeOnWrite

open RowSet

-- ================================================== sequences

/-- A slate with an open transaction, and what this would leave. -/
abbrev Slate.opened (live view : Entries) : Slate :=
  { live, draft := some view }

namespace Handler

variable {α β : Type} {now : Instant} {route : InstanceId → LockVersion}
  {s t : Slate} {live view after : Entries}

/-- On a slate a handler comes out well, with a result, and leaves another
slate. -/
def Succeeds (now : Instant) (route : InstanceId → LockVersion)
    (h : Handler α) (s : Slate) (a : α) (t : Slate) : Prop :=
  Program.run (Slate.answer now route) h.run s = (t, .ok a)

/-- A handler leaves one slate at most. -/
theorem Succeeds.unique {h : Handler α} {a b : α} {u : Slate}
    (ha : h.Succeeds now route s a t) (hb : h.Succeeds now route s b u) :
    t = u :=
  congrArg Prod.fst (ha.symm.trans hb)

theorem succeeds_pure {a b : α} :
    (pure a : Handler α).Succeeds now route s b t ↔ b = a ∧ t = s := by
  constructor
  · intro h
    cases h
    exact ⟨rfl, rfl⟩
  · rintro ⟨rfl, rfl⟩
    rfl

theorem not_succeeds_throw {e : ServiceError} {a : α} :
    ¬(throw e : Handler α).Succeeds now route s a t :=
  nofun

theorem succeeds_bind {h : Handler α} {f : α → Handler β} {b : β} :
    (h >>= f).Succeeds now route s b t
      ↔ ∃ a u, h.Succeeds now route s a u
        ∧ (f a).Succeeds now route u b t := by
  have hrun : Program.run (Slate.answer now route) (h >>= f).run s
      = Program.run (Slate.answer now route)
        (ExceptT.bindCont f (Program.run (Slate.answer now route) h.run s).2)
        (Program.run (Slate.answer now route) h.run s).1 :=
    Program.run_bind ..
  unfold Succeeds
  rw [hrun]
  generalize Program.run (Slate.answer now route) h.run s = x
  obtain ⟨u, result⟩ := x
  cases result with
  | ok a =>
      constructor
      · intro hb
        exact ⟨a, u, rfl, hb⟩
      · rintro ⟨_, _, heq, hb⟩
        cases heq
        exact hb
  | error e =>
      constructor
      · intro hb
        cases hb
      · rintro ⟨_, _, heq, -⟩
        cases heq

-- ================================================== questions

theorem succeeds_ask {q : Question} {x : q.Answer} :
    (ask q).Succeeds now route s x t ↔ s.answer now route q = (t, x) := by
  constructor
  · intro h
    cases h
    rfl
  · intro h
    show ((s.answer now route q).1, Except.ok (s.answer now route q).2) = _
    rw [h]

theorem succeeds_now {x : Question.now.Answer} :
    (ask .now).Succeeds now route s x t ↔ x = now ∧ t = s := by
  rw [succeeds_ask]
  constructor
  · intro h
    cases h
    exact ⟨rfl, rfl⟩
  · rintro ⟨rfl, rfl⟩
    rfl

theorem succeeds_route {i : InstanceId}
    {x : (Question.route i).Answer} :
    (ask (.route i)).Succeeds now route s x t ↔ x = route i ∧ t = s := by
  rw [succeeds_ask]
  constructor
  · intro h
    cases h
    exact ⟨rfl, rfl⟩
  · rintro ⟨rfl, rfl⟩
    rfl

theorem succeeds_report {event : Report}
    {a : (Question.report event).Answer} :
    (ask (.report event)).Succeeds now route s a t ↔ t = s := by
  rw [succeeds_ask]
  constructor
  · intro h
    cases h
    rfl
  · rintro rfl
    rfl

theorem succeeds_put {key value : Bytes}
    {a : (Question.put key value).Answer} :
    (ask (.put key value)).Succeeds now route (.opened live view) a t
      ↔ t = .opened live (view.insert key value) := by
  rw [succeeds_ask]
  constructor
  · intro h
    cases h
    rfl
  · rintro rfl
    rfl

theorem succeeds_remove {key : Bytes}
    {a : (Question.remove key).Answer} :
    (ask (.remove key)).Succeeds now route (.opened live view) a t
      ↔ t = .opened live (view.erase key) := by
  rw [succeeds_ask]
  constructor
  · intro h
    cases h
    rfl
  · rintro rfl
    rfl

/-- A question to the store that is not refused. -/
theorem succeeds_fromStore {context : String}
    {x : Script (Except StoreCode α)} {u : Slate} {b a : α}
    (hx : x.run (Slate.answer now route) s = (u, .ok b)) :
    (fromStore context x).Succeeds now route s a t ↔ a = b ∧ t = u := by
  have hrun : Program.run (Slate.answer now route) (fromStore context x).run s
      = ((x.run (Slate.answer now route) s).1,
        (x.run (Slate.answer now route) s).2.mapError
          (ServiceError.store · context)) :=
    Program.run_bind ..
  unfold Succeeds
  rw [hrun, hx]
  constructor
  · intro h
    cases h
    exact ⟨rfl, rfl⟩
  · rintro ⟨rfl, rfl⟩
    rfl

theorem succeeds_start {a : Unit} :
    start.Succeeds now route s a t ↔ t = .opened s.live s.live :=
  (succeeds_fromStore rfl).trans (and_iff_right rfl)

theorem succeeds_get {context : String} {key : Bytes} {a : Option Bytes} :
    (get context key).Succeeds now route (.opened live view) a t
      ↔ a = view.get? key ∧ t = .opened live view :=
  succeeds_fromStore rfl

theorem succeeds_scan {context : String} {stem : Bytes}
    {a : List (Bytes × Bytes)} :
    (scan context stem).Succeeds now route (.opened live view) a t
      ↔ a = (view.within (.extending stem)).toList
        ∧ t = .opened live view :=
  succeeds_fromStore rfl

theorem succeeds_commit {context : String} {a : Unit} :
    (commit context).Succeeds now route (.opened live view) a t
      ↔ t = { live := view } :=
  (succeeds_fromStore rfl).trans (and_iff_right rfl)

-- ================================================== checks

theorem succeeds_lift {result : Except ServiceError α} {a : α} :
    (liftM result : Handler α).Succeeds now route s a t
      ↔ result = .ok a ∧ t = s := by
  cases result with
  | ok b =>
      refine succeeds_pure.trans (and_congr_left' ?_)
      rw [Except.ok.injEq, eq_comm]
  | error e =>
      constructor
      · intro h
        cases h
      · rintro ⟨h, -⟩
        cases h

theorem succeeds_check {result : Except Failure α} {a : α} :
    (check result).Succeeds now route s a t ↔ result = .ok a ∧ t = s := by
  cases result with
  | ok b =>
      refine succeeds_pure.trans (and_congr_left' ?_)
      rw [Except.ok.injEq, eq_comm]
  | error e =>
      constructor
      · intro h
        cases h
      · rintro ⟨h, -⟩
        cases h

theorem mapError_eq_ok {ε ε' : Type} {f : ε → ε'} {x : Except ε α} {a : α} :
    x.mapError f = .ok a ↔ x = .ok a := by
  cases x with
  | ok b =>
      constructor
      · intro h
        cases h
        rfl
      · intro h
        cases h
        rfl
  | error e => exact ⟨nofun, nofun⟩

theorem succeeds_instanceOf {name : String} {i : InstanceId} :
    (instanceOf name).Succeeds now route s i t
      ↔ InstanceId.ofText name = .ok i ∧ t = s :=
  succeeds_check.trans (and_congr_left' mapError_eq_ok)

theorem succeeds_rowsetOf {name : String} {rowset : RowsetId} :
    (rowsetOf name).Succeeds now route s rowset t
      ↔ RowsetId.ofText name = .ok rowset ∧ t = s :=
  succeeds_check.trans (and_congr_left' mapError_eq_ok)

theorem succeeds_rowsOf {bytes : Bytes} {containers : List Container} :
    (rowsOf bytes).Succeeds now route s containers t
      ↔ Container.decodeAll bytes = .ok containers ∧ t = s :=
  succeeds_check.trans (and_congr_left' mapError_eq_ok)

theorem succeeds_stored {decode? : Bytes → Option α} {what : String}
    {bytes : Option Bytes} {record : Option α} :
    (stored decode? what bytes).Succeeds now route s record t
      ↔ bytes.map decode? = record.map some ∧ t = s := by
  cases bytes with
  | none =>
      refine succeeds_pure.trans (and_congr_left' ?_)
      cases record <;> simp
  | some bytes =>
      simp only [stored, Option.map_some]
      cases decode? bytes with
      | none =>
          refine ⟨fun h => (not_succeeds_throw h).elim, ?_⟩
          rintro ⟨h, -⟩
          cases record <;> simp at h
      | some found =>
          refine succeeds_pure.trans (and_congr_left' ?_)
          cases record <;> simp [eq_comm]

/-- The version that callers take for granted is the one that is in use. -/
theorem succeeds_versionOf {i : InstanceId} {taken : Option LockVersion}
    {version : LockVersion} :
    (versionOf i taken).Succeeds now route s version t
      ↔ version = route i ∧ (∀ v, taken = some v → v = route i) ∧ t = s := by
  rw [versionOf, succeeds_bind]
  constructor
  · rintro ⟨_, _, hroute, h⟩
    obtain ⟨rfl, rfl⟩ := succeeds_route.1 hroute
    cases taken with
    | none =>
        obtain ⟨rfl, rfl⟩ := succeeds_pure.1 h
        exact ⟨rfl, nofun, rfl⟩
    | some v =>
        simp only at h
        split at h
        · rename_i hv
          obtain ⟨rfl, rfl⟩ := succeeds_pure.1 h
          exact ⟨rfl, fun _ h => Option.some.inj h ▸ hv, rfl⟩
        · exact (not_succeeds_throw h).elim
  · rintro ⟨rfl, htaken, rfl⟩
    refine ⟨_, _, succeeds_route.2 ⟨rfl, rfl⟩, ?_⟩
    cases taken with
    | none => exact succeeds_pure.2 ⟨rfl, rfl⟩
    | some v =>
        simp only
        rw [if_pos (htaken v rfl)]
        exact succeeds_pure.2 ⟨rfl, rfl⟩

-- ================================================== records

theorem succeeds_readLock {i : InstanceId} {scope : LockScope}
    {current : Option LockRecord} :
    (readLock i scope).Succeeds now route (.opened live view) current t
      ↔ view.HasLock i scope current ∧ t = .opened live view := by
  rw [readLock, succeeds_bind]
  simp only [succeeds_get, succeeds_stored]
  constructor
  · rintro ⟨_, _, ⟨rfl, rfl⟩, h, rfl⟩
    exact ⟨h, rfl⟩
  · rintro ⟨h, rfl⟩
    exact ⟨_, _, ⟨rfl, rfl⟩, h, rfl⟩

theorem succeeds_readStats {i : InstanceId} {table : TableId}
    {tablet : TabletId} {stats : TabletStats} :
    (readStats i table tablet).Succeeds now route (.opened live view) stats t
      ↔ (∃ record, view.HasStats i table tablet record
          ∧ stats = record.getD { tablet := tablet.val })
        ∧ t = .opened live view := by
  rw [readStats, succeeds_bind]
  simp only [succeeds_get, succeeds_bind, succeeds_stored, succeeds_pure]
  constructor
  · rintro ⟨_, _, ⟨rfl, rfl⟩, record, _, ⟨h, rfl⟩, hstats, rfl⟩
    exact ⟨⟨record, h, hstats⟩, rfl⟩
  · rintro ⟨⟨record, h, hstats⟩, rfl⟩
    exact ⟨_, _, ⟨rfl, rfl⟩, record, _, ⟨h, rfl⟩, hstats, rfl⟩


theorem succeeds_mapM_readStats {i : InstanceId} {table : TableId} :
    ∀ {tablets : List TabletId} {stats : List TabletStats},
      (tablets.mapM (readStats i table)).Succeeds now route
          (.opened live view) stats t
        ↔ List.Forall₂ (fun tablet (s : TabletStats) =>
            ∃ record, view.HasStats i table tablet record
              ∧ s = record.getD { tablet := tablet.val }) tablets stats
          ∧ t = .opened live view := by
  intro tablets
  induction tablets with
  | nil =>
      intro stats
      rw [List.mapM_nil, succeeds_pure]
      refine and_congr_left' ?_
      rw [List.forall₂_nil_left_iff]
  | cons tablet rest ih =>
      intro stats
      rw [List.mapM_cons, succeeds_bind]
      simp only [succeeds_readStats, succeeds_bind, succeeds_pure]
      constructor
      · rintro ⟨s, _, ⟨hs, rfl⟩, others, _, hothers, rfl, rfl⟩
        obtain ⟨hall, rfl⟩ := ih.1 hothers
        exact ⟨.cons hs hall, rfl⟩
      · rintro ⟨hall, rfl⟩
        cases hall with
        | cons hs hothers =>
            exact ⟨_, _, ⟨hs, rfl⟩, _, _, ih.2 ⟨hothers, rfl⟩, rfl, rfl⟩

theorem statsChange_of_succeeds {i : InstanceId} {table : TableId}
    {tablet : TabletId} {entries rows : Int} {a : Unit}
    (h : (changeStats i table tablet entries rows).Succeeds now route
      (.opened live view) a t) :
    ∃ after, StatsChange i table tablet entries rows view after
      ∧ t = .opened live after := by
  unfold changeStats at h
  split at h
  · rename_i hzero
    obtain ⟨-, rfl⟩ := succeeds_pure.1 h
    exact ⟨view, .inl ⟨hzero.1, hzero.2, rfl⟩, rfl⟩
  · obtain ⟨stats, _, hstats, h⟩ := succeeds_bind.1 h
    obtain ⟨⟨record, hrecord, rfl⟩, rfl⟩ := succeeds_readStats.1 hstats
    exact ⟨_, .inr ⟨record, hrecord, rfl⟩, succeeds_put.1 h⟩

/-- Where nothing changes the statistics are not read. -/
theorem succeeds_changeStats_zero {i : InstanceId} {table : TableId}
    {tablet : TabletId} :
    (changeStats i table tablet 0 0).Succeeds now route s () s :=
  succeeds_pure.2 ⟨rfl, rfl⟩

-- ================================================== the lock

theorem succeeds_grants {i : InstanceId} {kind : LockKind} {initiator : Int64}
    {time expiration : Instant} :
    ∀ {scopes : List LockScope} {granted : List Grant},
      (grants i kind initiator time expiration scopes).Succeeds now route
          (.opened live view) granted t
        ↔ granted.map (·.scope) = scopes
          ∧ (∀ g ∈ granted,
            GrantedOn ⟨view, view⟩ i kind initiator time expiration g)
          ∧ t = .opened live view := by
  intro scopes
  induction scopes with
  | nil =>
      intro granted
      rw [grants, succeeds_pure]
      constructor
      · rintro ⟨rfl, rfl⟩
        exact ⟨rfl, nofun, rfl⟩
      · rintro ⟨hmap, -, rfl⟩
        exact ⟨List.map_eq_nil_iff.1 hmap, rfl⟩
  | cons scope rest ih =>
      intro granted
      rw [grants, succeeds_bind]
      simp only [succeeds_readLock]
      constructor
      · rintro ⟨current, _, ⟨hcurrent, rfl⟩, h⟩
        split at h
        · obtain ⟨_, _, -, h⟩ := succeeds_bind.1 h
          exact (not_succeeds_throw h).elim
        · rename_i record outcome hacquire
          obtain ⟨others, _, hothers, h⟩ := succeeds_bind.1 h
          obtain ⟨rfl, rfl⟩ := succeeds_pure.1 h
          obtain ⟨hmap, hall, rfl⟩ := ih.1 hothers
          refine ⟨congrArg (scope :: ·) hmap, ?_, rfl⟩
          intro g hg
          rcases List.mem_cons.1 hg with rfl | hg
          · exact ⟨current, hcurrent, hacquire⟩
          · exact hall g hg
      · rintro ⟨hmap, hall, rfl⟩
        cases granted with
        | nil => cases hmap
        | cons g others =>
            obtain ⟨rfl, hothers⟩ := List.cons.inj hmap
            obtain ⟨current, hcurrent, hacquire⟩ :=
              hall g (List.mem_cons_self ..)
            refine ⟨current, _, ⟨hcurrent, rfl⟩, ?_⟩
            simp only [hacquire]
            refine succeeds_bind.2 ⟨others, _, ih.2 ⟨hothers, ?_, rfl⟩,
              succeeds_pure.2 ⟨rfl, rfl⟩⟩
            intro g' hg'
            exact hall g' (List.mem_cons_of_mem _ hg')

/-- The entries after some have been put. -/
theorem succeeds_puts {key value : α → Bytes} :
    ∀ {l : List α} {view : Entries} {a : Unit},
      (l.forM fun x => ask (.put (key x) (value x))).Succeeds now route
          (.opened live view) a t
        ↔ t = .opened live (l.foldl
          (fun entries x => entries.insert (key x) (value x)) view) := by
  intro l
  induction l with
  | nil =>
      intro view a
      exact succeeds_pure.trans (and_iff_right rfl)
  | cons x rest ih =>
      intro view a
      refine succeeds_bind.trans ?_
      constructor
      · rintro ⟨_, _, hput, hrest⟩
        obtain rfl := succeeds_put.1 hput
        exact ih.1 hrest
      · intro h
        exact ⟨(), _, succeeds_put.2 rfl, ih.2 h⟩

theorem succeeds_reports {event : α → Report} :
    ∀ {l : List α} {a : Unit},
      (l.forM fun x => ask (.report (event x))).Succeeds now route s a t
        ↔ t = s := by
  intro l
  induction l with
  | nil =>
      intro a
      exact succeeds_pure.trans (and_iff_right rfl)
  | cons x rest ih =>
      intro a
      refine succeeds_bind.trans ?_
      constructor
      · rintro ⟨_, _, hreport, hrest⟩
        obtain rfl := succeeds_report.1 hreport
        exact ih.1 hrest
      · intro h
        exact ⟨(), _, succeeds_report.2 rfl, ih.2 h⟩


/-- True of the outcome of a scope that is given up, by its record. -/
def ReleaseTold (entries : Entries) (i : InstanceId) (kind : LockKind)
    (initiator : Int64) (scope : LockScope) (outcome : LockOutcome) : Prop :=
  ∃ current, entries.HasLock i scope current
    ∧ outcome = (LockRecord.release current kind initiator).outcome

/-- A scope that is given up leaves what its record says, and the outcome of
each is told. -/
theorem releasedOn_of_succeeds {i : InstanceId} {kind : LockKind}
    {initiator : Int64} :
    ∀ {scopes : List LockScope} {view : Entries} {outcomes : List LockOutcome},
      scopes.Pairwise (fun a b => a.keyBytes i ≠ b.keyBytes i) →
      (releases i kind initiator scopes).Succeeds now route
        (.opened live view) outcomes t →
      ∃ after, ReleasedOn i kind initiator scopes view after
        ∧ List.Forall₂ (ReleaseTold view i kind initiator) scopes outcomes
        ∧ t = .opened live after := by
  intro scopes
  induction scopes with
  | nil =>
      intro view outcomes _ h
      obtain ⟨rfl, rfl⟩ := succeeds_pure.1 h
      exact ⟨view, ⟨nofun, fun _ _ => rfl⟩, .nil, rfl⟩
  | cons scope rest ih =>
      intro view outcomes hdistinct h
      obtain ⟨hscope, hrest⟩ := List.pairwise_cons.1 hdistinct
      obtain ⟨current, _, hread, h⟩ := succeeds_bind.1 h
      obtain ⟨hcurrent, rfl⟩ := succeeds_readLock.1 hread
      -- what is left of the loop, once this scope has been given up
      have hgoes : ∀ mid,
          (∀ key, mid.get? key = if key = scope.keyBytes i then
            (LockRecord.release current kind initiator).leaves
              (view.get? key) else view.get? key) →
          Succeeds now route (do
            return (LockRecord.release current kind initiator).outcome
              :: (← releases i kind initiator rest))
            (.opened live mid) outcomes t →
          ∃ after, ReleasedOn i kind initiator (scope :: rest) view after
            ∧ List.Forall₂ (ReleaseTold view i kind initiator)
              (scope :: rest) outcomes
            ∧ t = .opened live after := by
        intro mid hmid hothers
        obtain ⟨others, _, hothers, hdone⟩ := succeeds_bind.1 hothers
        obtain ⟨rfl, rfl⟩ := succeeds_pure.1 hdone
        obtain ⟨after, hafter, htold, rfl⟩ := ih hrest hothers
        refine ⟨after, releasedOn_cons hscope hcurrent hmid hafter,
          .cons ⟨current, hcurrent, rfl⟩ ?_, rfl⟩
        -- the other scopes still have the records that they had before
        refine ((List.forall₂_and_left _ _).2 ⟨hscope, htold⟩).imp ?_
        intro other outcome ⟨hne, current, hcurrent, houtcome⟩
        refine ⟨current, ?_, houtcome⟩
        rw [Entries.HasLock, hmid, if_neg (Ne.symm hne)] at hcurrent
        exact hcurrent
      cases hrelease : LockRecord.release current kind initiator with
      | delete =>
          simp only [hrelease] at h
          obtain ⟨_, _, hremove, h⟩ := succeeds_bind.1 h
          obtain rfl := succeeds_remove.1 hremove
          refine hgoes _ (fun key => ?_) (by rw [hrelease]; exact h)
          rw [hrelease]
          by_cases hkey : key = scope.keyBytes i
          · rw [if_pos hkey, hkey]
            exact SortedMap.get?_erase_self ..
          · rw [if_neg hkey]
            exact SortedMap.get?_erase_of_ne _ hkey
      | rewrite record =>
          simp only [hrelease] at h
          obtain ⟨_, _, hput, h⟩ := succeeds_bind.1 h
          obtain rfl := succeeds_put.1 hput
          refine hgoes _ (fun key => ?_) (by rw [hrelease]; exact h)
          rw [hrelease]
          by_cases hkey : key = scope.keyBytes i
          · rw [if_pos hkey, hkey]
            exact SortedMap.get?_insert_self ..
          · rw [if_neg hkey]
            exact SortedMap.get?_insert_of_ne _ _ hkey
      | stale reason =>
          simp only [hrelease] at h
          refine hgoes _ (fun key => ?_) (by rw [hrelease]; exact h)
          rw [hrelease]
          split <;> rfl

theorem succeeds_releases_stale {i : InstanceId} {kind : LockKind}
    {initiator : Int64} :
    ∀ {scopes : List LockScope},
      (∀ scope ∈ scopes, ∃ current reason, view.HasLock i scope current
        ∧ LockRecord.release current kind initiator = .stale reason) →
      (releases i kind initiator scopes).Succeeds now route
        (.opened live view) (scopes.map fun _ => .staleRelease)
        (.opened live view) := by
  intro scopes
  induction scopes with
  | nil => intro _; exact succeeds_pure.2 ⟨rfl, rfl⟩
  | cons scope rest ih =>
      intro h
      obtain ⟨current, reason, hcurrent, hstale⟩ :=
        h scope (List.mem_cons_self ..)
      have hrest := ih fun other hother =>
        h other (List.mem_cons_of_mem _ hother)
      refine succeeds_bind.2
        ⟨current, _, succeeds_readLock.2 ⟨hcurrent, rfl⟩, ?_⟩
      simp only [hstale]
      refine succeeds_bind.2 ⟨_, _, succeeds_pure.2 ⟨rfl, rfl⟩, ?_⟩
      exact succeeds_bind.2 ⟨_, _, hrest, succeeds_pure.2 ⟨rfl, rfl⟩⟩

theorem succeeds_checkHolder {i : InstanceId} {table : TableId}
    {tablet : TabletId} {kind : LockKind} {initiator : Int64} {a : Unit} :
    (checkHolder i table tablet kind initiator).Succeeds now route
        (.opened live view) a t
      ↔ (∃ current,
          view.HasLock i (.guarding (route i) table tablet) current
            ∧ LockRecord.holds current kind initiator now = true)
        ∧ t = .opened live view := by
  rw [checkHolder, succeeds_bind]
  constructor
  · rintro ⟨_, _, hroute, h⟩
    obtain ⟨rfl, rfl⟩ := succeeds_route.1 hroute
    obtain ⟨current, _, hread, h⟩ := succeeds_bind.1 h
    obtain ⟨hcurrent, rfl⟩ := succeeds_readLock.1 hread
    obtain ⟨time, _, hnow, h⟩ := succeeds_bind.1 h
    obtain ⟨htime, rfl⟩ := succeeds_now.1 hnow
    rw [htime] at h
    split at h
    · rename_i hholds
      exact ⟨⟨current, hcurrent, hholds⟩, (succeeds_pure.1 h).2⟩
    · exact (not_succeeds_throw h).elim
  · rintro ⟨⟨current, hcurrent, hholds⟩, rfl⟩
    refine ⟨_, _, succeeds_route.2 ⟨rfl, rfl⟩, ?_⟩
    refine succeeds_bind.2 ⟨_, _, succeeds_readLock.2 ⟨hcurrent, rfl⟩, ?_⟩
    refine succeeds_bind.2 ⟨_, _, succeeds_now.2 ⟨rfl, rfl⟩, ?_⟩
    rw [if_pos hholds]
    exact succeeds_pure.2 ⟨rfl, rfl⟩

-- ================================================== bitmaps

theorem putAll_of_succeeds {i : InstanceId} {tablet : TabletId} :
    ∀ {l : List (BitmapKey × RowSet)} {view : Entries} {change : Int × Int},
      (putEntries i tablet l).Succeeds now route (.opened live view) change
        t → t = .opened live (view.putAll i tablet l) := by
  intro l
  induction l with
  | nil =>
      intro view change h
      exact (succeeds_pure.1 h).2
  | cons e rest ih =>
      intro view change h
      obtain ⟨key, rows⟩ := e
      rw [putEntries] at h
      obtain ⟨held, _, hget, h⟩ := succeeds_bind.1 h
      obtain ⟨rfl, rfl⟩ := succeeds_get.1 hget
      -- what is left of the loop, once the stored entry has been read
      have hgoes : ∀ found : Int × Nat, Succeeds now route (do
            ask (.put (.ofText (Key.entry i tablet key.rowset key.segment
              key.version)) rows.encode)
            let change ← putEntries i tablet rest
            return (change.1 + found.1,
              change.2 + rows.cardinality - found.2))
          (.opened live view) change t →
          t = .opened live (view.putAll i tablet ((key, rows) :: rest)) := by
        intro found h
        obtain ⟨_, _, hput, h⟩ := succeeds_bind.1 h
        obtain rfl := succeeds_put.1 hput
        obtain ⟨others, _, hothers, h⟩ := succeeds_bind.1 h
        obtain ⟨-, rfl⟩ := succeeds_pure.1 h
        exact ih hothers
      split at h
      · obtain ⟨_, _, hfound, h⟩ := succeeds_bind.1 h
        obtain ⟨-, rfl⟩ := succeeds_pure.1 hfound
        exact hgoes _ h
      · obtain ⟨containers, _, hrows, h⟩ := succeeds_bind.1 h
        obtain ⟨-, rfl⟩ := succeeds_rowsOf.1 hrows
        obtain ⟨_, _, hfound, h⟩ := succeeds_bind.1 h
        obtain ⟨-, rfl⟩ := succeeds_pure.1 hfound
        exact hgoes _ h

/-- To store what is there already changes nothing, and no numbers. -/
theorem succeeds_putEntries_again {i : InstanceId} {tablet : TabletId} :
    ∀ {l : List (BitmapKey × RowSet)},
      (∀ e ∈ l, view.get? (e.1.stored i tablet) = some e.2.encode) →
      (putEntries i tablet l).Succeeds now route (.opened live view) (0, 0)
        (.opened live view) := by
  intro l
  induction l with
  | nil => intro _; exact succeeds_pure.2 ⟨rfl, rfl⟩
  | cons e rest ih =>
      intro h
      obtain ⟨key, rows⟩ := e
      have hheld : view.get? (.ofText (Key.entry i tablet key.rowset
          key.segment key.version)) = some rows.encode :=
        h (key, rows) (List.mem_cons_self ..)
      have hrest := ih fun e he => h e (List.mem_cons_of_mem _ he)
      have hrows : Container.decodeAll rows.encode = .ok rows.containers := by
        have hdecode := rows.decodeAll_encode []
        rwa [List.append_nil] at hdecode
      have hsame : view.insert (.ofText (Key.entry i tablet key.rowset
          key.segment key.version)) rows.encode = view :=
        SortedMap.insert_of_get? hheld
      rw [putEntries]
      refine succeeds_bind.2 ⟨_, _, succeeds_get.2 ⟨rfl, rfl⟩, ?_⟩
      rw [hheld]
      refine succeeds_bind.2 ⟨_, _, succeeds_rowsOf.2 ⟨hrows, rfl⟩, ?_⟩
      refine succeeds_bind.2 ⟨_, _, succeeds_pure.2 ⟨rfl, rfl⟩, ?_⟩
      refine succeeds_bind.2 ⟨(), _, succeeds_put.2 rfl, ?_⟩
      rw [hsame]
      refine succeeds_bind.2 ⟨_, _, hrest, succeeds_pure.2 ⟨?_, rfl⟩⟩
      rw [rows.cardinalityAll_containers]
      simp

theorem eraseAll_of_succeeds :
    ∀ {l : List (Bytes × Bytes)} {view : Entries} {rows : Nat},
      (removeEntries l).Succeeds now route (.opened live view) rows t →
      t = .opened live (view.eraseAll l) := by
  intro l
  induction l with
  | nil =>
      intro view rows h
      exact (succeeds_pure.1 h).2
  | cons e rest ih =>
      intro view rows h
      obtain ⟨_, _, hrows, h⟩ := succeeds_bind.1 h
      obtain ⟨-, rfl⟩ := succeeds_rowsOf.1 hrows
      obtain ⟨_, _, hremove, h⟩ := succeeds_bind.1 h
      obtain rfl := succeeds_remove.1 hremove
      obtain ⟨_, _, hrest, h⟩ := succeeds_bind.1 h
      obtain ⟨-, rfl⟩ := succeeds_pure.1 h
      exact ih hrest

theorem cleared_of_succeeds {i : InstanceId} {tablet : TabletId} :
    ∀ {names : List String} {view : Entries} {removed : Nat × Nat},
      (removeRowsets i tablet names).Succeeds now route (.opened live view)
        removed t →
      ∃ after, view.Cleared i tablet names after ∧ t = .opened live after := by
  intro names
  induction names with
  | nil =>
      intro view removed h
      exact ⟨view, .nil .., (succeeds_pure.1 h).2⟩
  | cons name rest ih =>
      intro view removed h
      obtain ⟨rowset, _, hof, h⟩ := succeeds_bind.1 h
      obtain ⟨hrowset, rfl⟩ := succeeds_rowsetOf.1 hof
      obtain ⟨entries, _, hscan, h⟩ := succeeds_bind.1 h
      obtain ⟨rfl, rfl⟩ := succeeds_scan.1 hscan
      obtain ⟨_, _, hrows, h⟩ := succeeds_bind.1 h
      obtain rfl := eraseAll_of_succeeds hrows
      obtain ⟨_, _, hothers, h⟩ := succeeds_bind.1 h
      obtain ⟨-, rfl⟩ := succeeds_pure.1 h
      obtain ⟨after, hafter, rfl⟩ := ih hothers
      exact ⟨after, hafter.cons hrowset, rfl⟩

/-- To remove what is not there changes nothing, and no numbers. -/
theorem succeeds_removeRowsets_again {i : InstanceId} {tablet : TabletId} :
    ∀ {names : List String},
      (∀ name ∈ names, (RowsetId.mk name).IsValid) →
      (∀ key, (∃ name ∈ names, Bytes.ofText (Key.rowsetStem i tablet ⟨name⟩)
        <+: key) → view.get? key = none) →
      (removeRowsets i tablet names).Succeeds now route (.opened live view)
        (0, 0) (.opened live view) := by
  intro names
  induction names with
  | nil => intro _ _; exact succeeds_pure.2 ⟨rfl, rfl⟩
  | cons name rest ih =>
      intro hvalid hgone
      have hrest := ih
        (fun other hother => hvalid other (List.mem_cons_of_mem _ hother))
        (fun key ⟨other, hother, hstem⟩ =>
          hgone key ⟨other, List.mem_cons_of_mem _ hother, hstem⟩)
      have hnone : (view.within (.extending
          (.ofText (Key.rowsetStem i tablet ⟨name⟩)))).toList = [] := by
        refine List.eq_nil_iff_forall_not_mem.2 fun e he => ?_
        have hget := SortedMap.mem_toList_iff.1 he
        rw [Entries.get?_within] at hget
        split at hget
        · rename_i hstem
          rw [hgone e.1 ⟨name, List.mem_cons_self ..,
            KeyRange.contains_extending.1 hstem⟩] at hget
          cases hget
        · cases hget
      refine succeeds_bind.2 ⟨⟨name⟩, _, succeeds_rowsetOf.2
        ⟨RowsetId.ofText_eq (hvalid name (List.mem_cons_self ..)), rfl⟩, ?_⟩
      refine succeeds_bind.2 ⟨_, _, succeeds_scan.2 ⟨rfl, rfl⟩, ?_⟩
      rw [hnone]
      refine succeeds_bind.2 ⟨0, _, succeeds_pure.2 ⟨rfl, rfl⟩, ?_⟩
      exact succeeds_bind.2 ⟨_, _, hrest, succeeds_pure.2 ⟨rfl, rfl⟩⟩

end Handler

end MergeOnWrite
