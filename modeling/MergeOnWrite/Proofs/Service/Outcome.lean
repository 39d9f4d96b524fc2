/-
How races end.

Loads never refuse each other. So a load that is refused a commit was
overtaken by another one, and with as many retries as there are others it
is granted its scopes at last.

Of callers of other classes on a common scope only one wins. Whoever is
refused a commit finds the record of the winner with its next attempt and
is told that the lock is held, so that one retry is enough.

# Main statements

- `Contest.sound_start`: the invariant holds at the start, if there are
  enough retries for all refusals that there can be.
- `Contest.allJoin`, `Contest.oneWins`: what a race that is over has come
  to.
- `races_resolve`: every race ends, and how.
-/
import MergeOnWrite.Proofs.Service.Race

namespace MergeOnWrite

/-- True of requests that are in order at a time. -/
def AcquireLock.IsWellFormed (route : InstanceId → LockVersion)
    (config : LockConfig) (now : Instant) (r : AcquireLock) : Prop :=
  ∃ b : Bid, b.now = now ∧ r.Places route config b

namespace Contest

variable {n : Nat} {c : Contest n} {bids : Fin n → Bid} {s : Race n}
  {winners : List (Fin n)} {entries : Entries} {i : InstanceId}
  {scope : LockScope} {kind : LockKind} {initiator : Int64} {j k : Fin n}

-- ================================================== the start

/-- True of contests of well-formed requests, with retries after conflicts
and without replays, on a store where no lease runs on any of their scopes
and where the wanted statistics can be read, if there are any. -/
structure WellPosed (c : Contest n) : Prop where
  retries : c.config.retry.enabled = true
  conflicts : c.config.retry.retryConflict = true
  noReplays : c.config.replay.enabled = false
  isClockTime : c.clock.IsClockTime
  wellFormed : ∀ k,
    (c.requests k).IsWellFormed c.route c.config.lock c.clock
  free : ∀ k i scope, c.Names k i scope → ∃ current,
    c.initial.live.HasLock i scope current
      ∧ ∀ record, current = some record → record.isExpired c.clock = true
  stats : ∀ k i, InstanceId.ofText (c.requests k).instanceName = .ok i →
    (c.requests k).FindsStats i c.initial.live

/-- True of what the requests of a contest ask for. -/
def Reads (c : Contest n) (bids : Fin n → Bid) : Prop :=
  ∀ k, (bids k).now = c.clock
    ∧ (c.requests k).Places c.route c.config.lock (bids k)

theorem WellPosed.exists_bids (h : c.WellPosed) : ∃ bids, c.Reads bids :=
  ⟨fun k => (h.wellFormed k).choose, fun k => (h.wellFormed k).choose_spec⟩

theorem Reads.names_iff (h : c.Reads bids) :
    c.Names k i scope ↔ i = (bids k).i ∧ scope ∈ (bids k).scopes := by
  have hplaces := (h k).2
  refine ⟨fun ⟨hi, scopes, hscopes, hscope⟩ => ?_, ?_⟩
  · obtain rfl := Except.ok.inj (hi.symm.trans hplaces.instance_eq)
    obtain rfl := Except.ok.inj (hscopes.symm.trans hplaces.scopes_eq)
    exact ⟨rfl, hscope⟩
  · rintro ⟨rfl, hscope⟩
    exact ⟨hplaces.instance_eq, _, hplaces.scopes_eq, hscope⟩

/-- Who takes a scope is of the class and the name that its request says. -/
theorem Reads.takes_iff (h : c.Reads bids) :
    c.Takes winners i scope kind initiator ↔ ∃ k ∈ winners, c.Names k i scope
      ∧ (bids k).kind = kind ∧ (bids k).initiator = initiator := by
  have hiff : ∀ k, (LockKind.ofTakingLockId (c.requests k).lockId = .ok kind
      ∧ (c.requests k).initiator = initiator)
        ↔ (bids k).kind = kind ∧ (bids k).initiator = initiator := by
    intro k
    rw [(h k).2.kind_eq, (h k).2.initiator_eq, Except.ok.injEq]
  simp only [Takes, hiff]

theorem Reads.lockId_eq (h : c.Reads bids) (k : Fin n) :
    (bids k).kind.lockId = (c.requests k).lockId :=
  LockKind.lockId_of_ofLockId
    (LockKind.ofLockId_of_ofTakingLockId (h k).2.kind_eq)

theorem Reads.isTold (h : c.Reads bids) (k : Fin n) : (bids k).kind.IsTold :=
  LockKind.isTold_of_ofTakingLockId (h k).2.kind_eq

/-- At the start nobody holds a scope. -/
theorem WellPosed.standing (h : c.WellPosed) :
    c.Standing [] c.initial.live := by
  refine ⟨fun k i scope hnames => ?_, h.stats⟩
  obtain ⟨current, hcurrent, hexpired⟩ := h.free k i scope hnames
  refine ⟨current, hcurrent,
    (LockRecord.heldBy_of_expired hexpired).congr fun kind initiator => ?_⟩
  simp [Takes]

/-- Who is refused a scope finds that others hold it. -/
theorem Standing.busy_of_isRefusedOn (h : c.Standing winners entries)
    (hbids : c.Reads bids) (hrefused : (bids k).IsRefusedOn entries) :
    ∃ scope current holder,
      LockRecord.HeldBy current c.clock (c.Takes winners (bids k).i scope)
        ∧ LockRecord.acquire current (bids k).kind (bids k).initiator c.clock
          (bids k).expiration = .busy holder := by
  obtain ⟨scope, hscope, current, holder, hcurrent, hbusy⟩ := hrefused
  obtain ⟨current', hcurrent', hheld⟩ :=
    h.held k _ scope (hbids.names_iff.2 ⟨rfl, hscope⟩)
  obtain rfl := hcurrent.unique hcurrent'
  rw [Bid.decides, (hbids k).1] at hbusy
  exact ⟨scope, current, holder, hheld, hbusy⟩

/-- What a request may rely on in a race. -/
theorem WellPosed.suits (h : c.WellPosed) (hbids : c.Reads bids) (k : Fin n) :
    (c.odds k).Suits c.config.lock (c.requests k) (bids k) := by
  obtain ⟨hnow, hplaces⟩ := hbids k
  refine ⟨hplaces, hnow ▸ h.isClockTime, hnow,
    fun refusals entries hfinds => ?_, fun d heffect => ?_⟩
  · obtain ⟨others, -, -, hstanding⟩ := hfinds
    refine ⟨fun scope hscope => ?_, hstanding.stats k _ hplaces.instance_eq⟩
    obtain ⟨current, hcurrent, -⟩ :=
      hstanding.held k _ scope (hbids.names_iff.2 ⟨rfl, hscope⟩)
    exact ⟨current, hcurrent⟩
  · refine ⟨(bids k).i, (bids k).kind, (bids k).scopes, (bids k).now,
      (bids k).expiration, ?_⟩
    rw [hnow] at heffect ⊢
    exact heffect

/-- The invariant holds at the start, if there are enough retries for all
refusals that there can be. -/
theorem sound_start (h : c.WellPosed) (hbids : c.Reads bids)
    (hmost : ∀ k refusals, (c.odds k).MayRefuse (bids k) refusals →
      refusals < c.config.retry.maxRetries.toNat) :
    c.start.Sound c bids [] := by
  refine ⟨.nil, Nat.le_refl _, h.standing, fun k => ⟨0, nofun, nofun,
    Nat.le_refl _, fun base _ _ => ?_⟩⟩
  exact Call.contends_serve (h.suits hbids k) h.retries h.conflicts h.noReplays
    (hmost k)

-- ================================================== loads

/-- True of races that granted all requests, and left on each scope a record
that lists exactly who asked for it. -/
def AllJoin (c : Contest n) (s : Race n) : Prop :=
  (∀ k, s.code? k = some .ok)
    ∧ ∀ k i scope, c.Names k i scope → ∃ record,
      s.store.live.HasLock i scope (some record)
        ∧ ∀ initiator, record.lists initiator = true
          ↔ ∃ j, c.Names j i scope ∧ (c.requests j).initiator = initiator

/-- Loads do not refuse each other. -/
theorem Standing.not_isRefusedOn (h : c.Standing winners entries)
    (hbids : c.Reads bids) (hloads : ∀ k, (bids k).kind.isLoad = true)
    (k : Fin n) : ¬ (bids k).IsRefusedOn entries := by
  intro hrefused
  obtain ⟨scope, current, holder, hheld, hbusy⟩ :=
    h.busy_of_isRefusedOn hbids hrefused
  refine hheld.ne_busy (fun kind initiator htakes => ?_) (hloads k) hbusy
  obtain ⟨j, -, -, rfl, -⟩ := hbids.takes_iff.1 htakes
  exact hloads j

/-- A race of loads that is over has granted them all. -/
theorem allJoin (h : s.Sound c bids winners) (hover : ∀ next, ¬ c.Step s next)
    (hbids : c.Reads bids) (hloads : ∀ k, (bids k).kind.isLoad = true) :
    c.AllJoin s := by
  have hall : ∀ k, k ∈ winners ∧ s.code? k = some .ok := by
    intro k
    rcases settled h hover k with hwon | ⟨-, -, earlier, entries, -, hstanding,
      hrefused⟩
    · exact hwon
    · exact absurd hrefused (hstanding.not_isRefusedOn hbids hloads k)
  refine ⟨fun k => (hall k).2, fun k i scope hnames => ?_⟩
  obtain ⟨current, hcurrent, hheld⟩ := h.standing.held k i scope hnames
  obtain ⟨record, rfl, -, hlists⟩ := hheld.lists_iff
    (hbids.takes_iff.2 ⟨k, (hall k).1, hnames, rfl, rfl⟩)
  refine ⟨record, hcurrent, fun initiator => (hlists initiator).trans ?_⟩
  constructor
  · rintro ⟨kind, j, -, hj, -, hinitiator⟩
    exact ⟨j, hj, hinitiator⟩
  · rintro ⟨j, hj, hinitiator⟩
    exact ⟨_, j, (hall j).1, hj, (hbids j).2.kind_eq, hinitiator⟩

-- ================================================== other classes

/-- True of races that granted one request and told all others that the lock
is held, and left on a scope a record that lists the winner alone. -/
def OneWins (c : Contest n) (i : InstanceId) (scope : LockScope)
    (s : Race n) : Prop :=
  ∃ winner, s.code? winner = some .ok
    ∧ (∀ k, k ≠ winner → s.code? k = some .lockConflict)
    ∧ ∃ record, s.store.live.HasLock i scope (some record)
      ∧ record.lockId = (c.requests winner).lockId
      ∧ ∀ initiator, record.lists initiator = true
        ↔ initiator = (c.requests winner).initiator

/-- True of the requests of callers that are no loads and differ in lock ids
or participants, and all name a scope. -/
structure Rivalry (c : Contest n) (bids : Fin n → Bid) (i : InstanceId)
    (scope : LockScope) : Prop where
  isLoad_eq : ∀ k, (bids k).kind.isLoad = false
  eq_of_eq : ∀ j k, (bids j).kind.lockId = (bids k).kind.lockId →
    (bids j).initiator = (bids k).initiator → j = k
  names : ∀ k, c.Names k i scope

/-- At most one of the rivals has won. -/
theorem Rivalry.eq_of_mem (h : c.Rivalry bids i scope) (hbids : c.Reads bids)
    (hstanding : c.Standing winners entries) (hj : j ∈ winners)
    (hk : k ∈ winners) : j = k := by
  obtain ⟨current, -, hheld⟩ := hstanding.held j i scope (h.names j)
  obtain ⟨hid, hinitiator⟩ := hheld.single _ _
    (hbids.takes_iff.2 ⟨k, hk, h.names k, rfl, rfl⟩) (h.isLoad_eq k) _ _
    (hbids.takes_iff.2 ⟨j, hj, h.names j, rfl, rfl⟩)
  exact h.eq_of_eq j k hid hinitiator

/-- Once one of the rivals has won, no other one is granted the scope. -/
theorem Rivalry.eq_of_isGrantedOn (h : c.Rivalry bids i scope)
    (hbids : c.Reads bids) (hstanding : c.Standing winners entries)
    (hj : j ∈ winners) (hgranted : (bids k).IsGrantedOn entries) : k = j := by
  obtain ⟨rfl, hscope⟩ := hbids.names_iff.1 (h.names k)
  obtain ⟨current, hcurrent, hheld⟩ := hstanding.held k _ scope (h.names k)
  obtain ⟨current', record, outcome, hcurrent', hacquire⟩ :=
    hgranted scope hscope
  obtain rfl := hcurrent.unique hcurrent'
  rw [Bid.decides, (hbids k).1] at hacquire
  obtain ⟨hid, hinitiator⟩ := hheld.eq_of_acquire
    (hbids.takes_iff.2 ⟨j, hj, h.names j, rfl, rfl⟩) (hbids.isTold j)
    (hbids.isTold k) (.inl (h.isLoad_eq j)) hacquire
  exact h.eq_of_eq k j hid hinitiator

/-- A rival is refused a commit once at most. -/
theorem Rivalry.refusals_eq_zero (h : c.Rivalry bids i scope)
    (hbids : c.Reads bids) {refusals : Nat}
    (hmay : (c.odds k).MayRefuse (bids k) refusals) : refusals = 0 := by
  obtain ⟨-, entries, ⟨others, hk, hle, hstanding⟩, hgranted⟩ := hmay
  cases others with
  | nil => exact Nat.le_zero.1 hle
  | cons j others =>
      have hj : j ∈ j :: others := List.mem_cons_self ..
      exact absurd (h.eq_of_isGrantedOn hbids hstanding hj hgranted ▸ hj) hk

/-- Who is refused a scope was overtaken by one of the others. -/
theorem Standing.exists_mem (h : c.Standing winners entries)
    (hbids : c.Reads bids) (hrefused : (bids k).IsRefusedOn entries) :
    ∃ j, j ∈ winners := by
  obtain ⟨scope, current, holder, hheld, hbusy⟩ :=
    h.busy_of_isRefusedOn hbids hrefused
  obtain ⟨rfl, hruns, -⟩ := LockRecord.acquire_busy hbusy
  obtain ⟨kind, initiator, j, hj, -⟩ := hheld.someone holder rfl hruns
  exact ⟨j, hj⟩

/-- A race of rivals that is over has granted one of them. -/
theorem oneWins (h : s.Sound c bids winners) (hover : ∀ next, ¬ c.Step s next)
    (hbids : c.Reads bids) (hrivalry : c.Rivalry bids i scope) (hn : 0 < n) :
    c.OneWins i scope s := by
  obtain ⟨winner, hwinner⟩ : ∃ k, k ∈ winners := by
    rcases settled h hover ⟨0, hn⟩ with ⟨hmem, -⟩ | ⟨-, -, earlier, entries,
      hsub, hstanding, hrefused⟩
    · exact ⟨_, hmem⟩
    · obtain ⟨j, hj⟩ := hstanding.exists_mem hbids hrefused
      exact ⟨j, hsub hj⟩
  have honly : ∀ k ∈ winners, k = winner := fun k hk =>
    hrivalry.eq_of_mem hbids h.standing hk hwinner
  refine ⟨winner, ?_, fun k hk => ?_, ?_⟩
  · rcases settled h hover winner with ⟨-, hcode⟩ | ⟨hlost, -⟩
    · exact hcode
    · exact absurd hwinner hlost
  · rcases settled h hover k with ⟨hmem, -⟩ | ⟨-, hcode, -⟩
    · exact absurd (honly k hmem) hk
    · exact hcode
  · obtain ⟨current, hcurrent, hheld⟩ :=
      h.standing.held winner i scope (hrivalry.names winner)
    obtain ⟨record, rfl, hclass, hlists⟩ := hheld.lists_iff
      (hbids.takes_iff.2 ⟨winner, hwinner, hrivalry.names winner, rfl, rfl⟩)
    rw [LockRecord.isHeldBy, hrivalry.isLoad_eq winner] at hclass
    refine ⟨record, hcurrent,
      (of_decide_eq_true hclass).trans (hbids.lockId_eq winner),
      fun initiator => (hlists initiator).trans ⟨?_, ?_⟩⟩
    · rintro ⟨kind, k, hk, -, -, rfl⟩
      rw [honly k hk]
    · rintro rfl
      exact ⟨_, winner, hwinner, hrivalry.names winner,
        (hbids winner).2.kind_eq, rfl⟩

-- ================================================== every race

/-- True of contests whose races all come to an end, and to one of a kind. -/
structure Resolves (c : Contest n) (outcome : Race n → Prop) : Prop where
  ends : ∀ run : Nat → Race n, run 0 = c.start →
    ∃ t, ¬ c.Step (run t) (run (t + 1))
  outcome : ∀ s, c.Reaches s → (∀ next, ¬ c.Step s next) → outcome s

theorem exists_not_step (c : Contest n) (run : Nat → Race n) :
    ∃ t, ¬ c.Step (run t) (run (t + 1)) := by
  by_contra hall
  push Not at hall
  exact (wellFounded_iff_isEmpty_descending_chain.1 c.wellFounded_step).false
    ⟨run, hall⟩

/-- Some race is over. -/
theorem exists_over (c : Contest n) :
    ∃ s, c.Reaches s ∧ ∀ next, ¬ c.Step s next := by
  obtain ⟨s, hs, hleast⟩ :=
    c.wellFounded_step.has_min {s | c.Reaches s} ⟨c.start, .refl⟩
  exact ⟨s, hs, fun next hstep => hleast next (hs.tail hstep) hstep⟩

end Contest

/-- Races resolve within the retries. Let any number of well-formed requests
for the lock be made of a store where no lease runs on any of their scopes,
with retries after conflicts and without replays, and let nothing go wrong.
Then every race comes to an end, however the attempts interleave:

- if all are loads, on any scopes, and there are as many retries as others,
  all are granted, and each scope lists exactly who asked for it;
- if none is a load, no two agree in lock id and participant, all name one
  scope, and there is a retry, then one is granted, all others are told that
  the lock is held, and the scope lists the winner alone. -/
theorem races_resolve {n : Nat} (c : Contest n) (h : c.WellPosed) :
    ((∀ k, 0 < (c.requests k).lockId) →
      n ≤ c.config.retry.maxRetries.toNat + 1 → c.Resolves c.AllJoin)
    ∧ ∀ i scope, 0 < n →
      (∀ k, (c.requests k).lockId = -1 ∨ (c.requests k).lockId = -2) →
      Function.Injective
        (fun k => ((c.requests k).lockId, (c.requests k).initiator)) →
      (∀ k, c.Names k i scope) → 1 ≤ c.config.retry.maxRetries.toNat →
      c.Resolves (c.OneWins i scope) := by
  obtain ⟨bids, hbids⟩ := h.exists_bids
  refine ⟨fun hpos hretries => ⟨fun run _ => c.exists_not_step run,
    fun s hreaches hover => ?_⟩,
    fun i scope hn hids hinj hnames hretries =>
      ⟨fun run _ => c.exists_not_step run, fun s hreaches hover => ?_⟩⟩
  · have hloads : ∀ k, (bids k).kind.isLoad = true := fun k =>
      (hbids.isTold k).isLoad_iff.2 (hbids.lockId_eq k ▸ hpos k)
    have hstart := Contest.sound_start h hbids fun k refusals hmay => by
      have hrivals : refusals < n - 1 := hmay.1
      omega
    obtain ⟨winners, hsound⟩ := Contest.sound_of_reaches hstart hreaches
    exact Contest.allJoin hsound hover hbids hloads
  · have hrivalry : c.Rivalry bids i scope := by
      refine ⟨fun k => ?_, fun j k hid hinitiator => hinj ?_, hnames⟩
      · rw [Bool.eq_false_iff, Ne, (hbids.isTold k).isLoad_iff, hbids.lockId_eq]
        rcases hids k with hid | hid <;> rw [hid] <;> decide
      · rw [hbids.lockId_eq, hbids.lockId_eq] at hid
        simp only [hid, (hbids j).2.initiator_eq, (hbids k).2.initiator_eq,
          hinitiator]
    have hstart := Contest.sound_start h hbids fun k refusals hmay => by
      have hzero := hrivalry.refusals_eq_zero hbids hmay
      omega
    obtain ⟨winners, hsound⟩ := Contest.sound_of_reaches hstart hreaches
    exact Contest.oneWins hsound hover hbids hrivalry hn

/-- Two requests for the lock of a table, by the participants 7 and 8. -/
def Contest.pair (lockId : Int64 → Int64) : Contest 2 where
  config := {}
  route _ := .v1
  clock := ⟨1000, 0⟩
  initial := {}
  requests k :=
    let participant := if k = 0 then 7 else 8
    { instanceName := "inst", table := ⟨1⟩, lockId := lockId participant,
      initiator := participant }

theorem Contest.pair_names {lockId : Int64 → Int64} (k : Fin 2) :
    (pair lockId).Names k ⟨"inst"⟩ (.table ⟨1⟩) := by
  refine ⟨?_, _, rfl, List.mem_singleton_self _⟩
  show InstanceId.ofText "inst" = _
  rw [InstanceId.ofText,
    show (⟨"inst"⟩ : InstanceId).IsValid by decide +kernel]
  rfl

theorem Contest.pair_wellPosed {lockId : Int64 → Int64}
    (hkind : ∀ k, ∃ kind, LockKind.ofTakingLockId
      ((pair lockId).requests k).lockId = .ok kind) :
    (pair lockId).WellPosed where
  retries := rfl
  conflicts := rfl
  noReplays := rfl
  isClockTime :=
    show Instant.IsClockTime ⟨1000, 0⟩ from ⟨by decide +kernel, by decide⟩
  wellFormed k := by
    obtain ⟨kind, hkind⟩ := hkind k
    exact ⟨⟨⟨"inst"⟩, kind, _, [.table ⟨1⟩], ⟨1000, 0⟩, ⟨1010, 0⟩⟩, rfl,
      (pair_names k).1, hkind, rfl, .inl rfl, rfl, by rfl⟩
  free k i scope _ := ⟨none, rfl, nofun⟩
  stats k i _ hwants := nomatch hwants

/-- Two loads join on a table, and of two compactions one is refused it. -/
theorem races_resolve_pairs :
    (∃ s, (Contest.pair id).Reaches s
      ∧ s.code? 0 = some .ok ∧ s.code? 1 = some .ok
      ∧ ∃ record, s.store.live.HasLock ⟨"inst"⟩ (.table ⟨1⟩) (some record)
        ∧ record.lists 7 = true ∧ record.lists 8 = true)
    ∧ ∃ s winner, (Contest.pair fun _ => -1).Reaches s
      ∧ s.code? winner = some .ok
      ∧ (∀ k, k ≠ winner → s.code? k = some .lockConflict)
      ∧ ∃ record, s.store.live.HasLock ⟨"inst"⟩ (.table ⟨1⟩) (some record)
        ∧ record.lockId = -1 ∧ ∀ initiator, record.lists initiator = true
          ↔ initiator = if winner = 0 then 7 else 8 := by
  constructor
  · obtain ⟨s, hs, hover⟩ := (Contest.pair id).exists_over
    have hwell : (Contest.pair id).WellPosed :=
      Contest.pair_wellPosed
        (Fin.forall_fin_two.2 ⟨⟨.load 7, rfl⟩, ⟨.load 8, rfl⟩⟩)
    obtain ⟨hcodes, hrecords⟩ := ((races_resolve _ hwell).1
      (Fin.forall_fin_two.2 ⟨by decide, by decide⟩) (by decide)).outcome s hs
        hover
    obtain ⟨record, hrecord, hlists⟩ :=
      hrecords 0 _ _ (Contest.pair_names 0)
    exact ⟨s, hs, hcodes 0, hcodes 1, record, hrecord,
      (hlists 7).2 ⟨0, Contest.pair_names 0, rfl⟩,
      (hlists 8).2 ⟨1, Contest.pair_names 1, rfl⟩⟩
  · obtain ⟨s, hs, hover⟩ := (Contest.pair fun _ => -1).exists_over
    have hwell : (Contest.pair fun _ => -1).WellPosed :=
      Contest.pair_wellPosed fun _ => ⟨.compaction, rfl⟩
    obtain ⟨winner, hok, hothers, record, hrecord, hid, hlists⟩ :=
      ((races_resolve _ hwell).2 ⟨"inst"⟩ (.table ⟨1⟩) (by decide)
        (fun _ => .inl rfl) (fun j k h => by
          revert j k
          decide) Contest.pair_names
        (by decide)).outcome s hs hover
    exact ⟨s, winner, hs, hok, hothers, record, hrecord, hid, hlists⟩

end MergeOnWrite
