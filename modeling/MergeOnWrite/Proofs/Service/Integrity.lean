/-
Whatever comes about on a store can be read.

Any number of invocations work on one store, question by question and in any
order; the clock may show anything, the routing may change, and the store may
refuse any question, as long as it says why. No request stores anything but
records (`Call.tidy_attempt`), so a store that was empty holds nothing else,
and so do the transactions on it: what they began with was stored, and what
they put are records. Hence no invocation ever trips over what others, or
itself, have stored.

# Main statements

- `Stand.tells_records`: an invocation among records is told records.
- `Traffic.kept_of_regular`: nothing but records is stored.
- `Traffic.readable_of_regular`: all that is stored can be read, and no
  invocation responds with an internal error.
- `Traffic.regular_served`: requests that are served one after another are
  such traffic.
-/
import MergeOnWrite.Proofs.Service.Fencing
import MergeOnWrite.Proofs.Service.Statistics
import MergeOnWrite.Proofs.Service.Upkeep

namespace MergeOnWrite

open StoreKey (IsRecord)

-- ================================================== transactions

/-- True of transactions that began among records and put nothing else. -/
structure Txn.IsTidy (t : Txn) : Prop where
  snapshot : t.snapshot.AreRecords
  writes : ∀ base : Entries, base.AreRecords →
    Entries.AreRecords (t.writes.applyTo base)

namespace Txn

variable {t : Txn}

theorem isTidy_open {store : Store} (h : store.live.AreRecords) (now : Nat) :
    (Txn.open store now).IsTidy :=
  ⟨h, fun _ => id⟩

theorem IsTidy.view (h : t.IsTidy) : t.view.AreRecords :=
  h.writes _ h.snapshot

theorem IsTidy.put (h : t.IsTidy) {key value : Bytes}
    (hvalue : IsRecord key value) : (t.put key value).IsTidy := by
  refine ⟨h.snapshot, fun base hbase => ?_⟩
  have hview : (t.put key value).writes.applyTo base
      = SortedMap.insert (t.writes.applyTo base) key value :=
    (t.onto (.begunWith base)).view_put key value
  rw [hview]
  exact (h.writes base hbase).insert hvalue

theorem IsTidy.remove (h : t.IsTidy) (key : Bytes) :
    (t.remove key).IsTidy := by
  refine ⟨h.snapshot, fun base hbase => ?_⟩
  have hview : (t.remove key).writes.applyTo base
      = SortedMap.erase (t.writes.applyTo base) key :=
    (t.onto (.begunWith base)).view_remove key
  rw [hview]
  exact (h.writes base hbase).erase key

end Txn

/-- An invocation among records is told records, and its transaction stays
tidy. -/
theorem Stand.tells_records {route : InstanceId → LockVersion}
    {clock : Instant} {store : Store} {s s' : Stand} {q : Question}
    {x : q.Answer} (h : s.Answers route clock store q x s') (hq : q.IsTidy)
    (hx : q.refusal? x ≠ some .other) (hclock : clock.IsClockTime)
    (hlive : store.live.AreRecords) (htxn : ∀ t, s.txn = some t → t.IsTidy) :
    q.TellsRecords x ∧ ∀ t, s'.txn = some t → t.IsTidy := by
  have hcode : ∀ code : StoreCode, some code ≠ some .other → code ≠ .other :=
    fun code hne heq => hne (congrArg some heq)
  cases q with
  | now =>
      obtain ⟨rfl, rfl⟩ := h
      exact ⟨hclock, htxn⟩
  | route i =>
      obtain ⟨-, rfl⟩ := h
      exact ⟨trivial, htxn⟩
  | start =>
      rcases h with ⟨code, rfl, rfl⟩ | ⟨time, rfl, rfl⟩
      · exact ⟨hcode code hx, nofun⟩
      · refine ⟨trivial, fun t ht => ?_⟩
        obtain rfl := Option.some.inj ht
        exact Txn.isTidy_open hlive time
  | get key =>
      rcases h with ⟨code, rfl, rfl⟩ | ⟨t, ht, rfl, rfl⟩
      · exact ⟨hcode code hx, htxn⟩
      · have hview := (htxn t ht).view
        refine ⟨?_, fun u hu => ?_⟩
        · rw [Txn.get_fst]
          cases hget : t.view.get? key with
          | none => trivial
          | some value => exact hview key value hget
        · obtain rfl := Option.some.inj hu
          exact ⟨(htxn t ht).snapshot, (htxn t ht).writes⟩
  | scan stem =>
      rcases h with ⟨code, rfl, rfl⟩ | ⟨t, ht, rfl, rfl⟩
      · exact ⟨hcode code hx, htxn⟩
      · refine ⟨fun e he => (htxn t ht).view.of_mem_within he, fun u hu => ?_⟩
        obtain rfl := Option.some.inj hu
        exact ⟨(htxn t ht).snapshot, (htxn t ht).writes⟩
  | put key value =>
      obtain rfl := h
      refine ⟨trivial, fun u hu => ?_⟩
      obtain ⟨t, ht, rfl⟩ := Option.map_eq_some_iff.1 hu
      exact (htxn t ht).put hq
  | remove key =>
      obtain rfl := h
      refine ⟨trivial, fun u hu => ?_⟩
      obtain ⟨t, ht, rfl⟩ := Option.map_eq_some_iff.1 hu
      exact (htxn t ht).remove key
  | commit =>
      obtain ⟨code, rfl, rfl⟩ := h
      exact ⟨hcode code hx, nofun⟩
  | report | jitter | pause | chance | spread | replay =>
      obtain rfl := h
      exact ⟨trivial, htxn⟩

-- ================================================== invocations

/-- What holds of an invocation among records. -/
structure Invocation.IsTidy (inv : Invocation) : Prop where
  script : Script.Tidy (fun response : Response inv.call.Payload =>
    response.status.code ≠ .internal) inv.script
  txn : ∀ t, inv.stand.txn = some t → t.IsTidy

namespace Traffic

/-- Traffic of requests that store entries of valid rowsets only, on a store
that was empty and refuses nothing without a reason. The clock may show any
time at any moment, and which version of the protocol an instance uses may
change. -/
inductive Regular : Traffic → Prop
  | start (clock : Instant) : clock.IsClockTime →
    Regular { store := {}, clock }
  | tick {s : Traffic} (clock : Instant) :
    Regular s → clock.IsClockTime → Regular { s with clock }
  | arrive {s : Traffic} (id : Nat) (config : LockConfig) (call : Call) :
    Regular s → s.invocations id = none → call.NamesRowsets →
    Regular (s.put id ⟨config, call, call.attempt config, {}⟩)
  | answer {s : Traffic} (route : InstanceId → LockVersion) (id : Nat)
    (inv : Invocation) (q : Question)
    (next : q.Answer → Script (Response inv.call.Payload)) (x : q.Answer)
    (stand : Stand) :
    Regular s → s.invocations id = some inv → inv.script = .ask q next →
    inv.stand.Answers route s.clock s.store q x stand →
    q.refusal? x ≠ some .other →
    Regular (s.put id { inv with script := next x, stand })
  | commit {s : Traffic} (id : Nat) (inv : Invocation)
    (next : Except StoreCode Unit → Script (Response inv.call.Payload))
    (t : Txn) (store : Store) (result : Except StoreCode Unit) :
    Regular s → s.invocations id = some inv → inv.script = .ask .commit next →
    inv.stand.txn = some t → s.store.commit t = .ok store →
    result ≠ .error .other →
    Regular { s.put id { inv with
        script := next result
        stand := inv.stand.committed result } with
      store
      history := ⟨id, inv.config, inv.call, inv.stand.readings, s.clock,
        s.store, store⟩ :: s.history }

-- ================================================== one after another

variable {s : Traffic} {route : InstanceId → LockVersion}

/-- An invocation that goes on alone is refused nothing without a reason, and
within its transaction keeps it. -/
theorem reply_of_next? (route : InstanceId → LockVersion) {a b : TxnPhase}
    {mayWrite : Bool} {q : Question} {stand : Stand} (hnext : a.next? mayWrite q = some b)
    (htxn : a = .within → stand.txn.isSome) (clock : Instant) (store : Store) :
    q.refusal? (stand.reply route clock store q).1 ≠ some .other
      ∧ (b = .within → (stand.reply route clock store q).2.txn.isSome) := by
  cases q with
  | start => exact ⟨by rintro ⟨⟩, fun _ => rfl⟩
  | commit =>
      refine ⟨by rintro ⟨⟩, ?_⟩
      rintro rfl
      cases mayWrite <;> cases a <;> cases hnext
  | get | scan =>
      obtain rfl : a = .within := by
        cases a with
        | within => rfl
        | before | after => cases hnext
      obtain ⟨t, ht⟩ := Option.isSome_iff_exists.1 (htxn rfl)
      simp only [Stand.reply, ht]
      exact ⟨by rintro ⟨⟩, fun _ => rfl⟩
  | put | remove =>
      obtain rfl : a = .within := by
        cases a with
        | within => rfl
        | before | after => cases hnext
      exact ⟨by rintro ⟨⟩, fun _ => (Option.isSome_map ..).trans (htxn rfl)⟩
  | now | route | report =>
      obtain rfl : a = b := by cases a <;> cases hnext <;> rfl
      exact ⟨by rintro ⟨⟩, htxn⟩
  | jitter | pause | chance | spread | replay => cases a <;> cases hnext

/-- True of an invocation that went on alone so far: it is in some phase, or
has ended. -/
def GoesAlone (s : Traffic) (id : Nat) : Prop :=
  ∃ inv, s.invocations id = some inv
    ∧ ((∃ a, Script.Follows inv.call.writes inv.call.EndsIn inv.call.FailsWith a
          inv.script
        ∧ (a = .within → inv.stand.txn.isSome))
      ∨ ∃ response, inv.script = .done response)

theorem regular_next (h : Regular s) {id : Nat} (halone : s.GoesAlone id) :
    Regular (s.next route id) ∧ (s.next route id).GoesAlone id := by
  obtain ⟨inv, hinv, hstate⟩ := halone
  unfold next
  rw [hinv]
  simp only
  cases hscript : inv.script with
  | done response => exact ⟨h, inv, hinv, .inr ⟨response, hscript⟩⟩
  | ask q go =>
      simp only [hscript, reduceCtorEq, exists_false, or_false] at hstate
      obtain ⟨a, ⟨b, hnext, hgo⟩, htxn⟩ := hstate
      obtain ⟨hreason, hkept⟩ :=
        reply_of_next? route hnext htxn s.clock s.store
      have hrefused := Regular.answer route id inv q go _ _ h hinv hscript
        (Stand.answers_reply route s.clock s.store inv.stand q) hreason
      have hafter : (s.put id { inv with
          script := go (inv.stand.reply route s.clock s.store q).1
          stand := (inv.stand.reply route s.clock s.store q).2 }).GoesAlone
            id := by
        refine ⟨_, if_pos rfl, ?_⟩
        have hrest := hgo (inv.stand.reply route s.clock s.store q).1
        split at hrest
        · obtain ⟨response, hdone, -⟩ := hrest
          exact .inr ⟨response, hdone⟩
        · exact .inl ⟨b, hrest, hkept⟩
      cases q with
      | commit =>
          simp only
          split
          · exact ⟨hrefused, hafter⟩
          · rename_i t ht
            split
            · exact ⟨hrefused, hafter⟩
            · rename_i store hcommit
              refine ⟨h.commit id inv go t store (.ok ()) hinv hscript ht
                hcommit nofun, _, if_pos rfl, .inl ⟨b, hgo (.ok ()), ?_⟩⟩
              rintro rfl
              cases hwrites : inv.call.writes <;> cases a <;>
                simp [TxnPhase.next?, hwrites] at hnext
      | now | route | start | get | scan | put | remove | report | jitter
      | pause | chance | spread | replay => exact ⟨hrefused, hafter⟩

theorem regular_alone {id : Nat} :
    ∀ (steps : Nat) {s : Traffic}, Regular s → s.GoesAlone id →
      Regular (s.alone route id steps) := by
  intro steps
  induction steps with
  | zero => exact fun h _ => h
  | succ steps ih =>
      intro s h halone
      obtain ⟨hnext, hgoes⟩ := regular_next h halone
      exact ih hnext hgoes

/-- Requests that are served one after another are regular traffic. -/
theorem regular_served {clock : Instant} (h : clock.IsClockTime) (steps : Nat) :
    ∀ calls : List Call, (∀ call ∈ calls, call.NamesRowsets) →
      Regular (served route clock steps calls) := by
  intro calls
  induction calls with
  | nil => exact fun _ => .start clock h
  | cons call earlier ih =>
      intro hnames
      have hearlier := ih fun c hc => hnames c (List.mem_cons_of_mem _ hc)
      refine regular_alone steps (hearlier.arrive earlier.length {} call
        (invocations_served route clock steps earlier (Nat.le_refl _))
        (hnames call List.mem_cons_self)) ⟨_, if_pos rfl, .inl ⟨.before, ?_,
          nofun⟩⟩
      exact call.follows_attempt {}

-- ================================================== all that is stored

/-- What holds of traffic among records. -/
structure Kept (s : Traffic) : Prop where
  isClockTime : s.clock.IsClockTime
  live : s.store.live.AreRecords
  invocations : ∀ id inv, s.invocations id = some inv → inv.IsTidy

/-- One invocation has its turn, and all others stay as they are. -/
theorem Kept.put (h : s.Kept) (id : Nat) {inv : Invocation} (hinv : inv.IsTidy)
    {n : Nat} {other : Invocation} (hother : (s.put id inv).invocations n
      = some other) : other.IsTidy := by
  replace hother : (if n = id then some inv else s.invocations n)
      = some other := hother
  split at hother
  · obtain rfl := Option.some.inj hother
    exact hinv
  · exact h.invocations n other hother

/-- Nothing but records is stored, and no invocation fails over them. -/
theorem kept_of_regular (h : Regular s) : s.Kept := by
  induction h with
  | start clock hclock => exact ⟨hclock, Entries.areRecords_empty, nofun⟩
  | tick clock _ hclock ih => exact ⟨hclock, ih.live, ih.invocations⟩
  | arrive id config call _ _ hnames ih =>
      have htidy : Invocation.IsTidy ⟨config, call, call.attempt config, {}⟩ :=
        ⟨call.tidy_attempt config hnames, nofun⟩
      exact ⟨ih.isClockTime, ih.live, fun n other => ih.put id htidy⟩
  | answer route id inv q next x stand _ hinv hscript hanswers hx ih =>
      have htidy := ih.invocations id inv hinv
      have hrest := htidy.script
      rw [hscript] at hrest
      obtain ⟨htells, htxn⟩ := Stand.tells_records hanswers hrest.1 hx
        ih.isClockTime ih.live htidy.txn
      exact ⟨ih.isClockTime, ih.live, fun n other =>
        ih.put id ⟨hrest.2 x htells, htxn⟩⟩
  | commit id inv next t store result _ hinv hscript ht hcommit hresult ih =>
      -- the commit is onto what others have stored meanwhile, not onto what
      -- the transaction began with
      have htidy := ih.invocations id inv hinv
      have hrest := htidy.script
      rw [hscript] at hrest
      have htells : Question.commit.TellsRecords result := by
        cases result with
        | ok _ => trivial
        | error code => exact fun heq => hresult (congrArg Except.error heq)
      have hleft : Invocation.IsTidy { inv with
          script := next result
          stand := inv.stand.committed result } :=
        ⟨hrest.2 result htells, nofun⟩
      refine ⟨ih.isClockTime, ?_, fun n other => ih.put id hleft⟩
      rw [Store.live_commit hcommit]
      exact (htidy.txn t ht).writes _ ih.live

/-- Handlers never trip over their own data. Whatever requests are made, and
however their invocations interleave: all that is stored can be read, and no
invocation responds with an internal error. -/
theorem readable_of_regular (h : Regular s) :
    s.store.live.IsReadable
      ∧ ∀ id inv response, s.invocations id = some inv →
        inv.script = .done response → response.status.code ≠ .internal := by
  have hkept := kept_of_regular h
  refine ⟨hkept.live.isReadable, fun id inv response hinv hdone => ?_⟩
  have hscript := (hkept.invocations id inv hinv).script
  rw [hdone] at hscript
  exact hscript

/-- A lock is taken, and entries are stored and replaced; all of it can be
read. -/
theorem readable_of_regular_served : ∃ s : Traffic, Regular s
    ∧ s.history.length = 3 ∧ s.store.live.toList.length = 3
    ∧ s.store.live.IsReadable := by
  have hregular : Regular (served (fun _ => .v1) ⟨1000, 0⟩ 20
      [.updateBitmap (.ofRow 5), .updateBitmap .ofCompaction,
        .acquireLock .ofCompaction]) :=
    regular_served ⟨by decide +kernel, by decide⟩ 20 _ (by decide +kernel)
  exact ⟨_, hregular, by decide +kernel, by decide +kernel,
    (readable_of_regular hregular).1⟩

end Traffic

end MergeOnWrite
