/-
Handlers among records: they store nothing else, and never fail over them.

Whatever a handler reads was stored by a handler before. So it may take for
granted that what it finds are records of the service, if it stores nothing
but records itself; and then no decoding of it goes wrong, which is the only
way in which a handler comes to an internal error, but for a refusal of the
store that names no reason.

This is told by a typing of handlers (`Handler.Tidy`). What a handler is told
are records, what it puts are records, and if it fails it says why. There is
no need to follow its draft: records that are put over records leave records.

# Main statements

- `Handler.tidy_bind` and the rules after it: the parts of handlers.
- `Call.tidy_handler`, `Call.tidy_attempt`: the handlers, and the attempts at
  requests.
-/
import MergeOnWrite.Proofs.Program
import MergeOnWrite.Proofs.Service.Attempt
import MergeOnWrite.Proofs.Service.BitmapRequests
import MergeOnWrite.Proofs.Service.LockHistory
import MergeOnWrite.Proofs.Service.Records

namespace MergeOnWrite

open StoreKey (IsRecord)

variable {α β : Type}

-- ================================================== scripts

namespace Question

/-- True of the questions that put records, or nothing. -/
def IsTidy : Question → Prop
  | .put key value => IsRecord key value
  | _ => True

/-- True of answers where nothing but records is stored: the clock shows what
it can, what is read or listed are records, and the store refuses nothing
without a reason. -/
def TellsRecords : (q : Question) → q.Answer → Prop
  | .now, time => Instant.IsClockTime time
  | .get key, .ok (some value) => IsRecord key value
  | .scan stem, .ok found => ∀ e ∈ found, stem <+: e.1 ∧ IsRecord e.1 e.2
  | .start, .error code | .get _, .error code | .scan _, .error code
  | .commit, .error code => code ≠ .other
  | _, _ => True

end Question

/-- True of scripts that put nothing but records as long as they are told
nothing else, and then end only as a condition allows. -/
def Script.Tidy (ends : α → Prop) : Script α → Prop
  | .done a => ends a
  | .ask q next => q.IsTidy ∧ ∀ x, q.TellsRecords x → Tidy ends (next x)

theorem Script.tidy_bind {known : α → Prop} {ends : β → Prop} {s : Script α}
    {k : α → Script β} (hs : Script.Tidy known s)
    (hk : ∀ a, known a → Script.Tidy ends (k a)) :
    Script.Tidy ends (s.bind k) := by
  induction s with
  | done a => exact hk a hs
  | ask q next ih => exact ⟨hs.1, fun x hx => ih x (hs.2 x hx)⟩

-- ================================================== handlers

namespace Handler

/-- How a handler ends that fails over nothing that it finds. -/
def TidyEnd (ends : α → Prop) : Except ServiceError α → Prop
  | .ok a => ends a
  | .error e => e.code ≠ .internal

/-- True of handlers that put nothing but records as long as they are told
nothing else, and then do not fail over it; what they come to is as a
condition allows. -/
def Tidy (ends : α → Prop) (h : Handler α) : Prop :=
  Script.Tidy (TidyEnd ends) h.run

section Rules

variable {ends : α → Prop}

theorem tidy_pure {a : α} (h : ends a) : Tidy ends (pure a : Handler α) := h

theorem tidy_throw {e : ServiceError} (h : e.code ≠ .internal) :
    Tidy ends (throw e : Handler α) := h

/-- A sequence is tidy if its parts are; of the second part this is asked for
results that the first one may have. -/
theorem tidy_bind {known : β → Prop} {h : Handler β} {k : β → Handler α}
    (hs : Tidy known h) (hk : ∀ b, known b → Tidy ends (k b)) :
    Tidy ends (h >>= k) := by
  refine Script.tidy_bind (k := ExceptT.bindCont k) hs fun result hknown => ?_
  cases result with
  | ok b => exact hk b hknown
  | error e => exact hknown

/-- The same where nothing is known of the result of the first part. -/
theorem tidy_seq {h : Handler β} {k : β → Handler α}
    (hs : Tidy (fun _ => True) h) (hk : ∀ b, Tidy ends (k b)) :
    Tidy ends (h >>= k) :=
  tidy_bind hs fun b _ => hk b

theorem tidy_mono {ends' : α → Prop} {h : Handler α}
    (himp : ∀ a, ends a → ends' a) (hs : Tidy ends h) : Tidy ends' h := by
  rw [← bind_pure h]
  exact tidy_bind hs fun a ha => tidy_pure (himp a ha)

theorem tidy_ask {q : Question} {ends : q.Answer → Prop} (hq : q.IsTidy)
    (hx : ∀ x, q.TellsRecords x → ends x) : Tidy ends (ask q) :=
  ⟨hq, hx⟩

theorem tidy_now : Tidy Instant.IsClockTime (ask .now) :=
  tidy_ask trivial fun _ => id

theorem tidy_route {i : InstanceId} : Tidy (fun _ => True) (ask (.route i)) :=
  tidy_ask trivial fun _ _ => trivial

theorem tidy_report {event : Report} :
    Tidy (fun _ => True) (ask (.report event)) :=
  tidy_ask trivial fun _ _ => trivial

theorem tidy_put {key value : Bytes} (h : IsRecord key value) :
    Tidy (fun _ => True) (ask (.put key value)) :=
  tidy_ask h fun _ _ => trivial

theorem tidy_remove {key : Bytes} :
    Tidy (fun _ => True) (ask (.remove key)) :=
  tidy_ask trivial fun _ _ => trivial

/-- A refusal with a reason is no internal error. -/
theorem code_store_ne_internal {code : StoreCode} {context : String}
    (h : code ≠ .other) : (ServiceError.store code context).code ≠ .internal := by
  cases code with
  | other => exact absurd rfl h
  | _ => exact nofun

theorem tidy_start : Tidy (fun _ => True) start := by
  refine ⟨trivial, fun x hx => ?_⟩
  cases x with
  | ok _ => trivial
  | error code => exact code_store_ne_internal hx

theorem tidy_commit {context : String} :
    Tidy (fun _ => True) (commit context) := by
  refine ⟨trivial, fun x hx => ?_⟩
  cases x with
  | ok _ => trivial
  | error code => exact code_store_ne_internal hx

/-- What is read is a record. -/
theorem tidy_get {context : String} {key : Bytes} :
    Tidy (fun bytes => ∀ value, bytes = some value → IsRecord key value)
      (get context key) := by
  refine ⟨trivial, fun x hx => ?_⟩
  cases x with
  | ok bytes =>
      rintro value rfl
      exact hx
  | error code => exact code_store_ne_internal hx

theorem tidy_scan {context : String} {stem : Bytes} :
    Tidy (fun found => ∀ e ∈ found, stem <+: e.1 ∧ IsRecord e.1 e.2)
      (scan context stem) := by
  refine ⟨trivial, fun x hx => ?_⟩
  cases x with
  | ok found => exact hx
  | error code => exact code_store_ne_internal hx

theorem tidy_lift {result : Except ServiceError α}
    (he : ∀ e, result = .error e → e.code ≠ .internal)
    (h : ∀ a, result = .ok a → ends a) :
    Tidy ends (liftM result : Handler α) := by
  cases result with
  | ok a => exact h a rfl
  | error e => exact he e rfl

theorem tidy_instanceOf {name : String} :
    Tidy (fun i => InstanceId.ofText name = .ok i) (instanceOf name) := by
  unfold instanceOf check
  cases InstanceId.ofText name with
  | ok i => exact tidy_pure rfl
  | error e => exact tidy_throw nofun

theorem tidy_rowsetOf {name : String} :
    Tidy (fun rowset => RowsetId.ofText name = .ok rowset)
      (rowsetOf name) := by
  unfold rowsetOf check
  cases RowsetId.ofText name with
  | ok rowset => exact tidy_pure rfl
  | error e => exact tidy_throw nofun

/-- The rows of an entry are read. -/
theorem tidy_rowsOf {bytes : Bytes} {rows : RowSet}
    (h : bytes = rows.encode) : Tidy (fun _ => True) (rowsOf bytes) := by
  subst h
  have hrows := rows.decodeAll_encode []
  rw [List.append_nil] at hrows
  rw [rowsOf, hrows]
  exact tidy_pure trivial

/-- A record is read if its bytes can be. -/
theorem tidy_stored {decode? : Bytes → Option α} {what : String}
    {bytes : Option Bytes} {ends : Option α → Prop} (hnone : ends none)
    (hsome : ∀ value, bytes = some value →
      ∃ record, decode? value = some record ∧ ends (some record)) :
    Tidy ends (stored decode? what bytes) := by
  cases bytes with
  | none => exact tidy_pure hnone
  | some value =>
      obtain ⟨record, hrecord, hends⟩ := hsome value rfl
      simp only [stored, hrecord]
      exact tidy_pure hends

theorem tidy_forM {f : α → Handler Unit} :
    ∀ {l : List α}, (∀ a ∈ l, Tidy (fun _ => True) (f a)) →
      Tidy (fun _ => True) (l.forM f) := by
  intro l
  induction l with
  | nil => intro _; exact tidy_pure trivial
  | cons a rest ih =>
      intro h
      exact tidy_seq (h a (List.mem_cons_self ..)) fun _ =>
        ih fun b hb => h b (List.mem_cons_of_mem _ hb)

theorem tidy_mapM {f : α → Handler β} (h : ∀ a, Tidy (fun _ => True) (f a)) :
    ∀ l : List α, Tidy (fun _ => True) (l.mapM f) := by
  intro l
  induction l with
  | nil => exact tidy_pure trivial
  | cons a rest ih =>
      rw [List.mapM_cons]
      exact tidy_seq (h a) fun _ => tidy_seq ih fun _ => tidy_pure trivial

end Rules

-- ================================================== records

variable {i : InstanceId} {table : TableId} {tablet : TabletId}
  {kind : LockKind} {initiator : Int64}

theorem tidy_readLock (hi : i.IsValid) (scope : LockScope) :
    Tidy (fun current => ∀ held, current = some held →
      held.expiration.IsProper) (readLock i scope) := by
  refine tidy_bind tidy_get fun bytes hbytes => ?_
  refine tidy_stored nofun fun value hvalue => ?_
  obtain ⟨record, hproper, rfl⟩ :=
    (hbytes value hvalue).holds (.lock i scope) hi
  refine ⟨record, LockRecord.decode?_encode hproper, ?_⟩
  rintro _ ⟨⟩
  exact hproper

theorem tidy_readStats (hi : i.IsValid) (table : TableId)
    (tablet : TabletId) :
    Tidy (fun stats => stats.tablet = tablet.val)
      (readStats i table tablet) := by
  refine tidy_bind tidy_get fun bytes hbytes => ?_
  refine tidy_bind (?_ : Tidy (fun record => ∀ stats : TabletStats,
    record = some stats → stats.tablet = tablet.val) _) fun record hrecord => ?_
  · refine tidy_stored nofun fun value hvalue => ?_
    obtain ⟨stats, htablet, rfl⟩ :=
      (hbytes value hvalue).holds (.stats i table tablet) hi
    refine ⟨stats, stats.decode?_encode, ?_⟩
    rintro _ ⟨⟩
    exact htablet
  · cases record with
    | none => exact tidy_pure rfl
    | some stats => exact tidy_pure (hrecord stats rfl)

theorem tidy_changeStats (hi : i.IsValid) {entries rows : Int} :
    Tidy (fun _ => True) (changeStats i table tablet entries rows) := by
  unfold changeStats
  split
  · exact tidy_pure trivial
  · refine tidy_bind (tidy_readStats hi table tablet) fun stats hstats => ?_
    exact tidy_put ⟨.stats i table tablet, hi, rfl,
      stats.change entries rows, hstats, rfl⟩

-- ================================================== checks

theorem code_ofLockId {id : Int64} {e : ServiceError}
    (h : LockKind.ofLockId id = .error e) : e.code ≠ .internal := by
  unfold LockKind.ofLockId at h
  repeat' split at h
  all_goals cases h
  exact nofun

theorem code_ofTakingLockId {id : Int64} {e : ServiceError}
    (h : LockKind.ofTakingLockId id = .error e) : e.code ≠ .internal := by
  unfold LockKind.ofTakingLockId at h
  cases hkind : LockKind.ofLockId id with
  | error e' =>
      rw [hkind] at h
      obtain rfl := Except.error.inj h
      exact code_ofLockId hkind
  | ok kind =>
      rw [hkind] at h
      cases kind <;> cases h
      exact nofun

theorem code_ofRequest {version : LockVersion} {tablets : List TabletId}
    {e : ServiceError}
    (h : LockScope.ofRequest version table tablets = .error e) :
    e.code ≠ .internal := by
  unfold LockScope.ofRequest at h
  cases version with
  | v1 => cases h
  | v2 =>
      simp only at h
      split at h
      · cases h
        rintro ⟨⟩
      · cases h

theorem code_leaseEnd {now : Instant} {secs : UInt64} {e : ServiceError}
    (h : leaseEnd now secs = .error e) : e.code ≠ .internal := by
  unfold leaseEnd at h
  split at h
  · cases h
    exact nofun
  · split at h
    · cases h
    · cases h
      exact nofun

theorem tidy_versionOf {taken : Option LockVersion} :
    Tidy (fun _ => True) (versionOf i taken) := by
  refine tidy_seq tidy_route fun routed => ?_
  cases taken with
  | none => exact tidy_pure trivial
  | some version =>
      simp only
      split
      · exact tidy_pure trivial
      · exact tidy_throw nofun

-- ================================================== the lock

/-- What is granted can be written. -/
theorem tidy_grants (hi : i.IsValid) {now expiration : Instant}
    (hexpiration : expiration.IsProper) :
    ∀ scopes : List LockScope,
      Tidy (fun granted => ∀ g ∈ granted, g.record.expiration.IsProper)
        (grants i kind initiator now expiration scopes) := by
  intro scopes
  induction scopes with
  | nil => exact tidy_pure nofun
  | cons scope rest ih =>
      refine tidy_bind (tidy_readLock hi scope) fun current hcurrent => ?_
      split
      · exact tidy_seq tidy_report fun _ => tidy_throw nofun
      · rename_i record outcome hacquire
        refine tidy_bind ih fun granted hgranted => tidy_pure ?_
        intro g hg
        rcases List.mem_cons.1 hg with rfl | hg
        · exact LockRecord.isProper_of_acquire hcurrent hexpiration hacquire
        · exact hgranted g hg

theorem tidy_releases (hi : i.IsValid) :
    ∀ scopes : List LockScope,
      Tidy (fun _ => True) (releases i kind initiator scopes) := by
  intro scopes
  induction scopes with
  | nil => exact tidy_pure trivial
  | cons scope rest ih =>
      have hgoes : ∀ outcome : LockOutcome, Tidy (fun _ => True) (do
          return outcome :: (← releases i kind initiator rest)) :=
        fun outcome => tidy_seq ih fun _ => tidy_pure trivial
      refine tidy_bind (tidy_readLock hi scope) fun current hcurrent => ?_
      split
      · exact tidy_seq tidy_remove fun _ => hgoes .released
      · rename_i record hrelease
        obtain ⟨held, hheld, hexpiration⟩ :=
          LockRecord.expiration_of_release hrelease
        refine tidy_seq (tidy_put ⟨.lock i scope, hi, rfl, record, ?_, rfl⟩)
          fun _ => hgoes .released
        rw [hexpiration]
        exact hcurrent held hheld
      · exact hgoes .staleRelease

theorem tidy_checkHolder (hi : i.IsValid) :
    Tidy (fun _ => True) (checkHolder i table tablet kind initiator) := by
  refine tidy_seq tidy_route fun version => ?_
  refine tidy_bind (tidy_readLock hi _) fun current _ => ?_
  refine tidy_bind tidy_now fun now _ => ?_
  split
  · exact tidy_pure trivial
  · exact tidy_throw nofun

-- ================================================== bitmaps

theorem tidy_putEntries (hi : i.IsValid) :
    ∀ {l : List (BitmapKey × RowSet)}, (∀ e ∈ l, e.1.rowset.IsValid) →
      Tidy (fun _ => True) (putEntries i tablet l) := by
  intro l
  induction l with
  | nil => intro _; exact tidy_pure trivial
  | cons e rest ih =>
      intro hvalid
      have he := hvalid e (List.mem_cons_self ..)
      have hrest := ih fun other hother =>
        hvalid other (List.mem_cons_of_mem _ hother)
      have hgoes : ∀ found : Int × Nat, Tidy (fun _ => True) (do
          ask (.put (e.1.stored i tablet) e.2.encode)
          let change ← putEntries i tablet rest
          return (change.1 + found.1,
            change.2 + e.2.cardinality - found.2)) :=
        fun found => tidy_seq
          (tidy_put ⟨.entry i tablet e.1, ⟨hi, he⟩, rfl, e.2, rfl⟩) fun _ =>
            tidy_seq hrest fun _ => tidy_pure trivial
      rw [putEntries]
      refine tidy_bind tidy_get fun held hheld => ?_
      cases held with
      | none => exact tidy_seq (tidy_pure trivial) hgoes
      | some bytes =>
          obtain ⟨rows, hrows⟩ :=
            (hheld bytes rfl).holds (.entry i tablet e.1) ⟨hi, he⟩
          exact tidy_seq (tidy_rowsOf hrows) fun _ =>
            tidy_seq (tidy_pure trivial) hgoes

/-- Listed entries of a tablet are read, keys and rows. -/
theorem tidy_collect (hi : i.IsValid) {first last : Version} :
    ∀ {l : List (Bytes × Bytes)} {bitmap : DeleteBitmap},
      (∀ e ∈ l, Bytes.ofText (Key.tabletStem i tablet) <+: e.1
        ∧ IsRecord e.1 e.2) →
      Tidy (fun _ => True) (collect first last bitmap l) := by
  intro l
  induction l with
  | nil => intro bitmap _; exact tidy_pure trivial
  | cons e rest ih =>
      intro bitmap hlisted
      obtain ⟨key, value⟩ := e
      have hrest := fun other hother =>
        hlisted other (List.mem_cons_of_mem _ hother)
      obtain ⟨hstem, hrecord⟩ := hlisted (key, value) (List.mem_cons_self ..)
      obtain ⟨entry, hentry, rfl, rows, hrows⟩ := hrecord.entry hi hstem
      have hparse : Key.parseEntry? (StoreKey.bytes (.entry i tablet entry))
          = some (entry.rowset, entry.segment, entry.version) :=
        BitmapKey.parse_stored hi hentry
      simp only [collect, hparse]
      split
      · exact tidy_seq (tidy_rowsOf hrows) fun _ => ih hrest
      · exact ih hrest

/-- What a scan of a rowset lists are entries of its tablet. -/
theorem tidy_scan_rowset {context : String} {rowset : RowsetId} :
    Tidy (fun found => ∀ e ∈ found,
        Bytes.ofText (Key.tabletStem i tablet) <+: e.1 ∧ IsRecord e.1 e.2)
      (scan context (.ofText (Key.rowsetStem i tablet rowset))) := by
  refine tidy_mono (fun found hfound e he => ?_) tidy_scan
  obtain ⟨hstem, hrecord⟩ := hfound e he
  exact ⟨(Key.rowsetStem_extends i tablet rowset).trans hstem, hrecord⟩

theorem tidy_collectRowsets (hi : i.IsValid) {first last : Version} :
    ∀ (names : List String) (bitmap : DeleteBitmap),
      Tidy (fun _ => True)
        (collectRowsets i tablet first last bitmap names) := by
  intro names
  induction names with
  | nil => intro bitmap; exact tidy_pure trivial
  | cons name rest ih =>
      intro bitmap
      refine tidy_bind tidy_rowsetOf fun rowset _ => ?_
      refine tidy_bind tidy_scan_rowset fun found hfound => ?_
      exact tidy_seq (tidy_collect hi hfound) ih

theorem tidy_removeEntries (hi : i.IsValid) :
    ∀ {l : List (Bytes × Bytes)},
      (∀ e ∈ l, Bytes.ofText (Key.tabletStem i tablet) <+: e.1
        ∧ IsRecord e.1 e.2) → Tidy (fun _ => True) (removeEntries l) := by
  intro l
  induction l with
  | nil => intro _; exact tidy_pure trivial
  | cons e rest ih =>
      intro hlisted
      obtain ⟨hstem, hrecord⟩ := hlisted e (List.mem_cons_self ..)
      obtain ⟨entry, -, -, rows, hrows⟩ := hrecord.entry hi hstem
      refine tidy_seq (tidy_rowsOf hrows) fun _ => tidy_seq tidy_remove
        fun _ => ?_
      exact tidy_seq (ih fun other hother =>
        hlisted other (List.mem_cons_of_mem _ hother)) fun _ => tidy_pure trivial

theorem tidy_removeRowsets (hi : i.IsValid) :
    ∀ names : List String,
      Tidy (fun _ => True) (removeRowsets i tablet names) := by
  intro names
  induction names with
  | nil => exact tidy_pure trivial
  | cons name rest ih =>
      refine tidy_bind tidy_rowsetOf fun rowset _ => ?_
      refine tidy_bind tidy_scan_rowset fun found hfound => ?_
      exact tidy_seq (tidy_removeEntries hi hfound) fun _ =>
        tidy_seq ih fun _ => tidy_pure trivial

-- ================================================== requests

theorem tidy_acquireLock (config : LockConfig) (r : AcquireLock) :
    Tidy (fun _ => True) (acquireLock config r) := by
  unfold acquireLock
  refine tidy_bind tidy_instanceOf fun i hof => ?_
  have hi := InstanceId.isValid_of_ofText hof
  refine tidy_seq (tidy_lift (fun _ => code_ofTakingLockId)
    fun _ _ => trivial) fun kind => ?_
  refine tidy_seq tidy_versionOf fun version => ?_
  refine tidy_seq (tidy_lift (fun _ => code_ofRequest)
    fun _ _ => trivial) fun scopes => ?_
  refine tidy_bind tidy_now fun now hnow => ?_
  refine tidy_bind (tidy_lift (fun _ => code_leaseEnd)
    fun _ hend => isProper_of_leaseEnd hnow hend) fun expiration hproper => ?_
  refine tidy_seq tidy_start fun _ => ?_
  refine tidy_bind (tidy_grants hi hproper scopes) fun granted hgranted => ?_
  refine tidy_seq (tidy_forM fun g hg => ?_) fun _ => ?_
  · exact tidy_put ⟨.lock i g.scope, hi, rfl, g.record, hgranted g hg, rfl⟩
  · have hgoes : ∀ stats : List TabletStats, Tidy (fun _ => True) (do
        commit "commit delete bitmap update lock"
        granted.forM fun g => ask (.report (.lock g.outcome))
        return stats) := fun stats =>
      tidy_seq tidy_commit fun _ =>
        tidy_seq (tidy_forM fun _ _ => tidy_report) fun _ => tidy_pure trivial
    split
    · exact tidy_seq (tidy_mapM (fun tablet =>
        tidy_mono (fun _ _ => trivial) (tidy_readStats hi r.table tablet)) _)
        hgoes
    · exact tidy_seq (tidy_pure trivial) hgoes

theorem tidy_releaseLock (r : ReleaseLock) :
    Tidy (fun _ => True) (releaseLock r) := by
  unfold releaseLock
  refine tidy_bind tidy_instanceOf fun i hof => ?_
  have hi := InstanceId.isValid_of_ofText hof
  refine tidy_seq (tidy_lift (fun _ => code_ofTakingLockId)
    fun _ _ => trivial) fun kind => ?_
  refine tidy_seq tidy_versionOf fun version => ?_
  refine tidy_seq (tidy_lift (fun _ => code_ofRequest)
    fun _ _ => trivial) fun scopes => ?_
  refine tidy_seq tidy_start fun _ => ?_
  refine tidy_seq (tidy_releases hi scopes) fun outcomes => ?_
  exact tidy_seq tidy_commit fun _ => tidy_forM fun _ _ => tidy_report

theorem tidy_updateBitmap {r : UpdateBitmap}
    (hnames : (Call.updateBitmap r).NamesRowsets) :
    Tidy (fun _ => True) (updateBitmap r) := by
  unfold updateBitmap
  refine tidy_bind tidy_instanceOf fun i hof => ?_
  have hi := InstanceId.isValid_of_ofText hof
  refine tidy_seq (tidy_lift (fun _ => code_ofLockId)
    fun _ _ => trivial) fun kind => ?_
  refine tidy_seq tidy_start fun _ => ?_
  have hwrite : Tidy (fun _ => True) (do
      let change ← putEntries i r.tablet r.bitmap.toList
      changeStats i r.table r.tablet change.1 change.2
      commit "commit delete bitmap") :=
    tidy_seq (tidy_putEntries hi hnames) fun _ =>
      tidy_seq (tidy_changeStats hi) fun _ => tidy_commit
  split
  · exact tidy_seq (tidy_checkHolder hi) fun _ => hwrite
  · exact hwrite

theorem tidy_readBitmap (r : ReadBitmap) :
    Tidy (fun _ => True) (readBitmap r) := by
  unfold readBitmap
  refine tidy_bind tidy_instanceOf fun i hof => ?_
  have hi := InstanceId.isValid_of_ofText hof
  split
  · exact tidy_seq tidy_start fun _ => tidy_collectRowsets hi _ _
  · exact tidy_throw nofun

theorem tidy_removeBitmap (r : RemoveBitmap) :
    Tidy (fun _ => True) (removeBitmap r) := by
  unfold removeBitmap
  refine tidy_bind tidy_instanceOf fun i hof => ?_
  have hi := InstanceId.isValid_of_ofText hof
  refine tidy_seq tidy_start fun _ => ?_
  refine tidy_seq (tidy_removeRowsets hi _) fun removed => ?_
  exact tidy_seq (tidy_changeStats hi) fun _ => tidy_commit

end Handler

namespace Call

theorem tidy_handler (config : LockConfig) {call : Call}
    (hnames : call.NamesRowsets) :
    Handler.Tidy (fun _ => True) (call.handler config) := by
  cases call with
  | acquireLock r => exact Handler.tidy_acquireLock config r
  | releaseLock r => exact Handler.tidy_releaseLock r
  | updateBitmap r => exact Handler.tidy_updateBitmap hnames
  | readBitmap r => exact Handler.tidy_readBitmap r
  | removeBitmap r => exact Handler.tidy_removeBitmap r

/-- An attempt at a request that is told nothing but records puts nothing
else, and does not respond with an internal error. -/
theorem tidy_attempt (config : LockConfig) {call : Call}
    (hnames : call.NamesRowsets) :
    Script.Tidy (fun response : Response call.Payload =>
      response.status.code ≠ .internal) (call.attempt config) := by
  refine Script.tidy_bind (call.tidy_handler config hnames)
    fun result hresult => ?_
  cases result with
  | ok payload => exact nofun
  | error e => exact hresult

end Call

end MergeOnWrite
