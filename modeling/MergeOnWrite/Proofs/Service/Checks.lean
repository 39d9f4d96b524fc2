/-
What requests fail of when the store refuses them nothing.

A request may be out of order, or take another version of the protocol for
granted than is in use; others may hold what it asks for, or it may not hold
what it claims; and what is stored may be no record at all. Which of these it
is shows in what the request has been answered so far, the last answer first
(`Call.FailsAt`). So what a request fails of is told without the handlers, and
which code belongs to it (`Check.code`).

Handlers heed the checks: this is told by a judgement on their parts
(`Handler.Heeds`). A part goes on from what has been heard. It asks nothing
where a check fails, it ends with an error only where one does, and with the
code of that one, and it comes out well with what the next part relies on.

# Main statements

- `Call.FailsAt.unique`: at most one check fails at a time.
- `Call.HasPassed.note`: who asks on has failed of nothing so far.
- `Call.passes_get`: what is read at a key passes if it can be read.
- `Handler.heeds_bind` and the rules after it: the parts of handlers.
-/
import MergeOnWrite.Proofs.Service.Admission
import MergeOnWrite.Proofs.Service.Phases
import MergeOnWrite.Proofs.Service.Retry

namespace MergeOnWrite

-- ================================================== checks

/-- What requests can fail of. -/
inductive Check where
  /-- The request is not in order. -/
  | argument
  /-- Another version of the protocol is in use. -/
  | version
  /-- Others hold a scope. -/
  | busy
  /-- The caller does not hold the lock. -/
  | expired
  /-- What is stored cannot be read. -/
  | record
deriving DecidableEq, Repr

/-- The code of the response to a request that fails of something. -/
def Check.code : Check → ServiceCode
  | .argument => .invalidArgument
  | .version => .protocolVersionMismatch
  | .busy => .lockConflict
  | .expired => .lockExpired
  | .record => .internal

/-- True of bytes that can be read as what belongs at the key of a record. -/
def StoreKey.Reads : StoreKey → Bytes → Prop
  | .lock _ _, value => ∃ record, LockRecord.decode? value = some record
  | .entry _ _ _, value =>
    ∃ containers, RowSet.Container.decodeAll value = .ok containers
  | .stats _ _ _, value => ∃ stats, TabletStats.decode? value = some stats

section Keys

variable {a b key : StoreKey} {i : InstanceId} {tablet : TabletId}
  {entry : BitmapKey} {value : Bytes}

/-- Only entries have keys of entries, whatever their rowsets are called. -/
theorem StoreKey.eq_entry_of_bytes_eq (hkey : key.owner.IsValid)
    (hi : i.IsValid) (h : key.bytes = bytes (.entry i tablet entry)) :
    ∃ j other held, key = .entry j other held := by
  have hstem : tablet.stem i <+: key.bytes := by
    rw [h]
    exact entry.stored_extends i tablet
  cases key with
  | lock j scope => exact absurd hstem (Key.not_extends_lock hi hkey)
  | entry j other held => exact ⟨j, other, held, rfl⟩
  | stats j table other => exact absurd hstem (Key.not_extends_stats hi hkey)

/-- A key tells how the bytes at it are read. -/
theorem StoreKey.reads_congr (ha : a.owner.IsValid) (hb : b.owner.IsValid)
    (h : a.bytes = b.bytes) : a.Reads value ↔ b.Reads value := by
  cases a with
  | entry i tablet entry =>
      obtain ⟨_, _, _, rfl⟩ := eq_entry_of_bytes_eq hb ha h.symm
      exact Iff.rfl
  | lock i scope =>
      cases b with
      | lock j other => exact Iff.rfl
      | entry j tablet entry =>
          obtain ⟨_, _, _, heq⟩ := eq_entry_of_bytes_eq ha hb h
          cases heq
      | stats j table tablet =>
          exact absurd (Bytes.ofText_inj h) (LockScope.key_ne_stats ha hb)
  | stats i table tablet =>
      cases b with
      | lock j scope =>
          exact absurd (Bytes.ofText_inj h.symm) (LockScope.key_ne_stats hb ha)
      | entry j other entry =>
          obtain ⟨_, _, _, heq⟩ := eq_entry_of_bytes_eq ha hb h
          cases heq
      | stats j fellow other => exact Iff.rfl

end Keys

/-- True of what only tells the surroundings about an event. -/
def Question.isReport : Question → Bool
  | .report _ => true
  | _ => false

theorem Question.isReport_of_refusal {q : Question} {x : q.Answer}
    {code : StoreCode} (h : q.refusal? x = some code) : q.isReport = false := by
  cases q with
  | report event => cases h
  | _ => rfl

namespace Exchange

/-- What has been heard after an exchange. Reports are not answered, so
nothing is heard by them. -/
def note (exchange : Exchange) (heard : List Exchange) : List Exchange :=
  if exchange.1.isReport then heard else exchange :: heard

theorem note_of_not_report {exchange : Exchange} {heard : List Exchange}
    (h : exchange.1.isReport = false) :
    exchange.note heard = exchange :: heard := by
  rw [note, h]
  rfl

/-- The entries of the last scan that have not been removed since. None are
listed by the begin; once something else is asked, there is no listing. -/
def left? : List Exchange → Option (List (Bytes × Bytes))
  | ⟨.start, _⟩ :: _ => some []
  | ⟨.scan _, .ok entries⟩ :: _ => some entries
  | ⟨.remove _, _⟩ :: earlier => (left? earlier).map List.tail
  | _ => none

/-- The number of scans. -/
def scans (heard : List Exchange) : Nat :=
  heard.countP fun exchange => exchange.1 matches .scan _

theorem scans_cons {stem : Bytes} {x : (Question.scan stem).Answer}
    {heard : List Exchange} :
    scans (⟨.scan stem, x⟩ :: heard) = scans heard + 1 :=
  List.countP_cons_of_pos rfl

/-- Rowsets are scanned in their order, so the next one is the first of those
that are left. -/
theorem getElem?_scans {rowsets names : List String} {heard : List Exchange}
    (h : rowsets.drop (scans heard) = names) :
    rowsets[scans heard]? = names.head? := by
  rw [← h, List.head?_drop]

theorem drop_scans_cons {rowsets names : List String} {stem : Bytes}
    {x : (Question.scan stem).Answer} {heard : List Exchange}
    (h : rowsets.drop (scans heard) = names) :
    rowsets.drop (scans (⟨.scan stem, x⟩ :: heard)) = names.tail := by
  rw [scans_cons, ← List.tail_drop, h]

end Exchange

-- ================================================== requests

namespace ReadBitmap

/-- True of an entry that can be read as far as it is asked for. -/
def CanTake (r : ReadBitmap) (entry : Bytes × Bytes) : Prop :=
  ∃ rowset segment version,
    Key.parseEntry? entry.1 = some (rowset, segment, version)
      ∧ (r.beginVersion ≤ version ∧ version ≤ r.endVersion →
        ∃ containers, RowSet.Container.decodeAll entry.2 = .ok containers)

end ReadBitmap

namespace Call

/-- True of a request that says nothing that is out of order by itself. -/
def IsInOrder (call : Call) : Prop :=
  InstanceId.IsValid ⟨call.instanceName⟩ ∧ match call with
    | .acquireLock r => r.lockId = -1 ∨ r.lockId = -2 ∨ 0 < r.lockId
    | .releaseLock r => r.lockId = -1 ∨ r.lockId = -2 ∨ 0 < r.lockId
    | .updateBitmap r =>
      r.lockId = -1 ∨ r.lockId = -2 ∨ r.lockId = -3 ∨ 0 < r.lockId
    | .readBitmap r => r.beginVersion ≤ r.endVersion
    | .removeBitmap _ => True

/-- True of a version of the protocol that a request does not rule out. -/
def Allows (call : Call) (version : LockVersion) : Prop :=
  match call with
  | .acquireLock r => ∀ taken, r.version = some taken → taken = version
  | .releaseLock r => ∀ taken, r.version = some taken → taken = version
  | .updateBitmap _ | .readBitmap _ | .removeBitmap _ => True

/-- True of a request that names what it locks, which takes tablets in the
second version. -/
def NamesScopes (call : Call) (version : LockVersion) : Prop :=
  match call with
  | .acquireLock r => version = .v2 → r.tablets ≠ []
  | .releaseLock r => version = .v2 → r.tablets ≠ []
  | .updateBitmap _ | .readBitmap _ | .removeBitmap _ => True

/-- What a request that is refused nothing fails of, after what it has heard;
what it has heard last stands first. -/
inductive FailsAt (config : LockConfig) : Call → List Exchange → Check → Prop
  /-- Before it asks anything a request must be in order. -/
  | order {call : Call} :
    ¬ call.IsInOrder → FailsAt config call [] .argument
  | version {call : Call} {i : InstanceId} {version : LockVersion}
    {heard : List Exchange} :
    ¬ call.Allows version →
    FailsAt config call (⟨.route i, version⟩ :: heard) .version
  | scopes {call : Call} {i : InstanceId} {version : LockVersion}
    {heard : List Exchange} :
    call.Allows version → ¬ call.NamesScopes version →
    FailsAt config call (⟨.route i, version⟩ :: heard) .argument
  | lease {r : AcquireLock} {now : Instant} {heard : List Exchange} :
    ¬ r.Lasts config now →
    FailsAt config (.acquireLock r) (⟨.now, now⟩ :: heard) .argument
  /-- A record of its instance must be readable. -/
  | record {call : Call} {name : StoreKey} {key value : Bytes}
    {heard : List Exchange} :
    name.owner.text = call.instanceName → key = name.bytes →
    ¬ name.Reads value →
    FailsAt config call (⟨.get key, .ok (some value)⟩ :: heard) .record
  /-- The record of a scope must admit who asks for it. -/
  | busy {r : AcquireLock} {i : InstanceId} {version : LockVersion}
    {scope : LockScope} {key value : Bytes} {held : LockRecord} {now : Instant}
    {heard : List Exchange} :
    i.IsValid → i.text = r.instanceName → ⟨.route i, version⟩ ∈ heard →
    scope ∈ LockScope.named version r.table r.tablets →
    key = scope.keyBytes i → LockRecord.decode? value = some held →
    ⟨.now, now⟩ ∈ heard →
    ¬ LockRecord.Admits (some held) r.lockId r.initiator now →
    FailsAt config (.acquireLock r) (⟨.get key, .ok (some value)⟩ :: heard)
      .busy
  /-- The record of the scope that guards a tablet must cover who stores
  entries. -/
  | expired {r : UpdateBitmap} {i : InstanceId} {version : LockVersion}
    {key : Bytes} {found : Option Bytes} {current : Option LockRecord}
    {now : Instant} {heard : List Exchange} :
    i.text = r.instanceName → ⟨.route i, version⟩ ∈ heard →
    key = (LockScope.guarding version r.table r.tablet).keyBytes i →
    found.map LockRecord.decode? = current.map some →
    ¬ LockRecord.Covers current r.lockId r.initiator now →
    FailsAt config (.updateBitmap r)
      (⟨.now, now⟩ :: ⟨.get key, .ok found⟩ :: heard) .expired
  /-- All entries that are listed are read before anything else is asked. -/
  | listed {r : ReadBitmap} {heard : List Exchange}
    {entries : List (Bytes × Bytes)} {entry : Bytes × Bytes} :
    Exchange.left? heard = some entries → entry ∈ entries →
    ¬ r.CanTake entry → FailsAt config (.readBitmap r) heard .record
  | rowsetRead {r : ReadBitmap} {heard : List Exchange}
    {entries : List (Bytes × Bytes)} {name : String} :
    Exchange.left? heard = some entries →
    (∀ entry ∈ entries, r.CanTake entry) →
    r.rowsets[Exchange.scans heard]? = some name →
    ¬ RowsetId.IsValid ⟨name⟩ → FailsAt config (.readBitmap r) heard .argument
  /-- Entries are read one after another, each before it is removed. -/
  | removed {r : RemoveBitmap} {heard : List Exchange}
    {entry : Bytes × Bytes} {rest : List (Bytes × Bytes)} :
    Exchange.left? heard = some (entry :: rest) →
    (∀ containers, RowSet.Container.decodeAll entry.2 ≠ .ok containers) →
    FailsAt config (.removeBitmap r) heard .record
  | rowsetRemoved {r : RemoveBitmap} {heard : List Exchange} {name : String} :
    Exchange.left? heard = some [] →
    r.rowsets[Exchange.scans heard]? = some name →
    ¬ RowsetId.IsValid ⟨name⟩ →
    FailsAt config (.removeBitmap r) heard .argument

/-- True of what a request has heard if it fails of nothing after that. -/
def Passes (config : LockConfig) (call : Call) (heard : List Exchange) :
    Prop :=
  ∀ check, ¬ call.FailsAt config heard check

/-- True of what a request has heard if it failed of nothing before that. -/
def HasPassed (config : LockConfig) (call : Call) (heard : List Exchange) :
    Prop :=
  ∀ earlier, earlier <:+ heard → earlier ≠ heard → call.Passes config earlier

section Passing

variable {config : LockConfig} {call : Call} {heard : List Exchange}

/-- A record of a lock is read as such, whatever its key is called. -/
theorem reads_of_decode {i : InstanceId} {scope : LockScope} {name : StoreKey}
    {key value : Bytes} {held : LockRecord} (hi : i.IsValid)
    (htext : i.text = name.owner.text) (hkey : key = scope.keyBytes i)
    (hname : key = name.bytes) (hdecode : LockRecord.decode? value = some held) :
    name.Reads value := by
  have howner : name.owner.IsValid := InstanceId.text_inj.1 htext ▸ hi
  have hbytes : (StoreKey.lock i scope).bytes = name.bytes :=
    hkey.symm.trans hname
  have hlock : (StoreKey.lock i scope).owner.IsValid := hi
  exact (StoreKey.reads_congr hlock howner hbytes).1 ⟨held, hdecode⟩

/-- At most one check fails at a time. -/
theorem FailsAt.unique {a b : Check} (ha : call.FailsAt config heard a)
    (hb : call.FailsAt config heard b) : a = b := by
  cases ha with
  | order hnot =>
      cases hb with
      | order => rfl
      | listed hleft | rowsetRead hleft | removed hleft
      | rowsetRemoved hleft => cases hleft
  | version hnot =>
      cases hb with
      | version => rfl
      | scopes hallows => exact absurd hallows hnot
      | listed hleft | rowsetRead hleft | removed hleft
      | rowsetRemoved hleft => cases hleft
  | scopes hallows =>
      cases hb with
      | version hnot => exact absurd hallows hnot
      | scopes => rfl
      | listed hleft | rowsetRead hleft | removed hleft
      | rowsetRemoved hleft => cases hleft
  | lease | expired => cases hb; rfl
  | record htext hkey hnot =>
      cases hb with
      | record => rfl
      | busy hi hother _ _ hbytes hdecode =>
          refine absurd ?_ hnot
          exact reads_of_decode hi (hother.trans htext.symm) hbytes hkey hdecode
      | listed hleft | rowsetRead hleft | removed hleft
      | rowsetRemoved hleft => cases hleft
  | busy hi htext _ _ hkey hdecode =>
      cases hb with
      | record hother hbytes hnot =>
          refine absurd ?_ hnot
          exact reads_of_decode hi (htext.trans hother.symm) hkey hbytes hdecode
      | busy => rfl
  | listed hleft hentry hnot =>
      cases hb with
      | order | version | scopes | record => cases hleft
      | listed => rfl
      | rowsetRead hleft' hall =>
          obtain rfl := Option.some.inj (hleft.symm.trans hleft')
          exact absurd (hall _ hentry) hnot
  | rowsetRead hleft hall =>
      cases hb with
      | order | version | scopes | record => cases hleft
      | rowsetRead => rfl
      | listed hleft' hentry hnot =>
          obtain rfl := Option.some.inj (hleft.symm.trans hleft')
          exact absurd (hall _ hentry) hnot
  | removed hleft =>
      cases hb with
      | order | version | scopes | record => cases hleft
      | removed => rfl
      | rowsetRemoved hleft' => cases hleft.symm.trans hleft'
  | rowsetRemoved hleft =>
      cases hb with
      | order | version | scopes | record => cases hleft
      | removed hleft' => cases hleft.symm.trans hleft'
      | rowsetRemoved => rfl

theorem hasPassed_nil : call.HasPassed config [] :=
  fun _ hsuffix hne => absurd (List.suffix_nil.1 hsuffix) hne

/-- A request asks on only where it passes. -/
theorem HasPassed.note {exchange : Exchange} (h : call.HasPassed config heard)
    (hpass : exchange.1.isReport = false → call.Passes config heard) :
    call.HasPassed config (exchange.note heard) := by
  cases hreport : exchange.1.isReport with
  | true =>
      rw [Exchange.note, hreport]
      exact h
  | false =>
      rw [Exchange.note_of_not_report hreport]
      intro earlier hsuffix hne
      rcases List.suffix_cons_iff.1 hsuffix with heq | hsuffix
      · exact absurd heq hne
      · by_cases heq : earlier = heard
        · exact heq ▸ hpass hreport
        · exact h earlier hsuffix heq

/-- What is in order passes at first. -/
theorem passes_nil (h : call.IsInOrder) : call.Passes config [] := by
  intro check hfails
  cases hfails with
  | order hnot => exact hnot h
  | listed hleft | rowsetRead hleft | removed hleft
  | rowsetRemoved hleft => cases hleft

theorem passes_route {i : InstanceId} {version : LockVersion}
    (hallows : call.Allows version) (hscopes : call.NamesScopes version) :
    call.Passes config (⟨.route i, version⟩ :: heard) := by
  intro check hfails
  cases hfails with
  | version hnot => exact hnot hallows
  | scopes _ hnot => exact hnot hscopes
  | listed hleft | rowsetRead hleft | removed hleft
  | rowsetRemoved hleft => cases hleft

/-- A record that can be read passes, unless it is that of a busy scope. -/
theorem passes_get (name : StoreKey) {found : Option Bytes}
    (howner : name.owner.IsValid)
    (htext : name.owner.text = call.instanceName)
    (hreads : ∀ value, found = some value → name.Reads value)
    (hfree : ¬ call.FailsAt config (⟨.get name.bytes, .ok found⟩ :: heard)
      .busy) :
    call.Passes config (⟨.get name.bytes, .ok found⟩ :: heard) := by
  intro check hfails
  by_cases hbusy : check = .busy
  · exact hfree (hbusy ▸ hfails)
  · generalize hkey : name.bytes = key at hfails
    cases hfails with
    | record hother hbytes hnot =>
        have hsame := InstanceId.text_inj.1 (hother.trans htext.symm)
        have hread := hreads _ rfl
        rw [StoreKey.reads_congr howner (hsame ▸ howner)
          (hkey.trans hbytes)] at hread
        exact hnot hread
    | busy => exact hbusy rfl
    | listed hleft | rowsetRead hleft | removed hleft
    | rowsetRemoved hleft => cases hleft

/-- No scope is busy by what is stored of the statistics. -/
theorem not_busy_stats {i : InstanceId} {table : TableId} {tablet : TabletId}
    {found : Option Bytes} (hi : i.IsValid)
    (htext : i.text = call.instanceName) :
    ¬ call.FailsAt config
      (⟨.get (StoreKey.stats i table tablet).bytes, .ok found⟩ :: heard)
      .busy := by
  intro hfails
  generalize hkey : (StoreKey.stats i table tablet).bytes = key at hfails
  cases hfails with
  | busy _ hother _ _ hbytes =>
      obtain rfl := InstanceId.text_inj.1 (hother.trans htext.symm)
      exact LockScope.key_ne_stats hi hi
        (Bytes.ofText_inj (hkey.trans hbytes).symm)

end Passing

end Call

-- ================================================== the judgement

section Judgement

variable {α β : Type} {fails : List Exchange → Check → Prop}

/-- True of scripts that ask nothing while a check fails, from what has been
heard on, and end as they may after what they have heard then; what they do
not ask but report is up to them. Of a script that is refused something nothing
is said. -/
def Script.Heeds (fails : List Exchange → Check → Prop)
    (ends : List Exchange → α → Prop) : List Exchange → Script α → Prop
  | heard, .done x => ends heard x
  | heard, .ask q next =>
    (q.isReport = false → ∀ check, ¬ fails heard check)
      ∧ ∀ x, q.refusal? x = none →
        Script.Heeds fails ends (Exchange.note ⟨q, x⟩ heard) (next x)

theorem Script.heeds_map {ends : List Exchange → α → Prop}
    {ends' : List Exchange → β → Prop} {f : α → β}
    (hends : ∀ heard x, ends heard x → ends' heard (f x)) {s : Script α} :
    ∀ {heard : List Exchange}, Script.Heeds fails ends heard s →
      Script.Heeds fails ends' heard (s.bind fun x => .done (f x)) := by
  induction s with
  | done x =>
      intro heard h
      exact hends heard x h
  | ask q next ih =>
      intro heard ⟨hpass, hnext⟩
      exact ⟨hpass, fun x hx => ih x (hnext x hx)⟩

end Judgement

namespace Handler

variable {α β : Type} {fails : List Exchange → Check → Prop}
  {heard : List Exchange} {post : List Exchange → α → Prop}
  {post' : List Exchange → β → Prop}

/-- A handler that does not come out well ends with the code of what it
fails of. -/
def EndsOn (fails : List Exchange → Check → Prop)
    (post : List Exchange → α → Prop) (heard : List Exchange) :
    Except ServiceError α → Prop
  | .ok a => post heard a
  | .error e => ∃ check, fails heard check ∧ e.code = check.code

def Heeds (fails : List Exchange → Check → Prop)
    (post : List Exchange → α → Prop) (heard : List Exchange) (h : Handler α) :
    Prop :=
  Script.Heeds fails (EndsOn fails post) heard h.run

theorem heeds_pure {a : α} (h : post heard a) :
    Heeds fails post heard (pure a : Handler α) := h

theorem heeds_throw {e : ServiceError} {check : Check} (h : fails heard check)
    (hcode : e.code = check.code) :
    Heeds fails post heard (throw e : Handler α) :=
  ⟨check, h, hcode⟩

/-- A sequence goes on from where its first part comes out well. -/
theorem heeds_bind {h : Handler α} {f : α → Handler β}
    (hs : Heeds fails post heard h)
    (hf : ∀ later a, post later a → Heeds fails post' later (f a)) :
    Heeds fails post' heard (h >>= f) := by
  have hbind : ∀ {s : Script (Except ServiceError α)} {heard : List Exchange},
      Script.Heeds fails (EndsOn fails post) heard s →
        Script.Heeds fails (EndsOn fails post') heard
          (s.bind (ExceptT.bindCont f)) := by
    intro s
    induction s with
    | done result =>
        intro heard hs
        cases result with
        | ok a => exact hf heard a hs
        | error e => exact hs
    | ask q next ih =>
        intro heard ⟨hpass, hnext⟩
        exact ⟨hpass, fun x hx => ih x (hnext x hx)⟩
  exact hbind hs

/-- What a handler comes out with may be told in other words. -/
theorem Heeds.imp {post' : List Exchange → α → Prop} {h : Handler α}
    (hs : Heeds fails post heard h)
    (himp : ∀ later a, post later a → post' later a) :
    Heeds fails post' heard h := by
  have hscript : ∀ {s : Script (Except ServiceError α)}
      {heard : List Exchange},
      Script.Heeds fails (EndsOn fails post) heard s →
        Script.Heeds fails (EndsOn fails post') heard s := by
    intro s
    induction s with
    | done result =>
        intro heard hs
        cases result with
        | ok a => exact himp heard a hs
        | error e => exact hs
    | ask q next ih =>
        intro heard ⟨hpass, hnext⟩
        exact ⟨hpass, fun x hx => ih x (hnext x hx)⟩
  exact hscript hs

theorem heeds_ask {q : Question} (hq : q.isReport = false)
    (hpass : ∀ check, ¬ fails heard check) :
    Heeds fails (fun later x => later = ⟨q, x⟩ :: heard) heard (ask q) :=
  ⟨fun _ => hpass, fun _ _ => Exchange.note_of_not_report hq⟩

/-- Reports may be made at any time. -/
theorem heeds_report {event : Report} :
    Heeds fails (fun later _ => later = heard) heard (ask (.report event)) :=
  ⟨nofun, fun _ _ => rfl⟩

theorem heeds_start (hpass : ∀ check, ¬ fails heard check) :
    Heeds fails (fun later _ => later = ⟨.start, .ok ()⟩ :: heard) heard
      start := by
  refine ⟨fun _ => hpass, fun x hx => ?_⟩
  cases x with
  | ok _ => rfl
  | error code => cases hx

theorem heeds_get {context : String} {key : Bytes}
    (hpass : ∀ check, ¬ fails heard check) :
    Heeds fails (fun later found => later = ⟨.get key, .ok found⟩ :: heard)
      heard (get context key) := by
  refine ⟨fun _ => hpass, fun x hx => ?_⟩
  cases x with
  | ok _ => rfl
  | error code => cases hx

theorem heeds_scan {context : String} {stem : Bytes}
    (hpass : ∀ check, ¬ fails heard check) :
    Heeds fails
      (fun later entries => later = ⟨.scan stem, .ok entries⟩ :: heard)
      heard (scan context stem) := by
  refine ⟨fun _ => hpass, fun x hx => ?_⟩
  cases x with
  | ok _ => rfl
  | error code => cases hx

theorem heeds_commit {context : String}
    (hpass : ∀ check, ¬ fails heard check) :
    Heeds fails (fun later _ => later = ⟨.commit, .ok ()⟩ :: heard) heard
      (commit context) := by
  refine ⟨fun _ => hpass, fun x hx => ?_⟩
  cases x with
  | ok _ => rfl
  | error code => cases hx

/-- What a request says is in order, or else it is what the request fails
of. -/
theorem heeds_lift {result : Except ServiceError α}
    (he : ∀ e, result = .error e →
      fails heard .argument ∧ e.code = .invalidArgument) :
    Heeds fails (fun later a => later = heard ∧ result = .ok a) heard
      (liftM result : Handler α) := by
  cases result with
  | ok a => exact ⟨rfl, rfl⟩
  | error e => exact ⟨.argument, he e rfl⟩

theorem heeds_instanceOf {name : String}
    (hbad : ¬ InstanceId.IsValid ⟨name⟩ → fails heard .argument) :
    Heeds fails
      (fun later i => later = heard ∧ i.IsValid ∧ i.text = name) heard
      (instanceOf name) := by
  unfold instanceOf check
  cases hi : InstanceId.ofText name with
  | ok i =>
      exact ⟨rfl, InstanceId.isValid_of_ofText hi, InstanceId.text_of_ofText hi⟩
  | error e =>
      refine ⟨.argument, hbad fun hvalid => ?_, rfl⟩
      rw [InstanceId.ofText_eq hvalid] at hi
      cases hi

theorem heeds_rowsetOf {name : String}
    (hbad : ¬ RowsetId.IsValid ⟨name⟩ → fails heard .argument) :
    Heeds fails (fun later _ => later = heard ∧ RowsetId.IsValid ⟨name⟩) heard
      (rowsetOf name) := by
  unfold rowsetOf check
  cases hrowset : RowsetId.ofText name with
  | ok rowset =>
      obtain ⟨hvalid, rfl⟩ := RowsetId.eq_of_ofText hrowset
      exact ⟨rfl, hvalid⟩
  | error e =>
      refine ⟨.argument, hbad fun hvalid => ?_, rfl⟩
      rw [RowsetId.ofText_eq hvalid] at hrowset
      cases hrowset

theorem heeds_rowsOf {bytes : Bytes}
    (hbad : (∀ containers,
      RowSet.Container.decodeAll bytes ≠ .ok containers) →
      fails heard .record) :
    Heeds fails
      (fun later containers => later = heard
        ∧ RowSet.Container.decodeAll bytes = .ok containers) heard
      (rowsOf bytes) := by
  unfold rowsOf check
  cases hrows : RowSet.Container.decodeAll bytes with
  | ok containers => exact ⟨rfl, rfl⟩
  | error e =>
      refine ⟨.record, hbad fun containers h => ?_, rfl⟩
      rw [hrows] at h
      cases h

theorem heeds_stored {decode? : Bytes → Option α} {what : String}
    {bytes : Option Bytes}
    (hbad : ∀ value, bytes = some value → decode? value = none →
      fails heard .record) :
    Heeds fails
      (fun later record => later = heard
        ∧ bytes.map decode? = record.map some) heard
      (stored decode? what bytes) := by
  cases bytes with
  | none => exact ⟨rfl, rfl⟩
  | some value =>
      simp only [stored]
      cases hvalue : decode? value with
      | some record => exact ⟨rfl, congrArg some hvalue⟩
      | none => exact ⟨.record, hbad value rfl hvalue, rfl⟩

theorem heeds_forM (held : List Exchange → Prop) {f : α → Handler Unit}
    (hf : ∀ heard x, held heard →
      Heeds fails (fun later _ => held later) heard (f x)) :
    ∀ (l : List α) {heard : List Exchange}, held heard →
      Heeds fails (fun later _ => held later) heard (l.forM f) := by
  intro l
  induction l with
  | nil =>
      intro heard h
      exact heeds_pure h
  | cons x rest ih =>
      intro heard h
      exact heeds_bind (hf heard x h) fun later _ hlater => ih hlater

/-- Whatever has been heard is not changed by reports. -/
theorem heeds_reports (held : List Exchange → Prop) {event : α → Report}
    (l : List α) (h : held heard) :
    Heeds fails (fun later _ => held later) heard
      (l.forM fun x => ask (.report (event x))) := by
  refine heeds_forM held (fun later x hlater => ?_) l h
  refine heeds_report.imp fun last _ hlast => ?_
  rw [hlast]
  exact hlater

theorem heeds_mapM (held : List Exchange → Prop) {f : α → Handler β}
    (hf : ∀ heard x, held heard →
      Heeds fails (fun later _ => held later) heard (f x)) :
    ∀ (l : List α) {heard : List Exchange}, held heard →
      Heeds fails (fun later _ => held later) heard (l.mapM f) := by
  intro l
  induction l with
  | nil =>
      intro heard h
      exact heeds_pure h
  | cons x rest ih =>
      intro heard h
      rw [List.mapM_cons]
      refine heeds_bind (hf heard x h) fun later _ hlater => ?_
      exact heeds_bind (ih hlater) fun last _ hlast => heeds_pure hlast

-- ================================================== records

section Records

variable {config : LockConfig} {call : Call} {i : InstanceId}

/-- What belongs at a key is read, or else it is what the request fails of.
Then nothing fails, unless it says that a scope is busy. -/
theorem heeds_storedAt (name : StoreKey) {decode? : Bytes → Option α}
    {what : String} {found : Option Bytes} (howner : name.owner.IsValid)
    (htext : name.owner.text = call.instanceName)
    (hreads : ∀ value, name.Reads value
      ↔ ∃ record, decode? value = some record) :
    Heeds (call.FailsAt config)
      (fun later record => later = ⟨.get name.bytes, .ok found⟩ :: heard
        ∧ found.map decode? = record.map some
        ∧ (¬ call.FailsAt config later .busy → call.Passes config later))
      (⟨.get name.bytes, .ok found⟩ :: heard) (stored decode? what found) := by
  apply Heeds.imp
  · apply heeds_stored
    intro value hvalue hnone
    subst hvalue
    refine .record htext rfl fun h => ?_
    obtain ⟨record, hrecord⟩ := (hreads value).1 h
    rw [hnone] at hrecord
    cases hrecord
  · intro later record ⟨hlater, hrecord⟩
    subst hlater
    refine ⟨rfl, hrecord, Call.passes_get name howner htext ?_⟩
    intro value hvalue
    subst hvalue
    cases record with
    | none => cases hrecord
    | some record => exact (hreads value).2 ⟨record, Option.some.inj hrecord⟩

theorem heeds_readLock {scope : LockScope} (hi : i.IsValid)
    (htext : i.text = call.instanceName) (hpass : call.Passes config heard) :
    Heeds (call.FailsAt config)
      (fun later current => ∃ found,
        later = ⟨.get (scope.keyBytes i), .ok found⟩ :: heard
          ∧ found.map LockRecord.decode? = current.map some
          ∧ (¬ call.FailsAt config later .busy → call.Passes config later))
      heard (readLock i scope) := by
  unfold readLock
  refine heeds_bind (heeds_get hpass) fun later found hlater => ?_
  subst hlater
  refine (heeds_storedAt (.lock i scope) hi htext fun _ => Iff.rfl).imp ?_
  intro later current hlater
  exact ⟨found, hlater⟩

theorem heeds_readStats {table : TableId} {tablet : TabletId}
    (hi : i.IsValid) (htext : i.text = call.instanceName)
    (hpass : call.Passes config heard) :
    Heeds (call.FailsAt config) (fun later _ => call.Passes config later) heard
      (readStats i table tablet) := by
  unfold readStats
  refine heeds_bind (heeds_get hpass) fun later found hlater => ?_
  subst hlater
  refine heeds_bind (heeds_storedAt (.stats i table tablet) hi htext
    fun _ => Iff.rfl) fun later record ⟨hlater, _, hpassed⟩ => ?_
  subst hlater
  exact heeds_pure (hpassed (Call.not_busy_stats hi htext))

/-- The rows of an entry are read like other records. -/
theorem heeds_rowsOf_entry {tablet : TabletId} {entry : BitmapKey}
    {value : Bytes} (hi : i.IsValid) (htext : i.text = call.instanceName)
    (hfree : ∀ later, ¬ call.FailsAt config later .busy) :
    Heeds (call.FailsAt config) (fun later _ => call.Passes config later)
      (⟨.get (StoreKey.entry i tablet entry).bytes, .ok (some value)⟩ :: heard)
      (rowsOf value) := by
  have howner : (StoreKey.entry i tablet entry).owner.text
      = call.instanceName := htext
  apply Heeds.imp
  · apply heeds_rowsOf
    intro hbad
    refine .record howner rfl fun h => ?_
    obtain ⟨containers, hcontainers⟩ := h
    exact hbad containers hcontainers
  · intro later containers ⟨hlater, hcontainers⟩
    subst hlater
    refine Call.passes_get (.entry i tablet entry) hi howner ?_ (hfree _)
    intro other hother
    obtain rfl := Option.some.inj hother
    exact ⟨containers, hcontainers⟩

end Records

end Handler

end MergeOnWrite
