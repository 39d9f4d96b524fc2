/-
What handlers read and write, and that there is nothing else.

All keys that a request makes its handler read start with the name of its
instance and a slash, which no key of another instance does, however alike
the names are. What the handler writes lies closer: locks of the scopes that
the request names, entries that it names, or whose rowsets it names, and the
statistics of its tablet.

This is told by a typing of handlers (`Handler.Within`): which keys a handler
may ask for, and what is known of its result. What is asked for may depend on
what was answered before, and two answers count: a scan lists extensions of
its stem only, and the routing is given.

# Main statements

- `StoreKey.extends_stem_iff`: the keys of an instance are those that start
  with its name and a slash.
- `Handler.within_bind` and the rules after it: the footprints of the parts
  of handlers.
- `Call.extends_of_mayChange`: what a request may change has the name of its
  instance in front.
- `Call.within_attempt`: what attempts at requests read and write.
-/
import MergeOnWrite.Proofs.Key.Space
import MergeOnWrite.Proofs.Program
import MergeOnWrite.Proofs.SortedMap
import MergeOnWrite.Service.Front

namespace MergeOnWrite

-- ================================================== instances

theorem Bytes.extends_append (a b : String) :
    ofText a <+: ofText (a ++ b) := by
  rw [ofText_append]
  exact List.prefix_append ..

namespace InstanceId

/-- What all keys of an instance start with. -/
def stem (i : InstanceId) : Bytes := .ofText (i.text ++ "/")

theorem stem_extends (i : InstanceId) {part : String} (rest : String)
    (hpart : part = "/" ++ rest) :
    i.stem <+: Bytes.ofText (i.text ++ part) := by
  subst hpart
  rw [← String.append_assoc]
  exact Bytes.extends_append ..

/-- A name has no slash, so no stem extends another one, not even where a
name does. -/
theorem stem_inj {i j : InstanceId} (hi : i.IsValid) (hj : j.IsValid)
    (h : i.stem <+: j.stem) : i = j := by
  obtain ⟨rest, hrest⟩ := Bytes.ofText_prefix h
  have hparts := congrArg Key.parts hrest
  simp only [String.toList_append, List.append_assoc, Key.parts] at hparts
  rw [show "/".toList = ['/'] from rfl, List.singleton_append,
    Text.splitChars_append (notMem_slash hi),
    Text.splitChars_append (notMem_slash hj)] at hparts
  exact text_inj.1 (String.toList_inj.1 (List.cons.inj hparts).1)

end InstanceId

variable {i : InstanceId} {table : TableId} {tablet : TabletId}

theorem Key.tabletStem_extends : i.stem <+: tablet.stem i :=
  ((i.stem_extends "delete_bitmap/" (by decide)).trans
    (Bytes.extends_append ..)).trans (Bytes.extends_append ..)

theorem Key.rowsetStem_extends_stem (rowset : RowsetId) :
    i.stem <+: Bytes.ofText (Key.rowsetStem i tablet rowset) :=
  Key.tabletStem_extends.trans (Key.rowsetStem_extends i tablet rowset)

namespace StoreKey

/-- The instance that a record belongs to. -/
def owner : StoreKey → InstanceId
  | .lock i _ | .entry i _ _ | .stats i _ _ => i

theorem extends_stem (key : StoreKey) : key.owner.stem <+: key.bytes := by
  cases key with
  | lock i scope =>
      cases scope with
      | table table =>
          exact (i.stem_extends "delete_bitmap_lock/v1/" (by decide)).trans
            (Bytes.extends_append ..)
      | tablet table tablet =>
          exact (((i.stem_extends "delete_bitmap_lock/v2/" (by decide)).trans
            (Bytes.extends_append ..)).trans (Bytes.extends_append ..)).trans
            (Bytes.extends_append ..)
  | entry i tablet entry =>
      exact Key.tabletStem_extends.trans (entry.stored_extends i tablet)
  | stats i table tablet =>
      exact (((i.stem_extends "tablet_stats/" (by decide)).trans
        (Bytes.extends_append ..)).trans (Bytes.extends_append ..)).trans
        (Bytes.extends_append ..)

/-- The records of an instance are those whose keys extend its stem. -/
theorem extends_stem_iff {key : StoreKey} (hi : i.IsValid)
    (howner : key.owner.IsValid) : i.stem <+: key.bytes ↔ key.owner = i := by
  constructor
  · intro h
    rcases List.prefix_or_prefix_of_prefix h key.extends_stem with hle | hle
    · exact (InstanceId.stem_inj hi howner hle).symm
    · exact InstanceId.stem_inj howner hi hle
  · rintro rfl
    exact key.extends_stem

end StoreKey

-- ================================================== footprints

/-- Which keys may be read, and which may be written. -/
structure Footprint where
  reads : Bytes → Prop
  writes : Bytes → Prop

namespace Question

/-- True of the questions that keep to a footprint. A scan reads all that
might be there. -/
def Within (f : Footprint) : Question → Prop
  | .get key => f.reads key
  | .scan stem => ∀ key, stem <+: key → f.reads key
  | .put key _ | .remove key => f.writes key
  | .now | .route _ | .start | .commit | .report _ => True
  | .jitter | .pause _ | .chance _ | .spread _ | .replay .. => False

/-- What is known of answers: the routing is given, and a scan lists
extensions of its stem. -/
def MayAnswer (route : InstanceId → LockVersion) :
    (q : Question) → q.Answer → Prop
  | .route i, version => version = route i
  | .scan stem, .ok entries => ∀ e ∈ entries, stem <+: e.1
  | _, _ => True

end Question

variable {α β : Type} {route : InstanceId → LockVersion} {f : Footprint}

/-- True of scripts that keep to a footprint, and end only as a condition
allows. -/
def Script.Within (route : InstanceId → LockVersion) (f : Footprint)
    (ends : α → Prop) : Script α → Prop
  | .done a => ends a
  | .ask q next => q.Within f
    ∧ ∀ x, q.MayAnswer route x → Script.Within route f ends (next x)

theorem Script.within_bind {known : α → Prop} {ends : β → Prop} {s : Script α}
    {k : α → Script β} (hs : Script.Within route f known s)
    (hk : ∀ a, known a → Script.Within route f ends (k a)) :
    Script.Within route f ends (s.bind k) := by
  induction s with
  | done a => exact hk a hs
  | ask q next ih => exact ⟨hs.1, fun x hx => ih x (hs.2 x hx)⟩

namespace Handler

/-- True of handlers that keep to a footprint as scripts; what they come to,
if they come out well, is as a condition allows. -/
def Within (route : InstanceId → LockVersion) (f : Footprint)
    (ends : α → Prop) (h : Handler α) : Prop :=
  Script.Within route f (fun result => ∀ a, result = .ok a → ends a) h.run

/-- True of handlers that keep to a footprint. -/
abbrev KeepsTo (route : InstanceId → LockVersion) (f : Footprint)
    (h : Handler α) : Prop :=
  Within route f (fun _ => True) h

section Rules

variable {ends : α → Prop}

theorem within_pure {a : α} (h : ends a) :
    Within route f ends (pure a : Handler α) := by
  intro b hb
  obtain rfl := Except.ok.inj hb
  exact h

theorem within_throw {e : ServiceError} :
    Within route f ends (throw e : Handler α) :=
  nofun

/-- A sequence keeps to a footprint if its parts do; of the second part this
is asked for results that the first one may have. -/
theorem within_bind {known : β → Prop} {h : Handler β} {k : β → Handler α}
    (hs : Within route f known h)
    (hk : ∀ b, known b → Within route f ends (k b)) :
    Within route f ends (h >>= k) := by
  refine Script.within_bind (k := ExceptT.bindCont k) hs fun result hknown => ?_
  cases result with
  | ok b => exact hk b (hknown b rfl)
  | error e => nofun

/-- The same where nothing is known of the result of the first part. -/
theorem within_seq {h : Handler β} {k : β → Handler α}
    (hs : KeepsTo route f h) (hk : ∀ b, Within route f ends (k b)) :
    Within route f ends (h >>= k) :=
  within_bind hs fun b _ => hk b

theorem within_ask {q : Question} {ends : q.Answer → Prop} (hq : q.Within f)
    (hx : ∀ x, q.MayAnswer route x → ends x) :
    Within route f ends (ask q) := by
  refine ⟨hq, fun x hmay y hy => ?_⟩
  obtain rfl := Except.ok.inj hy
  exact hx x hmay

theorem within_fromStore {context : String}
    {s : Script (Except StoreCode α)}
    (hs : Script.Within route f (fun result => ∀ a, result = .ok a → ends a)
      s) : Within route f ends (fromStore context s) := by
  refine Script.within_bind hs fun result hresult a ha => ?_
  cases result with
  | ok b => exact hresult a (congrArg Except.ok (Except.ok.inj ha))
  | error code => cases ha

theorem within_start : KeepsTo route f start :=
  within_fromStore ⟨trivial, fun _ _ _ _ => trivial⟩

theorem within_get {context : String} {key : Bytes} (hkey : f.reads key) :
    KeepsTo route f (get context key) :=
  within_fromStore ⟨hkey, fun _ _ _ _ => trivial⟩

theorem within_scan {context : String} {stem : Bytes}
    (hstem : ∀ key, stem <+: key → f.reads key) :
    Within route f (fun entries => ∀ e ∈ entries, stem <+: e.1)
      (scan context stem) := by
  refine within_fromStore ⟨hstem, fun result hmay entries hentries => ?_⟩
  subst hentries
  exact hmay

theorem within_commit {context : String} : KeepsTo route f (commit context) :=
  within_fromStore ⟨trivial, fun _ _ _ _ => trivial⟩

theorem within_now : KeepsTo route f (ask .now) :=
  within_ask trivial fun _ _ => trivial

theorem within_route :
    Within route f (fun version => version = route i) (ask (.route i)) :=
  within_ask trivial fun _ => id

theorem within_report {event : Report} :
    KeepsTo route f (ask (.report event)) :=
  within_ask trivial fun _ _ => trivial

theorem within_put {key value : Bytes} (hkey : f.writes key) :
    KeepsTo route f (ask (.put key value)) :=
  within_ask hkey fun _ _ => trivial

theorem within_remove {key : Bytes} (hkey : f.writes key) :
    KeepsTo route f (ask (.remove key)) :=
  within_ask hkey fun _ _ => trivial

theorem within_lift {result : Except ServiceError α}
    (h : ∀ a, result = .ok a → ends a) :
    Within route f ends (liftM result : Handler α) := by
  cases result with
  | ok a => exact within_pure (h a rfl)
  | error e => exact within_throw

theorem within_instanceOf {name : String} :
    Within route f (fun i => InstanceId.ofText name = .ok i)
      (instanceOf name) := by
  unfold instanceOf check
  cases InstanceId.ofText name with
  | ok i => exact within_pure rfl
  | error e => exact within_throw

theorem within_rowsetOf {name : String} :
    Within route f (fun rowset => RowsetId.ofText name = .ok rowset)
      (rowsetOf name) := by
  unfold rowsetOf check
  cases RowsetId.ofText name with
  | ok rowset => exact within_pure rfl
  | error e => exact within_throw

theorem within_rowsOf {bytes : Bytes} : KeepsTo route f (rowsOf bytes) := by
  unfold rowsOf check
  cases RowSet.Container.decodeAll bytes with
  | ok containers => exact within_pure trivial
  | error e => exact within_throw

theorem within_forM {g : α → Handler Unit} :
    ∀ {l : List α}, (∀ a ∈ l, KeepsTo route f (g a)) →
      KeepsTo route f (l.forM g) := by
  intro l
  induction l with
  | nil => intro _; exact within_pure trivial
  | cons a rest ih =>
      intro h
      exact within_seq (h a (List.mem_cons_self ..)) fun _ =>
        ih fun b hb => h b (List.mem_cons_of_mem _ hb)

theorem within_mapM {g : α → Handler β} (h : ∀ a, KeepsTo route f (g a)) :
    ∀ l : List α, KeepsTo route f (l.mapM g) := by
  intro l
  induction l with
  | nil => exact within_pure trivial
  | cons a rest ih =>
      rw [List.mapM_cons]
      exact within_seq (h a) fun _ => within_seq ih fun _ => within_pure trivial

theorem within_stored {decode? : Bytes → Option α} {what : String}
    {bytes : Option Bytes} : KeepsTo route f (stored decode? what bytes) := by
  cases bytes with
  | none => exact within_pure trivial
  | some bytes =>
      simp only [stored]
      cases decode? bytes with
      | none => exact within_throw
      | some record => exact within_pure trivial

end Rules

-- ================================================== records

section Parts

variable {kind : LockKind} {initiator : Int64}
  (hreads : ∀ key, i.stem <+: key → f.reads key)

include hreads

theorem within_readLock (scope : LockScope) :
    KeepsTo route f (readLock i scope) :=
  within_seq (within_get (hreads _ (StoreKey.extends_stem (.lock i scope))))
    fun _ => within_stored

theorem within_readStats (table : TableId) (tablet : TabletId) :
    KeepsTo route f (readStats i table tablet) :=
  within_seq
    (within_get (hreads _ (StoreKey.extends_stem (.stats i table tablet))))
    fun _ => within_seq within_stored fun _ => within_pure trivial

theorem within_changeStats {entries rows : Int}
    (hstats : f.writes (StoreKey.bytes (.stats i table tablet))) :
    KeepsTo route f (changeStats i table tablet entries rows) := by
  unfold changeStats
  split
  · exact within_pure trivial
  · exact within_seq (within_readStats hreads table tablet) fun _ =>
      within_put hstats

-- ================================================== the lock

/-- What is granted is granted on scopes that were asked for. -/
theorem within_grants {now expiration : Instant} :
    ∀ scopes : List LockScope,
      Within route f (fun granted => ∀ g ∈ granted, g.scope ∈ scopes)
        (grants i kind initiator now expiration scopes) := by
  intro scopes
  induction scopes with
  | nil => exact within_pure nofun
  | cons scope rest ih =>
      refine within_seq (within_readLock hreads scope) fun current => ?_
      split
      · exact within_seq within_report fun _ => within_throw
      · refine within_bind ih fun granted hgranted => within_pure ?_
        intro g hg
        rcases List.mem_cons.1 hg with rfl | hg
        · exact List.mem_cons_self ..
        · exact List.mem_cons_of_mem _ (hgranted g hg)

theorem within_releases :
    ∀ {scopes : List LockScope},
      (∀ scope ∈ scopes, f.writes (StoreKey.bytes (.lock i scope))) →
        KeepsTo route f (releases i kind initiator scopes) := by
  intro scopes
  induction scopes with
  | nil => intro _; exact within_pure trivial
  | cons scope rest ih =>
      intro hwrites
      have hscope := hwrites scope (List.mem_cons_self ..)
      have hrest := ih fun other hother =>
        hwrites other (List.mem_cons_of_mem _ hother)
      have hgoes : ∀ outcome, KeepsTo route f (do
          return outcome :: (← releases i kind initiator rest)) :=
        fun outcome => within_seq hrest fun _ => within_pure trivial
      refine within_seq (within_readLock hreads scope) fun current => ?_
      split
      · exact within_seq (within_remove hscope) fun _ => hgoes .released
      · exact within_seq (within_put hscope) fun _ => hgoes .released
      · exact hgoes .staleRelease

-- ================================================== bitmaps

theorem within_checkHolder :
    KeepsTo route f (checkHolder i table tablet kind initiator) := by
  refine within_bind within_route fun version _ => ?_
  refine within_seq (within_readLock hreads _) fun current => ?_
  refine within_seq within_now fun now => ?_
  split
  · exact within_pure trivial
  · exact within_throw

theorem within_putEntries :
    ∀ {entries : List (BitmapKey × RowSet)},
      (∀ e ∈ entries, f.writes (StoreKey.bytes (.entry i tablet e.1))) →
        KeepsTo route f (putEntries i tablet entries) := by
  intro entries
  induction entries with
  | nil => intro _; exact within_pure trivial
  | cons entry rest ih =>
      intro hwrites
      have hentry := hwrites entry (List.mem_cons_self ..)
      have hrest := ih fun other hother =>
        hwrites other (List.mem_cons_of_mem _ hother)
      have hread :=
        hreads _ (StoreKey.extends_stem (.entry i tablet entry.1))
      have hgoes : ∀ change : Int × Nat, KeepsTo route f (do
          ask (.put (entry.1.stored i tablet) entry.2.encode)
          let others ← putEntries i tablet rest
          return (others.1 + change.1,
            others.2 + entry.2.cardinality - change.2)) :=
        fun change => within_seq (within_put hentry) fun _ =>
          within_seq hrest fun _ => within_pure trivial
      rw [putEntries]
      refine within_seq (within_get hread) fun held => ?_
      cases held with
      | none => exact within_seq (within_pure trivial) hgoes
      | some bytes =>
          exact within_seq within_rowsOf fun _ =>
            within_seq (within_pure trivial) hgoes

omit hreads in
theorem within_collect {first last : Version} :
    ∀ (entries : List (Bytes × Bytes)) (bitmap : DeleteBitmap),
      KeepsTo route f (collect first last bitmap entries) := by
  intro entries
  induction entries with
  | nil => intro bitmap; exact within_pure trivial
  | cons entry rest ih =>
      intro bitmap
      rw [collect]
      split
      · exact within_throw
      · split
        · exact within_seq within_rowsOf fun _ => ih _
        · exact ih bitmap

/-- A scan of a rowset stays with the instance. -/
theorem reads_rowset (rowset : RowsetId) (key : Bytes)
    (hkey : Bytes.ofText (Key.rowsetStem i tablet rowset) <+: key) :
    f.reads key :=
  hreads key ((Key.rowsetStem_extends_stem rowset).trans hkey)

theorem within_collectRowsets {first last : Version} :
    ∀ (rowsets : List String) (bitmap : DeleteBitmap),
      KeepsTo route f
        (collectRowsets i tablet first last bitmap rowsets) := by
  intro rowsets
  induction rowsets with
  | nil => intro bitmap; exact within_pure trivial
  | cons name rest ih =>
      intro bitmap
      refine within_bind within_rowsetOf fun rowset _ => ?_
      refine within_bind (within_scan (reads_rowset hreads rowset))
        fun entries _ => ?_
      exact within_seq (within_collect entries bitmap) ih

omit hreads in
theorem within_removeEntries :
    ∀ {entries : List (Bytes × Bytes)}, (∀ e ∈ entries, f.writes e.1) →
      KeepsTo route f (removeEntries entries) := by
  intro entries
  induction entries with
  | nil => intro _; exact within_pure trivial
  | cons entry rest ih =>
      intro hwrites
      refine within_seq within_rowsOf fun rows => ?_
      refine within_seq
        (within_remove (hwrites entry (List.mem_cons_self ..))) fun _ => ?_
      exact within_seq (ih fun e he => hwrites e (List.mem_cons_of_mem _ he))
        fun _ => within_pure trivial

/-- What is removed was listed by a scan of a rowset that is named. -/
theorem within_removeRowsets :
    ∀ {rowsets : List String},
      (∀ name ∈ rowsets, ∀ rowset, RowsetId.ofText name = .ok rowset →
        ∀ key, Bytes.ofText (Key.rowsetStem i tablet rowset) <+: key →
          f.writes key) →
        KeepsTo route f (removeRowsets i tablet rowsets) := by
  intro rowsets
  induction rowsets with
  | nil => intro _; exact within_pure trivial
  | cons name rest ih =>
      intro hwrites
      refine within_bind within_rowsetOf fun rowset hrowset => ?_
      refine within_bind (within_scan (reads_rowset hreads rowset))
        fun entries hlisted => ?_
      refine within_seq (within_removeEntries fun e he => ?_) fun rows => ?_
      · exact hwrites name (List.mem_cons_self ..) rowset hrowset e.1
          (hlisted e he)
      · exact within_seq
          (ih fun other hother => hwrites other (List.mem_cons_of_mem _ hother))
          fun others => within_pure trivial

end Parts

theorem within_versionOf {taken : Option LockVersion} :
    Within route f (fun version => version = route i) (versionOf i taken) := by
  refine within_bind within_route fun routed hrouted => ?_
  cases taken with
  | none => exact within_pure hrouted
  | some version =>
      simp only
      split
      · exact within_pure hrouted
      · exact within_throw

end Handler

-- ================================================== requests

/-- The scopes that a request for the lock is about. -/
def LockScope.named (version : LockVersion) (table : TableId)
    (tablets : List TabletId) : List LockScope :=
  match version with
  | .v1 => [.table table]
  | .v2 => tablets.map (.tablet table)

theorem LockScope.mem_named {version : LockVersion} {tablets : List TabletId}
    {scopes : List LockScope} {scope : LockScope}
    (h : ofRequest version table tablets = .ok scopes)
    (hscope : scope ∈ scopes) : scope ∈ named version table tablets := by
  cases version with
  | v1 =>
      obtain rfl := Except.ok.inj h
      exact hscope
  | v2 =>
      unfold ofRequest at h
      simp only at h
      split at h
      · cases h
      · obtain rfl := Except.ok.inj h
        obtain ⟨id, hid, rfl⟩ := List.mem_map.1 hscope
        have hmem : id ∈ tablets.map TabletId.val :=
          SortedSet.get?_ofList_isSome.1 (SortedMap.mem_keys.1 hid)
        obtain ⟨tablet, htablet, rfl⟩ := List.mem_map.1 hmem
        exact List.mem_map.2 ⟨tablet, htablet, rfl⟩

namespace Call

/-- What all keys start with of the instance that a request names. -/
def stem (call : Call) : Bytes := .ofText (call.instanceName ++ "/")

/-- What a request may change of an instance: the locks of the scopes that it
names; the entries that it names and the statistics of its tablet; nothing;
or the entries of the rowsets that it names, and these statistics. -/
def Touches (route : InstanceId → LockVersion) (i : InstanceId)
    (key : Bytes) : Call → Prop
  | .acquireLock r =>
    ∃ scope ∈ LockScope.named (route i) r.table r.tablets,
      key = StoreKey.bytes (.lock i scope)
  | .releaseLock r =>
    ∃ scope ∈ LockScope.named (route i) r.table r.tablets,
      key = StoreKey.bytes (.lock i scope)
  | .updateBitmap r =>
    (∃ entry ∈ r.bitmap.entries.keys,
        key = StoreKey.bytes (.entry i r.tablet entry))
      ∨ key = StoreKey.bytes (.stats i r.table r.tablet)
  | .readBitmap _ => False
  | .removeBitmap r =>
    (∃ name ∈ r.rowsets, ∃ rowset, RowsetId.ofText name = .ok rowset
        ∧ Bytes.ofText (Key.rowsetStem i r.tablet rowset) <+: key)
      ∨ key = StoreKey.bytes (.stats i r.table r.tablet)

/-- What a request may change; nothing if it names no instance. -/
def MayChange (route : InstanceId → LockVersion) (call : Call)
    (key : Bytes) : Prop :=
  ∃ i, InstanceId.ofText call.instanceName = .ok i ∧ call.Touches route i key

theorem stem_eq {call : Call}
    (hi : InstanceId.ofText call.instanceName = .ok i) :
    call.stem = i.stem := by
  rw [stem, InstanceId.stem, InstanceId.text_of_ofText hi]

theorem extends_of_touches {call : Call} {key : Bytes}
    (h : call.Touches route i key) : i.stem <+: key := by
  cases call with
  | acquireLock r | releaseLock r =>
      obtain ⟨scope, -, rfl⟩ := h
      exact StoreKey.extends_stem (.lock i scope)
  | updateBitmap r =>
      rcases h with ⟨entry, -, rfl⟩ | rfl
      · exact StoreKey.extends_stem (.entry i r.tablet entry)
      · exact StoreKey.extends_stem (.stats i r.table r.tablet)
  | readBitmap r => exact h.elim
  | removeBitmap r =>
      rcases h with ⟨name, -, rowset, -, hkey⟩ | rfl
      · exact (Key.rowsetStem_extends_stem rowset).trans hkey
      · exact StoreKey.extends_stem (.stats i r.table r.tablet)

/-- What a request may change has the name of its instance in front. -/
theorem extends_of_mayChange {call : Call} {key : Bytes}
    (h : call.MayChange route key) : call.stem <+: key := by
  obtain ⟨i, hi, htouches⟩ := h
  rw [stem_eq hi]
  exact extends_of_touches htouches

/-- The records that a request may change are those of its instance. -/
theorem owner_of_mayChange {call : Call} (key : StoreKey)
    (hkey : key.owner.IsValid) (h : call.MayChange route key.bytes) :
    InstanceId.ofText call.instanceName = .ok key.owner := by
  obtain ⟨i, hi, htouches⟩ := h
  rw [hi, (StoreKey.extends_stem_iff (InstanceId.isValid_of_ofText hi)
    hkey).1 (extends_of_touches htouches)]

/-- The scopes whose locks a request is about. -/
def scopes (route : InstanceId → LockVersion) (i : InstanceId) :
    Call → List LockScope
  | .acquireLock r => LockScope.named (route i) r.table r.tablets
  | .releaseLock r => LockScope.named (route i) r.table r.tablets
  | _ => []

/-- Of locks a request changes only those that it is about. -/
theorem mem_scopes_of_mayChange {call : Call} {scope : LockScope}
    (hi : i.IsValid) (h : call.MayChange route (StoreKey.bytes (.lock i scope))) :
    InstanceId.ofText call.instanceName = .ok i ∧ scope ∈ call.scopes route i := by
  have howner := owner_of_mayChange (.lock i scope) hi h
  obtain ⟨j, hj, htouches⟩ := h
  obtain rfl := Except.ok.inj (hj.symm.trans howner)
  refine ⟨hj, ?_⟩
  cases call with
  | acquireLock r | releaseLock r =>
      obtain ⟨other, hother, hkey⟩ := htouches
      obtain ⟨-, rfl⟩ := LockScope.key_inj hi hi (Bytes.ofText_inj hkey)
      exact hother
  | updateBitmap r =>
      rcases htouches with ⟨entry, -, hkey⟩ | hkey
      · have hstem := entry.stored_extends j r.tablet
        rw [show entry.stored j r.tablet = _ from hkey.symm] at hstem
        exact absurd hstem (Key.not_extends_lock hi hi)
      · exact absurd (Bytes.ofText_inj hkey) (LockScope.key_ne_stats hi hi)
  | readBitmap r => exact htouches.elim
  | removeBitmap r =>
      rcases htouches with ⟨name, -, rowset, -, hstem⟩ | hkey
      · exact absurd ((Key.rowsetStem_extends j r.tablet rowset).trans hstem)
          (Key.not_extends_lock hi hi)
      · exact absurd (Bytes.ofText_inj hkey) (LockScope.key_ne_stats hi hi)

/-- What a request has its handler read and write. -/
def footprint (route : InstanceId → LockVersion) (call : Call) : Footprint where
  reads key := call.stem <+: key
  writes := call.MayChange route

theorem reads_footprint (route : InstanceId → LockVersion) (call : Call)
    (hi : InstanceId.ofText call.instanceName = .ok i) (key : Bytes)
    (hkey : i.stem <+: key) : (call.footprint route).reads key := by
  rw [← stem_eq hi] at hkey
  exact hkey

end Call

namespace Handler

open Call (reads_footprint)

theorem within_acquireLock (config : LockConfig) (r : AcquireLock) :
    KeepsTo route (Call.footprint route (.acquireLock r))
      (acquireLock config r) := by
  unfold acquireLock
  refine within_bind within_instanceOf fun i hi => ?_
  refine within_seq (within_lift fun _ _ => trivial) fun kind => ?_
  refine within_bind within_versionOf fun version hversion => ?_
  subst hversion
  refine within_bind (within_lift fun _ => id) fun scopes hscopes => ?_
  refine within_seq within_now fun now => ?_
  refine within_seq (within_lift fun _ _ => trivial) fun expiration => ?_
  refine within_seq within_start fun _ => ?_
  have hreads := reads_footprint route (.acquireLock r) hi
  refine within_bind (within_grants hreads scopes) fun granted hgranted => ?_
  refine within_seq (within_forM fun g hg => within_put ?_) fun _ => ?_
  · exact ⟨i, hi, g.scope, LockScope.mem_named hscopes (hgranted g hg), rfl⟩
  · have hgoes : ∀ stats : List TabletStats,
        KeepsTo route (Call.footprint route (.acquireLock r)) (do
          commit "commit delete bitmap update lock"
          granted.forM fun g => ask (.report (.lock g.outcome))
          return stats) := fun stats =>
      within_seq within_commit fun _ =>
        within_seq (within_forM fun _ _ => within_report) fun _ =>
          within_pure trivial
    split
    · exact within_seq (within_mapM (within_readStats hreads r.table) r.tablets)
        hgoes
    · exact within_seq (within_pure trivial) hgoes

theorem within_releaseLock (r : ReleaseLock) :
    KeepsTo route (Call.footprint route (.releaseLock r)) (releaseLock r) := by
  unfold releaseLock
  refine within_bind within_instanceOf fun i hi => ?_
  refine within_seq (within_lift fun _ _ => trivial) fun kind => ?_
  refine within_bind within_versionOf fun version hversion => ?_
  subst hversion
  refine within_bind (within_lift fun _ => id) fun scopes hscopes => ?_
  refine within_seq within_start fun _ => ?_
  have hreads := reads_footprint route (.releaseLock r) hi
  refine within_seq (within_releases hreads fun scope hscope => ?_)
    fun outcomes => ?_
  · exact ⟨i, hi, scope, LockScope.mem_named hscopes hscope, rfl⟩
  · exact within_seq within_commit fun _ =>
      within_forM fun _ _ => within_report

theorem within_updateBitmap (r : UpdateBitmap) :
    KeepsTo route (Call.footprint route (.updateBitmap r))
      (updateBitmap r) := by
  unfold updateBitmap
  refine within_bind within_instanceOf fun i hi => ?_
  refine within_seq (within_lift fun _ _ => trivial) fun kind => ?_
  refine within_seq within_start fun _ => ?_
  have hreads := reads_footprint route (.updateBitmap r) hi
  have hwrite : KeepsTo route (Call.footprint route (.updateBitmap r)) (do
      let change ← putEntries i r.tablet r.bitmap.toList
      changeStats i r.table r.tablet change.1 change.2
      commit "commit delete bitmap") := by
    refine within_seq (within_putEntries hreads fun e he => ?_) fun _ => ?_
    · exact ⟨i, hi, .inl ⟨e.1, List.mem_map_of_mem he, rfl⟩⟩
    · exact within_seq (within_changeStats hreads ⟨i, hi, .inr rfl⟩) fun _ =>
        within_commit
  split
  · exact within_seq (within_checkHolder hreads) fun _ => hwrite
  · exact hwrite

theorem within_readBitmap (r : ReadBitmap) :
    KeepsTo route (Call.footprint route (.readBitmap r)) (readBitmap r) := by
  unfold readBitmap
  refine within_bind within_instanceOf fun i hi => ?_
  split
  · have hreads := reads_footprint route (.readBitmap r) hi
    exact within_seq within_start fun _ =>
      within_collectRowsets hreads r.rowsets ∅
  · exact within_throw

theorem within_removeBitmap (r : RemoveBitmap) :
    KeepsTo route (Call.footprint route (.removeBitmap r))
      (removeBitmap r) := by
  unfold removeBitmap
  refine within_bind within_instanceOf fun i hi => ?_
  refine within_seq within_start fun _ => ?_
  have hreads := reads_footprint route (.removeBitmap r) hi
  refine within_seq (within_removeRowsets hreads ?_) fun removed => ?_
  · exact fun name hname rowset hrowset key hkey =>
      ⟨i, hi, .inl ⟨name, hname, rowset, hrowset, hkey⟩⟩
  · exact within_seq (within_changeStats hreads ⟨i, hi, .inr rfl⟩) fun _ =>
      within_commit

end Handler

namespace Call

theorem within_handler (config : LockConfig) (call : Call) :
    Handler.KeepsTo route (call.footprint route) (call.handler config) := by
  cases call with
  | acquireLock r => exact Handler.within_acquireLock config r
  | releaseLock r => exact Handler.within_releaseLock r
  | updateBitmap r => exact Handler.within_updateBitmap r
  | readBitmap r => exact Handler.within_readBitmap r
  | removeBitmap r => exact Handler.within_removeBitmap r

/-- An attempt at a request keeps to the footprint of the request. -/
theorem within_attempt (config : LockConfig) (call : Call) :
    Script.Within route (call.footprint route) (fun _ => True)
      (call.attempt config) :=
  Script.within_bind (call.within_handler config) fun _ _ => trivial

end Call

end MergeOnWrite
