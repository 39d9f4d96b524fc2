/-
How handlers go through their transactions, and how they fail.

A handler opens one transaction, reads and writes in it, and commits it at
the end; the one that only reads gives it up. What the store refuses ends
a handler there and then, with the error of that refusal. All other errors
are of checks of its own, and none of them comes after a commit.

This is told by a typing of handlers (`Handler.Follows`): which phase a
handler begins in, which it leaves when it comes out well, and whether it
may write. Like the handlers it is put together line by line.

# Main statements

- `Script.Follows.run_induction`: induction along the run of a script.
- `Handler.follows_bind` and the rules after it: phases of the parts of
  handlers.
- `Call.follows_handler`, `Call.follows_attempt`: the phases of the handlers,
  and of the attempts at requests.
-/
import MergeOnWrite.Proofs.Program
import MergeOnWrite.Service.Front

namespace MergeOnWrite

-- ================================================== phases

/-- How far the transaction of a handler has come. -/
inductive TxnPhase where
  | before
  | within
  | after
deriving DecidableEq

/-- The code with which a question is refused, if it is. -/
def Question.refusal? : (q : Question) → q.Answer → Option StoreCode
  | .start, .error code | .get _, .error code | .scan _, .error code
  | .commit, .error code => some code
  | _, _ => none

namespace TxnPhase

/-- The phase after a question that is not refused; there is none where the
question is out of place. Only who may write may ask for puts, removals and
commits. -/
def next? (mayWrite : Bool) : TxnPhase → Question → Option TxnPhase
  | .before, .start => some .within
  | .within, .get _ | .within, .scan _ => some .within
  | .within, .put .. | .within, .remove _ =>
    if mayWrite then some .within else none
  | .within, .commit => if mayWrite then some .after else none
  | phase, .now | phase, .route _ | phase, .report _ => some phase
  | _, _ => none

variable {mayWrite : Bool} {a b : TxnPhase} {q : Question}

theorem eq_before_of_next? (h : a.next? mayWrite q = some .before) :
    a = .before := by
  cases mayWrite <;> cases a <;> cases q <;> first | rfl | cases h

theorem eq_after_of_next? (h : TxnPhase.after.next? mayWrite q = some a) :
    a = .after := by
  cases q <;> cases h <;> rfl

/-- Only the begin leads into a transaction. -/
theorem eq_within_of_next? (h : a.next? mayWrite q = some .within)
    (hq : q ≠ .start) : a = .within := by
  cases mayWrite <;> cases a <;> cases q <;>
    first | rfl | exact absurd rfl hq | cases h

/-- Only a commit leads to the last phase. -/
theorem next?_after (h : a.next? mayWrite q = some .after) :
    a = .after ∨ q = .commit := by
  cases mayWrite <;> cases a <;> cases q <;>
    first | exact .inl rfl | exact .inr rfl | cases h

/-- Nothing is refused in the last phase. -/
theorem ne_after_of_refusal {x : q.Answer} {code : StoreCode}
    (h : a.next? mayWrite q = some b) (hx : q.refusal? x = some code) :
    a ≠ .after := by
  rintro rfl
  cases q <;> first | cases hx | cases h

end TxnPhase

/-- True of the errors that are not the store's. -/
def ServiceError.isCheck : ServiceError → Bool
  | .store .. => false
  | _ => true

variable {α β : Type} {mayWrite : Bool} {a b c : TxnPhase}

/-- True of scripts that go through the phases of a transaction from one of
them on. A script that is refused something ends at once, in a way that the
code of the refusal may have; else it ends in a way that the phase it is in
may have. -/
def Script.Follows (mayWrite : Bool) (ends : TxnPhase → α → Prop)
    (fails : StoreCode → α → Prop) : TxnPhase → Script α → Prop
  | a, .done x => ends a x
  | a, .ask q next => ∃ a', a.next? mayWrite q = some a' ∧ ∀ x,
    match q.refusal? x with
    | some code => ∃ y, next x = .done y ∧ fails code y
    | none => Script.Follows mayWrite ends fails a' (next x)

/-- Induction along the run of a script through the phases of a transaction.
It ends in some phase, or is refused something and ends with that, or goes on
with what is left of it. -/
theorem Script.Follows.run_induction {σ : Type}
    (answer : σ → (q : Question) → σ × q.Answer)
    {ends : TxnPhase → α → Prop} {fails : StoreCode → α → Prop}
    {motive : TxnPhase → σ → Script α → Prop}
    (ended : ∀ {a x} (s : σ), ends a x → motive a s (.done x))
    (refused : ∀ {a b q next code y} (s : σ), a.next? mayWrite q = some b →
      q.refusal? (answer s q).2 = some code → next (answer s q).2 = .done y →
      fails code y → motive a s (.ask q next))
    (goesOn : ∀ {a b q next} (s : σ), a.next? mayWrite q = some b →
      q.refusal? (answer s q).2 = none →
      motive b (answer s q).1 (next (answer s q).2) → motive a s (.ask q next))
    {script : Script α} :
    ∀ {a : TxnPhase} (s : σ), Script.Follows mayWrite ends fails a script →
      motive a s script := by
  induction script with
  | done x => exact fun s h => ended s h
  | ask q next ih =>
      rintro a s ⟨b, hb, hnext⟩
      have hrest := hnext (answer s q).2
      cases hrefusal : q.refusal? (answer s q).2 with
      | none =>
          rw [hrefusal] at hrest
          exact goesOn s hb hrefusal (ih _ _ hrest)
      | some code =>
          rw [hrefusal] at hrest
          obtain ⟨y, hdone, hy⟩ := hrest
          exact refused s hb hrefusal hdone hy

/-- What is made of the result of a script does not change its phases. -/
theorem Script.follows_map {ends : TxnPhase → α → Prop}
    {fails : StoreCode → α → Prop} {ends' : TxnPhase → β → Prop}
    {fails' : StoreCode → β → Prop} {f : α → β}
    (hends : ∀ a x, ends a x → ends' a (f x))
    (hfails : ∀ code x, fails code x → fails' code (f x)) {s : Script α} :
    ∀ {a : TxnPhase}, Script.Follows mayWrite ends fails a s →
      Script.Follows mayWrite ends' fails' a (s.bind fun x => .done (f x)) := by
  induction s with
  | done x => intro a h; exact hends a x h
  | ask q next ih =>
      rintro a ⟨a', ha', hnext⟩
      refine ⟨a', ha', fun x => ?_⟩
      have hx := hnext x
      cases hrefusal : q.refusal? x with
      | none =>
          simp only [hrefusal] at hx ⊢
          exact ih x hx
      | some code =>
          simp only [hrefusal] at hx ⊢
          obtain ⟨y, hx, hy⟩ := hx
          exact ⟨f y, by rw [hx]; rfl, hfails code y hy⟩

namespace Handler

/-- A handler that comes out well does so in a certain phase, and one that
does not, before any commit and with an error that is not the store's. -/
def EndsIn (b a : TxnPhase) : Except ServiceError α → Prop
  | .ok _ => a = b
  | .error e => e.isCheck ∧ a ≠ .after

/-- A handler that is refused something ends with the error of that. -/
def FailsWith (code : StoreCode) (result : Except ServiceError α) : Prop :=
  ∃ context, result = .error (.store code context)

def Follows (mayWrite : Bool) (a b : TxnPhase) (h : Handler α) : Prop :=
  Script.Follows mayWrite (EndsIn b) FailsWith a h.run

theorem follows_pure {x : α} : Follows mayWrite a a (pure x : Handler α) := rfl

theorem follows_throw {e : ServiceError} (he : e.isCheck)
    (ha : a ≠ .after) : Follows mayWrite a b (throw e : Handler α) :=
  ⟨he, ha⟩

/-- A sequence goes through the phases of its parts. -/
theorem follows_bind {h : Handler α} {f : α → Handler β}
    (hs : Follows mayWrite a b h) (hf : ∀ x, Follows mayWrite b c (f x)) :
    Follows mayWrite a c (h >>= f) := by
  have hbind : ∀ {s : Script (Except ServiceError α)} {a : TxnPhase},
      Script.Follows mayWrite (EndsIn b) FailsWith a s →
        Script.Follows mayWrite (EndsIn c) FailsWith a
          (s.bind (ExceptT.bindCont f)) := by
    intro s
    induction s with
    | done r =>
        intro a hs
        cases r with
        | ok x =>
            obtain rfl : a = b := hs
            exact hf x
        | error e => exact hs
    | ask q next ih =>
        rintro a ⟨a', ha', hnext⟩
        refine ⟨a', ha', fun x => ?_⟩
        have hx := hnext x
        cases hrefusal : q.refusal? x with
        | none =>
            simp only [hrefusal] at hx ⊢
            exact ih x hx
        | some code =>
            simp only [hrefusal] at hx ⊢
            obtain ⟨_, hx, context, rfl⟩ := hx
            exact ⟨_, by rw [hx]; rfl, context, rfl⟩
  exact hbind hs

/-- A question that is never refused. -/
theorem follows_ask {q : Question} (hq : a.next? mayWrite q = some b)
    (hx : ∀ x, q.refusal? x = none) : Follows mayWrite a b (ask q) := by
  refine ⟨b, hq, fun x => ?_⟩
  rw [hx x]
  rfl

theorem follows_now : Follows mayWrite a a (ask .now) :=
  follows_ask (by cases a <;> rfl) fun _ => rfl

theorem follows_route {i : InstanceId} :
    Follows mayWrite a a (ask (.route i)) :=
  follows_ask (by cases a <;> rfl) fun _ => rfl

theorem follows_report {event : Report} :
    Follows mayWrite a a (ask (.report event)) :=
  follows_ask (by cases a <;> rfl) fun _ => rfl

theorem follows_put {key value : Bytes} :
    Follows true .within .within (ask (.put key value)) :=
  follows_ask rfl fun _ => rfl

theorem follows_remove {key : Bytes} :
    Follows true .within .within (ask (.remove key)) :=
  follows_ask rfl fun _ => rfl

theorem follows_start : Follows mayWrite .before .within start := by
  refine ⟨.within, rfl, fun x => ?_⟩
  cases x with
  | ok _ => rfl
  | error code => exact ⟨_, rfl, _, rfl⟩

theorem follows_get {context : String} {key : Bytes} :
    Follows mayWrite .within .within (get context key) := by
  refine ⟨.within, rfl, fun x => ?_⟩
  cases x with
  | ok _ => rfl
  | error code => exact ⟨_, rfl, _, rfl⟩

theorem follows_scan {context : String} {stem : Bytes} :
    Follows mayWrite .within .within (scan context stem) := by
  refine ⟨.within, rfl, fun x => ?_⟩
  cases x with
  | ok _ => rfl
  | error code => exact ⟨_, rfl, _, rfl⟩

theorem follows_commit {context : String} :
    Follows true .within .after (commit context) := by
  refine ⟨.after, rfl, fun x => ?_⟩
  cases x with
  | ok _ => rfl
  | error code => exact ⟨_, rfl, _, rfl⟩

/-- A check may fail with errors that are not the store's. -/
theorem follows_lift {result : Except ServiceError α} (ha : a ≠ .after)
    (he : ∀ e, result = .error e → e.isCheck) :
    Follows mayWrite a a (liftM result : Handler α) := by
  cases result with
  | ok x => rfl
  | error e => exact ⟨he e rfl, ha⟩

theorem follows_instanceOf {name : String} (ha : a ≠ .after) :
    Follows mayWrite a a (instanceOf name) := by
  unfold instanceOf check
  cases InstanceId.ofText name with
  | ok i => rfl
  | error e => exact ⟨rfl, ha⟩

theorem follows_rowsetOf {name : String} :
    Follows mayWrite .within .within (rowsetOf name) := by
  unfold rowsetOf check
  cases RowsetId.ofText name with
  | ok i => rfl
  | error e => exact ⟨rfl, nofun⟩

theorem follows_rowsOf {bytes : Bytes} :
    Follows mayWrite .within .within (rowsOf bytes) := by
  unfold rowsOf check
  cases RowSet.Container.decodeAll bytes with
  | ok i => rfl
  | error e => exact ⟨rfl, nofun⟩

theorem follows_forM {f : α → Handler Unit}
    (hf : ∀ x, Follows mayWrite a a (f x)) :
    ∀ l : List α, Follows mayWrite a a (l.forM f) := by
  intro l
  induction l with
  | nil => exact follows_pure
  | cons x rest ih => exact follows_bind (hf x) fun _ => ih

theorem follows_mapM {f : α → Handler β}
    (hf : ∀ x, Follows mayWrite a a (f x)) :
    ∀ l : List α, Follows mayWrite a a (l.mapM f) := by
  intro l
  induction l with
  | nil => exact follows_pure
  | cons x rest ih =>
      rw [List.mapM_cons]
      exact follows_bind (hf x) fun _ => follows_bind ih fun _ => follows_pure

-- ================================================== records

theorem follows_stored {decode? : Bytes → Option α} {what : String}
    {bytes : Option Bytes} :
    Follows mayWrite .within .within (stored decode? what bytes) := by
  cases bytes with
  | none => exact follows_pure
  | some bytes =>
      simp only [stored]
      cases decode? bytes with
      | none => exact follows_throw rfl nofun
      | some record => exact follows_pure

theorem follows_readLock {i : InstanceId} {scope : LockScope} :
    Follows mayWrite .within .within (readLock i scope) :=
  follows_bind follows_get fun _ => follows_stored

theorem follows_readStats {i : InstanceId} {table : TableId}
    {tablet : TabletId} :
    Follows mayWrite .within .within (readStats i table tablet) :=
  follows_bind follows_get fun _ =>
    follows_bind follows_stored fun _ => follows_pure

theorem follows_changeStats {i : InstanceId} {table : TableId}
    {tablet : TabletId} {entries rows : Int} :
    Follows true .within .within (changeStats i table tablet entries rows) := by
  unfold changeStats
  split
  · exact follows_pure
  · exact follows_bind follows_readStats fun _ => follows_put

-- ================================================== checks

theorem isCheck_of_ofLockId {id : Int64} {e : ServiceError}
    (h : LockKind.ofLockId id = .error e) : e.isCheck := by
  unfold LockKind.ofLockId at h
  repeat' split at h
  all_goals cases h
  rfl

theorem isCheck_of_ofTakingLockId {id : Int64} {e : ServiceError}
    (h : LockKind.ofTakingLockId id = .error e) : e.isCheck := by
  unfold LockKind.ofTakingLockId at h
  cases hkind : LockKind.ofLockId id with
  | error e' =>
      rw [hkind] at h
      obtain rfl := Except.error.inj h
      exact isCheck_of_ofLockId hkind
  | ok kind =>
      rw [hkind] at h
      cases kind <;> cases h
      rfl

theorem isCheck_of_ofRequest {version : LockVersion} {table : TableId}
    {tablets : List TabletId} {e : ServiceError}
    (h : LockScope.ofRequest version table tablets = .error e) :
    e.isCheck := by
  unfold LockScope.ofRequest at h
  repeat' split at h
  all_goals cases h
  rfl

theorem isCheck_of_leaseEnd {now : Instant} {secs : UInt64} {e : ServiceError}
    (h : leaseEnd now secs = .error e) : e.isCheck := by
  unfold leaseEnd at h
  repeat' split at h
  all_goals cases h
  all_goals rfl

theorem follows_versionOf {i : InstanceId} {taken : Option LockVersion}
    (ha : a ≠ .after) : Follows mayWrite a a (versionOf i taken) := by
  refine follows_bind follows_route fun routed => ?_
  cases taken with
  | none => exact follows_pure
  | some version =>
      simp only
      split
      · exact follows_pure
      · exact follows_throw rfl ha

-- ================================================== the lock

theorem follows_grants {i : InstanceId} {kind : LockKind} {initiator : Int64}
    {now expiration : Instant} :
    ∀ scopes : List LockScope, Follows mayWrite .within .within
      (grants i kind initiator now expiration scopes) := by
  intro scopes
  induction scopes with
  | nil => exact follows_pure
  | cons scope rest ih =>
      refine follows_bind follows_readLock fun current => ?_
      split
      · exact follows_bind follows_report fun _ => follows_throw rfl nofun
      · exact follows_bind ih fun _ => follows_pure

theorem follows_acquireLock (config : LockConfig) (r : AcquireLock) :
    Follows true .before .after (acquireLock config r) := by
  unfold acquireLock
  refine follows_bind (follows_instanceOf nofun) fun i => ?_
  refine follows_bind (follows_lift nofun fun _ => isCheck_of_ofTakingLockId)
    fun kind => ?_
  refine follows_bind (follows_versionOf nofun) fun version => ?_
  refine follows_bind (follows_lift nofun fun _ => isCheck_of_ofRequest)
    fun scopes => ?_
  refine follows_bind follows_now fun now => ?_
  refine follows_bind (follows_lift nofun fun _ => isCheck_of_leaseEnd)
    fun expiration => ?_
  refine follows_bind follows_start fun _ => ?_
  refine follows_bind (follows_grants scopes) fun granted => ?_
  refine follows_bind (follows_forM (fun _ => follows_put) granted) fun _ => ?_
  have hgoes : ∀ stats : List TabletStats, Follows true .within .after (do
      commit "commit delete bitmap update lock"
      granted.forM fun g => ask (.report (.lock g.outcome))
      return stats) := by
    intro stats
    refine follows_bind follows_commit fun _ => ?_
    exact follows_bind (follows_forM (fun _ => follows_report) granted)
      fun _ => follows_pure
  split
  · exact follows_bind (follows_mapM (fun _ => follows_readStats) r.tablets)
      fun stats => hgoes stats
  · exact hgoes []

theorem follows_releases {i : InstanceId} {kind : LockKind}
    {initiator : Int64} :
    ∀ scopes : List LockScope,
      Follows true .within .within (releases i kind initiator scopes) := by
  intro scopes
  induction scopes with
  | nil => exact follows_pure
  | cons scope rest ih =>
      refine follows_bind follows_readLock fun current => ?_
      have hgoes : ∀ outcome, Follows true .within .within (do
          return outcome :: (← releases i kind initiator rest)) :=
        fun outcome => follows_bind ih fun _ => follows_pure
      split
      · exact follows_bind follows_remove fun _ => hgoes .released
      · exact follows_bind follows_put fun _ => hgoes .released
      · exact hgoes .staleRelease

theorem follows_releaseLock (r : ReleaseLock) :
    Follows true .before .after (releaseLock r) := by
  unfold releaseLock
  refine follows_bind (follows_instanceOf nofun) fun i => ?_
  refine follows_bind (follows_lift nofun fun _ => isCheck_of_ofTakingLockId)
    fun kind => ?_
  refine follows_bind (follows_versionOf nofun) fun version => ?_
  refine follows_bind (follows_lift nofun fun _ => isCheck_of_ofRequest)
    fun scopes => ?_
  refine follows_bind follows_start fun _ => ?_
  refine follows_bind (follows_releases scopes) fun outcomes => ?_
  refine follows_bind follows_commit fun _ => ?_
  exact follows_forM (fun _ => follows_report) outcomes

-- ================================================== bitmaps

theorem follows_checkHolder {i : InstanceId} {table : TableId}
    {tablet : TabletId} {kind : LockKind} {initiator : Int64} :
    Follows mayWrite .within .within
      (checkHolder i table tablet kind initiator) := by
  refine follows_bind follows_route fun version => ?_
  refine follows_bind follows_readLock fun current => ?_
  refine follows_bind follows_now fun now => ?_
  split
  · exact follows_pure
  · exact follows_throw rfl nofun

theorem follows_putEntries {i : InstanceId} {tablet : TabletId} :
    ∀ entries : List (BitmapKey × RowSet),
      Follows true .within .within (putEntries i tablet entries) := by
  intro entries
  induction entries with
  | nil => exact follows_pure
  | cons entry rest ih =>
      rw [putEntries]
      refine follows_bind follows_get fun held => ?_
      cases held with
      | none =>
          exact follows_bind follows_pure fun _ =>
            follows_bind follows_put fun _ =>
              follows_bind ih fun _ => follows_pure
      | some bytes =>
          exact follows_bind follows_rowsOf fun _ =>
            follows_bind follows_pure fun _ =>
              follows_bind follows_put fun _ =>
                follows_bind ih fun _ => follows_pure

theorem follows_updateBitmap (r : UpdateBitmap) :
    Follows true .before .after (updateBitmap r) := by
  unfold updateBitmap
  refine follows_bind (follows_instanceOf nofun) fun i => ?_
  refine follows_bind (follows_lift nofun fun _ => isCheck_of_ofLockId)
    fun kind => ?_
  refine follows_bind follows_start fun _ => ?_
  have hwrite : Follows true .within .after (do
      let change ← putEntries i r.tablet r.bitmap.toList
      changeStats i r.table r.tablet change.1 change.2
      commit "commit delete bitmap") :=
    follows_bind (follows_putEntries r.bitmap.toList) fun _ =>
      follows_bind follows_changeStats fun _ => follows_commit
  split
  · exact follows_bind follows_checkHolder fun _ => hwrite
  · exact hwrite

theorem follows_collect {first last : Version} :
    ∀ (entries : List (Bytes × Bytes)) (bitmap : DeleteBitmap),
      Follows mayWrite .within .within (collect first last bitmap entries) := by
  intro entries
  induction entries with
  | nil => intro bitmap; exact follows_pure
  | cons entry rest ih =>
      intro bitmap
      rw [collect]
      split
      · exact follows_throw rfl nofun
      · split
        · exact follows_bind follows_rowsOf fun _ => ih _
        · exact ih bitmap

theorem follows_collectRowsets {i : InstanceId} {tablet : TabletId}
    {first last : Version} :
    ∀ (rowsets : List String) (bitmap : DeleteBitmap),
      Follows mayWrite .within .within
        (collectRowsets i tablet first last bitmap rowsets) := by
  intro rowsets
  induction rowsets with
  | nil => intro bitmap; exact follows_pure
  | cons name rest ih =>
      intro bitmap
      refine follows_bind follows_rowsetOf fun rowset => ?_
      refine follows_bind follows_scan fun entries => ?_
      exact follows_bind (follows_collect entries bitmap) fun _ => ih _

/-- Reading ends with its transaction open. -/
theorem follows_readBitmap (r : ReadBitmap) :
    Follows mayWrite .before .within (readBitmap r) := by
  unfold readBitmap
  refine follows_bind (follows_instanceOf nofun) fun i => ?_
  split
  · exact follows_bind follows_start fun _ => follows_collectRowsets r.rowsets ∅
  · exact follows_throw rfl nofun

theorem follows_removeEntries :
    ∀ entries : List (Bytes × Bytes),
      Follows true .within .within (removeEntries entries) := by
  intro entries
  induction entries with
  | nil => exact follows_pure
  | cons entry rest ih =>
      refine follows_bind follows_rowsOf fun rows => ?_
      exact follows_bind follows_remove fun _ =>
        follows_bind ih fun _ => follows_pure

theorem follows_removeRowsets {i : InstanceId} {tablet : TabletId} :
    ∀ rowsets : List String,
      Follows true .within .within (removeRowsets i tablet rowsets) := by
  intro rowsets
  induction rowsets with
  | nil => exact follows_pure
  | cons name rest ih =>
      refine follows_bind follows_rowsetOf fun rowset => ?_
      refine follows_bind follows_scan fun entries => ?_
      refine follows_bind (follows_removeEntries entries) fun rows => ?_
      exact follows_bind ih fun others => follows_pure

theorem follows_removeBitmap (r : RemoveBitmap) :
    Follows true .before .after (removeBitmap r) := by
  unfold removeBitmap
  refine follows_bind (follows_instanceOf nofun) fun i => ?_
  refine follows_bind follows_start fun _ => ?_
  refine follows_bind (follows_removeRowsets r.rowsets) fun removed => ?_
  exact follows_bind follows_changeStats fun _ => follows_commit

end Handler

namespace Call

/-- True for requests that change the store. -/
def writes : Call → Bool
  | .readBitmap _ => false
  | _ => true

/-- The phase in which the handler of a request ends well. -/
def lastPhase (call : Call) : TxnPhase :=
  if call.writes then .after else .within

/-- The phases of the handlers. -/
theorem follows_handler (config : LockConfig) (call : Call) :
    (call.handler config).Follows call.writes .before call.lastPhase := by
  cases call with
  | acquireLock r => exact Handler.follows_acquireLock config r
  | releaseLock r => exact Handler.follows_releaseLock r
  | updateBitmap r => exact Handler.follows_updateBitmap r
  | readBitmap r => exact Handler.follows_readBitmap r
  | removeBitmap r => exact Handler.follows_removeBitmap r

/-- A request that is attempted succeeds in its last phase, or fails before
any commit with an error that is not the store's. -/
def EndsIn (call : Call) (a : TxnPhase) (response : Response call.Payload) :
    Prop :=
  (a = call.lastPhase ∧ response.status.code = .ok)
    ∨ a ≠ .after ∧ ∃ e : ServiceError, e.isCheck
      ∧ response = .ofResult call.noPayload (.error e)

/-- A request that is attempted and refused something fails with the error
of that. -/
def FailsWith (call : Call) (code : StoreCode)
    (response : Response call.Payload) : Prop :=
  ∃ context, response = .ofResult call.noPayload (.error (.store code context))

/-- The phases of an attempt at a request. -/
theorem follows_attempt (config : LockConfig) (call : Call) :
    Script.Follows call.writes call.EndsIn call.FailsWith .before
      (call.attempt config) := by
  refine Script.follows_map (fun a result hend => ?_)
    (fun code result hfail => ?_) (call.follows_handler config)
  · cases result with
    | ok payload => exact .inl ⟨hend, rfl⟩
    | error e => exact .inr ⟨hend.2, e, hend.1, rfl⟩
  · obtain ⟨context, rfl⟩ := hfail
    exact ⟨context, rfl⟩

end Call

end MergeOnWrite
