/-
What a request for the lock does in a race.

Nothing goes wrong in a race but that others are faster: the store refuses
only commits, and only because of commits in between. So what becomes of a
request depends on what its transactions find. If an attempt is granted
all scopes it asks for a commit, and if one of them is held it ends there
and then.

This is told by a judgement on scripts (`Script.Contends`) like the one for
scripts that may be refused anything (`Script.Safe`). It counts the
refusals, and it tells what the entries can be by the number of refusals
before: each refusal has a reason, and that reason is to be found in the
store afterwards.

# Main statements

- `Handler.contends_acquireLock`: an attempt commits its effect, is refused
  the commit though it was granted all scopes, or finds a scope held.
- `Call.contends_serve`: with enough retries for all refusals, the request
  ends with its commit granted or its scopes held.
-/
import MergeOnWrite.Proofs.Service.BitmapEffect
import MergeOnWrite.Service.Front

namespace MergeOnWrite

-- ================================================== requests

/-- What a request for the lock asks for. -/
structure Bid where
  i : InstanceId
  kind : LockKind
  initiator : Int64
  scopes : List LockScope
  now : Instant
  expiration : Instant

namespace Bid

variable (b : Bid)

def decides (current : Option LockRecord) : LockRecord.Acquisition :=
  LockRecord.acquire current b.kind b.initiator b.now b.expiration

/-- True of entries whose records grant all scopes. -/
def IsGrantedOn (entries : Entries) : Prop :=
  ∀ scope ∈ b.scopes, ∃ current record outcome,
    entries.HasLock b.i scope current
      ∧ b.decides current = .granted record outcome

/-- True of entries whose records refuse one of the scopes. -/
def IsRefusedOn (entries : Entries) : Prop :=
  ∃ scope ∈ b.scopes, ∃ current holder, entries.HasLock b.i scope current
    ∧ b.decides current = .busy holder

end Bid

namespace AcquireLock

/-- True of well-formed requests, and of what they ask for: the names and
numbers are valid, the version is the one in use, and the lease ends within
the calendar. -/
structure Places (route : InstanceId → LockVersion) (config : LockConfig)
    (r : AcquireLock) (b : Bid) : Prop where
  instance_eq : InstanceId.ofText r.instanceName = .ok b.i
  kind_eq : LockKind.ofTakingLockId r.lockId = .ok b.kind
  initiator_eq : r.initiator = b.initiator
  version_eq : r.version = none ∨ r.version = some (route b.i)
  scopes_eq : LockScope.ofRequest (route b.i) r.table r.tablets = .ok b.scopes
  expiration_eq : Handler.leaseEnd b.now (r.leaseSecs.getD config.leaseSecs)
    = .ok b.expiration

/-- True of entries from which the statistics can be read that the response
is to tell. -/
def FindsStats (r : AcquireLock) (i : InstanceId) (entries : Entries) : Prop :=
  r.wantsStats = true → ∀ tablet ∈ r.tablets,
    ∃ record, entries.HasStats i r.table tablet record

/-- The effect of a request for the lock leaves the statistics alone. -/
theorem Effect.findsStats {route : InstanceId → LockVersion}
    {config : LockConfig} {r other : AcquireLock} {i j : InstanceId}
    {kind : LockKind} {scopes : List LockScope} {now expiration : Instant}
    {readings : List Instant} {d : Draft}
    (h : r.Effect route config i kind scopes now expiration readings d)
    (hj : j.IsValid) (hstats : other.FindsStats j d.before) :
    other.FindsStats j d.after := by
  intro hwants tablet htablet
  obtain ⟨record, hrecord⟩ := hstats hwants tablet htablet
  refine ⟨record, ?_⟩
  rw [Entries.HasStats, h.others _ fun scope _ hkey => ?_]
  · exact hrecord
  · exact LockScope.key_ne_stats (InstanceId.isValid_of_ofText h.instance_eq) hj
      (Bytes.ofText_inj hkey.symm)

end AcquireLock

-- ================================================== contending

/-- What a request meets in a race, and what it keeps to. -/
structure Odds where
  route : InstanceId → LockVersion
  clock : Instant
  /-- How many others there are. -/
  rivals : Nat
  /-- The entries that a transaction may begin with after some refusals. -/
  finds : Nat → Entries → Prop
  /-- The drafts that the request may commit. -/
  commits : Draft → Prop

/-- How far a request has come in a race. -/
structure Effort where
  /-- Its transaction, if one is open. -/
  draft : Option Draft := none
  /-- How many of its commits were refused. -/
  refusals : Nat := 0
  /-- Whether a commit was granted. -/
  won : Bool := false

namespace Effort

/-- Writes into the draft, if there is one. -/
def write (e : Effort) (change : Entries → Entries) : Effort :=
  { e with draft := e.draft.map fun d => { d with after := change d.after } }

/-- What a request may ask when it has come that far. -/
def MayAsk (o : Odds) (e : Effort) : Question → Prop
  | .start => e.won = false
  | .get _ => e.draft.isSome = true
  | .commit => e.won = false ∧ ∃ d, e.draft = some d ∧ o.commits d
  | .scan _ | .remove _ | .replay .. => False
  | _ => True

/-- What a request is answered, and where that leads. -/
def Meets (o : Odds) (e : Effort) : (q : Question) → q.Answer → Effort → Prop
  | .now, now, e' => now = o.clock ∧ e' = e
  | .route i, version, e' => version = o.route i ∧ e' = e
  | .start, result, e' => result = .ok () ∧ ∃ entries,
    o.finds e.refusals entries
      ∧ e' = { e with draft := some ⟨entries, entries⟩ }
  | .get key, result, e' => ∃ d, e.draft = some d
    ∧ result = .ok (d.after.get? key) ∧ e' = e
  | .put key value, _, e' => e' = e.write (·.insert key value)
  | .commit, result, e' =>
    (result = .ok () ∧ e' = { e with draft := none, won := true })
      ∨ result = .error .conflict ∧ e.refusals < o.rivals
        ∧ e' = { e with draft := none, refusals := e.refusals + 1 }
  | _, _, e' => e' = e

end Effort

variable {o : Odds} {α β : Type}

/-- True of scripts that, when they have come some way, ask only what they
may ask, and end only as a condition allows. -/
def Script.Contends (o : Odds) (ends : Effort → α → Prop) :
    Effort → Script α → Prop
  | e, .done a => ends e a
  | e, .ask q next =>
    e.MayAsk o q ∧ ∀ x e', e.Meets o q x e' → Script.Contends o ends e' (next x)

namespace Script

variable {ends : Effort → α → Prop} {e : Effort}

theorem contends_mono {ends' : Effort → α → Prop} {s : Script α}
    (h : ∀ e a, ends e a → ends' e a) (hs : Contends o ends e s) :
    Contends o ends' e s := by
  induction s generalizing e with
  | done a => exact h e a hs
  | ask q next ih => exact ⟨hs.1, fun x e' hx => ih x (hs.2 x e' hx)⟩

/-- The second part of a sequence goes on where the first part ends. -/
theorem contends_bind {ends : Effort → β → Prop} {s : Script α}
    {f : α → Script β}
    (h : Contends o (fun e a => Contends o ends e (f a)) e s) :
    Contends o ends e (s >>= f) := by
  induction s generalizing e with
  | done a => exact h
  | ask q next ih => exact ⟨h.1, fun x e' hx => ih x (h.2 x e' hx)⟩

/-- A question whose answer changes nothing. -/
theorem contends_idle {q : Question} {ends : Effort → q.Answer → Prop}
    (hask : e.MayAsk o q) (hmeets : ∀ x e', e.Meets o q x e' → e' = e)
    (h : ∀ x, ends e x) : Contends o ends e (question q) :=
  ⟨hask, fun x e' hx => hmeets x e' hx ▸ h x⟩

theorem contends_report {event : Report} {ends : Effort → Unit → Prop}
    (h : ends e ()) : Contends o ends e (report event) :=
  contends_idle trivial (fun _ _ he => he) fun _ => h

end Script

/-- What a request may rely on in a race: it is well-formed, the records that
it reads can be read, and its effect may be committed. -/
structure Odds.Suits (o : Odds) (config : LockConfig) (r : AcquireLock)
    (b : Bid) : Prop where
  places : r.Places o.route config b
  isClockTime : b.now.IsClockTime
  now_eq : b.now = o.clock
  readable : ∀ refusals entries, o.finds refusals entries →
    (∀ scope ∈ b.scopes, ∃ current, entries.HasLock b.i scope current)
      ∧ r.FindsStats b.i entries
  commits : ∀ d, r.Effect o.route config b.i b.kind b.scopes b.now b.expiration
    [b.now] d → o.commits d

namespace Handler

/-- How a handler ends: with a result or with an error. -/
def Either (ends : Effort → α → Prop) (fails : Effort → ServiceError → Prop)
    (e : Effort) : Except ServiceError α → Prop
  | .ok a => ends e a
  | .error error => fails e error

def Contends (o : Odds) (ends : Effort → α → Prop)
    (fails : Effort → ServiceError → Prop) (e : Effort) (h : Handler α) :
    Prop :=
  Script.Contends o (Either ends fails) e h.run

section Rules

variable {ends : Effort → α → Prop} {fails : Effort → ServiceError → Prop}
  {e : Effort}

theorem contends_pure {a : α} (h : ends e a) :
    Contends o ends fails e (pure a : Handler α) := h

theorem contends_throw {error : ServiceError} (h : fails e error) :
    Contends o ends fails e (throw error : Handler α) := h

theorem contends_bind {ends : Effort → β → Prop} {h : Handler α}
    {f : α → Handler β}
    (hs : Contends o (fun e a => Contends o ends fails e (f a)) fails e h) :
    Contends o ends fails e (h >>= f) := by
  show Script.Contends o (Either ends fails) e (h.run >>= _)
  refine Script.contends_bind (Script.contends_mono (fun e r hr => ?_) hs)
  cases r with
  | ok a => exact hr
  | error error => exact hr

/-- A question that is never refused may be asked. -/
theorem contends_ask {q : Question} {ends : Effort → q.Answer → Prop}
    (hask : e.MayAsk o q) (h : ∀ x e', e.Meets o q x e' → ends e' x) :
    Contends o ends fails e (ask q) :=
  ⟨hask, h⟩

theorem contends_report {ends : Effort → Unit → Prop} {event : Report}
    (h : ends e ()) : Contends o ends fails e (ask (.report event)) :=
  contends_ask trivial fun _ _ he => he ▸ h

theorem contends_put {ends : Effort → Unit → Prop} {key value : Bytes}
    (h : ends (e.write (·.insert key value)) ()) :
    Contends o ends fails e (ask (.put key value)) :=
  contends_ask trivial fun _ _ he => he ▸ h

theorem contends_get {ends : Effort → Option Bytes → Prop} {context : String}
    {key : Bytes} {d : Draft} (hd : e.draft = some d)
    (h : ends e (d.after.get? key)) :
    Contends o ends fails e (get context key) := by
  refine ⟨by rw [Effort.MayAsk, hd]; rfl, fun x e' hx => ?_⟩
  obtain ⟨d', hd', rfl, rfl⟩ := hx
  obtain rfl := Option.some.inj (hd.symm.trans hd')
  exact h

theorem contends_start {ends : Effort → Unit → Prop} (hwon : e.won = false)
    (h : ∀ entries, o.finds e.refusals entries →
      ends { e with draft := some ⟨entries, entries⟩ } ()) :
    Contends o ends fails e start := by
  refine ⟨hwon, fun x e' hx => ?_⟩
  obtain ⟨rfl, entries, hentries, rfl⟩ := hx
  exact h entries hentries

/-- A commit is granted, or refused because others were faster. -/
theorem contends_commit {ends : Effort → Unit → Prop} {context : String}
    {d : Draft} (hwon : e.won = false) (hd : e.draft = some d)
    (hcommits : o.commits d)
    (hgranted : ends { e with draft := none, won := true } ())
    (hrefused : e.refusals < o.rivals →
      fails { e with draft := none, refusals := e.refusals + 1 }
        (.store .conflict context)) :
    Contends o ends fails e (commit context) := by
  refine ⟨⟨hwon, d, hd, hcommits⟩, fun x e' hx => ?_⟩
  rcases hx with ⟨rfl, rfl⟩ | ⟨rfl, hrivals, rfl⟩
  · exact hgranted
  · exact hrefused hrivals

theorem contends_instanceOf {ends : Effort → InstanceId → Prop} {name : String}
    {i : InstanceId} (hi : InstanceId.ofText name = .ok i) (h : ends e i) :
    Contends o ends fails e (instanceOf name) := by
  rw [instanceOf, hi]
  exact h

/-- What comes out well need not be checked. -/
theorem contends_lift {result : Except ServiceError α} {a : α}
    (hresult : result = .ok a) (h : ends e a) :
    Contends o ends fails e (liftM result : Handler α) := by
  rw [hresult]
  exact h

/-- A record that can be read is read. -/
theorem contends_stored {decode? : Bytes → Option α} {what : String}
    {ends : Effort → Option α → Prop} {bytes : Option Bytes}
    {record : Option α} (hbytes : bytes.map decode? = record.map some)
    (h : ends e record) :
    Contends o ends fails e (stored decode? what bytes) := by
  cases bytes with
  | none =>
      cases record with
      | none => exact h
      | some record => cases hbytes
  | some b =>
      cases record with
      | none => cases hbytes
      | some record =>
          rw [stored, Option.some.inj hbytes]
          exact h

theorem contends_forM {f : α → Handler Unit} {e : Effort}
    (hf : ∀ a (ends : Effort → Unit → Prop), ends e () →
      Contends o ends fails e (f a)) {ends : Effort → Unit → Prop}
    (h : ends e ()) : ∀ l : List α, Contends o ends fails e (l.forM f) := by
  intro l
  induction l with
  | nil => exact contends_pure h
  | cons a rest ih => exact contends_bind (hf a _ ih)

theorem contends_mapM {f : α → Handler β} {e : Effort} :
    ∀ {l : List α} {ends : Effort → List β → Prop},
      (∀ a ∈ l, ∀ ends : Effort → β → Prop, (∀ b, ends e b) →
        Contends o ends fails e (f a)) →
      (∀ bs, ends e bs) → Contends o ends fails e (l.mapM f) := by
  intro l
  induction l with
  | nil => intro ends _ h; exact contends_pure (h [])
  | cons a rest ih =>
      intro ends hf h
      rw [List.mapM_cons]
      refine contends_bind (hf a (List.mem_cons_self ..) _ fun b => ?_)
      refine contends_bind (ih (fun a ha => hf a (List.mem_cons_of_mem _ ha))
        fun bs => ?_)
      exact contends_pure (h _)

end Rules

-- ================================================== one attempt

section Attempt

variable {fails : Effort → ServiceError → Prop} {e : Effort} {d : Draft}

theorem contends_versionOf {ends : Effort → LockVersion → Prop}
    {i : InstanceId} {taken : Option LockVersion}
    (htaken : taken = none ∨ taken = some (o.route i))
    (h : ends e (o.route i)) :
    Contends o ends fails e (versionOf i taken) := by
  refine contends_bind (contends_ask trivial fun version e' hx => ?_)
  obtain ⟨rfl, rfl⟩ := hx
  rcases htaken with rfl | rfl
  · exact contends_pure h
  · simp only [if_true]
    exact contends_pure h

/-- The scopes are decided on one after another, until one is held. -/
theorem contends_grants {b : Bid} (hd : e.draft = some d) :
    ∀ {scopes : List LockScope} {ends : Effort → List Grant → Prop},
      (∀ scope ∈ scopes, ∃ current, d.after.HasLock b.i scope current) →
      (∀ granted : List Grant, granted.map (·.scope) = scopes →
        (∀ g ∈ granted,
          GrantedOn d b.i b.kind b.initiator b.now b.expiration g) →
        ends e granted) →
      (∀ scope ∈ scopes, ∀ current holder, d.after.HasLock b.i scope current →
        b.decides current = .busy holder →
        ∀ message, fails e (.lockBusy message)) →
      Contends o ends fails e
        (grants b.i b.kind b.initiator b.now b.expiration scopes) := by
  intro scopes
  induction scopes with
  | nil => intro ends _ h _; exact contends_pure (h [] rfl nofun)
  | cons scope rest ih =>
      intro ends hread h hbusy
      obtain ⟨current, hcurrent⟩ := hread scope (List.mem_cons_self ..)
      refine contends_bind (contends_bind (contends_get hd
        (contends_stored hcurrent ?_)))
      cases hacquire : LockRecord.acquire current b.kind b.initiator b.now
          b.expiration with
      | busy holder =>
          exact contends_bind (contends_report (contends_throw
            (hbusy scope (List.mem_cons_self ..) current holder hcurrent
              hacquire _)))
      | granted record outcome =>
          refine contends_bind (ih
            (fun b hb => hread b (List.mem_cons_of_mem _ hb))
            (fun granted hscopes hgranted => contends_pure (h _ ?_ ?_))
            fun b hb => hbusy b (List.mem_cons_of_mem _ hb))
          · exact congrArg (scope :: ·) hscopes
          · intro g hg
            rcases List.mem_cons.1 hg with rfl | hg
            · exact ⟨current, hcurrent, hacquire⟩
            · exact hgranted g hg

theorem contends_puts {key value : α → Bytes} :
    ∀ {l : List α} {d : Draft} {e : Effort} {ends : Effort → Unit → Prop},
      e.draft = some d →
      ends { e with draft := some ⟨d.before, l.foldl
        (fun entries a => entries.insert (key a) (value a)) d.after⟩ } () →
      Contends o ends fails e (l.forM fun a => ask (.put (key a) (value a))) := by
  intro l
  induction l with
  | nil =>
      intro d e ends hd h
      refine contends_pure ?_
      rwa [List.foldl_nil, show some (Draft.mk d.before d.after) = e.draft from
        hd.symm] at h
  | cons a rest ih =>
      intro d e ends hd h
      refine contends_bind (contends_put ?_)
      rw [Effort.write, hd]
      exact ih (e := { e with draft := some _ }) rfl h

theorem contends_readStats {ends : Effort → TabletStats → Prop}
    {i : InstanceId} {table : TableId} {tablet : TabletId}
    (hd : e.draft = some d)
    (hstats : ∃ record, d.after.HasStats i table tablet record)
    (h : ∀ stats, ends e stats) :
    Contends o ends fails e (readStats i table tablet) := by
  obtain ⟨record, hrecord⟩ := hstats
  exact contends_bind (contends_get hd
    (contends_bind (contends_stored hrecord (contends_pure (h _)))))

/-- An attempt at a request commits its effect, and is done when that is
granted. It is refused the commit only if it was granted all scopes, and
asks for none if one of the scopes is held. -/
theorem contends_acquireLock {config : LockConfig} {r : AcquireLock} {b : Bid}
    {refusals : Nat} {ends : Effort → List TabletStats → Prop}
    (h : o.Suits config r b)
    (hwon : ∀ stats, ends ⟨none, refusals, true⟩ stats)
    (hrefused : ∀ entries, o.finds refusals entries → b.IsGrantedOn entries →
      refusals < o.rivals → ∀ context,
      fails ⟨none, refusals + 1, false⟩ (.store .conflict context))
    (hbusy : ∀ entries, b.IsRefusedOn entries → ∀ message,
      fails ⟨some ⟨entries, entries⟩, refusals, false⟩ (.lockBusy message)) :
    Contends o ends fails ⟨none, refusals, false⟩ (acquireLock config r) := by
  have hr := h.places
  unfold acquireLock
  rw [hr.initiator_eq]
  refine contends_bind (contends_instanceOf hr.instance_eq ?_)
  refine contends_bind (contends_lift hr.kind_eq ?_)
  refine contends_bind (contends_versionOf hr.version_eq ?_)
  refine contends_bind (contends_lift hr.scopes_eq ?_)
  refine contends_bind (contends_ask trivial fun now e' hx => ?_)
  obtain ⟨rfl, rfl⟩ : now = b.now ∧ e' = _ := by rwa [h.now_eq]
  refine contends_bind (contends_lift hr.expiration_eq ?_)
  refine contends_bind (contends_start rfl fun entries hentries => ?_)
  have hread := h.readable refusals entries hentries
  refine contends_bind (contends_grants rfl hread.1
    (fun granted hmap hgranted => ?_)
    fun scope hscope current holder hcurrent hholder message =>
      hbusy entries ⟨scope, hscope, current, holder, hcurrent, hholder⟩ message)
  refine contends_bind (contends_puts rfl ?_)
  have hall : b.IsGrantedOn entries := by
    intro scope hscope
    rw [← hmap] at hscope
    obtain ⟨g, hg, rfl⟩ := List.mem_map.1 hscope
    obtain ⟨current, hcurrent, hacquire⟩ := hgranted g hg
    exact ⟨current, g.record, g.outcome, hcurrent, hacquire⟩
  have heffect : r.Effect o.route config b.i b.kind b.scopes b.now b.expiration
      [b.now] ⟨entries, _⟩ :=
    AcquireLock.effect_of_granted hr.instance_eq hr.kind_eq hr.scopes_eq
      h.isClockTime hr.expiration_eq hmap (hr.initiator_eq ▸ hgranted)
  -- what is left of the attempt, once it has read the statistics
  have hcommit : ∀ stats : List TabletStats, Contends o ends fails
      { draft := some ⟨entries, granted.foldl (fun entries g =>
          entries.insert (.ofText (g.scope.key b.i)) g.record.encode) entries⟩,
        refusals, won := false } (do
      commit "commit delete bitmap update lock"
      granted.forM fun g => ask (.report (.lock g.outcome))
      return stats) := by
    intro stats
    refine contends_bind (contends_commit rfl rfl (h.commits _ heffect) ?_
      fun hrivals => hrefused entries hentries hall hrivals _)
    refine contends_bind (contends_forM (fun g _ => contends_report) ?_ granted)
    exact contends_pure (hwon stats)
  split
  · rename_i hwants
    refine contends_bind (contends_mapM (fun tablet htablet ends hends => ?_)
      hcommit)
    have hi := InstanceId.isValid_of_ofText hr.instance_eq
    exact contends_readStats rfl
      (heffect.findsStats hi hread.2 hwants tablet htablet) hends
  · exact hcommit []

end Attempt

end Handler

-- ================================================== all attempts

/-- True of the ends of a request: its commit was granted, or its last
transaction found a scope held. -/
def Bid.Settles (b : Bid) (e : Effort) (code : ServiceCode) : Prop :=
  e.won = true ∧ code = .ok
    ∨ e.won = false ∧ code = .lockConflict
      ∧ ∃ d, e.draft = some d ∧ b.IsRefusedOn d.before

/-- True if a commit may be refused after some refusals. -/
def Odds.MayRefuse (o : Odds) (b : Bid) (refusals : Nat) : Prop :=
  refusals < o.rivals ∧ ∃ entries, o.finds refusals entries
    ∧ b.IsGrantedOn entries

/-- How an attempt ends: the request is settled, or refused once more. -/
def Odds.Attempted (o : Odds) (b : Bid) (refusals : Nat) (e : Effort)
    (code : ServiceCode) : Prop :=
  b.Settles e code
    ∨ e = ⟨none, refusals + 1, false⟩ ∧ code = .conflict
      ∧ o.MayRefuse b refusals

theorem Bid.Settles.isRetryable_eq_false {b : Bid} {e : Effort}
    {code : ServiceCode} (h : b.Settles e code) (config : RetryConfig) :
    config.isRetryable code = false := by
  rcases h with ⟨-, rfl⟩ | ⟨-, rfl, -⟩ <;> rfl

theorem Call.contends_attempt {config : LockConfig} {r : AcquireLock} {b : Bid}
    {refusals : Nat} (h : o.Suits config r b) :
    Script.Contends o
      (fun e response => o.Attempted b refusals e response.status.code)
      ⟨none, refusals, false⟩ ((Call.acquireLock r).attempt config) := by
  have hends : ∀ e (result : Except ServiceError (List TabletStats)),
      Handler.Either (fun e _ => e.won = true)
        (fun e error => o.Attempted b refusals e error.code) e result →
      o.Attempted b refusals e
        (Response.ofResult [] result).status.code := by
    intro e result hresult
    cases result with
    | ok stats => exact .inl (.inl ⟨hresult, rfl⟩)
    | error error => exact hresult
  refine Script.contends_bind (Script.contends_mono hends ?_)
  refine Handler.contends_acquireLock h (fun _ => rfl) ?_ ?_
  · intro entries hentries hgranted hrivals context
    exact .inr ⟨rfl, rfl, hrivals, entries, hentries, hgranted⟩
  · intro entries hrefused message
    exact .inl (.inr ⟨rfl, rfl, _, rfl, hrefused⟩)

/-- With enough retries for all refusals, a request gets settled. -/
theorem Script.contends_retrying {π : Type} {config : RetryConfig}
    {method : String} {attempt : Nat → Script (Response π)} {b : Bid}
    (hconflicts : config.retryConflict = true)
    (hattempt : ∀ retries, Contends o
      (fun e response => o.Attempted b retries e response.status.code)
      ⟨none, retries, false⟩ (attempt retries))
    {most : Nat} (hmost : ∀ retries, o.MayRefuse b retries → retries < most) :
    ∀ (left retries : Nat) (jitterMs : Option UInt64), retries + left = most →
      Contends o (fun e response => b.Settles e response.status.code)
        ⟨none, retries, false⟩
        (retrying config method attempt jitterMs retries left) := by
  intro left
  induction left with
  | zero =>
      intro retries jitterMs hsum
      refine contends_bind (contends_mono (fun e response h => ?_)
        (hattempt retries))
      rcases h with hsettles | ⟨-, -, hmay⟩
      · simp only [hsettles.isRetryable_eq_false, Bool.false_eq_true, if_false]
        exact hsettles
      · have := hmost retries hmay
        omega
  | succ left ih =>
      intro retries jitterMs hsum
      refine contends_bind (contends_mono (fun e response h => ?_)
        (hattempt retries))
      rcases h with hsettles | ⟨rfl, hcode, -⟩
      · simp only [hsettles.isRetryable_eq_false, Bool.false_eq_true, if_false]
        exact hsettles
      · -- another attempt follows after a wait
        have hretry : config.isRetryable response.status.code = true := by
          rw [hcode]
          exact hconflicts
        have hyoung : ¬ (response.status.code = .tooOld ∧ 1 ≤ retries) := by
          rw [hcode]
          exact fun h => nomatch h.1
        simp only [if_pos hretry, if_neg hyoung]
        have hwait : ∀ ms, Contends o
            (fun e response => b.Settles e response.status.code)
            ⟨none, retries + 1, false⟩ (do
              let wait := config.backoff retries ms
              report (.retry method wait)
              question (.pause wait)
              retrying config method attempt (some ms) (retries + 1) left) := by
          intro ms
          refine contends_bind (contends_report ?_)
          refine contends_bind (contends_idle trivial (fun _ _ he => he)
            fun _ => ?_)
          exact ih (retries + 1) (some ms) (by omega)
        cases jitterMs with
        | some ms => exact hwait ms
        | none =>
            exact contends_bind (contends_idle trivial (fun _ _ he => he) hwait)

/-- A request that may be retried after each refusal gets settled. -/
theorem Call.contends_serve {config : ServiceConfig} {r : AcquireLock} {b : Bid}
    (h : o.Suits config.lock r b) (henabled : config.retry.enabled = true)
    (hconflicts : config.retry.retryConflict = true)
    (hreplay : config.replay.enabled = false)
    (hmost : ∀ refusals, o.MayRefuse b refusals →
      refusals < config.retry.maxRetries.toNat) :
    Script.Contends o (fun e response => b.Settles e response.status.code) {}
      ((Call.acquireLock r).serve config) := by
  unfold serve Script.withRetries
  rw [if_pos henabled]
  refine Script.contends_bind (Script.contends_mono (fun e response hends => ?_)
    (Script.contends_retrying hconflicts
      (fun _ => Call.contends_attempt h) hmost _ 0 none (Nat.zero_add _)))
  have hadmits : config.replay.admits (Call.acquireLock r).method
      response.status = false := by
    simp [ReplayConfig.admits, hreplay]
  simp only [offerReplay, hadmits, Bool.false_eq_true, if_false]
  exact hends

end MergeOnWrite
