/-
The loop of attempts, told by what it asks.

Whoever attempts a request sees a code after each attempt, and one of three
things makes an attempt the last one: its code calls for no other attempt,
the retries are used up, or a transaction was too old for the second time.
The first attempt of which this is true is the last one, and there is one,
whatever the codes are, since the retries are limited.

All that the loop asks is then fixed up to the random part of the waits,
which is drawn before the first wait and kept for all others. What is asked
during an attempt is up to that attempt and stands in between. So the loop
is told by an equivalence (`Script.yields_withRetries`): the conversations
in which it comes to a response are those of a `Lineage`, attempts of which
the last one is as above. The induction that carries it is on the retries
that are left, and for it a lineage may begin at any attempt
(`Script.yields_retrying`).

# Main statements

- `Script.yields_turn`: one turn of the loop.
- `Script.yields_retrying`: the loop from some attempt on.
- `retries_as_specified`: which attempt is the last one, what callers get,
  the waits and the counts, and which codes no caller gets.
-/
import Mathlib.Data.Nat.Find
import Mathlib.Order.Bounds.Defs
import MergeOnWrite.Proofs.Program
import MergeOnWrite.Service.Retry

namespace MergeOnWrite

variable {π : Type} {config : RetryConfig} {method : String}

namespace RetryConfig

-- ================================================== codes

/-- True for the codes that stand for a failure that goes away, as far as
configured. -/
def retries (config : RetryConfig) (code : ServiceCode) : Bool :=
  if config.enabled then config.isRetryable code else code.isStoreRetryable

/-- The code that callers see of a failure in the end. -/
def terminal (config : RetryConfig) (code : StoreCode) : ServiceCode :=
  if config.retries (.ofStore code) then (ServiceCode.ofStore code).exhausted
  else .ofStore code

/-- What is made of the response of the last attempt. -/
def last {π : Type} (config : RetryConfig) (response : Response π) :
    Response π :=
  if config.retries response.status.code then response.exhausted else response

/-- How often a request is attempted at most. -/
def maxAttempts (config : RetryConfig) : Nat :=
  if config.enabled then config.maxRetries.toNat + 1 else 1

theorem retries_of_not_transient (config : RetryConfig) {code : ServiceCode}
    (h : code.isTransient = false) : config.retries code = false := by
  unfold retries
  split <;> cases code <;> first | rfl | cases h

/-- Only a response that is not changed tells of success in the end. -/
theorem last_of_ok (config : RetryConfig) {π : Type} {response : Response π}
    (h : (config.last response).status.code = .ok) :
    config.last response = response := by
  rw [last] at h ⊢
  split
  · rename_i hretries
    rw [if_pos hretries] at h
    have hcode : response.status.code = .ok := by
      revert h
      show response.status.code.exhausted = .ok → _
      cases response.status.code <;> first | exact fun _ => rfl | exact nofun
    rw [hcode, config.retries_of_not_transient rfl] at hretries
    cases hretries
  · rfl

/-- Nothing but the code of a response is changed in the end. -/
theorem last_eq (config : RetryConfig) (response : Response π) :
    (config.last response).payload = response.payload
      ∧ (config.last response).status.msg = response.status.msg
      ∧ (config.last response).status.code
        = if config.retries response.status.code then
            response.status.code.exhausted
          else response.status.code := by
  unfold last
  split <;> exact ⟨rfl, rfl, rfl⟩

/-- No caller gets a code that the store calls retryable. -/
theorem isStoreRetryable_last (config : RetryConfig)
    (response : Response π) :
    (config.last response).status.code.isStoreRetryable = false := by
  rw [(config.last_eq response).2.2]
  unfold retries isRetryable
  cases response.status.code <;> cases config.enabled <;>
    cases config.retryConflict <;> rfl

/-- Callers get a conflict only where it does not count as transient. -/
theorem conflict_of_last (config : RetryConfig) {response : Response π}
    (h : (config.last response).status.code = .conflict) :
    config.enabled = false ∨ config.retryConflict = false := by
  rw [(config.last_eq response).2.2] at h
  revert h
  unfold retries isRetryable
  cases response.status.code <;> cases config.enabled <;>
    cases config.retryConflict <;> simp [ServiceCode.exhausted,
      ServiceCode.isStoreRetryable]

-- ================================================== the last attempt

/-- True when a request is not attempted again that was retried some times
and then came to a code. -/
def StopsAt (config : RetryConfig) (retries : Nat) (code : ServiceCode) :
    Prop :=
  config.isRetryable code = false ∨ config.maxRetries.toNat ≤ retries
    ∨ code = .tooOld ∧ 1 ≤ retries

instance (config : RetryConfig) (retries : Nat) (code : ServiceCode) :
    Decidable (config.StopsAt retries code) := by
  unfold StopsAt
  infer_instance

/-- Whatever the codes are, some attempt is the last one. -/
theorem exists_stopsAt (config : RetryConfig) (codes : Nat → ServiceCode) :
    ∃ n ≤ config.maxRetries.toNat,
      IsLeast {k | config.StopsAt k (codes k)} n := by
  have hmax : config.StopsAt config.maxRetries.toNat
      (codes config.maxRetries.toNat) := .inr (.inl (Nat.le_refl _))
  have hex : ∃ n, config.StopsAt n (codes n) := ⟨_, hmax⟩
  exact ⟨Nat.find hex, Nat.find_min' hex hmax, Nat.find_spec hex,
    fun k hk => Nat.find_min' hex hk⟩

/-- The number of retries that are left, as machine words have it: neither
difference goes below zero as long as there is one left. -/
theorem toNat_left (config : RetryConfig) {retries : Nat}
    (h : retries < config.maxRetries.toNat) :
    (config.maxRetries - .ofNat retries - 1).toNat + 1 + retries
      = config.maxRetries.toNat := by
  have hsize : config.maxRetries.toNat < UInt32.size :=
    config.maxRetries.toNat_lt
  have hretries : (UInt32.ofNat retries).toNat = retries :=
    UInt32.toNat_ofNat_of_lt' (by omega)
  have hfirst : UInt32.ofNat retries ≤ config.maxRetries := by
    rw [UInt32.le_iff_toNat_le, hretries]
    omega
  have hleft : (config.maxRetries - .ofNat retries).toNat
      = config.maxRetries.toNat - retries := by
    rw [UInt32.toNat_sub_of_le _ _ hfirst, hretries]
  have hsecond : 1 ≤ config.maxRetries - .ofNat retries := by
    rw [UInt32.le_iff_toNat_le, hleft]
    show 1 ≤ config.maxRetries.toNat - retries
    omega
  rw [UInt32.toNat_sub_of_le _ _ hsecond, hleft]
  show config.maxRetries.toNat - retries - 1 + 1 + retries = _
  omega

end RetryConfig

-- ================================================== conversations

/-- A question and its answer. -/
abbrev Exchange : Type := (q : Question) × q.Answer

namespace Exchange

/-- The waits of a conversation. -/
def pauses (log : List Exchange) : List UInt64 :=
  log.filterMap fun
    | ⟨.pause ms, _⟩ => some ms
    | _ => none

/-- The random parts that were drawn for the waits. -/
def jitters (log : List Exchange) : List UInt64 :=
  log.filterMap fun
    | ⟨.jitter, ms⟩ => some ms
    | _ => none

def reports (log : List Exchange) : List Report :=
  log.filterMap fun
    | ⟨.report event, _⟩ => some event
    | _ => none

end Exchange

namespace RetryConfig

/-- What is asked between an attempt and the next one. -/
def waiting (config : RetryConfig) (method : String) (jitterMs : UInt64)
    (retries : Nat) : List Exchange :=
  (if retries = 0 then [⟨.jitter, jitterMs⟩] else [])
    ++ [⟨.report (.retry method (config.backoff retries jitterMs)), ()⟩,
      ⟨.pause (config.backoff retries jitterMs), ()⟩]

/-- What is asked after the last attempt. -/
def ending (config : RetryConfig) (method : String) (code : ServiceCode) :
    List Exchange :=
  if config.isRetryable code then
    [⟨.report (.exhausted method code.exhausted), ()⟩]
  else []

end RetryConfig

/-- What one attempt came to, and in which conversation. -/
structure Attempted (π : Type) where
  log : List Exchange
  response : Response π

def Attempted.code (t : Attempted π) : ServiceCode :=
  t.response.status.code

/-- The attempts at one request: what each came to, the random part of the
waits between them, and which one is the last. -/
structure Lineage (π : Type) where
  attempts : Nat → Attempted π
  jitterMs : UInt64
  last : Nat

namespace Lineage

variable {l : Lineage π} {attempt : Nat → Script (Response π)} {first : Nat}

/-- All that is asked from some attempt on. -/
def logFrom (l : Lineage π) (config : RetryConfig) (method : String)
    (first : Nat) : List Exchange :=
  ((List.range' first (l.last - first)).flatMap fun k =>
      (l.attempts k).log ++ config.waiting method l.jitterMs k)
    ++ ((l.attempts l.last).log
      ++ config.ending method (l.attempts l.last).code)

/-- All that is asked. -/
abbrev log (l : Lineage π) (config : RetryConfig) (method : String) :
    List Exchange :=
  l.logFrom config method 0

/-- What is asked between the attempts and after the last one. -/
def between (l : Lineage π) (config : RetryConfig) (method : String) :
    List Exchange :=
  (List.range l.last).flatMap (config.waiting method l.jitterMs)
    ++ config.ending method (l.attempts l.last).code

theorem logFrom_last : l.logFrom config method l.last
    = (l.attempts l.last).log
      ++ config.ending method (l.attempts l.last).code := by
  simp [logFrom]

theorem logFrom_of_lt (h : first < l.last) :
    l.logFrom config method first = (l.attempts first).log
      ++ (config.waiting method l.jitterMs first
        ++ l.logFrom config method (first + 1)) := by
  obtain ⟨n, hn⟩ : ∃ n, l.last - first = n + 1 :=
    ⟨l.last - first - 1, by omega⟩
  have hn' : l.last - (first + 1) = n := by omega
  simp only [logFrom, hn, hn', List.range'_succ, List.flatMap_cons,
    List.append_assoc]

/-- The attempts with one of them in place of another. -/
def set (l : Lineage π) (k : Nat) (t : Attempted π) : Lineage π :=
  { l with attempts := fun j => if j = k then t else l.attempts j }

theorem set_self {k : Nat} {t : Attempted π} : (l.set k t).attempts k = t :=
  if_pos rfl

theorem set_of_ne {k j : Nat} {t : Attempted π} (h : j ≠ k) :
    (l.set k t).attempts j = l.attempts j :=
  if_neg h

theorem logFrom_set {k : Nat} {t : Attempted π} (hk : k < first)
    (hfirst : first ≤ l.last) :
    (l.set k t).logFrom config method first
      = l.logFrom config method first := by
  have hlast : (l.set k t).attempts l.last = l.attempts l.last :=
    set_of_ne (by omega)
  have hmap : (List.range' first (l.last - first)).map (fun j =>
        ((l.set k t).attempts j).log ++ config.waiting method l.jitterMs j)
      = (List.range' first (l.last - first)).map fun j =>
        (l.attempts j).log ++ config.waiting method l.jitterMs j := by
    refine List.map_congr_left fun j hj => ?_
    rw [List.mem_range'_1] at hj
    rw [set_of_ne (by omega)]
  unfold logFrom
  rw [List.flatMap_def, List.flatMap_def,
    show (l.set k t).last = l.last from rfl, hlast]
  exact congrArg (fun lists => List.flatten lists ++ _) hmap

-- ================================================== attempts that fit

/-- True of attempts that a loop may make from some one on. -/
structure Fits (l : Lineage π) (config : RetryConfig)
    (attempt : Nat → Script (Response π)) (first : Nat) : Prop where
  le : first ≤ l.last
  stops : config.StopsAt l.last (l.attempts l.last).code
  goesOn : ∀ k, first ≤ k → k < l.last →
    ¬config.StopsAt k (l.attempts k).code
  yields : ∀ k, first ≤ k → k ≤ l.last →
    (attempt k).Yields (l.attempts k).log (l.attempts k).response

theorem fits_single {t : Attempted π} (jitterMs : UInt64)
    (ht : (attempt first).Yields t.log t.response)
    (hstops : config.StopsAt first t.code) :
    (Lineage.mk (fun _ => t) jitterMs first).Fits config attempt first := by
  refine ⟨Nat.le_refl _, hstops, ?_, ?_⟩
  · intro k hk hlt
    exact (Nat.not_lt.2 hk hlt).elim
  · intro k hk hle
    obtain rfl := Nat.le_antisymm hle hk
    exact ht

theorem Fits.eq_of_stopsAt (h : l.Fits config attempt first)
    (hstops : config.StopsAt first (l.attempts first).code) :
    l.last = first := by
  by_contra hne
  have hlt : first < l.last := Nat.lt_of_le_of_ne h.le (Ne.symm hne)
  exact h.goesOn first (Nat.le_refl _) hlt hstops

theorem Fits.lt_of_not_stopsAt (h : l.Fits config attempt first)
    (hgoesOn : ¬config.StopsAt first (l.attempts first).code) :
    first < l.last := by
  refine Nat.lt_of_le_of_ne h.le fun heq => hgoesOn ?_
  rw [heq]
  exact h.stops

theorem Fits.tail (h : l.Fits config attempt first) (hlt : first < l.last) :
    l.Fits config attempt (first + 1) := by
  refine ⟨hlt, h.stops, ?_, ?_⟩
  · intro k hk
    exact h.goesOn k (Nat.le_of_succ_le hk)
  · intro k hk
    exact h.yields k (Nat.le_of_succ_le hk)

/-- An attempt that others follow, in front of them. -/
theorem Fits.cons {t : Attempted π} (h : l.Fits config attempt (first + 1))
    (ht : (attempt first).Yields t.log t.response)
    (hgoesOn : ¬config.StopsAt first t.code) :
    (l.set first t).Fits config attempt first := by
  have hlast : first < l.last := h.le
  refine ⟨Nat.le_of_lt hlast, ?_, ?_, ?_⟩
  · show config.StopsAt l.last ((l.set first t).attempts l.last).code
    rw [set_of_ne (Nat.ne_of_gt hlast)]
    exact h.stops
  · intro k hk hlt
    by_cases hfirst : k = first
    · subst hfirst
      rw [set_self]
      exact hgoesOn
    · rw [set_of_ne hfirst]
      exact h.goesOn k (by omega) hlt
  · intro k hk hle
    by_cases hfirst : k = first
    · subst hfirst
      rw [set_self]
      exact ht
    · rw [set_of_ne hfirst]
      exact h.yields k (by omega) hle

/-- From the first attempt on, the last one is the least that no other
follows. -/
theorem fits_zero_iff : l.Fits config attempt 0
    ↔ IsLeast {k | config.StopsAt k (l.attempts k).code} l.last
      ∧ ∀ k ≤ l.last,
        (attempt k).Yields (l.attempts k).log (l.attempts k).response := by
  constructor
  · intro h
    refine ⟨⟨h.stops, ?_⟩, fun k => h.yields k (Nat.zero_le _)⟩
    intro k hk
    by_contra hlt
    exact h.goesOn k (Nat.zero_le _) (Nat.lt_of_not_le hlt) hk
  · rintro ⟨hleast, hyields⟩
    refine ⟨Nat.zero_le _, hleast.1, ?_, fun k _ => hyields k⟩
    intro k _ hlt hstops
    exact Nat.not_le_of_lt hlt (hleast.2 hstops)

end Lineage

namespace Script

-- ================================================== one turn

theorem retrying_zero (method : String)
    (attempt : Nat → Script (Response π))
    (jitterMs : Option UInt64) (retries : Nat) :
    retrying config method attempt jitterMs retries 0
      = (attempt retries).bind fun response =>
        if config.isRetryable response.status.code
          then giveUp method response else pure response :=
  rfl

theorem retrying_succ (method : String)
    (attempt : Nat → Script (Response π))
    (jitterMs : Option UInt64) (retries left : Nat) :
    retrying config method attempt jitterMs retries (left + 1)
      = (attempt retries).bind fun response =>
        if config.isRetryable response.status.code ∧
            ¬(response.status.code = .tooOld ∧ 1 ≤ retries) then do
          let ms ← jitterOf jitterMs
          report (.retry method (config.backoff retries ms))
          question (.pause (config.backoff retries ms))
          retrying config method attempt (some ms) (retries + 1) left
        else if config.isRetryable response.status.code
          then giveUp method response else pure response := by
  rw [retrying]
  refine congrArg (Program.bind _) (funext fun response => ?_)
  by_cases hretry : config.isRetryable response.status.code
  · by_cases hold : response.status.code = .tooOld ∧ 1 ≤ retries
    · rw [if_pos hretry, if_pos hold, if_neg fun h => h.2 hold, if_pos hretry]
    · rw [if_pos hretry, if_neg hold, if_pos ⟨hretry, hold⟩]
  · rw [if_neg hretry, if_neg fun h => hretry h.1, if_neg hretry]

/-- Both cases of the loop at once, by whether an attempt is the last
one. -/
theorem retrying_eq (attempt : Nat → Script (Response π))
    (jitterMs : Option UInt64) {retries left : Nat}
    (hleft : retries + left = config.maxRetries.toNat) :
    retrying config method attempt jitterMs retries left
      = (attempt retries).bind fun response =>
        if config.StopsAt retries response.status.code then
          if config.isRetryable response.status.code
            then giveUp method response else pure response
        else (do
          let ms ← jitterOf jitterMs
          report (.retry method (config.backoff retries ms))
          question (.pause (config.backoff retries ms))
          retrying config method attempt (some ms) (retries + 1)
            (left - 1)) := by
  cases left with
  | zero =>
      rw [retrying_zero]
      refine congrArg (Program.bind _) (funext fun response => ?_)
      have hstops : config.StopsAt retries response.status.code :=
        .inr (.inl (Nat.le_of_eq hleft.symm))
      rw [if_pos hstops]
  | succ left =>
      rw [retrying_succ]
      refine congrArg (Program.bind _) (funext fun response => ?_)
      have hstops : config.StopsAt retries response.status.code
          ↔ ¬(config.isRetryable response.status.code
            ∧ ¬(response.status.code = .tooOld ∧ 1 ≤ retries)) := by
        rw [RetryConfig.StopsAt, not_and, not_not]
        cases config.isRetryable response.status.code with
        | false => simp
        | true =>
            have hmax : ¬config.maxRetries.toNat ≤ retries := by omega
            simp [hmax]
      by_cases h : config.StopsAt retries response.status.code
      · rw [if_pos h, if_neg (hstops.1 h)]
      · rw [if_neg h, if_pos (not_not.1 fun hc => h (hstops.2 hc))]
        rfl

/-- The random part of the waits, as far as it is known after some
retries. -/
def drawn (jitterMs : UInt64) (retries : Nat) : Option UInt64 :=
  if retries = 0 then none else some jitterMs

theorem yields_wait {k : UInt64 → Script (Response π)}
    {response : Response π} {log : List Exchange} {jitterMs : UInt64}
    {retries : Nat} :
    Program.Yields (do
        let ms ← jitterOf (drawn jitterMs retries)
        report (.retry method (config.backoff retries ms))
        question (.pause (config.backoff retries ms))
        k ms) log response
      ↔ ∃ ms rest, (retries ≠ 0 → ms = jitterMs)
        ∧ log = config.waiting method ms retries ++ rest
        ∧ (k ms).Yields rest response := by
  by_cases hretries : retries = 0
  · subst hretries
    constructor
    · rintro ⟨ms, _, rfl, _, _, rfl, _, rest, rfl, h⟩
      exact ⟨ms, rest, fun h => (h rfl).elim, rfl, h⟩
    · rintro ⟨ms, rest, -, rfl, h⟩
      exact ⟨ms, _, rfl, (), _, rfl, (), rest, rfl, h⟩
  · simp only [drawn, if_neg hretries, RetryConfig.waiting]
    constructor
    · rintro ⟨_, _, rfl, _, rest, rfl, h⟩
      exact ⟨jitterMs, rest, fun _ => rfl, rfl, h⟩
    · rintro ⟨ms, rest, hms, rfl, h⟩
      obtain rfl := hms hretries
      exact ⟨(), _, rfl, (), rest, rfl, h⟩

theorem yields_ending (henabled : config.enabled)
    {response final : Response π} {log : List Exchange} :
    Program.Yields (if config.isRetryable response.status.code
        then giveUp method response else pure response) log final
      ↔ log = config.ending method response.status.code
        ∧ final = config.last response := by
  rw [RetryConfig.ending, RetryConfig.last, RetryConfig.retries,
    if_pos henabled]
  split
  · constructor
    · rintro ⟨_, _, rfl, rfl, rfl⟩
      exact ⟨rfl, rfl⟩
    · rintro ⟨rfl, rfl⟩
      exact ⟨(), [], rfl, rfl, rfl⟩
  · exact Iff.rfl

variable {attempt : Nat → Script (Response π)}

/-- One turn of the loop: an attempt is the last one, or others follow. -/
theorem yields_turn (henabled : config.enabled) {jitterMs : UInt64}
    {retries left : Nat} (hleft : retries + left = config.maxRetries.toNat)
    {log : List Exchange} {response : Response π} :
    (retrying config method attempt (drawn jitterMs retries) retries
        left).Yields log response
      ↔ ∃ t : Attempted π, (attempt retries).Yields t.log t.response
        ∧ (config.StopsAt retries t.code
            ∧ log = t.log ++ config.ending method t.code
            ∧ response = config.last t.response
          ∨ ¬config.StopsAt retries t.code
            ∧ ∃ ms rest, (retries ≠ 0 → ms = jitterMs)
              ∧ log = t.log ++ (config.waiting method ms retries ++ rest)
              ∧ (retrying config method attempt (drawn ms (retries + 1))
                  (retries + 1) (left - 1)).Yields rest response) := by
  rw [retrying_eq attempt _ hleft, Program.yields_bind]
  constructor
  · rintro ⟨first, r, rest, rfl, hfirst, hrest⟩
    refine ⟨⟨first, r⟩, hfirst, ?_⟩
    split at hrest
    · rename_i hstops
      obtain ⟨rfl, hresponse⟩ := (yields_ending henabled).1 hrest
      exact .inl ⟨hstops, rfl, hresponse⟩
    · rename_i hstops
      obtain ⟨ms, rest, hms, rfl, hgoesOn⟩ := yields_wait.1 hrest
      exact .inr ⟨hstops, ms, rest, hms, rfl, hgoesOn⟩
  · rintro ⟨t, ht, ⟨hstops, rfl, hresponse⟩
      | ⟨hstops, ms, rest, hms, rfl, hrest⟩⟩
    · refine ⟨t.log, t.response, _, rfl, ht, ?_⟩
      rw [show t.response.status.code = t.code from rfl, if_pos hstops]
      exact (yields_ending henabled).2 ⟨rfl, hresponse⟩
    · refine ⟨t.log, t.response, _, rfl, ht, ?_⟩
      rw [show t.response.status.code = t.code from rfl, if_neg hstops]
      exact yields_wait.2 ⟨ms, rest, hms, rfl, hrest⟩

-- ================================================== all turns

/-- What the loop comes to from some attempt on. -/
theorem yields_retrying (henabled : config.enabled) :
    ∀ {left retries : Nat} (jitterMs : UInt64) {log : List Exchange}
      {response : Response π}, retries + left = config.maxRetries.toNat →
      ((retrying config method attempt (drawn jitterMs retries) retries
          left).Yields log response
        ↔ ∃ l : Lineage π, l.Fits config attempt retries
          ∧ (retries ≠ 0 → l.jitterMs = jitterMs)
          ∧ log = l.logFrom config method retries
          ∧ response = config.last (l.attempts l.last).response) := by
  -- what is left gets less only where the loop goes on, so nothing is known
  -- of its predecessor yet
  intro left
  induction left using Nat.strongRecOn with
  | _ left ih =>
      intro retries jitterMs log response hleft
      have hlt : ∀ {code}, ¬config.StopsAt retries code →
          left - 1 < left ∧ retries + 1 + (left - 1)
            = config.maxRetries.toNat := by
        intro code hgoesOn
        have hmax : ¬config.maxRetries.toNat ≤ retries :=
          fun h => hgoesOn (.inr (.inl h))
        omega
      rw [yields_turn henabled hleft]
      constructor
      · rintro ⟨t, ht, ⟨hstops, rfl, rfl⟩
          | ⟨hgoesOn, ms, rest, hms, rfl, hrest⟩⟩
        · let l : Lineage π := ⟨fun _ => t, jitterMs, retries⟩
          exact ⟨l, Lineage.fits_single jitterMs ht hstops, fun _ => rfl,
            l.logFrom_last.symm, rfl⟩
        · obtain ⟨l, hl, hjitter, rfl, rfl⟩ :=
            (ih _ (hlt hgoesOn).1 _ (hlt hgoesOn).2).1 hrest
          obtain rfl := hjitter (Nat.succ_ne_zero _)
          refine ⟨l.set retries t, hl.cons ht hgoesOn, hms, ?_, ?_⟩
          · rw [Lineage.logFrom_of_lt (l := l.set retries t) hl.le,
              Lineage.set_self, Lineage.logFrom_set (Nat.lt_succ_self _) hl.le]
            rfl
          · show _ = config.last ((l.set retries t).attempts l.last).response
            rw [Lineage.set_of_ne (Nat.ne_of_gt hl.le)]
      · rintro ⟨l, hl, hjitter, rfl, rfl⟩
        refine ⟨l.attempts retries, hl.yields _ (Nat.le_refl _) hl.le, ?_⟩
        by_cases hstops : config.StopsAt retries (l.attempts retries).code
        · obtain rfl : l.last = retries := hl.eq_of_stopsAt hstops
          exact .inl ⟨hstops, Lineage.logFrom_last, rfl⟩
        · have hlast : retries < l.last := hl.lt_of_not_stopsAt hstops
          exact .inr ⟨hstops, l.jitterMs, _, hjitter,
            Lineage.logFrom_of_lt hlast,
            (ih _ (hlt hstops).1 _ (hlt hstops).2).2
              ⟨l, hl.tail hlast, fun _ => rfl, rfl, rfl⟩⟩

/-- What all attempts at a request come to where there are retries. -/
theorem yields_withRetries (henabled : config.enabled)
    {log : List Exchange} {response : Response π} :
    (withRetries config method attempt).Yields log response
      ↔ ∃ l : Lineage π, l.Fits config attempt 0
        ∧ log = l.log config method
        ∧ response = config.last (l.attempts l.last).response := by
  rw [withRetries, if_pos henabled]
  refine (yields_retrying henabled 0 (Nat.zero_add _)).trans ?_
  constructor
  · rintro ⟨l, hl, -, hlog, hresponse⟩
    exact ⟨l, hl, hlog, hresponse⟩
  · rintro ⟨l, hl, hlog, hresponse⟩
    exact ⟨l, hl, fun h => (h rfl).elim, hlog, hresponse⟩

/-- With retries or without, the response is made from that of an
attempt. -/
theorem eq_last_of_yields {log : List Exchange} {response : Response π}
    (h : (withRetries config method attempt).Yields log response) :
    ∃ r, response = config.last r := by
  by_cases henabled : config.enabled
  · obtain ⟨l, -, -, hresponse⟩ := (yields_withRetries henabled).1 h
    exact ⟨_, hresponse⟩
  · rw [withRetries, if_neg henabled] at h
    obtain ⟨_, r, _, rfl, -, h⟩ := Program.yields_bind.1 h
    refine ⟨r, ?_⟩
    rw [RetryConfig.last, RetryConfig.retries, if_neg henabled]
    split at h <;> rename_i hcode
    · rw [if_pos hcode]
      exact h.2
    · rw [if_neg hcode]
      exact h.2

end Script

-- ================================================== waits and counts

namespace Lineage

variable (l : Lineage π) (config : RetryConfig) (method : String)

/-- What a reader of conversations makes of the loop: one part for each
wait, and one for the end. -/
theorem filterMap_between {β : Type} {f : Exchange → Option β}
    {waits : Nat → List β} (ends : ServiceCode → List β)
    (hwaits : ∀ k,
      (config.waiting method l.jitterMs k).filterMap f = waits k)
    (hends : ∀ code, (config.ending method code).filterMap f = ends code) :
    (l.between config method).filterMap f
      = (List.range l.last).flatMap waits
        ++ ends (l.attempts l.last).code := by
  rw [between, List.filterMap_append, List.filterMap_flatMap, hends,
    funext hwaits]

theorem pauses_between : Exchange.pauses (l.between config method)
    = (List.range l.last).map fun k => config.backoff k l.jitterMs := by
  rw [List.map_eq_flatMap, ← List.append_nil (List.flatMap _ _)]
  refine l.filterMap_between config method (fun _ => []) ?_ ?_
  · intro k
    unfold RetryConfig.waiting
    split <;> rfl
  · intro code
    unfold RetryConfig.ending
    split <;> rfl

theorem jitters_between : Exchange.jitters (l.between config method)
    = if l.last = 0 then [] else [l.jitterMs] := by
  have hparts : Exchange.jitters (l.between config method)
      = ((List.range l.last).flatMap fun k =>
          if k = 0 then [l.jitterMs] else []) ++ [] := by
    refine l.filterMap_between config method (fun _ => []) ?_ ?_
    · intro k
      unfold RetryConfig.waiting
      split <;> rfl
    · intro code
      unfold RetryConfig.ending
      split <;> rfl
  rw [hparts, List.append_nil]
  cases l.last with
  | zero => rfl
  | succ n =>
      rw [List.range_succ_eq_map, List.flatMap_cons, List.flatMap_map]
      simp

theorem reports_between : Exchange.reports (l.between config method)
    = ((List.range l.last).map fun k =>
        Report.retry method (config.backoff k l.jitterMs))
      ++ if config.isRetryable (l.attempts l.last).code then
        [.exhausted method (l.attempts l.last).code.exhausted] else [] := by
  rw [List.map_eq_flatMap]
  refine l.filterMap_between config method
    (fun code => if config.isRetryable code then
      [Report.exhausted method code.exhausted] else []) ?_ ?_
  · intro k
    unfold RetryConfig.waiting
    split <;> rfl
  · intro code
    unfold RetryConfig.ending
    split <;> rfl

/-- The loop counts a retry for each wait, and an exhaustion where it ends
without an attempt that is final by itself. -/
theorem tally_between :
    (ServiceTally.ofReports
        (Exchange.reports (l.between config method))).retries = l.last
      ∧ (ServiceTally.ofReports
          (Exchange.reports (l.between config method))).exhausted
        = if config.isRetryable (l.attempts l.last).code then 1 else 0 := by
  rw [reports_between]
  constructor
  · show List.countP _ _ = _
    have hall : (List.range l.last).countP (fun _ => true) = l.last :=
      (List.countP_eq_length.2 fun _ _ => rfl).trans List.length_range
    rw [List.countP_append, List.countP_map]
    split <;> exact hall
  · show List.countP _ _ = _
    rw [List.countP_append, List.countP_map]
    split <;> simp [*]

/-- Who reads nothing in the attempts, reads what is between them. -/
theorem filterMap_log {β : Type} {f : Exchange → Option β}
    (hsilent : ∀ k ≤ l.last, (l.attempts k).log.filterMap f = []) :
    (l.log config method).filterMap f
      = (l.between config method).filterMap f := by
  have hwaits : (List.range l.last).flatMap (fun k =>
        ((l.attempts k).log ++ config.waiting method l.jitterMs k).filterMap f)
      = (List.range l.last).flatMap fun k =>
        (config.waiting method l.jitterMs k).filterMap f := by
    rw [List.flatMap_def, List.flatMap_def]
    refine congrArg List.flatten (List.map_congr_left fun k hk => ?_)
    rw [List.filterMap_append,
      hsilent k (Nat.le_of_lt (List.mem_range.1 hk)), List.nil_append]
  rw [log, logFrom, between, ← List.range_eq_range', Nat.sub_zero]
  simp only [List.filterMap_append, List.filterMap_flatMap,
    hsilent l.last (Nat.le_refl _), List.nil_append] at hwaits ⊢
  rw [hwaits]

/-- What is to be said of the attempts at a request, apart from which one is
the last: what becomes of its response, what the loop waits for, and what
it counts. -/
structure Accounts : Prop where
  payload : (config.last (l.attempts l.last).response).payload
    = (l.attempts l.last).response.payload
  msg : (config.last (l.attempts l.last).response).status.msg
    = (l.attempts l.last).response.status.msg
  code : (config.last (l.attempts l.last).response).status.code
    = if config.isRetryable (l.attempts l.last).code then
        (l.attempts l.last).code.exhausted
      else (l.attempts l.last).code
  pauses : Exchange.pauses (l.between config method)
    = (List.range l.last).map fun k => config.backoff k l.jitterMs
  jitters : Exchange.jitters (l.between config method)
    = if l.last = 0 then [] else [l.jitterMs]
  retries : (ServiceTally.ofReports
      (Exchange.reports (l.between config method))).retries = l.last
  exhausted : (ServiceTally.ofReports
      (Exchange.reports (l.between config method))).exhausted
    = if config.isRetryable (l.attempts l.last).code then 1 else 0
  /-- No more than that is waited for and counted, as far as the attempts
  themselves do not. -/
  log : ∀ {β : Type} (f : Exchange → Option β),
    (∀ k ≤ l.last, (l.attempts k).log.filterMap f = []) →
      (l.log config method).filterMap f
        = (l.between config method).filterMap f
  /-- Before each wait there is a retry left, also in machine words. -/
  left : ∀ k < l.last,
    (config.maxRetries - .ofNat k - 1).toNat + 1 + k
      = config.maxRetries.toNat

variable {l config}

theorem accounts (henabled : config.enabled)
    (hleast : IsLeast {k | config.StopsAt k (l.attempts k).code} l.last) :
    l.Accounts config method := by
  obtain ⟨hpayload, hmsg, hcode⟩ :=
    config.last_eq (l.attempts l.last).response
  rw [RetryConfig.retries, if_pos henabled] at hcode
  refine ⟨hpayload, hmsg, hcode, l.pauses_between config method,
    l.jitters_between config method, (l.tally_between config method).1,
    (l.tally_between config method).2,
    fun _ => l.filterMap_log config method, ?_⟩
  intro k hk
  refine config.toNat_left (Nat.lt_of_not_le fun hmax => ?_)
  exact Nat.not_le_of_lt hk (hleast.2 (.inr (.inl hmax)))

end Lineage

-- ================================================== the loop

/-- The loop does what it is there for. Where there are retries, some
attempt is the last one whatever the codes are; the conversations in which
the loop comes to a response are those of the attempts up to the least such
one, with the waits between them; and these are accounted for. With retries
or without, no caller gets a code that the store calls retryable, and a
conflict only where it does not count as transient. -/
theorem retries_as_specified (config : RetryConfig) (method : String)
    (attempt : Nat → Script (Response π)) :
    (config.enabled = true →
      (∀ codes : Nat → ServiceCode, ∃ n ≤ config.maxRetries.toNat,
        IsLeast {k | config.StopsAt k (codes k)} n)
      ∧ (∀ log response,
        (Script.withRetries config method attempt).Yields log response
          ↔ ∃ l : Lineage π,
            (IsLeast {k | config.StopsAt k (l.attempts k).code} l.last
              ∧ ∀ k ≤ l.last,
                (attempt k).Yields (l.attempts k).log (l.attempts k).response)
            ∧ log = l.log config method
            ∧ response = config.last (l.attempts l.last).response)
      ∧ ∀ l : Lineage π,
        IsLeast {k | config.StopsAt k (l.attempts k).code} l.last →
          l.Accounts config method)
    ∧ ∀ log response,
      (Script.withRetries config method attempt).Yields log response →
        response.status.code.isStoreRetryable = false
        ∧ (response.status.code = .conflict →
          config.enabled = false ∨ config.retryConflict = false) := by
  constructor
  · intro henabled
    refine ⟨config.exists_stopsAt, ?_, ?_⟩
    · intro log response
      rw [Script.yields_withRetries henabled]
      exact exists_congr fun l => and_congr_left' Lineage.fits_zero_iff
    · exact fun l => Lineage.accounts method henabled
  · intro log response h
    obtain ⟨r, rfl⟩ := Script.eq_last_of_yields h
    exact ⟨config.isStoreRetryable_last r, config.conflict_of_last⟩

/-- A failed commit, a failed read, and a transaction that is too old: the
second kind of failure has retries left, the third has had its one. -/
theorem retries_as_specified_too_old :
    let config : RetryConfig :=
      { maxRetries := 5, baseIntervalMs := 100 }
    let response (k : Nat) : Response Unit :=
      ⟨⟨if k = 0 then .commitRetryable else if k = 1 then .getRetryable
        else .tooOld, "stale"⟩, ()⟩
    (Script.withRetries config "read" fun k => pure (response k)).Yields
      [⟨.jitter, 7⟩, ⟨.report (.retry "read" 107), ()⟩, ⟨.pause 107, ()⟩,
        ⟨.report (.retry "read" 207), ()⟩, ⟨.pause 207, ()⟩,
        ⟨.report (.exhausted "read" .tooOld), ()⟩]
      ⟨⟨.tooOld, "stale"⟩, ()⟩ := by
  intro config response
  let l : Lineage Unit := ⟨fun k => ⟨[], response k⟩, 7, 2⟩
  have hleast : IsLeast {k | config.StopsAt k (l.attempts k).code} l.last := by
    constructor
    · show config.StopsAt 2 .tooOld
      decide
    · intro k hk
      by_contra hlt
      have hcases : k = 0 ∨ k = 1 := by
        have hk2 : k < 2 := Nat.lt_of_not_le hlt
        omega
      obtain rfl | rfl := hcases
      · revert hk
        show ¬config.StopsAt 0 .commitRetryable
        decide
      · revert hk
        show ¬config.StopsAt 1 .getRetryable
        decide
  have hspec := ((retries_as_specified config "read" fun k =>
    pure (response k)).1 rfl).2.1
  exact (hspec _ _).2 ⟨l, ⟨hleast, fun k _ => ⟨rfl, rfl⟩⟩, rfl, rfl⟩

end MergeOnWrite
