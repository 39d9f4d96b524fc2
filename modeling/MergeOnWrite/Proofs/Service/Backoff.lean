/-
How long a wait before a retry is.

A wait is computed in machine words, in three steps of which each stops at the
greatest number: the units double with each retry until they no longer fit,
they are multiplied by the base interval, and the random part is added. A
number that a step has stopped at stays where it is in the steps after it,
unless the base interval is zero; then the units do not matter at all. So the
three steps come to the exact number, stopped once at the end, and the words
never wrap around.

# Main statements

- `RetryConfig.toNat_backoff`: the wait as a whole number.
- `RetryConfig.backoff_exact`: this, and that later waits are no shorter.
- `Call.ascending_pauses`: this of the waits that a caller sees.
-/
import Mathlib.Algebra.Group.Nat.Defs
import MergeOnWrite.Proofs.Service.Phases
import MergeOnWrite.Proofs.Service.Retry
import MergeOnWrite.Service.Front

namespace MergeOnWrite

namespace RetryConfig

-- ================================================== stopping at the greatest

/-- A factor that was stopped at the bound is made up for by the other one,
unless that is zero. -/
theorem min_mul_min (bound m n : Nat) :
    min bound (min bound m * n) = min bound (m * n) := by
  rcases Nat.eq_zero_or_pos n with rfl | hn
  · rw [Nat.mul_zero, Nat.mul_zero]
  rcases Nat.le_total m bound with hm | hm
  · rw [Nat.min_eq_right hm]
  · have hbound : bound ≤ bound * n := Nat.le_mul_of_pos_right _ hn
    have hproduct : bound * n ≤ m * n := Nat.mul_le_mul_right n hm
    rw [Nat.min_eq_left hm, Nat.min_eq_left hbound,
      Nat.min_eq_left (Nat.le_trans hbound hproduct)]

theorem min_add_min (bound m n : Nat) :
    min bound (min bound m + n) = min bound (m + n) := by
  omega

theorem toNat_ofNat_min (n : Nat) :
    (UInt64.ofNat (min n (UInt64.size - 1))).toNat = min (2 ^ 64 - 1) n := by
  have hlt : min n (UInt64.size - 1) < UInt64.size :=
    Nat.lt_of_le_of_lt (Nat.min_le_right _ _) (by decide)
  rw [UInt64.toNat_ofNat_of_lt' hlt]
  exact Nat.min_comm _ _

theorem toNat_satMul (a b : UInt64) :
    (satMul a b).toNat = min (2 ^ 64 - 1) (a.toNat * b.toNat) :=
  toNat_ofNat_min _

theorem toNat_satAdd (a b : UInt64) :
    (satAdd a b).toNat = min (2 ^ 64 - 1) (a.toNat + b.toNat) :=
  toNat_ofNat_min _

/-- The units are a power of two as long as this is a machine word. -/
theorem toNat_waitUnits (retry : Nat) :
    (waitUnits retry).toNat = min (2 ^ 64 - 1) (2 ^ retry) := by
  unfold waitUnits
  split
  · rename_i hretry
    have hlt : 2 ^ retry < UInt64.size :=
      Nat.pow_lt_pow_right (by decide) hretry
    have hle : 2 ^ retry ≤ 2 ^ 64 - 1 := Nat.le_pred_of_lt hlt
    rw [Nat.min_eq_right hle]
    exact UInt64.toNat_ofNat_of_lt' hlt
  · rename_i hretry
    have hle : 2 ^ 64 ≤ 2 ^ retry :=
      Nat.pow_le_pow_right (by decide) (Nat.not_lt.1 hretry)
    rw [Nat.min_eq_left (Nat.le_trans (Nat.sub_le _ _) hle)]
    rfl

-- ================================================== waits

variable (config : RetryConfig) {retry later : Nat} {jitterMs : UInt64}

/-- The wait before a retry is the base interval, doubled with each retry,
and the random part; the greatest number if that is greater. -/
theorem toNat_backoff (retry : Nat) (jitterMs : UInt64) :
    (config.backoff retry jitterMs).toNat
      = min (2 ^ 64 - 1)
        (2 ^ retry * config.baseIntervalMs.toNat + jitterMs.toNat) := by
  rw [backoff, toNat_satAdd, toNat_satMul, toNat_waitUnits, min_mul_min,
    min_add_min]

theorem backoff_le (h : retry ≤ later) :
    config.backoff retry jitterMs ≤ config.backoff later jitterMs := by
  have hunits : 2 ^ retry ≤ 2 ^ later := Nat.pow_le_pow_right (by decide) h
  have hproduct := Nat.mul_le_mul_right config.baseIntervalMs.toNat hunits
  rw [UInt64.le_iff_toNat_le, toNat_backoff, toNat_backoff]
  omega

/-- A wait is an exact number unless that is greater than all machine words,
and then it is the greatest of these, whichever of its steps went beyond them.
So of the waits with one random part none is shorter than an earlier one. -/
theorem backoff_exact (config : RetryConfig) (jitterMs : UInt64) :
    (∀ retry, (config.backoff retry jitterMs).toNat
        = min (2 ^ 64 - 1)
          (2 ^ retry * config.baseIntervalMs.toNat + jitterMs.toNat))
      ∧ ∀ retry later, retry ≤ later →
        config.backoff retry jitterMs ≤ config.backoff later jitterMs :=
  ⟨fun retry => config.toNat_backoff retry jitterMs,
    fun _ _ => config.backoff_le⟩

/-- With more retries than a machine word has bits, a base interval of zero
leaves the random part, and any other the greatest number. -/
theorem backoff_exact_beyond_word :
    RetryConfig.backoff { baseIntervalMs := 0 } 80 7 = 7
      ∧ RetryConfig.backoff { baseIntervalMs := 1 } 64 0 = 0xFFFFFFFFFFFFFFFF
      ∧ RetryConfig.backoff { baseIntervalMs := 1 } 63 0 = 0x8000000000000000
      ∧ 63 ≤ 64 ∧ RetryConfig.backoff { baseIntervalMs := 1 } 63 0
        ≤ RetryConfig.backoff { baseIntervalMs := 1 } 64 0 := by
  have hzero := (backoff_exact { baseIntervalMs := 0 } 7).1 80
  obtain ⟨hone, hascending⟩ := backoff_exact { baseIntervalMs := 1 } 0
  exact ⟨UInt64.toNat_inj.1 hzero, UInt64.toNat_inj.1 (hone 64),
    UInt64.toNat_inj.1 (hone 63), by decide, hascending 63 64 (by decide)⟩

end RetryConfig

-- ================================================== requests

namespace Question

/-- True of the question that takes its time. -/
def IsPause : Question → Prop
  | .pause _ => True
  | _ => False

end Question

namespace Script

variable {α β : Type} {s : Script α} {log : List Exchange}

/-- True of programs that do not wait. -/
def NeverWaits (s : Script α) : Prop := s.Asks fun q => ¬ q.IsPause

theorem neverWaits_question {q : Question} (h : ¬ q.IsPause) :
    (question q).NeverWaits :=
  ⟨h, fun _ => trivial⟩

theorem NeverWaits.bind {f : α → Script β} (hs : s.NeverWaits)
    (hf : ∀ a, (f a).NeverWaits) : (s >>= f).NeverWaits :=
  Program.Asks.bind hs hf

theorem NeverWaits.pauses {a : α} (h : s.NeverWaits)
    (hlog : s.Yields log a) : Exchange.pauses log = [] := by
  induction s generalizing log with
  | done b =>
      obtain ⟨rfl, -⟩ := hlog
      rfl
  | ask q next ih =>
      obtain ⟨x, rest, rfl, hrest⟩ := hlog
      have hnext := ih x (h.2 x) hrest
      cases q with
      | pause ms => exact absurd trivial h.1
      | _ => exact hnext

/-- A single attempt has no place for a wait. -/
theorem neverWaits_of_follows {mayWrite : Bool} {ends : TxnPhase → α → Prop}
    {fails : StoreCode → α → Prop} :
    ∀ {a : TxnPhase}, Follows mayWrite ends fails a s → s.NeverWaits := by
  induction s with
  | done r => intro _ _; trivial
  | ask q next ih =>
      rintro a ⟨b, hb, hnext⟩
      refine ⟨fun hq => ?_, fun x => ?_⟩
      · cases q with
        | pause ms => cases a <;> cases hb
        | _ => exact hq
      · have hx := hnext x
        split at hx
        · obtain ⟨y, hx, -⟩ := hx
          rw [hx]
          trivial
        · exact ih x hx

end Script

variable {π : Type} {config : RetryConfig} {method : String}

theorem Lineage.ascending_pauses_between (l : Lineage π)
    (config : RetryConfig) (method : String) :
    (Exchange.pauses (l.between config method)).Pairwise (· ≤ ·) := by
  rw [l.pauses_between, List.pairwise_map]
  exact List.pairwise_lt_range.imp fun h => config.backoff_le (Nat.le_of_lt h)

/-- The loop waits no shorter than before, whatever becomes of the attempts,
as long as these do not wait themselves. -/
theorem Script.ascending_pauses {attempt : Nat → Script (Response π)}
    (hattempt : ∀ k, (attempt k).NeverWaits) {log : List Exchange}
    {response : Response π}
    (h : (withRetries config method attempt).Yields log response) :
    (Exchange.pauses log).Pairwise (· ≤ ·) := by
  by_cases henabled : config.enabled
  · obtain ⟨l, hl, rfl, -⟩ := (yields_withRetries henabled).1 h
    have hsilent : ∀ k ≤ l.last, Exchange.pauses (l.attempts k).log = [] :=
      fun k hk => (hattempt k).pauses (hl.yields k (Nat.zero_le _) hk)
    rw [Exchange.pauses, l.filterMap_log config method hsilent]
    exact l.ascending_pauses_between config method
  · rw [withRetries, if_neg henabled] at h
    have hall : Script.NeverWaits (do
        let response ← attempt 0
        if response.status.code.isStoreRetryable then
          return response.exhausted
        else return response) := by
      refine (hattempt 0).bind fun response => ?_
      split <;> trivial
    rw [hall.pauses h]
    exact .nil

namespace Call

/-- Whether a request is replayed, and when, is settled without a wait. -/
theorem neverWaits_offerReplay (config : ReplayConfig) (call : Call)
    (status : Status) : (call.offerReplay config status).NeverWaits := by
  unfold offerReplay
  split
  · refine (Script.neverWaits_question id).bind fun drawn => ?_
    split
    · refine (Script.neverWaits_question id).bind fun offset => ?_
      split
      · trivial
      · exact (Script.neverWaits_question id).bind fun _ =>
          Script.neverWaits_question id
    · trivial
  · trivial

/-- Of the waits that a caller sees until a request is answered, none is
shorter than an earlier one. -/
theorem ascending_pauses (config : ServiceConfig) (call : Call)
    {log : List Exchange} {response : Response call.Payload}
    (h : (call.serve config).Yields log response) :
    (Exchange.pauses log).Pairwise (· ≤ ·) := by
  obtain ⟨first, r, rest, rfl, hfirst, hrest⟩ := Program.yields_bind.1 h
  have hoffer : Script.NeverWaits (do
      call.offerReplay config.replay r.status
      return r) :=
    (call.neverWaits_offerReplay config.replay r.status).bind fun _ => trivial
  have hattempt : (call.attempt config.lock).NeverWaits :=
    Script.neverWaits_of_follows (call.follows_attempt config.lock)
  rw [Exchange.pauses, List.filterMap_append,
    show rest.filterMap _ = [] from hoffer.pauses hrest, List.append_nil]
  exact Script.ascending_pauses (fun _ => hattempt) hfirst

end Call

end MergeOnWrite
