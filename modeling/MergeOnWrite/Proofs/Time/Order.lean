/-
The order of instants.
-/
import MergeOnWrite.Time.Instant

namespace MergeOnWrite.Instant

variable {a b c : Instant}

theorem lt_def : a < b ↔ a.second < b.second
    ∨ a.second = b.second ∧ a.nano < b.nano := Iff.rfl

theorem not_lt : ¬ a < b ↔ b ≤ a := Iff.rfl

theorem le_def : a ≤ b ↔ a.second < b.second
    ∨ a.second = b.second ∧ a.nano ≤ b.nano := by
  rw [← not_lt, lt_def]
  omega

protected theorem le_refl (a : Instant) : a ≤ a :=
  le_def.2 (.inr ⟨rfl, Nat.le_refl _⟩)

protected theorem le_trans (hab : a ≤ b) (hbc : b ≤ c) : a ≤ c := by
  rw [le_def] at *
  omega

protected theorem lt_of_le_of_lt (hab : a ≤ b) (hbc : b < c) : a < c := by
  rw [le_def] at hab
  rw [lt_def] at *
  omega

protected theorem lt_of_lt_of_le (hab : a < b) (hbc : b ≤ c) : a < c := by
  rw [le_def] at hbc
  rw [lt_def] at *
  omega

/-- The later of two instants is no earlier than either. -/
theorem le_latest_left (a b : Instant) : a ≤ a.latest b := by
  unfold latest
  split
  · exact Instant.le_refl a
  · rename_i h
    exact not_lt.1 h

theorem le_latest_right (a b : Instant) : b ≤ a.latest b := by
  unfold latest
  split
  · rename_i h
    rw [lt_def] at h
    rw [le_def]
    omega
  · exact Instant.le_refl b

theorem latest_of_le (h : b ≤ a) : a.latest b = a := by
  unfold latest
  split
  · rfl
  · rename_i hlt
    obtain ⟨second, nano⟩ := a
    obtain ⟨second', nano'⟩ := b
    rw [le_def] at h
    rw [lt_def] at hlt
    dsimp only at h hlt
    rw [show second' = second by omega, show nano' = nano by omega]

end MergeOnWrite.Instant
