import Mathlib.Data.Nat.Basic
import Mathlib.Tactic.Common

/-!
# Epochs

A reader publishes the epoch in force before it uses shared things, and withdraws it afterwards.
The epoch advances when a scan has found every reader without an epoch or at the current one. The
epoch that a reader publishes may be an old one, and the scan may have passed the reader before. As
long as the reader keeps what it has published, one more advance is possible at most.
-/

namespace DiosPool.Foundation

/-- The epoch in force, how many readers the scan has passed, and what readers have published. -/
structure Epochs where
  now : ℕ
  passed : ℕ
  published : ℕ → Option ℕ

namespace Epochs

variable {reader : ℕ}

/-- The highest epoch that can be in force before the reader changes what it has published. -/
def limit (epochs : Epochs) (reader : ℕ) : ℕ :=
  epochs.now + if reader < epochs.passed ∨ epochs.published reader = some epochs.now then 1 else 0

theorem now_le_limit (epochs : Epochs) (reader : ℕ) : epochs.now ≤ epochs.limit reader :=
  Nat.le_add_right _ _

theorem limit_le (epochs : Epochs) (reader : ℕ) : epochs.limit reader ≤ epochs.now + 1 := by
  unfold limit
  split <;> omega

/-- A new scan. -/
theorem limit_rescan (epochs : Epochs) (reader : ℕ) :
    { epochs with passed := 0 }.limit reader ≤ epochs.limit reader := by
  simp only [limit, Nat.not_lt_zero, false_or]
  split <;> split <;> simp_all

/-- The scan passes a reader that permits an advance. -/
theorem limit_pass (epochs : Epochs) (hactive : epochs.published reader ≠ none)
    (hpermits : epochs.published epochs.passed = none ∨
      epochs.published epochs.passed = some epochs.now) :
    { epochs with passed := epochs.passed + 1 }.limit reader ≤ epochs.limit reader := by
  by_cases hreader : reader = epochs.passed
  · have hnow : epochs.published reader = some epochs.now := by
      rw [hreader] at hactive ⊢
      exact hpermits.resolve_left hactive
    simp [limit, hnow]
  · have hpassed : reader < epochs.passed + 1 ↔ reader < epochs.passed := by omega
    simp only [limit, hpassed, le_refl]

/-- The epoch advances after a scan that has passed the reader. -/
theorem limit_tick (epochs : Epochs) (hpassed : reader < epochs.passed)
    (hstale : ∀ published, epochs.published reader = some published → published ≤ epochs.now) :
    { epochs with now := epochs.now + 1, passed := 0 }.limit reader ≤ epochs.limit reader := by
  have hold : epochs.published reader ≠ some (epochs.now + 1) := by
    intro hpublished
    have hle := hstale _ hpublished
    omega
  simp [limit, hpassed, hold]

end Epochs

end DiosPool.Foundation
