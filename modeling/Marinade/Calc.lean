import Marinade.Error
import Mathlib.Tactic.Ring

/-!
# Common calculations

Shares and values are turned into each other by one multiplication and one truncating division.
The product is taken in 128 bits, where it cannot overflow; the quotient may fail to fit 64 bits.
-/

open Foundation

namespace Marinade

/-- `amount * numerator / denominator`, and `amount` itself for a zero denominator. -/
def proportional (amount numerator denominator : ℕ) : Except Error ℕ :=
  if denominator = 0 then .ok amount
  else if amount * numerator / denominator ≤ u64Max then
    .ok (amount * numerator / denominator)
  else .error MarinadeError.calculationFailure

def valueFromShares (shares totalValue totalShares : ℕ) : Except Error ℕ :=
  proportional shares totalValue totalShares

def sharesFromValue (value totalValue totalShares : ℕ) : Except Error ℕ :=
  if totalShares = 0 then .ok value
  else proportional value totalShares totalValue

section

variable {a n d r : ℕ} {e : Error}

theorem proportional_eq_ok :
    proportional a n d = .ok r ↔
      (d = 0 ∧ a = r) ∨ (0 < d ∧ a * n / d ≤ u64Max ∧ a * n / d = r) := by
  unfold proportional
  by_cases hd : d = 0
  · simp [hd]
  · by_cases hr : a * n / d ≤ u64Max
    · simp [hd, hr, Nat.pos_of_ne_zero hd]
    · simp [hd, hr]

@[simp] theorem proportional_eq_error :
    proportional a n d = .error e ↔
      d ≠ 0 ∧ u64Max < a * n / d ∧ e = MarinadeError.calculationFailure := by
  unfold proportional
  split
  · simp [*]
  · split
    · simp [Nat.not_lt.mpr ‹_›]
    · simp [Nat.lt_of_not_le ‹_›, eq_comm, *]

/-- A proportion is rounded down. -/
theorem proportional_mul_le (h : proportional a n d = .ok r) : r * d ≤ a * n := by
  rcases proportional_eq_ok.mp h with ⟨rfl, -⟩ | ⟨-, -, rfl⟩
  · exact Nat.zero_le _
  · exact Nat.div_mul_le_self _ _

/-- A proportion is less than one below the exact quotient. -/
theorem lt_proportional_mul_add (h : proportional a n d = .ok r) (hd : 0 < d) :
    a * n < r * d + d := by
  rcases proportional_eq_ok.mp h with ⟨h0, -⟩ | ⟨-, -, rfl⟩
  · omega
  · calc a * n
      _ < d * (a * n / d + 1) := Nat.lt_mul_div_succ _ hd
      _ = a * n / d * d + d := by ring

/-- Unless nothing was issued yet, the shares for a value cost at most that value. -/
theorem sharesFromValue_mul_le (h : sharesFromValue a n d = .ok r) (hd : 0 < d) :
    r * n ≤ a * d := by
  rw [sharesFromValue, if_neg (Nat.ne_of_gt hd)] at h
  exact proportional_mul_le h

end

end Marinade
