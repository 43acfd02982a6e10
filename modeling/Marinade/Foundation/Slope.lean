import Mathlib.Order.MinMax
import Mathlib.Tactic.Common

/-!
# A linear slope

A quantity changes linearly while something rises from nothing to a target, and stays as it is from
there on. Computed with one truncating division, the change is none at nothing, whole at the target,
and grows in between.
-/

namespace Foundation

/-- How much of the `rise` there is at `x`. -/
def slope (rise target x : ℕ) : ℕ :=
  rise * min x target / target

section

variable {rise target x y : ℕ}

@[simp] theorem slope_zero : slope rise target 0 = 0 := by
  simp [slope]

theorem slope_of_le (h : x ≤ target) : slope rise target x = rise * x / target := by
  rw [slope, Nat.min_eq_left h]

theorem slope_of_target_le (hpos : 0 < target) (h : target ≤ x) : slope rise target x = rise := by
  rw [slope, Nat.min_eq_right h, Nat.mul_div_cancel _ hpos]

theorem slope_mono (h : x ≤ y) : slope rise target x ≤ slope rise target y := by
  have hmin : min x target ≤ min y target := min_le_min_right _ h
  exact Nat.div_le_div_right (Nat.mul_le_mul_left _ hmin)

theorem slope_le (hpos : 0 < target) : slope rise target x ≤ rise :=
  calc slope rise target x
    _ ≤ slope rise target (max x target) := slope_mono (le_max_left _ _)
    _ = rise := slope_of_target_le hpos (le_max_right _ _)

end

end Foundation
