import Marinade.Foundation.Ledger
import Mathlib.Algebra.Order.Field.Basic
import Mathlib.Tactic.Ring

/-!
# What somebody owns of a pool

A pool of some value is owned in shares. Whoever owns some of them and trades with the pool, buying
at the price or above it and selling at the price or below it, is afterwards worth at most what they
were worth before: what they gain by the change of the price is never more than what they overpaid.

The amounts are those of an ordered field, so a share may itself be a part of something: what
somebody owns through a part of an account they share with others counts like what they hold.
-/

open Foundation.Ledger

namespace Foundation

/-! ## Shares of a pool -/

section Shares

variable {K : Type*} [Field K]

/-- What `n` of the `s` shares of the value `v` are worth. -/
def worth (v s n : K) : K :=
  n * (v / s)

@[simp] theorem worth_zero (v s : K) : worth v s 0 = 0 :=
  zero_mul _

theorem worth_add (v s n m : K) : worth v s (n + m) = worth v s n + worth v s m :=
  add_mul _ _ _

theorem worth_mul (v s n m : K) : worth v s (m * n) = m * worth v s n :=
  mul_assoc _ _ _

/-- All the shares are worth the value. -/
theorem worth_self {v s : K} (hs : s ≠ 0) : worth v s s = v :=
  mul_div_cancel₀ v hs

variable [LinearOrder K] [IsStrictOrderedRing K] {v v' s s' n n' m a b : K}

theorem worth_nonneg (hv : 0 ≤ v) (hs : 0 ≤ s) (hn : 0 ≤ n) : 0 ≤ worth v s n :=
  mul_nonneg hn (div_nonneg hv hs)

theorem worth_mono (hv : 0 ≤ v) (hs : 0 ≤ s) (h : n ≤ n') : worth v s n ≤ worth v s n' :=
  mul_le_mul_of_nonneg_right h (div_nonneg hv hs)

theorem worth_mono_value (hs : 0 ≤ s) (hn : 0 ≤ n) (h : v ≤ v') : worth v s n ≤ worth v' s n :=
  mul_le_mul_of_nonneg_left (div_le_div_of_nonneg_right h hs) hn

theorem le_worth_iff (hs : 0 < s) : a ≤ worth v s n ↔ a * s ≤ n * v := by
  rw [worth, mul_div_assoc', le_div_iff₀ hs]

theorem worth_le_iff (hs : 0 < s) : worth v s n ≤ a ↔ n * v ≤ a * s := by
  rw [worth, mul_div_assoc', div_le_iff₀ hs]

/-- If the price does not fall and the others keep their shares, a holder gains at most what the
value gains. -/
theorem worth_le_of_price_le (hs : 0 < s) (hs' : 0 ≤ s') (hn' : 0 ≤ n') (hn : n ≤ s)
    (hothers : s' - n' = s - n) (hprice : v * s' ≤ v' * s) :
    worth v' s' n' ≤ worth v s n + (v' - v) := by
  have hwhole : worth v s n + worth v s (s - n) = v := by
    rw [← worth_add, add_sub_cancel, worth_self hs.ne']
  rcases hs'.eq_or_lt with rfl | hs'
  -- no shares are left, so the holder had all of them
  · have hall : s - n = 0 := by linarith
    rw [hall, worth_zero] at hwhole
    have hnone : n' = 0 := by linarith
    have hv' : 0 ≤ v' := by
      rw [mul_zero] at hprice
      exact nonneg_of_mul_nonneg_left hprice hs
    rw [hnone, worth_zero]
    linarith
  have hwhole' : worth v' s' n' + worth v' s' (s' - n') = v' := by
    rw [← worth_add, add_sub_cancel, worth_self hs'.ne']
  have hprices : v / s ≤ v' / s' := (div_le_div_iff₀ hs hs').mpr hprice
  have hrest : worth v s (s - n) ≤ worth v' s' (s' - n') := by
    rw [hothers]
    exact mul_le_mul_of_nonneg_left hprices (by linarith)
  linarith

/-- Buy `m` new shares for `a`, which is at least their price. -/
theorem worth_issue_le (hs : 0 < s) (hn : 0 ≤ n) (hle : n ≤ s) (hm : 0 ≤ m)
    (h : m * v ≤ a * s) : worth (v + a) (s + m) (n + m) ≤ worth v s n + a := by
  have hprice : v * (s + m) ≤ (v + a) * s := by linarith
  have hgain := worth_le_of_price_le hs (by linarith) (by linarith : 0 ≤ n + m) hle
    (by ring) hprice
  linarith

/-- Give back `m` shares for `a`, which is at most their price. -/
theorem worth_redeem_le (hs : 0 < s) (hle : n ≤ s) (hm : m ≤ n) (h : a * s ≤ m * v) :
    worth (v - a) (s - m) (n - m) + a ≤ worth v s n := by
  have hprice : v * (s - m) ≤ (v - a) * s := by linarith
  have hgain := worth_le_of_price_le hs (by linarith) (by linarith : 0 ≤ n - m) hle
    (by ring) hprice
  linarith

/-- The same if only `b` of the shares are taken out, and somebody else gets the others. -/
theorem worth_retire_le (hv : a ≤ v) (hs : 0 < s) (hle : n ≤ s) (hm : m ≤ n) (hb : b ≤ m)
    (h : a * s ≤ m * v) : worth (v - a) (s - b) (n - m) + a ≤ worth v s n := by
  have hredeem := worth_redeem_le hs hle hm h
  rcases (sub_nonneg.mpr (hm.trans hle)).eq_or_lt with hzero | hpos
  · have hnone : n - m = 0 := by linarith
    rw [hnone, worth_zero] at hredeem ⊢
    exact hredeem
  have hcheaper : (v - a) / (s - b) ≤ (v - a) / (s - m) :=
    div_le_div_of_nonneg_left (sub_nonneg.mpr hv) hpos (by linarith)
  have hrest : worth (v - a) (s - b) (n - m) ≤ worth (v - a) (s - m) (n - m) :=
    mul_le_mul_of_nonneg_left hcheaper (sub_nonneg.mpr hm)
  linarith

end Shares

/-! ## What somebody holds

Accounts of their own, and a part of an account that is shared with others. -/

section Holding

variable {K κ : Type*} [Field K] {own : Finset κ} {part : K} {shared a k : κ} {f g : κ → ℕ} {x : ℕ}

/-- All that is in the accounts `own`, and a part of what is in `shared`. -/
def holding (own : Finset κ) (part : K) (shared : κ) (f : κ → ℕ) : K :=
  ((∑ k ∈ own, f k : ℕ) : K) + part * f shared

theorem holding_add : holding own part shared (fun k ↦ f k + g k)
    = holding own part shared f + holding own part shared g := by
  simp only [holding, Finset.sum_add_distrib, Nat.cast_add]
  ring

theorem holding_congr (h : ∀ k ∈ own, f k = g k) (hshared : f shared = g shared) :
    holding own part shared f = holding own part shared g := by
  rw [holding, holding, Finset.sum_congr rfl h, hshared]

section

variable [DecidableEq κ]

theorem holding_only_of_mem (hshared : shared ∉ own) (ha : a ∈ own) :
    holding own part shared (only a x) = x := by
  have hne : shared ≠ a := by
    rintro rfl
    exact hshared ha
  rw [holding, sum_only_of_mem ha, only_of_ne hne, Nat.cast_zero, mul_zero, add_zero]

theorem holding_only_shared (hshared : shared ∉ own) :
    holding own part shared (only shared x) = part * x := by
  rw [holding, sum_only_of_notMem hshared, only_self, Nat.cast_zero, zero_add]

theorem holding_only_of_notMem (ha : a ∉ own) (hne : shared ≠ a) :
    holding own part shared (only a x) = 0 := by
  rw [holding, sum_only_of_notMem ha, only_of_ne hne, Nat.cast_zero, mul_zero, add_zero]

end

variable [LinearOrder K] [IsStrictOrderedRing K]

theorem holding_nonneg (hpart : 0 ≤ part) : 0 ≤ holding own part shared f :=
  add_nonneg (Nat.cast_nonneg _) (mul_nonneg hpart (Nat.cast_nonneg _))

theorem holding_mono (hpart : 0 ≤ part) (h : ∀ k, f k ≤ g k) :
    holding own part shared f ≤ holding own part shared g :=
  add_le_add (Nat.cast_le.mpr (Finset.sum_le_sum fun k _ ↦ h k))
    (mul_le_mul_of_nonneg_left (Nat.cast_le.mpr (h shared)) hpart)

/-- Somebody holds at most what there is. -/
theorem holding_le_total [DecidableEq κ] (l : Ledger κ) (hpart : part ≤ 1)
    (hshared : shared ∉ own) : holding own part shared l.balance ≤ l.total := by
  have hsum := l.sum_le_total (insert shared own)
  rw [Finset.sum_insert hshared] at hsum
  have hcast : (l.balance shared : K) + ((∑ k ∈ own, l.balance k : ℕ) : K) ≤ l.total := by
    exact_mod_cast hsum
  have hle : part * (l.balance shared : K) ≤ l.balance shared :=
    mul_le_of_le_one_left (Nat.cast_nonneg _) hpart
  rw [holding]
  linarith

/-- Wherever an amount goes, at most all of it goes to somebody. -/
theorem holding_only_le [DecidableEq κ] (hpart : part ≤ 1) (hshared : shared ∉ own) :
    holding own part shared (only a x) ≤ x := by
  have hsum := sum_only_add_le hshared a x
  have hcast : ((∑ k ∈ own, only a x k : ℕ) : K) + (only a x shared : K) ≤ x := by
    exact_mod_cast hsum
  have hle : part * (only a x shared : K) ≤ only a x shared :=
    mul_le_of_le_one_left (Nat.cast_nonneg _) hpart
  rw [holding]
  linarith

end Holding

end Foundation
