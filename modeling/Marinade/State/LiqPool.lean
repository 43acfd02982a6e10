import Marinade.Foundation.Slope
import Marinade.State.Fee

/-!
# The liquidity pool

The pool holds SOL and mSOL and swaps mSOL for SOL at a fee that falls linearly while the SOL left
after the swap rises from nothing to the liquidity target.
-/

open Foundation

namespace Marinade

structure LiqPool where
  /-- Liquidity target. If the liquidity reaches this amount, the fee reaches the minimum. -/
  lpLiquidityTarget : ℕ
  lpMaxFee : Fee
  lpMinFee : Fee
  /-- How much of the liquid unstake fee goes to the treasury. -/
  treasuryCut : Fee
  /-- Virtual LP supply. It may be above the real supply because of burning. -/
  lpSupply : ℕ
  liquiditySolCap : ℕ
  deriving DecidableEq, Repr

namespace LiqPool

/-- `MAX_FEE`: 10% -/
def maxFee : Fee := ⟨1000⟩

/-- `MIN_LIQUIDITY_TARGET`: 50 SOL -/
def minLiquidityTarget : ℕ := 50000000000

/-- `MAX_TREASURY_CUT`: 75% -/
def maxTreasuryCut : Fee := ⟨7500⟩

def delta (pool : LiqPool) : ℕ :=
  pool.lpMaxFee.basisPoints - pool.lpMinFee.basisPoints

/-- A linear fee based on the liquidity: from `fee 0 = max` to `fee (x ≥ target) = min`. -/
def linearFee (pool : LiqPool) (lamports : ℕ) : Except Error Fee :=
  if pool.lpLiquidityTarget ≤ lamports then .ok pool.lpMinFee
  else
    match proportional pool.delta lamports pool.lpLiquidityTarget with
    | .error _ => .error (.assertion .linearFeeDiscount)
    | .ok discount => do
      let basisPoints ←
        checkedSub .linearFee pool.lpMaxFee.basisPoints (discount % (u32Max + 1))
      return ⟨basisPoints⟩

def onLpMint (pool : LiqPool) (amount : ℕ) : Except Error LiqPool := do
  let lpSupply ← checkedAdd pool.lpSupply amount
  return { pool with lpSupply }

def onLpBurn (pool : LiqPool) (amount : ℕ) : Except Error LiqPool := do
  let lpSupply ← checkedSub .lpSupply pool.lpSupply amount
  return { pool with lpSupply }

def checkLiquidityCap (pool : LiqPool) (transferingLamports solLegBalance : ℕ) :
    Except Error Unit := do
  let resultAmount ← checkedAdd solLegBalance transferingLamports
  ensure (resultAmount ≤ pool.liquiditySolCap) (.marinade .liquidityIsCapped)

def validate (pool : LiqPool) : Except Error Unit := do
  pool.lpMinFee.check
  pool.lpMaxFee.check
  pool.treasuryCut.check
  -- hard limit, max liquid unstake fee of 10%
  ensure (pool.lpMaxFee.basisPoints ≤ maxFee.basisPoints) (.marinade .lpMaxFeeIsTooHigh)
  ensure (pool.lpMinFee.basisPoints ≤ pool.lpMaxFee.basisPoints)
    (.marinade .lpFeesAreWrongWayRound)
  ensure (minLiquidityTarget ≤ pool.lpLiquidityTarget) (.marinade .liquidityTargetTooLow)
  ensure (pool.treasuryCut.basisPoints ≤ maxTreasuryCut.basisPoints)
    (.marinade .treasuryCutIsTooHigh)

/-- The parameters of a pool that passed validation. -/
structure Valid (pool : LiqPool) : Prop where
  max_le : pool.lpMaxFee.basisPoints ≤ 1000
  min_le_max : pool.lpMinFee.basisPoints ≤ pool.lpMaxFee.basisPoints
  target_pos : 50000000000 ≤ pool.lpLiquidityTarget
  cut_le : pool.treasuryCut.basisPoints ≤ 7500

theorem validate_eq_ok {pool : LiqPool} : pool.validate = .ok () ↔ pool.Valid := by
  simp only [validate, Fee.check, ensure_bind_eq_ok, ensure_eq_ok]
  simp only [Fee.maxBasisPoints, maxFee, minLiquidityTarget, maxTreasuryCut]
  constructor
  · rintro ⟨-, -, -, hmax, hmin, htarget, hcut⟩
    exact ⟨hmax, hmin, htarget, hcut⟩
  · rintro ⟨hmax, hmin, htarget, hcut⟩
    exact ⟨by omega, by omega, by omega, hmax, hmin, htarget, hcut⟩

section

variable {pool : LiqPool} {x y : ℕ}

theorem Valid.lpLiquidityTarget_pos (hv : pool.Valid) : 0 < pool.lpLiquidityTarget :=
  Nat.lt_of_lt_of_le (by decide) hv.target_pos

/-- The fee of a validated pool is its maximum less a part of the difference to its minimum. -/
theorem linearFee_eq (hv : pool.Valid) (x : ℕ) : pool.linearFee x
    = .ok ⟨pool.lpMaxFee.basisPoints - slope pool.delta pool.lpLiquidityTarget x⟩ := by
  have hpos := hv.lpLiquidityTarget_pos
  have hmax := hv.max_le
  have hle := hv.min_le_max
  have hdelta : slope pool.delta pool.lpLiquidityTarget x ≤ pool.delta := slope_le hpos
  have hdelta_le : pool.delta ≤ pool.lpMaxFee.basisPoints := Nat.sub_le _ _
  unfold linearFee
  split
  · rename_i htarget
    rw [slope_of_target_le hpos htarget, delta, Nat.sub_sub_self hle]
  · rename_i htarget
    have hslope : slope pool.delta pool.lpLiquidityTarget x
        = pool.delta * x / pool.lpLiquidityTarget := slope_of_le (Nat.le_of_not_le htarget)
    have hdiscount : proportional pool.delta x pool.lpLiquidityTarget
        = .ok (slope pool.delta pool.lpLiquidityTarget x) := by
      rw [hslope]
      refine proportional_eq_ok.mpr (.inr ⟨hpos, ?_, rfl⟩)
      rw [← hslope]
      exact hdelta.trans (hdelta_le.trans (hmax.trans (by decide)))
    -- the cast to 32 bits cuts nothing off
    have hcast : slope pool.delta pool.lpLiquidityTarget x % (u32Max + 1)
        = slope pool.delta pool.lpLiquidityTarget x := by
      refine Nat.mod_eq_of_lt ?_
      exact Nat.lt_of_le_of_lt (hdelta.trans (hdelta_le.trans hmax)) (by decide)
    simp only [hdiscount, hcast, bind_eq_ok, checkedSub_eq_ok, pure_eq_ok]
    exact ⟨_, ⟨hdelta.trans hdelta_le, rfl⟩, rfl⟩

theorem linearFee_bounds (hv : pool.Valid) (x : ℕ) : ∃ fee, pool.linearFee x = .ok fee ∧
    pool.lpMinFee.basisPoints ≤ fee.basisPoints ∧
    fee.basisPoints ≤ pool.lpMaxFee.basisPoints := by
  have hslope : slope pool.delta pool.lpLiquidityTarget x
      ≤ pool.lpMaxFee.basisPoints - pool.lpMinFee.basisPoints :=
    slope_le hv.lpLiquidityTarget_pos
  have hle := hv.min_le_max
  exact ⟨_, linearFee_eq hv x, by simp only; omega, Nat.sub_le _ _⟩

/-- The fee falls as the liquidity rises. -/
theorem linearFee_antitone {fee fee' : Fee} (hv : pool.Valid) (hle : x ≤ y)
    (hx : pool.linearFee x = .ok fee) (hy : pool.linearFee y = .ok fee') :
    fee'.basisPoints ≤ fee.basisPoints := by
  rw [linearFee_eq hv, Except.ok.injEq] at hx hy
  rw [← hx, ← hy]
  exact Nat.sub_le_sub_left (slope_mono hle) _

end

end LiqPool

end Marinade
