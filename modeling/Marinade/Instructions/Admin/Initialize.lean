import Marinade.State.Books
import Marinade.Chain

/-!
# Initialize

The admin creates the state of a new pool. Nothing is staked or promised yet: the reserve and the
SOL leg hold their rent, and neither token has been minted.
-/

open Foundation

namespace Marinade

/-- The accounts of `initialize`, with the bytes in the two list accounts. -/
structure Initialize where
  operationalSolAccount : Pubkey
  treasuryMsolAccount : Pubkey
  stakeListLen : ℕ
  validatorListLen : ℕ
  deriving DecidableEq, Repr

structure LiqPoolInitializeData where
  lpLiquidityTarget : ℕ
  lpMaxFee : Fee
  lpMinFee : Fee
  lpTreasuryCut : Fee
  deriving DecidableEq, Repr

structure InitializeData where
  adminAuthority : Pubkey
  validatorManagerAuthority : Pubkey
  minStake : ℕ
  rewardsFee : Fee
  liqPool : LiqPoolInitializeData
  additionalStakeRecordSpace : ℕ
  additionalValidatorRecordSpace : ℕ
  slotsForStakeDelta : ℕ
  pauseAuthority : Pubkey
  deriving DecidableEq, Repr

/-- `LiqPoolInitialize::process` -/
def LiqPoolInitialize.process (c : Chain) (data : LiqPoolInitializeData)
    (requiredSolLegLamports : ℕ) : Except Error LiqPool := do
  ensure (c.lp.supply = 0) (.marinade .mintHasInitialSupply)
  ensure (c.lamportsOf .solLeg = requiredSolLegLamports) .constraint
  let liqPool : LiqPool := {
    lpLiquidityTarget := data.lpLiquidityTarget
    lpMaxFee := data.lpMaxFee
    lpMinFee := data.lpMinFee
    treasuryCut := data.lpTreasuryCut
    lpSupply := 0
    liquiditySolCap := u64Max }
  liqPool.validate
  return liqPool

namespace Initialize

def process (rt : Runtime) (accounts : Initialize) (data : InitializeData) (c : Chain) :
    Except Error World := do
  ensure (c.isSystemAccount accounts.operationalSolAccount) .constraint
  ensure (c.msol.holder accounts.treasuryMsolAccount).isSome .constraint
  ensure (data.rewardsFee.basisPoints ≤ State.maxRewardFee.basisPoints)
    (.marinade .rewardsFeeIsTooHigh)
  ensure (StakeSystem.minUpdateWindow ≤ data.slotsForStakeDelta)
    (.marinade .updateWindowIsTooLow)
  ensure (State.minStakeLowerLimit ≤ data.minStake) (.marinade .minStakeIsTooLow)
  ensure (c.lamportsOf .reserve = rt.tokenAccountRent) .constraint
  ensure (c.msol.supply = 0) (.marinade .mintHasInitialSupply)
  let stakeSystem ← StakeSystem.new accounts.stakeListLen data.slotsForStakeDelta data.minStake
    0 data.additionalStakeRecordSpace
  let validatorSystem ← ValidatorSystem.new accounts.validatorListLen
    data.validatorManagerAuthority data.additionalValidatorRecordSpace
  let liqPool ← LiqPoolInitialize.process c data.liqPool rt.tokenAccountRent
  return { toChain := c, state := {
    adminAuthority := data.adminAuthority
    operationalSolAccount := accounts.operationalSolAccount
    treasuryMsolAccount := accounts.treasuryMsolAccount
    rentExemptForTokenAcc := rt.tokenAccountRent
    rewardFee := data.rewardsFee
    stakeSystem, validatorSystem, liqPool
    availableReserveBalance := 0
    msolSupply := 0
    msolPrice := State.priceDenominator
    circulatingTicketCount := 0
    circulatingTicketBalance := 0
    minDeposit := 1
    minWithdraw := 1
    stakingSolCap := u64Max
    emergencyCoolingDown := 0
    pauseAuthority := data.pauseAuthority
    paused := false
    delayedUnstakeFee := ⟨0⟩
    withdrawStakeAccountFee := ⟨0⟩
    depositSolFee := ⟨0⟩
    depositStakeAccountFee := ⟨0⟩
    withdrawStakeAccountEnabled := false
    lastStakeMoveEpoch := 0
    stakeMoved := 0
    maxStakeMovedPerEpoch := ⟨10000⟩
    delinquentUpgrader := .done } }

/-- A new pool: all books are empty, and so are both mints. -/
structure Spec (rt : Runtime) (c : Chain) (w : World) : Prop where
  chain_eq : w.toChain = c
  records_eq : w.state.stakeSystem.records = []
  validators_eq : w.state.validatorSystem.records = []
  books : w.state.stakeSystem.delayedUnstakeCoolingDown = 0 ∧ w.state.emergencyCoolingDown = 0 ∧
    w.state.validatorSystem.totalActiveBalance = 0 ∧ w.state.availableReserveBalance = 0 ∧
    w.state.msolSupply = 0 ∧ w.state.liqPool.lpSupply = 0 ∧
    w.state.circulatingTicketBalance = 0 ∧ w.state.circulatingTicketCount = 0
  score_eq : w.state.validatorSystem.totalValidatorScore = 0
  rent_eq : w.state.rentExemptForTokenAcc = rt.tokenAccountRent
  moved_eq : w.state.stakeMoved = 0
  done : w.state.delinquentUpgrader = .done
  admissible : w.state.Admissible
  reserve_eq : c.lamportsOf .reserve = rt.tokenAccountRent
  sol_leg_eq : c.lamportsOf .solLeg = rt.tokenAccountRent
  supply_eq : c.msol.supply = 0
  lp_supply_eq : c.lp.supply = 0

theorem process_spec {rt : Runtime} {accounts : Initialize} {data : InitializeData} {c : Chain}
    {w : World} (h : accounts.process rt data c = .ok w) : Spec rt c w := by
  simp only [process, LiqPoolInitialize.process, StakeSystem.new, ValidatorSystem.new, bind_eq_ok,
    ensure_eq_ok, pure_eq_ok, exists_const] at h
  obtain ⟨-, -, hreward, -, hmin, hreserve, hsupply, ss, ⟨size, -, list, hlist, rfl⟩, vs,
    ⟨size', -, list', hlist', rfl⟩, pool, ⟨hlp, hleg, u, hvalid, rfl⟩, rfl⟩ := h
  exact {
    chain_eq := rfl
    records_eq := AccountList.new_items hlist
    validators_eq := AccountList.new_items hlist'
    books := ⟨rfl, rfl, rfl, rfl, rfl, rfl, rfl, rfl⟩
    score_eq := rfl
    rent_eq := rfl
    moved_eq := rfl
    done := rfl
    admissible := {
      reward_fee := hreward
      delayed_unstake_fee := Nat.zero_le _
      withdraw_stake_account_fee := Nat.zero_le _
      deposit_sol_fee := Nat.zero_le _
      deposit_stake_account_fee := Nat.zero_le _
      liq_pool := LiqPool.validate_eq_ok.mp hvalid
      min_stake := hmin }
    reserve_eq := hreserve
    sol_leg_eq := hleg
    supply_eq := hsupply
    lp_supply_eq := hlp }

end Initialize

end Marinade
