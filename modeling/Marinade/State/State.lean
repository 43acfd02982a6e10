import Marinade.State.LiqPool
import Marinade.State.StakeSystem
import Marinade.State.ValidatorSystem

/-!
# The program state

One account holds the books of the whole pool: how much is staked, cooling down, in reserve and
promised to tickets, and how many mSOL there are. The price of mSOL is the ratio of two of these
virtual amounts; the real ones may be larger on the SOL side and smaller on the mSOL side, because
anybody may send lamports to the program's accounts and burn mSOL of their own.
-/

open Foundation

namespace Marinade

/-- How far the upgrade to status-keeping stake records has come. -/
inductive DelinquentUpgraderState
  | iteratingStakes (visitedCount totalActiveBalance totalDelinquentBalance : ℕ)
  | iteratingValidators (visitedCount delinquentBalanceLeft : ℕ)
  | done
  deriving DecidableEq, Repr

namespace DelinquentUpgraderState

def isIteratingStakes : DelinquentUpgraderState → Bool
  | iteratingStakes .. => true
  | _ => false

def isIteratingValidators : DelinquentUpgraderState → Bool
  | iteratingValidators .. => true
  | _ => false

def isDone : DelinquentUpgraderState → Bool
  | done => true
  | _ => false

theorem eq_done_of_isDone {u : DelinquentUpgraderState} (h : u.isDone = true) : u = done := by
  cases u with
  | done => rfl
  | _ => cases h

end DelinquentUpgraderState

/-- A delayed-unstake ticket. -/
structure TicketAccountData where
  /-- instance of marinade state this ticket belongs to -/
  stateAddress : Pubkey
  /-- main account where to send SOL when claimed -/
  beneficiary : Pubkey
  lamportsAmount : ℕ
  createdEpoch : ℕ
  deriving DecidableEq, Repr

structure State where
  adminAuthority : Pubkey
  /-- Target for withdrawing rent. -/
  operationalSolAccount : Pubkey
  treasuryMsolAccount : Pubkey
  rentExemptForTokenAcc : ℕ
  /-- fee applied on rewards -/
  rewardFee : Fee
  stakeSystem : StakeSystem
  validatorSystem : ValidatorSystem
  liqPool : LiqPool
  /-- Virtual reserve without its rent. The real one may be larger because of transfers into it. -/
  availableReserveBalance : ℕ
  /-- Virtual mSOL supply. The real one may be smaller because of burns. -/
  msolSupply : ℕ
  msolPrice : ℕ
  circulatingTicketCount : ℕ
  /-- total lamports of the tickets that are not claimed yet -/
  circulatingTicketBalance : ℕ
  minDeposit : ℕ
  minWithdraw : ℕ
  stakingSolCap : ℕ
  emergencyCoolingDown : ℕ
  pauseAuthority : Pubkey
  paused : Bool
  delayedUnstakeFee : FeeCents
  withdrawStakeAccountFee : FeeCents
  withdrawStakeAccountEnabled : Bool
  lastStakeMoveEpoch : ℕ
  stakeMoved : ℕ
  maxStakeMovedPerEpoch : Fee
  delinquentUpgrader : DelinquentUpgraderState
  depositSolFee : FeeCents
  depositStakeAccountFee : FeeCents

namespace State

/-- `PRICE_DENOMINATOR` -/
def priceDenominator : ℕ := 4294967296

/-- `MAX_REWARD_FEE`: 10% -/
def maxRewardFee : Fee := ⟨1000⟩

/-- `MAX_WITHDRAW_ATOM`: a tenth of a SOL -/
def maxWithdrawAtom : ℕ := 100000000

/-- `MAX_DELAYED_UNSTAKE_FEE`: 0.2% -/
def maxDelayedUnstakeFee : FeeCents := ⟨2000⟩

/-- `MAX_WITHDRAW_STAKE_ACCOUNT_FEE`: 0.2% -/
def maxWithdrawStakeAccountFee : FeeCents := ⟨2000⟩

/-- `MAX_DEPOSIT_SOL_FEE`: 0.2% -/
def maxDepositSolFee : FeeCents := ⟨2000⟩

/-- `MAX_DEPOSIT_STAKE_ACCOUNT_FEE`: 0.2% -/
def maxDepositStakeAccountFee : FeeCents := ⟨2000⟩

/-- `MIN_STAKE_LOWER_LIMIT`: a hundredth of a SOL -/
def minStakeLowerLimit : ℕ := 10000000

def totalCoolingDown (s : State) : Except Error ℕ :=
  checkedAdd s.stakeSystem.delayedUnstakeCoolingDown s.emergencyCoolingDown

def totalLamportsUnderControl (s : State) : Except Error ℕ := do
  let coolingDown ← s.totalCoolingDown
  let staked ← checkedAdd s.validatorSystem.totalActiveBalance coolingDown
  checkedAdd staked s.availableReserveBalance

def checkStakingCap (s : State) (transferingLamports : ℕ) : Except Error Unit := do
  let total ← s.totalLamportsUnderControl
  let resultAmount ← checkedAdd total transferingLamports
  ensure (resultAmount ≤ s.stakingSolCap) (.marinade .stakingIsCapped)

/-- After a slashing this could be negative, but 0 is used instead. -/
def totalVirtualStakedLamports (s : State) : Except Error ℕ := do
  let total ← s.totalLamportsUnderControl
  return total - s.circulatingTicketBalance

/-- The amount of mSOL corresponding to a lamport amount. -/
def calcMsolFromLamports (s : State) (stakeLamports : ℕ) : Except Error ℕ := do
  let total ← s.totalVirtualStakedLamports
  sharesFromValue stakeLamports total s.msolSupply

/-- The lamport value of an mSOL amount. -/
def msolToSol (s : State) (msolAmount : ℕ) : Except Error ℕ := do
  let total ← s.totalVirtualStakedLamports
  valueFromShares msolAmount total s.msolSupply

/-- How much there is to stake (or, when negative, to unstake). -/
def stakeDelta (s : State) (reserveBalance : ℕ) : ℤ :=
  let raw : ℤ := (reserveBalance - s.rentExemptForTokenAcc : ℕ)
    + s.stakeSystem.delayedUnstakeCoolingDown - s.circulatingTicketBalance
  -- what is cooling down in an emergency is never staked again before it has arrived, but it
  -- counts against what still has to be unstaked
  if 0 ≤ raw then raw else min (raw + s.emergencyCoolingDown) 0

def onTransferToReserve (s : State) (amount : ℕ) : Except Error State := do
  let availableReserveBalance ← checkedAdd s.availableReserveBalance amount
  return { s with availableReserveBalance }

def onTransferFromReserve (s : State) (amount : ℕ) : Except Error State := do
  let availableReserveBalance ←
    checkedSub .availableReserveBalance s.availableReserveBalance amount
  return { s with availableReserveBalance }

def onMsolMint (s : State) (amount : ℕ) : Except Error State := do
  let msolSupply ← checkedAdd s.msolSupply amount
  return { s with msolSupply }

def onMsolBurn (s : State) (amount : ℕ) : Except Error State := do
  let msolSupply ← checkedSub .msolSupply s.msolSupply amount
  return { s with msolSupply }

def onStakeMoved (s : State) (amount : ℕ) (clock : Clock) : Except Error State := do
  let moved := if clock.epoch ≠ s.lastStakeMoveEpoch then 0 else s.stakeMoved
  let stakeMoved ← checkedAdd moved amount
  let total ← s.totalLamportsUnderControl
  ensure (stakeMoved ≤ s.maxStakeMovedPerEpoch.apply total) (.marinade .movingStakeIsCapped)
  return { s with lastStakeMoveEpoch := clock.epoch, stakeMoved }

/-! ## The virtual amounts as numbers

The functions above stop when a sum leaves 64 bits. These are the sums themselves. -/

/-- What `totalLamportsUnderControl` returns when it returns. -/
def controlled (s : State) : ℕ :=
  s.validatorSystem.totalActiveBalance
    + (s.stakeSystem.delayedUnstakeCoolingDown + s.emergencyCoolingDown)
    + s.availableReserveBalance

/-- What `totalVirtualStakedLamports` returns when it returns. -/
def virtualStaked (s : State) : ℕ :=
  s.controlled - s.circulatingTicketBalance

/-- What the state knows to have been moved in an epoch. -/
def movedIn (s : State) (epoch : ℕ) : ℕ :=
  if epoch ≠ s.lastStakeMoveEpoch then 0 else s.stakeMoved

/-- The cap as a number. -/
def moveCap (s : State) (cap : Fee) : ℕ :=
  s.controlled * cap.basisPoints / Fee.maxBasisPoints

/-- What `msolToSol` returns when it returns. -/
def msolValue (s : State) (msolAmount : ℕ) : ℕ :=
  if s.msolSupply = 0 then msolAmount else msolAmount * s.virtualStaked / s.msolSupply

section

variable {s s' : State} {x r : ℕ} {clock : Clock}

theorem totalLamportsUnderControl_eq_ok :
    s.totalLamportsUnderControl = .ok r ↔ s.controlled ≤ u64Max ∧ s.controlled = r := by
  simp only [totalLamportsUnderControl, totalCoolingDown, bind_eq_ok, checkedAdd_eq_ok, controlled]
  constructor
  · rintro ⟨a, ⟨-, rfl⟩, b, ⟨-, rfl⟩, h, rfl⟩
    exact ⟨h, rfl⟩
  · rintro ⟨h, rfl⟩
    exact ⟨_, ⟨by omega, rfl⟩, _, ⟨by omega, rfl⟩, h, rfl⟩

theorem totalVirtualStakedLamports_eq_ok :
    s.totalVirtualStakedLamports = .ok r ↔ s.controlled ≤ u64Max ∧ s.virtualStaked = r := by
  simp only [totalVirtualStakedLamports, bind_eq_ok, totalLamportsUnderControl_eq_ok, pure_eq_ok,
    exists_checked_iff, virtualStaked]

theorem msolToSol_eq_ok :
    s.msolToSol x = .ok r ↔
      s.controlled ≤ u64Max ∧ proportional x s.virtualStaked s.msolSupply = .ok r := by
  simp only [msolToSol, bind_eq_ok, totalVirtualStakedLamports_eq_ok, exists_checked_iff,
    valueFromShares]

theorem msolValue_of_proportional (h : proportional x s.virtualStaked s.msolSupply = .ok r) :
    s.msolValue x = r := by
  unfold msolValue
  rcases proportional_eq_ok.mp h with ⟨hzero, rfl⟩ | ⟨hpos, -, rfl⟩
  · rw [if_pos hzero]
  · rw [if_neg (Nat.ne_of_gt hpos)]

theorem calcMsolFromLamports_eq_ok :
    s.calcMsolFromLamports x = .ok r ↔
      s.controlled ≤ u64Max ∧ sharesFromValue x s.virtualStaked s.msolSupply = .ok r := by
  simp only [calcMsolFromLamports, bind_eq_ok, totalVirtualStakedLamports_eq_ok,
    exists_checked_iff]

theorem onTransferToReserve_eq_ok : s.onTransferToReserve x = .ok s' ↔
    s.availableReserveBalance + x ≤ u64Max ∧
      { s with availableReserveBalance := s.availableReserveBalance + x } = s' := by
  simp only [onTransferToReserve, bind_eq_ok, checkedAdd_eq_ok, pure_eq_ok, exists_checked_iff]

theorem onTransferFromReserve_eq_ok : s.onTransferFromReserve x = .ok s' ↔
    x ≤ s.availableReserveBalance ∧
      { s with availableReserveBalance := s.availableReserveBalance - x } = s' := by
  simp only [onTransferFromReserve, bind_eq_ok, checkedSub_eq_ok, pure_eq_ok, exists_checked_iff]

theorem onMsolMint_eq_ok : s.onMsolMint x = .ok s' ↔
    s.msolSupply + x ≤ u64Max ∧ { s with msolSupply := s.msolSupply + x } = s' := by
  simp only [onMsolMint, bind_eq_ok, checkedAdd_eq_ok, pure_eq_ok, exists_checked_iff]

theorem onMsolBurn_eq_ok : s.onMsolBurn x = .ok s' ↔
    x ≤ s.msolSupply ∧ { s with msolSupply := s.msolSupply - x } = s' := by
  simp only [onMsolBurn, bind_eq_ok, checkedSub_eq_ok, pure_eq_ok, exists_checked_iff]

/-- A move passes when what was moved in the epoch and the move fit under the cap, as it was cut. -/
theorem onStakeMoved_iff : s.onStakeMoved x clock = .ok s' ↔
    s.controlled ≤ u64Max ∧
      s.movedIn clock.epoch + x ≤ s.moveCap s.maxStakeMovedPerEpoch % (u64Max + 1) ∧
      { s with
        lastStakeMoveEpoch := clock.epoch
        stakeMoved := s.movedIn clock.epoch + x } = s' := by
  have hlt : s.moveCap s.maxStakeMovedPerEpoch % (u64Max + 1) < u64Max + 1 :=
    Nat.mod_lt _ (by omega)
  simp only [onStakeMoved, bind_eq_ok, checkedAdd_eq_ok, totalLamportsUnderControl_eq_ok,
    ensure_eq_ok, exists_const, pure_eq_ok]
  constructor
  · rintro ⟨_, ⟨-, rfl⟩, _, ⟨hle, rfl⟩, hcap, rfl⟩
    exact ⟨hle, hcap, rfl⟩
  · rintro ⟨hle, hcap, rfl⟩
    refine ⟨_, ⟨?_, rfl⟩, _, ⟨hle, rfl⟩, hcap, rfl⟩
    change s.movedIn clock.epoch + x ≤ u64Max
    omega

end

end State

end Marinade
