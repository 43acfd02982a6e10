import Marinade.State.State

/-!
# The books and the configuration

The fields of the state are of two kinds. The books say what the program holds and owes; every
claim about amounts is about them. The configuration says what it charges and allows; all that has
to be known of it is that it is within the hard limits.
-/

namespace Marinade

/-- What the admin decides. -/
structure Configuration where
  adminAuthority : Pubkey
  managerAuthority : Pubkey
  pauseAuthority : Pubkey
  operationalSolAccount : Pubkey
  treasuryMsolAccount : Pubkey
  rewardFee : Fee
  slotsForStakeDelta : ℕ
  minStake : ℕ
  minDeposit : ℕ
  minWithdraw : ℕ
  stakingSolCap : ℕ
  lpLiquidityTarget : ℕ
  lpMaxFee : Fee
  lpMinFee : Fee
  treasuryCut : Fee
  liquiditySolCap : ℕ
  withdrawStakeAccountEnabled : Bool
  delayedUnstakeFee : FeeCents
  withdrawStakeAccountFee : FeeCents
  depositSolFee : FeeCents
  depositStakeAccountFee : FeeCents
  maxStakeMovedPerEpoch : Fee
  deriving DecidableEq, Repr

namespace State

def configuration (s : State) : Configuration where
  adminAuthority := s.adminAuthority
  managerAuthority := s.validatorSystem.managerAuthority
  pauseAuthority := s.pauseAuthority
  operationalSolAccount := s.operationalSolAccount
  treasuryMsolAccount := s.treasuryMsolAccount
  rewardFee := s.rewardFee
  slotsForStakeDelta := s.stakeSystem.slotsForStakeDelta
  minStake := s.stakeSystem.minStake
  minDeposit := s.minDeposit
  minWithdraw := s.minWithdraw
  stakingSolCap := s.stakingSolCap
  lpLiquidityTarget := s.liqPool.lpLiquidityTarget
  lpMaxFee := s.liqPool.lpMaxFee
  lpMinFee := s.liqPool.lpMinFee
  treasuryCut := s.liqPool.treasuryCut
  liquiditySolCap := s.liqPool.liquiditySolCap
  withdrawStakeAccountEnabled := s.withdrawStakeAccountEnabled
  delayedUnstakeFee := s.delayedUnstakeFee
  withdrawStakeAccountFee := s.withdrawStakeAccountFee
  depositSolFee := s.depositSolFee
  depositStakeAccountFee := s.depositStakeAccountFee
  maxStakeMovedPerEpoch := s.maxStakeMovedPerEpoch

/-- The two states have the same books about stake. -/
structure SameStakeBooks (s s' : State) : Prop where
  records_eq : s'.stakeSystem.records = s.stakeSystem.records
  delayed_eq : s'.stakeSystem.delayedUnstakeCoolingDown = s.stakeSystem.delayedUnstakeCoolingDown
  emergency_eq : s'.emergencyCoolingDown = s.emergencyCoolingDown
  validators_eq : s'.validatorSystem.records = s.validatorSystem.records
  total_eq : s'.validatorSystem.totalActiveBalance = s.validatorSystem.totalActiveBalance
  upgrader_eq : s'.delinquentUpgrader = s.delinquentUpgrader

/-- The two states have the same books. -/
structure SameBooks (s s' : State) : Prop extends SameStakeBooks s s' where
  available_eq : s'.availableReserveBalance = s.availableReserveBalance
  supply_eq : s'.msolSupply = s.msolSupply
  lp_supply_eq : s'.liqPool.lpSupply = s.liqPool.lpSupply
  tickets_eq : s'.circulatingTicketBalance = s.circulatingTicketBalance
  ticket_count_eq : s'.circulatingTicketCount = s.circulatingTicketCount
  rent_eq : s'.rentExemptForTokenAcc = s.rentExemptForTokenAcc
  score_eq : s'.validatorSystem.totalValidatorScore = s.validatorSystem.totalValidatorScore
  delta_epoch_eq : s'.stakeSystem.lastStakeDeltaEpoch = s.stakeSystem.lastStakeDeltaEpoch

theorem SameStakeBooks.refl {s : State} : SameStakeBooks s s :=
  ⟨rfl, rfl, rfl, rfl, rfl, rfl⟩

namespace SameBooks

variable {s s' : State}

theorem refl : SameBooks s s :=
  ⟨.refl, rfl, rfl, rfl, rfl, rfl, rfl, rfl, rfl⟩

theorem controlled_eq (h : SameBooks s s') : s'.controlled = s.controlled := by
  rw [controlled, controlled, h.total_eq, h.delayed_eq, h.emergency_eq, h.available_eq]

end SameBooks

/-- The two states count the same moved stake. -/
def SameMoves (s s' : State) : Prop :=
  s'.lastStakeMoveEpoch = s.lastStakeMoveEpoch ∧ s'.stakeMoved = s.stakeMoved

theorem SameMoves.refl {s : State} : s.SameMoves s :=
  ⟨rfl, rfl⟩

/-- The configuration is within the limits the program enforces. -/
structure Admissible (s : State) : Prop where
  reward_fee : s.rewardFee.basisPoints ≤ maxRewardFee.basisPoints
  delayed_unstake_fee : s.delayedUnstakeFee.bpCents ≤ maxDelayedUnstakeFee.bpCents
  withdraw_stake_account_fee :
    s.withdrawStakeAccountFee.bpCents ≤ maxWithdrawStakeAccountFee.bpCents
  deposit_sol_fee : s.depositSolFee.bpCents ≤ maxDepositSolFee.bpCents
  deposit_stake_account_fee :
    s.depositStakeAccountFee.bpCents ≤ maxDepositStakeAccountFee.bpCents
  liq_pool : s.liqPool.Valid
  min_stake : minStakeLowerLimit ≤ s.stakeSystem.minStake

/-- An instruction that leaves all decisions as they are, except that it may use up one of the extra
runs the manager has granted. -/
structure Undecided (s s' : State) : Prop where
  configuration_eq : s'.configuration = s.configuration
  paused_eq : s'.paused = s.paused
  runs_le : s'.stakeSystem.extraStakeDeltaRuns ≤ s.stakeSystem.extraStakeDeltaRuns

/-- What setting a configuration does, where `extraRuns` are granted and the program is paused or
resumed if it says so. -/
structure Reconfigured (extraRuns : Option ℕ) (pause : Option Bool) (s s' : State) : Prop
    extends SameBooks s s' where
  price_eq : s'.msolPrice = s.msolPrice
  moves : s.SameMoves s'
  runs_eq : s'.stakeSystem.extraStakeDeltaRuns
    = extraRuns.getD s.stakeSystem.extraStakeDeltaRuns
  paused_eq : s'.paused = pause.getD s.paused
  admissible : s.Admissible → s'.Admissible
  min_withdraw : s.minWithdraw ≤ maxWithdrawAtom → s'.minWithdraw ≤ maxWithdrawAtom

theorem Reconfigured.refl {s : State} : s.Reconfigured none none s where
  toSameBooks := .refl
  price_eq := rfl
  moves := .refl
  runs_eq := rfl
  paused_eq := rfl
  admissible h := h
  min_withdraw h := h

end State

end Marinade
