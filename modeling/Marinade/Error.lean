import Marinade.Foundation.Fallible

/-!
# Errors and checked arithmetic

An instruction that stops for any reason leaves no trace, so the only thing an error carries is why
it stopped. The program is built with `overflow-checks = true`: a sum above the range of its type
and a difference below zero panic, and a panic rolls back like an error does.

Unsigned integers of every width are natural numbers here. Sums, products and casts stop or truncate
where the source's types make them; a value that only comes in (an argument, a configuration field)
ranges over all of `ℕ`.

A difference says which quantity it would take below zero. That name is not in the source; it is
what lets a theorem say that a particular subtraction never fails.
-/

open Foundation

namespace Marinade

/-- `u64::MAX` -/
def u64Max : ℕ := 18446744073709551615

/-- `u32::MAX` -/
def u32Max : ℕ := 4294967295

/-- The errors of the program that a modelled check raises. -/
inductive MarinadeError
  | mintHasInitialSupply
  | calculationFailure
  | stakeAccountWithLockup
  | minStakeIsTooLow
  | lpMaxFeeIsTooHigh
  | basisPointsOverflow
  | lpFeesAreWrongWayRound
  | liquidityTargetTooLow
  | ticketNotDue
  | ticketNotReady
  | wrongBeneficiary
  | stakeAccountNotUpdatedYet
  | stakeNotDelegated
  | stakeAccountIsEmergencyUnstaking
  | insufficientLiquidity
  | invalidAdminAuthority
  | invalidValidatorManager
  | treasuryCutIsTooHigh
  | rewardsFeeIsTooHigh
  | stakingIsCapped
  | liquidityIsCapped
  | updateWindowIsTooLow
  | minWithdrawIsTooHigh
  | withdrawAmountIsTooLow
  | depositAmountIsTooLow
  | notEnoughUserFunds
  | wrongTokenOwnerOrDelegate
  | tooEarlyForStakeDelta
  | requiredDelegatedStake
  | requiredActiveStake
  | requiredDeactivatingStake
  | depositingNotActivatedStake
  | tooLowDelegationInDepositingStake
  | wrongStakeBalance
  | wrongValidatorAccountOrIndex
  | wrongStakeAccountOrIndex
  | unstakingOnPositiveDelta
  | movingStakeIsCapped
  | destinationStakeMustBeDelegated
  | destinationStakeMustNotBeDeactivating
  | destinationStakeMustBeUpdated
  | invalidDestinationStakeDelegation
  | sourceStakeMustBeDelegated
  | sourceStakeMustNotBeDeactivating
  | sourceStakeMustBeUpdated
  | invalidSourceStakeDelegation
  | invalidDelayedUnstakeTicket
  | reusingDelayedUnstakeTicket
  | emergencyUnstakingFromNonZeroScoredValidator
  | wrongValidatorDuplicationFlag
  | redepositingMarinadeStake
  | removingValidatorWithBalance
  | unregisteredMsolMinted
  | unregisteredLPMinted
  | listIndexOutOfBounds
  | listOverflow
  | alreadyPaused
  | notPaused
  | programIsPaused
  | invalidPauseAuthority
  | selectedStakeAccountHasNotEnoughFunds
  | basisPointCentsOverflow
  | withdrawStakeAccountIsNotEnabled
  | withdrawStakeAccountFeeIsTooHigh
  | delayedUnstakeFeeIsTooHigh
  | withdrawStakeLamportsIsTooLow
  | stakeAccountRemainderTooLow
  | shrinkingListWithDeletingContents
  | upgradingInvariantViolation
  | delinquentUpgraderIsNotDone
  | canonicalStakeAccountAlreadyCreated
  | invalidCanonicalStakeAccountAddress
  | depositStakeAccountFeeIsTooHigh
  | depositSolFeeIsTooHigh
  deriving DecidableEq, Repr

/-- What a checked subtraction takes from. -/
inductive Counter
  | totalActiveBalance
  | validatorActiveBalance
  | delayedUnstakeCoolingDown
  | emergencyCoolingDown
  | availableReserveBalance
  | msolSupply
  | lpSupply
  | circulatingTicketBalance
  | circulatingTicketCount
  | reserveAboveRent
  | solLegAboveRent
  | totalValidatorScore
  | upgraderActiveBalance
  | upgraderValidatorActiveBalance
  | upgraderDelinquentBalanceLeft
  | linearFee
  | amount
  deriving DecidableEq, Repr

/-- The assertions and `expect`s of the source. -/
inductive Assertion
  /-- `assert_eq!` on the reserve at the end of `update_active` -/
  | reserveAligned
  /-- `expect` on `total_active_balance + stake_delta` -/
  | totalStakeTarget
  /-- `expect` on the stake delta being an amount -/
  | stakeDeltaAmount
  /-- `unwrap` on the discount in `linear_fee` -/
  | linearFeeDiscount
  /-- an `assert!` on the parts of a split -/
  | splitAmount
  /-- `assert!` on the amount to unstake -/
  | desiredUnstakeAmount
  /-- the bounds of a slice of account data -/
  | sliceRange
  deriving DecidableEq, Repr

/-- Why an instruction stopped. -/
inductive Error
  | marinade (e : MarinadeError)
  /-- An account constraint that the framework checks before the handler runs. -/
  | constraint
  /-- `ProgramError::AccountDataTooSmall` -/
  | accountDataTooSmall
  /-- `ProgramError::BorshIoError` -/
  | borshIo
  /-- The system, token or stake program refused a call. -/
  | refused
  | overflow
  | underflow (c : Counter)
  | assertion (a : Assertion)
  deriving DecidableEq, Repr

instance : Coe MarinadeError Error := ⟨.marinade⟩

/-- `a + b` in a type with the largest value `max`. -/
def addUpTo (max a b : ℕ) : Except Error ℕ :=
  if a + b ≤ max then .ok (a + b) else .error .overflow

/-- `a + b` on `u64` values. -/
def checkedAdd (a b : ℕ) : Except Error ℕ :=
  addUpTo u64Max a b

/-- `a * b` on `u64` values. -/
def checkedMul (a b : ℕ) : Except Error ℕ :=
  if a * b ≤ u64Max then .ok (a * b) else .error .overflow

/-- `a * b` on `u32` values. -/
def checkedMul32 (a b : ℕ) : Except Error ℕ :=
  if a * b ≤ u32Max then .ok (a * b) else .error .overflow

/-- `a - b` where `a` is the quantity `c`. -/
def checkedSub (c : Counter) (a b : ℕ) : Except Error ℕ :=
  if b ≤ a then .ok (a - b) else .error (.underflow c)

section

variable {max a b r : ℕ} {c c' : Counter} {e : Error}

@[simp] theorem addUpTo_eq_ok : addUpTo max a b = .ok r ↔ a + b ≤ max ∧ a + b = r := by
  unfold addUpTo
  split <;> simp [*]

@[simp] theorem checkedAdd_eq_ok : checkedAdd a b = .ok r ↔ a + b ≤ u64Max ∧ a + b = r :=
  addUpTo_eq_ok

@[simp] theorem addUpTo_eq_error :
    addUpTo max a b = .error e ↔ max < a + b ∧ e = .overflow := by
  unfold addUpTo
  split
  · simp [Nat.not_lt.mpr ‹_›]
  · simp [Nat.lt_of_not_le ‹_›, eq_comm]

@[simp] theorem checkedAdd_eq_error :
    checkedAdd a b = .error e ↔ u64Max < a + b ∧ e = .overflow :=
  addUpTo_eq_error

@[simp] theorem checkedMul_eq_ok : checkedMul a b = .ok r ↔ a * b ≤ u64Max ∧ a * b = r := by
  unfold checkedMul
  split <;> simp [*]

@[simp] theorem checkedMul_eq_error :
    checkedMul a b = .error e ↔ u64Max < a * b ∧ e = .overflow := by
  unfold checkedMul
  split
  · simp [Nat.not_lt.mpr ‹_›]
  · simp [Nat.lt_of_not_le ‹_›, eq_comm]

@[simp] theorem checkedSub_eq_ok : checkedSub c a b = .ok r ↔ b ≤ a ∧ a - b = r := by
  unfold checkedSub
  split <;> simp [*]

@[simp] theorem checkedSub_eq_error :
    checkedSub c a b = .error e ↔ a < b ∧ e = .underflow c := by
  unfold checkedSub
  split
  · simp [Nat.not_lt.mpr ‹_›]
  · simp [Nat.lt_of_not_le ‹_›, eq_comm]

/-! ## Errors of checked arithmetic

A sum and a product stop with one error and a difference with another, so whether they avoid a kind
of error is a bound, or nothing at all. -/

variable {E : Error → Prop}

@[simp] theorem addUpTo_avoids :
    Avoids E (addUpTo max a b) ↔ (E .overflow → a + b ≤ max) := by
  unfold addUpTo
  split <;> simp [*]

@[simp] theorem checkedAdd_avoids :
    Avoids E (checkedAdd a b) ↔ (E .overflow → a + b ≤ u64Max) :=
  addUpTo_avoids

@[simp] theorem checkedMul_avoids :
    Avoids E (checkedMul a b) ↔ (E .overflow → a * b ≤ u64Max) := by
  unfold checkedMul
  split <;> simp [*]

@[simp] theorem checkedSub_avoids :
    Avoids E (checkedSub c a b) ↔ (E (.underflow c) → b ≤ a) := by
  unfold checkedSub
  split <;> simp [*]

end

end Marinade
