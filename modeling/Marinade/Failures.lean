import Marinade.Protocol

/-!
# What stops an instruction

Many guarantees say that some kind of error never occurs: that no counter falls below zero, that an
assertion holds, or that an update does not stop at all. They differ in the errors they exclude and
in what they know of the world, but an instruction consists of the same parts for all of them.

For every part this says which errors it has to avoid, for any kind `E` of errors: either the part
raises only errors outside `E`, or an amount is within its bound wherever the error for it is of the
kind `E`. A kind that excludes few errors makes most of these conditions void, and simp sees that.
-/

open Foundation Foundation.Ledger

namespace Marinade

section

variable {E : Error → Prop} {α : Type} {a n d i j x y : ℕ} {k k₁ k₂ k₃ : Pubkey} {clock : Clock}
  {s : State} {em act : Bool}

/-! ## Amounts -/

@[simp] theorem proportional_avoids : Avoids E (proportional a n d) ↔
    (E (.marinade .calculationFailure) → d ≠ 0 → a * n / d ≤ u64Max) := by
  unfold proportional
  split
  · simp [*]
  · split <;> simp [*]

@[simp] theorem sharesFromValue_avoids : Avoids E (sharesFromValue a n d) ↔
    (E (.marinade .calculationFailure) → d ≠ 0 → n ≠ 0 → a * d / n ≤ u64Max) := by
  unfold sharesFromValue
  split <;> simp [*]

namespace State

@[simp] theorem totalLamportsUnderControl_avoids :
    Avoids E s.totalLamportsUnderControl ↔ (E .overflow → s.controlled ≤ u64Max) := by
  simp only [totalLamportsUnderControl, totalCoolingDown, Avoids.bind_iff, checkedAdd_avoids,
    checkedAdd_eq_ok, controlled]
  constructor
  · rintro ⟨h₁, h⟩ hE
    exact (h _ ⟨h₁ hE, rfl⟩).2 _ ⟨(h _ ⟨h₁ hE, rfl⟩).1 hE, rfl⟩ hE
  · intro h
    refine ⟨fun hE ↦ ?_, ?_⟩
    · have := h hE
      omega
    · rintro _ ⟨-, rfl⟩
      refine ⟨fun hE ↦ ?_, ?_⟩
      · have := h hE
        omega
      · rintro _ ⟨-, rfl⟩
        exact h

@[simp] theorem totalVirtualStakedLamports_avoids :
    Avoids E s.totalVirtualStakedLamports ↔ (E .overflow → s.controlled ≤ u64Max) := by
  simp [totalVirtualStakedLamports]

@[simp] theorem calcMsolFromLamports_avoids (hc : E .overflow → s.controlled ≤ u64Max)
    (h : Avoids E (sharesFromValue x s.virtualStaked s.msolSupply)) :
    Avoids E (s.calcMsolFromLamports x) := by
  refine .bind (totalVirtualStakedLamports_avoids.mpr hc) fun total htotal ↦ ?_
  obtain ⟨-, rfl⟩ := totalVirtualStakedLamports_eq_ok.mp htotal
  exact h

@[simp] theorem msolToSol_avoids (hc : E .overflow → s.controlled ≤ u64Max)
    (h : Avoids E (proportional x s.virtualStaked s.msolSupply)) : Avoids E (s.msolToSol x) := by
  refine .bind (totalVirtualStakedLamports_avoids.mpr hc) fun total htotal ↦ ?_
  obtain ⟨-, rfl⟩ := totalVirtualStakedLamports_eq_ok.mp htotal
  exact h

@[simp] theorem checkStakingCap_avoids (h : ¬E .overflow)
    (h' : ¬E (.marinade .stakingIsCapped)) : Avoids E (s.checkStakingCap x) := by
  simp [checkStakingCap, h, h']

@[simp] theorem onTransferToReserve_avoids : Avoids E (s.onTransferToReserve x) ↔
    (E .overflow → s.availableReserveBalance + x ≤ u64Max) := by
  simp [onTransferToReserve]

@[simp] theorem onTransferFromReserve_avoids : Avoids E (s.onTransferFromReserve x) ↔
    (E (.underflow .availableReserveBalance) → x ≤ s.availableReserveBalance) := by
  simp [onTransferFromReserve]

@[simp] theorem onMsolMint_avoids : Avoids E (s.onMsolMint x) ↔
    (E .overflow → s.msolSupply + x ≤ u64Max) := by
  simp [onMsolMint]

@[simp] theorem onMsolBurn_avoids : Avoids E (s.onMsolBurn x) ↔
    (E (.underflow .msolSupply) → x ≤ s.msolSupply) := by
  simp [onMsolBurn]

@[simp] theorem onStakeMoved_avoids (h : ¬E .overflow)
    (h' : ¬E (.marinade .movingStakeIsCapped)) : Avoids E (s.onStakeMoved x clock) := by
  simp [onStakeMoved, h, h']

end State

/-! ## Lists -/

namespace AccountList

variable {list : AccountList α} {item : α}

@[simp] theorem get_avoids : Avoids E (list.get i) ↔
    (E (.marinade .listIndexOutOfBounds) → i < list.items.length) := by
  simp [get]

@[simp] theorem set_avoids : Avoids E (list.set i item) ↔
    (E (.marinade .listIndexOutOfBounds) → i < list.items.length) := by
  unfold set len
  split <;> simp [*]

@[simp] theorem remove_avoids : Avoids E (list.remove i) ↔
    (E (.marinade .listIndexOutOfBounds) → i < list.items.length) := by
  unfold remove len
  split <;> simp [*]

@[simp] theorem push_avoids (h : ¬E .accountDataTooSmall)
    (h₁ : ¬E (.marinade .calculationFailure)) (h₂ : ¬E (.marinade .listOverflow)) :
    Avoids E (list.push item) := by
  have hcapacity : Avoids E list.capacity := by simp [capacity, h, h₁]
  unfold push
  split
  · rename_i heq
    simpa using hcapacity _ heq
  · split <;> simp [h₂]

@[simp] theorem realloc_avoids {capacity : ℕ} (h : ¬E .overflow)
    (h' : ¬E (.marinade .shrinkingListWithDeletingContents)) :
    Avoids E (list.realloc capacity) := by
  unfold realloc
  split
  · split <;> simp [h']
  · simp [h]

end AccountList

namespace ValidatorSystem

variable {vs : ValidatorSystem} {v : ValidatorRecord}

@[simp] theorem get_avoids : Avoids E (vs.get i) ↔
    (E (.marinade .listIndexOutOfBounds) → i < vs.records.length) :=
  AccountList.get_avoids

@[simp] theorem getChecked_avoids (h : ¬E (.marinade .listIndexOutOfBounds))
    (h' : ¬E (.marinade .wrongValidatorAccountOrIndex)) : Avoids E (vs.getChecked i k) := by
  simp [getChecked, h, h']

@[simp] theorem set_avoids : Avoids E (vs.set i v) ↔
    (E (.marinade .listIndexOutOfBounds) → i < vs.records.length) := by
  simp [set]

@[simp] theorem add_avoids (h : ¬E (.marinade .wrongValidatorDuplicationFlag)) (h₀ : ¬E .overflow)
    (h₁ : ¬E .accountDataTooSmall) (h₂ : ¬E (.marinade .calculationFailure))
    (h₃ : ¬E (.marinade .listOverflow)) : Avoids E (vs.add k x k₁) := by
  simp [add, ValidatorRecord.new, h, h₀, h₁, h₂, h₃]

@[simp] theorem remove_avoids (h : ¬E (.marinade .removingValidatorWithBalance))
    (h' : ¬E (.marinade .listIndexOutOfBounds)) : Avoids E (vs.remove i v) ↔
    (v.activeBalance = 0 → E (.underflow .totalValidatorScore) →
      v.score ≤ vs.totalValidatorScore) := by
  simp [remove, h, h']

@[simp] theorem validatorStakeTarget_avoids (h : ¬E (.marinade .calculationFailure)) :
    Avoids E (vs.validatorStakeTarget v x) := by
  simp [validatorStakeTarget, h]

end ValidatorSystem

namespace StakeSystem

variable {ss : StakeSystem} {r : StakeRecord}

@[simp] theorem getChecked_avoids (h : ¬E (.marinade .listIndexOutOfBounds))
    (h' : ¬E (.marinade .wrongStakeAccountOrIndex)) : Avoids E (ss.getChecked i k) := by
  simp [getChecked, h, h']

@[simp] theorem set_avoids : Avoids E (ss.set i r) ↔
    (E (.marinade .listIndexOutOfBounds) → i < ss.records.length) := by
  simp [set]

@[simp] theorem add_avoids (h : ¬E .accountDataTooSmall)
    (h₁ : ¬E (.marinade .calculationFailure)) (h₂ : ¬E (.marinade .listOverflow)) :
    Avoids E (ss.add k x clock em act) := by
  simp [add, h, h₁, h₂]

@[simp] theorem remove_avoids : Avoids E (ss.remove i) ↔
    (E (.marinade .listIndexOutOfBounds) → i < ss.records.length) := by
  simp [remove]

end StakeSystem

namespace LiqPool

variable {pool : LiqPool}

@[simp] theorem linearFee_avoids (h : ¬E (.assertion .linearFeeDiscount))
    (h' : ¬E (.underflow .linearFee)) : Avoids E (pool.linearFee x) := by
  unfold linearFee
  split
  · simp
  · split <;> simp [h, h']

@[simp] theorem checkLiquidityCap_avoids (h : ¬E .overflow)
    (h' : ¬E (.marinade .liquidityIsCapped)) : Avoids E (pool.checkLiquidityCap x y) := by
  simp [checkLiquidityCap, h, h']

@[simp] theorem onLpMint_avoids : Avoids E (pool.onLpMint x) ↔
    (E .overflow → pool.lpSupply + x ≤ u64Max) := by
  simp [onLpMint]

@[simp] theorem onLpBurn_avoids : Avoids E (pool.onLpBurn x) ↔
    (E (.underflow .lpSupply) → x ≤ pool.lpSupply) := by
  simp [onLpBurn]

end LiqPool

/-! ## The programs that are called -/

variable {rt : Runtime} {chain : Chain}

namespace SystemProgram

@[simp] theorem transfer_avoids :
    Avoids E (transfer chain k k₁ x) ↔ (E .refused → x ≤ chain.lamportsOf k) := by
  simp only [transfer, Avoids.bind_iff, Avoids.orError_iff, Avoids.pure_iff, implies_true,
    and_true]
  refine forall_congr' fun _ ↦ ⟨fun h ↦ ?_, fun h hnone ↦ ?_⟩
  · obtain ⟨l, hl⟩ := Option.ne_none_iff_exists'.mp h
    exact le_balance_of_transfer hl
  · obtain ⟨l, hl⟩ := exists_transfer k₁ h
    rw [hnone] at hl
    cases hl

@[simp] theorem transferSome_avoids (h : ¬E .refused) :
    Avoids E (transferSome chain k k₁ x) := by
  simp [transferSome, h]

@[simp] theorem initStakeAccount_avoids (h : ¬E .constraint) (h' : ¬E .refused) :
    Avoids E (initStakeAccount rt chain k k₁) := by
  simp [initStakeAccount, h, h']

end SystemProgram

namespace TokenMint

variable {vault : Pubkey → Option Pubkey} {mint mint' : TokenMint vault}

@[simp] theorem spend_avoids (h : ¬E .refused) : Avoids E (mint.spend k k₁ x) := by
  simp [spend, h]

@[simp] theorem mintTo_avoids : Avoids E (mint.mintTo k x) ↔
    (E .refused → (mint.holder k).isSome = true ∧ mint.supply + x ≤ u64Max) := by
  simp [mintTo]

@[simp] theorem transfer_avoids (h : ¬E .refused) : Avoids E (mint.transfer k k₁ k₂ x) := by
  simp [transfer, h]

@[simp] theorem transferSome_avoids (h : ¬E .refused) :
    Avoids E (mint.transferSome k k₁ k₂ x) := by
  simp [transferSome, h]

@[simp] theorem burn_avoids (h : ¬E .refused) : Avoids E (mint.burn k k₁ x) := by
  simp [burn, h]

end TokenMint

namespace StakeProgram

@[simp] theorem initializeStake_avoids (h : ¬E .refused) :
    Avoids E (initializeStake rt chain k k₁ k₂) := by
  simp [initializeStake, h]

@[simp] theorem delegate_avoids (h : ¬E .refused) : Avoids E (delegate rt chain k k₁ k₂) := by
  simp [delegate, h]

@[simp] theorem deactivate_avoids (h : ¬E .refused) : Avoids E (deactivate chain k k₁) := by
  simp [deactivate, h]

@[simp] theorem split_avoids (h : ¬E .refused) : Avoids E (split rt chain k k₁ k₂ x) := by
  simp [split, h]

@[simp] theorem merge_avoids (h : ¬E .refused) (h' : ¬E .overflow) :
    Avoids E (merge rt chain k k₁ k₂) := by
  simp [merge, h, h']

@[simp] theorem withdraw_avoids (h : ¬E .refused) : Avoids E (withdraw rt chain k k₁ k₂ x) := by
  simp [withdraw, h]

@[simp] theorem withdrawUninitialized_avoids (h : ¬E .refused) :
    Avoids E (withdrawUninitialized chain k k₁) := by
  simp [withdrawUninitialized, h]

@[simp] theorem setLockup_avoids {lockup : Lockup} (h : ¬E .refused) :
    Avoids E (setLockup chain k k₁ lockup) := by
  simp [setLockup, h]

@[simp] theorem authorizeStaker_avoids (h : ¬E .refused) :
    Avoids E (authorizeStaker chain k k₁ k₂) := by
  simp [authorizeStaker, h]

@[simp] theorem authorizeWithdrawer_avoids (h : ¬E .refused) :
    Avoids E (authorizeWithdrawer chain k k₁ k₂) := by
  simp [authorizeWithdrawer, h]

end StakeProgram

/-! ## Checks -/

variable {account : StakeAccount} {holder : TokenHolder} {r : StakeRecord}

@[simp] theorem checkStakeAmountAndValidator_avoids
    (h : ¬E (.marinade .wrongValidatorAccountOrIndex))
    (h₁ : ¬E (.marinade .stakeAccountNotUpdatedYet)) (h₂ : ¬E (.marinade .stakeNotDelegated)) :
    Avoids E (checkStakeAmountAndValidator account x k) := by
  unfold checkStakeAmountAndValidator
  split <;> simp [h, h₁, h₂]

@[simp] theorem checkTokenSourceAccount_avoids (h : ¬E (.marinade .notEnoughUserFunds))
    (h' : ¬E (.marinade .wrongTokenOwnerOrDelegate)) :
    Avoids E (checkTokenSourceAccount holder x k y) := by
  simp [checkTokenSourceAccount, h, h']

@[simp] theorem requireActiveRecord_avoids (h : ¬E (.marinade .requiredActiveStake))
    (h' : ¬E (.marinade .stakeAccountIsEmergencyUnstaking)) :
    Avoids E (requireActiveRecord r) := by
  simp [requireActiveRecord, h, h']

@[simp] theorem inStakeDeltaWindow_avoids (h : ¬E (.marinade .tooEarlyForStakeDelta)) :
    Avoids E (inStakeDeltaWindow rt clock s) := by
  simp [inStakeDeltaWindow, h]

@[simp] theorem stakeDeltaAmount_avoids {delta : ℤ} (h : ¬E (.assertion .stakeDeltaAmount)) :
    Avoids E (stakeDeltaAmount delta) := by
  simp [stakeDeltaAmount, h]

@[simp] theorem checkSome_avoids {param : Option α} {p : α → Prop} [DecidablePred p]
    {e : MarinadeError} (h : ¬E (.marinade e)) : Avoids E (checkSome param p e) := by
  cases param <;> simp [checkSome, h]

@[simp] theorem settleRent_avoids {n' : ℕ} (h : ¬E .refused) (h' : ¬E (.underflow .amount)) :
    Avoids E (settleRent rt chain k k₁ n n') := by
  simp [settleRent, h, h']

/-! ## Unstaking -/

@[simp] theorem splitAndDeactivate_avoids (h : ¬E .refused) :
    Avoids E (splitAndDeactivate rt chain k k₁ x) := by
  simp [splitAndDeactivate, h]

variable {v : ValidatorRecord}

@[simp] theorem moveToEmergency_avoids (h : ¬E .overflow)
    (h' : ¬E (.marinade .listIndexOutOfBounds)) : Avoids E (moveToEmergency i j r v x s) ↔
    (E (.underflow .validatorActiveBalance) → x ≤ v.activeBalance) ∧
      (x ≤ v.activeBalance → E (.underflow .totalActiveBalance) →
        x ≤ s.validatorSystem.totalActiveBalance) := by
  simp [moveToEmergency, h, h']

/-! ## Depositing a stake account -/

@[simp] theorem DepositStakeAccount.maintainUpgrader_avoids {u : DelinquentUpgraderState}
    (h : ¬E .overflow) : Avoids E (maintainUpgrader u j v x) := by
  cases u <;> simp [maintainUpgrader, h]

/-! ## Updates -/

variable {w : World} {ready : Bool}

namespace UpdateCommon

variable {accounts : UpdateCommon}

@[simp] theorem begin_avoids (h : ¬E .constraint) (h₁ : ¬E .overflow)
    (h₂ : ¬E (.marinade .listIndexOutOfBounds)) (h₃ : ¬E (.marinade .wrongStakeAccountOrIndex))
    (h₄ : ¬E (.marinade .wrongValidatorAccountOrIndex))
    (h₅ : ¬E (.marinade .stakeNotDelegated)) : Avoids E (accounts.begin i j w) := by
  simp [begin, h, h₁, h₂, h₃, h₄, h₅]

@[simp] theorem withdrawToReserve_avoids (h : ¬E .refused) (h' : ¬E .overflow) :
    Avoids E (accounts.withdrawToReserve rt x w) := by
  simp [withdrawToReserve, h, h']

/-- A fee of `fee` mSOL is minted if its account takes it and there is room for as many. -/
@[simp] theorem mintProtocolFeesIf_avoids (hc : E .overflow → w.state.controlled ≤ u64Max)
    (hfee : Avoids E (sharesFromValue (w.state.rewardFee.apply x) w.state.virtualStaked
      w.state.msolSupply))
    (hroom : ∀ fee, sharesFromValue (w.state.rewardFee.apply x) w.state.virtualStaked
        w.state.msolSupply = .ok fee →
      (E .refused → ready = true → (w.msol.holder w.state.treasuryMsolAccount).isSome = true ∧
        w.msol.supply + fee ≤ u64Max) ∧
      (E .overflow → w.state.msolSupply + fee ≤ u64Max)) :
    Avoids E (mintProtocolFeesIf ready x w) := by
  simp only [mintProtocolFeesIf, mintProtocolFees, mintToTreasury, Avoids.ite_iff, Avoids.bind_iff,
    Avoids.ok_iff, Avoids.pure_iff, implies_true, and_true, TokenMint.mintTo_avoids,
    State.onMsolMint_avoids]
  refine fun hready ↦ ⟨State.calcMsolFromLamports_avoids hc hfee, fun fee h _ ↦ ?_⟩
  obtain ⟨hmint, hbook⟩ := hroom fee (State.calcMsolFromLamports_eq_ok.mp h).2
  exact ⟨fun hE ↦ hmint hE hready, fun _ _ ↦ hbook⟩

/-- The price fits if there are fewer than 2³² lamports for each mSOL. -/
@[simp] theorem updateMsolPrice_avoids (hc : E .overflow → s.controlled ≤ u64Max)
    (hprice : E (.marinade .calculationFailure) → s.virtualStaked < 2 ^ 32 * s.msolSupply) :
    Avoids E (updateMsolPrice s) := by
  simp only [updateMsolPrice, Avoids.bind_iff, Avoids.pure_iff, implies_true, and_true]
  refine State.msolToSol_avoids hc (proportional_avoids.mpr fun hE _ ↦ ?_)
  refine Nat.le_of_lt_succ (Nat.div_lt_of_lt_mul ?_)
  calc State.priceDenominator * s.virtualStaked
    _ < State.priceDenominator * (2 ^ 32 * s.msolSupply) :=
      Nat.mul_lt_mul_of_pos_left (hprice hE) (by decide)
    _ = s.msolSupply * (u64Max + 1) := by rw [← Nat.mul_assoc, Nat.mul_comm]; rfl

/-- The count of visited records is complete only with the right total. -/
@[simp] theorem checkDelinquentUpgradeStateProgression_avoids
    (h : E (.marinade .upgradingInvariantViolation) → ∀ n t k,
      s.delinquentUpgrader = .iteratingStakes n t k → n = s.stakeSystem.records.length →
        t = s.validatorSystem.totalActiveBalance) :
    Avoids E (checkDelinquentUpgradeStateProgression s) := by
  unfold checkDelinquentUpgradeStateProgression
  split
  · rename_i n t k hu
    split
    · simp only [Avoids.bind_iff, Avoids.ensure_iff, Avoids.pure_iff, implies_true, and_true]
      exact fun hE ↦ h hE n t k hu ‹_›
    · exact Avoids.ok_iff
  · exact Avoids.ok_iff

end UpdateCommon

namespace UpdateActive

variable {accounts : UpdateCommon}

/-- What is counted at a first visit was booked as active. -/
@[simp] theorem delinquentUpgrade_avoids (hover : ¬E .overflow)
    (h : E (.marinade .upgradingInvariantViolation) → r.lastUpdateStatus = .unknown →
      ∃ n t k, s.delinquentUpgrader = .iteratingStakes n t k ∧
        t + r.lastUpdateDelegatedLamports ≤ s.validatorSystem.totalActiveBalance ∧
        v.delinquentUpgraderActiveBalance + r.lastUpdateDelegatedLamports ≤ v.activeBalance) :
    Avoids E (delinquentUpgrade r v s) := by
  unfold delinquentUpgrade
  split
  · rename_i hunknown
    split
    · rename_i n t k hu
      simp only [Avoids.bind_iff, Avoids.pure_iff, Avoids.ensure_iff, addUpTo_avoids,
        checkedAdd_avoids, checkedAdd_eq_ok, hover, false_implies, implies_true, and_true,
        true_and]
      rintro _ - _ ⟨-, rfl⟩
      refine ⟨fun hE ↦ ?_, ?_⟩
      · obtain ⟨_, _, _, hu', ht, -⟩ := h hE hunknown
        cases hu.symm.trans hu'
        exact ht
      · rintro _ - _ ⟨-, rfl⟩ hE
        obtain ⟨_, _, _, -, -, hv⟩ := h hE hunknown
        exact hv
    · rename_i hu
      refine Avoids.error_iff.mpr fun hE ↦ ?_
      obtain ⟨n, t, k, hu', -⟩ := h hE hunknown
      exact hu _ _ _ hu'
  · exact Avoids.ok_iff

@[simp] theorem collectExtra_avoids
    (hwithdraw : Avoids E (accounts.withdrawToReserve rt x w))
    (hmint : ∀ w', accounts.withdrawToReserve rt x w = .ok w' →
      Avoids E (UpdateCommon.mintProtocolFeesIf ready x w')) :
    Avoids E (collectExtra rt accounts ready x w) := by
  unfold collectExtra
  split
  · exact .bind hwithdraw hmint
  · exact Avoids.ok_iff

/-- The numbers of the iteration are kept only while it is going on. -/
private theorem delinquentUpgradeOnRewards_avoids
    (h : s.delinquentUpgrader = .done ∨ ¬E .overflow) :
    Avoids E (delinquentUpgradeOnRewards v x s) := by
  unfold delinquentUpgradeOnRewards
  split <;> simp_all

private theorem delinquentUpgradeOnSlash_avoids
    (h : s.delinquentUpgrader = .done ∨ ¬E (.underflow .upgraderValidatorActiveBalance) ∧
      ¬E (.underflow .upgraderActiveBalance)) : Avoids E (delinquentUpgradeOnSlash v x s) := by
  unfold delinquentUpgradeOnSlash
  split <;> simp_all

/-- What was booked as delegated is part of both balances, and what is added to them fits. -/
theorem bookDelegation_avoids
    (hup : w.state.delinquentUpgrader = .done ∨ ¬E .overflow ∧
      ¬E (.underflow .upgraderValidatorActiveBalance) ∧ ¬E (.underflow .upgraderActiveBalance))
    (hmint : y ≤ x → Avoids E (UpdateCommon.mintProtocolFeesIf ready (x - y) w))
    (hover : E .overflow → v.activeBalance + (x - y) ≤ u64Max ∧
      w.state.validatorSystem.totalActiveBalance + (x - y) ≤ u64Max)
    (hv : E (.underflow .validatorActiveBalance) → y ≤ v.activeBalance)
    (ht : E (.underflow .totalActiveBalance) →
      y ≤ w.state.validatorSystem.totalActiveBalance) :
    Avoids E (bookDelegation ready x y v w) := by
  unfold bookDelegation
  split
  · refine .bind (hmint ‹_›) fun w₁ h₁ ↦ ?_
    obtain ⟨fee, msol, -, -, -, rfl⟩ := UpdateCommon.mintProtocolFeesIf_spec h₁
    simp only [Avoids.bind_iff, Avoids.pure_iff, checkedAdd_avoids, implies_true, and_true]
    refine ⟨fun hE ↦ (hover hE).1, fun _ _ ↦ ⟨fun hE ↦ (hover hE).2, fun _ _ ↦ ?_⟩⟩
    exact delinquentUpgradeOnRewards_avoids (hup.imp_right And.left)
  · simp only [bookSlash, Avoids.bind_iff, Avoids.pure_iff, checkedSub_avoids, implies_true,
      and_true]
    refine ⟨fun hE ↦ (Nat.sub_le _ _).trans (hv hE), fun _ _ ↦
      ⟨fun hE ↦ (Nat.sub_le _ _).trans (ht hE), fun _ _ ↦ ?_⟩⟩
    exact delinquentUpgradeOnSlash_avoids (hup.imp_right And.right)

theorem finish_avoids
    (hi : E (.marinade .listIndexOutOfBounds) → i < w.state.stakeSystem.records.length)
    (hj : E (.marinade .listIndexOutOfBounds) → j < w.state.validatorSystem.records.length)
    (hc : E .overflow → w.state.controlled ≤ u64Max ∧ w.lamportsOf .reserve ≤ u64Max)
    (hprice : E (.marinade .calculationFailure) →
      w.state.virtualStaked < 2 ^ 32 * w.state.msolSupply)
    (haligned : w.state.availableReserveBalance + w.state.rentExemptForTokenAcc
        = w.lamportsOf .reserve ∨ ¬E .overflow ∧ ¬E (.assertion .reserveAligned))
    (hprogress : E (.marinade .upgradingInvariantViolation) → ∀ n t k,
      w.state.delinquentUpgrader = .iteratingStakes n t k →
        n = w.state.stakeSystem.records.length → t = w.state.validatorSystem.totalActiveBalance) :
    Avoids E (finish i j r v w) := by
  refine .bind (ValidatorSystem.set_avoids.mpr hj) fun vs hvs ↦ ?_
  obtain ⟨hvs, -⟩ := ValidatorSystem.set_eq_ok hvs
  refine .bind ?_ fun s hs ↦ ?_
  · rw [hvs]
    exact UpdateCommon.updateMsolPrice_avoids (fun hE ↦ (hc hE).1) hprice
  obtain ⟨price, rfl⟩ := UpdateCommon.updateMsolPrice_spec hs
  refine .bind (StakeSystem.set_avoids.mpr hi) fun ss hss ↦ ?_
  obtain ⟨hss, hrecords⟩ := StakeSystem.set_eq_ok hss
  refine .bind ?_ fun reserve hreserve ↦ .bind ?_ fun _ _ ↦ .bind ?_ fun _ _ ↦ Avoids.ok_iff
  · refine checkedAdd_avoids.mpr fun hE ↦ ?_
    rcases haligned with heq | ⟨hnot, -⟩
    · exact heq.trans_le (hc hE).2
    · exact absurd hE hnot
  · obtain ⟨-, rfl⟩ := checkedAdd_eq_ok.mp hreserve
    refine Avoids.ensure_iff.mpr fun hE ↦ ?_
    rcases haligned with heq | ⟨-, hnot⟩
    · exact heq
    · exact absurd hE hnot
  · refine UpdateCommon.checkDelinquentUpgradeStateProgression_avoids fun hE n t k hu hn ↦ ?_
    simp only [hrecords, List.length_set] at hn
    simp only
    rw [hvs]
    exact hprogress hE n t k hu hn

end UpdateActive

namespace UpdateDeactivated

variable {accounts : UpdateDeactivated}

/-- What an active record holds is part of both balances, and no emergency. -/
theorem detectDelinquent_avoids
    (hj : E (.marinade .listIndexOutOfBounds) → j < s.validatorSystem.records.length)
    (hemergency : E (.marinade .stakeAccountIsEmergencyUnstaking) →
      r.lastUpdateStatus = .active → r.isEmergencyUnstaking = false)
    (hover : E .overflow → r.lastUpdateStatus = .active →
      s.emergencyCoolingDown + r.lastUpdateDelegatedLamports ≤ u64Max)
    (hbalance : r.lastUpdateStatus = .active → r.lastUpdateDelegatedLamports ≤ v.activeBalance ∧
      r.lastUpdateDelegatedLamports ≤ s.validatorSystem.totalActiveBalance) :
    Avoids E (detectDelinquent j r v s) := by
  unfold detectDelinquent
  split
  · rename_i hactive
    simp only [Avoids.bind_iff, Avoids.ensure_iff, Avoids.pure_iff, checkedAdd_avoids,
      checkedSub_avoids, ValidatorSystem.set_avoids, implies_true, and_true]
    exact ⟨fun hE ↦ by simp [hemergency hE hactive], fun _ _ ↦ ⟨fun hE ↦ hover hE hactive, fun _ _ ↦
      ⟨fun _ ↦ (hbalance hactive).2, fun _ _ ↦ ⟨fun _ ↦ (hbalance hactive).1, fun _ _ ↦ hj⟩⟩⟩⟩
  · exact Avoids.ok_iff

/-- What a record holds is cooling down; while the stake list is being upgraded, the excess is
charged to the active total. -/
theorem bookOutSome_avoids
    (hcooling : s.delinquentUpgrader.isIteratingStakes = false →
      r.lastUpdateDelegatedLamports ≤ if r.isEmergencyUnstaking then s.emergencyCoolingDown
        else s.stakeSystem.delayedUnstakeCoolingDown)
    (hiterating : s.delinquentUpgrader.isIteratingStakes = true → ¬E .overflow ∧
      (E (.underflow .totalActiveBalance) → r.lastUpdateDelegatedLamports -
          (if r.isEmergencyUnstaking then s.emergencyCoolingDown
            else s.stakeSystem.delayedUnstakeCoolingDown)
        ≤ s.validatorSystem.totalActiveBalance)) : Avoids E (bookOutSome r s) := by
  unfold bookOutSome
  split
  · unfold bookOut
    split
    · rename_i n t k hu
      obtain ⟨hover, hcharged⟩ := hiterating (by rw [hu]; rfl)
      cases hem : r.isEmergencyUnstaking with
      | false =>
        simp only [hem, Bool.false_eq_true, if_false] at hcharged
        simp only [Bool.not_false, if_true, Avoids.bind_iff, Avoids.pure_iff, checkedAdd_avoids,
          checkedSub_avoids, hover, false_implies, implies_true, and_true, true_and]
        intro _ _ hE
        have hle := hcharged hE
        omega
      | true =>
        simp only [hem, if_true] at hcharged
        simp only [Bool.not_true, Bool.false_eq_true, if_false, Avoids.bind_iff, Avoids.pure_iff,
          checkedAdd_avoids, checkedSub_avoids, hover, false_implies, implies_true, and_true,
          true_and]
        intro _ _ hE
        have hle := hcharged hE
        omega
    · rename_i hu
      have hle := hcooling (by
        cases hphase : s.delinquentUpgrader with
        | iteratingStakes => exact absurd hphase (hu _ _ _)
        | _ => rfl)
      cases hem : r.isEmergencyUnstaking with
      | false =>
        simp only [hem, Bool.false_eq_true, if_false] at hle
        simp [hle]
      | true =>
        simp only [hem, if_true] at hle
        simp [hle]
  · exact Avoids.ok_iff

theorem close_avoids
    (hwithdraw : Avoids E (accounts.withdrawToReserve rt (w.lamportsOf accounts.stakeAccount) w))
    (hpay : ∀ w', accounts.withdrawToReserve rt (w.lamportsOf accounts.stakeAccount) w = .ok w' →
      (E .refused → x ≤ w'.lamportsOf .reserve) ∧
      (E (.underflow .availableReserveBalance) → x ≤ w'.state.availableReserveBalance)) :
    Avoids E (close rt accounts x w) := by
  refine .bind hwithdraw fun w' hw' ↦ ?_
  obtain ⟨hreserve, havailable⟩ := hpay w' hw'
  simp only [Avoids.bind_iff, Avoids.pure_iff, SystemProgram.transfer_avoids,
    State.onTransferFromReserve_avoids, implies_true, and_true]
  exact ⟨hreserve, fun _ _ ↦ havailable⟩

theorem finish_avoids
    (hi : E (.marinade .listIndexOutOfBounds) → i < w.state.stakeSystem.records.length)
    (hc : E .overflow → w.state.controlled ≤ u64Max)
    (hprice : E (.marinade .calculationFailure) →
      w.state.virtualStaked < 2 ^ 32 * w.state.msolSupply)
    (hprogress : E (.marinade .upgradingInvariantViolation) → ∀ n t k,
      w.state.delinquentUpgrader = .iteratingStakes n t k →
        n = (swapRemove w.state.stakeSystem.records i).length →
          t = w.state.validatorSystem.totalActiveBalance) : Avoids E (finish i w) := by
  refine .bind (UpdateCommon.updateMsolPrice_avoids hc hprice) fun s hs ↦ ?_
  obtain ⟨price, rfl⟩ := UpdateCommon.updateMsolPrice_spec hs
  refine .bind (StakeSystem.remove_avoids.mpr hi) fun ss hss ↦ ?_
  obtain ⟨-, hrecords⟩ := StakeSystem.remove_eq_ok hss
  refine .bind ?_ fun _ _ ↦ Avoids.ok_iff
  refine UpdateCommon.checkDelinquentUpgradeStateProgression_avoids fun hE n t k hu hn ↦ ?_
  rw [hrecords] at hn
  exact hprogress hE n t k hu hn

end UpdateDeactivated

end

end Marinade
