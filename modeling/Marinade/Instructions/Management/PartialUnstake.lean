import Marinade.Instructions.Unstaking

/-!
# Partial unstake

The validator manager takes stake away from a validator that has more than its target. The target
is a share of all active stake after the stake delta, so the delta is computed from the lamports the
reserve really holds, and the sum is asserted to be an amount.
-/

open Foundation Foundation.Ledger

namespace Marinade

/-- The accounts of `partial_unstake`. -/
structure PartialUnstake where
  validatorManagerAuthority : Pubkey
  stakeAccount : Pubkey
  splitStakeAccount : Pubkey
  splitStakeRentPayer : Pubkey
  deriving DecidableEq, Repr

namespace PartialUnstake

def returnUnusedSplitStakeAccountRent (accounts : PartialUnstake) (chain : Chain) :
    Except Error Chain :=
  StakeProgram.withdrawUninitialized chain accounts.splitStakeAccount accounts.splitStakeRentPayer

/-- What all validators are to have after the stake delta. -/
def totalStakeTarget (s : State) (reserveBalance : ℕ) : Except Error ℕ :=
  let totalStakeTarget : ℤ := s.validatorSystem.totalActiveBalance + s.stakeDelta reserveBalance
  if 0 ≤ totalStakeTarget ∧ totalStakeTarget ≤ u64Max then .ok totalStakeTarget.toNat
  else .error (.assertion .totalStakeTarget)

/-- Unstake the account as it is. -/
def unstakeWhole (accounts : PartialUnstake) (stakeIndex validatorIndex : ℕ)
    (stake : StakeRecord) (validator : ValidatorRecord) (chain : Chain) (s : State) :
    Except Error World := do
  let chain ← StakeProgram.deactivate chain accounts.stakeAccount .stakeDepositAuthority
  let chain ← accounts.returnUnusedSplitStakeAccountRent chain
  let unstakedFromAccount := stake.lastUpdateDelegatedLamports
  let s ← s.onStakeMoved unstakedFromAccount chain.clock
  -- marked as emergency unstaking, so that the SOL is staked again as soon as possible
  let state ← moveToEmergency stakeIndex validatorIndex { stake with
    isEmergencyUnstaking := true, lastUpdateStatus := .deactivating } validator
    unstakedFromAccount s
  return { toChain := chain, state }

/-- Split `unstakeAmount` off and unstake that. -/
def unstakePart (rt : Runtime) (accounts : PartialUnstake) (stakeIndex validatorIndex : ℕ)
    (stake : StakeRecord) (validator : ValidatorRecord) (unstakeAmount : ℕ) (chain : Chain)
    (s : State) : Except Error World := do
  let stakeSystem ← s.stakeSystem.add accounts.splitStakeAccount unstakeAmount chain.clock true
    false
  let chain ← splitAndDeactivate rt chain accounts.stakeAccount accounts.splitStakeAccount
    unstakeAmount
  let left ← checkedSub .amount stake.lastUpdateDelegatedLamports unstakeAmount
  let s ← { s with stakeSystem }.onStakeMoved unstakeAmount chain.clock
  let state ← moveToEmergency stakeIndex validatorIndex
    { stake with lastUpdateDelegatedLamports := left } validator unstakeAmount s
  return { toChain := chain, state }

def process (rt : Runtime) (accounts : PartialUnstake)
    (stakeIndex validatorIndex desiredUnstakeAmount : ℕ) (w : World) : Except Error World := do
  let s := w.state
  ensure (accounts.validatorManagerAuthority = s.validatorSystem.managerAuthority)
    (.marinade .invalidValidatorManager)
  let stakeAccount ← orError (w.stakes accounts.stakeAccount) .constraint
  let chain ← SystemProgram.initStakeAccount rt w.toChain accounts.splitStakeRentPayer
    accounts.splitStakeAccount
  ensure (!s.paused) (.marinade .programIsPaused)
  ensure s.delinquentUpgrader.isDone (.marinade .delinquentUpgraderIsNotDone)
  ensure (s.stakeSystem.minStake ≤ desiredUnstakeAmount) (.assertion .desiredUnstakeAmount)
  let validator ← s.validatorSystem.get validatorIndex
  let stake ← s.stakeSystem.getChecked stakeIndex accounts.stakeAccount
  requireActiveRecord stake
  checkStakeAmountAndValidator stakeAccount stake.lastUpdateDelegatedLamports
    validator.validatorAccount
  let totalStakeTarget ← totalStakeTarget s (chain.lamportsOf .reserve)
  let validatorStakeTarget ←
    s.validatorSystem.validatorStakeTarget validator totalStakeTarget
  let onTarget ← checkedAdd validatorStakeTarget s.stakeSystem.minStake
  -- the split would be lower than the minimal stake: not an error
  if validator.activeBalance ≤ onTarget then
    let chain ← accounts.returnUnusedSplitStakeAccountRent chain
    return { toChain := chain, state := s }
  else
    let maxUnstakeFromValidator := validator.activeBalance - validatorStakeTarget
    let unstakeAmount := min desiredUnstakeAmount maxUnstakeFromValidator
    let stakeAccountAfter := stake.lastUpdateDelegatedLamports - unstakeAmount
    if stakeAccountAfter < s.stakeSystem.minStake then
      accounts.unstakeWhole stakeIndex validatorIndex stake validator chain s
    else
      unstakePart rt accounts stakeIndex validatorIndex stake validator unstakeAmount chain s

/-- How much a validator with more than its target is asked for. -/
def unstakeAmount (v : ValidatorRecord) (validatorStakeTarget desiredUnstakeAmount : ℕ) : ℕ :=
  min desiredUnstakeAmount (v.activeBalance - validatorStakeTarget)

/-- The checks have passed for the record `r` and the validator `v`, whose target is `share`. -/
structure Decided (accounts : PartialUnstake) (i j desired : ℕ) (w : World)
    (account : StakeAccount) (d : Delegation) (r : StakeRecord) (v : ValidatorRecord)
    (share : ℕ) : Prop
    extends Unstakable accounts.stakeAccount i j w account d r v where
  min_le : w.state.stakeSystem.minStake ≤ desired
  share_eq : ∃ total, totalStakeTarget w.state (w.lamportsOf .reserve) = .ok total ∧
    w.state.validatorSystem.validatorStakeTarget v total = .ok share

/-- What happens then: nothing to a validator near its target, the whole account is unstaked where
too little would be left, and otherwise a part. -/
inductive Outcome (rt : Runtime) (accounts : PartialUnstake) (i j desired : ℕ) (w w' : World)
    (account : StakeAccount) (d : Delegation) (r : StakeRecord) (v : ValidatorRecord)
    (share : ℕ) : Prop
  | onTarget (honTarget : v.activeBalance ≤ share + w.state.stakeSystem.minStake)
      (h : NotUnstaked [accounts.splitStakeRentPayer, accounts.splitStakeAccount] w w') :
      Outcome rt accounts i j desired w w' account d r v share
  | whole (habove : share + w.state.stakeSystem.minStake < v.activeBalance)
      (hrest : r.lastUpdateDelegatedLamports - unstakeAmount v share desired
        < w.state.stakeSystem.minStake)
      (h : UnstakedWhole [accounts.splitStakeRentPayer, accounts.splitStakeAccount] true
        accounts.stakeAccount i j w w' account d r v) :
      Outcome rt accounts i j desired w w' account d r v share
  | part {topUp : ℕ} (habove : share + w.state.stakeSystem.minStake < v.activeBalance)
      (hrest : w.state.stakeSystem.minStake
        ≤ r.lastUpdateDelegatedLamports - unstakeAmount v share desired)
      (h : UnstakedSplit rt true accounts.stakeAccount accounts.splitStakeAccount
        accounts.splitStakeRentPayer i j w w' account d r v (unstakeAmount v share desired)
        topUp) :
      Outcome rt accounts i j desired w w' account d r v share

section

variable {rt : Runtime} {accounts : PartialUnstake} {w w' : World} {c c' : Chain}
  {i j x desired : ℕ} {r : StakeRecord} {v : ValidatorRecord} {account : StakeAccount}
  {d : Delegation}

private theorem unstakeWhole_spec (hu : Unstakable accounts.stakeAccount i j w account d r v)
    (h₁ : SystemProgram.initStakeAccount rt w.toChain accounts.splitStakeRentPayer
      accounts.splitStakeAccount = .ok c)
    (h : accounts.unstakeWhole i j r v c w.state = .ok w') :
    UnstakedWhole [accounts.splitStakeRentPayer, accounts.splitStakeAccount] true
      accounts.stakeAccount i j w w' account d r v := by
  simp only [unstakeWhole, returnUnusedSplitStakeAccountRent, bind_eq_ok, pure_eq_ok] at h
  obtain ⟨c₂, h₂, c₃, h₃, s, hs, s', hs', rfl⟩ := h
  have hspares := StakeProgram.return_unused_spares h₁
    (fun U hU ↦ StakeProgram.deactivate_spares h₂ (hU.not_program rfl)) h₃
  obtain ⟨a, d', ha, hd, -, hmax, rfl⟩ := StakeProgram.deactivate_spec h₂
  obtain ⟨-, hunused, found, l, ht, hl, rfl⟩ := StakeProgram.return_unused_spec h₁ (by rfl) h₃
  obtain ⟨-, -, -, -, l₁, -, -, -, rfl⟩ := SystemProgram.initStakeAccount_spec h₁
  obtain rfl : account = a := by simpa [hu.account_eq] using ha
  obtain rfl : d = d' := by simpa [hu.delegation_eq] using hd
  obtain ⟨-, -, rfl⟩ := State.onStakeMoved_iff.mp hs
  obtain ⟨hbalance, htotal, hrecords, hvalidators, hstate⟩ := moveToEmergency_spec hs'
  exact {
    hu with
    active := hmax
    validator_balance := hbalance
    total_balance := htotal
    validators_eq := hvalidators
    state_eq := ⟨w.state.stakeSystem.lastStakeDeltaEpoch, w.clock.epoch, _, hstate⟩
    delta_epoch := by rw [hstate]; rfl
    counted := fun _ ↦ counted_of_moveToEmergency hs rfl rfl rfl rfl hs'
    same_moves := fun h ↦ absurd h (by decide)
    capital_eq := ht
    frame := rfl
    records_eq := hrecords
    stakes_eq := rfl
    guarded_le := fun k hk ↦ guarded_le_of_return_unused hunused hl hk
    spares := hspares }

private theorem unstakePart_spec (hu : Unstakable accounts.stakeAccount i j w account d r v)
    (hfunded : w.Funded accounts.stakeAccount)
    (h₁ : SystemProgram.initStakeAccount rt w.toChain accounts.splitStakeRentPayer
      accounts.splitStakeAccount = .ok c)
    (h : unstakePart rt accounts i j r v x c w.state = .ok w') :
    ∃ topUp, UnstakedSplit rt true accounts.stakeAccount accounts.splitStakeAccount
      accounts.splitStakeRentPayer i j w w' account d r v x topUp := by
  simp only [unstakePart, bind_eq_ok, checkedSub_eq_ok, pure_eq_ok] at h
  obtain ⟨ss, hss, c₂, h₂, left, ⟨hle, rfl⟩, s, hs, s', hs', rfl⟩ := h
  have hstakes : c.stakes = w.stakes := by
    obtain ⟨-, -, -, -, l₁, -, -, -, rfl⟩ := SystemProgram.initStakeAccount_spec h₁
    rfl
  have hupdated := hu.updated
  have hspares := splitAndDeactivate_spares h₁ h₂
  obtain ⟨hpayer, hunused, hpos, hlt, hmax, topUp, l, hcov, ht, hl, rfl⟩ :=
    splitAndDeactivate_spec h₁ rfl hstakes h₂ hfunded hu.account_eq hu.delegation_eq (by omega)
  obtain ⟨-, -, -, -, l₁, -, -, -, rfl⟩ := SystemProgram.initStakeAccount_spec h₁
  obtain ⟨hss, hadded⟩ := StakeSystem.add_eq_ok hss
  have hcounted : ∀ c, w.Counted ⟨c, s'⟩ x := by
    intro c
    rw [hss] at hs
    exact counted_of_moveToEmergency hs rfl rfl rfl rfl hs'
  obtain ⟨-, -, rfl⟩ := State.onStakeMoved_iff.mp hs
  obtain ⟨hbalance, htotal, hrecords, hvalidators, hstate⟩ := moveToEmergency_spec hs'
  rw [hss] at hstate
  exact ⟨topUp, {
    hu with
    active := hmax
    validator_balance := hbalance
    total_balance := htotal
    validators_eq := hvalidators
    state_eq := ⟨w.state.stakeSystem.lastStakeDeltaEpoch, w.clock.epoch, _, hstate⟩
    delta_epoch := by rw [hstate]; rfl
    counted := fun _ ↦ hcounted _
    same_moves := fun h ↦ absurd h (by decide)
    first := fun h ↦ absurd h (by decide)
    capital_eq := ht
    frame := rfl
    split_pos := hpos
    split_lt := by omega
    payer_unused := hpayer
    split_unused := hunused
    rent_covered := hcov
    records_eq := by rw [← hadded]; exact hrecords
    stakes_eq := rfl
    lamports_eq := hl
    spares := hspares }⟩

/-- What a successful call has decided, and what came of it. -/
theorem process_cases (h : accounts.process rt i j desired w = .ok w')
    (hfunded : w.Funded accounts.stakeAccount) :
    ∃ account d r v share, Decided accounts i j desired w account d r v share ∧
      Outcome rt accounts i j desired w w' account d r v share := by
  simp only [process, bind_eq_ok, ensure_eq_ok, orError_eq_ok, exists_const,
    StakeSystem.getChecked_eq_ok, ValidatorSystem.get, AccountList.get_eq_ok,
    checkStakeAmountAndValidator_eq_ok, requireActiveRecord_eq_ok, checkedAdd_eq_ok] at h
  obtain ⟨-, account, ha, c, h₁, hpaused, hdone, hmin, v, hv, r, ⟨hr, hkey⟩,
    ⟨hactive, hemergency⟩, ⟨d, hd, hvoter, hstake⟩, total, htotal, share, hshare, onTarget,
    ⟨-, rfl⟩, h⟩ := h
  obtain ⟨-, -, -, hreserve⟩ := SystemProgram.initStakeAccount_rest h₁
  rw [hreserve] at htotal
  have hu : Decided accounts i j desired w account d r v share := {
    not_paused := by simpa using hpaused
    done := DelinquentUpgraderState.eq_done_of_isDone hdone
    account_eq := ha
    delegation_eq := hd
    record := hr
    record_key := hkey
    record_active := hactive
    not_emergency := hemergency
    validator := hv
    voter := hvoter
    updated := hstake
    min_le := hmin
    share_eq := ⟨total, htotal, hshare⟩ }
  refine ⟨account, d, r, v, share, hu, ?_⟩
  split at h
  · rename_i honTarget
    simp only [bind_eq_ok, pure_eq_ok] at h
    obtain ⟨c₂, h₂, rfl⟩ := h
    exact .onTarget honTarget (notUnstaked_of_return hu.not_paused h₁ h₂)
  · rename_i habove
    have habove' := Nat.lt_of_not_le habove
    split at h
    · rename_i hrest
      exact .whole habove' hrest (unstakeWhole_spec hu.toUnstakable h₁ h)
    · rename_i hrest
      obtain ⟨topUp, h⟩ := unstakePart_spec hu.toUnstakable hfunded h₁ h
      exact .part habove' (Nat.le_of_not_lt hrest) h

/-- Either nothing is unstaked, or the whole account, or a part that is split off. -/
theorem process_spec (h : accounts.process rt i j desired w = .ok w')
    (hfunded : w.Funded accounts.stakeAccount) :
    NotUnstaked [accounts.splitStakeRentPayer, accounts.splitStakeAccount] w w' ∨
      (∃ account d r v, UnstakedWhole [accounts.splitStakeRentPayer, accounts.splitStakeAccount]
        true accounts.stakeAccount i j w w' account d r v) ∨
      ∃ account d r v x topUp, UnstakedSplit rt true accounts.stakeAccount
        accounts.splitStakeAccount accounts.splitStakeRentPayer i j w w' account d r v
        x topUp := by
  obtain ⟨account, d, r, v, share, -, houtcome⟩ := process_cases h hfunded
  cases houtcome with
  | onTarget _ h => exact .inl h
  | whole _ _ h => exact .inr (.inl ⟨_, _, _, _, h⟩)
  | part _ _ h => exact .inr (.inr ⟨_, _, _, _, _, _, h⟩)

end

end PartialUnstake

end Marinade
