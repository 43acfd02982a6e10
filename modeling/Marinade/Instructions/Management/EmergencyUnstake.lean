import Marinade.Instructions.Unstaking

/-!
# Emergency unstake

The validator manager takes a whole stake account away from a validator whose score was set to
zero. What cools down that way is meant to be staked again and is not counted for tickets.
-/

open Foundation Foundation.Ledger

namespace Marinade

/-- The accounts of `emergency_unstake`. -/
structure EmergencyUnstake where
  validatorManagerAuthority : Pubkey
  stakeAccount : Pubkey
  deriving DecidableEq, Repr

namespace EmergencyUnstake

def process (accounts : EmergencyUnstake) (stakeIndex validatorIndex : ℕ) (w : World) :
    Except Error World := do
  let s := w.state
  ensure (accounts.validatorManagerAuthority = s.validatorSystem.managerAuthority)
    (.marinade .invalidValidatorManager)
  let stakeAccount ← orError (w.stakes accounts.stakeAccount) .constraint
  ensure (!s.paused) (.marinade .programIsPaused)
  ensure s.delinquentUpgrader.isDone (.marinade .delinquentUpgraderIsNotDone)
  let stake ← s.stakeSystem.getChecked stakeIndex accounts.stakeAccount
  requireActiveRecord stake
  let validator ← s.validatorSystem.get validatorIndex
  -- the score has to be set to 0 before this
  ensure (validator.score = 0) (.marinade .emergencyUnstakingFromNonZeroScoredValidator)
  checkStakeAmountAndValidator stakeAccount stake.lastUpdateDelegatedLamports
    validator.validatorAccount
  let unstakeAmount := stake.lastUpdateDelegatedLamports
  let s ← s.onStakeMoved unstakeAmount w.clock
  let chain ← StakeProgram.deactivate w.toChain accounts.stakeAccount .stakeDepositAuthority
  let state ← moveToEmergency stakeIndex validatorIndex { stake with
    isEmergencyUnstaking := true, lastUpdateStatus := .deactivating } validator unstakeAmount s
  return { toChain := chain, state }

/-- A whole account is unstaked. -/
theorem process_spec {accounts : EmergencyUnstake} {i j : ℕ} {w w' : World}
    (h : accounts.process i j w = .ok w') :
    ∃ account d r v, UnstakedWhole [] true accounts.stakeAccount i j w w' account d r v := by
  simp only [process, bind_eq_ok, ensure_eq_ok, orError_eq_ok, exists_const, pure_eq_ok,
    StakeSystem.getChecked_eq_ok, ValidatorSystem.get, AccountList.get_eq_ok,
    checkStakeAmountAndValidator_eq_ok, requireActiveRecord_eq_ok] at h
  obtain ⟨-, account, ha, hpaused, hdone, r, ⟨hr, hkey⟩, ⟨hactive, hemergency⟩, v, hv, -,
    ⟨d, hd, hvoter, hstake⟩, s, hs, c, hc, s', hs', rfl⟩ := h
  have hspares : w.SparesOthers [] c := fun U hU ↦
    StakeProgram.deactivate_spares hc (hU.not_program rfl)
  obtain ⟨a, d', ha', hd', -, hmax, rfl⟩ := StakeProgram.deactivate_spec hc
  obtain rfl : account = a := by simpa [ha] using ha'
  obtain rfl : d = d' := by simpa [hd] using hd'
  obtain ⟨-, -, rfl⟩ := State.onStakeMoved_iff.mp hs
  obtain ⟨hbalance, htotal, hrecords, hvalidators, hstate⟩ := moveToEmergency_spec hs'
  exact ⟨account, d, r, v, {
    not_paused := by simpa using hpaused
    done := DelinquentUpgraderState.eq_done_of_isDone hdone
    account_eq := ha
    delegation_eq := hd
    active := hmax
    record := hr
    record_key := hkey
    record_active := hactive
    not_emergency := hemergency
    validator := hv
    voter := hvoter
    updated := hstake
    validator_balance := hbalance
    total_balance := htotal
    validators_eq := hvalidators
    state_eq := ⟨w.state.stakeSystem.lastStakeDeltaEpoch, w.clock.epoch, _, hstate⟩
    delta_epoch := by rw [hstate]; rfl
    counted := fun _ ↦ counted_of_moveToEmergency hs rfl rfl rfl rfl hs'
    same_moves := fun h ↦ absurd h (by decide)
    capital_eq := rfl
    frame := rfl
    records_eq := hrecords
    stakes_eq := rfl
    guarded_le := fun _ _ ↦ le_rfl
    spares := hspares }⟩

end EmergencyUnstake

end Marinade
