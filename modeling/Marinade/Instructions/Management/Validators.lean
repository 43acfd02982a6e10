import Marinade.Ownership

/-!
# Managing the validators

The validator manager decides which validators stake may go to and with which score. A flag account
whose address is derived from the vote address marks a validator as listed: it can be created only
once, which keeps a validator from being listed twice.
-/

open Foundation Foundation.Ledger

namespace Marinade

/-- The accounts of `add_validator`. -/
structure AddValidator where
  managerAuthority : Pubkey
  validatorVote : Pubkey
  duplicationFlag : Pubkey
  rentPayer : Pubkey
  deriving DecidableEq, Repr

/-- The accounts of `remove_validator`. -/
structure RemoveValidator where
  managerAuthority : Pubkey
  duplicationFlag : Pubkey
  operationalSolAccount : Pubkey
  deriving DecidableEq, Repr

/-- The accounts of `set_validator_score`. -/
structure SetValidatorScore where
  managerAuthority : Pubkey
  deriving DecidableEq, Repr

/-! ## Adding -/

namespace AddValidator

def process (rt : Runtime) (accounts : AddValidator) (score : ℕ) (w : World) :
    Except Error World := do
  let s := w.state
  ensure (accounts.managerAuthority = s.validatorSystem.managerAuthority) .constraint
  ensure (accounts.duplicationFlag = .duplicationFlag accounts.validatorVote) .constraint
  ensure (w.isUnused accounts.rentPayer) .constraint
  -- creating the flag fails when it exists
  ensure (!w.flags accounts.validatorVote) .constraint
  let chain ← SystemProgram.transfer w.toChain accounts.rentPayer accounts.duplicationFlag
    (rt.minimumBalance 0 - w.lamportsOf accounts.duplicationFlag)
  ensure (!s.paused) (.marinade .programIsPaused)
  ensure s.delinquentUpgrader.isDone (.marinade .delinquentUpgraderIsNotDone)
  let validatorSystem ← s.validatorSystem.add accounts.validatorVote score
    accounts.duplicationFlag
  return {
    toChain := { chain with flags := Function.update w.flags accounts.validatorVote true }
    state := { s with validatorSystem } }

/-- The effect of a successful addition. -/
structure Spec (accounts : AddValidator) (score : ℕ) (w w' : World) (topUp : ℕ) : Prop where
  not_paused : w.state.paused = false
  done : w.state.delinquentUpgrader = .done
  payer_unused : w.isUnused accounts.rentPayer = true
  not_flagged : w.flags accounts.validatorVote = false
  lamports_eq : ∀ k, w'.lamportsOf k + only accounts.rentPayer topUp k
    = w.lamportsOf k + only accounts.duplicationFlag topUp k
  capital_eq : w'.lamports.total = w.lamports.total
  flags_eq : w'.flags = Function.update w.flags accounts.validatorVote true
  validators_eq : w'.state.validatorSystem.records
    = w.state.validatorSystem.records ++ [⟨accounts.validatorVote, 0, score, epochMax, 0⟩]
  score_eq : w'.state.validatorSystem.totalValidatorScore
    = w.state.validatorSystem.totalValidatorScore + score
  state_eq : ∃ totalScore, w'.state = { w.state with
    validatorSystem := { w.state.validatorSystem with
      validatorList := w'.state.validatorSystem.validatorList
      totalValidatorScore := totalScore } }
  spares : w.SparesOthers [accounts.rentPayer] w'.toChain
  frame : w'.toChain = { w.toChain with lamports := w'.lamports, flags := w'.flags }

theorem process_spec {rt : Runtime} {accounts : AddValidator} {score : ℕ} {w w' : World}
    (h : accounts.process rt score w = .ok w') : ∃ topUp, Spec accounts score w w' topUp := by
  simp only [process, bind_eq_ok, ensure_eq_ok, pure_eq_ok, exists_const] at h
  obtain ⟨-, -, hpayer, hflag, c, hc, hpaused, hdone, vs, hvs, rfl⟩ := h
  have hspares : w.SparesOthers [accounts.rentPayer] c := fun U hU ↦
    SystemProgram.transfer_spares hc (Chain.not_owned_of_isUnused hU.not_head hpayer)
  obtain ⟨l, rfl, ht, -, hl⟩ := SystemProgram.transfer_spec hc
  obtain ⟨hvs, -, hvalidators⟩ := ValidatorSystem.add_eq_ok hvs
  exact ⟨_, {
    not_paused := by simpa using hpaused
    done := DelinquentUpgraderState.eq_done_of_isDone hdone
    payer_unused := hpayer
    not_flagged := by simpa using hflag
    lamports_eq := hl
    capital_eq := ht
    flags_eq := rfl
    validators_eq := hvalidators
    score_eq := by simp only; rw [hvs]
    state_eq := ⟨_, by simp only; rw [hvs]⟩
    spares := fun U hU ↦ { hspares U hU with }
    frame := rfl }⟩

end AddValidator

/-! ## Removing -/

namespace RemoveValidator

def process (rt : Runtime) (accounts : RemoveValidator) (index : ℕ) (validatorVote : Pubkey)
    (w : World) : Except Error World := do
  let s := w.state
  ensure (accounts.operationalSolAccount = s.operationalSolAccount) .constraint
  ensure (accounts.managerAuthority = s.validatorSystem.managerAuthority)
    (.marinade .invalidValidatorManager)
  ensure (accounts.duplicationFlag = .duplicationFlag validatorVote) .constraint
  ensure (w.flags validatorVote ∧
    rt.minimumBalance 0 ≤ w.lamportsOf accounts.duplicationFlag) .constraint
  ensure (!s.paused) (.marinade .programIsPaused)
  ensure s.delinquentUpgrader.isDone (.marinade .delinquentUpgraderIsNotDone)
  let validator ← s.validatorSystem.getChecked index validatorVote
  ensure (accounts.duplicationFlag = validator.duplicationFlagAddress)
    (.marinade .wrongValidatorDuplicationFlag)
  let validatorSystem ← s.validatorSystem.remove index validator
  -- taking all its lamports removes the flag
  let chain ← SystemProgram.transfer w.toChain accounts.duplicationFlag
    accounts.operationalSolAccount (w.lamportsOf accounts.duplicationFlag)
  return {
    toChain := { chain with flags := Function.update w.flags validatorVote false }
    state := { s with validatorSystem } }

/-- The effect of a successful removal. -/
structure Spec (accounts : RemoveValidator) (index : ℕ) (validatorVote : Pubkey) (w w' : World)
    (v : ValidatorRecord) : Prop where
  not_paused : w.state.paused = false
  done : w.state.delinquentUpgrader = .done
  flag : accounts.duplicationFlag = .duplicationFlag validatorVote
  validator : w.state.validatorSystem.records[index]? = some v
  validator_key : v.validatorAccount = validatorVote
  empty : v.activeBalance = 0
  lamports_eq : ∀ k, w'.lamportsOf k
      + only accounts.duplicationFlag (w.lamportsOf accounts.duplicationFlag) k
    = w.lamportsOf k
      + only accounts.operationalSolAccount (w.lamportsOf accounts.duplicationFlag) k
  capital_eq : w'.lamports.total = w.lamports.total
  flags_eq : w'.flags = Function.update w.flags validatorVote false
  validators_eq : w'.state.validatorSystem.records
    = swapRemove w.state.validatorSystem.records index
  score_eq : w'.state.validatorSystem.totalValidatorScore + v.score
    = w.state.validatorSystem.totalValidatorScore
  state_eq : ∃ totalScore, w'.state = { w.state with
    validatorSystem := { w.state.validatorSystem with
      validatorList := w'.state.validatorSystem.validatorList
      totalValidatorScore := totalScore } }
  spares : w.SparesOthers [] w'.toChain
  frame : w'.toChain = { w.toChain with lamports := w'.lamports, flags := w'.flags }

theorem process_spec {rt : Runtime} {accounts : RemoveValidator} {index : ℕ} {vote : Pubkey}
    {w w' : World} (h : accounts.process rt index vote w = .ok w') :
    ∃ v, Spec accounts index vote w w' v := by
  simp only [process, bind_eq_ok, ensure_eq_ok, pure_eq_ok, exists_const,
    ValidatorSystem.getChecked_eq_ok] at h
  obtain ⟨-, -, hflag, -, hpaused, hdone, v, ⟨hv, hkey⟩, -, vs, hvs, c, hc, rfl⟩ := h
  have hsign : accounts.duplicationFlag.canSign = false := hflag ▸ rfl
  have hspares : w.SparesOthers [] c := fun U _ ↦
    SystemProgram.transfer_spares hc (Chain.not_owned_of_not_canSign hsign)
  obtain ⟨l, rfl, ht, -, hl⟩ := SystemProgram.transfer_spec hc
  obtain ⟨hvs, hempty, hscore, hvalidators⟩ := ValidatorSystem.remove_eq_ok hvs
  exact ⟨v, {
    not_paused := by simpa using hpaused
    done := DelinquentUpgraderState.eq_done_of_isDone hdone
    flag := hflag
    validator := hv
    validator_key := hkey
    empty := hempty
    lamports_eq := hl
    capital_eq := ht
    flags_eq := rfl
    validators_eq := hvalidators
    score_eq := by simp only; rw [hvs]; exact Nat.sub_add_cancel hscore
    state_eq := ⟨_, by simp only; rw [hvs]⟩
    spares := fun U hU ↦ { hspares U hU with }
    frame := rfl }⟩

end RemoveValidator

/-! ## Scoring -/

namespace SetValidatorScore

def process (accounts : SetValidatorScore) (index : ℕ) (validatorVote : Pubkey) (score : ℕ)
    (w : World) : Except Error World := do
  let s := w.state
  ensure (accounts.managerAuthority = s.validatorSystem.managerAuthority)
    (.marinade .invalidValidatorManager)
  ensure (!s.paused) (.marinade .programIsPaused)
  let validator ← s.validatorSystem.getChecked index validatorVote
  let rest ← checkedSub .totalValidatorScore s.validatorSystem.totalValidatorScore
    validator.score
  let totalValidatorScore ← addUpTo u32Max rest score
  let validatorSystem ← { s.validatorSystem with totalValidatorScore }.set index
    { validator with score }
  return { w with state := { s with validatorSystem } }

/-- The effect of setting a score. -/
structure Spec (index score : ℕ) (w w' : World) (v : ValidatorRecord) : Prop where
  not_paused : w.state.paused = false
  validator : w.state.validatorSystem.records[index]? = some v
  validators_eq : w'.state.validatorSystem.records
    = w.state.validatorSystem.records.set index { v with score }
  score_eq : w'.state.validatorSystem.totalValidatorScore + v.score
    = w.state.validatorSystem.totalValidatorScore + score
  state_eq : ∃ totalScore, w'.state = { w.state with
    validatorSystem := { w.state.validatorSystem with
      validatorList := w'.state.validatorSystem.validatorList
      totalValidatorScore := totalScore } }
  frame : w'.toChain = w.toChain

theorem process_spec {accounts : SetValidatorScore} {index score : ℕ} {vote : Pubkey}
    {w w' : World} (h : accounts.process index vote score w = .ok w') :
    ∃ v, Spec index score w w' v := by
  simp only [process, bind_eq_ok, ensure_eq_ok, pure_eq_ok, exists_const, checkedSub_eq_ok,
    addUpTo_eq_ok, ValidatorSystem.getChecked_eq_ok] at h
  obtain ⟨-, hpaused, v, ⟨hv, -⟩, rest, ⟨hscore, rfl⟩, total, ⟨-, rfl⟩, vs, hvs, rfl⟩ := h
  obtain ⟨hvs, hvalidators⟩ := ValidatorSystem.set_eq_ok hvs
  exact ⟨v, {
    not_paused := by simpa using hpaused
    validator := hv
    validators_eq := hvalidators
    score_eq := by simp only; rw [hvs]; simp only; omega
    state_eq := ⟨_, by simp only; rw [hvs]⟩
    frame := rfl }⟩

end SetValidatorScore

end Marinade
