import Marinade.Instructions.Crank.StakeReserve
import Marinade.Instructions.Unstaking

/-!
# Deactivate stake

When more is promised to tickets than the reserve holds or waits for, a bot unstakes the difference
in the last slots of an epoch, account by account. A large account is split and only the part that
is needed is deactivated.
-/

open Foundation Foundation.Ledger

namespace Marinade

/-- The accounts of `deactivate_stake`. -/
structure DeactivateStake where
  stakeAccount : Pubkey
  splitStakeAccount : Pubkey
  splitStakeRentPayer : Pubkey
  deriving DecidableEq, Repr

/-- The amount unstaked, if any. -/
structure DeactivateStakeEvent where
  unstakedAmount : Option ℕ
  deriving DecidableEq, Repr

namespace DeactivateStake

def returnUnusedSplitStakeAccountRent (accounts : DeactivateStake) (chain : Chain) :
    Except Error Chain :=
  StakeProgram.withdrawUninitialized chain accounts.splitStakeAccount accounts.splitStakeRentPayer

/-- Move `unstakedAmount` from active to cooling down and store both records. -/
def finish (stakeIndex validatorIndex : ℕ) (stake : StakeRecord) (validator : ValidatorRecord)
    (unstakedAmount : ℕ) (clock : Clock) (s : State) : Except Error State := do
  let activeBalance ←
    checkedSub .validatorActiveBalance validator.activeBalance unstakedAmount
  let totalActiveBalance ←
    checkedSub .totalActiveBalance s.validatorSystem.totalActiveBalance unstakedAmount
  let delayedUnstakeCoolingDown ←
    checkedAdd s.stakeSystem.delayedUnstakeCoolingDown unstakedAmount
  let stakeSystem ← { s.stakeSystem with
    lastStakeDeltaEpoch := clock.epoch, delayedUnstakeCoolingDown }.set stakeIndex stake
  let validatorSystem ← { s.validatorSystem with totalActiveBalance }.set validatorIndex
    { validator with activeBalance }
  return { s with stakeSystem, validatorSystem }

/-- Deactivate the account as it is. -/
def deactivateWhole (accounts : DeactivateStake) (stakeIndex validatorIndex : ℕ)
    (stake : StakeRecord) (validator : ValidatorRecord) (chain : Chain) (s : State) :
    Except Error (World × DeactivateStakeEvent) := do
  let chain ← StakeProgram.deactivate chain accounts.stakeAccount .stakeDepositAuthority
  let chain ← accounts.returnUnusedSplitStakeAccountRent chain
  let state ← finish stakeIndex validatorIndex { stake with lastUpdateStatus := .deactivating }
    validator stake.lastUpdateDelegatedLamports chain.clock s
  return ({ toChain := chain, state }, ⟨some stake.lastUpdateDelegatedLamports⟩)

/-- Deactivate a part of the account, once per validator and epoch. -/
def deactivatePart (rt : Runtime) (accounts : DeactivateStake) (stakeIndex validatorIndex : ℕ)
    (stake : StakeRecord) (validator : ValidatorRecord)
    (stakeAccountTarget totalUnstakeDelta : ℕ) (chain : Chain) (s : State) :
    Except Error (World × DeactivateStakeEvent) :=
  if validator.lastStakeDeltaEpoch = chain.clock.epoch then do
    let chain ← accounts.returnUnusedSplitStakeAccountRent chain
    return ({ toChain := chain, state := s }, ⟨none⟩)
  else do
    let splitAmount ← checkedSub .amount stake.lastUpdateDelegatedLamports stakeAccountTarget
    ensure (stakeAccountTarget < stake.lastUpdateDelegatedLamports ∧
      splitAmount ≤ totalUnstakeDelta) (.assertion .splitAmount)
    let stakeSystem ← s.stakeSystem.add accounts.splitStakeAccount splitAmount chain.clock false
      false
    let chain ← splitAndDeactivate rt chain accounts.stakeAccount accounts.splitStakeAccount
      splitAmount
    let left ← checkedSub .amount stake.lastUpdateDelegatedLamports splitAmount
    let state ← finish stakeIndex validatorIndex
      { stake with lastUpdateDelegatedLamports := left }
      { validator with lastStakeDeltaEpoch := chain.clock.epoch } splitAmount chain.clock
      { s with stakeSystem }
    return ({ toChain := chain, state }, ⟨some splitAmount⟩)

def process (rt : Runtime) (accounts : DeactivateStake) (stakeIndex validatorIndex : ℕ)
    (w : World) : Except Error (World × DeactivateStakeEvent) := do
  let stakeAccount ← orError (w.stakes accounts.stakeAccount) .constraint
  let chain ← SystemProgram.initStakeAccount rt w.toChain accounts.splitStakeRentPayer
    accounts.splitStakeAccount
  let s := w.state
  ensure (!s.paused) (.marinade .programIsPaused)
  let stake ← s.stakeSystem.getChecked stakeIndex accounts.stakeAccount
  ensure s.delinquentUpgrader.isDone (.marinade .delinquentUpgraderIsNotDone)
  requireActiveRecord stake
  let validator ← s.validatorSystem.get validatorIndex
  inStakeDeltaWindow rt chain.clock s
  let totalStakeDelta := s.stakeDelta (chain.lamportsOf .reserve)
  ensure (totalStakeDelta < 0) (.marinade .unstakingOnPositiveDelta)
  let totalUnstakeDelta ← stakeDeltaAmount totalStakeDelta
  let totalStakeTarget := s.validatorSystem.totalActiveBalance - totalUnstakeDelta
  checkStakeAmountAndValidator stakeAccount stake.lastUpdateDelegatedLamports
    validator.validatorAccount
  let validatorStakeTarget ←
    s.validatorSystem.validatorStakeTarget validator totalStakeTarget
  if validator.activeBalance ≤ validatorStakeTarget then
    let chain ← accounts.returnUnusedSplitStakeAccountRent chain
    return ({ toChain := chain, state := s }, ⟨none⟩)
  else
    let unstakeFromValidator := validator.activeBalance - validatorStakeTarget
    let stakeAccountTarget :=
      stake.lastUpdateDelegatedLamports - min unstakeFromValidator totalUnstakeDelta
    let twiceMinStake ← checkedMul 2 s.stakeSystem.minStake
    if stakeAccountTarget < twiceMinStake then
      accounts.deactivateWhole stakeIndex validatorIndex stake validator chain s
    else
      deactivatePart rt accounts stakeIndex validatorIndex stake validator stakeAccountTarget
        totalUnstakeDelta chain s

/-- How much there is to unstake, if anything. -/
def totalUnstakeDelta (w : World) : ℕ :=
  (-w.state.stakeDelta (w.lamportsOf .reserve)).toNat

/-- How much of it a validator with more than its target is asked for. -/
def unstakeAmount (w : World) (v : ValidatorRecord) (validatorStakeTarget : ℕ) : ℕ :=
  min (v.activeBalance - validatorStakeTarget) (totalUnstakeDelta w)

/-- The checks have passed for the record `r` and the validator `v`, whose target is `share`. -/
structure Decided (accounts : DeactivateStake) (i j : ℕ) (w : World) (account : StakeAccount)
    (d : Delegation) (r : StakeRecord) (v : ValidatorRecord) (share : ℕ) : Prop
    extends Unstakable accounts.stakeAccount i j w account d r v where
  delta_pos : 0 < totalUnstakeDelta w
  share_eq : w.state.validatorSystem.validatorStakeTarget v
    (w.state.validatorSystem.totalActiveBalance - totalUnstakeDelta w) = .ok share

/-- What happens then, and what is reported: nothing to a validator on its target, the whole account
is unstaked where too little would be left, and otherwise a part, once per validator and epoch. -/
inductive Outcome (rt : Runtime) (accounts : DeactivateStake) (i j : ℕ) (w w' : World)
    (account : StakeAccount) (d : Delegation) (r : StakeRecord) (v : ValidatorRecord)
    (share : ℕ) : Option ℕ → Prop
  | onTarget (honTarget : v.activeBalance ≤ share)
      (h : NotUnstaked [accounts.splitStakeRentPayer, accounts.splitStakeAccount] w w') :
      Outcome rt accounts i j w w' account d r v share none
  | repeated (habove : share < v.activeBalance)
      (hrest : 2 * w.state.stakeSystem.minStake
        ≤ r.lastUpdateDelegatedLamports - unstakeAmount w v share)
      (hrepeated : v.lastStakeDeltaEpoch = w.clock.epoch)
      (h : NotUnstaked [accounts.splitStakeRentPayer, accounts.splitStakeAccount] w w') :
      Outcome rt accounts i j w w' account d r v share none
  | whole (habove : share < v.activeBalance)
      (hrest : r.lastUpdateDelegatedLamports - unstakeAmount w v share
        < 2 * w.state.stakeSystem.minStake)
      (h : UnstakedWhole [accounts.splitStakeRentPayer, accounts.splitStakeAccount] false
        accounts.stakeAccount i j w w' account d r v) :
      Outcome rt accounts i j w w' account d r v share (some r.lastUpdateDelegatedLamports)
  | part {topUp : ℕ} (habove : share < v.activeBalance)
      (hrest : 2 * w.state.stakeSystem.minStake
        ≤ r.lastUpdateDelegatedLamports - unstakeAmount w v share)
      (hfirst : v.lastStakeDeltaEpoch ≠ w.clock.epoch)
      (h : UnstakedSplit rt false accounts.stakeAccount accounts.splitStakeAccount
        accounts.splitStakeRentPayer i j w w' account d r v (unstakeAmount w v share) topUp) :
      Outcome rt accounts i j w w' account d r v share (some (unstakeAmount w v share))

section

variable {rt : Runtime} {accounts : DeactivateStake} {w w' : World} {c c' : Chain} {s s' : State}
  {i j x target delta : ℕ} {r : StakeRecord} {v : ValidatorRecord} {e : DeactivateStakeEvent}
  {account : StakeAccount} {d : Delegation} {clock : Clock}

private theorem finish_spec (h : finish i j r v x clock s = .ok s') :
    x ≤ v.activeBalance ∧ x ≤ s.validatorSystem.totalActiveBalance ∧
    s'.stakeSystem.records = s.stakeSystem.records.set i r ∧
    s'.validatorSystem.records
      = s.validatorSystem.records.set j { v with activeBalance := v.activeBalance - x } ∧
    s' = { s with
      validatorSystem := { s.validatorSystem with
        validatorList := s'.validatorSystem.validatorList
        totalActiveBalance := s.validatorSystem.totalActiveBalance - x }
      stakeSystem := { s.stakeSystem with
        stakeList := s'.stakeSystem.stakeList
        delayedUnstakeCoolingDown := s.stakeSystem.delayedUnstakeCoolingDown + x
        lastStakeDeltaEpoch := clock.epoch } } := by
  simp only [finish, bind_eq_ok, checkedSub_eq_ok, checkedAdd_eq_ok, pure_eq_ok] at h
  obtain ⟨active, ⟨hv, rfl⟩, total, ⟨ht, rfl⟩, delayed, ⟨-, rfl⟩, ss, hss, vs, hvs, rfl⟩ := h
  obtain ⟨hss, hrecords⟩ := StakeSystem.set_eq_ok hss
  obtain ⟨hvs, hvalidators⟩ := ValidatorSystem.set_eq_ok hvs
  refine ⟨hv, ht, hrecords, hvalidators, ?_⟩
  simp only
  rw [hss, hvs]

private theorem deactivateWhole_spec (hc : Unstakable accounts.stakeAccount i j w account d r v)
    (h₁ : SystemProgram.initStakeAccount rt w.toChain accounts.splitStakeRentPayer
      accounts.splitStakeAccount = .ok c)
    (h : accounts.deactivateWhole i j r v c w.state = .ok (w', e)) :
    e.unstakedAmount = some r.lastUpdateDelegatedLamports ∧
      UnstakedWhole [accounts.splitStakeRentPayer, accounts.splitStakeAccount] false
        accounts.stakeAccount i j w w' account d r v := by
  simp only [deactivateWhole, returnUnusedSplitStakeAccountRent, bind_eq_ok, pure_eq_ok] at h
  obtain ⟨c₂, h₂, c₃, h₃, s, hs, hw⟩ := h
  obtain ⟨rfl, rfl⟩ := Prod.mk.inj hw
  have hspares := StakeProgram.return_unused_spares h₁
    (fun U hU ↦ StakeProgram.deactivate_spares h₂ (hU.not_program rfl)) h₃
  obtain ⟨a, d', ha, hd, -, hmax, rfl⟩ := StakeProgram.deactivate_spec h₂
  obtain ⟨-, hunused, found, l, ht, hl, rfl⟩ := StakeProgram.return_unused_spec h₁ (by rfl) h₃
  obtain ⟨-, -, -, -, l₁, -, -, -, rfl⟩ := SystemProgram.initStakeAccount_spec h₁
  obtain rfl : account = a := by simpa [hc.account_eq] using ha
  obtain rfl : d = d' := by simpa [hc.delegation_eq] using hd
  obtain ⟨hv, htotal, hrecords, hvalidators, hstate⟩ := finish_spec hs
  exact ⟨rfl, {
    hc with
    active := hmax
    validator_balance := hv
    total_balance := htotal
    validators_eq := hvalidators
    state_eq := ⟨_, w.state.lastStakeMoveEpoch, w.state.stakeMoved, hstate⟩
    delta_epoch := by rw [hstate]; rfl
    counted := fun h ↦ absurd h (by decide)
    same_moves := fun _ ↦ by rw [hstate]; exact .refl
    capital_eq := ht
    frame := rfl
    records_eq := by rw [← hc.not_emergency]; exact hrecords
    stakes_eq := rfl
    guarded_le := fun k hk ↦ guarded_le_of_return_unused hunused hl hk
    spares := hspares }⟩

/-- The part that is split off is what the target of the account leaves over. -/
private theorem deactivatePart_spec (hc : Unstakable accounts.stakeAccount i j w account d r v)
    (hfunded : w.Funded accounts.stakeAccount)
    (h₁ : SystemProgram.initStakeAccount rt w.toChain accounts.splitStakeRentPayer
      accounts.splitStakeAccount = .ok c)
    (h : deactivatePart rt accounts i j r v (r.lastUpdateDelegatedLamports - x) delta c w.state
      = .ok (w', e)) :
    (v.lastStakeDeltaEpoch = w.clock.epoch ∧ e.unstakedAmount = none ∧
        NotUnstaked [accounts.splitStakeRentPayer, accounts.splitStakeAccount] w w') ∨
      (v.lastStakeDeltaEpoch ≠ w.clock.epoch ∧ e.unstakedAmount = some x ∧
        ∃ topUp, UnstakedSplit rt false accounts.stakeAccount accounts.splitStakeAccount
          accounts.splitStakeRentPayer i j w w' account d r v x topUp) := by
  obtain ⟨hstakes, -, hclock, -⟩ := SystemProgram.initStakeAccount_rest h₁
  unfold deactivatePart at h
  split at h
  · rename_i hrepeated
    rw [hclock] at hrepeated
    simp only [bind_eq_ok, pure_eq_ok] at h
    obtain ⟨c₂, h₂, hw⟩ := h
    obtain ⟨rfl, rfl⟩ := Prod.mk.inj hw
    exact .inl ⟨hrepeated, rfl, notUnstaked_of_return hc.not_paused h₁ h₂⟩
  · rename_i hfirst
    rw [hclock] at hfirst
    simp only [bind_eq_ok, checkedSub_eq_ok, ensure_eq_ok, pure_eq_ok, exists_const] at h
    obtain ⟨amount, ⟨-, hamount⟩, -, ss, hss, c₂, h₂, left, ⟨-, rfl⟩, s, hs, hw⟩ := h
    obtain ⟨rfl, rfl⟩ := Prod.mk.inj hw
    have hupdated := hc.updated
    have hspares := splitAndDeactivate_spares h₁ h₂
    obtain ⟨hpayer, hunused, hpos, hlt, hmax, topUp, l, hcov, ht, hl, rfl⟩ :=
      splitAndDeactivate_spec h₁ rfl hstakes h₂ hfunded hc.account_eq hc.delegation_eq (by omega)
    obtain rfl : amount = x := by omega
    obtain ⟨-, -, -, -, l₁, -, -, -, rfl⟩ := SystemProgram.initStakeAccount_spec h₁
    obtain ⟨hv, htotal, hrecords, hvalidators, hstate⟩ := finish_spec hs
    obtain ⟨hss, hadded⟩ := StakeSystem.add_eq_ok hss
    rw [hss] at hstate
    refine .inr ⟨hfirst, rfl, topUp, {
      hc with
      active := hmax
      validator_balance := hv
      total_balance := htotal
      validators_eq := hvalidators
      state_eq := ⟨_, w.state.lastStakeMoveEpoch, w.state.stakeMoved, hstate⟩
      delta_epoch := by rw [hstate]; rfl
      counted := fun h ↦ absurd h (by decide)
      same_moves := fun _ ↦ by rw [hstate]; exact .refl
      first := fun _ ↦ hfirst
      capital_eq := ht
      frame := rfl
      split_pos := hpos
      split_lt := by omega
      payer_unused := hpayer
      split_unused := hunused
      rent_covered := hcov
      records_eq := by rw [← hadded]; exact hrecords
      stakes_eq := rfl
      lamports_eq := hl
      spares := hspares }⟩

/-- What a successful call has decided, and what came of it. -/
theorem process_cases (h : accounts.process rt i j w = .ok (w', e))
    (hfunded : w.Funded accounts.stakeAccount) :
    ∃ account d r v share, Decided accounts i j w account d r v share ∧
      Outcome rt accounts i j w w' account d r v share e.unstakedAmount := by
  simp only [process, bind_eq_ok, ensure_eq_ok, orError_eq_ok, exists_const,
    StakeSystem.getChecked_eq_ok, ValidatorSystem.get, AccountList.get_eq_ok,
    checkStakeAmountAndValidator_eq_ok, requireActiveRecord_eq_ok] at h
  obtain ⟨account, ha, c, h₁, hpaused, r, ⟨hr, hkey⟩, hdone, ⟨hactive, hemergency⟩, v, hv, -,
    -, hneg, delta, hdelta, ⟨d, hd, hvoter, hstake⟩, share, hshare, h⟩ := h
  obtain ⟨-, -, -, hreserve⟩ := SystemProgram.initStakeAccount_rest h₁
  rw [hreserve] at hneg hdelta
  obtain ⟨hpos, rfl⟩ : 0 < totalUnstakeDelta w ∧ delta = totalUnstakeDelta w := by
    have heq := stakeDeltaAmount_eq_ok hdelta
    rw [totalUnstakeDelta]
    omega
  have hc : Decided accounts i j w account d r v share := {
    not_paused := by simpa using hpaused
    done := DelinquentUpgraderState.eq_done_of_isDone hdone
    account_eq := ha
    delegation_eq := hd
    record := hr
    record_key := hkey
    record_active := hactive
    not_emergency := hemergency
    validator := hv
    voter := hvoter
    updated := hstake
    delta_pos := hpos
    share_eq := hshare }
  refine ⟨account, d, r, v, share, hc, ?_⟩
  split at h
  · rename_i honTarget
    simp only [bind_eq_ok, pure_eq_ok] at h
    obtain ⟨c₂, h₂, hw⟩ := h
    obtain ⟨rfl, rfl⟩ := Prod.mk.inj hw
    exact .onTarget honTarget (notUnstaked_of_return hc.not_paused h₁ h₂)
  · rename_i habove
    have habove' := Nat.lt_of_not_le habove
    simp only [bind_eq_ok, checkedMul_eq_ok] at h
    obtain ⟨twice, ⟨-, rfl⟩, h⟩ := h
    split at h
    · rename_i hrest
      obtain ⟨he, hspec⟩ := deactivateWhole_spec hc.toUnstakable h₁ h
      rw [he]
      exact .whole habove' hrest hspec
    · rename_i hrest
      have hrest' := Nat.le_of_not_lt hrest
      rcases deactivatePart_spec hc.toUnstakable hfunded h₁ h with
        ⟨hrepeated, he, hspec⟩ | ⟨hfirst, he, topUp, hspec⟩
      · rw [he]
        exact .repeated habove' hrest' hrepeated hspec
      · rw [he]
        exact .part habove' hrest' hfirst hspec

/-- Either nothing is unstaked, or the whole account, or a part that is split off. -/
theorem process_spec (h : accounts.process rt i j w = .ok (w', e))
    (hfunded : w.Funded accounts.stakeAccount) :
    (e.unstakedAmount = none ∧
        NotUnstaked [accounts.splitStakeRentPayer, accounts.splitStakeAccount] w w') ∨
      (∃ account d r v, UnstakedWhole [accounts.splitStakeRentPayer, accounts.splitStakeAccount]
        false accounts.stakeAccount i j w w' account d r v) ∨
      ∃ account d r v x topUp, UnstakedSplit rt false accounts.stakeAccount
        accounts.splitStakeAccount accounts.splitStakeRentPayer i j w w' account d r v x topUp := by
  obtain ⟨account, d, r, v, share, -, houtcome⟩ := process_cases h hfunded
  generalize e.unstakedAmount = amount at houtcome
  cases houtcome with
  | onTarget _ h => exact .inl ⟨rfl, h⟩
  | repeated _ _ _ h => exact .inl ⟨rfl, h⟩
  | whole _ _ h => exact .inr (.inl ⟨_, _, _, _, h⟩)
  | part _ _ _ h => exact .inr (.inr ⟨_, _, _, _, _, _, h⟩)

end

end DeactivateStake

end Marinade
