import Marinade.Checks
import Marinade.Ownership

/-!
# Withdraw a stake account

The user gives mSOL and gets a part of one of the pool's active stake accounts, split off and passed
to a beneficiary. What the fee keeps back is left in the pool; the mSOL for it goes to the treasury.
-/

open Foundation Foundation.Ledger

namespace Marinade

/-- The accounts of `withdraw_stake_account`. -/
structure WithdrawStakeAccount where
  burnMsolFrom : Pubkey
  burnMsolAuthority : Pubkey
  stakeAccount : Pubkey
  splitStakeAccount : Pubkey
  splitStakeRentPayer : Pubkey
  deriving DecidableEq, Repr

structure WithdrawStakeAccountEvent where
  msolBurned : ℕ
  msolFees : ℕ
  splitStake : Pubkey
  splitLamports : ℕ
  deriving DecidableEq, Repr

namespace WithdrawStakeAccount

/-- The mSOL that pays for nothing goes to the treasury, if it takes any. -/
def msolFees (w : World) (msolAmount splitLamports : ℕ) : Except Error ℕ :=
  if w.getTreasuryMsolBalance.isSome then do
    let worth ← w.state.calcMsolFromLamports splitLamports
    return msolAmount - worth
  else .ok 0

def burn (accounts : WithdrawStakeAccount) (msolBurned : ℕ) (w : World) : Except Error World :=
  if 0 < msolBurned then do
    let msol ← w.msol.burn accounts.burnMsolFrom accounts.burnMsolAuthority msolBurned
    let state ← w.state.onMsolBurn msolBurned
    return { w with msol, state }
  else .ok w

def process (rt : Runtime) (accounts : WithdrawStakeAccount)
    (stakeIndex validatorIndex msolAmount : ℕ) (beneficiary : Pubkey) (w : World) :
    Except Error (World × WithdrawStakeAccountEvent) := do
  let burnMsolFrom ← orError (w.msol.holder accounts.burnMsolFrom) .constraint
  ensure accounts.burnMsolAuthority.canSign .constraint
  let stakeAccount ← orError (w.stakes accounts.stakeAccount) .constraint
  let chain ← SystemProgram.initStakeAccount rt w.toChain accounts.splitStakeRentPayer
    accounts.splitStakeAccount
  let s := w.state
  ensure (!s.paused) (.marinade .programIsPaused)
  ensure s.withdrawStakeAccountEnabled (.marinade .withdrawStakeAccountIsNotEnabled)
  ensure s.delinquentUpgrader.isDone (.marinade .delinquentUpgraderIsNotDone)
  let _ ← s.totalVirtualStakedLamports
  checkTokenSourceAccount burnMsolFrom (w.msol.amount accounts.burnMsolFrom)
    accounts.burnMsolAuthority msolAmount
  let stake ← s.stakeSystem.getChecked stakeIndex accounts.stakeAccount
  ensure (stake.lastUpdateStatus = .active) (.marinade .requiredActiveStake)
  ensure (!stake.isEmergencyUnstaking) (.marinade .stakeAccountIsEmergencyUnstaking)
  let delegation ← orError stakeAccount.delegation (.marinade .requiredDelegatedStake)
  ensure (delegation.deactivationEpoch = epochMax) (.marinade .requiredActiveStake)
  let validator ← s.validatorSystem.get validatorIndex
  checkStakeAmountAndValidator stakeAccount stake.lastUpdateDelegatedLamports
    validator.validatorAccount
  let solValue ← s.msolToSol msolAmount
  ensure (s.minWithdraw ≤ solValue) (.marinade .withdrawAmountIsTooLow)
  let splitLamports ← checkedSub .amount solValue (s.withdrawStakeAccountFee.apply solValue)
  ensure (s.stakeSystem.minStake ≤ splitLamports) (.marinade .withdrawStakeLamportsIsTooLow)
  ensure (splitLamports ≤ stake.lastUpdateDelegatedLamports)
    (.marinade .selectedStakeAccountHasNotEnoughFunds)
  ensure (s.stakeSystem.minStake ≤ stake.lastUpdateDelegatedLamports - splitLamports)
    (.marinade .stakeAccountRemainderTooLow)
  let msolFees ← msolFees w msolAmount splitLamports
  let msolBurned ← checkedSub .amount msolAmount msolFees
  let msol ← chain.msol.transferSome accounts.burnMsolFrom s.treasuryMsolAccount
    accounts.burnMsolAuthority msolFees
  let w ← accounts.burn msolBurned { toChain := { chain with msol }, state := s }
  let chain ← StakeProgram.split rt w.toChain accounts.stakeAccount accounts.splitStakeAccount
    .stakeDepositAuthority splitLamports
  let s := w.state
  let left ← checkedSub .amount stake.lastUpdateDelegatedLamports splitLamports
  let activeBalance ← checkedSub .validatorActiveBalance validator.activeBalance splitLamports
  let totalActiveBalance ←
    checkedSub .totalActiveBalance s.validatorSystem.totalActiveBalance splitLamports
  let stakeSystem ← s.stakeSystem.set stakeIndex { stake with lastUpdateDelegatedLamports := left }
  let validatorSystem ← { s.validatorSystem with totalActiveBalance }.set validatorIndex
    { validator with activeBalance }
  -- the new account goes to the beneficiary
  let chain ← StakeProgram.authorizeStaker chain accounts.splitStakeAccount
    .stakeWithdrawAuthority beneficiary
  let chain ← StakeProgram.authorizeWithdrawer chain accounts.splitStakeAccount
    .stakeWithdrawAuthority beneficiary
  return ({ toChain := chain, state := { s with stakeSystem, validatorSystem } }, {
    msolBurned, msolFees, splitStake := accounts.splitStakeAccount, splitLamports })

/-- The effect of a successful withdrawal from the record `r` of an account with delegation `d` to
the validator `v`. `topUp` is what the payer adds to the new account for its rent. -/
structure Spec (rt : Runtime) (accounts : WithdrawStakeAccount)
    (stakeIndex validatorIndex msolAmount : ℕ) (beneficiary : Pubkey) (w w' : World)
    (e : WithdrawStakeAccountEvent) (account : StakeAccount) (d : Delegation)
    (r : StakeRecord) (v : ValidatorRecord) (topUp : ℕ) : Prop where
  not_paused : w.state.paused = false
  done : w.state.delinquentUpgrader = .done
  payer_unused : w.isUnused accounts.splitStakeRentPayer = true
  split_unused : w.isUnused accounts.splitStakeAccount = true
  account_eq : w.stakes accounts.stakeAccount = some account
  delegation_eq : account.delegation = some d
  active : d.deactivationEpoch = epochMax
  record : w.state.stakeSystem.records[stakeIndex]? = some r
  record_key : r.stakeAccount = accounts.stakeAccount
  record_active : r.lastUpdateStatus = .active
  validator : w.state.validatorSystem.records[validatorIndex]? = some v
  voter : d.voterPubkey = v.validatorAccount
  updated : d.stake = r.lastUpdateDelegatedLamports
  worth : ∃ value, proportional msolAmount w.state.virtualStaked w.state.msolSupply = .ok value ∧
    e.splitLamports + w.state.withdrawStakeAccountFee.apply value = value
  min_stake : w.state.stakeSystem.minStake ≤ e.splitLamports
  remainder : w.state.stakeSystem.minStake + e.splitLamports ≤ r.lastUpdateDelegatedLamports
  split_pos : 0 < e.splitLamports
  fees_eq : msolFees w msolAmount e.splitLamports = .ok e.msolFees
  paid : e.msolFees + e.msolBurned = msolAmount
  burned_le : e.msolBurned ≤ w.state.msolSupply
  fees_to_treasury : accounts.burnMsolFrom ≠ w.state.treasuryMsolAccount →
    msolAmount ≤ w.msol.amount accounts.burnMsolFrom
  validator_balance : e.splitLamports ≤ v.activeBalance
  total_balance : e.splitLamports ≤ w.state.validatorSystem.totalActiveBalance
  rent_covered : rt.stakeRent + e.splitLamports ≤ w'.lamportsOf accounts.splitStakeAccount
  records_eq : w'.state.stakeSystem.records = w.state.stakeSystem.records.set stakeIndex
    { r with
      lastUpdateDelegatedLamports := r.lastUpdateDelegatedLamports - e.splitLamports }
  validators_eq : w'.state.validatorSystem.records
    = w.state.validatorSystem.records.set validatorIndex
      { v with activeBalance := v.activeBalance - e.splitLamports }
  lamports_eq : ∀ k, w'.lamportsOf k + only accounts.splitStakeRentPayer topUp k
      + only accounts.stakeAccount e.splitLamports k
    = w.lamportsOf k + only accounts.splitStakeAccount (topUp + e.splitLamports) k
  capital_eq : w'.lamports.total = w.lamports.total
  supply_eq : w'.msol.supply + e.msolBurned = w.msol.supply
  amount_eq : ∀ k, w'.msol.amount k + only accounts.burnMsolFrom msolAmount k
    = w.msol.amount k + only w.state.treasuryMsolAccount e.msolFees k
  leg_le : w.msol.amount .msolLeg ≤ w'.msol.amount .msolLeg
  stakes_eq : w'.stakes = Function.update (Function.update w.stakes accounts.stakeAccount
      (some { account with
        delegation := some { d with stake := d.stake - e.splitLamports } }))
    accounts.splitStakeAccount (some ⟨⟨rt.stakeRent, beneficiary, beneficiary,
      account.stakeMeta.lockup⟩, some { d with stake := e.splitLamports }⟩)
  state_eq : w'.state = { w.state with
    stakeSystem := { w.state.stakeSystem with stakeList := w'.state.stakeSystem.stakeList }
    validatorSystem := { w.state.validatorSystem with
      validatorList := w'.state.validatorSystem.validatorList
      totalActiveBalance := w.state.validatorSystem.totalActiveBalance - e.splitLamports }
    msolSupply := w.state.msolSupply - e.msolBurned }
  spares : w.SparesOthers [accounts.burnMsolAuthority, accounts.splitStakeRentPayer,
    accounts.splitStakeAccount] w'.toChain
  frame : w'.toChain = { w.toChain with
    lamports := w'.lamports, msol := w'.msol, stakes := w'.stakes }

section

variable {rt : Runtime} {accounts : WithdrawStakeAccount} {w w' : World} {i j x : ℕ}
  {beneficiary : Pubkey} {e : WithdrawStakeAccountEvent}

theorem burn_spec (h : accounts.burn x w = .ok w') :
    w.SparesOthers [accounts.burnMsolAuthority] w'.toChain ∧ ∃ msol, w' = { w with
        msol := msol
        state := { w.state with msolSupply := w.state.msolSupply - x } } ∧
      msol.supply + x = w.msol.supply ∧ x ≤ w.msol.amount accounts.burnMsolFrom ∧
      x ≤ w.state.msolSupply ∧
      (∀ k, msol.amount k + only accounts.burnMsolFrom x k = w.msol.amount k) ∧
      (legVault accounts.burnMsolFrom = some .msolLegAuthority → 0 < x →
        accounts.burnMsolAuthority = .msolLegAuthority) := by
  unfold burn at h
  split at h
  · simp only [bind_eq_ok, State.onMsolBurn_eq_ok, pure_eq_ok] at h
    obtain ⟨msol, hburn, state, ⟨hle, rfl⟩, rfl⟩ := h
    obtain ⟨hs, hb, ha, hv⟩ := TokenMint.burn_spec hburn
    exact ⟨fun U hU ↦ .of_msol (TokenMint.burn_spares hburn hU.not_head), msol, rfl, hs, hb, hle,
      ha, fun ho _ ↦ hv _ ho⟩
  · cases h
    obtain rfl : x = 0 := by omega
    exact ⟨.refl _, w.msol, rfl, rfl, Nat.zero_le _, Nat.zero_le _, by simp,
      fun _ h0 ↦ absurd h0 (lt_irrefl 0)⟩

theorem process_spec (h : accounts.process rt i j x beneficiary w = .ok (w', e))
    (hfunded : w.Funded accounts.stakeAccount) :
    ∃ account d r v topUp, Spec rt accounts i j x beneficiary w w' e account d r v topUp := by
  simp only [process, bind_eq_ok, ensure_eq_ok, orError_eq_ok, checkedSub_eq_ok, pure_eq_ok,
    exists_const, StakeSystem.getChecked_eq_ok, ValidatorSystem.get, AccountList.get_eq_ok,
    checkStakeAmountAndValidator_eq_ok, State.msolToSol_eq_ok] at h
  obtain ⟨holder, -, hsign, account, ha, c₁, h₁, hpaused, -, hdone, _, -, -, -, r, ⟨hr, hkey⟩,
    hactive, -, d, hd, hdact, v, hv, ⟨d', hd', hvoter, hstake⟩, value, ⟨-, hvalue⟩, -, split,
    ⟨hfee, rfl⟩, hmin, hsplit, hrem, fees, hfees, h⟩ := h
  obtain ⟨burned, ⟨hburned, rfl⟩, msol, hmsol, w₁, hw₁, c₂, h₂, h⟩ := h
  obtain ⟨left, ⟨-, rfl⟩, active, ⟨hvbal, rfl⟩, total, ⟨htotal, rfl⟩, ss, hss, vs, hvs, c₃, h₃,
    c₄, h₄, hw⟩ := h
  cases hw
  obtain ⟨hs₀, hle₀, ha₀, hv₀⟩ := TokenMint.transferSome_spec hmsol
  obtain ⟨hburn, m₁, rfl, hs₁, hle₁, hsup₁, ha₁, hv₁⟩ := burn_spec hw₁
  have hspares : w.SparesOthers [accounts.burnMsolAuthority, accounts.splitStakeRentPayer,
      accounts.splitStakeAccount] c₄ := by
    intro U hU
    have hnone : c₁.stakes accounts.splitStakeAccount = none := by
      obtain ⟨hstakes, hnone, -⟩ := SystemProgram.initStakeAccount_rest h₁
      rw [hstakes, hnone]
    have hinit := SystemProgram.initStakeAccount_spares h₁ (hU.not_signer _ (by simp))
    have hfee := Chain.Spares.of_msol (TokenMint.transferSome_spares hmsol hU.not_head)
    have hburned := hburn U ⟨hU.can_sign, fun k hk ↦ hU.not_signer k (by simp_all)⟩
    have hpart := StakeProgram.split_spares h₂ (hU.not_program rfl)
      (Chain.not_owned_of_stakes_none (hU.not_signer _ (by simp)) hnone)
    have hstaker := StakeProgram.authorizeStaker_spares h₃ (hU.not_program rfl)
    have hwithdrawer := StakeProgram.authorizeWithdrawer_spares h₄ (hU.not_program rfl)
    exact ((((hinit.trans hfee).trans hburned).trans hpart).trans hstaker).trans hwithdrawer
  obtain rfl : d = d' := by simpa [hd] using hd'
  obtain ⟨l₁, rfl⟩ : ∃ l, c₁ = { w.toChain with lamports := l } := by
    obtain ⟨-, -, -, -, l₁, -, -, -, rfl⟩ := SystemProgram.initStakeAccount_spec h₁
    exact ⟨l₁, rfl⟩
  obtain ⟨hpayer, hunused, hstaker, hpos, hlt, topUp, l₂, hcov, ht₂, hl₂, rfl⟩ :=
    StakeProgram.split_new_spec h₁ (by rfl) (by rfl) h₂ hfunded ha hd (by omega)
  obtain ⟨a₃, ha₃, rfl⟩ := StakeProgram.authorizeStaker_spec h₃
  obtain ⟨a₄, ha₄, -, rfl⟩ := StakeProgram.authorizeWithdrawer_spec h₄
  simp only [Function.update_self, Chain.setStake, Option.some.injEq] at ha₃ ha₄
  subst ha₃ ha₄
  obtain ⟨hss, hrecords⟩ := StakeSystem.set_eq_ok hss
  obtain ⟨hvs, hvalidators⟩ := ValidatorSystem.set_eq_ok hvs
  have hfeesle : fees ≤ x := hburned
  refine ⟨account, d, r, v, topUp, {
    not_paused := by simpa using hpaused
    done := DelinquentUpgraderState.eq_done_of_isDone hdone
    payer_unused := hpayer
    split_unused := hunused
    account_eq := ha
    delegation_eq := hd
    active := hdact
    record := hr
    record_key := hkey
    record_active := hactive
    validator := hv
    voter := hvoter
    updated := hstake
    worth := ⟨value, hvalue, Nat.sub_add_cancel hfee⟩
    min_stake := hmin
    remainder := by simp only; omega
    split_pos := hpos
    fees_eq := hfees
    paid := Nat.add_sub_cancel' hburned
    burned_le := hsup₁
    fees_to_treasury := fun hne ↦ ?_
    validator_balance := hvbal
    total_balance := htotal
    rent_covered := hcov
    records_eq := hrecords
    validators_eq := hvalidators
    lamports_eq := hl₂
    capital_eq := ht₂
    supply_eq := hs₁.trans hs₀
    amount_eq := fun k ↦ ?_
    leg_le := ?_
    stakes_eq := ?_
    state_eq := ?_
    spares := hspares
    frame := ?_ }⟩
  · -- the fees left the account before the rest was burned
    have hk := ha₀ accounts.burnMsolFrom
    rw [only_self, only_of_ne hne] at hk
    simp only [TokenMint.amount] at *
    omega
  · have hall := only_add accounts.burnMsolFrom k fees (x - fees)
    rw [Nat.add_sub_cancel' hfeesle] at hall
    have e₀ : msol.amount k + _ = w.msol.amount k + _ := ha₀ k
    have e₁ : m₁.amount k + _ = msol.amount k := ha₁ k
    change m₁.amount k + only accounts.burnMsolFrom x k
      = w.msol.amount k + only w.state.treasuryMsolAccount fees k
    omega
  · -- nobody signs for the owner of the leg
    have e₀ : msol.amount .msolLeg + _ = w.msol.amount .msolLeg + _ := ha₀ .msolLeg
    have e₁ : m₁.amount .msolLeg + _ = msol.amount .msolLeg := ha₁ .msolLeg
    have hzero : only accounts.burnMsolFrom fees .msolLeg = 0 ∧
        only accounts.burnMsolFrom (x - fees) .msolLeg = 0 := by
      by_cases heq : Pubkey.msolLeg = accounts.burnMsolFrom
      · have hno : accounts.burnMsolAuthority ≠ .msolLegAuthority := fun h ↦ by
          rw [h] at hsign
          cases hsign
        have hf : ¬0 < fees := fun h ↦ hno (hv₀ _ (by rw [← heq]; rfl) h)
        have hb : ¬0 < x - fees := fun h ↦ hno (hv₁ (by rw [← heq]; rfl) h)
        rw [Nat.eq_zero_of_not_pos hb, Nat.eq_zero_of_not_pos hf]
        simp
      · exact ⟨only_of_ne heq _, only_of_ne heq _⟩
    change w.msol.amount .msolLeg ≤ m₁.amount .msolLeg
    omega
  · simp only [Chain.setStake, Function.update_idem]
  · simp only
    rw [hss, hvs]
  · rfl

end

end WithdrawStakeAccount

end Marinade
