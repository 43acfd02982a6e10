import Marinade.Ownership

/-!
# Deposit a stake account

The user passes an active stake account to the program and gets mSOL minted for its delegation at
the price before the deposit.
-/

open Foundation Foundation.Ledger

namespace Marinade

/-- The accounts of `deposit_stake_account`. -/
structure DepositStakeAccount where
  stakeAccount : Pubkey
  stakeAuthority : Pubkey
  mintTo : Pubkey
  deriving DecidableEq, Repr

structure DepositStakeAccountEvent where
  stake : Pubkey
  delegated : ℕ
  msolMinted : ℕ
  deriving DecidableEq, Repr

namespace DepositStakeAccount

/-- `WAIT_EPOCHS` -/
def waitEpochs : ℕ := 0

/-- Maintain the invariants of the delinquent upgrader: the new record counts as visited. -/
def maintainUpgrader (upgrader : DelinquentUpgraderState) (validatorIndex : ℕ)
    (validator : ValidatorRecord) (stake : ℕ) :
    Except Error (DelinquentUpgraderState × ValidatorRecord) :=
  match upgrader with
  | .iteratingStakes visitedCount totalActiveBalance totalDelinquentBalance => do
    let visitedCount ← addUpTo u32Max visitedCount 1
    let totalActiveBalance ← checkedAdd totalActiveBalance stake
    let balance ← checkedAdd validator.delinquentUpgraderActiveBalance stake
    return (.iteratingStakes visitedCount totalActiveBalance totalDelinquentBalance,
      { validator with delinquentUpgraderActiveBalance := balance })
  | .iteratingValidators visitedCount delinquentBalanceLeft =>
    if visitedCount ≤ validatorIndex then do
      let balance ← checkedAdd validator.delinquentUpgraderActiveBalance stake
      return (.iteratingValidators visitedCount delinquentBalanceLeft,
        { validator with delinquentUpgraderActiveBalance := balance })
    else .ok (.iteratingValidators visitedCount delinquentBalanceLeft, validator)
  | .done => .ok (.done, validator)

/-- Clean the old lockup. -/
def cleanLockup (accounts : DepositStakeAccount) (lockup : Lockup) (c : Chain) :
    Except Error Chain :=
  if lockup.custodian ≠ .default then
    StakeProgram.setLockup c accounts.stakeAccount accounts.stakeAuthority .default
  else .ok c

def process (accounts : DepositStakeAccount) (validatorIndex : ℕ) (w : World) :
    Except Error (World × DepositStakeAccountEvent) := do
  let stakeAccount ← orError (w.stakes accounts.stakeAccount) .constraint
  ensure accounts.stakeAuthority.canSign .constraint
  ensure (w.msol.holder accounts.mintTo).isSome .constraint
  let s := w.state
  ensure (!s.paused) (.marinade .programIsPaused)
  ensure (w.msol.supply ≤ s.msolSupply) (.marinade .unregisteredMsolMinted)
  let _ ← s.totalVirtualStakedLamports
  let delegation ← orError stakeAccount.delegation (.marinade .requiredDelegatedStake)
  ensure (delegation.deactivationEpoch = epochMax) (.marinade .requiredActiveStake)
  let created ← checkedAdd delegation.activationEpoch waitEpochs
  ensure (created ≤ w.clock.epoch) (.marinade .depositingNotActivatedStake)
  ensure (s.stakeSystem.minStake ≤ delegation.stake)
    (.marinade .tooLowDelegationInDepositingStake)
  let expected ← checkedAdd delegation.stake stakeAccount.stakeMeta.rentExemptReserve
  ensure (w.lamportsOf accounts.stakeAccount = expected) (.marinade .wrongStakeBalance)
  s.checkStakingCap delegation.stake
  ensure (!stakeAccount.stakeMeta.lockup.isInForce w.clock) (.marinade .stakeAccountWithLockup)
  let validator ← s.validatorSystem.getChecked validatorIndex delegation.voterPubkey
  let activeBalance ← checkedAdd validator.activeBalance delegation.stake
  let upgraded ← maintainUpgrader s.delinquentUpgrader validatorIndex
    { validator with activeBalance } delegation.stake
  let validatorSystem ← s.validatorSystem.set validatorIndex upgraded.2
  -- the account must not be under the program's authorities already
  ensure (stakeAccount.stakeMeta.staker ≠ .stakeDepositAuthority)
    (.marinade .redepositingMarinadeStake)
  let chain ← accounts.cleanLockup stakeAccount.stakeMeta.lockup w.toChain
  let chain ← StakeProgram.authorizeStaker chain accounts.stakeAccount accounts.stakeAuthority
    .stakeDepositAuthority
  ensure (stakeAccount.stakeMeta.withdrawer ≠ .stakeWithdrawAuthority)
    (.marinade .redepositingMarinadeStake)
  let chain ← StakeProgram.authorizeWithdrawer chain accounts.stakeAccount
    accounts.stakeAuthority .stakeWithdrawAuthority
  let stakeSystem ← s.stakeSystem.add accounts.stakeAccount delegation.stake w.clock false true
  let solFees := s.depositStakeAccountFee.apply delegation.stake
  let depositStakeMinusFee := delegation.stake - solFees
  -- the price is taken before the stake counts as active
  let msolToMint ← s.calcMsolFromLamports depositStakeMinusFee
  let msol ← chain.msol.mintTo accounts.mintTo msolToMint
  let s ← { s with
    validatorSystem, stakeSystem, delinquentUpgrader := upgraded.1 }.onMsolMint msolToMint
  let totalActiveBalance ← checkedAdd s.validatorSystem.totalActiveBalance delegation.stake
  let state := { s with validatorSystem := { s.validatorSystem with totalActiveBalance } }
  return ({ w with toChain := { chain with msol }, state }, {
    stake := accounts.stakeAccount, delegated := delegation.stake, msolMinted := msolToMint })

/-- The effect of a successful deposit of the account with delegation `d`, whose validator record
`v` becomes `v'`. -/
structure Spec (accounts : DepositStakeAccount) (validatorIndex : ℕ) (w w' : World)
    (e : DepositStakeAccountEvent) (account : StakeAccount) (d : Delegation)
    (v v' : ValidatorRecord) : Prop where
  not_paused : w.state.paused = false
  supply_le : w.msol.supply ≤ w.state.msolSupply
  account_eq : w.stakes accounts.stakeAccount = some account
  delegation_eq : account.delegation = some d
  active : d.deactivationEpoch = epochMax
  min_stake : w.state.stakeSystem.minStake ≤ d.stake
  funded : w.lamportsOf accounts.stakeAccount = d.stake + account.stakeMeta.rentExemptReserve
  foreign : account.stakeMeta.staker ≠ .stakeDepositAuthority
  event_stake : e.stake = accounts.stakeAccount
  event_delegated : e.delegated = d.stake
  validator : w.state.validatorSystem.records[validatorIndex]? = some v
  voter : v.validatorAccount = d.voterPubkey
  upgrade : maintainUpgrader w.state.delinquentUpgrader validatorIndex
      { v with activeBalance := v.activeBalance + d.stake } d.stake
    = .ok (w'.state.delinquentUpgrader, v')
  worth : sharesFromValue (d.stake - w.state.depositStakeAccountFee.apply d.stake)
    w.state.virtualStaked w.state.msolSupply = .ok e.msolMinted
  validators_eq : w'.state.validatorSystem.records
    = w.state.validatorSystem.records.set validatorIndex v'
  records_eq : w'.state.stakeSystem.records = w.state.stakeSystem.records
    ++ [.new accounts.stakeAccount d.stake w.clock false true]
  amount_eq : ∀ k, w'.msol.amount k = w.msol.amount k + only accounts.mintTo e.msolMinted k
  supply_eq : w'.msol.supply = w.msol.supply + e.msolMinted
  stakes_eq : ∃ lockup : Lockup, (lockup = .default ∨ lockup.isInForce w.clock = false) ∧
    w'.stakes = Function.update w.stakes accounts.stakeAccount
      (some ⟨⟨account.stakeMeta.rentExemptReserve, .stakeDepositAuthority,
        .stakeWithdrawAuthority, lockup⟩, some d⟩)
  state_eq : w'.state = { w.state with
    validatorSystem := { w.state.validatorSystem with
      validatorList := w'.state.validatorSystem.validatorList
      totalActiveBalance := w.state.validatorSystem.totalActiveBalance + d.stake }
    stakeSystem := { w.state.stakeSystem with stakeList := w'.state.stakeSystem.stakeList }
    delinquentUpgrader := w'.state.delinquentUpgrader
    msolSupply := w.state.msolSupply + e.msolMinted }
  spares : w.SparesOthers [accounts.stakeAuthority] w'.toChain
  frame : w'.toChain = { w.toChain with msol := w'.msol, stakes := w'.stakes }

variable {accounts : DepositStakeAccount} {w w' : World} {i : ℕ} {e : DepositStakeAccountEvent}

/-- The upgrade only changes its own field of the validator. -/
theorem maintainUpgrader_validator {u u' : DelinquentUpgraderState} {v v' : ValidatorRecord} {x : ℕ}
    (h : maintainUpgrader u i v x = .ok (u', v')) :
    v' = { v with delinquentUpgraderActiveBalance := v'.delinquentUpgraderActiveBalance } := by
  unfold maintainUpgrader at h
  split at h
  · simp only [bind_eq_ok, pure_eq_ok, Prod.mk.injEq] at h
    obtain ⟨_, -, _, -, _, -, -, rfl⟩ := h
    rfl
  · split at h
    · simp only [bind_eq_ok, pure_eq_ok, Prod.mk.injEq] at h
      obtain ⟨_, -, -, rfl⟩ := h
      rfl
    · cases h
      rfl
  · cases h
    rfl

/-- The three calls that take the account over. -/
private theorem takeOver_spec {c c₁ c₂ c₃ : Chain} {account : StakeAccount}
    (ha : c.stakes accounts.stakeAccount = some account)
    (h₁ : accounts.cleanLockup account.stakeMeta.lockup c = .ok c₁)
    (h₂ : StakeProgram.authorizeStaker c₁ accounts.stakeAccount accounts.stakeAuthority
      .stakeDepositAuthority = .ok c₂)
    (h₃ : StakeProgram.authorizeWithdrawer c₂ accounts.stakeAccount accounts.stakeAuthority
      .stakeWithdrawAuthority = .ok c₃) :
    c.SparesOthers [accounts.stakeAuthority] c₃ ∧
    ∃ lockup : Lockup, (lockup = .default ∨ lockup = account.stakeMeta.lockup) ∧
      c₃ = c.setStake accounts.stakeAccount
        (some ⟨⟨account.stakeMeta.rentExemptReserve, .stakeDepositAuthority,
          .stakeWithdrawAuthority, lockup⟩, account.delegation⟩) := by
  have hc₁ : c.SparesOthers [accounts.stakeAuthority] c₁ ∧
      ∃ lockup : Lockup, (lockup = .default ∨ lockup = account.stakeMeta.lockup) ∧
      c₁ = c.setStake accounts.stakeAccount
        (some { account with stakeMeta := { account.stakeMeta with lockup } }) := by
    unfold cleanLockup at h₁
    split at h₁
    · obtain ⟨a, ha', rfl⟩ := StakeProgram.setLockup_spec h₁
      obtain rfl : account = a := by simpa [ha] using ha'
      exact ⟨fun U hU ↦ StakeProgram.setLockup_spares h₁ hU.not_head, .default, .inl rfl, rfl⟩
    · cases h₁
      refine ⟨.refl c, account.stakeMeta.lockup, .inr rfl, ?_⟩
      rw [Chain.setStake, ← ha, Function.update_eq_self]
  obtain ⟨hcleaned, lockup, hlockup, hc₁⟩ := hc₁
  have hspares : c.SparesOthers [accounts.stakeAuthority] c₃ := fun U hU ↦
    ((hcleaned U hU).trans (StakeProgram.authorizeStaker_spares h₂ hU.not_head)).trans
      (StakeProgram.authorizeWithdrawer_spares h₃ hU.not_head)
  subst hc₁
  obtain ⟨a₂, ha₂, rfl⟩ := StakeProgram.authorizeStaker_spec h₂
  obtain ⟨a₃, ha₃, -, rfl⟩ := StakeProgram.authorizeWithdrawer_spec h₃
  rw [Chain.setStake_stakes_self, Option.some.injEq] at ha₂ ha₃
  subst ha₂ ha₃
  exact ⟨hspares, lockup, hlockup, by rw [Chain.setStake_setStake, Chain.setStake_setStake]⟩

theorem process_spec (h : accounts.process i w = .ok (w', e)) :
    ∃ account d v v', Spec accounts i w w' e account d v v' := by
  simp only [process, bind_eq_ok, ensure_eq_ok, orError_eq_ok, checkedAdd_eq_ok, pure_eq_ok,
    exists_const, ValidatorSystem.getChecked_eq_ok, State.onMsolMint_eq_ok,
    State.calcMsolFromLamports_eq_ok] at h
  obtain ⟨account, ha, -, -, hpaused, hsupply, _, -, d, hd, hactive, created, -, -, hmin, expected,
    ⟨-, rfl⟩, hfunded, _, -, hunlocked, v, ⟨hv, hvoter⟩, h⟩ := h
  obtain ⟨active, ⟨-, rfl⟩, ⟨upgrader, v'⟩, hup, vs, hvs, hforeign, c₁, h₁, c₂, h₂, -, c₃, h₃,
    h⟩ := h
  obtain ⟨ss, hss, minted, ⟨-, hworth⟩, msol, hmsol, s, ⟨-, rfl⟩, total, ⟨-, rfl⟩, hw⟩ := h
  cases hw
  obtain ⟨hspares, lockup, hlockup, rfl⟩ := takeOver_spec ha h₁ h₂ h₃
  obtain ⟨-, rfl⟩ := TokenMint.mintTo_eq_ok.mp hmsol
  obtain ⟨hvs, hrecords⟩ := ValidatorSystem.set_eq_ok hvs
  obtain ⟨hss, hstakes⟩ := StakeSystem.add_eq_ok hss
  refine ⟨account, d, v, v', {
    not_paused := by simpa using hpaused
    supply_le := hsupply
    account_eq := ha
    delegation_eq := hd
    active := hactive
    min_stake := hmin
    funded := hfunded
    foreign := hforeign
    event_stake := rfl
    event_delegated := rfl
    validator := hv
    voter := hvoter
    upgrade := hup
    worth := hworth
    validators_eq := hrecords
    records_eq := hstakes
    amount_eq := mint_balance_eq
    supply_eq := rfl
    stakes_eq := ⟨lockup, hlockup.imp_right fun heq ↦ by simpa [heq] using hunlocked,
      by rw [← hd]; rfl⟩
    state_eq := ?_
    spares := fun U hU ↦ (hspares U hU).trans (.of_msol (TokenMint.mintTo_spares hmsol))
    frame := rfl }⟩
  rw [hvs, hss]

end DepositStakeAccount

end Marinade
