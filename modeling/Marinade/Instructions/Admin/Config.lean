import Marinade.Ownership
import Marinade.State.Books

/-!
# Administration

The admin configures fees, limits and authorities, the pause authority stops and resumes the
program, and the validator manager grants extra runs of the stake delta. None of them touches the
books. Every fee has a hard limit that the admin cannot pass.

The two record lists can be given more or less room, but never less than their records need.
-/

open Foundation Foundation.Ledger

namespace Marinade

/-- A check of an optional parameter. -/
def checkSome {α : Type} (param : Option α) (p : α → Prop) [DecidablePred p]
    (e : MarinadeError) : Except Error Unit :=
  match param with
  | some a => ensure (p a) (.marinade e)
  | none => .ok ()

/-! ## Parameters -/

structure ConfigMarinadeParams where
  rewardsFee : Option Fee
  slotsForStakeDelta : Option ℕ
  minStake : Option ℕ
  minDeposit : Option ℕ
  minWithdraw : Option ℕ
  stakingSolCap : Option ℕ
  liquiditySolCap : Option ℕ
  withdrawStakeAccountEnabled : Option Bool
  delayedUnstakeFee : Option FeeCents
  withdrawStakeAccountFee : Option FeeCents
  maxStakeMovedPerEpoch : Option Fee
  depositSolFee : Option FeeCents
  depositStakeAccountFee : Option FeeCents
  deriving DecidableEq, Repr

/-- `config_marinade` -/
def ConfigMarinade.process (adminAuthority : Pubkey) (params : ConfigMarinadeParams)
    (s : State) : Except Error State := do
  ensure (adminAuthority = s.adminAuthority) (.marinade .invalidAdminAuthority)
  checkSome params.rewardsFee (·.basisPoints ≤ State.maxRewardFee.basisPoints)
    .rewardsFeeIsTooHigh
  checkSome params.slotsForStakeDelta (StakeSystem.minUpdateWindow ≤ ·) .updateWindowIsTooLow
  checkSome params.minStake (State.minStakeLowerLimit ≤ ·) .minStakeIsTooLow
  checkSome params.minWithdraw (· ≤ State.maxWithdrawAtom) .minWithdrawIsTooHigh
  checkSome params.delayedUnstakeFee (·.bpCents ≤ State.maxDelayedUnstakeFee.bpCents)
    .delayedUnstakeFeeIsTooHigh
  checkSome params.withdrawStakeAccountFee
    (·.bpCents ≤ State.maxWithdrawStakeAccountFee.bpCents) .withdrawStakeAccountFeeIsTooHigh
  checkSome params.depositSolFee (·.bpCents ≤ State.maxDepositSolFee.bpCents)
    .depositSolFeeIsTooHigh
  checkSome params.depositStakeAccountFee
    (·.bpCents ≤ State.maxDepositStakeAccountFee.bpCents) .depositStakeAccountFeeIsTooHigh
  return { s with
    rewardFee := params.rewardsFee.getD s.rewardFee
    stakeSystem := { s.stakeSystem with
      slotsForStakeDelta := params.slotsForStakeDelta.getD s.stakeSystem.slotsForStakeDelta
      minStake := params.minStake.getD s.stakeSystem.minStake }
    -- not checked: a deposit is the depositor's own decision
    minDeposit := params.minDeposit.getD s.minDeposit
    minWithdraw := params.minWithdraw.getD s.minWithdraw
    stakingSolCap := params.stakingSolCap.getD s.stakingSolCap
    liqPool := { s.liqPool with
      liquiditySolCap := params.liquiditySolCap.getD s.liqPool.liquiditySolCap }
    withdrawStakeAccountEnabled :=
      params.withdrawStakeAccountEnabled.getD s.withdrawStakeAccountEnabled
    delayedUnstakeFee := params.delayedUnstakeFee.getD s.delayedUnstakeFee
    withdrawStakeAccountFee := params.withdrawStakeAccountFee.getD s.withdrawStakeAccountFee
    -- not checked against 100%: the same stake may have to be moved several times
    maxStakeMovedPerEpoch := params.maxStakeMovedPerEpoch.getD s.maxStakeMovedPerEpoch
    depositSolFee := params.depositSolFee.getD s.depositSolFee
    depositStakeAccountFee := params.depositStakeAccountFee.getD s.depositStakeAccountFee }

structure ConfigLpParams where
  minFee : Option Fee
  maxFee : Option Fee
  liquidityTarget : Option ℕ
  treasuryCut : Option Fee
  deriving DecidableEq, Repr

/-- `config_lp` -/
def ConfigLp.process (adminAuthority : Pubkey) (params : ConfigLpParams) (s : State) :
    Except Error State := do
  ensure (adminAuthority = s.adminAuthority) (.marinade .invalidAdminAuthority)
  let liqPool := { s.liqPool with
    lpMinFee := params.minFee.getD s.liqPool.lpMinFee
    lpMaxFee := params.maxFee.getD s.liqPool.lpMaxFee
    lpLiquidityTarget := params.liquidityTarget.getD s.liqPool.lpLiquidityTarget
    treasuryCut := params.treasuryCut.getD s.liqPool.treasuryCut }
  liqPool.validate
  return { s with liqPool }

structure ChangeAuthorityData where
  admin : Option Pubkey
  validatorManager : Option Pubkey
  operationalSolAccount : Option Pubkey
  treasuryMsolAccount : Option Pubkey
  pauseAuthority : Option Pubkey
  deriving DecidableEq, Repr

/-- `change_authority` -/
def ChangeAuthority.process (adminAuthority : Pubkey) (data : ChangeAuthorityData) (s : State) :
    Except Error State := do
  ensure (adminAuthority = s.adminAuthority) (.marinade .invalidAdminAuthority)
  return { s with
    adminAuthority := data.admin.getD s.adminAuthority
    validatorSystem := { s.validatorSystem with
      managerAuthority := data.validatorManager.getD s.validatorSystem.managerAuthority }
    operationalSolAccount := data.operationalSolAccount.getD s.operationalSolAccount
    treasuryMsolAccount := data.treasuryMsolAccount.getD s.treasuryMsolAccount
    pauseAuthority := data.pauseAuthority.getD s.pauseAuthority }

/-- `pause` -/
def EmergencyPause.pause (pauseAuthority : Pubkey) (s : State) : Except Error State := do
  ensure (pauseAuthority = s.pauseAuthority) (.marinade .invalidPauseAuthority)
  ensure (!s.paused) (.marinade .alreadyPaused)
  return { s with paused := true }

/-- `resume` -/
def EmergencyPause.resume (pauseAuthority : Pubkey) (s : State) : Except Error State := do
  ensure (pauseAuthority = s.pauseAuthority) (.marinade .invalidPauseAuthority)
  ensure s.paused (.marinade .notPaused)
  return { s with paused := false }

/-- `config_validator_system` -/
def ConfigValidatorSystem.process (managerAuthority : Pubkey) (extraRuns : ℕ) (s : State) :
    Except Error State := do
  ensure (managerAuthority = s.validatorSystem.managerAuthority)
    (.marinade .invalidValidatorManager)
  return { s with stakeSystem := { s.stakeSystem with extraStakeDeltaRuns := extraRuns } }

/-! ## What configuring does

The books stay as they are, and a configuration within the limits stays within them. -/

section

variable {s s' : State} {authority : Pubkey}

theorem checkSome_getD {α : Type} {param : Option α} {p : α → Prop} [DecidablePred p]
    {e : MarinadeError} {u : Unit} {a : α} (h : checkSome param p e = .ok u) (ha : p a) :
    p (param.getD a) := by
  cases param with
  | none => exact ha
  | some b => exact ensure_eq_ok.mp h

theorem ConfigMarinade.process_spec {params : ConfigMarinadeParams}
    (h : process authority params s = .ok s') : s.Reconfigured none none s' := by
  simp only [process, bind_eq_ok, pure_eq_ok, ensure_eq_ok, exists_const] at h
  obtain ⟨-, _, hreward, _, -, _, hmin, _, hminWithdraw, _, hdelayed, _, hwithdraw, _, hdeposit, _,
    hdepositStake, rfl⟩ := h
  exact { State.Reconfigured.refl with
    min_withdraw := checkSome_getD hminWithdraw
    admissible := fun ha ↦ {
      reward_fee := checkSome_getD hreward ha.reward_fee
      delayed_unstake_fee := checkSome_getD hdelayed ha.delayed_unstake_fee
      withdraw_stake_account_fee := checkSome_getD hwithdraw ha.withdraw_stake_account_fee
      deposit_sol_fee := checkSome_getD hdeposit ha.deposit_sol_fee
      deposit_stake_account_fee := checkSome_getD hdepositStake ha.deposit_stake_account_fee
      liq_pool := ⟨ha.liq_pool.max_le, ha.liq_pool.min_le_max, ha.liq_pool.target_pos,
        ha.liq_pool.cut_le⟩
      min_stake := checkSome_getD hmin ha.min_stake } }

theorem ConfigLp.process_spec {params : ConfigLpParams} (h : process authority params s = .ok s') :
    s.Reconfigured none none s' := by
  simp only [process, bind_eq_ok, pure_eq_ok, ensure_eq_ok, exists_const] at h
  obtain ⟨-, u, hvalid, rfl⟩ := h
  exact { State.Reconfigured.refl with
    admissible := fun ha ↦ { ha with liq_pool := LiqPool.validate_eq_ok.mp hvalid } }

theorem ChangeAuthority.process_spec {data : ChangeAuthorityData}
    (h : process authority data s = .ok s') : s.Reconfigured none none s' := by
  simp only [process, bind_eq_ok, pure_eq_ok, ensure_eq_ok, exists_const] at h
  obtain ⟨-, rfl⟩ := h
  exact { State.Reconfigured.refl with admissible := fun ha ↦ { ha with } }

theorem EmergencyPause.pause_spec (h : pause authority s = .ok s') :
    s.Reconfigured none (some true) s' := by
  simp only [pause, bind_eq_ok, pure_eq_ok, ensure_eq_ok, exists_const] at h
  obtain ⟨-, -, rfl⟩ := h
  exact { State.Reconfigured.refl with
    paused_eq := rfl
    admissible := fun ha ↦ { ha with } }

theorem EmergencyPause.resume_spec (h : resume authority s = .ok s') :
    s.Reconfigured none (some false) s' := by
  simp only [resume, bind_eq_ok, pure_eq_ok, ensure_eq_ok, exists_const] at h
  obtain ⟨-, -, rfl⟩ := h
  exact { State.Reconfigured.refl with
    paused_eq := rfl
    admissible := fun ha ↦ { ha with } }

theorem ConfigValidatorSystem.process_spec {extraRuns : ℕ}
    (h : process authority extraRuns s = .ok s') : s.Reconfigured (some extraRuns) none s' := by
  simp only [process, bind_eq_ok, pure_eq_ok, ensure_eq_ok, exists_const] at h
  obtain ⟨-, rfl⟩ := h
  exact { State.Reconfigured.refl with
    runs_eq := rfl
    admissible := fun ha ↦ { ha with } }

end

/-! ## Room for records -/

/-- The accounts of `realloc_stake_list` and `realloc_validator_list`. -/
structure ReallocList where
  adminAuthority : Pubkey
  rentFunds : Pubkey
  deriving DecidableEq, Repr

namespace AccountList

variable {α : Type}

/-- Resize the account to `capacity` records. -/
def realloc (list : AccountList α) (capacity : ℕ) : Except Error (AccountList α) :=
  if list.itemSize * capacity ≤ u32Max then
    if h : list.len ≤ capacity then
      .ok { list with
        dataLen := 8 + list.itemSize * capacity
        fits := by
          rw [Nat.mul_comm]
          exact Nat.add_le_add_left (Nat.mul_le_mul_left _ h) _ }
    else .error MarinadeError.shrinkingListWithDeletingContents
  else .error .overflow

theorem realloc_items {list list' : AccountList α} {capacity : ℕ}
    (h : list.realloc capacity = .ok list') : list'.items = list.items := by
  unfold realloc at h
  split at h
  · split at h
    · cases h; rfl
    · cases h
  · cases h

end AccountList

/-- Settle the rent of an account at `key` that is resized from `oldLen` to `newLen` bytes. -/
def settleRent (rt : Runtime) (c : Chain) (key payer : Pubkey) (oldLen newLen : ℕ) :
    Except Error Chain :=
  if oldLen < newLen then
    SystemProgram.transfer c payer key (rt.minimumBalance newLen - c.lamportsOf key)
  else if newLen < oldLen then do
    let refund ← checkedSub .amount (c.lamportsOf key) (rt.minimumBalance newLen)
    SystemProgram.transfer c key payer refund
  else .ok c

/-- `realloc_stake_list` -/
def ReallocStakeList.process (rt : Runtime) (accounts : ReallocList) (capacity : ℕ)
    (w : World) : Except Error World := do
  let s := w.state
  ensure (accounts.adminAuthority = s.adminAuthority) (.marinade .invalidAdminAuthority)
  ensure (w.isUnused accounts.rentFunds) .constraint
  let stakeList ← s.stakeSystem.stakeList.realloc capacity
  let chain ← settleRent rt w.toChain .stakeList accounts.rentFunds
    s.stakeSystem.stakeList.dataLen stakeList.dataLen
  return {
    toChain := chain
    state := { s with stakeSystem := { s.stakeSystem with stakeList } } }

/-- `realloc_validator_list` -/
def ReallocValidatorList.process (rt : Runtime) (accounts : ReallocList) (capacity : ℕ)
    (w : World) : Except Error World := do
  let s := w.state
  ensure (accounts.adminAuthority = s.adminAuthority) (.marinade .invalidAdminAuthority)
  ensure (w.isUnused accounts.rentFunds) .constraint
  let validatorList ← s.validatorSystem.validatorList.realloc capacity
  let chain ← settleRent rt w.toChain .validatorList accounts.rentFunds
    s.validatorSystem.validatorList.dataLen validatorList.dataLen
  return {
    toChain := chain
    state := { s with validatorSystem := { s.validatorSystem with validatorList } } }

section

variable {rt : Runtime} {accounts : ReallocList} {capacity : ℕ} {w w' : World} {c c' : Chain}
  {key payer : Pubkey} {n n' : ℕ}

/-- Resizing a list moves lamports between its account and the one that funds it. -/
structure ReallocList.Spec (accounts : ReallocList) (list : Pubkey) (w w' : World) : Prop where
  payer_unused : w.isUnused accounts.rentFunds = true
  lamports_le : ∀ k, k ≠ list → k ≠ accounts.rentFunds → w'.lamportsOf k = w.lamportsOf k
  capital_eq : w'.lamports.total = w.lamports.total
  books : w.state.Reconfigured none none w'.state
  spares : w.SparesOthers [accounts.rentFunds] w'.toChain
  frame : w'.toChain = { w.toChain with lamports := w'.lamports }

private theorem settleRent_spec (h : settleRent rt c key payer n n' = .ok c') :
    ∃ ledger, ledger.total = c.lamports.total ∧
      (∀ k, k ≠ key → k ≠ payer → ledger.balance k = c.lamportsOf k) ∧
      c' = { c with lamports := ledger } := by
  unfold settleRent at h
  split at h
  · obtain ⟨l, rfl, ht, -, hl⟩ := SystemProgram.transfer_spec h
    refine ⟨l, ht, fun k hk hp ↦ ?_, rfl⟩
    have e := hl k
    rwa [only_of_ne hk, only_of_ne hp] at e
  · split at h
    · obtain ⟨x, -, h⟩ := bind_eq_ok.mp h
      obtain ⟨l, rfl, ht, -, hl⟩ := SystemProgram.transfer_spec h
      refine ⟨l, ht, fun k hk hp ↦ ?_, rfl⟩
      have e := hl k
      rwa [only_of_ne hk, only_of_ne hp] at e
    · cases h
      exact ⟨c.lamports, rfl, fun _ _ _ ↦ rfl, rfl⟩

private theorem settleRent_spares (h : settleRent rt c key payer n n' = .ok c')
    (hkey : key.canSign = false) (hpayer : c.isUnused payer = true) :
    c.SparesOthers [payer] c' := by
  intro U hU
  unfold settleRent at h
  split at h
  · exact SystemProgram.transfer_spares h (Chain.not_owned_of_isUnused hU.not_head hpayer)
  · split at h
    · obtain ⟨x, -, h⟩ := bind_eq_ok.mp h
      exact SystemProgram.transfer_spares h (Chain.not_owned_of_not_canSign hkey)
    · cases h
      exact .refl c

private theorem ReallocList.spec_of_settleRent {s : State} (hkey : key.canSign = false)
    (hpayer : w.isUnused accounts.rentFunds = true)
    (h : settleRent rt w.toChain key accounts.rentFunds n n' = .ok c)
    (hbooks : w.state.Reconfigured none none s) :
    accounts.Spec key w { toChain := c, state := s } := by
  have hspares := settleRent_spares h hkey hpayer
  obtain ⟨l, ht, hl, rfl⟩ := settleRent_spec h
  exact {
    payer_unused := hpayer
    lamports_le := hl
    capital_eq := ht
    books := hbooks
    spares := hspares
    frame := rfl }

theorem ReallocStakeList.process_spec (h : process rt accounts capacity w = .ok w') :
    accounts.Spec .stakeList w w' := by
  simp only [process, bind_eq_ok, pure_eq_ok, ensure_eq_ok, exists_const] at h
  obtain ⟨-, hpayer, list, hlist, c, hc, rfl⟩ := h
  have hrecords := AccountList.realloc_items hlist
  exact ReallocList.spec_of_settleRent rfl hpayer hc
    { State.Reconfigured.refl with
      records_eq := hrecords
      admissible := fun ha ↦ { ha with } }

theorem ReallocValidatorList.process_spec (h : process rt accounts capacity w = .ok w') :
    accounts.Spec .validatorList w w' := by
  simp only [process, bind_eq_ok, pure_eq_ok, ensure_eq_ok, exists_const] at h
  obtain ⟨-, hpayer, list, hlist, c, hc, rfl⟩ := h
  have hvalidators := AccountList.realloc_items hlist
  exact ReallocList.spec_of_settleRent rfl hpayer hc
    { State.Reconfigured.refl with
      validators_eq := hvalidators
      admissible := fun ha ↦ { ha with } }

end

end Marinade
