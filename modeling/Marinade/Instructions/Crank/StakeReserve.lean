import Marinade.Ownership

/-!
# Stake the reserve

In the last slots of an epoch a bot stakes what the reserve can spare, validator by validator, each
into a new stake account. When there is nothing to do the new account is given back and the
instruction still succeeds.
-/

open Foundation Foundation.Ledger

namespace Marinade

/-- The accounts of `stake_reserve`. -/
structure StakeReserve where
  validatorVote : Pubkey
  stakeAccount : Pubkey
  rentPayer : Pubkey
  deriving DecidableEq, Repr

/-- The amount staked, if any. -/
structure StakeReserveEvent where
  amount : Option ℕ
  deriving DecidableEq, Repr

/-- The stake delta as an amount: both its signs are converted to 64 bits. -/
def stakeDeltaAmount (stakeDelta : ℤ) : Except Error ℕ :=
  if stakeDelta.natAbs ≤ u64Max then .ok stakeDelta.natAbs
  else .error (.assertion .stakeDeltaAmount)

theorem stakeDeltaAmount_eq_ok {stakeDelta : ℤ} {amount : ℕ}
    (h : stakeDeltaAmount stakeDelta = .ok amount) :
    amount = stakeDelta.natAbs ∧ amount ≤ u64Max := by
  unfold stakeDeltaAmount at h
  split at h
  · cases h
    exact ⟨rfl, ‹_›⟩
  · cases h

/-- The stake delta may only be worked off in the last slots of the epoch. -/
def inStakeDeltaWindow (rt : Runtime) (clock : Clock) (s : State) : Except Error Unit :=
  ensure (rt.lastSlotInEpoch clock.epoch - s.stakeSystem.slotsForStakeDelta ≤ clock.slot)
    (.marinade .tooEarlyForStakeDelta)

namespace StakeReserve

def returnUnusedStakeAccountRent (accounts : StakeReserve) (chain : Chain) (state : State) :
    Except Error (World × StakeReserveEvent) := do
  let chain ← StakeProgram.withdrawUninitialized chain accounts.stakeAccount accounts.rentPayer
  return ({ toChain := chain, state }, ⟨none⟩)

/-- How much of the delta goes to a validator below its target. -/
def stakeTarget (s : State) (validatorStakeTarget validatorActiveBalance totalStakeDelta : ℕ) :
    ℕ :=
  let stakeTarget := min (validatorStakeTarget - validatorActiveBalance) totalStakeDelta
  -- a remainder below the minimal stake is staked along
  if totalStakeDelta - stakeTarget < s.stakeSystem.minStake then totalStakeDelta
  else stakeTarget

/-- Move `stakeTarget` from the reserve into the new account and delegate it. -/
def stake (rt : Runtime) (accounts : StakeReserve) (validatorIndex : ℕ)
    (validator : ValidatorRecord) (stakeTarget : ℕ) (chain : Chain) (s : State) :
    Except Error (World × StakeReserveEvent) := do
  let chain ← SystemProgram.transfer chain .reserve accounts.stakeAccount stakeTarget
  let s ← s.onTransferFromReserve stakeTarget
  let chain ← StakeProgram.initializeStake rt chain accounts.stakeAccount .stakeDepositAuthority
    .stakeWithdrawAuthority
  let chain ← StakeProgram.delegate rt chain accounts.stakeAccount .stakeDepositAuthority
    accounts.validatorVote
  let stakeSystem ← s.stakeSystem.add accounts.stakeAccount stakeTarget chain.clock false true
  let activeBalance ← checkedAdd validator.activeBalance stakeTarget
  let validatorSystem ← s.validatorSystem.set validatorIndex { validator with
    activeBalance, lastStakeDeltaEpoch := chain.clock.epoch }
  let totalActiveBalance ← checkedAdd validatorSystem.totalActiveBalance stakeTarget
  return ({
    toChain := chain
    state := { s with
      stakeSystem := { stakeSystem with lastStakeDeltaEpoch := chain.clock.epoch }
      validatorSystem := { validatorSystem with totalActiveBalance } } }, ⟨some stakeTarget⟩)

/-- What happens to a validator that may be staked to, once it is known how much there is. -/
def stakeTo (rt : Runtime) (accounts : StakeReserve) (validatorIndex : ℕ)
    (validator : ValidatorRecord) (totalStakeDelta : ℕ) (chain : Chain) (s : State) :
    Except Error (World × StakeReserveEvent) := do
  inStakeDeltaWindow rt chain.clock s
  let totalStakeTarget := min (s.validatorSystem.totalActiveBalance + totalStakeDelta) u64Max
  let validatorStakeTarget ←
    s.validatorSystem.validatorStakeTarget validator totalStakeTarget
  if validatorStakeTarget ≤ validator.activeBalance then
    accounts.returnUnusedStakeAccountRent chain s
  else
    let stakeTarget :=
      stakeTarget s validatorStakeTarget validator.activeBalance totalStakeDelta
    if stakeTarget < s.stakeSystem.minStake then accounts.returnUnusedStakeAccountRent chain s
    else stake rt accounts validatorIndex validator stakeTarget chain s

def process (rt : Runtime) (accounts : StakeReserve) (validatorIndex : ℕ) (w : World) :
    Except Error (World × StakeReserveEvent) := do
  let chain ← SystemProgram.initStakeAccount rt w.toChain accounts.rentPayer accounts.stakeAccount
  let s := w.state
  ensure (!s.paused) (.marinade .programIsPaused)
  ensure s.delinquentUpgrader.isDone (.marinade .delinquentUpgraderIsNotDone)
  let stakeDelta := s.stakeDelta (chain.lamportsOf .reserve)
  let totalStakeDelta ← stakeDeltaAmount stakeDelta
  if stakeDelta ≤ 0 then accounts.returnUnusedStakeAccountRent chain s
  else
    let validator ← s.validatorSystem.getChecked validatorIndex accounts.validatorVote
    if validator.lastStakeDeltaEpoch = chain.clock.epoch then
      if s.stakeSystem.extraStakeDeltaRuns = 0 then
        accounts.returnUnusedStakeAccountRent chain s
      else
        -- an extra run is used up, whether or not anything is staked
        stakeTo rt accounts validatorIndex validator totalStakeDelta chain { s with
          stakeSystem := { s.stakeSystem with
            extraStakeDeltaRuns := s.stakeSystem.extraStakeDeltaRuns - 1 } }
    else stakeTo rt accounts validatorIndex validator totalStakeDelta chain s

/-- The effect when nothing is staked. -/
structure UnusedSpec (accounts : StakeReserve) (w w' : World) (found : ℕ) : Prop where
  not_paused : w.state.paused = false
  payer_unused : w.isUnused accounts.rentPayer = true
  unused : w.isUnused accounts.stakeAccount = true
  lamports_eq : ∀ k, w'.lamportsOf k + only accounts.stakeAccount found k
    = w.lamportsOf k + only accounts.rentPayer found k
  capital_eq : w'.lamports.total = w.lamports.total
  runs_le : w'.state.stakeSystem.extraStakeDeltaRuns ≤ w.state.stakeSystem.extraStakeDeltaRuns
  state_eq : ∃ runs, w'.state = { w.state with
    stakeSystem := { w.state.stakeSystem with extraStakeDeltaRuns := runs } }
  spares : w.SparesOthers [accounts.rentPayer, accounts.stakeAccount] w'.toChain
  frame : w'.toChain = { w.toChain with lamports := w'.lamports }

/-- The effect of staking `x` to the validator `v`. Where the stake delta has been in the epoch, it
uses up an extra run. -/
structure Spec (rt : Runtime) (accounts : StakeReserve) (validatorIndex : ℕ) (w w' : World)
    (v : ValidatorRecord) (x topUp : ℕ) : Prop where
  not_paused : w.state.paused = false
  done : w.state.delinquentUpgrader = .done
  payer_unused : w.isUnused accounts.rentPayer = true
  unused : w.isUnused accounts.stakeAccount = true
  validator : w.state.validatorSystem.records[validatorIndex]? = some v
  voter : v.validatorAccount = accounts.validatorVote
  min_le : w.state.stakeSystem.minStake ≤ x
  available : x ≤ w.state.availableReserveBalance
  rent_covered : rt.stakeRent + x ≤ w'.lamportsOf accounts.stakeAccount
  lamports_eq : ∀ k, w'.lamportsOf k + only accounts.rentPayer topUp k + only .reserve x k
    = w.lamportsOf k + only accounts.stakeAccount (topUp + x) k
  capital_eq : w'.lamports.total = w.lamports.total
  stakes_eq : w'.stakes = Function.update w.stakes accounts.stakeAccount
    (some ⟨⟨rt.stakeRent, .stakeDepositAuthority, .stakeWithdrawAuthority, .default⟩,
      some ⟨accounts.validatorVote, w'.lamportsOf accounts.stakeAccount - rt.stakeRent,
        w.clock.epoch, epochMax⟩⟩)
  records_eq : w'.state.stakeSystem.records = w.state.stakeSystem.records
    ++ [.new accounts.stakeAccount x w.clock false true]
  validators_eq : w'.state.validatorSystem.records
    = w.state.validatorSystem.records.set validatorIndex
      { v with activeBalance := v.activeBalance + x, lastStakeDeltaEpoch := w.clock.epoch }
  runs_eq : w'.state.stakeSystem.extraStakeDeltaRuns
      + (if v.lastStakeDeltaEpoch = w.clock.epoch then 1 else 0)
    = w.state.stakeSystem.extraStakeDeltaRuns
  state_eq : ∃ runs, w'.state = { w.state with
    stakeSystem := { w.state.stakeSystem with
      stakeList := w'.state.stakeSystem.stakeList
      lastStakeDeltaEpoch := w.clock.epoch
      extraStakeDeltaRuns := runs }
    validatorSystem := { w.state.validatorSystem with
      validatorList := w'.state.validatorSystem.validatorList
      totalActiveBalance := w.state.validatorSystem.totalActiveBalance + x }
    availableReserveBalance := w.state.availableReserveBalance - x }
  spares : w.SparesOthers [accounts.rentPayer, accounts.stakeAccount] w'.toChain
  frame : w'.toChain = { w.toChain with lamports := w'.lamports, stakes := w'.stakes }

section

variable {rt : Runtime} {accounts : StakeReserve} {w w' : World} {c : Chain} {s : State}
  {i x runs : ℕ} {v : ValidatorRecord} {e : StakeReserveEvent}

private theorem unused_spec
    (h₁ : SystemProgram.initStakeAccount rt w.toChain accounts.rentPayer accounts.stakeAccount
      = .ok c)
    (hpaused : w.state.paused = false)
    (hs : s = { w.state with
      stakeSystem := { w.state.stakeSystem with extraStakeDeltaRuns := runs } })
    (hruns : runs ≤ w.state.stakeSystem.extraStakeDeltaRuns)
    (h : accounts.returnUnusedStakeAccountRent c s = .ok (w', e)) :
    e.amount = none ∧ ∃ found, UnusedSpec accounts w w' found := by
  simp only [returnUnusedStakeAccountRent, bind_eq_ok, pure_eq_ok] at h
  obtain ⟨c₂, h₂, hw⟩ := h
  obtain ⟨rfl, rfl⟩ := Prod.mk.inj hw
  have hspares := StakeProgram.return_unused_spares h₁ (.refl c) h₂
  obtain ⟨hpayer, hunused, found, l, ht, hl, hc⟩ :=
    StakeProgram.return_unused_spec h₁ rfl h₂
  obtain ⟨l₁, rfl⟩ : ∃ l, c = { w.toChain with lamports := l } := by
    obtain ⟨-, -, -, -, l₁, -, -, -, rfl⟩ := SystemProgram.initStakeAccount_spec h₁
    exact ⟨l₁, rfl⟩
  subst hc
  subst hs
  exact ⟨rfl, found, {
    not_paused := hpaused
    payer_unused := hpayer
    unused := hunused
    lamports_eq := hl
    capital_eq := ht
    runs_le := hruns
    state_eq := ⟨runs, rfl⟩
    spares := hspares
    frame := rfl }⟩

private theorem stake_spec
    (h₁ : SystemProgram.initStakeAccount rt w.toChain accounts.rentPayer accounts.stakeAccount
      = .ok c)
    (hs : s = { w.state with
      stakeSystem := { w.state.stakeSystem with extraStakeDeltaRuns := runs } })
    (hruns : runs + (if v.lastStakeDeltaEpoch = w.clock.epoch then 1 else 0)
      = w.state.stakeSystem.extraStakeDeltaRuns)
    (hpaused : w.state.paused = false) (hdone : w.state.delinquentUpgrader = .done)
    (hv : w.state.validatorSystem.records[i]? = some v)
    (hvoter : v.validatorAccount = accounts.validatorVote)
    (hmin : w.state.stakeSystem.minStake ≤ x)
    (h : stake rt accounts i v x c s = .ok (w', e)) :
    e.amount = some x ∧ ∃ topUp, Spec rt accounts i w w' v x topUp := by
  subst hs
  simp only [stake, bind_eq_ok, pure_eq_ok, checkedAdd_eq_ok,
    State.onTransferFromReserve_eq_ok] at h
  obtain ⟨c₂, h₂, s₂, ⟨havail, rfl⟩, c₃, h₃, c₄, h₄, ss, hss, active, ⟨-, rfl⟩, vs, hvs,
    total, ⟨-, rfl⟩, hw⟩ := h
  obtain ⟨rfl, rfl⟩ := Prod.mk.inj hw
  have hspares : w.SparesOthers [accounts.rentPayer, accounts.stakeAccount] c₄ := by
    intro U hU
    have hcreated := SystemProgram.initStakeAccount_spares h₁ hU.not_head
    have hpaid := SystemProgram.transfer_spares h₂ (Chain.not_owned_of_not_canSign (U := U) rfl)
    have hinit := StakeProgram.initializeStake_spares h₃ (hU.not_signer _ (by simp))
    have hdelegated := StakeProgram.delegate_spares h₄ (hU.not_program rfl)
    exact ((hcreated.trans hpaid).trans hinit).trans hdelegated
  obtain ⟨hpayer, hunused, hne, topUp, l₁, hcov, ht₁, hl₁, rfl⟩ :=
    SystemProgram.initStakeAccount_spec h₁
  obtain ⟨-, -, rfl⟩ := StakeProgram.initializeStake_eq_ok.mp h₃
  obtain ⟨l₂, rfl, ht₂, -, hl₂⟩ := SystemProgram.transfer_spec h₂
  obtain ⟨a, ha, -, -, rfl⟩ := StakeProgram.delegate_spec h₄
  simp only [Chain.setStake, Function.update_self, Option.some.injEq] at ha
  subst ha
  obtain ⟨hss, hrecords⟩ := StakeSystem.add_eq_ok hss
  obtain ⟨hvs, hvalidators⟩ := ValidatorSystem.set_eq_ok hvs
  refine ⟨rfl, topUp, {
    not_paused := hpaused
    done := hdone
    payer_unused := hpayer
    unused := hunused
    validator := hv
    voter := hvoter
    min_le := hmin
    available := havail
    rent_covered := ?_
    lamports_eq := fun k ↦ ?_
    capital_eq := ht₂.trans ht₁
    stakes_eq := ?_
    records_eq := hrecords
    validators_eq := hvalidators
    runs_eq := ?_
    state_eq := ⟨runs, ?_⟩
    spares := hspares
    frame := rfl }⟩
  · have e₁ := hl₁ accounts.stakeAccount
    have e₂ : l₂.balance accounts.stakeAccount + _ = l₁.balance accounts.stakeAccount + _ :=
      hl₂ accounts.stakeAccount
    have hreserve : accounts.stakeAccount ≠ .reserve := by
      intro heq
      have hsign := Chain.canSign_of_isUnused hunused
      rw [heq] at hsign
      cases hsign
    rw [only_of_ne hne.symm, only_self] at e₁
    rw [only_of_ne hreserve, only_self] at e₂
    change rt.stakeRent + x ≤ l₂.balance accounts.stakeAccount
    omega
  · have e₁ := hl₁ k
    have e₂ : l₂.balance k + _ = l₁.balance k + _ := hl₂ k
    change l₂.balance k + _ + _ = _
    rw [only_add]
    omega
  · simp only [Chain.setStake, Function.update_idem]
  · simp only
    rw [hss]
    exact hruns
  · simp only
    rw [hss, hvs]
    rfl

private theorem stakeTo_spec {delta : ℕ}
    (h₁ : SystemProgram.initStakeAccount rt w.toChain accounts.rentPayer accounts.stakeAccount
      = .ok c)
    (hs : s = { w.state with
      stakeSystem := { w.state.stakeSystem with extraStakeDeltaRuns := runs } })
    (hruns : runs + (if v.lastStakeDeltaEpoch = w.clock.epoch then 1 else 0)
      = w.state.stakeSystem.extraStakeDeltaRuns)
    (hpaused : w.state.paused = false) (hdone : w.state.delinquentUpgrader = .done)
    (hv : w.state.validatorSystem.records[i]? = some v)
    (hvoter : v.validatorAccount = accounts.validatorVote)
    (h : stakeTo rt accounts i v delta c s = .ok (w', e)) :
    (e.amount = none ∧ ∃ found, UnusedSpec accounts w w' found) ∨
      ∃ x, e.amount = some x ∧ ∃ topUp, Spec rt accounts i w w' v x topUp := by
  have hle : runs ≤ w.state.stakeSystem.extraStakeDeltaRuns := by omega
  simp only [stakeTo, bind_eq_ok] at h
  obtain ⟨-, -, target, -, h⟩ := h
  split at h
  · exact .inl (unused_spec h₁ hpaused hs hle h)
  · split at h
    · exact .inl (unused_spec h₁ hpaused hs hle h)
    · rename_i hmin
      have hmin' : w.state.stakeSystem.minStake
          ≤ stakeTarget s target v.activeBalance delta := by
        subst hs
        exact Nat.le_of_not_lt hmin
      exact .inr ⟨_, stake_spec h₁ hs hruns hpaused hdone hv hvoter hmin' h⟩

/-- Either nothing is staked and the new account is given back, or some amount is staked to the
validator. -/
theorem process_spec (h : accounts.process rt i w = .ok (w', e)) :
    (e.amount = none ∧ ∃ found, UnusedSpec accounts w w' found) ∨
      ∃ v x, e.amount = some x ∧ ∃ topUp, Spec rt accounts i w w' v x topUp := by
  simp only [process, bind_eq_ok, ensure_eq_ok, exists_const] at h
  obtain ⟨c, h₁, hpaused, hdone, delta, -, h⟩ := h
  have hpaused' : w.state.paused = false := by simpa using hpaused
  have hdone' := DelinquentUpgraderState.eq_done_of_isDone hdone
  obtain ⟨-, -, hclock, -⟩ := SystemProgram.initStakeAccount_rest h₁
  split at h
  · exact .inl (unused_spec h₁ hpaused' rfl le_rfl h)
  · simp only [bind_eq_ok, ValidatorSystem.getChecked_eq_ok, hclock] at h
    obtain ⟨v, ⟨hv, hvoter⟩, h⟩ := h
    split at h
    · rename_i hvisited
      split at h
      · exact .inl (unused_spec h₁ hpaused' rfl le_rfl h)
      · rename_i hgranted
        have hruns : w.state.stakeSystem.extraStakeDeltaRuns - 1
            + (if v.lastStakeDeltaEpoch = w.clock.epoch then 1 else 0)
              = w.state.stakeSystem.extraStakeDeltaRuns := by
          rw [if_pos hvisited]
          exact Nat.sub_add_cancel (Nat.pos_of_ne_zero hgranted)
        exact (stakeTo_spec h₁ rfl hruns hpaused' hdone' hv hvoter h).imp_right fun h ↦ ⟨v, h⟩
    · rename_i hfirst
      have hruns : w.state.stakeSystem.extraStakeDeltaRuns
          + (if v.lastStakeDeltaEpoch = w.clock.epoch then 1 else 0)
            = w.state.stakeSystem.extraStakeDeltaRuns := by
        rw [if_neg hfirst, Nat.add_zero]
      exact (stakeTo_spec h₁ rfl hruns hpaused' hdone' hv hvoter h).imp_right fun h ↦ ⟨v, h⟩

end

end StakeReserve

end Marinade
