import Marinade.Instructions.Crank.Update

/-!
# Update an active stake account

Rewards are delegated again by the network, so they show as a larger delegation; lamports beyond the
delegation are withdrawn to the reserve. A smaller delegation means that the validator was slashed.

While the stake list is being upgraded, the first visit also writes the status into the record and
counts the record for its validator.
-/

open Foundation Foundation.Ledger

namespace Marinade

namespace UpdateActive

/-- Turn an unknown status into an active one and advance the iteration. -/
def delinquentUpgrade (stake : StakeRecord) (validator : ValidatorRecord) (s : State) :
    Except Error (StakeRecord × ValidatorRecord × State) :=
  if stake.lastUpdateStatus = .unknown then
    match s.delinquentUpgrader with
    | .iteratingStakes visitedCount totalActiveBalance totalDelinquentBalance => do
      let visitedCount ← addUpTo u32Max visitedCount 1
      let totalActiveBalance ←
        checkedAdd totalActiveBalance stake.lastUpdateDelegatedLamports
      ensure (totalActiveBalance ≤ s.validatorSystem.totalActiveBalance)
        (.marinade .upgradingInvariantViolation)
      let delinquentUpgraderActiveBalance ← checkedAdd
        validator.delinquentUpgraderActiveBalance stake.lastUpdateDelegatedLamports
      ensure (delinquentUpgraderActiveBalance ≤ validator.activeBalance)
        (.marinade .upgradingInvariantViolation)
      return ({ stake with lastUpdateStatus := .active },
        { validator with delinquentUpgraderActiveBalance },
        { s with delinquentUpgrader :=
          .iteratingStakes visitedCount totalActiveBalance totalDelinquentBalance })
    | _ => .error (.marinade .upgradingInvariantViolation)
  else .ok (stake, validator, s)

/-- Keep the numbers of the iteration in line with rewards. -/
def delinquentUpgradeOnRewards (validator : ValidatorRecord) (rewards : ℕ) (s : State) :
    Except Error (ValidatorRecord × State) :=
  match s.delinquentUpgrader with
  | .iteratingStakes visitedCount totalActiveBalance totalDelinquentBalance => do
    let delinquentUpgraderActiveBalance ←
      checkedAdd validator.delinquentUpgraderActiveBalance rewards
    let totalActiveBalance ← checkedAdd totalActiveBalance rewards
    return ({ validator with delinquentUpgraderActiveBalance },
      { s with delinquentUpgrader :=
        .iteratingStakes visitedCount totalActiveBalance totalDelinquentBalance })
  | _ => .ok (validator, s)

/-- Keep the numbers of the iteration in line with slashing. -/
def delinquentUpgradeOnSlash (validator : ValidatorRecord) (slashed : ℕ) (s : State) :
    Except Error (ValidatorRecord × State) :=
  match s.delinquentUpgrader with
  | .iteratingStakes visitedCount totalActiveBalance totalDelinquentBalance => do
    let delinquentUpgraderActiveBalance ← checkedSub .upgraderValidatorActiveBalance
      validator.delinquentUpgraderActiveBalance slashed
    let totalActiveBalance ← checkedSub .upgraderActiveBalance totalActiveBalance slashed
    return ({ validator with delinquentUpgraderActiveBalance },
      { s with delinquentUpgrader :=
        .iteratingStakes visitedCount totalActiveBalance totalDelinquentBalance })
  | _ => .ok (validator, s)

/-- Lamports beyond the delegation go to the reserve, which raises the price, and the fee on them is
minted after that. -/
def collectExtra (rt : Runtime) (accounts : UpdateCommon) (ready : Bool) (extraLamports : ℕ)
    (w : World) : Except Error World :=
  if 0 < extraLamports then do
    let w ← accounts.withdrawToReserve rt extraLamports w
    UpdateCommon.mintProtocolFeesIf ready extraLamports w
  else .ok w

/-- Book rewards. The fee is minted before they enter the price. -/
def bookRewards (ready : Bool) (rewards : ℕ) (validator : ValidatorRecord) (w : World) :
    Except Error (ValidatorRecord × World) := do
  let w ← UpdateCommon.mintProtocolFeesIf ready rewards w
  let activeBalance ← checkedAdd validator.activeBalance rewards
  let totalActiveBalance ← checkedAdd w.state.validatorSystem.totalActiveBalance rewards
  let upgraded ← delinquentUpgradeOnRewards { validator with activeBalance } rewards
    { w.state with validatorSystem := { w.state.validatorSystem with totalActiveBalance } }
  return (upgraded.1, { w with state := upgraded.2 })

/-- Book slashing. -/
def bookSlash (slashed : ℕ) (validator : ValidatorRecord) (w : World) :
    Except Error (ValidatorRecord × World) := do
  let activeBalance ← checkedSub .validatorActiveBalance validator.activeBalance slashed
  let totalActiveBalance ←
    checkedSub .totalActiveBalance w.state.validatorSystem.totalActiveBalance slashed
  let upgraded ← delinquentUpgradeOnSlash { validator with activeBalance } slashed
    { w.state with validatorSystem := { w.state.validatorSystem with totalActiveBalance } }
  return (upgraded.1, { w with state := upgraded.2 })

/-- Book the difference between the delegation and what the record remembers. -/
def bookDelegation (ready : Bool) (delegatedLamports lastUpdateDelegatedLamports : ℕ)
    (validator : ValidatorRecord) (w : World) : Except Error (ValidatorRecord × World) :=
  if lastUpdateDelegatedLamports ≤ delegatedLamports then
    bookRewards ready (delegatedLamports - lastUpdateDelegatedLamports) validator w
  else bookSlash (lastUpdateDelegatedLamports - delegatedLamports) validator w

/-- Store the records and the price. -/
def finish (stakeIndex validatorIndex : ℕ) (stake : StakeRecord) (validator : ValidatorRecord)
    (w : World) : Except Error World := do
  let validatorSystem ← w.state.validatorSystem.set validatorIndex validator
  let s ← UpdateCommon.updateMsolPrice { w.state with validatorSystem }
  let stakeSystem ← s.stakeSystem.set stakeIndex stake
  let reserve ← checkedAdd s.availableReserveBalance s.rentExemptForTokenAcc
  ensure (reserve = w.lamportsOf .reserve) (.assertion .reserveAligned)
  let state ← UpdateCommon.checkDelinquentUpgradeStateProgression { s with stakeSystem }
  return { w with state }

def process (rt : Runtime) (accounts : UpdateCommon) (stakeIndex validatorIndex : ℕ)
    (w : World) : Except Error World := do
  ensure (!w.state.paused) (.marinade .programIsPaused)
  -- updating would break the invariants while the upgrade iterates over the validators
  ensure (!w.state.delinquentUpgrader.isIteratingValidators)
    (.marinade .delinquentUpgraderIsNotDone)
  let _ ← w.state.totalVirtualStakedLamports
  let b ← accounts.begin stakeIndex validatorIndex w
  ensure (b.delegation.deactivationEpoch = epochMax) (.marinade .requiredActiveStake)
  ensure (b.stake.lastUpdateStatus ≠ .deactivating) (.marinade .requiredActiveStake)
  let upgraded ← delinquentUpgrade b.stake b.validator w.realigned
  -- the rent is not part of the stake
  let stakeBalanceWithoutRent ← checkedSub .amount (w.lamportsOf accounts.stakeAccount)
    b.stakeAccount.stakeMeta.rentExemptReserve
  let extraLamports := stakeBalanceWithoutRent - b.delegation.stake
  let w ← collectExtra rt accounts b.isTreasuryMsolReadyForTransfer extraLamports
    { w with state := upgraded.2.2 }
  let booked ← bookDelegation b.isTreasuryMsolReadyForTransfer b.delegation.stake
    upgraded.1.lastUpdateDelegatedLamports upgraded.2.1 w
  finish stakeIndex validatorIndex { upgraded.1 with
    lastUpdateEpoch := w.clock.epoch
    lastUpdateDelegatedLamports := b.delegation.stake } booked.1 booked.2

/-! ## What an update does -/

/-- What was already counted of a record: nothing before its first visit. -/
def counted (r : StakeRecord) : ℕ :=
  if r.lastUpdateStatus = .unknown then 0 else r.lastUpdateDelegatedLamports

/-- How the phase `u` and the upgrader balance of the validator change when `r` is found to
delegate `stake`. -/
def Visited (r : StakeRecord) (stake : ℕ) (u u' : DelinquentUpgraderState) (up up' : ℕ) : Prop :=
  match u with
  | .iteratingStakes visitedCount totalActiveBalance totalDelinquentBalance =>
    ∃ totalActiveBalance',
      u' = .iteratingStakes
        (visitedCount + if r.lastUpdateStatus = .unknown then 1 else 0)
        totalActiveBalance' totalDelinquentBalance ∧
      totalActiveBalance' + counted r = totalActiveBalance + stake ∧
      up' + counted r = up + stake
  | .iteratingValidators .. => False
  | .done => r.lastUpdateStatus = .active ∧ u' = .done ∧ up' = up

/-- How they change when `last` lamports of a visited record turn into `stake`. -/
def Rebooked (last stake : ℕ) (u u' : DelinquentUpgraderState) (up up' : ℕ) : Prop :=
  match u with
  | .iteratingStakes visitedCount totalActiveBalance totalDelinquentBalance =>
    ∃ totalActiveBalance',
      u' = .iteratingStakes visitedCount totalActiveBalance' totalDelinquentBalance ∧
      totalActiveBalance' + last = totalActiveBalance + stake ∧ up' + last = up + stake
  | _ => u' = u ∧ up' = up

theorem Visited.rebooked {r : StakeRecord} {stake : ℕ} {u u₁ u₂ : DelinquentUpgraderState}
    {up up₁ up₂ : ℕ} (h₁ : Visited r r.lastUpdateDelegatedLamports u u₁ up up₁)
    (h₂ : Rebooked r.lastUpdateDelegatedLamports stake u₁ u₂ up₁ up₂) :
    Visited r stake u u₂ up up₂ := by
  unfold Visited at h₁ ⊢
  split at h₁
  · obtain ⟨total, rfl, htotal, hup⟩ := h₁
    obtain ⟨total', rfl, htotal', hup'⟩ := h₂
    exact ⟨total', rfl, by omega, by omega⟩
  · exact h₁
  · obtain ⟨hactive, rfl, rfl⟩ := h₁
    exact ⟨hactive, h₂⟩

/-- The effect of a successful update that finds `extra` lamports beyond the delegation and mints
the fees `fee₁` on them and `fee₂` on the rewards. -/
structure Spec (accounts : UpdateCommon) (i j : ℕ) (w w' : World) (account : StakeAccount)
    (d : Delegation) (r : StakeRecord) (v v' : ValidatorRecord) (extra fee₁ fee₂ : ℕ) : Prop
    extends UpdateCommon.Begun accounts i j w account d r v where
  not_paused : w.state.paused = false
  active : d.deactivationEpoch = epochMax
  not_deactivating : r.lastUpdateStatus ≠ .deactivating
  rent_le : account.stakeMeta.rentExemptReserve ≤ w.lamportsOf accounts.stakeAccount
  extra_eq : extra = w.lamportsOf accounts.stakeAccount
    - account.stakeMeta.rentExemptReserve - d.stake
  lamports_eq : ∀ k, w'.lamportsOf k + only accounts.stakeAccount extra k
    = w.lamportsOf k + only .reserve extra k
  capital_eq : w'.lamports.total = w.lamports.total
  fee₁_eq : UpdateCommon.TreasuryFee { w.realigned with
    availableReserveBalance := w.realigned.availableReserveBalance + extra } extra fee₁
  fee₂_eq : UpdateCommon.TreasuryFee { w.realigned with
    availableReserveBalance := w.realigned.availableReserveBalance + extra
    msolSupply := w.realigned.msolSupply + fee₁ }
    (d.stake - r.lastUpdateDelegatedLamports) fee₂
  supply_eq : w'.msol.supply = w.msol.supply + fee₁ + fee₂
  amount_eq : ∀ k, w'.msol.amount k
    = w.msol.amount k + only w.state.treasuryMsolAccount (fee₁ + fee₂) k
  records_eq : w'.state.stakeSystem.records = w.state.stakeSystem.records.set i { r with
    lastUpdateStatus := .active
    lastUpdateEpoch := w.clock.epoch
    lastUpdateDelegatedLamports := d.stake }
  validators_eq : w'.state.validatorSystem.records = w.state.validatorSystem.records.set j v'
  validator_eq : v' = { v with
    activeBalance := v'.activeBalance
    delinquentUpgraderActiveBalance := v'.delinquentUpgraderActiveBalance }
  validator_balance : v'.activeBalance + r.lastUpdateDelegatedLamports
    = v.activeBalance + d.stake
  total_balance : w'.state.validatorSystem.totalActiveBalance + r.lastUpdateDelegatedLamports
    = w.state.validatorSystem.totalActiveBalance + d.stake
  upgrader : ∃ u, Visited r d.stake w.state.delinquentUpgrader u
      v.delinquentUpgraderActiveBalance v'.delinquentUpgraderActiveBalance ∧
    UpdateCommon.Progressed w'.state.stakeSystem.records.length
      w'.state.validatorSystem.totalActiveBalance u w'.state.delinquentUpgrader
  reserve_aligned : w'.state.availableReserveBalance + w.state.rentExemptForTokenAcc
    = w'.lamportsOf .reserve
  state_eq : ∃ price, w'.state = { w.realigned with
    stakeSystem := { w.state.stakeSystem with stakeList := w'.state.stakeSystem.stakeList }
    validatorSystem := { w.state.validatorSystem with
      validatorList := w'.state.validatorSystem.validatorList
      totalActiveBalance := w'.state.validatorSystem.totalActiveBalance }
    availableReserveBalance := w.realigned.availableReserveBalance + extra
    msolSupply := w.realigned.msolSupply + fee₁ + fee₂
    msolPrice := price
    delinquentUpgrader := w'.state.delinquentUpgrader }
  spares : w.SparesOthers [] w'.toChain
  frame : w'.toChain = { w.toChain with lamports := w'.lamports, msol := w'.msol }

section

variable {rt : Runtime} {accounts : UpdateCommon} {i j x last : ℕ} {w w' : World} {s s' : State}
  {r r' : StakeRecord} {v v' : ValidatorRecord} {ready : Bool} {account : StakeAccount}

theorem delinquentUpgrade_spec (h : delinquentUpgrade r v s = .ok (r', v', s'))
    (hr : r.lastUpdateStatus ≠ .deactivating)
    (hs : s.delinquentUpgrader.isIteratingValidators = false) :
    r' = { r with lastUpdateStatus := .active } ∧ ∃ up u,
      v' = { v with delinquentUpgraderActiveBalance := up } ∧
      s' = { s with delinquentUpgrader := u } ∧
      Visited r r.lastUpdateDelegatedLamports s.delinquentUpgrader u
        v.delinquentUpgraderActiveBalance up := by
  unfold delinquentUpgrade at h
  split at h
  · rename_i hunknown
    cases hu : s.delinquentUpgrader with
    | iteratingStakes visited active delinquent =>
      simp only [hu, bind_eq_ok, addUpTo_eq_ok, checkedAdd_eq_ok, ensure_eq_ok, pure_eq_ok,
        exists_const] at h
      obtain ⟨count, ⟨-, rfl⟩, total, ⟨-, rfl⟩, -, up, ⟨-, rfl⟩, -, h⟩ := h
      cases h
      refine ⟨rfl, _, _, rfl, rfl, active + r.lastUpdateDelegatedLamports, ?_, ?_, ?_⟩
      · rw [if_pos hunknown]
      · simp [counted, hunknown]
      · simp [counted, hunknown]
    | iteratingValidators => simp [hu] at h
    | done => simp [hu] at h
  · rename_i hknown
    cases h
    have hactive : r.lastUpdateStatus = .active := by
      cases hst : r.lastUpdateStatus <;> simp_all
    refine ⟨by rw [← hactive], _, _, rfl, rfl, ?_⟩
    cases hu : s.delinquentUpgrader with
    | iteratingStakes visited active delinquent =>
      refine ⟨active, ?_, ?_, ?_⟩
      · rw [if_neg hknown, Nat.add_zero]
      · simp [counted, hknown]
      · simp [counted, hknown]
    | iteratingValidators visited left =>
      rw [hu] at hs
      cases hs
    | done => exact ⟨hactive, rfl, rfl⟩

private theorem bookRewards_spec {rewards : ℕ}
    (h : bookRewards ready rewards v w = .ok (v', w')) :
    ∃ fee msol up u, UpdateCommon.TreasuryFee w.state rewards fee ∧
      msol.supply = w.msol.supply + fee ∧
      (∀ k, msol.amount k = w.msol.amount k + only w.state.treasuryMsolAccount fee k) ∧
      Rebooked 0 rewards w.state.delinquentUpgrader u v.delinquentUpgraderActiveBalance up ∧
      v' = { v with
        activeBalance := v.activeBalance + rewards, delinquentUpgraderActiveBalance := up } ∧
      w' = { w with
        msol := msol
        state := { w.state with
          msolSupply := w.state.msolSupply + fee
          validatorSystem := { w.state.validatorSystem with
            totalActiveBalance := w.state.validatorSystem.totalActiveBalance + rewards }
          delinquentUpgrader := u } } := by
  simp only [bookRewards, bind_eq_ok, checkedAdd_eq_ok, pure_eq_ok] at h
  obtain ⟨w₁, h₁, active, ⟨-, rfl⟩, total, ⟨-, rfl⟩, upgraded, hup, h⟩ := h
  obtain ⟨fee, msol, hfee, hsupply, hamount, rfl⟩ := UpdateCommon.mintProtocolFeesIf_spec h₁
  cases h
  cases hu : w.state.delinquentUpgrader with
  | iteratingStakes visited active delinquent =>
    simp only [delinquentUpgradeOnRewards, hu, bind_eq_ok, checkedAdd_eq_ok, pure_eq_ok] at hup
    obtain ⟨up, ⟨-, rfl⟩, total, ⟨-, rfl⟩, rfl⟩ := hup
    exact ⟨fee, msol, _, _, hfee, hsupply, hamount, ⟨_, rfl, rfl, rfl⟩, rfl, rfl⟩
  | iteratingValidators visited left =>
    simp only [delinquentUpgradeOnRewards, hu] at hup
    cases hup
    exact ⟨fee, msol, _, _, hfee, hsupply, hamount, ⟨rfl, rfl⟩, rfl, by rw [← hu]⟩
  | done =>
    simp only [delinquentUpgradeOnRewards, hu] at hup
    cases hup
    exact ⟨fee, msol, _, _, hfee, hsupply, hamount, ⟨rfl, rfl⟩, rfl, by rw [← hu]⟩

private theorem bookSlash_spec {slashed : ℕ} (h : bookSlash slashed v w = .ok (v', w')) :
    slashed ≤ v.activeBalance ∧ slashed ≤ w.state.validatorSystem.totalActiveBalance ∧
    ∃ up u, Rebooked slashed 0 w.state.delinquentUpgrader u v.delinquentUpgraderActiveBalance up ∧
      v' = { v with
        activeBalance := v.activeBalance - slashed, delinquentUpgraderActiveBalance := up } ∧
      w' = { w with
        state := { w.state with
          validatorSystem := { w.state.validatorSystem with
            totalActiveBalance := w.state.validatorSystem.totalActiveBalance - slashed }
          delinquentUpgrader := u } } := by
  simp only [bookSlash, bind_eq_ok, checkedSub_eq_ok, pure_eq_ok] at h
  obtain ⟨active, ⟨hv, rfl⟩, total, ⟨ht, rfl⟩, upgraded, hup, h⟩ := h
  cases h
  cases hu : w.state.delinquentUpgrader with
  | iteratingStakes visited active delinquent =>
    simp only [delinquentUpgradeOnSlash, hu, bind_eq_ok, checkedSub_eq_ok, pure_eq_ok] at hup
    obtain ⟨up, ⟨hle, rfl⟩, total, ⟨hle', rfl⟩, rfl⟩ := hup
    exact ⟨hv, ht, _, _, ⟨_, rfl, Nat.sub_add_cancel hle', Nat.sub_add_cancel hle⟩, rfl, rfl⟩
  | iteratingValidators visited left =>
    simp only [delinquentUpgradeOnSlash, hu] at hup
    cases hup
    exact ⟨hv, ht, _, _, ⟨rfl, rfl⟩, rfl, by rw [← hu]⟩
  | done =>
    simp only [delinquentUpgradeOnSlash, hu] at hup
    cases hup
    exact ⟨hv, ht, _, _, ⟨rfl, rfl⟩, rfl, by rw [← hu]⟩

/-- Only the difference between the two amounts is booked. -/
private theorem Rebooked.of_difference {last' x' : ℕ} {u u' : DelinquentUpgraderState}
    {up up' : ℕ} (heq : x' + last = x + last') (h : Rebooked last' x' u u' up up') :
    Rebooked last x u u' up up' := by
  cases u with
  | iteratingStakes =>
    obtain ⟨total, rfl, htotal, hup⟩ := h
    exact ⟨total, rfl, by omega, by omega⟩
  | iteratingValidators => exact h
  | done => exact h

theorem bookDelegation_spec (h : bookDelegation ready x last v w = .ok (v', w')) :
    ∃ fee msol up u active total, UpdateCommon.TreasuryFee w.state (x - last) fee ∧
      msol.supply = w.msol.supply + fee ∧
      (∀ k, msol.amount k = w.msol.amount k + only w.state.treasuryMsolAccount fee k) ∧
      Rebooked last x w.state.delinquentUpgrader u v.delinquentUpgraderActiveBalance up ∧
      active + last = v.activeBalance + x ∧
      total + last = w.state.validatorSystem.totalActiveBalance + x ∧
      v' = { v with activeBalance := active, delinquentUpgraderActiveBalance := up } ∧
      w' = { w with
        msol := msol
        state := { w.state with
          msolSupply := w.state.msolSupply + fee
          validatorSystem := { w.state.validatorSystem with totalActiveBalance := total }
          delinquentUpgrader := u } } := by
  unfold bookDelegation at h
  split at h
  · obtain ⟨fee, msol, up, u, hfee, hsupply, hamount, hu, rfl, rfl⟩ := bookRewards_spec h
    exact ⟨fee, msol, up, u, _, _, hfee, hsupply, hamount, hu.of_difference (by omega), by omega,
      by omega, rfl, rfl⟩
  · obtain ⟨hv, ht, up, u, hu, rfl, rfl⟩ := bookSlash_spec h
    exact ⟨0, w.msol, up, u, _, _, .inl rfl, rfl, by simp, hu.of_difference (by omega), by omega,
      by omega, rfl, rfl⟩

theorem collectExtra_spec (h : collectExtra rt accounts ready x w = .ok w')
    (ha : w.stakes accounts.stakeAccount = some account)
    (hlt : x < w.lamportsOf accounts.stakeAccount) :
    ∃ fee msol ledger, UpdateCommon.TreasuryFee { w.state with
        availableReserveBalance := w.state.availableReserveBalance + x } x fee ∧
      msol.supply = w.msol.supply + fee ∧
      (∀ k, msol.amount k = w.msol.amount k + only w.state.treasuryMsolAccount fee k) ∧
      ledger.total = w.lamports.total ∧
      (∀ k, ledger.balance k + only accounts.stakeAccount x k
        = w.lamportsOf k + only .reserve x k) ∧
      w' = { w with
        lamports := ledger
        msol := msol
        state := { w.state with
          availableReserveBalance := w.state.availableReserveBalance + x
          msolSupply := w.state.msolSupply + fee } } := by
  unfold collectExtra at h
  split at h
  · obtain ⟨w₁, h₁, h₂⟩ := bind_eq_ok.mp h
    obtain ⟨l, ht, hl, rfl⟩ := UpdateCommon.withdrawToReserve_part_spec h₁ ha hlt
    obtain ⟨fee, msol, hfee, hsupply, hamount, rfl⟩ := UpdateCommon.mintProtocolFeesIf_spec h₂
    exact ⟨fee, msol, l, hfee, hsupply, hamount, ht, hl, rfl⟩
  · cases h
    obtain rfl : x = 0 := by omega
    exact ⟨0, w.msol, w.lamports, .inl rfl, rfl, by simp, rfl, by simp, rfl⟩

private theorem finish_spec (h : finish i j r v w = .ok w') :
    w'.state.stakeSystem.records = w.state.stakeSystem.records.set i r ∧
    w'.state.validatorSystem.records = w.state.validatorSystem.records.set j v ∧
    w.state.availableReserveBalance + w.state.rentExemptForTokenAcc = w.lamportsOf .reserve ∧
    ∃ price u, UpdateCommon.Progressed w'.state.stakeSystem.records.length
        w.state.validatorSystem.totalActiveBalance w.state.delinquentUpgrader u ∧
      w' = { w with state := { w.state with
        stakeSystem := { w.state.stakeSystem with
          stakeList := w'.state.stakeSystem.stakeList }
        validatorSystem := { w.state.validatorSystem with
          validatorList := w'.state.validatorSystem.validatorList }
        msolPrice := price
        delinquentUpgrader := u } } := by
  simp only [finish, bind_eq_ok, checkedAdd_eq_ok, ensure_eq_ok, pure_eq_ok, exists_const] at h
  obtain ⟨vs, hvs, s, hs, ss, hss, reserve, ⟨-, rfl⟩, haligned, s', hs', rfl⟩ := h
  obtain ⟨price, rfl⟩ := UpdateCommon.updateMsolPrice_spec hs
  obtain ⟨u, hu, rfl⟩ := UpdateCommon.progression_spec hs'
  obtain ⟨hvs, hvalidators⟩ := ValidatorSystem.set_eq_ok hvs
  obtain ⟨hss, hrecords⟩ := StakeSystem.set_eq_ok hss
  refine ⟨hrecords, hvalidators, haligned, price, u, ?_, ?_⟩
  · rw [hvs] at hu
    exact hu
  · simp only
    rw [hvs, hss]

/-- On the chain an update withdraws to the reserve and mints fees: a relation that allows both
holds between the chain before and after. -/
theorem process_chain {R : Chain → Chain → Prop} (h : process rt accounts i j w = .ok w')
    (hrefl : ∀ c, R c c) (htrans : ∀ {c₁ c₂ c₃}, R c₁ c₂ → R c₂ c₃ → R c₁ c₃)
    (hwithdraw : ∀ {w w' x}, accounts.withdrawToReserve rt x w = .ok w' → R w.toChain w'.toChain)
    (hfees : ∀ {ready x w w'}, UpdateCommon.mintProtocolFeesIf ready x w = .ok w' →
      R w.toChain w'.toChain) : R w.toChain w'.toChain := by
  simp only [process, bind_eq_ok] at h
  obtain ⟨_, -, _, -, _, -, b, -, _, -, _, -, upgraded, -, _, -, w₁, h₁, booked, h₂, h⟩ := h
  have hcollect : R w.toChain w₁.toChain := by
    unfold collectExtra at h₁
    split at h₁
    · simp only [bind_eq_ok] at h₁
      obtain ⟨w₀, h₀, h₁⟩ := h₁
      have hwithdrawn := hwithdraw h₀
      exact htrans hwithdrawn (hfees h₁)
    · cases h₁
      exact hrefl _
  have hbook : R w₁.toChain booked.2.toChain := by
    unfold bookDelegation at h₂
    split at h₂
    · simp only [bookRewards, bind_eq_ok, pure_eq_ok] at h₂
      obtain ⟨w₂, h₂, _, -, _, -, _, -, rfl⟩ := h₂
      have hminted := hfees h₂
      exact hminted
    · simp only [bookSlash, bind_eq_ok, pure_eq_ok] at h₂
      obtain ⟨_, -, _, -, _, -, rfl⟩ := h₂
      exact hrefl _
  simp only [finish, bind_eq_ok, pure_eq_ok] at h
  obtain ⟨_, -, _, -, _, -, _, -, _, -, _, -, rfl⟩ := h
  exact htrans hcollect hbook

/-- A successful update books the delegation and the lamports beyond it. -/
theorem process_spec (h : process rt accounts i j w = .ok w')
    (hfunded : w.Funded accounts.stakeAccount) :
    ∃ account d r v v' extra fee₁ fee₂,
      Spec accounts i j w w' account d r v v' extra fee₁ fee₂ := by
  have hspares : w.SparesOthers [] w'.toChain := process_chain h .refl .trans
    UpdateCommon.withdrawToReserve_spares UpdateCommon.mintProtocolFeesIf_spares
  simp only [process, bind_eq_ok, ensure_eq_ok, exists_const, checkedSub_eq_ok] at h
  obtain ⟨hpaused, hphase, -, -, b, hb, hactive, hstatus, ⟨r₁, v₁, s₁⟩, hup, balance, ⟨hrent, rfl⟩,
    w₂, h₂, ⟨v₃, w₃⟩, h₃, h₄⟩ := h
  have hbegun := UpdateCommon.begin_spec hb
  have hiterating : w.state.delinquentUpgrader.isIteratingValidators = false := by
    simpa using hphase
  obtain ⟨rfl, up, u, rfl, rfl, hvisited⟩ := delinquentUpgrade_spec hup hstatus hiterating
  have hlt : w.lamportsOf accounts.stakeAccount - b.stakeAccount.stakeMeta.rentExemptReserve
      - b.delegation.stake < w.lamportsOf accounts.stakeAccount := by
    have := hfunded _ _ hbegun.account_eq hbegun.delegation_eq
    omega
  obtain ⟨fee₁, msol₁, l, hfee₁, hsupply₁, hamount₁, ht, hl, rfl⟩ :=
    collectExtra_spec h₂ hbegun.account_eq hlt
  obtain ⟨fee₂, msol₂, up', u', active, total, hfee₂, hsupply₂, hamount₂, hrebooked, hv, htotal,
    rfl, rfl⟩ := bookDelegation_spec h₃
  obtain ⟨hrecords, hvalidators, haligned, price, u'', hprogress, hw⟩ := finish_spec h₄
  rw [hw] at hspares ⊢
  exact ⟨_, _, _, _, _, _, fee₁, fee₂, {
    hbegun with
    not_paused := by simpa using hpaused
    active := hactive
    not_deactivating := hstatus
    rent_le := hrent
    extra_eq := rfl
    lamports_eq := hl
    capital_eq := ht
    fee₁_eq := hfee₁
    fee₂_eq := hfee₂
    supply_eq := hsupply₂.trans (congrArg (· + fee₂) hsupply₁)
    amount_eq := fun k ↦ by
      rw [only_add, ← Nat.add_assoc]
      exact (hamount₂ k).trans (congrArg (· + _) (hamount₁ k))
    records_eq := hrecords
    validators_eq := hvalidators
    validator_eq := rfl
    validator_balance := hv
    total_balance := htotal
    upgrader := ⟨u', hvisited.rebooked hrebooked, hprogress⟩
    reserve_aligned := haligned
    state_eq := ⟨price, rfl⟩
    spares := hspares
    frame := rfl }⟩

end

end UpdateActive

end Marinade
