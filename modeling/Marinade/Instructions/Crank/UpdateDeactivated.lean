import Marinade.Instructions.Crank.Update

/-!
# Update a deactivated stake account

A stake account that has cooled down is closed: its lamports go to the reserve, its rent to the
operational account and its record is removed. An account whose record is still active was
deactivated by somebody else because its validator is delinquent, and is booked like an emergency
unstake first.

What the account holds beyond what the record remembers is a reward; the delegation is ignored.
-/

open Foundation Foundation.Ledger

namespace Marinade

/-- The accounts of `update_deactivated`. -/
structure UpdateDeactivated extends UpdateCommon where
  operationalSolAccount : Pubkey
  deriving DecidableEq, Repr

namespace UpdateDeactivated

/-- Book the deactivation of a delinquent account that the record does not know of yet. -/
def detectDelinquent (validatorIndex : ℕ) (stake : StakeRecord) (validator : ValidatorRecord)
    (s : State) : Except Error (StakeRecord × State) :=
  if stake.lastUpdateStatus = .active then do
    ensure (!stake.isEmergencyUnstaking) (.marinade .stakeAccountIsEmergencyUnstaking)
    let emergencyCoolingDown ←
      checkedAdd s.emergencyCoolingDown stake.lastUpdateDelegatedLamports
    let totalActiveBalance ← checkedSub .totalActiveBalance
      s.validatorSystem.totalActiveBalance stake.lastUpdateDelegatedLamports
    let activeBalance ← checkedSub .validatorActiveBalance validator.activeBalance
      stake.lastUpdateDelegatedLamports
    let validatorSystem ← { s.validatorSystem with totalActiveBalance }.set validatorIndex
      { validator with activeBalance }
    return ({ stake with isEmergencyUnstaking := true },
      { s with validatorSystem, emergencyCoolingDown })
  else .ok (stake, s)

/-- Take the amount of the record out of what is cooling down. While the stake list is being
upgraded, what is not there must have been booked as active. -/
def bookOut (stake : StakeRecord) (s : State) : Except Error State :=
  match s.delinquentUpgrader with
  | .iteratingStakes visitedCount totalActiveBalance totalDelinquentBalance =>
    if !stake.isEmergencyUnstaking then do
      let available :=
        min s.stakeSystem.delayedUnstakeCoolingDown stake.lastUpdateDelegatedLamports
      let delinquentAmount := stake.lastUpdateDelegatedLamports - available
      let totalDelinquentBalance ← checkedAdd totalDelinquentBalance delinquentAmount
      let total ←
        checkedSub .totalActiveBalance s.validatorSystem.totalActiveBalance delinquentAmount
      return { s with
        stakeSystem := { s.stakeSystem with
          delayedUnstakeCoolingDown := s.stakeSystem.delayedUnstakeCoolingDown - available }
        validatorSystem := { s.validatorSystem with totalActiveBalance := total }
        delinquentUpgrader :=
          .iteratingStakes visitedCount totalActiveBalance totalDelinquentBalance }
    else do
      let available := min s.emergencyCoolingDown stake.lastUpdateDelegatedLamports
      let delinquentAmount := stake.lastUpdateDelegatedLamports - available
      let totalDelinquentBalance ← checkedAdd totalDelinquentBalance delinquentAmount
      let total ←
        checkedSub .totalActiveBalance s.validatorSystem.totalActiveBalance delinquentAmount
      return { s with
        emergencyCoolingDown := s.emergencyCoolingDown - available
        validatorSystem := { s.validatorSystem with totalActiveBalance := total }
        delinquentUpgrader :=
          .iteratingStakes visitedCount totalActiveBalance totalDelinquentBalance }
  | _ =>
    if !stake.isEmergencyUnstaking then do
      let delayedUnstakeCoolingDown ← checkedSub .delayedUnstakeCoolingDown
        s.stakeSystem.delayedUnstakeCoolingDown stake.lastUpdateDelegatedLamports
      return { s with stakeSystem := { s.stakeSystem with delayedUnstakeCoolingDown } }
    else do
      let emergencyCoolingDown ← checkedSub .emergencyCoolingDown s.emergencyCoolingDown
        stake.lastUpdateDelegatedLamports
      return { s with emergencyCoolingDown }

/-- Nothing has to be booked for an empty record. -/
def bookOutSome (stake : StakeRecord) (s : State) : Except Error State :=
  if stake.lastUpdateDelegatedLamports ≠ 0 then bookOut stake s else .ok s

/-- Empty the account: everything to the reserve, and the rent on to the operational account. -/
def close (rt : Runtime) (accounts : UpdateDeactivated) (rent : ℕ) (w : World) :
    Except Error World := do
  let w ← accounts.withdrawToReserve rt (w.lamportsOf accounts.stakeAccount) w
  let chain ← SystemProgram.transfer w.toChain .reserve accounts.operationalSolAccount rent
  let state ← w.state.onTransferFromReserve rent
  return { toChain := chain, state }

/-- Store the price and remove the record. -/
def finish (stakeIndex : ℕ) (w : World) : Except Error World := do
  let s ← UpdateCommon.updateMsolPrice w.state
  let stakeSystem ← s.stakeSystem.remove stakeIndex
  let state ← UpdateCommon.checkDelinquentUpgradeStateProgression { s with stakeSystem }
  return { w with state }

def process (rt : Runtime) (accounts : UpdateDeactivated) (stakeIndex validatorIndex : ℕ)
    (w : World) : Except Error World := do
  ensure (accounts.operationalSolAccount = w.state.operationalSolAccount) .constraint
  ensure (!w.state.paused) (.marinade .programIsPaused)
  let _ ← w.state.totalVirtualStakedLamports
  let b ← accounts.begin stakeIndex validatorIndex w
  ensure (b.delegation.deactivationEpoch ≠ epochMax) (.marinade .requiredDeactivatingStake)
  let detected ← detectDelinquent validatorIndex b.stake b.validator w.realigned
  let rent := b.stakeAccount.stakeMeta.rentExemptReserve
  let stakeBalanceWithoutRent ←
    checkedSub .amount (w.lamportsOf accounts.stakeAccount) rent
  -- the rewards; nothing when the account was slashed
  let rewards := stakeBalanceWithoutRent - b.stake.lastUpdateDelegatedLamports
  let w ← UpdateCommon.mintProtocolFeesIf
    (b.isTreasuryMsolReadyForTransfer ∧
      b.stake.lastUpdateDelegatedLamports ≤ stakeBalanceWithoutRent) rewards
    { w with state := detected.2 }
  let w ← accounts.close rt rent w
  let state ← bookOutSome detected.1 w.state
  finish stakeIndex { w with state }

/-! ## What an update does -/

/-- How the detection changes what is booked as active and as cooling down in an emergency. -/
structure Detected (j : ℕ) (r r' : StakeRecord) (v : ValidatorRecord) (s s' : State) : Prop where
  record_eq : r' = { r with
    isEmergencyUnstaking := r.isEmergencyUnstaking || decide (r.lastUpdateStatus = .active) }
  not_emergency : r.lastUpdateStatus = .active → r.isEmergencyUnstaking = false
  validators_eq : s'.validatorSystem.records =
    if r.lastUpdateStatus = .active then s.validatorSystem.records.set j
      { v with activeBalance := v.activeBalance - r.lastUpdateDelegatedLamports }
    else s.validatorSystem.records
  validator_balance : r.lastUpdateStatus = .active →
    r.lastUpdateDelegatedLamports ≤ v.activeBalance
  total_balance : s'.validatorSystem.totalActiveBalance +
      (if r.lastUpdateStatus = .active then r.lastUpdateDelegatedLamports else 0)
    = s.validatorSystem.totalActiveBalance
  emergency_eq : s'.emergencyCoolingDown = s.emergencyCoolingDown +
    (if r.lastUpdateStatus = .active then r.lastUpdateDelegatedLamports else 0)
  state_eq : s' = { s with
    validatorSystem := { s.validatorSystem with
      validatorList := s'.validatorSystem.validatorList
      totalActiveBalance := s'.validatorSystem.totalActiveBalance }
    emergencyCoolingDown := s'.emergencyCoolingDown }

/-- How the amount `x` of a removed record leaves the books: it is taken from one of the two
cooling-down totals, `delinquent` of it from the active one. Only while the stake list is being
upgraded is anything delinquent. -/
structure BookedOut (emergency : Bool) (x : ℕ) (s s' : State) (delinquent : ℕ) : Prop where
  delayed_eq : s'.stakeSystem.delayedUnstakeCoolingDown +
    (if emergency then 0 else x - delinquent) = s.stakeSystem.delayedUnstakeCoolingDown
  emergency_eq : s'.emergencyCoolingDown + (if emergency then x - delinquent else 0)
    = s.emergencyCoolingDown
  total_eq : s'.validatorSystem.totalActiveBalance + delinquent
    = s.validatorSystem.totalActiveBalance
  delinquent_eq : delinquent = if s.delinquentUpgrader.isIteratingStakes then
      x - (if emergency then s.emergencyCoolingDown
        else s.stakeSystem.delayedUnstakeCoolingDown)
    else 0
  phase_eq : s'.delinquentUpgrader = match s.delinquentUpgrader with
    | .iteratingStakes visitedCount totalActiveBalance totalDelinquentBalance =>
      .iteratingStakes visitedCount totalActiveBalance (totalDelinquentBalance + delinquent)
    | u => u
  state_eq : s' = { s with
    stakeSystem := { s.stakeSystem with
      delayedUnstakeCoolingDown := s'.stakeSystem.delayedUnstakeCoolingDown }
    validatorSystem := { s.validatorSystem with
      totalActiveBalance := s'.validatorSystem.totalActiveBalance }
    emergencyCoolingDown := s'.emergencyCoolingDown
    delinquentUpgrader := s'.delinquentUpgrader }

/-- The effect of a successful update that mints the fee `fee`. The books go through two more
states: `s₁` after the detection and `s₂` after the record is booked out. -/
structure Spec (accounts : UpdateDeactivated) (i j : ℕ) (w w' : World) (account : StakeAccount)
    (d : Delegation) (r r' : StakeRecord) (v : ValidatorRecord) (s₁ s₂ : State)
    (fee delinquent : ℕ) : Prop
    extends UpdateCommon.Begun accounts.toUpdateCommon i j w account d r v where
  not_paused : w.state.paused = false
  operational : accounts.operationalSolAccount = w.state.operationalSolAccount
  deactivated : d.deactivationEpoch ≠ epochMax
  detected : Detected j r r' v w.realigned s₁
  rent_le : account.stakeMeta.rentExemptReserve ≤ w.lamportsOf accounts.stakeAccount
  fee_eq : UpdateCommon.TreasuryFee s₁ (w.lamportsOf accounts.stakeAccount
    - account.stakeMeta.rentExemptReserve - r.lastUpdateDelegatedLamports) fee
  supply_eq : w'.msol.supply = w.msol.supply + fee
  amount_eq : ∀ k, w'.msol.amount k
    = w.msol.amount k + only w.state.treasuryMsolAccount fee k
  lamports_eq : ∀ k, w'.lamportsOf k
      + only accounts.stakeAccount (w.lamportsOf accounts.stakeAccount) k
      + only .reserve account.stakeMeta.rentExemptReserve k
    = w.lamportsOf k + only .reserve (w.lamportsOf accounts.stakeAccount) k
      + only accounts.operationalSolAccount account.stakeMeta.rentExemptReserve k
  capital_eq : w'.lamports.total = w.lamports.total
  stakes_eq : w'.stakes = Function.update w.stakes accounts.stakeAccount none
  booked_out : BookedOut r'.isEmergencyUnstaking r.lastUpdateDelegatedLamports { s₁ with
    msolSupply := s₁.msolSupply + fee
    availableReserveBalance := s₁.availableReserveBalance
      + (w.lamportsOf accounts.stakeAccount - account.stakeMeta.rentExemptReserve) } s₂ delinquent
  records_eq : w'.state.stakeSystem.records = swapRemove w.state.stakeSystem.records i
  progressed : UpdateCommon.Progressed w'.state.stakeSystem.records.length
    s₂.validatorSystem.totalActiveBalance s₂.delinquentUpgrader w'.state.delinquentUpgrader
  state_eq : ∃ price, w'.state = { s₂ with
    stakeSystem := { s₂.stakeSystem with stakeList := w'.state.stakeSystem.stakeList }
    msolPrice := price
    delinquentUpgrader := w'.state.delinquentUpgrader }
  spares : w.SparesOthers [] w'.toChain
  frame : w'.toChain = { w.toChain with
    lamports := w'.lamports, msol := w'.msol, stakes := w'.stakes }

section

variable {rt : Runtime} {accounts : UpdateDeactivated} {i j x : ℕ} {w w' : World} {s s' : State}
  {r r' : StakeRecord} {v : ValidatorRecord} {account : StakeAccount}

theorem detectDelinquent_spec (h : detectDelinquent j r v s = .ok (r', s')) :
    Detected j r r' v s s' := by
  unfold detectDelinquent at h
  split at h
  · rename_i hactive
    simp only [bind_eq_ok, ensure_eq_ok, checkedAdd_eq_ok, checkedSub_eq_ok, pure_eq_ok,
      exists_const, Bool.not_eq_true'] at h
    obtain ⟨hemergency, cooling, ⟨-, rfl⟩, total, ⟨htotal, rfl⟩, active, ⟨hactive', rfl⟩, vs, hvs,
      h⟩ := h
    cases h
    obtain ⟨hvs, hvalidators⟩ := ValidatorSystem.set_eq_ok hvs
    exact {
      record_eq := by simp [hactive]
      not_emergency := fun _ ↦ hemergency
      validators_eq := by rw [if_pos hactive]; exact hvalidators
      validator_balance := fun _ ↦ hactive'
      total_balance := by
        rw [if_pos hactive, hvs]
        exact Nat.sub_add_cancel htotal
      emergency_eq := by rw [if_pos hactive]
      state_eq := by
        simp only
        rw [hvs] }
  · rename_i hactive
    cases h
    exact {
      record_eq := by simp [hactive]
      not_emergency := fun h ↦ absurd h hactive
      validators_eq := by rw [if_neg hactive]
      validator_balance := fun h ↦ absurd h hactive
      total_balance := by rw [if_neg hactive, Nat.add_zero]
      emergency_eq := by rw [if_neg hactive, Nat.add_zero]
      state_eq := rfl }

/-- Once the list is upgraded, the whole amount is cooling down. -/
private theorem bookOut_upgraded_spec (hu : s.delinquentUpgrader.isIteratingStakes = false)
    (h : bookOut r s = .ok s') :
    BookedOut r.isEmergencyUnstaking r.lastUpdateDelegatedLamports s s' 0 := by
  have h' : (if !r.isEmergencyUnstaking then do
      let delayedUnstakeCoolingDown ← checkedSub .delayedUnstakeCoolingDown
        s.stakeSystem.delayedUnstakeCoolingDown r.lastUpdateDelegatedLamports
      return { s with stakeSystem := { s.stakeSystem with delayedUnstakeCoolingDown } }
    else do
      let emergencyCoolingDown ← checkedSub .emergencyCoolingDown s.emergencyCoolingDown
        r.lastUpdateDelegatedLamports
      return { s with emergencyCoolingDown }) = Except.ok s' := by
    unfold bookOut at h
    cases hphase : s.delinquentUpgrader with
    | iteratingStakes => rw [hphase] at hu; cases hu
    | iteratingValidators => rw [hphase] at h; exact h
    | done => rw [hphase] at h; exact h
  have hphase : s.delinquentUpgrader = match s.delinquentUpgrader with
    | .iteratingStakes visitedCount totalActiveBalance totalDelinquentBalance =>
      .iteratingStakes visitedCount totalActiveBalance (totalDelinquentBalance + 0)
    | u => u := by
    split <;> simp_all
  cases hem : r.isEmergencyUnstaking with
  | false =>
    simp only [hem, Bool.not_false, if_true, bind_eq_ok, checkedSub_eq_ok, pure_eq_ok] at h'
    obtain ⟨delayed, ⟨hle, rfl⟩, rfl⟩ := h'
    exact {
      delayed_eq := Nat.sub_add_cancel hle
      emergency_eq := rfl
      total_eq := rfl
      delinquent_eq := by simp [hu]
      phase_eq := hphase
      state_eq := rfl }
  | true =>
    simp only [hem, Bool.not_true, Bool.false_eq_true, if_false, bind_eq_ok, checkedSub_eq_ok,
      pure_eq_ok] at h'
    obtain ⟨cooling, ⟨hle, rfl⟩, rfl⟩ := h'
    exact {
      delayed_eq := rfl
      emergency_eq := Nat.sub_add_cancel hle
      total_eq := rfl
      delinquent_eq := by simp [hu]
      phase_eq := hphase
      state_eq := rfl }

/-- While the list is being upgraded, what is not cooling down is delinquent. -/
private theorem bookOut_iterating_spec (hu : s.delinquentUpgrader.isIteratingStakes = true)
    (h : bookOut r s = .ok s') :
    ∃ delinquent, BookedOut r.isEmergencyUnstaking r.lastUpdateDelegatedLamports s s'
      delinquent := by
  unfold bookOut at h
  cases hphase : s.delinquentUpgrader with
  | iteratingValidators => rw [hphase] at hu; cases hu
  | done => rw [hphase] at hu; cases hu
  | iteratingStakes visited active delinquent =>
    simp only [hphase] at h
    cases hem : r.isEmergencyUnstaking with
    | false =>
      simp only [hem, Bool.not_false, if_true, bind_eq_ok, checkedAdd_eq_ok, checkedSub_eq_ok,
        pure_eq_ok] at h
      obtain ⟨-, ⟨-, rfl⟩, total, ⟨hle, rfl⟩, rfl⟩ := h
      refine ⟨r.lastUpdateDelegatedLamports
        - min s.stakeSystem.delayedUnstakeCoolingDown r.lastUpdateDelegatedLamports, {
        delayed_eq := ?_
        emergency_eq := rfl
        total_eq := Nat.sub_add_cancel hle
        delinquent_eq := ?_
        phase_eq := by rw [hphase]
        state_eq := rfl }⟩
      · simp only [Bool.false_eq_true, if_false]
        omega
      · simp only [hu, if_true, Bool.false_eq_true, if_false]
        omega
    | true =>
      simp only [hem, Bool.not_true, Bool.false_eq_true, if_false, bind_eq_ok, checkedAdd_eq_ok,
        checkedSub_eq_ok, pure_eq_ok] at h
      obtain ⟨-, ⟨-, rfl⟩, total, ⟨hle, rfl⟩, rfl⟩ := h
      refine ⟨r.lastUpdateDelegatedLamports
        - min s.emergencyCoolingDown r.lastUpdateDelegatedLamports, {
        delayed_eq := rfl
        emergency_eq := ?_
        total_eq := Nat.sub_add_cancel hle
        delinquent_eq := ?_
        phase_eq := by rw [hphase]
        state_eq := rfl }⟩
      · simp only [if_true]
        omega
      · simp only [hu, if_true]
        omega

theorem bookOutSome_spec (h : bookOutSome r s = .ok s') :
    ∃ delinquent, BookedOut r.isEmergencyUnstaking r.lastUpdateDelegatedLamports s s'
      delinquent := by
  unfold bookOutSome at h
  split at h
  · cases hu : s.delinquentUpgrader.isIteratingStakes with
    | false => exact ⟨0, bookOut_upgraded_spec hu h⟩
    | true => exact bookOut_iterating_spec hu h
  · rename_i hzero
    have hx : r.lastUpdateDelegatedLamports = 0 := by omega
    cases h
    refine ⟨0, {
      delayed_eq := by simp [hx]
      emergency_eq := by simp [hx]
      total_eq := rfl
      delinquent_eq := by simp [hx]
      phase_eq := ?_
      state_eq := rfl }⟩
    split <;> simp_all

theorem close_spec {rent : ℕ} (h : close rt accounts rent w = .ok w')
    (ha : w.stakes accounts.stakeAccount = some account)
    (hpos : 0 < w.lamportsOf accounts.stakeAccount)
    (hrent : rent ≤ w.lamportsOf accounts.stakeAccount) :
    ∃ ledger, ledger.total = w.lamports.total ∧
      (∀ k, ledger.balance k
          + only accounts.stakeAccount (w.lamportsOf accounts.stakeAccount) k
          + only .reserve rent k
        = w.lamportsOf k + only .reserve (w.lamportsOf accounts.stakeAccount) k
          + only accounts.operationalSolAccount rent k) ∧
      w' = { w with
        lamports := ledger
        stakes := Function.update w.stakes accounts.stakeAccount none
        state := { w.state with
          availableReserveBalance := w.state.availableReserveBalance
            + (w.lamportsOf accounts.stakeAccount - rent) } } := by
  simp only [close, bind_eq_ok, State.onTransferFromReserve_eq_ok, pure_eq_ok] at h
  obtain ⟨w₁, h₁, c, h₂, s, ⟨-, rfl⟩, rfl⟩ := h
  obtain ⟨-, l₁, ht₁, hl₁, rfl⟩ := UpdateCommon.withdrawToReserve_whole_spec h₁ ha hpos
  obtain ⟨l₂, rfl, ht₂, -, hl₂⟩ := SystemProgram.transfer_spec h₂
  refine ⟨l₂, ht₂.trans ht₁, fun k ↦ ?_, ?_⟩
  · have e₁ := hl₁ k
    have e₂ : l₂.balance k + _ = l₁.balance k + _ := hl₂ k
    omega
  · simp only [Nat.add_sub_assoc hrent]

private theorem finish_spec (h : finish i w = .ok w') :
    w'.state.stakeSystem.records = swapRemove w.state.stakeSystem.records i ∧
    UpdateCommon.Progressed w'.state.stakeSystem.records.length
      w.state.validatorSystem.totalActiveBalance w.state.delinquentUpgrader
      w'.state.delinquentUpgrader ∧
    ∃ price, w' = { w with state := { w.state with
      stakeSystem := { w.state.stakeSystem with stakeList := w'.state.stakeSystem.stakeList }
      msolPrice := price
      delinquentUpgrader := w'.state.delinquentUpgrader } } := by
  simp only [finish, bind_eq_ok, pure_eq_ok] at h
  obtain ⟨s, hs, ss, hss, s', hs', rfl⟩ := h
  obtain ⟨price, rfl⟩ := UpdateCommon.updateMsolPrice_spec hs
  obtain ⟨u, hu, rfl⟩ := UpdateCommon.progression_spec hs'
  obtain ⟨hss, hrecords⟩ := StakeSystem.remove_eq_ok hss
  refine ⟨hrecords, hu, price, ?_⟩
  simp only
  rw [hss]

/-- On the chain an update mints a fee, withdraws to the reserve and pays the rent from there. -/
theorem process_chain {R : Chain → Chain → Prop} (h : process rt accounts i j w = .ok w')
    (htrans : ∀ {c₁ c₂ c₃}, R c₁ c₂ → R c₂ c₃ → R c₁ c₃)
    (hwithdraw : ∀ {w w' x}, accounts.withdrawToReserve rt x w = .ok w' → R w.toChain w'.toChain)
    (hfees : ∀ {ready x w w'}, UpdateCommon.mintProtocolFeesIf ready x w = .ok w' →
      R w.toChain w'.toChain)
    (hpay : ∀ {c c' k x}, SystemProgram.transfer c .reserve k x = .ok c' → R c c') :
    R w.toChain w'.toChain := by
  simp only [process, bind_eq_ok] at h
  obtain ⟨_, -, _, -, _, -, b, -, _, -, detected, -, _, -, w₁, h₁, w₂, h₂, _, -, h⟩ := h
  have hminted := hfees h₁
  have hclose : R w₁.toChain w₂.toChain := by
    simp only [close, bind_eq_ok, pure_eq_ok] at h₂
    obtain ⟨w₃, h₃, c, hc, _, -, rfl⟩ := h₂
    exact htrans (hwithdraw h₃) (hpay hc)
  simp only [finish, bind_eq_ok, pure_eq_ok] at h
  obtain ⟨_, -, _, -, _, -, rfl⟩ := h
  exact htrans hminted hclose

/-- A successful update closes the account and removes its record. -/
theorem process_spec (h : process rt accounts i j w = .ok w')
    (hfunded : w.Funded accounts.stakeAccount) :
    ∃ account d r r' v s₁ s₂ fee delinquent,
      Spec accounts i j w w' account d r r' v s₁ s₂ fee delinquent := by
  have hspares : w.SparesOthers [] w'.toChain := process_chain h .trans
    UpdateCommon.withdrawToReserve_spares UpdateCommon.mintProtocolFeesIf_spares
    fun hc _ _ ↦ SystemProgram.transfer_spares hc (Chain.not_owned_of_not_canSign rfl)
  simp only [process, bind_eq_ok, ensure_eq_ok, exists_const, checkedSub_eq_ok] at h
  obtain ⟨hoper, hpaused, -, -, b, hb, hdeactivated, ⟨r₁, s₁⟩, hdetect, balance, ⟨hrent, rfl⟩,
    w₁, h₁, w₂, h₂, s₂, h₃, h₄⟩ := h
  have hbegun := UpdateCommon.begin_spec hb
  have hdetected := detectDelinquent_spec hdetect
  obtain ⟨fee, msol, hfee, hsupply, hamount, rfl⟩ := UpdateCommon.mintProtocolFeesIf_spec h₁
  have hpos : 0 < w.lamportsOf accounts.stakeAccount := by
    have := hfunded _ _ hbegun.account_eq hbegun.delegation_eq
    omega
  obtain ⟨l, ht, hl, rfl⟩ := close_spec h₂ hbegun.account_eq hpos hrent
  obtain ⟨delinquent, hbooked⟩ := bookOutSome_spec h₃
  obtain ⟨hrecords, hprogress, price, hw⟩ := finish_spec h₄
  have hlast : r₁.lastUpdateDelegatedLamports = b.stake.lastUpdateDelegatedLamports := by
    rw [hdetected.record_eq]
  have hlist : s₂.stakeSystem.records = w.state.stakeSystem.records := by
    rw [hbooked.state_eq, hdetected.state_eq]
    rfl
  rw [hlast] at hbooked
  have htreasury : s₁.treasuryMsolAccount = w.state.treasuryMsolAccount := by
    rw [hdetected.state_eq]
    rfl
  have hchain := congrArg World.toChain hw
  refine ⟨_, _, b.stake, r₁, _, s₁, s₂, fee, delinquent, {
    hbegun with
    not_paused := by simpa using hpaused
    operational := hoper
    deactivated := hdeactivated
    detected := hdetected
    rent_le := hrent
    fee_eq := hfee
    supply_eq := ?_
    amount_eq := ?_
    lamports_eq := ?_
    capital_eq := ?_
    stakes_eq := ?_
    booked_out := hbooked
    records_eq := by rw [hrecords, hlist]
    progressed := hprogress
    state_eq := ⟨price, congrArg World.state hw⟩
    spares := hspares
    frame := ?_ }⟩
  · rw [hchain]; exact hsupply
  · rw [hchain, ← htreasury]; exact hamount
  · rw [Chain.lamportsOf, hchain]; exact hl
  · rw [hchain]; exact ht
  · rw [hchain]
  · rw [hchain]

/-- Only the detection touches the validator. -/
theorem Spec.validators_eq {d : Delegation} {s₁ s₂ : State} {fee delinquent : ℕ}
    (h : Spec accounts i j w w' account d r r' v s₁ s₂ fee delinquent) :
    w'.state.validatorSystem.records =
      if r.lastUpdateStatus = .active then w.state.validatorSystem.records.set j
        { v with activeBalance := v.activeBalance - r.lastUpdateDelegatedLamports }
      else w.state.validatorSystem.records := by
  obtain ⟨_, hstate⟩ := h.state_eq
  rw [hstate, h.booked_out.state_eq]
  exact h.detected.validators_eq

/-- What the detection and the booking out do to the totals together. -/
structure TotalsEq (w w' : World) (r r' : StakeRecord) (delinquent : ℕ) : Prop where
  total_eq : w'.state.validatorSystem.totalActiveBalance + delinquent
      + (if r.lastUpdateStatus = .active then r.lastUpdateDelegatedLamports else 0)
    = w.state.validatorSystem.totalActiveBalance
  delayed_eq : w'.state.stakeSystem.delayedUnstakeCoolingDown
      + (if r'.isEmergencyUnstaking then 0 else r.lastUpdateDelegatedLamports - delinquent)
    = w.state.stakeSystem.delayedUnstakeCoolingDown
  emergency_eq : w'.state.emergencyCoolingDown
      + (if r'.isEmergencyUnstaking then r.lastUpdateDelegatedLamports - delinquent else 0)
    = w.state.emergencyCoolingDown
      + (if r.lastUpdateStatus = .active then r.lastUpdateDelegatedLamports else 0)
  delinquent_eq : delinquent = if w.state.delinquentUpgrader.isIteratingStakes then
      r.lastUpdateDelegatedLamports - (if r'.isEmergencyUnstaking then
        w.state.emergencyCoolingDown
          + (if r.lastUpdateStatus = .active then r.lastUpdateDelegatedLamports else 0)
      else w.state.stakeSystem.delayedUnstakeCoolingDown)
    else 0
  progressed : UpdateCommon.Progressed w'.state.stakeSystem.records.length
    w'.state.validatorSystem.totalActiveBalance (match w.state.delinquentUpgrader with
      | .iteratingStakes visitedCount totalActiveBalance totalDelinquentBalance =>
        .iteratingStakes visitedCount totalActiveBalance (totalDelinquentBalance + delinquent)
      | u => u) w'.state.delinquentUpgrader

theorem Spec.totals_eq {d : Delegation} {s₁ s₂ : State} {fee delinquent : ℕ}
    (h : Spec accounts i j w w' account d r r' v s₁ s₂ fee delinquent) :
    TotalsEq w w' r r' delinquent := by
  obtain ⟨_, hstate⟩ := h.state_eq
  have hphase₁ : s₁.delinquentUpgrader = w.state.delinquentUpgrader := by
    rw [h.detected.state_eq]
    rfl
  have hdelayed₁ : s₁.stakeSystem.delayedUnstakeCoolingDown
      = w.state.stakeSystem.delayedUnstakeCoolingDown := by
    rw [h.detected.state_eq]
    rfl
  have htotal₁ : s₁.validatorSystem.totalActiveBalance + _
      = w.state.validatorSystem.totalActiveBalance := h.detected.total_balance
  have hemergency₁ : s₁.emergencyCoolingDown = w.state.emergencyCoolingDown + _ :=
    h.detected.emergency_eq
  have htotal₂ : s₂.validatorSystem.totalActiveBalance + delinquent
      = s₁.validatorSystem.totalActiveBalance := h.booked_out.total_eq
  have htotal : w'.state.validatorSystem.totalActiveBalance
      = s₂.validatorSystem.totalActiveBalance := by rw [hstate]
  refine {
    total_eq := by omega
    delayed_eq := ?_
    emergency_eq := ?_
    delinquent_eq := ?_
    progressed := ?_ }
  · rw [hstate, ← hdelayed₁]
    exact h.booked_out.delayed_eq
  · rw [hstate, ← hemergency₁]
    exact h.booked_out.emergency_eq
  · have hdelinquent := h.booked_out.delinquent_eq
    simp only [hphase₁, hdelayed₁, hemergency₁] at hdelinquent
    exact hdelinquent
  · have hprogressed := h.progressed
    rw [h.booked_out.phase_eq, ← htotal] at hprogressed
    simp only [hphase₁] at hprogressed
    exact hprogressed

end

end UpdateDeactivated

end Marinade
