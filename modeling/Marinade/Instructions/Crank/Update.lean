import Marinade.Ownership

/-!
# What the two updates have in common

A bot visits every stake account once an epoch, compares it with its record and books the
difference. Before it does so it realigns the two virtual amounts that outsiders can move: the
reserve, into which anybody may send lamports, and the mSOL supply, of which anybody may burn their
part.

On rewards the treasury gets a fee in newly minted mSOL, unless the admin configured an account
that is not an mSOL account.
-/

open Foundation Foundation.Ledger

namespace Marinade

/-- The accounts of both updates. -/
structure UpdateCommon where
  stakeAccount : Pubkey
  deriving DecidableEq, Repr

/-- What an update starts from. -/
structure BeginOutput where
  stakeAccount : StakeAccount
  delegation : Delegation
  stake : StakeRecord
  validator : ValidatorRecord
  isTreasuryMsolReadyForTransfer : Bool

/-- The state with the reserve and the mSOL supply realigned. -/
def World.realigned (w : World) : State :=
  { w.state with
    availableReserveBalance := w.lamportsOf .reserve - w.state.rentExemptForTokenAcc
    -- mSOL minted by somebody else would be a bug: staking is stopped
    stakingSolCap := if w.state.msolSupply < w.msol.supply then 0 else w.state.stakingSolCap
    msolSupply := w.msol.supply }

namespace UpdateCommon

/-- Realign, and find the record and its validator. The realigned state goes on from here. -/
def begin (accounts : UpdateCommon) (stakeIndex validatorIndex : ℕ) (w : World) :
    Except Error BeginOutput := do
  let account ← orError (w.stakes accounts.stakeAccount) .constraint
  let _ ← checkedAdd w.state.availableReserveBalance w.state.rentExemptForTokenAcc
  let stake ← w.state.stakeSystem.getChecked stakeIndex accounts.stakeAccount
  let delegation ← orError account.delegation (.marinade .stakeNotDelegated)
  let validator ← w.state.validatorSystem.getChecked validatorIndex delegation.voterPubkey
  return {
    stakeAccount := account, delegation, stake, validator
    isTreasuryMsolReadyForTransfer := w.getTreasuryMsolBalance.isSome }

/-- Move lamports of the stake account that are not delegated to the reserve. -/
def withdrawToReserve (rt : Runtime) (accounts : UpdateCommon) (amount : ℕ) (w : World) :
    Except Error World :=
  if 0 < amount then do
    let chain ← StakeProgram.withdraw rt w.toChain accounts.stakeAccount .stakeWithdrawAuthority
      .reserve amount
    let state ← w.state.onTransferToReserve amount
    return { toChain := chain, state }
  else .ok w

def mintToTreasury (msolLamports : ℕ) (w : World) : Except Error World :=
  if 0 < msolLamports then do
    let msol ← w.msol.mintTo w.state.treasuryMsolAccount msolLamports
    let state ← w.state.onMsolMint msolLamports
    return { w with msol, state }
  else .ok w

/-- The protocol's fee on incoming lamports, minted at the price the state has now. -/
def mintProtocolFees (lamportsIncoming : ℕ) (w : World) : Except Error World := do
  let protocolRewardsFee := w.state.rewardFee.apply lamportsIncoming
  let feeAsMsolAmount ← w.state.calcMsolFromLamports protocolRewardsFee
  mintToTreasury feeAsMsolAmount w

/-- The fee, if there is a treasury to take it. -/
def mintProtocolFeesIf (ready : Bool) (lamportsIncoming : ℕ) (w : World) : Except Error World :=
  if ready then mintProtocolFees lamportsIncoming w else .ok w

def updateMsolPrice (s : State) : Except Error State := do
  let msolPrice ← s.msolToSol State.priceDenominator
  return { s with msolPrice }

/-- Once all records have been visited, the validators are next. -/
def checkDelinquentUpgradeStateProgression (s : State) : Except Error State :=
  match s.delinquentUpgrader with
  | .iteratingStakes visitedCount totalActiveBalance totalDelinquentBalance =>
    if visitedCount = s.stakeSystem.stakeCount then do
      ensure (totalActiveBalance = s.validatorSystem.totalActiveBalance)
        (.marinade .upgradingInvariantViolation)
      return { s with delinquentUpgrader := .iteratingValidators 0 totalDelinquentBalance }
    else .ok s
  | _ => .ok s

/-! ## What the parts do -/

/-- What an update found. -/
structure Begun (accounts : UpdateCommon) (i j : ℕ) (w : World) (account : StakeAccount)
    (d : Delegation) (r : StakeRecord) (v : ValidatorRecord) : Prop where
  account_eq : w.stakes accounts.stakeAccount = some account
  delegation_eq : account.delegation = some d
  record : w.state.stakeSystem.records[i]? = some r
  record_key : r.stakeAccount = accounts.stakeAccount
  validator : w.state.validatorSystem.records[j]? = some v
  voter : v.validatorAccount = d.voterPubkey

/-- What may be minted for the treasury on incoming lamports: nothing, or what the fee is worth at
the price of `s`. -/
def TreasuryFee (s : State) (lamportsIncoming fee : ℕ) : Prop :=
  fee = 0 ∨ sharesFromValue (s.rewardFee.apply lamportsIncoming) s.virtualStaked s.msolSupply
    = .ok fee

/-- The phase after the check for progression, when `count` records are listed and `active`
lamports are booked as active. -/
def Progressed (count active : ℕ) (u u' : DelinquentUpgraderState) : Prop :=
  match u with
  | .iteratingStakes visitedCount totalActiveBalance totalDelinquentBalance =>
    if visitedCount = count then
      totalActiveBalance = active ∧ u' = .iteratingValidators 0 totalDelinquentBalance
    else u' = u
  | _ => u' = u

section

variable {rt : Runtime} {accounts : UpdateCommon} {i j x : ℕ} {w w' : World} {s s' : State}
  {b : BeginOutput} {ready : Bool} {account : StakeAccount}

theorem begin_spec (h : accounts.begin i j w = .ok b) :
    Begun accounts i j w b.stakeAccount b.delegation b.stake b.validator := by
  simp only [begin, bind_eq_ok, orError_eq_ok, pure_eq_ok, StakeSystem.getChecked_eq_ok,
    ValidatorSystem.getChecked_eq_ok] at h
  obtain ⟨account, ha, -, -, r, ⟨hr, hkey⟩, d, hd, v, ⟨hv, hvoter⟩, rfl⟩ := h
  exact ⟨ha, hd, hr, hkey, hv, hvoter⟩

/-- Withdrawing less than everything leaves the account as it is. -/
theorem withdrawToReserve_part_spec (h : withdrawToReserve rt accounts x w = .ok w')
    (ha : w.stakes accounts.stakeAccount = some account)
    (hlt : x < w.lamportsOf accounts.stakeAccount) :
    ∃ ledger, ledger.total = w.lamports.total ∧
      (∀ k, ledger.balance k + only accounts.stakeAccount x k
        = w.lamportsOf k + only .reserve x k) ∧
      w' = { w with
        lamports := ledger
        state := { w.state with
          availableReserveBalance := w.state.availableReserveBalance + x } } := by
  unfold withdrawToReserve at h
  split at h
  · simp only [bind_eq_ok, State.onTransferToReserve_eq_ok, pure_eq_ok] at h
    obtain ⟨c, hc, s, ⟨-, rfl⟩, rfl⟩ := h
    obtain ⟨-, -, l, ht, hl, rfl⟩ := StakeProgram.withdraw_part_spec hc ha (by omega)
    exact ⟨l, ht, hl, rfl⟩
  · cases h
    obtain rfl : x = 0 := by omega
    exact ⟨w.lamports, rfl, by simp, rfl⟩

/-- Withdrawing everything closes the account. -/
theorem withdrawToReserve_whole_spec
    (h : withdrawToReserve rt accounts (w.lamportsOf accounts.stakeAccount) w = .ok w')
    (ha : w.stakes accounts.stakeAccount = some account)
    (hpos : 0 < w.lamportsOf accounts.stakeAccount) :
    account.stakeMeta.withdrawer = .stakeWithdrawAuthority ∧
    ∃ ledger, ledger.total = w.lamports.total ∧
      (∀ k, ledger.balance k
          + only accounts.stakeAccount (w.lamportsOf accounts.stakeAccount) k
        = w.lamportsOf k + only .reserve (w.lamportsOf accounts.stakeAccount) k) ∧
      w' = { w with
        lamports := ledger
        stakes := Function.update w.stakes accounts.stakeAccount none
        state := { w.state with
          availableReserveBalance :=
            w.state.availableReserveBalance + w.lamportsOf accounts.stakeAccount } } := by
  unfold withdrawToReserve at h
  rw [if_pos hpos] at h
  simp only [bind_eq_ok, State.onTransferToReserve_eq_ok, pure_eq_ok] at h
  obtain ⟨c, hc, s, ⟨-, rfl⟩, rfl⟩ := h
  obtain ⟨hw, l, ht, hl, rfl⟩ := StakeProgram.withdraw_whole_spec hc ha
  exact ⟨hw, l, ht, hl, rfl⟩

theorem mintProtocolFeesIf_spec (h : mintProtocolFeesIf ready x w = .ok w') :
    ∃ fee msol, TreasuryFee w.state x fee ∧ msol.supply = w.msol.supply + fee ∧
      (∀ k, msol.amount k = w.msol.amount k + only w.state.treasuryMsolAccount fee k) ∧
      w' = { w with
        msol := msol
        state := { w.state with msolSupply := w.state.msolSupply + fee } } := by
  unfold mintProtocolFeesIf at h
  split at h
  · simp only [mintProtocolFees, bind_eq_ok, State.calcMsolFromLamports_eq_ok] at h
    obtain ⟨fee, ⟨-, hfee⟩, h⟩ := h
    unfold mintToTreasury at h
    split at h
    · simp only [bind_eq_ok, TokenMint.mintTo_eq_ok, State.onMsolMint_eq_ok, pure_eq_ok] at h
      obtain ⟨msol, ⟨-, rfl⟩, s, ⟨-, rfl⟩, rfl⟩ := h
      exact ⟨fee, _, .inr hfee, rfl, mint_balance_eq, rfl⟩
    · cases h
      obtain rfl : fee = 0 := by omega
      exact ⟨0, w.msol, .inl rfl, rfl, by simp, rfl⟩
  · cases h
    exact ⟨0, w.msol, .inl rfl, rfl, by simp, rfl⟩

/-- On the chain a fee is at most a mint. -/
theorem mintProtocolFeesIf_chain (h : mintProtocolFeesIf ready x w = .ok w') :
    w'.toChain = w.toChain ∨ ∃ fee msol,
      w.msol.mintTo w.state.treasuryMsolAccount fee = .ok msol ∧
        w'.toChain = { w.toChain with msol } := by
  unfold mintProtocolFeesIf at h
  split at h
  · simp only [mintProtocolFees, bind_eq_ok] at h
    obtain ⟨fee, -, h⟩ := h
    unfold mintToTreasury at h
    split at h
    · simp only [bind_eq_ok, pure_eq_ok] at h
      obtain ⟨msol, hm, s, -, rfl⟩ := h
      exact .inr ⟨fee, msol, hm, rfl⟩
    · cases h
      exact .inl rfl
  · cases h
    exact .inl rfl

theorem withdrawToReserve_spares (h : withdrawToReserve rt accounts x w = .ok w') :
    w.SparesOthers [] w'.toChain := by
  unfold withdrawToReserve at h
  split at h
  · simp only [bind_eq_ok, pure_eq_ok] at h
    obtain ⟨c, hc, s, -, rfl⟩ := h
    exact fun U hU ↦ StakeProgram.withdraw_spares hc (hU.not_program rfl)
  · cases h
    exact .refl _

theorem mintProtocolFeesIf_spares (h : mintProtocolFeesIf ready x w = .ok w') :
    w.SparesOthers [] w'.toChain := by
  rcases mintProtocolFeesIf_chain h with hchain | ⟨fee, msol, hm, hchain⟩
  · rw [hchain]
    exact .refl _
  · rw [hchain]
    exact fun U _ ↦ .of_msol (TokenMint.mintTo_spares hm)

theorem updateMsolPrice_spec (h : updateMsolPrice s = .ok s') :
    ∃ price, s' = { s with msolPrice := price } := by
  simp only [updateMsolPrice, bind_eq_ok, pure_eq_ok] at h
  obtain ⟨price, -, rfl⟩ := h
  exact ⟨price, rfl⟩

theorem progression_spec (h : checkDelinquentUpgradeStateProgression s = .ok s') :
    ∃ u, Progressed s.stakeSystem.records.length s.validatorSystem.totalActiveBalance
        s.delinquentUpgrader u ∧ s' = { s with delinquentUpgrader := u } := by
  unfold checkDelinquentUpgradeStateProgression at h
  cases hu : s.delinquentUpgrader with
  | iteratingStakes visited active delinquent =>
    simp only [hu] at h
    split at h
    · rw [ensure_bind_eq_ok, pure_eq_ok] at h
      obtain ⟨heq, rfl⟩ := h
      exact ⟨_, (if_pos ‹_›).mpr ⟨heq, rfl⟩, rfl⟩
    · cases h
      exact ⟨_, (if_neg ‹_›).mpr rfl, by rw [← hu]⟩
  | iteratingValidators visited left =>
    simp only [hu] at h
    cases h
    exact ⟨_, rfl, by rw [← hu]⟩
  | done =>
    simp only [hu] at h
    cases h
    exact ⟨_, rfl, by rw [← hu]⟩

@[simp] theorem progressed_done {count active : ℕ} {u : DelinquentUpgraderState} :
    Progressed count active .done u ↔ u = .done := Iff.rfl

end

end UpdateCommon

end Marinade
