import Marinade.Instructions.Crank.MergeStakes

/-!
# Create the canonical stake

Each validator has one stake account whose address is derived from its vote address. Anybody may
move a stake account of the list there; lamports that somebody has sent to the derived address
before are swept to the operational account.
-/

open Foundation Foundation.Ledger

namespace Marinade

/-- The accounts of `create_canonical_stake`. -/
structure CreateCanonicalStake where
  canonicalStake : Pubkey
  sourceStake : Pubkey
  operationalSolAccount : Pubkey
  deriving DecidableEq, Repr

namespace CreateCanonicalStake

def process (rt : Runtime) (accounts : CreateCanonicalStake)
    (sourceStakeIndex validatorIndex : ℕ) (w : World) : Except Error World := do
  let s := w.state
  ensure (accounts.operationalSolAccount = s.operationalSolAccount) .constraint
  let sourceStake ← orError (w.stakes accounts.sourceStake) .constraint
  ensure (!s.paused) (.marinade .programIsPaused)
  ensure s.delinquentUpgrader.isDone (.marinade .delinquentUpgraderIsNotDone)
  let validator ← s.validatorSystem.get validatorIndex
  ensure (w.stakes accounts.canonicalStake = none)
    (.marinade .canonicalStakeAccountAlreadyCreated)
  ensure (accounts.canonicalStake = .canonicalStake validator.validatorAccount)
    (.marinade .invalidCanonicalStakeAccountAddress)
  let sourceStakeInfo ← s.stakeSystem.getChecked sourceStakeIndex accounts.sourceStake
  let sourceDelegation ← orError sourceStake.delegation (.marinade .sourceStakeMustBeDelegated)
  checkSourceDelegation sourceStake (w.lamportsOf accounts.sourceStake) sourceDelegation
    sourceStakeInfo validator.validatorAccount
  let chain ← SystemProgram.transferSome w.toChain accounts.canonicalStake
    accounts.operationalSolAccount (w.lamportsOf accounts.canonicalStake)
  let chain ← StakeProgram.split rt chain accounts.sourceStake accounts.canonicalStake
    .stakeDepositAuthority (chain.lamportsOf accounts.sourceStake)
  let stakeSystem ← s.stakeSystem.add accounts.canonicalStake sourceDelegation.stake
    chain.clock false true
  -- last, because it moves another record to the index of the source
  let stakeSystem ← stakeSystem.remove sourceStakeIndex
  return { toChain := chain, state := { s with stakeSystem } }

/-- The effect of moving the account, with `swept` found at the canonical address. -/
structure Spec (rt : Runtime) (accounts : CreateCanonicalStake) (i j : ℕ) (w w' : World)
    (account : StakeAccount) (d : Delegation) (r : StakeRecord) (v : ValidatorRecord)
    (swept : ℕ) : Prop where
  not_paused : w.state.paused = false
  done : w.state.delinquentUpgrader = .done
  operational : accounts.operationalSolAccount = w.state.operationalSolAccount
  account_eq : w.stakes accounts.sourceStake = some account
  delegation_eq : account.delegation = some d
  absent : w.stakes accounts.canonicalStake = none
  validator : w.state.validatorSystem.records[j]? = some v
  canonical : accounts.canonicalStake = .canonicalStake v.validatorAccount
  record : w.state.stakeSystem.records[i]? = some r
  record_key : r.stakeAccount = accounts.sourceStake
  active : d.deactivationEpoch = epochMax
  updated : r.lastUpdateDelegatedLamports = d.stake
  voter : d.voterPubkey = v.validatorAccount
  stakes_eq : w'.stakes = Function.update (Function.update w.stakes accounts.sourceStake none)
    accounts.canonicalStake (some ⟨{ account.stakeMeta with rentExemptReserve := rt.stakeRent },
      some d⟩)
  swept_eq : swept = w.lamportsOf accounts.canonicalStake
  lamports_eq : ∀ k, w'.lamportsOf k + only accounts.canonicalStake swept k
      + only accounts.sourceStake (d.stake + account.stakeMeta.rentExemptReserve) k
    = w.lamportsOf k + only accounts.operationalSolAccount swept k
      + only accounts.canonicalStake (d.stake + account.stakeMeta.rentExemptReserve) k
  capital_eq : w'.lamports.total = w.lamports.total
  records_eq : w'.state.stakeSystem.records = swapRemove (w.state.stakeSystem.records
    ++ [.new accounts.canonicalStake d.stake w.clock false true]) i
  state_eq : w'.state = { w.state with
    stakeSystem := { w.state.stakeSystem with stakeList := w'.state.stakeSystem.stakeList } }
  spares : w.SparesOthers [] w'.toChain
  frame : w'.toChain = { w.toChain with lamports := w'.lamports, stakes := w'.stakes }

theorem process_spec {rt : Runtime} {accounts : CreateCanonicalStake} {i j : ℕ} {w w' : World}
    (h : accounts.process rt i j w = .ok w') :
    ∃ account d r v swept, Spec rt accounts i j w w' account d r v swept := by
  simp only [process, bind_eq_ok, ensure_eq_ok, orError_eq_ok, exists_const, pure_eq_ok,
    StakeSystem.getChecked_eq_ok, ValidatorSystem.get, AccountList.get_eq_ok,
    checkSourceDelegation_eq_ok] at h
  obtain ⟨hoper, account, ha, hpaused, hdone, v, hv, habsent, hcanonical, r, ⟨hr, hkey⟩, d, hd,
    ⟨hmax, hupdated, -, hlamports, hvoter⟩, c₁, h₁, c₂, h₂, ss, hss, ss', hss', rfl⟩ := h
  have hspares : w.SparesOthers [] c₂ := by
    intro U hU
    have hsign : accounts.canonicalStake.canSign = false := hcanonical ▸ rfl
    have hswept : w.Spares U c₁ :=
      SystemProgram.transferSome_spares h₁ (Chain.not_owned_of_not_canSign hsign)
    exact hswept.trans (StakeProgram.split_spares h₂ (hU.not_program rfl)
      (Chain.not_owned_of_not_canSign hsign))
  obtain ⟨l₁, rfl, ht₁, hswept, hl₁⟩ := SystemProgram.transferSome_spec h₁
  obtain ⟨-, -, hle, hpos, l₂, ht₂, hl₂, rfl⟩ := StakeProgram.split_whole_spec h₂ ha hd
  have hne : accounts.sourceStake ≠ accounts.canonicalStake := by
    intro heq
    rw [heq, habsent] at ha
    cases ha
  -- the sweep cannot have gone to the source, or the split would move more than is delegated
  have hsource : l₁.balance accounts.sourceStake
      = d.stake + account.stakeMeta.rentExemptReserve := by
    have hk := hl₁ accounts.sourceStake
    rw [only_of_ne hne] at hk
    simp only [Chain.lamportsOf] at *
    omega
  simp only [Chain.lamportsOf, hsource, Nat.add_sub_cancel] at hl₂ hspares ⊢
  obtain ⟨hss, hadd⟩ := StakeSystem.add_eq_ok hss
  obtain ⟨hss', hremove⟩ := StakeSystem.remove_eq_ok hss'
  exact ⟨account, d, r, v, w.lamportsOf accounts.canonicalStake, {
    not_paused := by simpa using hpaused
    done := DelinquentUpgraderState.eq_done_of_isDone hdone
    operational := hoper
    account_eq := ha
    delegation_eq := hd
    absent := habsent
    validator := hv
    canonical := hcanonical
    record := hr
    record_key := hkey
    active := hmax
    updated := hupdated
    voter := hvoter
    stakes_eq := rfl
    swept_eq := rfl
    lamports_eq := fun k ↦ by
      have e₁ := hl₁ k
      have e₂ := hl₂ k
      simp only [Chain.lamportsOf] at *
      omega
    capital_eq := ht₂.trans ht₁
    records_eq := by rw [← hadd]; exact hremove
    state_eq := by
      simp only
      rw [hss', hss]
    spares := hspares
    frame := rfl }⟩

end CreateCanonicalStake

end Marinade
