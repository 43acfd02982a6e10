import Marinade.Ownership

/-!
# Merge stakes

Anybody may merge a stake account of the list into the canonical one of the same validator. The
stake program keeps the rent of the merged account with the lamports of the other one or, while the
accounts are still activating, delegates it; what is not delegated goes back to the operational
account.
-/

open Foundation Foundation.Ledger

namespace Marinade

/-- The accounts of `merge_stakes`. -/
structure MergeStakes where
  destinationStake : Pubkey
  sourceStake : Pubkey
  operationalSolAccount : Pubkey
  deriving DecidableEq, Repr

structure MergeStakesEvent where
  extraDelegated : ℕ
  returnedStakeRent : ℕ
  deriving DecidableEq, Repr

/-- The source account is active, holds its delegation and its rent and nothing else, as the last
update saw it, and is delegated to the validator. -/
def checkSourceDelegation (sourceStake : StakeAccount) (lamports : ℕ)
    (sourceDelegation : Delegation) (sourceStakeInfo : StakeRecord) (validatorAccount : Pubkey) :
    Except Error Unit := do
  ensure (sourceDelegation.deactivationEpoch = epochMax)
    (.marinade .sourceStakeMustNotBeDeactivating)
  ensure (sourceStakeInfo.lastUpdateDelegatedLamports = sourceDelegation.stake)
    (.marinade .sourceStakeMustBeUpdated)
  let expected ← checkedAdd sourceDelegation.stake sourceStake.stakeMeta.rentExemptReserve
  ensure (lamports = expected) (.marinade .sourceStakeMustBeUpdated)
  ensure (sourceDelegation.voterPubkey = validatorAccount)
    (.marinade .invalidSourceStakeDelegation)

/-- The canonical account is active, as the last update saw it, and is delegated to the
validator. -/
def checkDestinationDelegation (canonicalDelegation : Delegation)
    (canonicalStakeInfo : StakeRecord) (validatorAccount : Pubkey) : Except Error Unit := do
  ensure (canonicalStakeInfo.lastUpdateStatus = .active)
    (.marinade .destinationStakeMustNotBeDeactivating)
  ensure (canonicalDelegation.deactivationEpoch = epochMax)
    (.marinade .destinationStakeMustNotBeDeactivating)
  ensure (canonicalStakeInfo.lastUpdateDelegatedLamports = canonicalDelegation.stake)
    (.marinade .destinationStakeMustBeUpdated)
  ensure (canonicalDelegation.voterPubkey = validatorAccount)
    (.marinade .invalidDestinationStakeDelegation)

theorem checkSourceDelegation_eq_ok {account : StakeAccount} {d : Delegation} {r : StakeRecord}
    {vote : Pubkey} {lamports : ℕ} {u : Unit} :
    checkSourceDelegation account lamports d r vote = .ok u ↔
      d.deactivationEpoch = epochMax ∧ r.lastUpdateDelegatedLamports = d.stake ∧
      d.stake + account.stakeMeta.rentExemptReserve ≤ u64Max ∧
      lamports = d.stake + account.stakeMeta.rentExemptReserve ∧ d.voterPubkey = vote := by
  simp only [checkSourceDelegation, bind_eq_ok, ensure_eq_ok, exists_const, checkedAdd_eq_ok,
    and_assoc, exists_and_left, exists_eq_left']

theorem checkDestinationDelegation_eq_ok {d : Delegation} {r : StakeRecord} {vote : Pubkey}
    {u : Unit} :
    checkDestinationDelegation d r vote = .ok u ↔
      r.lastUpdateStatus = .active ∧ d.deactivationEpoch = epochMax ∧
      r.lastUpdateDelegatedLamports = d.stake ∧ d.voterPubkey = vote := by
  simp only [checkDestinationDelegation, bind_eq_ok, ensure_eq_ok, exists_const]

namespace MergeStakes

/-- Return the rent that was not delegated. -/
def returnRent (rt : Runtime) (accounts : MergeStakes) (returnedStakeRent : ℕ) (chain : Chain) :
    Except Error Chain :=
  if 0 < returnedStakeRent then
    StakeProgram.withdraw rt chain accounts.destinationStake .stakeWithdrawAuthority
      accounts.operationalSolAccount returnedStakeRent
  else .ok chain

/-- The call of the stake program and what it does to the books. -/
def merge (rt : Runtime) (accounts : MergeStakes)
    (canonicalStakeIndex sourceStakeIndex validatorIndex : ℕ) (validator : ValidatorRecord)
    (canonicalStakeInfo sourceStakeInfo : StakeRecord) (sourceStake : StakeAccount) (w : World) :
    Except Error (World × MergeStakesEvent) := do
  let s := w.state
  let chain ← StakeProgram.merge rt w.toChain accounts.destinationStake accounts.sourceStake
    .stakeDepositAuthority
  -- the account is read again for what the merge really delegated
  let merged ← orError ((chain.stakes accounts.destinationStake).bind (·.delegation)) .constraint
  let moved ← checkedSub .amount merged.stake canonicalStakeInfo.lastUpdateDelegatedLamports
  let extraDelegated ← checkedSub .amount moved sourceStakeInfo.lastUpdateDelegatedLamports
  let returnedStakeRent ←
    checkedSub .amount sourceStake.stakeMeta.rentExemptReserve extraDelegated
  let activeBalance ← checkedAdd validator.activeBalance extraDelegated
  let validatorSystem ← s.validatorSystem.set validatorIndex { validator with activeBalance }
  let totalActiveBalance ← checkedAdd validatorSystem.totalActiveBalance extraDelegated
  let stakeSystem ← s.stakeSystem.set canonicalStakeIndex
    { canonicalStakeInfo with lastUpdateDelegatedLamports := merged.stake }
  -- last, because it moves another record to the index of the source
  let stakeSystem ← stakeSystem.remove sourceStakeIndex
  let chain ← returnRent rt accounts returnedStakeRent chain
  return ({
    toChain := chain
    state := { s with
      stakeSystem, validatorSystem := { validatorSystem with totalActiveBalance } } },
    { extraDelegated, returnedStakeRent })

def process (rt : Runtime) (accounts : MergeStakes)
    (canonicalStakeIndex sourceStakeIndex validatorIndex : ℕ) (w : World) :
    Except Error (World × MergeStakesEvent) := do
  let s := w.state
  ensure (accounts.operationalSolAccount = s.operationalSolAccount) .constraint
  let destinationStake ← orError (w.stakes accounts.destinationStake) .constraint
  let sourceStake ← orError (w.stakes accounts.sourceStake) .constraint
  ensure (!s.paused) (.marinade .programIsPaused)
  ensure s.delinquentUpgrader.isDone (.marinade .delinquentUpgraderIsNotDone)
  let validator ← s.validatorSystem.get validatorIndex
  ensure (accounts.destinationStake = .canonicalStake validator.validatorAccount)
    (.marinade .invalidCanonicalStakeAccountAddress)
  let canonicalStakeInfo ←
    s.stakeSystem.getChecked canonicalStakeIndex accounts.destinationStake
  let canonicalDelegation ←
    orError destinationStake.delegation (.marinade .destinationStakeMustBeDelegated)
  checkDestinationDelegation canonicalDelegation canonicalStakeInfo validator.validatorAccount
  let sourceStakeInfo ← s.stakeSystem.getChecked sourceStakeIndex accounts.sourceStake
  let sourceDelegation ←
    orError sourceStake.delegation (.marinade .sourceStakeMustBeDelegated)
  ensure (sourceStakeInfo.lastUpdateStatus = .active)
    (.marinade .sourceStakeMustNotBeDeactivating)
  checkSourceDelegation sourceStake (w.lamportsOf accounts.sourceStake) sourceDelegation
    sourceStakeInfo validator.validatorAccount
  merge rt accounts canonicalStakeIndex sourceStakeIndex validatorIndex validator
    canonicalStakeInfo sourceStakeInfo sourceStake w

/-! ## What a merge does -/

/-- What the checks establish of the two accounts and their records. -/
structure Checked (accounts : MergeStakes) (i i' j : ℕ) (w : World)
    (account srcAccount : StakeAccount) (d sd : Delegation) (r sr : StakeRecord)
    (v : ValidatorRecord) : Prop where
  not_paused : w.state.paused = false
  done : w.state.delinquentUpgrader = .done
  operational : accounts.operationalSolAccount = w.state.operationalSolAccount
  account_eq : w.stakes accounts.destinationStake = some account
  source_eq : w.stakes accounts.sourceStake = some srcAccount
  delegation_eq : account.delegation = some d
  source_delegation_eq : srcAccount.delegation = some sd
  validator : w.state.validatorSystem.records[j]? = some v
  canonical : accounts.destinationStake = .canonicalStake v.validatorAccount
  record : w.state.stakeSystem.records[i]? = some r
  record_key : r.stakeAccount = accounts.destinationStake
  record_active : r.lastUpdateStatus = .active
  active : d.deactivationEpoch = epochMax
  updated : r.lastUpdateDelegatedLamports = d.stake
  voter : d.voterPubkey = v.validatorAccount
  source_record : w.state.stakeSystem.records[i']? = some sr
  source_key : sr.stakeAccount = accounts.sourceStake
  source_active : sr.lastUpdateStatus = .active
  source_not_deactivating : sd.deactivationEpoch = epochMax
  source_updated : sr.lastUpdateDelegatedLamports = sd.stake
  source_lamports :
    w.lamportsOf accounts.sourceStake = sd.stake + srcAccount.stakeMeta.rentExemptReserve
  source_voter : sd.voterPubkey = v.validatorAccount

/-- The effect of a merge that also delegates `extra` of the rent of the source. -/
structure Spec (accounts : MergeStakes) (i i' j : ℕ) (w w' : World)
    (account srcAccount : StakeAccount) (d sd : Delegation) (r sr : StakeRecord)
    (v : ValidatorRecord) (extra : ℕ) : Prop
    extends Checked accounts i i' j w account srcAccount d sd r sr v where
  ne : accounts.destinationStake ≠ accounts.sourceStake
  extra_le : extra ≤ srcAccount.stakeMeta.rentExemptReserve
  stakes_eq : w'.stakes = Function.update (Function.update w.stakes accounts.sourceStake none)
    accounts.destinationStake (some { account with
      delegation := some { d with stake := d.stake + sd.stake + extra } })
  lamports_eq : ∀ k,
    w'.lamportsOf k + only accounts.sourceStake (w.lamportsOf accounts.sourceStake) k
        + only accounts.destinationStake (srcAccount.stakeMeta.rentExemptReserve - extra) k
      = w.lamportsOf k + only accounts.destinationStake (w.lamportsOf accounts.sourceStake) k
        + only accounts.operationalSolAccount (srcAccount.stakeMeta.rentExemptReserve - extra) k
  capital_eq : w'.lamports.total = w.lamports.total
  records_eq : w'.state.stakeSystem.records = swapRemove (w.state.stakeSystem.records.set i
    { r with lastUpdateDelegatedLamports := d.stake + sd.stake + extra }) i'
  validators_eq : w'.state.validatorSystem.records = w.state.validatorSystem.records.set j
    { v with activeBalance := v.activeBalance + extra }
  state_eq : w'.state = { w.state with
    stakeSystem := { w.state.stakeSystem with stakeList := w'.state.stakeSystem.stakeList }
    validatorSystem := { w.state.validatorSystem with
      validatorList := w'.state.validatorSystem.validatorList
      totalActiveBalance := w.state.validatorSystem.totalActiveBalance + extra } }
  spares : w.SparesOthers [] w'.toChain
  frame : w'.toChain = { w.toChain with lamports := w'.lamports, stakes := w'.stakes }

section

variable {rt : Runtime} {accounts : MergeStakes} {w w' : World} {c c' : Chain} {x : ℕ}
  {i i' j : ℕ} {r sr : StakeRecord} {v : ValidatorRecord} {account srcAccount : StakeAccount}
  {d sd : Delegation} {e : MergeStakesEvent}

/-- The two accounts have different records. -/
theorem Spec.index_ne {extra : ℕ}
    (h : Spec accounts i i' j w w' account srcAccount d sd r sr v extra) : i ≠ i' := by
  rintro rfl
  have hr := h.record.symm.trans h.source_record
  rw [Option.some.injEq] at hr
  subst hr
  exact h.ne (h.record_key.symm.trans h.source_key)

private theorem returnRent_spec (h : returnRent rt accounts x c = .ok c')
    (ha : c.stakes accounts.destinationStake = some account)
    (hlt : x < c.lamportsOf accounts.destinationStake) :
    ∃ ledger, ledger.total = c.lamports.total ∧
      (∀ k, ledger.balance k + only accounts.destinationStake x k
        = c.lamportsOf k + only accounts.operationalSolAccount x k) ∧
      c' = { c with lamports := ledger } := by
  unfold returnRent at h
  split at h
  · obtain ⟨-, -, l, ht, hl, rfl⟩ := StakeProgram.withdraw_part_spec h ha (by omega)
    exact ⟨l, ht, hl, rfl⟩
  · cases h
    obtain rfl : x = 0 := by omega
    exact ⟨c.lamports, rfl, by simp, rfl⟩

private theorem returnRent_spares (h : returnRent rt accounts x c = .ok c') :
    c.SparesOthers [] c' := by
  unfold returnRent at h
  split at h
  · exact fun U hU ↦ StakeProgram.withdraw_spares h (hU.not_program rfl)
  · cases h
    exact .refl c

private theorem merge_spec (hc : Checked accounts i i' j w account srcAccount d sd r sr v)
    (hfunded : w.Funded accounts.destinationStake)
    (h : merge rt accounts i i' j v r sr srcAccount w = .ok (w', e)) :
    Spec accounts i i' j w w' account srcAccount d sd r sr v e.extraDelegated ∧
      e.extraDelegated + e.returnedStakeRent = srcAccount.stakeMeta.rentExemptReserve := by
  simp only [merge, bind_eq_ok, orError_eq_ok, checkedSub_eq_ok, checkedAdd_eq_ok,
    pure_eq_ok] at h
  obtain ⟨c₁, h₁, merged, hmerged, moved, ⟨-, rfl⟩, extra, ⟨-, rfl⟩, rent, ⟨hrent, rfl⟩, active,
    ⟨-, rfl⟩, vs, hvs, total, ⟨-, rfl⟩, ss, hss, ss', hss', c₂, h₂, hw⟩ := h
  obtain ⟨rfl, rfl⟩ := Prod.mk.inj hw
  have hspares : w.SparesOthers [] c₂ := fun U hU ↦
    (StakeProgram.merge_spares h₁ (hU.not_program rfl)).trans (returnRent_spares h₂ U hU)
  obtain ⟨hne, -, -, -, -, l₁, ht₁, hl₁, rfl⟩ := StakeProgram.merge_spec h₁ hc.account_eq
    hc.source_eq hc.delegation_eq hc.source_delegation_eq
  simp only [Function.update_self, Option.bind_some, Option.some.injEq] at hmerged
  subst hmerged
  -- what was delegated on top of the two stakes is read off the account
  have hupdated := hc.updated
  have hsource := hc.source_updated
  obtain ⟨extra, hextra⟩ : ∃ extra,
      StakeProgram.mergeAdds rt srcAccount d sd w.clock.epoch = sd.stake + extra := by
    unfold StakeProgram.mergeAdds
    split
    · exact ⟨_, rfl⟩
    · exact ⟨0, rfl⟩
  have hread : d.stake + (sd.stake + extra) - d.stake - sd.stake = extra := by omega
  simp only [hupdated, hsource, hextra, hread] at hrent hvs hss h₂ ⊢
  have hdst : srcAccount.stakeMeta.rentExemptReserve - extra
      < l₁.balance accounts.destinationStake := by
    have hk := hl₁ accounts.destinationStake
    rw [only_of_ne hne, only_self, hc.source_lamports] at hk
    have := hfunded account d hc.account_eq hc.delegation_eq
    omega
  obtain ⟨l₂, ht₂, hl₂, rfl⟩ := returnRent_spec h₂ (Function.update_self ..) hdst
  obtain ⟨hvs, hvalidators⟩ := ValidatorSystem.set_eq_ok hvs
  obtain ⟨hss, hset⟩ := StakeSystem.set_eq_ok hss
  obtain ⟨hss', hremove⟩ := StakeSystem.remove_eq_ok hss'
  rw [← Nat.add_assoc] at hset
  refine ⟨{
    hc with
    ne := hne
    extra_le := hrent
    stakes_eq := by rw [Nat.add_assoc]
    lamports_eq := fun k ↦ by
      have e₁ := hl₁ k
      have e₂ : l₂.balance k + _ = l₁.balance k + _ := hl₂ k
      change l₂.balance k + _ + _ = _
      omega
    capital_eq := ht₂.trans ht₁
    records_eq := by rw [← hset]; exact hremove
    validators_eq := hvalidators
    state_eq := by
      simp only
      rw [hss', hss, hvs]
    spares := hspares
    frame := rfl }, ?_⟩
  exact Nat.add_sub_cancel' hrent

/-- A merge adds the two delegations up, and possibly the rent of the source, which is otherwise
returned. -/
theorem process_spec (h : accounts.process rt i i' j w = .ok (w', e))
    (hfunded : w.Funded accounts.destinationStake) :
    ∃ account srcAccount d sd r sr v,
      Spec accounts i i' j w w' account srcAccount d sd r sr v e.extraDelegated ∧
      e.extraDelegated + e.returnedStakeRent = srcAccount.stakeMeta.rentExemptReserve := by
  simp only [process, bind_eq_ok, ensure_eq_ok, orError_eq_ok, exists_const,
    StakeSystem.getChecked_eq_ok, ValidatorSystem.get, AccountList.get_eq_ok,
    checkDestinationDelegation_eq_ok, checkSourceDelegation_eq_ok] at h
  obtain ⟨hoper, account, ha, srcAccount, hsa, hpaused, hdone, v, hv, hcanonical, r, ⟨hr, hkey⟩,
    d, hd, ⟨hactive, hmax, hupdated, hvoter⟩, sr, ⟨hsr, hskey⟩, sd, hsd, hsactive,
    ⟨hsmax, hsupdated, -, hlamports, hsvoter⟩, h⟩ := h
  exact ⟨account, srcAccount, d, sd, r, sr, v, merge_spec {
    not_paused := by simpa using hpaused
    done := DelinquentUpgraderState.eq_done_of_isDone hdone
    operational := hoper
    account_eq := ha
    source_eq := hsa
    delegation_eq := hd
    source_delegation_eq := hsd
    validator := hv
    canonical := hcanonical
    record := hr
    record_key := hkey
    record_active := hactive
    active := hmax
    updated := hupdated
    voter := hvoter
    source_record := hsr
    source_key := hskey
    source_active := hsactive
    source_not_deactivating := hsmax
    source_updated := hsupdated
    source_lamports := hlamports
    source_voter := hsvoter } hfunded h⟩

end

end MergeStakes

end Marinade
