import Marinade.Invariants.Registry
import Marinade.Replay

/-!
# Positions in the lists

The caller says where in the two lists the records are, because searching them would take too long.
Removing a record moves another one to its place, so a position may be out of date by the time the
call is executed. That is harmless: the record found there is checked against the account it should
be about, and no two records are about one account. Two calls that differ only in the positions
never do different things; the one whose positions are wrong fails.
-/

open Foundation Foundation.Ledger

namespace Marinade

/-- The two calls differ only in the positions of records. -/
inductive Instruction.Reindexed : Instruction → Instruction → Prop
  | removeValidator {accounts vote} (n n' : ℕ) :
      Reindexed (.removeValidator accounts n vote) (.removeValidator accounts n' vote)
  | setValidatorScore {accounts vote score} (n n' : ℕ) :
      Reindexed (.setValidatorScore accounts n vote score)
        (.setValidatorScore accounts n' vote score)
  | depositStakeAccount {accounts} (j j' : ℕ) :
      Reindexed (.depositStakeAccount accounts j) (.depositStakeAccount accounts j')
  | stakeReserve {accounts} (j j' : ℕ) :
      Reindexed (.stakeReserve accounts j) (.stakeReserve accounts j')
  | updateActive {accounts} (n n' j j' : ℕ) :
      Reindexed (.updateActive accounts n j) (.updateActive accounts n' j')
  | updateDeactivated {accounts} (n n' j j' : ℕ) :
      Reindexed (.updateDeactivated accounts n j) (.updateDeactivated accounts n' j')
  | deactivateStake {accounts} (n n' j j' : ℕ) :
      Reindexed (.deactivateStake accounts n j) (.deactivateStake accounts n' j')
  | emergencyUnstake {accounts} (n n' j j' : ℕ) :
      Reindexed (.emergencyUnstake accounts n j) (.emergencyUnstake accounts n' j')
  | partialUnstake {accounts desired} (n n' j j' : ℕ) :
      Reindexed (.partialUnstake accounts n j desired) (.partialUnstake accounts n' j' desired)
  | mergeStakes {accounts} (n n' m m' j j' : ℕ) :
      Reindexed (.mergeStakes accounts n m j) (.mergeStakes accounts n' m' j')
  | createCanonicalStake {accounts} (n n' j j' : ℕ) :
      Reindexed (.createCanonicalStake accounts n j) (.createCanonicalStake accounts n' j')
  | withdrawStakeAccount {accounts x beneficiary} (n n' j j' : ℕ) :
      Reindexed (.withdrawStakeAccount accounts n j x beneficiary)
        (.withdrawStakeAccount accounts n' j' x beneficiary)

section

variable {rt : Runtime} {w w₁ w₂ : World} {i i' : Instruction} {p p' : World × Event}
  {n n' j j' : ℕ} {k vote : Pubkey} {r r' : StakeRecord} {v v' : ValidatorRecord}

/-! ## One place for each record -/

theorem Recorded.index_eq (h : Recorded w) (hr : w.state.stakeSystem.records[n]? = some r)
    (hkey : r.stakeAccount = k) (hr' : w.state.stakeSystem.records[n']? = some r')
    (hkey' : r'.stakeAccount = k) : n = n' :=
  h.distinct.index_eq hr hr' (hkey.trans hkey'.symm)

theorem Registered.index_eq (h : Registered w)
    (hv : w.state.validatorSystem.records[j]? = some v) (hkey : v.validatorAccount = vote)
    (hv' : w.state.validatorSystem.records[j']? = some v') (hkey' : v'.validatorAccount = vote) :
    j = j' :=
  h.distinct.index_eq hv hv' (hkey.trans hkey'.symm)

/-- The validator of an account, too, is in one place. -/
theorem Registered.index_eq_of_voter {account account' : StakeAccount} {d d' : Delegation}
    (h : Registered w) (ha : w.stakes k = some account) (hd : account.delegation = some d)
    (hv : w.state.validatorSystem.records[j]? = some v)
    (hvoter : d.voterPubkey = v.validatorAccount) (ha' : w.stakes k = some account')
    (hd' : account'.delegation = some d')
    (hv' : w.state.validatorSystem.records[j']? = some v')
    (hvoter' : d'.voterPubkey = v'.validatorAccount) : j = j' := by
  have haccount : account = account' := Option.some.inj (ha.symm.trans ha')
  have hdelegation : d = d' := Option.some.inj (hd.symm.trans ((congrArg _ haccount).trans hd'))
  exact h.index_eq hv hvoter.symm hv' (hvoter'.symm.trans (congrArg _ hdelegation.symm))

/-! ## Each instruction -/

/-- Where there is nothing to stake the validator is not looked up; otherwise it is in one place. -/
theorem StakeReserve.process_reindexed {accounts : StakeReserve} {e e' : StakeReserveEvent}
    (hr : Registered w) (h : accounts.process rt j w = .ok (w₁, e))
    (h' : accounts.process rt j' w = .ok (w₂, e')) :
    accounts.process rt j w = accounts.process rt j' w := by
  have hsame : j = j' ∨ accounts.process rt j w = accounts.process rt j' w := by
    simp only [process, bind_eq_ok] at h h'
    obtain ⟨c, hc, _, hpaused, _, hdone, delta, hdelta, h⟩ := h
    obtain ⟨c', hc', _, -, _, -, _, -, h'⟩ := h'
    obtain rfl : c = c' := Except.ok.inj (hc.symm.trans hc')
    by_cases hpos : w.state.stakeDelta (c.lamportsOf .reserve) ≤ 0
    · right
      have hearly : ∀ n, accounts.process rt n w
          = accounts.returnUnusedStakeAccountRent c w.state := by
        intro n
        simp only [process, bind, Except.bind, hc, hpaused, hdone, hdelta, if_pos hpos]
      rw [hearly j, hearly j']
    · left
      rw [if_neg hpos] at h h'
      obtain ⟨v, hv, -⟩ := bind_eq_ok.mp h
      obtain ⟨v', hv', -⟩ := bind_eq_ok.mp h'
      rw [ValidatorSystem.getChecked_eq_ok] at hv hv'
      exact hr.index_eq hv.1 hv.2 hv'.1 hv'.2
  rcases hsame with rfl | hsame
  · rfl
  · exact hsame

/-- Calls that both succeed and differ only in the positions are about the same records. -/
theorem exec_reindexed (h : (marinade rt).Reachable w) (hi : i.Reindexed i')
    (he : exec rt w i = .ok p) (he' : exec rt w i' = .ok p') : exec rt w i = exec rt w i' := by
  have hstakes := (booked_of_reachable h).toRecorded
  have hvalidators := registered_of_reachable h
  have hfunded := (wellFormed_of_reachable h).stakes_sound.funded
  obtain ⟨w₁, e⟩ := p
  obtain ⟨w₂, e'⟩ := p'
  cases hi with
  | removeValidator n n' =>
    obtain ⟨v, hs⟩ := RemoveValidator.process_spec (silently_eq_ok he)
    obtain ⟨v', hs'⟩ := RemoveValidator.process_spec (silently_eq_ok he')
    rw [hvalidators.index_eq hs.validator hs.validator_key hs'.validator hs'.validator_key]
  | setValidatorScore n n' =>
    have hp := silently_eq_ok he
    have hp' := silently_eq_ok he'
    simp only [SetValidatorScore.process, bind_eq_ok, ValidatorSystem.getChecked_eq_ok] at hp hp'
    obtain ⟨_, -, _, -, v, ⟨hv, hkey⟩, -⟩ := hp
    obtain ⟨_, -, _, -, v', ⟨hv', hkey'⟩, -⟩ := hp'
    rw [hvalidators.index_eq hv hkey hv' hkey']
  | depositStakeAccount j j' =>
    obtain ⟨_, hp, -⟩ := reporting_eq_ok he
    obtain ⟨_, hp', -⟩ := reporting_eq_ok he'
    obtain ⟨_, _, _, _, hs⟩ := DepositStakeAccount.process_spec hp
    obtain ⟨_, _, _, _, hs'⟩ := DepositStakeAccount.process_spec hp'
    rw [hvalidators.index_eq_of_voter hs.account_eq hs.delegation_eq hs.validator hs.voter.symm
      hs'.account_eq hs'.delegation_eq hs'.validator hs'.voter.symm]
  | stakeReserve j j' =>
    obtain ⟨_, hp, -⟩ := reporting_eq_ok he
    obtain ⟨_, hp', -⟩ := reporting_eq_ok he'
    rw [exec, exec, StakeReserve.process_reindexed hvalidators hp hp']
  | updateActive n n' j j' =>
    obtain ⟨_, _, _, _, _, _, _, _, hs⟩ :=
      UpdateActive.process_spec (silently_eq_ok he) (hfunded _)
    obtain ⟨_, _, _, _, _, _, _, _, hs'⟩ :=
      UpdateActive.process_spec (silently_eq_ok he') (hfunded _)
    rw [hstakes.index_eq hs.record hs.record_key hs'.record hs'.record_key,
      hvalidators.index_eq_of_voter hs.account_eq hs.delegation_eq hs.validator hs.voter.symm
        hs'.account_eq hs'.delegation_eq hs'.validator hs'.voter.symm]
  | updateDeactivated n n' j j' =>
    obtain ⟨_, _, _, _, _, _, _, _, _, hs⟩ :=
      UpdateDeactivated.process_spec (silently_eq_ok he) (hfunded _)
    obtain ⟨_, _, _, _, _, _, _, _, _, hs'⟩ :=
      UpdateDeactivated.process_spec (silently_eq_ok he') (hfunded _)
    rw [hstakes.index_eq hs.record hs.record_key hs'.record hs'.record_key,
      hvalidators.index_eq_of_voter hs.account_eq hs.delegation_eq hs.validator hs.voter.symm
        hs'.account_eq hs'.delegation_eq hs'.validator hs'.voter.symm]
  | deactivateStake n n' j j' =>
    obtain ⟨_, hp, -⟩ := reporting_eq_ok he
    obtain ⟨_, hp', -⟩ := reporting_eq_ok he'
    obtain ⟨_, _, _, _, _, hs, -⟩ := DeactivateStake.process_cases hp (hfunded _)
    obtain ⟨_, _, _, _, _, hs', -⟩ := DeactivateStake.process_cases hp' (hfunded _)
    rw [hstakes.index_eq hs.record hs.record_key hs'.record hs'.record_key,
      hvalidators.index_eq_of_voter hs.account_eq hs.delegation_eq hs.validator hs.voter
        hs'.account_eq hs'.delegation_eq hs'.validator hs'.voter]
  | emergencyUnstake n n' j j' =>
    obtain ⟨_, _, _, _, hs⟩ := EmergencyUnstake.process_spec (silently_eq_ok he)
    obtain ⟨_, _, _, _, hs'⟩ := EmergencyUnstake.process_spec (silently_eq_ok he')
    rw [hstakes.index_eq hs.record hs.record_key hs'.record hs'.record_key,
      hvalidators.index_eq_of_voter hs.account_eq hs.delegation_eq hs.validator hs.voter
        hs'.account_eq hs'.delegation_eq hs'.validator hs'.voter]
  | partialUnstake n n' j j' =>
    obtain ⟨_, _, _, _, _, hs, -⟩ :=
      PartialUnstake.process_cases (silently_eq_ok he) (hfunded _)
    obtain ⟨_, _, _, _, _, hs', -⟩ :=
      PartialUnstake.process_cases (silently_eq_ok he') (hfunded _)
    rw [hstakes.index_eq hs.record hs.record_key hs'.record hs'.record_key,
      hvalidators.index_eq_of_voter hs.account_eq hs.delegation_eq hs.validator hs.voter
        hs'.account_eq hs'.delegation_eq hs'.validator hs'.voter]
  | mergeStakes n n' m m' j j' =>
    obtain ⟨_, hp, -⟩ := reporting_eq_ok he
    obtain ⟨_, hp', -⟩ := reporting_eq_ok he'
    obtain ⟨_, _, _, _, _, _, _, hs, -⟩ := MergeStakes.process_spec hp (hfunded _)
    obtain ⟨_, _, _, _, _, _, _, hs', -⟩ := MergeStakes.process_spec hp' (hfunded _)
    rw [hstakes.index_eq hs.record hs.record_key hs'.record hs'.record_key,
      hstakes.index_eq hs.source_record hs.source_key hs'.source_record hs'.source_key,
      hvalidators.index_eq_of_voter hs.account_eq hs.delegation_eq hs.validator hs.voter
        hs'.account_eq hs'.delegation_eq hs'.validator hs'.voter]
  | createCanonicalStake n n' j j' =>
    obtain ⟨_, _, _, _, _, hs⟩ := CreateCanonicalStake.process_spec (silently_eq_ok he)
    obtain ⟨_, _, _, _, _, hs'⟩ := CreateCanonicalStake.process_spec (silently_eq_ok he')
    rw [hstakes.index_eq hs.record hs.record_key hs'.record hs'.record_key,
      hvalidators.index_eq_of_voter hs.account_eq hs.delegation_eq hs.validator hs.voter
        hs'.account_eq hs'.delegation_eq hs'.validator hs'.voter]
  | withdrawStakeAccount n n' j j' =>
    obtain ⟨_, hp, -⟩ := reporting_eq_ok he
    obtain ⟨_, hp', -⟩ := reporting_eq_ok he'
    obtain ⟨_, _, _, _, _, hs⟩ := WithdrawStakeAccount.process_spec hp (hfunded _)
    obtain ⟨_, _, _, _, _, hs'⟩ := WithdrawStakeAccount.process_spec hp' (hfunded _)
    rw [hstakes.index_eq hs.record hs.record_key hs'.record hs'.record_key,
      hvalidators.index_eq_of_voter hs.account_eq hs.delegation_eq hs.validator hs.voter
        hs'.account_eq hs'.delegation_eq hs'.validator hs'.voter]

/-- In a reachable state a call with other positions does the same, or fails. -/
theorem reindexed_same_or_error (h : (marinade rt).Reachable w) (hi : i.Reindexed i')
    (he : exec rt w i = .ok p) : exec rt w i' = .ok p ∨ ∃ error, exec rt w i' = .error error := by
  cases he' : exec rt w i' with
  | ok p' => exact .inl ((he'.symm.trans (exec_reindexed h hi he he').symm).trans he)
  | error error => exact .inr ⟨error, rfl⟩

end

/-! ## An update with an old position -/

theorem Sample.repeated_isSome :
    (exec runtime staked.2 (.updateActive ⟨.external 30⟩ 0 0)).toOption.isSome = true := by
  decide +kernel

theorem reindexed_sample :
    exec Sample.runtime Sample.staked.2 (.updateActive ⟨.external 30⟩ 7 0)
        = .ok ((exec Sample.runtime Sample.staked.2 (.updateActive ⟨.external 30⟩ 0 0)).toOption.get
          Sample.repeated_isSome) ∨
      ∃ error, exec Sample.runtime Sample.staked.2 (.updateActive ⟨.external 30⟩ 7 0)
        = .error error :=
  reindexed_same_or_error Sample.staked_reachable (.updateActive 0 7 0 0) (eq_ok_get _)

end Marinade
