import Marinade.Invariants.Capital
import Marinade.Invariants.Flows
import Marinade.Replay

/-!
# Near the request and the target

The validator manager asks `partial_unstake` for an amount, which is cut to what the validator has
above its target. Only when too little of the account would be left is the whole account unstaked,
and then it may be more than the amount, or less, because the account may hold less than what the
validator has above its target. Either way it is less than the minimal stake too much.
-/

open Foundation Foundation.Ledger

namespace Marinade

namespace PartialUnstake

/-- `u` is taken from the validator `v` at `j`, less than the minimal stake more than it was asked
for and has above its target, and is booked as cooling down. -/
structure Taken (desired j : ℕ) (w w' : World) (v : ValidatorRecord) (share u : ℕ) : Prop where
  lt_request : u < min desired (v.activeBalance - share) + w.state.stakeSystem.minStake
  validator : ∃ v', w'.state.validatorSystem.records[j]? = some v' ∧
    v'.activeBalance + u = v.activeBalance ∧
    share < v'.activeBalance + w.state.stakeSystem.minStake
  total_eq : w'.state.validatorSystem.totalActiveBalance + u
    = w.state.validatorSystem.totalActiveBalance
  emergency_eq : w'.state.emergencyCoolingDown = w.state.emergencyCoolingDown + u
  controlled_eq : ∃ controlled, w.state.totalLamportsUnderControl = .ok controlled ∧
    w'.state.totalLamportsUnderControl = .ok controlled

section

variable {rt : Runtime} {w w' : World} {stakeAccount : Pubkey} {account : StakeAccount}
  {d : Delegation} {r : StakeRecord} {v : ValidatorRecord} {i j desired share u : ℕ}

/-- The bound on the amount is all there is to prove. -/
private theorem taken_of_unstaked {epoch : ℕ} (hcapital : w.state.controlled ≤ u64Max)
    (h : Unstaked true stakeAccount i j w w' account d r v u epoch)
    (hlt : u < unstakeAmount v share desired + w.state.stakeSystem.minStake)
    (habove : share < v.activeBalance) : Taken desired j w w' v share u where
  lt_request := hlt
  validator := by
    obtain ⟨v', hv', hactive⟩ := h.exists_validator
    rw [unstakeAmount] at hlt
    exact ⟨v', hv', hactive, by omega⟩
  total_eq := by
    obtain ⟨_, _, _, hstate⟩ := h.state_eq
    rw [hstate]
    exact Nat.sub_add_cancel h.total_balance
  emergency_eq := by
    obtain ⟨_, _, _, hstate⟩ := h.state_eq
    rw [hstate]
    rfl
  controlled_eq := by
    have hcontrolled : w'.state.controlled = w.state.controlled := congrArg Fund.assets h.fund_eq
    exact ⟨_, State.totalLamportsUnderControl_eq_ok.mpr ⟨hcapital, rfl⟩,
      State.totalLamportsUnderControl_eq_ok.mpr ⟨hcontrolled.trans_le hcapital, hcontrolled⟩⟩

end

end PartialUnstake

open PartialUnstake

section

variable {rt : Runtime} {w w' : World} {accounts : PartialUnstake} {i j desired : ℕ}
  {e : Event}

/-- Either the validator is near its target and nothing is unstaked, or some `u` near the request
and the target is: the whole account, or a part that leaves at least the minimal stake and gets an
emergency record of its own. -/
theorem partialUnstake_of_reachable (h : (marinade rt).Reachable w)
    (he : exec rt w (.partialUnstake accounts i j desired) = .ok (w', e)) :
    ∃ r d v total share,
      w.state.stakeSystem.records[i]? = some r ∧ r.stakeAccount = accounts.stakeAccount ∧
      (w.stakes accounts.stakeAccount).bind (·.delegation) = some d ∧
      w.state.validatorSystem.records[j]? = some v ∧
      totalStakeTarget w.state (w.lamportsOf .reserve) = .ok total ∧
      w.state.validatorSystem.validatorStakeTarget v total = .ok share ∧
      ((v.activeBalance ≤ share + w.state.stakeSystem.minStake ∧
          w'.state = w.state ∧ w'.stakes = w.stakes) ∨
        ∃ u, Taken desired j w w' v share u ∧
          ((u = r.lastUpdateDelegatedLamports ∧
              w'.state.stakeSystem.records = w.state.stakeSystem.records.set i
                { r with lastUpdateStatus := .deactivating, isEmergencyUnstaking := true } ∧
              (w'.stakes accounts.stakeAccount).bind (·.delegation)
                = some { d with deactivationEpoch := w.clock.epoch }) ∨
            (u + w.state.stakeSystem.minStake ≤ r.lastUpdateDelegatedLamports ∧
              w'.state.stakeSystem.records = (w.state.stakeSystem.records ++
                [StakeRecord.new accounts.splitStakeAccount u w.clock true false]).set i
                { r with lastUpdateDelegatedLamports := r.lastUpdateDelegatedLamports - u } ∧
              (w'.stakes accounts.stakeAccount).bind (·.delegation)
                = some { d with stake := d.stake - u } ∧
              (w'.stakes accounts.splitStakeAccount).bind (·.delegation)
                = some { d with stake := u, deactivationEpoch := w.clock.epoch }))) := by
  have hw := wellFormed_of_reachable h
  have hcapital := controlled_le_of_reachable h
  have hmin : 0 < w.state.stakeSystem.minStake := hw.minStake_pos
  obtain ⟨account, d, r, v, share, hdecided, houtcome⟩ :=
    process_cases (silently_eq_ok he) (hw.stakes_sound.funded _)
  obtain ⟨total, htotal, hshare⟩ := hdecided.share_eq
  refine ⟨r, d, v, total, share, hdecided.record, hdecided.record_key, ?_, hdecided.validator,
    htotal, hshare, ?_⟩
  · rw [hdecided.account_eq]
    exact hdecided.delegation_eq
  · cases houtcome with
    | onTarget honTarget hnot => exact .inl ⟨honTarget, hnot.state_eq, by rw [hnot.frame]⟩
    | whole habove hrest hwhole =>
      refine .inr ⟨_, taken_of_unstaked hcapital hwhole.toUnstaked (by omega) (by omega),
        .inl ⟨rfl, hwhole.records_eq, ?_⟩⟩
      rw [hwhole.stakes_eq, Function.update_self]
      rfl
    | part habove hrest hpart =>
      have hlt := hpart.split_lt
      refine .inr ⟨_, taken_of_unstaked hcapital hpart.toUnstaked (by omega) (by omega),
        .inr ⟨by omega, hpart.records_eq, ?_, ?_⟩⟩
      · -- the account that was split off is another one
        have hne : accounts.stakeAccount ≠ accounts.splitStakeAccount :=
          Chain.ne_of_isUnused (by simp [hpart.account_eq]) hpart.split_unused
        rw [hpart.stakes_eq, Function.update_of_ne hne, Function.update_self]
        rfl
      · rw [hpart.stakes_eq, Function.update_self]
        rfl

end

namespace Sample

/-- A second validator is listed, and the first one has twice its target. -/
def sharing : List Action := staking ++ [
  .run (.addValidator ⟨user, .external 21, .duplicationFlag (.external 21), user⟩ 100)]

def shared : List Label × World :=
  (replay runtime (fun _ _ ↦ true) fresh sharing).get (by decide +kernel)

theorem shared_reachable : (marinade runtime).Reachable shared.2 :=
  (run_of_replay (Option.some_get _).symm).reachable fresh_fresh

/-- More than the validator has above its target. -/
def halving : Instruction :=
  .partialUnstake ⟨user, .external 30, .external 31, user⟩ 0 0 50000000

theorem halving_isSome : (exec runtime shared.2 halving).toOption.isSome = true := by
  decide +kernel

def halved : World :=
  ((exec runtime shared.2 halving).toOption.get halving_isSome).1

end Sample

/-- The request is cut to half of what the validator has. -/
theorem partialUnstake_sample : ∃ v,
    Sample.shared.2.state.validatorSystem.records[0]? = some v ∧ v.activeBalance = 60000000 ∧
    Taken 50000000 0 Sample.shared.2 Sample.halved v 30000000 30000000 := by
  obtain ⟨r, d, v, total, share, -, -, -, hv, htotal, hshare, hend⟩ :=
    partialUnstake_of_reachable Sample.shared_reachable (eq_ok_get Sample.halving_isSome)
  cases htotal.symm.trans (by decide +kernel : _ = .ok 60000000)
  obtain rfl := Option.some.inj (hv.symm.trans (Option.some_get
    (by decide +kernel : Sample.shared.2.state.validatorSystem.records[0]?.isSome)).symm)
  cases hshare.symm.trans (by decide +kernel : _ = .ok 30000000)
  refine ⟨_, hv, by decide +kernel, ?_⟩
  rcases hend with ⟨honTarget, -⟩ | ⟨u, htaken, -⟩
  · exact absurd honTarget (by decide +kernel)
  · have hemergency : Sample.halved.state.emergencyCoolingDown
        = Sample.shared.2.state.emergencyCoolingDown + 30000000 := by
      decide +kernel
    obtain rfl : u = 30000000 := Nat.add_left_cancel (htaken.emergency_eq.symm.trans hemergency)
    exact htaken

end Marinade
