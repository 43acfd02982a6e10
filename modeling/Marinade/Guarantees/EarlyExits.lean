import Marinade.Invariants.Soundness
import Marinade.Replay

/-!
# Early exits

The three instructions that work off the stake delta succeed without doing anything when there is
nothing to do, so as not to fail other instructions of the transaction. They give the new account
back, and no stake account changes. Nor should the state: but staking the reserve has counted an
extra run by the time it finds that the validator already has its share, or that the share is too
small.
-/

open Foundation Foundation.Ledger

namespace Marinade

/-- The instructions that stake and unstake what the delta asks for. -/
def Instruction.worksOffStakeDelta : Instruction → Bool
  | .stakeReserve .. => true
  | .deactivateStake .. => true
  | .partialUnstake .. => true
  | _ => false

/-- Whether there is something to stake and the validator already had its turn in this epoch, so
that one of the runs the manager granted is used up. -/
def World.usesExtraRun (w : World) : Instruction → Bool
  | .stakeReserve _ j =>
    decide (0 < w.state.stakeDelta (w.lamportsOf .reserve)) &&
      w.state.validatorSystem.records[j]?.any (·.lastStakeDeltaEpoch = w.clock.epoch) &&
      decide (0 < w.state.stakeSystem.extraStakeDeltaRuns)
  | _ => false

section

variable {rt : Runtime} {w w' : World} {c c' : Chain} {s : State} {i : Instruction} {e : Event}
  {k payer src dst : Pubkey} {x j n : ℕ}

/-! ## What is not idle -/

theorem withdrawUninitialized_stakes (h : StakeProgram.withdrawUninitialized c k payer = .ok c') :
    c'.stakes = c.stakes := by
  simp only [StakeProgram.withdrawUninitialized, bind_eq_ok] at h
  obtain ⟨-, -, h⟩ := h
  obtain ⟨_, rfl, -⟩ := SystemProgram.transfer_spec h
  rfl

/-- A deactivation shows on the account. -/
theorem deactivate_stakes_ne (h : StakeProgram.deactivate c k payer = .ok c') :
    c'.stakes k ≠ c.stakes k := by
  obtain ⟨account, d, ha, hd, -, hmax, rfl⟩ := StakeProgram.deactivate_spec h
  intro heq
  rw [Chain.setStake_stakes_self, ha, Option.some.injEq] at heq
  have hdelegation := congrArg (·.delegation) heq
  rw [hd, Option.some.injEq] at hdelegation
  have hepoch := congrArg (·.deactivationEpoch) hdelegation
  exact c.clock.epoch_lt.ne (hepoch.trans hmax)

/-- After a split there is another account. -/
theorem splitAndDeactivate_stakes_ne (h : splitAndDeactivate rt c src dst x = .ok c') :
    c'.stakes dst ≠ none := by
  simp only [splitAndDeactivate, bind_eq_ok] at h
  obtain ⟨_, -, h⟩ := h
  obtain ⟨account, d, -, -, -, -, rfl⟩ := StakeProgram.deactivate_spec h
  rw [Chain.setStake_stakes_self]
  exact Option.some_ne_none _

/-! ## Unstaking -/

theorem DeactivateStake.state_of_idle {accounts : DeactivateStake} {event : DeactivateStakeEvent}
    (h : accounts.process rt n j w = .ok (w', event)) (hidle : w'.stakes = w.stakes) :
    w'.state = w.state := by
  simp only [process, returnUnusedSplitStakeAccountRent, bind_eq_ok, ensure_eq_ok, exists_const,
    checkStakeAmountAndValidator_eq_ok, requireActiveRecord_eq_ok] at h
  obtain ⟨_, -, c, hc, -, r, -, -, -, v, -, -, -, -, delta, -, -, target, -, h⟩ := h
  obtain ⟨hstakes, hnone, -⟩ := SystemProgram.initStakeAccount_rest hc
  split at h
  · simp only [bind_eq_ok, pure_eq_ok] at h
    obtain ⟨_, -, hw⟩ := h
    cases hw
    rfl
  · obtain ⟨twice, -, h⟩ := bind_eq_ok.mp h
    split at h
    · simp only [deactivateWhole, returnUnusedSplitStakeAccountRent, bind_eq_ok, pure_eq_ok] at h
      obtain ⟨c₁, h₁, c₂, h₂, _, -, hw⟩ := h
      cases hw
      refine absurd ?_ (deactivate_stakes_ne h₁)
      rw [← withdrawUninitialized_stakes h₂, hidle, hstakes]
    · unfold deactivatePart at h
      split at h
      · simp only [bind_eq_ok, pure_eq_ok] at h
        obtain ⟨_, -, hw⟩ := h
        cases hw
        rfl
      · simp only [bind_eq_ok, pure_eq_ok] at h
        obtain ⟨_, -, _, -, _, -, c₁, h₁, _, -, _, -, hw⟩ := h
        cases hw
        refine absurd ?_ (splitAndDeactivate_stakes_ne h₁)
        rw [hidle, hnone]

theorem PartialUnstake.state_of_idle {accounts : PartialUnstake}
    (h : accounts.process rt n j x w = .ok w') (hidle : w'.stakes = w.stakes) :
    w'.state = w.state := by
  simp only [process, returnUnusedSplitStakeAccountRent, bind_eq_ok, ensure_eq_ok, exists_const,
    checkStakeAmountAndValidator_eq_ok, requireActiveRecord_eq_ok] at h
  obtain ⟨-, _, -, c, hc, -, -, -, v, -, r, -, -, -, _, -, _, -, _, -, h⟩ := h
  obtain ⟨hstakes, hnone, -⟩ := SystemProgram.initStakeAccount_rest hc
  split at h
  · simp only [bind_eq_ok, pure_eq_ok] at h
    obtain ⟨_, -, rfl⟩ := h
    rfl
  · split at h
    · simp only [unstakeWhole, returnUnusedSplitStakeAccountRent, bind_eq_ok, pure_eq_ok] at h
      obtain ⟨c₁, h₁, c₂, h₂, _, -, _, -, rfl⟩ := h
      refine absurd ?_ (deactivate_stakes_ne h₁)
      rw [← withdrawUninitialized_stakes h₂, hidle, hstakes]
    · simp only [unstakePart, bind_eq_ok, pure_eq_ok] at h
      obtain ⟨_, -, c₁, h₁, _, -, _, -, _, -, rfl⟩ := h
      refine absurd ?_ (splitAndDeactivate_stakes_ne h₁)
      rw [hidle, hnone]

/-! ## Staking -/

namespace StakeReserve

variable {accounts : StakeReserve} {v : ValidatorRecord} {event : StakeReserveEvent}

theorem stake_stakes_ne (h : stake rt accounts j v x c s = .ok (w', event)) :
    w'.stakes accounts.stakeAccount ≠ none := by
  simp only [stake, bind_eq_ok, pure_eq_ok] at h
  obtain ⟨_, -, _, -, _, -, c₁, h₁, _, -, _, -, _, -, _, -, hw⟩ := h
  cases hw
  obtain ⟨_, -, -, -, rfl⟩ := StakeProgram.delegate_spec h₁
  rw [Chain.setStake_stakes_self]
  exact Option.some_ne_none _

theorem returnUnused_state (h : accounts.returnUnusedStakeAccountRent c s = .ok (w', event)) :
    w'.state = s := by
  simp only [returnUnusedStakeAccountRent, bind_eq_ok, pure_eq_ok] at h
  obtain ⟨_, -, hw⟩ := h
  cases hw
  rfl

/-- From here on an idle call leaves the state as it is. -/
theorem stakeTo_state_of_idle (h : stakeTo rt accounts j v x c s = .ok (w', event))
    (hidle : w'.stakes accounts.stakeAccount = none) : w'.state = s := by
  simp only [stakeTo, bind_eq_ok] at h
  obtain ⟨-, -, _, -, h⟩ := h
  split at h
  · exact returnUnused_state h
  · split at h
    · exact returnUnused_state h
    · exact absurd hidle (stake_stakes_ne h)

theorem state_iff_of_idle (h : accounts.process rt j w = .ok (w', event))
    (hidle : w'.stakes = w.stakes) :
    w'.state = w.state ↔ w.usesExtraRun (.stakeReserve accounts j) = false := by
  simp only [process, bind_eq_ok, ensure_eq_ok, exists_const] at h
  obtain ⟨c, hc, -, -, delta, -, h⟩ := h
  obtain ⟨-, hnone, hclock, hreserve⟩ := SystemProgram.initStakeAccount_rest hc
  rw [hreserve] at h
  rw [← hidle] at hnone
  split at h
  · rename_i hle
    have huses : w.usesExtraRun (.stakeReserve accounts j) = false := by
      simp [World.usesExtraRun, Int.not_lt.mpr hle]
    exact iff_of_true (returnUnused_state h) huses
  · rename_i hpos
    obtain ⟨v, hv, h⟩ := bind_eq_ok.mp h
    have hrecord := (ValidatorSystem.getChecked_eq_ok.mp hv).1
    rw [hclock] at h
    split at h
    · rename_i hepoch
      split at h
      · rename_i hruns
        have huses : w.usesExtraRun (.stakeReserve accounts j) = false := by
          simp [World.usesExtraRun, hruns]
        exact iff_of_true (returnUnused_state h) huses
      · rename_i hruns
        -- the run is counted before it turns out that there is nothing to do
        have huses : w.usesExtraRun (.stakeReserve accounts j) = true := by
          simp [World.usesExtraRun, Int.not_le.mp hpos, hrecord, hepoch, Nat.pos_of_ne_zero hruns]
        have hstate := stakeTo_state_of_idle h hnone
        refine iff_of_false ?_ (by simp [huses])
        intro heq
        rw [hstate] at heq
        have hless := congrArg (·.stakeSystem.extraStakeDeltaRuns) heq
        simp only at hless
        omega
    · rename_i hepoch
      have huses : w.usesExtraRun (.stakeReserve accounts j) = false := by
        simp [World.usesExtraRun, hrecord, hepoch]
      exact iff_of_true (stakeTo_state_of_idle h hnone) huses

end StakeReserve

/-! ## All three -/

/-- A call that neither stakes nor unstakes anything leaves the state with both its lists as they
are, unless it uses up an extra run. -/
theorem state_of_idle_iff (he : exec rt w i = .ok (w', e)) (hi : i.worksOffStakeDelta = true)
    (hidle : w'.stakes = w.stakes) : w'.state = w.state ↔ w.usesExtraRun i = false := by
  cases i with
  | stakeReserve accounts j =>
    obtain ⟨_, hp, -⟩ := reporting_eq_ok he
    exact StakeReserve.state_iff_of_idle hp hidle
  | deactivateStake accounts n j =>
    obtain ⟨_, hp, -⟩ := reporting_eq_ok he
    exact iff_of_true (DeactivateStake.state_of_idle hp hidle) rfl
  | partialUnstake accounts n j x =>
    exact iff_of_true (PartialUnstake.state_of_idle (silently_eq_ok he) hidle) rfl
  | _ => cases hi

end

/-! ## An extra run used up for nothing -/

namespace Sample

/-- Staking the reserve to the validator. -/
def restaking : Instruction :=
  .stakeReserve ⟨vote, .external 50, user⟩ 0

/-- The reserve was staked to the validator, and then another one is listed with a higher score: the
first has more than its share of what comes in later. -/
def saturating : List Action := staking ++ [
  .run (.addValidator ⟨user, .external 21, .duplicationFlag (.external 21), user⟩ 300),
  .tick (startOf 3),
  .run (.deposit ⟨user, msolAccount⟩ 20000000)]

def saturated : List Label × World :=
  (replay runtime (fun _ _ ↦ true) fresh saturating).get (by decide +kernel)

/-- The manager grants an extra run after the reserve was staked, and a deposit comes in that is too
small to be staked. -/
def crediting : List Action := staking ++ [
  .run (.configValidatorSystem user 1),
  .run (.deposit ⟨user, msolAccount⟩ 5000000)]

def credited : List Label × World :=
  (replay runtime (fun _ _ ↦ true) fresh crediting).get (by decide +kernel)

theorem restaking_saturated_isSome :
    (exec runtime saturated.2 restaking).toOption.isSome = true := by
  decide +kernel

theorem restaking_credited_isSome :
    (exec runtime credited.2 restaking).toOption.isSome = true := by
  decide +kernel

end Sample

/-- There is something to stake, but the validator has reached its target, and the state stays. -/
theorem state_of_idle_sample :
    0 < Sample.saturated.2.state.stakeDelta (Sample.saturated.2.lamportsOf .reserve) ∧
    ((exec Sample.runtime Sample.saturated.2 Sample.restaking).toOption.get
      Sample.restaking_saturated_isSome).1.state = Sample.saturated.2.state := by
  refine ⟨by decide +kernel, ?_⟩
  exact (state_of_idle_iff (eq_ok_get Sample.restaking_saturated_isSome) rfl rfl).mpr
    (by decide +kernel)

/-- An early exit that changes the state. -/
theorem state_ne_of_idle : ∃ w w' i e, exec Sample.runtime w i = .ok (w', e) ∧
    i.worksOffStakeDelta = true ∧ w'.stakes = w.stakes ∧ w'.state ≠ w.state := by
  have hstakes : ((exec Sample.runtime Sample.credited.2 Sample.restaking).toOption.get
      Sample.restaking_credited_isSome).1.stakes = Sample.credited.2.stakes := rfl
  refine ⟨_, _, _, _, eq_ok_get Sample.restaking_credited_isSome, rfl, hstakes, ?_⟩
  intro heq
  have hruns := congrArg (·.stakeSystem.extraStakeDeltaRuns) heq
  revert hruns
  decide +kernel

end Marinade
