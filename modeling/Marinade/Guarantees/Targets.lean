import Marinade.Guarantees.StakeDelta
import Marinade.Invariants.Capital
import Marinade.Invariants.Registry
import Marinade.Invariants.Upgrade

/-!
# The targets of the validators

Every validator is to have its share of all stake, in proportion to its score and rounded down. The
shares add up to what is to be staked, or to a little less. So as long as something is to be
unstaked, some validator has more than its share, and as long as enough is to be staked, some
validator lacks enough of it: the stake delta is never blocked by the scores.
-/

open Foundation Foundation.Ledger

namespace Marinade

/-- What `validatorStakeTarget` returns when it returns. -/
def ValidatorSystem.share (s : ValidatorSystem) (totalStakeTarget : ℕ) (v : ValidatorRecord) : ℕ :=
  if s.totalValidatorScore = 0 then 0 else totalStakeTarget * v.score / s.totalValidatorScore

section

variable {rt : Runtime} {w : World} {s : ValidatorSystem} {v : ValidatorRecord} {x : ℕ}

/-! ## Shares -/

theorem share_le (hscore : v.score ≤ s.totalValidatorScore) : s.share x v ≤ x := by
  unfold ValidatorSystem.share
  split
  · exact Nat.zero_le _
  · exact Nat.div_le_of_le_mul (by rw [Nat.mul_comm s.totalValidatorScore]; gcongr)

theorem validatorStakeTarget_eq (hscore : v.score ≤ s.totalValidatorScore) (hx : x ≤ u64Max) :
    s.validatorStakeTarget v x = .ok (s.share x v) := by
  have hle := share_le (x := x) hscore
  unfold ValidatorSystem.validatorStakeTarget ValidatorSystem.share at *
  split
  · rfl
  · rename_i hpos
    rw [if_neg hpos] at hle
    exact proportional_eq_ok.mpr (.inr ⟨Nat.pos_of_ne_zero hpos, hle.trans hx, rfl⟩)

theorem total_share_le_of_score (h : s.totalValidatorScore = total (·.score) s.records) :
    total (s.share x) s.records ≤ x := by
  by_cases hzero : s.totalValidatorScore = 0
  · refine le_of_eq_of_le (total_eq_zero_iff.mpr fun v _ ↦ ?_) (Nat.zero_le x)
    rw [ValidatorSystem.share, if_pos hzero]
  · have hshare : s.share x = fun v ↦ x * v.score / total (·.score) s.records := by
      funext v
      rw [ValidatorSystem.share, if_neg hzero, h]
    rw [hshare]
    exact total_share_le x

theorem lt_total_share_add_of_score (h : s.totalValidatorScore = total (·.score) s.records)
    (hpos : 0 < s.totalValidatorScore) :
    x < total (s.share x) s.records + s.records.length := by
  have hshare : s.share x = fun v ↦ x * v.score / total (·.score) s.records := by
    funext v
    rw [ValidatorSystem.share, if_neg hpos.ne', h]
  rw [hshare]
  exact lt_total_share_add x (h ▸ hpos)

/-! ## Somebody has too much, or too little -/

/-- If less is to be staked than the validators have, one of them has more than its share. -/
theorem exists_share_lt (h : s.totalValidatorScore = total (·.score) s.records)
    (hx : x < total (·.activeBalance) s.records) :
    ∃ v ∈ s.records, s.share x v < v.activeBalance :=
  exists_lt_of_total_lt ((total_share_le_of_score h).trans_lt hx)

/-- If much more is to be staked than the validators have, one of them lacks at least `m`. -/
theorem exists_add_le_share {m : ℕ} (h : s.totalValidatorScore = total (·.score) s.records)
    (hpos : 0 < s.totalValidatorScore) (hm : 0 < m)
    (hx : total (·.activeBalance) s.records + s.records.length * m + s.records.length
      ≤ x + 1) : ∃ v ∈ s.records, v.activeBalance + m ≤ s.share x v := by
  have hlt : total (fun v ↦ v.activeBalance + (m - 1)) s.records < total (s.share x) s.records := by
    have hshares := lt_total_share_add_of_score (x := x) h hpos
    have hlength := length_pos_of_total_pos (h ▸ hpos)
    have hsum : total (fun v ↦ v.activeBalance + (m - 1)) s.records
        = total (·.activeBalance) s.records + s.records.length * (m - 1) := by
      rw [total_add, total_const]
    have hsplit : s.records.length * m = s.records.length * (m - 1) + s.records.length := by
      rw [← Nat.mul_succ, Nat.succ_eq_add_one, Nat.sub_add_cancel hm]
    omega
  obtain ⟨v, hv, hlack⟩ := exists_lt_of_total_lt hlt
  exact ⟨v, hv, by omega⟩

/-- Where the validator and the delta lack enough, enough is staked. -/
theorem StakeReserve.le_stakeTarget {s : State} {share active delta : ℕ}
    (h : active + s.stakeSystem.minStake ≤ share) (hdelta : s.stakeSystem.minStake ≤ delta) :
    s.stakeSystem.minStake ≤ stakeTarget s share active delta := by
  simp only [stakeTarget]
  split
  · exact hdelta
  · omega

/-! ## In every reachable state -/

/-- What the validators have and what is to be staked fit under everything there is. -/
theorem active_add_delta_le (h : (marinade rt).Reachable w) :
    w.state.validatorSystem.totalActiveBalance + StakeReserve.totalStakeDelta w ≤ u64Max := by
  have hbooked := booked_of_reachable h
  have hcontrolled := hbooked.controlled_eq
  have hall := recorded_add_reserve_le h
  have hcapital := controlled_le_of_reachable h
  rw [State.controlled] at hcontrolled hcapital
  rcases Nat.eq_zero_or_pos (StakeReserve.totalStakeDelta w) with hzero | hpos
  · omega
  · have hdelta := StakeReserve.totalStakeDelta_eq hpos
    omega

/-- The targets of all validators are computed and add up to what is to be staked, or to less than
one lamport less for each. If stake is to be taken away, some validator has more than its target; if
enough is to be staked, some validator gets at least the minimal stake. -/
theorem targets_of_reachable (h : (marinade rt).Reachable w) :
    (∀ x ≤ u64Max,
      (∀ v ∈ w.state.validatorSystem.records,
        w.state.validatorSystem.validatorStakeTarget v x
          = .ok (w.state.validatorSystem.share x v)) ∧
      total (w.state.validatorSystem.share x) w.state.validatorSystem.records ≤ x ∧
      (0 < w.state.validatorSystem.totalValidatorScore →
        x < total (w.state.validatorSystem.share x) w.state.validatorSystem.records
          + w.state.validatorSystem.records.length)) ∧
    (w.stakeDelta < 0 → 0 < w.state.validatorSystem.totalActiveBalance →
      ∃ v ∈ w.state.validatorSystem.records, ∃ share,
        w.state.validatorSystem.validatorStakeTarget v
          (w.state.validatorSystem.totalActiveBalance - DeactivateStake.totalUnstakeDelta w)
            = .ok share ∧
        share < v.activeBalance) ∧
    (0 < w.state.validatorSystem.totalValidatorScore →
      (w.state.validatorSystem.records.length * w.state.stakeSystem.minStake
        + w.state.validatorSystem.records.length - 1 : ℤ) ≤ w.stakeDelta →
      ∃ v ∈ w.state.validatorSystem.records, ∃ share,
        w.state.validatorSystem.validatorStakeTarget v
          (min (w.state.validatorSystem.totalActiveBalance + StakeReserve.totalStakeDelta w) u64Max)
            = .ok share ∧
        v.activeBalance < share ∧
        w.state.stakeSystem.minStake ≤ StakeReserve.stakeTarget w.state share v.activeBalance
          (StakeReserve.totalStakeDelta w)) := by
  have hscore := (registry_of_reachable h).score_eq
  have hactive := activeBalance_of_reachable h
  have hfits := active_add_delta_le h
  have hmember : ∀ v ∈ w.state.validatorSystem.records,
      v.score ≤ w.state.validatorSystem.totalValidatorScore := fun v hv ↦ by
    rw [hscore]
    exact le_total (g := (·.score)) hv
  refine ⟨fun x hx ↦ ⟨fun v hv ↦ validatorStakeTarget_eq (hmember v hv) hx,
    total_share_le_of_score hscore, lt_total_share_add_of_score hscore⟩, ?_, ?_⟩
  · intro hneg hpos
    have hdelta : DeactivateStake.totalUnstakeDelta w = (-w.stakeDelta).toNat := rfl
    obtain ⟨v, hv, hlt⟩ := exists_share_lt
      (x := w.state.validatorSystem.totalActiveBalance - DeactivateStake.totalUnstakeDelta w)
      hscore (by omega)
    exact ⟨v, hv, _, validatorStakeTarget_eq (hmember v hv) (by omega), hlt⟩
  · intro hpos hdelta
    have hmin : 0 < w.state.stakeSystem.minStake := (wellFormed_of_reachable h).minStake_pos
    have heq : StakeReserve.totalStakeDelta w = w.stakeDelta.toNat := rfl
    obtain ⟨v, hv, hlack⟩ := exists_add_le_share (m := w.state.stakeSystem.minStake)
      (x := w.state.validatorSystem.totalActiveBalance + StakeReserve.totalStakeDelta w)
      hscore hpos hmin (by omega)
    have hlength := length_pos_of_total_pos (hscore ▸ hpos)
    have hshare := validatorStakeTarget_eq (hmember v hv) hfits
    refine ⟨v, hv, _, by rw [min_eq_left hfits]; exact hshare, by omega,
      StakeReserve.le_stakeTarget hlack ?_⟩
    have hle : w.state.stakeSystem.minStake
        ≤ w.state.validatorSystem.records.length * w.state.stakeSystem.minStake :=
      Nat.le_mul_of_pos_left _ hlength
    omega

end

/-- A validator that has lost its score has too much; two new ones lack their first stake. -/
theorem targets_sample :
    (∃ v ∈ Sample.shifted.2.state.validatorSystem.records, ∃ share,
      Sample.shifted.2.state.validatorSystem.validatorStakeTarget v
        (Sample.shifted.2.state.validatorSystem.totalActiveBalance
          - DeactivateStake.totalUnstakeDelta Sample.shifted.2) = .ok share ∧
      share < v.activeBalance) ∧
    ∃ v ∈ Sample.paired.2.state.validatorSystem.records, ∃ share,
      Sample.paired.2.state.validatorSystem.validatorStakeTarget v
        (min (Sample.paired.2.state.validatorSystem.totalActiveBalance
          + StakeReserve.totalStakeDelta Sample.paired.2) u64Max) = .ok share ∧
      v.activeBalance < share ∧
      Sample.paired.2.state.stakeSystem.minStake ≤ StakeReserve.stakeTarget Sample.paired.2.state
        share v.activeBalance (StakeReserve.totalStakeDelta Sample.paired.2) :=
  ⟨(targets_of_reachable Sample.shifted_reachable).2.1 (by decide +kernel) (by decide +kernel),
    (targets_of_reachable Sample.paired_reachable).2.2 (by decide +kernel) (by decide +kernel)⟩

end Marinade
