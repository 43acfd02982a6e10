import Marinade.Failures
import Marinade.Invariants.Attribution

/-!
# The checks of the iteration over the stake records

While the records are visited the program compares what it counted with the books: after each first
visit, the total and the amount of the validator; after the last record, the total once more. On
consistent data none of these comparisons fails, and what is charged to the active total is there.
-/

open Foundation Foundation.Ledger

namespace Marinade

/-- Consistent data in the middle of the iteration over the stake records. -/
structure World.Consistent (rt : Runtime) (w : World) (cooling : Pubkey → Bool)
    (visitedCount totalActiveBalance totalDelinquentBalance : ℕ) : Prop
    extends Grounded rt w where
  upgrader_eq : w.state.delinquentUpgrader
    = .iteratingStakes visitedCount totalActiveBalance totalDelinquentBalance
  visits : w.Visits visitedCount totalActiveBalance
  attributed : w.Attributed cooling

/-- One of the comparisons fails, or the active total falls below zero. -/
def Error.UpgradeFailure : Error → Prop
  | .marinade e => e = .upgradingInvariantViolation
  | .underflow c => c = .totalActiveBalance
  | _ => False

section

variable {rt : Runtime} {w w' : World} {s : State} {cooling : Pubkey → Bool} {r : StakeRecord}
  {v : ValidatorRecord} {account : StakeAccount} {d : Delegation} {n t k n' t' k' i j x y : ℕ}

/-! ## What the invariants say of one record -/

namespace World.Consistent

/-- Nothing is charged to the active total that it does not have. -/
theorem counted_add_le (h : w.Consistent rt cooling n t k)
    (hr : r ∈ w.state.stakeSystem.records) :
    t + r.bookedActive cooling ≤ w.state.validatorSystem.totalActiveBalance := by
  have hsum := h.attributed.sum_eq
  have hdelayed := h.attributed.delayed_le
  have hle := le_total (g := (·.bookedActive cooling)) hr
  have htotal := h.visits.total_eq
  omega

/-- The same for the validator of the record. -/
theorem upgrader_add_le (h : w.Consistent rt cooling n t k)
    (hr : r ∈ w.state.stakeSystem.records) (hv : v ∈ w.state.validatorSystem.records)
    (hvoter : w.voterOf r.stakeAccount = some v.validatorAccount) :
    v.delinquentUpgraderActiveBalance + r.bookedActive cooling ≤ v.activeBalance := by
  have hle := h.attributed.upgrader_le v.validatorAccount (List.mem_map_of_mem hv)
  have hone := le_total
    (g := w.delegatedTo v.validatorAccount (·.bookedActive cooling)) hr
  rw [Chain.delegatedTo_eq hvoter, only_self] at hone
  have hup := h.registered.total_only_eq hv (·.delinquentUpgraderActiveBalance)
  have hbalance := h.registered.total_only_eq hv (·.activeBalance)
  simp only [ValidatorRecord.upgraderOf, ValidatorRecord.balanceOf] at hle
  omega

/-- A record that is counted or booked as active is part of the active total. -/
theorem last_le (h : w.Consistent rt cooling n t k) (hr : r ∈ w.state.stakeSystem.records)
    (hactive : ¬w.Deactivated r.stakeAccount) :
    r.lastUpdateDelegatedLamports ≤ w.state.validatorSystem.totalActiveBalance := by
  obtain ⟨hem, hcooling⟩ := h.attributed.not_cooling hr hactive
  have hparts := StakeRecord.counted_add_booked cooling hem
  have hcounted := le_total (g := UpdateActive.counted) hr
  have htotal := h.visits.total_eq
  have hle := h.counted_add_le hr
  have hnone := hcooling false
  omega

/-- When only one record may be left to visit, a sum over what was not visited is what this record
adds to it. -/
theorem total_eq_of_last (h : w.Consistent rt cooling n t k)
    (hr : w.state.stakeSystem.records[i]? = some r)
    (hlast : n + 1 = w.state.stakeSystem.records.length + r.visits) (g : StakeRecord → ℕ)
    (hg : ∀ r, r.lastUpdateStatus ≠ .unknown → g r = 0) :
    total g w.state.stakeSystem.records = g r := by
  have hcount := h.visits.count_eq
  have hlength := (cons_eraseIdx_perm hr).length_eq
  rw [← total_perm (cons_eraseIdx_perm hr), total_cons] at hcount ⊢
  rw [List.length_cons] at hlength
  have hone : ∀ r ∈ w.state.stakeSystem.records.eraseIdx i, r.visits ≤ 1 := by
    intro r _
    unfold StakeRecord.visits
    split <;> omega
  have hvisited : total (fun r : StakeRecord ↦ r.visits)
      (w.state.stakeSystem.records.eraseIdx i)
      = total (fun _ ↦ 1) (w.state.stakeSystem.records.eraseIdx i) := by
    rw [total_one]
    omega
  have hall := eq_of_total_eq hone hvisited
  have hzero : total g (w.state.stakeSystem.records.eraseIdx i) = 0 := by
    refine total_eq_zero_iff.mpr fun a ha ↦ hg a fun hunknown ↦ ?_
    have hvisits := hall a ha
    rw [StakeRecord.visits, if_pos hunknown] at hvisits
    cases hvisits
  omega

/-- When only this record may be left to visit, everything else is counted. -/
theorem sum_eq_of_last (h : w.Consistent rt cooling n t k)
    (hr : w.state.stakeSystem.records[i]? = some r)
    (hlast : n + 1 = w.state.stakeSystem.records.length + r.visits) :
    w.state.validatorSystem.totalActiveBalance + w.state.stakeSystem.delayedUnstakeCoolingDown
        = t + r.bookedActive cooling + r.bookedCooling cooling false ∧
      w.state.stakeSystem.delayedUnstakeCoolingDown ≤ r.bookedCooling cooling false := by
  have hsum := h.attributed.sum_eq
  have hle := h.attributed.delayed_le
  rw [h.total_eq_of_last hr hlast _ fun r ↦ StakeRecord.bookedActive_of_known,
    h.total_eq_of_last hr hlast _ fun r ↦ StakeRecord.bookedCooling_of_known,
    ← h.visits.total_eq] at hsum
  rw [h.total_eq_of_last hr hlast _ fun r ↦ StakeRecord.bookedCooling_of_known] at hle
  exact ⟨hsum, hle⟩

/-- What is charged to the active total for a record that was not visited is there, and if it was
the last such record, what is left are the visited ones. -/
theorem charged (h : w.Consistent rt cooling n t k)
    (hr : w.state.stakeSystem.records[i]? = some r) (hunknown : r.lastUpdateStatus = .unknown) :
    r.lastUpdateDelegatedLamports - w.state.coolingDown r.isEmergencyUnstaking
        ≤ w.state.validatorSystem.totalActiveBalance ∧
      (n + 1 = w.state.stakeSystem.records.length →
        t + (r.lastUpdateDelegatedLamports - w.state.coolingDown r.isEmergencyUnstaking)
          = w.state.validatorSystem.totalActiveBalance) := by
  have hmem := List.mem_of_getElem? hr
  have hsum := h.attributed.sum_eq
  have htotal := h.visits.total_eq
  have hlast : n + 1 = w.state.stakeSystem.records.length → _ := fun hn ↦
    h.sum_eq_of_last hr (by rw [StakeRecord.visits, if_pos hunknown]; exact hn)
  cases hem : r.isEmergencyUnstaking with
  | true =>
    -- a flagged record is one of those the total consists of
    have hc := (h.attributed.emergency r hmem hem).2
    have hbooked : r.bookedCooling cooling true = r.lastUpdateDelegatedLamports :=
      if_pos ⟨hunknown, hc, hem⟩
    have hnone : r.bookedCooling cooling false = 0 := if_neg (by simp [hem])
    have hnotBooked : r.bookedActive cooling = 0 := if_neg (by simp [hc])
    have hle := le_total (g := (·.bookedCooling cooling true)) hmem
    have hall := h.attributed.emergency_eq
    simp only [State.coolingDown, if_true]
    refine ⟨by omega, fun hn ↦ ?_⟩
    obtain ⟨hsum, hdelayed⟩ := hlast hn
    omega
  | false =>
    have hparts := StakeRecord.counted_add_booked cooling hem
    have hactive := le_total (g := (·.bookedActive cooling)) hmem
    have hcooling := le_total (g := (·.bookedCooling cooling false)) hmem
    rw [UpdateActive.counted, if_pos hunknown] at hparts
    simp only [State.coolingDown, Bool.false_eq_true, if_false]
    refine ⟨by omega, fun hn ↦ ?_⟩
    obtain ⟨hsum, hdelayed⟩ := hlast hn
    omega

end World.Consistent

/-! ## The three instructions -/

@[local simp] private theorem upgradeFailure_iff {e : Error} : e.UpgradeFailure ↔
    e = .marinade .upgradingInvariantViolation ∨ e = .underflow .totalActiveBalance := by
  cases e <;> simp [Error.UpgradeFailure]

/-- A deposit compares nothing. -/
theorem DepositStakeAccount.process_holds {accounts : DepositStakeAccount} :
    Avoids Error.UpgradeFailure (accounts.process j w) := by
  simp [process, cleanLockup]

namespace UpdateActive

variable {accounts : UpdateCommon}

theorem process_holds (h : w.Consistent rt cooling n t k) :
    Avoids Error.UpgradeFailure (process rt accounts i j w) := by
  refine .bind (by simp) fun _ _ ↦ .bind (by simp) fun _ hphase ↦ .bind (by simp) fun _ _ ↦
    .bind (by simp) fun b hbegin ↦ .bind (by simp) fun _ hactive ↦ .bind (by simp) fun _ hstatus ↦
    .bind ?_ fun upgraded hupgrade ↦ .bind (by simp) fun _ hrent ↦
    .bind (by simp) fun w₁ hcollect ↦ ?_
  -- the account is active, so its record was not booked as cooling down
  all_goals
    have hphase' : w.realigned.delinquentUpgrader.isIteratingValidators = false :=
      Bool.not_eq_true' _ ▸ ensure_eq_ok.mp hphase
    have hbegun := UpdateCommon.begin_spec hbegin
    have hmem := List.mem_of_getElem? hbegun.record
    have hnot := hbegun.deactivated_iff.not.mpr (not_not.mpr (ensure_eq_ok.mp hactive))
    obtain ⟨hem, hcooling⟩ := h.attributed.not_cooling hmem hnot
    have hparts := StakeRecord.counted_add_booked cooling hem
    have hu : w.realigned.delinquentUpgrader = .iteratingStakes n t k := h.upgrader_eq
  · refine delinquentUpgrade_avoids (by simp) fun _ hunknown ↦ ⟨n, t, k, hu, ?_⟩
    rw [UpdateActive.counted, if_pos hunknown, hcooling, Nat.zero_add, Nat.add_zero] at hparts
    have ht := h.counted_add_le hmem
    have hv := h.upgrader_add_le hmem (List.mem_of_getElem? hbegun.validator) hbegun.voterOf_eq
    rw [hparts] at ht hv
    exact ⟨ht, hv⟩
  · have hlast := h.last_le hmem hnot
    obtain ⟨r, v, s⟩ := upgraded
    obtain ⟨rfl, up, u, rfl, rfl, hvisited⟩ :=
      delinquentUpgrade_spec hupgrade (ensure_eq_ok.mp hstatus) hphase'
    have hfunded := h.wellFormed.stakes_sound.funded _ _ _ hbegun.account_eq
      hbegun.delegation_eq
    obtain ⟨-, rfl⟩ := checkedSub_eq_ok.mp hrent
    obtain ⟨_, _, l, -, -, -, -, -, rfl⟩ := collectExtra_spec hcollect hbegun.account_eq
      (show _ < w.lamportsOf accounts.stakeAccount by omega)
    refine .bind (bookDelegation_avoids (.inr (by simp)) (by simp) (by simp) (by simp)
      fun _ ↦ hlast) fun booked hbook ↦ ?_
    obtain ⟨v', w₂⟩ := booked
    obtain ⟨_, _, _, u', _, total, -, -, -, hrebooked, -, htotal, -, rfl⟩ :=
      bookDelegation_spec hbook
    have hcounts := hvisited.rebooked hrebooked
    rw [hu] at hcounts
    obtain ⟨t', rfl, ht', -⟩ := hcounts
    refine finish_avoids (by simp) (by simp) (by simp) (by simp) (.inr (by simp)) ?_
    rintro - _ _ _ ⟨⟩ hn
    have hvisits : b.stake.visits + (if b.stake.lastUpdateStatus = .unknown then 1 else 0) = 1 := by
      unfold StakeRecord.visits
      split <;> rfl
    -- every other record is counted, so only this one is between the two totals
    obtain ⟨hsum, hdelayed⟩ := h.sum_eq_of_last hbegun.record (by
      change n + _ = w.state.stakeSystem.records.length at hn
      omega)
    have hnone := hcooling false
    have hactive : total + b.stake.lastUpdateDelegatedLamports
        = w.state.validatorSystem.totalActiveBalance + b.delegation.stake := htotal
    clear htotal
    change t' = total
    omega

end UpdateActive

namespace UpdateDeactivated

variable {accounts : UpdateDeactivated}

theorem process_holds (h : w.Consistent rt cooling n t k) :
    Avoids Error.UpgradeFailure (process rt accounts i j w) := by
  refine .bind (by simp) fun _ _ ↦ .bind (by simp) fun _ _ ↦ .bind (by simp) fun _ _ ↦
    .bind (by simp) fun b hbegin ↦ .bind (by simp) fun _ hdeactivated ↦ ?_
  have hbegun := UpdateCommon.begin_spec hbegin
  have hmem := List.mem_of_getElem? hbegun.record
  have hunknown : b.stake.lastUpdateStatus = .unknown := by
    by_contra hknown
    exact h.attributed.visited _ hmem hknown
      (hbegun.deactivated_iff.mpr (ensure_eq_ok.mp hdeactivated))
  have hdetectEq : ∀ v, detectDelinquent j b.stake v w.realigned = .ok (b.stake, w.realigned) :=
    fun v ↦ if_neg (by simp [hunknown])
  refine .bind (by rw [hdetectEq]; exact Avoids.ok_iff) fun detected hdetect ↦
    .bind (by simp) fun _ hrent ↦ .bind (by simp) fun w₁ hmint ↦
    .bind (close_avoids (by simp) (by simp)) fun w₂ hclose ↦ ?_
  rw [hdetectEq] at hdetect
  cases hdetect
  obtain ⟨_, _, -, -, -, rfl⟩ := UpdateCommon.mintProtocolFeesIf_spec hmint
  have hfunded := h.wellFormed.stakes_sound.funded _ _ _ hbegun.account_eq hbegun.delegation_eq
  obtain ⟨_, -, -, rfl⟩ := close_spec hclose hbegun.account_eq
    (show 0 < w.lamportsOf accounts.stakeAccount by omega) (checkedSub_eq_ok.mp hrent).1
  obtain ⟨hle, hlast⟩ := h.charged hbegun.record hunknown
  have hu : w.realigned.delinquentUpgrader = .iteratingStakes n t k := h.upgrader_eq
  refine .bind (bookOutSome_avoids ?_ ?_) fun s₂ hbook ↦ ?_
  · intro hphase
    change w.realigned.delinquentUpgrader.isIteratingStakes = false at hphase
    rw [hu] at hphase
    cases hphase
  · -- the excess over what is cooling down is charged to the active total
    exact fun _ ↦ ⟨by simp, fun _ ↦ hle⟩
  · obtain ⟨delinquent, hbooked⟩ := bookOutSome_spec hbook
    have hu₂ : s₂.delinquentUpgrader = .iteratingStakes n t (k + delinquent) := by
      have hphase := hbooked.phase_eq
      rw [hu] at hphase
      exact hphase
    have hrecords : s₂.stakeSystem.records = w.state.stakeSystem.records := by
      rw [hbooked.state_eq]
      rfl
    have hdelinquent := hbooked.delinquent_eq
    rw [hu] at hdelinquent
    change delinquent = b.stake.lastUpdateDelegatedLamports
      - w.state.coolingDown b.stake.isEmergencyUnstaking at hdelinquent
    have htotal : s₂.validatorSystem.totalActiveBalance + delinquent
      = w.state.validatorSystem.totalActiveBalance := hbooked.total_eq
    refine finish_avoids (by simp) (by simp) (by simp) fun _ n' t' k' hu' hn ↦ ?_
    cases hu₂.symm.trans hu'
    have hlength := length_swapRemove hbegun.record
    simp only [hrecords] at hn
    have hcharged := hlast (by omega)
    change t = s₂.validatorSystem.totalActiveBalance
    omega

end UpdateDeactivated

end

end Marinade
