import Marinade.Invariants.Booked
import Marinade.Replay

/-!
# The stake list

The list is about different accounts, all of them under the program's authorities. Three
instructions remove a record, each together with the account it is about: the update of a
deactivated account closes it, a merge empties the source, and the creation of the canonical account
empties the source too, but lists another account instead. Removing moves the last record to where
the removed one was, so the list afterwards is stated up to its order.
-/

open List Foundation Foundation.Ledger

namespace Marinade

section

variable {rt : Runtime} {w w' : World} {i i' j : ℕ} {e : Event}

/-! ## Removing a record -/

/-- Closing an account removes its record. -/
theorem UpdateDeactivated.exec_records {accounts : UpdateDeactivated} (hs : w.StakesSound rt)
    (he : exec rt w (.updateDeactivated accounts i j) = .ok (w', e)) :
    w.stakes accounts.stakeAccount ≠ none ∧ w'.stakes accounts.stakeAccount = none ∧
    ∃ r, r.stakeAccount = accounts.stakeAccount ∧
      w.state.stakeSystem.records ~ r :: w'.state.stakeSystem.records := by
  obtain ⟨account, d, r, r', v, s₁, s₂, fee, delinquent, h⟩ :=
    process_spec (silently_eq_ok he) (hs.funded _)
  refine ⟨by simp [h.account_eq], by rw [h.stakes_eq, Function.update_self], r, h.record_key, ?_⟩
  rw [h.records_eq]
  exact (cons_eraseIdx_perm h.record).symm.trans ((swapRemove_perm h.record).symm.cons r)

/-- A merge removes the record of the source and overwrites that of the destination. -/
theorem MergeStakes.exec_records {accounts : MergeStakes} (hs : w.StakesSound rt)
    (he : exec rt w (.mergeStakes accounts i i' j) = .ok (w', e)) :
    w.stakes accounts.sourceStake ≠ none ∧ w'.stakes accounts.sourceStake = none ∧
    ∃ r r' sr rest, sr.stakeAccount = accounts.sourceStake ∧
      r.stakeAccount = accounts.destinationStake ∧ r'.stakeAccount = accounts.destinationStake ∧
      w.state.stakeSystem.records ~ sr :: r :: rest ∧
      w'.state.stakeSystem.records ~ r' :: rest := by
  obtain ⟨event, hp, -⟩ := reporting_eq_ok he
  obtain ⟨account, srcAccount, d, sd, r, sr, v, h, -⟩ := process_spec hp (hs.funded _)
  obtain ⟨rest, hreplaced⟩ := Replaced.set_swapRemove h.record h.source_record h.index_ne
    { r with lastUpdateDelegatedLamports := d.stake + sd.stake + event.extraDelegated }
  refine ⟨by simp [h.source_eq], ?_, r, { r with
      lastUpdateDelegatedLamports := d.stake + sd.stake + event.extraDelegated },
    sr, rest, h.source_key, h.record_key, h.record_key, ?_, ?_⟩
  · rw [h.stakes_eq, Function.update_of_ne h.ne.symm, Function.update_self]
  · exact hreplaced.perm.trans (Perm.swap sr r rest)
  · rw [h.records_eq]
    exact hreplaced.perm'

/-- The creation of the canonical account replaces the record of the source. -/
theorem CreateCanonicalStake.exec_records {accounts : CreateCanonicalStake}
    (he : exec rt w (.createCanonicalStake accounts i j) = .ok (w', e)) :
    w.stakes accounts.sourceStake ≠ none ∧ w'.stakes accounts.sourceStake = none ∧
    ∃ r r' rest, r.stakeAccount = accounts.sourceStake ∧
      r'.stakeAccount = accounts.canonicalStake ∧
      w.state.stakeSystem.records ~ r :: rest ∧ w'.state.stakeSystem.records ~ r' :: rest := by
  obtain ⟨account, d, r, v, swept, h⟩ := process_spec (silently_eq_ok he)
  have hne : accounts.sourceStake ≠ accounts.canonicalStake := by
    intro heq
    have habsent := h.absent
    rw [← heq, h.account_eq] at habsent
    cases habsent
  have hreplaced := Replaced.append_swapRemove h.record
    (.new accounts.canonicalStake d.stake w.clock false true)
  refine ⟨by simp [h.account_eq], ?_, r,
    .new accounts.canonicalStake d.stake w.clock false true, _, h.record_key, rfl,
    hreplaced.perm, ?_⟩
  · rw [h.stakes_eq, Function.update_of_ne hne, Function.update_self]
  · rw [h.records_eq]
    exact hreplaced.perm'

/-! ## Every reachable state -/

/-- In every reachable state the records name different stake accounts under the program's
authorities, and an instruction that removes a record removes the one of the account it emptied. -/
theorem records_of_reachable (h : (marinade rt).Reachable w) :
    KeysDistinct (·.stakeAccount) w.state.stakeSystem.records ∧
    (∀ r ∈ w.state.stakeSystem.records, w.Managed r.stakeAccount) ∧
    (∀ accounts i j w' e, exec rt w (.updateDeactivated accounts i j) = .ok (w', e) →
      w.stakes accounts.stakeAccount ≠ none ∧ w'.stakes accounts.stakeAccount = none ∧
      ∃ r, r.stakeAccount = accounts.stakeAccount ∧
        w.state.stakeSystem.records ~ r :: w'.state.stakeSystem.records) ∧
    (∀ accounts i i' j w' e, exec rt w (.mergeStakes accounts i i' j) = .ok (w', e) →
      w.stakes accounts.sourceStake ≠ none ∧ w'.stakes accounts.sourceStake = none ∧
      ∃ r r' sr rest, sr.stakeAccount = accounts.sourceStake ∧
        r.stakeAccount = accounts.destinationStake ∧
        r'.stakeAccount = accounts.destinationStake ∧
        w.state.stakeSystem.records ~ sr :: r :: rest ∧
        w'.state.stakeSystem.records ~ r' :: rest) ∧
    ∀ accounts i j w' e, exec rt w (.createCanonicalStake accounts i j) = .ok (w', e) →
      w.stakes accounts.sourceStake ≠ none ∧ w'.stakes accounts.sourceStake = none ∧
      ∃ r r' rest, r.stakeAccount = accounts.sourceStake ∧
        r'.stakeAccount = accounts.canonicalStake ∧
        w.state.stakeSystem.records ~ r :: rest ∧ w'.state.stakeSystem.records ~ r' :: rest := by
  have hs := (wellFormed_of_reachable h).stakes_sound
  have hb := (booked_of_reachable h).toRecorded
  refine ⟨hb.distinct, fun r hr ↦ (hb.listed r hr).managed, ?_, ?_, ?_⟩
  · intro accounts i j w' e he
    exact UpdateDeactivated.exec_records hs he
  · intro accounts i i' j w' e he
    exact MergeStakes.exec_records hs he
  · intro accounts i j w' e he
    exact CreateCanonicalStake.exec_records he

end

/-- The sample pool lists one account. -/
theorem records_sample :
    KeysDistinct (·.stakeAccount) Sample.staked.2.state.stakeSystem.records ∧
    ∀ r ∈ Sample.staked.2.state.stakeSystem.records, Sample.staked.2.Managed r.stakeAccount := by
  obtain ⟨hdistinct, hmanaged, -⟩ := records_of_reachable Sample.staked_reachable
  exact ⟨hdistinct, hmanaged⟩

end Marinade
