import Marinade.Invariants.Booked

/-!
# The registry of validators

Three things say which validators there are: the list, one flag account for each vote address, and
the total of the scores. Only the manager's three instructions change what they say; all the others
write a record back with other balances. So the flags are exactly those of the listed validators,
and the total is the sum of the listed scores.
-/

open Foundation Foundation.Ledger

namespace Marinade

/-- What the registry knows of a validator, whatever is staked there. -/
def ValidatorRecord.entry (v : ValidatorRecord) : Pubkey × ℕ :=
  (v.validatorAccount, v.score)

/-- The list, the flags and the total of the scores agree. -/
structure Registry (w : World) : Prop extends Registered w where
  listed : ∀ vote, w.flags vote = true →
    ∃ v ∈ w.state.validatorSystem.records, v.validatorAccount = vote
  score_eq : w.state.validatorSystem.totalValidatorScore
    = total (·.score) w.state.validatorSystem.records

section

variable {rt : Runtime} {w w' : World} {i : Instruction} {e : Event} {l : Label} {vote : Pubkey}
  {v : ValidatorRecord} {index score topUp : ℕ}

/-- A flag exists exactly for the validators in the list. -/
theorem Registry.flag_iff (h : Registry w) : w.flags vote = true ↔
    ∃ v ∈ w.state.validatorSystem.records, v.validatorAccount = vote := by
  constructor
  · exact h.listed vote
  · rintro ⟨v, hv, rfl⟩
    exact h.flagged v hv

/-! ## Instructions that only change balances -/

/-- The list has the same validators. -/
private theorem Registry.listed_of_keys_eq (h : Registry w) (hflags : w'.flags = w.flags)
    (hkeys : w'.state.validatorSystem.records.map (·.validatorAccount)
      = w.state.validatorSystem.records.map (·.validatorAccount)) (hvote : w'.flags vote = true) :
    ∃ v ∈ w'.state.validatorSystem.records, v.validatorAccount = vote := by
  rw [hflags] at hvote
  obtain ⟨v, hv, hkey⟩ := h.listed vote hvote
  have hmem := List.mem_map_of_mem (f := (·.validatorAccount)) hv
  rw [← hkeys] at hmem
  obtain ⟨v', hv', hkey'⟩ := List.mem_map.mp hmem
  exact ⟨v', hv', hkey'.trans hkey⟩

/-- The list has the same entries. -/
private theorem Registry.of_entries_eq (h : Registry w) (hflags : w'.flags = w.flags)
    (hscore : w'.state.validatorSystem.totalValidatorScore
      = w.state.validatorSystem.totalValidatorScore)
    (hentries : w'.state.validatorSystem.records.map (·.entry)
      = w.state.validatorSystem.records.map (·.entry)) : Registry w' := by
  have hkeys : w'.state.validatorSystem.records.map (·.validatorAccount)
      = w.state.validatorSystem.records.map (·.validatorAccount) := by
    have hfst := congrArg (List.map Prod.fst) hentries
    rwa [List.map_map, List.map_map] at hfst
  have hscores : w'.state.validatorSystem.records.map (·.score)
      = w.state.validatorSystem.records.map (·.score) := by
    have hsnd := congrArg (List.map Prod.snd) hentries
    rwa [List.map_map, List.map_map] at hsnd
  refine ⟨h.toRegistered.of_map_eq hflags hkeys, ?_, ?_⟩
  · intro vote hvote
    exact h.listed_of_keys_eq hflags hkeys hvote
  · rw [hscore, h.score_eq, Foundation.total, Foundation.total, hscores]

/-! ## The manager's instructions -/

theorem AddValidator.Spec.registry {accounts}
    (h : AddValidator.Spec accounts score w w' topUp) (hr : Registry w) : Registry w' := by
  refine ⟨h.registered hr.toRegistered, ?_, ?_⟩
  · intro vote hvote
    rw [h.validators_eq]
    by_cases heq : vote = accounts.validatorVote
    · exact ⟨_, List.mem_append_right _ (List.mem_singleton_self _), heq.symm⟩
    · rw [h.flags_eq, Function.update_of_ne heq] at hvote
      obtain ⟨v, hv, hkey⟩ := hr.listed vote hvote
      exact ⟨v, List.mem_append_left _ hv, hkey⟩
  · rw [h.score_eq, hr.score_eq, h.validators_eq, total_append, total_cons, total_nil,
      Nat.add_zero]

theorem RemoveValidator.Spec.registry {accounts}
    (h : RemoveValidator.Spec accounts index vote w w' v) (hr : Registry w) : Registry w' := by
  refine ⟨h.registered hr.toRegistered, ?_, ?_⟩
  · intro vote' hvote
    have hne : vote' ≠ vote := by
      rintro rfl
      rw [h.flags_eq, Function.update_self] at hvote
      cases hvote
    rw [h.flags_eq, Function.update_of_ne hne] at hvote
    obtain ⟨v', hv', hkey⟩ := hr.listed vote' hvote
    refine ⟨v', ?_, hkey⟩
    -- the record of another validator stays
    rw [h.validators_eq, (swapRemove_perm h.validator).mem_iff]
    rcases List.mem_cons.mp ((cons_eraseIdx_perm h.validator).mem_iff.mpr hv') with rfl | hmem
    · exact absurd (hkey.symm.trans h.validator_key) hne
    · exact hmem
  · have hremoved := total_swapRemove (g := (·.score)) h.validator
    have hold := hr.score_eq
    have hscore := h.score_eq
    rw [h.validators_eq]
    omega

theorem SetValidatorScore.Spec.registry (h : SetValidatorScore.Spec index score w w' v)
    (hr : Registry w) : Registry w' := by
  have hkeys : w'.state.validatorSystem.records.map (·.validatorAccount)
      = w.state.validatorSystem.records.map (·.validatorAccount) := by
    rw [h.validators_eq, map_key_set h.validator (by rfl)]
  have hflags : w'.flags = w.flags := by rw [h.frame]
  refine ⟨hr.toRegistered.of_map_eq hflags hkeys, ?_, ?_⟩
  · intro vote hvote
    exact hr.listed_of_keys_eq hflags hkeys hvote
  · have hset := total_set (g := (·.score)) h.validator { v with score }
    have hold := hr.score_eq
    have hscore := h.score_eq
    rw [h.validators_eq]
    simp only at hset
    omega

/-! ## Every step -/

theorem Executed.registry (h : Executed rt w w' i e) (hr : Registry w) : Registry w' := by
  cases h with
  | addValidator h => exact h.registry hr
  | removeValidator h => exact h.registry hr
  | setValidatorScore h => exact h.registry hr
  | depositStakeAccount h =>
    refine hr.of_entries_eq (by rw [h.frame]) (by rw [h.state_eq]) ?_
    rw [h.validators_eq, map_key_set h.validator]
    rw [DepositStakeAccount.maintainUpgrader_validator h.upgrade]
    rfl
  | withdrawStakeAccount h =>
    exact hr.of_entries_eq (by rw [h.frame]) (by rw [h.state_eq])
      (by rw [h.validators_eq, map_key_set h.validator (by rfl)])
  | stakeReserve h =>
    obtain ⟨_, hstate⟩ := h.state_eq
    exact hr.of_entries_eq (by rw [h.frame]) (by rw [hstate])
      (by rw [h.validators_eq, map_key_set h.validator (by rfl)])
  | unstakedWhole h =>
    have hset := h.validators_eq
    obtain ⟨_, _, _, hstate⟩ := h.state_eq
    exact hr.of_entries_eq (by rw [h.frame]) (by rw [hstate])
      (by rw [hset, map_key_set h.validator (by rfl)])
  | unstakedSplit h =>
    have hset := h.validators_eq
    obtain ⟨_, _, _, hstate⟩ := h.state_eq
    exact hr.of_entries_eq (by rw [h.frame]) (by rw [hstate])
      (by rw [hset, map_key_set h.validator (by rfl)])
  | mergeStakes h =>
    exact hr.of_entries_eq (by rw [h.frame]) (by rw [h.state_eq])
      (by rw [h.validators_eq, map_key_set h.validator (by rfl)])
  | updateActive h =>
    obtain ⟨_, hstate⟩ := h.state_eq
    refine hr.of_entries_eq (by rw [h.frame]) (by rw [hstate]) ?_
    rw [h.validators_eq, map_key_set h.validator]
    rw [h.validator_eq]
    rfl
  | updateDeactivated h =>
    obtain ⟨_, hstate⟩ := h.state_eq
    refine hr.of_entries_eq (by rw [h.frame]) ?_ ?_
    · rw [hstate, h.booked_out.state_eq, h.detected.state_eq]
      rfl
    · rw [h.validators_eq]
      split
      · exact map_key_set h.validator (by rfl)
      · rfl
  | finalizeDelinquentUpgrade h hframe =>
    obtain ⟨-, _, _, _, _, _, -, hiter, hs⟩ := FinalizeDelinquentUpgrade.process_spec h
    have hentries := iterate_map_eq ValidatorRecord.entry (fun _ _ _ ↦ rfl) hiter
    have hvs := FinalizeDelinquentUpgrade.iterate_frame hiter
    rcases hs with ⟨-, -, hs⟩ | ⟨-, hs⟩
    · exact hr.of_entries_eq (by rw [hframe]) (by rw [hs, hvs]) (by rw [hs]; exact hentries)
    · exact hr.of_entries_eq (by rw [hframe]) (by rw [hs, hvs]) (by rw [hs]; exact hentries)
  | config _ books hframe =>
    exact hr.of_entries_eq (by rw [hframe]) books.score_eq (by rw [books.validators_eq])
  | realloc _ _ _ _ h =>
    exact hr.of_entries_eq (by rw [h.frame]) h.books.score_eq (by rw [h.books.validators_eq])
  | notStaked h =>
    obtain ⟨_, hstate⟩ := h.state_eq
    exact hr.of_entries_eq (by rw [h.frame]) (by rw [hstate]) (by rw [hstate])
  | _ h => exact hr.of_entries_eq (by rw [h.frame]) (by rw [h.state_eq]) (by rw [h.state_eq])

theorem Registry.step (h : Registry w) (hw : WellFormed rt w) (hs : Step rt w l w') :
    Registry w' := by
  cases l with
  | instruction i e => exact (executed_of_exec hs hw.stakes_sound).registry h
  | external x =>
    exact h.of_entries_eq (External.flags_eq hs.1) (by rw [hs.2]) (by rw [hs.2])

theorem Fresh.registry (h : Fresh rt w) : Registry w := by
  have hregistered := registered_of_reachable (.init h)
  obtain ⟨accounts, data, c, hc, hp⟩ := h
  have hs := Initialize.process_spec hp
  refine ⟨hregistered, ?_, ?_⟩
  · intro vote hvote
    rw [hs.chain_eq, hc.flags_eq] at hvote
    cases hvote
  · rw [hs.validators_eq, total_nil]
    exact hs.score_eq

/-- In every reachable state the list, the flags and the scores agree. -/
theorem registry_of_reachable (h : (marinade rt).Reachable w) : Registry w := by
  refine h.induct_of (Q := WellFormed rt) ?_ ?_ ?_
  · intro w hr
    exact wellFormed_of_reachable hr
  · intro w hi _
    exact hi.registry
  · intro w l w' hw _ hr hs
    exact hr.step hw hs

end

end Marinade
