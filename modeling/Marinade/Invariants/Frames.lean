import Marinade.Invariants.Booked
import Marinade.Invariants.Bounds

/-!
# What an instruction leaves alone

Besides the books there is much that most instructions do not touch: the stake list, the epochs in
which the stake delta was at a validator, the count of the stake moved out of turn, what the admin
and the managers have decided. Which instruction touches which of them is said here once, from the
effects of all instructions. While the program is paused only those that set a configuration run.
-/

open Foundation

namespace Marinade

/-- A validator and the epoch in which the delta was last here. -/
def ValidatorRecord.visit (v : ValidatorRecord) : Pubkey × ℕ :=
  (v.validatorAccount, v.lastStakeDeltaEpoch)

/-- The visits of all validators. -/
def State.visits (s : State) : List (Pubkey × ℕ) :=
  s.validatorSystem.records.map (·.visit)

namespace Instruction

/-- The instructions that change the stake list. -/
def turnsOver : Instruction → Bool
  | .stakeReserve .. | .depositStakeAccount .. | .withdrawStakeAccount .. | .deactivateStake ..
  | .emergencyUnstake .. | .partialUnstake .. | .mergeStakes .. | .createCanonicalStake ..
  | .updateActive .. | .updateDeactivated .. => true
  | _ => false

/-- The instructions that change the list of visits. -/
def visits : Instruction → Bool
  | .addValidator .. | .removeValidator .. | .stakeReserve .. | .deactivateStake .. => true
  | _ => false

/-- The instructions that move stake under the cap. -/
def movesStake : Instruction → Bool
  | .emergencyUnstake .. => true
  | .partialUnstake .. => true
  | _ => false

/-- What an instruction leaves as it is, by its kind. -/
structure Frame (i : Instruction) (w w' : World) : Prop where
  records_eq : i.turnsOver = false → w'.state.stakeSystem.records = w.state.stakeSystem.records
  visits_eq : i.visits = false → w'.state.visits = w.state.visits
  moves : i.movesStake = false → w.state.SameMoves w'.state
  undecided : i.configures = false → Bounds w → w.state.Undecided w'.state
  not_paused : i.configures = false → w.state.paused = false

end Instruction

section

variable {rt : Runtime} {w w' : World} {s s' : State} {i : Instruction} {e : Event}
  {n j : ℕ} {v : ValidatorRecord} {emergency : Bool}

theorem State.visits_set {v' : ValidatorRecord} (hv : s.validatorSystem.records[j]? = some v)
    (hset : s'.validatorSystem.records = s.validatorSystem.records.set j v')
    (hvisit : v'.visit = v.visit) : s'.visits = s.visits := by
  rw [visits, hset, map_key_set hv hvisit, visits]

/-- No mSOL are ever found that were not minted here, so the cap stays. -/
theorem Bounds.realigned_configuration (hb : Bounds w) :
    w.realigned.configuration = w.state.configuration := by
  have hcap : w.realigned.stakingSolCap = w.state.stakingSolCap :=
    if_neg (Nat.not_lt.mpr hb.supply_le)
  simp only [State.configuration, hcap]
  rfl

theorem Bounds.undecided_of_realigned (hb : Bounds w) (h : w.realigned.Undecided s) :
    w.state.Undecided s :=
  ⟨h.configuration_eq.trans hb.realigned_configuration, h.paused_eq, h.runs_le⟩

/-- Unstaking configures nothing, and only some of it is outside an emergency. -/
theorem Instruction.of_unstakes (h : i.unstakes = some emergency) :
    i.configures = false ∧ i.turnsOver = true ∧ i.visits = !emergency ∧
      i.movesStake = emergency := by
  cases i with
  | deactivateStake | emergencyUnstake | partialUnstake =>
    obtain rfl := Option.some.inj h
    exact ⟨rfl, rfl, rfl, rfl⟩
  | _ => cases h

theorem Unstaked.undecided {k account d r x epoch}
    (h : Unstaked emergency k n j w w' account d r v x epoch) : w.state.Undecided w'.state := by
  obtain ⟨_, _, _, hstate⟩ := h.state_eq
  rw [hstate]
  exact ⟨rfl, rfl, le_rfl⟩

namespace Instruction.Frame

/-- An instruction that writes something else. -/
theorem of_same (hpaused : w.state.paused = false)
    (hrecords : w'.state.stakeSystem.records = w.state.stakeSystem.records)
    (hvisits : w'.state.visits = w.state.visits) (hmoves : w.state.SameMoves w'.state)
    (hkept : w.state.Undecided w'.state) : i.Frame w w' :=
  ⟨fun _ ↦ hrecords, fun _ ↦ hvisits, fun _ ↦ hmoves, fun _ _ ↦ hkept, fun _ ↦ hpaused⟩

/-- An instruction that sets a configuration. -/
theorem of_reconfigured {extraRuns : Option ℕ} {pause : Option Bool} (hi : i.configures = true)
    (h : w.state.Reconfigured extraRuns pause w'.state) : i.Frame w w' where
  records_eq _ := h.records_eq
  visits_eq _ := by rw [State.visits, State.visits, h.validators_eq]
  moves _ := h.moves
  undecided hno := absurd (hi.symm.trans hno) (by decide)
  not_paused hno := absurd (hi.symm.trans hno) (by decide)

end Instruction.Frame

/-- What every successful instruction leaves alone. -/
theorem Executed.leaves (h : Executed rt w w' i e) : i.Frame w w' := by
  cases h with
  | deposit h | orderUnstake h | claim h | liquidUnstake h | addLiquidity h | removeLiquidity h =>
    refine .of_same h.not_paused ?_ ?_ ?_ ?_
    · rw [h.state_eq]
    · simp only [State.visits, h.state_eq]
    · rw [h.state_eq]
      exact .refl
    · rw [h.state_eq]
      exact ⟨rfl, rfl, le_rfl⟩
  | depositStakeAccount h =>
    exact {
      records_eq := fun hi ↦ nomatch hi
      visits_eq := fun _ ↦ State.visits_set h.validator h.validators_eq
        (by rw [DepositStakeAccount.maintainUpgrader_validator h.upgrade]; rfl)
      moves := fun _ ↦ by rw [h.state_eq]; exact .refl
      undecided := fun _ _ ↦ by rw [h.state_eq]; exact ⟨rfl, rfl, le_rfl⟩
      not_paused := fun _ ↦ h.not_paused }
  | withdrawStakeAccount h | mergeStakes h =>
    exact {
      records_eq := fun hi ↦ nomatch hi
      visits_eq := fun _ ↦ State.visits_set h.validator h.validators_eq rfl
      moves := fun _ ↦ by rw [h.state_eq]; exact .refl
      undecided := fun _ _ ↦ by rw [h.state_eq]; exact ⟨rfl, rfl, le_rfl⟩
      not_paused := fun _ ↦ h.not_paused }
  | createCanonicalStake h =>
    exact {
      records_eq := fun hi ↦ nomatch hi
      visits_eq := fun _ ↦ by rw [h.state_eq]; rfl
      moves := fun _ ↦ by rw [h.state_eq]; exact .refl
      undecided := fun _ _ ↦ by rw [h.state_eq]; exact ⟨rfl, rfl, le_rfl⟩
      not_paused := fun _ ↦ h.not_paused }
  | notStaked h =>
    obtain ⟨_, hstate⟩ := h.state_eq
    have hruns := h.runs_le
    exact {
      records_eq := fun hi ↦ nomatch hi
      visits_eq := fun hi ↦ nomatch hi
      moves := fun _ ↦ by rw [hstate]; exact .refl
      undecided := fun _ _ ↦ ⟨by rw [hstate]; rfl, by rw [hstate], hruns⟩
      not_paused := fun _ ↦ h.not_paused }
  | stakeReserve h =>
    obtain ⟨_, hstate⟩ := h.state_eq
    have hruns := h.runs_eq
    exact {
      records_eq := fun hi ↦ nomatch hi
      visits_eq := fun hi ↦ nomatch hi
      moves := fun _ ↦ by rw [hstate]; exact .refl
      undecided := fun _ _ ↦ ⟨by rw [hstate]; rfl, by rw [hstate], by omega⟩
      not_paused := fun _ ↦ h.not_paused }
  | notUnstaked h =>
    refine .of_same h.not_paused ?_ ?_ ?_ ?_
    all_goals rw [h.state_eq]
    · exact .refl
    · exact ⟨rfl, rfl, le_rfl⟩
  | unstakedWhole h hins =>
    obtain ⟨-, hturns, hvisits, hmoves⟩ := Instruction.of_unstakes hins
    exact {
      records_eq := fun hi ↦ absurd (hturns.symm.trans hi) (by decide)
      visits_eq := fun _ ↦ State.visits_set h.validator h.validators_eq rfl
      moves := fun hi ↦ h.same_moves (hmoves.symm.trans hi)
      undecided := fun _ _ ↦ h.undecided
      not_paused := fun _ ↦ h.not_paused }
  | unstakedSplit h hins =>
    obtain ⟨-, hturns, hvisits, hmoves⟩ := Instruction.of_unstakes hins
    exact {
      records_eq := fun hi ↦ absurd (hturns.symm.trans hi) (by decide)
      -- only the stake delta notes that it was there
      visits_eq := fun hi ↦ State.visits_set h.validator h.validators_eq
        (by rw [if_pos (by simpa using hvisits.symm.trans hi)]; rfl)
      moves := fun hi ↦ h.same_moves (hmoves.symm.trans hi)
      undecided := fun _ _ ↦ h.undecided
      not_paused := fun _ ↦ h.not_paused }
  | updateActive h =>
    obtain ⟨_, hstate⟩ := h.state_eq
    exact {
      records_eq := fun hi ↦ nomatch hi
      visits_eq := fun _ ↦ State.visits_set h.validator h.validators_eq
        (by rw [h.validator_eq]; rfl)
      moves := fun _ ↦ by rw [hstate]; exact .refl
      undecided := fun _ hb ↦ hb.undecided_of_realigned
        (by rw [hstate]; exact ⟨rfl, rfl, le_rfl⟩)
      not_paused := fun _ ↦ h.not_paused }
  | updateDeactivated h =>
    obtain ⟨_, hstate⟩ := h.state_eq
    have hvalidators := h.validators_eq
    rw [h.booked_out.state_eq, h.detected.state_eq] at hstate
    exact {
      records_eq := fun hi ↦ nomatch hi
      visits_eq := fun _ ↦ by
        split at hvalidators
        · exact State.visits_set h.validator hvalidators rfl
        · exact congrArg (List.map (·.visit)) hvalidators
      moves := fun _ ↦ by rw [hstate]; exact .refl
      undecided := fun _ hb ↦ hb.undecided_of_realigned
        (by rw [hstate]; exact ⟨rfl, rfl, le_rfl⟩)
      not_paused := fun _ ↦ h.not_paused }
  | finalizeDelinquentUpgrade h =>
    obtain ⟨hpaused, _, _, _, _, _, -, hiter, hs⟩ := FinalizeDelinquentUpgrade.process_spec h
    have hvisits := iterate_map_eq ValidatorRecord.visit (fun _ _ _ ↦ rfl) hiter
    have hvs := FinalizeDelinquentUpgrade.iterate_frame hiter
    rcases hs with ⟨-, -, hs⟩ | ⟨-, hs⟩
    · refine .of_same hpaused ?_ ?_ ?_ ?_
      all_goals rw [hs]
      · exact hvisits
      · exact .refl
      · rw [hvs]
        exact ⟨rfl, rfl, le_rfl⟩
    · refine .of_same hpaused ?_ ?_ ?_ ?_
      all_goals rw [hs]
      · exact hvisits
      · exact .refl
      · rw [hvs]
        exact ⟨rfl, rfl, le_rfl⟩
  | addValidator h | removeValidator h =>
    obtain ⟨_, hstate⟩ := h.state_eq
    exact {
      records_eq := fun _ ↦ by rw [hstate]
      visits_eq := fun hi ↦ nomatch hi
      moves := fun _ ↦ by rw [hstate]; exact .refl
      undecided := fun _ _ ↦ by rw [hstate]; exact ⟨rfl, rfl, le_rfl⟩
      not_paused := fun _ ↦ h.not_paused }
  | setValidatorScore h =>
    obtain ⟨_, hstate⟩ := h.state_eq
    refine .of_same h.not_paused ?_ (State.visits_set h.validator h.validators_eq rfl) ?_ ?_
    all_goals rw [hstate]
    · exact .refl
    · exact ⟨rfl, rfl, le_rfl⟩
  | config hins books => exact .of_reconfigured hins books
  | realloc hins _ _ _ h => exact .of_reconfigured hins h.books

/-- What an instruction that sets a configuration does: it changes the state alone, or resizes a
list. -/
theorem Executed.configured (h : Executed rt w w' i e) (hi : i.configures = true) :
    w.state.Reconfigured i.extraRuns i.pauses w'.state ∧
      (w'.toChain = w.toChain ∨ ∃ (accounts : ReallocList) (list : Pubkey),
        (list = .stakeList ∨ list = .validatorList) ∧ accounts.Spec list w w') := by
  cases h with
  | config _ books hframe => exact ⟨books, .inl hframe⟩
  | realloc _ hruns hpauses hlist h =>
    rw [hruns, hpauses]
    exact ⟨h.books, .inr ⟨_, _, hlist, h⟩⟩
  | notUnstaked _ hins | unstakedWhole _ hins | unstakedSplit _ hins =>
    exact absurd (hi.symm.trans (Instruction.of_unstakes hins).1) (by decide)
  | _ => cases hi

end

end Marinade
