import Marinade.Authority
import Marinade.Guarantees.MoveCap
import Marinade.Invariants.Bounds
import Marinade.Invariants.Registry

/-!
# Who decides what

The admin decides on fees, limits and authorities. The validator manager decides on the validators
and their scores, and takes stake away from them out of turn. The pause authority stops the program
and lets it go on. Whatever else is called, in whatever order and by whomever, leaves their
decisions as they are: who finds one of them changed also finds a step its author has signed.

The program takes one decision on its own: an update that found more mSOL than were ever minted
would close the pool for deposits. That does not happen.
-/

open Foundation Foundation.Ledger

namespace Marinade

/-- The step is an instruction that `k` signs. -/
def Label.SignedBy (k : Pubkey) : Label → Prop
  | .instruction i _ => k ∈ i.signers
  | .external _ => False

/-! ## The admin -/

section

variable {rt : Runtime} {w w₀ w' : World} {i : Instruction} {e : Event} {l : Label}
  {ls : List Label} {n j : ℕ}

/-! ## Who has signed a configuration -/

/-- What an instruction that configures has changed belongs to one who signed it. -/
inductive Configured (w w' : World) (i : Instruction) : Prop
  | admin (hsigned : w.state.adminAuthority ∈ i.signers) : Configured w w' i
  | manager (hsigned : w.state.validatorSystem.managerAuthority ∈ i.signers)
      (configuration_eq : w'.state.configuration = w.state.configuration)
      (paused_eq : w'.state.paused = w.state.paused) : Configured w w' i
  | pauseAuthority (hsigned : w.state.pauseAuthority ∈ i.signers)
      (configuration_eq : w'.state.configuration = w.state.configuration)
      (runs_eq : w'.state.stakeSystem.extraStakeDeltaRuns
        = w.state.stakeSystem.extraStakeDeltaRuns) : Configured w w' i

theorem configured_of_exec (h : exec rt w i = .ok (w', e)) (hi : i.configures = true) :
    Configured w w' i := by
  cases i with
  | changeAuthority =>
    obtain ⟨h, -⟩ := onState_eq_ok h
    simp only [ChangeAuthority.process, bind_eq_ok, ensure_eq_ok, exists_const] at h
    exact .admin (by simp [Instruction.signers, h.1])
  | configLp =>
    obtain ⟨h, -⟩ := onState_eq_ok h
    simp only [ConfigLp.process, bind_eq_ok, ensure_eq_ok, exists_const] at h
    exact .admin (by simp [Instruction.signers, h.1])
  | configMarinade =>
    obtain ⟨h, -⟩ := onState_eq_ok h
    simp only [ConfigMarinade.process, bind_eq_ok, ensure_eq_ok, exists_const] at h
    exact .admin (by simp [Instruction.signers, h.1])
  | reallocValidatorList =>
    have hp := silently_eq_ok h
    simp only [ReallocValidatorList.process, bind_eq_ok, ensure_eq_ok, exists_const] at hp
    exact .admin (by simp [Instruction.signers, hp.1])
  | reallocStakeList =>
    have hp := silently_eq_ok h
    simp only [ReallocStakeList.process, bind_eq_ok, ensure_eq_ok, exists_const] at hp
    exact .admin (by simp [Instruction.signers, hp.1])
  | configValidatorSystem =>
    obtain ⟨h, -⟩ := onState_eq_ok h
    simp only [ConfigValidatorSystem.process, bind_eq_ok, ensure_eq_ok, exists_const,
      pure_eq_ok] at h
    obtain ⟨hmanager, hs⟩ := h
    exact .manager (by simp [Instruction.signers, hmanager]) (by rw [← hs]; rfl) (by rw [← hs])
  | pause =>
    obtain ⟨h, -⟩ := onState_eq_ok h
    simp only [EmergencyPause.pause, bind_eq_ok, ensure_eq_ok, exists_const, pure_eq_ok] at h
    obtain ⟨hpause, -, hs⟩ := h
    exact .pauseAuthority (by simp [Instruction.signers, hpause]) (by rw [← hs]; rfl)
      (by rw [← hs])
  | resume =>
    obtain ⟨h, -⟩ := onState_eq_ok h
    simp only [EmergencyPause.resume, bind_eq_ok, ensure_eq_ok, exists_const, pure_eq_ok] at h
    obtain ⟨hpause, -, hs⟩ := h
    exact .pauseAuthority (by simp [Instruction.signers, hpause]) (by rw [← hs]; rfl)
      (by rw [← hs])
  | _ => cases hi

/-- An instruction changes the configuration only for the admin. -/
theorem configuration_or_signed (h : exec rt w i = .ok (w', e)) (hsound : w.StakesSound rt)
    (hb : Bounds w) : w'.state.configuration = w.state.configuration ∨
      w.state.adminAuthority ∈ i.signers := by
  by_cases hi : i.configures = true
  · rcases configured_of_exec h hi with hsigned | ⟨-, heq, -⟩ | ⟨-, heq, -⟩
    · exact .inr hsigned
    · exact .inl heq
    · exact .inl heq
  · have hkept := (executed_of_exec h hsound).leaves.undecided (by simpa using hi) hb
    exact .inl hkept.configuration_eq

theorem Step.configuration_or_signed (hs : Step rt w l w') (h : (marinade rt).Reachable w) :
    w'.state.configuration = w.state.configuration ∨ l.SignedBy w.state.adminAuthority := by
  cases l with
  | instruction i e =>
    exact Marinade.configuration_or_signed hs (wellFormed_of_reachable h).stakes_sound
      (bounds_of_reachable h)
  | external x =>
    rw [hs.2]
    exact .inl rfl

/-- In every run the configuration stays what it was, unless the admin it names has signed one of
the steps. -/
theorem configuration_of_run (h : (marinade rt).Run w₀ ls w) (h₀ : (marinade rt).Reachable w₀) :
    w.state.configuration = w₀.state.configuration ∨
      ∃ l ∈ ls, l.SignedBy w₀.state.adminAuthority := by
  refine h.or_exists (P := fun _ w ↦ w.state.configuration = w₀.state.configuration) h₀ rfl ?_
  intro _ w l w' hr hconf hs
  have hadmin : w.state.adminAuthority = w₀.state.adminAuthority :=
    congrArg Configuration.adminAuthority hconf
  rw [← hadmin, ← hconf]
  exact Step.configuration_or_signed hs hr

/-! ## The validator manager -/

/-- What the validator manager decides. -/
structure Roster where
  /-- The listed validators in their order, each with its score. -/
  entries : List (Pubkey × ℕ)
  totalValidatorScore : ℕ
  flags : Pubkey → Bool
  /-- How much stake was moved out of turn, and when. -/
  lastStakeMoveEpoch : ℕ
  stakeMoved : ℕ

def World.roster (w : World) : Roster where
  entries := w.state.validatorSystem.records.map (·.entry)
  totalValidatorScore := w.state.validatorSystem.totalValidatorScore
  flags := w.flags
  lastStakeMoveEpoch := w.state.lastStakeMoveEpoch
  stakeMoved := w.state.stakeMoved

/-- The instructions of the manager. -/
def Instruction.manages : Instruction → Bool
  | .addValidator .. | .removeValidator .. | .setValidatorScore .. | .configValidatorSystem ..
  | .emergencyUnstake .. | .partialUnstake .. => true
  | _ => false

theorem signed_of_manages (h : exec rt w i = .ok (w', e)) (hi : i.manages = true) :
    w.state.validatorSystem.managerAuthority ∈ i.signers := by
  cases i with
  | addValidator =>
    have hp := silently_eq_ok h
    simp only [AddValidator.process, bind_eq_ok, ensure_eq_ok, exists_const] at hp
    simp [Instruction.signers, hp.1]
  | removeValidator =>
    have hp := silently_eq_ok h
    simp only [RemoveValidator.process, bind_eq_ok, ensure_eq_ok, exists_const] at hp
    simp [Instruction.signers, hp.2.1]
  | setValidatorScore =>
    have hp := silently_eq_ok h
    simp only [SetValidatorScore.process, bind_eq_ok, ensure_eq_ok, exists_const] at hp
    simp [Instruction.signers, hp.1]
  | configValidatorSystem =>
    obtain ⟨h, -⟩ := onState_eq_ok h
    simp only [ConfigValidatorSystem.process, bind_eq_ok, ensure_eq_ok, exists_const] at h
    simp [Instruction.signers, h.1]
  | emergencyUnstake =>
    have hp := silently_eq_ok h
    simp only [EmergencyUnstake.process, bind_eq_ok, ensure_eq_ok, exists_const] at hp
    simp [Instruction.signers, hp.1]
  | partialUnstake =>
    have hp := silently_eq_ok h
    simp only [PartialUnstake.process, bind_eq_ok, ensure_eq_ok, exists_const] at hp
    simp [Instruction.signers, hp.1]
  | _ => cases hi

theorem World.roster_eq (hflags : w'.flags = w.flags)
    (hscore : w'.state.validatorSystem.totalValidatorScore
      = w.state.validatorSystem.totalValidatorScore)
    (hentries : w'.state.validatorSystem.records.map (·.entry)
      = w.state.validatorSystem.records.map (·.entry))
    (hmoves : w.state.SameMoves w'.state) : w'.roster = w.roster := by
  rw [roster, roster, hflags, hscore, hentries, hmoves.1, hmoves.2]

/-- The others write the records back with other balances. -/
theorem Executed.roster_eq (h : Executed rt w w' i e) (hi : i.manages = false)
    (hmoves : w.state.SameMoves w'.state) : w'.roster = w.roster := by
  cases h with
  | addValidator => cases hi
  | removeValidator => cases hi
  | setValidatorScore => cases hi
  | depositStakeAccount h =>
    refine World.roster_eq (by rw [h.frame]) (by rw [h.state_eq]) ?_ hmoves
    rw [h.validators_eq, map_key_set h.validator]
    rw [DepositStakeAccount.maintainUpgrader_validator h.upgrade]
    rfl
  | withdrawStakeAccount h =>
    exact World.roster_eq (by rw [h.frame]) (by rw [h.state_eq])
      (by rw [h.validators_eq, map_key_set h.validator (by rfl)]) hmoves
  | stakeReserve h =>
    obtain ⟨_, hstate⟩ := h.state_eq
    exact World.roster_eq (by rw [h.frame]) (by rw [hstate])
      (by rw [h.validators_eq, map_key_set h.validator (by rfl)]) hmoves
  | unstakedWhole h =>
    have hset := h.validators_eq
    obtain ⟨_, _, _, hstate⟩ := h.state_eq
    exact World.roster_eq (by rw [h.frame]) (by rw [hstate])
      (by rw [hset, map_key_set h.validator (by rfl)]) hmoves
  | unstakedSplit h =>
    have hset := h.validators_eq
    obtain ⟨_, _, _, hstate⟩ := h.state_eq
    exact World.roster_eq (by rw [h.frame]) (by rw [hstate])
      (by rw [hset, map_key_set h.validator (by rfl)]) hmoves
  | mergeStakes h =>
    exact World.roster_eq (by rw [h.frame]) (by rw [h.state_eq])
      (by rw [h.validators_eq, map_key_set h.validator (by rfl)]) hmoves
  | updateActive h =>
    obtain ⟨_, hstate⟩ := h.state_eq
    refine World.roster_eq (by rw [h.frame]) (by rw [hstate]) ?_ hmoves
    rw [h.validators_eq, map_key_set h.validator]
    rw [h.validator_eq]
    rfl
  | updateDeactivated h =>
    obtain ⟨_, hstate⟩ := h.state_eq
    refine World.roster_eq (by rw [h.frame]) ?_ ?_ hmoves
    · rw [hstate, h.booked_out.state_eq, h.detected.state_eq]
      rfl
    · rw [h.validators_eq]
      split
      · exact map_key_set h.validator (by rfl)
      · rfl
  | finalizeDelinquentUpgrade h hframe =>
    obtain ⟨-, _, _, _, _, _, -, hiter, hs⟩ := FinalizeDelinquentUpgrade.process_spec h
    have hentries := iterate_map_eq ValidatorRecord.entry (fun _ _ _ ↦ rfl) hiter
    have hvs := FinalizeDelinquentUpgrade.iterate_frame hiter
    rcases hs with ⟨-, -, hs⟩ | ⟨-, hs⟩
    · exact World.roster_eq (by rw [hframe]) (by rw [hs, hvs]) (by rw [hs]; exact hentries) hmoves
    · exact World.roster_eq (by rw [hframe]) (by rw [hs, hvs]) (by rw [hs]; exact hentries) hmoves
  | config _ books hframe =>
    exact World.roster_eq (by rw [hframe]) books.score_eq (by rw [books.validators_eq]) hmoves
  | realloc _ _ _ _ h =>
    exact World.roster_eq (by rw [h.frame]) h.books.score_eq (by rw [h.books.validators_eq]) hmoves
  | notStaked h =>
    obtain ⟨_, hstate⟩ := h.state_eq
    exact World.roster_eq (by rw [h.frame]) (by rw [hstate]) (by rw [hstate]) hmoves
  | _ h => exact World.roster_eq (by rw [h.frame]) (by rw [h.state_eq]) (by rw [h.state_eq]) hmoves

/-- An instruction changes the roster, or grants extra runs, only for the manager. -/
theorem Step.roster_or_signed (hs : Step rt w l w') (h : (marinade rt).Reachable w) :
    (w'.roster = w.roster ∧ w'.state.stakeSystem.extraStakeDeltaRuns
        ≤ w.state.stakeSystem.extraStakeDeltaRuns) ∨
      l.SignedBy w.state.adminAuthority ∨
      l.SignedBy w.state.validatorSystem.managerAuthority := by
  cases l with
  | external x =>
    refine .inl ⟨World.roster_eq (External.flags_eq hs.1) ?_ ?_ ?_, ?_⟩
    all_goals rw [hs.2]
    exact .refl
  | instruction i e =>
    have hsound := (wellFormed_of_reachable h).stakes_sound
    by_cases hi : i.manages = true
    · exact .inr (.inr (signed_of_manages hs hi))
    · have hroster : w'.roster = w.roster := by
        refine (executed_of_exec hs hsound).roster_eq (by simpa using hi) ?_
        refine (executed_of_exec hs hsound).leaves.moves ?_
        cases i with
        | emergencyUnstake | partialUnstake => exact absurd rfl hi
        | _ => rfl
      by_cases hc : i.configures = true
      · rcases configured_of_exec hs hc with hsigned | ⟨hsigned, -, -⟩ | ⟨-, -, hruns⟩
        · exact .inr (.inl hsigned)
        · exact .inr (.inr hsigned)
        · exact .inl ⟨hroster, hruns.le⟩
      · have hkept := (executed_of_exec hs hsound).leaves.undecided (by simpa using hc)
          (bounds_of_reachable h)
        exact .inl ⟨hroster, hkept.runs_le⟩

/-- In every run the validators keep their places and their scores, no stake is counted as moved out
of turn, and no extra runs of the stake delta are granted, unless the manager or the admin has
signed one of the steps. -/
theorem roster_of_run (h : (marinade rt).Run w₀ ls w) (h₀ : (marinade rt).Reachable w₀) :
    (w.roster = w₀.roster ∧ w.state.stakeSystem.extraStakeDeltaRuns
        ≤ w₀.state.stakeSystem.extraStakeDeltaRuns) ∨
      ∃ l ∈ ls, l.SignedBy w₀.state.adminAuthority ∨
        l.SignedBy w₀.state.validatorSystem.managerAuthority := by
  have hrun := h.or_exists (P := fun _ w ↦ w.state.configuration = w₀.state.configuration ∧
      w.roster = w₀.roster ∧ w.state.stakeSystem.extraStakeDeltaRuns
        ≤ w₀.state.stakeSystem.extraStakeDeltaRuns)
    (B := fun l ↦ l.SignedBy w₀.state.adminAuthority ∨
      l.SignedBy w₀.state.validatorSystem.managerAuthority) h₀ ⟨rfl, rfl, le_rfl⟩ ?_
  · rcases hrun with ⟨-, hkept⟩ | hsigned
    · exact .inl hkept
    · exact .inr hsigned
  · rintro _ w l w' hr ⟨hconf, hroster, hruns⟩ hs
    have hadmin : w.state.adminAuthority = w₀.state.adminAuthority :=
      congrArg Configuration.adminAuthority hconf
    have hmanager : w.state.validatorSystem.managerAuthority
        = w₀.state.validatorSystem.managerAuthority :=
      congrArg Configuration.managerAuthority hconf
    rw [← hadmin, ← hmanager]
    rcases Step.configuration_or_signed hs hr with hconf' | hsigned
    · rcases Step.roster_or_signed hs hr with ⟨hroster', hruns'⟩ | hsigned
      · exact .inl ⟨hconf'.trans hconf, hroster'.trans hroster, hruns'.trans hruns⟩
      · exact .inr hsigned
    · exact .inr (.inl hsigned)

end

/-! ## Nobody signs -/

namespace Sample

/-- Rewards arrive and are booked in the next epoch, which anybody may do. -/
def refreshing : List Action := [
  .reward (.external 30) 1000000,
  .tick (startOf 2),
  .run (.updateActive ⟨.external 30⟩ 0 0)]

def refreshed : List Label × World :=
  (replay runtime (fun _ _ ↦ true) staked.2 refreshing).get (by decide +kernel)

theorem refreshed_run : (marinade runtime).Run staked.2 refreshed.1 refreshed.2 :=
  run_of_replay (Option.some_get _).symm

end Sample

/-- A run nobody signs leaves the configuration alone. -/
theorem configuration_sample :
    Sample.refreshed.2.state.configuration = Sample.staked.2.state.configuration ∨
      ∃ l ∈ Sample.refreshed.1, l.SignedBy Sample.staked.2.state.adminAuthority :=
  configuration_of_run Sample.refreshed_run Sample.staked_reachable

theorem roster_sample :
    (Sample.refreshed.2.roster = Sample.staked.2.roster ∧
      Sample.refreshed.2.state.stakeSystem.extraStakeDeltaRuns
        ≤ Sample.staked.2.state.stakeSystem.extraStakeDeltaRuns) ∨
      ∃ l ∈ Sample.refreshed.1, l.SignedBy Sample.staked.2.state.adminAuthority ∨
        l.SignedBy Sample.staked.2.state.validatorSystem.managerAuthority :=
  roster_of_run Sample.refreshed_run Sample.staked_reachable

end Marinade
