import Marinade.Failures
import Marinade.Invariants.Bounds
import Marinade.Invariants.Registry
import Marinade.Replay

/-!
# The validator list

No validator is listed twice, because listing one takes a flag account that can be created only
once. And the total of the scores can always be reduced by the score of a listed validator, because
it is the sum of them all.

Every stake account needs its validator in the list to be updated. A validator is only removed when
none of its stake is booked as active, but its stake stays in the list while it cools down, and the
removal does not look at that.
-/

open Foundation Foundation.Ledger

namespace Marinade

section

variable {rt : Runtime} {w : World} {v : ValidatorRecord} {index score : ℕ} {vote : Pubkey}

/-! ## The total of the scores -/

/-- The total falls below zero. -/
private def IsScoreUnderflow (e : Error) : Prop :=
  e = .underflow .totalValidatorScore

attribute [local simp] IsScoreUnderflow

/-- A listed score is part of the total. -/
theorem Registry.score_le (h : Registry w)
    (hv : w.state.validatorSystem.records[index]? = some v) :
    v.score ≤ w.state.validatorSystem.totalValidatorScore := by
  rw [h.score_eq]
  exact le_total (g := (·.score)) (List.mem_of_getElem? hv)

theorem RemoveValidator.process_noUnderflow {accounts : RemoveValidator} (h : Registry w) :
    Avoids IsScoreUnderflow (accounts.process rt index vote w) := by
  refine .bind (by simp) fun _ _ ↦ .bind (by simp) fun _ _ ↦ .bind (by simp) fun _ _ ↦
    .bind (by simp) fun _ _ ↦ .bind (by simp) fun _ _ ↦ .bind (by simp) fun _ _ ↦
    .bind (by simp) fun v hv ↦ .bind (by simp) fun _ _ ↦ .bind ?_ fun _ _ ↦
    .bind (by simp) fun _ _ ↦ Avoids.ok_iff
  have hle := h.score_le (ValidatorSystem.getChecked_eq_ok.mp hv).1
  exact (ValidatorSystem.remove_avoids (by simp) (by simp)).mpr fun _ _ ↦ hle

theorem SetValidatorScore.process_noUnderflow {accounts : SetValidatorScore} (h : Registry w) :
    Avoids IsScoreUnderflow (accounts.process index vote score w) := by
  refine .bind (by simp) fun _ _ ↦ .bind (by simp) fun _ _ ↦ .bind (by simp) fun v hv ↦
    .bind ?_ fun _ _ ↦ .bind (by simp) fun _ _ ↦ .bind (by simp) fun _ _ ↦ Avoids.ok_iff
  have hle := h.score_le (ValidatorSystem.getChecked_eq_ok.mp hv).1
  exact checkedSub_avoids.mpr fun _ ↦ hle

/-- In every reachable state no validator is listed twice, the flags are those of the listed
validators, and the total of the scores is their sum, so that it never falls below zero. -/
theorem validators_of_reachable (h : (marinade rt).Reachable w) :
    KeysDistinct (·.validatorAccount) w.state.validatorSystem.records ∧
    (∀ vote, w.flags vote = true ↔
      ∃ v ∈ w.state.validatorSystem.records, v.validatorAccount = vote) ∧
    w.state.validatorSystem.totalValidatorScore
      = total (·.score) w.state.validatorSystem.records ∧
    (∀ accounts index vote, exec rt w (.removeValidator accounts index vote)
      ≠ .error (.underflow .totalValidatorScore)) ∧
    ∀ accounts index vote score, exec rt w (.setValidatorScore accounts index vote score)
      ≠ .error (.underflow .totalValidatorScore) := by
  have hr := registry_of_reachable h
  refine ⟨hr.distinct, fun vote ↦ hr.flag_iff, hr.score_eq, ?_, ?_⟩
  · intro accounts index vote he
    rw [exec, silently, bind_eq_error] at he
    rcases he with he | ⟨_, -, he⟩
    · exact RemoveValidator.process_noUnderflow hr _ he rfl
    · cases he
  · intro accounts index vote score he
    rw [exec, silently, bind_eq_error] at he
    rcases he with he | ⟨_, -, he⟩
    · exact SetValidatorScore.process_noUnderflow hr _ he rfl
    · cases he

/-- The sample pool lists one validator. -/
theorem validators_sample :
    KeysDistinct (·.validatorAccount) Sample.staked.2.state.validatorSystem.records ∧
    (∀ vote, Sample.staked.2.flags vote = true ↔
      ∃ v ∈ Sample.staked.2.state.validatorSystem.records, v.validatorAccount = vote) ∧
    Sample.staked.2.state.validatorSystem.totalValidatorScore
      = total (·.score) Sample.staked.2.state.validatorSystem.records ∧
    (∀ accounts index vote, exec Sample.runtime Sample.staked.2
      (.removeValidator accounts index vote) ≠ .error (.underflow .totalValidatorScore)) ∧
    ∀ accounts index vote score, exec Sample.runtime Sample.staked.2
      (.setValidatorScore accounts index vote score) ≠ .error (.underflow .totalValidatorScore) :=
  validators_of_reachable Sample.staked_reachable

/-! ## Stake of a removed validator -/

/-- A validator with stake that is booked as active is listed. -/
theorem listed_of_activeAmount_pos {r : StakeRecord} (h : (marinade rt).Reachable w)
    (hr : r ∈ w.state.stakeSystem.records) (hvote : w.voterOf r.stakeAccount = some vote)
    (hpos : 0 < r.activeAmount) :
    ∃ v ∈ w.state.validatorSystem.records, v.validatorAccount = vote := by
  by_contra hnone
  have hle : w.activeFor vote r ≤ total (w.activeFor vote) w.state.stakeSystem.records :=
    le_total hr
  have hzero : total (·.balanceOf vote) w.state.validatorSystem.records = 0 := by
    rw [total_eq_zero_iff]
    intro v hv
    exact only_of_ne (fun heq ↦ hnone ⟨v, hv, heq.symm⟩) _
  rw [← (booked_of_reachable h).validators_eq, hzero, Chain.activeFor, if_pos hvote] at hle
  omega

/-- The validator of every account in the list is listed. -/
def World.Tended (w : World) : Prop :=
  ∀ r ∈ w.state.stakeSystem.records, ∃ v ∈ w.state.validatorSystem.records,
    w.voterOf r.stakeAccount = some v.validatorAccount

/-- A step that does not remove a validator some account of the list is delegated to. -/
def World.attends (w : World) : Label → Bool
  | .instruction (.removeValidator _ _ vote) _ =>
    w.state.stakeSystem.records.all fun r ↦ w.voterOf r.stakeAccount ≠ some vote
  | _ => true

/-- The program where validators are only removed when nothing is delegated to them any more. -/
def attended (rt : Runtime) : System World Label :=
  (marinade rt).restrict fun w l ↦ w.attends l = true

theorem reachable_of_attended (h : (attended rt).Reachable w) : (marinade rt).Reachable w :=
  System.Reachable.of_restrict h

variable {w' : World} {i : Instruction} {e : Event} {x : External}

/-- Only its own removal takes the flag of a validator. -/
theorem Executed.flags_of_ne (h : Executed rt w w' i e) (hflag : w.flags vote = true)
    (hi : ∀ accounts index, i ≠ .removeValidator accounts index vote) :
    w'.flags vote = true := by
  cases h with
  | addValidator h =>
    rw [h.flags_eq, Function.update_apply]
    split
    · rfl
    · exact hflag
  | @removeValidator accounts index vote' _ _ h =>
    have hne : vote ≠ vote' := by
      rintro rfl
      exact hi accounts index rfl
    rw [h.flags_eq, Function.update_of_ne hne]
    exact hflag
  | config _ _ hframe => rw [hframe]; exact hflag
  | finalizeDelinquentUpgrade _ hframe => rw [hframe]; exact hflag
  | realloc _ _ _ _ h => rw [h.frame]; exact hflag
  | _ h => rw [h.frame]; exact hflag

theorem World.Tended.instruction (ht : w.Tended) (hw : WellFormed rt w) (hb : Recorded w)
    (hr : Registry w) (he : exec rt w i = .ok (w', e))
    (hattends : w.attends (.instruction i e) = true) : w'.Tended := by
  have h := executed_of_exec he hw.stakes_sound
  obtain ⟨olds, news, rest, hm⟩ := h.moved hw hb.listed
  intro r hmem
  -- the account's validator was listed before
  obtain ⟨v, hv, hvote⟩ : ∃ v ∈ w.state.validatorSystem.records,
      w'.voterOf r.stakeAccount = some v.validatorAccount := by
    rcases hm.replaced.mem_iff.mp hmem with hnew | hrest
    · exact hm.voters r hnew
    · rw [Chain.voterOf_congr (hm.stakes_rest hb hrest)]
      exact ht r (hm.replaced.mem_of_rest hrest)
  have hne : ∀ accounts index, i ≠ .removeValidator accounts index v.validatorAccount := by
    rintro accounts index rfl
    obtain ⟨_, hspec⟩ := RemoveValidator.process_spec (silently_eq_ok he)
    obtain ⟨_, hstate⟩ := hspec.state_eq
    rw [hstate] at hmem
    have hstakes : w'.stakes = w.stakes := by rw [hspec.frame]
    rw [Chain.voterOf_congr (congrFun hstakes _)] at hvote
    have hnot := List.all_eq_true.mp hattends r hmem
    exact of_decide_eq_true hnot hvote
  obtain ⟨v', hv', hkey⟩ := (h.registry hr).listed _ (h.flags_of_ne (hr.flagged v hv) hne)
  exact ⟨v', hv', hvote.trans (congrArg some hkey.symm)⟩

theorem World.Tended.external (ht : w.Tended) (hb : Recorded w)
    (hx : x.Happens rt w.toChain w'.toChain) (hs : w'.state = w.state) : w'.Tended := by
  intro r hmem
  rw [hs] at hmem
  obtain ⟨v, hv, hvote⟩ := ht r hmem
  rw [hs]
  exact ⟨v, hv, (External.lists hx (hb.listed r hmem)).2.trans hvote⟩

theorem tended_of_attended (h : (attended rt).Reachable w) : w.Tended := by
  refine h.induct_of (Q := fun w ↦ (marinade rt).Reachable w) ?_ ?_ ?_
  · intro w hr
    exact reachable_of_attended hr
  · intro w hi hr
    obtain ⟨accounts, data, c, -, hp⟩ := hi
    intro r hmem
    rw [(Initialize.process_spec hp).records_eq] at hmem
    cases hmem
  · rintro w l w' hr - ht ⟨hstep, hattends⟩
    have hb := (booked_of_reachable hr).toRecorded
    cases l with
    | instruction i e =>
      exact ht.instruction (wellFormed_of_reachable hr) hb (registry_of_reachable hr) hstep hattends
    | external x => exact ht.external hb hstep.1 hstep.2

/-- While validators are only removed when nothing is delegated to them, the updates find the
validator of every account of the list. -/
theorem begin_of_attended (h : (attended rt).Reachable w) {k : ℕ} {r : StakeRecord}
    (hr : w.state.stakeSystem.records[k]? = some r) :
    ∃ j v, w.voterOf r.stakeAccount = some v.validatorAccount ∧
      w.state.validatorSystem.getChecked j v.validatorAccount = .ok v ∧
      ∃ b, UpdateCommon.begin ⟨r.stakeAccount⟩ k j w = .ok b := by
  have hreach := reachable_of_attended h
  have hmem := List.mem_of_getElem? hr
  obtain ⟨v, hv, hvote⟩ := tended_of_attended h r hmem
  obtain ⟨j, hj⟩ := List.mem_iff_getElem?.mp hv
  obtain ⟨account, d, ha, hd, -⟩ := ((booked_of_reachable hreach).listed r hmem).delegated
  have hvoter : v.validatorAccount = d.voterPubkey :=
    Option.some.inj (hvote.symm.trans (Chain.voterOf_eq ha hd))
  have hchecked := ValidatorSystem.getChecked_eq_ok.mpr ⟨hj, rfl⟩
  have hreserve : checkedAdd w.state.availableReserveBalance w.state.rentExemptForTokenAcc
      = .ok (w.state.availableReserveBalance + w.state.rentExemptForTokenAcc) :=
    checkedAdd_eq_ok.mpr ⟨(bounds_of_reachable hreach).reserve_le.trans
      ((Ledger.balance_le_total _ _).trans (wellFormed_of_reachable hreach).capital_le), rfl⟩
  have hstake : w.state.stakeSystem.getChecked k r.stakeAccount = .ok r :=
    StakeSystem.getChecked_eq_ok.mpr ⟨hr, rfl⟩
  rw [hvoter] at hchecked
  refine ⟨j, v, hvote, by rw [hvoter]; exact hchecked, ⟨account, d, r, v,
    w.getTreasuryMsolBalance.isSome⟩, ?_⟩
  simp only [UpdateCommon.begin, bind_eq_ok, orError_eq_ok, pure_eq_ok]
  exact ⟨account, ha, _, hreserve, r, hstake, d, hd, v, hchecked, rfl⟩

end

namespace Sample

def tended : List Label × World :=
  (replay runtime World.attends fresh staking).get (by decide +kernel)

theorem tended_reachable : (attended runtime).Reachable tended.2 :=
  (restrict_run_of_replay (fun _ _ h ↦ h) rfl (Option.some_get _).symm).reachable fresh_fresh

/-- The validator loses its score, its stake is taken out in an emergency, and it is removed. -/
def removing : List Action := staking ++ [
  .run (.setValidatorScore ⟨user⟩ 0 vote 0),
  .run (.emergencyUnstake ⟨user, .external 30⟩ 0 0),
  .run (.removeValidator ⟨user, .duplicationFlag vote, operationalSolAccount⟩ 0 vote)]

def removed : List Label × World :=
  (replay runtime (fun _ _ ↦ true) fresh removing).get (by decide +kernel)

theorem removed_reachable : (marinade runtime).Reachable removed.2 :=
  (run_of_replay (Option.some_get _).symm).reachable fresh_fresh

end Sample

/-- The update of the staked account finds its validator. -/
theorem begin_sample : ∃ j v,
    Sample.tended.2.voterOf (.external 30) = some v.validatorAccount ∧
    Sample.tended.2.state.validatorSystem.getChecked j v.validatorAccount = .ok v ∧
    ∃ b, UpdateCommon.begin ⟨.external 30⟩ 0 j Sample.tended.2 = .ok b := by
  have hr : Sample.tended.2.state.stakeSystem.records[0]?
      = some ⟨.external 30, 60000000, 1, false, .active⟩ := by decide +kernel
  exact begin_of_attended Sample.tended_reachable hr

/-- The account is still listed when its validator is not, and no update finds the validator. -/
theorem not_begin_of_removed : ∃ w, (marinade Sample.runtime).Reachable w ∧
    ∃ k r, w.state.stakeSystem.records[k]? = some r ∧
      ∀ j b, UpdateCommon.begin ⟨r.stakeAccount⟩ k j w ≠ .ok b := by
  have hr : Sample.removed.2.state.stakeSystem.records[0]?
      = some ⟨.external 30, 60000000, 1, true, .deactivating⟩ := by decide +kernel
  refine ⟨_, Sample.removed_reachable, 0, _, hr, ?_⟩
  intro j b hb
  have hnone : Sample.removed.2.state.validatorSystem.records = [] := by decide +kernel
  have hv := (UpdateCommon.begin_spec hb).validator
  rw [hnone] at hv
  cases hv

end Marinade
