import Marinade.Invariants.Migration
import Marinade.Replay

/-!
# The upgrade of an old pool

What holds in the two iterations of the delinquent upgrade, whatever happens in between, and where
it ends. The validators never lose track of what is active and what is known to be delinquent. As
long as nobody deactivates an account whose record was visited, all comparisons of the first
iteration succeed and the second one can finish.

An account whose record was visited may be deactivated all the same. Its removal then forgets what
was counted for it, and neither iteration is right any more.
-/

open Foundation Foundation.Ledger

namespace Marinade

/-! ## The runs -/

/-- The program from a new pool, or from an old one whose validators have the active total. -/
def conserving (rt : Runtime) : System World Label :=
  (marinade rt).startingFrom fun w ↦ Fresh rt w ∨
    (WellFormed rt w ∧ w.state.delinquentUpgrader = .iteratingStakes 0 0 0 ∧
      total (·.activeBalance) w.state.validatorSystem.records
        = w.state.validatorSystem.totalActiveBalance)

/-- The program from an old pool. -/
def upgrading (rt : Runtime) : System World Label :=
  (marinade rt).startingFrom (Migrated rt)

/-- Where no record that was visited as active is removed. -/
def countingUpgrade (rt : Runtime) : System World Label :=
  (upgrading rt).restrict fun w l ↦ w.sparesVisited l = true

/-- The program from an old pool with consistent totals, where no account whose record was visited
is deactivated from outside. -/
def consistentUpgrade (rt : Runtime) : System World Label :=
  ((marinade rt).startingFrom fun w ↦ Migrated rt w ∧ ∃ cooling, OldBooks w cooling).restrict
    fun w l ↦ w.sparesVisitedAccounts l = true

/-- The program from the start of the iteration over the validators. -/
def finalizing (rt : Runtime) : System World Label :=
  (marinade rt).startingFrom fun w ↦ ∃ left, Entered rt w left

/-- Where the removal of an active record spares the validators this iteration has not reached. -/
def sparingFinalizing (rt : Runtime) : System World Label :=
  (finalizing rt).restrict fun w l ↦ w.sparesPending l = true

/-! ## A pool to upgrade -/

namespace Sample

def otherVote : Pubkey := .external 21

/-- Two validators, one of which is delegated to three times. -/
def delegating : List Action := [
  .run (.addValidator ⟨user, vote, .duplicationFlag vote, user⟩ 100),
  .run (.addValidator ⟨user, otherVote, .duplicationFlag otherVote, user⟩ 0),
  .run (.deposit ⟨user, treasury⟩ 40000000),
  .run (.stakeReserve ⟨vote, .external 30, user⟩ 0),
  .tick (startOf 3),
  .run (.deposit ⟨user, treasury⟩ 40000000),
  .run (.stakeReserve ⟨vote, .external 31, user⟩ 0),
  .tick (startOf 4),
  .run (.deposit ⟨user, treasury⟩ 40000000),
  .run (.stakeReserve ⟨vote, .external 32, user⟩ 0)]

def delegated : List Label × World :=
  (replay runtime (fun _ _ ↦ true) fresh delegating).get (by decide +kernel)

/-- One of the three is taken out in an emergency. -/
def cooled : List Label × World :=
  (replay runtime (fun _ _ ↦ true) fresh (delegating ++ [
    .run (.setValidatorScore ⟨user⟩ 0 vote 0),
    .run (.emergencyUnstake ⟨user, .external 32⟩ 2 0)])).get (by decide +kernel)

theorem delegated_reachable : (marinade runtime).Reachable delegated.2 :=
  (run_of_replay (Option.some_get _).symm).reachable fresh_fresh

theorem cooled_reachable : (marinade runtime).Reachable cooled.2 :=
  (run_of_replay (Option.some_get _).symm).reachable fresh_fresh

theorem beforeUpgrade_migrated {w : World} (h : (marinade runtime).Reachable w) :
    Migrated runtime w.beforeUpgrade :=
  (booked_of_reachable h).beforeUpgrade (wellFormed_of_reachable h) (registered_of_reachable h)

theorem cooled_oldBooks : OldBooks cooled.2.beforeUpgrade cooled.2.wasCooling :=
  (booked_of_reachable cooled_reachable).oldBooks (registered_of_reachable cooled_reachable)

/-- Before the upgrade has visited it, another one of the three is deactivated from outside. -/
def detecting : List Action := [
  .deactivateDelinquent (.external 31),
  .tick (startOf 5),
  .run (.updateActive ⟨.external 30⟩ 0 0),
  .run (.updateDeactivated ⟨⟨.external 31⟩, operationalSolAccount⟩ 1 0)]

def detected : List Label × World :=
  (replay runtime World.sparesVisitedAccounts cooled.2.beforeUpgrade detecting).get
    (by decide +kernel)

theorem detected_run :
    (consistentUpgrade runtime).Run cooled.2.beforeUpgrade detected.1 detected.2 :=
  restrict_run_of_replay (fun _ _ h ↦ h) rfl (Option.some_get _).symm

theorem detected_reachable : (consistentUpgrade runtime).Reachable detected.2 :=
  detected_run.reachable ⟨beforeUpgrade_migrated cooled_reachable, _, cooled_oldBooks⟩

/-- No record was visited when it was removed. -/
def countedUpgrade : List Label × World :=
  (replay runtime World.sparesVisited cooled.2.beforeUpgrade detecting).get (by decide +kernel)

theorem countedUpgrade_reachable : (countingUpgrade runtime).Reachable countedUpgrade.2 :=
  have hrun := restrict_run_of_replay (S := upgrading runtime) (fun _ _ h ↦ h) rfl
    (Option.some_get _).symm
  hrun.reachable (beforeUpgrade_migrated cooled_reachable)

/-- An account is deactivated from outside after its record was visited. Then another one is
visited. -/
def forgetting : List Action := [
  .run (.updateActive ⟨.external 30⟩ 0 0),
  .deactivateDelinquent (.external 30),
  .tick (startOf 5),
  .run (.updateDeactivated ⟨⟨.external 30⟩, operationalSolAccount⟩ 0 0),
  .run (.updateActive ⟨.external 31⟩ 1 0)]

def forgotten : List Label × World :=
  (replay runtime (fun _ _ ↦ true) delegated.2.beforeUpgrade (forgetting.take 4)).get
    (by decide +kernel)

def skipped : List Label × World :=
  (replay runtime (fun _ _ ↦ true) delegated.2.beforeUpgrade forgetting).get (by decide +kernel)

theorem forgotten_reachable : (upgrading runtime).Reachable forgotten.2 :=
  (startingFrom_run_of_replay (Option.some_get _).symm).reachable
    (beforeUpgrade_migrated delegated_reachable)

theorem skipped_reachable : (upgrading runtime).Reachable skipped.2 :=
  (startingFrom_run_of_replay (Option.some_get _).symm).reachable
    (beforeUpgrade_migrated delegated_reachable)

/-- The last record is that of the account which was taken out. -/
def lastUpdate : Instruction :=
  .updateDeactivated ⟨⟨.external 32⟩, operationalSolAccount⟩ 1 0

theorem lastUpdate_isSome : (exec runtime detected.2 lastUpdate).toOption.isSome = true := by
  decide +kernel

def entered : World :=
  ((exec runtime detected.2 lastUpdate).toOption.get lastUpdate_isSome).1

theorem lastUpdate_step :
    Step runtime detected.2 (.instruction lastUpdate .silent) entered :=
  step_of_isSome lastUpdate_isSome (by decide +kernel)

end Sample

section

variable {rt : Runtime} {w w' : World} {l : Label} {n t k left : ℕ}

/-! ## Conservation -/

/-- In every phase the validators together have what is active and what is known to be
delinquent. -/
theorem validators_total_of_reachable (h : (conserving rt).Reachable w) :
    total (·.activeBalance) w.state.validatorSystem.records
      = w.state.validatorSystem.totalActiveBalance
        + w.state.delinquentUpgrader.delinquentBalance := by
  have hall : WellFormed rt w ∧ w.state.Conserved := by
    refine h.induct (P := fun w ↦ WellFormed rt w ∧ w.state.Conserved) ?_ ?_
    · rintro w (hfresh | ⟨hw, hu, hsum⟩)
      · exact ⟨hfresh.wellFormed, hfresh.conserved⟩
      · refine ⟨hw, ?_⟩
        rw [State.Conserved, hu]
        exact hsum
    · rintro w l w' - ⟨hw, hc⟩ hstep
      exact ⟨hw.step hstep, hc.step hw hstep⟩
  exact hall.2

/-- One delinquent account is known, and its validator still has what it took with it. -/
theorem validators_total_sample :
    total (·.activeBalance) Sample.detected.2.state.validatorSystem.records
        = Sample.detected.2.state.validatorSystem.totalActiveBalance
          + Sample.detected.2.state.delinquentUpgrader.delinquentBalance ∧
      Sample.detected.2.state.delinquentUpgrader.delinquentBalance = 40000000 := by
  have hm := Sample.beforeUpgrade_migrated Sample.cooled_reachable
  have hsum : total (·.activeBalance) Sample.cooled.2.beforeUpgrade.state.validatorSystem.records
      = Sample.cooled.2.beforeUpgrade.state.validatorSystem.totalActiveBalance := by
    decide +kernel
  have hrun : (conserving Sample.runtime).Run _ _ _ := Sample.detected_run.mono fun _ _ _ h ↦ h.1
  exact ⟨validators_total_of_reachable
    (hrun.reachable (.inr ⟨hm.wellFormed, hm.upgrader_eq, hsum⟩)), by decide +kernel⟩

/-! ## The iteration over the stake records -/

/-- An old pool keeps the counts until a visited record is removed. -/
private theorem visits_of_reachable (h : (countingUpgrade rt).Reachable w) :
    Grounded rt w ∧
    ∀ n t k, w.state.delinquentUpgrader = .iteratingStakes n t k → w.Visits n t := by
  refine h.induct (P := fun w ↦ Grounded rt w ∧
    ∀ n t k, w.state.delinquentUpgrader = .iteratingStakes n t k → w.Visits n t) ?_ ?_
  · intro w hm
    refine ⟨hm.toGrounded, fun n t k hu ↦ ?_⟩
    cases hm.upgrader_eq.symm.trans hu
    exact hm.visits
  · rintro w l w' - ⟨hg, hvisits⟩ ⟨hstep, hl⟩
    refine ⟨hg.step hstep, fun n' t' k' hu' ↦ ?_⟩
    obtain ⟨n, t, k, hu⟩ := Step.iteratingStakes hstep hg.wellFormed hu'
    obtain ⟨n'', t'', k'', hv, hcounts | ⟨hcounts, -⟩⟩ := (hvisits n t k hu).step hg hu hl hstep
    · cases hu'.symm.trans hcounts
      exact hv
    · cases hu'.symm.trans hcounts

/-- As long as no record that was visited as active is removed, the counts of the iteration are
those of the visited records, and it only ends when all records are visited. -/
theorem upgrade_counts_of_reachable (h : (countingUpgrade rt).Reachable w)
    (hu : w.state.delinquentUpgrader = .iteratingStakes n t k) :
    n = (w.state.stakeSystem.records.filter (·.lastUpdateStatus ≠ .unknown)).length ∧
    t = total (·.lastUpdateDelegatedLamports)
      (w.state.stakeSystem.records.filter (·.lastUpdateStatus ≠ .unknown)) ∧
    (∀ v ∈ w.state.validatorSystem.records, v.delinquentUpgraderActiveBalance
      = total (·.lastUpdateDelegatedLamports) (w.state.stakeSystem.records.filter fun r ↦
        r.lastUpdateStatus ≠ .unknown ∧ w.voterOf r.stakeAccount = some v.validatorAccount)) ∧
    ∀ l w', (countingUpgrade rt).step w l w' →
      (∃ n' t' k', w'.state.delinquentUpgrader = .iteratingStakes n' t' k') ∨
      ∀ r ∈ w'.state.stakeSystem.records, r.lastUpdateStatus ≠ .unknown := by
  obtain ⟨hg, hvisits⟩ := visits_of_reachable h
  have hv := hvisits n t k hu
  have hcounted : UpdateActive.counted
      = fun r ↦ if r.lastUpdateStatus ≠ .unknown then r.lastUpdateDelegatedLamports else 0 := by
    funext r
    rw [UpdateActive.counted, ite_not]
  refine ⟨?_, ?_, fun v hmem ↦ ?_, ?_⟩
  · rw [hv.count_eq, ← total_one, total_filter]
    exact total_congr fun r _ ↦ (ite_not ..).symm
  · rw [hv.total_eq, total_filter, hcounted]
  · rw [w.total_filter_voterOf, ← hcounted, ← hv.upgrader_eq]
    exact (hg.registered.total_only_eq hmem _).symm
  · rintro l w' ⟨hstep, hl⟩
    obtain ⟨n', t', k', hv', hu' | ⟨-, hn', -⟩⟩ := hv.step hg hu hl hstep
    · exact .inl ⟨n', t', k', hu'⟩
    · exact .inr (hv'.known hn')

/-- One of the two records that are left was visited. -/
theorem upgrade_counts_sample :
    Sample.countedUpgrade.2.state.stakeSystem.records.length = 2 ∧
    1 = (Sample.countedUpgrade.2.state.stakeSystem.records.filter
      (·.lastUpdateStatus ≠ .unknown)).length ∧
    40000000 = total (·.lastUpdateDelegatedLamports)
      (Sample.countedUpgrade.2.state.stakeSystem.records.filter
        (·.lastUpdateStatus ≠ .unknown)) := by
  have hu : Sample.countedUpgrade.2.state.delinquentUpgrader
      = .iteratingStakes 1 40000000 40000000 := by
    decide +kernel
  obtain ⟨hcount, htotal, -⟩ := upgrade_counts_of_reachable Sample.countedUpgrade_reachable hu
  exact ⟨by decide +kernel, hcount, htotal⟩

/-- Once an account that was visited is deactivated from outside and removed, one more record is
counted than was visited, and the iteration ends although one record has not been visited. -/
theorem upgrade_counts_fail :
    (∃ w, (upgrading Sample.runtime).Reachable w ∧
      w.state.delinquentUpgrader = .iteratingStakes 1 40000000 0 ∧
      ∀ r ∈ w.state.stakeSystem.records, r.lastUpdateStatus = .unknown) ∧
    ∃ w, (upgrading Sample.runtime).Reachable w ∧
      w.state.delinquentUpgrader = .iteratingValidators 0 0 ∧
      ∃ r ∈ w.state.stakeSystem.records, r.lastUpdateStatus = .unknown :=
  ⟨⟨_, Sample.forgotten_reachable, by decide +kernel, by decide +kernel⟩,
    _, Sample.skipped_reachable, by decide +kernel, by decide +kernel⟩

/-! ## Its checks -/

/-- Consistent data stay so until the iteration ends. -/
private theorem consistent_of_reachable (h : (consistentUpgrade rt).Reachable w) :
    Grounded rt w ∧ ∀ n t k, w.state.delinquentUpgrader = .iteratingStakes n t k →
      ∃ cooling, w.Consistent rt cooling n t k := by
  refine h.induct (P := fun w ↦ Grounded rt w ∧ ∀ n t k,
    w.state.delinquentUpgrader = .iteratingStakes n t k →
      ∃ cooling, w.Consistent rt cooling n t k) ?_ ?_
  · rintro w ⟨hm, cooling, hb⟩
    refine ⟨hm.toGrounded, fun n t k hu ↦ ?_⟩
    cases hm.upgrader_eq.symm.trans hu
    exact ⟨cooling, hm.consistent hb⟩
  · rintro w l w' - ⟨hg, hconsistent⟩ ⟨hstep, hl⟩
    refine ⟨hg.step hstep, fun n' t' k' hu' ↦ ?_⟩
    obtain ⟨n, t, k, hu⟩ := Step.iteratingStakes hstep hg.wellFormed hu'
    obtain ⟨cooling, hc⟩ := hconsistent n t k hu
    rcases hc.step hl hstep with ⟨n'', t'', k'', hc'⟩ | ⟨left, hentered, -⟩
    · cases hu'.symm.trans hc'.upgrader_eq
      exact ⟨cooling, hc'⟩
    · cases hu'.symm.trans hentered.upgrader_eq

/-- On consistent data no comparison of the iteration fails and the active total never falls below
zero. When the iteration ends, nothing is cooling down, the total is that of the records, and what
was counted for each validator is what its records hold, no more than the validator has; together
the validators exceed it by what is known to be delinquent. -/
theorem upgrade_checks_of_reachable (h : (consistentUpgrade rt).Reachable w)
    (hu : w.state.delinquentUpgrader = .iteratingStakes n t k) :
    (∀ e ∈ [Error.marinade .upgradingInvariantViolation, .underflow .totalActiveBalance],
      (∀ accounts i j, exec rt w (.updateActive accounts i j) ≠ .error e) ∧
      (∀ accounts i j, exec rt w (.updateDeactivated accounts i j) ≠ .error e) ∧
      ∀ accounts j, exec rt w (.depositStakeAccount accounts j) ≠ .error e) ∧
    ∀ l w', (consistentUpgrade rt).step w l w' →
      (∃ n' t' k', w'.state.delinquentUpgrader = .iteratingStakes n' t' k') ∨
      ∃ left, w'.state.delinquentUpgrader = .iteratingValidators 0 left ∧
        w'.state.stakeSystem.delayedUnstakeCoolingDown = 0 ∧
        w'.state.emergencyCoolingDown = 0 ∧
        w'.state.validatorSystem.totalActiveBalance
          = total (·.lastUpdateDelegatedLamports) w'.state.stakeSystem.records ∧
        (∀ v ∈ w'.state.validatorSystem.records,
          v.delinquentUpgraderActiveBalance = total (·.lastUpdateDelegatedLamports)
            (w'.state.stakeSystem.records.filter fun r ↦
              w'.voterOf r.stakeAccount = some v.validatorAccount) ∧
          v.delinquentUpgraderActiveBalance ≤ v.activeBalance) ∧
        total (fun v ↦ v.activeBalance - v.delinquentUpgraderActiveBalance)
          w'.state.validatorSystem.records = left := by
  obtain ⟨cooling, hc⟩ := (consistent_of_reachable h).2 n t k hu
  constructor
  · intro e he
    have hfailure : Error.UpgradeFailure e := by
      rcases List.mem_pair.mp he with rfl | rfl
      · exact rfl
      · exact rfl
    refine ⟨fun accounts i j hexec ↦ ?_, fun accounts i j hexec ↦ ?_, fun accounts j hexec ↦ ?_⟩
    · have hsafe : Avoids Error.UpgradeFailure (exec rt w (.updateActive accounts i j)) := by
        simpa [exec, silently] using UpdateActive.process_holds hc
      exact hsafe e hexec hfailure
    · have hsafe : Avoids Error.UpgradeFailure (exec rt w (.updateDeactivated accounts i j)) := by
        simpa [exec, silently] using UpdateDeactivated.process_holds hc
      exact hsafe e hexec hfailure
    · have hsafe : Avoids Error.UpgradeFailure (exec rt w (.depositStakeAccount accounts j)) := by
        simpa [exec, reporting] using DepositStakeAccount.process_holds
      exact hsafe e hexec hfailure
  · rintro l w' ⟨hstep, hl⟩
    rcases hc.step hl hstep with ⟨n', t', k', hc'⟩ | ⟨left, hentered, hactive, hd, he, ht⟩
    · exact .inl ⟨n', t', k', hc'.upgrader_eq⟩
    · refine .inr ⟨left, hentered.upgrader_eq, hd, he, ht, fun v hv ↦ ⟨?_, ?_⟩, hentered.left_eq⟩
      · rw [hentered.counted_eq v hv]
        refine congrArg _ (List.filter_congr fun r hr ↦ ?_)
        simp [hactive r hr]
      · exact hentered.counted_le v hv

/-- Two records are left, and the update of the last one completes the iteration. -/
theorem upgrade_checks_sample :
    (∀ accounts i j, exec Sample.runtime Sample.detected.2 (.updateActive accounts i j)
      ≠ .error (.marinade .upgradingInvariantViolation)) ∧
    Sample.entered.state.emergencyCoolingDown = 0 ∧
    Sample.entered.state.validatorSystem.totalActiveBalance
      = total (·.lastUpdateDelegatedLamports) Sample.entered.state.stakeSystem.records := by
  have hu : Sample.detected.2.state.delinquentUpgrader
      = .iteratingStakes 1 40000000 40000000 := by
    decide +kernel
  have hphase : Sample.entered.state.delinquentUpgrader = .iteratingValidators 0 40000000 := by
    decide +kernel
  obtain ⟨hchecks, hend⟩ := upgrade_checks_of_reachable Sample.detected_reachable hu
  rcases hend (.instruction Sample.lastUpdate .silent) _
    ⟨Sample.lastUpdate_step, rfl⟩ with ⟨_, _, _, hu'⟩ | ⟨_, -, -, he, ht, -⟩
  · rw [hphase] at hu'
    cases hu'
  · exact ⟨(hchecks _ List.mem_cons_self).1, he, ht⟩

/-! ## The iteration over the validators -/

private theorem finalizing_of_reachable (h : (sparingFinalizing rt).Reachable w) :
    Grounded rt w ∧ (w.state.delinquentUpgrader = .done ∨
      ∃ n left, w.state.delinquentUpgrader = .iteratingValidators n left ∧
        Finalizing w.activeOf w.state.validatorSystem.records n left) := by
  refine h.induct (P := fun w ↦ Grounded rt w ∧ (w.state.delinquentUpgrader = .done ∨
    ∃ n left, w.state.delinquentUpgrader = .iteratingValidators n left ∧
      Finalizing w.activeOf w.state.validatorSystem.records n left)) ?_ ?_
  · rintro w ⟨left, hentered⟩
    exact ⟨hentered.toGrounded, .inr ⟨0, left, hentered.upgrader_eq, hentered.finalizing⟩⟩
  · rintro w l w' - ⟨hg, hdone | ⟨n, left, hu, hf⟩⟩ ⟨hstep, hl⟩
    · exact ⟨hg.step hstep, .inl (Step.upgrader_done hstep hg.wellFormed hdone)⟩
    · obtain ⟨n', left', hf', hu' | hdone⟩ := hf.step hg hu hl hstep
      · exact ⟨hg.step hstep, .inr ⟨n', left', hu', hf'⟩⟩
      · exact ⟨hg.step hstep, .inl hdone⟩

/-- As long as the removal of an active record spares the validators ahead, those the iteration has
passed have what their active records hold, the others still exceed it, together by what is left,
and no call of the iteration fails unless the program is paused. -/
theorem finalize_of_reachable (h : (sparingFinalizing rt).Reachable w)
    (hu : w.state.delinquentUpgrader = .iteratingValidators n left) :
    n ≤ w.state.validatorSystem.records.length ∧
    (∀ j v, w.state.validatorSystem.records[j]? = some v → j < n →
      v.delinquentUpgraderActiveBalance = 0 ∧
      v.activeBalance = total (·.lastUpdateDelegatedLamports)
        (w.state.stakeSystem.records.filter fun r ↦ r.lastUpdateStatus = .active ∧
          w.voterOf r.stakeAccount = some v.validatorAccount)) ∧
    (∀ j v, w.state.validatorSystem.records[j]? = some v → n ≤ j →
      v.delinquentUpgraderActiveBalance = total (·.lastUpdateDelegatedLamports)
        (w.state.stakeSystem.records.filter fun r ↦ r.lastUpdateStatus = .active ∧
          w.voterOf r.stakeAccount = some v.validatorAccount) ∧
      v.delinquentUpgraderActiveBalance ≤ v.activeBalance) ∧
    total (fun v ↦ v.activeBalance - v.delinquentUpgraderActiveBalance)
      (w.state.validatorSystem.records.drop n) = left ∧
    ∀ m, if w.state.paused = true then
        exec rt w (.finalizeDelinquentUpgrade m) = .error (.marinade .programIsPaused)
      else ∃ w', exec rt w (.finalizeDelinquentUpgrade m) = .ok (w', .silent) := by
  obtain ⟨-, hdone | ⟨n', left', hu', hf⟩⟩ := finalizing_of_reachable h
  · cases hu.symm.trans hdone
  cases hu.symm.trans hu'
  simp only [Chain.total_filter_active]
  refine ⟨hf.count_le, hf.settled, hf.pending, hf.left_eq, fun m ↦ ?_⟩
  split
  · rename_i hpaused
    rw [exec, onState, FinalizeDelinquentUpgrade.process, ensure, if_neg (by simp [hpaused])]
    rfl
  · rename_i hpaused
    obtain ⟨s', hs'⟩ := hf.process_ok hu (by simpa using hpaused) m
    exact ⟨{ w with state := s' }, by rw [exec, onState, bind_of_ok hs']; rfl⟩

namespace Sample

theorem entered_entered : ∃ left, Entered runtime entered left := by
  obtain ⟨cooling, hc⟩ := (consistent_of_reachable detected_reachable).2 1 40000000 40000000
    (by decide +kernel)
  rcases hc.step (by rfl) lastUpdate_step with ⟨_, _, _, hc'⟩ | ⟨left, hentered, -⟩
  · have hphase : entered.state.delinquentUpgrader = .iteratingValidators 0 40000000 := by
      decide +kernel
    rw [hc'.upgrader_eq] at hphase
    cases hphase
  · exact ⟨left, hentered⟩

/-- The iteration passes one validator. -/
def passed : List Label × World :=
  (replay runtime World.sparesPending entered [.run (.finalizeDelinquentUpgrade 1)]).get
    (by decide +kernel)

theorem passed_reachable : (sparingFinalizing runtime).Reachable passed.2 :=
  have hrun := restrict_run_of_replay (S := finalizing runtime) (fun _ _ h ↦ h) rfl
    (Option.some_get _).symm
  hrun.reachable entered_entered

/-- Before that, the account of the last record is deactivated from outside and closed. -/
def stuck : List Label × World :=
  (replay runtime (fun _ _ ↦ true) entered [
    .deactivateDelinquent (.external 30),
    .tick (startOf 6),
    .run (.updateDeactivated ⟨⟨.external 30⟩, operationalSolAccount⟩ 0 0)]).get (by decide +kernel)

theorem stuck_reachable : (finalizing runtime).Reachable stuck.2 :=
  (startingFrom_run_of_replay (Option.some_get _).symm).reachable entered_entered

end Sample

theorem finalize_sample :
    Sample.passed.2.state.validatorSystem.records.length = 2 ∧
    ∃ w', exec Sample.runtime Sample.passed.2 (.finalizeDelinquentUpgrade 1)
      = .ok (w', .silent) := by
  have hu : Sample.passed.2.state.delinquentUpgrader = .iteratingValidators 1 0 := by
    decide +kernel
  have hcall := (finalize_of_reachable Sample.passed_reachable hu).2.2.2.2 1
  rw [if_neg (by decide +kernel)] at hcall
  exact ⟨by decide +kernel, hcall⟩

/-- Once an account of a validator ahead is deactivated from outside and closed, what was counted
for the validator is more than what its records hold, and the iteration fails. -/
theorem finalize_fails : ∃ w, (finalizing Sample.runtime).Reachable w ∧
    w.state.delinquentUpgrader = .iteratingValidators 0 40000000 ∧
    w.state.stakeSystem.records = [] ∧
    w.state.validatorSystem.records.map (·.delinquentUpgraderActiveBalance) = [40000000, 0] ∧
    exec Sample.runtime w (.finalizeDelinquentUpgrade 2)
      = .error (.marinade .upgradingInvariantViolation) :=
  ⟨_, Sample.stuck_reachable, by decide +kernel, by decide +kernel, by decide +kernel, rfl⟩

end

end Marinade
