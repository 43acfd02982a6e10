import Marinade.Invariants.Booked

/-!
# The delinquent upgrade

The old program did not notice when an active stake account was deactivated from outside. The
upgrade finds these accounts. It first visits all stake records; what an account that is gone took
with it leaves the active total then, but stays in the record of its validator. Afterwards it visits
the validators and replaces the balance of each by what its visited records add up to.

So while the upgrade goes on the validators have more than is booked as active, and the state of the
upgrader remembers how much.
-/

open Foundation Foundation.Ledger

namespace Marinade

/-- What is known to be delinquent and still counted by the validators. -/
def DelinquentUpgraderState.delinquentBalance : DelinquentUpgraderState → ℕ
  | iteratingStakes _ _ totalDelinquentBalance => totalDelinquentBalance
  | iteratingValidators _ delinquentBalanceLeft => delinquentBalanceLeft
  | done => 0

/-- The phases in their order. -/
def DelinquentUpgraderState.phase : DelinquentUpgraderState → ℕ
  | iteratingStakes .. => 0
  | iteratingValidators .. => 1
  | done => 2

/-- A record that is booked with `x` lamports when it is added counts as visited. -/
def DelinquentUpgraderState.deposited (x : ℕ) :
    DelinquentUpgraderState → DelinquentUpgraderState
  | iteratingStakes visitedCount totalActiveBalance totalDelinquentBalance =>
    iteratingStakes (visitedCount + 1) (totalActiveBalance + x) totalDelinquentBalance
  | u => u

/-- What is deposited for the validator at `j` is added to its upgrader balance, unless the
iteration has passed it. -/
def DelinquentUpgraderState.depositedFor (j x : ℕ) : DelinquentUpgraderState → ℕ
  | iteratingStakes .. => x
  | iteratingValidators visitedCount _ => if visitedCount ≤ j then x else 0
  | done => 0

/-- The validators together have what is active and what is known to be delinquent. -/
def State.Conserved (s : State) : Prop :=
  total (·.activeBalance) s.validatorSystem.records
    = s.validatorSystem.totalActiveBalance + s.delinquentUpgrader.delinquentBalance

/-- What the upgrade is about in the record of a validator. -/
def ValidatorRecord.balances (v : ValidatorRecord) : Pubkey × ℕ × ℕ :=
  (v.validatorAccount, v.activeBalance, v.delinquentUpgraderActiveBalance)

/-- What holds of the accounts and of the two lists in every phase. -/
structure Grounded (rt : Runtime) (w : World) : Prop where
  wellFormed : WellFormed rt w
  recorded : Recorded w
  registered : Registered w

/-- A step that does nothing the upgrade is about. -/
structure Untouched (w w' : World) : Prop where
  records_eq : w'.state.stakeSystem.records = w.state.stakeSystem.records
  upgrader_eq : w'.state.delinquentUpgrader = w.state.delinquentUpgrader
  total_eq : w'.state.validatorSystem.totalActiveBalance
    = w.state.validatorSystem.totalActiveBalance
  delayed_eq : w'.state.stakeSystem.delayedUnstakeCoolingDown
    = w.state.stakeSystem.delayedUnstakeCoolingDown
  emergency_eq : w'.state.emergencyCoolingDown = w.state.emergencyCoolingDown
  balances_eq : w'.state.validatorSystem.records.map (·.balances)
    = w.state.validatorSystem.records.map (·.balances)
  voters_eq : ∀ r ∈ w.state.stakeSystem.records,
    w'.voterOf r.stakeAccount = w.voterOf r.stakeAccount

/-- What an instruction does while the upgrade goes on: only four of them do anything that it is
about. -/
inductive Upgrading (w w' : World) : Instruction → Prop
  | untouched {i} (h : Untouched w w') (stakes_eq : w'.stakes = w.stakes) : Upgrading w w' i
  | depositStakeAccount {accounts j e account d v v'}
      (h : DepositStakeAccount.Spec accounts j w w' e account d v v') :
      Upgrading w w' (.depositStakeAccount accounts j)
  | updateActive {accounts i j account d r v v' extra fee₁ fee₂}
      (h : UpdateActive.Spec accounts i j w w' account d r v v' extra fee₁ fee₂) :
      Upgrading w w' (.updateActive accounts i j)
  | updateDeactivated {accounts i j account d r r' v s₁ s₂ fee delinquent}
      (h : UpdateDeactivated.Spec accounts i j w w' account d r r' v s₁ s₂ fee delinquent) :
      Upgrading w w' (.updateDeactivated accounts i j)
  | finalizeDelinquentUpgrade {n}
      (h : FinalizeDelinquentUpgrade.process n w.state = .ok w'.state)
      (frame : w'.toChain = w.toChain) : Upgrading w w' (.finalizeDelinquentUpgrade n)

section

variable {rt : Runtime} {w w' : World} {s s' : State} {u u' : DelinquentUpgraderState}
  {v v' : ValidatorRecord} {i : Instruction} {e : Event} {l : Label} {j x y n : ℕ}

theorem Grounded.step (h : Grounded rt w) (hstep : Step rt w l w') : Grounded rt w' :=
  ⟨h.wellFormed.step hstep, h.recorded.step h.wellFormed hstep,
    h.registered.step h.wellFormed hstep⟩

/-! ## What the parts of an instruction do to the upgrader -/

theorem UpdateCommon.Progressed.delinquentBalance_eq {count active : ℕ}
    (h : UpdateCommon.Progressed count active u u') :
    u'.delinquentBalance = u.delinquentBalance := by
  unfold Progressed at h
  split at h
  · split at h
    · rw [h.2]
      rfl
    · rw [h]
  · rw [h]

theorem UpdateActive.Visited.delinquentBalance_eq {r : StakeRecord} {stake up up' : ℕ}
    (h : UpdateActive.Visited r stake u u' up up') :
    u'.delinquentBalance = u.delinquentBalance := by
  unfold Visited at h
  split at h
  · obtain ⟨_, rfl, -⟩ := h
    rfl
  · exact h.elim
  · rw [h.2.1]

theorem DepositStakeAccount.maintainUpgrader_spec
    (h : DepositStakeAccount.maintainUpgrader u j v x = .ok (u', v')) :
    (∃ up, v' = { v with delinquentUpgraderActiveBalance := up }) ∧
    u' = u.deposited x ∧
    v'.delinquentUpgraderActiveBalance
      = v.delinquentUpgraderActiveBalance + u.depositedFor j x := by
  cases u with
  | iteratingStakes visitedCount totalActiveBalance totalDelinquentBalance =>
    simp only [maintainUpgrader, bind_eq_ok, addUpTo_eq_ok, checkedAdd_eq_ok, pure_eq_ok,
      Prod.mk.injEq] at h
    obtain ⟨_, ⟨-, rfl⟩, _, ⟨-, rfl⟩, _, ⟨-, rfl⟩, rfl, rfl⟩ := h
    exact ⟨⟨_, rfl⟩, rfl, rfl⟩
  | iteratingValidators visitedCount delinquentBalanceLeft =>
    by_cases hle : visitedCount ≤ j
    · simp only [maintainUpgrader, if_pos hle, bind_eq_ok, checkedAdd_eq_ok, pure_eq_ok,
        Prod.mk.injEq] at h
      obtain ⟨_, ⟨-, rfl⟩, rfl, rfl⟩ := h
      exact ⟨⟨_, rfl⟩, rfl, by simp only [DelinquentUpgraderState.depositedFor, if_pos hle]⟩
    · simp only [maintainUpgrader, if_neg hle, Except.ok.injEq, Prod.mk.injEq] at h
      obtain ⟨rfl, rfl⟩ := h
      refine ⟨⟨_, rfl⟩, rfl, ?_⟩
      rw [DelinquentUpgraderState.depositedFor, if_neg hle, Nat.add_zero]
  | done =>
    simp only [maintainUpgrader, Except.ok.injEq, Prod.mk.injEq] at h
    obtain ⟨rfl, rfl⟩ := h
    exact ⟨⟨_, rfl⟩, rfl, rfl⟩

/-- What turns out to be delinquent is remembered. -/
theorem UpdateDeactivated.TotalsEq.delinquentBalance_eq {r r' : StakeRecord} {delinquent : ℕ}
    (h : UpdateDeactivated.TotalsEq w w' r r' delinquent) :
    w'.state.delinquentUpgrader.delinquentBalance
      = w.state.delinquentUpgrader.delinquentBalance + delinquent := by
  have hzero := h.delinquent_eq
  rw [h.progressed.delinquentBalance_eq]
  cases hu : w.state.delinquentUpgrader <;> rw [hu] at hzero
  · rfl
  · rw [hzero]
    rfl
  · rw [hzero]
    rfl

/-! ## Conservation -/

/-- Nothing of it changes. -/
theorem State.Conserved.of_sameStakeBooks (hc : s.Conserved) (h : s.SameStakeBooks s') :
    s'.Conserved := by
  rw [Conserved, h.validators_eq, h.total_eq, h.upgrader_eq]
  exact hc

/-- A validator's balance and the two amounts on the other side change alike. -/
theorem State.Conserved.of_set (hc : s.Conserved)
    (hv : s.validatorSystem.records[j]? = some v)
    (hset : s'.validatorSystem.records = s.validatorSystem.records.set j v')
    (hbalance : v'.activeBalance + x = v.activeBalance + y)
    (htotal : s'.validatorSystem.totalActiveBalance + s'.delinquentUpgrader.delinquentBalance + x
      = s.validatorSystem.totalActiveBalance + s.delinquentUpgrader.delinquentBalance + y) :
    s'.Conserved := by
  have hsum := total_set (g := (·.activeBalance)) hv v'
  unfold Conserved at hc ⊢
  rw [hset]
  omega

private theorem Unstaked.conserved {emergency : Bool} {k i account d r epoch}
    (h : Unstaked emergency k i j w w' account d r v x epoch) (hc : w.state.Conserved) :
    w'.state.Conserved := by
  have hvalidators := h.validators_eq
  obtain ⟨_, _, _, hs⟩ := h.state_eq
  refine hc.of_set h.validator hvalidators (Nat.sub_add_cancel h.validator_balance) ?_ (y := 0)
  have hle := h.total_balance
  rw [hs]
  simp only
  omega

private theorem UpdateDeactivated.Spec.conserved {accounts i account d r r' s₁ s₂ fee delinquent}
    (h : UpdateDeactivated.Spec accounts i j w w' account d r r' v s₁ s₂ fee delinquent)
    (hc : w.state.Conserved) : w'.state.Conserved := by
  have hvalidators := h.validators_eq
  have hbalance := h.totals_eq.delinquentBalance_eq
  have htotal := h.totals_eq.total_eq
  by_cases hactive : r.lastUpdateStatus = .active
  · rw [if_pos hactive] at hvalidators htotal
    refine hc.of_set h.validator hvalidators
      (Nat.sub_add_cancel (h.detected.validator_balance hactive)) ?_ (y := 0)
    omega
  · rw [if_neg hactive] at hvalidators htotal
    unfold State.Conserved at hc ⊢
    rw [hvalidators]
    omega

/-- The rounds move what is delinquent out of the balances. -/
private theorem FinalizeDelinquentUpgrade.iterate_conserved {vs vs' : ValidatorSystem}
    {visited visited' left left' : ℕ} (h : iterate n vs visited left = .ok (vs', visited', left'))
    (hc : total (·.activeBalance) vs.records = vs.totalActiveBalance + left) :
    total (·.activeBalance) vs'.records = vs'.totalActiveBalance + left' := by
  have htotal := iterate_total h
  have hframe : vs'.totalActiveBalance = vs.totalActiveBalance := by rw [iterate_frame h]
  omega

/-- Every instruction keeps it, in every phase. -/
theorem Executed.conserved (h : Executed rt w w' i e) (hc : w.state.Conserved) :
    w'.state.Conserved := by
  cases h with
  | depositStakeAccount h =>
    obtain ⟨⟨up, hv'⟩, hphase, -⟩ := DepositStakeAccount.maintainUpgrader_spec h.upgrade
    have hbalance : _ = _ := congrArg ValidatorRecord.activeBalance hv'
    refine hc.of_set h.validator h.validators_eq (x := 0) (y := _) hbalance ?_
    have hsame : w'.state.delinquentUpgrader.delinquentBalance
        = w.state.delinquentUpgrader.delinquentBalance := by
      rw [hphase]
      cases w.state.delinquentUpgrader <;> rfl
    rw [hsame, h.state_eq]
    simp only
    omega
  | withdrawStakeAccount h =>
    refine hc.of_set h.validator h.validators_eq (Nat.sub_add_cancel h.validator_balance) ?_
      (y := 0)
    have hle := h.total_balance
    rw [h.state_eq]
    simp only
    omega
  | stakeReserve h =>
    obtain ⟨_, hs⟩ := h.state_eq
    refine hc.of_set h.validator h.validators_eq (x := 0) (y := _) rfl ?_
    rw [hs]
    simp only
    omega
  | unstakedWhole h => exact h.toUnstaked.conserved hc
  | unstakedSplit h => exact h.toUnstaked.conserved hc
  | mergeStakes h =>
    refine hc.of_set h.validator h.validators_eq (x := 0) (y := _) rfl ?_
    rw [h.state_eq]
    simp only
    omega
  | createCanonicalStake h =>
    unfold State.Conserved at hc ⊢
    rw [h.state_eq]
    exact hc
  | updateActive h =>
    obtain ⟨u, hvisited, hprogressed⟩ := h.upgrader
    refine hc.of_set h.validator h.validators_eq h.validator_balance ?_
    rw [hprogressed.delinquentBalance_eq, hvisited.delinquentBalance_eq]
    have htotal := h.total_balance
    omega
  | updateDeactivated h => exact h.conserved hc
  | finalizeDelinquentUpgrade h =>
    obtain ⟨-, _, _, _, _, _, hphase, hiter, h⟩ := FinalizeDelinquentUpgrade.process_spec h
    unfold State.Conserved at hc ⊢
    rw [hphase] at hc
    have hround := FinalizeDelinquentUpgrade.iterate_conserved hiter hc
    rcases h with ⟨-, rfl, hs⟩ | ⟨-, hs⟩
    · rw [hs]
      exact hround
    · rw [hs]
      exact hround
  | addValidator h =>
    obtain ⟨_, hs⟩ := h.state_eq
    unfold State.Conserved at hc ⊢
    rw [h.validators_eq, total_append, total_cons, total_nil, hs]
    exact hc
  | removeValidator h =>
    obtain ⟨_, hs⟩ := h.state_eq
    have hremove := total_swapRemove (g := (·.activeBalance)) h.validator
    simp only [h.empty, Nat.add_zero] at hremove
    unfold State.Conserved at hc ⊢
    rw [h.validators_eq, hremove, hs]
    exact hc
  | setValidatorScore h =>
    obtain ⟨_, hs⟩ := h.state_eq
    refine hc.of_set h.validator h.validators_eq (x := 0) (y := 0) rfl ?_
    rw [hs]
  | deposit h =>
    exact hc.of_sameStakeBooks (by rw [h.state_eq]; exact { State.SameStakeBooks.refl with })
  | orderUnstake h =>
    exact hc.of_sameStakeBooks (by rw [h.state_eq]; exact { State.SameStakeBooks.refl with })
  | claim h =>
    exact hc.of_sameStakeBooks (by rw [h.state_eq]; exact { State.SameStakeBooks.refl with })
  | liquidUnstake h => exact hc.of_sameStakeBooks (by rw [h.state_eq]; exact .refl)
  | addLiquidity h =>
    exact hc.of_sameStakeBooks (by rw [h.state_eq]; exact { State.SameStakeBooks.refl with })
  | removeLiquidity h =>
    exact hc.of_sameStakeBooks (by rw [h.state_eq]; exact { State.SameStakeBooks.refl with })
  | notStaked h =>
    obtain ⟨_, hs⟩ := h.state_eq
    exact hc.of_sameStakeBooks (by rw [hs]; exact { State.SameStakeBooks.refl with })
  | notUnstaked h => exact hc.of_sameStakeBooks (by rw [h.state_eq]; exact .refl)
  | config _ books => exact hc.of_sameStakeBooks books.toSameStakeBooks
  | realloc _ _ _ _ h => exact hc.of_sameStakeBooks h.books.toSameStakeBooks

/-- Every step keeps it. -/
theorem State.Conserved.step (hc : w.state.Conserved) (hw : WellFormed rt w)
    (h : Step rt w l w') : w'.state.Conserved := by
  cases l with
  | instruction i e => exact (executed_of_exec h hw.stakes_sound).conserved hc
  | external x =>
    rw [h.2]
    exact hc

theorem Fresh.conserved (h : Fresh rt w) : w.state.Conserved := by
  obtain ⟨accounts, data, c, -, hp⟩ := h
  have hs := Initialize.process_spec hp
  obtain ⟨-, -, htotal, -⟩ := hs.books
  rw [State.Conserved, hs.validators_eq, htotal, hs.done]
  rfl

/-- In every reachable state the active balances of the validators make up the total. -/
theorem activeBalance_of_reachable (h : (marinade rt).Reachable w) :
    total (·.activeBalance) w.state.validatorSystem.records
      = w.state.validatorSystem.totalActiveBalance := by
  have hconserved : w.state.Conserved :=
    h.induct_of (P := fun w ↦ w.state.Conserved) (Q := WellFormed rt)
      (fun _ ↦ wellFormed_of_reachable) (fun _ hi _ ↦ hi.conserved)
      fun _ _ _ hw _ hc hs ↦ hc.step hw hs
  rw [hconserved, (booked_of_reachable h).done]
  rfl

/-! ## Steps of the upgrade -/

/-- Only the books of the state and the voters matter. -/
private theorem Untouched.of_books (h : w.state.SameStakeBooks w'.state)
    (hstakes : w'.stakes = w.stakes) : Untouched w w' :=
  ⟨h.records_eq, h.upgrader_eq, h.total_eq, h.delayed_eq, h.emergency_eq, by rw [h.validators_eq],
    fun _ _ ↦ Chain.voterOf_congr (congrFun hstakes _)⟩

/-- An instruction that has the same books has nothing to do with the upgrade. -/
private theorem Upgrading.of_books (h : w.state.SameStakeBooks w'.state)
    (hframe : w'.stakes = w.stakes) : Upgrading w w' i :=
  .untouched (.of_books h hframe) hframe

/-- All the other instructions wait until the upgrade is done. -/
theorem Executed.upgrading (h : Executed rt w w' i e)
    (hu : w.state.delinquentUpgrader ≠ .done) : Upgrading w w' i := by
  cases h with
  | depositStakeAccount h => exact .depositStakeAccount h
  | updateActive h => exact .updateActive h
  | updateDeactivated h => exact .updateDeactivated h
  | finalizeDelinquentUpgrade h hframe => exact .finalizeDelinquentUpgrade h hframe
  | withdrawStakeAccount h => exact absurd h.done hu
  | stakeReserve h => exact absurd h.done hu
  | unstakedWhole h => exact absurd h.done hu
  | unstakedSplit h => exact absurd h.done hu
  | mergeStakes h => exact absurd h.done hu
  | createCanonicalStake h => exact absurd h.done hu
  | addValidator h => exact absurd h.done hu
  | removeValidator h => exact absurd h.done hu
  | setValidatorScore h =>
    obtain ⟨_, hs⟩ := h.state_eq
    refine .untouched ⟨by rw [hs], by rw [hs], by rw [hs], by rw [hs], by rw [hs], ?_, ?_⟩
      (by rw [h.frame])
    · rw [h.validators_eq, map_key_set h.validator (by rfl)]
    · intro _ _
      rw [h.frame]
  | deposit h =>
    exact .of_books (by rw [h.state_eq]; exact { State.SameStakeBooks.refl with })
      (by rw [h.frame])
  | orderUnstake h =>
    exact .of_books (by rw [h.state_eq]; exact { State.SameStakeBooks.refl with })
      (by rw [h.frame])
  | claim h =>
    exact .of_books (by rw [h.state_eq]; exact { State.SameStakeBooks.refl with })
      (by rw [h.frame])
  | liquidUnstake h => exact .of_books (by rw [h.state_eq]; exact .refl) (by rw [h.frame])
  | addLiquidity h =>
    exact .of_books (by rw [h.state_eq]; exact { State.SameStakeBooks.refl with })
      (by rw [h.frame])
  | removeLiquidity h =>
    exact .of_books (by rw [h.state_eq]; exact { State.SameStakeBooks.refl with })
      (by rw [h.frame])
  | notStaked h =>
    obtain ⟨_, hs⟩ := h.state_eq
    exact .of_books (by rw [hs]; exact { State.SameStakeBooks.refl with }) (by rw [h.frame])
  | notUnstaked h => exact .of_books (by rw [h.state_eq]; exact .refl) (by rw [h.frame])
  | config _ books hframe => exact .of_books books.toSameStakeBooks (by rw [hframe])
  | realloc _ _ _ _ h => exact .of_books h.books.toSameStakeBooks (by rw [h.frame])

/-- Once the upgrade is done, it stays so. -/
private theorem Executed.upgrader_done (h : Executed rt w w' i e)
    (hu : w.state.delinquentUpgrader = .done) : w'.state.delinquentUpgrader = .done := by
  cases h with
  | depositStakeAccount h =>
    obtain ⟨-, hphase, -⟩ := DepositStakeAccount.maintainUpgrader_spec h.upgrade
    rwa [hu] at hphase
  | updateActive h =>
    obtain ⟨u, hvisited, hprogressed⟩ := h.upgrader
    rw [hu] at hvisited
    rwa [hvisited.2.1] at hprogressed
  | updateDeactivated h =>
    have hprogressed := h.totals_eq.progressed
    rwa [hu] at hprogressed
  | finalizeDelinquentUpgrade h =>
    obtain ⟨-, _, _, _, _, _, hphase, -⟩ := FinalizeDelinquentUpgrade.process_spec h
    rw [hu] at hphase
    cases hphase
  | unstakedWhole h =>
    obtain ⟨_, _, _, hs⟩ := h.state_eq
    rwa [hs]
  | unstakedSplit h =>
    obtain ⟨_, _, _, hs⟩ := h.state_eq
    rwa [hs]
  | stakeReserve h | notStaked h | addValidator h | removeValidator h | setValidatorScore h =>
    obtain ⟨_, hs⟩ := h.state_eq
    rwa [hs]
  | config _ books => rwa [books.upgrader_eq]
  | realloc _ _ _ _ h => rwa [h.books.upgrader_eq]
  | _ h => rwa [h.state_eq]

/-- No instruction takes the upgrade back to an earlier phase. -/
theorem Executed.phase_le (hexec : Executed rt w w' i e) :
    w.state.delinquentUpgrader.phase ≤ w'.state.delinquentUpgrader.phase := by
  cases hu : w.state.delinquentUpgrader with
  | iteratingStakes => exact Nat.zero_le _
  | done => rw [hexec.upgrader_done hu]
  | iteratingValidators visited left =>
    cases hexec.upgrading (by simp [hu]) with
    | untouched h => rw [h.upgrader_eq, hu]
    | depositStakeAccount h =>
      obtain ⟨-, hphase, -⟩ := DepositStakeAccount.maintainUpgrader_spec h.upgrade
      rw [hphase, hu]
      exact le_rfl
    | updateActive h =>
      obtain ⟨u, hvisited, -⟩ := h.upgrader
      rw [hu] at hvisited
      exact hvisited.elim
    | updateDeactivated h =>
      have hprogressed := h.totals_eq.progressed
      rw [hu] at hprogressed
      rw [show w'.state.delinquentUpgrader = _ from hprogressed]
    | finalizeDelinquentUpgrade h =>
      obtain ⟨-, _, _, _, _, _, -, -, ⟨-, -, hs⟩ | ⟨-, hs⟩⟩ :=
        FinalizeDelinquentUpgrade.process_spec h
      · rw [hs]
        exact Nat.le_succ 1
      · rw [hs]
        exact le_rfl

theorem Step.upgrader_done (h : Step rt w l w') (hw : WellFormed rt w)
    (hu : w.state.delinquentUpgrader = .done) : w'.state.delinquentUpgrader = .done := by
  cases l with
  | instruction i e => exact (executed_of_exec h hw.stakes_sound).upgrader_done hu
  | external x => rw [h.2, hu]

theorem Step.phase_le (h : Step rt w l w') (hw : WellFormed rt w) :
    w.state.delinquentUpgrader.phase ≤ w'.state.delinquentUpgrader.phase := by
  cases l with
  | instruction i e => exact (executed_of_exec h hw.stakes_sound).phase_le
  | external x => rw [h.2]

/-- The phases only go forwards, so the iteration over the records does not start again. -/
theorem Step.iteratingStakes {n' t' k' : ℕ} (h : Step rt w l w') (hw : WellFormed rt w)
    (hu : w'.state.delinquentUpgrader = .iteratingStakes n' t' k') :
    ∃ n t k, w.state.delinquentUpgrader = .iteratingStakes n t k := by
  have hphase := h.phase_le hw
  rw [hu] at hphase
  cases hu : w.state.delinquentUpgrader with
  | iteratingStakes n t k => exact ⟨n, t, k, rfl⟩
  | iteratingValidators =>
    rw [hu] at hphase
    exact absurd hphase (Nat.not_succ_le_zero _)
  | done =>
    rw [hu] at hphase
    exact absurd hphase (Nat.not_succ_le_zero _)

/-- What happens outside leaves the books alone, and every listed account its voter. -/
theorem External.untouched {x : External} (h : x.Happens rt w.toChain w'.toChain)
    (hs : w'.state = w.state) (hr : Recorded w) : Untouched w w' := by
  refine ⟨by rw [hs], by rw [hs], by rw [hs], by rw [hs], by rw [hs], by rw [hs], fun r hmem ↦ ?_⟩
  exact (External.lists h (hr.listed r hmem)).2

end

end Marinade
