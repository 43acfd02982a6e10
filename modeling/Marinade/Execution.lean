import Marinade.Authority

/-!
# What a successful instruction has done

Every instruction has its own specification, next to its code. Here they are collected into one
relation between the world before and after, so that a property of all steps is proved by going
through its cases, and instructions with the same kind of effect share a case.
-/

open Foundation Foundation.Ledger

namespace Marinade

namespace Instruction

/-- The instructions that set a configuration. -/
def configures : Instruction → Bool
  | .changeAuthority .. | .configLp .. | .configMarinade .. | .configValidatorSystem ..
  | .pause .. | .resume .. | .reallocValidatorList .. | .reallocStakeList .. => true
  | _ => false

/-- The extra runs of the stake delta that an instruction grants. -/
def extraRuns : Instruction → Option ℕ
  | .configValidatorSystem _ extraRuns => some extraRuns
  | _ => none

/-- Whether an instruction pauses the program or resumes it. -/
def pauses : Instruction → Option Bool
  | .pause .. => some true
  | .resume .. => some false
  | _ => none

/-- Whether an instruction takes stake out of activity, and as an emergency. -/
def unstakes : Instruction → Option Bool
  | .deactivateStake .. => some false
  | .emergencyUnstake .. | .partialUnstake .. => some true
  | _ => none

end Instruction

/-- The effect of an instruction that succeeded. -/
inductive Executed (rt : Runtime) (w w' : World) : Instruction → Event → Prop
  | deposit {accounts x e} (h : Deposit.Spec accounts x w w' e) :
      Executed rt w w' (.deposit accounts x) (.deposit e)
  | depositStakeAccount {accounts j e account d v v'}
      (h : DepositStakeAccount.Spec accounts j w w' e account d v v') :
      Executed rt w w' (.depositStakeAccount accounts j) (.depositStakeAccount e)
  | withdrawStakeAccount {accounts i j x beneficiary e account d r v topUp}
      (h : WithdrawStakeAccount.Spec rt accounts i j x beneficiary w w' e account d r v topUp) :
      Executed rt w w' (.withdrawStakeAccount accounts i j x beneficiary)
        (.withdrawStakeAccount e)
  | orderUnstake {accounts x e} (h : OrderUnstake.Spec rt accounts x w w' e) :
      Executed rt w w' (.orderUnstake accounts x) (.orderUnstake e)
  | claim {accounts e rent} (h : Claim.Spec accounts w w' e rent) :
      Executed rt w w' (.claim accounts) (.claim e)
  | liquidUnstake {accounts x e} (h : LiquidUnstake.Spec accounts x w w' e) :
      Executed rt w w' (.liquidUnstake accounts x) (.liquidUnstake e)
  | addLiquidity {accounts x e} (h : AddLiquidity.Spec accounts x w w' e) :
      Executed rt w w' (.addLiquidity accounts x) (.addLiquidity e)
  | removeLiquidity {accounts x e} (h : RemoveLiquidity.Spec accounts x w w' e) :
      Executed rt w w' (.removeLiquidity accounts x) (.removeLiquidity e)
  | notStaked {accounts j found e} (h : StakeReserve.UnusedSpec accounts w w' found) :
      Executed rt w w' (.stakeReserve accounts j) e
  | stakeReserve {accounts j v x topUp e} (h : StakeReserve.Spec rt accounts j w w' v x topUp) :
      Executed rt w w' (.stakeReserve accounts j) e
  | notUnstaked {signers emergency ins e} (h : NotUnstaked signers w w')
      (hins : ins.unstakes = some emergency) (hsigners : signers ⊆ ins.signers) :
      Executed rt w w' ins e
  | unstakedWhole {signers emergency k i j account d r v ins e}
      (h : UnstakedWhole signers emergency k i j w w' account d r v)
      (hins : ins.unstakes = some emergency) (hsigners : signers ⊆ ins.signers) :
      Executed rt w w' ins e
  | unstakedSplit {emergency k k' payer i j account d r v x topUp ins e}
      (h : UnstakedSplit rt emergency k k' payer i j w w' account d r v x topUp)
      (hins : ins.unstakes = some emergency) (hsigners : [payer, k'] ⊆ ins.signers) :
      Executed rt w w' ins e
  | mergeStakes {accounts i i' j account srcAccount d sd r sr v e}
      (h : MergeStakes.Spec accounts i i' j w w' account srcAccount d sd r sr v
        e.extraDelegated) :
      Executed rt w w' (.mergeStakes accounts i i' j) (.mergeStakes e)
  | createCanonicalStake {accounts i j account d r v swept e}
      (h : CreateCanonicalStake.Spec rt accounts i j w w' account d r v swept) :
      Executed rt w w' (.createCanonicalStake accounts i j) e
  | updateActive {accounts i j account d r v v' extra fee₁ fee₂ e}
      (h : UpdateActive.Spec accounts i j w w' account d r v v' extra fee₁ fee₂) :
      Executed rt w w' (.updateActive accounts i j) e
  | updateDeactivated {accounts i j account d r r' v s₁ s₂ fee delinquent e}
      (h : UpdateDeactivated.Spec accounts i j w w' account d r r' v s₁ s₂ fee delinquent) :
      Executed rt w w' (.updateDeactivated accounts i j) e
  | finalizeDelinquentUpgrade {n e}
      (h : FinalizeDelinquentUpgrade.process n w.state = .ok w'.state)
      (frame : w'.toChain = w.toChain) : Executed rt w w' (.finalizeDelinquentUpgrade n) e
  | addValidator {accounts score topUp e} (h : AddValidator.Spec accounts score w w' topUp) :
      Executed rt w w' (.addValidator accounts score) e
  | removeValidator {accounts i vote v e} (h : RemoveValidator.Spec accounts i vote w w' v) :
      Executed rt w w' (.removeValidator accounts i vote) e
  | setValidatorScore {accounts i vote score v e}
      (h : SetValidatorScore.Spec i score w w' v) :
      Executed rt w w' (.setValidatorScore accounts i vote score) e
  | config {ins e} (hins : ins.configures = true)
      (books : w.state.Reconfigured ins.extraRuns ins.pauses w'.state)
      (frame : w'.toChain = w.toChain) : Executed rt w w' ins e
  | realloc {accounts list ins e} (hins : ins.configures = true) (hruns : ins.extraRuns = none)
      (hpauses : ins.pauses = none) (hlist : list = .stakeList ∨ list = .validatorList)
      (h : ReallocList.Spec accounts list w w')
      (hsigners : [accounts.rentFunds] ⊆ ins.signers) : Executed rt w w' ins e

section

variable {rt : Runtime} {w w' : World} {i : Instruction} {e : Event}

theorem Chain.StakesSound.funded {c : Chain} (h : c.StakesSound rt) (k : Pubkey) :
    c.Funded k := by
  intro account d ha hd
  have hsound := h k account ha
  rw [hsound.rent_eq]
  exact ⟨rt.minimumBalance_pos 200, hsound.funded d hd⟩

theorem reporting_eq_ok {α : Type} {event : α → Event}
    {x : Except Error (World × α)} (h : reporting event x = .ok (w', e)) :
    ∃ a, x = .ok (w', a) ∧ event a = e := by
  simp only [reporting, bind_eq_ok, pure_eq_ok, Prod.mk.injEq] at h
  obtain ⟨⟨w₁, a⟩, hx, rfl, he⟩ := h
  exact ⟨a, hx, he⟩

theorem silently_eq_ok {x : Except Error World} (h : silently x = .ok (w', e)) :
    x = .ok w' := by
  simp only [silently, bind_eq_ok, pure_eq_ok, Prod.mk.injEq] at h
  obtain ⟨w₁, hx, rfl, -⟩ := h
  exact hx

theorem onState_eq_ok {f : State → Except Error State}
    (h : onState w f = .ok (w', e)) : f w.state = .ok w'.state ∧ w'.toChain = w.toChain := by
  simp only [onState, bind_eq_ok, pure_eq_ok, Prod.mk.injEq] at h
  obtain ⟨s, hs, rfl, -⟩ := h
  exact ⟨hs, rfl⟩

/-- A successful instruction has one of the effects. -/
theorem executed_of_exec (h : exec rt w i = .ok (w', e)) (hsound : w.StakesSound rt) :
    Executed rt w w' i e := by
  cases i with
  | changeAuthority =>
    obtain ⟨h, hframe⟩ := onState_eq_ok h
    exact .config rfl (ChangeAuthority.process_spec h) hframe
  | configValidatorSystem =>
    obtain ⟨h, hframe⟩ := onState_eq_ok h
    exact .config rfl (ConfigValidatorSystem.process_spec h) hframe
  | configLp =>
    obtain ⟨h, hframe⟩ := onState_eq_ok h
    exact .config rfl (ConfigLp.process_spec h) hframe
  | configMarinade =>
    obtain ⟨h, hframe⟩ := onState_eq_ok h
    exact .config rfl (ConfigMarinade.process_spec h) hframe
  | pause =>
    obtain ⟨h, hframe⟩ := onState_eq_ok h
    exact .config rfl (EmergencyPause.pause_spec h) hframe
  | resume =>
    obtain ⟨h, hframe⟩ := onState_eq_ok h
    exact .config rfl (EmergencyPause.resume_spec h) hframe
  | finalizeDelinquentUpgrade =>
    obtain ⟨h, hframe⟩ := onState_eq_ok h
    exact .finalizeDelinquentUpgrade h hframe
  | addValidator =>
    obtain ⟨topUp, h⟩ := AddValidator.process_spec (silently_eq_ok h)
    exact .addValidator h
  | removeValidator =>
    obtain ⟨v, h⟩ := RemoveValidator.process_spec (silently_eq_ok h)
    exact .removeValidator h
  | setValidatorScore =>
    obtain ⟨v, h⟩ := SetValidatorScore.process_spec (silently_eq_ok h)
    exact .setValidatorScore h
  | deposit =>
    obtain ⟨a, hp, rfl⟩ := reporting_eq_ok h
    exact .deposit (Deposit.process_spec hp)
  | depositStakeAccount =>
    obtain ⟨a, hp, rfl⟩ := reporting_eq_ok h
    obtain ⟨_, _, _, _, h⟩ := DepositStakeAccount.process_spec hp
    exact .depositStakeAccount h
  | liquidUnstake =>
    obtain ⟨a, hp, rfl⟩ := reporting_eq_ok h
    exact .liquidUnstake (LiquidUnstake.process_spec hp)
  | addLiquidity =>
    obtain ⟨a, hp, rfl⟩ := reporting_eq_ok h
    exact .addLiquidity (AddLiquidity.process_spec hp)
  | removeLiquidity =>
    obtain ⟨a, hp, rfl⟩ := reporting_eq_ok h
    exact .removeLiquidity (RemoveLiquidity.process_spec hp)
  | orderUnstake =>
    obtain ⟨a, hp, rfl⟩ := reporting_eq_ok h
    exact .orderUnstake (OrderUnstake.process_spec hp)
  | claim =>
    obtain ⟨a, hp, rfl⟩ := reporting_eq_ok h
    obtain ⟨rent, h⟩ := Claim.process_spec hp
    exact .claim h
  | stakeReserve =>
    obtain ⟨a, hp, rfl⟩ := reporting_eq_ok h
    obtain ⟨-, _, h⟩ | ⟨_, _, -, _, h⟩ := StakeReserve.process_spec hp
    · exact .notStaked h
    · exact .stakeReserve h
  | updateActive =>
    obtain ⟨_, _, _, _, _, _, _, _, h⟩ :=
      UpdateActive.process_spec (silently_eq_ok h) (hsound.funded _)
    exact .updateActive h
  | updateDeactivated =>
    obtain ⟨_, _, _, _, _, _, _, _, _, h⟩ :=
      UpdateDeactivated.process_spec (silently_eq_ok h) (hsound.funded _)
    exact .updateDeactivated h
  | deactivateStake =>
    obtain ⟨a, hp, rfl⟩ := reporting_eq_ok h
    obtain ⟨-, h⟩ | ⟨_, _, _, _, h⟩ | ⟨_, _, _, _, _, _, h⟩ :=
      DeactivateStake.process_spec hp (hsound.funded _)
    · exact .notUnstaked h rfl (List.Subset.refl _)
    · exact .unstakedWhole h rfl (List.Subset.refl _)
    · exact .unstakedSplit h rfl (List.Subset.refl _)
  | emergencyUnstake =>
    obtain ⟨_, _, _, _, h⟩ := EmergencyUnstake.process_spec (silently_eq_ok h)
    exact .unstakedWhole h rfl (List.nil_subset _)
  | partialUnstake =>
    obtain h | ⟨_, _, _, _, h⟩ | ⟨_, _, _, _, _, _, h⟩ :=
      PartialUnstake.process_spec (silently_eq_ok h) (hsound.funded _)
    · exact .notUnstaked h rfl (List.subset_cons_self _ _)
    · exact .unstakedWhole h rfl (List.subset_cons_self _ _)
    · exact .unstakedSplit h rfl (List.subset_cons_self _ _)
  | mergeStakes =>
    obtain ⟨a, hp, rfl⟩ := reporting_eq_ok h
    obtain ⟨_, _, _, _, _, _, _, h, -⟩ := MergeStakes.process_spec hp (hsound.funded _)
    exact .mergeStakes h
  | createCanonicalStake =>
    obtain ⟨_, _, _, _, _, h⟩ := CreateCanonicalStake.process_spec (silently_eq_ok h)
    exact .createCanonicalStake h
  | withdrawStakeAccount =>
    obtain ⟨a, hp, rfl⟩ := reporting_eq_ok h
    obtain ⟨_, _, _, _, _, h⟩ := WithdrawStakeAccount.process_spec hp (hsound.funded _)
    exact .withdrawStakeAccount h
  | reallocValidatorList =>
    exact .realloc rfl rfl rfl (.inr rfl) (ReallocValidatorList.process_spec (silently_eq_ok h))
      (List.subset_cons_self _ _)
  | reallocStakeList =>
    exact .realloc rfl rfl rfl (.inl rfl) (ReallocStakeList.process_spec (silently_eq_ok h))
      (List.subset_cons_self _ _)

/-- Instructions take no time. -/
theorem Executed.clock_eq (h : Executed rt w w' i e) : w'.clock = w.clock := by
  cases h with
  | config _ _ hframe => rw [hframe]
  | finalizeDelinquentUpgrade _ hframe => rw [hframe]
  | realloc _ _ _ _ h => rw [h.frame]
  | _ h => rw [h.frame]

/-- The call behind a report. -/
def Event.ReportedBy (rt : Runtime) (w w' : World) (i : Instruction) : Event → Prop
  | .deposit e => ∃ (accounts : Deposit) (x : ℕ),
    i = .deposit accounts x ∧ accounts.process x w = .ok (w', e)
  | .depositStakeAccount e => ∃ (accounts : DepositStakeAccount) (j : ℕ),
    i = .depositStakeAccount accounts j ∧ accounts.process j w = .ok (w', e)
  | .withdrawStakeAccount e => ∃ (accounts : WithdrawStakeAccount) (n j x : ℕ) (k : Pubkey),
    i = .withdrawStakeAccount accounts n j x k ∧ accounts.process rt n j x k w = .ok (w', e)
  | .orderUnstake e => ∃ (accounts : OrderUnstake) (x : ℕ),
    i = .orderUnstake accounts x ∧ accounts.process rt x w = .ok (w', e)
  | .claim e => ∃ accounts : Claim, i = .claim accounts ∧ accounts.process w = .ok (w', e)
  | .liquidUnstake e => ∃ (accounts : LiquidUnstake) (x : ℕ),
    i = .liquidUnstake accounts x ∧ accounts.process x w = .ok (w', e)
  | .addLiquidity e => ∃ (accounts : AddLiquidity) (x : ℕ),
    i = .addLiquidity accounts x ∧ accounts.process x w = .ok (w', e)
  | .removeLiquidity e => ∃ (accounts : RemoveLiquidity) (x : ℕ),
    i = .removeLiquidity accounts x ∧ accounts.process x w = .ok (w', e)
  | .stakeReserve e => ∃ (accounts : StakeReserve) (j : ℕ),
    i = .stakeReserve accounts j ∧ accounts.process rt j w = .ok (w', e)
  | .deactivateStake e => ∃ (accounts : DeactivateStake) (n j : ℕ),
    i = .deactivateStake accounts n j ∧ accounts.process rt n j w = .ok (w', e)
  | .mergeStakes e => ∃ (accounts : MergeStakes) (n n' j : ℕ),
    i = .mergeStakes accounts n n' j ∧ accounts.process rt n n' j w = .ok (w', e)
  | .silent => True

/-- Every report comes from the instruction it is about. -/
theorem reportedBy_of_exec (h : exec rt w i = .ok (w', e)) : e.ReportedBy rt w w' i := by
  have silent_of_silently : ∀ {x : Except Error World},
      silently x = .ok (w', e) → e.ReportedBy rt w w' i := by
    intro x hx
    simp only [silently, bind_eq_ok, pure_eq_ok, Prod.mk.injEq] at hx
    obtain ⟨_, -, -, rfl⟩ := hx
    exact trivial
  have silent_of_onState : ∀ {f : State → Except Error State},
      onState w f = .ok (w', e) → e.ReportedBy rt w w' i := by
    intro f hf
    simp only [onState, bind_eq_ok, pure_eq_ok, Prod.mk.injEq] at hf
    obtain ⟨_, -, -, rfl⟩ := hf
    exact trivial
  cases i with
  | deposit => obtain ⟨_, hp, rfl⟩ := reporting_eq_ok h; exact ⟨_, _, rfl, hp⟩
  | depositStakeAccount => obtain ⟨_, hp, rfl⟩ := reporting_eq_ok h; exact ⟨_, _, rfl, hp⟩
  | withdrawStakeAccount =>
    obtain ⟨_, hp, rfl⟩ := reporting_eq_ok h
    exact ⟨_, _, _, _, _, rfl, hp⟩
  | orderUnstake => obtain ⟨_, hp, rfl⟩ := reporting_eq_ok h; exact ⟨_, _, rfl, hp⟩
  | claim => obtain ⟨_, hp, rfl⟩ := reporting_eq_ok h; exact ⟨_, rfl, hp⟩
  | liquidUnstake => obtain ⟨_, hp, rfl⟩ := reporting_eq_ok h; exact ⟨_, _, rfl, hp⟩
  | addLiquidity => obtain ⟨_, hp, rfl⟩ := reporting_eq_ok h; exact ⟨_, _, rfl, hp⟩
  | removeLiquidity => obtain ⟨_, hp, rfl⟩ := reporting_eq_ok h; exact ⟨_, _, rfl, hp⟩
  | stakeReserve => obtain ⟨_, hp, rfl⟩ := reporting_eq_ok h; exact ⟨_, _, rfl, hp⟩
  | deactivateStake => obtain ⟨_, hp, rfl⟩ := reporting_eq_ok h; exact ⟨_, _, _, rfl, hp⟩
  | mergeStakes => obtain ⟨_, hp, rfl⟩ := reporting_eq_ok h; exact ⟨_, _, _, _, rfl, hp⟩
  | changeAuthority | configValidatorSystem | configLp | configMarinade | pause | resume |
    finalizeDelinquentUpgrade => exact silent_of_onState h
  | _ => exact silent_of_silently h

end

end Marinade
