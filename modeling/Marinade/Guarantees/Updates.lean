import Marinade.Invariants.Flows
import Marinade.Replay

/-!
# What an update counts

An update brings the books in line with what a bot finds: the reserve, the delegation of one stake
account and the lamports beyond it. Whatever route the amounts take through the totals, the lamports
under control change by what was found less what was remembered.

Parallel bots may update the same account twice. Nothing is counted again then, because the first
update leaves nothing to find.
-/

open Foundation Foundation.Ledger

namespace Marinade

/-- What realigning adds to the reserve. -/
def World.realignment (w : World) : ℤ :=
  w.lamportsOf .reserve - w.state.rentExemptForTokenAcc - w.state.availableReserveBalance

section

variable {rt : Runtime} {w w' : World} {s s' : State} {i j x : ℕ} {e : Event}
  {account : StakeAccount} {d : Delegation} {r r' : StakeRecord} {v v' : ValidatorRecord}

/-! ## Accounting -/

theorem World.realigned_controlled (hrent : w.state.rentExemptForTokenAcc ≤ w.lamportsOf .reserve) :
    (w.realigned.controlled : ℤ) = w.state.controlled + w.realignment := by
  simp only [World.realigned, State.controlled, World.realignment]
  omega

namespace UpdateCommon

variable {accounts : UpdateCommon}

theorem withdrawToReserve_state (h : withdrawToReserve rt accounts x w = .ok w') :
    w'.state = { w.state with
      availableReserveBalance := w.state.availableReserveBalance + x } := by
  unfold withdrawToReserve at h
  split at h
  · simp only [bind_eq_ok, State.onTransferToReserve_eq_ok, pure_eq_ok] at h
    obtain ⟨_, -, _, ⟨-, rfl⟩, rfl⟩ := h
    rfl
  · cases h
    obtain rfl : x = 0 := by omega
    rfl

theorem mintProtocolFeesIf_controlled {ready : Bool} (h : mintProtocolFeesIf ready x w = .ok w') :
    w'.state.controlled = w.state.controlled ∧ w'.lamports = w.lamports := by
  obtain ⟨_, _, -, -, -, rfl⟩ := mintProtocolFeesIf_spec h
  exact ⟨rfl, rfl⟩

/-- The price is only computed from lamports that fit in 64 bits. -/
theorem updateMsolPrice_controlled (h : updateMsolPrice s = .ok s') :
    s'.controlled = s.controlled ∧ s.controlled ≤ u64Max := by
  simp only [updateMsolPrice, bind_eq_ok, State.msolToSol_eq_ok, pure_eq_ok] at h
  obtain ⟨_, ⟨hle, -⟩, rfl⟩ := h
  exact ⟨rfl, hle⟩

theorem progression_controlled (h : checkDelinquentUpgradeStateProgression s = .ok s') :
    s'.controlled = s.controlled := by
  obtain ⟨_, -, rfl⟩ := progression_spec h
  rfl

end UpdateCommon

namespace UpdateActive

variable {accounts : UpdateCommon}

theorem collectExtra_controlled {ready : Bool}
    (h : collectExtra rt accounts ready x w = .ok w') :
    w'.state.controlled = w.state.controlled + x := by
  unfold collectExtra at h
  split at h
  · obtain ⟨w₁, h₁, h₂⟩ := bind_eq_ok.mp h
    rw [(UpdateCommon.mintProtocolFeesIf_controlled h₂).1, UpdateCommon.withdrawToReserve_state h₁]
    exact (Nat.add_assoc _ _ _).symm
  · cases h
    omega

theorem finish_controlled (h : finish i j r v w = .ok w') :
    w'.state.controlled = w.state.controlled ∧ w.state.controlled ≤ u64Max := by
  simp only [finish, bind_eq_ok, pure_eq_ok] at h
  obtain ⟨vs, hvs, s, hs, ss, hss, _, -, -, -, s', hs', rfl⟩ := h
  obtain ⟨hprice, hle⟩ := UpdateCommon.updateMsolPrice_controlled hs
  have hprogress := UpdateCommon.progression_controlled hs'
  rw [(ValidatorSystem.set_eq_ok hvs).1] at hprice hle
  rw [(StakeSystem.set_eq_ok hss).1] at hprogress
  exact ⟨hprogress.trans hprice, hle⟩

/-- The lamports under control change by what the update finds. -/
theorem process_controlled (h : process rt accounts i j w = .ok w') :
    ∃ account d r v, UpdateCommon.Begun accounts i j w account d r v ∧
      w.state.controlled ≤ u64Max ∧ w'.state.controlled ≤ u64Max ∧
      w'.state.controlled + r.lastUpdateDelegatedLamports = w.realigned.controlled
        + (w.lamportsOf accounts.stakeAccount - account.stakeMeta.rentExemptReserve - d.stake)
        + d.stake := by
  simp only [process, bind_eq_ok, ensure_eq_ok, exists_const, checkedSub_eq_ok,
    State.totalVirtualStakedLamports_eq_ok] at h
  obtain ⟨-, hphase, _, ⟨hle, -⟩, b, hb, -, hstatus, ⟨r₁, v₁, s₁⟩, hup, balance, ⟨-, rfl⟩, w₂, h₂,
    ⟨v₃, w₃⟩, h₃, h₄⟩ := h
  have hiterating : w.state.delinquentUpgrader.isIteratingValidators = false := by
    simpa using hphase
  obtain ⟨rfl, up, u, rfl, rfl, -⟩ := delinquentUpgrade_spec hup hstatus hiterating
  have hextra := collectExtra_controlled h₂
  obtain ⟨_, _, _, _, _, total, -, -, -, -, -, htotal, -, rfl⟩ := bookDelegation_spec h₃
  obtain ⟨hfinish, hle'⟩ := finish_controlled h₄
  refine ⟨_, _, _, _, UpdateCommon.begin_spec hb, hle, hfinish ▸ hle', ?_⟩
  rw [hfinish]
  unfold State.controlled at hextra ⊢
  simp only at htotal hextra ⊢
  omega

end UpdateActive

namespace UpdateDeactivated

variable {accounts : UpdateDeactivated}

theorem close_controlled {rent : ℕ} (hrent : rent ≤ w.lamportsOf accounts.stakeAccount)
    (h : close rt accounts rent w = .ok w') :
    w'.state.controlled
      = w.state.controlled + (w.lamportsOf accounts.stakeAccount - rent) := by
  simp only [close, bind_eq_ok, State.onTransferFromReserve_eq_ok, pure_eq_ok] at h
  obtain ⟨w₁, h₁, _, -, _, ⟨-, rfl⟩, rfl⟩ := h
  rw [UpdateCommon.withdrawToReserve_state h₁]
  simp only [State.controlled]
  omega

theorem finish_controlled (h : finish i w = .ok w') :
    w'.state.controlled = w.state.controlled ∧ w.state.controlled ≤ u64Max := by
  simp only [finish, bind_eq_ok, pure_eq_ok] at h
  obtain ⟨s, hs, ss, hss, s', hs', rfl⟩ := h
  obtain ⟨hprice, hle⟩ := UpdateCommon.updateMsolPrice_controlled hs
  have hprogress := UpdateCommon.progression_controlled hs'
  rw [(StakeSystem.remove_eq_ok hss).1] at hprogress
  exact ⟨hprogress.trans hprice, hle⟩

/-- The same for an account that is closed, whatever its record says. -/
theorem process_controlled (h : process rt accounts i j w = .ok w') :
    ∃ account d r v, UpdateCommon.Begun accounts.toUpdateCommon i j w account d r v ∧
      account.stakeMeta.rentExemptReserve ≤ w.lamportsOf accounts.stakeAccount ∧
      w.state.controlled ≤ u64Max ∧ w'.state.controlled ≤ u64Max ∧
      w'.state.controlled + r.lastUpdateDelegatedLamports = w.realigned.controlled
        + (w.lamportsOf accounts.stakeAccount - account.stakeMeta.rentExemptReserve) := by
  simp only [process, bind_eq_ok, ensure_eq_ok, exists_const, checkedSub_eq_ok,
    State.totalVirtualStakedLamports_eq_ok] at h
  obtain ⟨-, -, _, ⟨hle, -⟩, b, hb, -, ⟨r₁, s₁⟩, hdetect, _, ⟨hrent, rfl⟩, w₁, h₁, w₂, h₂, s₂, h₃,
    h₄⟩ := h
  have hdetected := detectDelinquent_spec hdetect
  obtain ⟨hmint, hlamports⟩ := UpdateCommon.mintProtocolFeesIf_controlled h₁
  have hsame : w₁.lamportsOf accounts.stakeAccount = w.lamportsOf accounts.stakeAccount := by
    rw [Chain.lamportsOf, hlamports]
  have hclose := close_controlled (hsame ▸ hrent) h₂
  rw [hsame] at hclose
  obtain ⟨_, hbooked⟩ := bookOutSome_spec h₃
  obtain ⟨hfinish, hle'⟩ := finish_controlled h₄
  refine ⟨_, _, _, _, UpdateCommon.begin_spec hb, hrent, hle, hfinish ▸ hle', ?_⟩
  have hlast : r₁.lastUpdateDelegatedLamports = b.stake.lastUpdateDelegatedLamports := by
    rw [hdetected.record_eq]
  have hout := hbooked.controlled_eq
  have hin := hdetected.controlled_eq
  simp only at hmint hout hfinish
  omega

end UpdateDeactivated

/-- A successful update changes the lamports under control by what it finds: in the reserve, in the
stake account beyond the delegation or its rent, and in the delegation itself. -/
theorem update_accounting
    (hrent : w.state.rentExemptForTokenAcc ≤ w.lamportsOf .reserve) :
    (∀ accounts, exec rt w (.updateActive accounts i j) = .ok (w', e) →
      ∃ account d r v x x', UpdateCommon.Begun accounts i j w account d r v ∧
        w.state.totalLamportsUnderControl = .ok x ∧
        w'.state.totalLamportsUnderControl = .ok x' ∧
        (x' : ℤ) - x = w.realignment
          + (w.lamportsOf accounts.stakeAccount - account.stakeMeta.rentExemptReserve
            - d.stake : ℕ)
          + (d.stake - r.lastUpdateDelegatedLamports)) ∧
    (∀ accounts, exec rt w (.updateDeactivated accounts i j) = .ok (w', e) →
      ∃ account d r v x x',
        UpdateCommon.Begun accounts.toUpdateCommon i j w account d r v ∧
        w.state.totalLamportsUnderControl = .ok x ∧
        w'.state.totalLamportsUnderControl = .ok x' ∧
        (x' : ℤ) - x = w.realignment
          + (w.lamportsOf accounts.stakeAccount - account.stakeMeta.rentExemptReserve
            - r.lastUpdateDelegatedLamports)) := by
  have hrealigned := World.realigned_controlled hrent
  refine ⟨fun accounts he ↦ ?_, fun accounts he ↦ ?_⟩
  · obtain ⟨account, d, r, v, hbegun, hle, hle', heq⟩ :=
      UpdateActive.process_controlled (silently_eq_ok he)
    refine ⟨account, d, r, v, _, _, hbegun,
      State.totalLamportsUnderControl_eq_ok.mpr ⟨hle, rfl⟩,
      State.totalLamportsUnderControl_eq_ok.mpr ⟨hle', rfl⟩, ?_⟩
    omega
  · obtain ⟨account, d, r, v, hbegun, hrent', hle, hle', heq⟩ :=
      UpdateDeactivated.process_controlled (silently_eq_ok he)
    refine ⟨account, d, r, v, _, _, hbegun,
      State.totalLamportsUnderControl_eq_ok.mpr ⟨hle, rfl⟩,
      State.totalLamportsUnderControl_eq_ok.mpr ⟨hle', rfl⟩, ?_⟩
    omega

end

/-! ## Two accounts to update -/

namespace Sample

/-- Two accounts of one validator. One earns rewards, the other is deactivated from outside. -/
def visiting : List Action := staking ++ [
  .tick (startOf 3),
  .run (.deposit ⟨user, treasury⟩ 40000000),
  .run (.stakeReserve ⟨vote, .external 31, user⟩ 0),
  .reward (.external 30) 5000000,
  .deactivateDelinquent (.external 31),
  .tick (startOf 5)]

def visited : List Label × World :=
  (replay runtime (fun _ _ ↦ true) fresh visiting).get (by decide +kernel)

theorem visited_reachable : (marinade runtime).Reachable visited.2 :=
  (run_of_replay (Option.some_get _).symm).reachable fresh_fresh

def rewarding : Instruction :=
  .updateActive ⟨.external 30⟩ 0 0

def closing : Instruction :=
  .updateDeactivated ⟨⟨.external 31⟩, operationalSolAccount⟩ 1 0

theorem rewarding_isSome : (exec runtime visited.2 rewarding).toOption.isSome = true := by
  decide +kernel

theorem closing_isSome : (exec runtime visited.2 closing).toOption.isSome = true := by
  decide +kernel

end Sample

private theorem begun_amounts {accounts : UpdateCommon} {i j rent stake last : ℕ}
    {account : StakeAccount} {d : Delegation} {r : StakeRecord} {v : ValidatorRecord}
    (h : UpdateCommon.Begun accounts i j Sample.visited.2 account d r v)
    (ha : (Sample.visited.2.stakes accounts.stakeAccount).map (fun a ↦
      (a.stakeMeta.rentExemptReserve, a.delegation.map (·.stake))) = some (rent, some stake))
    (hr : Sample.visited.2.state.stakeSystem.records[i]?.map (·.lastUpdateDelegatedLamports)
      = some last) :
    account.stakeMeta.rentExemptReserve = rent ∧ d.stake = stake ∧
      r.lastUpdateDelegatedLamports = last := by
  rw [h.account_eq] at ha
  rw [h.record] at hr
  simpa [h.delegation_eq, and_assoc] using And.intro ha hr

/-- The rewards are five million lamports; the other account is worth what was remembered. -/
theorem update_accounting_sample :
    (∃ w' e x x', exec Sample.runtime Sample.visited.2 Sample.rewarding = .ok (w', e) ∧
      Sample.visited.2.state.totalLamportsUnderControl = .ok x ∧
      w'.state.totalLamportsUnderControl = .ok x' ∧ x' = x + 5000000) ∧
    (∃ w' e x x', exec Sample.runtime Sample.visited.2 Sample.closing = .ok (w', e) ∧
      Sample.visited.2.state.totalLamportsUnderControl = .ok x ∧
      w'.state.totalLamportsUnderControl = .ok x' ∧ x' = x) := by
  have hrent : Sample.visited.2.state.rentExemptForTokenAcc
      ≤ Sample.visited.2.lamportsOf .reserve := by decide +kernel
  have hrealigned : Sample.visited.2.realignment = 0 := by decide +kernel
  constructor
  · obtain ⟨account, d, r, v, x, x', hbegun, hx, hx', heq⟩ :=
      (update_accounting hrent).1 _ (eq_ok_get Sample.rewarding_isSome)
    refine ⟨_, _, x, x', eq_ok_get Sample.rewarding_isSome, hx, hx', ?_⟩
    have hlamports : Sample.visited.2.lamportsOf (.external 30) = 67282880 := by decide +kernel
    obtain ⟨hreserve, hstake, hlast⟩ : account.stakeMeta.rentExemptReserve = 2282880 ∧
        d.stake = 65000000 ∧ r.lastUpdateDelegatedLamports = 60000000 :=
      begun_amounts hbegun (by decide +kernel) (by decide +kernel)
    simp only [hlamports, hreserve, hstake, hlast, hrealigned] at heq
    omega
  · obtain ⟨account, d, r, v, x, x', hbegun, hx, hx', heq⟩ :=
      (update_accounting hrent).2 _ (eq_ok_get Sample.closing_isSome)
    refine ⟨_, _, x, x', eq_ok_get Sample.closing_isSome, hx, hx', ?_⟩
    have hlamports : Sample.visited.2.lamportsOf (.external 31) = 42282880 := by decide +kernel
    obtain ⟨hreserve, -, hlast⟩ : account.stakeMeta.rentExemptReserve = 2282880 ∧
        d.stake = 40000000 ∧ r.lastUpdateDelegatedLamports = 40000000 :=
      begun_amounts hbegun (by decide +kernel) (by decide +kernel)
    simp only [hlamports, hreserve, hlast, hrealigned] at heq
    omega

section

variable {rt : Runtime} {w w' : World} {s s' : State} {i j x : ℕ} {e : Event}
  {account : StakeAccount} {d : Delegation} {r r' : StakeRecord} {v v' : ValidatorRecord}

/-! ## Repetition -/

theorem UpdateCommon.progression_again (h : checkDelinquentUpgradeStateProgression s = .ok s') :
    checkDelinquentUpgradeStateProgression s' = .ok s' := by
  have h' := h
  unfold checkDelinquentUpgradeStateProgression at h
  cases hu : s.delinquentUpgrader with
  | iteratingStakes visited active delinquent =>
    simp only [hu] at h
    split at h
    · rw [ensure_bind_eq_ok, pure_eq_ok] at h
      obtain ⟨-, rfl⟩ := h
      rfl
    · cases h
      exact h'
  | iteratingValidators visited left =>
    simp only [hu] at h
    cases h
    exact h'
  | done =>
    simp only [hu] at h
    cases h
    exact h'

/-- The price only depends on what it is computed from. -/
theorem UpdateCommon.updateMsolPrice_again {t : State} (h : updateMsolPrice s = .ok s')
    (hc : t.controlled = s.controlled)
    (ht : t.circulatingTicketBalance = s.circulatingTicketBalance)
    (hm : t.msolSupply = s.msolSupply) (hp : t.msolPrice = s'.msolPrice) :
    updateMsolPrice t = .ok t := by
  simp only [updateMsolPrice, bind_eq_ok, State.msolToSol_eq_ok, pure_eq_ok] at h ⊢
  obtain ⟨price, ⟨hle, hprice⟩, rfl⟩ := h
  have hv : t.virtualStaked = s.virtualStaked := by
    rw [State.virtualStaked, hc, ht, State.virtualStaked]
  obtain rfl : t.msolPrice = price := hp
  exact ⟨_, ⟨hc ▸ hle, by rw [hv, hm]; exact hprice⟩, rfl⟩

/-- There is no fee on nothing, at any price. -/
theorem UpdateCommon.mintProtocolFeesIf_zero {ready : Bool} (h : w.state.controlled ≤ u64Max) :
    mintProtocolFeesIf ready 0 w = .ok w := by
  have hfee : w.state.calcMsolFromLamports (w.state.rewardFee.apply 0) = .ok 0 := by
    rw [State.calcMsolFromLamports_eq_ok]
    refine ⟨h, ?_⟩
    simp [Fee.apply, sharesFromValue, proportional]
  unfold mintProtocolFeesIf
  split
  · rw [mintProtocolFees, hfee]
    rfl
  · rfl

theorem UpdateCommon.begin_of_begun {accounts : UpdateCommon}
    (h : Begun accounts i j w account d r v)
    (hle : w.state.availableReserveBalance + w.state.rentExemptForTokenAcc ≤ u64Max) :
    accounts.begin i j w = .ok ⟨account, d, r, v, w.getTreasuryMsolBalance.isSome⟩ := by
  simp only [begin, bind_eq_ok, orError_eq_ok, checkedAdd_eq_ok, pure_eq_ok,
    StakeSystem.getChecked_eq_ok, ValidatorSystem.getChecked_eq_ok]
  exact ⟨account, h.account_eq, _, ⟨hle, rfl⟩, r, ⟨h.record, h.record_key⟩, d, h.delegation_eq, v,
    ⟨h.validator, h.voter⟩, rfl⟩

/-- There is nothing to realign. -/
theorem World.realigned_eq_self
    (hreserve : w.state.availableReserveBalance + w.state.rentExemptForTokenAcc
      = w.lamportsOf .reserve) (hsupply : w.state.msolSupply = w.msol.supply) :
    w.realigned = w.state := by
  have havailable : w.lamportsOf .reserve - w.state.rentExemptForTokenAcc
      = w.state.availableReserveBalance := by omega
  rw [World.realigned, havailable, ← hsupply, if_neg (Nat.lt_irrefl _)]

namespace UpdateActive

variable {accounts : UpdateCommon}

/-- What is booked for the validator and for the upgrade fits in fields of 64 bits. -/
structure Fits (v : ValidatorRecord) (u : DelinquentUpgraderState) : Prop where
  active : v.activeBalance ≤ u64Max
  upgrader : ∀ visitedCount totalActiveBalance totalDelinquentBalance,
    u = .iteratingStakes visitedCount totalActiveBalance totalDelinquentBalance →
    v.delinquentUpgraderActiveBalance ≤ u64Max ∧ totalActiveBalance ≤ u64Max

theorem delinquentUpgrade_fits (h : delinquentUpgrade r v s = .ok (r', v', s'))
    (hf : Fits v s.delinquentUpgrader) : Fits v' s'.delinquentUpgrader := by
  unfold delinquentUpgrade at h
  split at h
  · cases hu : s.delinquentUpgrader with
    | iteratingStakes visited active delinquent =>
      simp only [hu, bind_eq_ok, addUpTo_eq_ok, checkedAdd_eq_ok, ensure_eq_ok, pure_eq_ok,
        exists_const] at h
      obtain ⟨_, -, total, ⟨htotal, rfl⟩, -, up, ⟨hup, rfl⟩, -, h⟩ := h
      cases h
      exact ⟨hf.active, fun _ _ _ heq ↦ by cases heq; exact ⟨hup, htotal⟩⟩
    | iteratingValidators => simp [hu] at h
    | done => simp [hu] at h
  · cases h
    exact hf

theorem collectExtra_upgrader {ready : Bool} (h : collectExtra rt accounts ready x w = .ok w') :
    w'.state.delinquentUpgrader = w.state.delinquentUpgrader := by
  unfold collectExtra at h
  split at h
  · obtain ⟨w₁, h₁, h₂⟩ := bind_eq_ok.mp h
    obtain ⟨_, _, -, -, -, rfl⟩ := UpdateCommon.mintProtocolFeesIf_spec h₂
    have hstate := UpdateCommon.withdrawToReserve_state h₁
    simp only [hstate]
  · cases h
    rfl

private theorem onRewards_fits (h : delinquentUpgradeOnRewards v x s = .ok (v', s'))
    (hv : v.activeBalance ≤ u64Max) : Fits v' s'.delinquentUpgrader := by
  cases hu : s.delinquentUpgrader with
  | iteratingStakes visited active delinquent =>
    simp only [delinquentUpgradeOnRewards, hu, bind_eq_ok, checkedAdd_eq_ok, pure_eq_ok] at h
    obtain ⟨up, ⟨hup, rfl⟩, total, ⟨htotal, rfl⟩, h⟩ := h
    cases h
    exact ⟨hv, fun _ _ _ heq ↦ by cases heq; exact ⟨hup, htotal⟩⟩
  | iteratingValidators =>
    simp only [delinquentUpgradeOnRewards, hu] at h
    cases h
    exact ⟨hv, fun _ _ _ heq ↦ by rw [hu] at heq; cases heq⟩
  | done =>
    simp only [delinquentUpgradeOnRewards, hu] at h
    cases h
    exact ⟨hv, fun _ _ _ heq ↦ by rw [hu] at heq; cases heq⟩

private theorem onSlash_fits (h : delinquentUpgradeOnSlash v x s = .ok (v', s'))
    (hf : Fits v s.delinquentUpgrader) : Fits v' s'.delinquentUpgrader := by
  cases hu : s.delinquentUpgrader with
  | iteratingStakes visited active delinquent =>
    obtain ⟨hup, hactive⟩ := hf.upgrader _ _ _ hu
    simp only [delinquentUpgradeOnSlash, hu, bind_eq_ok, checkedSub_eq_ok, pure_eq_ok] at h
    obtain ⟨up, ⟨-, rfl⟩, total, ⟨-, rfl⟩, h⟩ := h
    cases h
    exact ⟨hf.active, fun _ _ _ heq ↦ by
      cases heq; exact ⟨(Nat.sub_le _ _).trans hup, (Nat.sub_le _ _).trans hactive⟩⟩
  | iteratingValidators =>
    simp only [delinquentUpgradeOnSlash, hu] at h
    cases h
    exact hf
  | done =>
    simp only [delinquentUpgradeOnSlash, hu] at h
    cases h
    exact hf

theorem bookDelegation_fits {ready : Bool} {last : ℕ}
    (h : bookDelegation ready x last v w = .ok (v', w'))
    (hf : Fits v w.state.delinquentUpgrader) : Fits v' w'.state.delinquentUpgrader := by
  unfold bookDelegation at h
  split at h
  · simp only [bookRewards, bind_eq_ok, checkedAdd_eq_ok, pure_eq_ok] at h
    obtain ⟨_, -, active, ⟨hactive, rfl⟩, total, -, upgraded, hup, h⟩ := h
    cases h
    exact onRewards_fits hup hactive
  · simp only [bookSlash, bind_eq_ok, checkedSub_eq_ok, pure_eq_ok] at h
    obtain ⟨active, ⟨-, rfl⟩, total, -, upgraded, hup, h⟩ := h
    cases h
    exact onSlash_fits hup ⟨(Nat.sub_le _ _).trans hf.active, hf.upgrader⟩

/-- Nothing is booked for a delegation that has not changed. -/
theorem bookDelegation_self {ready : Bool} (hle : w.state.controlled ≤ u64Max)
    (hf : Fits v w.state.delinquentUpgrader) : bookDelegation ready x x v w = .ok (v, w) := by
  have htotal : w.state.validatorSystem.totalActiveBalance ≤ u64Max := by
    rw [State.controlled] at hle
    omega
  have hrewards : delinquentUpgradeOnRewards v 0 w.state = .ok (v, w.state) := by
    cases hu : w.state.delinquentUpgrader with
    | iteratingStakes visited active delinquent =>
      obtain ⟨hup, hactive⟩ := hf.upgrader _ _ _ hu
      simp only [delinquentUpgradeOnRewards, hu, bind_eq_ok, checkedAdd_eq_ok, pure_eq_ok]
      exact ⟨_, ⟨hup, rfl⟩, _, ⟨hactive, rfl⟩, by rw [Nat.add_zero, Nat.add_zero, ← hu]⟩
    | iteratingValidators => simp only [delinquentUpgradeOnRewards, hu]
    | done => simp only [delinquentUpgradeOnRewards, hu]
  rw [bookDelegation, if_pos le_rfl, Nat.sub_self]
  simp only [bookRewards, bind_eq_ok, checkedAdd_eq_ok, pure_eq_ok]
  exact ⟨w, UpdateCommon.mintProtocolFeesIf_zero hle, _, ⟨hf.active, rfl⟩, _, ⟨htotal, rfl⟩,
    (v, w.state), hrewards, rfl⟩

/-- What is stored is found there, and storing it again changes nothing. -/
theorem finish_again (h : finish i j r v w = .ok w') :
    w'.state.stakeSystem.records[i]? = some r ∧ w'.state.validatorSystem.records[j]? = some v ∧
    w'.state.availableReserveBalance + w'.state.rentExemptForTokenAcc ≤ u64Max ∧
    finish i j r v w' = .ok w' := by
  have hcontrolled := (finish_controlled h).1
  simp only [finish, bind_eq_ok, checkedAdd_eq_ok, ensure_eq_ok, pure_eq_ok, exists_const] at h
  obtain ⟨vs, hvs, s, hs, ss, hss, _, ⟨hle, rfl⟩, haligned, s', hs', rfl⟩ := h
  obtain ⟨price, hprice⟩ := UpdateCommon.updateMsolPrice_spec hs
  obtain ⟨u, -, hu⟩ := UpdateCommon.progression_spec hs'
  have htotal := (ValidatorSystem.set_eq_ok hvs).1
  obtain rfl : vs = s'.validatorSystem := by rw [hu, hprice]
  obtain rfl : ss = s'.stakeSystem := by rw [hu]
  have hreserve : s'.availableReserveBalance + s'.rentExemptForTokenAcc
      = s.availableReserveBalance + s.rentExemptForTokenAcc := by rw [hu]
  have hagain : UpdateCommon.updateMsolPrice s' = .ok s' := by
    refine UpdateCommon.updateMsolPrice_again hs ?_ ?_ ?_ ?_
    · refine hcontrolled.trans ?_
      rw [htotal]
      rfl
    all_goals rw [hu, hprice]
  refine ⟨StakeSystem.get_of_set hss, ValidatorSystem.get_of_set hvs, hreserve ▸ hle, ?_⟩
  simp only [finish, bind_eq_ok, checkedAdd_eq_ok, ensure_eq_ok, pure_eq_ok, exists_const]
  exact ⟨s'.validatorSystem, ValidatorSystem.set_again hvs, s', hagain, s'.stakeSystem,
    StakeSystem.set_again hss, _, ⟨hreserve ▸ hle, rfl⟩, hreserve ▸ haligned, s',
    UpdateCommon.progression_again hs', rfl⟩

theorem delinquentUpgrade_active (h : r.lastUpdateStatus = .active) :
    delinquentUpgrade r v s = .ok (r, v, s) :=
  if_neg (by rw [h]; nofun)

theorem Spec.paused_eq {extra fee₁ fee₂ : ℕ}
    (h : Spec accounts i j w w' account d r v v' extra fee₁ fee₂) : w'.state.paused = false := by
  obtain ⟨_, hstate⟩ := h.state_eq
  rw [hstate]
  exact h.not_paused

/-- Only the iteration over the stake accounts leads to the one over the validators. -/
theorem Spec.isIteratingStakes {extra fee₁ fee₂ : ℕ}
    (h : Spec accounts i j w w' account d r v v' extra fee₁ fee₂)
    (hphase : w'.state.delinquentUpgrader.isIteratingValidators = true) :
    w.state.delinquentUpgrader.isIteratingStakes = true := by
  obtain ⟨u, hvisited, hprogressed⟩ := h.upgrader
  cases hu : w.state.delinquentUpgrader with
  | iteratingStakes => rfl
  | iteratingValidators =>
    rw [hu] at hvisited
    exact hvisited.elim
  | done =>
    rw [hu] at hvisited
    obtain ⟨-, rfl, -⟩ := hvisited
    rw [UpdateCommon.progressed_done.mp hprogressed] at hphase
    cases hphase

/-- What the first update leaves for a second one: no lamports beyond the delegation, and a reserve
and a supply that are as booked. -/
theorem Spec.settled {extra fee₁ fee₂ : ℕ}
    (h : Spec accounts i j w w' account d r v v' extra fee₁ fee₂) :
    w'.realigned = w'.state ∧
    account.stakeMeta.rentExemptReserve ≤ w'.lamportsOf accounts.stakeAccount ∧
    w'.lamportsOf accounts.stakeAccount - account.stakeMeta.rentExemptReserve - d.stake = 0 := by
  obtain ⟨price, hstate⟩ := h.state_eq
  have hrent : w'.state.rentExemptForTokenAcc = w.state.rentExemptForTokenAcc := by
    rw [hstate]
    rfl
  have hreserve := h.reserve_aligned
  have hsupply : w'.state.msolSupply = w'.msol.supply := by
    rw [h.supply_eq, hstate]
    rfl
  have hrent_le := h.rent_le
  have hextra := h.extra_eq
  have hlamports := h.lamports_eq accounts.stakeAccount
  rw [only_self] at hlamports
  refine ⟨World.realigned_eq_self (hrent ▸ hreserve) hsupply, ?_⟩
  by_cases hk : accounts.stakeAccount = .reserve
  · -- what is moved from an account to itself does not count for its alignment
    have havailable : w'.state.availableReserveBalance
        = w.lamportsOf .reserve - w.state.rentExemptForTokenAcc + extra := by
      rw [hstate]
      rfl
    rw [hk, only_self] at hlamports
    rw [hk] at hrent_le hextra ⊢
    omega
  · rw [only_of_ne hk] at hlamports
    omega

theorem Fits.progressed {u u' : DelinquentUpgraderState} {count active : ℕ} (hf : Fits v u)
    (h : UpdateCommon.Progressed count active u u') : Fits v u' := by
  cases u with
  | iteratingStakes visited total delinquent =>
    unfold UpdateCommon.Progressed at h
    simp only at h
    split at h
    · obtain ⟨-, rfl⟩ := h
      exact ⟨hf.active, nofun⟩
    · obtain rfl := h
      exact hf
  | iteratingValidators =>
    obtain rfl : u' = _ := h
    exact hf
  | done =>
    obtain rfl : u' = _ := h
    exact hf

theorem finish_fits (h : finish i j r v w = .ok w') (hf : Fits v w.state.delinquentUpgrader) :
    Fits v w'.state.delinquentUpgrader := by
  simp only [finish, bind_eq_ok, pure_eq_ok] at h
  obtain ⟨_, -, s, hs, ss, -, _, -, -, -, s', hs', rfl⟩ := h
  obtain ⟨_, rfl⟩ := UpdateCommon.updateMsolPrice_spec hs
  obtain ⟨u, hu, rfl⟩ := UpdateCommon.progression_spec hs'
  exact hf.progressed hu

/-- What the first update has stored. -/
private theorem process_stored (h : process rt accounts i j w = .ok w')
    (hfits : ∀ v ∈ w.state.validatorSystem.records, Fits v w.state.delinquentUpgrader) :
    ∃ r v, Fits v w'.state.delinquentUpgrader ∧
      w'.state.stakeSystem.records[i]? = some r ∧
      w'.state.validatorSystem.records[j]? = some v ∧
      w'.state.availableReserveBalance + w'.state.rentExemptForTokenAcc ≤ u64Max ∧
      finish i j r v w' = .ok w' := by
  simp only [process, bind_eq_ok, ensure_eq_ok, exists_const, checkedSub_eq_ok] at h
  obtain ⟨-, -, -, -, b, hb, -, -, ⟨r₁, v₁, s₁⟩, hup, _, -, w₂, h₂, ⟨v₃, w₃⟩, h₃, h₄⟩ := h
  have hvalidator := List.mem_of_getElem? (UpdateCommon.begin_spec hb).validator
  have hupgraded := delinquentUpgrade_fits hup (hfits _ hvalidator)
  have hphase : w₂.state.delinquentUpgrader = s₁.delinquentUpgrader := collectExtra_upgrader h₂
  have hbooked := bookDelegation_fits h₃ (hphase ▸ hupgraded)
  exact ⟨_, _, finish_fits h₄ hbooked, finish_again h₄⟩

/-- A second update succeeds and changes nothing, unless the first one ended the iteration. -/
theorem process_again (hfunded : w.Funded accounts.stakeAccount)
    (hfits : ∀ v ∈ w.state.validatorSystem.records, Fits v w.state.delinquentUpgrader)
    (h : process rt accounts i j w = .ok w')
    (hphase : w'.state.delinquentUpgrader.isIteratingValidators = false) :
    process rt accounts i j w' = .ok w' := by
  obtain ⟨account, d, r, v, v', extra, fee₁, fee₂, hs⟩ := process_spec h hfunded
  obtain ⟨hrealigned, hrent, hextra⟩ := hs.settled
  obtain ⟨_, _, _, _, -, -, hcontrolled, -⟩ := process_controlled h
  obtain ⟨r', v₃, hf, hrecord, hvalidator, hreserve, hfinish⟩ := process_stored h hfits
  -- the stored records are those of the effect
  have hi := (List.getElem?_eq_some_iff.mp hs.record).1
  have hj := (List.getElem?_eq_some_iff.mp hs.validator).1
  have hr' : r' = { r with
      lastUpdateStatus := .active
      lastUpdateEpoch := w.clock.epoch
      lastUpdateDelegatedLamports := d.stake } := by
    rw [hs.records_eq, List.getElem?_set_self hi, Option.some.injEq] at hrecord
    exact hrecord.symm
  obtain rfl : v' = v₃ := by
    rw [hs.validators_eq, List.getElem?_set_self hj, Option.some.injEq] at hvalidator
    exact hvalidator
  have hclock : w'.clock = w.clock := by rw [hs.frame]
  have hbegun : UpdateCommon.Begun accounts i j w' account d r' v' := {
    account_eq := by rw [hs.frame]; exact hs.account_eq
    delegation_eq := hs.delegation_eq
    record := hrecord
    record_key := by rw [hr']; exact hs.record_key
    validator := hvalidator
    voter := by rw [hs.validator_eq]; exact hs.voter }
  have hstored : { r' with
      lastUpdateEpoch := w'.clock.epoch
      lastUpdateDelegatedLamports := d.stake } = r' := by rw [hr', hclock]
  simp only [process, bind_eq_ok, ensure_eq_ok, exists_const, checkedSub_eq_ok,
    State.totalVirtualStakedLamports_eq_ok]
  refine ⟨by rw [hs.paused_eq]; rfl, by rw [hphase]; rfl, _, ⟨hcontrolled, rfl⟩, _,
    UpdateCommon.begin_of_begun hbegun hreserve, hs.active, by rw [hr']; nofun, (r', v', w'.state),
    ?_, _, ⟨hrent, rfl⟩, w', ?_, (v', w'), ?_, ?_⟩
  · rw [hrealigned]
    exact delinquentUpgrade_active (by rw [hr'])
  · rw [hextra]
    exact if_neg (Nat.lt_irrefl 0)
  · have hlast : r'.lastUpdateDelegatedLamports = d.stake := by rw [hr']
    simp only [hlast]
    exact bookDelegation_self hcontrolled hf
  · simp only [hstored]
    exact hfinish

end UpdateActive

/-- A second update right after the first one stops where the first one has ended the iteration over
the stake accounts, and otherwise succeeds and leaves everything as the first one left it. -/
theorem update_active_again {accounts : UpdateCommon} (hfunded : w.Funded accounts.stakeAccount)
    (hfits : ∀ v ∈ w.state.validatorSystem.records,
      UpdateActive.Fits v w.state.delinquentUpgrader)
    (he : exec rt w (.updateActive accounts i j) = .ok (w', e)) :
    (w.state.delinquentUpgrader.isIteratingStakes = true ∧
      w'.state.delinquentUpgrader.isIteratingValidators = true ∧
      exec rt w' (.updateActive accounts i j)
        = .error (.marinade .delinquentUpgraderIsNotDone)) ∨
    exec rt w' (.updateActive accounts i j) = .ok (w', e) := by
  have h := silently_eq_ok he
  obtain ⟨account, d, r, v, v', extra, fee₁, fee₂, hs⟩ := UpdateActive.process_spec h hfunded
  cases hphase : w'.state.delinquentUpgrader.isIteratingValidators with
  | false =>
    have hagain := UpdateActive.process_again hfunded hfits h hphase
    right
    rw [exec] at he ⊢
    rw [hagain, ← h]
    exact he
  | true =>
    refine .inl ⟨hs.isIteratingStakes hphase, rfl, ?_⟩
    rw [exec, UpdateActive.process, hs.paused_eq, hphase]
    rfl

end

/-- The rewards are not booked a second time. -/
theorem update_active_again_sample : ∃ w' e,
    exec Sample.runtime Sample.visited.2 Sample.rewarding = .ok (w', e) ∧
    exec Sample.runtime w' Sample.rewarding = .ok (w', e) := by
  have hsound := (wellFormed_of_reachable Sample.visited_reachable).stakes_sound
  have hdone : Sample.visited.2.state.delinquentUpgrader = .done := by decide +kernel
  have hactive : ∀ v ∈ Sample.visited.2.state.validatorSystem.records,
      v.activeBalance ≤ u64Max := by decide +kernel
  obtain ⟨w', e, he⟩ : ∃ w' e, exec Sample.runtime Sample.visited.2
      (.updateActive ⟨.external 30⟩ 0 0) = .ok (w', e) := ⟨_, _, eq_ok_get Sample.rewarding_isSome⟩
  have hagain := update_active_again (hsound.funded _)
    (fun v hv ↦ ⟨hactive v hv, fun _ _ _ heq ↦ by rw [hdone] at heq; cases heq⟩) he
  refine ⟨w', e, he, hagain.resolve_left fun h ↦ ?_⟩
  rw [hdone] at h
  cases h.1

end Marinade
