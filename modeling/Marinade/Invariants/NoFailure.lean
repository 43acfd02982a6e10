import Marinade.Failures
import Marinade.Invariants.Booked
import Marinade.Invariants.Bounds
import Marinade.Invariants.Tickets

/-!
# What never goes wrong

The program stops where a counter would fall below zero, where more tokens exist than it has booked
and where the reserve does not agree with the books. In a world that some run reaches it never comes
to that. An instruction may still refuse what it is asked for, but not for one of these reasons.

Most parts of an instruction cannot stop for one of these reasons at all. What is left are the few
places where the invariants are needed.
-/

open Foundation Foundation.Ledger

namespace Marinade

/-- The quantities that a subtraction never takes below zero. -/
def Counter.Covered : Counter → Prop
  | totalActiveBalance | validatorActiveBalance | delayedUnstakeCoolingDown
  | emergencyCoolingDown | msolSupply | lpSupply | circulatingTicketBalance
  | circulatingTicketCount | reserveAboveRent | solLegAboveRent => True
  | _ => False

/-- The errors that no instruction stops with. -/
def Error.Excluded : Error → Prop
  | .underflow c => c.Covered
  | .assertion a => a = .reserveAligned
  | .marinade e => e = .unregisteredMsolMinted ∨ e = .unregisteredLPMinted
  | _ => False

/-- A computation that stops with none of them. -/
abbrev Safe {α : Type} (x : Except Error α) : Prop :=
  Avoids Error.Excluded x

theorem Counter.covered_iff {c : Counter} : c.Covered ↔ c ∈ [.totalActiveBalance,
    .validatorActiveBalance, .delayedUnstakeCoolingDown, .emergencyCoolingDown, .msolSupply,
    .lpSupply, .circulatingTicketBalance, .circulatingTicketCount, .reserveAboveRent,
    .solLegAboveRent] := by
  cases c <;> simp [Covered]

theorem Error.excluded_iff {e : Error} : e.Excluded ↔ (∃ c, c.Covered ∧ e = .underflow c) ∨
    e = .assertion .reserveAligned ∨ e = .marinade .unregisteredMsolMinted ∨
      e = .marinade .unregisteredLPMinted := by
  cases e <;> simp [Excluded]

attribute [local simp] Counter.covered_iff Error.excluded_iff

/-- Nobody burns more than there is. -/
theorem TokenMint.le_supply_of_burn {vault : Pubkey → Option Pubkey}
    {mint mint' : TokenMint vault} {src authority : Pubkey} {x : ℕ}
    (h : mint.burn src authority x = .ok mint') : x ≤ mint.supply :=
  (burn_spec h).1 ▸ Nat.le_add_left _ _

/-! ## The invariants together -/

/-- All that is known of a world that some run reaches. -/
structure Intact (rt : Runtime) (w : World) : Prop where
  wellFormed : WellFormed rt w
  booked : Booked w
  registered : Registered w
  bounds : Bounds w
  tickets : TicketsBooked w

theorem intact_of_reachable {rt : Runtime} {w : World} (h : (marinade rt).Reachable w) :
    Intact rt w :=
  ⟨wellFormed_of_reachable h, booked_of_reachable h, registered_of_reachable h,
    bounds_of_reachable h, ticketsBooked_of_reachable h⟩

section

variable {rt : Runtime} {w w' : World} {s : State} {k : Pubkey} {account : StakeAccount}
  {d : Delegation} {r : StakeRecord} {v : ValidatorRecord} {ticket : TicketAccountData}
  {i i' j x : ℕ}

/-- What an active record holds is part of the balance of its validator and of the total. -/
theorem Booked.active_le (h : Booked w) (hr : Registered w)
    (hrecord : r ∈ w.state.stakeSystem.records) (hactive : r.lastUpdateStatus = .active)
    (hv : v ∈ w.state.validatorSystem.records)
    (hvoter : w.voterOf r.stakeAccount = some v.validatorAccount) :
    r.lastUpdateDelegatedLamports ≤ v.activeBalance ∧
      r.lastUpdateDelegatedLamports ≤ w.state.validatorSystem.totalActiveBalance := by
  have hamount : r.activeAmount = r.lastUpdateDelegatedLamports := if_pos hactive
  constructor
  · rw [h.activeBalance_eq hr hv, ← hamount]
    refine le_of_eq_of_le ?_ (le_total hrecord)
    exact (if_pos hvoter).symm
  · rw [h.total_eq, ← hamount]
    exact le_total (g := (·.activeAmount)) hrecord

/-- What a deactivating record holds is part of what is cooling down. -/
theorem Booked.cooling_le (h : Booked w) (hrecord : r ∈ w.state.stakeSystem.records)
    (hdeactivating : r.lastUpdateStatus = .deactivating) :
    r.lastUpdateDelegatedLamports ≤ w.state.coolingDown r.isEmergencyUnstaking := by
  rw [h.cooling_eq]
  refine le_of_eq_of_le ?_ (le_total (g := (·.coolingDown r.isEmergencyUnstaking)) hrecord)
  exact (if_pos ⟨hdeactivating, rfl⟩).symm

/-- The form in which the instructions have checked it. -/
theorem Intact.active_le (h : Intact rt w) (ha : w.stakes k = some account)
    (hrecord : w.state.stakeSystem.getChecked i k = .ok r)
    (hactive : r.lastUpdateStatus = .active)
    (hv : w.state.validatorSystem.get j = .ok v)
    (hcheck : ∃ d, account.delegation = some d ∧ d.voterPubkey = v.validatorAccount) :
    r.lastUpdateDelegatedLamports ≤ v.activeBalance ∧
      r.lastUpdateDelegatedLamports ≤ w.state.validatorSystem.totalActiveBalance := by
  obtain ⟨hi, hkey⟩ := StakeSystem.getChecked_eq_ok.mp hrecord
  obtain ⟨d, hd, hvoter⟩ := hcheck
  refine h.booked.active_le h.registered (List.mem_of_getElem? hi) hactive
    (AccountList.mem_of_get hv) ?_
  exact Chain.voterOf_record hkey ha hd hvoter

/-! ## The instructions -/

theorem Deposit.safe {accounts : Deposit} (hb : Bounds w) : Safe (accounts.process x w) := by
  simp [process, solSwapped, swap, transferToReserve, mint, hb.supply_le]

theorem DepositStakeAccount.safe {accounts : DepositStakeAccount} (hb : Bounds w) :
    Safe (accounts.process j w) := by
  simp [process, cleanLockup, hb.supply_le]

theorem LiquidUnstake.safe {accounts : LiquidUnstake} : Safe (accounts.process x w) := by
  simp [process, fee]

theorem AddLiquidity.safe {accounts : AddLiquidity} (hb : Bounds w) :
    Safe (accounts.process x w) := by
  simp [process, hb.lp_supply_le, hb.sol_leg_le]

theorem RemoveLiquidity.safe {accounts : RemoveLiquidity} (hb : Bounds w) :
    Safe (accounts.process x w) := by
  have hrent : w.state.rentExemptForTokenAcc ≤ w.lamportsOf .solLeg := hb.sol_leg_le
  refine .bind (by simp) fun _ _ ↦ .bind (by simp) fun _ _ ↦ .bind (by simp) fun _ _ ↦
    .bind (by simp) fun _ _ ↦ .bind (by simp) fun _ _ ↦ .bind (by simp) fun _ _ ↦
    .bind (by simp [hrent]) fun _ _ ↦ .bind (by simp) fun _ _ ↦ .bind (by simp) fun _ _ ↦
    .bind (by simp) fun _ _ ↦ .bind (by simp) fun _ _ ↦ .bind (by simp) fun _ _ ↦
    .bind (by simp) fun chain htransfer ↦ .bind (by simp) fun _ _ ↦ .bind (by simp) fun lp hburn ↦
    .bind ?_ fun _ _ ↦ Avoids.ok_iff
  -- the burn comes first, and it is of tokens that exist
  obtain ⟨_, rfl, -⟩ := SystemProgram.transferSome_spec htransfer
  have hle := TokenMint.le_supply_of_burn hburn
  simp only [alignedSupply_eq hb, LiqPool.onLpBurn_avoids]
  exact fun _ ↦ hle

theorem OrderUnstake.safe {accounts : OrderUnstake} (hb : Bounds w) :
    Safe (accounts.process rt x w) := by
  refine .bind (by simp) fun _ _ ↦ .bind (by simp) fun _ _ ↦ .bind (by simp) fun _ _ ↦
    .bind (by simp) fun _ _ ↦ .bind (by simp) fun _ _ ↦ .bind (by simp) fun _ _ ↦
    .bind (by simp) fun _ _ ↦ .bind (by simp) fun _ _ ↦ .bind (by simp) fun _ _ ↦
    .bind (by simp) fun _ _ ↦ .bind (by simp) fun _ _ ↦ .bind (by simp) fun msol hburn ↦
    .bind ?_ fun _ _ ↦ by simp
  exact State.onMsolBurn_avoids.mpr fun _ ↦
    (TokenMint.le_supply_of_burn hburn).trans hb.supply_le

theorem Claim.safe {accounts : Claim} (hb : Bounds w) (ht : TicketsBooked w) :
    Safe (accounts.process w) := by
  have hreserve : w.state.rentExemptForTokenAcc ≤ w.lamportsOf .reserve := by
    have hle := hb.reserve_le
    omega
  refine .bind (by simp) fun ticket hticket ↦ .bind (by simp) fun _ _ ↦ .bind (by simp) fun _ _ ↦
    .bind (by simp) fun _ _ ↦ .bind (by simp [checkTicketAccount]) fun _ hcheck ↦
    .bind (by simp [hreserve]) fun _ _ ↦ .bind (by simp) fun _ _ ↦ ?_
  obtain ⟨hbalance, hcount⟩ := ht.le ⟨orError_eq_ok.mp hticket, checkTicketAccount_state hcheck⟩
  exact .bind (by simp [hbalance]) fun _ _ ↦ .bind (by simp [hcount]) fun _ _ ↦ by simp

theorem StakeReserve.safe {accounts : StakeReserve} : Safe (accounts.process rt j w) := by
  simp [process, stakeTo, stake, returnUnusedStakeAccountRent]

theorem MergeStakes.safe {accounts : MergeStakes} : Safe (accounts.process rt i i' j w) := by
  simp [process, merge, checkDestinationDelegation, checkSourceDelegation, returnRent]

theorem CreateCanonicalStake.safe {accounts : CreateCanonicalStake} :
    Safe (accounts.process rt i j w) := by
  simp [process, checkSourceDelegation]

/-! ### Unstaking

What is taken from the balances is at most what the record holds, which is part of both. -/

theorem EmergencyUnstake.safe {accounts : EmergencyUnstake} (h : Intact rt w) :
    Safe (accounts.process i j w) := by
  refine .bind (by simp) fun _ _ ↦ .bind (by simp) fun account ha ↦ .bind (by simp) fun _ _ ↦
    .bind (by simp) fun _ _ ↦ .bind (by simp) fun r hr ↦ .bind (by simp) fun _ hactive ↦
    .bind (by simp) fun v hv ↦ .bind (by simp) fun _ _ ↦ .bind (by simp) fun _ hcheck ↦
    .bind (by simp) fun s hs ↦ .bind (by simp) fun _ _ ↦ .bind ?_ fun _ _ ↦ Avoids.ok_iff
  obtain ⟨d, hd, hvoter, -⟩ := checkStakeAmountAndValidator_eq_ok.mp hcheck
  obtain ⟨hbalance, htotal⟩ := h.active_le (orError_eq_ok.mp ha) hr
    (requireActiveRecord_eq_ok.mp hactive).1 hv ⟨d, hd, hvoter⟩
  obtain ⟨-, -, rfl⟩ := State.onStakeMoved_iff.mp hs
  simp [hbalance, htotal]

namespace PartialUnstake

variable {accounts : PartialUnstake} {c : Chain}

theorem unstakeWhole_safe (hv : r.lastUpdateDelegatedLamports ≤ v.activeBalance)
    (ht : r.lastUpdateDelegatedLamports ≤ s.validatorSystem.totalActiveBalance) :
    Safe (accounts.unstakeWhole i j r v c s) := by
  refine .bind (by simp) fun _ _ ↦ .bind (by simp [returnUnusedSplitStakeAccountRent]) fun _ _ ↦
    .bind (by simp) fun s' hs ↦ .bind ?_ fun _ _ ↦ Avoids.ok_iff
  obtain ⟨-, -, rfl⟩ := State.onStakeMoved_iff.mp hs
  simp [hv, ht]

theorem unstakePart_safe (hv : r.lastUpdateDelegatedLamports ≤ v.activeBalance)
    (ht : r.lastUpdateDelegatedLamports ≤ s.validatorSystem.totalActiveBalance) :
    Safe (unstakePart rt accounts i j r v x c s) := by
  refine .bind (by simp) fun _ _ ↦ .bind (by simp) fun _ _ ↦ .bind (by simp) fun left hleft ↦
    .bind (by simp) fun s' hs ↦ .bind ?_ fun _ _ ↦ Avoids.ok_iff
  obtain ⟨hx, -⟩ := checkedSub_eq_ok.mp hleft
  obtain ⟨-, -, rfl⟩ := State.onStakeMoved_iff.mp hs
  simp [hx.trans hv, hx.trans ht]

theorem safe (h : Intact rt w) : Safe (accounts.process rt i j x w) := by
  refine .bind (by simp) fun _ _ ↦ .bind (by simp) fun account ha ↦ .bind (by simp) fun _ _ ↦
    .bind (by simp) fun _ _ ↦ .bind (by simp) fun _ _ ↦ .bind (by simp) fun _ _ ↦
    .bind (by simp) fun v hv ↦ .bind (by simp) fun r hr ↦ .bind (by simp) fun _ hactive ↦
    .bind (by simp) fun _ hcheck ↦ .bind (by simp [totalStakeTarget]) fun _ _ ↦
    .bind (by simp) fun _ _ ↦ .bind (by simp) fun _ _ ↦ ?_
  obtain ⟨d, hd, hvoter, -⟩ := checkStakeAmountAndValidator_eq_ok.mp hcheck
  obtain ⟨hbalance, htotal⟩ := h.active_le (orError_eq_ok.mp ha) hr
    (requireActiveRecord_eq_ok.mp hactive).1 hv ⟨d, hd, hvoter⟩
  refine Avoids.ite_iff.mpr ⟨fun _ ↦ by simp [returnUnusedSplitStakeAccountRent], fun _ ↦ ?_⟩
  exact Avoids.ite_iff.mpr
    ⟨fun _ ↦ unstakeWhole_safe hbalance htotal, fun _ ↦ unstakePart_safe hbalance htotal⟩

end PartialUnstake

namespace DeactivateStake

variable {accounts : DeactivateStake} {c : Chain} {clock : Clock} {target delta : ℕ}

theorem finish_safe (hv : x ≤ v.activeBalance)
    (ht : x ≤ s.validatorSystem.totalActiveBalance) : Safe (finish i j r v x clock s) := by
  simp [finish, hv, ht]

theorem deactivateWhole_safe (hv : r.lastUpdateDelegatedLamports ≤ v.activeBalance)
    (ht : r.lastUpdateDelegatedLamports ≤ s.validatorSystem.totalActiveBalance) :
    Safe (accounts.deactivateWhole i j r v c s) := by
  simp [deactivateWhole, returnUnusedSplitStakeAccountRent, finish_safe hv ht]

theorem deactivatePart_safe (hv : r.lastUpdateDelegatedLamports ≤ v.activeBalance)
    (ht : r.lastUpdateDelegatedLamports ≤ s.validatorSystem.totalActiveBalance) :
    Safe (deactivatePart rt accounts i j r v target delta c s) := by
  refine Avoids.ite_iff.mpr ⟨fun _ ↦ by simp [returnUnusedSplitStakeAccountRent], fun _ ↦ ?_⟩
  refine .bind (by simp) fun amount hamount ↦ .bind (by simp) fun _ _ ↦ .bind (by simp) fun _ _ ↦
    .bind (by simp) fun _ _ ↦ .bind (by simp) fun _ _ ↦ .bind ?_ fun _ _ ↦ Avoids.ok_iff
  obtain ⟨-, rfl⟩ := checkedSub_eq_ok.mp hamount
  exact finish_safe ((Nat.sub_le _ _).trans hv) ((Nat.sub_le _ _).trans ht)

theorem safe (h : Intact rt w) : Safe (accounts.process rt i j w) := by
  refine .bind (by simp) fun account ha ↦ .bind (by simp) fun _ _ ↦ .bind (by simp) fun _ _ ↦
    .bind (by simp) fun r hr ↦ .bind (by simp) fun _ _ ↦ .bind (by simp) fun _ hactive ↦
    .bind (by simp) fun v hv ↦ .bind (by simp) fun _ _ ↦ .bind (by simp) fun _ _ ↦
    .bind (by simp) fun _ _ ↦ .bind (by simp) fun _ hcheck ↦ .bind (by simp) fun _ _ ↦ ?_
  obtain ⟨d, hd, hvoter, -⟩ := checkStakeAmountAndValidator_eq_ok.mp hcheck
  obtain ⟨hbalance, htotal⟩ := h.active_le (orError_eq_ok.mp ha) hr
    (requireActiveRecord_eq_ok.mp hactive).1 hv ⟨d, hd, hvoter⟩
  refine Avoids.ite_iff.mpr ⟨fun _ ↦ by simp [returnUnusedSplitStakeAccountRent], fun _ ↦ ?_⟩
  refine .bind (by simp) fun _ _ ↦ Avoids.ite_iff.mpr ⟨fun _ ↦ ?_, fun _ ↦ ?_⟩
  · exact deactivateWhole_safe hbalance htotal
  · exact deactivatePart_safe hbalance htotal

end DeactivateStake

namespace WithdrawStakeAccount

variable {accounts : WithdrawStakeAccount} {y : ℕ}

@[simp] theorem msolFees_safe : Safe (msolFees w x y) := by
  simp [msolFees]

theorem burn_safe (hb : w.msol.supply ≤ w.state.msolSupply) : Safe (accounts.burn x w) := by
  refine Avoids.ite_iff.mpr ⟨fun _ ↦ ?_, fun _ ↦ Avoids.ok_iff⟩
  refine .bind (by simp) fun msol hburn ↦ .bind ?_ fun _ _ ↦ Avoids.ok_iff
  exact State.onMsolBurn_avoids.mpr fun _ ↦ (TokenMint.le_supply_of_burn hburn).trans hb

theorem safe (h : Intact rt w) : Safe (accounts.process rt i j x k w) := by
  refine .bind (by simp) fun _ _ ↦ .bind (by simp) fun _ _ ↦ .bind (by simp) fun account ha ↦
    .bind (by simp) fun c hc ↦ .bind (by simp) fun _ _ ↦ .bind (by simp) fun _ _ ↦
    .bind (by simp) fun _ _ ↦ .bind (by simp) fun _ _ ↦ .bind (by simp) fun _ _ ↦
    .bind (by simp) fun r hr ↦ .bind (by simp) fun _ hactive ↦ .bind (by simp) fun _ _ ↦
    .bind (by simp) fun _ _ ↦ .bind (by simp) fun _ _ ↦ .bind (by simp) fun v hv ↦
    .bind (by simp) fun _ hcheck ↦ .bind (by simp) fun _ _ ↦ .bind (by simp) fun _ _ ↦
    .bind (by simp) fun split _ ↦ .bind (by simp) fun _ _ ↦ .bind (by simp) fun _ hsplit ↦
    .bind (by simp) fun _ _ ↦ .bind (by simp) fun _ _ ↦ .bind (by simp) fun _ _ ↦
    .bind (by simp) fun msol htransfer ↦ ?_
  obtain ⟨d, hd, hvoter, -⟩ := checkStakeAmountAndValidator_eq_ok.mp hcheck
  obtain ⟨hbalance, htotal⟩ := h.active_le (orError_eq_ok.mp ha) hr (ensure_eq_ok.mp hactive) hv
    ⟨d, hd, hvoter⟩
  obtain ⟨-, -, -, _, _, -, -, -, rfl⟩ := SystemProgram.initStakeAccount_spec hc
  have hsupply : msol.supply = w.msol.supply := (TokenMint.transferSome_spec htransfer).1
  have hle : split ≤ r.lastUpdateDelegatedLamports := ensure_eq_ok.mp hsplit
  refine .bind (burn_safe (hsupply.trans_le h.bounds.supply_le)) fun w' hburn ↦ ?_
  obtain ⟨-, _, rfl, -⟩ := burn_spec hburn
  simp [hle.trans hbalance, hle.trans htotal]

end WithdrawStakeAccount

/-! ### Updates -/

namespace UpdateCommon

variable {accounts : UpdateCommon}

/-- What an update found is a record of the list and its validator. -/
theorem Begun.active_le (hb : Begun accounts i j w account d r v) (h : Intact rt w)
    (hactive : r.lastUpdateStatus = .active) :
    r.lastUpdateDelegatedLamports ≤ v.activeBalance ∧
      r.lastUpdateDelegatedLamports ≤ w.state.validatorSystem.totalActiveBalance :=
  h.active_le hb.account_eq (StakeSystem.getChecked_eq_ok.mpr ⟨hb.record, hb.record_key⟩) hactive
    (AccountList.get_eq_ok.mpr hb.validator) ⟨d, hb.delegation_eq, hb.voter.symm⟩

end UpdateCommon

namespace UpdateActive

theorem safe {accounts : UpdateCommon} (h : Intact rt w) : Safe (process rt accounts i j w) := by
  refine .bind (by simp) fun _ _ ↦ .bind (by simp) fun _ hphase ↦ .bind (by simp) fun _ _ ↦
    .bind (by simp) fun b hbegin ↦ .bind (by simp) fun _ _ ↦ .bind (by simp) fun _ hstatus ↦
    .bind (by simp) fun upgraded hupgrade ↦ .bind (by simp) fun _ hrent ↦
    .bind (by simp) fun w₁ hcollect ↦ ?_
  have hbegun := UpdateCommon.begin_spec hbegin
  have hphase' : w.realigned.delinquentUpgrader.isIteratingValidators = false :=
    Bool.not_eq_true' _ ▸ ensure_eq_ok.mp hphase
  obtain ⟨r, v, s⟩ := upgraded
  obtain ⟨rfl, up, u, rfl, rfl, hvisited⟩ :=
    delinquentUpgrade_spec hupgrade (ensure_eq_ok.mp hstatus) hphase'
  have hactive : b.stake.lastUpdateStatus = .active := by
    have hdone : w.realigned.delinquentUpgrader = .done := h.booked.done
    rw [hdone] at hvisited
    exact hvisited.1
  obtain ⟨hbalance, htotal⟩ := hbegun.active_le h hactive
  have hfunded := h.wellFormed.stakes_sound.funded _ _ _ hbegun.account_eq hbegun.delegation_eq
  obtain ⟨-, rfl⟩ := checkedSub_eq_ok.mp hrent
  obtain ⟨_, _, l, -, -, -, -, hl, rfl⟩ := collectExtra_spec hcollect hbegun.account_eq
    (show _ < w.lamportsOf accounts.stakeAccount by omega)
  refine .bind (bookDelegation_avoids (.inr (by simp)) (by simp) (by simp) (fun _ ↦ hbalance)
    fun _ ↦ htotal) fun booked hbook ↦ ?_
  obtain ⟨_, _, _, _, _, _, -, -, -, -, -, -, -, hw⟩ := bookDelegation_spec hbook
  -- the reserve was aligned at the beginning, and everything since went to both sides
  refine finish_avoids (by simp) (by simp) (by simp) (by simp) (.inl ?_) (by simp)
  have hne : .reserve ≠ accounts.stakeAccount :=
    (h.wellFormed.stakes_sound.ne (by simp [hbegun.account_eq]) rfl).symm
  have hreserve := hl .reserve
  have haligned := h.bounds.reserve_le
  rw [only_of_ne hne, only_self] at hreserve
  rw [hw]
  simp only [World.realigned, Chain.lamportsOf] at *
  omega

end UpdateActive

namespace UpdateDeactivated

variable {accounts : UpdateDeactivated}

/-- Once a delinquent account is booked as cooling down, what its record holds is there. -/
theorem Detected.cooling_le {r' : StakeRecord} {s' : State} (hd : Detected j r r' v s s')
    (hknown : r.lastUpdateStatus ≠ .unknown)
    (h : r.lastUpdateStatus = .deactivating →
      r.lastUpdateDelegatedLamports ≤ s.coolingDown r.isEmergencyUnstaking) :
    r'.lastUpdateDelegatedLamports ≤ s'.coolingDown r'.isEmergencyUnstaking := by
  rw [hd.record_eq]
  cases hstatus : r.lastUpdateStatus with
  | unknown => exact absurd hstatus hknown
  | active =>
    have hemergency := hd.emergency_eq
    rw [if_pos hstatus] at hemergency
    simp only [decide_true, Bool.or_true, State.coolingDown, if_true]
    omega
  | deactivating =>
    have hemergency := hd.emergency_eq
    rw [hstatus] at hemergency
    have hdelayed : s'.stakeSystem = s.stakeSystem := by rw [hd.state_eq]
    simpa [State.coolingDown, hemergency, hdelayed] using h hstatus

theorem safe (h : Intact rt w) : Safe (process rt accounts i j w) := by
  refine .bind (by simp) fun _ _ ↦ .bind (by simp) fun _ _ ↦ .bind (by simp) fun _ _ ↦
    .bind (by simp) fun b hbegin ↦ .bind (by simp) fun _ _ ↦ ?_
  have hbegun := UpdateCommon.begin_spec hbegin
  have hmem := List.mem_of_getElem? hbegun.record
  refine .bind (detectDelinquent_avoids (by simp) (by simp) (by simp)
    fun hactive ↦ hbegun.active_le h hactive) fun detected hdetect ↦ .bind (by simp) fun _ hrent ↦
    .bind (by simp) fun w₁ hmint ↦ .bind (close_avoids (by simp) (by simp)) fun w₂ hclose ↦ ?_
  have hdetected := detectDelinquent_spec hdetect
  obtain ⟨_, _, -, -, -, rfl⟩ := UpdateCommon.mintProtocolFeesIf_spec hmint
  have hfunded := h.wellFormed.stakes_sound.funded _ _ _ hbegun.account_eq hbegun.delegation_eq
  obtain ⟨_, -, -, rfl⟩ := close_spec hclose hbegun.account_eq
    (show 0 < w.lamportsOf accounts.stakeAccount by omega) (checkedSub_eq_ok.mp hrent).1
  have hdone : detected.2.delinquentUpgrader = .done := by
    rw [hdetected.state_eq]
    exact h.booked.done
  refine .bind (bookOutSome_avoids ?_ ?_) fun _ _ ↦ finish_avoids (by simp) (by simp) (by simp)
    (by simp)
  · exact fun _ ↦ hdetected.cooling_le (h.booked.tracked _ hmem).known fun hd ↦
      h.booked.cooling_le hmem hd
  · simp [hdone, DelinquentUpgraderState.isIteratingStakes]

end UpdateDeactivated

/-! ### The rest -/

namespace FinalizeDelinquentUpgrade

theorem iterate_safe (n : ℕ) : ∀ vs visited left, Safe (iterate n vs visited left) := by
  induction n with
  | zero => simp [iterate]
  | succ n ih =>
    intro vs visited left
    simp [iterate, visit, ih]

theorem safe {n : ℕ} : Safe (process n s) := by
  unfold process
  cases s.delinquentUpgrader <;> simp [iterate_safe, conclude]

end FinalizeDelinquentUpgrade

/-- No instruction stops for one of the excluded reasons. -/
theorem exec_safe (h : Intact rt w) (ins : Instruction) : Safe (exec rt w ins) := by
  cases ins with
  | deposit => simpa [exec, reporting] using Deposit.safe h.bounds
  | depositStakeAccount => simpa [exec, reporting] using DepositStakeAccount.safe h.bounds
  | liquidUnstake => simpa [exec, reporting] using LiquidUnstake.safe
  | addLiquidity => simpa [exec, reporting] using AddLiquidity.safe h.bounds
  | removeLiquidity => simpa [exec, reporting] using RemoveLiquidity.safe h.bounds
  | orderUnstake => simpa [exec, reporting] using OrderUnstake.safe h.bounds
  | claim => simpa [exec, reporting] using Claim.safe h.bounds h.tickets
  | stakeReserve => simpa [exec, reporting] using StakeReserve.safe
  | updateActive => simpa [exec, silently] using UpdateActive.safe h
  | updateDeactivated => simpa [exec, silently] using UpdateDeactivated.safe h
  | deactivateStake => simpa [exec, reporting] using DeactivateStake.safe h
  | emergencyUnstake => simpa [exec, silently] using EmergencyUnstake.safe h
  | partialUnstake => simpa [exec, silently] using PartialUnstake.safe h
  | mergeStakes => simpa [exec, reporting] using MergeStakes.safe
  | createCanonicalStake => simpa [exec, silently] using CreateCanonicalStake.safe
  | withdrawStakeAccount => simpa [exec, reporting] using WithdrawStakeAccount.safe h
  | finalizeDelinquentUpgrade => simpa [exec, onState] using FinalizeDelinquentUpgrade.safe
  | addValidator => simp [exec, silently, AddValidator.process]
  | removeValidator => simp [exec, silently, RemoveValidator.process]
  | setValidatorScore => simp [exec, silently, SetValidatorScore.process]
  | configValidatorSystem => simp [exec, onState, ConfigValidatorSystem.process]
  | changeAuthority => simp [exec, onState, ChangeAuthority.process]
  | configLp => simp [exec, onState, ConfigLp.process, LiqPool.validate, Fee.check]
  | configMarinade => simp [exec, onState, ConfigMarinade.process]
  | pause => simp [exec, onState, EmergencyPause.pause]
  | resume => simp [exec, onState, EmergencyPause.resume]
  | reallocValidatorList => simp [exec, silently, ReallocValidatorList.process]
  | reallocStakeList => simp [exec, silently, ReallocStakeList.process]

end

end Marinade
