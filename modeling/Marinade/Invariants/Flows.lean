import Marinade.Foundation.Fund
import Marinade.Invariants.Bounds

/-!
# The pool as a fund

The lamports under control are the assets of a fund, the tickets its debts, and the mSOL its shares.
Every instruction is a sequence of flows of that fund: a deposit issues mSOL at their price rounded
down, an order promises their value rounded down, a claim pays, and an update realigns and then
issues mSOL to the treasury for a part of what came in.

Two kinds of step are no flows. An update that finds less than the record says takes from the
assets, and so does a withdrawal of stake, which burns less mSOL than it pays for.
-/

open Foundation Foundation.Ledger

namespace Marinade

/-- The pool as a fund. -/
def State.fund (s : State) : Fund :=
  ⟨s.controlled, s.circulatingTicketBalance, s.msolSupply⟩

/-- An update that finds less in a stake account than its record says. -/
def World.observesSlashing (w : World) : Instruction → Bool
  | .updateActive accounts i _ =>
    match w.stakes accounts.stakeAccount, w.state.stakeSystem.records[i]? with
    | some account, some r =>
      account.delegation.any fun d ↦ decide (d.stake < r.lastUpdateDelegatedLamports)
    | _, _ => false
  | .updateDeactivated accounts i _ =>
    match w.stakes accounts.stakeAccount, w.state.stakeSystem.records[i]? with
    | some account, some r =>
      decide (w.lamportsOf accounts.stakeAccount - account.stakeMeta.rentExemptReserve
        < r.lastUpdateDelegatedLamports)
    | _, _ => false
  | _ => false

def Instruction.isWithdrawStakeAccount : Instruction → Bool
  | .withdrawStakeAccount .. => true
  | _ => false

section

variable {rt : Runtime} {w w' : World} {s s' : State} {a m n : ℕ} {i : Instruction} {e : Event}
  {account : StakeAccount} {d : Delegation} {r r' : StakeRecord} {v v' : ValidatorRecord}

@[simp] theorem State.fund_equity : s.fund.equity = s.virtualStaked := rfl

/-- The same books are the same fund. -/
private theorem flows_of_eq (h : s'.fund = s.fund) : Fund.Flows n s.fund s'.fund := by
  rw [h]
  exact .refl

/-- Books in which `a` lamports came in and `m` mSOL were issued for them. -/
private theorem flow_of_issue (hc : s'.controlled = s.controlled + a)
    (ht : s'.circulatingTicketBalance = s.circulatingTicketBalance)
    (hm : s'.msolSupply = s.msolSupply + m)
    (h : 0 < s.msolSupply → m * s.virtualStaked ≤ a * s.msolSupply) :
    Fund.Flow s.fund s'.fund := by
  have heq : s'.fund = ⟨s.fund.assets + a, s.fund.debts, s.fund.shares + m⟩ := by
    rw [State.fund, hc, ht, hm]
    rfl
  rw [heq]
  exact .issue h

/-! ## Deposits -/

/-- A deposit is filled by minting, or by the leg, or first by the whole leg and then by minting. -/
theorem Deposit.Spec.filled {accounts x e} (h : Deposit.Spec accounts x w w' e) :
    (e.msolSwapped = 0 ∧ e.solSwapped = 0) ∨
    (0 < e.msolSwapped ∧ e.msolMinted = 0 ∧ e.solSwapped = x) ∨
    (e.msolSwapped = w.msol.amount .msolLeg ∧ 0 < e.msolMinted ∧
      proportional e.msolSwapped w.state.virtualStaked w.state.msolSupply = .ok e.solSwapped) := by
  have hprice := h.price
  unfold Deposit.solSwapped at hprice
  split at hprice
  · split at hprice
    · have hall : x = e.solSwapped := Except.ok.inj hprice
      exact .inr (.inl ⟨‹_›, by omega, hall.symm⟩)
    · have hswapped := h.swapped
      exact .inr (.inr ⟨by omega, by omega, (State.msolToSol_eq_ok.mp hprice).2⟩)
  · have hnone : 0 = e.solSwapped := Except.ok.inj hprice
    exact .inl ⟨by omega, hnone.symm⟩

/-- What a deposit buys costs at most what it pays. -/
theorem Deposit.Spec.order_le {accounts x e} (h : Deposit.Spec accounts x w w' e)
    (hs : 0 < w.state.msolSupply) :
    (e.msolSwapped + e.msolMinted) * w.state.virtualStaked ≤ x * w.state.msolSupply :=
  (sharesFromValue_mul_le h.order hs).trans (Nat.mul_le_mul_right _ (Nat.sub_le _ _))

/-- What a deposit mints costs at most what it adds to the reserve. -/
theorem Deposit.Spec.minted_le {accounts x e} (h : Deposit.Spec accounts x w w' e)
    (hs : 0 < w.state.msolSupply) :
    e.msolMinted * w.state.virtualStaked ≤ e.solDeposited * w.state.msolSupply := by
  have horder := h.order_le hs
  have hpaid := h.paid
  rcases h.filled with ⟨hswapped, hsol⟩ | ⟨-, hminted, -⟩ | ⟨-, -, hsol⟩
  · rw [hswapped, Nat.zero_add] at horder
    rw [hsol, Nat.zero_add] at hpaid
    rwa [hpaid]
  · rw [hminted, Nat.zero_mul]
    exact Nat.zero_le _
  · have hle := proportional_mul_le hsol
    rw [← hpaid, Nat.add_mul, Nat.add_mul] at horder
    omega

theorem Deposit.Spec.controlled_eq {accounts x e} (h : Deposit.Spec accounts x w w' e) :
    w'.state.controlled = w.state.controlled + e.solDeposited := by
  rw [h.state_eq]
  exact (Nat.add_assoc _ _ _).symm

theorem Deposit.Spec.flow {accounts x e} (h : Deposit.Spec accounts x w w' e) :
    Fund.Flow w.state.fund w'.state.fund :=
  flow_of_issue h.controlled_eq (by rw [h.state_eq]) (by rw [h.state_eq]) h.minted_le

theorem DepositStakeAccount.Spec.flow {accounts j e}
    (h : DepositStakeAccount.Spec accounts j w w' e account d v v') :
    Fund.Flow w.state.fund w'.state.fund := by
  refine flow_of_issue (a := d.stake) (m := e.msolMinted) ?_ (by rw [h.state_eq])
    (by rw [h.state_eq]) fun hs ↦ ?_
  · rw [h.state_eq]
    simp only [State.controlled]
    omega
  · exact (sharesFromValue_mul_le h.worth hs).trans (Nat.mul_le_mul_right _ (Nat.sub_le _ _))

/-! ## Tickets -/

/-- What is paid for mSOL at their price rounded down is covered by the virtual stake. -/
theorem le_virtualStaked_of_worth {value : ℕ}
    (h : proportional m s.virtualStaked s.msolSupply = .ok value) (hm : m ≤ s.msolSupply) :
    value ≤ s.virtualStaked := by
  rcases proportional_eq_ok.mp h with ⟨hzero, rfl⟩ | ⟨hpos, -, -⟩
  · omega
  · exact Valuation.le_value_of_redeem (proportional_mul_le h) hm hpos

theorem OrderUnstake.Spec.flow {accounts x e} (h : OrderUnstake.Spec rt accounts x w w' e) :
    Fund.Flow w.state.fund w'.state.fund := by
  obtain ⟨value, hvalue, hfee⟩ := h.worth
  have hle : e.solAmount ≤ value := by omega
  have heq : w'.state.fund = ⟨w.state.fund.assets, w.state.fund.debts + e.solAmount,
      w.state.fund.shares - x⟩ := by
    rw [h.state_eq]
    rfl
  rw [heq]
  exact .promise ((Nat.mul_le_mul_right _ hle).trans (proportional_mul_le hvalue))
    (hle.trans (le_virtualStaked_of_worth hvalue h.le_supply))

theorem Claim.Spec.flow {accounts e rent} (h : Claim.Spec accounts w w' e rent) :
    Fund.Flow w.state.fund w'.state.fund := by
  have havailable := h.le_available
  have heq : w'.state.fund = ⟨w.state.fund.assets - e.amount, w.state.fund.debts - e.amount,
      w.state.fund.shares⟩ := by
    rw [h.state_eq]
    simp only [State.fund, State.controlled, Fund.mk.injEq, and_true]
    omega
  rw [heq]
  exact .pay h.le_balance (havailable.trans (Nat.le_add_left _ _))

/-! ## Moving stake -/

/-- Unstaking moves lamports under control from one total to another. -/
theorem Unstaked.fund_eq {emergency k j x epoch} {i : ℕ}
    (h : Unstaked emergency k i j w w' account d r v x epoch) :
    w'.state.fund = w.state.fund := by
  obtain ⟨_, _, _, hstate⟩ := h.state_eq
  have htotal := h.total_balance
  rw [hstate]
  cases emergency <;>
    simp only [State.fund, State.controlled, Fund.mk.injEq, and_true, if_true, if_false,
      Bool.false_eq_true] <;> omega

theorem MergeStakes.Spec.flow {accounts i i' j extra srcAccount sd sr}
    (h : MergeStakes.Spec accounts i i' j w w' account srcAccount d sd r sr v extra) :
    Fund.Flow w.state.fund w'.state.fund := by
  refine flow_of_issue (a := extra) (m := 0) ?_ (by rw [h.state_eq]) (by rw [h.state_eq]; rfl)
    (by simp)
  rw [h.state_eq]
  simp only [State.controlled]
  omega

theorem FinalizeDelinquentUpgrade.fund_eq (h : FinalizeDelinquentUpgrade.process n s = .ok s') :
    s'.fund = s.fund := by
  obtain ⟨-, _, _, vs, _, _, -, hiter, hs⟩ := FinalizeDelinquentUpgrade.process_spec h
  have hframe := FinalizeDelinquentUpgrade.iterate_frame hiter
  rcases hs with ⟨-, -, hs⟩ | ⟨-, hs⟩ <;> rw [hs, hframe] <;> rfl

theorem State.SameBooks.fund_eq (h : s.SameBooks s') : s'.fund = s.fund := by
  rw [State.fund, h.controlled_eq, h.tickets_eq, h.supply_eq, State.fund]

/-! ## Updates -/

/-- The treasury's mSOL cost at most what came in. -/
theorem UpdateCommon.TreasuryFee.mul_le {x fee : ℕ} (h : UpdateCommon.TreasuryFee s x fee)
    (hfee : s.rewardFee.basisPoints ≤ Fee.maxBasisPoints) (hs : 0 < s.msolSupply) :
    fee * s.virtualStaked ≤ x * s.msolSupply := by
  rcases h with rfl | h
  · rw [Nat.zero_mul]
    exact Nat.zero_le _
  · exact (sharesFromValue_mul_le h hs).trans (Nat.mul_le_mul_right _ (Fee.apply_le hfee _))

theorem rewardFee_le (hw : WellFormed rt w) :
    w.state.rewardFee.basisPoints ≤ Fee.maxBasisPoints :=
  hw.admissible.reward_fee.trans (by decide)

/-- Realigning finds gifts and loses burned mSOL. -/
theorem Bounds.realign (hb : Bounds w) : Fund.Flow w.state.fund w.realigned.fund := by
  have hle := hb.reserve_le
  have heq : w.realigned.fund = ⟨w.state.fund.assets + (w.lamportsOf .reserve
      - w.state.rentExemptForTokenAcc - w.state.availableReserveBalance),
      w.state.fund.debts, w.msol.supply⟩ := by
    simp only [State.fund, State.controlled, World.realigned, Fund.mk.injEq, and_true]
    omega
  rw [heq]
  exact .realign hb.supply_le

theorem UpdateActive.Spec.flows {accounts i j extra fee₁ fee₂}
    (h : UpdateActive.Spec accounts i j w w' account d r v v' extra fee₁ fee₂)
    (hw : WellFormed rt w) (hb : Bounds w) (hle : r.lastUpdateDelegatedLamports ≤ d.stake) :
    Fund.Flows w.msol.supply w.state.fund w'.state.fund := by
  obtain ⟨price, hstate⟩ := h.state_eq
  -- the state after the lamports beyond the delegation have been collected
  let s₁ : State := { w.realigned with
    availableReserveBalance := w.realigned.availableReserveBalance + extra
    msolSupply := w.realigned.msolSupply + fee₁ }
  have hextra : Fund.Flow w.realigned.fund s₁.fund := by
    refine flow_of_issue (a := extra) (m := fee₁) ?_ rfl rfl fun hs ↦ ?_
    · simp only [s₁, State.controlled]
      omega
    -- the price was taken with the lamports already in the reserve, so it was higher
    · refine (Nat.mul_le_mul_left _ ?_).trans (h.fee₁_eq.mul_le (rewardFee_le hw) hs)
      simp only [State.virtualStaked, State.controlled]
      omega
  have hrewards : Fund.Flow s₁.fund w'.state.fund := by
    refine flow_of_issue (a := d.stake - r.lastUpdateDelegatedLamports) (m := fee₂) ?_
      (by rw [hstate]) (by rw [hstate]) (h.fee₂_eq.mul_le (rewardFee_le hw))
    have htotal := h.total_balance
    have hdelayed : w'.state.stakeSystem.delayedUnstakeCoolingDown
        = w.state.stakeSystem.delayedUnstakeCoolingDown := by rw [hstate]
    have hemergency : w'.state.emergencyCoolingDown = w.state.emergencyCoolingDown := by
      rw [hstate]
      rfl
    have havailable : w'.state.availableReserveBalance
        = w.realigned.availableReserveBalance + extra := by rw [hstate]
    simp only [s₁, State.controlled]
    rw [hdelayed, hemergency, havailable]
    simp only [World.realigned]
    omega
  exact (hb.realign.flows hb.supply_le).tail le_rfl hextra |>.tail (Nat.le_add_right _ _) hrewards

/-- The detection moves lamports from one total to another. -/
theorem UpdateDeactivated.Detected.controlled_eq {j : ℕ} (h : Detected j r r' v s s') :
    s'.controlled = s.controlled := by
  have htotal := h.total_balance
  have hemergency := h.emergency_eq
  have hdelayed : s'.stakeSystem.delayedUnstakeCoolingDown
      = s.stakeSystem.delayedUnstakeCoolingDown := by rw [h.state_eq]
  have havailable : s'.availableReserveBalance = s.availableReserveBalance := by rw [h.state_eq]
  unfold State.controlled
  omega

/-- Whichever totals a removed record is taken from, its whole amount leaves them. -/
theorem UpdateDeactivated.BookedOut.controlled_eq {emergency : Bool} {x delinquent : ℕ}
    (h : BookedOut emergency x s s' delinquent) : s'.controlled + x = s.controlled := by
  have hdelinquent : delinquent ≤ x := by
    rw [h.delinquent_eq]
    split
    · exact Nat.sub_le _ _
    · exact Nat.zero_le _
  have htotal := h.total_eq
  have hemergency := h.emergency_eq
  have hdelayed := h.delayed_eq
  have havailable : s'.availableReserveBalance = s.availableReserveBalance := by rw [h.state_eq]
  unfold State.controlled
  cases emergency with
  | false =>
    simp only [Bool.false_eq_true, if_false] at hemergency hdelayed
    omega
  | true =>
    simp only [if_true] at hemergency hdelayed
    omega

theorem UpdateDeactivated.Spec.controlled_eq {accounts i j s₁ s₂ fee delinquent}
    (h : UpdateDeactivated.Spec accounts i j w w' account d r r' v s₁ s₂ fee delinquent) :
    s₁.controlled = w.realigned.controlled ∧
    w'.state.controlled + r.lastUpdateDelegatedLamports = s₁.controlled
      + (w.lamportsOf accounts.stakeAccount - account.stakeMeta.rentExemptReserve) := by
  obtain ⟨price, hstate⟩ := h.state_eq
  have hcontrolled : w'.state.controlled = s₂.controlled := by
    rw [hstate]
    rfl
  refine ⟨h.detected.controlled_eq, ?_⟩
  rw [hcontrolled, h.booked_out.controlled_eq]
  exact (Nat.add_assoc _ _ _).symm

theorem UpdateDeactivated.Spec.flows {accounts i j s₁ s₂ fee delinquent}
    (h : UpdateDeactivated.Spec accounts i j w w' account d r r' v s₁ s₂ fee delinquent)
    (hw : WellFormed rt w) (hb : Bounds w)
    (hle : r.lastUpdateDelegatedLamports
      ≤ w.lamportsOf accounts.stakeAccount - account.stakeMeta.rentExemptReserve) :
    Fund.Flows w.msol.supply w.state.fund w'.state.fund := by
  obtain ⟨hdetected, hcontrolled⟩ := h.controlled_eq
  have hfund : s₁.fund = w.realigned.fund := by
    rw [State.fund, hdetected, h.detected.state_eq]
    rfl
  have hfee : s₁.rewardFee = w.state.rewardFee := by
    rw [h.detected.state_eq]
    rfl
  obtain ⟨price, hstate⟩ := h.state_eq
  have hrewards : Fund.Flow s₁.fund w'.state.fund := by
    refine flow_of_issue (a := w.lamportsOf accounts.stakeAccount
        - account.stakeMeta.rentExemptReserve - r.lastUpdateDelegatedLamports) (m := fee)
      (by omega) ?_ ?_ (h.fee_eq.mul_le (hfee ▸ rewardFee_le hw))
    · rw [hstate, h.booked_out.state_eq]
    · rw [hstate, h.booked_out.state_eq]
  have hrealign := hb.realign
  rw [← hfund] at hrealign
  refine (hrealign.flows hb.supply_le).tail ?_ hrewards
  rw [hfund]
  exact le_rfl

/-! ## All instructions -/

/-- An instruction that is neither a withdrawal of stake nor an update that finds slashing is a
sequence of flows, out of funds that keep at least the mSOL that exist. -/
theorem Executed.flows (h : Executed rt w w' i e) (hw : WellFormed rt w) (hb : Bounds w)
    (hi : i.isWithdrawStakeAccount = false) (ho : w.observesSlashing i = false) :
    Fund.Flows w.msol.supply w.state.fund w'.state.fund := by
  have hsupply := hb.supply_le
  cases h with
  | deposit h => exact h.flow.flows hsupply
  | depositStakeAccount h => exact h.flow.flows hsupply
  | withdrawStakeAccount h => cases hi
  | orderUnstake h => exact h.flow.flows hsupply
  | claim h => exact h.flow.flows hsupply
  | updateActive h =>
    refine h.flows hw hb ?_
    simpa [World.observesSlashing, h.account_eq, h.delegation_eq, h.record] using ho
  | updateDeactivated h =>
    refine h.flows hw hb ?_
    simpa [World.observesSlashing, h.account_eq, h.record] using ho
  | stakeReserve h =>
    obtain ⟨_, hstate⟩ := h.state_eq
    have havailable := h.available
    refine flows_of_eq ?_
    rw [hstate]
    simp only [State.fund, State.controlled, Fund.mk.injEq, and_true]
    omega
  | unstakedWhole h => exact flows_of_eq h.fund_eq
  | unstakedSplit h => exact flows_of_eq h.fund_eq
  | mergeStakes h => exact h.flow.flows hsupply
  | liquidUnstake h => exact flows_of_eq (by rw [h.state_eq])
  | addLiquidity h => exact flows_of_eq (by rw [h.state_eq]; rfl)
  | removeLiquidity h => exact flows_of_eq (by rw [h.state_eq]; rfl)
  | notStaked h =>
    obtain ⟨_, hstate⟩ := h.state_eq
    exact flows_of_eq (by rw [hstate]; rfl)
  | notUnstaked h => exact flows_of_eq (by rw [h.state_eq])
  | createCanonicalStake h => exact flows_of_eq (by rw [h.state_eq]; rfl)
  | finalizeDelinquentUpgrade h _ => exact flows_of_eq (FinalizeDelinquentUpgrade.fund_eq h)
  | addValidator h =>
    obtain ⟨_, hstate⟩ := h.state_eq
    exact flows_of_eq (by rw [hstate]; rfl)
  | removeValidator h =>
    obtain ⟨_, hstate⟩ := h.state_eq
    exact flows_of_eq (by rw [hstate]; rfl)
  | setValidatorScore h =>
    obtain ⟨_, hstate⟩ := h.state_eq
    exact flows_of_eq (by rw [hstate]; rfl)
  | config _ books _ => exact flows_of_eq books.fund_eq
  | realloc _ _ _ _ h => exact flows_of_eq h.books.fund_eq

end

end Marinade
