import Marinade.Guarantees.LiquidityPool
import Marinade.Invariants.Booked

/-!
# No profit from a round trip

Whoever buys mSOL and gives all of it back at once, in whichever way, gets at most what they paid.
The deposit itself moves the price, because its fee stays in the pool and the leg sells at the price
rounded down, so this is more than both steps rounding down: what both gain by rounding must not add
up to a lamport. The same for liquidity that is added and removed at once.
-/

open Foundation Foundation.Ledger

namespace Marinade

section

variable {rt : Runtime} {w w₁ w₂ : World} {x y : ℕ}

/-- Whatever is granted for the mSOL of a deposit, at their price after the deposit or less, is at
most the deposit. -/
theorem Deposit.Spec.granted_le {accounts e} (h : Deposit.Spec accounts x w w₁ e)
    (hs : 0 < w.state.msolSupply) (hleg : w.msol.amount .msolLeg ≤ w.state.msolSupply)
    (hy : y * w₁.state.msolSupply
      ≤ (e.msolSwapped + e.msolMinted) * w₁.state.virtualStaked) : y ≤ x := by
  have hstate : w₁.state.msolSupply = w.state.msolSupply + e.msolMinted ∧
      w₁.state.circulatingTicketBalance = w.state.circulatingTicketBalance := by
    rw [h.state_eq]
    exact ⟨rfl, rfl⟩
  obtain ⟨hsupply, htickets⟩ := hstate
  have hcontrolled := h.controlled_eq
  have hpaid := h.paid
  have hswapped := h.swapped
  rcases Nat.eq_zero_or_pos w.state.virtualStaked with hzero | hpos
  -- nothing but this deposit backs the supply
  · have hle : w₁.state.virtualStaked ≤ x := by
      unfold State.virtualStaked at *
      omega
    exact (Valuation.le_value_of_redeem hy (by omega) (by omega)).trans hle
  have hvirtual : w₁.state.virtualStaked = w.state.virtualStaked + e.solDeposited := by
    unfold State.virtualStaked at *
    omega
  have horder := h.order_le hs
  rw [hvirtual, hsupply] at hy
  rcases h.filled with ⟨hnone, hsol⟩ | ⟨-, hnone, hsol⟩ | ⟨hall, -, hworth⟩
  · rw [hnone, Nat.zero_add] at horder hy
    rw [hsol, Nat.zero_add] at hpaid
    rw [hpaid] at hy
    exact Valuation.redeem_le_of_issue horder hs hy
  · have hdeposited : e.solDeposited = 0 := by omega
    rw [hdeposited, hnone, Nat.add_zero, Nat.add_zero, Nat.add_zero] at hy
    rw [hnone, Nat.add_zero] at horder
    exact Nat.le_of_mul_le_mul_right (hy.trans horder) hs
  · have hdeposited : e.solDeposited = x - e.solSwapped := by omega
    rw [hdeposited] at hy
    exact Valuation.redeem_le_of_swap_issue horder (proportional_mul_le hworth)
      (lt_proportional_mul_add hworth hs) (by omega) (by omega) hy

/-! ## Liquidity -/

/-- Liquidity that is removed right after it was added pays at most what was added. -/
theorem AddLiquidity.Spec.removed_le {accounts accounts' e e'}
    (h : AddLiquidity.Spec accounts x w w₁ e) (hs : 0 < w.lp.supply)
    (h' : RemoveLiquidity.Spec accounts' e.lpMinted w₁ w₂ e') :
    e'.solOutAmount + w₂.state.msolValue e'.msolOutAmount ≤ x := by
  have hleg := h.lamports_eq .solLeg
  rw [only_of_ne (Chain.ne_of_not_canSign rfl h.payer_unused), only_self] at hleg
  have hrent := h.rent_le
  have haligned : RemoveLiquidity.alignedSupply w₁ = w.lp.supply + e.lpMinted := by
    rw [RemoveLiquidity.alignedSupply, h.lp_supply_eq, h.state_eq]
    exact if_neg (Nat.lt_irrefl _)
  have havailable : w₁.lamportsOf .solLeg - w₁.state.rentExemptForTokenAcc
      = w.solLegAvailable + x := by
    have hstate : w₁.state.rentExemptForTokenAcc = w.state.rentExemptForTokenAcc := by
      rw [h.state_eq]
    rw [World.solLegAvailable, hstate]
    omega
  have hmsol : w₁.msol.amount .msolLeg = w.msol.amount .msolLeg := by rw [h.frame]
  have hcoins := proportional_mul_le h'.sol_out
  have htokens := proportional_mul_le h'.msol_out
  rw [haligned, havailable] at hcoins
  rw [haligned, hmsol] at htokens
  have hissue := h.shares_le hs
  rw [World.poolValue] at hissue
  -- neither step touches the price of mSOL
  have hvalue : w₂.state.msolValue e'.msolOutAmount = w.state.msolValue e'.msolOutAmount :=
    State.msolValue_congr (by rw [h'.state_eq, h.state_eq]; rfl)
      (by rw [h'.state_eq, h.state_eq])
  rw [hvalue]
  unfold State.msolValue at hissue ⊢
  split at hissue
  · rw [if_pos ‹_›]
    exact Valuation.redeem_legs_le (v := 1) (s := 1) Nat.one_pos hs hissue (by omega) hcoins htokens
      le_rfl
  · have hpos : 0 < w.state.msolSupply := Nat.pos_of_ne_zero ‹_›
    rw [if_neg ‹_›]
    refine Valuation.redeem_legs_le hpos hs hissue ?_ hcoins htokens (Nat.div_mul_le_self _ _)
    rw [Nat.mul_comm (_ / _), ← Nat.mul_succ]
    exact Nat.lt_mul_div_succ _ hpos

/-! ## All ways back -/

/-- In every reachable state with mSOL, what a deposit buys is worth at most the deposit, as a
ticket, sold to the pool, or as a stake account; and liquidity that is added to a pool with LP
tokens and removed at once pays at most what was added. -/
theorem roundTrip_of_reachable :
    (∀ w, (marinade rt).Reachable w → 0 < w.state.msolSupply →
      ∀ accounts x w₁ e, exec rt w (.deposit accounts x) = .ok (w₁, .deposit e) →
      (∀ accounts' w₂ e', exec rt w₁ (.orderUnstake accounts' (e.msolSwapped + e.msolMinted))
          = .ok (w₂, .orderUnstake e') →
        ∃ ticket, w₂.tickets.lookup accounts'.newTicketAccount = some ticket ∧
          ticket.lamportsAmount = e'.solAmount ∧ e'.solAmount ≤ x) ∧
      (∀ accounts' w₂ e', exec rt w₁ (.liquidUnstake accounts' (e.msolSwapped + e.msolMinted))
          = .ok (w₂, .liquidUnstake e') →
        e'.solAmount ≤ x ∧ ∀ k, w₂.lamportsOf k ≤ w₁.lamportsOf k + e'.solAmount) ∧
      ∀ accounts' i j beneficiary w₂ e', exec rt w₁ (.withdrawStakeAccount accounts' i j
          (e.msolSwapped + e.msolMinted) beneficiary) = .ok (w₂, .withdrawStakeAccount e') →
        ∃ account d, w₂.stakes accounts'.splitStakeAccount = some account ∧
          account.delegation = some d ∧ d.stake = e'.splitLamports ∧ e'.splitLamports ≤ x) ∧
    ∀ w, 0 < w.lp.supply → ∀ accounts x w₁ e,
      exec rt w (.addLiquidity accounts x) = .ok (w₁, .addLiquidity e) →
      ∀ accounts' w₂ e', exec rt w₁ (.removeLiquidity accounts' e.lpMinted)
          = .ok (w₂, .removeLiquidity e') →
        e'.solOutAmount + w₂.state.msolValue e'.msolOutAmount ≤ x := by
  refine ⟨?_, ?_⟩
  · intro w hr hs accounts x w₁ e he
    have hb := bounds_of_reachable hr
    have hr₁ : (marinade rt).Reachable w₁ := hr.step (l := .instruction _ _) he
    obtain ⟨_, hp, heq⟩ := reporting_eq_ok he
    cases heq
    have h := Deposit.process_spec hp
    have hleg : w.msol.amount .msolLeg ≤ w.state.msolSupply :=
      (w.msol.ledger.balance_le_total _).trans hb.supply_le
    have hgranted : ∀ {y}, y * w₁.state.msolSupply
        ≤ (e.msolSwapped + e.msolMinted) * w₁.state.virtualStaked → y ≤ x :=
      h.granted_le hs hleg
    refine ⟨?_, ?_, ?_⟩
    · intro accounts' w₂ e' he'
      obtain ⟨_, hp', heq'⟩ := reporting_eq_ok he'
      cases heq'
      have h' := OrderUnstake.process_spec hp'
      obtain ⟨value, hvalue, hfee⟩ := h'.worth
      have hle : e'.solAmount ≤ value := by omega
      have hlookup : w₂.tickets.lookup accounts'.newTicketAccount
          = some ⟨.state, e'.beneficiary, e'.solAmount, e'.ticketEpoch⟩ := by
        rw [h'.tickets_eq, ← h'.ticket_eq, AList.lookup_insert]
      exact ⟨_, hlookup, rfl, hle.trans (hgranted (proportional_mul_le hvalue))⟩
    · intro accounts' w₂ e' he'
      obtain ⟨_, hp', heq'⟩ := reporting_eq_ok he'
      cases heq'
      have h' := LiquidUnstake.process_spec hp'
      refine ⟨hgranted ((proportional_mul_le h'.worth).trans
        (Nat.mul_le_mul_right _ (Nat.sub_le _ _))), fun k ↦ ?_⟩
      have hk := h'.lamports_eq k
      have hle := only_le accounts'.transferSolTo k e'.solAmount
      omega
    · intro accounts' i j beneficiary w₂ e' he'
      obtain ⟨_, hp', heq'⟩ := reporting_eq_ok he'
      cases heq'
      obtain ⟨_, d, _, _, _, h'⟩ := WithdrawStakeAccount.process_spec hp'
        ((wellFormed_of_reachable hr₁).stakes_sound.funded _)
      obtain ⟨value, hvalue, hfee⟩ := h'.worth
      have hle : e'.splitLamports ≤ value := by omega
      have hsplit := congrFun h'.stakes_eq accounts'.splitStakeAccount
      rw [Function.update_self] at hsplit
      exact ⟨_, _, hsplit, rfl, rfl, hle.trans (hgranted (proportional_mul_le hvalue))⟩
  · intro w hs accounts x w₁ e he accounts' w₂ e' he'
    obtain ⟨_, hp, heq⟩ := reporting_eq_ok he
    cases heq
    obtain ⟨_, hp', heq'⟩ := reporting_eq_ok he'
    cases heq'
    exact (AddLiquidity.process_spec hp).removed_le hs (RemoveLiquidity.process_spec hp')

end

/-! ## In the sample pool -/

namespace Sample

/-- The user buys mSOL, partly from the pool. -/
def bought : World × DepositEvent :=
  (Deposit.process ⟨user, msolAccount⟩ 12345678 pooled.2).toOption.get (by decide +kernel)

/-- The user orders a delayed unstake of all of it. -/
def ordered : World × OrderUnstakeEvent :=
  (OrderUnstake.process runtime ⟨msolAccount, user, .external 40⟩
    (bought.2.msolSwapped + bought.2.msolMinted) bought.1).toOption.get (by decide +kernel)

theorem exec_bought : exec runtime pooled.2 (.deposit ⟨user, msolAccount⟩ 12345678)
    = .ok (bought.1, .deposit bought.2) := by
  rw [exec, eq_ok_get (x := Deposit.process _ _ _) (by decide +kernel)]
  rfl

theorem exec_ordered : exec runtime bought.1 (.orderUnstake ⟨msolAccount, user, .external 40⟩
    (bought.2.msolSwapped + bought.2.msolMinted)) = .ok (ordered.1, .orderUnstake ordered.2) := by
  rw [exec, eq_ok_get (x := OrderUnstake.process _ _ _ _) (by decide +kernel)]
  rfl

end Sample

theorem roundTrip_sample : Sample.ordered.2.solAmount ≤ 12345678 := by
  obtain ⟨_, -, -, hle⟩ := (roundTrip_of_reachable.1 _ Sample.pooled_reachable (by decide +kernel)
    _ _ _ _ Sample.exec_bought).1 _ _ _ Sample.exec_ordered
  exact hle

end Marinade
