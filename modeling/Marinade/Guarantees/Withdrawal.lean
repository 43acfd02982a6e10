import Marinade.Invariants.Capital
import Marinade.Invariants.Flows
import Marinade.Replay

/-!
# The price of mSOL in a withdrawal of stake

Whoever withdraws stake pays mSOL for it. Their worth is rounded down, and so is what is left of it
after the fee, both in favour of the pool. But the part that is burned is computed back from the
stake: it is rounded down as well, and what rounding leaves goes to the treasury. The mSOL burned
are then worth less than the stake, and the price of the others falls a little.
-/

open Foundation Foundation.Ledger Foundation.Valuation

namespace Marinade

/-- The stake that is withdrawn for `msolAmount`: its worth less the fee. -/
def State.withdrawnLamports (s : State) (msolAmount : ℕ) : ℕ :=
  s.msolValue msolAmount - s.withdrawStakeAccountFee.apply (s.msolValue msolAmount)

/-- Nothing goes to the treasury, or the stake is worth a whole number of mSOL, or it is more than
all the mSOL are worth. -/
def World.BurnsInFull (w : World) (msolAmount : ℕ) : Prop :=
  w.getTreasuryMsolBalance = none ∨
    w.state.virtualStaked ∣ w.state.withdrawnLamports msolAmount * w.state.msolSupply ∨
    w.state.virtualStaked < w.state.withdrawnLamports msolAmount

section

variable {rt : Runtime} {accounts : WithdrawStakeAccount} {w w' : World} {i j x : ℕ}
  {beneficiary : Pubkey} {e : WithdrawStakeAccountEvent} {account : StakeAccount}
  {d : Delegation} {r : StakeRecord} {v : ValidatorRecord} {topUp : ℕ}

namespace WithdrawStakeAccount

theorem Spec.virtualStaked_eq
    (h : Spec rt accounts i j x beneficiary w w' e account d r v topUp) :
    w'.state.virtualStaked = w.state.virtualStaked - e.splitLamports := by
  have htotal := h.total_balance
  rw [State.virtualStaked, State.virtualStaked, State.controlled, State.controlled, h.state_eq]
  simp only
  omega

/-- The stake is worth at most the mSOL that are given for it. -/
theorem Spec.split_le (h : Spec rt accounts i j x beneficiary w w' e account d r v topUp) :
    e.splitLamports = w.state.withdrawnLamports x ∧
      e.splitLamports * w.state.msolSupply ≤ x * w.state.virtualStaked := by
  obtain ⟨value, hvalue, hfee⟩ := h.worth
  have heq : w.state.msolValue x = value := State.msolValue_of_proportional hvalue
  constructor
  · rw [State.withdrawnLamports, heq]
    omega
  · calc e.splitLamports * w.state.msolSupply
      _ ≤ value * w.state.msolSupply := Nat.mul_le_mul_right _ (by omega)
      _ ≤ x * w.state.virtualStaked := proportional_mul_le hvalue

/-- Where the treasury takes the rest, the stake is turned back into mSOL. -/
theorem Spec.burned_eq (h : Spec rt accounts i j x beneficiary w w' e account d r v topUp)
    (hsupply : 0 < w.state.msolSupply)
    (ht : w.getTreasuryMsolBalance ≠ none) :
    0 < w.state.virtualStaked ∧
      e.msolBurned = e.splitLamports * w.state.msolSupply / w.state.virtualStaked := by
  obtain ⟨-, hle⟩ := h.split_le
  have hpos : 0 < w.state.virtualStaked := by
    by_contra hzero
    have hnone : w.state.virtualStaked = 0 := by omega
    rw [hnone, Nat.mul_zero] at hle
    exact absurd hle (Nat.not_le.mpr (Nat.mul_pos h.split_pos hsupply))
  have hback : e.splitLamports * w.state.msolSupply / w.state.virtualStaked ≤ x :=
    Nat.div_le_of_le_mul (by rw [Nat.mul_comm w.state.virtualStaked]; exact hle)
  have hpaid := h.paid
  have hfees := h.fees_eq
  rw [msolFees, if_pos (Option.isSome_iff_ne_none.mpr ht)] at hfees
  simp only [bind_eq_ok, State.calcMsolFromLamports_eq_ok, pure_eq_ok] at hfees
  obtain ⟨worth, ⟨-, hworth⟩, hfees⟩ := hfees
  rw [sharesFromValue, if_neg hsupply.ne'] at hworth
  rcases proportional_eq_ok.mp hworth with ⟨hzero, -⟩ | ⟨-, -, hworth⟩
  · omega
  · exact ⟨hpos, by omega⟩

/-- The price after the withdrawal is at least that before it if and only if mSOL are burned for all
of the stake. -/
theorem Spec.priceLe_iff (h : Spec rt accounts i j x beneficiary w w' e account d r v topUp)
    (hsupply : 0 < w.state.msolSupply) :
    PriceLe ⟨w.state.virtualStaked, w.state.msolSupply⟩
        ⟨w'.state.virtualStaked, w'.state.msolSupply⟩ ↔ w.BurnsInFull x := by
  obtain ⟨hsplit, hle⟩ := h.split_le
  have hburned := h.burned_le
  have hsupply' : w'.state.msolSupply = w.state.msolSupply - e.msolBurned := by rw [h.state_eq]
  rw [h.virtualStaked_eq, hsupply']
  by_cases ht : w.getTreasuryMsolBalance = none
  · -- all the mSOL are burned
    have hall : e.msolBurned = x := by
      have hpaid := h.paid
      have hfees := h.fees_eq
      rw [msolFees, ht, if_neg (by simp)] at hfees
      have hnone := Except.ok.inj hfees
      omega
    refine iff_of_true ?_ (.inl ht)
    rw [hall]
    exact priceLe_redeem hle
  · obtain ⟨hpos, hburn⟩ := h.burned_eq hsupply ht
    rw [World.BurnsInFull, ← hsplit]
    by_cases hmore : w.state.virtualStaked < e.splitLamports
    · -- no mSOL are left
      have hnone : w.state.msolSupply ≤ e.msolBurned := by
        rw [hburn, Nat.le_div_iff_mul_le hpos, Nat.mul_comm]
        exact Nat.mul_le_mul_right _ hmore.le
      refine iff_of_true ?_ (.inr (.inr hmore))
      rw [Nat.sub_eq_zero_of_le hnone, PriceLe, Nat.mul_zero]
      exact Nat.zero_le _
    · rw [hburn, priceLe_redeem_div_iff (Nat.not_lt.mp hmore) (by omega)]
      tauto

end WithdrawStakeAccount

/-- A withdrawal of stake leaves the others what their mSOL were worth if and only if mSOL are
burned for all of the stake. -/
theorem withdrawal_price_iff {e : Event} (h : (marinade rt).Reachable w)
    (hsupply : 0 < w.state.msolSupply)
    (he : exec rt w (.withdrawStakeAccount accounts i j x beneficiary) = .ok (w', e)) :
    ∃ v v', w.state.totalVirtualStakedLamports = .ok v ∧
      w'.state.totalVirtualStakedLamports = .ok v' ∧
      (v * w'.state.msolSupply ≤ v' * w.state.msolSupply ↔ w.BurnsInFull x) := by
  have h' : (marinade rt).Reachable w' := h.step (l := .instruction _ e) he
  obtain ⟨event, hp, -⟩ := reporting_eq_ok he
  obtain ⟨account, d, r, v, topUp, hspec⟩ :=
    WithdrawStakeAccount.process_spec hp ((wellFormed_of_reachable h).stakes_sound.funded _)
  exact ⟨_, _, totalVirtualStakedLamports_of_reachable h,
    totalVirtualStakedLamports_of_reachable h',
    hspec.priceLe_iff hsupply⟩

end

/-! ## A remainder -/

namespace Sample

/-- Withdrawals are switched on in the sample pool, where two mSOL are worth three lamports. -/
def withdrawing : List Action := staking ++ [
  .run (.configMarinade user ⟨none, none, none, none, none, none, none, some true, none, none, none,
    none, none⟩)]

def withdrawable : List Label × World :=
  (replay runtime (fun _ _ ↦ true) fresh withdrawing).get (by decide +kernel)

theorem withdrawable_reachable : (marinade runtime).Reachable withdrawable.2 :=
  (run_of_replay (Option.some_get _).symm).reachable fresh_fresh

/-- The user withdraws stake for `msolAmount`. -/
def withdrawal (msolAmount : ℕ) : Instruction :=
  .withdrawStakeAccount ⟨treasury, user, .external 30, .external 31, user⟩ 0 0 msolAmount user

theorem withdrawal_isSome :
    (exec runtime withdrawable.2 (withdrawal 7000001)).toOption.isSome = true := by
  decide +kernel

end Sample

/-- An even number of mSOL is worth a whole number of lamports. -/
theorem withdrawal_price_sample : ∃ w' e v v',
    exec Sample.runtime Sample.withdrawable.2 (Sample.withdrawal 7000000) = .ok (w', e) ∧
    Sample.withdrawable.2.state.totalVirtualStakedLamports = .ok v ∧
    w'.state.totalVirtualStakedLamports = .ok v' ∧
    v * w'.state.msolSupply ≤ v' * Sample.withdrawable.2.state.msolSupply := by
  have hsome : (exec Sample.runtime Sample.withdrawable.2
      (Sample.withdrawal 7000000)).toOption.isSome = true := by decide +kernel
  obtain ⟨v, v', hv, hv', hiff⟩ := withdrawal_price_iff Sample.withdrawable_reachable
    (by decide +kernel) (eq_ok_get hsome)
  exact ⟨_, _, v, v', eq_ok_get hsome, hv, hv', hiff.mpr (.inr (.inl (by decide +kernel)))⟩

/-- For an odd number of mSOL half a lamport is left, and the price of the others falls. -/
theorem withdrawal_price_falls : ∃ w w' e v v', (marinade Sample.runtime).Reachable w ∧
    0 < w.state.msolSupply ∧
    exec Sample.runtime w (Sample.withdrawal 7000001) = .ok (w', e) ∧
    w.state.totalVirtualStakedLamports = .ok v ∧ w'.state.totalVirtualStakedLamports = .ok v' ∧
    v' * w.state.msolSupply < v * w'.state.msolSupply :=
  ⟨_, _, _, 60000000, 49499999, Sample.withdrawable_reachable, by decide +kernel,
    eq_ok_get Sample.withdrawal_isSome, by decide +kernel, by decide +kernel, by decide +kernel⟩

end Marinade
