import Marinade.Invariants.Capital
import Marinade.Invariants.Flows
import Marinade.Replay

/-!
# The exchange rate never falls

One mSOL is worth the virtual stake divided by the mSOL supply. No instruction but a withdrawal of
stake and an update that finds slashing lowers it, whatever the fees, the pool and the gifts are:
the pool is a fund, and these instructions are flows of it.
-/

open Foundation Foundation.Ledger

namespace Marinade

variable {rt : Runtime} {w w' : World} {i : Instruction} {e : Event}

/-- While there is any mSOL, the virtual stake for one mSOL does not fall. -/
theorem exchangeRate_of_reachable (h : (marinade rt).Reachable w) (hsupply : 0 < w.msol.supply)
    (hi : i.isWithdrawStakeAccount = false) (ho : w.observesSlashing i = false)
    (he : exec rt w i = .ok (w', e)) :
    ∃ v v', w.state.totalVirtualStakedLamports = .ok v ∧
      w'.state.totalVirtualStakedLamports = .ok v' ∧
      v * w'.state.msolSupply ≤ v' * w.state.msolSupply := by
  have hw := wellFormed_of_reachable h
  have h' : (marinade rt).Reachable w' := h.step (l := .instruction i e) he
  have hflows := (executed_of_exec he hw.stakes_sound).flows hw (bounds_of_reachable h) hi ho
  exact ⟨_, _, totalVirtualStakedLamports_of_reachable h,
    totalVirtualStakedLamports_of_reachable h', hflows.priceLe hsupply⟩

/-- The user orders a delayed unstake from the sample pool. -/
theorem exchangeRate_sample : ∃ w' e v v',
    exec Sample.runtime Sample.staked.2
      (.orderUnstake ⟨Sample.treasury, Sample.user, .external 40⟩ 7000000) = .ok (w', e) ∧
    Sample.staked.2.state.totalVirtualStakedLamports = .ok v ∧
    w'.state.totalVirtualStakedLamports = .ok v' ∧
    v * w'.state.msolSupply ≤ v' * Sample.staked.2.state.msolSupply := by
  have hok : (exec Sample.runtime Sample.staked.2
      (.orderUnstake ⟨Sample.treasury, Sample.user, .external 40⟩ 7000000)).toOption.isSome
      = true := by decide +kernel
  obtain ⟨v, v', hv⟩ := exchangeRate_of_reachable Sample.staked_reachable (by decide +kernel)
    rfl rfl (eq_ok_get hok)
  exact ⟨_, _, v, v', eq_ok_get hok, hv⟩

end Marinade
