import Marinade.Invariants.Flows
import Marinade.Replay

/-!
# The value of the liquidity pool never falls

A share of the pool is worth its part of the two legs: the SOL above the rent, and the mSOL at the
current price. Swaps in either direction leave the pool at least as valuable, because what it gives
is rounded down and what it takes pays a fee. Liquidity is added and removed at the price of a
share, again rounded down.

None of this needs a run: it holds in every state in which the legs and the LP supply are what the
program sees to.
-/

open Foundation Foundation.Ledger

namespace Marinade

/-- The SOL leg without its rent. -/
def World.solLegAvailable (w : World) : ℕ :=
  w.lamportsOf .solLeg - w.state.rentExemptForTokenAcc

/-- What the pool is worth in lamports. -/
def World.poolValue (w : World) : ℕ :=
  w.solLegAvailable + w.state.msolValue (w.msol.amount .msolLeg)

/-! ## The value of mSOL -/

section MsolValue

variable {s s' : State} {x y a : ℕ}

theorem State.msolValue_congr (hv : s'.virtualStaked = s.virtualStaked)
    (hs : s'.msolSupply = s.msolSupply) : s'.msolValue x = s.msolValue x := by
  rw [msolValue, msolValue, hv, hs]

theorem State.msolValue_mono (hle : x ≤ y) : s.msolValue x ≤ s.msolValue y := by
  unfold msolValue
  split
  · exact hle
  · exact Nat.div_le_div_right (Nat.mul_le_mul_right _ hle)

theorem State.msolValue_le (hv : s.virtualStaked ≤ s'.virtualStaked)
    (hs : s'.msolSupply = s.msolSupply) : s.msolValue x ≤ s'.msolValue x := by
  unfold msolValue
  rw [hs]
  split
  · exact le_rfl
  · exact Nat.div_le_div_right (Nat.mul_le_mul_left _ hv)

/-- Two amounts are worth at most as much apart as together. -/
theorem State.msolValue_add_le : s.msolValue x + s.msolValue y ≤ s.msolValue (x + y) := by
  unfold msolValue
  split
  · exact le_rfl
  · rw [Nat.add_mul]
    exact Nat.div_add_div_le_add_div

/-- Together they are worth at most what one is worth and the other costs. -/
theorem State.msolValue_add_le_of_cost (hzero : s.msolSupply = 0 → y ≤ a)
    (h : 0 < s.msolSupply → y * s.virtualStaked ≤ a * s.msolSupply) :
    s.msolValue (x + y) ≤ s.msolValue x + a := by
  unfold msolValue
  split
  · exact Nat.add_le_add_left (hzero ‹_›) _
  · have hpos : 0 < s.msolSupply := Nat.pos_of_ne_zero ‹_›
    rw [← Nat.add_mul_div_right _ _ hpos, Nat.add_mul]
    exact Nat.div_le_div_right (Nat.add_le_add_left (h hpos) _)

end MsolValue

section

variable {rt : Runtime} {w w' : World} {x : ℕ}

/-! ## Swaps -/

/-- The pool gets at least the mSOL it pays for. -/
theorem LiquidUnstake.Spec.poolValue_le {accounts e} (h : LiquidUnstake.Spec accounts x w w' e)
    (hv : w.state.liqPool.Valid) :
    w.poolValue ≤ w'.poolValue ∧ w'.state.rentExemptForTokenAcc ≤ w'.lamportsOf .solLeg := by
  have hleg := h.lamports_eq .solLeg
  have hcovered := h.covered
  rw [only_self] at hleg
  have hcut : e.treasuryMsolCut ≤ e.msolFee := by
    rcases h.cut with hzero | hcut
    · rw [hzero]
      exact Nat.zero_le _
    · rw [hcut]
      refine Fee.apply_le (hv.cut_le.trans ?_) _
      decide
  have hmsol : w.msol.amount .msolLeg + (x - e.msolFee) ≤ w'.msol.amount .msolLeg := by
    have hamount := h.amount_eq .msolLeg
    rw [only_of_ne h.payer_ne_leg.symm, only_self] at hamount
    omega
  have hvalue : w.state.msolValue (w.msol.amount .msolLeg) + e.solAmount
      ≤ w'.state.msolValue (w'.msol.amount .msolLeg) := by
    rw [h.state_eq, ← State.msolValue_of_proportional h.worth]
    exact State.msolValue_add_le.trans (State.msolValue_mono hmsol)
  rw [World.poolValue, World.poolValue, World.solLegAvailable, World.solLegAvailable, h.state_eq]
  rw [h.state_eq] at hvalue
  omega

/-- The pool gets at least what it sells. -/
theorem Deposit.Spec.poolValue_le {accounts e} (h : Deposit.Spec accounts x w w' e)
    (hrent : w.state.rentExemptForTokenAcc ≤ w.lamportsOf .solLeg) :
    w.poolValue ≤ w'.poolValue ∧ w'.state.rentExemptForTokenAcc ≤ w'.lamportsOf .solLeg := by
  have hleg := h.lamports_eq .solLeg
  rw [only_of_ne (Chain.ne_of_not_canSign rfl h.payer_unused), only_self,
    only_of_ne (by decide)] at hleg
  have hamount := h.amount_eq .msolLeg
  rw [only_self] at hamount
  have hstate : w'.state.rentExemptForTokenAcc = w.state.rentExemptForTokenAcc ∧
      w'.state.msolSupply = w.state.msolSupply + e.msolMinted ∧
      w'.state.circulatingTicketBalance = w.state.circulatingTicketBalance := by
    rw [h.state_eq]
    exact ⟨rfl, rfl, rfl⟩
  obtain ⟨hrent', hsupply, htickets⟩ := hstate
  have hcontrolled := h.controlled_eq
  have hpaid := h.paid
  -- the leg loses at most what it was paid for
  have hvalue : w.state.msolValue (w.msol.amount .msolLeg)
      ≤ e.solSwapped + w'.state.msolValue (w'.msol.amount .msolLeg) := by
    rcases h.filled with ⟨hswapped, hsol⟩ | ⟨-, hminted, hsol⟩ | ⟨hswapped, -, hworth⟩
    · rcases Nat.eq_zero_or_pos e.msolMinted with hminted | hminted
      · have hgrows : w.state.virtualStaked ≤ w'.state.virtualStaked := by
          unfold State.virtualStaked
          omega
        calc w.state.msolValue (w.msol.amount .msolLeg)
          _ ≤ w.state.msolValue (w'.msol.amount .msolLeg) := State.msolValue_mono (by omega)
          _ ≤ w'.state.msolValue (w'.msol.amount .msolLeg) :=
              State.msolValue_le hgrows (by omega)
          _ ≤ e.solSwapped + w'.state.msolValue (w'.msol.amount .msolLeg) :=
              Nat.le_add_left _ _
      · have hempty : w.msol.amount .msolLeg = 0 := by
          have hmin := h.swapped
          omega
        have hzero : w.state.msolValue 0 = 0 := by simp [State.msolValue]
        rw [hempty, hzero]
        exact Nat.zero_le _
    · have hsame : w'.state.msolValue (w'.msol.amount .msolLeg)
          = w.state.msolValue (w'.msol.amount .msolLeg) := by
        refine State.msolValue_congr ?_ (by omega)
        unfold State.virtualStaked
        omega
      rw [hsame, Nat.add_comm]
      refine (State.msolValue_mono (y := w'.msol.amount .msolLeg + e.msolSwapped)
        (by omega)).trans (State.msolValue_add_le_of_cost (fun hzero ↦ ?_) fun hpos ↦ ?_)
      · have horder := h.order
        rw [sharesFromValue, if_pos hzero] at horder
        have hall := Except.ok.inj horder
        omega
      · have horder := h.order_le hpos
        rw [hminted, Nat.add_zero] at horder
        rwa [hsol]
    · rw [← hswapped, State.msolValue_of_proportional hworth]
      exact Nat.le_add_right _ _
  rw [World.poolValue, World.poolValue, World.solLegAvailable, World.solLegAvailable, hrent']
  omega

/-! ## Shares of the pool -/

/-- Adding liquidity raises the value of the pool by what is added. -/
theorem AddLiquidity.Spec.poolValue_eq {accounts e} (h : AddLiquidity.Spec accounts x w w' e) :
    w'.poolValue = w.poolValue + x ∧ w'.state.rentExemptForTokenAcc ≤ w'.lamportsOf .solLeg := by
  have hleg := h.lamports_eq .solLeg
  rw [only_of_ne (Chain.ne_of_not_canSign rfl h.payer_unused), only_self] at hleg
  have hrent := h.rent_le
  have hmsol : w'.msol.amount .msolLeg = w.msol.amount .msolLeg := by rw [h.frame]
  have hstate : w'.state.rentExemptForTokenAcc = w.state.rentExemptForTokenAcc := by
    rw [h.state_eq]
  have hvalue : w'.state.msolValue (w.msol.amount .msolLeg)
      = w.state.msolValue (w.msol.amount .msolLeg) :=
    State.msolValue_congr (by rw [h.state_eq]; rfl) (by rw [h.state_eq])
  rw [World.poolValue, World.poolValue, World.solLegAvailable, World.solLegAvailable, hstate, hmsol,
    hvalue]
  omega

/-- The LP tokens minted cost at most what was added. -/
theorem AddLiquidity.Spec.shares_le {accounts e} (h : AddLiquidity.Spec accounts x w w' e)
    (hs : 0 < w.lp.supply) : e.lpMinted * w.poolValue ≤ x * w.lp.supply := by
  obtain ⟨value, hvalue, hshares⟩ := h.shares
  have hle := sharesFromValue_mul_le hshares hs
  rwa [← State.msolValue_of_proportional hvalue] at hle

/-- Each leg loses at most the part of it that the burned LP tokens stand for. -/
theorem RemoveLiquidity.Spec.legs_le {accounts e} (h : RemoveLiquidity.Spec accounts x w w' e) :
    w.solLegAvailable * (alignedSupply w - x) ≤ w'.solLegAvailable * alignedSupply w ∧
    w.msol.amount .msolLeg * (alignedSupply w - x)
      ≤ w'.msol.amount .msolLeg * alignedSupply w ∧
    w'.state.rentExemptForTokenAcc ≤ w'.lamportsOf .solLeg := by
  have hleg := h.lamports_eq .solLeg
  have hmsol := h.amount_eq .msolLeg
  rw [only_self] at hleg hmsol
  have hrent := h.rent_le
  have hstate : w'.state.rentExemptForTokenAcc = w.state.rentExemptForTokenAcc := by
    rw [h.state_eq]
  have hout : e.solOutAmount ≤ w.solLegAvailable := by
    rcases Nat.eq_zero_or_pos (alignedSupply w) with hzero | hpos
    · have htokens := h.tokens_le
      have hnone := h.sol_out
      rw [hzero, proportional, if_pos rfl] at hnone
      have hout := Except.ok.inj hnone
      omega
    · exact Valuation.le_value_of_redeem (proportional_mul_le h.sol_out) h.tokens_le hpos
  have hsol : w.solLegAvailable - e.solOutAmount ≤ w'.solLegAvailable := by
    unfold World.solLegAvailable
    rw [hstate]
    omega
  have hmsol_le : w.msol.amount .msolLeg - e.msolOutAmount ≤ w'.msol.amount .msolLeg := by omega
  refine ⟨?_, ?_, ?_⟩
  · exact Nat.le_trans (Valuation.priceLe_redeem (proportional_mul_le h.sol_out))
      (Nat.mul_le_mul_right _ hsol)
  · exact Nat.le_trans (Valuation.priceLe_redeem (proportional_mul_le h.msol_out))
      (Nat.mul_le_mul_right _ hmsol_le)
  · unfold World.solLegAvailable at hout
    rw [hstate]
    omega

/-! ## The pool as a whole -/

/-- Swaps do not lower the value of the pool, added liquidity does not lower the value of an LP
token, and removed liquidity does not lower its part of either leg. `w.lp.supply` is the supply that
both instructions align to. None of the four touches the rent of the SOL leg. -/
theorem liqPool_value (hrent : w.state.rentExemptForTokenAcc ≤ w.lamportsOf .solLeg)
    (hlp : w.lp.supply ≤ w.state.liqPool.lpSupply) (hv : w.state.liqPool.Valid) :
    (∀ accounts x w' e, exec rt w (.liquidUnstake accounts x) = .ok (w', e) →
      w.poolValue ≤ w'.poolValue ∧
      w'.state.rentExemptForTokenAcc ≤ w'.lamportsOf .solLeg) ∧
    (∀ accounts x w' e, exec rt w (.deposit accounts x) = .ok (w', e) →
      w.poolValue ≤ w'.poolValue ∧
      w'.state.rentExemptForTokenAcc ≤ w'.lamportsOf .solLeg) ∧
    (∀ accounts x w' e, exec rt w (.addLiquidity accounts x) = .ok (w', e) →
      (0 < w.lp.supply →
        w.poolValue * w'.state.liqPool.lpSupply ≤ w'.poolValue * w.lp.supply) ∧
      w'.state.rentExemptForTokenAcc ≤ w'.lamportsOf .solLeg) ∧
    ∀ accounts x w' e, exec rt w (.removeLiquidity accounts x) = .ok (w', e) →
      w.solLegAvailable * w'.state.liqPool.lpSupply ≤ w'.solLegAvailable * w.lp.supply ∧
      w.msol.amount .msolLeg * w'.state.liqPool.lpSupply
        ≤ w'.msol.amount .msolLeg * w.lp.supply ∧
      w'.state.rentExemptForTokenAcc ≤ w'.lamportsOf .solLeg := by
  refine ⟨?_, ?_, ?_, ?_⟩
  · intro accounts x w' e he
    obtain ⟨_, hp, -⟩ := reporting_eq_ok he
    exact (LiquidUnstake.process_spec hp).poolValue_le hv
  · intro accounts x w' e he
    obtain ⟨_, hp, -⟩ := reporting_eq_ok he
    exact (Deposit.process_spec hp).poolValue_le hrent
  · intro accounts x w' e he
    obtain ⟨_, hp, -⟩ := reporting_eq_ok he
    have h := AddLiquidity.process_spec hp
    refine ⟨fun hs ↦ ?_, h.poolValue_eq.2⟩
    rw [h.poolValue_eq.1, h.state_eq]
    exact Valuation.priceLe_issue (h.shares_le hs)
  · intro accounts x w' e he
    obtain ⟨_, hp, -⟩ := reporting_eq_ok he
    have h := RemoveLiquidity.process_spec hp
    have haligned : RemoveLiquidity.alignedSupply w = w.lp.supply := if_neg (Nat.not_lt.mpr hlp)
    have hlegs := h.legs_le
    rw [haligned] at hlegs
    rw [h.state_eq, haligned]
    rw [h.state_eq] at hlegs
    exact hlegs

end

/-! ## A small pool with liquidity -/

namespace Sample

/-- The user buys mSOL, adds liquidity and sells some of the mSOL to the pool. -/
def pooling : List Action := [
  .run (.deposit ⟨user, msolAccount⟩ 40000000),
  .run (.addLiquidity ⟨user, lpAccount⟩ 60000000),
  .run (.liquidUnstake ⟨msolAccount, user, user⟩ 7000000)]

def pooled : List Label × World :=
  (replay runtime (fun _ _ ↦ true) fresh pooling).get (by decide +kernel)

theorem pooled_reachable : (marinade runtime).Reachable pooled.2 :=
  (run_of_replay (Option.some_get _).symm).reachable fresh_fresh

end Sample

/-- The user of the sample pool removes a part of the liquidity. -/
theorem liqPool_value_sample : ∃ w' e,
    exec Sample.runtime Sample.pooled.2
      (.removeLiquidity ⟨Sample.lpAccount, Sample.user, Sample.user, Sample.msolAccount⟩ 20000001)
      = .ok (w', e) ∧
    Sample.pooled.2.solLegAvailable * w'.state.liqPool.lpSupply
      ≤ w'.solLegAvailable * Sample.pooled.2.lp.supply := by
  have hok : (exec Sample.runtime Sample.pooled.2
      (.removeLiquidity ⟨Sample.lpAccount, Sample.user, Sample.user, Sample.msolAccount⟩
        20000001)).toOption.isSome = true := by decide +kernel
  have hrent : Sample.pooled.2.state.rentExemptForTokenAcc
      ≤ Sample.pooled.2.lamportsOf .solLeg := by decide +kernel
  have hlp : Sample.pooled.2.lp.supply ≤ Sample.pooled.2.state.liqPool.lpSupply := by
    decide +kernel
  have hv : Sample.pooled.2.state.liqPool.Valid :=
    LiqPool.validate_eq_ok.mp (eq_ok_get (by decide +kernel))
  exact ⟨_, _, eq_ok_get hok, ((liqPool_value hrent hlp hv).2.2.2 _ _ _ _ (eq_ok_get hok)).1⟩

end Marinade
