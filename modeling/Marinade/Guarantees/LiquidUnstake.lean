import Marinade.Guarantees.LiquidityPool
import Marinade.Invariants.Capital

/-!
# The fee of a liquid unstake

The fee falls linearly from its maximum to its minimum while the liquidity that is left rises to the
target. Configuring the pool may change all four parameters one by one, but what is stored has been
validated as a whole, so the curve is always defined, falls, and stays between its ends.

Of the fee the treasury gets at most its cut; everything else that is sold goes to the pool, which
pays for what is left of it after the fee.
-/

open Foundation Foundation.Ledger

namespace Marinade

/-- The program, in which calls that fail are steps, too. -/
def attempted (rt : Runtime) : System World (Label ⊕ Instruction) :=
  (marinade rt).withAttempts fun w i ↦ ∃ error, exec rt w i = .error error

section

variable {rt : Runtime} {w w' : World} {x : ℕ}

/-! ## The split -/

namespace LiquidUnstake.Spec

variable {accounts : LiquidUnstake} {e : LiquidUnstakeEvent}

/-- The treasury gets at most 75% of the fee. -/
theorem cut_le_fee (h : Spec accounts x w w' e) (hv : w.state.liqPool.Valid) :
    4 * e.treasuryMsolCut ≤ 3 * e.msolFee := by
  rcases h.cut with hzero | hcut
  · omega
  · have hmul := Fee.apply_mul_le w.state.liqPool.treasuryCut e.msolFee
    have hcap : e.msolFee * w.state.liqPool.treasuryCut.basisPoints ≤ e.msolFee * 7500 :=
      Nat.mul_le_mul_left _ hv.cut_le
    rw [← hcut, Fee.maxBasisPoints] at hmul
    omega

/-- The user is paid for what is left after the fee, which is worth no more than all of it. -/
theorem solAmount_le {value : ℕ} (h : Spec accounts x w w' e)
    (hvalue : proportional x w.state.virtualStaked w.state.msolSupply = .ok value) :
    e.solAmount ≤ value := by
  rw [← State.msolValue_of_proportional h.worth, ← State.msolValue_of_proportional hvalue]
  exact State.msolValue_mono (Nat.sub_le _ _)

end LiquidUnstake.Spec

/-- Whatever was configured and attempted before, the curve is defined, stays between its ends and
falls, and both branches of the instruction take the fee from it. The mSOL that is sold is split
between the pool and the treasury, and what is paid is worth no more than it. -/
theorem liquid_unstake_fees (h : (attempted rt).Reachable w) :
    let pool := w.state.liqPool
    (∀ lamports, ∃ fee, pool.linearFee lamports = .ok fee ∧
      pool.lpMinFee.basisPoints ≤ fee.basisPoints ∧
      fee.basisPoints ≤ pool.lpMaxFee.basisPoints) ∧
    (∀ x y fee fee', x ≤ y → pool.linearFee x = .ok fee → pool.linearFee y = .ok fee' →
      fee'.basisPoints ≤ fee.basisPoints) ∧
    (∀ value available,
      LiquidUnstake.fee pool value available = pool.linearFee (available - value)) ∧
    ∀ accounts x w' e, exec rt w (.liquidUnstake accounts x) = .ok (w', .liquidUnstake e) →
      ∃ value fee toPool, w.state.msolToSol x = .ok value ∧
        pool.linearFee (w.solLegAvailable - value) = .ok fee ∧ e.msolFee = fee.apply x ∧
        toPool + e.treasuryMsolCut = x ∧
        (∀ k, w'.msol.amount k + only accounts.getMsolFrom x k = w.msol.amount k
          + only .msolLeg toPool k + only w.state.treasuryMsolAccount e.treasuryMsolCut k) ∧
        4 * e.treasuryMsolCut ≤ 3 * e.msolFee ∧ x ≤ toPool + e.msolFee ∧
        (∀ k, w'.lamportsOf k + only .solLeg e.solAmount k
          = w.lamportsOf k + only accounts.transferSolTo e.solAmount k) ∧
        e.solAmount ≤ value := by
  have hr : (marinade rt).Reachable w := System.reachable_withAttempts_iff.mp h
  have hv := (wellFormed_of_reachable hr).admissible.liq_pool
  refine ⟨LiqPool.linearFee_bounds hv, fun _ _ _ _ ↦ LiqPool.linearFee_antitone hv,
    LiquidUnstake.fee_eq hv, ?_⟩
  intro accounts x w' e he
  obtain ⟨_, hp, hevent⟩ := reporting_eq_ok he
  cases hevent
  have hspec := LiquidUnstake.process_spec hp
  obtain ⟨value, fee, hvalue, hfee, hmsolFee⟩ := hspec.fee
  have hcut := hspec.cut_le_fee hv
  have hcut_le := hspec.cut_le
  rw [LiquidUnstake.fee_eq hv] at hfee
  exact ⟨value, fee, x - e.treasuryMsolCut,
    State.msolToSol_eq_ok.mpr ⟨controlled_le_of_reachable hr, hvalue⟩, hfee, hmsolFee,
    Nat.sub_add_cancel hcut_le, hspec.amount_eq, hcut, by omega, hspec.lamports_eq,
    hspec.solAmount_le hvalue⟩

end

namespace Sample

/-- The fee is lowered, and the cut of the treasury is raised. -/
def tuned : List Label × World :=
  (replay runtime (fun _ _ ↦ true) fresh (pooling ++ [
    .run (.configLp user ⟨some ⟨50⟩, some ⟨400⟩, none, some ⟨7500⟩⟩)])).get (by decide +kernel)

theorem tuned_reachable : (marinade runtime).Reachable tuned.2 :=
  (run_of_replay (Option.some_get _).symm).reachable fresh_fresh

/-- The minimum alone is raised above the maximum. -/
def mistuning : Instruction :=
  .configLp user ⟨some ⟨500⟩, none, none, none⟩

theorem mistuning_fails :
    exec runtime tuned.2 mistuning = .error (.marinade .lpFeesAreWrongWayRound) :=
  map_eq_error.mp (by decide +kernel)

theorem tuned_attempted : (attempted runtime).Reachable tuned.2 :=
  (System.reachable_withAttempts_iff.mpr tuned_reachable).step (l := .inr mistuning)
    ⟨⟨_, mistuning_fails⟩, rfl⟩

/-- The user sells mSOL to the pool. -/
def exiting : Instruction :=
  .liquidUnstake ⟨msolAccount, user, user⟩ 7000000

theorem exiting_isSome : (exec runtime tuned.2 exiting).toOption.isSome = true := by
  decide +kernel

end Sample

/-- After a configuration that passed and one that failed. -/
theorem liquid_unstake_fees_sample : ∃ w' e value fee toPool,
    exec Sample.runtime Sample.tuned.2 Sample.exiting = .ok (w', .liquidUnstake e) ∧
    Sample.tuned.2.state.msolToSol 7000000 = .ok value ∧
    Sample.tuned.2.state.liqPool.linearFee (Sample.tuned.2.solLegAvailable - value) = .ok fee ∧
    50 ≤ fee.basisPoints ∧ fee.basisPoints ≤ 400 ∧ e.msolFee = fee.apply 7000000 ∧
    toPool + e.treasuryMsolCut = 7000000 ∧ 4 * e.treasuryMsolCut ≤ 3 * e.msolFee ∧
    7000000 ≤ toPool + e.msolFee ∧ e.solAmount ≤ value := by
  obtain ⟨w', a, he⟩ : ∃ w' e, exec Sample.runtime Sample.tuned.2
      (.liquidUnstake ⟨Sample.msolAccount, Sample.user, Sample.user⟩ 7000000) = .ok (w', e) :=
    ⟨_, _, eq_ok_get Sample.exiting_isSome⟩
  obtain ⟨e, -, rfl⟩ := reporting_eq_ok he
  obtain ⟨hbounds, -, -, hsplit⟩ := liquid_unstake_fees Sample.tuned_attempted
  obtain ⟨value, fee, toPool, hvalue, hfee, hmsolFee, hsum, -, hcut, hpool, -, hsol⟩ :=
    hsplit _ _ _ _ he
  obtain ⟨fee', hfee', hmin, hmax⟩ := hbounds (Sample.tuned.2.solLegAvailable - value)
  obtain rfl : fee' = fee := Except.ok.inj (hfee'.symm.trans hfee)
  have hmin_eq : Sample.tuned.2.state.liqPool.lpMinFee = ⟨50⟩ := by decide +kernel
  have hmax_eq : Sample.tuned.2.state.liqPool.lpMaxFee = ⟨400⟩ := by decide +kernel
  rw [hmin_eq] at hmin
  rw [hmax_eq] at hmax
  exact ⟨w', e, value, fee', toPool, he, hvalue, hfee, hmin, hmax, hmsolFee, hsum, hcut, hpool,
    hsol⟩

end Marinade
