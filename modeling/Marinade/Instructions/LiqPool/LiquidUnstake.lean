import Marinade.Checks
import Marinade.Ownership

/-!
# Liquid unstake

The user sells mSOL to the liquidity pool for SOL at once. The fee rises as the liquidity left after
the swap falls; a cut of it goes to the treasury, the rest stays in the pool.
-/

open Foundation Foundation.Ledger

namespace Marinade

/-- The accounts of `liquid_unstake`. -/
structure LiquidUnstake where
  getMsolFrom : Pubkey
  getMsolFromAuthority : Pubkey
  transferSolTo : Pubkey
  deriving DecidableEq, Repr

structure LiquidUnstakeEvent where
  msolAmount : ℕ
  msolFee : ℕ
  treasuryMsolCut : ℕ
  solAmount : ℕ
  deriving DecidableEq, Repr

namespace LiquidUnstake

/-- The fee, from the liquidity that is left once the user has taken the SOL. -/
def fee (pool : LiqPool) (userRemoveLamports liqPoolAvailableSolBalance : ℕ) :
    Except Error Fee :=
  if liqPoolAvailableSolBalance ≤ userRemoveLamports then .ok pool.lpMaxFee
  else pool.linearFee (liqPoolAvailableSolBalance - userRemoveLamports)

def process (accounts : LiquidUnstake) (msolAmount : ℕ) (w : World) :
    Except Error (World × LiquidUnstakeEvent) := do
  let getMsolFrom ← orError (w.msol.holder accounts.getMsolFrom) .constraint
  ensure accounts.getMsolFromAuthority.canSign .constraint
  ensure (w.isSystemAccount accounts.transferSolTo) .constraint
  let s := w.state
  ensure (!s.paused) (.marinade .programIsPaused)
  checkTokenSourceAccount getMsolFrom (w.msol.amount accounts.getMsolFrom)
    accounts.getMsolFromAuthority msolAmount
  let treasuryMsolBalance := w.getTreasuryMsolBalance
  let liqPoolAvailableSolBalance := w.lamportsOf .solLeg - s.rentExemptForTokenAcc
  let userRemoveLamports ← s.msolToSol msolAmount
  let liquidUnstakeFee ← fee s.liqPool userRemoveLamports liqPoolAvailableSolBalance
  let msolFee := liquidUnstakeFee.apply msolAmount
  let msolAfterFee ← checkedSub .amount msolAmount msolFee
  let workingLamportsValue ← s.msolToSol msolAfterFee
  let needed ← checkedAdd workingLamportsValue s.rentExemptForTokenAcc
  ensure (needed ≤ w.lamportsOf .solLeg) (.marinade .insufficientLiquidity)
  ensure (s.minWithdraw ≤ workingLamportsValue) (.marinade .withdrawAmountIsTooLow)
  let chain ←
    SystemProgram.transferSome w.toChain .solLeg accounts.transferSolTo workingLamportsValue
  let treasuryMsolCut :=
    if treasuryMsolBalance.isSome then s.liqPool.treasuryCut.apply msolFee else 0
  let msolToPool ← checkedSub .amount msolAmount treasuryMsolCut
  let msol ← chain.msol.transfer accounts.getMsolFrom .msolLeg accounts.getMsolFromAuthority
    msolToPool
  let msol ← msol.transferSome accounts.getMsolFrom s.treasuryMsolAccount
    accounts.getMsolFromAuthority treasuryMsolCut
  return ({ w with toChain := { chain with msol } }, {
    msolAmount, msolFee, treasuryMsolCut, solAmount := workingLamportsValue })

/-- The effect of a successful liquid unstake. -/
structure Spec (accounts : LiquidUnstake) (msolAmount : ℕ) (w w' : World)
    (e : LiquidUnstakeEvent) : Prop where
  not_paused : w.state.paused = false
  system : w.isSystemAccount accounts.transferSolTo = true
  fee : ∃ remove f,
    proportional msolAmount w.state.virtualStaked w.state.msolSupply = .ok remove ∧
    fee w.state.liqPool remove (w.lamportsOf .solLeg - w.state.rentExemptForTokenAcc) = .ok f ∧
    e.msolFee = f.apply msolAmount
  fee_le : e.msolFee ≤ msolAmount
  cut : e.treasuryMsolCut = 0 ∨ e.treasuryMsolCut = w.state.liqPool.treasuryCut.apply e.msolFee
  cut_le : e.treasuryMsolCut ≤ msolAmount
  worth : proportional (msolAmount - e.msolFee) w.state.virtualStaked w.state.msolSupply
    = .ok e.solAmount
  covered : e.solAmount + w.state.rentExemptForTokenAcc ≤ w.lamportsOf .solLeg
  lamports_eq : ∀ k, w'.lamportsOf k + only .solLeg e.solAmount k
    = w.lamportsOf k + only accounts.transferSolTo e.solAmount k
  capital_eq : w'.lamports.total = w.lamports.total
  amount_eq : ∀ k, w'.msol.amount k + only accounts.getMsolFrom msolAmount k
    = w.msol.amount k + only .msolLeg (msolAmount - e.treasuryMsolCut) k
      + only w.state.treasuryMsolAccount e.treasuryMsolCut k
  payer_ne_leg : accounts.getMsolFrom ≠ .msolLeg
  le_amount : msolAmount - e.treasuryMsolCut ≤ w.msol.amount accounts.getMsolFrom
  supply_eq : w'.msol.supply = w.msol.supply
  state_eq : w'.state = w.state
  spares : w.SparesOthers [accounts.getMsolFromAuthority] w'.toChain
  frame : w'.toChain = { w.toChain with lamports := w'.lamports, msol := w'.msol }

variable {accounts : LiquidUnstake} {w w' : World} {x : ℕ} {e : LiquidUnstakeEvent}

theorem process_spec (h : accounts.process x w = .ok (w', e)) : Spec accounts x w w' e := by
  simp only [process, bind_eq_ok, ensure_eq_ok, orError_eq_ok, checkedSub_eq_ok, checkedAdd_eq_ok,
    pure_eq_ok, exists_const, State.msolToSol_eq_ok] at h
  obtain ⟨holder, -, hsign, hsys, hpaused, -, -, remove, ⟨-, hremove⟩, f, hfee, rest, ⟨hle, rfl⟩,
    sol, ⟨-, hsol⟩, needed, ⟨-, rfl⟩, hcovered, -, c₁, h₁, toPool, ⟨hcut, rfl⟩, m₁, hm₁, m₂, hm₂,
    hw⟩ := h
  cases hw
  have hspares : w.SparesOthers [accounts.getMsolFromAuthority] { c₁ with msol := m₂ } := by
    intro U hU
    have hpaid :=
      SystemProgram.transferSome_spares h₁ (Chain.not_owned_of_not_canSign (U := U) rfl)
    have hsold := TokenMint.transfer_spares hm₁ hU.not_head
    have hcut := TokenMint.transferSome_spares hm₂ hU.not_head
    exact hpaid.trans (.of_msol (hsold.trans hcut))
  obtain ⟨l₁, rfl, ht, -, hl⟩ := SystemProgram.transferSome_spec h₁
  obtain ⟨hs₁, hle₁, ha₁, hv⟩ := TokenMint.transfer_spec hm₁
  obtain ⟨hs₂, -, ha₂, -⟩ := TokenMint.transferSome_spec hm₂
  refine {
    not_paused := by simpa using hpaused
    system := hsys
    fee := ⟨remove, f, hremove, hfee, rfl⟩
    fee_le := hle
    cut := by simp only; split <;> simp
    cut_le := hcut
    worth := hsol
    covered := hcovered
    lamports_eq := hl
    capital_eq := ht
    amount_eq := fun k ↦ ?_
    payer_ne_leg := fun heq ↦ ?_
    le_amount := hle₁
    supply_eq := hs₂.trans hs₁
    state_eq := rfl
    spares := hspares
    frame := rfl }
  · have e₁ := ha₁ k
    have e₂ := ha₂ k
    have e₃ := only_add accounts.getMsolFrom k (x - _) _ |>.symm.trans
      (congrArg (only accounts.getMsolFrom · k) (Nat.sub_add_cancel hcut))
    simp only [TokenMint.amount] at *
    omega
  · have := hv .msolLegAuthority (by rw [heq]; rfl)
    rw [this] at hsign
    cases hsign

/-- Whoever takes all of the liquidity pays the fee of an empty pool. -/
theorem fee_eq {pool : LiqPool} (hv : pool.Valid) (value available : ℕ) :
    fee pool value available = pool.linearFee (available - value) := by
  unfold fee
  split
  · rw [Nat.sub_eq_zero_of_le ‹_›, LiqPool.linearFee_eq hv, slope_zero, Nat.sub_zero]
  · rfl

end LiquidUnstake

end Marinade
