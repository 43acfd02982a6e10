import Marinade.Checks
import Marinade.Ownership

/-!
# Remove liquidity

A provider burns LP tokens and gets the same share of both legs of the pool.
-/

open Foundation Foundation.Ledger

namespace Marinade

/-- The accounts of `remove_liquidity`. -/
structure RemoveLiquidity where
  burnFrom : Pubkey
  burnFromAuthority : Pubkey
  transferSolTo : Pubkey
  transferMsolTo : Pubkey
  deriving DecidableEq, Repr

structure RemoveLiquidityEvent where
  lpBurned : ℕ
  solOutAmount : ℕ
  msolOutAmount : ℕ
  deriving DecidableEq, Repr

namespace RemoveLiquidity

/-- The stored supply, lowered to the real one after burns. -/
def alignedSupply (w : World) : ℕ :=
  if w.state.liqPool.lpSupply < w.lp.supply then w.state.liqPool.lpSupply else w.lp.supply

def process (accounts : RemoveLiquidity) (tokens : ℕ) (w : World) :
    Except Error (World × RemoveLiquidityEvent) := do
  let burnFrom ← orError (w.lp.holder accounts.burnFrom) .constraint
  ensure accounts.burnFromAuthority.canSign .constraint
  ensure (w.isSystemAccount accounts.transferSolTo) .constraint
  ensure (w.msol.holder accounts.transferMsolTo).isSome .constraint
  let s := w.state
  ensure (!s.paused) (.marinade .programIsPaused)
  checkTokenSourceAccount burnFrom (w.lp.amount accounts.burnFrom) accounts.burnFromAuthority
    tokens
  let s := { s with liqPool := { s.liqPool with lpSupply := alignedSupply w } }
  let solLegAvailableBalance ←
    checkedSub .solLegAboveRent (w.lamportsOf .solLeg) s.rentExemptForTokenAcc
  let solOutAmount ← proportional tokens solLegAvailableBalance s.liqPool.lpSupply
  let msolOutAmount ← proportional tokens (w.msol.amount .msolLeg) s.liqPool.lpSupply
  let msolOutValue ← s.msolToSol msolOutAmount
  let outValue ← checkedAdd solOutAmount msolOutValue
  ensure (s.minWithdraw ≤ outValue) (.marinade .withdrawAmountIsTooLow)
  let chain ← SystemProgram.transferSome w.toChain .solLeg accounts.transferSolTo solOutAmount
  let msol ← chain.msol.transferSome .msolLeg accounts.transferMsolTo .msolLegAuthority
    msolOutAmount
  let lp ← chain.lp.burn accounts.burnFrom accounts.burnFromAuthority tokens
  let liqPool ← s.liqPool.onLpBurn tokens
  return ({ w with toChain := { chain with msol, lp }, state := { s with liqPool } }, {
    lpBurned := tokens, solOutAmount, msolOutAmount })

/-- The effect of a successful withdrawal from the pool. -/
structure Spec (accounts : RemoveLiquidity) (tokens : ℕ) (w w' : World)
    (e : RemoveLiquidityEvent) : Prop where
  not_paused : w.state.paused = false
  system : w.isSystemAccount accounts.transferSolTo = true
  burned : e.lpBurned = tokens
  rent_le : w.state.rentExemptForTokenAcc ≤ w.lamportsOf .solLeg
  sol_out : proportional tokens (w.lamportsOf .solLeg - w.state.rentExemptForTokenAcc)
    (alignedSupply w) = .ok e.solOutAmount
  msol_out : proportional tokens (w.msol.amount .msolLeg) (alignedSupply w)
    = .ok e.msolOutAmount
  msol_value : ∃ value,
    proportional e.msolOutAmount w.state.virtualStaked w.state.msolSupply = .ok value
  tokens_le : tokens ≤ alignedSupply w
  lamports_eq : ∀ k, w'.lamportsOf k + only .solLeg e.solOutAmount k
    = w.lamportsOf k + only accounts.transferSolTo e.solOutAmount k
  capital_eq : w'.lamports.total = w.lamports.total
  amount_eq : ∀ k, w'.msol.amount k + only .msolLeg e.msolOutAmount k
    = w.msol.amount k + only accounts.transferMsolTo e.msolOutAmount k
  supply_eq : w'.msol.supply = w.msol.supply
  lp_supply_eq : w'.lp.supply + tokens = w.lp.supply
  lp_amount_eq : ∀ k, w'.lp.amount k + only accounts.burnFrom tokens k = w.lp.amount k
  state_eq : w'.state = { w.state with
    liqPool := { w.state.liqPool with lpSupply := alignedSupply w - tokens } }
  spares : w.SparesOthers [accounts.burnFromAuthority] w'.toChain
  frame : w'.toChain = { w.toChain with
    lamports := w'.lamports, msol := w'.msol, lp := w'.lp }

variable {accounts : RemoveLiquidity} {w w' : World} {x : ℕ} {e : RemoveLiquidityEvent}

theorem process_spec (h : accounts.process x w = .ok (w', e)) : Spec accounts x w w' e := by
  simp only [process, bind_eq_ok, ensure_eq_ok, orError_eq_ok, checkedSub_eq_ok, checkedAdd_eq_ok,
    pure_eq_ok, exists_const, State.msolToSol_eq_ok, LiqPool.onLpBurn] at h
  obtain ⟨holder, -, hsign, hsys, -, hpaused, -, -, avail, ⟨hrent, rfl⟩, sol, hsol, out, hout,
    value, ⟨-, hvalue⟩, total, ⟨-, rfl⟩, -, c₁, h₁, msol, hm, lp, hlp, pool,
    ⟨_, ⟨hle, rfl⟩, rfl⟩, hw⟩ := h
  cases hw
  have hspares : w.SparesOthers [accounts.burnFromAuthority] { c₁ with msol, lp } := by
    intro U hU
    have hpaid :=
      SystemProgram.transferSome_spares h₁ (Chain.not_owned_of_not_canSign (U := U) rfl)
    have hmsol : c₁.Spares U { c₁ with msol } :=
      .of_msol (TokenMint.transferSome_spares hm (hU.not_program rfl))
    have hburned : { c₁ with msol }.Spares U { c₁ with msol, lp } :=
      .of_lp (TokenMint.burn_spares hlp hU.not_head)
    exact (hpaid.trans hmsol).trans hburned
  obtain ⟨l₁, rfl, ht, -, hl⟩ := SystemProgram.transferSome_spec h₁
  obtain ⟨hs, -, ha, -⟩ := TokenMint.transferSome_spec hm
  obtain ⟨hlps, -, hlpa, -⟩ := TokenMint.burn_spec hlp
  exact {
    not_paused := by simpa using hpaused
    system := hsys
    burned := rfl
    rent_le := hrent
    sol_out := hsol
    msol_out := hout
    msol_value := ⟨value, hvalue⟩
    tokens_le := hle
    lamports_eq := hl
    capital_eq := ht
    amount_eq := ha
    supply_eq := hs
    lp_supply_eq := hlps
    lp_amount_eq := hlpa
    state_eq := rfl
    spares := hspares
    frame := rfl }

end RemoveLiquidity

end Marinade
