import Marinade.Ownership

/-!
# Add liquidity

A provider puts SOL into the pool and gets LP tokens for it at the value of the pool before: the SOL
leg without its rent, and the mSOL leg at the current price.
-/

open Foundation Foundation.Ledger

namespace Marinade

/-- The accounts of `add_liquidity`. -/
structure AddLiquidity where
  transferFrom : Pubkey
  mintTo : Pubkey
  deriving DecidableEq, Repr

structure AddLiquidityEvent where
  lpSupply : ℕ
  solAddedAmount : ℕ
  lpMinted : ℕ
  deriving DecidableEq, Repr

namespace AddLiquidity

def process (accounts : AddLiquidity) (lamports : ℕ) (w : World) :
    Except Error (World × AddLiquidityEvent) := do
  ensure (w.isUnused accounts.transferFrom) .constraint
  ensure (w.lp.holder accounts.mintTo).isSome .constraint
  let s := w.state
  ensure (!s.paused) (.marinade .programIsPaused)
  ensure (s.minDeposit ≤ lamports) (.marinade .depositAmountIsTooLow)
  ensure (lamports ≤ w.lamportsOf accounts.transferFrom) (.marinade .notEnoughUserFunds)
  s.liqPool.checkLiquidityCap lamports (w.lamportsOf .solLeg)
  ensure (w.lp.supply ≤ s.liqPool.lpSupply) (.marinade .unregisteredLPMinted)
  -- update the virtual supply by the real one
  let lpSupply := w.lp.supply
  let s := { s with liqPool := { s.liqPool with lpSupply } }
  -- the value of the pool before the deposit
  let solLegAvailableBalance ←
    checkedSub .solLegAboveRent (w.lamportsOf .solLeg) s.rentExemptForTokenAcc
  let msolLegValue ← s.msolToSol (w.msol.amount .msolLeg)
  let totalLiqPoolValue ← checkedAdd solLegAvailableBalance msolLegValue
  let sharesForUser ← sharesFromValue lamports totalLiqPoolValue lpSupply
  let chain ← SystemProgram.transfer w.toChain accounts.transferFrom .solLeg lamports
  let lp ← chain.lp.mintTo accounts.mintTo sharesForUser
  let liqPool ← s.liqPool.onLpMint sharesForUser
  return ({ w with toChain := { chain with lp }, state := { s with liqPool } }, {
    lpSupply, solAddedAmount := lamports, lpMinted := sharesForUser })

/-- The effect of a successful deposit into the pool. -/
structure Spec (accounts : AddLiquidity) (lamports : ℕ) (w w' : World)
    (e : AddLiquidityEvent) : Prop where
  not_paused : w.state.paused = false
  payer_unused : w.isUnused accounts.transferFrom = true
  supply_le : w.lp.supply ≤ w.state.liqPool.lpSupply
  supply : e.lpSupply = w.lp.supply
  added : e.solAddedAmount = lamports
  rent_le : w.state.rentExemptForTokenAcc ≤ w.lamportsOf .solLeg
  shares : ∃ legValue,
    proportional (w.msol.amount .msolLeg) w.state.virtualStaked w.state.msolSupply
      = .ok legValue ∧
    sharesFromValue lamports
      (w.lamportsOf .solLeg - w.state.rentExemptForTokenAcc + legValue) w.lp.supply
      = .ok e.lpMinted
  lamports_eq : ∀ k, w'.lamportsOf k + only accounts.transferFrom lamports k
    = w.lamportsOf k + only .solLeg lamports k
  capital_eq : w'.lamports.total = w.lamports.total
  lp_supply_eq : w'.lp.supply = w.lp.supply + e.lpMinted
  lp_amount_eq : ∀ k, w'.lp.amount k = w.lp.amount k + only accounts.mintTo e.lpMinted k
  state_eq : w'.state = { w.state with
    liqPool := { w.state.liqPool with lpSupply := w.lp.supply + e.lpMinted } }
  spares : w.SparesOthers [accounts.transferFrom] w'.toChain
  frame : w'.toChain = { w.toChain with lamports := w'.lamports, lp := w'.lp }

variable {accounts : AddLiquidity} {w w' : World} {x : ℕ} {e : AddLiquidityEvent}

theorem process_spec (h : accounts.process x w = .ok (w', e)) : Spec accounts x w w' e := by
  simp only [process, bind_eq_ok, ensure_eq_ok, checkedSub_eq_ok, checkedAdd_eq_ok, pure_eq_ok,
    exists_const, State.msolToSol_eq_ok, LiqPool.onLpMint] at h
  obtain ⟨hunused, -, hpaused, -, -, -, -, hsupply, avail, ⟨hrent, rfl⟩, value, ⟨-, hvalue⟩,
    total, ⟨-, rfl⟩, shares, hshares, c₁, h₁, lp, hlp, pool, ⟨_, ⟨-, rfl⟩, rfl⟩, hw⟩ := h
  cases hw
  have hspares : w.SparesOthers [accounts.transferFrom] { c₁ with lp } := by
    intro U hU
    have hpaid :=
      SystemProgram.transfer_spares h₁ (Chain.not_owned_of_isUnused hU.not_head hunused)
    exact hpaid.trans (.of_lp (TokenMint.mintTo_spares hlp))
  obtain ⟨l₁, rfl, ht, -, hl⟩ := SystemProgram.transfer_spec h₁
  obtain ⟨-, rfl⟩ := TokenMint.mintTo_eq_ok.mp hlp
  exact {
    not_paused := by simpa using hpaused
    payer_unused := hunused
    supply_le := hsupply
    supply := rfl
    added := rfl
    rent_le := hrent
    shares := ⟨value, hvalue, hshares⟩
    lamports_eq := hl
    capital_eq := ht
    lp_supply_eq := rfl
    lp_amount_eq := mint_balance_eq
    state_eq := rfl
    spares := hspares
    frame := rfl }

end AddLiquidity

end Marinade
