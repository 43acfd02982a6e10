import Marinade.Ownership

/-!
# Deposit SOL

The user buys mSOL at the current price, first from the mSOL leg of the liquidity pool and, for what
the pool cannot fill, from the program, which mints it against a deposit into the reserve.
-/

open Foundation Foundation.Ledger

namespace Marinade

/-- The accounts of `deposit`. -/
structure Deposit where
  transferFrom : Pubkey
  mintTo : Pubkey
  deriving DecidableEq, Repr

structure DepositEvent where
  solSwapped : ℕ
  msolSwapped : ℕ
  solDeposited : ℕ
  msolMinted : ℕ
  totalVirtualStakedLamports : ℕ
  msolSupply : ℕ
  solFees : ℕ
  deriving DecidableEq, Repr

namespace Deposit

/-- What the pool asks for the mSOL it sells: the whole deposit when it fills the whole order, and
the value of what it sells when it fills a part. -/
def solSwapped (s : State) (lamports userMsolBuyOrder msolSwapped : ℕ) : Except Error ℕ :=
  if 0 < msolSwapped then
    if userMsolBuyOrder = msolSwapped then .ok lamports else s.msolToSol msolSwapped
  else .ok 0

/-- The sale from the liquidity pool. -/
def swap (accounts : Deposit) (msolSwapped solSwapped : ℕ) (w : World) : Except Error World :=
  if 0 < msolSwapped then do
    let msol ← w.msol.transfer .msolLeg accounts.mintTo .msolLegAuthority msolSwapped
    let chain ← SystemProgram.transfer { w.toChain with msol } accounts.transferFrom .solLeg
      solSwapped
    return { w with toChain := chain }
  else .ok w

/-- The deposit into the reserve. -/
def transferToReserve (accounts : Deposit) (solDeposited : ℕ) (w : World) : Except Error World :=
  if 0 < solDeposited then do
    w.state.checkStakingCap solDeposited
    let chain ← SystemProgram.transfer w.toChain accounts.transferFrom .reserve solDeposited
    let state ← w.state.onTransferToReserve solDeposited
    return { w with toChain := chain, state }
  else .ok w

/-- The mint of what the pool did not sell. -/
def mint (accounts : Deposit) (msolMinted : ℕ) (w : World) : Except Error World :=
  if 0 < msolMinted then do
    let msol ← w.msol.mintTo accounts.mintTo msolMinted
    let state ← w.state.onMsolMint msolMinted
    return { w with msol, state }
  else .ok w

def process (accounts : Deposit) (lamports : ℕ) (w : World) :
    Except Error (World × DepositEvent) := do
  ensure (w.isUnused accounts.transferFrom) .constraint
  ensure (w.msol.holder accounts.mintTo).isSome .constraint
  let s := w.state
  ensure (!s.paused) (.marinade .programIsPaused)
  ensure (s.minDeposit ≤ lamports) (.marinade .depositAmountIsTooLow)
  ensure (lamports ≤ w.lamportsOf accounts.transferFrom) (.marinade .notEnoughUserFunds)
  ensure (w.msol.supply ≤ s.msolSupply) (.marinade .unregisteredMsolMinted)
  let totalVirtualStakedLamports ← s.totalVirtualStakedLamports
  let solFees := s.depositSolFee.apply lamports
  let lamportsMinusFee := lamports - solFees
  let userMsolBuyOrder ← s.calcMsolFromLamports lamportsMinusFee
  let msolSwapped := min userMsolBuyOrder (w.msol.amount .msolLeg)
  let solSwapped ← solSwapped s lamports userMsolBuyOrder msolSwapped
  let w ← accounts.swap msolSwapped solSwapped w
  let solDeposited ← checkedSub .amount lamports solSwapped
  let w ← accounts.transferToReserve solDeposited w
  let msolMinted ← checkedSub .amount userMsolBuyOrder msolSwapped
  let w ← accounts.mint msolMinted w
  return (w, {
    solSwapped, msolSwapped, solDeposited, msolMinted, totalVirtualStakedLamports
    msolSupply := s.msolSupply, solFees })

/-! ## What a deposit does -/

/-- The effect of a successful deposit. -/
structure Spec (accounts : Deposit) (lamports : ℕ) (w w' : World) (e : DepositEvent) : Prop where
  not_paused : w.state.paused = false
  payer_unused : w.isUnused accounts.transferFrom = true
  supply_le : w.msol.supply ≤ w.state.msolSupply
  order : sharesFromValue (lamports - w.state.depositSolFee.apply lamports)
    w.state.virtualStaked w.state.msolSupply = .ok (e.msolSwapped + e.msolMinted)
  swapped : e.msolSwapped = min (e.msolSwapped + e.msolMinted) (w.msol.amount .msolLeg)
  price : solSwapped w.state lamports (e.msolSwapped + e.msolMinted) e.msolSwapped
    = .ok e.solSwapped
  paid : e.solSwapped + e.solDeposited = lamports
  lamports_eq : ∀ k, w'.lamportsOf k + only accounts.transferFrom lamports k
    = w.lamportsOf k + only .solLeg e.solSwapped k + only .reserve e.solDeposited k
  capital_eq : w'.lamports.total = w.lamports.total
  amount_eq : ∀ k, w'.msol.amount k + only .msolLeg e.msolSwapped k
    = w.msol.amount k + only accounts.mintTo (e.msolSwapped + e.msolMinted) k
  supply_eq : w'.msol.supply = w.msol.supply + e.msolMinted
  state_eq : w'.state = { w.state with
    availableReserveBalance := w.state.availableReserveBalance + e.solDeposited
    msolSupply := w.state.msolSupply + e.msolMinted }
  spares : w.SparesOthers [accounts.transferFrom] w'.toChain
  frame : w'.toChain = { w.toChain with lamports := w'.lamports, msol := w'.msol }

section

variable {accounts : Deposit} {w w' : World} {x y : ℕ} {e : DepositEvent}

/-- Nothing is paid for nothing. -/
theorem solSwapped_zero {s : State} {order r : ℕ} (h : solSwapped s x order 0 = .ok r) : r = 0 := by
  cases h
  rfl

private theorem swap_spec (hnone : w.stakes accounts.transferFrom = none) (hy : x = 0 → y = 0)
    (h : accounts.swap x y w = .ok w') :
    w.SparesOthers [accounts.transferFrom] w'.toChain ∧
    ∃ ledger msol, w' = { w with lamports := ledger, msol := msol } ∧
      (∀ k, ledger.balance k + only accounts.transferFrom y k
        = w.lamportsOf k + only .solLeg y k) ∧
      ledger.total = w.lamports.total ∧
      (∀ k, msol.amount k + only .msolLeg x k = w.msol.amount k + only accounts.mintTo x k) ∧
      msol.supply = w.msol.supply := by
  unfold swap at h
  split at h
  · simp only [bind_eq_ok, pure_eq_ok] at h
    obtain ⟨msol, hmsol, c, hc, rfl⟩ := h
    obtain ⟨ledger, hl, rfl⟩ := SystemProgram.transfer_eq_ok.mp hc
    obtain ⟨hs, -, ha, -⟩ := TokenMint.transfer_spec hmsol
    refine ⟨fun U hU ↦ ?_, ledger, msol, rfl, transfer_balance hl, transfer_total hl, ha, hs⟩
    have hswapped := TokenMint.transfer_spares hmsol (hU.not_program rfl)
    have hpaid := SystemProgram.transfer_spares hc
      (Chain.not_owned_of_stakes_none hU.not_head hnone)
    exact (Chain.Spares.of_msol hswapped).trans hpaid
  · cases h
    obtain rfl : x = 0 := by omega
    exact ⟨.refl _, w.lamports, w.msol, rfl, by simp [hy rfl], rfl, by simp, rfl⟩

private theorem transferToReserve_spec (hnone : w.stakes accounts.transferFrom = none)
    (h : accounts.transferToReserve x w = .ok w') :
    w.SparesOthers [accounts.transferFrom] w'.toChain ∧ ∃ ledger, w' = { w with
        lamports := ledger
        state := { w.state with
          availableReserveBalance := w.state.availableReserveBalance + x } } ∧
      (∀ k, ledger.balance k + only accounts.transferFrom x k
        = w.lamportsOf k + only .reserve x k) ∧
      ledger.total = w.lamports.total := by
  unfold transferToReserve at h
  split at h
  · simp only [bind_eq_ok, State.onTransferToReserve_eq_ok, pure_eq_ok] at h
    obtain ⟨-, -, c, hc, state, ⟨-, rfl⟩, rfl⟩ := h
    obtain ⟨ledger, hl, rfl⟩ := SystemProgram.transfer_eq_ok.mp hc
    refine ⟨fun U hU ↦ ?_, ledger, rfl, transfer_balance hl, transfer_total hl⟩
    exact SystemProgram.transfer_spares hc (Chain.not_owned_of_stakes_none hU.not_head hnone)
  · cases h
    obtain rfl : x = 0 := by omega
    exact ⟨.refl _, w.lamports, rfl, by simp, rfl⟩

private theorem mint_spec (h : accounts.mint x w = .ok w') :
    w.SparesOthers [accounts.transferFrom] w'.toChain ∧ ∃ msol, w' = { w with
        msol := msol
        state := { w.state with msolSupply := w.state.msolSupply + x } } ∧
      (∀ k, msol.amount k = w.msol.amount k + only accounts.mintTo x k) ∧
      msol.supply = w.msol.supply + x := by
  unfold mint at h
  split at h
  · simp only [bind_eq_ok, State.onMsolMint_eq_ok, pure_eq_ok] at h
    obtain ⟨msol, hmsol, state, ⟨-, rfl⟩, rfl⟩ := h
    obtain ⟨-, rfl⟩ := TokenMint.mintTo_eq_ok.mp hmsol
    exact ⟨fun U _ ↦ .of_msol (TokenMint.mintTo_spares hmsol), _, rfl, mint_balance_eq, rfl⟩
  · cases h
    obtain rfl : x = 0 := by omega
    exact ⟨.refl _, w.msol, rfl, by simp, rfl⟩

theorem process_spec (h : accounts.process x w = .ok (w', e)) : Spec accounts x w w' e := by
  simp only [process, bind_eq_ok, ensure_eq_ok, checkedSub_eq_ok, pure_eq_ok, exists_const,
    State.totalVirtualStakedLamports_eq_ok, State.calcMsolFromLamports_eq_ok] at h
  obtain ⟨hunused, -, hpaused, -, -, hsupply, v, ⟨-, rfl⟩, order, ⟨-, horder⟩, sold, hsold,
    w₁, h₁, left, ⟨hle, rfl⟩, w₂, h₂, minted, ⟨hmin, rfl⟩, w₃, h₃, hw⟩ := h
  cases hw
  have hsum : min order (w.msol.amount .msolLeg) + (order - min order (w.msol.amount .msolLeg))
      = order := by omega
  have hzero : min order (w.msol.amount .msolLeg) = 0 → sold = 0 := fun h0 ↦ by
    rw [h0] at hsold
    exact solSwapped_zero hsold
  have hnone := Chain.stakes_eq_none_of_isUnused hunused
  obtain ⟨hspares₁, l₁, m₁, rfl, hl₁, ht₁, hm₁, hs₁⟩ := swap_spec hnone hzero h₁
  obtain ⟨hspares₂, l₂, rfl, hl₂, ht₂⟩ := transferToReserve_spec (by exact hnone) h₂
  obtain ⟨hspares₃, m₃, rfl, hm₃, hs₃⟩ := mint_spec h₃
  refine {
    not_paused := by simpa using hpaused
    payer_unused := hunused
    supply_le := hsupply
    order := by rw [hsum]; exact horder
    swapped := by rw [hsum]
    price := by rw [hsum]; exact hsold
    paid := Nat.add_sub_cancel' hle
    lamports_eq := fun k ↦ ?_
    capital_eq := ht₂.trans ht₁
    amount_eq := fun k ↦ ?_
    supply_eq := by rw [hs₃, hs₁]
    state_eq := rfl
    spares := (hspares₁.trans hspares₂).trans hspares₃
    frame := rfl }
  · have e₁ := hl₁ k
    have e₂ := hl₂ k
    have e₃ := only_add accounts.transferFrom k sold (x - sold)
    rw [Nat.add_sub_cancel' hle] at e₃
    simp only [Chain.lamportsOf] at *
    omega
  · have e₁ := hm₁ k
    have e₃ := hm₃ k
    have e₄ := only_add accounts.mintTo k (min order (w.msol.amount .msolLeg))
      (order - min order (w.msol.amount .msolLeg))
    simp only [TokenMint.amount] at *
    omega

end

end Deposit

end Marinade
