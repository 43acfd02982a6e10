import Marinade.Checks
import Marinade.Ownership

/-!
# Order a delayed unstake

The user burns mSOL and gets a ticket for its value at the current price, less a fee that stays in
the pool. The ticket can be claimed once the stake it asks for has cooled down.
-/

open Foundation Foundation.Ledger

namespace Marinade

/-- The accounts of `order_unstake`. -/
structure OrderUnstake where
  burnMsolFrom : Pubkey
  burnMsolAuthority : Pubkey
  newTicketAccount : Pubkey
  deriving DecidableEq, Repr

structure OrderUnstakeEvent where
  ticketEpoch : ℕ
  ticket : Pubkey
  beneficiary : Pubkey
  burnedMsolAmount : ℕ
  solAmount : ℕ
  deriving DecidableEq, Repr

namespace OrderUnstake

def process (rt : Runtime) (accounts : OrderUnstake) (msolAmount : ℕ) (w : World) :
    Except Error (World × OrderUnstakeEvent) := do
  let burnMsolFrom ← orError (w.msol.holder accounts.burnMsolFrom) .constraint
  ensure accounts.burnMsolAuthority.canSign .constraint
  ensure (w.isUnused accounts.newTicketAccount) .constraint
  ensure (rt.ticketRent ≤ w.lamportsOf accounts.newTicketAccount) .constraint
  let s := w.state
  ensure (!s.paused) (.marinade .programIsPaused)
  checkTokenSourceAccount burnMsolFrom (w.msol.amount accounts.burnMsolFrom)
    accounts.burnMsolAuthority msolAmount
  let ticketBeneficiary := burnMsolFrom.owner
  let solValueOfMsolBurned ← s.msolToSol msolAmount
  let delayUnstakeFeeLamports := s.delayedUnstakeFee.apply solValueOfMsolBurned
  let lamportsForUser ← checkedSub .amount solValueOfMsolBurned delayUnstakeFeeLamports
  ensure (s.minWithdraw ≤ lamportsForUser) (.marinade .withdrawAmountIsTooLow)
  let circulatingTicketBalance ← checkedAdd s.circulatingTicketBalance lamportsForUser
  let circulatingTicketCount ← checkedAdd s.circulatingTicketCount 1
  let msol ← w.msol.burn accounts.burnMsolFrom accounts.burnMsolAuthority msolAmount
  let state ← { s with circulatingTicketBalance, circulatingTicketCount }.onMsolBurn msolAmount
  let createdEpoch ← checkedAdd w.clock.epoch
    (if w.clock.epoch = s.stakeSystem.lastStakeDeltaEpoch then 1 else 0)
  let tickets := w.tickets.insert accounts.newTicketAccount {
    stateAddress := .state
    beneficiary := ticketBeneficiary
    lamportsAmount := lamportsForUser
    createdEpoch }
  return ({ w with msol, tickets, state }, {
    ticketEpoch := createdEpoch
    ticket := accounts.newTicketAccount
    beneficiary := ticketBeneficiary
    burnedMsolAmount := msolAmount
    solAmount := lamportsForUser })

/-- The effect of a successful order. -/
structure Spec (rt : Runtime) (accounts : OrderUnstake) (msolAmount : ℕ)
    (w w' : World) (e : OrderUnstakeEvent) : Prop where
  not_paused : w.state.paused = false
  can_sign : accounts.burnMsolAuthority.canSign = true
  unused : w.isUnused accounts.newTicketAccount = true
  rent_covered : rt.ticketRent ≤ w.lamportsOf accounts.newTicketAccount
  burned : e.burnedMsolAmount = msolAmount
  worth : ∃ value, proportional msolAmount w.state.virtualStaked w.state.msolSupply = .ok value ∧
    e.solAmount + w.state.delayedUnstakeFee.apply value = value
  le_supply : msolAmount ≤ w.state.msolSupply
  ticket_eq : e.ticket = accounts.newTicketAccount
  epoch_eq : e.ticketEpoch = w.clock.epoch
    + (if w.clock.epoch = w.state.stakeSystem.lastStakeDeltaEpoch then 1 else 0)
  amount_eq : ∀ k, w'.msol.amount k + only accounts.burnMsolFrom msolAmount k = w.msol.amount k
  supply_eq : w'.msol.supply + msolAmount = w.msol.supply
  leg_eq : w'.msol.amount .msolLeg = w.msol.amount .msolLeg
  tickets_eq : w'.tickets = w.tickets.insert e.ticket
    ⟨.state, e.beneficiary, e.solAmount, e.ticketEpoch⟩
  state_eq : w'.state = { w.state with
    circulatingTicketBalance := w.state.circulatingTicketBalance + e.solAmount
    circulatingTicketCount := w.state.circulatingTicketCount + 1
    msolSupply := w.state.msolSupply - msolAmount }
  spares : w.SparesOthers [accounts.burnMsolAuthority, accounts.newTicketAccount] w'.toChain
  frame : w'.toChain = { w.toChain with msol := w'.msol, tickets := w'.tickets }

variable {rt : Runtime} {accounts : OrderUnstake} {w w' : World} {x : ℕ} {e : OrderUnstakeEvent}

theorem process_spec (h : accounts.process rt x w = .ok (w', e)) :
    Spec rt accounts x w w' e := by
  simp only [process, bind_eq_ok, ensure_eq_ok, orError_eq_ok, checkedSub_eq_ok, checkedAdd_eq_ok,
    pure_eq_ok, exists_const, State.msolToSol_eq_ok, State.onMsolBurn_eq_ok] at h
  obtain ⟨holder, -, hsign, hunused, hrent, hpaused, -, -, value, ⟨-, hvalue⟩, lamports,
    ⟨hfee, rfl⟩, -, balance, ⟨-, rfl⟩, count, ⟨-, rfl⟩, msol, hburn, state, ⟨hle, rfl⟩, epoch,
    ⟨-, rfl⟩, hw⟩ := h
  cases hw
  obtain ⟨hsupply, -, hamount, hvault⟩ := TokenMint.burn_spec hburn
  refine {
    not_paused := by simpa using hpaused
    can_sign := hsign
    unused := hunused
    rent_covered := hrent
    burned := rfl
    worth := ⟨value, hvalue, Nat.sub_add_cancel hfee⟩
    le_supply := hle
    ticket_eq := rfl
    epoch_eq := rfl
    amount_eq := hamount
    supply_eq := hsupply
    leg_eq := ?_
    tickets_eq := rfl
    state_eq := rfl
    spares := fun U hU ↦ ?_
    frame := rfl }
  · -- nobody signs for the owner of the leg
    have hne : Pubkey.msolLeg ≠ accounts.burnMsolFrom := by
      intro heq
      have := hvault .msolLegAuthority (by rw [← heq]; rfl)
      rw [this] at hsign
      cases hsign
    have := hamount .msolLeg
    rwa [only_of_ne hne, Nat.add_zero] at this
  · have hburned : w.Spares U { w.toChain with msol } :=
      .of_msol (TokenMint.burn_spares hburn hU.not_head)
    refine hburned.trans (.insert_ticket (hU.not_signer _ (by simp)) ?_)
    exact (Chain.isUnused_iff.mp hunused).2.2.2.2.2.2.2

end OrderUnstake

end Marinade
