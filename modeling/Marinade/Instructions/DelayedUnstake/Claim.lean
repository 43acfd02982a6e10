import Marinade.Programs

/-!
# Claim a ticket

The reserve pays a ticket that is due to its beneficiary, and the ticket account is closed.
-/

open Foundation Foundation.Ledger

namespace Marinade

/-- The accounts of `claim`. -/
structure Claim where
  ticketAccount : Pubkey
  transferSolTo : Pubkey
  deriving DecidableEq, Repr

structure ClaimEvent where
  ticket : Pubkey
  beneficiary : Pubkey
  amount : ℕ
  deriving DecidableEq, Repr

namespace Claim

/-- `WAIT_EPOCHS` -/
def waitEpochs : ℕ := 1

/-- `EXTRA_WAIT_SECONDS` -/
def extraWaitSeconds : ℤ := 30 * 60

def checkTicketAccount (ticket : TicketAccountData) (clock : Clock) : Except Error Unit := do
  ensure (ticket.stateAddress = .state) (.marinade .invalidDelayedUnstakeTicket)
  ensure (ticket.lamportsAmount ≠ 0) (.marinade .reusingDelayedUnstakeTicket)
  let due ← checkedAdd ticket.createdEpoch waitEpochs
  ensure (due ≤ clock.epoch) (.marinade .ticketNotDue)
  -- in the first epoch the bot needs some time to collect the stake that cooled down
  if due = clock.epoch then
    ensure (extraWaitSeconds ≤ clock.unixTimestamp - clock.epochStartTimestamp)
      (.marinade .ticketNotReady)

def process (accounts : Claim) (w : World) : Except Error (World × ClaimEvent) := do
  let ticket ← orError (w.tickets.lookup accounts.ticketAccount) .constraint
  ensure (accounts.transferSolTo = ticket.beneficiary) (.marinade .wrongBeneficiary)
  ensure (w.isSystemAccount accounts.transferSolTo) .constraint
  let s := w.state
  ensure (!s.paused) (.marinade .programIsPaused)
  checkTicketAccount ticket w.clock
  let lamports := ticket.lamportsAmount
  let availableForClaim ←
    checkedSub .reserveAboveRent (w.lamportsOf .reserve) s.rentExemptForTokenAcc
  ensure (lamports ≤ availableForClaim) (.marinade .ticketNotReady)
  let circulatingTicketBalance ←
    checkedSub .circulatingTicketBalance s.circulatingTicketBalance lamports
  let circulatingTicketCount ← checkedSub .circulatingTicketCount s.circulatingTicketCount 1
  let chain ← SystemProgram.transfer w.toChain .reserve accounts.transferSolTo lamports
  let state ←
    { s with circulatingTicketBalance, circulatingTicketCount }.onTransferFromReserve lamports
  -- the ticket account is closed
  let chain ← SystemProgram.transfer chain accounts.ticketAccount accounts.transferSolTo
    (chain.lamportsOf accounts.ticketAccount)
  let tickets := chain.tickets.erase accounts.ticketAccount
  return ({ w with toChain := { chain with tickets }, state }, {
    ticket := accounts.ticketAccount
    beneficiary := ticket.beneficiary
    amount := lamports })

/-- The effect of a successful claim. `rent` is what the closed ticket account held. -/
structure Spec (accounts : Claim) (w w' : World) (e : ClaimEvent) (rent : ℕ) : Prop where
  not_paused : w.state.paused = false
  system : w.isSystemAccount accounts.transferSolTo = true
  ticket_eq : e.ticket = accounts.ticketAccount
  beneficiary_eq : e.beneficiary = accounts.transferSolTo
  ticket : ∃ epoch, w.tickets.lookup e.ticket = some ⟨.state, e.beneficiary, e.amount, epoch⟩
  due : ∀ ticket, w.tickets.lookup e.ticket = some ticket →
    checkTicketAccount ticket w.clock = .ok ()
  covered : e.amount + w.state.rentExemptForTokenAcc ≤ w.lamportsOf .reserve
  le_balance : e.amount ≤ w.state.circulatingTicketBalance
  le_available : e.amount ≤ w.state.availableReserveBalance
  lamports_eq : ∀ k, w'.lamportsOf k + only .reserve e.amount k + only accounts.ticketAccount rent k
    = w.lamportsOf k + only accounts.transferSolTo (e.amount + rent) k
  capital_eq : w'.lamports.total = w.lamports.total
  rent_eq : accounts.ticketAccount ≠ .reserve → rent = w.lamportsOf accounts.ticketAccount
  tickets_eq : w'.tickets = w.tickets.erase e.ticket
  state_eq : w'.state = { w.state with
    circulatingTicketBalance := w.state.circulatingTicketBalance - e.amount
    circulatingTicketCount := w.state.circulatingTicketCount - 1
    availableReserveBalance := w.state.availableReserveBalance - e.amount }
  frame : w'.toChain = { w.toChain with lamports := w'.lamports, tickets := w'.tickets }

variable {accounts : Claim} {w w' : World} {e : ClaimEvent}

theorem checkTicketAccount_state {ticket : TicketAccountData} {clock : Clock} {u : Unit}
    (h : checkTicketAccount ticket clock = .ok u) : ticket.stateAddress = .state := by
  simp only [checkTicketAccount, bind_eq_ok, ensure_eq_ok, exists_const] at h
  exact h.1

/-- A ticket that passes is due, and in the first epoch in which it is some more time has passed. -/
theorem checkTicketAccount_due {ticket : TicketAccountData} {clock : Clock} {u : Unit}
    (h : checkTicketAccount ticket clock = .ok u) :
    ticket.createdEpoch + waitEpochs ≤ clock.epoch ∧
      (ticket.createdEpoch + waitEpochs = clock.epoch →
        extraWaitSeconds ≤ clock.unixTimestamp - clock.epochStartTimestamp) := by
  simp only [checkTicketAccount, bind_eq_ok, ensure_eq_ok, checkedAdd_eq_ok, exists_const] at h
  obtain ⟨-, -, _, ⟨-, rfl⟩, hdue, h⟩ := h
  refine ⟨hdue, ?_⟩
  intro heq
  rwa [if_pos heq, ensure_eq_ok] at h

theorem process_spec (h : accounts.process w = .ok (w', e)) :
    ∃ rent, Spec accounts w w' e rent := by
  simp only [process, bind_eq_ok, ensure_eq_ok, orError_eq_ok, checkedSub_eq_ok,
    pure_eq_ok, exists_const, SystemProgram.transfer_eq_ok, State.onTransferFromReserve_eq_ok] at h
  obtain ⟨ticket, hticket, hto, hsys, hpaused, _, hcheck, avail, ⟨hrent, rfl⟩, hcovered,
    balance, ⟨hbalance, rfl⟩, count, ⟨-, rfl⟩, _, ⟨l₁, hl₁, rfl⟩, state, ⟨havail, rfl⟩,
    _, ⟨l₂, hl₂, rfl⟩, hw⟩ := h
  cases hw
  have hstate := checkTicketAccount_state hcheck
  refine ⟨l₁.balance accounts.ticketAccount, {
    not_paused := by simpa using hpaused
    system := hsys
    ticket_eq := rfl
    beneficiary_eq := hto.symm
    ticket := ⟨ticket.createdEpoch, by rw [hticket, ← hstate]⟩
    due := fun t ht ↦ by
      obtain rfl : ticket = t := by simpa [hticket] using ht
      exact hcheck
    covered := by simp only; omega
    le_balance := hbalance
    le_available := havail
    lamports_eq := fun k ↦ ?_
    capital_eq := (transfer_total hl₂).trans (transfer_total hl₁)
    rent_eq := fun hne ↦ ?_
    tickets_eq := rfl
    state_eq := rfl
    frame := rfl }⟩
  · have e₁ := transfer_balance hl₁ k
    have e₂ := transfer_balance hl₂ k
    simp only [only_add, Chain.lamportsOf] at *
    omega
  · -- the beneficiary is a system account and the ticket is none
    have hto : accounts.ticketAccount ≠ accounts.transferSolTo := fun heq ↦ by
      simp only [Chain.isSystemAccount, decide_eq_true_eq] at hsys
      rw [← heq, hticket] at hsys
      exact absurd hsys.2.2.2.2.2.2 (by simp)
    have e₁ := transfer_balance hl₁ accounts.ticketAccount
    rwa [only_of_ne hne, only_of_ne hto] at e₁

end Claim

end Marinade
