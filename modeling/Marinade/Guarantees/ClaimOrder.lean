import Marinade.Foundation.Reordering
import Marinade.Invariants.Bounds
import Marinade.Invariants.Capital
import Marinade.Invariants.Tickets
import Marinade.Replay

/-!
# The order of claims

A claim takes as much off what is owed as it takes out of the reserve, so the mSOL that are left are
worth what they were, and an order of a ticket grants the same before it as after it. Orders take
nothing out of the reserve. A run of orders and claims, in whatever order they were made, therefore
leads to the same world as the one in which all the claims are made first, in any order. Nobody gets
a ticket paid, or gets more for it, by being faster than others.

The exception is an account that is closed by one claim and takes part in another: the rent of a
ticket paid into the reserve may be what the next claim is paid from, and a beneficiary at the
address of a ticket is one only once that ticket is closed.
-/

open Foundation Foundation.Ledger

namespace Marinade

/-! ## What a claim needs -/

namespace Claim

/-- All that `claim` checks. -/
structure Payable (accounts : Claim) (ticket : TicketAccountData) (w : World) : Prop where
  listed : w.tickets.lookup accounts.ticketAccount = some ticket
  beneficiary_eq : accounts.transferSolTo = ticket.beneficiary
  system : w.isSystemAccount accounts.transferSolTo = true
  not_paused : w.state.paused = false
  due : checkTicketAccount ticket w.clock = .ok ()
  covered : ticket.lamportsAmount + w.state.rentExemptForTokenAcc ≤ w.lamportsOf .reserve
  le_balance : ticket.lamportsAmount ≤ w.state.circulatingTicketBalance
  count_pos : 1 ≤ w.state.circulatingTicketCount
  le_available : ticket.lamportsAmount ≤ w.state.availableReserveBalance

/-- What the claim of a ticket reports. -/
def eventOf (accounts : Claim) (ticket : TicketAccountData) : ClaimEvent where
  ticket := accounts.ticketAccount
  beneficiary := ticket.beneficiary
  amount := ticket.lamportsAmount

section

variable {accounts : Claim} {ticket : TicketAccountData} {w w' : World} {e : ClaimEvent}

theorem payable_of_process (h : accounts.process w = .ok (w', e)) :
    ∃ ticket, accounts.Payable ticket w ∧ accounts.eventOf ticket = e := by
  simp only [process, bind_eq_ok, ensure_eq_ok, orError_eq_ok, checkedSub_eq_ok,
    pure_eq_ok, exists_const, SystemProgram.transfer_eq_ok, State.onTransferFromReserve_eq_ok] at h
  obtain ⟨ticket, hticket, hto, hsystem, hpaused, _, hdue, avail, ⟨hrent, rfl⟩, hcovered,
    balance, ⟨hbalance, rfl⟩, count, ⟨hcount, rfl⟩, _, ⟨l₁, hl₁, rfl⟩, state, ⟨havailable, rfl⟩,
    _, ⟨l₂, hl₂, rfl⟩, hw⟩ := h
  cases hw
  refine ⟨ticket, ?_, rfl⟩
  exact {
    listed := hticket
    beneficiary_eq := hto
    system := hsystem
    not_paused := by simpa using hpaused
    due := hdue
    covered := by omega
    le_balance := hbalance
    count_pos := hcount
    le_available := havailable }

/-- A claim that passes the checks is paid. -/
theorem Payable.exists_process (h : accounts.Payable ticket w) :
    ∃ w', accounts.process w = .ok (w', accounts.eventOf ticket) := by
  have hcovered := h.covered
  have hle : ticket.lamportsAmount ≤ w.lamports.balance .reserve :=
    (Nat.le_add_right _ _).trans hcovered
  obtain ⟨l₁, hl₁⟩ : ∃ l, w.lamports.transfer .reserve accounts.transferSolTo
      ticket.lamportsAmount = some l := ⟨_, transfer_eq_some_iff.mpr ⟨hle, rfl⟩⟩
  obtain ⟨l₂, hl₂⟩ : ∃ l, l₁.transfer accounts.ticketAccount accounts.transferSolTo
      (l₁.balance accounts.ticketAccount) = some l := ⟨_, transfer_eq_some_iff.mpr ⟨le_rfl, rfl⟩⟩
  simp only [process, bind_eq_ok, ensure_eq_ok, orError_eq_ok, checkedSub_eq_ok,
    pure_eq_ok, exists_const, SystemProgram.transfer_eq_ok, State.onTransferFromReserve_eq_ok]
  exact ⟨_, ticket, h.listed, h.beneficiary_eq, h.system, by simpa using h.not_paused, (), h.due, _,
    ⟨by omega, rfl⟩, by omega, _, ⟨h.le_balance, rfl⟩, _, ⟨h.count_pos, rfl⟩, _, ⟨l₁, hl₁, rfl⟩,
    _, ⟨h.le_available, rfl⟩, _, ⟨l₂, hl₂, rfl⟩, rfl⟩

/-- What a claim leaves of the accounts, all of it. -/
structure Paid (accounts : Claim) (ticket : TicketAccountData) (w w' : World) : Prop where
  lamports_eq : ∀ k, w'.lamportsOf k + only .reserve ticket.lamportsAmount k
      + only accounts.ticketAccount (w.lamportsOf accounts.ticketAccount) k
    = w.lamportsOf k + only accounts.transferSolTo
      (ticket.lamportsAmount + w.lamportsOf accounts.ticketAccount) k
  total_eq : w'.lamports.total = w.lamports.total
  world_eq : w' = { w with
    lamports := w'.lamports
    tickets := w.tickets.erase accounts.ticketAccount
    state := { w.state with
      circulatingTicketBalance := w.state.circulatingTicketBalance - ticket.lamportsAmount
      circulatingTicketCount := w.state.circulatingTicketCount - 1
      availableReserveBalance := w.state.availableReserveBalance - ticket.lamportsAmount } }

theorem paid_of_process {rt : Runtime} (hw : WellFormed rt w) (hp : accounts.Payable ticket w)
    (h : accounts.process w = .ok (w', accounts.eventOf ticket)) : accounts.Paid ticket w w' := by
  obtain ⟨rent, hspec⟩ := process_spec h
  have hplace := hw.ticket_place _ _ ⟨hp.listed, checkTicketAccount_state hp.due⟩
  have hne : accounts.ticketAccount ≠ .reserve := by
    intro heq
    rw [heq] at hplace
    cases hplace.1
  have hlamports := hspec.lamports_eq
  rw [hspec.rent_eq hne] at hlamports
  refine ⟨hlamports, hspec.capital_eq, ?_⟩
  obtain ⟨c, s⟩ := w'
  have hframe : c = { w.toChain with lamports := c.lamports, tickets := c.tickets } := hspec.frame
  have htickets : c.tickets = w.tickets.erase accounts.ticketAccount := hspec.tickets_eq
  obtain rfl : s = _ := hspec.state_eq
  rw [htickets] at hframe
  rw [hframe]
  rfl

/-- A claim makes a system account of the ticket, and no account ceases to be one. -/
theorem Paid.isSystemAccount {k : Pubkey} (h : accounts.Paid ticket w w')
    (hk : w.isSystemAccount k = true) : w'.isSystemAccount k = true := by
  rw [h.world_eq]
  simp only [Chain.isSystemAccount, decide_eq_true_eq] at hk ⊢
  obtain ⟨h₁, h₂, h₃, hstakes, hmsol, hlp, htickets⟩ := hk
  refine ⟨h₁, h₂, h₃, hstakes, hmsol, hlp, ?_⟩
  by_cases heq : k = accounts.ticketAccount
  · rw [heq, AList.lookup_erase]
  · rw [AList.lookup_erase_ne heq]
    exact htickets

/-- The claim of another ticket leaves a ticket as payable as it was, if the reserve has enough for
both. -/
theorem Payable.erase {other : Claim} {paid : TicketAccountData} (h : accounts.Payable ticket w)
    (hpaid : other.Paid paid w w') (hticket : accounts.ticketAccount ≠ other.ticketAccount)
    (hplace : other.ticketAccount ≠ .reserve)
    (hcovered : ticket.lamportsAmount + paid.lamportsAmount + w.state.rentExemptForTokenAcc
      ≤ w.lamportsOf .reserve)
    (hbalance : ticket.lamportsAmount + paid.lamportsAmount ≤ w.state.circulatingTicketBalance)
    (hcount : 2 ≤ w.state.circulatingTicketCount)
    (havailable : ticket.lamportsAmount + paid.lamportsAmount ≤ w.state.availableReserveBalance) :
    accounts.Payable ticket w' := by
  have hreserve := hpaid.lamports_eq .reserve
  rw [only_self, only_of_ne hplace.symm] at hreserve
  have hsystem := hpaid.isSystemAccount h.system
  rw [hpaid.world_eq] at hreserve hsystem ⊢
  exact {
    listed := (AList.lookup_erase_ne hticket).trans h.listed
    beneficiary_eq := h.beneficiary_eq
    system := hsystem
    not_paused := h.not_paused
    due := h.due
    covered := by
      simp only [Chain.lamportsOf] at hreserve hcovered ⊢
      omega
    le_balance := by
      simp only
      omega
    count_pos := by
      simp only
      omega
    le_available := by
      simp only
      omega }

/-- A ticket that is payable after the claim of another one is payable before it, and there is
enough for both. -/
theorem Payable.of_paid {other : Claim} {paid : TicketAccountData} (h : accounts.Payable ticket w')
    (hother : other.Payable paid w) (hpaid : other.Paid paid w w')
    (hto : accounts.transferSolTo ≠ other.ticketAccount) (hreserve : other.transferSolTo ≠ .reserve)
    (hplace : other.ticketAccount ≠ .reserve) :
    accounts.Payable ticket w ∧ accounts.ticketAccount ≠ other.ticketAccount ∧
      ticket.lamportsAmount + paid.lamportsAmount + w.state.rentExemptForTokenAcc
        ≤ w.lamportsOf .reserve ∧
      ticket.lamportsAmount + paid.lamportsAmount ≤ w.state.circulatingTicketBalance ∧
      2 ≤ w.state.circulatingTicketCount ∧
      ticket.lamportsAmount + paid.lamportsAmount ≤ w.state.availableReserveBalance := by
  have hlamports := hpaid.lamports_eq .reserve
  rw [only_self, only_of_ne hplace.symm, only_of_ne hreserve.symm] at hlamports
  have hle := hother.covered
  have hbalance := hother.le_balance
  have hcount := hother.count_pos
  have havailable := hother.le_available
  rw [hpaid.world_eq] at h hlamports
  obtain ⟨hlisted, hto', hsystem, hpaused, hdue, hcovered, hbalance', hcount', havailable'⟩ := h
  simp only at hbalance' hcount' havailable'
  simp only [Chain.lamportsOf] at hlamports hcovered hle ⊢
  have hne : accounts.ticketAccount ≠ other.ticketAccount := by
    intro heq
    rw [heq, AList.lookup_erase] at hlisted
    cases hlisted
  refine ⟨?_, hne, by omega, by omega, by omega, by omega⟩
  exact {
    listed := (AList.lookup_erase_ne hne).symm.trans hlisted
    beneficiary_eq := hto'
    system := by
      simp only [Chain.isSystemAccount, decide_eq_true_eq, AList.lookup_erase_ne hto] at hsystem ⊢
      exact hsystem
    not_paused := hpaused
    due := hdue
    covered := by
      simp only [Chain.lamportsOf]
      omega
    le_balance := by omega
    count_pos := hcount
    le_available := by omega }

end

/-- The world that two claims lead to, whichever is made first. -/
theorem Paid.trans_eq {a b : Claim} {ta tb : TicketAccountData} {w w₁ w₂ v₁ v₂ : World}
    (ha : a.Paid ta w w₁) (hb : b.Paid tb w₁ w₂) (hb' : b.Paid tb w v₁) (ha' : a.Paid ta v₁ v₂)
    (hleft : w₁.lamportsOf b.ticketAccount = w.lamportsOf b.ticketAccount)
    (hright : v₁.lamportsOf a.ticketAccount = w.lamportsOf a.ticketAccount) : v₂ = w₂ := by
  have hlamports : v₂.lamports = w₂.lamports := by
    refine eq_of_balance (fun k ↦ ?_) ?_
    · have e₁ := ha.lamports_eq k
      have e₂ := hb.lamports_eq k
      have e₃ := hb'.lamports_eq k
      have e₄ := ha'.lamports_eq k
      rw [hleft] at e₂
      rw [hright] at e₄
      simp only [Chain.lamportsOf] at *
      omega
    · exact ha'.total_eq.trans (hb'.total_eq.trans (ha.total_eq.symm.trans hb.total_eq.symm))
  rw [ha'.world_eq, hb.world_eq, hb'.world_eq, ha.world_eq, hlamports]
  simp only [AList.erase_erase b.ticketAccount a.ticketAccount, Nat.sub_right_comm]

/-- The account of a ticket is not the reserve. -/
theorem Payable.ne_reserve {rt : Runtime} {accounts : Claim} {ticket : TicketAccountData}
    {w : World} (h : accounts.Payable ticket w) (hw : WellFormed rt w) :
    accounts.ticketAccount ≠ .reserve := by
  have hplace := hw.ticket_place _ _ ⟨h.listed, checkTicketAccount_state h.due⟩
  intro heq
  rw [heq] at hplace
  cases hplace.1

/-- The lamports of a ticket account that neither is the one paid nor gets the money. -/
theorem Paid.lamports_of_ne {accounts : Claim} {ticket : TicketAccountData} {w w' : World}
    {k : Pubkey} (h : accounts.Paid ticket w w') (hreserve : k ≠ .reserve)
    (hticket : k ≠ accounts.ticketAccount) (hto : k ≠ accounts.transferSolTo) :
    w'.lamportsOf k = w.lamportsOf k := by
  have hk := h.lamports_eq k
  rwa [only_of_ne hreserve, only_of_ne hticket, only_of_ne hto] at hk

theorem overtakes_claim {rt : Runtime} {a b : Claim} {ea eb : Event}
    (hreserve : a.transferSolTo ≠ .reserve) (hb : b.transferSolTo ≠ a.ticketAccount) :
    (marinade rt).Overtakes (.instruction (.claim a) ea) (.instruction (.claim b) eb) := by
  intro w w₁ w₂ h hs hs'
  have hw := wellFormed_of_reachable h
  have hw₁ := wellFormed_of_reachable (h.step hs)
  obtain ⟨_, hpa, rfl⟩ := reporting_eq_ok hs
  obtain ⟨_, hpb, rfl⟩ := reporting_eq_ok hs'
  obtain ⟨ta, hta, rfl⟩ := payable_of_process hpa
  obtain ⟨tb, htb₁, rfl⟩ := payable_of_process hpb
  have hpaida := paid_of_process hw hta hpa
  have hpaidb := paid_of_process hw₁ htb₁ hpb
  have hplacea := hta.ne_reserve hw
  have hplaceb := htb₁.ne_reserve hw₁
  -- the second claim made first
  obtain ⟨htb, hne, hcovered, hbalance, hcount, havailable⟩ :=
    htb₁.of_paid hta hpaida hb hreserve hplacea
  obtain ⟨v₁, hpb'⟩ := htb.exists_process
  have hpaidb' := paid_of_process hw htb hpb'
  have hv₁ : (marinade rt).step w (.instruction (.claim b) (.claim (b.eventOf tb))) v₁ := by
    change exec rt w (.claim b) = _
    rw [exec, hpb']
    rfl
  -- and the first one after it
  have hta' : a.Payable ta v₁ := hta.erase hpaidb' hne.symm hplaceb (by omega) (by omega) hcount
    (by omega)
  obtain ⟨v₂, hpa'⟩ := hta'.exists_process
  have hpaida' := paid_of_process (wellFormed_of_reachable (h.step hv₁)) hta' hpa'
  have hta_to : b.ticketAccount ≠ a.transferSolTo := by
    intro heq
    have hsystem := hta.system
    simp only [Chain.isSystemAccount, decide_eq_true_eq] at hsystem
    rw [← heq, htb.listed] at hsystem
    exact absurd hsystem.2.2.2.2.2.2 (by simp)
  obtain rfl : v₂ = w₂ := hpaida.trans_eq hpaidb hpaidb' hpaida'
    (hpaida.lamports_of_ne hplaceb hne hta_to) (hpaidb'.lamports_of_ne hplacea hne.symm hb.symm)
  refine ⟨v₁, hv₁, ?_⟩
  change exec rt v₁ (.claim a) = _
  rw [exec, hpa']
  rfl

end Claim

/-! ## Claims and orders -/

/-- Who may spend changes, but an account that is there after a burn was there before it. -/
theorem TokenMint.holder_eq_none_of_burn {vault : Pubkey → Option Pubkey}
    {mint mint' : TokenMint vault} {src authority k : Pubkey} {x : ℕ}
    (h : mint.burn src authority x = .ok mint') (hk : mint'.holder k = none) :
    mint.holder k = none := by
  simp only [burn, spend, bind_eq_ok, orError_eq_ok, pure_eq_ok] at h
  obtain ⟨spent, ⟨holder, -, hspend⟩, ledger, -, rfl⟩ := h
  split at hspend
  · rw [ensure_bind_eq_ok, pure_eq_ok] at hspend
    obtain ⟨-, rfl⟩ := hspend
    simp only [setHolder] at hk
    split at hk
    · cases hk
    · exact hk
  · rw [ensure_bind_eq_ok, pure_eq_ok] at hspend
    obtain ⟨-, rfl⟩ := hspend
    exact hk

/-- Inserting at one key and erasing another one. -/
theorem erase_insert_comm {α : Type*} {β : α → Type*} [DecidableEq α] {s : AList β} {a b : α}
    (h : a ≠ b) (v : β b) : (s.insert b v).erase a = (s.erase a).insert b v := by
  apply AList.ext
  change List.kerase a (⟨b, v⟩ :: List.kerase b s.entries)
    = ⟨b, v⟩ :: List.kerase b (List.kerase a s.entries)
  rw [List.kerase_cons_ne h, List.kerase_comm]

section

variable {rt : Runtime} {accounts : OrderUnstake} {c : Claim} {ticket : TicketAccountData}
  {w w₁ w₂ v₁ : World} {x : ℕ} {e : OrderUnstakeEvent}

/-- An order, as an equation. -/
theorem OrderUnstake.world_eq (h : accounts.process rt x w = .ok (w₁, e)) :
    (∀ k, w₁.msol.holder k = none → w.msol.holder k = none) ∧
    w₁ = { w with
      msol := w₁.msol
      tickets := w.tickets.insert accounts.newTicketAccount
        ⟨.state, e.beneficiary, e.solAmount, e.ticketEpoch⟩
      state := { w.state with
        circulatingTicketBalance := w.state.circulatingTicketBalance + e.solAmount
        circulatingTicketCount := w.state.circulatingTicketCount + 1
        msolSupply := w.state.msolSupply - x } } := by
  simp only [process, bind_eq_ok, ensure_eq_ok, orError_eq_ok, checkedSub_eq_ok, checkedAdd_eq_ok,
    pure_eq_ok, exists_const, State.msolToSol_eq_ok, State.onMsolBurn_eq_ok] at h
  obtain ⟨holder, -, -, -, -, -, -, -, value, -, lamports, ⟨-, rfl⟩, -, balance, ⟨-, rfl⟩, count,
    ⟨-, rfl⟩, msol, hburn, state, ⟨-, rfl⟩, epoch, ⟨-, rfl⟩, hw⟩ := h
  cases hw
  exact ⟨fun _ ↦ TokenMint.holder_eq_none_of_burn hburn, rfl⟩

/-- A ticket that is payable after an order was payable before it, and is another one than that of
the order. -/
theorem Claim.Payable.of_order (h : c.Payable ticket w₁) (hbooked : TicketsBooked w)
    (hp : accounts.process rt x w = .ok (w₁, e)) :
    c.Payable ticket w ∧ c.ticketAccount ≠ accounts.newTicketAccount := by
  have hepoch := (OrderUnstake.process_spec hp).epoch_eq
  obtain ⟨hholder, hw₁⟩ := OrderUnstake.world_eq hp
  have hdue := (Claim.checkTicketAccount_due h.due).1
  have hstate := Claim.checkTicketAccount_state h.due
  have hsystem := h.system
  simp only [Chain.isSystemAccount, decide_eq_true_eq] at hsystem
  obtain ⟨h₁, h₂, h₃, hstakes, hmsol, hlp, htickets⟩ := hsystem
  have hnone := hholder _ hmsol
  rw [hw₁] at h hdue hstakes hlp htickets
  have hlisted := h.listed
  have hne : c.ticketAccount ≠ accounts.newTicketAccount := by
    intro heq
    rw [heq, AList.lookup_insert, Option.some.injEq] at hlisted
    rw [← hlisted, hepoch, Claim.waitEpochs] at hdue
    simp only at hdue
    omega
  have hto : c.transferSolTo ≠ accounts.newTicketAccount := by
    intro heq
    rw [heq, AList.lookup_insert] at htickets
    cases htickets
  rw [AList.lookup_insert_ne hne] at hlisted
  rw [AList.lookup_insert_ne hto] at htickets
  obtain ⟨hbalance, hcount⟩ := hbooked.le ⟨hlisted, hstate⟩
  refine ⟨?_, hne⟩
  exact {
    listed := hlisted
    beneficiary_eq := h.beneficiary_eq
    system := by
      simp only [Chain.isSystemAccount, decide_eq_true_eq]
      exact ⟨h₁, h₂, h₃, hstakes, hnone, hlp, htickets⟩
    not_paused := h.not_paused
    due := h.due
    covered := h.covered
    le_balance := hbalance
    count_pos := hcount
    le_available := h.le_available }

/-- What is owed and what there is for it fall by the same amount. -/
theorem Claim.Payable.virtualStaked_eq (h : c.Payable ticket w) (hpaid : c.Paid ticket w v₁) :
    v₁.state.controlled ≤ w.state.controlled ∧ v₁.state.virtualStaked = w.state.virtualStaked := by
  have hbalance := h.le_balance
  have havailable := h.le_available
  rw [hpaid.world_eq]
  simp only [State.virtualStaked, State.controlled]
  omega

/-- An order grants the same after a claim as before it. -/
theorem OrderUnstake.process_after_claim (hpayable : c.Payable ticket w)
    (hpaid : c.Paid ticket w v₁) (hp : accounts.process rt x w = .ok (w₁, e)) :
    accounts.process rt x v₁ = .ok ({ v₁ with
      msol := w₁.msol
      tickets := v₁.tickets.insert accounts.newTicketAccount
        ⟨.state, e.beneficiary, e.solAmount, e.ticketEpoch⟩
      state := { v₁.state with
        circulatingTicketBalance := v₁.state.circulatingTicketBalance + e.solAmount
        circulatingTicketCount := v₁.state.circulatingTicketCount + 1
        msolSupply := v₁.state.msolSupply - x } }, e) := by
  obtain ⟨hcontrolled, hvirtual⟩ := hpayable.virtualStaked_eq hpaid
  simp only [process, bind_eq_ok, ensure_eq_ok, orError_eq_ok, checkedSub_eq_ok, checkedAdd_eq_ok,
    pure_eq_ok, exists_const, State.msolToSol_eq_ok, State.onMsolBurn_eq_ok] at hp ⊢
  obtain ⟨holder, hholder, hsign, hunused, hrent, hpaused, _, hcheck, value, ⟨hmax, hvalue⟩,
    lamports, ⟨hfee, rfl⟩, hmin, balance, ⟨hbalance, rfl⟩, count, ⟨hcount, rfl⟩, msol, hburn,
    state, ⟨hle, rfl⟩, epoch, ⟨hepoch, rfl⟩, hw⟩ := hp
  cases hw
  -- the claim takes nothing from the account of the new ticket
  have hrent' : rt.ticketRent ≤ v₁.lamportsOf accounts.newTicketAccount := by
    have hne : accounts.newTicketAccount ≠ c.ticketAccount := by
      intro heq
      have hnone := Chain.tickets_eq_none_of_isUnused hunused
      rw [heq, hpayable.listed] at hnone
      cases hnone
    have hreserve := (Chain.ne_of_not_canSign (k := .reserve) rfl hunused).symm
    have hk := hpaid.lamports_eq accounts.newTicketAccount
    rw [only_of_ne hreserve, only_of_ne hne] at hk
    omega
  have hunused' : v₁.isUnused accounts.newTicketAccount = true := by
    rw [Chain.isUnused, Bool.and_eq_true] at hunused ⊢
    exact ⟨hunused.1, hpaid.isSystemAccount hunused.2⟩
  rw [hpaid.world_eq] at hcontrolled hvirtual hunused' hrent' ⊢
  refine ⟨holder, hholder, hsign, hunused', hrent', hpaused, (), hcheck, value,
    ⟨hcontrolled.trans hmax, ?_⟩, _, ⟨hfee, rfl⟩, hmin, _, ⟨?_, rfl⟩, _, ⟨?_, rfl⟩, msol, hburn, _,
    ⟨hle, rfl⟩, _, ⟨hepoch, rfl⟩, rfl⟩
  · rw [hvirtual]
    exact hvalue
  · simp only
    omega
  · simp only
    omega

theorem Claim.overtakes_order {ec eo : Event} :
    (marinade rt).Overtakes (.instruction (.orderUnstake accounts x) eo)
      (.instruction (.claim c) ec) := by
  intro w w₁ w₂ h hs hs'
  have hw := wellFormed_of_reachable h
  have hw₁ := wellFormed_of_reachable (h.step hs)
  obtain ⟨eo, hpo, rfl⟩ := reporting_eq_ok hs
  obtain ⟨_, hpc, rfl⟩ := reporting_eq_ok hs'
  obtain ⟨ticket, hticket₁, rfl⟩ := payable_of_process hpc
  have hpaid₁ := paid_of_process hw₁ hticket₁ hpc
  -- the claim made first
  obtain ⟨hticket, hne⟩ := hticket₁.of_order (ticketsBooked_of_reachable h) hpo
  obtain ⟨v₁, hpc'⟩ := hticket.exists_process
  have hpaid := paid_of_process hw hticket hpc'
  have hpo' := OrderUnstake.process_after_claim hticket hpaid hpo
  have hw₁_eq := (OrderUnstake.world_eq hpo).2
  have hlamports : v₁.lamports = w₂.lamports := by
    refine eq_of_balance (fun k ↦ ?_) ?_
    · have e₁ := hpaid.lamports_eq k
      have e₂ := hpaid₁.lamports_eq k
      rw [hw₁_eq] at e₂
      simp only [Chain.lamportsOf] at *
      omega
    · rw [hpaid.total_eq, hpaid₁.total_eq, hw₁_eq]
  have hbalance := hticket.le_balance
  have hcount := hticket.count_pos
  refine ⟨v₁, ?_, ?_⟩
  · change exec rt w (.claim c) = _
    rw [exec, hpc']
    rfl
  · change exec rt v₁ (.orderUnstake accounts x) = _
    rw [exec, hpo', hpaid₁.world_eq, hw₁_eq, ← hlamports, hpaid.world_eq]
    simp only [erase_insert_comm hne, Nat.sub_add_comm hbalance, Nat.sub_add_comm hcount]
    rfl

end

/-! ## All claims first -/

namespace Label

/-- The claim that a step was. -/
def claim? : Label → Option Claim
  | .instruction (.claim accounts) _ => some accounts
  | _ => none

def isOrder : Label → Bool
  | .instruction (.orderUnstake _ _) _ => true
  | _ => false

/-- No claim pays into the reserve or into an account that another one closes. -/
def ClaimsApart (ls : List Label) : Prop :=
  ∀ a ∈ ls.filterMap claim?, a.transferSolTo ≠ .reserve ∧
    ∀ b ∈ ls.filterMap claim?, a.transferSolTo ≠ b.ticketAccount

instance (ls : List Label) : Decidable (ClaimsApart ls) :=
  inferInstanceAs (Decidable (∀ a ∈ ls.filterMap claim?, a.transferSolTo ≠ .reserve ∧
    ∀ b ∈ ls.filterMap claim?, a.transferSolTo ≠ b.ticketAccount))

theorem eq_of_claim? {l : Label} {c : Claim} (h : l.claim? = some c) :
    ∃ e, l = .instruction (.claim c) e := by
  unfold claim? at h
  split at h
  · rename_i accounts e
    obtain rfl : accounts = c := Option.some.inj h
    exact ⟨e, rfl⟩
  · cases h

theorem eq_of_isOrder {l : Label} (h : l.isOrder = true) :
    ∃ accounts x e, l = .instruction (.orderUnstake accounts x) e := by
  unfold isOrder at h
  split at h
  · exact ⟨_, _, _, rfl⟩
  · cases h

/-- No step of both kinds. -/
theorem isOrder_eq_not_claim? {l : Label} (h : l.claim?.isSome = true ∨ l.isOrder = true) :
    l.isOrder = !l.claim?.isSome := by
  rcases h with hl | hl
  · obtain ⟨c, hc⟩ := Option.isSome_iff_exists.mp hl
    obtain ⟨e, rfl⟩ := eq_of_claim? hc
    rfl
  · obtain ⟨accounts, x, e, rfl⟩ := eq_of_isOrder hl
    rfl

/-- In a run of orders and claims that keep apart, a claim overtakes whatever is before it. -/
theorem ClaimsApart.overtakes {rt : Runtime} {ls : List Label} {a b : Label}
    (h : ClaimsApart ls) (ha : a ∈ ls) (hb : b ∈ ls)
    (hqueue : a.claim?.isSome = true ∨ a.isOrder = true) (hclaim : b.claim?.isSome = true) :
    (marinade rt).Overtakes a b := by
  obtain ⟨c, hc⟩ := Option.isSome_iff_exists.mp hclaim
  have hmem : c ∈ ls.filterMap claim? := List.mem_filterMap.mpr ⟨b, hb, hc⟩
  obtain ⟨e, rfl⟩ := eq_of_claim? hc
  rcases hqueue with ha' | ha'
  · obtain ⟨c', hc'⟩ := Option.isSome_iff_exists.mp ha'
    have hmem' : c' ∈ ls.filterMap claim? := List.mem_filterMap.mpr ⟨a, ha, hc'⟩
    obtain ⟨e', rfl⟩ := eq_of_claim? hc'
    exact Claim.overtakes_claim (h c' hmem').1 ((h c hmem).2 c' hmem')
  · obtain ⟨accounts, x, e', rfl⟩ := eq_of_isOrder ha'
    exact Claim.overtakes_order

end Label

/-- A run of orders and claims leads to the same world, and every one of them grants the same, if
all the claims are made first and in any order. -/
theorem claims_first {rt : Runtime} {w₀ w : World} {ls claims : List Label}
    (h : (marinade rt).Run w₀ ls w) (h₀ : (marinade rt).Reachable w₀)
    (hqueue : ∀ l ∈ ls, l.claim?.isSome = true ∨ l.isOrder = true) (hapart : Label.ClaimsApart ls)
    (hperm : claims.Perm (ls.filter (·.claim?.isSome))) :
    (marinade rt).Run w₀ (ls.filter Label.isOrder ++ claims) w := by
  have hfirst : System.Reordered (marinade rt).Overtakes ls
      (ls.filter (!Option.isSome ·.claim?) ++ ls.filter (·.claim?.isSome)) :=
    .filter_append fun a ha b hb hclaim ↦ hapart.overtakes ha hb (hqueue a ha) hclaim
  have hany : System.Reordered (marinade rt).Overtakes (ls.filter (·.claim?.isSome)) claims := by
    refine .of_perm hperm.symm fun a ha b hb ↦ ?_
    obtain ⟨ha, -⟩ := List.mem_filter.mp ha
    obtain ⟨hb, hclaim⟩ := List.mem_filter.mp hb
    exact hapart.overtakes ha hb (hqueue a ha) hclaim
  have horders : ls.filter (!Option.isSome ·.claim?) = ls.filter Label.isOrder :=
    List.filter_congr fun l hl ↦ (Label.isOrder_eq_not_claim? (hqueue l hl)).symm
  rw [horders] at hfirst
  exact h.reordered h₀ (fun _ _ hab ↦ hab) (hfirst.trans (hany.append_left _))

/-! ## Two tickets -/

namespace Sample

/-- Two tickets are due. -/
def queueing : List Action := [
  .run (.deposit ⟨user, msolAccount⟩ 40000000),
  .run (.orderUnstake ⟨msolAccount, user, .external 40⟩ 7000000),
  .run (.orderUnstake ⟨msolAccount, user, .external 41⟩ 5000000),
  .tick (startOf 3)]

def queued : List Label × World :=
  (replay runtime (fun _ _ ↦ true) fresh queueing).get (by decide +kernel)

theorem queued_reachable : (marinade runtime).Reachable queued.2 :=
  (run_of_replay (Option.some_get _).symm).reachable fresh_fresh

/-- One is claimed, a third one is ordered, and the other one is claimed. -/
def serving : List Action := [
  .run (.claim ⟨.external 41, user⟩),
  .run (.orderUnstake ⟨msolAccount, user, .external 42⟩ 6000000),
  .run (.claim ⟨.external 40, user⟩)]

def served : List Label × World :=
  (replay runtime (fun _ _ ↦ true) queued.2 serving).get (by decide +kernel)

theorem served_run : (marinade runtime).Run queued.2 served.1 served.2 :=
  run_of_replay (Option.some_get _).symm

end Sample

theorem claims_first_sample : (marinade Sample.runtime).Run Sample.queued.2
    (Sample.served.1.filter Label.isOrder ++
      (Sample.served.1.filter (·.claim?.isSome)).reverse) Sample.served.2 :=
  claims_first Sample.served_run Sample.queued_reachable (by decide +kernel) (by decide +kernel)
    (List.reverse_perm _)

end Marinade
