import Marinade.Invariants.Soundness

/-!
# The tickets

Tickets live in accounts of their own, and the state keeps only how many there are and what they are
worth together. An order adds one ticket to both, a claim removes it from both, and nothing else
touches either.

Seen from one address, orders and claims alternate: what was ordered there is what was claimed there
and, unless the last order has been claimed, the ticket that is there now.
-/

open Foundation Foundation.Ledger

namespace Marinade

/-- The tickets of this pool that were created and not claimed yet. -/
def Chain.liveTickets (c : Chain) : List (Sigma fun _ : Pubkey ↦ TicketAccountData) :=
  c.tickets.entries.filter (·.2.stateAddress = .state)

/-- Whom the live ticket at an address pays, and how much. -/
def Chain.liveTerms (c : Chain) (k : Pubkey) : Option (Pubkey × ℕ) :=
  (c.tickets.lookup k).bind fun ticket ↦
    if ticket.stateAddress = .state then some (ticket.beneficiary, ticket.lamportsAmount) else none

/-- The two totals of the state are those of the live tickets. -/
structure TicketsBooked (w : World) : Prop where
  balance_eq : w.state.circulatingTicketBalance = total (·.2.lamportsAmount) w.liveTickets
  count_eq : w.state.circulatingTicketCount = w.liveTickets.length

namespace Label

/-- The terms of the ticket that a step created at an address. -/
def ordered (k : Pubkey) : Label → Option (Pubkey × ℕ)
  | .instruction _ (.orderUnstake e) =>
    if e.ticket = k then some (e.beneficiary, e.solAmount) else none
  | _ => none

/-- The terms on which a step paid the ticket at an address. -/
def claimed (k : Pubkey) : Label → Option (Pubkey × ℕ)
  | .instruction _ (.claim e) => if e.ticket = k then some (e.beneficiary, e.amount) else none
  | _ => none

end Label

section

variable {rt : Runtime} {c c' : Chain} {w w₀ w' : World} {k : Pubkey} {i : Instruction} {e : Event}
  {x : External} {l : Label} {ls : List Label} {ticket : TicketAccountData}

theorem Chain.liveTerms_eq_some {p : Pubkey × ℕ} :
    c.liveTerms k = some p ↔
      ∃ epoch, c.tickets.lookup k = some ⟨.state, p.1, p.2, epoch⟩ := by
  unfold liveTerms
  cases h : c.tickets.lookup k with
  | none => simp
  | some ticket =>
    obtain ⟨address, beneficiary, amount, epoch⟩ := ticket
    obtain ⟨b, a⟩ := p
    by_cases hs : address = .state <;> simp [hs]

theorem Chain.mem_liveTickets {t : Sigma fun _ : Pubkey ↦ TicketAccountData} :
    t ∈ c.liveTickets ↔ c.OwnTicket t.1 t.2 := by
  rw [liveTickets, List.mem_filter, decide_eq_true_eq, OwnTicket]
  exact and_congr_left fun _ ↦ AList.mem_lookup_iff.symm

/-- A ticket is part of the two totals. -/
theorem TicketsBooked.le (h : TicketsBooked w) (hown : w.OwnTicket k ticket) :
    ticket.lamportsAmount ≤ w.state.circulatingTicketBalance ∧
      1 ≤ w.state.circulatingTicketCount := by
  have hmem : ⟨k, ticket⟩ ∈ w.liveTickets := Chain.mem_liveTickets.mpr hown
  rw [h.balance_eq, h.count_eq]
  exact ⟨le_total (g := (·.2.lamportsAmount)) hmem, List.length_pos_of_mem hmem⟩

/-- An order in front of the live tickets. -/
theorem liveTickets_insert {b : Chain} (hk : c.tickets.lookup k = none)
    (hticket : ticket.stateAddress = .state)
    (h : b.tickets = c.tickets.insert k ticket) : b.liveTickets = ⟨k, ticket⟩ :: c.liveTickets := by
  rw [Chain.liveTickets, h, AList.entries_insert_of_notMem (AList.lookup_eq_none.mp hk),
    List.filter_cons_of_pos (by simpa using hticket), Chain.liveTickets]

/-- A claim takes one live ticket out. -/
theorem liveTickets_erase {b : Chain} (hk : c.OwnTicket k ticket)
    (h : b.tickets = c.tickets.erase k) :
    c.liveTickets.Perm (⟨k, ticket⟩ :: b.liveTickets) := by
  obtain ⟨hlookup, hown⟩ := hk
  have hmem : k ∈ c.tickets.keys := by
    rw [← AList.mem_keys, ← AList.lookup_isSome, hlookup]
    rfl
  obtain ⟨ticket', l₁, l₂, -, hentries, herase⟩ := List.exists_of_kerase hmem
  have hticket : ticket = ticket' := by
    have hin : (⟨k, ticket'⟩ : Sigma fun _ : Pubkey ↦ TicketAccountData) ∈ c.tickets.entries := by
      rw [hentries]
      simp
    have := AList.mem_lookup_iff.mpr hin
    rw [hlookup] at this
    simpa using this
  subst hticket
  have hperm : c.tickets.entries.Perm (⟨k, ticket⟩ :: b.tickets.entries) := by
    rw [h]
    change c.tickets.entries.Perm (⟨k, ticket⟩ :: List.kerase k c.tickets.entries)
    rw [herase, hentries]
    exact List.perm_middle
  refine (hperm.filter _).trans ?_
  rw [List.filter_cons_of_pos (by simpa using hown)]
  exact List.Perm.refl _

/-- The live tickets are determined, up to their order, by which tickets there are. -/
theorem liveTickets_perm (h : ∀ k ticket, c'.OwnTicket k ticket ↔ c.OwnTicket k ticket) :
    c'.liveTickets.Perm c.liveTickets := by
  refine (List.perm_ext_iff_of_nodup ?_ ?_).mpr fun t ↦ ?_
  · exact (List.NodupKeys.nodup c'.tickets.nodupKeys).filter _
  · exact (List.NodupKeys.nodup c.tickets.nodupKeys).filter _
  · rw [Chain.mem_liveTickets, Chain.mem_liveTickets, h]

/-! ## Every step -/

/-- Instructions other than orders and claims leave the tickets alone. -/
theorem Executed.tickets_eq (h : Executed rt w w' i e) :
    (∃ accounts x, i = .orderUnstake accounts x) ∨ (∃ accounts, i = .claim accounts) ∨
    (w'.tickets = w.tickets ∧
      w'.state.circulatingTicketBalance = w.state.circulatingTicketBalance ∧
      w'.state.circulatingTicketCount = w.state.circulatingTicketCount) := by
  cases h with
  | orderUnstake h => exact .inl ⟨_, _, rfl⟩
  | claim h => exact .inr (.inl ⟨_, rfl⟩)
  | config _ books hframe =>
    exact .inr (.inr ⟨by rw [hframe], books.tickets_eq, books.ticket_count_eq⟩)
  | realloc _ _ _ _ h =>
    exact .inr (.inr ⟨by rw [h.frame], h.books.tickets_eq, h.books.ticket_count_eq⟩)
  | finalizeDelinquentUpgrade h hframe =>
    obtain ⟨-, _, _, _, _, _, -, -, ⟨-, -, hs⟩ | ⟨-, hs⟩⟩ :=
      FinalizeDelinquentUpgrade.process_spec h
    · exact .inr (.inr ⟨by rw [hframe], by rw [hs], by rw [hs]⟩)
    · exact .inr (.inr ⟨by rw [hframe], by rw [hs], by rw [hs]⟩)
  | notStaked h =>
    obtain ⟨_, hs⟩ := h.state_eq
    exact .inr (.inr ⟨by rw [h.frame], by rw [hs], by rw [hs]⟩)
  | stakeReserve h =>
    obtain ⟨_, hs⟩ := h.state_eq
    exact .inr (.inr ⟨by rw [h.frame], by rw [hs], by rw [hs]⟩)
  | unstakedWhole h =>
    obtain ⟨_, _, _, hs⟩ := h.state_eq
    exact .inr (.inr ⟨by rw [h.frame], by rw [hs], by rw [hs]⟩)
  | unstakedSplit h =>
    obtain ⟨_, _, _, hs⟩ := h.state_eq
    exact .inr (.inr ⟨by rw [h.frame], by rw [hs], by rw [hs]⟩)
  | addValidator h =>
    obtain ⟨_, hs⟩ := h.state_eq
    exact .inr (.inr ⟨by rw [h.frame], by rw [hs], by rw [hs]⟩)
  | removeValidator h =>
    obtain ⟨_, hs⟩ := h.state_eq
    exact .inr (.inr ⟨by rw [h.frame], by rw [hs], by rw [hs]⟩)
  | setValidatorScore h =>
    obtain ⟨_, hs⟩ := h.state_eq
    exact .inr (.inr ⟨by rw [h.frame], by rw [hs], by rw [hs]⟩)
  | updateActive h =>
    obtain ⟨_, hs⟩ := h.state_eq
    exact .inr (.inr ⟨by rw [h.frame], by rw [hs]; rfl, by rw [hs]; rfl⟩)
  | updateDeactivated h =>
    obtain ⟨_, hs⟩ := h.state_eq
    refine .inr (.inr ⟨by rw [h.frame], ?_, ?_⟩) <;>
      rw [hs, h.booked_out.state_eq, h.detected.state_eq] <;> rfl
  | _ h => exact .inr (.inr ⟨by rw [h.frame], by rw [h.state_eq], by rw [h.state_eq]⟩)

theorem OrderUnstake.Spec.ticketsBooked {accounts x e} (h : OrderUnstake.Spec rt accounts x w w' e)
    (ht : TicketsBooked w) : TicketsBooked w' := by
  have hnone : w.tickets.lookup e.ticket = none := by
    have hsystem := (Bool.and_eq_true_iff.mp h.unused).2
    simp only [Chain.isSystemAccount, decide_eq_true_eq] at hsystem
    rw [h.ticket_eq]
    exact hsystem.2.2.2.2.2.2
  have hlive := liveTickets_insert (b := w'.toChain) hnone rfl h.tickets_eq
  constructor
  · rw [hlive, total_cons, h.state_eq, ← ht.balance_eq]
    exact Nat.add_comm _ _
  · rw [hlive, List.length_cons, h.state_eq, ← ht.count_eq]

theorem Claim.Spec.own_ticket {accounts e rent} (h : Claim.Spec accounts w w' e rent) :
    ∃ epoch, w.OwnTicket e.ticket ⟨.state, e.beneficiary, e.amount, epoch⟩ := by
  obtain ⟨epoch, hlookup⟩ := h.ticket
  exact ⟨epoch, hlookup, rfl⟩

theorem Claim.Spec.ticketsBooked {accounts e rent} (h : Claim.Spec accounts w w' e rent)
    (ht : TicketsBooked w) : TicketsBooked w' := by
  obtain ⟨epoch, hown⟩ := h.own_ticket
  have hlive := liveTickets_erase (b := w'.toChain) hown h.tickets_eq
  have hbalance := total_perm (g := (·.2.lamportsAmount)) hlive
  have hcount := hlive.length_eq
  rw [← ht.balance_eq, total_cons] at hbalance
  rw [← ht.count_eq, List.length_cons] at hcount
  constructor
  · rw [h.state_eq]
    simp only at *
    omega
  · rw [h.state_eq]
    simp only at *
    omega

theorem TicketsBooked.of_eq (ht : TicketsBooked w) (htickets : w'.tickets = w.tickets)
    (hbalance : w'.state.circulatingTicketBalance = w.state.circulatingTicketBalance)
    (hcount : w'.state.circulatingTicketCount = w.state.circulatingTicketCount) :
    TicketsBooked w' := by
  constructor
  · rw [hbalance, ht.balance_eq, Chain.liveTickets, Chain.liveTickets, htickets]
  · rw [hcount, ht.count_eq, Chain.liveTickets, Chain.liveTickets, htickets]

theorem TicketsBooked.step (ht : TicketsBooked w) (hw : WellFormed rt w) (hs : Step rt w l w') :
    TicketsBooked w' := by
  cases l with
  | instruction i e =>
    rcases (executed_of_exec hs hw.stakes_sound).tickets_eq with
      ⟨accounts, x, rfl⟩ | ⟨accounts, rfl⟩ | ⟨htickets, hbalance, hcount⟩
    · obtain ⟨e', hp, -⟩ := reporting_eq_ok hs
      exact (OrderUnstake.process_spec hp).ticketsBooked ht
    · obtain ⟨e', hp, -⟩ := reporting_eq_ok hs
      obtain ⟨rent, h⟩ := Claim.process_spec hp
      exact h.ticketsBooked ht
    · exact ht.of_eq htickets hbalance hcount
  | external x =>
    have hlive := liveTickets_perm fun k ticket ↦ External.ownTicket_iff hs.1
    constructor
    · rw [hs.2, ht.balance_eq, total_perm hlive]
    · rw [hs.2, ht.count_eq, hlive.length_eq]

theorem Fresh.no_tickets (h : Fresh rt w) (ticket : TicketAccountData) :
    ¬w.OwnTicket k ticket := by
  obtain ⟨accounts, data, c, hc, hp⟩ := h
  rw [(Initialize.process_spec hp).chain_eq]
  exact hc.no_tickets k ticket

theorem Fresh.ticketsBooked (h : Fresh rt w) : TicketsBooked w := by
  have hlive : w.liveTickets = [] := by
    rw [List.eq_nil_iff_forall_not_mem]
    exact fun t ht ↦ h.no_tickets _ (Chain.mem_liveTickets.mp ht)
  obtain ⟨accounts, data, c, -, hp⟩ := h
  obtain ⟨-, -, -, -, -, -, hbalance, hcount⟩ := (Initialize.process_spec hp).books
  constructor
  · rw [hbalance, hlive, total_nil]
  · rw [hcount, hlive, List.length_nil]

theorem ticketsBooked_of_reachable (h : (marinade rt).Reachable w) : TicketsBooked w :=
  h.induct_of (Q := WellFormed rt) (fun _ ↦ wellFormed_of_reachable)
    (fun _ hi _ ↦ hi.ticketsBooked) fun _ _ _ hw _ ht hs ↦ ht.step hw hs

/-! ## What happened at one address -/

/-- What was ordered at `k` in a run that ended in `c` is what is live there now and what was
claimed there, in this order (the latest first). -/
def Chain.Settled (c : Chain) (k : Pubkey) (ls : List Label) : Prop :=
  ls.filterMap (·.ordered k) = (c.liveTerms k).toList ++ ls.filterMap (·.claimed k)

/-- A step that neither creates nor pays a ticket at `k`. -/
private theorem Chain.Settled.skip (h : c.Settled k ls) (hlive : c'.liveTerms k = c.liveTerms k)
    (hordered : l.ordered k = none) (hclaimed : l.claimed k = none) : c'.Settled k (l :: ls) := by
  rw [Settled, List.filterMap_cons_none hordered, List.filterMap_cons_none hclaimed, hlive]
  exact h

theorem OrderUnstake.Spec.settled {accounts x e} (h : OrderUnstake.Spec rt accounts x w w' e)
    (hs : w.Settled k ls) :
    w'.Settled k (.instruction (.orderUnstake accounts x) (.orderUnstake e) :: ls) := by
  by_cases hk : e.ticket = k
  · -- nothing was live at a fresh address
    have hnone : w.liveTerms k = none := by
      have hsystem := (Bool.and_eq_true_iff.mp h.unused).2
      simp only [Chain.isSystemAccount, decide_eq_true_eq] at hsystem
      rw [Chain.liveTerms, ← hk, h.ticket_eq, hsystem.2.2.2.2.2.2]
      rfl
    have hlive : w'.liveTerms k = some (e.beneficiary, e.solAmount) := by
      refine Chain.liveTerms_eq_some.mpr ⟨e.ticketEpoch, ?_⟩
      rw [h.tickets_eq, hk, AList.lookup_insert]
    rw [Chain.Settled, hnone] at hs
    rw [Chain.Settled, hlive, List.filterMap_cons_some (b := (e.beneficiary, e.solAmount)),
      List.filterMap_cons_none, hs]
    · rfl
    · rfl
    · exact if_pos hk
  · refine hs.skip ?_ (if_neg hk) rfl
    rw [Chain.liveTerms, Chain.liveTerms, h.tickets_eq, AList.lookup_insert_ne (Ne.symm hk)]

theorem Claim.Spec.settled {accounts e rent} (h : Claim.Spec accounts w w' e rent)
    (hs : w.Settled k ls) : w'.Settled k (.instruction (.claim accounts) (.claim e) :: ls) := by
  by_cases hk : e.ticket = k
  · obtain ⟨epoch, hlookup⟩ := h.ticket
    have hlive : w.liveTerms k = some (e.beneficiary, e.amount) :=
      Chain.liveTerms_eq_some.mpr ⟨epoch, by rw [← hk, hlookup]⟩
    have hnone : w'.liveTerms k = none := by
      rw [Chain.liveTerms, h.tickets_eq, hk, AList.lookup_erase]
      rfl
    have hclaimed : (Label.instruction (.claim accounts) (.claim e)).claimed k =
        some (e.beneficiary, e.amount) := if_pos hk
    rw [Chain.Settled, hlive] at hs
    rw [Chain.Settled, hnone, List.filterMap_cons_none rfl, hs, List.filterMap_cons, hclaimed]
    rfl
  · refine hs.skip ?_ rfl (if_neg hk)
    rw [Chain.liveTerms, Chain.liveTerms, h.tickets_eq, AList.lookup_erase_ne (Ne.symm hk)]

/-- A step that is neither an order nor a claim says so. -/
private theorem ordered_claimed_none (h : exec rt w i = .ok (w', e))
    (horder : ∀ accounts x, i ≠ .orderUnstake accounts x)
    (hclaim : ∀ accounts, i ≠ .claim accounts) :
    (Label.instruction i e).ordered k = none ∧ (Label.instruction i e).claimed k = none := by
  have hreported := reportedBy_of_exec h
  cases e with
  | orderUnstake e =>
    obtain ⟨accounts, x, hi, -⟩ := hreported
    exact absurd hi (horder accounts x)
  | claim e =>
    obtain ⟨accounts, hi, -⟩ := hreported
    exact absurd hi (hclaim accounts)
  | _ => exact ⟨rfl, rfl⟩

theorem Chain.Settled.step (h : w.Settled k ls) (hw : WellFormed rt w) (hs : Step rt w l w') :
    w'.Settled k (l :: ls) := by
  cases l with
  | instruction i e =>
    by_cases horder : ∃ accounts x, i = .orderUnstake accounts x
    · obtain ⟨accounts, x, rfl⟩ := horder
      obtain ⟨e', hp, rfl⟩ := reporting_eq_ok hs
      exact (OrderUnstake.process_spec hp).settled h
    by_cases hclaim : ∃ accounts, i = .claim accounts
    · obtain ⟨accounts, rfl⟩ := hclaim
      obtain ⟨e', hp, rfl⟩ := reporting_eq_ok hs
      obtain ⟨rent, hc⟩ := Claim.process_spec hp
      exact hc.settled h
    obtain ⟨hordered, hclaimed⟩ := ordered_claimed_none (k := k) hs
      (fun a x ha ↦ horder ⟨a, x, ha⟩) fun a ha ↦ hclaim ⟨a, ha⟩
    have htickets : w'.tickets = w.tickets := by
      rcases (executed_of_exec hs hw.stakes_sound).tickets_eq with h | h | h
      · exact absurd h horder
      · exact absurd h hclaim
      · exact h.1
    exact h.skip (by rw [liveTerms, liveTerms, htickets]) hordered hclaimed
  | external x =>
    refine h.skip ?_ rfl rfl
    refine Option.ext fun p ↦ ?_
    rw [Chain.liveTerms_eq_some, Chain.liveTerms_eq_some]
    refine exists_congr fun epoch ↦ ?_
    have hown := External.ownTicket_iff hs.1 (k := k) (t := ⟨.state, p.1, p.2, epoch⟩)
    simpa [Chain.OwnTicket] using hown

/-- In every run, what was ordered at an address and is not live there any more was claimed there
once and on the terms of the order. -/
theorem settled_of_run (h₀ : Fresh rt w₀) (h : (marinade rt).Run w₀ ls w) (k : Pubkey) :
    w.Settled k ls := by
  refine h.induct (P := fun ls w ↦ w.Settled k ls) ?_ fun ls w l w' hr hs hstep ↦
    hs.step (wellFormed_of_reachable (hr.reachable h₀)) hstep
  have hnone : w₀.liveTerms k = none := by
    rw [Option.eq_none_iff_forall_ne_some]
    intro p hp
    obtain ⟨epoch, hlookup⟩ := Chain.liveTerms_eq_some.mp hp
    exact h₀.no_tickets _ ⟨hlookup, rfl⟩
  rw [Chain.Settled, hnone]
  rfl

end

end Marinade
