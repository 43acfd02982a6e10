import Marinade.Invariants.NoFailure
import Marinade.Replay

/-!
# The books of a pool

What the invariants say of the state that a run from the initialization has reached: the totals are
the sums they stand for, the virtual balances bound the real ones, and every ticket is paid once.
-/

open Foundation Foundation.Ledger

namespace Marinade

/-- The totals of the state and the balances of the validators are sums over the stake list. -/
structure LedgerInvariant (w : World) : Prop where
  tracked : ∀ r ∈ w.state.stakeSystem.records, r.lastUpdateStatus ≠ .unknown ∧
    (r.isEmergencyUnstaking = true → r.lastUpdateStatus = .deactivating)
  active : w.state.validatorSystem.totalActiveBalance =
    total (·.lastUpdateDelegatedLamports)
      (w.state.stakeSystem.records.filter (·.lastUpdateStatus = .active))
  delayed : w.state.stakeSystem.delayedUnstakeCoolingDown =
    total (·.lastUpdateDelegatedLamports) (w.state.stakeSystem.records.filter fun r ↦
      r.lastUpdateStatus = .deactivating ∧ r.isEmergencyUnstaking = false)
  emergency : w.state.emergencyCoolingDown =
    total (·.lastUpdateDelegatedLamports) (w.state.stakeSystem.records.filter fun r ↦
      r.lastUpdateStatus = .deactivating ∧ r.isEmergencyUnstaking = true)
  validators : ∀ v ∈ w.state.validatorSystem.records, v.activeBalance =
    total (·.lastUpdateDelegatedLamports) (w.state.stakeSystem.records.filter fun r ↦
      r.lastUpdateStatus = .active ∧ w.voterOf r.stakeAccount = some v.validatorAccount)

section

variable {rt : Runtime} {w w₀ : World} {ls : List Label}

theorem Booked.ledgerInvariant (h : Booked w) (hr : Registered w) : LedgerInvariant w where
  tracked r hr := ⟨(h.tracked r hr).known, (h.tracked r hr).emergency⟩
  active := by
    rw [total_filter]
    exact h.total_eq
  delayed := by
    rw [total_filter]
    exact h.cooling_eq false
  emergency := by
    rw [total_filter]
    exact h.cooling_eq true
  validators v hv := by
    rw [total_filter, h.activeBalance_eq hr hv]
    refine total_congr fun r _ ↦ ?_
    rw [Chain.activeFor, StakeRecord.activeAmount, ← ite_and]
    exact if_congr and_comm rfl rfl

/-- In every state that a run from the initialization reaches the totals are the sums over the stake
list, so no instruction takes more from one of them than it holds. -/
theorem ledgerInvariant_of_reachable (h : (marinade rt).Reachable w) :
    LedgerInvariant w ∧
    ∀ i, ∀ c ∈ [Counter.totalActiveBalance, .validatorActiveBalance, .delayedUnstakeCoolingDown,
      .emergencyCoolingDown], exec rt w i ≠ .error (.underflow c) := by
  have hw := intact_of_reachable h
  refine ⟨hw.booked.ledgerInvariant hw.registered, fun i c hc he ↦ exec_safe hw i _ he ?_⟩
  simp only [List.mem_cons, List.not_mem_nil, or_false] at hc
  rcases hc with rfl | rfl | rfl | rfl <;> trivial

theorem ledgerInvariant_staked : LedgerInvariant Sample.staked.2 ∧
    ∀ i, ∀ c ∈ [Counter.totalActiveBalance, .validatorActiveBalance, .delayedUnstakeCoolingDown,
      .emergencyCoolingDown], exec Sample.runtime Sample.staked.2 i ≠ .error (.underflow c) :=
  ledgerInvariant_of_reachable Sample.staked_reachable

/-- The virtual balances bound the real ones in every state that a run reaches, so nothing that
outsiders do to the accounts and the tokens makes an instruction stop. -/
theorem virtual_bounds_of_reachable (h : (marinade rt).Reachable w) :
    w.state.availableReserveBalance + w.state.rentExemptForTokenAcc ≤ w.lamportsOf .reserve ∧
    w.msol.supply ≤ w.state.msolSupply ∧
    w.lp.supply ≤ w.state.liqPool.lpSupply ∧
    w.state.rentExemptForTokenAcc ≤ w.lamportsOf .solLeg ∧
    w.realigned.stakingSolCap = w.state.stakingSolCap ∧
    ∀ i, ∀ e ∈ [Error.marinade .unregisteredMsolMinted, .marinade .unregisteredLPMinted,
      .assertion .reserveAligned, .underflow .reserveAboveRent, .underflow .solLegAboveRent,
      .underflow .msolSupply, .underflow .lpSupply], exec rt w i ≠ .error e := by
  have hw := intact_of_reachable h
  have hb := hw.bounds
  refine ⟨hb.reserve_le, hb.supply_le, hb.lp_supply_le, hb.sol_leg_le,
    if_neg (Nat.not_lt.mpr hb.supply_le), fun i e hmem he ↦ exec_safe hw i _ he ?_⟩
  simp only [List.mem_cons, List.not_mem_nil, or_false] at hmem
  rcases hmem with rfl | rfl | rfl | rfl | rfl | rfl | rfl <;>
    simp [Error.Excluded, Counter.Covered]

theorem virtual_bounds_staked :
    Sample.staked.2.state.availableReserveBalance + Sample.staked.2.state.rentExemptForTokenAcc
      ≤ Sample.staked.2.lamportsOf .reserve ∧
    Sample.staked.2.realigned.stakingSolCap = Sample.staked.2.state.stakingSolCap :=
  have h := virtual_bounds_of_reachable Sample.staked_reachable
  ⟨h.1, h.2.2.2.2.1⟩

/-! ## Tickets -/

/-- In every run from the initialization the two totals are those of the live tickets; what was
ordered at an address is what was claimed there, on the same terms and in the same order, and what
is live there now; a claim pays the ticket to its beneficiary and removes it; and it never fails for
the totals. -/
theorem tickets_of_run (h₀ : Fresh rt w₀) (h : (marinade rt).Run w₀ ls w) :
    w.state.circulatingTicketBalance = total (·.2.lamportsAmount) w.liveTickets ∧
    w.state.circulatingTicketCount = w.liveTickets.length ∧
    (∀ k, ls.filterMap (·.ordered k) = (w.liveTerms k).toList ++ ls.filterMap (·.claimed k)) ∧
    (∀ accounts w' e, exec rt w (.claim accounts) = .ok (w', .claim e) →
      w.liveTerms e.ticket = some (e.beneficiary, e.amount) ∧ w'.liveTerms e.ticket = none ∧
      ∀ k, w'.lamportsOf k + only .reserve e.amount k
          + only e.ticket (w.lamportsOf e.ticket) k
        = w.lamportsOf k + only e.beneficiary (e.amount + w.lamportsOf e.ticket) k) ∧
    ∀ accounts, exec rt w (.claim accounts) ≠ .error (.underflow .circulatingTicketBalance) ∧
      exec rt w (.claim accounts) ≠ .error (.underflow .circulatingTicketCount) := by
  have hw := intact_of_reachable (h.reachable h₀)
  refine ⟨hw.tickets.balance_eq, hw.tickets.count_eq, settled_of_run h₀ h, ?_,
    fun accounts ↦ ⟨fun he ↦ exec_safe hw _ _ he trivial, fun he ↦ exec_safe hw _ _ he trivial⟩⟩
  intro accounts w' e he
  obtain ⟨e', hp, heq⟩ := reporting_eq_ok he
  cases heq
  obtain ⟨rent, hs⟩ := Claim.process_spec hp
  obtain ⟨epoch, hticket⟩ := hs.ticket
  have hplace := (hw.wellFormed.ticket_place _ _ ⟨hticket, rfl⟩).1
  have hne : accounts.ticketAccount ≠ .reserve := fun heq ↦ by
    rw [hs.ticket_eq, heq] at hplace
    cases hplace
  refine ⟨Chain.liveTerms_eq_some.mpr ⟨epoch, hticket⟩, ?_, fun k ↦ ?_⟩
  · rw [Chain.liveTerms, hs.tickets_eq, AList.lookup_erase]
    rfl
  · rw [hs.ticket_eq, ← hs.rent_eq hne, hs.beneficiary_eq]
    exact hs.lamports_eq k

theorem tickets_claimed :
    Sample.claimed.2.state.circulatingTicketBalance = 0 ∧
    Sample.claimed.1.filterMap (·.ordered (.external 40)) =
      (Sample.claimed.2.liveTerms (.external 40)).toList
        ++ Sample.claimed.1.filterMap (·.claimed (.external 40)) :=
  have h := tickets_of_run Sample.fresh_fresh Sample.claimed_run
  ⟨h.1.trans (by decide +kernel), h.2.2.1 _⟩

end

end Marinade
