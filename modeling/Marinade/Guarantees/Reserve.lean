import Marinade.Invariants.Bounds
import Marinade.Invariants.Tickets
import Marinade.Replay

/-!
# The reserve and what the books know of it

Anybody may send lamports to the reserve, and the books do not know of them until the next update.
Two instructions pay from the reserve. Both ask the real account how much there is, and both take
the amount out of the books, which may have less. The claim of a ticket then fails although the
reserve could pay it. Staking fails in more cases: the stake delta also counts what is still cooling
down.
-/

open Foundation Foundation.Ledger

namespace Marinade

section

variable {rt : Runtime} {w w' : World} {k src dst : Pubkey} {x j : ℕ}

/-! ## Sending lamports -/

/-- Whoever owns an account may send lamports from it to any other. -/
theorem step_of_transfer (hw : WellFormed rt w) (hsrc : w.isUnused src = true)
    {ledger : Ledger Pubkey} (hl : w.lamports.transfer src dst x = some ledger) :
    Step rt w (.external .outside) { w with lamports := ledger } := by
  have hle : ∀ k, k ≠ src → w.lamportsOf k ≤ ledger.balance k := fun k hk ↦
    le_transfer_balance hl hk
  refine ⟨?_, rfl⟩
  exact {
    clock_eq := rfl
    flags_eq := rfl
    capital_le := (transfer_total hl).le.trans hw.capital_le
    lamports_le := by
      rintro k (hsign | ⟨account, ha, -⟩)
      · exact hle k (Chain.ne_of_not_canSign hsign hsrc)
      · exact hle k (Chain.ne_of_isUnused (by simp [ha]) hsrc)
    msol_supply_le := le_rfl
    msol_leg_le := le_rfl
    lp_supply_le := le_rfl
    stakes_eq := fun _ _ ↦ rfl
    stakes_sound := hw.stakes_sound.of_le rfl fun k hk ↦ hle k (Chain.ne_of_isUnused hk hsrc)
    tickets_iff := fun _ _ ↦ Iff.rfl
    tickets_owner := fun k ticket hk ↦ (hw.ticket_place k ticket hk).2 }

/-! ## Claiming a ticket -/

/-- A due ticket that the reserve can pay is paid if and only if the books can pay it too. -/
theorem claim_iff {accounts : Claim} {ticket : TicketAccountData} (h : (marinade rt).Reachable w)
    (hpaused : w.state.paused = false)
    (hticket : w.tickets.lookup accounts.ticketAccount = some ticket)
    (hto : accounts.transferSolTo = ticket.beneficiary)
    (hsystem : w.isSystemAccount accounts.transferSolTo = true)
    (hdue : Claim.checkTicketAccount ticket w.clock = .ok ())
    (hfunded : ticket.lamportsAmount ≤ w.lamportsOf .reserve - w.state.rentExemptForTokenAcc) :
    (∃ w' e, exec rt w (.claim accounts) = .ok (w', e)) ↔
      ticket.lamportsAmount ≤ w.state.availableReserveBalance := by
  constructor
  · rintro ⟨w', e, he⟩
    obtain ⟨event, hp, -⟩ := reporting_eq_ok he
    obtain ⟨rent, hspec⟩ := Claim.process_spec hp
    obtain ⟨epoch, hlookup⟩ := hspec.ticket
    rw [hspec.ticket_eq, hticket, Option.some.injEq] at hlookup
    rw [hlookup]
    exact hspec.le_available
  · intro havailable
    have hreserve := (bounds_of_reachable h).reserve_le
    obtain ⟨hbalance, hcount⟩ := (ticketsBooked_of_reachable h).le
      ⟨hticket, Claim.checkTicketAccount_state hdue⟩
    have hcovered : ticket.lamportsAmount ≤ w.lamportsOf .reserve := by omega
    obtain ⟨l₁, hl₁⟩ := exists_transfer accounts.transferSolTo hcovered
    obtain ⟨l₂, hl₂⟩ := exists_transfer accounts.transferSolTo
      (le_refl (l₁.balance accounts.ticketAccount))
    have hp : ∃ w' event, accounts.process w = .ok (w', event) := by
      simp only [Claim.process, bind_eq_ok, ensure_eq_ok, orError_eq_ok, checkedSub_eq_ok,
        pure_eq_ok, exists_const, SystemProgram.transfer_eq_ok,
        State.onTransferFromReserve_eq_ok]
      exact ⟨_, _, ticket, hticket, hto, hsystem, by simpa using hpaused, (), hdue, _,
        ⟨by omega, rfl⟩, hfunded, _, ⟨hbalance, rfl⟩, _, ⟨hcount, rfl⟩, _, ⟨l₁, hl₁, rfl⟩, _,
        ⟨havailable, rfl⟩, _, ⟨l₂, hl₂, rfl⟩, rfl⟩
    obtain ⟨w', event, hp⟩ := hp
    refine ⟨w', .claim event, ?_⟩
    rw [exec, hp]
    rfl

/-! ## Staking the reserve -/

namespace StakeReserve

/-- What there is to stake, if anything. -/
def totalStakeDelta (w : World) : ℕ :=
  (w.state.stakeDelta (w.lamportsOf .reserve)).toNat

/-- All checks have passed and no early exit was taken: `x` is about to be staked to `v`, whose
target is `share`. -/
structure Decided (rt : Runtime) (accounts : StakeReserve) (j : ℕ) (w : World)
    (v : ValidatorRecord) (share x : ℕ) : Prop where
  created : ∃ c, SystemProgram.initStakeAccount rt w.toChain accounts.rentPayer
    accounts.stakeAccount = .ok c
  not_paused : w.state.paused = false
  done : w.state.delinquentUpgrader = .done
  delta_pos : 0 < totalStakeDelta w
  delta_le : totalStakeDelta w ≤ u64Max
  validator : w.state.validatorSystem.getChecked j accounts.validatorVote = .ok v
  run_left : v.lastStakeDeltaEpoch = w.clock.epoch →
    w.state.stakeSystem.extraStakeDeltaRuns ≠ 0
  in_window : inStakeDeltaWindow rt w.clock w.state = .ok ()
  share_eq : w.state.validatorSystem.validatorStakeTarget v
    (min (w.state.validatorSystem.totalActiveBalance + totalStakeDelta w) u64Max) = .ok share
  below : v.activeBalance < share
  amount_eq : x = stakeTarget w.state share v.activeBalance (totalStakeDelta w)
  min_le : w.state.stakeSystem.minStake ≤ x

variable {accounts : StakeReserve} {v : ValidatorRecord} {share : ℕ}

/-- The tickets take up what is cooling down and what the books do not know of, or what the
validator lacks is booked and enough is left to stake. -/
def Covers (w : World) (v : ValidatorRecord) (share : ℕ) : Prop :=
  w.lamportsOf .reserve - w.state.rentExemptForTokenAcc - w.state.availableReserveBalance
      + w.state.stakeSystem.delayedUnstakeCoolingDown ≤ w.state.circulatingTicketBalance ∨
    share - v.activeBalance ≤ w.state.availableReserveBalance ∧
      w.state.stakeSystem.minStake ≤ totalStakeDelta w - (share - v.activeBalance)

/-- What there is to stake is what the reserve holds and what is cooling down, less the tickets. -/
theorem totalStakeDelta_eq (h : 0 < totalStakeDelta w) :
    totalStakeDelta w + w.state.circulatingTicketBalance
      = (w.lamportsOf .reserve - w.state.rentExemptForTokenAcc)
        + w.state.stakeSystem.delayedUnstakeCoolingDown := by
  simp only [totalStakeDelta, State.stakeDelta] at *
  split at h
  · rw [if_pos ‹_›]
    omega
  · omega

theorem stakeTarget_le {s : State} {share active delta : ℕ} :
    stakeTarget s share active delta ≤ delta := by
  simp only [stakeTarget]
  split
  · exact le_rfl
  · exact min_le_right _ _

/-- The amount is within a limit if all there is to stake is, or if what the validator lacks is and
the rest is enough to be left. -/
theorem stakeTarget_le_iff {s : State} {share active delta limit : ℕ}
    (hmin : 0 < s.stakeSystem.minStake) :
    stakeTarget s share active delta ≤ limit ↔ delta ≤ limit ∨
      share - active ≤ limit ∧ s.stakeSystem.minStake ≤ delta - (share - active) := by
  constructor
  · intro hle
    by_cases hrest : delta - min (share - active) delta < s.stakeSystem.minStake
    · rw [stakeTarget, if_pos hrest] at hle
      exact .inl hle
    · rw [stakeTarget, if_neg hrest] at hle
      have hlacks : share - active < delta := by omega
      rw [min_eq_left hlacks.le] at hle hrest
      exact .inr ⟨hle, Nat.not_lt.mp hrest⟩
  · rintro (hle | ⟨hle, hrest⟩)
    · exact stakeTarget_le.trans hle
    · have hlacks : share - active < delta := by omega
      rw [stakeTarget, min_eq_left hlacks.le, if_neg (Nat.not_lt.mpr hrest)]
      exact hle

theorem stakeTo_eq {c : Chain} {s : State} {delta : ℕ}
    (hwindow : inStakeDeltaWindow rt c.clock s = .ok ())
    (hshare : s.validatorSystem.validatorStakeTarget v
      (min (s.validatorSystem.totalActiveBalance + delta) u64Max) = .ok share)
    (hbelow : v.activeBalance < share) (hamount : x = stakeTarget s share v.activeBalance delta)
    (hmin : s.stakeSystem.minStake ≤ x) :
    stakeTo rt accounts j v delta c s = stake rt accounts j v x c s := by
  rw [stakeTo, bind_of_ok hwindow, bind_of_ok hshare, if_neg (Nat.not_le.mpr hbelow)]
  simp only
  rw [← hamount, if_neg (Nat.not_lt.mpr hmin)]

/-- What is left of the call is the transfer and what comes after it. -/
theorem Decided.process_eq (h : Decided rt accounts j w v share x) :
    ∃ c s, accounts.process rt j w = stake rt accounts j v x c s ∧
      c.lamportsOf .reserve = w.lamportsOf .reserve ∧
      s.availableReserveBalance = w.state.availableReserveBalance := by
  obtain ⟨c, hc⟩ := h.created
  obtain ⟨-, -, hclock, hreserve⟩ := SystemProgram.initStakeAccount_rest hc
  have hpos : 0 < w.state.stakeDelta (w.lamportsOf .reserve) := by
    have := h.delta_pos
    rw [totalStakeDelta] at this
    omega
  have hamount : stakeDeltaAmount (w.state.stakeDelta (w.lamportsOf .reserve))
      = .ok (totalStakeDelta w) := by
    have heq : (w.state.stakeDelta (w.lamportsOf .reserve)).natAbs = totalStakeDelta w := by
      rw [totalStakeDelta]
      omega
    rw [stakeDeltaAmount, heq, if_pos h.delta_le]
  have hwindow := h.in_window
  rw [← hclock] at hwindow
  rw [process, bind_of_ok hc, bind_of_ok (a := ()) (ensure_eq_ok.mpr (by simp [h.not_paused])),
    bind_of_ok (a := ()) (ensure_eq_ok.mpr (by rw [h.done]; rfl)), hreserve, bind_of_ok hamount,
    if_neg (Int.not_le.mpr hpos), bind_of_ok h.validator, hclock]
  split
  · rw [if_neg (h.run_left ‹_›)]
    exact ⟨c, _, stakeTo_eq hwindow h.share_eq h.below h.amount_eq h.min_le, hreserve, rfl⟩
  · exact ⟨c, _, stakeTo_eq hwindow h.share_eq h.below h.amount_eq h.min_le, hreserve, rfl⟩

/-- Whatever is staked was decided on. -/
theorem decided_of_process {w' : World} (h : accounts.process rt j w = .ok (w', ⟨some x⟩)) :
    ∃ v share, Decided rt accounts j w v share x := by
  have hreturned : ∀ {c s}, accounts.returnUnusedStakeAccountRent c s ≠ .ok (w', ⟨some x⟩) := by
    intro c s hr
    simp only [returnUnusedStakeAccountRent, bind_eq_ok, pure_eq_ok] at hr
    obtain ⟨_, -, hw⟩ := hr
    cases hw
  simp only [process, bind_eq_ok, ensure_eq_ok, exists_const] at h
  obtain ⟨c, hc, hpaused, hdone, delta, hdelta, h⟩ := h
  obtain ⟨-, -, hclock, hreserve⟩ := SystemProgram.initStakeAccount_rest hc
  rw [hreserve] at h hdelta
  split at h
  · exact absurd h hreturned
  · rename_i hpos
    obtain ⟨hle, rfl⟩ : totalStakeDelta w ≤ u64Max ∧ delta = totalStakeDelta w := by
      rw [stakeDeltaAmount] at hdelta
      rw [totalStakeDelta]
      split at hdelta
      · have := Except.ok.inj hdelta
        omega
      · cases hdelta
    obtain ⟨v, hv, h⟩ := bind_eq_ok.mp h
    rw [hclock] at h
    obtain ⟨runs, hrun, h⟩ : ∃ runs,
        (v.lastStakeDeltaEpoch = w.clock.epoch → w.state.stakeSystem.extraStakeDeltaRuns ≠ 0) ∧
        stakeTo rt accounts j v (totalStakeDelta w) c { w.state with
          stakeSystem := { w.state.stakeSystem with extraStakeDeltaRuns := runs } }
          = .ok (w', ⟨some x⟩) := by
      split at h
      · split at h
        · exact absurd h hreturned
        · exact ⟨_, fun _ ↦ ‹_›, h⟩
      · exact ⟨w.state.stakeSystem.extraStakeDeltaRuns, fun heq ↦ absurd heq ‹_›, h⟩
    simp only [stakeTo, bind_eq_ok] at h
    obtain ⟨_, hwindow, share, hshare, h⟩ := h
    rw [hclock] at hwindow
    split at h
    · exact absurd h hreturned
    · split at h
      · exact absurd h hreturned
      · rename_i hbelow hmin
        have hamount : x = stakeTarget w.state share v.activeBalance (totalStakeDelta w) := by
          simp only [stake, bind_eq_ok, pure_eq_ok] at h
          obtain ⟨_, -, _, -, _, -, _, -, _, -, _, -, _, -, _, -, hw⟩ := h
          cases hw
          rfl
        refine ⟨v, share, ⟨⟨c, hc⟩, by simpa using hpaused,
          DelinquentUpgraderState.eq_done_of_isDone hdone, ?_, hle, hv, hrun, hwindow, hshare,
          Nat.lt_of_not_le hbelow, hamount, ?_⟩⟩
        · rw [totalStakeDelta]
          omega
        · rw [hamount]
          exact Nat.le_of_not_lt hmin

end StakeReserve

/-- What is about to be staked is in the reserve and in the books, so that nothing fails, if and
only if the books cover it. -/
theorem stakeReserve_covers_iff {accounts : StakeReserve} {v : ValidatorRecord} {share : ℕ}
    (h : (marinade rt).Reachable w) (hd : StakeReserve.Decided rt accounts j w v share x) :
    ∃ c s, accounts.process rt j w = StakeReserve.stake rt accounts j v x c s ∧
      c.lamportsOf .reserve = w.lamportsOf .reserve ∧
      s.availableReserveBalance = w.state.availableReserveBalance ∧
      ((x ≤ w.lamportsOf .reserve - w.state.rentExemptForTokenAcc ∧
        x ≤ w.state.availableReserveBalance ∧
        (∃ c', SystemProgram.transfer c .reserve accounts.stakeAccount x = .ok c') ∧
        ∃ s', s.onTransferFromReserve x = .ok s') ↔ StakeReserve.Covers w v share) := by
  obtain ⟨c, s, hprocess, hc, hs⟩ := hd.process_eq
  have hmin : 0 < w.state.stakeSystem.minStake := (wellFormed_of_reachable h).minStake_pos
  have hreserve := (bounds_of_reachable h).reserve_le
  have hdelta := StakeReserve.totalStakeDelta_eq hd.delta_pos
  have hcovers : StakeReserve.Covers w v share ↔ x ≤ w.state.availableReserveBalance := by
    rw [hd.amount_eq, StakeReserve.stakeTarget_le_iff hmin, StakeReserve.Covers]
    refine or_congr_left ?_
    omega
  refine ⟨c, s, hprocess, hc, hs, ?_⟩
  rw [hcovers]
  constructor
  · rintro ⟨-, havailable, -⟩
    exact havailable
  · intro havailable
    have hpaid : x ≤ c.lamports.balance .reserve := by
      change x ≤ c.lamportsOf .reserve
      omega
    obtain ⟨ledger, hl⟩ := exists_transfer accounts.stakeAccount hpaid
    exact ⟨by omega, havailable, ⟨_, SystemProgram.transfer_eq_ok.mpr ⟨ledger, hl, rfl⟩⟩, _,
      State.onTransferFromReserve_eq_ok.mpr ⟨havailable.trans hs.ge, rfl⟩⟩

end

/-! ## A gift to the reserve -/

namespace Sample

/-- The user sells to the reserve for a ticket, and two epochs pass. -/
def waiting : List Action := [
  .run (.deposit ⟨user, msolAccount⟩ 40000000),
  .run (.orderUnstake ⟨msolAccount, user, .external 40⟩ 7000000),
  .tick (startOf 3)]

def waited : List Label × World :=
  (replay runtime (fun _ _ ↦ true) fresh waiting).get (by decide +kernel)

theorem waited_reachable : (marinade runtime).Reachable waited.2 :=
  (run_of_replay (Option.some_get _).symm).reachable fresh_fresh

/-- All lamports of the pool are staked, and a ticket is ordered that has to wait for them. -/
def ticketing : List Action := staking ++ [
  .run (.orderUnstake ⟨treasury, user, .external 40⟩ 7000000),
  .tick (startOf 4)]

def ticketed : List Label × World :=
  (replay runtime (fun _ _ ↦ true) fresh ticketing).get (by decide +kernel)

theorem ticketed_reachable : (marinade runtime).Reachable ticketed.2 :=
  (run_of_replay (Option.some_get _).symm).reachable fresh_fresh

/-- The user sends lamports to the reserve. -/
def given : Ledger Pubkey :=
  (ticketed.2.lamports.transfer user .reserve 30000000).get (by decide +kernel)

def gifted : World :=
  { ticketed.2 with lamports := given }

theorem gifted_reachable : (marinade runtime).Reachable gifted := by
  have hstep : Step runtime ticketed.2 (.external .outside) gifted :=
    step_of_transfer (wellFormed_of_reachable ticketed_reachable) (by decide +kernel)
      (Option.some_get _).symm
  exact ticketed_reachable.step (l := .external .outside) hstep

def ticket (lamportsAmount createdEpoch : ℕ) : TicketAccountData :=
  ⟨.state, user, lamportsAmount, createdEpoch⟩

theorem waited_ticket : waited.2.tickets.lookup (.external 40) = some (ticket 7000000 1) := by
  decide +kernel

end Sample

namespace Sample

/-- The accounts to stake with. -/
def stakers : StakeReserve :=
  ⟨vote, .external 50, user⟩

def unstaked : ValidatorRecord :=
  ⟨vote, 0, 100, epochMax, 0⟩

def lastStaked : ValidatorRecord :=
  ⟨vote, 60000000, 100, 1, 0⟩

theorem supplied_decided :
    StakeReserve.Decided runtime stakers 0 supplied.2 unstaked 40000000 40000000 where
  created := ⟨_, eq_ok_get (by decide +kernel)⟩
  not_paused := by decide +kernel
  done := by decide +kernel
  delta_pos := by decide +kernel
  delta_le := by decide +kernel
  validator := ValidatorSystem.getChecked_eq_ok.mpr ⟨by decide +kernel, rfl⟩
  run_left := fun h ↦ absurd h (by decide +kernel)
  in_window := rfl
  share_eq := rfl
  below := by decide
  amount_eq := by decide +kernel
  min_le := by decide +kernel

theorem gifted_decided :
    StakeReserve.Decided runtime stakers 0 gifted lastStaked 79500000 19500000 where
  created := ⟨_, eq_ok_get (by decide +kernel)⟩
  not_paused := by decide +kernel
  done := by decide +kernel
  delta_pos := by decide +kernel
  delta_le := by decide +kernel
  validator := ValidatorSystem.getChecked_eq_ok.mpr ⟨by decide +kernel, rfl⟩
  run_left := fun h ↦ absurd h (by decide +kernel)
  in_window := rfl
  share_eq := rfl
  below := by decide
  amount_eq := by decide +kernel
  min_le := by decide +kernel

end Sample

/-- What the user paid is staked. -/
theorem stakeReserve_covers_sample : ∃ c s,
    Sample.stakers.process Sample.runtime 0 Sample.supplied.2
      = StakeReserve.stake Sample.runtime Sample.stakers 0 Sample.unstaked 40000000 c s ∧
    c.lamportsOf .reserve = Sample.supplied.2.lamportsOf .reserve ∧
    s.availableReserveBalance = Sample.supplied.2.state.availableReserveBalance ∧
    ((40000000 ≤ Sample.supplied.2.lamportsOf .reserve
          - Sample.supplied.2.state.rentExemptForTokenAcc ∧
      40000000 ≤ Sample.supplied.2.state.availableReserveBalance ∧
      (∃ c', SystemProgram.transfer c .reserve Sample.stakers.stakeAccount 40000000 = .ok c') ∧
      ∃ s', s.onTransferFromReserve 40000000 = .ok s') ↔
        StakeReserve.Covers Sample.supplied.2 Sample.unstaked 40000000) :=
  stakeReserve_covers_iff Sample.supplied_reachable Sample.supplied_decided

/-- A gift to the reserve is to be staked, which the books do not have. -/
theorem not_staked_of_gift : ∃ w, (marinade Sample.runtime).Reachable w ∧
    ∃ accounts j v share x, StakeReserve.Decided Sample.runtime accounts j w v share x ∧
      w.state.availableReserveBalance < x :=
  ⟨_, Sample.gifted_reachable, _, _, _, _, _, Sample.gifted_decided, by decide +kernel⟩

/-- The ticket of somebody who has just bought can be paid. -/
theorem claim_sample :
    ∃ w' e, exec Sample.runtime Sample.waited.2 (.claim ⟨.external 40, Sample.user⟩)
      = .ok (w', e) :=
  (claim_iff Sample.waited_reachable (by decide +kernel) Sample.waited_ticket rfl
    (by decide +kernel) rfl (by decide +kernel)).mpr (by decide +kernel)

/-- The reserve was given enough for the ticket, and the ticket cannot be paid. -/
theorem not_claim_of_gift : ∃ w, (marinade Sample.runtime).Reachable w ∧ w.state.paused = false ∧
    ∃ accounts : Claim, ∃ ticket, w.tickets.lookup accounts.ticketAccount = some ticket ∧
      accounts.transferSolTo = ticket.beneficiary ∧
      w.isSystemAccount accounts.transferSolTo = true ∧
      Claim.checkTicketAccount ticket w.clock = .ok () ∧
      ticket.lamportsAmount ≤ w.lamportsOf .reserve - w.state.rentExemptForTokenAcc ∧
      ∀ r, exec Sample.runtime w (.claim accounts) ≠ .ok r := by
  refine ⟨_, Sample.gifted_reachable, by decide +kernel, ⟨.external 40, Sample.user⟩,
    Sample.ticket 10500000 2, by decide +kernel, rfl, by decide +kernel, rfl, by decide +kernel, ?_⟩
  intro r hr
  have hnone : (exec Sample.runtime Sample.gifted
      (.claim ⟨.external 40, Sample.user⟩)).toOption.isSome = false := by decide +kernel
  rw [hr] at hnone
  cases hnone

end Marinade
