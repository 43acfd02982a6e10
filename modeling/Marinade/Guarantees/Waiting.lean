import Marinade.Invariants.Tickets
import Marinade.Replay

/-!
# Waiting for a ticket

A ticket waits at least until the next epoch, and one epoch longer when stake has been moved in the
epoch of the order, because the stake it asks for then begins to cool down only after that. Four
instructions keep this together through a single number, the epoch of the last stake delta: it is
only ever set to the current epoch, so it stays there for as long as the epoch lasts.
-/

open Foundation

namespace Marinade

/-- A step that staked or unstaked some amount to work off the stake delta. -/
def Label.movesStake : Label → Bool
  | .instruction _ (.stakeReserve ⟨some x⟩) => decide (0 < x)
  | .instruction _ (.deactivateStake ⟨some x⟩) => decide (0 < x)
  | _ => false

/-- Stake was moved in an earlier step of the same epoch. -/
def World.MovedBefore (rt : Runtime) (w : World) : Prop :=
  ∃ v l v' ls, (marinade rt).Reachable v ∧ Step rt v l v' ∧ l.movesStake = true ∧
    (marinade rt).Run v' ls w ∧ v.clock.epoch = w.clock.epoch

/-- No stake delta of this epoch is forgotten until the epoch is over. -/
structure World.DeltaKept (E : ℕ) (w : World) : Prop where
  epoch_le : E ≤ w.clock.epoch
  delta_epoch : w.clock.epoch = E → w.state.stakeSystem.lastStakeDeltaEpoch = E

/-- Whatever ticket there is at an address was not ordered before `E`; and if there is none, `E` is
over. -/
structure World.Waited (k : Pubkey) (E : ℕ) (w : World) : Prop where
  created_le : ∀ ticket, w.OwnTicket k ticket → E ≤ ticket.createdEpoch
  passed : (∀ ticket, ¬w.OwnTicket k ticket) → E + 1 ≤ w.clock.epoch

section

variable {rt : Runtime} {w w' w₀ w₁ w₂ w₃ : World} {k : Pubkey} {i i' : Instruction} {e : Event}
  {l : Label} {ls : List Label} {E j n x : ℕ}

/-! ## The clock and the epoch of the last delta -/

private theorem Unstaked.delta_epoch_or {emergency : Bool} {account d r v epoch}
    (h : Unstaked emergency k n j w w' account d r v x epoch) :
    w'.state.stakeSystem.lastStakeDeltaEpoch = w.state.stakeSystem.lastStakeDeltaEpoch ∨
      w'.state.stakeSystem.lastStakeDeltaEpoch = w.clock.epoch := by
  rw [h.delta_epoch]
  cases emergency with
  | true => exact .inl rfl
  | false => exact .inr rfl

/-- The epoch of the last delta stays or becomes the current one. -/
theorem Executed.delta_epoch (h : Executed rt w w' i e) :
    w'.state.stakeSystem.lastStakeDeltaEpoch = w.state.stakeSystem.lastStakeDeltaEpoch ∨
      w'.state.stakeSystem.lastStakeDeltaEpoch = w.clock.epoch := by
  cases h with
  | stakeReserve h =>
    obtain ⟨_, hs⟩ := h.state_eq
    exact .inr (by rw [hs])
  | unstakedWhole h => exact h.toUnstaked.delta_epoch_or
  | unstakedSplit h => exact h.toUnstaked.delta_epoch_or
  | config _ books _ => exact .inl books.delta_epoch_eq
  | realloc _ _ _ _ h => exact .inl h.books.delta_epoch_eq
  | finalizeDelinquentUpgrade h _ =>
    obtain ⟨-, _, _, _, _, _, -, -, ⟨-, -, hs⟩ | ⟨-, hs⟩⟩ :=
      FinalizeDelinquentUpgrade.process_spec h
    · exact .inl (by rw [hs])
    · exact .inl (by rw [hs])
  | updateActive h =>
    obtain ⟨_, hs⟩ := h.state_eq
    exact .inl (by rw [hs])
  | updateDeactivated h =>
    obtain ⟨_, hs⟩ := h.state_eq
    refine .inl ?_
    rw [hs, h.booked_out.state_eq, h.detected.state_eq]
    rfl
  | notStaked h =>
    obtain ⟨_, hs⟩ := h.state_eq
    exact .inl (by rw [hs])
  | addValidator h =>
    obtain ⟨_, hs⟩ := h.state_eq
    exact .inl (by rw [hs])
  | removeValidator h =>
    obtain ⟨_, hs⟩ := h.state_eq
    exact .inl (by rw [hs])
  | setValidatorScore h =>
    obtain ⟨_, hs⟩ := h.state_eq
    exact .inl (by rw [hs])
  | _ h => exact .inl (by rw [h.state_eq])

/-! ## Moving stake -/

/-- Whatever moves stake is a stake delta of the current epoch. -/
theorem Step.delta_epoch_of_moved (hs : Step rt w l w') (hw : WellFormed rt w)
    (hl : l.movesStake = true) : w'.state.stakeSystem.lastStakeDeltaEpoch = w.clock.epoch := by
  cases l with
  | external x => cases hl
  | instruction i e =>
    have hreported := reportedBy_of_exec hs
    cases e with
    | stakeReserve event =>
      obtain ⟨accounts, j, -, hp⟩ := hreported
      rcases StakeReserve.process_spec hp with ⟨hnone, -⟩ | ⟨v, x, -, topUp, h⟩
      · obtain rfl : event = ⟨none⟩ := by rw [← hnone]
        cases hl
      · obtain ⟨_, hstate⟩ := h.state_eq
        rw [hstate]
    | deactivateStake event =>
      obtain ⟨accounts, n, j, -, hp⟩ := hreported
      rcases DeactivateStake.process_spec hp (hw.stakes_sound.funded _) with
        ⟨hnone, -⟩ | ⟨_, _, _, _, h⟩ | ⟨_, _, _, _, _, _, h⟩
      · obtain rfl : event = ⟨none⟩ := by rw [← hnone]
        cases hl
      · exact h.delta_epoch
      · exact h.delta_epoch
    | _ => cases hl

theorem World.DeltaKept.step (h : w.DeltaKept E) (hw : WellFormed rt w) (hs : Step rt w l w') :
    w'.DeltaKept E := by
  have hle := hs.epoch_le hw
  refine ⟨h.epoch_le.trans hle, ?_⟩
  intro hepoch
  have hE : w.clock.epoch = E := le_antisymm (hle.trans hepoch.le) h.epoch_le
  cases l with
  | instruction i e =>
    rcases (executed_of_exec hs hw.stakes_sound).delta_epoch with hkept | hset
    · exact hkept.trans (h.delta_epoch hE)
    · exact hset.trans hE
  | external x =>
    rw [hs.2]
    exact h.delta_epoch hE

/-- An order in an epoch in which stake was moved says so. -/
theorem World.MovedBefore.delta_epoch (h : w.MovedBefore rt) :
    w.state.stakeSystem.lastStakeDeltaEpoch = w.clock.epoch := by
  obtain ⟨v, l, v', ls, hv, hs, hl, hrun, hepoch⟩ := h
  have hw := wellFormed_of_reachable hv
  have hv' : (marinade rt).Reachable v' := hv.step hs
  have hkept : w.DeltaKept v.clock.epoch := by
    have hstart : v'.DeltaKept v.clock.epoch :=
      ⟨hs.epoch_le hw, fun _ ↦ hs.delta_epoch_of_moved hw hl⟩
    exact hrun.induct_from hv' hstart fun _ _ _ hr h hstep ↦
      h.step (wellFormed_of_reachable hr) hstep
  rw [← hepoch]
  exact hkept.delta_epoch hepoch.symm

/-! ## The epoch of a ticket -/

theorem OrderUnstake.Spec.waited {accounts o} (h : OrderUnstake.Spec rt accounts x w w' o)
    (hclock : w'.clock = w.clock) (hw : w.Waited k E) : w'.Waited k E := by
  have hlookup : ∀ t, w'.OwnTicket k t ↔ k = o.ticket ∧
      t = ⟨.state, o.beneficiary, o.solAmount, o.ticketEpoch⟩ ∨ k ≠ o.ticket ∧ w.OwnTicket k t := by
    intro t
    rw [Chain.OwnTicket, h.tickets_eq]
    by_cases hk : k = o.ticket
    · rw [hk, AList.lookup_insert]
      constructor
      · rintro ⟨heq, -⟩
        exact .inl ⟨rfl, (Option.some.inj heq).symm⟩
      · rintro (⟨-, rfl⟩ | ⟨hne, -⟩)
        · exact ⟨rfl, rfl⟩
        · exact absurd rfl hne
    · rw [AList.lookup_insert_ne hk]
      exact ⟨fun ht ↦ .inr ⟨hk, ht⟩, fun ht ↦ ht.elim (fun hl ↦ absurd hl.1 hk) And.right⟩
  have hnone : ∀ t, ¬w.OwnTicket o.ticket t := by
    rintro t ⟨ht, -⟩
    have hsystem := (Bool.and_eq_true_iff.mp h.unused).2
    simp only [Chain.isSystemAccount, decide_eq_true_eq] at hsystem
    rw [h.ticket_eq, hsystem.2.2.2.2.2.2] at ht
    cases ht
  constructor
  · intro t ht
    rcases (hlookup t).mp ht with ⟨rfl, rfl⟩ | ⟨-, ht⟩
    · have hpassed := hw.passed hnone
      have hepoch : w.clock.epoch ≤ o.ticketEpoch := by
        rw [h.epoch_eq]
        exact Nat.le_add_right _ _
      simp only
      omega
    · exact hw.created_le t ht
  · intro hall
    rw [hclock]
    refine hw.passed fun t ht ↦ ?_
    by_cases hk : k = o.ticket
    · exact hall _ ((hlookup _).mpr (.inl ⟨hk, rfl⟩))
    · exact hall t ((hlookup t).mpr (.inr ⟨hk, ht⟩))

theorem Claim.Spec.waited {accounts o rent} (h : Claim.Spec accounts w w' o rent)
    (hdue : ∀ ticket, w.OwnTicket o.ticket ticket → ticket.createdEpoch + 1 ≤ w.clock.epoch)
    (hclock : w'.clock = w.clock) (hw : w.Waited k E) : w'.Waited k E := by
  by_cases hk : k = o.ticket
  · subst hk
    obtain ⟨epoch, hown⟩ := h.own_ticket
    constructor
    · rintro t ⟨ht, -⟩
      rw [h.tickets_eq, AList.lookup_erase] at ht
      cases ht
    · intro _
      rw [hclock]
      exact (Nat.add_le_add_right (hw.created_le _ hown) 1).trans (hdue _ hown)
  · have hown : ∀ t, w'.OwnTicket k t ↔ w.OwnTicket k t := by
      intro t
      rw [Chain.OwnTicket, h.tickets_eq, AList.lookup_erase_ne hk, Chain.OwnTicket]
    exact ⟨fun t ht ↦ hw.created_le t ((hown t).mp ht), fun hall ↦ by
      rw [hclock]
      exact hw.passed fun t ht ↦ hall t ((hown t).mpr ht)⟩

/-- A ticket that is claimed is due. -/
theorem Claim.Spec.due_of_claimed {accounts : Claim} {o : ClaimEvent} {rent : ℕ}
    (h : Spec accounts w w' o rent) : ∃ ticket, w.OwnTicket o.ticket ticket ∧
      ticket.createdEpoch + 1 ≤ w.clock.epoch ∧
      (w.clock.epoch = ticket.createdEpoch + 1 →
        1800 ≤ w.clock.unixTimestamp - w.clock.epochStartTimestamp) := by
  obtain ⟨epoch, hlookup⟩ := h.ticket
  obtain ⟨hdue, hextra⟩ := checkTicketAccount_due (h.due _ hlookup)
  exact ⟨_, ⟨hlookup, rfl⟩, hdue, fun heq ↦ hextra heq.symm⟩

theorem World.Waited.step (h : w.Waited k E) (hw : WellFormed rt w) (hs : Step rt w l w') :
    w'.Waited k E := by
  have hle := hs.epoch_le hw
  have of_iff (hown : ∀ t, w'.OwnTicket k t ↔ w.OwnTicket k t) : w'.Waited k E :=
    ⟨fun t ht ↦ h.created_le t ((hown t).mp ht),
      fun hall ↦ (h.passed fun t ht ↦ hall t ((hown t).mpr ht)).trans hle⟩
  cases l with
  | instruction i e =>
    have hx := executed_of_exec hs hw.stakes_sound
    rcases hx.tickets_eq with ⟨accounts, x, rfl⟩ | ⟨accounts, rfl⟩ | ⟨htickets, -⟩
    · obtain ⟨o, hp, -⟩ := reporting_eq_ok hs
      exact (OrderUnstake.process_spec hp).waited hx.clock_eq h
    · obtain ⟨o, hp, -⟩ := reporting_eq_ok hs
      obtain ⟨rent, hspec⟩ := Claim.process_spec hp
      obtain ⟨ticket, hown, hdue, -⟩ := hspec.due_of_claimed
      refine hspec.waited ?_ hx.clock_eq h
      intro ticket' hown'
      rwa [← Option.some.inj (hown.1.symm.trans hown'.1)]
    · exact of_iff fun t ↦ by rw [Chain.OwnTicket, htickets, Chain.OwnTicket]
  | external x => exact of_iff fun t ↦ External.ownTicket_iff hs.1

/-- The order itself: its ticket bears the current epoch, or the next if stake was moved. -/
theorem World.Waited.ordered {o : OrderUnstakeEvent}
    (hs : Step rt w (.instruction i (.orderUnstake o)) w') :
    w'.Waited o.ticket (w.clock.epoch
      + if w.clock.epoch = w.state.stakeSystem.lastStakeDeltaEpoch then 1 else 0) := by
  obtain ⟨accounts, x, -, hp⟩ := reportedBy_of_exec hs
  have h := OrderUnstake.process_spec hp
  have hticket : w'.tickets.lookup o.ticket
      = some ⟨.state, o.beneficiary, o.solAmount, o.ticketEpoch⟩ := by
    rw [h.tickets_eq, AList.lookup_insert]
  constructor
  · rintro t ⟨ht, -⟩
    rw [hticket, Option.some.injEq] at ht
    rw [← ht, ← h.epoch_eq]
  · intro hall
    exact absurd ⟨hticket, rfl⟩ (hall _)

/-- A ticket is claimed in a later epoch than it was ordered, two epochs later if stake was moved
before the order, and in the first epoch in which it is due only when half an hour has passed. -/
theorem claim_waits {o : OrderUnstakeEvent} {p : ClaimEvent} (h : (marinade rt).Reachable w₀)
    (horder : Step rt w₀ (.instruction i (.orderUnstake o)) w₁)
    (hrun : (marinade rt).Run w₁ ls w₂)
    (hclaim : Step rt w₂ (.instruction i' (.claim p)) w₃) (hticket : p.ticket = o.ticket) :
    w₀.clock.epoch + 1 ≤ w₂.clock.epoch ∧
    (w₀.MovedBefore rt → w₀.clock.epoch + 2 ≤ w₂.clock.epoch) ∧
    ∃ ticket, w₂.OwnTicket o.ticket ticket ∧
      (w₂.clock.epoch = ticket.createdEpoch + 1 →
        1800 ≤ w₂.clock.unixTimestamp - w₂.clock.epochStartTimestamp) := by
  have h₁ : (marinade rt).Reachable w₁ := h.step (l := .instruction i (.orderUnstake o)) horder
  have hwaited := hrun.induct_from h₁ (World.Waited.ordered horder) fun _ _ _ hr hw hs ↦
    hw.step (wellFormed_of_reachable hr) hs
  obtain ⟨accounts, -, hp⟩ := reportedBy_of_exec hclaim
  obtain ⟨rent, hspec⟩ := Claim.process_spec hp
  obtain ⟨ticket, hown, hdue, hextra⟩ := hspec.due_of_claimed
  rw [hticket] at hown
  have hcreated := hwaited.created_le ticket hown
  refine ⟨?_, ?_, ticket, hown, hextra⟩
  · omega
  · intro hmoved
    rw [if_pos hmoved.delta_epoch.symm] at hcreated
    omega

end

namespace Sample

def moving : Instruction :=
  .stakeReserve ⟨vote, .external 30, user⟩ 0

theorem moving_isSome : (exec runtime supplied.2 moving).toOption.isSome = true := by
  decide +kernel

/-- After that the user buys more. -/
def moved : List Label × World :=
  (replay runtime (fun _ _ ↦ true) ((exec runtime supplied.2 moving).toOption.get moving_isSome).1
    [.run (.deposit ⟨user, msolAccount⟩ 40000000)]).get (by decide +kernel)

theorem moved_movedBefore : moved.2.MovedBefore runtime :=
  ⟨_, _, _, _, supplied_reachable,
    step_of_isSome moving_isSome (e := .stakeReserve ⟨some 40000000⟩) (by decide +kernel),
    by decide, run_of_replay (Option.some_get _).symm, by decide +kernel⟩

theorem moved_reachable : (marinade runtime).Reachable moved.2 := by
  obtain ⟨v, l, v', ls, hv, hs, -, hrun, -⟩ := moved_movedBefore
  have hv' : (marinade runtime).Reachable v' := hv.step hs
  exact hrun.reachable_of hv'

def selling : Instruction :=
  .orderUnstake ⟨msolAccount, user, .external 40⟩ 7000000

theorem selling_isSome : (exec runtime moved.2 selling).toOption.isSome = true := by
  decide +kernel

/-- Two epochs after the order. -/
def due : List Label × World :=
  (replay runtime (fun _ _ ↦ true) ((exec runtime moved.2 selling).toOption.get selling_isSome).1
    [.tick (startOf 3)]).get (by decide +kernel)

def collecting : Instruction :=
  .claim ⟨.external 40, user⟩

theorem collecting_isSome : (exec runtime due.2 collecting).toOption.isSome = true := by
  decide +kernel

end Sample

/-- Stake was moved in epoch 1, and the ticket of the same epoch is claimed in epoch 3. -/
theorem claim_waits_sample : 1 + 1 ≤ Sample.due.2.clock.epoch ∧
    (Sample.moved.2.MovedBefore Sample.runtime → 1 + 2 ≤ Sample.due.2.clock.epoch) ∧
    ∃ ticket, Sample.due.2.OwnTicket (.external 40) ticket ∧
      (Sample.due.2.clock.epoch = ticket.createdEpoch + 1 →
        1800 ≤ Sample.due.2.clock.unixTimestamp - Sample.due.2.clock.epochStartTimestamp) :=
  claim_waits (o := ⟨2, .external 40, Sample.user, 7000000, 7000000⟩)
    (p := ⟨.external 40, Sample.user, 7000000⟩) Sample.moved_reachable
    (step_of_isSome Sample.selling_isSome (by decide +kernel))
    (run_of_replay (Option.some_get _).symm)
    (step_of_isSome Sample.collecting_isSome (by decide +kernel)) rfl

end Marinade
