import Marinade.Invariants.Capital
import Marinade.Invariants.NoFailure
import Marinade.Replay

/-!
# Full backing

As long as no stake is slashed, every lamport in the books is really there: in the reserve, or in a
stake account on top of its rent.
-/

open Foundation Foundation.Ledger

namespace Marinade

/-- A step that slashes a stake account. -/
def Label.isSlash : Label → Bool
  | .external (.slash ..) => true
  | _ => false

/-- The program where no stake is ever slashed. -/
def unslashed (rt : Runtime) : System World Label :=
  (marinade rt).restrict fun _ l ↦ l.isSlash = false

/-- The rent that a stake account says it holds. -/
def Chain.rentReserve (c : Chain) (k : Pubkey) : ℕ :=
  ((c.stakes k).map (·.stakeMeta.rentExemptReserve)).getD 0

/-- What is really there: the lamports of the reserve and of the stake accounts without their
rents. -/
def World.held (w : World) : ℕ :=
  w.lamportsOf .reserve - w.state.rentExemptForTokenAcc
    + total (fun r ↦ w.lamportsOf r.stakeAccount - w.rentReserve r.stakeAccount)
        w.state.stakeSystem.records

section

variable {rt : Runtime} {c : Chain} {w : World} {k : Pubkey} {r : StakeRecord} {l : Label}

theorem Label.slashed_eq_zero (h : l.isSlash = false) : l.slashed = 0 := by
  cases l with
  | instruction => rfl
  | external x =>
    cases x with
    | slash => cases h
    | _ => rfl

theorem reachable_of_unslashed (h : (unslashed rt).Reachable w) : (marinade rt).Reachable w :=
  System.Reachable.of_restrict h

theorem deficits_eq_of_unslashed (h : (unslashed rt).Reachable w) : w.deficits rt = 0 := by
  refine h.induct_of (P := fun w ↦ w.deficits rt = 0) (Q := fun w ↦ WellFormed rt w ∧ Booked w)
    (fun w hw ↦ ⟨wellFormed_of_reachable (reachable_of_unslashed hw),
      booked_of_reachable (reachable_of_unslashed hw)⟩)
    (fun _ hi _ ↦ hi.deficits_eq) fun w l w' hw _ hzero hs ↦ ?_
  have hle := hw.2.toRecorded.deficits_le hw.1 hs.1
  rw [hzero, Label.slashed_eq_zero hs.2] at hle
  exact Nat.le_zero.mp hle

theorem Chain.StakesSound.rentReserve_eq (h : c.StakesSound rt) (hk : c.Managed k) :
    c.rentReserve k = rt.stakeRent := by
  obtain ⟨account, ha, -⟩ := hk
  rw [rentReserve, ha, Option.map_some, Option.getD_some, (h k account ha).rent_eq]

/-- The accounts of the list and the reserve are different, so together they fit under everything
there is. -/
theorem Recorded.held_le (h : Recorded w) (hw : WellFormed rt w) : w.held ≤ u64Max := by
  have hall := h.lamports_le hw
  have hstakes : total (fun r ↦ w.lamportsOf r.stakeAccount - w.rentReserve r.stakeAccount)
      w.state.stakeSystem.records ≤ total (fun r ↦ w.lamportsOf r.stakeAccount)
      w.state.stakeSystem.records := total_le_total fun _ _ ↦ Nat.sub_le _ _
  unfold World.held
  omega

/-- In a run without slashing, every account of the list holds its rent and what its record says,
the reserve its rent and what is booked, so what is really there covers the lamports under control.
A merge delegates or returns exactly the rent of the source; the rest stays in the destination. -/
theorem backing_of_unslashed (h : (unslashed rt).Reachable w) :
    (∀ r ∈ w.state.stakeSystem.records, w.stakes r.stakeAccount ≠ none ∧
      w.rentReserve r.stakeAccount + r.lastUpdateDelegatedLamports
        ≤ w.lamportsOf r.stakeAccount) ∧
    w.state.availableReserveBalance + w.state.rentExemptForTokenAcc ≤ w.lamportsOf .reserve ∧
    (∃ total, w.state.totalLamportsUnderControl = .ok total ∧ total ≤ w.held) ∧
    ∀ accounts i i' j w' e,
      exec rt w (.mergeStakes accounts i i' j) = .ok (w', .mergeStakes e) →
      e.extraDelegated + e.returnedStakeRent = w.rentReserve accounts.sourceStake ∧
      w.lamportsOf accounts.destinationStake + w.lamportsOf accounts.sourceStake
        ≤ w'.lamportsOf accounts.destinationStake + e.returnedStakeRent := by
  have hw := intact_of_reachable (reachable_of_unslashed h)
  have hsound := hw.wellFormed.stakes_sound
  have hbooked := hw.booked
  have hrecord : ∀ r ∈ w.state.stakeSystem.records,
      w.rentReserve r.stakeAccount + r.lastUpdateDelegatedLamports
        ≤ w.lamportsOf r.stakeAccount := fun r hr ↦ by
    rw [hsound.rentReserve_eq (hbooked.listed r hr).managed]
    exact rent_add_le_of_deficits (deficits_eq_of_unslashed h) hr
  have hcovered : w.state.controlled ≤ w.held := by
    have hstakes := total_le_total (f := (·.lastUpdateDelegatedLamports))
      (g := fun r ↦ w.lamportsOf r.stakeAccount - w.rentReserve r.stakeAccount)
      fun r hr ↦ Nat.le_sub_of_add_le' (hrecord r hr)
    have hreserve := hw.bounds.reserve_le
    have hcontrolled := hbooked.controlled_eq
    unfold World.held
    omega
  refine ⟨fun r hr ↦ ⟨(hbooked.listed r hr).managed.stakes_ne_none, hrecord r hr⟩,
    hw.bounds.reserve_le, ⟨_, State.totalLamportsUnderControl_eq_ok.mpr
      ⟨hcovered.trans (hbooked.toRecorded.held_le hw.wellFormed), rfl⟩, hcovered⟩, ?_⟩
  intro accounts i i' j w' e he
  obtain ⟨e', hp, heq⟩ := reporting_eq_ok he
  cases heq
  obtain ⟨_, srcAccount, _, _, _, _, _, hs, hrent⟩ :=
    MergeStakes.process_spec hp (hsound.funded _)
  have hsa := hs.source_eq
  refine ⟨by rw [hrent, Chain.rentReserve, hsa, Option.map_some, Option.getD_some], ?_⟩
  have hk := hs.lamports_eq accounts.destinationStake
  rw [only_of_ne hs.ne, only_self, only_self] at hk
  omega

/-- The sample pool with its stake, where nothing was slashed. -/
def Sample.backed : List Label × World :=
  (replay Sample.runtime (fun _ l ↦ !l.isSlash) Sample.fresh Sample.staking).get
    (by decide +kernel)

theorem Sample.backed_reachable : (unslashed runtime).Reachable backed.2 :=
  have hrun := restrict_run_of_replay (S := marinade runtime) (C := fun _ l ↦ l.isSlash = false)
    (fun _ _ h ↦ by simpa using h) rfl (Option.some_get _).symm
  hrun.reachable fresh_fresh

theorem backing_sample : ∃ total,
    Sample.backed.2.state.totalLamportsUnderControl = .ok total ∧ total ≤ Sample.backed.2.held :=
  (backing_of_unslashed Sample.backed_reachable).2.2.1

end

end Marinade
