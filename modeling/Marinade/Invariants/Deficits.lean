import Marinade.Invariants.Booked

/-!
# What the accounts lack

The deficit of a record is what its account lacks of the rent and the recorded delegation. An
instruction never creates a deficit: what it books it has moved. Only slashing does, and not more
than it takes.
-/

open Foundation Foundation.Ledger

namespace Marinade

/-- The lamports that a step slashes. -/
def Label.slashed : Label → ℕ
  | .external (.slash _ x _) => x
  | _ => 0

/-- What all accounts of the list lack together. -/
def World.deficits (rt : Runtime) (w : World) : ℕ :=
  total (w.deficit rt) w.state.stakeSystem.records

section

variable {rt : Runtime} {c c' : Chain} {w w' : World} {k : Pubkey} {r : StakeRecord} {n : ℕ}
  {olds news rest : List StakeRecord} {x : External} {l : Label}

theorem Chain.deficit_le_of_le
    (h : c.lamportsOf r.stakeAccount ≤ c'.lamportsOf r.stakeAccount + n) :
    c'.deficit rt r ≤ c.deficit rt r + n := by
  unfold deficit
  omega

theorem Moved.deficits_le (hm : Moved rt w w' olds news rest) (h : Recorded w) :
    w'.deficits rt ≤ w.deficits rt := by
  rw [World.deficits, World.deficits, total_perm hm.replaced.perm, total_perm hm.replaced.perm',
    total_append, total_append]
  refine Nat.add_le_add hm.deficit_le
    (total_le_total fun r hr ↦ Chain.deficit_le_of_le (n := 0) ?_)
  exact hm.lamports_frame _ (h.listed r (hm.replaced.mem_of_rest hr)).managed.stakes_ne_none
    fun _ hold ↦ hm.replaced.ne_of_olds_rest h.distinct hold hr

/-- An external event takes lamports from a managed account only by slashing it. -/
theorem External.managed_le (h : x.Happens rt c c') (hk : c.Managed k) :
    c.lamportsOf k ≤ c'.lamportsOf k +
      match x with
      | .slash k' y _ => only k' y k
      | _ => 0 := by
  cases x with
  | tick =>
    obtain ⟨clock, -, -, rfl⟩ := h
    exact le_rfl
  | outside => exact Outside.lamports_le h k (.inr hk)
  | reward k' y =>
    obtain ⟨account, d, -, -, -, rfl⟩ := h
    have e : (c.lamports.mint k' y).balance k = _ := mint_balance_eq k
    exact le_of_le_of_eq (Nat.le_add_right _ _) e.symm
  | slash k' y =>
    obtain ⟨account, d, ledger, -, -, -, hl, -, rfl⟩ := h
    have e := transfer_balance hl k
    simp only [Chain.lamportsOf]
    omega
  | deactivateDelinquent =>
    obtain ⟨account, d, -, -, -, rfl⟩ := h
    exact le_rfl

theorem External.deficits_le (h : x.Happens rt w.toChain w'.toChain) (hs : w'.state = w.state)
    (hr : Recorded w) : w'.deficits rt ≤ w.deficits rt + (Label.external x).slashed := by
  have hle : ∀ r ∈ w.state.stakeSystem.records, _ := fun r hmem ↦
    External.managed_le h (hr.listed r hmem).managed
  rw [World.deficits, World.deficits, hs]
  cases x with
  | slash k y =>
    have honce : total (fun r ↦ only k y r.stakeAccount) w.state.stakeSystem.records ≤ y := by
      by_cases hk : ∃ r ∈ w.state.stakeSystem.records, r.stakeAccount = k
      · obtain ⟨r, hmem, rfl⟩ := hk
        rw [hr.distinct.total_eq hmem fun b hb ↦ only_of_ne hb _]
        exact only_le _ _ _
      · rw [total_eq_zero_iff.mpr fun r hmem ↦ only_of_ne (fun heq ↦ hk ⟨r, hmem, heq⟩) _]
        exact Nat.zero_le _
    calc total (w'.deficit rt) w.state.stakeSystem.records
      _ ≤ total (fun r ↦ w.deficit rt r + only k y r.stakeAccount) w.state.stakeSystem.records :=
          total_le_total fun r hmem ↦ Chain.deficit_le_of_le (hle r hmem)
      _ = total (w.deficit rt) w.state.stakeSystem.records + _ := total_add
      _ ≤ _ := Nat.add_le_add_left honce _
  | _ => exact total_le_total fun r hmem ↦ Chain.deficit_le_of_le (hle r hmem)

/-- A step creates no deficit but what it slashes. -/
theorem Recorded.deficits_le (h : Recorded w) (hw : WellFormed rt w) (hs : Step rt w l w') :
    w'.deficits rt ≤ w.deficits rt + l.slashed := by
  cases l with
  | instruction i e =>
    obtain ⟨_, _, _, hm⟩ := (executed_of_exec hs hw.stakes_sound).moved hw h.listed
    exact hm.deficits_le h
  | external x => exact External.deficits_le hs.1 hs.2 h

theorem Fresh.deficits_eq (h : Fresh rt w) : w.deficits rt = 0 := by
  obtain ⟨accounts, data, c, -, hp⟩ := h
  rw [World.deficits, (Initialize.process_spec hp).records_eq, total_nil]

/-- Without deficits every account holds its rent and what its record says. -/
theorem rent_add_le_of_deficits (h : w.deficits rt = 0)
    (hr : r ∈ w.state.stakeSystem.records) :
    rt.stakeRent + r.lastUpdateDelegatedLamports ≤ w.lamportsOf r.stakeAccount :=
  Nat.le_of_sub_eq_zero (total_eq_zero_iff.mp h r hr)

/-- What the records hold together is what is active, or cooling down in one of the two ways. -/
theorem Booked.controlled_eq (h : Booked w) :
    w.state.controlled = total (·.lastUpdateDelegatedLamports) w.state.stakeSystem.records
      + w.state.availableReserveBalance := by
  have hparts : total (·.lastUpdateDelegatedLamports) w.state.stakeSystem.records
      = total (·.activeAmount) w.state.stakeSystem.records
        + total (fun r ↦ r.coolingDown false + r.coolingDown true) w.state.stakeSystem.records := by
    rw [← total_add]
    refine total_congr fun r hr ↦ ?_
    have hknown := (h.tracked r hr).known
    cases hstatus : r.lastUpdateStatus <;> cases hem : r.isEmergencyUnstaking <;>
      simp_all [StakeRecord.activeAmount, StakeRecord.coolingDown]
  rw [hparts, total_add, ← h.total_eq, ← h.cooling_eq, ← h.cooling_eq]
  rfl

end

end Marinade
