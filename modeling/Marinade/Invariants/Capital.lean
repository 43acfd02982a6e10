import Marinade.Invariants.Bounds
import Marinade.Invariants.Deficits

/-!
# The books stay below everything there is

What the records lack has been slashed, and what was slashed lies where nobody gets at it. So the
records, the reserve and the slashed lamports together never exceed the lamports that exist, and the
sums over the books never leave 64 bits.
-/

open Foundation Foundation.Ledger

namespace Marinade

section

variable {rt : Runtime} {w w' : World} {i : Instruction} {e : Event} {x : External} {l : Label}

/-- No instruction gets at what was slashed. -/
theorem Executed.incinerator_le (h : Executed rt w w' i e) (hw : WellFormed rt w) :
    w.lamportsOf .incinerator ≤ w'.lamportsOf .incinerator := by
  have hpayer : ∀ {k}, w.isUnused k = true → Pubkey.incinerator ≠ k := fun hk ↦
    Chain.ne_of_not_canSign rfl hk
  have hstake : ∀ {k account}, w.stakes k = some account → Pubkey.incinerator ≠ k := fun hk ↦
    (hw.stakes_sound.ne (by simp [hk]) rfl).symm
  cases h with
  | deposit h =>
    have hk := h.lamports_eq .incinerator
    rw [only_of_ne (hpayer h.payer_unused)] at hk
    omega
  | depositStakeAccount h => rw [h.frame]
  | withdrawStakeAccount h =>
    have hk := h.lamports_eq .incinerator
    rw [only_of_ne (hpayer h.payer_unused), only_of_ne (hstake h.account_eq)] at hk
    omega
  | orderUnstake h => rw [h.frame]
  | @claim accounts _ _ h =>
    have hticket : Pubkey.incinerator ≠ accounts.ticketAccount := fun heq ↦ by
      obtain ⟨epoch, hticket⟩ := h.ticket
      have hplace := (hw.ticket_place _ _ ⟨hticket, rfl⟩).1
      rw [h.ticket_eq, ← heq] at hplace
      cases hplace
    have hk := h.lamports_eq .incinerator
    rw [only_of_ne (by decide), only_of_ne hticket] at hk
    omega
  | liquidUnstake h =>
    have hk := h.lamports_eq .incinerator
    rw [only_of_ne (by decide)] at hk
    omega
  | addLiquidity h =>
    have hk := h.lamports_eq .incinerator
    rw [only_of_ne (hpayer h.payer_unused)] at hk
    omega
  | removeLiquidity h =>
    have hk := h.lamports_eq .incinerator
    rw [only_of_ne (by decide)] at hk
    omega
  | notStaked h =>
    have hk := h.lamports_eq .incinerator
    rw [only_of_ne (hpayer h.unused)] at hk
    omega
  | stakeReserve h =>
    have hk := h.lamports_eq .incinerator
    rw [only_of_ne (hpayer h.payer_unused), only_of_ne (by decide)] at hk
    omega
  | notUnstaked h => exact h.guarded_le _ (Chain.guarded_of_not_canSign rfl)
  | unstakedWhole h => exact h.guarded_le _ (Chain.guarded_of_not_canSign rfl)
  | unstakedSplit h =>
    have hk := h.lamports_eq .incinerator
    rw [only_of_ne (hpayer h.payer_unused), only_of_ne (hstake h.account_eq)] at hk
    omega
  | mergeStakes h =>
    have hk := h.lamports_eq .incinerator
    rw [only_of_ne (hstake h.source_eq), only_of_ne (hstake h.account_eq)] at hk
    omega
  | @createCanonicalStake accounts _ _ _ _ _ _ _ _ h =>
    have hcanonical : Pubkey.incinerator ≠ accounts.canonicalStake := by
      rw [h.canonical]
      exact nofun
    have hk := h.lamports_eq .incinerator
    rw [only_of_ne hcanonical, only_of_ne (hstake h.account_eq)] at hk
    omega
  | updateActive h =>
    have hk := h.lamports_eq .incinerator
    rw [only_of_ne (hstake h.account_eq)] at hk
    omega
  | updateDeactivated h =>
    have hk := h.lamports_eq .incinerator
    rw [only_of_ne (hstake h.account_eq), only_of_ne (by decide)] at hk
    omega
  | finalizeDelinquentUpgrade _ hframe => rw [hframe]
  | addValidator h =>
    have hk := h.lamports_eq .incinerator
    rw [only_of_ne (hpayer h.payer_unused)] at hk
    omega
  | removeValidator h =>
    have hk := h.lamports_eq .incinerator
    rw [h.flag, only_of_ne (by exact nofun)] at hk
    omega
  | setValidatorScore h => rw [h.frame]
  | config _ _ hframe => rw [hframe]
  | realloc _ _ _ hlist h =>
    refine (h.lamports_le _ ?_ (hpayer h.payer_unused)).ge
    rcases hlist with rfl | rfl <;> decide

/-- What is slashed goes there, and no event takes anything away. -/
theorem External.incinerator_le (h : x.Happens rt w.toChain w'.toChain)
    (hs : w.StakesSound rt) :
    w.lamportsOf .incinerator + (Label.external x).slashed ≤ w'.lamportsOf .incinerator := by
  cases x with
  | tick =>
    obtain ⟨clock, -, -, hc⟩ := h
    rw [hc]
    exact le_rfl
  | outside => exact Outside.lamports_le h _ (.inl rfl)
  | reward k y =>
    obtain ⟨account, d, -, -, -, hc⟩ := h
    have e : (w.lamports.mint k y).balance .incinerator = _ := mint_balance_eq _
    rw [hc]
    exact le_of_le_of_eq (Nat.le_add_right _ _) e.symm
  | slash k y =>
    obtain ⟨account, d, ledger, ha, -, -, hl, -, hc⟩ := h
    have e := transfer_balance hl .incinerator
    rw [only_of_ne (hs.ne (by simp [ha]) rfl).symm, only_self] at e
    rw [hc]
    exact e.ge
  | deactivateDelinquent =>
    obtain ⟨account, d, -, -, -, hc⟩ := h
    rw [hc]
    exact le_rfl

/-- In every reachable state the records lack at most what was slashed. -/
theorem deficits_le_of_reachable (h : (marinade rt).Reachable w) :
    w.deficits rt ≤ w.lamportsOf .incinerator := by
  refine h.induct_of (P := fun w ↦ w.deficits rt ≤ w.lamportsOf .incinerator)
    (Q := fun w ↦ WellFormed rt w ∧ Booked w)
    (fun _ hr ↦ ⟨wellFormed_of_reachable hr, booked_of_reachable hr⟩)
    (fun _ hi _ ↦ hi.deficits_eq ▸ Nat.zero_le _) fun w l w' hw _ hle hs ↦ ?_
  refine (hw.2.toRecorded.deficits_le hw.1 hs).trans ((Nat.add_le_add_right hle _).trans ?_)
  cases l with
  | instruction i e =>
    exact (executed_of_exec hs hw.1.stakes_sound).incinerator_le hw.1
  | external x => exact External.incinerator_le hs.1 hw.1.stakes_sound

/-- The accounts of the list, the reserve and the slashed lamports are apart from each other. -/
theorem Recorded.lamports_le_total (h : Recorded w) (hw : WellFormed rt w) :
    w.lamportsOf .reserve + w.lamportsOf .incinerator
      + total (fun r ↦ w.lamportsOf r.stakeAccount) w.state.stakeSystem.records
        ≤ w.lamports.total := by
  have hplace : ∀ k : Pubkey, k.holdsStake = false →
      k ∉ w.state.stakeSystem.records.map (·.stakeAccount) := fun k hk hmem ↦ by
    obtain ⟨r, hr, hkey⟩ := List.mem_map.mp hmem
    exact hw.stakes_sound.ne (h.listed r hr).managed.stakes_ne_none hk hkey
  have hnodup : (Pubkey.reserve :: .incinerator
      :: w.state.stakeSystem.records.map (·.stakeAccount)).Nodup := by
    refine List.nodup_cons.mpr ⟨?_, List.nodup_cons.mpr ⟨hplace _ rfl, h.distinct⟩⟩
    rw [List.mem_cons, not_or]
    exact ⟨by decide, hplace _ rfl⟩
  have hsum := w.lamports.sum_map_balance_le_total hnodup
  rw [List.map_cons, List.sum_cons, List.map_cons, List.sum_cons, List.map_map, ← Nat.add_assoc]
    at hsum
  exact hsum

theorem Recorded.lamports_le (h : Recorded w) (hw : WellFormed rt w) :
    w.lamportsOf .reserve + w.lamportsOf .incinerator
      + total (fun r ↦ w.lamportsOf r.stakeAccount) w.state.stakeSystem.records ≤ u64Max :=
  (h.lamports_le_total hw).trans hw.capital_le

/-- What the records say and what the reserve really holds fit under everything there is. -/
theorem recorded_add_reserve_le_total (h : (marinade rt).Reachable w) :
    total (·.lastUpdateDelegatedLamports) w.state.stakeSystem.records + w.lamportsOf .reserve
      ≤ w.lamports.total := by
  have hlack : total (·.lastUpdateDelegatedLamports) w.state.stakeSystem.records
      ≤ total (fun r ↦ w.lamportsOf r.stakeAccount) w.state.stakeSystem.records
        + w.deficits rt := by
    rw [World.deficits, ← total_add]
    refine total_le_total fun r _ ↦ ?_
    unfold Chain.deficit
    omega
  have hall := (booked_of_reachable h).toRecorded.lamports_le_total (wellFormed_of_reachable h)
  have hdeficits := deficits_le_of_reachable h
  omega

theorem recorded_add_reserve_le (h : (marinade rt).Reachable w) :
    total (·.lastUpdateDelegatedLamports) w.state.stakeSystem.records + w.lamportsOf .reserve
      ≤ u64Max :=
  (recorded_add_reserve_le_total h).trans (wellFormed_of_reachable h).capital_le

/-- In every reachable state the lamports under control are a 64-bit number. -/
theorem controlled_le_of_reachable (h : (marinade rt).Reachable w) :
    w.state.controlled ≤ u64Max := by
  have hcontrolled := (booked_of_reachable h).controlled_eq
  have hreserve := (bounds_of_reachable h).reserve_le
  have hall := recorded_add_reserve_le h
  omega

theorem totalVirtualStakedLamports_of_reachable (h : (marinade rt).Reachable w) :
    w.state.totalVirtualStakedLamports = .ok w.state.virtualStaked :=
  State.totalVirtualStakedLamports_eq_ok.mpr ⟨controlled_le_of_reachable h, rfl⟩

end

end Marinade
