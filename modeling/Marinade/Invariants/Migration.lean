import Marinade.Invariants.Finalizing
import Marinade.Invariants.UpgradeChecks

/-!
# From the old program to the new one

What the old program leaves behind is the start of the upgrade: no record has a status and nothing
is counted. If its totals were those of its records, the iteration over the records ends in the
state from which the iteration over the validators starts.
-/

open Foundation Foundation.Ledger

namespace Marinade

/-- What the old program left, read by the new one. -/
structure Migrated (rt : Runtime) (w : World) : Prop extends Grounded rt w where
  upgrader_eq : w.state.delinquentUpgrader = .iteratingStakes 0 0 0
  unknown : ∀ r ∈ w.state.stakeSystem.records, r.lastUpdateStatus = .unknown
  uncounted : ∀ v ∈ w.state.validatorSystem.records, v.delinquentUpgraderActiveBalance = 0

/-- The old program booked each record as cooling down or as active, and its totals are those of the
records. What is cooling down is deactivated, and only that may be flagged. -/
structure OldBooks (w : World) (cooling : Pubkey → Bool) : Prop where
  deactivated : ∀ r ∈ w.state.stakeSystem.records, cooling r.stakeAccount = true →
    w.Deactivated r.stakeAccount
  not_emergency : ∀ r ∈ w.state.stakeSystem.records, cooling r.stakeAccount = false →
    r.isEmergencyUnstaking = false
  total_eq : w.state.validatorSystem.totalActiveBalance
    = total (·.lastUpdateDelegatedLamports)
      (w.state.stakeSystem.records.filter fun r ↦ cooling r.stakeAccount = false)
  cooling_eq : ∀ emergency, w.state.coolingDown emergency
    = total (·.lastUpdateDelegatedLamports) (w.state.stakeSystem.records.filter fun r ↦
      cooling r.stakeAccount = true ∧ r.isEmergencyUnstaking = emergency)
  validators_eq : ∀ v ∈ w.state.validatorSystem.records, v.activeBalance
    = total (·.lastUpdateDelegatedLamports) (w.state.stakeSystem.records.filter fun r ↦
      cooling r.stakeAccount = false ∧ w.voterOf r.stakeAccount = some v.validatorAccount)

/-- The iteration over the validators is about to start: what was counted for each is what its
active records hold, and the validators exceed it by `left` together. -/
structure Entered (rt : Runtime) (w : World) (left : ℕ) : Prop extends Grounded rt w where
  upgrader_eq : w.state.delinquentUpgrader = .iteratingValidators 0 left
  known : ∀ r ∈ w.state.stakeSystem.records, r.lastUpdateStatus ≠ .unknown
  counted_eq : ∀ v ∈ w.state.validatorSystem.records, v.delinquentUpgraderActiveBalance
    = total (·.lastUpdateDelegatedLamports) (w.state.stakeSystem.records.filter fun r ↦
      r.lastUpdateStatus = .active ∧ w.voterOf r.stakeAccount = some v.validatorAccount)
  counted_le : ∀ v ∈ w.state.validatorSystem.records,
    v.delinquentUpgraderActiveBalance ≤ v.activeBalance
  left_eq : total (fun v ↦ v.activeBalance - v.delinquentUpgraderActiveBalance)
    w.state.validatorSystem.records = left

section

variable {rt : Runtime} {c : Chain} {w w' : World} {l : Label} {cooling : Pubkey → Bool}
  {vote : Pubkey} {p : StakeRecord → Prop} [DecidablePred p] {r : StakeRecord}
  {records : List StakeRecord} {v : ValidatorRecord} {n t k left : ℕ}

/-! ## Sums by validator -/

/-- The sum over the records of some kind that belong to a validator. -/
theorem Chain.total_filter_voterOf (c : Chain) (vote : Pubkey) (p : StakeRecord → Prop)
    [DecidablePred p] (records : List StakeRecord) :
    total (·.lastUpdateDelegatedLamports)
        (records.filter fun r ↦ p r ∧ c.voterOf r.stakeAccount = some vote)
      = total (c.delegatedTo vote fun r ↦ if p r then r.lastUpdateDelegatedLamports else 0)
        records := by
  rw [total_filter]
  refine total_congr fun r _ ↦ ?_
  rw [delegatedTo, ← ite_and]
  exact if_congr and_comm rfl rfl

theorem Chain.total_filter_active (c : Chain) (vote : Pubkey) (records : List StakeRecord) :
    total (·.lastUpdateDelegatedLamports) (records.filter fun r ↦
        r.lastUpdateStatus = .active ∧ c.voterOf r.stakeAccount = some vote)
      = total (c.activeFor vote) records :=
  c.total_filter_voterOf vote _ records

/-- The sum over the records of a listed validator and the sum over those of other validators. -/
private theorem Registered.total_delegatedTo (h : Registered w) (g : StakeRecord → ℕ)
    (r : StakeRecord) :
    total (fun v ↦ w.delegatedTo v.validatorAccount g r) w.state.validatorSystem.records
        + (if w.voterOf r.stakeAccount
            ∈ w.state.validatorSystem.records.map (fun v ↦ some v.validatorAccount) then 0
          else g r)
      = g r := by
  by_cases hlisted : w.voterOf r.stakeAccount
      ∈ w.state.validatorSystem.records.map (fun v ↦ some v.validatorAccount)
  · obtain ⟨v, hv, hvoter⟩ := List.mem_map.mp hlisted
    have hother : ∀ u : ValidatorRecord, u.validatorAccount ≠ v.validatorAccount →
        w.delegatedTo u.validatorAccount g r = 0 := by
      intro u hu
      refine if_neg fun heq ↦ hu ?_
      rw [← hvoter, Option.some.injEq] at heq
      exact heq.symm
    rw [if_pos hlisted, h.distinct.total_eq hv hother]
    exact if_pos hvoter.symm
  · have hnone : total (fun v ↦ w.delegatedTo v.validatorAccount g r)
        w.state.validatorSystem.records = 0 := by
      refine total_eq_zero_iff.mpr fun v hv ↦ if_neg fun heq ↦ hlisted ?_
      rw [heq]
      exact List.mem_map_of_mem (f := fun v ↦ some v.validatorAccount) hv
    rw [if_neg hlisted, hnone, Nat.zero_add]

/-! ## The start -/

namespace Migrated

/-- A sum over what was visited. -/
private theorem total_eq_zero (h : Migrated rt w) {g : StakeRecord → ℕ}
    (hg : ∀ r, r.lastUpdateStatus = .unknown → g r = 0) :
    total g w.state.stakeSystem.records = 0 :=
  total_eq_zero_iff.mpr fun r hr ↦ hg r (h.unknown r hr)

theorem visits (h : Migrated rt w) : w.Visits 0 0 where
  count_eq := (h.total_eq_zero fun _ hr ↦ if_pos hr).symm
  total_eq := (h.total_eq_zero fun _ hr ↦ if_pos hr).symm
  upgrader_eq vote := by
    have hnone : total (w.delegatedTo vote UpdateActive.counted) w.state.stakeSystem.records = 0 :=
      h.total_eq_zero fun r hr ↦ by
        rw [Chain.delegatedTo, UpdateActive.counted, if_pos hr, ite_self]
    rw [hnone]
    refine total_eq_zero_iff.mpr fun v hv ↦ ?_
    rw [ValidatorRecord.upgraderOf, h.uncounted v hv, only_zero]
  sum_eq := total_eq_zero_iff.mpr h.uncounted
  status r hr := by simp [h.unknown r hr]

/-- What was booked is not visited yet. -/
private theorem total_bookedActive (h : Migrated rt w) :
    total (·.bookedActive cooling) w.state.stakeSystem.records
      = total (·.lastUpdateDelegatedLamports)
        (w.state.stakeSystem.records.filter fun r ↦ cooling r.stakeAccount = false) := by
  rw [total_filter]
  refine total_congr fun r hr ↦ if_congr ?_ rfl rfl
  simp [h.unknown r hr]

private theorem total_bookedCooling (h : Migrated rt w) (emergency : Bool) :
    total (·.bookedCooling cooling emergency) w.state.stakeSystem.records
      = total (·.lastUpdateDelegatedLamports) (w.state.stakeSystem.records.filter fun r ↦
        cooling r.stakeAccount = true ∧ r.isEmergencyUnstaking = emergency) := by
  rw [total_filter]
  refine total_congr fun r hr ↦ if_congr ?_ rfl rfl
  simp [h.unknown r hr]

private theorem total_delegatedTo (h : Migrated rt w) (vote : Pubkey) :
    total (w.delegatedTo vote (·.bookedActive cooling)) w.state.stakeSystem.records
      = total (·.lastUpdateDelegatedLamports) (w.state.stakeSystem.records.filter fun r ↦
        cooling r.stakeAccount = false ∧ w.voterOf r.stakeAccount = some vote) := by
  rw [w.total_filter_voterOf]
  refine total_congr fun r hr ↦ if_congr Iff.rfl (if_congr ?_ rfl rfl) rfl
  simp [h.unknown r hr]

theorem attributed (h : Migrated rt w) (hb : OldBooks w cooling) : w.Attributed cooling where
  deactivated r hr _ hc := hb.deactivated r hr hc
  visited r hr hknown := absurd (h.unknown r hr) hknown
  emergency r hr hem := by
    refine ⟨h.unknown r hr, ?_⟩
    by_contra hc
    rw [Bool.not_eq_true] at hc
    rw [hb.not_emergency r hr hc] at hem
    cases hem
  emergency_eq := (hb.cooling_eq true).trans (h.total_bookedCooling true).symm
  sum_eq := by
    have hdelayed : w.state.stakeSystem.delayedUnstakeCoolingDown = _ := hb.cooling_eq false
    rw [hb.total_eq, hdelayed, ← h.total_bookedActive, ← h.total_bookedCooling,
      ← h.visits.total_eq, Nat.zero_add]
  delayed_le := by
    have hdelayed : w.state.stakeSystem.delayedUnstakeCoolingDown = _ := hb.cooling_eq false
    rw [hdelayed, ← h.total_bookedCooling]
  upgrader_le vote hvote := by
    obtain ⟨v, hv, rfl⟩ := List.mem_map.mp hvote
    have hup := h.registered.total_only_eq hv (·.delinquentUpgraderActiveBalance)
    have hbalance := h.registered.total_only_eq hv (·.activeBalance)
    have hzero := h.uncounted v hv
    have hbooked := hb.validators_eq v hv
    rw [← h.total_delegatedTo] at hbooked
    simp only [ValidatorRecord.upgraderOf, ValidatorRecord.balanceOf]
    omega
  conserved := by
    -- each record is one of a listed validator or one of another
    have hrows : total (·.activeBalance) w.state.validatorSystem.records
        = total (fun r ↦ total (fun v ↦ w.delegatedTo v.validatorAccount
            (·.bookedActive cooling) r) w.state.validatorSystem.records)
          w.state.stakeSystem.records := by
      rw [← total_comm]
      refine total_congr fun v hv ↦ ?_
      rw [hb.validators_eq v hv, h.total_delegatedTo]
    rw [hrows, ← total_add, hb.total_eq, ← h.total_bookedActive, h.upgrader_eq]
    exact total_congr fun r _ ↦ h.registered.total_delegatedTo _ r

theorem consistent (h : Migrated rt w) (hb : OldBooks w cooling) :
    w.Consistent rt cooling 0 0 0 where
  toGrounded := h.toGrounded
  upgrader_eq := h.upgrader_eq
  visits := h.visits
  attributed := h.attributed hb

end Migrated

/-! ## From one phase to the next -/

/-- What the old program booked is visited, so both amounts that are cooling down are gone. -/
private theorem World.Attributed.cooling_eq_zero (ha : w.Attributed cooling)
    (hknown : ∀ r ∈ w.state.stakeSystem.records, r.lastUpdateStatus ≠ .unknown) :
    w.state.stakeSystem.delayedUnstakeCoolingDown = 0 ∧ w.state.emergencyCoolingDown = 0 := by
  have hzero : ∀ em, total (·.bookedCooling cooling em) w.state.stakeSystem.records = 0 :=
    fun em ↦ total_eq_zero_iff.mpr fun r hr ↦ StakeRecord.bookedCooling_of_known (hknown r hr)
  have hle := ha.delayed_le
  rw [hzero, Nat.le_zero] at hle
  exact ⟨hle, ha.emergency_eq.trans (hzero true)⟩

/-- A visited record counts with what it has. -/
private theorem World.Visits.counted_eq (hv : w.Visits n t)
    (hr : r ∈ w.state.stakeSystem.records) :
    UpdateActive.counted r = r.activeAmount := by
  have hstatus := hv.status r hr
  unfold UpdateActive.counted StakeRecord.activeAmount
  cases hs : r.lastUpdateStatus with
  | unknown => rfl
  | active => rfl
  | deactivating => exact absurd hs hstatus

/-- What is counted at the end of the iteration over the records. -/
private theorem World.Attributed.entered (ha : w.Attributed cooling) (hg : Grounded rt w)
    (hv : w.Visits n t)
    (hu : w.state.delinquentUpgrader = .iteratingValidators 0 k)
    (hn : n = w.state.stakeSystem.records.length)
    (ht : t = w.state.validatorSystem.totalActiveBalance) : Entered rt w k := by
  have hknown := hv.known hn
  have hcounted : ∀ v ∈ w.state.validatorSystem.records, v.delinquentUpgraderActiveBalance
      = total (w.delegatedTo v.validatorAccount UpdateActive.counted)
        w.state.stakeSystem.records := by
    intro v hmem
    rw [← hv.upgrader_eq]
    exact (hg.registered.total_only_eq hmem _).symm
  have hle : ∀ v ∈ w.state.validatorSystem.records,
      v.delinquentUpgraderActiveBalance ≤ v.activeBalance := by
    intro v hmem
    have hvote := ha.upgrader_le _ (List.mem_map_of_mem hmem)
    have hup := hg.registered.total_only_eq hmem (·.delinquentUpgraderActiveBalance)
    have hbalance := hg.registered.total_only_eq hmem (·.activeBalance)
    simp only [ValidatorRecord.upgraderOf, ValidatorRecord.balanceOf] at hvote
    omega
  refine ⟨hg, hu, hknown, fun v hmem ↦ ?_, hle, ?_⟩
  · rw [w.total_filter_active, hcounted v hmem]
    exact total_congr fun r hmem ↦ if_congr Iff.rfl (hv.counted_eq hmem) rfl
  · have hsub : _ + total (fun v : ValidatorRecord ↦ v.delinquentUpgraderActiveBalance) _
        = total (fun v : ValidatorRecord ↦ v.activeBalance) _ := total_sub_add hle
    have hconserved := ha.conserved
    have hsum := hv.sum_eq
    have hunlisted : total (w.unlistedActive cooling) w.state.stakeSystem.records = 0 :=
      total_eq_zero_iff.mpr fun r hmem ↦ by
        rw [World.unlistedActive, StakeRecord.bookedActive_of_known (hknown r hmem), ite_self]
    rw [hu] at hconserved
    simp only [DelinquentUpgraderState.delinquentBalance] at hconserved
    omega

/-- The iteration over the records goes on, or it is complete: nothing is cooling down, the total is
that of the records, and the iteration over the validators can start. -/
theorem World.Consistent.step (h : w.Consistent rt cooling n t k)
    (hl : w.sparesVisitedAccounts l = true) (hstep : Step rt w l w') :
    (∃ n' t' k', w'.Consistent rt cooling n' t' k') ∨
    ∃ left, Entered rt w' left ∧
      (∀ r ∈ w'.state.stakeSystem.records, r.lastUpdateStatus = .active) ∧
      w'.state.stakeSystem.delayedUnstakeCoolingDown = 0 ∧ w'.state.emergencyCoolingDown = 0 ∧
      w'.state.validatorSystem.totalActiveBalance
        = total (·.lastUpdateDelegatedLamports) w'.state.stakeSystem.records := by
  have hg := h.toGrounded.step hstep
  have ha := h.attributed.step h.toGrounded h.upgrader_eq hl hstep
  obtain ⟨n', t', k', hv, hcounts⟩ := h.visits.step h.toGrounded h.upgrader_eq
    (h.attributed.sparesVisited h.wellFormed hstep) hstep
  rcases hcounts with hu | ⟨hu, hn, ht⟩
  · exact .inl ⟨n', t', k', hg, hu, hv, ha⟩
  · obtain ⟨hdelayed, hemergency⟩ := ha.cooling_eq_zero (hv.known hn)
    refine .inr ⟨k', ha.entered hg hv hu hn ht, fun r hmem ↦ ?_, hdelayed, hemergency, ?_⟩
    · have hknown := hv.known hn r hmem
      have hstatus := hv.status r hmem
      cases hs : r.lastUpdateStatus with
      | unknown => exact absurd hs hknown
      | active => rfl
      | deactivating => exact absurd hs hstatus
    · rw [← ht, hv.total_eq]
      exact total_congr fun r hmem ↦ if_neg (hv.known hn r hmem)

/-- Where the iteration over the validators starts. -/
theorem Entered.finalizing (h : Entered rt w left) :
    Finalizing w.activeOf w.state.validatorSystem.records 0 left where
  count_le := Nat.zero_le _
  settled _ _ _ hj := absurd hj (Nat.not_lt_zero _)
  pending j v hv _ := by
    have hmem := List.mem_of_getElem? hv
    refine ⟨?_, h.counted_le v hmem⟩
    rw [h.counted_eq v hmem]
    exact w.total_filter_active _ _
  left_eq := by
    rw [List.drop_zero]
    exact h.left_eq

/-! ## A pool before its upgrade -/

private def AccountList.mapItems {α : Type} (list : AccountList α) (f : α → α) : AccountList α :=
  { list with
    items := list.items.map f
    fits := by rw [List.length_map]; exact list.fits }

/-- The same pool as the old program would have left it. -/
def World.beforeUpgrade (w : World) : World :=
  { w with state := { w.state with
      stakeSystem := { w.state.stakeSystem with
        stakeList := w.state.stakeSystem.stakeList.mapItems fun r ↦
          { r with lastUpdateStatus := .unknown } }
      validatorSystem := { w.state.validatorSystem with
        validatorList := w.state.validatorSystem.validatorList.mapItems fun v ↦
          { v with delinquentUpgraderActiveBalance := 0 } }
      delinquentUpgrader := .iteratingStakes 0 0 0 } }

/-- The accounts that the program deactivated. -/
def World.wasCooling (w : World) (k : Pubkey) : Bool :=
  w.state.stakeSystem.records.any fun r ↦
    r.stakeAccount = k ∧ r.lastUpdateStatus = .deactivating

/-- Once the upgrade is done, only that matters. -/
theorem Booked.beforeUpgrade (hb : Booked w) (hw : WellFormed rt w) (hg : Registered w) :
    Migrated rt w.beforeUpgrade where
  wellFormed := ⟨hw.stakes_sound, hw.ticket_place, hw.capital_le, hw.rent_eq,
    { hw.admissible with }⟩
  recorded := by
    refine ⟨fun r hr ↦ ?_, ?_⟩
    · obtain ⟨r, hmem, rfl⟩ := List.mem_map.mp hr
      obtain ⟨hmanaged, account, d, ha, hd, -⟩ := hb.listed r hmem
      exact ⟨hmanaged, account, d, ha, hd, nofun⟩
    · change List.Nodup (List.map _ (List.map _ _))
      rw [List.map_map]
      exact hb.distinct
  registered := by
    refine ⟨?_, fun v hv ↦ ?_⟩
    · change List.Nodup (List.map _ (List.map _ _))
      rw [List.map_map]
      exact hg.distinct
    · obtain ⟨v, hmem, rfl⟩ := List.mem_map.mp hv
      exact hg.flagged v hmem
  upgrader_eq := rfl
  unknown r hr := by
    obtain ⟨_, -, rfl⟩ := List.mem_map.mp hr
    rfl
  uncounted v hv := by
    obtain ⟨_, -, rfl⟩ := List.mem_map.mp hv
    rfl

/-- A listed account is one that the program deactivated, or one that is booked as active. -/
private theorem Booked.wasCooling_iff (hb : Booked w) (hr : r ∈ w.state.stakeSystem.records) :
    (w.wasCooling r.stakeAccount = true ↔ r.lastUpdateStatus = .deactivating) ∧
    (w.wasCooling r.stakeAccount = false ↔ r.lastUpdateStatus = .active) := by
  have hiff : w.wasCooling r.stakeAccount = true ↔ r.lastUpdateStatus = .deactivating := by
    rw [World.wasCooling, List.any_eq_true]
    constructor
    · rintro ⟨r', hr', h⟩
      obtain ⟨hkey, hstatus⟩ := of_decide_eq_true h
      rwa [hb.distinct.eq_of_key_eq hr hr' hkey.symm]
    · exact fun hstatus ↦ ⟨r, hr, decide_eq_true ⟨rfl, hstatus⟩⟩
  refine ⟨hiff, ?_⟩
  rw [← Bool.not_eq_true, hiff]
  have hknown := (hb.tracked r hr).known
  cases hs : r.lastUpdateStatus <;> simp_all

theorem Booked.oldBooks (hb : Booked w) (hg : Registered w) :
    OldBooks w.beforeUpgrade w.wasCooling where
  deactivated r hr hc := by
    obtain ⟨r, hmem, rfl⟩ := List.mem_map.mp hr
    obtain ⟨-, account, d, ha, hd, hne⟩ := hb.listed r hmem
    exact ⟨account, d, ha, hd, hne ((hb.wasCooling_iff hmem).1.mp hc)⟩
  not_emergency r hr hc := by
    obtain ⟨r, hmem, rfl⟩ := List.mem_map.mp hr
    have hactive := (hb.wasCooling_iff hmem).2.mp hc
    by_contra hem
    rw [Bool.not_eq_false] at hem
    rw [(hb.tracked r hmem).emergency hem] at hactive
    cases hactive
  total_eq := by
    rw [total_filter]
    refine (hb.total_eq.trans ?_).trans (total_map ..).symm
    exact total_congr fun r hmem ↦ if_congr (hb.wasCooling_iff hmem).2.symm rfl rfl
  cooling_eq em := by
    rw [total_filter]
    refine ((hb.cooling_eq em).trans ?_).trans (total_map ..).symm
    exact total_congr fun r hmem ↦
      if_congr (and_congr_left' (hb.wasCooling_iff hmem).1.symm) rfl rfl
  validators_eq v hv := by
    obtain ⟨v, hmem, rfl⟩ := List.mem_map.mp hv
    rw [total_filter]
    refine ((hb.activeBalance_eq hg hmem).trans ?_).trans (total_map ..).symm
    refine total_congr fun r hmem ↦ ?_
    rw [Chain.activeFor, StakeRecord.activeAmount, ← ite_and]
    exact if_congr (and_comm.trans (and_congr_left' (hb.wasCooling_iff hmem).2.symm)) rfl rfl

end

end Marinade
