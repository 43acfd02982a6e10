import Marinade.Invariants.Visits

/-!
# What removed records are charged to

The old program booked each record as active or as cooling down, and no field of the record says
which. While the records are iterated over, a removed one is charged to what is cooling down as far
as that goes and to what is active beyond it, which may be the wrong one of the two.

It cancels out. Both totals together are always what the listed records hold, and what is cooling
down is never more than what the records booked so still hold. When none of these is left, nothing
is cooling down, and the other total is right as well.
-/

open Foundation Foundation.Ledger

namespace Marinade

namespace StakeRecord

/-- What was booked as active and not visited yet; `cooling` says what was booked otherwise. -/
def bookedActive (cooling : Pubkey → Bool) (r : StakeRecord) : ℕ :=
  if r.lastUpdateStatus = .unknown ∧ cooling r.stakeAccount = false then
    r.lastUpdateDelegatedLamports
  else 0

/-- What was booked as cooling down, in an emergency or not. -/
def bookedCooling (cooling : Pubkey → Bool) (emergency : Bool) (r : StakeRecord) : ℕ :=
  if r.lastUpdateStatus = .unknown ∧ cooling r.stakeAccount = true ∧
      r.isEmergencyUnstaking = emergency then
    r.lastUpdateDelegatedLamports
  else 0

end StakeRecord

/-- The account was deactivated. -/
def Chain.Deactivated (c : Chain) (k : Pubkey) : Prop :=
  ∃ account d, c.stakes k = some account ∧ account.delegation = some d ∧
    d.deactivationEpoch ≠ epochMax

/-- What was booked as active for a validator that is not listed. -/
def World.unlistedActive (w : World) (cooling : Pubkey → Bool) (r : StakeRecord) : ℕ :=
  if w.voterOf r.stakeAccount
      ∈ w.state.validatorSystem.records.map (fun v ↦ some v.validatorAccount) then 0
  else r.bookedActive cooling

/-- The totals are those of the listed records, but what the records booked as cooling down hold may
be charged to what is active. -/
structure World.Attributed (w : World) (cooling : Pubkey → Bool) : Prop where
  deactivated : ∀ r ∈ w.state.stakeSystem.records, r.lastUpdateStatus = .unknown →
    cooling r.stakeAccount = true → w.Deactivated r.stakeAccount
  visited : ∀ r ∈ w.state.stakeSystem.records, r.lastUpdateStatus ≠ .unknown →
    ¬w.Deactivated r.stakeAccount
  emergency : ∀ r ∈ w.state.stakeSystem.records, r.isEmergencyUnstaking = true →
    r.lastUpdateStatus = .unknown ∧ cooling r.stakeAccount = true
  emergency_eq : w.state.emergencyCoolingDown
    = total (·.bookedCooling cooling true) w.state.stakeSystem.records
  sum_eq : w.state.validatorSystem.totalActiveBalance
      + w.state.stakeSystem.delayedUnstakeCoolingDown
    = total UpdateActive.counted w.state.stakeSystem.records
      + total (·.bookedActive cooling) w.state.stakeSystem.records
      + total (·.bookedCooling cooling false) w.state.stakeSystem.records
  delayed_le : w.state.stakeSystem.delayedUnstakeCoolingDown
    ≤ total (·.bookedCooling cooling false) w.state.stakeSystem.records
  upgrader_le : ∀ vote ∈ w.state.validatorSystem.records.map (·.validatorAccount),
    total (·.upgraderOf vote) w.state.validatorSystem.records
        + total (w.delegatedTo vote (·.bookedActive cooling)) w.state.stakeSystem.records
      ≤ total (·.balanceOf vote) w.state.validatorSystem.records
  conserved : total (·.activeBalance) w.state.validatorSystem.records
      + total (w.unlistedActive cooling) w.state.stakeSystem.records
    = w.state.validatorSystem.totalActiveBalance + w.state.delinquentUpgrader.delinquentBalance

/-- The step deactivates no account whose record was visited. -/
def World.sparesVisitedAccounts (w : World) : Label → Bool
  | .external (.deactivateDelinquent k) => w.state.stakeSystem.records.all fun r ↦
    r.stakeAccount = k → r.lastUpdateStatus = .unknown
  | _ => true

section

variable {rt : Runtime} {c c' : Chain} {w w' : World} {l : Label} {key vote : Pubkey}
  {cooling : Pubkey → Bool} {r : StakeRecord} {v : ValidatorRecord} {i : Instruction} {e : Event}
  {olds news rest : List StakeRecord} {em : Bool} {n t k : ℕ}

namespace StakeRecord

theorem bookedActive_of_known (h : r.lastUpdateStatus ≠ .unknown) :
    r.bookedActive cooling = 0 :=
  if_neg fun h' ↦ h h'.1

theorem bookedCooling_of_known (h : r.lastUpdateStatus ≠ .unknown) :
    r.bookedCooling cooling em = 0 :=
  if_neg fun h' ↦ h h'.1

/-- A record that is not flagged is counted or was booked as one of two things. -/
theorem counted_add_booked (cooling : Pubkey → Bool)
    (h : r.isEmergencyUnstaking = false) :
    UpdateActive.counted r + r.bookedActive cooling + r.bookedCooling cooling false
      = r.lastUpdateDelegatedLamports := by
  unfold UpdateActive.counted bookedActive bookedCooling
  by_cases hunknown : r.lastUpdateStatus = .unknown
  · cases hc : cooling r.stakeAccount <;> simp [hunknown, h]
  · simp [hunknown]

end StakeRecord

/-! ## Accounts -/

theorem Chain.deactivated_congr (h : c'.stakes key = c.stakes key) :
    c'.Deactivated key ↔ c.Deactivated key := by
  rw [Deactivated, Deactivated, h]

theorem Chain.deactivated_iff {account : StakeAccount} {d : Delegation}
    (ha : c.stakes key = some account) (hd : account.delegation = some d) :
    c.Deactivated key ↔ d.deactivationEpoch ≠ epochMax := by
  simp [Deactivated, ha, hd]

/-- What is deactivated stays so, whatever happens outside. -/
theorem External.deactivated {x : External} (h : x.Happens rt c c') (hl : c.Lists r)
    (hd : c.Deactivated r.stakeAccount) : c'.Deactivated r.stakeAccount := by
  obtain ⟨account, d, ha, hd, hne⟩ := hd
  have hlists : c.Lists { r with lastUpdateStatus := .deactivating } :=
    ⟨hl.managed, account, d, ha, hd, fun _ ↦ hne⟩
  obtain ⟨account', d', ha', hd', hne'⟩ := (External.lists h hlists).1.delegated
  exact ⟨account', d', ha', hd', hne' rfl⟩

/-- What is not deactivated only becomes so when somebody deactivates it. -/
theorem External.not_deactivated {x : External} (h : x.Happens rt c c') (hl : c.Lists r)
    (hx : x ≠ .deactivateDelinquent r.stakeAccount) (hd : ¬c.Deactivated r.stakeAccount) :
    ¬c'.Deactivated r.stakeAccount := by
  have redelegated : ∀ {account : StakeAccount} {d d' : Delegation} {k : Pubkey},
      c.stakes k = some account → account.delegation = some d →
      c'.stakes = Function.update c.stakes k (some { account with delegation := some d' }) →
      (r.stakeAccount = k → d'.deactivationEpoch = d.deactivationEpoch) →
      ¬c'.Deactivated r.stakeAccount := by
    intro account d d' k ha hdel hstakes hsame
    by_cases hk : r.stakeAccount = k
    · rintro ⟨a, d'', ha'', hd'', hne⟩
      rw [hstakes, hk, Function.update_self] at ha''
      cases ha''
      cases hd''
      rw [hsame hk] at hne
      rw [hk] at hd
      exact hd ⟨account, d, ha, hdel, hne⟩
    · have hsame : c'.stakes r.stakeAccount = c.stakes r.stakeAccount := by
        rw [hstakes, Function.update_of_ne hk]
      rwa [Chain.deactivated_congr hsame]
  cases x with
  | tick =>
    obtain ⟨clock, -, -, rfl⟩ := h
    exact hd
  | outside => rwa [Chain.deactivated_congr (Outside.stakes_eq h _ (.inr hl.managed))]
  | reward =>
    obtain ⟨account, d, ha, hdel, -, rfl⟩ := h
    exact redelegated ha hdel rfl fun _ ↦ rfl
  | slash =>
    obtain ⟨account, d, l, ha, hdel, -, -, -, rfl⟩ := h
    exact redelegated ha hdel rfl fun _ ↦ rfl
  | deactivateDelinquent =>
    obtain ⟨account, d, ha, hdel, -, rfl⟩ := h
    exact redelegated ha hdel rfl fun hk ↦ absurd (by rw [hk]) hx

/-! ## Moves -/

/-- What was booked for unlisted validators changes with neither the voters nor the list. -/
private theorem World.unlistedActive_congr
    (hvoter : w'.voterOf r.stakeAccount = w.voterOf r.stakeAccount)
    (hkeys : w'.state.validatorSystem.records.map (·.validatorAccount)
      = w.state.validatorSystem.records.map (·.validatorAccount)) :
    w'.unlistedActive cooling r = w.unlistedActive cooling r := by
  have hmap := congrArg (List.map some) hkeys
  rw [List.map_map, List.map_map] at hmap
  change w'.state.validatorSystem.records.map (fun v ↦ some v.validatorAccount)
    = w.state.validatorSystem.records.map (fun v ↦ some v.validatorAccount) at hmap
  rw [unlistedActive, unlistedActive, hvoter, hmap]

/-- A step that has nothing to do with the upgrade only has to keep the accounts. -/
theorem World.Attributed.of_untouched (ha : w.Attributed cooling) (h : Untouched w w')
    (hdeactivated : ∀ r ∈ w.state.stakeSystem.records, w.Deactivated r.stakeAccount →
      w'.Deactivated r.stakeAccount)
    (hvisited : ∀ r ∈ w.state.stakeSystem.records, r.lastUpdateStatus ≠ .unknown →
      ¬w.Deactivated r.stakeAccount → ¬w'.Deactivated r.stakeAccount) :
    w'.Attributed cooling where
  deactivated r hr hunknown hc := by
    rw [h.records_eq] at hr
    exact hdeactivated r hr (ha.deactivated r hr hunknown hc)
  visited r hr hknown := by
    rw [h.records_eq] at hr
    exact hvisited r hr hknown (ha.visited r hr hknown)
  emergency := by
    rw [h.records_eq]
    exact ha.emergency
  emergency_eq := by
    rw [h.records_eq, h.emergency_eq]
    exact ha.emergency_eq
  sum_eq := by
    rw [h.records_eq, h.total_eq, h.delayed_eq]
    exact ha.sum_eq
  delayed_le := by
    rw [h.records_eq, h.delayed_eq]
    exact ha.delayed_le
  upgrader_le vote hvote := by
    have hup := h.total_eq_of_balances fun b ↦ only b.1 b.2.2 vote
    have hbalance := h.total_eq_of_balances fun b ↦ only b.1 b.2.1 vote
    have hold := ha.upgrader_le vote (h.keys_eq ▸ hvote)
    rw [h.records_eq, total_congr fun r hr ↦ Chain.delegatedTo_congr (h.voters_eq r hr)]
    exact hup.symm ▸ hbalance.symm ▸ hold
  conserved := by
    rw [h.records_eq, h.total_eq, h.upgrader_eq,
      total_congr fun r hr ↦ World.unlistedActive_congr (h.voters_eq r hr) h.keys_eq,
      ← ha.conserved]
    exact congrArg (· + _) (h.total_eq_of_balances fun b ↦ b.2.1)

/-- What a move has to do to the totals. Its new records are visited ones. -/
theorem World.Attributed.of_moved (ha : w.Attributed cooling) (hr : Recorded w)
    (hm : Moved rt w w' olds news rest)
    (hnews : ∀ r ∈ news, r.lastUpdateStatus ≠ .unknown ∧ r.isEmergencyUnstaking = false ∧
      ¬w'.Deactivated r.stakeAccount)
    (hkeys : w'.state.validatorSystem.records.map (·.validatorAccount)
      = w.state.validatorSystem.records.map (·.validatorAccount))
    (hlisted : ∀ r ∈ olds, w.unlistedActive cooling r = 0)
    (hemergency : w'.state.emergencyCoolingDown + total (·.bookedCooling cooling true) olds
      = w.state.emergencyCoolingDown)
    (hsum : w'.state.validatorSystem.totalActiveBalance
          + w'.state.stakeSystem.delayedUnstakeCoolingDown
          + (total UpdateActive.counted olds + total (·.bookedActive cooling) olds
            + total (·.bookedCooling cooling false) olds)
        = w.state.validatorSystem.totalActiveBalance
          + w.state.stakeSystem.delayedUnstakeCoolingDown + total UpdateActive.counted news)
    (hdelayed : w'.state.stakeSystem.delayedUnstakeCoolingDown
      ≤ w.state.stakeSystem.delayedUnstakeCoolingDown
        - total (·.bookedCooling cooling false) olds)
    (hupgrader : ∀ vote, total (·.upgraderOf vote) w'.state.validatorSystem.records
        + total (·.balanceOf vote) w.state.validatorSystem.records
      ≤ total (·.upgraderOf vote) w.state.validatorSystem.records
        + total (·.balanceOf vote) w'.state.validatorSystem.records
        + total (w.delegatedTo vote (·.bookedActive cooling)) olds)
    (hconserved : total (·.activeBalance) w'.state.validatorSystem.records
        + (w.state.validatorSystem.totalActiveBalance
          + w.state.delinquentUpgrader.delinquentBalance)
      = total (·.activeBalance) w.state.validatorSystem.records
        + (w'.state.validatorSystem.totalActiveBalance
          + w'.state.delinquentUpgrader.delinquentBalance)) : w'.Attributed cooling := by
  have hrest : ∀ r ∈ rest, r ∈ w.state.stakeSystem.records := fun _ ↦ hm.replaced.mem_of_rest
  have hstakes : ∀ r ∈ rest, w'.stakes r.stakeAccount = w.stakes r.stakeAccount :=
    fun _ ↦ hm.stakes_rest hr
  -- the new records were booked neither way
  have hactive : total (·.bookedActive cooling) news = 0 :=
    total_eq_zero_iff.mpr fun r hr ↦ StakeRecord.bookedActive_of_known (hnews r hr).1
  have hcooling : ∀ em, total (·.bookedCooling cooling em) news = 0 := fun em ↦
    total_eq_zero_iff.mpr fun r hr ↦ StakeRecord.bookedCooling_of_known (hnews r hr).1
  have hsplit : ∀ g : StakeRecord → ℕ, total g w'.state.stakeSystem.records + total g olds
      = total g w.state.stakeSystem.records + total g news :=
    fun g ↦ hm.replaced.total_eq fun _ _ ↦ rfl
  refine ⟨?_, ?_, ?_, ?_, ?_, ?_, fun vote hvote ↦ ?_, ?_⟩
  · intro r hmem hunknown hc
    rcases hm.replaced.mem_iff.mp hmem with hmem | hmem
    · exact absurd hunknown (hnews r hmem).1
    · exact (Chain.deactivated_congr (hstakes r hmem)).mpr
        (ha.deactivated r (hrest r hmem) hunknown hc)
  · intro r hmem hknown
    rcases hm.replaced.mem_iff.mp hmem with hmem | hmem
    · exact (hnews r hmem).2.2
    · rw [Chain.deactivated_congr (hstakes r hmem)]
      exact ha.visited r (hrest r hmem) hknown
  · intro r hmem hem
    rcases hm.replaced.mem_iff.mp hmem with hmem | hmem
    · rw [(hnews r hmem).2.1] at hem
      cases hem
    · exact ha.emergency r (hrest r hmem) hem
  · have hold := ha.emergency_eq
    have hsame := hsplit (·.bookedCooling cooling true)
    have hnone := hcooling true
    omega
  · have hold := ha.sum_eq
    have hcounted := hsplit UpdateActive.counted
    have hbooked := hsplit (·.bookedActive cooling)
    have hsame := hsplit (·.bookedCooling cooling false)
    have hnone := hcooling false
    omega
  · have hold := ha.delayed_le
    have hsame := hsplit (·.bookedCooling cooling false)
    have hnone := hcooling false
    omega
  · rw [hkeys] at hvote
    have hold := ha.upgrader_le vote hvote
    have hsame := hm.total_delegatedTo hr vote (·.bookedActive cooling)
    have hnone : total (w'.delegatedTo vote (·.bookedActive cooling)) news = 0 :=
      total_eq_zero_iff.mpr fun r hr ↦ by
        rw [Chain.delegatedTo, StakeRecord.bookedActive_of_known (hnews r hr).1, ite_self]
    have hstep := hupgrader vote
    omega
  · have hold := ha.conserved
    have hsame := hm.replaced.total_eq (f := w.unlistedActive cooling)
      (g := w'.unlistedActive cooling) fun r hr ↦
        World.unlistedActive_congr (Chain.voterOf_congr (hstakes r hr)) hkeys
    have hnone : total (w'.unlistedActive cooling) news = 0 :=
      total_eq_zero_iff.mpr fun r hr ↦ by
        rw [World.unlistedActive, StakeRecord.bookedActive_of_known (hnews r hr).1, ite_self]
    have hgone : total (w.unlistedActive cooling) olds = 0 := total_eq_zero_iff.mpr hlisted
    omega

/-! ## Every step -/

/-- What is not deactivated was not booked as cooling down. -/
theorem World.Attributed.not_cooling (ha : w.Attributed cooling)
    (hr : r ∈ w.state.stakeSystem.records) (hd : ¬w.Deactivated r.stakeAccount) :
    r.isEmergencyUnstaking = false ∧ ∀ em, r.bookedCooling cooling em = 0 := by
  constructor
  · by_contra hem
    rw [Bool.not_eq_false] at hem
    obtain ⟨hunknown, hc⟩ := ha.emergency r hr hem
    exact hd (ha.deactivated r hr hunknown hc)
  · exact fun em ↦ if_neg fun h ↦ hd (ha.deactivated r hr h.1 h.2.1)

/-- The account of an update is deactivated if its delegation is. -/
theorem UpdateCommon.Begun.deactivated_iff {accounts i j account d}
    (h : UpdateCommon.Begun accounts i j w account d r v) :
    w.Deactivated r.stakeAccount ↔ d.deactivationEpoch ≠ epochMax :=
  Chain.deactivated_iff (by rw [h.record_key]; exact h.account_eq) h.delegation_eq

/-- The record of an update is one of a listed validator. -/
private theorem UpdateCommon.Begun.unlistedActive_eq {accounts i j account d}
    (h : UpdateCommon.Begun accounts i j w account d r v) : w.unlistedActive cooling r = 0 := by
  refine if_pos ?_
  rw [h.voterOf_eq]
  exact List.mem_map_of_mem (f := fun v ↦ some v.validatorAccount)
    (List.mem_of_getElem? h.validator)

private theorem DepositStakeAccount.Spec.attributed {accounts j e account d v'}
    (h : DepositStakeAccount.Spec accounts j w w' e account d v v') (hs : w.StakesSound rt)
    (hr : Recorded w) (hu : w.state.delinquentUpgrader = .iteratingStakes n t k)
    (ha : w.Attributed cooling) : w'.Attributed cooling := by
  obtain ⟨⟨up, hv'⟩, hphase, hup⟩ := maintainUpgrader_spec h.upgrade
  rw [hu] at hup hphase
  have hbalance : v'.activeBalance + 0 = v.activeBalance + d.stake := by
    rw [hv', Nat.add_zero]
  have hkey : v'.validatorAccount = v.validatorAccount := by rw [hv']
  obtain ⟨lockup, -, hstakes⟩ := h.stakes_eq
  refine ha.of_moved hr (h.moved hs) ?_ ?_ (by simp) ?_ ?_ ?_ (fun vote ↦ ?_) ?_
  · simp only [List.mem_singleton, forall_eq]
    refine ⟨by simp [StakeRecord.new], rfl, ?_⟩
    have hself := congrFun hstakes accounts.stakeAccount
    rw [Function.update_self] at hself
    exact (Chain.deactivated_iff hself rfl).not.mpr (not_not.mpr h.active)
  · rw [h.validators_eq, map_key_set h.validator hkey]
  · rw [h.state_eq]
    rfl
  · rw [h.state_eq]
    have hnew : total UpdateActive.counted
        [StakeRecord.new accounts.stakeAccount d.stake w.clock false true] = d.stake := rfl
    rw [hnew]
    simp only [total_nil]
    omega
  · rw [h.state_eq]
    exact le_rfl
  · have hset := total_only_set (f := (·.delinquentUpgraderActiveBalance)) (x := 0)
      (y := d.stake) h.validator hkey hup vote
    have hset' := total_balanceOf_set h.validator hkey hbalance vote
    rw [← h.validators_eq] at hset hset'
    simp only [ValidatorRecord.upgraderOf, total_nil]
    omega
  · have hset := total_set (g := (·.activeBalance)) h.validator v'
    rw [← h.validators_eq] at hset
    have htotal : w'.state.validatorSystem.totalActiveBalance
        = w.state.validatorSystem.totalActiveBalance + d.stake := by rw [h.state_eq]
    rw [hphase, hu]
    simp only [DelinquentUpgraderState.deposited, DelinquentUpgraderState.delinquentBalance]
    omega

private theorem UpdateActive.Spec.attributed {accounts i j account d v' extra fee₁ fee₂}
    (h : UpdateActive.Spec accounts i j w w' account d r v v' extra fee₁ fee₂)
    (hs : w.StakesSound rt) (hr : Recorded w)
    (hu : w.state.delinquentUpgrader = .iteratingStakes n t k) (ha : w.Attributed cooling) :
    w'.Attributed cooling := by
  have hmem := List.mem_of_getElem? h.record
  have hkey : v'.validatorAccount = v.validatorAccount := by rw [h.validator_eq]
  obtain ⟨u, hvisited, hprogressed⟩ := h.upgrader
  rw [hu] at hvisited
  have hdelinquent := hprogressed.delinquentBalance_eq.trans hvisited.delinquentBalance_eq
  obtain ⟨-, -, -, hup⟩ := hvisited
  obtain ⟨_, hstate⟩ := h.state_eq
  have hactive : ¬w.Deactivated r.stakeAccount := h.deactivated_iff.not.mpr (not_not.mpr h.active)
  obtain ⟨hem, hcooling⟩ := ha.not_cooling hmem hactive
  have hparts := StakeRecord.counted_add_booked cooling hem
  have htotal := h.total_balance
  have hdelayed : w'.state.stakeSystem.delayedUnstakeCoolingDown
      = w.state.stakeSystem.delayedUnstakeCoolingDown := by rw [hstate]
  refine ha.of_moved hr (h.moved hs (hr.listed r hmem)) ?_ ?_ ?_ ?_ ?_ ?_ (fun vote ↦ ?_) ?_
  · simp only [List.mem_singleton, forall_eq]
    refine ⟨by simp, hem, ?_⟩
    rwa [Chain.deactivated_congr (c := w.toChain) (by rw [h.frame])]
  · rw [h.validators_eq, map_key_set h.validator hkey]
  · simp only [List.mem_singleton, forall_eq]
    exact h.unlistedActive_eq
  · rw [total_cons, total_nil, hcooling, hstate]
    rfl
  · have hnew : total UpdateActive.counted [{ r with
        lastUpdateStatus := .active
        lastUpdateEpoch := w.clock.epoch
        lastUpdateDelegatedLamports := d.stake }] = d.stake := rfl
    rw [hnew]
    simp only [total_cons, total_nil]
    omega
  · simp only [total_cons, total_nil, hcooling, hdelayed]
    exact le_rfl
  · have hset := total_only_set (f := (·.delinquentUpgraderActiveBalance)) h.validator hkey hup
      vote
    have hset' := total_balanceOf_set h.validator hkey h.validator_balance vote
    rw [← h.validators_eq] at hset hset'
    have hvoter := h.voterOf_eq
    have hbooked := congrArg (only v.validatorAccount · vote) hparts
    simp only [only_add, hcooling, only_zero] at hbooked
    rw [total_cons, total_nil, Chain.delegatedTo_eq hvoter]
    simp only [ValidatorRecord.upgraderOf]
    omega
  · have hset := total_set (g := (·.activeBalance)) h.validator v'
    have hbalance := h.validator_balance
    rw [← h.validators_eq] at hset
    rw [hdelinquent, hu]
    omega

/-- The record of an account that was deactivated was not visited. -/
theorem UpdateDeactivated.Spec.unknown {accounts i j account d r' s₁ s₂ fee delinquent}
    (h : UpdateDeactivated.Spec accounts i j w w' account d r r' v s₁ s₂ fee delinquent)
    (ha : w.Attributed cooling) : r.lastUpdateStatus = .unknown := by
  by_contra hknown
  exact ha.visited r (List.mem_of_getElem? h.record) hknown (h.deactivated_iff.mpr h.deactivated)

private theorem UpdateDeactivated.Spec.attributed
    {accounts i j account d r' s₁ s₂ fee delinquent}
    (h : UpdateDeactivated.Spec accounts i j w w' account d r r' v s₁ s₂ fee delinquent)
    (hs : w.StakesSound rt) (hr : Recorded w)
    (hu : w.state.delinquentUpgrader = .iteratingStakes n t k) (ha : w.Attributed cooling) :
    w'.Attributed cooling := by
  have hmem := List.mem_of_getElem? h.record
  have hunknown := h.unknown ha
  have hnotActive : r.lastUpdateStatus ≠ .active := by simp [hunknown]
  have hem' : r'.isEmergencyUnstaking = r.isEmergencyUnstaking := by
    rw [h.detected.record_eq]
    simp [hunknown]
  have hvalidators := h.validators_eq
  rw [if_neg hnotActive] at hvalidators
  have hbalance := h.totals_eq.delinquentBalance_eq
  obtain ⟨htotal, hdelayed, hemergency, hdelinquent, -⟩ := h.totals_eq
  rw [if_neg hnotActive] at htotal hemergency hdelinquent
  rw [hem'] at hdelayed hemergency hdelinquent
  rw [hu] at hdelinquent
  simp only [DelinquentUpgraderState.isIteratingStakes, if_true] at hdelinquent
  have hparts : UpdateActive.counted r = 0 := if_pos hunknown
  cases hem : r.isEmergencyUnstaking with
  | true =>
    -- a flagged record is one of those the total consists of, so nothing is delinquent
    have hc := (ha.emergency r hmem hem).2
    have hbooked : r.bookedCooling cooling true = r.lastUpdateDelegatedLamports :=
      if_pos ⟨hunknown, hc, hem⟩
    have hnone : r.bookedCooling cooling false = 0 := if_neg (by simp [hem])
    have hnotBooked : r.bookedActive cooling = 0 := if_neg (by simp [hc])
    have hle := le_total (g := (·.bookedCooling cooling true)) hmem
    have hall := ha.emergency_eq
    simp only [hem, if_true] at hdelayed hemergency hdelinquent
    refine ha.of_moved hr (h.moved hs) (by simp) (by rw [hvalidators]) ?_ ?_ ?_ ?_
      (fun vote ↦ ?_) ?_
    · simp only [List.mem_singleton, forall_eq]
      exact h.unlistedActive_eq
    · simp only [total_cons, total_nil]
      omega
    · simp only [total_cons, total_nil]
      omega
    · simp only [total_cons, total_nil]
      omega
    · rw [hvalidators]
      omega
    · rw [hvalidators]
      omega
  | false =>
    have hnone : r.bookedCooling cooling true = 0 := if_neg (by simp [hem])
    have hbooked := StakeRecord.counted_add_booked cooling hem
    simp only [hem, if_false, Bool.false_eq_true] at hdelayed hemergency hdelinquent
    refine ha.of_moved hr (h.moved hs) (by simp) (by rw [hvalidators]) ?_ ?_ ?_ ?_
      (fun vote ↦ ?_) ?_
    · simp only [List.mem_singleton, forall_eq]
      exact h.unlistedActive_eq
    · simp only [total_cons, total_nil]
      omega
    · simp only [total_cons, total_nil]
      omega
    · simp only [total_cons, total_nil]
      omega
    · rw [hvalidators]
      omega
    · rw [hvalidators]
      omega

/-- As long as no visited account is deactivated, no visited record is removed. -/
theorem World.Attributed.sparesVisited (ha : w.Attributed cooling) (hw : WellFormed rt w)
    (hstep : Step rt w l w') : w.sparesVisited l = true := by
  unfold World.sparesVisited
  split
  · obtain ⟨_, _, _, _, _, _, _, _, _, h⟩ := UpdateDeactivated.process_spec
      (silently_eq_ok hstep) (hw.stakes_sound.funded _)
    rw [h.record, Option.all_some, h.unknown ha]
    rfl
  · rfl

/-- As long as no visited account is deactivated, every step keeps the attribution. -/
theorem World.Attributed.step (ha : w.Attributed cooling) (hw : Grounded rt w)
    (hu : w.state.delinquentUpgrader = .iteratingStakes n t k)
    (hl : w.sparesVisitedAccounts l = true) (hstep : Step rt w l w') : w'.Attributed cooling := by
  have hs := hw.wellFormed.stakes_sound
  have hr := hw.recorded
  cases l with
  | external x =>
    refine ha.of_untouched (External.untouched hstep.1 hstep.2 hr) (fun r hmem hd ↦ ?_)
      fun r hmem hknown hd ↦ ?_
    · exact External.deactivated hstep.1 (hr.listed r hmem) hd
    · refine External.not_deactivated hstep.1 (hr.listed r hmem) ?_ hd
      rintro rfl
      exact hknown (of_decide_eq_true (List.all_eq_true.mp hl r hmem) rfl)
  | instruction i e =>
    cases (executed_of_exec hstep hs).upgrading (by simp [hu]) with
    | untouched h hstakes =>
      have hsame : ∀ r : StakeRecord, w'.Deactivated r.stakeAccount
          ↔ w.Deactivated r.stakeAccount := fun r ↦
        Chain.deactivated_congr (congrFun hstakes _)
      exact ha.of_untouched h (fun r _ hd ↦ (hsame r).mpr hd) fun r _ _ hd ↦ mt (hsame r).mp hd
    | depositStakeAccount h => exact h.attributed hs hr hu ha
    | updateActive h => exact h.attributed hs hr hu ha
    | updateDeactivated h => exact h.attributed hs hr hu ha
    | finalizeDelinquentUpgrade h =>
      obtain ⟨-, _, _, _, _, _, hphase, -⟩ := FinalizeDelinquentUpgrade.process_spec h
      rw [hu] at hphase
      cases hphase

end

end Marinade
