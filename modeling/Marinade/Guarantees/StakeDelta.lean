import Marinade.Failures
import Marinade.Guarantees.Reserve

/-!
# Working off the stake delta

The stake delta says how much is to be staked or unstaked. It is worked off validator by validator,
and every call computes it again from what the calls before have left. Staking takes exactly what it
stakes off the delta, so it stays within the delta however often it is called. Unstaking may take a
whole account of which less than twice the minimal stake would be left, but nothing more once the
delta is worked off, so it goes less than that beyond the delta.
-/

open Foundation Foundation.Ledger

namespace Marinade

/-- The stake delta with what the reserve really holds. -/
abbrev World.stakeDelta (w : World) : ℤ :=
  w.state.stakeDelta (w.lamportsOf .reserve)

/-- The reserve and what is cooling down for tickets cover the tickets. -/
def World.CoversTickets (w : World) : Prop :=
  w.state.circulatingTicketBalance + w.state.rentExemptForTokenAcc
    ≤ w.lamportsOf .reserve + w.state.stakeSystem.delayedUnstakeCoolingDown

section

variable {rt : Runtime} {w₀ w w' : World} {s : State} {i j x y reserve : ℕ} {ls : List Label}
  {v : ValidatorRecord}

/-! ## The delta -/

/-- What is cooling down in an emergency is never staked. -/
theorem stakeDelta_emergency :
    max ({ s with emergencyCoolingDown := y }.stakeDelta reserve) 0
      = max (s.stakeDelta reserve) 0 := by
  simp only [State.stakeDelta]
  split
  · rfl
  · omega

/-- As long as the tickets are covered, the delta is what is left beyond them. -/
theorem stakeDelta_of_covers (h : w.CoversTickets)
    (hrent : w.state.rentExemptForTokenAcc ≤ w.lamportsOf .reserve) :
    w.stakeDelta + w.state.circulatingTicketBalance + w.state.rentExemptForTokenAcc
      = w.lamportsOf .reserve + w.state.stakeSystem.delayedUnstakeCoolingDown := by
  rw [World.CoversTickets] at h
  rw [World.stakeDelta, State.stakeDelta, if_pos (by omega)]
  omega

theorem stakeDelta_nonneg_of_covers (h : w.CoversTickets)
    (hrent : w.state.rentExemptForTokenAcc ≤ w.lamportsOf .reserve) : 0 ≤ w.stakeDelta := by
  have hdelta := stakeDelta_of_covers h hrent
  rw [World.CoversTickets] at h
  omega

theorem covers_of_stakeDelta_pos (h : 0 < w.stakeDelta)
    (hrent : w.state.rentExemptForTokenAcc ≤ w.lamportsOf .reserve) : w.CoversTickets := by
  rw [World.stakeDelta, State.stakeDelta] at h
  rw [World.CoversTickets]
  split at h
  · omega
  · omega

/-! ## Staking -/

/-- The amount `x` was staked to the validator at `j`: at least the minimal stake, at most the
delta, which it lowers and does not leave too small, and not much beyond the validator's target. -/
structure StakedWithin (w w' : World) (j x : ℕ) : Prop where
  min_le : w.state.stakeSystem.minStake ≤ x
  le_delta : (x : ℤ) ≤ w.stakeDelta
  delta_eq : w'.stakeDelta = w.stakeDelta - x
  rest : w'.stakeDelta = 0 ∨ (w.state.stakeSystem.minStake : ℤ) ≤ w'.stakeDelta
  target : ∃ v v' share, w.state.validatorSystem.records[j]? = some v ∧
    w.state.validatorSystem.validatorStakeTarget v
      (min (w.state.validatorSystem.totalActiveBalance + w.stakeDelta.toNat) u64Max)
        = .ok share ∧
    w'.state.validatorSystem.records[j]? = some v' ∧
    v'.activeBalance = v.activeBalance + x ∧
    v'.activeBalance < share + w.state.stakeSystem.minStake

/-- What a step has staked. -/
def Label.staked : Label → ℕ
  | .instruction _ (.stakeReserve e) => e.amount.getD 0
  | _ => 0

def Label.isStakeReserve : Label → Bool
  | .instruction (.stakeReserve ..) _ => true
  | _ => false

theorem exists_of_isStakeReserve {l : Label} (h : l.isStakeReserve = true) :
    ∃ accounts j e, l = .instruction (.stakeReserve accounts j) e := by
  cases l with
  | external => cases h
  | instruction i e =>
    cases i with
    | stakeReserve accounts j => exact ⟨accounts, j, e, rfl⟩
    | _ => cases h

/-- The program while nothing is called but `stake_reserve`. -/
def reserveStaking (rt : Runtime) : System World Label :=
  (marinade rt).restrict fun _ l ↦ l.isStakeReserve = true

namespace StakeReserve

variable {accounts : StakeReserve} {share active delta found topUp : ℕ} {e : StakeReserveEvent}

theorem UnusedSpec.reserve_eq (h : UnusedSpec accounts w w' found) :
    w'.lamportsOf .reserve = w.lamportsOf .reserve := by
  have hl := h.lamports_eq .reserve
  rwa [only_of_ne (Chain.ne_of_not_canSign rfl h.unused),
    only_of_ne (Chain.ne_of_not_canSign rfl h.payer_unused)] at hl

theorem Spec.reserve_eq (h : Spec rt accounts j w w' v x topUp) :
    w'.lamportsOf .reserve + x = w.lamportsOf .reserve := by
  have hl := h.lamports_eq .reserve
  rwa [only_of_ne (Chain.ne_of_not_canSign rfl h.payer_unused), only_self,
    only_of_ne (Chain.ne_of_not_canSign rfl h.unused)] at hl

/-- The amount is the delta, or it leaves at least the minimal stake of the delta. -/
theorem stakeTarget_rest (h : active < share) (hmin : 0 < s.stakeSystem.minStake) :
    (stakeTarget s share active delta = delta ∨
      s.stakeSystem.minStake ≤ delta - stakeTarget s share active delta) ∧
    active + stakeTarget s share active delta < share + s.stakeSystem.minStake := by
  simp only [stakeTarget]
  split
  · exact ⟨.inl rfl, by omega⟩
  · exact ⟨.inr (by omega), by omega⟩

/-- What a call of `stake_reserve` does to the delta. -/
theorem process_delta (h : (marinade rt).Reachable w) (hc : w.CoversTickets)
    (hp : accounts.process rt j w = .ok (w', e)) :
    w'.CoversTickets ∧ ((e.amount = none ∧ w'.stakeDelta = w.stakeDelta) ∨
      ∃ x, e.amount = some x ∧ StakedWithin w w' j x) := by
  have hbounds := (bounds_of_reachable h).reserve_le
  have hdelta := stakeDelta_of_covers hc (by omega)
  rcases process_spec hp with ⟨hnone, found, hspec⟩ | ⟨v, x, hsome, topUp, hspec⟩
  · -- the delta is computed from the same amounts as before
    obtain ⟨runs, hstate⟩ := hspec.state_eq
    have hreserve := hspec.reserve_eq
    rw [World.CoversTickets, World.stakeDelta, hreserve, hstate]
    exact ⟨hc, .inl ⟨hnone, rfl⟩⟩
  · obtain ⟨amount⟩ := e
    obtain rfl : amount = some x := hsome
    obtain ⟨v', share, hd⟩ := decided_of_process hp
    obtain ⟨hv, -⟩ := ValidatorSystem.getChecked_eq_ok.mp hd.validator
    obtain rfl : v = v' := Option.some.inj (hspec.validator.symm.trans hv)
    have hmin : 0 < w.state.stakeSystem.minStake := (wellFormed_of_reachable h).minStake_pos
    have hle : x ≤ totalStakeDelta w := hd.amount_eq.le.trans stakeTarget_le
    have htotal : (totalStakeDelta w : ℤ) = w.stakeDelta := by
      have hpos := hd.delta_pos
      have heq : totalStakeDelta w = w.stakeDelta.toNat := rfl
      omega
    obtain ⟨hrest, hover⟩ := stakeTarget_rest hd.below hmin
    rw [← hd.amount_eq] at hrest hover
    obtain ⟨runs, hstate⟩ := hspec.state_eq
    have hreserve := hspec.reserve_eq
    have havailable := hspec.available
    have hrent : w'.state.rentExemptForTokenAcc = w.state.rentExemptForTokenAcc := by rw [hstate]
    have htickets : w'.state.circulatingTicketBalance = w.state.circulatingTicketBalance := by
      rw [hstate]
    have hcooling : w'.state.stakeSystem.delayedUnstakeCoolingDown
        = w.state.stakeSystem.delayedUnstakeCoolingDown := by rw [hstate]
    have hc' : w'.CoversTickets := by
      rw [World.CoversTickets]
      omega
    have hdelta' := stakeDelta_of_covers hc' (by omega)
    have hj : j < w.state.validatorSystem.records.length :=
      (List.getElem?_eq_some_iff.mp hspec.validator).1
    refine ⟨hc', .inr ⟨x, rfl, hspec.min_le, by omega, by omega, by omega, v,
      { v with activeBalance := v.activeBalance + x, lastStakeDeltaEpoch := w.clock.epoch }, share,
      hv, hd.share_eq, ?_, rfl, hover⟩⟩
    rw [hspec.validators_eq, List.getElem?_set_self hj]

end StakeReserve

/-- A step of `stake_reserve` takes what it stakes off the delta. -/
theorem reserveStaking_step {l : Label} (h : (marinade rt).Reachable w ∧ w.CoversTickets)
    (hs : (reserveStaking rt).step w l w') :
    ((marinade rt).Reachable w' ∧ w'.CoversTickets) ∧
      l.staked + w'.stakeDelta.toNat = w.stakeDelta.toNat := by
  obtain ⟨hs, hl⟩ := hs
  have h' : (marinade rt).Reachable w' := h.1.step hs
  obtain ⟨accounts, j, event, rfl⟩ := exists_of_isStakeReserve hl
  obtain ⟨e, hp, rfl⟩ := reporting_eq_ok hs
  obtain ⟨hc', hcall⟩ := StakeReserve.process_delta h.1 h.2 hp
  refine ⟨⟨h', hc'⟩, ?_⟩
  rcases hcall with ⟨hnone, heq⟩ | ⟨x, hsome, hstaked⟩
  · rw [Label.staked, hnone, Option.getD_none, heq, Nat.zero_add]
  · have heq := hstaked.delta_eq
    have hbounds := (bounds_of_reachable h').reserve_le
    have hnonneg := stakeDelta_nonneg_of_covers hc' (by omega)
    rw [Label.staked, hsome, Option.getD_some]
    omega

/-- However often `stake_reserve` is called, all it stakes is within the delta there was, the
tickets stay covered, and every further call stakes within what is left of the delta. -/
theorem staking_within_delta (h : (marinade rt).Reachable w₀) (hpos : 0 < w₀.stakeDelta)
    (hr : (reserveStaking rt).Run w₀ ls w) :
    (ls.map Label.staked).sum ≤ w₀.stakeDelta ∧
    w.stakeDelta = w₀.stakeDelta - (ls.map Label.staked).sum ∧
    w.CoversTickets ∧
    (∀ y, max ({ w.state with emergencyCoolingDown := y }.stakeDelta (w.lamportsOf .reserve)) 0
      = max w.stakeDelta 0) ∧
    ∀ accounts j w' x,
      exec rt w (.stakeReserve accounts j) = .ok (w', .stakeReserve ⟨some x⟩) →
        StakedWithin w w' j x := by
  have hbounds := (bounds_of_reachable h).reserve_le
  obtain ⟨⟨h', hc⟩, hsum⟩ := hr.sum_add_eq (φ := fun w ↦ w.stakeDelta.toNat) (f := Label.staked)
    ⟨h, covers_of_stakeDelta_pos hpos (by omega)⟩ fun _ _ _ ↦ reserveStaking_step
  have hbounds' := (bounds_of_reachable h').reserve_le
  have hnonneg := stakeDelta_nonneg_of_covers hc (by omega)
  refine ⟨by omega, by omega, hc, fun y ↦ stakeDelta_emergency, fun accounts j w' x he ↦ ?_⟩
  obtain ⟨e, hp, hevent⟩ := reporting_eq_ok he
  obtain rfl : e = ⟨some x⟩ := by injection hevent
  obtain ⟨-, ⟨hnone, -⟩ | ⟨x', hsome, hstaked⟩⟩ := StakeReserve.process_delta h' hc hp
  · cases hnone
  · cases hsome
    exact hstaked

/-! ## Unstaking -/

namespace DeactivateStake

/-- The assertion on the amount that is split off. -/
abbrev SplitAsserted (e : Error) : Prop := e = .assertion .splitAmount

section

variable {accounts : DeactivateStake} {target delta : ℕ} {c : Chain} {r : StakeRecord}
  {clock : Clock} {k k' : Pubkey}

/-- The amount that is split off is positive and within the delta. -/
private theorem deactivatePart_avoids (h : target < r.lastUpdateDelegatedLamports)
    (hx : r.lastUpdateDelegatedLamports - target ≤ delta) :
    Avoids SplitAsserted (deactivatePart rt accounts i j r v target delta c s) := by
  simp [deactivatePart, returnUnusedSplitStakeAccountRent, finish, h, hx]

/-- The assertion in the split branch never fails. -/
theorem process_avoids (hmin : 0 < w.state.stakeSystem.minStake) :
    Avoids SplitAsserted (accounts.process rt i j w) := by
  refine .bind (by simp) fun _ _ ↦ .bind (by simp) fun c _ ↦ .bind (by simp) fun _ _ ↦
    .bind (by simp) fun r _ ↦ .bind (by simp) fun _ _ ↦ .bind (by simp) fun _ _ ↦
    .bind (by simp) fun v _ ↦ .bind (by simp) fun _ _ ↦ .bind (by simp) fun _ hneg ↦
    .bind (by simp) fun delta hdelta ↦ .bind (by simp) fun _ _ ↦ .bind (by simp) fun share _ ↦
    Avoids.ite_iff.mpr ⟨fun _ ↦ by simp [returnUnusedSplitStakeAccountRent], fun habove ↦
      .bind (by simp) fun twice htwice ↦ Avoids.ite_iff.mpr ⟨fun _ ↦ ?_, fun hrest ↦ ?_⟩⟩
  · simp [deactivateWhole, returnUnusedSplitStakeAccountRent, finish]
  · have hneg' := ensure_eq_ok.mp hneg
    obtain ⟨rfl, -⟩ := stakeDeltaAmount_eq_ok hdelta
    obtain ⟨-, rfl⟩ := checkedMul_eq_ok.mp htwice
    exact deactivatePart_avoids (by omega) (by omega)

/-- What there is to unstake falls by what is added to the cooling down, or by more. -/
private theorem unstakeDelta_le {s s' : State} {reserve reserve' : ℕ}
    (hrent : s'.rentExemptForTokenAcc = s.rentExemptForTokenAcc)
    (htickets : s'.circulatingTicketBalance = s.circulatingTicketBalance)
    (hemergency : s'.emergencyCoolingDown = s.emergencyCoolingDown)
    (hcooling : s'.stakeSystem.delayedUnstakeCoolingDown
      = s.stakeSystem.delayedUnstakeCoolingDown + x) (hreserve : reserve ≤ reserve') :
    (-s'.stakeDelta reserve').toNat ≤ (-s.stakeDelta reserve).toNat - x := by
  simp only [State.stakeDelta, hrent, htickets, hemergency, hcooling]
  split <;> split <;> omega

theorem totalUnstakeDelta_le_of_eq (hstate : w'.state = w.state)
    (hreserve : w.lamportsOf .reserve ≤ w'.lamportsOf .reserve) :
    totalUnstakeDelta w' ≤ totalUnstakeDelta w := by
  have hle := unstakeDelta_le (x := 0) (s := w.state) rfl rfl rfl rfl hreserve
  rw [Nat.sub_zero] at hle
  rwa [totalUnstakeDelta, totalUnstakeDelta, hstate]

theorem totalUnstakeDelta_le_of_unstaked {stakeAccount : Pubkey} {account : StakeAccount}
    {d : Delegation} {epoch : ℕ}
    (h : Unstaked false stakeAccount i j w w' account d r v x epoch)
    (hreserve : w.lamportsOf .reserve ≤ w'.lamportsOf .reserve) :
    totalUnstakeDelta w' ≤ totalUnstakeDelta w - x := by
  obtain ⟨_, _, _, hstate⟩ := h.state_eq
  exact unstakeDelta_le (by rw [hstate]) (by rw [hstate]) (by rw [hstate]; simp)
    (by rw [hstate]; simp) hreserve

end

end DeactivateStake

/-- A call of `deactivate_stake` for the validator at `j` that unstakes `amount`, if anything: there
was something to unstake, a part that is split off is positive and within the delta, and the
validator is left with little less than its target, unless it had no more before. -/
structure UnstakedWithin (w w' : World) (j : ℕ) (amount : Option ℕ) : Prop where
  delta_neg : w.stakeDelta < 0
  split : w.state.stakeSystem.records.length < w'.state.stakeSystem.records.length →
    ∃ x, amount = some x ∧ 0 < x ∧ x ≤ -w.stakeDelta
  target : ∃ v v' share, w.state.validatorSystem.records[j]? = some v ∧
    w.state.validatorSystem.validatorStakeTarget v
      (w.state.validatorSystem.totalActiveBalance - DeactivateStake.totalUnstakeDelta w)
        = .ok share ∧
    w'.state.validatorSystem.records[j]? = some v' ∧
    v'.activeBalance + amount.getD 0 = v.activeBalance ∧
    (v.activeBalance ≤ share ∧ amount = none ∨
      share < v'.activeBalance + 2 * w.state.stakeSystem.minStake)

/-- What a step has unstaked. -/
def Label.unstaked : Label → ℕ
  | .instruction _ (.deactivateStake e) => e.unstakedAmount.getD 0
  | _ => 0

def Label.isDeactivateStake : Label → Bool
  | .instruction (.deactivateStake ..) _ => true
  | _ => false

theorem exists_of_isDeactivateStake {l : Label} (h : l.isDeactivateStake = true) :
    ∃ accounts i j e, l = .instruction (.deactivateStake accounts i j) e := by
  cases l with
  | external => cases h
  | instruction ins e =>
    cases ins with
    | deactivateStake accounts i j => exact ⟨accounts, i, j, e, rfl⟩
    | _ => cases h

/-- The program while nothing is called but `deactivate_stake`, whatever else happens. -/
def deltaUnstaking (rt : Runtime) : System World Label :=
  (marinade rt).restrict fun _ l ↦ l.isDeactivateStake = true ∨ ∃ x, l = .external x

namespace DeactivateStake

variable {accounts : DeactivateStake} {e : DeactivateStakeEvent}

/-- What a call that unstakes `amount` does: it keeps the accounts sound, takes the amount off the
delta and takes less than twice the minimal stake beyond it. -/
structure TakenOff (rt : Runtime) (w w' : World) (j : ℕ) (amount : Option ℕ) : Prop
    extends UnstakedWithin w w' j amount where
  stakes_sound : w'.StakesSound rt
  min_eq : w'.state.stakeSystem.minStake = w.state.stakeSystem.minStake
  left_le : totalUnstakeDelta w' ≤ totalUnstakeDelta w - amount.getD 0
  lt_add : amount.getD 0 < totalUnstakeDelta w + 2 * w.state.stakeSystem.minStake

section

variable {account : StakeAccount} {d : Delegation} {r : StakeRecord} {share topUp : ℕ}

theorem Decided.delta_neg (h : Decided accounts i j w account d r v share) : w.stakeDelta < 0 := by
  have hpos := h.delta_pos
  have heq : totalUnstakeDelta w = (-w.stakeDelta).toNat := rfl
  omega

theorem Decided.takenOff_of_notUnstaked {signers}
    (hd : Decided accounts i j w account d r v share) (hs : w.StakesSound rt)
    (h : NotUnstaked signers w w')
    (htarget : v.activeBalance ≤ share ∨ share < v.activeBalance) : TakenOff rt w w' j none where
  delta_neg := hd.delta_neg
  split := by
    rw [h.state_eq]
    exact fun hlt ↦ absurd hlt (lt_irrefl _)
  target := by
    refine ⟨v, v, share, hd.validator, hd.share_eq, by rw [h.state_eq]; exact hd.validator, rfl, ?_⟩
    rcases htarget with honTarget | habove
    · exact .inl ⟨honTarget, rfl⟩
    · exact .inr (by omega)
  stakes_sound := h.stakesSound hs
  min_eq := by rw [h.state_eq]
  left_le := totalUnstakeDelta_le_of_eq h.state_eq
    (h.guarded_le .reserve (Chain.guarded_of_not_canSign rfl))
  lt_add := by
    have hpos := hd.delta_pos
    rw [Option.getD_none]
    omega

/-- A whole account is taken if less than twice the minimal stake would be left of it. -/
theorem Decided.takenOff_of_whole {signers} (hd : Decided accounts i j w account d r v share)
    (hs : w.StakesSound rt)
    (h : UnstakedWhole signers false accounts.stakeAccount i j w w' account d r v)
    (habove : share < v.activeBalance)
    (hrest : r.lastUpdateDelegatedLamports - unstakeAmount w v share
      < 2 * w.state.stakeSystem.minStake) :
    TakenOff rt w w' j (some r.lastUpdateDelegatedLamports) where
  delta_neg := hd.delta_neg
  split := by
    rw [h.records_eq, List.length_set]
    exact fun hlt ↦ absurd hlt (lt_irrefl _)
  target := by
    obtain ⟨v', hv', hactive⟩ := h.exists_validator
    refine ⟨v, v', share, hd.validator, hd.share_eq, hv', hactive, .inr ?_⟩
    rw [unstakeAmount] at hrest
    omega
  stakes_sound := h.stakesSound hs
  min_eq := by
    obtain ⟨_, _, _, hstate⟩ := h.state_eq
    rw [hstate]
  left_le := totalUnstakeDelta_le_of_unstaked h.toUnstaked
    (h.guarded_le .reserve (Chain.guarded_of_not_canSign rfl))
  lt_add := by
    rw [unstakeAmount] at hrest
    rw [Option.getD_some]
    omega

theorem Decided.takenOff_of_part (hd : Decided accounts i j w account d r v share)
    (hs : w.StakesSound rt) (hmin : 0 < w.state.stakeSystem.minStake)
    (h : UnstakedSplit rt false accounts.stakeAccount accounts.splitStakeAccount
      accounts.splitStakeRentPayer i j w w' account d r v (unstakeAmount w v share) topUp)
    (habove : share < v.activeBalance) :
    TakenOff rt w w' j (some (unstakeAmount w v share)) where
  delta_neg := hd.delta_neg
  split := by
    have hneg := hd.delta_neg
    have heq : totalUnstakeDelta w = (-w.stakeDelta).toNat := rfl
    refine fun _ ↦ ⟨_, rfl, h.split_pos, ?_⟩
    rw [unstakeAmount]
    omega
  target := by
    obtain ⟨v', hv', hactive⟩ := h.exists_validator
    refine ⟨v, v', share, hd.validator, hd.share_eq, hv', hactive, .inr ?_⟩
    rw [unstakeAmount] at hactive
    omega
  stakes_sound := h.stakesSound hs
  min_eq := by
    obtain ⟨_, _, _, hstate⟩ := h.state_eq
    rw [hstate]
  left_le := by
    refine totalUnstakeDelta_le_of_unstaked h.toUnstaked ?_
    have hl := h.lamports_eq .reserve
    have hsrc : accounts.stakeAccount ≠ .reserve :=
      hs.ne (Option.ne_none_iff_exists'.mpr ⟨_, h.account_eq⟩) rfl
    rw [only_of_ne (Chain.ne_of_not_canSign rfl h.payer_unused), only_of_ne hsrc.symm] at hl
    omega
  lt_add := by
    rw [Option.getD_some, unstakeAmount]
    omega

theorem process_takenOff (hs : w.StakesSound rt) (hmin : 0 < w.state.stakeSystem.minStake)
    (hp : accounts.process rt i j w = .ok (w', e)) : TakenOff rt w w' j e.unstakedAmount := by
  obtain ⟨account, d, r, v, share, hd, houtcome⟩ := process_cases hp (hs.funded _)
  generalize e.unstakedAmount = amount at houtcome
  cases houtcome with
  | onTarget honTarget h => exact hd.takenOff_of_notUnstaked hs h (.inl honTarget)
  | repeated habove _ _ h => exact hd.takenOff_of_notUnstaked hs h (.inr habove)
  | whole habove hrest h => exact hd.takenOff_of_whole hs h habove hrest
  | part habove _ _ h => exact hd.takenOff_of_part hs hmin h habove

/-- Nothing succeeds once there is nothing to unstake. -/
theorem process_ne_ok (hs : w.StakesSound rt) (h : 0 ≤ w.stakeDelta) {p : World × _} :
    accounts.process rt i j w ≠ .ok p := by
  intro hp
  obtain ⟨w', e⟩ := p
  obtain ⟨account, d, r, v, share, hd, -⟩ := process_cases hp (hs.funded _)
  exact absurd hd.delta_neg (Int.not_lt.mpr h)

end

end DeactivateStake

/-- A step takes what it unstakes off the delta. -/
theorem deltaUnstaking_step {l : Label} {m : ℕ} (hm : 0 < m)
    (h : w.StakesSound rt ∧ w.state.stakeSystem.minStake = m)
    (hs : (deltaUnstaking rt).step w l w') :
    (w'.StakesSound rt ∧ w'.state.stakeSystem.minStake = m) ∧
      DeactivateStake.totalUnstakeDelta w'
        ≤ DeactivateStake.totalUnstakeDelta w - l.unstaked ∧
      (l.unstaked = 0 ∨ 0 < DeactivateStake.totalUnstakeDelta w ∧
        l.unstaked ≤ DeactivateStake.totalUnstakeDelta w + (2 * m - 1)) := by
  obtain ⟨hsound, hmin⟩ := h
  obtain ⟨hs, hl⟩ := hs
  rcases hl with hl | ⟨x, rfl⟩
  · obtain ⟨accounts, i, j, event, rfl⟩ := exists_of_isDeactivateStake hl
    obtain ⟨e, hp, rfl⟩ := reporting_eq_ok hs
    have htaken := DeactivateStake.process_takenOff hsound (by omega) hp
    have hlt := htaken.lt_add
    have hpos : 0 < DeactivateStake.totalUnstakeDelta w := by
      have hneg := htaken.delta_neg
      have heq : DeactivateStake.totalUnstakeDelta w = (-w.stakeDelta).toNat := rfl
      omega
    exact ⟨⟨htaken.stakes_sound, htaken.min_eq.trans hmin⟩, htaken.left_le,
      .inr ⟨hpos, by rw [Label.unstaked]; omega⟩⟩
  · obtain ⟨hx, hstate⟩ := hs
    have hreserve := (External.pool_le hx hsound).1 .reserve rfl rfl
    exact ⟨⟨External.stakesSound hx hsound, by rw [hstate]; exact hmin⟩,
      DeactivateStake.totalUnstakeDelta_le_of_eq hstate hreserve, .inl rfl⟩

/-- However often `deactivate_stake` is called, all it unstakes is less than twice the minimal stake
beyond the delta there was. No call stops at the assertion, none succeeds once the delta is worked
off, and every one that succeeds stays within what is left of it. -/
theorem unstaking_within_delta (hs : w₀.StakesSound rt)
    (hmin : State.minStakeLowerLimit ≤ w₀.state.stakeSystem.minStake) (hneg : w₀.stakeDelta < 0)
    (hr : (deltaUnstaking rt).Run w₀ ls w) :
    (ls.map Label.unstaked).sum < -w₀.stakeDelta + 2 * w₀.state.stakeSystem.minStake ∧
    ∀ accounts i j,
      exec rt w (.deactivateStake accounts i j) ≠ .error (.assertion .splitAmount) ∧
      (0 ≤ w.stakeDelta → ∀ p, exec rt w (.deactivateStake accounts i j) ≠ .ok p) ∧
      ∀ w' e, exec rt w (.deactivateStake accounts i j) = .ok (w', .deactivateStake e) →
        UnstakedWithin w w' j e.unstakedAmount := by
  have hpos : 0 < w₀.state.stakeSystem.minStake := lt_of_lt_of_le (by decide) hmin
  obtain ⟨⟨hsound, heq⟩, hsum, -⟩ := hr.sum_le_add
    (P := fun w ↦ w.StakesSound rt ∧ w.state.stakeSystem.minStake = w₀.state.stakeSystem.minStake)
    (φ := DeactivateStake.totalUnstakeDelta) (f := Label.unstaked) ⟨hs, rfl⟩
    fun _ _ _ ↦ deltaUnstaking_step hpos
  refine ⟨?_, fun accounts i j ↦ ⟨?_, ?_, ?_⟩⟩
  · have hdelta : DeactivateStake.totalUnstakeDelta w₀ = (-w₀.stakeDelta).toNat := rfl
    omega
  · intro he
    rw [exec, reporting, bind_eq_error] at he
    rcases he with he | ⟨_, -, he⟩
    · exact DeactivateStake.process_avoids (by omega) _ he rfl
    · exact pure_ne_error he
  · rintro hdone ⟨w', e⟩ he
    obtain ⟨event, hp, -⟩ := reporting_eq_ok he
    exact DeactivateStake.process_ne_ok hsound hdone hp
  · intro w' e he
    obtain ⟨event, hp, hevent⟩ := reporting_eq_ok he
    obtain rfl : event = e := by injection hevent
    exact (DeactivateStake.process_takenOff hsound (by omega) hp).toUnstakedWithin

end

/-! ## Two validators -/

namespace Sample

def secondVote : Pubkey := .external 21

/-- Two validators with the same score, and lamports to stake. -/
def pairing : List Action := [
  .run (.addValidator ⟨user, vote, .duplicationFlag vote, user⟩ 100),
  .run (.addValidator ⟨user, secondVote, .duplicationFlag secondVote, user⟩ 100),
  .run (.deposit ⟨user, msolAccount⟩ 400000000)]

def paired : List Label × World :=
  (replay runtime (fun _ _ ↦ true) fresh pairing).get (by decide +kernel)

theorem paired_reachable : (marinade runtime).Reachable paired.2 :=
  (run_of_replay (Option.some_get _).symm).reachable fresh_fresh

/-- Each gets its share. -/
def spreading : List Action := [
  .run (.stakeReserve ⟨vote, .external 30, user⟩ 0),
  .run (.stakeReserve ⟨secondVote, .external 31, user⟩ 1)]

def spread : List Label × World :=
  (replay runtime (fun _ l ↦ l.isStakeReserve) paired.2 spreading).get (by decide +kernel)

theorem spread_run : (reserveStaking runtime).Run paired.2 spread.1 spread.2 :=
  restrict_run_of_replay (fun _ _ h ↦ h) rfl (Option.some_get _).symm

end Sample

/-- Two calls stake all there is. -/
theorem staking_within_delta_sample :
    (Sample.spread.1.map Label.staked).sum = 400000000 ∧
    Sample.spread.2.stakeDelta
      = Sample.paired.2.stakeDelta - (Sample.spread.1.map Label.staked).sum :=
  ⟨by decide +kernel,
    (staking_within_delta Sample.paired_reachable (by decide +kernel) Sample.spread_run).2.1⟩

namespace Sample

/-- The first validator loses its score, and the user orders a delayed unstake. -/
def shifting : List Action := pairing ++ spreading ++ [
  .run (.setValidatorScore ⟨user⟩ 0 vote 0),
  .run (.orderUnstake ⟨msolAccount, user, .external 40⟩ 70000000),
  .tick (startOf 2)]

def shifted : List Label × World :=
  (replay runtime (fun _ _ ↦ true) fresh shifting).get (by decide +kernel)

theorem shifted_reachable : (marinade runtime).Reachable shifted.2 :=
  (run_of_replay (Option.some_get _).symm).reachable fresh_fresh

/-- What is wanted is taken from the first validator. -/
def reducing : List Action := [
  .run (.deactivateStake ⟨.external 30, .external 32, user⟩ 0 0)]

def reduced : List Label × World :=
  (replay runtime (fun _ l ↦ l.isDeactivateStake) shifted.2 reducing).get (by decide +kernel)

theorem reduced_run : (deltaUnstaking runtime).Run shifted.2 reduced.1 reduced.2 :=
  restrict_run_of_replay (fun _ _ h ↦ .inl h) rfl (Option.some_get _).symm

/-- The second validator has much less than its target, and nothing is unstaked. -/
def sparing : Instruction :=
  .deactivateStake ⟨.external 31, .external 32, user⟩ 1 1

theorem sparing_isSome : (exec runtime shifted.2 sparing).toOption.isSome = true := by
  decide +kernel

end Sample

/-- A ticket is worked off with one call. -/
theorem unstaking_within_delta_sample :
    (Sample.reduced.1.map Label.unstaked).sum = 70000000 ∧
    (Sample.reduced.1.map Label.unstaked).sum
      < -Sample.shifted.2.stakeDelta + 2 * Sample.shifted.2.state.stakeSystem.minStake :=
  ⟨by decide +kernel,
    (unstaking_within_delta (wellFormed_of_reachable Sample.shifted_reachable).stakes_sound
      (by decide +kernel) (by decide +kernel) Sample.reduced_run).1⟩

/-- After a call that succeeds without unstaking anything, the validator still has much less than
its target. -/
theorem validator_below_target : ∃ w w' e v' share, (marinade Sample.runtime).Reachable w ∧
    w.state.delinquentUpgrader = .done ∧
    State.minStakeLowerLimit ≤ w.state.stakeSystem.minStake ∧ w.stakeDelta < 0 ∧
    exec Sample.runtime w Sample.sparing = .ok (w', e) ∧
    w'.state.validatorSystem.records[1]? = some v' ∧
    w.state.validatorSystem.validatorStakeTarget v'
      (w.state.validatorSystem.totalActiveBalance - DeactivateStake.totalUnstakeDelta w)
        = .ok share ∧
    v'.activeBalance + 2 * w.state.stakeSystem.minStake ≤ share :=
  ⟨Sample.shifted.2, _, _, ⟨Sample.secondVote, 200000000, 100, 1, 0⟩, 330000000,
    Sample.shifted_reachable, by decide +kernel, by decide +kernel, by decide +kernel,
    eq_ok_get Sample.sparing_isSome, by decide +kernel, by decide +kernel, by decide +kernel⟩

end Marinade
