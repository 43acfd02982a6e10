import Marinade.Invariants.Upgrade

/-!
# The iteration over the stake records

The first visit of a stake record gives it a status and counts it: in the number of visited records,
in their total and for its validator. Later updates of a visited record and deposits keep the three
counts in line. The removal of a record that was not visited has nothing to keep in line.

The removal of one that was visited and then deactivated from outside would have to, but does not.
-/

open Foundation Foundation.Ledger

namespace Marinade

/-- What the record adds to the number of visited records. -/
def StakeRecord.visits (r : StakeRecord) : ℕ :=
  if r.lastUpdateStatus = .unknown then 0 else 1

/-- What the records of accounts delegated to `vote` have of `g`. -/
def Chain.delegatedTo (c : Chain) (vote : Pubkey) (g : StakeRecord → ℕ) (r : StakeRecord) : ℕ :=
  if c.voterOf r.stakeAccount = some vote then g r else 0

/-- What was counted for a validator, for one vote address. -/
def ValidatorRecord.upgraderOf (vote : Pubkey) (v : ValidatorRecord) : ℕ :=
  only v.validatorAccount v.delinquentUpgraderActiveBalance vote

/-- The counts of the iteration are those of the visited records. -/
structure World.Visits (w : World) (visitedCount totalActiveBalance : ℕ) : Prop where
  count_eq : visitedCount = total (·.visits) w.state.stakeSystem.records
  total_eq : totalActiveBalance = total UpdateActive.counted w.state.stakeSystem.records
  upgrader_eq : ∀ vote, total (·.upgraderOf vote) w.state.validatorSystem.records
    = total (w.delegatedTo vote UpdateActive.counted) w.state.stakeSystem.records
  sum_eq : total (·.delinquentUpgraderActiveBalance) w.state.validatorSystem.records
    = totalActiveBalance
  status : ∀ r ∈ w.state.stakeSystem.records, r.lastUpdateStatus ≠ .deactivating

/-- How far the upgrade is: the iteration with these counts goes on, or it is complete and the total
is what is booked as active. -/
def World.CountsTo (w : World) (visitedCount totalActiveBalance totalDelinquentBalance : ℕ) :
    Prop :=
  w.state.delinquentUpgrader
      = .iteratingStakes visitedCount totalActiveBalance totalDelinquentBalance ∨
    w.state.delinquentUpgrader = .iteratingValidators 0 totalDelinquentBalance ∧
      visitedCount = w.state.stakeSystem.records.length ∧
      totalActiveBalance = w.state.validatorSystem.totalActiveBalance

/-- The step is no `update_deactivated` of a record that was visited as active. -/
def World.sparesVisited (w : World) : Label → Bool
  | .instruction (.updateDeactivated _ i _) _ =>
    w.state.stakeSystem.records[i]?.all fun r ↦ r.lastUpdateStatus ≠ .active
  | _ => true

section

variable {rt : Runtime} {c c' : Chain} {w w' : World} {l : Label} {vote vote' : Pubkey}
  {g : StakeRecord → ℕ} {r : StakeRecord} {v : ValidatorRecord} {i : Instruction} {e : Event}
  {olds news rest : List StakeRecord} {n n' t t' k k' : ℕ}

/-! ## Sums by validator -/

/-- What a record adds goes to the validator its account is delegated to. -/
theorem Chain.delegatedTo_eq (h : c.voterOf r.stakeAccount = some vote') :
    c.delegatedTo vote g r = only vote' (g r) vote := by
  refine if_congr ?_ rfl rfl
  rw [h, Option.some.injEq]
  exact eq_comm

theorem Chain.delegatedTo_congr
    (h : c'.voterOf r.stakeAccount = c.voterOf r.stakeAccount) :
    c'.delegatedTo vote g r = c.delegatedTo vote g r := by
  rw [delegatedTo, delegatedTo, h]

/-- A sum by validator changes by what the records on either side of a move contribute. -/
theorem Moved.total_delegatedTo (hm : Moved rt w w' olds news rest) (hr : Recorded w)
    (vote : Pubkey) (g : StakeRecord → ℕ) :
    total (w'.delegatedTo vote g) w'.state.stakeSystem.records
        + total (w.delegatedTo vote g) olds
      = total (w.delegatedTo vote g) w.state.stakeSystem.records
        + total (w'.delegatedTo vote g) news :=
  hm.replaced.total_eq fun _ hmem ↦
    Chain.delegatedTo_congr (Chain.voterOf_congr (hm.stakes_rest hr hmem))

/-- The sum for one vote address is that of its validator. -/
theorem Registered.total_only_eq (h : Registered w)
    (hv : v ∈ w.state.validatorSystem.records) (f : ValidatorRecord → ℕ) :
    total (fun u ↦ only u.validatorAccount (f u) v.validatorAccount)
      w.state.validatorSystem.records = f v := by
  rw [h.distinct.total_eq hv fun u hu ↦ only_of_ne (Ne.symm hu) _, only_self]

/-! ## The counts -/

/-- A sum over a list of validators with the same balances. -/
theorem Untouched.total_eq_of_balances (h : Untouched w w') (f : Pubkey × ℕ × ℕ → ℕ) :
    total (fun v ↦ f v.balances) w'.state.validatorSystem.records
      = total (fun v ↦ f v.balances) w.state.validatorSystem.records := by
  have hmap := congrArg (fun l ↦ (l.map f).sum) h.balances_eq
  simp only [List.map_map] at hmap
  exact hmap

theorem Untouched.keys_eq (h : Untouched w w') :
    w'.state.validatorSystem.records.map (·.validatorAccount)
      = w.state.validatorSystem.records.map (·.validatorAccount) := by
  have hkeys := congrArg (List.map Prod.fst) h.balances_eq
  rwa [List.map_map, List.map_map] at hkeys

/-- A step that has nothing to do with the upgrade keeps the counts. -/
theorem World.Visits.of_untouched (hv : w.Visits n t) (h : Untouched w w') : w'.Visits n t where
  count_eq := by
    rw [h.records_eq]
    exact hv.count_eq
  total_eq := by
    rw [h.records_eq]
    exact hv.total_eq
  upgrader_eq vote := by
    rw [h.records_eq, total_congr fun r hr ↦ Chain.delegatedTo_congr (h.voters_eq r hr),
      ← hv.upgrader_eq]
    exact h.total_eq_of_balances fun b ↦ only b.1 b.2.2 vote
  sum_eq := (h.total_eq_of_balances fun b ↦ b.2.2).trans hv.sum_eq
  status := by
    rw [h.records_eq]
    exact hv.status

/-- The counts change by what the records on either side of a move contribute. -/
theorem World.Visits.of_moved (hv : w.Visits n t) (hm : Moved rt w w' olds news rest)
    (hr : Recorded w) (hcount : n' + total (·.visits) olds = n + total (·.visits) news)
    (htotal : t' + total UpdateActive.counted olds = t + total UpdateActive.counted news)
    (hupgrader : ∀ vote, total (·.upgraderOf vote) w'.state.validatorSystem.records
        + total (w.delegatedTo vote UpdateActive.counted) olds
      = total (·.upgraderOf vote) w.state.validatorSystem.records
        + total (w'.delegatedTo vote UpdateActive.counted) news)
    (hsum : total (·.delinquentUpgraderActiveBalance) w'.state.validatorSystem.records
        + total UpdateActive.counted olds
      = total (·.delinquentUpgraderActiveBalance) w.state.validatorSystem.records
        + total UpdateActive.counted news)
    (hstatus : ∀ r ∈ news, r.lastUpdateStatus ≠ .deactivating) : w'.Visits n' t' where
  count_eq := by
    have hsum := hm.replaced.total_eq (f := (·.visits)) (g := (·.visits)) fun _ _ ↦ rfl
    have hold := hv.count_eq
    omega
  total_eq := by
    have hsum := hm.replaced.total_eq (f := UpdateActive.counted) (g := UpdateActive.counted)
      fun _ _ ↦ rfl
    have hold := hv.total_eq
    omega
  upgrader_eq vote := by
    have hsum := hm.total_delegatedTo hr vote UpdateActive.counted
    have hold := hv.upgrader_eq vote
    have hnew := hupgrader vote
    omega
  sum_eq := by
    have hold := hv.sum_eq
    omega
  status r hmem := by
    rcases hm.replaced.mem_iff.mp hmem with hmem | hmem
    · exact hstatus r hmem
    · exact hv.status r (hm.replaced.mem_of_rest hmem)

/-- What the check for progression makes of the counts. -/
theorem World.countsTo_of_progressed
    (h : UpdateCommon.Progressed w.state.stakeSystem.records.length
      w.state.validatorSystem.totalActiveBalance (.iteratingStakes n t k)
      w.state.delinquentUpgrader) : w.CountsTo n t k := by
  by_cases hn : n = w.state.stakeSystem.records.length
  · obtain ⟨ht, hu⟩ := (if_pos hn).mp h
    exact .inr ⟨hu, hn, ht⟩
  · exact .inl ((if_neg hn).mp h)

/-- Once all records are counted, all have a status. -/
theorem World.Visits.known (hv : w.Visits n t) (hn : n = w.state.stakeSystem.records.length) :
    ∀ r ∈ w.state.stakeSystem.records, r.lastUpdateStatus ≠ .unknown := by
  have hle : ∀ r ∈ w.state.stakeSystem.records, r.visits ≤ 1 := by
    intro r _
    unfold StakeRecord.visits
    split <;> omega
  have hall := eq_of_total_eq hle (by rw [total_one, ← hv.count_eq, hn])
  intro r hr hunknown
  have hone := hall r hr
  rw [StakeRecord.visits, if_pos hunknown] at hone
  cases hone

/-! ## Every step -/

private theorem DepositStakeAccount.Spec.visits {accounts j e account d v v'}
    (h : DepositStakeAccount.Spec accounts j w w' e account d v v') (hs : w.StakesSound rt)
    (hr : Recorded w) (hu : w.state.delinquentUpgrader = .iteratingStakes n t k)
    (hv : w.Visits n t) : w'.Visits (n + 1) (t + d.stake) := by
  obtain ⟨⟨up, hv'⟩, -, hup⟩ := maintainUpgrader_spec h.upgrade
  rw [hu] at hup
  refine hv.of_moved (h.moved hs) hr rfl rfl (fun vote ↦ ?_) ?_ ?_
  · have hset := total_only_set (f := (·.delinquentUpgraderActiveBalance)) (x := 0)
      (y := d.stake) h.validator (by rw [hv']) hup vote
    rw [only_zero, Nat.add_zero, ← h.validators_eq] at hset
    rw [total_cons, total_nil, total_nil, Chain.delegatedTo_eq h.voterOf_eq]
    exact hset
  · have hset := total_set (g := (·.delinquentUpgraderActiveBalance)) h.validator v'
    rw [← h.validators_eq] at hset
    have hnew : total UpdateActive.counted
        [StakeRecord.new accounts.stakeAccount d.stake w.clock false true] = d.stake := rfl
    simp only [DelinquentUpgraderState.depositedFor] at hup
    rw [total_nil, hnew]
    omega
  · simp [StakeRecord.new]

private theorem UpdateActive.Spec.visits {accounts i j account d v' extra fee₁ fee₂}
    (h : UpdateActive.Spec accounts i j w w' account d r v v' extra fee₁ fee₂)
    (hs : w.StakesSound rt) (hr : Recorded w)
    (hu : w.state.delinquentUpgrader = .iteratingStakes n t k) (hv : w.Visits n t) :
    ∃ n' t', w'.Visits n' t' ∧ w'.CountsTo n' t' k := by
  obtain ⟨u, hvisited, hprogressed⟩ := h.upgrader
  rw [hu] at hvisited
  obtain ⟨t', rfl, htotal, hup⟩ := hvisited
  refine ⟨_, t', hv.of_moved (h.moved hs (hr.listed r (List.mem_of_getElem? h.record))) hr ?_ ?_
    (fun vote ↦ ?_) ?_ ?_, World.countsTo_of_progressed hprogressed⟩
  · rw [total_cons, total_nil, total_cons, total_nil, StakeRecord.visits, StakeRecord.visits]
    by_cases hunknown : r.lastUpdateStatus = .unknown
    · simp [hunknown]
    · simp [hunknown]
  · exact htotal
  · have hset := total_only_set (f := (·.delinquentUpgraderActiveBalance)) h.validator
      (by rw [h.validator_eq]) hup vote
    rw [← h.validators_eq] at hset
    have hvoter : w'.voterOf r.stakeAccount = some v.validatorAccount := by
      rw [← h.voterOf_eq]
      exact Chain.voterOf_congr (by rw [h.frame])
    rw [total_cons, total_nil, total_cons, total_nil, Chain.delegatedTo_eq h.voterOf_eq,
      Chain.delegatedTo_eq (by exact hvoter)]
    exact hset
  · have hset := total_set (g := (·.delinquentUpgraderActiveBalance)) h.validator v'
    rw [← h.validators_eq] at hset
    have hnew : total UpdateActive.counted [{ r with
        lastUpdateStatus := .active
        lastUpdateEpoch := w.clock.epoch
        lastUpdateDelegatedLamports := d.stake }] = d.stake := rfl
    rw [total_cons, total_nil, hnew]
    omega
  · simp

/-- A record that was not visited leaves no trace in the counts. -/
private theorem UpdateDeactivated.Spec.visits
    {accounts i j account d r' s₁ s₂ fee delinquent}
    (h : UpdateDeactivated.Spec accounts i j w w' account d r r' v s₁ s₂ fee delinquent)
    (hs : w.StakesSound rt) (hr : Recorded w)
    (hu : w.state.delinquentUpgrader = .iteratingStakes n t k) (hv : w.Visits n t)
    (hactive : r.lastUpdateStatus ≠ .active) :
    w'.Visits n t ∧ w'.CountsTo n t (k + delinquent) := by
  have hprogressed := h.totals_eq.progressed
  rw [hu] at hprogressed
  have hunknown : r.lastUpdateStatus = .unknown := by
    have hstatus := hv.status r (List.mem_of_getElem? h.record)
    cases hr : r.lastUpdateStatus with
    | unknown => rfl
    | active => exact absurd hr hactive
    | deactivating => exact absurd hr hstatus
  refine ⟨hv.of_moved (h.moved hs) hr ?_ ?_ (fun vote ↦ ?_) ?_ (by simp),
    World.countsTo_of_progressed hprogressed⟩
  · simp [StakeRecord.visits, hunknown]
  · simp [UpdateActive.counted, hunknown]
  · rw [h.validators_eq, if_neg hactive]
    simp [Chain.delegatedTo, UpdateActive.counted, hunknown]
  · rw [h.validators_eq, if_neg hactive]
    simp [UpdateActive.counted, hunknown]

/-- As long as no visited record is removed, every step of the iteration keeps the counts. -/
theorem World.Visits.step (hv : w.Visits n t) (hw : Grounded rt w)
    (hu : w.state.delinquentUpgrader = .iteratingStakes n t k) (hl : w.sparesVisited l = true)
    (hstep : Step rt w l w') : ∃ n' t' k', w'.Visits n' t' ∧ w'.CountsTo n' t' k' := by
  have hs := hw.wellFormed.stakes_sound
  have hr := hw.recorded
  cases l with
  | external x =>
    have huntouched := External.untouched hstep.1 hstep.2 hr
    exact ⟨n, t, k, hv.of_untouched huntouched, .inl (huntouched.upgrader_eq.trans hu)⟩
  | instruction i e =>
    cases (executed_of_exec hstep hs).upgrading (by simp [hu]) with
    | untouched h =>
      exact ⟨n, t, k, hv.of_untouched h, .inl (h.upgrader_eq.trans hu)⟩
    | depositStakeAccount h =>
      obtain ⟨-, hphase, -⟩ := DepositStakeAccount.maintainUpgrader_spec h.upgrade
      rw [hu] at hphase
      exact ⟨_, _, k, h.visits hs hr hu hv, .inl hphase⟩
    | updateActive h =>
      obtain ⟨n', t', hv', hcounts⟩ := h.visits hs hr hu hv
      exact ⟨n', t', k, hv', hcounts⟩
    | updateDeactivated h =>
      have hactive := hl
      rw [World.sparesVisited, h.record, Option.all_some, decide_eq_true_iff] at hactive
      obtain ⟨hv', hcounts⟩ := h.visits hs hr hu hv hactive
      exact ⟨n, t, _, hv', hcounts⟩
    | finalizeDelinquentUpgrade h =>
      obtain ⟨-, _, _, _, _, _, hphase, -⟩ := FinalizeDelinquentUpgrade.process_spec h
      rw [hu] at hphase
      cases hphase

end

end Marinade
