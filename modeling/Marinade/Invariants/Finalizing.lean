import Marinade.Invariants.Visits

/-!
# The iteration over the validators

The balance of each validator is replaced by what was counted for it, a few validators in each call.
Between two calls other instructions go on. For a validator the iteration has passed they change the
balance, for the others both the balance and what was counted, so that the difference, which the
next calls take off, stays what it was.

Only the detection of a delinquent account does not care how far the iteration is.
-/

open Foundation Foundation.Ledger

namespace Marinade

/-- The iteration has passed the first `visitedCount` validators. What was counted for the others is
still beside their balance, and they exceed it by `left` together. -/
structure Finalizing (active : Pubkey → ℕ) (validators : List ValidatorRecord)
    (visitedCount left : ℕ) : Prop where
  count_le : visitedCount ≤ validators.length
  settled : ∀ j v, validators[j]? = some v → j < visitedCount →
    v.delinquentUpgraderActiveBalance = 0 ∧ v.activeBalance = active v.validatorAccount
  pending : ∀ j v, validators[j]? = some v → visitedCount ≤ j →
    v.delinquentUpgraderActiveBalance = active v.validatorAccount ∧
      v.delinquentUpgraderActiveBalance ≤ v.activeBalance
  left_eq : total (fun v ↦ v.activeBalance - v.delinquentUpgraderActiveBalance)
    (validators.drop visitedCount) = left

/-- What the active records delegated to a validator hold. -/
def World.activeOf (w : World) (vote : Pubkey) : ℕ :=
  total (w.activeFor vote) w.state.stakeSystem.records

/-- The step finds no delinquent account of a validator that the iteration has not reached, unless
its record is empty. -/
def World.sparesPending (w : World) : Label → Bool
  | .instruction (.updateDeactivated _ i j) _ =>
    match w.state.delinquentUpgrader with
    | .iteratingValidators visitedCount _ => j < visitedCount ∨
      w.state.stakeSystem.records[i]?.all fun r ↦ r.activeAmount = 0
    | _ => true
  | _ => true

section

variable {rt : Runtime} {w w' : World} {s : State} {l : Label} {active active' : Pubkey → ℕ}
  {validators validators' : List ValidatorRecord} {vs vs' : ValidatorSystem}
  {v v' : ValidatorRecord} {r : StakeRecord} {n left left' i j x y m : ℕ}

namespace Finalizing

/-! ## Steps on the list -/

/-- The same balances. -/
theorem of_map_eq (h : Finalizing active validators n left)
    (hmap : validators'.map (·.balances) = validators.map (·.balances)) :
    Finalizing active validators' n left := by
  have hget : ∀ {j : ℕ} {v' : ValidatorRecord}, validators'[j]? = some v' →
      ∃ v : ValidatorRecord, validators[j]? = some v ∧ v.balances = v'.balances := by
    intro j v' hv'
    have hj := congrArg (·[j]?) hmap
    simp only [List.getElem?_map, hv', Option.map_some] at hj
    simpa using hj.symm
  refine ⟨?_, ?_, ?_, ?_⟩
  · have hlength := congrArg List.length hmap
    rw [List.length_map, List.length_map] at hlength
    rw [hlength]
    exact h.count_le
  · intro j v' hv' hj
    obtain ⟨v, hv, hb⟩ := hget hv'
    obtain ⟨hup, hbalance⟩ := h.settled j v hv hj
    simp only [ValidatorRecord.balances, Prod.mk.injEq] at hb
    rw [← hb.1, ← hb.2.1, ← hb.2.2]
    exact ⟨hup, hbalance⟩
  · intro j v' hv' hj
    obtain ⟨v, hv, hb⟩ := hget hv'
    obtain ⟨hup, hbalance⟩ := h.pending j v hv hj
    simp only [ValidatorRecord.balances, Prod.mk.injEq] at hb
    rw [← hb.1, ← hb.2.1, ← hb.2.2]
    exact ⟨hup, hbalance⟩
  · have hdrop := congrArg (fun l ↦ ((l.drop n).map fun b ↦ b.2.1 - b.2.2).sum) hmap
    simp only [← List.map_drop, List.map_map] at hdrop
    exact hdrop.trans h.left_eq

/-- One validator loses `x` of what is active and gets `y`. What was counted for it follows, unless
the iteration has passed it. -/
theorem of_set (h : Finalizing active validators n left)
    (hd : KeysDistinct (·.validatorAccount) validators) (hv : validators[j]? = some v)
    (hkey : v'.validatorAccount = v.validatorAccount)
    (hactive : ∀ vote, active' vote + only v.validatorAccount x vote
      = active vote + only v.validatorAccount y vote)
    (hbalance : v'.activeBalance + x = v.activeBalance + y)
    (hupgrader : v'.delinquentUpgraderActiveBalance + (if n ≤ j then x else 0)
      = v.delinquentUpgraderActiveBalance + if n ≤ j then y else 0) :
    Finalizing active' (validators.set j v') n left := by
  have hself := hactive v.validatorAccount
  rw [only_self, only_self] at hself
  -- the others have other addresses, for which nothing changes
  have hother : ∀ {k u}, (validators.set j v')[k]? = some u → k ≠ j →
      validators[k]? = some u ∧ active' u.validatorAccount = active u.validatorAccount := by
    intro k u hu hk
    rw [List.getElem?_set_ne (Ne.symm hk)] at hu
    refine ⟨hu, ?_⟩
    have hne : u.validatorAccount ≠ v.validatorAccount := by
      intro heq
      obtain ⟨hk', rfl⟩ := List.getElem?_eq_some_iff.mp hu
      obtain ⟨hj', rfl⟩ := List.getElem?_eq_some_iff.mp hv
      exact hk ((List.nodup_iff_injective_get.mp hd |>.eq_iff
        (a := ⟨k, by simpa using hk'⟩) (b := ⟨j, by simpa using hj'⟩)).mp (by simpa using heq)
          |> Fin.val_eq_of_eq)
    have hvote := hactive u.validatorAccount
    rw [only_of_ne hne, only_of_ne hne] at hvote
    exact hvote
  have hset : ∀ {u}, (validators.set j v')[j]? = some u → u = v' := by
    intro u hu
    obtain ⟨hj', rfl⟩ := List.getElem?_eq_some_iff.mp hu
    simp
  refine ⟨by rw [List.length_set]; exact h.count_le, ?_, ?_, ?_⟩
  · intro k u hu hk
    by_cases hkj : k = j
    · subst hkj
      obtain rfl := hset hu
      obtain ⟨hup, hact⟩ := h.settled k v hv hk
      rw [if_neg (by omega), if_neg (by omega)] at hupgrader
      rw [hkey]
      exact ⟨by omega, by omega⟩
    · obtain ⟨hu', hact⟩ := hother hu hkj
      rw [hact]
      exact h.settled k u hu' hk
  · intro k u hu hk
    by_cases hkj : k = j
    · subst hkj
      obtain rfl := hset hu
      obtain ⟨hup, hle⟩ := h.pending k v hv hk
      rw [if_pos hk, if_pos hk] at hupgrader
      rw [hkey]
      exact ⟨by omega, by omega⟩
    · obtain ⟨hu', hact⟩ := hother hu hkj
      rw [hact]
      exact h.pending k u hu' hk
  · by_cases hj : n ≤ j
    · have hdrop := total_drop_set
        (g := fun v ↦ v.activeBalance - v.delinquentUpgraderActiveBalance) hv hj v'
      have hleft := h.left_eq
      obtain ⟨-, hle⟩ := h.pending j v hv hj
      rw [if_pos hj, if_pos hj] at hupgrader
      omega
    · rw [total_drop_set_of_lt (by omega)]
      exact h.left_eq

/-- A round settles the next validator. -/
theorem visit (h : Finalizing active vs.records n left)
    (hvisit : FinalizeDelinquentUpgrade.visit vs n left = .ok (vs', left')) :
    Finalizing active vs'.records (n + 1) left' := by
  obtain ⟨v, hv, hle, hleft, -, hset⟩ := FinalizeDelinquentUpgrade.visit_spec hvisit
  have hn := (List.getElem?_eq_some_iff.mp hv).1
  rw [hset]
  refine ⟨by rw [List.length_set]; omega, ?_, ?_, ?_⟩
  · intro k u hu hk
    by_cases hkn : k = n
    · subst hkn
      rw [List.getElem?_set_self hn, Option.some.injEq] at hu
      subst hu
      exact ⟨rfl, (h.pending k v hv le_rfl).1⟩
    · rw [List.getElem?_set_ne (Ne.symm hkn)] at hu
      exact h.settled k u hu (by omega)
  · intro k u hu hk
    rw [List.getElem?_set_ne (by omega)] at hu
    exact h.pending k u hu (by omega)
  · have hcons := total_drop_eq_cons
      (g := fun v ↦ v.activeBalance - v.delinquentUpgraderActiveBalance) hv
    have hall := h.left_eq
    rw [total_drop_set_of_lt (Nat.lt_add_one n)]
    omega

/-- The next round does not stop. -/
theorem visit_ok (h : Finalizing active vs.records n left) (hn : n < vs.validatorCount) :
    ∃ vs' left', FinalizeDelinquentUpgrade.visit vs n left = .ok (vs', left') := by
  obtain ⟨v, hv⟩ : ∃ v, vs.records[n]? = some v := ⟨_, List.getElem?_eq_getElem hn⟩
  have hget : vs.get n = .ok v := AccountList.get_eq_ok.mpr hv
  obtain ⟨-, hle⟩ := h.pending n v hv le_rfl
  have hcons := total_drop_eq_cons
    (g := fun v ↦ v.activeBalance - v.delinquentUpgraderActiveBalance) hv
  have hleft := h.left_eq
  obtain ⟨list, hset⟩ := AccountList.set_ok_of_get { v with
    activeBalance := v.delinquentUpgraderActiveBalance
    delinquentUpgraderActiveBalance := 0 } hget
  refine ⟨{ vs with validatorList := list },
    left - (v.activeBalance - v.delinquentUpgraderActiveBalance), ?_⟩
  rw [FinalizeDelinquentUpgrade.visit, bind_of_ok hget,
    bind_of_ok (checkedSub_eq_ok.mpr ⟨hle, rfl⟩),
    bind_of_ok (checkedSub_eq_ok.mpr ⟨by omega, rfl⟩)]
  simp only [ValidatorSystem.set]
  rw [hset]
  rfl

/-- However many rounds a call makes, it does not stop. -/
theorem iterate_ok (m : ℕ) (h : Finalizing active vs.records n left) :
    ∃ vs' n' left', FinalizeDelinquentUpgrade.iterate m vs n left = .ok (vs', n', left') ∧
      Finalizing active vs'.records n' left' := by
  induction m generalizing vs n left with
  | zero => exact ⟨vs, n, left, rfl, h⟩
  | succ m ih =>
    rw [FinalizeDelinquentUpgrade.iterate]
    split
    · obtain ⟨vs₁, left₁, hvisit⟩ := h.visit_ok ‹_›
      rw [bind_of_ok hvisit]
      exact ih (h.visit hvisit)
    · exact ⟨vs, n, left, rfl, h⟩

/-- When all validators are settled, nothing is left. -/
theorem left_eq_zero (h : Finalizing active validators n left) (hn : n = validators.length) :
    left = 0 := by
  rw [← h.left_eq, hn, List.drop_length, total_nil]

/-- A call only is refused when the program is paused. -/
theorem process_ok (h : Finalizing active s.validatorSystem.records n left)
    (hu : s.delinquentUpgrader = .iteratingValidators n left) (hp : s.paused = false) (m : ℕ) :
    ∃ s', FinalizeDelinquentUpgrade.process m s = .ok s' := by
  obtain ⟨vs, n', left', hiterate, h'⟩ := h.iterate_ok m
  rw [FinalizeDelinquentUpgrade.process_eq n left hp hu, bind_of_ok hiterate,
    FinalizeDelinquentUpgrade.conclude]
  split
  · rw [bind_of_ok (a := ()) (ensure_eq_ok.mpr (h'.left_eq_zero ‹_›))]
    exact ⟨_, rfl⟩
  · exact ⟨_, rfl⟩

/-! ## Every step -/

/-- Only what is active for each validator and its balances matter. -/
private theorem of_untouched (h : Finalizing w.activeOf w.state.validatorSystem.records n left)
    (hw' : Untouched w w') : Finalizing w'.activeOf w'.state.validatorSystem.records n left := by
  have hactive : w'.activeOf = w.activeOf := by
    funext vote
    rw [World.activeOf, World.activeOf, hw'.records_eq]
    exact total_congr fun r hr ↦ Chain.delegatedTo_congr (hw'.voters_eq r hr)
  rw [hactive]
  exact h.of_map_eq hw'.balances_eq

private theorem deposit {accounts e account d}
    (h : Finalizing w.activeOf w.state.validatorSystem.records n left)
    (hdeposit : DepositStakeAccount.Spec accounts j w w' e account d v v') (hs : w.StakesSound rt)
    (hr : Recorded w) (hg : Registered w)
    (hu : w.state.delinquentUpgrader = .iteratingValidators n left) :
    Finalizing w'.activeOf w'.state.validatorSystem.records n left := by
  obtain ⟨⟨up, hv'⟩, -, hup⟩ := DepositStakeAccount.maintainUpgrader_spec hdeposit.upgrade
  rw [hu] at hup
  rw [hdeposit.validators_eq]
  refine h.of_set hg.distinct hdeposit.validator (by rw [hv']) (x := 0) (y := d.stake)
    (fun vote ↦ ?_) ?_ ?_
  · have hsum := (hdeposit.moved hs).total_delegatedTo hr vote StakeRecord.activeAmount
    rw [total_nil, total_cons, total_nil, Chain.delegatedTo_eq hdeposit.voterOf_eq] at hsum
    rw [only_zero]
    exact hsum
  · rw [hv']
    rfl
  · rw [ite_self, Nat.add_zero]
    exact hup

private theorem detect {accounts account d r' s₁ s₂ fee delinquent}
    (h : Finalizing w.activeOf w.state.validatorSystem.records n left)
    (hupdate : UpdateDeactivated.Spec accounts i j w w' account d r r' v s₁ s₂ fee delinquent)
    (hs : w.StakesSound rt) (hr : Recorded w) (hg : Registered w)
    (hspared : n ≤ j → r.activeAmount = 0) :
    Finalizing w'.activeOf w'.state.validatorSystem.records n left := by
  have hsum : ∀ vote, w'.activeOf vote + only v.validatorAccount r.activeAmount vote
      = w.activeOf vote + only v.validatorAccount 0 vote := by
    intro vote
    have hsum := (hupdate.moved hs).total_delegatedTo hr vote StakeRecord.activeAmount
    rw [total_nil, total_cons, total_nil,
      Chain.delegatedTo_eq hupdate.toBegun.voterOf_eq] at hsum
    rw [only_zero]
    exact hsum
  rw [hupdate.validators_eq]
  by_cases hactive : r.lastUpdateStatus = .active
  · have hamount : r.activeAmount = r.lastUpdateDelegatedLamports := if_pos hactive
    rw [if_pos hactive]
    refine h.of_set hg.distinct hupdate.validator (by rfl) hsum ?_ ?_
    · rw [hamount]
      exact Nat.sub_add_cancel (hupdate.detected.validator_balance hactive)
    · by_cases hj : n ≤ j
      · rw [hspared hj]
      · rw [if_neg hj, if_neg hj]
  · have hamount : r.activeAmount = 0 := if_neg hactive
    rw [if_neg hactive]
    have hsame : w'.activeOf = w.activeOf := by
      funext vote
      have hvote := hsum vote
      rwa [hamount, only_zero, Nat.add_zero] at hvote
    rw [hsame]
    exact h

private theorem finalize (h : Finalizing w.activeOf w.state.validatorSystem.records n left)
    (hu : w.state.delinquentUpgrader = .iteratingValidators n left)
    (hfinalize : FinalizeDelinquentUpgrade.process m w.state = .ok w'.state)
    (hframe : w'.toChain = w.toChain) :
    ∃ n' left', Finalizing w'.activeOf w'.state.validatorSystem.records n' left' ∧
      (w'.state.delinquentUpgrader = .iteratingValidators n' left' ∨
        w'.state.delinquentUpgrader = .done) := by
  obtain ⟨-, _, _, vs, n', left', hphase, hiterate, hs⟩ :=
    FinalizeDelinquentUpgrade.process_spec hfinalize
  cases hu.symm.trans hphase
  have h' := FinalizeDelinquentUpgrade.iterate_induct
    (P := fun vs n left ↦ Finalizing w.activeOf vs.records n left)
    (fun _ _ _ _ _ h hvisit ↦ h.visit hvisit) hiterate h
  have hactive : w'.activeOf = w.activeOf := by
    funext vote
    rcases hs with ⟨-, -, hs⟩ | ⟨-, hs⟩
    · rw [World.activeOf, World.activeOf, hframe, hs]
    · rw [World.activeOf, World.activeOf, hframe, hs]
  refine ⟨n', left', ?_, ?_⟩
  · rw [hactive]
    rcases hs with ⟨-, -, hs⟩ | ⟨-, hs⟩
    · rw [hs]
      exact h'
    · rw [hs]
      exact h'
  · rcases hs with ⟨-, -, hs⟩ | ⟨-, hs⟩
    · exact .inr (by rw [hs])
    · exact .inl (by rw [hs])

/-- As long as the detection spares the validators ahead, every step of this phase keeps it. -/
theorem step (h : Finalizing w.activeOf w.state.validatorSystem.records n left)
    (hw : Grounded rt w) (hu : w.state.delinquentUpgrader = .iteratingValidators n left)
    (hl : w.sparesPending l = true)
    (hstep : Step rt w l w') :
    ∃ n' left', Finalizing w'.activeOf w'.state.validatorSystem.records n' left' ∧
      (w'.state.delinquentUpgrader = .iteratingValidators n' left' ∨
        w'.state.delinquentUpgrader = .done) := by
  have hs := hw.wellFormed.stakes_sound
  have hr := hw.recorded
  have hg := hw.registered
  cases l with
  | external x =>
    have huntouched := External.untouched hstep.1 hstep.2 hr
    exact ⟨n, left, h.of_untouched huntouched, .inl (huntouched.upgrader_eq.trans hu)⟩
  | instruction i e =>
    cases (executed_of_exec hstep hs).upgrading (by simp [hu]) with
    | untouched huntouched =>
      exact ⟨n, left, h.of_untouched huntouched, .inl (huntouched.upgrader_eq.trans hu)⟩
    | depositStakeAccount hdeposit =>
      obtain ⟨-, hphase, -⟩ := DepositStakeAccount.maintainUpgrader_spec hdeposit.upgrade
      rw [hu] at hphase
      exact ⟨n, left, h.deposit hdeposit hs hr hg hu, .inl hphase⟩
    | updateActive hupdate =>
      -- not while this phase goes on
      obtain ⟨_, hvisited, -⟩ := hupdate.upgrader
      rw [hu] at hvisited
      exact hvisited.elim
    | updateDeactivated hupdate =>
      have hprogressed := hupdate.totals_eq.progressed
      rw [hu] at hprogressed
      have hspared := hl
      simp only [World.sparesPending, hu, hupdate.record, Option.all_some,
        decide_eq_true_iff] at hspared
      exact ⟨n, left, h.detect hupdate hs hr hg fun hj ↦
        hspared.resolve_left (Nat.not_lt.mpr hj), .inl hprogressed⟩
    | finalizeDelinquentUpgrade hfinalize hframe => exact h.finalize hu hfinalize hframe

end Finalizing

end

end Marinade
