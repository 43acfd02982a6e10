import Marinade.Foundation.Transactions
import Marinade.Guarantees.Upgrade

/-!
# The last iteration of the upgrade in parts

The iteration over the validators may be cut into any number of calls. Together they do what one
call for the sum does, and if that one fails, so does one of them, with the same error; the calls
before it have then done their part.

When all calls succeed and the sum covers the validators that were not visited, the upgrade is done.
Each of these validators was settled by one of the calls, and by no other.
-/

open Foundation

namespace Marinade

namespace FinalizeDelinquentUpgrade

/-- A call, as long as the iteration goes on. -/
def proceed (maxValidators : ℕ) (s : State) : Except Error State :=
  if s.delinquentUpgrader.isIteratingValidators then process maxValidators s else .ok s

section

variable {s s' : State} {i left m n k : ℕ} {ms : List ℕ}

theorem proceed_of_iterating (hphase : s.delinquentUpgrader = .iteratingValidators i left) :
    proceed m s = process m s := by
  rw [proceed, hphase]
  rfl

/-- The rounds of a call may be made in two. -/
theorem proceed_add (m n : ℕ) (s : State) : proceed (m + n) s = proceed m s >>= proceed n := by
  by_cases hphase : s.delinquentUpgrader.isIteratingValidators = true
  · rw [proceed, proceed, if_pos hphase, if_pos hphase, process_add]
    rfl
  · rw [proceed, proceed, if_neg hphase, if_neg hphase]
    exact (if_neg hphase).symm

/-- The calls together are one call for the sum. -/
theorem outcome_runAll_proceed (hphase : s.delinquentUpgrader = .iteratingValidators i left)
    (hms : ms ≠ []) : outcome (runAll proceed ms s) = process ms.sum s := by
  rw [outcome_runAll_of_add proceed_add hms, proceed_of_iterating hphase]

/-- What a call leaves behind: the next `n` validators are settled, and if these are all, the
balances have lost what was left. -/
theorem process_settles (hphase : s.delinquentUpgrader = .iteratingValidators i left)
    (hcount : i ≤ s.validatorSystem.validatorCount) (h : process n s = .ok s') :
    (∀ k : ℕ, s'.validatorSystem.records[k]? = s.validatorSystem.records[k]?.map fun v ↦
      if i ≤ k ∧ k < i + n then v.settled else v) ∧
    (s.validatorSystem.validatorCount ≤ i + n → s'.delinquentUpgrader = .done ∧
      total (·.activeBalance) s'.validatorSystem.records + left
        = total (·.activeBalance) s.validatorSystem.records) := by
  obtain ⟨-, _, _, vs, i', left', hphase', hiterate, hs'⟩ := process_spec h
  cases hphase.symm.trans hphase'
  obtain ⟨hi', hlength, hrecords⟩ := iterate_spec hiterate hcount
  have htotal := iterate_total hiterate
  rcases hs' with ⟨-, hleft, rfl⟩ | ⟨hne, rfl⟩
  · refine ⟨hrecords, fun _ ↦ ⟨rfl, ?_⟩⟩
    rw [hleft] at htotal
    exact htotal
  · refine ⟨hrecords, fun hall ↦ absurd ?_ hne⟩
    rw [hi', hlength]
    exact Nat.min_eq_right hall

/-- The calls settle as many validators as they were made for together. -/
theorem runAll_proceed_settles (hphase : s.delinquentUpgrader = .iteratingValidators i left)
    (hcount : i ≤ s.validatorSystem.validatorCount) (h : runAll proceed ms s = (s', none)) :
    s'.validatorSystem.records[k]? = s.validatorSystem.records[k]?.map fun v ↦
      if i ≤ k ∧ k < i + ms.sum then v.settled else v := by
  cases ms with
  | nil =>
    cases h
    exact (map_settled_eq_self (.inl rfl) k).symm
  | cons m ms =>
    have hone := outcome_runAll_proceed hphase (List.cons_ne_nil m ms)
    rw [outcome_eq_ok.mpr h] at hone
    exact (process_settles hphase hcount hone.symm).1 k

/-- The first `q` calls settle as many validators as they were made for together. -/
theorem runAll_proceed_take_settles (hphase : s.delinquentUpgrader = .iteratingValidators i left)
    (hcount : i ≤ s.validatorSystem.validatorCount) (h : runAll proceed ms s = (s', none))
    (q : ℕ) : (runAll proceed (ms.take q) s).1.validatorSystem.records[k]?
      = s.validatorSystem.records[k]?.map fun v ↦
        if i ≤ k ∧ k < i + (ms.take q).sum then v.settled else v := by
  rw [← List.take_append_drop q ms] at h
  obtain ⟨t, hfront, -⟩ := runAll_append_eq_none h
  rw [hfront]
  exact runAll_proceed_settles hphase hcount hfront

end

end FinalizeDelinquentUpgrade

open FinalizeDelinquentUpgrade

section

variable {s : State} {i left : ℕ} {ms : List ℕ}

/-- Calls one after the other do what one call for their sum does. They fail when that one fails,
and the calls before the one that fails have done their part. If none fails and they are enough for
the validators from `i` on, the upgrade is done, nothing is counted for these validators any more,
the balances have lost what was left, and each of them was settled once. -/
theorem finalize_chunks (hphase : s.delinquentUpgrader = .iteratingValidators i left)
    (hcount : i ≤ s.validatorSystem.validatorCount) (hms : ms ≠ []) :
    outcome (runAll proceed ms s) = process ms.sum s ∧
    (∀ s' e, runAll proceed ms s = (s', some e) → ∃ front m rest, ms = front ++ m :: rest ∧
      runAll proceed front s = (s', none) ∧ process m s' = .error e) ∧
    ∀ s', runAll proceed ms s = (s', none) → s.validatorSystem.validatorCount ≤ i + ms.sum →
      s'.delinquentUpgrader = .done ∧
      (∀ k v, s'.validatorSystem.records[k]? = some v → i ≤ k →
        v.delinquentUpgraderActiveBalance = 0) ∧
      total (·.activeBalance) s'.validatorSystem.records + left
        = total (·.activeBalance) s.validatorSystem.records ∧
      ∀ k v, s.validatorSystem.records[k]? = some v →
        (k < i → ∀ q,
          (runAll proceed (ms.take q) s).1.validatorSystem.records[k]? = some v) ∧
        (i ≤ k → ∃ p < ms.length, ∀ q,
          (runAll proceed (ms.take q) s).1.validatorSystem.records[k]?
            = some (if p < q then v.settled else v)) := by
  have hone := outcome_runAll_proceed hphase hms
  refine ⟨hone, fun s' e h ↦ ?_, fun s' h hall ↦ ?_⟩
  · obtain ⟨front, m, rest, hsplit, hfront, hm⟩ := runAll_eq_some h
    refine ⟨front, m, rest, hsplit, hfront, ?_⟩
    rw [proceed] at hm
    split at hm
    · exact hm
    · cases hm
  · rw [outcome_eq_ok.mpr h] at hone
    obtain ⟨hrecords, hdone⟩ := process_settles hphase hcount hone.symm
    obtain ⟨hphase', htotal⟩ := hdone hall
    refine ⟨hphase', fun k v' hv' hk ↦ ?_, htotal, fun k v hv ↦ ⟨fun hk q ↦ ?_, fun hk ↦ ?_⟩⟩
    · rw [hrecords, Option.map_eq_some_iff] at hv'
      obtain ⟨v, hv, rfl⟩ := hv'
      have hlt : k < s.validatorSystem.validatorCount := (List.getElem?_eq_some_iff.mp hv).1
      rw [if_pos (by omega)]
      rfl
    · rw [runAll_proceed_take_settles hphase hcount h q, hv, Option.map_some, if_neg (by omega)]
    · have hlt : k < s.validatorSystem.validatorCount := (List.getElem?_eq_some_iff.mp hv).1
      -- the call that reaches `k` settles it
      have hreached : k - i < ms.sum := by omega
      obtain ⟨p, hp, hiff⟩ := exists_take_sum_lt_iff hreached
      refine ⟨p, hp, fun q ↦ ?_⟩
      rw [runAll_proceed_take_settles hphase hcount h q, hv, Option.map_some]
      have hq : i ≤ k ∧ k < i + (ms.take q).sum ↔ p < q := by
        rw [← hiff q]
        omega
      rw [if_congr hq rfl rfl]

/-- The second of two validators is settled by the second of two calls. -/
theorem finalize_chunks_sample :
    outcome (runAll proceed [1, 1] Sample.entered.state) = process 2 Sample.entered.state ∧
    ∃ s', runAll proceed [1, 1] Sample.entered.state = (s', none) ∧
      s'.delinquentUpgrader = .done ∧
      total (·.activeBalance) s'.validatorSystem.records + 40000000
        = total (·.activeBalance) Sample.entered.state.validatorSystem.records := by
  have hphase : Sample.entered.state.delinquentUpgrader = .iteratingValidators 0 40000000 := by
    decide +kernel
  have hcount : Sample.entered.state.validatorSystem.validatorCount = 2 := by decide +kernel
  obtain ⟨hone, -, hend⟩ := finalize_chunks hphase (Nat.zero_le _) (List.cons_ne_nil 1 [1])
  have hnone : (runAll proceed [1, 1] Sample.entered.state).2 = none := by decide +kernel
  obtain ⟨hdone, -, htotal, -⟩ := hend _ (Prod.ext rfl hnone) hcount.le
  exact ⟨hone, _, Prod.ext rfl hnone, hdone, htotal⟩

end

end Marinade
