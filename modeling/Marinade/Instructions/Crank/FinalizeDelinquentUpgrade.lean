import Marinade.Chain

/-!
# Finish the delinquent upgrade

Once all stake records carry a status, the balance of each validator is replaced by what its active
records really add up to. The list may be too long for one transaction, so each call takes a number
of validators and the state remembers how far it came.
-/

open Foundation

namespace Marinade

/-- The balance that turned out to be active is the balance. -/
def ValidatorRecord.settled (v : ValidatorRecord) : ValidatorRecord :=
  { v with
    activeBalance := v.delinquentUpgraderActiveBalance
    delinquentUpgraderActiveBalance := 0 }

namespace FinalizeDelinquentUpgrade

/-- One round: the balance that turned out to be active replaces the balance of the validator at
`visitedCount`. -/
def visit (vs : ValidatorSystem) (visitedCount delinquentBalanceLeft : ℕ) :
    Except Error (ValidatorSystem × ℕ) := do
  let validator ← vs.get visitedCount
  let delinquent ← checkedSub .upgraderValidatorActiveBalance validator.activeBalance
    validator.delinquentUpgraderActiveBalance
  let left ← checkedSub .upgraderDelinquentBalanceLeft delinquentBalanceLeft delinquent
  let vs ← vs.set visitedCount { validator with
    activeBalance := validator.delinquentUpgraderActiveBalance
    delinquentUpgraderActiveBalance := 0 }
  return (vs, left)

/-- The loop of the source, by recursion on the number of validators it may still visit. -/
def iterate : ℕ → ValidatorSystem → ℕ → ℕ → Except Error (ValidatorSystem × ℕ × ℕ)
  | 0, vs, visitedCount, left => .ok (vs, visitedCount, left)
  | maxValidators + 1, vs, visitedCount, left =>
    if visitedCount < vs.validatorCount then do
      let visited ← visit vs visitedCount left
      iterate maxValidators visited.1 (visitedCount + 1) visited.2
    else .ok (vs, visitedCount, left)

/-- What the loop leaves behind. -/
def conclude (s : State) (visitedCount delinquentBalanceLeft : ℕ) : Except Error State :=
  if visitedCount = s.validatorSystem.validatorCount then do
    ensure (delinquentBalanceLeft = 0) (.marinade .upgradingInvariantViolation)
    return { s with delinquentUpgrader := .done }
  else
    .ok { s with
      delinquentUpgrader := .iteratingValidators visitedCount delinquentBalanceLeft }

def process (maxValidators : ℕ) (s : State) : Except Error State := do
  ensure (!s.paused) (.marinade .programIsPaused)
  match s.delinquentUpgrader with
  | .iteratingValidators visitedCount delinquentBalanceLeft => do
    let result ← iterate maxValidators s.validatorSystem visitedCount delinquentBalanceLeft
    conclude { s with validatorSystem := result.1 } result.2.1 result.2.2
  | _ => .error (.marinade .upgradingInvariantViolation)

/-! ## What the rounds do -/

section

variable {vs vs' : ValidatorSystem} {i i' left left' n : ℕ} {s s' : State}

theorem visit_spec (h : visit vs i left = .ok (vs', left')) :
    ∃ v, vs.records[i]? = some v ∧ v.delinquentUpgraderActiveBalance ≤ v.activeBalance ∧
      left = left' + (v.activeBalance - v.delinquentUpgraderActiveBalance) ∧
      vs' = { vs with validatorList := vs'.validatorList } ∧
      vs'.records = vs.records.set i v.settled := by
  simp only [visit, ValidatorSystem.get, bind_eq_ok, AccountList.get_eq_ok, checkedSub_eq_ok,
    pure_eq_ok] at h
  obtain ⟨v, hv, x, ⟨hle, rfl⟩, l, ⟨hleft, rfl⟩, vs₁, hvs, hr⟩ := h
  cases hr
  obtain ⟨hframe, hrecords⟩ := ValidatorSystem.set_eq_ok hvs
  exact ⟨v, hv, hle, by omega, hframe, hrecords⟩

/-- What a round preserves, the loop preserves. -/
theorem iterate_induct {P : ValidatorSystem → ℕ → ℕ → Prop}
    (hvisit : ∀ vs i left vs' left', P vs i left → visit vs i left = .ok (vs', left') →
      P vs' (i + 1) left')
    (h : iterate n vs i left = .ok (vs', i', left')) (hP : P vs i left) : P vs' i' left' := by
  induction n generalizing vs i left with
  | zero => cases h; exact hP
  | succ n ih =>
    unfold iterate at h
    split at h
    · obtain ⟨⟨vs₁, left₁⟩, hv, h⟩ := bind_eq_ok.mp h
      exact ih h (hvisit _ _ _ _ _ hP hv)
    · cases h; exact hP

/-- The loop only touches the list. -/
theorem iterate_frame (h : iterate n vs i left = .ok (vs', i', left')) :
    vs' = { vs with validatorList := vs'.validatorList } := by
  refine iterate_induct (P := fun vs₁ _ _ ↦ vs₁ = { vs with validatorList := vs₁.validatorList })
    (fun vs₁ i₁ left₁ vs₂ left₂ heq hvisit ↦ ?_) h rfl
  obtain ⟨_, -, -, -, hframe, -⟩ := visit_spec hvisit
  rw [hframe, heq]

/-- What is left shrinks with the balances. -/
theorem iterate_total (h : iterate n vs i left = .ok (vs', i', left')) :
    total (·.activeBalance) vs'.records + left = total (·.activeBalance) vs.records + left' := by
  refine iterate_induct (P := fun vs₁ _ left₁ ↦ total (·.activeBalance) vs₁.records + left
    = total (·.activeBalance) vs.records + left₁)
    (fun vs₁ i₁ left₁ vs₂ left₂ heq hvisit ↦ ?_) h rfl
  obtain ⟨v, hv, hle, hleft, -, hset⟩ := visit_spec hvisit
  have hsum := total_set (g := (·.activeBalance)) hv v.settled
  simp only [ValidatorRecord.settled] at hset hsum
  rw [hset]
  omega

/-- Without rounds, or behind the last validator, no record is settled. -/
theorem map_settled_eq_self (h : n = 0 ∨ vs.validatorCount ≤ i) (k : ℕ) :
    (vs.records[k]?.map fun v ↦ if i ≤ k ∧ k < i + n then v.settled else v) = vs.records[k]? := by
  cases hk : vs.records[k]? with
  | none => rfl
  | some v =>
    have hlt : k < vs.validatorCount := (List.getElem?_eq_some_iff.mp hk).1
    rw [Option.map_some, if_neg (by omega)]

/-- A loop of `n` rounds settles the next `n` validators, as far as there are any. -/
theorem iterate_spec (h : iterate n vs i left = .ok (vs', i', left'))
    (hi : i ≤ vs.validatorCount) :
    i' = min (i + n) vs.validatorCount ∧ vs'.validatorCount = vs.validatorCount ∧
    ∀ k : ℕ, vs'.records[k]? = vs.records[k]?.map fun v ↦
      if i ≤ k ∧ k < i + n then v.settled else v := by
  induction n generalizing vs i left with
  | zero =>
    cases h
    exact ⟨(Nat.min_eq_left hi).symm, rfl, fun k ↦ (map_settled_eq_self (.inl rfl) k).symm⟩
  | succ n ih =>
    unfold iterate at h
    split at h
    · rename_i hlt
      obtain ⟨⟨vs₁, left₁⟩, hvisit, h⟩ := bind_eq_ok.mp h
      obtain ⟨v, hv, -, -, -, hset⟩ := visit_spec hvisit
      have hcount : vs₁.validatorCount = vs.validatorCount := by
        change vs₁.records.length = vs.records.length
        rw [hset, List.length_set]
      obtain ⟨hi', hcount', hrecords⟩ := ih h (hcount.symm ▸ hlt)
      refine ⟨by rw [hi', hcount]; omega, hcount'.trans hcount, fun k ↦ ?_⟩
      rw [hrecords k, hset]
      by_cases hk : k = i
      · subst hk
        rw [List.getElem?_set_self hlt, hv, Option.map_some, Option.map_some,
          if_neg (by omega), if_pos (by omega)]
      · rw [List.getElem?_set_ne (Ne.symm hk)]
        exact congrArg (Option.map · _) (funext fun u ↦ if_congr (by omega) rfl rfl)
    · cases h
      have hle := Nat.le_of_not_lt ‹_›
      exact ⟨by omega, rfl, fun k ↦ (map_settled_eq_self (.inr hle) k).symm⟩

/-- Behind the last validator there is nothing to do. -/
theorem iterate_of_le (h : vs.validatorCount ≤ i) : iterate n vs i left = .ok (vs, i, left) := by
  cases n with
  | zero => rfl
  | succ n => rw [iterate, if_neg (Nat.not_lt.mpr h)]

/-- A loop may be left after `m` rounds and taken up again. -/
theorem iterate_add {m : ℕ} : iterate (m + n) vs i left
    = iterate m vs i left >>= fun r ↦ iterate n r.1 r.2.1 r.2.2 := by
  induction m generalizing vs i left with
  | zero =>
    rw [Nat.zero_add]
    rfl
  | succ m ih =>
    rw [Nat.add_right_comm, iterate, iterate]
    split
    · rw [bind_assoc]
      exact congrArg (visit vs i left >>= ·) (funext fun _ ↦ ih)
    · exact (iterate_of_le (Nat.le_of_not_lt ‹_›)).symm

theorem process_eq (i left : ℕ) (hpaused : s.paused = false)
    (hphase : s.delinquentUpgrader = .iteratingValidators i left) : process n s
      = iterate n s.validatorSystem i left >>= fun r ↦
        conclude { s with validatorSystem := r.1 } r.2.1 r.2.2 := by
  rw [process, hpaused, hphase]
  rfl

/-- A call for `m + n` validators does what one for `m` does, and then, unless that was all, what
one for `n` does. -/
theorem process_add {m : ℕ} : process (m + n) s = process m s >>= fun s' ↦
    if s'.delinquentUpgrader.isIteratingValidators then process n s' else .ok s' := by
  cases hpaused : s.paused with
  | true =>
    rw [process, process, hpaused]
    rfl
  | false =>
    cases hphase : s.delinquentUpgrader with
    | iteratingValidators i left =>
      rw [process_eq i left hpaused hphase, process_eq i left hpaused hphase, iterate_add,
        bind_assoc, bind_assoc]
      refine congrArg (iterate m s.validatorSystem i left >>= ·) (funext fun r ↦ ?_)
      by_cases hend : r.2.1 = r.1.validatorCount
      · -- the first call has come to the end, and the second one has nothing to do
        rw [iterate_of_le hend.ge]
        change conclude _ r.2.1 r.2.2 = _
        rw [conclude, if_pos hend]
        by_cases hleft : r.2.2 = 0
        · rw [hleft]
          rfl
        · rw [ensure, if_neg hleft]
          rfl
      · -- the first call stores where it is, and the second one takes up there
        rw [conclude, if_neg hend]
        refine Eq.symm (process_eq r.2.1 r.2.2 ?_ rfl)
        exact hpaused
    | done =>
      rw [process, process, hpaused, hphase]
      rfl
    | iteratingStakes =>
      rw [process, process, hpaused, hphase]
      rfl

/-- A successful call made some rounds and set the phase accordingly. -/
theorem process_spec (h : process n s = .ok s') :
    s.paused = false ∧ ∃ i left vs i' left',
      s.delinquentUpgrader = .iteratingValidators i left ∧
      iterate n s.validatorSystem i left = .ok (vs, i', left') ∧
      ((i' = vs.validatorCount ∧ left' = 0 ∧
          s' = { s with validatorSystem := vs, delinquentUpgrader := .done }) ∨
        (i' ≠ vs.validatorCount ∧ s' = { s with
          validatorSystem := vs
          delinquentUpgrader := .iteratingValidators i' left' })) := by
  simp only [process, ensure_bind_eq_ok] at h
  obtain ⟨hpaused, h⟩ := h
  split at h
  · rename_i i left hphase
    obtain ⟨⟨vs, i', left'⟩, hiter, h⟩ := bind_eq_ok.mp h
    refine ⟨by simpa using hpaused, i, left, vs, i', left', hphase, hiter, ?_⟩
    simp only [conclude] at h
    split at h
    · rw [ensure_bind_eq_ok, pure_eq_ok] at h
      exact .inl ⟨‹_›, h.1, h.2.symm⟩
    · cases h
      exact .inr ⟨‹_›, rfl⟩
  · cases h

end

end FinalizeDelinquentUpgrade

end Marinade
