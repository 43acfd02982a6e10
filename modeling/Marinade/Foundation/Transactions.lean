import Marinade.Foundation.Fallible
import Mathlib.Algebra.BigOperators.Group.List.Basic
import Mathlib.Algebra.GroupWithZero.Nat

/-!
# Transactions one after the other

A transaction changes the state or fails, and one that fails leaves the state as it is. Of several
transactions the first that fails is the last that is run, and the effect of those before it stays.

Where doing two amounts of work one after the other is doing their sum at once, this carries over to
any number of transactions: together they do what one does, and fail when that one fails.
-/

namespace Foundation

universe u

section

variable {α ε : Type*} {σ : Type u} {f : α → σ → Except ε σ} {as bs : List α} {a : α} {s s' : σ}
  {e : ε}

/-- Run transactions up to the first that fails, and say why that one failed. -/
def runAll (f : α → σ → Except ε σ) : List α → σ → σ × Option ε
  | [], s => (s, none)
  | a :: as, s =>
    match f a s with
    | .ok s' => runAll f as s'
    | .error e => (s, some e)

/-- The transactions seen as one: the state they lead to, unless one of them failed. -/
def outcome : σ × Option ε → Except ε σ
  | (s, none) => .ok s
  | (_, some e) => .error e

@[simp] theorem outcome_eq_ok {p : σ × Option ε} : outcome p = .ok s ↔ p = (s, none) := by
  obtain ⟨t, _ | e⟩ := p <;> simp [outcome]

@[simp] theorem runAll_nil : runAll f [] s = (s, none) := rfl

theorem runAll_cons_of_ok (h : f a s = .ok s') : runAll f (a :: as) s = runAll f as s' := by
  rw [runAll, h]

theorem runAll_cons_of_error (h : f a s = .error e) : runAll f (a :: as) s = (s, some e) := by
  rw [runAll, h]

theorem outcome_runAll_cons :
    outcome (runAll f (a :: as) s) = f a s >>= fun s' ↦ outcome (runAll f as s') := by
  cases h : f a s with
  | ok s' => rw [runAll_cons_of_ok h]; rfl
  | error e => rw [runAll_cons_of_error h]; rfl

/-- If all transactions succeed, so do the first ones. -/
theorem runAll_append_eq_none (h : runAll f (as ++ bs) s = (s', none)) :
    ∃ t, runAll f as s = (t, none) ∧ runAll f bs t = (s', none) := by
  induction as generalizing s with
  | nil => exact ⟨s, rfl, h⟩
  | cons a as ih =>
    rw [List.cons_append] at h
    cases ha : f a s with
    | ok t =>
      rw [runAll_cons_of_ok ha] at h ⊢
      exact ih h
    | error e =>
      rw [runAll_cons_of_error ha] at h
      cases h

/-- A failed transaction leaves the effect of those before it. -/
theorem runAll_eq_some (h : runAll f as s = (s', some e)) :
    ∃ front a rest, as = front ++ a :: rest ∧ runAll f front s = (s', none) ∧
      f a s' = .error e := by
  induction as generalizing s with
  | nil => cases h
  | cons a as ih =>
    cases ha : f a s with
    | ok t =>
      rw [runAll_cons_of_ok ha] at h
      obtain ⟨front, b, rest, rfl, hfront, hb⟩ := ih h
      refine ⟨a :: front, b, rest, rfl, ?_, hb⟩
      rw [runAll_cons_of_ok ha]
      exact hfront
    | error e' =>
      rw [runAll_cons_of_error ha] at h
      cases h
      exact ⟨[], a, as, rfl, rfl, ha⟩

/-- What is additive in the amount of work is done at once as in parts. -/
theorem outcome_runAll_of_add [AddMonoid α] (hadd : ∀ a b s, f (a + b) s = f a s >>= f b)
    (hne : as ≠ []) : outcome (runAll f as s) = f as.sum s := by
  induction as generalizing s with
  | nil => exact absurd rfl hne
  | cons a as ih =>
    rw [outcome_runAll_cons, List.sum_cons]
    cases as with
    | nil =>
      rw [List.sum_nil, add_zero]
      exact bind_pure (f a s)
    | cons b bs =>
      rw [hadd]
      exact congrArg (f a s >>= ·) (funext fun s' ↦ ih (List.cons_ne_nil b bs))

end

/-! ## Which part does it -/

/-- A place `x` of the work is reached in one of the parts. -/
theorem exists_take_sum_lt_iff {ns : List ℕ} {x : ℕ} (h : x < ns.sum) :
    ∃ p < ns.length, ∀ q, x < (ns.take q).sum ↔ p < q := by
  induction ns generalizing x with
  | nil => cases h
  | cons n ns ih =>
    rw [List.sum_cons] at h
    by_cases hx : x < n
    · refine ⟨0, Nat.succ_pos _, fun q ↦ ?_⟩
      cases q with
      | zero => simp
      | succ q =>
        rw [List.take_succ_cons, List.sum_cons]
        omega
    · obtain ⟨p, hp, hall⟩ := ih (x := x - n) (by omega)
      refine ⟨p + 1, Nat.succ_lt_succ hp, fun q ↦ ?_⟩
      cases q with
      | zero => simp
      | succ q =>
        rw [List.take_succ_cons, List.sum_cons, Nat.succ_lt_succ_iff, ← hall]
        omega

end Foundation
