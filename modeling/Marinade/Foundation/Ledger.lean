import Mathlib.Algebra.BigOperators.Group.Finset.Piecewise
import Mathlib.Algebra.Order.BigOperators.Group.Finset
import Mathlib.Tactic.Linarith

/-!
# Account ledgers with a bounded total

A ledger gives every account a balance and carries one number, `total`, that bounds the sum of the
balances over any finite set of accounts. Native coins (total: everything ever issued), the tokens
of one mint (total: the supply) and shares of a pool are all of this shape.

The bound is a field, so a ledger in which somebody holds more than was issued cannot be built, and
nothing has to be assumed about the set of accounts: it may be infinite, and no account has to be
registered before it is credited.
-/

open Finset

namespace Foundation

/-- Balances of accounts named by `κ`, together with a total that no finite set of accounts
exceeds. -/
structure Ledger (κ : Type*) where
  /-- What each account holds. -/
  balance : κ → ℕ
  /-- What was issued and not destroyed. -/
  total : ℕ
  /-- Distinct accounts never hold more than the total between them. -/
  sum_le_total : ∀ s : Finset κ, ∑ k ∈ s, balance k ≤ total

namespace Ledger

variable {κ : Type*}

instance : Inhabited (Ledger κ) := ⟨fun _ ↦ 0, 0, fun _ ↦ by simp⟩

/-- A ledger is what its accounts hold and what was issued. -/
theorem eq_of_balance {l l' : Ledger κ} (h : ∀ k, l.balance k = l'.balance k)
    (ht : l.total = l'.total) : l = l' := by
  obtain ⟨balance, total, _⟩ := l
  obtain ⟨balance', total', _⟩ := l'
  obtain rfl : balance = balance' := funext h
  obtain rfl : total = total' := ht
  rfl

theorem balance_le_total (l : Ledger κ) (k : κ) : l.balance k ≤ l.total := by
  have h := l.sum_le_total {k}
  rwa [sum_singleton] at h

variable [DecidableEq κ]

/-- Different accounts fit under the total together. -/
theorem sum_map_balance_le_total (l : Ledger κ) {ks : List κ} (h : ks.Nodup) :
    (ks.map l.balance).sum ≤ l.total := by
  rw [← List.sum_toFinset _ h]
  exact l.sum_le_total _

/-! ## An amount at one account

Effects on balances are written as sums of such terms, so that they add up by linear arithmetic. -/

/-- `x` at the account `a`, nothing at any other. -/
def only (a : κ) (x : ℕ) (k : κ) : ℕ :=
  if k = a then x else 0

@[simp] theorem only_self (a : κ) (x : ℕ) : only a x a = x := if_pos rfl

theorem only_of_ne {a k : κ} (h : k ≠ a) (x : ℕ) : only a x k = 0 := if_neg h

@[simp] theorem only_zero (a k : κ) : only a 0 k = 0 := ite_self 0

theorem only_add (a k : κ) (x y : ℕ) : only a (x + y) k = only a x k + only a y k := by
  unfold only
  split <;> rfl

theorem only_le (a k : κ) (x : ℕ) : only a x k ≤ x := by
  unfold only
  split
  · exact le_rfl
  · exact Nat.zero_le x

/-- Of an amount at one account a set of accounts has all or nothing. -/
theorem sum_only_le (s : Finset κ) (a : κ) (x : ℕ) : ∑ k ∈ s, only a x k ≤ x := by
  simp only [only, sum_ite_eq']
  split
  · exact le_rfl
  · exact Nat.zero_le x

theorem sum_only_of_mem {s : Finset κ} {a : κ} (h : a ∈ s) (x : ℕ) : ∑ k ∈ s, only a x k = x := by
  simp only [only, sum_ite_eq', if_pos h]

theorem sum_only_of_notMem {s : Finset κ} {a : κ} (h : a ∉ s) (x : ℕ) :
    ∑ k ∈ s, only a x k = 0 := by
  simp only [only, sum_ite_eq', if_neg h]

/-- An account outside the set competes with it for the amount. -/
theorem sum_only_add_le {s : Finset κ} {k : κ} (h : k ∉ s) (a : κ) (x : ℕ) :
    ∑ j ∈ s, only a x j + only a x k ≤ x := by
  rw [add_comm, ← sum_insert h]
  exact sum_only_le _ a x

/-! ## Issuing and destroying -/

private theorem sum_update_le (f : κ → ℕ) (k : κ) (v : ℕ) (s : Finset κ) :
    ∑ j ∈ s, (if j = k then v else f j) + f k ≤ ∑ j ∈ insert k s, f j + v := by
  by_cases hk : k ∈ s
  · have hrest : ∑ j ∈ s.erase k, (if j = k then v else f j) = ∑ j ∈ s.erase k, f j :=
      sum_congr rfl fun j hj ↦ if_neg (ne_of_mem_erase hj)
    rw [insert_eq_of_mem hk, ← add_sum_erase s _ hk, ← add_sum_erase s f hk, if_pos rfl, hrest]
    omega
  · have hrest : ∑ j ∈ s, (if j = k then v else f j) = ∑ j ∈ s, f j :=
      sum_congr rfl fun j hj ↦ if_neg (by rintro rfl; exact hk hj)
    rw [sum_insert hk, hrest]
    omega

/-- Issue `x` to account `k`. -/
def mint (l : Ledger κ) (k : κ) (x : ℕ) : Ledger κ where
  balance := fun j ↦ if j = k then l.balance k + x else l.balance j
  total := l.total + x
  sum_le_total := fun s ↦ by
    have h := sum_update_le l.balance k (l.balance k + x) s
    have ht := l.sum_le_total (insert k s)
    omega

/-- Destroy `x` of what account `k` holds. -/
def burn (l : Ledger κ) (k : κ) (x : ℕ) (h : x ≤ l.balance k) : Ledger κ where
  balance := fun j ↦ if j = k then l.balance k - x else l.balance j
  total := l.total - x
  sum_le_total := fun s ↦ by
    have hs := sum_update_le l.balance k (l.balance k - x) s
    have ht := l.sum_le_total (insert k s)
    omega

@[simp] theorem mint_balance (l : Ledger κ) (k j : κ) (x : ℕ) :
    (l.mint k x).balance j = if j = k then l.balance k + x else l.balance j := rfl

@[simp] theorem mint_total (l : Ledger κ) (k : κ) (x : ℕ) : (l.mint k x).total = l.total + x := rfl

@[simp] theorem burn_balance (l : Ledger κ) (k j : κ) (x : ℕ) (h : x ≤ l.balance k) :
    (l.burn k x h).balance j = if j = k then l.balance k - x else l.balance j := rfl

@[simp] theorem burn_total (l : Ledger κ) (k : κ) (x : ℕ) (h : x ≤ l.balance k) :
    (l.burn k x h).total = l.total - x := rfl

/-! ## Taking and moving

Both refuse to take from an account more than it holds. What an operation does to the balances is
one equation for all accounts, so that nothing has to be known about which of them coincide. -/

/-- Destroy `x` of what `a` holds, if it holds that much. -/
def take (l : Ledger κ) (a : κ) (x : ℕ) : Option (Ledger κ) :=
  if h : x ≤ l.balance a then some (l.burn a x h) else none

/-- Move `x` from `a` to `b`, if `a` holds that much. Moving from an account to itself changes no
balance. -/
def transfer (l : Ledger κ) (a b : κ) (x : ℕ) : Option (Ledger κ) :=
  if h : x ≤ l.balance a then some ((l.burn a x h).mint b x) else none

variable {l l' : Ledger κ} {a b k : κ} {x : ℕ}

theorem take_eq_some_iff : l.take a x = some l' ↔ ∃ h : x ≤ l.balance a, l.burn a x h = l' := by
  unfold take
  split <;> simp [*]

theorem transfer_eq_some_iff : l.transfer a b x = some l' ↔
    ∃ h : x ≤ l.balance a, (l.burn a x h).mint b x = l' := by
  unfold transfer
  split <;> simp [*]

theorem exists_transfer (b : κ) (h : x ≤ l.balance a) : ∃ l', l.transfer a b x = some l' :=
  ⟨_, dif_pos h⟩

theorem le_balance_of_take (h : l.take a x = some l') : x ≤ l.balance a :=
  (take_eq_some_iff.mp h).1

theorem le_balance_of_transfer (h : l.transfer a b x = some l') : x ≤ l.balance a :=
  (transfer_eq_some_iff.mp h).1

theorem take_total (h : l.take a x = some l') : l'.total + x = l.total := by
  obtain ⟨hx, rfl⟩ := take_eq_some_iff.mp h
  have := l.balance_le_total a
  rw [burn_total]
  omega

theorem transfer_total (h : l.transfer a b x = some l') : l'.total = l.total := by
  obtain ⟨hx, rfl⟩ := transfer_eq_some_iff.mp h
  have := l.balance_le_total a
  rw [mint_total, burn_total]
  omega

theorem mint_balance_eq (k : κ) : (l.mint a x).balance k = l.balance k + only a x k := by
  rw [mint_balance, only]
  split
  · rename_i hk
    rw [hk]
  · rfl

theorem take_balance (h : l.take a x = some l') (k : κ) :
    l'.balance k + only a x k = l.balance k := by
  obtain ⟨hx, rfl⟩ := take_eq_some_iff.mp h
  rw [burn_balance, only]
  split
  · rename_i hk
    rw [hk]
    omega
  · rfl

/-- What a transfer does to every balance, whatever the two accounts are. -/
theorem transfer_balance (h : l.transfer a b x = some l') (k : κ) :
    l'.balance k + only a x k = l.balance k + only b x k := by
  obtain ⟨hx, rfl⟩ := transfer_eq_some_iff.mp h
  rw [mint_balance_eq, Nat.add_right_comm, take_balance (take_eq_some_iff.mpr ⟨hx, rfl⟩)]

/-- A transfer lowers no account but its source. -/
theorem le_transfer_balance (h : l.transfer a b x = some l') (ha : k ≠ a) :
    l.balance k ≤ l'.balance k := by
  have hk := transfer_balance h k
  rw [only_of_ne ha] at hk
  omega

end Ledger

end Foundation
