import Marinade.Foundation.Ledger
import Marinade.State.State
import Mathlib.Data.List.AList

/-!
# The chain

Everything outside the state account that the program reads or changes: the clock, the lamports of
all accounts, the two token mints with their accounts, the stake accounts, the tickets and the flags
that mark a validator as listed. A `World` adds the state of one pool.

The mSOL leg of the pool is a token account owned by an address of the program. Only the program
could sign for that owner, and it never approves a delegate or passes the account on, so the
account's authority is part of the type of the mint rather than something to be kept invariant.
-/

open Foundation

namespace Marinade

/-- Who may spend from a token account. -/
structure TokenHolder where
  owner : Pubkey
  delegate : Option Pubkey
  delegatedAmount : ℕ
  deriving DecidableEq, Repr

/-- A token mint with its accounts. `vault` gives the accounts whose owner is an address of the
program itself. -/
structure TokenMint (vault : Pubkey → Option Pubkey) where
  /-- Token balances; the total is the supply. -/
  ledger : Ledger Pubkey
  /-- The token accounts of this mint. -/
  holder : Pubkey → Option TokenHolder
  vault_holder : ∀ k owner, vault k = some owner → holder k = some ⟨owner, none, 0⟩

namespace TokenMint

variable {vault : Pubkey → Option Pubkey}

/-- The real supply. -/
abbrev supply (mint : TokenMint vault) : ℕ := mint.ledger.total

/-- The amount in a token account. -/
abbrev amount (mint : TokenMint vault) (k : Pubkey) : ℕ := mint.ledger.balance k

/-- Change who may spend from `k`, which must not be a vault. -/
def setHolder (mint : TokenMint vault) (k : Pubkey) (h : TokenHolder) : TokenMint vault where
  ledger := mint.ledger
  holder := fun j ↦ if j = k ∧ vault j = none then some h else mint.holder j
  vault_holder := fun j owner hj ↦ by
    rw [if_neg (by simp [hj])]
    exact mint.vault_holder j owner hj

end TokenMint

/-- The mSOL leg belongs to an address of the program. -/
def legVault : Pubkey → Option Pubkey
  | .msolLeg => some .msolLegAuthority
  | _ => none

/-- No LP token account belongs to the program. -/
def noVault : Pubkey → Option Pubkey :=
  fun _ ↦ none

/-- The part of a stake account that does not depend on its delegation. -/
structure StakeMeta where
  rentExemptReserve : ℕ
  staker : Pubkey
  withdrawer : Pubkey
  lockup : Lockup
  deriving DecidableEq, Repr

/-- An initialized stake account. -/
structure StakeAccount where
  stakeMeta : StakeMeta
  delegation : Option Delegation
  deriving DecidableEq, Repr

/-- What the program's instructions see of the chain, but for the state account. -/
structure Chain where
  clock : Clock
  lamports : Ledger Pubkey
  msol : TokenMint legVault
  lp : TokenMint noVault
  /-- The initialized stake accounts. -/
  stakes : Pubkey → Option StakeAccount
  /-- The ticket accounts, of this pool and of others. -/
  tickets : AList fun _ : Pubkey ↦ TicketAccountData
  /-- The validators whose duplication flag exists. -/
  flags : Pubkey → Bool

/-- The chain together with the state of one pool. -/
structure World extends Chain where
  state : State

namespace Chain

/-- The lamports of an account. -/
abbrev lamportsOf (c : Chain) (k : Pubkey) : ℕ := c.lamports.balance k

/-- An account owned by the system program: the only kind that can pay by a signature alone. -/
def isSystemAccount (c : Chain) (k : Pubkey) : Bool :=
  k ≠ .state ∧ k ≠ .stakeList ∧ k ≠ .validatorList ∧ c.stakes k = none ∧
    c.msol.holder k = none ∧ c.lp.holder k = none ∧ c.tickets.lookup k = none

/-- A system account of somebody else. Its owner's signature is enough to pay from it and to create
another account at its address; for a new ticket it stands for the account, assigned to this program
and still zero, that `zero` accepts. -/
def isUnused (c : Chain) (k : Pubkey) : Bool :=
  k.canSign && c.isSystemAccount k

/-- The accounts no signature can take lamports from. -/
def Guarded (c : Chain) (k : Pubkey) : Prop :=
  c.isUnused k = false

theorem stakes_eq_none_of_isSystemAccount {c : Chain} {k : Pubkey}
    (h : c.isSystemAccount k = true) : c.stakes k = none := by
  simp only [isSystemAccount, decide_eq_true_eq] at h
  exact h.2.2.2.1

theorem stakes_eq_none_of_isUnused {c : Chain} {k : Pubkey} (h : c.isUnused k = true) :
    c.stakes k = none :=
  stakes_eq_none_of_isSystemAccount (Bool.and_eq_true_iff.mp h).2

theorem tickets_eq_none_of_isUnused {c : Chain} {k : Pubkey} (h : c.isUnused k = true) :
    c.tickets.lookup k = none := by
  have hsystem := (Bool.and_eq_true_iff.mp h).2
  simp only [isSystemAccount, decide_eq_true_eq] at hsystem
  exact hsystem.2.2.2.2.2.2

theorem canSign_of_isUnused {c : Chain} {k : Pubkey} (h : c.isUnused k = true) :
    k.canSign = true :=
  (Bool.and_eq_true_iff.mp h).1

/-- A stake account is guarded: only its authorities move what is on it. -/
theorem guarded_of_stakes {c : Chain} {k : Pubkey} (h : c.stakes k ≠ none) : c.Guarded k :=
  Bool.eq_false_iff.mpr fun hu ↦ h (stakes_eq_none_of_isUnused hu)

/-- The addresses of the program are guarded: nobody signs for them. -/
theorem guarded_of_not_canSign {c : Chain} {k : Pubkey} (h : k.canSign = false) : c.Guarded k := by
  rw [Guarded, isUnused, h, Bool.false_and]

theorem ne_of_isUnused {c : Chain} {k k' : Pubkey} (hk : c.stakes k ≠ none)
    (hu : c.isUnused k' = true) : k ≠ k' := by
  rintro rfl
  exact hk (stakes_eq_none_of_isUnused hu)

theorem ne_of_not_canSign {c : Chain} {k k' : Pubkey} (hk : k.canSign = false)
    (hu : c.isUnused k' = true) : k ≠ k' := by
  rintro rfl
  rw [canSign_of_isUnused hu] at hk
  cases hk

def setStake (c : Chain) (k : Pubkey) (account : Option StakeAccount) : Chain :=
  { c with stakes := Function.update c.stakes k account }

theorem setStake_stakes_self (c : Chain) (k : Pubkey) (a : Option StakeAccount) :
    (c.setStake k a).stakes k = a := by
  simp [setStake]

/-- Overwriting one stake account twice. -/
theorem setStake_setStake (c : Chain) (k : Pubkey) (a b : Option StakeAccount) :
    (c.setStake k a).setStake k b = c.setStake k b := by
  simp [setStake]

/-- The stake program's own invariant: an account holds its delegation and its rent, and no account
is free of rent. -/
def Funded (c : Chain) (k : Pubkey) : Prop :=
  ∀ account d, c.stakes k = some account → account.delegation = some d →
    0 < account.stakeMeta.rentExemptReserve ∧
      d.stake + account.stakeMeta.rentExemptReserve ≤ c.lamportsOf k

end Chain

/-- `State::get_treasury_msol_balance`: the amount in the treasury account, if it is an mSOL token
account. The admin may have configured anything else to receive no fees. -/
def World.getTreasuryMsolBalance (w : World) : Option ℕ :=
  if (w.msol.holder w.state.treasuryMsolAccount).isSome then
    some (w.msol.amount w.state.treasuryMsolAccount)
  else none

end Marinade
