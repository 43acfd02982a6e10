import Marinade.Chain

/-!
# Checks shared by several instructions
-/

open Foundation

namespace Marinade

/-- The account is delegated to the right validator and its stake is what the record says. -/
def checkStakeAmountAndValidator (account : StakeAccount) (expectedStakeAmount : ℕ)
    (validatorVotePubkey : Pubkey) : Except Error Unit :=
  match account.delegation with
  | some delegation => do
    ensure (delegation.voterPubkey = validatorVotePubkey)
      (.marinade .wrongValidatorAccountOrIndex)
    -- an account that changed since its last update must be updated first
    ensure (delegation.stake = expectedStakeAmount) (.marinade .stakeAccountNotUpdatedYet)
  | none => .error (.marinade .stakeNotDelegated)

/-- The authority may spend the amount from the token account. -/
def checkTokenSourceAccount (source : TokenHolder) (amount : ℕ) (authority : Pubkey)
    (tokenAmount : ℕ) : Except Error Unit :=
  if source.delegate = some authority then
    ensure (tokenAmount ≤ source.delegatedAmount) (.marinade .notEnoughUserFunds)
  else if authority = source.owner then
    ensure (tokenAmount ≤ amount) (.marinade .notEnoughUserFunds)
  else .error (.marinade .wrongTokenOwnerOrDelegate)

theorem checkStakeAmountAndValidator_eq_ok {account : StakeAccount} {x : ℕ} {vote : Pubkey}
    {u : Unit} :
    checkStakeAmountAndValidator account x vote = .ok u ↔
      ∃ d, account.delegation = some d ∧ d.voterPubkey = vote ∧ d.stake = x := by
  unfold checkStakeAmountAndValidator
  split
  · simp [ensure_bind_eq_ok, *]
  · simp [*]

end Marinade
