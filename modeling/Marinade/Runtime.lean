import Marinade.Error
import Mathlib.Data.Int.Notation

/-!
# The runtime: addresses, clock and sysvars

Addresses come in two kinds. The program derives some from seeds and from the address of its state:
they are off the curve, so no private key exists for them, and different seeds give different
addresses. All the others belong to somebody else, who may sign for them.

The sysvars the program reads are parameters: the rent schedule, the epoch schedule and the stake
history. So is what the cluster has configured for the stake program. The clock is part of the
world because it moves.
-/

namespace Marinade

/-- Account addresses. -/
inductive Pubkey
  /-- An address this program did not derive. -/
  | external (n : ℕ)
  | state
  | stakeList
  | validatorList
  /-- seeds `"reserve"` -/
  | reserve
  /-- seeds `"liq_sol"` -/
  | solLeg
  | msolLeg
  /-- seeds `"liq_st_sol_authority"` -/
  | msolLegAuthority
  /-- seeds `"deposit"` -/
  | stakeDepositAuthority
  /-- seeds `"withdraw"` -/
  | stakeWithdrawAuthority
  /-- seeds `validator`, `"canonical_stake"` -/
  | canonicalStake (validator : Pubkey)
  /-- seeds `"unique_validator"`, `validator` -/
  | duplicationFlag (validator : Pubkey)
  /-- Where slashed lamports go. -/
  | incinerator
  deriving DecidableEq, Repr

namespace Pubkey

/-- `Pubkey::default()` -/
protected def default : Pubkey := .external 0

/-- Whether somebody may sign a transaction for this address. -/
def canSign : Pubkey → Bool
  | .external _ => true
  | _ => false

/-- Whether there can be a stake account at this address. Of the derived addresses only the
canonical ones are for stake. -/
def holdsStake : Pubkey → Bool
  | .external _ => true
  | .canonicalStake _ => true
  | _ => false

theorem holdsStake_of_canSign {k : Pubkey} (h : k.canSign = true) : k.holdsStake = true := by
  cases k with
  | external n => rfl
  | _ => cases h

end Pubkey

/-- `Epoch::MAX`: in a delegation, "not deactivating"; in a record, "never". -/
def epochMax : ℕ := u64Max

/-- The clock sysvar. -/
structure Clock where
  slot : ℕ
  epoch : ℕ
  epochStartTimestamp : ℤ
  unixTimestamp : ℤ
  /-- No chain gets as far as the epoch that stands for "never". -/
  epoch_lt : epoch < epochMax

/-- A stake delegation. -/
structure Delegation where
  voterPubkey : Pubkey
  stake : ℕ
  activationEpoch : ℕ
  deactivationEpoch : ℕ
  deriving DecidableEq, Repr

structure Lockup where
  unixTimestamp : ℤ
  epoch : ℕ
  custodian : Pubkey
  deriving DecidableEq, Repr

/-- `Lockup::default()` -/
protected def Lockup.default : Lockup := ⟨0, 0, .default⟩

/-- `Lockup::is_in_force` without a custodian. -/
def Lockup.isInForce (lockup : Lockup) (clock : Clock) : Bool :=
  decide (clock.unixTimestamp < lockup.unixTimestamp) || decide (clock.epoch < lockup.epoch)

/-- The sysvars that do not move, and the settings of the stake program. -/
structure Runtime where
  /-- `Rent::minimum_balance`, by the length of the account data. -/
  minimumBalance : ℕ → ℕ
  /-- No account is free of rent, however little data it has. -/
  minimumBalance_pos : ∀ dataLen, 0 < minimumBalance dataLen
  /-- `EpochSchedule::get_last_slot_in_epoch` -/
  lastSlotInEpoch : ℕ → ℕ
  /-- The part of a deactivated delegation that has not cooled down by an epoch, from the stake
  history. -/
  effectiveStake : Delegation → ℕ → ℕ
  /-- The least that may be delegated. -/
  minimumDelegation : ℕ
  minimumDelegation_pos : 0 < minimumDelegation
  /-- Whether the second delegation may be merged into the first: neither is partly activated or
  partly cooled down, and each is as far as the other. -/
  mergeable : Delegation → Delegation → ℕ → Bool
  /-- Whether merging the second delegation into the first also delegates the lamports that kept
  the merged account rent exempt, which depends on how far each is activated. -/
  mergeDelegatesRent : Delegation → Delegation → ℕ → Bool

namespace Runtime

/-- Rent exemption of a stake account: `size_of::<StakeState>()` is 200. -/
def stakeRent (rt : Runtime) : ℕ := rt.minimumBalance 200

/-- Rent exemption of a token account: `spl_token::state::Account::LEN` is 165. -/
def tokenAccountRent (rt : Runtime) : ℕ := rt.minimumBalance 165

/-- Rent exemption of a ticket account: a discriminator and `TicketAccountData` are 88 bytes. -/
def ticketRent (rt : Runtime) : ℕ := rt.minimumBalance 88

end Runtime

end Marinade
