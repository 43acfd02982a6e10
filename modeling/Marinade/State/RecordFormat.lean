import Marinade.Foundation.Format
import Marinade.State.PackedList
import Marinade.State.StakeSystem
import Marinade.State.ValidatorSystem

/-!
# How the records are stored

The records of both lists are serialized field by field, integers with their lowest byte first, and
flags and statuses as a byte each. So all records of a list have the same length, which is what the
size of a slot is made of.

A stored record has addresses of 32 bytes. Which address of the pool they are is said by a naming.
-/

open Foundation

namespace Marinade

/-- An address as it is stored. -/
abbrev Address := Vector UInt8 32

/-! ## Stake records -/

namespace StakeStatus

def tag : StakeStatus → UInt8
  | unknown => 0
  | active => 1
  | deactivating => 2

def ofTag (b : UInt8) : Option StakeStatus :=
  if b = 0 then some unknown
  else if b = 1 then some active
  else if b = 2 then some deactivating
  else none

theorem ofTag_eq_some (b : UInt8) (status : StakeStatus) :
    ofTag b = some status ↔ b = status.tag := by
  unfold ofTag
  cases status <;> grind [tag]

/-- A status is a byte below 3. -/
def format : Format StakeStatus :=
  Format.byte.tagged tag ofTag ofTag_eq_some

end StakeStatus

/-- A record of the stake list as it is stored. -/
structure StoredStakeRecord where
  stakeAccount : Address
  lastUpdateDelegatedLamports : UInt64
  lastUpdateEpoch : UInt64
  isEmergencyUnstaking : Bool
  lastUpdateStatus : StakeStatus
  deriving DecidableEq, Repr

namespace StoredStakeRecord

/-- The record and its fields one behind the other. -/
def fields : Address × UInt64 × UInt64 × Bool × StakeStatus ≃ StoredStakeRecord where
  toFun p := ⟨p.1, p.2.1, p.2.2.1, p.2.2.2.1, p.2.2.2.2⟩
  invFun r := (r.stakeAccount, r.lastUpdateDelegatedLamports, r.lastUpdateEpoch,
    r.isEmergencyUnstaking, r.lastUpdateStatus)
  left_inv _ := rfl
  right_inv _ := rfl

def format : Format StoredStakeRecord :=
  ((Format.bytes 32).pair
    (Format.u64.pair (Format.u64.pair (Format.bool.pair StakeStatus.format)))).iso fields

theorem format_size : format.size = stakeRecordLen :=
  rfl

/-- The record it stands for. -/
def record (name : Address → Pubkey) (r : StoredStakeRecord) : StakeRecord where
  stakeAccount := name r.stakeAccount
  lastUpdateDelegatedLamports := r.lastUpdateDelegatedLamports.toNat
  lastUpdateEpoch := r.lastUpdateEpoch.toNat
  isEmergencyUnstaking := r.isEmergencyUnstaking
  lastUpdateStatus := r.lastUpdateStatus

end StoredStakeRecord

/-! ## Validator records -/

/-- A record of the validator list as it is stored. -/
structure StoredValidatorRecord where
  validatorAccount : Address
  activeBalance : UInt64
  score : UInt32
  lastStakeDeltaEpoch : UInt64
  duplicationFlagBumpSeed : UInt8
  delinquentUpgraderActiveBalance : UInt64
  deriving DecidableEq, Repr

namespace StoredValidatorRecord

/-- The record and its fields one behind the other. -/
def fields : Address × UInt64 × UInt32 × UInt64 × UInt8 × UInt64 ≃ StoredValidatorRecord where
  toFun p := ⟨p.1, p.2.1, p.2.2.1, p.2.2.2.1, p.2.2.2.2.1, p.2.2.2.2.2⟩
  invFun r := (r.validatorAccount, r.activeBalance, r.score, r.lastStakeDeltaEpoch,
    r.duplicationFlagBumpSeed, r.delinquentUpgraderActiveBalance)
  left_inv _ := rfl
  right_inv _ := rfl

def format : Format StoredValidatorRecord :=
  ((Format.bytes 32).pair (Format.u64.pair (Format.u32.pair
    (Format.u64.pair (Format.byte.pair Format.u64))))).iso fields

theorem format_size : format.size = ValidatorRecord.len :=
  rfl

/-- The record it stands for. The seed of the flag's address is not part of it. -/
def record (name : Address → Pubkey) (r : StoredValidatorRecord) : ValidatorRecord where
  validatorAccount := name r.validatorAccount
  activeBalance := r.activeBalance.toNat
  score := r.score.toNat
  lastStakeDeltaEpoch := r.lastStakeDeltaEpoch.toNat
  delinquentUpgraderActiveBalance := r.delinquentUpgraderActiveBalance.toNat

end StoredValidatorRecord

/-! ## The two lists -/

/-- `b"staker__"` -/
def stakeListDiscriminator : Vector UInt8 8 := #v[115, 116, 97, 107, 101, 114, 95, 95]

/-- `b"validatr"` -/
def validatorListDiscriminator : Vector UInt8 8 := #v[118, 97, 108, 105, 100, 97, 116, 114]

/-- Read all live records off the bytes. -/
def PackedList.readAll {α : Type} (format : Format α) (list : PackedList) : Option (List α) :=
  (List.range list.count).mapM fun i ↦ format.codec.deserialize (slot 8 list.itemSize list.data i)

end Marinade
