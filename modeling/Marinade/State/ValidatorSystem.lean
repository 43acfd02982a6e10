import Marinade.Calc
import Marinade.Runtime
import Marinade.State.List

/-!
# The validator system

The list of the validators stake may go to, with the active stake of each and the score that
decides its share.
-/

open Foundation

namespace Marinade

/-- A record of the validator list. -/
structure ValidatorRecord where
  /-- Validator vote pubkey -/
  validatorAccount : Pubkey
  /-- Validator total balance in lamports, which must be 0 for removing -/
  activeBalance : ℕ
  score : ℕ
  lastStakeDeltaEpoch : ℕ
  delinquentUpgraderActiveBalance : ℕ
  deriving DecidableEq, Repr

namespace ValidatorRecord

def duplicationFlagAddress (v : ValidatorRecord) : Pubkey :=
  .duplicationFlag v.validatorAccount

def new (validatorAccount : Pubkey) (score : ℕ) (duplicationFlagAddress : Pubkey) :
    Except Error ValidatorRecord := do
  ensure (.duplicationFlag validatorAccount = duplicationFlagAddress)
    (.marinade .wrongValidatorDuplicationFlag)
  return {
    validatorAccount
    activeBalance := 0
    score
    lastStakeDeltaEpoch := epochMax
    delinquentUpgraderActiveBalance := 0 }

/-- Serialized length of a `ValidatorRecord`. -/
def len : ℕ := 61

end ValidatorRecord

structure ValidatorSystem where
  validatorList : AccountList ValidatorRecord
  managerAuthority : Pubkey
  totalValidatorScore : ℕ
  /-- sum of all active lamports staked -/
  totalActiveBalance : ℕ

namespace ValidatorSystem

def new (validatorListLen : ℕ) (managerAuthority : Pubkey) (additionalRecordSpace : ℕ) :
    Except Error ValidatorSystem := do
  let itemSize ← addUpTo u32Max ValidatorRecord.len additionalRecordSpace
  let validatorList ← AccountList.new itemSize validatorListLen
  return { validatorList, managerAuthority, totalValidatorScore := 0, totalActiveBalance := 0 }

def validatorCount (s : ValidatorSystem) : ℕ :=
  s.validatorList.len

def add (s : ValidatorSystem) (validatorAccount : Pubkey) (score : ℕ)
    (duplicationFlagAddress : Pubkey) : Except Error ValidatorSystem := do
  let record ← ValidatorRecord.new validatorAccount score duplicationFlagAddress
  let validatorList ← s.validatorList.push record
  let totalValidatorScore ← addUpTo u32Max s.totalValidatorScore score
  return { s with validatorList, totalValidatorScore }

def remove (s : ValidatorSystem) (index : ℕ) (record : ValidatorRecord) :
    Except Error ValidatorSystem := do
  ensure (record.activeBalance = 0) (.marinade .removingValidatorWithBalance)
  let totalValidatorScore ← checkedSub .totalValidatorScore s.totalValidatorScore record.score
  let validatorList ← s.validatorList.remove index
  return { s with validatorList, totalValidatorScore }

def get (s : ValidatorSystem) (index : ℕ) : Except Error ValidatorRecord :=
  s.validatorList.get index

/-- The record at `index`, which must be about `receivedPubkey`. -/
def getChecked (s : ValidatorSystem) (index : ℕ) (receivedPubkey : Pubkey) :
    Except Error ValidatorRecord := do
  let record ← s.validatorList.get index
  ensure (record.validatorAccount = receivedPubkey) (.marinade .wrongValidatorAccountOrIndex)
  return record

def set (s : ValidatorSystem) (index : ℕ) (record : ValidatorRecord) :
    Except Error ValidatorSystem := do
  let validatorList ← s.validatorList.set index record
  return { s with validatorList }

/-- The share of `totalStakeTarget` that the score of `validator` entitles it to. -/
def validatorStakeTarget (s : ValidatorSystem) (validator : ValidatorRecord)
    (totalStakeTarget : ℕ) : Except Error ℕ :=
  if s.totalValidatorScore = 0 then .ok 0
  else proportional totalStakeTarget validator.score s.totalValidatorScore

/-- The live records. -/
abbrev records (s : ValidatorSystem) : List ValidatorRecord :=
  s.validatorList.items

section

variable {s s' : ValidatorSystem} {i score : ℕ} {k flag : Pubkey} {v : ValidatorRecord}

theorem getChecked_eq_ok :
    s.getChecked i k = .ok v ↔ s.records[i]? = some v ∧ v.validatorAccount = k := by
  simp only [getChecked, bind_eq_ok, AccountList.get_eq_ok, ensure_eq_ok, pure_eq_ok]
  constructor
  · rintro ⟨v, hv, -, hk, rfl⟩
    exact ⟨hv, hk⟩
  · rintro ⟨hv, hk⟩
    exact ⟨v, hv, (), hk, rfl⟩

/-- An operation on the list leaves the rest of the validator system alone. -/
theorem set_eq_ok (h : s.set i v = .ok s') :
    s' = { s with validatorList := s'.validatorList } ∧ s'.records = s.records.set i v := by
  obtain ⟨l, hl, hs⟩ := bind_eq_ok.mp h
  cases hs
  exact ⟨rfl, AccountList.set_items hl⟩

theorem get_of_set (h : s.set i v = .ok s') : s'.records[i]? = some v := by
  obtain ⟨l, hl, hs⟩ := bind_eq_ok.mp h
  cases hs
  exact AccountList.get_of_set hl

theorem set_again (h : s.set i v = .ok s') : s'.set i v = .ok s' := by
  obtain ⟨l, hl, hs⟩ := bind_eq_ok.mp h
  cases hs
  exact bind_eq_ok.mpr ⟨l, AccountList.set_again hl, rfl⟩

theorem add_eq_ok (h : s.add k score flag = .ok s') :
    s' = { s with
        validatorList := s'.validatorList
        totalValidatorScore := s.totalValidatorScore + score } ∧
      flag = .duplicationFlag k ∧
      s'.records = s.records ++ [⟨k, 0, score, epochMax, 0⟩] := by
  simp only [add, ValidatorRecord.new, bind_eq_ok, ensure_eq_ok, pure_eq_ok, addUpTo_eq_ok] at h
  obtain ⟨-, ⟨-, hflag, rfl⟩, l, hl, t, ⟨-, rfl⟩, rfl⟩ := h
  exact ⟨rfl, hflag.symm, AccountList.push_items hl⟩

theorem remove_eq_ok (h : s.remove i v = .ok s') :
    s' = { s with
        validatorList := s'.validatorList
        totalValidatorScore := s.totalValidatorScore - v.score } ∧
      v.activeBalance = 0 ∧ v.score ≤ s.totalValidatorScore ∧
      s'.records = swapRemove s.records i := by
  simp only [remove, bind_eq_ok, ensure_eq_ok, pure_eq_ok, checkedSub_eq_ok] at h
  obtain ⟨-, hbal, t, ⟨hscore, rfl⟩, l, hl, rfl⟩ := h
  exact ⟨rfl, hbal, hscore, AccountList.remove_items hl⟩

end

end ValidatorSystem

end Marinade
