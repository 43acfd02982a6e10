import Marinade.Runtime
import Marinade.State.List

/-!
# The stake system

The list of the stake accounts the program manages, with what each was worth when it was last
looked at, and the parameters of the stake delta.
-/

open Foundation

namespace Marinade

/-- What the program remembers of a stake account's activity. -/
inductive StakeStatus
  /-- Written before the status was kept. -/
  | unknown
  | active
  | deactivating
  deriving DecidableEq, Repr

/-- A record of the stake list. -/
structure StakeRecord where
  stakeAccount : Pubkey
  lastUpdateDelegatedLamports : ℕ
  lastUpdateEpoch : ℕ
  isEmergencyUnstaking : Bool
  /-- The native account can be deactivated by anybody once its validator is delinquent, so the
  program keeps its own status to notice that. -/
  lastUpdateStatus : StakeStatus
  deriving DecidableEq, Repr

def StakeRecord.new (stakeAccount : Pubkey) (delegatedLamports : ℕ) (clock : Clock)
    (isEmergencyUnstaking isActive : Bool) : StakeRecord where
  stakeAccount := stakeAccount
  lastUpdateDelegatedLamports := delegatedLamports
  lastUpdateEpoch := clock.epoch
  isEmergencyUnstaking := isEmergencyUnstaking
  lastUpdateStatus := if isActive then .active else .deactivating

/-- Serialized length of a `StakeRecord`. -/
def stakeRecordLen : ℕ := 50

structure StakeSystem where
  stakeList : AccountList StakeRecord
  delayedUnstakeCoolingDown : ℕ
  /-- How many slots before the end of the epoch the stake delta may start. -/
  slotsForStakeDelta : ℕ
  lastStakeDeltaEpoch : ℕ
  minStake : ℕ
  extraStakeDeltaRuns : ℕ

namespace StakeSystem

/-- `MIN_UPDATE_WINDOW` -/
def minUpdateWindow : ℕ := 3000

def new (stakeListLen : ℕ) (slotsForStakeDelta minStake : ℕ)
    (extraStakeDeltaRuns additionalRecordSpace : ℕ) : Except Error StakeSystem := do
  let itemSize ← addUpTo u32Max stakeRecordLen additionalRecordSpace
  let stakeList ← AccountList.new itemSize stakeListLen
  return {
    stakeList
    delayedUnstakeCoolingDown := 0
    slotsForStakeDelta
    lastStakeDeltaEpoch := epochMax
    minStake
    extraStakeDeltaRuns }

def stakeCount (s : StakeSystem) : ℕ :=
  s.stakeList.len

def add (s : StakeSystem) (stakeAccount : Pubkey) (delegatedLamports : ℕ) (clock : Clock)
    (isEmergencyUnstaking isActive : Bool) : Except Error StakeSystem := do
  let stakeList ← s.stakeList.push
    (.new stakeAccount delegatedLamports clock isEmergencyUnstaking isActive)
  return { s with stakeList }

/-- The record at `index`, which must be about `receivedPubkey`. -/
def getChecked (s : StakeSystem) (index : ℕ) (receivedPubkey : Pubkey) :
    Except Error StakeRecord := do
  let record ← s.stakeList.get index
  ensure (record.stakeAccount = receivedPubkey) (.marinade .wrongStakeAccountOrIndex)
  return record

def set (s : StakeSystem) (index : ℕ) (stake : StakeRecord) : Except Error StakeSystem := do
  let stakeList ← s.stakeList.set index stake
  return { s with stakeList }

def remove (s : StakeSystem) (index : ℕ) : Except Error StakeSystem := do
  let stakeList ← s.stakeList.remove index
  return { s with stakeList }

/-- The live records. -/
abbrev records (s : StakeSystem) : List StakeRecord :=
  s.stakeList.items

section

variable {s s' : StakeSystem} {i : ℕ} {k : Pubkey} {x : ℕ} {c : Clock} {em act : Bool}
  {r : StakeRecord}

theorem getChecked_eq_ok :
    s.getChecked i k = .ok r ↔ s.records[i]? = some r ∧ r.stakeAccount = k := by
  simp only [getChecked, bind_eq_ok, AccountList.get_eq_ok, ensure_eq_ok, pure_eq_ok]
  constructor
  · rintro ⟨r, hr, -, hk, rfl⟩
    exact ⟨hr, hk⟩
  · rintro ⟨hr, hk⟩
    exact ⟨r, hr, (), hk, rfl⟩

/-- An operation on the list leaves the rest of the stake system alone. -/
theorem set_eq_ok (h : s.set i r = .ok s') :
    s' = { s with stakeList := s'.stakeList } ∧ s'.records = s.records.set i r := by
  obtain ⟨l, hl, hs⟩ := bind_eq_ok.mp h
  cases hs
  exact ⟨rfl, AccountList.set_items hl⟩

theorem get_of_set (h : s.set i r = .ok s') : s'.records[i]? = some r := by
  obtain ⟨l, hl, hs⟩ := bind_eq_ok.mp h
  cases hs
  exact AccountList.get_of_set hl

theorem set_again (h : s.set i r = .ok s') : s'.set i r = .ok s' := by
  obtain ⟨l, hl, hs⟩ := bind_eq_ok.mp h
  cases hs
  exact bind_eq_ok.mpr ⟨l, AccountList.set_again hl, rfl⟩

theorem add_eq_ok (h : s.add k x c em act = .ok s') :
    s' = { s with stakeList := s'.stakeList } ∧
      s'.records = s.records ++ [.new k x c em act] := by
  obtain ⟨l, hl, hs⟩ := bind_eq_ok.mp h
  cases hs
  exact ⟨rfl, AccountList.push_items hl⟩

theorem remove_eq_ok (h : s.remove i = .ok s') :
    s' = { s with stakeList := s'.stakeList } ∧ s'.records = swapRemove s.records i := by
  obtain ⟨l, hl, hs⟩ := bind_eq_ok.mp h
  cases hs
  exact ⟨rfl, AccountList.remove_items hl⟩

end

end StakeSystem

end Marinade
