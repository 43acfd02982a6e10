import Marinade.Checks
import Marinade.Ownership
import Marinade.State.Books

/-!
# Taking stake out of activity

Three instructions deactivate stake: the stake delta of `deactivate_stake`, and the two of the
validator manager, `partial_unstake` and `emergency_unstake`. Each deactivates a whole account of
the list or splits a part off and deactivates that, and moves the amount in the books from active to
cooling down. They share the calls and the shape of the effect, which are stated here once.
-/

open Foundation Foundation.Ledger

namespace Marinade

/-- The stake account as its record remembers it: active, not in an emergency. -/
def requireActiveRecord (stake : StakeRecord) : Except Error Unit := do
  ensure (stake.lastUpdateStatus = .active) (.marinade .requiredActiveStake)
  ensure (!stake.isEmergencyUnstaking) (.marinade .stakeAccountIsEmergencyUnstaking)

/-- Split `x` off into a new account and deactivate that. -/
def splitAndDeactivate (rt : Runtime) (c : Chain) (stakeAccount splitStakeAccount : Pubkey)
    (x : ℕ) : Except Error Chain := do
  let c ← StakeProgram.split rt c stakeAccount splitStakeAccount .stakeDepositAuthority x
  StakeProgram.deactivate c splitStakeAccount .stakeDepositAuthority

/-- Move `unstakeAmount` from active to the emergency cooling down and store both records. -/
def moveToEmergency (stakeIndex validatorIndex : ℕ) (stake : StakeRecord)
    (validator : ValidatorRecord) (unstakeAmount : ℕ) (s : State) : Except Error State := do
  let activeBalance ← checkedSub .validatorActiveBalance validator.activeBalance unstakeAmount
  let totalActiveBalance ←
    checkedSub .totalActiveBalance s.validatorSystem.totalActiveBalance unstakeAmount
  let emergencyCoolingDown ← checkedAdd s.emergencyCoolingDown unstakeAmount
  let stakeSystem ← s.stakeSystem.set stakeIndex stake
  let validatorSystem ← { s.validatorSystem with totalActiveBalance }.set validatorIndex
    { validator with activeBalance }
  return { s with stakeSystem, validatorSystem, emergencyCoolingDown }

/-- A step that counts the `x` lamports it moves. -/
structure World.Counted (w w' : World) (x : ℕ) : Prop where
  epoch_eq : w'.state.lastStakeMoveEpoch = w.clock.epoch
  moved_eq : w'.state.stakeMoved = w.state.movedIn w.clock.epoch + x
  emergency_eq : w'.state.emergencyCoolingDown = w.state.emergencyCoolingDown + x
  moved_le : w'.state.stakeMoved ≤ w.state.moveCap w.state.maxStakeMovedPerEpoch

/-- What all unstaking of `x` has in common: the record `r` at `i`, of an account with delegation
`d`, and the validator `v` at `j` were as the checks want them, and the books moved `x` from active
to cooling down. The validator then says that the stake delta was there in `epoch`, and the stake
moved in the epoch counts what an emergency takes. -/
structure Unstaked (emergency : Bool) (stakeAccount : Pubkey) (i j : ℕ) (w w' : World)
    (account : StakeAccount) (d : Delegation) (r : StakeRecord) (v : ValidatorRecord)
    (x epoch : ℕ) : Prop where
  not_paused : w.state.paused = false
  done : w.state.delinquentUpgrader = .done
  account_eq : w.stakes stakeAccount = some account
  delegation_eq : account.delegation = some d
  active : d.deactivationEpoch = epochMax
  record : w.state.stakeSystem.records[i]? = some r
  record_key : r.stakeAccount = stakeAccount
  record_active : r.lastUpdateStatus = .active
  not_emergency : r.isEmergencyUnstaking = false
  validator : w.state.validatorSystem.records[j]? = some v
  voter : d.voterPubkey = v.validatorAccount
  updated : d.stake = r.lastUpdateDelegatedLamports
  validator_balance : x ≤ v.activeBalance
  total_balance : x ≤ w.state.validatorSystem.totalActiveBalance
  validators_eq : w'.state.validatorSystem.records
    = w.state.validatorSystem.records.set j
      { v with activeBalance := v.activeBalance - x, lastStakeDeltaEpoch := epoch }
  state_eq : ∃ deltaEpoch moveEpoch moved, w'.state = { w.state with
    validatorSystem := { w.state.validatorSystem with
      validatorList := w'.state.validatorSystem.validatorList
      totalActiveBalance := w.state.validatorSystem.totalActiveBalance - x }
    stakeSystem := { w.state.stakeSystem with
      stakeList := w'.state.stakeSystem.stakeList
      delayedUnstakeCoolingDown :=
        w.state.stakeSystem.delayedUnstakeCoolingDown + (if emergency then 0 else x)
      lastStakeDeltaEpoch := deltaEpoch }
    emergencyCoolingDown := w.state.emergencyCoolingDown + (if emergency then x else 0)
    lastStakeMoveEpoch := moveEpoch
    stakeMoved := moved }
  delta_epoch : w'.state.stakeSystem.lastStakeDeltaEpoch
    = if emergency then w.state.stakeSystem.lastStakeDeltaEpoch else w.clock.epoch
  counted : emergency = true → w.Counted w' x
  same_moves : emergency = false → w.state.SameMoves w'.state
  capital_eq : w'.lamports.total = w.lamports.total
  frame : w'.toChain = { w.toChain with lamports := w'.lamports, stakes := w'.stakes }

/-- Unstaking the whole account, which takes from nobody but the signers. -/
structure UnstakedWhole (signers : List Pubkey) (emergency : Bool) (stakeAccount : Pubkey)
    (i j : ℕ) (w w' : World) (account : StakeAccount) (d : Delegation) (r : StakeRecord)
    (v : ValidatorRecord) : Prop
    extends Unstaked emergency stakeAccount i j w w' account d r v
      r.lastUpdateDelegatedLamports v.lastStakeDeltaEpoch where
  records_eq : w'.state.stakeSystem.records = w.state.stakeSystem.records.set i
    { r with lastUpdateStatus := .deactivating, isEmergencyUnstaking := emergency }
  stakes_eq : w'.stakes = Function.update w.stakes stakeAccount (some { account with
    delegation := some { d with deactivationEpoch := w.clock.epoch } })
  guarded_le : ∀ k, w.Guarded k → w.lamportsOf k ≤ w'.lamportsOf k
  spares : w.SparesOthers signers w'.toChain

/-- Unstaking `x` of the account, split off into `splitStakeAccount`. The stake delta notes that it
was at the validator, where it had not been in the epoch. -/
structure UnstakedSplit (rt : Runtime) (emergency : Bool)
    (stakeAccount splitStakeAccount payer : Pubkey) (i j : ℕ) (w w' : World)
    (account : StakeAccount) (d : Delegation) (r : StakeRecord) (v : ValidatorRecord)
    (x topUp : ℕ) : Prop
    extends Unstaked emergency stakeAccount i j w w' account d r v x
      (if emergency then v.lastStakeDeltaEpoch else w.clock.epoch) where
  first : emergency = false → v.lastStakeDeltaEpoch ≠ w.clock.epoch
  split_pos : 0 < x
  split_lt : x < r.lastUpdateDelegatedLamports
  payer_unused : w.isUnused payer = true
  split_unused : w.isUnused splitStakeAccount = true
  rent_covered : rt.stakeRent + x ≤ w'.lamportsOf splitStakeAccount
  records_eq : w'.state.stakeSystem.records =
    (w.state.stakeSystem.records ++
      [StakeRecord.new splitStakeAccount x w.clock emergency false]).set i
      { r with lastUpdateDelegatedLamports := r.lastUpdateDelegatedLamports - x }
  stakes_eq : w'.stakes = Function.update (Function.update w.stakes stakeAccount
      (some { account with delegation := some { d with stake := d.stake - x } }))
    splitStakeAccount (some ⟨{ account.stakeMeta with rentExemptReserve := rt.stakeRent },
      some { d with stake := x, deactivationEpoch := w.clock.epoch }⟩)
  lamports_eq : ∀ k, w'.lamportsOf k + only payer topUp k + only stakeAccount x k
    = w.lamportsOf k + only splitStakeAccount (topUp + x) k
  spares : w.SparesOthers [payer, splitStakeAccount] w'.toChain

/-- The effect when nothing is unstaked and the account that the signers created for a split is
given back. -/
structure NotUnstaked (signers : List Pubkey) (w w' : World) : Prop where
  not_paused : w.state.paused = false
  guarded_le : ∀ k, w.Guarded k → w.lamportsOf k ≤ w'.lamportsOf k
  capital_eq : w'.lamports.total = w.lamports.total
  state_eq : w'.state = w.state
  spares : w.SparesOthers signers w'.toChain
  frame : w'.toChain = { w.toChain with lamports := w'.lamports }

/-- What the checks in front of unstaking establish. -/
structure Unstakable (stakeAccount : Pubkey) (i j : ℕ) (w : World) (account : StakeAccount)
    (d : Delegation) (r : StakeRecord) (v : ValidatorRecord) : Prop where
  not_paused : w.state.paused = false
  done : w.state.delinquentUpgrader = .done
  account_eq : w.stakes stakeAccount = some account
  delegation_eq : account.delegation = some d
  record : w.state.stakeSystem.records[i]? = some r
  record_key : r.stakeAccount = stakeAccount
  record_active : r.lastUpdateStatus = .active
  not_emergency : r.isEmergencyUnstaking = false
  validator : w.state.validatorSystem.records[j]? = some v
  voter : d.voterPubkey = v.validatorAccount
  updated : d.stake = r.lastUpdateDelegatedLamports

section

variable {rt : Runtime} {c c₁ c₂ c' : Chain} {payer src dst : Pubkey} {account : StakeAccount}
  {d : Delegation} {r : StakeRecord} {v : ValidatorRecord} {s s' : State} {i j x epoch : ℕ}
  {u : Unit}

theorem moveToEmergency_spec (h : moveToEmergency i j r v x s = .ok s') :
    x ≤ v.activeBalance ∧ x ≤ s.validatorSystem.totalActiveBalance ∧
    s'.stakeSystem.records = s.stakeSystem.records.set i r ∧
    s'.validatorSystem.records
      = s.validatorSystem.records.set j { v with activeBalance := v.activeBalance - x } ∧
    s' = { s with
      validatorSystem := { s.validatorSystem with
        validatorList := s'.validatorSystem.validatorList
        totalActiveBalance := s.validatorSystem.totalActiveBalance - x }
      stakeSystem := { s.stakeSystem with stakeList := s'.stakeSystem.stakeList }
      emergencyCoolingDown := s.emergencyCoolingDown + x } := by
  simp only [moveToEmergency, bind_eq_ok, checkedSub_eq_ok, checkedAdd_eq_ok, pure_eq_ok] at h
  obtain ⟨active, ⟨hv, rfl⟩, total, ⟨ht, rfl⟩, emergency, ⟨-, rfl⟩, ss, hss, vs, hvs, rfl⟩ := h
  obtain ⟨hss, hrecords⟩ := StakeSystem.set_eq_ok hss
  obtain ⟨hvs, hvalidators⟩ := ValidatorSystem.set_eq_ok hvs
  refine ⟨hv, ht, hrecords, hvalidators, ?_⟩
  simp only
  rw [hss, hvs]

theorem counted_of_moveToEmergency {w : World} {clock : Clock} {s₁ s₂ : State}
    (hs : s.onStakeMoved x clock = .ok s₁) (hclock : clock = w.clock)
    (hmoved : s.movedIn = w.state.movedIn)
    (hemergency : s.emergencyCoolingDown = w.state.emergencyCoolingDown)
    (hcap : s.moveCap s.maxStakeMovedPerEpoch = w.state.moveCap w.state.maxStakeMovedPerEpoch)
    (h : moveToEmergency i j r v x s₁ = .ok s₂) : w.Counted ⟨c, s₂⟩ x := by
  obtain ⟨-, hle, rfl⟩ := State.onStakeMoved_iff.mp hs
  obtain ⟨-, -, -, -, hstate⟩ := moveToEmergency_spec h
  rw [hmoved, hemergency, hclock] at hstate
  rw [hmoved, hcap, hclock] at hle
  exact ⟨by rw [hstate], by rw [hstate], by rw [hstate],
    by rw [hstate]; exact hle.trans (Nat.mod_le _ _)⟩

theorem requireActiveRecord_eq_ok : requireActiveRecord r = .ok u ↔
    r.lastUpdateStatus = .active ∧ r.isEmergencyUnstaking = false := by
  simp only [requireActiveRecord, bind_eq_ok, ensure_eq_ok, exists_const, Bool.not_eq_true']

theorem splitAndDeactivate_spec
    (h₁ : SystemProgram.initStakeAccount rt c payer dst = .ok c₁)
    (hlamports : c₂.lamports = c₁.lamports) (hstakes : c₂.stakes = c.stakes)
    (h₂ : splitAndDeactivate rt c₂ src dst x = .ok c') (hfunded : c.Funded src)
    (ha : c.stakes src = some account) (hd : account.delegation = some d) (hx : x ≤ d.stake) :
    c.isUnused payer = true ∧ c.isUnused dst = true ∧
    0 < x ∧ x < d.stake ∧ d.deactivationEpoch = epochMax ∧
    ∃ topUp ledger, rt.stakeRent + x ≤ ledger.balance dst ∧ ledger.total = c.lamports.total ∧
      (∀ k, ledger.balance k + only payer topUp k + only src x k
        = c.lamportsOf k + only dst (topUp + x) k) ∧
      c' = { c₂ with
        lamports := ledger
        stakes := Function.update (Function.update c.stakes src (some { account with
            delegation := some { d with stake := d.stake - x } })) dst
          (some ⟨{ account.stakeMeta with rentExemptReserve := rt.stakeRent },
            some { d with stake := x, deactivationEpoch := c₂.clock.epoch }⟩) } := by
  simp only [splitAndDeactivate, bind_eq_ok] at h₂
  obtain ⟨c₃, h₃, h₄⟩ := h₂
  obtain ⟨hpayer, hunused, -, hpos, hlt, topUp, ledger, hcov, ht, hl, rfl⟩ :=
    StakeProgram.split_new_spec h₁ hlamports hstakes h₃ hfunded ha hd hx
  obtain ⟨a, d', ha', hd', -, hmax, rfl⟩ := StakeProgram.deactivate_spec h₄
  simp only [Function.update_self, Option.some.injEq] at ha'
  subst ha'
  simp only [Option.some.injEq] at hd'
  subst hd'
  refine ⟨hpayer, hunused, hpos, hlt, hmax, topUp, ledger, hcov, ht, hl, ?_⟩
  simp only [Chain.setStake, Function.update_idem]

theorem splitAndDeactivate_spares
    (h₁ : SystemProgram.initStakeAccount rt c payer dst = .ok c₁)
    (h₂ : splitAndDeactivate rt c₁ src dst x = .ok c') : c.SparesOthers [payer, dst] c' := by
  simp only [splitAndDeactivate, bind_eq_ok] at h₂
  obtain ⟨c₂, h₂, h₃⟩ := h₂
  intro U hU
  have hnone : c₁.stakes dst = none := by
    obtain ⟨hstakes, hnone, -⟩ := SystemProgram.initStakeAccount_rest h₁
    rw [hstakes, hnone]
  have hinit := SystemProgram.initStakeAccount_spares h₁ hU.not_head
  have hpart := StakeProgram.split_spares h₂ (hU.not_program rfl)
    (Chain.not_owned_of_stakes_none (hU.not_signer dst (by simp)) hnone)
  have hdeactivated := StakeProgram.deactivate_spares h₃ (hU.not_program rfl)
  exact (hinit.trans hpart).trans hdeactivated

/-- The record of the validator afterwards. -/
theorem Unstaked.exists_validator {emergency : Bool} {w w' : World}
    (h : Unstaked emergency src i j w w' account d r v x epoch) :
    ∃ v', w'.state.validatorSystem.records[j]? = some v' ∧
      v'.activeBalance + x = v.activeBalance := by
  refine ⟨{ v with activeBalance := v.activeBalance - x, lastStakeDeltaEpoch := epoch }, ?_,
    Nat.sub_add_cancel h.validator_balance⟩
  rw [h.validators_eq, List.getElem?_set_self (List.getElem?_eq_some_iff.mp h.validator).1]

/-- Giving back an unused account takes nothing from a guarded one. -/
theorem guarded_le_of_return_unused {ledger : Ledger Pubkey} {key : Pubkey} {found : ℕ}
    (hunused : c.isUnused key = true)
    (hl : ∀ k, ledger.balance k + only key found k = c.lamportsOf k + only payer found k)
    {k : Pubkey} (hk : c.Guarded k) : c.lamportsOf k ≤ ledger.balance k := by
  have hne : k ≠ key := by
    rintro rfl
    rw [Chain.Guarded, hunused] at hk
    cases hk
  have := hl k
  rw [only_of_ne hne] at this
  omega

theorem notUnstaked_of_return {w : World} {key : Pubkey} (hpaused : w.state.paused = false)
    (h₁ : SystemProgram.initStakeAccount rt w.toChain payer key = .ok c)
    (h : StakeProgram.withdrawUninitialized c key payer = .ok c') :
    NotUnstaked [payer, key] w { toChain := c', state := w.state } := by
  have hspares := StakeProgram.return_unused_spares h₁ (.refl c) h
  obtain ⟨-, hunused, found, l, ht, hl, hc⟩ := StakeProgram.return_unused_spec h₁ rfl h
  obtain ⟨-, -, -, -, l₁, -, -, -, rfl⟩ := SystemProgram.initStakeAccount_spec h₁
  subst hc
  exact {
    not_paused := hpaused
    guarded_le := fun k hk ↦ guarded_le_of_return_unused hunused hl hk
    capital_eq := ht
    state_eq := rfl
    spares := hspares
    frame := rfl }

end

end Marinade
