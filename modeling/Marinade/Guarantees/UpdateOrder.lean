import Marinade.Invariants.Booked
import Marinade.Invariants.Bounds
import Marinade.Invariants.Registry
import Marinade.Guarantees.Updates

/-!
# The order of updates

Bots update the stake accounts of an epoch in whatever order they like, in parallel and sometimes
twice. What they leave depends only on which accounts were updated: each of them is brought in line
with what was found there at the start, and the totals follow, as they are sums over the records.

The exception is the fee. It is paid in mSOL at a price that moves from one update to the next, so
the number of mSOL the treasury gets, and with it the price, may depend on the order. And if the
rent of closed accounts went to the reserve or to a stake account, another update would take it for
income.
-/

open Foundation Foundation.Ledger

namespace Marinade

/-! ## Runs of updates -/

/-- The account that a step updates. -/
def Label.updates : Label → Option Pubkey
  | .instruction (.updateActive accounts _ _) _ => some accounts.stakeAccount
  | .instruction (.updateDeactivated accounts _ _) _ => some accounts.stakeAccount
  | _ => none

/-- The program where nothing is called but updates. -/
def updating (rt : Runtime) : System World Label :=
  (marinade rt).restrict fun _ l ↦ l.updates.isSome = true

/-- The accounts that a run updates. -/
def updated (ls : List Label) : Finset Pubkey :=
  (ls.filterMap Label.updates).toFinset

/-! ## Who may spend

Updates mint mSOL and do nothing else to the token accounts. -/

section

variable {rt : Runtime} {w w' : World} {i j x : ℕ}

theorem UpdateCommon.withdrawToReserve_msol {accounts : UpdateCommon}
    (h : withdrawToReserve rt accounts x w = .ok w') : w'.msol = w.msol := by
  unfold withdrawToReserve at h
  split at h
  · simp only [bind_eq_ok, pure_eq_ok] at h
    obtain ⟨c, hc, s, -, rfl⟩ := h
    exact StakeProgram.withdraw_msol hc
  · cases h
    rfl

theorem UpdateCommon.mintProtocolFeesIf_holder {ready : Bool}
    (h : mintProtocolFeesIf ready x w = .ok w') : w'.msol.holder = w.msol.holder := by
  rcases mintProtocolFeesIf_chain h with hchain | ⟨fee, msol, hm, hchain⟩
  · rw [hchain]
  · obtain ⟨-, rfl⟩ := TokenMint.mintTo_eq_ok.mp hm
    rw [hchain]

theorem UpdateActive.process_holder {accounts : UpdateCommon}
    (h : process rt accounts i j w = .ok w') : w'.msol.holder = w.msol.holder :=
  process_chain (R := fun c c' ↦ c'.msol.holder = c.msol.holder) h (fun _ ↦ rfl)
    (fun h₁ h₂ ↦ h₂.trans h₁)
    (fun h ↦ congrArg TokenMint.holder (UpdateCommon.withdrawToReserve_msol h))
    UpdateCommon.mintProtocolFeesIf_holder

theorem UpdateDeactivated.process_holder {accounts : UpdateDeactivated}
    (h : process rt accounts i j w = .ok w') : w'.msol.holder = w.msol.holder := by
  refine process_chain (R := fun c c' ↦ c'.msol.holder = c.msol.holder) h
    (fun h₁ h₂ ↦ h₂.trans h₁)
    (fun h ↦ congrArg TokenMint.holder (UpdateCommon.withdrawToReserve_msol h))
    UpdateCommon.mintProtocolFeesIf_holder fun h ↦ ?_
  obtain ⟨l, -, rfl⟩ := SystemProgram.transfer_eq_ok.mp h
  rfl

end

/-! ## What an update makes of an account -/

/-- The delegation of an account that is not deactivated. -/
def StakeAccount.activeStake (account : StakeAccount) : Option ℕ :=
  account.delegation.bind fun d ↦ if d.deactivationEpoch = epochMax then some d.stake else none

namespace World

/-- What goes to the reserve: everything but the rent, and the delegation if it is active. -/
def collected (w : World) (k : Pubkey) : ℕ :=
  (w.stakes k).elim 0 fun account ↦ w.lamportsOf k - account.stakeMeta.rentExemptReserve
    - account.activeStake.getD 0

/-- What goes to the operational account: the rent of an account that is closed. -/
def returnedRent (w : World) (k : Pubkey) : ℕ :=
  (w.stakes k).elim 0 fun account ↦
    account.activeStake.elim account.stakeMeta.rentExemptReserve fun _ ↦ 0

/-- What becomes of the record: it follows the delegation, or is removed. -/
def revised (w : World) (r : StakeRecord) : Option StakeRecord :=
  (w.stakes r.stakeAccount).bind fun account ↦ account.activeStake.map fun stake ↦ { r with
    lastUpdateStatus := .active
    lastUpdateEpoch := w.clock.epoch
    lastUpdateDelegatedLamports := stake }

end World

/-- The fields of the state that updates write. -/
structure Bookings where
  stakeList : AccountList StakeRecord
  validatorList : AccountList ValidatorRecord
  totalActiveBalance : ℕ
  delayedUnstakeCoolingDown : ℕ
  emergencyCoolingDown : ℕ
  availableReserveBalance : ℕ
  msolSupply : ℕ
  msolPrice : ℕ

def State.bookings (s : State) : Bookings where
  stakeList := s.stakeSystem.stakeList
  validatorList := s.validatorSystem.validatorList
  totalActiveBalance := s.validatorSystem.totalActiveBalance
  delayedUnstakeCoolingDown := s.stakeSystem.delayedUnstakeCoolingDown
  emergencyCoolingDown := s.emergencyCoolingDown
  availableReserveBalance := s.availableReserveBalance
  msolSupply := s.msolSupply
  msolPrice := s.msolPrice

def State.withBookings (s : State) (b : Bookings) : State :=
  { s with
    stakeSystem := { s.stakeSystem with
      stakeList := b.stakeList
      delayedUnstakeCoolingDown := b.delayedUnstakeCoolingDown }
    validatorSystem := { s.validatorSystem with
      validatorList := b.validatorList
      totalActiveBalance := b.totalActiveBalance }
    emergencyCoolingDown := b.emergencyCoolingDown
    availableReserveBalance := b.availableReserveBalance
    msolSupply := b.msolSupply
    msolPrice := b.msolPrice }

/-- A validator record but for its balance. -/
def ValidatorRecord.emptied (v : ValidatorRecord) : ValidatorRecord :=
  { v with activeBalance := 0 }

theorem ValidatorRecord.eq_of_emptied {v v' : ValidatorRecord} (h : v.emptied = v'.emptied)
    (hbalance : v.activeBalance = v'.activeBalance) : v = v' := by
  have hfill : ∀ u : ValidatorRecord, { u.emptied with activeBalance := u.activeBalance } = u :=
    fun _ ↦ rfl
  rw [← hfill v, ← hfill v', h, hbalance]

/-- The world `w` is `w₀` with the accounts `T` updated. -/
structure World.Updated (w₀ : World) (T : Finset Pubkey) (w : World) : Prop where
  stakes_eq : ∀ k, w.stakes k
    = if k ∈ T then (w₀.stakes k).filter (·.activeStake.isSome) else w₀.stakes k
  lamports_eq : ∀ k, w.lamportsOf k + (if k ∈ T then w₀.collected k + w₀.returnedRent k else 0)
    = w₀.lamportsOf k + only .reserve (∑ k ∈ T, w₀.collected k) k
      + only w₀.state.operationalSolAccount (∑ k ∈ T, w₀.returnedRent k) k
  capital_eq : w.lamports.total = w₀.lamports.total
  records_iff : ∀ r, r ∈ w.state.stakeSystem.records ↔
    if r.stakeAccount ∈ T then ∃ r₀ ∈ w₀.state.stakeSystem.records, w₀.revised r₀ = some r
    else r ∈ w₀.state.stakeSystem.records
  validators_eq : w.state.validatorSystem.records.map (·.emptied)
    = w₀.state.validatorSystem.records.map (·.emptied)
  available_eq : w.state.availableReserveBalance
    = if T = ∅ then w₀.state.availableReserveBalance
      else w.lamportsOf .reserve - w₀.state.rentExemptForTokenAcc
  holder_eq : w.msol.holder = w₀.msol.holder
  amount_eq : ∀ k, k ≠ w₀.state.treasuryMsolAccount → w.msol.amount k = w₀.msol.amount k
  chain_eq : w.toChain = { w₀.toChain with
    lamports := w.lamports, msol := w.msol, stakes := w.stakes }
  state_eq : w.state = w₀.state.withBookings w.state.bookings

section

variable {rt : Runtime} {w₀ w w' : World} {T : Finset Pubkey} {i j k x : ℕ} {key : Pubkey}
  {account : StakeAccount} {d : Delegation} {r r' : StakeRecord} {v v' : ValidatorRecord}
  {ls : List Label}

theorem State.withBookings_withBookings (s : State) (b b' : Bookings) :
    (s.withBookings b).withBookings b' = s.withBookings b' := rfl

theorem World.Updated.refl (w : World) : w.Updated ∅ w where
  stakes_eq k := by simp
  lamports_eq k := by simp
  capital_eq := rfl
  records_iff r := by simp
  validators_eq := rfl
  available_eq := by simp
  holder_eq := rfl
  amount_eq k _ := rfl
  chain_eq := rfl
  state_eq := rfl

theorem StakeAccount.activeStake_eq_some (hd : account.delegation = some d)
    (ha : d.deactivationEpoch = epochMax) : account.activeStake = some d.stake := by
  rw [activeStake, hd, Option.bind_some, if_pos ha]

theorem StakeAccount.activeStake_eq_none (hd : account.delegation = some d)
    (ha : d.deactivationEpoch ≠ epochMax) : account.activeStake = none := by
  rw [activeStake, hd, Option.bind_some, if_neg ha]

theorem World.revised_eq (ha : w.stakes r.stakeAccount = some account)
    (hx : account.activeStake = some x) : w.revised r = some { r with
      lastUpdateStatus := .active
      lastUpdateEpoch := w.clock.epoch
      lastUpdateDelegatedLamports := x } := by
  rw [revised, ha, Option.bind_some, hx, Option.map_some]

theorem World.stakeAccount_of_revised (h : w.revised r = some r') :
    r'.stakeAccount = r.stakeAccount := by
  simp only [revised, Option.bind_eq_some_iff, Option.map_eq_some_iff] at h
  obtain ⟨_, -, _, -, rfl⟩ := h
  rfl

theorem World.collected_eq (ha : w.stakes key = some account) : w.collected key
    = w.lamportsOf key - account.stakeMeta.rentExemptReserve - account.activeStake.getD 0 := by
  rw [collected, ha, Option.elim_some]

theorem World.returnedRent_eq (ha : w.stakes key = some account) : w.returnedRent key
    = account.activeStake.elim account.stakeMeta.rentExemptReserve fun _ ↦ 0 := by
  rw [returnedRent, ha, Option.elim_some]

namespace World.Updated

variable (h : w₀.Updated T w)

include h

/-- An account that is there was there, and if it has been updated it is active. -/
theorem stakes_some (ha : w.stakes key = some account) :
    w₀.stakes key = some account ∧ (key ∈ T → account.activeStake.isSome = true) := by
  have heq := h.stakes_eq key
  rw [ha] at heq
  split at heq
  · obtain ⟨hs, hactive⟩ := Option.filter_eq_some_iff.mp heq.symm
    exact ⟨hs, fun _ ↦ hactive⟩
  · exact ⟨heq.symm, fun hmem ↦ absurd hmem ‹_›⟩

theorem clock_eq : w.clock = w₀.clock := by
  rw [h.chain_eq]

theorem operational_eq : w.state.operationalSolAccount = w₀.state.operationalSolAccount := by
  rw [h.state_eq]
  rfl

theorem rent_eq : w.state.rentExemptForTokenAcc = w₀.state.rentExemptForTokenAcc := by
  rw [h.state_eq]
  rfl

theorem treasury_eq : w.state.treasuryMsolAccount = w₀.state.treasuryMsolAccount := by
  rw [h.state_eq]
  rfl

/-- The lamports of a stake account are those it had, less what has been taken. -/
theorem lamports_of_stakes (hs : w₀.StakesSound rt)
    (hop : w₀.stakes w₀.state.operationalSolAccount = none) (ha : w₀.stakes key = some account) :
    w.lamportsOf key + (if key ∈ T then w₀.collected key + w₀.returnedRent key else 0)
      = w₀.lamportsOf key := by
  have hstakes : w₀.stakes key ≠ none := by simp [ha]
  have hreserve : key ≠ .reserve := hs.ne hstakes rfl
  have hoperational : key ≠ w₀.state.operationalSolAccount := by
    rintro rfl
    exact hstakes hop
  have heq := h.lamports_eq key
  rwa [only_of_ne hreserve, only_of_ne hoperational] at heq

/-- The list after the record of `key` has been replaced by what becomes of it. -/
theorem records_iff_of_replaced {news rest : List StakeRecord}
    (hreplaced : Replaced w.state.stakeSystem.records w'.state.stakeSystem.records [r] news rest)
    (hd : KeysDistinct (·.stakeAccount) w.state.stakeSystem.records)
    (hkey : r.stakeAccount = key)
    (hnews : ∀ r', r' ∈ news ↔ r'.stakeAccount = key ∧
      ∃ r₀ ∈ w₀.state.stakeSystem.records, w₀.revised r₀ = some r') (r' : StakeRecord) :
    r' ∈ w'.state.stakeSystem.records ↔
      if r'.stakeAccount ∈ insert key T then
        ∃ r₀ ∈ w₀.state.stakeSystem.records, w₀.revised r₀ = some r'
      else r' ∈ w₀.state.stakeSystem.records := by
  have hrest : ∀ r' ∈ rest, r'.stakeAccount ≠ key := fun r' hr' heq ↦
    hreplaced.ne_of_olds_rest hd (List.mem_singleton_self r) hr' (hkey.trans heq.symm)
  rw [hreplaced.mem_iff]
  by_cases hk : r'.stakeAccount = key
  · rw [if_pos (by rw [hk]; exact Finset.mem_insert_self key T), hnews]
    constructor
    · rintro (⟨-, hr⟩ | hr)
      · exact hr
      · exact absurd hk (hrest r' hr)
    · exact fun hr ↦ .inl ⟨hk, hr⟩
  · have hmem : r' ∈ rest ↔ r' ∈ w.state.stakeSystem.records := by
      rw [hreplaced.perm.mem_iff, List.mem_append, List.mem_singleton]
      constructor
      · exact .inr
      · rintro (rfl | hr)
        · exact absurd hkey hk
        · exact hr
    have hinsert : r'.stakeAccount ∈ insert key T ↔ r'.stakeAccount ∈ T := by
      rw [Finset.mem_insert, or_iff_right hk]
    rw [if_congr hinsert rfl rfl, ← h.records_iff, ← hmem, hnews]
    exact or_iff_right fun hr ↦ hk hr.1

/-- The lamports after `x` of those of `key` have gone to the reserve and `y` to the operational
account. -/
theorem lamports_of_moved {y : ℕ}
    (hmoved : ∀ k, w'.lamportsOf k + only key (x + y) k = w.lamportsOf k + only .reserve x k
      + only w₀.state.operationalSolAccount y k)
    (hx : x = if key ∈ T then 0 else w₀.collected key)
    (hy : y = if key ∈ T then 0 else w₀.returnedRent key) (k : Pubkey) :
    w'.lamportsOf k
        + (if k ∈ insert key T then w₀.collected k + w₀.returnedRent k else 0)
      = w₀.lamportsOf k + only .reserve (∑ k ∈ insert key T, w₀.collected k) k
        + only w₀.state.operationalSolAccount (∑ k ∈ insert key T, w₀.returnedRent k) k := by
  have hbefore := h.lamports_eq k
  have hstep := hmoved k
  by_cases hmem : key ∈ T
  · rw [if_pos hmem] at hx hy
    subst hx hy
    rw [Finset.insert_eq_of_mem hmem]
    simp only [only_zero, Nat.add_zero] at hstep
    rw [hstep]
    exact hbefore
  · rw [if_neg hmem] at hx hy
    subst hx hy
    rw [Finset.sum_insert hmem, Finset.sum_insert hmem, only_add, only_add]
    by_cases hk : k = key
    · subst hk
      rw [if_neg hmem] at hbefore
      rw [only_self] at hstep
      rw [if_pos (Finset.mem_insert_self k T)]
      omega
    · have hinsert : k ∈ insert key T ↔ k ∈ T := by rw [Finset.mem_insert, or_iff_right hk]
      rw [only_of_ne hk] at hstep
      rw [if_congr hinsert rfl rfl]
      omega

/-- The accounts after one of them has been closed, or found to be active. -/
theorem stakes_of_visited (ha : w.stakes key = some account) (hk : w'.stakes key
      = if account.activeStake.isSome then some account else none)
    (hframe : ∀ k, k ≠ key → w'.stakes k = w.stakes k) (k : Pubkey) :
    w'.stakes k = if k ∈ insert key T then (w₀.stakes k).filter (·.activeStake.isSome)
      else w₀.stakes k := by
  by_cases heq : k = key
  · subst heq
    rw [if_pos (Finset.mem_insert_self k T), hk, (h.stakes_some ha).1]
    rfl
  · have hinsert : k ∈ insert key T ↔ k ∈ T := by rw [Finset.mem_insert, or_iff_right heq]
    rw [if_congr hinsert rfl rfl, hframe k heq, h.stakes_eq k]

/-- The state after more bookings. -/
theorem state_of_booked (hs : w'.state = w.state.withBookings w'.state.bookings) :
    w'.state = w₀.state.withBookings w'.state.bookings := by
  rw [h.state_eq, State.withBookings_withBookings] at hs
  exact hs

end World.Updated

/-! ## One more update -/

/-- What the next update needs of the worlds before and after the earlier ones. -/
structure World.Ready (rt : Runtime) (w₀ w : World) : Prop where
  sound : w₀.StakesSound rt
  operational : w₀.stakes w₀.state.operationalSolAccount = none
  operational_ne : w₀.state.operationalSolAccount ≠ .reserve
  distinct : KeysDistinct (·.stakeAccount) w₀.state.stakeSystem.records
  wellFormed : WellFormed rt w
  bounds : Bounds w
  booked : Booked w

/-- Realigning lowers the cap only when there is mSOL that was not minted here. -/
theorem World.realigned_eq (h : w.msol.supply ≤ w.state.msolSupply) :
    w.realigned = { w.state with
      availableReserveBalance := w.lamportsOf .reserve - w.state.rentExemptForTokenAcc
      msolSupply := w.msol.supply } := by
  rw [realigned, if_neg (Nat.not_lt.mpr h)]

/-- A closed account is emptied into the reserve, but for its rent. -/
theorem UpdateDeactivated.Spec.moved_lamports {accounts : UpdateDeactivated} {s₁ s₂ : State}
    {fee delinquent : ℕ}
    (hu : UpdateDeactivated.Spec accounts i j w w' account d r r' v s₁ s₂ fee delinquent)
    (k : Pubkey) : w'.lamportsOf k + only accounts.stakeAccount
        (w.lamportsOf accounts.stakeAccount - account.stakeMeta.rentExemptReserve
          + account.stakeMeta.rentExemptReserve) k
      = w.lamportsOf k + only .reserve
        (w.lamportsOf accounts.stakeAccount - account.stakeMeta.rentExemptReserve) k
      + only w.state.operationalSolAccount account.stakeMeta.rentExemptReserve k := by
  have hstep := hu.lamports_eq k
  have hsplit := only_add Pubkey.reserve k (w.lamportsOf accounts.stakeAccount
    - account.stakeMeta.rentExemptReserve) account.stakeMeta.rentExemptReserve
  rw [Nat.sub_add_cancel hu.rent_le] at hsplit ⊢
  rw [← hu.operational]
  omega

/-- What the reserve then holds beyond its rent is available. -/
theorem UpdateDeactivated.Spec.available_eq {accounts : UpdateDeactivated} {s₁ s₂ : State}
    {fee delinquent : ℕ}
    (hu : UpdateDeactivated.Spec accounts i j w w' account d r r' v s₁ s₂ fee delinquent)
    (hs : w.StakesSound rt) (hb : Bounds w) (hne : w.state.operationalSolAccount ≠ .reserve) :
    w'.state.availableReserveBalance
      = w'.lamportsOf .reserve - w.state.rentExemptForTokenAcc := by
  obtain ⟨price, hstate⟩ := hu.state_eq
  have havailable : w'.state.availableReserveBalance
      = w.lamportsOf .reserve - w.state.rentExemptForTokenAcc
        + (w.lamportsOf accounts.stakeAccount - account.stakeMeta.rentExemptReserve) := by
    rw [hstate, hu.booked_out.state_eq, hu.detected.state_eq]
    rfl
  have hreserve := hu.moved_lamports .reserve
  have hstake : Pubkey.reserve ≠ accounts.stakeAccount :=
    (hs.ne (by simp [hu.account_eq]) rfl).symm
  rw [only_self, only_of_ne hstake, only_of_ne hne.symm] at hreserve
  have hle := hb.reserve_le
  omega

/-- An active account that has been updated gets the record that it should have. -/
theorem UpdateActive.Spec.revised_iff {accounts : UpdateCommon} {extra fee₁ fee₂ : ℕ}
    (hu : UpdateActive.Spec accounts i j w w' account d r v v' extra fee₁ fee₂)
    (h : w₀.Updated T w) (hready : World.Ready rt w₀ w) (r' : StakeRecord) :
    r' ∈ [{ r with
        lastUpdateStatus := .active
        lastUpdateEpoch := w.clock.epoch
        lastUpdateDelegatedLamports := d.stake }] ↔
      r'.stakeAccount = accounts.stakeAccount ∧
        ∃ r₀ ∈ w₀.state.stakeSystem.records, w₀.revised r₀ = some r' := by
  obtain ⟨ha, -⟩ := h.stakes_some hu.account_eq
  have hactive := StakeAccount.activeStake_eq_some hu.delegation_eq hu.active
  have hrevised : ∀ r₀ : StakeRecord, r₀.stakeAccount = accounts.stakeAccount →
      w₀.revised r₀ = some { r₀ with
        lastUpdateStatus := .active
        lastUpdateEpoch := w.clock.epoch
        lastUpdateDelegatedLamports := d.stake } := by
    intro r₀ hr₀
    rw [h.clock_eq]
    exact World.revised_eq (by rw [hr₀]; exact ha) hactive
  -- the record that it had at the start
  obtain ⟨r₀, hr₀, hkey₀, heq⟩ : ∃ r₀ ∈ w₀.state.stakeSystem.records,
      r₀.stakeAccount = accounts.stakeAccount ∧ w₀.revised r₀ = some { r with
        lastUpdateStatus := .active
        lastUpdateEpoch := w.clock.epoch
        lastUpdateDelegatedLamports := d.stake } := by
    have hmem := (h.records_iff r).mp (List.mem_of_getElem? hu.record)
    split at hmem
    · obtain ⟨r₀, hr₀, heq⟩ := hmem
      have hkey₀ := (World.stakeAccount_of_revised heq).symm.trans hu.record_key
      refine ⟨r₀, hr₀, hkey₀, ?_⟩
      rw [hrevised r₀ hkey₀, Option.some.injEq] at heq
      rw [hrevised r₀ hkey₀, ← heq]
    · exact ⟨r, hmem, hu.record_key, hrevised r hu.record_key⟩
  rw [List.mem_singleton]
  constructor
  · rintro rfl
    exact ⟨hu.record_key, r₀, hr₀, heq⟩
  · rintro ⟨hkey, r₁, hr₁, heq₁⟩
    have hkey₁ := (World.stakeAccount_of_revised heq₁).symm.trans hkey
    obtain rfl := hready.distinct.eq_of_key_eq hr₀ hr₁ (hkey₀.trans hkey₁.symm)
    exact Option.some.inj (heq₁.symm.trans heq)

theorem UpdateActive.Spec.updated {accounts : UpdateCommon} {extra fee₁ fee₂ : ℕ}
    (hu : UpdateActive.Spec accounts i j w w' account d r v v' extra fee₁ fee₂)
    (h : w₀.Updated T w) (hready : World.Ready rt w₀ w) (hholder : w'.msol.holder = w.msol.holder) :
    w₀.Updated (insert accounts.stakeAccount T) w' := by
  obtain ⟨ha, -⟩ := h.stakes_some hu.account_eq
  have hactive := StakeAccount.activeStake_eq_some hu.delegation_eq hu.active
  have hcollected := World.collected_eq ha
  have hreturned := World.returnedRent_eq ha
  rw [hactive, Option.getD_some] at hcollected
  rw [hactive, Option.elim_some] at hreturned
  have hstakes : w'.stakes = w.stakes := by rw [hu.frame]
  have hmoved := hu.moved hready.wellFormed.stakes_sound
    (hready.booked.listed r (List.mem_of_getElem? hu.record))
  obtain ⟨price, hstate⟩ := hu.state_eq
  obtain ⟨u, hvisited, hprogressed⟩ := hu.upgrader
  rw [hready.booked.done] at hvisited
  obtain ⟨-, rfl, hup⟩ := hvisited
  refine {
    stakes_eq := h.stakes_of_visited hu.account_eq ?_ fun k _ ↦ congrFun hstakes k
    lamports_eq := h.lamports_of_moved (x := extra) (y := 0) (fun k ↦ ?_) ?_ ?_
    capital_eq := hu.capital_eq.trans h.capital_eq
    records_iff := h.records_iff_of_replaced hmoved.replaced hready.booked.distinct hu.record_key
      (hu.revised_iff h hready)
    validators_eq := ?_
    available_eq := ?_
    holder_eq := hholder.trans h.holder_eq
    amount_eq := fun k hk ↦ ?_
    chain_eq := ?_
    state_eq := h.state_of_booked ?_ }
  · rw [hstakes, hu.account_eq, hactive]
    rfl
  · rw [only_zero, Nat.add_zero]
    exact hu.lamports_eq k
  · have hbefore := h.lamports_of_stakes hready.sound hready.operational ha
    rw [hu.extra_eq]
    by_cases hmem : accounts.stakeAccount ∈ T
    · rw [if_pos hmem] at hbefore ⊢
      omega
    · rw [if_neg hmem] at hbefore ⊢
      omega
  · rw [hreturned, ite_self]
  · rw [hu.validators_eq, ← h.validators_eq]
    refine map_key_set hu.validator ?_
    rw [hu.validator_eq, hup]
    rfl
  · rw [if_neg (Finset.insert_ne_empty _ _), ← hu.reserve_aligned, h.rent_eq,
      Nat.add_sub_cancel]
  · rw [hu.amount_eq, h.treasury_eq, only_of_ne hk, Nat.add_zero, h.amount_eq k hk]
  · rw [hu.frame, h.chain_eq]
  · rw [hstate, hprogressed, ← hready.booked.done, World.realigned_eq hready.bounds.supply_le]
    rfl

theorem UpdateDeactivated.Spec.updated {accounts : UpdateDeactivated} {s₁ s₂ : State}
    {fee delinquent : ℕ}
    (hu : UpdateDeactivated.Spec accounts i j w w' account d r r' v s₁ s₂ fee delinquent)
    (h : w₀.Updated T w) (hready : World.Ready rt w₀ w) (hholder : w'.msol.holder = w.msol.holder) :
    w₀.Updated (insert accounts.stakeAccount T) w' := by
  obtain ⟨ha, hmem⟩ := h.stakes_some hu.account_eq
  have hclosed := StakeAccount.activeStake_eq_none hu.delegation_eq hu.deactivated
  -- an account that has been updated is active or gone
  have hmem : accounts.stakeAccount ∉ T := fun hT ↦ by
    have hactive := hmem hT
    rw [hclosed] at hactive
    cases hactive
  have hcollected := World.collected_eq ha
  have hreturned := World.returnedRent_eq ha
  rw [hclosed, Option.getD_none] at hcollected
  rw [hclosed, Option.elim_none] at hreturned
  have hbefore := h.lamports_of_stakes hready.sound hready.operational ha
  rw [if_neg hmem, Nat.add_zero] at hbefore
  have hs := hready.wellFormed.stakes_sound
  have hbooked := hu.books_eq hready.booked.done
  obtain ⟨price, hstate⟩ := hu.state_eq
  refine {
    stakes_eq := h.stakes_of_visited hu.account_eq ?_ fun k hk ↦ ?_
    lamports_eq := h.lamports_of_moved
      (x := w.lamportsOf accounts.stakeAccount - account.stakeMeta.rentExemptReserve)
      (y := account.stakeMeta.rentExemptReserve) (fun k ↦ ?_) ?_ ?_
    capital_eq := hu.capital_eq.trans h.capital_eq
    records_iff := h.records_iff_of_replaced (hu.moved hs).replaced hready.booked.distinct
      hu.record_key fun r' ↦ ?_
    validators_eq := ?_
    available_eq := ?_
    holder_eq := hholder.trans h.holder_eq
    amount_eq := fun k hk ↦ ?_
    chain_eq := ?_
    state_eq := h.state_of_booked ?_ }
  · rw [hu.stakes_eq, Function.update_self, hclosed]
    rfl
  · rw [hu.stakes_eq, Function.update_of_ne hk]
  · rw [← h.operational_eq]
    exact hu.moved_lamports k
  · rw [if_neg hmem, hcollected, hbefore, Nat.sub_zero]
  · rw [if_neg hmem, hreturned]
  · -- nothing becomes of the record
    simp only [List.not_mem_nil, false_iff, not_and, not_exists]
    intro hkey r₀ hr₀ heq
    have hkey₀ := (World.stakeAccount_of_revised heq).symm.trans hkey
    rw [World.revised, hkey₀, ha, Option.bind_some, hclosed, Option.map_none] at heq
    cases heq
  · rw [hu.validators_eq, ← h.validators_eq]
    by_cases hactive : r.lastUpdateStatus = .active
    · rw [if_pos hactive]
      exact map_key_set hu.validator rfl
    · rw [if_neg hactive]
  · rw [if_neg (Finset.insert_ne_empty _ _), ← h.rent_eq]
    exact hu.available_eq hs hready.bounds (h.operational_eq ▸ hready.operational_ne)
  · rw [hu.amount_eq, h.treasury_eq, only_of_ne hk, Nat.add_zero, h.amount_eq k hk]
  · rw [hu.frame, h.chain_eq]
  · rw [hstate, hbooked.1, ← hready.booked.done, hu.booked_out.state_eq, hu.detected.state_eq,
      World.realigned_eq hready.bounds.supply_le]
    rfl

/-! ## Runs -/

theorem updated_cons {l : Label} (hl : l.updates = some key) :
    updated (l :: ls) = insert key (updated ls) := by
  rw [updated, List.filterMap_cons_some hl, List.toFinset_cons, updated]

/-- What one step updates joins what has been updated. -/
theorem World.Updated.step {l : Label} (h : w₀.Updated T w) (hready : World.Ready rt w₀ w)
    (hs : (updating rt).step w l w') :
    ∃ key, l.updates = some key ∧ w₀.Updated (insert key T) w' := by
  obtain ⟨hstep, hupdates⟩ := hs
  have hfunded := hready.wellFormed.stakes_sound.funded
  cases l with
  | external x => cases hupdates
  | instruction i e =>
    cases i with
    | updateActive accounts i j =>
      have hp := silently_eq_ok hstep
      obtain ⟨account, d, r, v, v', extra, fee₁, fee₂, hu⟩ :=
        UpdateActive.process_spec hp (hfunded _)
      exact ⟨_, rfl, hu.updated h hready (UpdateActive.process_holder hp)⟩
    | updateDeactivated accounts i j =>
      have hp := silently_eq_ok hstep
      obtain ⟨account, d, r, r', v, s₁, s₂, fee, delinquent, hu⟩ :=
        UpdateDeactivated.process_spec hp (hfunded _)
      exact ⟨_, rfl, hu.updated h hready (UpdateDeactivated.process_holder hp)⟩
    | _ => cases hupdates

/-- What a run of updates leaves depends on the accounts that it updates. -/
theorem World.updated_of_run (h₀ : (marinade rt).Reachable w₀)
    (hoperational : w₀.stakes w₀.state.operationalSolAccount = none)
    (hne : w₀.state.operationalSolAccount ≠ .reserve) (h : (updating rt).Run w₀ ls w) :
    (marinade rt).Reachable w ∧ w₀.Updated (updated ls) w := by
  refine h.induct (P := fun ls w ↦ (marinade rt).Reachable w ∧ w₀.Updated (updated ls) w)
    ⟨h₀, .refl w₀⟩ ?_
  rintro ls w l w' - ⟨hr, hupdated⟩ hs
  have hready : World.Ready rt w₀ w := {
    sound := (wellFormed_of_reachable h₀).stakes_sound
    operational := hoperational
    operational_ne := hne
    distinct := (booked_of_reachable h₀).distinct
    wellFormed := wellFormed_of_reachable hr
    bounds := bounds_of_reachable hr
    booked := booked_of_reachable hr }
  obtain ⟨key, hl, hnext⟩ := hupdated.step hready hs
  rw [updated_cons hl]
  exact ⟨hr.step hs.1, hnext⟩

/-! ## Two runs -/

/-- The two worlds agree but for the order of the stake list and the mSOL of the treasury. -/
structure World.Alike (w w' : World) : Prop where
  chain_eq : w'.toChain = { w.toChain with msol := w'.msol }
  holder_eq : w'.msol.holder = w.msol.holder
  amount_eq : ∀ k, k ≠ w.state.treasuryMsolAccount → w'.msol.amount k = w.msol.amount k
  records_perm : w'.state.stakeSystem.records.Perm w.state.stakeSystem.records
  validators_eq : w'.state.validatorSystem.records = w.state.validatorSystem.records
  state_eq : w'.state = w.state.withBookings { w.state.bookings with
    stakeList := w'.state.stakeSystem.stakeList
    validatorList := w'.state.validatorSystem.validatorList
    msolSupply := w'.state.msolSupply
    msolPrice := w'.state.msolPrice }

namespace World.Updated

variable (h : w₀.Updated T w) (h' : w₀.Updated T w')

include h h'

theorem stakes_unique : w'.stakes = w.stakes :=
  funext fun k ↦ (h'.stakes_eq k).trans (h.stakes_eq k).symm

theorem lamports_unique : w'.lamports = w.lamports := by
  refine eq_of_balance (fun k ↦ ?_) (h'.capital_eq.trans h.capital_eq.symm)
  change w'.lamportsOf k = w.lamportsOf k
  have hk := h.lamports_eq k
  have hk' := h'.lamports_eq k
  omega

/-- The records are the same, as there is only one for every account. -/
theorem records_perm (hr : Recorded w) (hr' : Recorded w') :
    w'.state.stakeSystem.records.Perm w.state.stakeSystem.records :=
  (List.perm_ext_iff_of_nodup hr'.distinct.of_map hr.distinct.of_map).mpr fun r ↦
    (h'.records_iff r).trans (h.records_iff r).symm

/-- The balance of a validator is what its accounts are recorded with. -/
theorem validators_unique (hb : Booked w) (hb' : Booked w') (hr : Registered w)
    (hr' : Registered w') :
    w'.state.validatorSystem.records = w.state.validatorSystem.records := by
  have hactive : w'.activeFor = w.activeFor := by
    funext vote r
    rw [Chain.activeFor, Chain.activeFor, Chain.voterOf, Chain.voterOf, h.stakes_unique h']
  refine hr'.distinct.eq_of_totals_eq (f := (·.emptied)) (g := (·.activeBalance)) hr.distinct
    (h'.validators_eq.trans h.validators_eq.symm) (fun v v' heq ↦ ?_)
    (fun v v' ↦ ValidatorRecord.eq_of_emptied) fun vote ↦ ?_
  · have hkey : v.emptied.validatorAccount = v'.emptied.validatorAccount := by rw [heq]
    exact hkey
  · have hsum := hb.validators_eq vote
    have hsum' := hb'.validators_eq vote
    rw [hactive, total_perm (h.records_perm h' hb.toRecorded hb'.toRecorded)] at hsum'
    exact hsum'.trans hsum.symm

theorem alike (hb : Booked w) (hb' : Booked w') (hr : Registered w) (hr' : Registered w') :
    w.Alike w' := by
  have hperm := h.records_perm h' hb.toRecorded hb'.toRecorded
  have hcooling : ∀ emergency, w'.state.coolingDown emergency = w.state.coolingDown emergency := by
    intro emergency
    rw [hb'.cooling_eq, hb.cooling_eq, total_perm hperm]
  refine {
    chain_eq := ?_
    holder_eq := h'.holder_eq.trans h.holder_eq.symm
    amount_eq := fun k hk ↦ ?_
    records_perm := hperm
    validators_eq := h.validators_unique h' hb hb' hr hr'
    state_eq := ?_ }
  · rw [h'.chain_eq, h.chain_eq, h.stakes_unique h', h.lamports_unique h']
  · rw [h.treasury_eq] at hk
    rw [h'.amount_eq k hk, h.amount_eq k hk]
  · have htotal : w'.state.validatorSystem.totalActiveBalance
        = w.state.validatorSystem.totalActiveBalance := by
      rw [hb'.total_eq, hb.total_eq, total_perm hperm]
    have havailable : w'.state.availableReserveBalance = w.state.availableReserveBalance := by
      rw [h'.available_eq, h.available_eq, Chain.lamportsOf, h.lamports_unique h']
    have hdelayed : w'.state.stakeSystem.delayedUnstakeCoolingDown
        = w.state.stakeSystem.delayedUnstakeCoolingDown := hcooling false
    have hemergency : w'.state.emergencyCoolingDown = w.state.emergencyCoolingDown :=
      hcooling true
    have hbookings : w'.state.bookings = { w.state.bookings with
        stakeList := w'.state.stakeSystem.stakeList
        validatorList := w'.state.validatorSystem.validatorList
        msolSupply := w'.state.msolSupply
        msolPrice := w'.state.msolPrice } := by
      rw [State.bookings, State.bookings, htotal, havailable, hdelayed, hemergency]
    rw [h'.state_eq, hbookings, h.state_eq]
    rfl

end World.Updated

/-- Runs of updates that update the same accounts end alike, in whatever order they make them and
however often. -/
theorem updates_commute {ls' : List Label} (h₀ : (marinade rt).Reachable w₀)
    (hoperational : w₀.stakes w₀.state.operationalSolAccount = none)
    (hne : w₀.state.operationalSolAccount ≠ .reserve) (h : (updating rt).Run w₀ ls w)
    (h' : (updating rt).Run w₀ ls' w') (heq : updated ls' = updated ls) : w.Alike w' := by
  obtain ⟨hr, hupdated⟩ := World.updated_of_run h₀ hoperational hne h
  obtain ⟨hr', hupdated'⟩ := World.updated_of_run h₀ hoperational hne h'
  rw [heq] at hupdated'
  exact hupdated.alike hupdated' (booked_of_reachable hr) (booked_of_reachable hr')
    (registered_of_reachable hr) (registered_of_reachable hr')

end

/-! ## The two accounts in either order -/

namespace Sample

/-- Updates in some order. -/
def updatingIn (order : List Instruction) : Option (List Label × World) :=
  replay runtime (fun _ l ↦ l.updates.isSome) visited.2 (order.map .run)

theorem updatingIn_run {order : List Instruction} (h : (updatingIn order).isSome = true) :
    (updating runtime).Run visited.2 ((updatingIn order).get h).1 ((updatingIn order).get h).2 :=
  restrict_run_of_replay (fun _ _ h ↦ h) rfl (Option.some_get h).symm

theorem rewarding_first : (updatingIn [rewarding, closing]).isSome = true := by
  decide +kernel

theorem closing_first : (updatingIn [closing, rewarding, rewarding]).isSome = true := by
  decide +kernel

end Sample

theorem updates_commute_sample : World.Alike
    ((Sample.updatingIn [Sample.rewarding, Sample.closing]).get Sample.rewarding_first).2
    ((Sample.updatingIn [Sample.closing, Sample.rewarding, Sample.rewarding]).get
      Sample.closing_first).2 :=
  updates_commute Sample.visited_reachable (by decide +kernel) (by decide +kernel)
    (Sample.updatingIn_run Sample.rewarding_first) (Sample.updatingIn_run Sample.closing_first)
    (by decide +kernel)

end Marinade
