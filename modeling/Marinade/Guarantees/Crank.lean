import Marinade.Invariants.Capital
import Marinade.Invariants.Lockups
import Marinade.Invariants.NoFailure
import Marinade.Guarantees.UpdateOrder
import Marinade.Guarantees.Validators

/-!
# Every account can be updated

The totals are as good as the last update of every account, and only an update brings back the
lamports of an account that has cooled down. So a record that no bot could update would keep its
stake out of reach for good.

Once a bot names a record and its validator, nothing in the books or on the chain stops the update:
not rewards, slashing or donations, not what other bots have done, no other account and no lockup.
The validator of an active record cannot have been removed; that of a deactivated one has to be
listed still. Otherwise it only needs that the program is not paused, that the time of day has never
gone back, and that the amounts have a reasonable size: less than 2⁶³ lamports, and less than 2³¹
for each mSOL, which is worth at least one.
-/

open Foundation Foundation.Ledger

namespace Marinade

/-- A computation that stops with no error. -/
abbrev Passes {α : Type} (x : Except Error α) : Prop :=
  Avoids (fun _ ↦ True) x

/-- The amounts fit: there are less than 2⁶³ lamports, mSOL is worth at least one lamport once the
reserve is realigned, and there are less than 2³¹ lamports for each mSOL. -/
structure World.Fits (w : World) : Prop where
  lamports_le : 2 * w.lamports.total ≤ u64Max
  supply_le : w.msol.supply ≤ w.realigned.virtualStaked
  lamports_lt : w.lamports.total < 2 ^ 31 * w.msol.supply

/-- The books have room for `x` more lamports: the fee on them can be minted, and the price still
fits after that. -/
structure World.Room (w : World) (ready : Bool) (x : ℕ) : Prop where
  holder : ready = true → (w.msol.holder w.state.treasuryMsolAccount).isSome = true
  reward_fee : w.state.rewardFee.basisPoints ≤ Fee.maxBasisPoints
  done : w.state.delinquentUpgrader = .done
  supply_eq : w.msol.supply = w.state.msolSupply
  controlled_le : w.state.controlled + x ≤ u64Max
  supply_le : w.state.msolSupply ≤ w.state.virtualStaked
  price_lt : w.state.virtualStaked + x < 2 ^ 32 * w.state.msolSupply

/-- An account whose lamports the program can withdraw. It is not locked up, and its rent and its
delegation are there. -/
structure UpdateCommon.Withdrawable (accounts : UpdateCommon) (c : Chain) (account : StakeAccount)
    (d : Delegation) : Prop where
  account_eq : c.stakes accounts.stakeAccount = some account
  delegation_eq : account.delegation = some d
  withdrawer_eq : account.stakeMeta.withdrawer = .stakeWithdrawAuthority
  unlocked : account.stakeMeta.lockup.isInForce c.clock = false
  rent_pos : 0 < account.stakeMeta.rentExemptReserve
  funded : d.stake + account.stakeMeta.rentExemptReserve ≤ c.lamportsOf accounts.stakeAccount
  ne_reserve : accounts.stakeAccount ≠ .reserve

section

variable {rt : Runtime} {w w' : World} {s s' : State} {i j x y fee : ℕ} {ready ready' : Bool}
  {account : StakeAccount} {d : Delegation} {r r' : StakeRecord} {v : ValidatorRecord}

/-! ## Amounts -/

/-- At a price of at least one, a fee is at most as many mSOL as there are lamports. -/
theorem UpdateCommon.TreasuryFee.le (h : TreasuryFee s x fee)
    (hreward : s.rewardFee.basisPoints ≤ Fee.maxBasisPoints) (hs : 0 < s.msolSupply)
    (hprice : s.msolSupply ≤ s.virtualStaked) : fee ≤ x :=
  Nat.le_of_mul_le_mul_right ((h.mul_le hreward hs).trans (Nat.mul_le_mul_left x hprice))
    (hs.trans_le hprice)

/-- Nor is what is computed for it out of range. -/
theorem sharesFromValue_passes (hx : x ≤ u64Max) (hprice : s.msolSupply ≤ s.virtualStaked) :
    Passes (sharesFromValue x s.virtualStaked s.msolSupply) := by
  refine sharesFromValue_avoids.mpr fun _ _ _ ↦ le_trans ?_ hx
  exact Nat.div_le_of_le_mul (by rw [Nat.mul_comm]; exact Nat.mul_le_mul_right _ hprice)

/-! ## Room -/

namespace World.Room

theorem supply_pos (h : w.Room ready x) : 0 < w.state.msolSupply := by
  have hlt := h.price_lt
  omega

theorem supply_add_le (h : w.Room ready x) : w.state.msolSupply + x ≤ u64Max := by
  have hcontrolled := h.controlled_le
  have hstaked : w.state.virtualStaked ≤ w.state.controlled := Nat.sub_le _ _
  have hsupply := h.supply_le
  omega

theorem mono (h : w.Room ready y) (hle : x ≤ y) (hready : ready' = true → ready = true) :
    w.Room ready' x :=
  { h with
    holder := fun hr ↦ h.holder (hready hr)
    controlled_le := (Nat.add_le_add_left hle _).trans h.controlled_le
    price_lt := (Nat.add_le_add_left hle _).trans_lt h.price_lt }

/-- What enters the reserve and the fee on it take their part of the room. -/
theorem collected {l : Ledger Pubkey} {msol : TokenMint legVault} (h : w.Room ready (x + y))
    (hfee : UpdateCommon.TreasuryFee { w.state with
      availableReserveBalance := w.state.availableReserveBalance + x } x fee)
    (hsupply : msol.supply = w.msol.supply + fee) (hholder : msol.holder = w.msol.holder) :
    World.Room { w with
      lamports := l
      msol := msol
      state := { w.state with
        availableReserveBalance := w.state.availableReserveBalance + x
        msolSupply := w.state.msolSupply + fee } } ready y := by
  have hpos := h.supply_pos
  have hle := h.supply_le
  have hcontrolled := h.controlled_le
  have hprice := h.price_lt
  have hraised : ({ w.state with
      availableReserveBalance := w.state.availableReserveBalance + x } : State).virtualStaked
        = w.state.virtualStaked + x := by
    simp only [State.virtualStaked, State.controlled] at hle ⊢
    omega
  have hfee_le : fee ≤ x :=
    hfee.le h.reward_fee hpos (by rw [hraised]; exact Nat.le_add_right_of_le hle)
  exact {
    holder := fun hready ↦ hholder ▸ h.holder hready
    reward_fee := h.reward_fee
    done := h.done
    supply_eq := by rw [hsupply, h.supply_eq]
    controlled_le := by
      simp only [State.controlled] at hcontrolled ⊢
      omega
    supply_le := (Nat.add_le_add hle hfee_le).trans hraised.ge
    price_lt := by
      simp only [State.virtualStaked, State.controlled] at hprice hle ⊢
      omega }

end World.Room

/-! ## Parts of an update -/

namespace UpdateCommon

variable {accounts : UpdateCommon}

theorem mintProtocolFeesIf_passes (h : w.Room ready y)
    (hx : w.state.msolSupply + x ≤ u64Max) : Passes (mintProtocolFeesIf ready x w) := by
  have hsupply := h.supply_eq
  have hle := Fee.apply_le h.reward_fee x
  refine mintProtocolFeesIf_avoids (fun _ ↦ (Nat.le_add_right _ _).trans h.controlled_le)
    (sharesFromValue_passes (by omega) h.supply_le) fun fee hfee ↦ ?_
  have hfee_le : fee ≤ x :=
    TreasuryFee.le (.inr hfee) h.reward_fee h.supply_pos h.supply_le
  exact ⟨fun _ hready ↦ ⟨h.holder hready, by omega⟩, fun _ ↦ by omega⟩

/-- What an active account holds beyond its rent and its delegation can be withdrawn. -/
theorem withdrawToReserve_part_passes (ha : accounts.Withdrawable w.toChain account d)
    (hactive : d.deactivationEpoch = epochMax)
    (hx : x + (d.stake + account.stakeMeta.rentExemptReserve)
      ≤ w.lamportsOf accounts.stakeAccount)
    (hroom : w.state.availableReserveBalance + x ≤ u64Max) :
    Passes (accounts.withdrawToReserve rt x w) := by
  have hepoch : ¬d.deactivationEpoch ≤ w.clock.epoch := by
    have hlt := w.clock.epoch_lt
    omega
  have hlt : x < w.lamportsOf accounts.stakeAccount := by
    have hpos := ha.rent_pos
    omega
  obtain ⟨l, hl⟩ := exists_transfer .reserve hlt.le
  simp [withdrawToReserve, StakeProgram.withdraw, State.onTransferToReserve, ha.account_eq,
    ha.delegation_eq, ha.withdrawer_eq, ha.unlocked, hl, hepoch, hlt.ne, hx, hroom]

/-- An account that has cooled down can be closed. -/
theorem withdrawToReserve_whole_passes (ha : accounts.Withdrawable w.toChain account d)
    (hdeactivated : d.deactivationEpoch ≤ w.clock.epoch)
    (hcooled : rt.effectiveStake d w.clock.epoch = 0)
    (hroom : w.state.availableReserveBalance + w.lamportsOf accounts.stakeAccount ≤ u64Max) :
    Passes (accounts.withdrawToReserve rt (w.lamportsOf accounts.stakeAccount) w) := by
  obtain ⟨l, hl⟩ := exists_transfer .reserve
    (le_refl (w.lamports.balance accounts.stakeAccount))
  simp [withdrawToReserve, StakeProgram.withdraw, State.onTransferToReserve, ha.account_eq,
    ha.delegation_eq, ha.withdrawer_eq, ha.unlocked, hl, hdeactivated, hcooled, hroom]

end UpdateCommon

/-! ## An active account -/

namespace UpdateActive

variable {accounts : UpdateCommon}

theorem collectExtra_passes (ha : accounts.Withdrawable w.toChain account d)
    (hactive : d.deactivationEpoch = epochMax)
    (hx : x + (d.stake + account.stakeMeta.rentExemptReserve)
      ≤ w.lamportsOf accounts.stakeAccount)
    (hroom : w.Room ready x) : Passes (collectExtra rt accounts ready x w) := by
  have hcontrolled := hroom.controlled_le
  have havailable : w.state.availableReserveBalance ≤ w.state.controlled := Nat.le_add_left _ _
  have hrent := ha.rent_pos
  refine collectExtra_avoids
    (UpdateCommon.withdrawToReserve_part_passes ha hactive hx (by omega)) fun w₁ h₁ ↦ ?_
  obtain ⟨l, -, -, rfl⟩ := UpdateCommon.withdrawToReserve_part_spec h₁ ha.account_eq (by omega)
  exact UpdateCommon.mintProtocolFeesIf_passes
    (hroom.collected (y := 0) (.inl rfl) rfl rfl) hroom.supply_add_le

theorem collectExtra_holder (h : collectExtra rt accounts ready x w = .ok w') :
    w'.msol.holder = w.msol.holder := by
  unfold collectExtra at h
  split at h
  · obtain ⟨w₁, h₁, h₂⟩ := bind_eq_ok.mp h
    rw [UpdateCommon.mintProtocolFeesIf_holder h₂, UpdateCommon.withdrawToReserve_msol h₁]
  · cases h
    rfl

theorem bookDelegation_passes (hroom : w.Room ready (x - y)) (hv : y ≤ v.activeBalance)
    (hle : v.activeBalance ≤ w.state.validatorSystem.totalActiveBalance) :
    Passes (bookDelegation ready x y v w) := by
  have hcontrolled := hroom.controlled_le
  have htotal : w.state.validatorSystem.totalActiveBalance ≤ w.state.controlled := by
    unfold State.controlled
    omega
  exact bookDelegation_avoids (.inl hroom.done)
    (fun _ ↦ UpdateCommon.mintProtocolFeesIf_passes hroom hroom.supply_add_le)
    (fun _ ↦ ⟨by omega, by omega⟩) (fun _ ↦ hv) fun _ ↦ hv.trans hle

/-- Once the extra lamports are collected, the delegation can be booked and the records stored. -/
theorem book_finish_passes (hroom : w.Room ready (x - y)) (hv : y ≤ v.activeBalance)
    (hle : v.activeBalance ≤ w.state.validatorSystem.totalActiveBalance)
    (hi : i < w.state.stakeSystem.records.length)
    (hj : j < w.state.validatorSystem.records.length)
    (haligned : w.state.availableReserveBalance + w.state.rentExemptForTokenAcc
      = w.lamportsOf .reserve) (hreserve : w.lamportsOf .reserve ≤ u64Max) :
    Passes (do
      let booked ← bookDelegation ready x y v w
      finish i j r booked.1 booked.2) := by
  refine .bind (bookDelegation_passes hroom hv hle) fun booked hbooked ↦ ?_
  obtain ⟨fee, msol, up, u, active, total, -, -, -, hu, -, htotal, -, hw⟩ :=
    bookDelegation_spec hbooked
  have hcontrolled := hroom.controlled_le
  have hprice := hroom.price_lt
  have hsupply := hroom.supply_le
  have hpos := hroom.supply_pos
  rw [hroom.done] at hu
  obtain rfl : u = .done := hu.1
  rw [hw]
  refine finish_avoids (fun _ ↦ hi) (fun _ ↦ hj) (fun _ ↦ ⟨?_, hreserve⟩) (fun _ ↦ ?_)
    (.inl haligned) (by simp)
  · simp only [State.controlled] at hcontrolled ⊢
    omega
  · simp only [State.virtualStaked, State.controlled] at hprice hsupply ⊢
    omega

end UpdateActive

/-! ## The state an update starts from -/

theorem World.realigned_controlled_le (h : (marinade rt).Reachable w) :
    w.realigned.controlled ≤ w.lamports.total := by
  have hcontrolled := (booked_of_reachable h).controlled_eq
  have hall := recorded_add_reserve_le_total h
  simp only [World.realigned, State.controlled] at hcontrolled ⊢
  omega

/-- What any account holds has room in the books. -/
theorem World.Fits.room (hf : w.Fits) (h : (marinade rt).Reachable w)
    (hx : x ≤ w.lamports.total) :
    World.Room { w with state := w.realigned } w.getTreasuryMsolBalance.isSome x where
  holder hsome := by
    unfold World.getTreasuryMsolBalance at hsome
    split at hsome
    · assumption
    · cases hsome
  reward_fee := rewardFee_le (w := w) (wellFormed_of_reachable h)
  done := (booked_of_reachable h).done
  supply_eq := rfl
  controlled_le := by
    have hle := World.realigned_controlled_le h
    have hlamports := hf.lamports_le
    change w.realigned.controlled + x ≤ u64Max
    omega
  supply_le := hf.supply_le
  price_lt := by
    have hle := World.realigned_controlled_le h
    have hstaked : w.realigned.virtualStaked ≤ w.realigned.controlled := Nat.sub_le _ _
    have hlamports := hf.lamports_lt
    change w.realigned.virtualStaked + x < 2 ^ 32 * w.msol.supply
    omega

/-- No validator is booked with more than all of them together. -/
theorem Booked.activeBalance_le (h : Booked w) (hr : Registered w)
    (hv : v ∈ w.state.validatorSystem.records) :
    v.activeBalance ≤ w.state.validatorSystem.totalActiveBalance := by
  rw [h.activeBalance_eq hr hv, h.total_eq]
  refine total_le_total fun r _ ↦ ?_
  unfold Chain.activeFor
  split
  · exact le_rfl
  · exact Nat.zero_le _

/-- An account that is not deactivated has an active record. -/
theorem Booked.status_eq_active (h : Booked w) (hr : r ∈ w.state.stakeSystem.records)
    (ha : w.stakes r.stakeAccount = some account) (hd : account.delegation = some d)
    (hactive : d.deactivationEpoch = epochMax) : r.lastUpdateStatus = .active := by
  cases hs : r.lastUpdateStatus with
  | unknown => exact absurd hs (h.tracked r hr).known
  | active => rfl
  | deactivating => exact absurd hactive ((h.listed r hr).deactivating rfl ha hd hs)

theorem UpdateCommon.Begun.withdrawable {accounts : UpdateCommon}
    (hb : Begun accounts i j w account d r v) (h : Intact rt w) (hu : w.Unlocked) :
    accounts.Withdrawable w.toChain account d := by
  have hstakes := h.wellFormed.stakes_sound
  have hmem := List.mem_of_getElem? hb.record
  obtain ⟨hpos, hfunded⟩ := hstakes.funded _ _ _ hb.account_eq hb.delegation_eq
  obtain ⟨account', ha, -, hwithdrawer⟩ := (h.booked.listed r hmem).managed
  rw [hb.record_key, hb.account_eq, Option.some.injEq] at ha
  exact {
    account_eq := hb.account_eq
    delegation_eq := hb.delegation_eq
    withdrawer_eq := ha ▸ hwithdrawer
    unlocked := hu.unlocked r hmem _ (Chain.lockupOf_record hb.record_key hb.account_eq)
    rent_pos := hpos
    funded := hfunded
    ne_reserve := hstakes.ne (by simp [hb.account_eq]) rfl }

/-- In every reachable state an update finds its record. -/
theorem Intact.begin_eq_ok {accounts : UpdateCommon} (h : Intact rt w)
    (hb : UpdateCommon.Begun accounts i j w account d r v) :
    accounts.begin i j w = .ok ⟨account, d, r, v, w.getTreasuryMsolBalance.isSome⟩ :=
  UpdateCommon.begin_of_begun hb (h.bounds.reserve_le.trans
    ((w.lamports.balance_le_total _).trans h.wellFormed.capital_le))

/-- Nothing stops the update of an active account. -/
theorem UpdateActive.process_passes {accounts : UpdateCommon} (hsteady : (steady rt).Reachable w)
    (hf : w.Fits) (hpaused : w.state.paused = false)
    (hb : UpdateCommon.Begun accounts i j w account d r v)
    (hactive : d.deactivationEpoch = epochMax) : Passes (process rt accounts i j w) := by
  have h := reachable_of_steady hsteady
  have hintact := intact_of_reachable h
  have hmem := List.mem_of_getElem? hb.record
  have ha := hb.withdrawable hintact (unlocked_of_reachable hsteady)
  have hpos := ha.rent_pos
  have hfunded := ha.funded
  have hrent : account.stakeMeta.rentExemptReserve ≤ w.lamportsOf accounts.stakeAccount := by omega
  have hstatus := hintact.booked.status_eq_active hmem (by rw [hb.record_key, hb.account_eq])
    hb.delegation_eq hactive
  obtain ⟨hbalance, -⟩ := hb.active_le hintact hstatus
  have hlisted := hintact.booked.activeBalance_le hintact.registered
    (List.mem_of_getElem? hb.validator)
  have haccount : w.lamportsOf accounts.stakeAccount ≤ w.lamports.total :=
    w.lamports.balance_le_total _
  have hreserve := hintact.bounds.reserve_le
  rw [process, bind_of_ok (a := ()) (ensure_eq_ok.mpr (by simp [hpaused])),
    bind_of_ok (a := ()) (ensure_eq_ok.mpr (by rw [hintact.booked.done]; rfl)),
    bind_of_ok (totalVirtualStakedLamports_of_reachable h),
    bind_of_ok (hintact.begin_eq_ok hb),
    bind_of_ok (a := ()) (ensure_eq_ok.mpr hactive),
    bind_of_ok (a := ()) (ensure_eq_ok.mpr (by rw [hstatus]; decide)),
    bind_of_ok (delinquentUpgrade_active hstatus),
    bind_of_ok (checkedSub_eq_ok.mpr ⟨hrent, rfl⟩)]
  dsimp only
  generalize hextra : w.lamportsOf accounts.stakeAccount
    - account.stakeMeta.rentExemptReserve - d.stake = x
  have hroom := hf.room (x := x + (d.stake - r.lastUpdateDelegatedLamports)) h (by omega)
  refine .bind (collectExtra_passes ha hactive
    (show x + _ ≤ w.lamportsOf accounts.stakeAccount by omega)
    (hroom.mono (Nat.le_add_right _ _) id)) fun w₁ h₁ ↦ ?_
  have hholder := collectExtra_holder h₁
  obtain ⟨fee, msol, l, hfee, hsupply, -, ht, hl, rfl⟩ := collectExtra_spec h₁ hb.account_eq
    (show x < w.lamportsOf accounts.stakeAccount by omega)
  -- what is collected goes to the reserve, which stays aligned
  have hmoved : l.balance .reserve = w.lamportsOf .reserve + x := by
    have hk := hl .reserve
    rwa [only_of_ne ha.ne_reserve.symm, only_self, Nat.add_zero] at hk
  refine book_finish_passes (hroom.collected hfee hsupply hholder) hbalance hlisted ?_ ?_ ?_ ?_
  · exact (List.getElem?_eq_some_iff.mp hb.record).1
  · exact (List.getElem?_eq_some_iff.mp hb.validator).1
  · simp only [World.realigned, Chain.lamportsOf] at hmoved hreserve ⊢
    omega
  · exact (l.balance_le_total _).trans (ht.trans_le hintact.wellFormed.capital_le)

/-! ## An account that has cooled down -/

namespace UpdateDeactivated

variable {accounts : UpdateDeactivated}

theorem Detected.room (h : Detected j r r' v s s')
    (hroom : World.Room { w with state := s } ready x) :
    World.Room { w with state := s' } ready x := by
  have hcontrolled : s'.controlled = s.controlled := h.controlled_eq
  have hstaked : s'.virtualStaked = s.virtualStaked := by
    have htickets : s'.circulatingTicketBalance = s.circulatingTicketBalance := by rw [h.state_eq]
    unfold State.virtualStaked
    rw [hcontrolled, htickets]
  have hsupply : s'.msolSupply = s.msolSupply := by rw [h.state_eq]
  exact {
    holder := by rw [h.state_eq]; exact hroom.holder
    reward_fee := by rw [h.state_eq]; exact hroom.reward_fee
    done := by rw [h.state_eq]; exact hroom.done
    supply_eq := hroom.supply_eq.trans hsupply.symm
    controlled_le := by
      change s'.controlled + x ≤ u64Max
      rw [hcontrolled]
      exact hroom.controlled_le
    supply_le := by
      change s'.msolSupply ≤ s'.virtualStaked
      rw [hsupply, hstaked]
      exact hroom.supply_le
    price_lt := by
      change s'.virtualStaked + x < 2 ^ 32 * s'.msolSupply
      rw [hsupply, hstaked]
      exact hroom.price_lt }

theorem close_passes (ha : accounts.Withdrawable w.toChain account d)
    (hdeactivated : d.deactivationEpoch ≤ w.clock.epoch)
    (hcooled : rt.effectiveStake d w.clock.epoch = 0)
    (hroom : w.state.availableReserveBalance + w.lamportsOf accounts.stakeAccount ≤ u64Max) :
    Passes (close rt accounts account.stakeMeta.rentExemptReserve w) := by
  have hpos := ha.rent_pos
  have hfunded := ha.funded
  refine close_avoids (UpdateCommon.withdrawToReserve_whole_passes ha hdeactivated hcooled hroom)
    fun w₁ h₁ ↦ ?_
  obtain ⟨-, l, -, hl, rfl⟩ :=
    UpdateCommon.withdrawToReserve_whole_spec h₁ ha.account_eq (by omega)
  have hk := hl .reserve
  rw [only_of_ne ha.ne_reserve.symm, only_self] at hk
  refine ⟨fun _ ↦ ?_, fun _ ↦ ?_⟩
  · change account.stakeMeta.rentExemptReserve ≤ l.balance .reserve
    omega
  · change account.stakeMeta.rentExemptReserve
      ≤ w.state.availableReserveBalance + w.lamportsOf accounts.stakeAccount
    omega

/-- Once the detection is through, the fee can be minted, the account closed and the record booked
out. -/
theorem mint_close_finish_passes (ha : accounts.Withdrawable w.toChain account d)
    (hdeactivated : d.deactivationEpoch ≤ w.clock.epoch)
    (hcooled : rt.effectiveStake d w.clock.epoch = 0)
    (hroom : w.Room ready (w.lamportsOf accounts.stakeAccount))
    (hrewards : x ≤ w.lamportsOf accounts.stakeAccount)
    (hcooling : r.lastUpdateDelegatedLamports ≤ w.state.coolingDown r.isEmergencyUnstaking)
    (hi : i < w.state.stakeSystem.records.length) :
    Passes (do
      let w ← UpdateCommon.mintProtocolFeesIf ready x w
      let w ← accounts.close rt account.stakeMeta.rentExemptReserve w
      let state ← bookOutSome r w.state
      finish i { w with state }) := by
  have hcontrolled := hroom.controlled_le
  have hprice := hroom.price_lt
  have hsupply := hroom.supply_le
  have havailable : w.state.availableReserveBalance ≤ w.state.controlled := Nat.le_add_left _ _
  have hmint := hroom.supply_add_le
  have hpos := ha.rent_pos
  have hfunded := ha.funded
  refine .bind (UpdateCommon.mintProtocolFeesIf_passes hroom (by omega)) fun w₁ h₁ ↦ ?_
  obtain ⟨fee, msol, -, -, -, rfl⟩ := UpdateCommon.mintProtocolFeesIf_spec h₁
  refine .bind (close_passes { ha with } hdeactivated hcooled
    (show w.state.availableReserveBalance + w.lamportsOf accounts.stakeAccount ≤ u64Max by omega))
    fun w₂ h₂ ↦ ?_
  obtain ⟨l, -, -, rfl⟩ := close_spec h₂ ha.account_eq
    (show 0 < w.lamportsOf accounts.stakeAccount by omega)
    (show _ ≤ w.lamportsOf accounts.stakeAccount by omega)
  refine .bind (bookOutSome_avoids (fun _ ↦ hcooling) ?_) fun s₂ h₃ ↦ ?_
  · simp [hroom.done, DelinquentUpgraderState.isIteratingStakes]
  obtain ⟨delinquent, hbooked⟩ := bookOutSome_spec h₃
  have hleft : s₂.controlled + r.lastUpdateDelegatedLamports
      = w.state.controlled
        + (w.lamportsOf accounts.stakeAccount - account.stakeMeta.rentExemptReserve) :=
    hbooked.controlled_eq.trans (Nat.add_assoc _ _ _).symm
  have hmsol : s₂.msolSupply = w.state.msolSupply + fee := by rw [hbooked.state_eq]
  have htickets : s₂.circulatingTicketBalance = w.state.circulatingTicketBalance := by
    rw [hbooked.state_eq]
  have hdone : s₂.delinquentUpgrader = .done := hbooked.phase_eq.trans (by rw [hroom.done])
  refine finish_avoids (fun _ ↦ ?_) (fun _ ↦ ?_) (fun _ ↦ ?_) (by simp [hdone])
  · change i < s₂.stakeSystem.records.length
    rw [hbooked.state_eq]
    exact hi
  · simp only
    omega
  · simp only [State.virtualStaked, hmsol, htickets] at hprice hsupply ⊢
    omega

/-- Nothing stops the update of an account that has cooled down. -/
theorem process_passes (hsteady : (steady rt).Reachable w) (hf : w.Fits)
    (hpaused : w.state.paused = false)
    (hoperational : accounts.operationalSolAccount = w.state.operationalSolAccount)
    (hb : UpdateCommon.Begun accounts.toUpdateCommon i j w account d r v)
    (hdeactivated : d.deactivationEpoch ≤ w.clock.epoch)
    (hcooled : rt.effectiveStake d w.clock.epoch = 0) : Passes (process rt accounts i j w) := by
  have h := reachable_of_steady hsteady
  have hintact := intact_of_reachable h
  have hmem := List.mem_of_getElem? hb.record
  have htracked := hintact.booked.tracked r hmem
  have ha := hb.withdrawable hintact (unlocked_of_reachable hsteady)
  have hfunded := ha.funded
  have hrent : account.stakeMeta.rentExemptReserve ≤ w.lamportsOf accounts.stakeAccount := by omega
  have hepoch : d.deactivationEpoch ≠ epochMax := by
    have hlt := w.clock.epoch_lt
    omega
  have hroom := hf.room (x := w.lamportsOf accounts.stakeAccount) h (w.lamports.balance_le_total _)
  rw [process, bind_of_ok (a := ()) (ensure_eq_ok.mpr hoperational),
    bind_of_ok (a := ()) (ensure_eq_ok.mpr (by simp [hpaused])),
    bind_of_ok (totalVirtualStakedLamports_of_reachable h),
    bind_of_ok (hintact.begin_eq_ok hb),
    bind_of_ok (a := ()) (ensure_eq_ok.mpr hepoch)]
  refine .bind (detectDelinquent_avoids (fun _ ↦ (List.getElem?_eq_some_iff.mp hb.validator).1)
    (fun _ hactive ↦ ?_) (fun _ hactive ↦ ?_) fun hactive ↦ hb.active_le hintact hactive)
    fun detected hdetect ↦ ?_
  · by_contra hemergency
    have hdeactivating := htracked.emergency (by simpa using hemergency)
    rw [hactive] at hdeactivating
    cases hdeactivating
  · obtain ⟨-, hle⟩ := hb.active_le hintact hactive
    have hcontrolled := hroom.controlled_le
    simp only [World.realigned, State.controlled] at hcontrolled ⊢
    omega
  have hdetected := detectDelinquent_spec hdetect
  have hsystem : detected.2.stakeSystem = w.state.stakeSystem := by
    rw [hdetected.state_eq]
    rfl
  rw [bind_of_ok (checkedSub_eq_ok.mpr ⟨hrent, rfl⟩)]
  refine mint_close_finish_passes ha hdeactivated hcooled
    ((hdetected.room hroom).mono le_rfl ?_) ?_ ?_ ?_
  · simp only [Bool.decide_and, Bool.and_eq_true, decide_eq_true_eq]
    exact And.left
  · simp only
    omega
  · exact hdetected.cooling_le htracked.known fun hdeactivating ↦
      hintact.booked.cooling_le hmem hdeactivating
  · rw [hsystem]
    exact (List.getElem?_eq_some_iff.mp hb.record).1

end UpdateDeactivated

/-! ## Every listed account -/

/-- On a cluster whose time of day does not go back, in every reachable state that is not paused, an
active account whose record is not empty can be updated, and so can one that has cooled down, as
long as its validator is listed. The first update brings the record up to date, the second one
removes it and closes the account. -/
theorem account_can_be_updated (hsteady : (steady rt).Reachable w) (hf : w.Fits)
    (hpaused : w.state.paused = false) (hr : r ∈ w.state.stakeSystem.records)
    (ha : w.stakes r.stakeAccount = some account) (hd : account.delegation = some d) :
    (d.deactivationEpoch = epochMax → 0 < r.lastUpdateDelegatedLamports → ∃ i j w',
      exec rt w (.updateActive ⟨r.stakeAccount⟩ i j) = .ok (w', .silent) ∧
      w.state.stakeSystem.records[i]? = some r ∧
      w'.state.stakeSystem.records = w.state.stakeSystem.records.set i { r with
        lastUpdateStatus := .active
        lastUpdateEpoch := w.clock.epoch
        lastUpdateDelegatedLamports := d.stake }) ∧
    (d.deactivationEpoch ≤ w.clock.epoch → rt.effectiveStake d w.clock.epoch = 0 →
      (∃ v ∈ w.state.validatorSystem.records, v.validatorAccount = d.voterPubkey) → ∃ i j w',
      exec rt w (.updateDeactivated ⟨⟨r.stakeAccount⟩, w.state.operationalSolAccount⟩ i j)
        = .ok (w', .silent) ∧
      w.state.stakeSystem.records[i]? = some r ∧
      w'.state.stakeSystem.records = swapRemove w.state.stakeSystem.records i ∧
      w'.stakes r.stakeAccount = none) := by
  have h := reachable_of_steady hsteady
  have hintact := intact_of_reachable h
  have hfunded := hintact.wellFormed.stakes_sound.funded r.stakeAccount
  obtain ⟨i, hi⟩ := List.mem_iff_getElem?.mp hr
  have hbegun {v : ValidatorRecord} {j : ℕ} (hj : w.state.validatorSystem.records[j]? = some v)
      (hvoter : v.validatorAccount = d.voterPubkey) :
      UpdateCommon.Begun ⟨r.stakeAccount⟩ i j w account d r v := ⟨ha, hd, hi, rfl, hj, hvoter⟩
  constructor
  · intro hactive hpos
    have hstatus := hintact.booked.status_eq_active hr ha hd hactive
    have hvoter : w.voterOf r.stakeAccount = some d.voterPubkey := by
      simp [Chain.voterOf, ha, hd]
    have hamount : r.activeAmount = r.lastUpdateDelegatedLamports := if_pos hstatus
    obtain ⟨v, hv, hvote⟩ := listed_of_activeAmount_pos h hr hvoter (by rwa [hamount])
    obtain ⟨j, hj⟩ := List.mem_iff_getElem?.mp hv
    obtain ⟨w', hw⟩ :=
      (UpdateActive.process_passes hsteady hf hpaused (hbegun hj hvote) hactive).exists_ok
    refine ⟨i, j, w', by rw [exec, hw]; rfl, hi, ?_⟩
    obtain ⟨account', d', r', _, _, _, _, _, hs⟩ := UpdateActive.process_spec hw hfunded
    obtain rfl : r' = r := Option.some.inj (hs.record.symm.trans hi)
    obtain rfl : account' = account := Option.some.inj (hs.account_eq.symm.trans ha)
    obtain rfl : d' = d := Option.some.inj (hs.delegation_eq.symm.trans hd)
    exact hs.records_eq
  · rintro hdeactivated hcooled ⟨v, hv, hvote⟩
    obtain ⟨j, hj⟩ := List.mem_iff_getElem?.mp hv
    have hpasses : Passes (UpdateDeactivated.process rt
        ⟨⟨r.stakeAccount⟩, w.state.operationalSolAccount⟩ i j w) :=
      UpdateDeactivated.process_passes hsteady hf hpaused rfl (hbegun hj hvote) hdeactivated hcooled
    obtain ⟨w', hw⟩ := hpasses.exists_ok
    refine ⟨i, j, w', by rw [exec, hw]; rfl, hi, ?_⟩
    obtain ⟨_, _, _, _, _, _, _, _, _, hs⟩ := UpdateDeactivated.process_spec hw hfunded
    exact ⟨hs.records_eq, by rw [hs.stakes_eq, Function.update_self]⟩

end

/-! ## The two accounts of the sample -/

namespace Sample

/-- What happens in the sample, as long as the time of day does not go back. -/
def watching : Option (List Label × World) :=
  System.replay (fun w a ↦ (a.perform runtime w).filter fun p ↦
    w.clock.unixTimestamp ≤ p.2.clock.unixTimestamp) (fun _ _ ↦ true) [] fresh visiting

def watched : List Label × World :=
  watching.get (by decide +kernel)

theorem watched_run : (steady runtime).Run fresh watched.1 watched.2 := by
  refine System.Run.replay (S := steady runtime) (fun w a l w' hp _ ↦ ?_) .nil
    (Option.some_get _ : some watched = watching).symm
  obtain ⟨hp, htime⟩ := Option.filter_eq_some_iff.mp hp
  exact ⟨Action.step_of_perform hp, of_decide_eq_true htime⟩

theorem watched_reachable : (steady runtime).Reachable watched.2 :=
  watched_run.reachable ⟨fresh_fresh, by decide +kernel⟩

theorem watched_fits : watched.2.Fits where
  lamports_le := by decide +kernel
  supply_le := by decide +kernel
  lamports_lt := by decide +kernel

theorem rewarded_listed : ∃ r ∈ watched.2.state.stakeSystem.records, ∃ account d,
    r.stakeAccount = .external 30 ∧ 0 < r.lastUpdateDelegatedLamports ∧
    watched.2.stakes (.external 30) = some account ∧ account.delegation = some d ∧
    d.deactivationEpoch = epochMax := by
  refine ⟨(watched.2.state.stakeSystem.records[0]?).get (by decide +kernel),
    List.mem_of_getElem? (Option.some_get _).symm,
    (watched.2.stakes (.external 30)).get (by decide +kernel),
    (((watched.2.stakes (.external 30)).get (by decide +kernel)).delegation).get
      (by decide +kernel), by decide +kernel, by decide +kernel, (Option.some_get _).symm,
    (Option.some_get _).symm, by decide +kernel⟩

theorem deactivated_listed : ∃ r ∈ watched.2.state.stakeSystem.records, ∃ account d,
    r.stakeAccount = .external 31 ∧
    watched.2.stakes (.external 31) = some account ∧ account.delegation = some d ∧
    d.deactivationEpoch ≤ watched.2.clock.epoch ∧
    runtime.effectiveStake d watched.2.clock.epoch = 0 ∧
    ∃ v ∈ watched.2.state.validatorSystem.records, v.validatorAccount = d.voterPubkey := by
  refine ⟨(watched.2.state.stakeSystem.records[1]?).get (by decide +kernel),
    List.mem_of_getElem? (Option.some_get _).symm,
    (watched.2.stakes (.external 31)).get (by decide +kernel),
    (((watched.2.stakes (.external 31)).get (by decide +kernel)).delegation).get
      (by decide +kernel), by decide +kernel, (Option.some_get _).symm,
    (Option.some_get _).symm, by decide +kernel, by decide +kernel,
    (watched.2.state.validatorSystem.records[0]?).get (by decide +kernel),
    List.mem_of_getElem? (Option.some_get _).symm, by decide +kernel⟩

end Sample

theorem account_can_be_updated_sample :
    (∃ i j w', exec Sample.runtime Sample.watched.2 (.updateActive ⟨.external 30⟩ i j)
      = .ok (w', .silent)) ∧
    ∃ i j w', exec Sample.runtime Sample.watched.2 (.updateDeactivated
      ⟨⟨.external 31⟩, Sample.watched.2.state.operationalSolAccount⟩ i j) = .ok (w', .silent) ∧
      w'.stakes (.external 31) = none := by
  constructor
  · obtain ⟨r, hr, account, d, hkey, hpos, ha, hd, hactive⟩ := Sample.rewarded_listed
    rw [← hkey] at ha ⊢
    obtain ⟨i, j, w', hexec, -⟩ := (account_can_be_updated Sample.watched_reachable
      Sample.watched_fits (by decide +kernel) hr ha hd).1 hactive hpos
    exact ⟨i, j, w', hexec⟩
  · obtain ⟨r, hr, account, d, hkey, ha, hd, hdeactivated, hcooled, hv⟩ :=
      Sample.deactivated_listed
    rw [← hkey] at ha ⊢
    obtain ⟨i, j, w', hexec, -, -, hclosed⟩ := (account_can_be_updated Sample.watched_reachable
      Sample.watched_fits (by decide +kernel) hr ha hd).2 hdeactivated hcooled hv
    exact ⟨i, j, w', hexec, hclosed⟩

end Marinade
