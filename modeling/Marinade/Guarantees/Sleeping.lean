import Marinade.Guarantees.Ownership
import Marinade.Guarantees.Powers
import Marinade.Guarantees.Solvency
import Marinade.Guarantees.Withdrawal

/-!
# Holders who sleep

Whoever holds mSOL need not watch the pool. As long as no update finds slashing, what the tokens are
worth falls by at most one token for every withdrawal of stake, which rounds in favour of the one
who withdraws; nothing else that anybody does lowers it. And whoever wakes up can leave: unless the
program is paused, an order of a delayed unstake succeeds and grants all of that but the fee.

What the program needs for the order it has: the limits on the fee and on the minimum to withdraw
are enforced, and the totals fit.
-/

open Foundation Foundation.Ledger Foundation.Valuation

namespace Marinade

/-- The step is a withdrawal of stake. -/
def Label.withdrawsStake : Label → Bool
  | .instruction (.withdrawStakeAccount ..) _ => true
  | _ => false

/-- What an order of a delayed unstake grants: the worth of the mSOL less the fee. -/
def State.orderedLamports (s : State) (msolAmount : ℕ) : ℕ :=
  s.msolValue msolAmount - s.delayedUnstakeFee.apply (s.msolValue msolAmount)

/-- The program for keys that do nothing themselves, where no update finds slashing. -/
def asleep (rt : Runtime) (U : Pubkey → Prop) : System World Label :=
  (bystander rt U).restrict fun w l ↦ w.quiet l = true

section

variable {U : Pubkey → Prop} {rt : Runtime} {w w₀ w' : World} {i j k n x : ℕ} {l : Label}
  {ls : List Label} {key : Pubkey} {holder : TokenHolder}

/-! ## What the tokens are worth -/

/-- A withdrawal costs the others at most one token. -/
theorem WithdrawStakeAccount.process_worthLe {accounts : WithdrawStakeAccount}
    {beneficiary : Pubkey} {e : WithdrawStakeAccountEvent}
    (h : accounts.process rt i j x beneficiary w = .ok (w', e)) (hw : WellFormed rt w)
    (hs : 0 < w.state.msolSupply) (hn : n ≤ w'.state.msolSupply) :
    WorthLe w.state.fund.valuation (n - 1) w'.state.fund.valuation n := by
  obtain ⟨account, d, r, v, topUp, h⟩ := process_spec h (hw.stakes_sound.funded _)
  by_cases ht : w.getTreasuryMsolBalance = none
  · exact ((h.priceLe_iff hs).mpr (.inl ht)).worthLe (Nat.sub_le n 1)
  obtain ⟨hpos, hburn⟩ := h.burned_eq hs ht
  have hburned := h.burned_le
  have hsupply : w'.state.msolSupply = w.state.msolSupply - e.msolBurned := by rw [h.state_eq]
  change WorthLe ⟨w.state.virtualStaked, w.state.msolSupply⟩ _
    ⟨w'.state.virtualStaked, w'.state.msolSupply⟩ _
  rw [hsupply] at hn
  rw [h.virtualStaked_eq, hsupply]
  by_cases hmore : w.state.virtualStaked < e.splitLamports
  · -- no mSOL are left
    have hall : w.state.msolSupply ≤ e.msolBurned := by
      rw [hburn, Nat.le_div_iff_mul_le hpos, Nat.mul_comm]
      exact Nat.mul_le_mul_right _ hmore.le
    obtain rfl : n = 0 := by omega
    simp [WorthLe]
  · rw [hburn] at hburned hn ⊢
    exact worthLe_redeem_div hpos (Nat.not_lt.mp hmore) (by omega) hn

theorem Step.worthLe (hr : (marinade rt).Reachable w) (h : Step rt w l w') (hl : w.quiet l = true)
    (hpos : 0 < w.msol.supply) (hn : n ≤ w'.state.msolSupply) :
    WorthLe w.state.fund.valuation (n - if l.withdrawsStake then 1 else 0)
      w'.state.fund.valuation n := by
  have hw := wellFormed_of_reachable hr
  have hb := bounds_of_reachable hr
  cases l with
  | instruction i e =>
    have hquiet : w.observesSlashing i = false := by simpa [World.quiet] using hl
    by_cases hi : i.isWithdrawStakeAccount = false
    · have hflows := (executed_of_exec h hw.stakes_sound).flows hw hb hi hquiet
      exact (hflows.priceLe hpos).worthLe (Nat.sub_le _ _)
    · cases i with
      | withdrawStakeAccount =>
        obtain ⟨_, hp, -⟩ := reporting_eq_ok h
        exact WithdrawStakeAccount.process_worthLe hp hw (hpos.trans_le hb.supply_le) hn
      | _ => exact absurd rfl hi
  | external x =>
    rw [h.2]
    exact PriceLe.refl.worthLe (Nat.sub_le _ _)

/-- Rounded down, too. -/
theorem msolValue_le_of_worthLe {s s' : State} {m : ℕ}
    (h : WorthLe s.fund.valuation m s'.fund.valuation n) (hs : 0 < s.msolSupply)
    (hs' : 0 < s'.msolSupply) : s.msolValue m ≤ s'.msolValue n := by
  rw [State.msolValue, State.msolValue, if_neg hs.ne', if_neg hs'.ne']
  exact h.div_le hs hs'

/-! ## A run -/

theorem spares_of_bystander (hr : (marinade rt).Reachable w) (hU : ∀ k, U k → k.canSign = true)
    (h : (bystander rt U).step w l w') : w.Spares U w'.toChain := by
  obtain ⟨hs, hl⟩ := h
  cases l with
  | instruction i e => exact spares_of_exec hs (wellFormed_of_reachable hr) hU hl
  | external x => exact hl

/-- Tokens of a sleeper that nobody else may spend. -/
structure World.Keeps (w : World) (U : Pubkey → Prop) (key : Pubkey) (holder : TokenHolder)
    (n : ℕ) : Prop where
  holder_eq : w.msol.holder key = some holder
  own : U holder.owner
  delegate_eq : holder.delegate = none
  le_amount : n ≤ w.msol.amount key

theorem World.Keeps.le_supply (h : w.Keeps U key holder n) (hb : Bounds w) :
    n ≤ w.msol.supply ∧ n ≤ w.state.msolSupply := by
  have hle := h.le_amount.trans (w.msol.ledger.balance_le_total key)
  exact ⟨hle, hle.trans hb.supply_le⟩

theorem World.Keeps.of_spares (h : w.Keeps U key holder n) (hs : w.Spares U w'.toChain) :
    w'.Keeps U key holder n := by
  obtain ⟨holder', heq, hspared⟩ := hs.msol.holder key holder h.holder_eq h.own
  obtain rfl : holder' = holder := hspared.unchanged fun d hd ↦ by
    rw [h.delegate_eq] at hd
    cases hd
  have hle := hspared.amount_le
  exact ⟨heq, h.own, h.delegate_eq, h.le_amount.trans (by omega)⟩

/-- The tokens of a sleeper stay. -/
theorem kept_of_asleep (h : (asleep rt U).Run w₀ ls w) (h₀ : (marinade rt).Reachable w₀)
    (hU : ∀ k, U k → k.canSign = true) (hk : w₀.Keeps U key holder n) :
    (marinade rt).Reachable w ∧ w.Keeps U key holder n := by
  refine h.induct (P := fun _ w ↦ (marinade rt).Reachable w ∧ w.Keeps U key holder n) ⟨h₀, hk⟩ ?_
  rintro _ w l w' - ⟨hr, hk⟩ hs
  exact ⟨hr.step hs.1.1, hk.of_spares (spares_of_bystander hr hU hs.1)⟩

/-- They are worth what they were but for one token for each withdrawal of stake. -/
theorem worthLe_of_asleep (h : (asleep rt U).Run w₀ ls w) (h₀ : (marinade rt).Reachable w₀)
    (hU : ∀ k, U k → k.canSign = true) (hpos : 0 < n) (hk₀ : w₀.Keeps U key holder n) :
    ∀ m ≤ n, WorthLe w₀.state.fund.valuation (m - ls.countP Label.withdrawsStake)
      w.state.fund.valuation m := by
  induction h with
  | nil => exact fun m _ ↦ PriceLe.refl.worthLe (Nat.sub_le _ _)
  | @snoc ls w l w' hrun hs hworth =>
    obtain ⟨hr, hk⟩ := kept_of_asleep hrun h₀ hU hk₀
    obtain ⟨hr', hk'⟩ := kept_of_asleep (hrun.snoc hs) h₀ hU hk₀
    intro m hm
    obtain ⟨hsupply, hbooked⟩ := hk.le_supply (bounds_of_reachable hr)
    obtain ⟨-, hbooked'⟩ := hk'.le_supply (bounds_of_reachable hr')
    have hstep := Step.worthLe hr hs.1.1 hs.2 (hpos.trans_le hsupply) (hm.trans hbooked')
    have hbefore := hworth _ ((Nat.sub_le m (if l.withdrawsStake then 1 else 0)).trans hm)
    rw [Nat.sub_sub, Nat.add_comm] at hbefore
    rw [List.countP_cons]
    exact hbefore.trans hstep (hpos.trans_le hbooked)

/-! ## Waking up -/

theorem Fresh.minWithdraw_le (h : Fresh rt w) : w.state.minWithdraw ≤ State.maxWithdrawAtom := by
  obtain ⟨accounts, data, c, -, h⟩ := h
  simp only [Initialize.process, bind_eq_ok, ensure_eq_ok, pure_eq_ok, exists_const] at h
  obtain ⟨-, -, -, -, -, -, -, ss, -, vs, -, pool, -, rfl⟩ := h
  exact Nat.one_le_of_lt (by decide : 1 < State.maxWithdrawAtom)

/-- The limit on the minimum to withdraw is enforced. -/
theorem minWithdraw_le_of_reachable (h : (marinade rt).Reachable w) :
    w.state.minWithdraw ≤ State.maxWithdrawAtom := by
  refine h.induct (P := fun w ↦ w.state.minWithdraw ≤ State.maxWithdrawAtom)
    (fun _ h ↦ Fresh.minWithdraw_le h) fun w l w' hr hle hs ↦ ?_
  cases l with
  | external x =>
    rw [hs.2]
    exact hle
  | instruction ins e =>
    have executed := executed_of_exec hs (wellFormed_of_reachable hr).stakes_sound
    by_cases hi : ins.configures = true
    · exact (executed.configured hi).1.min_withdraw hle
    · have hkept := executed.leaves.undecided (by simpa using hi) (bounds_of_reachable hr)
      have heq : w'.state.minWithdraw = w.state.minWithdraw :=
        congrArg Configuration.minWithdraw hkept.configuration_eq
      rwa [heq]

/-- The fee takes at most what its limit says. -/
theorem State.Admissible.orderedLamports_ge {s : State} (h : s.Admissible) (n : ℕ) :
    998 * s.msolValue n ≤ 1000 * s.orderedLamports n := by
  have hfee := FeeCents.apply_mul_le s.delayedUnstakeFee (s.msolValue n)
  have hlimit : s.msolValue n * s.delayedUnstakeFee.bpCents ≤ s.msolValue n * 2000 :=
    Nat.mul_le_mul_left _ h.delayed_unstake_fee
  rw [FeeCents.maxBpCents] at hfee
  rw [State.orderedLamports]
  omega

/-- The owner may burn what is in the account. -/
theorem TokenMint.exists_burn {vault : Pubkey → Option Pubkey} {mint : TokenMint vault}
    (hholder : mint.holder key = some holder) (hdelegate : holder.delegate = none)
    (hn : n ≤ mint.amount key) : ∃ mint', mint.burn key holder.owner n = .ok mint' := by
  refine ⟨{ mint with ledger := mint.ledger.burn key n hn }, ?_⟩
  have hspend : mint.spend key holder.owner n = .ok mint := by
    simp only [spend, bind_eq_ok, orError_eq_ok]
    refine ⟨holder, hholder, ?_⟩
    rw [hdelegate, if_neg (by simp), ensure_bind_eq_ok]
    exact ⟨rfl, rfl⟩
  simp only [burn, bind_eq_ok, orError_eq_ok, take_eq_some_iff, pure_eq_ok]
  exact ⟨mint, hspend, _, ⟨hn, rfl⟩, rfl⟩

/-- A holder who gets at least the minimum can order a delayed unstake. -/
theorem OrderUnstake.exists_process {ticket : Pubkey} (hr : (marinade rt).Reachable w)
    (hk : w.Keeps U key holder n) (hsign : holder.owner.canSign = true)
    (hpaused : w.state.paused = false) (hunused : w.isUnused ticket = true)
    (hrent : rt.ticketRent ≤ w.lamportsOf ticket)
    (hcount : w.state.circulatingTicketCount < u64Max) (hpos : 0 < n)
    (hvalue : 0 < w.state.msolValue n) (hmin : w.state.minWithdraw ≤ w.state.orderedLamports n) :
    ∃ w' e, process rt ⟨key, holder.owner, ticket⟩ n w = .ok (w', e) ∧
      e.beneficiary = holder.owner ∧ e.solAmount = w.state.orderedLamports n := by
  have hw := wellFormed_of_reachable hr
  have hcontrolled := controlled_le_of_reachable hr
  obtain ⟨-, hsupply⟩ := hk.le_supply (bounds_of_reachable hr)
  have hs : 0 < w.state.msolSupply := hpos.trans_le hsupply
  -- the tokens are worth at most the virtual stake, so the new ticket is covered as well
  have hworth : n * w.state.virtualStaked / w.state.msolSupply = w.state.msolValue n :=
    (if_neg hs.ne').symm
  have hle : w.state.msolValue n ≤ w.state.virtualStaked := by
    rw [← hworth]
    exact Nat.div_le_of_le_mul (Nat.mul_le_mul_right _ hsupply)
  have hequity : w.state.virtualStaked + w.state.circulatingTicketBalance = w.state.controlled := by
    unfold State.virtualStaked at *
    omega
  have hfee : w.state.delayedUnstakeFee.apply (w.state.msolValue n) ≤ w.state.msolValue n :=
    FeeCents.apply_le (hw.admissible.delayed_unstake_fee.trans (by decide)) _
  have hgranted : w.state.orderedLamports n ≤ w.state.msolValue n := Nat.sub_le _ _
  have hsource : checkTokenSourceAccount holder (w.msol.amount key) holder.owner n = .ok () := by
    rw [checkTokenSourceAccount, hk.delegate_eq, if_neg (by simp), if_pos rfl, ensure_eq_ok]
    exact hk.le_amount
  have hepoch : w.clock.epoch + (if w.clock.epoch = w.state.stakeSystem.lastStakeDeltaEpoch then 1
      else 0) ≤ u64Max := by
    have hlt : w.clock.epoch < u64Max := w.clock.epoch_lt
    split <;> omega
  obtain ⟨msol, hburn⟩ := TokenMint.exists_burn hk.holder_eq hk.delegate_eq hk.le_amount
  simp only [process, bind_eq_ok, ensure_eq_ok, orError_eq_ok, checkedSub_eq_ok, checkedAdd_eq_ok,
    pure_eq_ok, exists_const, State.msolToSol_eq_ok, State.onMsolBurn_eq_ok, proportional_eq_ok]
  have hcovered : w.state.circulatingTicketBalance + w.state.orderedLamports n ≤ u64Max := by omega
  refine ⟨_, ⟨_, _, _, _, _⟩, ⟨holder, hk.holder_eq, hsign, hunused, hrent,
    by simpa using hpaused, (), hsource, _, ⟨hcontrolled, .inr ⟨hs, by omega, hworth⟩⟩, _,
    ⟨hfee, rfl⟩, hmin, _, ⟨hcovered, rfl⟩, _, ⟨hcount, rfl⟩, msol, hburn, _, ⟨hsupply, rfl⟩, _,
    ⟨hepoch, rfl⟩, rfl⟩, rfl, rfl⟩

/-- Whoever sleeps through any run without observed slashing still has the tokens, and can leave
with them unless the program is paused or has no room for a ticket. All but a fee of 0.2% is granted
of what they were worth, less one token for every withdrawal of stake in the run. -/
theorem sleeper_can_leave (h : (asleep rt U).Run w₀ ls w) (h₀ : (marinade rt).Reachable w₀)
    (hU : ∀ k, U k → k.canSign = true) (hholder : w₀.msol.holder key = some holder)
    (hown : U holder.owner) (hdelegate : holder.delegate = none)
    (hn : n ≤ w₀.msol.amount key) :
    w.Keeps U key holder n ∧ ∀ ticket,
      1000 * State.maxWithdrawAtom
        ≤ 998 * w₀.state.msolValue (n - ls.countP Label.withdrawsStake) →
      w.state.paused = false → w.isUnused ticket = true → rt.ticketRent ≤ w.lamportsOf ticket →
      w.state.circulatingTicketCount < u64Max →
      ∃ w' e, exec rt w (.orderUnstake ⟨key, holder.owner, ticket⟩ n)
          = .ok (w', .orderUnstake e) ∧
        e.beneficiary = holder.owner ∧
        998 * w₀.state.msolValue (n - ls.countP Label.withdrawsStake) ≤ 1000 * e.solAmount := by
  have hk₀ : w₀.Keeps U key holder n := ⟨hholder, hown, hdelegate, hn⟩
  obtain ⟨hr, hk⟩ := kept_of_asleep h h₀ hU hk₀
  refine ⟨hk, fun ticket hworth hpaused hunused hrent hcount ↦ ?_⟩
  have hpos : 0 < n := by
    by_contra hzero
    obtain rfl : n = 0 := by omega
    rw [Nat.zero_sub, State.msolValue, Nat.zero_mul, Nat.zero_div, ite_self] at hworth
    exact absurd hworth (by decide)
  obtain ⟨-, hs₀⟩ := hk₀.le_supply (bounds_of_reachable h₀)
  obtain ⟨-, hs⟩ := hk.le_supply (bounds_of_reachable hr)
  have hvalue : w₀.state.msolValue (n - ls.countP Label.withdrawsStake) ≤ w.state.msolValue n :=
    msolValue_le_of_worthLe (worthLe_of_asleep h h₀ hU hpos hk₀ n le_rfl) (hpos.trans_le hs₀)
      (hpos.trans_le hs)
  have hpayout := (wellFormed_of_reachable hr).admissible.orderedLamports_ge n
  have hmin := minWithdraw_le_of_reachable hr
  have hlimit : 0 < State.maxWithdrawAtom := by decide
  obtain ⟨w', e, hp, hbeneficiary, hamount⟩ := OrderUnstake.exists_process hr hk (hU _ hown)
    hpaused hunused hrent hcount hpos (by omega) (by omega)
  refine ⟨w', e, ?_, hbeneficiary, by omega⟩
  rw [exec, hp]
  rfl

end

/-! ## In the sample pool -/

namespace Sample

/-- The user has bought mSOL for a whole SOL, and there are rewards to be booked. -/
def saving : List Action := [
  .run (.addValidator ⟨user, vote, .duplicationFlag vote, user⟩ 100),
  .run (.deposit ⟨user, msolAccount⟩ 1000000000),
  .run (.stakeReserve ⟨vote, .external 30, user⟩ 0),
  .reward (.external 30) 20000000]

theorem saving_isSome : (replay runtime (fun _ _ ↦ true) fresh saving).isSome = true := by
  decide +kernel

def saved : List Label × World :=
  (replay runtime (fun _ _ ↦ true) fresh saving).get saving_isSome

theorem saved_reachable : (marinade runtime).Reachable saved.2 :=
  (run_of_replay (Option.some_get _).symm).reachable fresh_fresh

/-- A bot books them. -/
def booking : Instruction :=
  .updateActive ⟨.external 30⟩ 0 0

theorem booking_isSome : (exec runtime saved.2 booking).toOption.isSome = true := by
  decide +kernel

def booked : World × Event :=
  (exec runtime saved.2 booking).toOption.get booking_isSome

theorem booking_run : (asleep runtime (· = user)).Run saved.2 [.instruction booking booked.2]
    booked.1 :=
  System.Run.nil.snoc ⟨⟨step_of_isSome booking_isSome rfl, by simp [booking, Instruction.signers]⟩,
    by decide +kernel⟩

end Sample

theorem sleeper_sample :
    Sample.booked.1.Keeps (· = Sample.user) Sample.msolAccount ⟨Sample.user, none, 0⟩ 1000000000 ∧
    ∃ w' e, exec Sample.runtime Sample.booked.1
        (.orderUnstake ⟨Sample.msolAccount, Sample.user, .external 40⟩ 1000000000)
        = .ok (w', .orderUnstake e) ∧
      e.beneficiary = Sample.user ∧
      998 * Sample.saved.2.state.msolValue (1000000000
        - [Label.instruction Sample.booking Sample.booked.2].countP Label.withdrawsStake)
        ≤ 1000 * e.solAmount := by
  have hholder : Sample.saved.2.msol.holder Sample.msolAccount = some ⟨Sample.user, none, 0⟩ := by
    decide +kernel
  obtain ⟨hkept, hleaves⟩ := sleeper_can_leave (n := 1000000000) Sample.booking_run
    Sample.saved_reachable (fun _ hk ↦ by rw [hk]; rfl) hholder rfl rfl (by decide +kernel)
  exact ⟨hkept, hleaves (.external 40) (by decide +kernel) (by decide +kernel) (by decide +kernel)
    (by decide +kernel) (by decide +kernel)⟩

end Marinade
