import Marinade.Execution
import Marinade.Failures
import Marinade.Replay

/-!
# What a deposit pays

An order for mSOL is filled from the liquidity pool as far as it goes, and minted beyond that. Who
buys need not care which: the price is that of the pool's books either way, and the whole deposit is
spent. What the pool gets for a part of the order is rounded down, so it is never more than the
deposit.
-/

open Foundation Foundation.Ledger

namespace Marinade

namespace Deposit

/-- A deposit of `lamports` that filled an order of `order` mSOL. -/
structure Served (accounts : Deposit) (lamports order : ℕ) (w w' : World) (e : DepositEvent) :
    Prop where
  debited : w'.lamportsOf accounts.transferFrom + lamports = w.lamportsOf accounts.transferFrom
  credited : w'.msol.amount accounts.mintTo = w.msol.amount accounts.mintTo + order
  paid : e.solSwapped + e.solDeposited = lamports
  filled : e.msolSwapped + e.msolMinted = order
  swapped_le : e.msolSwapped ≤ w.msol.amount .msolLeg
  reserve_eq : w'.lamportsOf .reserve = w.lamportsOf .reserve + e.solDeposited
  supply_eq : w'.msol.supply = w.msol.supply + e.msolMinted
  state_eq : w'.state = { w.state with
    availableReserveBalance := w.state.availableReserveBalance + e.solDeposited
    msolSupply := w.state.msolSupply + e.msolMinted }

section

variable {accounts : Deposit} {w w' : World} {s : State} {x order leg paid : ℕ} {e : DepositEvent}

/-- The pool asks for at most the deposit: a part of the order is worth at most the whole. -/
theorem solSwapped_le (horder : s.calcMsolFromLamports (x - s.depositSolFee.apply x) = .ok order)
    (h : solSwapped s x order (min order leg) = .ok paid) : paid ≤ x := by
  obtain ⟨-, horder⟩ := State.calcMsolFromLamports_eq_ok.mp horder
  unfold solSwapped at h
  split at h
  · split at h
    · exact (Except.ok.inj h).ge
    · obtain ⟨-, hvalue⟩ := State.msolToSol_eq_ok.mp h
      by_cases hsupply : s.msolSupply = 0
      · -- the first mSOL cost a lamport each
        rw [hsupply, sharesFromValue, if_pos rfl] at horder
        have hcost := Except.ok.inj horder
        rcases proportional_eq_ok.mp hvalue with ⟨-, hpaid⟩ | ⟨hpos, -, -⟩
        · omega
        · omega
      · have hpos : 0 < s.msolSupply := Nat.pos_of_ne_zero hsupply
        refine Nat.le_of_mul_le_mul_right ?_ hpos
        calc paid * s.msolSupply
          _ ≤ min order leg * s.virtualStaked := proportional_mul_le hvalue
          _ ≤ order * s.virtualStaked := Nat.mul_le_mul_right _ (min_le_left _ _)
          _ ≤ (x - s.depositSolFee.apply x) * s.msolSupply := sharesFromValue_mul_le horder hpos
          _ ≤ x * s.msolSupply := Nat.mul_le_mul_right _ (Nat.sub_le _ _)
  · exact (Except.ok.inj h).symm.trans_le (Nat.zero_le _)

/-- Neither what is left of the deposit nor what is left of the order is ever negative. -/
theorem process_avoids : Avoids (· = .underflow .amount) (accounts.process x w) := by
  refine .bind (by simp) fun _ _ ↦ .bind (by simp) fun _ _ ↦ .bind (by simp) fun _ _ ↦
    .bind (by simp) fun _ _ ↦ .bind (by simp) fun _ _ ↦ .bind (by simp) fun _ _ ↦
    .bind (by simp) fun _ _ ↦ .bind (by simp) fun order horder ↦
    .bind (by simp [solSwapped]) fun paid hpaid ↦ .bind (by simp [swap]) fun _ _ ↦
    .bind ?_ fun _ _ ↦ .bind (by simp [transferToReserve]) fun _ _ ↦
    .bind (by simp) fun _ _ ↦ .bind (by simp [mint]) fun _ _ ↦ Avoids.ok_iff
  exact checkedSub_avoids.mpr fun _ ↦ solSwapped_le horder hpaid

theorem process_served (h : accounts.process x w = .ok (w', e)) (hto : accounts.mintTo ≠ .msolLeg) :
    ∃ order, w.state.calcMsolFromLamports (x - w.state.depositSolFee.apply x) = .ok order ∧
      Served accounts x order w w' e := by
  have hs := process_spec h
  have hpayer : ∀ k, k.canSign = false → k ≠ accounts.transferFrom := fun k hk ↦
    Chain.ne_of_not_canSign hk hs.payer_unused
  refine ⟨_, ?_, {
    debited := ?_
    credited := ?_
    paid := hs.paid
    filled := rfl
    swapped_le := by
      rw [hs.swapped]
      exact min_le_right _ _
    reserve_eq := ?_
    supply_eq := hs.supply_eq
    state_eq := hs.state_eq }⟩
  · simp only [process, bind_eq_ok, State.totalVirtualStakedLamports_eq_ok] at h
    obtain ⟨_, -, _, -, _, -, _, -, _, -, _, -, _, ⟨hle, -⟩, -⟩ := h
    exact State.calcMsolFromLamports_eq_ok.mpr ⟨hle, hs.order⟩
  · have hlamports := hs.lamports_eq accounts.transferFrom
    rw [only_self, only_of_ne (hpayer .solLeg rfl).symm, only_of_ne (hpayer .reserve rfl).symm]
      at hlamports
    exact hlamports
  · have hamount := hs.amount_eq accounts.mintTo
    rw [only_self, only_of_ne hto] at hamount
    exact hamount
  · have hlamports := hs.lamports_eq .reserve
    rw [only_self, only_of_ne (hpayer .reserve rfl), only_of_ne (by decide)] at hlamports
    exact hlamports

end

end Deposit

section

variable {rt : Runtime} {accounts : Deposit} {w₁ w₂ w₁' w₂' : World} {x : ℕ} {e₁ e₂ : Event}

/-- With the same books, whatever the liquidity pool holds, a deposit costs and pays the same, and
it never stops because a part of it would be negative. -/
theorem deposit_whatever_leg (hs : w₂.state = w₁.state) (hto : accounts.mintTo ≠ .msolLeg) :
    exec rt w₁ (.deposit accounts x) ≠ .error (.underflow .amount) ∧
    exec rt w₂ (.deposit accounts x) ≠ .error (.underflow .amount) ∧
    (exec rt w₁ (.deposit accounts x) = .ok (w₁', e₁) →
      exec rt w₂ (.deposit accounts x) = .ok (w₂', e₂) →
      ∃ order d₁ d₂, e₁ = .deposit d₁ ∧ e₂ = .deposit d₂ ∧
        w₁.state.calcMsolFromLamports (x - w₁.state.depositSolFee.apply x) = .ok order ∧
        Deposit.Served accounts x order w₁ w₁' d₁ ∧
        Deposit.Served accounts x order w₂ w₂' d₂) := by
  have hsafe : ∀ w, Avoids (· = .underflow .amount) (exec rt w (.deposit accounts x)) := by
    simp [exec, reporting, Deposit.process_avoids]
  refine ⟨fun he ↦ hsafe w₁ _ he rfl, fun he ↦ hsafe w₂ _ he rfl, fun h₁ h₂ ↦ ?_⟩
  obtain ⟨d₁, hp₁, hd₁⟩ := reporting_eq_ok h₁
  obtain ⟨d₂, hp₂, hd₂⟩ := reporting_eq_ok h₂
  obtain ⟨order₁, horder₁, hserved₁⟩ := Deposit.process_served hp₁ hto
  obtain ⟨order₂, horder₂, hserved₂⟩ := Deposit.process_served hp₂ hto
  rw [hs, horder₁] at horder₂
  obtain rfl := Except.ok.inj horder₂
  exact ⟨order₁, d₁, d₂, hd₁.symm, hd₂.symm, horder₁, hserved₁, hserved₂⟩

end

/-! ## Two pools -/

namespace Sample

/-- The same pool after somebody sent mSOL to its leg. -/
def donated : World :=
  { staked.2 with
    msol := (staked.2.msol.transfer treasury .msolLeg user 7000000).toOption.get
      (by decide +kernel) }

def buying : Instruction :=
  .deposit ⟨user, msolAccount⟩ 12345678

theorem buying_staked_isSome : (exec runtime staked.2 buying).toOption.isSome = true := by
  decide +kernel

theorem buying_donated_isSome : (exec runtime donated buying).toOption.isSome = true := by
  decide +kernel

end Sample

/-- Minted as a whole, or partly sold by the pool, it is the same deposit. -/
theorem deposit_whatever_leg_sample : ∃ w₁ w₂ e₁ e₂ order,
    exec Sample.runtime Sample.staked.2 Sample.buying = .ok (w₁, e₁) ∧
    exec Sample.runtime Sample.donated Sample.buying = .ok (w₂, e₂) ∧
    Sample.staked.2.msol.amount .msolLeg < Sample.donated.msol.amount .msolLeg ∧
    w₁.msol.amount Sample.msolAccount = order ∧ w₂.msol.amount Sample.msolAccount = order := by
  obtain ⟨w₁, e₁, h₁⟩ : ∃ w e, exec Sample.runtime Sample.staked.2
      (.deposit ⟨Sample.user, Sample.msolAccount⟩ 12345678) = .ok (w, e) :=
    ⟨_, _, eq_ok_get Sample.buying_staked_isSome⟩
  obtain ⟨w₂, e₂, h₂⟩ : ∃ w e, exec Sample.runtime Sample.donated
      (.deposit ⟨Sample.user, Sample.msolAccount⟩ 12345678) = .ok (w, e) :=
    ⟨_, _, eq_ok_get Sample.buying_donated_isSome⟩
  have hs : Sample.donated.state = Sample.staked.2.state := rfl
  have hto : (⟨Sample.user, Sample.msolAccount⟩ : Deposit).mintTo ≠ .msolLeg := by decide
  obtain ⟨order, d₁, d₂, -, -, -, hserved₁, hserved₂⟩ :=
    (deposit_whatever_leg hs hto).2.2 h₁ h₂
  have hnone₁ : Sample.staked.2.msol.amount Sample.msolAccount = 0 := by decide +kernel
  have hnone₂ : Sample.donated.msol.amount Sample.msolAccount = 0 := by decide +kernel
  have hcredited₁ := hserved₁.credited
  have hcredited₂ := hserved₂.credited
  simp only [hnone₁, hnone₂, Nat.zero_add] at hcredited₁ hcredited₂
  exact ⟨w₁, w₂, e₁, e₂, order, h₁, h₂, by decide +kernel, hcredited₁, hcredited₂⟩

end Marinade
