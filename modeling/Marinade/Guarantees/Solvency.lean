import Marinade.Failures
import Marinade.Guarantees.Price

/-!
# Solvency

As long as no update finds slashing, the lamports under control cover the tickets, so the virtual
stake is an exact difference and the stake target of `partial_unstake` is an amount, however many
lamports the reserve really holds.

One instruction breaks this. Whoever withdraws stake as the delegate of the token account is not
asked whether the account holds the mSOL they name. If it is the treasury account, the fee goes from
the account to itself and only the rest is burned, so a withdrawal can be worth more mSOL than there
are, and pay more than the virtual stake.
-/

open Foundation Foundation.Ledger

namespace Marinade

/-- A withdrawal of stake for more mSOL than the supply. -/
def World.overdraws (w : World) : Instruction → Bool
  | .withdrawStakeAccount _ _ _ msolAmount _ => decide (w.state.msolSupply < msolAmount)
  | _ => false

/-- A step that is no update that finds slashing. -/
def World.quiet (w : World) : Label → Bool
  | .instruction i _ => !w.observesSlashing i
  | .external _ => true

/-- Nor a withdrawal for more mSOL than the supply. -/
def World.covered (w : World) : Label → Bool
  | .instruction i _ => !w.observesSlashing i && !w.overdraws i
  | .external _ => true

/-- The program where no update finds slashing. -/
def quiet (rt : Runtime) : System World Label :=
  (marinade rt).restrict fun w l ↦ w.quiet l = true

/-- The program where besides nobody withdraws stake for more mSOL than the supply. -/
def covered (rt : Runtime) : System World Label :=
  (marinade rt).restrict fun w l ↦ w.covered l = true

section

variable {rt : Runtime} {w w' : World} {s : State} {i : Instruction} {e : Event} {l : Label}

theorem reachable_of_covered (h : (covered rt).Reachable w) : (marinade rt).Reachable w :=
  System.Reachable.of_restrict h

/-! ## The tickets are covered -/

/-- A withdrawal takes at most the virtual stake. -/
theorem WithdrawStakeAccount.Spec.solvent {accounts i j x beneficiary e account d r v topUp}
    (h : WithdrawStakeAccount.Spec rt accounts i j x beneficiary w w' e account d r v topUp)
    (hx : x ≤ w.state.msolSupply) (hs : w.state.fund.Solvent) : w'.state.fund.Solvent := by
  obtain ⟨value, hvalue, hfee⟩ := h.worth
  have hle : e.splitLamports ≤ w.state.virtualStaked :=
    (Nat.le_add_right _ _).trans (hfee.le.trans (le_virtualStaked_of_worth hvalue hx))
  have htotal := h.total_balance
  have hcontrolled : w'.state.controlled + e.splitLamports = w.state.controlled := by
    rw [h.state_eq]
    simp only [State.controlled]
    omega
  have htickets : w'.state.circulatingTicketBalance = w.state.circulatingTicketBalance := by
    rw [h.state_eq]
  unfold Fund.Solvent State.fund State.virtualStaked at *
  simp only at *
  omega

theorem solvent_of_exec (he : exec rt w i = .ok (w', e)) (hw : WellFormed rt w) (hb : Bounds w)
    (ho : w.observesSlashing i = false) (hx : w.overdraws i = false) (hs : w.state.fund.Solvent) :
    w'.state.fund.Solvent := by
  by_cases hi : i.isWithdrawStakeAccount = false
  · exact ((executed_of_exec he hw.stakes_sound).flows hw hb hi ho).solvent hs
  · cases i with
    | withdrawStakeAccount =>
      obtain ⟨_, hp, -⟩ := reporting_eq_ok he
      obtain ⟨_, _, _, _, _, h⟩ :=
        WithdrawStakeAccount.process_spec hp (hw.stakes_sound.funded _)
      exact h.solvent (Nat.not_lt.mp (of_decide_eq_false hx)) hs
    | _ => exact absurd rfl hi

/-- The lamports under control cover the tickets in every state that such a run reaches. -/
theorem fund_solvent_of_covered (h : (covered rt).Reachable w) : w.state.fund.Solvent := by
  refine h.induct_of (P := fun w ↦ w.state.fund.Solvent)
    (Q := fun w ↦ WellFormed rt w ∧ Bounds w) ?_ ?_ ?_
  · intro w hr
    exact ⟨wellFormed_of_reachable (reachable_of_covered hr),
      bounds_of_reachable (reachable_of_covered hr)⟩
  · rintro w ⟨accounts, data, c, -, hp⟩ -
    obtain ⟨-, -, -, -, -, -, htickets, -⟩ := (Initialize.process_spec hp).books
    simp only [Fund.Solvent, State.fund, htickets]
    exact Nat.zero_le _
  · rintro w l w' ⟨hw, hb⟩ - hs ⟨hstep, hcovered⟩
    cases l with
    | instruction i e =>
      simp only [World.covered, Bool.and_eq_true, Bool.not_eq_true'] at hcovered
      exact solvent_of_exec hstep hw hb hcovered.1 hcovered.2 hs
    | external x =>
      rw [hstep.2]
      exact hs

/-! ## The stake target -/

/-- In a solvent pool the target is between nothing and everything. -/
theorem totalStakeTarget_of_solvent (h : (marinade rt).Reachable w)
    (hs : w.state.fund.Solvent) :
    ∃ target, PartialUnstake.totalStakeTarget w.state (w.lamportsOf .reserve) = .ok target := by
  have hreserve := (bounds_of_reachable h).reserve_le
  have hcontrolled := (booked_of_reachable h).controlled_eq
  have hall := recorded_add_reserve_le h
  unfold Fund.Solvent State.fund at hs
  simp only [State.controlled] at hs hcontrolled
  unfold PartialUnstake.totalStakeTarget State.stakeDelta
  refine ⟨_, if_pos ?_⟩
  simp only
  split
  · omega
  · omega

/-- The panic of the `expect` on the target. -/
private def IsTargetPanic (e : Error) : Prop :=
  e = .assertion .totalStakeTarget

attribute [local simp] IsTargetPanic in
/-- Only the target panics, and it is computed from what the reserve really holds. -/
theorem PartialUnstake.process_noPanic {accounts : PartialUnstake} {i j x : ℕ}
    (h : Avoids IsTargetPanic (totalStakeTarget w.state (w.lamportsOf .reserve))) :
    Avoids IsTargetPanic (accounts.process rt i j x w) := by
  refine .bind (by simp) fun _ _ ↦ .bind (by simp) fun _ _ ↦ .bind (by simp) fun c hc ↦
    .bind (by simp) fun _ _ ↦ .bind (by simp) fun _ _ ↦ .bind (by simp) fun _ _ ↦
    .bind (by simp) fun _ _ ↦ .bind (by simp) fun _ _ ↦ .bind (by simp) fun _ _ ↦
    .bind (by simp) fun _ _ ↦ .bind ?_ fun _ _ ↦ .bind (by simp) fun _ _ ↦
    .bind (by simp) fun _ _ ↦ ?_
  · rw [(SystemProgram.initStakeAccount_rest hc).2.2.2]
    exact h
  · simp [returnUnusedSplitStakeAccountRent, unstakeWhole, unstakePart]

/-- Without slashing and overdrawn withdrawals, the lamports under control cover the tickets and
the target is never a panic. -/
theorem solvent_of_covered (h : (covered rt).Reachable w) :
    w.state.circulatingTicketBalance ≤ w.state.controlled ∧
    (∃ v, w.state.totalVirtualStakedLamports = .ok v ∧
      v + w.state.circulatingTicketBalance = w.state.controlled) ∧
    ∀ accounts i j x,
      exec rt w (.partialUnstake accounts i j x) ≠ .error (.assertion .totalStakeTarget) := by
  have hr := reachable_of_covered h
  have hs : w.state.circulatingTicketBalance ≤ w.state.controlled := fund_solvent_of_covered h
  refine ⟨hs, ⟨_, totalVirtualStakedLamports_of_reachable hr, Nat.sub_add_cancel hs⟩, ?_⟩
  intro accounts i j x hpanic
  obtain ⟨target, htarget⟩ := totalStakeTarget_of_solvent hr hs
  have havoids : Avoids IsTargetPanic (accounts.process rt i j x w) := by
    apply PartialUnstake.process_noPanic
    rw [htarget]
    exact Avoids.ok_iff
  rw [exec, silently, bind_eq_error] at hpanic
  rcases hpanic with hpanic | ⟨_, -, hpanic⟩
  · exact havoids _ hpanic rfl
  · cases hpanic

end

/-! ## An overdrawn withdrawal -/

namespace Sample

def solvent : List Label × World :=
  (replay runtime World.covered fresh staking).get (by decide +kernel)

theorem solvent_reachable : (covered runtime).Reachable solvent.2 :=
  (restrict_run_of_replay (fun _ _ h ↦ h) rfl (Option.some_get _).symm).reachable fresh_fresh

/-- Withdrawals are switched on, and a part of the mSOL becomes a ticket. The treasury holds the
rest. Its delegate withdraws more than that: both the fee and what is burned are less. -/
def overdrawing : List Action := staking ++ [
  .run (.configMarinade user ⟨none, none, none, none, none, none, none, some true, none, none, none,
    none, none⟩),
  .run (.orderUnstake ⟨treasury, user, .external 40⟩ 7000000),
  .run (.withdrawStakeAccount ⟨treasury, delegate, .external 30, .external 31, user⟩ 0 0 33000001
    user)]

def overdrawn : List Label × World :=
  (replay runtime World.quiet fresh overdrawing).get (by decide +kernel)

theorem overdrawn_reachable : (quiet runtime).Reachable overdrawn.2 :=
  (restrict_run_of_replay (fun _ _ h ↦ h) rfl (Option.some_get _).symm).reachable fresh_fresh

end Sample

theorem solvent_sample :
    Sample.solvent.2.state.circulatingTicketBalance ≤ Sample.solvent.2.state.controlled ∧
    (∃ v, Sample.solvent.2.state.totalVirtualStakedLamports = .ok v ∧
      v + Sample.solvent.2.state.circulatingTicketBalance = Sample.solvent.2.state.controlled) ∧
    ∀ accounts i j x, exec Sample.runtime Sample.solvent.2 (.partialUnstake accounts i j x)
      ≠ .error (.assertion .totalStakeTarget) :=
  solvent_of_covered Sample.solvent_reachable

/-- Without slashing alone the tickets can be more than the lamports under control. -/
theorem not_solvent_of_quiet : ∃ w, (quiet Sample.runtime).Reachable w ∧
    w.state.controlled < w.state.circulatingTicketBalance :=
  ⟨_, Sample.overdrawn_reachable, by decide +kernel⟩

end Marinade
