import Marinade.Invariants.Soundness

/-!
# The virtual balances bound the real ones

Outsiders can send lamports to the accounts of the program and burn tokens of their own. The state
does not see either until an update realigns it, so its own numbers may lag behind the chain, but
only to one side: the reserve really holds at least what is booked, and never more tokens exist than
are booked.
-/

open Foundation Foundation.Ledger

namespace Marinade

/-- What is booked against what is there. -/
structure Bounds (w : World) : Prop where
  reserve_le :
    w.state.availableReserveBalance + w.state.rentExemptForTokenAcc ≤ w.lamportsOf .reserve
  supply_le : w.msol.supply ≤ w.state.msolSupply
  lp_supply_le : w.lp.supply ≤ w.state.liqPool.lpSupply
  sol_leg_le : w.state.rentExemptForTokenAcc ≤ w.lamportsOf .solLeg

section

variable {rt : Runtime} {c c' : Chain} {w w' : World} {k k' : Pubkey} {i : Instruction} {e : Event}
  {x : External} {l : Label} {account : StakeAccount} {d : Delegation} {r : StakeRecord}
  {v v' : ValidatorRecord}

/-- A step that books nothing here and takes nothing from the two accounts. -/
private theorem Bounds.of_le (hb : Bounds w)
    (havailable : w'.state.availableReserveBalance = w.state.availableReserveBalance)
    (hrent : w'.state.rentExemptForTokenAcc = w.state.rentExemptForTokenAcc)
    (hsupply : w'.state.msolSupply = w.state.msolSupply)
    (hlp : w'.state.liqPool.lpSupply = w.state.liqPool.lpSupply)
    (hle : ∀ k, k = .reserve ∨ k = .solLeg → w.lamportsOf k ≤ w'.lamportsOf k)
    (hmsol_le : w'.msol.supply ≤ w.msol.supply) (hlp_le : w'.lp.supply ≤ w.lp.supply) :
    Bounds w' where
  reserve_le := by
    rw [havailable, hrent]
    exact hb.reserve_le.trans (hle _ (.inl rfl))
  supply_le := by
    rw [hsupply]
    exact hmsol_le.trans hb.supply_le
  lp_supply_le := by
    rw [hlp]
    exact hlp_le.trans hb.lp_supply_le
  sol_leg_le := by
    rw [hrent]
    exact hb.sol_leg_le.trans (hle _ (.inr rfl))

/-- The two accounts are addresses of the program, where nobody signs and nobody stakes. -/
private theorem reserve_or_solLeg (hk : k = .reserve ∨ k = .solLeg) :
    k.canSign = false ∧ k.holdsStake = false := by
  rcases hk with rfl | rfl
  · exact ⟨rfl, rfl⟩
  · exact ⟨rfl, rfl⟩

private theorem ne_payer (hk : k = .reserve ∨ k = .solLeg) (hu : c.isUnused k' = true) : k ≠ k' :=
  Chain.ne_of_not_canSign (reserve_or_solLeg hk).1 hu

private theorem ne_stake (hk : k = .reserve ∨ k = .solLeg) (hs : c.StakesSound rt)
    (hk' : c.stakes k' ≠ none) : k ≠ k' :=
  (hs.ne hk' (reserve_or_solLeg hk).2).symm

theorem Deposit.Spec.bounds {accounts x e} (h : Deposit.Spec accounts x w w' e)
    (hb : Bounds w) : Bounds w' := by
  have hreserve := h.lamports_eq .reserve
  have hleg := h.lamports_eq .solLeg
  rw [only_of_ne (ne_payer (.inl rfl) h.payer_unused), only_of_ne (by decide), only_self]
    at hreserve
  rw [only_of_ne (ne_payer (.inr rfl) h.payer_unused), only_self, only_of_ne (by decide)] at hleg
  refine ⟨?_, ?_, ?_, ?_⟩
  · rw [h.state_eq]
    have := hb.reserve_le
    simp only
    omega
  · rw [h.supply_eq, h.state_eq]
    exact Nat.add_le_add_right hb.supply_le _
  · rw [h.frame, h.state_eq]
    exact hb.lp_supply_le
  · rw [h.state_eq]
    have := hb.sol_leg_le
    simp only
    omega

theorem Claim.Spec.bounds {accounts e rent} (h : Claim.Spec accounts w w' e rent)
    (hw : WellFormed rt w) (hb : Bounds w) : Bounds w' := by
  have hticket : ∀ k, k.canSign = false → k ≠ accounts.ticketAccount := by
    rintro k hk rfl
    obtain ⟨epoch, hticket⟩ := h.ticket
    rw [h.ticket_eq] at hticket
    rw [(hw.ticket_place _ _ ⟨hticket, rfl⟩).1] at hk
    cases hk
  have hreserve := h.lamports_eq .reserve
  have hleg := h.lamports_eq .solLeg
  rw [only_self, only_of_ne (hticket _ rfl)] at hreserve
  rw [only_of_ne (by decide), only_of_ne (hticket _ rfl)] at hleg
  refine ⟨?_, ?_, ?_, ?_⟩
  · rw [h.state_eq]
    have := hb.reserve_le
    have := h.le_available
    simp only
    omega
  · rw [h.frame, h.state_eq]
    exact hb.supply_le
  · rw [h.frame, h.state_eq]
    exact hb.lp_supply_le
  · rw [h.state_eq]
    have := hb.sol_leg_le
    simp only
    omega

theorem RemoveLiquidity.alignedSupply_eq (hb : Bounds w) : alignedSupply w = w.lp.supply :=
  if_neg (Nat.not_lt.mpr hb.lp_supply_le)

theorem RemoveLiquidity.Spec.bounds {accounts x e} (h : RemoveLiquidity.Spec accounts x w w' e)
    (hb : Bounds w) : Bounds w' := by
  have hreserve := h.lamports_eq .reserve
  have hleg := h.lamports_eq .solLeg
  rw [only_of_ne (by decide)] at hreserve
  rw [only_self] at hleg
  have hout : e.solOutAmount ≤ w.lamportsOf .solLeg - w.state.rentExemptForTokenAcc := by
    rcases proportional_eq_ok.mp h.sol_out with ⟨hzero, hout⟩ | ⟨hpos, -, hout⟩
    · have := h.tokens_le
      omega
    · rw [← hout]
      exact Nat.div_le_of_le_mul (Nat.mul_le_mul_right _ h.tokens_le)
  refine ⟨?_, ?_, ?_, ?_⟩
  · rw [h.state_eq]
    have := hb.reserve_le
    simp only
    omega
  · rw [h.supply_eq, h.state_eq]
    exact hb.supply_le
  · have hlp := h.lp_supply_eq
    rw [h.state_eq]
    simp only [alignedSupply_eq hb]
    omega
  · rw [h.state_eq]
    have := h.rent_le
    simp only
    omega

theorem StakeReserve.Spec.bounds {accounts j x topUp}
    (h : StakeReserve.Spec rt accounts j w w' v x topUp) (hb : Bounds w) : Bounds w' := by
  obtain ⟨_, hstate⟩ := h.state_eq
  have hreserve := h.lamports_eq .reserve
  have hleg := h.lamports_eq .solLeg
  rw [only_of_ne (ne_payer (.inl rfl) h.payer_unused), only_self] at hreserve
  rw [only_of_ne (ne_payer (.inr rfl) h.payer_unused), only_of_ne (by decide)] at hleg
  refine ⟨?_, ?_, ?_, ?_⟩
  · rw [hstate]
    have := hb.reserve_le
    have := h.available
    simp only
    omega
  · rw [h.frame, hstate]
    exact hb.supply_le
  · rw [h.frame, hstate]
    exact hb.lp_supply_le
  · rw [hstate]
    have := hb.sol_leg_le
    simp only
    omega

theorem UpdateActive.Spec.bounds {accounts i j extra fee₁ fee₂}
    (h : UpdateActive.Spec accounts i j w w' account d r v v' extra fee₁ fee₂)
    (hs : w.StakesSound rt) (hb : Bounds w) : Bounds w' := by
  obtain ⟨_, hstate⟩ := h.state_eq
  have hrent : w'.state.rentExemptForTokenAcc = w.state.rentExemptForTokenAcc := by
    rw [hstate]
    rfl
  refine ⟨?_, ?_, ?_, ?_⟩
  · rw [hrent]
    exact h.reserve_aligned.le
  · rw [h.supply_eq, hstate]
    exact le_rfl
  · rw [h.frame, hstate]
    exact hb.lp_supply_le
  · rw [hrent]
    exact hb.sol_leg_le.trans (h.stake_le (ne_stake (.inr rfl) hs (by simp [h.account_eq])))

theorem UpdateDeactivated.Spec.bounds {accounts i j r' s₁ s₂ fee delinquent}
    (h : UpdateDeactivated.Spec accounts i j w w' account d r r' v s₁ s₂ fee delinquent)
    (hs : w.StakesSound rt) (hb : Bounds w) : Bounds w' := by
  obtain ⟨_, hstate⟩ := h.state_eq
  have hsrc : w.stakes accounts.stakeAccount ≠ none := by simp [h.account_eq]
  have hs₂ : s₂.availableReserveBalance = w.lamportsOf .reserve - w.state.rentExemptForTokenAcc
        + (w.lamportsOf accounts.stakeAccount - account.stakeMeta.rentExemptReserve) ∧
      s₂.msolSupply = w.msol.supply + fee ∧
      s₂.rentExemptForTokenAcc = w.state.rentExemptForTokenAcc ∧
      s₂.liqPool = w.state.liqPool := by
    rw [h.booked_out.state_eq, h.detected.state_eq]
    exact ⟨rfl, rfl, rfl, rfl⟩
  obtain ⟨havailable, hsupply, hrent, hpool⟩ := hs₂
  have hreserve := h.lamports_eq .reserve
  have hleg := h.lamports_eq .solLeg
  rw [only_of_ne (ne_stake (.inl rfl) hs hsrc), only_self, only_self] at hreserve
  rw [only_of_ne (ne_stake (.inr rfl) hs hsrc), only_of_ne (by decide), only_of_ne (by decide)]
    at hleg
  refine ⟨?_, ?_, ?_, ?_⟩
  · rw [hstate]
    have := hb.reserve_le
    have := h.rent_le
    simp only [havailable, hrent]
    omega
  · rw [h.supply_eq, hstate]
    exact hsupply.ge
  · rw [h.frame, hstate]
    simp only [hpool]
    exact hb.lp_supply_le
  · rw [hstate]
    have := hb.sol_leg_le
    simp only [hrent]
    omega

/-- What others lose by an instruction they did not sign is nothing. -/
private theorem le_of_lamports_eq {p q x y z : ℕ} {payer src dst : Pubkey}
    (h : q + only payer x k + only src y k = p + only dst z k) (hpayer : k ≠ payer)
    (hsrc : k ≠ src) : p ≤ q := by
  rw [only_of_ne hpayer, only_of_ne hsrc] at h
  omega

/-- Every instruction keeps the virtual balances below the real ones. -/
theorem Executed.bounds (h : Executed rt w w' i e) (hw : WellFormed rt w) (hb : Bounds w) :
    Bounds w' := by
  have hs := hw.stakes_sound
  cases h with
  | deposit h => exact h.bounds hb
  | claim h => exact h.bounds hw hb
  | removeLiquidity h => exact h.bounds hb
  | stakeReserve h => exact h.bounds hb
  | updateActive h => exact h.bounds hs hb
  | updateDeactivated h => exact h.bounds hs hb
  | depositStakeAccount h =>
    refine ⟨?_, ?_, ?_, ?_⟩
    · rw [h.frame, h.state_eq]; exact hb.reserve_le
    · rw [h.supply_eq, h.state_eq]; exact Nat.add_le_add_right hb.supply_le _
    · rw [h.frame, h.state_eq]; exact hb.lp_supply_le
    · rw [h.frame, h.state_eq]; exact hb.sol_leg_le
  | orderUnstake h =>
    have hsupply := h.supply_eq
    have hle := hb.supply_le
    refine ⟨?_, ?_, ?_, ?_⟩
    · rw [h.frame, h.state_eq]; exact hb.reserve_le
    · rw [h.state_eq]
      simp only
      omega
    · rw [h.frame, h.state_eq]; exact hb.lp_supply_le
    · rw [h.frame, h.state_eq]; exact hb.sol_leg_le
  | withdrawStakeAccount h =>
    have hsrc := Option.ne_none_iff_exists'.mpr ⟨_, h.account_eq⟩
    have hlam : ∀ k, k = .reserve ∨ k = .solLeg → w.lamportsOf k ≤ w'.lamportsOf k := fun k hk ↦
      le_of_lamports_eq (h.lamports_eq k) (ne_payer hk h.payer_unused) (ne_stake hk hs hsrc)
    have hsupply := h.supply_eq
    have hle := hb.supply_le
    refine ⟨?_, ?_, ?_, ?_⟩
    · rw [h.state_eq]; exact hb.reserve_le.trans (hlam _ (.inl rfl))
    · rw [h.state_eq]
      simp only
      omega
    · rw [h.frame, h.state_eq]; exact hb.lp_supply_le
    · rw [h.state_eq]; exact hb.sol_leg_le.trans (hlam _ (.inr rfl))
  | liquidUnstake h =>
    have hreserve := h.lamports_eq .reserve
    have hleg := h.lamports_eq .solLeg
    have hcovered := h.covered
    have hle := hb.reserve_le
    rw [only_of_ne (by decide)] at hreserve
    rw [only_self] at hleg
    refine ⟨?_, ?_, ?_, ?_⟩
    · rw [h.state_eq]
      omega
    · rw [h.supply_eq, h.state_eq]; exact hb.supply_le
    · rw [h.frame, h.state_eq]; exact hb.lp_supply_le
    · rw [h.state_eq]
      omega
  | addLiquidity h =>
    have hlam : ∀ k, k = .reserve ∨ k = .solLeg → w.lamportsOf k ≤ w'.lamportsOf k := fun k hk ↦ by
      have hlam := h.lamports_eq k
      rw [only_of_ne (ne_payer hk h.payer_unused)] at hlam
      omega
    refine ⟨?_, ?_, ?_, ?_⟩
    · rw [h.state_eq]; exact hb.reserve_le.trans (hlam _ (.inl rfl))
    · rw [h.frame, h.state_eq]; exact hb.supply_le
    · rw [h.lp_supply_eq, h.state_eq]
    · rw [h.state_eq]; exact hb.sol_leg_le.trans (hlam _ (.inr rfl))
  | notStaked h =>
    obtain ⟨_, hstate⟩ := h.state_eq
    refine hb.of_le (by rw [hstate]) (by rw [hstate]) (by rw [hstate]) (by rw [hstate])
      (fun k hk ↦ ?_) (by rw [h.frame]) (by rw [h.frame])
    have hlam := h.lamports_eq k
    rw [only_of_ne (ne_payer hk h.unused)] at hlam
    omega
  | notUnstaked h =>
    exact hb.of_le (by rw [h.state_eq]) (by rw [h.state_eq]) (by rw [h.state_eq])
      (by rw [h.state_eq])
      (fun k hk ↦ h.guarded_le k (Chain.guarded_of_not_canSign (reserve_or_solLeg hk).1))
      (by rw [h.frame]) (by rw [h.frame])
  | unstakedWhole h =>
    obtain ⟨_, _, _, hstate⟩ := h.state_eq
    exact hb.of_le (by rw [hstate]) (by rw [hstate]) (by rw [hstate]) (by rw [hstate])
      (fun k hk ↦ h.guarded_le k (Chain.guarded_of_not_canSign (reserve_or_solLeg hk).1))
      (by rw [h.frame]) (by rw [h.frame])
  | unstakedSplit h =>
    have hsrc := Option.ne_none_iff_exists'.mpr ⟨_, h.account_eq⟩
    obtain ⟨_, _, _, hstate⟩ := h.state_eq
    exact hb.of_le (by rw [hstate]) (by rw [hstate]) (by rw [hstate]) (by rw [hstate])
      (fun k hk ↦ le_of_lamports_eq (h.lamports_eq k) (ne_payer hk h.payer_unused)
        (ne_stake hk hs hsrc)) (by rw [h.frame]) (by rw [h.frame])
  | mergeStakes h =>
    have hdst := Option.ne_none_iff_exists'.mpr ⟨_, h.account_eq⟩
    have hsrc := Option.ne_none_iff_exists'.mpr ⟨_, h.source_eq⟩
    refine hb.of_le (by rw [h.state_eq]) (by rw [h.state_eq]) (by rw [h.state_eq])
      (by rw [h.state_eq]) (fun k hk ↦ ?_) (by rw [h.frame]) (by rw [h.frame])
    exact h.stake_le (ne_stake hk hs hdst) (ne_stake hk hs hsrc)
  | @createCanonicalStake accounts _ _ _ _ _ _ _ _ h =>
    have hsrc := Option.ne_none_iff_exists'.mpr ⟨_, h.account_eq⟩
    refine hb.of_le (by rw [h.state_eq]) (by rw [h.state_eq]) (by rw [h.state_eq])
      (by rw [h.state_eq]) (fun k hk ↦ ?_) (by rw [h.frame]) (by rw [h.frame])
    have hlam := h.lamports_eq k
    have hcanonical : k ≠ accounts.canonicalStake := fun heq ↦ by
      have hplace := (reserve_or_solLeg hk).2
      rw [heq, h.canonical] at hplace
      cases hplace
    rw [only_of_ne hcanonical, only_of_ne (ne_stake hk hs hsrc)] at hlam
    omega
  | addValidator h =>
    obtain ⟨_, hstate⟩ := h.state_eq
    refine hb.of_le (by rw [hstate]) (by rw [hstate]) (by rw [hstate]) (by rw [hstate])
      (fun k hk ↦ ?_) (by rw [h.frame]) (by rw [h.frame])
    have hlam := h.lamports_eq k
    rw [only_of_ne (ne_payer hk h.payer_unused)] at hlam
    omega
  | removeValidator h =>
    obtain ⟨_, hstate⟩ := h.state_eq
    refine hb.of_le (by rw [hstate]) (by rw [hstate]) (by rw [hstate]) (by rw [hstate])
      (fun k hk ↦ ?_) (by rw [h.frame]) (by rw [h.frame])
    have hlam := h.lamports_eq k
    rw [h.flag, only_of_ne] at hlam
    · omega
    · rcases hk with rfl | rfl <;> exact nofun
  | setValidatorScore h =>
    obtain ⟨_, hstate⟩ := h.state_eq
    exact hb.of_le (by rw [hstate]) (by rw [hstate]) (by rw [hstate]) (by rw [hstate])
      (fun k _ ↦ by rw [h.frame]) (by rw [h.frame]) (by rw [h.frame])
  | finalizeDelinquentUpgrade h hframe =>
    obtain ⟨-, _, _, _, _, _, -, -, hs⟩ := FinalizeDelinquentUpgrade.process_spec h
    have hstate : w'.state.availableReserveBalance = w.state.availableReserveBalance ∧
        w'.state.rentExemptForTokenAcc = w.state.rentExemptForTokenAcc ∧
        w'.state.msolSupply = w.state.msolSupply ∧
        w'.state.liqPool.lpSupply = w.state.liqPool.lpSupply := by
      rcases hs with ⟨-, -, hs⟩ | ⟨-, hs⟩ <;> rw [hs] <;> exact ⟨rfl, rfl, rfl, rfl⟩
    obtain ⟨havailable, hrent, hsupply, hlp⟩ := hstate
    exact hb.of_le havailable hrent hsupply hlp (fun k _ ↦ by rw [hframe]) (by rw [hframe])
      (by rw [hframe])
  | config _ books hframe =>
    exact hb.of_le books.available_eq books.rent_eq books.supply_eq books.lp_supply_eq
      (fun k _ ↦ by rw [hframe]) (by rw [hframe]) (by rw [hframe])
  | realloc _ _ _ hlist h =>
    refine hb.of_le h.books.available_eq h.books.rent_eq h.books.supply_eq h.books.lp_supply_eq
      (fun k hk ↦ (h.lamports_le k ?_ (ne_payer hk h.payer_unused)).ge) (by rw [h.frame])
      (by rw [h.frame])
    rcases hk with rfl | rfl <;> rcases hlist with rfl | rfl <;> decide

/-- External events only add to what is there, or burn tokens. -/
theorem External.pool_le (h : x.Happens rt w.toChain w'.toChain) (hs : w.StakesSound rt) :
    (∀ k, k.canSign = false → k.holdsStake = false → w.lamportsOf k ≤ w'.lamportsOf k) ∧
      w'.msol.supply ≤ w.msol.supply ∧ w'.lp.supply ≤ w.lp.supply := by
  cases x with
  | tick => obtain ⟨clock, -, -, hc⟩ := h; rw [hc]; exact ⟨fun _ _ _ ↦ le_rfl, le_rfl, le_rfl⟩
  | outside =>
    exact ⟨fun k hsign _ ↦ Outside.lamports_le h k (.inl hsign), Outside.msol_supply_le h,
      Outside.lp_supply_le h⟩
  | reward =>
    obtain ⟨_, _, -, -, -, hc⟩ := h
    rw [hc]
    refine ⟨fun k _ _ ↦ ?_, le_rfl, le_rfl⟩
    rw [Chain.lamportsOf, Chain.lamportsOf, mint_balance_eq]
    exact Nat.le_add_right _ _
  | slash =>
    obtain ⟨_, _, _, ha, -, -, hl, -, hc⟩ := h
    rw [hc]
    exact ⟨fun k _ hplace ↦ le_transfer_balance hl (hs.ne (by simp [ha]) hplace).symm, le_rfl,
      le_rfl⟩
  | deactivateDelinquent =>
    obtain ⟨_, _, -, -, -, hc⟩ := h
    rw [hc]
    exact ⟨fun _ _ _ ↦ le_rfl, le_rfl, le_rfl⟩

theorem External.bounds (h : x.Happens rt w.toChain w'.toChain) (hstate : w'.state = w.state)
    (hs : w.StakesSound rt) (hb : Bounds w) : Bounds w' := by
  obtain ⟨hlamports, hmsol, hlp⟩ := External.pool_le h hs
  refine hb.of_le (by rw [hstate]) (by rw [hstate]) (by rw [hstate]) (by rw [hstate])
    (fun k hk ↦ ?_) hmsol hlp
  obtain ⟨hsign, hplace⟩ := reserve_or_solLeg hk
  exact hlamports k hsign hplace

theorem Bounds.step (hb : Bounds w) (hw : WellFormed rt w) (hs : Step rt w l w') : Bounds w' := by
  cases l with
  | instruction i e => exact (executed_of_exec hs hw.stakes_sound).bounds hw hb
  | external x => exact External.bounds hs.1 hs.2 hw.stakes_sound hb

theorem Fresh.bounds (h : Fresh rt w) : Bounds w := by
  obtain ⟨accounts, data, c, -, hp⟩ := h
  have hs := Initialize.process_spec hp
  obtain ⟨-, -, -, havailable, hsupply, hlp, -⟩ := hs.books
  refine ⟨?_, ?_, ?_, ?_⟩
  · rw [havailable, hs.rent_eq, hs.chain_eq, hs.reserve_eq, Nat.zero_add]
  · rw [hsupply, hs.chain_eq, hs.supply_eq]
  · rw [hlp, hs.chain_eq, hs.lp_supply_eq]
  · rw [hs.rent_eq, hs.chain_eq, hs.sol_leg_eq]

/-- In every reachable state the virtual balances bound the real ones. -/
theorem bounds_of_reachable (h : (marinade rt).Reachable w) : Bounds w :=
  h.induct_of (Q := WellFormed rt) (fun _ ↦ wellFormed_of_reachable) (fun _ hi _ ↦ hi.bounds)
    fun _ _ _ hw _ hb hs ↦ hb.step hw hs

end

end Marinade
