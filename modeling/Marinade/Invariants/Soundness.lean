import Marinade.Execution

/-!
# The accounts stay sound

Facts about the accounts that hold in every phase of the program: stake accounts hold their rent and
their delegation, tickets are where somebody put them, the configuration is within its limits. Every
other invariant rests on them, because they say which addresses are different.

The lemmas in front say of each instruction that it takes no lamports from a stake account it does
not name.
-/

open Foundation Foundation.Ledger

namespace Marinade

section

variable {rt : Runtime} {c c' : Chain} {w w' : World} {k k' : Pubkey} {account : StakeAccount}
  {i : Instruction} {e : Event}

/-! ## Addresses that are different -/

/-- A stake account is not at an address for something else. -/
theorem Chain.StakesSound.ne (h : c.StakesSound rt) (hk : c.stakes k ≠ none)
    (hk' : k'.holdsStake = false) : k ≠ k' := by
  rintro rfl
  obtain ⟨account, ha⟩ := Option.ne_none_iff_exists'.mp hk
  rw [(h k account ha).place] at hk'
  cases hk'

/-- A sound account stays sound when it gets more lamports. -/
theorem StakeAccount.Sound.mono {l l' : ℕ} (h : account.Sound rt k l) (hle : l ≤ l') :
    account.Sound rt k l' :=
  { h with funded := fun d hd ↦ (h.funded d hd).trans hle }

/-! ## Stake accounts an instruction does not name -/

theorem Deposit.Spec.stake_le {accounts x e} (h : Deposit.Spec accounts x w w' e)
    (hk : w.stakes k ≠ none) : w.lamportsOf k ≤ w'.lamportsOf k := by
  have hle := h.lamports_eq k
  rw [only_of_ne (Chain.ne_of_isUnused hk h.payer_unused)] at hle
  omega

theorem AddLiquidity.Spec.stake_le {accounts x e} (h : AddLiquidity.Spec accounts x w w' e)
    (hk : w.stakes k ≠ none) : w.lamportsOf k ≤ w'.lamportsOf k := by
  have hle := h.lamports_eq k
  rw [only_of_ne (Chain.ne_of_isUnused hk h.payer_unused)] at hle
  omega

theorem LiquidUnstake.Spec.stake_le {accounts x e} (h : LiquidUnstake.Spec accounts x w w' e)
    (hs : w.StakesSound rt) (hk : w.stakes k ≠ none) : w.lamportsOf k ≤ w'.lamportsOf k := by
  have hle := h.lamports_eq k
  rw [only_of_ne (hs.ne hk rfl)] at hle
  omega

theorem RemoveLiquidity.Spec.stake_le {accounts x e}
    (h : RemoveLiquidity.Spec accounts x w w' e)
    (hs : w.StakesSound rt) (hk : w.stakes k ≠ none) : w.lamportsOf k ≤ w'.lamportsOf k := by
  have hle := h.lamports_eq k
  rw [only_of_ne (hs.ne hk rfl)] at hle
  omega

theorem AddValidator.Spec.stake_le {accounts score topUp}
    (h : AddValidator.Spec accounts score w w' topUp)
    (hk : w.stakes k ≠ none) : w.lamportsOf k ≤ w'.lamportsOf k := by
  have hle := h.lamports_eq k
  rw [only_of_ne (Chain.ne_of_isUnused hk h.payer_unused)] at hle
  omega

theorem RemoveValidator.Spec.stake_le {accounts i vote v}
    (h : RemoveValidator.Spec accounts i vote w w' v)
    (hs : w.StakesSound rt) (hk : w.stakes k ≠ none) : w.lamportsOf k ≤ w'.lamportsOf k := by
  have hle := h.lamports_eq k
  rw [h.flag, only_of_ne (hs.ne hk rfl)] at hle
  omega

theorem ReallocList.Spec.stake_le {accounts list} (h : ReallocList.Spec accounts list w w')
    (hlist : list = .stakeList ∨ list = .validatorList) (hs : w.StakesSound rt)
    (hk : w.stakes k ≠ none) : w.lamportsOf k ≤ w'.lamportsOf k := by
  refine (h.lamports_le k ?_ (Chain.ne_of_isUnused hk h.payer_unused)).ge
  rcases hlist with rfl | rfl
  · exact hs.ne hk rfl
  · exact hs.ne hk rfl

theorem StakeReserve.UnusedSpec.stake_le {accounts found}
    (h : StakeReserve.UnusedSpec accounts w w' found)
    (hk : w.stakes k ≠ none) : w.lamportsOf k ≤ w'.lamportsOf k := by
  have hle := h.lamports_eq k
  rw [only_of_ne (Chain.ne_of_isUnused hk h.unused)] at hle
  omega

theorem StakeReserve.Spec.stake_le {accounts j v x topUp}
    (h : StakeReserve.Spec rt accounts j w w' v x topUp)
    (hs : w.StakesSound rt) (hk : w.stakes k ≠ none) : w.lamportsOf k ≤ w'.lamportsOf k := by
  have hle := h.lamports_eq k
  rw [only_of_ne (Chain.ne_of_isUnused hk h.payer_unused), only_of_ne (hs.ne hk rfl)] at hle
  omega

theorem UnstakedSplit.stake_le {emergency stakeAccount dst payer i j account d r v x topUp}
    (h : UnstakedSplit rt emergency stakeAccount dst payer i j w w' account d r v x topUp)
    (hk : w.stakes k ≠ none) (hne : k ≠ stakeAccount) : w.lamportsOf k ≤ w'.lamportsOf k := by
  have hle := h.lamports_eq k
  rw [only_of_ne (Chain.ne_of_isUnused hk h.payer_unused), only_of_ne hne] at hle
  omega

theorem WithdrawStakeAccount.Spec.stake_le {accounts i j x beneficiary e account d r v topUp}
    (h : WithdrawStakeAccount.Spec rt accounts i j x beneficiary w w' e account d r v topUp)
    (hk : w.stakes k ≠ none) (hne : k ≠ accounts.stakeAccount) :
    w.lamportsOf k ≤ w'.lamportsOf k := by
  have hle := h.lamports_eq k
  rw [only_of_ne (Chain.ne_of_isUnused hk h.payer_unused), only_of_ne hne] at hle
  omega

theorem MergeStakes.Spec.stake_le {accounts i i' j account srcAccount d sd r sr v extra}
    (h : MergeStakes.Spec accounts i i' j w w' account srcAccount d sd r sr v extra)
    (hne : k ≠ accounts.destinationStake) (hne' : k ≠ accounts.sourceStake) :
    w.lamportsOf k ≤ w'.lamportsOf k := by
  have hle := h.lamports_eq k
  rw [only_of_ne hne, only_of_ne hne, only_of_ne hne'] at hle
  omega

theorem CreateCanonicalStake.Spec.stake_le {accounts i j account d r v swept}
    (h : CreateCanonicalStake.Spec rt accounts i j w w' account d r v swept)
    (hk : w.stakes k ≠ none) (hne : k ≠ accounts.sourceStake) :
    w.lamportsOf k ≤ w'.lamportsOf k := by
  have hle := h.lamports_eq k
  have hcanonical : k ≠ accounts.canonicalStake := by
    rintro rfl
    exact hk h.absent
  rw [only_of_ne hne, only_of_ne hcanonical] at hle
  omega

theorem UpdateActive.Spec.stake_le {accounts i j account d r v v' extra fee₁ fee₂}
    (h : UpdateActive.Spec accounts i j w w' account d r v v' extra fee₁ fee₂)
    (hne : k ≠ accounts.stakeAccount) : w.lamportsOf k ≤ w'.lamportsOf k := by
  have hle := h.lamports_eq k
  rw [only_of_ne hne] at hle
  omega

theorem UpdateDeactivated.Spec.stake_le
    {accounts i j account d r r' v s₁ s₂ fee delinquent}
    (h : UpdateDeactivated.Spec accounts i j w w' account d r r' v s₁ s₂ fee delinquent)
    (hs : w.StakesSound rt) (hk : w.stakes k ≠ none) (hne : k ≠ accounts.stakeAccount) :
    w.lamportsOf k ≤ w'.lamportsOf k := by
  have hle := h.lamports_eq k
  rw [only_of_ne hne, only_of_ne (hs.ne hk rfl), only_of_ne (hs.ne hk rfl)] at hle
  omega

/-! ## The invariant -/

/-- Facts about accounts and configuration that hold in every phase. -/
structure WellFormed (rt : Runtime) (w : World) : Prop where
  stakes_sound : w.StakesSound rt
  /-- A ticket is at an address of somebody else, and no stake account is there. -/
  ticket_place : ∀ k ticket, w.OwnTicket k ticket → k.canSign = true ∧ w.stakes k = none
  capital_le : w.lamports.total ≤ u64Max
  rent_eq : w.state.rentExemptForTokenAcc = rt.tokenAccountRent
  admissible : w.state.Admissible

theorem WellFormed.minStake_pos (h : WellFormed rt w) : 0 < w.state.stakeSystem.minStake :=
  lt_of_lt_of_le (by decide) h.admissible.min_stake

theorem Claim.Spec.stake_le {accounts e rent} (h : Claim.Spec accounts w w' e rent)
    (hw : WellFormed rt w) (hk : w.stakes k ≠ none) : w.lamportsOf k ≤ w'.lamportsOf k := by
  have hle := h.lamports_eq k
  obtain ⟨epoch, hticket⟩ := h.ticket
  have hne : k ≠ e.ticket := fun heq ↦ hk (heq ▸ (hw.ticket_place _ _ ⟨hticket, rfl⟩).2)
  rw [only_of_ne (hw.stakes_sound.ne hk rfl), ← h.ticket_eq, only_of_ne hne] at hle
  omega

private theorem forall_update {P : Pubkey → StakeAccount → Prop}
    {stakes : Pubkey → Option StakeAccount} {x : Pubkey} {o : Option StakeAccount}
    (hx : ∀ a, o = some a → P x a) (h : ∀ k, k ≠ x → ∀ a, stakes k = some a → P k a) :
    ∀ k a, Function.update stakes x o k = some a → P k a := by
  intro k a ha
  by_cases hk : k = x
  · subst hk
    rw [Function.update_self] at ha
    exact hx a ha
  · rw [Function.update_of_ne hk] at ha
    exact h k hk a ha

/-- Sound accounts that stay as they are and lose nothing stay sound. -/
theorem Chain.StakesSound.of_le (h : c.StakesSound rt) (hstakes : c'.stakes = c.stakes)
    (hle : ∀ k, c.stakes k ≠ none → c.lamportsOf k ≤ c'.lamportsOf k) : c'.StakesSound rt := by
  intro k a ha
  rw [hstakes] at ha
  exact (h k a ha).mono (hle k (by simp [ha]))

/-- One account changes, the others lose nothing. -/
theorem Chain.StakesSound.of_update {x : Pubkey} {o : Option StakeAccount}
    (h : c.StakesSound rt) (hstakes : c'.stakes = Function.update c.stakes x o)
    (hx : ∀ a, o = some a → a.Sound rt x (c'.lamportsOf x))
    (hle : ∀ k, c.stakes k ≠ none → k ≠ x → c.lamportsOf k ≤ c'.lamportsOf k) :
    c'.StakesSound rt := by
  unfold StakesSound
  rw [hstakes]
  exact forall_update hx fun k hk a ha ↦ (h k a ha).mono (hle k (by simp [ha]) hk)

/-- Two accounts change, the others lose nothing. -/
theorem Chain.StakesSound.of_update_update {x y : Pubkey} {o o' : Option StakeAccount}
    (h : c.StakesSound rt)
    (hstakes : c'.stakes = Function.update (Function.update c.stakes x o) y o')
    (hx : x ≠ y → ∀ a, o = some a → a.Sound rt x (c'.lamportsOf x))
    (hy : ∀ a, o' = some a → a.Sound rt y (c'.lamportsOf y))
    (hle : ∀ k, c.stakes k ≠ none → k ≠ x → k ≠ y → c.lamportsOf k ≤ c'.lamportsOf k) :
    c'.StakesSound rt := by
  unfold StakesSound
  rw [hstakes]
  refine forall_update hy fun k hk a ha ↦ ?_
  exact forall_update (P := fun k a ↦ k ≠ y → a.Sound rt k (c'.lamportsOf k))
    (fun a ha hne ↦ hx hne a ha)
    (fun k hk a ha hne ↦ (h k a ha).mono (hle k (by simp [ha]) hk hne)) k a ha hk

/-- A split keeps both accounts sound. -/
private theorem stakesSound_of_split {src dst payer : Pubkey} {account : StakeAccount}
    {d : Delegation} {sm : StakeMeta} {d' : Delegation} {x topUp : ℕ} (h : w.StakesSound rt)
    (hunused : w.isUnused dst = true) (hpayer : w.isUnused payer = true)
    (ha : w.stakes src = some account) (hd : account.delegation = some d) (hx : x ≤ d.stake)
    (hcov : rt.stakeRent + x ≤ w'.lamportsOf dst)
    (hsm : sm.rentExemptReserve = rt.stakeRent) (hd' : d'.stake = x)
    (hl : ∀ k, w'.lamportsOf k + only payer topUp k + only src x k
      = w.lamportsOf k + only dst (topUp + x) k)
    (hle : ∀ k, w.stakes k ≠ none → k ≠ src → w.lamportsOf k ≤ w'.lamportsOf k)
    (hstakes : w'.stakes = Function.update (Function.update w.stakes src (some { account with
      delegation := some { d with stake := d.stake - x } })) dst (some ⟨sm, some d'⟩)) :
    w'.StakesSound rt := by
  have hsrc : w.stakes src ≠ none := by simp [ha]
  have hne : src ≠ dst := Chain.ne_of_isUnused hsrc hunused
  have hsp : src ≠ payer := Chain.ne_of_isUnused hsrc hpayer
  have hs := h src account ha
  refine h.of_update_update hstakes (fun _ a h' ↦ ?_) (fun a h' ↦ ?_)
    fun k hk hk' _ ↦ hle k hk hk'
  · cases h'
    refine { hs with funded := fun d'' h'' ↦ ?_ }
    cases h''
    have hk := hl src
    rw [only_of_ne hsp, only_self, only_of_ne hne] at hk
    have := hs.funded d hd
    simp only
    omega
  · cases h'
    refine ⟨Pubkey.holdsStake_of_canSign (Chain.canSign_of_isUnused hunused), hsm,
      fun d'' h'' ↦ ?_⟩
    cases h''
    omega

theorem NotUnstaked.stakesSound {signers} (h : NotUnstaked signers w w')
    (hs : w.StakesSound rt) : w'.StakesSound rt :=
  hs.of_le (by rw [h.frame]) fun k hk ↦ h.guarded_le k (Chain.guarded_of_stakes hk)

theorem UnstakedWhole.stakesSound {signers emergency stakeAccount i j account d r v}
    (h : UnstakedWhole signers emergency stakeAccount i j w w' account d r v)
    (hs : w.StakesSound rt) : w'.StakesSound rt := by
  refine hs.of_update h.stakes_eq (fun a ha ↦ ?_)
    fun k hk _ ↦ h.guarded_le k (Chain.guarded_of_stakes hk)
  cases ha
  have hold := hs _ _ h.account_eq
  have hle := h.guarded_le _
    (Chain.guarded_of_stakes (Option.ne_none_iff_exists'.mpr ⟨_, h.account_eq⟩))
  refine ⟨hold.place, hold.rent_eq, fun d hd ↦ ?_⟩
  cases hd
  exact (hold.funded _ h.delegation_eq).trans hle

theorem UnstakedSplit.stakesSound {emergency stakeAccount dst payer i j account d r v x topUp}
    (h : UnstakedSplit rt emergency stakeAccount dst payer i j w w' account d r v x topUp)
    (hs : w.StakesSound rt) : w'.StakesSound rt := by
  have hlt := h.split_lt
  have hupdated := h.updated
  exact stakesSound_of_split hs h.split_unused h.payer_unused h.account_eq h.delegation_eq
    (by omega) h.rent_covered rfl rfl h.lamports_eq (fun k hk hne ↦ h.stake_le hk hne) h.stakes_eq

/-- Every instruction keeps the stake accounts sound. -/
theorem Executed.stakesSound (h : Executed rt w w' i e) (hw : WellFormed rt w) :
    w'.StakesSound rt := by
  have hs := hw.stakes_sound
  cases h with
  | deposit h => exact hs.of_le (by rw [h.frame]) fun k hk ↦ h.stake_le hk
  | orderUnstake h => exact hs.of_le (by rw [h.frame]) fun k _ ↦ by rw [h.frame]
  | claim h => exact hs.of_le (by rw [h.frame]) fun k hk ↦ h.stake_le hw hk
  | liquidUnstake h => exact hs.of_le (by rw [h.frame]) fun k hk ↦ h.stake_le hs hk
  | addLiquidity h => exact hs.of_le (by rw [h.frame]) fun k hk ↦ h.stake_le hk
  | removeLiquidity h => exact hs.of_le (by rw [h.frame]) fun k hk ↦ h.stake_le hs hk
  | notStaked h => exact hs.of_le (by rw [h.frame]) fun k hk ↦ h.stake_le hk
  | notUnstaked h => exact h.stakesSound hs
  | addValidator h => exact hs.of_le (by rw [h.frame]) fun k hk ↦ h.stake_le hk
  | removeValidator h => exact hs.of_le (by rw [h.frame]) fun k hk ↦ h.stake_le hs hk
  | setValidatorScore h => exact hs.of_le (by rw [h.frame]) fun k _ ↦ by rw [h.frame]
  | config _ _ hframe => exact hs.of_le (by rw [hframe]) fun k _ ↦ by rw [hframe]
  | finalizeDelinquentUpgrade _ hframe =>
    exact hs.of_le (by rw [hframe]) fun k _ ↦ by rw [hframe]
  | realloc _ _ _ hlist h => exact hs.of_le (by rw [h.frame]) fun k hk ↦ h.stake_le hlist hs hk
  | depositStakeAccount h =>
    obtain ⟨lockup, -, hstakes⟩ := h.stakes_eq
    refine hs.of_update hstakes (fun a ha ↦ ?_) fun k _ _ ↦ by rw [h.frame]
    cases ha
    have hold := hs _ _ h.account_eq
    refine ⟨hold.place, hold.rent_eq, fun d hd ↦ ?_⟩
    cases hd
    rw [h.frame]
    exact hold.funded _ h.delegation_eq
  | withdrawStakeAccount h =>
    have hrem := h.remainder
    have hupdated := h.updated
    exact stakesSound_of_split hs h.split_unused h.payer_unused h.account_eq h.delegation_eq
      (by omega) h.rent_covered rfl rfl h.lamports_eq (fun k hk hne ↦ h.stake_le hk hne) h.stakes_eq
  | unstakedSplit h => exact h.stakesSound hs
  | stakeReserve h =>
    refine hs.of_update h.stakes_eq (fun a ha ↦ ?_) fun k hk _ ↦ h.stake_le hs hk
    cases ha
    have hcov := h.rent_covered
    refine ⟨Pubkey.holdsStake_of_canSign (Chain.canSign_of_isUnused h.unused), rfl, fun d hd ↦ ?_⟩
    cases hd
    simp only
    omega
  | unstakedWhole h => exact h.stakesSound hs
  | @mergeStakes accounts _ _ _ _ _ _ _ _ _ _ _ h =>
    refine hs.of_update_update h.stakes_eq (fun _ _ ha ↦ by cases ha) (fun a ha ↦ ?_)
      fun k _ hk hk' ↦ h.stake_le hk' hk
    cases ha
    have hold := hs _ _ h.account_eq
    have hfunded := hold.funded _ h.delegation_eq
    have hle := h.lamports_eq accounts.destinationStake
    have hextra := h.extra_le
    rw [only_of_ne h.ne, only_self, only_self, h.source_lamports] at hle
    refine ⟨hold.place, hold.rent_eq, fun d hd ↦ ?_⟩
    cases hd
    simp only
    omega
  | @createCanonicalStake accounts _ _ _ _ _ _ _ _ h =>
    refine hs.of_update_update h.stakes_eq (fun _ _ ha ↦ by cases ha) (fun a ha ↦ ?_)
      fun k hk hk' _ ↦ h.stake_le hk hk'
    cases ha
    have hold := hs _ _ h.account_eq
    have hle := h.lamports_eq accounts.canonicalStake
    have hswept := h.swept_eq
    have hne : accounts.canonicalStake ≠ accounts.sourceStake := by
      intro heq
      have habsent := h.absent
      rw [heq, h.account_eq] at habsent
      cases habsent
    rw [only_self, only_of_ne hne, only_self] at hle
    refine ⟨by rw [h.canonical]; rfl, rfl, fun d hd ↦ ?_⟩
    cases hd
    have hrent := hold.rent_eq
    omega
  | @updateActive accounts _ _ account _ _ _ _ _ _ _ _ h =>
    refine hs.of_update (o := some account) ?_ (fun a ha ↦ ?_) fun k _ hk ↦ h.stake_le hk
    · rw [h.frame]
      exact (Function.update_eq_self_iff.mpr h.account_eq.symm).symm
    · cases ha
      have hold := hs _ _ h.account_eq
      have hle := h.lamports_eq accounts.stakeAccount
      have hextra := h.extra_eq
      have hfunded := hold.funded _ h.delegation_eq
      have hne : accounts.stakeAccount ≠ .reserve :=
        hs.ne (Option.ne_none_iff_exists'.mpr ⟨_, h.account_eq⟩) rfl
      rw [only_self, only_of_ne hne, hextra, hold.rent_eq] at hle
      refine { hold with funded := fun d hd ↦ ?_ }
      obtain rfl := Option.some.inj (h.delegation_eq.symm.trans hd)
      omega
  | updateDeactivated h =>
    exact hs.of_update h.stakes_eq (fun a ha ↦ by cases ha) fun k hk hk' ↦ h.stake_le hs hk hk'

private theorem ne_none_of_update {stakes : Pubkey → Option StakeAccount} {x : Pubkey}
    {o : Option StakeAccount} (h : Function.update stakes x o k ≠ none) :
    k = x ∨ stakes k ≠ none := by
  by_cases hk : k = x
  · exact .inl hk
  · exact .inr (by rwa [Function.update_of_ne hk] at h)

/-- The same for two accounts, of which one was there before. -/
private theorem ne_none_of_update_update {stakes : Pubkey → Option StakeAccount} {src dst : Pubkey}
    {o o' : Option StakeAccount}
    (h : Function.update (Function.update stakes src o) dst o' k ≠ none)
    (hsrc : stakes src ≠ none) : k = dst ∨ stakes k ≠ none := by
  rcases ne_none_of_update h with hk | h
  · exact .inl hk
  · rcases ne_none_of_update h with rfl | h
    · exact .inr hsrc
    · exact .inr h

/-- A stake account that is new is at an unused address or at a derived one. -/
theorem Executed.new_stake (h : Executed rt w w' i e) (hk : w'.stakes k ≠ none) :
    w.stakes k ≠ none ∨ w.isUnused k = true ∨ k.canSign = false := by
  cases h with
  | depositStakeAccount h =>
    obtain ⟨lockup, -, hstakes⟩ := h.stakes_eq
    rw [hstakes] at hk
    rcases ne_none_of_update hk with rfl | hk
    · exact .inl (Option.ne_none_iff_exists'.mpr ⟨_, h.account_eq⟩)
    · exact .inl hk
  | withdrawStakeAccount h =>
    rw [h.stakes_eq] at hk
    have hold := Option.ne_none_iff_exists'.mpr ⟨_, h.account_eq⟩
    rcases ne_none_of_update_update hk hold with rfl | hk
    · exact .inr (.inl h.split_unused)
    · exact .inl hk
  | unstakedSplit h =>
    rw [h.stakes_eq] at hk
    have hold := Option.ne_none_iff_exists'.mpr ⟨_, h.account_eq⟩
    rcases ne_none_of_update_update hk hold with rfl | hk
    · exact .inr (.inl h.split_unused)
    · exact .inl hk
  | stakeReserve h =>
    rw [h.stakes_eq] at hk
    rcases ne_none_of_update hk with rfl | hk
    · exact .inr (.inl h.unused)
    · exact .inl hk
  | unstakedWhole h =>
    rw [h.stakes_eq] at hk
    rcases ne_none_of_update hk with rfl | hk
    · exact .inl (Option.ne_none_iff_exists'.mpr ⟨_, h.account_eq⟩)
    · exact .inl hk
  | mergeStakes h =>
    rw [h.stakes_eq] at hk
    have hold := Option.ne_none_iff_exists'.mpr ⟨_, h.source_eq⟩
    rcases ne_none_of_update_update hk hold with rfl | hk
    · exact .inl (Option.ne_none_iff_exists'.mpr ⟨_, h.account_eq⟩)
    · exact .inl hk
  | createCanonicalStake h =>
    rw [h.stakes_eq] at hk
    have hold := Option.ne_none_iff_exists'.mpr ⟨_, h.account_eq⟩
    rcases ne_none_of_update_update hk hold with rfl | hk
    · exact .inr (.inr (by rw [h.canonical]; rfl))
    · exact .inl hk
  | updateDeactivated h =>
    rw [h.stakes_eq] at hk
    rcases ne_none_of_update hk with rfl | hk
    · exact .inl (Option.ne_none_iff_exists'.mpr ⟨_, h.account_eq⟩)
    · exact .inl hk
  | config _ _ hframe => exact .inl (by rwa [hframe] at hk)
  | finalizeDelinquentUpgrade _ hframe => exact .inl (by rwa [hframe] at hk)
  | realloc _ _ _ _ h => exact .inl (by rwa [h.frame] at hk)
  | _ h => exact .inl (by rwa [h.frame] at hk)

/-- Only an order creates a ticket, at an unused address, and it leaves the stake accounts alone. -/
theorem Executed.new_ticket {ticket : TicketAccountData} (h : Executed rt w w' i e)
    (hk : w'.OwnTicket k ticket) :
    w.OwnTicket k ticket ∨ (w.isUnused k = true ∧ w'.stakes = w.stakes) := by
  unfold Chain.OwnTicket at hk
  cases h with
  | @orderUnstake accounts _ e h =>
    rw [h.tickets_eq] at hk
    by_cases heq : k = accounts.newTicketAccount
    · exact .inr ⟨by rw [heq]; exact h.unused, by rw [h.frame]⟩
    · rw [h.ticket_eq, AList.lookup_insert_ne heq] at hk
      exact .inl hk
  | @claim _ e _ h =>
    rw [h.tickets_eq] at hk
    by_cases heq : k = e.ticket
    · rw [heq, AList.lookup_erase] at hk
      cases hk.1
    · rw [AList.lookup_erase_ne heq] at hk
      exact .inl hk
  | config _ _ hframe => exact .inl (by rwa [hframe] at hk)
  | finalizeDelinquentUpgrade _ hframe => exact .inl (by rwa [hframe] at hk)
  | realloc _ _ _ _ h => exact .inl (by rwa [h.frame] at hk)
  | _ h => exact .inl (by rwa [h.frame] at hk)

/-- No instruction creates lamports. -/
theorem Executed.capital_eq (h : Executed rt w w' i e) : w'.lamports.total = w.lamports.total := by
  cases h with
  | orderUnstake h => rw [h.frame]
  | depositStakeAccount h => rw [h.frame]
  | setValidatorScore h => rw [h.frame]
  | config _ _ hframe => rw [hframe]
  | finalizeDelinquentUpgrade _ hframe => rw [hframe]
  | realloc _ _ _ _ h => exact h.capital_eq
  | _ h => exact h.capital_eq

/-- No instruction changes the rent the state remembers. -/
theorem Executed.rent_eq (h : Executed rt w w' i e) :
    w'.state.rentExemptForTokenAcc = w.state.rentExemptForTokenAcc := by
  cases h with
  | config _ books => exact books.rent_eq
  | realloc _ _ _ _ h => exact h.books.rent_eq
  | finalizeDelinquentUpgrade h =>
    obtain ⟨-, _, _, _, _, _, -, -, ⟨-, -, hs⟩ | ⟨-, hs⟩⟩ :=
      FinalizeDelinquentUpgrade.process_spec h
    · rw [hs]
    · rw [hs]
  | notStaked h => obtain ⟨_, hs⟩ := h.state_eq; rw [hs]
  | stakeReserve h => obtain ⟨_, hs⟩ := h.state_eq; rw [hs]
  | unstakedWhole h => obtain ⟨_, _, _, hs⟩ := h.state_eq; rw [hs]
  | unstakedSplit h => obtain ⟨_, _, _, hs⟩ := h.state_eq; rw [hs]
  | addValidator h => obtain ⟨_, hs⟩ := h.state_eq; rw [hs]
  | removeValidator h => obtain ⟨_, hs⟩ := h.state_eq; rw [hs]
  | setValidatorScore h => obtain ⟨_, hs⟩ := h.state_eq; rw [hs]
  | updateActive h => obtain ⟨_, hs⟩ := h.state_eq; rw [hs]; rfl
  | updateDeactivated h =>
    obtain ⟨_, hs⟩ := h.state_eq
    rw [hs, h.booked_out.state_eq, h.detected.state_eq]
    rfl
  | _ h => rw [h.state_eq]

/-- Every instruction keeps the configuration within its limits. -/
theorem Executed.admissible (h : Executed rt w w' i e) (ha : w.state.Admissible) :
    w'.state.Admissible := by
  cases h with
  | config _ books => exact books.admissible ha
  | realloc _ _ _ _ h => exact h.books.admissible ha
  | finalizeDelinquentUpgrade h =>
    obtain ⟨-, _, _, _, _, _, -, -, ⟨-, -, hs⟩ | ⟨-, hs⟩⟩ :=
      FinalizeDelinquentUpgrade.process_spec h
    · rw [hs]; exact { ha with }
    · rw [hs]; exact { ha with }
  | notUnstaked h => rw [h.state_eq]; exact ha
  | liquidUnstake h => rw [h.state_eq]; exact ha
  | addLiquidity h => rw [h.state_eq]; exact { ha with liq_pool := { ha.liq_pool with } }
  | removeLiquidity h => rw [h.state_eq]; exact { ha with liq_pool := { ha.liq_pool with } }
  | notStaked h => obtain ⟨_, hs⟩ := h.state_eq; rw [hs]; exact { ha with }
  | stakeReserve h => obtain ⟨_, hs⟩ := h.state_eq; rw [hs]; exact { ha with }
  | unstakedWhole h => obtain ⟨_, _, _, hs⟩ := h.state_eq; rw [hs]; exact { ha with }
  | unstakedSplit h => obtain ⟨_, _, _, hs⟩ := h.state_eq; rw [hs]; exact { ha with }
  | addValidator h => obtain ⟨_, hs⟩ := h.state_eq; rw [hs]; exact { ha with }
  | removeValidator h => obtain ⟨_, hs⟩ := h.state_eq; rw [hs]; exact { ha with }
  | setValidatorScore h => obtain ⟨_, hs⟩ := h.state_eq; rw [hs]; exact { ha with }
  | updateActive h => obtain ⟨_, hs⟩ := h.state_eq; rw [hs]; exact { ha with }
  | updateDeactivated h =>
    obtain ⟨_, hs⟩ := h.state_eq
    rw [hs, h.booked_out.state_eq, h.detected.state_eq]
    exact { ha with }
  | _ h => rw [h.state_eq]; exact { ha with }

/-! ## Every step -/

/-- A ticket stays at an address of somebody else where no stake account is. -/
private theorem Executed.ticket_place (h : Executed rt w w' i e) (hw : WellFormed rt w)
    {ticket : TicketAccountData} (hk : w'.OwnTicket k ticket) :
    k.canSign = true ∧ w'.stakes k = none := by
  rcases h.new_ticket hk with hold | ⟨hunused, hstakes⟩
  · obtain ⟨hsign, hnone⟩ := hw.ticket_place k ticket hold
    refine ⟨hsign, by_contra fun hne ↦ ?_⟩
    rcases h.new_stake hne with h | h | h
    · exact h hnone
    · -- an account with a ticket is in use
      have hlookup := (Bool.and_eq_true_iff.mp h).2
      simp only [Chain.isSystemAccount, decide_eq_true_eq] at hlookup
      rw [hold.1] at hlookup
      exact absurd hlookup.2.2.2.2.2.2 (by simp)
    · rw [h] at hsign
      cases hsign
  · rw [hstakes]
    exact ⟨Chain.canSign_of_isUnused hunused, Chain.stakes_eq_none_of_isUnused hunused⟩

theorem Executed.wellFormed (h : Executed rt w w' i e) (hw : WellFormed rt w) :
    WellFormed rt w' where
  stakes_sound := h.stakesSound hw
  ticket_place := fun _ _ ↦ h.ticket_place hw
  capital_le := h.capital_eq.le.trans hw.capital_le
  rent_eq := h.rent_eq.trans hw.rent_eq
  admissible := h.admissible hw.admissible

/-- What the network does to a delegation keeps the account sound as long as it is funded. -/
private theorem Chain.StakesSound.of_delegation {b : Delegation} (h : c.StakesSound rt)
    (ha : c.stakes k = some account) (hstakes : c'.stakes = Function.update c.stakes k
      (some { account with delegation := some b }))
    (hfunded : b.stake + rt.stakeRent ≤ c'.lamportsOf k)
    (hle : ∀ j, j ≠ k → c.lamportsOf j ≤ c'.lamportsOf j) : c'.StakesSound rt := by
  refine h.of_update hstakes (fun a h' ↦ ?_) fun j _ hj ↦ hle j hj
  cases h'
  refine { h k account ha with funded := fun d'' h'' ↦ ?_ }
  cases h''
  exact hfunded

theorem External.stakesSound {x : External} (h : x.Happens rt c c')
    (hs : c.StakesSound rt) : c'.StakesSound rt := by
  cases x with
  | tick =>
    obtain ⟨clock, -, -, rfl⟩ := h
    exact hs
  | outside => exact h.stakes_sound
  | reward k x =>
    obtain ⟨account, d, ha, hd, -, rfl⟩ := h
    refine hs.of_delegation ha rfl ?_ fun j _ ↦ ?_
    · have := (hs k account ha).funded d hd
      have hk : (c.lamports.mint k x).balance k = c.lamportsOf k + only k x k := mint_balance_eq k
      rw [only_self] at hk
      simp only [Chain.lamportsOf] at *
      omega
    · rw [Chain.lamportsOf, Chain.lamportsOf, mint_balance_eq]
      omega
  | slash k x stakeLeft =>
    obtain ⟨account, d, l, ha, hd, -, hl, hfunded, rfl⟩ := h
    refine hs.of_delegation (b := { d with stake := stakeLeft }) ha rfl ?_ fun j hj ↦ ?_
    · rw [← (hs k account ha).rent_eq]
      exact hfunded
    · exact le_transfer_balance hl hj
  | deactivateDelinquent k =>
    obtain ⟨account, d, ha, hd, -, rfl⟩ := h
    exact hs.of_delegation (b := { d with deactivationEpoch := c.clock.epoch }) ha rfl
      ((hs k account ha).funded d hd) fun j _ ↦ le_rfl

private theorem stakes_none_of_update {o : Option StakeAccount} (hk' : c.stakes k' ≠ none)
    (h : c.stakes k = none) : Function.update c.stakes k' o k = none := by
  have hne : k ≠ k' := by
    rintro rfl
    exact hk' h
  rw [Function.update_of_ne hne, h]

/-- External events leave the tickets of the pool alone. -/
theorem External.ownTicket_iff {x : External} (h : x.Happens rt c c') {k : Pubkey}
    {t : TicketAccountData} : c'.OwnTicket k t ↔ c.OwnTicket k t := by
  cases x with
  | tick => obtain ⟨clock, -, -, rfl⟩ := h; exact Iff.rfl
  | outside => exact h.tickets_iff k t
  | reward => obtain ⟨_, _, -, -, -, rfl⟩ := h; exact Iff.rfl
  | slash => obtain ⟨_, _, _, -, -, -, -, -, rfl⟩ := h; exact Iff.rfl
  | deactivateDelinquent => obtain ⟨_, _, -, -, -, rfl⟩ := h; exact Iff.rfl

private theorem External.ticket_stakes {x : External} (h : x.Happens rt c c') {k : Pubkey}
    {ticket : TicketAccountData} (hk : c.OwnTicket k ticket) (hnone : c.stakes k = none) :
    c'.stakes k = none := by
  cases x with
  | tick => obtain ⟨clock, -, -, rfl⟩ := h; exact hnone
  | outside => exact h.tickets_owner k ticket hk
  | reward =>
    obtain ⟨_, _, ha, -, -, rfl⟩ := h
    exact stakes_none_of_update (by simp [ha]) hnone
  | slash =>
    obtain ⟨_, _, _, ha, -, -, -, -, rfl⟩ := h
    exact stakes_none_of_update (by simp [ha]) hnone
  | deactivateDelinquent =>
    obtain ⟨_, _, ha, -, -, rfl⟩ := h
    exact stakes_none_of_update (by simp [ha]) hnone

/-- External events never make lamports out of range. -/
theorem External.capital_le {x : External} (h : x.Happens rt c c')
    (hc : c.lamports.total ≤ u64Max) : c'.lamports.total ≤ u64Max := by
  cases x with
  | tick => obtain ⟨clock, -, -, rfl⟩ := h; exact hc
  | outside => exact h.capital_le
  | reward => obtain ⟨_, _, -, -, hle, rfl⟩ := h; exact hle
  | slash => obtain ⟨_, _, _, -, -, -, hl, -, rfl⟩ := h; exact (transfer_total hl).le.trans hc
  | deactivateDelinquent => obtain ⟨_, _, -, -, -, rfl⟩ := h; exact hc

/-- Every step keeps the accounts sound. -/
theorem WellFormed.step {l : Label} (hw : WellFormed rt w) (h : Step rt w l w') :
    WellFormed rt w' := by
  cases l with
  | instruction i e => exact (executed_of_exec h hw.stakes_sound).wellFormed hw
  | external x =>
    obtain ⟨hx, hstate⟩ := h
    refine ⟨External.stakesSound hx hw.stakes_sound, fun k ticket hk ↦ ?_,
      External.capital_le hx hw.capital_le, ?_, ?_⟩
    · have hold := (External.ownTicket_iff hx).mp hk
      obtain ⟨hsign, hnone⟩ := hw.ticket_place k ticket hold
      exact ⟨hsign, External.ticket_stakes hx hold hnone⟩
    · rw [hstate]; exact hw.rent_eq
    · rw [hstate]; exact hw.admissible

/-- No epoch comes back. -/
theorem Step.epoch_le {l : Label} (hs : Step rt w l w') (hw : WellFormed rt w) :
    w.clock.epoch ≤ w'.clock.epoch := by
  cases l with
  | instruction i e => rw [(executed_of_exec hs hw.stakes_sound).clock_eq]
  | external x =>
    obtain ⟨hx, -⟩ := hs
    cases x with
    | tick =>
      obtain ⟨clock, -, hepoch, hc⟩ := hx
      rw [hc]
      exact hepoch
    | outside => rw [Outside.clock_eq hx]
    | reward => obtain ⟨_, _, -, -, -, hc⟩ := hx; rw [hc]
    | slash => obtain ⟨_, _, _, -, -, -, -, -, hc⟩ := hx; rw [hc]
    | deactivateDelinquent => obtain ⟨_, _, -, -, -, hc⟩ := hx; rw [hc]

theorem Fresh.wellFormed (h : Fresh rt w) : WellFormed rt w := by
  obtain ⟨accounts, data, c, hc, hp⟩ := h
  have hs := Initialize.process_spec hp
  rw [← hs.chain_eq] at hc
  exact ⟨hc.stakes_sound, fun k ticket hk ↦ absurd hk (hc.no_tickets k ticket), hc.capital_le,
    hs.rent_eq, hs.admissible⟩

/-- In every reachable state the accounts are sound. -/
theorem wellFormed_of_reachable (h : (marinade rt).Reachable w) : WellFormed rt w :=
  h.induct (fun _ hi ↦ hi.wellFormed) fun _ _ _ _ hw hs ↦ hw.step hs

end

end Marinade
