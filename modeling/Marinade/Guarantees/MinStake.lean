import Marinade.Invariants.Soundness
import Marinade.Replay

/-!
# The minimal stake

Every stake account the program makes is to hold at least `min_stake`, and so is what it leaves of
an account it splits. Five instructions make or take in stake accounts, and each has its own checks
for that, but one: `deactivate_stake` makes sure that enough is left, not that enough is split off.
-/

open Foundation Foundation.Ledger

namespace Marinade

/-- The instructions after which there may be a new account in the list, or less in an old one. -/
def Instruction.formsStake : Instruction → Bool
  | .stakeReserve .. => true
  | .depositStakeAccount .. => true
  | .deactivateStake .. => true
  | .partialUnstake .. => true
  | .withdrawStakeAccount .. => true
  | _ => false

/-- At least `x` is delegated from the account. -/
def Chain.Delegates (c : Chain) (k : Pubkey) (x : ℕ) : Prop :=
  ∃ account d, c.stakes k = some account ∧ account.delegation = some d ∧ x ≤ d.stake

/-- A step leaves at least the minimal stake in every account that is new, in every account that is
new in the list, and in every account that has less than before and stays active. -/
structure KeepsMinStake (w w' : World) : Prop where
  created : ∀ k, w.stakes k = none → w'.stakes k ≠ none →
    w'.Delegates k w.state.stakeSystem.minStake
  listed : ∀ r ∈ w'.state.stakeSystem.records,
    (∀ r₀ ∈ w.state.stakeSystem.records, r₀.stakeAccount ≠ r.stakeAccount) →
      w'.Delegates r.stakeAccount w.state.stakeSystem.minStake
  split : ∀ k account account' d d', w.stakes k = some account → account.delegation = some d →
    w'.stakes k = some account' → account'.delegation = some d' → d'.stake < d.stake →
    d'.deactivationEpoch = epochMax → w'.Delegates k w.state.stakeSystem.minStake

/-- Where `deactivate_stake` splits an account, neither the stake delta nor what its validator has
beyond the target is below the minimal stake. -/
def World.SplitsEnough (w : World) : Instruction → Prop
  | .deactivateStake _ i j => ∀ r v share,
    w.state.stakeSystem.records[i]? = some r → w.state.validatorSystem.records[j]? = some v →
    w.state.validatorSystem.validatorStakeTarget v
      (w.state.validatorSystem.totalActiveBalance - DeactivateStake.totalUnstakeDelta w)
      = .ok share →
    share < v.activeBalance →
    2 * w.state.stakeSystem.minStake
      ≤ r.lastUpdateDelegatedLamports - DeactivateStake.unstakeAmount w v share →
    v.lastStakeDeltaEpoch ≠ w.clock.epoch →
      w.state.stakeSystem.minStake ≤ DeactivateStake.unstakeAmount w v share
  | _ => True

section

variable {rt : Runtime} {w w' : World} {i : Instruction} {e : Event} {k k' src dst : Pubkey}
  {account account' : StakeAccount} {d d' : Delegation} {r : StakeRecord} {v : ValidatorRecord}
  {x topUp : ℕ} {o : Option StakeAccount}

/-! ## Accounts -/

/-- The account is not new, and has no less than before unless it was deactivated. -/
def World.Undiminished (w w' : World) (k : Pubkey) : Prop :=
  (w.stakes k = none → w'.stakes k = none) ∧
    ∀ account account' d d', w.stakes k = some account → account.delegation = some d →
      w'.stakes k = some account' → account'.delegation = some d' →
      d'.deactivationEpoch = epochMax → d.stake ≤ d'.stake

theorem undiminished_of_eq (h : w'.stakes k = w.stakes k) : w.Undiminished w' k := by
  refine ⟨fun hnone ↦ h.trans hnone, fun account account' d d' ha hd ha' hd' _ ↦ ?_⟩
  rw [h, ha, Option.some.injEq] at ha'
  subst ha'
  rw [hd, Option.some.injEq] at hd'
  subst hd'
  exact le_rfl

theorem delegates_of_update {stakes : Pubkey → Option StakeAccount}
    (h : w'.stakes = Function.update stakes k (some account)) (hd : account.delegation = some d)
    (hx : x ≤ d.stake) : w'.Delegates k x :=
  ⟨account, d, by rw [h, Function.update_self], hd, hx⟩

theorem delegates_of_update_update {stakes : Pubkey → Option StakeAccount}
    (h : w'.stakes = Function.update (Function.update stakes src (some account)) dst o)
    (hne : src ≠ dst) (hd : account.delegation = some d) (hx : x ≤ d.stake) :
    w'.Delegates src x :=
  ⟨account, d, by rw [h, Function.update_of_ne hne, Function.update_self], hd, hx⟩

theorem not_delegates_of_lt {c : Chain} {y : ℕ}
    (h : ((c.stakes k).bind (·.delegation)).map (·.stake) = some y) (hy : y < x) :
    ¬c.Delegates k x := by
  rintro ⟨account, d, ha, hd, hle⟩
  rw [ha, Option.bind_some, hd, Option.map_some, Option.some.injEq] at h
  omega

theorem KeepsMinStake.of_accounts
    (haccounts : ∀ k, w'.Delegates k w.state.stakeSystem.minStake ∨ w.Undiminished w' k)
    (hlisted : ∀ r ∈ w'.state.stakeSystem.records,
      w'.Delegates r.stakeAccount w.state.stakeSystem.minStake ∨
        ∃ r₀ ∈ w.state.stakeSystem.records, r₀.stakeAccount = r.stakeAccount) :
    KeepsMinStake w w' where
  created k hnone hsome := by
    rcases haccounts k with h | h
    · exact h
    · exact absurd (h.1 hnone) hsome
  listed r hr hnew := by
    rcases hlisted r hr with h | ⟨r₀, hr₀, hkey⟩
    · exact h
    · exact absurd hkey (hnew r₀ hr₀)
  split k account account' d d' ha hd ha' hd' hless hactive := by
    rcases haccounts k with h | h
    · exact h
    · exact absurd (h.2 account account' d d' ha hd ha' hd' hactive) (Nat.not_le.mpr hless)

/-- Nothing changes about any stake account. -/
theorem KeepsMinStake.of_eq (hstakes : w'.stakes = w.stakes)
    (hrecords : w'.state.stakeSystem.records = w.state.stakeSystem.records) :
    KeepsMinStake w w' := by
  refine .of_accounts (fun k ↦ .inr (undiminished_of_eq (by rw [hstakes]))) fun r hr ↦ .inr ?_
  rw [hrecords] at hr
  exact ⟨r, hr, rfl⟩

/-- One account changes and one is made. -/
private theorem KeepsMinStake.of_split
    (hstakes : w'.stakes = Function.update (Function.update w.stakes src (some account')) dst o)
    (hsrc : w'.Delegates src w.state.stakeSystem.minStake)
    (hdst : w'.Delegates dst w.state.stakeSystem.minStake)
    (hlisted : ∀ r ∈ w'.state.stakeSystem.records, r.stakeAccount = dst ∨
      ∃ r₀ ∈ w.state.stakeSystem.records, r₀.stakeAccount = r.stakeAccount) :
    KeepsMinStake w w' := by
  refine .of_accounts (fun k ↦ ?_) fun r hr ↦ ?_
  · by_cases hkd : k = dst
    · exact .inl (hkd ▸ hdst)
    · by_cases hks : k = src
      · exact .inl (hks ▸ hsrc)
      · refine .inr (undiminished_of_eq ?_)
        rw [hstakes, Function.update_of_ne hkd, Function.update_of_ne hks]
  · rcases hlisted r hr with hkey | h
    · exact .inl (hkey ▸ hdst)
    · exact .inr h

/-! ## Instructions -/

theorem StakeReserve.Spec.keepsMinStake {accounts j topUp}
    (h : StakeReserve.Spec rt accounts j w w' v x topUp) : KeepsMinStake w w' := by
  have hcov := h.rent_covered
  have hmin := h.min_le
  have hnew : w'.Delegates accounts.stakeAccount w.state.stakeSystem.minStake :=
    delegates_of_update h.stakes_eq rfl (by simp only; omega)
  refine .of_accounts (fun k ↦ ?_) fun r hr ↦ ?_
  · by_cases hk : k = accounts.stakeAccount
    · exact .inl (hk ▸ hnew)
    · refine .inr (undiminished_of_eq ?_)
      rw [h.stakes_eq, Function.update_of_ne hk]
  · rw [h.records_eq, List.mem_append, List.mem_singleton] at hr
    rcases hr with hr | rfl
    · exact .inr ⟨r, hr, rfl⟩
    · exact .inl hnew

/-- A deposited account is delegated as before. -/
theorem DepositStakeAccount.Spec.keepsMinStake {accounts j event v'}
    (h : DepositStakeAccount.Spec accounts j w w' event account d v v') : KeepsMinStake w w' := by
  obtain ⟨lockup, -, hstakes⟩ := h.stakes_eq
  have hnew : w'.Delegates accounts.stakeAccount w.state.stakeSystem.minStake :=
    delegates_of_update hstakes rfl h.min_stake
  refine .of_accounts (fun k ↦ ?_) fun r hr ↦ ?_
  · by_cases hk : k = accounts.stakeAccount
    · exact .inl (hk ▸ hnew)
    · refine .inr (undiminished_of_eq ?_)
      rw [hstakes, Function.update_of_ne hk]
  · rw [h.records_eq, List.mem_append, List.mem_singleton] at hr
    rcases hr with hr | rfl
    · exact .inr ⟨r, hr, rfl⟩
    · exact .inl hnew

/-- A record whose account is not changed is no new one. -/
private theorem listed_of_set {records : List StakeRecord} {n : ℕ} {r₀ r₁ : StakeRecord}
    (hr₀ : records[n]? = some r₀) (hkey : r₁.stakeAccount = r₀.stakeAccount)
    (hr : r ∈ records.set n r₁) : ∃ r₂ ∈ records, r₂.stakeAccount = r.stakeAccount := by
  rcases List.mem_or_eq_of_mem_set hr with hr | rfl
  · exact ⟨r, hr, rfl⟩
  · exact ⟨r₀, List.mem_of_getElem? hr₀, hkey.symm⟩

theorem WithdrawStakeAccount.Spec.keepsMinStake {accounts n j beneficiary event}
    (h : WithdrawStakeAccount.Spec rt accounts n j x beneficiary w w' event account d r v topUp) :
    KeepsMinStake w w' := by
  have hrest := h.remainder
  have hupdated := h.updated
  have hsrc : w.stakes accounts.stakeAccount ≠ none :=
    Option.ne_none_iff_exists'.mpr ⟨_, h.account_eq⟩
  have hne : accounts.stakeAccount ≠ accounts.splitStakeAccount :=
    Chain.ne_of_isUnused hsrc h.split_unused
  refine .of_split h.stakes_eq ?_ (delegates_of_update h.stakes_eq rfl h.min_stake)
    fun r₁ hr₁ ↦ .inr ?_
  · exact delegates_of_update_update h.stakes_eq hne rfl (by simp only; omega)
  · rw [h.records_eq] at hr₁
    exact listed_of_set h.record (by rfl) hr₁

theorem UnstakedWhole.keepsMinStake {signers emergency n j}
    (h : UnstakedWhole signers emergency src n j w w' account d r v) : KeepsMinStake w w' := by
  refine .of_accounts (fun k ↦ .inr ⟨fun hnone ↦ ?_, ?_⟩) fun r₁ hr₁ ↦ .inr ?_
  · have hk : k ≠ src := by
      rintro rfl
      rw [h.account_eq] at hnone
      cases hnone
    rw [h.stakes_eq, Function.update_of_ne hk, hnone]
  · intro a a' d₁ d' ha hd ha' hd' hactive
    by_cases hk : k = src
    · -- the account is deactivated
      subst hk
      rw [h.stakes_eq, Function.update_self, Option.some.injEq] at ha'
      subst ha'
      rw [Option.some.injEq] at hd'
      subst hd'
      exact absurd hactive w.clock.epoch_lt.ne
    · refine (undiminished_of_eq ?_).2 a a' d₁ d' ha hd ha' hd' hactive
      rw [h.stakes_eq, Function.update_of_ne hk]
  · rw [h.records_eq] at hr₁
    exact listed_of_set h.record (by rfl) hr₁

/-- What is left is enough, so it depends on what is split off. -/
theorem UnstakedSplit.keepsMinStake_iff {emergency payer n j}
    (h : UnstakedSplit rt emergency src dst payer n j w w' account d r v x topUp)
    (hrest : w.state.stakeSystem.minStake ≤ r.lastUpdateDelegatedLamports - x) :
    KeepsMinStake w w' ↔ w.state.stakeSystem.minStake ≤ x := by
  have hupdated := h.updated
  have hsrc : w.stakes src ≠ none := Option.ne_none_iff_exists'.mpr ⟨_, h.account_eq⟩
  have hne : src ≠ dst := Chain.ne_of_isUnused hsrc h.split_unused
  have hdst : w'.stakes dst = some ⟨{ account.stakeMeta with rentExemptReserve := rt.stakeRent },
      some { d with stake := x, deactivationEpoch := w.clock.epoch }⟩ := by
    rw [h.stakes_eq, Function.update_self]
  constructor
  · intro hkeeps
    obtain ⟨a, d', ha, hd', hle⟩ := hkeeps.created dst
      (Chain.stakes_eq_none_of_isUnused h.split_unused) (by rw [hdst]; exact Option.some_ne_none _)
    rw [hdst, Option.some.injEq] at ha
    subst ha
    rw [Option.some.injEq] at hd'
    subst hd'
    exact hle
  · intro hmin
    refine .of_split h.stakes_eq ?_ (delegates_of_update h.stakes_eq rfl hmin) fun r₁ hr₁ ↦ ?_
    · exact delegates_of_update_update h.stakes_eq hne rfl (by simp only; omega)
    · rw [h.records_eq] at hr₁
      rcases List.mem_or_eq_of_mem_set hr₁ with hr₁ | rfl
      · rw [List.mem_append, List.mem_singleton] at hr₁
        rcases hr₁ with hr₁ | rfl
        · exact .inr ⟨r₁, hr₁, rfl⟩
        · exact .inl rfl
      · exact .inr ⟨r, List.mem_of_getElem? h.record, rfl⟩

/-! ## The five instructions -/

theorem PartialUnstake.keepsMinStake {accounts : PartialUnstake} {n j desired : ℕ}
    (h : accounts.process rt n j desired w = .ok w') (hfunded : w.Funded accounts.stakeAccount) :
    KeepsMinStake w w' := by
  obtain ⟨account, d, r, v, share, hd, houtcome⟩ := process_cases h hfunded
  cases houtcome with
  | onTarget _ h => exact .of_eq (by rw [h.frame]) (by rw [h.state_eq])
  | whole _ _ h => exact h.keepsMinStake
  | part habove hrest h =>
    -- the manager asks for enough, and the validator has enough beyond its target
    have hmin := hd.min_le
    refine (h.keepsMinStake_iff hrest).mpr ?_
    rw [unstakeAmount]
    omega

/-- The split amount is what the stake delta and the validator's target leave of each other. -/
theorem DeactivateStake.keepsMinStake_iff {accounts : DeactivateStake} {n j : ℕ}
    {event : DeactivateStakeEvent} (h : accounts.process rt n j w = .ok (w', event))
    (hfunded : w.Funded accounts.stakeAccount) :
    KeepsMinStake w w' ↔ w.SplitsEnough (.deactivateStake accounts n j) := by
  obtain ⟨account, d, r, v, share, hd, houtcome⟩ := process_cases h hfunded
  have hsplits : w.SplitsEnough (.deactivateStake accounts n j) ↔ (share < v.activeBalance →
      2 * w.state.stakeSystem.minStake
        ≤ r.lastUpdateDelegatedLamports - unstakeAmount w v share →
      v.lastStakeDeltaEpoch ≠ w.clock.epoch →
        w.state.stakeSystem.minStake ≤ unstakeAmount w v share) := by
    constructor
    · exact fun hs ↦ hs r v share hd.record hd.validator hd.share_eq
    · intro hs r' v' share' hr hv hshare
      obtain rfl := Option.some.inj (hd.record.symm.trans hr)
      obtain rfl := Option.some.inj (hd.validator.symm.trans hv)
      obtain rfl := Except.ok.inj (hd.share_eq.symm.trans hshare)
      exact hs
  rw [hsplits]
  generalize event.unstakedAmount = amount at houtcome
  cases houtcome with
  | onTarget honTarget h =>
    exact iff_of_true (.of_eq (by rw [h.frame]) (by rw [h.state_eq]))
      fun habove ↦ absurd habove honTarget.not_gt
  | repeated _ _ hrepeated h =>
    exact iff_of_true (.of_eq (by rw [h.frame]) (by rw [h.state_eq]))
      fun _ _ hfirst ↦ absurd hrepeated hfirst
  | whole _ hrest h =>
    exact iff_of_true h.keepsMinStake fun _ henough ↦ absurd hrest henough.not_gt
  | part habove hrest hfirst h =>
    rw [h.keepsMinStake_iff (by omega)]
    exact ⟨fun hmin _ _ _ ↦ hmin, fun hmin ↦ hmin habove hrest hfirst⟩

/-- Of the five instructions only `deactivate_stake` can go below the minimal stake, exactly where
it splits off less. -/
theorem min_stake_kept_iff (h : (marinade rt).Reachable w) (hi : i.formsStake = true)
    (he : exec rt w i = .ok (w', e)) : KeepsMinStake w w' ↔ w.SplitsEnough i := by
  have hsound := (wellFormed_of_reachable h).stakes_sound
  cases i with
  | stakeReserve =>
    obtain ⟨_, hp, -⟩ := reporting_eq_ok he
    refine iff_of_true ?_ trivial
    rcases StakeReserve.process_spec hp with ⟨-, found, h⟩ | ⟨v, x, -, topUp, h⟩
    · obtain ⟨runs, hstate⟩ := h.state_eq
      exact .of_eq (by rw [h.frame]) (by rw [hstate])
    · exact h.keepsMinStake
  | depositStakeAccount =>
    obtain ⟨_, hp, -⟩ := reporting_eq_ok he
    obtain ⟨account, d, v, v', h⟩ := DepositStakeAccount.process_spec hp
    exact iff_of_true h.keepsMinStake trivial
  | deactivateStake =>
    obtain ⟨_, hp, -⟩ := reporting_eq_ok he
    exact DeactivateStake.keepsMinStake_iff hp (hsound.funded _)
  | partialUnstake =>
    exact iff_of_true (PartialUnstake.keepsMinStake (silently_eq_ok he) (hsound.funded _)) trivial
  | withdrawStakeAccount =>
    obtain ⟨_, hp, -⟩ := reporting_eq_ok he
    obtain ⟨account, d, r, v, topUp, h⟩ := WithdrawStakeAccount.process_spec hp (hsound.funded _)
    exact iff_of_true h.keepsMinStake trivial
  | _ => cases hi

end

/-! ## A large ticket and a small one -/

namespace Sample

/-- In the sample pool the user orders a delayed unstake, at a price of three lamports for two mSOL;
then the next epoch begins. -/
def ordering (msolAmount : ℕ) : List Action := staking ++ [
  .run (.orderUnstake ⟨treasury, user, .external 40⟩ msolAmount),
  .tick (startOf 2)]

def largeOrdered : List Label × World :=
  (replay runtime (fun _ _ ↦ true) fresh (ordering 10000000)).get (by decide +kernel)

def smallOrdered : List Label × World :=
  (replay runtime (fun _ _ ↦ true) fresh (ordering 1000000)).get (by decide +kernel)

theorem largeOrdered_reachable : (marinade runtime).Reachable largeOrdered.2 :=
  (run_of_replay (Option.some_get _).symm).reachable fresh_fresh

theorem smallOrdered_reachable : (marinade runtime).Reachable smallOrdered.2 :=
  (run_of_replay (Option.some_get _).symm).reachable fresh_fresh

/-- Unstaking for the ticket. -/
def deactivating : Instruction :=
  .deactivateStake ⟨.external 30, .external 31, user⟩ 0 0

theorem largeDeactivation_isSome :
    (exec runtime largeOrdered.2 deactivating).toOption.isSome = true := by
  decide +kernel

theorem deactivation_isSome :
    (exec runtime smallOrdered.2 deactivating).toOption.isSome = true := by
  decide +kernel

/-- The large ticket asks for more than the minimal stake. -/
theorem largeOrdered_splitsEnough : largeOrdered.2.SplitsEnough deactivating := by
  intro r v share _ hv hshare _ _ _
  have hlisted : largeOrdered.2.state.validatorSystem.records[0]?
      = some ⟨vote, 60000000, 100, 1, 0⟩ := by
    decide +kernel
  obtain rfl := Option.some.inj (hv.symm.trans hlisted)
  obtain rfl : 45000000 = share := Except.ok.inj hshare
  decide +kernel

end Sample

/-- What is unstaked for the large ticket is split off, and is enough. -/
theorem min_stake_kept_sample : ∃ w' e,
    exec Sample.runtime Sample.largeOrdered.2 Sample.deactivating = .ok (w', e) ∧
    w'.stakes (.external 31) ≠ none ∧ KeepsMinStake Sample.largeOrdered.2 w' :=
  ⟨_, _, eq_ok_get Sample.largeDeactivation_isSome, by decide +kernel,
    (min_stake_kept_iff Sample.largeOrdered_reachable rfl
      (eq_ok_get Sample.largeDeactivation_isSome)).mpr Sample.largeOrdered_splitsEnough⟩

/-- What is unstaked for a small ticket is split off, however little it is. -/
theorem min_stake_not_kept : ∃ w w' e, (marinade Sample.runtime).Reachable w ∧
    exec Sample.runtime w (.deactivateStake ⟨.external 30, .external 31, Sample.user⟩ 0 0)
      = .ok (w', e) ∧ ¬KeepsMinStake w w' := by
  refine ⟨_, _, _, Sample.smallOrdered_reachable, eq_ok_get Sample.deactivation_isSome, ?_⟩
  intro hkeeps
  have hsplit := hkeeps.created (.external 31) (by decide +kernel) (by decide +kernel)
  exact not_delegates_of_lt (y := 1500000) (by decide +kernel) (by decide +kernel) hsplit

end Marinade
