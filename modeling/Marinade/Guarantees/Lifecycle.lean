import Marinade.Invariants.Frames
import Marinade.Replay

/-!
# The life of a stake record

A record enters the stake list as active, when the program stakes or takes over an account, or as
deactivating, when it splits off a part of an account to unstake it. An active record may turn into
a deactivating one, and it leaves the list when its account is merged into another or moved to the
canonical address. What is deactivating never becomes active again: its record stays exactly as it
is until the account is collected.

So whatever happens to an account in the list is somebody's doing, and the call that does it names
the account.
-/

open Foundation

namespace Marinade

namespace Label

/-- The program stakes to the account, or takes it over. -/
def opens (k : Pubkey) : Label → Prop
  | .instruction (.stakeReserve accounts _) _ => accounts.stakeAccount = k
  | .instruction (.depositStakeAccount accounts _) _ => accounts.stakeAccount = k
  | .instruction (.createCanonicalStake accounts _ _) _ => accounts.canonicalStake = k
  | _ => False

/-- The account is unstaked, or split off to be unstaked. -/
def cools (k : Pubkey) : Label → Prop
  | .instruction (.deactivateStake accounts _ _) _ =>
    accounts.stakeAccount = k ∨ accounts.splitStakeAccount = k
  | .instruction (.emergencyUnstake accounts _ _) _ => accounts.stakeAccount = k
  | .instruction (.partialUnstake accounts _ _ _) _ =>
    accounts.stakeAccount = k ∨ accounts.splitStakeAccount = k
  | _ => False

/-- The lamports of a deactivated account are collected. -/
def collects (k : Pubkey) : Label → Prop
  | .instruction (.updateDeactivated accounts _ _) _ => accounts.stakeAccount = k
  | _ => False

/-- The account is merged into another one, or moved to the canonical address. -/
def absorbs (k : Pubkey) : Label → Prop
  | .instruction (.mergeStakes accounts _ _ _) _ => accounts.sourceStake = k
  | .instruction (.createCanonicalStake accounts _ _) _ => accounts.sourceStake = k
  | _ => False

end Label

/-- The account has an active record. -/
def World.ActiveAt (w : World) (k : Pubkey) : Prop :=
  ∃ r ∈ w.state.stakeSystem.records, r.stakeAccount = k ∧ r.lastUpdateStatus = .active

/-- A step replaces `olds` by `news`, and what it does to them it says. -/
structure Turnover (l : Label) (olds news : List StakeRecord) : Prop where
  collected : ∀ r ∈ olds, r.lastUpdateStatus = .deactivating → l.collects r.stakeAccount
  retired : ∀ r ∈ olds, r.lastUpdateStatus = .active →
    (∃ r' ∈ news, r'.stakeAccount = r.stakeAccount ∧ r'.lastUpdateStatus = .active) ∨
      l.cools r.stakeAccount ∨ l.absorbs r.stakeAccount ∨ l.collects r.stakeAccount
  cooled : ∀ r' ∈ news, r'.lastUpdateStatus = .deactivating → l.cools r'.stakeAccount
  opened : ∀ r' ∈ news, r'.lastUpdateStatus = .active →
    (∃ r ∈ olds, r.stakeAccount = r'.stakeAccount ∧ r.lastUpdateStatus = .active) ∨
      l.opens r'.stakeAccount

section

variable {rt : Runtime} {w w' : World} {i : Instruction} {e : Event} {l : Label}
  {olds news rest : List StakeRecord} {r r' : StakeRecord} {k : Pubkey}

theorem Turnover.idle : Turnover l [] [] :=
  ⟨by simp, by simp, by simp, by simp⟩

/-- An active record is changed, and stays active. -/
theorem Turnover.kept (hr : r.lastUpdateStatus = .active) (hr' : r'.lastUpdateStatus = .active)
    (hkey : r'.stakeAccount = r.stakeAccount) : Turnover l [r] [r'] where
  collected := by simp [hr]
  retired := by simp [hr', hkey]
  cooled := by simp [hr']
  opened := by simp [hr, hkey]

/-- A new active record. -/
theorem Turnover.opening (hr' : r'.lastUpdateStatus = .active) (hl : l.opens r'.stakeAccount) :
    Turnover l [] [r'] where
  collected := by simp
  retired := by simp
  cooled := by simp [hr']
  opened := by simp [hl]

/-- An active record begins to cool down. -/
theorem Turnover.cooling (hr : r.lastUpdateStatus = .active)
    (hr' : r'.lastUpdateStatus = .deactivating) (hkey : r'.stakeAccount = r.stakeAccount)
    (hl : l.cools r.stakeAccount) : Turnover l [r] [r'] where
  collected := by simp [hr]
  retired := by simp [hl]
  cooled := by simp [hkey, hl]
  opened := by simp [hr']

/-! ## Every instruction -/

/-- What a deactivation that has found something to unstake does to the records. -/
theorem UnstakedWhole.turnover {signers emergency} {i j account d v}
    (h : UnstakedWhole signers emergency k i j w w' account d r v) (hl : l.cools k) :
    Turnover l [r] [{ r with
      lastUpdateStatus := .deactivating, isEmergencyUnstaking := emergency }] :=
  .cooling h.record_active rfl rfl (h.record_key ▸ hl)

theorem UnstakedSplit.turnover {emergency : Bool} {i j account d v x topUp payer dst}
    (h : UnstakedSplit rt emergency k dst payer i j w w' account d r v x topUp)
    (hl : l.cools dst) :
    Turnover l [r] [{ r with
        lastUpdateDelegatedLamports := r.lastUpdateDelegatedLamports - x },
      .new dst x w.clock emergency false] where
  collected := by simp [h.record_active]
  retired := by simp [h.record_active]
  cooled := by simp [h.record_active, StakeRecord.new, hl]
  opened := by simp [h.record_active, StakeRecord.new]

/-- The source is absorbed, and the destination stays. -/
theorem MergeStakes.Spec.turnover {accounts i i' j account srcAccount d sd sr v extra}
    (h : MergeStakes.Spec accounts i i' j w w' account srcAccount d sd r sr v extra) :
    Turnover (.instruction (.mergeStakes accounts i i' j) e) [r, sr] [{ r with
      lastUpdateDelegatedLamports := d.stake + sd.stake + extra }] where
  collected := by simp [h.record_active, h.source_active]
  retired := by simp [h.record_active, h.source_key, Label.absorbs]
  cooled := by simp [h.record_active]
  opened := by simp [h.record_active]

/-- The account moves to the canonical address. -/
theorem CreateCanonicalStake.Spec.turnover {accounts i j account d v swept}
    (h : CreateCanonicalStake.Spec rt accounts i j w w' account d r v swept)
    (hr : r.lastUpdateStatus = .active) :
    Turnover (.instruction (.createCanonicalStake accounts i j) e) [r]
      [.new accounts.canonicalStake d.stake w.clock false true] where
  collected := by simp [hr]
  retired := by simp [h.record_key, Label.absorbs]
  cooled := by simp [StakeRecord.new]
  opened := by simp [StakeRecord.new, Label.opens]

/-- Whatever the record says, the account is collected. -/
theorem UpdateDeactivated.Spec.turnover {accounts i j account d v s₁ s₂ fee delinquent}
    (h : UpdateDeactivated.Spec accounts i j w w' account d r r' v s₁ s₂ fee delinquent) :
    Turnover (.instruction (.updateDeactivated accounts i j) e) [r] [] where
  collected := by simp [h.record_key, Label.collects]
  retired := by simp [h.record_key, Label.collects]
  cooled := by simp
  opened := by simp

theorem turnover_of_exec (h : exec rt w i = .ok (w', e)) (hw : WellFormed rt w) (hb : Recorded w)
    (hknown : ∀ r ∈ w.state.stakeSystem.records, r.lastUpdateStatus ≠ .unknown) :
    ∃ olds news rest,
      Replaced w.state.stakeSystem.records w'.state.stakeSystem.records olds news rest ∧
        Turnover (.instruction i e) olds news := by
  have hs := hw.stakes_sound
  have hlists : ∀ {j r}, w.state.stakeSystem.records[j]? = some r → w.Lists r :=
    fun hr ↦ hb.listed _ (List.mem_of_getElem? hr)
  have hactive : ∀ {j : ℕ} {r : StakeRecord}, w.state.stakeSystem.records[j]? = some r →
      r.lastUpdateStatus ≠ .deactivating → r.lastUpdateStatus = .active := by
    intro j r hr hne
    have hne' := hknown r (List.mem_of_getElem? hr)
    cases hstatus : r.lastUpdateStatus with
    | active => rfl
    | deactivating => exact absurd hstatus hne
    | unknown => exact absurd hstatus hne'
  by_cases hi : i.turnsOver = false
  · rw [(executed_of_exec h hs).leaves.records_eq hi]
    exact ⟨_, _, _, .refl _, .idle⟩
  · cases i with
    | stakeReserve accounts j =>
      obtain ⟨e, hp, rfl⟩ := reporting_eq_ok h
      rcases StakeReserve.process_spec hp with ⟨-, _, h⟩ | ⟨v, x, -, topUp, h⟩
      · obtain ⟨_, hstate⟩ := h.state_eq
        rw [hstate]
        exact ⟨_, _, _, .refl _, .idle⟩
      · exact ⟨_, _, _, (h.moved hs).replaced, .opening rfl rfl⟩
    | depositStakeAccount accounts j =>
      obtain ⟨e, hp, rfl⟩ := reporting_eq_ok h
      obtain ⟨_, _, _, _, h⟩ := DepositStakeAccount.process_spec hp
      exact ⟨_, _, _, (h.moved hs).replaced, .opening rfl rfl⟩
    | withdrawStakeAccount accounts i j x beneficiary =>
      obtain ⟨e, hp, rfl⟩ := reporting_eq_ok h
      obtain ⟨_, _, _, _, _, h⟩ := WithdrawStakeAccount.process_spec hp (hs.funded _)
      exact ⟨_, _, _, (h.moved (hlists h.record)).replaced,
        .kept h.record_active h.record_active rfl⟩
    | deactivateStake accounts i j =>
      obtain ⟨e, hp, rfl⟩ := reporting_eq_ok h
      rcases DeactivateStake.process_spec hp (hs.funded _) with
        ⟨-, h⟩ | ⟨_, _, _, _, h⟩ | ⟨_, _, _, _, _, _, h⟩
      · rw [h.state_eq]
        exact ⟨_, _, _, .refl _, .idle⟩
      · have hm : Moved rt w _ _ _ _ := h.moved (hlists h.record)
        exact ⟨_, _, _, hm.replaced, h.turnover (.inl rfl)⟩
      · exact ⟨_, _, _, (h.moved (hlists h.record)).replaced, h.turnover (.inr rfl)⟩
    | emergencyUnstake accounts i j =>
      obtain ⟨_, _, _, _, h⟩ := EmergencyUnstake.process_spec (silently_eq_ok h)
      have hm : Moved rt w _ _ _ _ := h.moved (hlists h.record)
      exact ⟨_, _, _, hm.replaced, h.turnover rfl⟩
    | partialUnstake accounts i j x =>
      rcases PartialUnstake.process_spec (silently_eq_ok h) (hs.funded _) with
        h | ⟨_, _, _, _, h⟩ | ⟨_, _, _, _, _, _, h⟩
      · rw [h.state_eq]
        exact ⟨_, _, _, .refl _, .idle⟩
      · have hm : Moved rt w _ _ _ _ := h.moved (hlists h.record)
        exact ⟨_, _, _, hm.replaced, h.turnover (.inl rfl)⟩
      · exact ⟨_, _, _, (h.moved (hlists h.record)).replaced, h.turnover (.inr rfl)⟩
    | mergeStakes accounts i i' j =>
      obtain ⟨e, hp, rfl⟩ := reporting_eq_ok h
      obtain ⟨_, _, _, _, r, sr, _, h, -⟩ := MergeStakes.process_spec hp (hs.funded _)
      obtain ⟨rest, hm⟩ := h.moved hs (hlists h.record)
      exact ⟨_, _, rest, hm.replaced, h.turnover⟩
    | createCanonicalStake accounts i j =>
      obtain ⟨_, _, r, _, _, h⟩ := CreateCanonicalStake.process_spec (silently_eq_ok h)
      refine ⟨_, _, _, (h.moved hs (hlists h.record)).replaced, h.turnover (hactive h.record ?_)⟩
      exact fun hr ↦ (hlists h.record).deactivating h.record_key h.account_eq h.delegation_eq hr
        h.active
    | updateActive accounts i j =>
      obtain ⟨_, _, _, _, _, _, _, _, h⟩ :=
        UpdateActive.process_spec (silently_eq_ok h) (hs.funded _)
      exact ⟨_, _, _, (h.moved hs (hlists h.record)).replaced,
        .kept (hactive h.record h.not_deactivating) rfl rfl⟩
    | updateDeactivated accounts i j =>
      obtain ⟨_, _, r, _, _, _, _, _, _, h⟩ :=
        UpdateDeactivated.process_spec (silently_eq_ok h) (hs.funded _)
      exact ⟨_, _, _, (h.moved hs).replaced, h.turnover⟩
    | _ => exact absurd rfl hi

/-! ## Every step and every run -/

theorem Step.turnover (hr : (marinade rt).Reachable w) (h : Step rt w l w') :
    ∃ olds news rest,
      Replaced w.state.stakeSystem.records w'.state.stakeSystem.records olds news rest ∧
        Turnover l olds news := by
  cases l with
  | instruction i e =>
    have hb := booked_of_reachable hr
    exact turnover_of_exec h (wellFormed_of_reachable hr) hb.toRecorded
      fun r hmem ↦ (hb.tracked r hmem).known
  | external x =>
    rw [h.2]
    exact ⟨_, _, _, .refl _, .idle⟩

/-- What is deactivating stays in the list as it is, or is collected. -/
theorem Step.cooling_kept (hr : (marinade rt).Reachable w) (h : Step rt w l w')
    (hmem : r ∈ w.state.stakeSystem.records) (hstatus : r.lastUpdateStatus = .deactivating) :
    r ∈ w'.state.stakeSystem.records ∨ l.collects r.stakeAccount := by
  obtain ⟨olds, news, rest, hreplaced, hturn⟩ := h.turnover hr
  rcases List.mem_append.mp (hreplaced.perm.mem_iff.mp hmem) with hold | hrest
  · exact .inr (hturn.collected r hold hstatus)
  · exact .inl (hreplaced.mem_iff.mpr (.inr hrest))

/-- What is active stays active, or the step names it. -/
theorem Step.active_kept (hr : (marinade rt).Reachable w) (h : Step rt w l w')
    (hk : w.ActiveAt k) : w'.ActiveAt k ∨ l.cools k ∨ l.absorbs k ∨ l.collects k := by
  obtain ⟨olds, news, rest, hreplaced, hturn⟩ := h.turnover hr
  obtain ⟨r, hmem, rfl, hstatus⟩ := hk
  rcases List.mem_append.mp (hreplaced.perm.mem_iff.mp hmem) with hold | hrest
  · rcases hturn.retired r hold hstatus with ⟨r', hnew, hkey, hstatus'⟩ | hl
    · exact .inl ⟨r', hreplaced.mem_iff.mpr (.inl hnew), hkey, hstatus'⟩
    · exact .inr hl
  · exact .inl ⟨r, hreplaced.mem_iff.mpr (.inr hrest), rfl, hstatus⟩

/-- Nothing else is deactivating, unless the step names it. -/
theorem Step.cooling_new (hr : (marinade rt).Reachable w) (h : Step rt w l w')
    (hmem : r ∉ w.state.stakeSystem.records) (hstatus : r.lastUpdateStatus = .deactivating) :
    r ∉ w'.state.stakeSystem.records ∨ l.cools r.stakeAccount := by
  obtain ⟨olds, news, rest, hreplaced, hturn⟩ := h.turnover hr
  by_cases hnew : r ∈ news
  · exact .inr (hturn.cooled r hnew hstatus)
  · refine .inl fun hmem' ↦ ?_
    rcases hreplaced.mem_iff.mp hmem' with hnew' | hrest
    · exact hnew hnew'
    · exact hmem (hreplaced.mem_of_rest hrest)

/-- Nothing else is active, unless the step names it. -/
theorem Step.active_new (hr : (marinade rt).Reachable w) (h : Step rt w l w')
    (hk : ¬w.ActiveAt k) : ¬w'.ActiveAt k ∨ l.opens k := by
  obtain ⟨olds, news, rest, hreplaced, hturn⟩ := h.turnover hr
  by_cases hl : l.opens k
  · exact .inr hl
  refine .inl ?_
  rintro ⟨r', hmem', rfl, hstatus⟩
  rcases hreplaced.mem_iff.mp hmem' with hnew | hrest
  · rcases hturn.opened r' hnew hstatus with ⟨r, hold, hkey, hactive⟩ | hopens
    · exact hk ⟨r, hreplaced.mem_of_olds hold, hkey, hactive⟩
    · exact hl hopens
  · exact hk ⟨r', hreplaced.mem_of_rest hrest, rfl, hstatus⟩

/-- In every run, an account's record changes only by calls that name the account. -/
theorem lifecycle_of_run {ls : List Label} (h : (marinade rt).Reachable w)
    (hrun : (marinade rt).Run w ls w') :
    (∀ r ∈ w.state.stakeSystem.records, r.lastUpdateStatus = .deactivating →
      r ∈ w'.state.stakeSystem.records ∨ ∃ l ∈ ls, l.collects r.stakeAccount) ∧
    (∀ k, w.ActiveAt k →
      w'.ActiveAt k ∨ ∃ l ∈ ls, l.cools k ∨ l.absorbs k ∨ l.collects k) ∧
    (∀ r ∈ w'.state.stakeSystem.records, r.lastUpdateStatus = .deactivating →
      r ∈ w.state.stakeSystem.records ∨ ∃ l ∈ ls, l.cools r.stakeAccount) ∧
    ∀ k, w'.ActiveAt k → w.ActiveAt k ∨ ∃ l ∈ ls, l.opens k := by
  refine ⟨fun r hmem hstatus ↦ ?_, fun k hk ↦ ?_, fun r hmem hstatus ↦ ?_, fun k hk ↦ ?_⟩
  · exact hrun.or_exists (P := fun _ w ↦ r ∈ w.state.stakeSystem.records) h hmem
      fun _ _ _ _ hr hmem hs ↦ Step.cooling_kept hr hs hmem hstatus
  · exact hrun.or_exists (P := fun _ w ↦ w.ActiveAt k) h hk
      fun _ _ _ _ hr hk hs ↦ Step.active_kept hr hs hk
  · by_contra hno
    rw [not_or] at hno
    rcases hrun.or_exists (P := fun _ w ↦ r ∉ w.state.stakeSystem.records) h hno.1
      fun _ _ _ _ hr hmem hs ↦ Step.cooling_new hr hs hmem hstatus with hmem' | hl
    · exact hmem' hmem
    · exact hno.2 hl
  · by_contra hno
    rw [not_or] at hno
    rcases hrun.or_exists (P := fun _ w ↦ ¬w.ActiveAt k) h hno.1
      fun _ _ _ _ hr hk hs ↦ Step.active_new hr hs hk with hk' | hl
    · exact hk' hk
    · exact hno.2 hl

end

/-! ## In the sample pool -/

theorem lifecycle_sample : Sample.fresh.ActiveAt (.external 30) ∨
    ∃ l ∈ Sample.staked.1, l.opens (.external 30) := by
  have hactive : ∃ r ∈ Sample.staked.2.state.stakeSystem.records,
      r.stakeAccount = .external 30 ∧ r.lastUpdateStatus = .active := by
    decide +kernel
  exact (lifecycle_of_run (.init Sample.fresh_fresh) Sample.staked_run).2.2.2 _ hactive

end Marinade
