import Marinade.Invariants.Moves

/-!
# The books agree with the records

Each of the five totals of the state is a sum over the stake list, the balance of each validator
too. A move replaces some records and changes each total by what they contribute, so the sums stay
what they are; external events change neither, and the account of a record keeps its voter whatever
happens to it.
-/

open Foundation Foundation.Ledger

namespace Marinade

/-- A delegation that its staker did not touch: the network may have changed its amount, and may
have deactivated it. -/
structure Delegation.Follows (d d' : Delegation) : Prop where
  voter_eq : d'.voterPubkey = d.voterPubkey
  activation_eq : d'.activationEpoch = d.activationEpoch
  deactivation : d'.deactivationEpoch = d.deactivationEpoch ∨
    d.deactivationEpoch = epochMax ∧ d'.deactivationEpoch ≠ epochMax

/-- A stake account that its authorities did not touch. -/
structure StakeAccount.Follows (account account' : StakeAccount) : Prop where
  meta_eq : account'.stakeMeta = account.stakeMeta
  delegation : Option.Rel Delegation.Follows account.delegation account'.delegation

/-- The account whose delegation an external event changes. -/
def External.redelegates : External → Option Pubkey
  | reward k _ | slash k _ _ | deactivateDelinquent k => some k
  | tick | outside => none

/-- The stake list is about different accounts that the program manages. -/
structure Recorded (w : World) : Prop where
  listed : ∀ r ∈ w.state.stakeSystem.records, w.Lists r
  distinct : KeysDistinct (·.stakeAccount) w.state.stakeSystem.records

/-- The books of a pool whose upgrade is done. -/
structure Booked (w : World) : Prop extends Recorded w where
  done : w.state.delinquentUpgrader = .done
  tracked : ∀ r ∈ w.state.stakeSystem.records, r.Tracked
  total_eq : w.state.validatorSystem.totalActiveBalance
    = total (·.activeAmount) w.state.stakeSystem.records
  cooling_eq : ∀ emergency,
    w.state.coolingDown emergency = total (·.coolingDown emergency) w.state.stakeSystem.records
  validators_eq : ∀ vote, total (·.balanceOf vote) w.state.validatorSystem.records
    = total (w.activeFor vote) w.state.stakeSystem.records

/-- The validator list is about different validators, and their flags exist. -/
structure Registered (w : World) : Prop where
  distinct : KeysDistinct (·.validatorAccount) w.state.validatorSystem.records
  flagged : ∀ v ∈ w.state.validatorSystem.records, w.flags v.validatorAccount = true

section

variable {rt : Runtime} {c c' : Chain} {w w' : World} {k k' vote : Pubkey}
  {account account' : StakeAccount} {d d' : Delegation} {r : StakeRecord} {v : ValidatorRecord}
  {olds news rest : List StakeRecord} {i : Instruction} {e : Event} {x : External} {l : Label}

/-! ## Moves -/

/-- The account of a record that stays is not the account of one that goes. -/
theorem Moved.stakes_rest (hm : Moved rt w w' olds news rest) (h : Recorded w)
    (hr : r ∈ rest) : w'.stakes r.stakeAccount = w.stakes r.stakeAccount :=
  hm.stakes_frame _ (h.listed r (hm.replaced.mem_of_rest hr)).managed fun _ hold ↦
    hm.replaced.ne_of_olds_rest h.distinct hold hr

theorem Moved.recorded (hm : Moved rt w w' olds news rest) (h : Recorded w) : Recorded w' where
  listed r hr := by
    rcases hm.replaced.mem_iff.mp hr with hr | hr
    · exact hm.listed r hr
    · exact (h.listed r (hm.replaced.mem_of_rest hr)).of_stakes (hm.stakes_rest h hr)
  distinct := hm.replaced.keysDistinct h.distinct hm.distinct fun a ha b hb heq ↦ by
    rcases hm.fresh a ha with ⟨r', hr', hkey⟩ | hforeign
    · exact hm.replaced.ne_of_olds_rest h.distinct hr' hb (hkey.trans heq)
    · rw [heq] at hforeign
      exact hforeign (h.listed b (hm.replaced.mem_of_rest hb)).managed

theorem Moved.booked (hm : Moved rt w w' olds news rest) (h : Booked w) : Booked w' := by
  have hb := hm.balanced h.done fun r hr ↦ h.tracked r (hm.replaced.mem_of_olds hr)
  refine ⟨hm.recorded h.toRecorded, hb.done, ?_, ?_, ?_, ?_⟩
  · intro r hr
    rcases hm.replaced.mem_iff.mp hr with hr | hr
    · exact hb.tracked r hr
    · exact h.tracked r (hm.replaced.mem_of_rest hr)
  · have hsum := hm.replaced.total_eq (f := (·.activeAmount)) (g := (·.activeAmount))
      fun _ _ ↦ rfl
    have hstep := hb.total_eq
    have hold := h.total_eq
    omega
  · intro emergency
    have hsum := hm.replaced.total_eq (f := (·.coolingDown emergency))
      (g := (·.coolingDown emergency)) fun _ _ ↦ rfl
    have hstep := hb.cooling_eq emergency
    have hold := h.cooling_eq emergency
    omega
  · intro vote
    have hsum := hm.replaced.total_eq (f := w.activeFor vote) (g := w'.activeFor vote) fun r hr ↦ by
      rw [Chain.activeFor, Chain.activeFor,
        Chain.voterOf_congr (hm.stakes_rest h.toRecorded hr)]
    have hstep := hb.validators_eq vote
    have hold := h.validators_eq vote
    omega

/-! ## External events -/

theorem Delegation.Follows.refl : d.Follows d :=
  ⟨rfl, rfl, .inl rfl⟩

theorem Delegation.Follows.trans {d'' : Delegation} (h : d.Follows d') (h' : d'.Follows d'') :
    d.Follows d'' where
  voter_eq := h'.voter_eq.trans h.voter_eq
  activation_eq := h'.activation_eq.trans h.activation_eq
  deactivation := by
    rcases h.deactivation with heq | ⟨hmax, hne⟩
    · rw [← heq]
      exact h'.deactivation
    · rcases h'.deactivation with heq | ⟨hmax', -⟩
      · exact .inr ⟨hmax, by rwa [heq]⟩
      · exact absurd hmax' hne

theorem Delegation.Follows.deactivated (h : d.Follows d')
    (hd : d.deactivationEpoch ≠ epochMax) : d'.deactivationEpoch ≠ epochMax := by
  rcases h.deactivation with heq | ⟨hmax, -⟩
  · rwa [heq]
  · exact absurd hmax hd

theorem StakeAccount.Follows.refl : account.Follows account := by
  refine ⟨rfl, ?_⟩
  cases account.delegation with
  | none => exact .none
  | some d => exact .some .refl

theorem StakeAccount.Follows.of_delegation (hd : account.delegation = some d)
    (h : d.Follows d') : account.Follows { account with delegation := some d' } := by
  refine ⟨rfl, ?_⟩
  rw [hd]
  exact .some h

/-- Where the delegation went. -/
theorem StakeAccount.Follows.exists_delegation (h : account.Follows account')
    (hd : account.delegation = some d) : ∃ d', account'.delegation = some d' ∧ d.Follows d' := by
  have hrel := h.delegation
  rw [hd] at hrel
  cases hd' : account'.delegation with
  | none =>
    rw [hd'] at hrel
    cases hrel
  | some d' =>
    rw [hd'] at hrel
    cases hrel with
    | some h => exact ⟨d', rfl, h⟩

theorem StakeAccount.Follows.trans {account'' : StakeAccount} (h : account.Follows account')
    (h' : account'.Follows account'') : account.Follows account'' where
  meta_eq := h'.meta_eq.trans h.meta_eq
  delegation := by
    have hrel := h.delegation
    have hrel' := h'.delegation
    generalize account.delegation = o at hrel ⊢
    generalize account'.delegation = o' at hrel hrel'
    generalize account''.delegation = o'' at hrel' ⊢
    cases hrel with
    | none => exact hrel'
    | some hd =>
      cases hrel' with
      | some hd' => exact .some (hd.trans hd')

private theorem Chain.follows_of_update (ha : c.stakes k = some account)
    (hd : account.delegation = some d)
    (hstakes : c'.stakes = Function.update c.stakes k
      (some { account with delegation := some d' })) (h : d.Follows d')
    (hk' : c.stakes k' = some account') :
    ∃ account'', c'.stakes k' = some account'' ∧ account'.Follows account'' := by
  by_cases heq : k' = k
  · subst heq
    rw [ha, Option.some.injEq] at hk'
    subst hk'
    exact ⟨_, by rw [hstakes, Function.update_self], .of_delegation hd h⟩
  · exact ⟨account', by rw [hstakes, Function.update_of_ne heq, hk'], .refl⟩

/-- Whatever happens outside, a managed account keeps all but its delegation, and of that what only
its staker may change. -/
theorem External.follows (h : x.Happens rt c c') (hk : c.Managed k)
    (ha : c.stakes k = some account) :
    ∃ account', c'.stakes k = some account' ∧ account.Follows account' := by
  cases x with
  | tick =>
    obtain ⟨clock, -, -, rfl⟩ := h
    exact ⟨account, ha, .refl⟩
  | outside => exact ⟨account, (Outside.stakes_eq h k (.inr hk)).trans ha, .refl⟩
  | reward =>
    obtain ⟨_, d, hself, hd, -, rfl⟩ := h
    exact Chain.follows_of_update hself hd rfl ⟨rfl, rfl, .inl rfl⟩ ha
  | slash =>
    obtain ⟨_, d, _, hself, hd, -, -, -, rfl⟩ := h
    exact Chain.follows_of_update hself hd rfl ⟨rfl, rfl, .inl rfl⟩ ha
  | deactivateDelinquent =>
    obtain ⟨_, d, hself, hd, hactive, rfl⟩ := h
    exact Chain.follows_of_update hself hd rfl ⟨rfl, rfl, .inr ⟨hactive, clock_epoch_ne c.clock⟩⟩
      ha

/-- And it stays altogether what it is if the event is not about it. -/
theorem External.stakes_eq (h : x.Happens rt c c') (hk : c.Managed k)
    (hx : x.redelegates ≠ some k) : c'.stakes k = c.stakes k := by
  have hne : ∀ k', some k' ≠ some k → k ≠ k' := fun k' hk' ↦ by
    rintro rfl
    exact hk' rfl
  cases x with
  | tick => obtain ⟨clock, -, -, rfl⟩ := h; rfl
  | outside => exact Outside.stakes_eq h k (.inr hk)
  | reward =>
    obtain ⟨_, _, -, -, -, rfl⟩ := h
    exact Function.update_of_ne (hne _ hx) _ _
  | slash =>
    obtain ⟨_, _, _, -, -, -, -, -, rfl⟩ := h
    exact Function.update_of_ne (hne _ hx) _ _
  | deactivateDelinquent =>
    obtain ⟨_, _, -, -, -, rfl⟩ := h
    exact Function.update_of_ne (hne _ hx) _ _

/-- Whatever happens outside, the account of a record stays what the list relies on. -/
theorem External.lists (h : x.Happens rt c c') (hl : c.Lists r) :
    c'.Lists r ∧ c'.voterOf r.stakeAccount = c.voterOf r.stakeAccount := by
  obtain ⟨hmanaged, account, d, ha, hd, hdeactivated⟩ := hl
  obtain ⟨account', ha', hfollows⟩ := External.follows h hmanaged ha
  obtain ⟨d', hd', hdelegation⟩ := hfollows.exists_delegation hd
  obtain ⟨_, hself, hstaker, hwithdrawer⟩ := hmanaged
  obtain rfl := Option.some.inj (hself.symm.trans ha)
  refine ⟨⟨⟨account', ha', ?_, ?_⟩, account', d', ha', hd', fun hr ↦ ?_⟩, ?_⟩
  · rw [hfollows.meta_eq, hstaker]
  · rw [hfollows.meta_eq, hwithdrawer]
  · exact hdelegation.deactivated (hdeactivated hr)
  · rw [Chain.voterOf_eq ha' hd', Chain.voterOf_eq ha hd, hdelegation.voter_eq]

theorem External.recorded (h : x.Happens rt w.toChain w'.toChain) (hs : w'.state = w.state)
    (hr : Recorded w) : Recorded w' where
  listed r hmem := by
    rw [hs] at hmem
    exact (External.lists h (hr.listed r hmem)).1
  distinct := by
    rw [hs]
    exact hr.distinct

theorem External.booked (h : x.Happens rt w.toChain w'.toChain) (hs : w'.state = w.state)
    (hb : Booked w) : Booked w' := by
  refine ⟨External.recorded h hs hb.toRecorded, ?_, ?_, ?_, ?_, ?_⟩ <;> rw [hs]
  · exact hb.done
  · exact hb.tracked
  · exact hb.total_eq
  · exact hb.cooling_eq
  · intro vote
    rw [hb.validators_eq]
    refine total_congr fun r hr ↦ ?_
    rw [Chain.activeFor, Chain.activeFor, (External.lists h (hb.listed r hr)).2]

/-! ## Every step -/

theorem Recorded.step (h : Recorded w) (hw : WellFormed rt w) (hs : Step rt w l w') :
    Recorded w' := by
  cases l with
  | instruction i e =>
    obtain ⟨_, _, _, hm⟩ := (executed_of_exec hs hw.stakes_sound).moved hw h.listed
    exact hm.recorded h
  | external x => exact External.recorded hs.1 hs.2 h

theorem Booked.step (h : Booked w) (hw : WellFormed rt w) (hs : Step rt w l w') : Booked w' := by
  cases l with
  | instruction i e =>
    obtain ⟨_, _, _, hm⟩ := (executed_of_exec hs hw.stakes_sound).moved hw h.listed
    exact hm.booked h
  | external x => exact External.booked hs.1 hs.2 h

theorem Fresh.booked (h : Fresh rt w) : Booked w := by
  obtain ⟨accounts, data, c, -, hp⟩ := h
  have hs := Initialize.process_spec hp
  obtain ⟨hdelayed, hemergency, htotal, -⟩ := hs.books
  refine ⟨⟨?_, ?_⟩, hs.done, ?_, ?_, fun em ↦ ?_, fun vote ↦ ?_⟩ <;> rw [hs.records_eq]
  · simp
  · exact .nil
  · simp
  · rw [htotal, total_nil]
  · rw [State.coolingDown, hdelayed, hemergency, ite_self, total_nil]
  · rw [hs.validators_eq, total_nil, total_nil]

/-- In every reachable state the books agree with the records. -/
theorem booked_of_reachable (h : (marinade rt).Reachable w) : Booked w :=
  h.induct_of (Q := WellFormed rt) (fun _ ↦ wellFormed_of_reachable) (fun _ hi _ ↦ hi.booked)
    fun _ _ _ hw _ hb hs ↦ hb.step hw hs

/-! ## Validators -/

/-- The list is about the same validators. -/
theorem Registered.of_map_eq (h : Registered w) (hflags : w'.flags = w.flags)
    (hmap : w'.state.validatorSystem.records.map (·.validatorAccount)
      = w.state.validatorSystem.records.map (·.validatorAccount)) : Registered w' where
  distinct := by
    rw [KeysDistinct, hmap]
    exact h.distinct
  flagged v hv := by
    have hmem := List.mem_map_of_mem (f := (·.validatorAccount)) hv
    rw [hmap] at hmem
    obtain ⟨v', hv', hkey⟩ := List.mem_map.mp hmem
    rw [hflags, ← hkey]
    exact h.flagged v' hv'

/-- The loop changes nothing of a validator but its balances. -/
theorem iterate_map_eq {κ : Type} (key : ValidatorRecord → κ) {n j left j' left' : ℕ}
    {vs vs' : ValidatorSystem}
    (hkey : ∀ v x y,
      key { v with activeBalance := x, delinquentUpgraderActiveBalance := y } = key v)
    (h : FinalizeDelinquentUpgrade.iterate n vs j left = .ok (vs', j', left')) :
    vs'.records.map key = vs.records.map key := by
  refine FinalizeDelinquentUpgrade.iterate_induct
    (P := fun vs₁ _ _ ↦ vs₁.records.map key = vs.records.map key) ?_ h rfl
  intro vs₁ _ _ vs₂ _ hP hv
  obtain ⟨v, hv, -, -, -, hset⟩ := FinalizeDelinquentUpgrade.visit_spec hv
  rw [hset, ValidatorRecord.settled, map_key_set hv (hkey v _ _), hP]

theorem AddValidator.Spec.registered {accounts score topUp}
    (h : AddValidator.Spec accounts score w w' topUp) (hr : Registered w) : Registered w' where
  distinct := by
    rw [h.validators_eq]
    refine hr.distinct.append_singleton fun v hv heq ↦ ?_
    -- its flag would exist already
    have hflag := hr.flagged v hv
    rw [heq, h.not_flagged] at hflag
    cases hflag
  flagged v hv := by
    rw [h.flags_eq]
    rw [h.validators_eq, List.mem_append, List.mem_singleton] at hv
    by_cases heq : v.validatorAccount = accounts.validatorVote
    · rw [heq, Function.update_self]
    · rw [Function.update_of_ne heq]
      rcases hv with hv | rfl
      · exact hr.flagged v hv
      · exact absurd rfl heq

theorem RemoveValidator.Spec.registered {accounts index}
    (h : RemoveValidator.Spec accounts index vote w w' v) (hr : Registered w) :
    Registered w' where
  distinct := by
    rw [h.validators_eq]
    exact hr.distinct.swapRemove h.validator
  flagged v' hv := by
    rw [h.validators_eq, (swapRemove_perm h.validator).mem_iff] at hv
    have hne := hr.distinct.ne_of_mem_eraseIdx h.validator hv
    rw [h.validator_key] at hne
    rw [h.flags_eq, Function.update_of_ne hne]
    exact hr.flagged v' (List.mem_of_mem_eraseIdx hv)

/-- The validators stay different and flagged. -/
theorem Executed.registered (h : Executed rt w w' i e) (hr : Registered w) : Registered w' := by
  cases h with
  | addValidator h => exact h.registered hr
  | removeValidator h => exact h.registered hr
  | depositStakeAccount h =>
    refine hr.of_map_eq (by rw [h.frame]) ?_
    rw [h.validators_eq]
    refine map_key_set h.validator ?_
    rw [DepositStakeAccount.maintainUpgrader_validator h.upgrade]
  | withdrawStakeAccount h =>
    exact hr.of_map_eq (by rw [h.frame]) (by rw [h.validators_eq, map_key_set h.validator (by rfl)])
  | stakeReserve h =>
    exact hr.of_map_eq (by rw [h.frame]) (by rw [h.validators_eq, map_key_set h.validator (by rfl)])
  | unstakedWhole h =>
    have hset := h.validators_eq
    exact hr.of_map_eq (by rw [h.frame]) (by rw [hset, map_key_set h.validator (by rfl)])
  | unstakedSplit h =>
    have hset := h.validators_eq
    exact hr.of_map_eq (by rw [h.frame]) (by rw [hset, map_key_set h.validator (by rfl)])
  | mergeStakes h =>
    exact hr.of_map_eq (by rw [h.frame]) (by rw [h.validators_eq, map_key_set h.validator (by rfl)])
  | updateActive h =>
    exact hr.of_map_eq (by rw [h.frame])
      (by rw [h.validators_eq, map_key_set h.validator (by rw [h.validator_eq])])
  | updateDeactivated h =>
    refine hr.of_map_eq (by rw [h.frame]) ?_
    rw [h.validators_eq]
    split
    · exact map_key_set h.validator (by rfl)
    · rfl
  | setValidatorScore h =>
    exact hr.of_map_eq (by rw [h.frame]) (by rw [h.validators_eq, map_key_set h.validator (by rfl)])
  | finalizeDelinquentUpgrade h hframe =>
    obtain ⟨-, _, _, _, _, _, -, hiter, ⟨-, -, hs⟩ | ⟨-, hs⟩⟩ :=
      FinalizeDelinquentUpgrade.process_spec h
    · exact hr.of_map_eq (by rw [hframe])
        (by rw [hs]; exact iterate_map_eq _ (fun _ _ _ ↦ rfl) hiter)
    · exact hr.of_map_eq (by rw [hframe])
        (by rw [hs]; exact iterate_map_eq _ (fun _ _ _ ↦ rfl) hiter)
  | config _ books hframe => exact hr.of_map_eq (by rw [hframe]) (by rw [books.validators_eq])
  | realloc _ _ _ _ h => exact hr.of_map_eq (by rw [h.frame]) (by rw [h.books.validators_eq])
  | notStaked h =>
    obtain ⟨_, hstate⟩ := h.state_eq
    exact hr.of_map_eq (by rw [h.frame]) (by rw [hstate])
  | _ h => exact hr.of_map_eq (by rw [h.frame]) (by rw [h.state_eq])

/-- External events leave the flags alone. -/
theorem External.flags_eq (h : x.Happens rt c c') : c'.flags = c.flags := by
  cases x with
  | tick => obtain ⟨clock, -, -, rfl⟩ := h; rfl
  | outside => exact Outside.flags_eq h
  | reward => obtain ⟨_, _, -, -, -, rfl⟩ := h; rfl
  | slash => obtain ⟨_, _, _, -, -, -, -, -, rfl⟩ := h; rfl
  | deactivateDelinquent => obtain ⟨_, _, -, -, -, rfl⟩ := h; rfl

theorem Registered.step (h : Registered w) (hw : WellFormed rt w) (hs : Step rt w l w') :
    Registered w' := by
  cases l with
  | instruction i e => exact (executed_of_exec hs hw.stakes_sound).registered h
  | external x => exact h.of_map_eq (External.flags_eq hs.1) (by rw [hs.2])

theorem registered_of_reachable (h : (marinade rt).Reachable w) : Registered w := by
  refine h.induct_of (Q := WellFormed rt) (fun _ ↦ wellFormed_of_reachable) (fun w hi _ ↦ ?_)
    fun _ _ _ hw _ hr hs ↦ hr.step hw hs
  obtain ⟨accounts, data, c, -, hp⟩ := hi
  have hs := Initialize.process_spec hp
  constructor <;> rw [hs.validators_eq]
  · exact .nil
  · simp

/-- The balance of a validator is what the active records delegated to it add up to. -/
theorem Booked.activeBalance_eq (h : Booked w) (hr : Registered w)
    (hv : v ∈ w.state.validatorSystem.records) :
    v.activeBalance = total (w.activeFor v.validatorAccount) w.state.stakeSystem.records := by
  have hsum := hr.distinct.total_eq (g := (·.balanceOf v.validatorAccount)) hv
    fun b hb ↦ only_of_ne (Ne.symm hb) _
  rw [← h.validators_eq, hsum]
  exact (only_self _ _).symm

end

end Marinade
