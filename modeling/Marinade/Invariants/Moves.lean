import Marinade.Invariants.Soundness

/-!
# What a step does to the records

Every instruction that touches the stake list replaces a few records by others: a split turns one
into two, a merge two into one. Of the accounts behind the records it leaves alone it only may raise
the lamports. And once the upgrade is done, what the new records add to each total of the books is
what the old ones had in it.

`Moved` states this once. All invariants that are sums over the stake list follow from it.
-/

open Foundation Foundation.Ledger

namespace Marinade

/-! ## What the records add up to -/

/-- The validator an account is delegated to. -/
def Chain.voterOf (c : Chain) (k : Pubkey) : Option Pubkey :=
  (c.stakes k).bind fun account ↦ account.delegation.map (·.voterPubkey)

/-- The lockup of an account. -/
def Chain.lockupOf (c : Chain) (k : Pubkey) : Option Lockup :=
  (c.stakes k).map (·.stakeMeta.lockup)

namespace StakeRecord

/-- What a record adds to the active balance. -/
def activeAmount (r : StakeRecord) : ℕ :=
  if r.lastUpdateStatus = .active then r.lastUpdateDelegatedLamports else 0

/-- What a record adds to what is cooling down, in an emergency or not. -/
def coolingDown (emergency : Bool) (r : StakeRecord) : ℕ :=
  if r.lastUpdateStatus = .deactivating ∧ r.isEmergencyUnstaking = emergency then
    r.lastUpdateDelegatedLamports
  else 0

/-- The status is known, and only what is deactivating is in an emergency. -/
structure Tracked (r : StakeRecord) : Prop where
  known : r.lastUpdateStatus ≠ .unknown
  emergency : r.isEmergencyUnstaking = true → r.lastUpdateStatus = .deactivating

end StakeRecord

/-- What a record adds to the active balance of a validator. -/
def Chain.activeFor (c : Chain) (vote : Pubkey) (r : StakeRecord) : ℕ :=
  if c.voterOf r.stakeAccount = some vote then r.activeAmount else 0

/-- What a validator's record says the validator has, for one vote address. -/
def ValidatorRecord.balanceOf (vote : Pubkey) (v : ValidatorRecord) : ℕ :=
  only v.validatorAccount v.activeBalance vote

/-- What is cooling down, in an emergency or not. -/
def State.coolingDown (emergency : Bool) (s : State) : ℕ :=
  if emergency then s.emergencyCoolingDown else s.stakeSystem.delayedUnstakeCoolingDown

/-- What the list relies on: the account of a record is under the program's authorities and
delegated, and one that is recorded as deactivating really is. -/
structure Chain.Lists (c : Chain) (r : StakeRecord) : Prop where
  managed : c.Managed r.stakeAccount
  delegated : ∃ account d, c.stakes r.stakeAccount = some account ∧
    account.delegation = some d ∧
    (r.lastUpdateStatus = .deactivating → d.deactivationEpoch ≠ epochMax)

/-- The lamports that the account of a record lacks for its rent and the recorded delegation. -/
def Chain.deficit (rt : Runtime) (c : Chain) (r : StakeRecord) : ℕ :=
  rt.stakeRent + r.lastUpdateDelegatedLamports - c.lamportsOf r.stakeAccount

/-! ## Moves -/

/-- Once the upgrade is done, the books follow the records. -/
structure Balanced (w w' : World) (olds news : List StakeRecord) : Prop where
  done : w'.state.delinquentUpgrader = .done
  tracked : ∀ r ∈ news, r.Tracked
  total_eq : w'.state.validatorSystem.totalActiveBalance + total (·.activeAmount) olds
    = w.state.validatorSystem.totalActiveBalance + total (·.activeAmount) news
  cooling_eq : ∀ emergency, w'.state.coolingDown emergency + total (·.coolingDown emergency) olds
    = w.state.coolingDown emergency + total (·.coolingDown emergency) news
  validators_eq : ∀ vote, total (·.balanceOf vote) w'.state.validatorSystem.records
      + total (w.activeFor vote) olds
    = total (·.balanceOf vote) w.state.validatorSystem.records + total (w'.activeFor vote) news

/-- A step replaces the records `olds` by `news` and keeps the `rest`. -/
structure Moved (rt : Runtime) (w w' : World) (olds news rest : List StakeRecord) : Prop where
  replaced : Replaced w.state.stakeSystem.records w'.state.stakeSystem.records olds news rest
  stakes_frame : ∀ k, w.Managed k → (∀ r ∈ olds, r.stakeAccount ≠ k) → w'.stakes k = w.stakes k
  lamports_frame : ∀ k, w.stakes k ≠ none → (∀ r ∈ olds, r.stakeAccount ≠ k) →
    w.lamportsOf k ≤ w'.lamportsOf k
  listed : ∀ r ∈ news, w'.Lists r
  voters : ∀ r ∈ news, ∃ v ∈ w.state.validatorSystem.records,
    w'.voterOf r.stakeAccount = some v.validatorAccount
  distinct : KeysDistinct (·.stakeAccount) news
  fresh : ∀ r ∈ news, (∃ r' ∈ olds, r'.stakeAccount = r.stakeAccount) ∨ ¬w.Managed r.stakeAccount
  deficit_le : total (w'.deficit rt) news ≤ total (w.deficit rt) olds
  /-- Lockups are handed on, or they are not in force. -/
  lockups : ∀ r ∈ news, (∃ r' ∈ olds, w'.lockupOf r.stakeAccount = w.lockupOf r'.stakeAccount) ∨
    ∃ lockup : Lockup, w'.lockupOf r.stakeAccount = some lockup ∧
      (lockup = .default ∨ lockup.isInForce w.clock = false)
  balanced : w.state.delinquentUpgrader = .done → (∀ r ∈ olds, r.Tracked) → Balanced w w' olds news

section

variable {rt : Runtime} {c c' : Chain} {w w' : World} {k k' vote vote' : Pubkey}
  {account : StakeAccount} {d : Delegation} {r : StakeRecord} {v v' : ValidatorRecord}
  {i : Instruction} {e : Event} {x y j : ℕ} {vs : List ValidatorRecord}

/-! ## Small facts -/

theorem Chain.voterOf_eq (ha : c.stakes k = some account) (hd : account.delegation = some d) :
    c.voterOf k = some d.voterPubkey := by
  rw [voterOf, ha, Option.bind_some, hd, Option.map_some]

/-- A record counts for the validator its account is delegated to. -/
theorem Chain.voterOf_record (hkey : r.stakeAccount = k) (ha : c.stakes k = some account)
    (hd : account.delegation = some d) (hv : d.voterPubkey = vote) :
    c.voterOf r.stakeAccount = some vote := by
  rw [hkey, voterOf_eq ha hd, hv]

theorem Chain.voterOf_congr (h : c'.stakes k = c.stakes k) : c'.voterOf k = c.voterOf k := by
  rw [voterOf, voterOf, h]

theorem Chain.lockupOf_record (hkey : r.stakeAccount = k) (ha : c.stakes k = some account) :
    c.lockupOf r.stakeAccount = some account.stakeMeta.lockup := by
  rw [lockupOf, hkey, ha, Option.map_some]

theorem Chain.lockupOf_congr (h : c'.stakes k = c.stakes k) : c'.lockupOf k = c.lockupOf k := by
  rw [lockupOf, lockupOf, h]

/-- What a record adds goes to the validator its account is delegated to. -/
theorem Chain.activeFor_eq (h : c.voterOf r.stakeAccount = some vote') :
    c.activeFor vote r = only vote' r.activeAmount vote := by
  refine if_congr ?_ rfl rfl
  rw [h, Option.some.injEq]
  exact eq_comm

theorem Chain.Managed.stakes_ne_none (h : c.Managed k) : c.stakes k ≠ none := by
  obtain ⟨account, ha, -⟩ := h
  simp [ha]

theorem Chain.not_managed_of_stakes (h : c.stakes k = none) : ¬c.Managed k :=
  fun hm ↦ hm.stakes_ne_none h

theorem Chain.deficit_eq_zero (h : rt.stakeRent + r.lastUpdateDelegatedLamports
    ≤ c.lamportsOf r.stakeAccount) : c.deficit rt r = 0 :=
  Nat.sub_eq_zero_of_le h

/-- An account with the same authorities and the same voter still is what a record relies on. -/
theorem Chain.Lists.of_stakes (h : c.Lists r)
    (hs : c'.stakes r.stakeAccount = c.stakes r.stakeAccount) :
    c'.Lists r := by
  obtain ⟨⟨account, ha, hauth⟩, delegated⟩ := h
  exact ⟨⟨account, hs.trans ha, hauth⟩, by rwa [hs]⟩

/-- A record whose account only got another delegation. -/
theorem Chain.Lists.of_delegation {r' : StakeRecord} {d' : Delegation} (h : c.Lists r)
    (hk : r.stakeAccount = k) (hk' : r'.stakeAccount = k) (ha : c.stakes k = some account)
    (ha' : c'.stakes k = some { account with delegation := some d' })
    (hd : r'.lastUpdateStatus = .deactivating → d'.deactivationEpoch ≠ epochMax) :
    c'.Lists r' := by
  obtain ⟨⟨a, hm, hauth⟩, -⟩ := h
  rw [hk, ha, Option.some.injEq] at hm
  subst hm
  rw [← hk'] at ha'
  exact ⟨⟨_, ha', hauth⟩, ⟨_, _, ha', rfl, hd⟩⟩

/-- The delegation of a record's account. -/
theorem Chain.Lists.deactivating (h : c.Lists r) (hk : r.stakeAccount = k)
    (ha : c.stakes k = some account) (hd : account.delegation = some d)
    (hr : r.lastUpdateStatus = .deactivating) : d.deactivationEpoch ≠ epochMax := by
  obtain ⟨a, d', ha', hd', hne⟩ := h.delegated
  rw [hk, ha, Option.some.injEq] at ha'
  subst ha'
  rw [hd, Option.some.injEq] at hd'
  subst hd'
  exact hne hr

theorem clock_epoch_ne (clock : Clock) : clock.epoch ≠ epochMax :=
  clock.epoch_lt.ne

theorem Chain.ne_of_managed (hk : c.Managed k) (h : c.stakes k' = none) : k ≠ k' := by
  rintro rfl
  exact hk.stakes_ne_none h

/-- A change of one field of one validator. -/
theorem total_only_set {f : ValidatorRecord → ℕ} {u : ValidatorRecord} (hv : vs[j]? = some v)
    (hkey : u.validatorAccount = v.validatorAccount) (hfield : f u + x = f v + y)
    (vote : Pubkey) :
    total (fun v ↦ only v.validatorAccount (f v) vote) (vs.set j u)
        + only v.validatorAccount x vote
      = total (fun v ↦ only v.validatorAccount (f v) vote) vs
        + only v.validatorAccount y vote := by
  have hset := total_set (g := fun v ↦ only v.validatorAccount (f v) vote) hv u
  have hadd := congrArg (only v.validatorAccount · vote) hfield
  simp only [only_add] at hadd
  simp only [hkey] at hset ⊢
  omega

/-- A change of one validator's balance. -/
theorem total_balanceOf_set {u : ValidatorRecord} (hv : vs[j]? = some v)
    (hkey : u.validatorAccount = v.validatorAccount)
    (hbal : u.activeBalance + x = v.activeBalance + y) (vote : Pubkey) :
    total (·.balanceOf vote) (vs.set j u) + only v.validatorAccount x vote
      = total (·.balanceOf vote) vs + only v.validatorAccount y vote :=
  total_only_set hv hkey hbal vote

/-! ## Instructions that leave the list alone -/

/-- A step that changes no record, no stake account and no total, and takes no lamports. -/
theorem Moved.idle (hrecords : w'.state.stakeSystem.records = w.state.stakeSystem.records)
    (hstakes : w'.stakes = w.stakes)
    (hle : ∀ k, w.stakes k ≠ none → w.lamportsOf k ≤ w'.lamportsOf k)
    (hbalanced : w.state.delinquentUpgrader = .done → Balanced w w' [] []) :
    Moved rt w w' [] [] w.state.stakeSystem.records where
  replaced := by rw [hrecords]; exact .refl _
  stakes_frame k _ _ := by rw [hstakes]
  lamports_frame k hk _ := hle k hk
  listed := by simp
  voters := by simp
  distinct := .nil
  fresh := by simp
  deficit_le := le_rfl
  lockups := by simp
  balanced hdone _ := hbalanced hdone

/-- No total changes. -/
theorem Balanced.idle (hdone : w'.state.delinquentUpgrader = .done)
    (htotal : w'.state.validatorSystem.totalActiveBalance
      = w.state.validatorSystem.totalActiveBalance)
    (hcooling : ∀ emergency, w'.state.coolingDown emergency = w.state.coolingDown emergency)
    (hvalidators : ∀ vote, total (·.balanceOf vote) w'.state.validatorSystem.records
      = total (·.balanceOf vote) w.state.validatorSystem.records) : Balanced w w' [] [] where
  done := hdone
  tracked := by simp
  total_eq := by rw [htotal]
  cooling_eq emergency := by rw [hcooling]
  validators_eq vote := by rw [hvalidators, total_nil, total_nil]

/-- A step that leaves everything about stake as it is, in the books and on the chain. -/
theorem Moved.of_sameStakeBooks (h : w.state.SameStakeBooks w'.state)
    (hstakes : w'.stakes = w.stakes)
    (hle : ∀ k, w.stakes k ≠ none → w.lamportsOf k ≤ w'.lamportsOf k) :
    Moved rt w w' [] [] w.state.stakeSystem.records :=
  .idle h.records_eq hstakes hle fun hdone ↦ .idle (h.upgrader_eq.trans hdone) h.total_eq
    (fun _ ↦ by rw [State.coolingDown, State.coolingDown, h.emergency_eq, h.delayed_eq])
    fun _ ↦ by rw [h.validators_eq]

theorem AddValidator.Spec.balanced {accounts score topUp}
    (h : AddValidator.Spec accounts score w w' topUp) : Balanced w w' [] [] := by
  obtain ⟨_, hs⟩ := h.state_eq
  refine .idle (by rw [hs]; exact h.done) (by rw [hs]) (fun _ ↦ by rw [hs]; rfl) fun vote ↦ ?_
  rw [h.validators_eq, total_append, total_cons, total_nil, ValidatorRecord.balanceOf, only_zero]
  rfl

theorem RemoveValidator.Spec.balanced {accounts i vote}
    (h : RemoveValidator.Spec accounts i vote w w' v) : Balanced w w' [] [] := by
  obtain ⟨_, hs⟩ := h.state_eq
  refine .idle (by rw [hs]; exact h.done) (by rw [hs]) (fun _ ↦ by rw [hs]; rfl) fun vote ↦ ?_
  have hremove := total_swapRemove (g := (·.balanceOf vote)) h.validator
  rw [ValidatorRecord.balanceOf, h.empty, only_zero, Nat.add_zero] at hremove
  rw [h.validators_eq, hremove]

theorem SetValidatorScore.Spec.balanced {i score}
    (h : SetValidatorScore.Spec i score w w' v)
    (hdone : w.state.delinquentUpgrader = .done) : Balanced w w' [] [] := by
  obtain ⟨_, hs⟩ := h.state_eq
  refine .idle (by rw [hs]; exact hdone) (by rw [hs]) (fun _ ↦ by rw [hs]; rfl) fun vote ↦ ?_
  have hset := total_balanceOf_set (x := 0) (y := 0) (u := { v with score }) h.validator rfl rfl
    vote
  rw [only_zero, Nat.add_zero, Nat.add_zero] at hset
  rw [h.validators_eq, hset]

/-! ## Instructions that change records -/

/-- The records of accounts with one voter add up to one amount for that voter. -/
theorem Chain.total_activeFor {l : List StakeRecord}
    (h : ∀ r ∈ l, c.voterOf r.stakeAccount = some vote') (vote : Pubkey) :
    total (c.activeFor vote) l = only vote' (total (·.activeAmount) l) vote := by
  induction l with
  | nil => simp
  | cons r l ih =>
    rw [total_cons, total_cons, only_add, activeFor_eq (h r (List.mem_cons_self ..)),
      ih fun r hr ↦ h r (List.mem_cons_of_mem _ hr)]

/-- A step about one validator, which loses `x` lamports of active stake and gets `y`. -/
theorem Balanced.of_validator {q : Pubkey} {olds news : List StakeRecord}
    (hdone : w'.state.delinquentUpgrader = .done) (htracked : ∀ r ∈ news, r.Tracked)
    (hcooling : ∀ emergency,
      w'.state.coolingDown emergency + total (·.coolingDown emergency) olds
        = w.state.coolingDown emergency + total (·.coolingDown emergency) news)
    (htotal : w'.state.validatorSystem.totalActiveBalance + x
      = w.state.validatorSystem.totalActiveBalance + y)
    (hvalidators : ∀ vote, total (·.balanceOf vote) w'.state.validatorSystem.records
        + only q x vote
      = total (·.balanceOf vote) w.state.validatorSystem.records + only q y vote)
    (hamount : total (·.activeAmount) olds + y = total (·.activeAmount) news + x)
    (holds : ∀ r ∈ olds, w.voterOf r.stakeAccount = some q)
    (hnews : ∀ r ∈ news, w'.voterOf r.stakeAccount = some q) : Balanced w w' olds news where
  done := hdone
  tracked := htracked
  total_eq := by omega
  cooling_eq := hcooling
  validators_eq vote := by
    have hsum := hvalidators vote
    have hadd := congrArg (only q · vote) hamount
    simp only [only_add] at hadd
    rw [Chain.total_activeFor holds, Chain.total_activeFor hnews]
    omega

@[simp] private theorem activeAmount_new {key : Pubkey} {clock : Clock} {em active : Bool} :
    (StakeRecord.new key x clock em active).activeAmount = if active then x else 0 := by
  cases active <;> rfl

@[simp] private theorem coolingDown_new {key : Pubkey} {clock : Clock} {em em' active : Bool} :
    (StakeRecord.new key x clock em active).coolingDown em'
      = if active = false ∧ em = em' then x else 0 := by
  cases active <;> simp [StakeRecord.coolingDown, StakeRecord.new]

theorem DepositStakeAccount.Spec.voterOf_eq {accounts j e}
    (h : DepositStakeAccount.Spec accounts j w w' e account d v v') :
    w'.voterOf accounts.stakeAccount = some v.validatorAccount := by
  obtain ⟨lockup, -, hstakes⟩ := h.stakes_eq
  rw [h.voter]
  have hself : w'.stakes accounts.stakeAccount = some ⟨⟨account.stakeMeta.rentExemptReserve,
      .stakeDepositAuthority, .stakeWithdrawAuthority, lockup⟩, some d⟩ := by
    rw [hstakes, Function.update_self]
  exact Chain.voterOf_eq hself rfl

theorem DepositStakeAccount.Spec.moved {accounts j e}
    (h : DepositStakeAccount.Spec accounts j w w' e account d v v') (hs : w.StakesSound rt) :
    Moved rt w w' [] [.new accounts.stakeAccount d.stake w.clock false true]
      w.state.stakeSystem.records := by
  obtain ⟨lockup, hlockup, hstakes⟩ := h.stakes_eq
  have hself : w'.stakes accounts.stakeAccount = some ⟨⟨account.stakeMeta.rentExemptReserve,
      .stakeDepositAuthority, .stakeWithdrawAuthority, lockup⟩, some d⟩ := by
    rw [hstakes, Function.update_self]
  have hforeign : ¬w.Managed accounts.stakeAccount := by
    rintro ⟨a, ha, hstaker, -⟩
    rw [h.account_eq, Option.some.injEq] at ha
    subst ha
    exact h.foreign hstaker
  have hold := hs _ _ h.account_eq
  have hvoters : ∀ r' ∈ [StakeRecord.new accounts.stakeAccount d.stake w.clock false true],
      w'.voterOf r'.stakeAccount = some v.validatorAccount := by
    simp only [List.mem_singleton, forall_eq]
    exact h.voterOf_eq
  exact {
    replaced := by rw [h.records_eq]; exact .append _ _
    stakes_frame := fun k hk _ ↦ by
      rw [hstakes, Function.update_of_ne]
      rintro rfl
      exact hforeign hk
    lamports_frame := fun k _ _ ↦ by rw [h.frame]
    listed := by
      simp only [List.mem_singleton, forall_eq]
      exact ⟨⟨_, hself, rfl, rfl⟩, ⟨_, _, hself, rfl, by simp [StakeRecord.new]⟩⟩
    voters := fun r' hr' ↦ ⟨v, List.mem_of_getElem? h.validator, hvoters r' hr'⟩
    distinct := by simp [KeysDistinct]
    fresh := by
      simp only [List.mem_singleton, forall_eq]
      exact .inr hforeign
    deficit_le := by
      rw [total_cons, total_nil, total_nil, Chain.deficit_eq_zero]
      rw [h.frame]
      have := hold.funded d h.delegation_eq
      change rt.stakeRent + d.stake ≤ w.lamportsOf accounts.stakeAccount
      omega
    lockups := by
      simp only [List.mem_singleton, forall_eq]
      exact .inr ⟨lockup, Chain.lockupOf_record (by rfl) hself, hlockup⟩
    balanced := fun hdone _ ↦ by
      have hup := h.upgrade
      rw [hdone] at hup
      simp only [maintainUpgrader, Except.ok.injEq, Prod.mk.injEq] at hup
      obtain ⟨hphase, rfl⟩ := hup
      refine .of_validator (x := 0) (y := d.stake) hphase.symm ?_ (fun em ↦ ?_) ?_ (fun vote ↦ ?_)
        ?_ (by simp) ?_ (q := v.validatorAccount)
      · simp only [List.mem_singleton, forall_eq]
        exact ⟨by simp [StakeRecord.new], by simp [StakeRecord.new]⟩
      · rw [h.state_eq]
        simp [State.coolingDown]
      · rw [h.state_eq]
        rfl
      · rw [h.validators_eq]
        exact total_balanceOf_set h.validator (by rfl) (by rfl) vote
      · simp
      · exact hvoters }

/-- Two accounts are overwritten, and the second one was empty: others keep what they have. -/
private theorem stakes_frame_of_update_update {src dst : Pubkey} {o o' : Option StakeAccount}
    (hstakes : w'.stakes = Function.update (Function.update w.stakes src o) dst o')
    (hk : w.Managed k) (hdst : w.stakes dst = none) (hne : src ≠ k) :
    w'.stakes k = w.stakes k := by
  rw [hstakes, Function.update_of_ne (Chain.ne_of_managed hk hdst), Function.update_of_ne hne.symm]

theorem WithdrawStakeAccount.Spec.moved {accounts i j x beneficiary e topUp}
    (h : WithdrawStakeAccount.Spec rt accounts i j x beneficiary w w' e account d r v topUp)
    (hl : w.Lists r) :
    Moved rt w w' [r] [{ r with
        lastUpdateDelegatedLamports := r.lastUpdateDelegatedLamports - e.splitLamports }]
      (w.state.stakeSystem.records.eraseIdx i) := by
  have hsrc : w.stakes accounts.stakeAccount ≠ none := by simp [h.account_eq]
  have hdst : w.stakes accounts.splitStakeAccount = none :=
    Chain.stakes_eq_none_of_isUnused h.split_unused
  have hne : accounts.stakeAccount ≠ accounts.splitStakeAccount :=
    Chain.ne_of_isUnused hsrc h.split_unused
  have hself : w'.stakes accounts.stakeAccount = some { account with
      delegation := some { d with stake := d.stake - e.splitLamports } } := by
    rw [h.stakes_eq, Function.update_of_ne hne, Function.update_self]
  have hlockup : w'.lockupOf r.stakeAccount = w.lockupOf r.stakeAccount :=
    (Chain.lockupOf_record h.record_key hself).trans
      (Chain.lockupOf_record h.record_key h.account_eq).symm
  have hrem := h.remainder
  have hvoters : ∀ r' ∈ ([{ r with
      lastUpdateDelegatedLamports := r.lastUpdateDelegatedLamports - e.splitLamports }] :
        List StakeRecord),
      w'.voterOf r'.stakeAccount = some v.validatorAccount := by
    simp only [List.mem_singleton, forall_eq]
    exact Chain.voterOf_record h.record_key hself rfl h.voter
  exact {
    replaced := by rw [h.records_eq]; exact .set h.record _
    stakes_frame := fun k hk hold ↦ by
      refine stakes_frame_of_update_update h.stakes_eq hk hdst ?_
      rw [← h.record_key]
      exact hold r (List.mem_singleton_self r)
    lamports_frame := fun k hk hold ↦ by
      refine h.stake_le hk ?_
      rw [← h.record_key]
      exact (hold r (List.mem_singleton_self r)).symm
    listed := by
      simp only [List.mem_singleton, forall_eq]
      refine hl.of_delegation h.record_key h.record_key h.account_eq hself fun hr ↦ ?_
      rw [h.record_active] at hr
      cases hr
    voters := fun r' hr' ↦ ⟨v, List.mem_of_getElem? h.validator, hvoters r' hr'⟩
    distinct := by simp [KeysDistinct]
    fresh := by
      simp only [List.mem_singleton, forall_eq]
      exact .inl ⟨r, rfl, rfl⟩
    deficit_le := by
      have hlam := h.lamports_eq accounts.stakeAccount
      rw [only_of_ne (Chain.ne_of_isUnused hsrc h.payer_unused), only_self, only_of_ne hne] at hlam
      simp only [total_cons, total_nil, Chain.deficit, h.record_key]
      omega
    lockups := by
      simp only [List.mem_singleton, forall_eq]
      exact .inl ⟨r, rfl, hlockup⟩
    balanced := fun hdone htracked ↦ by
      refine .of_validator (x := e.splitLamports) (y := 0) (q := v.validatorAccount) ?_ ?_
        (fun em ↦ ?_) ?_ (fun vote ↦ ?_) ?_ ?_ ?_
      · rw [h.state_eq]
        exact hdone
      · simp only [List.mem_singleton, forall_eq] at htracked ⊢
        exact ⟨htracked.known, htracked.emergency⟩
      · rw [h.state_eq]
        simp [State.coolingDown, StakeRecord.coolingDown, h.record_active]
      · rw [h.state_eq]
        exact Nat.sub_add_cancel h.total_balance
      · rw [h.validators_eq]
        exact total_balanceOf_set h.validator (by rfl)
          (by exact Nat.sub_add_cancel h.validator_balance) vote
      · simp only [total_cons, total_nil, StakeRecord.activeAmount, h.record_active, if_true]
        omega
      · simp only [List.mem_singleton, forall_eq]
        exact Chain.voterOf_record h.record_key h.account_eq h.delegation_eq h.voter
      · exact hvoters }

theorem StakeReserve.Spec.moved {accounts j topUp}
    (h : StakeReserve.Spec rt accounts j w w' v x topUp) (hs : w.StakesSound rt) :
    Moved rt w w' [] [.new accounts.stakeAccount x w.clock false true]
      w.state.stakeSystem.records := by
  have hnone := Chain.stakes_eq_none_of_isUnused h.unused
  have hself : w'.stakes accounts.stakeAccount = some ⟨⟨rt.stakeRent, .stakeDepositAuthority,
      .stakeWithdrawAuthority, .default⟩, some ⟨accounts.validatorVote,
        w'.lamportsOf accounts.stakeAccount - rt.stakeRent, w.clock.epoch, epochMax⟩⟩ := by
    rw [h.stakes_eq, Function.update_self]
  have hvoters : ∀ r' ∈ [StakeRecord.new accounts.stakeAccount x w.clock false true],
      w'.voterOf r'.stakeAccount = some v.validatorAccount := by
    simp only [List.mem_singleton, forall_eq]
    rw [h.voter]
    exact Chain.voterOf_eq hself rfl
  exact {
    replaced := by rw [h.records_eq]; exact .append _ _
    stakes_frame := fun k hk _ ↦ by
      rw [h.stakes_eq, Function.update_of_ne (Chain.ne_of_managed hk hnone)]
    lamports_frame := fun k hk _ ↦ h.stake_le hs hk
    listed := by
      simp only [List.mem_singleton, forall_eq]
      exact ⟨⟨_, hself, rfl, rfl⟩, ⟨_, _, hself, rfl, by simp [StakeRecord.new]⟩⟩
    voters := fun r' hr' ↦ ⟨v, List.mem_of_getElem? h.validator, hvoters r' hr'⟩
    distinct := by simp [KeysDistinct]
    fresh := by
      simp only [List.mem_singleton, forall_eq]
      exact .inr (Chain.not_managed_of_stakes hnone)
    deficit_le := by
      rw [total_cons, total_nil, total_nil, Chain.deficit_eq_zero]
      exact h.rent_covered
    lockups := by
      simp only [List.mem_singleton, forall_eq]
      exact .inr ⟨.default, Chain.lockupOf_record (by rfl) hself, .inl rfl⟩
    balanced := fun _ _ ↦ by
      obtain ⟨_, hstate⟩ := h.state_eq
      refine .of_validator (x := 0) (y := x) (q := v.validatorAccount) ?_ ?_ (fun em ↦ ?_) ?_
        (fun vote ↦ ?_) ?_ (by simp) ?_
      · rw [hstate]
        exact h.done
      · simp only [List.mem_singleton, forall_eq]
        exact ⟨by simp [StakeRecord.new], by simp [StakeRecord.new]⟩
      · rw [hstate]
        simp [State.coolingDown]
      · rw [hstate]
        rfl
      · rw [h.validators_eq]
        exact total_balanceOf_set h.validator (by rfl) (by rfl) vote
      · simp
      · exact hvoters }

/-- What is unstaked turns from active into cooling down. -/
private theorem Unstaked.cooling_eq {emergency : Bool} {stakeAccount i j epoch}
    (h : Unstaked emergency stakeAccount i j w w' account d r v x epoch) (em : Bool) :
    w'.state.coolingDown em = w.state.coolingDown em + if emergency = em then x else 0 := by
  obtain ⟨_, _, _, hstate⟩ := h.state_eq
  rw [hstate]
  cases em <;> cases emergency <;> simp [State.coolingDown]

private theorem Unstaked.total_eq {emergency : Bool} {stakeAccount i j epoch}
    (h : Unstaked emergency stakeAccount i j w w' account d r v x epoch) :
    w'.state.validatorSystem.totalActiveBalance + x
      = w.state.validatorSystem.totalActiveBalance + 0 := by
  obtain ⟨_, _, _, hstate⟩ := h.state_eq
  rw [hstate]
  exact Nat.sub_add_cancel h.total_balance

private theorem Unstaked.balanceOf_eq {emergency : Bool} {stakeAccount i j epoch}
    (h : Unstaked emergency stakeAccount i j w w' account d r v x epoch) (vote : Pubkey) :
    total (·.balanceOf vote) w'.state.validatorSystem.records + only v.validatorAccount x vote
      = total (·.balanceOf vote) w.state.validatorSystem.records
        + only v.validatorAccount 0 vote := by
  rw [h.validators_eq]
  exact total_balanceOf_set h.validator (by rfl) (by exact Nat.sub_add_cancel h.validator_balance)
    vote

private theorem Unstaked.done' {emergency : Bool} {stakeAccount i j epoch}
    (h : Unstaked emergency stakeAccount i j w w' account d r v x epoch) :
    w'.state.delinquentUpgrader = .done := by
  obtain ⟨_, _, _, hstate⟩ := h.state_eq
  rw [hstate]
  exact h.done

theorem UnstakedWhole.moved {signers emergency} {stakeAccount i j}
    (h : UnstakedWhole signers emergency stakeAccount i j w w' account d r v) (hl : w.Lists r) :
    Moved rt w w' [r] [{ r with
        lastUpdateStatus := .deactivating, isEmergencyUnstaking := emergency }]
      (w.state.stakeSystem.records.eraseIdx i) := by
  have hself : w'.stakes stakeAccount = some { account with
      delegation := some { d with deactivationEpoch := w.clock.epoch } } := by
    rw [h.stakes_eq, Function.update_self]
  have hsrc : w.stakes stakeAccount ≠ none := by simp [h.account_eq]
  have hvoters : ∀ r' ∈ ([{ r with
      lastUpdateStatus := .deactivating, isEmergencyUnstaking := emergency }] : List StakeRecord),
      w'.voterOf r'.stakeAccount = some v.validatorAccount := by
    simp only [List.mem_singleton, forall_eq]
    exact Chain.voterOf_record h.record_key hself rfl h.voter
  exact {
    replaced := by rw [h.records_eq]; exact .set h.record _
    stakes_frame := fun k hk hold ↦ by
      rw [h.stakes_eq, Function.update_of_ne]
      rw [← h.record_key]
      exact (hold r (List.mem_singleton_self r)).symm
    lamports_frame := fun k hk _ ↦ h.guarded_le k (Chain.guarded_of_stakes hk)
    listed := by
      simp only [List.mem_singleton, forall_eq]
      exact hl.of_delegation h.record_key h.record_key h.account_eq hself
        fun _ ↦ clock_epoch_ne w.clock
    voters := fun r' hr' ↦ ⟨v, List.mem_of_getElem? h.validator, hvoters r' hr'⟩
    distinct := by simp [KeysDistinct]
    fresh := by
      simp only [List.mem_singleton, forall_eq]
      exact .inl ⟨r, rfl, rfl⟩
    deficit_le := by
      have hlam := h.guarded_le _ (Chain.guarded_of_stakes hsrc)
      simp only [total_cons, total_nil, Chain.deficit, h.record_key]
      omega
    lockups := by
      simp only [List.mem_singleton, forall_eq]
      exact .inl ⟨r, rfl, (Chain.lockupOf_record h.record_key hself).trans
        (Chain.lockupOf_record h.record_key h.account_eq).symm⟩
    balanced := fun _ _ ↦ by
      refine .of_validator (x := r.lastUpdateDelegatedLamports) (y := 0)
        (q := v.validatorAccount) h.done' ?_ (fun em ↦ ?_) h.total_eq h.balanceOf_eq ?_ ?_ ?_
      · simp only [List.mem_singleton, forall_eq]
        exact ⟨by simp, fun _ ↦ rfl⟩
      · rw [h.cooling_eq]
        simp [StakeRecord.coolingDown, h.record_active]
      · simp [StakeRecord.activeAmount, h.record_active]
      · simp only [List.mem_singleton, forall_eq]
        exact Chain.voterOf_record h.record_key h.account_eq h.delegation_eq h.voter
      · exact hvoters }

theorem UnstakedSplit.moved {emergency : Bool} {stakeAccount dst payer i j topUp}
    (h : UnstakedSplit rt emergency stakeAccount dst payer i j w w' account d r v x topUp)
    (hl : w.Lists r) :
    Moved rt w w' [r] [{ r with
          lastUpdateDelegatedLamports := r.lastUpdateDelegatedLamports - x },
        .new dst x w.clock emergency false]
      (w.state.stakeSystem.records.eraseIdx i) := by
  have hsrc : w.stakes stakeAccount ≠ none := by simp [h.account_eq]
  have hdst : w.stakes dst = none := Chain.stakes_eq_none_of_isUnused h.split_unused
  have hne : stakeAccount ≠ dst := Chain.ne_of_isUnused hsrc h.split_unused
  have hself : w'.stakes stakeAccount = some { account with
      delegation := some { d with stake := d.stake - x } } := by
    rw [h.stakes_eq, Function.update_of_ne hne, Function.update_self]
  have hnew : w'.stakes dst = some ⟨{ account.stakeMeta with rentExemptReserve := rt.stakeRent },
      some { d with stake := x, deactivationEpoch := w.clock.epoch }⟩ := by
    rw [h.stakes_eq, Function.update_self]
  obtain ⟨a, ha, hauth⟩ := hl.managed
  rw [h.record_key, h.account_eq, Option.some.injEq] at ha
  subst ha
  have hlt := h.split_lt
  have hvoters : ∀ r' ∈ ([{ r with
      lastUpdateDelegatedLamports := r.lastUpdateDelegatedLamports - x },
      .new dst x w.clock emergency false] : List StakeRecord),
      w'.voterOf r'.stakeAccount = some v.validatorAccount := by
    simp only [List.mem_cons, List.not_mem_nil, or_false, forall_eq_or_imp, forall_eq]
    exact ⟨Chain.voterOf_record h.record_key hself rfl h.voter,
      Chain.voterOf_record rfl hnew rfl h.voter⟩
  exact {
    replaced := by rw [h.records_eq]; exact Replaced.append_set h.record _ _
    stakes_frame := fun k hk hold ↦ by
      refine stakes_frame_of_update_update h.stakes_eq hk hdst ?_
      rw [← h.record_key]
      exact hold r (List.mem_singleton_self r)
    lamports_frame := fun k hk hold ↦ by
      refine h.stake_le hk ?_
      rw [← h.record_key]
      exact (hold r (List.mem_singleton_self r)).symm
    listed := by
      simp only [List.mem_cons, List.not_mem_nil, or_false, forall_eq_or_imp, forall_eq]
      refine ⟨hl.of_delegation h.record_key h.record_key h.account_eq hself fun hr ↦ ?_, ?_⟩
      · rw [h.record_active] at hr
        cases hr
      · exact ⟨⟨_, hnew, hauth⟩, ⟨_, _, hnew, rfl, fun _ ↦ clock_epoch_ne w.clock⟩⟩
    voters := fun r' hr' ↦ ⟨v, List.mem_of_getElem? h.validator, hvoters r' hr'⟩
    distinct := by
      simp only [keysDistinct_cons, List.mem_singleton, forall_eq]
      refine ⟨?_, by simp, .nil⟩
      rw [h.record_key]
      exact hne.symm
    fresh := by
      simp only [List.mem_cons, List.not_mem_nil, or_false, forall_eq_or_imp, forall_eq]
      exact ⟨.inl ⟨r, rfl, rfl⟩, .inr (Chain.not_managed_of_stakes hdst)⟩
    deficit_le := by
      have hlam := h.lamports_eq stakeAccount
      rw [only_of_ne (Chain.ne_of_isUnused hsrc h.payer_unused), only_self, only_of_ne hne] at hlam
      have hcov := h.rent_covered
      simp only [total_cons, total_nil, Chain.deficit, h.record_key, StakeRecord.new]
      omega
    lockups := by
      have hold := (Chain.lockupOf_record h.record_key h.account_eq).symm
      simp only [List.mem_cons, List.not_mem_nil, or_false, forall_eq_or_imp, forall_eq]
      exact ⟨.inl ⟨r, rfl, (Chain.lockupOf_record h.record_key hself).trans hold⟩,
        .inl ⟨r, rfl, (Chain.lockupOf_record (by rfl) hnew).trans hold⟩⟩
    balanced := fun _ htracked ↦ by
      refine .of_validator (x := x) (y := 0) (q := v.validatorAccount) h.done' ?_ (fun em ↦ ?_)
        h.total_eq h.balanceOf_eq ?_ ?_ ?_
      · simp only [List.mem_cons, List.not_mem_nil, or_false, forall_eq_or_imp, forall_eq]
          at htracked ⊢
        exact ⟨⟨htracked.known, htracked.emergency⟩, by simp [StakeRecord.new],
          by simp [StakeRecord.new]⟩
      · rw [h.cooling_eq]
        simp [StakeRecord.coolingDown, h.record_active, StakeRecord.new]
      · simp only [total_cons, total_nil, StakeRecord.activeAmount, h.record_active, if_true]
        simp only [StakeRecord.new, Bool.false_eq_true, if_false, reduceCtorEq]
        omega
      · simp only [List.mem_singleton, forall_eq]
        exact Chain.voterOf_record h.record_key h.account_eq h.delegation_eq h.voter
      · exact hvoters }

theorem MergeStakes.Spec.moved {accounts i i' j srcAccount sd sr extra}
    (h : MergeStakes.Spec accounts i i' j w w' account srcAccount d sd r sr v extra)
    (hs : w.StakesSound rt) (hl : w.Lists r) :
    ∃ rest, Moved rt w w' [r, sr] [{ r with
      lastUpdateDelegatedLamports := d.stake + sd.stake + extra }] rest := by
  have hself : w'.stakes accounts.destinationStake = some { account with
      delegation := some { d with stake := d.stake + sd.stake + extra } } := by
    rw [h.stakes_eq, Function.update_self]
  obtain ⟨rest, hreplaced⟩ := Replaced.set_swapRemove h.record h.source_record h.index_ne
    { r with lastUpdateDelegatedLamports := d.stake + sd.stake + extra }
  have hout : ∀ k, (∀ r' ∈ [r, sr], r'.stakeAccount ≠ k) →
      k ≠ accounts.destinationStake ∧ k ≠ accounts.sourceStake := by
    intro k hold
    rw [← h.record_key, ← h.source_key]
    exact ⟨(hold r (by simp)).symm, (hold sr (by simp)).symm⟩
  have hvoters : ∀ r' ∈ ([{ r with
      lastUpdateDelegatedLamports := d.stake + sd.stake + extra }] : List StakeRecord),
      w'.voterOf r'.stakeAccount = some v.validatorAccount := by
    simp only [List.mem_singleton, forall_eq]
    exact Chain.voterOf_record h.record_key hself rfl h.voter
  exact ⟨rest, {
    replaced := by rw [h.records_eq]; exact hreplaced
    stakes_frame := fun k _ hold ↦ by
      rw [h.stakes_eq, Function.update_of_ne (hout k hold).1, Function.update_of_ne (hout k hold).2]
    lamports_frame := fun k _ hold ↦ h.stake_le (hout k hold).1 (hout k hold).2
    listed := by
      simp only [List.mem_singleton, forall_eq]
      refine hl.of_delegation h.record_key h.record_key h.account_eq hself fun hr ↦ ?_
      rw [h.record_active] at hr
      cases hr
    voters := fun r' hr' ↦ ⟨v, List.mem_of_getElem? h.validator, hvoters r' hr'⟩
    distinct := by simp [KeysDistinct]
    fresh := by
      simp only [List.mem_singleton, forall_eq]
      exact .inl ⟨r, by simp, rfl⟩
    deficit_le := by
      -- the destination held its rent and delegation, and gets all that is delegated from now on
      have hfunded := (hs _ _ h.account_eq).funded d h.delegation_eq
      have hlam := h.lamports_eq accounts.destinationStake
      have hextra := h.extra_le
      rw [only_of_ne h.ne, only_self, only_self, h.source_lamports] at hlam
      rw [total_cons, total_nil, Chain.deficit_eq_zero]
      · exact Nat.zero_le _
      · simp only [h.record_key]
        omega
    lockups := by
      simp only [List.mem_singleton, forall_eq]
      exact .inl ⟨r, by simp, (Chain.lockupOf_record h.record_key hself).trans
        (Chain.lockupOf_record h.record_key h.account_eq).symm⟩
    balanced := fun hdone htracked ↦ by
      simp only [List.mem_cons, List.not_mem_nil, or_false, forall_eq_or_imp, forall_eq] at htracked
      refine .of_validator (x := 0) (y := extra) (q := v.validatorAccount) ?_ ?_ (fun em ↦ ?_) ?_
        (fun vote ↦ ?_) ?_ ?_ ?_
      · rw [h.state_eq]
        exact hdone
      · simp only [List.mem_singleton, forall_eq]
        exact ⟨htracked.1.known, htracked.1.emergency⟩
      · rw [h.state_eq]
        simp [State.coolingDown, StakeRecord.coolingDown, h.record_active, h.source_active]
      · rw [h.state_eq]
        rfl
      · rw [h.validators_eq]
        exact total_balanceOf_set h.validator (by rfl) (by rfl) vote
      · simp only [total_cons, total_nil, StakeRecord.activeAmount, h.record_active,
          h.source_active, if_true, h.updated, h.source_updated]
        omega
      · simp only [List.mem_cons, List.not_mem_nil, or_false, forall_eq_or_imp, forall_eq]
        exact ⟨Chain.voterOf_record h.record_key h.account_eq h.delegation_eq h.voter,
          Chain.voterOf_record h.source_key h.source_eq h.source_delegation_eq h.source_voter⟩
      · exact hvoters }⟩

theorem CreateCanonicalStake.Spec.moved {accounts i j swept}
    (h : CreateCanonicalStake.Spec rt accounts i j w w' account d r v swept)
    (hs : w.StakesSound rt) (hl : w.Lists r) :
    Moved rt w w' [r] [.new accounts.canonicalStake d.stake w.clock false true]
      (w.state.stakeSystem.records.eraseIdx i) := by
  have hself : w'.stakes accounts.canonicalStake
      = some ⟨{ account.stakeMeta with rentExemptReserve := rt.stakeRent }, some d⟩ := by
    rw [h.stakes_eq, Function.update_self]
  have hne : accounts.canonicalStake ≠ accounts.sourceStake := by
    intro heq
    have habsent := h.absent
    rw [heq, h.account_eq] at habsent
    cases habsent
  obtain ⟨a, ha, hauth⟩ := hl.managed
  rw [h.record_key, h.account_eq, Option.some.injEq] at ha
  subst ha
  have hvoters : ∀ r' ∈ [StakeRecord.new accounts.canonicalStake d.stake w.clock false true],
      w'.voterOf r'.stakeAccount = some v.validatorAccount := by
    simp only [List.mem_singleton, forall_eq]
    rw [← h.voter]
    exact Chain.voterOf_eq hself rfl
  exact {
    replaced := by rw [h.records_eq]; exact Replaced.append_swapRemove h.record _
    stakes_frame := fun k hk hold ↦ by
      refine stakes_frame_of_update_update h.stakes_eq hk h.absent ?_
      rw [← h.record_key]
      exact hold r (List.mem_singleton_self r)
    lamports_frame := fun k hk hold ↦ by
      refine h.stake_le hk ?_
      rw [← h.record_key]
      exact (hold r (List.mem_singleton_self r)).symm
    listed := by
      simp only [List.mem_singleton, forall_eq]
      exact ⟨⟨_, hself, hauth⟩, ⟨_, _, hself, rfl, by simp [StakeRecord.new]⟩⟩
    voters := fun r' hr' ↦ ⟨v, List.mem_of_getElem? h.validator, hvoters r' hr'⟩
    distinct := by simp [KeysDistinct]
    fresh := by
      simp only [List.mem_singleton, forall_eq]
      exact .inr (Chain.not_managed_of_stakes h.absent)
    deficit_le := by
      have hlam := h.lamports_eq accounts.canonicalStake
      have hswept := h.swept_eq
      rw [only_self, only_of_ne hne, only_self] at hlam
      rw [total_cons, total_nil, Chain.deficit_eq_zero]
      · exact Nat.zero_le _
      · have hrent := (hs _ _ h.account_eq).rent_eq
        change rt.stakeRent + d.stake ≤ w'.lamportsOf accounts.canonicalStake
        omega
    lockups := by
      simp only [List.mem_singleton, forall_eq]
      exact .inl ⟨r, rfl, (Chain.lockupOf_record (by rfl) hself).trans
        (Chain.lockupOf_record h.record_key h.account_eq).symm⟩
    balanced := fun hdone htracked ↦ by
      simp only [List.mem_singleton, forall_eq] at htracked
      -- the delegation is not deactivating, so the record cannot be either
      have hactive : r.lastUpdateStatus = .active := by
        cases hr : r.lastUpdateStatus with
        | unknown => exact absurd hr htracked.known
        | active => rfl
        | deactivating =>
          exact absurd h.active (hl.deactivating h.record_key h.account_eq h.delegation_eq hr)
      refine .of_validator (x := 0) (y := 0) (q := v.validatorAccount) ?_ ?_ (fun em ↦ ?_) ?_
        (fun vote ↦ ?_) ?_ ?_ ?_
      · rw [h.state_eq]
        exact hdone
      · simp only [List.mem_singleton, forall_eq]
        exact ⟨by simp [StakeRecord.new], by simp [StakeRecord.new]⟩
      · rw [h.state_eq]
        simp [State.coolingDown, StakeRecord.coolingDown, hactive, StakeRecord.new]
      · rw [h.state_eq]
      · rw [h.state_eq]
      · simp [StakeRecord.activeAmount, hactive, StakeRecord.new, h.updated]
      · simp only [List.mem_singleton, forall_eq]
        exact Chain.voterOf_record h.record_key h.account_eq h.delegation_eq h.voter
      · exact hvoters }

/-- The account an update is about is delegated to the validator it names. -/
theorem UpdateCommon.Begun.voterOf_eq {accounts n}
    (h : UpdateCommon.Begun accounts n j w account d r v) :
    w.voterOf r.stakeAccount = some v.validatorAccount :=
  Chain.voterOf_record h.record_key h.account_eq h.delegation_eq h.voter.symm

theorem UpdateActive.Spec.moved {accounts i j extra fee₁ fee₂}
    (h : UpdateActive.Spec accounts i j w w' account d r v v' extra fee₁ fee₂)
    (hs : w.StakesSound rt) (hl : w.Lists r) :
    Moved rt w w' [r] [{ r with
        lastUpdateStatus := .active
        lastUpdateEpoch := w.clock.epoch
        lastUpdateDelegatedLamports := d.stake }]
      (w.state.stakeSystem.records.eraseIdx i) := by
  have hstakes : w'.stakes = w.stakes := by rw [h.frame]
  have hsrc : w.stakes accounts.stakeAccount ≠ none := by simp [h.account_eq]
  have hreserve := hs.ne hsrc (rfl : Pubkey.reserve.holdsStake = false)
  have hold := hs _ _ h.account_eq
  have hvoters : ∀ r' ∈ ([{ r with
      lastUpdateStatus := .active
      lastUpdateEpoch := w.clock.epoch
      lastUpdateDelegatedLamports := d.stake }] : List StakeRecord),
      w'.voterOf r'.stakeAccount = some v.validatorAccount := by
    simp only [List.mem_singleton, forall_eq]
    exact (Chain.voterOf_congr (congrFun hstakes _)).trans h.voterOf_eq
  exact {
    replaced := by rw [h.records_eq]; exact .set h.record _
    stakes_frame := fun k _ _ ↦ by rw [hstakes]
    lamports_frame := fun k _ hout ↦ by
      refine h.stake_le ?_
      rw [← h.record_key]
      exact (hout r (List.mem_singleton_self r)).symm
    listed := by
      simp only [List.mem_singleton, forall_eq]
      refine ⟨?_, ?_⟩
      · obtain ⟨a, ha, hauth⟩ := hl.managed
        exact ⟨a, by rw [hstakes]; exact ha, hauth⟩
      · simp only [h.record_key]
        exact ⟨account, d, by rw [hstakes]; exact h.account_eq, h.delegation_eq, by simp⟩
    voters := fun r' hr' ↦ ⟨v, List.mem_of_getElem? h.validator, hvoters r' hr'⟩
    distinct := by simp [KeysDistinct]
    fresh := by
      simp only [List.mem_singleton, forall_eq]
      exact .inl ⟨r, rfl, rfl⟩
    deficit_le := by
      have hlam := h.lamports_eq accounts.stakeAccount
      have hextra := h.extra_eq
      have hfunded := hold.funded d h.delegation_eq
      rw [only_self, only_of_ne hreserve, hextra, hold.rent_eq] at hlam
      rw [total_cons, total_nil, Chain.deficit_eq_zero]
      · exact Nat.zero_le _
      · simp only [h.record_key]
        omega
    lockups := by
      simp only [List.mem_singleton, forall_eq]
      exact .inl ⟨r, rfl, Chain.lockupOf_congr (congrFun hstakes _)⟩
    balanced := fun hdone htracked ↦ by
      simp only [List.mem_singleton, forall_eq] at htracked
      obtain ⟨_, hstate⟩ := h.state_eq
      obtain ⟨u, hvisited, hprogressed⟩ := h.upgrader
      rw [hdone] at hvisited
      obtain ⟨hactive, rfl, -⟩ := hvisited
      refine .of_validator (x := r.lastUpdateDelegatedLamports) (y := d.stake)
        (q := v.validatorAccount) hprogressed ?_ (fun em ↦ ?_) h.total_balance
        (fun vote ↦ ?_) ?_ ?_ ?_
      · simp only [List.mem_singleton, forall_eq]
        refine ⟨by simp, fun hem ↦ ?_⟩
        have := htracked.emergency hem
        rw [hactive] at this
        cases this
      · rw [hstate]
        simp [State.coolingDown, StakeRecord.coolingDown, hactive, World.realigned]
      · rw [h.validators_eq]
        exact total_balanceOf_set h.validator (by rw [h.validator_eq]) h.validator_balance vote
      · simp [StakeRecord.activeAmount, hactive, Nat.add_comm]
      · simp only [List.mem_singleton, forall_eq]
        exact h.voterOf_eq
      · exact hvoters }

/-- What the detection and the booking out take from the books together. -/
theorem UpdateDeactivated.Spec.books_eq {accounts i j r' s₁ s₂ fee delinquent}
    (h : UpdateDeactivated.Spec accounts i j w w' account d r r' v s₁ s₂ fee delinquent)
    (hdone : w.state.delinquentUpgrader = .done) :
    w'.state.delinquentUpgrader = .done ∧
    w'.state.validatorSystem.totalActiveBalance
        + (if r.lastUpdateStatus = .active then r.lastUpdateDelegatedLamports else 0)
      = w.state.validatorSystem.totalActiveBalance ∧
    w'.state.stakeSystem.delayedUnstakeCoolingDown
        + (if r'.isEmergencyUnstaking then 0 else r.lastUpdateDelegatedLamports)
      = w.state.stakeSystem.delayedUnstakeCoolingDown ∧
    w'.state.emergencyCoolingDown
        + (if r'.isEmergencyUnstaking then r.lastUpdateDelegatedLamports else 0)
      = w.state.emergencyCoolingDown
        + (if r.lastUpdateStatus = .active then r.lastUpdateDelegatedLamports else 0) := by
  obtain ⟨htotal, hdelayed, hemergency, hdelinquent, hprogressed⟩ := h.totals_eq
  rw [hdone] at hprogressed hdelinquent
  obtain rfl : delinquent = 0 := hdelinquent
  exact ⟨hprogressed, by rwa [Nat.add_zero] at htotal, hdelayed, hemergency⟩

theorem UpdateDeactivated.Spec.moved {accounts i j r' s₁ s₂ fee delinquent}
    (h : UpdateDeactivated.Spec accounts i j w w' account d r r' v s₁ s₂ fee delinquent)
    (hs : w.StakesSound rt) :
    Moved rt w w' [r] [] (w.state.stakeSystem.records.eraseIdx i) where
  replaced := by rw [h.records_eq]; exact .swapRemove h.record
  stakes_frame k _ hout := by
    rw [h.stakes_eq, Function.update_of_ne]
    rw [← h.record_key]
    exact (hout r (List.mem_singleton_self r)).symm
  lamports_frame k hk hout := by
    refine h.stake_le hs hk ?_
    rw [← h.record_key]
    exact (hout r (List.mem_singleton_self r)).symm
  listed := by simp
  voters := by simp
  distinct := .nil
  fresh := by simp
  deficit_le := Nat.zero_le _
  lockups := by simp
  balanced hdone htracked := by
    simp only [List.mem_singleton, forall_eq] at htracked
    obtain ⟨hdone', htotal, hdelayed, hemergency⟩ := h.books_eq hdone
    have hem' : r'.isEmergencyUnstaking
        = (r.isEmergencyUnstaking || decide (r.lastUpdateStatus = .active)) := by
      rw [h.detected.record_eq]
    refine .of_validator (x := r.activeAmount) (y := 0) (q := v.validatorAccount) hdone'
      (by simp) (fun em ↦ ?_) htotal (fun vote ↦ ?_) (by simp) ?_ (by simp)
    · cases hstatus : r.lastUpdateStatus with
      | unknown => exact absurd hstatus htracked.known
      | active =>
        have hno := h.detected.not_emergency hstatus
        simp only [hem', hstatus, hno, decide_true, Bool.or_true, if_true] at hdelayed hemergency
        cases em
        · simpa [State.coolingDown, StakeRecord.coolingDown, hstatus] using hdelayed
        · simp only [total_cons, total_nil, State.coolingDown, StakeRecord.coolingDown, hstatus,
            if_true]
          simp
          omega
      | deactivating =>
        simp only [hem', hstatus, reduceCtorEq, decide_false, Bool.or_false, if_false]
          at hdelayed hemergency
        cases hr : r.isEmergencyUnstaking <;> cases em <;>
          simp [State.coolingDown, StakeRecord.coolingDown, hstatus, hr]
            at hdelayed hemergency ⊢ <;>
          omega
    · rw [h.validators_eq]
      unfold StakeRecord.activeAmount
      split
      · exact total_balanceOf_set h.validator (by rfl)
          (by exact Nat.sub_add_cancel (h.detected.validator_balance ‹_›)) vote
      · rfl
    · simp only [List.mem_singleton, forall_eq]
      exact h.voterOf_eq

/-! ## Every step -/

/-- Every instruction is a move. -/
theorem Executed.moved (h : Executed rt w w' i e) (hw : WellFormed rt w)
    (hl : ∀ r ∈ w.state.stakeSystem.records, w.Lists r) :
    ∃ olds news rest, Moved rt w w' olds news rest := by
  have hs := hw.stakes_sound
  have hrecord : ∀ {i r}, w.state.stakeSystem.records[i]? = some r → w.Lists r :=
    fun hr ↦ hl _ (List.mem_of_getElem? hr)
  cases h with
  | depositStakeAccount h => exact ⟨_, _, _, h.moved hs⟩
  | withdrawStakeAccount h => exact ⟨_, _, _, h.moved (hrecord h.record)⟩
  | stakeReserve h => exact ⟨_, _, _, h.moved hs⟩
  | unstakedWhole h => exact ⟨_, _, _, h.moved (hrecord h.record)⟩
  | unstakedSplit h => exact ⟨_, _, _, h.moved (hrecord h.record)⟩
  | mergeStakes h =>
    obtain ⟨rest, hm⟩ := h.moved hs (hrecord h.record)
    exact ⟨_, _, rest, hm⟩
  | createCanonicalStake h => exact ⟨_, _, _, h.moved hs (hrecord h.record)⟩
  | updateActive h => exact ⟨_, _, _, h.moved hs (hrecord h.record)⟩
  | updateDeactivated h => exact ⟨_, _, _, h.moved hs⟩
  | deposit h =>
    exact ⟨_, _, _, .of_sameStakeBooks
      (by rw [h.state_eq]; exact { State.SameStakeBooks.refl with })
      (by rw [h.frame]) fun k hk ↦ h.stake_le hk⟩
  | orderUnstake h =>
    exact ⟨_, _, _, .of_sameStakeBooks
      (by rw [h.state_eq]; exact { State.SameStakeBooks.refl with })
      (by rw [h.frame]) fun k _ ↦ by rw [h.frame]⟩
  | claim h =>
    exact ⟨_, _, _, .of_sameStakeBooks
      (by rw [h.state_eq]; exact { State.SameStakeBooks.refl with })
      (by rw [h.frame]) fun k hk ↦ h.stake_le hw hk⟩
  | liquidUnstake h =>
    exact ⟨_, _, _, .of_sameStakeBooks (by rw [h.state_eq]; exact .refl) (by rw [h.frame])
      fun k hk ↦ h.stake_le hs hk⟩
  | addLiquidity h =>
    exact ⟨_, _, _, .of_sameStakeBooks
      (by rw [h.state_eq]; exact { State.SameStakeBooks.refl with })
      (by rw [h.frame]) fun k hk ↦ h.stake_le hk⟩
  | removeLiquidity h =>
    exact ⟨_, _, _, .of_sameStakeBooks
      (by rw [h.state_eq]; exact { State.SameStakeBooks.refl with })
      (by rw [h.frame]) fun k hk ↦ h.stake_le hs hk⟩
  | notStaked h =>
    obtain ⟨_, hstate⟩ := h.state_eq
    exact ⟨_, _, _, .of_sameStakeBooks (by rw [hstate]; exact { State.SameStakeBooks.refl with })
      (by rw [h.frame]) fun k hk ↦ h.stake_le hk⟩
  | notUnstaked h =>
    exact ⟨_, _, _, .of_sameStakeBooks (by rw [h.state_eq]; exact .refl) (by rw [h.frame])
      fun k hk ↦ h.guarded_le k (Chain.guarded_of_stakes hk)⟩
  | addValidator h =>
    obtain ⟨_, hstate⟩ := h.state_eq
    exact ⟨_, _, _, .idle (by rw [hstate]) (by rw [h.frame]) (fun k hk ↦ h.stake_le hk)
      fun _ ↦ h.balanced⟩
  | removeValidator h =>
    obtain ⟨_, hstate⟩ := h.state_eq
    exact ⟨_, _, _, .idle (by rw [hstate]) (by rw [h.frame]) (fun k hk ↦ h.stake_le hs hk)
      fun _ ↦ h.balanced⟩
  | setValidatorScore h =>
    obtain ⟨_, hstate⟩ := h.state_eq
    exact ⟨_, _, _, .idle (by rw [hstate]) (by rw [h.frame]) (fun k hk ↦ by rw [h.frame])
      h.balanced⟩
  | finalizeDelinquentUpgrade h hframe =>
    obtain ⟨-, _, _, _, _, _, hphase, -, hs⟩ := FinalizeDelinquentUpgrade.process_spec h
    have hrecords : w'.state.stakeSystem.records = w.state.stakeSystem.records := by
      rcases hs with ⟨-, -, hs⟩ | ⟨-, hs⟩
      · rw [hs]
      · rw [hs]
    refine ⟨_, _, _, .idle hrecords (by rw [hframe]) (fun k hk ↦ by rw [hframe]) fun hdone ↦ ?_⟩
    rw [hdone] at hphase
    cases hphase
  | config _ books hframe =>
    exact ⟨_, _, _, .of_sameStakeBooks books.toSameStakeBooks (by rw [hframe])
      fun k _ ↦ by rw [hframe]⟩
  | realloc _ _ _ hlist h =>
    exact ⟨_, _, _, .of_sameStakeBooks h.books.toSameStakeBooks (by rw [h.frame])
      fun k hk ↦ h.stake_le hlist hs hk⟩

end

end Marinade
