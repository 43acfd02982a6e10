import Marinade.Chain

/-!
# The programs that are called

The system program moves lamports, the token program mints, burns and moves tokens, and the stake
program manages stake accounts. Each is modelled by what its documentation says of the calls this
program makes, with the reasons for which it refuses them.

A stake account is worth what it delegates. Splitting takes lamports and the same amount of
delegation out of an account; a split that takes every lamport moves the whole account and delegates
all of it but the rent. Merging moves all lamports and adds the delegation of the source, to which
the program may add the lamports that kept the source rent exempt. As long as a lockup is in force
nothing is withdrawn, the withdrawer stays, and accounts are merged only if their lockups are equal.
-/

open Foundation Foundation.Ledger

namespace Marinade

/-! ## System program -/

namespace SystemProgram

/-- Move lamports. The caller has checked that the source signed and belongs to this program. -/
def transfer (c : Chain) (src dst : Pubkey) (lamports : ℕ) : Except Error Chain := do
  let ledger ← orError (c.lamports.transfer src dst lamports) .refused
  return { c with lamports := ledger }

/-- Move lamports unless there are none to move. -/
def transferSome (c : Chain) (src dst : Pubkey) (lamports : ℕ) : Except Error Chain :=
  if 0 < lamports then transfer c src dst lamports else .ok c

/-- Create a stake account at `key`, which signs: the payer tops it up to its rent. -/
def initStakeAccount (rt : Runtime) (c : Chain) (payer key : Pubkey) : Except Error Chain := do
  ensure (c.isUnused payer) .constraint
  ensure (c.isUnused key ∧ payer ≠ key) .constraint
  transfer c payer key (rt.stakeRent - c.lamportsOf key)

section

variable {rt : Runtime} {c c' : Chain} {src dst payer key : Pubkey} {x : ℕ}

theorem transfer_eq_ok : transfer c src dst x = .ok c' ↔
    ∃ ledger, c.lamports.transfer src dst x = some ledger ∧ { c with lamports := ledger } = c' := by
  simp only [transfer, bind_eq_ok, orError_eq_ok, pure_eq_ok]

/-- What a transfer does to the chain. -/
theorem transfer_spec (h : transfer c src dst x = .ok c') :
    ∃ ledger, c' = { c with lamports := ledger } ∧ ledger.total = c.lamports.total ∧
      x ≤ c.lamportsOf src ∧
      ∀ k, ledger.balance k + only src x k = c.lamportsOf k + only dst x k := by
  obtain ⟨ledger, hl, rfl⟩ := transfer_eq_ok.mp h
  exact ⟨ledger, rfl, transfer_total hl, le_balance_of_transfer hl, transfer_balance hl⟩

theorem transferSome_spec (h : transferSome c src dst x = .ok c') :
    ∃ ledger, c' = { c with lamports := ledger } ∧ ledger.total = c.lamports.total ∧
      x ≤ c.lamportsOf src ∧
      ∀ k, ledger.balance k + only src x k = c.lamportsOf k + only dst x k := by
  unfold transferSome at h
  split at h
  · exact transfer_spec h
  · cases h
    obtain rfl : x = 0 := by omega
    exact ⟨c.lamports, rfl, rfl, Nat.zero_le _, by simp⟩

/-- What creating a stake account does: `topUp` comes from the payer. -/
theorem initStakeAccount_spec (h : initStakeAccount rt c payer key = .ok c') :
    c.isUnused payer = true ∧ c.isUnused key = true ∧ payer ≠ key ∧
    ∃ topUp ledger, rt.stakeRent ≤ c.lamportsOf key + topUp ∧ ledger.total = c.lamports.total ∧
      (∀ k, ledger.balance k + only payer topUp k = c.lamportsOf k + only key topUp k) ∧
      c' = { c with lamports := ledger } := by
  simp only [initStakeAccount, bind_eq_ok, ensure_eq_ok, exists_const] at h
  obtain ⟨hpayer, ⟨hkey, hne⟩, h⟩ := h
  obtain ⟨ledger, rfl, ht, -, hl⟩ := transfer_spec h
  exact ⟨hpayer, hkey, hne, _, ledger, by omega, ht, hl, rfl⟩

/-- Nothing but the lamports of the payer and of the new account has changed when a stake account
was created. -/
theorem initStakeAccount_rest (h : initStakeAccount rt c payer key = .ok c') :
    c'.stakes = c.stakes ∧ c.stakes key = none ∧ c'.clock = c.clock ∧
      c'.lamportsOf .reserve = c.lamportsOf .reserve := by
  obtain ⟨hpayer, hkey, -, _, l, -, -, hl, rfl⟩ := initStakeAccount_spec h
  refine ⟨rfl, Chain.stakes_eq_none_of_isUnused hkey, rfl, ?_⟩
  have hreserve := hl .reserve
  rwa [only_of_ne (Chain.ne_of_not_canSign rfl hpayer),
    only_of_ne (Chain.ne_of_not_canSign rfl hkey)] at hreserve

end

end SystemProgram

/-! ## Token program -/

namespace TokenMint

variable {vault : Pubkey → Option Pubkey}

/-- Spend `amount` of the allowance `authority` has on `src`: without limit as its owner, up to
the delegated amount as its delegate. -/
def spend (mint : TokenMint vault) (src authority : Pubkey) (amount : ℕ) :
    Except Error (TokenMint vault) := do
  let h ← orError (mint.holder src) .refused
  if h.delegate = some authority then
    ensure (amount ≤ h.delegatedAmount) .refused
    return mint.setHolder src { h with
      delegate := if amount = h.delegatedAmount then none else h.delegate
      delegatedAmount := h.delegatedAmount - amount }
  else
    ensure (h.owner = authority) .refused
    return mint

def mintTo (mint : TokenMint vault) (dst : Pubkey) (amount : ℕ) :
    Except Error (TokenMint vault) := do
  ensure ((mint.holder dst).isSome ∧ mint.supply + amount ≤ u64Max) .refused
  return { mint with ledger := mint.ledger.mint dst amount }

def transfer (mint : TokenMint vault) (src dst authority : Pubkey) (amount : ℕ) :
    Except Error (TokenMint vault) := do
  ensure (mint.holder dst).isSome .refused
  let spent ← mint.spend src authority amount
  let ledger ← orError (mint.ledger.transfer src dst amount) .refused
  -- moving to the account itself uses up no allowance
  return { (if src = dst then mint else spent) with ledger }

/-- Move tokens unless there are none to move. -/
def transferSome (mint : TokenMint vault) (src dst authority : Pubkey) (amount : ℕ) :
    Except Error (TokenMint vault) :=
  if 0 < amount then mint.transfer src dst authority amount else .ok mint

def burn (mint : TokenMint vault) (src authority : Pubkey) (amount : ℕ) :
    Except Error (TokenMint vault) := do
  let mint ← mint.spend src authority amount
  let ledger ← orError (mint.ledger.take src amount) .refused
  return { mint with ledger }

section

variable {mint mint' : TokenMint vault} {src dst authority k : Pubkey} {x : ℕ}

/-- Spending an allowance changes no balance. -/
theorem spend_ledger (h : mint.spend src authority x = .ok mint') :
    mint'.ledger = mint.ledger := by
  simp only [spend, bind_eq_ok, orError_eq_ok] at h
  obtain ⟨holder, -, h⟩ := h
  split at h
  · rw [ensure_bind_eq_ok, pure_eq_ok] at h
    rw [← h.2]
    rfl
  · rw [ensure_bind_eq_ok, pure_eq_ok] at h
    rw [← h.2]

/-- Nobody but the program spends from its vaults. -/
theorem authority_of_spend_vault {owner : Pubkey} (h : mint.spend src authority x = .ok mint')
    (hv : vault src = some owner) : authority = owner := by
  simp only [spend, bind_eq_ok, orError_eq_ok, mint.vault_holder src owner hv] at h
  obtain ⟨holder, hh, h⟩ := h
  cases hh
  simp only [reduceCtorEq, if_false, ensure_bind_eq_ok] at h
  exact h.1.symm

theorem mintTo_eq_ok : mint.mintTo dst x = .ok mint' ↔
    ((mint.holder dst).isSome = true ∧ mint.supply + x ≤ u64Max) ∧
      { mint with ledger := mint.ledger.mint dst x } = mint' := by
  simp only [mintTo, ensure_bind_eq_ok, pure_eq_ok]

/-- What a token transfer does to the balances. -/
theorem transfer_spec (h : mint.transfer src dst authority x = .ok mint') :
    mint'.supply = mint.supply ∧ x ≤ mint.amount src ∧
      (∀ k, mint'.amount k + only src x k = mint.amount k + only dst x k) ∧
      ∀ owner, vault src = some owner → authority = owner := by
  simp only [transfer, bind_eq_ok, ensure_eq_ok, orError_eq_ok, pure_eq_ok, exists_const] at h
  obtain ⟨-, spent, hspend, ledger, hl, rfl⟩ := h
  exact ⟨transfer_total hl, le_balance_of_transfer hl, transfer_balance hl,
    fun owner ↦ authority_of_spend_vault hspend⟩

theorem transferSome_spec (h : mint.transferSome src dst authority x = .ok mint') :
    mint'.supply = mint.supply ∧ x ≤ mint.amount src ∧
      (∀ k, mint'.amount k + only src x k = mint.amount k + only dst x k) ∧
      ∀ owner, vault src = some owner → 0 < x → authority = owner := by
  unfold transferSome at h
  split at h
  · obtain ⟨hs, hle, ha, hv⟩ := transfer_spec h
    exact ⟨hs, hle, ha, fun owner ho _ ↦ hv owner ho⟩
  · cases h
    obtain rfl : x = 0 := by omega
    exact ⟨rfl, Nat.zero_le _, by simp, fun _ _ h0 ↦ absurd h0 (lt_irrefl 0)⟩

/-- What a burn does to the balances. -/
theorem burn_spec (h : mint.burn src authority x = .ok mint') :
    mint'.supply + x = mint.supply ∧ x ≤ mint.amount src ∧
      (∀ k, mint'.amount k + only src x k = mint.amount k) ∧
      ∀ owner, vault src = some owner → authority = owner := by
  simp only [burn, bind_eq_ok, orError_eq_ok, pure_eq_ok] at h
  obtain ⟨spent, hspend, ledger, hl, rfl⟩ := h
  rw [spend_ledger hspend] at hl
  exact ⟨take_total hl, le_balance_of_take hl, take_balance hl,
    fun owner ↦ authority_of_spend_vault hspend⟩

end

end TokenMint

/-! ## Stake program -/

namespace StakeProgram

/-- Initialize an account that was created empty. -/
def initializeStake (rt : Runtime) (c : Chain) (key staker withdrawer : Pubkey) :
    Except Error Chain := do
  ensure (c.stakes key = none) .refused
  ensure (rt.stakeRent ≤ c.lamportsOf key) .refused
  return c.setStake key (some ⟨⟨rt.stakeRent, staker, withdrawer, .default⟩, none⟩)

/-- Delegate everything above the rent to `vote`. -/
def delegate (rt : Runtime) (c : Chain) (key staker vote : Pubkey) : Except Error Chain := do
  let account ← orError (c.stakes key) .refused
  ensure (account.stakeMeta.staker = staker ∧ account.delegation = none) .refused
  ensure (rt.minimumDelegation ≤ c.lamportsOf key - account.stakeMeta.rentExemptReserve) .refused
  return c.setStake key (some { account with
    delegation := some {
      voterPubkey := vote
      stake := c.lamportsOf key - account.stakeMeta.rentExemptReserve
      activationEpoch := c.clock.epoch
      deactivationEpoch := epochMax } })

def deactivate (c : Chain) (key staker : Pubkey) : Except Error Chain := do
  let account ← orError (c.stakes key) .refused
  let d ← orError account.delegation .refused
  ensure (account.stakeMeta.staker = staker) .refused
  ensure (d.deactivationEpoch = epochMax) .refused
  return c.setStake key (some { account with
    delegation := some { d with deactivationEpoch := c.clock.epoch } })

/-- Split `lamports` from `src` into the empty account `dst`. -/
def split (rt : Runtime) (c : Chain) (src dst staker : Pubkey) (lamports : ℕ) :
    Except Error Chain := do
  let account ← orError (c.stakes src) .refused
  let d ← orError account.delegation .refused
  ensure (account.stakeMeta.staker = staker) .refused
  ensure (c.stakes dst = none) .refused
  let ledger ← orError (c.lamports.transfer src dst lamports) .refused
  if lamports = c.lamportsOf src then
    -- the whole account moves
    let stake := lamports - account.stakeMeta.rentExemptReserve
    ensure (rt.minimumDelegation ≤ stake ∧ stake ≤ d.stake) .refused
    let c := c.setStake src none
    let c := c.setStake dst (some ⟨{ account.stakeMeta with rentExemptReserve := rt.stakeRent },
      some { d with stake }⟩)
    return { c with lamports := ledger }
  else
    -- lamports that the new account still lacks for its rent are not delegated
    let stake := lamports - (rt.stakeRent - c.lamportsOf dst)
    ensure (rt.minimumDelegation ≤ stake ∧ lamports + rt.minimumDelegation ≤ d.stake) .refused
    ensure (lamports + (account.stakeMeta.rentExemptReserve + rt.minimumDelegation)
      ≤ c.lamportsOf src) .refused
    let c := c.setStake src (some { account with
      delegation := some { d with stake := d.stake - lamports } })
    let c := c.setStake dst (some ⟨{ account.stakeMeta with rentExemptReserve := rt.stakeRent },
      some { d with stake }⟩)
    return { c with lamports := ledger }

/-- Merge `src` into `dst`. -/
def merge (rt : Runtime) (c : Chain) (dst src staker : Pubkey) : Except Error Chain := do
  ensure (dst ≠ src) .refused
  let dstAccount ← orError (c.stakes dst) .refused
  let srcAccount ← orError (c.stakes src) .refused
  let dstDelegation ← orError dstAccount.delegation .refused
  let srcDelegation ← orError srcAccount.delegation .refused
  ensure (dstAccount.stakeMeta.staker = staker) .refused
  ensure (dstAccount.stakeMeta.staker = srcAccount.stakeMeta.staker ∧
    dstAccount.stakeMeta.withdrawer = srcAccount.stakeMeta.withdrawer) .refused
  ensure (dstAccount.stakeMeta.lockup = srcAccount.stakeMeta.lockup ∨
    (!dstAccount.stakeMeta.lockup.isInForce c.clock &&
      !srcAccount.stakeMeta.lockup.isInForce c.clock) = true) .refused
  ensure (dstDelegation.voterPubkey = srcDelegation.voterPubkey) .refused
  ensure (rt.mergeable dstDelegation srcDelegation c.clock.epoch) .refused
  let added :=
    if rt.mergeDelegatesRent dstDelegation srcDelegation c.clock.epoch then
      srcDelegation.stake + srcAccount.stakeMeta.rentExemptReserve
    else srcDelegation.stake
  let stake ← addUpTo u64Max dstDelegation.stake added
  let ledger ← orError (c.lamports.transfer src dst (c.lamportsOf src)) .refused
  let c := c.setStake src none
  let c := c.setStake dst (some { dstAccount with
    delegation := some { dstDelegation with stake } })
  return { c with lamports := ledger }

/-- Withdraw what is not delegated, or everything once nothing is effectively staked. -/
def withdraw (rt : Runtime) (c : Chain) (key withdrawer dst : Pubkey) (lamports : ℕ) :
    Except Error Chain := do
  let account ← orError (c.stakes key) .refused
  ensure (account.stakeMeta.withdrawer = withdrawer) .refused
  ensure (!account.stakeMeta.lockup.isInForce c.clock) .refused
  let staked :=
    match account.delegation with
    | none => 0
    | some d =>
      if d.deactivationEpoch ≤ c.clock.epoch then rt.effectiveStake d c.clock.epoch else d.stake
  let ledger ← orError (c.lamports.transfer key dst lamports) .refused
  if lamports = c.lamportsOf key then
    ensure (staked = 0) .refused
    return { c.setStake key none with lamports := ledger }
  else
    ensure (lamports + (staked + account.stakeMeta.rentExemptReserve) ≤ c.lamportsOf key) .refused
    return { c with lamports := ledger }

/-- Take everything back out of an account that was created and not initialized; it signs. There is
no lockup yet. -/
def withdrawUninitialized (c : Chain) (key dst : Pubkey) : Except Error Chain := do
  ensure (c.stakes key = none) .refused
  SystemProgram.transfer c key dst (c.lamportsOf key)

/-- Replace a lockup that is not in force. -/
def setLockup (c : Chain) (key authority : Pubkey) (lockup : Lockup) : Except Error Chain := do
  let account ← orError (c.stakes key) .refused
  ensure (!account.stakeMeta.lockup.isInForce c.clock) .refused
  ensure (authority = account.stakeMeta.withdrawer) .refused
  return c.setStake key (some { account with stakeMeta := { account.stakeMeta with lockup } })

def authorizeStaker (c : Chain) (key authority staker : Pubkey) : Except Error Chain := do
  let account ← orError (c.stakes key) .refused
  ensure (authority = account.stakeMeta.staker ∨ authority = account.stakeMeta.withdrawer) .refused
  return c.setStake key (some { account with stakeMeta := { account.stakeMeta with staker } })

/-- Change the withdrawer; the custodian of a lockup in force is not asked. -/
def authorizeWithdrawer (c : Chain) (key authority withdrawer : Pubkey) :
    Except Error Chain := do
  let account ← orError (c.stakes key) .refused
  ensure (!account.stakeMeta.lockup.isInForce c.clock) .refused
  ensure (authority = account.stakeMeta.withdrawer) .refused
  return c.setStake key (some { account with stakeMeta := { account.stakeMeta with withdrawer } })

/-! What each call has done when it returns. -/

section

variable {rt : Runtime} {c c' : Chain} {key src dst staker withdrawer authority vote : Pubkey}
  {x : ℕ} {account srcAccount : StakeAccount} {d srcDelegation : Delegation}

theorem deactivate_spec (h : deactivate c key staker = .ok c') :
    ∃ account d, c.stakes key = some account ∧ account.delegation = some d ∧
      account.stakeMeta.staker = staker ∧ d.deactivationEpoch = epochMax ∧
      c' = c.setStake key (some { account with
        delegation := some { d with deactivationEpoch := c.clock.epoch } }) := by
  simp only [deactivate, bind_eq_ok, orError_eq_ok, ensure_eq_ok, pure_eq_ok, exists_const] at h
  obtain ⟨account, ha, d, hd, hs, hm, rfl⟩ := h
  exact ⟨account, d, ha, hd, hs, hm, rfl⟩

theorem withdraw_msol (h : withdraw rt c src staker dst x = .ok c') : c'.msol = c.msol := by
  simp only [withdraw, bind_eq_ok, ensure_eq_ok, exists_const] at h
  obtain ⟨_, -, -, -, ledger, -, h⟩ := h
  split at h <;> rw [ensure_bind_eq_ok, pure_eq_ok] at h <;> rw [← h.2]
  rfl

/-- Splitting off a part takes as much delegation as lamports, into an account that already has
its rent. -/
theorem split_part_spec (h : split rt c src dst staker x = .ok c')
    (ha : c.stakes src = some account) (hd : account.delegation = some d)
    (hx : x ≤ d.stake) (hpart : d.stake < c.lamportsOf src)
    (hrent : rt.stakeRent ≤ c.lamportsOf dst) :
    account.stakeMeta.staker = staker ∧ c.stakes dst = none ∧ 0 < x ∧ x < d.stake ∧
    x + account.stakeMeta.rentExemptReserve ≤ c.lamportsOf src ∧
    ∃ ledger, ledger.total = c.lamports.total ∧
      (∀ k, ledger.balance k + only src x k = c.lamportsOf k + only dst x k) ∧
      c' = { c with
        lamports := ledger
        stakes := Function.update (Function.update c.stakes src (some { account with
            delegation := some { d with stake := d.stake - x } })) dst
          (some ⟨{ account.stakeMeta with rentExemptReserve := rt.stakeRent },
            some { d with stake := x }⟩) } := by
  simp only [split, bind_eq_ok, orError_eq_ok, ensure_eq_ok, exists_const, ha,
    Option.some.injEq, exists_eq_left', hd] at h
  obtain ⟨hstaker, hdst, ledger, hl, h⟩ := h
  rw [if_neg (by omega)] at h
  have htop : rt.stakeRent - c.lamportsOf dst = 0 := by omega
  simp only [bind_eq_ok, ensure_eq_ok, pure_eq_ok, exists_const, htop, Nat.sub_zero] at h
  obtain ⟨⟨hmin, hleft⟩, hle, rfl⟩ := h
  have hpos := rt.minimumDelegation_pos
  exact ⟨hstaker, hdst, by omega, by omega, by omega, ledger, transfer_total hl,
    transfer_balance hl, rfl⟩

/-- Splitting off a part into an account that was just created. Between the two calls the tokens may
have changed, but neither lamports nor stake accounts. -/
theorem split_new_spec {c₁ c₂ : Chain} {payer : Pubkey}
    (h₁ : SystemProgram.initStakeAccount rt c payer dst = .ok c₁)
    (hlamports : c₂.lamports = c₁.lamports) (hstakes : c₂.stakes = c.stakes)
    (h₂ : split rt c₂ src dst staker x = .ok c') (hfunded : c.Funded src)
    (ha : c.stakes src = some account) (hd : account.delegation = some d) (hx : x ≤ d.stake) :
    c.isUnused payer = true ∧ c.isUnused dst = true ∧
    account.stakeMeta.staker = staker ∧ 0 < x ∧ x < d.stake ∧
    ∃ topUp ledger, rt.stakeRent + x ≤ ledger.balance dst ∧ ledger.total = c.lamports.total ∧
      (∀ k, ledger.balance k + only payer topUp k + only src x k
        = c.lamportsOf k + only dst (topUp + x) k) ∧
      c' = { c₂ with
        lamports := ledger
        stakes := Function.update (Function.update c.stakes src (some { account with
            delegation := some { d with stake := d.stake - x } })) dst
          (some ⟨{ account.stakeMeta with rentExemptReserve := rt.stakeRent },
            some { d with stake := x }⟩) } := by
  obtain ⟨hpayer, hunused, hpd, topUp, l₁, hcov, ht₁, hl₁, rfl⟩ :=
    SystemProgram.initStakeAccount_spec h₁
  have hnew := Chain.stakes_eq_none_of_isUnused hunused
  have hsd : src ≠ dst := fun heq ↦ by
    rw [← heq, ha] at hnew
    cases hnew
  have hsp : src ≠ payer := fun heq ↦ by
    have hp := Chain.stakes_eq_none_of_isUnused hpayer
    rw [← heq, ha] at hp
    cases hp
  have hsrc : c₂.lamportsOf src = c.lamportsOf src := by
    have hk := hl₁ src
    rw [only_of_ne hsp, only_of_ne hsd] at hk
    rw [Chain.lamportsOf, hlamports]
    exact hk
  have hdst : rt.stakeRent ≤ c₂.lamportsOf dst := by
    have hk := hl₁ dst
    rw [only_of_ne hpd.symm, only_self] at hk
    rw [Chain.lamportsOf, hlamports]
    exact hcov.trans hk.ge
  obtain ⟨hrent, hfund⟩ := hfunded account d ha hd
  obtain ⟨hstaker, -, hpos, hlt, -, l₂, ht₂, hl₂, rfl⟩ :=
    split_part_spec h₂ (hstakes ▸ ha) hd hx (by omega) hdst
  refine ⟨hpayer, hunused, hstaker, hpos, hlt, topUp, l₂, ?_, ?_, fun k ↦ ?_, ?_⟩
  · have hk := hl₂ dst
    rw [only_of_ne hsd.symm, only_self] at hk
    omega
  · rw [ht₂, hlamports, ht₁]
  · have e₁ := hl₁ k
    have e₂ := hl₂ k
    simp only [Chain.lamportsOf, hlamports] at e₁ e₂ ⊢
    rw [only_add]
    omega
  · rw [hstakes]

/-- Splitting off everything moves the account. -/
theorem split_whole_spec (h : split rt c src dst staker (c.lamportsOf src) = .ok c')
    (ha : c.stakes src = some account) (hd : account.delegation = some d) :
    account.stakeMeta.staker = staker ∧ c.stakes dst = none ∧
    c.lamportsOf src - account.stakeMeta.rentExemptReserve ≤ d.stake ∧
    0 < c.lamportsOf src - account.stakeMeta.rentExemptReserve ∧
    ∃ ledger, ledger.total = c.lamports.total ∧
      (∀ k, ledger.balance k + only src (c.lamportsOf src) k
        = c.lamportsOf k + only dst (c.lamportsOf src) k) ∧
      c' = { c with
        lamports := ledger
        stakes := Function.update (Function.update c.stakes src none) dst
          (some ⟨{ account.stakeMeta with rentExemptReserve := rt.stakeRent },
            some { d with
              stake := c.lamportsOf src - account.stakeMeta.rentExemptReserve }⟩) } := by
  simp only [split, bind_eq_ok, orError_eq_ok, ensure_eq_ok, pure_eq_ok, exists_const, ha,
    Option.some.injEq, exists_eq_left', hd, if_pos] at h
  obtain ⟨hstaker, hdst, ledger, hl, ⟨hmin, hle⟩, rfl⟩ := h
  have hpos := rt.minimumDelegation_pos
  exact ⟨hstaker, hdst, hle, by omega, ledger, transfer_total hl, transfer_balance hl, rfl⟩

/-- What merging adds to the delegation of the destination. -/
def mergeAdds (rt : Runtime) (srcAccount : StakeAccount) (d srcDelegation : Delegation)
    (epoch : ℕ) : ℕ :=
  if rt.mergeDelegatesRent d srcDelegation epoch then
    srcDelegation.stake + srcAccount.stakeMeta.rentExemptReserve
  else srcDelegation.stake

theorem merge_spec (h : merge rt c dst src staker = .ok c')
    (ha : c.stakes dst = some account) (hsa : c.stakes src = some srcAccount)
    (hd : account.delegation = some d) (hsd : srcAccount.delegation = some srcDelegation) :
    dst ≠ src ∧ account.stakeMeta.staker = staker ∧
    srcAccount.stakeMeta.withdrawer = account.stakeMeta.withdrawer ∧
    srcAccount.stakeMeta.staker = staker ∧
    d.voterPubkey = srcDelegation.voterPubkey ∧
    ∃ ledger, ledger.total = c.lamports.total ∧
      (∀ k, ledger.balance k + only src (c.lamportsOf src) k
        = c.lamportsOf k + only dst (c.lamportsOf src) k) ∧
      c' = { c with
        lamports := ledger
        stakes := Function.update (Function.update c.stakes src none) dst
          (some { account with
            delegation := some { d with
              stake := d.stake + mergeAdds rt srcAccount d srcDelegation c.clock.epoch } }) } := by
  simp only [merge, bind_eq_ok, orError_eq_ok, ensure_eq_ok, pure_eq_ok, exists_const, ha, hsa,
    Option.some.injEq, exists_eq_left', hd, hsd, addUpTo_eq_ok] at h
  obtain ⟨hne, hs, ⟨hs', hw⟩, -, hv, -, stake, ⟨-, rfl⟩, ledger, hl, rfl⟩ := h
  exact ⟨hne, hs, hw.symm, hs' ▸ hs, hv, ledger, transfer_total hl, transfer_balance hl, rfl⟩

/-- Withdrawing a part leaves the rent and what is effectively staked. -/
theorem withdraw_part_spec (h : withdraw rt c key withdrawer dst x = .ok c')
    (ha : c.stakes key = some account) (hx : x ≠ c.lamportsOf key) :
    account.stakeMeta.withdrawer = withdrawer ∧
    x + account.stakeMeta.rentExemptReserve ≤ c.lamportsOf key ∧
    ∃ ledger, ledger.total = c.lamports.total ∧
      (∀ k, ledger.balance k + only key x k = c.lamportsOf k + only dst x k) ∧
      c' = { c with lamports := ledger } := by
  simp only [withdraw, bind_eq_ok, orError_eq_ok, ensure_eq_ok, exists_const, ha,
    Option.some.injEq, exists_eq_left'] at h
  obtain ⟨hw, -, ledger, hl, h⟩ := h
  rw [if_neg hx] at h
  simp only [bind_eq_ok, ensure_eq_ok, pure_eq_ok, exists_const] at h
  obtain ⟨hle, rfl⟩ := h
  exact ⟨hw, by omega, ledger, transfer_total hl, transfer_balance hl, rfl⟩

/-- Withdrawing everything closes the account. -/
theorem withdraw_whole_spec (h : withdraw rt c key withdrawer dst (c.lamportsOf key) = .ok c')
    (ha : c.stakes key = some account) :
    account.stakeMeta.withdrawer = withdrawer ∧
    ∃ ledger, ledger.total = c.lamports.total ∧
      (∀ k, ledger.balance k + only key (c.lamportsOf key) k
        = c.lamportsOf k + only dst (c.lamportsOf key) k) ∧
      c' = { c with lamports := ledger, stakes := Function.update c.stakes key none } := by
  simp only [withdraw, bind_eq_ok, orError_eq_ok, ensure_eq_ok, pure_eq_ok, exists_const, ha,
    Option.some.injEq, exists_eq_left', if_pos] at h
  obtain ⟨hw, -, ledger, hl, -, rfl⟩ := h
  exact ⟨hw, ledger, transfer_total hl, transfer_balance hl, rfl⟩

theorem withdrawUninitialized_spec (h : withdrawUninitialized c key dst = .ok c') :
    ∃ ledger, ledger.total = c.lamports.total ∧
      (∀ k, ledger.balance k + only key (c.lamportsOf key) k
        = c.lamportsOf k + only dst (c.lamportsOf key) k) ∧
      c' = { c with lamports := ledger } := by
  simp only [withdrawUninitialized, bind_eq_ok, ensure_eq_ok, exists_const] at h
  obtain ⟨ledger, rfl, ht, -, hl⟩ := SystemProgram.transfer_spec h.2
  exact ⟨ledger, ht, hl, rfl⟩

/-- Giving back an account that was created and not used: the payer keeps what was on it. -/
theorem return_unused_spec {c₁ c₂ : Chain} {payer : Pubkey}
    (h₁ : SystemProgram.initStakeAccount rt c payer key = .ok c₁)
    (hlamports : c₂.lamports = c₁.lamports)
    (h₂ : withdrawUninitialized c₂ key payer = .ok c') :
    c.isUnused payer = true ∧ c.isUnused key = true ∧
    ∃ found ledger, ledger.total = c.lamports.total ∧
      (∀ k, ledger.balance k + only key found k = c.lamportsOf k + only payer found k) ∧
      c' = { c₂ with lamports := ledger } := by
  obtain ⟨hpayer, hunused, hne, topUp, l₁, -, ht₁, hl₁, rfl⟩ :=
    SystemProgram.initStakeAccount_spec h₁
  obtain ⟨l₂, ht₂, hl₂, rfl⟩ := withdrawUninitialized_spec h₂
  have hkeyBalance : c₂.lamportsOf key = c.lamportsOf key + topUp := by
    have hk := hl₁ key
    rw [only_of_ne hne.symm, only_self] at hk
    rw [Chain.lamportsOf, hlamports]
    exact hk
  refine ⟨hpayer, hunused, c.lamportsOf key, l₂, ?_, fun k ↦ ?_, rfl⟩
  · rw [ht₂, hlamports, ht₁]
  · have e₁ := hl₁ k
    have e₂ := hl₂ k
    rw [hkeyBalance, only_add, only_add] at e₂
    simp only [Chain.lamportsOf, hlamports] at e₁ e₂ ⊢
    omega

theorem initializeStake_eq_ok : initializeStake rt c key staker withdrawer = .ok c' ↔
    c.stakes key = none ∧ rt.stakeRent ≤ c.lamportsOf key ∧
      c.setStake key (some ⟨⟨rt.stakeRent, staker, withdrawer, .default⟩, none⟩) = c' := by
  simp only [initializeStake, bind_eq_ok, ensure_eq_ok, pure_eq_ok, exists_const]

theorem delegate_spec (h : delegate rt c key staker vote = .ok c') :
    ∃ account, c.stakes key = some account ∧ account.delegation = none ∧
      account.stakeMeta.rentExemptReserve ≤ c.lamportsOf key ∧
      c' = c.setStake key (some { account with delegation := some ⟨vote,
        c.lamportsOf key - account.stakeMeta.rentExemptReserve, c.clock.epoch, epochMax⟩ }) := by
  simp only [delegate, bind_eq_ok, orError_eq_ok, ensure_eq_ok, pure_eq_ok, exists_const] at h
  obtain ⟨account, ha, ⟨-, hd⟩, hmin, rfl⟩ := h
  have hpos := rt.minimumDelegation_pos
  exact ⟨account, ha, hd, by omega, rfl⟩

theorem setLockup_spec {lockup : Lockup} (h : setLockup c key authority lockup = .ok c') :
    ∃ account, c.stakes key = some account ∧
      c' = c.setStake key (some { account with
        stakeMeta := { account.stakeMeta with lockup } }) := by
  simp only [setLockup, bind_eq_ok, orError_eq_ok, ensure_eq_ok, pure_eq_ok, exists_const] at h
  obtain ⟨account, ha, -, -, rfl⟩ := h
  exact ⟨account, ha, rfl⟩

theorem authorizeStaker_spec (h : authorizeStaker c key authority staker = .ok c') :
    ∃ account, c.stakes key = some account ∧
      c' = c.setStake key (some { account with
        stakeMeta := { account.stakeMeta with staker } }) := by
  simp only [authorizeStaker, bind_eq_ok, orError_eq_ok, ensure_eq_ok, pure_eq_ok,
    exists_const] at h
  obtain ⟨account, ha, -, rfl⟩ := h
  exact ⟨account, ha, rfl⟩

theorem authorizeWithdrawer_spec (h : authorizeWithdrawer c key authority withdrawer = .ok c') :
    ∃ account, c.stakes key = some account ∧ authority = account.stakeMeta.withdrawer ∧
      c' = c.setStake key (some { account with
        stakeMeta := { account.stakeMeta with withdrawer } }) := by
  simp only [authorizeWithdrawer, bind_eq_ok, orError_eq_ok, ensure_eq_ok, pure_eq_ok,
    exists_const] at h
  obtain ⟨account, ha, -, hw, rfl⟩ := h
  exact ⟨account, ha, hw, rfl⟩

end

end StakeProgram

end Marinade
