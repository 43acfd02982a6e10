import Marinade.Programs

/-!
# What others own

A set of keys owns the system accounts at these keys, the token accounts they may spend from, the
stake accounts under their authorities and what the tickets in their favour promise. An operation
spares them when none of that becomes less: they keep their accounts, and what is on them.

A token account may have a delegate. What the owner has not delegated is safe from it, so the amount
that counts is what is in the account beyond the delegated amount; that is the whole amount when
nobody else was given an allowance.

An operation that takes from nobody but its signers spares all other keys. Sparing is a preorder, so
it is enough to look at the calls of the other programs one by one.
-/

open Foundation Foundation.Ledger

namespace Marinade

/-- What the tickets in favour of `k` promise. -/
def Chain.promised (c : Chain) (k : Pubkey) : ℕ :=
  total (fun t ↦ if t.2.beneficiary = k then t.2.lamportsAmount else 0) c.tickets.entries

/-- A system account, or a stake account at an address somebody can sign for, of the keys `U`. -/
def Chain.Owned (U : Pubkey → Prop) (c : Chain) (k : Pubkey) : Prop :=
  (U k ∧ c.isUnused k = true) ∨
    k.canSign = true ∧ ∃ account, c.stakes k = some account ∧
      U account.stakeMeta.staker ∧ U account.stakeMeta.withdrawer

/-- The token account is still its owner's, and the delegate has spent no more than allowed. -/
structure TokenHolder.Spared (U : Pubkey → Prop) (h h' : TokenHolder) (amount amount' : ℕ) :
    Prop where
  owner_eq : h'.owner = h.owner
  delegate_eq : h'.delegate = h.delegate ∨ h'.delegate = none
  amount_le : amount + h'.delegatedAmount ≤ amount' + h.delegatedAmount
  unchanged : (∀ k, h.delegate = some k → U k) → h' = h

/-- The token accounts of `U` are spared. -/
structure TokenMint.Spares {vault : Pubkey → Option Pubkey} (U : Pubkey → Prop)
    (mint mint' : TokenMint vault) : Prop where
  absent : ∀ k, mint.holder k = none → mint'.holder k = none
  holder : ∀ k h, mint.holder k = some h → U h.owner →
    ∃ h', mint'.holder k = some h' ∧ h.Spared U h' (mint.amount k) (mint'.amount k)

/-- Nothing that `U` owns becomes less. -/
structure Chain.Spares (U : Pubkey → Prop) (c c' : Chain) : Prop where
  system : ∀ k, U k → c.isUnused k = true →
    c'.isUnused k = true ∧ c.lamportsOf k ≤ c'.lamportsOf k ∧
      c.lamportsOf k + c.promised k ≤ c'.lamportsOf k + c'.promised k
  stake : ∀ k account, k.canSign = true → c.stakes k = some account →
    U account.stakeMeta.staker → U account.stakeMeta.withdrawer →
    c'.stakes k = some account ∧ c.lamportsOf k ≤ c'.lamportsOf k
  msol : c.msol.Spares U c'.msol
  lp : c.lp.Spares U c'.lp

/-- Keys that have not signed. Nobody signs for the addresses of the program, so none of them is
one. -/
structure Bystanders (signers : List Pubkey) (U : Pubkey → Prop) : Prop where
  can_sign : ∀ k, U k → k.canSign = true
  not_signer : ∀ k ∈ signers, ¬U k

/-- Nobody but the signers has less. -/
def Chain.SparesOthers (signers : List Pubkey) (c c' : Chain) : Prop :=
  ∀ U, Bystanders signers U → c.Spares U c'

section

variable {U : Pubkey → Prop} {rt : Runtime} {c c' c'' : Chain} {k key src dst payer : Pubkey}
  {staker withdrawer authority vote : Pubkey} {x : ℕ}

/-! ## Token accounts -/

namespace TokenMint

variable {vault : Pubkey → Option Pubkey} {mint mint' mint'' : TokenMint vault}

theorem Spares.refl (mint : TokenMint vault) : mint.Spares U mint :=
  ⟨fun _ h ↦ h, fun _ h hh _ ↦ ⟨h, hh, rfl, .inl rfl, le_rfl, fun _ ↦ rfl⟩⟩

theorem Spares.trans (h₁ : mint.Spares U mint') (h₂ : mint'.Spares U mint'') :
    mint.Spares U mint'' := by
  refine ⟨fun k hk ↦ h₂.absent k (h₁.absent k hk), fun k h hh hU ↦ ?_⟩
  obtain ⟨h', hh', hs₁⟩ := h₁.holder k h hh hU
  obtain ⟨h'', hh'', hs₂⟩ := h₂.holder k h' hh' (hs₁.owner_eq ▸ hU)
  refine ⟨h'', hh'', hs₂.owner_eq.trans hs₁.owner_eq, ?_, ?_, fun hd ↦ ?_⟩
  · rcases hs₂.delegate_eq with hd | hd
    · rw [hd]
      exact hs₁.delegate_eq
    · exact .inr hd
  · have e₁ := hs₁.amount_le
    have e₂ := hs₂.amount_le
    omega
  · have heq := hs₁.unchanged hd
    rw [heq] at hs₂
    exact hs₂.unchanged hd

/-- Balances that do not fall, with the same holders. -/
theorem Spares.of_le (hholder : mint'.holder = mint.holder)
    (hle : ∀ k, mint.amount k ≤ mint'.amount k) : mint.Spares U mint' := by
  refine ⟨fun k hk ↦ hholder ▸ hk, fun k h hh _ ↦ ⟨h, hholder ▸ hh, rfl, .inl rfl, ?_, fun _ ↦ rfl⟩⟩
  exact Nat.add_le_add_right (hle k) _

/-- Somebody else can only spend what was delegated. -/
theorem spend_holder (h : mint.spend src authority x = .ok mint') (hU : ¬U authority) :
    (∀ k, mint.holder k = none → mint'.holder k = none) ∧
    ∀ k h, mint.holder k = some h → U h.owner → ∃ h', mint'.holder k = some h' ∧
      h'.owner = h.owner ∧ (h'.delegate = h.delegate ∨ h'.delegate = none) ∧
      h'.delegatedAmount + only src x k = h.delegatedAmount ∧
      ((∀ k, h.delegate = some k → U k) → k ≠ src) ∧ (k ≠ src → h' = h) := by
  simp only [spend, bind_eq_ok, orError_eq_ok] at h
  obtain ⟨holder, hholder, h⟩ := h
  split at h
  · rename_i hdelegate
    rw [ensure_bind_eq_ok, pure_eq_ok] at h
    obtain ⟨hx, rfl⟩ := h
    have hvault : vault src = none := by
      by_contra hv
      obtain ⟨owner, hv⟩ := Option.ne_none_iff_exists'.mp hv
      rw [mint.vault_holder src owner hv, Option.some.injEq] at hholder
      rw [← hholder] at hdelegate
      cases hdelegate
    refine ⟨fun k hk ↦ ?_, fun k h hh hown ↦ ?_⟩
    · have hne : k ≠ src := by
        rintro rfl
        rw [hk] at hholder
        cases hholder
      simp only [setHolder]
      rw [if_neg (by simp [hne])]
      exact hk
    · by_cases hk : k = src
      · subst hk
        obtain rfl : h = holder := Option.some.inj (hh.symm.trans hholder)
        refine ⟨_, if_pos ⟨rfl, hvault⟩, rfl, ?_, ?_, fun hd ↦ ?_, fun hne ↦ absurd rfl hne⟩
        · simp only
          split
          · exact .inr rfl
          · exact .inl rfl
        · rw [only_self]
          exact Nat.sub_add_cancel hx
        · exact absurd (hd authority hdelegate) hU
      · refine ⟨h, ?_, rfl, .inl rfl, ?_, fun _ ↦ hk, fun _ ↦ rfl⟩
        · simp only [setHolder]
          rw [if_neg (by simp [hk])]
          exact hh
        · rw [only_of_ne hk, Nat.add_zero]
  · rw [ensure_bind_eq_ok, pure_eq_ok] at h
    obtain ⟨howner, rfl⟩ := h
    refine ⟨fun _ hk ↦ hk, fun k h hh hown ↦ ?_⟩
    have hk : k ≠ src := by
      rintro rfl
      rw [hh, Option.some.injEq] at hholder
      rw [hholder, howner] at hown
      exact hU hown
    exact ⟨h, hh, rfl, .inl rfl, by rw [only_of_ne hk, Nat.add_zero], fun _ ↦ hk, fun _ ↦ rfl⟩

theorem mintTo_spares (h : mint.mintTo dst x = .ok mint') : mint.Spares U mint' := by
  obtain ⟨-, rfl⟩ := mintTo_eq_ok.mp h
  refine Spares.of_le rfl fun k ↦ ?_
  rw [TokenMint.amount, TokenMint.amount, mint_balance_eq]
  exact Nat.le_add_right _ _

/-- Nobody is robbed when what was spent is taken out of the account it was spent from. -/
theorem Spares.of_spend {spent : TokenMint vault} (h : mint.spend src authority x = .ok spent)
    (hU : ¬U authority) (hholder : mint'.holder = spent.holder)
    (hamount : ∀ k, mint.amount k ≤ mint'.amount k + only src x k) : mint.Spares U mint' := by
  obtain ⟨habsent, hspent⟩ := spend_holder h hU
  refine ⟨fun k hk ↦ hholder ▸ habsent k hk, fun k h hh hown ↦ ?_⟩
  obtain ⟨h', hh', howner, hdelegate, hallowance, hne, hsame⟩ := hspent k h hh hown
  refine ⟨h', hholder ▸ hh', howner, hdelegate, ?_, fun hd ↦ hsame (hne hd)⟩
  have := hamount k
  omega

theorem transfer_spares (h : mint.transfer src dst authority x = .ok mint') (hU : ¬U authority) :
    mint.Spares U mint' := by
  obtain ⟨-, -, hamount, -⟩ := transfer_spec h
  simp only [transfer, bind_eq_ok, ensure_eq_ok, orError_eq_ok, pure_eq_ok, exists_const] at h
  obtain ⟨-, spent, hspend, ledger, hl, rfl⟩ := h
  by_cases heq : src = dst
  · subst heq
    simp only [if_true] at hamount ⊢
    refine Spares.of_le rfl fun k ↦ ?_
    have := hamount k
    omega
  · simp only [if_neg heq] at hamount ⊢
    refine Spares.of_spend hspend hU rfl fun k ↦ ?_
    have := hamount k
    omega

theorem transferSome_spares (h : mint.transferSome src dst authority x = .ok mint')
    (hU : ¬U authority) : mint.Spares U mint' := by
  unfold transferSome at h
  split at h
  · exact transfer_spares h hU
  · cases h
    exact Spares.refl mint

theorem burn_spares (h : mint.burn src authority x = .ok mint') (hU : ¬U authority) :
    mint.Spares U mint' := by
  obtain ⟨-, -, hamount, -⟩ := burn_spec h
  simp only [burn, bind_eq_ok, orError_eq_ok, pure_eq_ok] at h
  obtain ⟨spent, hspend, ledger, hl, rfl⟩ := h
  exact Spares.of_spend hspend hU rfl fun k ↦ (hamount k).ge

end TokenMint

/-! ## Calls of the other programs -/

theorem Chain.Spares.refl (c : Chain) : c.Spares U c where
  system _ _ hu := ⟨hu, le_rfl, le_rfl⟩
  stake _ _ _ ha _ _ := ⟨ha, le_rfl⟩
  msol := .refl _
  lp := .refl _

theorem Chain.Spares.trans (h₁ : c.Spares U c') (h₂ : c'.Spares U c'') : c.Spares U c'' where
  system k hk hu := by
    obtain ⟨hu₁, hl₁, hp₁⟩ := h₁.system k hk hu
    obtain ⟨hu₂, hl₂, hp₂⟩ := h₂.system k hk hu₁
    exact ⟨hu₂, hl₁.trans hl₂, hp₁.trans hp₂⟩
  stake k account hk ha hs hw := by
    obtain ⟨ha₁, hl₁⟩ := h₁.stake k account hk ha hs hw
    obtain ⟨ha₂, hl₂⟩ := h₂.stake k account hk ha₁ hs hw
    exact ⟨ha₂, hl₁.trans hl₂⟩
  msol := h₁.msol.trans h₂.msol
  lp := h₁.lp.trans h₂.lp

theorem Chain.isUnused_iff : c.isUnused k = true ↔
    k.canSign = true ∧ k ≠ .state ∧ k ≠ .stakeList ∧ k ≠ .validatorList ∧ c.stakes k = none ∧
      c.msol.holder k = none ∧ c.lp.holder k = none ∧ c.tickets.lookup k = none := by
  rw [isUnused, isSystemAccount, Bool.and_eq_true, decide_eq_true_eq]

/-- The program takes from its own accounts without a signature. -/
theorem Bystanders.not_program {signers : List Pubkey} (h : Bystanders signers U)
    (hk : k.canSign = false) : ¬U k := by
  intro hU
  rw [h.can_sign k hU] at hk
  cases hk

theorem Bystanders.not_head {signers : List Pubkey} (h : Bystanders (k :: signers) U) : ¬U k :=
  h.not_signer k List.mem_cons_self

namespace Chain.SparesOthers

variable {signers signers' : List Pubkey}

theorem refl (c : Chain) : c.SparesOthers signers c :=
  fun _ _ ↦ .refl c

theorem trans (h₁ : c.SparesOthers signers c') (h₂ : c'.SparesOthers signers c'') :
    c.SparesOthers signers c'' :=
  fun U hU ↦ (h₁ U hU).trans (h₂ U hU)

theorem mono (hsub : signers ⊆ signers') (h : c.SparesOthers signers c') :
    c.SparesOthers signers' c' :=
  fun U hU ↦ h U ⟨hU.can_sign, fun k hk ↦ hU.not_signer k (hsub hk)⟩

end Chain.SparesOthers

/-- What is not owned may change in any way. -/
theorem Chain.Spares.of_frame {T : Pubkey → Prop} (hT : ∀ k, T k → ¬c.Owned U k)
    (hlamports : ∀ k, ¬T k → c.lamportsOf k ≤ c'.lamportsOf k)
    (hstakes : ∀ k, ¬T k → c'.stakes k = c.stakes k) (hmsol : c.msol.Spares U c'.msol)
    (hlp : c.lp.Spares U c'.lp) (htickets : c'.tickets = c.tickets) : c.Spares U c' where
  system k hk hu := by
    have hk' : ¬T k := fun ht ↦ hT k ht (.inl ⟨hk, hu⟩)
    have hpromised : c'.promised k = c.promised k := by
      rw [promised, promised, htickets]
    obtain ⟨hsign, h₁, h₂, h₃, hs, hm, hl, ht⟩ := Chain.isUnused_iff.mp hu
    refine ⟨Chain.isUnused_iff.mpr ⟨hsign, h₁, h₂, h₃, ?_, hmsol.absent k hm, hlp.absent k hl, ?_⟩,
      hlamports k hk', ?_⟩
    · rw [hstakes k hk', hs]
    · rw [htickets, ht]
    · rw [hpromised]
      exact Nat.add_le_add_right (hlamports k hk') _
  stake k account hk ha hs hw := by
    have hk' : ¬T k := fun ht ↦ hT k ht (.inr ⟨hk, account, ha, hs, hw⟩)
    exact ⟨(hstakes k hk').trans ha, hlamports k hk'⟩
  msol := hmsol
  lp := hlp

/-- New token balances. -/
theorem Chain.Spares.of_msol {msol : TokenMint legVault} (h : c.msol.Spares U msol) :
    c.Spares U { c with msol } :=
  .of_frame (T := fun _ ↦ False) (fun _ ↦ False.elim) (fun _ _ ↦ le_rfl) (fun _ _ ↦ rfl) h
    (.refl _) rfl

theorem Chain.Spares.of_lp {lp : TokenMint noVault} (h : c.lp.Spares U lp) :
    c.Spares U { c with lp } :=
  .of_frame (T := fun _ ↦ False) (fun _ ↦ False.elim) (fun _ _ ↦ le_rfl) (fun _ _ ↦ rfl)
    (.refl _) h rfl

theorem Chain.not_owned_of_not_canSign (h : k.canSign = false) : ¬c.Owned U k := by
  rintro (⟨-, hu⟩ | ⟨hk, -⟩)
  · rw [canSign_of_isUnused hu] at h
    cases h
  · rw [hk] at h
    cases h

/-- An account without stake of somebody else. -/
theorem Chain.not_owned_of_stakes_none (hk : ¬U k) (h : c.stakes k = none) : ¬c.Owned U k := by
  rintro (⟨hU, -⟩ | ⟨-, account, ha, -⟩)
  · exact hk hU
  · rw [h] at ha
    cases ha

theorem Chain.not_owned_of_isUnused (hk : ¬U k) (h : c.isUnused k = true) : ¬c.Owned U k :=
  not_owned_of_stakes_none hk (stakes_eq_none_of_isUnused h)

/-- A stake account under the authority of somebody else. -/
theorem Chain.not_owned_of_authority {account : StakeAccount} (ha : c.stakes k = some account)
    (h : ¬(U account.stakeMeta.staker ∧ U account.stakeMeta.withdrawer)) : ¬c.Owned U k := by
  rintro (⟨-, hu⟩ | ⟨-, account', ha', hU⟩)
  · rw [stakes_eq_none_of_isUnused hu] at ha
    cases ha
  · rw [ha, Option.some.injEq] at ha'
    rw [ha'] at h
    exact h hU

/-- A ticket of somebody else, at an address that was free. -/
theorem Chain.Spares.insert_ticket {ticket : TicketAccountData} (hkey : ¬U key)
    (h : c.tickets.lookup key = none) :
    c.Spares U { c with tickets := c.tickets.insert key ticket } where
  system k hk hu := by
    have hne : k ≠ key := by
      rintro rfl
      exact hkey hk
    obtain ⟨hsign, h₁, h₂, h₃, hs, hm, hl, ht⟩ := Chain.isUnused_iff.mp hu
    refine ⟨Chain.isUnused_iff.mpr ⟨hsign, h₁, h₂, h₃, hs, hm, hl, ?_⟩, le_rfl, ?_⟩
    · exact (AList.lookup_insert_ne hne).trans ht
    · rw [promised, promised, AList.entries_insert_of_notMem (AList.lookup_eq_none.mp h),
        total_cons]
      exact Nat.add_le_add_left (Nat.le_add_left _ _) _
  stake _ _ _ ha _ _ := ⟨ha, le_rfl⟩
  msol := .refl _
  lp := .refl _

/-- A closed ticket promises nothing any more. -/
theorem Chain.promised_erase {ticket : TicketAccountData}
    (h : c.tickets.lookup key = some ticket) (ht : c'.tickets = c.tickets.erase key) :
    c'.promised k + only ticket.beneficiary ticket.lamportsAmount k = c.promised k := by
  have hmem : key ∈ c.tickets.keys := by
    rw [← AList.mem_keys, ← AList.lookup_isSome, h]
    rfl
  obtain ⟨ticket', l₁, l₂, -, hentries, herase⟩ := List.exists_of_kerase hmem
  have hticket : ticket = ticket' := by
    have hin : (⟨key, ticket'⟩ : Sigma fun _ : Pubkey ↦ TicketAccountData)
        ∈ c.tickets.entries := by
      rw [hentries]
      exact List.mem_append_right _ List.mem_cons_self
    have hlookup := AList.mem_lookup_iff.mpr hin
    rw [h] at hlookup
    exact (Option.some.inj hlookup)
  have herased : c'.tickets.entries = l₁ ++ l₂ := by
    rw [ht]
    exact herase
  rw [promised, promised, herased, hentries, total_append, total_append, total_cons, only, hticket]
  simp only [eq_comm (a := k)]
  omega

/-- Only one account is touched. -/
theorem Chain.Spares.setStake (o : Option StakeAccount) (h : ¬c.Owned U k) :
    c.Spares U (c.setStake k o) :=
  .of_frame (T := (· = k)) (fun _ hj ↦ hj ▸ h) (fun _ _ ↦ le_rfl)
    (fun _ hj ↦ Function.update_of_ne hj ..) (.refl _) (.refl _) rfl

namespace SystemProgram

theorem transfer_spares (h : transfer c src dst x = .ok c') (hU : ¬c.Owned U src) :
    c.Spares U c' := by
  obtain ⟨ledger, hl, rfl⟩ := transfer_eq_ok.mp h
  exact .of_frame (T := (· = src)) (fun _ hj ↦ hj ▸ hU) (fun _ hj ↦ le_transfer_balance hl hj)
    (fun _ _ ↦ rfl) (.refl _) (.refl _) rfl

theorem transferSome_spares (h : transferSome c src dst x = .ok c') (hU : ¬c.Owned U src) :
    c.Spares U c' := by
  unfold transferSome at h
  split at h
  · exact transfer_spares h hU
  · cases h
    exact .refl c

theorem initStakeAccount_spares (h : initStakeAccount rt c payer key = .ok c') (hU : ¬U payer) :
    c.Spares U c' := by
  simp only [initStakeAccount, bind_eq_ok, ensure_eq_ok, exists_const] at h
  obtain ⟨hpayer, -, h⟩ := h
  exact transfer_spares h (Chain.not_owned_of_isUnused hU hpayer)

end SystemProgram

namespace StakeProgram

theorem initializeStake_spares (h : initializeStake rt c key staker withdrawer = .ok c')
    (hU : ¬U key) : c.Spares U c' := by
  obtain ⟨hnone, -, rfl⟩ := initializeStake_eq_ok.mp h
  exact .setStake _ (Chain.not_owned_of_stakes_none hU hnone)

theorem delegate_spares (h : delegate rt c key staker vote = .ok c') (hU : ¬U staker) :
    c.Spares U c' := by
  simp only [delegate, bind_eq_ok, orError_eq_ok, ensure_eq_ok, pure_eq_ok, exists_const] at h
  obtain ⟨account, ha, ⟨hs, -⟩, -, rfl⟩ := h
  exact .setStake _ (Chain.not_owned_of_authority ha fun hown ↦ hU (hs ▸ hown.1))

theorem deactivate_spares (h : deactivate c key staker = .ok c') (hU : ¬U staker) :
    c.Spares U c' := by
  obtain ⟨account, d, ha, -, hs, -, rfl⟩ := deactivate_spec h
  exact .setStake _ (Chain.not_owned_of_authority ha fun hown ↦ hU (hs ▸ hown.1))

/-- Lamports move from one account to another, and both may become or cease to be stake accounts. -/
private theorem spares_of_move {ledger : Ledger Pubkey} {o o' : Option StakeAccount} {y : ℕ}
    (hl : c.lamports.transfer src dst y = some ledger) (hsrc : ¬c.Owned U src)
    (hdst : ¬c.Owned U dst) :
    c.Spares U { (c.setStake src o).setStake dst o' with lamports := ledger } :=
  .of_frame (T := fun k ↦ k = src ∨ k = dst)
    (fun k hk ↦ by
      rcases hk with rfl | rfl
      · exact hsrc
      · exact hdst)
    (fun k hk ↦ le_transfer_balance hl fun h ↦ hk (.inl h))
    (fun k hk ↦ by
      have hne : k ≠ src := fun h ↦ hk (.inl h)
      have hne' : k ≠ dst := fun h ↦ hk (.inr h)
      simp only [Chain.setStake]
      rw [Function.update_of_ne hne', Function.update_of_ne hne])
    (.refl _) (.refl _) rfl

theorem split_spares (h : split rt c src dst staker x = .ok c') (hU : ¬U staker)
    (hdst : ¬c.Owned U dst) : c.Spares U c' := by
  simp only [split, bind_eq_ok, orError_eq_ok, ensure_eq_ok, exists_const] at h
  obtain ⟨account, ha, d, -, hs, -, ledger, hl, h⟩ := h
  have hsrc : ¬c.Owned U src := Chain.not_owned_of_authority ha fun hown ↦ hU (hs ▸ hown.1)
  split at h
  · simp only [bind_eq_ok, ensure_eq_ok, pure_eq_ok, exists_const] at h
    obtain ⟨-, rfl⟩ := h
    exact spares_of_move hl hsrc hdst
  · simp only [bind_eq_ok, ensure_eq_ok, pure_eq_ok, exists_const] at h
    obtain ⟨-, -, rfl⟩ := h
    exact spares_of_move hl hsrc hdst

theorem merge_spares (h : merge rt c dst src staker = .ok c') (hU : ¬U staker) :
    c.Spares U c' := by
  simp only [merge, bind_eq_ok, orError_eq_ok, ensure_eq_ok, pure_eq_ok, exists_const] at h
  obtain ⟨-, account, ha, srcAccount, hsa, d, -, sd, -, hs, ⟨hs', -⟩, -, -, -, stake, -, ledger,
    hl, rfl⟩ := h
  refine spares_of_move hl ?_ ?_
  · exact Chain.not_owned_of_authority hsa fun hown ↦ hU (hs ▸ hs' ▸ hown.1)
  · exact Chain.not_owned_of_authority ha fun hown ↦ hU (hs ▸ hown.1)

theorem withdraw_spares (h : withdraw rt c key withdrawer dst x = .ok c') (hU : ¬U withdrawer) :
    c.Spares U c' := by
  simp only [withdraw, bind_eq_ok, orError_eq_ok, ensure_eq_ok, exists_const] at h
  obtain ⟨account, ha, hw, -, ledger, hl, h⟩ := h
  have hkey : ¬c.Owned U key := Chain.not_owned_of_authority ha fun hown ↦ hU (hw ▸ hown.2)
  split at h
  · simp only [bind_eq_ok, ensure_eq_ok, pure_eq_ok, exists_const] at h
    obtain ⟨-, rfl⟩ := h
    exact .of_frame (T := (· = key)) (fun _ hj ↦ hj ▸ hkey)
      (fun _ hj ↦ le_transfer_balance hl hj) (fun _ hj ↦ Function.update_of_ne hj ..)
      (.refl _) (.refl _) rfl
  · simp only [bind_eq_ok, ensure_eq_ok, pure_eq_ok, exists_const] at h
    obtain ⟨-, rfl⟩ := h
    exact .of_frame (T := (· = key)) (fun _ hj ↦ hj ▸ hkey)
      (fun _ hj ↦ le_transfer_balance hl hj) (fun _ _ ↦ rfl) (.refl _) (.refl _) rfl

theorem withdrawUninitialized_spares (h : withdrawUninitialized c key dst = .ok c')
    (hU : ¬U key) : c.Spares U c' := by
  simp only [withdrawUninitialized, bind_eq_ok, ensure_eq_ok, exists_const] at h
  obtain ⟨hnone, h⟩ := h
  exact SystemProgram.transfer_spares h (Chain.not_owned_of_stakes_none hU hnone)

/-- An account that is created and given back concerns only whoever signed for it. -/
theorem return_unused_spares {c₁ c₂ : Chain}
    (h₁ : SystemProgram.initStakeAccount rt c payer key = .ok c₁)
    (h₂ : c₁.SparesOthers [payer, key] c₂) (h₃ : withdrawUninitialized c₂ key dst = .ok c') :
    c.SparesOthers [payer, key] c' := by
  intro U hU
  have hinit := SystemProgram.initStakeAccount_spares h₁ hU.not_head
  have hreturned := withdrawUninitialized_spares h₃ (hU.not_signer key (by simp))
  exact (hinit.trans (h₂ U hU)).trans hreturned

theorem setLockup_spares {lockup : Lockup} (h : setLockup c key authority lockup = .ok c')
    (hU : ¬U authority) : c.Spares U c' := by
  simp only [setLockup, bind_eq_ok, orError_eq_ok, ensure_eq_ok, pure_eq_ok, exists_const] at h
  obtain ⟨account, ha, -, hw, rfl⟩ := h
  exact .setStake _ (Chain.not_owned_of_authority ha fun hown ↦ hU (hw ▸ hown.2))

theorem authorizeStaker_spares (h : authorizeStaker c key authority staker = .ok c')
    (hU : ¬U authority) : c.Spares U c' := by
  simp only [authorizeStaker, bind_eq_ok, orError_eq_ok, ensure_eq_ok, pure_eq_ok,
    exists_const] at h
  obtain ⟨account, ha, hs | hw, rfl⟩ := h
  · exact .setStake _ (Chain.not_owned_of_authority ha fun hown ↦ hU (hs ▸ hown.1))
  · exact .setStake _ (Chain.not_owned_of_authority ha fun hown ↦ hU (hw ▸ hown.2))

theorem authorizeWithdrawer_spares (h : authorizeWithdrawer c key authority withdrawer = .ok c')
    (hU : ¬U authority) : c.Spares U c' := by
  obtain ⟨account, ha, hw, rfl⟩ := authorizeWithdrawer_spec h
  exact .setStake _ (Chain.not_owned_of_authority ha fun hown ↦ hU (hw ▸ hown.2))

end StakeProgram

end

end Marinade
