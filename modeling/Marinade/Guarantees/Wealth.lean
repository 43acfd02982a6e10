import Marinade.Foundation.Wealth
import Marinade.Guarantees.LiquidUnstake

/-!
# Trading with the pool makes nobody richer

A party has lamports, tickets, mSOL and LP tokens. What that is worth changes whenever the price of
mSOL or of an LP token does, and a party moves both prices by its own deposits, orders, withdrawals
and swaps. Still no sequence of them, in whatever order and over however many epochs, makes it
richer: what it gains by a price it has moved it has paid for before.

Only rounding is left. A deposit that is filled partly from the pool buys the leg at its value
rounded down, and liquidity is added at the value of the leg rounded down. Each of these gains a
party at most one lamport.

The first to come is another matter. Whoever deposits while there are no mSOL, or adds liquidity
while there are no LP tokens, gets all that fees and donations have left there; that is no trade.
-/

open Foundation Foundation.Ledger

namespace Marinade

/-- The addresses of somebody's accounts, none of which belongs to the program. -/
structure Party where
  addresses : Finset Pubkey
  can_sign : ∀ k ∈ addresses, k.canSign = true

/-! ## What a party has -/

instance (c : Chain) (k : Pubkey) : Decidable (c.Managed k) :=
  decidable_of_iff ((c.stakes k).any fun account ↦
      decide (account.stakeMeta.staker = .stakeDepositAuthority ∧
        account.stakeMeta.withdrawer = .stakeWithdrawAuthority) = true) <| by
    rw [Chain.Managed, Option.any_eq_true]
    simp only [decide_eq_true_eq]

/-- What the ticket at an address promises. -/
def Chain.ticketAmount (c : Chain) (k : Pubkey) : ℕ :=
  ((c.tickets.lookup k).map (·.lamportsAmount)).getD 0

/-- The lamports somebody can have from an account: none from a managed one, and from the SOL leg
what is above its rent. -/
def World.freeLamports (w : World) (k : Pubkey) : ℕ :=
  if w.Managed k then 0 else w.lamportsOf k - only .solLeg w.state.rentExemptForTokenAcc k

namespace Party

variable (p : Party) (w : World)

def lamports : ℕ :=
  ∑ k ∈ p.addresses, w.freeLamports k

def tickets : ℕ :=
  ∑ k ∈ p.addresses, w.ticketAmount k

def msol : ℕ :=
  ∑ k ∈ p.addresses, w.msol.amount k

def lp : ℕ :=
  ∑ k ∈ p.addresses, w.lp.amount k

end Party

/-- What mSOL are worth, exactly. -/
def State.worthOf (s : State) (n : ℚ) : ℚ :=
  worth s.virtualStaked s.msolSupply n

/-- What the legs of the liquidity pool are worth, exactly. -/
def World.legsWorth (w : World) : ℚ :=
  w.freeLamports .solLeg + w.state.worthOf (w.msol.amount .msolLeg)

/-- What a party has is worth. -/
def Party.wealth (p : Party) (w : World) : ℚ :=
  p.lamports w + p.tickets w + w.state.worthOf (p.msol w) + worth w.legsWorth w.lp.supply (p.lp w)

section

variable {p : Party} {rt : Runtime} {c c' : Chain} {w w' : World} {x y : ℕ} {k src dst : Pubkey}

/-! ## Parts of the whole -/

namespace Party

/-- The part of the liquidity pool that belongs to a party. -/
def part (p : Party) (w : World) : ℚ :=
  p.lp w / w.lp.supply

/-- Lamports held, and the part `φ` of those in the leg. -/
def coinsWith (p : Party) (w : World) (φ : ℚ) : ℚ :=
  holding p.addresses φ .solLeg w.freeLamports

/-- mSOL held, and the part `φ` of those in the leg. -/
def tokensWith (p : Party) (w : World) (φ : ℚ) : ℚ :=
  holding p.addresses φ .msolLeg w.msol.amount

/-- A party has its part of each leg, and may be given or be denied any other part of both instead
if that is accounted for. -/
theorem wealth_eq (φ : ℚ) : p.wealth w = p.coinsWith w φ + p.tickets w
    + w.state.worthOf (p.tokensWith w φ) + (p.part w - φ) * w.legsWorth := by
  unfold wealth coinsWith tokensWith World.legsWorth State.worthOf worth holding part lamports msol
  ring

variable (p w) in
theorem part_nonneg : 0 ≤ p.part w :=
  div_nonneg (Nat.cast_nonneg _) (Nat.cast_nonneg _)

variable (p w) in
theorem part_le_one : p.part w ≤ 1 :=
  div_le_one_of_le₀ (Nat.cast_le.mpr (w.lp.ledger.sum_le_total _)) (Nat.cast_nonneg _)

theorem part_mul {v : ℚ} : p.part w * v = worth v w.lp.supply (p.lp w) := by
  unfold part worth
  ring

theorem notMem_of_not_canSign (h : k.canSign = false) : k ∉ p.addresses := by
  intro hk
  rw [p.can_sign k hk] at h
  cases h

theorem solLeg_notMem : .solLeg ∉ p.addresses :=
  notMem_of_not_canSign rfl

theorem msolLeg_notMem : .msolLeg ∉ p.addresses :=
  notMem_of_not_canSign rfl

theorem tokensWith_le_supply {φ : ℚ} (hb : Bounds w) (hφ : φ ≤ 1) :
    p.tokensWith w φ ≤ w.state.msolSupply :=
  (holding_le_total w.msol.ledger hφ msolLeg_notMem).trans (Nat.cast_le.mpr hb.supply_le)

theorem wealth_eq_of_part (h : p.part w' = p.part w) : p.wealth w' = p.coinsWith w' (p.part w)
    + p.tickets w' + w'.state.worthOf (p.tokensWith w' (p.part w)) := by
  rw [wealth_eq (p.part w), h, sub_self, zero_mul, add_zero]

theorem tokensWith_nonneg {φ : ℚ} (hφ : 0 ≤ φ) : 0 ≤ p.tokensWith w φ :=
  holding_nonneg hφ

/-- A part of what is in the leg is at most all of it. -/
theorem tokensWith_add_le_supply {φ : ℚ} (hb : Bounds w) (hφ : φ ≤ 1)
    (hx : x ≤ w.msol.amount .msolLeg) : p.tokensWith w φ + (1 - φ) * x ≤ w.state.msolSupply := by
  refine le_trans ?_ (tokensWith_le_supply hb le_rfl (p := p))
  have hle : (1 - φ) * (x : ℚ) ≤ (1 - φ) * w.msol.amount .msolLeg :=
    mul_le_mul_of_nonneg_left (Nat.cast_le.mpr hx) (sub_nonneg.mpr hφ)
  unfold tokensWith holding
  linarith

theorem tickets_congr (h : w'.tickets = w.tickets) : p.tickets w' = p.tickets w := by
  simp only [tickets, Chain.ticketAmount, h]

theorem part_congr (h : w'.lp = w.lp) : p.part w' = p.part w := by
  simp only [part, lp, h]

end Party

theorem State.worthOf_add_mul {s : State} {t φ n : ℚ} :
    s.worthOf (t + φ * n) = s.worthOf t + φ * s.worthOf n := by
  rw [worthOf, worth_add, worth_mul]
  rfl

theorem State.le_worthOf {s : State} {a n : ℕ} (h : a * s.msolSupply ≤ n * s.virtualStaked)
    (hzero : s.msolSupply = 0 → a = 0) : (a : ℚ) ≤ s.worthOf n := by
  rcases Nat.eq_zero_or_pos s.msolSupply with hs | hs
  · rw [hzero hs, Nat.cast_zero]
    exact worth_nonneg (Nat.cast_nonneg _) (Nat.cast_nonneg _) (Nat.cast_nonneg _)
  · rw [worthOf, le_worth_iff (Nat.cast_pos.mpr hs)]
    exact_mod_cast h

theorem State.worthOf_mul {s : State} {φ n : ℚ} : s.worthOf (φ * n) = φ * s.worthOf n :=
  worth_mul _ _ _ _

/-- The value that mSOL are traded at is rounded down. -/
theorem State.worthOf_of_proportional {s : State} {n r : ℕ}
    (h : proportional n s.virtualStaked s.msolSupply = .ok r) (hn : n ≤ s.msolSupply) :
    (r : ℚ) ≤ s.worthOf n ∧ s.worthOf n ≤ r + 1 := by
  refine ⟨State.le_worthOf (proportional_mul_le h) fun hzero ↦ ?_, ?_⟩
  · rw [hzero, proportional, if_pos rfl, Except.ok.injEq] at h
    omega
  · rcases Nat.eq_zero_or_pos s.msolSupply with hs | hs
    · rw [worthOf, hs, Nat.cast_zero, worth, div_zero, mul_zero]
      positivity
    · have hround := (lt_proportional_mul_add h hs).le
      rw [worthOf, worth_le_iff (Nat.cast_pos.mpr hs), add_mul, one_mul]
      exact_mod_cast hround

theorem State.worthOf_mono {s : State} {t t' : ℚ} (h : t ≤ t') : s.worthOf t ≤ s.worthOf t' :=
  worth_mono (Nat.cast_nonneg _) (Nat.cast_nonneg _) h

/-- What is added to the value pays for the new shares. -/
theorem State.worthOf_issue_le {s s' : State} {a m : ℕ} {t t' : ℚ} (hs : 0 < s.msolSupply)
    (hvalue : s'.virtualStaked ≤ s.virtualStaked + a) (hsupply : s'.msolSupply = s.msolSupply + m)
    (hcost : m * s.virtualStaked ≤ a * s.msolSupply) (ht : 0 ≤ t) (hle : t ≤ s.msolSupply)
    (hnonneg : 0 ≤ t') (hgot : t' ≤ t + m) : s'.worthOf t' ≤ s.worthOf t + a := by
  have hvalue' : (s'.virtualStaked : ℚ) ≤ s.virtualStaked + a := by exact_mod_cast hvalue
  have hsupply' : (s'.msolSupply : ℚ) = s.msolSupply + m := by exact_mod_cast hsupply
  have hcost' : (m : ℚ) * s.virtualStaked ≤ a * s.msolSupply := by exact_mod_cast hcost
  unfold worthOf
  rw [hsupply']
  calc worth (s'.virtualStaked : ℚ) (s.msolSupply + m) t'
    _ ≤ worth (s.virtualStaked + a : ℚ) (s.msolSupply + m) t' :=
        worth_mono_value (by positivity) hnonneg hvalue'
    _ ≤ worth (s.virtualStaked + a : ℚ) (s.msolSupply + m) (t + m) :=
        worth_mono (by positivity) (by positivity) hgot
    _ ≤ worth (s.virtualStaked : ℚ) s.msolSupply t + a :=
        worth_issue_le (Nat.cast_pos.mpr hs) ht hle (Nat.cast_nonneg _) hcost'

/-! ## Free lamports -/

theorem Chain.managed_congr (h : c'.stakes = c.stakes) : c'.Managed k ↔ c.Managed k := by
  rw [Managed, Managed, h]

theorem Chain.not_managed_of_isUnused (h : c.isUnused k = true) : ¬c.Managed k :=
  not_managed_of_stakes (stakes_eq_none_of_isUnused h)

theorem Party.coinsWith_congr {φ : ℚ} (hlamports : w'.lamports = w.lamports)
    (hstakes : w'.stakes = w.stakes)
    (hrent : w'.state.rentExemptForTokenAcc = w.state.rentExemptForTokenAcc) :
    p.coinsWith w' φ = p.coinsWith w φ := by
  have hfree : w'.freeLamports = w.freeLamports := funext fun k ↦ by
    rw [World.freeLamports, World.freeLamports, if_congr (Chain.managed_congr hstakes) rfl rfl,
      Chain.lamportsOf, hlamports, hrent]
  rw [coinsWith, coinsWith, hfree]

theorem not_managed_solLeg (hw : WellFormed rt w) : ¬w.Managed .solLeg := by
  rintro ⟨account, ha, -⟩
  cases (hw.stakes_sound _ _ ha).place

/-- Free lamports move as lamports do, as long as only the program takes from managed accounts. -/
theorem Bounds.freeLamports_add_le {out inn : Pubkey → ℕ} (hb : Bounds w')
    (hrent : w'.state.rentExemptForTokenAcc = w.state.rentExemptForTokenAcc)
    (hkept : ∀ k, w.Managed k → w'.Managed k ∧ out k = 0)
    (h : ∀ k, w'.lamportsOf k + out k ≤ w.lamportsOf k + inn k) (k : Pubkey) :
    w'.freeLamports k + out k ≤ w.freeLamports k + inn k := by
  unfold World.freeLamports
  by_cases hm : w.Managed k
  · obtain ⟨hm', hnone⟩ := hkept k hm
    rw [if_pos hm, if_pos hm', hnone]
    exact Nat.zero_le _
  · have hle : only .solLeg w'.state.rentExemptForTokenAcc k ≤ w'.lamportsOf k := by
      unfold only
      split
      · rename_i hk
        rw [hk]
        exact hb.sol_leg_le
      · exact Nat.zero_le _
    have hk := h k
    rw [hrent] at hle ⊢
    rw [if_neg hm]
    split <;> omega

theorem managed_and_only_eq_zero (hstakes : w'.stakes = w.stakes) (hsrc : ¬w.Managed src)
    (hk : w.Managed k) : w'.Managed k ∧ only src x k = 0 := by
  refine ⟨(Chain.managed_congr hstakes).mpr hk, only_of_ne ?_ x⟩
  rintro rfl
  exact hsrc hk

/-- What a party has left, and what was taken from it, is what it had and what it got. -/
theorem Party.coinsWith_add_le {out inn : Pubkey → ℕ} {φ : ℚ} (hφ : 0 ≤ φ)
    (h : ∀ k, w'.freeLamports k + out k ≤ w.freeLamports k + inn k) :
    p.coinsWith w' φ + holding p.addresses φ .solLeg out
      ≤ p.coinsWith w φ + holding p.addresses φ .solLeg inn := by
  rw [coinsWith, coinsWith, ← holding_add, ← holding_add]
  exact holding_mono hφ h

theorem Party.tokensWith_add_eq {out inn : Pubkey → ℕ} (φ : ℚ)
    (h : ∀ k, w'.msol.amount k + out k = w.msol.amount k + inn k) :
    p.tokensWith w' φ + holding p.addresses φ .msolLeg out
      = p.tokensWith w φ + holding p.addresses φ .msolLeg inn := by
  rw [tokensWith, tokensWith, ← holding_add, ← holding_add]
  exact holding_congr (fun k _ ↦ h k) (h _)

/-! ## Deposits -/

/-- What a deposit buys from the leg is worth what it pays for it, but for rounding. -/
theorem Deposit.Spec.swapped_worth_le {accounts e} (h : Deposit.Spec accounts x w w' e)
    (hs : 0 < w.state.msolSupply) : w.state.worthOf e.msolSwapped
      ≤ e.solSwapped + if 0 < e.msolSwapped ∧ 0 < e.msolMinted then 1 else 0 := by
  have hpos : (0 : ℚ) < w.state.msolSupply := Nat.cast_pos.mpr hs
  rw [State.worthOf, worth_le_iff hpos]
  rcases h.filled with ⟨hnone, -⟩ | ⟨-, hminted, hsol⟩ | ⟨-, hminted, hworth⟩
  · rw [hnone, Nat.cast_zero, zero_mul]
    positivity
  · have horder := h.order_le hs
    rw [hminted, Nat.add_zero] at horder
    rw [if_neg (by omega), add_zero, hsol]
    exact_mod_cast horder
  · have hround := (lt_proportional_mul_add hworth hs).le
    split
    · rw [add_mul, one_mul]
      exact_mod_cast hround
    · have hnone : e.msolSwapped = 0 := by omega
      rw [hnone, Nat.cast_zero, zero_mul]
      positivity

theorem Deposit.Spec.wealth_le {accounts e} (h : Deposit.Spec accounts x w w' e) (hb : Bounds w)
    (hb' : Bounds w') (hp : accounts.transferFrom ∈ p.addresses) (hs : 0 < w.state.msolSupply) :
    p.wealth w' ≤ p.wealth w + if 0 < e.msolSwapped ∧ 0 < e.msolMinted then 1 else 0 := by
  have hstakes : w'.stakes = w.stakes := by rw [h.frame]
  have hpart : p.part w' = p.part w := p.part_congr (by rw [h.frame])
  have htickets : p.tickets w' = p.tickets w := p.tickets_congr (by rw [h.frame])
  have hcoins : p.coinsWith w' (p.part w) + x
      ≤ p.coinsWith w (p.part w) + p.part w * e.solSwapped := by
    have hmoved : ∀ k, w'.lamportsOf k + only accounts.transferFrom x k
        ≤ w.lamportsOf k + (only .solLeg e.solSwapped k + only .reserve e.solDeposited k) :=
      fun k ↦ ((h.lamports_eq k).trans (Nat.add_assoc _ _ _)).le
    have hsum := p.coinsWith_add_le (p.part_nonneg w) (hb'.freeLamports_add_le
      (by rw [h.state_eq]) (fun _ ↦ managed_and_only_eq_zero hstakes
        (Chain.not_managed_of_isUnused h.payer_unused)) hmoved)
    rwa [holding_add, holding_only_of_mem Party.solLeg_notMem hp,
      holding_only_shared Party.solLeg_notMem,
      holding_only_of_notMem (Party.notMem_of_not_canSign rfl) (by decide), add_zero] at hsum
  have htokens : p.tokensWith w' (p.part w)
      ≤ p.tokensWith w (p.part w) + (1 - p.part w) * e.msolSwapped + e.msolMinted := by
    have hsum := p.tokensWith_add_eq (p.part w) h.amount_eq
    rw [holding_only_shared Party.msolLeg_notMem] at hsum
    have hgot : holding p.addresses (p.part w) .msolLeg
        (only accounts.mintTo (e.msolSwapped + e.msolMinted)) ≤ e.msolSwapped + e.msolMinted := by
      exact_mod_cast holding_only_le (p.part_le_one w) p.msolLeg_notMem
    linarith
  have hvalue : w'.state.worthOf (p.tokensWith w' (p.part w))
      ≤ w.state.worthOf (p.tokensWith w (p.part w) + (1 - p.part w) * e.msolSwapped)
        + e.solDeposited := by
    have hdebts : w'.state.circulatingTicketBalance = w.state.circulatingTicketBalance := by
      rw [h.state_eq]
    have hcontrolled := h.controlled_eq
    refine State.worthOf_issue_le hs ?_ (by rw [h.state_eq]) (h.minted_le hs) ?_ ?_ ?_ htokens
    · unfold State.virtualStaked
      omega
    · exact add_nonneg (p.tokensWith_nonneg (p.part_nonneg w))
        (mul_nonneg (sub_nonneg.mpr (p.part_le_one w)) (Nat.cast_nonneg _))
    · exact p.tokensWith_add_le_supply hb (p.part_le_one w)
        (h.swapped.trans_le (min_le_right _ _))
    · exact p.tokensWith_nonneg (p.part_nonneg w)
  have hround := h.swapped_worth_le hs
  have hpaid : (x : ℚ) = e.solSwapped + e.solDeposited := by exact_mod_cast h.paid.symm
  rw [State.worthOf_add_mul] at hvalue
  rw [Party.wealth_eq_of_part hpart, Party.wealth_eq_of_part rfl, htickets]
  -- only what the others have of the leg is sold below its price
  have hgain : (1 - p.part w) * (w.state.worthOf e.msolSwapped - e.solSwapped)
      ≤ if 0 < e.msolSwapped ∧ 0 < e.msolMinted then 1 else 0 := by
    have hothers : 0 ≤ 1 - p.part w := sub_nonneg.mpr (p.part_le_one w)
    refine (mul_le_mul_of_nonneg_left (sub_le_iff_le_add'.mpr hround) hothers).trans ?_
    refine mul_le_of_le_one_left ?_ (sub_le_self _ (p.part_nonneg w))
    positivity
  linarith

theorem DepositStakeAccount.Spec.freeLamports_le {accounts j e account d v v'}
    (h : DepositStakeAccount.Spec accounts j w w' e account d v v') (hw : WellFormed rt w)
    (k : Pubkey) :
    w'.freeLamports k + only accounts.stakeAccount d.stake k ≤ w.freeLamports k := by
  obtain ⟨lockup, -, hstakes⟩ := h.stakes_eq
  have hlamports : w'.lamportsOf k = w.lamportsOf k := by rw [h.frame]
  have hrent : w'.state.rentExemptForTokenAcc = w.state.rentExemptForTokenAcc := by rw [h.state_eq]
  unfold World.freeLamports
  rw [hlamports, hrent]
  by_cases hk : k = accounts.stakeAccount
  · have hmanaged : w'.Managed k := by
      rw [hk, Chain.Managed, hstakes, Function.update_self]
      exact ⟨_, rfl, rfl, rfl⟩
    have hforeign : ¬w.Managed k := by
      rintro ⟨account', ha, hstaker, -⟩
      rw [hk, h.account_eq, Option.some.injEq] at ha
      rw [← ha] at hstaker
      exact h.foreign hstaker
    have hleg : k ≠ .solLeg := by
      rintro rfl
      have hplace := (hw.stakes_sound _ _ h.account_eq).place
      rw [← hk] at hplace
      cases hplace
    rw [if_pos hmanaged, if_neg hforeign, only_of_ne hleg, hk, only_self, h.funded]
    omega
  · have hmanaged : w'.Managed k ↔ w.Managed k := by
      rw [Chain.Managed, Chain.Managed, hstakes, Function.update_of_ne hk]
    rw [only_of_ne hk, if_congr hmanaged rfl rfl, Nat.add_zero]

theorem DepositStakeAccount.Spec.wealth_le {accounts j e account d v v'}
    (h : DepositStakeAccount.Spec accounts j w w' e account d v v') (hw : WellFormed rt w)
    (hb : Bounds w) (hp : accounts.stakeAccount ∈ p.addresses) (hs : 0 < w.state.msolSupply) :
    p.wealth w' ≤ p.wealth w := by
  have hpart : p.part w' = p.part w := p.part_congr (by rw [h.frame])
  have htickets : p.tickets w' = p.tickets w := p.tickets_congr (by rw [h.frame])
  have hcoins : p.coinsWith w' (p.part w) + d.stake ≤ p.coinsWith w (p.part w) := by
    have hown : holding p.addresses (p.part w) _ (only accounts.stakeAccount d.stake) = d.stake :=
      holding_only_of_mem Party.solLeg_notMem hp
    rw [← hown, Party.coinsWith, Party.coinsWith, ← holding_add]
    exact holding_mono (p.part_nonneg w) (h.freeLamports_le hw)
  have hvalue : w'.state.worthOf (p.tokensWith w' (p.part w))
      ≤ w.state.worthOf (p.tokensWith w (p.part w)) + d.stake := by
    refine State.worthOf_issue_le hs ?_ (by rw [h.state_eq]) ?_
      (p.tokensWith_nonneg (p.part_nonneg w)) (p.tokensWith_le_supply hb (p.part_le_one w))
      (p.tokensWith_nonneg (p.part_nonneg w)) ?_
    · rw [h.state_eq]
      simp only [State.virtualStaked, State.controlled]
      omega
    · exact (sharesFromValue_mul_le h.worth hs).trans (Nat.mul_le_mul_right _ (Nat.sub_le _ _))
    · rw [Party.tokensWith, funext h.amount_eq, holding_add]
      exact add_le_add_right (holding_only_le (p.part_le_one w) p.msolLeg_notMem) _
  rw [Party.wealth_eq_of_part hpart, Party.wealth_eq_of_part rfl, htickets]
  linarith

/-! ## Exits -/

/-- Shares that are given back are worth at least what is taken out for them, also when only `b` of
them are burned. -/
theorem State.worthOf_retire_le {s s' : State} {a b m : ℕ} {t t' : ℚ}
    (hvalue : s'.virtualStaked = s.virtualStaked - a) (ha : a ≤ s.virtualStaked)
    (hsupply : s'.msolSupply = s.msolSupply - b) (hb : b ≤ m)
    (hcost : a * s.msolSupply ≤ m * s.virtualStaked) (hzero : s.msolSupply = 0 → a = 0)
    (hle : t ≤ s.msolSupply) (hleft : t' + m = t) (hnonneg : 0 ≤ t') :
    s'.worthOf t' + a ≤ s.worthOf t := by
  have hm : (m : ℚ) ≤ s.msolSupply := by linarith
  have hm' : m ≤ s.msolSupply := by exact_mod_cast hm
  have hvalue' : (s'.virtualStaked : ℚ) = s.virtualStaked - a := by
    rw [hvalue, Nat.cast_sub ha]
  have hsupply' : (s'.msolSupply : ℚ) = s.msolSupply - b := by
    rw [hsupply, Nat.cast_sub (hb.trans hm')]
  rcases Nat.eq_zero_or_pos s.msolSupply with hs | hs
  · rw [hs, Nat.cast_zero] at hle
    have hnone : t' = 0 := by linarith [(Nat.cast_nonneg m : (0 : ℚ) ≤ m)]
    have hnone' : t = 0 := by linarith [(Nat.cast_nonneg m : (0 : ℚ) ≤ m)]
    rw [hzero hs, hnone, hnone', Nat.cast_zero, add_zero, worthOf, worthOf, worth_zero, worth_zero]
  · have hleft' : t' = t - m := by linarith
    unfold worthOf
    rw [hvalue', hsupply', hleft']
    exact worth_retire_le (Nat.cast_le.mpr ha) (Nat.cast_pos.mpr hs) hle (by linarith)
      (Nat.cast_le.mpr hb) (by exact_mod_cast hcost)

theorem ticketAmount_insert {ticket : TicketAccountData}
    (h : w'.tickets = w.tickets.insert src ticket) (k : Pubkey) :
    w'.ticketAmount k ≤ w.ticketAmount k + only src ticket.lamportsAmount k := by
  unfold Chain.ticketAmount
  rw [h]
  by_cases hk : k = src
  · rw [hk, AList.lookup_insert, only_self]
    exact Nat.le_add_left _ _
  · rw [AList.lookup_insert_ne hk]
    exact Nat.le_add_right _ _

theorem OrderUnstake.Spec.wealth_le {accounts e} (h : OrderUnstake.Spec rt accounts x w w' e)
    (hb : Bounds w) (hp : accounts.burnMsolFrom ∈ p.addresses) : p.wealth w' ≤ p.wealth w := by
  have hpart : p.part w' = p.part w := p.part_congr (by rw [h.frame])
  have hcoins : p.coinsWith w' (p.part w) = p.coinsWith w (p.part w) :=
    p.coinsWith_congr (by rw [h.frame]) (by rw [h.frame]) (by rw [h.state_eq])
  have htickets : (p.tickets w' : ℚ) ≤ p.tickets w + e.solAmount := by
    have hsum : p.tickets w' ≤ p.tickets w + e.solAmount :=
      calc p.tickets w'
        _ ≤ ∑ k ∈ p.addresses, (w.ticketAmount k + only e.ticket e.solAmount k) :=
            Finset.sum_le_sum fun k _ ↦ ticketAmount_insert h.tickets_eq k
        _ = p.tickets w + ∑ k ∈ p.addresses, only e.ticket e.solAmount k :=
            Finset.sum_add_distrib
        _ ≤ p.tickets w + e.solAmount := Nat.add_le_add_left (sum_only_le _ _ _) _
    exact_mod_cast hsum
  have htokens : p.tokensWith w' (p.part w) + x = p.tokensWith w (p.part w) := by
    rw [Party.tokensWith, Party.tokensWith, ← funext h.amount_eq, holding_add,
      holding_only_of_mem Party.msolLeg_notMem hp]
  obtain ⟨value, hvalue, hfee⟩ := h.worth
  have hle : e.solAmount ≤ value := by omega
  have hworth : w'.state.worthOf (p.tokensWith w' (p.part w)) + e.solAmount
      ≤ w.state.worthOf (p.tokensWith w (p.part w)) := by
    refine State.worthOf_retire_le ?_ (hle.trans (le_virtualStaked_of_worth hvalue h.le_supply))
      (by rw [h.state_eq]) le_rfl ((Nat.mul_le_mul_right _ hle).trans (proportional_mul_le hvalue))
      (fun hzero ↦ ?_) (p.tokensWith_le_supply hb (p.part_le_one w)) htokens
      (p.tokensWith_nonneg (p.part_nonneg w))
    · rw [h.state_eq]
      exact (Nat.sub_sub _ _ _).symm
    · have hnone := le_virtualStaked_of_worth hvalue h.le_supply
      have hx := h.le_supply
      rcases proportional_eq_ok.mp hvalue with ⟨-, rfl⟩ | ⟨hpos, -⟩ <;> omega
  rw [Party.wealth_eq_of_part hpart, Party.wealth_eq_of_part rfl, hcoins]
  linarith

/-- The account that is split stays managed, and no managed account pays for the rent. -/
theorem WithdrawStakeAccount.Spec.managed_and_only_eq_zero
    {accounts i j beneficiary e account d r v topUp}
    (h : WithdrawStakeAccount.Spec rt accounts i j x beneficiary w w' e account d r v topUp)
    (hk : w.Managed k) : w'.Managed k ∧ only accounts.splitStakeRentPayer topUp k = 0 := by
  have hne : k ≠ accounts.splitStakeAccount := by
    rintro rfl
    exact Chain.not_managed_of_isUnused h.split_unused hk
  have hpayer : k ≠ accounts.splitStakeRentPayer := by
    rintro rfl
    exact Chain.not_managed_of_isUnused h.payer_unused hk
  refine ⟨?_, only_of_ne hpayer _⟩
  rw [Chain.Managed, h.stakes_eq, Function.update_of_ne hne]
  by_cases hsrc : k = accounts.stakeAccount
  · obtain ⟨account', ha, hauthorities⟩ := hk
    rw [hsrc, h.account_eq, Option.some.injEq] at ha
    rw [hsrc, Function.update_self, ha]
    exact ⟨_, rfl, hauthorities⟩
  · rw [Function.update_of_ne hsrc]
    exact hk

theorem WithdrawStakeAccount.process_wealth_le {accounts i j beneficiary e}
    (h : WithdrawStakeAccount.process rt accounts i j x beneficiary w = .ok (w', e))
    (hw : WellFormed rt w) (hb : Bounds w) (hb' : Bounds w')
    (hp : accounts.burnMsolFrom ∈ p.addresses)
    (hpayer : accounts.splitStakeRentPayer ∈ p.addresses)
    (htreasury : w.state.treasuryMsolAccount ∉ p.addresses)
    (hleg : w.state.treasuryMsolAccount ≠ .msolLeg) : p.wealth w' ≤ p.wealth w := by
  obtain ⟨account, d, r, v, topUp, h⟩ := process_spec h (hw.stakes_sound.funded _)
  have hpart : p.part w' = p.part w := p.part_congr (by rw [h.frame])
  have htickets : p.tickets w' = p.tickets w := p.tickets_congr (by rw [h.frame])
  have hcoins : p.coinsWith w' (p.part w) ≤ p.coinsWith w (p.part w) + e.splitLamports := by
    have hmoved : ∀ k, w'.lamportsOf k + only accounts.splitStakeRentPayer topUp k
        ≤ w.lamportsOf k + only accounts.splitStakeAccount (topUp + e.splitLamports) k :=
      fun k ↦ (Nat.le_add_right _ _).trans (h.lamports_eq k).le
    have hsum := p.coinsWith_add_le (p.part_nonneg w) (hb'.freeLamports_add_le
      (by rw [h.state_eq]) (fun k hk ↦ ?_) hmoved)
    · rw [holding_only_of_mem Party.solLeg_notMem hpayer] at hsum
      have hgot : holding p.addresses (p.part w) .solLeg
          (only accounts.splitStakeAccount (topUp + e.splitLamports))
            ≤ topUp + e.splitLamports := by
        exact_mod_cast holding_only_le (p.part_le_one w) p.solLeg_notMem
      linarith
    · exact h.managed_and_only_eq_zero hk
  have htokens : p.tokensWith w' (p.part w) + x = p.tokensWith w (p.part w) := by
    have hsum := p.tokensWith_add_eq (p.part w) h.amount_eq
    rwa [holding_only_of_mem Party.msolLeg_notMem hp, holding_only_of_notMem htreasury hleg.symm,
      add_zero] at hsum
  obtain ⟨value, hvalue, hfee⟩ := h.worth
  have hle : e.splitLamports ≤ value := by omega
  have hx : x ≤ w.state.msolSupply := by
    have hx : (x : ℚ) ≤ w.state.msolSupply := by
      linarith [p.tokensWith_le_supply hb (p.part_le_one w),
        p.tokensWith_nonneg (w := w') (p.part_nonneg w)]
    exact_mod_cast hx
  have hworth : w'.state.worthOf (p.tokensWith w' (p.part w)) + e.splitLamports
      ≤ w.state.worthOf (p.tokensWith w (p.part w)) := by
    have hpaid := h.paid
    refine State.worthOf_retire_le ?_ (hle.trans (le_virtualStaked_of_worth hvalue hx))
      (by rw [h.state_eq]) (by omega : e.msolBurned ≤ x)
      ((Nat.mul_le_mul_right _ hle).trans (proportional_mul_le hvalue))
      (fun hzero ↦ ?_) (p.tokensWith_le_supply hb (p.part_le_one w)) htokens
      (p.tokensWith_nonneg (p.part_nonneg w))
    · have htotal := h.total_balance
      rw [h.state_eq]
      simp only [State.virtualStaked, State.controlled]
      omega
    · rcases proportional_eq_ok.mp hvalue with ⟨-, rfl⟩ | ⟨hpos, -⟩ <;> omega
  rw [Party.wealth_eq_of_part hpart, Party.wealth_eq_of_part rfl, htickets]
  linarith

/-! ## Tickets -/

theorem ticketAmount_erase {ticket : TicketAccountData}
    (hticket : w.tickets.lookup src = some ticket) (h : w'.tickets = w.tickets.erase src)
    (k : Pubkey) :
    w'.ticketAmount k + only src ticket.lamportsAmount k = w.ticketAmount k := by
  unfold Chain.ticketAmount
  rw [h]
  by_cases hk : k = src
  · rw [hk, AList.lookup_erase, only_self, hticket]
    exact Nat.zero_add _
  · rw [AList.lookup_erase_ne hk, only_of_ne hk, Nat.add_zero]

theorem Claim.Spec.wealth_le {accounts e rent} (h : Claim.Spec accounts w w' e rent)
    (hw : WellFormed rt w) (hb' : Bounds w') (hp : accounts.ticketAccount ∈ p.addresses) :
    p.wealth w' ≤ p.wealth w := by
  obtain ⟨epoch, hticket⟩ := h.ticket
  have hstakes : w'.stakes = w.stakes := by rw [h.frame]
  have hmsol : w'.msol = w.msol := by rw [h.frame]
  have hpart : p.part w' = p.part w := p.part_congr (by rw [h.frame])
  have hcoins : p.coinsWith w' (p.part w) ≤ p.coinsWith w (p.part w) + e.amount := by
    have hforeign : ¬w.Managed accounts.ticketAccount := by
      refine Chain.not_managed_of_stakes ?_
      rw [← h.ticket_eq]
      exact (hw.ticket_place _ _ ⟨hticket, rfl⟩).2
    have hmoved : ∀ k, w'.lamportsOf k + only accounts.ticketAccount rent k
        ≤ w.lamportsOf k + only accounts.transferSolTo (e.amount + rent) k := fun k ↦ by
      have heq := h.lamports_eq k
      omega
    have hsum := p.coinsWith_add_le (p.part_nonneg w) (hb'.freeLamports_add_le
      (by rw [h.state_eq]) (fun _ ↦ managed_and_only_eq_zero hstakes hforeign) hmoved)
    rw [holding_only_of_mem Party.solLeg_notMem hp] at hsum
    have hgot : holding p.addresses (p.part w) .solLeg
        (only accounts.transferSolTo (e.amount + rent)) ≤ e.amount + rent := by
      exact_mod_cast holding_only_le (p.part_le_one w) p.solLeg_notMem
    linarith
  have htickets : (p.tickets w' : ℚ) + e.amount = p.tickets w := by
    have hsum : p.tickets w' + e.amount = p.tickets w := by
      rw [← sum_only_of_mem (h.ticket_eq ▸ hp : e.ticket ∈ p.addresses) e.amount, Party.tickets,
        Party.tickets, ← Finset.sum_add_distrib]
      exact Finset.sum_congr rfl fun k _ ↦ ticketAmount_erase hticket h.tickets_eq k
    exact_mod_cast hsum
  have hworth : w'.state.worthOf (p.tokensWith w' (p.part w))
      = w.state.worthOf (p.tokensWith w (p.part w)) := by
    have hvalue : w'.state.virtualStaked = w.state.virtualStaked := by
      have havailable := h.le_available
      have hbalance := h.le_balance
      rw [h.state_eq]
      simp only [State.virtualStaked, State.controlled]
      omega
    rw [State.worthOf, State.worthOf, hvalue, Party.tokensWith, Party.tokensWith, hmsol, h.state_eq]
  rw [Party.wealth_eq_of_part hpart, Party.wealth_eq_of_part rfl, hworth]
  linarith

/-! ## The liquidity pool -/

/-- Of what the SOL leg pays a party gains what the others had in it, at most. -/
theorem Party.coinsWith_paid_le {φ : ℚ} (hφ : 0 ≤ φ) (hle : φ ≤ 1) (hw : WellFormed rt w)
    (hb' : Bounds w') (hstakes : w'.stakes = w.stakes)
    (hrent : w'.state.rentExemptForTokenAcc = w.state.rentExemptForTokenAcc)
    (hpaid : ∀ k, w'.lamportsOf k + only .solLeg x k = w.lamportsOf k + only dst x k) :
    p.coinsWith w' φ + φ * x ≤ p.coinsWith w φ + x := by
  have hsum := p.coinsWith_add_le hφ (hb'.freeLamports_add_le hrent
    (fun _ ↦ managed_and_only_eq_zero hstakes (not_managed_solLeg hw)) fun k ↦ (hpaid k).le)
  rw [holding_only_shared Party.solLeg_notMem] at hsum
  exact hsum.trans (add_le_add_right (holding_only_le hle p.solLeg_notMem) _)

theorem LiquidUnstake.Spec.wealth_le {accounts e} (h : LiquidUnstake.Spec accounts x w w' e)
    (hw : WellFormed rt w) (hb : Bounds w) (hb' : Bounds w')
    (hp : accounts.getMsolFrom ∈ p.addresses) : p.wealth w' ≤ p.wealth w := by
  have hstakes : w'.stakes = w.stakes := by rw [h.frame]
  have hpart : p.part w' = p.part w := p.part_congr (by rw [h.frame])
  have htickets : p.tickets w' = p.tickets w := p.tickets_congr (by rw [h.frame])
  have hcoins : p.coinsWith w' (p.part w) + p.part w * e.solAmount
      ≤ p.coinsWith w (p.part w) + e.solAmount :=
    Party.coinsWith_paid_le (p.part_nonneg w) (p.part_le_one w) hw hb' hstakes
      (by rw [h.state_eq]) h.lamports_eq
  have hcut : e.treasuryMsolCut ≤ e.msolFee := by
    have hpart := h.cut_le_fee hw.admissible.liq_pool
    omega
  have htokens : p.tokensWith w' (p.part w) + (1 - p.part w) * (x - e.treasuryMsolCut : ℕ)
      ≤ p.tokensWith w (p.part w) := by
    have hmoved : ∀ k, w'.msol.amount k + only accounts.getMsolFrom x k = w.msol.amount k
        + (only .msolLeg (x - e.treasuryMsolCut) k
          + only w.state.treasuryMsolAccount e.treasuryMsolCut k) :=
      fun k ↦ (h.amount_eq k).trans (Nat.add_assoc _ _ _)
    have hsum := p.tokensWith_add_eq (p.part w) hmoved
    rw [holding_only_of_mem Party.msolLeg_notMem hp, holding_add,
      holding_only_shared Party.msolLeg_notMem] at hsum
    have hfee : holding p.addresses (p.part w) .msolLeg
        (only w.state.treasuryMsolAccount e.treasuryMsolCut) ≤ e.treasuryMsolCut :=
      holding_only_le (p.part_le_one w) p.msolLeg_notMem
    have hx : (x : ℚ) = (x - e.treasuryMsolCut : ℕ) + e.treasuryMsolCut := by
      exact_mod_cast (Nat.sub_add_cancel h.cut_le).symm
    linarith
  have hsold : (e.solAmount : ℚ) ≤ w.state.worthOf (x - e.treasuryMsolCut : ℕ) := by
    refine State.le_worthOf ((proportional_mul_le h.worth).trans
      (Nat.mul_le_mul_right _ (Nat.sub_le_sub_left hcut _))) fun hzero ↦ ?_
    have hworth := h.worth
    have hamount := h.le_amount.trans ((w.msol.ledger.balance_le_total _).trans hb.supply_le)
    rw [hzero, proportional, if_pos rfl, Except.ok.injEq] at hworth
    omega
  have hworth : w'.state.worthOf (p.tokensWith w' (p.part w))
      + (1 - p.part w) * w.state.worthOf (x - e.treasuryMsolCut : ℕ)
        ≤ w.state.worthOf (p.tokensWith w (p.part w)) := by
    rw [h.state_eq, ← State.worthOf_add_mul]
    exact State.worthOf_mono htokens
  have hgain : (1 - p.part w) * (e.solAmount : ℚ)
      ≤ (1 - p.part w) * w.state.worthOf (x - e.treasuryMsolCut : ℕ) :=
    mul_le_mul_of_nonneg_left hsold (sub_nonneg.mpr (p.part_le_one w))
  rw [Party.wealth_eq_of_part hpart, Party.wealth_eq_of_part rfl, htickets]
  linarith

/-- The value of the legs that liquidity is added at is rounded down. -/
theorem AddLiquidity.Spec.legsWorth_le {accounts e} (h : AddLiquidity.Spec accounts x w w' e)
    (hw : WellFormed rt w) (hb : Bounds w) :
    ∃ value : ℕ, (value : ℚ) ≤ w.legsWorth ∧ w.legsWorth ≤ value + 1 ∧
      (0 < w.lp.supply → e.lpMinted * value ≤ x * w.lp.supply) := by
  obtain ⟨legValue, hvalue, hshares⟩ := h.shares
  have hfree : w.freeLamports .solLeg = w.lamportsOf .solLeg - w.state.rentExemptForTokenAcc := by
    rw [World.freeLamports, if_neg (not_managed_solLeg hw), only_self]
  obtain ⟨hle, hround⟩ := State.worthOf_of_proportional hvalue
    ((w.msol.ledger.balance_le_total _).trans hb.supply_le)
  refine ⟨_, ?_, ?_, fun hs ↦ sharesFromValue_mul_le hshares hs⟩
  · rw [World.legsWorth, hfree, Nat.cast_add]
    exact add_le_add_right hle _
  · rw [World.legsWorth, hfree, Nat.cast_add]
    linarith

theorem AddLiquidity.Spec.wealth_le {accounts e}
    (h : AddLiquidity.Spec accounts x w w' e) (hw : WellFormed rt w) (hb : Bounds w)
    (hb' : Bounds w') (hp : accounts.transferFrom ∈ p.addresses) (hs : 0 < w.lp.supply) :
    p.wealth w' ≤ p.wealth w + 1 := by
  have hlp : p.lp w' ≤ p.lp w + e.lpMinted := by
    rw [Party.lp, Party.lp, Finset.sum_congr rfl fun k _ ↦ h.lp_amount_eq k,
      Finset.sum_add_distrib]
    exact Nat.add_le_add_left (sum_only_le _ _ _) _
  have hstakes : w'.stakes = w.stakes := by rw [h.frame]
  have htickets : p.tickets w' = p.tickets w := p.tickets_congr (by rw [h.frame])
  have hcoins : p.coinsWith w' (p.part w') + x
      ≤ p.coinsWith w (p.part w') + p.part w' * x := by
    have hsum := p.coinsWith_add_le (p.part_nonneg w') (hb'.freeLamports_add_le
      (by rw [h.state_eq]) (fun _ ↦ managed_and_only_eq_zero hstakes
        (Chain.not_managed_of_isUnused h.payer_unused)) fun k ↦ (h.lamports_eq k).le)
    rwa [holding_only_of_mem Party.solLeg_notMem hp,
      holding_only_shared Party.solLeg_notMem] at hsum
  have hworth : w'.state.worthOf (p.tokensWith w' (p.part w'))
      = w.state.worthOf (p.tokensWith w (p.part w')) := by
    have hmsol : w'.msol = w.msol := by rw [h.frame]
    rw [Party.tokensWith, Party.tokensWith, hmsol, h.state_eq]
    rfl
  -- the price of an LP token at which they are minted, and what it lacks
  obtain ⟨value, hle, hround, hcost⟩ := h.legsWorth_le hw hb
  have hissue : p.part w' * (value + x) ≤ p.part w * value + x := by
    have hlp' : (p.lp w' : ℚ) ≤ p.lp w + e.lpMinted := by exact_mod_cast hlp
    have hsupply : (w'.lp.supply : ℚ) = w.lp.supply + e.lpMinted := by
      exact_mod_cast h.lp_supply_eq
    rw [Party.part_mul, Party.part_mul, hsupply]
    refine (worth_mono (by positivity) (by positivity) hlp').trans ?_
    exact worth_issue_le (Nat.cast_pos.mpr hs) (Nat.cast_nonneg _)
      (Nat.cast_le.mpr (w.lp.ledger.sum_le_total _)) (Nat.cast_nonneg _)
      (by exact_mod_cast hcost hs)
  have hlack : (p.part w' - p.part w) * (w.legsWorth - value) ≤ 1 := by
    have hparts : p.part w' - p.part w ≤ 1 :=
      (sub_le_self _ (p.part_nonneg w)).trans (p.part_le_one w')
    have hmul := mul_le_mul_of_nonneg_right hparts (sub_nonneg.mpr hle)
    linarith
  rw [Party.wealth_eq_of_part rfl, Party.wealth_eq (p.part w') (w := w), htickets, hworth]
  linarith

/-- Burned LP tokens are worth what they are paid. -/
theorem RemoveLiquidity.Spec.paid_le {accounts e} (h : RemoveLiquidity.Spec accounts x w w' e)
    (hw : WellFormed rt w) (hb : Bounds w) :
    (e.solOutAmount + w.state.worthOf e.msolOutAmount) * w.lp.supply ≤ x * w.legsWorth := by
  have hfree : w.freeLamports .solLeg = w.lamportsOf .solLeg - w.state.rentExemptForTokenAcc := by
    rw [World.freeLamports, if_neg (not_managed_solLeg hw), only_self]
  have haligned := RemoveLiquidity.alignedSupply_eq hb
  have hsol : (e.solOutAmount : ℚ) * w.lp.supply ≤ x * w.freeLamports .solLeg := by
    rw [hfree, ← haligned]
    exact_mod_cast proportional_mul_le h.sol_out
  have hmsol : (e.msolOutAmount : ℚ) * w.lp.supply ≤ x * w.msol.amount .msolLeg := by
    rw [← haligned]
    exact_mod_cast proportional_mul_le h.msol_out
  have hworth := w.state.worthOf_mono hmsol
  rw [mul_comm, State.worthOf_mul, State.worthOf_mul] at hworth
  rw [World.legsWorth]
  linarith

theorem RemoveLiquidity.Spec.wealth_le {accounts e}
    (h : RemoveLiquidity.Spec accounts x w w' e) (hw : WellFormed rt w) (hb : Bounds w)
    (hb' : Bounds w') (hp : accounts.burnFrom ∈ p.addresses) : p.wealth w' ≤ p.wealth w := by
  have hlp : p.lp w' + x = p.lp w := by
    rw [← sum_only_of_mem hp x, Party.lp, Party.lp, ← Finset.sum_add_distrib]
    exact Finset.sum_congr rfl fun k _ ↦ h.lp_amount_eq k
  have hstakes : w'.stakes = w.stakes := by rw [h.frame]
  have htickets : p.tickets w' = p.tickets w := p.tickets_congr (by rw [h.frame])
  have hcoins : p.coinsWith w' (p.part w') + p.part w' * e.solOutAmount
      ≤ p.coinsWith w (p.part w') + e.solOutAmount :=
    Party.coinsWith_paid_le (p.part_nonneg w') (p.part_le_one w') hw hb' hstakes
      (by rw [h.state_eq]) h.lamports_eq
  have htokens : p.tokensWith w' (p.part w')
      ≤ p.tokensWith w (p.part w') + (1 - p.part w') * e.msolOutAmount := by
    have hsum := p.tokensWith_add_eq (p.part w') h.amount_eq
    rw [holding_only_shared Party.msolLeg_notMem] at hsum
    have hgot : holding p.addresses (p.part w') .msolLeg
        (only accounts.transferMsolTo e.msolOutAmount) ≤ e.msolOutAmount :=
      holding_only_le (p.part_le_one w') p.msolLeg_notMem
    linarith
  have hworth : w'.state.worthOf (p.tokensWith w' (p.part w'))
      ≤ w.state.worthOf (p.tokensWith w (p.part w'))
        + (1 - p.part w') * w.state.worthOf e.msolOutAmount := by
    rw [h.state_eq, ← State.worthOf_add_mul]
    exact State.worthOf_mono htokens
  have hredeem : p.part w' * (w.legsWorth - (e.solOutAmount + w.state.worthOf e.msolOutAmount))
      + (e.solOutAmount + w.state.worthOf e.msolOutAmount) ≤ p.part w * w.legsWorth := by
    have hpaid := h.paid_le hw hb
    have hlp' : (p.lp w' : ℚ) = p.lp w - x := by
      rw [← hlp, Nat.cast_add, add_sub_cancel_right]
    have hsupply : (w'.lp.supply : ℚ) = w.lp.supply - x := by
      rw [← h.lp_supply_eq, Nat.cast_add, add_sub_cancel_right]
    have hle : (p.lp w : ℚ) ≤ w.lp.supply := Nat.cast_le.mpr (w.lp.ledger.sum_le_total _)
    rcases Nat.eq_zero_or_pos w.lp.supply with hs | hs
    -- there is nothing to burn, and nothing is paid
    · have haligned := RemoveLiquidity.alignedSupply_eq hb
      have htokens := h.tokens_le
      have hsol := h.sol_out
      have hmsol := h.msol_out
      rw [haligned, hs] at htokens hsol hmsol
      rw [proportional, if_pos rfl, Except.ok.injEq] at hsol hmsol
      have hnone : p.lp w = 0 := Nat.le_zero.mp (hs ▸ w.lp.ledger.sum_le_total _)
      have hnone' : p.lp w' = 0 := by omega
      rw [Party.part_mul, Party.part_mul, hnone, hnone', ← hsol, ← hmsol, Nat.le_zero.mp htokens,
        Nat.cast_zero, worth_zero, worth_zero, State.worthOf, worth_zero]
      norm_num
    rw [Party.part_mul, Party.part_mul, hsupply, hlp']
    exact worth_redeem_le (Nat.cast_pos.mpr hs) hle
      (by linarith [(Nat.cast_nonneg (p.lp w') : (0 : ℚ) ≤ _)]) hpaid
  rw [Party.wealth_eq_of_part rfl, Party.wealth_eq (p.part w') (w := w), htickets]
  linarith

/-! ## Every run -/

/-- Somebody uses the pool with nothing but their own accounts: they pay with their own lamports,
stake accounts, mSOL, LP tokens and tickets. What they buy may go to anybody. There are mSOL and LP
tokens already when they buy some, and the treasury, which is paid for a withdrawal of stake, is
somebody else's. -/
def Party.trades (p : Party) (w : World) : Label → Bool
  | .instruction (.deposit accounts _) _ =>
    accounts.transferFrom ∈ p.addresses ∧ 0 < w.state.msolSupply
  | .instruction (.depositStakeAccount accounts _) _ =>
    accounts.stakeAccount ∈ p.addresses ∧ 0 < w.state.msolSupply
  | .instruction (.withdrawStakeAccount accounts _ _ _ _) _ =>
    accounts.burnMsolFrom ∈ p.addresses ∧ accounts.splitStakeRentPayer ∈ p.addresses ∧
      w.state.treasuryMsolAccount ∉ insert .msolLeg p.addresses
  | .instruction (.orderUnstake accounts _) _ => accounts.burnMsolFrom ∈ p.addresses
  | .instruction (.claim accounts) _ => accounts.ticketAccount ∈ p.addresses
  | .instruction (.liquidUnstake accounts _) _ => accounts.getMsolFrom ∈ p.addresses
  | .instruction (.addLiquidity accounts _) _ =>
    accounts.transferFrom ∈ p.addresses ∧ 0 < w.lp.supply
  | .instruction (.removeLiquidity accounts _) _ => accounts.burnFrom ∈ p.addresses
  | .external .tick => true
  | _ => false

/-- The lamports that rounding is worth in a step: one where mSOL are bought from the leg and minted
at once, and one where liquidity is added. -/
def Label.rounding : Label → ℕ
  | .instruction _ (.deposit e) => if 0 < e.msolSwapped ∧ 0 < e.msolMinted then 1 else 0
  | .instruction _ (.addLiquidity _) => 1
  | _ => 0

theorem Instruction.wealth_le {i : Instruction} {e : Event} (hw : WellFormed rt w) (hb : Bounds w)
    (hb' : Bounds w') (h : exec rt w i = .ok (w', e)) (hi : p.trades w (.instruction i e) = true) :
    p.wealth w' ≤ p.wealth w + Label.rounding (.instruction i e) := by
  cases i with
  | deposit accounts x =>
    obtain ⟨hfrom, hs⟩ := of_decide_eq_true hi
    obtain ⟨e, hp, rfl⟩ := reporting_eq_ok h
    have hle := (Deposit.process_spec hp).wealth_le hb hb' hfrom hs
    exact_mod_cast hle
  | depositStakeAccount accounts j =>
    obtain ⟨haccount, hs⟩ := of_decide_eq_true hi
    obtain ⟨e, hp, rfl⟩ := reporting_eq_ok h
    obtain ⟨_, _, _, _, h⟩ := DepositStakeAccount.process_spec hp
    exact (h.wealth_le hw hb haccount hs).trans (by simp [Label.rounding])
  | withdrawStakeAccount accounts i j x beneficiary =>
    obtain ⟨hfrom, hpayer, htreasury⟩ := of_decide_eq_true hi
    obtain ⟨e, hp, rfl⟩ := reporting_eq_ok h
    rw [Finset.mem_insert, not_or] at htreasury
    exact (WithdrawStakeAccount.process_wealth_le hp hw hb hb' hfrom hpayer htreasury.2
      htreasury.1).trans (by simp [Label.rounding])
  | orderUnstake accounts x =>
    obtain ⟨e, hp, rfl⟩ := reporting_eq_ok h
    exact ((OrderUnstake.process_spec hp).wealth_le hb (of_decide_eq_true hi)).trans
      (by simp [Label.rounding])
  | claim accounts =>
    obtain ⟨e, hp, rfl⟩ := reporting_eq_ok h
    obtain ⟨_, h⟩ := Claim.process_spec hp
    exact (h.wealth_le hw hb' (of_decide_eq_true hi)).trans (by simp [Label.rounding])
  | liquidUnstake accounts x =>
    obtain ⟨e, hp, rfl⟩ := reporting_eq_ok h
    exact ((LiquidUnstake.process_spec hp).wealth_le hw hb hb' (of_decide_eq_true hi)).trans
      (by simp [Label.rounding])
  | addLiquidity accounts x =>
    obtain ⟨hfrom, hs⟩ := of_decide_eq_true hi
    obtain ⟨e, hp, rfl⟩ := reporting_eq_ok h
    have hle := (AddLiquidity.process_spec hp).wealth_le hw hb hb' hfrom hs
    exact_mod_cast hle
  | removeLiquidity accounts x =>
    obtain ⟨e, hp, rfl⟩ := reporting_eq_ok h
    exact ((RemoveLiquidity.process_spec hp).wealth_le hw hb hb' (of_decide_eq_true hi)).trans
      (by simp [Label.rounding])
  | _ => cases hi

theorem External.wealth_eq {x : External} (h : x.Happens rt w.toChain w'.toChain)
    (hstate : w'.state = w.state) (hx : p.trades w (.external x) = true) :
    p.wealth w' = p.wealth w := by
  cases x with
  | tick =>
    obtain ⟨clock, -, -, hclock⟩ := h
    obtain ⟨c', s'⟩ := w'
    obtain rfl : c' = { w.toChain with clock } := hclock
    obtain rfl : s' = w.state := hstate
    rfl
  | _ => cases hx

theorem Step.wealth_le {l : Label} (hr : (marinade rt).Reachable w) (h : Step rt w l w')
    (hl : p.trades w l = true) : p.wealth w' ≤ p.wealth w + l.rounding := by
  cases l with
  | instruction i e =>
    have hr' : (marinade rt).Reachable w' := hr.step (l := .instruction i e) h
    exact Instruction.wealth_le (wellFormed_of_reachable hr) (bounds_of_reachable hr)
      (bounds_of_reachable hr') h hl
  | external x =>
    rw [External.wealth_eq h.1 h.2 hl]
    exact le_add_of_nonneg_right (Nat.cast_nonneg _)

/-- No sequence of trades makes anybody richer, but for rounding. -/
theorem wealth_of_run (h : (marinade rt).Reachable w) {ls : List Label}
    (hrun : ((marinade rt).restrict fun w l ↦ p.trades w l = true).Run w ls w') :
    p.wealth w' ≤ p.wealth w + (ls.map Label.rounding).sum := by
  induction hrun with
  | nil => exact le_add_of_nonneg_right (Nat.cast_nonneg _)
  | @snoc ls w₁ l w₂ hr hs ih =>
    have hreachable : (marinade rt).Reachable w₁ :=
      (hr.mono fun _ _ _ hs ↦ hs.1).reachable_of h
    have hle := Step.wealth_le hreachable hs.1 hs.2
    rw [List.map_cons, List.sum_cons, Nat.cast_add]
    linarith

end

/-! ## In the sample pool -/

namespace Sample

/-- The accounts of the user. -/
def userAccounts : Finset Pubkey :=
  {user, msolAccount, lpAccount, .external 40}

theorem userAccounts_can_sign : ∀ k ∈ userAccounts, k.canSign = true := by
  decide

def purse : Party :=
  ⟨userAccounts, userAccounts_can_sign⟩

/-- The user buys more than the leg has, sells a part at once, orders the rest, leaves the pool and
claims. -/
def trading : List Action := [
  .run (.deposit ⟨user, msolAccount⟩ 12345678),
  .run (.orderUnstake ⟨msolAccount, user, .external 40⟩ 9000001),
  .run (.removeLiquidity ⟨lpAccount, user, user, msolAccount⟩ 20000001),
  .run (.liquidUnstake ⟨msolAccount, user, user⟩ 3000001),
  .run (.addLiquidity ⟨user, lpAccount⟩ 5000001),
  .tick (startOf 3),
  .run (.claim ⟨.external 40, user⟩)]

theorem trading_isSome : (replay runtime purse.trades pooled.2 trading).isSome := by
  decide +kernel

def traded : List Label × World :=
  (replay runtime purse.trades pooled.2 trading).get trading_isSome

theorem traded_run : ((marinade runtime).restrict fun w l ↦ purse.trades w l = true).Run
    pooled.2 traded.1 traded.2 :=
  restrict_run_of_replay (fun _ _ h ↦ h) rfl (Option.some_get _).symm

end Sample

theorem wealth_sample : Sample.purse.wealth Sample.traded.2
    ≤ Sample.purse.wealth Sample.pooled.2 + (Sample.traded.1.map Label.rounding).sum :=
  wealth_of_run Sample.pooled_reachable Sample.traded_run

end Marinade
