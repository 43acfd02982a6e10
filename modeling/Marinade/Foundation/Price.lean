import Mathlib.Tactic.Linarith
import Mathlib.Tactic.Ring

/-!
# The price of a share

A pool of some value is owned in shares, and one share is worth their ratio. Prices are compared by
cross multiplication, so nothing is divided and a pool without shares needs no exception: it only is
no link in a chain of comparisons.

Whoever issues shares for less than they cost, or pays less for them than they are worth, does not
lower the price for the others. Buying and selling at once therefore gains nothing, even when a part
of the shares comes from somebody who sells at the price rounded down.
-/

namespace Foundation

/-- A value and the number of shares it is divided into. -/
structure Valuation where
  value : ℕ
  shares : ℕ

namespace Valuation

/-- A share of `q` is worth at least as much as a share of `p`. -/
def PriceLe (p q : Valuation) : Prop :=
  p.value * q.shares ≤ q.value * p.shares

variable {p q r : Valuation} {v v' s s' a b m : ℕ}

theorem PriceLe.refl : PriceLe p p :=
  le_rfl

theorem PriceLe.trans (h : PriceLe p q) (h' : PriceLe q r) (hq : 0 < q.shares) : PriceLe p r := by
  unfold PriceLe at *
  refine Nat.le_of_mul_le_mul_right ?_ hq
  calc p.value * r.shares * q.shares
    _ = p.value * q.shares * r.shares := by ring
    _ ≤ q.value * p.shares * r.shares := Nat.mul_le_mul_right _ h
    _ = q.value * r.shares * p.shares := by ring
    _ ≤ r.value * q.shares * p.shares := Nat.mul_le_mul_right _ h'
    _ = r.value * p.shares * q.shares := by ring

/-- Nothing is cheaper than a share in nothing. -/
theorem priceLe_of_value_eq_zero (h : p.value = 0) : PriceLe p q := by
  unfold PriceLe
  rw [h, Nat.zero_mul]
  exact Nat.zero_le _

/-- More value for no more shares. -/
theorem priceLe_of_le (hv : p.value ≤ q.value) (hs : q.shares ≤ p.shares) : PriceLe p q :=
  Nat.mul_le_mul hv hs

/-- Issue `m` shares for `a`, which is at least their price. -/
theorem priceLe_issue (h : m * v ≤ a * s) : PriceLe ⟨v, s⟩ ⟨v + a, s + m⟩ := by
  change v * (s + m) ≤ (v + a) * s
  rw [Nat.mul_add, Nat.add_mul, Nat.mul_comm v m]
  exact Nat.add_le_add_left h _

/-- Pay `a` for `m` shares, which is at most their price. -/
theorem priceLe_redeem (h : a * s ≤ m * v) : PriceLe ⟨v, s⟩ ⟨v - a, s - m⟩ := by
  change v * (s - m) ≤ (v - a) * s
  rw [Nat.mul_sub, Nat.sub_mul, Nat.mul_comm v m]
  exact Nat.sub_le_sub_left h _

/-- Paying for shares lowers the price for the others exactly when they are worth less. -/
theorem priceLe_redeem_iff (ha : a ≤ v) (hm : m ≤ s) :
    PriceLe ⟨v, s⟩ ⟨v - a, s - m⟩ ↔ a * s ≤ m * v := by
  change v * (s - m) ≤ (v - a) * s ↔ _
  have hpaid : a * s ≤ v * s := Nat.mul_le_mul_right _ ha
  have hredeemed : v * m ≤ v * s := Nat.mul_le_mul_left _ hm
  rw [Nat.mul_sub, Nat.sub_mul, Nat.mul_comm m v]
  omega

/-- Shares redeemed for `a` at their number rounded down: for what remains, rounding is no loss only
if there is nothing to round. -/
theorem priceLe_redeem_div_iff (ha : a ≤ v) (hm : a * s / v ≤ s) :
    PriceLe ⟨v, s⟩ ⟨v - a, s - a * s / v⟩ ↔ v ∣ a * s := by
  rw [priceLe_redeem_iff ha hm, Nat.dvd_iff_div_mul_eq]
  exact ⟨fun h ↦ (Nat.div_mul_le_self _ _).antisymm h, fun h ↦ h.ge⟩

/-- What is paid for some of the shares at a price rounded down is covered by the value. -/
theorem le_value_of_redeem (h : a * s ≤ m * v) (hm : m ≤ s) (hs : 0 < s) : a ≤ v := by
  refine Nat.le_of_mul_le_mul_right (h.trans ?_) hs
  rw [Nat.mul_comm v]
  exact Nat.mul_le_mul_right _ hm

/-! ## What a holder has -/

/-- `n` shares of `q` are worth at least what `m` shares of `p` are. -/
def WorthLe (p : Valuation) (m : ℕ) (q : Valuation) (n : ℕ) : Prop :=
  m * p.value * q.shares ≤ n * q.value * p.shares

theorem PriceLe.worthLe {n : ℕ} (h : PriceLe p q) (hn : m ≤ n) : WorthLe p m q n :=
  calc m * p.value * q.shares
    _ = m * (p.value * q.shares) := Nat.mul_assoc _ _ _
    _ ≤ n * (q.value * p.shares) := Nat.mul_le_mul hn h
    _ = n * q.value * p.shares := (Nat.mul_assoc _ _ _).symm

theorem WorthLe.trans {l n : ℕ} (h : WorthLe p l q m) (h' : WorthLe q m r n)
    (hq : 0 < q.shares) : WorthLe p l r n := by
  unfold WorthLe at *
  refine Nat.le_of_mul_le_mul_right ?_ hq
  calc l * p.value * r.shares * q.shares
    _ = l * p.value * q.shares * r.shares := by ring
    _ ≤ m * q.value * p.shares * r.shares := Nat.mul_le_mul_right _ h
    _ = m * q.value * r.shares * p.shares := by ring
    _ ≤ n * r.value * q.shares * p.shares := Nat.mul_le_mul_right _ h'
    _ = n * r.value * p.shares * q.shares := by ring

/-- Rounding down does not change the order. -/
theorem WorthLe.div_le {n : ℕ} (h : WorthLe p m q n) (hp : 0 < p.shares) (hq : 0 < q.shares) :
    m * p.value / p.shares ≤ n * q.value / q.shares := by
  rw [Nat.le_div_iff_mul_le hq]
  refine Nat.le_of_mul_le_mul_right ?_ hp
  calc m * p.value / p.shares * q.shares * p.shares
    _ = m * p.value / p.shares * p.shares * q.shares := Nat.mul_right_comm _ _ _
    _ ≤ m * p.value * q.shares := Nat.mul_le_mul_right _ (Nat.div_mul_le_self _ _)
    _ ≤ n * q.value * p.shares := h

/-- Paying `a` for its number of shares rounded down costs no holder more than one share. -/
theorem worthLe_redeem_div {n : ℕ} (hv : 0 < v) (ha : a ≤ v) (hm : a * s / v ≤ s)
    (hn : n ≤ s - a * s / v) : WorthLe ⟨v, s⟩ (n - 1) ⟨v - a, s - a * s / v⟩ n := by
  have hround : a * s < v * (a * s / v + 1) := Nat.lt_mul_div_succ _ hv
  generalize a * s / v = m at *
  obtain ⟨kept, rfl⟩ := Nat.exists_eq_add_of_le hm
  obtain ⟨left, rfl⟩ := Nat.exists_eq_add_of_le ha
  rw [WorthLe, Nat.add_sub_cancel_left, Nat.add_sub_cancel_left] at *
  change (n - 1) * (a + left) * kept ≤ n * left * (m + kept)
  cases n with
  | zero => simp
  | succ n =>
    have hpaid : a * kept ≤ m * left + (a + left) := by
      have e₁ : a * (m + kept) = a * m + a * kept := Nat.mul_add _ _ _
      have e₂ : (a + left) * (m + 1) = a * m + m * left + (a + left) := by ring
      omega
    have hshare : (n + 1) * (a + left) ≤ kept * (a + left) := Nat.mul_le_mul_right _ hn
    have hall : n * (a + left) * kept + kept * (a + left)
        ≤ (n + 1) * left * (m + kept) + kept * (a + left) :=
      calc n * (a + left) * kept + kept * (a + left)
        _ = (n + 1) * (a * kept) + (n + 1) * left * kept := by ring
        _ ≤ (n + 1) * (m * left + (a + left)) + (n + 1) * left * kept :=
          Nat.add_le_add_right (Nat.mul_le_mul_left _ hpaid) _
        _ = (n + 1) * left * (m + kept) + (n + 1) * (a + left) := by ring
        _ ≤ (n + 1) * left * (m + kept) + kept * (a + left) := Nat.add_le_add_left hshare _
    exact Nat.le_of_add_le_add_right hall

/-! ## Buying and selling at once -/

/-- Shares issued for `a` and redeemed at once for `b` bring no profit. -/
theorem redeem_le_of_issue (h : m * v ≤ a * s) (hs : 0 < s) (hb : b * (s + m) ≤ m * (v + a)) :
    b ≤ a := by
  refine Nat.le_of_mul_le_mul_right (hb.trans ?_) (Nat.add_pos_left hs m)
  calc m * (v + a)
    _ = m * v + a * m := by ring
    _ ≤ a * s + a * m := Nat.add_le_add_right h _
    _ = a * (s + m) := by ring

/-- Of the shares bought for `a`, `n` come from a holder who gets `c` for them, their worth rounded
down, and `m` are issued for the rest. What the holder is short of by rounding raises the price, but
by less than a whole coin can be made of: all of them redeemed at once bring no profit. -/
theorem redeem_le_of_swap_issue {n c : ℕ} (hbuy : (n + m) * v ≤ a * s) (hswap : c * s ≤ n * v)
    (hround : n * v < c * s + s) (hn : n ≤ s) (hc : c ≤ a)
    (hb : b * (s + m) ≤ (n + m) * (v + (a - c))) : b ≤ a := by
  obtain ⟨rest, rfl⟩ := Nat.exists_eq_add_of_le hc
  rw [Nat.add_sub_cancel_left] at hb
  -- what the buyer overpays, and what the holder is short of
  obtain ⟨excess, hexcess⟩ := Nat.exists_eq_add_of_le hbuy
  obtain ⟨short, hshort⟩ := Nat.exists_eq_add_of_le hswap
  have hrest : rest * s = m * v + excess + short := by
    rw [Nat.add_mul, Nat.add_mul, hshort] at hexcess
    omega
  have hgain : excess * n + (n + m) * short < excess * s + s * (s + m) := by
    have hlt : short < s := by omega
    have hexcess_le : excess * n ≤ excess * s := Nat.mul_le_mul_left _ hn
    have hshort_lt : (n + m) * short < s * (s + m) :=
      calc (n + m) * short
        _ ≤ (s + m) * short := Nat.mul_le_mul_right _ (Nat.add_le_add_right hn m)
        _ < (s + m) * s := Nat.mul_lt_mul_of_pos_left hlt (by omega)
        _ = s * (s + m) := Nat.mul_comm _ _
    omega
  have hexact : (n + m) * (v + rest) * s + excess * s
      = (c + rest) * s * (s + m) + excess * n + (n + m) * short :=
    calc (n + m) * (v + rest) * s + excess * s
      _ = (n + m) * v * s + (n + m) * (rest * s) + excess * s := by ring
      _ = ((n + m) * v + excess) * (s + m) + excess * n + (n + m) * short := by rw [hrest]; ring
      _ = (c + rest) * s * (s + m) + excess * n + (n + m) * short := by rw [← hexcess]
  have hmul : (n + m) * (v + rest) * s < (c + rest + 1) * (s + m) * s := by
    have hsum : (c + rest + 1) * (s + m) * s = (c + rest) * s * (s + m) + s * (s + m) := by ring
    omega
  have hfinal : b * (s + m) < (c + rest + 1) * (s + m) :=
    hb.trans_lt (Nat.lt_of_mul_lt_mul_right hmul)
  exact Nat.le_of_lt_succ (Nat.lt_of_mul_lt_mul_right hfinal)

/-- Shares of a pool with two legs, `y` coins and `g` tokens worth `c` rounded down. The shares
issued for `a` and redeemed at once give a part of each leg, rounded down, and what the tokens paid
are worth is rounded down once more: no profit either. -/
theorem redeem_legs_le {y g c t l d : ℕ} (hs : 0 < s) (hl : 0 < l)
    (hissue : m * (y + c) ≤ a * l) (hround : g * v < c * s + s)
    (hcoins : b * (l + m) ≤ m * (y + a)) (htokens : t * (l + m) ≤ m * g)
    (hworth : d * s ≤ t * v) : b + d ≤ a := by
  have hd : d * s * (l + m) + m ≤ m * (c * s + s) :=
    calc d * s * (l + m) + m
      _ ≤ t * v * (l + m) + m := Nat.add_le_add_right (Nat.mul_le_mul_right _ hworth) _
      _ = t * (l + m) * v + m := by ring
      _ ≤ m * g * v + m := Nat.add_le_add_right (Nat.mul_le_mul_right _ htokens) _
      _ = m * (g * v + 1) := by ring
      _ ≤ m * (c * s + s) := Nat.mul_le_mul_left _ hround
  have hb : b * (l + m) * s ≤ m * (y + a) * s := Nat.mul_le_mul_right _ hcoins
  have hm : m * (y + c) * s ≤ a * l * s := Nat.mul_le_mul_right _ hissue
  have hpos : 0 < l * s := Nat.mul_pos hl hs
  have hlt : (b + d) * ((l + m) * s) < (a + 1) * ((l + m) * s) := by
    have e₁ : (b + d) * ((l + m) * s) = b * (l + m) * s + d * s * (l + m) := by ring
    have e₂ : m * (y + a) * s + m * (c * s + s) = m * (y + c) * s + m * a * s + m * s := by ring
    have e₃ : (a + 1) * ((l + m) * s) = a * l * s + m * a * s + m * s + l * s := by ring
    omega
  exact Nat.le_of_lt_succ (Nat.lt_of_mul_lt_mul_right hlt)

end Valuation

end Foundation
