import Marinade.Foundation.Price
import Mathlib.Logic.Relation

/-!
# Funds with debts

A fund has assets, owes debts, and what is left is owned in shares. What may happen to it without
harm to those who keep their shares is the relation `Flow`: shares are issued for at least their
price, given back for a debt of at most their price, debts are paid, and assets turn up or shares
get lost without anybody asking for anything.

None of these lowers the price of a share, and none turns a fund insolvent. Both hold of sequences
of flows too; for the price, the funds on the way must have shares at all.
-/

namespace Foundation

/-- What a fund has, what it owes, and the number of shares it is divided into. -/
structure Fund where
  assets : ℕ
  debts : ℕ
  shares : ℕ

namespace Fund

/-- What belongs to the shares; nothing when the debts exceed the assets. -/
def equity (f : Fund) : ℕ :=
  f.assets - f.debts

def valuation (f : Fund) : Valuation :=
  ⟨f.equity, f.shares⟩

/-- The assets cover the debts. -/
def Solvent (f : Fund) : Prop :=
  f.debts ≤ f.assets

/-- One change of a fund that does not harm its shareholders. -/
inductive Flow : Fund → Fund → Prop
  /-- Shares for an amount that is at least what they cost. The first shares may cost anything. -/
  | issue {f a m} (h : 0 < f.shares → m * f.equity ≤ a * f.shares) :
      Flow f ⟨f.assets + a, f.debts, f.shares + m⟩
  /-- The promise of an amount that is at most what the shares given back are worth. -/
  | promise {f a m} (h : a * f.shares ≤ m * f.equity) (ha : a ≤ f.equity) :
      Flow f ⟨f.assets, f.debts + a, f.shares - m⟩
  | pay {f a} (h : a ≤ f.debts) (ha : a ≤ f.assets) : Flow f ⟨f.assets - a, f.debts - a, f.shares⟩
  /-- Gifts are found, and shares have been thrown away. -/
  | realign {f a n} (h : n ≤ f.shares) : Flow f ⟨f.assets + a, f.debts, n⟩

/-- Several flows, all of them out of funds with at least `n` shares. -/
def Flows (n : ℕ) : Fund → Fund → Prop :=
  Relation.ReflTransGen fun f f' ↦ n ≤ f.shares ∧ Flow f f'

variable {f f' : Fund} {n : ℕ}

theorem Flow.refl : Flow f f :=
  .pay (Nat.zero_le _) (Nat.zero_le _)

theorem Flow.flows (h : Flow f f') (hn : n ≤ f.shares) : Flows n f f' :=
  .single ⟨hn, h⟩

theorem Flows.tail {g : Fund} (h : Flows n f g) (hn : n ≤ g.shares) (h' : Flow g f') :
    Flows n f f' :=
  Relation.ReflTransGen.tail h ⟨hn, h'⟩

/-! ## Solvency -/

theorem Flow.solvent (h : Flow f f') (hf : f.Solvent) : f'.Solvent := by
  unfold Solvent at *
  cases h with
  | issue h => exact Nat.le_add_right_of_le hf
  | promise h ha =>
    unfold equity at ha
    simp only
    omega
  | pay h ha => exact Nat.sub_le_sub_right hf _
  | realign h => exact Nat.le_add_right_of_le hf

theorem Flows.solvent (h : Flows n f f') (hf : f.Solvent) : f'.Solvent := by
  induction h with
  | refl => exact hf
  | tail _ hstep ih => exact hstep.2.solvent ih

/-! ## The price -/

theorem Flow.priceLe (h : Flow f f') (hs : 0 < f.shares) :
    f.valuation.PriceLe f'.valuation := by
  -- a fund without equity has the lowest price there is, and otherwise nothing is cut off
  rcases Nat.eq_zero_or_pos f.equity with hzero | hpos
  · exact Valuation.priceLe_of_value_eq_zero hzero
  have hlt : f.debts < f.assets := Nat.lt_of_sub_pos hpos
  cases h with
  | @issue a m h =>
    have heq : equity ⟨f.assets + a, f.debts, f.shares + m⟩ = f.equity + a := by
      simp only [equity]
      omega
    rw [valuation, valuation, heq]
    exact Valuation.priceLe_issue (h hs)
  | @promise a m h ha =>
    have heq : equity ⟨f.assets, f.debts + a, f.shares - m⟩ = f.equity - a := by
      simp only [equity]
      omega
    rw [valuation, valuation, heq]
    exact Valuation.priceLe_redeem h
  | @pay a h ha =>
    refine Valuation.priceLe_of_le ?_ le_rfl
    simp only [valuation, equity]
    omega
  | realign h =>
    refine Valuation.priceLe_of_le ?_ h
    simp only [valuation, equity]
    omega

theorem Flows.priceLe (h : Flows n f f') (hn : 0 < n) : f.valuation.PriceLe f'.valuation := by
  induction h with
  | refl => exact .refl
  | tail _ hstep ih =>
    have hs := hn.trans_le hstep.1
    exact ih.trans (hstep.2.priceLe hs) hs

end Fund

end Foundation
