import Marinade.Calc

/-!
# Fees

A fee is a whole number of basis points, or of hundredths of a basis point. Both are applied by a
multiplication in 128 bits and a truncating division; the cast back to 64 bits keeps the low bits.
-/

open Foundation

namespace Marinade

/-- A fee in basis points. -/
structure Fee where
  basisPoints : ℕ
  deriving DecidableEq, Repr

namespace Fee

/-- 100% -/
def maxBasisPoints : ℕ := 10000

def check (fee : Fee) : Except Error Unit :=
  ensure (fee.basisPoints ≤ maxBasisPoints) MarinadeError.basisPointsOverflow

def apply (fee : Fee) (lamports : ℕ) : ℕ :=
  lamports * fee.basisPoints / maxBasisPoints % (u64Max + 1)

/-- No fee takes more than its percentage. -/
theorem apply_mul_le (fee : Fee) (lamports : ℕ) :
    fee.apply lamports * maxBasisPoints ≤ lamports * fee.basisPoints :=
  calc fee.apply lamports * maxBasisPoints
    _ ≤ lamports * fee.basisPoints / maxBasisPoints * maxBasisPoints :=
        Nat.mul_le_mul_right _ (Nat.mod_le _ _)
    _ ≤ lamports * fee.basisPoints := Nat.div_mul_le_self _ _

/-- A fee of at most 100% takes at most everything. -/
theorem apply_le {fee : Fee} (h : fee.basisPoints ≤ maxBasisPoints) (lamports : ℕ) :
    fee.apply lamports ≤ lamports := by
  have hmul : lamports * fee.basisPoints ≤ lamports * maxBasisPoints := Nat.mul_le_mul_left _ h
  exact Nat.le_of_mul_le_mul_right ((apply_mul_le fee lamports).trans hmul) (by decide)

end Fee

/-- A fee in hundredths of a basis point. -/
structure FeeCents where
  bpCents : ℕ
  deriving DecidableEq, Repr

namespace FeeCents

/-- 100% -/
def maxBpCents : ℕ := 1000000

def check (fee : FeeCents) : Except Error Unit :=
  ensure (fee.bpCents ≤ maxBpCents) MarinadeError.basisPointCentsOverflow

def apply (fee : FeeCents) (lamports : ℕ) : ℕ :=
  lamports * fee.bpCents / maxBpCents % (u64Max + 1)

/-- No fee takes more than its percentage. -/
theorem apply_mul_le (fee : FeeCents) (lamports : ℕ) :
    fee.apply lamports * maxBpCents ≤ lamports * fee.bpCents :=
  calc fee.apply lamports * maxBpCents
    _ ≤ lamports * fee.bpCents / maxBpCents * maxBpCents :=
        Nat.mul_le_mul_right _ (Nat.mod_le _ _)
    _ ≤ lamports * fee.bpCents := Nat.div_mul_le_self _ _

/-- A fee of at most 100% takes at most everything. -/
theorem apply_le {fee : FeeCents} (h : fee.bpCents ≤ maxBpCents) (lamports : ℕ) :
    fee.apply lamports ≤ lamports := by
  have hmul : lamports * fee.bpCents ≤ lamports * maxBpCents := Nat.mul_le_mul_left _ h
  exact Nat.le_of_mul_le_mul_right ((apply_mul_le fee lamports).trans hmul) (by decide)

end FeeCents

end Marinade
