import Mathlib

/-!
# Restoring division on 64-bit words

A product is divided without being formed: its factor is read bit by bit, and after every
bit the quotient and the remainder are those of the product with the bits read so far.
Additions are made against the divisor's complement, so that no remainder overflows.
-/

namespace ShadowSpill.Library.RestoringDivision

/-! ## Words without overflow -/

section Words

variable {left right : UInt64}

theorem add_toNat (fits : left.toNat + right.toNat < 2 ^ 64) :
    (left + right).toNat = left.toNat + right.toNat := by
  rw [UInt64.toNat_add, Nat.mod_eq_of_lt fits]

theorem mul_toNat (fits : left.toNat * right.toNat < 2 ^ 64) :
    (left * right).toNat = left.toNat * right.toNat := by
  rw [UInt64.toNat_mul, Nat.mod_eq_of_lt fits]

theorem sub_toNat (ordered : right.toNat ≤ left.toNat) :
    (left - right).toNat = left.toNat - right.toNat :=
  UInt64.toNat_sub_of_le _ _ (UInt64.le_iff_toNat_le.mpr ordered)

theorem ne_zero_iff : left ≠ 0 ↔ left.toNat ≠ 0 :=
  not_congr UInt64.toNat_inj.symm

end Words

/-! ## Quotients and remainders -/

/-- A quotient and a remainder. -/
structure Division where
  quotient : UInt64
  remainder : UInt64
  deriving DecidableEq, Repr

namespace Division

/-- Add a value below the divisor to the dividend. -/
def add (divisor value : UInt64) (division : Division) : Division :=
  if divisor - value ≤ division.remainder then
    ⟨division.quotient + 1, division.remainder - (divisor - value)⟩
  else ⟨division.quotient, division.remainder + value⟩

/-- Double the dividend. -/
def double (divisor : UInt64) (division : Division) : Division :=
  add divisor division.remainder ⟨division.quotient * 2, division.remainder⟩

/-- Read one more bit of the factor. -/
def read (divisor value : UInt64) (bit : Bool) (division : Division) : Division :=
  if bit then (division.double divisor).add divisor value else division.double divisor

/-- Read the lowest bits of a factor, the highest of them first. -/
def scale (divisor value : UInt64) (factor : Nat) : Nat → Division → Division
  | 0, division => division
  | bit + 1, division =>
    scale divisor value factor bit (division.read divisor value (factor.testBit bit))

/-- The quotient and the remainder of a dividend. -/
structure Divides (divisor : UInt64) (dividend : Nat) (division : Division) : Prop where
  exact : division.quotient.toNat * divisor.toNat + division.remainder.toNat = dividend
  below : division.remainder.toNat < divisor.toNat

variable {divisor value : UInt64} {dividend factor : Nat} {division : Division}

theorem divides_zero (positive : 0 < divisor.toNat) : Divides divisor 0 ⟨0, 0⟩ :=
  ⟨by simp, positive⟩

/-- The quotient is rounded up where something remains. -/
theorem Divides.ceil (divides : Divides divisor dividend division) :
    division.quotient.toNat + (if division.remainder ≠ 0 then 1 else 0) =
      dividend ⌈/⌉ divisor.toNat := by
  have positive : 0 < divisor.toNat := Nat.zero_lt_of_lt divides.below
  have below := divides.below
  rw [← divides.exact, Nat.ceilDiv_eq_add_pred_div]
  symm
  split
  · rename_i more
    have more := ne_zero_iff.mp more
    apply Nat.div_eq_of_lt_le
    · rw [Nat.succ_mul]
      omega
    · rw [Nat.succ_mul, Nat.succ_mul]
      omega
  · rename_i level
    rw [not_not] at level
    rw [level]
    apply Nat.div_eq_of_lt_le
    · simp only [UInt64.toNat_zero, Nat.add_zero]
      omega
    · rw [Nat.succ_mul]
      simp only [UInt64.toNat_zero, Nat.add_zero]
      omega

theorem Divides.add (divides : Divides divisor dividend division)
    (small : value.toNat < divisor.toNat)
    (fits : dividend + value.toNat < 2 ^ 64 * divisor.toNat) :
    Divides divisor (dividend + value.toNat) (division.add divisor value) := by
  have exact := divides.exact
  have below := divides.below
  have complement : (divisor - value).toNat = divisor.toNat - value.toNat :=
    sub_toNat small.le
  unfold Division.add
  split
  · rename_i carries
    have carries := UInt64.le_iff_toNat_le.mp carries
    have taken : (division.remainder - (divisor - value)).toNat =
        division.remainder.toNat - (divisor.toNat - value.toNat) := by
      rw [sub_toNat carries, complement]
    have small_quotient : division.quotient.toNat + 1 < 2 ^ 64 := by
      apply Nat.lt_of_mul_lt_mul_right (a := divisor.toNat)
      rw [complement] at carries
      calc (division.quotient.toNat + 1) * divisor.toNat
          = division.quotient.toNat * divisor.toNat + divisor.toNat := Nat.succ_mul _ _
        _ ≤ dividend + value.toNat := by omega
        _ < 2 ^ 64 * divisor.toNat := fits
    have next : (division.quotient + 1).toNat = division.quotient.toNat + 1 :=
      add_toNat small_quotient
    rw [complement] at carries
    refine ⟨?_, ?_⟩
    · dsimp only
      rw [next, taken, Nat.succ_mul]
      omega
    · dsimp only
      rw [taken]
      omega
  · rename_i stays
    have stays : division.remainder.toNat < (divisor - value).toNat :=
      Nat.lt_of_not_le fun wrong => stays (UInt64.le_iff_toNat_le.mpr wrong)
    rw [complement] at stays
    have bound := divisor.toNat_lt
    have sum : (division.remainder + value).toNat =
        division.remainder.toNat + value.toNat := add_toNat (by omega)
    refine ⟨?_, ?_⟩
    · dsimp only
      rw [sum]
      omega
    · dsimp only
      rw [sum]
      omega

theorem Divides.double (divides : Divides divisor dividend division)
    (fits : 2 * dividend < 2 ^ 64 * divisor.toNat) :
    Divides divisor (2 * dividend) (division.double divisor) := by
  have exact := divides.exact
  have below := divides.below
  have small_quotient : division.quotient.toNat * 2 < 2 ^ 64 := by
    apply Nat.lt_of_mul_lt_mul_right (a := divisor.toNat)
    calc division.quotient.toNat * 2 * divisor.toNat
        = 2 * (division.quotient.toNat * divisor.toNat) := by ring
      _ ≤ 2 * dividend := by omega
      _ < 2 ^ 64 * divisor.toNat := fits
  have doubled : (division.quotient * 2).toNat = division.quotient.toNat * 2 :=
    mul_toNat small_quotient
  have most : Divides divisor
      (division.quotient.toNat * 2 * divisor.toNat + division.remainder.toNat)
      ⟨division.quotient * 2, division.remainder⟩ :=
    ⟨by rw [doubled], below⟩
  have total : division.quotient.toNat * 2 * divisor.toNat + division.remainder.toNat +
      division.remainder.toNat = 2 * dividend := by
    rw [← exact]
    ring
  rw [← total] at fits ⊢
  exact most.add below fits

theorem Divides.read (divides : Divides divisor dividend division) (bit : Bool)
    (small : value.toNat < divisor.toNat)
    (fits : 2 * dividend + value.toNat * bit.toNat < 2 ^ 64 * divisor.toNat) :
    Divides divisor (2 * dividend + value.toNat * bit.toNat)
      (division.read divisor value bit) := by
  unfold Division.read
  cases bit with
  | false =>
      simp only [Bool.toNat_false, Nat.mul_zero, Nat.add_zero] at fits ⊢
      exact divides.double fits
  | true =>
      simp only [Bool.toNat_true, Nat.mul_one] at fits ⊢
      exact (divides.double (by omega)).add small fits

/-- A factor without its lowest bits is twice the factor without one more, and the bit. -/
theorem shift_succ (factor bit : Nat) :
    factor / 2 ^ bit = 2 * (factor / 2 ^ (bit + 1)) + (factor.testBit bit).toNat := by
  rw [pow_succ, ← Nat.div_div_eq_div_mul, Nat.toNat_testBit]
  omega

/-- One more bit of a factor is read. -/
theorem Divides.read_scale {bit : Nat} (small : value.toNat < divisor.toNat)
    (word : factor < 2 ^ 64)
    (divides : Divides divisor (value.toNat * (factor / 2 ^ (bit + 1))) division) :
    Divides divisor (value.toNat * (factor / 2 ^ bit))
      (division.read divisor value (factor.testBit bit)) := by
  have split : 2 * (value.toNat * (factor / 2 ^ (bit + 1))) +
      value.toNat * (factor.testBit bit).toNat = value.toNat * (factor / 2 ^ bit) := by
    rw [shift_succ factor bit]
    ring
  have fits : value.toNat * (factor / 2 ^ bit) < 2 ^ 64 * divisor.toNat := by
    calc value.toNat * (factor / 2 ^ bit)
        ≤ value.toNat * 2 ^ 64 :=
          Nat.mul_le_mul_left _ ((Nat.div_le_self _ _).trans word.le)
      _ < divisor.toNat * 2 ^ 64 := Nat.mul_lt_mul_of_pos_right small (by decide)
      _ = 2 ^ 64 * divisor.toNat := Nat.mul_comm _ _
  rw [← split] at fits ⊢
  exact divides.read _ small fits

/-- The bits that are left complete the product with the factor. -/
theorem Divides.scale (bits : Nat) (small : value.toNat < divisor.toNat)
    (word : factor < 2 ^ 64)
    (divides : Divides divisor (value.toNat * (factor / 2 ^ bits)) division) :
    Divides divisor (value.toNat * factor) (division.scale divisor value factor bits) := by
  induction bits generalizing division with
  | zero =>
      rw [pow_zero, Nat.div_one] at divides
      exact divides
  | succ bit ih =>
      apply ih
      exact divides.read_scale small word

/-- The product of a value below the divisor and a factor of few bits. -/
theorem scale_divides {bits : Nat} (small : value.toNat < divisor.toNat)
    (word : factor < 2 ^ 64) (narrow : factor < 2 ^ bits) :
    Divides divisor (value.toNat * factor) (scale divisor value factor bits ⟨0, 0⟩) := by
  apply Divides.scale bits small word
  rw [Nat.div_eq_of_lt narrow, Nat.mul_zero]
  exact divides_zero (Nat.zero_lt_of_lt small)

end Division

end ShadowSpill.Library.RestoringDivision
