import ShadowSpill.Library.AddressRanges

/-!
# Unsigned 64-bit arithmetic on natural numbers

Addresses and sizes are naturals below `2 ^ 64`.  Additions are reduced
explicitly, and each operation has a lemma giving the exact result where it
does not wrap.
-/

namespace ShadowSpill.Library.Word64

open AddressRanges

/-- The number of values of a 64-bit word. -/
abbrev modulus : Nat := 2 ^ 64

/-- Reduction of an exact result to a 64-bit word. -/
def wrap (value : Nat) : Nat :=
  value % modulus

theorem wrap_eq {value : Nat} (fits : value < modulus) : wrap value = value :=
  Nat.mod_eq_of_lt fits

/-- Difference of two words. -/
def wrapSub (first second : Nat) : Nat :=
  wrap (first + modulus - second)

theorem wrapSub_eq {first second : Nat}
    (ordered : second ≤ first) (fits : first < modulus) :
    wrapSub first second = first - second := by
  have shifted : first + modulus - second = first - second + modulus := by
    omega
  rw [wrapSub, shifted, wrap, Nat.add_mod_right, Nat.mod_eq_of_lt (by omega)]

/-- Counters that have both wrapped still give their distance. -/
theorem wrapSub_wrap {first second : Nat}
    (ordered : second ≤ first) (near : first - second < modulus) :
    wrapSub (wrap first) (wrap second) = first - second := by
  unfold wrapSub wrap
  have split := Nat.div_add_mod first modulus
  have below := Nat.mod_lt second (by decide : 0 < modulus)
  have rest := Nat.div_add_mod second modulus
  have above := Nat.mod_lt first (by decide : 0 < modulus)
  unfold modulus at *
  omega

/-- `align_up` as the placement computes it: the sum wraps before the
division, and an alignment of at most one leaves the value alone. -/
def alignUp64 (value alignment : Nat) : Nat :=
  if alignment ≤ 1 then value
  else wrap (wrap (value + alignment - 1) / alignment * alignment)

theorem alignUp64_eq
    {value alignment : Nat}
    (positive : 0 < alignment)
    (fits : value + (alignment - 1) < modulus) :
    alignUp64 value alignment = alignUp value alignment := by
  unfold alignUp64
  by_cases one : alignment ≤ 1
  · have equal : alignment = 1 := by omega
    subst equal
    simp [alignUp]
  · have sum : wrap (value + alignment - 1) = value + alignment - 1 :=
      wrap_eq (by omega)
    have bound : (value + alignment - 1) / alignment * alignment ≤
        value + alignment - 1 := Nat.div_mul_le_self _ _
    rw [if_neg one, sum, wrap_eq (by omega), alignUp]

/-- Where the sum wraps, what is rounded is below one alignment. -/
theorem alignUp64_of_wraps
    {value alignment : Nat}
    (below : value < modulus) (small : alignment ≤ modulus)
    (wraps : modulus ≤ value + (alignment - 1)) :
    alignUp64 value alignment = 0 := by
  have sum : wrap (value + alignment - 1) = value + alignment - 1 - modulus := by
    rw [wrap, Nat.mod_eq_sub_mod (by omega), Nat.mod_eq_of_lt (by omega)]
  rw [alignUp64, if_neg (by omega), sum, Nat.div_eq_of_lt (by omega), Nat.zero_mul]
  rfl

@[simp]
theorem alignUp64_zero {alignment : Nat} (fits : alignment ≤ modulus) :
    alignUp64 0 alignment = 0 := by
  unfold alignUp64
  split_ifs with one
  · rfl
  · have sum : wrap (0 + alignment - 1) = alignment - 1 := by
      rw [wrap_eq (by omega)]
      omega
    rw [sum, Nat.div_eq_of_lt (by omega), Nat.zero_mul]
    rfl

end ShadowSpill.Library.Word64
