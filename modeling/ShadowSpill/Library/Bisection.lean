import Mathlib

/-!
# Bisection over a monotone test

The lookups in sorted arrays all run one loop: halve `[low, high)` and keep
the half in which the test changes.  The loop is stated once here for an
arbitrary test, with fuel for the halving; `high - low` steps are enough.
-/

namespace ShadowSpill.Library.Bisection

/-- The first index of `[low, high)` at which `below` fails, or `high`. -/
def bisect (below : Nat → Bool) : Nat → Nat → Nat → Nat
  | 0, low, _ => low
  | fuel + 1, low, high =>
      if low < high then
        let middle := low + (high - low) / 2
        if below middle then bisect below fuel (middle + 1) high
        else bisect below fuel low middle
      else low

/-- The two sides of a partition point of `below` inside `[low, high]`. -/
structure Partitions (below : Nat → Bool) (low high point : Nat) : Prop where
  low_le : low ≤ point
  le_high : point ≤ high
  before : ∀ index, low ≤ index → index < point → below index = true
  after : ∀ index, point ≤ index → index < high → below index = false

theorem bisect_partitions
    (below : Nat → Bool) (fuel low high : Nat)
    (enough : high - low ≤ fuel)
    (ordered : low ≤ high)
    (monotone :
      ∀ first second, low ≤ first → first ≤ second → second < high →
        below second = true → below first = true) :
    Partitions below low high (bisect below fuel low high) := by
  induction fuel generalizing low high with
  | zero =>
      have equal : low = high := by omega
      subst equal
      rw [bisect]
      exact ⟨le_rfl, le_rfl, fun _ _ _ => by omega, fun _ _ _ => by omega⟩
  | succ fuel ih =>
      rw [bisect]
      by_cases open_ : low < high
      · simp only [open_, if_true]
        by_cases test : below (low + (high - low) / 2) = true
        · simp only [test, if_true]
          have upper := ih (low + (high - low) / 2 + 1) high (by omega) (by omega)
            (fun first second lower ordered' bound =>
              monotone first second (by omega) ordered' bound)
          refine ⟨by have := upper.low_le; omega, upper.le_high, ?_, upper.after⟩
          intro index lower bound
          by_cases past : low + (high - low) / 2 + 1 ≤ index
          · exact upper.before index past bound
          · exact monotone index _ lower (by omega) (by omega) test
        · simp only [test, if_false, Bool.false_eq_true]
          have lower := ih low (low + (high - low) / 2) (by omega) (by omega)
            (fun first second bound ordered' limit =>
              monotone first second bound ordered' (by omega))
          refine ⟨lower.low_le, by have := lower.le_high; omega, lower.before, ?_⟩
          intro index bound limit
          by_cases past : index < low + (high - low) / 2
          · exact lower.after index bound past
          · by_contra held
            have held' : below index = true := by
              simpa using held
            exact test (monotone _ index (by omega) (by omega) limit held')
      · have equal : low = high := by omega
        subst equal
        simp only [lt_self_iff_false, if_false]
        exact ⟨le_rfl, le_rfl, fun _ _ _ => by omega, fun _ _ _ => by omega⟩

/-- Whatever the test, the index found is at an edge: the test holds just before it and
fails there, as far as the range goes. -/
theorem bisect_edge (below : Nat → Bool) (fuel low high : Nat) (enough : high - low ≤ fuel)
    (ordered : low ≤ high) :
    low ≤ bisect below fuel low high ∧ bisect below fuel low high ≤ high ∧
      (low < bisect below fuel low high →
        below (bisect below fuel low high - 1) = true) ∧
      (bisect below fuel low high < high → below (bisect below fuel low high) = false) := by
  induction fuel generalizing low high with
  | zero =>
      obtain rfl : low = high := by omega
      exact ⟨le_rfl, le_rfl, fun wide => absurd wide (lt_irrefl _),
        fun wide => absurd wide (lt_irrefl _)⟩
  | succ fuel inductionHypothesis =>
      rw [bisect]
      by_cases wide : low < high
      · simp only [wide, if_true]
        by_cases test : below (low + (high - low) / 2) = true
        · simp only [test, if_true]
          have upper := inductionHypothesis (low + (high - low) / 2 + 1) high (by omega)
            (by omega)
          refine ⟨by omega, upper.2.1, fun _ => ?_, upper.2.2.2⟩
          rcases Nat.eq_or_lt_of_le upper.1 with here | further
          · rw [← here, Nat.add_sub_cancel]
            exact test
          · exact upper.2.2.1 further
        · simp only [test, if_false, Bool.false_eq_true]
          have lower := inductionHypothesis low (low + (high - low) / 2) (by omega) (by omega)
          refine ⟨lower.1, by omega, lower.2.2.1, fun _ => ?_⟩
          rcases Nat.eq_or_lt_of_le lower.2.1 with here | before
          · rw [here]
            exact Bool.eq_false_iff.mpr test
          · exact lower.2.2.2 before
      · simp only [wide, if_false]
        exact ⟨le_rfl, ordered, fun wider => absurd wider (lt_irrefl _),
          fun inside => inside.elim⟩

end ShadowSpill.Library.Bisection
