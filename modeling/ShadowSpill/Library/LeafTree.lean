import Mathlib

/-!
# Segment trees from the leaves up

The nodes of a complete binary tree are numbered from one, the children of a
node at twice its number; the leaves start at a power of two.  A range of
leaves is covered from both its ends inwards, and a leaf meets exactly the
covers of the ranges it lies in on its way to the root.
-/

namespace ShadowSpill.Library.LeafTree

/-- The nodes between `left` and `right`, bottom up. -/
def coverNodes : Nat → Nat → Nat → List Nat
  | 0, _, _ => []
  | fuel + 1, left, right =>
      if left < right then
        (if left % 2 = 1 then [left] else []) ++
          (if right % 2 = 1 then [right - 1] else []) ++
          coverNodes fuel ((left + left % 2) / 2) ((right - right % 2) / 2)
      else []

/-- A node and those above it. -/
def pathToRoot : Nat → Nat → List Nat
  | 0, _ => []
  | fuel + 1, node => if 1 ≤ node then node :: pathToRoot fuel (node / 2) else []

/-- The first power of two at or above `count`. -/
def leafBase (count : Nat) : Nat → Nat → Nat
  | 0, base => base
  | fuel + 1, base => if base < count then leafBase count fuel (2 * base) else base

theorem mem_coverNodes {fuel left right node : Nat} :
    node ∈ coverNodes (fuel + 1) left right ↔
      left < right ∧ (left % 2 = 1 ∧ node = left ∨ right % 2 = 1 ∧ node = right - 1 ∨
        node ∈ coverNodes fuel ((left + left % 2) / 2) ((right - right % 2) / 2)) := by
  rw [coverNodes]
  by_cases ordered : left < right
  · rw [if_pos ordered, List.mem_append, List.mem_append]
    by_cases leftOdd : left % 2 = 1
    · by_cases rightOdd : right % 2 = 1
      · simp [ordered, leftOdd, rightOdd, or_assoc]
      · simp [ordered, leftOdd, rightOdd]
    · by_cases rightOdd : right % 2 = 1
      · simp [ordered, leftOdd, rightOdd]
      · simp [ordered, leftOdd, rightOdd]
  · simp [ordered]

theorem coverNodes_lt {fuel left right node : Nat}
    (mem : node ∈ coverNodes fuel left right) : node < right := by
  induction fuel generalizing left right with
  | zero => cases mem
  | succ fuel ih =>
      obtain ⟨ordered, ⟨_, rfl⟩ | ⟨_, rfl⟩ | inner⟩ := mem_coverNodes.1 mem
      · exact ordered
      · omega
      · have below := ih inner
        omega

theorem pathToRoot_le {fuel node upper : Nat} (mem : upper ∈ pathToRoot fuel node) :
    upper ≤ node := by
  induction fuel generalizing node with
  | zero => cases mem
  | succ fuel ih =>
      rw [pathToRoot] at mem
      split_ifs at mem with positive
      · rcases List.mem_cons.1 mem with rfl | mem
        · exact le_rfl
        · have below := ih mem
          omega
      · cases mem

/-- The nodes of a level whose leaves are told from those of the levels above:
a node of the level lies on the path of another only when they are equal. -/
theorem exists_common_iff (level : Nat) {left right leaf coverFuel pathFuel : Nat}
    (leftLevel : 2 ^ level ≤ left) (rightLevel : right ≤ 2 ^ (level + 1))
    (leafLow : 2 ^ level ≤ leaf) (leafHigh : leaf < 2 ^ (level + 1))
    (coverEnough : level < coverFuel) (pathEnough : level < pathFuel) :
    (∃ node ∈ coverNodes coverFuel left right, node ∈ pathToRoot pathFuel leaf) ↔
      left ≤ leaf ∧ leaf < right := by
  induction level generalizing left right leaf coverFuel pathFuel with
  | zero =>
      obtain ⟨coverFuel, rfl⟩ := Nat.exists_eq_succ_of_ne_zero (by omega : coverFuel ≠ 0)
      obtain ⟨pathFuel, rfl⟩ := Nat.exists_eq_succ_of_ne_zero (by omega : pathFuel ≠ 0)
      obtain rfl : leaf = 1 := by simp at leafLow leafHigh; omega
      simp only [Nat.pow_zero, Nat.zero_add, Nat.pow_one] at leftLevel rightLevel
      constructor
      · rintro ⟨node, covered, above⟩
        have positive := (mem_coverNodes.1 covered).1
        omega
      · rintro ⟨lower, upper⟩
        refine ⟨1, ?_, ?_⟩
        · obtain rfl : left = 1 := by omega
          exact mem_coverNodes.2 ⟨by omega, Or.inl ⟨rfl, rfl⟩⟩
        · rw [Nat.succ_eq_add_one, pathToRoot, if_pos le_rfl]
          exact List.mem_cons_self
  | succ level ih =>
      obtain ⟨coverFuel, rfl⟩ := Nat.exists_eq_succ_of_ne_zero (by omega : coverFuel ≠ 0)
      obtain ⟨pathFuel, rfl⟩ := Nat.exists_eq_succ_of_ne_zero (by omega : pathFuel ≠ 0)
      have double : 2 ^ (level + 1) = 2 * 2 ^ level := by rw [Nat.pow_succ]; ring
      have doubleNext : 2 ^ (level + 1 + 1) = 2 * 2 ^ (level + 1) := by
        rw [Nat.pow_succ]; ring
      have positive : 0 < 2 ^ level := Nat.two_pow_pos level
      have upper := @ih ((left + left % 2) / 2) ((right - right % 2) / 2) (leaf / 2)
        coverFuel pathFuel (by omega) (by omega) (by omega) (by omega) (by omega) (by omega)
      rw [Nat.succ_eq_add_one, Nat.succ_eq_add_one, pathToRoot, if_pos (by omega)]
      have onPath : ∀ node, 2 ^ (level + 1) ≤ node →
          node ∈ leaf :: pathToRoot pathFuel (leaf / 2) → node = leaf := by
        intro node high mem
        rcases List.mem_cons.1 mem with same | above
        · exact same
        · have below := pathToRoot_le above
          omega
      constructor
      · rintro ⟨node, covered, above⟩
        obtain ⟨ordered, ⟨_, rfl⟩ | ⟨_, rfl⟩ | inner⟩ := mem_coverNodes.1 covered
        · have same := onPath _ (by omega) above
          omega
        · have same := onPath _ (by omega) above
          omega
        · rcases List.mem_cons.1 above with rfl | above
          · have below := coverNodes_lt inner
            omega
          · have inside := upper.1 ⟨node, inner, above⟩
            omega
      · rintro ⟨lower, bound⟩
        have ordered : left < right := by omega
        by_cases first : left % 2 = 1 ∧ leaf = left
        · exact ⟨leaf, mem_coverNodes.2 ⟨ordered, Or.inl first⟩, List.mem_cons_self⟩
        · by_cases last : right % 2 = 1 ∧ leaf = right - 1
          · exact ⟨leaf, mem_coverNodes.2 ⟨ordered, Or.inr (Or.inl last)⟩,
              List.mem_cons_self⟩
          · obtain ⟨node, inner, above⟩ := upper.2 (by omega)
            exact ⟨node, mem_coverNodes.2 ⟨ordered, Or.inr (Or.inr inner)⟩,
              List.mem_cons_of_mem _ above⟩

/-- The first power of two at or above a count is one. -/
theorem leafBase_spec (count fuel level : Nat) (enough : count ≤ 2 ^ (level + fuel)) :
    ∃ top, leafBase count fuel (2 ^ level) = 2 ^ top ∧ count ≤ 2 ^ top ∧
      top ≤ level + fuel := by
  induction fuel generalizing level with
  | zero => exact ⟨level, rfl, enough, le_rfl⟩
  | succ fuel ih =>
      rw [leafBase]
      split_ifs with small
      · have double : 2 * 2 ^ level = 2 ^ (level + 1) := by rw [Nat.pow_succ]; ring
        rw [double]
        obtain ⟨top, same, large, bound⟩ := ih (level + 1)
          (by rwa [Nat.add_right_comm])
        exact ⟨top, same, large, by omega⟩
      · exact ⟨level, rfl, by omega, by omega⟩

end ShadowSpill.Library.LeafTree
