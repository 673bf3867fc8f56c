import Mathlib

/-!
# Fenwick trees

A tree over the positions `1 .. count` whose node `index` holds the sum of the
positions down to `index - lowbit index`.  Adding at a position visits the
nodes that hold it, and a prefix is the sum of the nodes that tile it.
-/

namespace ShadowSpill.Library.Fenwick

/-! ## The lowest set bit -/

/-- `index & -index`: the largest power of two that divides the index, what is
left of it when its lowest set bit is cleared. -/
def lowbit (index : Nat) : Nat :=
  index - (index &&& (index - 1))

theorem lowbit_odd (half : Nat) : lowbit (2 * half + 1) = 1 := by
  have cleared : (2 * half + 1) &&& (2 * half) = 2 * half := by
    have bits := Nat.land_bit true half false half
    simpa [Nat.bit] using bits
  rw [lowbit, Nat.add_sub_cancel, cleared]
  omega

theorem lowbit_even {half : Nat} (positive : 0 < half) :
    lowbit (2 * half) = 2 * lowbit half := by
  have cleared : (2 * half) &&& (2 * (half - 1) + 1) = 2 * (half &&& (half - 1)) := by
    have bits := Nat.land_bit false half true (half - 1)
    simpa [Nat.bit] using bits
  have below : 2 * half - 1 = 2 * (half - 1) + 1 := by omega
  rw [lowbit, below, cleared, lowbit]
  omega

/-- Positive numbers by their last bits: odd, or twice a positive number. -/
theorem positive_induction {motive : (index : Nat) → 0 < index → Prop}
    (odd : ∀ half, motive (2 * half + 1) (by omega))
    (even : ∀ half positive, motive half positive → motive (2 * half) (by omega))
    (index : Nat) (positive : 0 < index) : motive index positive := by
  induction index using Nat.strong_induction_on with
  | h index ih =>
      rcases Nat.even_or_odd' index with ⟨half, rfl | rfl⟩
      · exact even half (by omega) (ih half (by omega) (by omega))
      · exact odd half

theorem lowbit_bounds (index : Nat) (positive : 0 < index) :
    1 ≤ lowbit index ∧ lowbit index ≤ index := by
  induction index, positive using positive_induction with
  | odd half => rw [lowbit_odd]; omega
  | even half halfPositive ih => rw [lowbit_even halfPositive]; omega

/-- A position below a node that the node holds has its next node up to it. -/
theorem add_lowbit_le (index : Nat) (positive : 0 < index) {lower : Nat}
    (above : index - lowbit index < lower) (below : lower < index) :
    lower + lowbit lower ≤ index := by
  induction index, positive using positive_induction generalizing lower with
  | odd half => rw [lowbit_odd] at above; omega
  | even half halfPositive ih =>
      rw [lowbit_even halfPositive] at above
      rcases Nat.even_or_odd' lower with ⟨part, rfl | rfl⟩
      · have inner := @ih part (by omega) (by omega)
        rw [lowbit_even (by omega)]
        omega
      · rw [lowbit_odd]
        omega

/-- The ranges of the nodes are nested. -/
theorem sub_lowbit_le (index : Nat) (positive : 0 < index) {lower : Nat}
    (above : index - lowbit index < lower) (below : lower ≤ index) :
    index - lowbit index ≤ lower - lowbit lower := by
  induction index, positive using positive_induction generalizing lower with
  | odd half =>
      rw [lowbit_odd] at above
      obtain rfl : lower = 2 * half + 1 := by omega
      exact le_rfl
  | even half halfPositive ih =>
      rw [lowbit_even halfPositive] at above ⊢
      rcases Nat.even_or_odd' lower with ⟨part, rfl | rfl⟩
      · have inner := @ih part (by omega) (by omega)
        rw [lowbit_even (by omega)]
        omega
      · rw [lowbit_odd]
        omega

/-- The next node reaches at least as far down. -/
theorem two_mul_lowbit_le (index : Nat) (positive : 0 < index) :
    2 * lowbit index ≤ lowbit (index + lowbit index) := by
  induction index, positive using positive_induction with
  | odd half =>
      have next : 2 * half + 1 + 1 = 2 * (half + 1) := by ring
      rw [lowbit_odd, next, lowbit_even (by omega)]
      have bounds := lowbit_bounds (half + 1) (by omega)
      omega
  | even half halfPositive ih =>
      have next : 2 * half + 2 * lowbit half = 2 * (half + lowbit half) := by ring
      rw [lowbit_even halfPositive, next, lowbit_even (by omega)]
      omega

/-- A node whose next node holds more below it stands right after a node with
the same next one. -/
theorem sub_lowbit_parent (index : Nat) (positive : 0 < index)
    (inside : index + lowbit index - lowbit (index + lowbit index) <
      index - lowbit index) :
    index - lowbit index + lowbit (index - lowbit index) = index + lowbit index := by
  induction index, positive using positive_induction with
  | odd half =>
      have next : 2 * half + 1 + 1 = 2 * (half + 1) := by ring
      have before : 2 * half + 1 - 1 = 2 * half := by omega
      rw [lowbit_odd, next, lowbit_even (by omega), before] at inside
      rw [lowbit_odd, before]
      rcases Nat.even_or_odd' half with ⟨part, rfl | rfl⟩
      · rw [lowbit_odd] at inside
        omega
      · rw [lowbit_even (by omega), lowbit_odd]
  | even half halfPositive ih =>
      have bounds := lowbit_bounds half halfPositive
      have next : 2 * half + 2 * lowbit half = 2 * (half + lowbit half) := by ring
      have before : 2 * half - 2 * lowbit half = 2 * (half - lowbit half) := by omega
      rw [lowbit_even halfPositive, next, lowbit_even (by omega), before] at inside
      have inner := ih (by omega)
      rw [lowbit_even halfPositive, before, lowbit_even (by omega)]
      omega

/-! ## The tree -/

variable {G : Type*} [AddCommGroup G]

/-- The nodes that tile the positions up to `index`, with a step for each. -/
def prefixLoop (tree : Nat → G) : Nat → Nat → G
  | 0, _ => 0
  | fuel + 1, index =>
      if index = 0 then 0
      else tree index + prefixLoop tree fuel (index - lowbit index)

/-- The sum of the positions up to `index`. -/
def prefixSum (tree : Nat → G) (index : Nat) : G :=
  prefixLoop tree index index

/-- The nodes that hold `index`, each given the delta. -/
def addLoop (count : Nat) (delta : G) : Nat → (Nat → G) → Nat → Nat → G
  | 0, tree, _ => tree
  | fuel + 1, tree, index =>
      if index ≤ count then
        addLoop count delta fuel (Function.update tree index (tree index + delta))
          (index + lowbit index)
      else tree

/-- Add at a position: to its node, and to each next one up to `count`. -/
def addFrom (count : Nat) (tree : Nat → G) (index : Nat) (delta : G) : Nat → G :=
  addLoop count delta (count + 1 - index) tree index

/-- One step of building: a node is added to the next one. -/
def pushUp (count : Nat) (tree : Nat → G) (index : Nat) : Nat → G :=
  let parent := index + lowbit index
  if parent ≤ count then Function.update tree parent (tree parent + tree index)
  else tree

/-- Turn the values of the positions into a tree. -/
def build (count : Nat) (values : Nat → G) : Nat → G :=
  (List.range count).foldl (fun tree index => pushUp count tree (index + 1)) values

/-- Every node holds the sum of the positions of its range. -/
def Represents (count : Nat) (tree values : Nat → G) : Prop :=
  ∀ index, 0 < index → index ≤ count →
    tree index = ∑ position ∈ Finset.Ioc (index - lowbit index) index, values position

section Operations

variable {count : Nat} {tree values : Nat → G}

theorem prefixLoop_eq (represents : Represents count tree values) (fuel index : Nat)
    (enough : index ≤ fuel) (bound : index ≤ count) :
    prefixLoop tree fuel index = ∑ position ∈ Finset.Ioc 0 index, values position := by
  induction fuel generalizing index with
  | zero =>
      obtain rfl : index = 0 := by omega
      simp [prefixLoop]
  | succ fuel ih =>
      rw [prefixLoop]
      by_cases zero : index = 0
      · simp [zero]
      · have bounds := lowbit_bounds index (by omega)
        rw [if_neg zero, ih _ (by omega) (by omega), represents index (by omega) bound,
          add_comm]
        exact Finset.sum_Ioc_consecutive _ (Nat.zero_le _) (by omega)

/-- A prefix of the tree is the sum of its positions. -/
theorem prefixSum_eq (represents : Represents count tree values) (index : Nat)
    (bound : index ≤ count) :
    prefixSum tree index = ∑ position ∈ Finset.Ioc 0 index, values position :=
  prefixLoop_eq represents index index le_rfl bound

theorem addLoop_apply (delta : G) (fuel : Nat) (tree : Nat → G) (index : Nat)
    (positive : 0 < index) (enough : count + 1 - index ≤ fuel) (node : Nat) :
    addLoop count delta fuel tree index node =
      tree node +
        if index ≤ node ∧ node ≤ count ∧ node - lowbit node < index then delta else 0 := by
  induction fuel generalizing tree index with
  | zero => rw [addLoop, if_neg (by omega), add_zero]
  | succ fuel ih =>
      rw [addLoop]
      have bounds := lowbit_bounds index positive
      by_cases inside : index ≤ count
      · rw [if_pos inside, ih _ _ (by omega) (by omega)]
        by_cases same : node = index
        · subst same
          rw [Function.update_self, if_neg (by omega), if_pos (by omega), add_zero]
        · rw [Function.update_of_ne same]
          congr 1
          apply if_congr _ rfl rfl
          constructor
          · rintro ⟨past, within, holds⟩
            have nested := sub_lowbit_le node (by omega) holds past
            have reach := two_mul_lowbit_le index positive
            exact ⟨by omega, within, by omega⟩
          · rintro ⟨from_, within, holds⟩
            have next := add_lowbit_le node (by omega) holds (by omega)
            exact ⟨next, within, by omega⟩
      · rw [if_neg inside, if_neg (by omega), add_zero]

/-- Adding at a position adds to the nodes that hold it. -/
theorem addFrom_apply (tree : Nat → G) (index : Nat) (positive : 0 < index) (delta : G)
    (node : Nat) :
    addFrom count tree index delta node =
      tree node +
        if index ≤ node ∧ node ≤ count ∧ node - lowbit node < index then delta else 0 :=
  addLoop_apply delta _ tree index positive le_rfl node

/-- Adding at a position adds to that position. -/
theorem addFrom_represents (represents : Represents count tree values) (index : Nat)
    (positive : 0 < index) (delta : G) :
    Represents count (addFrom count tree index delta)
      (Function.update values index (values index + delta)) := by
  intro node nodePositive bound
  rw [addFrom_apply tree index positive, represents node nodePositive bound]
  by_cases holds : index ≤ node ∧ node ≤ count ∧ node - lowbit node < index
  · have mem : index ∈ Finset.Ioc (node - lowbit node) node := Finset.mem_Ioc.2 ⟨holds.2.2, holds.1⟩
    rw [if_pos holds, Finset.sum_update_of_mem mem, ← Finset.add_sum_erase _ _ mem,
      Finset.sdiff_singleton_eq_erase]
    abel
  · have notMem : index ∉ Finset.Ioc (node - lowbit node) node := by
      rw [Finset.mem_Ioc]
      omega
    rw [if_neg holds, add_zero, Finset.sum_update_of_notMem notMem]

end Operations

/-! ## Building -/

section Build

variable {count : Nat} {values : Nat → G}

/-- The positions a node holds once the nodes up to `step` are pushed up: its
own, and those of its children among them. -/
def Gathered (step node position : Nat) : Prop :=
  node - lowbit node < position ∧
    (position = node ∨
      ∃ child ≤ step, child + lowbit child = node ∧ 0 < child ∧ position ≤ child)

/-- A node whose children are all pushed up holds its range. -/
theorem gathered_iff {step node position : Nat} (positive : 0 < node)
    (complete : node ≤ step + 1) :
    Gathered step node position ↔ position ∈ Finset.Ioc (node - lowbit node) node := by
  rw [Finset.mem_Ioc]
  have bounds := lowbit_bounds node positive
  constructor
  · rintro ⟨above, rfl | ⟨child, _, next, childPositive, below⟩⟩
    · exact ⟨above, le_rfl⟩
    · exact ⟨above, by omega⟩
  · rintro ⟨above, below⟩
    refine ⟨above, ?_⟩
    by_cases own : position = node
    · exact Or.inl own
    · right
      rcases Nat.even_or_odd' node with ⟨half, rfl | rfl⟩
      · refine ⟨2 * half - 1, by omega, ?_, by omega, by omega⟩
        have odd : 2 * half - 1 = 2 * (half - 1) + 1 := by omega
        rw [odd, lowbit_odd]
        omega
      · rw [lowbit_odd] at above
        omega

/-- Pushing a node up gives its next node the range of the node, and no position
twice. -/
theorem gathered_succ {step node position : Nat} :
    Gathered (step + 1) node position ↔
      Gathered step node position ∨
        (step + 1 + lowbit (step + 1) = node ∧
          position ∈ Finset.Ioc (step + 1 - lowbit (step + 1)) (step + 1)) := by
  have bounds := lowbit_bounds (step + 1) (by omega)
  rw [Finset.mem_Ioc]
  constructor
  · rintro ⟨above, rfl | ⟨child, bound, next, positive, below⟩⟩
    · exact Or.inl ⟨above, Or.inl rfl⟩
    · by_cases earlier : child ≤ step
      · exact Or.inl ⟨above, Or.inr ⟨child, earlier, next, positive, below⟩⟩
      · obtain rfl : child = step + 1 := by omega
        by_cases inside : step + 1 - lowbit (step + 1) < position
        · exact Or.inr ⟨next, inside, below⟩
        · left
          refine ⟨above, Or.inr ⟨step + 1 - lowbit (step + 1), by omega, ?_, by omega,
            by omega⟩⟩
          rw [← next] at above ⊢
          exact sub_lowbit_parent (step + 1) (by omega) (by omega)
  · rintro (⟨above, rfl | ⟨child, bound, next, positive, below⟩⟩ | ⟨next, above, below⟩)
    · exact ⟨above, Or.inl rfl⟩
    · exact ⟨above, Or.inr ⟨child, by omega, next, positive, below⟩⟩
    · refine ⟨?_, Or.inr ⟨step + 1, le_rfl, next, by omega, below⟩⟩
      have reach := two_mul_lowbit_le (step + 1) (by omega)
      rw [← next]
      omega

theorem pushUp_apply {tree : Nat → G} (index node : Nat) :
    pushUp count tree index node =
      if index + lowbit index ≤ count ∧ index + lowbit index = node then
        tree node + tree index
      else tree node := by
  unfold pushUp
  by_cases inside : index + lowbit index ≤ count
  · by_cases next : index + lowbit index = node
    · subst next
      simp [inside]
    · simp [inside, next, Function.update_of_ne (Ne.symm next)]
  · simp [inside]

theorem not_gathered {step node position : Nat}
    (next : step + 1 + lowbit (step + 1) = node)
    (mem : position ∈ Finset.Ioc (step + 1 - lowbit (step + 1)) (step + 1)) :
    ¬ Gathered step node position := by
  rw [Finset.mem_Ioc] at mem
  have bounds := lowbit_bounds (step + 1) (by omega)
  rintro ⟨above, rfl | ⟨child, bound, childNext, positive, below⟩⟩
  · omega
  · have past := @add_lowbit_le (step + 1) (by omega) child (by omega) (by omega)
    omega

open Classical in
/-- The sum of the positions gathered so far. -/
noncomputable def gatheredSum (values : Nat → G) (step node : Nat) : G :=
  ∑ position ∈ Finset.range (node + 1) with Gathered step node position, values position

theorem gatheredSum_zero {node : Nat} (positive : 0 < node) :
    gatheredSum values 0 node = values node := by
  classical
  have bounds := lowbit_bounds node positive
  have only : (Finset.range (node + 1)).filter (Gathered 0 node) = {node} := by
    ext position
    simp only [Finset.mem_filter, Finset.mem_range, Finset.mem_singleton]
    constructor
    · rintro ⟨_, _, own | ⟨child, bound, _, childPositive, _⟩⟩
      · exact own
      · omega
    · rintro rfl
      exact ⟨by omega, by omega, Or.inl rfl⟩
  unfold gatheredSum
  rw [only, Finset.sum_singleton]

theorem gatheredSum_complete {step node : Nat} (positive : 0 < node)
    (complete : node ≤ step + 1) :
    gatheredSum values step node =
      ∑ position ∈ Finset.Ioc (node - lowbit node) node, values position := by
  classical
  unfold gatheredSum
  congr 1
  ext position
  rw [Finset.mem_filter, gathered_iff positive complete, Finset.mem_range, Finset.mem_Ioc]
  omega

theorem gatheredSum_succ {step node : Nat} :
    gatheredSum values (step + 1) node =
      if step + 1 + lowbit (step + 1) = node then
        gatheredSum values step node + gatheredSum values step (step + 1)
      else gatheredSum values step node := by
  classical
  have bounds := lowbit_bounds (step + 1) (by omega)
  by_cases next : step + 1 + lowbit (step + 1) = node
  · rw [if_pos next, gatheredSum_complete (by omega) le_rfl]
    unfold gatheredSum
    rw [← Finset.sum_union]
    · congr 1
      ext position
      rw [Finset.mem_union, Finset.mem_filter, Finset.mem_filter, gathered_succ,
        Finset.mem_range]
      constructor
      · rintro ⟨bound, held | ⟨_, mem⟩⟩
        · exact Or.inl ⟨bound, held⟩
        · exact Or.inr mem
      · rintro (⟨bound, held⟩ | mem)
        · exact ⟨bound, Or.inl held⟩
        · have upper := (Finset.mem_Ioc.1 mem).2
          exact ⟨by omega, Or.inr ⟨next, mem⟩⟩
    · apply Finset.disjoint_left.2
      intro position held mem
      exact not_gathered next mem (Finset.mem_filter.1 held).2
  · rw [if_neg next]
    unfold gatheredSum
    congr 1
    ext position
    rw [Finset.mem_filter, Finset.mem_filter, gathered_succ]
    simp only [next, false_and, or_false]

/-- The tree built from values holds their sums. -/
theorem build_represents : Represents count (build count values) values := by
  have partially : ∀ step, step ≤ count → ∀ node, 0 < node → node ≤ count →
      (List.range step).foldl (fun tree index => pushUp count tree (index + 1)) values node =
        gatheredSum values step node := by
    intro step
    induction step with
    | zero =>
        intro _ node positive _
        exact (gatheredSum_zero positive).symm
    | succ step ih =>
        intro bound node positive within
        have before := ih (by omega)
        rw [List.range_succ, List.foldl_append, gatheredSum_succ, List.foldl_cons,
          List.foldl_nil, pushUp_apply, before node positive within,
          before (step + 1) (by omega) (by omega)]
        apply if_congr _ rfl rfl
        constructor
        · exact And.right
        · intro next
          exact ⟨by omega, next⟩
  intro node positive within
  exact (partially count le_rfl node positive within).trans
    (gatheredSum_complete positive (by omega))

end Build

end ShadowSpill.Library.Fenwick
