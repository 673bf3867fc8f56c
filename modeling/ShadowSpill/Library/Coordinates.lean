import ShadowSpill.Library.Bisection

/-!
# Compressed coordinates

Finitely many numbers are sorted and made distinct, and each is named by its
ordinal among them.  Ordinals order coordinates as the numbers do, and a
number between two neighbouring coordinates stands to every coordinate as the
lower neighbour does: `ordinal_le_iff_of_segment`.
-/

namespace ShadowSpill.Library.Coordinates

open Bisection

/-- The distinct values of a sorted array, each kept at its first occurrence. -/
def distinct (sorted : List Nat) : List Nat :=
  sorted.foldl
    (fun kept value => if kept.getLast? = some value then kept else kept ++ [value])
    []

/-- The number of coordinates below a value. -/
def ordinal (coordinates : List Nat) (value : Nat) : Nat :=
  bisect (fun middle => decide (coordinates.getD middle 0 < value))
    coordinates.length 0 coordinates.length

/-- One pass over a sorted array keeps it sorted, strictly, and keeps its
members. -/
theorem distinct_spec (sorted : List Nat) (ascending : sorted.Pairwise (· ≤ ·)) :
    (distinct sorted).Pairwise (· < ·) ∧
      ∀ value, value ∈ distinct sorted ↔ value ∈ sorted := by
  have loop : ∀ (rest kept : List Nat), kept.Pairwise (· < ·) →
      rest.Pairwise (· ≤ ·) →
      (∀ last, kept.getLast? = some last →
        (∀ value ∈ kept, value ≤ last) ∧ ∀ value ∈ rest, last ≤ value) →
      (rest.foldl (fun kept value =>
          if kept.getLast? = some value then kept else kept ++ [value])
          kept).Pairwise (· < ·) ∧
        ∀ value, value ∈ rest.foldl (fun kept value =>
          if kept.getLast? = some value then kept else kept ++ [value]) kept ↔
          value ∈ kept ∨ value ∈ rest := by
    intro rest
    induction rest with
    | nil => exact fun kept strict _ _ => ⟨strict, by simp⟩
    | cons head tail ih =>
        intro kept strict ascending bounds
        obtain ⟨headLe, tailAscending⟩ := List.pairwise_cons.mp ascending
        rw [List.foldl_cons]
        by_cases same : kept.getLast? = some head
        · rw [if_pos same]
          have inKept : head ∈ kept := List.mem_of_getLast? same
          obtain ⟨pairwise, members⟩ := ih kept strict tailAscending
            (fun last equal => ⟨(bounds last equal).1,
              fun value mem => (bounds last equal).2 value (by simp [mem])⟩)
          refine ⟨pairwise, fun value => (members value).trans ?_⟩
          constructor
          · exact Or.imp_right (List.mem_cons_of_mem _)
          · rintro (mem | mem)
            · exact Or.inl mem
            · rcases List.mem_cons.mp mem with rfl | mem
              · exact Or.inl inKept
              · exact Or.inr mem
        · rw [if_neg same]
          have below : ∀ value ∈ kept, value < head := by
            intro value mem
            have some_kept : kept ≠ [] := List.ne_nil_of_mem mem
            have lastEq := List.getLast?_eq_some_getLast some_kept
            have le := (bounds _ lastEq).1 value mem
            have leHead := (bounds _ lastEq).2 head (by simp)
            have apart : kept.getLast some_kept ≠ head := by
              intro equal
              exact same (by rw [lastEq, equal])
            omega
          obtain ⟨pairwise, members⟩ := ih (kept ++ [head])
            (List.pairwise_append.mpr ⟨strict, List.pairwise_singleton _ _,
              fun value mem other single => by
                rw [List.mem_singleton.mp single]
                exact below value mem⟩)
            tailAscending
            (fun last equal => by
              have lastIs : last = head := by simpa using equal.symm
              subst lastIs
              refine ⟨fun value mem => ?_, headLe⟩
              rcases List.mem_append.mp mem with mem | mem
              · exact (below value mem).le
              · exact (List.mem_singleton.mp mem).le)
          refine ⟨pairwise, fun value => (members value).trans ?_⟩
          simp only [List.mem_append, List.mem_cons, List.not_mem_nil, or_false,
            or_assoc]
  have whole := loop sorted [] List.Pairwise.nil ascending (by simp)
  simpa [distinct] using whole

section Ordinal

variable {coordinates : List Nat} {first second : Nat}

theorem ordinal_partitions (strict : coordinates.Pairwise (· < ·)) (value : Nat) :
    Partitions (fun middle => decide (coordinates.getD middle 0 < value)) 0 coordinates.length
      (ordinal coordinates value) := by
  apply bisect_partitions _ _ _ _ (by omega) (Nat.zero_le _)
  intro low high _ ordered bound held
  rw [decide_eq_true_eq, List.getD_eq_getElem _ _ bound] at held
  rw [decide_eq_true_eq, List.getD_eq_getElem _ _ (by omega)]
  rcases Nat.lt_or_eq_of_le ordered with less | rfl
  · have := List.pairwise_iff_getElem.mp strict low high (by omega) bound less
    omega
  · exact held

/-- An coordinate's ordinal is its position. -/
theorem ordinal_getElem (strict : coordinates.Pairwise (· < ·))
    {index : Nat} (bound : index < coordinates.length) :
    ordinal coordinates coordinates[index] = index := by
  have partition := ordinal_partitions strict coordinates[index]
  have le := partition.le_high
  by_contra apart
  rcases Nat.lt_or_gt_of_ne apart with less | more
  · have held := partition.after _ le_rfl (by omega)
    rw [decide_eq_false_iff_not, List.getD_eq_getElem _ _ (by omega)] at held
    exact held (List.pairwise_iff_getElem.mp strict _ _ (by omega) bound less)
  · have held := partition.before index (Nat.zero_le _) more
    rw [decide_eq_true_eq, List.getD_eq_getElem _ _ bound] at held
    omega

theorem ordinal_lt_length (strict : coordinates.Pairwise (· < ·))
    (mem : first ∈ coordinates) : ordinal coordinates first < coordinates.length := by
  obtain ⟨index, bound, rfl⟩ := List.mem_iff_getElem.mp mem
  rwa [ordinal_getElem strict bound]

/-- Ranks order endpoints as the coordinates do. -/
theorem ordinal_lt_iff (strict : coordinates.Pairwise (· < ·))
    (firstMem : first ∈ coordinates) (secondMem : second ∈ coordinates) :
    ordinal coordinates first < ordinal coordinates second ↔ first < second := by
  obtain ⟨low, lowBound, rfl⟩ := List.mem_iff_getElem.mp firstMem
  obtain ⟨high, highBound, rfl⟩ := List.mem_iff_getElem.mp secondMem
  rw [ordinal_getElem strict lowBound, ordinal_getElem strict highBound]
  have pairs := List.pairwise_iff_getElem.mp strict
  constructor
  · exact pairs low high lowBound highBound
  · intro less
    by_contra no
    rcases Nat.eq_or_lt_of_le (Nat.le_of_not_lt no) with rfl | more
    · omega
    · have := pairs high low highBound lowBound more
      omega

theorem ordinal_le_iff (strict : coordinates.Pairwise (· < ·))
    (firstMem : first ∈ coordinates) (secondMem : second ∈ coordinates) :
    ordinal coordinates first ≤ ordinal coordinates second ↔ first ≤ second := by
  rw [← not_lt, ← not_lt, ordinal_lt_iff strict secondMem firstMem]

end Ordinal


/-! ## Segments between neighbouring coordinates -/

section Segment

variable {coordinates : List Nat} {value : Nat}

/-- The value lies between a coordinate and the next. -/
def InSegment (coordinates : List Nat) (index value : Nat) : Prop :=
  index + 1 < coordinates.length ∧ coordinates.getD index 0 ≤ value ∧
    value < coordinates.getD (index + 1) 0

/-- A coordinate is at most a value exactly when its ordinal is at most the
value's segment. -/
theorem ordinal_le_iff_of_segment (strict : coordinates.Pairwise (· < ·))
    {index coordinate : Nat} (segment : InSegment coordinates index value)
    (mem : coordinate ∈ coordinates) :
    ordinal coordinates coordinate ≤ index ↔ coordinate ≤ value := by
  obtain ⟨inside, lower, upper⟩ := segment
  obtain ⟨place, bound, rfl⟩ := List.mem_iff_getElem.mp mem
  rw [ordinal_getElem strict bound]
  rw [List.getD_eq_getElem _ _ inside] at upper
  rw [List.getD_eq_getElem _ _ (by omega)] at lower
  have pairs := List.pairwise_iff_getElem.mp strict
  constructor
  · intro le
    rcases Nat.lt_or_eq_of_le le with less | rfl
    · have := pairs place index bound (by omega) less
      omega
    · exact lower
  · intro le
    by_contra more
    rcases Nat.lt_or_eq_of_le (Nat.succ_le_of_lt (not_le.mp more)) with less | equal
    · have := pairs (index + 1) place inside bound less
      omega
    · subst equal
      exact absurd le (not_le.mpr upper)

/-- Every value between two coordinates has a segment. -/
theorem exists_segment (strict : coordinates.Pairwise (· < ·))
    {low high : Nat} (lowMem : low ∈ coordinates) (highMem : high ∈ coordinates)
    (lower : low ≤ value) (upper : value < high) :
    ∃ index, InSegment coordinates index value := by
  have partition := ordinal_partitions strict (value + 1)
  obtain ⟨first, firstBound, rfl⟩ := List.mem_iff_getElem.mp lowMem
  obtain ⟨last, lastBound, rfl⟩ := List.mem_iff_getElem.mp highMem
  have le := partition.le_high
  have firstBelow : first < ordinal coordinates (value + 1) := by
    by_contra above
    have held := partition.after first (not_lt.mp above) firstBound
    rw [decide_eq_false_iff_not, List.getD_eq_getElem _ _ firstBound] at held
    omega
  have lastAbove : ordinal coordinates (value + 1) ≤ last := by
    by_contra below
    have held := partition.before last (Nat.zero_le _) (not_le.mp below)
    rw [decide_eq_true_eq, List.getD_eq_getElem _ _ lastBound] at held
    omega
  refine ⟨ordinal coordinates (value + 1) - 1, by omega, ?_, ?_⟩
  · have held := partition.before (ordinal coordinates (value + 1) - 1)
      (Nat.zero_le _) (by omega)
    rw [decide_eq_true_eq] at held
    omega
  · rw [Nat.sub_add_cancel (by omega)]
    have held := partition.after (ordinal coordinates (value + 1)) le_rfl (by omega)
    rw [decide_eq_false_iff_not] at held
    omega

end Segment

end ShadowSpill.Library.Coordinates
