import ShadowSpill.Runtime.RangePlaces
import ShadowSpill.Runtime.PoolLeases

/-!
# Ranges out of an arena

An allocator whose nodes come from an arena answers as one with a heap for its
nodes while the arena has a node for each range.  `stock` is the arena's
allocator for a given state of the other one, so that each call is one equation.
-/

namespace ShadowSpill.Runtime.ArenaRanges

open Ranges RangePlaces

/-- The same ranges over an arena of the given size. -/
def stock (size : Nat) (ranges : RangeAllocator) : RangeAllocator :=
  { ranges with
    arena := true
    nodeCapacity := size
    availableNodes := size - ranges.freeRanges.length }

section Stock

variable (size : Nat) (ranges : RangeAllocator)

@[simp]
theorem stock_freeRanges : (stock size ranges).freeRanges = ranges.freeRanges :=
  rfl

@[simp]
theorem stock_capacity : (stock size ranges).capacity = ranges.capacity :=
  rfl

@[simp]
theorem stock_allocated : (stock size ranges).allocated = ranges.allocated :=
  rfl

@[simp]
theorem stock_freeBytes : freeBytes (stock size ranges) = freeBytes ranges :=
  rfl

@[simp]
theorem stock_largestFree : largestFree (stock size ranges) = largestFree ranges :=
  rfl

end Stock

/-- A range allocator over the heap, with at most so many free ranges. -/
structure Bounded (size : Nat) (ranges : RangeAllocator) : Prop where
  unbounded : ranges.arena = false
  length : ranges.freeRanges.length ≤ size

section Nodes

variable {size : Nat} {ranges : RangeAllocator}

/-- The heap always gives a node. -/
theorem acquireNode_heap (unbounded : ranges.arena = false) :
    ∃ available capacity, acquireNode true ranges =
      some { ranges with availableNodes := available, nodeCapacity := capacity } := by
  unfold acquireNode
  by_cases released : 0 < ranges.availableNodes
  · rw [if_pos released]
    exact ⟨_, _, rfl⟩
  · rw [if_neg released, unbounded, if_neg (by simp), if_pos rfl]
    exact ⟨_, _, rfl⟩

theorem acquireNode_stock (room : ranges.freeRanges.length < size) :
    acquireNode false (stock size ranges) =
      some { stock size ranges with
        availableNodes := size - ranges.freeRanges.length - 1 } := by
  unfold acquireNode
  rw [if_pos]
  · rfl
  · show 0 < size - ranges.freeRanges.length
    omega

/-- An arena with a range on each of its nodes gives no more. -/
theorem acquireNode_full (full : ranges.freeRanges.length = size) :
    acquireNode false (stock size ranges) = none := by
  simp [acquireNode, stock, full]

end Nodes

/-! ## Taking a piece -/

section Taking

variable {size position aligned bytes : Nat} {ranges : RangeAllocator}
  {selected : Range}

theorem replaceAt_length {listed pieces : List Range}
    (inside : position < listed.length) :
    (replaceAt listed position pieces).length + 1 =
      listed.length + pieces.length := by
  simp only [replaceAt, List.length_append, List.length_take, List.length_drop]
  omega

/-- A call to the arena gives what the call to the heap gives, over the arena. -/
structure Follows (size : Nat) (arena heap : Except Refusal (Nat × RangeAllocator)) :
    Prop where
  same : arena = heap.map (Prod.map id (stock size))
  bounded : ∀ offset after, heap = .ok (offset, after) → Bounded size after

theorem follows_error (refusal : Refusal) :
    Follows size (.error refusal) (.error refusal) :=
  ⟨rfl, by simp⟩

theorem allocateFromRange_stock (bounded : Bounded size ranges)
    (room : ranges.freeRanges.length < size)
    (inside : position < ranges.freeRanges.length) :
    Follows size
      (allocateFromRange false (stock size ranges) position selected aligned bytes)
      (allocateFromRange true ranges position selected aligned bytes) := by
  obtain ⟨available, capacity, acquired⟩ := acquireNode_heap bounded.unbounded
  have length := fun pieces => @replaceAt_length position ranges.freeRanges pieces inside
  unfold allocateFromRange
  simp only [acquired, acquireNode_stock room]
  split_ifs with both leading trailing
  · have grown := length [⟨selected.offset, aligned - selected.offset⟩,
      ⟨aligned + bytes, selected.bytes - (aligned - selected.offset) - bytes⟩]
    simp only [List.length_cons, List.length_nil] at grown
    constructor
    · simp only [Except.map, Prod.map, charge, stock, id]
      congr 3
      omega
    · rintro offset after same
      cases same
      exact ⟨bounded.unbounded, by simp only [charge]; omega⟩
  · have grown := length [⟨selected.offset, aligned - selected.offset⟩]
    simp only [List.length_cons, List.length_nil] at grown
    constructor
    · simp only [Except.map, Prod.map, charge, stock, id]
      congr 3
      omega
    · rintro offset after same
      cases same
      exact ⟨bounded.unbounded, by simp only [charge]; omega⟩
  · have grown := length
      [⟨aligned + bytes, selected.bytes - (aligned - selected.offset) - bytes⟩]
    simp only [List.length_cons, List.length_nil] at grown
    constructor
    · simp only [Except.map, Prod.map, charge, stock, id]
      congr 3
      omega
    · rintro offset after same
      cases same
      exact ⟨bounded.unbounded, by simp only [charge]; omega⟩
  · have shrunk := length []
    simp only [List.length_nil] at shrunk
    constructor
    · simp only [Except.map, Prod.map, charge, releaseNode, stock, id]
      congr 3
      omega
    · rintro offset after same
      cases same
      exact ⟨bounded.unbounded, by simp only [charge, releaseNode]; omega⟩

/-- What a scan selects from the start is a range of the list. -/
theorem select_inside {place : Range → Option Nat}
    {precedes : Range → Nat → Selection → Bool} {listed : List Range}
    (chosen : (select place precedes 0 .initial listed).selected =
      some (position, selected)) :
    position < listed.length := by
  rcases select_spec place precedes listed 0 .initial with
    ⟨same, _⟩ | ⟨index, range, get, named, _⟩
  · rw [same] at chosen
    cases chosen
  · rw [named, Nat.zero_add] at chosen
    cases chosen
    exact (List.getElem?_eq_some_iff.1 get).1

theorem allocateSelected_stock (bounded : Bounded size ranges)
    (room : ranges.freeRanges.length < size) {place : Range → Option Nat}
    {precedes : Range → Nat → Selection → Bool} :
    Follows size
      (allocateSelected false (stock size ranges) bytes
        (select place precedes 0 .initial ranges.freeRanges))
      (allocateSelected true ranges bytes
        (select place precedes 0 .initial ranges.freeRanges)) := by
  unfold allocateSelected
  cases chosen : (select place precedes 0 .initial ranges.freeRanges).selected with
  | none => exact follows_error _
  | some found =>
      obtain ⟨position, range⟩ := found
      exact allocateFromRange_stock bounded room (select_inside chosen)

theorem allocate_stock (bounded : Bounded size ranges)
    (room : ranges.freeRanges.length < size) {alignment : Nat} :
    Follows size (allocate false (stock size ranges) bytes alignment)
      (allocate true ranges bytes alignment) := by
  unfold allocate
  rw [stock_freeRanges]
  rcases allocateFirst_spec (lowPlace bytes alignment) ranges.freeRanges 0 with
    ⟨none, _⟩ | ⟨index, range, start, get, found, _⟩
  · rw [none]
    exact follows_error _
  · rw [found]
    apply allocateFromRange_stock bounded room
    rw [Nat.zero_add]
    exact (List.getElem?_eq_some_iff.1 get).1

end Taking

/-! ## Giving back -/

section Giving

variable {size offset bytes : Nat} {ranges : RangeAllocator}

theorem mergeNext_length (node : Range) (after : List Range) :
    (mergeNext node after).2.1.length + (mergeNext node after).2.2.toNat =
      after.length := by
  unfold mergeNext
  cases after with
  | nil => rfl
  | cons next rest =>
      simp only
      split_ifs <;> simp

theorem mergePrevious_length (before : List Range) (node : Range) :
    (mergePrevious before node).1.length + (mergePrevious before node).2.toNat =
      before.length + 1 := by
  unfold mergePrevious
  cases last : before.getLast? with
  | none =>
      rw [List.getLast?_eq_none_iff] at last
      simp [last]
  | some previous =>
      have positive : 0 < before.length := by
        cases before with
        | nil => cases last
        | cons => simp
      simp only
      split_ifs
      · simp
        omega
      · simp

/-- The free list after a release, and the nodes it gives up. -/
theorem rangeFree_heap (unbounded : ranges.arena = false) (positive : bytes ≠ 0) :
    ∃ free released available capacity,
      rangeFree true ranges offset bytes = some { ranges with
        freeRanges := free
        allocated := Library.Word64.wrapSub ranges.allocated bytes
        availableNodes := available
        nodeCapacity := capacity } ∧
      free.length + released = ranges.freeRanges.length + 1 ∧
      (ranges.freeRanges.length < size →
        rangeFree false (stock size ranges) offset bytes =
          some { stock size ranges with
            freeRanges := free
            allocated := Library.Word64.wrapSub ranges.allocated bytes
            availableNodes :=
              size - ranges.freeRanges.length - 1 + released }) := by
  obtain ⟨available, capacity, acquired⟩ := acquireNode_heap unbounded
  have split : (ranges.freeRanges.takeWhile (·.offset < offset)).length +
      (ranges.freeRanges.dropWhile (·.offset < offset)).length =
        ranges.freeRanges.length := by
    rw [← List.length_append, List.takeWhile_append_dropWhile]
  unfold rangeFree
  rw [if_neg positive]
  simp only [acquired, stock_freeRanges, stock_allocated]
  have next := mergeNext_length ⟨offset, bytes⟩
    (ranges.freeRanges.dropWhile (·.offset < offset))
  generalize mergeNext ⟨offset, bytes⟩
    (ranges.freeRanges.dropWhile (·.offset < offset)) = merged at next ⊢
  obtain ⟨node, rest, nextReleased⟩ := merged
  have previous := mergePrevious_length
    (ranges.freeRanges.takeWhile (·.offset < offset)) node
  generalize mergePrevious (ranges.freeRanges.takeWhile (·.offset < offset)) node =
    joined at previous ⊢
  obtain ⟨front, nodeReleased⟩ := joined
  simp only at next previous ⊢
  refine ⟨front ++ rest, nextReleased.toNat + nodeReleased.toNat, _, _, rfl, ?_, ?_⟩
  · rw [List.length_append]
    omega
  · intro room
    rw [if_neg positive, acquireNode_stock room]
    simp only [Nat.add_assoc]

theorem rangeFree_stock (bounded : Bounded size ranges)
    (room : ranges.freeRanges.length < size) :
    ∃ after, rangeFree true ranges offset bytes = some after ∧
      rangeFree false (stock size ranges) offset bytes = some (stock size after) ∧
      Bounded size after ∧
      after.freeRanges.length ≤ ranges.freeRanges.length + 1 := by
  by_cases positive : bytes = 0
  · refine ⟨ranges, ?_, ?_, bounded, Nat.le_succ _⟩
    · rw [rangeFree, if_pos positive]
    · rw [rangeFree, if_pos positive]
  · obtain ⟨free, released, available, capacity, freed, length, stocked⟩ :=
      @rangeFree_heap size offset bytes ranges bounded.unbounded positive
    refine ⟨_, freed, ?_, ⟨bounded.unbounded, ?_⟩, ?_⟩
    · rw [stocked room]
      simp only [stock]
      congr 2
      omega
    · simp only
      omega
    · simp only
      omega

/-- A release needs a node before it merges anything. -/
theorem rangeFree_full (full : ranges.freeRanges.length = size)
    (positive : bytes ≠ 0) :
    rangeFree false (stock size ranges) offset bytes = none := by
  rw [rangeFree, if_neg positive, acquireNode_full full]

end Giving

end ShadowSpill.Runtime.ArenaRanges
