import ShadowSpill.Runtime.RangePlaces

/-!
# The free list and the live ranges tile the pool

`Tiled` relates an allocator to the ranges its callers hold.  A successful
allocation adds its range to them and a successful release takes one away;
a refused call leaves the allocator as it is.
-/

namespace ShadowSpill.Runtime.RangeTiling

open Library.AddressRanges Library.RangeLists Library.Word64 Ranges RangePlaces

/-- The addresses of a range. -/
def extent (range : Range) : AddressRange :=
  ⟨range.offset, range.offset + range.bytes⟩

/-- Some range of the list holds the address. -/
def Holds (ranges : List Range) (address : Nat) : Prop :=
  Covers (ranges.map extent) address

@[simp]
theorem not_holds_nil (address : Nat) : ¬ Holds [] address := by
  simp [Holds]

@[simp]
theorem holds_cons (range : Range) (ranges : List Range) (address : Nat) :
    Holds (range :: ranges) address ↔
      (extent range).Contains address ∨ Holds ranges address := by
  simp [Holds]

@[simp]
theorem holds_append (first second : List Range) (address : Nat) :
    Holds (first ++ second) address ↔
      Holds first address ∨ Holds second address := by
  simp [Holds]

theorem contains_extent {range : Range} {address : Nat} :
    (extent range).Contains address ↔
      range.offset ≤ address ∧ address < range.offset + range.bytes :=
  Iff.rfl

theorem holds_of_mem {ranges : List Range} {range : Range} {address : Nat}
    (mem : range ∈ ranges) (holds : (extent range).Contains address) :
    Holds ranges address :=
  ⟨extent range, List.mem_map_of_mem mem, holds⟩

theorem holds_perm {first second : List Range} (perm : first.Perm second)
    (address : Nat) : Holds first address ↔ Holds second address := by
  constructor <;> rintro ⟨range, mem, holds⟩
  · exact ⟨range, (perm.map extent).mem_iff.1 mem, holds⟩
  · exact ⟨range, (perm.map extent).mem_iff.2 mem, holds⟩

/-- The bytes of a list of ranges together. -/
def total (ranges : List Range) : Nat :=
  (ranges.map Range.bytes).sum

@[simp]
theorem total_nil : total [] = 0 :=
  rfl

@[simp]
theorem total_cons (range : Range) (ranges : List Range) :
    total (range :: ranges) = range.bytes + total ranges := by
  simp [total]

@[simp]
theorem total_append (first second : List Range) :
    total (first ++ second) = total first + total second := by
  simp [total]

/-- No address lies in both ranges. -/
def Apart (first second : Range) : Prop :=
  ∀ address, (extent first).Contains address → ¬ (extent second).Contains address

/-- The free list is canonical, it tiles the pool together with the live
ranges, and the counters say so. -/
structure Tiled (allocator : RangeAllocator) (live : List Range) : Prop where
  word : allocator.capacity < modulus
  canonical : Canonical (allocator.freeRanges.map extent)
  nonempty : ∀ range ∈ live, 0 < range.bytes
  disjoint : live.Pairwise Apart
  exhaustive : ∀ address, address < allocator.capacity ↔
    Holds allocator.freeRanges address ∨ Holds live address
  clear : ∀ address, Holds allocator.freeRanges address → ¬ Holds live address
  charged : allocator.allocated = total live
  accounted : allocator.allocated + total allocator.freeRanges =
    allocator.capacity
  nodes : allocator.availableNodes + allocator.freeRanges.length =
    allocator.nodeCapacity

theorem Tiled.perm {allocator : RangeAllocator} {first second : List Range}
    (tiled : Tiled allocator first) (perm : first.Perm second) :
    Tiled allocator second where
  word := tiled.word
  canonical := tiled.canonical
  nonempty := fun range mem => tiled.nonempty range (perm.mem_iff.2 mem)
  disjoint := by
    apply (perm.pairwise_iff _).1 tiled.disjoint
    intro lower upper apart address holds holds'
    exact apart address holds' holds
  exhaustive := fun address => by
    rw [tiled.exhaustive, holds_perm perm]
  clear := fun address free => by
    rw [← holds_perm perm]
    exact tiled.clear address free
  charged := by
    rw [tiled.charged]
    exact (perm.map Range.bytes).sum_nat
  accounted := tiled.accounted
  nodes := tiled.nodes

/-- A live range may be held as two. -/
theorem Tiled.split {allocator : RangeAllocator} {live : List Range}
    {offset bytes front : Nat}
    (tiled : Tiled allocator (⟨offset, bytes⟩ :: live))
    (positive : 0 < front) (short : front < bytes) :
    Tiled allocator (⟨offset, front⟩ :: ⟨offset + front, bytes - front⟩ :: live)
    where
  word := tiled.word
  canonical := tiled.canonical
  nonempty := fun range mem => by
    rcases List.mem_cons.1 mem with rfl | mem
    · exact positive
    · rcases List.mem_cons.1 mem with rfl | mem
      · simp only
        omega
      · exact tiled.nonempty range (by simp [mem])
  disjoint := by
    have disjoint := List.pairwise_cons.1 tiled.disjoint
    rw [List.pairwise_cons, List.pairwise_cons]
    refine ⟨?_, ?_, disjoint.2⟩
    · intro other mem address holds
      rcases List.mem_cons.1 mem with rfl | mem
      · rw [contains_extent] at holds ⊢
        simp only at holds ⊢
        omega
      · apply disjoint.1 other mem address
        rw [contains_extent] at holds ⊢
        simp only at holds ⊢
        omega
    · intro other mem address holds
      apply disjoint.1 other mem address
      rw [contains_extent] at holds ⊢
      simp only at holds ⊢
      omega
  exhaustive := fun address => by
    have whole := tiled.exhaustive address
    simp only [holds_cons, contains_extent] at whole ⊢
    rw [whole, ← or_assoc (a := offset ≤ address ∧ _)]
    apply or_congr_right
    apply or_congr_left
    omega
  clear := fun address free => by
    have clear := tiled.clear address free
    simp only [holds_cons, contains_extent, not_or] at clear ⊢
    refine ⟨?_, ?_, clear.2⟩ <;> omega
  charged := by
    have charged := tiled.charged
    simp only [total_cons] at charged ⊢
    omega
  accounted := tiled.accounted
  nodes := tiled.nodes

section Bounds

variable {allocator : RangeAllocator} {live : List Range} {range : Range}

theorem Tiled.free_nonempty (tiled : Tiled allocator live)
    (mem : range ∈ allocator.freeRanges) : 0 < range.bytes := by
  have ordered := tiled.canonical.nonempty _ (List.mem_map_of_mem mem)
  simp only [extent] at ordered
  omega

theorem Tiled.free_bound (tiled : Tiled allocator live)
    (mem : range ∈ allocator.freeRanges) :
    range.offset + range.bytes ≤ allocator.capacity := by
  have nonempty := tiled.free_nonempty mem
  have last := (tiled.exhaustive (range.offset + range.bytes - 1)).2
    (Or.inl (holds_of_mem mem (contains_extent.2 (by omega))))
  omega

theorem Tiled.fits (tiled : Tiled allocator live)
    (mem : range ∈ allocator.freeRanges) : Fits range :=
  lt_of_le_of_lt (tiled.free_bound mem) tiled.word

theorem Tiled.live_bound (tiled : Tiled allocator live) (mem : range ∈ live) :
    range.offset + range.bytes ≤ allocator.capacity := by
  have nonempty := tiled.nonempty range mem
  have last := (tiled.exhaustive (range.offset + range.bytes - 1)).2
    (Or.inr (holds_of_mem mem (contains_extent.2 (by omega))))
  omega

theorem Tiled.allocated_le (tiled : Tiled allocator live) :
    allocator.allocated ≤ allocator.capacity := by
  rw [← tiled.accounted]
  exact Nat.le_add_right _ _

end Bounds

/-! ## Nodes -/

/-- A node is there to take: one was released, or the process heap gives one. -/
def NodeAvailable (heap : Bool) (allocator : RangeAllocator) : Prop :=
  0 < allocator.availableNodes ∨ allocator.arena = false ∧ heap = true

theorem acquireNode_none {heap : Bool} {allocator : RangeAllocator} :
    acquireNode heap allocator = none ↔ ¬ NodeAvailable heap allocator := by
  unfold acquireNode NodeAvailable
  split_ifs with some_available is_arena gives <;> simp_all

/-- A node in use is one fewer available, or one more in all. -/
theorem acquireNode_some {heap : Bool} {allocator acquired : RangeAllocator}
    (result : acquireNode heap allocator = some acquired) :
    ∃ available capacity,
      acquired = { allocator with
        availableNodes := available, nodeCapacity := capacity } ∧
      (allocator.arena = true → capacity = allocator.nodeCapacity) ∧
      ∀ used, allocator.availableNodes + used = allocator.nodeCapacity →
        available + (used + 1) = capacity := by
  unfold acquireNode at result
  split_ifs at result with some_available is_arena gives <;> cases result
  · exact ⟨_, _, rfl, fun _ => rfl, fun used nodes => by omega⟩
  · exact ⟨_, _, rfl, fun arena => absurd arena is_arena,
      fun used nodes => by omega⟩

/-! ## Allocation -/

/-- The pieces of a range that stay free around a request. -/
structure Remainders (range : Range) (start bytes : Nat) (pieces : List Range) :
    Prop where
  canonical : Canonical (pieces.map extent)
  within : ∀ piece ∈ pieces, range.offset ≤ piece.offset ∧
    piece.offset + piece.bytes ≤ range.offset + range.bytes
  exact : ∀ address, Holds pieces address ↔
    (extent range).Contains address ∧
      ¬ (extent ⟨start, bytes⟩).Contains address
  total : total pieces + bytes = range.bytes

/-- What a successful `allocate_from_range` does. -/
theorem allocateFromRange_ok
    {heap : Bool} {allocator after : RangeAllocator}
    {position start bytes alignment offset : Nat} {range : Range}
    (fits : FitsIn range bytes alignment start) (positive : 0 < bytes)
    (result : allocateFromRange heap allocator position range start bytes =
      .ok (offset, after)) :
    offset = start ∧ ∃ pieces available capacity,
      Remainders range start bytes pieces ∧
      after = charge bytes { allocator with
        freeRanges := replaceAt allocator.freeRanges position pieces
        availableNodes := available
        nodeCapacity := capacity } ∧
      (allocator.arena = true → capacity = allocator.nodeCapacity) ∧
      ∀ others, allocator.availableNodes + (others + 1) =
        allocator.nodeCapacity →
          available + (others + pieces.length) = capacity := by
  obtain ⟨_, lower, upper⟩ := fits
  have split : range.bytes - (start - range.offset) - bytes =
      range.offset + range.bytes - (start + bytes) := by
    omega
  unfold allocateFromRange at result
  simp only [split] at result
  split_ifs at result with both leads trails
  · cases acquire : acquireNode heap allocator with
    | none => simp [acquire] at result
    | some acquired =>
        simp only [acquire] at result
        cases result
        obtain ⟨available, capacity, rfl, same, nodes⟩ := acquireNode_some acquire
        refine ⟨rfl, _, available, capacity, ⟨?_, ?_, ?_, ?_⟩, rfl, same, ?_⟩
        · simp [canonical_cons, extent]
          omega
        · simp
          omega
        · intro address
          simp [contains_extent]
          omega
        · simp
          omega
        · intro others held
          exact nodes _ held
  · cases result
    refine ⟨rfl, _, _, _, ⟨?_, ?_, ?_, ?_⟩, rfl, fun _ => rfl, ?_⟩
    · simp [extent]
      omega
    · simp
      omega
    · intro address
      simp [contains_extent]
      omega
    · simp
      omega
    · intro others held
      exact held
  · cases result
    refine ⟨rfl, _, _, _, ⟨?_, ?_, ?_, ?_⟩, rfl, fun _ => rfl, ?_⟩
    · simp [extent]
      omega
    · simp
      omega
    · intro address
      simp [contains_extent]
      omega
    · simp
      omega
    · intro others held
      exact held
  · cases result
    refine ⟨rfl, [], _, _, ⟨?_, ?_, ?_, ?_⟩, rfl, fun _ => rfl, ?_⟩
    · simp
    · simp
    · intro address
      simp [contains_extent]
      omega
    · simp
      omega
    · intro others held
      simp only [List.length_nil]
      omega

/-- `allocate_from_range` fails only for want of a node. -/
theorem allocateFromRange_error
    {heap : Bool} {allocator : RangeAllocator} {position start bytes : Nat}
    {range : Range} {refusal : Refusal}
    (result : allocateFromRange heap allocator position range start bytes =
      .error refusal) :
    ¬ NodeAvailable heap allocator := by
  unfold allocateFromRange at result
  simp only at result
  split_ifs at result
  cases acquire : acquireNode heap allocator with
  | none => exact acquireNode_none.1 acquire
  | some acquired => simp [acquire] at result

theorem replaceAt_split {ranges : List Range} {position : Nat} {range : Range}
    (get : ranges[position]? = some range) :
    ∃ before after, ranges = before ++ range :: after ∧
      ∀ pieces, replaceAt ranges position pieces = before ++ pieces ++ after := by
  refine ⟨ranges.take position, ranges.drop (position + 1), ?_, fun _ => rfl⟩
  obtain ⟨bound, rfl⟩ := List.getElem?_eq_some_iff.1 get
  rw [List.getElem_cons_drop, List.take_append_drop]

/-- The free addresses after a piece is taken out of one range are those before
without the piece's own. -/
theorem Remainders.holds_replace
    {before beyond pieces : List Range} {range : Range} {start bytes : Nat}
    (rest : Remainders range start bytes pieces)
    (canonical : Canonical
      (before.map extent ++ extent range :: beyond.map extent))
    (taken : ∀ address, (extent ⟨start, bytes⟩).Contains address →
      (extent range).Contains address) (address : Nat) :
    Holds (before ++ pieces ++ beyond) address ↔
      Holds (before ++ range :: beyond) address ∧
        ¬ (extent ⟨start, bytes⟩).Contains address := by
  simp only [holds_append, holds_cons, rest.exact]
  by_cases inside : (extent ⟨start, bytes⟩).Contains address
  · -- The request's own addresses lie in no other free range.
    have only := canonical.exclusive (taken address inside)
    have below : ¬ Holds before address := only.1
    have above : ¬ Holds beyond address := only.2
    simp [inside, below, above]
  · simp [inside, or_assoc]

/-- A successful allocation gives a range of free addresses and keeps the pool
tiled with that range live. -/
theorem allocateFromRange_tiled
    {heap : Bool} {allocator after : RangeAllocator} {live : List Range}
    {position start bytes alignment offset : Nat} {range : Range}
    (tiled : Tiled allocator live)
    (get : allocator.freeRanges[position]? = some range)
    (fits : FitsIn range bytes alignment start) (positive : 0 < bytes)
    (result : allocateFromRange heap allocator position range start bytes =
      .ok (offset, after)) :
    offset = start ∧ Tiled after (⟨start, bytes⟩ :: live) ∧
      after.capacity = allocator.capacity ∧ after.arena = allocator.arena ∧
      (allocator.arena = true → after.nodeCapacity = allocator.nodeCapacity) := by
  obtain ⟨rfl, pieces, available, capacity, rest, rfl, same, nodes⟩ :=
    allocateFromRange_ok fits positive result
  obtain ⟨before, beyond, list, replaced⟩ := replaceAt_split get
  have mem : range ∈ allocator.freeRanges := by simp [list]
  have lower := fits.lower
  have upper := fits.upper
  have canonical := tiled.canonical
  have accounted := tiled.accounted
  simp only [list, List.map_append, List.map_cons] at canonical
  simp only [list, total_append, total_cons] at accounted
  have taken : ∀ address, (extent ⟨offset, bytes⟩).Contains address →
      (extent range).Contains address := by
    intro address holds
    rw [contains_extent] at holds ⊢
    simp only at holds
    omega
  have counted : wrap (allocator.allocated + bytes) =
      allocator.allocated + bytes := by
    apply wrap_eq
    have word := tiled.word
    have room := rest.total
    omega
  refine ⟨rfl, ?_, rfl, rfl, same⟩
  constructor
  · exact tiled.word
  · simp only [charge, replaced, List.map_append]
    apply canonical.replace rest.canonical
    simpa [extent] using rest.within
  · intro other otherMem
    rcases List.mem_cons.1 otherMem with rfl | otherMem
    · exact positive
    · exact tiled.nonempty other otherMem
  · rw [List.pairwise_cons]
    refine ⟨?_, tiled.disjoint⟩
    intro other otherMem address holds holds'
    exact tiled.clear address (holds_of_mem mem (taken address holds))
      (holds_of_mem otherMem holds')
  · intro address
    have free : Holds allocator.freeRanges address ↔
        Holds (before ++ range :: beyond) address := by rw [list]
    have inside : (extent ⟨offset, bytes⟩).Contains address →
        Holds allocator.freeRanges address :=
      fun holds => holds_of_mem mem (taken address holds)
    show address < allocator.capacity ↔ _
    rw [tiled.exhaustive address, holds_cons]
    simp only [charge, replaced, rest.holds_replace canonical taken, ← free]
    constructor
    · rintro (held | held)
      · by_cases own : (extent ⟨offset, bytes⟩).Contains address
        · exact Or.inr (Or.inl own)
        · exact Or.inl ⟨held, own⟩
      · exact Or.inr (Or.inr held)
    · rintro (held | held | held)
      · exact Or.inl held.1
      · exact Or.inl (inside held)
      · exact Or.inr held
  · intro address
    have free : Holds allocator.freeRanges address ↔
        Holds (before ++ range :: beyond) address := by rw [list]
    rw [holds_cons]
    simp only [charge, replaced, rest.holds_replace canonical taken, ← free]
    rintro ⟨held, other⟩ (own | live)
    · exact other own
    · exact tiled.clear address held live
  · simp only [charge, counted, total_cons]
    rw [tiled.charged, Nat.add_comm]
  · have room := rest.total
    simp only [charge, counted, replaced, total_append]
    omega
  · have count := tiled.nodes
    have step := nodes (before.length + beyond.length)
      (by rw [← count, list]; simp; omega)
    simp only [charge, replaced, List.length_append]
    omega

/-! ## Release -/

/-- A range goes back below the ranges above it, as one range with the next when
they touch. -/
theorem mergeNext_spec (node : Range) {after : List Range} {capacity : Nat}
    (word : capacity < modulus)
    (canonical : Canonical (after.map extent))
    (positive : 0 < node.bytes)
    (above : ∀ range ∈ after, node.offset + node.bytes ≤ range.offset)
    (bounded : node.offset + node.bytes ≤ capacity)
    (bounds : ∀ range ∈ after, range.offset + range.bytes ≤ capacity) :
    ∃ merged rest released, mergeNext node after = (merged, rest, released) ∧
      merged.offset = node.offset ∧
      node.bytes ≤ merged.bytes ∧
      merged.offset + merged.bytes ≤ capacity ∧
      Canonical ((merged :: rest).map extent) ∧
      (∀ address, Holds (merged :: rest) address ↔
        Holds (node :: after) address) ∧
      total (merged :: rest) = total (node :: after) ∧
      rest.length + released.toNat = after.length := by
  rcases after with _ | ⟨next, rest⟩
  · refine ⟨node, [], false, rfl, rfl, le_rfl, bounded, ?_, ?_, rfl, rfl⟩
    · simp [extent, positive]
    · intro address
      exact Iff.rfl
  · have nextBound := bounds next (by simp)
    have nextAbove := above next (by simp)
    simp only [List.map_cons] at canonical
    rw [canonical_cons] at canonical
    obtain ⟨nonempty, tail, beyond⟩ := canonical
    simp only [extent] at nonempty
    unfold mergeNext
    simp only
    rw [wrap_eq (lt_of_le_of_lt bounded word)]
    split_ifs with touches
    · have sum : wrap (node.bytes + next.bytes) = node.bytes + next.bytes :=
        wrap_eq (by omega)
      rw [sum]
      refine ⟨_, rest, true, rfl, rfl, by simp, by simp only; omega, ?_, ?_, ?_,
        rfl⟩
      · simp only [List.map_cons]
        rw [canonical_cons]
        refine ⟨by simp only [extent]; omega, tail, ?_⟩
        intro upper mem
        have step := beyond upper mem
        simp only [extent] at step ⊢
        omega
      · intro address
        simp only [holds_cons, contains_extent]
        rw [← or_assoc]
        apply or_congr_left
        omega
      · simp only [total_cons]
        omega
    · refine ⟨node, next :: rest, false, rfl, rfl, le_rfl, bounded, ?_, ?_, rfl,
        rfl⟩
      · simp only [List.map_cons]
        rw [canonical_cons, canonical_cons]
        refine ⟨by simp only [extent]; omega, ⟨nonempty, tail, beyond⟩, ?_⟩
        intro upper mem
        rcases List.mem_cons.1 mem with rfl | mem
        · simp only [extent]
          omega
        · have step := beyond upper mem
          simp only [extent] at step ⊢
          omega
      · intro address
        exact Iff.rfl

/-- A range goes back above the ranges below it, as one range with the last of
them when they touch. -/
theorem mergePrevious_spec (node : Range) {before : List Range} {capacity : Nat}
    (word : capacity < modulus)
    (canonical : Canonical (before.map extent))
    (positive : 0 < node.bytes)
    (below : ∀ range ∈ before, range.offset + range.bytes ≤ node.offset)
    (bounded : node.offset + node.bytes ≤ capacity) :
    ∃ front released, mergePrevious before node = (front, released) ∧
      Canonical (front.map extent) ∧
      (∀ range ∈ front, range.offset + range.bytes ≤ node.offset + node.bytes) ∧
      (∀ address, Holds front address ↔
        Holds before address ∨ (extent node).Contains address) ∧
      total front = total before + node.bytes ∧
      front.length + released.toNat = before.length + 1 := by
  unfold mergePrevious
  cases last : before.getLast? with
  | none =>
      obtain rfl : before = [] := List.getLast?_eq_none_iff.1 last
      refine ⟨[node], false, rfl, ?_, ?_, ?_, ?_, rfl⟩
      · simp [extent, positive]
      · simp
      · simp
      · simp
  | some previous =>
      obtain ⟨front, rfl⟩ : ∃ front, before = front ++ [previous] :=
        ⟨_, (List.dropLast_append_getLast? previous last).symm⟩
      have previousBelow := below previous (by simp)
      simp only [List.map_append, List.map_cons, List.map_nil] at canonical
      rw [canonical_append, canonical_singleton] at canonical
      obtain ⟨lower, nonempty, across⟩ := canonical
      simp only [extent] at nonempty
      simp only [List.dropLast_concat]
      rw [wrap_eq (by omega)]
      split_ifs with touches
      · have sum : wrap (previous.bytes + node.bytes) =
            previous.bytes + node.bytes := wrap_eq (by omega)
        rw [sum]
        refine ⟨_, true, rfl, ?_, ?_, ?_, ?_, ?_⟩
        · simp only [List.map_append, List.map_cons, List.map_nil]
          rw [canonical_append, canonical_singleton]
          refine ⟨lower, by simp only [extent]; omega, ?_⟩
          intro other mem upper upperMem
          obtain rfl := List.mem_singleton.1 upperMem
          exact across other mem (extent previous) (by simp)
        · intro range mem
          rcases List.mem_append.1 mem with mem | mem
          · have step := below range (by simp [mem])
            omega
          · obtain rfl := List.mem_singleton.1 mem
            simp only
            omega
        · intro address
          simp only [holds_append, holds_cons, not_holds_nil, or_false, or_assoc]
          apply or_congr_right
          simp only [contains_extent]
          omega
        · simp only [total_append, total_cons, total_nil]
          omega
        · simp
      · refine ⟨_, false, rfl, ?_, ?_, ?_, ?_, ?_⟩
        · simp only [List.map_append, List.map_cons, List.map_nil]
          rw [canonical_append, canonical_append, canonical_singleton,
            canonical_singleton]
          refine ⟨⟨lower, nonempty, across⟩, by simp only [extent]; omega, ?_⟩
          intro other mem upper upperMem
          obtain rfl := List.mem_singleton.1 upperMem
          rcases List.mem_append.1 mem with mem | mem
          · have step := across other mem (extent previous) (by simp)
            simp only [extent] at step ⊢
            omega
          · obtain rfl := List.mem_singleton.1 mem
            simp only [extent]
            omega
        · intro range mem
          rcases List.mem_append.1 mem with mem | mem
          · have step := below range mem
            omega
          · obtain rfl := List.mem_singleton.1 mem
            exact le_rfl
        · intro address
          simp [or_assoc]
        · simp [Nat.add_assoc]
        · simp

/-- The ranges below an offset come first in an ascending list. -/
theorem offset_split {ranges : List Range} (offset : Nat)
    (canonical : Canonical (ranges.map extent)) :
    (∀ range ∈ ranges.takeWhile (·.offset < offset), range.offset < offset) ∧
      ∀ range ∈ ranges.dropWhile (·.offset < offset), offset ≤ range.offset := by
  constructor
  · intro range mem
    simpa using List.mem_takeWhile_imp mem
  · induction ranges with
    | nil => simp
    | cons head rest ih =>
        rw [List.map_cons, canonical_cons] at canonical
        obtain ⟨nonempty, tail, above⟩ := canonical
        rw [List.dropWhile_cons]
        split_ifs with below
        · exact ih tail
        · intro range mem
          rcases List.mem_cons.1 mem with rfl | mem
          · simpa using below
          · have step := above (extent range) (List.mem_map_of_mem mem)
            simp only [extent, decide_eq_true_eq, not_lt] at step below nonempty
            omega

/-- A live range lies beside every free range. -/
theorem Tiled.free_beside
    {allocator : RangeAllocator} {live : List Range} {free range : Range}
    (tiled : Tiled allocator live)
    (freeMem : free ∈ allocator.freeRanges) (liveMem : range ∈ live) :
    (free.offset < range.offset → free.offset + free.bytes ≤ range.offset) ∧
      (range.offset ≤ free.offset → range.offset + range.bytes ≤ free.offset) := by
  have freePositive := tiled.free_nonempty freeMem
  have livePositive := tiled.nonempty range liveMem
  constructor
  · intro below
    by_contra longer
    exact tiled.clear range.offset
      (holds_of_mem freeMem (contains_extent.2 (by omega)))
      (holds_of_mem liveMem (contains_extent.2 (by omega)))
  · intro above
    by_contra longer
    exact tiled.clear free.offset
      (holds_of_mem freeMem (contains_extent.2 (by omega)))
      (holds_of_mem liveMem (contains_extent.2 (by omega)))

/-- What a successful `shadowspill_range_free` of a live range does. -/
theorem rangeFree_some
    {heap : Bool} {allocator after : RangeAllocator} {live : List Range}
    {range : Range}
    (tiled : Tiled allocator live) (mem : range ∈ live)
    (result : rangeFree heap allocator range.offset range.bytes = some after) :
    ∃ ranges available capacity,
      after = { allocator with
        freeRanges := ranges
        allocated := allocator.allocated - range.bytes
        availableNodes := available
        nodeCapacity := capacity } ∧
      (allocator.arena = true → capacity = allocator.nodeCapacity) ∧
      available + ranges.length = capacity ∧
      Canonical (ranges.map extent) ∧
      (∀ address, Holds ranges address ↔
        Holds allocator.freeRanges address ∨ (extent range).Contains address) ∧
      total ranges = total allocator.freeRanges + range.bytes ∧
      range.bytes ≤ allocator.allocated := by
  have positive := tiled.nonempty range mem
  have bounded := tiled.live_bound mem
  have enough : range.bytes ≤ allocator.allocated := by
    rw [tiled.charged, total, ((List.perm_cons_erase mem).map Range.bytes).sum_nat]
    simp
  unfold rangeFree at result
  rw [if_neg (by omega)] at result
  cases acquire : acquireNode heap allocator with
  | none => simp [acquire] at result
  | some acquired =>
      obtain ⟨available, nodeCapacity, rfl, same, nodes⟩ :=
        acquireNode_some acquire
      simp only [acquire] at result
      have sides := offset_split range.offset tiled.canonical
      have whole := List.takeWhile_append_dropWhile
        (p := fun other : Range => decide (other.offset < range.offset))
        (l := allocator.freeRanges)
      generalize allocator.freeRanges.takeWhile
        (fun other => decide (other.offset < range.offset)) = before at *
      generalize allocator.freeRanges.dropWhile
        (fun other => decide (other.offset < range.offset)) = beyond at *
      have beforeMem : ∀ other ∈ before, other ∈ allocator.freeRanges := by
        intro other otherMem
        rw [← whole]
        exact List.mem_append_left _ otherMem
      have beyondMem : ∀ other ∈ beyond, other ∈ allocator.freeRanges := by
        intro other otherMem
        rw [← whole]
        exact List.mem_append_right _ otherMem
      have canonical := tiled.canonical
      rw [← whole, List.map_append, canonical_append] at canonical
      obtain ⟨lower, upper, _⟩ := canonical
      obtain ⟨merged, rest, nextReleased, mergedEq, start, wider, fits, tail,
        tailHolds, tailTotal, tailCount⟩ :=
        mergeNext_spec ⟨range.offset, range.bytes⟩ tiled.word upper
          positive
          (fun other otherMem => (tiled.free_beside (beyondMem other otherMem)
            mem).2 (sides.2 other otherMem))
          bounded (fun other otherMem => tiled.free_bound (beyondMem other otherMem))
      simp only at start wider
      obtain ⟨front, nodeReleased, frontEq, head, headBound, headHolds, headTotal,
        headCount⟩ :=
        mergePrevious_spec merged tiled.word lower (by omega)
          (fun other otherMem => by
            rw [start]
            exact (tiled.free_beside (beforeMem other otherMem) mem).1
              (sides.1 other otherMem))
          fits
      simp only [mergedEq, frontEq] at result
      cases result
      rw [wrapSub_eq enough
        (lt_of_le_of_lt tiled.allocated_le tiled.word)]
      have length : before.length + beyond.length =
          allocator.freeRanges.length := by
        rw [← whole, List.length_append]
      have bytes : total before + total beyond = total allocator.freeRanges := by
        rw [← whole, total_append]
      simp only [List.map_cons] at tail
      rw [canonical_cons] at tail
      simp only [total_cons] at tailTotal
      refine ⟨front ++ rest, _, nodeCapacity, rfl, same, ?_, ?_, ?_, ?_, enough⟩
      · have step := nodes _ tiled.nodes
        simp only [List.length_append]
        omega
      · rw [List.map_append, canonical_append]
        refine ⟨head, tail.2.1, ?_⟩
        intro below belowMem above aboveMem
        obtain ⟨other, otherMem, rfl⟩ := List.mem_map.1 belowMem
        have step := headBound other otherMem
        have far := tail.2.2 above aboveMem
        simp only [extent] at far ⊢
        omega
      · intro address
        have inTail := tailHolds address
        simp only [holds_cons] at inTail
        rw [holds_append, headHolds, or_assoc, inTail, ← whole, holds_append,
          or_assoc]
        apply or_congr_right
        exact or_comm
      · rw [total_append]
        omega

/-- A release takes a live range away and keeps the pool tiled. -/
theorem rangeFree_tiled
    {heap : Bool} {allocator after : RangeAllocator} {live : List Range}
    {range : Range}
    (tiled : Tiled allocator (range :: live))
    (result : rangeFree heap allocator range.offset range.bytes = some after) :
    Tiled after live ∧ after.capacity = allocator.capacity ∧
      after.arena = allocator.arena ∧
      (allocator.arena = true → after.nodeCapacity = allocator.nodeCapacity) := by
  obtain ⟨ranges, available, nodeCapacity, rfl, same, count, canonical, holds,
    bytes, enough⟩ := rangeFree_some tiled (by simp) result
  have charged := tiled.charged
  have accounted := tiled.accounted
  have disjoint := List.pairwise_cons.1 tiled.disjoint
  rw [total_cons] at charged
  refine ⟨?_, rfl, rfl, same⟩
  constructor
  · exact tiled.word
  · exact canonical
  · intro other mem
    exact tiled.nonempty other (by simp [mem])
  · exact disjoint.2
  · intro address
    have whole := tiled.exhaustive address
    simp only [holds_cons, ← or_assoc] at whole
    simp only [whole, holds]
  · intro address free live
    rcases (holds address).1 free with free | own
    · exact tiled.clear address free ((holds_cons _ _ _).2 (Or.inr live))
    · obtain ⟨held, heldMem, inside⟩ := live
      obtain ⟨other, mem, rfl⟩ := List.mem_map.1 heldMem
      exact disjoint.1 other mem address own inside
  · simp only
    omega
  · simp only
    omega
  · exact count

/-- `shadowspill_range_free` of a live range fails only for want of a node. -/
theorem rangeFree_none
    {heap : Bool} {allocator : RangeAllocator} {offset bytes : Nat}
    (result : rangeFree heap allocator offset bytes = none) :
    ¬ NodeAvailable heap allocator := by
  unfold rangeFree at result
  split_ifs at result
  cases acquire : acquireNode heap allocator with
  | none => exact acquireNode_none.1 acquire
  | some acquired => simp [acquire] at result

end ShadowSpill.Runtime.RangeTiling
