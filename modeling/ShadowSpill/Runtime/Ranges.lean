import ShadowSpill.Library.Word64

/-!
# The range allocator

A pool keeps its free addresses as a linked list of ranges in ascending order.
A request takes a piece out of one of them by one of five policies, and a
release puts a range back and merges it with its neighbours.  List nodes come
from the process heap or from an arena of fixed size; `heap` says whether the
process heap still gives one.
-/

namespace ShadowSpill.Runtime.Ranges

open Library.Word64

/-- `ShadowSpillRange`, without its link. -/
structure Range where
  offset : Nat
  bytes : Nat
deriving DecidableEq, Repr, Inhabited

/-- `ShadowSpillRangeAllocator`. -/
structure RangeAllocator where
  capacity : Nat
  allocated : Nat
  peakAllocated : Nat
  freeRanges : List Range
  /-- `node_storage` is set: nodes come from an arena. -/
  arena : Bool
  nodeCapacity : Nat
  /-- The length of `available_nodes`. -/
  availableNodes : Nat
deriving DecidableEq, Repr

/-- Why a request is refused: no range fits (1), or the call fails (-1). -/
inductive Refusal where
  | unavailable
  | failed
deriving DecidableEq, Repr

/-- `UINT64_MAX`. -/
abbrev uint64Max : Nat := modulus - 1

/-- `align_up`, refused where the sum does not fit in a word. -/
def alignUp (value alignment : Nat) : Option Nat :=
  let remainder := value % alignment
  let addition := if remainder = 0 then 0 else alignment - remainder
  if addition > uint64Max - value then none else some (value + addition)

/-- `align_down`. -/
def alignDown (value alignment : Nat) : Nat :=
  value - value % alignment

/-! ## Nodes -/

/-- `acquire_node`: a released node, or a new one unless the arena is used up. -/
def acquireNode (heap : Bool) (allocator : RangeAllocator) :
    Option RangeAllocator :=
  if 0 < allocator.availableNodes then
    some { allocator with availableNodes := allocator.availableNodes - 1 }
  else if allocator.arena then none
  else if heap then
    some { allocator with nodeCapacity := allocator.nodeCapacity + 1 }
  else none

/-- `release_node`. -/
def releaseNode (allocator : RangeAllocator) : RangeAllocator :=
  { allocator with availableNodes := allocator.availableNodes + 1 }

/-- `shadowspill_range_initialize`. -/
def rangeInitialize (heap : Bool) (capacity : Nat) : Option RangeAllocator :=
  let empty : RangeAllocator := ⟨capacity, 0, 0, [], false, 0, 0⟩
  if capacity = 0 then some empty
  else
    match acquireNode heap empty with
    | none => none
    | some acquired => some { acquired with freeRanges := [⟨0, capacity⟩] }

/-- `shadowspill_range_initialize_with_nodes`. -/
def rangeInitializeWithNodes (capacity nodeCapacity : Nat) : Option RangeAllocator :=
  if nodeCapacity = 0 then none
  else
    let empty : RangeAllocator :=
      ⟨capacity, 0, 0, [], true, nodeCapacity, nodeCapacity⟩
    if capacity = 0 then some empty
    else
      match acquireNode false empty with
      | none => none
      | some acquired => some { acquired with freeRanges := [⟨0, capacity⟩] }

/-! ## Taking a piece of one range -/

/-- The free list with the range at a position replaced by pieces of it. -/
def replaceAt (ranges : List Range) (position : Nat) (pieces : List Range) :
    List Range :=
  ranges.take position ++ pieces ++ ranges.drop (position + 1)

/-- The counters after `bytes` more are allocated. -/
def charge (bytes : Nat) (allocator : RangeAllocator) : RangeAllocator :=
  let allocated := wrap (allocator.allocated + bytes)
  { allocator with
    allocated := allocated
    peakAllocated := max allocator.peakAllocated allocated }

/-- `allocate_from_range`: the addresses of the selected range below and above
the request stay free, and a second remainder needs a node of its own. -/
def allocateFromRange (heap : Bool) (allocator : RangeAllocator)
    (position : Nat) (selected : Range) (aligned bytes : Nat) :
    Except Refusal (Nat × RangeAllocator) :=
  let leading := aligned - selected.offset
  let trailing := selected.bytes - leading - bytes
  let replaced := replaceAt allocator.freeRanges position
  if leading ≠ 0 ∧ trailing ≠ 0 then
    match acquireNode heap allocator with
    | none => .error .failed
    | some acquired =>
      .ok (aligned, charge bytes { acquired with
        freeRanges := replaced
          [⟨selected.offset, leading⟩, ⟨aligned + bytes, trailing⟩] })
  else if leading ≠ 0 then
    .ok (aligned, charge bytes { allocator with
      freeRanges := replaced [⟨selected.offset, leading⟩] })
  else if trailing ≠ 0 then
    .ok (aligned, charge bytes { allocator with
      freeRanges := replaced [⟨aligned + bytes, trailing⟩] })
  else
    .ok (aligned, charge bytes (releaseNode { allocator with
      freeRanges := replaced [] }))

/-! ## Where a request would go in one range -/

/-- The lowest aligned offset of a range, if the request fits there. -/
def lowPlace (bytes alignment : Nat) (range : Range) : Option Nat :=
  match alignUp range.offset alignment with
  | none => none
  | some aligned =>
    if aligned < range.offset ∨ aligned - range.offset > range.bytes then none
    else if bytes > range.bytes - (aligned - range.offset) then none
    else some aligned

/-- The highest aligned offset of a range, if the request fits there. -/
def highPlace (bytes alignment : Nat) (range : Range) : Option Nat :=
  let finish := wrap (range.offset + range.bytes)
  if bytes > range.bytes ∨ finish < range.offset then none
  else
    let aligned := alignDown (finish - bytes) alignment
    if aligned < range.offset then none else some aligned

/-- The highest aligned offset of a range at or above `minimumOffset`, if the
request fits there. -/
def highPlaceFrom (bytes alignment minimumOffset : Nat) (range : Range) :
    Option Nat :=
  let finish := wrap (range.offset + range.bytes)
  let start :=
    if range.offset > minimumOffset then range.offset else minimumOffset
  if finish < range.offset ∨ start > finish ∨ bytes > finish - start then none
  else
    let aligned := alignDown (finish - bytes) alignment
    if aligned < start then none else some aligned

/-! ## Policies -/

/-- The range a scan of the free list has selected so far. -/
structure Selection where
  selected : Option (Nat × Range)
  aligned : Nat
  bytes : Nat
deriving DecidableEq, Repr

/-- What each scan starts from. -/
def Selection.initial : Selection where
  selected := none
  aligned := 0
  bytes := uint64Max

/-- One scan of the free list: a range that fits replaces the selected one when
it precedes it. -/
def select (place : Range → Option Nat)
    (precedes : Range → Nat → Selection → Bool) :
    Nat → Selection → List Range → Selection
  | _, selection, [] => selection
  | position, selection, range :: ranges =>
    match place range with
    | none => select place precedes (position + 1) selection ranges
    | some aligned =>
      if precedes range aligned selection then
        select place precedes (position + 1)
          ⟨some (position, range), aligned, range.bytes⟩ ranges
      else select place precedes (position + 1) selection ranges

/-- Allocate from what the scan selected. -/
def allocateSelected (heap : Bool) (allocator : RangeAllocator) (bytes : Nat)
    (selection : Selection) : Except Refusal (Nat × RangeAllocator) :=
  match selection.selected with
  | none => .error .unavailable
  | some (position, range) =>
    allocateFromRange heap allocator position range selection.aligned bytes

/-- The scan of `shadowspill_range_allocate`: it stops at the first range that
fits. -/
def allocateFirst (place : Range → Option Nat) :
    Nat → List Range → Option (Nat × Range × Nat)
  | _, [] => none
  | position, range :: ranges =>
    match place range with
    | none => allocateFirst place (position + 1) ranges
    | some aligned => some (position, range, aligned)

/-- `shadowspill_range_allocate`. -/
def allocate (heap : Bool) (allocator : RangeAllocator) (bytes alignment : Nat) :
    Except Refusal (Nat × RangeAllocator) :=
  match allocateFirst (lowPlace bytes alignment) 0 allocator.freeRanges with
  | none => .error .unavailable
  | some (position, range, aligned) =>
    allocateFromRange heap allocator position range aligned bytes

/-- A range is smaller than the selected one, or of its size and lower. -/
def smallerLower (range : Range) (aligned : Nat) (selection : Selection) : Bool :=
  range.bytes < selection.bytes ||
    (range.bytes == selection.bytes && aligned < selection.aligned)

/-- A range is smaller than the selected one, or of its size and higher. -/
def smallerHigher (range : Range) (aligned : Nat) (selection : Selection) :
    Bool :=
  range.bytes < selection.bytes ||
    (range.bytes == selection.bytes && aligned > selection.aligned)

/-- No range is selected yet, or this one gives the higher offset. -/
def firstOrHigher (_ : Range) (aligned : Nat) (selection : Selection) : Bool :=
  selection.selected.isNone || aligned > selection.aligned

/-- `shadowspill_range_allocate_best_fit_low`. -/
def allocateBestFitLow (heap : Bool) (allocator : RangeAllocator)
    (bytes alignment : Nat) : Except Refusal (Nat × RangeAllocator) :=
  allocateSelected heap allocator bytes
    (select (lowPlace bytes alignment) smallerLower 0 .initial
      allocator.freeRanges)

/-- `shadowspill_range_allocate_best_fit_high`. -/
def allocateBestFitHigh (heap : Bool) (allocator : RangeAllocator)
    (bytes alignment : Nat) : Except Refusal (Nat × RangeAllocator) :=
  allocateSelected heap allocator bytes
    (select (highPlace bytes alignment) smallerHigher 0 .initial
      allocator.freeRanges)

/-- `shadowspill_range_allocate_highest`. -/
def allocateHighest (heap : Bool) (allocator : RangeAllocator)
    (bytes alignment minimumOffset : Nat) :
    Except Refusal (Nat × RangeAllocator) :=
  allocateSelected heap allocator bytes
    (select (highPlaceFrom bytes alignment minimumOffset) firstOrHigher 0
      .initial allocator.freeRanges)

/-- The scan of `shadowspill_range_allocate_at`: it stops at the first range
that begins above the offset. -/
def findAt (offset bytes : Nat) : Nat → List Range → Option (Nat × Range)
  | _, [] => none
  | position, range :: ranges =>
    if offset < range.offset then none
    else
      let leading := offset - range.offset
      if leading ≤ range.bytes ∧ bytes ≤ range.bytes - leading then
        some (position, range)
      else findAt offset bytes (position + 1) ranges

/-- `shadowspill_range_allocate_at`. -/
def allocateAt (heap : Bool) (allocator : RangeAllocator) (offset bytes : Nat) :
    Except Refusal (Nat × RangeAllocator) :=
  if bytes = 0 ∨ offset > allocator.capacity ∨
      bytes > allocator.capacity - offset then .error .failed
  else
    match findAt offset bytes 0 allocator.freeRanges with
    | none => .error .unavailable
    | some (position, range) =>
      allocateFromRange heap allocator position range offset bytes

/-! ## Release -/

/-- Merge a node with the range after it when they touch.  The flag says
whether the node of the next range is released. -/
def mergeNext (node : Range) (after : List Range) : Range × List Range × Bool :=
  match after with
  | [] => (node, [], false)
  | next :: rest =>
    if wrap (node.offset + node.bytes) = next.offset then
      (⟨node.offset, wrap (node.bytes + next.bytes)⟩, rest, true)
    else (node, next :: rest, false)

/-- Put a node after the ranges below it, merged with the last of them when
they touch.  The flag says whether the node is released. -/
def mergePrevious (before : List Range) (node : Range) : List Range × Bool :=
  match before.getLast? with
  | none => ([node], false)
  | some previous =>
    if wrap (previous.offset + previous.bytes) = node.offset then
      (before.dropLast ++ [⟨previous.offset, wrap (previous.bytes + node.bytes)⟩],
        true)
    else (before ++ [node], false)

/-- `shadowspill_range_free`: a fresh node goes in before the lists are
merged. -/
def rangeFree (heap : Bool) (allocator : RangeAllocator) (offset bytes : Nat) :
    Option RangeAllocator :=
  if bytes = 0 then some allocator
  else
    match acquireNode heap allocator with
    | none => none
    | some acquired =>
      let before := allocator.freeRanges.takeWhile (·.offset < offset)
      let after := allocator.freeRanges.dropWhile (·.offset < offset)
      let (node, rest, nextReleased) := mergeNext ⟨offset, bytes⟩ after
      let (front, nodeReleased) := mergePrevious before node
      some { acquired with
        freeRanges := front ++ rest
        allocated := wrapSub allocator.allocated bytes
        availableNodes :=
          acquired.availableNodes + nextReleased.toNat + nodeReleased.toNat }

/-! ## Queries -/

/-- `shadowspill_range_free_bytes`. -/
def freeBytes (allocator : RangeAllocator) : Nat :=
  wrapSub allocator.capacity allocator.allocated

/-- `shadowspill_range_largest_free`. -/
def largestFree (allocator : RangeAllocator) : Nat :=
  allocator.freeRanges.foldl
    (fun largest range => if range.bytes > largest then range.bytes else largest)
    0

end ShadowSpill.Runtime.Ranges
