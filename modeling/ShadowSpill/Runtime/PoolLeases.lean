import ShadowSpill.Runtime.Ranges

/-!
# Pool leases

A pool hands out leases over its ranges.  A lease that owns a range is linked
into `range_leases`; one that retires may promise its range to one successor,
which takes its place in the list when the range passes on.  A lease is named by
the number of its record, and `registered` says that its `pool` is set.
-/

namespace ShadowSpill.Runtime.PoolLeases

open Library.Word64 Ranges

/-- `ShadowSpillMemoryPlacement`. -/
inductive Placement where
  | firstFit
  | bestFitLow
  | bestFitHigh
deriving DecidableEq, Repr

/-- `ShadowSpillMemoryLeaseState`. -/
inductive LeaseState where
  | free
  | inUse
  | retirePending
  | reserved
  | successorReserved
  | predecessorTransferred
deriving DecidableEq, Repr

/-- `ShadowSpillMemoryLease`, without the pointers, which follow from the
offset, and the owner's bookkeeping. -/
structure Lease where
  /-- `pool` is set. -/
  registered : Bool
  state : LeaseState
  generation : Nat
  requestedBytes : Nat
  chargedBytes : Nat
  alignmentBytes : Nat
  offset : Nat
  requestSequence : Nat
  releaseSequence : Nat
  causalPredecessor : Option Nat
  causalSuccessor : Option Nat
  causalPredecessorGeneration : Nat
  causalEvent : Option Nat
  causalDependencyExpected : Bool
  ownsPoolRange : Bool
deriving DecidableEq, Repr

/-- A zeroed record of the given generation. -/
def Lease.blank (generation : Nat) : Lease where
  registered := false
  state := .free
  generation := generation
  requestedBytes := 0
  chargedBytes := 0
  alignmentBytes := 0
  offset := 0
  requestSequence := 0
  releaseSequence := 0
  causalPredecessor := none
  causalSuccessor := none
  causalPredecessorGeneration := 0
  causalEvent := none
  causalDependencyExpected := false
  ownsPoolRange := false

/-- `ShadowSpillMemoryPool`: its ranges, its leases and its counters. -/
structure MemoryPool where
  ranges : RangeAllocator
  /-- `range_leases`: the registered owners, newest first. -/
  rangeLeases : List Nat
  minimumAlignment : Nat
  nextRequestSequence : Nat
  nextReleaseSequence : Nat
  reservedBytes : Nat
  leases : Nat → Lease

/-- Change one lease record. -/
def MemoryPool.update (pool : MemoryPool) (lease : Nat) (change : Lease → Lease) :
    MemoryPool :=
  { pool with
    leases := Function.update pool.leases lease (change (pool.leases lease)) }

section Update

variable (pool : MemoryPool) (lease : Nat) (change : Lease → Lease)

@[simp]
theorem update_leases : (pool.update lease change).leases =
    Function.update pool.leases lease (change (pool.leases lease)) :=
  rfl

@[simp]
theorem update_ranges : (pool.update lease change).ranges = pool.ranges :=
  rfl

@[simp]
theorem update_rangeLeases :
    (pool.update lease change).rangeLeases = pool.rangeLeases :=
  rfl

@[simp]
theorem update_minimumAlignment :
    (pool.update lease change).minimumAlignment = pool.minimumAlignment :=
  rfl

@[simp]
theorem update_reservedBytes :
    (pool.update lease change).reservedBytes = pool.reservedBytes :=
  rfl

end Update

/-- The status of a call: done (0), unavailable (1) or failed (-1). -/
abbrev Outcome := Except Refusal Unit

/-- What a released lease keeps nothing of. -/
def Lease.clear (lease : Lease) : Lease :=
  { lease with
    registered := false
    state := .free
    requestedBytes := 0
    chargedBytes := 0
    alignmentBytes := 0
    offset := 0
    causalEvent := none
    causalDependencyExpected := false
    ownsPoolRange := false }

section Clear

variable (lease : Lease)

@[simp]
theorem clear_registered : lease.clear.registered = false :=
  rfl

@[simp]
theorem clear_state : lease.clear.state = .free :=
  rfl

@[simp]
theorem clear_causalSuccessor :
    lease.clear.causalSuccessor = lease.causalSuccessor :=
  rfl

@[simp]
theorem clear_causalPredecessor :
    lease.clear.causalPredecessor = lease.causalPredecessor :=
  rfl

end Clear

/-- A lease is charged for at least one byte. -/
def charged (bytes : Nat) : Nat :=
  if bytes = 0 then 1 else bytes

/-- No alignment below the pool's minimum is used. -/
def raised (pool : MemoryPool) (alignment : Nat) : Nat :=
  if alignment < pool.minimumAlignment then pool.minimumAlignment else alignment

/-! ## Reserving -/

/-- `shadowspill_memory_pool_reserve_locked`. -/
def reserve (heap : Bool) (pool : MemoryPool) (bytes alignment : Nat)
    (placement : Placement) : Except Refusal (Nat × RangeAllocator) :=
  if bytes = 0 then .error .failed
  else
    match placement with
    | .firstFit => allocate heap pool.ranges bytes (raised pool alignment)
    | .bestFitLow =>
      allocateBestFitLow heap pool.ranges bytes (raised pool alignment)
    | .bestFitHigh =>
      allocateBestFitHigh heap pool.ranges bytes (raised pool alignment)

/-- `adopt_lease_locked`: register a lease over bytes that are already
allocated. -/
def adoptLease (pool : MemoryPool) (lease bytes alignment offset : Nat)
    (ownsPoolRange : Bool) : Option MemoryPool :=
  if alignment = 0 ∨ (pool.leases lease).registered ∨ lease ∈ pool.rangeLeases ∨
      offset > pool.ranges.capacity ∨
      charged bytes > pool.ranges.capacity - offset then none
  else
    let adopted := pool.update lease fun record =>
      { record with
        registered := true
        state := .inUse
        requestedBytes := bytes
        chargedBytes := charged bytes
        alignmentBytes := alignment
        offset := offset
        requestSequence := pool.nextRequestSequence
        causalPredecessor := none
        causalSuccessor := none
        causalPredecessorGeneration := 0
        causalEvent := none
        causalDependencyExpected := false
        ownsPoolRange := ownsPoolRange }
    some { adopted with
      nextRequestSequence := pool.nextRequestSequence + 1
      rangeLeases := lease :: pool.rangeLeases }

/-- `shadowspill_memory_pool_reserve_lease_locked`. -/
def reserveLease (heap : Bool) (pool : MemoryPool) (lease bytes alignment : Nat)
    (placement : Placement) : Outcome × MemoryPool :=
  if (pool.leases lease).state ≠ .free then (.error .failed, pool)
  else
    match reserve heap pool (charged bytes) (raised pool alignment) placement with
    | .error refusal => (.error refusal, pool)
    | .ok (offset, ranges) =>
      let reserved := { pool with ranges := ranges }
      match adoptLease reserved lease bytes (raised pool alignment) offset true with
      | some adopted => (.ok (), adopted)
      | none =>
        match rangeFree heap ranges offset (charged bytes) with
        | some released => (.error .failed, { reserved with ranges := released })
        | none => (.error .failed, reserved)

/-- `shadowspill_memory_pool_adopt_borrowed_lease_locked`. -/
def adoptBorrowedLease (pool : MemoryPool) (lease bytes alignment offset : Nat) :
    Outcome × MemoryPool :=
  match adoptLease pool lease bytes alignment offset false with
  | some adopted => (.ok (), adopted)
  | none => (.error .failed, pool)

/-- How `shadowspill_memory_pool_adopt_lease_locked` is used: a new lease adopts
the front of the range of a larger one that its owner has freed, and the larger
one keeps the rest. -/
def splitReusable (pool : MemoryPool) (selected split bytes alignment : Nat) :
    Outcome × MemoryPool :=
  let source := pool.leases selected
  if ¬ source.ownsPoolRange ∨ source.state ≠ .retirePending ∨
      source.causalSuccessor.isSome ∨ source.chargedBytes ≤ charged bytes ∨
      source.offset % raised pool alignment ≠ 0 then (.error .failed, pool)
  else
    match adoptLease pool split bytes (raised pool alignment) source.offset true with
    | none => (.error .failed, pool)
    | some adopted =>
      (.ok (), adopted.update selected fun record =>
        { record with
          requestedBytes := 0
          chargedBytes := record.chargedBytes - charged bytes
          offset := record.offset + charged bytes })

/-! ## Marking and retiring -/

/-- `shadowspill_memory_pool_mark_reserved_locked`. -/
def markReserved (pool : MemoryPool) (lease : Nat) : Outcome × MemoryPool :=
  let record := pool.leases lease
  if ¬ record.registered ∨ record.state ≠ .inUse then (.error .failed, pool)
  else
    let marked := pool.update lease fun record => { record with state := .reserved }
    (.ok (), { marked with
      reservedBytes := wrap (pool.reservedBytes + record.chargedBytes) })

/-- `shadowspill_memory_pool_begin_retirement_locked`. -/
def beginRetirement (pool : MemoryPool) (lease : Nat) (event : Option Nat)
    (expected : Bool) : Outcome × MemoryPool :=
  let record := pool.leases lease
  if ¬ record.registered ∨ record.state ≠ .inUse ∨
      record.causalSuccessor.isSome ∨ event.isSome ∧ expected then
    (.error .failed, pool)
  else
    let retiring := pool.update lease fun record =>
      { record with
        state := .retirePending
        releaseSequence := pool.nextReleaseSequence
        causalEvent := event
        causalDependencyExpected := expected }
    (.ok (), { retiring with nextReleaseSequence := pool.nextReleaseSequence + 1 })

/-- `shadowspill_memory_pool_publish_retirement_dependency_locked`. -/
def publishRetirementDependency (pool : MemoryPool) (lease event : Nat) :
    Outcome × MemoryPool :=
  let record := pool.leases lease
  if ¬ record.registered ∨ record.state ≠ .retirePending ∨
      record.causalEvent.isSome ∨ ¬ record.causalDependencyExpected then
    (.error .failed, pool)
  else
    (.ok (), pool.update lease fun record =>
      { record with causalEvent := some event, causalDependencyExpected := false })

/-- `shadowspill_memory_pool_cancel_retirement_locked`. -/
def cancelRetirement (pool : MemoryPool) (lease : Nat) : Outcome × MemoryPool :=
  let record := pool.leases lease
  if ¬ record.registered ∨ record.state ≠ .retirePending ∨
      record.causalSuccessor.isSome then (.error .failed, pool)
  else
    (.ok (), pool.update lease fun record =>
      { record with
        state := .inUse, causalEvent := none, causalDependencyExpected := false })

/-! ## Successors -/

/-- `lease_can_publish_causal_dependency`. -/
def canPublishCausalDependency (lease : Lease) : Bool :=
  lease.state == .retirePending &&
    (lease.causalEvent.isSome || lease.causalDependencyExpected)

/-- `causal_candidate_precedes`. -/
def causalCandidatePrecedes (candidate selected : Lease) : Bool :=
  if candidate.causalEvent.isSome ≠ selected.causalEvent.isSome then
    candidate.causalEvent.isSome
  else if candidate.chargedBytes ≠ selected.chargedBytes then
    candidate.chargedBytes < selected.chargedBytes
  else if candidate.releaseSequence ≠ selected.releaseSequence then
    candidate.releaseSequence < selected.releaseSequence
  else candidate.offset < selected.offset

/-- A lease whose range may be promised to a successor. -/
def isCausalCandidate (bytes alignment : Nat) (candidate : Lease) : Bool :=
  candidate.ownsPoolRange && canPublishCausalDependency candidate &&
    candidate.causalSuccessor.isNone && !(candidate.chargedBytes < bytes) &&
    candidate.offset % alignment == 0

/-- The scan of the registered leases for a predecessor. -/
def selectCausal (leases : Nat → Lease) (bytes alignment : Nat) :
    Option Nat → List Nat → Option Nat
  | selected, [] => selected
  | selected, candidate :: rest =>
    let better :=
      match selected with
      | none => true
      | some lease => causalCandidatePrecedes (leases candidate) (leases lease)
    if isCausalCandidate bytes alignment (leases candidate) && better then
      selectCausal leases bytes alignment (some candidate) rest
    else selectCausal leases bytes alignment selected rest

/-- `shadowspill_memory_pool_reserve_causal_successor_locked`: the successor
claims the whole range its predecessor is charged for. -/
def reserveCausalSuccessor (pool : MemoryPool) (successor bytes alignment : Nat) :
    Outcome × MemoryPool :=
  if (pool.leases successor).registered ∨ (pool.leases successor).state ≠ .free ∨
      bytes = 0 then (.error .failed, pool)
  else
    match selectCausal pool.leases bytes (raised pool alignment) none
        pool.rangeLeases with
    | none => (.error .unavailable, pool)
    | some selected =>
      let predecessor := pool.leases selected
      let claimed := pool.update successor fun record =>
        { record with
          registered := true
          state := .successorReserved
          requestedBytes := bytes
          chargedBytes := predecessor.chargedBytes
          alignmentBytes := raised pool alignment
          offset := predecessor.offset
          requestSequence := pool.nextRequestSequence
          causalPredecessor := some selected
          causalPredecessorGeneration := predecessor.generation
          causalDependencyExpected := false
          ownsPoolRange := true }
      let linked := claimed.update selected fun record =>
        { record with causalSuccessor := some successor }
      (.ok (), { linked with
        nextRequestSequence := pool.nextRequestSequence + 1
        reservedBytes := wrap (pool.reservedBytes + predecessor.chargedBytes) })

/-- Whom a range is handed to: a lease in use, which waits for the dependency
when it is given, or a reserved one. -/
inductive HandoffTarget where
  | inUse (dependencyWanted : Bool)
  | reserved
deriving DecidableEq, Repr

/-- The state of the successor after a handoff. -/
def HandoffTarget.state : HandoffTarget → LeaseState
  | .inUse _ => .inUse
  | .reserved => .reserved

/-- The predecessor of a range after it has passed on. -/
def Lease.passOn (lease : Lease) : Lease :=
  { lease with
    registered := false
    state := .predecessorTransferred
    ownsPoolRange := false
    causalSuccessor := none
    causalEvent := none
    causalDependencyExpected := false }

/-- The successor of a range after it has taken it over. -/
def Lease.takeOver (state : LeaseState) (lease : Lease) : Lease :=
  { lease with
    causalPredecessor := none
    causalPredecessorGeneration := 0
    state := state }

section Transfer

variable (lease : Lease) (state : LeaseState)

@[simp]
theorem passOn_registered : lease.passOn.registered = false :=
  rfl

@[simp]
theorem passOn_state : lease.passOn.state = .predecessorTransferred :=
  rfl

@[simp]
theorem passOn_causalSuccessor : lease.passOn.causalSuccessor = none :=
  rfl

@[simp]
theorem passOn_causalPredecessor :
    lease.passOn.causalPredecessor = lease.causalPredecessor :=
  rfl

@[simp]
theorem takeOver_registered :
    (lease.takeOver state).registered = lease.registered :=
  rfl

@[simp]
theorem takeOver_state : (lease.takeOver state).state = state :=
  rfl

@[simp]
theorem takeOver_ownsPoolRange :
    (lease.takeOver state).ownsPoolRange = lease.ownsPoolRange :=
  rfl

@[simp]
theorem takeOver_chargedBytes :
    (lease.takeOver state).chargedBytes = lease.chargedBytes :=
  rfl

@[simp]
theorem takeOver_offset : (lease.takeOver state).offset = lease.offset :=
  rfl

end Transfer

/-- The range of a predecessor passes to its successor, which takes its place
among the registered leases. -/
def transferRange (pool : MemoryPool) (predecessor successor : Nat)
    (state : LeaseState) : MemoryPool :=
  let left := pool.update predecessor Lease.passOn
  let taken := left.update successor (Lease.takeOver state)
  { taken with
    rangeLeases := pool.rangeLeases.map fun lease =>
      if lease = predecessor then successor else lease }

/-- `shadowspill_pool_handoff_causal_range_locked`, with the event the successor
has to wait for. -/
def handoffCausalRange (pool : MemoryPool) (successor : Nat)
    (target : HandoffTarget) : Except Refusal (Option Nat) × MemoryPool :=
  let claim := pool.leases successor
  match claim.causalPredecessor with
  | none => (.error .failed, pool)
  | some predecessor =>
    let source := pool.leases predecessor
    if ¬ claim.registered ∨ claim.state ≠ .successorReserved ∨
        ¬ source.registered ∨
        source.generation ≠ claim.causalPredecessorGeneration ∨
        source.causalSuccessor ≠ some successor ∨
        predecessor ∉ pool.rangeLeases ∨ successor ∈ pool.rangeLeases then
      (.error .failed, pool)
    else
      match target with
      | .reserved => (.ok none, transferRange pool predecessor successor .reserved)
      | .inUse dependencyWanted =>
        match source.causalEvent with
        | none => (.error .unavailable, pool)
        | some event =>
          if ¬ dependencyWanted then (.error .unavailable, pool)
          else if pool.reservedBytes < claim.chargedBytes then
            (.error .failed, pool)
          else
            let transferred := transferRange pool predecessor successor .inUse
            (.ok (some event), { transferred with
              reservedBytes := pool.reservedBytes - claim.chargedBytes })

/-- `shadowspill_memory_pool_acquire_reserved_lease_locked`. -/
def acquireReservedLease (pool : MemoryPool) (lease : Nat) :
    Except Refusal (Option Nat) × MemoryPool :=
  let record := pool.leases lease
  if ¬ record.registered then (.error .failed, pool)
  else if record.state = .successorReserved then
    handoffCausalRange pool lease (.inUse true)
  else if record.state ≠ .reserved ∨
      pool.reservedBytes < record.chargedBytes then (.error .failed, pool)
  else
    let acquired := pool.update lease fun record => { record with state := .inUse }
    (.ok none, { acquired with
      reservedBytes := pool.reservedBytes - record.chargedBytes })

/-! ## Releasing -/

/-- A released lease gives up its reserved bytes and takes its place in the
order of releases. -/
def giveUpReserved (pool : MemoryPool) (lease : Nat) : MemoryPool :=
  let record := pool.leases lease
  let sequenced := pool.update lease fun record =>
    { record with releaseSequence := pool.nextReleaseSequence }
  { sequenced with
    reservedBytes :=
      if record.state = .reserved then pool.reservedBytes - record.chargedBytes
      else pool.reservedBytes
    nextReleaseSequence := pool.nextReleaseSequence + 1 }

/-- The ranges after a lease gives its own back. -/
def freedRanges (heap : Bool) (pool : MemoryPool) (lease : Nat) :
    Option RangeAllocator :=
  let record := pool.leases lease
  if record.ownsPoolRange then
    rangeFree heap pool.ranges record.offset record.chargedBytes
  else some pool.ranges

/-- A lease leaves the list of owners. -/
def dropLease (pool : MemoryPool) (lease : Nat) (ranges : RangeAllocator) :
    MemoryPool :=
  let cleared := pool.update lease Lease.clear
  { cleared with
    ranges := ranges
    rangeLeases := pool.rangeLeases.erase lease }

/-- The last part of `shadowspill_memory_pool_release_lease_locked`: a lease with
no successor gives its own range back.  It gives up the reserved bytes first,
and does not take them back when the range stays. -/
def releaseRange (heap : Bool) (pool : MemoryPool) (lease : Nat) :
    Outcome × MemoryPool :=
  let record := pool.leases lease
  if record.state = .reserved ∧ pool.reservedBytes < record.chargedBytes then
    (.error .failed, pool)
  else
    match freedRanges heap pool lease with
    | none => (.error .failed, giveUpReserved pool lease)
    | some ranges => (.ok (), dropLease (giveUpReserved pool lease) lease ranges)

/-- `shadowspill_memory_pool_release_lease_locked`. -/
def releaseLease (heap : Bool) (pool : MemoryPool) (lease : Nat) :
    Outcome × MemoryPool :=
  let record := pool.leases lease
  if record.state = .predecessorTransferred ∧ ¬ record.registered then
    (.ok (), pool.update lease Lease.clear)
  else if ¬ record.registered ∨ record.state = .free ∨
      lease ∉ pool.rangeLeases then (.error .failed, pool)
  else
    match record.causalSuccessor with
    | some successor =>
      match handoffCausalRange pool successor .reserved with
      | (.error refusal, unchanged) => (.error refusal, unchanged)
      | (.ok _, transferred) => (.ok (), transferred.update lease Lease.clear)
    | none =>
      if record.state = .successorReserved ∨
          record.state = .predecessorTransferred then (.error .failed, pool)
      else releaseRange heap pool lease

/-- The record of a claim that is given up. -/
def Lease.abandon (lease : Lease) : Lease :=
  { lease.clear with causalPredecessor := none, causalPredecessorGeneration := 0 }

@[simp]
theorem abandon_registered (lease : Lease) : lease.abandon.registered = false :=
  rfl

@[simp]
theorem abandon_state (lease : Lease) : lease.abandon.state = .free :=
  rfl

/-- A claim is given up: its predecessor has no successor, and its own record is
cleared. -/
def abandonClaim (pool : MemoryPool) (predecessor lease : Nat) : MemoryPool :=
  let unlinked := pool.update predecessor fun record =>
    { record with causalSuccessor := none }
  let cleared := unlinked.update lease Lease.abandon
  { cleared with
    reservedBytes := pool.reservedBytes - (pool.leases lease).chargedBytes }

/-- `shadowspill_memory_pool_cancel_reservation_locked`. -/
def cancelReservation (heap : Bool) (pool : MemoryPool) (lease : Nat) :
    Outcome × MemoryPool :=
  let record := pool.leases lease
  if ¬ record.registered then (.error .failed, pool)
  else if record.state ≠ .successorReserved then releaseLease heap pool lease
  else
    match record.causalPredecessor with
    | none => (.error .failed, pool)
    | some predecessor =>
      if (pool.leases predecessor).causalSuccessor ≠ some lease ∨
          (pool.leases predecessor).generation ≠
            record.causalPredecessorGeneration ∨
          pool.reservedBytes < record.chargedBytes then (.error .failed, pool)
      else (.ok (), abandonClaim pool predecessor lease)

/-- A record that nothing refers to is given back and taken again under a new
generation. -/
def renewLease (pool : MemoryPool) (lease generation : Nat) :
    Outcome × MemoryPool :=
  let record := pool.leases lease
  if record.registered ∨ record.state ≠ .free ∨
      record.causalPredecessor.isSome ∨ record.causalSuccessor.isSome ∨
      lease ∈ pool.rangeLeases then (.error .failed, pool)
  else (.ok (), pool.update lease fun _ => .blank generation)

end ShadowSpill.Runtime.PoolLeases
