import ShadowSpill.Runtime.PoolOperations

/-!
# Handing a retiring lease over

Two levels keep books on a lease.  The memory pool keeps its ranges, its list of owners
and its reserved bytes; over it an execution pool keeps the allocations: indexes, the
active list, use records and counters.  A lease of a spill pool is known to the memory
pool alone.  The successor of a retiring lease may be acquired before the lease is
released or after it.
-/

namespace ShadowSpill.Runtime.CausalHandoff

open Ranges PoolLeases

/-! ## The books of a pool -/

/-- The fields of a lease record that the memory pool's operations leave to its owner,
and its pointers. -/
structure AllocationRecord where
  pointer : Option Nat
  retiredPointer : Option Nat
  references : Nat
  logicalFreed : Bool
  planOwned : Bool
  everPlanOwned : Bool
  frameworkFreeSeen : Bool
  boundObject : Option Nat
  /-- `uses`: the event of each use record. -/
  uses : List (Option Nat)
  hasRetirementRequirements : Bool
  hasRetirementEvent : Bool
  taskRetirementLinked : Bool
  inReusableIndex : Bool
  inIdIndex : Bool
  inPointerIndex : Bool
  /-- `active_previous_link` is set. -/
  active : Bool
  metadataInUse : Bool

/-- A zeroed record, with its one reference. -/
def AllocationRecord.blank : AllocationRecord where
  pointer := none
  retiredPointer := none
  references := 1
  logicalFreed := false
  planOwned := false
  everPlanOwned := false
  frameworkFreeSeen := false
  boundObject := none
  uses := []
  hasRetirementRequirements := false
  hasRetirementEvent := false
  taskRetirementLinked := false
  inReusableIndex := false
  inIdIndex := false
  inPointerIndex := false
  active := false
  metadataInUse := false

/-- Why the runtime failed. -/
inductive FailureReason where
  | leaseReleaseRejected
  | useRecordReturnRejected
  deriving DecidableEq, Repr

/-- A memory pool with the books over it; an index is the list of its entries. -/
structure PoolBooks where
  pool : MemoryPool
  records : Nat → AllocationRecord
  activeLeases : List Nat
  leasesById : List Nat
  leasesByPointer : List Nat
  reusableLeases : List Nat
  requestedAllocatedBytes : Nat
  peakRequestedAllocatedBytes : Nat
  liveAllocations : Nat
  freeLeaseRecords : List Nat
  leaseRecordAvailable : Nat
  leaseRecordInUse : Nat
  useRecordAvailable : Nat
  useRecordInUse : Nat
  freeBytesSnapshot : Nat
  largestFreeBytesSnapshot : Nat
  telemetryActive : Bool
  failure : Option FailureReason

def PoolBooks.setRecord (books : PoolBooks) (lease : Nat)
    (change : AllocationRecord → AllocationRecord) : PoolBooks :=
  { books with records := Function.update books.records lease (change (books.records lease)) }

/-- The first failure stays. -/
def PoolBooks.latchFailure (books : PoolBooks) (reason : FailureReason) : PoolBooks :=
  { books with failure := books.failure.or (some reason) }

/-- `lease->pool` is set. -/
def attached (books : PoolBooks) (lease : Nat) : Bool :=
  (books.pool.leases lease).registered

/-! ## Records, indexes and lists -/

/-- A record that neither the pool nor anybody else refers to. -/
def isRecyclable (books : PoolBooks) (lease : Nat) : Bool :=
  let record := books.records lease
  let owner := books.pool.leases lease
  record.metadataInUse && !owner.registered && owner.state = .free &&
    record.pointer.isNone && !record.active && !record.inIdIndex &&
    !record.inPointerIndex && !record.inReusableIndex && !record.taskRetirementLinked &&
    record.uses.isEmpty && !record.hasRetirementRequirements &&
    !record.hasRetirementEvent && record.boundObject.isNone &&
    owner.causalPredecessor.isNone && owner.causalSuccessor.isNone &&
    lease ∉ books.pool.rangeLeases &&
    (!record.everPlanOwned || record.frameworkFreeSeen) && record.references = 1

/-- `shadowspill_memory_pool_try_recycle_lease_record_locked`. -/
def tryRecycle (books : PoolBooks) (lease : Nat) : PoolBooks :=
  if isRecyclable books lease then
    { (books.setRecord lease fun _ => .blank) with
      pool := books.pool.update lease fun _ => .blank 0
      freeLeaseRecords := lease :: books.freeLeaseRecords
      leaseRecordAvailable := books.leaseRecordAvailable + 1
      leaseRecordInUse := books.leaseRecordInUse - 1 }
  else books

def unindexReusable (books : PoolBooks) (lease : Nat) : PoolBooks :=
  { (books.setRecord lease fun record => { record with inReusableIndex := false }) with
    reusableLeases := books.reusableLeases.erase lease }

def unindexPointer (books : PoolBooks) (lease : Nat) : PoolBooks :=
  { (books.setRecord lease fun record => { record with inPointerIndex := false }) with
    leasesByPointer := books.leasesByPointer.erase lease }

def unindexId (books : PoolBooks) (lease : Nat) : PoolBooks :=
  { (books.setRecord lease fun record => { record with inIdIndex := false }) with
    leasesById := books.leasesById.erase lease }

def deactivate (books : PoolBooks) (lease : Nat) : PoolBooks :=
  { (books.setRecord lease fun record => { record with active := false }) with
    activeLeases := books.activeLeases.erase lease }

/-- `shadowspill_publish_pool_geometry_locked`. -/
def publishGeometry (books : PoolBooks) : PoolBooks :=
  { books with
    freeBytesSnapshot := freeBytes books.pool.ranges
    largestFreeBytesSnapshot := largestFree books.pool.ranges }

/-- `publish_lease_record_locked` and the geometry after it, unless the lease is active
already. -/
def publishSuccessorLease (books : PoolBooks) (successor : Nat) : PoolBooks :=
  if (books.records successor).active then books
  else
    let requested :=
      books.requestedAllocatedBytes + (books.pool.leases successor).requestedBytes
    publishGeometry { (books.setRecord successor fun record =>
        { record with active := true, inIdIndex := true, inPointerIndex := true }) with
      activeLeases := successor :: books.activeLeases
      leasesById :=
        if (books.records successor).inIdIndex then books.leasesById
        else successor :: books.leasesById
      leasesByPointer :=
        if (books.records successor).inPointerIndex then books.leasesByPointer
        else successor :: books.leasesByPointer
      requestedAllocatedBytes := requested
      peakRequestedAllocatedBytes := max books.peakRequestedAllocatedBytes requested
      liveAllocations := books.liveAllocations + 1 }

/-! ## The memory pool's operations -/

/-- A range that passes on keeps the pointer of its predecessor as the retired one. -/
def retirePointer (books : PoolBooks) (lease : Nat) : PoolBooks :=
  books.setRecord lease fun record => { record with retiredPointer := record.pointer }

def clearPointer (books : PoolBooks) (lease : Nat) : PoolBooks :=
  books.setRecord lease fun record => { record with pointer := none }

/-- `shadowspill_memory_pool_acquire_reserved_lease_locked`, with the dependency that the
successor takes. -/
def acquireReserved (books : PoolBooks) (lease : Nat) :
    Except Refusal (Option Nat) × PoolBooks :=
  match acquireReservedLease books.pool lease with
  | (.error refusal, pool) => (.error refusal, { books with pool := pool })
  | (.ok dependency, pool) =>
    match (books.pool.leases lease).causalPredecessor with
    | some predecessor =>
      (.ok dependency, { retirePointer books predecessor with pool := pool })
    | none => (.ok dependency, { books with pool := pool })

/-- `shadowspill_memory_pool_release_lease_locked`; a lease that was handed over before
has its retired pointer. -/
def releasePooled (heap : Bool) (books : PoolBooks) (lease : Nat) : Outcome × PoolBooks :=
  match releaseLease heap books.pool lease with
  | (.error refusal, pool) => (.error refusal, { books with pool := pool })
  | (.ok (), pool) =>
    let retired := if attached books lease then retirePointer books lease else books
    (.ok (), { clearPointer retired lease with pool := pool })

/-! ## The allocations' operations -/

/-- `shadowspill_acquire_reserved_lease_locked`. -/
def acquireAllocation (books : PoolBooks) (successor : Nat) :
    Except Refusal (Option Nat) × PoolBooks :=
  match acquireReserved books successor with
  | (.error refusal, after) => (.error refusal, after)
  | (.ok dependency, after) => (.ok dependency, publishSuccessorLease after successor)

/-- The use records go back, and the books close on the lease. -/
def closeAllocation (books : PoolBooks) (lease requestedBytes : Nat) : PoolBooks :=
  let uses := (books.records lease).uses.length
  let returned := { (books.setRecord lease fun record => { record with uses := [] }) with
    useRecordAvailable := books.useRecordAvailable + uses
    useRecordInUse := books.useRecordInUse - uses }
  let closed := (deactivate (publishGeometry returned) lease).setRecord lease fun record =>
    { record with logicalFreed := true, planOwned := false, boundObject := none }
  { closed with
    requestedAllocatedBytes := closed.requestedAllocatedBytes - requestedBytes
    liveAllocations := closed.liveAllocations - 1 }

/-- `shadowspill_release_lease_locked`.  The pool is the one the lease names when the call
starts; `none` is a read through it where it names none. -/
def releaseAllocation (heap : Bool) (books : PoolBooks) (lease : Nat) : Option PoolBooks :=
  let record := books.records lease
  let retainLookup := record.everPlanOwned && !record.frameworkFreeSeen
  if record.pointer.isNone then some books
  else if !attached books lease &&
      (record.inReusableIndex || books.telemetryActive ||
        (!retainLookup && (record.inPointerIndex || record.inIdIndex))) then none
  else
    let unlisted := unindexReusable books lease
    let hidden := if retainLookup then unlisted
      else unindexId (unindexPointer unlisted lease) lease
    match releasePooled heap hidden lease with
    | (.error _, after) => some (after.latchFailure .leaseReleaseRejected)
    | (.ok (), after) =>
      if !attached books lease || record.uses.any (·.isSome) then
        some (after.latchFailure .useRecordReturnRejected)
      else
        let closed := closeAllocation after lease (books.pool.leases lease).requestedBytes
        let published :=
          match (books.pool.leases lease).causalSuccessor with
          | some successor =>
            if (closed.pool.leases successor).state = .reserved then
              publishSuccessorLease closed successor
            else closed
          | none => closed
        some (tryRecycle published lease)

/-! ## The paths that release a predecessor -/

/-- Who releases a retiring lease: the completion of a fetch, for a spill lease; the
completion of an eviction, a release action, or the retirement queue, for a lease of an
execution pool. -/
inductive ReleasePath where
  | spill
  | eviction
  | releaseAction
  | retirement
  deriving DecidableEq, Repr

/-- Acquire the successor, as a destination in that kind of pool. -/
def acquireOn (path : ReleasePath) (books : PoolBooks) (successor : Nat) :
    Except Refusal (Option Nat) × PoolBooks :=
  match path with
  | .spill => acquireReserved books successor
  | .eviction => acquireAllocation books successor
  | .releaseAction => acquireAllocation books successor
  | .retirement => acquireAllocation books successor

/-- The completed requirements of a retired lease go back to the queue. -/
def dropRequirements (books : PoolBooks) (lease : Nat) : PoolBooks :=
  books.setRecord lease fun record => { record with
    uses := if record.hasRetirementRequirements then [] else record.uses
    hasRetirementRequirements := false
    hasRetirementEvent := false }

/-- Release the predecessor.  The retirement queue passes over a lease whose pool is not
the one it was retired in. -/
def releaseOn (path : ReleasePath) (heap : Bool) (books : PoolBooks) (predecessor : Nat) :
    Option PoolBooks :=
  match path with
  | .spill =>
    match releasePooled heap books predecessor with
    | (.error _, after) => some (after.latchFailure .leaseReleaseRejected)
    | (.ok (), after) => some (tryRecycle after predecessor)
  | .eviction => releaseAllocation heap books predecessor
  | .releaseAction => releaseAllocation heap books predecessor
  | .retirement =>
    if attached books predecessor then
      releaseAllocation heap (dropRequirements books predecessor) predecessor
    else some books

/-- The successor is acquired first. -/
def acquireThenRelease (path : ReleasePath) (heap : Bool) (books : PoolBooks)
    (predecessor successor : Nat) : Option PoolBooks :=
  match acquireOn path books successor with
  | (.error _, _) => none
  | (.ok _, acquired) => releaseOn path heap acquired predecessor

/-- The predecessor is released first. -/
def releaseThenAcquire (path : ReleasePath) (heap : Bool) (books : PoolBooks)
    (predecessor successor : Nat) : Option PoolBooks :=
  match releaseOn path heap books predecessor with
  | none => none
  | some released =>
    match acquireOn path released successor with
    | (.error _, _) => none
    | (.ok _, acquired) => some acquired

end ShadowSpill.Runtime.CausalHandoff
