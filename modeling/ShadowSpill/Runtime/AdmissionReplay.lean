import ShadowSpill.Planner.AdmissionTypes
import ShadowSpill.Runtime.PoolLeases
import ShadowSpill.Status

/-!
# Admission replay

An ordered list of pool operations is run through the pool's own policy, on
offsets only.  Range nodes come from an arena that the workspace sized for its
leases; with no arena they come from the process heap, as in a pool that holds
memory.
-/

namespace ShadowSpill.Runtime.AdmissionReplay

open Library.Word64 Planner.AdmissionTypes Ranges PoolLeases Status

/-- `ShadowSpillAdmissionReplayOperation`; an unknown kind is `none`. -/
structure ReplayOperation where
  sequence : Nat
  leaseId : Nat
  dependencyId : Option Nat
  bytes : Nat
  alignment : Nat
  kind : Option OperationKind
  dependencyExpected : Bool
deriving DecidableEq, Repr

/-- `ShadowSpillAdmissionReplayProgram`. -/
structure ReplayProgram where
  abiVersion : Nat
  capacityBytes : Nat
  minimumAlignment : Nat
  largeRequestThresholdBytes : Nat
  leaseCount : Nat
  dependencyCount : Nat
  operations : List ReplayOperation
deriving DecidableEq, Repr

/-- `ShadowSpillAdmissionReplayDecision`. -/
structure ReplayDecision where
  operationIndex : Nat
  sequence : Nat
  leaseId : Nat
  predecessorLeaseId : Option Nat
  dependencyId : Option Nat
  offset : Nat
  requestedBytes : Nat
  chargedBytes : Nat
  physicalBytesDelta : Int
  resultingState : LeaseState
deriving DecidableEq, Repr

/-- `ShadowSpillAdmissionReuseDependency`. -/
structure ReuseDependency where
  predecessorLeaseId : Nat
  successorLeaseId : Nat
  dependencyId : Nat
  consumerOperationIndex : Nat
deriving DecidableEq, Repr

/-- `ShadowSpillAdmissionReplayLiveLease`. -/
structure LiveLease where
  leaseId : Nat
  offset : Nat
  requestedBytes : Nat
  chargedBytes : Nat
  state : LeaseState
deriving DecidableEq, Repr

/-- Where range nodes come from: an arena sized for so many leases, or the
process heap. -/
inductive NodeStorage where
  | arena (leaseCapacity : Nat)
  | heap
deriving DecidableEq, Repr

/-- The process heap gives nodes where there is no arena. -/
def NodeStorage.heapGives : NodeStorage → Bool
  | .arena _ => false
  | .heap => true

/-- The sizes of the result's buffers. -/
structure ResultCapacities where
  decisions : Nat
  dependencies : Nat
  liveLeases : Nat
deriving DecidableEq, Repr

/-- `ReplayState`, with what the run has written of its result. -/
structure ReplayState where
  pool : MemoryPool
  expectedDependencyIds : Nat → Option Nat
  retirementCompletedEarly : Nat → Bool
  peakReservedBytes : Nat
  peakFragmentationBytes : Nat
  decisions : List ReplayDecision
  dependencies : List ReuseDependency

/-- `replay_placement`. -/
def replayPlacement (program : ReplayProgram) (bytes : Nat) : Placement :=
  if program.largeRequestThresholdBytes ≠ 0 ∧
      bytes ≥ program.largeRequestThresholdBytes then .bestFitHigh
  else .bestFitLow

/-- The range allocator of a replay pool. -/
def replayRanges (storage : NodeStorage) (capacity : Nat) :
    Option RangeAllocator :=
  match storage with
  | .arena leaseCapacity => rangeInitializeWithNodes capacity (leaseCapacity + 1)
  | .heap => rangeInitialize true capacity

/-- `reset_state`. -/
def resetState (storage : NodeStorage) (program : ReplayProgram) :
    Option ReplayState :=
  match replayRanges storage program.capacityBytes with
  | none => none
  | some ranges =>
    some {
      pool := {
        ranges := ranges
        rangeLeases := []
        minimumAlignment := program.minimumAlignment
        nextRequestSequence := 1
        nextReleaseSequence := 1
        reservedBytes := 0
        leases := fun lease =>
          .blank (if lease < program.leaseCount then lease + 1 else 0) }
      expectedDependencyIds := fun _ => none
      retirementCompletedEarly := fun _ => false
      peakReservedBytes := 0
      peakFragmentationBytes := 0
      decisions := []
      dependencies := [] }

/-- `dependency_event`: the event of a dependency the program has. -/
def dependencyEvent (program : ReplayProgram) (dependencyId : Option Nat) :
    Option Nat :=
  match dependencyId with
  | none => none
  | some dependency =>
    if dependency < program.dependencyCount then some dependency else none

/-- `lease_id`. -/
def leaseIdOf (program : ReplayProgram) (lease : Option Nat) : Option Nat :=
  match lease with
  | none => none
  | some lease => if lease < program.leaseCount then some lease else none

/-- `event_id`. -/
def eventIdOf (program : ReplayProgram) (event : Option Nat) : Option Nat :=
  dependencyEvent program event

/-- `update_peaks`. -/
def updatePeaks (state : ReplayState) : ReplayState :=
  let ranges := state.pool.ranges
  let fragmentation := wrapSub (freeBytes ranges) (largestFree ranges)
  { state with
    peakReservedBytes := max state.peakReservedBytes state.pool.reservedBytes
    peakFragmentationBytes := max state.peakFragmentationBytes fragmentation }

/-- `append_dependency`. -/
def appendDependency (capacity : Nat) (state : ReplayState)
    (dependency : ReuseDependency) : Option ReplayState :=
  if state.dependencies.length ≥ capacity then none
  else some { state with dependencies := state.dependencies ++ [dependency] }

/-! ## The release frontier -/

/-- `shadowspill_range_clone_extended_with_nodes` at the source's own capacity:
each free range is copied to a node of its own. -/
def cloneRanges (heap : Bool) (source destination : RangeAllocator) :
    Option RangeAllocator :=
  let rec copy (copied : RangeAllocator) : List Range → Option RangeAllocator
    | [] => some copied
    | range :: ranges =>
      match acquireNode heap copied with
      | none => none
      | some acquired =>
        copy { acquired with freeRanges := acquired.freeRanges ++ [range] } ranges
  copy { destination with
    capacity := source.capacity
    allocated := source.allocated
    peakAllocated := source.peakAllocated } source.freeRanges

/-- An allocator without ranges over the storage of the frontier's nodes. -/
def frontierStorage : NodeStorage → RangeAllocator
  | .arena leaseCapacity =>
    ⟨0, 0, 0, [], true, 2 * leaseCapacity + 2, 2 * leaseCapacity + 2⟩
  | .heap => ⟨0, 0, 0, [], false, 0, 0⟩

/-- A lease that would release its range when its dependency completes. -/
def isFrontierCandidate (lease : Lease) : Bool :=
  lease.ownsPoolRange && canPublishCausalDependency lease &&
    lease.causalSuccessor.isNone

/-- `release_sequence_compare`: the first releases no later than the second. -/
def releasesBefore (leases : Nat → Lease) (first second : Nat) : Bool :=
  if (leases first).releaseSequence ≠ (leases second).releaseSequence then
    (leases first).releaseSequence < (leases second).releaseSequence
  else (leases first).offset ≤ (leases second).offset

/-- Release the ranges in order on a copy until the request fits.  The result
counts the releases it took. -/
def releaseUntilFit (heap : Bool) (leases : Nat → Lease) (bytes alignment : Nat) :
    Nat → RangeAllocator → List Nat → Except Refusal Nat
  | _, _, [] => .error .unavailable
  | count, future, lease :: rest =>
    match rangeFree heap future (leases lease).offset (leases lease).chargedBytes with
    | none => .error .failed
    | some freed =>
      match allocateBestFitLow heap freed bytes alignment with
      | .ok _ => .ok (count + 1)
      | .error .failed => .error .failed
      | .error .unavailable =>
        releaseUntilFit heap leases bytes alignment (count + 1) freed rest

/-- The listed leases that would release their ranges. -/
def frontierCandidates (pool : MemoryPool) : List Nat :=
  pool.rangeLeases.filter fun lease => isFrontierCandidate (pool.leases lease)

/-- The candidates, oldest release first. -/
def frontierOrder (pool : MemoryPool) : List Nat :=
  (frontierCandidates pool).insertionSort fun first second =>
    releasesBefore pool.leases first second = true

/-- `shadowspill_memory_pool_find_release_frontier_locked`: the shortest run of
releases, oldest first, after which the request fits. -/
def findReleaseFrontier (storage : NodeStorage) (pool : MemoryPool)
    (bytes alignment frontierCapacity : Nat) : Except Refusal (List Nat) :=
  if bytes = 0 then .error .failed
  else
    match cloneRanges storage.heapGives pool.ranges (frontierStorage storage) with
    | none => .error .failed
    | some future =>
      if (frontierCandidates pool).length > frontierCapacity then .error .failed
      else
        match releaseUntilFit storage.heapGives pool.leases bytes
            (raised pool alignment) 0 future (frontierOrder pool) with
        | .error refusal => .error refusal
        | .ok count => .ok ((frontierOrder pool).take count)

/-- `publish_retirement_dependency`: the event a retiring lease has, or the one
it is promised. -/
def publishExpected (program : ReplayProgram) (state : ReplayState)
    (predecessor : Nat) : Option Nat × ReplayState :=
  let lease := state.pool.leases predecessor
  match lease.causalEvent with
  | some event => (some event, state)
  | none =>
    if ¬ lease.causalDependencyExpected ∨ predecessor ≥ program.leaseCount then
      (none, state)
    else
      match dependencyEvent program (state.expectedDependencyIds predecessor) with
      | none => (none, state)
      | some event =>
        match publishRetirementDependency state.pool predecessor event with
        | (.error _, _) => (none, state)
        | (.ok _, pool) =>
          (some event, { state with
            pool := pool
            expectedDependencyIds :=
              Function.update state.expectedDependencyIds predecessor none })

/-- The releases of a frontier, each with the dependency it stands for. -/
def releaseFrontier (storage : NodeStorage) (capacities : ResultCapacities)
    (program : ReplayProgram) (operationIndex successor : Nat) :
    ReplayState → List Nat → Option Unit × ReplayState
  | state, [] => (some (), state)
  | state, predecessor :: rest =>
    let (event, published) := publishExpected program state predecessor
    match leaseIdOf program (some predecessor), eventIdOf program event with
    | some predecessorId, some dependency =>
      match appendDependency capacities.dependencies published
          ⟨predecessorId, successor, dependency, operationIndex⟩ with
      | none => (none, published)
      | some appended =>
        match releaseLease storage.heapGives appended.pool predecessor with
        | (.error _, pool) => (none, { appended with pool := pool })
        | (.ok _, pool) =>
          releaseFrontier storage capacities program operationIndex successor
            { appended with
              pool := pool
              retirementCompletedEarly :=
                Function.update appended.retirementCompletedEarly predecessor true }
            rest
    | _, _ => (none, published)

/-- A reservation for a lease under the replay's placement. -/
def reserveReplay (storage : NodeStorage) (program : ReplayProgram)
    (state : ReplayState) (lease bytes alignment : Nat) : Outcome × ReplayState :=
  let (outcome, pool) := reserveLease storage.heapGives state.pool lease bytes
    alignment (replayPlacement program bytes)
  (outcome, { state with pool := pool })

/-- `reserve_after_release_frontier`. -/
def reserveAfterReleaseFrontier (storage : NodeStorage)
    (capacities : ResultCapacities) (program : ReplayProgram)
    (state : ReplayState) (operationIndex successor bytes alignment : Nat) :
    Outcome × ReplayState :=
  match findReleaseFrontier storage state.pool bytes alignment
      program.leaseCount with
  | .error refusal => (.error refusal, state)
  | .ok frontier =>
    match releaseFrontier storage capacities program operationIndex successor
        state frontier with
    | (none, released) => (.error .failed, released)
    | (some _, released) =>
      reserveReplay storage program released successor bytes alignment

/-! ## Operations -/

/-- What one operation comes to: an early status, or the status of its call. -/
structure Replayed where
  result : Except Status Outcome
  predecessor : Option Nat
  dependency : Option Nat
  state : ReplayState

/-- `replay_acquire`. -/
def replayAcquire (storage : NodeStorage) (capacities : ResultCapacities)
    (program : ReplayProgram) (state : ReplayState) (operationIndex : Nat)
    (operation : ReplayOperation) : Replayed :=
  if operation.bytes = 0 ∨ operation.alignment = 0 then
    ⟨.error .invalidOperations, none, none, state⟩
  else
    match reserveReplay storage program state operation.leaseId operation.bytes
        operation.alignment with
    | (.error .unavailable, refused) =>
      let (outcome, after) := reserveAfterReleaseFrontier storage capacities
        program refused operationIndex operation.leaseId operation.bytes
        operation.alignment
      ⟨.ok outcome, none, none, after⟩
    | (outcome, after) => ⟨.ok outcome, none, none, after⟩

/-- `replay_begin_retirement`. -/
def replayBeginRetirement (program : ReplayProgram) (state : ReplayState)
    (operation : ReplayOperation) : Replayed :=
  match dependencyEvent program operation.dependencyId with
  | none => ⟨.error .invalidOperations, none, none, state⟩
  | some event =>
    let expecting :=
      if operation.dependencyExpected then
        { state with
          expectedDependencyIds :=
            Function.update state.expectedDependencyIds operation.leaseId
              operation.dependencyId }
      else state
    let (outcome, pool) := beginRetirement state.pool operation.leaseId
      (if operation.dependencyExpected then none else some event)
      operation.dependencyExpected
    ⟨.ok outcome, none, none, { expecting with pool := pool }⟩

/-- `replay_publish_dependency`. -/
def replayPublishDependency (program : ReplayProgram) (state : ReplayState)
    (operation : ReplayOperation) : Replayed :=
  match dependencyEvent program operation.dependencyId with
  | none => ⟨.error .invalidOperations, none, none, state⟩
  | some event =>
    match publishRetirementDependency state.pool operation.leaseId event with
    | (.error refusal, pool) =>
      ⟨.ok (.error refusal), none, none, { state with pool := pool }⟩
    | (.ok _, pool) =>
      ⟨.ok (.ok ()), none, none, { state with
        pool := pool
        expectedDependencyIds :=
          Function.update state.expectedDependencyIds operation.leaseId none }⟩

/-- The three ways `replay_reserve` looks for a range. -/
def reserveOrClaim (storage : NodeStorage) (capacities : ResultCapacities)
    (program : ReplayProgram) (state : ReplayState) (operationIndex : Nat)
    (operation : ReplayOperation) : Outcome × ReplayState :=
  match reserveReplay storage program state operation.leaseId operation.bytes
      operation.alignment with
  | (.error .unavailable, refused) =>
    match reserveCausalSuccessor refused.pool operation.leaseId operation.bytes
        operation.alignment with
    | (.error .unavailable, pool) =>
      reserveAfterReleaseFrontier storage capacities program
        { refused with pool := pool } operationIndex operation.leaseId
        operation.bytes operation.alignment
    | (outcome, pool) => (outcome, { refused with pool := pool })
  | (outcome, after) => (outcome, after)

/-- A lease that got a range of its own is marked as reserved. -/
def markOwnRange (outcome : Outcome) (pool : MemoryPool) (lease : Nat) :
    Outcome × MemoryPool :=
  match outcome with
  | .error refusal => (.error refusal, pool)
  | .ok _ =>
    if (pool.leases lease).state = LeaseState.successorReserved then (.ok (), pool)
    else markReserved pool lease

/-- `replay_reserve`. -/
def replayReserve (storage : NodeStorage) (capacities : ResultCapacities)
    (program : ReplayProgram) (state : ReplayState) (operationIndex : Nat)
    (operation : ReplayOperation) : Replayed :=
  if operation.bytes = 0 ∨ operation.alignment = 0 then
    ⟨.error .invalidOperations, none, none, state⟩
  else
    let (outcome, reserved) :=
      reserveOrClaim storage capacities program state operationIndex operation
    let (marked, pool) := markOwnRange outcome reserved.pool operation.leaseId
    ⟨.ok marked,
      leaseIdOf program (pool.leases operation.leaseId).causalPredecessor, none,
      { reserved with pool := pool }⟩

/-- The event an awaited predecessor was promised is published first. -/
def publishAwaited (program : ReplayProgram) (state : ReplayState)
    (predecessor : Option Nat) : Option ReplayState :=
  match leaseIdOf program predecessor with
  | none => some state
  | some source =>
    if (state.pool.leases source).causalEvent.isSome ∨
        ¬ (state.pool.leases source).causalDependencyExpected then some state
    else
      match dependencyEvent program (state.expectedDependencyIds source) with
      | none => none
      | some event =>
        match publishRetirementDependency state.pool source event with
        | (.error _, _) => none
        | (.ok _, pool) =>
          some { state with
            pool := pool
            expectedDependencyIds :=
              Function.update state.expectedDependencyIds source none }

/-- `replay_acquire_reserved`. -/
def replayAcquireReserved (capacities : ResultCapacities)
    (program : ReplayProgram) (state : ReplayState) (operationIndex : Nat)
    (operation : ReplayOperation) : Replayed :=
  let awaited := (state.pool.leases operation.leaseId).causalPredecessor
  let predecessor := leaseIdOf program awaited
  match publishAwaited program state awaited with
  | none => ⟨.error .invalidOperations, predecessor, none, state⟩
  | some published =>
    match acquireReservedLease published.pool operation.leaseId with
    | (.error refusal, pool) =>
      ⟨.ok (.error refusal), predecessor, none, { published with pool := pool }⟩
    | (.ok event, pool) =>
      let dependency := eventIdOf program event
      let acquired := { published with pool := pool }
      match event with
      | none => ⟨.ok (.ok ()), predecessor, dependency, acquired⟩
      | some _ =>
        match appendDependency capacities.dependencies acquired
            ⟨predecessor.getD uint64Max, operation.leaseId,
              dependency.getD uint64Max, operationIndex⟩ with
        | none => ⟨.error .internalFailure, predecessor, dependency, acquired⟩
        | some appended => ⟨.ok (.ok ()), predecessor, dependency, appended⟩

/-- `replay_complete_retirement`. -/
def replayCompleteRetirement (storage : NodeStorage) (program : ReplayProgram)
    (state : ReplayState) (operation : ReplayOperation) : Replayed :=
  match dependencyEvent program operation.dependencyId with
  | none => ⟨.error .invalidOperations, none, none, state⟩
  | some _ =>
    if state.retirementCompletedEarly operation.leaseId then
      ⟨.ok (.ok ()), none, none, { state with
        retirementCompletedEarly :=
          Function.update state.retirementCompletedEarly operation.leaseId false }⟩
    else
      let (outcome, pool) :=
        releaseLease storage.heapGives state.pool operation.leaseId
      ⟨.ok outcome, none, none, { state with pool := pool }⟩

/-- `replay_release`. -/
def replayRelease (storage : NodeStorage) (state : ReplayState)
    (operation : ReplayOperation) : Replayed :=
  let (outcome, pool) :=
    releaseLease storage.heapGives state.pool operation.leaseId
  ⟨.ok outcome, none, none, { state with pool := pool }⟩

/-- The dispatch of `apply_operation`. -/
def replayOperation (storage : NodeStorage) (capacities : ResultCapacities)
    (program : ReplayProgram) (state : ReplayState) (operationIndex : Nat)
    (operation : ReplayOperation) : Replayed :=
  match operation.kind with
  | some .acquire =>
    replayAcquire storage capacities program state operationIndex operation
  | some .beginRetirement => replayBeginRetirement program state operation
  | some .publishDependency => replayPublishDependency program state operation
  | some .reserve =>
    replayReserve storage capacities program state operationIndex operation
  | some .acquireReserved =>
    replayAcquireReserved capacities program state operationIndex operation
  | some .completeRetirement =>
    replayCompleteRetirement storage program state operation
  | some .release => replayRelease storage state operation
  | none => ⟨.error .invalidOperations, none, none, state⟩

/-- The change of the allocated bytes, as an `int64_t` holds it. -/
def allocatedDelta (before after : Nat) : Int :=
  if before ≤ after then (BitVec.ofNat 64 (after - before)).toInt
  else (-BitVec.ofNat 64 (before - after)).toInt

/-- The decision an operation is answered with. -/
def decide_ (before after : ReplayState) (operationIndex : Nat)
    (operation : ReplayOperation) (predecessor dependency : Option Nat) :
    ReplayDecision :=
  let prior := before.pool.leases operation.leaseId
  let lease := after.pool.leases operation.leaseId
  let described : Lease :=
    if lease.registered ∨ lease.state = .predecessorTransferred then lease
    else prior
  { operationIndex := operationIndex
    sequence := operation.sequence
    leaseId := operation.leaseId
    predecessorLeaseId := predecessor
    dependencyId := dependency
    offset := described.offset
    requestedBytes := described.requestedBytes
    chargedBytes := described.chargedBytes
    physicalBytesDelta := allocatedDelta before.pool.ranges.allocated after.pool.ranges.allocated
    resultingState := lease.state }

/-- `apply_operation`. -/
def applyOperation (storage : NodeStorage) (capacities : ResultCapacities)
    (program : ReplayProgram) (state : ReplayState) (operationIndex : Nat)
    (earlier : Option ReplayOperation) (operation : ReplayOperation) :
    Status × ReplayState :=
  if operation.leaseId ≥ program.leaseCount ∨
      (earlier.any fun previous => operation.sequence < previous.sequence) then
    (.invalidOperations, state)
  else
    let replayed :=
      replayOperation storage capacities program state operationIndex operation
    match replayed.result with
    | .error status => (status, replayed.state)
    | .ok (.error .unavailable) => (.replayInfeasible, replayed.state)
    | .ok (.error .failed) => (.invalidOperations, replayed.state)
    | .ok (.ok _) =>
      let decision := decide_ state replayed.state operationIndex operation
        replayed.predecessor replayed.dependency
      (.ok, updatePeaks { replayed.state with
        decisions := replayed.state.decisions ++ [decision] })

/-! ## Runs -/

/-- The loop of `shadowspill_admission_replay_run_reusing`: it stops at the first
operation whose status is not ok. -/
def replayFrom (storage : NodeStorage) (capacities : ResultCapacities)
    (program : ReplayProgram) :
    Nat → Option ReplayOperation → ReplayState → List ReplayOperation →
      Status × Nat × ReplayState
  | index, _, state, [] => (.ok, index, state)
  | index, earlier, state, operation :: rest =>
    match applyOperation storage capacities program state index earlier
        operation with
    | (.ok, after) =>
      replayFrom storage capacities program (index + 1) (some operation) after rest
    | (status, after) => (status, index, after)

/-- `lease_offset_compare`. -/
def liesBefore (leases : Nat → Lease) (first second : Nat) : Bool :=
  if (leases first).offset ≠ (leases second).offset then
    (leases first).offset < (leases second).offset
  else if (leases first).chargedBytes ≠ (leases second).chargedBytes then
    (leases first).chargedBytes < (leases second).chargedBytes
  else first ≤ second

/-- `collect_failure_live_leases`: the registered owners by offset. -/
def liveLeases (pool : MemoryPool) : List LiveLease :=
  (pool.rangeLeases.insertionSort fun first second =>
      liesBefore pool.leases first second = true).map fun lease =>
    ⟨lease, (pool.leases lease).offset, (pool.leases lease).requestedBytes,
      (pool.leases lease).chargedBytes, (pool.leases lease).state⟩

/-- `ShadowSpillAdmissionReplayResult`. -/
structure ReplayResult where
  status : Status
  errorOperationIndex : Option Nat
  errorLeaseId : Option Nat
  errorRequestedBytes : Nat
  errorFreeBytes : Nat
  errorLargestFreeRangeBytes : Nat
  peakAllocatedBytes : Nat
  peakReservedBytes : Nat
  peakFragmentationBytes : Nat
  finalAllocatedBytes : Nat
  finalReservedBytes : Nat
  finalLargestFreeRangeBytes : Nat
  decisions : List ReplayDecision
  dependencies : List ReuseDependency
  liveLeases : List LiveLease
deriving DecidableEq, Repr

/-- `initialize_result`. -/
def ReplayResult.initial (status : Status) : ReplayResult :=
  ⟨status, none, none, 0, 0, 0, 0, 0, 0, 0, 0, 0, [], [], []⟩

/-- What the end of a run reports. -/
def reportRun (capacities : ResultCapacities) (program : ReplayProgram) :
    Status × Nat × ReplayState → ReplayResult
  | (status, index, state) =>
    let stopped := program.operations[index]?
    let live := if status = .replayInfeasible then liveLeases state.pool else []
    let overflows := capacities.liveLeases ≠ 0 ∧ live.length > capacities.liveLeases
    { status := if overflows then .internalFailure else status
      errorOperationIndex := stopped.map fun _ => index
      errorLeaseId := stopped.map ReplayOperation.leaseId
      errorRequestedBytes := (stopped.map ReplayOperation.bytes).getD 0
      errorFreeBytes := if stopped.isSome then freeBytes state.pool.ranges else 0
      errorLargestFreeRangeBytes :=
        if stopped.isSome then largestFree state.pool.ranges else 0
      peakAllocatedBytes := state.pool.ranges.peakAllocated
      peakReservedBytes := state.peakReservedBytes
      peakFragmentationBytes := state.peakFragmentationBytes
      finalAllocatedBytes := state.pool.ranges.allocated
      finalReservedBytes := state.pool.reservedBytes
      finalLargestFreeRangeBytes := largestFree state.pool.ranges
      decisions := state.decisions
      dependencies := state.dependencies
      liveLeases :=
        if overflows ∨ capacities.liveLeases = 0 then [] else live }

/-- `valid_program`, the checks that are not about null pointers. -/
def validProgram (capacities : ResultCapacities) (program : ReplayProgram) :
    Bool :=
  program.abiVersion == abiVersion && program.minimumAlignment != 0 &&
    program.operations.length ≤ capacities.decisions

/-- The workspace has a record for each lease of the program. -/
def fitsWorkspace (storage : NodeStorage) (program : ReplayProgram) : Bool :=
  match storage with
  | .arena leaseCapacity => program.leaseCount ≤ leaseCapacity
  | .heap => true

/-- `shadowspill_admission_replay_run_reusing` with a workspace for so many
leases, or with the process heap for its range nodes. -/
def runReusing (storage : NodeStorage) (capacities : ResultCapacities)
    (program : ReplayProgram) : ReplayResult :=
  if ¬ validProgram capacities program ∨ ¬ fitsWorkspace storage program then
    .initial .invalidArgument
  else
    match resetState storage program with
    | none => .initial .internalFailure
    | some state =>
      reportRun capacities program
        (replayFrom storage capacities program 0 none state program.operations)

end ShadowSpill.Runtime.AdmissionReplay
