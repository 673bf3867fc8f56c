import Mathlib.Data.List.Basic

/-!
# The allocation contract of a task

A task record may carry a contract: the allocations and frees a task is to make, in
order, some of the allocations optional.  The task's scope follows the contract while
the task runs.  An allocation that the contract does not reach is scratch, within the
scratch limits; a free that the contract does not expect, or a task that ends before
its contract, is refused.
-/

namespace ShadowSpill.Runtime.AllocationContracts

/-! ## Contracts -/

/-- What a step of a contract does. -/
inductive Operation where
  | allocate
  | free
  deriving DecidableEq, Repr

/-- The size a request asks for, the size it is charged, and its alignment. -/
structure Geometry where
  requestedBytes : Nat
  chargedBytes : Nat
  alignmentBytes : Nat
  deriving DecidableEq, Repr

/-- A step of a contract; `ordinal` numbers the allocation it makes or frees. -/
structure ContractStep where
  operation : Operation
  ordinal : Nat
  geometry : Geometry
  required : Bool
  deriving DecidableEq, Repr

/-- The part of a task record that the scope reads.  A limit of zero sets no bound,
but `scratchLiveLimit = 0` leaves no room for scratch. -/
structure Record where
  enforceContract : Bool
  steps : List ContractStep
  maximumRequested : Nat
  maximumCharged : Nat
  liveRequestedLimit : Nat
  liveChargedLimit : Nat
  scratchLiveLimit : Nat
  scratchMaximum : Nat
  deriving Repr

/-- A step keeps to its own sizes. -/
def ContractStep.validGeometry (step : ContractStep) : Bool :=
  step.geometry.chargedBytes != 0 && step.geometry.alignmentBytes != 0 &&
    decide (step.geometry.requestedBytes ≤ step.geometry.chargedBytes)

/-- The loop over the steps; `allocations` holds the geometry of every allocation met
so far, or nothing once it is freed. -/
def validSteps : List (Option Geometry) → List ContractStep → Bool
  | _, [] => true
  | allocations, step :: rest =>
    if !step.validGeometry then false
    else
      match step.operation with
      | .allocate =>
        if step.ordinal ≠ allocations.length then false
        else validSteps (allocations ++ [some step.geometry]) rest
      | .free =>
        if step.required then false
        else if allocations[step.ordinal]? = some (some step.geometry) then
          validSteps (allocations.set step.ordinal none) rest
        else false

/-- A contract is well formed; without enforcement there is none. -/
def validContract (record : Record) : Bool :=
  if record.enforceContract then validSteps [] record.steps else record.steps.isEmpty

/-- The number of allocations of a contract. -/
def allocationCount (steps : List ContractStep) : Nat :=
  (steps.filter fun step => step.operation = .allocate).length

/-! ## The scope of a running task -/

/-- What the scope knows of an allocation of the contract. -/
inductive AllocationState where
  | unseen
  | matched
  | omitted
  | omitCandidate
  deriving DecidableEq, Repr

/-- The thread's scope while the task runs. -/
structure Scope where
  operationIndex : Nat
  allocationSequence : Nat
  pendingOrdinal : Option Nat
  pendingIsScratch : Bool
  pendingAllocation : Bool
  allocationStates : List AllocationState
  liveRequested : Nat
  liveCharged : Nat
  peakRequested : Nat
  peakCharged : Nat
  allocationCount : Nat
  freeCount : Nat
  scratchLiveRequested : Nat
  scratchLiveCharged : Nat
  scratchPeakCharged : Nat
  scratchAllocationCount : Nat
  deriving DecidableEq, Repr

/-- The scope a task enters. -/
def enterScope (record : Record) : Scope where
  operationIndex := 0
  allocationSequence := 0
  pendingOrdinal := none
  pendingIsScratch := false
  pendingAllocation := false
  allocationStates := List.replicate (allocationCount record.steps) .unseen
  liveRequested := 0
  liveCharged := 0
  peakRequested := 0
  peakCharged := 0
  allocationCount := 0
  freeCount := 0
  scratchLiveRequested := 0
  scratchLiveCharged := 0
  scratchPeakCharged := 0
  scratchAllocationCount := 0

/-- The step the scope stands at. -/
def expectedStep (record : Record) (scope : Scope) : Option ContractStep :=
  if record.enforceContract then record.steps[scope.operationIndex]? else none

/-- What is reported of a request that the contract does not expect. -/
structure Mismatch where
  operationIndex : Nat
  expected : Option ContractStep
  actualOperation : Option Operation
  actualOrdinal : Option Nat
  actualGeometry : Geometry
  deriving DecidableEq, Repr

/-- Why a request is refused. -/
inductive Refusal where
  | invalidArgument
  | invalidState
  | envelopeExceeded
  | contractMismatch (mismatch : Mismatch)
  deriving DecidableEq, Repr

def contractMismatch
    (record : Record) (scope : Scope) (operation : Option Operation)
    (ordinal : Option Nat) (geometry : Geometry) : Refusal :=
  .contractMismatch
    { operationIndex := scope.operationIndex
      expected := expectedStep record scope
      actualOperation := operation
      actualOrdinal := ordinal
      actualGeometry := geometry }

/-! ## Following the contract -/

/-- A free whose allocation was left out. -/
def isOmittedFree (states : List AllocationState) (step : ContractStep) : Bool :=
  step.operation = .free && states[step.ordinal]? = some .omitted

/-- Step over the frees of allocations that were left out. -/
def skipOmittedFrees (record : Record) (scope : Scope) : Scope :=
  { scope with
    operationIndex := scope.operationIndex +
      ((record.steps.drop scope.operationIndex).takeWhile
        (isOmittedFree scope.allocationStates)).length }

/-- Where the search for a step of one geometry ends. -/
structure Scan where
  matched : Option ContractStep
  passed : Nat
  states : List AllocationState
  deriving DecidableEq, Repr

/-- Look ahead for an allocation of the geometry.  An optional allocation on the way
becomes a candidate to be left out, and its free is passed with it. -/
def scanSteps (geometry : Geometry) :
    List ContractStep → List AllocationState → Scan
  | [], states => ⟨none, 0, states⟩
  | step :: rest, states =>
    match step.operation with
    | .allocate =>
      if step.geometry = geometry then ⟨some step, 0, states⟩
      else if step.required then ⟨none, 0, states⟩
      else
        let onward := scanSteps geometry rest (states.set step.ordinal .omitCandidate)
        { onward with passed := onward.passed + 1 }
    | .free =>
      if states[step.ordinal]? = some .omitted ∨
          states[step.ordinal]? = some .omitCandidate then
        let onward := scanSteps geometry rest states
        { onward with passed := onward.passed + 1 }
      else ⟨none, 0, states⟩

/-- Give every candidate among the passed steps its verdict. -/
def settleCandidates (verdict : AllocationState) :
    List ContractStep → List AllocationState → List AllocationState
  | [], states => states
  | step :: rest, states =>
    settleCandidates verdict rest
      (if step.operation = .allocate ∧
          states[step.ordinal]? = some .omitCandidate then
        states.set step.ordinal verdict
      else states)

/-- Match a request with the first step of its geometry, or take it as scratch. -/
def classifyAllocation (record : Record) (scope : Scope) (geometry : Geometry) : Scope :=
  let scope := skipOmittedFrees record scope
  let ahead := record.steps.drop scope.operationIndex
  let scan := scanSteps geometry ahead scope.allocationStates
  let passed := ahead.take scan.passed
  match scan.matched with
  | some step =>
    { scope with
      pendingAllocation := true
      pendingIsScratch := false
      pendingOrdinal := some step.ordinal
      operationIndex := scope.operationIndex + scan.passed
      allocationStates := settleCandidates .omitted passed scan.states }
  | none =>
    { scope with
      pendingAllocation := true
      pendingIsScratch := true
      pendingOrdinal := none
      allocationStates := settleCandidates .unseen passed scan.states }

/-! ## The three entry points -/

/-- A bound of zero bounds nothing. -/
def exceeds (limit bytes : Nat) : Bool :=
  limit != 0 && decide (limit < bytes)

/-- The request would leave the envelope of the task. -/
def exceedsEnvelope (record : Record) (scope : Scope) (geometry : Geometry) : Bool :=
  exceeds record.maximumRequested geometry.requestedBytes ||
    exceeds record.maximumCharged geometry.chargedBytes ||
    exceeds record.liveRequestedLimit (scope.liveRequested + geometry.requestedBytes) ||
    exceeds record.liveChargedLimit (scope.liveCharged + geometry.chargedBytes)

/-- The request would leave the scratch limits. -/
def exceedsScratch (record : Record) (scope : Scope) (geometry : Geometry) : Bool :=
  record.scratchLiveLimit == 0 ||
    exceeds record.scratchMaximum geometry.chargedBytes ||
    decide (record.scratchLiveLimit < scope.scratchLiveCharged + geometry.chargedBytes)

def validateAllocation (record : Record) (scope : Scope) (geometry : Geometry) :
    Except Refusal Scope :=
  if geometry.requestedBytes = 0 ∨ geometry.chargedBytes = 0 ∨
      geometry.alignmentBytes = 0 then
    .error .invalidArgument
  else if exceedsEnvelope record scope geometry then .error .envelopeExceeded
  else if !record.enforceContract then .ok scope
  else if scope.pendingAllocation then .error .invalidState
  else
    let classified := classifyAllocation record scope geometry
    if classified.pendingIsScratch && exceedsScratch record classified geometry then
      .error (contractMismatch record classified (some .allocate)
        (some scope.allocationSequence) geometry)
    else .ok classified

/-- The ordinal the allocation is recorded under. -/
def invariantOrdinal (scope : Scope) : Option Nat :=
  if scope.pendingAllocation && !scope.pendingIsScratch then scope.pendingOrdinal else none

def allocationIsScratch (scope : Scope) : Bool :=
  scope.pendingAllocation && scope.pendingIsScratch

/-- Charge scratch, or take the matched step of the contract. -/
def settlePending (scope : Scope) (geometry : Geometry) : Scope :=
  if scope.pendingAllocation && scope.pendingIsScratch then
    let live := scope.scratchLiveCharged + geometry.chargedBytes
    { scope with
      scratchLiveRequested := scope.scratchLiveRequested + geometry.requestedBytes
      scratchLiveCharged := live
      scratchPeakCharged := max scope.scratchPeakCharged live
      scratchAllocationCount := scope.scratchAllocationCount + 1 }
  else if scope.pendingAllocation then
    { scope with
      allocationStates :=
        match scope.pendingOrdinal with
        | some ordinal => scope.allocationStates.set ordinal .matched
        | none => scope.allocationStates
      operationIndex := scope.operationIndex + 1 }
  else scope

def commitAllocation (scope : Scope) (geometry : Geometry) : Scope :=
  let settled := settlePending scope geometry
  let requested := settled.liveRequested + geometry.requestedBytes
  let charged := settled.liveCharged + geometry.chargedBytes
  { settled with
    allocationSequence := settled.allocationSequence + 1
    liveRequested := requested
    liveCharged := charged
    peakRequested := max settled.peakRequested requested
    peakCharged := max settled.peakCharged charged
    allocationCount := settled.allocationCount + 1
    pendingAllocation := false
    pendingIsScratch := false
    pendingOrdinal := none }

/-- What the pool keeps of an allocation of the task. -/
structure Lease where
  geometry : Geometry
  ordinal : Option Nat
  scratch : Bool
  live : Bool
  deriving DecidableEq, Repr

/-- A subtraction that stops at zero. -/
def clampedSub (total bytes : Nat) : Nat :=
  if bytes ≤ total then total - bytes else 0

/-- Take a freed lease out of the counters. -/
def uncharge (scope : Scope) (lease : Lease) : Scope :=
  let scope :=
    if lease.scratch then
      { scope with
        scratchLiveRequested :=
          clampedSub scope.scratchLiveRequested lease.geometry.requestedBytes
        scratchLiveCharged :=
          clampedSub scope.scratchLiveCharged lease.geometry.chargedBytes }
    else scope
  { scope with
    liveRequested := clampedSub scope.liveRequested lease.geometry.requestedBytes
    liveCharged := clampedSub scope.liveCharged lease.geometry.chargedBytes
    freeCount := scope.freeCount + 1 }

/-- The step frees exactly the lease. -/
def freesLease (lease : Lease) (step : ContractStep) : Bool :=
  step.operation = .free && some step.ordinal = lease.ordinal &&
    step.geometry = lease.geometry

def releaseAllocation (record : Record) (scope : Scope) (lease : Lease) :
    Except Refusal Scope :=
  if record.enforceContract && !lease.scratch then
    let skipped := skipOmittedFrees record scope
    if (expectedStep record skipped).any (freesLease lease) then
      .ok (uncharge { skipped with operationIndex := skipped.operationIndex + 1 } lease)
    else
      .error (contractMismatch record skipped (some .free) lease.ordinal lease.geometry)
  else .ok (uncharge scope lease)

/-- The loop at the end of the task: optional allocations are left out, with their
frees, and anything else is missing. -/
def completeSteps : List ContractStep → List AllocationState → Bool
  | [], _ => true
  | step :: rest, states =>
    match step.operation with
    | .allocate =>
      if step.required then false
      else completeSteps rest (states.set step.ordinal .omitted)
    | .free =>
      if states[step.ordinal]? = some .omitted then completeSteps rest states else false

def validateComplete (record : Record) (scope : Scope) : Bool :=
  !record.enforceContract ||
    completeSteps (record.steps.drop scope.operationIndex) scope.allocationStates

/-! ## Traces -/

/-- What a task asks of its pool; allocations are numbered in the order they are made. -/
inductive Event where
  | allocate (geometry : Geometry)
  | free (allocation : Nat)
  deriving DecidableEq, Repr

/-- The scope of a running task, with the leases of the allocations it made. -/
structure Execution where
  scope : Scope
  leases : List Lease
  deriving DecidableEq, Repr

def enterTask (record : Record) : Execution := ⟨enterScope record, []⟩

/-- The lease after its logical free. -/
def Lease.freed (lease : Lease) : Lease := { lease with live := false }

def allocate (record : Record) (execution : Execution) (geometry : Geometry) :
    Except Refusal Execution := do
  let scope ← validateAllocation record execution.scope geometry
  return {
    scope := commitAllocation scope geometry
    leases := execution.leases ++
      [⟨geometry, invariantOrdinal scope, allocationIsScratch scope, true⟩] }

/-- Free an allocation; the pool refuses one that is unknown or already freed. -/
def free (record : Record) (execution : Execution) (allocation : Nat) :
    Except Refusal Execution :=
  match execution.leases[allocation]? with
  | none => .error .invalidState
  | some lease =>
    if !lease.live then .error .invalidState
    else do
      let scope ← releaseAllocation record execution.scope lease
      return { scope := scope, leases := execution.leases.set allocation lease.freed }

def step (record : Record) (execution : Execution) : Event → Except Refusal Execution
  | .allocate geometry => allocate record execution geometry
  | .free allocation => free record execution allocation

/-- Take the events one after the other, up to the first refusal. -/
def run (record : Record) : Execution → List Event → Except Refusal Execution
  | execution, [] => .ok execution
  | execution, event :: trace => do
    let next ← step record execution event
    run record next trace

/-- No event is refused, and the contract is complete at the end. -/
def accepts (record : Record) (trace : List Event) : Bool :=
  match run record (enterTask record) trace with
  | .ok execution => validateComplete record execution.scope
  | .error _ => false

/-! ## Runs -/

variable {record : Record}

@[simp] theorem run_nil (execution : Execution) : run record execution [] = .ok execution :=
  rfl

theorem run_cons (execution : Execution) (event : Event) (trace : List Event) :
    run record execution (event :: trace) =
      (step record execution event).bind fun next => run record next trace := rfl

/-- A run through an event is a step and a run from where it ends. -/
theorem run_cons_ok_iff {execution last : Execution} {event : Event} {trace : List Event} :
    run record execution (event :: trace) = .ok last ↔
      ∃ next, step record execution event = .ok next ∧ run record next trace = .ok last := by
  rw [run_cons]
  cases step record execution event with
  | error refusal => simp [Except.bind]
  | ok next => simp [Except.bind]

end ShadowSpill.Runtime.AllocationContracts
