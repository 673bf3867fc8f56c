import ShadowSpill.Runtime.WorkerState

/-!
# Dispatching a transfer

One poll of a queued fetch, eviction or write-back: the waits that can hold it
back, the claim of its queue, and the dispatch onto its lane.  What the poll
learns from outside, the lane's answers among it, is a record of its own.
-/

namespace ShadowSpill.Runtime.TransferDispatch

open PoolLeases TransferQueues WorkerState

/-! ## Answers from outside -/

/-- What a lane's `wait` returns: zero, more than zero, less than zero. -/
inductive Wait where
  | enqueued
  | retry
  | failed
deriving DecidableEq, Repr

/-- `shadowspill_fixed_layout_dependencies_published`, by its sign. -/
inductive Readiness where
  | violated
  | pending
  | ready
deriving DecidableEq, Repr

/-- What one poll is told by events, locks, the backend and the lane. -/
structure Poll where
  triggerComplete : Bool
  fixedDependencies : Readiness
  reservationLockFree : Bool
  /-- `shadowspill_fixed_layout_insert_dependency_waits`. -/
  dependencyWaits : Option Failure
  dependencyWait : Wait
  /-- The event `shadowspill_event_lease_create_locked` makes. -/
  completionEvent : Option Nat
  triggerWait : Wait
  /-- The copy, its signal and its completion are submitted. -/
  submitted : Bool
  triggerReleased : Bool
deriving DecidableEq, Repr

/-- What `shadowspill_action_dispatch_*_locked` return. -/
inductive Dispatched where
  | failed
  | nothing
  | inFlight
  | retry
deriving DecidableEq, Repr

/-- What `handle_transfer_locked` returns. -/
inductive Handled where
  | failed
  | waiting
  | dispatched
  | completed
deriving DecidableEq, Repr

/-- What a call returns, the runtime after it, and whether the lane asked for a
retry in it. -/
structure Result (Outcome : Type) where
  outcome : Outcome
  runtime : WorkerRuntime
  retryAsked : Bool := false

/-! ## Dispatch -/

section Dispatch

variable (runtime : WorkerRuntime) (action : Nat) (poll : Poll)

/-- `shadowspill_action_destination_ready`. -/
def destinationReady : Readiness :=
  let queued := runtime.actions action
  if poll.fixedDependencies ≠ .ready then poll.fixedDependencies
  else
    match queued.destinationLease with
    | none => .ready
    | some lease =>
      let pool := runtime.destinationPool queued.kind
      let record := pool.leases lease
      if ¬ record.registered ∨ ¬ poll.reservationLockFree then .pending
      else if record.state ≠ .successorReserved then .ready
      else
        match record.causalPredecessor with
        | none => .pending
        | some predecessor =>
          if (pool.leases predecessor).causalEvent.isSome then .ready else .pending

/-- `acquire_reserved_destination`.  A retry of the dependency's wait counts as a
failure. -/
def acquireReservedDestination : Result Bool :=
  let queued := runtime.actions action
  match queued.destinationLease with
  | none => { outcome := false, runtime }
  | some lease =>
    let pool := runtime.destinationPool queued.kind
    if ¬ (pool.leases lease).registered then { outcome := false, runtime }
    else
      let acquired := acquireReservedLease pool lease
      let after := runtime.setDestinationPool queued.kind acquired.2
      match acquired.1 with
      | .error _ => { outcome := false, runtime := after }
      | .ok none => { outcome := true, runtime := after }
      | .ok (some event) =>
        match poll.dependencyWait with
        | .enqueued =>
          { outcome := true
            runtime := after.setAction action fun queued =>
              { queued with dependencyEvent := some event } }
        | .retry => { outcome := false, runtime := after, retryAsked := true }
        | .failed => { outcome := false, runtime := after }

/-- What the lane and the backend make of an attempt. -/
inductive Submission where
  | failed
  | retry
  | submitted (event : Nat)
deriving DecidableEq, Repr

/-- The lane is asked to wait for the trigger, and the copy is submitted. -/
def submitTransfer : Submission :=
  match poll.completionEvent with
  | none => .failed
  | some event =>
    match poll.triggerWait with
    | .failed => .failed
    | .retry => .retry
    | .enqueued => if poll.submitted then .submitted event else .failed

/-- The copy of an eviction or write-back, once the spill location holds a
lease. -/
def dispatchToSpill (allocation : Nat) : Result Dispatched :=
  let queued := runtime.actions action
  if queued.triggerEvent = none then
    { outcome := .failed, runtime := runtime.latchFailure .invalidState }
  else
    match submitTransfer poll with
    | .retry => { outcome := .retry, runtime, retryAsked := true }
    | .failed =>
      { outcome := .failed, runtime := runtime.latchFailure .backendFailure }
    | .submitted event =>
      let retired :=
        if queued.kind = .evict then
          publishRetirementDependency runtime.executionPool allocation event
        else (.ok (), runtime.executionPool)
      let after := { runtime with executionPool := retired.2 }
      match retired.1, poll.triggerReleased with
      | .ok _, true =>
        let started := after.setAction action fun queued =>
          { queued with completionEvent := some event, state := .inFlight }
        { outcome := .inFlight
          runtime :=
            if queued.kind = .evict then
              started.setObject queued.object fun object =>
                { object with residency := .evicting }
            else started }
      | _, _ =>
        { outcome := .failed, runtime := after.latchFailure .backendFailure }

/-- The acquired destination moves from the action to the spill location. -/
def moveDestination (destination : Option Nat) : WorkerRuntime :=
  (runtime.setObject (runtime.actions action).object fun object =>
    { object with
      spill :=
        { object.spill with lease := destination, ownsLease := true } }).setAction
    action fun queued => { queued with destinationLease := none }

/-- `shadowspill_action_dispatch_evict_locked`. -/
def dispatchEvict : Result Dispatched :=
  let queued := runtime.actions action
  let object := runtime.objects queued.object
  if object.residency = .fetching then { outcome := .nothing, runtime }
  else
    match object.execution.lease with
    | none => { outcome := .failed, runtime := runtime.latchFailure .invalidState }
    | some allocation =>
      let record := runtime.executionPool.leases allocation
      if ¬ record.registered ∨ object.allocation ≠ some allocation ∨
          record.generation ≠ object.generation then
        { outcome := .failed, runtime := runtime.latchFailure .invalidState }
      else if object.spill.lease ≠ none then
        dispatchToSpill runtime action poll allocation
      else if queued.destinationLease = none then
        { outcome := .failed, runtime := runtime.latchFailure .invalidState }
      else
        let acquired := acquireReservedDestination runtime action poll
        if ¬ acquired.outcome then
          { outcome := .failed
            runtime := acquired.runtime.latchFailure .invalidState
            retryAsked := acquired.retryAsked }
        else
          let moved :=
            moveDestination acquired.runtime action queued.destinationLease
          dispatchToSpill moved action poll allocation

/-- The object while its fetch is in flight. -/
def beginFetch (destination event generation : Nat) (object : Object) : Object :=
  { object with
    allocation := some destination
    generation := generation
    execution :=
      { object.execution with
        lease := some destination
        version := object.spill.version
        current := false }
    readinessEvent := some event
    residency := .fetching
    unpublishedFetchCount := object.unpublishedFetchCount - 1 }

/-- The copy of a fetch, once its destination is acquired and has left the
action. -/
def dispatchFromSpill (destination source : Nat) : Result Dispatched :=
  let queued := runtime.actions action
  let object := runtime.objects queued.object
  if queued.triggerEvent = none then
    { outcome := .failed, runtime := runtime.latchFailure .invalidState }
  else
    match submitTransfer poll with
    | .retry => { outcome := .retry, runtime, retryAsked := true }
    | .failed =>
      { outcome := .failed, runtime := runtime.latchFailure .backendFailure }
    | .submitted event =>
      let retired :=
        if object.retainSpillCopy then (.ok (), runtime.spillPool)
        else beginRetirement runtime.spillPool source (some event) false
      let after := { runtime with spillPool := retired.2 }
      match retired.1, poll.triggerReleased with
      | .ok _, true =>
        if object.residency ≠ .spillOnly ∨ ¬ object.spill.current then
          { outcome := .failed, runtime := after.latchFailure .invalidState }
        else
          let generation := (after.executionPool.leases destination).generation
          let started := (after.setAction action fun queued =>
            { queued with completionEvent := some event, state := .inFlight }).setObject
              queued.object (beginFetch destination event generation)
          if object.unpublishedFetchCount = 0 then
            { outcome := .failed, runtime := started.latchFailure .invalidState }
          else { outcome := .inFlight, runtime := started }
      | _, _ =>
        { outcome := .failed, runtime := after.latchFailure .backendFailure }

/-- `shadowspill_action_dispatch_fetch_locked`. -/
def dispatchFetch : Result Dispatched :=
  let queued := runtime.actions action
  let object := runtime.objects queued.object
  match queued.destinationLease, object.spill.lease with
  | some destination, some source =>
    let acquired := acquireReservedDestination runtime action poll
    if ¬ acquired.outcome then
      { outcome := .failed
        runtime := acquired.runtime.latchFailure .invalidState
        retryAsked := acquired.retryAsked }
    else
      -- The destination leaves the action before the lane has answered.
      let taken := acquired.runtime.setAction action fun queued =>
        { queued with destinationLease := none }
      dispatchFromSpill taken action poll destination source
  | _, _ => { outcome := .failed, runtime := runtime.latchFailure .invalidState }

/-! ## One poll -/

/-- What `shadowspill_object_reset_admitted_action_locked` leaves of an action. -/
def resetAction (queued : QueuedAction) : QueuedAction :=
  { queued with
    active := false
    state := .queued
    scheduledVersion := 0
    producesCurrentExecution := false
    producesCurrentSpill := false
    skipsCopy := false
    retiresWhenProcessed := false
    destinationLease := none
    triggerEvent := none
    completionEvent := none
    dependencyEvent := none }

/-- `shadowspill_action_complete`. -/
def completeAction : WorkerRuntime :=
  let object := (runtime.actions action).object
  if action ∉ (runtime.objects object).actions then
    runtime.latchFailure .invalidState
  else
    (runtime.setObject object fun object =>
      { object with actions := object.actions.erase action }).setAction action resetAction

/-- What the queues read of the actions. -/
def transferActions : Actions Nat where
  background := fun other => (runtime.actions other).background
  sizeBytes := fun other => (runtime.objects (runtime.actions other).object).sizeBytes

/-- From the claim of the queue on. -/
def claimAndDispatch : Result Handled :=
  let kind := (runtime.actions action).kind
  let sizes := transferActions runtime
  match claim sizes (runtime.queue kind) action with
  | none => { outcome := .waiting, runtime }
  | some claimed =>
    let dispatched :=
      if kind = .fetch then dispatchFetch (runtime.setQueue kind claimed) action poll
      else dispatchEvict (runtime.setQueue kind claimed) action poll
    let after := dispatched.runtime
    match dispatched.outcome with
    | .failed =>
      { outcome := .failed, runtime := after, retryAsked := dispatched.retryAsked }
    | .nothing => { outcome := .waiting, runtime := after }
    | .retry =>
      { outcome := .waiting
        runtime := after.setQueue kind (returnAction sizes (after.queue kind) action)
        retryAsked := dispatched.retryAsked }
    | .inFlight =>
      let sequence := (runtime.actions action).collectiveSequence
      let submitted :=
        if sequence ≠ 0 then { after with submittedCollectiveSequence := sequence }
        else after
      { outcome := .dispatched
        runtime := submitted.setQueue kind
          (publishInflight sizes (submitted.queue kind) action) }

/-- `handle_transfer_locked`, as `shadowspill_action_handle` calls it. -/
def handleTransfer : Result Handled :=
  let queued := runtime.actions action
  let object := runtime.objects queued.object
  if queued.collectiveSequence ≠ 0 ∧
      queued.collectiveSequence ≠ runtime.submittedCollectiveSequence + 1 then
    { outcome := .waiting, runtime }
  else if (queued.kind = .fetch ∧ queued.destinationLease = none) ∨
      (queued.copiesToSpill ∧ object.spill.lease = none ∧
        queued.destinationLease = none) then
    { outcome := .failed, runtime := runtime.latchFailure .invalidState }
  else if queued.copiesToSpill ∧ object.residency = .fetching then
    { outcome := .waiting, runtime }
  else if queued.triggerEvent = none then
    { outcome := .failed, runtime := runtime.latchFailure .backendFailure }
  else if queued.kind ≠ .fetch ∧ queued.collectiveSequence = 0 ∧
      ¬ poll.triggerComplete then
    { outcome := .waiting, runtime }
  else if queued.kind = .writeBack ∧ queued.skipsCopy then
    { outcome := .completed, runtime := completeAction runtime action }
  else
    match destinationReady runtime action poll with
    | .violated =>
      { outcome := .failed, runtime := runtime.latchFailure .planViolation }
    | .pending => { outcome := .waiting, runtime }
    | .ready =>
      match (if queued.kind = .fetch then poll.dependencyWaits else none) with
      | some status => { outcome := .failed, runtime := runtime.latchFailure status }
      | none =>
        if object.actions.head? ≠ some action ∨ queued.state ≠ .queued then
          { outcome := .waiting, runtime }
        else if queued.kind = .fetch ∧
            (object.residency ≠ .spillOnly ∨ object.spill.lease = none ∨
              ¬ object.spill.current ∨
              object.spill.version ≠ object.authoritativeVersion) then
          { outcome := .failed, runtime := runtime.latchFailure .planViolation }
        else claimAndDispatch runtime action poll

end Dispatch

end ShadowSpill.Runtime.TransferDispatch
