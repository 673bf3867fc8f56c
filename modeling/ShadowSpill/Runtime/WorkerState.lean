import ShadowSpill.Runtime.PoolLeases
import ShadowSpill.Runtime.TransferQueues

/-!
# What the worker works on

Objects with their two locations, the actions queued on them, the pools their
leases come from, and the queues in front of the two routes.  Objects, actions
and leases are named by numbers; a pointer to a lease is the number of its
record.
-/

namespace ShadowSpill.Runtime.WorkerState

open PoolLeases

/-! ## Objects -/

/-- `ShadowSpillObjectResidency`. -/
inductive Residency where
  | spillOnly
  | executionReady
  | fetching
  | evicting
  | released
deriving DecidableEq, Repr

/-- `ShadowSpillObjectLocation`. -/
structure Location where
  lease : Option Nat := none
  ownsLease : Bool := false
  current : Bool := false
  version : Nat := 0
deriving DecidableEq, Repr

/-- `ShadowSpillObject`: what the boundaries and the worker read and write of it.
`allocation` names the lease that `allocation_id` finds. -/
structure Object where
  sizeBytes : Nat
  spillBytes : Nat
  retainSpillCopy : Bool
  residency : Residency
  generation : Nat
  authoritativeVersion : Nat
  allocation : Option Nat
  execution : Location
  spill : Location
  /-- `has_readiness_event` and the event. -/
  readinessEvent : Option Nat
  unpublishedFetchCount : Nat
  /-- From `action_head` to `action_tail`. -/
  actions : List Nat
deriving DecidableEq, Repr

/-! ## Actions -/

/-- `ShadowSpillRuntimeActionKind`. -/
inductive ActionKind where
  | release
  | evict
  | fetch
  | writeBack
deriving DecidableEq, Repr

/-- `ShadowSpillQueuedActionState`. -/
inductive ActionState where
  | queued
  | inFlight
  | finished
deriving DecidableEq, Repr

/-- `ShadowSpillQueuedAction`: what is admitted of it, and what one invocation
sets. -/
structure QueuedAction where
  kind : ActionKind
  object : Nat
  background : Bool
  active : Bool
  state : ActionState
  scheduledVersion : Nat
  producesCurrentExecution : Bool
  producesCurrentSpill : Bool
  skipsCopy : Bool
  retiresWhenProcessed : Bool
  collectiveSequence : Nat
  destinationLease : Option Nat
  triggerEvent : Option Nat
  /-- `has_completion_event` and the event. -/
  completionEvent : Option Nat
  dependencyEvent : Option Nat
deriving DecidableEq, Repr

/-- Actions that write the spill copy. -/
def QueuedAction.copiesToSpill (action : QueuedAction) : Bool :=
  action.kind == .evict || (action.kind == .writeBack && !action.skipsCopy)

/-! ## The runtime -/

/-- `ShadowSpillStatus` of a latched failure. -/
inductive Failure where
  | invalidState
  | planViolation
  | backendFailure
deriving DecidableEq, Repr

/-- The parts of the runtime a worker pass reads and writes. -/
structure WorkerRuntime where
  objects : Nat → Object
  actions : Nat → QueuedAction
  executionPool : MemoryPool
  spillPool : MemoryPool
  fetchQueue : TransferQueues.Memory Nat
  evictQueue : TransferQueues.Memory Nat
  submittedCollectiveSequence : Nat
  /-- The first failure latched. -/
  failure : Option Failure

namespace WorkerRuntime

variable (runtime : WorkerRuntime)

/-- Only the first failure is kept. -/
def latchFailure (status : Failure) : WorkerRuntime :=
  { runtime with failure := runtime.failure.or (some status) }

def setObject (object : Nat) (change : Object → Object) : WorkerRuntime :=
  { runtime with
    objects := Function.update runtime.objects object (change (runtime.objects object)) }

def setAction (action : Nat) (change : QueuedAction → QueuedAction) : WorkerRuntime :=
  { runtime with
    actions := Function.update runtime.actions action (change (runtime.actions action)) }

/-- The pool a transfer of this kind writes to. -/
def destinationPool (kind : ActionKind) : MemoryPool :=
  if kind = .fetch then runtime.executionPool else runtime.spillPool

def setDestinationPool (kind : ActionKind) (pool : MemoryPool) : WorkerRuntime :=
  if kind = .fetch then { runtime with executionPool := pool }
  else { runtime with spillPool := pool }

/-- The queue of the route a transfer of this kind takes. -/
def queue (kind : ActionKind) : TransferQueues.Memory Nat :=
  if kind = .fetch then runtime.fetchQueue else runtime.evictQueue

def setQueue (kind : ActionKind) (queue : TransferQueues.Memory Nat) : WorkerRuntime :=
  if kind = .fetch then { runtime with fetchQueue := queue }
  else { runtime with evictQueue := queue }

end WorkerRuntime

end ShadowSpill.Runtime.WorkerState
