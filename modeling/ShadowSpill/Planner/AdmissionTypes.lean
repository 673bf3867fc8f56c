import ShadowSpill.Planner.PlacementOrder

/-!
# Pool operations and leases

What the admission passes hand to each other: the pool operations a schedule
implies, the leases they create and retire, and why.  Columns that the source
keeps in arrays indexed alike are fields of one record here, and an index that
may be absent is an option.
-/

namespace ShadowSpill.Planner.AdmissionTypes

open PlacementOrder

/-- `ShadowSpillAdmissionReplayOperationKind`. -/
inductive OperationKind where
  | acquire
  | beginRetirement
  | publishDependency
  | reserve
  | acquireReserved
  | completeRetirement
  | release
deriving DecidableEq, Repr

/-- `ShadowSpillAdmissionBoundaryKind`: where in the step an operation sits. -/
inductive BoundaryKind where
  | initial
  | taskStart
  | taskCompletion
  | actionTrigger
  | actionCompletion
deriving DecidableEq, Repr

/-- `ShadowSpillAdmissionPurpose`: why a lease exists. -/
inductive Purpose where
  | initialObject
  | taskWorkspace
  | taskOutput
  | mutationReplacement
  | release
  | eviction
  | fetchDestination
  | terminalCompletion
deriving DecidableEq, Repr

/-- One pool operation with its provenance.  Its sequence is its index. -/
structure AdmissionOperation where
  leaseId : Nat
  dependencyId : Option Nat
  bytes : Nat
  alignment : Nat
  kind : OperationKind
  purpose : Purpose
  boundary : BoundaryKind
  index : Nat
  allocationOffset : Option Nat
deriving DecidableEq, Repr

/-- One lease: its alias, and the operations that create and retire it. -/
structure LeaseRecord where
  aliasIndex : Option Nat
  start : Nat
  retire : Option Nat
deriving DecidableEq, Repr

/-- `ShadowSpillAdmissionOperations`. -/
structure AdmissionOperations where
  operations : List AdmissionOperation
  leases : List LeaseRecord
  dependencyCount : Nat
  fetchBytes : Nat
  evictBytes : Nat
deriving DecidableEq, Repr

/-- The residency actions a schedule may ask for. -/
inductive ActionKind where
  | release
  | evict
  | fetch
  | writeBack
deriving DecidableEq, Repr

/-- One action of a schedule, with the task it triggers on. -/
structure ScheduleAction where
  triggerTask : Nat
  aliasIndex : Nat
  kind : ActionKind
deriving DecidableEq, Repr

/-- Where an object is. -/
inductive MemoryLocation where
  | device
  | spill
deriving DecidableEq, Repr

/-- `ShadowSpillIndexedSchedule`. -/
structure IndexedSchedule where
  actions : List ScheduleAction
  initial : List (Nat × MemoryLocation)
  final : List (Nat × MemoryLocation)
deriving DecidableEq, Repr

/-- `ShadowSpillLeaseIdentity`: everything about a lease but when it is live. -/
structure LeaseIdentity where
  leaseId : Nat
  causalStart : Nat
  causalEnd : Nat
  task : Option Nat
  aliasIndex : Option Nat
  action : Option Nat
  purpose : Purpose
deriving DecidableEq, Repr

/-- A placed lease. -/
structure PlacedLease where
  lifetime : LeaseLifetime
  identity : LeaseIdentity
  offset : Nat
deriving DecidableEq, Repr

end ShadowSpill.Planner.AdmissionTypes
