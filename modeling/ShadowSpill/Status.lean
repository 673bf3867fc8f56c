import Mathlib

/-!
# Status codes

The one status vocabulary of the library, as far as the modelled entry points
report it.  Every other module names its outcomes from here.
-/

namespace ShadowSpill

/-- `ShadowSpillStatus`, by name. -/
inductive Status where
  | ok
  | invalidArgument
  | internalFailure
  | noFeasibleCandidate
  | plannerInternalError
  | analyticInfeasible
  | replayInfeasible
  | invalidOperations
  | initialDeviceCapacity
  | initialSpillCapacity
  | taskInputDeadlock
  | taskDeviceCapacity
  | fetchDeviceCapacity
  | evictSpillCapacity
  | transferDeadlock
  | invalidRelease
  | releaseTransferConflict
  | invalidEvict
  | invalidFetch
  | finalResidency
  | simulationInternalError
  | invalidWriteBack
deriving DecidableEq, Repr

/-- `SHADOWSPILL_ABI_VERSION`. -/
def abiVersion : Nat := 3

end ShadowSpill
