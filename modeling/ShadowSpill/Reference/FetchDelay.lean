import ShadowSpill.Planner.Schedule.Fetches
import ShadowSpill.Reference.BoundaryFacts

/-!
# The readable delay of a fetch

The reference lists the fetches that may fire later, takes the least by size, trigger and
place, and validates the schedule that comes of it.
-/

namespace ShadowSpill.Reference.FetchDelay

open Ir.Program Ir.Indexing Ir.Schedule
open Planner.Schedule.Fetches (SimulationFailure)
open BoundaryFacts

/-- What delaying raises. -/
inductive DelayError where
  /-- `action_priority` has no order for the kind of an action. -/
  | unknownPriority
  | refused (refusal : ScheduleRefusal)
deriving DecidableEq, Repr

/-- `bisect_right`. -/
def bisectRight (values : List Nat) (value : Nat) : Nat :=
  (values.takeWhile (· ≤ value)).length

/-- The first consumer after a trigger. -/
def nextConsumer (facts : AliasFacts) (aliasId trigger : Nat) : Option Nat :=
  (facts.inputTasks aliasId)[bisectRight (facts.inputTasks aliasId) trigger]?

/-! ## Priorities -/

def kindOrder : MemoryActionKind → Option Nat
  | .release => some 0
  | .evict => some 1
  | .fetch => some 2
  | .writeBack => none

abbrev Priority := Nat ×ₗ Nat ×ₗ Nat ×ₗ Nat

/-- `action_priority`. -/
def actionPriority (facts : AliasFacts) (taskCount : Nat) (action : MemoryAction) :
    Option Priority :=
  let consumer :=
    if action.kind = .fetch then
      (nextConsumer facts action.aliasId action.trigger).getD taskCount
    else taskCount
  (kindOrder action.kind).map fun order =>
    toLex (action.trigger, toLex (order, toLex (consumer, action.aliasId)))

/-- `actions.sort(key=action_priority)`. -/
def sortByPriority (facts : AliasFacts) (taskCount : Nat) (actions : List MemoryAction) :
    Option (List MemoryAction) := do
  let keyed ← actions.mapM fun action =>
    (actionPriority facts taskCount action).map fun priority => (priority, action)
  some ((keyed.mergeSort fun left right => left.1 ≤ right.1).map (·.2))

/-! ## Delaying -/

section Delay

variable (program : RetainingProgram) (tasks : List TaskSpec) (facts : AliasFacts)
  (failure : SimulationFailure tasks.length)

/-- The target of an action, if the action is a candidate. -/
def candidateTarget (action : MemoryAction) : Option Nat :=
  if action.kind ≠ .fetch then none
  else if failure.errorAlias.any fun aliasId => action.aliasId ≠ aliasId then none
  else if failure.status = .fetchDeviceCapacity ∧
      failure.errorTask.any fun task : Fin tasks.length => action.trigger ≠ task.val then none
  else if failure.status = .taskDeviceCapacity ∧
      failure.errorTask.any fun task : Fin tasks.length => action.trigger ≥ task.val then none
  else
    let latest :=
      match nextConsumer facts action.aliasId action.trigger with
      | some consumer => consumer - 1
      | none => tasks.length - 1
    let target :=
      match failure.errorTask with
      | some task =>
        if failure.status = .taskDeviceCapacity then max (action.trigger + 1) task.val
        else action.trigger + 1
      | none => action.trigger + 1
    if target > latest then none else some target

abbrev Candidate := ℤ ×ₗ ℤ ×ₗ Nat ×ₗ Nat

def candidate (entry : MemoryAction × Nat) : Option Candidate :=
  (candidateTarget tasks facts failure entry.1).map fun target =>
    toLex (-(aliasSize program.toShadowSpillProgram entry.1.aliasId : ℤ),
      toLex (-(entry.1.trigger : ℤ), toLex (entry.2, target)))

/-- `_delay_fetch`. -/
def delayFetch (schedule : MemorySchedule) : Except DelayError (Option MemorySchedule) :=
  if failure.status ≠ .fetchDeviceCapacity ∧ failure.status ≠ .taskDeviceCapacity then .ok none
  else
    match (schedule.actions.zipIdx.filterMap (candidate program tasks facts failure)).min? with
    | none => .ok none
    | some selected =>
      let selectedIndex := (ofLex (ofLex (ofLex selected).2).2).1
      let target := (ofLex (ofLex (ofLex selected).2).2).2
      let actions := schedule.actions.modify selectedIndex fun action =>
        { action with trigger := target }
      match sortByPriority facts tasks.length actions with
      | none => .error .unknownPriority
      | some sorted =>
        let repaired := { schedule with actions := sorted }
        match validateSelected program tasks repaired with
        | .error refusal => .error (.refused refusal)
        | .ok () => .ok (some repaired)

end Delay

end ShadowSpill.Reference.FetchDelay
