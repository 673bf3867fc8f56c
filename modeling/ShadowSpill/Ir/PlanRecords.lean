import ShadowSpill.Ir.Records

/-!
# Schedules and execution plans by name

A schedule names its tasks and alias groups, and a plan binds a program, a schedule, one
choice for every group, the entrypoints of the tasks that need one, and what was admitted and
predicted.  The rules of a schedule are those of its positions: a name that the program does
not have stands past the end of its table.
-/

namespace ShadowSpill.Ir.PlanRecords

open Validation Records Library.Checks
open Schedule (MemoryActionKind)
open Selection (TaskAlternativeChoice)
open Planner.Residency.Problem (MemoryLocation)

/-! ## Schedules -/

structure ResidencySpec where
  aliasGroupId : String
  location : MemoryLocation
  deriving DecidableEq, Repr

def ResidencySpec.check (item : ResidencySpec) : Constructed Unit :=
  validated (requireIdentifier item.aliasGroupId "residency.alias_group_id")

structure MemoryAction where
  triggerTaskId : String
  aliasGroupId : String
  kind : MemoryActionKind
  deriving DecidableEq, Repr

def MemoryAction.check (action : MemoryAction) : Constructed Unit := do
  validated (requireIdentifier action.triggerTaskId "action.trigger_task_id")
  validated (requireIdentifier action.aliasGroupId "action.alias_group_id")

structure ScheduleFields where
  initialResidency : List ResidencySpec
  actions : List MemoryAction
  finalResidency : List ResidencySpec
  deriving DecidableEq, Repr

def ScheduleFields.check (schedule : ScheduleFields) : Constructed Unit := do
  each (fun _ item => item.check) 0 schedule.initialResidency
  each (fun _ action => action.check) 0 schedule.actions
  each (fun _ item => item.check) 0 schedule.finalResidency
  let _ ← validated (indexUnique "schedule.initial_residency" []
    (schedule.initialResidency.map (·.aliasGroupId)))
  let _ ← validated (indexUnique "schedule.final_residency" []
    (schedule.finalResidency.map (·.aliasGroupId)))
  pure ()

structure MemorySchedule extends ScheduleFields where
  checked : toScheduleFields.check = .ok ()

@[ext] theorem MemorySchedule.ext {schedule other : MemorySchedule}
    (same : schedule.toScheduleFields = other.toScheduleFields) : schedule = other := by
  cases schedule
  cases other
  cases same
  rfl

theorem MemorySchedule.unique (schedule : MemorySchedule) :
    (schedule.initialResidency.map (·.aliasGroupId)).Nodup ∧
      (schedule.finalResidency.map (·.aliasGroupId)).Nodup := by
  have passed := schedule.checked
  unfold ScheduleFields.check at passed
  obtain ⟨_, _, _, _, _, _, _, initial, _, final, _⟩ := by
    simpa only [bind_ok] using passed
  exact ⟨(indexUnique_ok.mp (validated_ok.mp initial)).2.2.1,
    (indexUnique_ok.mp (validated_ok.mp final)).2.2.1⟩

/-! ## A schedule by position -/

/-- The alias groups that a schedule names. -/
def ScheduleFields.aliasNames (schedule : ScheduleFields) : List String :=
  schedule.initialResidency.map (·.aliasGroupId) ++ schedule.actions.map (·.aliasGroupId) ++
    schedule.finalResidency.map (·.aliasGroupId)

/-- Where a name stands in a table, or past its end, apart from every other such name. -/
def placeOf (table unknown : List String) (name : String) : Nat := (table ++ unknown).idxOf name

theorem placeOf_inj {table unknown : List String} {name other : String}
    (mem : name ∈ unknown) (same : placeOf table unknown name = placeOf table unknown other) :
    name = other :=
  (List.idxOf_inj (List.mem_append_right table mem)).mp same

theorem mem_of_placeOf_lt {table unknown : List String} {name : String}
    (inside : placeOf table unknown name < table.length) : name ∈ table := by
  by_contra absent
  rw [placeOf, List.idxOf_append_of_notMem absent] at inside
  omega

section Positions

variable (aliasIds taskIds : List String) (schedule : ScheduleFields)

def placedResidency (items : List ResidencySpec) : List Schedule.ResidencySpec :=
  items.map fun item => ⟨placeOf aliasIds schedule.aliasNames item.aliasGroupId, item.location⟩

def placedActions : List Schedule.MemoryAction :=
  schedule.actions.map fun action => {
    trigger := placeOf taskIds (schedule.actions.map (·.triggerTaskId)) action.triggerTaskId
    aliasId := placeOf aliasIds schedule.aliasNames action.aliasGroupId
    kind := action.kind }

theorem placedResidency_nodup {items : List ResidencySpec}
    (named : ∀ item ∈ items, item.aliasGroupId ∈ schedule.aliasNames)
    (unique : (items.map (·.aliasGroupId)).Nodup) :
    ((placedResidency aliasIds schedule items).map (·.aliasId)).Nodup := by
  have places : (placedResidency aliasIds schedule items).map (·.aliasId) =
      (items.map (·.aliasGroupId)).map (placeOf aliasIds schedule.aliasNames) := by
    unfold placedResidency
    rw [List.map_map, List.map_map]
    rfl
  rw [places]
  refine unique.map_on ?_
  intro name mem other _ same
  obtain ⟨item, inItems, rfl⟩ := List.mem_map.mp mem
  exact placeOf_inj (named item inItems) same

end Positions

/-- The schedule with every name as a position. -/
def MemorySchedule.placed (schedule : MemorySchedule) (aliasIds taskIds : List String) :
    Schedule.MemorySchedule where
  initialResidency := placedResidency aliasIds schedule.toScheduleFields schedule.initialResidency
  actions := placedActions aliasIds taskIds schedule.toScheduleFields
  finalResidency := placedResidency aliasIds schedule.toScheduleFields schedule.finalResidency
  initialUnique := by
    refine placedResidency_nodup aliasIds _ ?_ schedule.unique.1
    intro item mem
    refine List.mem_append_left _ (List.mem_append_left _ ?_)
    exact List.mem_map_of_mem mem
  finalUnique := by
    refine placedResidency_nodup aliasIds _ ?_ schedule.unique.2
    intro item mem
    exact List.mem_append_right _ (List.mem_map_of_mem mem)

/-! ## Plans -/

structure EntrypointSpec where
  taskId : String
  entrypointId : String
  executorId : String
  contractDigest : String
  deriving DecidableEq, Repr

def EntrypointSpec.check (entrypoint : EntrypointSpec) : Constructed Unit := do
  validated (requireIdentifier entrypoint.taskId "entrypoint.task_id")
  validated (requireIdentifier entrypoint.entrypointId "entrypoint.entrypoint_id")
  validated (requireIdentifier entrypoint.executorId "entrypoint.executor_id")
  validated (requireIdentifier entrypoint.contractDigest "entrypoint.contract_digest")

/-- Physical execution and spill admission for one selected plan. -/
structure PhysicalAdmission where
  deviceBudgetBytes : Nat
  spillBudgetBytes : Nat
  baselineBytes : Nat
  externalHeadroomBytes : Nat
  slabBytes : Nat
  workspaceReserveBytes : Nat
  spillReservationBytes : Nat
  predictedFragmentationBytes : Nat
  rejectOverbudget : Bool
  deriving DecidableEq, Repr

def PhysicalAdmission.check (admission : PhysicalAdmission) : Constructed Unit := do
  ensure (admission.baselineBytes + admission.externalHeadroomBytes + admission.slabBytes ≤
      admission.deviceBudgetBytes)
    "admission.device_budget_bytes" "baseline, external headroom, and slab exceed the physical cap"
  ensure (admission.workspaceReserveBytes ≤ admission.slabBytes)
    "admission.workspace_reserve_bytes" "cannot exceed slab bytes"
  ensure (admission.predictedFragmentationBytes ≤ admission.slabBytes)
    "admission.predicted_fragmentation_bytes" "cannot exceed slab bytes"
  ensure (admission.spillReservationBytes ≤ admission.spillBudgetBytes)
    "admission.spill_reservation_bytes" "cannot exceed host budget"

structure PlanPrediction where
  devicePeakBytes : Nat
  spillPeakBytes : Nat
  makespanNs : Nat
  deriving DecidableEq, Repr

def checkChoice (choice : TaskAlternativeChoice) : Constructed Unit := do
  validated (requireIdentifier choice.groupId "selection.group_id")
  validated (requireIdentifier choice.optionId "selection.option_id")

structure PlanFields where
  program : ShadowSpillProgram
  schedule : MemorySchedule
  selections : List TaskAlternativeChoice
  entrypoints : List EntrypointSpec
  admission : PhysicalAdmission
  prediction : PlanPrediction

/-- The rules of a schedule over the active tasks of a program. -/
def checkSchedule (program : ProgramRecord) (outline : Program.ShadowSpillProgram)
    (active : List Program.TaskSpec) (schedule : MemorySchedule) : Constructed Unit :=
  (Schedule.validateSelected
      { toShadowSpillProgram := outline
        retainSpillCopy := fun aliasId =>
          (program.aliasGroups[aliasId]?.map (·.retainSpillCopy)).getD false }
      active
      (schedule.placed (outline.aliasGroups.map (·.aliasGroupId)) (active.map (·.taskId)))).mapError
    .schedule

/-- The active tasks that require an entrypoint. -/
def requiringEntrypoint (program : ProgramRecord) (active : List Program.TaskSpec) :
    List String :=
  (program.tasks.filter fun task =>
    task.taskId ∈ active.map (·.taskId) && task.requiresEntrypoint).map (·.taskId)

/-- The parts of a plan that are constructed for it pass their own checks. -/
def PlanFields.checkParts (plan : PlanFields) : Constructed Unit := do
  each (fun _ choice => checkChoice choice) 0 plan.selections
  each (fun _ entrypoint => entrypoint.check) 0 plan.entrypoints
  plan.admission.check

/-- What constructing a plan checks. -/
def PlanFields.check (plan : PlanFields) : Constructed Unit := do
  plan.checkParts
  let outline ← validated plan.program.outline
  let active ← validated (Selection.selectTasks outline plan.selections)
  checkSchedule plan.program.toProgramRecord outline active plan.schedule
  let entrypointTasks ← validated (indexUnique "plan.entrypoints" []
    (plan.entrypoints.map (·.taskId)))
  let required := requiringEntrypoint plan.program.toProgramRecord active
  ensure (entrypointTasks.all (· ∈ required) && required.all (· ∈ entrypointTasks))
    "plan.entrypoints" "must bind every active task that requires an entrypoint exactly once"
  ensure (plan.prediction.devicePeakBytes ≤ plan.admission.deviceBudgetBytes)
    "plan.prediction.device_peak_bytes" "exceeds physical device budget"
  ensure (plan.prediction.spillPeakBytes ≤ plan.admission.spillBudgetBytes)
    "plan.prediction.spill_peak_bytes" "exceeds host budget"

structure ExecutionPlan extends PlanFields where
  checked : toPlanFields.check = .ok ()

@[ext] theorem ExecutionPlan.ext {plan other : ExecutionPlan}
    (same : plan.toPlanFields = other.toPlanFields) : plan = other := by
  cases plan
  cases other
  cases same
  rfl

end ShadowSpill.Ir.PlanRecords
