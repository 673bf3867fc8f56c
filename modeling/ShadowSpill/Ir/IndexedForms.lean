import ShadowSpill.Ir.PlanRecords
import ShadowSpill.Library.NameTables

/-!
# Indexed forms

A program, a schedule and a plan as flat arrays: identities are positions in the program's
tables, in declared order, and rows are packed into one column with their offsets.  A name
that its table lacks has no indexed form.
-/

namespace ShadowSpill.Ir.IndexedForms

open Records PlanRecords Library.NameTables
open Program (SharedResidencyPolicy TaskAlternativeGroup)
open Schedule (MemoryActionKind)
open Planner.Residency.Problem (MemoryLocation)

/-! ## Codes -/

def resourceKindCode : ResourceKind → Nat
  | .compute => 0
  | .communication => 1
  | .control => 2

def objectRoleCode : ObjectRole → Nat
  | .input => 0
  | .parameter => 1
  | .buffer => 2
  | .activation => 3
  | .gradient => 4
  | .optimizerState => 5
  | .output => 6
  | .other => 7
  | .control => 8

def persistenceCode : Persistence → Nat
  | .step => 0
  | .run => 1
  | .checkpoint => 2

def sharedResidencyCode : Option SharedResidencyPolicy → Nat
  | none => 0
  | some .sharedReadOnly => 1
  | some .sharedWritableCausal => 2
  | some .sharedWritableUnordered => 3

def memoryLocationCode : MemoryLocation → Nat
  | .device => 0
  | .spill => 1

def memoryActionCode : MemoryActionKind → Nat
  | .release => 0
  | .evict => 1
  | .fetch => 2
  | .writeBack => 3

theorem resourceKindCode_injective : Function.Injective resourceKindCode := by
  intro kind other same
  cases kind <;> cases other <;> first | rfl | cases same

theorem objectRoleCode_injective : Function.Injective objectRoleCode := by
  intro role second same
  cases role <;> cases second <;> first | rfl | cases same

theorem persistenceCode_injective : Function.Injective persistenceCode := by
  intro persistence other same
  cases persistence <;> cases other <;> first | rfl | cases same

theorem sharedResidencyCode_injective : Function.Injective sharedResidencyCode := by
  intro policy other same
  rcases policy with _ | ⟨⟨⟩⟩ <;> rcases other with _ | ⟨⟨⟩⟩ <;> first | rfl | cases same

theorem memoryLocationCode_injective : Function.Injective memoryLocationCode := by
  intro location other same
  cases location <;> cases other <;> first | rfl | cases same

theorem memoryActionCode_injective : Function.Injective memoryActionCode := by
  intro kind other same
  cases kind <;> cases other <;> first | rfl | cases same

/-! ## Forms -/

/-- Indexed projection of a program. -/
structure IndexedProgram where
  deviceIds : List String
  deviceProcessIds : List String
  deviceKinds : List String
  deviceIndices : List Nat
  aliasGroupIds : List String
  objectIds : List String
  profileIds : List String
  taskIds : List String
  taskAlternativeGroupIds : List String
  taskAlternativeOptionIds : List String
  aliasDevice : List Nat
  aliasSizeBytes : List Nat
  aliasInitialVersion : List Nat
  aliasRetainSpillCopy : List Bool
  aliasSharedResidency : List Nat
  objectAliasGroup : List Nat
  objectOffsetBytes : List Nat
  objectSizeBytes : List Nat
  objectRole : List Nat
  objectPersistence : List Nat
  profileRuntimeNs : List Nat
  profileWorkspaceBytes : List Nat
  profileCompatibilityDigests : List String
  taskDevice : List Nat
  taskResourceKind : List Nat
  taskResourceLane : List Nat
  taskProfile : List Nat
  taskPhases : List String
  taskRequiresEntrypoint : List Bool
  dependencyOffsets : List Nat
  dependencies : List Nat
  inputOffsets : List Nat
  inputs : List Nat
  outputOffsets : List Nat
  outputs : List Nat
  mutationOffsets : List Nat
  mutationObjects : List Nat
  mutationVersionDeltas : List Nat
  groupOptionOffsets : List Nat
  optionActiveTaskOffsets : List Nat
  optionActiveTasks : List Nat
  optionRetainedAliasOffsets : List Nat
  optionRetainedAliases : List Nat
  deriving DecidableEq, Repr

/-- Indexed projection of a schedule. -/
structure IndexedMemorySchedule where
  initialAliases : List Nat
  initialLocations : List Nat
  actionTriggerTasks : List Nat
  actionAliases : List Nat
  actionKinds : List Nat
  finalAliases : List Nat
  finalLocations : List Nat
  deriving DecidableEq, Repr

/-- Indexed runtime admission projection of a plan. -/
structure IndexedExecutionPlan where
  program : IndexedProgram
  schedule : IndexedMemorySchedule
  selectionGroups : List Nat
  selectionOptions : List Nat
  entrypointTasks : List Nat
  entrypointIds : List String
  entrypointExecutorIds : List String
  entrypointContractDigests : List String
  deviceBudgetBytes : Nat
  spillBudgetBytes : Nat
  baselineBytes : Nat
  externalHeadroomBytes : Nat
  rejectOverbudget : Bool
  slabBytes : Nat
  workspaceReserveBytes : Nat
  spillReservationBytes : Nat
  predictedFragmentationBytes : Nat
  predictedDevicePeakBytes : Nat
  predictedSpillPeakBytes : Nat
  predictedMakespanNs : Nat
  deriving DecidableEq, Repr

/-! ## Indexing -/

/-- Where the options of each group start. -/
def groupOptionOffsets (groups : List TaskAlternativeGroup) : List Nat :=
  (groups.map fun group => group.options.length).scanl (· + ·) 0

/-- Project a program without changing declared order. -/
def indexProgram (program : ProgramRecord) : Option IndexedProgram := do
  let deviceIds := program.devices.map (·.deviceId)
  let aliasIds := program.aliasGroups.map (·.aliasGroupId)
  let objectIds := program.objects.map (·.objectId)
  let profileIds := program.profiles.map (·.profileId)
  let taskIds := program.tasks.map (·.taskId)
  let options := program.taskAlternativeGroups.flatMap (·.options)
  let dependencies ← flattenStrings (program.tasks.map (·.dependencies)) taskIds
  let inputs ← flattenStrings (program.tasks.map (·.inputs)) objectIds
  let outputs ← flattenStrings (program.tasks.map (·.outputs)) objectIds
  let mutations ← flattenStrings
    (program.tasks.map fun task => task.mutations.map (·.objectId)) objectIds
  let optionActiveTasks ← flattenStrings (options.map (·.activeTaskIds)) taskIds
  let optionRetainedAliases ← flattenStrings (options.map (·.retainedAliasGroupIds)) aliasIds
  let aliasDevice ← positions deviceIds (program.aliasGroups.map (·.deviceId))
  let objectAliasGroup ← positions aliasIds (program.objects.map (·.aliasGroupId))
  let taskDevice ← positions deviceIds (program.tasks.map (·.resource.deviceId))
  let taskProfile ← positions profileIds (program.tasks.map (·.profileId))
  pure {
    deviceIds := deviceIds
    deviceProcessIds := program.devices.map (·.processId)
    deviceKinds := program.devices.map (·.kind)
    deviceIndices := program.devices.map (·.index)
    aliasGroupIds := aliasIds
    objectIds := objectIds
    profileIds := profileIds
    taskIds := taskIds
    taskAlternativeGroupIds := program.taskAlternativeGroups.map (·.groupId)
    taskAlternativeOptionIds := options.map (·.optionId)
    aliasDevice := aliasDevice
    aliasSizeBytes := program.aliasGroups.map (·.sizeBytes)
    aliasInitialVersion := program.aliasGroups.map (·.initialVersion)
    aliasRetainSpillCopy := program.aliasGroups.map (·.retainSpillCopy)
    aliasSharedResidency :=
      program.aliasGroups.map fun item => sharedResidencyCode item.sharedResidency
    objectAliasGroup := objectAliasGroup
    objectOffsetBytes := program.objects.map (·.offsetBytes)
    objectSizeBytes := program.objects.map (·.sizeBytes)
    objectRole := program.objects.map fun item => objectRoleCode item.role
    objectPersistence := program.objects.map fun item => persistenceCode item.persistence
    profileRuntimeNs := program.profiles.map (·.runtimeNs)
    profileWorkspaceBytes := program.profiles.map (·.workspaceBytes)
    profileCompatibilityDigests := program.profiles.map (·.compatibilityDigest)
    taskDevice := taskDevice
    taskResourceKind := program.tasks.map fun task => resourceKindCode task.resource.kind
    taskResourceLane := program.tasks.map (·.resource.lane)
    taskProfile := taskProfile
    taskPhases := program.tasks.map (·.phase)
    taskRequiresEntrypoint := program.tasks.map (·.requiresEntrypoint)
    dependencyOffsets := dependencies.1
    dependencies := dependencies.2
    inputOffsets := inputs.1
    inputs := inputs.2
    outputOffsets := outputs.1
    outputs := outputs.2
    mutationOffsets := mutations.1
    mutationObjects := mutations.2
    mutationVersionDeltas :=
      program.tasks.flatMap fun task => task.mutations.map (·.versionDelta)
    groupOptionOffsets := groupOptionOffsets program.taskAlternativeGroups
    optionActiveTaskOffsets := optionActiveTasks.1
    optionActiveTasks := optionActiveTasks.2
    optionRetainedAliasOffsets := optionRetainedAliases.1
    optionRetainedAliases := optionRetainedAliases.2 }

/-- Project schedule identities through the positions of a program. -/
def indexMemorySchedule (program : ProgramRecord) (schedule : ScheduleFields) :
    Option IndexedMemorySchedule := do
  let aliasIds := program.aliasGroups.map (·.aliasGroupId)
  let taskIds := program.tasks.map (·.taskId)
  let initialAliases ← positions aliasIds (schedule.initialResidency.map (·.aliasGroupId))
  let actionTriggerTasks ← positions taskIds (schedule.actions.map (·.triggerTaskId))
  let actionAliases ← positions aliasIds (schedule.actions.map (·.aliasGroupId))
  let finalAliases ← positions aliasIds (schedule.finalResidency.map (·.aliasGroupId))
  pure {
    initialAliases := initialAliases
    initialLocations :=
      schedule.initialResidency.map fun item => memoryLocationCode item.location
    actionTriggerTasks := actionTriggerTasks
    actionAliases := actionAliases
    actionKinds := schedule.actions.map fun action => memoryActionCode action.kind
    finalAliases := finalAliases
    finalLocations := schedule.finalResidency.map fun item => memoryLocationCode item.location }

/-- Every option with its group, in declared order. -/
def optionKeys (groups : List TaskAlternativeGroup) : List (String × String) :=
  groups.flatMap fun group => group.options.map fun option => (group.groupId, option.optionId)

/-- Project all runtime-facing identities and admission values. -/
def indexExecutionPlan (plan : PlanFields) : Option IndexedExecutionPlan := do
  let indexedProgram ← indexProgram plan.program.toProgramRecord
  let schedule ← indexMemorySchedule plan.program.toProgramRecord plan.schedule.toScheduleFields
  let selectionGroups ← positions indexedProgram.taskAlternativeGroupIds
    (plan.selections.map (·.groupId))
  let selectionOptions ← positions (optionKeys plan.program.taskAlternativeGroups)
    (plan.selections.map fun item => (item.groupId, item.optionId))
  let entrypointTasks ← positions indexedProgram.taskIds (plan.entrypoints.map (·.taskId))
  pure {
    program := indexedProgram
    schedule := schedule
    selectionGroups := selectionGroups
    selectionOptions := selectionOptions
    entrypointTasks := entrypointTasks
    entrypointIds := plan.entrypoints.map (·.entrypointId)
    entrypointExecutorIds := plan.entrypoints.map (·.executorId)
    entrypointContractDigests := plan.entrypoints.map (·.contractDigest)
    deviceBudgetBytes := plan.admission.deviceBudgetBytes
    spillBudgetBytes := plan.admission.spillBudgetBytes
    baselineBytes := plan.admission.baselineBytes
    externalHeadroomBytes := plan.admission.externalHeadroomBytes
    rejectOverbudget := plan.admission.rejectOverbudget
    slabBytes := plan.admission.slabBytes
    workspaceReserveBytes := plan.admission.workspaceReserveBytes
    spillReservationBytes := plan.admission.spillReservationBytes
    predictedFragmentationBytes := plan.admission.predictedFragmentationBytes
    predictedDevicePeakBytes := plan.prediction.devicePeakBytes
    predictedSpillPeakBytes := plan.prediction.spillPeakBytes
    predictedMakespanNs := plan.prediction.makespanNs }

end ShadowSpill.Ir.IndexedForms
