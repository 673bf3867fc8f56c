import ShadowSpill.Ir.IndexedForms

/-!
# What indexing keeps

Every column of an indexed form is a column of the records it projects.  The columns of a
program together are the program without its transfer recipes and timing measurements, and
those of a schedule are the schedule.  Indices stay inside the tables they point into, and
offsets delimit the values they cut.
-/

namespace ShadowSpill.Ir.IndexFacts

open Records PlanRecords IndexedForms Library.NameTables
open Program (TaskAlternativeGroup TaskAlternativeOption)

/-! ## Programs -/

/-- The columns of a program. -/
structure ProjectsProgram (program : ProgramRecord) (form : IndexedProgram) : Prop where
  deviceIds : form.deviceIds = program.devices.map (·.deviceId)
  deviceProcessIds : form.deviceProcessIds = program.devices.map (·.processId)
  deviceKinds : form.deviceKinds = program.devices.map (·.kind)
  deviceIndices : form.deviceIndices = program.devices.map (·.index)
  aliasGroupIds : form.aliasGroupIds = program.aliasGroups.map (·.aliasGroupId)
  objectIds : form.objectIds = program.objects.map (·.objectId)
  profileIds : form.profileIds = program.profiles.map (·.profileId)
  taskIds : form.taskIds = program.tasks.map (·.taskId)
  groupIds : form.taskAlternativeGroupIds = program.taskAlternativeGroups.map (·.groupId)
  optionIds : form.taskAlternativeOptionIds =
    (program.taskAlternativeGroups.flatMap (·.options)).map (·.optionId)
  aliasDevice :
    positions form.deviceIds (program.aliasGroups.map (·.deviceId)) = some form.aliasDevice
  aliasSizeBytes : form.aliasSizeBytes = program.aliasGroups.map (·.sizeBytes)
  aliasInitialVersion : form.aliasInitialVersion = program.aliasGroups.map (·.initialVersion)
  aliasRetainSpillCopy : form.aliasRetainSpillCopy = program.aliasGroups.map (·.retainSpillCopy)
  aliasSharedResidency : form.aliasSharedResidency =
    program.aliasGroups.map fun item => sharedResidencyCode item.sharedResidency
  objectAliasGroup : positions form.aliasGroupIds (program.objects.map (·.aliasGroupId)) =
    some form.objectAliasGroup
  objectOffsetBytes : form.objectOffsetBytes = program.objects.map (·.offsetBytes)
  objectSizeBytes : form.objectSizeBytes = program.objects.map (·.sizeBytes)
  objectRole : form.objectRole = program.objects.map fun item => objectRoleCode item.role
  objectPersistence : form.objectPersistence =
    program.objects.map fun item => persistenceCode item.persistence
  profileRuntimeNs : form.profileRuntimeNs = program.profiles.map (·.runtimeNs)
  profileWorkspaceBytes : form.profileWorkspaceBytes = program.profiles.map (·.workspaceBytes)
  profileCompatibilityDigests : form.profileCompatibilityDigests =
    program.profiles.map (·.compatibilityDigest)
  taskDevice :
    positions form.deviceIds (program.tasks.map (·.resource.deviceId)) = some form.taskDevice
  taskResourceKind : form.taskResourceKind =
    program.tasks.map fun task => resourceKindCode task.resource.kind
  taskResourceLane : form.taskResourceLane = program.tasks.map (·.resource.lane)
  taskProfile : positions form.profileIds (program.tasks.map (·.profileId)) = some form.taskProfile
  taskPhases : form.taskPhases = program.tasks.map (·.phase)
  taskRequiresEntrypoint : form.taskRequiresEntrypoint = program.tasks.map (·.requiresEntrypoint)
  dependencies : flattenStrings (program.tasks.map (·.dependencies)) form.taskIds =
    some (form.dependencyOffsets, form.dependencies)
  inputs : flattenStrings (program.tasks.map (·.inputs)) form.objectIds =
    some (form.inputOffsets, form.inputs)
  outputs : flattenStrings (program.tasks.map (·.outputs)) form.objectIds =
    some (form.outputOffsets, form.outputs)
  mutations :
    flattenStrings (program.tasks.map fun task => task.mutations.map (·.objectId))
      form.objectIds = some (form.mutationOffsets, form.mutationObjects)
  mutationVersionDeltas : form.mutationVersionDeltas =
    program.tasks.flatMap fun task => task.mutations.map (·.versionDelta)
  groupOptionOffsets : form.groupOptionOffsets =
    IndexedForms.groupOptionOffsets program.taskAlternativeGroups
  optionActiveTasks :
    flattenStrings
      ((program.taskAlternativeGroups.flatMap (·.options)).map (·.activeTaskIds))
      form.taskIds = some (form.optionActiveTaskOffsets, form.optionActiveTasks)
  optionRetainedAliases :
    flattenStrings
      ((program.taskAlternativeGroups.flatMap (·.options)).map (·.retainedAliasGroupIds))
      form.aliasGroupIds = some (form.optionRetainedAliasOffsets, form.optionRetainedAliases)

theorem indexProgram_some {program : ProgramRecord} {form : IndexedProgram}
    (indexed : indexProgram program = some form) : ProjectsProgram program form := by
  simp only [indexProgram, Option.bind_eq_bind, Option.bind_eq_some_iff, Option.pure_def,
    Option.some_inj] at indexed
  obtain ⟨_, dependencies, _, inputs, _, outputs, _, mutations, _, active, _, retained,
    _, aliasDevice, _, objectAlias, _, taskDevice, _, taskProfile, rfl⟩ := indexed
  constructor
  case aliasDevice => exact aliasDevice
  case objectAliasGroup => exact objectAlias
  case taskDevice => exact taskDevice
  case taskProfile => exact taskProfile
  case dependencies => exact dependencies
  case inputs => exact inputs
  case outputs => exact outputs
  case mutations => exact mutations
  case optionActiveTasks => exact active
  case optionRetainedAliases => exact retained
  all_goals rfl

/-! ## Reading the records back -/

section Columns

variable {program other : ProgramRecord} {form : IndexedProgram}

theorem devices_eq (first : ProjectsProgram program form)
    (second : ProjectsProgram other form) : program.devices = other.devices := by
  have columns := map_pair (first.deviceIds.symm.trans second.deviceIds)
    (map_pair (first.deviceProcessIds.symm.trans second.deviceProcessIds)
      (map_pair (first.deviceKinds.symm.trans second.deviceKinds)
        (first.deviceIndices.symm.trans second.deviceIndices)))
  refine List.map_injective_iff.mpr ?_ columns
  rintro ⟨_, _, _, _⟩ ⟨_, _, _, _⟩ same
  cases same
  rfl

theorem aliasGroups_eq (first : ProjectsProgram program form)
    (second : ProjectsProgram other form) :
    program.aliasGroups.map (·.untimed) = other.aliasGroups.map (·.untimed) := by
  have devices := positions_injective first.aliasDevice second.aliasDevice
  have columns := map_pair (first.aliasGroupIds.symm.trans second.aliasGroupIds)
    (map_pair devices
      (map_pair (first.aliasSizeBytes.symm.trans second.aliasSizeBytes)
        (map_pair (first.aliasInitialVersion.symm.trans second.aliasInitialVersion)
          (map_pair (first.aliasRetainSpillCopy.symm.trans second.aliasRetainSpillCopy)
            (first.aliasSharedResidency.symm.trans second.aliasSharedResidency)))))
  refine map_of_map columns ?_
  rintro ⟨_, _, _, _, _, _, _⟩ ⟨_, _, _, _, _, _, _⟩ same
  simp only [Prod.mk.injEq, sharedResidencyCode_injective.eq_iff] at same
  obtain ⟨rfl, rfl, rfl, rfl, rfl, rfl⟩ := same
  rfl

theorem objects_eq (first : ProjectsProgram program form)
    (second : ProjectsProgram other form) : program.objects = other.objects := by
  have groups := positions_injective first.objectAliasGroup second.objectAliasGroup
  have columns := map_pair (first.objectIds.symm.trans second.objectIds)
    (map_pair groups
      (map_pair (first.objectOffsetBytes.symm.trans second.objectOffsetBytes)
        (map_pair (first.objectSizeBytes.symm.trans second.objectSizeBytes)
          (map_pair (first.objectRole.symm.trans second.objectRole)
            (first.objectPersistence.symm.trans second.objectPersistence)))))
  refine List.map_injective_iff.mpr ?_ columns
  rintro ⟨_, _, _, _, _, _⟩ ⟨_, _, _, _, _, _⟩ same
  simp only [Prod.mk.injEq, objectRoleCode_injective.eq_iff,
    persistenceCode_injective.eq_iff] at same
  obtain ⟨rfl, rfl, rfl, rfl, rfl, rfl⟩ := same
  rfl

theorem profiles_eq (first : ProjectsProgram program form)
    (second : ProjectsProgram other form) :
    program.profiles.map (·.untimed) = other.profiles.map (·.untimed) := by
  have columns := map_pair (first.profileIds.symm.trans second.profileIds)
    (map_pair (first.profileRuntimeNs.symm.trans second.profileRuntimeNs)
      (map_pair (first.profileWorkspaceBytes.symm.trans second.profileWorkspaceBytes)
        (first.profileCompatibilityDigests.symm.trans second.profileCompatibilityDigests)))
  refine map_of_map columns ?_
  rintro ⟨_, _, _, _, _, _⟩ ⟨_, _, _, _, _, _⟩ same
  cases same
  rfl

/-- The rows of objects that tasks mutate cut the column of version deltas too. -/
theorem mutations_eq (first : ProjectsProgram program form)
    (second : ProjectsProgram other form) :
    program.tasks.map (·.mutations) = other.tasks.map (·.mutations) := by
  have ragged := flattenStrings_injective first.mutations second.mutations
  have packed := first.mutationVersionDeltas.symm.trans second.mutationVersionDeltas
  have rows : ∀ tasks : List TaskSpec,
      (tasks.map fun task => task.mutations.map (·.objectId)) =
        (tasks.map (·.mutations)).map (List.map (·.objectId)) := by
    intro tasks
    rw [List.map_map]
    rfl
  have deltas : ∀ tasks : List TaskSpec,
      (tasks.flatMap fun task => task.mutations.map (·.versionDelta)) =
        (tasks.map (·.mutations)).flatten.map (·.versionDelta) := by
    intro tasks
    rw [List.map_flatten, List.map_map, List.flatMap_def]
    rfl
  rw [rows, rows] at ragged
  rw [deltas, deltas] at packed
  refine rows_of_columns ragged packed ?_
  rintro ⟨_, _⟩ ⟨_, _⟩ rfl rfl
  rfl

theorem tasks_eq (first : ProjectsProgram program form)
    (second : ProjectsProgram other form) : program.tasks = other.tasks := by
  have devices := positions_injective first.taskDevice second.taskDevice
  have profiles := positions_injective first.taskProfile second.taskProfile
  have dependencies := flattenStrings_injective first.dependencies second.dependencies
  have inputs := flattenStrings_injective first.inputs second.inputs
  have outputs := flattenStrings_injective first.outputs second.outputs
  have columns := map_pair (first.taskIds.symm.trans second.taskIds)
    (map_pair devices
      (map_pair (first.taskResourceKind.symm.trans second.taskResourceKind)
        (map_pair (first.taskResourceLane.symm.trans second.taskResourceLane)
          (map_pair profiles
            (map_pair dependencies
              (map_pair inputs
                (map_pair outputs
                  (map_pair (mutations_eq first second)
                    (map_pair (first.taskPhases.symm.trans second.taskPhases)
                      (first.taskRequiresEntrypoint.symm.trans
                        second.taskRequiresEntrypoint))))))))))
  refine List.map_injective_iff.mpr ?_ columns
  rintro ⟨_, ⟨_, _, _⟩, _, _, _, _, _, _, _⟩ ⟨_, ⟨_, _, _⟩, _, _, _, _, _, _, _⟩ same
  simp only [Prod.mk.injEq, resourceKindCode_injective.eq_iff] at same
  obtain ⟨rfl, rfl, rfl, rfl, rfl, rfl, rfl, rfl, rfl, rfl, rfl⟩ := same
  rfl

theorem options_eq (first : ProjectsProgram program form)
    (second : ProjectsProgram other form) :
    program.taskAlternativeGroups.flatMap (·.options) =
      other.taskAlternativeGroups.flatMap (·.options) := by
  have columns := map_pair (first.optionIds.symm.trans second.optionIds)
    (map_pair (flattenStrings_injective first.optionActiveTasks second.optionActiveTasks)
      (flattenStrings_injective first.optionRetainedAliases second.optionRetainedAliases))
  refine List.map_injective_iff.mpr ?_ columns
  rintro ⟨⟨_, _, _⟩, _⟩ ⟨⟨_, _, _⟩, _⟩ same
  cases same
  rfl

theorem taskAlternativeGroups_eq (first : ProjectsProgram program form)
    (second : ProjectsProgram other form) :
    program.taskAlternativeGroups = other.taskAlternativeGroups := by
  have lengths := scanl_add_injective
    (first.groupOptionOffsets.symm.trans second.groupOptionOffsets)
  have rows : program.taskAlternativeGroups.map (·.options) =
      other.taskAlternativeGroups.map (·.options) := by
    rw [List.eq_iff_flatten_eq, List.map_map, List.map_map]
    refine ⟨?_, lengths⟩
    rw [← List.flatMap_def, ← List.flatMap_def]
    exact options_eq first second
  refine List.map_injective_iff.mpr ?_
    (map_pair (first.groupIds.symm.trans second.groupIds) rows)
  rintro ⟨⟨_, _⟩, _⟩ ⟨⟨_, _⟩, _⟩ same
  cases same
  rfl

/-- Together the columns are the program without its recipes and measurements. -/
theorem untimed_eq (first : ProjectsProgram program form)
    (second : ProjectsProgram other form) : program.untimed = other.untimed := by
  unfold ProgramRecord.untimed
  rw [devices_eq first second, aliasGroups_eq first second, objects_eq first second,
    profiles_eq first second, tasks_eq first second, taskAlternativeGroups_eq first second]

end Columns

/-- No column is about a recipe or a measurement. -/
theorem indexProgram_untimed (program : ProgramRecord) :
    indexProgram program.untimed = indexProgram program := by
  unfold indexProgram ProgramRecord.untimed
  simp only [List.map_map]
  rfl

/-! ## Indices and offsets of a program -/

/-- Every index is inside its table, and all offsets delimit their values. -/
structure InRange (form : IndexedProgram) : Prop where
  aliasDevice : ∀ index ∈ form.aliasDevice, index < form.deviceIds.length
  objectAliasGroup : ∀ index ∈ form.objectAliasGroup, index < form.aliasGroupIds.length
  taskDevice : ∀ index ∈ form.taskDevice, index < form.deviceIds.length
  taskProfile : ∀ index ∈ form.taskProfile, index < form.profileIds.length
  dependencies : ∀ index ∈ form.dependencies, index < form.taskIds.length
  inputs : ∀ index ∈ form.inputs, index < form.objectIds.length
  outputs : ∀ index ∈ form.outputs, index < form.objectIds.length
  mutationObjects : ∀ index ∈ form.mutationObjects, index < form.objectIds.length
  optionActiveTasks : ∀ index ∈ form.optionActiveTasks, index < form.taskIds.length
  optionRetainedAliases :
    ∀ index ∈ form.optionRetainedAliases, index < form.aliasGroupIds.length
  dependencyOffsets :
    Delimits form.dependencyOffsets form.taskIds.length form.dependencies.length
  inputOffsets : Delimits form.inputOffsets form.taskIds.length form.inputs.length
  outputOffsets : Delimits form.outputOffsets form.taskIds.length form.outputs.length
  mutationOffsets :
    Delimits form.mutationOffsets form.taskIds.length form.mutationObjects.length
  mutationDeltas : form.mutationVersionDeltas.length = form.mutationObjects.length
  groupOptionOffsets : Delimits form.groupOptionOffsets form.taskAlternativeGroupIds.length
    form.taskAlternativeOptionIds.length
  optionActiveTaskOffsets : Delimits form.optionActiveTaskOffsets
    form.taskAlternativeOptionIds.length form.optionActiveTasks.length
  optionRetainedAliasOffsets : Delimits form.optionRetainedAliasOffsets
    form.taskAlternativeOptionIds.length form.optionRetainedAliases.length

/-- Packed rows of one task each delimit by task. -/
theorem delimits_tasks {program : ProgramRecord} {form : IndexedProgram}
    (projects : ProjectsProgram program form) {row : TaskSpec → List String}
    {table : List String} {packed : List Nat × List Nat}
    (found : flattenStrings (program.tasks.map row) table = some packed) :
    Delimits packed.1 form.taskIds.length packed.2.length := by
  have delimits := flattenStrings_delimits found
  rwa [List.length_map, ← List.length_map (·.taskId), ← projects.taskIds] at delimits

theorem delimits_options {program : ProgramRecord} {form : IndexedProgram}
    (projects : ProjectsProgram program form) {row : TaskAlternativeOption → List String}
    {table : List String} {packed : List Nat × List Nat}
    (found : flattenStrings
      ((program.taskAlternativeGroups.flatMap (·.options)).map row) table = some packed) :
    Delimits packed.1 form.taskAlternativeOptionIds.length packed.2.length := by
  have delimits := flattenStrings_delimits found
  rwa [List.length_map, ← List.length_map (·.optionId), ← projects.optionIds] at delimits

theorem ProjectsProgram.inRange {program : ProgramRecord} {form : IndexedProgram}
    (projects : ProjectsProgram program form) : InRange form := by
  constructor
  case aliasDevice => exact positions_lt projects.aliasDevice
  case objectAliasGroup => exact positions_lt projects.objectAliasGroup
  case taskDevice => exact positions_lt projects.taskDevice
  case taskProfile => exact positions_lt projects.taskProfile
  case dependencies => exact flattenStrings_lt projects.dependencies
  case inputs => exact flattenStrings_lt projects.inputs
  case outputs => exact flattenStrings_lt projects.outputs
  case mutationObjects => exact flattenStrings_lt projects.mutations
  case optionActiveTasks => exact flattenStrings_lt projects.optionActiveTasks
  case optionRetainedAliases => exact flattenStrings_lt projects.optionRetainedAliases
  case dependencyOffsets => exact delimits_tasks projects projects.dependencies
  case inputOffsets => exact delimits_tasks projects projects.inputs
  case outputOffsets => exact delimits_tasks projects projects.outputs
  case mutationOffsets => exact delimits_tasks projects projects.mutations
  case mutationDeltas =>
    have objects : form.mutationObjects.length = _ := flattenStrings_length projects.mutations
    rw [projects.mutationVersionDeltas, objects, List.length_flatMap, List.length_flatten,
      List.map_map]
    simp only [Function.comp_def, List.length_map]
  case groupOptionOffsets =>
    have delimits := rowOffsets_delimits (program.taskAlternativeGroups.map (·.options))
    rw [List.length_map, ← List.flatMap_def] at delimits
    rw [projects.groupOptionOffsets, projects.groupIds, projects.optionIds, List.length_map,
      List.length_map]
    unfold rowOffsets at delimits
    rw [List.map_map] at delimits
    exact delimits
  case optionActiveTaskOffsets => exact delimits_options projects projects.optionActiveTasks
  case optionRetainedAliasOffsets =>
    exact delimits_options projects projects.optionRetainedAliases

/-! ## Schedules -/

/-- The columns of a schedule. -/
structure ProjectsSchedule (program : ProgramRecord) (schedule : ScheduleFields)
    (form : IndexedMemorySchedule) : Prop where
  initialAliases : positions (program.aliasGroups.map (·.aliasGroupId))
    (schedule.initialResidency.map (·.aliasGroupId)) = some form.initialAliases
  initialLocations : form.initialLocations =
    schedule.initialResidency.map fun item => memoryLocationCode item.location
  actionTriggerTasks : positions (program.tasks.map (·.taskId))
    (schedule.actions.map (·.triggerTaskId)) = some form.actionTriggerTasks
  actionAliases : positions (program.aliasGroups.map (·.aliasGroupId))
    (schedule.actions.map (·.aliasGroupId)) = some form.actionAliases
  actionKinds : form.actionKinds =
    schedule.actions.map fun action => memoryActionCode action.kind
  finalAliases : positions (program.aliasGroups.map (·.aliasGroupId))
    (schedule.finalResidency.map (·.aliasGroupId)) = some form.finalAliases
  finalLocations : form.finalLocations =
    schedule.finalResidency.map fun item => memoryLocationCode item.location

theorem indexMemorySchedule_some {program : ProgramRecord} {schedule : ScheduleFields}
    {form : IndexedMemorySchedule}
    (indexed : indexMemorySchedule program schedule = some form) :
    ProjectsSchedule program schedule form := by
  simp only [indexMemorySchedule, Option.bind_eq_bind, Option.bind_eq_some_iff,
    Option.pure_def, Option.some_inj] at indexed
  obtain ⟨_, initial, _, triggers, _, aliases, _, final, rfl⟩ := indexed
  exact ⟨initial, rfl, triggers, aliases, rfl, final, rfl⟩

theorem residency_eq {table : List String} {items others : List ResidencySpec}
    {aliases locations : List Nat}
    (aliasColumn : positions table (items.map (·.aliasGroupId)) = some aliases)
    (otherAliases : positions table (others.map (·.aliasGroupId)) = some aliases)
    (locationColumn : locations = items.map fun item => memoryLocationCode item.location)
    (otherLocations : locations = others.map fun item => memoryLocationCode item.location) :
    items = others := by
  refine List.map_injective_iff.mpr ?_
    (map_pair (positions_injective aliasColumn otherAliases)
      (locationColumn.symm.trans otherLocations))
  rintro ⟨_, _⟩ ⟨_, _⟩ same
  simp only [Prod.mk.injEq, memoryLocationCode_injective.eq_iff] at same
  obtain ⟨rfl, rfl⟩ := same
  rfl

/-- Over one program a form is of one schedule. -/
theorem schedule_eq {program : ProgramRecord} {schedule other : ScheduleFields}
    {form : IndexedMemorySchedule} (first : ProjectsSchedule program schedule form)
    (second : ProjectsSchedule program other form) : schedule = other := by
  have initial := residency_eq first.initialAliases second.initialAliases
    first.initialLocations second.initialLocations
  have final := residency_eq first.finalAliases second.finalAliases
    first.finalLocations second.finalLocations
  have columns := map_pair
    (positions_injective first.actionTriggerTasks second.actionTriggerTasks)
    (map_pair (positions_injective first.actionAliases second.actionAliases)
      (first.actionKinds.symm.trans second.actionKinds))
  have actions : schedule.actions = other.actions := by
    refine List.map_injective_iff.mpr ?_ columns
    rintro ⟨_, _, _⟩ ⟨_, _, _⟩ same
    simp only [Prod.mk.injEq, memoryActionCode_injective.eq_iff] at same
    obtain ⟨rfl, rfl, rfl⟩ := same
    rfl
  cases schedule
  cases other
  cases initial
  cases final
  cases actions
  rfl

/-- Every index of a schedule is inside the program's tables. -/
structure ScheduleInRange (program : IndexedProgram) (form : IndexedMemorySchedule) :
    Prop where
  initialAliases : ∀ index ∈ form.initialAliases, index < program.aliasGroupIds.length
  actionTriggerTasks : ∀ index ∈ form.actionTriggerTasks, index < program.taskIds.length
  actionAliases : ∀ index ∈ form.actionAliases, index < program.aliasGroupIds.length
  finalAliases : ∀ index ∈ form.finalAliases, index < program.aliasGroupIds.length

theorem ProjectsSchedule.inRange {program : ProgramRecord} {schedule : ScheduleFields}
    {form : IndexedMemorySchedule} {indexed : IndexedProgram}
    (projects : ProjectsSchedule program schedule form)
    (ofProgram : ProjectsProgram program indexed) : ScheduleInRange indexed form := by
  constructor
  case initialAliases =>
    rw [ofProgram.aliasGroupIds]
    exact positions_lt projects.initialAliases
  case actionTriggerTasks =>
    rw [ofProgram.taskIds]
    exact positions_lt projects.actionTriggerTasks
  case actionAliases =>
    rw [ofProgram.aliasGroupIds]
    exact positions_lt projects.actionAliases
  case finalAliases =>
    rw [ofProgram.aliasGroupIds]
    exact positions_lt projects.finalAliases

/-! ## Plans -/

/-- The columns and values of a plan. -/
structure ProjectsPlan (plan : PlanFields) (form : IndexedExecutionPlan) : Prop where
  program : indexProgram plan.program.toProgramRecord = some form.program
  schedule : indexMemorySchedule plan.program.toProgramRecord plan.schedule.toScheduleFields =
    some form.schedule
  selectionGroups : positions form.program.taskAlternativeGroupIds
    (plan.selections.map (·.groupId)) = some form.selectionGroups
  selectionOptions : positions (optionKeys plan.program.taskAlternativeGroups)
    (plan.selections.map fun item => (item.groupId, item.optionId)) =
      some form.selectionOptions
  entrypointTasks : positions form.program.taskIds (plan.entrypoints.map (·.taskId)) =
    some form.entrypointTasks
  entrypointIds : form.entrypointIds = plan.entrypoints.map (·.entrypointId)
  entrypointExecutorIds : form.entrypointExecutorIds = plan.entrypoints.map (·.executorId)
  entrypointContractDigests :
    form.entrypointContractDigests = plan.entrypoints.map (·.contractDigest)
  admission : plan.admission = {
    deviceBudgetBytes := form.deviceBudgetBytes
    spillBudgetBytes := form.spillBudgetBytes
    baselineBytes := form.baselineBytes
    externalHeadroomBytes := form.externalHeadroomBytes
    slabBytes := form.slabBytes
    workspaceReserveBytes := form.workspaceReserveBytes
    spillReservationBytes := form.spillReservationBytes
    predictedFragmentationBytes := form.predictedFragmentationBytes
    rejectOverbudget := form.rejectOverbudget }
  prediction : plan.prediction = {
    devicePeakBytes := form.predictedDevicePeakBytes
    spillPeakBytes := form.predictedSpillPeakBytes
    makespanNs := form.predictedMakespanNs }

theorem indexExecutionPlan_some {plan : PlanFields} {form : IndexedExecutionPlan}
    (indexed : indexExecutionPlan plan = some form) : ProjectsPlan plan form := by
  simp only [indexExecutionPlan, Option.bind_eq_bind, Option.bind_eq_some_iff,
    Option.pure_def, Option.some_inj] at indexed
  obtain ⟨_, program, _, schedule, _, groups, _, options, _, tasks, rfl⟩ := indexed
  exact ⟨program, schedule, groups, options, tasks, rfl, rfl, rfl, rfl, rfl⟩

/-- A form is of one plan, up to the recipes and measurements of the program. -/
theorem plan_eq {plan other : PlanFields} {form : IndexedExecutionPlan}
    (first : ProjectsPlan plan form) (second : ProjectsPlan other form) :
    plan.program.untimed = other.program.untimed ∧ plan.schedule = other.schedule ∧
      plan.selections = other.selections ∧ plan.entrypoints = other.entrypoints ∧
      plan.admission = other.admission ∧ plan.prediction = other.prediction := by
  have ofFirst := indexProgram_some first.program
  have ofSecond := indexProgram_some second.program
  refine ⟨untimed_eq ofFirst ofSecond, ?_, ?_, ?_, first.admission.trans second.admission.symm,
    first.prediction.trans second.prediction.symm⟩
  · apply MemorySchedule.ext
    have ofOther := indexMemorySchedule_some second.schedule
    have tables : ProjectsSchedule plan.program.toProgramRecord
        other.schedule.toScheduleFields form.schedule := by
      constructor
      case initialAliases =>
        rw [← ofFirst.aliasGroupIds, ofSecond.aliasGroupIds]
        exact ofOther.initialAliases
      case initialLocations => exact ofOther.initialLocations
      case actionTriggerTasks =>
        rw [← ofFirst.taskIds, ofSecond.taskIds]
        exact ofOther.actionTriggerTasks
      case actionAliases =>
        rw [← ofFirst.aliasGroupIds, ofSecond.aliasGroupIds]
        exact ofOther.actionAliases
      case actionKinds => exact ofOther.actionKinds
      case finalAliases =>
        rw [← ofFirst.aliasGroupIds, ofSecond.aliasGroupIds]
        exact ofOther.finalAliases
      case finalLocations => exact ofOther.finalLocations
    exact schedule_eq (indexMemorySchedule_some first.schedule) tables
  · have options := second.selectionOptions
    rw [← taskAlternativeGroups_eq ofFirst ofSecond] at options
    refine List.map_injective_iff.mpr ?_
      (positions_injective first.selectionOptions options)
    rintro ⟨_, _⟩ ⟨_, _⟩ same
    cases same
    rfl
  · have columns := map_pair
      (positions_injective first.entrypointTasks second.entrypointTasks)
      (map_pair (first.entrypointIds.symm.trans second.entrypointIds)
        (map_pair (first.entrypointExecutorIds.symm.trans second.entrypointExecutorIds)
          (first.entrypointContractDigests.symm.trans second.entrypointContractDigests)))
    refine List.map_injective_iff.mpr ?_ columns
    rintro ⟨_, _, _, _⟩ ⟨_, _, _, _⟩ same
    cases same
    rfl

/-- Every index of a plan is inside its table. -/
structure PlanInRange (form : IndexedExecutionPlan) : Prop where
  program : InRange form.program
  schedule : ScheduleInRange form.program form.schedule
  selectionGroups : ∀ index ∈ form.selectionGroups,
    index < form.program.taskAlternativeGroupIds.length
  selectionOptions : ∀ index ∈ form.selectionOptions,
    index < form.program.taskAlternativeOptionIds.length
  entrypointTasks : ∀ index ∈ form.entrypointTasks, index < form.program.taskIds.length

theorem ProjectsPlan.inRange {plan : PlanFields} {form : IndexedExecutionPlan}
    (projects : ProjectsPlan plan form) : PlanInRange form := by
  have ofProgram := indexProgram_some projects.program
  constructor
  case program => exact ofProgram.inRange
  case schedule => exact (indexMemorySchedule_some projects.schedule).inRange ofProgram
  case selectionGroups => exact positions_lt projects.selectionGroups
  case selectionOptions =>
    have keys : (optionKeys plan.program.taskAlternativeGroups).length =
        form.program.taskAlternativeOptionIds.length := by
      rw [ofProgram.optionIds]
      unfold optionKeys
      rw [List.length_map, List.length_flatMap, List.length_flatMap]
      simp only [List.length_map]
    rw [← keys]
    exact positions_lt projects.selectionOptions
  case entrypointTasks => exact positions_lt projects.entrypointTasks

end ShadowSpill.Ir.IndexFacts
