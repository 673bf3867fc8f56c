import ShadowSpill.Ir.IndexFacts
import ShadowSpill.Ir.ObjectFacts

/-!
# Names that a program has

Whatever a checked program names, it declares, so that indexing it finds every name.  The
same holds of a plan: its selections, its entrypoints and its schedule passed checks that
refuse an unknown name.
-/

namespace ShadowSpill.Ir.KnownNames

open Validation Records PlanRecords IndexedForms IndexFacts Library.Checks Library.NameTables
open Selection (TaskAlternativeChoice)

/-! ## Programs -/

/-- The names of a program's records are in its tables. -/
structure Known (program : Program.ProgramFields) : Prop where
  aliasDevice : ∀ item ∈ program.aliasGroups,
    item.deviceId ∈ program.devices.map (·.deviceId)
  objectAlias : ∀ item ∈ program.objects,
    item.aliasGroupId ∈ program.aliasGroups.map (·.aliasGroupId)
  taskDevice : ∀ task ∈ program.tasks, task.deviceId ∈ program.devices.map (·.deviceId)
  taskProfile : ∀ task ∈ program.tasks, task.profileId ∈ program.profiles.map (·.profileId)
  dependencies : ∀ task ∈ program.tasks, ∀ dependency ∈ task.dependencies,
    dependency ∈ program.tasks.map (·.taskId)
  objects : ∀ task ∈ program.tasks, ∀ object, ObjectFacts.Names task object →
    object ∈ program.objects.map (·.objectId)
  active : ∀ option ∈ program.taskAlternativeGroups.flatMap (·.options),
    ∀ task ∈ option.activeTaskIds, task ∈ program.tasks.map (·.taskId)
  retained : ∀ option ∈ program.taskAlternativeGroups.flatMap (·.options),
    ∀ aliasId ∈ option.retainedAliasGroupIds,
      aliasId ∈ program.aliasGroups.map (·.aliasGroupId)

theorem checkTask_resources {ids : Program.Identities} {exclusive : List (String × String)}
    {index : Nat} {scan after : Program.TaskScan} {task : Program.TaskSpec}
    (success : Program.checkTask ids exclusive index scan task = .ok after) :
    task.deviceId ∈ ids.deviceIds ∧ task.profileId ∈ ids.profileIds := by
  unfold Program.checkTask at success
  obtain ⟨device, rest⟩ := check_bind_ok.mp success
  obtain ⟨profile, _⟩ := check_bind_ok.mp rest
  exact ⟨of_decide_eq_true (require_ok.mp device), of_decide_eq_true (require_ok.mp profile)⟩

theorem checkGroup_retained {ids : Program.Identities} {index : Nat}
    {scan after : Program.GroupScan} {group : Program.TaskAlternativeGroup}
    (success : Program.checkGroup ids index scan group = .ok after)
    {option : Program.TaskAlternativeOption} (inGroup : option ∈ group.options) {aliasId : String}
    (mem : aliasId ∈ option.retainedAliasGroupIds) : aliasId ∈ ids.aliasIds := by
  unfold Program.checkGroup at success
  obtain ⟨_, rest⟩ := check_bind_ok.mp success
  obtain ⟨options, _⟩ := check_bind_ok.mp rest
  obtain ⟨_, passed⟩ := each_ok_mem options inGroup
  unfold Program.checkOption at passed
  obtain ⟨_, retained⟩ := check_bind_ok.mp passed
  obtain ⟨_, known⟩ := each_ok_mem retained mem
  exact of_decide_eq_true (require_ok.mp (check_bind_ok.mp known).1)

theorem known (program : Program.ShadowSpillProgram) : Known program.toProgramFields := by
  have sound := ConstructionFacts.constructed program
  have passed := program.checked
  unfold Program.ProgramFields.check at passed
  simp only [bind_ok] at passed
  obtain ⟨_, _, ids, identities, _, aliases, _, objects, groups, alternatives, _, tasks, _⟩ :=
    passed
  unfold Program.indexIdentities at identities
  simp only [bind_ok, pure_ok] at identities
  obtain ⟨_, deviceIndex, _, aliasIndex, _, _, _, profileIndex, _, _, _, _, rfl⟩ := identities
  obtain ⟨rfl, _⟩ := indexUnique_ok.mp deviceIndex
  obtain ⟨rfl, _⟩ := indexUnique_ok.mp aliasIndex
  obtain ⟨rfl, _⟩ := indexUnique_ok.mp profileIndex
  have resources : ∀ task ∈ program.tasks,
      task.deviceId ∈ program.devices.map (·.deviceId) ∧
        task.profileId ∈ program.profiles.map (·.profileId) := by
    intro task mem
    obtain ⟨before, after, split⟩ := List.append_of_mem mem
    unfold Program.checkTasks at tasks
    rw [split] at tasks
    obtain ⟨_, _, _, visited⟩ := walk_split tasks
    exact checkTask_resources visited
  constructor
  case aliasDevice =>
    intro item mem
    obtain ⟨_, here⟩ := each_ok_mem aliases mem
    exact of_decide_eq_true (require_ok.mp here)
  case objectAlias =>
    intro item mem
    obtain ⟨_, here⟩ := each_ok_mem objects mem
    dsimp only at here
    split at here
    · cases here
    · rename_i aliasGroup isGroup
      have same := List.find?_some isGroup
      exact List.mem_map.mpr ⟨aliasGroup, List.mem_of_find?_eq_some isGroup,
        of_decide_eq_true same⟩
  case taskDevice => exact fun task mem => (resources task mem).1
  case taskProfile => exact fun task mem => (resources task mem).2
  case dependencies =>
    intro task mem dependency depends
    obtain ⟨before, after, split⟩ := List.append_of_mem mem
    have earlier := (sound.tasks before task after split).dependencies dependency depends
    rw [split, List.map_append]
    exact List.mem_append_left _ earlier
  case objects =>
    intro task mem object names
    obtain ⟨item, found, _⟩ := ObjectFacts.names_declared program mem names
    have same := List.find?_some found
    exact List.mem_map.mpr ⟨item, List.mem_of_find?_eq_some found, of_decide_eq_true same⟩
  case active =>
    intro option mem task isActive
    obtain ⟨group, inGroups, inOptions⟩ := List.mem_flatMap.mp mem
    exact sound.known group inGroups task (List.mem_flatMap.mpr ⟨option, inOptions, isActive⟩)
  case retained =>
    intro option mem aliasId isRetained
    obtain ⟨group, inGroups, inOptions⟩ := List.mem_flatMap.mp mem
    obtain ⟨before, after, split⟩ := List.append_of_mem inGroups
    unfold Program.checkAlternativeGroups at alternatives
    rw [split] at alternatives
    obtain ⟨_, _, _, visited⟩ := walk_split alternatives
    exact checkGroup_retained visited inOptions isRetained

/-- The names of the full records are in the program's tables. -/
structure RecordKnown (program : ProgramRecord) : Prop where
  aliasDevice : ∀ item ∈ program.aliasGroups,
    item.deviceId ∈ program.devices.map (·.deviceId)
  objectAlias : ∀ item ∈ program.objects,
    item.aliasGroupId ∈ program.aliasGroups.map (·.aliasGroupId)
  taskDevice : ∀ task ∈ program.tasks,
    task.resource.deviceId ∈ program.devices.map (·.deviceId)
  taskProfile : ∀ task ∈ program.tasks, task.profileId ∈ program.profiles.map (·.profileId)
  dependencies : ∀ task ∈ program.tasks, ∀ dependency ∈ task.dependencies,
    dependency ∈ program.tasks.map (·.taskId)
  inputs : ∀ task ∈ program.tasks, ∀ object ∈ task.inputs,
    object ∈ program.objects.map (·.objectId)
  outputs : ∀ task ∈ program.tasks, ∀ object ∈ task.outputs,
    object ∈ program.objects.map (·.objectId)
  mutations : ∀ task ∈ program.tasks, ∀ object ∈ task.mutations.map (·.objectId),
    object ∈ program.objects.map (·.objectId)
  active : ∀ option ∈ program.taskAlternativeGroups.flatMap (·.options),
    ∀ task ∈ option.activeTaskIds, task ∈ program.tasks.map (·.taskId)
  retained : ∀ option ∈ program.taskAlternativeGroups.flatMap (·.options),
    ∀ aliasId ∈ option.retainedAliasGroupIds,
      aliasId ∈ program.aliasGroups.map (·.aliasGroupId)

section Outlined

variable {program : ProgramRecord} {outline : Program.ShadowSpillProgram}

theorem Outlines.aliasIds (outlined : Outlines program outline) :
    outline.aliasGroups.map (·.aliasGroupId) = program.aliasGroups.map (·.aliasGroupId) := by
  rw [outlined.aliasGroups, List.map_map]
  rfl

theorem Outlines.objectIds (outlined : Outlines program outline) :
    outline.objects.map (·.objectId) = program.objects.map (·.objectId) := by
  rw [outlined.objects, List.map_map]
  rfl

theorem Outlines.taskIds (outlined : Outlines program outline) :
    outline.tasks.map (·.taskId) = program.tasks.map (·.taskId) := by
  have ids := congrArg (List.map (·.taskId)) outlined.tasks
  rw [List.map_map, List.map_map] at ids
  exact ids

/-- The outline of a task is a task of the outline. -/
theorem Outlines.task (outlined : Outlines program outline) {task : TaskSpec}
    (mem : task ∈ program.tasks) :
    ∃ other ∈ outline.tasks, other.toTaskFields = task.outline := by
  have inOutline : task.outline ∈ outline.tasks.map (·.toTaskFields) := by
    rw [outlined.tasks]
    exact List.mem_map_of_mem mem
  exact List.mem_map.mp inOutline

theorem Outlines.recordKnown (outlined : Outlines program outline) : RecordKnown program := by
  have sound := known outline
  constructor
  case aliasDevice =>
    intro item mem
    rw [← outlined.devices]
    refine sound.aliasDevice item.outline ?_
    rw [outlined.aliasGroups]
    exact List.mem_map_of_mem mem
  case objectAlias =>
    intro item mem
    rw [← Outlines.aliasIds outlined]
    refine sound.objectAlias item.outline ?_
    rw [outlined.objects]
    exact List.mem_map_of_mem mem
  case taskDevice =>
    intro task mem
    obtain ⟨other, inOutline, same⟩ := Outlines.task outlined mem
    have device := sound.taskDevice other inOutline
    rwa [same, outlined.devices] at device
  case taskProfile =>
    intro task mem
    obtain ⟨other, inOutline, same⟩ := Outlines.task outlined mem
    have profile := sound.taskProfile other inOutline
    rwa [same, outlined.profiles] at profile
  case dependencies =>
    intro task mem dependency depends
    obtain ⟨other, inOutline, same⟩ := Outlines.task outlined mem
    rw [← Outlines.taskIds outlined]
    exact sound.dependencies other inOutline dependency (by rwa [same])
  case inputs =>
    intro task mem object isInput
    obtain ⟨other, inOutline, same⟩ := Outlines.task outlined mem
    rw [← Outlines.objectIds outlined]
    exact sound.objects other inOutline object (Or.inl (by rwa [same]))
  case outputs =>
    intro task mem object isOutput
    obtain ⟨other, inOutline, same⟩ := Outlines.task outlined mem
    rw [← Outlines.objectIds outlined]
    exact sound.objects other inOutline object (Or.inr (Or.inl (by rwa [same])))
  case mutations =>
    intro task mem object isMutated
    obtain ⟨other, inOutline, same⟩ := Outlines.task outlined mem
    obtain ⟨mutation, inMutations, rfl⟩ := List.mem_map.mp isMutated
    rw [← Outlines.objectIds outlined]
    refine sound.objects other inOutline _ (Or.inr (Or.inr ⟨⟨mutation.objectId⟩, ?_, rfl⟩))
    rw [same]
    exact List.mem_map_of_mem inMutations
  case active =>
    intro option mem task isActive
    rw [← outlined.groups] at mem
    rw [← Outlines.taskIds outlined]
    exact sound.active option mem task isActive
  case retained =>
    intro option mem aliasId isRetained
    rw [← outlined.groups] at mem
    rw [← Outlines.aliasIds outlined]
    exact sound.retained option mem aliasId isRetained

end Outlined

/-- A checked program has an indexed form. -/
theorem indexProgram_isSome (program : ShadowSpillProgram) :
    ∃ form, indexProgram program.toProgramRecord = some form := by
  obtain ⟨outline, made⟩ := program.outline_ok
  have sound := Outlines.recordKnown (outlines made)
  obtain ⟨dependencies, isDependencies⟩ :=
    flattenStrings_isSome (List.forall_mem_map.mpr sound.dependencies)
  obtain ⟨inputs, isInputs⟩ := flattenStrings_isSome (List.forall_mem_map.mpr sound.inputs)
  obtain ⟨outputs, isOutputs⟩ := flattenStrings_isSome (List.forall_mem_map.mpr sound.outputs)
  obtain ⟨mutations, isMutations⟩ :=
    flattenStrings_isSome (List.forall_mem_map.mpr sound.mutations)
  obtain ⟨active, isActive⟩ := flattenStrings_isSome (List.forall_mem_map.mpr sound.active)
  obtain ⟨retained, isRetained⟩ :=
    flattenStrings_isSome (List.forall_mem_map.mpr sound.retained)
  obtain ⟨aliasDevice, isAliasDevice⟩ :=
    positions_isSome (List.forall_mem_map.mpr sound.aliasDevice)
  obtain ⟨objectAlias, isObjectAlias⟩ :=
    positions_isSome (List.forall_mem_map.mpr sound.objectAlias)
  obtain ⟨taskDevice, isTaskDevice⟩ :=
    positions_isSome (List.forall_mem_map.mpr sound.taskDevice)
  obtain ⟨taskProfile, isTaskProfile⟩ :=
    positions_isSome (List.forall_mem_map.mpr sound.taskProfile)
  unfold indexProgram
  simp only [isDependencies, isInputs, isOutputs, isMutations, isActive, isRetained,
    isAliasDevice, isObjectAlias, isTaskDevice, isTaskProfile, Option.bind_eq_bind,
    Option.bind_some, Option.pure_def]
  exact ⟨_, rfl⟩

/-! ## Plans -/

/-- A choice that a selection accepts names a group and one of its options. -/
theorem choice_known {program : Program.ShadowSpillProgram}
    {choices : List TaskAlternativeChoice} {active : List Program.TaskSpec}
    (selected : Selection.selectTasks program choices = .ok active)
    {choice : TaskAlternativeChoice} (mem : choice ∈ choices) :
    (choice.groupId, choice.optionId) ∈ optionKeys program.taskAlternativeGroups := by
  unfold Selection.selectTasks at selected
  obtain ⟨once, rest⟩ := check_bind_ok.mp selected
  obtain ⟨everyGroup, rest⟩ := check_bind_ok.mp rest
  obtain ⟨_, walked, _⟩ := bind_ok.mp rest
  have unique := of_decide_eq_true (require_ok.mp once)
  rw [require_ok, Bool.and_eq_true, List.all_eq_true] at everyGroup
  have isGroup := of_decide_eq_true (everyGroup.1 _ (List.mem_map_of_mem mem))
  obtain ⟨group, inGroups, same⟩ := List.mem_map.mp isGroup
  obtain ⟨before, after, split⟩ := List.append_of_mem inGroups
  rw [split] at walked
  obtain ⟨_, _, _, visited⟩ := walk_split walked
  unfold Selection.selectGroup at visited
  rw [Resolution.choiceOf_eq unique mem same.symm] at visited
  dsimp only at visited
  split at visited
  case h_1 => cases visited
  case h_2 option found =>
    have isOption := List.find?_some found
    have inOptions := List.mem_reverse.mp (List.mem_of_find?_eq_some found)
    refine List.mem_flatMap.mpr ⟨group, inGroups, List.mem_map.mpr ⟨option, inOptions, ?_⟩⟩
    rw [same, of_decide_eq_true isOption]

/-- Selecting keeps tasks of the program. -/
theorem selected_known {program : Program.ShadowSpillProgram}
    {choices : List TaskAlternativeChoice} {active : List Program.TaskSpec}
    (selected : Selection.selectTasks program choices = .ok active) :
    ∀ task ∈ active.map (·.taskId), task ∈ program.tasks.map (·.taskId) := by
  unfold Selection.selectTasks at selected
  simp only [bind_ok, pure_ok] at selected
  obtain ⟨_, _, _, _, _, _, _, restricted, _, _, rfl⟩ := selected
  rw [Resolution.restrictTasks_eq] at restricted
  cases restricted
  intro task mem
  obtain ⟨_, isRestricted, rfl⟩ := List.mem_map.mp mem
  obtain ⟨source, isSource, rfl⟩ := List.mem_map.mp isRestricted
  have inProgram := List.mem_of_mem_filter isSource
  exact List.mem_map.mpr ⟨source, inProgram, rfl⟩

/-- A schedule that is accepted names alias groups and active tasks. -/
theorem schedule_known {program : Schedule.RetainingProgram} {active : List Program.TaskSpec}
    {schedule : MemorySchedule} {aliasIds taskIds : List String}
    (aliases : aliasIds.length = program.aliasGroups.length)
    (tasks : taskIds.length = active.length)
    (valid : Schedule.validateSelected program active (schedule.placed aliasIds taskIds) =
      .ok ()) :
    (∀ item ∈ schedule.initialResidency, item.aliasGroupId ∈ aliasIds) ∧
      (∀ action ∈ schedule.actions,
        action.aliasGroupId ∈ aliasIds ∧ action.triggerTaskId ∈ taskIds) ∧
      ∀ item ∈ schedule.finalResidency, item.aliasGroupId ∈ aliasIds := by
  have orderable := Schedule.orderable_of_valid valid
  unfold Schedule.validateSelected at valid
  simp only [bind_ok] at valid
  obtain ⟨residency, initial, _, _, final⟩ := valid
  have owned : ∀ {aliasId : Nat} {place : Schedule.SchedulePlace}
      {refusal : Schedule.RefusalReason},
      Schedule.requirePlanOwned program aliasId place refusal = .ok () →
        aliasId < aliasIds.length := by
    intro aliasId place refusal passed
    unfold Schedule.requirePlanOwned at passed
    rw [aliases]
    exact of_decide_eq_true (Schedule.demand_ok.mp (check_bind_ok.mp passed).1)
  refine ⟨?_, ?_, ?_⟩
  · intro item mem
    have placed : (⟨placeOf aliasIds schedule.aliasNames item.aliasGroupId, item.location⟩ :
        Schedule.ResidencySpec) ∈ (schedule.placed aliasIds taskIds).initialResidency :=
      List.mem_map_of_mem mem
    obtain ⟨before, after, split⟩ := List.append_of_mem placed
    unfold Schedule.initialResidency at initial
    rw [split] at initial
    obtain ⟨_, _, _, visited⟩ := walk_split initial
    unfold Schedule.startAt at visited
    exact mem_of_placeOf_lt (owned (check_bind_ok.mp visited).1)
  · intro action mem
    have placed := orderable _ (List.mem_map_of_mem mem)
    have isAlias := placed.known
    have isTask := placed.trigger
    rw [← aliases] at isAlias
    rw [← tasks] at isTask
    exact ⟨mem_of_placeOf_lt isAlias, mem_of_placeOf_lt isTask⟩
  · intro item mem
    unfold Schedule.finalResidencyReached at final
    obtain ⟨_, passed⟩ := each_ok_mem final (List.mem_map_of_mem mem)
    exact mem_of_placeOf_lt (owned (check_bind_ok.mp passed).1)

/-- A checked plan has an indexed form. -/
theorem indexExecutionPlan_isSome (plan : ExecutionPlan) :
    ∃ form, indexExecutionPlan plan.toPlanFields = some form := by
  have passed := plan.checked
  unfold PlanFields.check at passed
  simp only [bind_ok, validated_ok] at passed
  obtain ⟨_, _, outline, made, active, selected, _, accepted, entrypoints, isIndex, _, bound,
    _⟩ := passed
  have outlined := outlines made
  have aliasIds := Outlines.aliasIds outlined
  have taskIds := Outlines.taskIds outlined
  have activeKnown := selected_known selected
  rw [taskIds] at activeKnown
  obtain ⟨initial, actions, final⟩ :=
    schedule_known (List.length_map _) (List.length_map _) (mapError_ok.mp accepted)
  rw [aliasIds] at initial final
  obtain ⟨form, indexed⟩ := indexProgram_isSome plan.program
  have projects := indexProgram_some indexed
  obtain ⟨initialColumn, isInitial⟩ := positions_isSome (List.forall_mem_map.mpr initial)
  obtain ⟨triggers, isTriggers⟩ := @positions_isSome _ _
    (plan.program.tasks.map (·.taskId)) (plan.schedule.actions.map (·.triggerTaskId))
    (List.forall_mem_map.mpr fun action mem => activeKnown _ (actions action mem).2)
  obtain ⟨aliases, isAliases⟩ := @positions_isSome _ _
    (plan.program.aliasGroups.map (·.aliasGroupId)) (plan.schedule.actions.map (·.aliasGroupId))
    (List.forall_mem_map.mpr fun action mem => aliasIds ▸ (actions action mem).1)
  obtain ⟨finalColumn, isFinal⟩ := positions_isSome (List.forall_mem_map.mpr final)
  have keys : ∀ choice ∈ plan.selections,
      (choice.groupId, choice.optionId) ∈ optionKeys plan.program.taskAlternativeGroups := by
    intro choice mem
    rw [← outlined.groups]
    exact choice_known selected mem
  obtain ⟨options, isOptions⟩ := positions_isSome (List.forall_mem_map.mpr keys)
  obtain ⟨groups, isGroups⟩ := @positions_isSome _ _
    form.taskAlternativeGroupIds (plan.selections.map (·.groupId))
    (List.forall_mem_map.mpr fun choice mem => by
      obtain ⟨group, inGroups, inRow⟩ := List.mem_flatMap.mp (keys choice mem)
      obtain ⟨_, _, same⟩ := List.mem_map.mp inRow
      rw [projects.groupIds, ← (Prod.mk.inj same).1]
      exact List.mem_map_of_mem inGroups)
  obtain ⟨tasks, isTasks⟩ := @positions_isSome _ _
    form.taskIds (plan.entrypoints.map (·.taskId)) (by
      intro task mem
      rw [(indexUnique_ok.mp isIndex).1, List.nil_append, ensure_ok, Bool.and_eq_true,
        List.all_eq_true] at bound
      have required := of_decide_eq_true (bound.1 task mem)
      obtain ⟨source, isSource, rfl⟩ := List.mem_map.mp required
      rw [projects.taskIds]
      exact List.mem_map_of_mem (List.mem_of_mem_filter isSource))
  unfold indexExecutionPlan indexMemorySchedule
  simp only [indexed, isInitial, isTriggers, isAliases, isFinal, isGroups, isOptions, isTasks,
    Option.bind_eq_bind, Option.bind_some, Option.pure_def]
  exact ⟨_, rfl⟩

end ShadowSpill.Ir.KnownNames
