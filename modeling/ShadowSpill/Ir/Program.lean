import ShadowSpill.Ir.Validation

/-!
# Programs and their construction checks

The records of a program, each with what its own construction checks, and the checks of
a whole program in their order: identities, alias groups, objects, alternative groups and
tasks.  A value of a checked type has passed its checks.
-/

namespace ShadowSpill.Ir.Program

open Validation Library.Checks

/-! ## Records -/

/-- Runtime-global residency and mutation policy for one storage root. -/
inductive SharedResidencyPolicy where
  | sharedReadOnly
  | sharedWritableCausal
  | sharedWritableUnordered
  deriving DecidableEq, Repr

structure DeviceSpec where
  deviceId : String
  deriving DecidableEq, Repr

structure AliasGroupSpec where
  aliasGroupId : String
  deviceId : String
  sizeBytes : Nat
  sharedResidency : Option SharedResidencyPolicy
  deriving DecidableEq, Repr

structure ObjectSpec where
  objectId : String
  aliasGroupId : String
  offsetBytes : Nat
  sizeBytes : Nat
  deriving DecidableEq, Repr

structure TaskProfile where
  profileId : String
  deriving DecidableEq, Repr

structure MutationSpec where
  objectId : String
  deriving DecidableEq, Repr

/-- The fields of a task. -/
structure TaskFields where
  taskId : String
  deviceId : String
  profileId : String
  dependencies : List String
  inputs : List String
  outputs : List String
  mutations : List MutationSpec
  phase : String
  deriving DecidableEq, Repr

/-- What constructing a task checks. -/
def TaskFields.check (task : TaskFields) : Checked Unit := do
  requireIdentifier task.taskId "task.task_id"
  requireIdentifier task.profileId "task.profile_id"
  let _ ← indexUnique "task.dependencies" [] task.dependencies
  let _ ← indexUnique "task.inputs" [] task.inputs
  let _ ← indexUnique "task.outputs" [] task.outputs
  let _ ← indexUnique "task.mutations" [] (task.mutations.map (·.objectId))
  requireIdentifier task.phase "task.phase"

structure TaskSpec extends TaskFields where
  checked : toTaskFields.check = .ok ()
  deriving DecidableEq

/-- Construct a task. -/
def TaskSpec.make (fields : TaskFields) : Checked TaskSpec :=
  match passed : fields.check with
  | .error failure => .error failure
  | .ok () => .ok ⟨fields, passed⟩

/-! ## Alternatives -/

structure OptionFields where
  optionId : String
  activeTaskIds : List String
  retainedAliasGroupIds : List String
  deriving DecidableEq, Repr

def OptionFields.check (option : OptionFields) : Checked Unit := do
  requireIdentifier option.optionId "task_alternative_option.option_id"
  let _ ← indexUnique "task_alternative_option.active_task_ids" [] option.activeTaskIds
  let _ ← indexUnique "task_alternative_option.retained_alias_group_ids" []
    option.retainedAliasGroupIds
  pure ()

structure TaskAlternativeOption extends OptionFields where
  checked : toOptionFields.check = .ok ()
  deriving DecidableEq

structure GroupFields where
  groupId : String
  options : List TaskAlternativeOption
  deriving DecidableEq

def GroupFields.check (group : GroupFields) : Checked Unit := do
  requireIdentifier group.groupId "task_alternative_group.group_id"
  require (!group.options.isEmpty) "task_alternative_group.options" .mustNotBeEmpty
  let _ ← indexUnique "task_alternative_group.options" []
    (group.options.map (·.optionId))
  pure ()

structure TaskAlternativeGroup extends GroupFields where
  checked : toGroupFields.check = .ok ()
  deriving DecidableEq

/-! ## Program checks -/

structure ProgramFields where
  devices : List DeviceSpec
  aliasGroups : List AliasGroupSpec
  objects : List ObjectSpec
  profiles : List TaskProfile
  tasks : List TaskSpec
  taskAlternativeGroups : List TaskAlternativeGroup
  deriving DecidableEq

/-- Every id in the program, indexed once for the checks that follow. -/
structure Identities where
  deviceIds : List String
  aliasIds : List String
  objectIds : List String
  profileIds : List String
  taskIds : List String
  groupIds : List String
  aliasById : String → Option AliasGroupSpec
  objectById : String → Option ObjectSpec

def requireShapes (program : ProgramFields) : Checked Unit :=
  require (!program.devices.isEmpty) "program.devices" .mustNotBeEmpty

/-- Index every id, refusing duplicates, and keep the two lookups checks need. -/
def indexIdentities (program : ProgramFields) : Checked Identities := do
  let deviceIds ← indexUnique "program.devices" [] (program.devices.map (·.deviceId))
  let aliasIds ←
    indexUnique "program.alias_groups" [] (program.aliasGroups.map (·.aliasGroupId))
  let objectIds ← indexUnique "program.objects" [] (program.objects.map (·.objectId))
  let profileIds ←
    indexUnique "program.task_definitions" [] (program.profiles.map (·.profileId))
  let taskIds ← indexUnique "program.tasks" [] (program.tasks.map (·.taskId))
  let groupIds ← indexUnique "program.task_alternative_groups" []
    (program.taskAlternativeGroups.map (·.groupId))
  pure {
    deviceIds := deviceIds
    aliasIds := aliasIds
    objectIds := objectIds
    profileIds := profileIds
    taskIds := taskIds
    groupIds := groupIds
    aliasById := fun id => program.aliasGroups.find? (·.aliasGroupId = id)
    objectById := fun id => program.objects.find? (·.objectId = id) }

/-- Every alias group names a device the program declares. -/
def checkAliasGroups (program : ProgramFields) (ids : Identities) : Checked Unit :=
  each (fun index aliasGroup =>
    require (aliasGroup.deviceId ∈ ids.deviceIds)
      s!"program.alias_groups[{index}].device_id" (.unknown "device" aliasGroup.deviceId))
    0 program.aliasGroups

/-- Every object sits inside the alias group it names. -/
def checkObjects (program : ProgramFields) (ids : Identities) : Checked Unit :=
  each (fun index item =>
    match ids.aliasById item.aliasGroupId with
    | none =>
      .error ⟨s!"program.objects[{index}].alias_group_id",
        .unknown "alias group" item.aliasGroupId⟩
    | some aliasGroup =>
      require (item.offsetBytes + item.sizeBytes ≤ aliasGroup.sizeBytes)
        s!"program.objects[{index}]"
        (.spans item.objectId item.aliasGroupId item.offsetBytes
          (item.offsetBytes + item.sizeBytes) aliasGroup.sizeBytes))
    0 program.objects

/-- An option names known tasks, and retains known aliases that are not shared. -/
def checkOption (ids : Identities) (path : String) (option : TaskAlternativeOption) :
    Checked Unit := do
  each (fun _ taskId =>
    require (taskId ∈ ids.taskIds) s!"{path}.active_task_ids" (.unknown "task" taskId))
    0 option.activeTaskIds
  each (fun _ aliasId => do
    require (aliasId ∈ ids.aliasIds) s!"{path}.retained_alias_group_ids"
      (.unknown "alias group" aliasId)
    require (((ids.aliasById aliasId).bind (·.sharedResidency)).isNone)
      s!"{path}.retained_alias_group_ids" (.runtimeResident aliasId))
    0 option.retainedAliasGroupIds

/-- The elements of one list that another lacks. -/
def without (left right : List String) : List String :=
  left.filter fun task => task ∉ right

/-- The pairs that two options make mutually exclusive. -/
def exclusivePairs (left right : List String) : List (String × String) :=
  (without left right).flatMap fun leftTask =>
    (without right left).map fun rightTask => (leftTask, rightTask)

/-- The pairs of every two options. -/
def pairsOfOptions : List (List String) → List (String × String)
  | [] => []
  | left :: rest => rest.flatMap (exclusivePairs left) ++ pairsOfOptions rest

/-- What the groups before have left: their tasks and their exclusive pairs. -/
structure GroupScan where
  tasksInGroups : List String
  exclusive : List (String × String)

def checkGroup (ids : Identities) (index : Nat) (scan : GroupScan)
    (group : TaskAlternativeGroup) : Checked GroupScan := do
  require (group.groupId ∈ ids.groupIds) s!"program.task_alternative_groups[{index}]"
    .invalidGroupIdentity
  each (fun option =>
    checkOption ids s!"program.task_alternative_groups[{index}].options[{option}]")
    0 group.options
  let groupTasks := group.options.flatMap (·.activeTaskIds)
  let overlap := scan.tasksInGroups.filter fun task => task ∈ groupTasks
  require overlap.isEmpty s!"program.task_alternative_groups[{index}]"
    (.severalGroups overlap)
  pure {
    tasksInGroups := scan.tasksInGroups ++ groupTasks
    exclusive := scan.exclusive ++ pairsOfOptions (group.options.map (·.activeTaskIds)) }

/-- Each group's options name known tasks, and no task is in two groups.  Returns the
pairs of tasks that two options make mutually exclusive. -/
def checkAlternativeGroups (program : ProgramFields) (ids : Identities) :
    Checked GroupScan :=
  walk (checkGroup ids) 0 ⟨[], []⟩ program.taskAlternativeGroups

/-- Two tasks in either order. -/
def areExclusive (pairs : List (String × String)) (left right : String) : Bool :=
  (left, right) ∈ pairs || (right, left) ∈ pairs

/-- What the tasks before have left: each output with its writer, and their ids. -/
structure TaskScan where
  producedBy : List (String × String)
  seenTasks : List String

/-- The writers of an object so far. -/
def writersOf (object : String) (producedBy : List (String × String)) : List String :=
  (producedBy.filter fun entry => entry.1 = object).map (·.2)

/-- The policy of the storage root of an object. -/
def sharingOf (ids : Identities) (object : String) : Option SharedResidencyPolicy :=
  ((ids.objectById object).bind fun item => ids.aliasById item.aliasGroupId).bind
    (·.sharedResidency)

def aliasOf (ids : Identities) (object : String) : String :=
  ((ids.objectById object).map (·.aliasGroupId)).getD ""

def checkOutput (ids : Identities) (exclusive : List (String × String)) (path : String)
    (task : TaskSpec) (_ : Nat) (producedBy : List (String × String)) (output : String) :
    Checked (List (String × String)) := do
  require (sharingOf ids output = none ∨ sharingOf ids output = some .sharedWritableCausal)
    s!"{path}.outputs" (.cannotPublish (aliasOf ids output))
  require ((writersOf output producedBy).all fun writer =>
      areExclusive exclusive writer task.taskId)
    s!"{path}.outputs" (.activeWriters output)
  pure (producedBy ++ [(output, task.taskId)])

def checkInput (producedBy : List (String × String)) (path : String) (task : TaskSpec)
    (_ : Nat) (input : String) : Checked Unit :=
  if (writersOf input producedBy).isEmpty then .ok ()
  else
    require ((writersOf input producedBy).any fun producer => producer ∈ task.dependencies)
      s!"{path}.dependencies" (.missingProducer input (writersOf input producedBy))

def checkMutation (ids : Identities) (path : String) (task : TaskSpec) (index : Nat)
    (mutation : MutationSpec) : Checked Unit := do
  require (mutation.objectId ∈ task.inputs) s!"{path}.mutations[{index}].object_id"
    .mutatedNotInput
  require (sharingOf ids mutation.objectId ≠ some .sharedReadOnly)
    s!"{path}.mutations[{index}].object_id" (.readOnly (aliasOf ids mutation.objectId))

def checkTask (ids : Identities) (exclusive : List (String × String)) (index : Nat)
    (scan : TaskScan) (task : TaskSpec) : Checked TaskScan := do
  require (task.deviceId ∈ ids.deviceIds) s!"program.tasks[{index}].resource.device_id"
    (.unknown "device" task.deviceId)
  require (task.profileId ∈ ids.profileIds) s!"program.tasks[{index}].profile_id"
    (.unknown "profile" task.profileId)
  each (fun _ dependency =>
    require (dependency ∈ scan.seenTasks) s!"program.tasks[{index}].dependencies"
      (.mustPrecede dependency))
    0 task.dependencies
  each (fun _ object =>
    require (object ∈ ids.objectIds) s!"program.tasks[{index}].inputs"
      (.unknown "object" object))
    0 task.inputs
  each (fun _ object =>
    require (object ∈ ids.objectIds) s!"program.tasks[{index}].outputs"
      (.unknown "object" object))
    0 task.outputs
  let producedBy ←
    walk (checkOutput ids exclusive s!"program.tasks[{index}]" task) 0 scan.producedBy
      task.outputs
  each (checkInput producedBy s!"program.tasks[{index}]" task) 0 task.inputs
  each (checkMutation ids s!"program.tasks[{index}]" task) 0 task.mutations
  pure ⟨producedBy, scan.seenTasks ++ [task.taskId]⟩

/-- Every task names known resources, depends on its producers, and writes alone. -/
def checkTasks (program : ProgramFields) (ids : Identities)
    (exclusive : List (String × String)) : Checked TaskScan :=
  walk (checkTask ids exclusive) 0 ⟨[], []⟩ program.tasks

/-- What constructing a program checks. -/
def ProgramFields.check (program : ProgramFields) : Checked Unit := do
  requireShapes program
  let ids ← indexIdentities program
  checkAliasGroups program ids
  checkObjects program ids
  let groups ← checkAlternativeGroups program ids
  let _ ← checkTasks program ids groups.exclusive
  pure ()

structure ShadowSpillProgram extends ProgramFields where
  checked : toProgramFields.check = .ok ()

end ShadowSpill.Ir.Program
