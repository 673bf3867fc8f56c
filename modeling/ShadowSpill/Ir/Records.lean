import Mathlib.Algebra.Order.Ring.Rat
import ShadowSpill.Ir.Schedule
import ShadowSpill.Ir.Selection

/-!
# The records of a program, with every field

A program as it is declared: devices with their processes, alias groups with their transfer
recipes, profiles with their timing measurements, tasks with their resources.  Each record is
constructed from parts that have passed their own checks.  The checks of the program as a
whole read an outline of it, in which only identities, extents and relations are left.
-/

namespace ShadowSpill.Ir.Records

open Validation Library.Checks
open Program (SharedResidencyPolicy TaskAlternativeGroup)

/-! ## Failures -/

/-- Why a record is not constructed. -/
inductive Fault where
  /-- an identity that is refused, or a rule of the program or of its selections -/
  | validation (failure : ValidationError)
  /-- a field that is refused -/
  | record (path message : String)
  /-- a rule of the schedule -/
  | schedule (refusal : Schedule.ScheduleRefusal)
  deriving DecidableEq, Repr

abbrev Constructed (α : Type) := Except Fault α

def validated {α : Type} (checked : Checked α) : Constructed α := checked.mapError .validation

/-- `require`. -/
def ensure (condition : Bool) (path message : String) : Constructed Unit :=
  if condition then .ok () else .error (.record path message)

@[simp] theorem ensure_ok {condition : Bool} {path message : String} :
    ensure condition path message = .ok () ↔ condition = true := by
  unfold ensure
  cases condition <;> simp

/-- A failure that is renamed is still one. -/
theorem mapError_ok {ε α : Type} {checked : Except ε α} {rename : ε → Fault} {value : α} :
    checked.mapError rename = .ok value ↔ checked = .ok value := by
  cases checked <;> simp [Except.mapError]

@[simp] theorem validated_ok {α : Type} {checked : Checked α} {value : α} :
    validated checked = .ok value ↔ checked = .ok value := mapError_ok

/-! ## Vocabularies -/

inductive ResourceKind where
  | compute
  | communication
  | control
  deriving DecidableEq, Repr

inductive ObjectRole where
  | input
  | parameter
  | buffer
  | activation
  | gradient
  | optimizerState
  | output
  | other
  | control
  deriving DecidableEq, Repr

inductive Persistence where
  | step
  | run
  | checkpoint
  deriving DecidableEq, Repr

/-! ## Devices and resources -/

structure DeviceSpec where
  deviceId : String
  processId : String
  kind : String
  index : Nat
  deriving DecidableEq, Repr

def DeviceSpec.check (device : DeviceSpec) : Constructed Unit := do
  validated (requireIdentifier device.deviceId "device.device_id")
  validated (requireIdentifier device.processId "device.process_id")
  validated (requireIdentifier device.kind "device.kind")

structure ResourceSpec where
  deviceId : String
  kind : ResourceKind
  lane : Nat
  deriving DecidableEq, Repr

def ResourceSpec.check (resource : ResourceSpec) : Constructed Unit :=
  validated (requireIdentifier resource.deviceId "resource.device_id")

/-! ## Transfers -/

structure TransferPhase where
  kind : String
  bytes : Nat
  durationNs : Nat
  resource : Option String
  submissionOrdered : Bool
  timingClass : Option String
  deriving DecidableEq, Repr

def TransferPhase.check (phase : TransferPhase) : Constructed Unit := do
  match phase.timingClass with
  | none => .ok ()
  | some timingClass =>
    validated (requireIdentifier timingClass "transfer.timing_class")
    ensure (phase.kind = "timed") "transfer.timing_class" "requires timed work"
  ensure (phase.kind = "copy" ∨ phase.kind = "timed") "transfer.kind" "unknown phase"
  if phase.kind = "copy" then
    ensure phase.resource.isNone "transfer.resource" "copy uses its lane"
    ensure (phase.durationNs = 0) "transfer.duration_ns" "copy uses rates"
    ensure (!phase.submissionOrdered) "transfer.submission_ordered"
      "only timed phases are ordered"
  else
    match phase.resource with
    | none => .error (.record "transfer.resource" "resource is required")
    | some resource => validated (requireIdentifier resource "transfer.resource")

/-- Physical spill size and ordered transfer phases of one alias. -/
structure TransferSpec where
  spillSizeBytes : Nat
  fetch : List TransferPhase
  evict : List TransferPhase
  deriving DecidableEq, Repr

/-- What a recipe checks of the phases of one direction. -/
def checkRecipe (path : String) (phases : List TransferPhase) : Constructed Unit := do
  ensure (!phases.isEmpty) path "recipe must not be empty"
  ensure (phases.countP (·.submissionOrdered) ≤ 1) path
    "one ordered collective phase per transfer"

def TransferSpec.check (transfer : TransferSpec) : Constructed Unit := do
  each (fun _ phase => phase.check) 0 transfer.fetch
  each (fun _ phase => phase.check) 0 transfer.evict
  checkRecipe "transfer.fetch" transfer.fetch
  checkRecipe "transfer.evict" transfer.evict

/-! ## Storage -/

structure AliasGroupSpec where
  aliasGroupId : String
  deviceId : String
  sizeBytes : Nat
  initialVersion : Nat
  retainSpillCopy : Bool
  sharedResidency : Option SharedResidencyPolicy
  transfer : Option TransferSpec
  deriving DecidableEq, Repr

/-- A group without a recipe has none to check. -/
def checkTransfer : Option TransferSpec → Constructed Unit
  | none => .ok ()
  | some transfer => transfer.check

def AliasGroupSpec.check (aliasGroup : AliasGroupSpec) : Constructed Unit := do
  checkTransfer aliasGroup.transfer
  validated (requireIdentifier aliasGroup.aliasGroupId "alias_group.alias_group_id")
  validated (requireIdentifier aliasGroup.deviceId "alias_group.device_id")

def AliasGroupSpec.outline (aliasGroup : AliasGroupSpec) : Program.AliasGroupSpec where
  aliasGroupId := aliasGroup.aliasGroupId
  deviceId := aliasGroup.deviceId
  sizeBytes := aliasGroup.sizeBytes
  sharedResidency := aliasGroup.sharedResidency

structure ObjectSpec where
  objectId : String
  aliasGroupId : String
  offsetBytes : Nat
  sizeBytes : Nat
  role : ObjectRole
  persistence : Persistence
  deriving DecidableEq, Repr

def ObjectSpec.check (item : ObjectSpec) : Constructed Unit := do
  validated (requireIdentifier item.objectId "object.object_id")
  validated (requireIdentifier item.aliasGroupId "object.alias_group_id")

def ObjectSpec.outline (item : ObjectSpec) : Program.ObjectSpec where
  objectId := item.objectId
  aliasGroupId := item.aliasGroupId
  offsetBytes := item.offsetBytes
  sizeBytes := item.sizeBytes

/-! ## Profiles -/

/-- Sequential task work; no resource is ordinary computation. -/
structure TaskResourcePhase where
  durationNs : Nat
  resource : Option String
  deriving DecidableEq, Repr

def TaskResourcePhase.check (phase : TaskResourcePhase) : Constructed Unit :=
  match phase.resource with
  | none => .ok ()
  | some resource => validated (requireIdentifier resource "task_phase.resource")

/-- Fractions of solo progress while a task and a transfer phase overlap.  A rate is the
rational that its finite float is. -/
structure TaskOverlapCost where
  timingClass : String
  bytes : Nat
  taskRate : ℚ
  transferRate : ℚ
  deriving DecidableEq, Repr

/-- A progress rate of the field of this name. -/
def requireRate (name : String) (rate : ℚ) : Constructed Unit :=
  ensure (0 < rate ∧ rate ≤ 1) s!"overlap.{name}" "expected a finite progress rate in (0, 1]"

def TaskOverlapCost.check (cost : TaskOverlapCost) : Constructed Unit := do
  validated (requireIdentifier cost.timingClass "overlap.timing_class")
  requireRate "task_rate" cost.taskRate
  requireRate "transfer_rate" cost.transferRate

structure TaskProfile where
  profileId : String
  runtimeNs : Nat
  workspaceBytes : Nat
  compatibilityDigest : String
  resourcePhases : List TaskResourcePhase
  overlapCosts : List TaskOverlapCost
  deriving DecidableEq, Repr

/-- `validate_task_timing`. -/
def validateTaskTiming (runtimeNs : Nat) (resourcePhases : List TaskResourcePhase)
    (overlapCosts : List TaskOverlapCost) : Constructed Unit := do
  ensure (resourcePhases.isEmpty || (resourcePhases.map (·.durationNs)).sum = runtimeNs)
    "profile.resource_phases" "phase durations must sum to runtime_ns"
  ensure ((overlapCosts.map fun cost => (cost.timingClass, cost.bytes)).Nodup)
    "profile.overlap_costs" "duplicate timing class and message size"

def TaskProfile.check (profile : TaskProfile) : Constructed Unit := do
  each (fun _ phase => phase.check) 0 profile.resourcePhases
  each (fun _ cost => cost.check) 0 profile.overlapCosts
  validated (requireIdentifier profile.profileId "profile.profile_id")
  validated (requireIdentifier profile.compatibilityDigest "profile.compatibility_digest")
  validateTaskTiming profile.runtimeNs profile.resourcePhases profile.overlapCosts

/-! ## Tasks -/

structure MutationSpec where
  objectId : String
  versionDelta : Nat
  deriving DecidableEq, Repr

def MutationSpec.check (mutation : MutationSpec) : Constructed Unit := do
  validated (requireIdentifier mutation.objectId "mutation.object_id")
  ensure (0 < mutation.versionDelta) "mutation.version_delta" "must be positive"

structure TaskSpec where
  taskId : String
  resource : ResourceSpec
  profileId : String
  dependencies : List String
  inputs : List String
  outputs : List String
  mutations : List MutationSpec
  phase : String
  requiresEntrypoint : Bool
  deriving DecidableEq, Repr

def TaskSpec.outline (task : TaskSpec) : Program.TaskFields where
  taskId := task.taskId
  deviceId := task.resource.deviceId
  profileId := task.profileId
  dependencies := task.dependencies
  inputs := task.inputs
  outputs := task.outputs
  mutations := task.mutations.map fun mutation => ⟨mutation.objectId⟩
  phase := task.phase

def TaskSpec.check (task : TaskSpec) : Constructed Unit := do
  task.resource.check
  each (fun _ mutation => mutation.check) 0 task.mutations
  validated task.outline.check

/-! ## Programs -/

structure ProgramRecord where
  devices : List DeviceSpec
  aliasGroups : List AliasGroupSpec
  objects : List ObjectSpec
  profiles : List TaskProfile
  tasks : List TaskSpec
  taskAlternativeGroups : List TaskAlternativeGroup
  deriving DecidableEq

/-- The parts of a program pass their own checks. -/
def ProgramRecord.checkParts (program : ProgramRecord) : Constructed Unit := do
  each (fun _ device => device.check) 0 program.devices
  each (fun _ aliasGroup => aliasGroup.check) 0 program.aliasGroups
  each (fun _ item => item.check) 0 program.objects
  each (fun _ profile => profile.check) 0 program.profiles
  each (fun _ task => task.check) 0 program.tasks

/-- The tasks of the outline, each checked again as it is made. -/
def outlineTasks : List TaskSpec → Checked (List Program.TaskSpec)
  | [] => .ok []
  | task :: rest => do
    let outlined ← Program.TaskSpec.make task.outline
    let others ← outlineTasks rest
    pure (outlined :: others)

/-- A checked program of these fields. -/
def construct (fields : Program.ProgramFields) : Checked Program.ShadowSpillProgram :=
  match passed : fields.check with
  | .error failure => .error failure
  | .ok () => .ok ⟨fields, passed⟩

/-- What the checks of the whole program read. -/
def ProgramRecord.outline (program : ProgramRecord) : Checked Program.ShadowSpillProgram := do
  let tasks ← outlineTasks program.tasks
  construct {
    devices := program.devices.map fun device => ⟨device.deviceId⟩
    aliasGroups := program.aliasGroups.map (·.outline)
    objects := program.objects.map (·.outline)
    profiles := program.profiles.map fun profile => ⟨profile.profileId⟩
    tasks := tasks
    taskAlternativeGroups := program.taskAlternativeGroups }

/-- What constructing a program from its parts checks. -/
def ProgramRecord.check (program : ProgramRecord) : Constructed Unit := do
  program.checkParts
  let _ ← validated program.outline
  pure ()

structure ShadowSpillProgram extends ProgramRecord where
  checked : toProgramRecord.check = .ok ()

@[ext] theorem ShadowSpillProgram.ext {program other : ShadowSpillProgram}
    (same : program.toProgramRecord = other.toProgramRecord) : program = other := by
  cases program
  cases other
  cases same
  rfl

/-! ## The outline of a checked program -/

theorem construct_ok {fields : Program.ProgramFields} {program : Program.ShadowSpillProgram}
    (made : construct fields = .ok program) : program.toProgramFields = fields := by
  unfold construct at made
  split at made
  case h_1 => cases made
  case h_2 =>
    cases made
    rfl

theorem outlineTasks_ok {tasks : List TaskSpec} {outlined : List Program.TaskSpec}
    (made : outlineTasks tasks = .ok outlined) :
    outlined.map (·.toTaskFields) = tasks.map (·.outline) := by
  induction tasks generalizing outlined with
  | nil =>
      cases made
      rfl
  | cons task rest inductionHypothesis =>
      unfold outlineTasks at made
      obtain ⟨first, here, later⟩ := bind_ok.mp made
      obtain ⟨others, there, same⟩ := bind_ok.mp later
      cases same
      rw [List.map_cons, List.map_cons, inductionHypothesis there]
      congr 1
      unfold Program.TaskSpec.make at here
      split at here
      case h_1 => cases here
      case h_2 =>
        cases here
        rfl

/-- The lists of a program and of its outline correspond. -/
structure Outlines (program : ProgramRecord) (outline : Program.ShadowSpillProgram) : Prop where
  devices : outline.devices.map (·.deviceId) = program.devices.map (·.deviceId)
  aliasGroups : outline.aliasGroups = program.aliasGroups.map (·.outline)
  objects : outline.objects = program.objects.map (·.outline)
  profiles : outline.profiles.map (·.profileId) = program.profiles.map (·.profileId)
  tasks : outline.tasks.map (·.toTaskFields) = program.tasks.map (·.outline)
  groups : outline.taskAlternativeGroups = program.taskAlternativeGroups

theorem outlines {program : ProgramRecord} {outline : Program.ShadowSpillProgram}
    (made : program.outline = .ok outline) : Outlines program outline := by
  unfold ProgramRecord.outline at made
  obtain ⟨tasks, outlined, constructed⟩ := bind_ok.mp made
  have same := construct_ok constructed
  have tasksSame := outlineTasks_ok outlined
  constructor
  case devices => rw [same, List.map_map]; rfl
  case aliasGroups => rw [same]
  case objects => rw [same]
  case profiles => rw [same, List.map_map]; rfl
  case tasks => rw [same, tasksSame]
  case groups => rw [same]

theorem ShadowSpillProgram.outline_ok (program : ShadowSpillProgram) :
    ∃ outline, program.outline = .ok outline := by
  have passed := program.checked
  unfold ProgramRecord.check at passed
  obtain ⟨_, rest⟩ := check_bind_ok.mp passed
  obtain ⟨outline, made, _⟩ := bind_ok.mp rest
  exact ⟨outline, validated_ok.mp made⟩

/-! ## What the outline leaves out -/

def AliasGroupSpec.untimed (aliasGroup : AliasGroupSpec) : AliasGroupSpec :=
  { aliasGroup with transfer := none }

def TaskProfile.untimed (profile : TaskProfile) : TaskProfile :=
  { profile with resourcePhases := [], overlapCosts := [] }

/-- The program without its transfer recipes and its timing measurements. -/
def ProgramRecord.untimed (program : ProgramRecord) : ProgramRecord :=
  { program with
    aliasGroups := program.aliasGroups.map (·.untimed)
    profiles := program.profiles.map (·.untimed) }

@[simp] theorem outline_untimed (program : ProgramRecord) :
    program.untimed.outline = program.outline := by
  unfold ProgramRecord.outline ProgramRecord.untimed
  simp only [List.map_map]
  rfl

end ShadowSpill.Ir.Records
