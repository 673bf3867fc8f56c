import ShadowSpill.Library.Checks
import Mathlib.Data.List.Nodup

/-!
# What a task admits

A task's allocation steps are checked when its admission is built: every ordinal is
allocated once and released when live, and a range is handed on only after its release, to
one allocation of the same size.
-/

namespace ShadowSpill.Planner.AdmissionSpecs

open Library.Checks

/-- `TaskAllocationStepKind`. -/
inductive StepKind where
  | allocate
  | release
  deriving DecidableEq, Repr

/-- Python's integers are natural numbers here: a negative one is refused at once. -/
structure TaskAllocationStep where
  allocationOrdinal : Nat
  kind : StepKind
  chargedBytes : Nat
  outputAliasGroupId : Option String
  reusesAllocationOrdinal : Option Nat
  deriving DecidableEq, Repr

structure StorageHandoff where
  sourceAliasGroupId : String
  destinationAliasGroupId : String
  deriving DecidableEq, Repr

/-- The physical ownership transitions of one task. -/
structure TaskAdmissionSpec where
  taskId : String
  workspaceExtents : List Nat
  freshOutputAliases : List String
  replacementAliases : List String
  storageHandoffs : List StorageHandoff
  allocationSteps : List TaskAllocationStep
  deriving DecidableEq, Repr

/-- Why a construction is refused. -/
inductive Refusal where
  /-- "task allocation bytes must be positive" -/
  | bytesNotPositive
  /-- "task allocation output alias must be non-empty" -/
  | outputEmpty
  /-- "task allocation reuse ordinal is invalid" -/
  | reuseInvalid
  /-- "task release carries allocation-only fields" -/
  | releaseFields
  /-- "storage-handoff alias IDs must be non-empty" -/
  | handoffEmpty
  /-- "storage-handoff source and destination must differ" -/
  | handoffToItself
  /-- "task admission ID must be non-empty" -/
  | taskIdEmpty
  /-- "task admission workspace extents must be positive" -/
  | extentNotPositive
  /-- "task admission … must be unique" -/
  | notUnique (field : String)
  /-- "task admission … must be non-empty" -/
  | aliasEmpty (field : String)
  /-- "task storage-handoff destinations must be unique" -/
  | destinationsNotUnique
  /-- "task storage-handoff sources must be unique" -/
  | sourcesNotUnique
  /-- "fresh, replacement, and handoff destination aliases must be disjoint" -/
  | outputsNotDisjoint
  /-- "task … physical admission requires explicit allocation steps …" -/
  | stepsMissing (task : String)
  /-- "task allocation trace allocates one ordinal twice" -/
  | allocatesTwice
  /-- "task allocation trace reuses a non-retired ordinal" -/
  | reusesNonRetired
  /-- "task allocation trace reuses one ordinal twice" -/
  | reusesTwice
  /-- "task allocation trace reuse changes charged bytes" -/
  | reuseChangesBytes
  /-- "task allocation trace binds one output alias twice" -/
  | bindsTwice
  /-- "task allocation trace releases an unknown ordinal" -/
  | releasesUnknown
  /-- "task allocation trace output aliases disagree with task ownership: …" -/
  | outputsDisagree (trace expected : List String)
  /-- "task allocation trace must release every anonymous allocation" -/
  | notReleased
  deriving DecidableEq, Repr

def require (condition : Bool) (refusal : Refusal) : Except Refusal Unit :=
  if condition then .ok () else .error refusal

@[simp] theorem require_ok {condition : Bool} {refusal : Refusal} :
    require condition refusal = .ok () ↔ condition = true := by
  unfold require
  cases condition with
  | false =>
      constructor
      · intro impossible
        cases impossible
      · intro impossible
        cases impossible
  | true => exact iff_of_true rfl rfl

/-! ## Construction -/

/-- `TaskAllocationStep.__post_init__`. -/
def TaskAllocationStep.check (step : TaskAllocationStep) : Except Refusal Unit :=
  match step.kind with
  | .allocate => do
    require (0 < step.chargedBytes) .bytesNotPositive
    require (step.outputAliasGroupId ≠ some "") .outputEmpty
    require (step.reusesAllocationOrdinal ≠ some step.allocationOrdinal) .reuseInvalid
  | .release =>
    require (step.chargedBytes = 0 ∧ step.outputAliasGroupId = none ∧
      step.reusesAllocationOrdinal = none) .releaseFields

/-- `StorageHandoff.__post_init__`. -/
def StorageHandoff.check (handoff : StorageHandoff) : Except Refusal Unit := do
  require (handoff.sourceAliasGroupId ≠ "" ∧ handoff.destinationAliasGroupId ≠ "")
    .handoffEmpty
  require (handoff.sourceAliasGroupId ≠ handoff.destinationAliasGroupId) .handoffToItself

/-- What `_validate_allocation_steps` has seen. -/
structure Trace where
  live : List Nat
  allocations : List TaskAllocationStep
  retired : List Nat
  reused : List Nat
  outputAliases : List String

def Trace.empty : Trace where
  live := []
  allocations := []
  retired := []
  reused := []
  outputAliases := []

/-- The range of a retired allocation is taken over. -/
def reuse (trace : Trace) (step : TaskAllocationStep) : Except Refusal Trace :=
  match step.reusesAllocationOrdinal with
  | none => .ok trace
  | some source => do
    require (source ∈ trace.retired) .reusesNonRetired
    require (source ∉ trace.reused) .reusesTwice
    require (trace.allocations.all fun earlier =>
      earlier.allocationOrdinal ≠ source || earlier.chargedBytes = step.chargedBytes)
      .reuseChangesBytes
    .ok { trace with reused := trace.reused ++ [source] }

def bindOutput (trace : Trace) (step : TaskAllocationStep) : Except Refusal Trace :=
  match step.outputAliasGroupId with
  | none => .ok trace
  | some output => do
    require (output ∉ trace.outputAliases) .bindsTwice
    .ok { trace with outputAliases := trace.outputAliases ++ [output] }

/-- One step of the validating loop. -/
def visit (trace : Trace) (step : TaskAllocationStep) : Except Refusal Trace :=
  match step.kind with
  | .allocate => do
    require (trace.allocations.all fun earlier =>
      earlier.allocationOrdinal ≠ step.allocationOrdinal) .allocatesTwice
    let reusing ← reuse trace step
    bindOutput { reusing with
      allocations := reusing.allocations ++ [step]
      live := reusing.live ++ [step.allocationOrdinal] } step
  | .release => do
    require (step.allocationOrdinal ∈ trace.live) .releasesUnknown
    .ok { trace with
      live := trace.live.filter (· ≠ step.allocationOrdinal)
      retired := trace.retired ++ [step.allocationOrdinal] }

/-- Equality of two lists as sets. -/
def sameElements {α : Type} [DecidableEq α] (first second : List α) : Bool :=
  first.all (· ∈ second) && second.all (· ∈ first)

/-- `_validate_allocation_steps`. -/
def validateAllocationSteps (spec : TaskAdmissionSpec) : Except Refusal Unit :=
  if spec.allocationSteps = [] then
    require (spec.workspaceExtents = [] ∧ spec.freshOutputAliases = [] ∧
      spec.replacementAliases = []) (.stepsMissing spec.taskId)
  else do
    let trace ← walk (fun _ => visit) 0 .empty spec.allocationSteps
    let expected := spec.freshOutputAliases ++ spec.replacementAliases
    require (sameElements trace.outputAliases expected)
      (.outputsDisagree trace.outputAliases expected)
    let persistent := (spec.allocationSteps.filter (·.outputAliasGroupId.isSome)).map
      (·.allocationOrdinal)
    require (sameElements trace.live persistent) .notReleased

/-- A list of aliases under its field's name. -/
def checkAliases (field : String) (aliases : List String) : Except Refusal Unit := do
  require (decide aliases.Nodup) (.notUnique field)
  require (decide ("" ∉ aliases)) (.aliasEmpty field)

def disjoint (first second : List String) : Bool :=
  first.all (· ∉ second)

/-- `TaskAdmissionSpec.__post_init__`, after those of its parts. -/
def TaskAdmissionSpec.check (spec : TaskAdmissionSpec) : Except Refusal Unit := do
  each (fun _ step => step.check) 0 spec.allocationSteps
  each (fun _ handoff => handoff.check) 0 spec.storageHandoffs
  require (spec.taskId ≠ "") .taskIdEmpty
  require (spec.workspaceExtents.all (0 < ·)) .extentNotPositive
  checkAliases "fresh_output_aliases" spec.freshOutputAliases
  checkAliases "replacement_aliases" spec.replacementAliases
  let destinations : List String := spec.storageHandoffs.map (·.destinationAliasGroupId)
  let sources : List String := spec.storageHandoffs.map (·.sourceAliasGroupId)
  require (decide destinations.Nodup) .destinationsNotUnique
  require (decide sources.Nodup) .sourcesNotUnique
  require (disjoint spec.freshOutputAliases spec.replacementAliases &&
    disjoint spec.freshOutputAliases destinations &&
    disjoint spec.replacementAliases destinations) .outputsNotDisjoint
  validateAllocationSteps spec

/-! ## What a valid trace says -/

variable {trace after : Trace} {step : TaskAllocationStep}

/-- A range that is taken over is a retired one, for the first time. -/
theorem reuse_ok (reused : reuse trace step = .ok after) :
    after.live = trace.live ∧ after.allocations = trace.allocations ∧
      after.retired = trace.retired ∧
        after.reused = trace.reused ++ step.reusesAllocationOrdinal.toList ∧
          ∀ source, step.reusesAllocationOrdinal = some source →
            source ∈ trace.retired ∧ source ∉ trace.reused := by
  unfold reuse at reused
  cases known : step.reusesAllocationOrdinal with
  | none =>
      rw [known] at reused
      cases reused
      exact ⟨rfl, rfl, rfl, (List.append_nil _).symm, fun _ wrong => by cases wrong⟩
  | some source =>
      rw [known] at reused
      dsimp only at reused
      rw [check_bind_ok, check_bind_ok, check_bind_ok, require_ok, require_ok] at reused
      rcases reused with ⟨retired, first, _, result⟩
      cases result
      refine ⟨rfl, rfl, rfl, rfl, ?_⟩
      intro other same
      cases same
      exact ⟨of_decide_eq_true retired, of_decide_eq_true first⟩

theorem bindOutput_ok (bound : bindOutput trace step = .ok after) :
    after.live = trace.live ∧ after.allocations = trace.allocations ∧
      after.retired = trace.retired ∧ after.reused = trace.reused := by
  unfold bindOutput at bound
  cases known : step.outputAliasGroupId with
  | none =>
      rw [known] at bound
      cases bound
      exact ⟨rfl, rfl, rfl, rfl⟩
  | some output =>
      rw [known] at bound
      dsimp only at bound
      rw [check_bind_ok] at bound
      cases bound.2
      exact ⟨rfl, rfl, rfl, rfl⟩

theorem visit_allocate (allocates : step.kind = .allocate)
    (visited : visit trace step = .ok after) :
    (∀ earlier ∈ trace.allocations, earlier.allocationOrdinal ≠ step.allocationOrdinal) ∧
      after.live = trace.live ++ [step.allocationOrdinal] ∧
        after.allocations = trace.allocations ++ [step] ∧ after.retired = trace.retired ∧
          after.reused = trace.reused ++ step.reusesAllocationOrdinal.toList ∧
            ∀ source, step.reusesAllocationOrdinal = some source →
              source ∈ trace.retired ∧ source ∉ trace.reused := by
  unfold visit at visited
  rw [allocates] at visited
  dsimp only at visited
  rw [check_bind_ok, require_ok, bind_ok] at visited
  rcases visited with ⟨fresh, reusing, reused, bound⟩
  rcases reuse_ok reused with ⟨live, allocations, retired, taken, allowed⟩
  rcases bindOutput_ok bound with ⟨live', allocations', retired', taken'⟩
  refine ⟨?_, ?_, ?_, ?_, ?_, allowed⟩
  · intro earlier mem
    exact of_decide_eq_true (List.all_eq_true.mp fresh earlier mem)
  · rw [live', live]
  · rw [allocations', allocations]
  · rw [retired', retired]
  · rw [taken', taken]

theorem visit_release (releases : step.kind = .release)
    (visited : visit trace step = .ok after) :
    step.allocationOrdinal ∈ trace.live ∧
      after = { trace with
        live := trace.live.filter (· ≠ step.allocationOrdinal)
        retired := trace.retired ++ [step.allocationOrdinal] } := by
  unfold visit at visited
  rw [releases] at visited
  dsimp only at visited
  rw [check_bind_ok, require_ok] at visited
  exact ⟨of_decide_eq_true visited.1, (Except.ok.inj visited.2).symm⟩

/-- Only an allocation takes over a range. -/
theorem allocates_of_reuse {spec : TaskAdmissionSpec} (valid : spec.check = .ok ())
    (mem : step ∈ spec.allocationSteps) {source : Nat}
    (taken : step.reusesAllocationOrdinal = some source) : step.kind = .allocate := by
  unfold TaskAdmissionSpec.check at valid
  rw [check_bind_ok] at valid
  rcases each_ok_mem valid.1 mem with ⟨_, checked⟩
  cases kind : step.kind with
  | allocate => rfl
  | release =>
      unfold TaskAllocationStep.check at checked
      rw [kind] at checked
      have fields := of_decide_eq_true (require_ok.mp checked)
      rw [taken] at fields
      cases fields.2.2

end ShadowSpill.Planner.AdmissionSpecs
