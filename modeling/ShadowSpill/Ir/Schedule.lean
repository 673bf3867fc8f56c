import ShadowSpill.Ir.Indexing
import ShadowSpill.Ir.SelectionOutcome
import ShadowSpill.Planner.Residency.Problem

/-!
# Memory schedules and their validation

A schedule starts from a residency, runs its actions after the tasks that trigger them, and
promises a residency at its end.  Validation walks the tasks with a set of the aliases on
the device, one of those with a spill copy, and one of those whose spill copy is current.
Tasks and aliases stand for their names.
-/

namespace ShadowSpill.Ir.Schedule

open Program Indexing Library.Checks
open Planner.Residency.Problem (MemoryLocation)

/-- `MemoryActionKind`. -/
inductive MemoryActionKind where
  | release
  | evict
  | fetch
  | writeBack
deriving DecidableEq, Repr

structure MemoryAction where
  trigger : Nat
  aliasId : Nat
  kind : MemoryActionKind
deriving DecidableEq, Repr

structure ResidencySpec where
  aliasId : Nat
  location : MemoryLocation
deriving DecidableEq, Repr

structure MemorySchedule where
  initialResidency : List ResidencySpec
  actions : List MemoryAction
  finalResidency : List ResidencySpec
  initialUnique : (initialResidency.map (·.aliasId)).Nodup
  finalUnique : (finalResidency.map (·.aliasId)).Nodup

/-- A program with the flag of each alias group that `retain_spill_copy` is. -/
structure RetainingProgram extends ShadowSpillProgram where
  retainSpillCopy : Nat → Bool

/-- What a refusal is about. -/
inductive SchedulePlace where
  | initialResidency (index : Nat)
  | action (index : Nat)
  | taskInputs (task : Nat)
  | finalResidency (index : Nat)
deriving DecidableEq, Repr

/-- Why a schedule is refused. -/
inductive RefusalReason where
  | unknownAliasGroup
  | runtimeOwned
  | sharedAction
  | zeroSizeAction
  | unknownTask
  | unordered
  | inputNotResident (aliasId : Nat)
  | fetchNeedsSpill
  | fetchNeedsAbsence
  | needsDevice (kind : MemoryActionKind)
  | dropsOnlyCopy
  | notReached (location : MemoryLocation)
deriving DecidableEq, Repr

structure ScheduleRefusal where
  place : SchedulePlace
  reason : RefusalReason
deriving DecidableEq, Repr

abbrev Accepted (α : Type) := Except ScheduleRefusal α

def demand (condition : Bool) (place : SchedulePlace) (reason : RefusalReason) :
    Accepted Unit :=
  if condition then .ok () else .error ⟨place, reason⟩

@[simp] theorem demand_ok {condition : Bool} {place : SchedulePlace} {reason : RefusalReason} :
    demand condition place reason = .ok () ↔ condition = true := by
  unfold demand
  cases condition <;> simp

/-! ## The walk -/

/-- Where each alias group's copies are. -/
structure Residency where
  device : Finset Nat
  spill : Finset Nat
  spillCurrent : Finset Nat
deriving DecidableEq

section Walk

variable (program : RetainingProgram) (tasks : List TaskSpec)

/-- `zero_size_aliases`. -/
def isZeroSize (aliasId : Nat) : Bool :=
  aliasId < program.aliasGroups.length && aliasSize program.toShadowSpillProgram aliasId = 0

/-- `_require_plan_owned`. -/
def requirePlanOwned (aliasId : Nat) (place : SchedulePlace) (refusal : RefusalReason) :
    Accepted Unit := do
  demand (aliasId < program.aliasGroups.length) place .unknownAliasGroup
  demand (!isShared program.toShadowSpillProgram aliasId) place refusal

def retainedAliases : Finset Nat :=
  (Finset.range program.aliasGroups.length).filter fun aliasId => program.retainSpillCopy aliasId

def sharedAliases : Finset Nat :=
  (Finset.range program.aliasGroups.length).filter fun aliasId =>
    isShared program.toShadowSpillProgram aliasId

def startAt (index : Nat) (residency : Residency) (item : ResidencySpec) :
    Accepted Residency := do
  requirePlanOwned program item.aliasId (.initialResidency index) .runtimeOwned
  if isZeroSize program item.aliasId then pure residency
  else
    match item.location with
    | .device => pure { residency with device := insert item.aliasId residency.device }
    | .spill =>
      pure { residency with
        spill := insert item.aliasId residency.spill
        spillCurrent := insert item.aliasId residency.spillCurrent }

/-- `_initial_residency`. -/
def initialResidency (schedule : MemorySchedule) : Accepted Residency :=
  walk (startAt program) 0 ⟨sharedAliases program, retainedAliases program, retainedAliases program⟩
    schedule.initialResidency

/-- One action of `_ordered_actions`, which returns the latest trigger so far. -/
def orderAction (index : Nat) (previous : Int) (action : MemoryAction) : Accepted Int := do
  demand (action.trigger < tasks.length) (.action index) .unknownTask
  requirePlanOwned program action.aliasId (.action index) .sharedAction
  demand (!isZeroSize program action.aliasId) (.action index) .zeroSizeAction
  demand (previous ≤ action.trigger) (.action index) .unordered
  pure action.trigger

/-- The last task that reads or mutates an alias. -/
def lastReader (aliasId : Nat) : Option Nat :=
  (tasks.zipIdx.filter fun entry =>
    aliasId ∈ (entry.1.inputs ++ entry.1.mutations.map (·.objectId)).map
      (objectAlias program.toShadowSpillProgram)).getLast?.map (·.2)

/-- `_require_inputs_resident`. -/
def requireInputsResident (task : TaskSpec) (index : Nat) (residency : Residency) :
    Accepted Unit :=
  each (fun _ object =>
    let aliasId := objectAlias program.toShadowSpillProgram object
    if isZeroSize program aliasId then .ok ()
    else demand (aliasId ∈ residency.device) (.taskInputs index) (.inputNotResident aliasId))
    0 task.inputs

/-- `_record_task_writes`. -/
def recordTaskWrites (task : TaskSpec) (residency : Residency) : Residency :=
  let residency := task.outputs.foldl (fun residency object =>
    let aliasId := objectAlias program.toShadowSpillProgram object
    if isZeroSize program aliasId then residency
    else { residency with
      device := insert aliasId residency.device
      spillCurrent := residency.spillCurrent.erase aliasId }) residency
  task.mutations.foldl (fun residency mutation =>
    let aliasId := objectAlias program.toShadowSpillProgram mutation.objectId
    if isZeroSize program aliasId then residency
    else { residency with spillCurrent := residency.spillCurrent.erase aliasId }) residency

/-- `_apply_action`. -/
def applyAction (schedule : MemorySchedule) (residency : Residency)
    (entry : MemoryAction × Nat) : Accepted Residency := do
  let aliasId := entry.1.aliasId
  let place := SchedulePlace.action entry.2
  match entry.1.kind with
  | .fetch =>
    demand (aliasId ∈ residency.spill ∧ aliasId ∈ residency.spillCurrent) place .fetchNeedsSpill
    demand (aliasId ∉ residency.device) place .fetchNeedsAbsence
    if program.retainSpillCopy aliasId then
      pure { residency with device := insert aliasId residency.device }
    else
      pure {
        device := insert aliasId residency.device
        spill := residency.spill.erase aliasId
        spillCurrent := residency.spillCurrent.erase aliasId }
  | .release =>
    demand (aliasId ∈ residency.device) place (.needsDevice .release)
    demand (aliasId ∈ residency.spillCurrent ∨
        (aliasId ∉ schedule.finalResidency.map (·.aliasId) ∧
          (lastReader program tasks aliasId).all (· ≤ entry.1.trigger)))
      place .dropsOnlyCopy
    if program.retainSpillCopy aliasId then
      pure { residency with device := residency.device.erase aliasId }
    else
      pure {
        device := residency.device.erase aliasId
        spill := residency.spill.erase aliasId
        spillCurrent := residency.spillCurrent.erase aliasId }
  | .writeBack =>
    demand (aliasId ∈ residency.device) place (.needsDevice .writeBack)
    pure { residency with
      spill := insert aliasId residency.spill
      spillCurrent := insert aliasId residency.spillCurrent }
  | .evict =>
    demand (aliasId ∈ residency.device) place (.needsDevice .evict)
    pure {
      device := residency.device.erase aliasId
      spill := insert aliasId residency.spill
      spillCurrent := insert aliasId residency.spillCurrent }

/-- One task of `_walk_tasks`: its inputs, its writes, the actions it triggers. -/
def walkTask (schedule : MemorySchedule) (index : Nat) (residency : Residency)
    (task : TaskSpec) : Accepted Residency := do
  requireInputsResident program task index residency
  (schedule.actions.zipIdx.filter fun entry => entry.1.trigger = index).foldlM
    (applyAction program tasks schedule) (recordTaskWrites program task residency)

/-- `_walk_tasks`. -/
def walkTasks (schedule : MemorySchedule) (residency : Residency) : Accepted Residency := do
  let _ ← walk (orderAction program tasks) 0 (-1) schedule.actions
  walk (walkTask program tasks schedule) 0 residency tasks

/-- `_final_residency_reached`. -/
def finalResidencyReached (schedule : MemorySchedule) (residency : Residency) :
    Accepted Unit :=
  each (fun index item => do
    requirePlanOwned program item.aliasId (.finalResidency index) .runtimeOwned
    if isZeroSize program item.aliasId then .ok ()
    else
      demand
        (match item.location with
        | .device => item.aliasId ∈ residency.device
        | .spill => item.aliasId ∈ residency.spill ∧ item.aliasId ∈ residency.spillCurrent)
        (.finalResidency index) (.notReached item.location))
    0 schedule.finalResidency

/-- `_validate_selected`. -/
def validateSelected (schedule : MemorySchedule) : Accepted Unit := do
  let residency ← initialResidency program schedule
  let residency ← walkTasks program tasks schedule residency
  finalResidencyReached program schedule residency

end Walk

/-! ## What validation says of actions -/

section Actions

variable {program : RetainingProgram} {tasks : List TaskSpec}

/-- An action that can be ordered: its task is selected, and its alias is known, not
shared and of some size. -/
structure Orderable (program : RetainingProgram) (tasks : List TaskSpec)
    (action : MemoryAction) : Prop where
  trigger : action.trigger < tasks.length
  known : action.aliasId < program.aliasGroups.length
  unshared : isShared program.toShadowSpillProgram action.aliasId = false
  sized : aliasSize program.toShadowSpillProgram action.aliasId ≠ 0

theorem orderAction_ok {index : Nat} {previous next : Int} {action : MemoryAction}
    (ordered : orderAction program tasks index previous action = .ok next) :
    Orderable program tasks action := by
  unfold orderAction requirePlanOwned at ordered
  simp only [check_bind_ok, demand_ok, pure_ok, decide_eq_true_eq, Bool.not_eq_true'] at ordered
  rcases ordered with ⟨trigger, ⟨known, unshared⟩, sized, _⟩
  refine ⟨trigger, known, unshared, ?_⟩
  unfold isZeroSize at sized
  simpa [known] using sized

/-- Every action of a valid schedule can be ordered. -/
theorem orderable_of_valid {schedule : MemorySchedule}
    (valid : validateSelected program tasks schedule = .ok ()) :
    ∀ action ∈ schedule.actions, Orderable program tasks action := by
  unfold validateSelected walkTasks at valid
  simp only [bind_ok] at valid
  rcases valid with ⟨_, _, _, ⟨last, ordered, _⟩, _⟩
  intro action mem
  rcases List.append_of_mem mem with ⟨before, after, split⟩
  rw [split] at ordered
  rcases walk_split ordered with ⟨_, _, _, visited⟩
  exact orderAction_ok visited

end Actions

/-! ## What validation says of values -/

section Values

variable {program : RetainingProgram} {tasks : List TaskSpec} {schedule : MemorySchedule}
  {aliasId : Nat} {before after : Residency}

/-- An alias is on the device, or has a spill copy that can be fetched. -/
def Residency.Holds (residency : Residency) (aliasId : Nat) : Prop :=
  aliasId ∈ residency.device ∨ aliasId ∈ residency.spill ∧ aliasId ∈ residency.spillCurrent

/-- The aliases of a task's outputs. -/
def writes (program : RetainingProgram) (task : TaskSpec) : List Nat :=
  task.outputs.map (objectAlias program.toShadowSpillProgram)

/-- No action makes a copy of an alias that has none. -/
theorem applyAction_holds {entry : MemoryAction × Nat}
    (applied : applyAction program tasks schedule before entry = .ok after)
    (held : after.Holds aliasId) : before.Holds aliasId := by
  unfold applyAction at applied
  by_cases same : aliasId = entry.1.aliasId
  · subst same
    split at applied
    · obtain ⟨fetched, _⟩ := check_bind_ok.mp applied
      exact Or.inr (of_decide_eq_true (demand_ok.mp fetched))
    all_goals
      obtain ⟨resident, _⟩ := check_bind_ok.mp applied
      exact Or.inl (of_decide_eq_true (demand_ok.mp resident))
  · split at applied
    all_goals
      simp only [check_bind_ok, apply_ite (· = Except.ok after)] at applied
    · obtain ⟨_, _, applied⟩ := applied
      split_ifs at applied <;> cases applied <;> simpa [Residency.Holds, same] using held
    · obtain ⟨_, _, applied⟩ := applied
      split_ifs at applied <;> cases applied <;> simpa [Residency.Holds, same] using held
    all_goals
      cases applied.2
      simpa [Residency.Holds, same] using held

theorem actions_hold {entries : List (MemoryAction × Nat)}
    (applied : entries.foldlM (applyAction program tasks schedule) before = .ok after)
    (held : after.Holds aliasId) : before.Holds aliasId := by
  induction entries generalizing before with
  | nil =>
      cases applied
      exact held
  | cons entry rest inductionHypothesis =>
      obtain ⟨middle, first, later⟩ := bind_ok.mp applied
      exact applyAction_holds first (inductionHypothesis later)

theorem foldl_holds {Object : Type} {write : Residency → Object → Residency}
    {objects : List Object} (keeps : ∀ residency, ∀ object ∈ objects,
      (write residency object).Holds aliasId → residency.Holds aliasId)
    (held : (objects.foldl write before).Holds aliasId) : before.Holds aliasId := by
  induction objects generalizing before with
  | nil => exact held
  | cons object rest inductionHypothesis =>
      have later := inductionHypothesis
        (fun residency other mem => keeps residency other (List.mem_cons_of_mem object mem)) held
      exact keeps before object List.mem_cons_self later

/-- A task makes copies of what it writes only. -/
theorem recordTaskWrites_holds {task : TaskSpec}
    (unwritten : aliasId ∉ writes program task)
    (held : (recordTaskWrites program task before).Holds aliasId) : before.Holds aliasId := by
  refine foldl_holds ?_ (foldl_holds ?_ held)
  · intro residency object mem held
    have other : aliasId ≠ objectAlias program.toShadowSpillProgram object :=
      fun same => unwritten (List.mem_map.mpr ⟨object, mem, same.symm⟩)
    simp only at held
    split at held
    · exact held
    · simpa [Residency.Holds, other] using held
  · intro residency mutation _ held
    simp only at held
    split at held
    · exact held
    · simp only [Residency.Holds, Finset.mem_erase] at held
      exact held.imp_right fun spilled => ⟨spilled.1, spilled.2.2⟩

theorem walk_holds {index : Nat} {walked : List TaskSpec}
    (passed : walk (walkTask program tasks schedule) index before walked = .ok after)
    (unwritten : ∀ task ∈ walked, aliasId ∉ writes program task)
    (held : after.Holds aliasId) : before.Holds aliasId := by
  induction walked generalizing index before with
  | nil =>
      cases passed
      exact held
  | cons task rest inductionHypothesis =>
      obtain ⟨middle, here, later⟩ := bind_ok.mp passed
      obtain ⟨_, applied⟩ := check_bind_ok.mp here
      have reached := inductionHypothesis later
        (fun other mem => unwritten other (List.mem_cons_of_mem task mem))
      exact recordTaskWrites_holds (unwritten task List.mem_cons_self)
        (actions_hold applied reached)

/-- At each boundary of a valid schedule, what is read before it is written again has a copy
that the reader can have, and so has what the schedule ends with. -/
theorem validated_keeps (valid : validateSelected program tasks schedule = .ok ())
    {earlier later : List TaskSpec} (split : tasks = earlier ++ later) :
    ∃ start residency, initialResidency program schedule = .ok start ∧
      walk (walkTask program tasks schedule) 0 start earlier = .ok residency ∧
      (∀ middle reader rest, later = middle ++ reader :: rest → ∀ object ∈ reader.inputs,
        let aliasId := objectAlias program.toShadowSpillProgram object
        isZeroSize program aliasId = false →
        (∀ task ∈ middle, aliasId ∉ writes program task) →
        residency.Holds aliasId) ∧
      ∀ item ∈ schedule.finalResidency, isZeroSize program item.aliasId = false →
        (∀ task ∈ later, item.aliasId ∉ writes program task) →
        residency.Holds item.aliasId := by
  unfold validateSelected walkTasks at valid
  simp only [bind_ok] at valid
  obtain ⟨start, started, final, ⟨_, _, walked⟩, reached⟩ := valid
  rw [show walk (walkTask program tasks schedule) 0 start tasks =
    walk (walkTask program tasks schedule) 0 start (earlier ++ later) from congrArg _ split,
    walk_append] at walked
  obtain ⟨residency, first, rest⟩ := bind_ok.mp walked
  refine ⟨start, residency, started, first, ?_, ?_⟩
  · rintro middle reader after rfl object reads aliasId sized unwritten
    obtain ⟨there, _, passed, visited⟩ := walk_split rest
    obtain ⟨resident, _⟩ := check_bind_ok.mp visited
    obtain ⟨_, here⟩ := each_ok_mem resident reads
    refine walk_holds passed unwritten (Or.inl ?_)
    simpa [aliasId, sized] using here
  · intro item mem sized unwritten
    obtain ⟨_, here⟩ := each_ok_mem reached mem
    obtain ⟨_, ends⟩ := check_bind_ok.mp here
    refine walk_holds rest unwritten ?_
    rw [sized] at ends
    cases location : item.location <;> simp [location] at ends
    · exact Or.inl ends
    · exact Or.inr ends

end Values

open SelectionOutcome

def unretained : RetainingProgram := { fourWays with retainSpillCopy := fun _ => false }

def waitingTask : TaskSpec :=
  ⟨⟨"wait", "cuda_0", "profile", [], [], [], [], "compute"⟩, by decide⟩

/-- The value is evicted after its writer, fetched after the next task, and promised on the
device. -/
def evictThenFetch : MemorySchedule where
  initialResidency := []
  actions := [⟨0, 0, .evict⟩, ⟨1, 0, .fetch⟩]
  finalResidency := [⟨0, .device⟩]
  initialUnique := List.nodup_nil
  finalUnique := by decide

theorem save_checked :
    TaskFields.check ⟨"save", "cuda_0", "profile", [], [], ["x"], [], "compute"⟩ = .ok () := by
  decide

def keptTasks : List TaskSpec :=
  [writerTask "save" save_checked, waitingTask, readerTask]

/-- The residency after the first tasks. -/
def keptAfter (count : Nat) : Accepted Residency := do
  let start ← initialResidency unretained evictThenFetch
  walk (walkTask unretained keptTasks evictThenFetch) 0 start (keptTasks.take count)

/-- Evicted, the value is kept for its reader, and after the reader for the end. -/
theorem validated_keeps_evicted :
    (∃ residency, keptAfter 1 = .ok residency ∧ 0 ∉ residency.device ∧ residency.Holds 0) ∧
      ∃ residency, keptAfter 3 = .ok residency ∧ 0 ∈ residency.device ∧ residency.Holds 0 := by
  have valid : validateSelected unretained keptTasks evictThenFetch = .ok () := by decide
  have evicted : (keptAfter 1).map (fun residency => decide (0 ∈ residency.device)) =
      .ok false := by decide
  have fetched : (keptAfter 3).map (fun residency => decide (0 ∈ residency.device)) =
      .ok true := by decide
  constructor
  · obtain ⟨start, residency, started, walked, keeps, _⟩ := validated_keeps valid
      (show keptTasks = keptTasks.take 1 ++ [waitingTask, readerTask] from rfl)
    have reached : keptAfter 1 = .ok residency := by
      rw [keptAfter, started]
      exact walked
    rw [reached] at evicted
    refine ⟨residency, reached, of_decide_eq_false (Except.ok.inj evicted), ?_⟩
    exact keeps [waitingTask] readerTask [] rfl "x" (by decide) (by decide) (by decide)
  · obtain ⟨start, residency, started, walked, _, promised⟩ := validated_keeps valid
      (show keptTasks = keptTasks.take 3 ++ [] from rfl)
    have reached : keptAfter 3 = .ok residency := by
      rw [keptAfter, started]
      exact walked
    rw [reached] at fetched
    refine ⟨residency, reached, of_decide_eq_true (Except.ok.inj fetched), ?_⟩
    exact promised ⟨0, .device⟩ (by decide) (by decide) (by simp)

end ShadowSpill.Ir.Schedule
