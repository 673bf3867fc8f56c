import ShadowSpill.Ir.Schedule
import ShadowSpill.Library.Lockstep
import ShadowSpill.Library.NameTables

/-!
# The compiled schedule check

Before it replays a schedule the simulator's library holds it to the rules of a schedule's
validation.  Its `check` reads packed rows of alias positions, keeps one byte of flags for
each alias, and walks the actions with a cursor.  Of the bound programs that the library
takes as well formed it passes those whose schedules validation passes, and refuses the
others, each for the reason for which validation refuses it.
-/

namespace ShadowSpill.Simulator.ScheduleCheck

open Ir.Program Ir.Indexing
open Ir.Schedule (MemoryAction MemorySchedule ResidencySpec RetainingProgram Residency)
open Library.Checks Library.Lockstep Library.NameTables
open Planner.Residency.Problem (MemoryLocation)

/-! ## Flags -/

/-- A byte of three flags. -/
def flagBits (first second third : Bool) : BitVec 8 :=
  (if first then 1 else 0) ||| (if second then 2 else 0) ||| (if third then 4 else 0)

/-- `SHADOWSPILL_ALIAS_SHARED`. -/
def aliasShared : BitVec 8 := 1

/-- `SHADOWSPILL_ALIAS_ZERO_SIZE`. -/
def aliasZeroSize : BitVec 8 := 2

/-- `SHADOWSPILL_ALIAS_RETAINED`. -/
def aliasRetained : BitVec 8 := 4

/-- `ON_DEVICE`. -/
def onDevice : BitVec 8 := 1

/-- `ON_SPILL`. -/
def onSpill : BitVec 8 := 2

/-- `SPILL_CURRENT`. -/
def spillCurrent : BitVec 8 := 4

def marked (bits mask : BitVec 8) : Bool := bits &&& mask != 0

@[simp] theorem marked_device : ∀ first second third,
    marked (flagBits first second third) onDevice = first := by decide

@[simp] theorem marked_shared : ∀ first second third,
    marked (flagBits first second third) aliasShared = first := by decide

@[simp] theorem marked_zeroSize : ∀ first second third,
    marked (flagBits first second third) aliasZeroSize = second := by decide

@[simp] theorem marked_retained : ∀ first second third,
    marked (flagBits first second third) aliasRetained = third := by decide

@[simp] theorem marked_current : ∀ first second third,
    marked (flagBits first second third) spillCurrent = third := by decide

@[simp] theorem spilled_eq : ∀ first second third,
    (flagBits first second third &&& (onSpill ||| spillCurrent) == onSpill ||| spillCurrent) =
      (second && third) := by decide

@[simp] theorem or_device : ∀ first second third,
    flagBits first second third ||| onDevice = flagBits true second third := by decide

@[simp] theorem or_spill : ∀ first second third,
    flagBits first second third ||| (onSpill ||| spillCurrent) = flagBits first true true := by
  decide

@[simp] theorem clear_device : ∀ first second third,
    flagBits first second third &&& ~~~onDevice = flagBits false second third := by decide

@[simp] theorem clear_spill : ∀ first second third,
    flagBits first second third &&& ~~~(onSpill ||| spillCurrent) =
      flagBits first false false := by decide

@[simp] theorem clear_current : ∀ first second third,
    flagBits first second third &&& ~~~spillCurrent = flagBits first second false := by decide

/-! ## The check -/

/-- What a check reads of a `ShadowSpillSimulationProgram`: the aliases of each task in packed
rows, and the schedule. -/
structure BoundProgram where
  taskCount : Nat
  inputs : List Nat × List Nat
  outputs : List Nat × List Nat
  mutations : List Nat × List Nat
  actions : List MemoryAction
  initial : List ResidencySpec
  final : List ResidencySpec

/-- `ShadowSpillScheduleRefusal`. -/
inductive Refusal where
  | initialRuntimeOwned
  | actionRuntimeOwned
  | actionZeroSize
  | actionOrder
  | inputNotResident
  | fetchWithoutHostCopy
  | fetchAlreadyResident
  | notDeviceResident
  | releaseOnlyCopy
  | finalRuntimeOwned
  | finalNotReached
deriving DecidableEq, Repr

/-- `ShadowSpillScheduleCheck`, of a schedule that is refused. -/
structure Refused where
  refusal : Refusal
  index : Nat
  aliasId : Nat
deriving DecidableEq, Repr

abbrev Copies := Nat → BitVec 8

def refuseUnless (passes : Bool) (refusal : Refusal) (index aliasId : Nat) :
    Except Refused Unit :=
  if passes then .ok () else .error ⟨refusal, index, aliasId⟩

/-- The last task that reads or mutates each alias. -/
def lastReaders (program : BoundProgram) : Nat → Option Nat :=
  (List.range program.taskCount).foldl (fun readers task =>
    (rowAt program.inputs task ++ rowAt program.mutations task).foldl
      (fun readers aliasId => Function.update readers aliasId (some task)) readers)
    fun _ => none

section Check

variable (program : BoundProgram) (flags : Nat → BitVec 8)

/-- `apply_action`. -/
def applyAction (index : Nat) (state : Copies) (action : MemoryAction) :
    Except Refused Copies := do
  let aliasId := action.aliasId
  let copies := state aliasId
  let dropped (bits : BitVec 8) : BitVec 8 :=
    if marked (flags aliasId) aliasRetained then bits else bits &&& ~~~(onSpill ||| spillCurrent)
  match action.kind with
  | .fetch =>
    refuseUnless (copies &&& (onSpill ||| spillCurrent) == onSpill ||| spillCurrent)
      .fetchWithoutHostCopy index aliasId
    refuseUnless (!marked copies onDevice) .fetchAlreadyResident index aliasId
    pure (Function.update state aliasId (dropped (copies ||| onDevice)))
  | .release =>
    refuseUnless (marked copies onDevice) .notDeviceResident index aliasId
    let stillNeeded := decide (aliasId ∈ program.final.map (·.aliasId)) ||
      !(lastReaders program aliasId).all (· ≤ action.trigger)
    refuseUnless (marked copies spillCurrent || !stillNeeded) .releaseOnlyCopy index aliasId
    pure (Function.update state aliasId (dropped (copies &&& ~~~onDevice)))
  | .writeBack =>
    refuseUnless (marked copies onDevice) .notDeviceResident index aliasId
    pure (Function.update state aliasId (copies ||| (onSpill ||| spillCurrent)))
  | .evict =>
    refuseUnless (marked copies onDevice) .notDeviceResident index aliasId
    pure (Function.update state aliasId ((copies ||| (onSpill ||| spillCurrent)) &&& ~~~onDevice))

def startAt (index : Nat) (state : Copies) (item : ResidencySpec) : Except Refused Copies := do
  refuseUnless (!marked (flags item.aliasId) aliasShared) .initialRuntimeOwned index item.aliasId
  if marked (flags item.aliasId) aliasZeroSize then pure state
  else pure (Function.update state item.aliasId (state item.aliasId |||
    match item.location with
    | .device => onDevice
    | .spill => onSpill ||| spillCurrent))

/-- The starting residency. -/
def start : Except Refused Copies :=
  walk (startAt flags) 0
    (fun aliasId => (if marked (flags aliasId) aliasShared then onDevice else 0) |||
      (if marked (flags aliasId) aliasRetained then onSpill ||| spillCurrent else 0))
    program.initial

/-- No action is triggered before the one before it. -/
def follows (actions : List MemoryAction) (index : Nat) (action : MemoryAction) : Bool :=
  index = 0 || (actions[index - 1]?).all (·.trigger ≤ action.trigger)

/-- An action's own facts. -/
def checkAction (index : Nat) (action : MemoryAction) : Except Refused Unit := do
  refuseUnless (!marked (flags action.aliasId) aliasShared) .actionRuntimeOwned index action.aliasId
  refuseUnless (!marked (flags action.aliasId) aliasZeroSize) .actionZeroSize index action.aliasId
  refuseUnless (follows program.actions index action) .actionOrder index action.aliasId

/-- A task's writes to the aliases of one of its rows. -/
def writeRow (change : BitVec 8 → BitVec 8) (row : List Nat) (state : Copies) : Copies :=
  row.foldl (fun state aliasId =>
    if marked (flags aliasId) aliasZeroSize then state
    else Function.update state aliasId (change (state aliasId))) state

/-- One task: its inputs, its writes, and the actions from the cursor that it triggers. -/
def walkTask (task : Nat) (walked : Copies × Nat) (_ : Unit) : Except Refused (Copies × Nat) := do
  each (fun _ aliasId =>
    refuseUnless (marked (flags aliasId) aliasZeroSize || marked (walked.1 aliasId) onDevice)
      .inputNotResident task aliasId) 0 (rowAt program.inputs task)
  let written := writeRow flags (fun copies => (copies ||| onDevice) &&& ~~~spillCurrent)
    (rowAt program.outputs task) walked.1
  let mutated := writeRow flags (· &&& ~~~spillCurrent) (rowAt program.mutations task) written
  let triggered := (program.actions.drop walked.2).takeWhile (·.trigger = task)
  let state ← walk (applyAction program flags) walked.2 mutated triggered
  pure (state, walked.2 + triggered.length)

/-- The promised residency is reached. -/
def checkFinal (state : Copies) (index : Nat) (item : ResidencySpec) : Except Refused Unit := do
  let copies := state item.aliasId
  refuseUnless (!marked (flags item.aliasId) aliasShared) .finalRuntimeOwned index item.aliasId
  refuseUnless (marked (flags item.aliasId) aliasZeroSize ||
    match item.location with
    | .device => marked copies onDevice
    | .spill => copies &&& (onSpill ||| spillCurrent) == onSpill ||| spillCurrent)
    .finalNotReached index item.aliasId

/-- `check`. -/
def check : Except Refused Unit := do
  let state ← start program flags
  each (checkAction program flags) 0 program.actions
  let walked ← walk (walkTask program flags) 0 (state, 0) (List.replicate program.taskCount ())
  each (checkFinal flags walked.1) 0 program.final

end Check

/-! ## Binding -/

/-- `_alias_flags`. -/
def aliasFlags (program : RetainingProgram) (aliasId : Nat) : BitVec 8 :=
  flagBits (isShared program.toShadowSpillProgram aliasId) (Ir.Schedule.isZeroSize program aliasId)
    (aliasId < program.aliasGroups.length && program.retainSpillCopy aliasId)

/-- The schedule names selected tasks and aliases of the program only, so that each name has a
position. -/
structure Binds (program : RetainingProgram) (tasks : List TaskSpec)
    (schedule : MemorySchedule) : Prop where
  triggers : ∀ action ∈ schedule.actions, action.trigger < tasks.length
  actions : ∀ action ∈ schedule.actions, action.aliasId < program.aliasGroups.length
  initial : ∀ item ∈ schedule.initialResidency, item.aliasId < program.aliasGroups.length
  final : ∀ item ∈ schedule.finalResidency, item.aliasId < program.aliasGroups.length

section Agreement

variable (program : RetainingProgram) (tasks : List TaskSpec) (schedule : MemorySchedule)

/-- The aliases of some objects. -/
def aliasesOf (objects : List String) : List Nat :=
  objects.map (objectAlias program.toShadowSpillProgram)

/-- `_bind_schedule` on the rows of `_task_rows`. -/
def bindSchedule : BoundProgram where
  taskCount := tasks.length
  inputs := flattenRows (tasks.map fun task => fromKeys (aliasesOf program task.inputs))
  outputs := flattenRows (tasks.map fun task => fromKeys (aliasesOf program task.outputs))
  mutations := flattenRows
    (tasks.map fun task => aliasesOf program (task.mutations.map (·.objectId)))
  actions := schedule.actions
  initial := schedule.initialResidency
  final := schedule.finalResidency

/-- `schedule_refusal`. -/
def scheduleRefusal (refused : Refused) : Option Ir.Schedule.ScheduleRefusal :=
  let index := refused.index
  match refused.refusal with
  | .initialRuntimeOwned => some ⟨.initialResidency index, .runtimeOwned⟩
  | .actionRuntimeOwned => some ⟨.action index, .sharedAction⟩
  | .actionZeroSize => some ⟨.action index, .zeroSizeAction⟩
  | .actionOrder => some ⟨.action index, .unordered⟩
  | .inputNotResident => some ⟨.taskInputs index, .inputNotResident refused.aliasId⟩
  | .fetchWithoutHostCopy => some ⟨.action index, .fetchNeedsSpill⟩
  | .fetchAlreadyResident => some ⟨.action index, .fetchNeedsAbsence⟩
  | .notDeviceResident =>
    (schedule.actions[index]?).map fun action => ⟨.action index, .needsDevice action.kind⟩
  | .releaseOnlyCopy => some ⟨.action index, .dropsOnlyCopy⟩
  | .finalRuntimeOwned => some ⟨.finalResidency index, .runtimeOwned⟩
  | .finalNotReached =>
    (schedule.finalResidency[index]?).map fun item =>
      ⟨.finalResidency index, .notReached item.location⟩

/-- `check` on a bound schedule, and the refusal that `_check_projection` raises for it.  What
the library asks of the bound program before, in `shadowspill_validate_program`, comes first
and is another matter: a program it does not take is a `RuntimeError`. -/
def checkBound : Except (Option Ir.Schedule.ScheduleRefusal) Unit :=
  (check (bindSchedule program tasks schedule) (aliasFlags program)).mapError
    (scheduleRefusal schedule)

variable {program tasks schedule}

/-! ## What the bytes stand for -/

/-- The byte of an alias in a residency. -/
def copiesOf (residency : Residency) : Copies := fun aliasId =>
  flagBits (aliasId ∈ residency.device) (aliasId ∈ residency.spill)
    (aliasId ∈ residency.spillCurrent)

/-- What a check reports is what validation reports. -/
def Reported (schedule : MemorySchedule) (refusal : Ir.Schedule.ScheduleRefusal)
    (refused : Refused) : Prop :=
  scheduleRefusal schedule refused = some refusal

abbrev Agree (schedule : MemorySchedule) {α β : Type} (values : α → β → Prop)
    (validation : Ir.Schedule.Accepted α) (compiled : Except Refused β) : Prop :=
  InStep values (Reported schedule) validation compiled

theorem agree_demand {condition test : Bool} {place : Ir.Schedule.SchedulePlace}
    {reason : Ir.Schedule.RefusalReason} {refusal : Refusal} {index aliasId : Nat}
    (same : condition = test)
    (reported : scheduleRefusal schedule ⟨refusal, index, aliasId⟩ = some ⟨place, reason⟩) :
    Agree schedule (fun (_ _ : Unit) => True) (Ir.Schedule.demand condition place reason)
      (refuseUnless test refusal index aliasId) :=
  InStep.guard same reported

/-- The state of a check is the residency of validation. -/
abbrev Mirrors (residency : Residency) (state : Copies) : Prop := state = copiesOf residency

/-- Where one alias's copies change, its byte does. -/
theorem updated_eq {before after : Residency} {aliasId : Nat} {bits : BitVec 8}
    (here : copiesOf after aliasId = bits := by simp [copiesOf])
    (others : ∀ other, other ≠ aliasId → copiesOf after other = copiesOf before other := by
      simp +contextual [copiesOf]) :
    Function.update (copiesOf before) aliasId bits = copiesOf after := by
  subst here
  funext other
  by_cases same : other = aliasId
  · rw [same, Function.update_self]
  · rw [Function.update_of_ne same, others other same]

/-! ## The starting residency -/

theorem agree_planOwned {aliasId index : Nat} {place : Ir.Schedule.SchedulePlace}
    {reason : Ir.Schedule.RefusalReason} {refusal : Refusal}
    (known : aliasId < program.aliasGroups.length)
    (reported : scheduleRefusal schedule ⟨refusal, index, aliasId⟩ = some ⟨place, reason⟩) :
    Agree schedule (fun (_ _ : Unit) => True)
      (Ir.Schedule.requirePlanOwned program aliasId place reason)
      (refuseUnless (!marked (aliasFlags program aliasId) aliasShared) refusal index aliasId) := by
  unfold Ir.Schedule.requirePlanOwned
  rw [decide_eq_true known]
  refine agree_demand ?_ reported
  rw [aliasFlags, marked_shared]

theorem agree_startAt {item : ResidencySpec} (index : Nat) (residency : Residency)
    (known : item.aliasId < program.aliasGroups.length) :
    Agree schedule Mirrors (Ir.Schedule.startAt program index residency item)
      (startAt (aliasFlags program) index (copiesOf residency) item) := by
  unfold Ir.Schedule.startAt startAt
  refine InStep.bind (agree_planOwned known rfl) fun _ _ _ => ?_
  rw [aliasFlags, marked_zeroSize]
  cases Ir.Schedule.isZeroSize program item.aliasId with
  | true => exact InStep.ok rfl
  | false =>
      cases item.location with
      | device => exact InStep.ok updated_eq
      | spill => exact InStep.ok updated_eq

theorem agree_start (binds : Binds program tasks schedule) :
    Agree schedule Mirrors (Ir.Schedule.initialResidency program schedule)
      (start (bindSchedule program tasks schedule) (aliasFlags program)) := by
  unfold Ir.Schedule.initialResidency start
  refine InStep.walk_same (fun _ => Mirrors) ?_ ?_
  · funext aliasId
    have owned : isShared program.toShadowSpillProgram aliasId = true →
        aliasId < program.aliasGroups.length := by
      intro shared
      by_contra beyond
      rw [isShared, List.getElem?_eq_none (Nat.le_of_not_lt beyond)] at shared
      cases shared
    simp only [aliasFlags, marked_shared, marked_retained, copiesOf, Ir.Schedule.sharedAliases,
      Ir.Schedule.retainedAliases, Finset.mem_filter, Finset.mem_range,
      and_iff_right_of_imp owned, Bool.decide_and, Bool.decide_eq_true]
    generalize isShared program.toShadowSpillProgram aliasId = shared
    generalize (decide (aliasId < program.aliasGroups.length) &&
      program.retainSpillCopy aliasId) = retained
    revert shared retained
    decide
  · rintro position item found residency _ rfl
    exact agree_startAt _ residency (binds.initial item (List.mem_of_getElem? found))

/-! ## Actions -/

/-- Who touches an alias last, by what each entry touches. -/
theorem foldl_last (touches : Nat → List Nat) (entries : List Nat) (aliasId : Nat) :
    (entries.foldl (fun readers entry => (touches entry).foldl
      (fun readers aliasId => Function.update readers aliasId (some entry)) readers)
      fun _ => none) aliasId = (entries.filter (aliasId ∈ touches ·)).getLast? := by
  have row : ∀ (values : List Nat) (entry : Nat) (readers : Nat → Option Nat),
      values.foldl (fun readers aliasId => Function.update readers aliasId (some entry)) readers
        aliasId = if aliasId ∈ values then some entry else readers aliasId := by
    intro values entry
    induction values with
    | nil => simp
    | cons head rest inductionHypothesis =>
        intro readers
        rw [List.foldl_cons, inductionHypothesis]
        by_cases later : aliasId ∈ rest
        · simp [later]
        · by_cases same : aliasId = head <;> simp [later, same]
  induction entries using List.reverseRecOn with
  | nil => rfl
  | append_singleton entries entry inductionHypothesis =>
      rw [List.foldl_append, List.foldl_cons, List.foldl_nil, row, inductionHypothesis,
        List.filter_append]
      by_cases touched : aliasId ∈ touches entry <;> simp [touched]

theorem lastReaders_eq (aliasId : Nat) :
    lastReaders (bindSchedule program tasks schedule) aliasId =
      Ir.Schedule.lastReader program tasks aliasId := by
  unfold lastReaders Ir.Schedule.lastReader
  rw [foldl_last, ← List.getLast?_map, show List.range (bindSchedule program tasks
    schedule).taskCount = tasks.zipIdx.map Prod.snd by
      rw [List.zipIdx_map_snd, List.range_eq_range']; rfl, List.filter_map]
  congr 2
  refine List.filter_congr ?_
  rintro ⟨task, index⟩ mem
  have found := List.mk_mem_zipIdx_iff_getElem?.mp mem
  simp [bindSchedule, aliasesOf, rowAt_flattenRows, found]

theorem agree_applyAction (binds : Binds program tasks schedule) {index : Nat}
    {action : MemoryAction} (found : schedule.actions[index]? = some action)
    (residency : Residency) :
    Agree schedule Mirrors
      (Ir.Schedule.applyAction program tasks schedule residency (action, index))
      (applyAction (bindSchedule program tasks schedule) (aliasFlags program) index
        (copiesOf residency) action) := by
  have known := binds.actions action (List.mem_of_getElem? found)
  have retained : marked (aliasFlags program action.aliasId) aliasRetained =
      program.retainSpillCopy action.aliasId := by
    rw [aliasFlags, marked_retained, decide_eq_true known, Bool.true_and]
  have needed : scheduleRefusal schedule ⟨.notDeviceResident, index, action.aliasId⟩ =
      some ⟨.action index, .needsDevice action.kind⟩ := by
    simp [scheduleRefusal, found]
  unfold Ir.Schedule.applyAction applyAction
  simp only [retained, lastReaders_eq]
  rcases kind : action.kind with _ | _ | _ | _
  case fetch =>
    refine InStep.bind (agree_demand (by simp [copiesOf]) rfl) fun _ _ _ => ?_
    refine InStep.bind (agree_demand (by simp [copiesOf]) rfl) fun _ _ _ => ?_
    cases program.retainSpillCopy action.aliasId with
    | true => exact InStep.ok updated_eq
    | false => exact InStep.ok updated_eq
  case release =>
    refine InStep.bind (agree_demand (by simp [copiesOf]) (kind ▸ needed)) fun _ _ _ => ?_
    refine InStep.bind (agree_demand (Bool.eq_iff_iff.mpr (by simp [copiesOf, bindSchedule])) rfl)
      fun _ _ _ => ?_
    cases program.retainSpillCopy action.aliasId with
    | true => exact InStep.ok updated_eq
    | false => exact InStep.ok updated_eq
  case writeBack =>
    refine InStep.bind (agree_demand (by simp [copiesOf]) (kind ▸ needed)) fun _ _ _ => ?_
    exact InStep.ok updated_eq
  case evict =>
    refine InStep.bind (agree_demand (by simp [copiesOf]) (kind ▸ needed)) fun _ _ _ => ?_
    exact InStep.ok updated_eq

/-- The latest trigger before a position. -/
def previousTrigger (schedule : MemorySchedule) (position : Nat) : Int :=
  if position = 0 then -1
  else ((schedule.actions[position - 1]?).map fun action => (action.trigger : Int)).getD (-1)

theorem follows_eq {position : Nat} {action : MemoryAction}
    (found : schedule.actions[position]? = some action) :
    follows schedule.actions position action =
      decide (previousTrigger schedule position ≤ action.trigger) := by
  cases position with
  | zero => simp [follows, previousTrigger]
  | succ position =>
      obtain ⟨inside, _⟩ := List.getElem?_eq_some_iff.mp found
      simp [follows, previousTrigger, List.getElem?_eq_getElem (Nat.lt_of_succ_lt inside)]

/-- Actions that pass on their own are ordered by their triggers. -/
theorem agree_checkAction (binds : Binds program tasks schedule) :
    Agree schedule (fun _ _ => (schedule.actions.map (·.trigger)).Pairwise (· ≤ ·))
      (walk (Ir.Schedule.orderAction program tasks) 0 (-1) schedule.actions)
      (each (checkAction (bindSchedule program tasks schedule) (aliasFlags program)) 0
        schedule.actions) := by
  rw [each_eq_walk]
  refine InStep.mono (InStep.walk_same (fun position previous (_ : Unit) =>
    previous = previousTrigger schedule position ∧
      ((schedule.actions.take position).map (·.trigger)).Pairwise (· ≤ ·) ∧
      ∀ action ∈ schedule.actions.take position, (action.trigger : Int) ≤ previous) ?_ ?_) ?_
  · exact ⟨rfl, by simp⟩
  · rintro position action found previous _ ⟨rfl, sorted, above⟩
    rw [Nat.zero_add] at above sorted ⊢
    have mem := List.mem_of_getElem? found
    unfold Ir.Schedule.orderAction checkAction
    rw [decide_eq_true (binds.triggers action mem)]
    show InStep _ _ (Ir.Schedule.requirePlanOwned program action.aliasId _ _ >>= _) _
    refine InStep.bind (agree_planOwned (binds.actions action mem) rfl) fun _ _ _ => ?_
    refine InStep.bind (agree_demand (by rw [aliasFlags, marked_zeroSize]) rfl) fun _ _ _ => ?_
    show InStep _ _ _ (refuseUnless (follows schedule.actions position action) _ _ _)
    rw [follows_eq found]
    by_cases fits : previousTrigger schedule position ≤ action.trigger
    · rw [decide_eq_true fits]
      refine InStep.ok ⟨by simp [previousTrigger, found], ?_⟩
      rw [List.take_add_one, found, Option.toList_some, List.map_append, List.pairwise_append]
      constructor
      · refine ⟨sorted, List.pairwise_singleton _ _, ?_⟩
        intro trigger earlier other here
        obtain ⟨before, inside, rfl⟩ := List.mem_map.mp earlier
        rw [List.mem_singleton.mp here]
        have bound := above before inside
        show before.trigger ≤ action.trigger
        omega
      · intro other inside
        rcases List.mem_append.mp inside with earlier | here
        · exact (above other earlier).trans fits
        · rw [List.mem_singleton.mp here]
    · rw [decide_eq_false fits]
      exact InStep.error rfl
  · intro _ _ after
    rw [Nat.zero_add, List.take_length] at after
    exact after.2.1

/-! ## Tasks -/

theorem writeRow_eq {change : BitVec 8 → BitVec 8} (flags : Nat → BitVec 8)
    (settles : ∀ bits, change (change bits) = change bits) (row : List Nat) (state : Copies) :
    writeRow flags change row state = fun aliasId =>
      if aliasId ∈ row ∧ marked (flags aliasId) aliasZeroSize = false then change (state aliasId)
      else state aliasId := by
  unfold writeRow
  induction row generalizing state with
  | nil => simp
  | cons head rest inductionHypothesis =>
      rw [List.foldl_cons, inductionHypothesis]
      funext aliasId
      by_cases same : aliasId = head
      · subst same
        cases marked (flags aliasId) aliasZeroSize <;> simp [settles]
      · cases marked (flags head) aliasZeroSize <;> simp [same]

/-- A row is written as often as its aliases are repeated, which makes no difference. -/
theorem writeRow_fromKeys {change : BitVec 8 → BitVec 8} (flags : Nat → BitVec 8)
    (settles : ∀ bits, change (change bits) = change bits) (row : List Nat) (state : Copies) :
    writeRow flags change (fromKeys row) state = writeRow flags change row state := by
  rw [writeRow_eq flags settles, writeRow_eq flags settles]
  simp only [mem_fromKeys]

theorem writeRow_aliasesOf (record : Residency → Nat → Residency) {change : BitVec 8 → BitVec 8}
    (changes : ∀ residency aliasId, Function.update (copiesOf residency) aliasId
      (change (copiesOf residency aliasId)) = copiesOf (record residency aliasId))
    (objects : List String) (residency : Residency) :
    writeRow (aliasFlags program) change (aliasesOf program objects) (copiesOf residency) =
      copiesOf (objects.foldl (fun residency object =>
        let aliasId := objectAlias program.toShadowSpillProgram object
        if Ir.Schedule.isZeroSize program aliasId then residency else record residency aliasId)
        residency) := by
  induction objects generalizing residency with
  | nil => rfl
  | cons object rest inductionHypothesis =>
      refine Eq.trans ?_ (inductionHypothesis _)
      show writeRow _ _ (aliasesOf program rest) (if marked (aliasFlags program _) aliasZeroSize
        then _ else _) = _
      rw [aliasFlags, marked_zeroSize, changes]
      cases zero : Ir.Schedule.isZeroSize program (objectAlias program.toShadowSpillProgram object)
        <;> simp [zero]

theorem agree_recordTaskWrites (program : RetainingProgram) {index : Nat} {task : TaskSpec}
    (found : tasks[index]? = some task) (residency : Residency) :
    writeRow (aliasFlags program) (· &&& ~~~spillCurrent)
      (rowAt (bindSchedule program tasks schedule).mutations index)
      (writeRow (aliasFlags program) (fun copies => (copies ||| onDevice) &&& ~~~spillCurrent)
        (rowAt (bindSchedule program tasks schedule).outputs index) (copiesOf residency)) =
      copiesOf (Ir.Schedule.recordTaskWrites program task residency) := by
  have outputs : rowAt (bindSchedule program tasks schedule).outputs index =
      fromKeys (aliasesOf program task.outputs) :=
    rowAt_flattenRows (by rw [List.getElem?_map, found]; rfl)
  have mutations : rowAt (bindSchedule program tasks schedule).mutations index =
      aliasesOf program (task.mutations.map (·.objectId)) :=
    rowAt_flattenRows (by rw [List.getElem?_map, found]; rfl)
  rw [outputs, mutations, writeRow_fromKeys _ (by decide +kernel)]
  rw [writeRow_aliasesOf (fun residency aliasId => { residency with
      device := insert aliasId residency.device
      spillCurrent := residency.spillCurrent.erase aliasId })
      (fun residency aliasId => updated_eq),
    writeRow_aliasesOf (fun residency aliasId => { residency with
      spillCurrent := residency.spillCurrent.erase aliasId })
      (fun residency aliasId => updated_eq),
    Ir.Schedule.recordTaskWrites, List.foldl_map]

theorem agree_inputs {index : Nat} {task : TaskSpec} (found : tasks[index]? = some task)
    (residency : Residency) :
    Agree schedule (fun _ _ => True)
      (Ir.Schedule.requireInputsResident program task index residency)
      (each (fun _ aliasId => refuseUnless (marked (aliasFlags program aliasId) aliasZeroSize ||
        marked (copiesOf residency aliasId) onDevice) .inputNotResident index aliasId) 0
        (rowAt (bindSchedule program tasks schedule).inputs index)) := by
  have row : rowAt (bindSchedule program tasks schedule).inputs index =
      fromKeys (aliasesOf program task.inputs) :=
    rowAt_flattenRows (by rw [List.getElem?_map, found]; rfl)
  rw [row, each_fromKeys]
  apply InStep.each
  intro _ object _
  show InStep _ _ (if Ir.Schedule.isZeroSize program (objectAlias _ object) then _ else _) _
  rw [aliasFlags, marked_zeroSize, copiesOf, marked_device]
  cases Ir.Schedule.isZeroSize program (objectAlias program.toShadowSpillProgram object) with
  | true => exact InStep.ok trivial
  | false => exact agree_demand (Bool.false_or _).symm rfl

/-- In an ordered list the elements with one key are a stretch, after those with smaller
ones. -/
theorem filter_zipIdx_eq {α : Type} (key : α → Nat) {values : List α} (bound start : Nat)
    (ordered : values.Pairwise fun one other => key one ≤ key other) :
    let cursor := (values.filter (key · < bound)).length
    let stretch := (values.drop cursor).takeWhile (key · = bound)
    (values.zipIdx start).filter (key ·.1 = bound) = stretch.zipIdx (start + cursor) ∧
      (values.filter (key · < bound + 1)).length = cursor + stretch.length := by
  induction values generalizing start with
  | nil => simp
  | cons head rest inductionHypothesis =>
      obtain ⟨above, ordered⟩ := List.pairwise_cons.mp ordered
      obtain ⟨stretch, moved⟩ := inductionHypothesis (start + 1) ordered
      rcases Nat.lt_or_ge (key head) bound with below | reached
      · have other := Nat.ne_of_lt below
        simp only [List.zipIdx_cons, List.filter_cons, below, other, Nat.lt_succ_of_lt below,
          decide_true, decide_false, if_true, if_false, List.length_cons, List.drop_succ_cons,
          Bool.false_eq_true]
        exact ⟨by rw [stretch]; congr 1; omega, by rw [moved]; omega⟩
      · have smaller : (head :: rest).filter (key · < bound) = [] := by
          refine List.filter_eq_nil_iff.mpr fun value mem => ?_
          rcases List.mem_cons.mp mem with rfl | later
          · simpa using reached
          · simpa using reached.trans (above value later)
        have others := List.filter_eq_nil_iff.mpr fun value mem =>
          List.filter_eq_nil_iff.mp smaller value (List.mem_cons_of_mem head mem)
        rw [others, List.length_nil, List.drop_zero] at stretch moved
        simp only [smaller, List.length_nil, List.drop_zero, Nat.add_zero, Nat.zero_add]
          at stretch moved ⊢
        by_cases same : key head = bound
        · rw [List.takeWhile_cons_of_pos (by simpa using same), List.zipIdx_cons,
            List.filter_cons_of_pos (by simpa using same), stretch, List.zipIdx_cons,
            List.filter_cons_of_pos (by simp [same]), List.length_cons, moved, List.length_cons]
          exact ⟨rfl, rfl⟩
        · have beyond : ∀ value ∈ head :: rest, bound < key value := by
            intro value mem
            rcases List.mem_cons.mp mem with rfl | later
            · omega
            · exact (above value later).trans_lt' (by omega)
          rw [List.takeWhile_cons_of_neg (by simpa using same)]
          constructor
          · refine List.filter_eq_nil_iff.mpr fun entry mem => ?_
            have bigger := beyond entry.1 (List.fst_mem_of_mem_zipIdx mem)
            simpa using Nat.ne_of_gt bigger
          · refine List.length_eq_zero_iff.mpr (List.filter_eq_nil_iff.mpr fun value mem => ?_)
            simpa using beyond value mem

/-- The cursor is past the actions of the tasks before. -/
def cursorAt (schedule : MemorySchedule) (task : Nat) : Nat :=
  (schedule.actions.filter (·.trigger < task)).length

theorem agree_walkTask (binds : Binds program tasks schedule)
    (ordered : (schedule.actions.map (·.trigger)).Pairwise (· ≤ ·))
    {index : Nat} {task : TaskSpec} (found : tasks[index]? = some task) (residency : Residency) :
    Agree schedule
      (fun residency walked => walked = (copiesOf residency, cursorAt schedule (index + 1)))
      (Ir.Schedule.walkTask program tasks schedule index residency task)
      (walkTask (bindSchedule program tasks schedule) (aliasFlags program) index
        (copiesOf residency, cursorAt schedule index) ()) := by
  obtain ⟨triggered, moved⟩ := filter_zipIdx_eq MemoryAction.trigger index 0
    (List.pairwise_map.mp ordered)
  unfold Ir.Schedule.walkTask walkTask
  refine InStep.bind (agree_inputs found residency) fun _ _ _ => ?_
  dsimp only
  rw [agree_recordTaskWrites program found residency, triggered, Nat.zero_add,
    ← walk_eq_foldlM fun index residency action =>
      Ir.Schedule.applyAction program tasks schedule residency (action, index),
    ← bind_pure (walk _ _ _ _)]
  refine InStep.bind (?_ : InStep Mirrors _ _ _) fun after state same => ?_
  · refine InStep.walk_same (fun _ => Mirrors) rfl ?_
    rintro position action inside before _ rfl
    refine agree_applyAction binds ?_ before
    obtain ⟨bound, rfl⟩ := List.getElem?_eq_some_iff.mp inside
    rw [← List.getElem?_drop, (List.takeWhile_prefix _).getElem bound]
    exact List.getElem?_eq_getElem _
  · exact InStep.ok (same ▸ congrArg (Prod.mk (copiesOf after)) moved.symm)

/-! ## The whole check -/

theorem agree_final (binds : Binds program tasks schedule) (residency : Residency) :
    Agree schedule (fun _ _ => True) (Ir.Schedule.finalResidencyReached program schedule residency)
      (each (checkFinal (aliasFlags program) (copiesOf residency)) 0
        schedule.finalResidency) := by
  rw [← List.map_id schedule.finalResidency]
  unfold Ir.Schedule.finalResidencyReached
  apply InStep.each
  intro position item found
  rw [Nat.zero_add]
  refine InStep.bind (agree_planOwned (binds.final item (List.mem_of_getElem? found)) rfl)
    fun _ _ _ => ?_
  rw [id_eq, aliasFlags, marked_zeroSize]
  cases Ir.Schedule.isZeroSize program item.aliasId with
  | true => exact InStep.ok trivial
  | false =>
      refine agree_demand ?_ (by simp [scheduleRefusal, found])
      cases item.location <;> simp [copiesOf]

/-- The rules that `check` holds a bound schedule to are those of its validation: both pass
it, or both refuse it with one refusal. -/
theorem checkBound_eq (binds : Binds program tasks schedule) :
    checkBound program tasks schedule =
      (Ir.Schedule.validateSelected program tasks schedule).mapError some := by
  have agree : Agree schedule (fun _ _ => True)
      (Ir.Schedule.validateSelected program tasks schedule)
      (check (bindSchedule program tasks schedule) (aliasFlags program)) := by
    unfold Ir.Schedule.validateSelected Ir.Schedule.walkTasks check
    refine InStep.bind (agree_start binds) ?_
    rintro residency _ rfl
    rw [bind_assoc]
    refine InStep.bind (agree_checkAction binds) fun _ _ ordered => ?_
    rw [show List.replicate (bindSchedule program tasks schedule).taskCount () =
      tasks.map fun _ => () from List.map_const'.symm]
    refine InStep.bind (InStep.walk (fun index residency walked =>
      walked = (copiesOf residency, cursorAt schedule index)) ?_ ?_) ?_
    · simp [cursorAt]
    · rintro index task found before _ rfl
      rw [Nat.zero_add]
      exact agree_walkTask binds ordered found before
    · rintro after _ rfl
      exact agree_final binds after
  exact (agree.mapError_eq fun _ _ reported => reported.symm).symm

end Agreement

open Ir.SelectionOutcome in
/-- Releasing what a later task reads is refused alike. -/
theorem checkBound_releases :
    checkBound { fourWays with retainSpillCopy := fun _ => false }
      [writerTask "save" (by decide), readerTask]
      ⟨[], [⟨0, 0, .release⟩], [], by decide, by decide⟩ =
        .error (some ⟨.action 0, .dropsOnlyCopy⟩) :=
  (checkBound_eq ⟨by decide, by decide, by decide, by decide⟩).trans (by decide)

end ShadowSpill.Simulator.ScheduleCheck
