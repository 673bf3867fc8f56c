import ShadowSpill.Ir.Program

/-!
# Resolving a program

One option for every group makes the program concrete: the tasks without a group and the
tasks of the chosen options, each with its active dependencies.  The most recent
resolution is kept.
-/

namespace ShadowSpill.Ir.Selection

open Validation Program Library.Checks

structure TaskAlternativeChoice where
  groupId : String
  optionId : String
  deriving DecidableEq, Repr

/-- The task with its dependencies on inactive tasks dropped: the task itself when it has
none. -/
def withoutInactiveDependencies (active : List String) (task : TaskSpec) :
    Checked TaskSpec :=
  let dependencies := task.dependencies.filter fun dependency => dependency ∈ active
  if dependencies.length = task.dependencies.length then .ok task
  else TaskSpec.make { task.toTaskFields with dependencies := dependencies }

/-- The tasks of every option, and of the chosen ones. -/
structure Variants where
  variantTasks : List String
  activeVariantTasks : List String

/-- The choice that a dictionary by group holds: the last one for the group. -/
def choiceOf (choices : List TaskAlternativeChoice) (group : String) :
    Option TaskAlternativeChoice :=
  choices.reverse.find? (·.groupId = group)

def selectGroup (choices : List TaskAlternativeChoice) (_ : Nat) (variants : Variants)
    (group : TaskAlternativeGroup) : Checked Variants :=
  match choiceOf choices group.groupId with
  | none => .error ⟨"selections", .everyGroup⟩
  | some choice =>
    match group.options.reverse.find? (·.optionId = choice.optionId) with
    | none => .error ⟨"selections", .unknownOption choice.optionId group.groupId⟩
    | some option =>
      .ok {
        variantTasks := variants.variantTasks ++ group.options.flatMap (·.activeTaskIds)
        activeVariantTasks := variants.activeVariantTasks ++ option.activeTaskIds }

/-- The producer of an object among the selected tasks so far. -/
def producerOf (object : String) (producedBy : List (String × String)) : Option String :=
  (producedBy.find? fun entry => entry.1 = object).map (·.2)

def selectOutput (task : TaskSpec) (_ : Nat) (producedBy : List (String × String))
    (output : String) : Checked (List (String × String)) := do
  require ((producerOf output producedBy).isNone) "selections" (.producedTwice output)
  pure (producedBy ++ [(output, task.taskId)])

def selectInput (task : TaskSpec) (producedBy : List (String × String)) (_ : Nat)
    (input : String) : Checked Unit :=
  match producerOf input producedBy with
  | none => .ok ()
  | some producer =>
    require (producer ∈ task.dependencies) "selections" (.omitsProducer task.taskId producer)

def selectTask (_ : Nat) (producedBy : List (String × String)) (task : TaskSpec) :
    Checked (List (String × String)) := do
  let producedBy ← walk (selectOutput task) 0 producedBy task.outputs
  each (selectInput task producedBy) 0 task.inputs
  pure producedBy

/-- Each task with its active dependencies. -/
def restrictTasks (active : List String) : List TaskSpec → Checked (List TaskSpec)
  | [] => .ok []
  | task :: rest => do
    let restricted ← withoutInactiveDependencies active task
    let others ← restrictTasks active rest
    pure (restricted :: others)

def selectTasks (program : ShadowSpillProgram) (choices : List TaskAlternativeChoice) :
    Checked (List TaskSpec) := do
  require ((choices.map (·.groupId)).Nodup) "selections" .duplicateGroups
  require
    ((choices.map (·.groupId)).all
        (· ∈ program.taskAlternativeGroups.map (·.groupId)) &&
      (program.taskAlternativeGroups.map (·.groupId)).all
        (· ∈ choices.map (·.groupId)))
    "selections" .everyGroup
  let variants ← walk (selectGroup choices) 0 ⟨[], []⟩ program.taskAlternativeGroups
  let selected := program.tasks.filter fun task =>
    task.taskId ∉ variants.variantTasks ∨ task.taskId ∈ variants.activeVariantTasks
  let restricted ← restrictTasks (selected.map (·.taskId)) selected
  let _ ← walk selectTask 0 [] restricted
  pure restricted

/-- The most recent selection's tasks. -/
abbrev SelectedCache := Option (List TaskAlternativeChoice × List TaskSpec)

/-- Resolve through the cache; a failure leaves it alone. -/
def selectedTasks (program : ShadowSpillProgram) (cache : SelectedCache)
    (choices : List TaskAlternativeChoice) : Checked (List TaskSpec) × SelectedCache :=
  match cache with
  | some (cached, tasks) =>
    if cached = choices then (.ok tasks, cache)
    else
      match selectTasks program choices with
      | .error failure => (.error failure, cache)
      | .ok selected => (.ok selected, some (choices, selected))
  | none =>
    match selectTasks program choices with
    | .error failure => (.error failure, cache)
    | .ok selected => (.ok selected, some (choices, selected))

end ShadowSpill.Ir.Selection
