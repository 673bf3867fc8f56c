import ShadowSpill.Ir.Resolution

/-!
# The objects that tasks name

Every object that a task of a program names is declared, in an alias group that is
declared.  A selection takes its tasks from the program and changes their dependencies
only.
-/

namespace ShadowSpill.Ir.ObjectFacts

open Validation Program Selection Resolution Library.Checks

/-- An object that a task reads, writes or mutates. -/
def Names (task : TaskSpec) (object : String) : Prop :=
  object ∈ task.inputs ∨ object ∈ task.outputs ∨ ∃ item ∈ task.mutations, item.objectId = object

/-- The object is declared, and so is its alias group. -/
def Declared (program : ProgramFields) (object : String) : Prop :=
  ∃ item, program.objects.find? (·.objectId = object) = some item ∧
    item.aliasGroupId ∈ program.aliasGroups.map (·.aliasGroupId)

theorem checkTask_names {ids : Identities} {exclusive : List (String × String)} {index : Nat}
    {scan after : TaskScan} {task : TaskSpec}
    (success : checkTask ids exclusive index scan task = .ok after) :
    ∀ object, Names task object → object ∈ ids.objectIds := by
  unfold checkTask at success
  simp only [bind_ok, pure_ok] at success
  rcases success with ⟨_, _, _, _, _, _, _, inputs, _, outputs, _, _, _, _, _, mutations, _⟩
  have input : ∀ object ∈ task.inputs, object ∈ ids.objectIds := by
    intro object mem
    rcases each_ok_mem inputs mem with ⟨_, passed⟩
    exact of_decide_eq_true (require_ok.mp passed)
  rintro object (isInput | isOutput | ⟨item, mem, rfl⟩)
  · exact input object isInput
  · rcases each_ok_mem outputs isOutput with ⟨_, passed⟩
    exact of_decide_eq_true (require_ok.mp passed)
  · rcases each_ok_mem mutations mem with ⟨_, passed⟩
    unfold checkMutation at passed
    rw [check_bind_ok] at passed
    exact input _ (of_decide_eq_true (require_ok.mp passed.1))

/-- Whatever a task of a program names is declared. -/
theorem names_declared (program : ShadowSpillProgram) {task : TaskSpec}
    (mem : task ∈ program.tasks) {object : String} (names : Names task object) :
    Declared program.toProgramFields object := by
  have passed := program.checked
  unfold ProgramFields.check at passed
  simp only [bind_ok] at passed
  rcases passed with ⟨_, _, ids, identities, _, _, _, objects, groups, _, scan, tasks, _⟩
  unfold indexIdentities at identities
  simp only [bind_ok, pure_ok] at identities
  rcases identities with
    ⟨_, _, aliasIds, aliasIndex, objectIds, objectIndex, _, _, _, _, _, _, rfl⟩
  rcases indexUnique_ok.mp aliasIndex with ⟨rfl, _⟩
  rcases indexUnique_ok.mp objectIndex with ⟨rfl, _⟩
  rcases List.append_of_mem mem with ⟨before, after, split⟩
  unfold checkTasks at tasks
  rw [split] at tasks
  rcases walk_split tasks with ⟨_, _, _, visited⟩
  have known := checkTask_names visited object names
  simp only [List.nil_append, List.mem_map] at known
  rcases known with ⟨declared, isDeclared, sameId⟩
  have someItem : (program.objects.find? (·.objectId = object)).isSome :=
    List.find?_isSome.mpr ⟨declared, isDeclared, decide_eq_true sameId⟩
  rcases Option.isSome_iff_exists.mp someItem with ⟨item, found⟩
  refine ⟨item, found, ?_⟩
  unfold checkObjects at objects
  rcases each_ok_mem objects (List.mem_of_find?_eq_some found) with ⟨_, inGroup⟩
  dsimp only at inGroup
  split at inGroup
  · cases inGroup
  · rename_i aliasGroup isGroup
    have sameGroup := List.find?_some isGroup
    exact List.mem_map.mpr ⟨aliasGroup, List.mem_of_find?_eq_some isGroup,
      of_decide_eq_true sameGroup⟩

/-- A selected task names what a task of the program names. -/
theorem selected_names {program : ShadowSpillProgram} {choices : List TaskAlternativeChoice}
    {tasks : List TaskSpec} (selected : selectTasks program choices = .ok tasks) {task : TaskSpec}
    (mem : task ∈ tasks) {object : String} (names : Names task object) :
    Declared program.toProgramFields object := by
  unfold selectTasks at selected
  simp only [bind_ok, pure_ok] at selected
  rcases selected with ⟨_, _, _, _, _, _, _, restricted, _, _, rfl⟩
  rw [restrictTasks_eq] at restricted
  cases restricted
  rcases List.mem_map.mp mem with ⟨source, isSource, rfl⟩
  exact names_declared program (List.mem_of_mem_filter isSource) names

end ShadowSpill.Ir.ObjectFacts
