import ShadowSpill.Ir.Selection
import ShadowSpill.Ir.ConstructionFacts

/-!
# How a constructed program resolves

A choice of one option for every group determines the active tasks.  The selection
consists of exactly these, and succeeds unless two of them write one object or one of
them leaves out the active producer of an input.
-/

namespace ShadowSpill.Ir.Resolution

open Validation Program Selection ConstructionFacts Library.Checks

variable {program : ProgramFields} {choices : List TaskAlternativeChoice}

/-! ## Choices and active tasks -/

/-- One option for every group, and no other choice. -/
structure Complete (program : ProgramFields) (choices : List TaskAlternativeChoice) :
    Prop where
  once : (choices.map (·.groupId)).Nodup
  groups : ∀ id, id ∈ choices.map (·.groupId) ↔
    id ∈ program.taskAlternativeGroups.map (·.groupId)
  options : ∀ group ∈ program.taskAlternativeGroups, ∀ choice ∈ choices,
    choice.groupId = group.groupId → choice.optionId ∈ group.options.map (·.optionId)

/-- The option is the one chosen for its group. -/
def isChosen (choices : List TaskAlternativeChoice) (group : TaskAlternativeGroup)
    (option : TaskAlternativeOption) : Bool :=
  ⟨group.groupId, option.optionId⟩ ∈ choices

/-- A task outside every group, or of a chosen option. -/
def isActive (program : ProgramFields) (choices : List TaskAlternativeChoice)
    (task : String) : Bool :=
  program.taskAlternativeGroups.all (fun group => task ∉ tasksOf group) ||
    program.taskAlternativeGroups.any fun group =>
      group.options.any fun option => isChosen choices group option &&
        task ∈ option.activeTaskIds

/-- The active tasks in program order. -/
def activeTasks (program : ProgramFields) (choices : List TaskAlternativeChoice) :
    List TaskSpec :=
  program.tasks.filter fun task => isActive program choices task.taskId

/-- The task with its active dependencies. -/
def restrictTo (active : List String) (task : TaskSpec) : TaskSpec where
  toTaskFields := { task.toTaskFields with
    dependencies := task.dependencies.filter fun dependency => dependency ∈ active }
  checked := check_dependencies task List.filter_sublist

/-- The active tasks in program order, each with its active dependencies. -/
def resolved (program : ProgramFields) (choices : List TaskAlternativeChoice) :
    List TaskSpec :=
  (activeTasks program choices).map
    (restrictTo ((activeTasks program choices).map (·.taskId)))

/-! ## Restricting dependencies never fails -/

theorem make_of_check {fields : TaskFields} (passed : fields.check = .ok ()) :
    TaskSpec.make fields = .ok ⟨fields, passed⟩ := by
  unfold TaskSpec.make
  split
  case h_1 failure failed =>
    rw [passed] at failed
    cases failed
  case h_2 => rfl

theorem withoutInactiveDependencies_eq (active : List String) (task : TaskSpec) :
    withoutInactiveDependencies active task = .ok (restrictTo active task) := by
  unfold withoutInactiveDependencies
  dsimp only
  split
  case isTrue same =>
    have all : (task.dependencies.filter fun dependency => dependency ∈ active) =
        task.dependencies := List.filter_sublist.eq_of_length same
    unfold restrictTo
    obtain ⟨fields, passed⟩ := task
    simp only [all]
  case isFalse =>
    exact make_of_check (check_dependencies task List.filter_sublist)

theorem restrictTasks_eq (active : List String) (tasks : List TaskSpec) :
    restrictTasks active tasks = .ok (tasks.map (restrictTo active)) := by
  induction tasks with
  | nil => rfl
  | cons task rest inductionHypothesis =>
      unfold restrictTasks
      rw [withoutInactiveDependencies_eq, inductionHypothesis]
      rfl

/-! ## Groups and their chosen options -/

theorem choiceOf_eq {group : String} {choice : TaskAlternativeChoice}
    (once : (choices.map (·.groupId)).Nodup) (mem : choice ∈ choices)
    (same : choice.groupId = group) : choiceOf choices group = some choice := by
  have unique : ∀ other ∈ choices, other.groupId = group → other = choice := by
    intro other otherMem otherSame
    exact List.inj_on_of_nodup_map once otherMem mem (otherSame.trans same.symm)
  unfold choiceOf
  cases found : choices.reverse.find? (·.groupId = group) with
  | none =>
      have missing := List.find?_eq_none.mp found choice (List.mem_reverse.mpr mem)
      exact absurd (decide_eq_true same) missing
  | some other =>
      have isGroup : other.groupId = group := by simpa using List.find?_some found
      have otherMem := List.mem_reverse.mp (List.mem_of_find?_eq_some found)
      rw [unique other otherMem isGroup]

/-- The options of a group have their own ids. -/
theorem options_nodup (group : TaskAlternativeGroup) :
    (group.options.map (·.optionId)).Nodup := by
  have passed := group.checked
  unfold GroupFields.check at passed
  simp only [bind_ok] at passed
  obtain ⟨_, _, _, _, _, found, _⟩ := passed
  exact (indexUnique_ok.mp found).2.2.1

/-- A complete choice selects the tasks of one option of the group. -/
theorem selectGroup_ok {index : Nat} {variants : Variants} {group : TaskAlternativeGroup}
    (complete : Complete program choices)
    (inGroups : group ∈ program.taskAlternativeGroups) :
    ∃ after, selectGroup choices index variants group = .ok after ∧
      after.variantTasks = variants.variantTasks ++ tasksOf group ∧
      ∀ task, task ∈ after.activeVariantTasks ↔
        task ∈ variants.activeVariantTasks ∨
          ∃ option ∈ group.options, isChosen choices group option = true ∧
            task ∈ option.activeTaskIds := by
  have isChoice : group.groupId ∈ choices.map (·.groupId) :=
    (complete.groups group.groupId).mpr (List.mem_map_of_mem inGroups)
  obtain ⟨choice, mem, same⟩ := List.mem_map.mp isChoice
  obtain ⟨option, inOptions, isOption⟩ :=
    List.mem_map.mp (complete.options group inGroups choice mem same)
  unfold selectGroup
  rw [choiceOf_eq complete.once mem same]
  dsimp only
  cases found : group.options.reverse.find? (·.optionId = choice.optionId) with
  | none =>
      have missing := List.find?_eq_none.mp found option (List.mem_reverse.mpr inOptions)
      exact absurd (decide_eq_true isOption) missing
  | some chosen =>
      have chosenId : chosen.optionId = choice.optionId := by
        simpa using List.find?_some found
      have inChosen := List.mem_reverse.mp (List.mem_of_find?_eq_some found)
      refine ⟨_, rfl, rfl, ?_⟩
      intro task
      rw [List.mem_append]
      apply or_congr_right
      constructor
      · intro isActive
        refine ⟨chosen, inChosen, decide_eq_true ?_, isActive⟩
        rw [chosenId, ← same]
        exact mem
      · rintro ⟨other, inOther, isChosen, isActive⟩
        have otherMem := of_decide_eq_true isChosen
        have sameChoice : (⟨group.groupId, other.optionId⟩ : TaskAlternativeChoice) = choice :=
          List.inj_on_of_nodup_map complete.once otherMem mem same.symm
        have sameOption : other = chosen := by
          apply List.inj_on_of_nodup_map (options_nodup group) inOther inChosen
          rw [chosenId, ← sameChoice]
        rw [← sameOption]
        exact isActive

theorem selectGroups_ok {index : Nat} {variants : Variants}
    {groups : List TaskAlternativeGroup}
    (complete : Complete program choices)
    (inGroups : ∀ group ∈ groups, group ∈ program.taskAlternativeGroups) :
    ∃ after, walk (selectGroup choices) index variants groups = .ok after ∧
      (∀ task, task ∈ after.variantTasks ↔
        task ∈ variants.variantTasks ∨ ∃ group ∈ groups, task ∈ tasksOf group) ∧
      ∀ task, task ∈ after.activeVariantTasks ↔
        task ∈ variants.activeVariantTasks ∨
          ∃ group ∈ groups, ∃ option ∈ group.options,
            isChosen choices group option = true ∧ task ∈ option.activeTaskIds := by
  induction groups generalizing index variants with
  | nil => exact ⟨variants, rfl, by simp, by simp⟩
  | cons group rest inductionHypothesis =>
      obtain ⟨middle, selected, variantTasks, activeTasks⟩ := @selectGroup_ok _ _
        index variants _ complete (inGroups group List.mem_cons_self)
      obtain ⟨after, walked, variantRest, activeRest⟩ := @inductionHypothesis (index + 1) middle
        (fun other mem => inGroups other (List.mem_cons_of_mem group mem))
      refine ⟨after, ?_, ?_, ?_⟩
      · unfold walk
        exact bind_ok.mpr ⟨middle, selected, walked⟩
      · intro task
        rw [variantRest, variantTasks, List.mem_append, List.exists_mem_cons_iff, or_assoc]
      · intro task
        rw [activeRest, activeTasks, List.exists_mem_cons_iff, or_assoc]

/-! ## Producers among the selected tasks -/

theorem producerOf_eq_none {object : String} {producedBy : List (String × String)} :
    producerOf object producedBy = none ↔ object ∉ producedBy.map (·.1) := by
  unfold producerOf
  rw [Option.map_eq_none_iff, List.find?_eq_none]
  constructor
  · intro none mem
    obtain ⟨entry, isEntry, rfl⟩ := List.mem_map.mp mem
    exact none entry isEntry (decide_eq_true rfl)
  · intro missing entry isEntry found
    apply missing
    rw [← of_decide_eq_true found]
    exact List.mem_map_of_mem isEntry

/-- Where every object is produced once, its producer is the one recorded. -/
theorem producerOf_eq_some {object producer : String} {producedBy : List (String × String)}
    (once : (producedBy.map (·.1)).Nodup) :
    producerOf object producedBy = some producer ↔ (object, producer) ∈ producedBy := by
  unfold producerOf
  rw [Option.map_eq_some_iff]
  constructor
  · rintro ⟨⟨found, writer⟩, first, rfl⟩
    have same : found = object := by simpa using List.find?_some first
    rw [← same]
    exact List.mem_of_find?_eq_some first
  · intro mem
    cases first : producedBy.find? (fun entry => entry.1 = object) with
    | none =>
        have missing := List.find?_eq_none.mp first _ mem
        exact absurd (decide_eq_true rfl) missing
    | some entry =>
        have same : entry.1 = object := by simpa using List.find?_some first
        have isEntry := List.mem_of_find?_eq_some first
        have eq : entry = (object, producer) :=
          List.inj_on_of_nodup_map once isEntry mem same
        exact ⟨entry, rfl, by rw [eq]⟩

/-- A task writes nothing that the tasks before it write, and depends on each of them
that writes one of its inputs; it reads none of its own outputs. -/
structure TaskConsistent (before : List TaskSpec) (task : TaskSpec) : Prop where
  alone : ∀ writer ∈ before, ∀ object ∈ writer.outputs, object ∉ task.outputs
  depends : ∀ object ∈ task.inputs, ∀ writer ∈ before ++ [task],
    object ∈ writer.outputs → writer.taskId ∈ task.dependencies

theorem mem_outputsOf_fst {tasks : List TaskSpec} {object : String} :
    object ∈ (outputsOf tasks).map (·.1) ↔ ∃ task ∈ tasks, object ∈ task.outputs := by
  rw [List.mem_map]
  constructor
  · rintro ⟨⟨_, writer⟩, mem, rfl⟩
    obtain ⟨task, inTasks, isOutput, _⟩ := mem_outputsOf.mp mem
    exact ⟨task, inTasks, isOutput⟩
  · rintro ⟨task, inTasks, isOutput⟩
    exact ⟨(object, task.taskId), mem_outputsOf.mpr ⟨task, inTasks, isOutput, rfl⟩, rfl⟩

theorem selectOutput_ok {task : TaskSpec} {index : Nat}
    {start after : List (String × String)} {output : String} :
    selectOutput task index start output = .ok after ↔
      output ∉ start.map (·.1) ∧ after = start ++ [(output, task.taskId)] := by
  unfold selectOutput
  rw [check_bind_ok, require_ok, Option.isNone_iff_eq_none, producerOf_eq_none, pure_ok,
    eq_comm]

/-- A walk over outputs records them, unless one of them has a producer. -/
theorem selectOutputs_ok {task : TaskSpec} {index : Nat}
    {start after : List (String × String)} {outputs : List String} (nodup : outputs.Nodup) :
    walk (selectOutput task) index start outputs = .ok after ↔
      after = start ++ outputs.map (fun output => (output, task.taskId)) ∧
        ∀ output ∈ outputs, output ∉ start.map (·.1) := by
  induction outputs generalizing index start with
  | nil =>
      constructor
      · intro same
        cases same
        exact ⟨(List.append_nil _).symm, fun _ mem => (List.not_mem_nil mem).elim⟩
      · rintro ⟨rfl, _⟩
        rw [List.map_nil, List.append_nil]
        rfl
  | cons output rest inductionHypothesis =>
      obtain ⟨fresh, nodupRest⟩ := List.nodup_cons.mp nodup
      unfold walk
      rw [bind_ok]
      constructor
      · rintro ⟨_, visited, walked⟩
        obtain ⟨missing, rfl⟩ := selectOutput_ok.mp visited
        obtain ⟨rfl, others⟩ := (inductionHypothesis nodupRest).mp walked
        refine ⟨List.append_assoc _ _ _, List.forall_mem_cons.mpr ⟨missing, ?_⟩⟩
        intro other mem known
        apply others other mem
        rw [List.map_append]
        exact List.mem_append_left _ known
      · rintro ⟨rfl, missing⟩
        refine ⟨_, selectOutput_ok.mpr ⟨missing output List.mem_cons_self, rfl⟩, ?_⟩
        apply (inductionHypothesis nodupRest).mpr
        refine ⟨by rw [List.append_assoc]; rfl, ?_⟩
        intro other mem known
        rw [List.map_append, List.mem_append] at known
        rcases known with old | new
        · exact missing other (List.mem_cons_of_mem output mem) old
        · rw [List.mem_singleton.mp new] at mem
          exact fresh mem

theorem outputsOf_append_one {before : List TaskSpec} {task : TaskSpec} :
    outputsOf (before ++ [task]) =
      outputsOf before ++ task.outputs.map (fun output => (output, task.taskId)) := by
  unfold outputsOf
  rw [List.flatMap_append, List.flatMap_singleton]

theorem outputs_once {before : List TaskSpec} {task : TaskSpec}
    (once : ((outputsOf before).map (·.1)).Nodup)
    (alone : ∀ writer ∈ before, ∀ object ∈ writer.outputs, object ∉ task.outputs) :
    ((outputsOf (before ++ [task])).map (·.1)).Nodup := by
  rw [outputsOf_append_one, List.map_append, List.map_map]
  have own : task.outputs.map ((·.1) ∘ fun output => (output, task.taskId)) =
      task.outputs := List.map_id _
  rw [own]
  apply List.Nodup.append once (TaskSpec.outputs_nodup task)
  intro object known isOutput
  obtain ⟨writer, inBefore, writes⟩ := mem_outputsOf_fst.mp known
  exact alone writer inBefore object writes isOutput

/-- The check of one selected task, after the tasks before it. -/
theorem selectTask_ok {index : Nat} {before : List TaskSpec} {task : TaskSpec}
    {after : List (String × String)} (once : ((outputsOf before).map (·.1)).Nodup) :
    selectTask index (outputsOf before) task = .ok after ↔
      after = outputsOf (before ++ [task]) ∧ TaskConsistent before task := by
  unfold selectTask
  simp only [bind_ok, pure_ok,
    selectOutputs_ok (TaskSpec.outputs_nodup task), ← outputsOf_append_one]
  have alone_iff : (∀ output ∈ task.outputs, output ∉ (outputsOf before).map (·.1)) ↔
      ∀ writer ∈ before, ∀ object ∈ writer.outputs, object ∉ task.outputs := by
    constructor
    · intro missing writer mem object writes isOutput
      exact missing object isOutput (mem_outputsOf_fst.mpr ⟨writer, mem, writes⟩)
    · intro alone output isOutput known
      obtain ⟨writer, mem, writes⟩ := mem_outputsOf_fst.mp known
      exact alone writer mem output writes isOutput
  have inputs_iff
      (alone : ∀ writer ∈ before, ∀ object ∈ writer.outputs, object ∉ task.outputs) :
      each (selectInput task (outputsOf (before ++ [task]))) 0 task.inputs = .ok () ↔
        ∀ object ∈ task.inputs, ∀ writer ∈ before ++ [task], object ∈ writer.outputs →
          writer.taskId ∈ task.dependencies := by
    have onceAll := outputs_once once alone
    constructor
    · intro passed object isInput writer mem writes
      obtain ⟨_, checked⟩ := each_ok_mem passed isInput
      have producer : producerOf object (outputsOf (before ++ [task])) =
          some writer.taskId :=
        (producerOf_eq_some onceAll).mpr (mem_outputsOf.mpr ⟨writer, mem, writes, rfl⟩)
      unfold selectInput at checked
      rw [producer] at checked
      exact of_decide_eq_true (require_ok.mp checked)
    · intro depends
      apply each_ok.mpr
      intro position object found
      unfold selectInput
      cases producer : producerOf object (outputsOf (before ++ [task])) with
      | none => rfl
      | some writerId =>
          obtain ⟨writer, mem, writes, rfl⟩ :=
            mem_outputsOf.mp ((producerOf_eq_some onceAll).mp producer)
          apply require_ok.mpr
          exact decide_eq_true
            (depends object (List.mem_of_getElem? found) writer mem writes)
  constructor
  · rintro ⟨_, ⟨rfl, missing⟩, _, inputs, rfl⟩
    have alone := alone_iff.mp missing
    exact ⟨rfl, alone, (inputs_iff alone).mp inputs⟩
  · rintro ⟨rfl, alone, depends⟩
    exact ⟨_, ⟨rfl, alone_iff.mpr alone⟩, (), (inputs_iff alone).mpr depends, rfl⟩

/-- A walk over selected tasks succeeds exactly when each is consistent with those
before it. -/
theorem selectTasks_walk {index : Nat} {before rest : List TaskSpec}
    (once : ((outputsOf before).map (·.1)).Nodup) :
    (∃ after, walk selectTask index (outputsOf before) rest = .ok after) ↔
      ∀ earlier task later, rest = earlier ++ task :: later →
        TaskConsistent (before ++ earlier) task := by
  induction rest generalizing index before with
  | nil =>
      apply iff_of_true
      · exact ⟨_, rfl⟩
      · intro earlier task later split
        cases earlier with
        | nil => cases split
        | cons => cases split
  | cons head rest inductionHypothesis =>
      constructor
      · rintro ⟨after, walked⟩
        unfold walk at walked
        obtain ⟨middle, selected, others⟩ := bind_ok.mp walked
        obtain ⟨rfl, consistent⟩ := (selectTask_ok once).mp selected
        have later := (inductionHypothesis (outputs_once once consistent.alone)).mp
          ⟨after, others⟩
        intro earlier task tail split
        cases earlier with
        | nil =>
            cases split
            rw [List.append_nil]
            exact consistent
        | cons first earlier =>
            cases split
            have found := later earlier task tail rfl
            rwa [List.append_assoc] at found
      · intro all
        have consistent := all [] head rest rfl
        rw [List.append_nil] at consistent
        have later := (@inductionHypothesis (index + 1) (before ++ [head])
          (outputs_once once consistent.alone)).mpr (by
            intro earlier task tail split
            rw [List.append_assoc]
            exact all (head :: earlier) task tail (congrArg (List.cons head) split))
        obtain ⟨after, others⟩ := later
        refine ⟨after, ?_⟩
        unfold walk
        exact bind_ok.mpr ⟨_, (selectTask_ok once).mpr ⟨rfl, consistent⟩, others⟩

end ShadowSpill.Ir.Resolution
