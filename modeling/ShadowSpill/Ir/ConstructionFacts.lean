import Mathlib.Data.List.Nodup
import ShadowSpill.Ir.Program

/-!
# What construction establishes

Task and group identities are unique and groups share no task.  A task depends only on
tasks before it; two writers of one object are told apart by two options of one group;
and a task that reads an object with writers depends on one of them.
-/

namespace ShadowSpill.Ir.ConstructionFacts

open Validation Program Library.Checks

variable {program : ProgramFields} {ids : Identities}

/-! ## Checked records -/

theorem TaskSpec.outputs_nodup (task : TaskSpec) : task.outputs.Nodup := by
  have passed := task.checked
  unfold TaskFields.check at passed
  simp only [bind_ok] at passed
  obtain ⟨_, _, _, _, _, _, _, _, _, outputs, _⟩ := passed
  exact (indexUnique_ok.mp outputs).2.2.1

/-- Fewer dependencies do not make a task invalid. -/
theorem check_dependencies (task : TaskSpec) {dependencies : List String}
    (fewer : dependencies.Sublist task.dependencies) :
    TaskFields.check { task.toTaskFields with dependencies := dependencies } = .ok () := by
  have passed := task.checked
  unfold TaskFields.check at passed ⊢
  simp only [bind_ok] at passed ⊢
  obtain ⟨_, taskId, _, profileId, _, found, rest⟩ := passed
  obtain ⟨_, _, nodup, identifiers⟩ := indexUnique_ok.mp found
  refine ⟨_, taskId, _, profileId, dependencies, ?_, rest⟩
  apply indexUnique_ok.mpr
  refine ⟨rfl, fun _ _ => List.not_mem_nil, nodup.sublist fewer, ?_⟩
  exact fun value mem => identifiers value (fewer.subset mem)

/-! ## Groups -/

/-- The tasks of a group, over its options. -/
def tasksOf (group : TaskAlternativeGroup) : List String :=
  group.options.flatMap (·.activeTaskIds)

theorem mem_without {left right : List String} {task : String} :
    task ∈ without left right ↔ task ∈ left ∧ task ∉ right := by
  unfold without
  rw [List.mem_filter, decide_eq_true_iff]

theorem mem_exclusivePairs {left right : List String} {first second : String} :
    (first, second) ∈ exclusivePairs left right ↔
      (first ∈ left ∧ first ∉ right) ∧ (second ∈ right ∧ second ∉ left) := by
  unfold exclusivePairs
  simp only [List.mem_flatMap, List.mem_map, Prod.mk.injEq, mem_without]
  constructor
  · rintro ⟨_, inLeft, _, inRight, rfl, rfl⟩
    exact ⟨inLeft, inRight⟩
  · rintro ⟨inLeft, inRight⟩
    exact ⟨first, inLeft, second, inRight, rfl, rfl⟩

/-- A pair comes from two options of the list. -/
theorem mem_pairsOfOptions {options : List (List String)} {first second : String}
    (mem : (first, second) ∈ pairsOfOptions options) :
    ∃ left ∈ options, ∃ right ∈ options,
      (first ∈ left ∧ first ∉ right) ∧ (second ∈ right ∧ second ∉ left) := by
  induction options with
  | nil => cases mem
  | cons head rest inductionHypothesis =>
      unfold pairsOfOptions at mem
      rcases List.mem_append.mp mem with here | later
      · obtain ⟨right, inRest, pair⟩ := List.mem_flatMap.mp here
        exact ⟨head, List.mem_cons_self, right, List.mem_cons_of_mem head inRest,
          mem_exclusivePairs.mp pair⟩
      · obtain ⟨left, inLeft, right, inRight, apart⟩ := inductionHypothesis later
        exact ⟨left, List.mem_cons_of_mem head inLeft, right,
          List.mem_cons_of_mem head inRight, apart⟩

/-- Two options of one group tell two tasks apart. -/
def Separated (program : ProgramFields) (first second : String) : Prop :=
  ∃ group ∈ program.taskAlternativeGroups, ∃ left ∈ group.options, ∃ right ∈ group.options,
    (first ∈ left.activeTaskIds ∧ first ∉ right.activeTaskIds) ∧
      (second ∈ right.activeTaskIds ∧ second ∉ left.activeTaskIds)

theorem Separated.symm {first second : String} (apart : Separated program first second) :
    Separated program second first := by
  obtain ⟨group, inGroups, left, inLeft, right, inRight, one, two⟩ := apart
  exact ⟨group, inGroups, right, inRight, left, inLeft, two, one⟩

/-- What one group's check says. -/
theorem checkGroup_ok {index : Nat} {scan after : GroupScan} {group : TaskAlternativeGroup}
    (success : checkGroup ids index scan group = .ok after) :
    after.tasksInGroups = scan.tasksInGroups ++ tasksOf group ∧
      after.exclusive =
        scan.exclusive ++ pairsOfOptions (group.options.map (·.activeTaskIds)) ∧
      (∀ task ∈ tasksOf group, task ∈ ids.taskIds ∧ task ∉ scan.tasksInGroups) := by
  unfold checkGroup at success
  simp only [check_bind_ok, require_ok, pure_ok] at success
  obtain ⟨_, options, overlap, rfl⟩ := success
  refine ⟨rfl, rfl, ?_⟩
  intro task mem
  constructor
  · obtain ⟨option, inOptions, isActive⟩ := List.mem_flatMap.mp mem
    obtain ⟨position, passed⟩ := each_ok_mem options inOptions
    unfold checkOption at passed
    obtain ⟨known, _⟩ := check_bind_ok.mp passed
    obtain ⟨_, isKnown⟩ := each_ok_mem known isActive
    exact of_decide_eq_true (require_ok.mp isKnown)
  · intro seen
    have shared : task ∈ scan.tasksInGroups.filter fun task => task ∈ tasksOf group :=
      List.mem_filter.mpr ⟨seen, decide_eq_true mem⟩
    unfold tasksOf at shared
    rw [List.isEmpty_iff.mp overlap] at shared
    cases shared

/-- What the groups' check says. -/
structure GroupsSound (ids : Identities) (groups : List TaskAlternativeGroup)
    (scan : GroupScan) : Prop where
  tasks : scan.tasksInGroups = groups.flatMap tasksOf
  apart : groups.Pairwise fun first second =>
    ∀ task ∈ tasksOf first, task ∉ tasksOf second
  known : ∀ group ∈ groups, ∀ task ∈ tasksOf group, task ∈ ids.taskIds
  exclusive : ∀ pair ∈ scan.exclusive, ∃ group ∈ groups,
    pair ∈ pairsOfOptions (group.options.map (·.activeTaskIds))

theorem checkAlternativeGroups_ok {scan : GroupScan}
    (success : checkAlternativeGroups program ids = .ok scan) :
    GroupsSound ids program.taskAlternativeGroups scan := by
  have start : GroupsSound ids [] ⟨[], []⟩ := by
    constructor
    case tasks => rfl
    case apart => exact List.Pairwise.nil
    case known =>
      intro group mem
      cases mem
    case exclusive =>
      intro pair mem
      cases mem
  have kept := @walk_keeps _ _ _ _ (GroupsSound ids)
    (fun index before scan after group sound passed => by
      obtain ⟨tasks, exclusive, members⟩ := checkGroup_ok passed
      constructor
      case tasks =>
        rw [tasks, sound.tasks, List.flatMap_append, List.flatMap_singleton]
      case apart =>
        rw [List.pairwise_append]
        refine ⟨sound.apart, List.pairwise_singleton _ _, ?_⟩
        intro first inBefore second isGroup task inFirst inSecond
        rw [List.mem_singleton.mp isGroup] at inSecond
        apply (members task inSecond).2
        rw [sound.tasks]
        exact List.mem_flatMap.mpr ⟨first, inBefore, inFirst⟩
      case known =>
        intro other mem task inOther
        rcases List.mem_append.mp mem with old | new
        · exact sound.known other old task inOther
        · rw [List.mem_singleton.mp new] at inOther
          exact (members task inOther).1
      case exclusive =>
        intro pair mem
        rw [exclusive] at mem
        rcases List.mem_append.mp mem with old | new
        · obtain ⟨other, inBefore, found⟩ := sound.exclusive pair old
          exact ⟨other, List.mem_append_left _ inBefore, found⟩
        · exact ⟨group, List.mem_append_right _ (List.mem_singleton_self group), new⟩)
    _ _ _ _ _ start success
  exact kept

theorem separated_of_exclusive {scan : GroupScan} {first second : String}
    (sound : GroupsSound ids program.taskAlternativeGroups scan)
    (exclusive : areExclusive scan.exclusive first second = true) :
    Separated program first second := by
  have of_pair : ∀ one two, (one, two) ∈ scan.exclusive → Separated program one two := by
    intro one two mem
    obtain ⟨group, inGroups, pair⟩ := sound.exclusive _ mem
    obtain ⟨left, inLeft, right, inRight, apart⟩ := mem_pairsOfOptions pair
    obtain ⟨leftOption, isLeft, rfl⟩ := List.mem_map.mp inLeft
    obtain ⟨rightOption, isRight, rfl⟩ := List.mem_map.mp inRight
    exact ⟨group, inGroups, leftOption, isLeft, rightOption, isRight, apart⟩
  unfold areExclusive at exclusive
  rw [Bool.or_eq_true, decide_eq_true_iff, decide_eq_true_iff] at exclusive
  rcases exclusive with forwards | backwards
  · exact of_pair first second forwards
  · exact (of_pair second first backwards).symm

/-! ## Tasks -/

/-- The outputs of tasks, each with its writer. -/
def outputsOf (tasks : List TaskSpec) : List (String × String) :=
  tasks.flatMap fun task => task.outputs.map fun output => (output, task.taskId)

theorem mem_writersOf {object writer : String} {producedBy : List (String × String)} :
    writer ∈ writersOf object producedBy ↔ (object, writer) ∈ producedBy := by
  unfold writersOf
  simp only [List.mem_map, List.mem_filter, decide_eq_true_iff]
  constructor
  · rintro ⟨⟨_, _⟩, ⟨mem, rfl⟩, rfl⟩
    exact mem
  · intro mem
    exact ⟨(object, writer), ⟨mem, rfl⟩, rfl⟩

theorem mem_outputsOf {tasks : List TaskSpec} {object writer : String} :
    (object, writer) ∈ outputsOf tasks ↔
      ∃ task ∈ tasks, object ∈ task.outputs ∧ task.taskId = writer := by
  unfold outputsOf
  simp only [List.mem_flatMap, List.mem_map, Prod.mk.injEq]
  constructor
  · rintro ⟨task, mem, _, isOutput, rfl, rfl⟩
    exact ⟨task, mem, isOutput, rfl⟩
  · rintro ⟨task, mem, isOutput, rfl⟩
    exact ⟨task, mem, object, isOutput, rfl, rfl⟩

/-- A walk over the outputs of a task records each, and each is written alone. -/
theorem checkOutputs_ok {exclusive : List (String × String)} {path : String}
    {task : TaskSpec} {index : Nat} {start after : List (String × String)}
    {outputs : List String}
    (success : walk (checkOutput ids exclusive path task) index start outputs = .ok after) :
    after = start ++ outputs.map (fun output => (output, task.taskId)) ∧
      ∀ output ∈ outputs, ∀ writer ∈ writersOf output start,
        areExclusive exclusive writer task.taskId = true := by
  induction outputs generalizing index start with
  | nil =>
      cases success
      exact ⟨(List.append_nil _).symm, fun _ mem => (List.not_mem_nil mem).elim⟩
  | cons output rest inductionHypothesis =>
      unfold walk at success
      obtain ⟨middle, visited, later⟩ := bind_ok.mp success
      unfold checkOutput at visited
      simp only [check_bind_ok, require_ok, pure_ok] at visited
      obtain ⟨_, alone, rfl⟩ := visited
      obtain ⟨rfl, others⟩ := inductionHypothesis later
      refine ⟨List.append_assoc _ _ _, ?_⟩
      intro object mem writer isWriter
      rcases List.mem_cons.mp mem with rfl | inRest
      · exact List.all_eq_true.mp alone writer isWriter
      · apply others object inRest
        rw [mem_writersOf] at isWriter ⊢
        exact List.mem_append_left _ isWriter

/-- What the check of one task says, when `before` are the tasks before it. -/
structure TaskSound (program : ProgramFields) (before : List TaskSpec) (task : TaskSpec) :
    Prop where
  dependencies : ∀ dependency ∈ task.dependencies, dependency ∈ before.map (·.taskId)
  writers : ∀ writer ∈ before, ∀ object ∈ writer.outputs, object ∈ task.outputs →
    Separated program writer.taskId task.taskId
  readers : ∀ object ∈ task.inputs,
    (∃ writer ∈ before ++ [task], object ∈ writer.outputs) →
    ∃ writer ∈ before ++ [task], object ∈ writer.outputs ∧
      writer.taskId ∈ task.dependencies

theorem checkTask_ok {groups : GroupScan} {index : Nat} {scan after : TaskScan}
    {before : List TaskSpec} {task : TaskSpec}
    (sound : GroupsSound ids program.taskAlternativeGroups groups)
    (producedBy : scan.producedBy = outputsOf before)
    (seenTasks : scan.seenTasks = before.map (·.taskId))
    (success : checkTask ids groups.exclusive index scan task = .ok after) :
    (after.producedBy = outputsOf (before ++ [task]) ∧
      after.seenTasks = (before ++ [task]).map (·.taskId)) ∧
      TaskSound program before task := by
  unfold checkTask at success
  simp only [bind_ok, pure_ok] at success
  obtain ⟨_, _, _, _, _, dependencies, _, _, _, _, written, outputs, _, inputs, _, _,
    rfl⟩ := success
  obtain ⟨rfl, alone⟩ := checkOutputs_ok outputs
  have recorded : outputsOf (before ++ [task]) =
      scan.producedBy ++ task.outputs.map (fun output => (output, task.taskId)) := by
    unfold outputsOf
    rw [List.flatMap_append, List.flatMap_singleton, producedBy]
    rfl
  refine ⟨⟨recorded.symm, ?_⟩, ?_⟩
  · rw [List.map_append, seenTasks]
    rfl
  constructor
  case dependencies =>
    intro dependency mem
    obtain ⟨_, seen⟩ := each_ok_mem dependencies mem
    rw [← seenTasks]
    exact of_decide_eq_true (require_ok.mp seen)
  case writers =>
    intro writer mem object isOutput isWritten
    apply separated_of_exclusive sound
    apply alone object isWritten
    rw [mem_writersOf, producedBy]
    exact mem_outputsOf.mpr ⟨writer, mem, isOutput, rfl⟩
  case readers =>
    rintro object isInput ⟨writer, mem, isOutput⟩
    obtain ⟨_, passed⟩ := each_ok_mem inputs isInput
    rw [← recorded] at passed
    have some_writer : writer.taskId ∈ writersOf object (outputsOf (before ++ [task])) :=
      mem_writersOf.mpr (mem_outputsOf.mpr ⟨writer, mem, isOutput, rfl⟩)
    unfold checkInput at passed
    split at passed
    case isTrue empty =>
      rw [List.isEmpty_iff.mp empty] at some_writer
      cases some_writer
    case isFalse =>
      rw [require_ok, List.any_eq_true] at passed
      obtain ⟨producer, isProducer, depends⟩ := passed
      obtain ⟨found, inBefore, writes, rfl⟩ :=
        mem_outputsOf.mp (mem_writersOf.mp isProducer)
      exact ⟨found, inBefore, writes, of_decide_eq_true depends⟩

/-- Everything construction establishes about tasks and groups. -/
structure Constructed (program : ProgramFields) : Prop where
  taskIds : (program.tasks.map (·.taskId)).Nodup
  groupIds : (program.taskAlternativeGroups.map (·.groupId)).Nodup
  apart : program.taskAlternativeGroups.Pairwise fun first second =>
    ∀ task ∈ tasksOf first, task ∉ tasksOf second
  known : ∀ group ∈ program.taskAlternativeGroups, ∀ task ∈ tasksOf group,
    task ∈ program.tasks.map (·.taskId)
  tasks : ∀ before task after, program.tasks = before ++ task :: after →
    TaskSound program before task

theorem constructed (program : ShadowSpillProgram) : Constructed program.toProgramFields := by
  have passed := program.checked
  unfold ProgramFields.check at passed
  simp only [bind_ok] at passed
  obtain ⟨_, _, ids, identities, _, _, _, _, groups, alternatives, scan, tasks, _⟩ := passed
  unfold indexIdentities at identities
  simp only [bind_ok, pure_ok] at identities
  obtain ⟨_, _, _, _, _, _, _, _, taskIds, taskIndex, groupIds, groupIndex, rfl⟩ := identities
  obtain ⟨rfl, _, tasksNodup, _⟩ := indexUnique_ok.mp taskIndex
  obtain ⟨_, _, groupsNodup, _⟩ := indexUnique_ok.mp groupIndex
  have groupsSound := checkAlternativeGroups_ok alternatives
  refine ⟨tasksNodup, groupsNodup, groupsSound.apart, groupsSound.known, ?_⟩
  intro before task after split
  unfold checkTasks at tasks
  rw [split] at tasks
  obtain ⟨middle, next, reached, visited⟩ := walk_split tasks
  have kept := @walk_keeps _ _ _ _
    (fun before (scan : TaskScan) => scan.producedBy = outputsOf before ∧
      scan.seenTasks = before.map (·.taskId))
    (fun index before scan after task sound passed =>
      (checkTask_ok groupsSound sound.1 sound.2 passed).1)
    _ [] _ _ _ ⟨rfl, rfl⟩ reached
  exact (checkTask_ok groupsSound kept.1 kept.2 visited).2

end ShadowSpill.Ir.ConstructionFacts
