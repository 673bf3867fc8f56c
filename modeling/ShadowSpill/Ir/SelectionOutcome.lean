import Mathlib.Data.List.Induction
import ShadowSpill.Ir.Resolution

/-!
# The outcome of every selection

A complete choice resolves a constructed program exactly when the active tasks write
apart and depend on their active producers; construction alone guarantees neither.  What
a success returns is the active tasks in program order, each with its active
dependencies, whatever selections came before.
-/

namespace ShadowSpill.Ir.SelectionOutcome

open Validation Program Selection ConstructionFacts Resolution Library.Checks

variable {choices : List TaskAlternativeChoice}

/-! ## Success and failure -/

/-- The active tasks write apart, and each depends on the active producers of its
inputs. -/
def Resolvable (program : ProgramFields) (choices : List TaskAlternativeChoice) : Prop :=
  ∀ before task after, activeTasks program choices = before ++ task :: after →
    TaskConsistent before task

/-- Dropping inactive dependencies changes nothing about consistency. -/
theorem consistent_restrictTo {active : List String} {before : List TaskSpec}
    {task : TaskSpec} (known : ∀ writer ∈ before ++ [task], writer.taskId ∈ active) :
    TaskConsistent (before.map (restrictTo active)) (restrictTo active task) ↔
      TaskConsistent before task := by
  have depends_iff : ∀ writer ∈ before ++ [task],
      writer.taskId ∈ (restrictTo active task).dependencies ↔
        writer.taskId ∈ task.dependencies := by
    intro writer mem
    show writer.taskId ∈ task.dependencies.filter (fun dependency => dependency ∈ active) ↔ _
    rw [List.mem_filter]
    exact and_iff_left (decide_eq_true (known writer mem))
  have mapped : before.map (restrictTo active) ++ [restrictTo active task] =
      (before ++ [task]).map (restrictTo active) := by
    rw [List.map_append]
    rfl
  constructor
  · rintro ⟨alone, depends⟩
    constructor
    case alone =>
      intro writer mem
      exact alone (restrictTo active writer) (List.mem_map_of_mem mem)
    case depends =>
      intro object isInput writer mem writes
      rw [mapped] at depends
      exact (depends_iff writer mem).mp
        (depends object isInput (restrictTo active writer) (List.mem_map_of_mem mem) writes)
  · rintro ⟨alone, depends⟩
    constructor
    case alone =>
      intro writer mem
      obtain ⟨source, inBefore, rfl⟩ := List.mem_map.mp mem
      exact alone source inBefore
    case depends =>
      intro object isInput writer mem writes
      rw [mapped] at mem
      obtain ⟨source, inBefore, rfl⟩ := List.mem_map.mp mem
      exact (depends_iff source inBefore).mpr
        (depends object isInput source inBefore writes)

/-- The walk over the resolved tasks succeeds exactly when they are consistent. -/
theorem resolved_walk (program : ProgramFields) (choices : List TaskAlternativeChoice) :
    (∃ after, walk selectTask 0 [] (resolved program choices) = .ok after) ↔
      Resolvable program choices := by
  have walked := @selectTasks_walk 0 [] (resolved program choices) List.nodup_nil
  apply walked.trans
  unfold resolved Resolvable
  generalize isIds : (activeTasks program choices).map (·.taskId) = active
  have known : ∀ writer ∈ activeTasks program choices, writer.taskId ∈ active := by
    intro writer mem
    rw [← isIds]
    exact List.mem_map_of_mem mem
  have known_before : ∀ {before task after},
      activeTasks program choices = before ++ task :: after →
      ∀ writer ∈ before ++ [task], writer.taskId ∈ active := by
    intro before task after split writer mem
    apply known
    rw [split]
    rcases List.mem_append.mp mem with early | here
    · exact List.mem_append_left _ early
    · rw [List.mem_singleton.mp here]
      exact List.mem_append_right _ List.mem_cons_self
  constructor
  · intro all before task after split
    apply (consistent_restrictTo (known_before split)).mp
    apply all _ _ (after.map (restrictTo active))
    rw [split, List.map_append, List.map_cons]
  · intro all earlier task later split
    obtain ⟨before, rest, eq, rfl, isRest⟩ := List.map_eq_append_iff.mp split
    obtain ⟨source, after, rfl, rfl, _⟩ := List.map_eq_cons_iff.mp isRest
    exact (consistent_restrictTo (known_before eq)).mpr (all before source after eq)

/-- A complete choice passes every check before the walk. -/
theorem selectTasks_eq (program : ShadowSpillProgram)
    (complete : Complete program.toProgramFields choices) :
    selectTasks program choices =
      walk selectTask 0 [] (resolved program.toProgramFields choices) >>= fun _ =>
        .ok (resolved program.toProgramFields choices) := by
  obtain ⟨variants, walked, variantTasks, activeVariants⟩ := @selectGroups_ok _ _ 0 ⟨[], []⟩
    program.taskAlternativeGroups complete (fun _ mem => mem)
  have sameGroups : ((choices.map (·.groupId)).all
        (· ∈ program.taskAlternativeGroups.map (·.groupId)) &&
      (program.taskAlternativeGroups.map (·.groupId)).all
        (· ∈ choices.map (·.groupId))) = true := by
    rw [Bool.and_eq_true, List.all_eq_true, List.all_eq_true]
    constructor
    · intro id mem
      exact decide_eq_true ((complete.groups id).mp mem)
    · intro id mem
      exact decide_eq_true ((complete.groups id).mpr mem)
  have selected : (program.tasks.filter fun task =>
      task.taskId ∉ variants.variantTasks ∨ task.taskId ∈ variants.activeVariantTasks) =
      activeTasks program.toProgramFields choices := by
    unfold activeTasks
    apply List.filter_congr
    intro task _
    unfold isActive
    rw [Bool.eq_iff_iff, decide_eq_true_iff, variantTasks, activeVariants]
    simp
  unfold selectTasks
  rw [require_ok.mpr (decide_eq_true complete.once), require_ok.mpr sameGroups, walked]
  show (restrictTasks _ _ >>= _) = _
  rw [selected, restrictTasks_eq]
  rfl

/-- Every failure of a selected task is about the selections. -/
theorem selectTask_error {index : Nat} {producedBy : List (String × String)}
    {task : TaskSpec} {failure : ValidationError}
    (failed : selectTask index producedBy task = .error failure) :
    failure.path = "selections" := by
  have of_require : ∀ {condition : Bool} {complaint : Complaint},
      require condition "selections" complaint = .error failure →
      failure.path = "selections" := by
    intro condition complaint rejected
    unfold require at rejected
    split at rejected
    · cases rejected
    · cases rejected
      rfl
  unfold selectTask at failed
  rcases bind_error.mp failed with outputs | ⟨_, _, rest⟩
  · obtain ⟨_, _, output, _, rejected⟩ := walk_error outputs
    unfold selectOutput at rejected
    rcases bind_error.mp rejected with produced | ⟨_, _, impossible⟩
    · exact of_require produced
    · cases impossible
  · rcases bind_error.mp rest with inputs | ⟨_, _, impossible⟩
    · obtain ⟨_, input, _, rejected⟩ := each_error inputs
      unfold selectInput at rejected
      split at rejected
      · cases rejected
      · exact of_require rejected
    · cases impossible

/-! ## Earlier selections -/

/-- The caches that a sequence of selections leaves. -/
inductive CacheReached (program : ShadowSpillProgram) : SelectedCache → Prop where
  | start : CacheReached program none
  | select {cache : SelectedCache} (reached : CacheReached program cache)
      (choices : List TaskAlternativeChoice) :
      CacheReached program (selectedTasks program cache choices).2

/-- A cached resolution is the one that selecting again would give. -/
theorem selectedTasks_eq (program : ShadowSpillProgram) {cache : SelectedCache}
    (reached : CacheReached program cache) :
    (∀ choices tasks, cache = some (choices, tasks) →
      selectTasks program choices = .ok tasks) ∧
      ∀ choices, (selectedTasks program cache choices).1 = selectTasks program choices := by
  have of_sound : ∀ {cache : SelectedCache},
      (∀ choices tasks, cache = some (choices, tasks) →
        selectTasks program choices = .ok tasks) →
      ∀ choices, (selectedTasks program cache choices).1 = selectTasks program choices ∧
        ∀ other tasks, (selectedTasks program cache choices).2 = some (other, tasks) →
          selectTasks program other = .ok tasks := by
    intro cache sound choices
    unfold selectedTasks
    cases cache with
    | none =>
        cases outcome : selectTasks program choices with
        | error failure =>
            refine ⟨rfl, ?_⟩
            intro other tasks impossible
            cases impossible
        | ok selected =>
            refine ⟨rfl, ?_⟩
            intro other tasks same
            cases same
            exact outcome
    | some entry =>
        obtain ⟨cached, kept⟩ := entry
        have found := sound cached kept rfl
        dsimp only
        split
        case isTrue same =>
          subst same
          exact ⟨found.symm, fun other tasks same => sound other tasks same⟩
        case isFalse =>
          cases outcome : selectTasks program choices with
          | error failure => exact ⟨rfl, fun other tasks same => sound other tasks same⟩
          | ok selected =>
              refine ⟨rfl, ?_⟩
              intro other tasks same
              cases same
              exact outcome
  have sound : ∀ choices tasks, cache = some (choices, tasks) →
      selectTasks program choices = .ok tasks := by
    induction reached with
    | start =>
        intro choices tasks impossible
        cases impossible
    | select _ choices inductionHypothesis => exact (of_sound inductionHypothesis choices).2
  exact ⟨sound, fun choices => (of_sound sound choices).1⟩

/-! ## What a success returns -/

/-- Consistent tasks produce every object at most once. -/
theorem outputs_once_of_consistent {tasks : List TaskSpec}
    (consistent : ∀ before task after, tasks = before ++ task :: after →
      TaskConsistent before task) :
    ((outputsOf tasks).map (·.1)).Nodup := by
  induction tasks using List.reverseRecOn with
  | nil => exact List.nodup_nil
  | append_singleton before task inductionHypothesis =>
      apply outputs_once
      · apply inductionHypothesis
        intro earlier other later split
        apply consistent earlier other (later ++ [task])
        rw [split, List.append_assoc, List.cons_append]
      · exact (consistent before task [] rfl).alone

/-- The active tasks in program order, each object produced once, and each input that an
earlier active task produces produced by one task, which the reader depends on. -/
structure ResolvedAs (program : ProgramFields) (choices : List TaskAlternativeChoice)
    (selected : List TaskSpec) : Prop where
  tasks : selected = resolved program choices
  once : ((outputsOf selected).map (·.1)).Nodup
  producer : ∀ before reader after, selected = before ++ reader :: after →
    ∀ object ∈ reader.inputs, (∃ writer ∈ before, object ∈ writer.outputs) →
      ∃ writer ∈ before, object ∈ writer.outputs ∧
        writer.taskId ∈ reader.dependencies ∧
        ∀ other ∈ selected, object ∈ other.outputs → other = writer

theorem resolved_ids_nodup (program : ShadowSpillProgram)
    (choices : List TaskAlternativeChoice) :
    ((resolved program.toProgramFields choices).map (·.taskId)).Nodup := by
  have ids : (resolved program.toProgramFields choices).map (·.taskId) =
      (activeTasks program.toProgramFields choices).map (·.taskId) := by
    unfold resolved
    rw [List.map_map]
    rfl
  rw [ids]
  exact (constructed program).taskIds.sublist (List.filter_sublist.map _)

theorem resolvedAs_of_walk (program : ShadowSpillProgram) {after : List (String × String)}
    (walked : walk selectTask 0 [] (resolved program.toProgramFields choices) = .ok after) :
    ResolvedAs program.toProgramFields choices (resolved program.toProgramFields choices) := by
  have consistent := (@selectTasks_walk 0 [] _ List.nodup_nil).mp ⟨after, walked⟩
  have once := outputs_once_of_consistent consistent
  constructor
  case tasks => rfl
  case once => exact once
  case producer =>
    rintro before reader later split object isInput ⟨writer, mem, writes⟩
    have all : ∀ other ∈ before, other ∈ resolved program.toProgramFields choices := by
      intro other early
      rw [split]
      exact List.mem_append_left _ early
    refine ⟨writer, mem, writes, ?_, ?_⟩
    · exact (consistent before reader later split).depends object isInput writer
        (List.mem_append_left _ mem) writes
    · intro other inSelected otherWrites
      have entry : ((object, other.taskId) : String × String) = (object, writer.taskId) := by
        apply List.inj_on_of_nodup_map once
        · exact mem_outputsOf.mpr ⟨other, inSelected, otherWrites, rfl⟩
        · exact mem_outputsOf.mpr ⟨writer, all writer mem, writes, rfl⟩
        · rfl
      exact List.inj_on_of_nodup_map (resolved_ids_nodup program choices) inSelected
        (all writer mem) (congrArg Prod.snd entry)

/-- After any selections, a complete choice resolves exactly when the active tasks write
apart and depend on their active producers, and otherwise fails on the selections.
Construction itself tells two writers of one object apart by two options of one group,
and has every reader depend on one of the writers before it. -/
theorem selection_outcome (program : ShadowSpillProgram) {cache : SelectedCache}
    (reached : CacheReached program cache)
    (complete : Complete program.toProgramFields choices) :
    ((∃ selected, (selectedTasks program cache choices).1 = .ok selected) ↔
        Resolvable program.toProgramFields choices) ∧
      (∀ selected, (selectedTasks program cache choices).1 = .ok selected →
        ResolvedAs program.toProgramFields choices selected) ∧
      (∀ failure, (selectedTasks program cache choices).1 = .error failure →
        failure.path = "selections") ∧
      ∀ before task after, program.tasks = before ++ task :: after →
        TaskSound program.toProgramFields before task := by
  rw [(selectedTasks_eq program reached).2 choices, selectTasks_eq program complete]
  refine ⟨?_, ?_, ?_, (constructed program).tasks⟩
  · rw [← resolved_walk]
    constructor
    · rintro ⟨selected, success⟩
      obtain ⟨after, walked, _⟩ := bind_ok.mp success
      exact ⟨after, walked⟩
    · rintro ⟨after, walked⟩
      exact ⟨_, bind_ok.mpr ⟨after, walked, rfl⟩⟩
  · intro selected success
    obtain ⟨after, walked, same⟩ := bind_ok.mp success
    cases same
    exact resolvedAs_of_walk program walked
  · intro failure failed
    rcases bind_error.mp failed with walked | ⟨_, _, impossible⟩
    · obtain ⟨_, _, _, _, rejected⟩ := walk_error walked
      exact selectTask_error rejected
    · cases impossible

/-! ## Selections that a constructed program does not resolve -/

/-- A task that writes the one object. -/
def writerTask (taskId : String)
    (checked : TaskFields.check ⟨taskId, "cuda_0", "profile", [], [], ["x"], [], "compute"⟩ =
      .ok ()) : TaskSpec :=
  ⟨⟨taskId, "cuda_0", "profile", [], [], ["x"], [], "compute"⟩, checked⟩

/-- A task that reads it, and depends on one of its writers. -/
def readerTask : TaskSpec :=
  ⟨⟨"consume", "cuda_0", "profile", ["save"], ["x"], [], [], "compute"⟩, by decide⟩

def optionOf (optionId : String) (tasks : List String)
    (checked : OptionFields.check ⟨optionId, tasks, []⟩ = .ok ()) : TaskAlternativeOption :=
  ⟨⟨optionId, tasks, []⟩, checked⟩

/-- Four options over the two writers: either, both or neither. -/
def fourOptions : TaskAlternativeGroup where
  groupId := "g"
  options := [optionOf "save" ["save"] (by decide),
    optionOf "recompute" ["recompute"] (by decide),
    optionOf "both" ["save", "recompute"] (by decide), optionOf "neither" [] (by decide)]
  checked := by decide

/-- Two writers of one object and a reader that depends on the first. -/
def fourWays : ShadowSpillProgram where
  devices := [⟨"cuda_0"⟩]
  aliasGroups := [⟨"storage", "cuda_0", 8, none⟩]
  objects := [⟨"x", "storage", 0, 8⟩]
  profiles := [⟨"profile"⟩]
  tasks := [writerTask "save" (by decide), writerTask "recompute" (by decide), readerTask]
  taskAlternativeGroups := [fourOptions]
  checked := by decide

theorem fourWays_complete {option : String}
    (known : option ∈ fourOptions.options.map (·.optionId)) :
    Complete fourWays.toProgramFields [⟨"g", option⟩] := by
  constructor
  case once => exact List.nodup_singleton "g"
  case groups => exact fun id => Iff.rfl
  case options =>
    intro group inGroups choice isChoice _
    rw [List.mem_singleton.mp inGroups, List.mem_singleton.mp isChoice]
    exact known

/-- Choosing the first writer resolves, whatever was selected before. -/
theorem selection_outcome_save :
    ((∃ selected, (selectedTasks fourWays none [⟨"g", "save"⟩]).1 = .ok selected) ↔
        Resolvable fourWays.toProgramFields [⟨"g", "save"⟩]) ∧
      (∀ selected, (selectedTasks fourWays none [⟨"g", "save"⟩]).1 = .ok selected →
        ResolvedAs fourWays.toProgramFields [⟨"g", "save"⟩] selected) ∧
      (∀ failure, (selectedTasks fourWays none [⟨"g", "save"⟩]).1 = .error failure →
        failure.path = "selections") ∧
      ∀ before task after, fourWays.tasks = before ++ task :: after →
        TaskSound fourWays.toProgramFields before task :=
  selection_outcome fourWays CacheReached.start (fourWays_complete (by decide))

/-- A constructed program whose complete choices fail, because an option holds two writers
or because the reader depends on the other writer, or leave an input that earlier tasks
of the program write without an active producer. -/
theorem constructed_not_resolved :
    (Complete fourWays.toProgramFields [⟨"g", "both"⟩] ∧
      selectTasks fourWays [⟨"g", "both"⟩] =
        .error ⟨"selections", .producedTwice "x"⟩) ∧
      (Complete fourWays.toProgramFields [⟨"g", "recompute"⟩] ∧
        selectTasks fourWays [⟨"g", "recompute"⟩] =
          .error ⟨"selections", .omitsProducer "consume" "recompute"⟩) ∧
      (Complete fourWays.toProgramFields [⟨"g", "neither"⟩] ∧
        ∃ reader, selectTasks fourWays [⟨"g", "neither"⟩] = .ok [reader] ∧
          "x" ∈ reader.inputs ∧ "x" ∉ reader.outputs ∧
          ∃ writer ∈ fourWays.tasks, "x" ∈ writer.outputs) := by
  refine ⟨⟨fourWays_complete (by decide), by decide⟩,
    ⟨fourWays_complete (by decide), by decide⟩, fourWays_complete (by decide), ?_⟩
  exact ⟨restrictTo [] readerTask, by decide, by decide, by decide,
    writerTask "save" (by decide), by decide, by decide⟩

end ShadowSpill.Ir.SelectionOutcome
