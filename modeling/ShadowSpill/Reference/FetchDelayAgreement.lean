import ShadowSpill.Reference.AliasAgreement
import ShadowSpill.Reference.FetchDelay

/-!
# Delaying a fetch both ways

Both ways list the same fetches and prefer the same one.  They part where no task reads
the preferred fetch any more, which the reference delays and the indexed schedule keeps;
where the schedule writes back, which the reference has no priority for; and where the
moved schedule is not valid, which the reference refuses.
-/

namespace ShadowSpill.Reference.FetchDelayAgreement

open Ir.Program Ir.Selection Ir.Indexing Ir.Schedule
open Planner.Residency.Problem Planner.Residency.AliasLists
open Planner.Residency.AliasTouches Planner.Residency.InputAnchors Planner.Schedule.Fetches
open BoundaryFacts AliasAgreement FetchDelay

/-! ## Consumers -/

section Consumers

/-- In ascending values, the bisection finds the least one above. -/
theorem bisectRight_least {values : List Nat} (ascending : values.Pairwise (· < ·))
    (value found : Nat) :
    values[bisectRight values value]? = some found ↔
      IsLeast {other | other ∈ values ∧ value < other} found := by
  unfold bisectRight
  induction values with
  | nil => simp [IsLeast]
  | cons head rest inductionHypothesis =>
    rw [List.pairwise_cons] at ascending
    by_cases below : head ≤ value
    · rw [List.takeWhile_cons_of_pos (by simpa using below), List.length_cons,
        List.getElem?_cons_succ, inductionHypothesis ascending.2]
      have same : {other | other ∈ head :: rest ∧ value < other} =
          {other | other ∈ rest ∧ value < other} := by
        ext other
        simp only [Set.mem_ofPred_eq, List.mem_cons]
        grind
      rw [same]
    · rw [List.takeWhile_cons_of_neg (by simpa using below), List.length_nil,
        List.getElem?_cons_zero, Option.some.injEq]
      have least : IsLeast {other | other ∈ head :: rest ∧ value < other} head := by
        refine ⟨⟨List.mem_cons_self, by omega⟩, ?_⟩
        rintro other ⟨mem, _⟩
        rcases List.mem_cons.mp mem with rfl | later
        · exact le_rfl
        · exact (ascending.1 other later).le
      constructor
      · rintro rfl
        exact least
      · exact fun isLeast => least.unique isLeast

variable {program : ShadowSpillProgram} {tasks : List TaskSpec} {aliasId : Nat}
  {initialLocation finalLocation : Nat → Option MemoryLocation}

theorem foldl_addTask_inputs (entries : List (TaskSpec × Nat)) (facts : AliasFacts) :
    (entries.foldl (addTask program) facts).inputTasks aliasId =
      facts.inputTasks aliasId ++
        (entries.filter fun entry => aliasId ∈ sizedAliases program entry.1.inputs).map (·.2) := by
  induction entries generalizing facts with
  | nil => simp
  | cons entry rest inductionHypothesis =>
    rw [List.foldl_cons, inductionHypothesis]
    by_cases reads : aliasId ∈ sizedAliases program entry.1.inputs <;> simp [addTask, reads]

theorem inputTasks_eq :
    (buildFacts program tasks initialLocation finalLocation).inputTasks aliasId =
      (tasks.zipIdx.filter fun entry =>
        aliasId ∈ sizedAliases program entry.1.inputs).map (·.2) :=
  (foldl_addTask_inputs tasks.zipIdx _).trans (List.nil_append _)

/-- The tasks that read an alias are listed in order. -/
theorem inputTasks_ascend :
    ((buildFacts program tasks initialLocation finalLocation).inputTasks aliasId).Pairwise
      (· < ·) := by
  rw [inputTasks_eq, List.pairwise_map]
  apply List.Pairwise.sublist List.filter_sublist
  rw [List.pairwise_iff_getElem]
  intro first second firstBound secondBound ordered
  simpa using ordered

theorem nextConsumer_lt {trigger consumer : Nat}
    (isNext : nextConsumer (buildFacts program tasks initialLocation finalLocation) aliasId
      trigger = some consumer) : consumer < tasks.length := by
  have mem := List.mem_of_getElem? isNext
  rw [inputTasks_eq] at mem
  rcases List.mem_map.mp mem with ⟨entry, isEntry, rfl⟩
  exact List.snd_lt_of_mem_zipIdx (List.mem_of_mem_filter isEntry)

variable {choices : List TaskAlternativeChoice} {lists : SparseLists}

/-- The facts of a schedule, from the lists of its program. -/
def scheduleFacts (program : ShadowSpillProgram) (tasks : List TaskSpec) (lists : SparseLists) :
    ScheduleFacts where
  taskCount := tasks.length
  aliasSizeBytes := (indexSimulation program tasks).aliasSizeBytes
  anchors := lists.anchors.row

/-- Both searches find the same consumer, also where the anchors are out of order. -/
theorem nextConsumer_eq (selected : selectTasks program choices = .ok tasks)
    (built : buildAliasLists (indexSimulation program tasks) initialLocation finalLocation =
      some lists) (bound : aliasId < program.aliasGroups.length)
    (sized : aliasSize program aliasId ≠ 0) (unshared : isShared program aliasId = false)
    (trigger : Nat) :
    nextInputConsumer (scheduleFacts program tasks lists) aliasId trigger =
      nextConsumer (buildFacts program tasks initialLocation finalLocation) aliasId trigger := by
  have anchors := ((buildAliasLists_lists (rowsInside selected) built).2 aliasId bound).anchors
  rw [if_neg (indexedSizeBytes_ne_zero sized unshared)] at anchors
  have matched := buildFacts_matches sized tasks initialLocation finalLocation
  have found : ∀ task, nextInputConsumer (scheduleFacts program tasks lists) aliasId trigger =
      some task ↔
      nextConsumer (buildFacts program tasks initialLocation finalLocation) aliasId trigger =
        some task := by
    intro task
    have inputs : {position | trigger + 1 ≤ position ∧
        ∃ anchor ∈ lists.anchors.row aliasId, anchor.position = position ∧
          anchor.input = true} =
        {task | task ∈ (buildFacts program tasks initialLocation finalLocation).inputTasks
          aliasId ∧ trigger < task} := by
      ext position
      rw [anchors, Set.mem_ofPred_eq, Set.mem_ofPred_eq, merged_inputs, matched.inputs, and_comm]
      rfl
    unfold nextInputConsumer nextConsumer
    rw [bisectRight_least inputTasks_ascend, ← inputs]
    apply nextInput_eq_some
    show (lists.anchors.row aliasId).Pairwise InOrder
    rw [anchors]
    exact merged_inOrder (touchesOf_inOrder _ _ _)
  exact Option.ext found

end Consumers

/-! ## Targets and choices -/

section Targets

variable {program : RetainingProgram} {tasks : List TaskSpec}
  {initialLocation finalLocation : Nat → Option MemoryLocation}
  {choices : List TaskAlternativeChoice} {lists : SparseLists}
  {failure : SimulationFailure tasks.length}

/-- The facts that the reference builds of a program. -/
abbrev factsOf (program : RetainingProgram) (tasks : List TaskSpec)
    (initialLocation finalLocation : Nat → Option MemoryLocation) : AliasFacts :=
  buildFacts program.toShadowSpillProgram tasks initialLocation finalLocation

/-- The last trigger before a consumer, or of the tasks. -/
def triggerBefore (count : Nat) : Option Nat → Nat
  | some consumer => consumer - 1
  | none => count - 1

/-- The trigger after an action's own, past the task that a capacity failure names. -/
def triggerAfter {count : Nat} (failure : SimulationFailure count) (trigger : Nat) :
    Option (Fin count) → Nat
  | some task =>
    if failure.status = .taskDeviceCapacity then max (trigger + 1) task.val else trigger + 1
  | none => trigger + 1

/-- Both ways move an action to the same trigger, or leave it. -/
theorem delayTarget_eq
    (selected : selectTasks program.toShadowSpillProgram choices = .ok tasks)
    (built : buildAliasLists (indexSimulation program.toShadowSpillProgram tasks)
      initialLocation finalLocation = some lists)
    {action : MemoryAction} (orderable : Orderable program tasks action) :
    delayTarget (scheduleFacts program.toShadowSpillProgram tasks lists) failure action =
      candidateTarget tasks (factsOf program tasks initialLocation finalLocation) failure
        action := by
  have consumer := nextConsumer_eq selected built orderable.known orderable.sized
    orderable.unshared action.trigger
  have latest : latestTrigger (scheduleFacts program.toShadowSpillProgram tasks lists) action =
      triggerBefore tasks.length
        (nextConsumer (factsOf program tasks initialLocation finalLocation) action.aliasId
          action.trigger) := by
    unfold latestTrigger
    rw [consumer]
    cases nextConsumer (factsOf program tasks initialLocation finalLocation) action.aliasId
      action.trigger <;> rfl
  have later : laterTrigger failure action.trigger =
      triggerAfter failure action.trigger failure.errorTask := by
    unfold laterTrigger triggerAfter
    cases failure.errorTask with
    | none => rfl
    | some task =>
      by_cases taskFailed : failure.status = .taskDeviceCapacity
      · simp only [taskFailed, true_and, if_true]
        split <;> omega
      · simp [taskFailed]
  unfold delayTarget candidateTarget
  rw [latest, later]
  cases nextConsumer (factsOf program tasks initialLocation finalLocation) action.aliasId
    action.trigger <;> cases failure.errorTask <;> rfl

theorem indexedSize_eq {action : MemoryAction} (orderable : Orderable program tasks action) :
    (scheduleFacts program.toShadowSpillProgram tasks lists).aliasSizeBytes action.aliasId =
      aliasSize program.toShadowSpillProgram action.aliasId := by
  show indexedSizeBytes program.toShadowSpillProgram action.aliasId = _
  unfold indexedSizeBytes
  rw [orderable.unshared]
  rfl

/-- The first choice of the reference. -/
abbrev FirstCandidate (program : RetainingProgram) (tasks : List TaskSpec)
    (initialLocation finalLocation : Nat → Option MemoryLocation)
    (failure : SimulationFailure tasks.length) (actions : List MemoryAction) (index : Nat)
    (action : MemoryAction) (moved : Nat) : Prop :=
  FirstChoice (aliasSize program.toShadowSpillProgram)
    (candidateTarget tasks (factsOf program tasks initialLocation finalLocation) failure)
    actions index action moved

/-- A first choice only looks at the actions there are. -/
theorem FirstChoice.congr {size otherSize : Nat → Nat}
    {target otherTarget : MemoryAction → Option Nat} {actions : List MemoryAction}
    {index moved : Nat} {action : MemoryAction}
    (sizes : ∀ action ∈ actions, size action.aliasId = otherSize action.aliasId)
    (targets : ∀ action ∈ actions, target action = otherTarget action)
    (choice : FirstChoice size target actions index action moved) :
    FirstChoice otherSize otherTarget actions index action moved := by
  have mem := List.mem_of_getElem? choice.located
  refine ⟨choice.located, (targets action mem).symm.trans choice.delayable, ?_⟩
  intro other otherAction located delayable
  have otherMem := List.mem_of_getElem? located
  rw [← targets otherAction otherMem] at delayable
  have first := choice.first other otherAction located delayable
  rwa [sizes action mem, sizes otherAction otherMem] at first

/-- The least candidate is the first choice. -/
theorem minimum_firstCandidate {actions : List MemoryAction} {least : Candidate}
    (isLeast : (actions.zipIdx.filterMap (candidate program tasks
      (factsOf program tasks initialLocation finalLocation) failure)).min? = some least) :
    ∃ action, FirstCandidate program tasks initialLocation finalLocation failure actions
      (ofLex (ofLex (ofLex least).2).2).1 action (ofLex (ofLex (ofLex least).2).2).2 := by
  rcases List.min?_eq_some_iff.mp isLeast with ⟨mem, bound⟩
  rcases List.mem_filterMap.mp mem with ⟨⟨action, index⟩, isEntry, isCandidate⟩
  unfold candidate at isCandidate
  rcases Option.map_eq_some_iff.mp isCandidate with ⟨moved, target, rfl⟩
  refine ⟨action, List.mk_mem_zipIdx_iff_getElem?.mp isEntry, target, ?_⟩
  intro other otherAction located delayable
  rcases Option.isSome_iff_exists.mp delayable with ⟨otherMoved, otherTarget⟩
  have le := bound _ (List.mem_filterMap.mpr ⟨(otherAction, other),
    List.mk_mem_zipIdx_iff_getElem?.mpr located, by unfold candidate; rw [otherTarget]; rfl⟩)
  simp only [Prod.Lex.toLex_le_toLex] at le
  show _ ∨ _ ∧ (_ ∨ _ ∧ index ≤ other)
  omega

theorem minimum_none {actions : List MemoryAction}
    (empty : (actions.zipIdx.filterMap (candidate program tasks
      (factsOf program tasks initialLocation finalLocation) failure)).min? = none) :
    ∀ action ∈ actions, candidateTarget tasks
      (factsOf program tasks initialLocation finalLocation) failure action = none := by
  intro action mem
  rcases List.getElem?_of_mem mem with ⟨index, located⟩
  rw [List.min?_eq_none_iff, List.filterMap_eq_nil_iff] at empty
  have skipped := empty (action, index) (List.mk_mem_zipIdx_iff_getElem?.mpr located)
  unfold candidate at skipped
  exact Option.map_eq_none_iff.mp skipped

end Targets

/-! ## One order of actions -/

section Orders

variable {cFacts : ScheduleFacts} {facts : AliasFacts} {taskCount : Nat}

/-- A map that never fails maps. -/
theorem mapM_some {α β : Type} {f : α → Option β} {g : α → β} {values : List α}
    (each : ∀ value ∈ values, f value = some (g value)) :
    values.mapM f = some (values.map g) := by
  induction values with
  | nil => rfl
  | cons head rest inductionHypothesis =>
    rw [List.mapM_cons, each head List.mem_cons_self,
      inductionHypothesis fun value mem => each value (List.mem_cons_of_mem _ mem)]
    rfl

theorem mapM_none {α β : Type} {f : α → Option β} {values : List α} {value : α}
    (mem : value ∈ values) (fails : f value = none) : values.mapM f = none := by
  induction values with
  | nil => cases mem
  | cons head rest inductionHypothesis =>
    rw [List.mapM_cons]
    rcases List.mem_cons.mp mem with rfl | later
    · rw [fails]
      rfl
    · rw [inductionHypothesis later]
      cases f head <;> rfl

/-- The searches agree on the alias of an action, and find tasks. -/
structure SameConsumer (cFacts : ScheduleFacts) (facts : AliasFacts) (taskCount : Nat)
    (action : MemoryAction) : Prop where
  same : nextInputConsumer cFacts action.aliasId action.trigger =
    nextConsumer facts action.aliasId action.trigger
  isTask : ∀ consumer, nextConsumer facts action.aliasId action.trigger = some consumer →
    consumer < taskCount

/-- The priority of an action that does not write back. -/
def priorityOf (facts : AliasFacts) (taskCount : Nat) (action : MemoryAction) : Priority :=
  toLex (action.trigger, toLex (kindCode action.kind, toLex
    ((if action.kind = .fetch then
      (nextConsumer facts action.aliasId action.trigger).getD taskCount else taskCount),
      action.aliasId)))

theorem actionPriority_some {action : MemoryAction} (moves : action.kind ≠ .writeBack) :
    actionPriority facts taskCount action = some (priorityOf facts taskCount action) := by
  unfold actionPriority priorityOf
  cases kind : action.kind with
  | writeBack => exact absurd kind moves
  | _ => rfl

theorem consumerKey_lt_iff {first second : Option Nat}
    (firstTask : ∀ consumer ∈ first, consumer < taskCount)
    (secondTask : ∀ consumer ∈ second, consumer < taskCount) :
    (first.getD taskCount < second.getD taskCount ↔ consumerKey first < consumerKey second) ∧
      (first.getD taskCount = second.getD taskCount ↔
        consumerKey first = consumerKey second) := by
  cases first with
  | none =>
    cases second with
    | none => simp
    | some second =>
      have bound := secondTask second rfl
      simp only [Option.getD_none, Option.getD_some, consumerKey, Prod.Lex.toLex_lt_toLex,
        EmbeddingLike.apply_eq_iff_eq, Prod.mk.injEq]
      omega
  | some first =>
    have bound := firstTask first rfl
    cases second with
    | none =>
      simp only [Option.getD_none, Option.getD_some, consumerKey, Prod.Lex.toLex_lt_toLex,
        EmbeddingLike.apply_eq_iff_eq, Prod.mk.injEq]
      omega
    | some second => simp [consumerKey, Prod.Lex.toLex_lt_toLex]

/-- Priorities order actions as the comparison does. -/
theorem priorityOf_le {left right : MemoryAction}
    (leftSame : SameConsumer cFacts facts taskCount left)
    (rightSame : SameConsumer cFacts facts taskCount right) :
    priorityOf facts taskCount left ≤ priorityOf facts taskCount right ↔
      InActionOrder cFacts left right := by
  have consumer : ∀ action, SameConsumer cFacts facts taskCount action →
      (if action.kind = .fetch then
        (nextConsumer facts action.aliasId action.trigger).getD taskCount else taskCount) =
        (withConsumer cFacts action).nextConsumer.getD taskCount := by
    intro action same
    unfold withConsumer
    rw [same.same]
    split <;> rfl
  have isTask : ∀ action, SameConsumer cFacts facts taskCount action →
      ∀ consumer ∈ (withConsumer cFacts action).nextConsumer, consumer < taskCount := by
    intro action same consumer mem
    unfold withConsumer at mem
    rw [same.same] at mem
    dsimp only at mem
    split at mem
    · exact same.isTask consumer mem
    · cases mem
  rcases consumerKey_lt_iff (isTask left leftSame) (isTask right rightSame) with ⟨less, equal⟩
  unfold InActionOrder
  rw [actionCompare_ne_gt]
  unfold priorityOf actionKey
  rw [consumer left leftSame, consumer right rightSame, Prod.Lex.toLex_le_toLex,
    Prod.Lex.toLex_le_toLex, Prod.Lex.toLex_le_toLex, Prod.Lex.toLex_le_toLex,
    Prod.Lex.toLex_le_toLex, Prod.Lex.toLex_le_toLex]
  dsimp only
  rw [less, equal]
  rfl

/-- Without write-backs both ways put actions in one order. -/
theorem sortByPriority_eq {actions : List MemoryAction}
    (same : ∀ action ∈ actions, SameConsumer cFacts facts taskCount action)
    (moves : ∀ action ∈ actions, action.kind ≠ .writeBack) :
    sortByPriority facts taskCount actions = some (sortActions cFacts actions) := by
  have keyed : (actions.mapM fun action =>
      (actionPriority facts taskCount action).map fun priority => (priority, action)) =
      some (actions.map fun action => (priorityOf facts taskCount action, action)) := by
    apply mapM_some
    intro action mem
    rw [actionPriority_some (moves action mem)]
    rfl
  unfold sortByPriority
  rw [keyed]
  apply congrArg some
  generalize isPaired : (actions.map fun action =>
    (priorityOf facts taskCount action, action)) = paired
  have perm : (paired.mergeSort fun left right => left.1 ≤ right.1).Perm paired :=
    List.mergeSort_perm _ _
  have ordered : (paired.mergeSort fun left right => left.1 ≤ right.1).Pairwise
      fun left right => decide (left.1 ≤ right.1) = true := by
    apply List.pairwise_mergeSort
    · intro first second third before after
      rw [decide_eq_true_eq] at before after ⊢
      exact before.trans after
    · intro first second
      simpa using le_total first.1 second.1
  have isPair : ∀ pair ∈ paired.mergeSort fun left right => left.1 ≤ right.1,
      pair.2 ∈ actions ∧ pair.1 = priorityOf facts taskCount pair.2 := by
    intro pair mem
    have source := perm.mem_iff.mp mem
    rw [← isPaired, List.mem_map] at source
    rcases source with ⟨action, isAction, rfl⟩
    exact ⟨isAction, rfl⟩
  apply sortActions_unique
  · have mapped := perm.map Prod.snd
    rw [← isPaired, List.map_map] at mapped
    rw [isPaired] at mapped
    simpa [Function.comp_def] using mapped
  · rw [List.pairwise_map]
    refine ordered.imp_of_mem fun {left right} leftMem rightMem le => ?_
    rcases isPair left leftMem with ⟨leftAction, leftPriority⟩
    rcases isPair right rightMem with ⟨rightAction, rightPriority⟩
    rw [decide_eq_true_eq, leftPriority, rightPriority] at le
    exact (priorityOf_le (same _ leftAction) (same _ rightAction)).mp le

theorem sortByPriority_writeBack {actions : List MemoryAction} {action : MemoryAction}
    (mem : action ∈ actions) (writes : action.kind = .writeBack) :
    sortByPriority facts taskCount actions = none := by
  unfold sortByPriority
  rw [mapM_none mem (by unfold actionPriority; rw [writes]; rfl)]
  rfl

end Orders

/-! ## When they agree -/

section Agreement

variable (program : RetainingProgram) (tasks : List TaskSpec) (lists : SparseLists)
  (initialLocation finalLocation : Nat → Option MemoryLocation)
  (failure : SimulationFailure tasks.length) (schedule : MemorySchedule)

/-- Both ways leave the schedule, or move it to the same one. -/
inductive SameDelay : DelayOutcome → Except DelayError (Option MemorySchedule) → Prop where
  | unmoved : SameDelay .unmoved (.ok none)
  | moved (actions : List MemoryAction) (constraint : FetchTriggerConstraint) :
      SameDelay (.moved actions constraint) (.ok (some { schedule with actions := actions }))

/-- The failure is one that delaying a fetch may help. -/
def OfCapacity : Prop :=
  failure.status = .fetchDeviceCapacity ∨ failure.status = .taskDeviceCapacity

/-- What is delayed in the indexed schedule is what the reference delays. -/
structure DelaysAlike : Prop where
  alike : SameDelay schedule
    (delayIndexedFetch (scheduleFacts program.toShadowSpillProgram tasks lists) failure
      schedule.actions)
    (delayFetch program tasks (factsOf program tasks initialLocation finalLocation) failure
      schedule)
  changes : ∀ actions constraint,
    delayIndexedFetch (scheduleFacts program.toShadowSpillProgram tasks lists) failure
      schedule.actions = .moved actions constraint →
    ∃ index action moved, FirstCandidate program tasks initialLocation finalLocation failure
        schedule.actions index action moved ∧
      actions.Perm (schedule.actions.set index { action with trigger := moved })
  progress : OfCapacity tasks failure →
    (∃ action ∈ schedule.actions, (candidateTarget tasks
      (factsOf program tasks initialLocation finalLocation) failure action).isSome) →
    ∃ actions constraint,
      delayIndexedFetch (scheduleFacts program.toShadowSpillProgram tasks lists) failure
        schedule.actions = .moved actions constraint

/-- The first fetch that may be delayed, if there is one, is read later, nothing writes
back, and the schedule stays valid with this fetch at its new trigger. -/
def FirstMovable : Prop :=
  OfCapacity tasks failure → ∀ index action moved,
    FirstCandidate program tasks initialLocation finalLocation failure schedule.actions index
      action moved →
    (∃ reader ∈ (factsOf program tasks initialLocation finalLocation).inputTasks action.aliasId,
      action.trigger < reader) ∧
    (∀ other ∈ schedule.actions, other.kind ≠ .writeBack) ∧
    validateSelected program tasks
      { schedule with
        actions := sortActions (scheduleFacts program.toShadowSpillProgram tasks lists)
          (schedule.actions.set index { action with trigger := moved }) } = .ok ()

variable {program tasks lists initialLocation finalLocation failure schedule}

theorem modify_eq_set {actions : List MemoryAction} {index : Nat} {action : MemoryAction}
    (located : actions[index]? = some action) (change : MemoryAction → MemoryAction) :
    actions.modify index change = actions.set index (change action) := by
  rw [List.modify_eq_set_getElem?, located]
  rfl

theorem candidateTarget_fetch {facts : AliasFacts} {action : MemoryAction} {moved : Nat}
    (target : candidateTarget tasks facts failure action = some moved) :
    action.kind = .fetch := by
  by_contra other
  unfold candidateTarget at target
  rw [if_pos other] at target
  cases target

/-- Moving a fetch leaves whatever writes back. -/
theorem writeBack_set {actions : List MemoryAction} {index : Nat} {action : MemoryAction}
    (located : actions[index]? = some action) (isFetch : action.kind = .fetch) (moved : Nat) :
    (∀ other ∈ actions.set index { action with trigger := moved }, other.kind ≠ .writeBack) ↔
      ∀ other ∈ actions, other.kind ≠ .writeBack := by
  rcases List.getElem?_eq_some_iff.mp located with ⟨bound, atIndex⟩
  constructor
  · intro kept other mem writes
    rcases List.getElem?_of_mem mem with ⟨place, found⟩
    by_cases here : index = place
    · subst here
      rw [found, Option.some.injEq] at located
      rw [located, isFetch] at writes
      cases writes
    · refine kept other (List.mem_of_getElem? (i := place) ?_) writes
      rwa [List.getElem?_set_ne here]
  · intro kept other mem
    rcases List.mem_or_eq_of_mem_set mem with before | rfl
    · exact kept other before
    · show action.kind ≠ _
      rw [isFetch]
      exact MemoryActionKind.noConfusion

theorem sameConsumer_set
    {choices : List TaskAlternativeChoice}
    (selected : selectTasks program.toShadowSpillProgram choices = .ok tasks)
    (built : buildAliasLists (indexSimulation program.toShadowSpillProgram tasks)
      initialLocation finalLocation = some lists)
    (orderable : ∀ action ∈ schedule.actions, Orderable program tasks action)
    {index moved : Nat} {action : MemoryAction}
    (located : schedule.actions[index]? = some action) :
    ∀ other ∈ schedule.actions.set index { action with trigger := moved },
      SameConsumer (scheduleFacts program.toShadowSpillProgram tasks lists)
        (factsOf program tasks initialLocation finalLocation) tasks.length other := by
  have sameAlias : ∀ other, Orderable program tasks other → ∀ trigger,
      SameConsumer (scheduleFacts program.toShadowSpillProgram tasks lists)
        (factsOf program tasks initialLocation finalLocation) tasks.length
        { other with trigger := trigger } := by
    intro other isOrderable trigger
    exact ⟨nextConsumer_eq selected built isOrderable.known isOrderable.sized
      isOrderable.unshared trigger, fun _ isNext => nextConsumer_lt isNext⟩
  intro other mem
  rcases List.mem_or_eq_of_mem_set mem with before | rfl
  · exact sameAlias other (orderable other before) other.trigger
  · exact sameAlias action (orderable action (List.mem_of_getElem? located)) moved

/-- Where nothing may be delayed both ways leave the schedule. -/
theorem delayFetch_unmoved
    (none : ∀ action ∈ schedule.actions, candidateTarget tasks
      (factsOf program tasks initialLocation finalLocation) failure action = none) :
    delayFetch program tasks (factsOf program tasks initialLocation finalLocation) failure
      schedule = .ok .none := by
  have empty : (schedule.actions.zipIdx.filterMap (candidate program tasks
      (factsOf program tasks initialLocation finalLocation) failure)).min? = .none := by
    rw [List.min?_eq_none_iff, List.filterMap_eq_nil_iff]
    intro entry mem
    unfold candidate
    rw [none entry.1 (List.fst_mem_of_mem_zipIdx mem)]
    rfl
  unfold delayFetch
  rw [empty]
  split <;> rfl

/-- Where some fetch may be delayed the reference moves the first one, or raises. -/
theorem delayFetch_first (ofCapacity : OfCapacity tasks failure) {index moved : Nat}
    {action : MemoryAction}
    (first : FirstCandidate program tasks initialLocation finalLocation failure
      schedule.actions index action moved) :
    delayFetch program tasks (factsOf program tasks initialLocation finalLocation) failure
      schedule =
    match sortByPriority (factsOf program tasks initialLocation finalLocation) tasks.length
      (schedule.actions.set index { action with trigger := moved }) with
    | none => .error .unknownPriority
    | some sorted =>
      match validateSelected program tasks { schedule with actions := sorted } with
      | .error refusal => .error (.refused refusal)
      | .ok () => .ok (some { schedule with actions := sorted }) := by
  have capacity : ¬ (failure.status ≠ .fetchDeviceCapacity ∧
      failure.status ≠ .taskDeviceCapacity) := by
    rintro ⟨notFetch, notTask⟩
    exact ofCapacity.elim notFetch notTask
  unfold delayFetch
  rw [if_neg capacity]
  cases least : (schedule.actions.zipIdx.filterMap (candidate program tasks
      (factsOf program tasks initialLocation finalLocation) failure)).min? with
  | none =>
    have missing := minimum_none least action (List.mem_of_getElem? first.located)
    rw [first.delayable] at missing
    cases missing
  | some chosen =>
    rcases minimum_firstCandidate least with ⟨other, otherFirst⟩
    rcases otherFirst.unique first with ⟨sameIndex, rfl, sameTarget⟩
    dsimp only
    rewrite [sameIndex, sameTarget, modify_eq_set first.located]
    rfl

theorem nextConsumer_isSome_iff (aliasId trigger : Nat) :
    (∃ reader ∈ (factsOf program tasks initialLocation finalLocation).inputTasks aliasId,
      trigger < reader) ↔
    ∃ consumer, nextConsumer (factsOf program tasks initialLocation finalLocation) aliasId
      trigger = some consumer := by
  have ascending : ((factsOf program tasks initialLocation finalLocation).inputTasks
      aliasId).Pairwise (· < ·) := inputTasks_ascend
  have least := bisectRight_least ascending trigger
  constructor
  · rintro ⟨reader, mem, later⟩
    have some : ({other | other ∈ (factsOf program tasks initialLocation
        finalLocation).inputTasks aliasId ∧ trigger < other} : Set Nat).Nonempty :=
      ⟨reader, mem, later⟩
    exact ⟨_, (least _).mpr ⟨Nat.sInf_mem some, fun _ => Nat.sInf_le⟩⟩
  · rintro ⟨consumer, isNext⟩
    rcases ((least consumer).mp isNext).1 with ⟨mem, later⟩
    exact ⟨consumer, mem, later⟩

section Valid

variable {choices : List TaskAlternativeChoice}
  (selected : selectTasks program.toShadowSpillProgram choices = .ok tasks)
  (built : buildAliasLists (indexSimulation program.toShadowSpillProgram tasks)
    initialLocation finalLocation = some lists)
  (valid : validateSelected program tasks schedule = .ok ())

include selected built valid

/-- The indexed selection is the first choice of the reference. -/
theorem selection_first {fetch : SelectedFetch}
    (isSelected : schedule.actions.zipIdx.foldl
      (selectFetch (scheduleFacts program.toShadowSpillProgram tasks lists) failure) none =
      some fetch) :
    ∃ action, FirstCandidate program tasks initialLocation finalLocation failure
      schedule.actions fetch.index action fetch.target := by
  have orderable := orderable_of_valid valid
  have holds := foldl_selectFetch (scheduleFacts program.toShadowSpillProgram tasks lists)
    failure schedule.actions
  rw [isSelected] at holds
  rcases holds with ⟨action, _, _, choice⟩
  refine ⟨action, FirstChoice.congr ?_ ?_ choice⟩
  · exact fun other mem => indexedSize_eq (orderable other mem)
  · exact fun other mem => delayTarget_eq selected built (orderable other mem)

theorem selection_none
    (isNone : schedule.actions.zipIdx.foldl
      (selectFetch (scheduleFacts program.toShadowSpillProgram tasks lists) failure) none =
      none) :
    ∀ action ∈ schedule.actions, candidateTarget tasks
      (factsOf program tasks initialLocation finalLocation) failure action = none := by
  have holds := foldl_selectFetch (scheduleFacts program.toShadowSpillProgram tasks lists)
    failure schedule.actions
  rw [isNone] at holds
  intro action mem
  rw [← delayTarget_eq selected built (orderable_of_valid valid action mem)]
  exact holds action mem

/-- Where some fetch may be delayed the indexed schedule moves the first one, if a task
reads it later. -/
theorem delayIndexedFetch_first (ofCapacity : OfCapacity tasks failure) {index moved : Nat}
    {action : MemoryAction}
    (first : FirstCandidate program tasks initialLocation finalLocation failure
      schedule.actions index action moved) :
    delayIndexedFetch (scheduleFacts program.toShadowSpillProgram tasks lists) failure
      schedule.actions =
    match nextConsumer (factsOf program tasks initialLocation finalLocation) action.aliasId
      action.trigger with
    | none => .unmoved
    | some consumer =>
      .moved (sortActions (scheduleFacts program.toShadowSpillProgram tasks lists)
          (schedule.actions.set index { action with trigger := moved }))
        ⟨action.aliasId, consumer, moved, none⟩ := by
  have capacity : ¬ (failure.status ≠ .fetchDeviceCapacity ∧
      failure.status ≠ .taskDeviceCapacity) := by
    rintro ⟨notFetch, notTask⟩
    exact ofCapacity.elim notFetch notTask
  unfold delayIndexedFetch
  rw [if_neg capacity]
  cases isSelected : schedule.actions.zipIdx.foldl
      (selectFetch (scheduleFacts program.toShadowSpillProgram tasks lists) failure) none with
  | none =>
    have missing := selection_none selected built valid isSelected action
      (List.mem_of_getElem? first.located)
    rw [first.delayable] at missing
    cases missing
  | some fetch =>
    rcases selection_first selected built valid isSelected with ⟨other, otherFirst⟩
    rcases otherFirst.unique first with ⟨sameIndex, rfl, sameTarget⟩
    have orderable := orderable_of_valid valid other (List.mem_of_getElem? first.located)
    dsimp only
    unfold moveSelected
    rw [sameIndex, sameTarget, first.located]
    dsimp only
    rewrite [nextConsumer_eq selected built orderable.known orderable.sized orderable.unshared]
    rfl

variable (failure) in
/-- Either both ways leave the schedule, and nothing may be delayed, or some fetch is the
first choice. -/
theorem unmoved_or_first :
    ((OfCapacity tasks failure → ∀ action ∈ schedule.actions, candidateTarget tasks
        (factsOf program tasks initialLocation finalLocation) failure action = none) ∧
      delayIndexedFetch (scheduleFacts program.toShadowSpillProgram tasks lists) failure
        schedule.actions = .unmoved ∧
      delayFetch program tasks (factsOf program tasks initialLocation finalLocation) failure
        schedule = .ok none) ∨
    (OfCapacity tasks failure ∧ ∃ index action moved,
      FirstCandidate program tasks initialLocation finalLocation failure schedule.actions index
        action moved) := by
  by_cases ofCapacity : OfCapacity tasks failure
  · cases isSelected : schedule.actions.zipIdx.foldl
        (selectFetch (scheduleFacts program.toShadowSpillProgram tasks lists) failure) none with
    | none =>
      have nothing := selection_none selected built valid isSelected
      refine Or.inl ⟨fun _ => nothing, ?_, delayFetch_unmoved nothing⟩
      unfold delayIndexedFetch
      rw [isSelected]
      split <;> rfl
    | some fetch =>
      rcases selection_first selected built valid isSelected with ⟨action, first⟩
      exact Or.inr ⟨ofCapacity, _, _, _, first⟩
  · have other : failure.status ≠ .fetchDeviceCapacity ∧
        failure.status ≠ .taskDeviceCapacity := not_or.mp ofCapacity
    refine Or.inl ⟨fun impossible => absurd impossible ofCapacity, ?_, ?_⟩
    · unfold delayIndexedFetch
      rw [if_pos other]
    · unfold delayFetch
      rw [if_pos other]

/-- Where both ways delay, the first choice is movable. -/
theorem firstMovable_of_alike
    (alike : DelaysAlike program tasks lists initialLocation finalLocation failure schedule) :
    FirstMovable program tasks lists initialLocation finalLocation failure schedule := by
  intro ofCapacity index action moved first
  have mem := List.mem_of_getElem? first.located
  have isFetch := candidateTarget_fetch first.delayable
  rcases alike.progress ofCapacity ⟨action, mem, by rw [first.delayable]; rfl⟩ with
    ⟨actions, constraint, isMoved⟩
  have same := alike.alike
  rw [isMoved, delayFetch_first ofCapacity first] at same
  rw [delayIndexedFetch_first selected built valid ofCapacity first] at isMoved
  have kept : ∀ other ∈ schedule.actions, other.kind ≠ .writeBack := by
    rw [← writeBack_set first.located isFetch moved]
    intro other isOther writes
    rw [sortByPriority_writeBack isOther writes] at same
    cases same
  rw [sortByPriority_eq (sameConsumer_set selected built (orderable_of_valid valid)
    first.located) ((writeBack_set first.located isFetch moved).mpr kept)] at same
  refine ⟨?_, kept, ?_⟩
  · rw [nextConsumer_isSome_iff]
    cases isNext : nextConsumer (factsOf program tasks initialLocation finalLocation)
        action.aliasId action.trigger with
    | none =>
      rw [isNext] at isMoved
      cases isMoved
    | some consumer => exact ⟨consumer, rfl⟩
  · dsimp only at same
    split at same
    · cases same
    · assumption

/-- A movable first choice is moved both ways. -/
theorem moved_of_firstMovable
    (movable : FirstMovable program tasks lists initialLocation finalLocation failure schedule)
    (ofCapacity : OfCapacity tasks failure) {index moved : Nat} {action : MemoryAction}
    (first : FirstCandidate program tasks initialLocation finalLocation failure
      schedule.actions index action moved) :
    ∃ constraint,
      delayIndexedFetch (scheduleFacts program.toShadowSpillProgram tasks lists) failure
        schedule.actions =
        .moved (sortActions (scheduleFacts program.toShadowSpillProgram tasks lists)
          (schedule.actions.set index { action with trigger := moved })) constraint ∧
      delayFetch program tasks (factsOf program tasks initialLocation finalLocation) failure
        schedule =
        .ok (some { schedule with
          actions := sortActions (scheduleFacts program.toShadowSpillProgram tasks lists)
            (schedule.actions.set index { action with trigger := moved }) }) := by
  rcases movable ofCapacity index action moved first with ⟨readLater, kept, accepted⟩
  have isFetch := candidateTarget_fetch first.delayable
  rcases (nextConsumer_isSome_iff action.aliasId action.trigger).mp readLater with
    ⟨consumer, isNext⟩
  refine ⟨⟨action.aliasId, consumer, moved, none⟩, ?_, ?_⟩
  · rw [delayIndexedFetch_first selected built valid ofCapacity first, isNext]
  · rw [delayFetch_first ofCapacity first,
      sortByPriority_eq (sameConsumer_set selected built (orderable_of_valid valid)
        first.located) ((writeBack_set first.located isFetch moved).mpr kept)]
    dsimp only
    rw [accepted]

/-- The indexed schedule and the reference delay alike exactly when the first fetch that
may be delayed is movable. -/
theorem delayIndexedFetch_alike_iff :
    DelaysAlike program tasks lists initialLocation finalLocation failure schedule ↔
      FirstMovable program tasks lists initialLocation finalLocation failure schedule := by
  refine ⟨firstMovable_of_alike selected built valid, fun movable => ?_⟩
  rcases unmoved_or_first failure selected built valid with
    ⟨nothing, unmoved, kept⟩ | ⟨ofCapacity, index, action, moved, first⟩
  · constructor
    case alike =>
      rw [unmoved, kept]
      exact SameDelay.unmoved
    case changes =>
      intro actions constraint isMoved
      rw [unmoved] at isMoved
      cases isMoved
    case progress =>
      rintro ofCapacity ⟨action, mem, delayable⟩
      rw [nothing ofCapacity action mem] at delayable
      cases delayable
  · rcases moved_of_firstMovable selected built valid movable ofCapacity first with
      ⟨constraint, isMoved, repaired⟩
    constructor
    case alike =>
      rw [isMoved, repaired]
      exact SameDelay.moved _ _
    case changes =>
      intro actions otherConstraint otherMoved
      rw [isMoved] at otherMoved
      cases otherMoved
      exact ⟨index, action, moved, first, sortActions_perm _⟩
    case progress => exact fun _ _ => ⟨_, constraint, isMoved⟩

end Valid

end Agreement

/-! ## A fetch that no task reads -/

/-- A task that reads some objects and writes none. -/
def reading (taskId : String) (inputs : List String) : TaskFields where
  taskId := taskId
  deviceId := "gpu"
  profileId := "step"
  dependencies := []
  inputs := inputs
  outputs := []
  mutations := []
  phase := "compute"

def threeTasks : List TaskSpec :=
  [⟨reading "first" [], by decide⟩, ⟨reading "second" [], by decide⟩,
    ⟨reading "third" ["small"], by decide⟩]

/-- A small alias that the last task reads, and a large one that none does. -/
def smallAndLarge : RetainingProgram where
  devices := [⟨"gpu"⟩]
  aliasGroups := [⟨"small", "gpu", 1, none⟩, ⟨"large", "gpu", 2, none⟩]
  objects := [⟨"small", "small", 0, 1⟩, ⟨"large", "large", 0, 2⟩]
  profiles := [⟨"step"⟩]
  tasks := threeTasks
  taskAlternativeGroups := []
  checked := by rfl
  retainSpillCopy := fun _ => false

def inSpill : Nat → Option MemoryLocation := fun _ => some .spill

def largeStays : Nat → Option MemoryLocation := fun aliasId =>
  if aliasId = 1 then some .device else none

/-- Both aliases are fetched after the first task, the large one to stay. -/
def fetchesBoth : MemorySchedule where
  initialResidency := [⟨0, .spill⟩, ⟨1, .spill⟩]
  actions := [⟨0, 0, .fetch⟩, ⟨0, 1, .fetch⟩]
  finalResidency := [⟨1, .device⟩]
  initialUnique := by decide
  finalUnique := by decide

def fetchesSmall : MemorySchedule where
  initialResidency := [⟨0, .spill⟩]
  actions := [⟨0, 0, .fetch⟩]
  finalResidency := []
  initialUnique := by decide
  finalUnique := List.nodup_nil

/-- The second task finds no room. -/
def secondFails : SimulationFailure threeTasks.length where
  status := .taskDeviceCapacity
  errorTask := some ⟨1, by decide⟩
  errorAlias := none

/-- The one fetch may move behind the first task, before the task that reads its alias. -/
theorem small_first {facts : AliasFacts} {index moved : Nat} {action : MemoryAction}
    (reads : facts.inputTasks 0 = [2])
    (first : FirstChoice (aliasSize smallAndLarge.toShadowSpillProgram)
      (candidateTarget threeTasks facts secondFails) fetchesSmall.actions index action moved) :
    index = 0 ∧ action = ⟨0, 0, .fetch⟩ ∧ moved = 1 := by
  rcases List.getElem?_eq_some_iff.mp first.located with ⟨bound, isAction⟩
  obtain rfl : index = 0 := Nat.lt_one_iff.mp bound
  obtain rfl : (⟨0, 0, .fetch⟩ : MemoryAction) = action := isAction
  have target : candidateTarget threeTasks facts secondFails ⟨0, 0, .fetch⟩ = some 1 := by
    unfold candidateTarget nextConsumer
    rw [reads]
    decide
  exact ⟨rfl, rfl, Option.some.inj (first.delayable.symm.trans target)⟩

theorem small_alike :
    ∃ lists, buildAliasLists (indexSimulation smallAndLarge.toShadowSpillProgram threeTasks)
        inSpill (fun _ => none) = some lists ∧
      DelaysAlike smallAndLarge threeTasks lists inSpill (fun _ => none) secondFails
        fetchesSmall := by
  have selected : selectTasks smallAndLarge.toShadowSpillProgram [] = .ok threeTasks := rfl
  refine ⟨_, rfl, (delayIndexedFetch_alike_iff selected rfl (by decide)).mpr ?_⟩
  intro _ index action moved first
  rcases small_first (by decide) first with ⟨rfl, rfl, rfl⟩
  refine ⟨⟨2, by decide, by decide⟩, by decide, ?_⟩
  rw [List.perm_singleton.mp (sortActions_perm (fetchesSmall.actions.set 0 ⟨1, 0, .fetch⟩))]
  decide

/-- The large fetch is preferred and kept, so neither fetch is delayed. -/
theorem both_differ :
    selectTasks smallAndLarge.toShadowSpillProgram [] = .ok threeTasks ∧
    validateSelected smallAndLarge threeTasks fetchesBoth = .ok () ∧
    ∃ lists, buildAliasLists (indexSimulation smallAndLarge.toShadowSpillProgram threeTasks)
        inSpill largeStays = some lists ∧
      ¬ DelaysAlike smallAndLarge threeTasks lists inSpill largeStays secondFails
        fetchesBoth := by
  have kept : (buildAliasLists (indexSimulation smallAndLarge.toShadowSpillProgram threeTasks)
      inSpill largeStays).map (fun lists => delayIndexedFetch
        (scheduleFacts smallAndLarge.toShadowSpillProgram threeTasks lists) secondFails
        fetchesBoth.actions) = some .unmoved := by
    decide
  rcases Option.map_eq_some_iff.mp kept with ⟨lists, built, unmoved⟩
  refine ⟨rfl, by decide, lists, built, fun alike => ?_⟩
  rcases alike.progress (Or.inr rfl) ⟨⟨0, 0, .fetch⟩, by decide, by decide⟩ with
    ⟨actions, constraint, isMoved⟩
  rw [unmoved] at isMoved
  cases isMoved

end ShadowSpill.Reference.FetchDelayAgreement
