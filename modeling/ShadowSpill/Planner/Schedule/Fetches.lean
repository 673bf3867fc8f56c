import ShadowSpill.Ir.Schedule
import ShadowSpill.Planner.Residency.InputAnchors
import ShadowSpill.Status

/-!
# Moving one fetch within a schedule

When a simulation stops because a fetch or a task found no room on the device, the largest
fetch that may still fire later is delayed, and the actions are put in order again.
-/

namespace ShadowSpill.Planner.Schedule.Fetches

open Ir.Schedule Residency.Problem Residency.InputAnchors

/-- `ShadowSpillScheduleFacts`, as far as moving a fetch needs them. -/
structure ScheduleFacts where
  taskCount : Nat
  aliasSizeBytes : Nat → Nat
  anchors : Nat → List Anchor

/-- `shadowspill_schedule_next_input_consumer`. -/
def nextInputConsumer (facts : ScheduleFacts) (aliasId trigger : Nat) : Option Nat :=
  nextInput (facts.anchors aliasId) (trigger + 1)

/-! ## Ordering actions -/

/-- An action with its next consumer. -/
structure Action extends MemoryAction where
  nextConsumer : Option Nat

def kindCode : MemoryActionKind → Nat
  | .release => 0
  | .evict => 1
  | .fetch => 2
  | .writeBack => 3

/-- Consumers by their task; an index of `UINT32_MAX` comes after all others. -/
def compareConsumers : Option Nat → Option Nat → Ordering
  | none, none => .eq
  | none, some _ => .gt
  | some _, none => .lt
  | some left, some right => compare left right

/-- `action_compare`. -/
def actionCompare (left right : Action) : Ordering :=
  (compare left.trigger right.trigger).then <|
    (compare (kindCode left.kind) (kindCode right.kind)).then <|
      (compareConsumers left.nextConsumer right.nextConsumer).then
        (compare left.aliasId right.aliasId)

def withConsumer (facts : ScheduleFacts) (action : MemoryAction) : Action where
  toMemoryAction := action
  nextConsumer :=
    if action.kind = .fetch then nextInputConsumer facts action.aliasId action.trigger
    else none

/-- `sort_storage_actions`. -/
def sortActions (facts : ScheduleFacts) (actions : List MemoryAction) : List MemoryAction :=
  ((actions.map (withConsumer facts)).mergeSort fun left right =>
    actionCompare left right ≠ .gt).map (·.toMemoryAction)

/-! ## Delaying a fetch -/

/-- `ShadowSpillSimulationResult`, as far as its failure goes. -/
structure SimulationFailure (taskCount : Nat) where
  status : Status
  errorTask : Option (Fin taskCount)
  errorAlias : Option Nat

/-- `ShadowSpillFetchTriggerConstraint`. -/
structure FetchTriggerConstraint where
  aliasId : Nat
  consumerTask : Nat
  minimumTrigger : Nat
  maximumTrigger : Option Nat
deriving DecidableEq, Repr

/-- What delaying does to the actions. -/
inductive DelayOutcome where
  | unmoved
  | moved (actions : List MemoryAction) (constraint : FetchTriggerConstraint)
deriving DecidableEq, Repr

section Delay

variable {taskCount : Nat} (facts : ScheduleFacts) (failure : SimulationFailure taskCount)

/-- The latest trigger that leaves a fetch before its next reader. -/
def latestTrigger (action : MemoryAction) : Nat :=
  match nextInputConsumer facts action.aliasId action.trigger with
  | none => facts.taskCount - 1
  | some consumer => consumer - 1

/-- The next trigger, or the failing task if that one is later. -/
def laterTrigger (trigger : Nat) : Nat :=
  match failure.errorTask with
  | none => trigger + 1
  | some task =>
    if failure.status = .taskDeviceCapacity ∧ trigger + 1 < task.val then task.val
    else trigger + 1

/-- The trigger that an action may be delayed to, if it may be delayed at all. -/
def delayTarget (action : MemoryAction) : Option Nat :=
  if action.kind ≠ .fetch then none
  else if failure.errorAlias.any fun aliasId => action.aliasId ≠ aliasId then none
  else if failure.status = .fetchDeviceCapacity ∧
      failure.errorTask.any fun task : Fin taskCount => action.trigger ≠ task.val then none
  else if failure.status = .taskDeviceCapacity ∧
      failure.errorTask.any fun task : Fin taskCount => action.trigger ≥ task.val then none
  else if laterTrigger failure action.trigger > latestTrigger facts action then none
  else some (laterTrigger failure action.trigger)

/-- The fetch selected so far. -/
structure SelectedFetch where
  index : Nat
  target : Nat
  size : Nat
  trigger : Nat

/-- One action of the selection: the largest alias, then the latest trigger, then the
first place. -/
def selectFetch (selected : Option SelectedFetch) (entry : MemoryAction × Nat) :
    Option SelectedFetch :=
  match delayTarget facts failure entry.1 with
  | none => selected
  | some target =>
    let size := facts.aliasSizeBytes entry.1.aliasId
    let candidate : SelectedFetch := ⟨entry.2, target, size, entry.1.trigger⟩
    match selected with
    | none => some candidate
    | some best =>
      if size > best.size ∨ (size = best.size ∧ entry.1.trigger > best.trigger) ∨
          (size = best.size ∧ entry.1.trigger = best.trigger ∧ entry.2 < best.index) then
        some candidate
      else selected

/-- Move the selected fetch, unless no task reads its alias any more. -/
def moveSelected (actions : List MemoryAction) (selected : SelectedFetch) : DelayOutcome :=
  match actions[selected.index]? with
  | none => .unmoved
  | some action =>
    match nextInputConsumer facts action.aliasId action.trigger with
    | none => .unmoved
    | some consumer =>
      .moved
        (sortActions facts
          (actions.set selected.index { action with trigger := selected.target }))
        { aliasId := action.aliasId
          consumerTask := consumer
          minimumTrigger := selected.target
          maximumTrigger := none }

/-- `shadowspill_delay_indexed_fetch`. -/
def delayIndexedFetch (actions : List MemoryAction) : DelayOutcome :=
  if failure.status ≠ .fetchDeviceCapacity ∧ failure.status ≠ .taskDeviceCapacity then .unmoved
  else
    match actions.zipIdx.foldl (selectFetch facts failure) none with
    | none => .unmoved
    | some selected => moveSelected facts actions selected

end Delay

/-! ## The order of actions -/

section Sorting

variable {facts : ScheduleFacts}

/-- An action is not after another. -/
def InActionOrder (facts : ScheduleFacts) (left right : MemoryAction) : Prop :=
  actionCompare (withConsumer facts left) (withConsumer facts right) ≠ .gt

/-- A consumer, or none above all. -/
def consumerKey (consumer : Option Nat) : Nat ×ₗ Nat :=
  match consumer with
  | none => toLex (1, 0)
  | some consumer => toLex (0, consumer)

/-- What actions compare by, in the lexicographic order. -/
def actionKey (action : Action) : Nat ×ₗ Nat ×ₗ (Nat ×ₗ Nat) ×ₗ Nat :=
  toLex (action.trigger, toLex (kindCode action.kind,
    toLex (consumerKey action.nextConsumer, action.aliasId)))

theorem compare_ne_gt {κ : Type} [LinearOrder κ] {left right : κ} {next : Ordering} :
    (compare left right).then next ≠ .gt ↔ left < right ∨ left = right ∧ next ≠ .gt := by
  rcases lt_trichotomy left right with before | rfl | after
  · simp [compare_lt_iff_lt.mpr before, before]
  · simp
  · simp [compare_gt_iff_gt.mpr after, after.not_gt, after.ne']

theorem compareConsumers_eq (left right : Option Nat) :
    compareConsumers left right = compare (consumerKey left) (consumerKey right) := by
  cases left with
  | none =>
    cases right with
    | none => simp [compareConsumers]
    | some right =>
      exact (compare_gt_iff_gt.mpr (Prod.Lex.toLex_lt_toLex.mpr (Or.inl Nat.zero_lt_one))).symm
  | some left =>
    cases right with
    | none =>
      exact (compare_lt_iff_lt.mpr (Prod.Lex.toLex_lt_toLex.mpr (Or.inl Nat.zero_lt_one))).symm
    | some right =>
      have sameOrder : ∀ {first second : Nat},
          consumerKey (some first) < consumerKey (some second) ↔ first < second := by
        intro first second
        simp [consumerKey, Prod.Lex.toLex_lt_toLex]
      show compare left right = _
      rcases lt_trichotomy left right with before | rfl | after
      · rw [compare_lt_iff_lt.mpr before, compare_lt_iff_lt.mpr (sameOrder.mpr before)]
      · rw [compare_eq_iff_eq.mpr rfl, compare_eq_iff_eq.mpr rfl]
      · rw [compare_gt_iff_gt.mpr after, compare_gt_iff_gt.mpr (sameOrder.mpr after)]

theorem actionCompare_ne_gt {left right : Action} :
    actionCompare left right ≠ .gt ↔ actionKey left ≤ actionKey right := by
  unfold actionCompare actionKey
  rw [compareConsumers_eq, compare_ne_gt, compare_ne_gt, compare_ne_gt, compare_le_iff_le,
    Prod.Lex.toLex_le_toLex, Prod.Lex.toLex_le_toLex, Prod.Lex.toLex_le_toLex]

theorem kindCode_injective : Function.Injective kindCode := by
  intro left right same
  cases left <;> cases right <;> first | rfl | cases same

/-- Two actions with one key are one action. -/
theorem InActionOrder.antisymm {left right : MemoryAction} (before : InActionOrder facts left right)
    (after : InActionOrder facts right left) : left = right := by
  have same := le_antisymm (actionCompare_ne_gt.mp before) (actionCompare_ne_gt.mp after)
  unfold actionKey at same
  simp only [EmbeddingLike.apply_eq_iff_eq, Prod.mk.injEq, withConsumer] at same
  rcases left with ⟨trigger, aliasId, kind⟩
  rcases right with ⟨trigger', aliasId', kind'⟩
  obtain rfl : trigger = trigger' := same.1
  obtain rfl : kind = kind' := kindCode_injective same.2.1
  obtain rfl : aliasId = aliasId' := same.2.2.2
  rfl

theorem sortActions_perm (actions : List MemoryAction) :
    (sortActions facts actions).Perm actions := by
  unfold sortActions
  have sorted := (List.mergeSort_perm (actions.map (withConsumer facts))
    fun left right => actionCompare left right ≠ .gt).map (·.toMemoryAction)
  rw [List.map_map] at sorted
  simpa [Function.comp_def, withConsumer] using sorted

theorem sortActions_ordered (actions : List MemoryAction) :
    (sortActions facts actions).Pairwise (InActionOrder facts) := by
  have sorted : ((actions.map (withConsumer facts)).mergeSort fun left right =>
      actionCompare left right ≠ .gt).Pairwise fun left right =>
        decide (actionCompare left right ≠ .gt) = true := by
    apply List.pairwise_mergeSort
    · intro first second third before after
      rw [decide_eq_true_eq, actionCompare_ne_gt] at before after ⊢
      exact before.trans after
    · intro first second
      rw [Bool.or_eq_true, decide_eq_true_eq, decide_eq_true_eq, actionCompare_ne_gt,
        actionCompare_ne_gt]
      exact le_total _ _
  have consumers : ∀ action ∈ (actions.map (withConsumer facts)).mergeSort fun left right =>
      actionCompare left right ≠ .gt, withConsumer facts action.toMemoryAction = action := by
    intro action mem
    rw [List.mem_mergeSort, List.mem_map] at mem
    rcases mem with ⟨source, _, rfl⟩
    rfl
  unfold sortActions
  rw [List.pairwise_map]
  refine sorted.imp_of_mem fun {left right} leftMem rightMem le => ?_
  unfold InActionOrder
  rw [consumers left leftMem, consumers right rightMem]
  exact of_decide_eq_true le

/-- However equal actions are ordered, sorting gives one list. -/
theorem sortActions_unique {actions sorted : List MemoryAction} (perm : sorted.Perm actions)
    (ordered : sorted.Pairwise (InActionOrder facts)) : sorted = sortActions facts actions :=
  List.Perm.eq_of_pairwise (fun _ _ _ _ before after => before.antisymm after) ordered
    (sortActions_ordered actions) (perm.trans (sortActions_perm actions).symm)

end Sorting

/-! ## The choice of a fetch -/

/-- The action at `index` may move to `moved`, and no other action that may move is of a
larger alias, or of as large a one and fires later, or is as good and comes first. -/
structure FirstChoice (size : Nat → Nat) (target : MemoryAction → Option Nat)
    (actions : List MemoryAction) (index : Nat) (action : MemoryAction) (moved : Nat) :
    Prop where
  located : actions[index]? = some action
  delayable : target action = some moved
  first : ∀ other otherAction, actions[other]? = some otherAction →
    (target otherAction).isSome →
    size otherAction.aliasId < size action.aliasId ∨
      (size otherAction.aliasId = size action.aliasId ∧
        (otherAction.trigger < action.trigger ∨
          (otherAction.trigger = action.trigger ∧ index ≤ other)))

theorem FirstChoice.unique {size : Nat → Nat} {target : MemoryAction → Option Nat}
    {actions : List MemoryAction} {index other moved otherMoved : Nat}
    {action otherAction : MemoryAction}
    (choice : FirstChoice size target actions index action moved)
    (otherChoice : FirstChoice size target actions other otherAction otherMoved) :
    index = other ∧ action = otherAction ∧ moved = otherMoved := by
  have forth := choice.first other otherAction otherChoice.located
    (by rw [otherChoice.delayable]; rfl)
  have back := otherChoice.first index action choice.located (by rw [choice.delayable]; rfl)
  have same : index = other := by omega
  subst same
  have sameAction : action = otherAction :=
    Option.some.inj (choice.located.symm.trans otherChoice.located)
  subst sameAction
  exact ⟨rfl, rfl, Option.some.inj (choice.delayable.symm.trans otherChoice.delayable)⟩

section Choice

variable {taskCount : Nat} {facts : ScheduleFacts} {failure : SimulationFailure taskCount}

/-- What the selection holds of some actions. -/
def Holds (facts : ScheduleFacts) (failure : SimulationFailure taskCount)
    (actions : List MemoryAction) : Option SelectedFetch → Prop
  | none => ∀ action ∈ actions, delayTarget facts failure action = none
  | some selected => ∃ action, selected.size = facts.aliasSizeBytes action.aliasId ∧
      selected.trigger = action.trigger ∧
      FirstChoice facts.aliasSizeBytes (delayTarget facts failure) actions selected.index action
        selected.target

theorem getElem?_concat {α : Type} {values : List α} {value found : α} {index : Nat} :
    (values ++ [value])[index]? = some found ↔
      values[index]? = some found ∨ index = values.length ∧ value = found := by
  rcases Nat.lt_trichotomy index values.length with before | rfl | after
  · rw [List.getElem?_append_left before]
    simp [before.ne]
  · simp
  · rw [List.getElem?_eq_none (by simp; omega), List.getElem?_eq_none (by omega)]
    simp [after.ne']

/-- One more action is taken if it is better than the best so far. -/
theorem selectFetch_holds {actions : List MemoryAction} {selected : Option SelectedFetch}
    (holds : Holds facts failure actions selected) (action : MemoryAction) :
    Holds facts failure (actions ++ [action])
      (selectFetch facts failure selected (action, actions.length)) := by
  unfold selectFetch
  cases target : delayTarget facts failure action with
  | none =>
    cases selected with
    | none =>
      intro other mem
      rw [List.mem_append, List.mem_singleton] at mem
      rcases mem with before | rfl
      · exact holds other before
      · exact target
    | some best =>
      rcases holds with ⟨chosen, size, trigger, choice⟩
      refine ⟨chosen, size, trigger, getElem?_concat.mpr (Or.inl choice.located),
        choice.delayable, ?_⟩
      intro other otherAction located delayable
      rcases getElem?_concat.mp located with before | ⟨_, rfl⟩
      · exact choice.first other otherAction before delayable
      · rw [target] at delayable
        cases delayable
  | some moved =>
    have here : (actions ++ [action])[actions.length]? = some action :=
      getElem?_concat.mpr (Or.inr ⟨rfl, rfl⟩)
    cases selected with
    | none =>
      refine ⟨action, rfl, rfl, here, target, ?_⟩
      intro other otherAction located delayable
      rcases getElem?_concat.mp located with before | ⟨rfl, rfl⟩
      · rw [holds otherAction (List.mem_of_getElem? before)] at delayable
        cases delayable
      · exact Or.inr ⟨rfl, Or.inr ⟨rfl, le_rfl⟩⟩
    | some best =>
      rcases holds with ⟨chosen, size, trigger, choice⟩
      have earlier := (List.getElem?_eq_some_iff.mp choice.located).1
      dsimp only
      rw [size, trigger]
      split
      case isTrue better =>
        refine ⟨action, rfl, rfl, here, target, ?_⟩
        intro other otherAction located delayable
        rcases getElem?_concat.mp located with before | ⟨rfl, rfl⟩
        · have notBetter := choice.first other otherAction before delayable
          dsimp only
          omega
        · exact Or.inr ⟨rfl, Or.inr ⟨rfl, le_rfl⟩⟩
      case isFalse worse =>
        refine ⟨chosen, size, trigger, getElem?_concat.mpr (Or.inl choice.located),
          choice.delayable, ?_⟩
        intro other otherAction located delayable
        rcases getElem?_concat.mp located with before | ⟨rfl, rfl⟩
        · exact choice.first other otherAction before delayable
        · omega

/-- The loop selects the first choice. -/
theorem foldl_selectFetch (facts : ScheduleFacts) (failure : SimulationFailure taskCount)
    (actions : List MemoryAction) :
    Holds facts failure actions (actions.zipIdx.foldl (selectFetch facts failure) none) := by
  induction actions using List.reverseRecOn with
  | nil => exact fun _ mem => absurd mem List.not_mem_nil
  | append_singleton actions action inductionHypothesis =>
    rw [List.zipIdx_append, List.foldl_append]
    simpa using selectFetch_holds inductionHypothesis action

end Choice

end ShadowSpill.Planner.Schedule.Fetches
