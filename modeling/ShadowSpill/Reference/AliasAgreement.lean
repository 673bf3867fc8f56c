import ShadowSpill.Ir.ObjectFacts
import ShadowSpill.Planner.Residency.AliasSummaries
import ShadowSpill.Reference.BoundaryFacts

/-!
# The lists and the readable facts

The lists of an alias hold what the reference's sets do, one boundary lower, where no task
mutates two objects of the alias and its residency is not shared.  Elsewhere they differ:
a second mutation goes back a boundary, and the walk leaves shared aliases out.
-/

namespace ShadowSpill.Reference.AliasAgreement

open Ir.Program Ir.Selection Ir.ObjectFacts Ir.Indexing Library.Lockstep Library.PackedRows
open Planner.Residency.Problem Planner.Residency.AliasLists
open Planner.Residency.AliasTouches Planner.Residency.AliasSummaries BoundaryFacts ResidencyFacts

/-! ## Agreement -/

/-- The lists of an alias say what the facts do. -/
structure Agrees (facts : AliasFacts) (lists : SparseLists) (aliasId : Nat) : Prop where
  ascending : ((lists.anchors.row aliasId).map Anchor.position).Pairwise (· < ·)
  anchors : ∀ boundary, boundary ∈ facts.anchors aliasId ↔
    ∃ anchor ∈ lists.anchors.row aliasId, shifted anchor.position = boundary
  latest : ∀ anchor ∈ lists.anchors.row aliasId, ∀ task, anchor.latest = some task ↔
    IsGreatest {task | (shifted anchor.position, task) ∈ facts.accessEvents aliasId} task
  earliest : ∀ anchor ∈ lists.anchors.row aliasId, ∀ task, anchor.earliest = some task ↔
    IsLeast {task | (shifted anchor.position, task) ∈ facts.accessEvents aliasId} task
  inputs : ∀ anchor ∈ lists.anchors.row aliasId,
    anchor.input = true ↔ anchor.position ∈ facts.inputTasks aliasId
  productions : ∀ anchor ∈ lists.anchors.row aliasId,
    anchor.produced = true ↔ shifted anchor.position ∈ facts.productionBoundaries aliasId
  reservedAscending : (lists.reserved.row aliasId).Pairwise (· < ·)
  reserved : ∀ index, index ∈ lists.reserved.row aliasId ↔
    ∃ fresh, facts.outputReservations[index]? = some fresh ∧ aliasId ∈ fresh
  writesAscending : (lists.writes.row aliasId).Pairwise (· < ·)
  writes : ∀ boundary, boundary ∈ facts.writeBoundaries aliasId ↔
    ∃ written ∈ lists.writes.row aliasId, shifted written = boundary

/-- The facts of an alias come from these touches, writes and reservations. -/
structure Matches (facts : AliasFacts) (touches : List Anchor) (writes reservations : List Nat)
    (aliasId : Nat) : Prop where
  anchors : ∀ boundary, boundary ∈ facts.anchors aliasId ↔
    ∃ touch ∈ touches, shifted touch.position = boundary
  accesses : ∀ boundary task, (boundary, task) ∈ facts.accessEvents aliasId ↔
    ∃ touch ∈ touches, shifted touch.position = boundary ∧ touch.latest = some task
  same : ∀ touch ∈ touches, touch.earliest = touch.latest
  inputs : ∀ index, index ∈ facts.inputTasks aliasId ↔
    ∃ touch ∈ touches, touch.position = index ∧ touch.input = true
  productions : ∀ boundary, boundary ∈ facts.productionBoundaries aliasId ↔
    ∃ touch ∈ touches, shifted touch.position = boundary ∧ touch.produced = true
  reservations : ∀ index, index ∈ reservations ↔
    ∃ fresh, facts.outputReservations[index]? = some fresh ∧ aliasId ∈ fresh
  writes : ∀ boundary, boundary ∈ facts.writeBoundaries aliasId ↔
    ∃ written ∈ writes, shifted written = boundary

/-! ## The facts from the touches -/

section Touches

variable {program : ShadowSpillProgram} {aliasId : Nat}

@[simp] theorem mem_addTo {α : Type} [DecidableEq α] {aliases : Finset Nat} {value other : α}
    {sets : Nat → Finset α} :
    other ∈ addTo aliases value sets aliasId ↔
      aliasId ∈ aliases ∧ other = value ∨ other ∈ sets aliasId := by
  unfold addTo
  split
  case isTrue mem => simp [mem]
  case isFalse absent => simp [absent]

theorem mem_sizedAliases {objects : List String} :
    aliasId ∈ sizedAliases program objects ↔
      aliasId ∈ objects.map (objectAlias program) ∧ aliasSize program aliasId ≠ 0 := by
  simp [sizedAliases]

/-- A touch of a task with some property. -/
theorem exists_taskTouches (aliasId : Nat) (holds : Anchor → Prop) (row : TaskRow) (task : Nat) :
    (∃ anchor ∈ taskTouches aliasId (row, task), holds anchor) ↔
      aliasId ∈ row.inputs ∧ holds (touch task (some task) true false) ∨
      aliasId ∈ row.mutations ∧ (holds (touch task (some task) false false) ∨
        holds (touch (task + 1) none false false)) ∨
      aliasId ∈ row.outputs ∧ holds (touch (task + 1) (some task) false true) := by
  have counted : ∀ aliases : List Nat, aliases.count aliasId ≠ 0 ↔ aliasId ∈ aliases := by
    intro aliases
    rw [← List.count_pos_iff, Nat.pos_iff_ne_zero]
  unfold taskTouches
  simp only [List.mem_append, List.mem_replicate, List.mem_flatten, counted]
  constructor
  · rintro ⟨anchor, (⟨mem, rfl⟩ | ⟨pair, ⟨mem, rfl⟩, inPair⟩) | ⟨mem, rfl⟩, held⟩
    · exact Or.inl ⟨mem, held⟩
    · simp only [List.mem_cons, List.not_mem_nil, or_false] at inPair
      rcases inPair with rfl | rfl
      · exact Or.inr (Or.inl ⟨mem, Or.inl held⟩)
      · exact Or.inr (Or.inl ⟨mem, Or.inr held⟩)
    · exact Or.inr (Or.inr ⟨mem, held⟩)
  · rintro (⟨mem, held⟩ | ⟨mem, held | held⟩ | ⟨mem, held⟩)
    · exact ⟨_, Or.inl (Or.inl ⟨mem, rfl⟩), held⟩
    · exact ⟨_, Or.inl (Or.inr ⟨_, ⟨mem, rfl⟩, by simp⟩), held⟩
    · exact ⟨_, Or.inl (Or.inr ⟨_, ⟨mem, rfl⟩, List.mem_cons_of_mem _ (by simp)⟩), held⟩
    · exact ⟨_, Or.inr ⟨mem, rfl⟩, held⟩

theorem exists_append {α : Type} {first second : List α} {holds : α → Prop} :
    (∃ value ∈ first ++ second, holds value) ↔
      (∃ value ∈ first, holds value) ∨ ∃ value ∈ second, holds value := by
  simp only [List.mem_append, or_and_right, exists_or]

theorem shifted_inj {first second : Nat} : shifted first = shifted second ↔ first = second := by
  simp [shifted]

theorem shifted_succ (task : Nat) : shifted (task + 1) = task := by
  simp [shifted]

/-- One task adds its touches, its writes and its reservations. -/
theorem Matches.addTask (sized : aliasSize program aliasId ≠ 0) {facts : AliasFacts}
    {touches : List Anchor} {writes reservations : List Nat}
    (matched : Matches facts touches writes reservations aliasId) (task : TaskSpec) :
    Matches (addTask program facts (task, facts.outputReservations.length))
      (touches ++ taskTouches aliasId (taskRow program task, facts.outputReservations.length))
      (writes ++ taskWrites aliasId (taskRow program task, facts.outputReservations.length))
      (reservations ++
        taskReservations aliasId (taskRow program task, facts.outputReservations.length))
      aliasId := by
  generalize isIndex : facts.outputReservations.length = index
  have inputs : aliasId ∈ sizedAliases program task.inputs ↔
      aliasId ∈ (taskRow program task).inputs := by
    simp [mem_sizedAliases, taskRow, sized]
  have outputs : aliasId ∈ sizedAliases program task.outputs ↔
      aliasId ∈ (taskRow program task).outputs := by
    simp [mem_sizedAliases, taskRow, sized]
  have mutations : aliasId ∈ sizedAliases program (task.mutations.map (·.objectId)) ↔
      aliasId ∈ (taskRow program task).mutations := by
    simp [mem_sizedAliases, taskRow, sized]
  constructor
  case anchors =>
    intro boundary
    rw [exists_append, exists_taskTouches, ← matched.anchors]
    simp only [BoundaryFacts.addTask, mem_addTo, Finset.mem_union, inputs, outputs, mutations,
      touch, shifted_succ, shifted]
    grind
  case accesses =>
    intro boundary accessing
    rw [exists_append, exists_taskTouches, ← matched.accesses]
    simp only [BoundaryFacts.addTask, mem_addTo, Finset.mem_union, inputs, outputs, mutations,
      touch, shifted_succ, shifted, Prod.mk.injEq, Option.some.injEq]
    grind
  case same =>
    intro anchor mem
    rw [List.mem_append] at mem
    rcases mem with before | here
    · exact matched.same anchor before
    · have copies := (exists_taskTouches aliasId (· = anchor) _ _).mp ⟨anchor, here, rfl⟩
      rcases copies with ⟨_, rfl⟩ | ⟨_, rfl | rfl⟩ | ⟨_, rfl⟩ <;> rfl
  case inputs =>
    intro reading
    rw [exists_append, exists_taskTouches, ← matched.inputs]
    simp only [BoundaryFacts.addTask, inputs, touch]
    split
    case isTrue reads => simp [reads, eq_comm]
    case isFalse skips => simp [skips]
  case productions =>
    intro boundary
    rw [exists_append, exists_taskTouches, ← matched.productions]
    simp only [BoundaryFacts.addTask, mem_addTo, outputs, touch, shifted_succ]
    grind
  case reservations =>
    intro reserved
    have fresh : reserved ∈ taskReservations aliasId (taskRow program task, index) ↔
        reserved = index ∧ aliasId ∈ (taskRow program task).outputs ∧
          aliasId ∉ (taskRow program task).inputs ∧
          aliasId ∉ (taskRow program task).mutations := by
      unfold taskReservations
      split
      case isTrue isFresh =>
        rw [List.mem_replicate, ← Nat.pos_iff_ne_zero, List.count_pos_iff]
        exact ⟨fun mem => ⟨mem.2, mem.1, isFresh⟩, fun mem => ⟨mem.2.1, mem.1⟩⟩
      case isFalse stale =>
        exact iff_of_false List.not_mem_nil fun mem => stale mem.2.2
    have here : aliasId ∈ ((sizedAliases program task.outputs).filter fun aliasId =>
        aliasId ∉ sizedAliases program task.inputs ∧
          aliasId ∉ sizedAliases program (task.mutations.map (·.objectId))).sort ↔
        aliasId ∈ (taskRow program task).outputs ∧ aliasId ∉ (taskRow program task).inputs ∧
          aliasId ∉ (taskRow program task).mutations := by
      rw [Finset.mem_sort, Finset.mem_filter, inputs, outputs, mutations]
    rw [List.mem_append, matched.reservations, fresh, ← here]
    simp only [BoundaryFacts.addTask]
    rcases Nat.lt_trichotomy reserved index with before | rfl | after
    · rw [List.getElem?_append_left (by omega)]
      simp [before.ne]
    · rw [List.getElem?_eq_none (by omega), List.getElem?_append_right (by omega), isIndex]
      simp
    · rw [List.getElem?_eq_none (by omega), List.getElem?_eq_none (by simp; omega)]
      simp [after.ne']
  case writes =>
    intro boundary
    have written : (∃ written ∈ taskWrites aliasId (taskRow program task, index),
        shifted written = boundary) ↔
        (aliasId ∈ (taskRow program task).mutations ∨
          aliasId ∈ (taskRow program task).outputs) ∧ boundary = index := by
      simp only [taskWrites, List.mem_replicate, ← Nat.pos_iff_ne_zero, Nat.add_pos_iff_pos_or_pos,
        List.count_pos_iff]
      constructor
      · rintro ⟨_, ⟨mem, rfl⟩, rfl⟩
        exact ⟨mem, shifted_succ index⟩
      · rintro ⟨mem, rfl⟩
        exact ⟨_, ⟨mem, rfl⟩, shifted_succ index⟩
    rw [exists_append, ← matched.writes, written]
    simp only [BoundaryFacts.addTask, mem_addTo, outputs, mutations]
    grind

theorem exists_heldTouches {holds : Anchor → Prop} (location : Nat → Option MemoryLocation)
    (boundary : Nat) :
    (∃ anchor ∈ heldTouches location boundary aliasId, holds anchor) ↔
      location aliasId = some .device ∧ holds (touch boundary none false false) := by
  unfold heldTouches
  split
  case isTrue held => simp [held]
  case isFalse absent => simp [absent]

/-- What is held adds its touch. -/
theorem Matches.addHeld (sized : aliasSize program aliasId ≠ 0) {facts : AliasFacts}
    {touches : List Anchor} {writes reservations : List Nat}
    (matched : Matches facts touches writes reservations aliasId)
    (location : Nat → Option MemoryLocation) (boundary : Nat) :
    Matches (addHeld program location (shifted boundary) facts)
      (touches ++ heldTouches location boundary aliasId) writes reservations aliasId := by
  constructor
  case anchors =>
    intro other
    rw [exists_append, exists_heldTouches, ← matched.anchors]
    simp only [BoundaryFacts.addHeld, sized, ne_eq, not_false_eq_true, and_true, touch]
    split
    case isTrue held => simp [held, or_comm, eq_comm]
    case isFalse absent => simp [absent]
  case accesses =>
    intro other task
    rw [exists_append, exists_heldTouches, ← matched.accesses]
    simp [BoundaryFacts.addHeld, touch]
  case same =>
    intro anchor mem
    rw [List.mem_append] at mem
    rcases mem with before | here
    · exact matched.same anchor before
    · rcases exists_heldTouches location boundary |>.mp ⟨anchor, here, rfl⟩ with ⟨_, same⟩
      rw [same]
      rfl
  case inputs =>
    intro index
    rw [exists_append, exists_heldTouches, ← matched.inputs]
    simp [BoundaryFacts.addHeld, touch]
  case productions =>
    intro other
    rw [exists_append, exists_heldTouches, ← matched.productions]
    simp [BoundaryFacts.addHeld, touch]
  case reservations => exact matched.reservations
  case writes => exact matched.writes

theorem noFacts_matches : Matches noFacts [] [] [] aliasId := by
  constructor <;> simp [noFacts]

theorem addTask_reservations (facts : AliasFacts) (entry : TaskSpec × Nat) :
    (BoundaryFacts.addTask program facts entry).outputReservations.length =
      facts.outputReservations.length + 1 := by
  simp [BoundaryFacts.addTask]

/-- The walk adds what each of its tasks does. -/
theorem Matches.addTasks (sized : aliasSize program aliasId ≠ 0) {facts : AliasFacts}
    {touches : List Anchor} {writes reservations : List Nat}
    (matched : Matches facts touches writes reservations aliasId) (tasks : List TaskSpec) :
    Matches ((tasks.zipIdx facts.outputReservations.length).foldl
        (BoundaryFacts.addTask program) facts)
      (touches ++ ((tasks.map (taskRow program)).zipIdx
        facts.outputReservations.length).flatMap (taskTouches aliasId))
      (writes ++ ((tasks.map (taskRow program)).zipIdx
        facts.outputReservations.length).flatMap (taskWrites aliasId))
      (reservations ++ ((tasks.map (taskRow program)).zipIdx
        facts.outputReservations.length).flatMap (taskReservations aliasId)) aliasId := by
  induction tasks generalizing facts touches writes reservations with
  | nil => simpa using matched
  | cons task rest inductionHypothesis =>
    have later := inductionHypothesis (matched.addTask sized task)
    rw [addTask_reservations] at later
    simpa only [List.zipIdx_cons, List.foldl_cons, List.map_cons, List.flatMap_cons,
      List.append_assoc] using later

/-- The facts of an alias of some size come from its touches. -/
theorem buildFacts_matches (sized : aliasSize program aliasId ≠ 0) (tasks : List TaskSpec)
    (initialLocation finalLocation : Nat → Option MemoryLocation) :
    Matches (buildFacts program tasks initialLocation finalLocation)
      (touchesOf (tasks.map (taskRow program)) initialLocation finalLocation aliasId)
      (writesOf (tasks.map (taskRow program)) aliasId)
      (reservationsOf (tasks.map (taskRow program)) aliasId) aliasId := by
  have start := noFacts_matches.addHeld sized initialLocation 0
  have walked := start.addTasks sized tasks
  have stopped := walked.addHeld sized finalLocation tasks.length
  simpa [buildFacts, touchesOf, writesOf, reservationsOf, BoundaryFacts.addHeld, noFacts,
    shifted] using stopped

/-! ## Aliases of no size -/

/-- The facts leave an alias of no size alone. -/
theorem buildFacts_unsized (unsized : aliasSize program aliasId = 0) (tasks : List TaskSpec)
    (initialLocation finalLocation : Nat → Option MemoryLocation) :
    Matches (buildFacts program tasks initialLocation finalLocation) [] [] [] aliasId := by
  have skipped : ∀ objects, aliasId ∉ sizedAliases program objects := by
    intro objects mem
    exact (mem_sizedAliases.mp mem).2 unsized
  have held : ∀ {facts : AliasFacts} location boundary, Matches facts [] [] [] aliasId →
      Matches (addHeld program location boundary facts) [] [] [] aliasId := by
    intro facts location boundary matched
    rcases matched with ⟨anchors, accesses, same, inputs, productions, reservations, writes⟩
    refine ⟨?_, accesses, same, inputs, productions, reservations, writes⟩
    simpa [addHeld, unsized] using anchors
  have walked : ∀ (entries : List (TaskSpec × Nat)) {facts : AliasFacts},
      Matches facts [] [] [] aliasId →
      Matches (entries.foldl (addTask program) facts) [] [] [] aliasId := by
    intro entries
    induction entries with
    | nil => exact fun matched => matched
    | cons entry rest inductionHypothesis =>
      intro facts matched
      apply inductionHypothesis
      rcases matched with ⟨anchors, accesses, same, inputs, productions, reservations, writes⟩
      constructor
      case anchors => simpa [addTask, skipped] using anchors
      case accesses => simpa [addTask, skipped] using accesses
      case same => exact same
      case inputs => simpa [addTask, skipped] using inputs
      case productions => simpa [addTask, skipped] using productions
      case writes => simpa [addTask, skipped] using writes
      case reservations =>
        intro index
        refine (reservations index).trans ?_
        simp only [addTask]
        rcases Nat.lt_trichotomy index facts.outputReservations.length with before | rfl | after
        · rw [List.getElem?_append_left before]
        · rw [List.getElem?_eq_none le_rfl, List.getElem?_append_right le_rfl]
          simp [skipped]
        · rw [List.getElem?_eq_none after.le, List.getElem?_eq_none (by simp; omega)]
  exact held _ _ (walked _ (held _ _ noFacts_matches))

end Touches

/-! ## When they agree -/

section Agreement

variable {facts : AliasFacts} {touches : List Anchor} {writes reservations : List Nat}
  {lists : SparseLists} {aliasId : Nat}

/-- Summaries give the greatest and the least accessing task. -/
theorem latest_isGreatest (matched : Matches facts touches writes reservations aliasId)
    {anchor : Anchor} (summary : Summarises touches anchor) (task : Nat) :
    anchor.latest = some task ↔
      IsGreatest {task | (shifted anchor.position, task) ∈ facts.accessEvents aliasId} task := by
  have greatest : ∀ task, anchor.latest = some task →
      IsGreatest {task | (shifted anchor.position, task) ∈ facts.accessEvents aliasId} task := by
    intro task isLatest
    constructor
    · rcases summary.latestMem task isLatest with ⟨touch, mem, position, isTask⟩
      exact (matched.accesses _ _).mpr ⟨touch, mem, shifted_inj.mpr position, isTask⟩
    · intro other accesses
      rcases (matched.accesses _ _).mp accesses with ⟨touch, mem, position, isTask⟩
      rcases summary.latestBound touch mem (shifted_inj.mp position) other isTask with
        ⟨latest, same, below⟩
      rw [isLatest] at same
      rwa [← Option.some.inj same] at below
  refine ⟨greatest task, fun isGreatest => ?_⟩
  rcases (matched.accesses _ _).mp isGreatest.1 with ⟨touch, mem, position, isTask⟩
  rcases summary.latestBound touch mem (shifted_inj.mp position) task isTask with
    ⟨latest, isLatest, _⟩
  rw [(greatest latest isLatest).unique isGreatest] at isLatest
  exact isLatest

theorem earliest_isLeast (matched : Matches facts touches writes reservations aliasId)
    {anchor : Anchor} (summary : Summarises touches anchor) (task : Nat) :
    anchor.earliest = some task ↔
      IsLeast {task | (shifted anchor.position, task) ∈ facts.accessEvents aliasId} task := by
  have least : ∀ task, anchor.earliest = some task →
      IsLeast {task | (shifted anchor.position, task) ∈ facts.accessEvents aliasId} task := by
    intro task isEarliest
    constructor
    · rcases summary.earliestMem task isEarliest with ⟨touch, mem, position, isTask⟩
      rw [matched.same touch mem] at isTask
      exact (matched.accesses _ _).mpr ⟨touch, mem, shifted_inj.mpr position, isTask⟩
    · intro other accesses
      rcases (matched.accesses _ _).mp accesses with ⟨touch, mem, position, isTask⟩
      rw [← matched.same touch mem] at isTask
      rcases summary.earliestBound touch mem (shifted_inj.mp position) other isTask with
        ⟨earliest, same, above⟩
      rw [isEarliest] at same
      rwa [← Option.some.inj same] at above
  refine ⟨least task, fun isLeast => ?_⟩
  rcases (matched.accesses _ _).mp isLeast.1 with ⟨touch, mem, position, isTask⟩
  rw [← matched.same touch mem] at isTask
  rcases summary.earliestBound touch mem (shifted_inj.mp position) task isTask with
    ⟨earliest, isEarliest, _⟩
  rw [(least earliest isEarliest).unique isLeast] at isEarliest
  exact isEarliest

/-- Touches in order make lists that agree. -/
theorem Matches.agrees (matched : Matches facts touches writes reservations aliasId)
    (touchesOrdered : (touches.map Anchor.position).Pairwise (· ≤ ·))
    (writesOrdered : writes.Pairwise (· ≤ ·))
    (reservationsOrdered : reservations.Pairwise (· ≤ ·))
    (anchors : lists.anchors.row aliasId = mergedList mergeAnchor touches)
    (written : lists.writes.row aliasId = mergedList mergeBoundary writes)
    (reserved : lists.reserved.row aliasId = mergedList mergeBoundary reservations) :
    Agrees facts lists aliasId := by
  have summaries := mergedAnchors_summarise touchesOrdered
  have touched : ∀ position, (∃ anchor ∈ mergedList mergeAnchor touches,
      anchor.position = position) ↔ ∃ touch ∈ touches, touch.position = position := by
    intro position
    simpa only [List.mem_map] using mergeAnchor_byPosition.mem_keys touches position
  constructor
  case ascending =>
    rw [anchors]
    exact (mergeAnchor_byPosition.pairwise_lt_iff touches).mpr touchesOrdered
  case anchors =>
    intro boundary
    rw [anchors, matched.anchors]
    constructor
    · rintro ⟨touch, mem, position⟩
      rcases (touched touch.position).mpr ⟨touch, mem, rfl⟩ with ⟨anchor, isAnchor, same⟩
      exact ⟨anchor, isAnchor, (shifted_inj.mpr same).trans position⟩
    · rintro ⟨anchor, mem, position⟩
      rcases (touched anchor.position).mp ⟨anchor, mem, rfl⟩ with ⟨touch, isTouch, same⟩
      exact ⟨touch, isTouch, (shifted_inj.mpr same).trans position⟩
  case latest =>
    rw [anchors]
    exact fun anchor mem task => latest_isGreatest matched (summaries anchor mem) task
  case earliest =>
    rw [anchors]
    exact fun anchor mem task => earliest_isLeast matched (summaries anchor mem) task
  case inputs =>
    rw [anchors]
    exact fun anchor mem => (summaries anchor mem).input.trans (matched.inputs _).symm
  case productions =>
    rw [anchors]
    intro anchor mem
    rw [(summaries anchor mem).produced, matched.productions]
    simp only [shifted_inj]
  case reservedAscending =>
    rw [reserved]
    exact (mergedBoundaries_ascend reservations).mpr reservationsOrdered
  case reserved =>
    intro index
    rw [reserved, mem_mergedBoundaries, matched.reservations]
  case writesAscending =>
    rw [written]
    exact (mergedBoundaries_ascend writes).mpr writesOrdered
  case writes =>
    intro boundary
    rw [written, matched.writes]
    simp only [mem_mergedBoundaries]

end Agreement

section Programs

variable (program : ShadowSpillProgram) (tasks : List TaskSpec)
  (initialLocation finalLocation : Nat → Option MemoryLocation) (aliasId : Nat)

/-- Nothing touches the alias. -/
def Untouched : Prop :=
  initialLocation aliasId ≠ some .device ∧ finalLocation aliasId ≠ some .device ∧
    ∀ task ∈ tasks, aliasId ∉ (taskRow program task).inputs ∧
      aliasId ∉ (taskRow program task).mutations ∧ aliasId ∉ (taskRow program task).outputs

/-- No task mutates two objects of the alias. -/
def MutatedOnce : Prop :=
  ∀ task ∈ tasks, (taskRow program task).mutations.count aliasId ≤ 1

/-- The alias has no size, or is shared and not touched, or is the schedule's to move and
mutated through one object by each task. -/
def Listed : Prop :=
  aliasSize program aliasId = 0 ∨
    (isShared program aliasId = true ∧
      Untouched program tasks initialLocation finalLocation aliasId) ∨
    (isShared program aliasId = false ∧ MutatedOnce program tasks aliasId)

variable {program tasks initialLocation finalLocation aliasId}

theorem indexedSizeBytes_eq_zero :
    (indexSimulation program tasks).aliasSizeBytes aliasId = 0 ↔
      aliasSize program aliasId = 0 ∨ isShared program aliasId = true := by
  show indexedSizeBytes program aliasId = 0 ↔ _
  unfold indexedSizeBytes
  cases isShared program aliasId <;> simp

theorem indexedSizeBytes_ne_zero (sized : aliasSize program aliasId ≠ 0)
    (unshared : isShared program aliasId = false) :
    (indexSimulation program tasks).aliasSizeBytes aliasId ≠ 0 := by
  intro zero
  rcases indexedSizeBytes_eq_zero.mp zero with unsized | shared
  · exact sized unsized
  · rw [unshared] at shared
    cases shared

theorem rowsInside {choices : List TaskAlternativeChoice}
    (selected : selectTasks program choices = .ok tasks) :
    RowsInside (indexSimulation program tasks) := by
  have known : ∀ task ∈ tasks, ∀ object, Names task object →
      objectAlias program object < program.aliasGroups.length := by
    intro task mem object names
    rcases selected_names selected mem names with ⟨item, found, inGroups⟩
    unfold objectAlias aliasIndex
    rw [found, Option.map_some, Option.getD_some]
    simpa using List.idxOf_lt_length_of_mem inGroups
  intro row isRow named mem
  rcases List.mem_map.mp isRow with ⟨task, isTask, rfl⟩
  simp only [taskRow, mem_fromKeys, List.mem_map] at mem
  rcases mem with ⟨object, isInput, rfl⟩ | ⟨item, isMutated, rfl⟩ | ⟨object, isOutput, rfl⟩
  · exact known task isTask object (Or.inl isInput)
  · exact known task isTask _ (Or.inr (Or.inr ⟨item, isMutated, rfl⟩))
  · exact known task isTask object (Or.inr (Or.inl isOutput))

theorem untouched_iff :
    Untouched program tasks initialLocation finalLocation aliasId ↔
      touchesOf (tasks.map (taskRow program)) initialLocation finalLocation aliasId = [] := by
  have skipped : ∀ entry : TaskRow × Nat, taskTouches aliasId entry = [] ↔
      aliasId ∉ entry.1.inputs ∧ aliasId ∉ entry.1.mutations ∧ aliasId ∉ entry.1.outputs := by
    intro entry
    have touched := exists_taskTouches aliasId (fun _ => True) entry.1 entry.2
    rw [List.eq_nil_iff_forall_not_mem]
    grind
  have held : ∀ location boundary, heldTouches location boundary aliasId = [] ↔
      location aliasId ≠ some .device := by
    intro location boundary
    unfold heldTouches
    split <;> simp_all
  unfold Untouched touchesOf
  rw [List.append_eq_nil_iff, List.append_eq_nil_iff, held, held, List.flatMap_eq_nil_iff]
  constructor
  · rintro ⟨initial, final, each⟩
    refine ⟨⟨initial, fun entry mem => ?_⟩, final⟩
    rcases List.mem_map.mp (List.fst_mem_of_mem_zipIdx mem) with ⟨task, isTask, same⟩
    rw [skipped, ← same]
    exact each task isTask
  · rintro ⟨⟨initial, each⟩, final⟩
    refine ⟨initial, final, fun task mem => ?_⟩
    have isRow : taskRow program task ∈ tasks.map (taskRow program) := List.mem_map_of_mem mem
    rcases List.getElem_of_mem isRow with ⟨index, bound, same⟩
    rw [← same]
    exact (skipped ((tasks.map (taskRow program))[index], index)).mp
      (each _ (List.mk_mem_zipIdx_iff_getElem?.mpr (List.getElem?_eq_getElem bound)))

/-- An alias that nothing touches is neither written nor reserved. -/
theorem Untouched.writes (untouched : Untouched program tasks initialLocation finalLocation
    aliasId) :
    writesOf (tasks.map (taskRow program)) aliasId = [] ∧
      reservationsOf (tasks.map (taskRow program)) aliasId = [] := by
  have counts : ∀ entry ∈ (tasks.map (taskRow program)).zipIdx,
      entry.1.mutations.count aliasId = 0 ∧ entry.1.outputs.count aliasId = 0 := by
    intro entry mem
    rcases List.mem_map.mp (List.fst_mem_of_mem_zipIdx mem) with ⟨task, isTask, same⟩
    rw [← same, List.count_eq_zero, List.count_eq_zero]
    exact (untouched.2.2 task isTask).2
  unfold writesOf reservationsOf
  rw [List.flatMap_eq_nil_iff, List.flatMap_eq_nil_iff]
  constructor
  · intro entry mem
    simp [taskWrites, counts entry mem]
  · intro entry mem
    simp [taskReservations, counts entry mem]

/-- Lists that agree are those of an alias that is listed. -/
theorem listed_of_agrees {lists : SparseLists}
    (rows : Lists (indexSimulation program tasks) initialLocation finalLocation lists aliasId)
    (agrees : Agrees (buildFacts program tasks initialLocation finalLocation) lists aliasId) :
    Listed program tasks initialLocation finalLocation aliasId := by
  have anchors := rows.anchors
  by_cases unsized : aliasSize program aliasId = 0
  · exact Or.inl unsized
  right
  have matched := buildFacts_matches unsized tasks initialLocation finalLocation
  cases shared : isShared program aliasId with
  | true =>
    left
    refine ⟨rfl, untouched_iff.mpr ?_⟩
    rw [if_pos (indexedSizeBytes_eq_zero.mpr (Or.inr shared))] at anchors
    apply List.eq_nil_iff_forall_not_mem.mpr
    intro touch mem
    rcases (agrees.anchors _).mp ((matched.anchors _).mpr ⟨touch, mem, rfl⟩) with
      ⟨anchor, isAnchor, _⟩
    rw [anchors] at isAnchor
    cases isAnchor
  | false =>
    right
    have ascending := agrees.ascending
    rw [if_neg (indexedSizeBytes_ne_zero unsized shared)] at anchors
    rw [anchors, mergeAnchor_byPosition.pairwise_lt_iff, touchesOf_ordered_iff] at ascending
    exact ⟨rfl, fun task mem => ascending _ (List.mem_map_of_mem mem)⟩

/-- The lists of an alias that is listed agree. -/
theorem agrees_of_listed {lists : SparseLists}
    (rows : Lists (indexSimulation program tasks) initialLocation finalLocation lists aliasId)
    (listed : Listed program tasks initialLocation finalLocation aliasId) :
    Agrees (buildFacts program tasks initialLocation finalLocation) lists aliasId := by
  rcases rows with ⟨anchors, writes, reserved⟩
  by_cases unsized : aliasSize program aliasId = 0
  · rw [if_pos (indexedSizeBytes_eq_zero.mpr (Or.inl unsized))] at anchors writes reserved
    exact (buildFacts_unsized unsized tasks initialLocation finalLocation).agrees
      List.Pairwise.nil List.Pairwise.nil List.Pairwise.nil anchors writes reserved
  have matched := buildFacts_matches unsized tasks initialLocation finalLocation
  rcases listed with zero | ⟨shared, untouched⟩ | ⟨unshared, once⟩
  · exact absurd zero unsized
  · rw [if_pos (indexedSizeBytes_eq_zero.mpr (Or.inr shared))] at anchors writes reserved
    rw [untouched_iff.mp untouched, untouched.writes.1, untouched.writes.2] at matched
    exact matched.agrees List.Pairwise.nil List.Pairwise.nil List.Pairwise.nil anchors
      writes reserved
  · rw [if_neg (indexedSizeBytes_ne_zero unsized unshared)] at anchors writes reserved
    refine matched.agrees ?_ (writesOf_ordered _) (reservationsOf_ordered _) anchors writes
      reserved
    rw [touchesOf_ordered_iff]
    intro row mem
    rcases List.mem_map.mp mem with ⟨task, isTask, rfl⟩
    exact once task isTask

/-- The lists of each alias say what the readable facts do exactly when the rooms fit the
word and the alias is listed. -/
theorem buildAliasLists_agrees_iff (choices : List TaskAlternativeChoice)
    (selected : selectTasks program choices = .ok tasks)
    (bound : aliasId < program.aliasGroups.length) :
    (∃ lists, buildAliasLists (indexSimulation program tasks) initialLocation finalLocation =
        some lists ∧
      Agrees (buildFacts program tasks initialLocation finalLocation) lists aliasId) ↔
    RoomsFit (indexSimulation program tasks) initialLocation finalLocation ∧
      Listed program tasks initialLocation finalLocation aliasId := by
  have rows := rowsInside selected
  constructor
  · rintro ⟨lists, built, agrees⟩
    rcases buildAliasLists_lists rows built with ⟨fit, ofAlias⟩
    exact ⟨fit, listed_of_agrees (ofAlias aliasId bound) agrees⟩
  · rintro ⟨fit, listed⟩
    rcases buildAliasLists_isSome fit with ⟨lists, built⟩
    have ofAlias := (buildAliasLists_lists rows built).2 aliasId bound
    exact ⟨lists, built, agrees_of_listed ofAlias listed⟩

end Programs

/-! ## Two objects of one alias -/

/-- A task that reads two objects and mutates the second, and the first if `both`. -/
def mutatesSecond (both : Bool) : TaskSpec where
  taskId := "update"
  deviceId := "gpu"
  profileId := "step"
  dependencies := []
  inputs := ["left", "right"]
  outputs := []
  mutations := if both then [⟨"left"⟩, ⟨"right"⟩] else [⟨"right"⟩]
  phase := "compute"
  checked := by cases both <;> rfl

/-- One alias of two objects. -/
def halvedAlias (both : Bool) : ShadowSpillProgram where
  devices := [⟨"gpu"⟩]
  aliasGroups := [⟨"weights", "gpu", 2, none⟩]
  objects := [⟨"left", "weights", 0, 1⟩, ⟨"right", "weights", 1, 1⟩]
  profiles := [⟨"step"⟩]
  tasks := [mutatesSecond both]
  taskAlternativeGroups := []
  checked := by cases both <;> rfl

theorem one_object_agrees :
    ∃ lists, buildAliasLists (indexSimulation (halvedAlias false) [mutatesSecond false])
        (fun _ => none) (fun _ => none) = some lists ∧
      Agrees (buildFacts (halvedAlias false) [mutatesSecond false] (fun _ => none)
        fun _ => none) lists 0 := by
  have fit : RoomsFit (indexSimulation (halvedAlias false) [mutatesSecond false])
      (fun _ => none) (fun _ => none) := ⟨by decide, by decide, by decide⟩
  have once : MutatedOnce (halvedAlias false) [mutatesSecond false] 0 := by
    intro task mem
    rw [List.mem_singleton.mp mem]
    decide
  exact (buildAliasLists_agrees_iff [] rfl (by decide)).mpr ⟨fit, Or.inr (Or.inr ⟨rfl, once⟩)⟩

/-- The anchors of two mutations go back to the boundary before the task. -/
theorem two_objects_disagree :
    selectTasks (halvedAlias true) [] = .ok [mutatesSecond true] ∧
    ∃ lists, buildAliasLists (indexSimulation (halvedAlias true) [mutatesSecond true])
        (fun _ => none) (fun _ => none) = some lists ∧
      (lists.anchors.row 0).map Anchor.position = [0, 1, 0, 1] ∧
      ¬ Agrees (buildFacts (halvedAlias true) [mutatesSecond true] (fun _ => none)
        fun _ => none) lists 0 := by
  refine ⟨rfl, _, rfl, by decide, fun agrees => ?_⟩
  have ascending := agrees.ascending
  revert ascending
  decide

end ShadowSpill.Reference.AliasAgreement
