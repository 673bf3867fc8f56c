import ShadowSpill.Planner.Residency.AliasTouches

/-!
# One entry a boundary

Touches that arrive in the order of their boundaries leave one anchor a boundary, which
sums up every touch there.  The touches of an alias arrive in order exactly when no task
mutates two objects of it: a second mutation goes back to the boundary before the task.
-/

namespace ShadowSpill.Planner.Residency.AliasSummaries

open Library.PackedRows Problem AliasLists AliasTouches

/-! ## Merging by boundaries -/

theorem mergeAnchor_byPosition : MergesByKey mergeAnchor Anchor.position where
  merged := by
    intro last anchor result merges
    unfold mergeAnchor at merges
    split at merges
    case isTrue same =>
      cases merges
      exact ⟨same, same⟩
    case isFalse => cases merges
  apart := by
    intro last anchor merges same
    unfold mergeAnchor at merges
    rw [if_pos same] at merges
    cases merges

theorem mergeBoundary_byValue : MergesByKey mergeBoundary (id : Nat → Nat) where
  merged := by
    intro last boundary result merges
    unfold mergeBoundary at merges
    split at merges
    case isTrue same =>
      cases merges
      exact ⟨same, same⟩
    case isFalse => cases merges
  apart := by
    intro last boundary merges same
    unfold mergeBoundary at merges
    rw [if_pos (show last = boundary from same)] at merges
    cases merges

theorem mem_mergedBoundaries (boundaries : List Nat) (boundary : Nat) :
    boundary ∈ mergedList mergeBoundary boundaries ↔ boundary ∈ boundaries := by
  have keys := mergeBoundary_byValue.mem_keys boundaries boundary
  rwa [List.map_id, List.map_id] at keys

theorem mergedBoundaries_ascend (boundaries : List Nat) :
    (mergedList mergeBoundary boundaries).Pairwise (· < ·) ↔ boundaries.Pairwise (· ≤ ·) := by
  have keys := mergeBoundary_byValue.pairwise_lt_iff boundaries
  rwa [List.map_id, List.map_id] at keys

/-! ## Summaries -/

/-- An anchor sums up the touches at its boundary. -/
structure Summarises (touches : List Anchor) (anchor : Anchor) : Prop where
  latestMem : ∀ task ∈ anchor.latest, ∃ touch ∈ touches,
    touch.position = anchor.position ∧ touch.latest = some task
  latestBound : ∀ touch ∈ touches, touch.position = anchor.position →
    ∀ task ∈ touch.latest, ∃ latest ∈ anchor.latest, task ≤ latest
  earliestMem : ∀ task ∈ anchor.earliest, ∃ touch ∈ touches,
    touch.position = anchor.position ∧ touch.earliest = some task
  earliestBound : ∀ touch ∈ touches, touch.position = anchor.position →
    ∀ task ∈ touch.earliest, ∃ earliest ∈ anchor.earliest, earliest ≤ task
  input : anchor.input = true ↔
    ∃ touch ∈ touches, touch.position = anchor.position ∧ touch.input = true
  produced : anchor.produced = true ↔
    ∃ touch ∈ touches, touch.position = anchor.position ∧ touch.produced = true

theorem laterTask_some (recorded task : Nat) :
    laterTask (some recorded) (some task) =
      if task > recorded then some task else some recorded := rfl

theorem earlierTask_some (recorded task : Nat) :
    earlierTask (some recorded) (some task) =
      if task < recorded then some task else some recorded := rfl

theorem mem_laterTask {recorded task : Option Nat} {latest : Nat}
    (mem : latest ∈ laterTask recorded task) : latest ∈ recorded ∨ latest ∈ task := by
  cases task with
  | none => exact Or.inl mem
  | some task =>
    cases recorded with
    | none => exact Or.inr mem
    | some recorded =>
      rw [laterTask_some] at mem
      split at mem
      · exact Or.inr mem
      · exact Or.inl mem

theorem le_laterTask {recorded task : Option Nat} {earlier : Nat}
    (mem : earlier ∈ recorded ∨ earlier ∈ task) :
    ∃ latest ∈ laterTask recorded task, earlier ≤ latest := by
  cases task with
  | none => exact ⟨earlier, mem.resolve_right (Option.not_mem_none _), le_rfl⟩
  | some task =>
    cases recorded with
    | none => exact ⟨earlier, mem.resolve_left (Option.not_mem_none _), le_rfl⟩
    | some recorded =>
      simp only [Option.mem_def, Option.some.injEq] at mem
      rw [laterTask_some]
      split
      · exact ⟨task, rfl, by omega⟩
      · exact ⟨recorded, rfl, by omega⟩

theorem mem_earlierTask {recorded task : Option Nat} {earliest : Nat}
    (mem : earliest ∈ earlierTask recorded task) : earliest ∈ recorded ∨ earliest ∈ task := by
  cases task with
  | none => exact Or.inl mem
  | some task =>
    cases recorded with
    | none => exact Or.inr mem
    | some recorded =>
      rw [earlierTask_some] at mem
      split at mem
      · exact Or.inr mem
      · exact Or.inl mem

theorem earlierTask_le {recorded task : Option Nat} {later : Nat}
    (mem : later ∈ recorded ∨ later ∈ task) :
    ∃ earliest ∈ earlierTask recorded task, earliest ≤ later := by
  cases task with
  | none => exact ⟨later, mem.resolve_right (Option.not_mem_none _), le_rfl⟩
  | some task =>
    cases recorded with
    | none => exact ⟨later, mem.resolve_left (Option.not_mem_none _), le_rfl⟩
    | some recorded =>
      simp only [Option.mem_def, Option.some.injEq] at mem
      rw [earlierTask_some]
      split
      · exact ⟨task, rfl, by omega⟩
      · exact ⟨recorded, rfl, by omega⟩

section Steps

variable {touches : List Anchor} {anchor : Anchor}

/-- Touches of another boundary leave a summary as it is. -/
theorem Summarises.skip (summary : Summarises touches anchor) {touch : Anchor}
    (elsewhere : touch.position ≠ anchor.position) :
    Summarises (touches ++ [touch]) anchor := by
  have here : ∀ holds : Anchor → Prop,
      (∃ other ∈ touches ++ [touch], other.position = anchor.position ∧ holds other) ↔
        ∃ other ∈ touches, other.position = anchor.position ∧ holds other := by
    intro holds
    constructor
    · rintro ⟨other, mem, same, isHeld⟩
      rw [List.mem_append, List.mem_singleton] at mem
      rcases mem with before | rfl
      · exact ⟨other, before, same, isHeld⟩
      · exact absurd same elsewhere
    · rintro ⟨other, mem, same, isHeld⟩
      exact ⟨other, List.mem_append_left _ mem, same, isHeld⟩
  have before : ∀ other ∈ touches ++ [touch], other.position = anchor.position →
      other ∈ touches := by
    intro other mem same
    rw [List.mem_append, List.mem_singleton] at mem
    rcases mem with before | rfl
    · exact before
    · exact absurd same elsewhere
  constructor
  case latestMem => exact fun task mem => (here _).mpr (summary.latestMem task mem)
  case latestBound =>
    exact fun other mem same => summary.latestBound other (before other mem same) same
  case earliestMem => exact fun task mem => (here _).mpr (summary.earliestMem task mem)
  case earliestBound =>
    exact fun other mem same => summary.earliestBound other (before other mem same) same
  case input => exact summary.input.trans (here _).symm
  case produced => exact summary.produced.trans (here _).symm

/-- The first touch of a boundary sums up itself. -/
theorem summarises_first (fresh : ∀ other ∈ touches, other.position ≠ anchor.position) :
    Summarises (touches ++ [anchor]) anchor := by
  have itself : ∀ other ∈ touches ++ [anchor], other.position = anchor.position →
      other = anchor := by
    intro other mem same
    rw [List.mem_append, List.mem_singleton] at mem
    exact mem.resolve_left fun before => fresh other before same
  have mem : anchor ∈ touches ++ [anchor] := by simp
  constructor
  case latestMem => exact fun task isLatest => ⟨anchor, mem, rfl, isLatest⟩
  case latestBound =>
    intro other otherMem same task isTask
    rw [itself other otherMem same] at isTask
    exact ⟨task, isTask, le_rfl⟩
  case earliestMem => exact fun task isEarliest => ⟨anchor, mem, rfl, isEarliest⟩
  case earliestBound =>
    intro other otherMem same task isTask
    rw [itself other otherMem same] at isTask
    exact ⟨task, isTask, le_rfl⟩
  case input =>
    refine ⟨fun isInput => ⟨anchor, mem, rfl, isInput⟩, ?_⟩
    rintro ⟨other, otherMem, same, isInput⟩
    rwa [itself other otherMem same] at isInput
  case produced =>
    refine ⟨fun isProduced => ⟨anchor, mem, rfl, isProduced⟩, ?_⟩
    rintro ⟨other, otherMem, same, isProduced⟩
    rwa [itself other otherMem same] at isProduced

/-- A touch of the same boundary merges into the summary. -/
theorem Summarises.merge (summary : Summarises touches anchor) {touch merged : Anchor}
    (merges : mergeAnchor anchor touch = some merged) :
    Summarises (touches ++ [touch]) merged := by
  unfold mergeAnchor at merges
  split at merges
  case isFalse => cases merges
  case isTrue same =>
    cases merges
    have last : touch ∈ touches ++ [touch] := by simp
    constructor
    case latestMem =>
      intro task mem
      rcases mem_laterTask mem with before | here
      · rcases summary.latestMem task before with ⟨other, otherMem, position, isLatest⟩
        exact ⟨other, List.mem_append_left _ otherMem, position, isLatest⟩
      · exact ⟨touch, last, same.symm, here⟩
    case latestBound =>
      intro other mem position task isTask
      rw [List.mem_append, List.mem_singleton] at mem
      rcases mem with before | rfl
      · rcases summary.latestBound other before position task isTask with ⟨latest, isLatest, le⟩
        rcases le_laterTask (Or.inl isLatest) with ⟨merged, isMerged, leMerged⟩
        exact ⟨merged, isMerged, le.trans leMerged⟩
      · exact le_laterTask (Or.inr isTask)
    case earliestMem =>
      intro task mem
      rcases mem_earlierTask mem with before | here
      · rcases summary.earliestMem task before with ⟨other, otherMem, position, isEarliest⟩
        exact ⟨other, List.mem_append_left _ otherMem, position, isEarliest⟩
      · exact ⟨touch, last, same.symm, here⟩
    case earliestBound =>
      intro other mem position task isTask
      rw [List.mem_append, List.mem_singleton] at mem
      rcases mem with before | rfl
      · rcases summary.earliestBound other before position task isTask with
          ⟨earliest, isEarliest, le⟩
        rcases earlierTask_le (Or.inl isEarliest) with ⟨merged, isMerged, mergedLe⟩
        exact ⟨merged, isMerged, mergedLe.trans le⟩
      · exact earlierTask_le (Or.inr isTask)
    case input =>
      simp only [Bool.or_eq_true, summary.input, List.mem_append, List.mem_singleton]
      constructor
      · rintro (⟨other, mem, position, isInput⟩ | isInput)
        · exact ⟨other, Or.inl mem, position, isInput⟩
        · exact ⟨touch, Or.inr rfl, same.symm, isInput⟩
      · rintro ⟨other, before | rfl, position, isInput⟩
        · exact Or.inl ⟨other, before, position, isInput⟩
        · exact Or.inr isInput
    case produced =>
      simp only [Bool.or_eq_true, summary.produced, List.mem_append, List.mem_singleton]
      constructor
      · rintro (⟨other, mem, position, isProduced⟩ | isProduced)
        · exact ⟨other, Or.inl mem, position, isProduced⟩
        · exact ⟨touch, Or.inr rfl, same.symm, isProduced⟩
      · rintro ⟨other, before | rfl, position, isProduced⟩
        · exact Or.inl ⟨other, before, position, isProduced⟩
        · exact Or.inr isProduced

end Steps

/-- Touches in order leave summaries. -/
theorem mergedAnchors_summarise {touches : List Anchor}
    (ordered : (touches.map Anchor.position).Pairwise (· ≤ ·)) :
    ∀ anchor ∈ mergedList mergeAnchor touches, Summarises touches anchor := by
  induction touches using List.reverseRecOn with
  | nil => exact fun _ mem => absurd mem List.not_mem_nil
  | append_singleton touches touch inductionHypothesis =>
    have orderedBefore : (touches.map Anchor.position).Pairwise (· ≤ ·) := by
      rw [List.map_append, List.pairwise_append] at ordered
      exact ordered.1
    have summaries := inductionHypothesis orderedBefore
    have ascending := (mergeAnchor_byPosition.pairwise_lt_iff (touches ++ [touch])).mpr ordered
    have keys := mergeAnchor_byPosition.mem_keys touches
    rw [mergedList_concat] at ascending ⊢
    rcases List.eq_nil_or_concat (mergedList mergeAnchor touches) with
      empty | ⟨earlier, last, split⟩
    · intro anchor mem
      rw [empty, recordInto_nil, List.mem_singleton] at mem
      subst mem
      apply summarises_first
      intro other otherMem
      have key := (keys other.position).mpr (List.mem_map_of_mem otherMem)
      rw [empty] at key
      cases key
    · rw [split, List.concat_eq_append] at ascending summaries ⊢
      cases merges : mergeAnchor last touch with
      | none =>
        rw [recordInto_appended merges, List.map_append, List.pairwise_append] at ascending
        have below : ∀ anchor ∈ earlier ++ [last], anchor.position < touch.position :=
          fun anchor mem => ascending.2.2 _ (List.mem_map_of_mem mem) _ (by simp)
        rw [recordInto_appended merges]
        intro anchor mem
        rw [List.mem_append, List.mem_singleton] at mem
        rcases mem with before | rfl
        · exact (summaries anchor before).skip (below anchor before).ne'
        · apply summarises_first
          intro other otherMem same
          have key := (keys other.position).mpr (List.mem_map_of_mem otherMem)
          rw [split, List.concat_eq_append, List.mem_map] at key
          rcases key with ⟨entry, isEntry, position⟩
          exact absurd (position.trans same) (below entry isEntry).ne
      | some merged =>
        rcases mergeAnchor_byPosition.merged merges with ⟨sameLast, sameMerged⟩
        rw [recordInto_merged merges, List.map_append, List.pairwise_append] at ascending
        rw [recordInto_merged merges]
        intro anchor mem
        rw [List.mem_append, List.mem_singleton] at mem
        rcases mem with before | rfl
        · have below := ascending.2.2 _ (List.mem_map_of_mem before) merged.position (by simp)
          exact (summaries anchor (List.mem_append_left _ before)).skip
            (by rw [← sameMerged]; exact below.ne')
        · exact (summaries last (by simp)).merge merges

/-! ## The order of the touches -/

section Order

variable {aliasId : Nat}

/-- A task's touches stay between the boundary before it and the one after it. -/
theorem taskTouches_position {entry : TaskRow × Nat} {anchor : Anchor}
    (mem : anchor ∈ taskTouches aliasId entry) :
    entry.2 ≤ anchor.position ∧ anchor.position ≤ entry.2 + 1 := by
  unfold taskTouches at mem
  simp only [List.mem_append, List.mem_replicate, List.mem_flatten] at mem
  rcases mem with (⟨_, rfl⟩ | ⟨pair, ⟨_, rfl⟩, inPair⟩) | ⟨_, rfl⟩
  · exact ⟨le_rfl, Nat.le_succ _⟩
  · simp only [List.mem_cons, List.not_mem_nil, or_false] at inPair
    rcases inPair with rfl | rfl
    · exact ⟨le_rfl, Nat.le_succ _⟩
    · exact ⟨Nat.le_succ _, le_rfl⟩
  · exact ⟨Nat.le_succ _, le_rfl⟩

/-- The touches of one task are in order unless it mutates two objects of the alias. -/
theorem taskTouches_ordered_iff (entry : TaskRow × Nat) :
    ((taskTouches aliasId entry).map Anchor.position).Pairwise (· ≤ ·) ↔
      entry.1.mutations.count aliasId ≤ 1 := by
  rcases entry with ⟨row, task⟩
  unfold taskTouches
  simp only [List.map_append, List.map_replicate, List.map_flatten]
  generalize row.inputs.count aliasId = inputs
  generalize row.outputs.count aliasId = outputs
  match row.mutations.count aliasId with
  | 0 =>
    refine iff_of_true ?_ (by omega)
    simp [touch, List.pairwise_append, List.mem_replicate]
  | 1 =>
    refine iff_of_true ?_ le_rfl
    simp [touch, List.pairwise_append, List.mem_replicate]
  | mutations + 2 =>
    refine iff_of_false ?_ (by omega)
    intro ordered
    rw [List.pairwise_append, List.pairwise_append] at ordered
    have backwards := ordered.1.2.1
    simp [touch, List.replicate_succ] at backwards

theorem pairwise_zipIdx_lt (tasks : List TaskRow) :
    tasks.zipIdx.Pairwise fun first second => first.2 < second.2 := by
  rw [List.pairwise_iff_getElem]
  intro first second firstBound secondBound ordered
  simpa using ordered

/-- The touches of an alias are in order exactly when no task mutates two objects of it. -/
theorem touchesOf_ordered_iff (tasks : List TaskRow)
    (initialLocation finalLocation : Nat → Option MemoryLocation) :
    ((touchesOf tasks initialLocation finalLocation aliasId).map
        Anchor.position).Pairwise (· ≤ ·) ↔
      ∀ row ∈ tasks, row.mutations.count aliasId ≤ 1 := by
  have start : ∀ position ∈ (heldTouches initialLocation 0 aliasId).map Anchor.position,
      position = 0 := by
    unfold heldTouches
    split <;> simp [touch]
  have stop : ∀ position ∈ (heldTouches finalLocation tasks.length aliasId).map Anchor.position,
      position = tasks.length := by
    unfold heldTouches
    split <;> simp [touch]
  have held : ∀ location boundary,
      ((heldTouches location boundary aliasId).map Anchor.position).Pairwise (· ≤ ·) := by
    intro location boundary
    unfold heldTouches
    split <;> simp
  have inside : ∀ position ∈ (tasks.zipIdx.flatMap (taskTouches aliasId)).map Anchor.position,
      position ≤ tasks.length := by
    intro position mem
    rw [List.mem_map] at mem
    rcases mem with ⟨anchor, isAnchor, rfl⟩
    rw [List.mem_flatMap] at isAnchor
    rcases isAnchor with ⟨entry, isEntry, touched⟩
    have bound := List.snd_lt_of_mem_zipIdx isEntry
    have upper := (taskTouches_position touched).2
    omega
  have walked : ((tasks.zipIdx.flatMap (taskTouches aliasId)).map
      Anchor.position).Pairwise (· ≤ ·) ↔ ∀ row ∈ tasks, row.mutations.count aliasId ≤ 1 := by
    rw [List.map_flatMap, List.pairwise_flatMap]
    constructor
    · rintro ⟨each, _⟩ row mem
      rcases List.getElem_of_mem mem with ⟨index, bound, rfl⟩
      exact (taskTouches_ordered_iff (tasks[index], index)).mp
        (each _ (List.mk_mem_zipIdx_iff_getElem?.mpr (List.getElem?_eq_getElem bound)))
    · intro single
      refine ⟨fun entry mem => (taskTouches_ordered_iff entry).mpr
        (single _ (List.fst_mem_of_mem_zipIdx mem)), ?_⟩
      apply (pairwise_zipIdx_lt tasks).imp
      intro first second ordered position isFirst later isSecond
      rw [List.mem_map] at isFirst isSecond
      rcases isFirst with ⟨anchor, touched, rfl⟩
      rcases isSecond with ⟨other, touchedLater, rfl⟩
      have upper := (taskTouches_position touched).2
      have lower := (taskTouches_position touchedLater).1
      omega
  unfold touchesOf
  rw [List.map_append, List.map_append, List.pairwise_append, List.pairwise_append, walked]
  constructor
  · rintro ⟨⟨_, single, _⟩, _⟩
    exact single
  · intro single
    refine ⟨⟨held _ _, single, ?_⟩, held _ _, ?_⟩
    · intro first isStart second _
      rw [start first isStart]
      exact Nat.zero_le _
    · intro first before second isStop
      rw [stop second isStop]
      rw [List.mem_append] at before
      rcases before with isStart | walkedFirst
      · rw [start first isStart]
        exact Nat.zero_le _
      · exact inside first walkedFirst

/-- Writes are in order whatever a task mutates. -/
theorem writesOf_ordered (tasks : List TaskRow) :
    (writesOf tasks aliasId).Pairwise (· ≤ ·) := by
  unfold writesOf
  rw [List.pairwise_flatMap]
  refine ⟨fun entry _ => by simp [taskWrites], ?_⟩
  apply (pairwise_zipIdx_lt tasks).imp
  intro first second ordered boundary isFirst later isSecond
  rw [(List.mem_replicate.mp isFirst).2, (List.mem_replicate.mp isSecond).2]
  omega

theorem reservationsOf_ordered (tasks : List TaskRow) :
    (reservationsOf tasks aliasId).Pairwise (· ≤ ·) := by
  have here : ∀ entry, ∀ boundary ∈ taskReservations aliasId entry, boundary = entry.2 := by
    intro entry boundary mem
    unfold taskReservations at mem
    split at mem
    · exact (List.mem_replicate.mp mem).2
    · cases mem
  unfold reservationsOf
  rw [List.pairwise_flatMap]
  constructor
  · intro entry _
    unfold taskReservations
    split <;> simp
  · apply (pairwise_zipIdx_lt tasks).imp
    intro first second ordered boundary isFirst later isSecond
    rw [here first boundary isFirst, here second later isSecond]
    omega

end Order

end ShadowSpill.Planner.Residency.AliasSummaries
