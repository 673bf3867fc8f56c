import ShadowSpill.Planner.Residency.AliasSummaries

/-!
# Finding the next input

Where a task mutates two objects of an alias the anchors of the alias are out of order,
but not around the anchors that an input marks: what comes before such an anchor is not
above it, and what comes after is not below it.  A search for the first input past a
boundary finds it, whatever the program.
-/

namespace ShadowSpill.Planner.Residency.InputAnchors

open Library.Bisection Library.PackedRows Problem AliasLists AliasTouches AliasSummaries

/-- Around an input the positions are in order. -/
def InOrder (first second : Anchor) : Prop :=
  first.input = true ∨ second.input = true → first.position ≤ second.position

/-! ## The order around inputs -/

section Order

variable {aliasId : Nat}

theorem taskTouches_inOrder (entry : TaskRow × Nat) :
    (taskTouches aliasId entry).Pairwise InOrder := by
  unfold taskTouches
  generalize entry.1.mutations.count aliasId = mutations
  rw [List.pairwise_append, List.pairwise_append]
  refine ⟨⟨?_, ?_, ?_⟩, ?_, ?_⟩
  · rw [List.pairwise_replicate]
    exact Or.inr fun _ => le_rfl
  · have uninput : ∀ anchor ∈ (List.replicate mutations
        [touch entry.2 (some entry.2) false false,
          touch (entry.2 + 1) none false false]).flatten, anchor.input = false := by
      intro anchor mem
      simp only [List.mem_flatten, List.mem_replicate] at mem
      rcases mem with ⟨pair, ⟨_, rfl⟩, inPair⟩
      simp only [List.mem_cons, List.not_mem_nil, or_false] at inPair
      rcases inPair with rfl | rfl <;> rfl
    apply List.pairwise_of_forall_mem_list
    rintro first firstMem second secondMem (isInput | isInput)
    · rw [uninput first firstMem] at isInput
      cases isInput
    · rw [uninput second secondMem] at isInput
      cases isInput
  · intro first firstMem second secondMem _
    rw [(List.mem_replicate.mp firstMem).2]
    have inTask : second ∈ taskTouches aliasId
        (⟨[], [], List.replicate mutations aliasId⟩, entry.2) := by
      simpa [taskTouches] using secondMem
    exact (taskTouches_position inTask).1
  · rw [List.pairwise_replicate]
    exact Or.inr fun _ => le_rfl
  · intro first firstMem second secondMem _
    rw [(List.mem_replicate.mp secondMem).2]
    have inTask : first ∈ taskTouches aliasId
        (⟨List.replicate (entry.1.inputs.count aliasId) aliasId, [],
          List.replicate mutations aliasId⟩, entry.2) := by
      simpa [taskTouches] using firstMem
    exact (taskTouches_position inTask).2

theorem heldTouches_position {location : Nat → Option MemoryLocation} {boundary : Nat}
    {anchor : Anchor} (mem : anchor ∈ heldTouches location boundary aliasId) :
    anchor.position = boundary := by
  unfold heldTouches at mem
  split at mem
  · rw [List.mem_singleton.mp mem]
    rfl
  · cases mem

theorem heldTouches_inOrder (location : Nat → Option MemoryLocation) (boundary : Nat) :
    (heldTouches location boundary aliasId).Pairwise InOrder := by
  unfold heldTouches
  split
  · exact List.pairwise_singleton _ _
  · exact List.Pairwise.nil

/-- The touches of an alias are in order around its inputs. -/
theorem touchesOf_inOrder (tasks : List TaskRow)
    (initialLocation finalLocation : Nat → Option MemoryLocation) :
    (touchesOf tasks initialLocation finalLocation aliasId).Pairwise InOrder := by
  have inside : ∀ anchor ∈ tasks.zipIdx.flatMap (taskTouches aliasId),
      anchor.position ≤ tasks.length := by
    intro anchor mem
    rcases List.mem_flatMap.mp mem with ⟨entry, isEntry, touched⟩
    have bound := List.snd_lt_of_mem_zipIdx isEntry
    have upper := (taskTouches_position touched).2
    omega
  unfold touchesOf
  rw [List.pairwise_append, List.pairwise_append, List.pairwise_flatMap]
  refine ⟨⟨heldTouches_inOrder _ _, ⟨fun entry _ => taskTouches_inOrder entry, ?_⟩, ?_⟩,
    heldTouches_inOrder _ _, ?_⟩
  · apply (pairwise_zipIdx_lt tasks).imp
    intro first second ordered anchor touched later touchedLater _
    have upper := (taskTouches_position touched).2
    have lower := (taskTouches_position touchedLater).1
    omega
  · intro first isStart second _ _
    rw [heldTouches_position isStart]
    exact Nat.zero_le _
  · intro first before second isStop _
    rw [heldTouches_position isStop]
    rcases List.mem_append.mp before with isStart | walked
    · rw [heldTouches_position isStart]
      exact Nat.zero_le _
    · exact inside first walked

end Order

/-! ## Merging keeps it -/

section Merging

variable {touches : List Anchor}

theorem mergeAnchor_some {last touch merged : Anchor}
    (merges : mergeAnchor last touch = some merged) :
    last.position = touch.position ∧ merged.position = touch.position ∧
      merged.input = (last.input || touch.input) := by
  unfold mergeAnchor at merges
  split at merges
  case isTrue same =>
    cases merges
    exact ⟨same, same, rfl⟩
  case isFalse => cases merges

/-- An input marks an entry exactly when it marks a touch at the entry's boundary. -/
theorem merged_inputs (touches : List Anchor) (position : Nat) :
    (∃ anchor ∈ mergedList mergeAnchor touches,
        anchor.position = position ∧ anchor.input = true) ↔
      ∃ touch ∈ touches, touch.position = position ∧ touch.input = true := by
  induction touches using List.reverseRecOn with
  | nil => rfl
  | append_singleton touches touch inductionHypothesis =>
    have grown : (∃ other ∈ touches ++ [touch], other.position = position ∧
        other.input = true) ↔
        (∃ other ∈ touches, other.position = position ∧ other.input = true) ∨
          touch.position = position ∧ touch.input = true := by
      simp only [List.mem_append, List.mem_singleton, or_and_right, exists_or, exists_eq_left]
    rw [mergedList_concat, grown, ← inductionHypothesis]
    rcases List.eq_nil_or_concat (mergedList mergeAnchor touches) with
      empty | ⟨earlier, last, split⟩
    · simp [empty]
    · rw [split, List.concat_eq_append]
      cases merges : mergeAnchor last touch with
      | none =>
        rw [recordInto_appended merges]
        simp [or_and_right, exists_or, or_assoc]
      | some merged =>
        rcases mergeAnchor_some merges with ⟨sameLast, sameMerged, input⟩
        rw [recordInto_merged merges]
        simp only [List.mem_append, List.mem_singleton, or_and_right, exists_or, exists_eq_left,
          sameMerged, sameLast, input, Bool.or_eq_true]
        grind

/-- Merging keeps the order around inputs. -/
theorem merged_inOrder (ordered : touches.Pairwise InOrder) :
    (mergedList mergeAnchor touches).Pairwise InOrder := by
  induction touches using List.reverseRecOn with
  | nil => exact List.Pairwise.nil
  | append_singleton touches touch inductionHypothesis =>
    rw [List.pairwise_append] at ordered
    have kept := inductionHypothesis ordered.1
    -- Every entry stands where some touch does, and is an input where one is.
    have below : ∀ entry ∈ mergedList mergeAnchor touches,
        entry.input = true ∨ touch.input = true → entry.position ≤ touch.position := by
      rintro entry mem (isInput | isInput)
      · rcases (merged_inputs touches entry.position).mp ⟨entry, mem, rfl, isInput⟩ with
          ⟨other, isOther, same, otherInput⟩
        rw [← same]
        exact ordered.2.2 other isOther touch (by simp) (Or.inl otherInput)
      · have key := (mergeAnchor_byPosition.mem_keys touches entry.position).mp
          (List.mem_map_of_mem mem)
        rcases List.mem_map.mp key with ⟨other, isOther, same⟩
        rw [← same]
        exact ordered.2.2 other isOther touch (by simp) (Or.inr isInput)
    rw [mergedList_concat]
    rcases List.eq_nil_or_concat (mergedList mergeAnchor touches) with
      empty | ⟨earlier, last, split⟩
    · rw [empty, recordInto_nil]
      exact List.pairwise_singleton _ _
    · rw [split, List.concat_eq_append] at kept below ⊢
      cases merges : mergeAnchor last touch with
      | none =>
        rw [recordInto_appended merges, List.pairwise_append]
        refine ⟨kept, List.pairwise_singleton _ _, ?_⟩
        intro entry mem other isOther
        rw [List.mem_singleton.mp isOther]
        exact below entry mem
      | some merged =>
        rcases mergeAnchor_some merges with ⟨sameLast, sameMerged, input⟩
        rw [List.pairwise_append] at kept
        rw [recordInto_merged merges, List.pairwise_append]
        refine ⟨kept.1, List.pairwise_singleton _ _, ?_⟩
        intro entry mem other isOther
        rw [List.mem_singleton.mp isOther]
        intro marked
        rw [input, Bool.or_eq_true, ← or_assoc] at marked
        rw [sameMerged]
        rcases marked with byLast | byTouch
        · rw [← sameLast]
          exact kept.2.2 entry mem last (by simp) byLast
        · exact below entry (List.mem_append_left _ mem) (Or.inr byTouch)

end Merging

/-! ## The search -/

section Search

variable {anchors : List Anchor} {boundary : Nat}

/-- The first anchor from the bound on that an input marks. -/
def nextInput (anchors : List Anchor) (boundary : Nat) : Option Nat :=
  ((anchors.drop (lowerBound (anchors.map Anchor.position) boundary)).find?
    Anchor.input).map Anchor.position

/-- In any list the lower bound is at an edge. -/
theorem lowerBound_edge (positions : List Nat) (boundary : Nat) :
    lowerBound positions boundary ≤ positions.length ∧
      (0 < lowerBound positions boundary →
        positions.getD (lowerBound positions boundary - 1) 0 < boundary) ∧
      (lowerBound positions boundary < positions.length →
        boundary ≤ positions.getD (lowerBound positions boundary) 0) := by
  have edge := bisect_edge (fun index => decide (positions.getD index 0 < boundary))
    positions.length 0 positions.length le_rfl (Nat.zero_le _)
  rcases edge with ⟨_, le, before, after⟩
  exact ⟨le, fun later => of_decide_eq_true (before later),
    fun earlier => not_lt.mp (of_decide_eq_false (after earlier))⟩

/-- In order around inputs, the search finds the least input from the boundary on. -/
theorem nextInput_eq_some (ordered : anchors.Pairwise InOrder) (position : Nat) :
    nextInput anchors boundary = some position ↔
      IsLeast {position | boundary ≤ position ∧
        ∃ anchor ∈ anchors, anchor.position = position ∧ anchor.input = true} position := by
  have edge := lowerBound_edge (anchors.map Anchor.position) boundary
  have atIndex : ∀ index (bound : index < anchors.length),
      (anchors.map Anchor.position).getD index 0 = anchors[index].position := by
    intro index bound
    simp [List.getD_eq_getElem?_getD, bound]
  unfold nextInput
  generalize lowerBound (anchors.map Anchor.position) boundary = found at edge
  rcases edge with ⟨foundLe, before, after⟩
  rw [List.length_map] at foundLe after
  have inOrder := List.pairwise_iff_getElem.mp ordered
  -- Inputs before the edge are below the boundary, those from it on are not.
  have belowBefore : ∀ index (bound : index < anchors.length), index < found →
      anchors[index].input = true → anchors[index].position < boundary := by
    intro index bound early isInput
    have test := before (by omega)
    rw [atIndex (found - 1) (by omega)] at test
    rcases Nat.eq_or_lt_of_le (Nat.le_sub_one_of_lt early) with rfl | further
    · exact test
    · exact (inOrder index (found - 1) bound (by omega) further (Or.inl isInput)).trans_lt test
  have aboveAfter : ∀ index (bound : index < anchors.length), found ≤ index →
      anchors[index].input = true → boundary ≤ anchors[index].position := by
    intro index bound late isInput
    have test := after (by omega)
    rw [atIndex found (by omega)] at test
    rcases Nat.eq_or_lt_of_le late with rfl | further
    · exact test
    · exact test.trans (inOrder found index (by omega) bound further (Or.inr isInput))
  have split : anchors = anchors.take found ++ anchors.drop found :=
    (List.take_append_drop found anchors).symm
  have tail : (anchors.drop found).Pairwise InOrder := ordered.sublist (List.drop_sublist _ _)
  -- The inputs from the boundary on are those of the tail.
  have inTail : ∀ anchor, anchor.input = true →
      (anchor ∈ anchors.drop found ↔ anchor ∈ anchors ∧ boundary ≤ anchor.position) := by
    intro anchor isInput
    constructor
    · intro mem
      rcases List.mem_drop_iff_getElem.mp mem with ⟨index, bound, rfl⟩
      exact ⟨List.mem_of_mem_drop mem,
        aboveAfter (found + index) (by omega) (Nat.le_add_right _ _) isInput⟩
    · rintro ⟨mem, above⟩
      rw [split, List.mem_append] at mem
      rcases mem with early | late
      · rcases List.mem_take_iff_getElem.mp early with ⟨index, bound, rfl⟩
        exact absurd above (not_le.mpr (belowBefore index (by omega) (by omega) isInput))
      · exact late
  have least : ∀ anchor, (anchors.drop found).find? Anchor.input = some anchor →
      IsLeast {position | boundary ≤ position ∧
        ∃ anchor ∈ anchors, anchor.position = position ∧ anchor.input = true}
        anchor.position := by
    intro anchor isFound
    have isInput := List.find?_some isFound
    have located := (inTail anchor isInput).mp (List.mem_of_find?_eq_some isFound)
    refine ⟨⟨located.2, anchor, located.1, rfl, isInput⟩, ?_⟩
    rintro _ ⟨above, other, isOther, rfl, otherInput⟩
    have otherTail := (inTail other otherInput).mpr ⟨isOther, above⟩
    rcases List.find?_eq_some_iff_append.mp isFound with ⟨_, front, back, whole, unmarked⟩
    rw [whole, List.mem_append, List.mem_cons] at otherTail
    rw [whole, List.pairwise_append, List.pairwise_cons] at tail
    rcases otherTail with skipped | rfl | later
    · have notInput := unmarked other skipped
      rw [otherInput] at notInput
      cases notInput
    · exact le_rfl
    · exact tail.2.1.1 other later (Or.inl isInput)
  constructor
  · intro found
    rcases Option.map_eq_some_iff.mp found with ⟨anchor, isFound, rfl⟩
    exact least anchor isFound
  · rintro isLeast
    rcases isLeast.1 with ⟨above, anchor, mem, same, isInput⟩
    have someInput : ((anchors.drop found).find? Anchor.input).isSome :=
      List.find?_isSome.mpr ⟨anchor, (inTail anchor isInput).mpr ⟨mem, same ▸ above⟩, isInput⟩
    rcases Option.isSome_iff_exists.mp someInput with ⟨first, isFirst⟩
    rw [isFirst, Option.map_some, (least first isFirst).unique isLeast]

end Search

end ShadowSpill.Planner.Residency.InputAnchors
