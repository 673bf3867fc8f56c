import ShadowSpill.Planner.Residency.Reduce

/-!
# The heap of the boundaries in excess

An entry may promise more than its boundary still exceeds by, never less.  The
entry that is served has been corrected, so no boundary goes before it.
-/

namespace ShadowSpill.Planner.Residency.ExcessHeap

open Library Problem Reduce

/-! ## The order of the entries -/

theorem excessEntryBefore_iff (first second : ExcessEntry) :
    excessEntryBefore first second = true ↔
      first.excess > second.excess ∨ first.excess = second.excess ∧
        (first.boundary < second.boundary ∨ first.boundary = second.boundary ∧
          (first.priority < second.priority ∨ first.priority = second.priority ∧
            first.device < second.device)) := by
  unfold excessEntryBefore
  split_ifs <;> simp only [decide_eq_true_eq] <;> omega

theorem excessEntryBefore_false (first second : ExcessEntry) :
    excessEntryBefore first second = false ↔
      ¬ (first.excess > second.excess ∨ first.excess = second.excess ∧
        (first.boundary < second.boundary ∨ first.boundary = second.boundary ∧
          (first.priority < second.priority ∨ first.priority = second.priority ∧
            first.device < second.device))) := by
  rw [← excessEntryBefore_iff, Bool.not_eq_true]

theorem excessEntryBefore_strict : BinaryHeap.StrictOrder excessEntryBefore where
  asymm := by
    intro first second before
    rw [excessEntryBefore_iff] at before
    rw [excessEntryBefore_false]
    omega
  trans := by
    intro first second third before later
    rw [excessEntryBefore_iff] at before later ⊢
    omega
  negTrans := by
    intro first second third before later
    rw [excessEntryBefore_false] at before later ⊢
    omega

/-! ## What the heap holds -/

/-- By how much a boundary exceeds its capacity. -/
def excessAt (problem : ResidencyProblem) (options : ReduceOptions)
    (pressure : Nat → Nat → Word) (device boundary : Nat) : Nat :=
  usedAt options pressure device boundary - problem.boundaryCapacityBytes device boundary

/-- The entries are in heap order, and each is of one of the problem's boundaries. -/
structure WellFormed (problem : ResidencyProblem) (entries : List ExcessEntry) : Prop where
  ordered : BinaryHeap.Ordered excessEntryBefore entries
  inRange : ∀ entry ∈ entries, entry.device < problem.deviceCount ∧
    entry.boundary < problem.boundaryCount
  priority : ∀ entry ∈ entries, entry.priority = problem.devicePriority entry.device

/-- Every boundary in excess has an entry that promises as much or more. -/
def Tracks (problem : ResidencyProblem) (options : ReduceOptions)
    (pressure : Nat → Nat → Word) (entries : List ExcessEntry) : Prop :=
  ∀ device < problem.deviceCount, ∀ boundary < problem.boundaryCount,
    0 < excessAt problem options pressure device boundary →
      ∃ entry ∈ entries, entry.device = device ∧ entry.boundary = boundary ∧
        excessAt problem options pressure device boundary ≤ entry.excess

section Heap

variable {problem : ResidencyProblem} {options : ReduceOptions}
  {pressure : Nat → Nat → Word} {entries : List ExcessEntry}

/-- The entries may promise too much after pressure falls. -/
theorem Tracks.mono {lowered : Nat → Nat → Word}
    (tracks : Tracks problem options pressure entries)
    (falls : ∀ device < problem.deviceCount, ∀ boundary < problem.boundaryCount,
      usedAt options lowered device boundary ≤ usedAt options pressure device boundary) :
    Tracks problem options lowered entries := by
  intro device deviceBound boundary boundaryBound exceeds
  have fell := falls device deviceBound boundary boundaryBound
  have less : excessAt problem options lowered device boundary ≤
      excessAt problem options pressure device boundary := Nat.sub_le_sub_right fell _
  obtain ⟨entry, mem, sameDevice, sameBoundary, promised⟩ :=
    tracks device deviceBound boundary boundaryBound (by omega)
  exact ⟨entry, mem, sameDevice, sameBoundary, le_trans less promised⟩

theorem WellFormed.push (formed : WellFormed problem entries) {entry : ExcessEntry}
    (inRange : entry.device < problem.deviceCount ∧ entry.boundary < problem.boundaryCount)
    (priority : entry.priority = problem.devicePriority entry.device) :
    WellFormed problem (excessHeapPush entries entry) where
  ordered := BinaryHeap.push_ordered excessEntryBefore_strict formed.ordered entry
  inRange := by
    intro other mem
    rcases List.mem_cons.1 ((BinaryHeap.push_perm entry).subset mem) with rfl | mem
    · exact inRange
    · exact formed.inRange other mem
  priority := by
    intro other mem
    rcases List.mem_cons.1 ((BinaryHeap.push_perm entry).subset mem) with rfl | mem
    · exact priority
    · exact formed.priority other mem

theorem mem_push {entry other : ExcessEntry} :
    other ∈ excessHeapPush entries entry ↔ other = entry ∨ other ∈ entries :=
  ((BinaryHeap.push_perm entry).mem_iff).trans List.mem_cons

theorem WellFormed.pop (formed : WellFormed problem entries) {top : ExcessEntry}
    (first : entries[0]? = some top) :
    WellFormed problem (BinaryHeap.pop excessEntryBefore entries) where
  ordered := BinaryHeap.pop_ordered excessEntryBefore_strict formed.ordered
  inRange := fun other mem => formed.inRange other
    ((BinaryHeap.pop_perm first).mem_iff.2 (List.mem_cons_of_mem _ mem))
  priority := fun other mem => formed.priority other
    ((BinaryHeap.pop_perm first).mem_iff.2 (List.mem_cons_of_mem _ mem))

/-! ## The heap of the seed -/

/-- A boundary that is looked at joins the heap when it is in excess. -/
theorem pushExcess_spec (formed : WellFormed problem entries) {device boundary : Nat}
    (deviceBound : device < problem.deviceCount)
    (boundaryBound : boundary < problem.boundaryCount) :
    WellFormed problem (pushExcess problem options pressure device boundary entries) ∧
      (∀ entry ∈ entries,
        entry ∈ pushExcess problem options pressure device boundary entries) ∧
      (0 < excessAt problem options pressure device boundary →
        ∃ entry ∈ pushExcess problem options pressure device boundary entries,
          entry.device = device ∧ entry.boundary = boundary ∧
            excessAt problem options pressure device boundary ≤ entry.excess) := by
  unfold pushExcess
  simp only
  by_cases fits : usedAt options pressure device boundary ≤
      problem.boundaryCapacityBytes device boundary
  · rw [if_pos fits]
    refine ⟨formed, fun _ mem => mem, ?_⟩
    intro exceeds
    rw [excessAt, Nat.sub_eq_zero_of_le fits] at exceeds
    exact absurd exceeds (lt_irrefl 0)
  · rw [if_neg fits]
    refine ⟨formed.push ⟨deviceBound, boundaryBound⟩ rfl,
      fun _ mem => mem_push.2 (Or.inr mem), ?_⟩
    intro _
    exact ⟨_, mem_push.2 (Or.inl rfl), rfl, rfl, le_rfl⟩

/-- The boundaries of one device join the heap. -/
theorem pushRow_spec {device : Nat} (deviceBound : device < problem.deviceCount)
    (boundaries : List Nat) (bound : ∀ boundary ∈ boundaries, boundary < problem.boundaryCount)
    {entries : List ExcessEntry} (formed : WellFormed problem entries) :
    let pushed := boundaries.foldl (fun entries boundary =>
      pushExcess problem options pressure device boundary entries) entries
    WellFormed problem pushed ∧ (∀ entry ∈ entries, entry ∈ pushed) ∧
      ∀ boundary ∈ boundaries, 0 < excessAt problem options pressure device boundary →
        ∃ entry ∈ pushed, entry.device = device ∧ entry.boundary = boundary ∧
          excessAt problem options pressure device boundary ≤ entry.excess := by
  induction boundaries generalizing entries with
  | nil => exact ⟨formed, fun _ mem => mem, by simp⟩
  | cons boundary rest ih =>
      obtain ⟨first, kept, found⟩ := @pushExcess_spec problem options pressure entries formed
        device boundary deviceBound (bound boundary (by simp))
      obtain ⟨all, later, others⟩ := ih (fun other mem => bound other (by simp [mem])) first
      refine ⟨all, fun entry mem => later entry (kept entry mem), ?_⟩
      intro other mem exceeds
      rcases List.mem_cons.1 mem with rfl | mem
      · obtain ⟨entry, entryMem, promises⟩ := found exceeds
        exact ⟨entry, later entry entryMem, promises⟩
      · exact others other mem exceeds

theorem seedExcessHeap_spec :
    WellFormed problem (seedExcessHeap problem options pressure) ∧
      Tracks problem options pressure (seedExcessHeap problem options pressure) := by
  have rows : ∀ (devices : List Nat), (∀ device ∈ devices, device < problem.deviceCount) →
      ∀ entries, WellFormed problem entries →
        let pushed := devices.foldl (fun entries device =>
          (List.range problem.boundaryCount).foldl (fun entries boundary =>
            pushExcess problem options pressure device boundary entries) entries) entries
        WellFormed problem pushed ∧ (∀ entry ∈ entries, entry ∈ pushed) ∧
          ∀ device ∈ devices, ∀ boundary < problem.boundaryCount,
            0 < excessAt problem options pressure device boundary →
              ∃ entry ∈ pushed, entry.device = device ∧ entry.boundary = boundary ∧
                excessAt problem options pressure device boundary ≤ entry.excess := by
    intro devices
    induction devices with
    | nil => exact fun _ _ formed => ⟨formed, fun _ mem => mem, by simp⟩
    | cons device rest ih =>
        intro bound entries formed
        obtain ⟨first, kept, found⟩ := @pushRow_spec problem options pressure device
          (bound device (by simp)) (List.range problem.boundaryCount)
          (fun _ mem => List.mem_range.1 mem) entries formed
        obtain ⟨all, later, others⟩ := ih (fun other mem => bound other (by simp [mem])) _ first
        refine ⟨all, fun entry mem => later entry (kept entry mem), ?_⟩
        intro other mem boundary inside exceeds
        rcases List.mem_cons.1 mem with rfl | mem
        · obtain ⟨entry, entryMem, promises⟩ := found boundary (List.mem_range.2 inside) exceeds
          exact ⟨entry, later entry entryMem, promises⟩
        · exact others other mem boundary inside exceeds
  obtain ⟨formed, _, found⟩ := rows (List.range problem.deviceCount)
    (fun _ mem => List.mem_range.1 mem) [] ⟨BinaryHeap.ordered_nil, by simp, by simp⟩
  refine ⟨formed, ?_⟩
  intro device deviceBound boundary boundaryBound exceeds
  exact found device (List.mem_range.2 deviceBound) boundary boundaryBound exceeds

/-! ## Serving the worst boundary -/

/-- The entries that promise something else than what their boundary exceeds by. -/
def stale (problem : ResidencyProblem) (options : ReduceOptions)
    (pressure : Nat → Nat → Word) (entry : ExcessEntry) : Bool :=
  entry.excess ≠ excessAt problem options pressure entry.device entry.boundary

/-- What serving leaves and serves: the top of the heap, which promises what its
boundary exceeds by, or nothing from an empty heap. -/
structure Served (problem : ResidencyProblem) (options : ReduceOptions)
    (pressure : Nat → Nat → Word) (entries : List ExcessEntry)
    (served : List ExcessEntry × Option ExcessEntry) : Prop where
  formed : WellFormed problem served.1
  tracks : Tracks problem options pressure entries → Tracks problem options pressure served.1
  first : served.1[0]? = served.2
  exactly : ∀ top, served.2 = some top →
    0 < top.excess ∧ top.excess = excessAt problem options pressure top.device top.boundary

/-- Serving ends, since an entry that is looked at again has been corrected. -/
theorem popWorstBoundary_spec (fuel : Nat) {entries : List ExcessEntry}
    (formed : WellFormed problem entries)
    (enough : entries.length + (entries.filter (stale problem options pressure)).length <
      fuel) :
    ∃ served, popWorstBoundary problem options pressure fuel entries = some served ∧
      Served problem options pressure entries served := by
  induction fuel generalizing entries with
  | zero => omega
  | succ fuel ih =>
      rw [popWorstBoundary, List.head?_eq_getElem?]
      cases first : entries[0]? with
      | none => exact ⟨_, rfl, formed, id, first, by simp⟩
      | some top =>
          have perm := @BinaryHeap.pop_perm _ excessEntryBefore entries top first
          have popped := formed.pop first
          have topMem : top ∈ entries := List.mem_of_getElem? first
          have length := perm.length_eq
          have filtered := (perm.filter (stale problem options pressure)).length_eq
          rw [List.length_cons] at length
          simp only
          by_cases fits : usedAt options pressure top.device top.boundary ≤
              problem.boundaryCapacityBytes top.device top.boundary
          · rw [if_pos fits]
            have fewer : ((BinaryHeap.pop excessEntryBefore entries).filter
                (stale problem options pressure)).length ≤
                (entries.filter (stale problem options pressure)).length := by
              rw [filtered]
              exact (List.Sublist.filter _ (List.sublist_cons_self _ _)).length_le
            obtain ⟨served, result, isServed⟩ := ih popped (by omega)
            refine ⟨served, result, isServed.formed, ?_, isServed.first, isServed.exactly⟩
            intro tracks
            apply isServed.tracks
            intro device deviceBound boundary boundaryBound exceeds
            obtain ⟨entry, mem, sameDevice, sameBoundary, promised⟩ :=
              tracks device deviceBound boundary boundaryBound exceeds
            rcases List.mem_cons.1 (perm.subset mem) with rfl | mem
            · rw [excessAt, ← sameDevice, ← sameBoundary, Nat.sub_eq_zero_of_le fits] at exceeds
              exact absurd exceeds (lt_irrefl 0)
            · exact ⟨entry, mem, sameDevice, sameBoundary, promised⟩
          · rw [if_neg fits]
            by_cases corrected : usedAt options pressure top.device top.boundary -
                problem.boundaryCapacityBytes top.device top.boundary ≠ top.excess
            · rw [if_pos corrected]
              have isStale : stale problem options pressure top = true := by
                unfold stale
                exact decide_eq_true (Ne.symm corrected)
              rw [List.filter_cons_of_pos isStale, List.length_cons] at filtered
              have pushed := @BinaryHeap.push_perm _ excessEntryBefore
                (BinaryHeap.pop excessEntryBefore entries)
                { top with excess := usedAt options pressure top.device top.boundary -
                    problem.boundaryCapacityBytes top.device top.boundary }
              have fresh : ¬ stale problem options pressure
                  { top with excess := usedAt options pressure top.device top.boundary -
                      problem.boundaryCapacityBytes top.device top.boundary } = true := by
                simp [stale, excessAt]
              have pushedFilter := (pushed.filter (stale problem options pressure)).length_eq
              rw [List.filter_cons_of_neg fresh] at pushedFilter
              have pushedLength := pushed.length_eq
              rw [List.length_cons] at pushedLength
              obtain ⟨served, result, isServed⟩ := ih
                (@WellFormed.push problem _ popped
                  { top with excess := usedAt options pressure top.device top.boundary -
                      problem.boundaryCapacityBytes top.device top.boundary }
                  (formed.inRange top topMem) (formed.priority top topMem))
                (by unfold excessHeapPush; omega)
              refine ⟨served, result, isServed.formed, ?_, isServed.first, isServed.exactly⟩
              intro tracks
              apply isServed.tracks
              intro device deviceBound boundary boundaryBound exceeds
              obtain ⟨entry, mem, sameDevice, sameBoundary, promised⟩ :=
                tracks device deviceBound boundary boundaryBound exceeds
              rcases List.mem_cons.1 (perm.subset mem) with rfl | mem
              · refine ⟨_, mem_push.2 (Or.inl rfl), sameDevice, sameBoundary, ?_⟩
                rw [excessAt, ← sameDevice, ← sameBoundary]
              · exact ⟨entry, mem_push.2 (Or.inr mem), sameDevice, sameBoundary, promised⟩
            · rw [if_neg corrected]
              rw [ne_eq, not_not] at corrected
              refine ⟨_, rfl, formed, id, first, ?_⟩
              intro other same
              obtain rfl := Option.some.inj same
              exact ⟨by omega, corrected.symm⟩

/-- The fuel of the reduction is enough. -/
theorem popWorstBoundary_served (formed : WellFormed problem entries) :
    ∃ served, popWorstBoundary problem options pressure (2 * entries.length + 1) entries =
        some served ∧ Served problem options pressure entries served := by
  apply popWorstBoundary_spec _ formed
  have fewer := @List.length_filter_le _ (stale problem options pressure) entries
  omega

/-- Nothing is in excess when nothing is served. -/
theorem Served.none {served : List ExcessEntry}
    (isServed : Served problem options pressure entries (served, none))
    (tracks : Tracks problem options pressure entries) {device boundary : Nat}
    (deviceBound : device < problem.deviceCount)
    (boundaryBound : boundary < problem.boundaryCount) :
    usedAt options pressure device boundary ≤
      problem.boundaryCapacityBytes device boundary := by
  by_contra exceeds
  obtain ⟨entry, mem, _⟩ := isServed.tracks tracks device deviceBound boundary boundaryBound
    (by unfold excessAt; omega)
  have empty : served = [] := List.getElem?_eq_none_iff.1 isServed.first |>.antisymm
    (Nat.zero_le _) |> List.length_eq_zero_iff.1
  rw [empty] at mem
  cases mem

/-- No boundary in excess goes before the served one. -/
theorem Served.worst {served : List ExcessEntry} {top : ExcessEntry}
    (isServed : Served problem options pressure entries (served, some top))
    (tracks : Tracks problem options pressure entries) {device boundary : Nat}
    (deviceBound : device < problem.deviceCount)
    (boundaryBound : boundary < problem.boundaryCount)
    (exceeds : 0 < excessAt problem options pressure device boundary) :
    excessEntryBefore ⟨excessAt problem options pressure device boundary, boundary,
      problem.devicePriority device, device⟩ top = false := by
  obtain ⟨entry, mem, rfl, rfl, promised⟩ :=
    isServed.tracks tracks device deviceBound boundary boundaryBound exceeds
  have after := isServed.formed.ordered.first excessEntryBefore_strict isServed.first entry mem
  have priority := isServed.formed.priority entry mem
  rw [excessEntryBefore_false] at after ⊢
  simp only
  omega

end Heap

end ShadowSpill.Planner.Residency.ExcessHeap
