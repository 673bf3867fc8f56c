import ShadowSpill.Planner.Residency.CutLegality
import ShadowSpill.Planner.Residency.PressureTree
import ShadowSpill.Reference.Residency

/-!
# One problem, two descriptions

A residency problem and the planning facts of the reference describe the same
program when every list of the one holds what the sets of the other do, one
boundary lower.  Their charges are the same then.
-/

namespace ShadowSpill.Reference.ResidencyFacts

open Library.Intervals Planner.Residency.Problem Planner.Residency.Spans
open Planner.Residency.CutLegality Residency

/-- A boundary counted from the task before it. -/
abbrev shifted (boundary : Nat) : Int :=
  (boundary : Int) - 1

/-- An interval of boundaries as the reference counts them. -/
def toSpan (interval : Interval) : Span :=
  ⟨shifted interval.start, shifted interval.finish⟩

/-- The tasks that access an alias at an anchor: the latest and the earliest one are
among them, and bound them. -/
structure DescribesAccesses (facts : PlanningFacts) (aliasId : Nat) (anchor : Anchor) :
    Prop where
  latestMem : ∀ task ∈ anchor.latest,
    (shifted anchor.position, task) ∈ facts.accessEvents aliasId
  latestBound : ∀ task, (shifted anchor.position, task) ∈ facts.accessEvents aliasId →
    ∃ latest ∈ anchor.latest, task ≤ latest
  earliestMem : ∀ task ∈ anchor.earliest,
    (shifted anchor.position, task) ∈ facts.accessEvents aliasId
  earliestBound : ∀ task, (shifted anchor.position, task) ∈ facts.accessEvents aliasId →
    ∃ earliest ∈ anchor.earliest, earliest ≤ task

/-- The facts describe the problem; `deviceId` names its devices. -/
structure Describes (facts : PlanningFacts) (problem : ResidencyProblem)
    (deviceId : Nat → String) : Prop where
  aliasCount : facts.aliasCount = problem.aliasCount
  taskCount : facts.taskCount + 1 = problem.boundaryCount
  devicesPositive : 0 < problem.deviceCount
  devices : ∀ device, device ∈ facts.devices ↔
    ∃ index < problem.deviceCount, deviceId index = device
  priorities : ∀ first < problem.deviceCount, ∀ second < problem.deviceCount,
    problem.devicePriority first < problem.devicePriority second ↔
      deviceId first < deviceId second
  distinct : ∀ first < problem.deviceCount, ∀ second < problem.deviceCount,
    deviceId first = deviceId second → first = second
  sizes : ∀ aliasId < problem.aliasCount,
    facts.aliasSizes aliasId = problem.aliasSizeBytes aliasId
  aliasDevices : ∀ aliasId < problem.aliasCount,
    problem.aliasDevice aliasId < problem.deviceCount ∧
      facts.aliasDevices aliasId = deviceId (problem.aliasDevice aliasId)
  retains : ∀ aliasId < problem.aliasCount,
    facts.aliasRetainSpillCopy aliasId = problem.aliasRetainSpillCopy aliasId
  finalLocations : ∀ aliasId < problem.aliasCount,
    facts.finalLocations aliasId = problem.finalLocation aliasId
  anchors : ∀ aliasId < problem.aliasCount, ∀ boundary,
    boundary ∈ facts.anchors aliasId ↔
      ∃ anchor ∈ problem.anchors aliasId, shifted anchor.position = boundary
  inside : ∀ aliasId < problem.aliasCount, ∀ anchor ∈ problem.anchors aliasId,
    anchor.position < problem.boundaryCount
  accesses : ∀ aliasId < problem.aliasCount, ∀ anchor ∈ problem.anchors aliasId,
    DescribesAccesses facts aliasId anchor
  accessed : ∀ aliasId < problem.aliasCount, ∀ event ∈ facts.accessEvents aliasId,
    (event.1 = event.2 ∨ event.1 = (event.2 : Int) - 1) ∧ event.2 < facts.taskCount ∧
      ∃ anchor ∈ problem.anchors aliasId, shifted anchor.position = event.1
  productions : ∀ aliasId < problem.aliasCount, ∀ boundary,
    boundary ∈ facts.productionBoundaries aliasId ↔
      ∃ anchor ∈ problem.anchors aliasId, shifted anchor.position = boundary ∧
        anchor.produced = true
  writesOrder : ∀ aliasId < problem.aliasCount,
    (problem.writeBoundaries aliasId).Pairwise (· < ·)
  writes : ∀ aliasId < problem.aliasCount, ∀ boundary,
    boundary ∈ facts.writeBoundaries aliasId ↔
      ∃ written ∈ problem.writeBoundaries aliasId, shifted written = boundary
  reservations : ∀ aliasId < problem.aliasCount, ∀ index,
    index ∈ problem.reservedPositions aliasId ↔
      index < facts.taskCount ∧ aliasId ∈ facts.outputReservations index
  reservedAliases : ∀ index < facts.taskCount, (facts.outputReservations index).Nodup ∧
    ∀ aliasId ∈ facts.outputReservations index, aliasId < problem.aliasCount
  capacities : ∀ device < problem.deviceCount, ∀ index < problem.boundaryCount,
    facts.objectCapacityByBoundary (deviceId device) index =
      problem.boundaryCapacityBytes device index
  idealEnds : ∀ task < facts.taskCount, facts.taskIdealEndNs task = problem.taskIdealEndNs task
  fetches : ∀ aliasId < problem.aliasCount,
    transferRuntimeNs facts aliasId true = problem.fetchRuntimeNs aliasId
  evicts : ∀ aliasId < problem.aliasCount,
    transferRuntimeNs facts aliasId false = problem.evictRuntimeNs aliasId

/-! ## Charges -/

section Charges

variable {facts : PlanningFacts} {problem : ResidencyProblem} {deviceId : Nat → String}
  {fetchHeadroom : Bool} {aliasId : Nat}

theorem toSpan_contains (interval : Interval) (boundary : Nat) :
    (toSpan interval).contains (shifted boundary) = true ↔ interval.Contains boundary := by
  unfold Span.contains toSpan Interval.Contains
  simp only [shifted, Bool.and_eq_true, decide_eq_true_eq]
  omega

theorem Describes.anchored (describes : Describes facts problem deviceId)
    (bound : aliasId < problem.aliasCount) (boundary : Nat) :
    shifted boundary ∈ facts.anchors aliasId ↔ Anchored problem aliasId boundary := by
  rw [describes.anchors aliasId bound]
  simp [Anchored, shifted]

theorem Describes.produced (describes : Describes facts problem deviceId)
    (sorted : SortedLists problem) (bound : aliasId < problem.aliasCount) (boundary : Nat) :
    shifted boundary ∈ facts.productionBoundaries aliasId ↔
      producedAt problem aliasId boundary = true := by
  rw [describes.productions aliasId bound, producedAt_iff sorted]
  simp [shifted]

/-- The spans have the same future accesses. -/
theorem Describes.futureAccess (describes : Describes facts problem deviceId)
    (sorted : SortedLists problem) (bound : aliasId < problem.aliasCount) (span : Interval) :
    hasFutureAccess facts aliasId (toSpan span) (shifted span.finish) ↔
      spanAccessedAfter problem aliasId span.start span.finish
        ((span.finish : Int) - 1) = true := by
  rw [spanAccessedAfter_iff sorted]
  constructor
  · rintro ⟨event, mem, later, lower, upper⟩
    obtain ⟨_, _, anchor, anchorMem, here⟩ := describes.accessed aliasId bound event mem
    obtain ⟨latest, isLatest, above⟩ := (describes.accesses aliasId bound anchor
      anchorMem).latestBound event.2 (by rw [here]; exact mem)
    refine ⟨anchor, anchorMem, ?_, ?_, ?_⟩
    · simp only [toSpan, shifted] at lower here
      omega
    · simp only [toSpan, shifted] at upper here
      omega
    · simp only [Anchor.accessedAfter, Option.any_eq_true, decide_eq_true_eq]
      refine ⟨latest, isLatest, ?_⟩
      simp only [shifted] at later
      omega
  · rintro ⟨anchor, anchorMem, lower, upper, accessed⟩
    simp only [Anchor.accessedAfter, Option.any_eq_true, decide_eq_true_eq] at accessed
    obtain ⟨latest, isLatest, later⟩ := accessed
    have event := (describes.accesses aliasId bound anchor anchorMem).latestMem latest isLatest
    refine ⟨_, event, later, ?_, ?_⟩
    · simp only [toSpan, shifted]
      omega
    · simp only [toSpan, shifted]
      omega

/-- The reference charges a span at the boundaries the problem does. -/
theorem Describes.chargedSpan_eq (describes : Describes facts problem deviceId)
    (sorted : SortedLists problem) (bound : aliasId < problem.aliasCount) (span : Interval) :
    chargedSpan facts fetchHeadroom aliasId (toSpan span) =
      let charge := chargeSpan problem fetchHeadroom aliasId span
      if charge.finish < charge.start then none else some (toSpan charge) := by
  have starts : (if fetchHeadroom = true ∧ (toSpan span).start > -1 ∧
        (toSpan span).start ∉ facts.productionBoundaries aliasId then (toSpan span).start - 1
      else (toSpan span).start) =
      shifted (chargeSpan problem fetchHeadroom aliasId span).start := by
    have produced := describes.produced sorted bound span.start
    have same : (fetchHeadroom = true ∧ (toSpan span).start > -1 ∧
        (toSpan span).start ∉ facts.productionBoundaries aliasId) ↔
        (fetchHeadroom = true ∧ span.start > 0 ∧
          ¬ producedAt problem aliasId span.start = true) := by
      rw [← produced]
      simp only [toSpan, shifted]
      constructor
      · rintro ⟨headroom, late, fresh⟩
        exact ⟨headroom, by omega, fresh⟩
      · rintro ⟨headroom, late, fresh⟩
        exact ⟨headroom, by omega, fresh⟩
    simp only [chargeSpan]
    by_cases headroom : fetchHeadroom = true ∧ span.start > 0 ∧
        ¬ producedAt problem aliasId span.start = true
    · rw [if_pos (same.2 headroom), if_pos headroom]
      simp only [toSpan, shifted]
      omega
    · rw [if_neg (fun holds => headroom (same.1 holds)), if_neg headroom]
      rfl
  have finishes : (if (toSpan span).finish ≥ 0 ∧ facts.finalLocations aliasId ≠ some .device ∧
        ¬ hasFutureAccess facts aliasId (toSpan span) (toSpan span).finish then
        (toSpan span).finish - 1
      else (toSpan span).finish) =
      shifted (chargeSpan problem fetchHeadroom aliasId span).finish := by
    have future := describes.futureAccess sorted bound span
    have same : ((toSpan span).finish ≥ 0 ∧ facts.finalLocations aliasId ≠ some .device ∧
        ¬ hasFutureAccess facts aliasId (toSpan span) (toSpan span).finish) ↔
        (1 ≤ span.finish ∧ problem.finalLocation aliasId ≠ some .device ∧
          ¬ spanAccessedAfter problem aliasId span.start span.finish
            ((span.finish : Int) - 1) = true) := by
      rw [← future, describes.finalLocations aliasId bound]
      simp only [toSpan, shifted]
      constructor
      · rintro ⟨late, leaves, unread⟩
        exact ⟨by omega, leaves, unread⟩
      · rintro ⟨late, leaves, unread⟩
        exact ⟨by omega, leaves, unread⟩
    simp only [chargeSpan]
    by_cases drops : 1 ≤ span.finish ∧ problem.finalLocation aliasId ≠ some .device ∧
        ¬ spanAccessedAfter problem aliasId span.start span.finish
          ((span.finish : Int) - 1) = true
    · rw [if_pos (same.2 drops), if_pos drops]
      simp only [toSpan, shifted]
      omega
    · rw [if_neg (fun holds => drops (same.1 holds)), if_neg drops]
      rfl
  unfold chargedSpan
  simp only
  rw [starts, finishes]
  by_cases empty : (chargeSpan problem fetchHeadroom aliasId span).finish <
      (chargeSpan problem fetchHeadroom aliasId span).start
  · rw [if_pos empty, if_pos (by simp only [shifted]; omega)]
  · rw [if_neg empty, if_neg (by simp only [shifted]; omega)]
    rfl

/-- The charged spans of the reference hold the boundaries the problem charges. -/
theorem Describes.charged_any (describes : Describes facts problem deviceId)
    (sorted : SortedLists problem) (bound : aliasId < problem.aliasCount)
    (spans : List Interval) (boundary : Nat) :
    ((chargedSpans facts fetchHeadroom aliasId (spans.map toSpan)).any fun span =>
        span.contains (shifted boundary)) = true ↔
      ∃ span ∈ spans, (chargeSpan problem fetchHeadroom aliasId span).Contains boundary := by
  simp only [chargedSpans, List.any_eq_true, List.mem_filterMap, List.mem_map,
    exists_exists_and_eq_and, describes.chargedSpan_eq sorted bound]
  constructor
  · rintro ⟨charged, ⟨span, mem, isCharged⟩, contains⟩
    split_ifs at isCharged with empty
    obtain rfl := Option.some.inj isCharged
    exact ⟨span, mem, (toSpan_contains _ _).1 contains⟩
  · rintro ⟨span, mem, contains⟩
    refine ⟨_, ⟨span, mem, if_neg ?_⟩, (toSpan_contains _ _).2 contains⟩
    have lower := contains.1
    have upper := contains.2
    omega

/-- An alias contributes to a boundary of the reference where it is charged. -/
theorem Describes.contributes_iff (describes : Describes facts problem deviceId)
    (sorted : SortedLists problem) (bound : aliasId < problem.aliasCount)
    {spans : Nat → List Interval} (ascending : Ascending (spans aliasId)) (boundary : Nat) :
    contributes facts fetchHeadroom aliasId ((spans aliasId).map toSpan) boundary = true ↔
      chargedAt problem fetchHeadroom spans aliasId boundary = true := by
  rw [chargedAt_iff sorted ascending, ← describes.charged_any sorted bound,
    describes.reservations aliasId bound]
  unfold contributes
  simp only [Bool.or_eq_true, Bool.and_eq_true, decide_eq_true_eq, shifted]
  exact or_comm

end Charges

/-! ## The pressure of the seed -/

section Pressure

variable {facts : PlanningFacts} {problem : ResidencyProblem} {deviceId : Nat → String}
  {fetchHeadroom : Bool}

theorem list_sum_range {M : Type} [AddCommMonoid M] (count : Nat) (term : Nat → M) :
    ((List.range count).map term).sum = ∑ index ∈ Finset.range count, term index := rfl

/-- The differences of one interval sum to its size inside it. -/
theorem sum_interval (size : Int) (interval : Span) (valid : interval.start ≤ interval.finish)
    (first : -1 ≤ interval.start) (index : Nat) :
    (∑ place ∈ Finset.range (index + 1),
      ((if interval.start + 1 = (place : Int) then size else 0) -
        if interval.finish + 1 + 1 = (place : Int) then size else 0)) =
      if interval.contains (shifted index) = true then size else 0 := by
  have single : ∀ point : Int, 0 ≤ point →
      (∑ place ∈ Finset.range (index + 1), if point = (place : Int) then size else 0) =
        if point ≤ index then size else 0 := by
    intro point nonneg
    obtain ⟨natural, rfl⟩ := Int.eq_ofNat_of_zero_le nonneg
    simp only [Nat.cast_inj, Finset.sum_ite_eq, Finset.mem_range, Nat.cast_le]
    exact if_congr (by omega) rfl rfl
  rw [Finset.sum_sub_distrib, single _ (by omega), single _ (by omega)]
  unfold Span.contains
  simp only [shifted, Bool.and_eq_true, decide_eq_true_eq]
  by_cases began : interval.start + 1 ≤ index
  · by_cases ended : interval.finish + 1 + 1 ≤ index
    · rw [if_pos began, if_pos ended, if_neg (by omega), sub_self]
    · rw [if_pos began, if_neg ended, if_pos (by omega), sub_zero]
  · rw [if_neg began, if_neg (by omega), if_neg (by omega), sub_zero]

/-- The running sums count an alias with one span where it is charged. -/
theorem sum_differenceAt {plan : ResidencyPlan}
    (single : ∀ aliasId < facts.aliasCount,
      (chargedSpans facts fetchHeadroom aliasId (plan aliasId)).length ≤ 1)
    (valid : ∀ aliasId < facts.aliasCount,
      ∀ span ∈ chargedSpans facts fetchHeadroom aliasId (plan aliasId),
        span.start ≤ span.finish ∧ -1 ≤ span.start) (device : String) (index : Nat) :
    ((List.range (index + 1)).map (differenceAt facts fetchHeadroom plan device)).sum =
      ∑ aliasId ∈ Finset.range facts.aliasCount,
        if facts.aliasDevices aliasId = device ∧
            (chargedSpans facts fetchHeadroom aliasId (plan aliasId)).any
              (fun span => span.contains (shifted index)) = true then
          (facts.aliasSizes aliasId : Int)
        else 0 := by
  rw [list_sum_range]
  unfold differenceAt
  simp only [list_sum_range]
  rw [Finset.sum_comm]
  apply Finset.sum_congr rfl
  intro aliasId mem
  have few := single aliasId (Finset.mem_range.1 mem)
  have inside := valid aliasId (Finset.mem_range.1 mem)
  by_cases here : facts.aliasDevices aliasId = device
  · simp only [here, if_true, true_and]
    generalize chargedSpans facts fetchHeadroom aliasId (plan aliasId) = charged at few inside
    cases charged with
    | nil => simp
    | cons span rest =>
        obtain rfl : rest = [] := by
          cases rest with
          | nil => rfl
          | cons _ _ => simp at few
        obtain ⟨ordered, first⟩ := inside span (by simp)
        simp only [List.map_cons, List.map_nil, List.sum_cons, List.sum_nil, add_zero,
          List.any_cons, List.any_nil, Bool.or_false]
        exact sum_interval _ span ordered first index
  · simp [here]

/-- The sweep of the reference over a seed sums the bytes charged. -/
theorem Describes.pressureByDevice_eq (describes : Describes facts problem deviceId)
    (sorted : SortedLists problem) (eligible : ∀ aliasId, problem.mayCut aliasId = true)
    {spans : Nat → List Interval} (ascending : ∀ aliasId, Ascending (spans aliasId))
    (single : ∀ aliasId, (spans aliasId).length ≤ 1) {plan : ResidencyPlan}
    (same : ∀ aliasId < problem.aliasCount, plan aliasId = (spans aliasId).map toSpan)
    {device index : Nat} (deviceBound : device < problem.deviceCount) :
    pressureByDevice facts fetchHeadroom plan (deviceId device) index =
      chargeBytes problem fetchHeadroom spans device index := by
  have count := describes.aliasCount
  have few : ∀ aliasId < facts.aliasCount,
      (chargedSpans facts fetchHeadroom aliasId (plan aliasId)).length ≤ 1 := by
    intro aliasId bound
    rw [same aliasId (count ▸ bound)]
    exact le_trans (List.length_filterMap_le _ _) (by simpa using single aliasId)
  have valid : ∀ aliasId < facts.aliasCount,
      ∀ span ∈ chargedSpans facts fetchHeadroom aliasId (plan aliasId),
        span.start ≤ span.finish ∧ -1 ≤ span.start := by
    intro aliasId bound span mem
    rw [same aliasId (count ▸ bound)] at mem
    obtain ⟨_, origin, isCharged⟩ := List.mem_filterMap.1 mem
    obtain ⟨interval, _, rfl⟩ := List.mem_map.1 origin
    rw [describes.chargedSpan_eq sorted (count ▸ bound)] at isCharged
    simp only at isCharged
    split_ifs at isCharged with empty
    obtain rfl := Option.some.inj isCharged
    simp only [toSpan, shifted]
    omega
  have reserved : (if index < facts.taskCount then
      ((facts.outputReservations index).map fun aliasId =>
        if facts.aliasDevices aliasId = deviceId device ∧
            ¬ ((chargedSpans facts fetchHeadroom aliasId (plan aliasId)).any fun span =>
              span.contains ((index : Int) - 1)) = true then (facts.aliasSizes aliasId : Int)
        else 0).sum
    else 0) = ∑ aliasId ∈ Finset.range facts.aliasCount,
      if facts.aliasDevices aliasId = deviceId device ∧
          (index < facts.taskCount ∧ aliasId ∈ facts.outputReservations index) ∧
          ¬ ((chargedSpans facts fetchHeadroom aliasId (plan aliasId)).any fun span =>
            span.contains (shifted index)) = true then (facts.aliasSizes aliasId : Int)
      else 0 := by
    by_cases inside : index < facts.taskCount
    · obtain ⟨nodup, within⟩ := describes.reservedAliases index inside
      rw [if_pos inside, ← List.sum_toFinset _ nodup]
      have subset : (facts.outputReservations index).toFinset ⊆
          Finset.range facts.aliasCount := by
        intro aliasId mem
        rw [count]
        exact Finset.mem_range.2 (within aliasId (List.mem_toFinset.1 mem))
      rw [← Finset.sum_subset subset]
      · apply Finset.sum_congr rfl
        intro aliasId mem
        apply if_congr _ rfl rfl
        simp [inside, List.mem_toFinset.1 mem, shifted]
      · intro aliasId _ absent
        rw [if_neg]
        rintro ⟨_, ⟨_, mem⟩, _⟩
        exact absent (List.mem_toFinset.2 mem)
    · rw [if_neg inside]
      symm
      apply Finset.sum_eq_zero
      intro aliasId _
      rw [if_neg (fun holds => inside holds.2.1.1)]
  unfold pressureByDevice chargeBytes
  rw [sum_differenceAt few valid, reserved, ← Finset.sum_add_distrib, list_sum_range,
    Nat.cast_sum, count]
  apply Finset.sum_congr rfl
  intro aliasId mem
  have bound := Finset.mem_range.1 mem
  obtain ⟨owned, name⟩ := describes.aliasDevices aliasId bound
  have device_iff : facts.aliasDevices aliasId = deviceId device ↔
      problem.aliasDevice aliasId = device := by
    rw [name]
    constructor
    · exact describes.distinct _ owned _ deviceBound
    · rintro rfl
      rfl
  have charges := @Describes.contributes_iff facts problem deviceId fetchHeadroom aliasId
    describes sorted bound spans (ascending aliasId) index
  rw [← same aliasId bound] at charges
  unfold contributes at charges
  simp only [Bool.or_eq_true, Bool.and_eq_true, decide_eq_true_eq] at charges
  have borne : bears problem fetchHeadroom spans device index aliasId = true ↔
      facts.aliasDevices aliasId = deviceId device ∧
        ((index < facts.taskCount ∧ aliasId ∈ facts.outputReservations index) ∨
          (chargedSpans facts fetchHeadroom aliasId (plan aliasId)).any
            (fun span => span.contains (shifted index)) = true) := by
    rw [device_iff, charges]
    simp [bears, eligible aliasId]
  rw [describes.sizes aliasId bound]
  by_cases here : facts.aliasDevices aliasId = deviceId device
  · by_cases held : (chargedSpans facts fetchHeadroom aliasId (plan aliasId)).any
        (fun span => span.contains (shifted index)) = true
    · rw [if_pos ⟨here, held⟩, if_neg (fun holds => holds.2.2 held), add_zero,
        if_pos (borne.2 ⟨here, Or.inr held⟩)]
    · rw [if_neg (fun holds => held holds.2), zero_add]
      by_cases kept : index < facts.taskCount ∧ aliasId ∈ facts.outputReservations index
      · rw [if_pos ⟨here, kept, held⟩, if_pos (borne.2 ⟨here, Or.inl kept⟩)]
      · rw [if_neg (fun holds => kept holds.2.1), if_neg]
        · rfl
        · intro isBorne
          rcases (borne.1 isBorne).2 with reserves | charged
          · exact kept reserves
          · exact held charged
  · rw [if_neg (fun holds => here holds.1), if_neg (fun holds => here holds.1),
      if_neg (fun isBorne => here (borne.1 isBorne).1)]
    rfl

end Pressure

end ShadowSpill.Reference.ResidencyFacts
