import ShadowSpill.Status
import ShadowSpill.Planner.Residency.Spans

/-!
# The required floor

The residency no plan may go below: every alias at its anchors, and at the
boundaries it reserves.  The floor is compared with the capacity of every
boundary before any search.
-/

namespace ShadowSpill.Planner.Residency.Floor

open ShadowSpill Library Library.Intervals Problem Spans

/-- `required_bytes`, by device and boundary. -/
abbrev Required := Nat → Nat → Nat

/-- An anchor's boundary is charged whatever follows it. -/
def contributes (problem : ResidencyProblem) (aliasId : Nat) (anchor : Anchor) : Bool :=
  anchor.position = 0 || problem.finalLocation aliasId = some .device ||
    anchor.latest.any (· > anchor.position - 1)

/-- The boundaries of the anchors the floor charges. -/
def chargedAnchors (problem : ResidencyProblem) (aliasId : Nat) : List Nat :=
  ((problem.anchors aliasId).filter (contributes problem aliasId)).map Anchor.position

/-- The reserved boundaries at which no charged anchor lies. -/
def unchargedReservations (problem : ResidencyProblem) (aliasId : Nat) : List Nat :=
  (problem.reservedPositions aliasId).filter fun task =>
    ¬ (anchorAt problem aliasId task).any (contributes problem aliasId)

/-- Add a size to one boundary's required bytes. -/
def addRequired (required : Required) (device position size : Nat) : Option Required :=
  (addU64 (required device position) size).map fun sum =>
    Function.update required device (Function.update (required device) position sum)

/-- Add an alias at each of its boundaries. -/
def requireAt (problem : ResidencyProblem) (aliasId : Nat) (positions : List Nat)
    (required : Required) : Option Required :=
  positions.foldlM (fun required position =>
    addRequired required (problem.aliasDevice aliasId) position
      (problem.aliasSizeBytes aliasId)) required

/-- Add every alias that may be cut at its boundaries. -/
def requireAll (problem : ResidencyProblem) (positions : Nat → List Nat)
    (required : Required) : Option Required :=
  (List.range problem.aliasCount).foldlM (fun required aliasId =>
    if ¬ problem.mayCut aliasId then some required
    else requireAt problem aliasId (positions aliasId) required) required

/-- The floor, or nothing when a sum leaves 64 bits. -/
def requiredBytes (problem : ResidencyProblem) : Option Required := do
  let required ← requireAll problem (chargedAnchors problem) fun _ _ => 0
  requireAll problem (unchargedReservations problem) required

/-- What a refusal reports. -/
structure CapacityError where
  device : Nat
  boundary : Nat
  requiredBytes : Nat
  capacityBytes : Nat
deriving DecidableEq, Repr

/-- The first boundary, by device, whose floor exceeds its capacity. -/
def firstShortage (problem : ResidencyProblem) (required : Required) :
    Option CapacityError :=
  (List.range problem.deviceCount).findSome? fun device =>
    (List.range problem.boundaryCount).findSome? fun position =>
      if required device position > problem.boundaryCapacityBytes device position then
        some ⟨device, position, required device position,
          problem.boundaryCapacityBytes device position⟩
      else none

/-- `shadowspill_problem_validate_required_floor`. -/
def validateRequiredFloor (problem : ResidencyProblem) : Status × Option CapacityError :=
  match requiredBytes problem with
  | none => (.invalidArgument, none)
  | some required =>
      match firstShortage problem required with
      | none => (.ok, none)
      | some shortage => (.analyticInfeasible, some shortage)

/-! ## What the floor adds up to -/

section Sums

variable {problem : ResidencyProblem} {required total : Required}
  {device position : Nat}

theorem addRequired_eq {size : Nat} {cell : Nat × Nat}
    (added : addRequired required cell.1 cell.2 size = some total) :
    total device position =
      required device position + if cell = (device, position) then size else 0 := by
  obtain ⟨sum, fits, rfl⟩ := Option.map_eq_some_iff.1 added
  rw [addU64_eq] at fits
  split_ifs at fits with small
  cases fits
  by_cases here : cell = (device, position)
  · rw [if_pos here]
    subst here
    simp
  · rw [if_neg here, Nat.add_zero]
    by_cases sameDevice : device = cell.1
    · have otherPosition : position ≠ cell.2 := by
        rintro rfl
        exact here (Prod.ext sameDevice.symm rfl)
      subst sameDevice
      simp [Function.update_of_ne otherPosition]
    · simp [Function.update_of_ne sameDevice]

/-- Every required sum fits in a word. -/
def WithinWord (required : Required) : Prop :=
  ∀ device boundary, required device boundary < Word64.modulus

theorem addRequired_within (within : WithinWord required) {size : Nat}
    (added : addRequired required device position size = some total) :
    WithinWord total := by
  obtain ⟨sum, fits, rfl⟩ := Option.map_eq_some_iff.1 added
  rw [addU64_eq] at fits
  split_ifs at fits with small
  cases fits
  intro otherDevice otherPosition
  by_cases sameDevice : otherDevice = device
  · subst sameDevice
    by_cases samePosition : otherPosition = position
    · subst samePosition
      simpa using small
    · simpa [Function.update_of_ne samePosition] using within otherDevice otherPosition
  · simpa [Function.update_of_ne sameDevice] using within otherDevice otherPosition

theorem requireAt_within (within : WithinWord required) {aliasId : Nat}
    {positions : List Nat}
    (added : requireAt problem aliasId positions required = some total) :
    WithinWord total := by
  induction positions generalizing required with
  | nil =>
      obtain rfl := Option.some.inj added
      exact within
  | cons first rest ih =>
      rw [requireAt, List.foldlM_cons] at added
      obtain ⟨middle, step, later⟩ := Option.bind_eq_some_iff.1 added
      exact ih (addRequired_within within step) later

theorem requireAll_within (within : WithinWord required) {positions : Nat → List Nat}
    (added : requireAll problem positions required = some total) : WithinWord total := by
  unfold requireAll at added
  generalize List.range problem.aliasCount = aliases at added
  induction aliases generalizing required with
  | nil =>
      obtain rfl := Option.some.inj added
      exact within
  | cons aliasId rest ih =>
      rw [List.foldlM_cons] at added
      obtain ⟨middle, step, later⟩ := Option.bind_eq_some_iff.1 added
      apply ih _ later
      by_cases eligible : problem.mayCut aliasId = true
      · rw [if_neg (not_not.2 eligible)] at step
        exact requireAt_within within step
      · rw [if_pos eligible] at step
        obtain rfl := Option.some.inj step
        exact within

theorem requiredBytes_within (computed : requiredBytes problem = some required) :
    WithinWord required := by
  obtain ⟨anchored, first, second⟩ := Option.bind_eq_some_iff.1 computed
  have zero : WithinWord fun _ _ => 0 := fun _ _ => Nat.two_pow_pos 64
  exact requireAll_within (requireAll_within zero first) second

theorem requireAt_eq {aliasId : Nat} {positions : List Nat}
    (added : requireAt problem aliasId positions required = some total) :
    total device position =
      required device position +
        if problem.aliasDevice aliasId = device then
          positions.count position * problem.aliasSizeBytes aliasId
        else 0 := by
  induction positions generalizing required with
  | nil =>
      obtain rfl := Option.some.inj added
      simp
  | cons first rest ih =>
      rw [requireAt, List.foldlM_cons] at added
      obtain ⟨middle, step, later⟩ := Option.bind_eq_some_iff.1 added
      rw [ih later, @addRequired_eq required middle device position _
        (problem.aliasDevice aliasId, first) step, List.count_cons]
      simp only [Prod.mk.injEq]
      by_cases here : problem.aliasDevice aliasId = device
      · by_cases same : first = position
        · simp only [here, same, and_self, if_true, beq_self_eq_true]
          ring
        · simp [here, same]
      · simp [here]

theorem requireAll_eq {positions : Nat → List Nat}
    (added : requireAll problem positions required = some total) :
    total device position =
      required device position + ((List.range problem.aliasCount).map fun aliasId =>
        if problem.aliasDevice aliasId = device ∧ problem.mayCut aliasId = true then
          (positions aliasId).count position * problem.aliasSizeBytes aliasId
        else 0).sum := by
  unfold requireAll at added
  generalize List.range problem.aliasCount = aliases at added ⊢
  induction aliases generalizing required with
  | nil =>
      obtain rfl := Option.some.inj added
      simp
  | cons aliasId rest ih =>
      rw [List.foldlM_cons] at added
      obtain ⟨middle, step, later⟩ := Option.bind_eq_some_iff.1 added
      rw [ih later, List.map_cons, List.sum_cons, ← Nat.add_assoc]
      congr 1
      by_cases eligible : problem.mayCut aliasId = true
      · rw [if_neg (not_not.2 eligible)] at step
        rw [requireAt_eq step]
        simp [eligible]
      · rw [if_pos eligible] at step
        obtain rfl := Option.some.inj step
        simp [eligible]

/-- Where no sum leaves 64 bits, an alias is added at all its boundaries. -/
theorem requireAt_isSome {aliasId : Nat} {positions : List Nat}
    (fits : ∀ device position, required device position +
      (if problem.aliasDevice aliasId = device then
        positions.count position * problem.aliasSizeBytes aliasId
      else 0) < Word64.modulus) :
    ∃ total, requireAt problem aliasId positions required = some total := by
  induction positions generalizing required with
  | nil => exact ⟨required, rfl⟩
  | cons first rest ih =>
      have here := fits (problem.aliasDevice aliasId) first
      rw [if_pos rfl, List.count_cons_self, Nat.add_mul, Nat.one_mul] at here
      obtain ⟨middle, step⟩ : ∃ middle, addRequired required
          (problem.aliasDevice aliasId) first (problem.aliasSizeBytes aliasId) =
            some middle := by
        rw [addRequired, addU64_eq, if_pos (by omega)]
        exact ⟨_, rfl⟩
      rw [requireAt, List.foldlM_cons, step]
      refine ih fun device position => ?_
      have sum := fits device position
      rw [@addRequired_eq required middle device position _
        (problem.aliasDevice aliasId, first) step]
      rw [List.count_cons] at sum
      simp only [Prod.mk.injEq]
      by_cases onDevice : problem.aliasDevice aliasId = device
      · by_cases same : first = position
        · simp only [onDevice, same, and_self, if_true, beq_self_eq_true,
            Nat.add_mul, Nat.one_mul] at sum ⊢
          omega
        · simpa [onDevice, same] using sum
      · simpa [onDevice] using sum

/-- Where no sum leaves 64 bits, every alias is added. -/
theorem requireAll_isSome {positions : Nat → List Nat}
    (fits : ∀ device position, required device position +
      ((List.range problem.aliasCount).map fun aliasId =>
        if problem.aliasDevice aliasId = device ∧ problem.mayCut aliasId = true then
          (positions aliasId).count position * problem.aliasSizeBytes aliasId
        else 0).sum < Word64.modulus) :
    ∃ total, requireAll problem positions required = some total := by
  unfold requireAll
  generalize List.range problem.aliasCount = aliases at fits ⊢
  induction aliases generalizing required with
  | nil => exact ⟨required, rfl⟩
  | cons aliasId rest ih =>
      simp only [List.map_cons, List.sum_cons] at fits
      rw [List.foldlM_cons]
      by_cases eligible : problem.mayCut aliasId = true
      · simp only [eligible, and_true] at fits
        obtain ⟨middle, step⟩ := @requireAt_isSome problem required aliasId
          (positions aliasId) fun device position => by
            have sum := fits device position
            omega
        rw [if_neg (not_not.2 eligible), step]
        refine ih fun device position => ?_
        have sum := fits device position
        rw [requireAt_eq step]
        omega
      · rw [if_pos eligible]
        refine ih fun device position => ?_
        have sum := fits device position
        omega

end Sums

/-! ## The boundaries the floor charges -/

section Charges

variable {problem : ResidencyProblem} {aliasId boundary : Nat}

/-- The floor charges an alias at a boundary. -/
def FloorCharges (problem : ResidencyProblem) (aliasId boundary : Nat) : Prop :=
  boundary ∈ chargedAnchors problem aliasId ∨
    boundary ∈ problem.reservedPositions aliasId

instance : Decidable (FloorCharges problem aliasId boundary) :=
  inferInstanceAs (Decidable (_ ∨ _))

theorem mem_chargedAnchors :
    boundary ∈ chargedAnchors problem aliasId ↔
      ∃ anchor ∈ problem.anchors aliasId,
        anchor.position = boundary ∧ contributes problem aliasId anchor = true := by
  simp only [chargedAnchors, List.mem_map, List.mem_filter]
  constructor
  · rintro ⟨anchor, ⟨mem, charged⟩, here⟩
    exact ⟨anchor, mem, here, charged⟩
  · rintro ⟨anchor, mem, here, charged⟩
    exact ⟨anchor, ⟨mem, charged⟩, here⟩

theorem mem_unchargedReservations (sorted : SortedLists problem) :
    boundary ∈ unchargedReservations problem aliasId ↔
      boundary ∈ problem.reservedPositions aliasId ∧
        boundary ∉ chargedAnchors problem aliasId := by
  have looked : (anchorAt problem aliasId boundary).any (contributes problem aliasId) = true ↔
      boundary ∈ chargedAnchors problem aliasId := by
    rw [mem_chargedAnchors, Option.any_eq_true]
    constructor
    · rintro ⟨anchor, found, charged⟩
      obtain ⟨mem, here⟩ := (anchorAt_eq_some sorted).1 found
      exact ⟨anchor, mem, here, charged⟩
    · rintro ⟨anchor, mem, here, charged⟩
      exact ⟨anchor, (anchorAt_eq_some sorted).2 ⟨mem, here⟩, charged⟩
  simp only [unchargedReservations, List.mem_filter, decide_eq_true_eq, looked]

theorem chargedAnchors_nodup (sorted : SortedLists problem) :
    (chargedAnchors problem aliasId).Nodup := by
  have ascending := sorted.anchors aliasId
  exact (ascending.imp ne_of_lt).sublist (List.Sublist.map _ List.filter_sublist)

/-- Every boundary is counted once, reserved or not. -/
theorem count_charges (sorted : SortedLists problem) :
    (chargedAnchors problem aliasId).count boundary +
        (unchargedReservations problem aliasId).count boundary =
      if FloorCharges problem aliasId boundary then 1 else 0 := by
  have reservedNodup : (unchargedReservations problem aliasId).Nodup :=
    ((sorted.reserved aliasId).imp ne_of_lt).filter _
  rw [(chargedAnchors_nodup sorted).count, reservedNodup.count]
  simp only [mem_unchargedReservations sorted, FloorCharges]
  by_cases anchored : boundary ∈ chargedAnchors problem aliasId
  · simp [anchored]
  · simp [anchored]

/-- What the aliases the floor charges at a boundary add up to. -/
def floorSum (problem : ResidencyProblem) (device boundary : Nat) : Nat :=
  ((List.range problem.aliasCount).map fun aliasId =>
    if problem.aliasDevice aliasId = device ∧ problem.mayCut aliasId = true ∧
        FloorCharges problem aliasId boundary then
      problem.aliasSizeBytes aliasId
    else 0).sum

/-- It is what the two passes add. -/
theorem floorSum_eq (sorted : SortedLists problem) (device : Nat) :
    floorSum problem device boundary =
      ((List.range problem.aliasCount).map fun aliasId =>
        if problem.aliasDevice aliasId = device ∧ problem.mayCut aliasId = true then
          (chargedAnchors problem aliasId).count boundary *
            problem.aliasSizeBytes aliasId
        else 0).sum +
      ((List.range problem.aliasCount).map fun aliasId =>
        if problem.aliasDevice aliasId = device ∧ problem.mayCut aliasId = true then
          (unchargedReservations problem aliasId).count boundary *
            problem.aliasSizeBytes aliasId
        else 0).sum := by
  rw [floorSum, ← List.sum_map_add]
  congr 1
  apply List.map_congr_left
  intro aliasId _
  by_cases counted : problem.aliasDevice aliasId = device ∧ problem.mayCut aliasId = true
  · rw [if_pos counted, if_pos counted, ← Nat.add_mul, count_charges sorted]
    by_cases charges : FloorCharges problem aliasId boundary
    · simp [counted, charges]
    · simp [charges]
  · rw [if_neg counted, if_neg counted, if_neg (fun all => counted ⟨all.1, all.2.1⟩)]

/-- The floor of a boundary is the sum of the aliases it charges there. -/
theorem requiredBytes_eq (sorted : SortedLists problem) {required : Required}
    (computed : requiredBytes problem = some required) (device : Nat) :
    required device boundary = floorSum problem device boundary := by
  obtain ⟨anchored, first, second⟩ := Option.bind_eq_some_iff.1 computed
  rw [requireAll_eq second, requireAll_eq first, Nat.zero_add, floorSum_eq sorted]

/-- There is no floor exactly where a sum leaves 64 bits. -/
theorem requiredBytes_eq_none (sorted : SortedLists problem) :
    requiredBytes problem = none ↔
      ∃ device boundary, Word64.modulus ≤ floorSum problem device boundary := by
  constructor
  · intro refused
    by_contra within
    simp only [not_exists, not_le] at within
    obtain ⟨anchored, first⟩ := @requireAll_isSome problem (fun _ _ => 0)
      (chargedAnchors problem) fun device position => by
        have sum := within device position
        rw [floorSum_eq sorted] at sum
        omega
    obtain ⟨required, second⟩ := @requireAll_isSome problem anchored
      (unchargedReservations problem) fun device position => by
        have sum := within device position
        rw [floorSum_eq sorted] at sum
        rw [requireAll_eq first]
        omega
    rw [requiredBytes, first, Option.bind_eq_bind, Option.bind_some, second] at refused
    cases refused
  · rintro ⟨device, boundary, beyond⟩
    cases computed : requiredBytes problem with
    | none => rfl
    | some required =>
        have within := requiredBytes_within computed device boundary
        rw [requiredBytes_eq sorted computed] at within
        omega

end Charges

/-! ## The floor under the residencies -/

/-- The residency holds every alias that may be cut at its anchors. -/
def KeepsAnchors (problem : ResidencyProblem) (spans : Nat → List Interval) : Prop :=
  ∀ aliasId, problem.mayCut aliasId = true →
    ∀ anchor ∈ problem.anchors aliasId, Covers (spans aliasId) anchor.position

/-- Every alias exactly at its anchors, one span an anchor. -/
def anchorSpans (problem : ResidencyProblem) (aliasId : Nat) : List Interval :=
  (problem.anchors aliasId).map fun anchor => ⟨anchor.position, anchor.position⟩

section Bound

variable {problem : ResidencyProblem} {aliasId boundary : Nat} {fetchHeadroom : Bool}

/-- A charged anchor is charged in every span that holds it. -/
theorem chargeSpan_contains (sorted : SortedLists problem) {anchor : Anchor}
    {span : Interval} (mem : anchor ∈ problem.anchors aliasId)
    (charged : contributes problem aliasId anchor = true)
    (holds : span.Contains anchor.position) :
    (chargeSpan problem fetchHeadroom aliasId span).Contains anchor.position := by
  refine ⟨le_trans (chargeSpan_start_le span) holds.1, ?_⟩
  simp only [chargeSpan]
  split_ifs with dropped
  · obtain ⟨positive, leaves, unread⟩ := dropped
    by_contra last
    have atEnd : span.finish = anchor.position := by
      have upper := holds.2
      omega
    apply unread
    apply (spanAccessedAfter_iff sorted).2 ⟨anchor, mem, holds.1, holds.2, ?_⟩
    simp only [contributes, Bool.or_eq_true, decide_eq_true_eq, Option.any_eq_true]
      at charged
    rcases charged with (first | stays) | ⟨task, found, later⟩
    · omega
    · exact absurd stays leaves
    · simp only [Anchor.accessedAfter, Option.any_eq_true, decide_eq_true_eq]
      exact ⟨task, found, by omega⟩
  · exact holds.2

/-- A residency that keeps the anchors is charged wherever the floor is. -/
theorem FloorCharges.charged (sorted : SortedLists problem)
    {spans : Nat → List Interval} (ascending : Ascending (spans aliasId))
    (keeps : ∀ anchor ∈ problem.anchors aliasId, Covers (spans aliasId) anchor.position)
    (charges : FloorCharges problem aliasId boundary) :
    chargedAt problem fetchHeadroom spans aliasId boundary = true := by
  apply (chargedAt_iff sorted ascending).2
  rcases charges with anchored | reserved
  · obtain ⟨anchor, mem, rfl, charged⟩ := mem_chargedAnchors.1 anchored
    obtain ⟨span, held, holds⟩ := keeps anchor mem
    exact Or.inl ⟨span, held, chargeSpan_contains sorted mem charged holds⟩
  · exact Or.inr reserved

theorem anchorSpans_ascending (sorted : SortedLists problem) :
    Ascending (anchorSpans problem aliasId) := by
  constructor
  · intro span mem
    obtain ⟨anchor, _, rfl⟩ := List.mem_map.1 mem
    exact le_rfl
  · apply List.pairwise_map.2
    exact List.pairwise_map.1 (sorted.anchors aliasId)

/-- The anchors alone are charged only where the floor is. -/
theorem anchorSpans_charged (sorted : SortedLists problem)
    {spans : Nat → List Interval} (exactly : spans aliasId = anchorSpans problem aliasId) :
    chargedAt problem false spans aliasId boundary = true ↔
      FloorCharges problem aliasId boundary := by
  have ascending : Ascending (spans aliasId) := by
    rw [exactly]
    exact anchorSpans_ascending sorted
  constructor
  · intro charged
    rcases (chargedAt_iff sorted ascending).1 charged with ⟨span, mem, contains⟩ | reserved
    · left
      rw [exactly] at mem
      obtain ⟨anchor, anchored, rfl⟩ := List.mem_map.1 mem
      obtain ⟨lower, upper⟩ := contains
      simp only [chargeSpan, Bool.false_eq_true, false_and, if_false] at lower upper
      have here : anchor.position = boundary := by
        split_ifs at upper <;> omega
      apply mem_chargedAnchors.2 ⟨anchor, anchored, here, ?_⟩
      split_ifs at upper with dropped
      · omega
      · simp only [contributes, Bool.or_eq_true, decide_eq_true_eq, Option.any_eq_true]
        by_cases first : anchor.position = 0
        · exact Or.inl (Or.inl first)
        · by_cases stays : problem.finalLocation aliasId = some .device
          · exact Or.inl (Or.inr stays)
          · right
            have read : spanAccessedAfter problem aliasId anchor.position
                anchor.position ((anchor.position : Int) - 1) = true := by
              by_contra unread
              exact dropped ⟨by omega, stays, unread⟩
            obtain ⟨other, otherMem, above, below, accessed⟩ :=
              (spanAccessedAfter_iff sorted).1 read
            have same : other = anchor :=
              List.inj_on_of_nodup_map ((sorted.anchors aliasId).imp ne_of_lt)
                otherMem anchored (le_antisymm below above)
            subst same
            simp only [Anchor.accessedAfter, Option.any_eq_true, decide_eq_true_eq]
              at accessed
            obtain ⟨task, found, later⟩ := accessed
            exact ⟨task, found, by omega⟩
    · exact Or.inr reserved
  · intro charges
    apply charges.charged sorted ascending
    intro anchor mem
    rw [exactly]
    exact ⟨_, List.mem_map_of_mem mem, le_rfl, le_rfl⟩

/-- The floor bounds the charge of every residency that keeps the anchors. -/
theorem requiredBytes_le (sorted : SortedLists problem) {required : Required}
    (computed : requiredBytes problem = some required) {spans : Nat → List Interval}
    (ascending : ∀ aliasId, Ascending (spans aliasId))
    (keeps : KeepsAnchors problem spans) (device : Nat) :
    required device boundary ≤
      chargeBytes problem fetchHeadroom spans device boundary := by
  rw [requiredBytes_eq sorted computed, floorSum]
  apply List.sum_le_sum
  intro aliasId _
  by_cases charges : problem.aliasDevice aliasId = device ∧
      problem.mayCut aliasId = true ∧ FloorCharges problem aliasId boundary
  · have charged := @FloorCharges.charged problem aliasId boundary fetchHeadroom sorted
      spans (ascending aliasId) (keeps aliasId charges.2.1) charges.2.2
    rw [if_pos charges, if_pos (by simp [bears, charges.1, charges.2.1, charged])]
  · rw [if_neg charges]
    exact Nat.zero_le _

/-- The anchors alone cost the floor. -/
theorem chargeBytes_anchors (sorted : SortedLists problem)
    {spans : Nat → List Interval}
    (exactly : ∀ aliasId, spans aliasId = anchorSpans problem aliasId) (device : Nat) :
    chargeBytes problem false spans device boundary = floorSum problem device boundary := by
  unfold chargeBytes floorSum
  congr 1
  apply List.map_congr_left
  intro aliasId _
  simp only [bears, Bool.and_eq_true, decide_eq_true_eq,
    anchorSpans_charged sorted (exactly aliasId), and_assoc]

theorem firstShortage_eq {required : Required} {shortage : CapacityError}
    (found : firstShortage problem required = some shortage) :
    shortage.device < problem.deviceCount ∧
      shortage.boundary < problem.boundaryCount ∧
      shortage.requiredBytes = required shortage.device shortage.boundary ∧
      shortage.capacityBytes =
        problem.boundaryCapacityBytes shortage.device shortage.boundary ∧
      shortage.capacityBytes < shortage.requiredBytes := by
  obtain ⟨device, deviceMem, inDevice⟩ := List.exists_of_findSome?_eq_some found
  obtain ⟨position, positionMem, here⟩ := List.exists_of_findSome?_eq_some inDevice
  split_ifs at here with short
  cases here
  exact ⟨List.mem_range.1 deviceMem, List.mem_range.1 positionMem, rfl, rfl, short⟩

/-- A floor that exceeds its capacity is found. -/
theorem firstShortage_isSome {required : Required} {device : Nat}
    (deviceBound : device < problem.deviceCount)
    (boundaryBound : boundary < problem.boundaryCount)
    (short : problem.boundaryCapacityBytes device boundary < required device boundary) :
    (firstShortage problem required).isSome := by
  simp only [firstShortage, List.findSome?_isSome_iff, List.mem_range]
  exact ⟨device, deviceBound, boundary, boundaryBound, by simp [short]⟩

end Bound

end ShadowSpill.Planner.Residency.Floor
