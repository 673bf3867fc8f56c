import ShadowSpill.Planner.Residency.ReduceRuns

/-!
# What a reduction promises

A reduction that stops with a residency keeps what the program needs and, while no
sum leaves 64 bits, fits; one that gives up has no cut left for the boundary it
reports.  The required floor lies under every residency it could reach.
-/

namespace ShadowSpill.Planner.Residency.ReduceResult

open ShadowSpill Library.Intervals Problem Spans Cuts CutLegality CutChoice Floor Reduce
open ReduceRuns

/-! ## Keeping what is needed -/

/-- A residency within a seed that still holds the anchors the seed does. -/
structure KeepsNeeded (problem : ResidencyProblem) (seed spans : Nat → List Interval) :
    Prop where
  anchors : ∀ aliasId boundary, Anchored problem aliasId boundary →
    Covers (seed aliasId) boundary → Covers (spans aliasId) boundary
  ascending : ∀ aliasId, Ascending (spans aliasId)
  contained : ∀ aliasId boundary, Covers (spans aliasId) boundary →
    Covers (seed aliasId) boundary

/-- No cut that is legal for some alias of the device takes the boundary from it. -/
def NoCutLeft (problem : ResidencyProblem) (seed spans : Nat → List Interval)
    (device boundary : Nat) : Prop :=
  ∀ aliasId < problem.aliasCount, problem.mayCut aliasId = true →
    problem.aliasDevice aliasId = device → Covers (spans aliasId) boundary →
      ∀ (other : Nat) (cut : ResidencyCut),
        candidateCut problem (seedGeometry problem seed) (spans aliasId) aliasId
          ((other : Int) - 1) = some cut → ¬ Takes cut boundary

/-- The charge of a residency and the extra pressure are within the capacity of every
boundary. -/
def FitsCapacity (problem : ResidencyProblem) (options : ReduceOptions)
    (spans : Nat → List Interval) : Prop :=
  ∀ device < problem.deviceCount, ∀ boundary < problem.boundaryCount,
    chargeBytes problem options.fetchHeadroom spans device boundary +
        options.extraPressureBytes device boundary ≤
      problem.boundaryCapacityBytes device boundary

/-- What a result says of its reduction. -/
def Promises (problem : ResidencyProblem) (options : ReduceOptions) (result : ReduceResult) :
    Prop :=
  (result.status = .ok → KeepsNeeded problem options.seed result.spans ∧
    FitsCapacity problem options result.spans) ∧
  (result.status = .analyticInfeasible → ∃ device < problem.deviceCount,
    ∃ boundary < problem.boundaryCount, result.errorDevice = some device ∧
      result.errorBoundary = some ((boundary : Int) - 1) ∧
      NoCutLeft problem options.seed result.spans device boundary)

section Results

variable {problem : ResidencyProblem} {options : ReduceOptions} {reduction : Reduction}

theorem Reached.keepsNeeded (seed : SeedSpans problem options.seed)
    (reached : Reached problem options reduction) :
    KeepsNeeded problem options.seed reduction.spans where
  anchors := by
    intro aliasId boundary anchored held
    by_cases eligible : problem.mayCut aliasId = true
    · exact (reached.within aliasId eligible).anchors boundary anchored held
    · rwa [reached.fixed aliasId eligible]
  ascending := reached.ascending seed
  contained := by
    intro aliasId boundary held
    by_cases eligible : problem.mayCut aliasId = true
    · exact (reached.within aliasId eligible).covers boundary held
    · rwa [reached.fixed aliasId eligible] at held

/-- Where no active cut is recorded, none is left. -/
theorem Reached.noCutLeft (sorted : SortedLists problem) (seed : SeedSpans problem options.seed)
    (reached : Reached problem options reduction) {device boundary : Nat}
    (nothing : ∀ cutId, ¬ (Relieves problem options.seed device boundary cutId ∧
      reduction.active cutId = true)) :
    NoCutLeft problem options.seed reduction.spans device boundary := by
  intro aliasId bound eligible onDevice held other cut candidate takes
  have inside := reached.within aliasId eligible
  have offers := (candidateCut_eq_some sorted inside.ascending
    (runs_ascending sorted (seed.ascending aliasId) eligible)).1 candidate
  have here := Offers.taken sorted (seed.ascending aliasId) eligible inside offers held takes
  obtain ⟨cutId, item, found, same, lower, upper, active⟩ :=
    reached.recorded sorted seed bound eligible here
  have own : item.cut.aliasId = aliasId := by
    rw [same]
    exact LegalCut.aliasId here.2
  exact nothing cutId ⟨⟨item, found, by rw [own]; exact onDevice, lower, upper⟩, active⟩

/-- Whatever the sums are, a reduction ends, keeps what is needed, and gives up only
where no cut is left. -/
theorem reduceResidencyReusing_keeps (sorted : SortedLists problem)
    (seed : SeedSpans problem options.seed) (boundaries : 0 < problem.boundaryCount)
    (devices : 0 < problem.deviceCount) :
    ∃ result, reduceResidencyReusing problem options = some result ∧
      KeepsNeeded problem options.seed result.spans ∧
      (result.status = .analyticInfeasible → ∃ device < problem.deviceCount,
        ∃ boundary < problem.boundaryCount, result.errorDevice = some device ∧
          result.errorBoundary = some ((boundary : Int) - 1) ∧
          NoCutLeft problem options.seed result.spans device boundary) := by
  obtain ⟨result, final, ends, reached, _, step⟩ := @reduceResidencyReusing_reaches problem
    options sorted seed boundaries devices (fun _ => True) trivial (fun _ _ _ _ _ => trivial)
  refine ⟨result, ends, ?_⟩
  have keeps := Reached.keepsNeeded seed reached
  cases step with
  | fits entries served => exact ⟨keeps, fun infeasible => by cases infeasible⟩
  | stuck entries worst served nothing =>
      obtain ⟨device, boundary⟩ :=
        served.formed.inRange worst (List.mem_of_getElem? served.first)
      exact ⟨keeps, fun _ => ⟨worst.device, device, worst.boundary, boundary, rfl, rfl,
        Reached.noCutLeft sorted seed reached nothing⟩⟩

/-- A reduction that succeeds fits and keeps what the program needs, while the sums of
the seed fit in 64 bits. -/
theorem reduceResidencyReusing_promises (sorted : SortedLists problem)
    (seed : SeedSpans problem options.seed) (fits : SeedFits problem options) :
    ∃ result, reduceResidencyReusing problem options = some result ∧
      Promises problem options result := by
  by_cases empty : problem.boundaryCount = 0 ∨ problem.deviceCount = 0
  · unfold reduceResidencyReusing
    rw [if_pos empty]
    exact ⟨_, rfl, fun ok => (by cases ok), fun infeasible => (by cases infeasible)⟩
  · obtain ⟨result, final, ends, reached, ⟨value, metered⟩, step⟩ :=
      @reduceResidencyReusing_reaches problem options sorted seed (by omega) (by omega)
        (fun reduction => ∃ value, Metered problem options reduction value)
        ⟨_, metered_start sorted seed⟩
        (fun before later reached metered step =>
          step.metered sorted seed fits reached metered)
    refine ⟨result, ends, ?_⟩
    have keeps := Reached.keepsNeeded seed reached
    cases step with
    | fits entries served =>
        refine ⟨fun _ => ⟨keeps, ?_⟩, fun infeasible => by cases infeasible⟩
        intro device deviceBound boundary boundaryBound
        have within := served.none metered.tracks deviceBound boundaryBound
        rw [metered.usedAt_eq fits deviceBound boundaryBound] at within
        exact le_trans (Nat.add_le_add_right
          (metered.lower device boundary boundaryBound) _) within
    | stuck entries worst served nothing =>
        obtain ⟨device, boundary⟩ :=
          served.formed.inRange worst (List.mem_of_getElem? served.first)
        exact ⟨fun ok => (by cases ok), fun _ => ⟨worst.device, device, worst.boundary,
          boundary, rfl, rfl, Reached.noCutLeft sorted seed reached nothing⟩⟩

end Results

/-! ## Sums that leave 64 bits -/

/-- Two aliases of half the 64-bit range each, and a device that holds one of them:
the first one stays from beginning to end, and the second task reads the second. -/
def halves : ResidencyProblem where
  aliasCount := 2
  boundaryCount := 3
  deviceCount := 1
  aliasSizeBytes := fun _ => 2 ^ 63
  aliasDevice := fun _ => 0
  aliasRetainSpillCopy := fun _ => true
  initialLocation := fun aliasId => if aliasId = 0 then some .device else some .spill
  finalLocation := fun aliasId => if aliasId = 0 then some .device else none
  fetchRuntimeNs := fun _ => 1
  evictRuntimeNs := fun _ => 1
  taskIdealEndNs := fun task => task + 1
  boundaryCapacityBytes := fun _ _ => 2 ^ 63
  devicePriority := fun device => device
  anchors := fun aliasId =>
    if aliasId = 0 then [⟨0, none, none, false, false⟩, ⟨2, none, none, false, false⟩]
    else if aliasId = 1 then [⟨1, some 1, some 1, true, false⟩]
    else []
  reservedPositions := fun _ => []
  writeBoundaries := fun _ => []
  mayCut := fun _ => true

/-- Each alias from its first anchor to its last. -/
def halvesOptions : ReduceOptions where
  minimizeTransfer := false
  fetchHeadroom := false
  seed := fun aliasId => if aliasId = 0 then [⟨0, 2⟩] else if aliasId = 1 then [⟨1, 1⟩] else []
  extraPressureBytes := fun _ _ => 0

theorem halves_sorted : SortedLists halves where
  anchors := by
    intro aliasId
    simp only [halves]
    split_ifs <;> simp
  reserved := fun _ => List.Pairwise.nil

theorem halves_seed : SeedSpans halves halvesOptions.seed where
  ascending := by
    intro aliasId
    simp only [halvesOptions]
    split_ifs
    · exact ascending_cons.2 ⟨by decide, by simp, ascending_nil⟩
    · exact ascending_cons.2 ⟨by decide, by simp, ascending_nil⟩
    · exact ascending_nil
  bounded := by
    intro aliasId
    simp only [halvesOptions, halves]
    split_ifs <;> simp

theorem halves_keeps :
    ∃ result, reduceResidencyReusing halves halvesOptions = some result ∧
      KeepsNeeded halves halvesOptions.seed result.spans := by
  obtain ⟨result, ends, keeps, _⟩ :=
    reduceResidencyReusing_keeps halves_sorted halves_seed (by decide) (by decide)
  exact ⟨result, ends, keeps⟩

/-- The floor of the two fits, but the charge of the middle boundary reads zero, and
both aliases are kept there. -/
theorem halves_overfull :
    SortedLists halves ∧ SeedSpans halves halvesOptions.seed ∧
      (validateRequiredFloor halves).1 = .ok ∧
      ∃ result, reduceResidencyReusing halves halvesOptions = some result ∧
        ¬ Promises halves halvesOptions result := by
  refine ⟨halves_sorted, halves_seed, by decide, ?_⟩
  have overfull : (reduceResidencyReusing halves halvesOptions).any (fun result =>
      result.status = .ok && decide (chargeBytes halves halvesOptions.fetchHeadroom
        result.spans 0 1 > halves.boundaryCapacityBytes 0 1)) = true := by decide
  obtain ⟨result, ends, holds⟩ := Option.any_eq_true .. |>.mp overfull
  simp only [Bool.and_eq_true, decide_eq_true_eq] at holds
  refine ⟨result, ends, ?_⟩
  rintro ⟨succeeds, _⟩
  have fits := (succeeds holds.1).2 0 (by decide) 1 (by decide)
  have exceeds := holds.2
  omega

/-- The two aliases with one byte each, on a device that holds one byte. -/
def bytes : ResidencyProblem :=
  { halves with aliasSizeBytes := fun _ => 1, boundaryCapacityBytes := fun _ _ => 1 }

theorem bytes_promises :
    ∃ result, reduceResidencyReusing bytes halvesOptions = some result ∧
      Promises bytes halvesOptions result :=
  reduceResidencyReusing_promises ⟨halves_sorted.anchors, halves_sorted.reserved⟩
    ⟨halves_seed.ascending, halves_seed.bounded⟩ (by unfold SeedFits; decide)

/-! ## The floor under what can be reached -/

/-- The floor is no more than any residency that keeps the anchors costs, and what the
anchors alone do; there is none only where that leaves 64 bits.  A program is refused
exactly where a floor exceeds its capacity, and then fits in no residency the reducer
could reach. -/
structure IsFloor (problem : ResidencyProblem) : Prop where
  unbounded : (validateRequiredFloor problem).1 = .invalidArgument ↔
    ∃ device boundary, Library.Word64.modulus ≤
      chargeBytes problem false (anchorSpans problem) device boundary
  computed : (validateRequiredFloor problem).1 = .invalidArgument ↔
    requiredBytes problem = none
  floor : ∀ required, requiredBytes problem = some required →
    ∀ device < problem.deviceCount, ∀ boundary < problem.boundaryCount,
      (∀ (residency : ResidencySpans problem.boundaryCount) (fetchHeadroom : Bool),
        KeepsAnchors problem residency.spans →
          required device boundary ≤
            chargeBytes problem fetchHeadroom residency.spans device boundary) ∧
      ∀ residency : ResidencySpans problem.boundaryCount,
        residency.spans = anchorSpans problem →
          pressureAt problem false residency.spans device boundary =
            some (required device boundary)
  refuses : (validateRequiredFloor problem).1 = .analyticInfeasible ↔
    ∃ required, requiredBytes problem = some required ∧
      ∃ device < problem.deviceCount, ∃ boundary < problem.boundaryCount,
        problem.boundaryCapacityBytes device boundary < required device boundary
  refused : ∀ error, validateRequiredFloor problem = (.analyticInfeasible, some error) →
    error.device < problem.deviceCount ∧ error.boundary < problem.boundaryCount ∧
      ∀ (options : ReduceOptions) (reduction : Reduction),
        SeedSpans problem options.seed → KeepsAnchors problem options.seed →
          Reached problem options reduction →
            problem.boundaryCapacityBytes error.device error.boundary <
              chargeBytes problem options.fetchHeadroom reduction.spans error.device
                error.boundary

/-- The floor is refused as an argument exactly where it is not computed. -/
theorem validateRequiredFloor_invalid (problem : ResidencyProblem) :
    (validateRequiredFloor problem).1 = .invalidArgument ↔
      requiredBytes problem = none := by
  unfold validateRequiredFloor
  cases requiredBytes problem with
  | none => simp
  | some required =>
      simp only [reduceCtorEq, iff_false]
      cases firstShortage problem required <;> exact fun same => by cases same

/-- The floor is refused as infeasible exactly where it exceeds a capacity. -/
theorem validateRequiredFloor_infeasible (problem : ResidencyProblem) :
    (validateRequiredFloor problem).1 = .analyticInfeasible ↔
      ∃ required, requiredBytes problem = some required ∧
        ∃ device < problem.deviceCount, ∃ boundary < problem.boundaryCount,
          problem.boundaryCapacityBytes device boundary < required device boundary := by
  unfold validateRequiredFloor
  cases computed : requiredBytes problem with
  | none => simp
  | some required =>
      cases shortage : firstShortage problem required with
      | none =>
          simp only [shortage]
          refine iff_of_false (fun same => by cases same) ?_
          rintro ⟨other, same, device, deviceBound, boundary, boundaryBound, short⟩
          obtain rfl := Option.some.inj same
          have found := firstShortage_isSome deviceBound boundaryBound short
          simp [shortage] at found
      | some reported =>
          obtain ⟨deviceBound, boundaryBound, bytes, capacity, short⟩ :=
            firstShortage_eq shortage
          simp only [shortage]
          exact iff_of_true trivial ⟨required, rfl, reported.device, deviceBound,
            reported.boundary, boundaryBound, by omega⟩

/-- The required floor is a lower bound and nothing more. -/
theorem requiredFloor_isFloor (problem : ResidencyProblem) (sorted : SortedLists problem) :
    IsFloor problem where
  unbounded := by
    rw [validateRequiredFloor_invalid, requiredBytes_eq_none sorted]
    simp only [chargeBytes_anchors sorted fun _ => rfl]
  computed := validateRequiredFloor_invalid problem
  floor := by
    intro required computed device deviceBound boundary boundaryBound
    constructor
    · intro residency fetchHeadroom keeps
      exact requiredBytes_le sorted computed residency.ascending keeps device
    · intro residency exactly
      have same := @chargeBytes_anchors problem boundary sorted residency.spans
        (fun aliasId => congrFun exactly aliasId) device
      rw [pressureAt_eq deviceBound boundaryBound, same,
        ← requiredBytes_eq sorted computed,
        if_pos (requiredBytes_within computed device boundary)]
  refuses := validateRequiredFloor_infeasible problem
  refused := by
    intro error refused
    unfold validateRequiredFloor at refused
    cases computed : requiredBytes problem with
    | none => simp [computed] at refused
    | some required =>
        rw [computed] at refused
        cases shortage : firstShortage problem required with
        | none => simp [shortage] at refused
        | some reported =>
            simp only [shortage, Prod.mk.injEq, Option.some.injEq, true_and] at refused
            subst refused
            obtain ⟨deviceBound, boundaryBound, bytes, capacity, short⟩ :=
              firstShortage_eq shortage
            refine ⟨deviceBound, boundaryBound, ?_⟩
            intro options reduction seed keeps reached
            have kept : KeepsAnchors problem reduction.spans := by
              intro aliasId eligible anchor mem
              exact (Reached.keepsNeeded seed reached).anchors aliasId anchor.position
                ⟨anchor, mem, rfl⟩ (keeps aliasId eligible anchor mem)
            have floor := @requiredBytes_le problem reported.boundary options.fetchHeadroom
              sorted required computed reduction.spans (reached.ascending seed) kept
              reported.device
            omega

/-- The two aliases of one byte on a device without a byte. -/
def noBytes : ResidencyProblem := { bytes with boundaryCapacityBytes := fun _ _ => 0 }

theorem noBytes_isFloor :
    validateRequiredFloor noBytes = (.analyticInfeasible, some ⟨0, 0, 1, 0⟩) ∧
      IsFloor noBytes :=
  ⟨by decide, requiredFloor_isFloor noBytes
    ⟨halves_sorted.anchors, halves_sorted.reserved⟩⟩

end ShadowSpill.Planner.Residency.ReduceResult
