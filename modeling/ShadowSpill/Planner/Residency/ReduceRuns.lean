import ShadowSpill.Planner.Residency.CutChoice
import ShadowSpill.Planner.Residency.CutEffect
import ShadowSpill.Planner.Residency.Floor

/-!
# Runs of the reduction

Whatever the pressures are, a reduction applies legal cuts only, and each cut it
applies is one less active.  While no sum leaves 64 bits the tree reads at least the
bytes charged, so a reduction that stops has brought every boundary within its
capacity.
-/

namespace ShadowSpill.Planner.Residency.ReduceRuns

open ShadowSpill Library Library.Intervals Problem Spans Cuts CutIndexing CutLegality CutChoice
open CutEffect ExcessHeap PressureTree Reduce

/-- The seed of a reduction is a residency. -/
structure SeedSpans (problem : ResidencyProblem) (seed : Nat → List Interval) : Prop where
  ascending : ∀ aliasId, Ascending (seed aliasId)
  bounded : ∀ aliasId, ∀ span ∈ seed aliasId, span.finish < problem.boundaryCount

/-- The geometry a reduction keeps of its seed. -/
abbrev seedGeometry (problem : ResidencyProblem) (seed : Nat → List Interval) : Geometry :=
  buildCutGeometry problem seed

/-! ## What a step can do -/

/-- The two ways a step ends a reduction, and the one way it goes on. -/
inductive StepCase (problem : ResidencyProblem) (options : ReduceOptions)
    (reduction : Reduction) : StepResult → Prop
  | fits (entries : List ExcessEntry)
      (served : Served problem options reduction.pressure reduction.entries (entries, none)) :
      StepCase problem options reduction
        (.ends (endWith .ok { reduction with entries := entries }))
  | stuck (entries : List ExcessEntry) (worst : ExcessEntry)
      (served : Served problem options reduction.pressure reduction.entries
        (entries, some worst))
      (nothing : ∀ cutId, ¬ (Relieves problem options.seed worst.device worst.boundary cutId ∧
        reduction.active cutId = true)) :
      StepCase problem options reduction
        (.ends (reportAnalyticInfeasible problem reduction worst.device worst.boundary
          (usedAt options reduction.pressure worst.device worst.boundary)))
  | cuts (entries : List ExcessEntry) (worst : ExcessEntry) (cursors : Nat → Nat → Nat)
      (chosenId : Nat) (item : IndexedCut)
      (served : Served problem options reduction.pressure reduction.entries
        (entries, some worst))
      (passed : PassedInactive (seedIndex problem options.seed) options.minimizeTransfer
        reduction.active cursors)
      (best : Best problem (seedIndex problem options.seed) worst.boundary
        options.minimizeTransfer
        (fun cutId => Relieves problem options.seed worst.device worst.boundary cutId ∧
          reduction.active cutId = true)
        (some (chosenId,
          cutScoreAt problem worst.boundary options.minimizeTransfer item)))
      (relieves : Relieves problem options.seed worst.device worst.boundary chosenId)
      (active : reduction.active chosenId = true)
      (found : (seedIndex problem options.seed).cut chosenId = some item) :
      StepCase problem options reduction
        (.continues (applyCutAndRepressure problem options (seedGeometry problem options.seed)
          (seedIndex problem options.seed)
          { reduction with
            entries := entries
            cursors := cursors
            steps := reduction.steps ++ [(worst.device, worst.boundary, item.cut)] }
          item.cut chosenId))

/-! ## What every step keeps -/

/-- What holds of a reduction after any number of steps, whatever the pressures. -/
structure Reached (problem : ResidencyProblem) (options : ReduceOptions)
    (reduction : Reduction) : Prop where
  fixed : ∀ aliasId, ¬ problem.mayCut aliasId = true →
    reduction.spans aliasId = options.seed aliasId
  within : ∀ aliasId, problem.mayCut aliasId = true →
    Within problem (seedGeometry problem options.seed) (options.seed aliasId)
      (reduction.spans aliasId) aliasId
  active : ∀ cutId item, (seedIndex problem options.seed).cut cutId = some item →
    (reduction.active cutId = true ↔
      Offers problem (seedGeometry problem options.seed) (reduction.spans item.cut.aliasId)
        item.cut.aliasId item.firstBoundary item.cut)
  passed : PassedInactive (seedIndex problem options.seed) options.minimizeTransfer
    reduction.active reduction.cursors
  formed : WellFormed problem reduction.entries

section Steps

variable {problem : ResidencyProblem} {options : ReduceOptions} {reduction : Reduction}

theorem reached_start (sorted : SortedLists problem)
    (seed : SeedSpans problem options.seed) :
    Reached problem options (startReduction problem options) where
  fixed := fun _ _ => rfl
  within := fun aliasId eligible => Within.refl sorted (seed.ascending aliasId) eligible
  active := by
    intro cutId item found
    have isIndexed := indexed sorted seed.ascending found
    exact iff_of_true rfl (isIndexed.offers item.firstBoundary le_rfl isIndexed.ordered)
  passed := by
    intro device node cutId mem
    simp [startReduction] at mem
  formed := seedExcessHeap_spec.1

theorem Reached.ascending (seed : SeedSpans problem options.seed)
    (reached : Reached problem options reduction) (aliasId : Nat) :
    Ascending (reduction.spans aliasId) := by
  by_cases eligible : problem.mayCut aliasId = true
  · exact (reached.within aliasId eligible).ascending
  · rw [reached.fixed aliasId eligible]
    exact seed.ascending aliasId

theorem Reached.bounded (seed : SeedSpans problem options.seed)
    (reached : Reached problem options reduction) (aliasId : Nat) :
    ∀ span ∈ reduction.spans aliasId, span.finish < problem.boundaryCount := by
  by_cases eligible : problem.mayCut aliasId = true
  · intro span mem
    have inside := reached.within aliasId eligible
    have valid := inside.ascending.valid span mem
    obtain ⟨origin, originMem, _, upper⟩ := inside.covers span.finish ⟨span, mem, valid, le_rfl⟩
    exact lt_of_le_of_lt upper (seed.bounded aliasId origin originMem)
  · rw [reached.fixed aliasId eligible]
    exact seed.bounded aliasId

/-- A step of a reached reduction is one of its cases. -/
theorem reduceStep_cases (sorted : SortedLists problem)
    (seed : SeedSpans problem options.seed) (reached : Reached problem options reduction) :
    ∃ result, reduceStep problem options (seedGeometry problem options.seed)
        (seedIndex problem options.seed) reduction = some result ∧
      StepCase problem options reduction result := by
  obtain ⟨⟨entries, top⟩, popped, served⟩ :=
    @popWorstBoundary_served problem options reduction.pressure _ reached.formed
  unfold reduceStep
  rw [popped]
  cases top with
  | none => exact ⟨_, rfl, .fits entries served⟩
  | some worst =>
      have inRange := (served.formed.inRange worst (List.mem_of_getElem? served.first)).2
      obtain ⟨best, isBest, passed, chosen⟩ := @selectCut_spec problem options.seed
        reduction.active reduction.cursors options.minimizeTransfer worst.device worst.boundary
        sorted seed.ascending seed.bounded inRange reached.passed
      simp only
      generalize selectCut problem worst.device worst.boundary options.minimizeTransfer
        (seedIndex problem options.seed) reduction.active reduction.cursors = selected
        at passed chosen
      obtain ⟨cursors, choice⟩ := selected
      simp only at passed chosen
      subst chosen
      cases isBest with
      | nothing empty => exact ⟨_, rfl, .stuck entries worst served empty⟩
      | chosen cutId item isConsidered found first =>
          simp only [Option.map_some, found]
          exact ⟨_, rfl, .cuts entries worst cursors cutId item served passed
            (.chosen cutId item isConsidered found first) isConsidered.1 isConsidered.2 found⟩

/-- An active cut is offered at every boundary it is recorded for. -/
theorem Reached.offers (sorted : SortedLists problem) (seed : SeedSpans problem options.seed)
    (reached : Reached problem options reduction) {cutId boundary : Nat} {item : IndexedCut}
    (found : (seedIndex problem options.seed).cut cutId = some item)
    (active : reduction.active cutId = true) (lower : item.firstBoundary ≤ boundary)
    (upper : boundary ≤ item.lastBoundary) :
    Offers problem (seedGeometry problem options.seed) (reduction.spans item.cut.aliasId)
      item.cut.aliasId boundary item.cut := by
  have isIndexed := indexed sorted seed.ascending found
  exact Offers.uniform sorted (seed.ascending _) isIndexed.eligible
    (reached.within _ isIndexed.eligible) ((reached.active cutId item found).1 active)
    (isIndexed.offers boundary lower upper)

/-- A cut that is offered is recorded for the boundary, and active. -/
theorem Reached.recorded (sorted : SortedLists problem)
    (seed : SeedSpans problem options.seed) (reached : Reached problem options reduction)
    {aliasId boundary : Nat} {cut : ResidencyCut} (bound : aliasId < problem.aliasCount)
    (eligible : problem.mayCut aliasId = true)
    (offers : Offers problem (seedGeometry problem options.seed) (reduction.spans aliasId)
      aliasId boundary cut) :
    ∃ cutId item, (seedIndex problem options.seed).cut cutId = some item ∧ item.cut = cut ∧
      item.firstBoundary ≤ boundary ∧ boundary ≤ item.lastBoundary ∧
      reduction.active cutId = true := by
  have own : cut.aliasId = aliasId := LegalCut.aliasId offers.2
  have inside := reached.within aliasId eligible
  have seedOffers := Offers.mono sorted (seed.ascending aliasId)
    (Within.refl sorted (seed.ascending aliasId) eligible) inside inside.covers inside.joins
    offers
  obtain ⟨cutId, item, found, lower, upper, rfl⟩ :=
    exists_indexed sorted seed.ascending bound eligible seedOffers
  have isIndexed := indexed sorted seed.ascending found
  subst own
  refine ⟨cutId, item, found, rfl, lower, upper, (reached.active cutId item found).2 ?_⟩
  exact Offers.uniform sorted (seed.ascending _) isIndexed.eligible inside offers
    (isIndexed.offers item.firstBoundary le_rfl isIndexed.ordered)

/-- The chosen cut applied to a reached reduction. -/
theorem Reached.applied (sorted : SortedLists problem) (seed : SeedSpans problem options.seed)
    (reached : Reached problem options reduction) {chosenId : Nat} {item : IndexedCut}
    (found : (seedIndex problem options.seed).cut chosenId = some item)
    (active : reduction.active chosenId = true) {before : Reduction}
    (sameSpans : before.spans = reduction.spans) :
    ∃ lost, Applied problem options before
      (applyCutAndRepressure problem options (seedGeometry problem options.seed)
        (seedIndex problem options.seed) before item.cut chosenId) item.cut lost := by
  have isIndexed := indexed sorted seed.ascending found
  have inside := reached.within _ isIndexed.eligible
  have offers := reached.offers sorted seed found active le_rfl isIndexed.ordered
  apply applyCutAndRepressure_applied sorted
  · rw [sameSpans]
    exact inside.ascending
  · rw [sameSpans]
    exact reached.bounded seed _
  · rw [sameSpans]
    exact (Within.cut sorted (seed.ascending _) isIndexed.eligible inside offers.2).ascending
  · rw [sameSpans]
    exact Offers.first_covered sorted inside
      (runs_ascending sorted (seed.ascending _) isIndexed.eligible) offers

/-- Which cuts stay active once the chosen one is applied. -/
theorem Reached.later_active (sorted : SortedLists problem)
    (seed : SeedSpans problem options.seed) (reached : Reached problem options reduction)
    {chosenId : Nat} {item : IndexedCut}
    (found : (seedIndex problem options.seed).cut chosenId = some item)
    (active : reduction.active chosenId = true) {cutId : Nat} {other : IndexedCut}
    (otherFound : (seedIndex problem options.seed).cut cutId = some other) :
    Function.update (refreshAliasCandidates problem (applyCut reduction.spans item.cut)
        (seedGeometry problem options.seed) (seedIndex problem options.seed) reduction.active
        item.cut.aliasId) chosenId false cutId = true ↔
      Offers problem (seedGeometry problem options.seed)
        (applyCut reduction.spans item.cut other.cut.aliasId) other.cut.aliasId
        other.firstBoundary other.cut := by
  have isIndexed := indexed sorted seed.ascending found
  have otherIndexed := indexed sorted seed.ascending otherFound
  have inside := reached.within _ isIndexed.eligible
  have offers := reached.offers sorted seed found active le_rfl isIndexed.ordered
  have runsAscending := runs_ascending sorted (seed.ascending item.cut.aliasId)
    isIndexed.eligible
  by_cases chosen : cutId = chosenId
  · subst chosen
    obtain rfl := Option.some.inj (found.symm.trans otherFound)
    rw [Function.update_self, applyCut_same]
    refine iff_of_false Bool.false_ne_true ?_
    exact not_offers_cut sorted (seed.ascending _) isIndexed.eligible inside offers.2 _
  · rw [Function.update_of_ne chosen]
    unfold refreshAliasCandidates
    by_cases same : other.cut.aliasId = item.cut.aliasId
    · rw [if_pos ((otherIndexed.owner item.cut.aliasId).2 same.symm), otherFound]
      have laterAscending := (Within.cut sorted (seed.ascending _) isIndexed.eligible inside
        offers.2).ascending
      rw [← applyCut_same] at laterAscending
      rw [same]
      simp only [Option.any_some, decide_eq_true_eq]
      exact candidateCut_eq_some sorted laterAscending runsAscending
    · rw [if_neg (fun owns => same ((otherIndexed.owner item.cut.aliasId).1 owns).symm),
        applyCut_other _ _ same]
      exact reached.active cutId other otherFound

/-- A cut that stays active was active. -/
theorem Reached.active_falls (sorted : SortedLists problem)
    (seed : SeedSpans problem options.seed) (reached : Reached problem options reduction)
    {chosenId : Nat} {item : IndexedCut}
    (found : (seedIndex problem options.seed).cut chosenId = some item)
    (active : reduction.active chosenId = true) {cutId : Nat} {other : IndexedCut}
    (otherFound : (seedIndex problem options.seed).cut cutId = some other)
    (stays : Offers problem (seedGeometry problem options.seed)
      (applyCut reduction.spans item.cut other.cut.aliasId) other.cut.aliasId
      other.firstBoundary other.cut) : reduction.active cutId = true := by
  have isIndexed := indexed sorted seed.ascending found
  have inside := reached.within _ isIndexed.eligible
  have offers := reached.offers sorted seed found active le_rfl isIndexed.ordered
  apply (reached.active cutId other otherFound).2
  by_cases same : other.cut.aliasId = item.cut.aliasId
  · rw [same, applyCut_same] at stays
    rw [same]
    obtain ⟨covers, joins⟩ := cutSpans_covers inside sorted (seed.ascending _)
      isIndexed.eligible offers.2
    exact Offers.mono sorted (seed.ascending _) inside
      (Within.cut sorted (seed.ascending _) isIndexed.eligible inside offers.2) covers joins
      stays
  · rwa [applyCut_other _ _ same] at stays

/-- A step that goes on reaches a reduction again. -/
theorem StepCase.reached (sorted : SortedLists problem) (seed : SeedSpans problem options.seed)
    (reached : Reached problem options reduction) {later : Reduction}
    (step : StepCase problem options reduction (.continues later)) :
    Reached problem options later := by
  cases step with
  | cuts entries worst cursors chosenId item served passed best relieves active found =>
      have isIndexed := indexed sorted seed.ascending found
      have inside := reached.within _ isIndexed.eligible
      have offers := reached.offers sorted seed found active le_rfl isIndexed.ordered
      obtain ⟨lost, applied⟩ := @Reached.applied problem options reduction sorted seed reached
        chosenId item found active
        { reduction with
          entries := entries
          cursors := cursors
          steps := reduction.steps ++ [(worst.device, worst.boundary, item.cut)] } rfl
      have spans := applied.spans
      simp only at spans
      refine ⟨?_, ?_, ?_, ?_, ?_⟩
      · intro aliasId fixed
        have other : aliasId ≠ item.cut.aliasId := by
          rintro rfl
          exact fixed isIndexed.eligible
        rw [spans, applyCut_other _ _ other]
        exact reached.fixed aliasId fixed
      · intro aliasId eligible
        rw [spans]
        by_cases same : aliasId = item.cut.aliasId
        · subst same
          rw [applyCut_same]
          exact Within.cut sorted (seed.ascending _) eligible inside offers.2
        · rw [applyCut_other _ _ same]
          exact reached.within aliasId eligible
      · intro cutId other otherFound
        rw [spans, applyCutAndRepressure_active]
        exact reached.later_active sorted seed found active otherFound
      · intro device node cutId mem
        rw [applied.cursors] at mem
        have wasInactive := passed device node cutId mem
        obtain ⟨other, otherFound, _⟩ := mem_refs.1 (List.mem_of_mem_take mem)
        rw [applyCutAndRepressure_active]
        by_contra stays
        rw [Bool.not_eq_false, reached.later_active sorted seed found active otherFound] at stays
        have wasActive := reached.active_falls sorted seed found active otherFound stays
        rw [wasInactive] at wasActive
        cases wasActive
      · rw [applied.entries]
        exact served.formed

/-! ## Termination -/

/-- How many cuts of the index are active. -/
def activeCount (problem : ResidencyProblem) (options : ReduceOptions)
    (reduction : Reduction) : Nat :=
  ((List.range (seedIndex problem options.seed).cuts.length).filter reduction.active).length

/-- Each cut applied is one less active. -/
theorem StepCase.activeCount_lt (sorted : SortedLists problem)
    (seed : SeedSpans problem options.seed) (reached : Reached problem options reduction)
    {later : Reduction} (step : StepCase problem options reduction (.continues later)) :
    activeCount problem options later < activeCount problem options reduction := by
  cases step with
  | cuts entries worst cursors chosenId item served passed best relieves active found =>
      unfold activeCount
      have bound := (List.getElem?_eq_some_iff.1 found).1
      have gone : Function.update (refreshAliasCandidates problem
          (applyCut reduction.spans item.cut) (seedGeometry problem options.seed)
          (seedIndex problem options.seed) reduction.active item.cut.aliasId) chosenId false
          chosenId = false := Function.update_self _ _ _
      rw [applyCutAndRepressure_active]
      simp only
      generalize falls : Function.update (refreshAliasCandidates problem
        (applyCut reduction.spans item.cut) (seedGeometry problem options.seed)
        (seedIndex problem options.seed) reduction.active item.cut.aliasId) chosenId false =
        laterActive at gone
      have remain : (List.range (seedIndex problem options.seed).cuts.length).filter laterActive =
          ((List.range (seedIndex problem options.seed).cuts.length).filter
            reduction.active).filter laterActive := by
        rw [List.filter_filter]
        apply List.filter_congr
        intro cutId mem
        cases stays : laterActive cutId with
        | false => rfl
        | true =>
            have otherFound := List.getElem?_eq_getElem (List.mem_range.1 mem)
            rw [← falls, reached.later_active sorted seed found active otherFound] at stays
            rw [reached.active_falls sorted seed found active otherFound stays]
            rfl
      rw [remain, List.length_filter_lt_length_iff_exists]
      exact ⟨chosenId, List.mem_filter.2 ⟨List.mem_range.2 bound, active⟩, by simp [gone]⟩

/-! ## What the tree meters -/

/-- No sum of a boundary's charge in the seed and its extra pressure leaves 64 bits. -/
def SeedFits (problem : ResidencyProblem) (options : ReduceOptions) : Prop :=
  ∀ device < problem.deviceCount, ∀ boundary < problem.boundaryCount,
    chargeBytes problem options.fetchHeadroom options.seed device boundary +
      options.extraPressureBytes device boundary < Word64.modulus

/-- The tree reads values between the bytes charged now and those of the seed, and
the heap tracks them. -/
structure Metered (problem : ResidencyProblem) (options : ReduceOptions)
    (reduction : Reduction) (value : Nat → Nat → Nat) : Prop where
  reads : Reads problem.boundaryCount reduction.pressure
    fun device boundary => BitVec.ofNat 64 (value device boundary)
  lower : ∀ device, ∀ boundary < problem.boundaryCount,
    chargeBytes problem options.fetchHeadroom reduction.spans device boundary ≤
      value device boundary
  upper : ∀ device, ∀ boundary < problem.boundaryCount, value device boundary ≤
    chargeBytes problem options.fetchHeadroom options.seed device boundary
  tracks : Tracks problem options reduction.pressure reduction.entries

theorem Metered.usedAt_eq (fits : SeedFits problem options) {value : Nat → Nat → Nat}
    (metered : Metered problem options reduction value) {device boundary : Nat}
    (deviceBound : device < problem.deviceCount)
    (boundaryBound : boundary < problem.boundaryCount) :
    usedAt options reduction.pressure device boundary =
      value device boundary + options.extraPressureBytes device boundary := by
  have small := fits device deviceBound boundary boundaryBound
  have below := metered.upper device boundary boundaryBound
  unfold usedAt
  rw [metered.reads.at device boundaryBound, ← BitVec.ofNat_add, BitVec.toNat_ofNat]
  exact Nat.mod_eq_of_lt (lt_of_le_of_lt (Nat.add_le_add_right below _) small)

theorem metered_start (sorted : SortedLists problem) (seed : SeedSpans problem options.seed) :
    Metered problem options (startReduction problem options)
      (chargeBytes problem options.fetchHeadroom options.seed) where
  reads := (pressureBuild_reads _).congr fun _ _ inside =>
    basePressure_eq sorted seed.ascending inside
  lower := fun _ _ _ => le_rfl
  upper := fun _ _ _ => le_rfl
  tracks := seedExcessHeap_spec.2

/-- What is left of a value where a cut relieves its boundary. -/
def relieved (problem : ResidencyProblem) (value : Nat → Nat → Nat) (aliasId : Nat)
    (lost : List Interval) (device boundary : Nat) : Nat :=
  value device boundary -
    if device = problem.aliasDevice aliasId ∧ Covers lost boundary then
      problem.aliasSizeBytes aliasId
    else 0

/-- Applying a cut meters what is left. -/
theorem Metered.applied (fits : SeedFits problem options) {value : Nat → Nat → Nat}
    (metered : Metered problem options reduction value) {later : Reduction}
    {cut : ResidencyCut} {lost : List Interval}
    (applied : Applied problem options reduction later cut lost)
    (bound : cut.aliasId < problem.aliasCount) (eligible : problem.mayCut cut.aliasId = true) :
    Metered problem options later (relieved problem value cut.aliasId lost) := by
  have others : ∀ other, other ≠ cut.aliasId → later.spans other = reduction.spans other := by
    intro other different
    rw [applied.spans, applyCut_other _ _ different]
  have change := fun device boundary => @chargeBytes_change problem options.fetchHeadroom
    reduction.spans device boundary later.spans cut.aliasId others bound eligible
  -- Where the size is taken, the alias was charged, so the value is not below it.
  have lower : ∀ device, ∀ boundary < problem.boundaryCount,
      chargeBytes problem options.fetchHeadroom later.spans device boundary +
        (if device = problem.aliasDevice cut.aliasId ∧ Covers lost boundary then
          problem.aliasSizeBytes cut.aliasId else 0) ≤ value device boundary := by
    intro device boundary inside
    have held := metered.lower device boundary inside
    have moved := change device boundary
    by_cases taken : device = problem.aliasDevice cut.aliasId ∧ Covers lost boundary
    · obtain ⟨was, gone⟩ := applied.sound boundary taken.2
      rw [if_pos ⟨taken.1.symm, was⟩, if_neg (fun both => gone both.2)] at moved
      rw [if_pos taken]
      omega
    · rw [if_neg taken]
      by_cases now : problem.aliasDevice cut.aliasId = device ∧
          chargedAt problem options.fetchHeadroom later.spans cut.aliasId boundary = true
      · rw [if_pos now, if_pos ⟨now.1, applied.falls boundary now.2⟩] at moved
        omega
      · rw [if_neg now] at moved
        omega
  have reads := pressureAdd_ranges metered.reads (problem.aliasDevice cut.aliasId)
    applied.ascending (0 - BitVec.ofNat 64 (problem.aliasSizeBytes cut.aliasId))
  rw [← applied.pressure] at reads
  have laterReads : Reads problem.boundaryCount later.pressure fun device boundary =>
      BitVec.ofNat 64 (relieved problem value cut.aliasId lost device boundary) := by
    apply reads.congr
    intro device boundary inside
    have enough := lower device boundary inside
    unfold relieved
    by_cases taken : device = problem.aliasDevice cut.aliasId ∧ Covers lost boundary
    · rw [if_pos taken] at enough ⊢
      rw [if_pos taken]
      have split : value device boundary =
          value device boundary - problem.aliasSizeBytes cut.aliasId +
            problem.aliasSizeBytes cut.aliasId := by omega
      rw [split, BitVec.ofNat_add, ← split, zero_sub, add_neg_cancel_right]
    · rw [if_neg taken, if_neg taken, add_zero, Nat.sub_zero]
  have laterUpper : ∀ device, ∀ boundary < problem.boundaryCount,
      relieved problem value cut.aliasId lost device boundary ≤
        chargeBytes problem options.fetchHeadroom options.seed device boundary :=
    fun device boundary inside =>
      le_trans (Nat.sub_le _ _) (metered.upper device boundary inside)
  refine ⟨laterReads, ?_, laterUpper, ?_⟩
  · intro device boundary inside
    have enough := lower device boundary inside
    unfold relieved
    omega
  · rw [applied.entries]
    apply metered.tracks.mono
    intro device deviceBound boundary boundaryBound
    have small := fits device deviceBound boundary boundaryBound
    have below := laterUpper device boundary boundaryBound
    rw [metered.usedAt_eq fits deviceBound boundaryBound]
    unfold usedAt
    rw [laterReads.at device boundaryBound, ← BitVec.ofNat_add, BitVec.toNat_ofNat,
      Nat.mod_eq_of_lt (lt_of_le_of_lt (Nat.add_le_add_right below _) small)]
    exact Nat.add_le_add_right (Nat.sub_le _ _) _

/-- A step that goes on stays metered. -/
theorem StepCase.metered (sorted : SortedLists problem) (seed : SeedSpans problem options.seed)
    (fits : SeedFits problem options) (reached : Reached problem options reduction)
    (metered : ∃ value, Metered problem options reduction value) {later : Reduction}
    (step : StepCase problem options reduction (.continues later)) :
    ∃ value, Metered problem options later value := by
  obtain ⟨value, metered⟩ := metered
  cases step with
  | cuts entries worst cursors chosenId item served passed best relieves active found =>
      have isIndexed := indexed sorted seed.ascending found
      obtain ⟨lost, applied⟩ := @Reached.applied problem options reduction sorted seed reached
        chosenId item found active
        { reduction with
          entries := entries
          cursors := cursors
          steps := reduction.steps ++ [(worst.device, worst.boundary, item.cut)] } rfl
      have before : Metered problem options
          { reduction with
            entries := entries
            cursors := cursors
            steps := reduction.steps ++ [(worst.device, worst.boundary, item.cut)] } value :=
        ⟨metered.reads, metered.lower, metered.upper, served.tracks metered.tracks⟩
      exact ⟨_, before.applied fits applied isIndexed.aliasBound isIndexed.eligible⟩

/-! ## Runs -/

/-- The loop ends in a step of a reached reduction, which has what every step keeps. -/
theorem reduceLoop_reaches (sorted : SortedLists problem)
    (seed : SeedSpans problem options.seed) {kept : Reduction → Prop}
    (keeps : ∀ before later, Reached problem options before → kept before →
      StepCase problem options before (.continues later) → kept later)
    (fuel : Nat) {reduction : Reduction} (reached : Reached problem options reduction)
    (holds : kept reduction) (enough : activeCount problem options reduction < fuel) :
    ∃ result final, reduceLoop problem options (seedGeometry problem options.seed)
        (seedIndex problem options.seed) fuel reduction = some result ∧
      Reached problem options final ∧ kept final ∧
      StepCase problem options final (.ends result) := by
  induction fuel generalizing reduction with
  | zero => omega
  | succ fuel ih =>
      obtain ⟨outcome, stepped, step⟩ := reduceStep_cases sorted seed reached
      rw [reduceLoop, stepped]
      cases outcome with
      | ends result => exact ⟨result, reduction, rfl, reached, holds, step⟩
      | continues later =>
          have fewer := step.activeCount_lt sorted seed reached
          exact ih (step.reached sorted seed reached) (keeps _ _ reached holds step) (by omega)

/-- A reduction ends, in a step of a reduction it reaches. -/
theorem reduceResidencyReusing_reaches (sorted : SortedLists problem)
    (seed : SeedSpans problem options.seed) (boundaries : 0 < problem.boundaryCount)
    (devices : 0 < problem.deviceCount) {kept : Reduction → Prop}
    (starts : kept (startReduction problem options))
    (keeps : ∀ before later, Reached problem options before → kept before →
      StepCase problem options before (.continues later) → kept later) :
    ∃ result final, reduceResidencyReusing problem options = some result ∧
      Reached problem options final ∧ kept final ∧
      StepCase problem options final (.ends result) := by
  unfold reduceResidencyReusing
  rw [if_neg (by omega)]
  apply reduceLoop_reaches sorted seed keeps _ (reached_start sorted seed) starts
  unfold activeCount
  have bound := @List.length_filter_le _ (startReduction problem options).active
    (List.range (seedIndex problem options.seed).cuts.length)
  rw [List.length_range] at bound
  exact Nat.lt_succ_of_le bound

end Steps

end ShadowSpill.Planner.Residency.ReduceRuns
