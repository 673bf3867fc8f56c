import ShadowSpill.Reference.ResidencySteps

/-!
# The compiled reducer and the readable one

While no sum of bytes leaves 64 bits, the boundary served by the heap is the one the
reference finds by looking at all of them.  While the sizes compared with each other have
signed negatives in their order, the cut chosen from the index is the first of the legal
ones.  Both reductions then go the same way, step by step.
-/

namespace ShadowSpill.Reference.ResidencyAgreement

open ShadowSpill Library Library.Intervals Planner.Residency.Problem Planner.Residency.Spans
open Planner.Residency.Cuts Planner.Residency.CutIndexing Planner.Residency.CutLegality
open Planner.Residency.CutChoice Planner.Residency.CutEffect Planner.Residency.ExcessHeap
open Planner.Residency.LostCharges Planner.Residency.PressureTree Planner.Residency.Reduce
open Planner.Residency.ReduceResult Planner.Residency.ReduceRuns Planner.Residency.ExactPressure
open Residency ResidencyFacts ResidencyScores ResidencySteps

/-- One reduction for both: all aliases may be cut, both start from the hull of the
anchors, and the extra pressure is the same. -/
structure SameReduction (facts : PlanningFacts) (problem : ResidencyProblem)
    (deviceId : Nat → String) (options : ReduceOptions) (additions : String → Int → Nat) :
    Prop where
  describes : Describes facts problem deviceId
  sorted : SortedLists problem
  inside : ∀ aliasId, ∀ anchor ∈ problem.anchors aliasId,
    anchor.position < problem.boundaryCount
  eligible : ∀ aliasId, problem.mayCut aliasId = true
  seed : options.seed = anchorSeed problem
  extra : ∀ device < problem.deviceCount, ∀ boundary < problem.boundaryCount,
    additions (deviceId device) (shifted boundary) = options.extraPressureBytes device boundary

/-- A step of the reference, whatever the position of the span it cuts. -/
def readableStep (step : String × Int × Cut) : String × Int × ResidencyCut :=
  (step.1, step.2.1, toCut step.2.2)

/-- A compiled step as the reference counts boundaries. -/
def compiledStep (deviceId : Nat → String) (step : Nat × Nat × ResidencyCut) :
    String × Int × ResidencyCut :=
  (deviceId step.1, shifted step.2.1, step.2.2)

/-- Both have made the same steps, with the same spans and pressures left. -/
structure Agrees (problem : ResidencyProblem) (deviceId : Nat → String)
    (options : ReduceOptions) (reduction : Reduction) (plan : ResidencyPlan)
    (pressure : String → Nat → Int) (steps : List (String × Int × Cut)) : Prop where
  spans : ∀ aliasId < problem.aliasCount,
    plan aliasId = (reduction.spans aliasId).map toSpan
  pressure : ∀ device < problem.deviceCount, ∀ boundary < problem.boundaryCount,
    pressure (deviceId device) boundary =
      chargeBytes problem options.fetchHeadroom reduction.spans device boundary
  metered : Metered problem options reduction
    (chargeBytes problem options.fetchHeadroom reduction.spans)
  steps : steps.map readableStep = reduction.steps.map (compiledStep deviceId)

/-- Both end the same way: with the same spans, or at the same boundary of the same
device with the same bytes. -/
def SameOutcome (problem : ResidencyProblem) (deviceId : Nat → String)
    (result : ReduceResult) (outcome : Outcome × List (String × Int × Cut)) : Prop :=
  outcome.2.map readableStep = result.steps.map (compiledStep deviceId) ∧
    match outcome.1 with
    | .plan spans => result.status = .ok ∧
        ∀ aliasId < problem.aliasCount, spans aliasId = (result.spans aliasId).map toSpan
    | .infeasible error => result.status = .analyticInfeasible ∧
        result.errorDevice.map deviceId = some error.device ∧
        result.errorBoundary = some error.boundary ∧
        error.requiredBytes = result.requiredBytes ∧
        error.capacityBytes = result.capacityBytes

/-- A cut that may be taken for a device's boundary. -/
def Takes (problem : ResidencyProblem) (options : ReduceOptions) (reduction : Reduction)
    (device boundary cutId : Nat) (item : IndexedCut) : Prop :=
  (Relieves problem options.seed device boundary cutId ∧ reduction.active cutId = true) ∧
    (seedIndex problem options.seed).cut cutId = some item

/-- Of the cuts that may be taken for a device's boundary, the ones that come first in what is
compared before the size have sizes on one side of `2 ^ 63`. -/
def OneSided (problem : ResidencyProblem) (options : ReduceOptions) (reduction : Reduction)
    (device boundary : Nat) : Prop :=
  let score := cutScoreAt problem boundary options.minimizeTransfer
  ∀ cutId item, Takes problem options reduction device boundary cutId item →
    (∀ other otherItem, Takes problem options reduction device boundary other otherItem →
      (priorOrder options.minimizeTransfer (score item) (score otherItem)).isLE = true) →
    ∀ other otherItem, Takes problem options reduction device boundary other otherItem →
      priorOrder options.minimizeTransfer (score item) (score otherItem) = .eq →
        (problem.aliasSizeBytes item.cut.aliasId ≤ 2 ^ 63 ↔
          problem.aliasSizeBytes otherItem.cut.aliasId ≤ 2 ^ 63)

/-- Every step of the run from a reduction on compares sizes on one side of `2 ^ 63`. -/
def ComparesOneSided (problem : ResidencyProblem) (options : ReduceOptions)
    (reduction : Reduction) : Prop :=
  ∀ later, Relation.ReflTransGen (AppliesCut problem options) reduction later →
    ∀ entries worst,
      Served problem options later.pressure later.entries (entries, some worst) →
        OneSided problem options later worst.device worst.boundary

section Steps

variable {facts : PlanningFacts} {problem : ResidencyProblem} {deviceId : Nat → String}
  {options : ReduceOptions} {additions : String → Int → Nat} {reduction : Reduction}
  {plan : ResidencyPlan} {pressure : String → Nat → Int} {steps : List (String × Int × Cut)}

theorem SameReduction.seedSpans
    (same : SameReduction facts problem deviceId options additions) :
    SeedSpans problem options.seed := by
  rw [same.seed]
  exact anchorSeed_seedSpans same.sorted same.inside

/-! ## The same boundary -/

/-- Both read the same bytes at a boundary. -/
theorem Agrees.used (same : SameReduction facts problem deviceId options additions)
    (fits : SeedFits problem options)
    (agrees : Agrees problem deviceId options reduction plan pressure steps) {device boundary : Nat}
    (deviceBound : device < problem.deviceCount)
    (boundaryBound : boundary < problem.boundaryCount) :
    (selectedAt facts additions pressure boundary (deviceId device)).used =
        usedAt options reduction.pressure device boundary ∧
      (selectedAt facts additions pressure boundary (deviceId device)).excess =
        usedAt options reduction.pressure device boundary -
          (problem.boundaryCapacityBytes device boundary : Int) := by
  have used : pressure (deviceId device) boundary +
      additions (deviceId device) (shifted boundary) =
        (usedAt options reduction.pressure device boundary : Int) := by
    rw [agrees.metered.usedAt_eq fits deviceBound boundaryBound,
      agrees.pressure device deviceBound boundary boundaryBound,
      same.extra device deviceBound boundary boundaryBound, Nat.cast_add]
  unfold selectedAt
  simp only
  rw [used, same.describes.capacities device deviceBound boundary boundaryBound]
  exact ⟨rfl, rfl⟩

theorem Agrees.exceeds_iff (same : SameReduction facts problem deviceId options additions)
    (fits : SeedFits problem options)
    (agrees : Agrees problem deviceId options reduction plan pressure steps) {device boundary : Nat}
    (deviceBound : device < problem.deviceCount)
    (boundaryBound : boundary < problem.boundaryCount) :
    Exceeds facts additions pressure boundary (deviceId device) ↔
      0 < excessAt problem options reduction.pressure device boundary := by
  unfold Exceeds excessAt
  rw [(agrees.used same fits deviceBound boundaryBound).2]
  omega

/-- The reference selects nothing when the heap serves nothing. -/
theorem Agrees.fits (same : SameReduction facts problem deviceId options additions)
    (fits : SeedFits problem options)
    (agrees : Agrees problem deviceId options reduction plan pressure steps)
    {entries : List ExcessEntry}
    (served : Served problem options reduction.pressure reduction.entries (entries, none)) :
    selectWorst facts additions pressure = none := by
  have foremost := selectWorst_foremost facts additions pressure
  generalize selectWorst facts additions pressure = selected at foremost ⊢
  cases foremost with
  | nothing within => rfl
  | chosen boundary name isSeen exceeds first =>
      obtain ⟨device, deviceBound, rfl⟩ := (same.describes.devices name).1 isSeen.2
      have boundaryBound : boundary < problem.boundaryCount := by
        rw [← same.describes.taskCount]
        exact isSeen.1
      have within := served.none agrees.metered.tracks deviceBound boundaryBound
      have surplus := (agrees.exceeds_iff same fits deviceBound boundaryBound).1 exceeds
      unfold excessAt at surplus
      omega

/-- The reference selects the boundary the heap serves. -/
theorem Agrees.worst (same : SameReduction facts problem deviceId options additions)
    (fits : SeedFits problem options)
    (agrees : Agrees problem deviceId options reduction plan pressure steps)
    {entries : List ExcessEntry} {worst : ExcessEntry}
    (served : Served problem options reduction.pressure reduction.entries
      (entries, some worst)) :
    selectWorst facts additions pressure =
      some (selectedAt facts additions pressure worst.boundary (deviceId worst.device)) := by
  have worstMem := List.mem_of_getElem? served.first
  obtain ⟨worstDevice, worstBoundary⟩ := served.formed.inRange worst worstMem
  obtain ⟨positive, exactly⟩ := served.exactly worst rfl
  have worstExceeds := (agrees.exceeds_iff same fits worstDevice worstBoundary).2
    (exactly ▸ positive)
  have worstSeen : worst.boundary < facts.taskCount + 1 ∧ deviceId worst.device ∈ facts.devices := by
    refine ⟨by rw [same.describes.taskCount]; exact worstBoundary, ?_⟩
    exact (same.describes.devices _).2 ⟨_, worstDevice, rfl⟩
  have foremost := selectWorst_foremost facts additions pressure
  generalize selectWorst facts additions pressure = selected at foremost ⊢
  cases foremost with
  | nothing within => exact absurd worstExceeds (within _ _ worstSeen)
  | chosen boundary name isSeen exceeds first =>
      obtain ⟨device, deviceBound, rfl⟩ := (same.describes.devices name).1 isSeen.2
      have boundaryBound : boundary < problem.boundaryCount := by
        rw [← same.describes.taskCount]
        exact isSeen.1
      have surplus := (agrees.exceeds_iff same fits deviceBound boundaryBound).1 exceeds
      have notBefore := served.worst agrees.metered.tracks deviceBound boundaryBound surplus
      have notAfter := first _ _ worstSeen worstExceeds
      rw [excessEntryBefore_false] at notBefore
      unfold Selected.before at notAfter
      have excess := (agrees.used same fits deviceBound boundaryBound).2
      have worstExcess := (agrees.used same fits worstDevice worstBoundary).2
      have priority := served.formed.priority worst worstMem
      simp only [selectedAt] at excess worstExcess notAfter
      rw [excess, worstExcess, ← same.describes.priorities _ worstDevice _ deviceBound] at notAfter
      simp only [not_or, not_and, priority] at notBefore
      unfold excessAt at surplus exactly notBefore
      simp only [shifted, not_or, not_and] at notAfter
      have sameExcess : usedAt options reduction.pressure device boundary -
          problem.boundaryCapacityBytes device boundary = worst.excess := by omega
      have sameBoundary : boundary = worst.boundary := by
        have lower := (notBefore.2 sameExcess).1
        have upper := (notAfter.2 (by omega)).1
        omega
      have sameName : deviceId device = deviceId worst.device := by
        have lower := ((notBefore.2 sameExcess).2 sameBoundary).1
        have upper := (notAfter.2 (by omega)).2 (by omega)
        rw [same.describes.priorities _ deviceBound _ worstDevice] at lower
        rw [same.describes.priorities _ worstDevice _ deviceBound] at upper
        exact le_antisymm (not_lt.1 upper) (not_lt.1 lower)
      rw [sameName, sameBoundary]

/-! ## The same cut -/

theorem SameReduction.within
    (same : SameReduction facts problem deviceId options additions)
    (reached : Reached problem options reduction) (aliasId : Nat) :
    Within problem (seedGeometry problem (anchorSeed problem)) (anchorSeed problem aliasId)
      (reduction.spans aliasId) aliasId := by
  rw [← same.seed]
  exact reached.within aliasId (same.eligible aliasId)

/-- The legal cuts are those offered now. -/
theorem Agrees.member (same : SameReduction facts problem deviceId options additions)
    (reached : Reached problem options reduction)
    (agrees : Agrees problem deviceId options reduction plan pressure steps) {device boundary : Nat}
    (deviceBound : device < problem.deviceCount) (cut : Cut) :
    cut ∈ legalCuts facts plan (shifted boundary) (deviceId device) ↔
      cut.aliasId < problem.aliasCount ∧ problem.aliasDevice cut.aliasId = device ∧
        (∃ span, (reduction.spans cut.aliasId)[cut.spanIndex]? = some span ∧
          span.Contains boundary) ∧
        Offers problem (seedGeometry problem options.seed) (reduction.spans cut.aliasId)
          cut.aliasId boundary (toCut cut) := by
  rw [same.seed]
  exact Describes.mem_legalCuts same.describes same.sorted same.eligible
    (anchorSeed_seedSpans same.sorted same.inside) (same.within reached) agrees.spans
    deviceBound cut

/-- An offered cut takes boundaries after the first one, or parts two of them. -/
theorem offers_bounds (same : SameReduction facts problem deviceId options additions)
    (reached : Reached problem options reduction) {aliasId boundary : Nat} {cut : ResidencyCut}
    (offers : Offers problem (seedGeometry problem options.seed) (reduction.spans aliasId)
      aliasId boundary cut) : 0 ≤ cut.start ∧ cut.start ≤ cut.finish + 1 := by
  have runsAscending := runs_ascending same.sorted (same.seedSpans.ascending aliasId)
    (same.eligible aliasId)
  obtain ⟨_, legal⟩ := offers
  cases legal with
  | spilledPrefix required spilled early =>
      rw [same.seed] at spilled
      exact absurd spilled (prefixRequired_hull same.sorted (same.within reached aliasId) required)
  | run run late free mem contains inner =>
      have valid := runsAscending.valid run mem
      simp only
      omega
  | split anchor late mem here joined unread =>
      simp only
      omega

/-- A boundary without an active cut has no legal one. -/
theorem Agrees.stuck (same : SameReduction facts problem deviceId options additions)
    (reached : Reached problem options reduction)
    (agrees : Agrees problem deviceId options reduction plan pressure steps) {device boundary : Nat}
    (deviceBound : device < problem.deviceCount)
    (nothing : ∀ cutId, ¬ (Relieves problem options.seed device boundary cutId ∧
      reduction.active cutId = true)) :
    legalCuts facts plan (shifted boundary) (deviceId device) = [] := by
  apply List.eq_nil_iff_forall_not_mem.2
  intro cut mem
  obtain ⟨bound, onDevice, _, offers⟩ := (agrees.member same reached deviceBound cut).1 mem
  obtain ⟨cutId, item, found, same_, lower, upper, active⟩ :=
    reached.recorded same.sorted same.seedSpans bound (same.eligible _) offers
  have own : item.cut.aliasId = cut.aliasId := by
    rw [same_]
    rfl
  exact nothing cutId ⟨⟨item, found, by rw [own]; exact onDevice, lower, upper⟩, active⟩

/-- The tuple of a cut that is indexed. -/
theorem Indexed.cutScore_eq (same : SameReduction facts problem deviceId options additions)
    (words : FitsWords problem) {cutId boundary : Nat} {item : IndexedCut}
    (isIndexed : Indexed problem options.seed cutId item) {readable : Cut}
    (isCut : item.cut = toCut readable) (starts : 0 ≤ item.cut.start)
    (near : item.cut.start ≤ item.cut.finish + 1) (inside : boundary < problem.boundaryCount) :
    cutScore facts options.minimizeTransfer (shifted boundary) readable =
      scoreTuple options.minimizeTransfer
        (exactScore (problem.aliasSizeBytes item.cut.aliasId)
          (cutScoreAt problem boundary options.minimizeTransfer item)) := by
  have form := isIndexed.form
  have score : item.score = scoreCut problem item.cut := by
    rw [form]
    rfl
  have timing : item.timing = cutTiming problem item.cut := by
    rw [form]
    rfl
  unfold cutScoreAt
  rw [score, timing]
  exact Describes.cutScore_eq same.describes same.sorted words isIndexed.aliasBound rfl
    (by rw [isCut]; rfl) (by rw [isCut]; rfl) (by rw [isCut]; rfl) starts (by omega) inside
    options.minimizeTransfer

theorem cutScoreAt_aliasId (problem : ResidencyProblem) (boundary : Nat)
    (minimizeTransfer : Bool) {seed : Nat → List Interval} {cutId : Nat} {item : IndexedCut}
    (isIndexed : Indexed problem seed cutId item) :
    (cutScoreAt problem boundary minimizeTransfer item).aliasId = item.cut.aliasId := by
  rw [isIndexed.form]
  rfl

theorem cutScoreAt_negatedSize (problem : ResidencyProblem) (boundary : Nat)
    (minimizeTransfer : Bool) {seed : Nat → List Interval} {cutId : Nat} {item : IndexedCut}
    (isIndexed : Indexed problem seed cutId item) :
    (cutScoreAt problem boundary minimizeTransfer item).negatedSize =
      negatedInt64 (problem.aliasSizeBytes item.cut.aliasId) := by
  rw [isIndexed.form]
  rfl

theorem cutScoreAt_slackLow (problem : ResidencyProblem) (boundary : Nat)
    (minimizeTransfer : Bool) (item : IndexedCut) :
    (cutScoreAt problem boundary minimizeTransfer item).slackLow < Word64.modulus := by
  apply Nat.mod_lt
  decide

/-- A cut of another alias that is not before the chosen one comes after it. -/
theorem scoreOrder_lt {minimizeTransfer : Bool} {chosen other : Nat × CutScore}
    (first : (choiceOrder minimizeTransfer chosen other).isLE = true)
    (different : chosen.2.aliasId ≠ other.2.aliasId) :
    scoreOrder minimizeTransfer chosen.2 other.2 = .lt := by
  have order : choiceOrder minimizeTransfer chosen other =
      (scoreOrder minimizeTransfer chosen.2 other.2).then (compare chosen.1 other.1) := rfl
  rw [order] at first
  cases compared : scoreOrder minimizeTransfer chosen.2 other.2 with
  | lt => rfl
  | gt =>
      rw [compared] at first
      cases first
  | eq =>
      unfold scoreOrder valueOrder at compared
      simp only [compareLex, compareOn, Ordering.then_eq_eq, compare_eq_iff_eq] at compared
      exact absurd compared.2.2.2.2.2.1 different

/-- The best choice goes before every other one. -/
theorem best_first {index : CutIndex} {boundary : Nat} {minimizeTransfer : Bool}
    {considered : Nat → Prop} {choice : Nat × CutScore}
    (best : Best problem index boundary minimizeTransfer considered (some choice)) :
    ∀ other otherItem, considered other → index.cut other = some otherItem →
      (choiceOrder minimizeTransfer choice
        (other, cutScoreAt problem boundary minimizeTransfer otherItem)).isLE = true := by
  cases best with
  | chosen cutId item isConsidered found first => exact first

/-- The cut chosen from the index is the first of the legal ones. -/
theorem Agrees.chosen (same : SameReduction facts problem deviceId options additions)
    (words : FitsWords problem) (reached : Reached problem options reduction)
    {device boundary : Nat} (sided : OneSided problem options reduction device boundary)
    (agrees : Agrees problem deviceId options reduction plan pressure steps)
    (deviceBound : device < problem.deviceCount) (inside : boundary < problem.boundaryCount)
    {chosenId : Nat} {item : IndexedCut}
    (best : Best problem (seedIndex problem options.seed) boundary options.minimizeTransfer
      (fun cutId => Relieves problem options.seed device boundary cutId ∧
        reduction.active cutId = true)
      (some (chosenId, cutScoreAt problem boundary options.minimizeTransfer item)))
    (relieves : Relieves problem options.seed device boundary chosenId)
    (active : reduction.active chosenId = true)
    (found : (seedIndex problem options.seed).cut chosenId = some item) :
    ∃ readable, toCut readable = item.cut ∧
      readable ∈ legalCuts facts plan (shifted boundary) (deviceId device) ∧
      firstMin (cutScore facts options.minimizeTransfer (shifted boundary))
        (legalCuts facts plan (shifted boundary) (deviceId device)) = some readable := by
  have seed := same.seedSpans
  have isIndexed := indexed same.sorted seed.ascending found
  obtain ⟨_, sameFound, onDevice, lower, upper⟩ := relieves
  obtain rfl := Option.some.inj (found.symm.trans sameFound)
  have offers := reached.offers same.sorted seed found active lower upper
  obtain ⟨span, spanMem, contains⟩ := offers.1
  obtain ⟨position, at_⟩ := List.mem_iff_getElem?.1 spanMem
  have member := fun cut => @Agrees.member facts problem deviceId options additions reduction
    plan pressure steps same reached agrees device boundary deviceBound cut
  have mem : Cut.mk item.cut.aliasId position item.cut.start item.cut.finish ∈
      legalCuts facts plan (shifted boundary) (deviceId device) :=
    (member _).2 ⟨isIndexed.aliasBound, onDevice, ⟨span, at_, contains⟩, offers⟩
  have bounds := offers_bounds same reached offers
  refine ⟨_, rfl, mem, ?_⟩
  apply firstMin_eq_some mem
  intro other otherMem different
  obtain ⟨otherBound, otherDevice, _, otherOffers⟩ := (member other).1 otherMem
  obtain ⟨otherId, otherItem, otherFound, otherCut, otherLower, otherUpper, otherActive⟩ :=
    reached.recorded same.sorted seed otherBound (same.eligible _) otherOffers
  have otherIndexed := indexed same.sorted seed.ascending otherFound
  have own : otherItem.cut.aliasId = other.aliasId := by
    rw [otherCut]
    rfl
  have otherBounds := offers_bounds same reached otherOffers
  rw [← otherCut] at otherBounds
  have elsewhere : item.cut.aliasId ≠ otherItem.cut.aliasId := by
    intro sameAlias
    apply different
    exact mem_legalCuts_unique same.describes same.sorted same.eligible
      (anchorSeed_seedSpans same.sorted same.inside) (same.within reached) agrees.spans
      deviceBound otherMem mem (own.symm.trans sameAlias.symm)
  rw [Indexed.cutScore_eq same words isIndexed rfl bounds.1 bounds.2 inside,
    Indexed.cutScore_eq same words otherIndexed otherCut otherBounds.1 otherBounds.2 inside]
  apply (scoreTuple_lt options.minimizeTransfer
    (cutScoreAt_slackLow problem boundary options.minimizeTransfer item :
      (exactScore _ _).slackLow < _)
    (cutScoreAt_slackLow problem boundary options.minimizeTransfer otherItem :
      (exactScore _ _).slackLow < _)).2
  have otherTaken : Takes problem options reduction device boundary otherId otherItem :=
    ⟨⟨⟨otherItem, otherFound, by rw [own]; exact otherDevice, otherLower, otherUpper⟩,
      otherActive⟩, otherFound⟩
  have first := best_first best
  apply exactScore_lt (words.sizes _ isIndexed.aliasBound)
    (words.sizes _ otherIndexed.aliasBound)
    (cutScoreAt_negatedSize _ _ _ isIndexed) (cutScoreAt_negatedSize _ _ _ otherIndexed)
  · exact sided chosenId item ⟨⟨⟨item, found, onDevice, lower, upper⟩, active⟩, found⟩
      (fun third thirdItem taken => priorOrder_isLE
        (Ordering.isLE_left_of_isLE_then (first third thirdItem taken.1 taken.2)))
      otherId otherItem otherTaken
  · apply scoreOrder_lt (first otherId otherItem otherTaken.1 otherFound)
    simp only
    rw [cutScoreAt_aliasId problem boundary options.minimizeTransfer isIndexed,
      cutScoreAt_aliasId problem boundary options.minimizeTransfer otherIndexed]
    exact_mod_cast elsewhere

/-! ## The same spans and pressures -/

/-- The reference changes its pressures by what the charges change by. -/
theorem Describes.updatePressure_eq (describes : Describes facts problem deviceId)
    (sorted : SortedLists problem) {fetchHeadroom : Bool} {spans later : Nat → List Interval}
    {aliasId : Nat} (others : ∀ other, other ≠ aliasId → later other = spans other)
    (bound : aliasId < problem.aliasCount) (eligible : problem.mayCut aliasId = true)
    (ascending : Ascending (spans aliasId)) (laterAscending : Ascending (later aliasId))
    {previous current : ResidencyPlan} (was : previous aliasId = (spans aliasId).map toSpan)
    (now : current aliasId = (later aliasId).map toSpan) {device boundary : Nat}
    (deviceBound : device < problem.deviceCount)
    (boundaryBound : boundary < problem.boundaryCount)
    (reads : pressure (deviceId device) boundary =
      chargeBytes problem fetchHeadroom spans device boundary) :
    updatePressureForAlias facts fetchHeadroom previous current aliasId pressure
        (deviceId device) boundary =
      chargeBytes problem fetchHeadroom later device boundary := by
  have change := @chargeBytes_change problem fetchHeadroom spans device boundary later aliasId
    others bound eligible
  have before := @Describes.contributes_iff facts problem deviceId fetchHeadroom aliasId
    describes sorted bound spans ascending boundary
  have after := @Describes.contributes_iff facts problem deviceId fetchHeadroom aliasId
    describes sorted bound later laterAscending boundary
  rw [← was] at before
  rw [← now] at after
  obtain ⟨owned, name⟩ := describes.aliasDevices aliasId bound
  have onDevice : deviceId device = facts.aliasDevices aliasId ∧ boundary ≤ facts.taskCount ↔
      problem.aliasDevice aliasId = device := by
    rw [name]
    constructor
    · rintro ⟨equal, _⟩
      exact (describes.distinct _ deviceBound _ owned equal).symm
    · rintro rfl
      refine ⟨rfl, ?_⟩
      rw [← describes.taskCount] at boundaryBound
      exact Nat.lt_succ_iff.1 boundaryBound
  unfold updatePressureForAlias
  rw [reads, describes.sizes aliasId bound]
  by_cases here : problem.aliasDevice aliasId = device
  · rw [if_pos (onDevice.2 here)]
    generalize contributes facts fetchHeadroom aliasId (previous aliasId) boundary = held
      at before ⊢
    generalize contributes facts fetchHeadroom aliasId (current aliasId) boundary = holds
      at after ⊢
    simp only [here, true_and, ← before, ← after] at change
    cases held <;> cases holds <;> simp at change ⊢ <;> omega
  · rw [if_neg (fun both => here (onDevice.1 both))]
    rw [if_neg (fun both => here both.1), if_neg (fun both => here both.1)] at change
    simpa using change.symm

/-! ## The same run -/

/-- The span a cut is offered in holds where the cut starts. -/
theorem offers_cutFirst (same : SameReduction facts problem deviceId options additions)
    (reached : Reached problem options reduction) {aliasId boundary : Nat} {cut : ResidencyCut}
    (offers : Offers problem (seedGeometry problem options.seed) (reduction.spans aliasId)
      aliasId boundary cut) {span : Interval} (mem : span ∈ reduction.spans aliasId)
    (contains : span.Contains boundary) : span.Contains (cutFirst cut) := by
  have within := reached.within aliasId (same.eligible aliasId)
  have runsAscending := runs_ascending same.sorted (same.seedSpans.ascending aliasId)
    (same.eligible aliasId)
  obtain ⟨_, legal⟩ := offers
  unfold cutFirst
  cases legal with
  | spilledPrefix required spilled early =>
      rw [same.seed] at spilled
      exact absurd spilled (prefixRequired_hull same.sorted (same.within reached aliasId) required)
  | run run late free runMem inRun inner =>
      have valid := runsAscending.valid run runMem
      have inside := run_in_span same.sorted (same.eligible aliasId) within runMem mem inRun
        contains
      rw [if_neg (by simp only; omega)]
      simp only [Interval.Contains]
      omega
  | split anchor late anchorMem here joined unread =>
      rw [if_pos (by simp only; omega)]
      obtain ⟨lower, upper⟩ := contains
      simp only [Interval.Contains]
      omega

/-- A cut both choose leaves them in agreement. -/
theorem Agrees.later (same : SameReduction facts problem deviceId options additions)
    (fits : SeedFits problem options) (reached : Reached problem options reduction)
    (agrees : Agrees problem deviceId options reduction plan pressure steps)
    {entries : List ExcessEntry} {worst : ExcessEntry} {cursors : Nat → Nat → Nat}
    (served : Served problem options reduction.pressure reduction.entries
      (entries, some worst)) {chosenId : Nat} {item : IndexedCut}
    (found : (seedIndex problem options.seed).cut chosenId = some item)
    (active : reduction.active chosenId = true) {readable : Cut}
    (isCut : toCut readable = item.cut)
    (mem : readable ∈ legalCuts facts plan (shifted worst.boundary) (deviceId worst.device)) :
    Agrees problem deviceId options
      (applyCutAndRepressure problem options (seedGeometry problem options.seed)
        (seedIndex problem options.seed)
        { reduction with
          entries := entries
          cursors := cursors
          steps := reduction.steps ++ [(worst.device, worst.boundary, item.cut)] }
        item.cut chosenId)
      (Residency.applyCut plan readable)
      (updatePressureForAlias facts options.fetchHeadroom plan
        (Residency.applyCut plan readable) readable.aliasId pressure)
      (steps ++ [(deviceId worst.device, shifted worst.boundary, readable)]) := by
  have seed := same.seedSpans
  have isIndexed := indexed same.sorted seed.ascending found
  have eligible := same.eligible item.cut.aliasId
  have within := reached.within item.cut.aliasId eligible
  have inRange := (served.formed.inRange worst (List.mem_of_getElem? served.first)).1
  obtain ⟨_, _, ⟨span, at_, contains⟩, offers⟩ := (agrees.member same reached inRange readable).1 mem
  have sameAlias : readable.aliasId = item.cut.aliasId := by
    rw [← isCut]
    rfl
  rw [isCut, sameAlias] at offers
  rw [sameAlias] at at_
  have bounds := offers_bounds same reached offers
  have oneSpan : InOneSpan (reduction.spans item.cut.aliasId) item.cut := by
    have hull := offers
    rw [same.seed] at hull
    have ascending := (anchorSeed_seedSpans same.sorted same.inside).ascending
    exact Offers.inOneSpan same.sorted isIndexed.aliasBound eligible (ascending _)
      (prefixWhole_hull same.sorted ascending) (same.within reached item.cut.aliasId) hull
  have spanMem := List.mem_of_getElem? at_
  have first := offers_cutFirst same reached offers spanMem contains
  have laterAscending := (Within.cut same.sorted (seed.ascending _) eligible within
    offers.2).ascending
  obtain ⟨lost, applied⟩ := @Reached.applied problem options reduction same.sorted seed reached
    chosenId item found active
    { reduction with
      entries := entries
      cursors := cursors
      steps := reduction.steps ++ [(worst.device, worst.boundary, item.cut)] } rfl
  generalize applyCutAndRepressure problem options (seedGeometry problem options.seed)
    (seedIndex problem options.seed)
    { reduction with
      entries := entries
      cursors := cursors
      steps := reduction.steps ++ [(worst.device, worst.boundary, item.cut)] }
    item.cut chosenId = later at applied ⊢
  have others : ∀ other, other ≠ item.cut.aliasId →
      later.spans other = reduction.spans other := by
    intro other different
    rw [applied.spans, applyCut_other _ _ different]
  have own : later.spans item.cut.aliasId =
      Planner.Residency.CutLegality.cutSpans (reduction.spans item.cut.aliasId) item.cut := by
    rw [applied.spans, applyCut_same]
  have sameStart : readable.start = item.cut.start := by
    rw [← isCut]
    rfl
  have sameFinish : readable.finish = item.cut.finish := by
    rw [← isCut]
    rfl
  have ownPlan : Residency.applyCut plan readable item.cut.aliasId =
      (later.spans item.cut.aliasId).map toSpan := by
    have leaves := @cutSpans_toSpan (reduction.spans item.cut.aliasId) span readable
      within.ascending
    rw [isCut, sameStart, sameFinish] at leaves
    unfold Residency.applyCut
    rw [sameAlias, Function.update_self, agrees.spans _ isIndexed.aliasBound, own]
    exact leaves laterAscending at_ first (oneSpan span spanMem first) bounds.1 bounds.2
  refine ⟨?_, ?_, ?_, ?_⟩
  · intro aliasId bound
    by_cases chosen : aliasId = item.cut.aliasId
    · rw [chosen]
      exact ownPlan
    · unfold Residency.applyCut
      rw [sameAlias, Function.update_of_ne chosen, others aliasId chosen]
      exact agrees.spans aliasId bound
  · intro device deviceBound boundary boundaryBound
    rw [sameAlias]
    apply Describes.updatePressure_eq same.describes same.sorted others isIndexed.aliasBound
      eligible within.ascending (by rw [own]; exact laterAscending)
      (agrees.spans _ isIndexed.aliasBound) ownPlan deviceBound boundaryBound
    exact agrees.pressure device deviceBound boundary boundaryBound
  · have before : Metered problem options
        { reduction with
          entries := entries
          cursors := cursors
          steps := reduction.steps ++ [(worst.device, worst.boundary, item.cut)] }
        (chargeBytes problem options.fetchHeadroom reduction.spans) :=
      ⟨agrees.metered.reads, agrees.metered.lower, agrees.metered.upper,
        served.tracks agrees.metered.tracks⟩
    have metered := before.applied fits applied isIndexed.aliasBound eligible
    rwa [Applied.relieved_eq applied isIndexed.aliasBound eligible ⟨span, spanMem, first⟩
      (Applied.relieves applied oneSpan)] at metered
  · rw [List.map_append, agrees.steps, applied.steps, List.map_append]
    simp only [List.map_cons, List.map_nil, readableStep, compiledStep, isCut]

/-- From where they agree, both reductions end the same way. -/
theorem Agrees.loop (same : SameReduction facts problem deviceId options additions)
    (fits : SeedFits problem options) (words : FitsWords problem) (fuel : Nat)
    {reduction : Reduction} (sided : ComparesOneSided problem options reduction) {plan : ResidencyPlan} {pressure : String → Nat → Int}
    {steps : List (String × Int × Cut)} (reached : Reached problem options reduction)
    (agrees : Agrees problem deviceId options reduction plan pressure steps)
    (enough : activeCount problem options reduction < fuel) :
    ∃ result outcome, reduceLoop problem options (seedGeometry problem options.seed)
        (seedIndex problem options.seed) fuel reduction = some result ∧
      reduceRounds facts options.minimizeTransfer options.fetchHeadroom additions fuel plan
        pressure steps = some outcome ∧
      SameOutcome problem deviceId result outcome := by
  induction fuel generalizing reduction plan pressure steps with
  | zero => omega
  | succ fuel ih =>
      obtain ⟨stepped, isStepped, step⟩ := reduceStep_cases same.sorted same.seedSpans reached
      rw [reduceLoop, isStepped, reduceRounds]
      have fewer := fun later (isLater : stepped = .continues later) =>
        StepCase.activeCount_lt same.sorted same.seedSpans reached (isLater ▸ step)
      have next := fun later (isLater : stepped = .continues later) =>
        StepCase.reached same.sorted same.seedSpans reached (isLater ▸ step)
      cases step with
      | fits entries served =>
          rw [agrees.fits same fits served]
          exact ⟨_, _, rfl, rfl, agrees.steps, rfl, agrees.spans⟩
      | stuck entries worst served nothing =>
          have worstMem := List.mem_of_getElem? served.first
          obtain ⟨device, boundary⟩ := served.formed.inRange worst worstMem
          rw [agrees.worst same fits served]
          have none_ := agrees.stuck same reached device nothing
          have cuts : legalCuts facts plan
              (selectedAt facts additions pressure worst.boundary (deviceId worst.device)).boundary
              (selectedAt facts additions pressure worst.boundary
                (deviceId worst.device)).device = [] := none_
          simp only
          rw [cuts, firstMin]
          have used := (agrees.used same fits device boundary).1
          refine ⟨_, _, rfl, rfl, agrees.steps, rfl, rfl, rfl, ?_, ?_⟩
          · exact used
          · unfold noLegalCut selectedAt reportAnalyticInfeasible
            simp only [shifted, sub_add_cancel, Int.toNat_natCast]
            exact same.describes.capacities _ device _ boundary
      | cuts entries worst cursors chosenId item served passed best relieves active found =>
          have worstMem := List.mem_of_getElem? served.first
          obtain ⟨device, boundary⟩ := served.formed.inRange worst worstMem
          rw [agrees.worst same fits served]
          obtain ⟨readable, isCut, mem, first⟩ := agrees.chosen same words reached
            (sided _ .refl _ _ served) device boundary best relieves active found
          have chosen : firstMin (cutScore facts options.minimizeTransfer
              (selectedAt facts additions pressure worst.boundary
                (deviceId worst.device)).boundary)
              (legalCuts facts plan
                (selectedAt facts additions pressure worst.boundary
                  (deviceId worst.device)).boundary
                (selectedAt facts additions pressure worst.boundary
                  (deviceId worst.device)).device) = some readable := first
          simp only
          rw [chosen]
          have less := fewer _ rfl
          exact ih (fun later run => sided later (.head isStepped run)) (next _ rfl)
            (agrees.later same fits reached served found active isCut mem) (by omega)

/-- Both start in agreement. -/
theorem agrees_start (same : SameReduction facts problem deviceId options additions) :
    Agrees problem deviceId options (startReduction problem options) (seedResidency facts)
      (pressureByDevice facts options.fetchHeadroom (seedResidency facts)) [] where
  spans := by
    intro aliasId bound
    rw [Describes.seedResidency_eq same.describes same.sorted bound, ← same.seed]
    rfl
  pressure := by
    intro device deviceBound boundary boundaryBound
    apply Describes.pressureByDevice_eq same.describes same.sorted same.eligible
      same.seedSpans.ascending
    · intro aliasId
      show (options.seed aliasId).length ≤ 1
      rw [same.seed]
      exact anchorSeed_length problem aliasId
    · intro aliasId bound
      rw [Describes.seedResidency_eq same.describes same.sorted bound, ← same.seed]
    · exact deviceBound
  metered := metered_start same.sorted same.seedSpans
  steps := rfl

/-- While sums of bytes are words and sizes are compared on one side of `2 ^ 63`, the compiled
reducer makes the steps of the readable one and ends as it does. -/
theorem reduceResidencyReusing_agrees
    (same : SameReduction facts problem deviceId options additions)
    (fits : SeedFits problem options) (words : FitsWords problem)
    (sided : ComparesOneSided problem options (startReduction problem options)) :
    ∃ result fuel outcome, reduceResidencyReusing problem options = some result ∧
      reducePressure facts options.minimizeTransfer options.fetchHeadroom additions fuel
        (seedResidency facts) = some outcome ∧
      SameOutcome problem deviceId result outcome := by
  have boundaries : 0 < problem.boundaryCount := by
    rw [← same.describes.taskCount]
    exact Nat.succ_pos _
  have devices := same.describes.devicesPositive
  unfold reduceResidencyReusing
  rw [if_neg (by omega)]
  have few : activeCount problem options (startReduction problem options) <
      (seedIndex problem options.seed).cuts.length + 1 := by
    unfold activeCount
    have bound := @List.length_filter_le _ (startReduction problem options).active
      (List.range (seedIndex problem options.seed).cuts.length)
    rw [List.length_range] at bound
    exact Nat.lt_succ_of_le bound
  obtain ⟨result, outcome, ends, endsToo, agree⟩ := (agrees_start same).loop same fits words _
    sided (reached_start same.sorted same.seedSpans) few
  exact ⟨result, _, outcome, ends, endsToo, agree⟩

/-- The steps of the reference are never taken back. -/
theorem reduceRounds_steps {minimizeTransfer fetchHeadroom : Bool} (fuel : Nat)
    {plan : ResidencyPlan} {pressure : String → Nat → Int} {steps : List (String × Int × Cut)}
    {outcome : Outcome × List (String × Int × Cut)}
    (ends : reduceRounds facts minimizeTransfer fetchHeadroom additions fuel plan pressure
      steps = some outcome) : steps <+: outcome.2 := by
  induction fuel generalizing plan pressure steps with
  | zero => cases ends
  | succ fuel ih =>
      rw [reduceRounds] at ends
      cases selected : selectWorst facts additions pressure with
      | none =>
          rw [selected] at ends
          obtain rfl := Option.some.inj ends
          exact List.prefix_rfl
      | some worst =>
          rw [selected] at ends
          simp only at ends
          cases chosen : firstMin (cutScore facts minimizeTransfer worst.boundary)
              (legalCuts facts plan worst.boundary worst.device) with
          | none =>
              rw [chosen] at ends
              obtain rfl := Option.some.inj ends
              exact List.prefix_rfl
          | some cut =>
              rw [chosen] at ends
              exact (List.prefix_append _ _).trans (ih ends)

end Steps

/-! ## Sums that leave 64 bits -/

/-- The facts of the program with two aliases of this size. -/
def sizedFacts (size : Nat) : PlanningFacts where
  aliasCount := 2
  taskCount := 2
  devices := ["device"]
  aliasSizes := fun _ => size
  aliasDevices := fun _ => "device"
  aliasRetainSpillCopy := fun _ => true
  finalLocations := fun aliasId => if aliasId = 0 then some .device else none
  anchors := fun aliasId => if aliasId = 0 then {-1, 1} else if aliasId = 1 then {0} else ∅
  accessEvents := fun aliasId => if aliasId = 1 then {(0, 1)} else ∅
  productionBoundaries := fun _ => ∅
  writeBoundaries := fun _ => ∅
  outputReservations := fun _ => []
  objectCapacityByBoundary := fun _ _ => size
  taskIdealEndNs := fun task => if task < 2 then task + 1 else 0
  fetchBandwidth := fun _ => size * 1000000000
  evictBandwidth := fun _ => size * 1000000000

/-- The problem with two aliases of this size. -/
def sized (size : Nat) : ResidencyProblem :=
  { halves with
    aliasSizeBytes := fun _ => size
    taskIdealEndNs := fun task => if task < 2 then task + 1 else 0
    boundaryCapacityBytes := fun _ _ => size }

theorem sized_runtime {size : Nat} (positive : 0 < size) (aliasId : Nat) (toDevice : Bool) :
    transferRuntimeNs (sizedFacts size) aliasId toDevice = 1 := by
  unfold transferRuntimeNs
  simp only [sizedFacts, ite_self]
  apply Nat.div_eq_of_lt_le
  · omega
  · omega

theorem sized_same {size : Nat} (positive : 0 < size) :
    SameReduction (sizedFacts size) (sized size) (fun _ => "device")
      halvesOptions (fun _ _ => 0) where
  describes := {
    aliasCount := rfl
    taskCount := rfl
    devicesPositive := Nat.one_pos
    devices := by
      intro device
      simp [sizedFacts, sized, halves, eq_comm]
    priorities := by
      intro first firstBound second secondBound
      simp only [sized, halves] at firstBound secondBound ⊢
      simp only [lt_irrefl, iff_false]
      omega
    distinct := by
      intro first firstBound second secondBound _
      simp only [sized, halves] at firstBound secondBound
      omega
    sizes := fun _ _ => rfl
    aliasDevices := fun _ _ => ⟨Nat.one_pos, rfl⟩
    retains := fun _ _ => rfl
    finalLocations := fun _ _ => rfl
    anchors := by
      intro aliasId bound boundary
      simp only [sizedFacts, sized, halves]
      split_ifs <;> simp [shifted, eq_comm]
    inside := by
      intro aliasId bound
      simp only [sized, halves]
      split_ifs <;> simp
    accesses := by
      intro aliasId bound anchor mem
      simp only [sized, halves] at mem
      split_ifs at mem with first second
      · subst first
        constructor <;>
          rcases List.mem_pair.1 mem with rfl | rfl <;> simp [sizedFacts]
      · subst second
        obtain rfl := List.mem_singleton.1 mem
        constructor <;> simp [sizedFacts, shifted]
      · cases mem
    accessed := by
      intro aliasId bound event mem
      simp only [sizedFacts] at mem
      split_ifs at mem with second
      · subst second
        obtain rfl := Finset.mem_singleton.1 mem
        simp [sizedFacts, sized, halves, shifted]
      · cases mem
    productions := by
      intro aliasId bound boundary
      simp only [sizedFacts, sized, halves]
      split_ifs <;> simp
    writesOrder := fun _ _ => List.Pairwise.nil
    writes := by
      intro aliasId bound boundary
      simp [sizedFacts, sized, halves]
    reservations := by
      intro aliasId bound index
      simp [sizedFacts, sized, halves]
    reservedAliases := by
      intro index bound
      simp [sizedFacts]
    capacities := fun _ _ _ _ => rfl
    idealEnds := fun _ _ => rfl
    fetches := fun aliasId _ => (sized_runtime positive aliasId _).trans rfl
    evicts := fun aliasId _ => (sized_runtime positive aliasId _).trans rfl }
  sorted := ⟨halves_sorted.anchors, halves_sorted.reserved⟩
  inside := by
    intro aliasId
    simp only [sized, halves]
    split_ifs <;> simp
  eligible := fun _ => rfl
  seed := by
    funext aliasId
    simp only [halvesOptions, anchorSeed, sized, halves]
    split_ifs <;> rfl
  extra := fun _ _ _ _ => rfl

theorem sized_words {size : Nat} (word : size < Word64.modulus) : FitsWords (sized size) where
  sizes := fun _ _ => word
  idealEnds := by
    intro task
    simp only [sized, Word64.modulus]
    split_ifs <;> omega
  fetches := fun _ => show 1 < Word64.modulus by decide
  evicts := fun _ => show 1 < Word64.modulus by decide

/-- All sizes are the same one. -/
theorem sized_oneSided (size : Nat) (options : ReduceOptions) (reduction : Reduction) :
    ComparesOneSided (sized size) options reduction :=
  fun _ _ _ _ _ _ _ _ _ _ _ _ _ => Iff.rfl

/-- The charge of the middle boundary reads zero when the two sizes sum to 64 bits: the
compiled reducer stops where the readable one cuts. -/
theorem sized_disagree :
    SameReduction (sizedFacts (2 ^ 63)) (sized (2 ^ 63)) (fun _ => "device") halvesOptions
        (fun _ _ => 0) ∧
      FitsWords (sized (2 ^ 63)) ∧
      ∀ result fuel outcome,
        reduceResidencyReusing (sized (2 ^ 63)) halvesOptions = some result →
          reducePressure (sizedFacts (2 ^ 63)) halvesOptions.minimizeTransfer
            halvesOptions.fetchHeadroom (fun _ _ => 0) fuel
            (seedResidency (sizedFacts (2 ^ 63))) = some outcome →
          ¬ SameOutcome (sized (2 ^ 63)) (fun _ => "device") result outcome := by
  refine ⟨sized_same (by decide), sized_words (by decide), ?_⟩
  intro result fuel outcome ends endsToo agree
  have stops : (reduceResidencyReusing (sized (2 ^ 63)) halvesOptions).all
      (fun result => result.steps.isEmpty) = true := by decide
  rw [ends, Option.all_some, List.isEmpty_iff] at stops
  have cuts : (selectWorst (sizedFacts (2 ^ 63)) (fun _ _ => 0)
      (pressureByDevice (sizedFacts (2 ^ 63)) halvesOptions.fetchHeadroom
        (seedResidency (sizedFacts (2 ^ 63))))).any (fun worst =>
      (firstMin (cutScore (sizedFacts (2 ^ 63)) halvesOptions.minimizeTransfer worst.boundary)
        (legalCuts (sizedFacts (2 ^ 63)) (seedResidency (sizedFacts (2 ^ 63))) worst.boundary
          worst.device)).isSome) = true := by decide +kernel
  have same := agree.1
  rw [stops, List.map_nil, List.map_eq_nil_iff] at same
  unfold reducePressure at endsToo
  cases fuel with
  | zero => cases endsToo
  | succ fuel =>
      rw [reduceRounds] at endsToo
      obtain ⟨worst, selected, chosen⟩ := Option.any_eq_true .. |>.mp cuts
      obtain ⟨cut, isChosen⟩ := Option.isSome_iff_exists.1 chosen
      rw [selected] at endsToo
      simp only at endsToo
      rw [isChosen] at endsToo
      have longer := (reduceRounds_steps fuel endsToo).length_le
      rw [same] at longer
      simp at longer

theorem sized_agree :
    ∃ result fuel outcome,
      reduceResidencyReusing (sized 1) halvesOptions = some result ∧
      reducePressure (sizedFacts 1) halvesOptions.minimizeTransfer
        halvesOptions.fetchHeadroom (fun _ _ => 0) fuel
        (seedResidency (sizedFacts 1)) = some outcome ∧
      SameOutcome (sized 1) (fun _ => "device") result outcome :=
  reduceResidencyReusing_agrees (sized_same Nat.one_pos)
    (by unfold SeedFits; decide) (sized_words (by decide)) (sized_oneSided 1 _ _)

end ShadowSpill.Reference.ResidencyAgreement
