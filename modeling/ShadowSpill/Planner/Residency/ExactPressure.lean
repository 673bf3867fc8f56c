import ShadowSpill.Planner.Residency.ReduceResult

/-!
# Pressure kept up to date

A cut takes from the tree what the cut span and its parts differ by.  Where it relieves
no boundary charged for another span, as it does where it ends in the span it starts in,
what the tree reads stays the sum of the charges of the spans, and the heap goes on
holding every boundary over its capacity.
-/

namespace ShadowSpill.Planner.Residency.ExactPressure

open ShadowSpill Library Library.Intervals Problem Spans Cuts CutLegality CutChoice CutEffect
open ExcessHeap LostCharges PressureTree Reduce ReduceRuns ReduceResult

/-! ## The hull of the anchors -/

section Hull

variable {problem : ResidencyProblem} {aliasId boundary : Nat} {spans : List Interval}

theorem anchorSeed_length (problem : ResidencyProblem) (aliasId : Nat) :
    (anchorSeed problem aliasId).length ≤ 1 := by
  unfold anchorSeed
  split <;> simp

theorem mem_anchorSeed {span : Interval} (mem : span ∈ anchorSeed problem aliasId) :
    ∃ first last, (problem.anchors aliasId).head? = some first ∧
      (problem.anchors aliasId).getLast? = some last ∧
      span = ⟨first.position, last.position⟩ := by
  unfold anchorSeed at mem
  cases isFirst : (problem.anchors aliasId).head? with
  | none => simp [isFirst] at mem
  | some first =>
      cases isLast : (problem.anchors aliasId).getLast? with
      | none => simp [isFirst, isLast] at mem
      | some last =>
          simp only [isFirst, isLast, List.mem_singleton] at mem
          exact ⟨first, last, rfl, rfl, mem⟩

/-- Both ends of the hull are anchored. -/
theorem anchorSeed_anchored {span : Interval} (mem : span ∈ anchorSeed problem aliasId) :
    Anchored problem aliasId span.start ∧ Anchored problem aliasId span.finish := by
  obtain ⟨first, last, isFirst, isLast, rfl⟩ := mem_anchorSeed mem
  exact ⟨⟨first, List.mem_of_mem_head? isFirst, rfl⟩,
    ⟨last, List.mem_of_mem_getLast? isLast, rfl⟩⟩

theorem anchorSeed_seedSpans (sorted : SortedLists problem)
    (inside : ∀ aliasId, ∀ anchor ∈ problem.anchors aliasId,
      anchor.position < problem.boundaryCount) :
    SeedSpans problem (anchorSeed problem) where
  ascending := by
    intro aliasId
    cases seed : anchorSeed problem aliasId with
    | nil => exact ascending_nil
    | cons span rest =>
        have few := anchorSeed_length problem aliasId
        rw [seed, List.length_cons] at few
        obtain rfl : rest = [] := List.length_eq_zero_iff.1 (by omega)
        obtain ⟨first, last, isFirst, isLast, rfl⟩ :=
          mem_anchorSeed (by rw [seed]; exact List.mem_cons_self)
        refine ascending_cons.2 ⟨?_, by simp, ascending_nil⟩
        have order := List.pairwise_map.1 (sorted.anchors aliasId)
        cases anchors : problem.anchors aliasId with
        | nil => simp [anchors] at isFirst
        | cons head tail =>
            rw [anchors] at isFirst isLast order
            obtain rfl := Option.some.inj isFirst
            rcases List.mem_cons.1 (List.mem_of_mem_getLast? isLast) with rfl | later
            · exact le_rfl
            · exact le_of_lt ((List.pairwise_cons.1 order).1 last later)
  bounded := by
    intro aliasId span mem
    obtain ⟨anchor, anchorMem, here⟩ := (anchorSeed_anchored mem).2
    rw [← here]
    exact inside aliasId anchor anchorMem

/-- The first boundary is in the hull only when it is anchored. -/
theorem anchored_of_covers_zero (held : Covers (anchorSeed problem aliasId) 0) :
    Anchored problem aliasId 0 := by
  obtain ⟨span, mem, lower, _⟩ := held
  have start := (anchorSeed_anchored mem).1
  rwa [Nat.le_zero.1 lower] at start

/-- No residency within the hull has a prefix to cut. -/
theorem prefixRequired_hull (sorted : SortedLists problem)
    (within : Within problem (seedGeometry problem (anchorSeed problem))
      (anchorSeed problem aliasId) spans aliasId) (required : Nat) :
    prefixRequired problem (seedGeometry problem (anchorSeed problem)) spans aliasId ≠
      some required := by
  intro spilled
  obtain ⟨⟨resident, _, free⟩, _⟩ := (prefixRequired_eq_some sorted within.ascending).1 spilled
  exact free (anchored_of_covers_zero (within.covers 0 resident))

end Hull

/-! ## Cuts of one span -/

/-- Where a spilled alias is resident in the seed from the first boundary and has no
anchor there, one span holds all that lies before its first required boundary. -/
def PrefixWhole (problem : ResidencyProblem) (seed : Nat → List Interval) : Prop :=
  ∀ aliasId < problem.aliasCount, ∀ required,
    prefixRequired problem (seedGeometry problem seed) (seed aliasId) aliasId =
      some required →
    ∃ span ∈ seed aliasId, span.start = 0 ∧ required - 1 ≤ span.finish

section OneSpan

variable {problem : ResidencyProblem} {seed : Nat → List Interval} {aliasId boundary : Nat}
  {spans : List Interval}

/-- The hull of the anchors has no prefix at all. -/
theorem prefixWhole_hull (sorted : SortedLists problem)
    (ascending : ∀ aliasId, Ascending (anchorSeed problem aliasId)) :
    PrefixWhole problem (anchorSeed problem) := by
  intro aliasId _ required spilled
  obtain ⟨⟨resident, _, free⟩, _⟩ :=
    (prefixRequired_eq_some sorted (ascending aliasId)).1 spilled
  exact absurd (anchored_of_covers_zero resident) free

/-- The run of a seed lies within the span that holds one of its boundaries. -/
theorem run_in_span (sorted : SortedLists problem) (eligible : problem.mayCut aliasId = true)
    (within : Within problem (seedGeometry problem seed) (seed aliasId) spans aliasId)
    {run span : Interval} (runMem : run ∈ (seedGeometry problem seed).runs aliasId)
    (spanMem : span ∈ spans) (inRun : run.Contains boundary)
    (inSpan : span.Contains boundary) :
    span.start ≤ run.start ∧ run.finish ≤ span.finish := by
  have held : ∀ point, run.Contains point → Covers spans point := fun point inside =>
    within.runs run runMem boundary point inRun inside ⟨span, spanMem, inSpan⟩
  -- Neighbours of the run are joined, so a span that holds one of them holds both.
  have joined : ∀ point, run.Contains point → run.Contains (point + 1) →
      Joins spans point := by
    intro point lower upper
    have both := (runs_holds sorted eligible (Nat.le_succ point) le_rfl).1
      ⟨run, runMem, lower, upper⟩
    exact within.bonds point both.2.1 both.1 (held point lower) (held (point + 1) upper)
  have valid := within.ascending.valid span spanMem
  obtain ⟨runLower, runUpper⟩ := inRun
  obtain ⟨spanLower, spanUpper⟩ := inSpan
  constructor
  · by_contra before
    obtain ⟨other, otherMem, first, second⟩ := joined (span.start - 1)
      ⟨by omega, by omega⟩ ⟨by omega, by omega⟩
    have same := within.ascending.unique otherMem spanMem
      (show other.Contains span.start from ⟨by have lower := first.1; omega,
        by have upper := second.2; omega⟩) ⟨le_rfl, valid⟩
    subst same
    have lower := first.1
    omega
  · by_contra past
    obtain ⟨other, otherMem, first, second⟩ := joined span.finish
      ⟨by omega, by omega⟩ ⟨by omega, by omega⟩
    have same := within.ascending.unique otherMem spanMem first ⟨valid, le_rfl⟩
    subst same
    have upper := second.2
    omega

/-- What is left of a whole prefix lies in one span. -/
theorem prefix_in_span (sorted : SortedLists problem) (bound : aliasId < problem.aliasCount)
    (seedAscending : Ascending (seed aliasId)) (whole : PrefixWhole problem seed)
    (within : Within problem (seedGeometry problem seed) (seed aliasId) spans aliasId)
    {required : Nat}
    (spilled : prefixRequired problem (seedGeometry problem seed) spans aliasId =
      some required) {span : Interval} (spanMem : span ∈ spans) (first : span.Contains 0) :
    required - 1 ≤ span.finish := by
  obtain ⟨⟨resident, inSpill, free⟩, isFirst⟩ :=
    (prefixRequired_eq_some sorted within.ascending).1 spilled
  have seedSpilled : prefixRequired problem (seedGeometry problem seed) (seed aliasId) aliasId =
      some required :=
    (prefixRequired_eq_some sorted seedAscending).2
      ⟨⟨within.covers 0 resident, inSpill, free⟩, isFirst⟩
  obtain ⟨origin, originMem, starts, reaches⟩ := whole aliasId bound required seedSpilled
  obtain ⟨_, _, earliest⟩ := firstRequired_spec sorted isFirst
  have valid := within.ascending.valid span spanMem
  by_contra short
  -- The boundary after the span is still held, and no anchor parts the two.
  have held : Covers spans (span.finish + 1) :=
    within.spilled required seedSpilled 0 (span.finish + 1) (by omega) (by omega)
      ⟨origin, originMem, by omega, by omega⟩ resident
  have unanchored : ¬ Anchored problem aliasId span.finish := by
    intro anchored
    rcases Nat.eq_zero_or_pos span.finish with zero | positive
    · rw [zero] at anchored
      exact free anchored
    · have late := earliest span.finish positive anchored
      omega
  obtain ⟨other, otherMem, lower, upper⟩ := within.bonds span.finish unanchored
    ⟨origin, originMem, ⟨by omega, by omega⟩, ⟨by omega, by omega⟩⟩
    ⟨span, spanMem, valid, le_rfl⟩ held
  obtain rfl := within.ascending.unique otherMem spanMem lower ⟨valid, le_rfl⟩
  have past := upper.2
  omega

/-- Where prefixes are whole every cut ends in the span it starts in. -/
theorem Offers.inOneSpan (sorted : SortedLists problem) (bound : aliasId < problem.aliasCount)
    (eligible : problem.mayCut aliasId = true) (seedAscending : Ascending (seed aliasId))
    (whole : PrefixWhole problem seed)
    (within : Within problem (seedGeometry problem seed) (seed aliasId) spans aliasId)
    {cut : ResidencyCut}
    (offers : Offers problem (seedGeometry problem seed) spans aliasId boundary cut) :
    InOneSpan spans cut := by
  obtain ⟨_, legal⟩ := offers
  intro span mem holds
  unfold cutFirst at holds
  cases legal with
  | spilledPrefix required spilled early =>
      rw [if_neg (by simp only; omega)] at holds
      have reaches := prefix_in_span sorted bound seedAscending whole within spilled mem holds
      simp only
      omega
  | run run late free runMem contains inner =>
      have valid := (runs_ascending sorted seedAscending eligible).valid run runMem
      rw [if_neg (by simp only; omega)] at holds
      have first : ((run.start : Int) - 1 + 1).toNat = run.start := by omega
      simp only [first] at holds
      have inside := run_in_span sorted eligible within runMem mem
        ⟨le_rfl, valid⟩ holds
      simp only
      omega
  | split anchor late anchorMem here joined unread =>
      rw [if_pos (by simp only; omega)] at holds
      exact holds.2

end OneSpan

/-! ## What the tree and the heap hold -/

/-- The tree reads what the spans charge at every boundary, which is what a fresh count
gives; and each boundary over its capacity is in the heap with that excess or more. -/
def ExactlyMetered (problem : ResidencyProblem) (options : ReduceOptions)
    (reduction : Reduction) : Prop :=
  ∀ device < problem.deviceCount, ∀ boundary < problem.boundaryCount,
    let charged := chargeBytes problem options.fetchHeadroom reduction.spans device boundary
    let used := charged + options.extraPressureBytes device boundary
    (treePressureAt reduction.pressure device boundary).toNat = charged ∧
      pressureAt problem options.fetchHeadroom reduction.spans device boundary =
        some charged ∧
      (problem.boundaryCapacityBytes device boundary < used →
        ∃ entry ∈ reduction.entries, entry.device = device ∧ entry.boundary = boundary ∧
          used - problem.boundaryCapacityBytes device boundary ≤ entry.excess)

/-- A step of the reduction that applies a cut. -/
def AppliesCut (problem : ResidencyProblem) (options : ReduceOptions) (reduction later : Reduction) :
    Prop :=
  reduceStep problem options (seedGeometry problem options.seed)
    (seedIndex problem options.seed) reduction = some (.continues later)

/-- A step that applies a cut which relieves one span only. -/
structure AppliesWithin (problem : ResidencyProblem) (options : ReduceOptions)
    (reduction later : Reduction) : Prop where
  applies : AppliesCut problem options reduction later
  relieves : ∀ step ∈ later.steps.getLast?,
    RelievesOneSpan problem options.fetchHeadroom reduction.spans step.2.2

section Exact

variable {problem : ResidencyProblem} {options : ReduceOptions} {reduction : Reduction}

/-- Where a cut ends in the span it starts in, it relieves that span only. -/
theorem Applied.relieves {later : Reduction} {cut : ResidencyCut} {lost : List Interval}
    (applied : Applied problem options reduction later cut lost)
    (oneSpan : InOneSpan (reduction.spans cut.aliasId) cut) :
    RelievesOneSpan problem options.fetchHeadroom reduction.spans cut := by
  refine Or.inr fun span mem holds boundary was gone => ?_
  rw [← applied.spans] at gone
  exact ((applied.exactly span mem holds boundary).1
    (applied.complete oneSpan boundary was gone)).1

/-- Where a cut relieves one span only, what is left metered is what is charged. -/
theorem Applied.relieved_eq {later : Reduction} {cut : ResidencyCut} {lost : List Interval}
    (applied : Applied problem options reduction later cut lost)
    (bound : cut.aliasId < problem.aliasCount) (eligible : problem.mayCut cut.aliasId = true)
    (started : Covers (reduction.spans cut.aliasId) (cutFirst cut))
    (oneSpan : RelievesOneSpan problem options.fetchHeadroom reduction.spans cut) :
    relieved problem (chargeBytes problem options.fetchHeadroom reduction.spans) cut.aliasId
        lost = chargeBytes problem options.fetchHeadroom later.spans := by
  funext device boundary
  have others : ∀ other, other ≠ cut.aliasId → later.spans other = reduction.spans other := by
    intro other different
    rw [applied.spans, applyCut_other _ _ different]
  have change := @chargeBytes_change problem options.fetchHeadroom reduction.spans device
    boundary later.spans cut.aliasId others bound eligible
  have falls := applied.falls boundary
  unfold relieved
  rcases oneSpan with empty | oneSpan
  · rw [empty] at change ⊢
    simp only [ite_self, Nat.add_zero] at change ⊢
    exact change.symm
  have covers : Covers lost boundary ↔
      chargedAt problem options.fetchHeadroom reduction.spans cut.aliasId boundary = true ∧
        ¬ chargedAt problem options.fetchHeadroom later.spans cut.aliasId boundary = true := by
    refine ⟨applied.sound boundary, fun both => ?_⟩
    obtain ⟨span, mem, holds⟩ := started
    have gone := both.2
    rw [applied.spans] at gone
    exact (applied.exactly span mem holds boundary).2
      ⟨oneSpan span mem holds boundary both.1 gone, both.2⟩
  by_cases here : problem.aliasDevice cut.aliasId = device
  · by_cases was : chargedAt problem options.fetchHeadroom reduction.spans cut.aliasId
        boundary = true
    · rw [if_pos ⟨here, was⟩] at change
      by_cases now : chargedAt problem options.fetchHeadroom later.spans cut.aliasId
          boundary = true
      · rw [if_pos ⟨here, now⟩] at change
        rw [if_neg (fun both => (covers.1 both.2).2 now)]
        omega
      · rw [if_neg (fun both => now both.2)] at change
        rw [if_pos ⟨here.symm, covers.2 ⟨was, now⟩⟩]
        omega
    · rw [if_neg (fun both => was both.2), if_neg (fun both => was (falls both.2))] at change
      rw [if_neg (fun both => was (covers.1 both.2).1)]
      omega
  · rw [if_neg (fun both => here both.1), if_neg (fun both => here both.1)] at change
    rw [if_neg (fun both => here both.1.symm)]
    omega

/-- A tree that meters the charges themselves is exact. -/
theorem Metered.exactly (fits : SeedFits problem options)
    (metered : Metered problem options reduction
      (chargeBytes problem options.fetchHeadroom reduction.spans)) :
    ExactlyMetered problem options reduction := by
  intro device deviceBound boundary boundaryBound charged used
  have below := metered.upper device boundary boundaryBound
  have small := fits device deviceBound boundary boundaryBound
  have inWord : charged < Word64.modulus := by
    apply lt_of_le_of_lt below
    omega
  have asked := metered.usedAt_eq fits deviceBound boundaryBound
  refine ⟨?_, ?_, ?_⟩
  · rw [metered.reads.at device boundaryBound, BitVec.toNat_ofNat]
    exact Nat.mod_eq_of_lt inWord
  · rw [pressureAt_eq deviceBound boundaryBound]
    exact if_pos inWord
  · intro exceeds
    have tracked := metered.tracks device deviceBound boundary boundaryBound
    unfold excessAt at tracked
    rw [asked] at tracked
    exact tracked (Nat.sub_pos_of_lt exceeds)

/-- Where prefixes are whole every step relieves one span only. -/
theorem AppliesCut.within (sorted : SortedLists problem)
    (seed : SeedSpans problem options.seed) (whole : PrefixWhole problem options.seed)
    (reached : Reached problem options reduction) {later : Reduction}
    (applies : AppliesCut problem options reduction later) :
    AppliesWithin problem options reduction later := by
  refine ⟨applies, ?_⟩
  obtain ⟨result, stepped, step⟩ := reduceStep_cases sorted seed reached
  unfold AppliesCut at applies
  obtain rfl := Option.some.inj (stepped.symm.trans applies)
  cases step with
  | cuts entries worst cursors chosenId item served passed best relieves active found =>
      have isIndexed := indexed sorted seed.ascending found
      have offers := reached.offers sorted seed found active le_rfl isIndexed.ordered
      have oneSpan : InOneSpan (reduction.spans item.cut.aliasId) item.cut :=
        Offers.inOneSpan sorted isIndexed.aliasBound isIndexed.eligible
          (seed.ascending _) whole (reached.within _ isIndexed.eligible) offers
      obtain ⟨lost, applied⟩ := @Reached.applied problem options reduction sorted seed reached
        chosenId item found active
        { reduction with
          entries := entries
          cursors := cursors
          steps := reduction.steps ++ [(worst.device, worst.boundary, item.cut)] } rfl
      rw [applied.steps]
      intro last isLast
      rw [List.getLast?_concat] at isLast
      cases isLast
      have relieving := Applied.relieves applied oneSpan
      exact relieving

/-- A cut that relieves one span only leaves the tree with the charges of what is left. -/
theorem StepCase.exactly (sorted : SortedLists problem)
    (seed : SeedSpans problem options.seed) (fits : SeedFits problem options)
    (reached : Reached problem options reduction)
    (metered : Metered problem options reduction
      (chargeBytes problem options.fetchHeadroom reduction.spans)) {later : Reduction}
    (relieving : ∀ step ∈ later.steps.getLast?,
      RelievesOneSpan problem options.fetchHeadroom reduction.spans step.2.2)
    (step : StepCase problem options reduction (.continues later)) :
    Metered problem options later
      (chargeBytes problem options.fetchHeadroom later.spans) := by
  cases step with
  | cuts entries worst cursors chosenId item served passed best relieves active found =>
      have isIndexed := indexed sorted seed.ascending found
      have offers := reached.offers sorted seed found active le_rfl isIndexed.ordered
      have started := Offers.first_covered sorted (reached.within _ isIndexed.eligible)
        (runs_ascending sorted (seed.ascending _) isIndexed.eligible) offers
      obtain ⟨lost, applied⟩ := @Reached.applied problem options reduction sorted seed reached
        chosenId item found active
        { reduction with
          entries := entries
          cursors := cursors
          steps := reduction.steps ++ [(worst.device, worst.boundary, item.cut)] } rfl
      have before : Metered problem options
          { reduction with
            entries := entries
            cursors := cursors
            steps := reduction.steps ++ [(worst.device, worst.boundary, item.cut)] }
          (chargeBytes problem options.fetchHeadroom reduction.spans) :=
        ⟨metered.reads, metered.lower, metered.upper, served.tracks metered.tracks⟩
      rw [applied.steps, List.getLast?_concat] at relieving
      have oneSpan := relieving _ rfl
      have left := before.applied fits applied isIndexed.aliasBound isIndexed.eligible
      rwa [Applied.relieved_eq applied isIndexed.aliasBound isIndexed.eligible started
        oneSpan] at left

/-- What a run of cuts reaches is metered by its own charges. -/
theorem run_metered (sorted : SortedLists problem) (seed : SeedSpans problem options.seed)
    (fits : SeedFits problem options)
    (run : Relation.ReflTransGen (AppliesWithin problem options)
      (startReduction problem options) reduction) :
    Reached problem options reduction ∧ Metered problem options reduction
      (chargeBytes problem options.fetchHeadroom reduction.spans) := by
  induction run with
  | refl => exact ⟨reached_start sorted seed, metered_start sorted seed⟩
  | tail earlier cuts ih =>
      obtain ⟨reached, metered⟩ := ih
      obtain ⟨result, stepped, step⟩ := reduceStep_cases sorted seed reached
      have applies := cuts.applies
      unfold AppliesCut at applies
      obtain rfl := Option.some.inj (stepped.symm.trans applies)
      exact ⟨step.reached sorted seed reached,
        StepCase.exactly sorted seed fits reached metered cuts.relieves step⟩

/-- After any cuts, of a seed whose sums fit in 64 bits, that each relieve one span only, the
tree reads what the spans charge and the heap holds every boundary over its capacity. -/
theorem run_exactly_metered (sorted : SortedLists problem)
    (seed : SeedSpans problem options.seed) (fits : SeedFits problem options)
    (run : Relation.ReflTransGen (AppliesWithin problem options)
      (startReduction problem options) reduction) : ExactlyMetered problem options reduction :=
  Metered.exactly fits (run_metered sorted seed fits run).2

end Exact

/-! ## Where the two part -/

/-- The middle boundary of the two halves bears 64 bits' worth, which the tree reads as
nothing and a fresh count refuses; the heap has no entry for it. -/
theorem halves_inexact :
    ¬ ∀ (problem : ResidencyProblem) (options : ReduceOptions) (reduction : Reduction),
      SortedLists problem → SeedSpans problem options.seed →
        Relation.ReflTransGen (AppliesCut problem options) (startReduction problem options)
          reduction → ExactlyMetered problem options reduction := by
  intro exactly
  have reads := (exactly halves halvesOptions (startReduction halves halvesOptions)
    halves_sorted halves_seed .refl 0 (by decide) 1 (by decide)).1
  have differs : (treePressureAt (startReduction halves halvesOptions).pressure 0 1).toNat ≠
      chargeBytes halves halvesOptions.fetchHeadroom
        (startReduction halves halvesOptions).spans 0 1 := by decide
  exact differs reads

theorem bytes_sorted : SortedLists bytes := ⟨halves_sorted.anchors, halves_sorted.reserved⟩

theorem bytes_seed : SeedSpans bytes halvesOptions.seed :=
  ⟨halves_seed.ascending, halves_seed.bounded⟩

theorem bytes_fits : SeedFits bytes halvesOptions := by
  unfold SeedFits
  decide

theorem bytes_whole : PrefixWhole bytes halvesOptions.seed := by
  intro aliasId bound required spilled
  have nothing : ∀ aliasId < bytes.aliasCount, prefixRequired bytes
      (seedGeometry bytes halvesOptions.seed) (halvesOptions.seed aliasId) aliasId = none := by
    decide
  rw [nothing aliasId bound] at spilled
  cases spilled

/-- One byte each still exceeds the middle boundary, where the first alias may be cut. -/
theorem bytes_cuts :
    ∃ later, AppliesCut bytes halvesOptions (startReduction bytes halvesOptions) later := by
  obtain ⟨result, stepped, step⟩ :=
    reduceStep_cases bytes_sorted bytes_seed (reached_start bytes_sorted bytes_seed)
  have metered := metered_start bytes_sorted bytes_seed
  cases step with
  | fits entries served =>
      have within := @Served.none _ _ _ _ _ served metered.tracks 0 1 (by decide) (by decide)
      have exceeds : ¬ usedAt halvesOptions (startReduction bytes halvesOptions).pressure 0 1 ≤
        bytes.boundaryCapacityBytes 0 1 := by decide
      exact absurd within exceeds
  | stuck entries worst served nothing =>
      obtain ⟨device, boundary⟩ :=
        served.formed.inRange worst (List.mem_of_getElem? served.first)
      obtain ⟨positive, excess⟩ := served.exactly worst rfl
      -- The middle boundary is the only one in excess.
      have within : ∀ device < 1, ∀ boundary < 3, boundary ≠ 1 → excessAt bytes halvesOptions
          (startReduction bytes halvesOptions).pressure device boundary = 0 := by decide
      have onlyDevice : worst.device = 0 := Nat.lt_one_iff.1 device
      have middle : worst.boundary = 1 := by
        by_contra other
        have none_ := within worst.device device worst.boundary boundary other
        omega
      have recorded : ((seedIndex bytes halvesOptions.seed).cut 1).any (fun item =>
          decide (bytes.aliasDevice item.cut.aliasId = 0 ∧ item.firstBoundary ≤ 1 ∧
            1 ≤ item.lastBoundary)) = true := by decide
      obtain ⟨item, found, holds⟩ := Option.any_eq_true .. |>.mp recorded
      refine absurd ⟨⟨item, found, ?_⟩, rfl⟩ (nothing 1)
      rw [onlyDevice, middle]
      exact of_decide_eq_true holds
  | cuts entries worst cursors chosenId item served passed best relieves active found =>
      exact ⟨_, stepped⟩

theorem bytes_exactly_metered :
    ∃ later, AppliesCut bytes halvesOptions (startReduction bytes halvesOptions) later ∧
      ExactlyMetered bytes halvesOptions later := by
  obtain ⟨later, cuts⟩ := bytes_cuts
  have within := AppliesCut.within bytes_sorted bytes_seed bytes_whole
    (reached_start bytes_sorted bytes_seed) cuts
  exact ⟨later, cuts, run_exactly_metered bytes_sorted bytes_seed bytes_fits (.single within)⟩

end ShadowSpill.Planner.Residency.ExactPressure
