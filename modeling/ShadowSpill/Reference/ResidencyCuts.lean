import ShadowSpill.Planner.Residency.ExactPressure
import ShadowSpill.Reference.ResidencyFacts

/-!
# The cuts of the reference

Over the hull of the anchors every gap the reference finds in a span is a run of the
seed, and its cuts are those the compiled reducer offers.  No span reaches the first
boundary but from an anchor there.
-/

namespace ShadowSpill.Reference.ResidencyCuts

open Library Library.Intervals Planner.Residency.Problem Planner.Residency.Spans
open Planner.Residency.Cuts Planner.Residency.CutLegality Planner.Residency.CutEffect
open Planner.Residency.ReduceRuns Planner.Residency.ExactPressure Residency ResidencyFacts

/-! ## Runs of the hull -/

section Hull

variable {problem : ResidencyProblem} {aliasId : Nat}

/-- No run of the hull begins at the first boundary. -/
theorem run_positive (sorted : SortedLists problem) (eligible : problem.mayCut aliasId = true)
    (seedAscending : Ascending (anchorSeed problem aliasId)) {run : Interval}
    (mem : run ∈ (seedGeometry problem (anchorSeed problem)).runs aliasId) : 0 < run.start := by
  by_contra first
  have valid := (runs_ascending sorted seedAscending eligible).valid run mem
  have held := (runs_covers sorted eligible 0).1 ⟨run, mem, by omega, by omega⟩
  exact held.2 (anchored_of_covers_zero held.1)

end Hull

/-! ## Gaps -/

section Gaps

variable {anchors : Finset Int}

theorem gapStart_spec (low : Int) (fuel : Nat) {start : Int} (above : low ≤ start)
    (enough : start - low ≤ fuel) :
    low ≤ gapStart anchors low fuel start ∧ gapStart anchors low fuel start ≤ start ∧
      (∀ point, gapStart anchors low fuel start ≤ point → point < start → point ∉ anchors) ∧
      (low < gapStart anchors low fuel start →
        gapStart anchors low fuel start - 1 ∈ anchors) := by
  induction fuel generalizing start with
  | zero =>
      unfold gapStart
      exact ⟨above, le_rfl, fun _ _ _ => by omega, fun _ => by omega⟩
  | succ fuel ih =>
      unfold gapStart
      by_cases goesOn : start > low ∧ start - 1 ∉ anchors
      · rw [if_pos goesOn]
        obtain ⟨lower, upper, free, ends⟩ := @ih (start - 1) (by omega) (by omega)
        refine ⟨lower, by omega, ?_, ends⟩
        intro point from_ before
        by_cases last : point = start - 1
        · rw [last]
          exact goesOn.2
        · exact free point from_ (by omega)
      · rw [if_neg goesOn]
        refine ⟨above, le_rfl, fun _ _ _ => by omega, ?_⟩
        intro later
        by_contra absent
        exact goesOn ⟨later, absent⟩

theorem gapFinish_spec (high : Int) (fuel : Nat) {finish : Int} (below : finish ≤ high)
    (enough : high - finish ≤ fuel) :
    gapFinish anchors high fuel finish ≤ high ∧ finish ≤ gapFinish anchors high fuel finish ∧
      (∀ point, finish < point → point ≤ gapFinish anchors high fuel finish →
        point ∉ anchors) ∧
      (gapFinish anchors high fuel finish < high →
        gapFinish anchors high fuel finish + 1 ∈ anchors) := by
  induction fuel generalizing finish with
  | zero =>
      unfold gapFinish
      exact ⟨below, le_rfl, fun _ _ _ => by omega, fun _ => by omega⟩
  | succ fuel ih =>
      unfold gapFinish
      by_cases goesOn : finish < high ∧ finish + 1 ∉ anchors
      · rw [if_pos goesOn]
        obtain ⟨upper, lower, free, ends⟩ := @ih (finish + 1) (by omega) (by omega)
        refine ⟨upper, by omega, ?_, ends⟩
        intro point past until_
        by_cases first : point = finish + 1
        · rw [first]
          exact goesOn.2
        · exact free point (by omega) until_
      · rw [if_neg goesOn]
        refine ⟨below, le_rfl, fun _ _ _ => by omega, ?_⟩
        intro earlier
        by_contra absent
        exact goesOn ⟨earlier, absent⟩

end Gaps

/-! ## The cut of a span -/

section SpanCut

variable {facts : PlanningFacts} {problem : ResidencyProblem} {deviceId : Nat → String}
  {aliasId boundary : Nat} {spans : List Interval}

/-- The gap around a boundary is the run that holds it. -/
theorem gap_eq_run (describes : Describes facts problem deviceId)
    (sorted : SortedLists problem) (bound : aliasId < problem.aliasCount)
    (eligible : problem.mayCut aliasId = true)
    (seedAscending : Ascending (anchorSeed problem aliasId))
    (within : Within problem (seedGeometry problem (anchorSeed problem))
      (anchorSeed problem aliasId) spans aliasId) {span run : Interval} (mem : span ∈ spans)
    (inSpan : span.Contains boundary)
    (runMem : run ∈ (seedGeometry problem (anchorSeed problem)).runs aliasId)
    (inRun : run.Contains boundary) :
    gapStart (facts.anchors aliasId) (toSpan span).start
        (shifted boundary - (toSpan span).start).toNat (shifted boundary) = shifted run.start ∧
      gapFinish (facts.anchors aliasId) (toSpan span).finish
        ((toSpan span).finish - shifted boundary).toNat (shifted boundary) =
          shifted run.finish := by
  have inside := run_in_span sorted eligible within runMem mem inRun inSpan
  have runsAscending := runs_ascending sorted seedAscending eligible
  have free : ∀ point : Nat, run.Contains point → shifted point ∉ facts.anchors aliasId := by
    intro point held
    rw [describes.anchored bound]
    exact run_free sorted eligible runMem held
  -- Boundaries of the span with no anchor between them lie in one run.
  have joinRun : ∀ point : Nat, span.Contains point → span.Contains (point + 1) →
      shifted point ∉ facts.anchors aliasId → shifted (point + 1) ∉ facts.anchors aliasId →
      (run.Contains point ↔ run.Contains (point + 1)) := by
    intro point lower upper firstFree secondFree
    rw [describes.anchored bound] at firstFree secondFree
    obtain ⟨other, otherMem, first, second⟩ :=
      (runs_holds sorted eligible (Nat.le_succ point) le_rfl).2
        ⟨within.joins point ⟨span, mem, lower, upper⟩, firstFree, secondFree⟩
    constructor
    · intro held
      rwa [runsAscending.unique runMem otherMem held first]
    · intro held
      rwa [runsAscending.unique runMem otherMem held second]
  obtain ⟨spanLower, spanUpper⟩ := inSpan
  obtain ⟨runLower, runUpper⟩ := inRun
  obtain ⟨startLow, startUp, startFree, startEnds⟩ := @gapStart_spec (facts.anchors aliasId)
    (toSpan span).start (shifted boundary - (toSpan span).start).toNat (shifted boundary)
    (by simp only [toSpan, shifted]; omega) (by omega)
  obtain ⟨finishUp, finishLow, finishFree, finishEnds⟩ :=
    @gapFinish_spec (facts.anchors aliasId) (toSpan span).finish
      ((toSpan span).finish - shifted boundary).toNat (shifted boundary)
      (by simp only [toSpan, shifted]; omega) (by omega)
  generalize gapStart (facts.anchors aliasId) (toSpan span).start
    (shifted boundary - (toSpan span).start).toNat (shifted boundary) = first
    at startLow startUp startFree startEnds ⊢
  generalize gapFinish (facts.anchors aliasId) (toSpan span).finish
    ((toSpan span).finish - shifted boundary).toNat (shifted boundary) = last
    at finishUp finishLow finishFree finishEnds ⊢
  simp only [toSpan, shifted] at startLow startUp finishUp finishLow startEnds finishEnds
  have boundaryFree : shifted boundary ∉ facts.anchors aliasId :=
    free boundary ⟨runLower, runUpper⟩
  have downwards : ∀ steps : Nat, ∀ point : Nat, point + steps = boundary →
      first ≤ shifted point → run.Contains point := by
    intro steps
    induction steps with
    | zero =>
        rintro point rfl _
        exact ⟨runLower, runUpper⟩
    | succ steps ih =>
        intro point total from_
        have next := ih (point + 1) (by omega) (by simp only [shifted] at from_ ⊢; omega)
        simp only [shifted] at from_
        have nextFree : shifted (point + 1) ∉ facts.anchors aliasId := free (point + 1) next
        have ownFree : shifted point ∉ facts.anchors aliasId :=
          startFree (shifted point) (by simp only [shifted]; omega)
            (by simp only [shifted]; omega)
        exact (joinRun point ⟨by omega, by omega⟩ ⟨by omega, by omega⟩ ownFree nextFree).2 next
  have upwards : ∀ steps : Nat, shifted (boundary + steps) ≤ last →
      run.Contains (boundary + steps) := by
    intro steps
    induction steps with
    | zero =>
        intro _
        exact ⟨runLower, runUpper⟩
    | succ steps ih =>
        intro until_
        simp only [shifted] at until_
        have previous := ih (by simp only [shifted]; omega)
        have previousFree : shifted (boundary + steps) ∉ facts.anchors aliasId :=
          free (boundary + steps) previous
        have ownFree : shifted (boundary + steps + 1) ∉ facts.anchors aliasId :=
          finishFree (shifted (boundary + steps + 1)) (by simp only [shifted]; omega)
            (by simp only [shifted]; omega)
        exact (joinRun (boundary + steps) ⟨by omega, by omega⟩ ⟨by omega, by omega⟩
          previousFree ownFree).1 previous
  constructor
  · have reached := downwards (boundary - (first + 1).toNat) (first + 1).toNat (by omega)
      (by simp only [shifted]; omega)
    obtain ⟨lower, _⟩ := reached
    by_contra different
    simp only [shifted] at different
    have anchored := startEnds (by omega)
    have inRun : shifted ((first + 1).toNat - 1) = first - 1 := by
      simp only [shifted]
      omega
    rw [← inRun] at anchored
    exact free ((first + 1).toNat - 1) ⟨by omega, by omega⟩ anchored
  · have reached := upwards ((last + 1).toNat - boundary) (by simp only [shifted]; omega)
    obtain ⟨_, upper⟩ := reached
    by_contra different
    simp only [shifted] at different
    have anchored := finishEnds (by omega)
    have inRun : shifted ((last + 1).toNat + 1) = last + 1 := by
      simp only [shifted]
      omega
    rw [← inRun] at anchored
    exact free ((last + 1).toNat + 1) ⟨by omega, by omega⟩ anchored

/-- A span may be split where the compiled reducer splits it. -/
theorem canSplitAfter_iff (describes : Describes facts problem deviceId)
    (bound : aliasId < problem.aliasCount)
    {span : Interval} {anchor : Anchor} (anchorMem : anchor ∈ problem.anchors aliasId)
    (here : anchor.position = boundary) :
    canSplitAfter facts aliasId (toSpan span) (shifted boundary) ↔
      span.Contains boundary ∧ boundary < span.finish ∧
        ∀ task ∈ anchor.latest, (task : Int) ≤ shifted boundary := by
  have accesses := describes.accesses aliasId bound anchor anchorMem
  have anchored := (describes.anchored bound boundary).2 ⟨anchor, anchorMem, here⟩
  subst here
  unfold canSplitAfter
  rw [toSpan_contains]
  constructor
  · rintro ⟨contains, _, before, unread⟩
    refine ⟨contains, by simp only [toSpan, shifted] at before; omega, ?_⟩
    intro task isLatest
    by_contra later
    exact unread ⟨_, accesses.latestMem task isLatest, rfl, by simpa using later⟩
  · rintro ⟨contains, before, unread⟩
    refine ⟨contains, anchored, by simp only [toSpan, shifted]; omega, ?_⟩
    rintro ⟨⟨position, task⟩, mem, rfl, later⟩
    obtain ⟨latest, isLatest, above⟩ := accesses.latestBound task mem
    have bounded := unread latest isLatest
    simp only at later
    omega

/-- The cut of a span is the one the compiled reducer offers there. -/
theorem spanCut_eq_some (describes : Describes facts problem deviceId)
    (sorted : SortedLists problem) (bound : aliasId < problem.aliasCount)
    (eligible : problem.mayCut aliasId = true)
    (seedAscending : Ascending (anchorSeed problem aliasId))
    (within : Within problem (seedGeometry problem (anchorSeed problem))
      (anchorSeed problem aliasId) spans aliasId) {span : Interval} (mem : span ∈ spans)
    (position : Nat) (cut : Cut) :
    spanCut facts (shifted boundary) aliasId (toSpan span, position) = some cut ↔
      span.Contains boundary ∧ cut.aliasId = aliasId ∧ cut.spanIndex = position ∧
        Offers problem (seedGeometry problem (anchorSeed problem)) spans aliasId boundary
          ⟨aliasId, cut.start, cut.finish⟩ := by
  have runsAscending := runs_ascending sorted seedAscending eligible
  have noPrefix := prefixRequired_hull sorted within
  have late : ∀ required, prefixRequired problem (seedGeometry problem (anchorSeed problem))
      spans aliasId = some required → required ≤ boundary :=
    fun required spilled => absurd spilled (noPrefix required)
  unfold spanCut gapContaining
  by_cases anchored : Anchored problem aliasId boundary
  · rw [if_pos (Or.inl ((describes.anchored bound boundary).2 anchored))]
    simp only
    obtain ⟨anchor, anchorMem, here⟩ := anchored
    have splits := @canSplitAfter_iff facts problem deviceId aliasId boundary describes bound
      span anchor anchorMem here
    constructor
    · intro result
      split_ifs at result with can
      obtain ⟨contains, before, unread⟩ := splits.1 can
      obtain rfl := Option.some.inj result
      refine ⟨contains, rfl, rfl, ⟨span, mem, contains⟩, ?_⟩
      have start : shifted boundary + 1 = (boundary : Int) := by
        simp only [shifted]
        omega
      simp only [start]
      exact LegalCut.split anchor late anchorMem here
        ⟨span, mem, contains, ⟨by have lower := contains.1; omega, by omega⟩⟩ unread
    · rintro ⟨contains, own, index, _, legal⟩
      cases cut with
      | mk cutAlias spanIndex start finish =>
          simp only at own index legal
          subst own index
          generalize kind : (⟨cutAlias, start, finish⟩ : ResidencyCut) = compiled at legal
          cases legal with
          | spilledPrefix required spilled early => exact absurd spilled (noPrefix required)
          | run run late free runMem inRun inner => exact absurd ⟨anchor, anchorMem, here⟩ free
          | split other late otherMem otherHere joined unread =>
              obtain rfl : other = anchor :=
                List.inj_on_of_nodup_map ((sorted.anchors cutAlias).imp ne_of_lt) otherMem
                  anchorMem (otherHere.trans here.symm)
              obtain ⟨around, aroundMem, first, second⟩ := joined
              obtain rfl := within.ascending.unique aroundMem mem first contains
              have upper := second.2
              rw [if_pos (splits.2 ⟨contains, by omega, unread⟩),
                if_neg (by simp only [shifted]; omega)]
              simp only [ResidencyCut.mk.injEq] at kind
              simp only [shifted, Option.some.injEq, Cut.mk.injEq, true_and]
              omega
  · have free : shifted boundary ∉ facts.anchors aliasId := by
      rwa [describes.anchored bound]
    have noSplit : ¬ canSplitAfter facts aliasId (toSpan span) (shifted boundary) :=
      fun can => free can.2.1
    by_cases contains : span.Contains boundary
    · have inSpan := (toSpan_contains span boundary).2 contains
      rw [if_neg (by simp [free, inSpan])]
      have held := within.covers boundary ⟨span, mem, contains⟩
      obtain ⟨run, runMem, inRun⟩ := (runs_covers sorted eligible boundary).2 ⟨held, anchored⟩
      obtain ⟨starts, ends⟩ := gap_eq_run describes sorted bound eligible seedAscending within
        mem contains runMem inRun
      have inner := run_positive sorted eligible seedAscending runMem
      simp only [starts, ends]
      rw [if_neg (by simp only [shifted]; omega)]
      constructor
      · intro result
        obtain rfl := Option.some.inj result
        exact ⟨contains, rfl, rfl, ⟨span, mem, contains⟩,
          LegalCut.run run late anchored runMem inRun inner⟩
      · rintro ⟨_, own, index, _, legal⟩
        cases cut with
        | mk cutAlias spanIndex start finish =>
            simp only at own index legal
            subst own index
            generalize kind : (⟨cutAlias, start, finish⟩ : ResidencyCut) = compiled at legal
            cases legal with
            | spilledPrefix required spilled early => exact absurd spilled (noPrefix required)
            | run other otherLate otherFree otherMem otherContains otherInner =>
                obtain rfl := runsAscending.unique otherMem runMem otherContains inRun
                simp only [ResidencyCut.mk.injEq] at kind
                simp only [shifted, Option.some.injEq, Cut.mk.injEq, true_and]
                omega
            | split anchor _ anchorMem here _ _ => exact absurd ⟨anchor, anchorMem, here⟩ anchored
    · have outside : ¬ (toSpan span).contains (shifted boundary) = true := by
        rwa [toSpan_contains]
      rw [if_pos (Or.inr outside)]
      simp [noSplit, contains]

end SpanCut

end ShadowSpill.Reference.ResidencyCuts
