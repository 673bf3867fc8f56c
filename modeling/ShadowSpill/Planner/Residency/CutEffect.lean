import ShadowSpill.Planner.Residency.ExcessHeap
import ShadowSpill.Planner.Residency.IndexedCuts
import ShadowSpill.Planner.Residency.LostCharges
import ShadowSpill.Planner.Residency.PressureTree

/-!
# The effect of a cut

Applying a cut takes the alias's size from boundaries it was charged at and is not
any more, and from all of them when the cut ends in the span it starts in.  No
boundary gains anything, and the heap stays as it is.
-/

namespace ShadowSpill.Planner.Residency.CutEffect

open Library.Intervals Problem Spans Cuts CutIndexing CutLegality LostCharges Reduce

/-- The cut ends in the span it starts in. -/
def InOneSpan (spans : List Interval) (cut : ResidencyCut) : Prop :=
  ∀ span ∈ spans, span.Contains (cutFirst cut) → (cut.finish + 1).toNat ≤ span.finish

/-- Every boundary that the cut relieves was charged for the span it starts in, or its alias
has no bytes. -/
def RelievesOneSpan (problem : ResidencyProblem) (fetchHeadroom : Bool)
    (spans : Nat → List Interval) (cut : ResidencyCut) : Prop :=
  problem.aliasSizeBytes cut.aliasId = 0 ∨
    ∀ span ∈ spans cut.aliasId, span.Contains (cutFirst cut) → ∀ boundary,
      chargedAt problem fetchHeadroom spans cut.aliasId boundary = true →
        ¬ chargedAt problem fetchHeadroom (applyCut spans cut) cut.aliasId boundary = true →
          (chargeSpan problem fetchHeadroom cut.aliasId span).Contains boundary

section Effect

variable {problem : ResidencyProblem} {options : ReduceOptions} {index : CutIndex}
  {reduction : Reduction} {cut : ResidencyCut} {chosenId boundary : Nat}

/-- An offered cut starts at a boundary its alias is resident at. -/
theorem Offers.first_covered {seed : List Interval} {geometry : Geometry}
    {spans : List Interval} {aliasId : Nat}
    (sorted : SortedLists problem) (within : Within problem geometry seed spans aliasId)
    (runsAscending : Ascending (geometry.runs aliasId))
    (offers : Offers problem geometry spans aliasId boundary cut) :
    Covers spans (cutFirst cut) := by
  obtain ⟨covered, legal⟩ := offers
  cases legal with
  | spilledPrefix required spilled early =>
      have resident := ((prefixRequired_eq_some sorted within.ascending).1 spilled).1.1
      have first : cutFirst ⟨aliasId, -1, (required : Int) - 2⟩ = 0 := by
        simp only [cutFirst]
        rw [if_neg (by omega)]
        rfl
      rw [first]
      exact resident
  | run run late free mem contains inner =>
      have valid := runsAscending.valid run mem
      have first : cutFirst ⟨aliasId, (run.start : Int) - 1, (run.finish : Int) - 1⟩ =
          run.start := by
        simp only [cutFirst]
        rw [if_neg (by omega)]
        omega
      rw [first]
      exact within.runs run mem _ _ contains ⟨le_rfl, valid⟩ covered
  | split anchor late mem here joined unread =>
      have first : cutFirst ⟨aliasId, (boundary : Int), (boundary : Int) - 1⟩ = boundary := by
        simp only [cutFirst]
        rw [if_pos (by omega)]
        omega
      rw [first]
      exact covered

/-- What applying a cut does to a reduction. -/
structure Applied (problem : ResidencyProblem) (options : ReduceOptions)
    (reduction later : Reduction) (cut : ResidencyCut) (lost : List Interval) : Prop where
  spans : later.spans = applyCut reduction.spans cut
  cursors : later.cursors = reduction.cursors
  steps : later.steps = reduction.steps
  entries : later.entries = reduction.entries
  pressure : later.pressure = lost.foldl (fun pressure range =>
    pressureAdd problem.boundaryCount pressure (problem.aliasDevice cut.aliasId) range.start
      range.finish (0 - BitVec.ofNat 64 (problem.aliasSizeBytes cut.aliasId))) reduction.pressure
  ascending : Ascending lost
  sound : ∀ boundary, Covers lost boundary →
    chargedAt problem options.fetchHeadroom reduction.spans cut.aliasId boundary = true ∧
      ¬ chargedAt problem options.fetchHeadroom later.spans cut.aliasId boundary = true
  falls : ∀ boundary,
    chargedAt problem options.fetchHeadroom later.spans cut.aliasId boundary = true →
      chargedAt problem options.fetchHeadroom reduction.spans cut.aliasId boundary = true
  exactly : ∀ span ∈ reduction.spans cut.aliasId, span.Contains (cutFirst cut) →
    ∀ boundary, Covers lost boundary ↔
      (chargeSpan problem options.fetchHeadroom cut.aliasId span).Contains boundary ∧
        ¬ chargedAt problem options.fetchHeadroom later.spans cut.aliasId boundary = true
  complete : InOneSpan (reduction.spans cut.aliasId) cut → ∀ boundary,
    chargedAt problem options.fetchHeadroom reduction.spans cut.aliasId boundary = true →
      ¬ chargedAt problem options.fetchHeadroom later.spans cut.aliasId boundary = true →
        Covers lost boundary

theorem applyCutAndRepressure_active {geometry : Geometry} :
    (applyCutAndRepressure problem options geometry index reduction cut chosenId).active =
      Function.update (refreshAliasCandidates problem (applyCut reduction.spans cut) geometry
        index reduction.active cut.aliasId) chosenId false := by
  unfold applyCutAndRepressure
  simp only
  split <;> rfl

theorem applyCutAndRepressure_applied {geometry : Geometry} (sorted : SortedLists problem)
    (ascending : Ascending (reduction.spans cut.aliasId))
    (bounded : ∀ span ∈ reduction.spans cut.aliasId, span.finish < problem.boundaryCount)
    (laterAscending : Ascending (cutSpans (reduction.spans cut.aliasId) cut))
    (started : Covers (reduction.spans cut.aliasId) (cutFirst cut)) :
    ∃ lost, Applied problem options reduction
      (applyCutAndRepressure problem options geometry index reduction cut chosenId) cut lost := by
  obtain ⟨before, span, after, whole, holds, found⟩ := exists_around ascending started
  rw [whole] at ascending bounded laterAscending
  obtain ⟨below, inner, apart⟩ := ascending_append.1 ascending
  obtain ⟨valid, above, _⟩ := ascending_cons.1 inner
  obtain ⟨parts, rest, cuts, few, within, restParts, untouched⟩ :=
    cutSpans_around ascending holds
  have spanBefore : ∀ other ∈ before, other.finish < span.start :=
    fun other mem => apart other mem span (by simp)
  have restAbove : ∀ other ∈ rest, span.finish < other.start := by
    intro other mem
    obtain ⟨origin, originMem, lower, _⟩ := restParts other mem
    exact lt_of_lt_of_le (above origin originMem) lower
  have laterBounded : ∀ other ∈ before ++ (parts ++ rest),
      other.finish < problem.boundaryCount := by
    intro other mem
    rcases List.mem_append.1 mem with mem | mem
    · exact bounded other (by simp [mem])
    · rcases List.mem_append.1 mem with mem | mem
      · exact lt_of_le_of_lt (within other mem).2 (bounded span (by simp))
      · obtain ⟨origin, originMem, _, upper⟩ := restParts other mem
        exact lt_of_le_of_lt upper (bounded origin (by simp [originMem]))
  rw [cuts] at laterAscending
  have exactly : applyCut reduction.spans cut cut.aliasId = before ++ (parts ++ rest) := by
    rw [applyCut_same, whole, cuts]
  obtain ⟨lostAscending, lostCovers⟩ := @lostCharges_spec problem options.fetchHeadroom
    cut.aliasId sorted before parts rest span valid laterAscending laterBounded spanBefore few
    within restAbove (applyCut reduction.spans cut) exactly
  have oldCharged := fun boundary => @chargedAt_iff problem options.fetchHeadroom cut.aliasId
    sorted reduction.spans (whole ▸ ascending) boundary
  have newCharged := fun boundary => @chargedAt_iff problem options.fetchHeadroom cut.aliasId
    sorted (applyCut reduction.spans cut) (exactly ▸ laterAscending) boundary
  rw [whole] at oldCharged
  rw [exactly] at newCharged
  -- No part of a span is charged where the span was not, so nothing is gained.
  have falls : ∀ boundary, chargedAt problem options.fetchHeadroom
      (applyCut reduction.spans cut) cut.aliasId boundary = true →
        chargedAt problem options.fetchHeadroom reduction.spans cut.aliasId boundary = true := by
    intro boundary charged
    apply (oldCharged boundary).2
    rcases (newCharged boundary).1 charged with ⟨other, mem, lower, upper⟩ | reserved
    · left
      have part : ∃ origin ∈ before ++ span :: after,
          origin.start ≤ other.start ∧ other.finish ≤ origin.finish := by
        rcases List.mem_append.1 mem with mem | mem
        · exact ⟨other, by simp [mem], le_rfl, le_rfl⟩
        · rcases List.mem_append.1 mem with mem | mem
          · exact ⟨span, by simp, within other mem⟩
          · obtain ⟨origin, originMem, bounds⟩ := restParts other mem
            exact ⟨origin, by simp [originMem], bounds⟩
      obtain ⟨origin, originMem, starts, ends⟩ := part
      have inside := @chargeSpan_part problem options.fetchHeadroom cut.aliasId sorted origin
        other starts ends
      exact ⟨origin, originMem, le_trans inside.1 lower, le_trans upper inside.2⟩
    · exact Or.inr reserved
  have pieces := @chargedPieces_eq problem options.fetchHeadroom cut.aliasId span.finish parts
    rest (fun part mem => (within part mem).2) restAbove before span.start laterAscending
    spanBefore (fun part mem => (within part mem).1) (by omega) 4 (by omega)
  have gained := @gainedBoundaries_parts problem options.fetchHeadroom cut.aliasId sorted parts
    span within
  have sameFirst : (if cut.start > cut.finish then cut.finish + 1 else cut.start + 1).toNat =
      cutFirst cut := rfl
  have applied : applyCutAndRepressure problem options geometry index reduction cut chosenId =
      { reduction with
        spans := applyCut reduction.spans cut
        active := Function.update (refreshAliasCandidates problem
          (applyCut reduction.spans cut) geometry index reduction.active cut.aliasId)
          chosenId false
        pressure := (lostCharges problem options.fetchHeadroom cut.aliasId
            (applyCut reduction.spans cut cut.aliasId) span).foldl (fun pressure range =>
          pressureAdd problem.boundaryCount pressure (problem.aliasDevice cut.aliasId)
            range.start range.finish
            (0 - BitVec.ofNat 64 (problem.aliasSizeBytes cut.aliasId))) reduction.pressure } := by
    unfold applyCutAndRepressure
    simp only [sameFirst, found]
    have looked : (reduction.spans cut.aliasId).getD before.length default = span := by
      rw [whole]
      simp
    rw [looked, exactly, pieces, gained]
    unfold lostCharges
    rw [pieces]
    rfl
  refine ⟨lostCharges problem options.fetchHeadroom cut.aliasId
    (applyCut reduction.spans cut cut.aliasId) span, ?_⟩
  rw [applied]
  refine ⟨rfl, rfl, rfl, rfl, rfl, lostAscending, ?_, falls, ?_, ?_⟩
  · intro boundary lost
    obtain ⟨contains, gone⟩ := (lostCovers boundary).1 lost
    exact ⟨(oldCharged boundary).2 (Or.inl ⟨span, by simp, contains⟩), gone⟩
  · intro other mem first boundary
    rw [whole] at mem
    obtain rfl := ascending.unique mem (by simp) first holds
    exact lostCovers boundary
  · intro oneSpan boundary charged gone
    apply (lostCovers boundary).2 ⟨?_, gone⟩
    have same := untouched (oneSpan span (by rw [whole]; simp) holds)
    rw [newCharged, same] at gone
    rcases (oldCharged boundary).1 charged with ⟨other, mem, contains⟩ | reserved
    · rcases List.mem_append.1 mem with mem | mem
      · exact absurd (Or.inl ⟨other, by simp [mem], contains⟩) gone
      · rcases List.mem_cons.1 mem with rfl | mem
        · exact contains
        · exact absurd (Or.inl ⟨other, by simp [mem], contains⟩) gone
    · exact absurd (Or.inr reserved) gone

end Effect

end ShadowSpill.Planner.Residency.CutEffect
