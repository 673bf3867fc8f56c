import ShadowSpill.Reference.ResidencyCuts
import ShadowSpill.Reference.ResidencyScores

/-!
# A round of the reference

The seed of the reference is the hull of the anchors, its legal cuts are those the
compiled reducer offers, and what it leaves of a span that is cut is what the
compiled reducer leaves.  The boundary it looks for is one that no other goes before.
-/

namespace ShadowSpill.Reference.ResidencySteps

open Library.Intervals Planner.Residency.Problem Planner.Residency.Spans Planner.Residency.Cuts
open Planner.Residency.CutLegality Planner.Residency.CutEffect Planner.Residency.LostCharges
open Planner.Residency.ReduceRuns Residency ResidencyFacts ResidencyCuts

/-! ## The seed -/

section Seed

variable {facts : PlanningFacts} {problem : ResidencyProblem} {deviceId : Nat → String}
  {aliasId : Nat}

/-- The reference starts from the hull of the anchors as well. -/
theorem Describes.seedResidency_eq (describes : Describes facts problem deviceId)
    (sorted : SortedLists problem) (bound : aliasId < problem.aliasCount) :
    seedResidency facts aliasId = (anchorSeed problem aliasId).map toSpan := by
  have mem := describes.anchors aliasId bound
  have order := List.pairwise_map.1 (sorted.anchors aliasId)
  unfold seedResidency anchorSeed
  cases anchors : problem.anchors aliasId with
  | nil =>
      rw [anchors] at mem
      rw [dif_neg]
      · rfl
      · rintro ⟨boundary, held⟩
        obtain ⟨anchor, absent, _⟩ := (mem boundary).1 held
        cases absent
  | cons first rest =>
      rw [anchors] at mem order
      obtain ⟨below, _⟩ := List.pairwise_cons.1 order
      have firstMem := (mem (shifted first.position)).2 ⟨first, by simp, rfl⟩
      have lastMem := (mem (shifted ((first :: rest).getLast (by simp)).position)).2
        ⟨_, List.getLast_mem _, rfl⟩
      rw [dif_pos ⟨_, firstMem⟩]
      have least : ∀ anchor ∈ first :: rest, first.position ≤ anchor.position := by
        intro anchor held
        rcases List.mem_cons.1 held with rfl | later
        · exact le_rfl
        · exact le_of_lt (below anchor later)
      have greatest : ∀ anchor ∈ first :: rest,
          anchor.position ≤ ((first :: rest).getLast (by simp)).position := by
        intro anchor held
        rw [← List.dropLast_append_getLast (List.cons_ne_nil first rest)] at held order
        rcases List.mem_append.1 held with earlier | last
        · exact le_of_lt ((List.pairwise_append.1 order).2.2 anchor earlier _ (by simp))
        · rw [List.mem_singleton.1 last]
      rw [List.getLast?_eq_some_getLast (List.cons_ne_nil first rest)]
      simp only [List.head?_cons, List.map_cons, List.map_nil]
      congr 1
      have lowest : (facts.anchors aliasId).min' ⟨_, firstMem⟩ = shifted first.position := by
        apply le_antisymm (Finset.min'_le _ _ firstMem)
        apply Finset.le_min'
        intro boundary held
        obtain ⟨anchor, anchorMem, rfl⟩ := (mem boundary).1 held
        exact Int.sub_le_sub_right (Int.ofNat_le.2 (least anchor anchorMem)) 1
      have highest : (facts.anchors aliasId).max' ⟨_, firstMem⟩ =
          shifted ((first :: rest).getLast (by simp)).position := by
        apply le_antisymm _ (Finset.le_max' _ _ lastMem)
        apply Finset.max'_le
        intro boundary held
        obtain ⟨anchor, anchorMem, rfl⟩ := (mem boundary).1 held
        exact Int.sub_le_sub_right (Int.ofNat_le.2 (greatest anchor anchorMem)) 1
      rw [lowest, highest]
      rfl

end Seed

/-! ## The cuts of a boundary -/

section Cuts

variable {facts : PlanningFacts} {problem : ResidencyProblem} {deviceId : Nat → String}
  {spans : Nat → List Interval} {plan : ResidencyPlan} {device boundary : Nat}

/-- A cut of the reference as the compiled reducer writes it. -/
def toCut (cut : Cut) : ResidencyCut :=
  ⟨cut.aliasId, cut.start, cut.finish⟩

/-- The cuts the reference lists are those the compiled reducer offers for aliases of
the device. -/
theorem Describes.mem_legalCuts (describes : Describes facts problem deviceId)
    (sorted : SortedLists problem) (eligible : ∀ aliasId, problem.mayCut aliasId = true)
    (seed : SeedSpans problem (anchorSeed problem))
    (within : ∀ aliasId, Within problem (seedGeometry problem (anchorSeed problem))
      (anchorSeed problem aliasId) (spans aliasId) aliasId)
    (same : ∀ aliasId < problem.aliasCount, plan aliasId = (spans aliasId).map toSpan)
    (deviceBound : device < problem.deviceCount) (cut : Cut) :
    cut ∈ legalCuts facts plan (shifted boundary) (deviceId device) ↔
      cut.aliasId < problem.aliasCount ∧ problem.aliasDevice cut.aliasId = device ∧
        (∃ span, (spans cut.aliasId)[cut.spanIndex]? = some span ∧ span.Contains boundary) ∧
        Offers problem (seedGeometry problem (anchorSeed problem)) (spans cut.aliasId)
          cut.aliasId boundary (toCut cut) := by
  have onDevice : ∀ aliasId < problem.aliasCount,
      (facts.aliasDevices aliasId = deviceId device ↔ problem.aliasDevice aliasId = device) := by
    intro aliasId bound
    obtain ⟨owned, name⟩ := describes.aliasDevices aliasId bound
    rw [name]
    constructor
    · exact describes.distinct _ owned _ deviceBound
    · rintro rfl
      rfl
  have ofSpan : ∀ aliasId < problem.aliasCount, ∀ span ∈ spans aliasId, ∀ position,
      (spanCut facts (shifted boundary) aliasId (toSpan span, position) = some cut ↔
        span.Contains boundary ∧ cut.aliasId = aliasId ∧ cut.spanIndex = position ∧
          Offers problem (seedGeometry problem (anchorSeed problem)) (spans aliasId) aliasId
            boundary ⟨aliasId, cut.start, cut.finish⟩) := by
    intro aliasId bound span mem position
    exact spanCut_eq_some describes sorted bound (eligible aliasId) (seed.ascending aliasId)
      (within aliasId) mem position cut
  unfold legalCuts
  rw [List.mem_flatMap]
  constructor
  · rintro ⟨aliasId, inRange, mem⟩
    have bound : aliasId < problem.aliasCount := by
      rw [← describes.aliasCount]
      exact List.mem_range.1 inRange
    by_cases elsewhere : facts.aliasDevices aliasId ≠ deviceId device
    · rw [if_pos elsewhere] at mem
      cases mem
    · rw [if_neg elsewhere, same aliasId bound] at mem
      obtain ⟨⟨readable, position⟩, indexed, isCut⟩ := List.mem_filterMap.1 mem
      have at_ := List.mem_zipIdx_iff_getElem?.1 indexed
      simp only [List.getElem?_map, Option.map_eq_some_iff] at at_
      obtain ⟨span, found, rfl⟩ := at_
      obtain ⟨contains, rfl, rfl, offers⟩ :=
        (ofSpan aliasId bound span (List.mem_of_getElem? found) position).1 isCut
      exact ⟨bound, (onDevice _ bound).1 (not_not.1 elsewhere), ⟨span, found, contains⟩, offers⟩
  · rintro ⟨bound, here, ⟨span, found, contains⟩, offers⟩
    refine ⟨cut.aliasId, List.mem_range.2 (by rw [describes.aliasCount]; exact bound), ?_⟩
    rw [if_neg (not_not.2 ((onDevice _ bound).2 here)), same _ bound]
    apply List.mem_filterMap.2
    refine ⟨(toSpan span, cut.spanIndex), ?_, ?_⟩
    · apply List.mem_zipIdx_iff_getElem?.2
      simp [found]
    · exact (ofSpan _ bound span (List.mem_of_getElem? found) _).2 ⟨contains, rfl, rfl, offers⟩

/-- An alias has one cut at a boundary. -/
theorem mem_legalCuts_unique (describes : Describes facts problem deviceId)
    (sorted : SortedLists problem) (eligible : ∀ aliasId, problem.mayCut aliasId = true)
    (seed : SeedSpans problem (anchorSeed problem))
    (within : ∀ aliasId, Within problem (seedGeometry problem (anchorSeed problem))
      (anchorSeed problem aliasId) (spans aliasId) aliasId)
    (same : ∀ aliasId < problem.aliasCount, plan aliasId = (spans aliasId).map toSpan)
    (deviceBound : device < problem.deviceCount) {first second : Cut}
    (firstMem : first ∈ legalCuts facts plan (shifted boundary) (deviceId device))
    (secondMem : second ∈ legalCuts facts plan (shifted boundary) (deviceId device))
    (sameAlias : first.aliasId = second.aliasId) : first = second := by
  have member := @Describes.mem_legalCuts facts problem deviceId spans plan device boundary
    describes sorted eligible seed within same deviceBound
  obtain ⟨_, _, ⟨firstSpan, firstFound, firstContains⟩, firstOffers⟩ := (member first).1 firstMem
  obtain ⟨_, _, ⟨secondSpan, secondFound, secondContains⟩, secondOffers⟩ :=
    (member second).1 secondMem
  cases first with
  | mk aliasId firstIndex firstStart firstFinish =>
      cases second with
      | mk otherId secondIndex secondStart secondFinish =>
          simp only [toCut] at sameAlias firstFound secondFound firstOffers secondOffers
          subst sameAlias
          have ascending := (within aliasId).ascending
          obtain rfl := ascending.unique (List.mem_of_getElem? firstFound)
            (List.mem_of_getElem? secondFound) firstContains secondContains
          have runsAscending := runs_ascending sorted (seed.ascending aliasId) (eligible aliasId)
          have firstCandidate := (candidateCut_eq_some sorted ascending runsAscending).2
            firstOffers
          have secondCandidate := (candidateCut_eq_some sorted ascending runsAscending).2
            secondOffers
          have equal := Option.some.inj (firstCandidate.symm.trans secondCandidate)
          simp only [ResidencyCut.mk.injEq, true_and] at equal
          obtain ⟨firstBound, firstAt⟩ := List.getElem?_eq_some_iff.1 firstFound
          obtain ⟨secondBound, secondAt⟩ := List.getElem?_eq_some_iff.1 secondFound
          have firstIs := (find_eq_some ascending).2 ⟨firstBound, firstAt ▸ firstContains⟩
          have secondIs := (find_eq_some ascending).2 ⟨secondBound, secondAt ▸ secondContains⟩
          obtain rfl := Option.some.inj (firstIs.symm.trans secondIs)
          rw [equal.1, equal.2]

end Cuts

/-! ## The spans a cut leaves -/

section Spans

/-- Spans come one after another. -/
def spanBefore (first second : Span) : Prop :=
  first.start < second.start ∨ first.start = second.start ∧ first.finish ≤ second.finish

instance : DecidableRel spanBefore :=
  fun _ _ => inferInstanceAs (Decidable (_ ∨ _))

theorem toSpan_sorted {spans : List Interval} (ascending : Ascending spans) :
    (spans.map toSpan).Pairwise spanBefore := by
  rw [List.pairwise_map]
  induction spans with
  | nil => exact List.Pairwise.nil
  | cons span rest ih =>
      obtain ⟨valid, above, restAscending⟩ := ascending_cons.1 ascending
      refine List.pairwise_cons.2 ⟨?_, ih restAscending⟩
      intro other mem
      have later := above other mem
      left
      simp only [toSpan, shifted]
      omega

/-- Sorting spans puts any ascending list of them back in order. -/
theorem insertionSort_toSpan {spans : List Interval} (ascending : Ascending spans)
    {other : List Span} (perm : other.Perm (spans.map toSpan)) :
    other.insertionSort (fun first second =>
      first.start < second.start ∨ first.start = second.start ∧
        first.finish ≤ second.finish) = spans.map toSpan := by
  have total : Std.Total spanBefore := ⟨fun first second => by unfold spanBefore; omega⟩
  have trans : IsTrans Span spanBefore :=
    ⟨fun first second third => by unfold spanBefore; omega⟩
  have sorted := List.pairwise_insertionSort spanBefore other
  apply List.Perm.eq_of_pairwise _ sorted (toSpan_sorted ascending)
    ((List.perm_insertionSort spanBefore other).trans perm)
  intro first second _ _ before after
  cases first
  cases second
  unfold spanBefore at before after
  simp only [Span.mk.injEq] at before after ⊢
  omega

/-- The parts of a span on either side of a cut. -/
def sides (span : Interval) (cut : ResidencyCut) : List Interval :=
  (if span.start < (cut.start + 1).toNat then [⟨span.start, cut.start.toNat⟩] else []) ++
    if (cut.finish + 1).toNat < span.finish then [⟨(cut.finish + 2).toNat, span.finish⟩] else []

/-- A cut inside one span leaves its two sides. -/
theorem cutSpans_sides {before after : List Interval} {span : Interval} {cut : ResidencyCut}
    (ascending : Ascending (before ++ span :: after)) (holds : span.Contains (cutFirst cut))
    (inside : (cut.finish + 1).toNat ≤ span.finish) (starts : 0 ≤ cut.start)
    (near : cut.start ≤ cut.finish + 1) :
    Planner.Residency.CutLegality.cutSpans (before ++ span :: after) cut =
      before ++ (sides span cut ++ after) := by
  unfold cutFirst at holds
  unfold Planner.Residency.CutLegality.cutSpans sides
  by_cases splits : cut.start > cut.finish
  · rw [if_pos splits] at holds ⊢
    have found : find (before ++ span :: after) (cut.finish + 1).toNat = some before.length := by
      apply (find_eq_some ascending).2
      exact ⟨by simp, by simpa using holds⟩
    rw [splitAfter_around found]
    obtain ⟨lower, upper⟩ := holds
    have next : cut.start = cut.finish + 1 := by omega
    rw [if_pos (by omega : span.start < (cut.start + 1).toNat)]
    by_cases last : span.finish = (cut.finish + 1).toNat
    · rw [if_pos last, if_neg (by omega), next, ← last]
      rfl
    · rw [if_neg last, if_pos (by omega), next]
      have after_ : (cut.finish + 2).toNat = (cut.finish + 1).toNat + 1 := by omega
      rw [after_]
      rfl
  · rw [if_neg splits] at holds ⊢
    rw [clear_inside ascending holds (by omega) inside]
    have left : (cut.start + 1).toNat - 1 = cut.start.toNat := by omega
    have right : (cut.finish + 2).toNat = (cut.finish + 1).toNat + 1 := by omega
    rw [left, right, List.append_assoc]

/-- What the reference leaves of an alias's spans is what the compiled reducer does. -/
theorem cutSpans_toSpan {spans : List Interval} {span : Interval} {cut : Cut}
    (ascending : Ascending spans) (later : Ascending (Planner.Residency.CutLegality.cutSpans spans (toCut cut)))
    (found : spans[cut.spanIndex]? = some span) (holds : span.Contains (cutFirst (toCut cut)))
    (inside : (cut.finish + 1).toNat ≤ span.finish) (starts : 0 ≤ cut.start)
    (near : cut.start ≤ cut.finish + 1) :
    Residency.cutSpans (spans.map toSpan) cut =
      (Planner.Residency.CutLegality.cutSpans spans (toCut cut)).map toSpan := by
  obtain ⟨bound, here⟩ := List.getElem?_eq_some_iff.1 found
  obtain ⟨before, after, rfl, length⟩ : ∃ before after, spans = before ++ span :: after ∧
      before.length = cut.spanIndex :=
    ⟨spans.take cut.spanIndex, spans.drop (cut.spanIndex + 1), by
      rw [← here, List.cons_getElem_drop_succ, List.take_append_drop], by
      rw [List.length_take]
      omega⟩
  unfold Residency.cutSpans
  rw [List.getElem?_map, found, Option.map_some]
  apply insertionSort_toSpan later
  rw [cutSpans_sides ascending holds inside starts near, ← length, List.map_append,
    List.map_cons, List.eraseIdx_append_of_length_le (by simp)]
  have parts : ((if (toSpan span).start < cut.start then
        [Span.mk (toSpan span).start (cut.start - 1)] else []) ++
      if cut.finish < (toSpan span).finish then
        [Span.mk (cut.finish + 1) (toSpan span).finish] else []) =
      (sides span (toCut cut)).map toSpan := by
    have left : (toSpan span).start < cut.start ↔
        span.start < ((toCut cut).start + 1).toNat := by
      simp only [toSpan, toCut, shifted]
      omega
    have right : cut.finish < (toSpan span).finish ↔
        ((toCut cut).finish + 1).toNat < span.finish := by
      simp only [toSpan, toCut, shifted]
      omega
    unfold sides
    rw [List.map_append]
    congr 1
    · by_cases front : span.start < ((toCut cut).start + 1).toNat
      · rw [if_pos (left.2 front), if_pos front]
        simp only [List.map_cons, List.map_nil, toSpan, toCut, shifted, List.cons.injEq,
          Span.mk.injEq, and_true, true_and]
        omega
      · rw [if_neg (fun holds => front (left.1 holds)), if_neg front]
        rfl
    · by_cases back : ((toCut cut).finish + 1).toNat < span.finish
      · rw [if_pos (right.2 back), if_pos back]
        simp only [List.map_cons, List.map_nil, toSpan, toCut, shifted, List.cons.injEq,
          Span.mk.injEq, and_true]
        omega
      · rw [if_neg (fun holds => back (right.1 holds)), if_neg back]
        rfl
  simp only [List.length_map, Nat.sub_self, List.eraseIdx_cons_zero]
  rw [parts, List.map_append, List.map_append, List.append_assoc]
  exact List.Perm.append_left _ List.perm_append_comm

end Spans

/-! ## The boundary to relieve -/

section Worst

variable {facts : PlanningFacts} {additions : String → Int → Nat}
  {pressure : String → Nat → Int}

/-- A boundary of a device as the reference selects it. -/
def selectedAt (facts : PlanningFacts) (additions : String → Int → Nat)
    (pressure : String → Nat → Int) (index : Nat) (device : String) : Selected :=
  let used := pressure device index + additions device (shifted index)
  ⟨device, shifted index, used - facts.objectCapacityByBoundary device index, used⟩

/-- The boundary is over its capacity. -/
def Exceeds (facts : PlanningFacts) (additions : String → Int → Nat)
    (pressure : String → Nat → Int) (index : Nat) (device : String) : Prop :=
  0 < (selectedAt facts additions pressure index device).excess

instance (index : Nat) (device : String) :
    Decidable (Exceeds facts additions pressure index device) :=
  inferInstanceAs (Decidable (0 < _))

theorem Selected.before_trans {first second third : Selected} (before : first.before second)
    (later : second.before third) : first.before third := by
  unfold Selected.before at before later ⊢
  rcases before with less | ⟨excess, less | ⟨boundary, less⟩⟩
  · rcases later with more | ⟨same, _⟩
    · exact Or.inl (less.trans more)
    · exact Or.inl (same ▸ less)
  · rcases later with more | ⟨same, more | ⟨sameBoundary, _⟩⟩
    · exact Or.inl (excess ▸ more)
    · exact Or.inr ⟨excess.trans same, Or.inl (less.trans more)⟩
    · exact Or.inr ⟨excess.trans same, Or.inl (sameBoundary ▸ less)⟩
  · rcases later with more | ⟨same, more | ⟨sameBoundary, more⟩⟩
    · exact Or.inl (excess ▸ more)
    · exact Or.inr ⟨excess.trans same, Or.inl (boundary ▸ more)⟩
    · exact Or.inr ⟨excess.trans same, Or.inr ⟨boundary.trans sameBoundary, less.trans more⟩⟩

/-- The first of the boundaries seen that are over capacity. -/
inductive Foremost (facts : PlanningFacts) (additions : String → Int → Nat)
    (pressure : String → Nat → Int) (seen : Nat → String → Prop) : Option Selected → Prop
  | nothing (within : ∀ index device, seen index device →
      ¬ Exceeds facts additions pressure index device) :
      Foremost facts additions pressure seen none
  | chosen (index : Nat) (device : String) (isSeen : seen index device)
      (exceeds : Exceeds facts additions pressure index device)
      (first : ∀ other otherDevice, seen other otherDevice →
        Exceeds facts additions pressure other otherDevice →
          ¬ (selectedAt facts additions pressure other otherDevice).before
            (selectedAt facts additions pressure index device)) :
      Foremost facts additions pressure seen
        (some (selectedAt facts additions pressure index device))

theorem Foremost.congr {seen other : Nat → String → Prop} {selected : Option Selected}
    (same : ∀ index device, seen index device ↔ other index device)
    (foremost : Foremost facts additions pressure seen selected) :
    Foremost facts additions pressure other selected := by
  have equal : seen = other :=
    funext fun index => funext fun device => propext (same index device)
  rwa [← equal]

/-- The selection that a candidate that exceeds leaves. -/
def selectBetween (candidate : Selected) (selected : Option Selected) : Option Selected :=
  match selected with
  | none => some candidate
  | some best => if candidate.before best then some candidate else selected

/-- Looking at one more boundary keeps the first. -/
theorem Foremost.look {seen : Nat → String → Prop} {selected : Option Selected}
    (foremost : Foremost facts additions pressure seen selected) (index : Nat)
    (device : String) :
    Foremost facts additions pressure
      (fun other otherDevice => seen other otherDevice ∨ other = index ∧ otherDevice = device)
      (selectWorse facts additions pressure index selected device) := by
  have looked : ∀ selected : Option Selected,
      selectWorse facts additions pressure index selected device =
        if ¬ Exceeds facts additions pressure index device then selected
        else selectBetween (selectedAt facts additions pressure index device) selected := by
    intro selected
    have within : pressure device index + additions device (shifted index) ≤
        facts.objectCapacityByBoundary device index ↔
          ¬ Exceeds facts additions pressure index device := by
      unfold Exceeds selectedAt
      simp only
      omega
    unfold selectWorse
    exact if_congr within rfl rfl
  rw [looked]
  by_cases exceeds : Exceeds facts additions pressure index device
  · rw [if_neg (not_not.2 exceeds)]
    cases foremost with
    | nothing within =>
        refine .chosen index device (Or.inr ⟨rfl, rfl⟩) exceeds ?_
        rintro other otherDevice (known | ⟨rfl, rfl⟩) otherExceeds
        · exact absurd otherExceeds (within other otherDevice known)
        · unfold Selected.before
          simp
    | chosen best bestDevice bestSeen bestExceeds first =>
        unfold selectBetween
        simp only
        by_cases replaces : (selectedAt facts additions pressure index device).before
            (selectedAt facts additions pressure best bestDevice)
        · rw [if_pos replaces]
          refine .chosen index device (Or.inr ⟨rfl, rfl⟩) exceeds ?_
          rintro other otherDevice (known | ⟨rfl, rfl⟩) otherExceeds before
          · exact first other otherDevice known otherExceeds
              (Selected.before_trans before replaces)
          · unfold Selected.before at before
            simp at before
        · rw [if_neg replaces]
          refine .chosen best bestDevice (Or.inl bestSeen) bestExceeds ?_
          rintro other otherDevice (known | ⟨rfl, rfl⟩) otherExceeds
          · exact first other otherDevice known otherExceeds
          · exact replaces
  · rw [if_pos exceeds]
    cases foremost with
    | nothing within =>
        refine .nothing ?_
        rintro other otherDevice (known | ⟨rfl, rfl⟩)
        · exact within other otherDevice known
        · exact exceeds
    | chosen best bestDevice bestSeen bestExceeds first =>
        refine .chosen best bestDevice (Or.inl bestSeen) bestExceeds ?_
        rintro other otherDevice (known | ⟨rfl, rfl⟩) otherExceeds
        · exact first other otherDevice known otherExceeds
        · exact absurd otherExceeds exceeds

theorem Foremost.row (devices : List String) {seen : Nat → String → Prop}
    {selected : Option Selected}
    (foremost : Foremost facts additions pressure seen selected) (index : Nat) :
    Foremost facts additions pressure
      (fun other device => seen other device ∨ other = index ∧ device ∈ devices)
      (devices.foldl (selectWorse facts additions pressure index) selected) := by
  induction devices generalizing seen selected with
  | nil => simpa using foremost
  | cons device rest ih =>
      rw [List.foldl_cons]
      apply (ih (foremost.look index device)).congr
      intro other otherDevice
      rw [List.mem_cons, or_assoc, and_or_left]

/-- The reference selects the first of all boundaries over capacity. -/
theorem selectWorst_foremost (facts : PlanningFacts) (additions : String → Int → Nat)
    (pressure : String → Nat → Int) :
    Foremost facts additions pressure
      (fun index device => index < facts.taskCount + 1 ∧ device ∈ facts.devices)
      (selectWorst facts additions pressure) := by
  have rows : ∀ (indices : List Nat) {seen : Nat → String → Prop} {selected : Option Selected},
      Foremost facts additions pressure seen selected →
      Foremost facts additions pressure
        (fun index device => seen index device ∨ index ∈ indices ∧ device ∈ facts.devices)
        (indices.foldl (fun selected index =>
          facts.devices.foldl (selectWorse facts additions pressure index) selected)
          selected) := by
    intro indices
    induction indices with
    | nil =>
        intro seen selected foremost
        simpa using foremost
    | cons index rest ih =>
        intro seen selected foremost
        rw [List.foldl_cons]
        apply (ih (foremost.row facts.devices index)).congr
        intro other device
        rw [List.mem_cons, or_assoc, or_and_right]
  have start : Foremost facts additions pressure (fun _ _ => False) none :=
    .nothing fun _ _ impossible => impossible.elim
  apply (rows _ start).congr
  intro index device
  rw [List.mem_range, false_or]

end Worst

end ShadowSpill.Reference.ResidencySteps
