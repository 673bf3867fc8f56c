import ShadowSpill.Planner.Residency.CutIndexing

/-!
# Which cuts are legal

The runs of the seed are its boundaries that no anchor touches.  A candidate is
described by the residency alone: what it covers, and which neighbours it holds
together.
-/

namespace ShadowSpill.Planner.Residency.CutLegality

open Library Library.Intervals Problem Spans Cuts

/-- A boundary the program touches the alias at. -/
def Anchored (problem : ResidencyProblem) (aliasId boundary : Nat) : Prop :=
  ∃ anchor ∈ problem.anchors aliasId, anchor.position = boundary

/-! ## The anchors from a boundary on -/

section Anchors

variable {problem : ResidencyProblem} {aliasId start boundary : Nat}

theorem mem_anchorsFrom (sorted : SortedLists problem) :
    boundary ∈ anchorsFrom problem aliasId start ↔
      start ≤ boundary ∧ Anchored problem aliasId boundary := by
  have anchored : Anchored problem aliasId boundary ↔
      boundary ∈ (problem.anchors aliasId).map Anchor.position := by
    simp [Anchored, List.mem_map]
  rw [anchored]
  exact mem_drop_lowerBound (sorted.anchors aliasId)

theorem anchorsFrom_ascending (sorted : SortedLists problem) :
    (anchorsFrom problem aliasId start).Pairwise (· < ·) :=
  (sorted.anchors aliasId).sublist (List.drop_sublist _ _)

/-- The first anchor from a boundary on is the least one. -/
theorem head_anchorsFrom (sorted : SortedLists problem) {required : Nat}
    (first : (anchorsFrom problem aliasId start).head? = some required) :
    start ≤ required ∧ Anchored problem aliasId required ∧
      ∀ boundary, start ≤ boundary → Anchored problem aliasId boundary →
        required ≤ boundary := by
  obtain ⟨rest, whole⟩ := List.head?_eq_some_iff.1 first
  have own := (mem_anchorsFrom sorted).1 (by rw [whole]; exact List.mem_cons_self)
  refine ⟨own.1, own.2, ?_⟩
  intro other lower anchored
  have mem := (mem_anchorsFrom sorted).2 ⟨lower, anchored⟩
  have ascending := @anchorsFrom_ascending problem aliasId start sorted
  rw [whole] at mem ascending
  rcases List.mem_cons.1 mem with rfl | later
  · exact le_rfl
  · exact le_of_lt ((List.pairwise_cons.1 ascending).1 other later)

end Anchors

/-! ## The runs of the seed -/

section Runs

theorem runsFrom_within {spanEnd : Nat} {anchors : List Nat} {cursor : Nat}
    (ascending : anchors.Pairwise (· < ·)) (above : ∀ anchor ∈ anchors, cursor ≤ anchor) :
    Ascending (runsFrom spanEnd anchors cursor) ∧
      ∀ run ∈ runsFrom spanEnd anchors cursor,
        cursor ≤ run.start ∧ run.finish ≤ spanEnd := by
  induction anchors generalizing cursor with
  | nil =>
      rw [runsFrom]
      split_ifs with inside
      · exact ⟨ascending_cons.2 ⟨inside, by simp, ascending_nil⟩, by simp⟩
      · simp
  | cons anchor rest ih =>
      obtain ⟨below, restAscending⟩ := List.pairwise_cons.1 ascending
      have lower := above anchor (by simp)
      obtain ⟨tail, within⟩ := @ih (anchor + 1) restAscending
        (fun other mem => below other mem)
      rw [runsFrom]
      by_cases inside : cursor ≤ spanEnd
      · rw [if_pos inside]
        by_cases reached : anchor ≤ spanEnd
        · rw [if_pos reached]
          by_cases gap : anchor > cursor
          · rw [if_pos gap]
            constructor
            · refine ascending_cons.2 ⟨by simp only; omega, ?_, tail⟩
              intro other mem
              have bounds := within other mem
              simp only
              omega
            · intro run mem
              rcases List.mem_cons.1 mem with rfl | mem
              · simp only
                omega
              · have bounds := within run mem
                omega
          · rw [if_neg gap]
            refine ⟨tail, ?_⟩
            intro run mem
            have bounds := within run mem
            omega
        · rw [if_neg reached]
          exact ⟨ascending_cons.2 ⟨inside, by simp, ascending_nil⟩, by simp⟩
      · rw [if_neg inside]
        simp

/-- The runs hold the boundaries that are no anchors, neighbours together. -/
theorem runsFrom_holds {spanEnd : Nat} {anchors : List Nat} {cursor : Nat}
    (ascending : anchors.Pairwise (· < ·)) (above : ∀ anchor ∈ anchors, cursor ≤ anchor)
    {low high : Nat} (ordered : low ≤ high) (near : high ≤ low + 1) :
    Holds (runsFrom spanEnd anchors cursor) low high ↔
      cursor ≤ low ∧ high ≤ spanEnd ∧ low ∉ anchors ∧ high ∉ anchors := by
  induction anchors generalizing cursor with
  | nil =>
      rw [runsFrom]
      by_cases inside : cursor ≤ spanEnd
      · rw [if_pos inside]
        simp only [holds_cons, not_holds_nil, or_false, Interval.Contains,
          List.not_mem_nil, not_false_eq_true, and_true]
        omega
      · rw [if_neg inside]
        simp only [not_holds_nil, false_iff, not_and]
        omega
  | cons anchor rest ih =>
      obtain ⟨below, restAscending⟩ := List.pairwise_cons.1 ascending
      have lower := above anchor (by simp)
      have tail := @ih (anchor + 1) restAscending (fun other mem => below other mem)
      have restAbove : ∀ other ∈ rest, anchor < other := below
      have notBelow : ∀ point, point ≤ anchor → point ∉ rest := by
        intro point small mem
        have large := restAbove point mem
        omega
      rw [runsFrom]
      by_cases inside : cursor ≤ spanEnd
      · rw [if_pos inside]
        by_cases reached : anchor ≤ spanEnd
        · rw [if_pos reached, holds_append, tail]
          by_cases gap : anchor > cursor
          · rw [if_pos gap]
            simp only [holds_cons, not_holds_nil, or_false, Interval.Contains,
              List.mem_cons, not_or]
            constructor
            · rintro (⟨⟨lowAbove, lowBelow⟩, highAbove, highBelow⟩ | past)
              · exact ⟨lowAbove, by omega, ⟨by omega, notBelow low (by omega)⟩, by omega,
                  notBelow high (by omega)⟩
              · exact ⟨by omega, past.2.1, ⟨by omega, past.2.2.1⟩, by omega, past.2.2.2⟩
            · rintro ⟨from_, until_, ⟨lowOther, lowRest⟩, highOther, highRest⟩
              by_cases before : high < anchor
              · exact Or.inl ⟨⟨from_, by omega⟩, by omega, by omega⟩
              · exact Or.inr ⟨by omega, until_, lowRest, highRest⟩
          · rw [if_neg gap]
            simp only [not_holds_nil, false_or, List.mem_cons, not_or]
            constructor
            · intro past
              exact ⟨by omega, past.2.1, ⟨by omega, past.2.2.1⟩, by omega, past.2.2.2⟩
            · rintro ⟨from_, until_, ⟨lowOther, lowRest⟩, highOther, highRest⟩
              exact ⟨by omega, until_, lowRest, highRest⟩
        · rw [if_neg reached]
          simp only [holds_cons, not_holds_nil, or_false, Interval.Contains,
            List.mem_cons, not_or]
          constructor
          · rintro ⟨⟨lowAbove, lowBelow⟩, highAbove, highBelow⟩
            exact ⟨lowAbove, highBelow, ⟨by omega, notBelow low (by omega)⟩, by omega,
              notBelow high (by omega)⟩
          · rintro ⟨from_, until_, _⟩
            exact ⟨⟨from_, by omega⟩, by omega, until_⟩
      · rw [if_neg inside]
        simp only [not_holds_nil, false_iff, not_and]
        omega

variable {problem : ResidencyProblem} {seed : Nat → List Interval} {aliasId : Nat}

theorem spanRuns_within (sorted : SortedLists problem) (span : Interval) :
    Ascending (runsFrom span.finish (anchorsFrom problem aliasId span.start) span.start) ∧
      ∀ run ∈ runsFrom span.finish (anchorsFrom problem aliasId span.start) span.start,
        span.start ≤ run.start ∧ run.finish ≤ span.finish :=
  runsFrom_within (anchorsFrom_ascending sorted)
    fun _ mem => ((mem_anchorsFrom sorted).1 mem).1

/-- The runs of an alias that may be cut ascend. -/
theorem runs_ascending (sorted : SortedLists problem)
    (ascending : Ascending (seed aliasId)) (eligible : problem.mayCut aliasId = true) :
    Ascending ((buildCutGeometry problem seed).runs aliasId) := by
  simp only [buildCutGeometry, eligible, not_true_eq_false, if_false]
  generalize seed aliasId = spans at ascending
  induction spans with
  | nil => exact ascending_nil
  | cons span rest ih =>
      obtain ⟨_, above, restAscending⟩ := ascending_cons.1 ascending
      obtain ⟨first, within⟩ := @spanRuns_within problem aliasId sorted span
      rw [List.flatMap_cons]
      refine ascending_append.2 ⟨first, ih restAscending, ?_⟩
      intro lower lowerMem upper upperMem
      obtain ⟨other, otherMem, upperMem⟩ := List.mem_flatMap.1 upperMem
      have below := (within lower lowerMem).2
      have start := ((@spanRuns_within problem aliasId sorted other).2 upper upperMem).1
      have apart := above other otherMem
      omega

/-- The runs hold what the seed does between its anchors. -/
theorem runs_holds (sorted : SortedLists problem) (eligible : problem.mayCut aliasId = true)
    {low high : Nat} (ordered : low ≤ high) (near : high ≤ low + 1) :
    Holds ((buildCutGeometry problem seed).runs aliasId) low high ↔
      Holds (seed aliasId) low high ∧ ¬ Anchored problem aliasId low ∧
        ¬ Anchored problem aliasId high := by
  simp only [buildCutGeometry, eligible, not_true_eq_false, if_false]
  generalize seed aliasId = spans
  induction spans with
  | nil => simp
  | cons span rest ih =>
      rw [List.flatMap_cons, holds_append, holds_cons, ih,
        runsFrom_holds (anchorsFrom_ascending sorted)
          (fun _ mem => ((mem_anchorsFrom sorted).1 mem).1) ordered near]
      simp only [mem_anchorsFrom sorted, Interval.Contains]
      constructor
      · rintro (⟨above, below, lowFree, highFree⟩ | ⟨held, free⟩)
        · exact ⟨Or.inl ⟨⟨above, by omega⟩, by omega, below⟩,
            fun anchored => lowFree ⟨above, anchored⟩,
            fun anchored => highFree ⟨by omega, anchored⟩⟩
        · exact ⟨Or.inr held, free⟩
      · rintro ⟨⟨⟨above, _⟩, _, below⟩ | held, lowFree, highFree⟩
        · exact Or.inl ⟨above, below, fun both => lowFree both.2, fun both => highFree both.2⟩
        · exact Or.inr ⟨held, lowFree, highFree⟩

theorem runs_covers (sorted : SortedLists problem) (eligible : problem.mayCut aliasId = true)
    (boundary : Nat) :
    Covers ((buildCutGeometry problem seed).runs aliasId) boundary ↔
      Covers (seed aliasId) boundary ∧ ¬ Anchored problem aliasId boundary := by
  rw [covers_iff_holds, covers_iff_holds,
    runs_holds sorted eligible le_rfl (Nat.le_succ _), and_self]

end Runs

/-! ## The candidate of a boundary -/

theorem runAround_spec {runs : List Interval} {boundary : Nat} (ascending : Ascending runs)
    (fuel low high : Nat) (enough : high - low ≤ fuel) (bound : high ≤ runs.length)
    (passed : ∀ index, (inside : index < runs.length) → index < low →
      runs[index].finish < boundary)
    (beyond : ∀ index, (inside : index < runs.length) → high ≤ index →
      boundary < runs[index].start) (run : Interval) :
    runAround runs boundary fuel low high = some run ↔
      run ∈ runs ∧ run.Contains boundary := by
  induction fuel generalizing low high with
  | zero =>
      simp only [runAround, reduceCtorEq, false_iff, not_and]
      intro mem contains
      obtain ⟨index, inside, rfl⟩ := List.getElem_of_mem mem
      obtain ⟨starts, ends⟩ := contains
      by_cases before : index < low
      · have past := passed index inside before
        omega
      · have past := beyond index inside (by omega)
        omega
  | succ fuel ih =>
      rw [runAround]
      by_cases open_ : low < high
      · rw [if_pos open_]
        obtain ⟨middle, at_⟩ : ∃ middle, middle = low + (high - low) / 2 := ⟨_, rfl⟩
        have inside : middle < runs.length := by omega
        have valid := ascending.valid _ (List.getElem_mem inside)
        rw [← at_]
        simp only [List.getD_eq_getElem _ _ inside, Nat.cast_lt, gt_iff_lt]
        by_cases below : boundary < runs[middle].start
        · rw [if_pos below]
          apply ih low middle (by omega) (by omega) passed
          intro index bound past
          rcases Nat.lt_or_eq_of_le past with later | rfl
          · have apart := ascending.rises later (by omega) bound
            omega
          · exact below
        · rw [if_neg below]
          by_cases above : runs[middle].finish < boundary
          · rw [if_pos above]
            apply ih (middle + 1) high (by omega) bound _ beyond
            intro index bound past
            rcases Nat.lt_or_eq_of_le (Nat.le_of_lt_succ past) with earlier | rfl
            · have apart := ascending.rises earlier (by omega) inside
              omega
            · exact above
          · rw [if_neg above, Option.some.injEq]
            have contains : runs[middle].Contains boundary := ⟨by omega, by omega⟩
            constructor
            · rintro rfl
              exact ⟨List.getElem_mem inside, contains⟩
            · rintro ⟨mem, holds⟩
              exact ascending.unique (List.getElem_mem inside) mem contains holds
      · rw [if_neg open_]
        simp only [reduceCtorEq, false_iff, not_and]
        intro mem contains
        obtain ⟨index, inside, rfl⟩ := List.getElem_of_mem mem
        obtain ⟨starts, ends⟩ := contains
        by_cases before : index < low
        · have past := passed index inside before
          omega
        · have past := beyond index inside (by omega)
          omega

/-- The run around a boundary is the one that holds it. -/
theorem runAround_eq_some {runs : List Interval} {boundary : Nat}
    (ascending : Ascending runs) {run : Interval} :
    runAround runs boundary runs.length 0 runs.length = some run ↔
      run ∈ runs ∧ run.Contains boundary :=
  runAround_spec ascending _ 0 _ (by omega) le_rfl (fun _ _ early => by omega)
    (fun _ _ late => by omega) run

/-- What the reducer may cut at a boundary an alias is resident at: all that lies
before its first required boundary, the run around the boundary, or the bond
between an anchor and the next boundary. -/
inductive LegalCut (problem : ResidencyProblem) (geometry : Geometry)
    (spans : List Interval) (aliasId boundary : Nat) : ResidencyCut → Prop
  | spilledPrefix (required : Nat)
      (spilled : prefixRequired problem geometry spans aliasId = some required)
      (early : boundary < required) :
      LegalCut problem geometry spans aliasId boundary ⟨aliasId, -1, (required : Int) - 2⟩
  | run (run : Interval)
      (late : ∀ required, prefixRequired problem geometry spans aliasId = some required →
        required ≤ boundary)
      (free : ¬ Anchored problem aliasId boundary)
      (mem : run ∈ geometry.runs aliasId) (contains : run.Contains boundary)
      (inner : 0 < run.start) :
      LegalCut problem geometry spans aliasId boundary
        ⟨aliasId, (run.start : Int) - 1, (run.finish : Int) - 1⟩
  | split (anchor : Anchor)
      (late : ∀ required, prefixRequired problem geometry spans aliasId = some required →
        required ≤ boundary)
      (mem : anchor ∈ problem.anchors aliasId) (here : anchor.position = boundary)
      (joined : Joins spans boundary)
      (unread : ∀ task ∈ anchor.latest, (task : Int) ≤ (boundary : Int) - 1) :
      LegalCut problem geometry spans aliasId boundary
        ⟨aliasId, (boundary : Int), (boundary : Int) - 1⟩

section Candidates

variable {problem : ResidencyProblem} {geometry : Geometry} {spans : List Interval}
  {aliasId boundary : Nat}

theorem anchorAt_eq_none (sorted : SortedLists problem) :
    anchorAt problem aliasId boundary = none ↔ ¬ Anchored problem aliasId boundary := by
  rw [Option.eq_none_iff_forall_ne_some]
  constructor
  · rintro missing ⟨anchor, mem, here⟩
    exact missing anchor ((anchorAt_eq_some sorted).2 ⟨mem, here⟩)
  · intro free anchor found
    exact free ⟨anchor, (anchorAt_eq_some sorted).1 found⟩

/-- The candidate of a boundary is the legal cut there, where the alias is
resident. -/
theorem candidateCut_eq_some (sorted : SortedLists problem) (ascending : Ascending spans)
    (runsAscending : Ascending (geometry.runs aliasId)) {cut : ResidencyCut} :
    candidateCut problem geometry spans aliasId ((boundary : Int) - 1) = some cut ↔
      Covers spans boundary ∧ LegalCut problem geometry spans aliasId boundary cut := by
  have index : ((boundary : Int) - 1 + 1).toNat = boundary := by omega
  unfold candidateCut
  simp only [index]
  cases found : find spans boundary with
  | none =>
      have absent : ¬ Covers spans boundary := by
        rw [← find_isSome ascending, found]
        simp
      simp [absent]
  | some span =>
      have covered : Covers spans boundary := by
        rw [← find_isSome ascending, found]
        rfl
      obtain ⟨bound, contains⟩ := (find_eq_some ascending).1 found
      simp only [covered, true_and]
      by_cases early : ∃ required, prefixRequired problem geometry spans aliasId =
          some required ∧ boundary < required
      · obtain ⟨required, spilled, before⟩ := early
        rw [spilled, Option.filter_some, if_pos (by simpa using before)]
        simp only [Option.some.injEq]
        constructor
        · rintro rfl
          exact LegalCut.spilledPrefix required spilled before
        · rintro (⟨other, otherSpilled, _⟩ | ⟨_, late, _, _, _, _⟩ | ⟨_, late, _, _, _, _⟩)
          · obtain rfl : other = required := Option.some.inj (otherSpilled.symm.trans spilled)
            rfl
          · have past := late required spilled
            omega
          · have past := late required spilled
            omega
      · have late : ∀ required, prefixRequired problem geometry spans aliasId =
            some required → required ≤ boundary := by
          intro required spilled
          by_contra before
          exact early ⟨required, spilled, by omega⟩
        have passed : (prefixRequired problem geometry spans aliasId).filter
            (fun required => decide (boundary < required)) = none := by
          rw [Option.filter_eq_none_iff]
          intro required spilled
          have past := late required spilled
          simpa using past
        rw [passed]
        simp only
        cases anchored : anchorAt problem aliasId boundary with
        | none =>
            have free := (anchorAt_eq_none sorted).1 anchored
            simp only
            cases around : runAround (geometry.runs aliasId) boundary
                (geometry.runs aliasId).length 0 (geometry.runs aliasId).length with
            | none =>
                simp only [reduceCtorEq, false_iff]
                rintro (⟨other, spilled, before⟩ | ⟨run, _, _, mem, holds, _⟩ |
                  ⟨anchor, _, mem, here, _, _⟩)
                · exact early ⟨other, spilled, before⟩
                · rw [(runAround_eq_some runsAscending).2 ⟨mem, holds⟩] at around
                  cases around
                · exact free ⟨anchor, mem, here⟩
            | some run =>
                obtain ⟨mem, holds⟩ := (runAround_eq_some runsAscending).1 around
                simp only
                constructor
                · intro result
                  split_ifs at result with edge
                  cases result
                  exact LegalCut.run run late free mem holds (by omega)
                · rintro (⟨other, spilled, before⟩ | ⟨other, _, _, otherMem, otherHolds, inner⟩ |
                    ⟨anchor, _, anchorMem, here, _, _⟩)
                  · exact absurd ⟨other, spilled, before⟩ early
                  · obtain rfl := runsAscending.unique otherMem mem otherHolds holds
                    rw [if_neg (by omega)]
                  · exact absurd ⟨anchor, anchorMem, here⟩ free
        | some anchor =>
            obtain ⟨mem, here⟩ := (anchorAt_eq_some sorted).1 anchored
            simp only [List.getD_eq_getElem _ _ bound]
            have connected : spans[span].finish > boundary ↔ Joins spans boundary := by
              constructor
              · intro past
                exact ⟨_, List.getElem_mem bound, contains, by
                  obtain ⟨starts, _⟩ := contains
                  exact ⟨by omega, past⟩⟩
              · rintro ⟨other, otherMem, otherHolds, nextHolds⟩
                obtain rfl := ascending.unique otherMem (List.getElem_mem bound) otherHolds
                  contains
                exact nextHolds.2
            constructor
            · intro result
              split_ifs at result with splits edge
              cases result
              have legal : LegalCut problem geometry spans aliasId boundary _ :=
                LegalCut.split anchor late mem here (connected.1 splits.1) splits.2
              simpa using legal
            · rintro (⟨other, spilled, before⟩ | ⟨_, _, free, _, _, _⟩ |
                ⟨other, _, otherMem, otherHere, joined, unread⟩)
              · exact absurd ⟨other, spilled, before⟩ early
              · exact absurd ⟨anchor, mem, here⟩ free
              · obtain rfl : other = anchor := by
                  have same := (anchorAt_eq_some sorted).2 ⟨otherMem, otherHere⟩
                  rw [anchored] at same
                  exact (Option.some.inj same).symm
                rw [if_pos ⟨connected.2 joined, unread⟩, if_neg (by omega)]
                simp

theorem prefixRequired_eq_some (sorted : SortedLists problem) (ascending : Ascending spans)
    {required : Nat} :
    prefixRequired problem geometry spans aliasId = some required ↔
      (Covers spans 0 ∧ problem.initialLocation aliasId = some .spill ∧
        ¬ Anchored problem aliasId 0) ∧
      geometry.firstRequired aliasId = some required := by
  rw [← find_isSome ascending, ← anchorAt_eq_none sorted]
  unfold prefixRequired residentAt
  split_ifs with holds
  · simp [holds]
  · simp only [holds, false_and]

theorem firstRequired_spec (sorted : SortedLists problem) {seed : Nat → List Interval}
    {required : Nat}
    (first : (buildCutGeometry problem seed).firstRequired aliasId = some required) :
    1 ≤ required ∧ Anchored problem aliasId required ∧
      ∀ boundary, 1 ≤ boundary → Anchored problem aliasId boundary → required ≤ boundary := by
  simp only [buildCutGeometry] at first
  split_ifs at first
  exact head_anchorsFrom sorted first

end Candidates

/-! ## What cuts leave of a seed -/

/-- The spans are the seed without some of its runs, with breaks after some of its
anchors; what lies before the first required boundary of a spilled alias stays or
goes together. -/
structure Within (problem : ResidencyProblem) (geometry : Geometry)
    (seed spans : List Interval) (aliasId : Nat) : Prop where
  ascending : Ascending spans
  covers : ∀ boundary, Covers spans boundary → Covers seed boundary
  joins : ∀ boundary, Joins spans boundary → Joins seed boundary
  anchors : ∀ boundary, Anchored problem aliasId boundary → Covers seed boundary →
    Covers spans boundary
  runs : ∀ run ∈ geometry.runs aliasId, ∀ first second, run.Contains first →
    run.Contains second → Covers spans first → Covers spans second
  bonds : ∀ boundary, ¬ Anchored problem aliasId boundary → Joins seed boundary →
    Covers spans boundary → Covers spans (boundary + 1) → Joins spans boundary
  spilled : ∀ required, prefixRequired problem geometry seed aliasId = some required →
    ∀ first second, first < required → second < required → Covers seed second →
      Covers spans first → Covers spans second

/-- A cut taken out of one alias's spans. -/
def cutSpans (spans : List Interval) (cut : ResidencyCut) : List Interval :=
  if cut.start > cut.finish then splitAfter spans (cut.finish + 1).toNat
  else clear (cut.start + 1).toNat (cut.finish + 1).toNat spans

@[simp]
theorem applyCut_same (spans : Nat → List Interval) (cut : ResidencyCut) :
    applyCut spans cut cut.aliasId = cutSpans (spans cut.aliasId) cut :=
  Function.update_self _ _ _

theorem applyCut_other (spans : Nat → List Interval) (cut : ResidencyCut) {other : Nat}
    (different : other ≠ cut.aliasId) : applyCut spans cut other = spans other :=
  Function.update_of_ne different _ _

theorem cutSpans_spilled (spans : List Interval) (aliasId : Nat) {required : Nat}
    (positive : 1 ≤ required) :
    cutSpans spans ⟨aliasId, -1, (required : Int) - 2⟩ = clear 0 (required - 1) spans := by
  have last : ((required : Int) - 2 + 1).toNat = required - 1 := by omega
  rw [cutSpans, if_neg (by simp only; omega), last]
  rfl

theorem cutSpans_run (spans : List Interval) (aliasId : Nat) {run : Interval}
    (valid : run.start ≤ run.finish) :
    cutSpans spans ⟨aliasId, (run.start : Int) - 1, (run.finish : Int) - 1⟩ =
      clear run.start run.finish spans := by
  have first : ((run.start : Int) - 1 + 1).toNat = run.start := by omega
  have last : ((run.finish : Int) - 1 + 1).toNat = run.finish := by omega
  rw [cutSpans, if_neg (by simp only; omega), first, last]

theorem cutSpans_split (spans : List Interval) (aliasId boundary : Nat) :
    cutSpans spans ⟨aliasId, (boundary : Int), (boundary : Int) - 1⟩ =
      splitAfter spans boundary := by
  have last : ((boundary : Int) - 1 + 1).toNat = boundary := by omega
  rw [cutSpans, if_pos (by simp only; omega), last]

section Steps

variable {problem : ResidencyProblem} {seed : Nat → List Interval} {spans : List Interval}
  {aliasId boundary : Nat}

theorem Within.refl (sorted : SortedLists problem) (ascending : Ascending (seed aliasId))
    (eligible : problem.mayCut aliasId = true) :
    Within problem (buildCutGeometry problem seed) (seed aliasId) (seed aliasId) aliasId where
  ascending := ascending
  covers := fun _ held => held
  joins := fun _ held => held
  anchors := fun _ _ held => held
  runs := by
    intro run mem _ second _ inside _
    exact ((runs_covers sorted eligible second).1 ⟨run, mem, inside⟩).1
  bonds := fun _ _ joined _ _ => joined
  spilled := fun _ _ _ _ _ _ held _ => held

/-- A run holds no anchor. -/
theorem run_free (sorted : SortedLists problem) (eligible : problem.mayCut aliasId = true)
    {run : Interval} (mem : run ∈ (buildCutGeometry problem seed).runs aliasId)
    (inside : run.Contains boundary) : ¬ Anchored problem aliasId boundary :=
  ((runs_covers sorted eligible boundary).1 ⟨run, mem, inside⟩).2

/-- A legal cut leaves the seed without what it names. -/
theorem Within.cut (sorted : SortedLists problem) (ascending : Ascending (seed aliasId))
    (eligible : problem.mayCut aliasId = true)
    (within : Within problem (buildCutGeometry problem seed) (seed aliasId) spans aliasId)
    {cut : ResidencyCut}
    (legal : LegalCut problem (buildCutGeometry problem seed) spans aliasId boundary cut) :
    Within problem (buildCutGeometry problem seed) (seed aliasId) (cutSpans spans cut)
      aliasId := by
  have runsAscending := runs_ascending sorted ascending eligible
  cases legal with
  | spilledPrefix required spilled early =>
      obtain ⟨⟨resident, starts, free⟩, first⟩ :=
        (prefixRequired_eq_some sorted within.ascending).1 spilled
      obtain ⟨positive, anchored, least⟩ := firstRequired_spec sorted first
      rw [cutSpans_spilled spans aliasId positive]
      have covers := clear_covers within.ascending (Nat.zero_le (required - 1))
      have joins := clear_joins within.ascending (Nat.zero_le (required - 1))
      constructor
      · exact clear_ascending within.ascending (Nat.zero_le _)
      · exact fun other held => within.covers other ((covers other).1 held).1
      · exact fun other held => within.joins other ((joins other).1 held).1
      · intro other anchoredOther held
        refine (covers other).2 ⟨within.anchors other anchoredOther held, ?_⟩
        by_cases zero : other = 0
        · subst zero
          exact absurd anchoredOther free
        · have above := least other (by omega) anchoredOther
          omega
      · intro run mem one two inOne inTwo held
        obtain ⟨held, outside⟩ := (covers one).1 held
        refine (covers two).2 ⟨within.runs run mem one two inOne inTwo held, ?_⟩
        by_contra below
        have inside : run.Contains required := by
          obtain ⟨oneStart, oneEnd⟩ := inOne
          obtain ⟨twoStart, twoEnd⟩ := inTwo
          constructor <;> omega
        exact run_free sorted eligible mem inside anchored
      · intro other freeOther joined here there
        obtain ⟨here, outside⟩ := (covers other).1 here
        exact (joins other).2 ⟨within.bonds other freeOther joined here
          ((covers (other + 1)).1 there).1, by omega⟩
      · intro other otherSpilled one two before _ _ held
        obtain ⟨_, otherFirst⟩ := (prefixRequired_eq_some sorted ascending).1 otherSpilled
        obtain rfl : other = required := Option.some.inj (otherFirst.symm.trans first)
        have outside := ((covers one).1 held).2
        omega
  | run run late free mem contains inner =>
      have valid := runsAscending.valid run mem
      rw [cutSpans_run spans aliasId valid]
      have covers := clear_covers within.ascending valid
      have joins := clear_joins within.ascending valid
      constructor
      · exact clear_ascending within.ascending valid
      · exact fun other held => within.covers other ((covers other).1 held).1
      · exact fun other held => within.joins other ((joins other).1 held).1
      · intro other anchored held
        refine (covers other).2 ⟨within.anchors other anchored held, ?_⟩
        by_contra inside
        exact run_free sorted eligible mem ⟨by omega, by omega⟩ anchored
      · intro another otherMem one two inOne inTwo held
        obtain ⟨held, outside⟩ := (covers one).1 held
        refine (covers two).2 ⟨within.runs another otherMem one two inOne inTwo held, ?_⟩
        by_contra inside
        obtain rfl := runsAscending.unique otherMem mem inTwo ⟨by omega, by omega⟩
        obtain ⟨oneStart, oneEnd⟩ := inOne
        omega
      · intro other freeOther joined here there
        obtain ⟨here, outside⟩ := (covers other).1 here
        obtain ⟨there, outsideNext⟩ := (covers (other + 1)).1 there
        exact (joins other).2 ⟨within.bonds other freeOther joined here there, by omega⟩
      · intro required spilled one two before twoBefore seedTwo held
        obtain ⟨held, outside⟩ := (covers one).1 held
        have kept := within.spilled required spilled one two before twoBefore seedTwo held
        refine (covers two).2 ⟨kept, ?_⟩
        obtain ⟨⟨resident, starts, startFree⟩, first⟩ :=
          (prefixRequired_eq_some sorted ascending).1 spilled
        obtain ⟨positive, anchored, least⟩ := firstRequired_spec sorted first
        have stillResident := within.spilled required spilled one 0 before positive resident
          held
        have past := late required ((prefixRequired_eq_some sorted within.ascending).2
          ⟨⟨stillResident, starts, startFree⟩, first⟩)
        by_contra inside
        obtain ⟨containsStart, containsEnd⟩ := contains
        exact run_free sorted eligible mem ⟨by omega, by omega⟩ anchored
  | split anchor late mem here joined unread =>
      rw [cutSpans_split spans aliasId boundary]
      have covers := @splitAfter_covers spans boundary within.ascending
      have joins := @splitAfter_joins spans boundary within.ascending
      constructor
      · exact splitAfter_ascending within.ascending
      · exact fun other held => within.covers other ((covers other).1 held)
      · exact fun other held => within.joins other ((joins other).1 held).1
      · exact fun other anchored held =>
          (covers other).2 (within.anchors other anchored held)
      · intro run runMem one two inOne inTwo held
        exact (covers two).2 (within.runs run runMem one two inOne inTwo
          ((covers one).1 held))
      · intro other freeOther joinedSeed left right
        refine (joins other).2 ⟨within.bonds other freeOther joinedSeed
          ((covers other).1 left) ((covers (other + 1)).1 right), ?_⟩
        rintro rfl
        exact freeOther ⟨anchor, mem, here⟩
      · intro required spilled one two before twoBefore seedTwo held
        exact (covers two).2 (within.spilled required spilled one two before twoBefore seedTwo
          ((covers one).1 held))

/-- A boundary the alias is resident at, and a cut legal there. -/
def Offers (problem : ResidencyProblem) (geometry : Geometry) (spans : List Interval)
    (aliasId boundary : Nat) (cut : ResidencyCut) : Prop :=
  Covers spans boundary ∧ LegalCut problem geometry spans aliasId boundary cut

theorem cutSpans_covers (within : Within problem (buildCutGeometry problem seed)
      (seed aliasId) spans aliasId)
    (sorted : SortedLists problem) (ascending : Ascending (seed aliasId))
    (eligible : problem.mayCut aliasId = true) {cut : ResidencyCut}
    (legal : LegalCut problem (buildCutGeometry problem seed) spans aliasId boundary cut) :
    (∀ other, Covers (cutSpans spans cut) other → Covers spans other) ∧
      ∀ other, Joins (cutSpans spans cut) other → Joins spans other := by
  have runsAscending := runs_ascending sorted ascending eligible
  cases legal with
  | spilledPrefix required spilled early =>
      rw [cutSpans_spilled spans aliasId (by omega)]
      exact ⟨fun other held => ((clear_covers within.ascending (Nat.zero_le _) other).1 held).1,
        fun other held => ((clear_joins within.ascending (Nat.zero_le _) other).1 held).1⟩
  | run run late free mem contains inner =>
      have valid := runsAscending.valid run mem
      rw [cutSpans_run spans aliasId valid]
      exact ⟨fun other held => ((clear_covers within.ascending valid other).1 held).1,
        fun other held => ((clear_joins within.ascending valid other).1 held).1⟩
  | split anchor late mem here joined unread =>
      rw [cutSpans_split spans aliasId boundary]
      exact ⟨fun other held => (splitAfter_covers within.ascending other).1 held,
        fun other held => ((splitAfter_joins within.ascending other).1 held).1⟩

/-- What a residency offers, one it was cut from offered too. -/
theorem Offers.mono (sorted : SortedLists problem) (ascending : Ascending (seed aliasId))
    {later : List Interval}
    (within : Within problem (buildCutGeometry problem seed) (seed aliasId) spans aliasId)
    (laterWithin : Within problem (buildCutGeometry problem seed) (seed aliasId) later aliasId)
    (covers : ∀ other, Covers later other → Covers spans other)
    (joins : ∀ other, Joins later other → Joins spans other) {cut : ResidencyCut}
    (offers : Offers problem (buildCutGeometry problem seed) later aliasId boundary cut) :
    Offers problem (buildCutGeometry problem seed) spans aliasId boundary cut := by
  obtain ⟨held, legal⟩ := offers
  refine ⟨covers boundary held, ?_⟩
  -- What is required of the residency is required of the later one.
  have early : ∀ required,
      prefixRequired problem (buildCutGeometry problem seed) spans aliasId = some required →
        boundary < required →
        prefixRequired problem (buildCutGeometry problem seed) later aliasId =
          some required := by
    intro required spilled before
    obtain ⟨⟨resident, starts, free⟩, first⟩ :=
      (prefixRequired_eq_some sorted within.ascending).1 spilled
    have positive := (firstRequired_spec sorted first).1
    have ofSeed := (prefixRequired_eq_some sorted ascending).2
      ⟨⟨within.covers 0 resident, starts, free⟩, first⟩
    have kept := laterWithin.spilled required ofSeed boundary 0 before (by omega)
      (within.covers 0 resident) held
    exact (prefixRequired_eq_some sorted laterWithin.ascending).2 ⟨⟨kept, starts, free⟩, first⟩
  cases legal with
  | spilledPrefix required spilled before =>
      obtain ⟨⟨resident, starts, free⟩, first⟩ :=
        (prefixRequired_eq_some sorted laterWithin.ascending).1 spilled
      exact LegalCut.spilledPrefix required ((prefixRequired_eq_some sorted
        within.ascending).2 ⟨⟨covers 0 resident, starts, free⟩, first⟩) before
  | run run late free mem contains inner =>
      apply LegalCut.run run _ free mem contains inner
      intro required spilled
      by_contra before
      exact before (late required (early required spilled (by omega)))
  | split anchor late mem here joined unread =>
      apply LegalCut.split anchor _ mem here (joins _ joined) unread
      intro required spilled
      by_contra before
      exact before (late required (early required spilled (by omega)))

/-- Boundaries at which the seed offers one cut offer it together ever after. -/
theorem Offers.uniform (sorted : SortedLists problem) (ascending : Ascending (seed aliasId))
    (eligible : problem.mayCut aliasId = true)
    (within : Within problem (buildCutGeometry problem seed) (seed aliasId) spans aliasId)
    {other : Nat} {cut : ResidencyCut}
    (offers : Offers problem (buildCutGeometry problem seed) spans aliasId boundary cut)
    (seedOffers : Offers problem (buildCutGeometry problem seed) (seed aliasId) aliasId
      other cut) :
    Offers problem (buildCutGeometry problem seed) spans aliasId other cut := by
  have runsAscending := runs_ascending sorted ascending eligible
  obtain ⟨held, legal⟩ := offers
  obtain ⟨seedHeld, seedLegal⟩ := seedOffers
  generalize kind : cut = kept at seedLegal
  cases legal with
  | spilledPrefix required spilled before =>
      cases seedLegal with
      | spilledPrefix seedRequired seedSpilled seedBefore =>
          simp only [ResidencyCut.mk.injEq] at kind
          obtain rfl : required = seedRequired := by omega
          exact ⟨within.spilled required seedSpilled boundary other before seedBefore seedHeld
            held, LegalCut.spilledPrefix required spilled seedBefore⟩
      | run run late free mem contains inner =>
          simp only [ResidencyCut.mk.injEq] at kind
          omega
      | split anchor late mem here joined unread =>
          simp only [ResidencyCut.mk.injEq] at kind
          omega
  | run run late free mem contains inner =>
      have valid := runsAscending.valid run mem
      cases seedLegal with
      | spilledPrefix seedRequired seedSpilled seedBefore =>
          simp only [ResidencyCut.mk.injEq] at kind
          omega
      | run seedRun seedLate seedFree seedMem seedContains seedInner =>
          simp only [ResidencyCut.mk.injEq] at kind
          have same : seedRun = run := by
            cases seedRun
            cases run
            simp only [Interval.mk.injEq] at kind ⊢
            omega
          subst same
          refine ⟨within.runs seedRun mem boundary other contains seedContains held,
            LegalCut.run seedRun ?_ seedFree mem seedContains inner⟩
          intro required spilled
          have past := late required spilled
          obtain ⟨_, first⟩ := (prefixRequired_eq_some sorted within.ascending).1 spilled
          have anchored := (firstRequired_spec sorted first).2.1
          by_contra before
          obtain ⟨lower, upper⟩ := contains
          obtain ⟨otherLower, otherUpper⟩ := seedContains
          exact run_free sorted eligible mem ⟨by omega, by omega⟩ anchored
      | split anchor seedLate seedMem here joined unread =>
          simp only [ResidencyCut.mk.injEq] at kind
          omega
  | split anchor late mem here joined unread =>
      cases seedLegal with
      | spilledPrefix seedRequired seedSpilled seedBefore =>
          simp only [ResidencyCut.mk.injEq] at kind
          omega
      | run seedRun seedLate seedFree seedMem seedContains seedInner =>
          simp only [ResidencyCut.mk.injEq] at kind
          have seedValid := runsAscending.valid seedRun seedMem
          omega
      | split seedAnchor seedLate seedMem seedHere seedJoined seedUnread =>
          simp only [ResidencyCut.mk.injEq] at kind
          obtain rfl : boundary = other := by omega
          exact ⟨held, LegalCut.split anchor late mem here joined unread⟩

/-- A cut takes the alias out of a boundary, or ends a span there. -/
def Takes (cut : ResidencyCut) (boundary : Nat) : Prop :=
  if cut.start > cut.finish then (boundary : Int) = cut.finish + 1
  else cut.start + 1 ≤ boundary ∧ (boundary : Int) ≤ cut.finish + 1

/-- A cut that is offered anywhere is offered at every boundary it takes. -/
theorem Offers.taken (sorted : SortedLists problem) (ascending : Ascending (seed aliasId))
    (eligible : problem.mayCut aliasId = true)
    (within : Within problem (buildCutGeometry problem seed) (seed aliasId) spans aliasId)
    {other : Nat} {cut : ResidencyCut}
    (offers : Offers problem (buildCutGeometry problem seed) spans aliasId other cut)
    (held : Covers spans boundary) (takes : Takes cut boundary) :
    Offers problem (buildCutGeometry problem seed) spans aliasId boundary cut := by
  have runsAscending := runs_ascending sorted ascending eligible
  obtain ⟨otherHeld, legal⟩ := offers
  refine ⟨held, ?_⟩
  unfold Takes at takes
  cases legal with
  | spilledPrefix required spilled early =>
      rw [if_neg (by simp only; omega)] at takes
      exact LegalCut.spilledPrefix required spilled (by simp only at takes; omega)
  | run run late free mem contains inner =>
      have valid := runsAscending.valid run mem
      rw [if_neg (by simp only; omega)] at takes
      have inside : run.Contains boundary := by
        simp only at takes
        exact ⟨by omega, by omega⟩
      refine LegalCut.run run ?_ (run_free sorted eligible mem inside) mem inside inner
      intro required spilled
      have past := late required spilled
      obtain ⟨_, first⟩ := (prefixRequired_eq_some sorted within.ascending).1 spilled
      by_contra before
      exact run_free sorted eligible mem ⟨by have lower := inside.1; omega,
        le_trans past contains.2⟩ (firstRequired_spec sorted first).2.1
  | split anchor late mem here joined unread =>
      rw [if_pos (by simp only; omega)] at takes
      simp only at takes
      obtain rfl : boundary = other := by omega
      exact LegalCut.split anchor late mem here joined unread

/-- A cut that was applied is offered nowhere. -/
theorem not_offers_cut (sorted : SortedLists problem) (ascending : Ascending (seed aliasId))
    (eligible : problem.mayCut aliasId = true)
    (within : Within problem (buildCutGeometry problem seed) (seed aliasId) spans aliasId)
    {cut : ResidencyCut}
    (legal : LegalCut problem (buildCutGeometry problem seed) spans aliasId boundary cut)
    (other : Nat) :
    ¬ Offers problem (buildCutGeometry problem seed) (cutSpans spans cut) aliasId other
      cut := by
  have runsAscending := runs_ascending sorted ascending eligible
  rintro ⟨held, laterLegal⟩
  generalize result : cutSpans spans cut = later at held laterLegal
  generalize kind : cut = kept at laterLegal
  cases legal with
  | spilledPrefix required spilled before =>
      have positive : 1 ≤ required := by omega
      rw [cutSpans_spilled spans aliasId positive] at result
      subst result
      cases laterLegal with
      | spilledPrefix laterRequired laterSpilled laterBefore =>
          have resident := ((prefixRequired_eq_some sorted
            (clear_ascending within.ascending (Nat.zero_le _))).1 laterSpilled).1.1
          have outside := ((clear_covers within.ascending (Nat.zero_le _) 0).1 resident).2
          omega
      | run run late free mem contains inner =>
          simp only [ResidencyCut.mk.injEq] at kind
          omega
      | split anchor late mem here joined unread =>
          simp only [ResidencyCut.mk.injEq] at kind
          omega
  | run run late free mem contains inner =>
      have valid := runsAscending.valid run mem
      rw [cutSpans_run spans aliasId valid] at result
      subst result
      cases laterLegal with
      | spilledPrefix laterRequired laterSpilled laterBefore =>
          simp only [ResidencyCut.mk.injEq] at kind
          omega
      | run laterRun laterLate laterFree laterMem laterContains laterInner =>
          simp only [ResidencyCut.mk.injEq] at kind
          obtain ⟨lower, upper⟩ := laterContains
          have outside := ((clear_covers within.ascending valid other).1 held).2
          omega
      | split anchor laterLate laterMem here joined unread =>
          simp only [ResidencyCut.mk.injEq] at kind
          omega
  | split anchor late mem here joined unread =>
      rw [cutSpans_split spans aliasId boundary] at result
      subst result
      cases laterLegal with
      | spilledPrefix laterRequired laterSpilled laterBefore =>
          simp only [ResidencyCut.mk.injEq] at kind
          omega
      | run laterRun laterLate laterFree laterMem laterContains laterInner =>
          simp only [ResidencyCut.mk.injEq] at kind
          have laterValid := runsAscending.valid laterRun laterMem
          omega
      | split laterAnchor laterLate laterMem laterHere laterJoined laterUnread =>
          simp only [ResidencyCut.mk.injEq] at kind
          obtain rfl : boundary = other := by omega
          exact ((splitAfter_joins within.ascending boundary).1 laterJoined).2 rfl

end Steps

end ShadowSpill.Planner.Residency.CutLegality
