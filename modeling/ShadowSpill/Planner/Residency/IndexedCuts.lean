import ShadowSpill.Planner.Residency.CutLegality

/-!
# What the index records

The stretches of a seed break it where its candidate may change, so an indexed
cut is the candidate of every boundary it is recorded for, and every candidate is
recorded.  Selection then finds the best of the active cuts of a boundary.
-/

namespace ShadowSpill.Planner.Residency.IndexedCuts

open Library.Intervals Problem Spans Cuts CutIndexing CutLegality

/-! ## Gathering stretches -/

/-- What is gathered so far are candidates, and holds every candidate of the
boundaries seen. -/
structure Gathers (problem : ResidencyProblem) (candidate : Nat → Option ResidencyCut)
    (seen : Nat → Prop) (gathering : Gathering) : Prop where
  items : ∀ item ∈ gathering.cuts,
    item = indexedCut problem item.cut item.firstBoundary item.lastBoundary ∧
      item.firstBoundary ≤ item.lastBoundary ∧
      ∀ boundary, item.firstBoundary ≤ boundary → boundary ≤ item.lastBoundary →
        seen boundary ∧ candidate boundary = some item.cut
  opened : ∀ stretch ∈ gathering.stretch, stretch.first ≤ stretch.last ∧
    ∀ boundary, stretch.first ≤ boundary → boundary ≤ stretch.last →
      seen boundary ∧ candidate boundary = some stretch.current
  found : ∀ boundary cut, seen boundary → candidate boundary = some cut →
    (∃ item ∈ gathering.cuts, item.firstBoundary ≤ boundary ∧
      boundary ≤ item.lastBoundary ∧ item.cut = cut) ∨
    ∃ stretch ∈ gathering.stretch, stretch.first ≤ boundary ∧
      boundary ≤ stretch.last ∧ stretch.current = cut

section Gathering

variable {problem : ResidencyProblem} {candidate : Nat → Option ResidencyCut}
  {seen : Nat → Prop} {gathering : Gathering}

theorem Gathers.start : Gathers problem candidate (fun _ => False) ⟨[], none⟩ where
  items := by simp
  opened := by simp
  found := fun _ _ impossible => impossible.elim

/-- Closing the open stretch indexes its cut. -/
theorem Gathers.close (gathers : Gathers problem candidate seen gathering)
    {opened : CutStretch} (open_ : gathering.stretch = some opened) :
    Gathers problem candidate seen
      ⟨gathering.cuts ++ [indexedCut problem opened.current opened.first opened.last],
        none⟩ := by
  obtain ⟨valid, held⟩ := gathers.opened opened open_
  constructor
  · intro item mem
    rcases List.mem_append.1 mem with mem | mem
    · exact gathers.items item mem
    · obtain rfl := List.mem_singleton.1 mem
      exact ⟨rfl, valid, held⟩
  · simp
  · intro boundary cut isSeen offered
    left
    rcases gathers.found boundary cut isSeen offered with ⟨item, mem, range⟩ |
      ⟨stretch, mem, range⟩
    · exact ⟨item, List.mem_append_left _ mem, range⟩
    · obtain rfl : opened = stretch := Option.some.inj (open_.symm.trans mem)
      exact ⟨_, List.mem_append_right _ (List.mem_singleton_self _), range⟩

/-- With nothing open, a stretch that yields a cut is opened. -/
theorem Gathers.openWith (gathers : Gathers problem candidate seen gathering)
    (closed : gathering.stretch = none) {first last : Nat} (valid : first ≤ last)
    {offered : Option ResidencyCut}
    (same : ∀ boundary, first ≤ boundary → boundary ≤ last → candidate boundary = offered) :
    Gathers problem candidate (fun boundary => seen boundary ∨
        (first ≤ boundary ∧ boundary ≤ last))
      ⟨gathering.cuts, offered.map fun cut => ⟨cut, first, last⟩⟩ := by
  constructor
  · intro item mem
    obtain ⟨form, ordered, held⟩ := gathers.items item mem
    exact ⟨form, ordered, fun boundary lower upper =>
      ⟨Or.inl (held boundary lower upper).1, (held boundary lower upper).2⟩⟩
  · intro stretch mem
    obtain ⟨cut, here, rfl⟩ := Option.map_eq_some_iff.1 mem
    refine ⟨valid, ?_⟩
    intro boundary lower upper
    exact ⟨Or.inr ⟨lower, upper⟩, (same boundary lower upper).trans here⟩
  · rintro boundary cut (isSeen | ⟨lower, upper⟩) found
    · rcases gathers.found boundary cut isSeen found with known | ⟨stretch, mem, _⟩
      · exact Or.inl known
      · rw [closed] at mem
        cases mem
    · right
      have here := (same boundary lower upper).symm.trans found
      exact ⟨⟨cut, first, last⟩, by rw [here]; rfl, lower, upper, rfl⟩

theorem Gathers.offer (gathers : Gathers problem candidate seen gathering)
    {first last : Nat} (valid : first ≤ last) {offered : Option ResidencyCut}
    (same : ∀ boundary, first ≤ boundary → boundary ≤ last → candidate boundary = offered) :
    Gathers problem candidate (fun boundary => seen boundary ∨
        (first ≤ boundary ∧ boundary ≤ last))
      (offerCutStretch problem gathering first last offered) := by
  unfold offerCutStretch
  cases open_ : gathering.stretch with
  | none =>
      have next := gathers.openWith open_ valid same
      cases offered with
      | none => rwa [Option.map_none, ← open_] at next
      | some cut => exact next
  | some opened =>
      have next := (gathers.close open_).openWith rfl valid same
      cases offered with
      | none => exact next
      | some cut =>
          simp only
          split_ifs with continues
          · obtain ⟨rfl, rfl⟩ := continues
            obtain ⟨ordered, held⟩ := gathers.opened opened open_
            constructor
            · intro item mem
              obtain ⟨form, range, inside⟩ := gathers.items item mem
              exact ⟨form, range, fun boundary lower upper =>
                ⟨Or.inl (inside boundary lower upper).1, (inside boundary lower upper).2⟩⟩
            · intro stretch mem
              cases mem
              refine ⟨by simp only; omega, ?_⟩
              intro boundary lower upper
              simp only at lower upper ⊢
              by_cases earlier : boundary ≤ opened.last
              · have known := held boundary lower earlier
                exact ⟨Or.inl known.1, known.2⟩
              · exact ⟨Or.inr ⟨by omega, upper⟩, same boundary (by omega) upper⟩
            · rintro boundary other (isSeen | ⟨lower, upper⟩) found
              · rcases gathers.found boundary other isSeen found with known |
                  ⟨stretch, mem, lower, upper, same_⟩
                · exact Or.inl known
                · obtain rfl : opened = stretch := Option.some.inj (open_.symm.trans mem)
                  exact Or.inr ⟨_, rfl, lower, by simp only; omega, same_⟩
              · have here := (same boundary lower upper).symm.trans found
                cases here
                exact Or.inr ⟨_, rfl, by simp only; omega, upper, rfl⟩
          · exact next

/-- Offering stretches one after the other gathers their candidates. -/
theorem Gathers.fold (stretches : List Interval)
    (gathers : Gathers problem candidate seen gathering)
    (valid : ∀ stretch ∈ stretches, stretch.start ≤ stretch.finish)
    (same : ∀ stretch ∈ stretches, ∀ boundary, stretch.Contains boundary →
      candidate boundary = candidate stretch.start) :
    Gathers problem candidate (fun boundary => seen boundary ∨ Covers stretches boundary)
      (stretches.foldl (fun gathering stretch =>
        offerCutStretch problem gathering stretch.start stretch.finish
          (candidate stretch.start)) gathering) := by
  induction stretches generalizing gathering seen with
  | nil => simpa using gathers
  | cons stretch rest ih =>
      have next := gathers.offer (valid stretch (by simp))
        (fun boundary lower upper => same stretch (by simp) boundary ⟨lower, upper⟩)
      have folded := ih next (fun other mem => valid other (by simp [mem]))
        (fun other mem => same other (by simp [mem]))
      simpa only [List.foldl_cons, covers_cons, Interval.Contains, or_assoc] using folded

end Gathering

/-! ## The stretches of a seed -/

section Stretches

theorem runStretches_spec {prefixEnd first last : Nat} (ordered : first ≤ last) :
    (∀ stretch ∈ runStretches prefixEnd first last,
      first ≤ stretch.start ∧ stretch.start ≤ stretch.finish ∧ stretch.finish ≤ last ∧
        (stretch.finish < prefixEnd ∨ prefixEnd ≤ stretch.start)) ∧
      ∀ boundary, first ≤ boundary → boundary ≤ last →
        Covers (runStretches prefixEnd first last) boundary := by
  unfold runStretches
  split_ifs with broken
  · constructor
    · intro stretch mem
      rcases List.mem_pair.1 mem with rfl | rfl
      · simp only
        omega
      · simp only
        omega
    · intro boundary lower upper
      simp only [covers_cons, not_covers_nil, or_false, Interval.Contains]
      omega
  · constructor
    · intro stretch mem
      obtain rfl := List.mem_singleton.1 mem
      simp only
      omega
    · intro boundary lower upper
      simp only [covers_cons, not_covers_nil, or_false, Interval.Contains]
      omega

/-- A stretch is one anchor, or lies between anchors on one side of the end of
the prefix. -/
def Unbroken (prefixEnd : Nat) (anchors : List Nat) (stretch : Interval) : Prop :=
  stretch.start = stretch.finish ∨
    (∀ anchor ∈ anchors, ¬ stretch.Contains anchor) ∧
      (stretch.finish < prefixEnd ∨ prefixEnd ≤ stretch.start)

theorem spanStretches_spec {prefixEnd spanEnd : Nat} {anchors : List Nat} {cursor : Nat}
    (ascending : anchors.Pairwise (· < ·)) (above : ∀ anchor ∈ anchors, cursor ≤ anchor) :
    (∀ stretch ∈ spanStretches prefixEnd spanEnd anchors cursor,
      cursor ≤ stretch.start ∧ stretch.start ≤ stretch.finish ∧ stretch.finish ≤ spanEnd ∧
        Unbroken prefixEnd anchors stretch) ∧
      ∀ boundary, cursor ≤ boundary → boundary ≤ spanEnd →
        Covers (spanStretches prefixEnd spanEnd anchors cursor) boundary := by
  induction anchors generalizing cursor with
  | nil =>
      rw [spanStretches]
      by_cases inside : cursor ≤ spanEnd
      · rw [if_pos inside]
        obtain ⟨parts, covers⟩ := @runStretches_spec prefixEnd cursor spanEnd inside
        refine ⟨?_, covers⟩
        intro stretch mem
        obtain ⟨lower, valid, upper, side⟩ := parts stretch mem
        exact ⟨lower, valid, upper, Or.inr ⟨by simp, side⟩⟩
      · rw [if_neg inside]
        refine ⟨by simp, ?_⟩
        intro boundary lower upper
        omega
  | cons anchor rest ih =>
      obtain ⟨below, restAscending⟩ := List.pairwise_cons.1 ascending
      have lower := above anchor (by simp)
      obtain ⟨tailParts, tailCovers⟩ := @ih (anchor + 1) restAscending
        (fun other mem => below other mem)
      -- A run that ends before the anchor meets no anchor.
      have gapParts : ∀ last, cursor ≤ last → last < anchor → last ≤ spanEnd →
          ∀ stretch ∈ runStretches prefixEnd cursor last,
            cursor ≤ stretch.start ∧ stretch.start ≤ stretch.finish ∧
              stretch.finish ≤ spanEnd ∧
              Unbroken prefixEnd (anchor :: rest) stretch := by
        intro last from_ before within stretch mem
        obtain ⟨start, valid, finish, side⟩ := (runStretches_spec from_).1 stretch mem
        refine ⟨start, valid, by omega, Or.inr ⟨?_, side⟩⟩
        intro other otherMem contains
        obtain ⟨_, ends⟩ := contains
        rcases List.mem_cons.1 otherMem with rfl | later
        · omega
        · have past := below other later
          omega
      rw [spanStretches]
      by_cases inside : cursor ≤ spanEnd
      · rw [if_pos inside]
        by_cases reached : anchor ≤ spanEnd
        · rw [if_pos reached]
          have tail : ∀ stretch ∈ spanStretches prefixEnd spanEnd rest (anchor + 1),
              cursor ≤ stretch.start ∧ stretch.start ≤ stretch.finish ∧
                stretch.finish ≤ spanEnd ∧
                Unbroken prefixEnd (anchor :: rest) stretch := by
            intro stretch mem
            obtain ⟨start, valid, finish, unbroken⟩ := tailParts stretch mem
            refine ⟨by omega, valid, finish, ?_⟩
            rcases unbroken with single | ⟨free, side⟩
            · exact Or.inl single
            · refine Or.inr ⟨?_, side⟩
              intro other otherMem contains
              rcases List.mem_cons.1 otherMem with rfl | later
              · have starts := contains.1
                omega
              · exact free other later contains
          by_cases gap : anchor > cursor
          · rw [if_pos gap]
            constructor
            · intro stretch mem
              rcases List.mem_append.1 mem with mem | mem
              · exact gapParts (anchor - 1) (by omega) (by omega) (by omega) stretch mem
              · rcases List.mem_cons.1 mem with rfl | mem
                · exact ⟨lower, le_rfl, reached, Or.inl rfl⟩
                · exact tail stretch mem
            · intro boundary from_ until_
              rw [covers_append, covers_cons]
              by_cases before : boundary < anchor
              · exact Or.inl ((runStretches_spec (by omega)).2 boundary from_ (by omega))
              · by_cases here : boundary = anchor
                · exact Or.inr (Or.inl ⟨by simp only; omega, by simp only; omega⟩)
                · exact Or.inr (Or.inr (tailCovers boundary (by omega) until_))
          · rw [if_neg gap, List.nil_append]
            constructor
            · intro stretch mem
              rcases List.mem_cons.1 mem with rfl | mem
              · exact ⟨lower, le_rfl, reached, Or.inl rfl⟩
              · exact tail stretch mem
            · intro boundary from_ until_
              rw [covers_cons]
              by_cases here : boundary = anchor
              · exact Or.inl ⟨by simp only; omega, by simp only; omega⟩
              · exact Or.inr (tailCovers boundary (by omega) until_)
        · rw [if_neg reached]
          exact ⟨gapParts spanEnd inside (by omega) le_rfl, (runStretches_spec inside).2⟩
      · rw [if_neg inside]
        refine ⟨by simp, ?_⟩
        intro boundary from_ until_
        omega

variable {problem : ResidencyProblem} {seed : Nat → List Interval} {aliasId : Nat}

/-- The candidate of a boundary of the seed. -/
def seedCandidate (problem : ResidencyProblem) (seed : Nat → List Interval)
    (aliasId boundary : Nat) : Option ResidencyCut :=
  candidateCut problem (buildCutGeometry problem seed) (seed aliasId) aliasId
    ((boundary : Int) - 1)

theorem seedCandidate_eq_some (sorted : SortedLists problem)
    (ascending : Ascending (seed aliasId)) (eligible : problem.mayCut aliasId = true)
    {boundary : Nat} {cut : ResidencyCut} :
    seedCandidate problem seed aliasId boundary = some cut ↔
      Offers problem (buildCutGeometry problem seed) (seed aliasId) aliasId boundary cut :=
  candidateCut_eq_some sorted ascending (runs_ascending sorted ascending eligible)

/-- One run holds all of a stretch that no anchor breaks. -/
theorem run_holds_stretch (sorted : SortedLists problem)
    (ascending : Ascending (seed aliasId)) (eligible : problem.mayCut aliasId = true)
    {span stretch : Interval} (mem : span ∈ seed aliasId) (lower : span.start ≤ stretch.start)
    (upper : stretch.finish ≤ span.finish)
    (free : ∀ boundary, stretch.Contains boundary → ¬ Anchored problem aliasId boundary)
    {run : Interval} (runMem : run ∈ (buildCutGeometry problem seed).runs aliasId)
    {first second : Nat} (inFirst : stretch.Contains first)
    (inSecond : stretch.Contains second) (holds : run.Contains first) :
    run.Contains second := by
  have runsAscending := runs_ascending sorted ascending eligible
  have joined : ∀ boundary, stretch.Contains boundary → stretch.Contains (boundary + 1) →
      (run.Contains boundary ↔ run.Contains (boundary + 1)) := by
    intro boundary here next
    have seedJoined : Holds (seed aliasId) boundary (boundary + 1) := by
      obtain ⟨starts, _⟩ := here
      obtain ⟨_, ends⟩ := next
      exact ⟨span, mem, ⟨by omega, by omega⟩, by omega, by omega⟩
    obtain ⟨other, otherMem, left, right⟩ := (runs_holds sorted eligible (Nat.le_succ _)
      le_rfl).2 ⟨seedJoined, free _ here, free _ next⟩
    constructor
    · intro held
      rwa [runsAscending.unique runMem otherMem held left]
    · intro held
      rwa [runsAscending.unique runMem otherMem held right]
  obtain ⟨firstStart, firstEnd⟩ := inFirst
  obtain ⟨secondStart, secondEnd⟩ := inSecond
  rcases Nat.le_total first second with upward | downward
  · induction second, upward using Nat.le_induction with
    | base => exact holds
    | succ second above ih =>
        exact (joined second ⟨by omega, by omega⟩ ⟨secondStart, secondEnd⟩).1
          (ih (by omega) (by omega))
  · obtain ⟨distance, rfl⟩ := Nat.exists_eq_add_of_le downward
    induction distance with
    | zero => exact holds
    | succ distance ih =>
        have step := (joined (second + distance) ⟨by omega, by omega⟩
          ⟨by omega, by omega⟩).2 (by rwa [Nat.add_assoc])
        apply ih
        all_goals first
          | exact step
          | omega

/-- A stretch of the seed offers one cut. -/
theorem stretch_same (sorted : SortedLists problem) (ascending : Ascending (seed aliasId))
    (eligible : problem.mayCut aliasId = true) {span stretch : Interval}
    (mem : span ∈ seed aliasId) (lower : span.start ≤ stretch.start)
    (upper : stretch.finish ≤ span.finish)
    (unbroken : Unbroken ((prefixRequired problem (buildCutGeometry problem seed)
      (seed aliasId) aliasId).getD 0) (anchorsFrom problem aliasId span.start) stretch)
    {first second : Nat} (inFirst : stretch.Contains first)
    (inSecond : stretch.Contains second) {cut : ResidencyCut}
    (offers : Offers problem (buildCutGeometry problem seed) (seed aliasId) aliasId first cut) :
    Offers problem (buildCutGeometry problem seed) (seed aliasId) aliasId second cut := by
  rcases unbroken with single | ⟨clear, side⟩
  · obtain rfl : first = second := by
      obtain ⟨firstStart, firstEnd⟩ := inFirst
      obtain ⟨secondStart, secondEnd⟩ := inSecond
      omega
    exact offers
  · have free : ∀ boundary, stretch.Contains boundary →
        ¬ Anchored problem aliasId boundary := by
      intro boundary inside anchored
      have starts := inside.1
      exact clear boundary ((mem_anchorsFrom sorted).2 ⟨by omega, anchored⟩) inside
    obtain ⟨firstStart, firstEnd⟩ := inFirst
    obtain ⟨secondStart, secondEnd⟩ := inSecond
    refine ⟨⟨span, mem, by omega, by omega⟩, ?_⟩
    have sameSide : ∀ required, prefixRequired problem (buildCutGeometry problem seed)
        (seed aliasId) aliasId = some required → (first < required ↔ second < required) := by
      intro required spilled
      rw [spilled, Option.getD_some] at side
      omega
    cases offers.2 with
    | spilledPrefix required spilled early =>
        exact LegalCut.spilledPrefix required spilled ((sameSide required spilled).1 early)
    | run run late freeFirst runMem contains inner =>
        refine LegalCut.run run ?_ (free second ⟨secondStart, secondEnd⟩) runMem
          (run_holds_stretch sorted ascending eligible mem lower upper free runMem
            ⟨firstStart, firstEnd⟩ ⟨secondStart, secondEnd⟩ contains) inner
        intro required spilled
        have past := late required spilled
        have same := sameSide required spilled
        omega
    | split anchor late anchorMem here joined unread =>
        exact absurd ⟨anchor, anchorMem, here⟩ (free _ ⟨firstStart, firstEnd⟩)

theorem aliasStretches_spec (sorted : SortedLists problem)
    (ascending : Ascending (seed aliasId)) (eligible : problem.mayCut aliasId = true) :
    (∀ stretch ∈ aliasStretches problem (buildCutGeometry problem seed) seed aliasId,
      stretch.start ≤ stretch.finish ∧ ∀ boundary, stretch.Contains boundary →
        seedCandidate problem seed aliasId boundary =
          seedCandidate problem seed aliasId stretch.start) ∧
      ∀ boundary, Covers (seed aliasId) boundary →
        Covers (aliasStretches problem (buildCutGeometry problem seed) seed aliasId)
          boundary := by
  unfold aliasStretches
  have parts := fun span : Interval => @spanStretches_spec
    ((prefixRequired problem (buildCutGeometry problem seed) (seed aliasId) aliasId).getD 0)
    span.finish (anchorsFrom problem aliasId span.start) span.start
    (anchorsFrom_ascending sorted) (fun _ mem => ((mem_anchorsFrom sorted).1 mem).1)
  constructor
  · intro stretch mem
    obtain ⟨span, spanMem, here⟩ := List.mem_flatMap.1 mem
    obtain ⟨lower, valid, upper, unbroken⟩ := (parts span).1 stretch here
    refine ⟨valid, ?_⟩
    intro boundary inside
    ext cut
    rw [seedCandidate_eq_some sorted ascending eligible,
      seedCandidate_eq_some sorted ascending eligible]
    constructor
    · exact stretch_same sorted ascending eligible spanMem lower upper unbroken inside
        ⟨le_rfl, valid⟩
    · exact stretch_same sorted ascending eligible spanMem lower upper unbroken
        ⟨le_rfl, valid⟩ inside
  · rintro boundary ⟨span, spanMem, lower, upper⟩
    obtain ⟨stretch, mem, inside⟩ := (parts span).2 boundary lower upper
    exact ⟨stretch, List.mem_flatMap.2 ⟨span, spanMem, mem⟩, inside⟩

/-- The cuts indexed for an alias are candidates of the seed, and each of its
candidates is indexed. -/
theorem indexAliasCuts_spec (sorted : SortedLists problem)
    (ascending : Ascending (seed aliasId)) (eligible : problem.mayCut aliasId = true) :
    (∀ item ∈ indexAliasCuts problem (buildCutGeometry problem seed) seed aliasId,
      item = indexedCut problem item.cut item.firstBoundary item.lastBoundary ∧
        item.firstBoundary ≤ item.lastBoundary ∧
        ∀ boundary, item.firstBoundary ≤ boundary → boundary ≤ item.lastBoundary →
          Offers problem (buildCutGeometry problem seed) (seed aliasId) aliasId boundary
            item.cut) ∧
      ∀ boundary cut,
        Offers problem (buildCutGeometry problem seed) (seed aliasId) aliasId boundary cut →
          ∃ item ∈ indexAliasCuts problem (buildCutGeometry problem seed) seed aliasId,
            item.firstBoundary ≤ boundary ∧ boundary ≤ item.lastBoundary ∧
              item.cut = cut := by
  obtain ⟨same, covers⟩ := aliasStretches_spec sorted ascending eligible
  have gathered := (@Gathers.start problem (seedCandidate problem seed aliasId)).fold
    (aliasStretches problem (buildCutGeometry problem seed) seed aliasId)
    (fun stretch mem => (same stretch mem).1) (fun stretch mem => (same stretch mem).2)
  simp only [false_or] at gathered
  unfold indexAliasCuts
  simp only
  change Gathers problem _ _ ((aliasStretches problem (buildCutGeometry problem seed) seed
    aliasId).foldl (fun gathering stretch =>
      offerCutStretch problem gathering stretch.start stretch.finish
        (candidateCut problem (buildCutGeometry problem seed) (seed aliasId) aliasId
          ((stretch.start : Int) - 1))) ⟨[], none⟩) at gathered
  generalize (aliasStretches problem (buildCutGeometry problem seed) seed aliasId).foldl
    (fun gathering stretch =>
      offerCutStretch problem gathering stretch.start stretch.finish
        (candidateCut problem (buildCutGeometry problem seed) (seed aliasId) aliasId
          ((stretch.start : Int) - 1))) ⟨[], none⟩ = gathering
    at gathered ⊢
  have closed : Gathers problem (seedCandidate problem seed aliasId)
      (Covers (aliasStretches problem (buildCutGeometry problem seed) seed aliasId))
      ⟨(offerCutStretch problem gathering 0 0 none).cuts, none⟩ := by
    unfold offerCutStretch
    cases open_ : gathering.stretch with
    | none =>
        rw [show (⟨gathering.cuts, none⟩ : Gathering) = gathering from by rw [← open_]]
        exact gathered
    | some opened => exact gathered.close open_
  constructor
  · intro item mem
    obtain ⟨form, ordered, held⟩ := closed.items item mem
    exact ⟨form, ordered, fun boundary lower upper =>
      (seedCandidate_eq_some sorted ascending eligible).1 (held boundary lower upper).2⟩
  · intro boundary cut offers
    rcases closed.found boundary cut (covers boundary offers.1)
      ((seedCandidate_eq_some sorted ascending eligible).2 offers) with known | ⟨_, mem, _⟩
    · exact known
    · cases mem

end Stretches

end ShadowSpill.Planner.Residency.IndexedCuts
