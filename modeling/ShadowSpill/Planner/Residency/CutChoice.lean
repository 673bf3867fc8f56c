import ShadowSpill.Planner.Residency.IndexedCuts

/-!
# The cut that is chosen

The index lists the cuts alias by alias; the nodes on the way from a boundary to
the root list exactly the cuts recorded for it.  Selection passes only cuts that
have gone inactive and keeps the first in the order of the scores.
-/

namespace ShadowSpill.Planner.Residency.CutChoice

open Library Library.Intervals Problem Spans Cuts CutIndexing CutLegality IndexedCuts

/-- The index the reduction builds from its seed. -/
abbrev seedIndex (problem : ResidencyProblem) (seed : Nat → List Interval) : CutIndex :=
  buildCutIndex problem (buildCutGeometry problem seed) seed

/-! ## The cuts of the index -/

section Cuts

variable {problem : ResidencyProblem} {geometry : Geometry} {seed : Nat → List Interval}

theorem cutsBelow_succ (aliasId : Nat) :
    cutsBelow problem geometry seed (aliasId + 1) =
      cutsBelow problem geometry seed aliasId ++
        if ¬ problem.mayCut aliasId then []
        else indexAliasCuts problem geometry seed aliasId := by
  simp [cutsBelow, List.range_succ, List.flatMap_append]

theorem cutsBelow_length_mono {first second : Nat} (ordered : first ≤ second) :
    (cutsBelow problem geometry seed first).length ≤
      (cutsBelow problem geometry seed second).length := by
  induction second, ordered using Nat.le_induction with
  | base => exact le_rfl
  | succ second _ ih =>
      rw [cutsBelow_succ, List.length_append]
      omega

/-- An identifier belongs to the alias whose cuts it counts. -/
theorem cutsBelow_getElem? (count cutId : Nat) (item : IndexedCut) :
    (cutsBelow problem geometry seed count)[cutId]? = some item ↔
      ∃ aliasId < count, problem.mayCut aliasId = true ∧
        (cutsBelow problem geometry seed aliasId).length ≤ cutId ∧
        (indexAliasCuts problem geometry seed aliasId)[cutId -
          (cutsBelow problem geometry seed aliasId).length]? = some item := by
  induction count with
  | zero => simp [cutsBelow]
  | succ count ih =>
      rw [cutsBelow_succ]
      by_cases early : cutId < (cutsBelow problem geometry seed count).length
      · rw [List.getElem?_append_left early, ih]
        constructor
        · rintro ⟨aliasId, bound, rest⟩
          exact ⟨aliasId, by omega, rest⟩
        · rintro ⟨aliasId, bound, eligible, offset, found⟩
          refine ⟨aliasId, ?_, eligible, offset, found⟩
          by_contra last
          obtain rfl : aliasId = count := by omega
          omega
      · rw [List.getElem?_append_right (by omega)]
        constructor
        · intro found
          by_cases eligible : problem.mayCut count = true
          · rw [if_neg (not_not.2 eligible)] at found
            exact ⟨count, by omega, eligible, by omega, found⟩
          · rw [if_pos eligible] at found
            simp at found
        · rintro ⟨aliasId, bound, eligible, offset, found⟩
          by_cases last : aliasId = count
          · subst last
            rwa [if_neg (not_not.2 eligible)]
          · exfalso
            apply early
            have known := ih.2 ⟨aliasId, by omega, eligible, offset, found⟩
            exact (List.getElem?_eq_some_iff.1 known).1

end Cuts

section Index

variable {problem : ResidencyProblem} {seed : Nat → List Interval}

/-- What the index says of one of its cuts. -/
structure Indexed (problem : ResidencyProblem) (seed : Nat → List Interval) (cutId : Nat)
    (item : IndexedCut) : Prop where
  aliasBound : item.cut.aliasId < problem.aliasCount
  eligible : problem.mayCut item.cut.aliasId = true
  form : item = indexedCut problem item.cut item.firstBoundary item.lastBoundary
  ordered : item.firstBoundary ≤ item.lastBoundary
  offers : ∀ boundary, item.firstBoundary ≤ boundary → boundary ≤ item.lastBoundary →
    Offers problem (buildCutGeometry problem seed) (seed item.cut.aliasId)
      item.cut.aliasId boundary item.cut
  owner : ∀ aliasId, (seedIndex problem seed).aliasOffsets aliasId ≤ cutId ∧
    cutId < (seedIndex problem seed).aliasOffsets (aliasId + 1) ↔
      aliasId = item.cut.aliasId

theorem LegalCut.aliasId {geometry : Geometry} {spans : List Interval}
    {aliasId boundary : Nat} {cut : ResidencyCut}
    (legal : LegalCut problem geometry spans aliasId boundary cut) :
    cut.aliasId = aliasId := by
  cases legal <;> rfl

theorem indexed (sorted : SortedLists problem)
    (ascending : ∀ aliasId, Ascending (seed aliasId)) {cutId : Nat} {item : IndexedCut}
    (found : (seedIndex problem seed).cut cutId = some item) :
    Indexed problem seed cutId item := by
  obtain ⟨aliasId, bound, eligible, offset, here⟩ :=
    (cutsBelow_getElem? problem.aliasCount cutId item).1 found
  obtain ⟨items, _⟩ := indexAliasCuts_spec sorted (ascending aliasId) eligible
  obtain ⟨form, ordered, offers⟩ := items item (List.mem_of_getElem? here)
  have own := LegalCut.aliasId (offers item.firstBoundary le_rfl ordered).2
  subst own
  refine ⟨bound, eligible, form, ordered, offers, ?_⟩
  have inside := (List.getElem?_eq_some_iff.1 here).1
  intro other
  change (cutsBelow problem _ seed other).length ≤ cutId ∧
    cutId < (cutsBelow problem _ seed (other + 1)).length ↔ _
  constructor
  · rintro ⟨lower, upper⟩
    by_contra different
    rcases Nat.lt_or_gt_of_ne different with before | after
    · have mono := @cutsBelow_length_mono problem (buildCutGeometry problem seed) seed
        (other + 1) item.cut.aliasId (by omega)
      omega
    · have mono := @cutsBelow_length_mono problem (buildCutGeometry problem seed) seed
        (item.cut.aliasId + 1) other (by omega)
      rw [cutsBelow_succ, if_neg (not_not.2 eligible), List.length_append] at mono
      omega
  · rintro rfl
    rw [cutsBelow_succ, if_neg (not_not.2 eligible), List.length_append]
    exact ⟨offset, by omega⟩

/-- Every cut the seed offers is in the index. -/
theorem exists_indexed (sorted : SortedLists problem)
    (ascending : ∀ aliasId, Ascending (seed aliasId)) {aliasId boundary : Nat}
    {cut : ResidencyCut} (bound : aliasId < problem.aliasCount)
    (eligible : problem.mayCut aliasId = true)
    (offers : Offers problem (buildCutGeometry problem seed) (seed aliasId) aliasId boundary
      cut) :
    ∃ cutId item, (seedIndex problem seed).cut cutId = some item ∧
      item.firstBoundary ≤ boundary ∧ boundary ≤ item.lastBoundary ∧ item.cut = cut := by
  obtain ⟨_, found⟩ := indexAliasCuts_spec sorted (ascending aliasId) eligible
  obtain ⟨item, mem, lower, upper, same⟩ := found boundary cut offers
  obtain ⟨position, here⟩ := List.getElem?_of_mem mem
  refine ⟨(cutsBelow problem (buildCutGeometry problem seed) seed aliasId).length + position,
    item, ?_, lower, upper, same⟩
  apply (cutsBelow_getElem? problem.aliasCount _ item).2
  exact ⟨aliasId, bound, eligible, Nat.le_add_right _ _, by rwa [Nat.add_sub_cancel_left]⟩

/-- The cuts recorded for a device's boundary. -/
def Relieves (problem : ResidencyProblem) (seed : Nat → List Interval)
    (device boundary cutId : Nat) : Prop :=
  ∃ item, (seedIndex problem seed).cut cutId = some item ∧
    problem.aliasDevice item.cut.aliasId = device ∧ item.firstBoundary ≤ boundary ∧
      boundary ≤ item.lastBoundary

theorem mem_refs {mode : Bool} {device node cutId : Nat} :
    cutId ∈ (seedIndex problem seed).refs mode device node ↔
      ∃ item, (seedIndex problem seed).cut cutId = some item ∧
        problem.aliasDevice item.cut.aliasId = device ∧
        node ∈ LeafTree.coverNodes ((seedIndex problem seed).leafBase + 1)
          ((seedIndex problem seed).leafBase + item.firstBoundary)
          ((seedIndex problem seed).leafBase + item.lastBoundary + 1) := by
  simp only [seedIndex, buildCutIndex, CutIndex.cut, List.mem_filter, List.mem_mergeSort,
    List.mem_range, Option.any_eq_true, Bool.and_eq_true, decide_eq_true_eq]
  constructor
  · exact And.right
  · rintro ⟨item, found, rest⟩
    exact ⟨(List.getElem?_eq_some_iff.1 found).1, item, found, rest⟩

/-- The way from a boundary to the root meets exactly the cuts recorded for it. -/
theorem exists_mem_refs (sorted : SortedLists problem)
    (ascending : ∀ aliasId, Ascending (seed aliasId))
    (bounded : ∀ aliasId, ∀ span ∈ seed aliasId, span.finish < problem.boundaryCount)
    {mode : Bool} {device boundary cutId : Nat} (inRange : boundary < problem.boundaryCount) :
    (∃ node ∈ LeafTree.pathToRoot ((seedIndex problem seed).leafBase + boundary)
        ((seedIndex problem seed).leafBase + boundary),
      cutId ∈ (seedIndex problem seed).refs mode device node) ↔
      Relieves problem seed device boundary cutId := by
  obtain ⟨top, base, large, small⟩ := LeafTree.leafBase_spec problem.boundaryCount
    problem.boundaryCount 0 (by rw [Nat.zero_add]; exact le_of_lt Nat.lt_two_pow_self)
  have leafBase : (seedIndex problem seed).leafBase = 2 ^ top := base
  have double : 2 ^ (top + 1) = 2 * 2 ^ top := by rw [Nat.pow_succ]; ring
  have deep : top < 2 ^ top := Nat.lt_two_pow_self
  simp only [mem_refs, Relieves]
  rw [leafBase]
  constructor
  · rintro ⟨node, onPath, item, found, here, covered⟩
    have facts := indexed sorted ascending found
    obtain ⟨span, mem, _, upper⟩ := (facts.offers item.lastBoundary facts.ordered le_rfl).1
    have spanBound := bounded _ span mem
    have common := (LeafTree.exists_common_iff top (by omega) (by omega) (by omega) (by omega)
      (by omega) (by omega)).1 ⟨node, covered, onPath⟩
    exact ⟨item, found, here, by omega, by omega⟩
  · rintro ⟨item, found, here, lower, upper⟩
    have facts := indexed sorted ascending found
    obtain ⟨span, mem, _, spanUpper⟩ := (facts.offers item.lastBoundary facts.ordered le_rfl).1
    have spanBound := bounded _ span mem
    obtain ⟨node, covered, onPath⟩ := (@LeafTree.exists_common_iff top
      (2 ^ top + item.firstBoundary) (2 ^ top + item.lastBoundary + 1) (2 ^ top + boundary)
      (2 ^ top + 1) (2 ^ top + boundary) (by omega) (by omega) (by omega) (by omega)
      (by omega) (by omega)).2 ⟨by omega, by omega⟩
    exact ⟨node, onPath, item, found, here, covered⟩

end Index

/-! ## The order of the scores -/

section Order

/-- The order of the values other than the exposure. -/
def valueOrder : CutScore → CutScore → Ordering :=
  compareLex (compareOn CutScore.writeback) <|
  compareLex (fun left right => compareOn CutScore.slackHigh right left) <|
  compareLex (fun left right => compareOn CutScore.slackLow right left) <|
  compareLex (compareOn CutScore.negatedSize) <|
  compareLex (compareOn CutScore.aliasId) (compareOn CutScore.start)

/-- The order of two scores in a mode. -/
def scoreOrder (minimizeTransfer : Bool) : CutScore → CutScore → Ordering :=
  compareLex (compareOn fun score => if minimizeTransfer then 0 else score.exposedNs)
    valueOrder

instance : Std.TransCmp valueOrder :=
  inferInstanceAs (Std.TransCmp (compareLex _ _))

instance (minimizeTransfer : Bool) : Std.TransCmp (scoreOrder minimizeTransfer) :=
  inferInstanceAs (Std.TransCmp (compareLex _ _))

theorem compareThen_eq {α : Type} [LinearOrder α] (left right : α) (rest : Ordering) :
    compareThen left right rest = (compare left right).then rest := by
  unfold compareThen
  rcases lt_trichotomy left right with less | rfl | more
  · rw [compare_lt_iff_lt.2 less, if_pos (ne_of_lt less), if_pos less]
    rfl
  · simp
  · rw [compare_gt_iff_gt.2 more, if_pos (ne_of_gt more), if_neg (lt_asymm more)]
    rfl

/-- The comparison of two scores is a lexicographic one. -/
theorem compareScore_eq (left right : CutScore) (minimizeTransfer : Bool) :
    compareScore left right minimizeTransfer = scoreOrder minimizeTransfer left right := by
  unfold compareScore scoreOrder valueOrder
  simp only [compareThen_eq, compareLex, compareOn, Ordering.then_eq]
  cases minimizeTransfer <;> simp

/-- The order selection follows: by score, then by identifier. -/
def choiceOrder (minimizeTransfer : Bool) : Nat × CutScore → Nat × CutScore → Ordering :=
  compareLex (fun left right => scoreOrder minimizeTransfer left.2 right.2)
    (compareOn Prod.fst)

instance (minimizeTransfer : Bool) : Std.TransCmp
    (fun left right : Nat × CutScore => scoreOrder minimizeTransfer left.2 right.2) where
  eq_swap := by
    intro first second
    exact @Std.OrientedCmp.eq_swap _ (scoreOrder minimizeTransfer) _ first.2 second.2
  isLE_trans := by
    intro first second third
    exact @Std.TransCmp.isLE_trans _ (scoreOrder minimizeTransfer) _ first.2 second.2 third.2

instance (minimizeTransfer : Bool) : Std.TransCmp (choiceOrder minimizeTransfer) :=
  inferInstanceAs (Std.TransCmp (compareLex _ _))

@[simp]
theorem choiceOrder_self (minimizeTransfer : Bool) (choice : Nat × CutScore) :
    choiceOrder minimizeTransfer choice choice = .eq :=
  Std.ReflCmp.compare_self

end Order

/-! ## Selection -/

section Selection

variable {problem : ResidencyProblem} {index : CutIndex} {boundary : Nat}
  {minimizeTransfer : Bool} {active : Nat → Bool}

/-- The score of a cut of the index at a boundary. -/
def cutScoreAt (problem : ResidencyProblem) (boundary : Nat) (minimizeTransfer : Bool)
    (item : IndexedCut) : CutScore :=
  scoreAt problem item.score item.timing boundary minimizeTransfer

/-- The best of the cuts considered: none when there is none, else one of them that
no other one goes before. -/
inductive Best (problem : ResidencyProblem) (index : CutIndex) (boundary : Nat)
    (minimizeTransfer : Bool) (considered : Nat → Prop) : Option (Nat × CutScore) → Prop
  | nothing (empty : ∀ cutId, ¬ considered cutId) :
      Best problem index boundary minimizeTransfer considered none
  | chosen (cutId : Nat) (item : IndexedCut) (isConsidered : considered cutId)
      (found : index.cut cutId = some item)
      (first : ∀ other otherItem, considered other → index.cut other = some otherItem →
        (choiceOrder minimizeTransfer
          (cutId, cutScoreAt problem boundary minimizeTransfer item)
          (other, cutScoreAt problem boundary minimizeTransfer otherItem)).isLE = true) :
      Best problem index boundary minimizeTransfer considered
        (some (cutId, cutScoreAt problem boundary minimizeTransfer item))

theorem Best.congr {considered other : Nat → Prop} {best : Option (Nat × CutScore)}
    (same : ∀ cutId, considered cutId ↔ other cutId)
    (isBest : Best problem index boundary minimizeTransfer considered best) :
    Best problem index boundary minimizeTransfer other best := by
  have equal : considered = other := funext fun cutId => propext (same cutId)
  rwa [← equal]

/-- Considering one more active cut keeps the best. -/
theorem Best.consider (active : Nat → Bool) {considered : Nat → Prop}
    {best : Option (Nat × CutScore)}
    (isBest : Best problem index boundary minimizeTransfer considered best) {cutId : Nat}
    {item : IndexedCut} (found : index.cut cutId = some item) :
    Best problem index boundary minimizeTransfer
      (fun other => considered other ∨ other = cutId ∧ active cutId = true)
      (considerCut problem index boundary minimizeTransfer active best cutId) := by
  unfold considerCut
  rw [found]
  simp only
  by_cases isActive : active cutId = true
  · rw [if_neg (not_not.2 isActive)]
    cases isBest with
    | nothing empty =>
        refine Best.chosen cutId item (Or.inr ⟨rfl, isActive⟩) found ?_
        rintro other otherItem (known | ⟨rfl, _⟩) otherFound
        · exact absurd known (empty other)
        · obtain rfl := Option.some.inj (found.symm.trans otherFound)
          rw [choiceOrder_self]
          rfl
    | chosen bestId bestItem bestConsidered bestFound first =>
        simp only
        have order : choiceOrder minimizeTransfer
            (cutId, cutScoreAt problem boundary minimizeTransfer item)
            (bestId, cutScoreAt problem boundary minimizeTransfer bestItem) =
            (compareScore (cutScoreAt problem boundary minimizeTransfer item)
              (cutScoreAt problem boundary minimizeTransfer bestItem) minimizeTransfer).then
            (compare cutId bestId) := by
          rw [compareScore_eq]
          rfl
        have replaces : choiceOrder minimizeTransfer
            (cutId, cutScoreAt problem boundary minimizeTransfer item)
            (bestId, cutScoreAt problem boundary minimizeTransfer bestItem) = .lt →
            Best problem index boundary minimizeTransfer
              (fun other => considered other ∨ other = cutId ∧ active cutId = true)
              (some (cutId, cutScoreAt problem boundary minimizeTransfer item)) := by
          intro less
          refine Best.chosen cutId item (Or.inr ⟨rfl, isActive⟩) found ?_
          rintro other otherItem (known | ⟨rfl, _⟩) otherFound
          · exact Std.TransCmp.isLE_trans (by rw [less]; rfl)
              (first other otherItem known otherFound)
          · obtain rfl := Option.some.inj (found.symm.trans otherFound)
            rw [choiceOrder_self]
            rfl
        have stays : choiceOrder minimizeTransfer
            (cutId, cutScoreAt problem boundary minimizeTransfer item)
            (bestId, cutScoreAt problem boundary minimizeTransfer bestItem) ≠ .lt →
            Best problem index boundary minimizeTransfer
              (fun other => considered other ∨ other = cutId ∧ active cutId = true)
              (some (bestId, cutScoreAt problem boundary minimizeTransfer bestItem)) := by
          intro notLess
          refine Best.chosen bestId bestItem (Or.inl bestConsidered) bestFound ?_
          rintro other otherItem (known | ⟨rfl, _⟩) otherFound
          · exact first other otherItem known otherFound
          · obtain rfl := Option.some.inj (found.symm.trans otherFound)
            by_contra greater
            exact notLess (Std.OrientedCmp.lt_of_not_isLE greater)
        have scored : scoreAt problem item.score item.timing boundary minimizeTransfer =
            cutScoreAt problem boundary minimizeTransfer item := rfl
        rw [scored]
        cases compared : compareScore (cutScoreAt problem boundary minimizeTransfer item)
            (cutScoreAt problem boundary minimizeTransfer bestItem) minimizeTransfer with
        | lt =>
            apply replaces
            rw [order, compared]
            rfl
        | gt =>
            apply stays
            rw [order, compared]
            simp
        | eq =>
            rw [compared] at order
            simp only
            split_ifs with less
            · apply replaces
              rw [order]
              exact compare_lt_iff_lt.2 less
            · apply stays
              rw [order]
              intro smaller
              exact less (compare_lt_iff_lt.1 smaller)
  · rw [if_pos isActive]
    apply isBest.congr
    intro other
    simp [isActive]

theorem Best.fold (active : Nat → Bool) {considered : Nat → Prop}
    {best : Option (Nat × CutScore)}
    (isBest : Best problem index boundary minimizeTransfer considered best) (refs : List Nat)
    (known : ∀ cutId ∈ refs, ∃ item, index.cut cutId = some item) :
    Best problem index boundary minimizeTransfer
      (fun other => considered other ∨ other ∈ refs ∧ active other = true)
      (refs.foldl (considerCut problem index boundary minimizeTransfer active) best) := by
  induction refs generalizing considered best with
  | nil => simpa using isBest
  | cons cutId rest ih =>
      obtain ⟨item, found⟩ := known cutId (by simp)
      have folded := ih (isBest.consider active found)
        (fun other mem => known other (by simp [mem]))
      rw [List.foldl_cons]
      apply folded.congr
      intro other
      simp only [List.mem_cons, or_assoc]
      constructor
      · rintro (left | ⟨rfl, right⟩ | ⟨mem, right⟩)
        · exact Or.inl left
        · exact Or.inr ⟨Or.inl rfl, right⟩
        · exact Or.inr ⟨Or.inr mem, right⟩
      · rintro (left | ⟨rfl | mem, right⟩)
        · exact Or.inl left
        · exact Or.inr (Or.inl ⟨rfl, right⟩)
        · exact Or.inr (Or.inr ⟨mem, right⟩)

/-- Every cut a cursor has passed is inactive. -/
def PassedInactive (index : CutIndex) (minimizeTransfer : Bool) (active : Nat → Bool)
    (cursors : Nat → Nat → Nat) : Prop :=
  ∀ device node cutId, cutId ∈ (index.refs minimizeTransfer device node).take
    (cursors device node) → active cutId = false

theorem scanNode_spec {considered : Nat → Prop}
    {state : (Nat → Nat → Nat) × Option (Nat × CutScore)} {device node : Nat}
    (passed : PassedInactive index minimizeTransfer active state.1)
    (isBest : Best problem index boundary minimizeTransfer considered state.2)
    (known : ∀ cutId ∈ index.refs minimizeTransfer device node,
      ∃ item, index.cut cutId = some item) :
    PassedInactive index minimizeTransfer active
        (scanNode problem index device boundary minimizeTransfer active state node).1 ∧
      Best problem index boundary minimizeTransfer
        (fun other => considered other ∨
          other ∈ index.refs minimizeTransfer device node ∧ active other = true)
        (scanNode problem index device boundary minimizeTransfer active state node).2 := by
  obtain ⟨cursors, best⟩ := state
  unfold scanNode
  simp only
  generalize refsEq : index.refs minimizeTransfer device node = refs at known ⊢
  generalize skippedEq : ((refs.drop (cursors device node)).takeWhile fun cutId =>
    ¬ active cutId).length = skipped
  have inactive : ∀ cutId ∈ refs.take (cursors device node + skipped),
      active cutId = false := by
    intro cutId mem
    rw [List.take_add] at mem
    rcases List.mem_append.1 mem with mem | mem
    · exact passed device node cutId (by rwa [refsEq])
    · rw [← skippedEq, ← List.prefix_iff_eq_take.1 (List.takeWhile_prefix _)] at mem
      simpa using List.mem_takeWhile_imp mem
  constructor
  · intro otherDevice otherNode cutId mem
    by_cases sameDevice : otherDevice = device
    · subst sameDevice
      rw [Function.update_self] at mem
      by_cases sameNode : otherNode = node
      · subst sameNode
        rw [Function.update_self, refsEq] at mem
        exact inactive cutId mem
      · rw [Function.update_of_ne sameNode] at mem
        exact passed otherDevice otherNode cutId mem
    · rw [Function.update_of_ne sameDevice] at mem
      exact passed otherDevice otherNode cutId mem
  · apply (isBest.fold active (refs.drop (cursors device node + skipped))
      (fun cutId mem => known cutId (List.mem_of_mem_drop mem))).congr
    intro other
    apply or_congr_right
    constructor
    · rintro ⟨mem, isActive⟩
      exact ⟨List.mem_of_mem_drop mem, isActive⟩
    · rintro ⟨mem, isActive⟩
      refine ⟨?_, isActive⟩
      rw [← List.take_append_drop (cursors device node + skipped) refs] at mem
      rcases List.mem_append.1 mem with mem | mem
      · rw [inactive other mem] at isActive
        cases isActive
      · exact mem

theorem scanPath_spec {considered : Nat → Prop} (path : List Nat)
    {state : (Nat → Nat → Nat) × Option (Nat × CutScore)} {device : Nat}
    (passed : PassedInactive index minimizeTransfer active state.1)
    (isBest : Best problem index boundary minimizeTransfer considered state.2)
    (known : ∀ node, ∀ cutId ∈ index.refs minimizeTransfer device node,
      ∃ item, index.cut cutId = some item) :
    PassedInactive index minimizeTransfer active
        (path.foldl (scanNode problem index device boundary minimizeTransfer active) state).1 ∧
      Best problem index boundary minimizeTransfer
        (fun other => considered other ∨
          (∃ node ∈ path, other ∈ index.refs minimizeTransfer device node) ∧
            active other = true)
        (path.foldl (scanNode problem index device boundary minimizeTransfer active)
          state).2 := by
  induction path generalizing considered state with
  | nil => exact ⟨passed, isBest.congr (by simp)⟩
  | cons node rest ih =>
      obtain ⟨nextPassed, nextBest⟩ := @scanNode_spec problem index boundary minimizeTransfer
        active considered state device node passed isBest (known node)
      obtain ⟨lastPassed, lastBest⟩ := ih nextPassed nextBest
      rw [List.foldl_cons]
      refine ⟨lastPassed, lastBest.congr ?_⟩
      intro other
      constructor
      · rintro ((left | right) | ⟨⟨later, mem, here⟩, isActive⟩)
        · exact Or.inl left
        · exact Or.inr ⟨⟨node, List.mem_cons_self, right.1⟩, right.2⟩
        · exact Or.inr ⟨⟨later, List.mem_cons_of_mem _ mem, here⟩, isActive⟩
      · rintro (left | ⟨⟨later, mem, here⟩, isActive⟩)
        · exact Or.inl (Or.inl left)
        · rcases List.mem_cons.1 mem with rfl | mem
          · exact Or.inl (Or.inr ⟨here, isActive⟩)
          · exact Or.inr ⟨⟨later, mem, here⟩, isActive⟩

end Selection

section Chosen

variable {problem : ResidencyProblem} {seed : Nat → List Interval} {active : Nat → Bool}
  {cursors : Nat → Nat → Nat} {minimizeTransfer : Bool} {device boundary : Nat}

/-- What selection returns: cursors that have passed inactive cuts only, and the best
active cut recorded for the boundary, if there is one. -/
theorem selectCut_spec (sorted : SortedLists problem)
    (ascending : ∀ aliasId, Ascending (seed aliasId))
    (bounded : ∀ aliasId, ∀ span ∈ seed aliasId, span.finish < problem.boundaryCount)
    (inRange : boundary < problem.boundaryCount)
    (passed : PassedInactive (seedIndex problem seed) minimizeTransfer active cursors) :
    ∃ best, Best problem (seedIndex problem seed) boundary minimizeTransfer
        (fun cutId => Relieves problem seed device boundary cutId ∧ active cutId = true)
        best ∧
      PassedInactive (seedIndex problem seed) minimizeTransfer active
        (selectCut problem device boundary minimizeTransfer (seedIndex problem seed) active
          cursors).1 ∧
      (selectCut problem device boundary minimizeTransfer (seedIndex problem seed) active
        cursors).2 = best.map Prod.fst := by
  have start : Best problem (seedIndex problem seed) boundary minimizeTransfer
      (fun _ => False) none := Best.nothing (fun _ => id)
  obtain ⟨nextPassed, best⟩ := @scanPath_spec problem (seedIndex problem seed) boundary
    minimizeTransfer active _ (LeafTree.pathToRoot
      ((seedIndex problem seed).leafBase + boundary)
      ((seedIndex problem seed).leafBase + boundary)) (cursors, none) device passed start
    (by
      intro node cutId mem
      obtain ⟨item, found, _⟩ := mem_refs.1 mem
      exact ⟨item, found⟩)
  refine ⟨_, best.congr ?_, nextPassed, rfl⟩
  intro cutId
  rw [exists_mem_refs sorted ascending bounded inRange, false_or]

end Chosen

end ShadowSpill.Planner.Residency.CutChoice
