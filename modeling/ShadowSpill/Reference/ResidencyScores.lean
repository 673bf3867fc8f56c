import ShadowSpill.Planner.Residency.CutChoice
import ShadowSpill.Reference.ResidencyFacts

/-!
# The scores of the reference

The tuple by which the reference ranks a cut holds the numbers of the compiled
score: the anchor nearest to a cut has the latest of the tasks before it and the
earliest of those after it, and the two words of the slack are its exact value.
-/

namespace ShadowSpill.Reference.ResidencyScores

open Library Planner.Residency.Problem Planner.Residency.Cuts Planner.Residency.CutChoice
open Residency ResidencyFacts

/-! ## The tasks next to a cut -/

section Tasks

variable {facts : PlanningFacts} {aliasId : Nat}

/-- The tasks that access an alias at an anchor are the one before it or after it. -/
def NearAccesses (facts : PlanningFacts) (aliasId : Nat) : Prop :=
  ∀ event ∈ facts.accessEvents aliasId, event.1 = event.2 ∨ event.1 = (event.2 : Int) - 1

/-- The last anchor with accesses has the latest task of all. -/
theorem last_latest (near : NearAccesses facts aliasId) (anchors : List Anchor)
    (order : anchors.Pairwise fun first second => first.position < second.position)
    (accesses : ∀ anchor ∈ anchors, DescribesAccesses facts aliasId anchor) :
    match anchors.reverse.findSome? Anchor.latest with
    | some latest =>
        (∃ anchor ∈ anchors, (shifted anchor.position, latest) ∈ facts.accessEvents aliasId) ∧
          ∀ anchor ∈ anchors, ∀ task,
            (shifted anchor.position, task) ∈ facts.accessEvents aliasId → task ≤ latest
    | none => ∀ anchor ∈ anchors, ∀ task,
        (shifted anchor.position, task) ∉ facts.accessEvents aliasId := by
  induction anchors using List.reverseRecOn with
  | nil => simp
  | append_singleton earlier last ih =>
      obtain ⟨earlierOrder, _, apart⟩ := List.pairwise_append.1 order
      have lastAccesses := accesses last (by simp)
      rw [List.reverse_append, List.reverse_singleton, List.singleton_append,
        List.findSome?_cons]
      cases isLatest : last.latest with
      | some latest =>
          have own := lastAccesses.latestMem latest isLatest
          refine ⟨⟨last, by simp, own⟩, ?_⟩
          intro anchor mem task event
          rcases List.mem_append.1 mem with mem | mem
          · have before := apart anchor mem last (by simp)
            have ownNear := near _ own
            have taskNear := near _ event
            simp only [shifted] at ownNear taskNear
            omega
          · obtain rfl := List.mem_singleton.1 mem
            obtain ⟨other, found, bound⟩ := lastAccesses.latestBound task event
            rw [isLatest] at found
            cases found
            exact bound
      | none =>
          have unread : ∀ task,
              (shifted last.position, task) ∉ facts.accessEvents aliasId := by
            intro task event
            obtain ⟨other, found, _⟩ := lastAccesses.latestBound task event
            rw [isLatest] at found
            cases found
          have inner := ih earlierOrder (fun anchor mem => accesses anchor (by simp [mem]))
          simp only
          cases found : earlier.reverse.findSome? Anchor.latest with
          | some latest =>
              rw [found] at inner
              obtain ⟨⟨anchor, mem, event⟩, bound⟩ := inner
              refine ⟨⟨anchor, by simp [mem], event⟩, ?_⟩
              intro other otherMem task otherEvent
              rcases List.mem_append.1 otherMem with otherMem | otherMem
              · exact bound other otherMem task otherEvent
              · obtain rfl := List.mem_singleton.1 otherMem
                exact absurd otherEvent (unread task)
          | none =>
              rw [found] at inner
              intro other otherMem task otherEvent
              rcases List.mem_append.1 otherMem with otherMem | otherMem
              · exact inner other otherMem task otherEvent
              · obtain rfl := List.mem_singleton.1 otherMem
                exact unread task otherEvent

/-- The first anchor with accesses has the earliest task of all. -/
theorem first_earliest (near : NearAccesses facts aliasId) (anchors : List Anchor)
    (order : anchors.Pairwise fun first second => first.position < second.position)
    (accesses : ∀ anchor ∈ anchors, DescribesAccesses facts aliasId anchor) :
    match anchors.findSome? Anchor.earliest with
    | some earliest =>
        (∃ anchor ∈ anchors,
          (shifted anchor.position, earliest) ∈ facts.accessEvents aliasId) ∧
          ∀ anchor ∈ anchors, ∀ task,
            (shifted anchor.position, task) ∈ facts.accessEvents aliasId → earliest ≤ task
    | none => ∀ anchor ∈ anchors, ∀ task,
        (shifted anchor.position, task) ∉ facts.accessEvents aliasId := by
  induction anchors with
  | nil => simp
  | cons first later ih =>
      obtain ⟨apart, laterOrder⟩ := List.pairwise_cons.1 order
      have firstAccesses := accesses first (by simp)
      rw [List.findSome?_cons]
      cases isEarliest : first.earliest with
      | some earliest =>
          have own := firstAccesses.earliestMem earliest isEarliest
          refine ⟨⟨first, by simp, own⟩, ?_⟩
          intro anchor mem task event
          rcases List.mem_cons.1 mem with rfl | mem
          · obtain ⟨other, found, bound⟩ := firstAccesses.earliestBound task event
            rw [isEarliest] at found
            cases found
            exact bound
          · have after := apart anchor mem
            have ownNear := near _ own
            have taskNear := near _ event
            simp only [shifted] at ownNear taskNear
            omega
      | none =>
          have unread : ∀ task,
              (shifted first.position, task) ∉ facts.accessEvents aliasId := by
            intro task event
            obtain ⟨other, found, _⟩ := firstAccesses.earliestBound task event
            rw [isEarliest] at found
            cases found
          have inner := ih laterOrder (fun anchor mem => accesses anchor (by simp [mem]))
          simp only
          cases found : later.findSome? Anchor.earliest with
          | some earliest =>
              rw [found] at inner
              obtain ⟨⟨anchor, mem, event⟩, bound⟩ := inner
              refine ⟨⟨anchor, by simp [mem], event⟩, ?_⟩
              intro other otherMem task otherEvent
              rcases List.mem_cons.1 otherMem with rfl | otherMem
              · exact absurd otherEvent (unread task)
              · exact bound other otherMem task otherEvent
          | none =>
              rw [found] at inner
              intro other otherMem task otherEvent
              rcases List.mem_cons.1 otherMem with rfl | otherMem
              · exact unread task otherEvent
              · exact inner other otherMem task otherEvent

theorem mem_tasksAt {holds : Int → Bool} {task : Nat} :
    task ∈ tasksAt facts aliasId holds ↔
      ∃ position, (position, task) ∈ facts.accessEvents aliasId ∧ holds position = true := by
  simp [tasksAt]

end Tasks

section Neighbours

variable {facts : PlanningFacts} {problem : ResidencyProblem} {deviceId : Nat → String}
  {aliasId : Nat}

theorem Describes.near (describes : Describes facts problem deviceId)
    (bound : aliasId < problem.aliasCount) : NearAccesses facts aliasId :=
  fun event mem => (describes.accessed aliasId bound event mem).1

theorem mem_take_anchors (sorted : SortedLists problem) {boundary : Nat} {anchor : Anchor} :
    anchor ∈ (problem.anchors aliasId).take
        (lowerBound ((problem.anchors aliasId).map Anchor.position) boundary) ↔
      anchor ∈ problem.anchors aliasId ∧ anchor.position < boundary := by
  have ascending := sorted.anchors aliasId
  have positions := @mem_take_lowerBound _ boundary ascending anchor.position
  rw [← List.map_take] at positions
  constructor
  · intro mem
    exact ⟨List.mem_of_mem_take mem, (positions.1 (List.mem_map_of_mem mem)).1⟩
  · rintro ⟨mem, below⟩
    obtain ⟨other, otherMem, same⟩ :=
      List.mem_map.1 (positions.2 ⟨below, List.mem_map_of_mem mem⟩)
    have equal := List.inj_on_of_nodup_map (ascending.imp ne_of_lt)
      (List.mem_of_mem_take otherMem) mem same
    rwa [← equal]

theorem mem_drop_anchors (sorted : SortedLists problem) {boundary : Nat} {anchor : Anchor} :
    anchor ∈ (problem.anchors aliasId).drop
        (lowerBound ((problem.anchors aliasId).map Anchor.position) boundary) ↔
      anchor ∈ problem.anchors aliasId ∧ boundary ≤ anchor.position := by
  have ascending := sorted.anchors aliasId
  have positions := @mem_drop_lowerBound _ boundary ascending anchor.position
  rw [← List.map_drop] at positions
  constructor
  · intro mem
    exact ⟨List.mem_of_mem_drop mem, (positions.1 (List.mem_map_of_mem mem)).1⟩
  · rintro ⟨mem, below⟩
    obtain ⟨other, otherMem, same⟩ :=
      List.mem_map.1 (positions.2 ⟨below, List.mem_map_of_mem mem⟩)
    have equal := List.inj_on_of_nodup_map (ascending.imp ne_of_lt)
      (List.mem_of_mem_drop otherMem) mem same
    rwa [← equal]

/-- The task whose end a cut waits for. -/
theorem Describes.priorEnd (describes : Describes facts problem deviceId)
    (sorted : SortedLists problem) (bound : aliasId < problem.aliasCount) {cut : ResidencyCut}
    (own : cut.aliasId = aliasId) (starts : 0 ≤ cut.start) :
    (if some : (tasksAt facts aliasId (· < cut.start)).Nonempty then
        facts.taskIdealEndNs ((tasksAt facts aliasId (· < cut.start)).max' some)
      else 0) = (cutTiming problem cut).priorUseEndNs := by
  subst own
  have order := List.pairwise_map.1 (sorted.anchors cut.aliasId)
  have found := last_latest (Describes.near describes bound)
    ((problem.anchors cut.aliasId).take (lowerBound
      ((problem.anchors cut.aliasId).map Anchor.position) (cut.start + 1).toNat))
    (order.sublist (List.take_sublist _ _))
    (fun anchor mem => describes.accesses _ bound anchor (List.mem_of_mem_take mem))
  simp only [mem_take_anchors sorted] at found
  -- The tasks of the reference are those of the anchors before the cut.
  have tasks : ∀ task, task ∈ tasksAt facts cut.aliasId (· < cut.start) ↔
      ∃ anchor ∈ problem.anchors cut.aliasId, anchor.position < (cut.start + 1).toNat ∧
        (shifted anchor.position, task) ∈ facts.accessEvents cut.aliasId := by
    intro task
    rw [mem_tasksAt]
    simp only [decide_eq_true_eq]
    constructor
    · rintro ⟨position, event, before⟩
      obtain ⟨_, _, anchor, mem, here⟩ := describes.accessed _ bound _ event
      simp only at here
      refine ⟨anchor, mem, ?_, by rw [here]; exact event⟩
      simp only [shifted] at here
      omega
    · rintro ⟨anchor, mem, below, event⟩
      refine ⟨_, event, ?_⟩
      simp only [shifted]
      omega
  unfold cutTiming
  simp only [starts, if_true]
  cases latest : ((problem.anchors cut.aliasId).take (lowerBound
      ((problem.anchors cut.aliasId).map Anchor.position)
      (cut.start + 1).toNat)).reverse.findSome? Anchor.latest with
  | none =>
      rw [latest] at found
      rw [dif_neg]
      · rfl
      · rintro ⟨task, mem⟩
        obtain ⟨anchor, anchorMem, below, event⟩ := (tasks task).1 mem
        exact found anchor ⟨anchorMem, below⟩ task event
  | some task =>
      rw [latest] at found
      obtain ⟨⟨anchor, ⟨anchorMem, below⟩, event⟩, greatest⟩ := found
      have mem := (tasks task).2 ⟨anchor, anchorMem, below, event⟩
      have nonempty : (tasksAt facts cut.aliasId (· < cut.start)).Nonempty := ⟨task, mem⟩
      have isMax : (tasksAt facts cut.aliasId (· < cut.start)).max' nonempty = task := by
        apply le_antisymm
        · apply Finset.max'_le
          intro other otherMem
          obtain ⟨otherAnchor, otherAnchorMem, otherBelow, otherEvent⟩ := (tasks other).1 otherMem
          exact greatest otherAnchor ⟨otherAnchorMem, otherBelow⟩ other otherEvent
        · exact Finset.le_max' _ _ mem
      rw [dif_pos nonempty, isMax]
      exact describes.idealEnds task (describes.accessed _ bound _ event).2.1

/-- The task whose begin the next use of a cut alias waits for. -/
theorem Describes.nextBegin (describes : Describes facts problem deviceId)
    (sorted : SortedLists problem) (bound : aliasId < problem.aliasCount) {cut : ResidencyCut}
    (own : cut.aliasId = aliasId) (ends : -1 ≤ cut.finish) :
    (let nextTask := if some : (tasksAt facts aliasId (· > cut.finish)).Nonempty then
        (tasksAt facts aliasId (· > cut.finish)).min' some else facts.taskCount
      if nextTask ≠ 0 then facts.taskIdealEndNs (nextTask - 1) else 0) =
      (cutTiming problem cut).nextUseBeginNs := by
  subst own
  have order := List.pairwise_map.1 (sorted.anchors cut.aliasId)
  have found := first_earliest (Describes.near describes bound)
    ((problem.anchors cut.aliasId).drop (lowerBound
      ((problem.anchors cut.aliasId).map Anchor.position) (cut.finish + 2).toNat))
    (order.sublist (List.drop_sublist _ _))
    (fun anchor mem => describes.accesses _ bound anchor (List.mem_of_mem_drop mem))
  simp only [mem_drop_anchors sorted] at found
  have count := describes.taskCount
  have tasks : ∀ task, task ∈ tasksAt facts cut.aliasId (· > cut.finish) ↔
      ∃ anchor ∈ problem.anchors cut.aliasId, (cut.finish + 2).toNat ≤ anchor.position ∧
        (shifted anchor.position, task) ∈ facts.accessEvents cut.aliasId := by
    intro task
    rw [mem_tasksAt]
    simp only [decide_eq_true_eq]
    constructor
    · rintro ⟨position, event, past⟩
      obtain ⟨_, _, anchor, mem, here⟩ := describes.accessed _ bound _ event
      simp only at here
      refine ⟨anchor, mem, ?_, by rw [here]; exact event⟩
      simp only [shifted] at here
      omega
    · rintro ⟨anchor, mem, above, event⟩
      refine ⟨_, event, ?_⟩
      simp only [shifted]
      omega
  unfold cutTiming
  simp only
  cases earliest : ((problem.anchors cut.aliasId).drop (lowerBound
      ((problem.anchors cut.aliasId).map Anchor.position)
      (cut.finish + 2).toNat)).findSome? Anchor.earliest with
  | none =>
      rw [earliest] at found
      rw [dif_neg]
      · have lastTask : problem.boundaryCount - 1 = facts.taskCount := by omega
        rw [lastTask]
        by_cases empty : facts.taskCount = 0
        · simp [empty]
        · rw [if_pos empty]
          simp only [empty, if_false]
          exact describes.idealEnds _ (by omega)
      · rintro ⟨task, mem⟩
        obtain ⟨anchor, anchorMem, above, event⟩ := (tasks task).1 mem
        exact found anchor ⟨anchorMem, above⟩ task event
  | some task =>
      rw [earliest] at found
      obtain ⟨⟨anchor, ⟨anchorMem, above⟩, event⟩, least⟩ := found
      have mem := (tasks task).2 ⟨anchor, anchorMem, above, event⟩
      have nonempty : (tasksAt facts cut.aliasId (· > cut.finish)).Nonempty := ⟨task, mem⟩
      have isMin : (tasksAt facts cut.aliasId (· > cut.finish)).min' nonempty = task := by
        apply le_antisymm
        · exact Finset.min'_le _ _ mem
        · apply Finset.le_min'
          intro other otherMem
          obtain ⟨otherAnchor, otherAnchorMem, otherAbove, otherEvent⟩ := (tasks other).1 otherMem
          exact least otherAnchor ⟨otherAnchorMem, otherAbove⟩ other otherEvent
      rw [dif_pos nonempty, isMin]
      by_cases first : task = 0
      · simp [first]
      · rw [if_pos first]
        simp only [first, if_false]
        have inside := (describes.accessed _ bound _ event).2.1
        simp only at inside
        exact describes.idealEnds _ (by omega)

end Neighbours

/-! ## The two words of the slack -/

theorem wrap_cases {first second : Nat} (firstFits : first < Word64.modulus)
    (secondFits : second < Word64.modulus) :
    Word64.wrap (first + second) + (if Word64.wrap (first + second) < first then
      Word64.modulus else 0) = first + second := by
  unfold Word64.wrap
  by_cases fits : first + second < Word64.modulus
  · rw [Nat.mod_eq_of_lt fits, if_neg (by omega), Nat.add_zero]
  · have once : (first + second) % Word64.modulus = first + second - Word64.modulus := by
      rw [Nat.mod_eq_sub_mod (by omega), Nat.mod_eq_of_lt (by omega)]
    rw [once, if_pos (by omega)]
    omega

theorem wrapSub_cases {first second : Nat} (firstFits : first < Word64.modulus)
    (secondFits : second < Word64.modulus) :
    Word64.wrapSub first second < Word64.modulus ∧
      Word64.wrapSub first second + second =
        first + if first < second then Word64.modulus else 0 := by
  unfold Word64.wrapSub Word64.wrap
  refine ⟨Nat.mod_lt _ (by decide), ?_⟩
  by_cases borrows : first < second
  · rw [if_pos borrows, Nat.mod_eq_of_lt (by omega)]
    omega
  · have once : (first + Word64.modulus - second) % Word64.modulus = first - second := by
      rw [Nat.mod_eq_sub_mod (by omega)]
      have shorter : first + Word64.modulus - second - Word64.modulus = first - second := by
        omega
      rw [shorter, Nat.mod_eq_of_lt (by omega)]
    rw [once, if_neg borrows]
    omega

/-- The words of a slack are its exact value. -/
theorem slack_words {evictSlack fetchSlack evictNs fetchNs : Nat}
    (evictSlackFits : evictSlack < Word64.modulus) (fetchSlackFits : fetchSlack < Word64.modulus)
    (evictFits : evictNs < Word64.modulus) (fetchFits : fetchNs < Word64.modulus) :
    let windows := Word64.wrap (evictSlack + fetchSlack)
    let transfers := Word64.wrap (evictNs + fetchNs)
    Word64.wrapSub windows transfers < Word64.modulus ∧
      ((if windows < evictSlack then 1 else 0) - (if transfers < evictNs then 1 else 0) -
          (if windows < transfers then 1 else 0) : Int) * (Word64.modulus : Int) +
          (Word64.wrapSub windows transfers : Int) =
        evictSlack - evictNs + fetchSlack - fetchNs := by
  simp only
  have windowsEq := wrap_cases evictSlackFits fetchSlackFits
  have transfersEq := wrap_cases evictFits fetchFits
  have windowsFits : Word64.wrap (evictSlack + fetchSlack) < Word64.modulus :=
    Nat.mod_lt _ (by decide)
  have transfersFits : Word64.wrap (evictNs + fetchNs) < Word64.modulus :=
    Nat.mod_lt _ (by decide)
  obtain ⟨low, difference⟩ := wrapSub_cases windowsFits transfersFits
  refine ⟨low, ?_⟩
  generalize Word64.wrap (evictSlack + fetchSlack) = windows at *
  generalize Word64.wrap (evictNs + fetchNs) = transfers at *
  generalize Word64.wrapSub windows transfers = slackLow at *
  by_cases overflows : windows < evictSlack <;> by_cases carries : transfers < evictNs <;>
    by_cases borrows : windows < transfers <;>
    simp only [overflows, carries, borrows, if_true, if_false] at windowsEq transfersEq difference ⊢ <;>
    norm_num [Word64.modulus] at windowsEq transfersEq difference ⊢ <;> omega

theorem negatedInt64_eq {size : Nat} (small : size ≤ 2 ^ 63) :
    negatedInt64 size = -(size : Int) := by
  rcases lt_or_eq_of_le small with less | rfl
  · unfold negatedInt64
    have signed : (BitVec.ofNat 64 size).toInt = size := by
      rw [BitVec.toInt_ofNat']
      exact Int.bmod_eq_of_le (by omega) (by omega)
    rw [BitVec.toInt_neg, signed]
    exact Int.bmod_eq_of_le (by omega) (by omega)
  · decide

theorem negatedInt64_above {size : Nat} (large : 2 ^ 63 < size)
    (word : size < Word64.modulus) : negatedInt64 size = (2 : Int) ^ 64 - size := by
  have bounds : (size : Int) < 2 ^ 64 := by exact_mod_cast word
  unfold negatedInt64
  have signed : (BitVec.ofNat 64 size).toInt = size - 2 ^ 64 := by
    rw [BitVec.toInt_ofNat', ← Int.sub_bmod_right]
    exact Int.bmod_eq_of_le (by omega) (by omega)
  rw [BitVec.toInt_neg, signed]
  exact (Int.bmod_eq_of_le (by omega) (by omega)).trans (by ring)

/-- The negatives of two sizes on one side of `2 ^ 63` are in the order of the numbers'. -/
theorem negatedInt64_order {first second : Nat} (firstFits : first < Word64.modulus)
    (secondFits : second < Word64.modulus) (side : first ≤ 2 ^ 63 ↔ second ≤ 2 ^ 63) :
    (negatedInt64 first < negatedInt64 second ↔ -(first : Int) < -(second : Int)) ∧
      (negatedInt64 first = negatedInt64 second ↔ -(first : Int) = -(second : Int)) := by
  by_cases small : first ≤ 2 ^ 63
  · rw [negatedInt64_eq small, negatedInt64_eq (side.1 small)]
    exact ⟨Iff.rfl, Iff.rfl⟩
  · have above : 2 ^ 63 < second := Nat.lt_of_not_le fun low => small (side.2 low)
    rw [negatedInt64_above (Nat.lt_of_not_le small) firstFits,
      negatedInt64_above above secondFits]
    omega

/-! ## The tuple of a score -/

/-- The numbers of a problem are words. -/
structure FitsWords (problem : ResidencyProblem) : Prop where
  sizes : ∀ aliasId < problem.aliasCount, problem.aliasSizeBytes aliasId < Word64.modulus
  idealEnds : ∀ task, problem.taskIdealEndNs task < Word64.modulus
  fetches : ∀ aliasId, problem.fetchRuntimeNs aliasId < Word64.modulus
  evicts : ∀ aliasId, problem.evictRuntimeNs aliasId < Word64.modulus

/-- A compiled score, with the negative of the size itself. -/
def exactScore (size : Nat) (score : CutScore) : CutScore := { score with negatedSize := -size }

/-- The tuple of a compiled score. -/
def scoreTuple (minimizeTransfer : Bool) (score : CutScore) : List Int :=
  let common : List Int :=
    [score.writeback, -(score.slackHigh * (Word64.modulus : Int) + score.slackLow),
      score.negatedSize, score.aliasId, score.start]
  if minimizeTransfer then common else (score.exposedNs : Int) :: common

section Scores

variable {facts : PlanningFacts} {problem : ResidencyProblem} {deviceId : Nat → String}
  {aliasId : Nat}

theorem Describes.writeback_iff (describes : Describes facts problem deviceId)
    (bound : aliasId < problem.aliasCount) {cut : ResidencyCut} {readable : Cut}
    (own : cut.aliasId = aliasId) (sameAlias : readable.aliasId = aliasId)
    (sameStart : readable.start = cut.start) (starts : 0 ≤ cut.start) :
    writebackRequired facts readable ↔ needsWriteback problem cut = true := by
  subst own
  have order := describes.writesOrder cut.aliasId bound
  have writes := describes.writes cut.aliasId bound
  unfold writebackRequired needsWriteback writtenBy
  rw [sameAlias, sameStart, describes.retains cut.aliasId bound, Bool.or_eq_true]
  apply or_congr
  · cases problem.aliasRetainSpillCopy cut.aliasId <;> simp
  · simp only [writes, shifted, Option.any_eq_true, decide_eq_true_eq]
    constructor
    · rintro ⟨boundary, ⟨written, mem, rfl⟩, departs⟩
      cases list : problem.writeBoundaries cut.aliasId with
      | nil => simp [list] at mem
      | cons first rest =>
          rw [list] at mem order
          refine ⟨first, rfl, ?_⟩
          rcases List.mem_cons.1 mem with rfl | later
          · omega
          · have rises := (List.pairwise_cons.1 order).1 written later
            omega
    · rintro ⟨first, found, departs⟩
      exact ⟨_, ⟨first, List.mem_of_mem_head? found, rfl⟩, by omega⟩

theorem cutTiming_fits (words : FitsWords problem) (cut : ResidencyCut) :
    (cutTiming problem cut).nextUseBeginNs < Word64.modulus ∧
      (cutTiming problem cut).evictNs < Word64.modulus ∧
      (cutTiming problem cut).fetchNs < Word64.modulus := by
  have zero : 0 < Word64.modulus := by decide
  unfold cutTiming
  simp only
  refine ⟨?_, ?_, words.fetches _⟩
  · split
    · split_ifs
      · exact zero
      · exact words.idealEnds _
    · split_ifs
      · exact zero
      · exact words.idealEnds _
  · split_ifs
    · exact words.evicts _
    · exact zero

/-- The reference ranks a cut by the tuple of its compiled score, but for a size that has no
negative as a signed number. -/
theorem Describes.cutScore_eq (describes : Describes facts problem deviceId)
    (sorted : SortedLists problem) (words : FitsWords problem)
    (bound : aliasId < problem.aliasCount) {cut : ResidencyCut} {readable : Cut}
    (own : cut.aliasId = aliasId) (sameAlias : readable.aliasId = aliasId)
    (sameStart : readable.start = cut.start) (sameFinish : readable.finish = cut.finish)
    (starts : 0 ≤ cut.start) (ends : -1 ≤ cut.finish) {boundary : Nat}
    (inside : boundary < problem.boundaryCount) (minimizeTransfer : Bool) :
    cutScore facts minimizeTransfer (shifted boundary) readable =
      scoreTuple minimizeTransfer (exactScore (problem.aliasSizeBytes aliasId)
        (scoreAt problem (scoreCut problem cut) (cutTiming problem cut) boundary
          minimizeTransfer)) := by
  have count := describes.taskCount
  have prior := Describes.priorEnd describes sorted bound own starts
  have next := Describes.nextBegin describes sorted bound own ends
  have writes := Describes.writeback_iff describes bound own sameAlias sameStart starts
  obtain ⟨nextFits, evictFits, fetchFits⟩ := cutTiming_fits words cut
  have evictNs : (if cut.start ≥ 0 ∧ writebackRequired facts readable then
      transferRuntimeNs facts aliasId false else 0) = (cutTiming problem cut).evictNs := by
    rw [describes.evicts aliasId bound]
    unfold cutTiming
    simp only [own]
    exact if_congr (by rw [writes]) rfl rfl
  have fetchNs : transferRuntimeNs facts aliasId true = (cutTiming problem cut).fetchNs := by
    rw [describes.fetches aliasId bound]
    unfold cutTiming
    simp only [own]
  have begin' : (if shifted boundary ≥ 0 then
      facts.taskIdealEndNs (shifted boundary).toNat else 0) =
      if boundary = 0 then 0 else problem.taskIdealEndNs (boundary - 1) := by
    by_cases first : boundary = 0
    · rw [if_pos first, if_neg (by simp only [shifted]; omega)]
    · rw [if_neg first, if_pos (by simp only [shifted]; omega)]
      have index : (shifted boundary).toNat = boundary - 1 := by
        simp only [shifted]
        omega
      rw [index]
      exact describes.idealEnds _ (by omega)
  have finish' : ∀ current : Nat, (if shifted boundary + 1 < (facts.taskCount : Int) then
      facts.taskIdealEndNs (shifted boundary + 1).toNat else current) =
      if boundary < problem.boundaryCount - 1 then problem.taskIdealEndNs boundary
      else current := by
    intro current
    have index : (shifted boundary + 1).toNat = boundary := by
      simp only [shifted]
      omega
    by_cases before : boundary < problem.boundaryCount - 1
    · rw [if_pos before, if_pos (by simp only [shifted]; omega), index]
      exact describes.idealEnds _ (by omega)
    · rw [if_neg before, if_neg (by simp only [shifted]; omega)]
  have writebackFlag : (if cut.start ≥ 0 ∧ writebackRequired facts readable then
      (1 : Int) else 0) = (scoreCut problem cut).writeback := by
    unfold scoreCut
    simp only
    exact if_congr (by rw [writes]) rfl rfl
  have size := describes.sizes aliasId bound
  have startBound : (if boundary = 0 then 0 else problem.taskIdealEndNs (boundary - 1)) <
      Word64.modulus := by
    split_ifs
    · decide
    · exact words.idealEnds _
  unfold cutScore
  simp only [sameAlias, sameStart, sameFinish]
  simp only [evictNs, fetchNs, begin', finish', writebackFlag, size]
  rw [prior]
  simp only at next
  rw [next]
  unfold scoreAt exactScore scoreTuple
  simp only
  generalize (if boundary = 0 then 0 else problem.taskIdealEndNs (boundary - 1)) = current
    at startBound ⊢
  generalize (if boundary < problem.boundaryCount - 1 then problem.taskIdealEndNs boundary
    else current) = currentEnd
  have words' := @slack_words (current - (cutTiming problem cut).priorUseEndNs)
    ((cutTiming problem cut).nextUseBeginNs - currentEnd) (cutTiming problem cut).evictNs
    (cutTiming problem cut).fetchNs (lt_of_le_of_lt (Nat.sub_le _ _) startBound)
    (lt_of_le_of_lt (Nat.sub_le _ _) nextFits) evictFits fetchFits
  simp only at words'
  obtain ⟨_, exact'⟩ := words'
  have evictSlack : max 0 ((current : Int) - (cutTiming problem cut).priorUseEndNs) =
      ((current - (cutTiming problem cut).priorUseEndNs : Nat) : Int) := by omega
  have fetchSlack : max 0 (((cutTiming problem cut).nextUseBeginNs : Int) - currentEnd) =
      (((cutTiming problem cut).nextUseBeginNs - currentEnd : Nat) : Int) := by omega
  rw [evictSlack, fetchSlack, ← exact']
  have exposed : min (2 ^ 64 - 1 : Int)
      (max 0 (((cutTiming problem cut).evictNs : Int) -
          ((current - (cutTiming problem cut).priorUseEndNs : Nat) : Int)) +
        max 0 (((cutTiming problem cut).fetchNs : Int) -
          (((cutTiming problem cut).nextUseBeginNs - currentEnd : Nat) : Int))) =
      ((if Word64.modulus - 1 - ((cutTiming problem cut).evictNs -
            (current - (cutTiming problem cut).priorUseEndNs)) <
          (cutTiming problem cut).fetchNs -
            ((cutTiming problem cut).nextUseBeginNs - currentEnd) then Word64.modulus - 1
        else (cutTiming problem cut).evictNs -
            (current - (cutTiming problem cut).priorUseEndNs) +
          ((cutTiming problem cut).fetchNs -
            ((cutTiming problem cut).nextUseBeginNs - currentEnd)) : Nat) : Int) := by
    generalize current - (cutTiming problem cut).priorUseEndNs = evictWindow
    generalize (cutTiming problem cut).nextUseBeginNs - currentEnd = fetchWindow
    split_ifs <;> norm_num [Word64.modulus] at * <;> omega
  rw [exposed]
  cases minimizeTransfer <;> simp [scoreCut, own]

end Scores

/-! ## The order of the tuples -/

/-- Two words compare as the number they are. -/
theorem words_lt {high low otherHigh otherLow : Int} (nonneg : 0 ≤ low)
    (small : low < Word64.modulus) (otherNonneg : 0 ≤ otherLow)
    (otherSmall : otherLow < Word64.modulus) :
    (-(high * (Word64.modulus : Int) + low) < -(otherHigh * (Word64.modulus : Int) + otherLow) ↔
        otherHigh < high ∨ high = otherHigh ∧ otherLow < low) ∧
      (-(high * (Word64.modulus : Int) + low) =
          -(otherHigh * (Word64.modulus : Int) + otherLow) ↔
        high = otherHigh ∧ low = otherLow) := by
  norm_num [Word64.modulus] at *
  omega

/-- The tuples are in the order of the scores. -/
theorem scoreTuple_lt (minimizeTransfer : Bool) {left right : CutScore}
    (leftFits : left.slackLow < Word64.modulus) (rightFits : right.slackLow < Word64.modulus) :
    scoreTuple minimizeTransfer left < scoreTuple minimizeTransfer right ↔
      scoreOrder minimizeTransfer left right = .lt := by
  obtain ⟨slackLess, slackSame⟩ := @words_lt left.slackHigh left.slackLow right.slackHigh
    right.slackLow (Int.natCast_nonneg _) (by exact_mod_cast leftFits) (Int.natCast_nonneg _)
    (by exact_mod_cast rightFits)
  unfold scoreTuple scoreOrder valueOrder
  cases minimizeTransfer <;>
    simp only [compareLex, compareOn, Ordering.then_eq_lt, compare_lt_iff_lt, compare_eq_iff_eq,
      List.cons_lt_cons_iff, slackLess, slackSame, Bool.false_eq_true, if_true, if_false,
      Nat.cast_lt, Nat.cast_inj, List.lt_irrefl, and_false, or_false]
  · omega
  · rw [true_and, or_iff_right (lt_irrefl 0)]
    omega

/-- The order of what is compared before the size. -/
def priorOrder (minimizeTransfer : Bool) : CutScore → CutScore → Ordering :=
  compareLex (compareOn fun score => if minimizeTransfer then 0 else score.exposedNs) <|
  compareLex (compareOn CutScore.writeback) <|
  compareLex (fun left right => compareOn CutScore.slackHigh right left)
    (fun left right => compareOn CutScore.slackLow right left)

theorem priorOrder_isLE {minimizeTransfer : Bool} {left right : CutScore}
    (less : (scoreOrder minimizeTransfer left right).isLE = true) :
    (priorOrder minimizeTransfer left right).isLE = true := by
  unfold scoreOrder valueOrder at less
  unfold priorOrder
  simp only [compareLex, Ordering.isLE_iff_eq_lt_or_eq_eq, Ordering.then_eq_lt,
    Ordering.then_eq_eq] at less ⊢
  tauto

/-- Where the sizes of two scores that tie before them are on one side of `2 ^ 63`, the exact
scores are in the order of the compiled ones. -/
theorem exactScore_lt {minimizeTransfer : Bool} {left right : CutScore} {first second : Nat}
    (firstFits : first < Word64.modulus) (secondFits : second < Word64.modulus)
    (leftSize : left.negatedSize = negatedInt64 first)
    (rightSize : right.negatedSize = negatedInt64 second)
    (side : priorOrder minimizeTransfer left right = .eq →
      (first ≤ 2 ^ 63 ↔ second ≤ 2 ^ 63))
    (less : scoreOrder minimizeTransfer left right = .lt) :
    scoreOrder minimizeTransfer (exactScore first left) (exactScore second right) = .lt := by
  unfold priorOrder at side
  unfold scoreOrder valueOrder at less ⊢
  unfold exactScore
  simp only [compareLex, compareOn, Ordering.then_eq_lt, Ordering.then_eq_eq,
    compare_lt_iff_lt, compare_eq_iff_eq, leftSize, rightSize] at less side ⊢
  by_cases tied : (if minimizeTransfer = true then 0 else left.exposedNs) =
      (if minimizeTransfer = true then 0 else right.exposedNs) ∧
        left.writeback = right.writeback ∧ right.slackHigh = left.slackHigh ∧
          right.slackLow = left.slackLow
  · obtain ⟨lower, equal⟩ := negatedInt64_order firstFits secondFits (side tied)
    rwa [lower, equal] at less
  · tauto

/-- The least of a list is the first minimum, when it is alone. -/
theorem firstMin_eq_some {score : Cut → List Int} {cuts : List Cut} {chosen : Cut}
    (mem : chosen ∈ cuts) (least : ∀ cut ∈ cuts, cut ≠ chosen → score chosen < score cut) :
    firstMin score cuts = some chosen := by
  have folds : ∀ (rest : List Cut) (best : Cut), chosen = best ∨ chosen ∈ rest →
      (∀ cut, cut = best ∨ cut ∈ rest → cut ≠ chosen → score chosen < score cut) →
      rest.foldl (fun best other => if score other < score best then other else best) best =
        chosen := by
    intro rest
    induction rest with
    | nil =>
        intro best holds _
        rcases holds with rfl | absent
        · rfl
        · cases absent
    | cons other others ih =>
        intro best holds least
        rw [List.foldl_cons]
        apply ih
        · by_cases replaced : score other < score best
          · rw [if_pos replaced]
            rcases holds with rfl | later
            · by_contra absent
              rw [not_or] at absent
              have before := least other (Or.inr (by simp)) (Ne.symm absent.1)
              exact lt_asymm before replaced
            · exact (List.mem_cons.1 later)
          · rw [if_neg replaced]
            rcases holds with same | later
            · exact Or.inl same
            · rcases List.mem_cons.1 later with rfl | later
              · by_contra absent
                rw [not_or] at absent
                exact replaced (least best (Or.inl rfl) (Ne.symm absent.1))
              · exact Or.inr later
        · intro cut held
          apply least
          by_cases replaced : score other < score best
          · rw [if_pos replaced] at held
            rcases held with rfl | later
            · exact Or.inr (by simp)
            · exact Or.inr (by simp [later])
          · rw [if_neg replaced] at held
            rcases held with same | later
            · exact Or.inl same
            · exact Or.inr (by simp [later])
  cases cuts with
  | nil => cases mem
  | cons first rest =>
      rw [firstMin, folds rest first (List.mem_cons.1 mem)
        (fun cut held => least cut (List.mem_cons.2 held))]

end ShadowSpill.Reference.ResidencyScores
