import ShadowSpill.Library.Intervals
import ShadowSpill.Planner.Residency.Problem

/-!
# What residency costs

A residency holds, for each alias, the spans of boundaries it is resident at.
A span is charged at its boundaries but for two corrections, and the reserved
boundaries are charged besides; the bytes of a boundary are the sizes of the
aliases charged there.
-/

namespace ShadowSpill.Planner.Residency.Spans

open Library Library.Intervals Problem

/-- `ShadowSpillResidency`: the span list of each alias, ascending and within
the boundaries. -/
structure ResidencySpans (boundaryCount : Nat) where
  spans : Nat → List Interval
  ascending : ∀ aliasId, Ascending (spans aliasId)
  bounded : ∀ aliasId, ∀ span ∈ spans aliasId, span.finish < boundaryCount

/-- `shadowspill_problem_build_anchor_seed`: the hull of each alias's anchors. -/
def anchorSeed (problem : ResidencyProblem) (aliasId : Nat) : List Interval :=
  match (problem.anchors aliasId).head?, (problem.anchors aliasId).getLast? with
  | some first, some last => [⟨first.position, last.position⟩]
  | _, _ => []

/-- `charge_span`: one boundary of fetch headroom before a span that does not
begin with a production, and not the span's last boundary when nothing accesses
the alias later and it may leave. -/
def chargeSpan (problem : ResidencyProblem) (fetchHeadroom : Bool) (aliasId : Nat)
    (span : Interval) : Interval where
  start :=
    if fetchHeadroom ∧ span.start > 0 ∧ ¬ producedAt problem aliasId span.start then
      span.start - 1
    else span.start
  finish :=
    if 1 ≤ span.finish ∧ problem.finalLocation aliasId ≠ some .device ∧
        ¬ spanAccessedAfter problem aliasId span.start span.finish
          ((span.finish : Int) - 1) then
      span.finish - 1
    else span.finish

/-- The reserved boundaries merged into the charged intervals, taken from the
back: of the two last ones the interval goes first when it starts past the
reserved boundary. -/
def mergeReserved (intervals : List Interval) (reserved : List Nat) : List Interval :=
  (List.merge intervals.reverse (reserved.reverse.map fun point => ⟨point, point⟩)
    fun interval point => interval.start > point.start).reverse

/-- `shadowspill_residency_charged_intervals`. -/
def chargedIntervals (problem : ResidencyProblem) (fetchHeadroom : Bool)
    (aliasId : Nat) (spans : List Interval) : List Interval :=
  let charged := (spans.map (chargeSpan problem fetchHeadroom aliasId)).filter
    fun interval => interval.finish ≥ interval.start
  let intervals := appendAll [] charged
  let reserved := problem.reservedPositions aliasId
  if reserved = [] then intervals
  else appendAll [] (mergeReserved intervals reserved)

/-- `intervals_cover`. -/
def intervalsCover (intervals : List Interval) (boundary : Nat) : Bool :=
  (find intervals boundary).isSome

/-- `shadowspill_problem_add_u64`: a sum, refused when it leaves 64 bits. -/
def addU64 (left right : Nat) : Option Nat :=
  if left + right > Word64.modulus - 1 then none else some (left + right)

/-- An alias is charged at a boundary. -/
def chargedAt (problem : ResidencyProblem) (fetchHeadroom : Bool)
    (spans : Nat → List Interval) (aliasId boundary : Nat) : Bool :=
  intervalsCover (chargedIntervals problem fetchHeadroom aliasId (spans aliasId)) boundary

/-- `shadowspill_residency_pressure_at`. -/
def pressureAt (problem : ResidencyProblem) (fetchHeadroom : Bool)
    (spans : Nat → List Interval) (device boundary : Nat) : Option Nat :=
  if device ≥ problem.deviceCount ∨ boundary ≥ problem.boundaryCount then none
  else
    (List.range problem.aliasCount).foldlM (fun pressure aliasId =>
      if problem.aliasDevice aliasId ≠ device ∨ ¬ problem.mayCut aliasId then
        some pressure
      else if ¬ chargedAt problem fetchHeadroom spans aliasId boundary then
        some pressure
      else addU64 pressure (problem.aliasSizeBytes aliasId)) 0

/-! ## The boundaries an alias is charged at -/

section Charged

variable {problem : ResidencyProblem} {fetchHeadroom : Bool} {aliasId : Nat}

theorem chargeSpan_start_le (span : Interval) :
    (chargeSpan problem fetchHeadroom aliasId span).start ≤ span.start := by
  simp only [chargeSpan]
  split_ifs <;> omega

theorem le_chargeSpan_start (span : Interval) :
    span.start ≤ (chargeSpan problem fetchHeadroom aliasId span).start + 1 := by
  simp only [chargeSpan]
  split_ifs <;> omega

theorem chargeSpan_finish_le (span : Interval) :
    (chargeSpan problem fetchHeadroom aliasId span).finish ≤ span.finish := by
  simp only [chargeSpan]
  split_ifs <;> omega

/-- The charged intervals of ascending spans start in ascending order. -/
theorem chargeSpan_starts {spans : List Interval} (ascending : Ascending spans) :
    (spans.map (chargeSpan problem fetchHeadroom aliasId)).Pairwise
      fun first second => first.start ≤ second.start := by
  apply List.pairwise_map.2
  apply List.Pairwise.imp_of_mem _ ascending.apart
  intro first second firstMem _ apart
  have valid := ascending.valid first firstMem
  have lower := @chargeSpan_start_le problem fetchHeadroom aliasId first
  have upper := @le_chargeSpan_start problem fetchHeadroom aliasId second
  omega

theorem mergeReserved_perm (intervals : List Interval) (reserved : List Nat) :
    (mergeReserved intervals reserved).Perm
      (intervals ++ reserved.map fun point => ⟨point, point⟩) := by
  apply (List.reverse_perm _).trans
  apply (List.merge_perm_append _).trans
  exact List.Perm.append (List.reverse_perm _) ((List.reverse_perm reserved).map _)

/-- Two lists in descending order of their starts merge into one. -/
theorem merge_descending {first second : List Interval}
    (firstOrder : first.Pairwise fun left right => right.start ≤ left.start)
    (secondOrder : second.Pairwise fun left right => right.start ≤ left.start) :
    (List.merge first second fun left right => left.start > right.start).Pairwise
      fun left right => right.start ≤ left.start := by
  induction first generalizing second with
  | nil => simpa using secondOrder
  | cons left lefts leftsMerge =>
      induction second with
      | nil => simpa using firstOrder
      | cons right rights rightsMerge =>
          obtain ⟨leftAbove, leftsOrder⟩ := List.pairwise_cons.1 firstOrder
          obtain ⟨rightAbove, rightsOrder⟩ := List.pairwise_cons.1 secondOrder
          rw [List.cons_merge_cons]
          by_cases past : left.start > right.start
          · rw [if_pos (by simpa using past)]
            apply List.pairwise_cons.2 ⟨?_, leftsMerge leftsOrder secondOrder⟩
            intro other mem
            rcases List.mem_merge.1 mem with mem | mem
            · exact leftAbove other mem
            · rcases List.mem_cons.1 mem with rfl | mem
              · exact le_of_lt past
              · exact le_trans (rightAbove other mem) (le_of_lt past)
          · rw [if_neg (by simpa using past)]
            apply List.pairwise_cons.2 ⟨?_, rightsMerge rightsOrder⟩
            intro other mem
            rcases List.mem_merge.1 mem with mem | mem
            · rcases List.mem_cons.1 mem with rfl | mem
              · omega
              · exact le_trans (leftAbove other mem) (by omega)
            · exact rightAbove other mem

theorem mergeReserved_starts {intervals : List Interval} {reserved : List Nat}
    (ascending : Ascending intervals) (sorted : reserved.Pairwise (· < ·)) :
    (mergeReserved intervals reserved).Pairwise
      fun first second => first.start ≤ second.start := by
  apply List.pairwise_reverse.2
  apply merge_descending
  · apply List.pairwise_reverse.2
    apply List.Pairwise.imp_of_mem _ ascending.apart
    intro first second mem _ apart
    have valid := ascending.valid first mem
    omega
  · apply List.pairwise_map.2
    apply List.pairwise_reverse.2
    exact sorted.imp le_of_lt

/-- The charged intervals of one alias ascend, and hold the charged boundaries
of its spans and its reserved boundaries. -/
theorem chargedIntervals_spec (sorted : SortedLists problem) {spans : List Interval}
    (ascending : Ascending spans) :
    Ascending (chargedIntervals problem fetchHeadroom aliasId spans) ∧
      ∀ boundary, Covers (chargedIntervals problem fetchHeadroom aliasId spans) boundary ↔
        (∃ span ∈ spans,
          (chargeSpan problem fetchHeadroom aliasId span).Contains boundary) ∨
        boundary ∈ problem.reservedPositions aliasId := by
  have filtered := @appendAll_spec []
    ((spans.map (chargeSpan problem fetchHeadroom aliasId)).filter
      fun interval => interval.finish ≥ interval.start)
    ascending_nil
    (fun next mem => by simpa using (List.mem_filter.1 mem).2)
    (fun _ _ => by simp [StartsBy])
    ((chargeSpan_starts ascending).filter _)
  unfold chargedIntervals
  simp only
  generalize appendAll [] ((spans.map (chargeSpan problem fetchHeadroom aliasId)).filter
    fun interval => interval.finish ≥ interval.start) = intervals
    at filtered
  have spanCovers : ∀ boundary, Covers intervals boundary ↔ ∃ span ∈ spans,
      (chargeSpan problem fetchHeadroom aliasId span).Contains boundary := by
    intro boundary
    rw [filtered.2, or_iff_right (not_covers_nil _)]
    simp only [Covers, List.mem_filter, List.mem_map, decide_eq_true_eq]
    constructor
    · rintro ⟨_, ⟨⟨span, mem, rfl⟩, _⟩, contains⟩
      exact ⟨span, mem, contains⟩
    · rintro ⟨span, mem, contains⟩
      exact ⟨_, ⟨⟨span, mem, rfl⟩, le_trans contains.1 contains.2⟩, contains⟩
  by_cases reserves : problem.reservedPositions aliasId = []
  · rw [if_pos reserves]
    refine ⟨filtered.1, ?_⟩
    intro boundary
    rw [spanCovers, reserves]
    simp
  · rw [if_neg reserves]
    have perm := mergeReserved_perm intervals (problem.reservedPositions aliasId)
    have merged := @appendAll_spec []
      (mergeReserved intervals (problem.reservedPositions aliasId)) ascending_nil
      (fun next mem => by
        rcases List.mem_append.1 (perm.subset mem) with mem | mem
        · exact filtered.1.valid next mem
        · obtain ⟨_, _, rfl⟩ := List.mem_map.1 mem
          exact le_rfl)
      (fun _ _ => by simp [StartsBy])
      (mergeReserved_starts filtered.1 (sorted.reserved aliasId))
    refine ⟨merged.1, ?_⟩
    intro boundary
    rw [merged.2, ← spanCovers]
    simp only [not_covers_nil, false_or]
    have members : Covers (mergeReserved intervals (problem.reservedPositions aliasId))
        boundary ↔ Covers (intervals ++ (problem.reservedPositions aliasId).map
          fun point => ⟨point, point⟩) boundary := by
      simp only [Covers, perm.mem_iff]
    rw [members, covers_append]
    apply or_congr_right
    constructor
    · rintro ⟨_, mem, lower, upper⟩
      obtain ⟨point, here, rfl⟩ := List.mem_map.1 mem
      have same : point = boundary := le_antisymm lower upper
      rwa [← same]
    · intro here
      exact ⟨_, List.mem_map_of_mem here, le_rfl, le_rfl⟩

/-- An alias is charged where one of its spans is, and where it reserves. -/
theorem chargedAt_iff (sorted : SortedLists problem) {spans : Nat → List Interval}
    (ascending : Ascending (spans aliasId)) {boundary : Nat} :
    chargedAt problem fetchHeadroom spans aliasId boundary = true ↔
      (∃ span ∈ spans aliasId,
        (chargeSpan problem fetchHeadroom aliasId span).Contains boundary) ∨
      boundary ∈ problem.reservedPositions aliasId := by
  obtain ⟨order, covers⟩ :=
    @chargedIntervals_spec problem fetchHeadroom aliasId sorted _ ascending
  unfold chargedAt intervalsCover
  rw [find_isSome order, covers]

end Charged

/-! ## The bytes of a boundary -/

/-- The aliases whose bytes a device's boundary bears. -/
def bears (problem : ResidencyProblem) (fetchHeadroom : Bool)
    (spans : Nat → List Interval) (device boundary aliasId : Nat) : Bool :=
  problem.aliasDevice aliasId = device && problem.mayCut aliasId &&
    chargedAt problem fetchHeadroom spans aliasId boundary

/-- The bytes charged at a boundary, whatever their number. -/
def chargeBytes (problem : ResidencyProblem) (fetchHeadroom : Bool)
    (spans : Nat → List Interval) (device boundary : Nat) : Nat :=
  ((List.range problem.aliasCount).map fun aliasId =>
    if bears problem fetchHeadroom spans device boundary aliasId then
      problem.aliasSizeBytes aliasId
    else 0).sum

section Bytes

variable {problem : ResidencyProblem} {fetchHeadroom : Bool}
  {spans : Nat → List Interval} {device boundary : Nat}

theorem addU64_eq (left right : Nat) :
    addU64 left right =
      if left + right < Word64.modulus then some (left + right) else none := by
  have positive : 0 < Word64.modulus := Nat.two_pow_pos 64
  unfold addU64
  by_cases fits : left + right < Word64.modulus
  · rw [if_pos fits, if_neg (by omega)]
  · rw [if_neg fits, if_pos (by omega)]

/-- A checked sum over some of the aliases is their sum while that fits. -/
theorem foldlM_addU64 (aliases : List Nat) (selected : Nat → Bool) (size : Nat → Nat)
    {initial : Nat} (fits : initial < Word64.modulus) :
    aliases.foldlM (fun sum aliasId =>
        if selected aliasId then addU64 sum (size aliasId) else some sum) initial =
      let total := initial +
        (aliases.map fun aliasId => if selected aliasId then size aliasId else 0).sum
      if total < Word64.modulus then some total else none := by
  induction aliases generalizing initial with
  | nil => simp [fits]
  | cons aliasId rest ih =>
      rw [List.foldlM_cons]
      simp only [List.map_cons, List.sum_cons, ← Nat.add_assoc]
      cases selected aliasId with
      | false => simpa using ih fits
      | true =>
          simp only [if_true]
          by_cases within : initial + size aliasId < Word64.modulus
          · rw [(addU64_eq _ _).trans (if_pos within)]
            exact ih within
          · rw [(addU64_eq _ _).trans (if_neg within), if_neg (by omega)]
            rfl

/-- The pressure of a boundary is the bytes charged there, unless they leave 64
bits. -/
theorem pressureAt_eq (deviceBound : device < problem.deviceCount)
    (boundaryBound : boundary < problem.boundaryCount) :
    pressureAt problem fetchHeadroom spans device boundary =
      if chargeBytes problem fetchHeadroom spans device boundary < Word64.modulus then
        some (chargeBytes problem fetchHeadroom spans device boundary)
      else none := by
  have checked := @foldlM_addU64 (List.range problem.aliasCount)
    (bears problem fetchHeadroom spans device boundary) problem.aliasSizeBytes 0
    (Nat.two_pow_pos 64)
  simp only [Nat.zero_add] at checked
  unfold pressureAt
  rw [if_neg (by omega)]
  refine Eq.trans ?_ checked
  congr 1
  funext pressure aliasId
  unfold bears
  by_cases here : problem.aliasDevice aliasId = device
  · by_cases eligible : problem.mayCut aliasId = true
    · by_cases charged : chargedAt problem fetchHeadroom spans aliasId boundary = true
      · simp [here, eligible, charged]
      · simp [here, eligible, charged]
    · simp [here, eligible]
  · simp [here]

end Bytes

end ShadowSpill.Planner.Residency.Spans
