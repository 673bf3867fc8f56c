import ShadowSpill.Planner.Residency.CutLegality
import ShadowSpill.Planner.Residency.Reduce

/-!
# What a cut no longer charges

A cut leaves at most two pieces of a span, and nothing of it is charged where the
span was not.  The ranges that the reduction takes an alias's size from are the
boundaries its span was charged at, and the alias no longer is.
-/

namespace ShadowSpill.Planner.Residency.LostCharges

open Library.Intervals Problem Spans Cuts CutLegality Reduce

/-! ## The parts of a span -/

section Parts

variable {problem : ResidencyProblem} {fetchHeadroom : Bool} {aliasId : Nat}

/-- A part of a span is charged within the charge of the span. -/
theorem chargeSpan_part (sorted : SortedLists problem) {span part : Interval}
    (starts : span.start ≤ part.start) (ends : part.finish ≤ span.finish) :
    (chargeSpan problem fetchHeadroom aliasId span).start ≤
        (chargeSpan problem fetchHeadroom aliasId part).start ∧
      (chargeSpan problem fetchHeadroom aliasId part).finish ≤
        (chargeSpan problem fetchHeadroom aliasId span).finish := by
  constructor
  · by_cases same : part.start = span.start
    · simp only [chargeSpan, same]
      exact le_rfl
    · have own := @le_chargeSpan_start problem fetchHeadroom aliasId part
      have whole := @chargeSpan_start_le problem fetchHeadroom aliasId span
      omega
  · by_cases same : part.finish = span.finish
    · simp only [chargeSpan, same]
      by_cases leaves : 1 ≤ span.finish ∧ problem.finalLocation aliasId ≠ some .device ∧
          ¬ spanAccessedAfter problem aliasId span.start span.finish
            ((span.finish : Int) - 1) = true
      · have partLeaves : ¬ spanAccessedAfter problem aliasId part.start span.finish
            ((span.finish : Int) - 1) = true := by
          intro read
          obtain ⟨anchor, mem, lower, upper, accessed⟩ := (spanAccessedAfter_iff sorted).1 read
          exact leaves.2.2 ((spanAccessedAfter_iff sorted).2
            ⟨anchor, mem, le_trans starts lower, upper, accessed⟩)
        rw [if_pos leaves, if_pos ⟨leaves.1, leaves.2.1, partLeaves⟩]
      · rw [if_neg leaves]
        split_ifs <;> omega
    · have own := @chargeSpan_finish_le problem fetchHeadroom aliasId part
      have whole : span.finish ≤ (chargeSpan problem fetchHeadroom aliasId span).finish + 1 := by
        simp only [chargeSpan]
        split_ifs <;> omega
      omega

/-- The boundary a cut starts at, and the last one it takes out or ends a span
at. -/
def cutFirst (cut : ResidencyCut) : Nat :=
  (if cut.start > cut.finish then cut.finish + 1 else cut.start + 1).toNat

/-- A cut keeps the spans around the one it starts in, and leaves at most two parts
of that one. -/
theorem cutSpans_around {before after : List Interval} {span : Interval}
    {cut : ResidencyCut} (ascending : Ascending (before ++ span :: after))
    (holds : span.Contains (cutFirst cut)) :
    ∃ parts rest, cutSpans (before ++ span :: after) cut = before ++ (parts ++ rest) ∧
      parts.length ≤ 2 ∧
      (∀ part ∈ parts, span.start ≤ part.start ∧ part.finish ≤ span.finish) ∧
      (∀ part ∈ rest, ∃ other ∈ after,
        other.start ≤ part.start ∧ part.finish ≤ other.finish) ∧
      ((cut.finish + 1).toNat ≤ span.finish → rest = after) := by
  unfold cutFirst at holds
  unfold cutSpans
  by_cases splits : cut.start > cut.finish
  · rw [if_pos splits] at holds ⊢
    have found : find (before ++ span :: after) (cut.finish + 1).toNat = some before.length := by
      apply (find_eq_some ascending).2
      refine ⟨by simp, ?_⟩
      simpa using holds
    rw [splitAfter_around found]
    have lower := holds.1
    have upper := holds.2
    by_cases last : span.finish = (cut.finish + 1).toNat
    · rw [if_pos last]
      exact ⟨[span], after, rfl, by simp, by simp, fun part mem => ⟨part, mem, le_rfl, le_rfl⟩,
        fun _ => rfl⟩
    · rw [if_neg last]
      refine ⟨[⟨span.start, (cut.finish + 1).toNat⟩, ⟨(cut.finish + 1).toNat + 1, span.finish⟩],
        after, rfl, le_rfl, ?_, fun part mem => ⟨part, mem, le_rfl, le_rfl⟩, fun _ => rfl⟩
      simp only [List.mem_cons, List.not_mem_nil, or_false, forall_eq_or_imp, forall_eq]
      omega
  · rw [if_neg splits] at holds ⊢
    exact clear_around ascending holds (by omega)

end Parts

/-! ## The pieces of the span -/

section Pieces

variable {problem : ResidencyProblem} {fetchHeadroom : Bool} {aliasId spanEnd : Nat}

/-- The walk over the new spans finds the parts of the old one. -/
theorem chargedPieces_eq {parts rest : List Interval}
    (ends : ∀ part ∈ parts, part.finish ≤ spanEnd)
    (past : ∀ part ∈ rest, spanEnd < part.start) (before : List Interval)
    {cursor : Nat} (ascending : Ascending (before ++ (parts ++ rest)))
    (passed : ∀ other ∈ before, other.finish < cursor)
    (starts : ∀ part ∈ parts, cursor ≤ part.start) (bounded : cursor ≤ spanEnd + 1)
    {fuel : Nat} (enough : parts.length ≤ fuel) :
    chargedPieces problem fetchHeadroom aliasId (before ++ (parts ++ rest)) spanEnd fuel cursor =
      parts.map (chargeSpan problem fetchHeadroom aliasId) := by
  have reached : ∀ part ∈ parts ++ rest, cursor ≤ part.start := by
    intro part mem
    rcases List.mem_append.1 mem with mem | mem
    · exact starts part mem
    · have later := past part mem
      omega
  induction parts generalizing before cursor fuel with
  | nil =>
      cases fuel with
      | zero => rfl
      | succ fuel =>
          rw [chargedPieces, next_skip ascending passed reached]
          by_cases inside : cursor ≤ spanEnd
          · rw [if_pos inside]
            cases rest with
            | nil => rfl
            | cons following others =>
                have later := past following (by simp)
                simp only [List.nil_append, List.head?_cons, List.map_nil]
                rw [if_pos later]
          · rw [if_neg inside]
            rfl
  | cons part parts ih =>
      cases fuel with
      | zero => simp at enough
      | succ fuel =>
          have inner := (ascending_append.1 ascending).2.1
          obtain ⟨valid, above, _⟩ := ascending_cons.1 inner
          have upper := ends part (by simp)
          have lower := starts part (by simp)
          rw [chargedPieces, next_skip ascending passed reached, if_pos (by omega)]
          simp only [List.cons_append, List.head?_cons, List.map_cons]
          rw [if_neg (by omega)]
          congr 1
          have shifted : before ++ part :: (parts ++ rest) = (before ++ [part]) ++ (parts ++ rest) := by
            simp
          rw [List.cons_append, shifted] at ascending
          rw [shifted]
          apply ih (fun other mem => ends other (by simp [mem])) (before ++ [part]) ascending
          · intro other mem
            rcases List.mem_append.1 mem with mem | mem
            · have earlier := passed other mem
              omega
            · obtain rfl := List.mem_singleton.1 mem
              exact Nat.lt_succ_self _
          · intro other mem
            exact above other (by simp [mem])
          · omega
          · simpa using enough
          · intro other mem
            exact above other (by simpa using mem)

end Pieces

/-! ## The lost intervals -/

/-- The lost intervals ascend, and hold what no piece does. -/
theorem lostIntervals_spec (beforeEnd : Nat) {pieces : List Interval}
    (order : pieces.Pairwise fun first second => first.start ≤ second.start)
    (cursor : Nat) :
    Ascending (lostIntervals beforeEnd pieces cursor) ∧
      (∀ lost ∈ lostIntervals beforeEnd pieces cursor, cursor ≤ lost.start) ∧
      ∀ boundary, Covers (lostIntervals beforeEnd pieces cursor) boundary ↔
        cursor ≤ boundary ∧ boundary ≤ beforeEnd ∧ ¬ Covers pieces boundary := by
  induction pieces generalizing cursor with
  | nil =>
      rw [lostIntervals]
      by_cases inside : cursor ≤ beforeEnd
      · rw [if_pos inside]
        refine ⟨ascending_cons.2 ⟨inside, by simp, ascending_nil⟩, by simp, ?_⟩
        intro boundary
        simp [Interval.Contains]
      · rw [if_neg inside]
        refine ⟨ascending_nil, by simp, ?_⟩
        intro boundary
        simp only [not_covers_nil, not_false_eq_true, and_true, false_iff, not_and]
        omega
  | cons piece rest ih =>
      obtain ⟨later, restOrder⟩ := List.pairwise_cons.1 order
      have restAbove : ∀ boundary, Covers rest boundary → piece.start ≤ boundary := by
        rintro boundary ⟨other, mem, lower, _⟩
        exact le_trans (later other mem) lower
      rw [lostIntervals]
      by_cases empty : piece.finish < piece.start
      · rw [if_pos empty]
        obtain ⟨ascending, starts, covers⟩ := ih restOrder cursor
        refine ⟨ascending, starts, ?_⟩
        intro boundary
        rw [covers, covers_cons]
        have outside : ¬ piece.Contains boundary := fun inside =>
          absurd (le_trans inside.1 inside.2) (by omega)
        simp [outside]
      · rw [if_neg empty]
        obtain ⟨ascending, starts, covers⟩ := ih restOrder (max cursor (piece.finish + 1))
        have contains : ∀ boundary, piece.Contains boundary ↔
            piece.start ≤ boundary ∧ boundary ≤ piece.finish := fun _ => Iff.rfl
        by_cases gap : piece.start > cursor ∧ cursor ≤ min (piece.start - 1) beforeEnd
        · rw [if_pos gap, List.singleton_append]
          refine ⟨ascending_cons.2 ⟨gap.2, ?_, ascending⟩, ?_, ?_⟩
          · intro other mem
            have start := starts other mem
            simp only
            omega
          · intro lost mem
            rcases List.mem_cons.1 mem with rfl | mem
            · exact le_rfl
            · exact le_trans (le_max_left _ _) (starts lost mem)
          · intro boundary
            rw [covers_cons, covers, covers_cons, contains]
            have above := restAbove boundary
            simp only [Interval.Contains]
            constructor
            · rintro (⟨lower, upper⟩ | ⟨lower, upper, free⟩)
              · refine ⟨lower, by omega, ?_⟩
                rintro (inside | covered)
                · omega
                · have start := above covered
                  omega
              · refine ⟨by omega, upper, ?_⟩
                rintro (inside | covered)
                · omega
                · exact free covered
            · rintro ⟨lower, upper, free⟩
              rw [not_or] at free
              by_cases before : boundary < piece.start
              · exact Or.inl ⟨lower, by omega⟩
              · exact Or.inr ⟨by omega, upper, free.2⟩
        · rw [if_neg gap, List.nil_append]
          refine ⟨ascending, ?_, ?_⟩
          · intro lost mem
            exact le_trans (le_max_left _ _) (starts lost mem)
          · intro boundary
            rw [covers, covers_cons, contains]
            have above := restAbove boundary
            constructor
            · rintro ⟨lower, upper, free⟩
              refine ⟨by omega, upper, ?_⟩
              rintro (inside | covered)
              · omega
              · exact free covered
            · rintro ⟨lower, upper, free⟩
              rw [not_or] at free
              exact ⟨by omega, upper, free.2⟩

/-! ## The ranges of a lost interval -/

section Ranges

variable {left right : Option Nat}

/-- The first mask between two boundaries, or that there is none. -/
theorem maskedBetween_spec (apart : ∀ lower ∈ left, ∀ upper ∈ right, lower < upper)
    (first stop : Int) :
    match maskedBetween left right first stop with
    | some mask =>
        (left = some mask ∨ right = some mask) ∧ first ≤ mask ∧ mask ≤ stop ∧
          ∀ boundary : Nat, first ≤ boundary → boundary < mask →
            left ≠ some boundary ∧ right ≠ some boundary
    | none =>
        ∀ boundary : Nat, first ≤ boundary → boundary ≤ stop →
          left ≠ some boundary ∧ right ≠ some boundary := by
  have single : ∀ (mask : Option Nat) (point : Nat),
      (mask.filter fun boundary : Nat => first ≤ boundary ∧ boundary ≤ stop) = some point ↔
        mask = some point ∧ first ≤ point ∧ point ≤ stop := by
    intro mask point
    rw [Option.filter_eq_some_iff, decide_eq_true_eq]
  have absent : ∀ mask : Option Nat,
      (mask.filter fun boundary : Nat => first ≤ boundary ∧ boundary ≤ stop) = none →
        ∀ boundary : Nat, first ≤ boundary → boundary ≤ stop → mask ≠ some boundary := by
    intro mask empty boundary lower upper found
    rw [(single mask boundary).2 ⟨found, lower, upper⟩] at empty
    cases empty
  unfold maskedBetween
  cases inLeft : left.filter fun boundary : Nat => first ≤ boundary ∧ boundary ≤ stop with
  | some mask =>
      obtain ⟨found, lower, upper⟩ := (single left mask).1 inLeft
      refine ⟨Or.inl found, lower, upper, ?_⟩
      intro boundary _ before
      constructor
      · rw [found]
        intro same
        cases same
        exact lt_irrefl _ before
      · intro other
        have above := apart mask found boundary other
        omega
  | none =>
      have leftFree := absent left inLeft
      cases inRight : right.filter fun boundary : Nat => first ≤ boundary ∧ boundary ≤ stop with
      | some mask =>
          obtain ⟨found, lower, upper⟩ := (single right mask).1 inRight
          refine ⟨Or.inr found, lower, upper, ?_⟩
          intro boundary from_ before
          refine ⟨leftFree boundary from_ (by omega), ?_⟩
          rw [found]
          intro same
          cases same
          exact lt_irrefl _ before
      | none =>
          intro boundary from_ until_
          exact ⟨leftFree boundary from_ until_, absent right inRight boundary from_ until_⟩

/-- One range ahead of ranges that start past it. -/
theorem range_ahead {first stop later : Int} (nonneg : 0 ≤ first) (past : stop < later)
    {rest : List Interval} (ascending : Ascending rest)
    (starts : ∀ range ∈ rest, later ≤ range.start) :
    Ascending ((if stop ≥ first then [⟨first.toNat, stop.toNat⟩] else []) ++ rest) ∧
      (first ≤ later → ∀ range ∈ (if stop ≥ first then [⟨first.toNat, stop.toNat⟩] else []) ++
        rest, first ≤ range.start) ∧
      ∀ boundary : Nat, Covers ((if stop ≥ first then [⟨first.toNat, stop.toNat⟩] else []) ++
          rest) boundary ↔
        first ≤ boundary ∧ boundary ≤ stop ∨ Covers rest boundary := by
  by_cases holds : stop ≥ first
  · rw [if_pos holds, List.singleton_append]
    refine ⟨ascending_cons.2 ⟨by simp only; omega, ?_, ascending⟩, ?_, ?_⟩
    · intro other mem
      have start := starts other mem
      simp only
      omega
    · intro _ range mem
      rcases List.mem_cons.1 mem with rfl | mem
      · simp only
        omega
      · have start := starts range mem
        omega
    · intro boundary
      rw [covers_cons]
      apply or_congr_left
      simp only [Interval.Contains]
      omega
  · rw [if_neg holds, List.nil_append]
    refine ⟨ascending, ?_, ?_⟩
    · intro ordered range mem
      exact le_trans ordered (starts range mem)
    · intro boundary
      constructor
      · exact Or.inr
      · rintro (inside | covered)
        · omega
        · exact covered

/-- A range stops before the next reserved boundary, or at the end. -/
def rangeStop (last : Int) : List Nat → Int
  | [] => last
  | point :: _ => if (point : Int) ≤ last then point - 1 else last

theorem unmaskedRanges_succ (last : Int) (fuel : Nat) (first : Int) (reserved : List Nat) :
    unmaskedRanges left right last (fuel + 1) first reserved =
      if first ≤ last then
        match maskedBetween left right first (rangeStop last reserved) with
        | some boundary =>
            (if (boundary : Int) > first then [⟨first.toNat, boundary - 1⟩] else []) ++
              unmaskedRanges left right last fuel (boundary + 1) reserved
        | none =>
            (if rangeStop last reserved ≥ first then
              [⟨first.toNat, (rangeStop last reserved).toNat⟩] else []) ++
              if rangeStop last reserved < last then
                unmaskedRanges left right last fuel (rangeStop last reserved + 2) reserved.tail
              else unmaskedRanges left right last fuel (last + 1) reserved
      else [] := by
  cases reserved <;> rfl

theorem rangeStop_spec {first last : Int} {reserved : List Nat} (inside : first ≤ last)
    (order : reserved.Pairwise (· < ·)) (above : ∀ point ∈ reserved, first ≤ (point : Int)) :
    first - 1 ≤ rangeStop last reserved ∧ rangeStop last reserved ≤ last ∧
      (∀ point ∈ reserved, rangeStop last reserved < point) ∧
      (rangeStop last reserved < last → ∃ point rest, reserved = point :: rest ∧
        (point : Int) = rangeStop last reserved + 1) := by
  cases reserved with
  | nil =>
      simp only [rangeStop]
      exact ⟨by omega, le_rfl, by simp, fun past => absurd past (lt_irrefl _)⟩
  | cons point rest =>
      obtain ⟨below, _⟩ := List.pairwise_cons.1 order
      have lower := above point (by simp)
      simp only [rangeStop]
      by_cases here : (point : Int) ≤ last
      · simp only [here, if_true]
        refine ⟨by omega, by omega, ?_, fun _ => ⟨point, rest, rfl, by omega⟩⟩
        intro other mem
        rcases List.mem_cons.1 mem with rfl | mem
        · omega
        · have later := below other mem
          omega
      · simp only [here, if_false]
        refine ⟨by omega, le_rfl, ?_, fun past => absurd past (lt_irrefl _)⟩
        intro other mem
        rcases List.mem_cons.1 mem with rfl | mem
        · omega
        · have later := below other mem
          omega

/-- The ranges of a lost interval hold its boundaries but for the reserved and the
masked ones. -/
theorem unmaskedRanges_spec (apart : ∀ lower ∈ left, ∀ upper ∈ right, lower < upper)
    (last : Int) (fuel : Nat) {first : Int} {reserved : List Nat} (nonneg : 0 ≤ first)
    (enough : last + 1 - first ≤ fuel) (order : reserved.Pairwise (· < ·))
    (above : ∀ point ∈ reserved, first ≤ (point : Int)) :
    Ascending (unmaskedRanges left right last fuel first reserved) ∧
      (∀ range ∈ unmaskedRanges left right last fuel first reserved, first ≤ range.start) ∧
      ∀ boundary : Nat, Covers (unmaskedRanges left right last fuel first reserved) boundary ↔
        first ≤ boundary ∧ boundary ≤ last ∧ boundary ∉ reserved ∧
          left ≠ some boundary ∧ right ≠ some boundary := by
  induction fuel generalizing first reserved with
  | zero =>
      unfold unmaskedRanges
      refine ⟨ascending_nil, by simp, ?_⟩
      intro boundary
      simp only [not_covers_nil, false_iff, not_and]
      omega
  | succ fuel ih =>
      rw [unmaskedRanges_succ]
      by_cases inside : first ≤ last
      · rw [if_pos inside]
        obtain ⟨lower, upper, free, follows⟩ := rangeStop_spec inside order above
        generalize rangeStop last reserved = stop at lower upper free follows
        have masks := maskedBetween_spec apart first stop
        cases found : maskedBetween left right first stop with
        | some mask =>
            rw [found] at masks
            obtain ⟨isMask, fromFirst, untilStop, unmasked⟩ := masks
            have head : (if (mask : Int) > first then
                ([⟨first.toNat, mask - 1⟩] : List Interval) else []) =
                if (mask : Int) - 1 ≥ first then [⟨first.toNat, ((mask : Int) - 1).toNat⟩]
                else [] := by
              have same : ((mask : Int) - 1).toNat = mask - 1 := by omega
              rw [same]
              exact if_congr (by omega) rfl rfl
            obtain ⟨order', starts, covers⟩ := @ih ((mask : Int) + 1) reserved (by omega)
              (by omega) order (fun point mem => by have past := free point mem; omega)
            obtain ⟨whole, within, held⟩ := range_ahead nonneg
              (show (mask : Int) - 1 < mask + 1 by omega) order' starts
            simp only
            rw [head]
            refine ⟨whole, within (by omega), ?_⟩
            intro boundary
            rw [held, covers]
            constructor
            · rintro (⟨from_, until_⟩ | ⟨from_, rest⟩)
              · refine ⟨from_, by omega, ?_, unmasked boundary from_ (by omega)⟩
                intro mem
                have past := free boundary mem
                omega
              · exact ⟨by omega, rest⟩
            · rintro ⟨from_, until_, notReserved, notLeft, notRight⟩
              have other : boundary ≠ mask := by
                rintro rfl
                rcases isMask with isLeft | isRight
                · exact notLeft isLeft
                · exact notRight isRight
              by_cases before : boundary < mask
              · exact Or.inl ⟨from_, by omega⟩
              · exact Or.inr ⟨by omega, until_, notReserved, notLeft, notRight⟩
        | none =>
            rw [found] at masks
            simp only at masks ⊢
            by_cases goesOn : stop < last
            · rw [if_pos goesOn]
              obtain ⟨point, rest, rfl, here⟩ := follows goesOn
              obtain ⟨below, restOrder⟩ := List.pairwise_cons.1 order
              obtain ⟨order', starts, covers⟩ := @ih (stop + 2) rest (by omega) (by omega)
                restOrder (fun other mem => by have later := below other mem; omega)
              obtain ⟨whole, within, held⟩ := range_ahead nonneg
                (show stop < stop + 2 by omega) order' starts
              refine ⟨whole, within (by omega), ?_⟩
              intro boundary
              rw [List.tail_cons, held, covers, List.mem_cons, not_or]
              constructor
              · rintro (⟨from_, until_⟩ | ⟨from_, until_, notReserved, unmasked⟩)
                · refine ⟨from_, by omega, ⟨by omega, ?_⟩, masks boundary from_ until_⟩
                  intro mem
                  have later := below boundary mem
                  omega
                · exact ⟨by omega, until_, ⟨by omega, notReserved⟩, unmasked⟩
              · rintro ⟨from_, until_, ⟨other, notReserved⟩, unmasked⟩
                by_cases before : (boundary : Int) ≤ stop
                · exact Or.inl ⟨from_, before⟩
                · exact Or.inr ⟨by omega, until_, notReserved, unmasked⟩
            · rw [if_neg goesOn]
              obtain rfl : stop = last := by omega
              obtain ⟨order', starts, covers⟩ := @ih (stop + 1) reserved (by omega) (by omega)
                order (fun point mem => by have past := free point mem; omega)
              obtain ⟨whole, within, held⟩ := range_ahead nonneg
                (show stop < stop + 1 by omega) order' starts
              refine ⟨whole, within (by omega), ?_⟩
              intro boundary
              rw [held, covers]
              constructor
              · rintro (⟨from_, until_⟩ | ⟨from_, until_, _⟩)
                · refine ⟨from_, until_, ?_, masks boundary from_ until_⟩
                  intro mem
                  have past := free boundary mem
                  omega
                · omega
              · rintro ⟨from_, until_, _⟩
                exact Or.inl ⟨from_, until_⟩
      · rw [if_neg inside]
        refine ⟨ascending_nil, by simp, ?_⟩
        intro boundary
        simp only [not_covers_nil, false_iff, not_and]
        omega

end Ranges

/-! ## The lost charges of a span -/

section Lost

variable {problem : ResidencyProblem} {fetchHeadroom : Bool} {aliasId : Nat}

/-- The ranges of a lost interval hold its boundaries, but for the reserved and the
masked ones. -/
theorem lostRanges_spec (sorted : SortedLists problem) {left right : Option Nat}
    (apart : ∀ lower ∈ left, ∀ upper ∈ right, lower < upper) (lost : Interval) :
    Ascending (lostRanges problem aliasId left right lost) ∧
      ∀ boundary, Covers (lostRanges problem aliasId left right lost) boundary ↔
        lost.Contains boundary ∧ boundary ∉ problem.reservedPositions aliasId ∧
          left ≠ some boundary ∧ right ≠ some boundary := by
  have order := sorted.reserved aliasId
  have later := fun point => @mem_drop_lowerBound _ lost.start order point
  obtain ⟨ascending, _, covers⟩ := @unmaskedRanges_spec left right apart lost.finish
    (lost.finish + 1 - lost.start) lost.start
    ((problem.reservedPositions aliasId).drop
      (lowerBound (problem.reservedPositions aliasId) lost.start))
    (by omega) (by omega) (order.sublist (List.drop_sublist _ _))
    (fun point mem => Int.ofNat_le.2 ((later point).1 mem).1)
  refine ⟨ascending, ?_⟩
  intro boundary
  refine (covers boundary).trans ?_
  rw [later]
  constructor
  · rintro ⟨lower, upper, free, unmasked⟩
    exact ⟨⟨by omega, by omega⟩, fun mem => free ⟨by omega, mem⟩, unmasked⟩
  · rintro ⟨⟨lower, upper⟩, free, unmasked⟩
    exact ⟨by omega, by omega, fun both => free both.2, unmasked⟩

theorem maskLeft_eq_some {spans : List Interval} (ascending : Ascending spans)
    {spanStart boundary : Nat} :
    maskLeft problem fetchHeadroom aliasId spans spanStart = some boundary ↔
      boundary + 1 = spanStart ∧ ∃ span ∈ spans, span.Contains boundary ∧
        (chargeSpan problem fetchHeadroom aliasId span).finish = boundary := by
  unfold maskLeft
  by_cases first : spanStart > 0
  · rw [if_pos first]
    cases found : find spans (spanStart - 1) with
    | none =>
        simp only [reduceCtorEq, false_iff, not_and, not_exists]
        rintro rfl span mem contains _
        have covered := (find_isSome ascending).2 ⟨span, mem, contains⟩
        rw [Nat.add_sub_cancel] at found
        simp [found] at covered
    | some index =>
        obtain ⟨bound, contains⟩ := (find_eq_some ascending).1 found
        simp only [List.getD_eq_getElem _ _ bound]
        constructor
        · intro result
          split_ifs at result with ends
          obtain rfl := Option.some.inj result
          exact ⟨by omega, spans[index], List.getElem_mem bound, contains, ends⟩
        · rintro ⟨rfl, span, mem, holds, ends⟩
          rw [Nat.add_sub_cancel] at contains ⊢
          rw [ascending.unique (List.getElem_mem bound) mem contains holds, if_pos ends]
  · rw [if_neg first]
    simp only [reduceCtorEq, false_iff, not_and]
    omega

theorem maskRight_eq_some {spans : List Interval} (ascending : Ascending spans)
    {spanEnd boundary : Nat} :
    maskRight problem fetchHeadroom aliasId spans spanEnd = some boundary ↔
      boundary = spanEnd ∧ spanEnd + 1 < problem.boundaryCount ∧
        Covers spans (spanEnd + 1) ∧ fetchHeadroom = true ∧
        ¬ producedAt problem aliasId (spanEnd + 1) = true := by
  unfold maskRight residentAt
  simp only [find_isSome ascending, Option.ite_none_right_eq_some, Option.some.injEq]
  constructor
  · rintro ⟨masked, rfl⟩
    exact ⟨rfl, masked⟩
  · rintro ⟨rfl, masked⟩
    exact ⟨masked, rfl⟩

section Neighbours

variable {before parts rest : List Interval} {span : Interval} {boundary : Nat}
  {mask : Option Nat}

/-- Near the span the ones below it charge the masked boundary alone. -/
theorem chargedBelow_iff (valid : span.start ≤ span.finish)
    (ascending : Ascending (before ++ (parts ++ rest)))
    (below : ∀ other ∈ before, other.finish < span.start)
    (starts : ∀ part ∈ parts, span.start ≤ part.start)
    (above : ∀ other ∈ rest, span.finish < other.start) (near : span.start ≤ boundary + 1)
    (masks : mask = some boundary ↔ boundary + 1 = span.start ∧
      ∃ other ∈ before ++ (parts ++ rest), other.Contains boundary ∧
        (chargeSpan problem fetchHeadroom aliasId other).finish = boundary) :
    mask = some boundary ↔ ∃ other ∈ before,
      (chargeSpan problem fetchHeadroom aliasId other).Contains boundary := by
  rw [masks]
  constructor
  · rintro ⟨touches, other, mem, contains, ends⟩
    refine ⟨other, ?_, le_trans (chargeSpan_start_le other) contains.1, ge_of_eq ends⟩
    have start := contains.1
    rcases List.mem_append.1 mem with mem | mem
    · exact mem
    · rcases List.mem_append.1 mem with mem | mem
      · have later := starts other mem
        omega
      · have later := above other mem
        omega
  · rintro ⟨other, mem, _, upper⟩
    have finish := @chargeSpan_finish_le problem fetchHeadroom aliasId other
    have otherValid := ascending.valid other (by simp [mem])
    have earlier := below other mem
    exact ⟨by omega, other, by simp [mem], ⟨by omega, by omega⟩, by omega⟩

/-- Near the span the ones above it charge the masked boundary alone. -/
theorem chargedAbove_iff (valid : span.start ≤ span.finish)
    (ascending : Ascending (before ++ (parts ++ rest)))
    (bounded : ∀ other ∈ before ++ (parts ++ rest), other.finish < problem.boundaryCount)
    (below : ∀ other ∈ before, other.finish < span.start)
    (ends : ∀ part ∈ parts, part.finish ≤ span.finish)
    (above : ∀ other ∈ rest, span.finish < other.start) (near : boundary ≤ span.finish)
    (masks : mask = some boundary ↔ boundary = span.finish ∧
      span.finish + 1 < problem.boundaryCount ∧
      Covers (before ++ (parts ++ rest)) (span.finish + 1) ∧ fetchHeadroom = true ∧
      ¬ producedAt problem aliasId (span.finish + 1) = true) :
    mask = some boundary ↔ ∃ other ∈ rest,
      (chargeSpan problem fetchHeadroom aliasId other).Contains boundary := by
  rw [masks]
  constructor
  · rintro ⟨rfl, _, ⟨other, mem, lower, upper⟩, headroom, unproduced⟩
    have inRest : other ∈ rest := by
      rcases List.mem_append.1 mem with mem | mem
      · have earlier := below other mem
        omega
      · rcases List.mem_append.1 mem with mem | mem
        · have earlier := ends other mem
          omega
        · exact mem
    have later := above other inRest
    have start : other.start = span.finish + 1 := by omega
    refine ⟨other, inRest, ?_, ?_⟩
    · have charged : fetchHeadroom = true ∧ other.start > 0 ∧
          ¬ producedAt problem aliasId other.start = true :=
        ⟨headroom, by omega, start ▸ unproduced⟩
      simp only [chargeSpan, if_pos charged]
      omega
    · simp only [chargeSpan]
      split_ifs <;> omega
  · rintro ⟨other, mem, lower, _⟩
    have later := above other mem
    have start := @le_chargeSpan_start problem fetchHeadroom aliasId other
    have otherValid := ascending.valid other (by simp [mem])
    have inside := bounded other (by simp [mem])
    have here : other.start = span.finish + 1 := by omega
    have headroom : fetchHeadroom = true ∧ other.start > 0 ∧
        ¬ producedAt problem aliasId other.start = true := by
      by_contra none
      simp only [chargeSpan, if_neg none] at lower
      omega
    rw [here] at headroom
    exact ⟨by omega, by omega, ⟨other, by simp [mem], by omega, by omega⟩, headroom.1,
      headroom.2.2⟩

end Neighbours

/-- The ranges that lose an alias's size where its span was cut. -/
def lostCharges (problem : ResidencyProblem) (fetchHeadroom : Bool) (aliasId : Nat)
    (spans : List Interval) (span : Interval) : List Interval :=
  (lostIntervals (chargeSpan problem fetchHeadroom aliasId span).finish
      (chargedPieces problem fetchHeadroom aliasId spans span.finish 4 span.start)
      (chargeSpan problem fetchHeadroom aliasId span).start).flatMap
    (lostRanges problem aliasId
      (maskLeft problem fetchHeadroom aliasId spans span.start)
      (maskRight problem fetchHeadroom aliasId spans span.finish))

/-- What is lost are the boundaries the span was charged at and the alias is not
any more. -/
theorem lostCharges_spec (sorted : SortedLists problem) {before parts rest : List Interval}
    {span : Interval} (valid : span.start ≤ span.finish)
    (ascending : Ascending (before ++ (parts ++ rest)))
    (bounded : ∀ other ∈ before ++ (parts ++ rest), other.finish < problem.boundaryCount)
    (below : ∀ other ∈ before, other.finish < span.start)
    (few : parts.length ≤ 2)
    (within : ∀ part ∈ parts, span.start ≤ part.start ∧ part.finish ≤ span.finish)
    (above : ∀ other ∈ rest, span.finish < other.start) {spans : Nat → List Interval}
    (exactly : spans aliasId = before ++ (parts ++ rest)) :
    Ascending (lostCharges problem fetchHeadroom aliasId (spans aliasId) span) ∧
      ∀ boundary, Covers (lostCharges problem fetchHeadroom aliasId (spans aliasId) span)
          boundary ↔
        (chargeSpan problem fetchHeadroom aliasId span).Contains boundary ∧
          ¬ chargedAt problem fetchHeadroom spans aliasId boundary = true := by
  have charged := fun boundary => @chargedAt_iff problem fetchHeadroom aliasId sorted spans
    (exactly ▸ ascending) boundary
  rw [exactly] at charged ⊢
  have masksLeft := fun boundary => @maskLeft_eq_some problem fetchHeadroom aliasId _
    ascending span.start boundary
  have masksRight := fun boundary => @maskRight_eq_some problem fetchHeadroom aliasId _
    ascending span.finish boundary
  have pieces := @chargedPieces_eq problem fetchHeadroom aliasId span.finish parts rest
    (fun part mem => (within part mem).2) above before span.start ascending below
    (fun part mem => (within part mem).1) (by omega) 4 (by omega)
  obtain ⟨lostAscending, _, lostCovers⟩ := @lostIntervals_spec
    (chargeSpan problem fetchHeadroom aliasId span).finish
    (parts.map (chargeSpan problem fetchHeadroom aliasId))
    (chargeSpan_starts (ascending_append.1 (ascending_append.1 ascending).2.1).1)
    (chargeSpan problem fetchHeadroom aliasId span).start
  unfold lostCharges
  rw [pieces]
  generalize maskLeft problem fetchHeadroom aliasId (before ++ (parts ++ rest)) span.start =
    left at masksLeft
  generalize maskRight problem fetchHeadroom aliasId (before ++ (parts ++ rest))
    span.finish = right at masksRight
  have apart : ∀ lower ∈ left, ∀ upper ∈ right, lower < upper := by
    intro lower isLeft upper isRight
    have lowerEnd := ((masksLeft lower).1 isLeft).1
    have upperEnd := ((masksRight upper).1 isRight).1
    omega
  have ranges := fun lost => @lostRanges_spec problem aliasId sorted left right apart lost
  constructor
  · apply ascending_flatMap lostAscending (fun lost _ => (ranges lost).1)
    intro lost _ range mem
    have rangeValid := (ranges lost).1.valid range mem
    have first := (((ranges lost).2 range.start).1 ⟨range, mem, le_rfl, rangeValid⟩).1.1
    have last := (((ranges lost).2 range.finish).1 ⟨range, mem, rangeValid, le_rfl⟩).1.2
    exact ⟨first, last⟩
  · intro boundary
    have flat : Covers ((lostIntervals (chargeSpan problem fetchHeadroom aliasId span).finish
          (parts.map (chargeSpan problem fetchHeadroom aliasId))
          (chargeSpan problem fetchHeadroom aliasId span).start).flatMap
          (lostRanges problem aliasId left right)) boundary ↔
        (chargeSpan problem fetchHeadroom aliasId span).Contains boundary ∧
          ¬ Covers (parts.map (chargeSpan problem fetchHeadroom aliasId)) boundary ∧
          boundary ∉ problem.reservedPositions aliasId ∧
          left ≠ some boundary ∧ right ≠ some boundary := by
      constructor
      · rintro ⟨range, mem, contains⟩
        obtain ⟨lost, lostMem, rangeMem⟩ := List.mem_flatMap.1 mem
        obtain ⟨inLost, free, unmasked⟩ := ((ranges lost).2 boundary).1 ⟨range, rangeMem, contains⟩
        obtain ⟨lower, upper, uncovered⟩ := (lostCovers boundary).1 ⟨lost, lostMem, inLost⟩
        exact ⟨⟨lower, upper⟩, uncovered, free, unmasked⟩
      · rintro ⟨⟨lower, upper⟩, uncovered, free, unmasked⟩
        obtain ⟨lost, lostMem, inLost⟩ := (lostCovers boundary).2 ⟨lower, upper, uncovered⟩
        obtain ⟨range, rangeMem, contains⟩ :=
          ((ranges lost).2 boundary).2 ⟨inLost, free, unmasked⟩
        exact ⟨range, List.mem_flatMap.2 ⟨lost, lostMem, rangeMem⟩, contains⟩
    rw [flat]
    have inParts : Covers (parts.map (chargeSpan problem fetchHeadroom aliasId)) boundary ↔
        ∃ part ∈ parts, (chargeSpan problem fetchHeadroom aliasId part).Contains boundary := by
      simp [Covers, List.mem_map]
    apply and_congr_right
    rintro ⟨lower, upper⟩
    have fromStart : span.start ≤ boundary + 1 :=
      le_trans (le_chargeSpan_start span) (Nat.succ_le_succ lower)
    have untilEnd : boundary ≤ span.finish := le_trans upper (chargeSpan_finish_le span)
    rw [charged, inParts]
    have onLeft := chargedBelow_iff valid ascending below
      (fun part mem => (within part mem).1) above fromStart (masksLeft boundary)
    have onRight := chargedAbove_iff valid ascending bounded below
      (fun part mem => (within part mem).2) above untilEnd (masksRight boundary)
    simp only [List.mem_append, or_and_right, exists_or, ← onLeft, ← onRight]
    constructor
    · rintro ⟨notParts, free, notLeft, notRight⟩
      rintro ((isLeft | inPart | isRight) | reserved)
      · exact notLeft isLeft
      · exact notParts inPart
      · exact notRight isRight
      · exact free reserved
    · intro uncharged
      exact ⟨fun inPart => uncharged (Or.inl (Or.inr (Or.inl inPart))),
        fun reserved => uncharged (Or.inr reserved),
        fun isLeft => uncharged (Or.inl (Or.inl isLeft)),
        fun isRight => uncharged (Or.inl (Or.inr (Or.inr isRight)))⟩

/-- No piece is charged where its span was not. -/
theorem gainedBoundaries_parts (sorted : SortedLists problem) {parts : List Interval}
    {span : Interval}
    (within : ∀ part ∈ parts, span.start ≤ part.start ∧ part.finish ≤ span.finish) :
    (parts.map (chargeSpan problem fetchHeadroom aliasId)).flatMap
      (gainedBoundaries (chargeSpan problem fetchHeadroom aliasId span)) = [] := by
  apply List.flatMap_eq_nil_iff.2
  intro piece mem
  obtain ⟨part, partMem, rfl⟩ := List.mem_map.1 mem
  obtain ⟨starts, ends⟩ := within part partMem
  have inside := @chargeSpan_part problem fetchHeadroom aliasId sorted span part starts ends
  unfold gainedBoundaries
  rw [if_neg (by omega), if_neg (by omega)]
  rfl

end Lost

end ShadowSpill.Planner.Residency.LostCharges
