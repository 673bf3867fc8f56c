import ShadowSpill.Library.BinaryHeap
import ShadowSpill.Library.Fenwick
import ShadowSpill.Status
import ShadowSpill.Planner.Residency.CutIndexing

/-!
# The reduction

One step takes the boundary that is furthest over its capacity, chooses the cut
that relieves it best, applies it, and lets the pressure tree absorb the change.
Pressures are words: sums and differences of bytes are taken modulo `2 ^ 64`.
-/

namespace ShadowSpill.Planner.Residency.Reduce

open ShadowSpill Library Library.Intervals Problem Spans Cuts CutIndexing

/-- `uint64_t`. -/
abbrev Word := BitVec 64

/-- `ShadowSpillPressureFitResidencyOptions`. -/
structure ReduceOptions where
  minimizeTransfer : Bool
  fetchHeadroom : Bool
  seed : Nat → List Interval
  extraPressureBytes : Nat → Nat → Nat

/-! ## The pressure tree -/

/-- The sizes of an alias's charged intervals as differences between neighbouring
boundaries. -/
def addIntervals (count : Nat) (size : Word) (row : Nat → Word)
    (intervals : List Interval) : Nat → Word :=
  intervals.foldl (fun row interval =>
    let row := Function.update row interval.start (row interval.start + size)
    if interval.finish + 1 < count then
      Function.update row (interval.finish + 1) (row (interval.finish + 1) - size)
    else row) row

/-- The differences of one device's charges. -/
def chargeDifferences (problem : ResidencyProblem) (fetchHeadroom : Bool)
    (spans : Nat → List Interval) (device : Nat) : Nat → Word :=
  (List.range problem.aliasCount).foldl (fun row aliasId =>
    if ¬ problem.mayCut aliasId ∨ problem.aliasDevice aliasId ≠ device then row
    else
      addIntervals problem.boundaryCount (BitVec.ofNat 64 (problem.aliasSizeBytes aliasId))
        row (chargedIntervals problem fetchHeadroom aliasId (spans aliasId))) fun _ => 0

/-- `shadowspill_residency_add_charges` to no pressure: the running sums of the
differences. -/
def basePressure (problem : ResidencyProblem) (fetchHeadroom : Bool)
    (spans : Nat → List Interval) (device boundary : Nat) : Word :=
  ((List.range (boundary + 1)).map
    (chargeDifferences problem fetchHeadroom spans device)).sum

/-- `pressure_build`, for one device. -/
def pressureBuild (count : Nat) (values : Nat → Word) : Nat → Word :=
  Fenwick.build count fun index =>
    values (index - 1) - (if index > 1 then values (index - 2) else 0)

/-- `shadowspill_residency_tree_pressure_at`. -/
def treePressureAt (pressure : Nat → Nat → Word) (device boundary : Nat) : Word :=
  Fenwick.prefixSum (pressure device) (boundary + 1)

/-- `shadowspill_residency_pressure_add`. -/
def pressureAdd (count : Nat) (pressure : Nat → Nat → Word) (device first last : Nat)
    (delta : Word) : Nat → Nat → Word :=
  let row := Fenwick.addFrom count (pressure device) (first + 1) delta
  Function.update pressure device <|
    if last + 1 < count then Fenwick.addFrom count row (last + 1 + 1) (-delta) else row

/-- The bytes a boundary is asked for: its pressure and the extra one. -/
def usedAt (options : ReduceOptions) (pressure : Nat → Nat → Word)
    (device boundary : Nat) : Nat :=
  (treePressureAt pressure device boundary +
    BitVec.ofNat 64 (options.extraPressureBytes device boundary)).toNat

/-! ## The boundaries in excess -/

/-- `ExcessEntry`. -/
structure ExcessEntry where
  excess : Nat
  boundary : Nat
  priority : Nat
  device : Nat
deriving DecidableEq, Repr

/-- `excess_entry_before`. -/
def excessEntryBefore (first second : ExcessEntry) : Bool :=
  if first.excess ≠ second.excess then first.excess > second.excess
  else if first.boundary ≠ second.boundary then first.boundary < second.boundary
  else if first.priority ≠ second.priority then first.priority < second.priority
  else first.device < second.device

/-- `shadowspill_residency_excess_heap_push`. -/
def excessHeapPush (entries : List ExcessEntry) (entry : ExcessEntry) : List ExcessEntry :=
  BinaryHeap.push excessEntryBefore entries entry

/-- Push a boundary that is over capacity. -/
def pushExcess (problem : ResidencyProblem) (options : ReduceOptions)
    (pressure : Nat → Nat → Word) (device boundary : Nat) (entries : List ExcessEntry) :
    List ExcessEntry :=
  let used := usedAt options pressure device boundary
  let capacity := problem.boundaryCapacityBytes device boundary
  if used ≤ capacity then entries
  else
    excessHeapPush entries ⟨used - capacity, boundary, problem.devicePriority device, device⟩

/-- `shadowspill_residency_seed_excess_heap`. -/
def seedExcessHeap (problem : ResidencyProblem) (options : ReduceOptions)
    (pressure : Nat → Nat → Word) : List ExcessEntry :=
  (List.range problem.deviceCount).foldl (fun entries device =>
    (List.range problem.boundaryCount).foldl (fun entries boundary =>
      pushExcess problem options pressure device boundary entries) entries) []

/-- `shadowspill_residency_pop_worst_boundary`, a step for each entry looked at:
the entry whose excess is still what it says, if any boundary is over capacity.
The outer nothing is a loop that was cut short. -/
def popWorstBoundary (problem : ResidencyProblem) (options : ReduceOptions)
    (pressure : Nat → Nat → Word) :
    Nat → List ExcessEntry → Option (List ExcessEntry × Option ExcessEntry)
  | 0, _ => none
  | fuel + 1, entries =>
      match entries.head? with
      | none => some (entries, none)
      | some top =>
          let used := usedAt options pressure top.device top.boundary
          let capacity := problem.boundaryCapacityBytes top.device top.boundary
          if used ≤ capacity then
            popWorstBoundary problem options pressure fuel
              (BinaryHeap.pop excessEntryBefore entries)
          else if used - capacity ≠ top.excess then
            popWorstBoundary problem options pressure fuel
              (excessHeapPush (BinaryHeap.pop excessEntryBefore entries)
                { top with excess := used - capacity })
          else some (entries, some top)

/-! ## Applying a cut -/

/-- What a reduction carries from one step to the next, and the steps it made. -/
structure Reduction where
  spans : Nat → List Interval
  pressure : Nat → Nat → Word
  active : Nat → Bool
  cursors : Nat → Nat → Nat
  entries : List ExcessEntry
  steps : List (Nat × Nat × ResidencyCut)

/-- The charged intervals of the pieces the cut left of a span, at most four. -/
def chargedPieces (problem : ResidencyProblem) (fetchHeadroom : Bool) (aliasId : Nat)
    (intervals : List Interval) (spanEnd : Nat) : Nat → Nat → List Interval
  | 0, _ => []
  | fuel + 1, cursor =>
      if cursor ≤ spanEnd then
        match next intervals cursor with
        | none => []
        | some piece =>
            if piece.start > spanEnd then []
            else
              chargeSpan problem fetchHeadroom aliasId piece ::
                chargedPieces problem fetchHeadroom aliasId intervals spanEnd fuel
                  (piece.finish + 1)
      else []

/-- The boundary before the span, when a neighbour that touches it charges it. -/
def maskLeft (problem : ResidencyProblem) (fetchHeadroom : Bool) (aliasId : Nat)
    (intervals : List Interval) (spanStart : Nat) : Option Nat :=
  if spanStart > 0 then
    match find intervals (spanStart - 1) with
    | none => none
    | some index =>
        let neighbour := intervals.getD index default
        if (chargeSpan problem fetchHeadroom aliasId neighbour).finish = spanStart - 1 then
          some (spanStart - 1)
        else none
  else none

/-- The span's last boundary, when a neighbour that touches it charges it. -/
def maskRight (problem : ResidencyProblem) (fetchHeadroom : Bool) (aliasId : Nat)
    (intervals : List Interval) (spanEnd : Nat) : Option Nat :=
  if spanEnd + 1 < problem.boundaryCount ∧ residentAt intervals (spanEnd + 1) ∧
      fetchHeadroom ∧ ¬ producedAt problem aliasId (spanEnd + 1) then
    some spanEnd
  else none

/-- The intervals a span was charged at, from `cursor` on, that no piece is. -/
def lostIntervals (beforeEnd : Nat) : List Interval → Nat → List Interval
  | [], cursor => if cursor ≤ beforeEnd then [⟨cursor, beforeEnd⟩] else []
  | piece :: rest, cursor =>
      if piece.finish < piece.start then lostIntervals beforeEnd rest cursor
      else
        (if piece.start > cursor ∧ cursor ≤ min (piece.start - 1) beforeEnd then
            [⟨cursor, min (piece.start - 1) beforeEnd⟩]
          else []) ++
          lostIntervals beforeEnd rest (max cursor (piece.finish + 1))

/-- The first masked boundary between two others. -/
def maskedBetween (left right : Option Nat) (first stop : Int) : Option Nat :=
  (left.filter fun boundary : Nat => first ≤ boundary ∧ boundary ≤ stop).or
    (right.filter fun boundary : Nat => first ≤ boundary ∧ boundary ≤ stop)

/-- The ranges of a lost interval without its reserved and masked boundaries. -/
def unmaskedRanges (left right : Option Nat) (last : Int) :
    Nat → Int → List Nat → List Interval
  | 0, _, _ => []
  | fuel + 1, first, reserved =>
      if first ≤ last then
        let stop : Int :=
          match reserved with
          | [] => last
          | point :: _ => if (point : Int) ≤ last then point - 1 else last
        match maskedBetween left right first stop with
        | some boundary =>
            (if (boundary : Int) > first then [⟨first.toNat, boundary - 1⟩] else []) ++
              unmaskedRanges left right last fuel (boundary + 1) reserved
        | none =>
            (if stop ≥ first then [⟨first.toNat, stop.toNat⟩] else []) ++
              if stop < last then unmaskedRanges left right last fuel (stop + 2) reserved.tail
              else unmaskedRanges left right last fuel (last + 1) reserved
      else []

/-- The ranges a lost interval takes the alias's size from. -/
def lostRanges (problem : ResidencyProblem) (aliasId : Nat) (left right : Option Nat)
    (lost : Interval) : List Interval :=
  let reserved := problem.reservedPositions aliasId
  unmaskedRanges left right lost.finish (lost.finish + 1 - lost.start) lost.start
    (reserved.drop (lowerBound reserved lost.start))

/-- The boundaries a piece is charged at and its span was not. -/
def gainedBoundaries (before piece : Interval) : List Nat :=
  (if piece.start < before.start then
      List.range' piece.start (min piece.finish (before.start - 1) + 1 - piece.start)
    else []) ++
    if piece.finish > before.finish then
      List.range' (max piece.start (before.finish + 1))
        (piece.finish + 1 - max piece.start (before.finish + 1))
    else []

/-- One gained boundary: its pressure rises, and it may be over capacity now. -/
def gainBoundary (problem : ResidencyProblem) (options : ReduceOptions) (aliasId : Nat)
    (left right : Option Nat)
    (state : (Nat → Nat → Word) × List ExcessEntry) (boundary : Nat) :
    (Nat → Nat → Word) × List ExcessEntry :=
  if reservedAt problem aliasId boundary ∨ left = some boundary ∨ right = some boundary then
    state
  else
    let device := problem.aliasDevice aliasId
    let pressure := pressureAdd problem.boundaryCount state.1 device boundary boundary
      (BitVec.ofNat 64 (problem.aliasSizeBytes aliasId))
    (pressure, pushExcess problem options pressure device boundary state.2)

/-- `apply_cut_and_repressure`. -/
def applyCutAndRepressure (problem : ResidencyProblem) (options : ReduceOptions)
    (geometry : Geometry) (index : CutIndex) (reduction : Reduction)
    (chosen : ResidencyCut) (chosenId : Nat) : Reduction :=
  let aliasId := chosen.aliasId
  let low := (if chosen.start > chosen.finish then chosen.finish + 1
    else chosen.start + 1).toNat
  let spans := applyCut reduction.spans chosen
  let active := Function.update
    (refreshAliasCandidates problem spans geometry index reduction.active aliasId)
    chosenId false
  match find (reduction.spans aliasId) low with
  | none => { reduction with spans := spans, active := active }
  | some spanIndex =>
      let span := (reduction.spans aliasId).getD spanIndex default
      let before := chargeSpan problem options.fetchHeadroom aliasId span
      let pieces := chargedPieces problem options.fetchHeadroom aliasId (spans aliasId)
        span.finish 4 span.start
      let left := maskLeft problem options.fetchHeadroom aliasId (spans aliasId) span.start
      let right := maskRight problem options.fetchHeadroom aliasId (spans aliasId) span.finish
      let device := problem.aliasDevice aliasId
      let size : Word := BitVec.ofNat 64 (problem.aliasSizeBytes aliasId)
      let lowered := ((lostIntervals before.finish pieces before.start).flatMap
          (lostRanges problem aliasId left right)).foldl
        (fun pressure range =>
          pressureAdd problem.boundaryCount pressure device range.start range.finish (0 - size))
        reduction.pressure
      let (pressure, entries) := (pieces.flatMap (gainedBoundaries before)).foldl
        (gainBoundary problem options aliasId left right) (lowered, reduction.entries)
      { reduction with
        spans := spans, active := active, pressure := pressure, entries := entries }

/-! ## The loop -/

/-- `ShadowSpillPressureFitResidencyResult`; the error's boundary is counted from
the task before it. -/
structure ReduceResult where
  status : Status
  errorDevice : Option Nat
  errorBoundary : Option Int
  requiredBytes : Nat
  capacityBytes : Nat
  spans : Nat → List Interval
  steps : List (Nat × Nat × ResidencyCut)

/-- `report_analytic_infeasible`. -/
def reportAnalyticInfeasible (problem : ResidencyProblem) (reduction : Reduction)
    (device boundary used : Nat) : ReduceResult where
  status := .analyticInfeasible
  errorDevice := some device
  errorBoundary := some ((boundary : Int) - 1)
  requiredBytes := used
  capacityBytes := problem.boundaryCapacityBytes device boundary
  spans := reduction.spans
  steps := reduction.steps

/-- A reduction that ended with this status and nothing to report. -/
def endWith (status : Status) (reduction : Reduction) : ReduceResult where
  status := status
  errorDevice := none
  errorBoundary := none
  requiredBytes := 0
  capacityBytes := 0
  spans := reduction.spans
  steps := reduction.steps

/-- The state after a step, or the result of the reduction when it ends there. -/
inductive StepResult where
  | continues (reduction : Reduction)
  | ends (result : ReduceResult)

/-- One round of the loop; nothing when the heap's own loop was cut short. -/
def reduceStep (problem : ResidencyProblem) (options : ReduceOptions)
    (geometry : Geometry) (index : CutIndex) (reduction : Reduction) : Option StepResult :=
  match popWorstBoundary problem options reduction.pressure
      (2 * reduction.entries.length + 1) reduction.entries with
  | none => none
  | some (entries, none) =>
      some (.ends (endWith .ok { reduction with entries := entries }))
  | some (entries, some worst) =>
      let used := usedAt options reduction.pressure worst.device worst.boundary
      match selectCut problem worst.device worst.boundary options.minimizeTransfer index
          reduction.active reduction.cursors with
      | (_, none) =>
          some (.ends (reportAnalyticInfeasible problem reduction worst.device
            worst.boundary used))
      | (cursors, some chosenId) =>
          match index.cut chosenId with
          | none => none
          | some item =>
              some (.continues (applyCutAndRepressure problem options geometry index
                { reduction with
                  entries := entries
                  cursors := cursors
                  steps := reduction.steps ++ [(worst.device, worst.boundary, item.cut)] }
                item.cut chosenId))

/-- The loop, a step for each round; nothing when it was cut short. -/
def reduceLoop (problem : ResidencyProblem) (options : ReduceOptions)
    (geometry : Geometry) (index : CutIndex) : Nat → Reduction → Option ReduceResult
  | 0, _ => none
  | fuel + 1, reduction =>
      match reduceStep problem options geometry index reduction with
      | none => none
      | some (.ends result) => some result
      | some (.continues later) => reduceLoop problem options geometry index fuel later

/-- What a reduction starts from. -/
def startReduction (problem : ResidencyProblem) (options : ReduceOptions) : Reduction :=
  let pressure := fun device => pressureBuild problem.boundaryCount
    (basePressure problem options.fetchHeadroom options.seed device)
  { spans := options.seed
    pressure := pressure
    active := fun _ => true
    cursors := fun _ _ => 0
    entries := seedExcessHeap problem options pressure
    steps := [] }

/-- `shadowspill_pressurefit_reduce_residency_reusing` with a fresh workspace, for
as many rounds as there are cuts and one more. -/
def reduceResidencyReusing (problem : ResidencyProblem) (options : ReduceOptions) :
    Option ReduceResult :=
  if problem.boundaryCount = 0 ∨ problem.deviceCount = 0 then
    some (endWith .invalidArgument ⟨options.seed, fun _ _ => 0, fun _ => false, fun _ _ => 0,
      [], []⟩)
  else
    let geometry := buildCutGeometry problem options.seed
    let index := buildCutIndex problem geometry options.seed
    reduceLoop problem options geometry index (index.cuts.length + 1)
      (startReduction problem options)

end ShadowSpill.Planner.Residency.Reduce
