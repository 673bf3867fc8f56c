import ShadowSpill.Planner.Residency.Problem

/-!
# The readable reducer

The reference looks at every boundary of every device in each round, lists the
legal cuts of the worst one from the residency as it is, and takes the best.  Its
boundaries are counted from the task before them, the first one being `-1`, and its
numbers are unbounded.
-/

namespace ShadowSpill.Reference.Residency

open Planner.Residency.Problem

/-- `Span`. -/
structure Span where
  start : Int
  finish : Int
deriving DecidableEq, Repr

/-- `Span.contains`. -/
def Span.contains (span : Span) (boundary : Int) : Bool :=
  span.start ≤ boundary && boundary ≤ span.finish

/-- `Cut`. -/
structure Cut where
  aliasId : Nat
  spanIndex : Nat
  start : Int
  finish : Int
deriving DecidableEq, Repr

/-- `PlanningFacts`, with the bandwidths of its configuration: `taskCount` is the
number of tasks, and `devices` lists the keys of the capacities. -/
structure PlanningFacts where
  aliasCount : Nat
  taskCount : Nat
  devices : List String
  aliasSizes : Nat → Nat
  aliasDevices : Nat → String
  aliasRetainSpillCopy : Nat → Bool
  finalLocations : Nat → Option MemoryLocation
  anchors : Nat → Finset Int
  accessEvents : Nat → Finset (Int × Nat)
  productionBoundaries : Nat → Finset Int
  writeBoundaries : Nat → Finset Int
  outputReservations : Nat → List Nat
  objectCapacityByBoundary : String → Nat → Nat
  taskIdealEndNs : Nat → Nat
  fetchBandwidth : String → Nat
  evictBandwidth : String → Nat

/-- `ResidencyPlan.spans`; the anchors of a plan are those of its facts. -/
abbrev ResidencyPlan := Nat → List Span

/-- `seed_residency`: the hull of the anchors. -/
def seedResidency (facts : PlanningFacts) : ResidencyPlan := fun aliasId =>
  if nonempty : (facts.anchors aliasId).Nonempty then
    [⟨(facts.anchors aliasId).min' nonempty, (facts.anchors aliasId).max' nonempty⟩]
  else []

/-! ## Pressure -/

/-- Some access from within the span is by a task after the boundary. -/
def hasFutureAccess (facts : PlanningFacts) (aliasId : Nat) (span : Span) (finish : Int) :
    Prop :=
  ∃ event ∈ facts.accessEvents aliasId, (event.2 : Int) > finish ∧
    span.start ≤ event.1 ∧ event.1 ≤ span.finish

instance (facts : PlanningFacts) (aliasId : Nat) (span : Span) (finish : Int) :
    Decidable (hasFutureAccess facts aliasId span finish) :=
  inferInstanceAs (Decidable (∃ event ∈ facts.accessEvents aliasId, _))

/-- `_charged_span`. -/
def chargedSpan (facts : PlanningFacts) (fetchHeadroom : Bool) (aliasId : Nat)
    (span : Span) : Option Span :=
  let start :=
    if fetchHeadroom ∧ span.start > -1 ∧
        span.start ∉ facts.productionBoundaries aliasId then span.start - 1
    else span.start
  let finish :=
    if span.finish ≥ 0 ∧ facts.finalLocations aliasId ≠ some .device ∧
        ¬ hasFutureAccess facts aliasId span span.finish then span.finish - 1
    else span.finish
  if finish < start then none else some ⟨start, finish⟩

/-- The charged spans of an alias. -/
def chargedSpans (facts : PlanningFacts) (fetchHeadroom : Bool) (aliasId : Nat)
    (spans : List Span) : List Span :=
  spans.filterMap (chargedSpan facts fetchHeadroom aliasId)

/-- The difference that the charged spans of a device's aliases leave at an index. -/
def differenceAt (facts : PlanningFacts) (fetchHeadroom : Bool) (plan : ResidencyPlan)
    (device : String) (index : Nat) : Int :=
  ((List.range facts.aliasCount).map fun aliasId =>
    if facts.aliasDevices aliasId = device then
      ((chargedSpans facts fetchHeadroom aliasId (plan aliasId)).map fun interval =>
        (if interval.start + 1 = (index : Int) then (facts.aliasSizes aliasId : Int) else 0) -
          if interval.finish + 1 + 1 = (index : Int) then (facts.aliasSizes aliasId : Int)
          else 0).sum
    else 0).sum

/-- `_pressure_by_device`: the running sums of the differences, and the reservations of
the aliases that no charged span holds there. -/
def pressureByDevice (facts : PlanningFacts) (fetchHeadroom : Bool) (plan : ResidencyPlan)
    (device : String) (index : Nat) : Int :=
  ((List.range (index + 1)).map (differenceAt facts fetchHeadroom plan device)).sum +
    if index < facts.taskCount then
      ((facts.outputReservations index).map fun aliasId =>
        if facts.aliasDevices aliasId = device ∧
            ¬ (chargedSpans facts fetchHeadroom aliasId (plan aliasId)).any fun span =>
              span.contains ((index : Int) - 1) then (facts.aliasSizes aliasId : Int)
        else 0).sum
    else 0

/-- An alias contributes to a boundary: it is reserved or charged there. -/
def contributes (facts : PlanningFacts) (fetchHeadroom : Bool) (aliasId : Nat)
    (spans : List Span) (index : Nat) : Bool :=
  (index < facts.taskCount && aliasId ∈ facts.outputReservations index) ||
    (chargedSpans facts fetchHeadroom aliasId spans).any fun span =>
      span.contains ((index : Int) - 1)

/-- `_update_pressure_for_alias`. -/
def updatePressureForAlias (facts : PlanningFacts) (fetchHeadroom : Bool)
    (previous current : ResidencyPlan) (aliasId : Nat) (pressure : String → Nat → Int)
    (device : String) (index : Nat) : Int :=
  if device = facts.aliasDevices aliasId ∧ index ≤ facts.taskCount then
    pressure device index + facts.aliasSizes aliasId *
      ((contributes facts fetchHeadroom aliasId (current aliasId) index).toNat -
        (contributes facts fetchHeadroom aliasId (previous aliasId) index).toNat)
  else pressure device index

/-! ## Legal cuts -/

/-- The first boundary of the gap, from a boundary in it downwards. -/
def gapStart (anchors : Finset Int) (low : Int) : Nat → Int → Int
  | 0, start => start
  | fuel + 1, start =>
      if start > low ∧ start - 1 ∉ anchors then gapStart anchors low fuel (start - 1)
      else start

/-- The last boundary of the gap, from a boundary in it upwards. -/
def gapFinish (anchors : Finset Int) (high : Int) : Nat → Int → Int
  | 0, finish => finish
  | fuel + 1, finish =>
      if finish < high ∧ finish + 1 ∉ anchors then gapFinish anchors high fuel (finish + 1)
      else finish

/-- `_gap_containing`. -/
def gapContaining (anchors : Finset Int) (span : Span) (boundary : Int) :
    Option (Int × Int) :=
  if boundary ∈ anchors ∨ ¬ span.contains boundary then none
  else
    some (gapStart anchors span.start (boundary - span.start).toNat boundary,
      gapFinish anchors span.finish (span.finish - boundary).toNat boundary)

/-- A span may end at an anchored boundary that no later task accesses it at. -/
def canSplitAfter (facts : PlanningFacts) (aliasId : Nat) (span : Span) (boundary : Int) :
    Prop :=
  span.contains boundary ∧ boundary ∈ facts.anchors aliasId ∧ boundary < span.finish ∧
    ¬ ∃ event ∈ facts.accessEvents aliasId, event.1 = boundary ∧ (event.2 : Int) > boundary

instance (facts : PlanningFacts) (aliasId : Nat) (span : Span) (boundary : Int) :
    Decidable (canSplitAfter facts aliasId span boundary) :=
  inferInstanceAs (Decidable (_ ∧ _))

/-- The cut of one span at a boundary. -/
def spanCut (facts : PlanningFacts) (boundary : Int) (aliasId : Nat) (item : Span × Nat) :
    Option Cut :=
  match gapContaining (facts.anchors aliasId) item.1 boundary with
  | none =>
      if canSplitAfter facts aliasId item.1 boundary then
        if boundary + 1 ≤ -1 then none else some ⟨aliasId, item.2, boundary + 1, boundary⟩
      else none
  | some (start, finish) =>
      if start ≤ -1 then none else some ⟨aliasId, item.2, start, finish⟩

/-- `legal_cuts`. -/
def legalCuts (facts : PlanningFacts) (plan : ResidencyPlan) (boundary : Int)
    (device : String) : List Cut :=
  (List.range facts.aliasCount).flatMap fun aliasId =>
    if facts.aliasDevices aliasId ≠ device then []
    else (plan aliasId).zipIdx.filterMap (spanCut facts boundary aliasId)

/-! ## Scores -/

/-- `_transfer_runtime_ns`. -/
def transferRuntimeNs (facts : PlanningFacts) (aliasId : Nat) (toDevice : Bool) : Nat :=
  let device := facts.aliasDevices aliasId
  let bandwidth := if toDevice then facts.fetchBandwidth device else facts.evictBandwidth device
  (facts.aliasSizes aliasId * 1000000000 + bandwidth - 1) / bandwidth

/-- `_writeback_required`. -/
def writebackRequired (facts : PlanningFacts) (cut : Cut) : Prop :=
  ¬ facts.aliasRetainSpillCopy cut.aliasId = true ∨
    ∃ boundary ∈ facts.writeBoundaries cut.aliasId, boundary ≤ cut.start - 1

instance (facts : PlanningFacts) (cut : Cut) : Decidable (writebackRequired facts cut) :=
  inferInstanceAs (Decidable (_ ∨ _))

/-- The tasks of the accesses at the positions that satisfy a condition. -/
def tasksAt (facts : PlanningFacts) (aliasId : Nat) (holds : Int → Bool) : Finset Nat :=
  ((facts.accessEvents aliasId).filter fun event => holds event.1).image Prod.snd

/-- `_cut_score`. -/
def cutScore (facts : PlanningFacts) (minimizeTransfer : Bool) (boundary : Int) (cut : Cut) :
    List Int :=
  let fetchNs := transferRuntimeNs facts cut.aliasId true
  let writeback := cut.start ≥ 0 ∧ writebackRequired facts cut
  let evictNs := if writeback then transferRuntimeNs facts cut.aliasId false else 0
  let previous := tasksAt facts cut.aliasId (· < cut.start)
  let following := tasksAt facts cut.aliasId (· > cut.finish)
  let priorEnd :=
    if some : previous.Nonempty then facts.taskIdealEndNs (previous.max' some) else 0
  let nextTask := if some : following.Nonempty then following.min' some else facts.taskCount
  let nextBegin := if nextTask ≠ 0 then facts.taskIdealEndNs (nextTask - 1) else 0
  let currentBegin := if boundary ≥ 0 then facts.taskIdealEndNs boundary.toNat else 0
  let currentEnd :=
    if boundary + 1 < facts.taskCount then facts.taskIdealEndNs (boundary + 1).toNat
    else currentBegin
  let evictSlack : Int := max 0 ((currentBegin : Int) - priorEnd)
  let fetchSlack : Int := max 0 ((nextBegin : Int) - currentEnd)
  let exposed : Int := min (2 ^ 64 - 1)
    (max 0 ((evictNs : Int) - evictSlack) + max 0 ((fetchNs : Int) - fetchSlack))
  let slack : Int := evictSlack - evictNs + fetchSlack - fetchNs
  let common : List Int :=
    [if writeback then 1 else 0, -slack, -(facts.aliasSizes cut.aliasId : Int), cut.aliasId,
      cut.start]
  if minimizeTransfer then common else exposed :: common

/-- `min(cuts, key=score)`: the first of the least. -/
def firstMin (score : Cut → List Int) : List Cut → Option Cut
  | [] => none
  | cut :: rest =>
      some (rest.foldl (fun best other => if score other < score best then other else best) cut)

/-! ## The loop -/

/-- `apply_cut`, for the spans of the cut's alias. -/
def cutSpans (spans : List Span) (cut : Cut) : List Span :=
  match spans[cut.spanIndex]? with
  | none => spans
  | some original =>
      (spans.eraseIdx cut.spanIndex ++
        ((if original.start < cut.start then [Span.mk original.start (cut.start - 1)]
          else []) ++
          if cut.finish < original.finish then [Span.mk (cut.finish + 1) original.finish]
          else [])).insertionSort fun first second =>
            first.start < second.start ∨ first.start = second.start ∧
              first.finish ≤ second.finish

/-- `apply_cut`. -/
def applyCut (plan : ResidencyPlan) (cut : Cut) : ResidencyPlan :=
  Function.update plan cut.aliasId (cutSpans (plan cut.aliasId) cut)

/-- A boundary over its capacity. -/
structure Selected where
  device : String
  boundary : Int
  excess : Int
  used : Int
deriving DecidableEq, Repr

/-- `(-excess, boundary, device_id)` of one boundary goes before that of another. -/
def Selected.before (first second : Selected) : Prop :=
  -first.excess < -second.excess ∨ first.excess = second.excess ∧
    (first.boundary < second.boundary ∨ first.boundary = second.boundary ∧
      first.device < second.device)

instance (first second : Selected) : Decidable (first.before second) :=
  inferInstanceAs (Decidable (_ ∨ _))

/-- Keep the worse of the selected boundary and another. -/
def selectWorse (facts : PlanningFacts) (additions : String → Int → Nat)
    (pressure : String → Nat → Int) (index : Nat) (selected : Option Selected)
    (device : String) : Option Selected :=
  let boundary := (index : Int) - 1
  let used := pressure device index + additions device boundary
  let capacity := facts.objectCapacityByBoundary device index
  if used ≤ capacity then selected
  else
    let candidate : Selected := ⟨device, boundary, used - capacity, used⟩
    match selected with
    | none => some candidate
    | some best => if candidate.before best then some candidate else selected

/-- The worst boundary of all. -/
def selectWorst (facts : PlanningFacts) (additions : String → Int → Nat)
    (pressure : String → Nat → Int) : Option Selected :=
  (List.range (facts.taskCount + 1)).foldl (fun selected index =>
    facts.devices.foldl (selectWorse facts additions pressure index) selected) none

/-- `PlanInfeasibleError` of kind `analytic_capacity`. -/
structure AnalyticCapacity where
  device : String
  boundary : Int
  boundaryTask : Option Nat
  requiredBytes : Int
  capacityBytes : Nat
deriving DecidableEq, Repr

/-- What a reduction returns or raises. -/
inductive Outcome where
  | plan (spans : ResidencyPlan)
  | infeasible (error : AnalyticCapacity)

/-- The error of a boundary that no cut relieves. -/
def noLegalCut (facts : PlanningFacts) (selected : Selected) : AnalyticCapacity where
  device := selected.device
  boundary := selected.boundary
  boundaryTask :=
    if 0 ≤ selected.boundary + 1 ∧ selected.boundary + 1 < facts.taskCount then
      some (selected.boundary + 1).toNat
    else none
  requiredBytes := selected.used
  capacityBytes :=
    facts.objectCapacityByBoundary selected.device (selected.boundary + 1).toNat

/-- The rounds of `reduce_pressure` with the steps it makes; nothing when the loop is
cut short. -/
def reduceRounds (facts : PlanningFacts) (minimizeTransfer fetchHeadroom : Bool)
    (additions : String → Int → Nat) :
    Nat → ResidencyPlan → (String → Nat → Int) → List (String × Int × Cut) →
      Option (Outcome × List (String × Int × Cut))
  | 0, _, _, _ => none
  | fuel + 1, plan, pressure, steps =>
      match selectWorst facts additions pressure with
      | none => some (.plan plan, steps)
      | some selected =>
          let cuts := legalCuts facts plan selected.boundary selected.device
          match firstMin (cutScore facts minimizeTransfer selected.boundary) cuts with
          | none => some (.infeasible (noLegalCut facts selected), steps)
          | some chosen =>
              let current := applyCut plan chosen
              reduceRounds facts minimizeTransfer fetchHeadroom additions fuel current
                (updatePressureForAlias facts fetchHeadroom plan current chosen.aliasId pressure)
                (steps ++ [(selected.device, selected.boundary, chosen)])

/-- `reduce_pressure`. -/
def reducePressure (facts : PlanningFacts) (minimizeTransfer fetchHeadroom : Bool)
    (additions : String → Int → Nat) (fuel : Nat) (seed : ResidencyPlan) :
    Option (Outcome × List (String × Int × Cut)) :=
  reduceRounds facts minimizeTransfer fetchHeadroom additions fuel seed
    (pressureByDevice facts fetchHeadroom seed) []

end ShadowSpill.Reference.Residency
