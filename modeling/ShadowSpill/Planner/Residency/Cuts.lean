import ShadowSpill.Planner.Residency.Spans

/-!
# Cuts

One cut takes an alias out of residency over a range of boundaries, or ends a
span so that the alias may leave between two tasks.  This module proposes the
cut of a boundary, prices it, and takes it out of a residency.
-/

namespace ShadowSpill.Planner.Residency.Cuts

open Library Library.Intervals Problem Spans

/-- `ResidencyCut`: the boundaries `start .. finish`, counted from the task
before them, or a split after `finish` when `start` is past it. -/
structure ResidencyCut where
  aliasId : Nat
  start : Int
  finish : Int
deriving DecidableEq, Repr

/-- `CutTiming`. -/
structure CutTiming where
  priorUseEndNs : Nat
  nextUseBeginNs : Nat
  evictNs : Nat
  fetchNs : Nat
deriving DecidableEq, Repr

/-- `CutScore`: its `values` are the write-back flag, the negated size, the alias
and the start of the cut. -/
structure CutScore where
  exposedNs : Nat
  writeback : Int
  negatedSize : Int
  aliasId : Int
  start : Int
  evictExposedNs : Nat
  fetchExposedNs : Nat
  slackHigh : Int
  slackLow : Nat
deriving DecidableEq, Repr

/-! ## Scores -/

/-- One step of a lexicographic comparison. -/
def compareThen {α : Type} [LT α] [DecidableLT α] [DecidableEq α] (left right : α)
    (rest : Ordering) : Ordering :=
  if left ≠ right then (if left < right then .lt else .gt) else rest

/-- `shadowspill_residency_compare_score`: the smaller exposure, unless transfers
are minimized; then the smaller write-back flag, the larger slack, and the
smaller of the other values. -/
def compareScore (left right : CutScore) (minimizeTransfer : Bool) : Ordering :=
  let values :=
    compareThen left.writeback right.writeback <|
    compareThen right.slackHigh left.slackHigh <|
    compareThen right.slackLow left.slackLow <|
    compareThen left.negatedSize right.negatedSize <|
    compareThen left.aliasId right.aliasId <|
    compareThen left.start right.start .eq
  if minimizeTransfer then values
  else compareThen left.exposedNs right.exposedNs values

/-- A cut writes the alias back: it does not leave it in spill, and the spilled
copy is not kept or not current. -/
def needsWriteback (problem : ResidencyProblem) (cut : ResidencyCut) : Bool :=
  !problem.aliasRetainSpillCopy cut.aliasId ||
    writtenBy problem cut.aliasId cut.start.toNat

/-- `-(int64_t)size`. -/
def negatedInt64 (size : Nat) : Int :=
  (-(BitVec.ofNat 64 size)).toInt

/-- `shadowspill_residency_score_cut`. -/
def scoreCut (problem : ResidencyProblem) (cut : ResidencyCut) : CutScore where
  exposedNs := 0
  writeback := if 0 ≤ cut.start ∧ needsWriteback problem cut then 1 else 0
  negatedSize := negatedInt64 (problem.aliasSizeBytes cut.aliasId)
  aliasId := cut.aliasId
  start := cut.start
  evictExposedNs := 0
  fetchExposedNs := 0
  slackHigh := 0
  slackLow := 0

/-- `shadowspill_residency_cut_timing`. -/
def cutTiming (problem : ResidencyProblem) (cut : ResidencyCut) : CutTiming :=
  let anchors := problem.anchors cut.aliasId
  let positions := anchors.map Anchor.position
  let tasks := problem.boundaryCount - 1
  let prior := (anchors.take (lowerBound positions (cut.start + 1).toNat)).reverse.findSome?
    Anchor.latest
  let following := (anchors.drop (lowerBound positions (cut.finish + 2).toNat)).findSome?
    Anchor.earliest
  { priorUseEndNs :=
      if 0 ≤ cut.start then prior.elim 0 problem.taskIdealEndNs else 0
    nextUseBeginNs :=
      match following with
      | none => if tasks = 0 then 0 else problem.taskIdealEndNs (tasks - 1)
      | some task => if task = 0 then 0 else problem.taskIdealEndNs (task - 1)
    evictNs :=
      if 0 ≤ cut.start ∧ needsWriteback problem cut then
        problem.evictRuntimeNs cut.aliasId
      else 0
    fetchNs := problem.fetchRuntimeNs cut.aliasId }

/-- `shadowspill_residency_score_at`: exposure and slack at the boundary before
task `boundary`, the slack as the two words of the exact signed sum. -/
def scoreAt (problem : ResidencyProblem) (score : CutScore) (timing : CutTiming)
    (boundary : Nat) (minimizeTransfer : Bool) : CutScore :=
  let tasks := problem.boundaryCount - 1
  let start := if boundary = 0 then 0 else problem.taskIdealEndNs (boundary - 1)
  let finish := if boundary < tasks then problem.taskIdealEndNs boundary else start
  -- Both slacks are zero where the use lies past the boundary.
  let evictSlack := start - timing.priorUseEndNs
  let fetchSlack := timing.nextUseBeginNs - finish
  let evictExposed := timing.evictNs - evictSlack
  let fetchExposed := timing.fetchNs - fetchSlack
  let exposed :=
    if Word64.modulus - 1 - evictExposed < fetchExposed then Word64.modulus - 1
    else evictExposed + fetchExposed
  let windows := Word64.wrap (evictSlack + fetchSlack)
  let transfers := Word64.wrap (timing.evictNs + timing.fetchNs)
  { score with
    exposedNs := if minimizeTransfer then 0 else exposed
    evictExposedNs := evictExposed
    fetchExposedNs := fetchExposed
    slackHigh := (if windows < evictSlack then 1 else 0) -
      (if transfers < timing.evictNs then 1 else 0) -
      (if windows < transfers then 1 else 0)
    slackLow := Word64.wrapSub windows transfers }

/-! ## Geometry -/

/-- What the reducer keeps of its seed for each alias: the first anchored
boundary after the first one, and the runs no anchor touches. -/
structure Geometry where
  firstRequired : Nat → Option Nat
  runs : Nat → List Interval

/-- The runs of one span between its anchors, from `cursor` on. -/
def runsFrom (spanEnd : Nat) : List Nat → Nat → List Interval
  | [], cursor => if cursor ≤ spanEnd then [⟨cursor, spanEnd⟩] else []
  | anchor :: rest, cursor =>
      if cursor ≤ spanEnd then
        if anchor ≤ spanEnd then
          (if anchor > cursor then [⟨cursor, anchor - 1⟩] else []) ++
            runsFrom spanEnd rest (anchor + 1)
        else [⟨cursor, spanEnd⟩]
      else []

/-- The anchored boundaries of an alias from `start` on. -/
def anchorsFrom (problem : ResidencyProblem) (aliasId start : Nat) : List Nat :=
  let positions := (problem.anchors aliasId).map Anchor.position
  positions.drop (lowerBound positions start)

/-- `build_cut_geometry`: an alias that may not be cut has neither. -/
def buildCutGeometry (problem : ResidencyProblem) (seed : Nat → List Interval) :
    Geometry where
  firstRequired aliasId :=
    if ¬ problem.mayCut aliasId then none
    else (anchorsFrom problem aliasId 1).head?
  runs aliasId :=
    if ¬ problem.mayCut aliasId then []
    else
      (seed aliasId).flatMap fun span =>
        runsFrom span.finish (anchorsFrom problem aliasId span.start) span.start

/-- The run that holds the boundary, by bisection. -/
def runAround (runs : List Interval) (boundary : Int) : Nat → Nat → Nat → Option Interval
  | 0, _, _ => none
  | fuel + 1, low, high =>
      if low < high then
        let middle := low + (high - low) / 2
        let run := runs.getD middle default
        if boundary < run.start then runAround runs boundary fuel low middle
        else if boundary > run.finish then runAround runs boundary fuel (middle + 1) high
        else some run
      else none

/-! ## Proposing and applying -/

/-- `shadowspill_residency_resident_at`. -/
def residentAt (spans : List Interval) (boundary : Nat) : Bool :=
  (find spans boundary).isSome

/-- An alias that starts in spill, is resident from the first boundary and has no
anchor there, and its first required boundary. -/
def prefixRequired (problem : ResidencyProblem) (geometry : Geometry)
    (spans : List Interval) (aliasId : Nat) : Option Nat :=
  if residentAt spans 0 ∧ problem.initialLocation aliasId = some .spill ∧
      anchorAt problem aliasId 0 = none then
    geometry.firstRequired aliasId
  else none

/-- `shadowspill_residency_candidate_cut`. -/
def candidateCut (problem : ResidencyProblem) (geometry : Geometry)
    (spans : List Interval) (aliasId : Nat) (boundary : Int) : Option ResidencyCut :=
  let index := (boundary + 1).toNat
  match find spans index with
  | none => none
  | some span =>
      match (prefixRequired problem geometry spans aliasId).filter (index < ·) with
      | some required => some ⟨aliasId, -1, (required : Int) - 2⟩
      | none =>
          match anchorAt problem aliasId index with
          | none =>
              let runs := geometry.runs aliasId
              match runAround runs index runs.length 0 runs.length with
              | none => none
              | some run =>
                  -- A run at the first boundary has no task to leave at.
                  if (run.start : Int) - 1 ≤ -1 then none
                  else some ⟨aliasId, (run.start : Int) - 1, (run.finish : Int) - 1⟩
          | some anchor =>
              let connectedAfter := (spans.getD span default).finish > index
              if connectedAfter ∧ ∀ task ∈ anchor.latest, (task : Int) ≤ boundary then
                if boundary + 1 ≤ -1 then none
                else some ⟨aliasId, boundary + 1, boundary⟩
              else none

/-- `shadowspill_residency_apply_cut`. -/
def applyCut (spans : Nat → List Interval) (cut : ResidencyCut) : Nat → List Interval :=
  Function.update spans cut.aliasId <|
    if cut.start > cut.finish then
      splitAfter (spans cut.aliasId) (cut.finish + 1).toNat
    else clear (cut.start + 1).toNat (cut.finish + 1).toNat (spans cut.aliasId)

end ShadowSpill.Planner.Residency.Cuts
