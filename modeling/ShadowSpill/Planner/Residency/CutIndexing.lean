import ShadowSpill.Library.LeafTree
import ShadowSpill.Planner.Residency.Cuts

/-!
# The index of the cuts

Every cut the seed admits, in the order of the boundaries each alias yields it
at, is recorded on the nodes of its device's tree that cover the boundaries it
relieves.  A node lists its cuts in the order of the strategy, and remembers how
far it has been scanned.
-/

namespace ShadowSpill.Planner.Residency.CutIndexing

open Library Library.Intervals Problem Spans Cuts

/-- `IndexedCut`: a cut and the boundaries it relieves. -/
structure IndexedCut where
  cut : ResidencyCut
  score : CutScore
  timing : CutTiming
  firstBoundary : Nat
  lastBoundary : Nat
deriving DecidableEq, Repr

/-! ## The cuts of one alias -/

/-- `append_indexed_cut`. -/
def indexedCut (problem : ResidencyProblem) (cut : ResidencyCut)
    (firstBoundary lastBoundary : Nat) : IndexedCut where
  cut := cut
  score := scoreCut problem cut
  timing := cutTiming problem cut
  firstBoundary := firstBoundary
  lastBoundary := lastBoundary

/-- `CutStretch`: the boundaries gathered so far that yield one cut. -/
structure CutStretch where
  current : ResidencyCut
  first : Nat
  last : Nat
deriving DecidableEq, Repr

/-- The cuts indexed so far, and the open stretch. -/
structure Gathering where
  cuts : List IndexedCut
  stretch : Option CutStretch

/-- `offer_cut_stretch`: a stretch that continues the open one with the same cut
extends it; anything else closes the open one and starts afresh. -/
def offerCutStretch (problem : ResidencyProblem) (gathering : Gathering)
    (first last : Nat) (candidate : Option ResidencyCut) : Gathering :=
  match gathering.stretch, candidate with
  | some opened, some cut =>
      if cut = opened.current ∧ first = opened.last + 1 then
        { gathering with stretch := some { opened with last := last } }
      else
        ⟨gathering.cuts ++ [indexedCut problem opened.current opened.first opened.last],
          some ⟨cut, first, last⟩⟩
  | some opened, none =>
      ⟨gathering.cuts ++ [indexedCut problem opened.current opened.first opened.last], none⟩
  | none, some cut => { gathering with stretch := some ⟨cut, first, last⟩ }
  | none, none => gathering

/-- The stretches of one anchor-free run: it is broken where the boundaries that
yield the prefix cut end. -/
def runStretches (prefixEnd first last : Nat) : List Interval :=
  if first < prefixEnd ∧ prefixEnd ≤ last then
    [⟨first, prefixEnd - 1⟩, ⟨prefixEnd, last⟩]
  else [⟨first, last⟩]

/-- The stretches of one span from `boundary` on: its anchors, and the runs
between them. -/
def spanStretches (prefixEnd spanEnd : Nat) : List Nat → Nat → List Interval
  | [], boundary =>
      if boundary ≤ spanEnd then runStretches prefixEnd boundary spanEnd else []
  | anchor :: rest, boundary =>
      if boundary ≤ spanEnd then
        if anchor ≤ spanEnd then
          (if anchor > boundary then runStretches prefixEnd boundary (anchor - 1) else []) ++
            ⟨anchor, anchor⟩ :: spanStretches prefixEnd spanEnd rest (anchor + 1)
        else runStretches prefixEnd boundary spanEnd
      else []

/-- The stretches of an alias's seed spans. -/
def aliasStretches (problem : ResidencyProblem) (geometry : Geometry)
    (seed : Nat → List Interval) (aliasId : Nat) : List Interval :=
  let prefixEnd := (prefixRequired problem geometry (seed aliasId) aliasId).getD 0
  (seed aliasId).flatMap fun span =>
    spanStretches prefixEnd span.finish (anchorsFrom problem aliasId span.start) span.start

/-- `index_alias_cuts`: each stretch offers the cut of its first boundary. -/
def indexAliasCuts (problem : ResidencyProblem) (geometry : Geometry)
    (seed : Nat → List Interval) (aliasId : Nat) : List IndexedCut :=
  let gathered := (aliasStretches problem geometry seed aliasId).foldl
    (fun gathering stretch =>
      offerCutStretch problem gathering stretch.start stretch.finish
        (candidateCut problem geometry (seed aliasId) aliasId ((stretch.start : Int) - 1)))
    ⟨[], none⟩
  (offerCutStretch problem gathered 0 0 none).cuts

/-! ## The index -/

/-- `CutIndex`: the cuts alias by alias, and the cuts of each node of a device's
tree in the order of each mode. -/
structure CutIndex where
  cuts : List IndexedCut
  aliasOffsets : Nat → Nat
  leafBase : Nat
  refs : Bool → Nat → Nat → List Nat

/-- The cut of an identifier. -/
def CutIndex.cut (index : CutIndex) (cutId : Nat) : Option IndexedCut :=
  index.cuts[cutId]?

/-- `cut_ref_compare`: by score, then by identifier. -/
def cutRefBefore (cuts : List IndexedCut) (minimizeTransfer : Bool) (left right : Nat) :
    Bool :=
  match cuts[left]?, cuts[right]? with
  | some leftCut, some rightCut =>
      match compareScore leftCut.score rightCut.score minimizeTransfer with
      | .lt => true
      | .gt => false
      | .eq => left ≤ right
  | _, _ => left ≤ right

/-- The cuts of the aliases below `aliasId`, in order. -/
def cutsBelow (problem : ResidencyProblem) (geometry : Geometry)
    (seed : Nat → List Interval) (aliasId : Nat) : List IndexedCut :=
  (List.range aliasId).flatMap fun earlier =>
    if ¬ problem.mayCut earlier then [] else indexAliasCuts problem geometry seed earlier

/-- `build_cut_index`. -/
def buildCutIndex (problem : ResidencyProblem) (geometry : Geometry)
    (seed : Nat → List Interval) : CutIndex :=
  let cuts := cutsBelow problem geometry seed problem.aliasCount
  let leafBase := LeafTree.leafBase problem.boundaryCount problem.boundaryCount 1
  { cuts := cuts
    aliasOffsets := fun aliasId => (cutsBelow problem geometry seed aliasId).length
    leafBase := leafBase
    refs := fun mode device node =>
      ((List.range cuts.length).mergeSort (cutRefBefore cuts mode)).filter fun cutId =>
        cuts[cutId]?.any fun item =>
          problem.aliasDevice item.cut.aliasId = device &&
            node ∈ LeafTree.coverNodes (leafBase + 1) (leafBase + item.firstBoundary)
              (leafBase + item.lastBoundary + 1) }

/-! ## Selection -/

/-- Keep the better of the best cut so far and an active one. -/
def considerCut (problem : ResidencyProblem) (index : CutIndex) (boundary : Nat)
    (minimizeTransfer : Bool) (active : Nat → Bool) (best : Option (Nat × CutScore))
    (cutId : Nat) : Option (Nat × CutScore) :=
  match index.cut cutId with
  | none => best
  | some item =>
      if ¬ active cutId then best
      else
        let score := scoreAt problem item.score item.timing boundary minimizeTransfer
        match best with
        | none => some (cutId, score)
        | some (bestId, bestScore) =>
            match compareScore score bestScore minimizeTransfer with
            | .lt => some (cutId, score)
            | .eq => if cutId < bestId then some (cutId, score) else best
            | .gt => best

/-- One node of the way to the root: its cursor passes the cuts that have gone
inactive, and the cuts from there on are considered. -/
def scanNode (problem : ResidencyProblem) (index : CutIndex) (device boundary : Nat)
    (minimizeTransfer : Bool) (active : Nat → Bool)
    (state : (Nat → Nat → Nat) × Option (Nat × CutScore)) (node : Nat) :
    (Nat → Nat → Nat) × Option (Nat × CutScore) :=
  let refs := index.refs minimizeTransfer device node
  let cursor := state.1 device node
  let passed := ((refs.drop cursor).takeWhile fun cutId => ¬ active cutId).length
  (Function.update state.1 device (Function.update (state.1 device) node (cursor + passed)),
    (refs.drop (cursor + passed)).foldl
      (considerCut problem index boundary minimizeTransfer active) state.2)

/-- `shadowspill_residency_select_cut`: the moved cursors, and the best active cut
that relieves the boundary. -/
def selectCut (problem : ResidencyProblem) (device boundary : Nat)
    (minimizeTransfer : Bool) (index : CutIndex) (active : Nat → Bool)
    (cursors : Nat → Nat → Nat) : (Nat → Nat → Nat) × Option Nat :=
  let scanned := (LeafTree.pathToRoot (index.leafBase + boundary)
      (index.leafBase + boundary)).foldl
    (scanNode problem index device boundary minimizeTransfer active) (cursors, none)
  (scanned.1, scanned.2.map Prod.fst)

/-- `shadowspill_residency_refresh_alias_candidates`. -/
def refreshAliasCandidates (problem : ResidencyProblem) (spans : Nat → List Interval)
    (geometry : Geometry) (index : CutIndex) (active : Nat → Bool) (aliasId : Nat) :
    Nat → Bool := fun cutId =>
  if index.aliasOffsets aliasId ≤ cutId ∧ cutId < index.aliasOffsets (aliasId + 1) then
    (index.cut cutId).any fun item =>
      candidateCut problem geometry (spans aliasId) aliasId
        ((item.firstBoundary : Int) - 1) = some item.cut
  else active cutId

end ShadowSpill.Planner.Residency.CutIndexing
