import ShadowSpill.Planner.Residency.AliasLists
import ShadowSpill.Reference.ResidencyFacts

/-!
# The readable boundary facts

The reference collects what a program says about each alias into sets, one boundary lower
than the lists: an input or a mutation touches the boundary before its task, an output or
a mutation the one after.
-/

namespace ShadowSpill.Reference.BoundaryFacts

open Ir.Program Ir.Indexing Planner.Residency.Problem

/-- What `build_facts` collects of boundaries. -/
structure AliasFacts where
  anchors : Nat → Finset Int
  accessEvents : Nat → Finset (Int × Nat)
  productionBoundaries : Nat → Finset Int
  writeBoundaries : Nat → Finset Int
  outputReservations : List (List Nat)
  inputTasks : Nat → List Nat

/-- The aliases of some objects, less `zero_aliases`. -/
def sizedAliases (program : ShadowSpillProgram) (objects : List String) : Finset Nat :=
  ((objects.map (objectAlias program)).filter fun aliasId =>
    aliasSize program aliasId ≠ 0).toFinset

/-- Add a value to the sets of some aliases. -/
def addTo {α : Type} [DecidableEq α] (aliases : Finset Nat) (value : α)
    (sets : Nat → Finset α) : Nat → Finset α :=
  fun aliasId => if aliasId ∈ aliases then insert value (sets aliasId) else sets aliasId

/-- One task. -/
def addTask (program : ShadowSpillProgram) (facts : AliasFacts) (entry : TaskSpec × Nat) :
    AliasFacts :=
  let index := entry.2
  let before : Int := (index : Int) - 1
  let inputs := sizedAliases program entry.1.inputs
  let outputs := sizedAliases program entry.1.outputs
  let mutations := sizedAliases program (entry.1.mutations.map (·.objectId))
  { anchors := addTo mutations (index : Int)
      (addTo outputs (index : Int) (addTo (inputs ∪ mutations) before facts.anchors))
    accessEvents := addTo outputs ((index : Int), index)
      (addTo (inputs ∪ mutations) (before, index) facts.accessEvents)
    productionBoundaries := addTo outputs (index : Int) facts.productionBoundaries
    writeBoundaries := addTo mutations (index : Int)
      (addTo outputs (index : Int) facts.writeBoundaries)
    outputReservations := facts.outputReservations ++
      [(outputs.filter fun aliasId => aliasId ∉ inputs ∧ aliasId ∉ mutations).sort]
    inputTasks := fun aliasId =>
      if aliasId ∈ inputs then facts.inputTasks aliasId ++ [index]
      else facts.inputTasks aliasId }

/-- The aliases held on the device at a boundary, before or after everything. -/
def addHeld (program : ShadowSpillProgram) (location : Nat → Option MemoryLocation)
    (boundary : Int) (facts : AliasFacts) : AliasFacts :=
  { facts with
    anchors := fun aliasId =>
      if location aliasId = some .device ∧ aliasSize program aliasId ≠ 0 then
        insert boundary (facts.anchors aliasId)
      else facts.anchors aliasId }

def noFacts : AliasFacts where
  anchors := fun _ => ∅
  accessEvents := fun _ => ∅
  productionBoundaries := fun _ => ∅
  writeBoundaries := fun _ => ∅
  outputReservations := []
  inputTasks := fun _ => []

/-- `build_facts`, as far as boundaries go. -/
def buildFacts (program : ShadowSpillProgram) (tasks : List TaskSpec)
    (initialLocation finalLocation : Nat → Option MemoryLocation) : AliasFacts :=
  let facts := addHeld program initialLocation (-1) noFacts
  let facts := tasks.zipIdx.foldl (addTask program) facts
  addHeld program finalLocation ((tasks.length : Int) - 1) facts

end ShadowSpill.Reference.BoundaryFacts
