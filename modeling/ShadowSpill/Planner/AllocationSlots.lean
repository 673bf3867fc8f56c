import ShadowSpill.Library.PointerJumping
import ShadowSpill.Library.SortedLookup
import ShadowSpill.Planner.AdmissionSpecs

/-!
# The slots of the allocation steps

The allocation steps of the selected tasks are gathered from columns in compiled order.  An
allocation that takes over nothing gets the next slot, and every other step gets the slot of
the allocation that it names; allocations are found by a 64-bit key of task and ordinal.
-/

namespace ShadowSpill.Planner.AllocationSlots

open Library.PointerJumping Library.SortedLookup AdmissionSpecs

/-! ## Arrays -/

/-- Running sums, from a first value on. -/
def sumsFrom : Nat → List Nat → List Nat
  | base, [] => [base]
  | base, count :: rest => base :: sumsFrom (base + count) rest

/-- `np.cumsum`, after a leading zero. -/
def sums (counts : List Nat) : List Nat :=
  sumsFrom 0 counts

/-- `np.repeat`. -/
def repeatEach {α : Type} (values : List α) (counts : List Nat) : List α :=
  (values.zip counts).flatMap fun pair => List.replicate pair.2 pair.1

/-- `np.diff`. -/
def differences (offsets : List Nat) : List Nat :=
  List.zipWith (fun first second => second - first) offsets offsets.tail

/-- `np.flatnonzero`. -/
def flatNonzero (flags : List Bool) : List Nat :=
  (List.range flags.length).filter fun index => flags.getD index false

/-- The value of an `int64` after an operation. -/
def toInt64 (exact : Int) : Int :=
  exact.bmod (2 ^ 64)

/-- `max` of an array that is not empty. -/
def maximum (values : List Int) : Int :=
  values.foldl max (values.headD 0)

/-! ## Columns -/

/-- The columns of `TaskColumns` that hold integers of the tasks, and those that the slots
depend on.  The offsets, and the positions of the alias names, always fit. -/
structure TaskColumns where
  workspaceExtents : List Int
  stepOffsets : List Nat
  stepOrdinals : List Int
  stepAllocates : List Bool
  stepBytes : List Int
  stepReuses : List Int

/-- A Python integer as an array element; one that does not fit raises. -/
def integer (value : Nat) : Option Int :=
  if value < 2 ^ 63 then some value else none

/-- An absent field is `-1`. -/
def optionalInteger : Option Nat → Option Int
  | none => some (-1)
  | some value => integer value

/-- `task_columns`. -/
def taskColumns (tasks : List TaskAdmissionSpec) : Option TaskColumns := do
  let steps := tasks.flatMap (·.allocationSteps)
  let reuses ← steps.mapM fun step => optionalInteger step.reusesAllocationOrdinal
  let extents ← (tasks.flatMap (·.workspaceExtents)).mapM integer
  let ordinals ← steps.mapM fun step => integer step.allocationOrdinal
  let bytes ← steps.mapM fun step => integer step.chargedBytes
  some {
    workspaceExtents := extents
    stepOffsets := sums (tasks.map (·.allocationSteps.length))
    stepOrdinals := ordinals
    stepAllocates := steps.map fun step => decide (step.kind = .allocate)
    stepBytes := bytes
    stepReuses := reuses }

/-- `_gather`. -/
def gather (offsets order : List Nat) : List Nat × List Nat :=
  let starts := order.map fun task => offsets.getD task 0
  let lengths := order.map fun task => offsets.getD (task + 1) 0 - offsets.getD task 0
  let gathered := sums lengths
  let shifts := List.zipWith (fun (start before : Nat) => (start : Int) - before) starts gathered
  (gathered, List.zipWith (fun (shift : Int) (index : Nat) => (shift + index).toNat)
    (repeatEach shifts lengths) (List.range (gathered.getLastD 0)))

/-! ## Slots -/

/-- One gathered step, with the place of its task in the compiled order. -/
structure Row where
  task : Nat
  ordinal : Int
  allocates : Bool
  reuse : Int
  deriving DecidableEq, Repr

def rowsOf (columns : TaskColumns) (offsets steps : List Nat) : List Row :=
  List.zipWith (fun task step =>
      { task := task
        ordinal := columns.stepOrdinals.getD step 0
        allocates := columns.stepAllocates.getD step false
        reuse := columns.stepReuses.getD step 0 })
    (repeatEach (List.range (offsets.length - 1)) (differences offsets)) steps

/-- An allocation that takes over no other's range. -/
def Row.fresh (row : Row) : Bool :=
  row.allocates && row.reuse < 0

/-- The slots of the fresh allocations, in order, and `-1` elsewhere. -/
def freshSlots : Nat → List Row → List Int
  | _, [] => []
  | next, row :: rest =>
    if row.fresh then (next : Int) :: freshSlots (next + 1) rest
    else -1 :: freshSlots next rest

def span (rows : List Row) : Int :=
  max (maximum (rows.map (·.ordinal))) (maximum (rows.map (·.reuse))) + 1

/-- The key of an ordinal in a task. -/
def keyOf (rows : List Row) (task : Nat) (ordinal : Int) : Int :=
  toInt64 (task * span rows + ordinal)

/-- The allocations with their keys, in step order. -/
def keyed (rows : List Row) : List (Int × Nat) :=
  (flatNonzero (rows.map (·.allocates))).map fun index =>
    (((rows[index]?).map fun row => keyOf rows row.task row.ordinal).getD 0, index)

/-- The allocations in the order of their keys. -/
def byKey (rows : List Row) : List (Int × Nat) :=
  sortByKey (keyed rows)

/-- `allocation_of`. -/
def allocationOf (rows : List Row) (task : Nat) (named : Int) : Option Nat :=
  valueAt (byKey rows) (keyOf rows task named)

/-- The ordinal that a step names, unless it takes a new slot. -/
def Row.names (row : Row) : Option Int :=
  if row.allocates then if 0 ≤ row.reuse then some row.reuse else none
  else some row.ordinal

/-- The step that a step's slot is taken from. -/
def sourceOf (rows : List Row) (index : Nat) (row : Row) : Option Nat :=
  match row.names with
  | none => some index
  | some named => allocationOf rows row.task named

def sourcesFrom (rows : List Row) : Nat → List Row → Option (List Nat)
  | _, [] => some []
  | index, row :: rest => do
    let source ← sourceOf rows index row
    let later ← sourcesFrom rows (index + 1) rest
    some (source :: later)

/-- The end of `_allocation_slots`; the loop takes at most `fuel` turns. -/
def resolve (fuel : Nat) (rows : List Row) : Option (List Int × Nat) :=
  if rows = [] then some ([], 0)
  else if 2 ^ 63 ≤ span rows then none
  else do
    let source ← sourcesFrom rows 0 rows
    let settled ← settle fuel source
    let slot := freshSlots 0 rows
    some (settled.map fun index => slot.getD index (-1), rows.countP (·.fresh))

/-- `_allocation_slots`. -/
def allocationSlots (fuel : Nat) (columns : TaskColumns) (offsets steps : List Nat) :
    Option (List Int × Nat) :=
  resolve fuel (rowsOf columns offsets steps)

/-- The slots of `_compiled_tasks`, for tasks selected in a template's order. -/
def compiledSlots (fuel : Nat) (tasks : List TaskAdmissionSpec) (order : List Nat) :
    Option (List Int × Nat) := do
  let columns ← taskColumns tasks
  let gathered := gather columns.stepOffsets order
  allocationSlots fuel columns gathered.1 gathered.2

end ShadowSpill.Planner.AllocationSlots
