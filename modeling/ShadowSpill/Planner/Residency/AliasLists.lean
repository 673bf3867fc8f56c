import ShadowSpill.Ir.Indexing
import ShadowSpill.Library.Lockstep
import ShadowSpill.Library.PackedRows
import ShadowSpill.Planner.Residency.Problem

/-!
# What the program says about each alias

The program is walked task by task, and within a task its inputs, then its mutations,
then its outputs.  Every touch of an alias is recorded at the end of the alias's lists,
where it merges with an entry at the same boundary.  The lists are written into rooms
reserved from an upper bound, and packed once the walk is done.
-/

namespace ShadowSpill.Planner.Residency.AliasLists

open Ir.Program Ir.Indexing Library.Lockstep Library.PackedRows Problem

/-! ## The indexed program -/

/-- The aliases of one task, as `_task_rows` lists them. -/
structure TaskRow where
  inputs : List Nat
  outputs : List Nat
  mutations : List Nat
deriving DecidableEq, Repr

/-- `ShadowSpillSimulationProgram`, as far as its alias lists need it. -/
structure SimulationProgram where
  aliasCount : Nat
  aliasSizeBytes : Nat → Nat
  tasks : List TaskRow

/-- `_task_rows`, for one task.  Input and output rows name an alias once, mutation rows
as often as the task mutates an object of it. -/
def taskRow (program : ShadowSpillProgram) (task : TaskSpec) : TaskRow where
  inputs := fromKeys (task.inputs.map (objectAlias program))
  outputs := fromKeys (task.outputs.map (objectAlias program))
  mutations := task.mutations.map fun item => objectAlias program item.objectId

/-- `alias_size_bytes`: an alias whose residency is shared is not the schedule's to move. -/
def indexedSizeBytes (program : ShadowSpillProgram) (aliasId : Nat) : Nat :=
  if isShared program aliasId then 0 else aliasSize program aliasId

/-- `index_simulation_template`. -/
def indexSimulation (program : ShadowSpillProgram) (tasks : List TaskSpec) :
    SimulationProgram where
  aliasCount := program.aliasGroups.length
  aliasSizeBytes := indexedSizeBytes program
  tasks := tasks.map (taskRow program)

/-! ## Recording -/

/-- `ListBuild`, with the flags the walk sets beside the lists. -/
structure ListBuild where
  anchors : Rooms Anchor
  reserved : Rooms Nat
  writes : Rooms Nat
  seenInput : Nat → Bool
  firstInputTask : Nat → Option Nat
  produced : Nat → Bool

/-- The later of two tasks, where either may be none. -/
def laterTask (recorded task : Option Nat) : Option Nat :=
  match task, recorded with
  | none, _ => recorded
  | some task, none => some task
  | some task, some recorded => if task > recorded then some task else some recorded

/-- The earlier of two tasks, where either may be none. -/
def earlierTask (recorded task : Option Nat) : Option Nat :=
  match task, recorded with
  | none, _ => recorded
  | some task, none => some task
  | some task, some recorded => if task < recorded then some task else some recorded

/-- Two anchors at one boundary are the same anchor seen again. -/
def mergeAnchor (recorded anchor : Anchor) : Option Anchor :=
  if recorded.position = anchor.position then
    some {
      position := recorded.position
      latest := laterTask recorded.latest anchor.latest
      earliest := earlierTask recorded.earliest anchor.earliest
      input := recorded.input || anchor.input
      produced := recorded.produced || anchor.produced }
  else none

/-- A boundary that is there already is not written again. -/
def mergeBoundary (recorded boundary : Nat) : Option Nat :=
  if recorded = boundary then some recorded else none

/-- One touch of an alias at a boundary, by a task or by none. -/
def touch (boundary : Nat) (task : Option Nat) (input produced : Bool) : Anchor where
  position := boundary
  latest := task
  earliest := task
  input := input
  produced := produced

namespace ListBuild

/-- `record_anchor`. -/
def recordAnchor (build : ListBuild) (aliasId boundary : Nat) (task : Option Nat)
    (input produced : Bool) : ListBuild :=
  { build with
    anchors := build.anchors.record mergeAnchor aliasId (touch boundary task input produced) }

/-- `record_reservation`. -/
def recordReservation (build : ListBuild) (aliasId boundary : Nat) : ListBuild :=
  { build with reserved := build.reserved.record mergeBoundary aliasId boundary }

/-- `record_write`. -/
def recordWrite (build : ListBuild) (aliasId boundary : Nat) : ListBuild :=
  { build with writes := build.writes.record mergeBoundary aliasId boundary }

end ListBuild

section Walk

variable (program : SimulationProgram)

/-- One input of a task. -/
def recordInput (task : Nat) (build : ListBuild) (aliasId : Nat) : ListBuild :=
  if program.aliasSizeBytes aliasId = 0 then build
  else
    { build with
      seenInput := Function.update build.seenInput aliasId true
      firstInputTask := Function.update build.firstInputTask aliasId
        (build.firstInputTask aliasId <|> some task) }.recordAnchor aliasId task (some task)
      true false

/-- One mutation of a task. -/
def recordMutation (task : Nat) (build : ListBuild) (aliasId : Nat) : ListBuild :=
  if program.aliasSizeBytes aliasId = 0 then build
  else
    ((build.recordAnchor aliasId task (some task) false false).recordAnchor aliasId
      (task + 1) none false false).recordWrite aliasId (task + 1)

/-- One output of a task, which is reserved ahead where the task neither reads nor mutates
the alias. -/
def recordOutput (row : TaskRow) (task : Nat) (build : ListBuild) (aliasId : Nat) :
    ListBuild :=
  if program.aliasSizeBytes aliasId = 0 then build
  else
    let build := (build.recordAnchor aliasId (task + 1) (some task) false true).recordWrite
      aliasId (task + 1)
    let build := { build with produced := Function.update build.produced aliasId true }
    if aliasId ∉ row.inputs ∧ aliasId ∉ row.mutations then
      build.recordReservation aliasId task
    else build

/-- One task: its inputs, its mutations, its outputs. -/
def recordTask (build : ListBuild) (entry : TaskRow × Nat) : ListBuild :=
  let build := entry.1.inputs.foldl (recordInput program entry.2) build
  let build := entry.1.mutations.foldl (recordMutation program entry.2) build
  entry.1.outputs.foldl (recordOutput program entry.1 entry.2) build

/-- An alias that the step holds on the device at `boundary`, before or after everything. -/
def recordHeld (location : Nat → Option MemoryLocation) (boundary : Nat) (build : ListBuild)
    (aliasId : Nat) : ListBuild :=
  if program.aliasSizeBytes aliasId ≠ 0 ∧ location aliasId = some .device then
    build.recordAnchor aliasId boundary none false false
  else build

/-- The whole walk, between what is held at its start and at its end. -/
def recordProgram (initialLocation finalLocation : Nat → Option MemoryLocation)
    (build : ListBuild) : ListBuild :=
  let build := (List.range program.aliasCount).foldl (recordHeld program initialLocation 0)
    build
  let build := program.tasks.zipIdx.foldl (recordTask program) build
  (List.range program.aliasCount).foldl
    (recordHeld program finalLocation program.tasks.length) build

/-! ## Rooms -/

/-- `UINT32_MAX`. -/
def wordMax : Nat := 2 ^ 32 - 1

/-- The rows of the tasks that name an alias. -/
def rowCount (rows : TaskRow → List Nat) (aliasId : Nat) : Nat :=
  (program.tasks.map fun task => (rows task).count aliasId).sum

def heldCount (location : Nat → Option MemoryLocation) (aliasId : Nat) : Nat :=
  if location aliasId = some .device then 1 else 0

/-- How many anchors an alias can need: one for each access, two for each mutation, one
each for a declared start and end on the device. -/
def anchorRoom (initialLocation finalLocation : Nat → Option MemoryLocation)
    (aliasId : Nat) : Nat :=
  if program.aliasSizeBytes aliasId = 0 then 0
  else
    heldCount initialLocation aliasId + heldCount finalLocation aliasId +
      rowCount program TaskRow.inputs aliasId + 2 * rowCount program TaskRow.mutations aliasId +
      rowCount program TaskRow.outputs aliasId

def writeRoom (aliasId : Nat) : Nat :=
  if program.aliasSizeBytes aliasId = 0 then 0
  else rowCount program TaskRow.mutations aliasId + rowCount program TaskRow.outputs aliasId

def reservedRoom (aliasId : Nat) : Nat :=
  if program.aliasSizeBytes aliasId = 0 then 0
  else rowCount program TaskRow.outputs aliasId

/-- `reserve_list`: the rooms turn into offsets, unless they pass the word in all. -/
def reserveList (room : Nat → Nat) (aliasCount : Nat) : Option (Nat → Nat) := do
  let (offsets, running) ← (List.range aliasCount).foldlM
    (fun (offsets, running) aliasId =>
      if wordMax < running + room aliasId then none
      else some (Function.update offsets aliasId running, running + room aliasId))
    (room, 0)
  some (Function.update offsets aliasCount running)

/-! ## The lists -/

/-- `ShadowSpillPressureFitResidencySparseLists`, with the flags beside them. -/
structure SparseLists where
  anchors : Packed Anchor
  reserved : Packed Nat
  writes : Packed Nat
  seenInput : Nat → Bool
  firstInputTask : Nat → Option Nat
  produced : Nat → Bool

/-- Nothing is recorded yet. -/
def openLists (anchorOffsets reservedOffsets writeOffsets : Nat → Nat) : ListBuild where
  anchors := Rooms.opened anchorOffsets fun _ => touch 0 none false false
  reserved := Rooms.opened reservedOffsets fun _ => 0
  writes := Rooms.opened writeOffsets fun _ => 0
  seenInput := fun _ => false
  firstInputTask := fun _ => none
  produced := fun _ => false

/-- `pack_list`, for each of the lists. -/
def packLists (build : ListBuild) (aliasCount : Nat) : SparseLists where
  anchors := build.anchors.pack aliasCount
  reserved := build.reserved.pack aliasCount
  writes := build.writes.pack aliasCount
  seenInput := build.seenInput
  firstInputTask := build.firstInputTask
  produced := build.produced

/-- `build_alias_lists`.  The counters of the rooms are not bounded here: rooms past the
word are refused, also where a counter of the source would wrap first. -/
def buildAliasLists (initialLocation finalLocation : Nat → Option MemoryLocation) :
    Option SparseLists := do
  let anchorOffsets ←
    reserveList (anchorRoom program initialLocation finalLocation) program.aliasCount
  let reservedOffsets ← reserveList (reservedRoom program) program.aliasCount
  let writeOffsets ← reserveList (writeRoom program) program.aliasCount
  let build := recordProgram program initialLocation finalLocation
    (openLists anchorOffsets reservedOffsets writeOffsets)
  some (packLists build program.aliasCount)

end Walk

/-! ## Offsets -/

section Offsets

variable {room : Nat → Nat} {aliasCount : Nat}

/-- The rooms before an alias. -/
def roomsBefore (room : Nat → Nat) (aliasId : Nat) : Nat :=
  ∑ before ∈ Finset.range aliasId, room before

theorem roomsBefore_succ (room : Nat → Nat) (aliasId : Nat) :
    roomsBefore room (aliasId + 1) = roomsBefore room aliasId + room aliasId :=
  Finset.sum_range_succ _ _

/-- The loop of `reserve_list` ends where the rooms fit the word, with their prefix sums. -/
theorem reserveRooms_eq (aliasCount : Nat) :
    (List.range aliasCount).foldlM
      (fun (state : (Nat → Nat) × Nat) aliasId =>
        if wordMax < state.2 + room aliasId then none
        else some (Function.update state.1 aliasId state.2, state.2 + room aliasId))
      (room, 0) =
    if roomsBefore room aliasCount ≤ wordMax then
      some (fun aliasId => if aliasId < aliasCount then roomsBefore room aliasId
        else room aliasId, roomsBefore room aliasCount)
    else none := by
  induction aliasCount with
  | zero => simp [roomsBefore]
  | succ aliasCount inductionHypothesis =>
    rw [List.range_succ, List.foldlM_append, inductionHypothesis]
    have grown := roomsBefore_succ room aliasCount
    by_cases fits : roomsBefore room aliasCount ≤ wordMax
    · rw [if_pos fits]
      simp only [List.foldlM_cons, List.foldlM_nil, Option.bind_eq_bind, Option.bind_some]
      by_cases fitsNext : roomsBefore room (aliasCount + 1) ≤ wordMax
      · rw [if_pos fitsNext, if_neg (by omega), grown]
        simp only [Option.bind_some, Option.pure_def, Option.some.injEq, Prod.mk.injEq, and_true]
        funext aliasId
        rcases Nat.lt_trichotomy aliasId aliasCount with before | rfl | after
        · rw [Function.update_of_ne before.ne, if_pos before, if_pos (by omega)]
        · rw [Function.update_self, if_pos (by omega)]
        · rw [Function.update_of_ne after.ne', if_neg (by omega), if_neg (by omega)]
      · rw [if_neg fitsNext, if_pos (by omega)]
        rfl
    · rw [if_neg fits, if_neg (by omega)]
      rfl

/-- `reserve_list` gives each alias a room of its own, if the rooms fit the word. -/
theorem reserveList_some {offsets : Nat → Nat} :
    reserveList room aliasCount = some offsets →
      roomsBefore room aliasCount ≤ wordMax ∧
        ∀ aliasId ≤ aliasCount, offsets aliasId = roomsBefore room aliasId := by
  intro reserved
  unfold reserveList at reserved
  rw [reserveRooms_eq] at reserved
  by_cases fits : roomsBefore room aliasCount ≤ wordMax
  · rw [if_pos fits] at reserved
    simp only [Option.bind_eq_bind, Option.bind_some, Option.some.injEq] at reserved
    subst reserved
    refine ⟨fits, fun aliasId bound => ?_⟩
    rcases Nat.lt_or_ge aliasId aliasCount with before | after
    · simp [Function.update_of_ne before.ne, before]
    · obtain rfl : aliasId = aliasCount := by omega
      simp
  · rw [if_neg fits] at reserved
    cases reserved

theorem reserveList_isSome :
    (reserveList room aliasCount).isSome ↔ roomsBefore room aliasCount ≤ wordMax := by
  unfold reserveList
  rw [reserveRooms_eq]
  by_cases fits : roomsBefore room aliasCount ≤ wordMax <;> simp [fits]

end Offsets

end ShadowSpill.Planner.Residency.AliasLists
