import ShadowSpill.Ir.Selection
import ShadowSpill.Library.Lockstep
import Mathlib.Data.Finset.Sort
import Mathlib.Data.List.MinMax
import Mathlib.Data.Prod.Lex
import Mathlib.Data.Rat.Floor

/-!
# Resolutions worth planning

The alternatives of a program are costed first, which says whether a group is a decision
at all: a sink of the forward phase keeps its value, and options that retain the same
bytes are one plan spelled twice.  A share of the groups that remain recomputes, spread
evenly over their order.  Small inventories are enumerated whatever shares are named.
-/

namespace ShadowSpill.Planner.Search.Resolutions

open Ir.Program Ir.Selection Library.Lockstep

/-- One option chosen for each group. -/
abbrev Resolution := List TaskAlternativeChoice

/-- A program with the runtime that was measured for each profile, by its id. -/
structure MeasuredProgram extends ShadowSpillProgram where
  runtimeNs : String → Nat

def saveOption : String := "save"

def recomputeOption : String := "recompute"

def exhaustiveCombinationLimit : Nat := 64

def quarterDenominator : Nat := 4

def withinGroupMemoryQuantiles : List Nat := [0, 1, 2, 3, 4]

/-- What choosing refuses. -/
inductive ResolutionError where
  /-- "resolution option … is outside [0, 1]" -/
  | outsideUnit (share : ℚ)
  /-- "resolution options must name at least one share" -/
  | noShare
  /-- "a group that is a sink of the forward phase must expose exactly one 'save' …" -/
  | sinkWithoutSave (groupId : String)
  /-- "evenly spaced selection count is outside its domain" -/
  | countOutside
  /-- an option index that its group does not have -/
  | noSuchOption
  deriving DecidableEq

abbrev Resolved (α : Type) := Except ResolutionError α

/-! ## Shares -/

/-- The first share out of range, if there is one. -/
def validateShares : List ℚ → Resolved Unit
  | [] => .ok ()
  | share :: rest =>
    if 0 ≤ share ∧ share ≤ 1 then validateShares rest else .error (.outsideUnit share)

/-- The shares in ascending order, each once. -/
def validateResolutionOptions (values : List ℚ) : Resolved (List ℚ) := do
  validateShares values
  if values.isEmpty then .error .noShare
  pure values.toFinset.sort

/-! ## Costed alternatives -/

/-- One alternative that a group exposes, with what choosing it costs. -/
structure CostedOption where
  optionId : String
  /-- Bytes that the option keeps resident. -/
  retainedBytes : Nat
  /-- Measured runtime of every task that the option activates. -/
  runtimeNs : Nat
  deriving DecidableEq

structure CostedGroup where
  groupId : String
  options : List CostedOption
  /-- The one index left when the choice is not free. -/
  forcedIndex : Option Nat
  deriving DecidableEq

/-- The places of save and recompute, when the group offers exactly those. -/
def CostedGroup.binaryEndpoints (group : CostedGroup) : Option (Nat × Nat) :=
  match group.options.map (·.optionId) with
  | [first, second] =>
    if first = saveOption ∧ second = recomputeOption then some (0, 1)
    else if first = recomputeOption ∧ second = saveOption then some (1, 0)
    else none
  | _ => none

/-- The option with the least key, the first of several. -/
def leastIndex (key : CostedOption → Nat ×ₗ Nat) (options : List CostedOption) : Option Nat :=
  (options.zipIdx.argmin fun entry => key entry.1).map (·.2)

/-- Option indices from least to most retained, ties broken by runtime. -/
def CostedGroup.byRetainedBytes (group : CostedGroup) : List Nat :=
  (group.options.zipIdx.mergeSort fun first second =>
    decide (toLex (first.1.retainedBytes, toLex (first.1.runtimeNs, first.2)) ≤
      toLex (second.1.retainedBytes, toLex (second.1.runtimeNs, second.2)))).map (·.2)

/-- The option with the least measured runtime, ties broken by bytes. -/
def CostedGroup.fastestIndex (group : CostedGroup) : Nat :=
  (leastIndex (fun option => toLex (option.runtimeNs, option.retainedBytes))
    group.options).getD 0

structure CostedAlternatives where
  groups : List CostedGroup
  deriving DecidableEq

/-- The option index left for a group with no choice. -/
def CostedAlternatives.forced (costed : CostedAlternatives) (index : Nat) : Option Nat :=
  (costed.groups[index]?).bind (·.forcedIndex)

/-- How many groups are a real decision. -/
def CostedAlternatives.flexibleCount (costed : CostedAlternatives) : Nat :=
  costed.groups.countP fun group => group.forcedIndex.isNone

/-- How many distinct selections exist once forced groups are settled. -/
def CostedAlternatives.combinationCount (costed : CostedAlternatives) : Nat :=
  (costed.groups.map fun group =>
    if group.forcedIndex.isSome then 1 else group.options.length).prod

/-- Every group's endpoints, or none when some group has not got them. -/
def CostedAlternatives.binaryEndpoints (costed : CostedAlternatives) :
    Option (List (Nat × Nat)) :=
  costed.groups.mapM (·.binaryEndpoints)

/-! ## Costing a program -/

/-- The size of an alias group; construction refuses an option that retains another. -/
def aliasBytes (program : MeasuredProgram) (aliasId : String) : Nat :=
  ((program.aliasGroups.find? (·.aliasGroupId = aliasId)).map (·.sizeBytes)).getD 0

/-- The measured runtime of a task; construction refuses an option that activates
another. -/
def taskRuntime (program : MeasuredProgram) (taskId : String) : Nat :=
  ((program.tasks.find? (·.taskId = taskId)).map fun task =>
    program.runtimeNs task.profileId).getD 0

def costedOption (program : MeasuredProgram) (option : TaskAlternativeOption) :
    CostedOption where
  optionId := option.optionId
  retainedBytes := (option.retainedAliasGroupIds.map (aliasBytes program)).sum
  runtimeNs := (option.activeTaskIds.map (taskRuntime program)).sum

def forwardTasks (program : MeasuredProgram) : List TaskSpec :=
  program.tasks.filter (·.phase = "forward")

def forwardTaskIds (program : MeasuredProgram) : List String :=
  (forwardTasks program).map (·.taskId)

def consumedByForward (program : MeasuredProgram) : List String :=
  (forwardTasks program).flatMap fun task =>
    task.dependencies.filter (· ∈ forwardTaskIds program)

/-- A group whose forward tasks no forward task consumes keeps its value. -/
def forwardSinkSave (program : MeasuredProgram) (group : TaskAlternativeGroup) :
    Resolved (Option Nat) :=
  let groupForwardTasks :=
    (group.options.flatMap (·.activeTaskIds)).filter (· ∈ forwardTaskIds program)
  if groupForwardTasks.isEmpty ∨ groupForwardTasks.any (· ∈ consumedByForward program) then
    .ok none
  else
    match group.options.findIdxs (·.optionId = saveOption) with
    | [save] => .ok (some save)
    | _ => .error (.sinkWithoutSave group.groupId)

def forwardSinkSaves (program : MeasuredProgram) : Resolved (List (Option Nat)) :=
  program.taskAlternativeGroups.mapM (forwardSinkSave program)

/-- Options that keep the same bytes leave the fastest. -/
def forcedByEqualRetention (options : List CostedOption) : Option Nat :=
  if options.length < 2 then
    if options.isEmpty then none else some 0
  else if (options.map (·.retainedBytes)).toFinset.card ≠ 1 then none
  else leastIndex (fun option => toLex (option.runtimeNs, 0)) options

def costedGroup (program : MeasuredProgram) (group : TaskAlternativeGroup)
    (structural : Option Nat) : CostedGroup where
  groupId := group.groupId
  options := group.options.map (costedOption program)
  forcedIndex :=
    structural.or (forcedByEqualRetention (group.options.map (costedOption program)))

/-- Cost every option against the program's alias sizes and profiles. -/
def fromProgram (program : MeasuredProgram) : Resolved CostedAlternatives := do
  let structural ← forwardSinkSaves program
  pure ⟨List.zipWith (costedGroup program) program.taskAlternativeGroups structural⟩

/-! ## Choosing -/

/-- The centre of one of `count` equal stretches of `total` places. -/
def spacedPosition (total count position : Nat) : Nat :=
  (2 * position + 1) * total / (2 * count)

/-- Choose `count` centered, evenly spaced positions from `total`. -/
def evenlySpacedIndices (total : Nat) (count : Int) : Resolved (List Nat) :=
  if ¬ (0 ≤ count ∧ count ≤ total) then .error .countOutside
  else if count = 0 then .ok []
  else if count = total then .ok (List.range total)
  else .ok ((List.range count.toNat).map (spacedPosition total count.toNat))

/-- `int` of a fraction: towards zero. -/
def truncate (value : ℚ) : Int :=
  value.num.tdiv value.den

def flexibleGroups (endpoints : List (Nat × Nat)) (forced : Nat → Option Nat) : List Nat :=
  (List.range endpoints.length).filter fun index => (forced index).isNone

/-- The option of each group, when the groups at `recomputing` recompute. -/
def fractionIndices (endpoints : List (Nat × Nat)) (forced : Nat → Option Nat)
    (recomputing : List Nat) : List Nat :=
  endpoints.mapIdx fun index endpoint =>
    (forced index).getD (if index ∈ recomputing then endpoint.2 else endpoint.1)

/-- One evenly distributed resolution: a share of the flexible groups recomputes. -/
def groupFraction (endpoints : List (Nat × Nat)) (forced : Nat → Option Nat) (share : ℚ) :
    Resolved (List Nat) := do
  let flexible := flexibleGroups endpoints forced
  -- Rounded half up, so a share lands on the nearer whole group.
  let recomputeCount := truncate (flexible.length * share + 1 / 2)
  let positions ← evenlySpacedIndices flexible.length recomputeCount
  pure (fractionIndices endpoints forced (positions.filterMap (flexible[·]?)))

/-- One resolution for each share, each once. -/
def groupFractions (endpoints : List (Nat × Nat)) (forced : Nat → Option Nat)
    (shares : List ℚ) : Resolved (List (List Nat)) := do
  let result ← shares.mapM (groupFraction endpoints forced)
  pure (fromKeys result)

/-- Walk each group's own inventory, from least retained to most. -/
def withinGroupQuantiles (costed : CostedAlternatives) : List (List Nat) :=
  let memoryOrder := costed.groups.map (·.byRetainedBytes)
  let raw : List (List Nat) :=
    [costed.groups.map fun _ => 0,
      costed.groups.map fun group => group.options.length - 1,
      memoryOrder.map fun order => order.getD 0 0,
      costed.groups.map (·.fastestIndex)] ++
    withinGroupMemoryQuantiles.map fun numerator =>
      memoryOrder.map fun order =>
        order.getD ((order.length - 1) * numerator / quarterDenominator) 0
  fromKeys (raw.map fun item =>
    item.mapIdx fun index option => (costed.forced index).getD option)

/-- Every way to take one value of each, the last varying fastest. -/
def product : List (List Nat) → List (List Nat)
  | [] => [[]]
  | values :: rest => values.flatMap fun value => (product rest).map (value :: ·)

def choiceAt (group : CostedGroup) (index : Nat) : Resolved TaskAlternativeChoice :=
  match group.options[index]? with
  | none => .error .noSuchOption
  | some option => .ok ⟨group.groupId, option.optionId⟩

def resolution (costed : CostedAlternatives) (indices : List Nat) : Resolved Resolution :=
  (costed.groups.zip indices).mapM fun entry => choiceAt entry.1 entry.2

/-- Choose which resolutions of the inventory to plan. -/
def select (costed : CostedAlternatives) (values : List ℚ) : Resolved (List Resolution) := do
  let chosen ← validateResolutionOptions values
  if costed.groups.isEmpty then pure [[]]
  else if costed.combinationCount ≤ exhaustiveCombinationLimit then
    let perGroup := costed.groups.map fun group =>
      match group.forcedIndex with
      | some forced => [forced]
      | none => List.range group.options.length
    (product perGroup).mapM (resolution costed)
  else
    match costed.binaryEndpoints with
    | some endpoints => do
      let fractions ← groupFractions endpoints costed.forced chosen
      fractions.mapM (resolution costed)
    | none => (withinGroupQuantiles costed).mapM (resolution costed)

/-- A small deterministic set of legal resolutions. -/
def resolutions (program : MeasuredProgram) (values : List ℚ) : Resolved (List Resolution) := do
  let chosen ← validateResolutionOptions values
  if program.taskAlternativeGroups.isEmpty then pure [[]]
  else
    let costed ← fromProgram program
    select costed chosen

/-! ## The share of a selection -/

/-- The option that a selection names for a group. -/
def chosenOption (selections : Resolution) (group : CostedGroup) : Option String :=
  (choiceOf selections group.groupId).map (·.optionId)

/-- The share of every group choosing to recompute. -/
def shareOfGroups (costed : CostedAlternatives) (selections : Resolution) : ℚ :=
  if costed.groups.isEmpty then 0
  else
    (costed.groups.countP fun group =>
      decide (chosenOption selections group = some recomputeOption) : ℚ) /
      costed.groups.length

/-- The flexible groups that a selection recomputes, as their endpoints have it. -/
def recomputingCount (costed : CostedAlternatives) (endpoints : List (Nat × Nat))
    (selections : Resolution) : Nat :=
  (costed.groups.zip endpoints).countP fun entry =>
    entry.1.forcedIndex.isNone &&
      decide ((entry.1.options[entry.2.2]?).map (·.optionId) =
        chosenOption selections entry.1)

/-- The share of the program's flexible groups that a selection recomputes. -/
def recomputeShare (program : MeasuredProgram) (selections : Resolution) : Resolved ℚ := do
  let costed ← fromProgram program
  match costed.binaryEndpoints with
  | some endpoints =>
    if costed.flexibleCount = 0 then pure (shareOfGroups costed selections)
    else pure ((recomputingCount costed endpoints selections : ℚ) / costed.flexibleCount)
  | none => pure (shareOfGroups costed selections)

end ShadowSpill.Planner.Search.Resolutions
