import ShadowSpill.Planner.Search.CandidateMemos
import ShadowSpill.Planner.AdmissionTypes

/-!
# The cycle of a candidate

A candidate starts from its strategy's base residency and repeats a fixed cycle: emit a
schedule, simulate it, measure whether its layout fits, settle whether it is the answer,
and repair it.  What a candidate holds is kept apart from the caches of its worker, which
only the emission, the simulation and what is read from its outcome touch.  Any cache may
be emptied before it is asked, so that everything is computed again.
-/

namespace ShadowSpill.Planner.Search.CandidateStages

open Library.Word64 CandidateFingerprints CandidateMemos
open Planner.Schedule.Fetches (FetchTriggerConstraint)
open Residency.Problem (MemoryLocation)

/-! ## What a candidate reports -/

/-- `ShadowSpillPressureFitCandidateStatus`. -/
inductive CandidateStatus where
  | valid
  | analyticInfeasible
  | simulationInfeasible
  | admissionInfeasible
  | internalError
  | repairExhausted
  | unplaceable
deriving DecidableEq, Repr

/-- `ShadowSpillPressureFitResidencyStrategy`. -/
inductive ResidencyStrategy where
  | headroomStall
  | headroomTransfer
  | tightStall
  | tightTransfer
deriving DecidableEq, Repr

/-- `ShadowSpillPressureFitResidencyOptions`, without its seed and its extra pressure. -/
structure ResidencyOptions where
  minimizeTransfer : Bool
  fetchHeadroom : Bool
deriving DecidableEq, Repr

/-- `shadowspill_candidate_residency_options`. -/
def residencyOptions (strategy : ResidencyStrategy) : ResidencyOptions where
  minimizeTransfer := strategy = .headroomTransfer ∨ strategy = .tightTransfer
  fetchHeadroom := strategy = .headroomStall ∨ strategy = .headroomTransfer

/-- `ShadowSpillPressureFitRepairDiagnostics`. -/
structure Repairs where
  admissionFetchAdvanceAttempts : Nat
  admissionFetchDelayAttempts : Nat
  admissionPressureBoundaryAttempts : Nat
  simulationFetchDelayAttempts : Nat
  simulationPressureBoundaryAttempts : Nat
  layoutFetchDelayAttempts : Nat
deriving DecidableEq, Repr

/-- `shadowspill_candidate_repair_total`. -/
def Repairs.total (repairs : Repairs) : Nat :=
  repairs.admissionFetchAdvanceAttempts + repairs.admissionFetchDelayAttempts +
    repairs.admissionPressureBoundaryAttempts + repairs.simulationFetchDelayAttempts +
      repairs.simulationPressureBoundaryAttempts + repairs.layoutFetchDelayAttempts

/-- `ShadowSpillPressureFitCandidateDiagnostic`, without its trajectory and its times. -/
structure Diagnostic (Digest : Type) where
  status : CandidateStatus
  residencyStrategy : ResidencyStrategy
  fetchRule : Nat
  repairs : Repairs
  simulationStatus : Status
  makespanNs : Nat
  capacityViolationCount : Nat
  placementsAttempted : Nat
  placementsAdmitted : Nat
  capacityRefinements : Nat
  repairsAtBest : Option Nat
  pressureEscalations : Nat
  escalationsTakenBack : Nat
  scheduleDigest : Digest
  errorTask : Option Nat
  errorAlias : Option Nat
  errorDevice : Option Nat
  errorLocation : Option MemoryLocation
  errorBoundary : Option Int
  errorTimeNs : Nat
  errorCapacityBytes : Nat
  errorUsedBytes : Nat
  errorRequestedBytes : Nat
  errorRequiredBytes : Nat
  bestUnplacedMakespanNs : Nat
  unplacedPlans : Nat
deriving DecidableEq

/-- `shadowspill_candidate_initialize_diagnostic`. -/
def initializeDiagnostic {Digest : Type} (blank : Digest) (strategy : ResidencyStrategy)
    (rule : Nat) : Diagnostic Digest where
  status := .internalError
  residencyStrategy := strategy
  fetchRule := rule
  repairs := ⟨0, 0, 0, 0, 0, 0⟩
  simulationStatus := .ok
  makespanNs := 0
  capacityViolationCount := 0
  placementsAttempted := 0
  placementsAdmitted := 0
  capacityRefinements := 0
  repairsAtBest := none
  pressureEscalations := 0
  escalationsTakenBack := 0
  scheduleDigest := blank
  errorTask := none
  errorAlias := none
  errorDevice := none
  errorLocation := some .device
  errorBoundary := none
  errorTimeNs := 0
  errorCapacityBytes := 0
  errorUsedBytes := 0
  errorRequestedBytes := 0
  errorRequiredBytes := 0
  bestUnplacedMakespanNs := 0
  unplacedPlans := 0

/-! ## What a problem gives -/

/-- `ShadowSpillAdmissionReplayResult`, as far as a refusal goes. -/
structure Replay where
  errorRequestedBytes : Nat
  errorFreeBytes : Nat
  errorLargestFreeRangeBytes : Nat
deriving DecidableEq, Repr

/-- `ShadowSpillAdmissionAnnotation`. -/
structure Annotation where
  boundary : AdmissionTypes.BoundaryKind
  index : Nat
deriving DecidableEq, Repr

/-- What the emitted schedule is under the triggers it must keep to. -/
inductive Constrained where
  | failed
  | contradicted (schedule : IndexedSchedule)
  | met (schedule : IndexedSchedule)

/-- What moving one fetch does to a schedule. -/
inductive FetchMove where
  | failed
  | unmoved
  | moved (schedule : IndexedSchedule) (constraint : FetchTriggerConstraint)

/-- A residency with the fingerprint that its reduction gave it. -/
structure NamedResidency where
  residency : Residency
  fingerprint : Fingerprint
  named : fingerprint = residencyFingerprint residency

/-- The residency as `shadowspill_candidate_reduce_residency` names it. -/
def NamedResidency.of (residency : Residency) : NamedResidency :=
  ⟨residency, residencyFingerprint residency, rfl⟩

/-- `ShadowSpillPressureFitResidencyResult`, with the residency it leaves. -/
structure Reduction where
  status : Status
  residency : Residency
  errorDevice : Nat
  errorBoundary : Int
  requiredBytes : Nat
  capacityBytes : Nat

/-- The pool that plans are placed in. -/
structure PlacementPool where
  objectCapacityBytes : Nat
  poolCapacityBytes : Nat

/-- What a problem computes for its search. -/
structure SearchProblem (Intervals Digest : Type) extends
    Computations Intervals Replay Annotation Digest where
  taskCount : Nat
  deviceCount : Nat
  boundaryCount : Nat
  /-- `shadowspill_boundary_capacity`. -/
  boundaryCapacity : Nat → Nat → Nat
  /-- The pool capacity of the admission facts. -/
  admissionPoolBytes : Nat
  placement : Option PlacementPool
  /-- `shadowspill_apply_fetch_trigger_constraints`. -/
  constrain : List FetchTriggerConstraint → IndexedSchedule → Constrained
  /-- `shadowspill_pressurefit_reduce_residency_reusing`, from the problem's seed. -/
  reduce : ResidencyOptions → List Nat → Reduction
  /-- `shadowspill_residency_pressure_at`, of the first device. -/
  pressureAt : ResidencyOptions → List Nat → Residency → Nat → Option Nat
  /-- `shadowspill_delay_indexed_fetch`. -/
  delayFetch : SimulationSummary → IndexedSchedule → FetchMove
  /-- `shadowspill_advance_indexed_fetch_to_release`. -/
  advanceFetchToRelease : Nat → IndexedSchedule → FetchMove
  /-- `shadowspill_candidate_place_plan`, of a plan with timelines. -/
  placePlan : IndexedSchedule → Intervals → Option Nat
  /-- The delay that `shadowspill_candidate_move_for_layout` chooses for an overrun. -/
  layoutDelay : IndexedSchedule → Intervals → Nat → Option FetchTriggerConstraint
  blankDigest : Digest

/-- `ShadowSpillPressureFitOptions`, as far as a candidate reads them. -/
structure SearchOptions where
  deterministic : Bool
  maxRepairAttempts : Nat
  capacityRefinementBytes : Nat

/-! ## What a candidate holds -/

/-- `CandidateSearch`, with what its workspace holds besides the caches. -/
structure CandidateSearch (Digest : Type) where
  strategy : ResidencyStrategy
  rule : Nat
  schedule : IndexedSchedule
  best : IndexedSchedule
  resident : NamedResidency
  baseResident : NamedResidency
  extraPressure : List Nat
  planCapacityGivenBack : Nat
  lastPressurePosition : Nat
  fetchConstraints : List FetchTriggerConstraint
  needEmit : Bool
  planCapacityBytes : Nat
  bestMakespanNs : Nat
  bestDigest : Digest
  placedMakespanNs : Nat
  placedIdentity : Fingerprint
  placedRequiredBytes : Nat
  lastErrorTask : Option Nat
  lastErrorTimeNs : Nat
  failureRepeats : Nat
  layoutMoved : Bool
  layoutRequiredBeforeMove : Nat
  simulation : SimulationSummary
  capacityViolationCount : Nat
  simulationStatus : Status
  refusal : Option (Replay × Annotation)
  improves : Bool
  diagnostic : Diagnostic Digest

/-- What a stage tells the cycle to do next; an index that is walked without end is
`stuck`. -/
inductive Stage where
  | next
  | again
  | done (answer : Int)
  | stuck
deriving DecidableEq, Repr

/-- What a simulation gave, as the search sees it. -/
inductive Answer where
  | failed
  | endless
  | refused (replay : Replay) (remark : Annotation)
  | admitted (summary : SimulationSummary) (violationCount : Nat)
deriving DecidableEq, Repr

/-- `ShadowSpillPressureFitBestPlacedRecord`, with its schedule. -/
structure BestPlacedRecord (Digest : Type) where
  makespanNs : Nat
  objectCapacityBytes : Nat
  capacityGivenBackBytes : Nat
  residencyStrategy : ResidencyStrategy
  fetchRule : Nat
  scheduleDigest : Digest
  schedule : IndexedSchedule
deriving DecidableEq

/-- What a worker did, step by step. -/
inductive Event (Digest : Type) where
  | emitted (residency : Residency) (pressure : List Nat) (schedule : Option IndexedSchedule)
  | simulated (schedule : IndexedSchedule) (answer : Answer)
  | offered (record : BestPlacedRecord Digest)
deriving DecidableEq

/-- The caches of a worker's workspace, and what the last simulation left in it. -/
structure Caches (Intervals Digest : Type) where
  scheduleMemo : ScheduleMemo
  simulationMemo : SimulationMemo Digest
  firstViolation : Option CapacityViolation
  intervals : Option Intervals
  simulationEntry : Option Nat

/-- A worker: its candidate, what it did so far, the last first, and its caches. -/
structure Worker (Intervals Digest : Type) where
  search : CandidateSearch Digest
  history : List (Event Digest)
  caches : Caches Intervals Digest

/-- A candidate that a worker takes up, with the rounds it is followed for. -/
structure Task where
  strategy : ResidencyStrategy
  rule : Nat
  rounds : Nat

section Stages

variable {Intervals Digest : Type} (problem : SearchProblem Intervals Digest)
  (options : SearchOptions)

/-! ## Answers -/

/-- Change what the candidate reports. -/
def CandidateSearch.report (search : CandidateSearch Digest)
    (change : Diagnostic Digest → Diagnostic Digest) : CandidateSearch Digest :=
  { search with diagnostic := change search.diagnostic }

/-- Count a repair. -/
def CandidateSearch.repaired (search : CandidateSearch Digest) (count : Repairs → Repairs) :
    CandidateSearch Digest :=
  search.report fun diagnostic => { diagnostic with repairs := count diagnostic.repairs }

/-- `set_answer`. -/
def setAnswer (search : CandidateSearch Digest) (makespanNs : Nat) (digest : Digest) :
    CandidateSearch Digest :=
  search.report fun diagnostic =>
    { diagnostic with status := .valid, makespanNs := makespanNs, scheduleDigest := digest }

/-- `answer_with_kept`. -/
def answerWithKept (search : CandidateSearch Digest) (makespanNs : Nat) :
    Stage × CandidateSearch Digest :=
  (.done 1, { setAnswer search makespanNs search.bestDigest with schedule := search.best })

/-- `answer_or_stop`. -/
def answerOrStop (search : CandidateSearch Digest) : Stage × CandidateSearch Digest :=
  if problem.placement.isSome ∧ search.placedMakespanNs ≠ 0 then
    answerWithKept search search.placedMakespanNs
  else (.done 0, search)

/-- `shadowspill_candidate_may_repair_again`. -/
def mayRepairAgain (search : CandidateSearch Digest) : Bool :=
  search.diagnostic.repairs.total < options.maxRepairAttempts

/-- `shadowspill_candidate_copy_simulation_error`. -/
def copySimulationError (search : CandidateSearch Digest) : CandidateSearch Digest :=
  search.report fun diagnostic =>
    { diagnostic with
      simulationStatus := search.simulation.status
      errorTask := search.simulation.errorTask
      errorAlias := search.simulation.errorAlias
      errorDevice := search.simulation.errorDevice
      errorLocation := search.simulation.errorLocation
      errorTimeNs := search.simulation.errorTimeNs
      errorCapacityBytes := search.simulation.errorCapacityBytes
      errorUsedBytes := search.simulation.errorUsedBytes
      errorRequestedBytes := search.simulation.errorRequestedBytes }

/-- `shadowspill_candidate_copy_analytic_error`. -/
def copyAnalyticError (search : CandidateSearch Digest) (reduction : Reduction) :
    CandidateSearch Digest :=
  search.report fun diagnostic =>
    { diagnostic with
      status := .analyticInfeasible
      errorDevice := some reduction.errorDevice
      errorBoundary := some reduction.errorBoundary
      errorRequiredBytes := reduction.requiredBytes
      errorCapacityBytes := reduction.capacityBytes }

/-! ## Repairs -/

/-- What became of a reduction. -/
inductive Reduced where
  | failed
  | infeasible
  | reduced
deriving DecidableEq, Repr

/-- `shadowspill_candidate_reduce_repaired_candidate`. -/
def reduceRepairedCandidate (search : CandidateSearch Digest) : Reduced × CandidateSearch Digest :=
  let reduction := problem.reduce (residencyOptions search.strategy) search.extraPressure
  let named := { search with resident := NamedResidency.of reduction.residency }
  if reduction.status = .analyticInfeasible then
    (.infeasible, copyAnalyticError named reduction)
  else if reduction.status = .ok then (.reduced, named)
  else (.failed, named)

/-- `shadowspill_candidate_record_fetch_constraint`: none if it contradicts the one that
is there. -/
def recordFetchConstraint (incoming : FetchTriggerConstraint) :
    List FetchTriggerConstraint → Option (List FetchTriggerConstraint)
  | [] => some [incoming]
  | current :: rest =>
    if current.aliasId ≠ incoming.aliasId ∨ current.consumerTask ≠ incoming.consumerTask then
      (recordFetchConstraint incoming rest).map (current :: ·)
    else
      let minimum := max current.minimumTrigger incoming.minimumTrigger
      let maximum :=
        match current.maximumTrigger, incoming.maximumTrigger with
        | some one, some other => some (min one other)
        | some one, none => some one
        | none, limit => limit
      if maximum.any (· < minimum) then none
      else
        some ({ current with minimumTrigger := minimum, maximumTrigger := maximum } :: rest)

/-- A sum of two words that stays at the greatest word. -/
def saturatingAdd (one other : Nat) : Nat :=
  min (one + other) (modulus - 1)

/-- The ask, doubled so often, as long as it is below the ceiling. -/
def escalated (ceiling : Nat) : Nat → Nat → Nat
  | 0, excess => excess
  | count + 1, excess =>
    if excess < ceiling then escalated ceiling count (min (excess * 2) (modulus - 1))
    else excess

/-- The failures that pressure may repair, with the boundary they ask for room at. -/
def repairBoundary (failure : SimulationSummary) : Option Nat :=
  match failure.status with
  | .initialDeviceCapacity => some 0
  | .taskDeviceCapacity => failure.errorTask
  | .fetchDeviceCapacity => failure.errorTask.map (· + 1)
  | _ => none

/-- `shadowspill_candidate_add_repair_pressure`: whether it asked, and what it asked
beyond the shortfall. -/
def addRepairPressure (search : CandidateSearch Digest) (escalation : Nat) :
    Option Nat × CandidateSearch Digest :=
  let failure := search.simulation
  match repairBoundary failure, failure.errorDevice with
  | some index, some device =>
    if device ≥ problem.deviceCount then (none, search)
    else
      let capacity :=
        if failure.errorCapacityBytes ≠ 0 then failure.errorCapacityBytes
        else problem.boundaryCapacity device index
      let total := saturatingAdd failure.errorUsedBytes failure.errorRequestedBytes
      let shortfall := if total > capacity then total - capacity else 1
      let ceiling :=
        if failure.errorRequestedBytes ≠ 0 ∧ failure.errorRequestedBytes < capacity then
          failure.errorRequestedBytes
        else capacity
      let grown := escalated ceiling escalation shortfall
      let excess := if grown > ceiling ∧ ceiling > shortfall then ceiling else grown
      let position := device * problem.boundaryCount + index
      (some (excess - shortfall),
        { search with
          extraPressure := search.extraPressure.set position
            (saturatingAdd (search.extraPressure.getD position 0) excess)
          lastPressurePosition := position })
  | _, _ => (none, search)

/-- Where an admission failed; without a boundary it cannot be told. -/
structure AdmissionFailurePlace where
  task : Option Nat
  pressureIndex : Option Nat
  aliasId : Option Nat

/-- `admission_failure_boundary`. -/
def admissionFailureBoundary (schedule : IndexedSchedule) (remark : Annotation) :
    AdmissionFailurePlace :=
  match remark.boundary with
  | .initial => ⟨none, some 0, none⟩
  | .taskStart =>
    if remark.index < problem.taskCount then
      ⟨some remark.index, some remark.index, none⟩
    else ⟨none, none, none⟩
  | .taskCompletion =>
    if remark.index < problem.taskCount then
      ⟨some remark.index, some (remark.index + 1), none⟩
    else ⟨none, none, none⟩
  | .actionTrigger | .actionCompletion =>
    match schedule.actions[remark.index]? with
    | none => ⟨none, none, none⟩
    | some action =>
      ⟨some action.trigger,
        if action.trigger < problem.taskCount then some (action.trigger + 1) else none,
        some action.aliasId⟩

/-- `shadowspill_candidate_copy_admission_error`. -/
def copyAdmissionError (search : CandidateSearch Digest) (failure : Replay)
    (remark : Annotation) : CandidateSearch Digest :=
  let place := admissionFailureBoundary problem search.schedule remark
  search.report fun diagnostic =>
    { diagnostic with
      status := .admissionInfeasible
      errorTask := place.task
      errorAlias := place.aliasId
      errorDevice := some 0
      errorBoundary := place.pressureIndex.map fun index => (index : Int) - 1
      errorCapacityBytes := problem.admissionPoolBytes
      errorUsedBytes := wrapSub problem.admissionPoolBytes failure.errorFreeBytes
      errorRequestedBytes := failure.errorRequestedBytes
      errorRequiredBytes := failure.errorRequestedBytes - failure.errorLargestFreeRangeBytes }

/-- `shadowspill_candidate_delay_admission_fetch`. -/
def delayAdmissionFetch (schedule : IndexedSchedule) (failure : Replay)
    (remark : Annotation) : FetchMove :=
  let projected : SimulationSummary :=
    { SimulationSummary.zero with
      errorAlias := none
      errorCapacityBytes := problem.admissionPoolBytes
      errorUsedBytes := wrapSub problem.admissionPoolBytes failure.errorFreeBytes
      errorRequestedBytes := failure.errorRequestedBytes }
  match remark.boundary with
  | .taskStart =>
    if remark.index ≥ problem.taskCount then .failed
    else
      problem.delayFetch
        { projected with status := .taskDeviceCapacity, errorTask := some remark.index }
        schedule
  | .actionTrigger =>
    match schedule.actions[remark.index]? with
    | some action =>
      if action.kind = .fetch then
        problem.delayFetch
          { projected with
            status := .fetchDeviceCapacity
            errorTask := some action.trigger
            errorAlias := some action.aliasId }
          schedule
      else .unmoved
    | none => .unmoved
  | _ => .unmoved

/-- `shadowspill_candidate_advance_admission_fetch`. -/
def advanceAdmissionFetch (schedule : IndexedSchedule) (remark : Annotation) : FetchMove :=
  match remark.boundary, schedule.actions[remark.index]? with
  | .actionTrigger, some action =>
    if action.kind = .fetch then problem.advanceFetchToRelease remark.index schedule
    else .unmoved
  | _, _ => .unmoved

/-- `shadowspill_candidate_add_admission_repair_pressure`: the extra pressure it leaves,
if it does not fail. -/
def addAdmissionRepairPressure (search : CandidateSearch Digest) (failure : Replay)
    (remark : Annotation) : Option (List Nat) :=
  match (admissionFailureBoundary problem search.schedule remark).pressureIndex with
  | none => none
  | some index =>
    if index ≥ problem.boundaryCount then some search.extraPressure
    else
      match problem.pressureAt (residencyOptions search.strategy) search.extraPressure
          search.resident.residency index with
      | none => none
      | some residentPressure =>
        let requiredReduction :=
          if failure.errorRequestedBytes > failure.errorLargestFreeRangeBytes then
            failure.errorRequestedBytes - failure.errorLargestFreeRangeBytes
          else 1
        let extra := search.extraPressure.getD index 0
        let currentPressure := saturatingAdd residentPressure extra
        let unusedCapacity := problem.boundaryCapacity 0 index - currentPressure
        let increment := saturatingAdd requiredReduction unusedCapacity
        some (search.extraPressure.set index (saturatingAdd extra increment))

/-- `record_admission_move`. -/
def recordAdmissionMove (search : CandidateSearch Digest) (failure : Replay)
    (remark : Annotation) (schedule : IndexedSchedule) (constraint : FetchTriggerConstraint)
    (count : Repairs → Repairs) : Stage × CandidateSearch Digest :=
  let moved := { search with schedule := schedule }
  match recordFetchConstraint constraint search.fetchConstraints with
  | none => answerOrStop problem (copyAdmissionError problem moved failure remark)
  | some constraints => (.again, { moved with fetchConstraints := constraints }.repaired count)

/-- The end of `search_repair_admission`, when nothing is left to try. -/
def refuseAdmission (search : CandidateSearch Digest) (failure : Replay) (remark : Annotation) :
    Stage × CandidateSearch Digest :=
  let copied := copyAdmissionError problem search failure remark
  answerOrStop problem
    (if mayRepairAgain options copied then copied
    else copied.report fun diagnostic => { diagnostic with status := .repairExhausted })

/-- Make room where the admission failed, and reduce again. -/
def pressAdmission (search : CandidateSearch Digest) (failure : Replay) (remark : Annotation) :
    Stage × CandidateSearch Digest :=
  match addAdmissionRepairPressure problem search failure remark with
  | none => (.done (-1), search)
  | some pressure =>
    let pressed := { search with extraPressure := pressure }.repaired fun repairs =>
      { repairs with
        admissionPressureBoundaryAttempts := repairs.admissionPressureBoundaryAttempts + 1 }
    match reduceRepairedCandidate problem pressed with
    | (.failed, reduced) => (.done (-1), reduced)
    | (.infeasible, reduced) => answerOrStop problem reduced
    | (.reduced, reduced) => (.again, { reduced with needEmit := true })

/-- `search_repair_admission`. -/
def searchRepairAdmission (search : CandidateSearch Digest) : Stage × CandidateSearch Digest :=
  match search.refusal with
  | none => (.next, search)
  | some (failure, remark) =>
    if mayRepairAgain options search then
      match advanceAdmissionFetch problem search.schedule remark with
      | .failed => (.done (-1), search)
      | .moved schedule constraint =>
        recordAdmissionMove problem search failure remark schedule constraint fun repairs =>
          { repairs with
            admissionFetchAdvanceAttempts := repairs.admissionFetchAdvanceAttempts + 1 }
      | .unmoved =>
        match delayAdmissionFetch problem search.schedule failure remark with
        | .failed => (.done (-1), search)
        | .moved schedule constraint =>
          recordAdmissionMove problem search failure remark schedule constraint
            fun repairs =>
              { repairs with
                admissionFetchDelayAttempts := repairs.admissionFetchDelayAttempts + 1 }
        | .unmoved => pressAdmission problem search failure remark
    else refuseAdmission problem options search failure remark

/-! ## What the caches answer

With `fresh`, a cache is emptied before it is asked. -/

/-- A candidate's own step, which the caches have no part in. -/
def onSearch {α : Type} (step : CandidateSearch Digest → α × CandidateSearch Digest) :
    StateM (Worker Intervals Digest) α :=
  fun worker => ((step worker.search).1, { worker with search := (step worker.search).2 })

/-- `shadowspill_candidate_emit_cached`, of the residency in hand. -/
def emission (fresh : Bool) : StateM (Worker Intervals Digest) (Option IndexedSchedule) :=
  fun worker =>
    let search := worker.search
    let memo := if fresh then ⟨[], 0⟩ else worker.caches.scheduleMemo
    let headroom := (residencyOptions search.strategy).fetchHeadroom.toNat
    match emitCached problem.emit memo search.resident.fingerprint search.resident.residency
        search.extraPressure search.rule headroom with
    | none =>
      (none,
        { worker with
          history := .emitted search.resident.residency search.extraPressure none ::
            worker.history })
    | some (schedule, kept) =>
      (some schedule,
        { worker with
          history := .emitted search.resident.residency search.extraPressure (some schedule) ::
            worker.history
          caches := { worker.caches with scheduleMemo := kept } })

/-- What the search sees of an outcome. -/
def shown : Outcome Intervals Replay Annotation → Answer
  | .failed => .failed
  | .endless => .endless
  | .refused replay remark => .refused replay remark
  | .admitted summary violationCount _ _ => .admitted summary violationCount

/-- The timelines and the entry that an outcome leaves. -/
def leftBehind : Outcome Intervals Replay Annotation → Option Intervals × Option Nat
  | .admitted _ _ intervals entry => (intervals, some entry)
  | _ => (none, none)

/-- `shadowspill_candidate_simulate_cached`, of the schedule in hand. -/
def simulation (fresh : Bool) : StateM (Worker Intervals Digest) Answer := fun worker =>
  let memo := if fresh then ⟨[], [], 0⟩ else worker.caches.simulationMemo
  let result := simulateCached problem.simulate memo worker.caches.firstViolation
    worker.search.schedule
  (shown result.1,
    { worker with
      history := .simulated worker.search.schedule (shown result.1) :: worker.history
      caches :=
        { worker.caches with
          simulationMemo := result.2.1
          firstViolation := result.2.2
          intervals := (leftBehind result.1).1
          simulationEntry := (leftBehind result.1).2 } })

/-- The entry of the simulation in hand. -/
def entryInHand (worker : Worker Intervals Digest) : Option (SimulationMemoEntry Digest) :=
  worker.caches.simulationEntry.bind fun entry => worker.caches.simulationMemo.entries[entry]?

/-- The fingerprint of the simulation in hand. -/
def identityInHand : StateM (Worker Intervals Digest) Fingerprint := fun worker =>
  (((entryInHand worker).map (·.identity)).getD ⟨0, 0⟩, worker)

/-- Write the name of the schedule into the entry of the simulation in hand. -/
def nameEntry (worker : Worker Intervals Digest) (digest : Digest) : Worker Intervals Digest :=
  let memo := worker.caches.simulationMemo
  { worker with
    caches :=
      { worker.caches with
        simulationMemo :=
          { memo with
            entries :=
              match worker.caches.simulationEntry with
              | none => memo.entries
              | some entry =>
                memo.entries.modify entry fun held => { held with digest := some digest } } } }

/-- `schedule_name`. -/
def scheduleName : StateM (Worker Intervals Digest) Digest := fun worker =>
  match (entryInHand worker).bind (·.digest) with
  | some digest => (digest, worker)
  | none =>
    let digest := problem.digest worker.search.schedule
    (digest, nameEntry worker digest)

/-- The timelines of the plan in hand: what the memo dropped is simulated again.  There is
no result if that fails. -/
def timelines : StateM (Worker Intervals Digest) (Option (Option Intervals)) := fun worker =>
  match worker.caches.intervals with
  | some intervals => (some (some intervals), worker)
  | none =>
    match problem.simulate worker.search.schedule with
    | .failed => (none, worker)
    | .refused _ _ =>
      (some none,
        { worker with
          search :=
            { worker.search with simulation := .zero, capacityViolationCount := 0 } })
    | .admitted simulation =>
      (some (some simulation.intervals),
        { worker with
          search :=
            { worker.search with
              simulation := simulation.summary
              capacityViolationCount := simulation.violations.length }
          caches :=
            { worker.caches with
              firstViolation :=
                violationSlot worker.caches.firstViolation simulation.violations
              intervals := some simulation.intervals } })

/-- The first violation in the workspace. -/
def firstViolation : StateM (Worker Intervals Digest) (Option CapacityViolation) :=
  fun worker => (worker.caches.firstViolation, worker)

/-! ## Stages -/

/-- The next stage, if there is one in this round. -/
def andThen (first second : StateM (Worker Intervals Digest) Stage) :
    StateM (Worker Intervals Digest) Stage := do
  let stage ← first
  if stage = .next then second else pure stage

/-- The rest of `search_emit`, once a schedule is emitted. -/
def constrainEmitted (emitted : Option IndexedSchedule) (search : CandidateSearch Digest) :
    Stage × CandidateSearch Digest :=
  match emitted with
  | none => (.done (-1), search)
  | some schedule =>
    match problem.constrain search.fetchConstraints schedule with
    | .failed => (.done (-1), { search with schedule := schedule })
    | .contradicted constrained =>
      answerOrStop problem
        ({ search with schedule := constrained }.report fun diagnostic =>
          { diagnostic with status := .admissionInfeasible })
    | .met constrained => (.next, { search with schedule := constrained, needEmit := false })

/-- `search_emit`. -/
def searchEmit (fresh : Bool) : StateM (Worker Intervals Digest) Stage := do
  let emitted ← emission problem fresh
  onSearch (constrainEmitted problem emitted)

/-- The rest of `search_simulate`. -/
def takeAnswer (answer : Answer) (search : CandidateSearch Digest) :
    Stage × CandidateSearch Digest :=
  match answer with
  | .failed => (.done (-1), { search with refusal := none })
  | .endless => (.stuck, { search with refusal := none })
  | .refused replay remark =>
    (.next,
      { search with
        simulation := .zero
        capacityViolationCount := 0
        simulationStatus := .ok
        refusal := some (replay, remark) })
  | .admitted summary violationCount =>
    (.next,
      { search with
        simulation := summary
        capacityViolationCount := violationCount
        simulationStatus := summary.status
        refusal := none })

/-- `search_simulate`. -/
def searchSimulate (fresh : Bool) : StateM (Worker Intervals Digest) Stage := do
  let answer ← simulation problem fresh
  onSearch (takeAnswer answer)

/-- `search_digest`. -/
def searchDigest (search : CandidateSearch Digest) : Stage × CandidateSearch Digest :=
  (.next,
    { search with
      improves := search.bestMakespanNs = 0 ∨
        search.simulation.makespanNs < search.bestMakespanNs })

/-- `search_refine_capacity`. -/
def searchRefineCapacity (requiredBytes poolBytes : Nat) (search : CandidateSearch Digest) :
    Stage × CandidateSearch Digest :=
  let shortfall := requiredBytes - poolBytes
  let step := options.capacityRefinementBytes
  let overage := if step = 0 ∨ shortfall < step then shortfall else step
  let refined :=
    { search with
      planCapacityBytes := search.planCapacityBytes - overage
      extraPressure := search.extraPressure.map fun cell => wrap (cell + overage)
      planCapacityGivenBack := wrap (search.planCapacityGivenBack + overage)
      lastErrorTask := none
      lastErrorTimeNs := 0
      failureRepeats := 0
      resident := search.baseResident
      fetchConstraints := [] }.report fun diagnostic =>
        { diagnostic with capacityRefinements := diagnostic.capacityRefinements + 1 }
  match reduceRepairedCandidate problem refined with
  | (.reduced, reduced) => (.again, { reduced with needEmit := true })
  | (_, reduced) => (.next, reduced)

/-- `candidate_refuses`. -/
def candidateRefuses (search : CandidateSearch Digest) : Bool :=
  search.placedMakespanNs ≠ 0 ∧ search.simulation.makespanNs ≥ search.placedMakespanNs

/-- `shared_refuses`. -/
def sharedRefuses (bound : Nat) (search : CandidateSearch Digest) : Bool :=
  bound ≠ 0 ∧ search.simulation.makespanNs ≥ bound

/-- Whether the plan in hand is not worth measuring; the shared record reads what it reads
once the worker has done so much. -/
def refuses (bound : List (Event Digest) → Nat) : StateM (Worker Intervals Digest) Bool :=
  fun worker =>
    (if options.deterministic then candidateRefuses worker.search
      else sharedRefuses (bound worker.history) worker.search, worker)

def poolBytes : Nat :=
  match problem.placement with
  | none => 0
  | some pool => pool.poolCapacityBytes

/-- The plan in hand was placed last: refine again if it did not fit. -/
def refineAgain (search : CandidateSearch Digest) : Stage × CandidateSearch Digest :=
  if search.placedRequiredBytes > poolBytes problem then
    searchRefineCapacity problem options search.placedRequiredBytes (poolBytes problem) search
  else (.next, search)

/-- Take up a placement. -/
def attemptPlacement (identity : Fingerprint) (search : CandidateSearch Digest) :
    Unit × CandidateSearch Digest :=
  ((),
    { search with placedIdentity := identity }.report fun diagnostic =>
      { diagnostic with placementsAttempted := diagnostic.placementsAttempted + 1 })

/-- The bytes that the plan in hand needs, if it has a layout. -/
def measurePlan (intervals : Option Intervals) (search : CandidateSearch Digest) :
    Option Nat × CandidateSearch Digest :=
  let required :=
    if problem.placement.isNone ∨ search.simulation.makespanNs = 0 then none
    else intervals.bind (problem.placePlan search.schedule)
  (required, { search with placedRequiredBytes := required.getD 0 })

/-- The record that `search_keep_placed` offers. -/
def offerPlaced (digest : Digest) : StateM (Worker Intervals Digest) Unit := fun worker =>
  let search := worker.search
  let record : BestPlacedRecord Digest :=
    { makespanNs := search.simulation.makespanNs
      objectCapacityBytes := search.planCapacityBytes
      capacityGivenBackBytes := search.planCapacityGivenBack
      residencyStrategy := search.strategy
      fetchRule := search.rule
      scheduleDigest := digest
      schedule := search.schedule }
  ((), { worker with history := .offered record :: worker.history })

/-- Keep the placed plan if it is the candidate's best. -/
def keepIfBest (search : CandidateSearch Digest) : Bool × CandidateSearch Digest :=
  let admitted := search.report fun diagnostic =>
    { diagnostic with placementsAdmitted := diagnostic.placementsAdmitted + 1 }
  if candidateRefuses admitted then (false, admitted)
  else
    (true,
      { admitted with
        placedMakespanNs := search.simulation.makespanNs
        best := search.schedule }.report fun diagnostic =>
          { diagnostic with repairsAtBest := some diagnostic.repairs.total })

/-- Name the plan that was kept. -/
def nameBest (digest : Digest) (search : CandidateSearch Digest) :
    Unit × CandidateSearch Digest :=
  ((), { search with bestDigest := digest })

/-- `search_keep_placed`. -/
def searchKeepPlaced : StateM (Worker Intervals Digest) Stage := do
  let digest ← scheduleName problem
  offerPlaced digest
  let kept ← onSearch keepIfBest
  if kept then do
    let name ← scheduleName problem
    onSearch (nameBest name)
    pure .next
  else pure .next

/-- A plan that does not fit: delay one fetch, or give capacity back. -/
def moveOrRefine (intervals : Option Intervals) (requiredBytes : Nat)
    (search : CandidateSearch Digest) : Stage × CandidateSearch Digest :=
  let progressed := ¬ search.layoutMoved ∨ requiredBytes < search.layoutRequiredBeforeMove
  let missed :=
    { search with layoutMoved := false }.report fun diagnostic =>
      { diagnostic with
        unplacedPlans := diagnostic.unplacedPlans + 1
        bestUnplacedMakespanNs :=
          if diagnostic.bestUnplacedMakespanNs = 0 ∨
              search.simulation.makespanNs < diagnostic.bestUnplacedMakespanNs then
            search.simulation.makespanNs
          else diagnostic.bestUnplacedMakespanNs }
  let delay :=
    if progressed ∧ mayRepairAgain options missed then
      intervals.bind fun held =>
        (problem.layoutDelay search.schedule held (requiredBytes - poolBytes problem)).bind
          fun constraint => recordFetchConstraint constraint search.fetchConstraints
    else none
  match delay with
  | none => searchRefineCapacity problem options requiredBytes (poolBytes problem) missed
  | some constraints =>
    (.again,
      { missed with
        fetchConstraints := constraints
        layoutMoved := true
        layoutRequiredBeforeMove := requiredBytes
        needEmit := true }.repaired fun repairs =>
          { repairs with layoutFetchDelayAttempts := repairs.layoutFetchDelayAttempts + 1 })

/-- Place a plan that was not placed last. -/
def placeNew (identity : Fingerprint) : StateM (Worker Intervals Digest) Stage := do
  onSearch (attemptPlacement identity)
  let replayed ← timelines problem
  match replayed with
  | none => pure (.done (-1))
  | some intervals => do
    let measured ← onSearch (measurePlan problem intervals)
    match measured with
    | none => pure .next
    | some requiredBytes =>
      if requiredBytes ≤ poolBytes problem then searchKeepPlaced problem
      else onSearch (moveOrRefine problem options intervals requiredBytes)

/-- `search_place`. -/
def searchPlace (bound : List (Event Digest) → Nat) : StateM (Worker Intervals Digest) Stage := do
  let refused ← refuses options bound
  if refused then pure .next
  else do
    let identity ← identityInHand
    let placed ← onSearch fun search => (search.placedIdentity, search)
    if placed = identity then onSearch (refineAgain problem options)
    else placeNew problem options identity

/-- `present_shortfall_as_error`. -/
def presentShortfallAsError (shortfall : Option CapacityViolation)
    (search : CandidateSearch Digest) : Stage × CandidateSearch Digest :=
  match shortfall with
  | none => (.next, search)
  | some violation =>
    (.next,
      { search with
        simulation :=
          { search.simulation with
            status :=
              if violation.reason = .taskDevice then .taskDeviceCapacity
              else .fetchDeviceCapacity
            errorTask := violation.task
            errorAlias := violation.aliasId
            errorDevice := violation.device
            errorLocation := some violation.location
            errorTimeNs := violation.timeNs
            errorCapacityBytes := violation.capacityBytes
            errorUsedBytes := violation.usedBytes
            errorRequestedBytes := violation.requestedBytes } })

/-- Keep a plan that waits for memory before it is repaired. -/
def keepStalling (search : CandidateSearch Digest) : Bool × CandidateSearch Digest :=
  if search.improves ∧ problem.placement.isNone then
    (true,
      { search with
        bestMakespanNs := search.simulation.makespanNs
        best := search.schedule })
  else (false, search)

/-- A plan that waits for memory is repaired. -/
def settleStalling : StateM (Worker Intervals Digest) Stage := do
  let kept ← onSearch (keepStalling problem)
  if kept then do
    let name ← scheduleName problem
    onSearch (nameBest name)
    let shortfall ← firstViolation
    onSearch (presentShortfallAsError shortfall)
  else do
    let shortfall ← firstViolation
    onSearch (presentShortfallAsError shortfall)

/-- The count of violations, as the candidate reports it. -/
def reportViolations (search : CandidateSearch Digest) : CandidateSearch Digest :=
  search.report fun diagnostic =>
    { diagnostic with capacityViolationCount := search.capacityViolationCount }

/-- Answer with a plan that was set aside. -/
def settleKept (search : CandidateSearch Digest) : Stage × CandidateSearch Digest :=
  if problem.placement.isSome then
    if search.placedMakespanNs = 0 then
      (.done 0, search.report fun diagnostic => { diagnostic with status := .unplaceable })
    else answerWithKept (reportViolations search) search.placedMakespanNs
  else answerWithKept (reportViolations search) search.bestMakespanNs

/-- Answer with the plan in hand. -/
def settleInHand (digest : Digest) (search : CandidateSearch Digest) :
    Stage × CandidateSearch Digest :=
  (.done 1, setAnswer (reportViolations search) search.simulation.makespanNs digest)

/-- `search_settle`. -/
def searchSettle : StateM (Worker Intervals Digest) Stage := do
  let stalls ← onSearch fun search =>
    (decide (0 < search.capacityViolationCount ∧ mayRepairAgain options search), search)
  if stalls then settleStalling problem
  else do
    let answers ← onSearch fun search =>
      (decide (search.improves ∧ problem.placement.isNone), search)
    if answers then do
      let digest ← scheduleName problem
      onSearch (settleInHand digest)
    else onSearch (settleKept problem)

/-! ## Repairing -/

/-- The end of `search_repair`, when nothing is left to try. -/
def giveUp (search : CandidateSearch Digest) : Stage × CandidateSearch Digest :=
  if search.bestMakespanNs ≠ 0 then answerWithKept search search.bestMakespanNs
  else
    answerOrStop problem <| copySimulationError <| search.report fun diagnostic =>
      { diagnostic with
        status :=
          if ¬ mayRepairAgain options search ∧
              (search.simulationStatus = .initialDeviceCapacity ∨
                search.simulationStatus = .fetchDeviceCapacity ∨
                  search.simulationStatus = .taskDeviceCapacity) then
            .repairExhausted
          else .simulationInfeasible }

/-- What follows the reduction of a repair. -/
def concludeReduction (verdict : Reduced) (search : CandidateSearch Digest) :
    Stage × CandidateSearch Digest :=
  match verdict with
  | .failed => (.done (-1), search)
  | .reduced => (.again, { search with needEmit := true })
  | .infeasible =>
    if search.bestMakespanNs ≠ 0 then answerWithKept search search.bestMakespanNs
    else answerOrStop problem search

/-- Take back what was asked beyond the shortfall. -/
def takeBack (beyond : Nat) (search : CandidateSearch Digest) : CandidateSearch Digest :=
  { search with
    extraPressure := search.extraPressure.modify search.lastPressurePosition
      fun cell => wrapSub cell beyond
    failureRepeats := 0 }.report fun diagnostic =>
      { diagnostic with escalationsTakenBack := diagnostic.escalationsTakenBack + 1 }

/-- Make room where the plan came up short, and reduce again. -/
def pressFailure (search : CandidateSearch Digest) : Stage × CandidateSearch Digest :=
  let failure := search.simulation
  let repeats :=
    if failure.errorTask = search.lastErrorTask ∧
        failure.errorTimeNs = search.lastErrorTimeNs then
      search.failureRepeats + 1
    else 0
  let counted :=
    { search with
      failureRepeats := repeats
      lastErrorTask := failure.errorTask
      lastErrorTimeNs := failure.errorTimeNs }
  match addRepairPressure problem counted repeats with
  | (none, unpressed) => giveUp problem options unpressed
  | (some beyond, pressed) =>
    let asked := (pressed.repaired fun repairs =>
      { repairs with
        simulationPressureBoundaryAttempts :=
          repairs.simulationPressureBoundaryAttempts + 1 }).report fun diagnostic =>
      { diagnostic with
        pressureEscalations :=
          diagnostic.pressureEscalations + if beyond ≠ 0 then 1 else 0 }
    let first := reduceRepairedCandidate problem asked
    if first.1 = .infeasible ∧ beyond ≠ 0 then
      let second := reduceRepairedCandidate problem (takeBack beyond first.2)
      concludeReduction problem second.1 second.2
    else concludeReduction problem first.1 first.2

/-- `search_repair`. -/
def searchRepair (search : CandidateSearch Digest) : Stage × CandidateSearch Digest :=
  if mayRepairAgain options search then
    match problem.delayFetch search.simulation search.schedule with
    | .failed => (.done (-1), search)
    | .moved schedule constraint =>
      let moved := { search with schedule := schedule }
      match recordFetchConstraint constraint search.fetchConstraints with
      | none =>
        answerOrStop problem <| copySimulationError <| moved.report fun diagnostic =>
          { diagnostic with status := .simulationInfeasible }
      | some constraints =>
        (.again,
          { moved with fetchConstraints := constraints }.repaired fun repairs =>
            { repairs with
              simulationFetchDelayAttempts := repairs.simulationFetchDelayAttempts + 1 })
    | .unmoved => pressFailure problem options search
  else giveUp problem options search

/-! ## The cycle -/

/-- A plan that simulated is a plan that could be the answer. -/
def settleSimulated (bound : List (Event Digest) → Nat) :
    StateM (Worker Intervals Digest) Stage := do
  let status ← onSearch fun search => (search.simulationStatus, search)
  if status = .ok then
    andThen (onSearch searchDigest) <|
      andThen (searchPlace problem options bound) (searchSettle problem options)
  else pure .next

/-- One turn of the loop of `shadowspill_candidate_evaluate_candidate`. -/
def searchRound (bound : List (Event Digest) → Nat) (fresh : Bool) :
    StateM (Worker Intervals Digest) Stage := do
  let emits ← onSearch fun search => (search.needEmit, search)
  andThen (if emits then searchEmit problem fresh else pure .next) <|
    andThen (searchSimulate problem fresh) <|
      andThen (onSearch (searchRepairAdmission problem options)) <|
        andThen (settleSimulated problem options bound) <|
          onSearch (searchRepair problem options)

/-- So many turns, unless one ends the candidate. -/
def searchRounds (bound : List (Event Digest) → Nat) (fresh : Bool) :
    Nat → StateM (Worker Intervals Digest) Stage
  | 0 => pure .again
  | count + 1 => do
    let stage ← searchRound problem options bound fresh
    if stage = .next ∨ stage = .again then searchRounds bound fresh count else pure stage

/-- `search_begin`. -/
def searchBegin (search : CandidateSearch Digest) : CandidateSearch Digest :=
  { search with
    resident := search.baseResident
    extraPressure := List.replicate (problem.deviceCount * problem.boundaryCount) 0
    planCapacityGivenBack := 0
    fetchConstraints := []
    needEmit := true
    planCapacityBytes := (problem.placement.map (·.objectCapacityBytes)).getD 0
    bestMakespanNs := 0
    bestDigest := problem.blankDigest
    placedMakespanNs := 0
    placedIdentity := ⟨0, 0⟩
    placedRequiredBytes := 0
    lastErrorTask := none
    lastErrorTimeNs := 0
    failureRepeats := 0
    layoutMoved := false
    layoutRequiredBeforeMove := 0
    simulation := .zero
    capacityViolationCount := 0
    simulationStatus := .ok
    refusal := none
    improves := false
    diagnostic := initializeDiagnostic problem.blankDigest search.strategy search.rule }

/-- The base reduction of `worker_evaluate_task`, and the start of the candidate's search
if it succeeds. -/
def takeUp (task : Task) (search : CandidateSearch Digest) : Stage × CandidateSearch Digest :=
  let pressure := List.replicate (problem.deviceCount * problem.boundaryCount) 0
  let reduction := problem.reduce (residencyOptions task.strategy) pressure
  let based :=
    { search with
      strategy := task.strategy
      rule := task.rule
      extraPressure := pressure
      baseResident := NamedResidency.of reduction.residency
      diagnostic := initializeDiagnostic problem.blankDigest task.strategy task.rule }
  if reduction.status = .analyticInfeasible then (.done 0, copyAnalyticError based reduction)
  else if reduction.status = .ok then (.next, searchBegin problem based)
  else (.done (-1), based)

/-- `worker_evaluate_task`. -/
def workerEvaluateTask (bound : List (Event Digest) → Nat) (fresh : Bool) (task : Task) :
    StateM (Worker Intervals Digest) Stage :=
  andThen (onSearch (takeUp problem task)) (searchRounds problem options bound fresh task.rounds)

/-- The candidates that one worker takes up on a problem, each with how it ended and what
it held then; the next one only starts once the last one ended without failing. -/
def workerTasks (bound : List (Event Digest) → Nat) (fresh : Bool) :
    List Task → StateM (Worker Intervals Digest) (List (Stage × CandidateSearch Digest))
  | [] => pure []
  | task :: rest => do
    let stage ← workerEvaluateTask problem options bound fresh task
    let held ← onSearch fun search => (search, search)
    if stage = .done 0 ∨ stage = .done 1 then do
      let reports ← workerTasks bound fresh rest
      pure ((stage, held) :: reports)
    else pure [(stage, held)]

end Stages

end ShadowSpill.Planner.Search.CandidateStages
