import ShadowSpill.Library.Ownership
import ShadowSpill.Library.Word64
import ShadowSpill.Status
import ShadowSpill.Planner.AdmissionTypes
import ShadowSpill.Planner.ReuseOwners

/-!
# Reuse dependencies of a fixed layout

Leases are taken in causal order.  The owner tree names the latest lease at
each address; the leases it names across a successor's range are its
predecessors, and each such pair is checked and recorded.
`recoverLayoutReuse_refuses` and `recoverLayoutReuse_reports` say that exactly
the direct successions are checked and reported, and `recoverLayoutReuse_sound`
that those stand for every pair of leases that share an address.  Owners and
node numbers are unbounded here; up to 2^29 leases they are those of the source,
whose owners are `int32_t` and whose nodes are counted in 32 bits.
-/

namespace ShadowSpill.Planner.Reuse

open Library.Coordinates Library.Ownership Library.Word64 AdmissionTypes ReuseOwners

/-- `ShadowSpillLayoutReuseProblem`. -/
structure LayoutReuseProblem where
  abiVersion : Nat
  operations : AdmissionOperations
  schedule : IndexedSchedule
  leases : List PlacedLease
deriving Repr

/-- `ShadowSpillLayoutReuseRefusal`. -/
inductive Refusal where
  | overlap
  | noDependency
  | predecessorWithoutTask
  | successorWithoutConsumer
deriving DecidableEq, Repr

/-- A refusal and the leases it names. -/
structure Refused where
  refusal : Refusal
  predecessor : Nat
  successor : Nat
deriving DecidableEq, Repr

/-- Where a lease's retirement sits and what it publishes. -/
structure Retirement where
  dependencyId : Nat
  task : Nat
  action : Option Nat
  purpose : Purpose
deriving DecidableEq, Repr

/-- One reuse: the leases by index, and by id for ordering. -/
structure ReusePair where
  successorId : Nat
  dependencyId : Nat
  predecessorId : Nat
  predecessor : Nat
  successor : Nat
deriving DecidableEq, Repr

/-- One reported dependency. -/
structure ReuseRow where
  dependencyId : Nat
  predecessorLease : Nat
  predecessorPurpose : Purpose
  predecessorTask : Nat
  predecessorAction : Option Nat
  successorLease : Nat
  successorTask : Option Nat
  successorAction : Option Nat
deriving DecidableEq, Repr

/-- `ShadowSpillLayoutReuseResult`, less the caller's capacity. -/
structure LayoutReuseResult where
  rows : List ReuseRow
  count : Nat
  refused : Option Refused
deriving DecidableEq, Repr

/-- The lease at an index. -/
def LayoutReuseProblem.leaseAt (problem : LayoutReuseProblem) (index : Nat) :
    PlacedLease :=
  problem.leases.getD index ⟨⟨0, 0, 0, 0⟩, ⟨0, 0, 0, none, none, none,
    .initialObject⟩, 0⟩

/-- Where a lease's range begins. -/
def LayoutReuseProblem.startOf (problem : LayoutReuseProblem) (index : Nat) : Nat :=
  (problem.leaseAt index).offset

/-- Where a lease's range ends. -/
def LayoutReuseProblem.endOf (problem : LayoutReuseProblem) (index : Nat) : Nat :=
  wrap ((problem.leaseAt index).offset + (problem.leaseAt index).lifetime.bytes)

/-- `retirement`: what a predecessor's retirement publishes, or the refusal. -/
def retirement (problem : LayoutReuseProblem) (leaseId : Nat) :
    Except Refusal Retirement :=
  match problem.operations.leases[leaseId]? with
  | none => .error .noDependency
  | some lease =>
      match lease.retire with
      | none => .error .noDependency
      | some retire =>
          match problem.operations.operations[retire]? with
          | none => .error .noDependency
          | some operation =>
              match operation.dependencyId with
              | none => .error .noDependency
              | some dependencyId =>
                  match operation.boundary with
                  | .actionTrigger | .actionCompletion =>
                      match problem.schedule.actions[operation.index]? with
                      | none => .error .predecessorWithoutTask
                      | some action =>
                          .ok ⟨dependencyId, action.triggerTask,
                            some operation.index, operation.purpose⟩
                  | .initial => .error .predecessorWithoutTask
                  | .taskStart | .taskCompletion =>
                      .ok ⟨dependencyId, operation.index, none, operation.purpose⟩

/-- The distinct range endpoints, sorted. -/
def coordinates (problem : LayoutReuseProblem) : List Nat :=
  distinct (((List.range problem.leases.length).flatMap fun index =>
    [problem.startOf index, problem.endOf index]).insertionSort (· ≤ ·))

/-- `coordinate_rank`. -/
def coordinateRank (coordinates : List Nat) (value : Nat) : Nat :=
  ordinal coordinates value

/-- A lease in causal order: its acquiring operation, its id to break ties. -/
structure Visit where
  causalStart : Nat
  leaseId : Nat
  index : Nat
deriving DecidableEq, Repr

/-- The visit of the lease at an index. -/
def visitOf (problem : LayoutReuseProblem) (index : Nat) : Visit where
  causalStart := (problem.leaseAt index).identity.causalStart
  leaseId := (problem.leaseAt index).identity.leaseId
  index := index

/-- `compare_visit`. -/
def compareVisit (first second : Visit) : Ordering :=
  if first.causalStart ≠ second.causalStart then
    if first.causalStart < second.causalStart then .lt else .gt
  else if first.leaseId ≠ second.leaseId then
    if first.leaseId < second.leaseId then .lt else .gt
  else .eq

instance : DecidableRel fun first second : Visit =>
    compareVisit first second ≠ .gt :=
  fun _ _ => inferInstanceAs (Decidable (_ ≠ _))

/-- The leases in causal order. -/
def visits (problem : LayoutReuseProblem) : List Nat :=
  (((List.range problem.leases.length).map (visitOf problem)).insertionSort
    fun first second => compareVisit first second ≠ .gt).map Visit.index

/-- `compare_pair`. -/
def comparePair (first second : ReusePair) : Ordering :=
  if first.successorId ≠ second.successorId then
    if first.successorId < second.successorId then .lt else .gt
  else if first.dependencyId ≠ second.dependencyId then
    if first.dependencyId < second.dependencyId then .lt else .gt
  else if first.predecessorId ≠ second.predecessorId then
    if first.predecessorId < second.predecessorId then .lt else .gt
  else .eq

instance : DecidableRel fun first second : ReusePair =>
    comparePair first second ≠ .gt :=
  fun _ _ => inferInstanceAs (Decidable (_ ≠ _))

/-- The tests of one pair, in the order the source makes them. -/
def checkPair (problem : LayoutReuseProblem) (predecessor successor : Nat) :
    Except Refusal ReusePair :=
  let before := (problem.leaseAt predecessor).identity
  let after := (problem.leaseAt successor).identity
  if before.causalEnd > after.causalStart then .error .overlap
  else
    match retirement problem before.leaseId with
    | .error refusal => .error refusal
    | .ok retired =>
        if after.task = none ∧ after.action = none then
          .error .successorWithoutConsumer
        else
          .ok ⟨after.leaseId, retired.dependencyId, before.leaseId, predecessor,
            successor⟩

/-- The pairs of one successor, or the first refusal. -/
def checkPredecessors (problem : LayoutReuseProblem) (successor : Nat) :
    List Nat → List ReusePair → Except Refused (List ReusePair)
  | [], pairs => .ok pairs
  | predecessor :: rest, pairs =>
      match checkPair problem predecessor successor with
      | .error refusal =>
          .error ⟨refusal, (problem.leaseAt predecessor).identity.leaseId,
            (problem.leaseAt successor).identity.leaseId⟩
      | .ok pair => checkPredecessors problem successor rest (pairs ++ [pair])

/-- The owners across a lease's range, as the tree names them. -/
def ownersAcross (problem : LayoutReuseProblem) (coordinates : List Nat)
    (tree : OwnerTree) (successor : Nat) : OwnerTree × List Nat :=
  query (coordinateRank coordinates (problem.startOf successor))
    (coordinateRank coordinates (problem.endOf successor))
    (coordinates.length - 1 + 1) tree 1 0 (coordinates.length - 1) []

/-- The tree once the lease owns its range. -/
def takeRange (problem : LayoutReuseProblem) (coordinates : List Nat)
    (tree : OwnerTree) (successor : Nat) : OwnerTree :=
  assign (coordinateRank coordinates (problem.startOf successor))
    (coordinateRank coordinates (problem.endOf successor)) (.lease successor)
    (coordinates.length - 1 + 1) tree 1 0 (coordinates.length - 1)

/-- One turn of the recovery: find the owners of the successor's range, make
it the owner, and check the pairs. -/
def recoverOne (problem : LayoutReuseProblem) (coordinates : List Nat)
    (state : OwnerTree × List ReusePair) (successor : Nat) :
    Except Refused (OwnerTree × List ReusePair) :=
  let looked := ownersAcross problem coordinates state.1 successor
  let tree := takeRange problem coordinates looked.1 successor
  (checkPredecessors problem successor looked.2 state.2).map fun pairs =>
    (tree, pairs)

/-- The recovery loop. -/
def recoverAll (problem : LayoutReuseProblem) (coordinates : List Nat) :
    List Nat → OwnerTree × List ReusePair →
      Except Refused (OwnerTree × List ReusePair)
  | [], state => .ok state
  | successor :: rest, state =>
      match recoverOne problem coordinates state successor with
      | .error refused => .error refused
      | .ok next => recoverAll problem coordinates rest next

/-- A recorded pair as it is reported. -/
def reuseRow (problem : LayoutReuseProblem) (pair : ReusePair) : ReuseRow :=
  let retired := (retirement problem pair.predecessorId).toOption.getD
    ⟨0, 0, none, .initialObject⟩
  let after := (problem.leaseAt pair.successor).identity
  { dependencyId := pair.dependencyId
    predecessorLease := pair.predecessorId
    predecessorPurpose := retired.purpose
    predecessorTask := retired.task
    predecessorAction := retired.action
    successorLease := pair.successorId
    successorTask := after.task
    successorAction := after.action }

/-- `shadowspill_recover_layout_reuse`. -/
def recoverLayoutReuse (problem : LayoutReuseProblem) (capacity : Nat) :
    Status × LayoutReuseResult :=
  if problem.abiVersion ≠ abiVersion ∨ 2 ^ 32 - 1 < problem.leases.length then
    (.invalidArgument, ⟨[], 0, none⟩)
  else
    match recoverAll problem (coordinates problem) (visits problem)
        (ownerTreeCreate, []) with
    | .error refused => (.invalidOperations, ⟨[], 0, some refused⟩)
    | .ok (_, pairs) =>
        if capacity < pairs.length then
          (.invalidArgument, ⟨[], pairs.length, none⟩)
        else
          (.ok, ⟨(pairs.insertionSort fun first second =>
            comparePair first second ≠ .gt).map (reuseRow problem),
              pairs.length, none⟩)

/-! ## Causal order -/

/-- The lease's range contains the byte. -/
def holds (problem : LayoutReuseProblem) (index byte : Nat) : Bool :=
  decide (problem.startOf index ≤ byte ∧ byte < problem.endOf index)

/-- The first lease is acquired before the second. -/
def CausallyBefore (problem : LayoutReuseProblem) (first second : Nat) : Prop :=
  (problem.leaseAt first).identity.causalStart <
      (problem.leaseAt second).identity.causalStart ∨
    ((problem.leaseAt first).identity.causalStart =
        (problem.leaseAt second).identity.causalStart ∧
      (problem.leaseAt first).identity.leaseId <
        (problem.leaseAt second).identity.leaseId)

theorem CausallyBefore.asymm (problem : LayoutReuseProblem) (first second : Nat)
    (before : CausallyBefore problem first second) :
    ¬ CausallyBefore problem second first := by
  unfold CausallyBefore at *
  omega

theorem compareVisit_ne_gt_iff (first second : Visit) :
    compareVisit first second ≠ .gt ↔
      first.causalStart < second.causalStart ∨
        (first.causalStart = second.causalStart ∧
          first.leaseId ≤ second.leaseId) := by
  unfold compareVisit
  split_ifs <;> simp <;> omega

instance : Std.Total fun first second : Visit =>
    compareVisit first second ≠ .gt where
  total := fun first second => by
    rw [compareVisit_ne_gt_iff, compareVisit_ne_gt_iff]
    omega

instance : IsTrans Visit fun first second =>
    compareVisit first second ≠ .gt where
  trans := fun first second third => by
    rw [compareVisit_ne_gt_iff, compareVisit_ne_gt_iff, compareVisit_ne_gt_iff]
    omega

section Order

variable {problem : LayoutReuseProblem}

/-- Every lease is visited once. -/
theorem visits_perm (problem : LayoutReuseProblem) :
    (visits problem).Perm (List.range problem.leases.length) := by
  have sorted := (List.perm_insertionSort
    (fun first second => compareVisit first second ≠ .gt)
    ((List.range problem.leases.length).map (visitOf problem))).map Visit.index
  refine sorted.trans (List.Perm.of_eq ?_)
  rw [List.map_map]
  exact List.map_id _

theorem mem_visits {index : Nat} :
    index ∈ visits problem ↔ index < problem.leases.length := by
  rw [(visits_perm problem).mem_iff, List.mem_range]

/-- No two leases share an id. -/
def DistinctIds (problem : LayoutReuseProblem) : Prop :=
  (problem.leases.map fun lease => lease.identity.leaseId).Nodup

theorem DistinctIds.inj (distinct : DistinctIds problem) {first second : Nat}
    (firstBound : first < problem.leases.length)
    (secondBound : second < problem.leases.length)
    (same : (problem.leaseAt first).identity.leaseId =
      (problem.leaseAt second).identity.leaseId) : first = second := by
  refine (@List.Nodup.getElem_inj_iff _ _ distinct first
    (by simpa using firstBound) second (by simpa using secondBound)).mp ?_
  simpa [LayoutReuseProblem.leaseAt, firstBound, secondBound] using same

/-- The leases are visited in causal order. -/
theorem visits_sorted (distinct : DistinctIds problem) :
    (visits problem).Pairwise (CausallyBefore problem) := by
  have sorted := List.pairwise_insertionSort
    (fun first second : Visit => compareVisit first second ≠ .gt)
    ((List.range problem.leases.length).map (visitOf problem))
  have indexed : ∀ visit ∈ ((List.range problem.leases.length).map
      (visitOf problem)).insertionSort
        (fun first second : Visit => compareVisit first second ≠ .gt),
      visitOf problem visit.index = visit := by
    intro visit mem
    obtain ⟨index, _, rfl⟩ := List.mem_map.mp ((List.mem_insertionSort _).mp mem)
    rfl
  have nodup : (visits problem).Nodup :=
    (visits_perm problem).nodup_iff.mpr List.nodup_range
  have inOrder : (visits problem).Pairwise fun first second =>
      compareVisit (visitOf problem first) (visitOf problem second) ≠ .gt := by
    refine List.pairwise_map.mpr (sorted.imp_of_mem ?_)
    intro first second firstMem secondMem ordered
    rwa [indexed first firstMem, indexed second secondMem]
  refine (inOrder.and nodup).imp_of_mem ?_
  rintro first second firstMem secondMem ⟨ordered, apart⟩
  rw [compareVisit_ne_gt_iff] at ordered
  have ids : (problem.leaseAt first).identity.leaseId ≠
      (problem.leaseAt second).identity.leaseId := fun same =>
    apart (distinct.inj (mem_visits.mp firstMem) (mem_visits.mp secondMem) same)
  simp only [visitOf] at ordered
  unfold CausallyBefore
  omega

end Order

/-! ## One turn -/

section Turn

variable {problem : LayoutReuseProblem}

/-- The pair passes the causal and the retirement test. -/
def Retired (problem : LayoutReuseProblem) (predecessor successor : Nat) : Prop :=
  (problem.leaseAt predecessor).identity.causalEnd ≤
      (problem.leaseAt successor).identity.causalStart ∧
    ∃ retired, retirement problem (problem.leaseAt predecessor).identity.leaseId =
      .ok retired

/-- The successor names a task or an action that can wait. -/
def HasConsumer (problem : LayoutReuseProblem) (successor : Nat) : Prop :=
  ¬ ((problem.leaseAt successor).identity.task = none ∧
    (problem.leaseAt successor).identity.action = none)

/-- The recorded pair names its two leases. -/
def Names (problem : LayoutReuseProblem) (pair : ReusePair)
    (predecessor successor : Nat) : Prop :=
  (pair.predecessor = predecessor ∧ pair.successor = successor) ∧
    pair.predecessorId = (problem.leaseAt predecessor).identity.leaseId ∧
    pair.successorId = (problem.leaseAt successor).identity.leaseId

/-- A pair passes its tests or is refused, and names its two leases. -/
theorem checkPair_cases (problem : LayoutReuseProblem)
    (predecessor successor : Nat) :
    (∃ pair, checkPair problem predecessor successor = .ok pair ∧
        Retired problem predecessor successor ∧ HasConsumer problem successor ∧
        Names problem pair predecessor successor) ∨
      ∃ refusal, checkPair problem predecessor successor = .error refusal ∧
        ¬ (Retired problem predecessor successor ∧
          HasConsumer problem successor) := by
  unfold checkPair Retired HasConsumer
  by_cases overlap : (problem.leaseAt predecessor).identity.causalEnd >
      (problem.leaseAt successor).identity.causalStart
  · simp only [overlap, if_true]
    exact Or.inr ⟨_, rfl, fun both => not_le.mpr overlap both.1.1⟩
  simp only [overlap, if_false]
  cases retired :
      retirement problem (problem.leaseAt predecessor).identity.leaseId with
  | error refusal =>
      refine Or.inr ⟨refusal, rfl, ?_⟩
      rintro ⟨⟨_, _, isOk⟩, _⟩
      cases isOk
  | ok published =>
      by_cases idle : (problem.leaseAt successor).identity.task = none ∧
          (problem.leaseAt successor).identity.action = none
      · simp only [idle, and_self, if_true]
        exact Or.inr ⟨_, rfl, by simp⟩
      · exact Or.inl ⟨_, if_neg idle, ⟨not_lt.mp overlap, published, rfl⟩, idle,
          ⟨rfl, rfl⟩, rfl, rfl⟩

theorem names_of_checkPair {predecessor successor : Nat} {pair : ReusePair}
    (checked : checkPair problem predecessor successor = .ok pair) :
    Names problem pair predecessor successor := by
  rcases checkPair_cases problem predecessor successor with
    ⟨other, isOk, _, _, names⟩ | ⟨refusal, failed, _⟩
  · rw [checked] at isOk
    exact Except.ok.inj isOk ▸ names
  · rw [checked] at failed
    cases failed

theorem isOk_checkPair_iff {predecessor successor : Nat} :
    (∃ pair, checkPair problem predecessor successor = .ok pair) ↔
      Retired problem predecessor successor ∧ HasConsumer problem successor := by
  rcases checkPair_cases problem predecessor successor with
    ⟨pair, isOk, retired, consumer, _⟩ | ⟨refusal, failed, fails⟩
  · exact iff_of_true ⟨pair, isOk⟩ ⟨retired, consumer⟩
  · refine iff_of_false ?_ fails
    rintro ⟨pair, isOk⟩
    rw [failed] at isOk
    cases isOk

/-- The pairs recorded for one successor's predecessors. -/
abbrev EachChecked (problem : LayoutReuseProblem) (successor : Nat) :
    List Nat → List ReusePair → Prop :=
  List.Forall₂ fun predecessor pair =>
    checkPair problem predecessor successor = .ok pair

/-- The pairs of one successor are all recorded, in order, or the first that
fails is refused. -/
theorem checkPredecessors_spec (problem : LayoutReuseProblem) (successor : Nat)
    (predecessors : List Nat) (pairs : List ReusePair) :
    (∃ found, checkPredecessors problem successor predecessors pairs =
        .ok (pairs ++ found) ∧
      EachChecked problem successor predecessors found) ∨
      ∃ predecessor ∈ predecessors, ∃ refusal,
        checkPair problem predecessor successor = .error refusal ∧
        checkPredecessors problem successor predecessors pairs =
          .error ⟨refusal, (problem.leaseAt predecessor).identity.leaseId,
            (problem.leaseAt successor).identity.leaseId⟩ := by
  induction predecessors generalizing pairs with
  | nil => exact Or.inl ⟨[], by rw [checkPredecessors, List.append_nil], .nil⟩
  | cons predecessor rest ih =>
      rw [checkPredecessors]
      cases checked : checkPair problem predecessor successor with
      | error refusal =>
          exact Or.inr ⟨predecessor, by simp, refusal, checked, rfl⟩
      | ok pair =>
          rcases ih (pairs ++ [pair]) with ⟨found, result, each⟩ |
            ⟨other, mem, refusal, failed, result⟩
          · refine Or.inl ⟨pair :: found, ?_, .cons checked each⟩
            simpa using result
          · exact Or.inr ⟨other, by simp [mem], refusal, failed, result⟩

section Recorded

variable {successor : Nat} {predecessors : List Nat} {found : List ReusePair}

theorem EachChecked.mem_iff
    (each : EachChecked problem successor predecessors found) (pair : ReusePair) :
    pair ∈ found ↔ ∃ predecessor ∈ predecessors,
      checkPair problem predecessor successor = .ok pair := by
  induction each with
  | nil => simp
  | cons checked _ ih =>
      rw [List.mem_cons, ih]
      simp [checked, eq_comm]

theorem EachChecked.exists_ok
    (each : EachChecked problem successor predecessors found) {predecessor : Nat}
    (mem : predecessor ∈ predecessors) :
    ∃ pair, checkPair problem predecessor successor = .ok pair := by
  induction each with
  | nil => cases mem
  | cons checked _ ih =>
      rcases List.mem_cons.mp mem with rfl | mem
      · exact ⟨_, checked⟩
      · exact ih mem

theorem EachChecked.map_indices
    (each : EachChecked problem successor predecessors found) :
    found.map (fun pair => (pair.predecessor, pair.successor)) =
      predecessors.map fun predecessor => (predecessor, successor) := by
  induction each with
  | nil => rfl
  | cons checked _ ih =>
      rw [List.map_cons, List.map_cons, ih]
      obtain ⟨⟨first, second⟩, _⟩ := names_of_checkPair checked
      rw [first, second]

end Recorded

theorem coordinates_strict (problem : LayoutReuseProblem) :
    (coordinates problem).Pairwise (· < ·) :=
  (distinct_spec _ (List.pairwise_insertionSort _ _)).1

theorem endpoint_mem {index : Nat} (bound : index < problem.leases.length) :
    problem.startOf index ∈ coordinates problem ∧
      problem.endOf index ∈ coordinates problem := by
  simp only [coordinates,
    (distinct_spec _ (List.pairwise_insertionSort _ _)).2, List.mem_insertionSort,
    List.mem_flatMap, List.mem_range]
  exact ⟨⟨index, bound, by simp⟩, ⟨index, bound, by simp⟩⟩

/-- A lease holds a byte exactly when its ordinals span the byte's segment. -/
theorem holds_iff_of_segment {index segment byte : Nat}
    (bound : index < problem.leases.length)
    (inSegment : InSegment (coordinates problem) segment byte) :
    holds problem index byte = true ↔
      coordinateRank (coordinates problem) (problem.startOf index) ≤ segment ∧
        segment < coordinateRank (coordinates problem) (problem.endOf index) := by
  have strict := coordinates_strict problem
  have ends := endpoint_mem bound
  rw [holds, decide_eq_true_eq, coordinateRank, coordinateRank,
    ordinal_le_iff_of_segment strict inSegment ends.1, ← not_le, ← not_le,
    ordinal_le_iff_of_segment strict inSegment ends.2]

/-- What the recovery keeps: the tree names the latest owner of every byte,
and the direct successions so far are recorded, each once. -/
structure Tracks (problem : LayoutReuseProblem) (passed : List Nat)
    (state : OwnerTree × List ReusePair) : Prop where
  owners : ∃ owners,
    Represents state.1 owners ((coordinates problem).length - 1 + 1) 1 0
        ((coordinates problem).length - 1) ∧
      ∀ segment byte, InSegment (coordinates problem) segment byte →
        owners segment = latest (holds problem) passed byte
  mem_iff : ∀ pair, pair ∈ state.2 ↔ ∃ predecessor successor,
    Succeeds (holds problem) passed predecessor successor ∧
      checkPair problem predecessor successor = .ok pair
  checked : ∀ predecessor successor,
    Succeeds (holds problem) passed predecessor successor →
      ∃ pair, checkPair problem predecessor successor = .ok pair
  nodup : (state.2.map fun pair => (pair.predecessor, pair.successor)).Nodup

/-- A refusal names a direct succession that fails its tests. -/
def Blames (problem : LayoutReuseProblem) (order : List Nat) (refused : Refused) :
    Prop :=
  ∃ predecessor successor,
    Succeeds (holds problem) order predecessor successor ∧
      checkPair problem predecessor successor = .error refused.refusal ∧
      refused.predecessor = (problem.leaseAt predecessor).identity.leaseId ∧
      refused.successor = (problem.leaseAt successor).identity.leaseId

theorem tracks_initial (problem : LayoutReuseProblem) :
    Tracks problem [] (ownerTreeCreate, []) where
  owners := by
    exact ⟨fun _ => none, represents_create 1 (by omega), fun _ _ _ => rfl⟩
  mem_iff := by
    intro pair
    constructor
    · intro mem
      cases mem
    · rintro ⟨_, _, ⟨passed, rest, split, _⟩, _⟩
      simp at split
  checked := by
    rintro _ _ ⟨passed, rest, split, _⟩
    simp at split
  nodup := List.nodup_nil

/-- The lookup finds the owners that the successor takes a byte from. -/
theorem owns_iff_latest {passed : List Nat} {owners : Nat → Option Nat}
    {successor lease : Nat}
    (bound : successor < problem.leases.length)
    (named : ∀ segment byte, InSegment (coordinates problem) segment byte →
      owners segment = latest (holds problem) passed byte) :
    Owns owners (coordinateRank (coordinates problem) (problem.startOf successor))
        (coordinateRank (coordinates problem) (problem.endOf successor)) 0
        ((coordinates problem).length - 1) lease ↔
      ∃ byte, holds problem successor byte = true ∧
        latest (holds problem) passed byte = some lease := by
  have strict := coordinates_strict problem
  have ends := endpoint_mem bound
  constructor
  · rintro ⟨segment, inside, asked, owned⟩
    have wide : segment + 1 < (coordinates problem).length := by omega
    have inSegment : InSegment (coordinates problem) segment
        ((coordinates problem).getD segment 0) := by
      refine ⟨wide, le_rfl, ?_⟩
      rw [List.getD_eq_getElem _ _ wide, List.getD_eq_getElem _ _ (by omega)]
      exact List.pairwise_iff_getElem.mp strict segment (segment + 1) _ wide
        (Nat.lt_succ_self segment)
    refine ⟨_, (holds_iff_of_segment bound inSegment).mpr asked, ?_⟩
    rw [← named segment _ inSegment, owned]
  · rintro ⟨byte, held, isLatest⟩
    have both := held
    rw [holds, decide_eq_true_eq] at both
    obtain ⟨segment, inSegment⟩ :=
      exists_segment strict ends.1 ends.2 both.1 both.2
    refine ⟨segment, ⟨Nat.zero_le _, ?_⟩, (holds_iff_of_segment bound
      inSegment).mp held, ?_⟩
    · have wide := inSegment.1
      omega
    · rw [named segment byte inSegment, isLatest]

/-- Taking its range makes the successor the latest owner of its bytes. -/
theorem taken_eq_latest {passed : List Nat} {owners : Nat → Option Nat}
    {successor segment byte : Nat}
    (bound : successor < problem.leases.length)
    (named : ∀ segment byte, InSegment (coordinates problem) segment byte →
      owners segment = latest (holds problem) passed byte)
    (inSegment : InSegment (coordinates problem) segment byte) :
    taken owners (coordinateRank (coordinates problem) (problem.startOf successor))
        (coordinateRank (coordinates problem) (problem.endOf successor)) successor
        segment =
      latest (holds problem) (passed ++ [successor]) byte := by
  rw [latest_snoc, taken, named segment byte inSegment]
  simp only [holds_iff_of_segment bound inSegment]

/-- One turn keeps the tree and the record in step, or refuses a direct
succession that fails its tests. -/
theorem recoverOne_spec
    {passed : List Nat} {state : OwnerTree × List ReusePair} {successor : Nat}
    (tracks : Tracks problem passed state)
    (bound : successor < problem.leases.length)
    (fresh : successor ∉ passed) :
    (∃ next, recoverOne problem (coordinates problem) state successor = .ok next ∧
        Tracks problem (passed ++ [successor]) next) ∨
      ∃ refused, recoverOne problem (coordinates problem) state successor =
          .error refused ∧
        Blames problem (passed ++ [successor]) refused := by
  obtain ⟨owners, represents, named⟩ := tracks.owners
  have reached : 0 < (coordinates problem).length - 1 ∨
      coordinateRank (coordinates problem) (problem.endOf successor) ≤ 0 := by
    have inside := ordinal_lt_length (coordinates_strict problem)
      (endpoint_mem bound).2
    unfold coordinateRank
    omega
  have looked := query_spec
    (coordinateRank (coordinates problem) (problem.startOf successor))
    (coordinateRank (coordinates problem) (problem.endOf successor))
    ((coordinates problem).length - 1 + 1) state.1 1 [] le_rfl reached (by omega)
    represents
  obtain ⟨assigned, _⟩ := assign_spec
    (coordinateRank (coordinates problem) (problem.startOf successor))
    (coordinateRank (coordinates problem) (problem.endOf successor)) successor
    ((coordinates problem).length - 1 + 1) _ 1 le_rfl (by omega) looked.represents
  have predecessors : ∀ lease,
      lease ∈ (ownersAcross problem (coordinates problem) state.1 successor).2 ↔
        ∃ byte, holds problem successor byte = true ∧
          latest (holds problem) passed byte = some lease := by
    intro lease
    refine (looked.mem_iff lease).trans ?_
    rw [owns_iff_latest bound named]
    simp
  have distinct : (ownersAcross problem (coordinates problem) state.1
      successor).2.Nodup := looked.nodup List.nodup_nil
  rcases checkPredecessors_spec problem successor
      (ownersAcross problem (coordinates problem) state.1 successor).2 state.2 with
    ⟨found, result, each⟩ | ⟨predecessor, mem, refusal, failed, result⟩
  · left
    refine ⟨_, by rw [recoverOne, result]; rfl, ?_, ?_, ?_, ?_⟩
    · exact ⟨_, assigned, fun segment byte => taken_eq_latest bound named⟩
    · intro pair
      rw [List.mem_append, tracks.mem_iff, each.mem_iff]
      constructor
      · rintro (⟨earlier, later, succeeds, checked⟩ | ⟨earlier, mem, checked⟩)
        · exact ⟨earlier, later, succeeds.append _ [successor], checked⟩
        · exact ⟨earlier, successor, (succeeds_snoc _).mpr
            (Or.inr ⟨rfl, (predecessors earlier).mp mem⟩), checked⟩
      · rintro ⟨earlier, later, succeeds, checked⟩
        rcases (succeeds_snoc _).mp succeeds with before | ⟨rfl, taken⟩
        · exact Or.inl ⟨earlier, later, before, checked⟩
        · exact Or.inr ⟨earlier, (predecessors earlier).mpr taken, checked⟩
    · intro earlier later succeeds
      rcases (succeeds_snoc _).mp succeeds with before | ⟨rfl, taken⟩
      · exact tracks.checked earlier later before
      · exact each.exists_ok ((predecessors earlier).mpr taken)
    · rw [List.map_append]
      refine tracks.nodup.append ?_ ?_
      · rw [each.map_indices]
        exact distinct.map fun first second same => congrArg Prod.fst same
      · intro indices old new
        obtain ⟨pair, mem, rfl⟩ := List.mem_map.mp old
        obtain ⟨earlier, later, succeeds, checked⟩ := (tracks.mem_iff pair).mp mem
        rw [each.map_indices] at new
        obtain ⟨_, _, same⟩ := List.mem_map.mp new
        rw [(names_of_checkPair checked).1.2, Prod.mk.injEq] at same
        exact fresh (same.2 ▸ succeeds.mem _)
  · right
    refine ⟨_, by rw [recoverOne, result]; rfl, predecessor, successor, ?_, failed,
      rfl, rfl⟩
    exact (succeeds_snoc _).mpr (Or.inr ⟨rfl, (predecessors predecessor).mp mem⟩)

end Turn

/-! ## The whole recovery -/

section Run

variable {problem : LayoutReuseProblem}

/-- The recovery records every direct succession, or refuses one of them. -/
theorem recoverAll_spec
    {passed rest : List Nat} {state : OwnerTree × List ReusePair}
    (split : visits problem = passed ++ rest)
    (tracks : Tracks problem passed state) :
    (∃ final, recoverAll problem (coordinates problem) rest state = .ok final ∧
        Tracks problem (visits problem) final) ∨
      ∃ refused, recoverAll problem (coordinates problem) rest state =
          .error refused ∧
        Blames problem (visits problem) refused := by
  have nodup : (visits problem).Nodup :=
    (visits_perm problem).nodup_iff.mpr List.nodup_range
  induction rest generalizing passed state with
  | nil =>
      rw [List.append_nil] at split
      exact Or.inl ⟨state, rfl, split ▸ tracks⟩
  | cons successor rest ih =>
      have bound : successor < problem.leases.length := by
        refine mem_visits.mp ?_
        rw [split]
        simp
      have fresh : successor ∉ passed := by
        rw [split] at nodup
        intro mem
        exact (List.nodup_append.mp nodup).2.2 successor mem successor (by simp) rfl
      have append : visits problem = (passed ++ [successor]) ++ rest := by
        simpa using split
      rw [recoverAll]
      rcases recoverOne_spec tracks bound fresh with
        ⟨next, turned, kept⟩ | ⟨refused, failed, earlier, later, succeeds, blame⟩
      · rw [turned]
        exact ih append kept
      · rw [failed]
        exact Or.inr ⟨refused, rfl, earlier, later,
          append ▸ succeeds.append _ rest, blame⟩

/-- The byte is one of the lease's. -/
def Occupies (problem : LayoutReuseProblem) (index byte : Nat) : Prop :=
  (problem.leaseAt index).offset ≤ byte ∧
    byte < (problem.leaseAt index).offset + (problem.leaseAt index).lifetime.bytes

/-- Every lease ends inside the address space. -/
def Fits (problem : LayoutReuseProblem) : Prop :=
  ∀ lease ∈ problem.leases, lease.offset + lease.lifetime.bytes < modulus

instance : DecidablePred Fits :=
  fun problem => inferInstanceAs (Decidable (∀ lease ∈ problem.leases, _))

theorem holds_iff (fits : Fits problem) {index byte : Nat}
    (bound : index < problem.leases.length) :
    holds problem index byte = true ↔ Occupies problem index byte := by
  have mem : problem.leaseAt index ∈ problem.leases := by
    rw [LayoutReuseProblem.leaseAt, List.getD_eq_getElem _ _ bound]
    exact List.getElem_mem bound
  rw [holds, decide_eq_true_eq, LayoutReuseProblem.endOf, wrap_eq (fits _ mem)]
  rfl

/-- Of the leases acquired before the successor that hold some byte of its
range, the predecessor was acquired last. -/
def LatestPreviousOwner (problem : LayoutReuseProblem)
    (predecessor successor : Nat) : Prop :=
  (predecessor < problem.leases.length ∧ successor < problem.leases.length) ∧
    CausallyBefore problem predecessor successor ∧
    ∃ byte, Occupies problem predecessor byte ∧ Occupies problem successor byte ∧
      ∀ other < problem.leases.length, Occupies problem other byte →
        CausallyBefore problem other successor →
          other = predecessor ∨ CausallyBefore problem other predecessor

theorem succeeds_iff (distinct : DistinctIds problem) (fits : Fits problem)
    {predecessor successor : Nat} :
    Succeeds (holds problem) (visits problem) predecessor successor ↔
      LatestPreviousOwner problem predecessor successor := by
  rw [succeeds_iff_of_sorted (holds problem) (CausallyBefore.asymm problem)
    (visits_sorted distinct)]
  simp only [mem_visits]
  constructor
  · rintro ⟨bound, bound', before, byte, held, taken, isLatest⟩
    refine ⟨⟨bound, bound'⟩, before, byte, (holds_iff fits bound).mp held,
      (holds_iff fits bound').mp taken, fun other inside occupies => ?_⟩
    exact isLatest other inside ((holds_iff fits inside).mpr occupies)
  · rintro ⟨⟨bound, bound'⟩, before, byte, held, taken, isLatest⟩
    refine ⟨bound, bound', before, byte, (holds_iff fits bound).mpr held,
      (holds_iff fits bound').mpr taken, fun other inside occupies => ?_⟩
    exact isLatest other inside ((holds_iff fits inside).mp occupies)

/-- The pair is among the reported dependencies, by its ids. -/
def Reported (problem : LayoutReuseProblem) (result : LayoutReuseResult)
    (predecessor successor : Nat) : Prop :=
  (predecessor < problem.leases.length ∧ successor < problem.leases.length) ∧
    ∃ row ∈ result.rows,
      row.predecessorLease = (problem.leaseAt predecessor).identity.leaseId ∧
        row.successorLease = (problem.leaseAt successor).identity.leaseId

/-- The call's outcome and what it implies. -/
theorem recoverLayoutReuse_spec
    (problem : LayoutReuseProblem) (capacity : Nat)
    (version : problem.abiVersion = abiVersion)
    (count : problem.leases.length ≤ 2 ^ 32 - 1)
    (distinct : DistinctIds problem) (fits : Fits problem) :
    (∃ pairs : List ReusePair,
        (∀ pair, pair ∈ pairs ↔ ∃ predecessor successor,
          LatestPreviousOwner problem predecessor successor ∧
            checkPair problem predecessor successor = .ok pair) ∧
        (pairs.map fun pair => (pair.predecessor, pair.successor)).Nodup ∧
        (∀ predecessor successor,
          LatestPreviousOwner problem predecessor successor →
            Retired problem predecessor successor ∧
              HasConsumer problem successor) ∧
        recoverLayoutReuse problem capacity =
          if capacity < pairs.length then
            (.invalidArgument, ⟨[], pairs.length, none⟩)
          else
            (.ok, ⟨(pairs.insertionSort fun first second =>
              comparePair first second ≠ .gt).map (reuseRow problem),
                pairs.length, none⟩)) ∨
      ∃ refused predecessor successor,
        recoverLayoutReuse problem capacity =
            (.invalidOperations, ⟨[], 0, some refused⟩) ∧
          LatestPreviousOwner problem predecessor successor ∧
          ¬ (Retired problem predecessor successor ∧
            HasConsumer problem successor) ∧
          refused.predecessor =
            (problem.leaseAt predecessor).identity.leaseId ∧
          refused.successor = (problem.leaseAt successor).identity.leaseId := by
  have valid : ¬ (problem.abiVersion ≠ abiVersion ∨
      2 ^ 32 - 1 < problem.leases.length) := by omega
  rcases recoverAll_spec (List.nil_append _).symm (tracks_initial problem) with
    ⟨⟨tree, pairs⟩, finished, tracks⟩ | ⟨refused, failed, earlier, later, succeeds,
      failedPair, named⟩
  · left
    refine ⟨pairs, fun pair => ?_, tracks.nodup, fun earlier later taken => ?_, ?_⟩
    · simpa only [succeeds_iff distinct fits] using tracks.mem_iff pair
    · exact isOk_checkPair_iff.mp
        (tracks.checked earlier later ((succeeds_iff distinct fits).mpr taken))
    · simp only [recoverLayoutReuse, if_neg valid, finished]
  · right
    refine ⟨refused, earlier, later, ?_, (succeeds_iff distinct fits).mp succeeds, ?_,
      named⟩
    · simp only [recoverLayoutReuse, if_neg valid, failed]
    · intro passes
      obtain ⟨pair, isOk⟩ := isOk_checkPair_iff.mpr passes
      rw [failedPair] at isOk
      cases isOk

/-- The reported rows name the direct successions. -/
theorem reported_iff
    {pairs : List ReusePair}
    (distinct : DistinctIds problem)
    (recorded : ∀ pair, pair ∈ pairs ↔ ∃ predecessor successor,
      LatestPreviousOwner problem predecessor successor ∧
        checkPair problem predecessor successor = .ok pair)
    (passes : ∀ predecessor successor,
      LatestPreviousOwner problem predecessor successor →
        Retired problem predecessor successor ∧ HasConsumer problem successor)
    (predecessor successor : Nat) :
    Reported problem ⟨(pairs.insertionSort fun first second =>
        comparePair first second ≠ .gt).map (reuseRow problem), pairs.length, none⟩
        predecessor successor ↔
      LatestPreviousOwner problem predecessor successor := by
  constructor
  · rintro ⟨⟨bound, bound'⟩, row, mem, first, second⟩
    obtain ⟨pair, inPairs, rfl⟩ := List.mem_map.mp mem
    rw [List.mem_insertionSort] at inPairs
    obtain ⟨earlier, later, succeeds, checked⟩ := (recorded pair).mp inPairs
    obtain ⟨_, earlierId, laterId⟩ := names_of_checkPair checked
    have sameEarlier := distinct.inj bound succeeds.1.1
      (first.symm.trans earlierId)
    have sameLater := distinct.inj bound' succeeds.1.2 (second.symm.trans laterId)
    rw [sameEarlier, sameLater]
    exact succeeds
  · intro succeeds
    obtain ⟨pair, checked⟩ := isOk_checkPair_iff.mpr
      (passes predecessor successor succeeds)
    have inPairs := (recorded pair).mpr ⟨predecessor, successor, succeeds, checked⟩
    refine ⟨succeeds.1, reuseRow problem pair, List.mem_map.mpr
      ⟨pair, (List.mem_insertionSort _).mpr inPairs, rfl⟩, ?_⟩
    exact (names_of_checkPair checked).2

/-- No pair of ids is reported twice. -/
theorem rows_nodup
    {pairs : List ReusePair}
    (distinct : DistinctIds problem)
    (recorded : ∀ pair, pair ∈ pairs ↔ ∃ predecessor successor,
      LatestPreviousOwner problem predecessor successor ∧
        checkPair problem predecessor successor = .ok pair)
    (nodup : (pairs.map fun pair => (pair.predecessor, pair.successor)).Nodup) :
    (((pairs.insertionSort fun first second =>
        comparePair first second ≠ .gt).map (reuseRow problem)).map fun row =>
          (row.predecessorLease, row.successorLease)).Nodup := by
  have perm := List.perm_insertionSort
    (fun first second : ReusePair => comparePair first second ≠ .gt) pairs
  rw [List.map_map, (perm.map _).nodup_iff]
  refine List.Nodup.map_on ?_ nodup.of_map
  intro first firstMem second secondMem same
  obtain ⟨earlier, later, succeeds, checked⟩ := (recorded first).mp firstMem
  obtain ⟨earlier', later', succeeds', checked'⟩ := (recorded second).mp secondMem
  obtain ⟨firstIndices, firstIds⟩ := names_of_checkPair checked
  obtain ⟨secondIndices, secondIds⟩ := names_of_checkPair checked'
  have ids : first.predecessorId = second.predecessorId ∧
      first.successorId = second.successorId := Prod.mk.inj same
  apply List.inj_on_of_nodup_map nodup firstMem secondMem
  rw [firstIndices.1, firstIndices.2, secondIndices.1, secondIndices.2]
  refine Prod.ext ?_ ?_
  · exact distinct.inj succeeds.1.1 succeeds'.1.1
      (firstIds.1.symm.trans (ids.1.trans secondIds.1))
  · exact distinct.inj succeeds.1.2 succeeds'.1.2
      (firstIds.2.symm.trans (ids.2.trans secondIds.2))

/-- Recovery refuses exactly when a lease and its latest previous owner of
some byte fail their tests.  Otherwise it reports exactly those pairs, and any
two leases that share a byte are apart in causal order and joined by reported
dependencies. -/
theorem recoverLayoutReuse_exact
    (problem : LayoutReuseProblem) (capacity : Nat)
    (version : problem.abiVersion = abiVersion)
    (count : problem.leases.length ≤ 2 ^ 29)
    (distinct : DistinctIds problem) (fits : Fits problem) :
    ((recoverLayoutReuse problem capacity).2.refused.isSome ↔
        ∃ predecessor successor,
          LatestPreviousOwner problem predecessor successor ∧
            ¬ (Retired problem predecessor successor ∧
              HasConsumer problem successor)) ∧
      ((recoverLayoutReuse problem capacity).2.refused.isSome ↔
        (recoverLayoutReuse problem capacity).1 = .invalidOperations) ∧
      ((recoverLayoutReuse problem capacity).1 = .ok →
        (∀ predecessor successor,
          Reported problem (recoverLayoutReuse problem capacity).2 predecessor
              successor ↔
            LatestPreviousOwner problem predecessor successor) ∧
        ((recoverLayoutReuse problem capacity).2.rows.map fun row =>
          (row.predecessorLease, row.successorLease)).Nodup ∧
        ∀ first second byte,
          first < problem.leases.length → second < problem.leases.length →
            CausallyBefore problem first second →
              Occupies problem first byte → Occupies problem second byte →
                (problem.leaseAt first).identity.causalEnd ≤
                    (problem.leaseAt second).identity.causalStart ∧
                  Relation.TransGen
                    (Reported problem (recoverLayoutReuse problem capacity).2)
                    first second) := by
  rcases recoverLayoutReuse_spec problem capacity version (by omega) distinct fits with
    ⟨pairs, recorded, nodup, passes, answer⟩ |
    ⟨refused, earlier, later, answer, succeeds, fails, _⟩
  · have accepted : ¬ ∃ predecessor successor,
        LatestPreviousOwner problem predecessor successor ∧
          ¬ (Retired problem predecessor successor ∧
            HasConsumer problem successor) := by
      rintro ⟨predecessor, successor, succeeds, fails⟩
      exact fails (passes predecessor successor succeeds)
    rw [answer]
    by_cases small : capacity < pairs.length
    · rw [if_pos small]
      exact ⟨iff_of_false Bool.false_ne_true accepted, by simp, by simp⟩
    rw [if_neg small]
    refine ⟨iff_of_false Bool.false_ne_true accepted, by simp,
      fun _ => ⟨?_, ?_, ?_⟩⟩
    · exact reported_iff distinct recorded passes
    · exact rows_nodup distinct recorded nodup
    · intro first second byte firstBound secondBound before firstHolds secondHolds
      have inOrder := before_of_earlier (CausallyBefore.asymm problem)
        (visits_sorted distinct) (mem_visits.mpr firstBound)
        (mem_visits.mpr secondBound) before
      have firstHolds := (holds_iff fits firstBound).mpr firstHolds
      have secondHolds := (holds_iff fits secondBound).mpr secondHolds
      have sorted : (visits problem).Pairwise fun first second =>
          (problem.leaseAt first).identity.causalStart ≤
            (problem.leaseAt second).identity.causalStart :=
        (visits_sorted distinct).imp fun before => by
          unfold CausallyBefore at before
          omega
      constructor
      · refine le_of_succeeds (holds problem)
          (fun index => (problem.leaseAt index).identity.causalStart)
          (fun index => (problem.leaseAt index).identity.causalEnd) sorted ?_ inOrder
          firstHolds secondHolds
        intro predecessor successor succeeds
        exact (passes predecessor successor
          ((succeeds_iff distinct fits).mp succeeds)).1.1
      · refine Relation.TransGen.mono (fun predecessor successor succeeds => ?_) _ _
          (transGen_succeeds (holds problem) inOrder firstHolds secondHolds)
        exact (reported_iff distinct recorded passes predecessor successor).mpr
          ((succeeds_iff distinct fits).mp succeeds)
  · rw [answer]
    refine ⟨?_, by simp, by simp⟩
    exact iff_of_true rfl ⟨earlier, later, succeeds, fails⟩

end Run

/-- Two leases on one range, the second acquired when the first has retired
but named by no task and no action. -/
def idleSuccessor : LayoutReuseProblem where
  abiVersion := 3
  operations :=
    { operations :=
        [⟨0, none, 64, 1, .acquire, .taskOutput, .taskStart, 0, none⟩,
          ⟨0, some 0, 0, 0, .beginRetirement, .taskOutput, .taskCompletion, 0, none⟩,
          ⟨1, none, 64, 1, .reserve, .initialObject, .initial, 0, none⟩]
      leases := [⟨none, 0, some 1⟩, ⟨none, 2, none⟩]
      dependencyCount := 1
      fetchBytes := 0
      evictBytes := 0 }
  schedule := ⟨[], [], []⟩
  leases :=
    [⟨⟨64, 1, 0, 5⟩, ⟨0, 0, 1, some 0, none, none, .taskOutput⟩, 0⟩,
      ⟨⟨64, 1, 5, 9⟩, ⟨1, 2, 3, none, none, none, .initialObject⟩, 0⟩]

/-- The successor's missing consumer alone makes the recovery refuse. -/
theorem idleSuccessor_refused :
    ¬ ((recoverLayoutReuse idleSuccessor 8).2.refused.isSome ↔
      ∃ predecessor successor,
        LatestPreviousOwner idleSuccessor predecessor successor ∧
          ¬ Retired idleSuccessor predecessor successor) := by
  have refused : (recoverLayoutReuse idleSuccessor 8).2.refused.isSome := by
    decide
  rintro ⟨forced, _⟩
  obtain ⟨predecessor, successor, ⟨⟨bound, bound'⟩, before, _⟩, fails⟩ :=
    forced refused
  apply fails
  have indices : predecessor = 0 ∧ successor = 1 := by
    change predecessor < 2 at bound
    change successor < 2 at bound'
    interval_cases predecessor <;> interval_cases successor <;>
      simp [CausallyBefore, idleSuccessor, LayoutReuseProblem.leaseAt] at before ⊢
  rw [indices.1, indices.2]
  exact ⟨by decide, ⟨0, 0, none, .taskOutput⟩, rfl⟩

/-- A lease that takes its range from two others, one of them in part. -/
def twoPredecessors : LayoutReuseProblem where
  abiVersion := 3
  operations :=
    { operations :=
        [⟨0, none, 64, 1, .acquire, .taskOutput, .taskStart, 0, none⟩,
          ⟨1, none, 64, 1, .acquire, .taskOutput, .taskStart, 0, none⟩,
          ⟨0, some 0, 0, 0, .beginRetirement, .taskOutput, .taskCompletion, 0, none⟩,
          ⟨1, some 0, 0, 0, .beginRetirement, .taskOutput, .taskCompletion, 0, none⟩,
          ⟨2, none, 96, 1, .acquire, .taskOutput, .taskStart, 1, none⟩]
      leases := [⟨none, 0, some 2⟩, ⟨none, 1, some 3⟩, ⟨none, 4, none⟩]
      dependencyCount := 1
      fetchBytes := 0
      evictBytes := 0 }
  schedule := ⟨[], [], []⟩
  leases :=
    [⟨⟨64, 1, 0, 5⟩, ⟨0, 0, 2, some 0, none, none, .taskOutput⟩, 0⟩,
      ⟨⟨64, 1, 0, 5⟩, ⟨1, 1, 3, some 0, none, none, .taskOutput⟩, 64⟩,
      ⟨⟨96, 1, 5, 9⟩, ⟨2, 4, 9, some 1, none, none, .taskOutput⟩, 0⟩]

theorem recoverLayoutReuse_exact_twoPredecessors :
    ((recoverLayoutReuse twoPredecessors 8).2.rows.map fun row =>
        (row.predecessorLease, row.successorLease)) = [(0, 2), (1, 2)] ∧
      Relation.TransGen
        (Reported twoPredecessors (recoverLayoutReuse twoPredecessors 8).2) 1 2 :=
  have exact_ := recoverLayoutReuse_exact twoPredecessors 8 rfl (by decide)
    (by decide : (twoPredecessors.leases.map fun lease =>
      lease.identity.leaseId).Nodup) (by decide)
  ⟨by decide, ((exact_.2.2 (by decide)).2.2 1 2 64 (by decide) (by decide)
    (Or.inl (by decide)) ⟨by decide, by decide⟩ ⟨by decide, by decide⟩).2⟩

end ShadowSpill.Planner.Reuse
