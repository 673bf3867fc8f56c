import Mathlib.Algebra.BigOperators.Fin
import ShadowSpill.Runtime.ReplayFrontier

/-!
# What a replay charges a simulation

The simulator prices a schedule by physical bytes at its boundaries.  A replay's operations
are annotated with the boundary they belong to, and their changes of the allocated bytes are
summed up by task and by action.  A task is charged at its start with the most its operations
ever hold, and gets back at its completion what is left over.
-/

namespace ShadowSpill.Planner.AdmissionProjection

open AdmissionTypes (BoundaryKind)
open Runtime.AdmissionReplay Runtime.PoolLeases Runtime.PoolLayout Runtime.PoolRuns
open Runtime.Ranges Runtime.RangeTiling Runtime.ReplayFrontier Runtime.ReplayNodes

/-! ## The projection -/

/-- `ShadowSpillAdmissionAnnotation`, as far as a sum depends on it. -/
structure Annotated where
  boundary : BoundaryKind
  index : Nat
deriving DecidableEq, Repr

/-- `INT64_MAX`. -/
def int64Max : Int := 2 ^ 63 - 1

/-- `INT64_MIN`. -/
def int64Min : Int := -2 ^ 63

/-- `add_delta`. -/
def addDelta (target delta : Int) : Option Int :=
  if (0 < delta ∧ int64Max - delta < target) ∨ (delta < 0 ∧ target < int64Min - delta) then none
  else some (target + delta)

/-- The sums of a candidate's workspace. -/
structure Projection where
  initialPhysicalBytes : Nat
  taskStartDeltas : Nat → Int
  taskCompletionDeltas : Nat → Int
  actionTriggerDeltas : Nat → Int
  actionCompletionDeltas : Nat → Int

def Projection.zero : Projection := ⟨0, fun _ => 0, fun _ => 0, fun _ => 0, fun _ => 0⟩

/-- One operation of `project_result`, with its place and its delta.  The completion of
a task holds the greatest sum of its start meanwhile. -/
def projectOperation (tasks actions : Nat) (sums : Projection) (entry : Annotated × Int) :
    Option Projection :=
  let index := entry.1.index
  let delta := entry.2
  match entry.1.boundary with
  | .initial =>
    if delta < 0 ∨ 2 ^ 64 - 1 - (sums.initialPhysicalBytes : Int) < delta then none
    else some { sums with initialPhysicalBytes := sums.initialPhysicalBytes + delta.toNat }
  | .taskStart | .taskCompletion =>
    if tasks ≤ index then none
    else (addDelta (sums.taskStartDeltas index) delta).map fun total => { sums with
      taskStartDeltas := Function.update sums.taskStartDeltas index total
      taskCompletionDeltas := Function.update sums.taskCompletionDeltas index
        (max (sums.taskCompletionDeltas index) total) }
  | .actionTrigger =>
    if actions ≤ index then none
    else (addDelta (sums.actionTriggerDeltas index) delta).map fun total => { sums with
      actionTriggerDeltas := Function.update sums.actionTriggerDeltas index total }
  | .actionCompletion =>
    if actions ≤ index then none
    else (addDelta (sums.actionCompletionDeltas index) delta).map fun total => { sums with
      actionCompletionDeltas := Function.update sums.actionCompletionDeltas index total }

/-- What a delta is charged to. -/
inductive Account where
  | initial
  | task (task : Nat)
  | trigger (action : Nat)
  | completion (action : Nat)
deriving DecidableEq, Repr

def Annotated.account (place : Annotated) : Account :=
  match place.boundary with
  | .initial => .initial
  | .taskStart | .taskCompletion => .task place.index
  | .actionTrigger => .trigger place.index
  | .actionCompletion => .completion place.index

/-- The sum of what is charged to an account. -/
def charged (account : Account) (entries : List (Annotated × Int)) : Int :=
  ((entries.filter (·.1.account = account)).map (·.2)).sum

@[simp] theorem charged_cons (account : Account) (entry : Annotated × Int)
    (rest : List (Annotated × Int)) :
    charged account (entry :: rest) =
      (if entry.1.account = account then entry.2 else 0) + charged account rest := by
  by_cases same : entry.1.account = account <;> simp [charged, same]

theorem charged_concat (account : Account) (entries : List (Annotated × Int))
    (entry : Annotated × Int) :
    charged account (entries ++ [entry]) =
      charged account entries + if entry.1.account = account then entry.2 else 0 := by
  by_cases same : entry.1.account = account <;> simp [charged, same]

def Account.Known (tasks actions : Nat) : Account → Prop
  | .initial => True
  | .task index => index < tasks
  | .trigger index | .completion index => index < actions

/-- What is summed up for an account, before tasks are settled. -/
def Projection.sumOf (sums : Projection) : Account → Int
  | .initial => sums.initialPhysicalBytes
  | .task task => sums.taskStartDeltas task
  | .trigger action => sums.actionTriggerDeltas action
  | .completion action => sums.actionCompletionDeltas action

/-- The sums are those of the entries, and the peaks their greatest on the way. -/
structure Sums (tasks actions : Nat) (entries : List (Annotated × Int)) (sums : Projection) :
    Prop where
  known : ∀ entry ∈ entries, entry.1.account.Known tasks actions
  exact : ∀ account, sums.sumOf account = charged account entries
  peak : ∀ task, IsGreatest {total | ∃ earlier, earlier <+: entries ∧
    total = charged (.task task) earlier} (sums.taskCompletionDeltas task)

theorem addDelta_some {target delta total : Int} (added : addDelta target delta = some total) :
    total = target + delta := by
  unfold addDelta at added
  split at added
  · cases added
  · exact (Option.some.inj added).symm

section Steps

variable {tasks actions : Nat} {entries : List (Annotated × Int)} {entry : Annotated × Int}
  {before after : Projection}

/-- The greatest sum on the way, one entry later. -/
theorem peak_concat {account : Account} {peak : Int} (entry : Annotated × Int)
    (greatest : IsGreatest {total | ∃ earlier, earlier <+: entries ∧
      total = charged account earlier} peak) :
    IsGreatest {total | ∃ earlier, earlier <+: entries ++ [entry] ∧
      total = charged account earlier} (max peak (charged account (entries ++ [entry]))) := by
  obtain ⟨⟨reached, inside, rfl⟩, above⟩ := greatest
  constructor
  · rcases max_choice (charged account reached) (charged account (entries ++ [entry]))
      with old | new
    · exact ⟨reached, inside.trans (List.prefix_append _ _), old⟩
    · exact ⟨_, List.prefix_rfl, new⟩
  · rintro total ⟨earlier, shorter, rfl⟩
    rcases List.prefix_concat_iff.mp shorter with rfl | shorter
    · exact le_max_right _ _
    · exact (above ⟨earlier, shorter, rfl⟩).trans (le_max_left _ _)

/-- An entry of another account changes no peak. -/
theorem peak_other {account : Account} {peak : Int} (other : entry.1.account ≠ account)
    (greatest : IsGreatest {total | ∃ earlier, earlier <+: entries ∧
      total = charged account earlier} peak) :
    IsGreatest {total | ∃ earlier, earlier <+: entries ++ [entry] ∧
      total = charged account earlier} peak := by
  have later := peak_concat entry greatest
  rwa [charged_concat, if_neg other, add_zero,
    max_eq_left (greatest.2 ⟨entries, List.prefix_rfl, rfl⟩)] at later

/-- One operation adds its delta to the sum of its account. -/
theorem projectOperation_some (stepped : projectOperation tasks actions before entry = some after) :
    entry.1.account.Known tasks actions ∧
      after.sumOf = Function.update before.sumOf entry.1.account
        (before.sumOf entry.1.account + entry.2) ∧
      after.taskCompletionDeltas = fun task => if entry.1.account = .task task
        then max (before.taskCompletionDeltas task) (after.sumOf (.task task))
        else before.taskCompletionDeltas task := by
  obtain ⟨⟨boundary, index⟩, delta⟩ := entry
  cases boundary
  case initial =>
    simp only [projectOperation, Option.ite_none_left_eq_some, Option.some.injEq] at stepped
    obtain ⟨fits, rfl⟩ := stepped
    refine ⟨trivial, ?_, by simp [Annotated.account]⟩
    funext account
    cases account <;> simp [Projection.sumOf, Annotated.account]
    omega
  all_goals
    simp only [projectOperation, Option.ite_none_left_eq_some, Option.map_eq_some_iff] at stepped
    obtain ⟨inside, total, added, rfl⟩ := stepped
    cases addDelta_some added
    refine ⟨Nat.lt_of_not_le inside, ?_, ?_⟩
    · funext account
      cases account <;> simp [Projection.sumOf, Annotated.account, Function.update_apply]
    · funext task
      by_cases same : index = task
      · simp [Projection.sumOf, Annotated.account, same]
      · simp [Annotated.account, same, Ne.symm same]

theorem Sums.step (sums : Sums tasks actions entries before)
    (stepped : projectOperation tasks actions before entry = some after) :
    Sums tasks actions (entries ++ [entry]) after := by
  obtain ⟨known, sum, peaks⟩ := projectOperation_some stepped
  have exact : ∀ account, after.sumOf account = charged account (entries ++ [entry]) := by
    intro account
    rw [sum, charged_concat, ← sums.exact]
    by_cases same : entry.1.account = account
    · rw [← same, Function.update_self, if_pos rfl]
    · rw [Function.update_of_ne (Ne.symm same), if_neg same, add_zero]
  refine ⟨?_, exact, ?_⟩
  · intro other mem
    rcases List.mem_append.mp mem with earlier | here
    · exact sums.known other earlier
    · rw [List.mem_singleton.mp here]
      exact known
  · intro task
    simp only [peaks]
    by_cases same : entry.1.account = .task task
    · rw [if_pos same, exact]
      exact peak_concat entry (sums.peak task)
    · rw [if_neg same]
      exact peak_other same (sums.peak task)

end Steps

/-! ## The bytes of a replay -/

section Replay

variable {storage : NodeStorage} {capacities : ResultCapacities} {program : ReplayProgram}
  {operation : ReplayOperation} {before after : ReplayState}

def deltas (decisions : List ReplayDecision) : List Int := decisions.map (·.physicalBytesDelta)

/-- No decision is written, and the pool stays as large as it is. -/
structure Keeps (before after : ReplayState) : Prop where
  decisions : after.decisions = before.decisions
  capacity : after.pool.ranges.capacity = before.pool.ranges.capacity

theorem Keeps.refl (state : ReplayState) : Keeps state state :=
  ⟨rfl, rfl⟩

theorem Keeps.trans {middle : ReplayState} (first : Keeps before middle)
    (second : Keeps middle after) : Keeps before after :=
  ⟨second.decisions.trans first.decisions, second.capacity.trans first.capacity⟩

/-- A call of the pool keeps its size. -/
theorem perform_capacity (heap : Bool) (pool : MemoryPool) (call : Operation) :
    (perform heap pool call).ranges.capacity = pool.ranges.capacity :=
  (perform_site call).capacity

theorem publishExpected_keeps (predecessor : Nat) :
    Keeps before (publishExpected program before predecessor).2 := by
  refine ⟨?_, congrArg RangeAllocator.capacity (publishExpected_publishes predecessor).ranges⟩
  simp only [publishExpected]
  split
  · rfl
  · split_ifs
    · rfl
    · split
      · rfl
      · split <;> rfl

theorem appendDependency_keeps {capacity : Nat} {dependency : ReuseDependency}
    (added : appendDependency capacity before dependency = some after) : Keeps before after := by
  obtain ⟨pool, decisions⟩ := appendDependency_pool added
  exact ⟨decisions, congrArg (·.ranges.capacity) pool⟩

theorem releaseFrontier_keeps (index successor : Nat) (frontier : List Nat) :
    Keeps before
      (releaseFrontier storage capacities program index successor before frontier).2 := by
  induction frontier generalizing before with
  | nil => exact .refl before
  | cons predecessor rest inductionHypothesis =>
      refine (@publishExpected_keeps program before predecessor).trans ?_
      simp only [releaseFrontier]
      split
      · split
        · exact .refl _
        · next appended added =>
          have same := appendDependency_keeps added
          have sized := perform_capacity storage.heapGives appended.pool
            (.releaseLease predecessor)
          simp only [perform] at sized
          split
          · next released =>
            rw [released] at sized
            exact same.trans ⟨rfl, sized⟩
          · next released =>
            rw [released] at sized
            refine same.trans (Keeps.trans ?_ inductionHypothesis)
            exact ⟨rfl, sized⟩
      · exact .refl _

theorem reserveReplay_keeps {lease bytes alignment : Nat} {outcome : Outcome}
    (tried : reserveReplay storage program before lease bytes alignment = (outcome, after)) :
    Keeps before after := by
  cases tried
  exact ⟨rfl, perform_capacity _ _ (.reserveLease ..)⟩

theorem reserveAfterReleaseFrontier_keeps (index successor bytes alignment : Nat) :
    Keeps before (reserveAfterReleaseFrontier storage capacities program before index successor
      bytes alignment).2 := by
  unfold reserveAfterReleaseFrontier
  split
  · exact .refl before
  · next frontier _ =>
    have kept := @releaseFrontier_keeps storage capacities program before index successor frontier
    split
    · next released => rwa [released] at kept
    · next released =>
      rw [released] at kept
      exact kept.trans (reserveReplay_keeps rfl)

/-- The publication for a lease that waits for its predecessor. -/
theorem publish_keeps {lease event : Nat} {outcome : Outcome} {pool : MemoryPool}
    (published : publishRetirementDependency before.pool lease event = (outcome, pool))
    (expected : Nat → Option Nat) :
    Keeps before { before with pool, expectedDependencyIds := expected } := by
  have sized := perform_capacity false before.pool (.publishRetirementDependency lease event)
  rw [perform, published] at sized
  exact ⟨rfl, sized⟩

theorem publishAwaited_keeps {predecessor : Option Nat}
    (published : publishAwaited program before predecessor = some after) :
    Keeps before after := by
  unfold publishAwaited at published
  split at published
  · cases published
    exact .refl before
  · split at published
    · cases published
      exact .refl before
    · split at published
      · cases published
      · split at published
        · cases published
        · next tried =>
          cases published
          exact publish_keeps tried _

theorem reserveOrClaim_keeps (index : Nat) :
    Keeps before
      (reserveOrClaim storage capacities program before index operation).2 := by
  unfold reserveOrClaim
  split
  · next refused tried =>
    have claimed := perform_capacity false refused.pool
      (.reserveCausalSuccessor operation.leaseId operation.bytes operation.alignment)
    rw [perform] at claimed
    refine (reserveReplay_keeps tried).trans ?_
    split
    · next answered =>
      rw [answered] at claimed
      refine Keeps.trans ?_ (reserveAfterReleaseFrontier_keeps ..)
      exact ⟨rfl, claimed⟩
    · next answered =>
      rw [answered] at claimed
      exact ⟨rfl, claimed⟩
  · next tried => exact reserveReplay_keeps tried

theorem markOwnRange_capacity (outcome : Outcome) (pool : MemoryPool) (lease : Nat) :
    (markOwnRange outcome pool lease).2.ranges.capacity = pool.ranges.capacity := by
  unfold markOwnRange
  split
  · rfl
  · split_ifs
    · rfl
    · exact perform_capacity false pool (.markReserved lease)

/-- Only `apply_operation` itself writes a decision, and nothing changes the pool's size. -/
theorem replayOperation_keeps (index : Nat) :
    Keeps before
      (replayOperation storage capacities program before index operation).state := by
  unfold replayOperation
  split
  · unfold replayAcquire
    split_ifs
    · exact .refl before
    · split
      · next tried =>
        exact (reserveReplay_keeps tried).trans (reserveAfterReleaseFrontier_keeps ..)
      · next tried => exact reserveReplay_keeps tried
  · unfold replayBeginRetirement
    split
    · exact .refl before
    · have sized := fun event => perform_capacity false before.pool
        (.beginRetirement operation.leaseId event operation.dependencyExpected)
      simp only
      split <;> exact ⟨rfl, sized _⟩
  · unfold replayPublishDependency
    split
    · exact .refl before
    · split
      · next published => exact publish_keeps published _
      · next published => exact publish_keeps published _
  · unfold replayReserve
    split_ifs
    · exact .refl before
    · exact (reserveOrClaim_keeps index).trans ⟨rfl, markOwnRange_capacity ..⟩
  · unfold replayAcquireReserved
    simp only
    split
    · exact .refl before
    · next ready published =>
      have sized := perform_capacity false ready.pool (.acquireReservedLease operation.leaseId)
      rw [perform] at sized
      refine (publishAwaited_keeps published).trans ?_
      split
      · next acquired =>
        rw [acquired] at sized
        exact ⟨rfl, sized⟩
      · next acquired =>
        rw [acquired] at sized
        split
        · exact ⟨rfl, sized⟩
        · split
          · exact ⟨rfl, sized⟩
          · next appended =>
            refine Keeps.trans ?_ (appendDependency_keeps appended)
            exact ⟨rfl, sized⟩
  · unfold replayCompleteRetirement
    split
    · exact .refl before
    · split_ifs
      · exact ⟨rfl, rfl⟩
      · exact ⟨rfl, perform_capacity _ _ (.releaseLease operation.leaseId)⟩
  · exact ⟨rfl, perform_capacity _ _ (.releaseLease operation.leaseId)⟩
  · exact .refl before

/-- No operation is refused with an ok status. -/
theorem replayOperation_refuses (index : Nat) :
    (replayOperation storage capacities program before index operation).result ≠ .error .ok := by
  unfold replayOperation replayAcquire replayBeginRetirement replayPublishDependency replayReserve
    replayAcquireReserved replayCompleteRetirement replayRelease
  simp only
  repeat' split
  all_goals nofun

theorem applyOperation_ok {index : Nat} {earlier : Option ReplayOperation}
    (applied : applyOperation storage capacities program before index earlier operation =
      (.ok, after)) :
    after.pool.ranges.capacity = before.pool.ranges.capacity ∧
      ∃ decision, after.decisions = before.decisions ++ [decision] ∧
        decision.physicalBytesDelta =
          allocatedDelta before.pool.ranges.allocated after.pool.ranges.allocated := by
  have kept := @replayOperation_keeps storage capacities program operation before index
  unfold applyOperation at applied
  simp only at applied
  split at applied
  · cases applied
  · split at applied
    · next refused =>
      exact absurd (refused.trans (congrArg _ (Prod.ext_iff.mp applied).1))
        (replayOperation_refuses index)
    · cases applied
    · cases applied
    · cases applied
      exact ⟨kept.capacity, _, congrArg (· ++ _) kept.decisions, rfl⟩

theorem resetState_empty (reset : resetState storage program = some after) :
    after.decisions = [] ∧ after.pool.ranges.allocated = 0 ∧
      after.pool.ranges.capacity = program.capacityBytes := by
  unfold resetState at reset
  split at reset
  · cases reset
  · next ranges begun =>
    cases reset
    refine ⟨rfl, ?_⟩
    unfold replayRanges rangeInitialize rangeInitializeWithNodes at begun
    simp only at begun
    repeat' split at begun
    all_goals cases begun
    all_goals first
      | exact ⟨rfl, rfl⟩
      | obtain ⟨_, _, rfl, _⟩ := acquireNode_some ‹_›
        exact ⟨rfl, rfl⟩

theorem Reached.capacity {index : Nat} {earlier : Option ReplayOperation}
    (reached : Reached storage capacities program index earlier before) :
    before.pool.ranges.capacity = program.capacityBytes := by
  induction reached with
  | start reset => exact (resetState_empty reset).2.2
  | applied _ _ ok inductionHypothesis => exact (applyOperation_ok ok).1.trans inductionHypothesis

/-- A replay holds no more than its pool has. -/
theorem Reached.bounded {index : Nat} {earlier : Option ReplayOperation}
    (reached : Reached storage capacities program index earlier before)
    (valid : validProgram capacities program = true) (words : WordSized program)
    (fits : fitsWorkspace storage program = true) :
    before.pool.ranges.allocated ≤ program.capacityBytes := by
  have minimum : 0 < program.minimumAlignment := by
    simp only [validProgram, Bool.and_eq_true, bne_iff_ne] at valid
    omega
  rw [← Reached.capacity reached]
  cases storage with
  | heap => exact (reached.owning minimum words).tiled.allocated_le
  | arena workspace =>
      obtain ⟨other, heap, rfl⟩ := reached.stocked minimum words (by simpa [fitsWorkspace] using fits)
      exact (heap.owning minimum words).tiled.allocated_le

end Replay

/-! ## Conservation -/

/-- The sum over the accounts of so many tasks and actions. -/
def Account.sum (tasks actions : Nat) (amount : Account → Int) : Int :=
  amount .initial + ∑ task ∈ Finset.range tasks, amount (.task task) +
    ∑ action ∈ Finset.range actions, (amount (.trigger action) + amount (.completion action))

/-- What a simulation is charged for an account in the end. -/
def Projection.charge (projection : Projection) : Account → Int
  | .task task => projection.taskStartDeltas task + projection.taskCompletionDeltas task
  | other => projection.sumOf other

section Conservation

variable {tasks actions : Nat}

end Conservation

section Main

variable {storage : NodeStorage} {capacities : ResultCapacities} {program : ReplayProgram}
  {annotations : List Annotated} {tasks actions : Nat} {projection : Projection}

end Main

end ShadowSpill.Planner.AdmissionProjection
