import ShadowSpill.Runtime.AdmissionReplay
import ShadowSpill.Runtime.PoolLayout

/-!
# Nodes of an admission replay

A workspace for `N` leases has `N + 1` nodes for the pool's free ranges and
`2 * N + 2` for the copy that looks ahead.  Every call but one finds a node there
whenever the heap gives it one.  A lease that gives its range back takes a node
before it merges, and none is left when all the others stand between two free
ranges each.
-/

namespace ShadowSpill.Runtime.ReplayNodes

open Library.Word64 Ranges PoolLeases PoolInvariant PoolOperations PoolRuns PoolLayout
open RangeRequests AdmissionReplay ArenaRanges ArenaPool Status

/-! ## The copy that looks ahead -/

section Frontier

variable {size bytes alignment capacity workspace count : Nat}
  {leases : Nat → Lease} {pool : MemoryPool}

/-- Copying the free ranges takes a node for each of them. -/
theorem copy_stock (source : List Range) {copied : RangeAllocator}
    (bounded : Bounded size copied)
    (room : copied.freeRanges.length + source.length ≤ size) :
    ∃ after, cloneRanges.copy true copied source = some after ∧
      cloneRanges.copy false (stock size copied) source = some (stock size after) ∧
      Bounded size after ∧
      after.freeRanges.length = copied.freeRanges.length + source.length := by
  induction source generalizing copied with
  | nil => exact ⟨copied, rfl, rfl, bounded, rfl⟩
  | cons range rest ih =>
      rw [List.length_cons] at room
      obtain ⟨available, nodes, acquired⟩ := acquireNode_heap bounded.unbounded
      have next : Bounded size { copied with
          freeRanges := copied.freeRanges ++ [range]
          availableNodes := available
          nodeCapacity := nodes } :=
        ⟨bounded.unbounded, by simp; omega⟩
      obtain ⟨after, heap, arena, done, length⟩ := ih next (by simp; omega)
      refine ⟨after, ?_, ?_, done, ?_⟩
      · simp only [cloneRanges.copy, acquired]
        exact heap
      · simp only [cloneRanges.copy]
        rw [acquireNode_stock (by omega)]
        simp only
        rw [← arena]
        congr 1
        simp only [stock, List.length_append, List.length_cons, List.length_nil]
        congr 1
      · simp only [List.length_append, List.length_cons, List.length_nil] at length
        rw [length, List.length_cons, Nat.add_assoc, Nat.add_comm 1]

theorem cloneRanges_stock {ranges : RangeAllocator}
    (room : ranges.freeRanges.length ≤ 2 * workspace + 2) :
    ∃ after, cloneRanges true ranges (frontierStorage .heap) = some after ∧
      cloneRanges false (stock size ranges) (frontierStorage (.arena workspace)) =
        some (stock (2 * workspace + 2) after) ∧
      Bounded (2 * workspace + 2) after ∧
      after.freeRanges.length = ranges.freeRanges.length := by
  obtain ⟨after, heap, arena, bounded, length⟩ :=
    @copy_stock (2 * workspace + 2) ranges.freeRanges
      { frontierStorage .heap with
        capacity := ranges.capacity
        allocated := ranges.allocated
        peakAllocated := ranges.peakAllocated }
      ⟨rfl, by simp [frontierStorage]⟩ (by simpa [frontierStorage] using room)
  refine ⟨after, heap, arena, bounded, ?_⟩
  simpa [frontierStorage] using length

/-- Each release of the copy adds at most one free range. -/
theorem releaseUntilFit_stock (frontier : List Nat) {future : RangeAllocator}
    (steps : Nat) (bounded : Bounded size future)
    (room : future.freeRanges.length + frontier.length < size) :
    releaseUntilFit false leases bytes alignment steps (stock size future) frontier =
      releaseUntilFit true leases bytes alignment steps future frontier := by
  induction frontier generalizing future steps with
  | nil => rfl
  | cons lease rest ih =>
      rw [List.length_cons] at room
      obtain ⟨freed, heap, arena, freedBounded, length⟩ :=
        @rangeFree_stock size (leases lease).offset (leases lease).chargedBytes future
          bounded (by omega)
      have follows : Follows size
          (allocateBestFitLow false (stock size freed) bytes alignment)
          (allocateBestFitLow true freed bytes alignment) :=
        allocateSelected_stock freedBounded (by omega)
      simp only [releaseUntilFit, heap, arena, follows.same]
      cases allocateBestFitLow true freed bytes alignment with
      | ok _ => rfl
      | error refusal =>
          cases refusal with
          | failed => rfl
          | unavailable => exact ih (steps + 1) freedBounded (by omega)

@[simp]
theorem stocked_frontierCandidates :
    frontierCandidates (stocked size pool) = frontierCandidates pool :=
  rfl

@[simp]
theorem stocked_frontierOrder :
    frontierOrder (stocked size pool) = frontierOrder pool :=
  rfl

theorem frontierOrder_length :
    (frontierOrder pool).length = (frontierCandidates pool).length :=
  (List.perm_insertionSort _ _).length_eq

/-- The copy's nodes suffice for the releases of any frontier. -/
theorem findReleaseFrontier_stock (owning : Owning count pool)
    (fits : count ≤ workspace) (bytes alignment : Nat) :
    findReleaseFrontier (.arena workspace) (stocked (workspace + 1) pool) bytes
        alignment count =
      findReleaseFrontier .heap pool bytes alignment count := by
  unfold findReleaseFrontier
  have listed := owning.listed_length
  have free := owning.free_length
  obtain ⟨future, heap, arena, bounded, length⟩ :=
    @cloneRanges_stock (workspace + 1) workspace pool.ranges (by omega)
  simp only [NodeStorage.heapGives, stocked_ranges, heap, arena]
  by_cases empty : bytes = 0
  · rw [if_pos empty, if_pos empty]
  · rw [if_neg empty, if_neg empty]
    by_cases many : (frontierCandidates pool).length > count
    · exact (if_pos many).trans (if_pos many).symm
    · have order := @frontierOrder_length pool
      refine (if_neg many).trans (Eq.trans ?_ (if_neg many).symm)
      simp only [stocked_leases, stocked_frontierOrder, stocked_raised]
      rw [releaseUntilFit_stock _ _ bounded (by omega)]

end Frontier

/-! ## The same replay over an arena -/

/-- The same replay state over an arena of the given size. -/
def stockedState (size : Nat) (state : ReplayState) : ReplayState :=
  { state with pool := stocked size state.pool }

/-- The same operation's outcome over an arena of the given size. -/
def stockedReplayed (size : Nat) (replayed : Replayed) : Replayed :=
  { replayed with state := stockedState size replayed.state }

section Replay

variable {size count workspace lease : Nat} {capacities : ResultCapacities}
  {program : ReplayProgram} {state : ReplayState}

@[simp]
theorem stockedState_pool :
    (stockedState size state).pool = stocked size state.pool :=
  rfl

@[simp]
theorem stockedState_expectedDependencyIds :
    (stockedState size state).expectedDependencyIds = state.expectedDependencyIds :=
  rfl

@[simp]
theorem stockedState_retirementCompletedEarly :
    (stockedState size state).retirementCompletedEarly =
      state.retirementCompletedEarly :=
  rfl

@[simp]
theorem stockedState_dependencies :
    (stockedState size state).dependencies = state.dependencies :=
  rfl

theorem appendDependency_stocked (capacity : Nat) (dependency : ReuseDependency) :
    appendDependency capacity (stockedState size state) dependency =
      (appendDependency capacity state dependency).map (stockedState size) := by
  unfold appendDependency
  rw [apply_ite (Option.map (stockedState size))]
  rfl

theorem appendDependency_pool {capacity : Nat} {dependency : ReuseDependency}
    {after : ReplayState}
    (result : appendDependency capacity state dependency = some after) :
    after.pool = state.pool ∧ after.decisions = state.decisions := by
  unfold appendDependency at result
  split_ifs at result
  cases result
  exact ⟨rfl, rfl⟩

/-- The event of a predecessor is published alike, and nothing else changes. -/
theorem publishExpected_stocked (predecessor : Nat) :
    publishExpected program (stockedState size state) predecessor =
      Prod.map id (stockedState size) (publishExpected program state predecessor) := by
  unfold publishExpected
  simp only [stockedState_pool, stocked_leases, stockedState_expectedDependencyIds]
  cases (state.pool.leases predecessor).causalEvent with
  | some event => rfl
  | none =>
      simp only [apply_ite (Prod.map id (stockedState size))]
      cases dependencyEvent program (state.expectedDependencyIds predecessor) with
      | none => rfl
      | some event =>
          simp only [publishRetirementDependency_stocked]
          rcases publishRetirementDependency state.pool predecessor event with
            ⟨_ | _, pool⟩ <;> rfl

/-- What `publish_retirement_dependency` keeps. -/
theorem publishExpected_spec (owning : Owning count state.pool)
    (predecessor : Nat) :
    Owning count (publishExpected program state predecessor).2.pool ∧
      (publishExpected program state predecessor).2.decisions = state.decisions ∧
      ∀ other, ((publishExpected program state predecessor).2.pool.leases
        other).registered = (state.pool.leases other).registered := by
  have kept := @publishRetirementDependency_owning count predecessor state.pool owning
  have registered : ∀ event other,
      ((publishRetirementDependency state.pool predecessor event).2.leases
        other).registered = (state.pool.leases other).registered := by
    intro event other
    unfold publishRetirementDependency
    simp only
    split_ifs
    · rfl
    · by_cases here : other = predecessor
      · simp [here]
      · simp [here]
  unfold publishExpected
  simp only
  cases (state.pool.leases predecessor).causalEvent with
  | some event => exact ⟨owning, rfl, fun _ => rfl⟩
  | none =>
      simp only
      split_ifs with refused
      · exact ⟨owning, rfl, fun _ => rfl⟩
      · cases dependencyEvent program (state.expectedDependencyIds predecessor) with
        | none => exact ⟨owning, rfl, fun _ => rfl⟩
        | some event =>
            have after := kept event
            have same := registered event
            simp only
            generalize publishRetirementDependency state.pool predecessor event =
              result at after same ⊢
            obtain ⟨_ | _, pool⟩ := result
            · exact ⟨owning, rfl, fun _ => rfl⟩
            · exact ⟨after, rfl, same⟩

/-- A call on the replay state is the same over both, keeps the pool, and writes
no decision. -/
structure Alike {result : Type} (size count : Nat) (state : ReplayState)
    (arena heap : result × ReplayState) : Prop where
  same : arena = Prod.map id (stockedState size) heap
  owning : Owning count heap.2.pool
  decisions : heap.2.decisions = state.decisions

theorem alike_unchanged {result : Type} (owning : Owning count state.pool)
    (answer : result) :
    Alike size count state (answer, stockedState size state) (answer, state) :=
  ⟨rfl, owning, rfl⟩

/-- While the successor waits, the releases of the frontier have their nodes. -/
theorem releaseFrontier_alike (operationIndex successor : Nat)
    (fits : count ≤ workspace) (bound : successor < count) (frontier : List Nat)
    {state : ReplayState} (owning : Owning count state.pool)
    (unregistered : (state.pool.leases successor).registered = false) :
    Alike (workspace + 1) count state
      (releaseFrontier (.arena workspace) capacities program operationIndex successor
        (stockedState (workspace + 1) state) frontier)
      (releaseFrontier .heap capacities program operationIndex successor state
        frontier) := by
  induction frontier generalizing state with
  | nil => exact alike_unchanged owning _
  | cons predecessor rest ih =>
      obtain ⟨keeps, decisions, registered⟩ :=
        @publishExpected_spec count program state owning predecessor
      simp only [releaseFrontier, publishExpected_stocked]
      generalize publishExpected program state predecessor = published
        at keeps decisions registered ⊢
      obtain ⟨event, after⟩ := published
      simp only [Prod.map, id] at keeps decisions registered ⊢
      have waiting : (after.pool.leases successor).registered = false :=
        (registered successor).trans unregistered
      cases leaseIdOf program (some predecessor) with
      | none => exact ⟨rfl, keeps, decisions⟩
      | some predecessorId =>
          cases eventIdOf program event with
          | none => exact ⟨rfl, keeps, decisions⟩
          | some dependency =>
              simp only [appendDependency_stocked]
              cases appended : appendDependency capacities.dependencies after
                  ⟨predecessorId, successor, dependency, operationIndex⟩ with
              | none => exact ⟨rfl, keeps, decisions⟩
              | some next =>
                  obtain ⟨samePool, sameDecisions⟩ := appendDependency_pool appended
                  rw [← samePool] at keeps waiting
                  have room := keeps.room bound waiting
                  have stockedRelease := @releaseLease_stocked count predecessor
                    (workspace + 1) next.pool keeps (fun _ => by omega)
                  have released := @releaseLease_owning count predecessor next.pool keeps
                  have still := @releaseLease_registered count predecessor successor
                    next.pool true
                    (Consistent.laidOut keeps.toConsistent (sameLayout_refl _)) waiting
                  simp only [Option.map, stockedState_pool, NodeStorage.heapGives,
                    stockedRelease]
                  generalize releaseLease true next.pool predecessor = result
                    at released still ⊢
                  obtain ⟨_ | _, pool⟩ := result
                  · exact ⟨rfl, released, sameDecisions.trans decisions⟩
                  · obtain ⟨same, owns, kept⟩ := @ih { next with
                      pool := pool
                      retirementCompletedEarly := Function.update
                        next.retirementCompletedEarly predecessor true } released still
                    exact ⟨same, owns, kept.trans (sameDecisions.trans decisions)⟩

/-- A reservation is the same over both. -/
theorem reserveReplay_alike (fits : count ≤ workspace) (bound : lease < count)
    {bytes : Nat} (word : bytes < modulus) (alignment : Nat)
    (owning : Owning count state.pool) :
    Alike (workspace + 1) count state
      (reserveReplay (.arena workspace) program (stockedState (workspace + 1) state)
        lease bytes alignment)
      (reserveReplay .heap program state lease bytes alignment) := by
  obtain ⟨same, kept⟩ := @reserveLease_stocked count lease (workspace + 1) state.pool
    owning bound (by omega) bytes word alignment (replayPlacement program bytes)
  unfold reserveReplay
  simp only [NodeStorage.heapGives, stockedState_pool, same]
  exact ⟨rfl, kept, rfl⟩

/-- A request that finds no range leaves the pool and is for a free lease. -/
theorem reserveReplay_unavailable {bytes alignment : Nat} {after : ReplayState}
    (owning : Owning count state.pool) (word : bytes < modulus)
    (result : reserveReplay .heap program state lease bytes alignment =
      (.error .unavailable, after)) :
    after = state ∧ (state.pool.leases lease).state = .free := by
  unfold reserveReplay at result
  by_cases free : (state.pool.leases lease).state = .free
  · refine ⟨?_, free⟩
    cases served : reserve true state.pool (charged bytes)
        (raised state.pool alignment) (replayPlacement program bytes) with
    | error refusal =>
        simp only [NodeStorage.heapGives, reserveLease_refused free served] at result
        cases result
        rfl
    | ok granted =>
        obtain ⟨offset, ranges⟩ := granted
        obtain ⟨_, adopted, taken⟩ :=
          reserve_adopted owning.toConsistent word free served
        simp only [NodeStorage.heapGives, reserveLease_granted free served taken]
          at result
        cases result
  · simp only [NodeStorage.heapGives, reserveLease_busy free] at result
    cases result

/-- A request behind the frontier is the same over both. -/
theorem reserveAfterReleaseFrontier_alike (operationIndex : Nat)
    (leases : program.leaseCount = count) (fits : count ≤ workspace)
    (bound : lease < count) {bytes : Nat} (word : bytes < modulus)
    (alignment : Nat) (owning : Owning count state.pool)
    (free : (state.pool.leases lease).state = .free) :
    Alike (workspace + 1) count state
      (reserveAfterReleaseFrontier (.arena workspace) capacities program
        (stockedState (workspace + 1) state) operationIndex lease bytes alignment)
      (reserveAfterReleaseFrontier .heap capacities program state operationIndex lease
        bytes alignment) := by
  unfold reserveAfterReleaseFrontier
  have found := findReleaseFrontier_stock owning fits bytes alignment
  rw [← leases] at found
  simp only [stockedState_pool, found]
  cases findReleaseFrontier .heap state.pool bytes alignment program.leaseCount with
  | error refusal => exact alike_unchanged owning _
  | ok frontier =>
      obtain ⟨same, owns, decisions⟩ := @releaseFrontier_alike count workspace
        capacities program operationIndex lease fits bound frontier state owning
        (Records.free_unregistered owning.records free)
      simp only [same]
      generalize releaseFrontier .heap capacities program operationIndex lease state
        frontier = released at owns decisions ⊢
      obtain ⟨_ | _, after⟩ := released
      · exact ⟨rfl, owns, decisions⟩
      · obtain ⟨sameReserve, ownsReserve, decisionsReserve⟩ :=
          @reserveReplay_alike count workspace lease program after fits bound bytes word
            alignment owns
        exact ⟨sameReserve, ownsReserve, decisionsReserve.trans decisions⟩

end Replay

/-! ## One operation -/

/-- An operation is the same over both, keeps the pool, and writes no decision. -/
structure ReplayedAlike (size count : Nat) (state : ReplayState)
    (arena heap : Replayed) : Prop where
  same : arena = stockedReplayed size heap
  owning : Owning count heap.state.pool
  decisions : heap.state.decisions = state.decisions

section Operation

variable {count workspace : Nat} {capacities : ResultCapacities}
  {program : ReplayProgram} {state : ReplayState} {operation : ReplayOperation}

theorem replayAcquire_alike (operationIndex : Nat)
    (leases : program.leaseCount = count) (fits : count ≤ workspace)
    (bound : operation.leaseId < count) (word : operation.bytes < modulus)
    (owning : Owning count state.pool) :
    ReplayedAlike (workspace + 1) count state
      (replayAcquire (.arena workspace) capacities program
        (stockedState (workspace + 1) state) operationIndex operation)
      (replayAcquire .heap capacities program state operationIndex operation) := by
  unfold replayAcquire
  split_ifs with empty
  · exact ⟨rfl, owning, rfl⟩
  · obtain ⟨same, owns, decisions⟩ := @reserveReplay_alike count workspace
      operation.leaseId program state fits bound operation.bytes word
      operation.alignment owning
    rw [same]
    cases result : reserveReplay .heap program state operation.leaseId
        operation.bytes operation.alignment with
    | mk outcome after =>
        rw [result] at owns decisions
        cases outcome with
        | ok _ => exact ⟨rfl, owns, decisions⟩
        | error refusal =>
            cases refusal with
            | failed => exact ⟨rfl, owns, decisions⟩
            | unavailable =>
                obtain ⟨rfl, free⟩ := reserveReplay_unavailable owning word result
                obtain ⟨waits, ownsAfter, decisionsAfter⟩ :=
                  @reserveAfterReleaseFrontier_alike count workspace operation.leaseId
                    capacities program after operationIndex leases fits bound
                    operation.bytes word operation.alignment owning free
                simp only [Prod.map, id, waits]
                exact ⟨rfl, ownsAfter, decisionsAfter⟩

theorem replayBeginRetirement_alike {size : Nat} (owning : Owning count state.pool) :
    ReplayedAlike size count state
      (replayBeginRetirement program (stockedState size state) operation)
      (replayBeginRetirement program state operation) := by
  unfold replayBeginRetirement
  cases dependencyEvent program operation.dependencyId with
  | none => exact ⟨rfl, owning, rfl⟩
  | some event =>
      have owns := @beginRetirement_owning count operation.leaseId state.pool owning
      simp only [stockedState_pool, beginRetirement_stocked]
      cases operation.dependencyExpected with
      | false => exact ⟨rfl, owns (some event) false, rfl⟩
      | true => exact ⟨rfl, owns none true, rfl⟩

theorem replayPublishDependency_alike {size : Nat}
    (owning : Owning count state.pool) :
    ReplayedAlike size count state
      (replayPublishDependency program (stockedState size state) operation)
      (replayPublishDependency program state operation) := by
  unfold replayPublishDependency
  cases dependencyEvent program operation.dependencyId with
  | none => exact ⟨rfl, owning, rfl⟩
  | some event =>
      have owns := @publishRetirementDependency_owning count operation.leaseId
        state.pool owning event
      simp only [stockedState_pool, publishRetirementDependency_stocked]
      generalize publishRetirementDependency state.pool operation.leaseId event =
        result at owns ⊢
      obtain ⟨_ | _, pool⟩ := result
      · exact ⟨rfl, owns, rfl⟩
      · exact ⟨rfl, owns, rfl⟩

/-- A claim that is refused changes nothing. -/
theorem reserveCausalSuccessor_refused {pool after : MemoryPool} {refusal : Refusal}
    {lease bytes alignment : Nat}
    (result : reserveCausalSuccessor pool lease bytes alignment =
      (.error refusal, after)) : after = pool := by
  unfold reserveCausalSuccessor at result
  split_ifs at result
  · cases result
    rfl
  · cases chosen : selectCausal pool.leases bytes (raised pool alignment) none
        pool.rangeLeases with
    | none =>
        simp only [chosen] at result
        cases result
        rfl
    | some selected =>
        simp only [chosen] at result
        cases result

theorem reserveOrClaim_alike (operationIndex : Nat)
    (leases : program.leaseCount = count) (fits : count ≤ workspace)
    (bound : operation.leaseId < count) (word : operation.bytes < modulus)
    (owning : Owning count state.pool) :
    Alike (workspace + 1) count state
      (reserveOrClaim (.arena workspace) capacities program
        (stockedState (workspace + 1) state) operationIndex operation)
      (reserveOrClaim .heap capacities program state operationIndex operation) := by
  unfold reserveOrClaim
  obtain ⟨same, owns, decisions⟩ := @reserveReplay_alike count workspace
    operation.leaseId program state fits bound operation.bytes word
    operation.alignment owning
  rw [same]
  cases result : reserveReplay .heap program state operation.leaseId
      operation.bytes operation.alignment with
  | mk outcome after =>
      rw [result] at owns decisions
      cases outcome with
      | ok _ => exact ⟨rfl, owns, decisions⟩
      | error refusal =>
          cases refusal with
          | failed => exact ⟨rfl, owns, decisions⟩
          | unavailable =>
              obtain ⟨rfl, free⟩ := reserveReplay_unavailable owning word result
              have claims := @reserveCausalSuccessor_owning count operation.leaseId
                after.pool owning bound operation.bytes operation.alignment
              simp only [Prod.map, id, stockedState_pool,
                reserveCausalSuccessor_stocked]
              cases claim : reserveCausalSuccessor after.pool operation.leaseId
                  operation.bytes operation.alignment with
              | mk outcome pool =>
                  rw [claim] at claims
                  cases outcome with
                  | ok _ => exact ⟨rfl, claims, rfl⟩
                  | error refusal =>
                      cases refusal with
                      | failed => exact ⟨rfl, claims, rfl⟩
                      | unavailable =>
                          obtain rfl := reserveCausalSuccessor_refused claim
                          exact reserveAfterReleaseFrontier_alike operationIndex
                            leases fits bound word operation.alignment owning free

theorem markOwnRange_stocked {size lease : Nat} (outcome : Outcome)
    (pool : MemoryPool) :
    markOwnRange outcome (stocked size pool) lease =
      Prod.map id (stocked size) (markOwnRange outcome pool lease) := by
  unfold markOwnRange
  cases outcome with
  | error refusal => rfl
  | ok _ =>
      simp only [markReserved_stocked, apply_ite (Prod.map id (stocked size))]
      rfl

theorem markOwnRange_owning {lease : Nat} {pool : MemoryPool}
    (owning : Owning count pool) (outcome : Outcome) :
    Owning count (markOwnRange outcome pool lease).2 := by
  unfold markOwnRange
  cases outcome with
  | error refusal => exact owning
  | ok _ =>
      simp only
      split_ifs
      · exact owning
      · exact markReserved_owning owning

theorem replayReserve_alike (operationIndex : Nat)
    (leases : program.leaseCount = count) (fits : count ≤ workspace)
    (bound : operation.leaseId < count) (word : operation.bytes < modulus)
    (owning : Owning count state.pool) :
    ReplayedAlike (workspace + 1) count state
      (replayReserve (.arena workspace) capacities program
        (stockedState (workspace + 1) state) operationIndex operation)
      (replayReserve .heap capacities program state operationIndex operation) := by
  unfold replayReserve
  split_ifs with empty
  · exact ⟨rfl, owning, rfl⟩
  · obtain ⟨same, owns, decisions⟩ := @reserveOrClaim_alike count workspace capacities
      program state operation operationIndex leases fits bound word owning
    rw [same]
    generalize reserveOrClaim .heap capacities program state operationIndex operation =
      reserved at owns decisions ⊢
    obtain ⟨outcome, after⟩ := reserved
    have marked := @markOwnRange_owning count operation.leaseId after.pool owns outcome
    simp only [Prod.map, id, stockedState_pool, markOwnRange_stocked]
    exact ⟨rfl, marked, decisions⟩

/-- The awaited predecessor's event is published alike. -/
theorem publishAwaited_stocked {size : Nat} (predecessor : Option Nat) :
    publishAwaited program (stockedState size state) predecessor =
      (publishAwaited program state predecessor).map (stockedState size) := by
  unfold publishAwaited
  cases leaseIdOf program predecessor with
  | none => rfl
  | some source =>
      simp only [stockedState_pool, publishRetirementDependency_stocked,
        apply_ite (Option.map (stockedState size)), stockedState_expectedDependencyIds]
      cases dependencyEvent program (state.expectedDependencyIds source) with
      | none => rfl
      | some event =>
          simp only
          generalize publishRetirementDependency state.pool source event = result
          obtain ⟨_ | _, pool⟩ := result <;> rfl

theorem publishAwaited_spec (owning : Owning count state.pool)
    {predecessor : Option Nat} {after : ReplayState}
    (result : publishAwaited program state predecessor = some after) :
    Owning count after.pool ∧ after.decisions = state.decisions := by
  unfold publishAwaited at result
  cases source : leaseIdOf program predecessor with
  | none =>
      simp only [source] at result
      cases result
      exact ⟨owning, rfl⟩
  | some lease =>
      simp only [source] at result
      split_ifs at result
      · cases result
        exact ⟨owning, rfl⟩
      · cases dependency : dependencyEvent program (state.expectedDependencyIds lease) with
        | none => simp [dependency] at result
        | some event =>
            have owns := @publishRetirementDependency_owning count lease state.pool
              owning event
            simp only [dependency] at result
            generalize publishRetirementDependency state.pool lease event = published
              at owns result
            obtain ⟨_ | _, pool⟩ := published
            · cases result
            · cases result
              exact ⟨owns, rfl⟩

theorem replayAcquireReserved_alike {size : Nat} (operationIndex : Nat)
    (owning : Owning count state.pool) :
    ReplayedAlike size count state
      (replayAcquireReserved capacities program (stockedState size state)
        operationIndex operation)
      (replayAcquireReserved capacities program state operationIndex operation) := by
  unfold replayAcquireReserved
  simp only [stockedState_pool, stocked_leases, publishAwaited_stocked]
  cases published : publishAwaited program state
      (state.pool.leases operation.leaseId).causalPredecessor with
  | none => exact ⟨rfl, owning, rfl⟩
  | some after =>
      obtain ⟨owns, decisions⟩ := publishAwaited_spec owning published
      have acquired := @acquireReservedLease_owning count operation.leaseId after.pool
        owns
      simp only [Option.map, stockedState_pool, acquireReservedLease_stocked]
      generalize acquireReservedLease after.pool operation.leaseId = result
        at acquired ⊢
      obtain ⟨_ | event, pool⟩ := result
      · exact ⟨rfl, acquired, decisions⟩
      · simp only [Prod.map, id]
        cases event with
        | none => exact ⟨rfl, acquired, decisions⟩
        | some awaited =>
            have append := fun dependency => @appendDependency_stocked size
              { after with pool := pool } capacities.dependencies dependency
            have stockedAfter : ({ stockedState size after with pool := stocked size pool } :
                ReplayState) = stockedState size { after with pool := pool } := rfl
            rw [stockedAfter, append]
            cases appended : appendDependency capacities.dependencies
                { after with pool := pool } _ with
            | none => exact ⟨rfl, acquired, decisions⟩
            | some next =>
                obtain ⟨samePool, sameDecisions⟩ := appendDependency_pool appended
                refine ⟨rfl, ?_, sameDecisions.trans decisions⟩
                show Owning count next.pool
                rw [samePool]
                exact acquired

/-- Giving a lease's range back is the same over both while a node is left. -/
theorem releaseLease_alike {size lease : Nat}
    (owning : Owning count state.pool)
    (room : GivesBack state.pool lease →
      state.pool.ranges.freeRanges.length < size) :
    ReplayedAlike size count state
      ⟨.ok (releaseLease false (stocked size state.pool) lease).1, none, none,
        { stockedState size state with
          pool := (releaseLease false (stocked size state.pool) lease).2 }⟩
      ⟨.ok (releaseLease true state.pool lease).1, none, none,
        { state with pool := (releaseLease true state.pool lease).2 }⟩ := by
  rw [releaseLease_stocked owning room]
  exact ⟨rfl, releaseLease_owning owning, rfl⟩

/-- The operation releases its lease: a release, or a retirement that was not
completed early. -/
def Releases (program : ReplayProgram) (state : ReplayState)
    (operation : ReplayOperation) : Prop :=
  operation.kind = some .release ∨
    operation.kind = some .completeRetirement ∧
      (dependencyEvent program operation.dependencyId).isSome = true ∧
      state.retirementCompletedEarly operation.leaseId = false

/-- An operation in order that gives its lease's range back to a free list with
more ranges than the workspace has leases. -/
def Starves (workspace : Nat) (program : ReplayProgram)
    (earlier : Option ReplayOperation) (state : ReplayState)
    (operation : ReplayOperation) : Prop :=
  (∀ previous, earlier = some previous → previous.sequence ≤ operation.sequence) ∧
    Releases program state operation ∧
    GivesBack state.pool operation.leaseId ∧
    state.pool.ranges.freeRanges.length = workspace + 1

/-- An operation that does not starve is the same over both. -/
theorem replayOperation_alike (operationIndex : Nat)
    (leases : program.leaseCount = count) (fits : count ≤ workspace)
    (bound : operation.leaseId < count) (word : operation.bytes < modulus)
    (owning : Owning count state.pool)
    (room : Releases program state operation →
      GivesBack state.pool operation.leaseId →
        state.pool.ranges.freeRanges.length < workspace + 1) :
    ReplayedAlike (workspace + 1) count state
      (replayOperation (.arena workspace) capacities program
        (stockedState (workspace + 1) state) operationIndex operation)
      (replayOperation .heap capacities program state operationIndex operation) := by
  unfold replayOperation
  cases kind : operation.kind with
  | none => exact ⟨rfl, owning, rfl⟩
  | some named =>
      cases named with
      | acquire =>
          exact replayAcquire_alike operationIndex leases fits bound word owning
      | beginRetirement => exact replayBeginRetirement_alike owning
      | publishDependency => exact replayPublishDependency_alike owning
      | reserve =>
          exact replayReserve_alike operationIndex leases fits bound word owning
      | acquireReserved => exact replayAcquireReserved_alike operationIndex owning
      | completeRetirement =>
          simp only [replayCompleteRetirement]
          cases event : dependencyEvent program operation.dependencyId with
          | none => exact ⟨rfl, owning, rfl⟩
          | some named =>
              cases early : state.retirementCompletedEarly operation.leaseId with
              | true =>
                  simp only [stockedState_retirementCompletedEarly, early, if_true]
                  exact ⟨rfl, owning, rfl⟩
              | false =>
                  simp only [stockedState_retirementCompletedEarly, early,
                    Bool.false_eq_true, if_false]
                  apply releaseLease_alike owning
                  apply room
                  exact Or.inr ⟨kind, by rw [event]; rfl, early⟩
      | release => exact releaseLease_alike owning (room (Or.inl kind))

/-- An operation writes at most one decision, and one exactly when it succeeds. -/
theorem applyOperation_alike (operationIndex : Nat) (earlier : Option ReplayOperation)
    (leases : program.leaseCount = count) (fits : count ≤ workspace)
    (word : operation.bytes < modulus) (owning : Owning count state.pool)
    (room : ¬ Starves workspace program earlier state operation) :
    applyOperation (.arena workspace) capacities program
        (stockedState (workspace + 1) state) operationIndex earlier operation =
      Prod.map id (stockedState (workspace + 1))
        (applyOperation .heap capacities program state operationIndex earlier
          operation) ∧
    Owning count (applyOperation .heap capacities program state operationIndex earlier
      operation).2.pool ∧
    state.decisions <+: (applyOperation .heap capacities program state operationIndex
      earlier operation).2.decisions := by
  unfold applyOperation
  split_ifs with refused
  · exact ⟨rfl, owning, List.prefix_rfl⟩
  · simp only [not_or, not_le, leases] at refused
    obtain ⟨bound, ordered⟩ := refused
    have inOrder : ∀ previous, earlier = some previous →
        previous.sequence ≤ operation.sequence := by
      rintro previous rfl
      simpa using ordered
    obtain ⟨same, owns, decisions⟩ := @replayOperation_alike count workspace capacities
      program state operation operationIndex leases fits bound word owning
      (by
        intro releases gives
        have free := owning.free_length
        have listed := owning.listed_length
        by_contra full
        exact room ⟨inOrder, releases, gives, by omega⟩)
    rw [same]
    generalize replayOperation .heap capacities program state operationIndex operation =
      replayed at owns decisions ⊢
    obtain ⟨result, predecessor, dependency, after⟩ := replayed
    simp only [stockedReplayed] at owns decisions ⊢
    cases result with
    | error status => exact ⟨rfl, owns, by rw [decisions]⟩
    | ok outcome =>
        cases outcome with
        | error refusal =>
            cases refusal with
            | unavailable => exact ⟨rfl, owns, by rw [decisions]⟩
            | failed => exact ⟨rfl, owns, by rw [decisions]⟩
        | ok _ =>
            refine ⟨rfl, owns, ?_⟩
            simp only [updatePeaks, decisions]
            exact List.prefix_append _ _

end Operation

/-! ## Out of nodes -/

section Starving

variable {count workspace lease : Nat} {capacities : ResultCapacities}
  {program : ReplayProgram} {pool : MemoryPool} {state : ReplayState}
  {operation : ReplayOperation}

/-- A listed lease without a successor releases its own range. -/
theorem releaseLease_alone {heap : Bool}
    (registered : (pool.leases lease).registered = true)
    (listed : (pool.leases lease).state = .inUse ∨
      (pool.leases lease).state = .retirePending ∨
        (pool.leases lease).state = .reserved)
    (gives : GivesBack pool lease) :
    releaseLease heap pool lease = releaseRange heap pool lease := by
  obtain ⟨mem, link⟩ := gives
  unfold releaseLease
  simp only [registered, link, mem]
  rcases listed with state | state | state <;> simp [state]

/-- Over the heap the release succeeds. -/
theorem releaseLease_heap (owning : Owning count pool)
    (gives : GivesBack pool lease) :
    ∃ after, releaseLease true pool lease = (.ok (), after) := by
  have registered := ((owning.listed lease).1 gives.1).1
  have covered : (pool.leases lease).state = .reserved →
      (pool.leases lease).chargedBytes ≤ pool.reservedBytes := by
    intro reserved
    have least := @reservedCharge_le_total count lease pool.leases
      (owning.listed_bound gives.1)
    rw [owning.reserved]
    simpa [reservedCharge, reserved] using least
  obtain ⟨ranges, freed, _⟩ := @freedRanges_stocked count lease
    (pool.ranges.freeRanges.length + 1) pool owning (Nat.lt_succ_self _)
  rw [releaseLease_alone registered (owning.toRegistry.listed_state gives.1) gives]
  unfold releaseRange
  simp only [freed]
  rw [if_neg]
  · exact ⟨_, rfl⟩
  · rintro ⟨reserved, short⟩
    exact absurd (covered reserved) (Nat.not_le.2 short)

/-- Over an arena with a free range on each of its nodes it fails. -/
theorem releaseLease_full {size : Nat} (owning : Owning count pool)
    (gives : GivesBack pool lease)
    (full : pool.ranges.freeRanges.length = size) :
    (releaseLease false (stocked size pool) lease).1 = .error .failed := by
  have registered := ((owning.listed lease).1 gives.1).1
  have positive := (owning.records.valid lease).charges registered
  have freed : freedRanges false (stocked size pool) lease = none := by
    unfold freedRanges
    simp only [stocked_leases, owning.owns lease gives.1, if_true]
    exact rangeFree_full full (Nat.pos_iff_ne_zero.1 positive)
  rw [@releaseLease_alone lease (stocked size pool) false registered
    (owning.toRegistry.listed_state gives.1) gives]
  unfold releaseRange
  simp only [freed]
  split_ifs <;> rfl

/-- What a releasing operation does is its release. -/
theorem replayOperation_releases {storage : NodeStorage} {operationIndex : Nat}
    (releases : Releases program state operation) :
    replayOperation storage capacities program state operationIndex operation =
      ⟨.ok (releaseLease storage.heapGives state.pool operation.leaseId).1, none, none,
        { state with
          pool := (releaseLease storage.heapGives state.pool operation.leaseId).2 }⟩ := by
  rcases releases with kind | ⟨kind, event, early⟩
  · simp only [replayOperation, kind]
    rfl
  · obtain ⟨dependency, named⟩ := Option.isSome_iff_exists.1 event
    simp only [replayOperation, kind, replayCompleteRetirement, named, early]
    rfl

/-- An operation that starves fails over the arena and succeeds over the heap. -/
theorem applyOperation_starved {earlier : Option ReplayOperation}
    {operationIndex : Nat} (leases : program.leaseCount = count)
    (owning : Owning count state.pool)
    (starves : Starves workspace program earlier state operation) :
    (applyOperation (.arena workspace) capacities program
        (stockedState (workspace + 1) state) operationIndex earlier operation).1 =
      .invalidOperations ∧
    (applyOperation (.arena workspace) capacities program
        (stockedState (workspace + 1) state) operationIndex earlier
        operation).2.decisions = state.decisions ∧
    ∃ after, applyOperation .heap capacities program state operationIndex earlier
        operation = (.ok, after) ∧
      state.decisions.length < after.decisions.length := by
  obtain ⟨ordered, releases, gives, full⟩ := starves
  have accepted : ¬ (operation.leaseId ≥ program.leaseCount ∨
      (earlier.any fun previous => operation.sequence < previous.sequence) = true) := by
    rw [not_or, leases]
    refine ⟨Nat.not_le.2 (owning.listed_bound gives.1), ?_⟩
    cases earlier with
    | none => simp
    | some previous => simpa using ordered previous rfl
  have arena := releaseLease_full owning gives full
  obtain ⟨pool, heap⟩ := releaseLease_heap owning gives
  have stockedReleases : Releases program (stockedState (workspace + 1) state)
      operation := releases
  unfold applyOperation
  rw [if_neg accepted, if_neg accepted]
  simp only [replayOperation_releases stockedReleases, replayOperation_releases releases,
    NodeStorage.heapGives, heap, stockedState_pool, arena]
  refine ⟨trivial, rfl, _, rfl, ?_⟩
  simp [updatePeaks]

end Starving

/-! ## Runs -/

/-- No operation of a run over the heap starves a workspace of the given size. -/
def NeverStarves (workspace : Nat) (capacities : ResultCapacities)
    (program : ReplayProgram) :
    Nat → Option ReplayOperation → ReplayState → List ReplayOperation → Prop
  | _, _, _, [] => True
  | index, earlier, state, operation :: rest =>
    ¬ Starves workspace program earlier state operation ∧
      ∀ after, applyOperation .heap capacities program state index earlier operation =
          (.ok, after) →
        NeverStarves workspace capacities program (index + 1) (some operation) after
          rest

section Runs

variable {count workspace : Nat} {capacities : ResultCapacities}
  {program : ReplayProgram}

/-- A run writes its decisions after those it starts with. -/
theorem replayFrom_decisions (leases : program.leaseCount = count)
    (operations : List ReplayOperation)
    (words : ∀ operation ∈ operations, operation.bytes < modulus)
    (index : Nat) (earlier : Option ReplayOperation) {state : ReplayState}
    (owning : Owning count state.pool) :
    state.decisions <+:
      (replayFrom .heap capacities program index earlier state operations).2.2.decisions := by
  induction operations generalizing index earlier state with
  | nil => exact List.prefix_rfl
  | cons operation rest ih =>
      -- The largest workspace is never starved, so the step lemma applies.
      have roomy : ¬ Starves (count + 1) program earlier state operation := by
        rintro ⟨_, _, _, full⟩
        have free := owning.free_length
        have listed := owning.listed_length
        omega
      obtain ⟨_, owns, grows⟩ := @applyOperation_alike count (count + 1) capacities
        program state operation index earlier leases (Nat.le_succ _)
        (words operation (by simp)) owning roomy
      unfold replayFrom
      cases step : applyOperation .heap capacities program state index earlier
          operation with
      | mk status after =>
          rw [step] at owns grows
          cases status with
          | ok =>
              exact grows.trans
                (ih (fun other mem => words other (by simp [mem])) _ _ owns)
          | _ => exact grows

/-- Runs over both agree in everything while no operation starves. -/
theorem replayFrom_stocked (leases : program.leaseCount = count)
    (fits : count ≤ workspace) (operations : List ReplayOperation)
    (words : ∀ operation ∈ operations, operation.bytes < modulus)
    (index : Nat) (earlier : Option ReplayOperation) {state : ReplayState}
    (owning : Owning count state.pool)
    (never : NeverStarves workspace capacities program index earlier state operations) :
    replayFrom (.arena workspace) capacities program index earlier
        (stockedState (workspace + 1) state) operations =
      Prod.map id (Prod.map id (stockedState (workspace + 1)))
        (replayFrom .heap capacities program index earlier state operations) := by
  induction operations generalizing index earlier state with
  | nil => rfl
  | cons operation rest ih =>
      obtain ⟨fed, later⟩ := never
      obtain ⟨same, owns, _⟩ := @applyOperation_alike count workspace capacities
        program state operation index earlier leases fits (words operation (by simp))
        owning fed
      unfold replayFrom
      rw [same]
      cases step : applyOperation .heap capacities program state index earlier
          operation with
      | mk status after =>
          rw [step] at owns
          cases status with
          | ok =>
              exact ih (fun other mem => words other (by simp [mem])) _ _ owns
                (later after step)
          | _ => rfl

/-- Where an operation starves, the run over the heap decides more. -/
theorem replayFrom_starved (leases : program.leaseCount = count)
    (fits : count ≤ workspace) (operations : List ReplayOperation)
    (words : ∀ operation ∈ operations, operation.bytes < modulus)
    (index : Nat) (earlier : Option ReplayOperation) {state : ReplayState}
    (owning : Owning count state.pool)
    (starved : ¬ NeverStarves workspace capacities program index earlier state
      operations) :
    (replayFrom (.arena workspace) capacities program index earlier
        (stockedState (workspace + 1) state) operations).2.2.decisions.length <
      (replayFrom .heap capacities program index earlier state
        operations).2.2.decisions.length := by
  induction operations generalizing index earlier state with
  | nil => exact absurd trivial starved
  | cons operation rest ih =>
      have restWords : ∀ other ∈ rest, other.bytes < modulus :=
        fun other mem => words other (by simp [mem])
      by_cases here : Starves workspace program earlier state operation
      · obtain ⟨status, kept, after, succeeds, more⟩ :=
          @applyOperation_starved count workspace capacities program state operation
            earlier index leases owning here
        have roomy : ¬ Starves (count + 1) program earlier state operation := by
          rintro ⟨_, _, _, full⟩
          have free := owning.free_length
          have listed := owning.listed_length
          omega
        obtain ⟨_, owns, _⟩ := @applyOperation_alike count (count + 1) capacities
          program state operation index earlier leases (Nat.le_succ _)
          (words operation (by simp)) owning roomy
        rw [succeeds] at owns
        have prefixed := @replayFrom_decisions count capacities program leases rest
          restWords (index + 1) (some operation) after owns
        unfold replayFrom
        rw [succeeds]
        generalize applyOperation (.arena workspace) capacities program
          (stockedState (workspace + 1) state) index earlier operation = step
          at status kept
        obtain ⟨_, stopped⟩ := step
        simp only at status kept
        subst status
        simp only [kept]
        exact lt_of_lt_of_le more prefixed.length_le
      · obtain ⟨same, owns, _⟩ := @applyOperation_alike count workspace capacities
          program state operation index earlier leases fits
          (words operation (by simp)) owning here
        simp only [NeverStarves, here, not_false_eq_true, true_and, not_forall]
          at starved
        obtain ⟨after, step, rest_starved⟩ := starved
        unfold replayFrom
        rw [same, step]
        rw [step] at owns
        exact ih restWords _ _ owns rest_starved

/-- The sizes of a program are words. -/
structure WordSized (program : ReplayProgram) : Prop where
  capacity : program.capacityBytes < modulus
  bytes : ∀ operation ∈ program.operations, operation.bytes < modulus

/-- A fresh pool over either storage. -/
theorem resetState_stocked (valid : 0 < program.minimumAlignment)
    (words : WordSized program) :
    ∃ state, resetState .heap program = some state ∧
      resetState (.arena workspace) program =
        some (stockedState (workspace + 1) state) ∧
      Owning program.leaseCount state.pool := by
  obtain ⟨ranges, heap, arena, unbounded⟩ : ∃ ranges,
      rangeInitialize true program.capacityBytes = some ranges ∧
      rangeInitializeWithNodes program.capacityBytes (workspace + 1) =
        some (stock (workspace + 1) ranges) ∧ ranges.arena = false := by
    unfold rangeInitialize rangeInitializeWithNodes
    rw [if_neg (Nat.succ_ne_zero workspace)]
    by_cases empty : program.capacityBytes = 0
    · simp only [if_pos empty]
      exact ⟨_, rfl, rfl, rfl⟩
    · simp only [if_neg empty]
      exact ⟨_, rfl, by simp [acquireNode, stock], rfl⟩
  have started := tiled_of_started words.capacity (.heap heap)
  unfold resetState replayRanges
  simp only [heap, arena]
  refine ⟨_, rfl, rfl, consistent_of_new ?_, by simp, unbounded⟩
  refine ⟨?_, ?_, valid, rfl, rfl, fun lease => ⟨_, rfl⟩⟩
  · show Started ranges.capacity ⟨ranges, []⟩
    rw [started.2]
    exact .heap heap
  · show ranges.capacity < modulus
    rw [started.2]
    exact words.capacity

/-- What a run reports does not mention its nodes. -/
theorem reportRun_stocked {size : Nat} (run : Status × Nat × ReplayState) :
    reportRun capacities program (Prod.map id (Prod.map id (stockedState size)) run) =
      reportRun capacities program run := by
  rfl

/-- Both runs start from one pool. -/
theorem runReusing_eq (valid : validProgram capacities program = true)
    (fits : program.leaseCount ≤ workspace) (words : WordSized program) :
    ∃ state, resetState .heap program = some state ∧
      Owning program.leaseCount state.pool ∧
      runReusing (.arena workspace) capacities program =
        reportRun capacities program
          (replayFrom (.arena workspace) capacities program 0 none
            (stockedState (workspace + 1) state) program.operations) ∧
      runReusing .heap capacities program =
        reportRun capacities program
          (replayFrom .heap capacities program 0 none state program.operations) := by
  have alignment : 0 < program.minimumAlignment := by
    simp only [validProgram, Bool.and_eq_true, bne_iff_ne] at valid
    omega
  obtain ⟨state, heap, arena, owning⟩ :=
    @resetState_stocked workspace program alignment words
  refine ⟨state, heap, owning, ?_, ?_⟩
  · simp [runReusing, valid, fitsWorkspace, fits, arena]
  · simp [runReusing, valid, fitsWorkspace, heap]

/-- While no operation starves, the whole answer is the same. -/
theorem runReusing_stocked (valid : validProgram capacities program = true)
    (fits : program.leaseCount ≤ workspace) (words : WordSized program)
    (never : ∀ state, resetState .heap program = some state →
      NeverStarves workspace capacities program 0 none state program.operations) :
    runReusing (.arena workspace) capacities program =
      runReusing .heap capacities program := by
  obtain ⟨state, reset, owning, arenaRun, heapRun⟩ := runReusing_eq valid fits words
  rw [arenaRun, heapRun, replayFrom_stocked rfl fits program.operations words.bytes 0
    none owning (never state reset), reportRun_stocked]

/-- The replay over the arena gives the status and the decisions of the one over
the heap exactly when none of its operations starves. -/
theorem replay_agrees_iff (valid : validProgram capacities program = true)
    (fits : program.leaseCount ≤ workspace) (words : WordSized program) :
    ((runReusing (.arena workspace) capacities program).status =
        (runReusing .heap capacities program).status ∧
      (runReusing (.arena workspace) capacities program).decisions =
        (runReusing .heap capacities program).decisions) ↔
    ∀ state, resetState .heap program = some state →
      NeverStarves workspace capacities program 0 none state program.operations := by
  constructor
  · rintro ⟨_, decisions⟩ state reset
    obtain ⟨same, resetSame, owning, arenaRun, heapRun⟩ :=
      runReusing_eq valid fits words
    rw [resetSame] at reset
    cases reset
    by_contra starved
    have fewer := @replayFrom_starved program.leaseCount workspace capacities program
      rfl fits program.operations words.bytes 0 none state owning starved
    rw [arenaRun, heapRun] at decisions
    simp only [reportRun] at decisions
    rw [decisions] at fewer
    exact Nat.lt_irrefl _ fewer
  · intro never
    rw [runReusing_stocked valid fits words never]
    exact ⟨rfl, rfl⟩

/-- One lease placed at the low end: it never stands between two gaps. -/
def atLowEnd : ReplayProgram where
  abiVersion := abiVersion
  capacityBytes := 4
  minimumAlignment := 1
  largeRequestThresholdBytes := 0
  leaseCount := 1
  dependencyCount := 0
  operations := [
    ⟨0, 0, none, 1, 2, some .acquire, false⟩,
    ⟨1, 0, none, 0, 0, some .release, false⟩]

theorem replay_agrees_atLowEnd :
    (runReusing (.arena 1) ⟨2, 0, 0⟩ atLowEnd).status =
        (runReusing .heap ⟨2, 0, 0⟩ atLowEnd).status ∧
      (runReusing (.arena 1) ⟨2, 0, 0⟩ atLowEnd).decisions =
        (runReusing .heap ⟨2, 0, 0⟩ atLowEnd).decisions := by
  apply (replay_agrees_iff (by decide) (by decide) ⟨by decide, by decide⟩).2
  intro state reset
  have one : (resetState .heap atLowEnd).map
      (fun state => (applyOperation .heap ⟨2, 0, 0⟩ atLowEnd state 0 none
        ⟨0, 0, none, 1, 2, some .acquire, false⟩).2.pool.ranges.freeRanges.length) =
      some 1 := by decide
  refine ⟨?_, ?_⟩
  · rintro ⟨_, releases, _, _⟩
    rcases releases with kind | ⟨kind, _⟩ <;> cases kind
  · intro after step
    refine ⟨?_, fun _ _ => trivial⟩
    rintro ⟨_, _, _, full⟩
    rw [reset, Option.map_some, step, full] at one
    cases one

/-- One lease placed at the high end between two gaps: its retirement needs two
nodes, and a workspace of one lease has both in use. -/
def betweenGaps : ReplayProgram where
  abiVersion := abiVersion
  capacityBytes := 4
  minimumAlignment := 1
  largeRequestThresholdBytes := 1
  leaseCount := 1
  dependencyCount := 1
  operations := [
    ⟨0, 0, none, 1, 2, some .acquire, false⟩,
    ⟨1, 0, some 0, 0, 0, some .beginRetirement, false⟩,
    ⟨2, 0, some 0, 0, 0, some .completeRetirement, false⟩]

/-- Room for every decision of the program above. -/
def threeDecisions : ResultCapacities := ⟨3, 1, 0⟩

/-- Over the heap the lease retires; over the arena the program is called
invalid at its last operation. -/
theorem betweenGaps_refused :
    (runReusing .heap threeDecisions betweenGaps).status = .ok ∧
      (runReusing (.arena 1) threeDecisions betweenGaps).status =
        .invalidOperations := by
  decide

end Runs

end ShadowSpill.Runtime.ReplayNodes
