import ShadowSpill.Runtime.LeaseRecords
import ShadowSpill.Runtime.ReleaseWorkspace
import ShadowSpill.Runtime.ReplayFrontier

/-!
# Runs beyond the reserve

Lease records are taken past the reserve, but the workspaces of the release frontier
are not.  In every run the records are counted, and the question whether releases make
room is answered exactly while the workspaces suffice; they do as long as no record is
taken past the reserve.
-/

namespace ShadowSpill.Runtime.RecordRuns

open Library.Word64 RangeTiling PoolLeases PoolInvariant PoolRuns PoolLayout ReleaseFrontier
open ReplayFrontier LeaseRecords ReleaseWorkspace

/-- A call on the pool or on its records. -/
inductive RecordOperation where
  | acquireLeaseRecord (generation : Nat)
  | tryRecycleLeaseRecord (record : Nat) (unreferenced : Bool)
  | acquireUseRecord
  | releaseUseRecords (records : List Nat) (hasEvent : Nat → Bool)
  | reserveLeaseRecords (minimumFreeRecords : Nat)
  | call (operation : Operation)

/-- The state after a call, whatever its status; `heap` says whether the process heap
gives what the call asks of it. -/
def performRecord (heap : Bool) (state : RecordedPool) : RecordOperation → RecordedPool
  | .acquireLeaseRecord generation => (acquireLeaseRecord heap state generation).2
  | .tryRecycleLeaseRecord record unreferenced =>
    tryRecycleLeaseRecord state record unreferenced
  | .acquireUseRecord => acquireUseRecord heap state
  | .releaseUseRecords records hasEvent => (releaseUseRecords state records hasEvent).2
  | .reserveLeaseRecords minimumFreeRecords =>
    (reserveLeaseRecords heap state minimumFreeRecords).2
  | .call operation => { state with pool := perform heap state.pool operation }

/-- A new lease is made in a record that was taken for it, sizes are words, and use
records are given back once by those who took them. -/
def RecordOperation.Proper (state : RecordedPool) : RecordOperation → Prop
  | .releaseUseRecords records _ =>
    records.Nodup ∧ ∀ record ∈ records, state.useRecords.taken record = true
  | .call operation =>
    operation.Proper state.leaseRecords.capacity ∧
      ∀ record, newLease operation = some record → state.leaseRecords.taken record = true
  | _ => True

/-- One call. -/
inductive RecordStep (state : RecordedPool) : RecordedPool → Prop where
  | performed (heap : Bool) (operation : RecordOperation)
      (proper : operation.Proper state) : RecordStep state (performRecord heap state operation)

/-- A pool just initialized: no records, no workspaces, and range nodes from the heap. -/
structure NewRecorded (state : RecordedPool) : Prop where
  pool : New state.pool
  unbounded : state.pool.ranges.arena = false
  leaseRecords : state.leaseRecords = .empty
  useRecords : state.useRecords = .empty
  releaseFrontierCapacity : state.releaseFrontierCapacity = 0
  releaseRangeCapacity : state.releaseRangeCapacity = 0

/-- The stocks are counted, the pool is laid out over the records there are, and only
taken records are registered. -/
structure Recorded (state : RecordedPool) : Prop where
  leases : state.leaseRecords.Counted
  uses : state.useRecords.Counted
  heapPool : HeapPool state.leaseRecords.capacity state.pool
  taken : ∀ lease, (state.pool.leases lease).registered = true →
    state.leaseRecords.taken lease = true

section Steps

variable {count larger lease : Nat} {pool : MemoryPool} {state after : RecordedPool}

/-- A pool laid out over some records is laid out over more of them. -/
theorem HeapPool.mono (kept : HeapPool count pool) (le : count ≤ larger) :
    HeapPool larger pool := by
  refine ⟨⟨kept.alignment, ⟨?_, kept.records.forward, kept.records.back⟩, kept.nodup,
    kept.listed, kept.tiled⟩, kept.unbounded⟩
  intro lease
  have valid := kept.records.valid lease
  exact ⟨fun registered => (valid.numbered registered).trans_le le, valid.active,
    valid.charges, valid.claimed⟩

/-- A record that nothing is registered in is made blank. -/
theorem HeapPool.blank (kept : HeapPool count pool)
    (unregistered : (pool.leases lease).registered = false) (generation : Nat) :
    HeapPool count (pool.update lease fun _ => .blank generation) :=
  ⟨kept.toLaidOut.replace unregistered ⟨rfl, rfl⟩ rfl rfl, kept.unbounded⟩

theorem Recorded.unregistered (recorded : Recorded state)
    (spare : state.leaseRecords.taken lease = false) :
    (state.pool.leases lease).registered = false := by
  by_contra registered
  rw [Bool.not_eq_false] at registered
  rw [recorded.taken lease registered] at spare
  cases spare

theorem acquireLeaseRecord_recorded (recorded : Recorded state) (heap : Bool)
    (generation : Nat) : Recorded (acquireLeaseRecord heap state generation).2 := by
  have counted := recorded.leases.acquire heap
  unfold acquireLeaseRecord
  cases result : state.leaseRecords.acquire heap with
  | mk acquired stock =>
      rw [result] at counted
      cases acquired with
      | none =>
          obtain ⟨taken, capacity⟩ := RecordStock.acquire_none result
          refine ⟨counted, recorded.uses, ?_, ?_⟩
          · rw [capacity]
            exact recorded.heapPool
          · rw [taken]
            exact recorded.taken
      | some record =>
          obtain ⟨spare, taken, capacity⟩ := recorded.leases.acquire_some result
          refine ⟨counted, recorded.uses, ?_, ?_⟩
          · exact HeapPool.blank (HeapPool.mono recorded.heapPool capacity)
              (recorded.unregistered spare) generation
          · intro lease registered
            simp only [taken, update_leases, Function.update_apply] at registered ⊢
            split_ifs at registered ⊢ with here
            · rfl
            · exact recorded.taken lease registered

theorem tryRecycleLeaseRecord_recorded (recorded : Recorded state) (record : Nat)
    (unreferenced : Bool) : Recorded (tryRecycleLeaseRecord state record unreferenced) := by
  unfold tryRecycleLeaseRecord
  split_ifs with recyclable
  · simp only [isRecyclable, Bool.and_eq_true, Bool.not_eq_true'] at recyclable
    obtain ⟨⟨⟨⟨⟨⟨taken, unregistered⟩, _⟩, _⟩, _⟩, _⟩, _⟩ := recyclable
    refine ⟨recorded.leases.recycle taken, recorded.uses, ?_, ?_⟩
    · exact HeapPool.blank recorded.heapPool unregistered 0
    · intro lease registered
      simp only [RecordStock.recycle, update_leases, Function.update_apply] at registered ⊢
      split_ifs at registered ⊢ with here
      · cases registered
      · exact recorded.taken lease registered
  · exact recorded

theorem releaseUseRecords_recorded (recorded : Recorded state) {records : List Nat}
    (nodup : records.Nodup) (taken : ∀ record ∈ records, state.useRecords.taken record = true)
    (hasEvent : Nat → Bool) : Recorded (releaseUseRecords state records hasEvent).2 := by
  unfold releaseUseRecords
  split_ifs
  · exact recorded
  · exact ⟨recorded.leases, recorded.uses.recycleAll nodup taken, recorded.heapPool,
      recorded.taken⟩

theorem reserveLeaseRecords_recorded (recorded : Recorded state) (heap : Bool)
    (minimumFreeRecords : Nat) :
    Recorded (reserveLeaseRecords heap state minimumFreeRecords).2 := by
  unfold reserveLeaseRecords
  simp only
  split_ifs
  all_goals first
    | exact recorded
    | exact ⟨recorded.leases.grow _, recorded.uses.grow _,
        HeapPool.mono recorded.heapPool (Nat.le_add_right _ _), recorded.taken⟩

theorem call_recorded (recorded : Recorded state) (heap : Bool) {operation : Operation}
    (proper : RecordOperation.Proper state (.call operation)) :
    Recorded { state with pool := perform heap state.pool operation } := by
  obtain ⟨numbered, named⟩ := proper
  refine ⟨recorded.leases, recorded.uses, ⟨?_, ?_⟩, ?_⟩
  · exact (Call.performed heap operation numbered).laidOut recorded.heapPool.toLaidOut
  · exact (perform_site operation).arena.trans recorded.heapPool.unbounded
  · intro lease registered
    by_contra spare
    rw [Bool.not_eq_true] at spare
    have apart : newLease operation ≠ some lease := by
      intro new
      rw [named lease new] at spare
      cases spare
    have still := @perform_registered _ lease state.pool heap recorded.heapPool.toLaidOut
      operation (recorded.unregistered spare) apart
    rw [still] at registered
    cases registered

/-- A call keeps the records. -/
theorem RecordStep.recorded (step : RecordStep state after) (recorded : Recorded state) :
    Recorded after := by
  cases step with
  | performed heap operation proper =>
      cases operation with
      | acquireLeaseRecord generation => exact acquireLeaseRecord_recorded recorded heap _
      | tryRecycleLeaseRecord record unreferenced =>
          exact tryRecycleLeaseRecord_recorded recorded record unreferenced
      | acquireUseRecord =>
          exact ⟨recorded.leases, recorded.uses.acquire heap, recorded.heapPool,
            recorded.taken⟩
      | releaseUseRecords records hasEvent =>
          exact releaseUseRecords_recorded recorded proper.1 proper.2 hasEvent
      | reserveLeaseRecords minimumFreeRecords =>
          exact reserveLeaseRecords_recorded recorded heap minimumFreeRecords
      | call operation => exact call_recorded recorded heap proper

theorem recorded_new (new : NewRecorded state) : Recorded state := by
  have consistent := @consistent_of_new 0 state.pool new.pool
  constructor
  case leases => rw [new.leaseRecords]; exact RecordStock.counted_empty
  case uses => rw [new.useRecords]; exact RecordStock.counted_empty
  case heapPool =>
    rw [new.leaseRecords]
    exact ⟨Consistent.laidOut consistent (sameLayout_refl _), new.unbounded⟩
  case taken =>
    intro lease registered
    obtain ⟨generation, blank⟩ := new.pool.blank lease
    rw [blank] at registered
    cases registered

/-- Every run of calls keeps the records. -/
theorem recorded_of_run (new : NewRecorded state)
    (run : Relation.ReflTransGen RecordStep state after) : Recorded after := by
  induction run with
  | refl => exact recorded_new new
  | tail _ step inductionHypothesis => exact step.recorded inductionHypothesis

end Steps

/-! ## Within the reserve -/

section Reserve

variable {state after : RecordedPool} {bytes alignment : Nat}

/-- A call that takes no lease record past the reserve. -/
def RecordOperation.Reserved (state : RecordedPool) : RecordOperation → Prop
  | .acquireLeaseRecord _ => state.leaseRecords.free ≠ []
  | _ => True

/-- A call within the reserve. -/
inductive ReservedStep (state : RecordedPool) : RecordedPool → Prop where
  | performed (heap : Bool) (operation : RecordOperation) (proper : operation.Proper state)
      (reserved : operation.Reserved state) :
      ReservedStep state (performRecord heap state operation)

/-- Each workspace is there for every record. -/
structure Covered (state : RecordedPool) : Prop where
  frontier : state.leaseRecords.capacity ≤ state.releaseFrontierCapacity
  ranges : state.leaseRecords.capacity = 0 ∨
    2 * state.leaseRecords.capacity + 2 ≤ state.releaseRangeCapacity

theorem ReservedStep.step (step : ReservedStep state after) : RecordStep state after := by
  cases step with
  | performed heap operation proper reserved => exact .performed heap operation proper

/-- A record from the free list leaves as many records as there were. -/
theorem acquire_capacity {stock : RecordStock} (heap : Bool) (free : stock.free ≠ []) :
    (stock.acquire heap).2.capacity = stock.capacity := by
  unfold RecordStock.acquire
  split
  case h_1 => rfl
  case h_2 none => exact absurd none free

theorem reserveLeaseRecords_covered (covered : Covered state) (heap : Bool)
    (minimumFreeRecords : Nat) : Covered (reserveLeaseRecords heap state minimumFreeRecords).2 := by
  obtain ⟨frontier, ranges⟩ := covered
  unfold reserveLeaseRecords
  simp only
  split_ifs
  all_goals
    constructor
    · simp only [RecordStock.grow]
      omega
    · simp only [RecordStock.grow]
      omega

theorem ReservedStep.covered (step : ReservedStep state after) (covered : Covered state) :
    Covered after := by
  cases step with
  | performed heap operation proper reserved =>
      cases operation with
      | acquireLeaseRecord generation =>
          have capacity := acquire_capacity heap reserved
          simp only [performRecord, acquireLeaseRecord]
          generalize state.leaseRecords.acquire heap = acquired at capacity ⊢
          obtain ⟨_ | record, stock⟩ := acquired
          · exact ⟨capacity ▸ covered.frontier, capacity ▸ covered.ranges⟩
          · exact ⟨capacity ▸ covered.frontier, capacity ▸ covered.ranges⟩
      | tryRecycleLeaseRecord record unreferenced =>
          simp only [performRecord, tryRecycleLeaseRecord]
          split_ifs
          · exact ⟨covered.frontier, covered.ranges⟩
          · exact covered
      | acquireUseRecord => exact ⟨covered.frontier, covered.ranges⟩
      | releaseUseRecords records hasEvent =>
          simp only [performRecord, releaseUseRecords]
          split_ifs
          · exact covered
          · exact ⟨covered.frontier, covered.ranges⟩
      | reserveLeaseRecords minimumFreeRecords =>
          exact reserveLeaseRecords_covered covered heap minimumFreeRecords
      | call operation => exact ⟨covered.frontier, covered.ranges⟩

/-- In a run that takes no record past the reserve the workspaces suffice for every
request. -/
theorem suffice_in_reserve (new : NewRecorded state)
    (run : Relation.ReflTransGen ReservedStep state after) (positive : 0 < bytes) :
    WorkspacesSuffice after.releaseFrontierCapacity after.releaseRangeCapacity after.pool
      bytes alignment := by
  have steps : ∀ {last}, Relation.ReflTransGen ReservedStep state last →
      Relation.ReflTransGen RecordStep state last :=
    fun run => run.lift id fun _ _ => ReservedStep.step
  have recorded := recorded_of_run new (steps run)
  have covered : Covered after := by
    induction run with
    | refl =>
        constructor
        · rw [new.leaseRecords]
          exact Nat.zero_le _
        · rw [new.leaseRecords]
          exact Or.inl rfl
    | tail run step inductionHypothesis =>
        exact step.covered (inductionHypothesis (recorded_of_run new (steps run)))
  rcases Nat.eq_zero_or_pos after.leaseRecords.capacity with none | some_
  · left
    have kept := recorded.heapPool
    rw [none] at kept
    apply List.filter_eq_nil_iff.2
    intro lease mem
    exact absurd ((kept.records.valid lease).numbered ((kept.listed lease).1 mem).1)
      (Nat.not_lt_zero _)
  · have ranges := covered.ranges.resolve_left some_.ne'
    exact suffice_of_records recorded.heapPool positive covered.frontier (by omega)

/-- In such a run the question whether releases make room is always answered, and as the
ranges decide. -/
theorem answers_in_reserve (new : NewRecorded state)
    (run : Relation.ReflTransGen ReservedStep state after) (positive : 0 < bytes)
    (word : bytes < modulus) :
    ∃ answer, canReserve after.releaseFrontierCapacity after.releaseRangeCapacity after.pool
        bytes alignment = some answer ∧
      (answer = true ↔ MakesRoom after.pool bytes alignment) := by
  have recorded := recorded_of_run new (run.lift id fun _ _ => ReservedStep.step)
  exact (canReserve_answers_iff recorded.heapPool positive word).2
    (suffice_in_reserve new run positive)

end Reserve

/-! ## Past the reserve -/

/-- In every state of every run the records are counted, and the question whether the
pending releases make room for a request is answered, and as the ranges decide, exactly
where the workspaces suffice. -/
theorem answers_in_runs {state after : RecordedPool} (new : NewRecorded state)
    (run : Relation.ReflTransGen RecordStep state after) :
    after.leaseRecords.capacity = after.leaseRecords.available + after.leaseRecords.inUse ∧
      after.useRecords.capacity = after.useRecords.available + after.useRecords.inUse ∧
      ∀ bytes alignment, 0 < bytes → bytes < modulus →
        ((∃ answer, canReserve after.releaseFrontierCapacity after.releaseRangeCapacity
            after.pool bytes alignment = some answer ∧
              (answer = true ↔ MakesRoom after.pool bytes alignment)) ↔
          WorkspacesSuffice after.releaseFrontierCapacity after.releaseRangeCapacity
            after.pool bytes alignment) := by
  have recorded := recorded_of_run new run
  refine ⟨recorded.leases.total, recorded.uses.total, ?_⟩
  intro bytes alignment positive word
  exact canReserve_answers_iff recorded.heapPool positive word

/-- Four bytes without records. -/
def unreserved : RecordedPool where
  pool := heapBytes
  leaseRecords := .empty
  useRecords := .empty
  releaseFrontierCapacity := 0
  releaseRangeCapacity := 0

theorem unreserved_new : NewRecorded unreserved :=
  ⟨heapBytes_new, rfl, rfl, rfl, rfl, rfl⟩

/-- Two leases of two bytes are made and retire. -/
def twoRetire : List RecordOperation :=
  [.acquireLeaseRecord 1, .call (.reserveLease 0 2 1 .bestFitLow),
    .acquireLeaseRecord 2, .call (.reserveLease 1 2 1 .bestFitLow),
    .call (.beginRetirement 0 (some 7) false), .call (.beginRetirement 1 (some 8) false)]

/-- The state after some records are reserved and two leases retire. -/
def retireOver (reserved : Nat) : RecordedPool :=
  (.reserveLeaseRecords reserved :: twoRetire).foldl (performRecord true) unreserved

/-- Every call of a list is proper where it is made. -/
def AllProper : RecordedPool → List RecordOperation → Prop
  | _, [] => True
  | state, operation :: rest =>
    operation.Proper state ∧ AllProper (performRecord true state operation) rest

theorem reached_of_allProper {operations : List RecordOperation} {state : RecordedPool}
    (proper : AllProper state operations) :
    Relation.ReflTransGen RecordStep state (operations.foldl (performRecord true) state) := by
  induction operations generalizing state with
  | nil => exact .refl
  | cons operation rest inductionHypothesis =>
      exact .head (.performed true operation proper.1) (inductionHypothesis proper.2)

theorem some_taken {lease : Nat} {stock : RecordStock} (taken : stock.taken lease = true) :
    ∀ record, some lease = some record → stock.taken record = true := by
  rintro record ⟨⟩
  exact taken

theorem retireOver_one : Relation.ReflTransGen RecordStep unreserved (retireOver 1) :=
  reached_of_allProper ⟨trivial, trivial, ⟨⟨by decide, by decide⟩, some_taken rfl⟩,
    trivial, ⟨⟨by decide, by decide⟩, some_taken rfl⟩, ⟨trivial, nofun⟩, ⟨trivial, nofun⟩,
    trivial⟩

/-- With two records reserved both are taken from the reserve. -/
theorem retireOver_two : Relation.ReflTransGen ReservedStep unreserved (retireOver 2) := by
  refine .head (.performed true (.reserveLeaseRecords 2) trivial trivial) ?_
  refine .head (.performed true (.acquireLeaseRecord 1) trivial (List.cons_ne_nil _ _)) ?_
  refine .head (.performed true (.call (.reserveLease 0 2 1 .bestFitLow))
    ⟨⟨by decide, by decide⟩, some_taken rfl⟩ trivial) ?_
  refine .head (.performed true (.acquireLeaseRecord 2) trivial (List.cons_ne_nil _ _)) ?_
  refine .head (.performed true (.call (.reserveLease 1 2 1 .bestFitLow))
    ⟨⟨by decide, by decide⟩, some_taken rfl⟩ trivial) ?_
  refine .head (.performed true (.call (.beginRetirement 0 (some 7) false))
    ⟨trivial, nofun⟩ trivial) ?_
  exact .single (.performed true (.call (.beginRetirement 1 (some 8) false))
    ⟨trivial, nofun⟩ trivial)

/-- Both leases are pending, and for three bytes the answer is yes. -/
theorem answers_reserved :
    AdmissionReplay.frontierOrder (retireOver 2).pool = [0, 1] ∧
      canReserve (retireOver 2).releaseFrontierCapacity (retireOver 2).releaseRangeCapacity
        (retireOver 2).pool 3 1 = some true ∧ MakesRoom (retireOver 2).pool 3 1 := by
  obtain ⟨answer, answered, room⟩ :=
    answers_in_reserve unreserved_new retireOver_two (show 0 < 3 by decide)
      (show 3 < modulus by decide)
  have yes : canReserve (retireOver 2).releaseFrontierCapacity
      (retireOver 2).releaseRangeCapacity (retireOver 2).pool 3 1 = some true := by decide
  refine ⟨by decide, yes, room.1 ?_⟩
  rw [yes] at answered
  exact (Option.some.inj answered).symm

/-- With two records reserved the question is answered. -/
theorem answers_over_two :
    (retireOver 2).leaseRecords.capacity = 2 ∧
      ∃ answer, canReserve (retireOver 2).releaseFrontierCapacity
        (retireOver 2).releaseRangeCapacity (retireOver 2).pool 3 1 = some answer ∧
          (answer = true ↔ MakesRoom (retireOver 2).pool 3 1) := by
  have run := retireOver_two.lift id fun _ _ => ReservedStep.step
  obtain ⟨_, _, answers⟩ := answers_in_runs unreserved_new run
  have kept := (recorded_of_run unreserved_new run).heapPool
  refine ⟨by decide, (answers 3 1 (by decide) (by decide)).2 ?_⟩
  exact suffice_of_records kept (by decide) (by decide) (by decide)

/-- With one record reserved and two taken the question fails, although three bytes fit
once both leases are released. -/
theorem fails_past_reserve :
    Relation.ReflTransGen RecordStep unreserved (retireOver 1) ∧
      canReserve (retireOver 1).releaseFrontierCapacity (retireOver 1).releaseRangeCapacity
        (retireOver 1).pool 3 1 = none ∧
      MakesRoom (retireOver 1).pool 3 1 := by
  refine ⟨retireOver_one, by decide, 2, by decide, by decide, ?_⟩
  exact ⟨_, rfl, _, rfl⟩

end ShadowSpill.Runtime.RecordRuns
