import ShadowSpill.Runtime.ReleaseFrontier
import ShadowSpill.Runtime.ReplayNodes

/-!
# The release frontier of a replay

A replay asks for the frontier after the pool has refused a request.  It releases
the leases the probe names, each with the dependency it stands for, and reserves
again, with the placement the request's size calls for.  The reservation finds
the free ranges that the probe saw, so it is not refused.
-/

namespace ShadowSpill.Runtime.ReplayFrontier

open Library.Word64 Ranges PoolLeases PoolInvariant PoolOperations PoolRuns PoolLayout ArenaPool
open AdmissionReplay ReplayNodes ReleaseFrontier Status

/-- A replay pool is a laid out pool over the heap. -/
theorem Owning.heapPool {count : Nat} {pool : MemoryPool} (owning : Owning count pool) :
    HeapPool count pool :=
  ⟨Consistent.laidOut owning.toConsistent (sameLayout_refl pool), owning.unbounded⟩

/-! ## Over an arena -/

section Arena

variable {count workspace waiting bytes alignment : Nat} {pool : MemoryPool}
  {placement : Placement}

/-- While a lease of the program waits, all releases find their nodes. -/
theorem releaseAll_stocked (fits : count ≤ workspace) (bound : waiting < count)
    (released : List Nat) {pool : MemoryPool} (owning : Owning count pool)
    (unregistered : (pool.leases waiting).registered = false) :
    releaseAll false (stocked (workspace + 1) pool) released =
        Prod.map id (stocked (workspace + 1)) (releaseAll true pool released) ∧
      Owning count (releaseAll true pool released).2 ∧
      ((releaseAll true pool released).2.leases waiting).registered = false := by
  induction released generalizing pool with
  | nil => exact ⟨rfl, owning, unregistered⟩
  | cons lease rest ih =>
      have room := owning.room bound unregistered
      have same := @releaseLease_stocked count lease (workspace + 1) pool owning
        (fun _ => by omega)
      have keeps := @releaseLease_owning count lease pool owning
      have waits := @releaseLease_registered count lease waiting pool true
        (Consistent.laidOut owning.toConsistent (sameLayout_refl pool)) unregistered
      simp only [releaseAll, same]
      generalize releaseLease true pool lease = result at keeps waits ⊢
      obtain ⟨_ | _, after⟩ := result
      · exact ⟨rfl, keeps, waits⟩
      · exact ih keeps waits

theorem admits_stocked (fits : count ≤ workspace) (bound : waiting < count)
    (released : List Nat) (owning : Owning count pool)
    (unregistered : (pool.leases waiting).registered = false) :
    Admits false (stocked (workspace + 1) pool) released bytes alignment placement ↔
      Admits true pool released bytes alignment placement := by
  obtain ⟨same, keeps, waits⟩ :=
    releaseAll_stocked fits bound released owning unregistered
  unfold Admits
  rw [same]
  generalize releaseAll true pool released = result at keeps waits
  obtain ⟨outcome, after⟩ := result
  have room : after.ranges.freeRanges.length < workspace + 1 :=
    lt_of_le_of_lt (keeps.room bound waits) (by omega)
  have follows := reserve_stocked ⟨keeps.unbounded, le_of_lt room⟩ room bytes alignment
    placement
  simp only [Prod.map, id, Prod.mk.injEq]
  constructor
  · rintro ⟨_, ⟨done, rfl⟩, granted, served⟩
    refine ⟨after, ⟨done, rfl⟩, ?_⟩
    rw [follows.same] at served
    cases given : reserve true after bytes alignment placement with
    | ok place => exact ⟨_, rfl⟩
    | error refusal =>
        rw [given] at served
        cases served
  · rintro ⟨_, ⟨done, rfl⟩, granted, served⟩
    refine ⟨_, ⟨done, rfl⟩, ?_⟩
    rw [follows.same, served]
    exact ⟨_, rfl⟩

theorem leavesWholeWord_stocked (fits : count ≤ workspace) (bound : waiting < count)
    (released : List Nat) (owning : Owning count pool)
    (unregistered : (pool.leases waiting).registered = false) :
    LeavesWholeWord false (stocked (workspace + 1) pool) released placement ↔
      LeavesWholeWord true pool released placement := by
  obtain ⟨same, _, _⟩ := releaseAll_stocked fits bound released owning unregistered
  unfold LeavesWholeWord
  rw [same]
  generalize releaseAll true pool released = result
  obtain ⟨outcome, after⟩ := result
  simp only [Prod.map, id, Prod.mk.injEq]
  constructor
  · rintro ⟨another, _, ⟨done, rfl⟩, whole⟩
    exact ⟨another, after, ⟨done, rfl⟩, whole⟩
  · rintro ⟨another, _, ⟨done, rfl⟩, whole⟩
    exact ⟨another, _, ⟨done, rfl⟩, whole⟩

/-- The answers over the arena are as exact as those over the heap. -/
theorem probed_stocked (fits : count ≤ workspace) (bound : waiting < count)
    (owning : Owning count pool)
    (unregistered : (pool.leases waiting).registered = false)
    {answer : Except Refusal (List Nat)}
    (probed : Probed true pool bytes alignment placement answer) :
    Probed false (stocked (workspace + 1) pool) bytes alignment placement answer := by
  have admits := fun released => @admits_stocked count workspace waiting bytes alignment
    pool placement fits bound released owning unregistered
  cases probed with
  | failed => exact Probed.failed
  | none reason =>
      apply Probed.none
      rw [stocked_frontierOrder, admits,
        leavesWholeWord_stocked fits bound _ owning unregistered]
      exact reason
  | @found length shortest =>
      have found := @Probed.found false (stocked (workspace + 1) pool) bytes alignment
        placement length
      rw [stocked_frontierOrder] at found
      apply found
      constructor
      · exact shortest.positive
      · exact shortest.bounded
      · exact (admits _).2 shortest.enough
      · intro fewer some_ less
        rw [admits]
        exact shortest.least fewer some_ less

end Arena

/-! ## Reached states -/

/-- The states a replay reaches before it stops, with the number of operations it
has applied and the last of them. -/
inductive Reached (storage : NodeStorage) (capacities : ResultCapacities)
    (program : ReplayProgram) : Nat → Option ReplayOperation → ReplayState → Prop where
  | start {state : ReplayState} (reset : resetState storage program = some state) :
      Reached storage capacities program 0 none state
  | applied {index : Nat} {earlier : Option ReplayOperation}
      {state after : ReplayState} {operation : ReplayOperation}
      (reached : Reached storage capacities program index earlier state)
      (next : program.operations[index]? = some operation)
      (ok : applyOperation storage capacities program state index earlier operation =
        (.ok, after)) :
      Reached storage capacities program (index + 1) (some operation) after

section Reached

variable {workspace index : Nat} {capacities : ResultCapacities}
  {program : ReplayProgram} {earlier : Option ReplayOperation} {state : ReplayState}

theorem Reached.owning (reached : Reached .heap capacities program index earlier state)
    (valid : 0 < program.minimumAlignment) (words : WordSized program) :
    Owning program.leaseCount state.pool := by
  induction reached with
  | start reset =>
      obtain ⟨first, starts, _, owning⟩ :=
        @resetState_stocked 0 program valid words
      rw [starts] at reset
      cases reset
      exact owning
  | @applied index earlier state after operation reached next ok ih =>
      -- A workspace that large is never starved, so the step lemma applies.
      have roomy : ¬ Starves (program.leaseCount + 1) program earlier state
          operation := by
        rintro ⟨_, _, _, full⟩
        have free := ih.free_length
        have listed := ih.listed_length
        omega
      obtain ⟨_, owns, _⟩ := @applyOperation_alike program.leaseCount
        (program.leaseCount + 1) capacities program state operation index earlier rfl
        (Nat.le_succ _) (words.bytes operation (List.mem_of_getElem? next)) ih roomy
      rw [ok] at owns
      exact owns

/-- A state reached over an arena is reached over the heap, with other nodes. -/
theorem Reached.stocked
    (reached : Reached (.arena workspace) capacities program index earlier state)
    (valid : 0 < program.minimumAlignment) (words : WordSized program)
    (fits : program.leaseCount ≤ workspace) :
    ∃ other, Reached .heap capacities program index earlier other ∧
      state = stockedState (workspace + 1) other := by
  induction reached with
  | start reset =>
      obtain ⟨first, starts, arena, _⟩ :=
        @resetState_stocked workspace program valid words
      rw [arena] at reset
      cases reset
      exact ⟨first, Reached.start starts, rfl⟩
  | @applied index earlier state after operation reached next ok ih =>
      obtain ⟨other, heap, rfl⟩ := ih
      have owning := heap.owning valid words
      have fed : ¬ Starves workspace program earlier other operation := by
        intro starves
        have failed := (@applyOperation_starved program.leaseCount workspace capacities
          program other operation earlier index rfl owning starves).1
        rw [ok] at failed
        cases failed
      obtain ⟨same, _, _⟩ := @applyOperation_alike program.leaseCount workspace
        capacities program other operation index earlier rfl fits
        (words.bytes operation (List.mem_of_getElem? next)) owning fed
      rw [ok] at same
      cases applied : applyOperation .heap capacities program other index earlier
          operation with
      | mk status next_ =>
          rw [applied] at same
          cases same
          exact ⟨next_, heap.applied next applied, rfl⟩

end Reached

/-! ## The releases of the replay -/

section Frontier

variable {count workspace operationIndex successor bytes alignment : Nat}
  {capacities : ResultCapacities} {program : ReplayProgram} {state : ReplayState}

/-- A dependency that is published changes no layout, and no state or link of a
lease. -/
structure Publishes (pool after : MemoryPool) : Prop where
  listed : after.rangeLeases = pool.rangeLeases
  ranges : after.ranges = pool.ranges
  alignment : after.minimumAlignment = pool.minimumAlignment
  owns : ∀ lease, (after.leases lease).ownsPoolRange = (pool.leases lease).ownsPoolRange
  state : ∀ lease, (after.leases lease).state = (pool.leases lease).state
  successor : ∀ lease,
    (after.leases lease).causalSuccessor = (pool.leases lease).causalSuccessor
  range : ∀ lease, leaseRange (after.leases lease) = leaseRange (pool.leases lease)

theorem publishes_refl (pool : MemoryPool) : Publishes pool pool :=
  ⟨rfl, rfl, rfl, fun _ => rfl, fun _ => rfl, fun _ => rfl, fun _ => rfl⟩

theorem publishRetirementDependency_publishes {pool : MemoryPool} (lease event : Nat) :
    Publishes pool (publishRetirementDependency pool lease event).2 := by
  unfold publishRetirementDependency
  simp only
  split_ifs
  · exact publishes_refl pool
  · constructor
    · rfl
    · rfl
    · rfl
    all_goals
      intro other
      by_cases here : other = lease
      · simp [here, leaseRange]
      · simp [here, leaseRange]

theorem publishExpected_publishes (predecessor : Nat) :
    Publishes state.pool (publishExpected program state predecessor).2.pool := by
  have published := fun event =>
    @publishRetirementDependency_publishes state.pool predecessor event
  unfold publishExpected
  simp only
  cases (state.pool.leases predecessor).causalEvent with
  | some event => exact publishes_refl _
  | none =>
      simp only
      split_ifs
      · exact publishes_refl _
      · cases dependencyEvent program (state.expectedDependencyIds predecessor) with
        | none => exact publishes_refl _
        | some event =>
            have after := published event
            simp only
            generalize publishRetirementDependency state.pool predecessor event = result
              at after
            obtain ⟨_ | _, pool⟩ := result
            · exact publishes_refl _
            · exact after

theorem Publishes.pending {pool after : MemoryPool} {lease : Nat}
    (publishes : Publishes pool after) (pending : Pending pool lease) :
    Pending after lease := by
  constructor
  · rw [publishes.listed]
    exact pending.listed
  · rw [publishes.owns]
    exact pending.owns
  · rw [publishes.state]
    exact pending.retiring
  · rw [publishes.successor]
    exact pending.alone

/-- A pool that releases the listed leases to the same ranges as another. -/
structure Shadows (pool other : MemoryPool) (released : List Nat) : Prop where
  ranges : pool.ranges = other.ranges
  alignment : pool.minimumAlignment = other.minimumAlignment
  pending : ∀ lease ∈ released, Pending pool lease ∧ Pending other lease ∧
    leaseRange (pool.leases lease) = leaseRange (other.leases lease)

theorem Shadows.released {pool other after otherAfter : MemoryPool} {lease : Nat}
    {rest : List Nat} (shadows : Shadows pool other (lease :: rest))
    (apart : lease ∉ rest) (first : Released count pool lease after)
    (second : Released count other lease otherAfter) :
    Shadows after otherAfter rest := by
  have range := (shadows.pending lease List.mem_cons_self).2.2
  simp only [leaseRange, Range.mk.injEq] at range
  have beside : ∀ listed ∈ rest, listed ≠ lease := by
    rintro listed mem rfl
    exact apart mem
  constructor
  · have freed := first.freed
    rw [shadows.ranges, range.1, range.2, second.freed] at freed
    exact (Option.some.inj freed).symm
  · rw [first.alignment, second.alignment, shadows.alignment]
  · intro listed mem
    obtain ⟨waits, otherWaits, same⟩ :=
      shadows.pending listed (List.mem_cons_of_mem _ mem)
    refine ⟨first.pending (beside listed mem) waits,
      second.pending (beside listed mem) otherWaits, ?_⟩
    rw [first.others listed (beside listed mem), second.others listed (beside listed mem)]
    exact same

/-- Completed releases of a replay leave the ranges that the releases alone leave,
and no free lease is taken; the induction is on the frontier. -/
theorem releaseFrontier_released (frontier : List Nat) {state released : ReplayState}
    {other : MemoryPool} (owning : Owning count state.pool) (kept : HeapPool count other)
    (shadows : Shadows state.pool other frontier) (nodup : frontier.Nodup)
    (completed : releaseFrontier .heap capacities program operationIndex successor state
      frontier = (some (), released)) :
    Owning count released.pool ∧
      (∀ lease, (state.pool.leases lease).state = .free →
        (released.pool.leases lease).state = .free) ∧
      ∃ after, releaseAll true other frontier = (.ok (), after) ∧
        Shadows released.pool after [] := by
  induction frontier generalizing state other with
  | nil =>
      simp only [releaseFrontier, Prod.mk.injEq, true_and] at completed
      subst completed
      exact ⟨owning, fun _ free => free, other, rfl, shadows⟩
  | cons predecessor rest ih =>
      obtain ⟨apart, restNodup⟩ := List.nodup_cons.1 nodup
      have publishes := @publishExpected_publishes program state predecessor
      obtain ⟨owns, _, _⟩ := @publishExpected_spec count program state owning predecessor
      simp only [releaseFrontier] at completed
      generalize publishExpected program state predecessor = published
        at publishes owns completed
      obtain ⟨event, after⟩ := published
      simp only at publishes owns completed
      have shadowed : Shadows after.pool other (predecessor :: rest) := by
        refine ⟨publishes.ranges.trans shadows.ranges,
          publishes.alignment.trans shadows.alignment, ?_⟩
        intro lease mem
        obtain ⟨waits, otherWaits, same⟩ := shadows.pending lease mem
        exact ⟨publishes.pending waits, otherWaits, (publishes.range lease).trans same⟩
      obtain ⟨waits, otherWaits, _⟩ := shadowed.pending predecessor List.mem_cons_self
      obtain ⟨next, release, releases⟩ :=
        releaseLease_pending (Owning.heapPool owns) waits
      obtain ⟨otherNext, otherRelease, otherReleases⟩ :=
        releaseLease_pending kept otherWaits
      have nextOwns := @releaseLease_owning count predecessor after.pool owns
      rw [release] at nextOwns
      cases identified : leaseIdOf program (some predecessor) with
      | none => simp [identified] at completed
      | some predecessorId =>
          cases named : eventIdOf program event with
          | none => simp [identified, named] at completed
          | some dependency =>
              simp only [identified, named] at completed
              cases appended : appendDependency capacities.dependencies after
                  ⟨predecessorId, successor, dependency, operationIndex⟩ with
              | none => simp [appended] at completed
              | some written =>
                  have samePool := (appendDependency_pool appended).1
                  simp only [appended, samePool, NodeStorage.heapGives, release]
                    at completed
                  obtain ⟨last, free, done, all, same⟩ :=
                    @ih { written with
                      pool := next
                      retirementCompletedEarly := Function.update
                        written.retirementCompletedEarly predecessor true } otherNext
                      nextOwns otherReleases.kept
                      (shadowed.released apart releases otherReleases) restNodup completed
                  refine ⟨last, ?_, done, ?_, same⟩
                  · intro lease unused
                    apply free lease
                    rw [← publishes.state] at unused
                    have beside : lease ≠ predecessor := by
                      rintro rfl
                      rw [waits.retiring] at unused
                      cases unused
                    show (next.leases lease).state = .free
                    rw [releases.others lease beside]
                    exact unused
                  · rw [releaseAll, otherRelease]
                    exact all

/-- A nonempty request is charged as it is. -/
theorem reserve_charged {heap : Bool} {pool : MemoryPool} {placement : Placement}
    (positive : 0 < bytes) :
    reserve heap pool (charged bytes) (raised pool alignment) placement =
      reserve heap pool bytes alignment placement := by
  have whole : charged bytes = bytes := if_neg (Nat.pos_iff_ne_zero.1 positive)
  have level : raised pool (raised pool alignment) = raised pool alignment := by
    unfold raised
    split_ifs <;> omega
  unfold reserve
  rw [whole, level]

/-- What a replay makes of the frontier for a request: the probe's answer is
exact, without a frontier nothing changes, and after the completed releases of
one the reservation is granted. -/
structure Sought (storage : NodeStorage) (capacities : ResultCapacities)
    (program : ReplayProgram) (state : ReplayState)
    (operationIndex successor bytes alignment : Nat) : Prop where
  probed : Probed storage.heapGives state.pool bytes alignment
    (replayPlacement program bytes)
    (findReleaseFrontier storage state.pool bytes alignment program.leaseCount)
  unchanged : ∀ refusal,
    findReleaseFrontier storage state.pool bytes alignment program.leaseCount =
      .error refusal →
    reserveAfterReleaseFrontier storage capacities program state operationIndex
      successor bytes alignment = (.error refusal, state)
  granted : ∀ frontier released,
    findReleaseFrontier storage state.pool bytes alignment program.leaseCount =
      .ok frontier →
    releaseFrontier storage capacities program operationIndex successor state frontier =
      (some (), released) →
    ∃ after, reserveAfterReleaseFrontier storage capacities program state operationIndex
      successor bytes alignment = (.ok (), after)

/-- Nothing is changed where no frontier is found. -/
theorem reserveAfterReleaseFrontier_none {storage : NodeStorage} {refusal : Refusal}
    (found : findReleaseFrontier storage state.pool bytes alignment program.leaseCount =
      .error refusal) :
    reserveAfterReleaseFrontier storage capacities program state operationIndex
      successor bytes alignment = (.error refusal, state) := by
  unfold reserveAfterReleaseFrontier
  rw [found]

/-- Over the heap the reservation after a completed frontier is granted. -/
theorem reserve_after_releases {frontier : List Nat} {released : ReplayState}
    (owning : Owning count state.pool) (positive : 0 < bytes) (word : bytes < modulus)
    (free : (state.pool.leases successor).state = .free)
    (pending : ∀ lease ∈ frontier, Pending state.pool lease) (nodup : frontier.Nodup)
    (admits : Admits true state.pool frontier bytes alignment
      (replayPlacement program bytes))
    (completed : releaseFrontier .heap capacities program operationIndex successor state
      frontier = (some (), released)) :
    ∃ after, reserveReplay .heap program released successor bytes alignment =
      (.ok (), after) := by
  have shadows : Shadows state.pool state.pool frontier :=
    ⟨rfl, rfl, fun lease mem => ⟨pending lease mem, pending lease mem, rfl⟩⟩
  obtain ⟨owns, unused, after, all, same⟩ :=
    releaseFrontier_released frontier owning (Owning.heapPool owning) shadows nodup
      completed
  obtain ⟨other, done, granted, served⟩ := admits
  rw [all] at done
  cases done
  have kept : reserve true released.pool bytes alignment (replayPlacement program bytes) =
      .ok granted := by
    rw [← served]
    unfold reserve raised
    rw [same.ranges, same.alignment]
  rw [← reserve_charged positive] at kept
  obtain ⟨offset, ranges⟩ := granted
  obtain ⟨_, adopted, taken⟩ :=
    reserve_adopted owns.toConsistent word (unused successor free) kept
  refine ⟨{ released with pool := adopted }, ?_⟩
  unfold reserveReplay
  simp only [NodeStorage.heapGives, reserveLease_granted (unused successor free) kept taken]

theorem sought_heap {refused : ReplayState} (owning : Owning count state.pool)
    (positive : 0 < bytes) (word : bytes < modulus)
    (unavailable : reserveReplay .heap program state successor bytes alignment =
      (.error .unavailable, refused)) :
    Sought .heap capacities program state operationIndex successor bytes alignment := by
  obtain ⟨_, free⟩ := reserveReplay_unavailable owning word unavailable
  have denied : ∀ granted, reserve true state.pool bytes alignment
      (replayPlacement program bytes) ≠ .ok granted := by
    rintro ⟨offset, ranges⟩ served
    rw [← reserve_charged positive] at served
    obtain ⟨_, adopted, taken⟩ :=
      reserve_adopted owning.toConsistent word free served
    simp only [reserveReplay, NodeStorage.heapGives,
      reserveLease_granted free served taken] at unavailable
    cases unavailable
  have probed := findReleaseFrontier_probed .heap program.leaseCount
    (Owning.heapPool owning) positive word denied
  refine ⟨probed, fun refusal found => reserveAfterReleaseFrontier_none found, ?_⟩
  intro frontier released found completed
  obtain ⟨pending, nodup⟩ := frontierOrder_pending (Owning.heapPool owning)
  rw [found] at probed
  cases probed with
  | found shortest =>
      obtain ⟨after, granted⟩ := reserve_after_releases owning positive word free
        (fun lease mem => pending lease (List.mem_of_mem_take mem))
        (nodup.sublist (List.take_sublist _ _)) shortest.enough completed
      refine ⟨after, ?_⟩
      unfold reserveAfterReleaseFrontier
      rw [found]
      simp only [completed]
      exact granted

/-- Over the arena everything follows the heap. -/
theorem sought_arena {refused : ReplayState} (leases : program.leaseCount = count)
    (fits : count ≤ workspace) (bound : successor < count)
    (owning : Owning count state.pool) (positive : 0 < bytes) (word : bytes < modulus)
    (unavailable : reserveReplay .heap program state successor bytes alignment =
      (.error .unavailable, refused)) :
    Sought (.arena workspace) capacities program (stockedState (workspace + 1) state)
      operationIndex successor bytes alignment := by
  obtain ⟨_, free⟩ := reserveReplay_unavailable owning word unavailable
  have waits := Records.free_unregistered owning.records free
  have found := findReleaseFrontier_stock owning fits bytes alignment
  rw [← leases] at found
  have heap := @sought_heap count operationIndex successor bytes alignment capacities
    program state refused owning positive word unavailable
  constructor
  · rw [stockedState_pool, found]
    exact probed_stocked fits bound owning waits heap.probed
  · exact fun refusal none => reserveAfterReleaseFrontier_none none
  · intro frontier released answer completed
    rw [stockedState_pool, found] at answer
    have same := (@releaseFrontier_alike count workspace capacities program
      operationIndex successor fits bound frontier state owning waits).same
    rw [completed] at same
    generalize heapCompleted : releaseFrontier .heap capacities program operationIndex
      successor state frontier = result at same
    obtain ⟨outcome, heapReleased⟩ := result
    simp only [Prod.map, id, Prod.mk.injEq] at same
    obtain ⟨rfl, _⟩ := same
    obtain ⟨after, granted⟩ := heap.granted frontier heapReleased answer heapCompleted
    have alike := (@reserveAfterReleaseFrontier_alike count workspace successor
      capacities program state operationIndex leases fits bound bytes word alignment
      owning free).same
    rw [granted] at alike
    exact ⟨_, alike⟩

end Frontier

/-! ## The frontier is exact -/

/-- In every pool that a run of calls leads to, and for every request that the pool
refuses as it stands, the probe names the shortest run of releases, oldest first,
after which the request is granted, or there is none.  In every state a replay
reaches the same holds, nothing is changed where there is none, and the reservation
after the completed releases is granted. -/
theorem release_frontier_exact :
    (∀ {count : Nat} {new pool : MemoryPool}, New new → new.ranges.arena = false →
      Relation.ReflTransGen (Call count) new pool →
      ∀ (storage : NodeStorage) (bytes alignment frontierCapacity : Nat)
        (placement : Placement), 0 < bytes → bytes < modulus →
        (∀ granted, reserve true pool bytes alignment placement ≠ .ok granted) →
        Probed true pool bytes alignment placement
            (findReleaseFrontier storage pool bytes alignment frontierCapacity) ∧
          ∀ answer, canReserveAfterReleases storage pool bytes alignment
              frontierCapacity = some answer →
            if answer then ∃ length, Shortest true pool (frontierOrder pool) bytes
              alignment placement length
            else ¬ Admits true pool (frontierOrder pool) bytes alignment placement ∨
              LeavesWholeWord true pool (frontierOrder pool) placement) ∧
    ∀ {storage : NodeStorage} {capacities : ResultCapacities} {program : ReplayProgram}
      {index : Nat} {earlier : Option ReplayOperation} {state : ReplayState},
      validProgram capacities program = true → fitsWorkspace storage program = true →
      WordSized program → Reached storage capacities program index earlier state →
      ∀ {operationIndex successor bytes alignment : Nat} {refused : ReplayState},
        successor < program.leaseCount → 0 < bytes → bytes < modulus →
        reserveReplay storage program state successor bytes alignment =
          (.error .unavailable, refused) →
        refused = state ∧ Sought storage capacities program state operationIndex
          successor bytes alignment := by
  constructor
  · intro count new pool fresh unbounded run storage bytes alignment frontierCapacity
      placement positive word denied
    have kept : HeapPool count pool :=
      ⟨laidOut_of_run fresh run, (arena_of_run run).trans unbounded⟩
    have probed := findReleaseFrontier_probed storage frontierCapacity kept positive
      word denied
    exact ⟨probed, fun answer answered =>
      canReserveAfterReleases_probed denied probed answered⟩
  · intro storage capacities program index earlier state valid fits words reached
      operationIndex successor bytes alignment refused bound positive word unavailable
    have minimum : 0 < program.minimumAlignment := by
      simp only [validProgram, Bool.and_eq_true, bne_iff_ne] at valid
      omega
    cases storage with
    | heap =>
        have owning := reached.owning minimum words
        exact ⟨(reserveReplay_unavailable owning word unavailable).1,
          sought_heap owning positive word unavailable⟩
    | arena workspace =>
        have room : program.leaseCount ≤ workspace := by
          simpa [fitsWorkspace] using fits
        obtain ⟨other, heap, rfl⟩ := reached.stocked minimum words room
        have owning := heap.owning minimum words
        have alike := (@reserveReplay_alike program.leaseCount workspace successor program
          other room bound bytes word alignment owning).same
        rw [unavailable] at alike
        generalize answered : reserveReplay .heap program other successor bytes
          alignment = result at alike
        obtain ⟨outcome, after⟩ := result
        simp only [Prod.map, id, Prod.mk.injEq] at alike
        obtain ⟨rfl, rfl⟩ := alike
        obtain ⟨rfl, _⟩ := reserveReplay_unavailable owning word answered
        exact ⟨rfl, sought_arena rfl room bound owning positive word answered⟩

/-- Four bytes, with nodes from the process heap. -/
def heapBytes : MemoryPool where
  ranges := ⟨4, 0, 0, [⟨0, 4⟩], false, 1, 0⟩
  rangeLeases := []
  minimumAlignment := 1
  nextRequestSequence := 1
  nextReleaseSequence := 1
  reservedBytes := 0
  leases := fun lease => .blank (lease + 1)

theorem heapBytes_new : New heapBytes where
  started := .heap (by decide : rangeInitialize true 4 = _)
  word := by decide
  alignment := by decide
  listed := rfl
  reserved := rfl
  blank := fun lease => ⟨lease + 1, rfl⟩

/-- Two leases of two bytes retire, the second of them first. -/
def retiring : MemoryPool :=
  perform true
    (perform true
      (perform true
        (perform true heapBytes (.reserveLease 0 2 1 .bestFitLow))
        (.reserveLease 1 2 1 .bestFitLow))
      (.beginRetirement 1 (some 7) false))
    (.beginRetirement 0 (some 8) false)

theorem retiring_reached : Relation.ReflTransGen (Call 2) heapBytes retiring :=
  (((Relation.ReflTransGen.refl.tail (.performed true
    (.reserveLease 0 2 1 .bestFitLow) ⟨by decide, by decide⟩)).tail
    (.performed true (.reserveLease 1 2 1 .bestFitLow) ⟨by decide, by decide⟩)).tail
    (.performed true (.beginRetirement 1 (some 7) false) trivial)).tail
    (.performed true (.beginRetirement 0 (some 8) false) trivial)

/-- A lease of three bytes out of four is acquired and retires. -/
def retires : ReplayProgram where
  abiVersion := abiVersion
  capacityBytes := 4
  minimumAlignment := 1
  largeRequestThresholdBytes := 0
  leaseCount := 2
  dependencyCount := 1
  operations := [
    ⟨0, 0, none, 3, 1, some .acquire, false⟩,
    ⟨1, 0, some 0, 0, 0, some .beginRetirement, false⟩]

/-- After both operations two bytes do not fit. -/
theorem retires_reached : ∃ state,
    Reached .heap ⟨2, 1, 0⟩ retires 2 (retires.operations[1]?) state ∧
      (reserveReplay .heap retires state 1 2 1).1 = .error .unavailable := by
  refine ⟨_, ((Reached.start rfl).applied rfl (Prod.ext ?_ rfl)).applied rfl
    (Prod.ext ?_ rfl), ?_⟩
  · decide
  · decide
  · decide

/-- Three bytes fit once both leases are released, and the replay's reservation
behind the retiring lease is granted. -/
theorem release_frontier_retiring :
    findReleaseFrontier .heap retiring 3 1 2 = .ok [1, 0] ∧
      Probed true retiring 3 1 .bestFitLow
        (findReleaseFrontier .heap retiring 3 1 2) ∧
      ∃ state, Reached .heap ⟨2, 1, 0⟩ retires 2 (retires.operations[1]?) state ∧
        Sought .heap ⟨2, 1, 0⟩ retires state 2 1 2 1 := by
  refine ⟨by decide, ?_, ?_⟩
  · apply (release_frontier_exact.1 heapBytes_new rfl retiring_reached .heap 3 1 2
      .bestFitLow (by decide) (by decide) ?_).1
    intro granted served
    have refused : reserve true retiring 3 1 .bestFitLow = .error .unavailable := by
      decide
    rw [refused] at served
    cases served
  · obtain ⟨state, reached, refused⟩ := retires_reached
    refine ⟨state, reached, ?_⟩
    exact (release_frontier_exact.2 (by decide) (by decide) ⟨by decide, by decide⟩
      reached (by decide) (by decide) (by decide) (Prod.ext refused rfl)).2

/-- One byte of four is leased and retires. -/
def fitting : MemoryPool :=
  perform true (perform true heapBytes (.reserveLease 0 1 1 .bestFitLow))
    (.beginRetirement 0 (some 7) false)

/-- A byte that fits as the pool stands is said to take one release, and to have no
frontier where nothing retires. -/
theorem fitting_waits :
    Relation.ReflTransGen (Call 1) heapBytes fitting ∧
      findReleaseFrontier .heap fitting 1 1 1 = .ok [0] ∧
      Admits true fitting ((frontierOrder fitting).take 0) 1 1 .bestFitLow ∧
      findReleaseFrontier .heap heapBytes 1 1 1 = .error .unavailable ∧
      Admits true heapBytes (frontierOrder heapBytes) 1 1 .bestFitLow := by
  refine ⟨(Relation.ReflTransGen.refl.tail (.performed true
    (.reserveLease 0 1 1 .bestFitLow) ⟨by decide, by decide⟩)).tail
    (.performed true (.beginRetirement 0 (some 7) false) trivial), by decide, ?_,
    by decide, ?_⟩
  · exact ⟨fitting, rfl, _, rfl⟩
  · exact ⟨heapBytes, rfl, _, rfl⟩

end ShadowSpill.Runtime.ReplayFrontier
