import ShadowSpill.Runtime.ReleaseFrontier
import ShadowSpill.Runtime.ReplayNodes

/-!
# The workspace of the release frontier

The probe copies the free ranges into a workspace of fixed size.  It answers as the
ranges decide exactly while the workspace has a node for each range of the copy and
one more for each release.
-/

namespace ShadowSpill.Runtime.ReleaseWorkspace

open Library.Word64 Library.RangeLists Ranges RangeTiling RangeRequests PoolLeases PoolInvariant
open PoolOperations ArenaRanges AdmissionReplay ReplayNodes ReleaseFrontier

/-- A workspace of range nodes. -/
def nodeArena (nodes : Nat) : RangeAllocator :=
  ⟨0, 0, 0, [], true, nodes, nodes⟩

/-- `shadowspill_memory_pool_find_release_frontier_locked`, over a workspace of so
many range nodes. -/
def findFrontier (nodes : Nat) (pool : MemoryPool) (bytes alignment frontierCapacity : Nat) :
    Except Refusal (List Nat) :=
  if bytes = 0 then .error .failed
  else if nodes = 0 then .error .failed
  else
    match cloneRanges false pool.ranges (nodeArena nodes) with
    | none => .error .failed
    | some future =>
      if (frontierCandidates pool).length > frontierCapacity then .error .failed
      else
        match releaseUntilFit false pool.leases bytes (raised pool alignment) 0 future
            (frontierOrder pool) with
        | .error refusal => .error refusal
        | .ok count => .ok ((frontierOrder pool).take count)

/-! ## Nodes -/

section Nodes

variable {size bytes alignment : Nat} {ranges : RangeAllocator}

/-- A free list longer than the arena has no copy in it. -/
theorem copy_full (source : List Range) {copied : RangeAllocator}
    (room : copied.freeRanges.length ≤ size)
    (crowded : size < copied.freeRanges.length + source.length) :
    cloneRanges.copy false (stock size copied) source = none := by
  induction source generalizing copied with
  | nil => simp only [List.length_nil] at crowded; omega
  | cons range rest inductionHypothesis =>
      rw [List.length_cons] at crowded
      rcases room.lt_or_eq with less | full
      · have longer : (copied.freeRanges ++ [range]).length =
            copied.freeRanges.length + 1 := by
          simp
        have next := @inductionHypothesis
          { copied with freeRanges := copied.freeRanges ++ [range] }
          (by simp only [longer]; omega) (by simp only [longer]; omega)
        rw [cloneRanges.copy, acquireNode_stock less]
        simp only [stock, longer, Nat.sub_add_eq] at next ⊢
        exact next
      · rw [cloneRanges.copy, acquireNode_full full]

theorem cloneRanges_full (crowded : size < ranges.freeRanges.length) :
    cloneRanges false ranges (nodeArena size) = none :=
  @copy_full size ranges.freeRanges
    ⟨ranges.capacity, ranges.allocated, ranges.peakAllocated, [], false, 0, 0⟩
    (Nat.zero_le _) (by simpa using crowded)

theorem cloneRanges_room {live : List Range} (tiled : Tiled ranges live)
    (room : ranges.freeRanges.length ≤ size) :
    ∃ future, cloneRanges false ranges (nodeArena size) = some (stock size future) ∧
      future.freeRanges = ranges.freeRanges ∧ future.arena = false ∧
      Tiled (stock size future) live := by
  obtain ⟨future, heap, arena, bounded, _⟩ := @copy_stock size ranges.freeRanges
    ⟨ranges.capacity, ranges.allocated, ranges.peakAllocated, [], false, 0, 0⟩
    ⟨rfl, Nat.zero_le _⟩ (by simpa using room)
  have same : future.freeRanges = ranges.freeRanges := (copy_spec heap).1
  obtain ⟨_, capacity, allocated, _⟩ := copy_spec heap
  refine ⟨future, arena, same, bounded.unbounded, ?_⟩
  constructor
  case word => exact capacity ▸ tiled.word
  case canonical => exact same ▸ tiled.canonical
  case nonempty => exact tiled.nonempty
  case disjoint => exact tiled.disjoint
  case exhaustive =>
    intro address
    rw [stock_freeRanges, stock_capacity, same, capacity]
    exact tiled.exhaustive address
  case clear => exact same ▸ tiled.clear
  case charged => exact allocated ▸ tiled.charged
  case accounted =>
    rw [stock_freeRanges, stock_capacity, stock_allocated, same, capacity, allocated]
    exact tiled.accounted
  case nodes => exact Nat.sub_add_cancel bounded.length

/-- The low scan over an arena of the given size, beside the scan of the same free list
over the heap: it fails where the remainders do not fit in the arena. -/
inductive Placed (size : Nat) : Except Refusal (Nat × RangeAllocator) →
    Except Refusal (Nat × RangeAllocator) → Prop where
  | granted {arena heap : Nat × RangeAllocator} (room : heap.2.freeRanges.length ≤ size) :
      Placed size (.ok arena) (.ok heap)
  | crowded {heap : Nat × RangeAllocator} (longer : size < heap.2.freeRanges.length) :
      Placed size (.error .failed) (.ok heap)
  | unavailable : Placed size (.error .unavailable) (.error .unavailable)

theorem allocateBestFitLow_placed {heap : RangeAllocator} (unbounded : heap.arena = false)
    (same : ranges.freeRanges = heap.freeRanges) (room : ranges.freeRanges.length ≤ size) :
    Placed size (allocateBestFitLow false (stock size ranges) bytes alignment)
      (allocateBestFitLow true heap bytes alignment) := by
  obtain ⟨available, capacity, acquired⟩ := acquireNode_heap unbounded
  unfold allocateBestFitLow allocateSelected
  rw [stock_freeRanges, same]
  cases chosen : (select (lowPlace bytes alignment) smallerLower 0 .initial
      heap.freeRanges).selected with
  | none => exact .unavailable
  | some found =>
      obtain ⟨position, range⟩ := found
      have length := fun pieces => @replaceAt_length position heap.freeRanges pieces
        (select_inside chosen)
      have grown : ∀ first second,
          (replaceAt heap.freeRanges position [first, second]).length =
            heap.freeRanges.length + 1 := by
        intro first second
        have counted := length [first, second]
        rw [List.length_cons, List.length_singleton] at counted
        omega
      have kept : ∀ piece, (replaceAt heap.freeRanges position [piece]).length ≤ size := by
        intro piece
        have counted := length [piece]
        rw [List.length_singleton] at counted
        rw [same] at room
        omega
      have shrunk : (replaceAt heap.freeRanges position []).length ≤ size := by
        have counted := length []
        rw [List.length_nil] at counted
        rw [same] at room
        omega
      unfold allocateFromRange
      simp only [acquired]
      split_ifs
      · rcases room.lt_or_eq with less | full
        · rw [acquireNode_stock less]
          refine .granted ?_
          show (replaceAt _ _ [_, _]).length ≤ size
          rw [grown, ← same]
          exact less
        · rw [acquireNode_full full]
          refine .crowded ?_
          show size < (replaceAt _ _ [_, _]).length
          rw [grown, ← same]
          omega
      · exact .granted (kept _)
      · exact .granted (kept _)
      · exact .granted shrunk

end Nodes

/-! ## Room for the releases -/

/-- The pool after the first releases of an order. -/
def afterReleases (pool : MemoryPool) (order : List Nat) (length : Nat) : MemoryPool :=
  (releaseAll true pool (order.take length)).2

/-- None of the first releases makes room. -/
def StillWaits (pool : MemoryPool) (order : List Nat) (bytes alignment length : Nat) : Prop :=
  ∀ fewer, 0 < fewer → fewer ≤ length →
    ¬ Admits true pool (order.take fewer) bytes alignment .bestFitLow

/-- As long as the request waits, the next release finds a free list shorter than the
workspace, and the request, if it fits then, leaves one that is no longer. -/
structure Roomy (nodes : Nat) (pool : MemoryPool) (order : List Nat)
    (bytes alignment : Nat) : Prop where
  release : ∀ length < order.length, StillWaits pool order bytes alignment length →
    (afterReleases pool order length).ranges.freeRanges.length < nodes
  placement : ∀ length < order.length, StillWaits pool order bytes alignment length →
    ∀ granted, reserve true (afterReleases pool order (length + 1)) bytes alignment
        .bestFitLow = .ok granted →
      granted.2.freeRanges.length ≤ nodes

section Room

variable {count nodes bytes alignment lease : Nat} {pool after : MemoryPool}
  {order : List Nat}

theorem roomy_nil : Roomy nodes pool [] bytes alignment :=
  ⟨fun _ bound => absurd bound (Nat.not_lt_zero _),
    fun _ bound => absurd bound (Nat.not_lt_zero _)⟩

theorem stillWaits_zero : StillWaits pool order bytes alignment 0 :=
  fun _ positive none => absurd positive (by omega)

/-- The request still waits after one release more if it waits after the first and
then after the others. -/
theorem stillWaits_succ (release : releaseLease true pool lease = (.ok (), after))
    (length : Nat) :
    StillWaits pool (lease :: order) bytes alignment (length + 1) ↔
      ¬ Admits true after [] bytes alignment .bestFitLow ∧
        StillWaits after order bytes alignment length := by
  have take := fun fewer => @admits_take bytes alignment pool .bestFitLow order lease after
    release fewer
  constructor
  · intro waits
    constructor
    · intro admits
      exact waits 1 Nat.one_pos (by omega) ((take 0).2 (by simpa using admits))
    · intro fewer _ bounded admits
      exact waits (fewer + 1) (Nat.succ_pos _) (by omega) ((take fewer).2 admits)
  · rintro ⟨first, waits⟩ fewer positive bounded admits
    obtain ⟨fewer, rfl⟩ := Nat.exists_eq_succ_of_ne_zero positive.ne'
    have later := (take fewer).1 admits
    rcases Nat.eq_zero_or_pos fewer with rfl | more
    · exact first (by simpa using later)
    · exact waits fewer more (by omega) later

theorem afterReleases_succ (release : releaseLease true pool lease = (.ok (), after))
    (length : Nat) :
    afterReleases pool (lease :: order) (length + 1) = afterReleases after order length := by
  simp only [afterReleases, List.take_succ_cons, releaseAll, release]

/-- There is room for the releases if there is for the first of them, and, should the
request still wait, for the others. -/
theorem roomy_cons (release : releaseLease true pool lease = (.ok (), after)) :
    Roomy nodes pool (lease :: order) bytes alignment ↔
      pool.ranges.freeRanges.length < nodes ∧
        (∀ granted, reserve true after bytes alignment .bestFitLow = .ok granted →
          granted.2.freeRanges.length ≤ nodes) ∧
        (¬ Admits true after [] bytes alignment .bestFitLow →
          Roomy nodes after order bytes alignment) := by
  have later := @afterReleases_succ lease pool after order release
  have waits := @stillWaits_succ bytes alignment lease pool after order release
  constructor
  · intro roomy
    refine ⟨roomy.release 0 (by simp) stillWaits_zero, ?_, ?_⟩
    · intro granted served
      refine roomy.placement 0 (by simp) stillWaits_zero granted ?_
      rw [later]
      exact served
    · intro refused
      constructor
      · intro length bound still
        rw [← later]
        exact roomy.release (length + 1) (by simpa using bound)
          ((waits length).2 ⟨refused, still⟩)
      · intro length bound still
        rw [← later]
        exact roomy.placement (length + 1) (by simpa using bound)
          ((waits length).2 ⟨refused, still⟩)
  · rintro ⟨first, placed, others⟩
    constructor
    · rintro (_ | length) bound still
      · exact first
      · obtain ⟨refused, waiting⟩ := (waits length).1 still
        rw [later]
        exact (others refused).release length (by simpa using bound) waiting
    · rintro (_ | length) bound still granted served
      · rw [later] at served
        exact placed granted served
      · obtain ⟨refused, waiting⟩ := (waits length).1 still
        rw [later] at served
        exact (others refused).placement length (by simpa using bound) waiting granted served

/-- The search in a workspace fails where it lacks a node; the induction is on the order
of releases. -/
theorem releaseUntilFit_failed {leases : Nat → Lease} (order : List Nat) (steps : Nat)
    {future : RangeAllocator} (kept : HeapPool count pool) (positive : 0 < bytes)
    (unbounded : future.arena = false)
    (same : future.freeRanges = pool.ranges.freeRanges)
    (room : future.freeRanges.length ≤ nodes)
    (pending : ∀ lease ∈ order, Pending pool lease) (nodup : order.Nodup)
    (agree : ∀ lease ∈ order, leaseRange (leases lease) = leaseRange (pool.leases lease)) :
    releaseUntilFit false leases bytes (raised pool alignment) steps (stock nodes future)
        order = .error .failed ↔
      ¬ Roomy nodes pool order bytes alignment := by
  induction order generalizing pool future steps with
  | nil =>
      simp only [releaseUntilFit, Except.error.injEq, reduceCtorEq, false_iff, not_not]
      exact roomy_nil
  | cons lease rest inductionHypothesis =>
      obtain ⟨apart, restNodup⟩ := List.nodup_cons.1 nodup
      have beside : ∀ other ∈ rest, other ≠ lease := by
        rintro other mem rfl
        exact apart mem
      have here := pending lease List.mem_cons_self
      obtain ⟨after, release, released⟩ := releaseLease_pending kept here
      have range := agree lease List.mem_cons_self
      simp only [leaseRange, Range.mk.injEq] at range
      have charges := (kept.records.valid lease).charges ((kept.listed lease).1 here.listed).1
      have level : raised pool alignment = raised after alignment := by
        unfold raised
        rw [released.alignment]
      rw [roomy_cons release]
      simp only [releaseUntilFit, range.1, range.2, level]
      rcases room.lt_or_eq with less | full
      · obtain ⟨copy, freed, arenaFreed, copyBounded, _⟩ :=
          @rangeFree_stock nodes (pool.leases lease).offset (pool.leases lease).chargedBytes
            future ⟨unbounded, room⟩ less
        have freeSame := rangeFree_freeRanges same freed released.freed
        have placed := @allocateBestFitLow_placed nodes bytes (raised after alignment) copy
          after.ranges released.kept.unbounded freeSame copyBounded.length
        have granted : reserve true after bytes alignment .bestFitLow =
            allocateBestFitLow true after.ranges bytes (raised after alignment) := by
          simp [reserve, positive.ne']
        have later := inductionHypothesis (steps + 1) released.kept copyBounded.unbounded
          freeSame copyBounded.length
          (fun other mem => released.pending (beside other mem)
            (pending other (List.mem_cons_of_mem _ mem))) restNodup
          (fun other mem => by
            rw [released.others other (beside other mem)]
            exact agree other (List.mem_cons_of_mem _ mem))
        rw [same] at less
        rw [arenaFreed, admits_nil, granted]
        simp only
        generalize allocateBestFitLow false (stock nodes copy) bytes (raised after alignment) =
          arena at placed ⊢
        generalize allocateBestFitLow true after.ranges bytes (raised after alignment) =
          heap at placed ⊢
        cases placed with
        | granted fits => simp [less, fits]
        | crowded longer => simp [longer]
        | unavailable => simp [less, later]
      · rw [rangeFree_full full (Nat.pos_iff_ne_zero.1 charges)]
        simp only [true_iff]
        rintro ⟨first, _⟩
        rw [← same] at first
        omega

end Room

/-! ## The answer -/

/-- `shadowspill_memory_pool_can_reserve_after_releases_locked`, over workspaces of the
given sizes; one of size zero is not there. -/
def canReserve (frontierCapacity rangeCapacity : Nat) (pool : MemoryPool)
    (bytes alignment : Nat) : Option Bool :=
  if bytes = 0 then none
  else if (frontierCandidates pool).length = 0 then some false
  else if frontierCapacity = 0 ∨ rangeCapacity = 0 ∨
      (frontierCandidates pool).length > frontierCapacity then none
  else
    match findFrontier rangeCapacity pool bytes alignment frontierCapacity with
    | .ok _ => some true
    | .error .unavailable => some false
    | .error .failed => none

/-- Some of the pending releases, oldest first, make room for the request. -/
def MakesRoom (pool : MemoryPool) (bytes alignment : Nat) : Prop :=
  ∃ length, 0 < length ∧ length ≤ (frontierOrder pool).length ∧
    Admits true pool ((frontierOrder pool).take length) bytes alignment .bestFitLow

/-- Nothing is pending, or the workspaces hold the releases and the ranges. -/
def WorkspacesSuffice (frontierCapacity rangeCapacity : Nat) (pool : MemoryPool)
    (bytes alignment : Nat) : Prop :=
  frontierCandidates pool = [] ∨
    (frontierCandidates pool).length ≤ frontierCapacity ∧
      Roomy rangeCapacity pool (frontierOrder pool) bytes alignment

section Answer

variable {count frontierCapacity rangeCapacity bytes alignment : Nat} {pool : MemoryPool}

theorem Verdict.iff_makesRoom {steps : Nat} {answer : Except Refusal Nat}
    (verdict : Verdict pool (frontierOrder pool) bytes alignment .bestFitLow steps answer)
    (answered : answer ≠ .error .failed) :
    (∃ length, answer = .ok length) ↔ MakesRoom pool bytes alignment := by
  cases verdict with
  | enough shortest =>
      refine ⟨fun _ => ⟨_, shortest.positive, shortest.bounded, shortest.enough⟩,
        fun _ => ⟨_, rfl⟩⟩
  | never none =>
      constructor
      · rintro ⟨length, found⟩
        cases found
      · rintro ⟨length, positive, bounded, admits⟩
        rcases none length positive bounded with refused | ⟨_, another, _⟩
        · exact absurd admits refused
        · exact absurd rfl another
  | failed => exact absurd rfl answered

/-- With a place for each candidate, the search fails exactly where there is no room for
the releases, and finds a frontier, if it does not fail, exactly where some releases make
room. -/
theorem findFrontier_spec (kept : HeapPool count pool) (positive : 0 < bytes)
    (word : bytes < modulus) (waiting : frontierCandidates pool ≠ [])
    (listed : (frontierCandidates pool).length ≤ frontierCapacity) :
    (findFrontier rangeCapacity pool bytes alignment frontierCapacity = .error .failed ↔
        ¬ Roomy rangeCapacity pool (frontierOrder pool) bytes alignment) ∧
      (findFrontier rangeCapacity pool bytes alignment frontierCapacity ≠ .error .failed →
        ((∃ frontier, findFrontier rangeCapacity pool bytes alignment frontierCapacity =
            .ok frontier) ↔
          MakesRoom pool bytes alignment)) := by
  have some_ : 0 < (frontierOrder pool).length := by
    rw [frontierOrder_length]
    exact List.length_pos_iff.2 waiting
  have crowded : pool.ranges.freeRanges.length ≥ rangeCapacity →
      ¬ Roomy rangeCapacity pool (frontierOrder pool) bytes alignment := by
    intro longer roomy
    exact absurd (roomy.release 0 some_ stillWaits_zero) (Nat.not_lt.2 longer)
  unfold findFrontier
  rw [if_neg positive.ne']
  by_cases absent : rangeCapacity = 0
  · rw [if_pos absent]
    exact ⟨⟨fun _ => crowded (by omega), fun _ => rfl⟩, fun answered => absurd rfl answered⟩
  · rw [if_neg absent]
    by_cases room : pool.ranges.freeRanges.length ≤ rangeCapacity
    · obtain ⟨future, cloned, same, unbounded, tiled⟩ := cloneRanges_room kept.tiled room
      obtain ⟨pending, nodup⟩ := frontierOrder_pending kept
      have failed := @releaseUntilFit_failed count rangeCapacity bytes alignment pool
        pool.leases (frontierOrder pool) 0 future kept positive unbounded same
        (by rw [same]; exact room) pending nodup (fun _ _ => rfl)
      have verdict := @releaseUntilFit_verdict count bytes alignment false pool .bestFitLow
        pool.leases (frontierOrder pool) 0 (stock rangeCapacity future) kept positive word
        tiled same pending nodup (fun _ _ => rfl)
      have found := @Verdict.iff_makesRoom bytes alignment pool 0 _ verdict
      rw [cloned]
      simp only [if_neg (Nat.not_lt.2 listed)]
      generalize releaseUntilFit false pool.leases bytes (raised pool alignment) 0
        (stock rangeCapacity future) (frontierOrder pool) = answer at failed found
      cases answer with
      | ok length =>
          simp only [reduceCtorEq, false_iff] at failed
          exact ⟨⟨nofun, fun cramped => absurd cramped failed⟩,
            fun _ => ⟨fun _ => (found nofun).1 ⟨_, rfl⟩, fun _ => ⟨_, rfl⟩⟩⟩
      | error refusal =>
          refine ⟨by simpa using failed, fun answered => ?_⟩
          have refused := found (by simpa using answered)
          simp only [reduceCtorEq, exists_false, false_iff] at refused ⊢
          exact refused
    · rw [cloneRanges_full (Nat.not_le.1 room)]
      exact ⟨⟨fun _ => crowded (by omega), fun _ => rfl⟩, fun answered => absurd rfl answered⟩

/-- The question fails exactly where the workspaces do not suffice, and an answer is what
the ranges decide. -/
theorem canReserve_spec (kept : HeapPool count pool) (positive : 0 < bytes)
    (word : bytes < modulus) :
    (canReserve frontierCapacity rangeCapacity pool bytes alignment = none ↔
        ¬ WorkspacesSuffice frontierCapacity rangeCapacity pool bytes alignment) ∧
      ∀ answer, canReserve frontierCapacity rangeCapacity pool bytes alignment = some answer →
        (answer = true ↔ MakesRoom pool bytes alignment) := by
  have ordered := @frontierOrder_length pool
  unfold canReserve WorkspacesSuffice
  rw [if_neg positive.ne']
  by_cases waiting : frontierCandidates pool = []
  · have idle : ¬ MakesRoom pool bytes alignment := by
      rintro ⟨length, some_, bounded, _⟩
      rw [ordered, waiting, List.length_nil] at bounded
      omega
    simp [waiting, idle]
  · have some_ := List.length_pos_iff.2 waiting
    rw [if_neg some_.ne']
    by_cases listed : (frontierCandidates pool).length ≤ frontierCapacity
    · obtain ⟨failed, found⟩ := @findFrontier_spec count frontierCapacity rangeCapacity bytes
        alignment pool kept positive word waiting listed
      by_cases absent : rangeCapacity = 0
      · have cramped := failed.1 (by
          unfold findFrontier
          rw [if_neg positive.ne', if_pos absent])
        rw [if_pos (Or.inr (Or.inl absent))]
        simp [waiting, cramped]
      · rw [if_neg (by omega)]
        generalize findFrontier rangeCapacity pool bytes alignment frontierCapacity = answer
          at failed found
        cases answer with
        | ok frontier =>
            simp only [reduceCtorEq, false_iff, not_not] at failed
            have room := (found nofun).1 ⟨frontier, rfl⟩
            simp [waiting, listed, failed, room]
        | error refusal =>
            cases refusal with
            | unavailable =>
                have never := found (by simp)
                simp only [reduceCtorEq, exists_false, false_iff] at never
                simp only [Except.error.injEq, reduceCtorEq, false_iff, not_not] at failed
                simp [waiting, listed, failed, never]
            | failed => simp [waiting, failed.1 rfl]
    · rw [if_pos (Or.inr (Or.inr (Nat.not_le.1 listed)))]
      simp [waiting, listed]

/-- The question is answered, and as the ranges decide, exactly where the workspaces
suffice. -/
theorem canReserve_answers_iff (kept : HeapPool count pool) (positive : 0 < bytes)
    (word : bytes < modulus) :
    (∃ answer, canReserve frontierCapacity rangeCapacity pool bytes alignment = some answer ∧
        (answer = true ↔ MakesRoom pool bytes alignment)) ↔
      WorkspacesSuffice frontierCapacity rangeCapacity pool bytes alignment := by
  obtain ⟨failed, right⟩ := @canReserve_spec count frontierCapacity rangeCapacity bytes
    alignment pool kept positive word
  constructor
  · rintro ⟨answer, answered, _⟩
    by_contra short
    rw [failed.2 short] at answered
    cases answered
  · intro suffice
    cases answered : canReserve frontierCapacity rangeCapacity pool bytes alignment with
    | none => exact absurd suffice (failed.1 answered)
    | some answer => exact ⟨answer, rfl, right answer answered⟩

end Answer

/-! ## Workspaces for every record -/

section Records

variable {count nodes frontierCapacity rangeCapacity bytes alignment : Nat}
  {pool : MemoryPool}

/-- The free ranges lie between the owned ones. -/
theorem free_length (kept : HeapPool count pool) :
    pool.ranges.freeRanges.length ≤ pool.rangeLeases.length + 1 := by
  have tiled := kept.tiled
  have bounded : ∀ range ∈ pool.ranges.freeRanges.map extent,
      range.finish ≤ pool.ranges.capacity := by
    intro range mem
    obtain ⟨free, freeMem, rfl⟩ := List.mem_map.1 mem
    exact tiled.free_bound freeMem
  have counted := @Canonical.length_le _ _ _ tiled.canonical bounded tiled.clear
    fun address bound _ => (tiled.exhaustive address).1 bound
  have owners : (ownedRanges pool.leases pool.rangeLeases).length ≤ pool.rangeLeases.length := by
    unfold ownedRanges
    rw [List.length_map]
    exact List.length_filter_le _ _
  simp only [List.length_map] at counted
  omega

/-- A node for each owner and two more are room for any releases; the induction is on
their order. -/
theorem roomy_of_listed (kept : HeapPool count pool) (positive : 0 < bytes)
    (room : pool.rangeLeases.length + 2 ≤ nodes) {order : List Nat}
    (pending : ∀ lease ∈ order, Pending pool lease) (nodup : order.Nodup) :
    Roomy nodes pool order bytes alignment := by
  induction order generalizing pool with
  | nil => exact roomy_nil
  | cons lease rest inductionHypothesis =>
      obtain ⟨apart, restNodup⟩ := List.nodup_cons.1 nodup
      obtain ⟨after, release, released⟩ := releaseLease_pending kept
        (pending lease List.mem_cons_self)
      have fewer := List.length_erase_of_mem (pending lease List.mem_cons_self).listed
      have some_ := List.length_pos_of_mem (pending lease List.mem_cons_self).listed
      have free := free_length kept
      have freeAfter := free_length released.kept
      rw [← released.listed] at fewer
      refine (roomy_cons release).2 ⟨by omega, ?_, fun _ => ?_⟩
      · intro granted served
        have follows : Follows (after.ranges.freeRanges.length + 1)
            (allocateBestFitLow false (stock _ after.ranges) bytes (raised after alignment))
            (allocateBestFitLow true after.ranges bytes (raised after alignment)) :=
          allocateSelected_stock ⟨released.kept.unbounded, Nat.le_succ _⟩ (Nat.lt_succ_self _)
        have served' : allocateBestFitLow true after.ranges bytes (raised after alignment) =
            .ok granted := by
          simpa [reserve, positive.ne'] using served
        have longer := (follows.bounded _ _ served').length
        omega
      · apply inductionHypothesis released.kept (by omega) _ restNodup
        intro other mem
        have distinct : other ≠ lease := by
          rintro rfl
          exact apart mem
        exact released.pending distinct (pending other (List.mem_cons_of_mem _ mem))

/-- Workspaces for all records suffice for every request. -/
theorem suffice_of_records (kept : HeapPool count pool) (positive : 0 < bytes)
    (frontier : count ≤ frontierCapacity) (ranges : count + 2 ≤ rangeCapacity) :
    WorkspacesSuffice frontierCapacity rangeCapacity pool bytes alignment := by
  have listed : pool.rangeLeases.length ≤ count := by
    have subset : pool.rangeLeases ⊆ List.range count := by
      intro lease mem
      exact List.mem_range.2 ((kept.records.valid lease).numbered ((kept.listed lease).1 mem).1)
    have length := (kept.nodup.subperm subset).length_le
    rwa [List.length_range] at length
  have candidates : (frontierCandidates pool).length ≤ pool.rangeLeases.length :=
    List.length_filter_le _ _
  obtain ⟨pending, nodup⟩ := frontierOrder_pending kept
  exact Or.inr ⟨by omega, roomy_of_listed kept positive (by omega) pending nodup⟩

end Records

end ShadowSpill.Runtime.ReleaseWorkspace
