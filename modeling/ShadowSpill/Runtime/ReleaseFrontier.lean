import ShadowSpill.Runtime.AdmissionReplay
import ShadowSpill.Runtime.PoolLayout

/-!
# The release frontier

The probe copies the free ranges and gives the ranges of the retiring leases back
to the copy, oldest release first, until the request fits.  It asks the low
best-fit scan; whether any scan finds a range depends on the free ranges alone,
but for a pool of `UINT64_MAX` bytes that is one free range.
-/

namespace ShadowSpill.Runtime.ReleaseFrontier

open Library.Word64 Ranges RangePlaces RangeTiling RangeRequests PoolLeases PoolInvariant
open PoolOperations PoolRuns PoolLayout ArenaRanges AdmissionReplay

/-! ## What fits -/

section Fits

variable {heap : Bool} {allocator after : RangeAllocator} {live : List Range}
  {pool : MemoryPool} {bytes alignment : Nat} {placement : Placement}

/-- The pool is one free range of `UINT64_MAX` bytes. -/
def WholeWord (allocator : RangeAllocator) : Prop :=
  allocator.freeRanges = [⟨0, uint64Max⟩]

theorem fitExists_congr {other : RangeAllocator} {request : Request}
    (same : allocator.freeRanges = other.freeRanges) :
    FitExists allocator request ↔ FitExists other request := by
  unfold FitExists
  rw [same]

theorem fitExists_placement :
    FitExists allocator (placementRequest bytes alignment placement) ↔
      FitExists allocator (.bestFitLow bytes alignment) := by
  cases placement <;> exact Iff.rfl

theorem overlooked_whole
    (overlooked : Overlooked allocator (placementRequest bytes alignment placement)) :
    WholeWord allocator := by
  cases placement with
  | firstFit => exact overlooked.elim
  | bestFitLow => exact overlooked
  | bestFitHigh => exact overlooked.1

/-- `allocate_from_range` never answers that nothing fits. -/
theorem allocateFromRange_available {position start : Nat} {range : Range} :
    allocateFromRange heap allocator position range start bytes ≠
      .error .unavailable := by
  unfold allocateFromRange
  simp only
  split_ifs
  · cases acquireNode heap allocator <;> simp
  all_goals simp

/-- The low scan answers a range only where one fits that it does not overlook. -/
theorem allocateBestFitLow_ok {granted : Nat × RangeAllocator}
    (tiled : Tiled allocator live) (proper : (Request.bestFitLow bytes alignment).Proper)
    (result : allocateBestFitLow heap allocator bytes alignment = .ok granted) :
    FitExists allocator (.bestFitLow bytes alignment) ∧ ¬ WholeWord allocator := by
  have served : (Request.bestFitLow bytes alignment).serve heap allocator =
      .ok granted := result
  constructor
  · cases @serve_spec heap _ _ _ tiled proper with
    | taken get fits accepts _ =>
        exact ⟨_, List.mem_of_getElem? get, _, fits, accepts⟩
    | passed refused _ =>
        rw [served] at refused
        cases refused
  · intro whole
    have refused := (@serve_overlooked heap allocator _ proper whole).1
    rw [served] at refused
    cases refused

/-- It answers that nothing fits only where nothing does or it overlooks it. -/
theorem allocateBestFitLow_unavailable
    (tiled : Tiled allocator live) (proper : (Request.bestFitLow bytes alignment).Proper)
    (result : allocateBestFitLow heap allocator bytes alignment =
      .error .unavailable) :
    ¬ FitExists allocator (.bestFitLow bytes alignment) ∨ WholeWord allocator := by
  have served : (Request.bestFitLow bytes alignment).serve heap allocator =
      .error .unavailable := result
  cases @serve_spec heap _ _ _ tiled proper with
  | taken get fits accepts taken =>
      rw [served] at taken
      exact absurd taken.symm allocateFromRange_available
  | passed _ reason => exact reason

/-- Over the heap a reservation succeeds exactly where some range fits and its
scan does not overlook it. -/
theorem reserve_granted_iff (tiled : Tiled pool.ranges live)
    (minimum : 0 < pool.minimumAlignment) (unbounded : pool.ranges.arena = false)
    (positive : 0 < bytes) (word : bytes < modulus) :
    (∃ granted, reserve true pool bytes alignment placement = .ok granted) ↔
      FitExists pool.ranges (.bestFitLow bytes (raised pool alignment)) ∧
        ¬ Overlooked pool.ranges
          (placementRequest bytes (raised pool alignment) placement) := by
  have aligned : 0 < raised pool alignment := by
    unfold raised
    split_ifs <;> omega
  obtain ⟨proper, _⟩ := @placementRequest_proper bytes _ placement positive word aligned
  have refused := @serve_error_iff true _ _ _ tiled proper (Or.inr ⟨unbounded, rfl⟩)
  rw [reserve_eq (by omega)]
  rw [fitExists_placement] at refused
  cases served : (placementRequest bytes (raised pool alignment) placement).serve true
      pool.ranges with
  | error refusal =>
      rw [served] at refused
      have unfit := refused.1 ⟨_, rfl⟩
      simp only [reduceCtorEq, exists_false, false_iff]
      tauto
  | ok granted =>
      rw [served] at refused
      simp only [reduceCtorEq, exists_false, false_iff] at refused
      simp only [Except.ok.injEq, exists_eq', true_iff]
      tauto

end Fits

/-! ## Releases -/

/-- The leases are released in order, up to the first that cannot be. -/
def releaseAll (heap : Bool) : MemoryPool → List Nat → Outcome × MemoryPool
  | pool, [] => (.ok (), pool)
  | pool, lease :: rest =>
    match releaseLease heap pool lease with
    | (.error refusal, after) => (.error refusal, after)
    | (.ok _, after) => releaseAll heap after rest

/-- The reservation succeeds once the leases are released. -/
def Admits (heap : Bool) (pool : MemoryPool) (released : List Nat)
    (bytes alignment : Nat) (placement : Placement) : Prop :=
  ∃ after, releaseAll heap pool released = (.ok (), after) ∧
    ∃ granted, reserve heap after bytes alignment placement = .ok granted

/-- An owner that retires and has promised its range to no one. -/
structure Pending (pool : MemoryPool) (lease : Nat) : Prop where
  listed : lease ∈ pool.rangeLeases
  owns : (pool.leases lease).ownsPoolRange = true
  retiring : (pool.leases lease).state = .retirePending
  alone : (pool.leases lease).causalSuccessor = none

/-- A laid out pool over the heap. -/
structure HeapPool (count : Nat) (pool : MemoryPool) : Prop
    extends LaidOut count pool where
  unbounded : pool.ranges.arena = false

/-- What the release of one lease comes to. -/
structure Released (count : Nat) (pool : MemoryPool) (lease : Nat)
    (after : MemoryPool) : Prop where
  freed : rangeFree true pool.ranges (pool.leases lease).offset
    (pool.leases lease).chargedBytes = some after.ranges
  kept : HeapPool count after
  others : ∀ other, other ≠ lease → after.leases other = pool.leases other
  listed : after.rangeLeases = pool.rangeLeases.erase lease
  alignment : after.minimumAlignment = pool.minimumAlignment

section Releases

variable {count lease : Nat} {pool after : MemoryPool}

/-- The range of a pending lease can be freed over the heap. -/
theorem Pending.freed (kept : HeapPool count pool) (pending : Pending pool lease) :
    ∃ ranges, rangeFree true pool.ranges (pool.leases lease).offset
      (pool.leases lease).chargedBytes = some ranges ∧ ranges.arena = false := by
  have registered := ((kept.listed lease).1 pending.listed).1
  have charges := (kept.records.valid lease).charges registered
  obtain ⟨free, _, available, capacity, freed, _⟩ :=
    @rangeFree_heap 0 (pool.leases lease).offset _ _ kept.unbounded
      (Nat.pos_iff_ne_zero.1 charges)
  exact ⟨_, freed, kept.unbounded⟩

/-- Over the heap the release of a pending lease succeeds. -/
theorem releaseLease_pending (kept : HeapPool count pool)
    (pending : Pending pool lease) :
    ∃ after, releaseLease true pool lease = (.ok (), after) ∧
      Released count pool lease after := by
  obtain ⟨ranges, freed, unbounded⟩ := pending.freed kept
  have registered := ((kept.listed lease).1 pending.listed).1
  have laidOut := @releaseLease_laidOut count lease pool true kept.toLaidOut
  have released : releaseLease true pool lease =
      (.ok (), dropLease (giveUpReserved pool lease) lease ranges) := by
    unfold releaseLease releaseRange freedRanges
    simp [registered, pending.retiring, pending.alone, pending.listed, pending.owns,
      freed]
  rw [released] at laidOut
  refine ⟨_, released, freed, ⟨laidOut, unbounded⟩, ?_, rfl, rfl⟩
  intro other apart
  rw [dropLease_leases, Function.update_of_ne apart]

/-- The other pending leases are as they were. -/
theorem Released.pending {other : Nat} (released : Released count pool lease after)
    (apart : other ≠ lease) (pending : Pending pool other) : Pending after other := by
  have same := released.others other apart
  constructor
  · rw [released.listed]
    exact (List.mem_erase_of_ne apart).2 pending.listed
  · rw [same]
    exact pending.owns
  · rw [same]
    exact pending.retiring
  · rw [same]
    exact pending.alone

/-- What was owned is the released range and what is owned now. -/
theorem Released.owned (kept : HeapPool count pool) (pending : Pending pool lease)
    (released : Released count pool lease after) :
    (ownedRanges pool.leases pool.rangeLeases).Perm
      (leaseRange (pool.leases lease) ::
        ownedRanges after.leases after.rangeLeases) := by
  have first := @ownedRanges_erase pool.leases _ _ pending.listed
  have same : ∀ other ∈ pool.rangeLeases.erase lease,
      after.leases other = pool.leases other := by
    intro other mem
    exact released.others other ((kept.nodup.mem_erase_iff).1 mem).1
  rw [if_pos pending.owns] at first
  rw [released.listed, @ownedRanges_congr pool.leases after.leases]
  · exact first
  · intro other mem
    rw [same other mem]
  · intro other mem
    rw [same other mem]

/-- The range of a pending lease is not free, so the pool is no whole range. -/
theorem Pending.not_whole (kept : HeapPool count pool) (pending : Pending pool lease) :
    ¬ WholeWord pool.ranges := by
  intro whole
  have registered := ((kept.listed lease).1 pending.listed).1
  have charges := (kept.records.valid lease).charges registered
  have mem := mem_ownedRanges pending.listed pending.owns
  have bound := kept.tiled.live_bound mem
  have word := kept.tiled.word
  apply kept.tiled.clear (pool.leases lease).offset
  · rw [whole, holds_cons, contains_extent]
    left
    simp only [leaseRange] at bound
    unfold uint64Max
    simp only
    omega
  · apply holds_of_mem mem
    rw [contains_extent]
    simp only [leaseRange]
    omega

theorem admits_cons {rest : List Nat} {bytes alignment : Nat} {placement : Placement}
    (released : releaseLease true pool lease = (.ok (), after)) :
    Admits true pool (lease :: rest) bytes alignment placement ↔
      Admits true after rest bytes alignment placement := by
  unfold Admits
  rw [releaseAll, released]

theorem admits_nil {bytes alignment : Nat} {placement : Placement} :
    Admits true pool [] bytes alignment placement ↔
      ∃ granted, reserve true pool bytes alignment placement = .ok granted := by
  simp [Admits, releaseAll]

end Releases

/-! ## The probe -/

section Probe

variable {count bytes alignment : Nat} {heap : Bool} {pool : MemoryPool}
  {placement : Placement}

/-- The ranges after a release depend on the free ranges before it alone. -/
theorem rangeFree_freeRanges {other : Bool} {first second freed released : RangeAllocator}
    {offset size : Nat} (same : first.freeRanges = second.freeRanges)
    (firstFreed : rangeFree heap first offset size = some freed)
    (secondFreed : rangeFree other second offset size = some released) :
    freed.freeRanges = released.freeRanges := by
  unfold rangeFree at firstFreed secondFreed
  rw [same] at firstFreed
  split_ifs at firstFreed secondFreed
  · cases firstFreed
    cases secondFreed
    exact same
  · cases firstNode : acquireNode heap first with
    | none => simp [firstNode] at firstFreed
    | some firstAcquired =>
        cases secondNode : acquireNode other second with
        | none => simp [secondNode] at secondFreed
        | some secondAcquired =>
            simp only [firstNode] at firstFreed
            simp only [secondNode] at secondFreed
            cases firstFreed
            cases secondFreed
            rfl

/-- The first releases of an order after which a reservation succeeds, and no
fewer of them but none. -/
structure Shortest (heap : Bool) (pool : MemoryPool) (order : List Nat)
    (bytes alignment : Nat) (placement : Placement) (length : Nat) : Prop where
  positive : 0 < length
  bounded : length ≤ order.length
  enough : Admits heap pool (order.take length) bytes alignment placement
  least : ∀ fewer, 0 < fewer → fewer < length →
    ¬ Admits heap pool (order.take fewer) bytes alignment placement

/-- The releases leave one free range of `UINT64_MAX` bytes, and a scan that does
not overlook it is asked. -/
def LeavesWholeWord (heap : Bool) (pool : MemoryPool) (order : List Nat)
    (placement : Placement) : Prop :=
  placement ≠ .bestFitLow ∧
    ∃ after, releaseAll heap pool order = (.ok (), after) ∧ WholeWord after.ranges

/-- What the search for the frontier may answer. -/
inductive Verdict (pool : MemoryPool) (order : List Nat) (bytes alignment : Nat)
    (placement : Placement) (steps : Nat) : Except Refusal Nat → Prop where
  | enough {length : Nat}
      (shortest : Shortest true pool order bytes alignment placement length) :
      Verdict pool order bytes alignment placement steps (.ok (steps + length))
  | never
      (none : ∀ fewer, 0 < fewer → fewer ≤ order.length →
        ¬ Admits true pool (order.take fewer) bytes alignment placement ∨
          fewer = order.length ∧ LeavesWholeWord true pool order placement) :
      Verdict pool order bytes alignment placement steps (.error .unavailable)
  | failed : Verdict pool order bytes alignment placement steps (.error .failed)

section Verdicts

variable {order : List Nat} {lease length steps : Nat} {after : MemoryPool}
  {answer : Except Refusal Nat}

theorem admits_take (release : releaseLease true pool lease = (.ok (), after))
    (fewer : Nat) :
    Admits true pool ((lease :: order).take (fewer + 1)) bytes alignment placement ↔
      Admits true after (order.take fewer) bytes alignment placement := by
  rw [List.take_succ_cons]
  exact admits_cons release

/-- One release is enough. -/
theorem Verdict.one (release : releaseLease true pool lease = (.ok (), after))
    (admits : Admits true after [] bytes alignment placement) :
    Verdict pool (lease :: order) bytes alignment placement steps
      (.ok (steps + 1)) := by
  apply Verdict.enough
  constructor
  · exact Nat.one_pos
  · simp
  · exact (admits_take release 0).2 (by simpa using admits)
  · intro fewer some_ less
    omega

/-- One release is not enough, and the others are judged after it. -/
theorem Verdict.more (release : releaseLease true pool lease = (.ok (), after))
    (refused : ¬ Admits true after [] bytes alignment placement)
    (verdict : Verdict after order bytes alignment placement (steps + 1) answer) :
    Verdict pool (lease :: order) bytes alignment placement steps answer := by
  have take := fun fewer => @admits_take bytes alignment pool placement order lease after
    release fewer
  have early : ∀ fewer, 0 < fewer + 1 → (fewer = 0 ∨ ¬ Admits true after (order.take fewer)
      bytes alignment placement) →
        ¬ Admits true pool ((lease :: order).take (fewer + 1)) bytes alignment placement := by
    rintro fewer _ (rfl | unfit) admits
    · exact refused (by simpa using (take 0).1 admits)
    · exact unfit ((take fewer).1 admits)
  cases verdict with
  | failed => exact Verdict.failed
  | @enough length shortest =>
      rw [Nat.add_assoc, Nat.add_comm 1]
      apply Verdict.enough
      constructor
      · exact Nat.succ_pos _
      · simpa using shortest.bounded
      · exact (take length).2 shortest.enough
      · intro fewer some_ less
        obtain ⟨fewer, rfl⟩ := Nat.exists_eq_add_of_lt some_
        simp only [Nat.zero_add] at less ⊢
        apply early fewer (Nat.succ_pos _)
        rcases Nat.eq_zero_or_pos fewer with none | more
        · exact Or.inl none
        · exact Or.inr (shortest.least fewer more (by omega))
  | never none =>
      apply Verdict.never
      intro fewer some_ bounded
      obtain ⟨fewer, rfl⟩ := Nat.exists_eq_add_of_lt some_
      simp only [Nat.zero_add, List.length_cons] at bounded ⊢
      rcases Nat.eq_zero_or_pos fewer with rfl | more
      · exact Or.inl (early 0 (Nat.succ_pos _) (Or.inl rfl))
      · rcases none fewer more (by omega) with unfit | ⟨all, another, left, released,
          whole⟩
        · exact Or.inl (early fewer (Nat.succ_pos _) (Or.inr unfit))
        · right
          refine ⟨by omega, another, left, ?_, whole⟩
          rw [releaseAll, release]
          exact released

/-- The last release leaves a range that the probe overlooks. -/
theorem Verdict.emptied (release : releaseLease true pool lease = (.ok (), after))
    (whole : WholeWord after.ranges)
    (low : placement = .bestFitLow → ¬ Admits true after [] bytes alignment placement) :
    Verdict pool [lease] bytes alignment placement steps (.error .unavailable) := by
  apply Verdict.never
  intro fewer some_ bounded
  obtain rfl : fewer = 1 := by
    simp only [List.length_singleton] at bounded
    omega
  by_cases another : placement = .bestFitLow
  · left
    intro admits
    exact low another (by simpa using (admits_take release 0).1 admits)
  · right
    refine ⟨rfl, another, after, ?_, whole⟩
    rw [releaseAll, release]
    rfl

end Verdicts

/-- The copy and the pool release the ranges side by side; the induction is on the
order of releases. -/
theorem releaseUntilFit_verdict {leases : Nat → Lease} (order : List Nat)
    (steps : Nat) {future : RangeAllocator} (kept : HeapPool count pool)
    (positive : 0 < bytes) (word : bytes < modulus)
    (tiled : Tiled future (ownedRanges pool.leases pool.rangeLeases))
    (same : future.freeRanges = pool.ranges.freeRanges)
    (pending : ∀ lease ∈ order, Pending pool lease) (nodup : order.Nodup)
    (agree : ∀ lease ∈ order, leaseRange (leases lease) = leaseRange (pool.leases lease)) :
    Verdict pool order bytes alignment placement steps
      (releaseUntilFit heap leases bytes (raised pool alignment) steps future order) := by
  induction order generalizing pool future steps with
  | nil =>
      apply Verdict.never
      intro fewer some_ none
      simp only [List.length_nil] at none
      omega
  | cons lease rest ih =>
      obtain ⟨apart, restNodup⟩ := List.nodup_cons.1 nodup
      have beside : ∀ other ∈ rest, other ≠ lease := by
        rintro other mem rfl
        exact apart mem
      have here := pending lease List.mem_cons_self
      obtain ⟨after, release, released⟩ := releaseLease_pending kept here
      have range := agree lease List.mem_cons_self
      simp only [leaseRange, Range.mk.injEq] at range
      have level : raised pool alignment = raised after alignment := by
        unfold raised
        rw [released.alignment]
      have aligned : 0 < raised after alignment :=
        raised_pos released.kept.consistent.toRegistry alignment
      simp only [releaseUntilFit, range.1, range.2, level]
      cases freed : rangeFree heap future (pool.leases lease).offset
          (pool.leases lease).chargedBytes with
      | none => exact Verdict.failed
      | some copy =>
          have freeSame := rangeFree_freeRanges same freed released.freed
          have copyTiled :=
            (rangeFree_tiled (tiled.perm (released.owned kept here)) freed).1
          have granted := @reserve_granted_iff _ after bytes alignment placement
            released.kept.tiled released.kept.alignment released.kept.unbounded positive
            word
          rw [← fitExists_congr freeSame, ← admits_nil] at granted
          have later := @ih after (steps + 1) copy released.kept copyTiled freeSame
            (fun other mem => released.pending (beside other mem)
              (pending other (List.mem_cons_of_mem _ mem))) restNodup
            (fun other mem => by
              rw [released.others other (beside other mem)]
              exact agree other (List.mem_cons_of_mem _ mem))
          simp only
          cases tried : allocateBestFitLow heap copy bytes (raised after alignment) with
          | ok place =>
              obtain ⟨fits, seen⟩ :=
                allocateBestFitLow_ok copyTiled ⟨positive, word, aligned⟩ tried
              apply Verdict.one release
              apply granted.2
              refine ⟨fits, fun overlooked => seen ?_⟩
              exact freeSame.trans (overlooked_whole overlooked)
          | error refusal =>
              cases refusal with
              | failed => exact Verdict.failed
              | unavailable =>
                  rcases allocateBestFitLow_unavailable copyTiled
                    ⟨positive, word, aligned⟩ tried with unfit | whole
                  · exact Verdict.more release (fun admits => unfit (granted.1 admits).1)
                      later
                  · have emptied : WholeWord after.ranges := freeSame.symm.trans whole
                    cases rest with
                    | nil =>
                        apply Verdict.emptied release emptied
                        rintro rfl admits
                        exact (granted.1 admits).2 emptied
                    | cons next others =>
                        have waits := released.pending
                          (beside next List.mem_cons_self) (pending next (by simp))
                        exact absurd emptied (waits.not_whole released.kept)

/-- A copy has the free ranges of its source, and a node for each. -/
theorem copy_spec {ranges : List Range} {copied after : RangeAllocator}
    (result : cloneRanges.copy heap copied ranges = some after) :
    after.freeRanges = copied.freeRanges ++ ranges ∧
      after.capacity = copied.capacity ∧ after.allocated = copied.allocated ∧
      (copied.availableNodes + copied.freeRanges.length = copied.nodeCapacity →
        after.availableNodes + after.freeRanges.length = after.nodeCapacity) := by
  induction ranges generalizing copied with
  | nil =>
      cases result
      exact ⟨(List.append_nil _).symm, rfl, rfl, id⟩
  | cons range ranges ih =>
      rw [cloneRanges.copy] at result
      cases acquire : acquireNode heap copied with
      | none => simp [acquire] at result
      | some acquired =>
          obtain ⟨available, capacity, rfl, _, nodes⟩ := acquireNode_some acquire
          simp only [acquire] at result
          obtain ⟨free, size, allocated, accounted⟩ := ih result
          refine ⟨by simp [free], size, allocated, ?_⟩
          intro whole
          apply accounted
          simpa using nodes _ whole

/-- The copy is tiled by what tiles the pool. -/
theorem cloneRanges_tiled {storage : NodeStorage} {ranges future : RangeAllocator}
    {live : List Range} (tiled : Tiled ranges live)
    (result : cloneRanges heap ranges (frontierStorage storage) = some future) :
    Tiled future live ∧ future.freeRanges = ranges.freeRanges := by
  obtain ⟨free, size, allocated, accounted⟩ := copy_spec result
  have empty : (frontierStorage storage).freeRanges = [] ∧
      (frontierStorage storage).availableNodes =
        (frontierStorage storage).nodeCapacity := by
    cases storage <;> exact ⟨rfl, rfl⟩
  have same : future.freeRanges = ranges.freeRanges := by
    simpa [empty.1] using free
  refine ⟨?_, same⟩
  constructor
  · rw [size]
    exact tiled.word
  · rw [same]
    exact tiled.canonical
  · exact tiled.nonempty
  · exact tiled.disjoint
  · rw [same, size]
    exact tiled.exhaustive
  · rw [same]
    exact tiled.clear
  · rw [allocated]
    exact tiled.charged
  · rw [same, allocated, size]
    exact tiled.accounted
  · apply accounted
    simp [empty.1, empty.2]

/-- The frontier's candidates are pending owners, each once. -/
theorem frontierOrder_pending (kept : HeapPool count pool) :
    (∀ lease ∈ frontierOrder pool, Pending pool lease) ∧
      (frontierOrder pool).Nodup := by
  have perm := List.perm_insertionSort
    (fun first second => releasesBefore pool.leases first second = true)
    (frontierCandidates pool)
  constructor
  · intro lease mem
    obtain ⟨listed, candidate⟩ := List.mem_filter.1 (perm.mem_iff.1 mem)
    simp only [isFrontierCandidate, canPublishCausalDependency, Bool.and_eq_true,
      beq_iff_eq, Option.isNone_iff_eq_none] at candidate
    exact ⟨listed, candidate.1.1, candidate.1.2.1, candidate.2⟩
  · exact perm.nodup_iff.2 (kept.nodup.filter _)

/-- What the probe may answer for a request that the pool refuses as it is. -/
inductive Probed (heap : Bool) (pool : MemoryPool) (bytes alignment : Nat)
    (placement : Placement) : Except Refusal (List Nat) → Prop where
  | found {length : Nat}
      (shortest : Shortest heap pool (frontierOrder pool) bytes alignment placement
        length) :
      Probed heap pool bytes alignment placement (.ok ((frontierOrder pool).take length))
  | none
      (refused : ¬ Admits heap pool (frontierOrder pool) bytes alignment placement ∨
        LeavesWholeWord heap pool (frontierOrder pool) placement) :
      Probed heap pool bytes alignment placement (.error .unavailable)
  | failed : Probed heap pool bytes alignment placement (.error .failed)

theorem findReleaseFrontier_probed (storage : NodeStorage) (frontierCapacity : Nat)
    (kept : HeapPool count pool) (positive : 0 < bytes) (word : bytes < modulus)
    (refused : ∀ granted, reserve true pool bytes alignment placement ≠ .ok granted) :
    Probed true pool bytes alignment placement
      (findReleaseFrontier storage pool bytes alignment frontierCapacity) := by
  unfold findReleaseFrontier
  rw [if_neg (Nat.pos_iff_ne_zero.1 positive)]
  cases clone : cloneRanges storage.heapGives pool.ranges (frontierStorage storage) with
  | none => exact Probed.failed
  | some future =>
      simp only
      split_ifs with crowded
      · exact Probed.failed
      · obtain ⟨tiled, same⟩ := cloneRanges_tiled kept.tiled clone
        obtain ⟨pending, nodup⟩ := frontierOrder_pending kept
        have verdict := @releaseUntilFit_verdict count bytes alignment storage.heapGives
          pool placement pool.leases (frontierOrder pool) 0 future kept positive word
          tiled same pending nodup (fun _ _ => rfl)
        cases answer : releaseUntilFit storage.heapGives pool.leases bytes
            (raised pool alignment) 0 future (frontierOrder pool) with
        | ok steps =>
            rw [answer] at verdict
            cases verdict with
            | @enough length shortest =>
                rw [Nat.zero_add]
                exact Probed.found shortest
        | error refusal =>
            rw [answer] at verdict
            cases verdict with
            | failed => exact Probed.failed
            | never none =>
                apply Probed.none
                rcases Nat.eq_zero_or_pos (frontierOrder pool).length with empty | some_
                · left
                  rw [List.length_eq_zero_iff.1 empty, admits_nil]
                  rintro ⟨granted, served⟩
                  exact refused granted served
                · rcases none _ some_ le_rfl with unfit | ⟨_, left⟩
                  · rw [List.take_length] at unfit
                    exact Or.inl unfit
                  · exact Or.inr left

/-- `shadowspill_memory_pool_can_reserve_after_releases_locked`. -/
def canReserveAfterReleases (storage : NodeStorage) (pool : MemoryPool)
    (bytes alignment frontierCapacity : Nat) : Option Bool :=
  if bytes = 0 then none
  else if (frontierCandidates pool).length = 0 then some false
  else if (frontierCandidates pool).length > frontierCapacity then none
  else
    match findReleaseFrontier storage pool bytes alignment frontierCapacity with
    | .ok _ => some true
    | .error .unavailable => some false
    | .error .failed => none

/-- It answers what the probe finds. -/
theorem canReserveAfterReleases_probed {storage : NodeStorage} {frontierCapacity : Nat}
    {answer : Bool}
    (refused : ∀ granted, reserve true pool bytes alignment placement ≠ .ok granted)
    (probed : Probed true pool bytes alignment placement
      (findReleaseFrontier storage pool bytes alignment frontierCapacity))
    (answered : canReserveAfterReleases storage pool bytes alignment frontierCapacity =
      some answer) :
    if answer then ∃ length, Shortest true pool (frontierOrder pool) bytes alignment
      placement length
    else ¬ Admits true pool (frontierOrder pool) bytes alignment placement ∨
      LeavesWholeWord true pool (frontierOrder pool) placement := by
  unfold canReserveAfterReleases at answered
  split_ifs at answered with empty none many
  · cases answered
    left
    have order := (List.perm_insertionSort
      (fun first second => releasesBefore pool.leases first second = true)
      (frontierCandidates pool)).length_eq
    rw [none] at order
    rw [frontierOrder, List.length_eq_zero_iff.1 order, admits_nil]
    rintro ⟨granted, served⟩
    exact refused granted served
  · generalize findReleaseFrontier storage pool bytes alignment frontierCapacity = found
      at probed answered
    cases probed with
    | found shortest =>
        cases answered
        exact ⟨_, shortest⟩
    | none reason =>
        cases answered
        exact reason
    | failed => cases answered

end Probe

end ShadowSpill.Runtime.ReleaseFrontier
