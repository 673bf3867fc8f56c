import ShadowSpill.Runtime.ArenaRanges
import ShadowSpill.Runtime.PoolOperations

/-!
# Pools whose leases own their ranges

Every lease of a replay pool owns the range it is charged for.  The reserved
bytes are then no more than the capacity, and the free ranges are at most one
more than the leases in the list.
-/

namespace ShadowSpill.Runtime.ArenaPool

open Library.AddressRanges Library.RangeLists Library.Word64 Ranges RangeTiling PoolLeases
open PoolInvariant PoolOperations ArenaRanges

/-- A consistent pool over the heap in which each listed lease owns its range. -/
structure Owning (count : Nat) (pool : MemoryPool) : Prop
    extends Consistent count pool where
  owns : ∀ lease ∈ pool.rangeLeases, (pool.leases lease).ownsPoolRange = true
  unbounded : pool.ranges.arena = false

section Counting

variable {count lease : Nat} {pool : MemoryPool}

/-- Every listed lease has a range of its own. -/
theorem Owning.ownedRanges_eq (owning : Owning count pool) :
    ownedRanges pool.leases pool.rangeLeases =
      pool.rangeLeases.map fun lease => leaseRange (pool.leases lease) := by
  unfold ownedRanges
  rw [List.filter_eq_self.2 owning.owns]

theorem Owning.free_length (owning : Owning count pool) :
    pool.ranges.freeRanges.length ≤ pool.rangeLeases.length + 1 := by
  have tiled := owning.tiled
  rw [owning.ownedRanges_eq] at tiled
  have bounded : ∀ range ∈ pool.ranges.freeRanges.map extent,
      range.finish ≤ pool.ranges.capacity := by
    intro range mem
    obtain ⟨free, freeMem, rfl⟩ := List.mem_map.1 mem
    exact tiled.free_bound freeMem
  have counted := @Canonical.length_le _ _ _ tiled.canonical bounded tiled.clear
    fun address bound _ => (tiled.exhaustive address).1 bound
  simpa using counted

/-- The listed leases are among the first `count`. -/
theorem Owning.listed_bound (owning : Owning count pool)
    (mem : lease ∈ pool.rangeLeases) : lease < count :=
  (owning.records.valid lease).numbered ((owning.listed lease).1 mem).1

theorem Owning.listed_length (owning : Owning count pool) :
    pool.rangeLeases.length ≤ count := by
  have subset : pool.rangeLeases ⊆ List.range count := by
    intro lease mem
    exact List.mem_range.2 (owning.listed_bound mem)
  have length := (owning.nodup.subperm subset).length_le
  rwa [List.length_range] at length

/-- A lease that is not registered leaves room for its node. -/
theorem Owning.room (owning : Owning count pool) (bound : lease < count)
    (unregistered : (pool.leases lease).registered = false) :
    pool.ranges.freeRanges.length ≤ count := by
  have unlisted := owning.toRegistry.unlisted unregistered
  have nodup : (lease :: pool.rangeLeases).Nodup :=
    List.nodup_cons.2 ⟨unlisted, owning.nodup⟩
  have subset : lease :: pool.rangeLeases ⊆ List.range count := by
    intro other mem
    apply List.mem_range.2
    rcases List.mem_cons.1 mem with rfl | mem
    · exact bound
    · exact owning.listed_bound mem
  have length := (nodup.subperm subset).length_le
  rw [List.length_cons, List.length_range] at length
  exact le_trans owning.free_length length

end Counting

/-! ## Reserved bytes -/

section Charges

variable {count lease : Nat} {pool : MemoryPool}

/-- The lease whose range a reserved lease is charged for: a claim's predecessor,
or the lease itself. -/
def holder (leases : Nat → Lease) (lease : Nat) : Nat :=
  ((leases lease).causalPredecessor).getD lease

/-- The leases in a reserved state. -/
def reservedLeases (count : Nat) (leases : Nat → Lease) : Finset Nat :=
  (Finset.range count).filter fun lease =>
    (leases lease).state = .reserved ∨ (leases lease).state = .successorReserved

theorem reservedTotal_eq :
    reservedTotal count pool.leases =
      ∑ lease ∈ reservedLeases count pool.leases, (pool.leases lease).chargedBytes := by
  unfold reservedTotal reservedLeases
  rw [Finset.sum_filter]
  apply Finset.sum_congr rfl
  intro lease _
  unfold reservedCharge
  cases (pool.leases lease).state <;> simp

/-- A reserved lease is charged for the range of a listed lease, which is itself
reserved or is promised to it. -/
theorem Owning.holder_spec (owning : Owning count pool)
    (mem : lease ∈ reservedLeases count pool.leases) :
    holder pool.leases lease ∈ pool.rangeLeases ∧
      (pool.leases (holder pool.leases lease)).chargedBytes =
        (pool.leases lease).chargedBytes ∧
      ((pool.leases (holder pool.leases lease)).state = .reserved ∧
          holder pool.leases lease = lease ∨
        (pool.leases (holder pool.leases lease)).causalSuccessor = some lease) := by
  obtain ⟨_, state⟩ := Finset.mem_filter.1 mem
  unfold holder
  rcases state with reserved | claiming
  · rw [owning.records.no_predecessor (by rw [reserved]; decide)]
    refine ⟨(owning.listed lease).2 ⟨?_, by rw [reserved]; decide⟩, rfl,
      Or.inl ⟨reserved, rfl⟩⟩
    exact (owning.records.valid lease).active.2 (by rw [reserved]; decide)
  · obtain ⟨source, link⟩ :=
      Option.isSome_iff_exists.1 ((owning.records.valid lease).claimed claiming)
    have joins := owning.records.back source lease link
    rw [link]
    refine ⟨(owning.listed source).2 ⟨joins.source_registered, ?_⟩,
      joins.charged.symm, Or.inr joins.successor⟩
    rw [joins.retiring]
    decide

/-- No two reserved leases are charged for the same range. -/
theorem Owning.holder_injective (owning : Owning count pool) :
    Set.InjOn (holder pool.leases) (reservedLeases count pool.leases) := by
  intro first firstMem second secondMem same
  obtain ⟨_, _, firstKind⟩ := owning.holder_spec firstMem
  obtain ⟨_, _, secondKind⟩ := owning.holder_spec secondMem
  rw [← same] at secondKind
  have unclaimed : (pool.leases (holder pool.leases first)).state = .reserved →
      (pool.leases (holder pool.leases first)).causalSuccessor = none := by
    intro reserved
    exact owning.records.no_successor (by rw [reserved]; decide)
  rcases firstKind with ⟨reserved, here⟩ | claimed
  · rcases secondKind with ⟨_, there⟩ | other
    · exact here.symm.trans there
    · rw [unclaimed reserved] at other
      cases other
  · rcases secondKind with ⟨reserved, _⟩ | other
    · rw [unclaimed reserved] at claimed
      cases claimed
    · rw [claimed] at other
      exact Option.some.inj other

/-- The charges of the listed leases are what is allocated. -/
theorem Owning.allocated_eq (owning : Owning count pool) :
    pool.ranges.allocated =
      ∑ lease ∈ pool.rangeLeases.toFinset, (pool.leases lease).chargedBytes := by
  rw [owning.tiled.charged, owning.ownedRanges_eq, List.sum_toFinset _ owning.nodup]
  unfold total
  rw [List.map_map]
  rfl

/-- The reserved bytes and the charge of a listed lease that is neither reserved
nor promised fit in the pool together. -/
theorem Owning.reserved_le (owning : Owning count pool)
    (mem : lease ∈ pool.rangeLeases)
    (kept : (pool.leases lease).state ≠ .reserved)
    (alone : (pool.leases lease).causalSuccessor = none) :
    reservedTotal count pool.leases + (pool.leases lease).chargedBytes ≤
      pool.ranges.capacity := by
  have others : (reservedLeases count pool.leases).image (holder pool.leases) ⊆
      pool.rangeLeases.toFinset.erase lease := by
    intro held image
    obtain ⟨reserved, reservedMem, rfl⟩ := Finset.mem_image.1 image
    obtain ⟨listed, _, kind⟩ := owning.holder_spec reservedMem
    apply Finset.mem_erase.2 ⟨?_, List.mem_toFinset.2 listed⟩
    rintro rfl
    rcases kind with ⟨state, _⟩ | claimed
    · exact kept state
    · rw [alone] at claimed
      cases claimed
  have charges : reservedTotal count pool.leases =
      ∑ held ∈ (reservedLeases count pool.leases).image (holder pool.leases),
        (pool.leases held).chargedBytes := by
    rw [reservedTotal_eq, Finset.sum_image owning.holder_injective]
    apply Finset.sum_congr rfl
    intro reserved reservedMem
    exact (owning.holder_spec reservedMem).2.1.symm
  calc reservedTotal count pool.leases + (pool.leases lease).chargedBytes
      ≤ ∑ held ∈ pool.rangeLeases.toFinset.erase lease,
          (pool.leases held).chargedBytes + (pool.leases lease).chargedBytes := by
        rw [charges]
        apply Nat.add_le_add_right
        exact Finset.sum_le_sum_of_subset others
    _ = pool.ranges.allocated := by
        rw [owning.allocated_eq,
          Finset.sum_erase_add _ _ (List.mem_toFinset.2 mem)]
    _ ≤ pool.ranges.capacity := owning.tiled.allocated_le

end Charges

/-! ## The calls of a replay keep the pool -/

section Keeping

variable {count lease : Nat} {pool : MemoryPool}

/-- A call that lists the same leases, and leaves each with its range. -/
theorem Owning.same_list (owning : Owning count pool) {after : MemoryPool}
    (consistent : Consistent count after)
    (list : after.rangeLeases = pool.rangeLeases)
    (ranges : after.ranges = pool.ranges)
    (owns : ∀ other ∈ pool.rangeLeases,
      (after.leases other).ownsPoolRange = (pool.leases other).ownsPoolRange) :
    Owning count after := by
  refine ⟨consistent, ?_, ?_⟩
  · intro other mem
    rw [list] at mem
    rw [owns other mem]
    exact owning.owns other mem
  · rw [ranges]
    exact owning.unbounded

/-- A change of one record that leaves it with its range. -/
theorem update_owns {record : Lease}
    (same : record.ownsPoolRange = (pool.leases lease).ownsPoolRange)
    (other : Nat) :
    (Function.update pool.leases lease record other).ownsPoolRange =
      (pool.leases other).ownsPoolRange := by
  by_cases here : other = lease
  · rw [here, Function.update_self, same]
  · rw [Function.update_of_ne here]

theorem markReserved_owning (owning : Owning count pool) :
    Owning count (markReserved pool lease).2 := by
  have kept : (pool.leases lease).registered = true →
      (pool.leases lease).state = .inUse →
        Consistent count (markReserved pool lease).2 := by
    intro registered inUse
    have mem : lease ∈ pool.rangeLeases :=
      (owning.listed lease).2 ⟨registered, by rw [inUse]; decide⟩
    apply markReserved_consistent owning.toConsistent
    intro _ _
    apply lt_of_le_of_lt _ owning.tiled.word
    apply owning.reserved_le mem
    · rw [inUse]
      decide
    · exact owning.records.no_successor (by rw [inUse]; decide)
  unfold markReserved at kept ⊢
  simp only at kept ⊢
  split_ifs at kept ⊢ with refused
  · exact owning
  · simp only [not_or, not_not] at refused
    apply owning.same_list (kept refused.1 refused.2) rfl rfl
    intro other _
    simp only [update_leases]
    exact update_owns (by rfl) other

theorem beginRetirement_owning (owning : Owning count pool)
    (event : Option Nat) (expected : Bool) :
    Owning count (beginRetirement pool lease event expected).2 := by
  have kept := @beginRetirement_consistent count lease pool owning.toConsistent
    event expected
  unfold beginRetirement at kept ⊢
  simp only at kept ⊢
  split_ifs at kept ⊢ with refused
  · exact owning
  · apply owning.same_list kept rfl rfl
    intro other _
    simp only [update_leases]
    exact update_owns (by rfl) other

theorem publishRetirementDependency_owning (owning : Owning count pool)
    (event : Nat) :
    Owning count (publishRetirementDependency pool lease event).2 := by
  have kept := @publishRetirementDependency_consistent count lease pool
    owning.toConsistent event
  unfold publishRetirementDependency at kept ⊢
  simp only at kept ⊢
  split_ifs at kept ⊢ with refused
  · exact owning
  · apply owning.same_list kept rfl rfl
    intro other _
    simp only [update_leases]
    exact update_owns (by rfl) other

theorem reserveCausalSuccessor_owning (owning : Owning count pool)
    (bound : lease < count) (bytes alignment : Nat) :
    Owning count (reserveCausalSuccessor pool lease bytes alignment).2 := by
  have kept : Consistent count
      (reserveCausalSuccessor pool lease bytes alignment).2 := by
    apply reserveCausalSuccessor_consistent owning.toConsistent bound
    intro _ _ _ other mem candidate
    simp only [isCausalCandidate, canPublishCausalDependency,
      Bool.and_eq_true, beq_iff_eq, Option.isNone_iff_eq_none] at candidate
    obtain ⟨⟨⟨⟨_, retiring, _⟩, alone⟩, _⟩, _⟩ := candidate
    apply lt_of_le_of_lt _ owning.tiled.word
    apply owning.reserved_le mem _ alone
    rw [retiring]
    decide
  unfold reserveCausalSuccessor at kept ⊢
  split_ifs at kept ⊢ with refused
  · exact owning
  · simp only [not_or, not_not, Bool.not_eq_true] at refused
    have unlisted := owning.toRegistry.unlisted refused.1
    cases chosen : selectCausal pool.leases bytes (raised pool alignment) none
        pool.rangeLeases with
    | none => exact owning
    | some selected =>
        simp only [chosen] at kept
        apply owning.same_list kept rfl rfl
        intro other mem
        have beside := ne_of_mem_of_not_mem mem unlisted
        simp only [update_leases]
        by_cases here : other = selected
        · subst here
          simp [beside]
        · simp [here, beside]

/-- A range that passes on is owned by its new lease. -/
theorem transferRange_owning (owning : Owning count pool) {source : Nat}
    {state : LeaseState} {reservedBytes : Nat}
    (joins : Joins source lease (pool.leases source) (pool.leases lease))
    (consistent : Consistent count
      { transferRange pool source lease state with reservedBytes := reservedBytes }) :
    Owning count
      { transferRange pool source lease state with reservedBytes := reservedBytes } := by
  have unlisted : lease ∉ pool.rangeLeases := by
    intro mem
    exact ((owning.listed lease).1 mem).2 joins.claiming
  refine ⟨consistent, ?_, owning.unbounded⟩
  intro other mem
  simp only [transferRange, List.mem_map] at mem
  obtain ⟨held, heldMem, same⟩ := mem
  have beside := ne_of_mem_of_not_mem heldMem unlisted
  split_ifs at same with here
  · subst same
    simp [transferRange, joins.ne.symm, joins.claim_owns]
  · subst same
    simp [transferRange, here, beside, owning.owns held heldMem]

theorem acquireReservedLease_owning (owning : Owning count pool) :
    Owning count (acquireReservedLease pool lease).2 := by
  have kept := @acquireReservedLease_consistent count lease pool owning.toConsistent
  unfold acquireReservedLease at kept ⊢
  simp only at kept ⊢
  split_ifs at kept ⊢ with registered claims refused
  · rcases handoffCausalRange_cases owning.toConsistent (.inUse true) with
      ⟨refusal, same⟩ | ⟨source, event, reservedBytes, joins, same, reserved⟩
    · rw [same]
      exact owning
    · rw [same] at kept ⊢
      exact transferRange_owning owning joins kept
  · exact owning
  · apply owning.same_list kept rfl rfl
    intro other _
    simp only [update_leases]
    exact update_owns (by rfl) other
  · exact owning

theorem freedRanges_arena {heap : Bool} {ranges : RangeAllocator}
    (freed : freedRanges heap pool lease = some ranges) :
    ranges.arena = pool.ranges.arena := by
  unfold freedRanges at freed
  simp only at freed
  split_ifs at freed with owns
  · unfold rangeFree at freed
    split_ifs at freed with empty
    · cases freed
      rfl
    · cases acquired : acquireNode heap pool.ranges with
      | none => simp [acquired] at freed
      | some allocator =>
          obtain ⟨_, _, same, _⟩ := acquireNode_some acquired
          simp only [acquired, Option.some.injEq] at freed
          rw [← freed, same]
  · cases freed
    rfl

theorem releaseRange_owning (owning : Owning count pool)
    (consistent : Consistent count (releaseRange true pool lease).2) :
    Owning count (releaseRange true pool lease).2 := by
  unfold releaseRange at consistent ⊢
  simp only at consistent ⊢
  split_ifs at consistent ⊢ with short
  · exact owning
  · cases freed : freedRanges true pool lease with
    | none =>
        simp only [freed] at consistent
        apply owning.same_list consistent rfl rfl
        intro other _
        simp only [giveUpReserved, update_leases]
        exact update_owns (by rfl) other
    | some ranges =>
        simp only [freed] at consistent
        refine ⟨consistent, ?_, ?_⟩
        · intro other mem
          obtain ⟨beside, otherMem⟩ := (owning.nodup.mem_erase_iff).1 mem
          simp only [dropLease_leases, Function.update_of_ne beside]
          exact owning.owns other otherMem
        · exact (freedRanges_arena freed).trans owning.unbounded

theorem releaseLease_owning (owning : Owning count pool) :
    Owning count (releaseLease true pool lease).2 := by
  have kept : Consistent count (releaseLease true pool lease).2 :=
    releaseLease_consistent owning.toConsistent
      fun _ _ => Or.inr ⟨owning.unbounded, rfl⟩
  unfold releaseLease at kept ⊢
  simp only at kept ⊢
  by_cases transferred : (pool.leases lease).state = .predecessorTransferred ∧
      ¬ (pool.leases lease).registered
  · rw [if_pos transferred] at kept ⊢
    have unlisted := owning.toRegistry.unlisted (Bool.not_eq_true _ ▸ transferred.2)
    apply owning.same_list kept rfl rfl
    intro other mem
    simp [ne_of_mem_of_not_mem mem unlisted]
  · rw [if_neg transferred] at kept ⊢
    by_cases refused : ¬ (pool.leases lease).registered ∨
        (pool.leases lease).state = .free ∨ lease ∉ pool.rangeLeases
    · rw [if_pos refused]
      exact owning
    · rw [if_neg refused] at kept ⊢
      cases link : (pool.leases lease).causalSuccessor with
      | none =>
          simp only [link] at kept ⊢
          split_ifs at kept ⊢ with other
          · exact owning
          · exact releaseRange_owning owning kept
      | some successor =>
          have joins := owning.records.forward lease successor link
          rcases @handoffCausalRange_cases count successor pool owning.toConsistent
            .reserved with
            ⟨refusal, same⟩ | ⟨source, event, reservedBytes, other, same, reserved⟩
          · simp only [same]
            exact owning
          · obtain rfl : source = lease := joins.claim_unique other
            have passed := transferRange_owning owning joins
              (transferRange_consistent owning.toConsistent joins (Or.inr rfl)
                reserved)
            simp only [link, same] at kept ⊢
            apply passed.same_list kept rfl rfl
            intro held mem
            have beside : held ≠ source := by
              rintro rfl
              simp only [transferRange, List.mem_map] at mem
              obtain ⟨before, _, renamed⟩ := mem
              split_ifs at renamed with here
              · exact joins.ne renamed.symm
              · exact here renamed
            simp [beside, HandoffTarget.state]

theorem reserveLease_owning (owning : Owning count pool) (bound : lease < count)
    {bytes : Nat} (word : bytes < modulus) (alignment : Nat)
    (placement : Placement)
    (unbounded : ∀ offset ranges, reserve true pool (charged bytes)
      (raised pool alignment) placement = .ok (offset, ranges) →
        ranges.arena = false) :
    Owning count (reserveLease true pool lease bytes alignment placement).2 := by
  have kept := @reserveLease_consistent count lease pool true owning.toConsistent
    bound bytes word alignment placement
  unfold reserveLease at kept ⊢
  split_ifs at kept ⊢ with unavailable
  · exact owning
  · cases served : reserve true pool (charged bytes) (raised pool alignment)
        placement with
    | error refusal => exact owning
    | ok granted =>
        obtain ⟨offset, ranges⟩ := granted
        obtain ⟨_, after, result⟩ := reserve_adopted owning.toConsistent word
          (not_not.1 unavailable) served
        have registry : Registry count { pool with ranges := ranges } :=
          ⟨owning.alignment, owning.records, owning.nodup, owning.listed,
            owning.reserved⟩
        obtain ⟨_, same, _, listed, record, others⟩ :=
          adoptLease_some registry bound result
        simp only [served, result] at kept ⊢
        refine ⟨kept, ?_, ?_⟩
        · intro other mem
          by_cases here : other = lease
          · rw [here, record]
          · rw [others other here]
            rw [listed] at mem
            exact owning.owns other ((List.mem_cons.1 mem).resolve_left here)
        · rw [same]
          exact unbounded offset ranges served

end Keeping

/-! ## The same pool over an arena -/

section Stocked

/-- The same pool over an arena of the given size. -/
def stocked (size : Nat) (pool : MemoryPool) : MemoryPool :=
  { pool with ranges := stock size pool.ranges }

variable {count lease size : Nat} {pool : MemoryPool}

@[simp]
theorem stocked_leases : (stocked size pool).leases = pool.leases :=
  rfl

@[simp]
theorem stocked_rangeLeases :
    (stocked size pool).rangeLeases = pool.rangeLeases :=
  rfl

@[simp]
theorem stocked_reservedBytes :
    (stocked size pool).reservedBytes = pool.reservedBytes :=
  rfl

@[simp]
theorem stocked_ranges : (stocked size pool).ranges = stock size pool.ranges :=
  rfl

@[simp]
theorem stocked_raised (alignment : Nat) :
    raised (stocked size pool) alignment = raised pool alignment :=
  rfl

theorem markReserved_stocked :
    markReserved (stocked size pool) lease =
      Prod.map id (stocked size) (markReserved pool lease) := by
  unfold markReserved
  simp only [apply_ite (Prod.map id (stocked size))]
  rfl

theorem beginRetirement_stocked (event : Option Nat) (expected : Bool) :
    beginRetirement (stocked size pool) lease event expected =
      Prod.map id (stocked size) (beginRetirement pool lease event expected) := by
  unfold beginRetirement
  simp only [apply_ite (Prod.map id (stocked size))]
  rfl

theorem publishRetirementDependency_stocked (event : Nat) :
    publishRetirementDependency (stocked size pool) lease event =
      Prod.map id (stocked size) (publishRetirementDependency pool lease event) := by
  unfold publishRetirementDependency
  simp only [apply_ite (Prod.map id (stocked size))]
  rfl

theorem reserveCausalSuccessor_stocked (bytes alignment : Nat) :
    reserveCausalSuccessor (stocked size pool) lease bytes alignment =
      Prod.map id (stocked size)
        (reserveCausalSuccessor pool lease bytes alignment) := by
  unfold reserveCausalSuccessor
  simp only [stocked_leases, stocked_rangeLeases, stocked_raised]
  cases selectCausal pool.leases bytes (raised pool alignment) none
    pool.rangeLeases <;>
      rw [apply_ite (Prod.map id (stocked size))] <;> rfl

theorem handoffCausalRange_stocked (target : HandoffTarget) :
    handoffCausalRange (stocked size pool) lease target =
      Prod.map id (stocked size) (handoffCausalRange pool lease target) := by
  unfold handoffCausalRange
  simp only [stocked_leases, stocked_rangeLeases]
  cases (pool.leases lease).causalPredecessor with
  | none => rfl
  | some predecessor =>
      cases target with
      | reserved =>
          simp only [apply_ite (Prod.map id (stocked size))]
          rfl
      | inUse wanted =>
          cases event : (pool.leases predecessor).causalEvent with
          | none =>
              simp only [event, apply_ite (Prod.map id (stocked size))]
              rfl
          | some published =>
              simp only [event, apply_ite (Prod.map id (stocked size))]
              rfl

theorem acquireReservedLease_stocked :
    acquireReservedLease (stocked size pool) lease =
      Prod.map id (stocked size) (acquireReservedLease pool lease) := by
  unfold acquireReservedLease
  simp only [handoffCausalRange_stocked, apply_ite (Prod.map id (stocked size))]
  rfl

theorem adoptLease_stocked (bytes alignment offset : Nat) (owns : Bool) :
    adoptLease (stocked size pool) lease bytes alignment offset owns =
      (adoptLease pool lease bytes alignment offset owns).map (stocked size) := by
  unfold adoptLease
  rw [apply_ite (Option.map (stocked size))]
  rfl

theorem reserve_stocked (bounded : Bounded size pool.ranges)
    (room : pool.ranges.freeRanges.length < size) (bytes alignment : Nat)
    (placement : Placement) :
    Follows size (reserve false (stocked size pool) bytes alignment placement)
      (reserve true pool bytes alignment placement) := by
  unfold reserve
  split_ifs with empty
  · exact follows_error _
  · cases placement with
    | firstFit => exact allocate_stock bounded room
    | bestFitLow => exact allocateSelected_stock bounded room
    | bestFitHigh => exact allocateSelected_stock bounded room

theorem reserveLease_busy {heap : Bool} {bytes alignment : Nat}
    {placement : Placement} (busy : (pool.leases lease).state ≠ .free) :
    reserveLease heap pool lease bytes alignment placement =
      (.error .failed, pool) :=
  if_pos busy

theorem reserveLease_refused {heap : Bool} {bytes alignment : Nat}
    {placement : Placement} {refusal : Refusal}
    (free : (pool.leases lease).state = .free)
    (served : reserve heap pool (charged bytes) (raised pool alignment) placement =
      .error refusal) :
    reserveLease heap pool lease bytes alignment placement =
      (.error refusal, pool) := by
  rw [reserveLease, if_neg (not_not.2 free), served]

theorem reserveLease_granted {heap : Bool} {bytes alignment offset : Nat}
    {placement : Placement} {ranges : RangeAllocator} {after : MemoryPool}
    (free : (pool.leases lease).state = .free)
    (served : reserve heap pool (charged bytes) (raised pool alignment) placement =
      .ok (offset, ranges))
    (result : adoptLease { pool with ranges := ranges } lease bytes
      (raised pool alignment) offset true = some after) :
    reserveLease heap pool lease bytes alignment placement = (.ok (), after) := by
  simp only [reserveLease, if_neg (not_not.2 free), served, result]

/-- A new lease is placed alike over both: while it is not registered the arena
has a node left. -/
theorem reserveLease_stocked (owning : Owning count pool) (bound : lease < count)
    (large : count < size) {bytes : Nat} (word : bytes < modulus) (alignment : Nat)
    (placement : Placement) :
    reserveLease false (stocked size pool) lease bytes alignment placement =
        Prod.map id (stocked size)
          (reserveLease true pool lease bytes alignment placement) ∧
      Owning count (reserveLease true pool lease bytes alignment placement).2 := by
  by_cases free : (pool.leases lease).state = .free
  · have room : pool.ranges.freeRanges.length < size :=
      lt_of_le_of_lt
        (owning.room bound (Records.free_unregistered owning.records free)) large
    have follows := reserve_stocked ⟨owning.unbounded, le_of_lt room⟩ room
      (charged bytes) (raised pool alignment) placement
    refine ⟨?_, reserveLease_owning owning bound word alignment placement
      fun offset ranges served => (follows.bounded offset ranges served).unbounded⟩
    have same := follows.same
    cases served : reserve true pool (charged bytes) (raised pool alignment)
        placement with
    | error refusal =>
        rw [served] at same
        rw [reserveLease_refused free served]
        exact reserveLease_refused free same
    | ok granted =>
        obtain ⟨offset, ranges⟩ := granted
        obtain ⟨_, after, result⟩ :=
          reserve_adopted owning.toConsistent word free served
        have adopted := @adoptLease_stocked lease size
          { pool with ranges := ranges } bytes (raised pool alignment) offset true
        rw [result] at adopted
        rw [served] at same
        rw [reserveLease_granted free served result]
        exact reserveLease_granted free same adopted
  · rw [reserveLease_busy free]
    exact ⟨reserveLease_busy free, owning⟩

/-- A lease that gives its own range back to the free list. -/
def GivesBack (pool : MemoryPool) (lease : Nat) : Prop :=
  lease ∈ pool.rangeLeases ∧ (pool.leases lease).causalSuccessor = none

theorem freedRanges_stocked (owning : Owning count pool)
    (room : pool.ranges.freeRanges.length < size) :
    ∃ ranges, freedRanges true pool lease = some ranges ∧
      freedRanges false (stocked size pool) lease = some (stock size ranges) := by
  unfold freedRanges
  by_cases owns : (pool.leases lease).ownsPoolRange = true
  · obtain ⟨after, heap, arena, _⟩ := @rangeFree_stock size
      (pool.leases lease).offset (pool.leases lease).chargedBytes pool.ranges
      ⟨owning.unbounded, le_of_lt room⟩ room
    exact ⟨after, by simp [owns, heap], by simp [owns, arena]⟩
  · exact ⟨pool.ranges, by simp [owns], by simp [owns]⟩

theorem releaseRange_stocked (owning : Owning count pool)
    (room : pool.ranges.freeRanges.length < size) :
    releaseRange false (stocked size pool) lease =
      Prod.map id (stocked size) (releaseRange true pool lease) := by
  obtain ⟨ranges, heap, arena⟩ := @freedRanges_stocked count lease size pool
    owning room
  unfold releaseRange
  simp only [heap, arena, apply_ite (Prod.map id (stocked size))]
  rfl

/-- A release is the same over both when the arena has a node left, or none is
needed. -/
theorem releaseLease_stocked (owning : Owning count pool)
    (room : GivesBack pool lease → pool.ranges.freeRanges.length < size) :
    releaseLease false (stocked size pool) lease =
      Prod.map id (stocked size) (releaseLease true pool lease) := by
  unfold releaseLease
  cases link : (pool.leases lease).causalSuccessor with
  | some successor =>
      simp only [stocked_leases, link, handoffCausalRange_stocked,
        apply_ite (Prod.map id (stocked size))]
      rcases handoffCausalRange pool successor .reserved with
        ⟨_ | _, after⟩ <;> rfl
  | none =>
      simp only [stocked_leases, link, apply_ite (Prod.map id (stocked size))]
      by_cases listed : lease ∈ pool.rangeLeases
      · rw [releaseRange_stocked owning (room ⟨listed, link⟩)]
        rfl
      · simp only [stocked_rangeLeases, listed, not_false_eq_true, or_true, if_true]
        rfl

end Stocked

end ShadowSpill.Runtime.ArenaPool
