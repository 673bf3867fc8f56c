import ShadowSpill.Runtime.ArenaPool
import ShadowSpill.Runtime.PoolRuns

/-!
# The layout of a pool

Which lease owns which range does not depend on the reserved bytes: a call that
finds them too few is refused, and any other leaves the same records and ranges
whatever they are.  So every run of calls, on any storage of nodes and with sums
that are no words, keeps the records linked and the pool tiled.
-/

namespace ShadowSpill.Runtime.PoolLayout

open Ranges RangeTiling RangeRequests PoolLeases PoolInvariant PoolOperations ArenaPool PoolRuns

/-- Two pools with the same records, list of owners and ranges. -/
structure SameLayout (pool other : MemoryPool) : Prop where
  leases : pool.leases = other.leases
  listed : pool.rangeLeases = other.rangeLeases
  ranges : pool.ranges = other.ranges
  alignment : pool.minimumAlignment = other.minimumAlignment

/-- A pool that is consistent once its reserved bytes are counted again. -/
structure LaidOut (count : Nat) (pool : MemoryPool) : Prop where
  alignment : 0 < pool.minimumAlignment
  records : Records count pool.leases
  nodup : pool.rangeLeases.Nodup
  listed : ∀ lease, lease ∈ pool.rangeLeases ↔
    (pool.leases lease).registered = true ∧
      (pool.leases lease).state ≠ .successorReserved
  tiled : Tiled pool.ranges (ownedRanges pool.leases pool.rangeLeases)

/-- The pool with its reserved bytes counted again. -/
def recounted (count : Nat) (pool : MemoryPool) : MemoryPool :=
  { pool with reservedBytes := reservedTotal count pool.leases }

section Layout

variable {count lease : Nat} {pool other : MemoryPool} {heap : Bool}

theorem sameLayout_refl (pool : MemoryPool) : SameLayout pool pool :=
  ⟨rfl, rfl, rfl, rfl⟩

theorem sameLayout_recounted : SameLayout pool (recounted count pool) :=
  ⟨rfl, rfl, rfl, rfl⟩

theorem SameLayout.trans {last : MemoryPool} (first : SameLayout pool other)
    (second : SameLayout other last) : SameLayout pool last :=
  ⟨first.leases.trans second.leases, first.listed.trans second.listed,
    first.ranges.trans second.ranges, first.alignment.trans second.alignment⟩

theorem Consistent.laidOut (consistent : Consistent count other)
    (same : SameLayout pool other) : LaidOut count pool := by
  obtain ⟨leases, listed, ranges, alignment⟩ := same
  constructor
  · rw [alignment]
    exact consistent.alignment
  · rw [leases]
    exact consistent.records
  · rw [listed]
    exact consistent.nodup
  · intro lease
    rw [listed, leases]
    exact consistent.listed lease
  · rw [ranges, leases, listed]
    exact consistent.tiled

theorem LaidOut.consistent (laidOut : LaidOut count pool) :
    Consistent count (recounted count pool) :=
  ⟨⟨laidOut.alignment, laidOut.records, laidOut.nodup, laidOut.listed, rfl⟩,
    laidOut.tiled⟩

theorem LaidOut.same (laidOut : LaidOut count pool) (same : SameLayout other pool) :
    LaidOut count other :=
  Consistent.laidOut laidOut.consistent (same.trans sameLayout_recounted)

/-! ## Calls that do not look at the reserved bytes -/

theorem adoptLease_recounted (ranges : RangeAllocator) (bytes alignment offset : Nat)
    (owns : Bool) :
    adoptLease { recounted count pool with ranges := ranges } lease bytes alignment
        offset owns =
      (adoptLease { pool with ranges := ranges } lease bytes alignment offset owns).map
        fun adopted => { adopted with
          reservedBytes := reservedTotal count pool.leases } := by
  unfold adoptLease recounted
  split_ifs <;> rfl

theorem reserveLease_same {bytes : Nat} (laidOut : LaidOut count pool)
    (word : bytes < Library.Word64.modulus) (alignment : Nat) (placement : Placement) :
    SameLayout (reserveLease heap pool lease bytes alignment placement).2
      (reserveLease heap (recounted count pool) lease bytes alignment placement).2 := by
  by_cases free : (pool.leases lease).state = .free
  · have freed : ((recounted count pool).leases lease).state = .free := free
    cases served : reserve heap pool (charged bytes) (raised pool alignment)
        placement with
    | error refusal =>
        rw [reserveLease_refused free served,
          @reserveLease_refused lease (recounted count pool) heap bytes alignment
            placement refusal freed served]
        exact sameLayout_recounted
    | ok granted =>
        obtain ⟨offset, ranges⟩ := granted
        obtain ⟨_, after, result⟩ :=
          reserve_adopted laidOut.consistent word freed (served : reserve heap
            (recounted count pool) _ (raised (recounted count pool) alignment) _ = _)
        have adopts := @adoptLease_recounted count lease pool ranges bytes
          (raised pool alignment) offset true
        rw [show adoptLease { recounted count pool with ranges := ranges } lease bytes
          (raised pool alignment) offset true = some after from result] at adopts
        cases adopted : adoptLease { pool with ranges := ranges } lease bytes
            (raised pool alignment) offset true with
        | none =>
            rw [adopted] at adopts
            cases adopts
        | some taken =>
            rw [adopted] at adopts
            cases adopts
            rw [reserveLease_granted free served adopted,
              reserveLease_granted freed served result]
            exact ⟨rfl, rfl, rfl, rfl⟩
  · rw [reserveLease_busy free,
      @reserveLease_busy lease (recounted count pool) heap bytes alignment placement free]
    exact sameLayout_recounted

theorem adoptBorrowedLease_same (bytes alignment offset : Nat) :
    SameLayout (adoptBorrowedLease pool lease bytes alignment offset).2
      (adoptBorrowedLease (recounted count pool) lease bytes alignment offset).2 := by
  have same := @adoptLease_recounted count lease pool pool.ranges bytes alignment offset
    false
  simp only [recounted] at same
  unfold adoptBorrowedLease recounted
  rw [same]
  cases adoptLease pool lease bytes alignment offset false with
  | none => exact ⟨rfl, rfl, rfl, rfl⟩
  | some adopted => exact ⟨rfl, rfl, rfl, rfl⟩

theorem splitReusable_same (split bytes alignment : Nat) :
    SameLayout (splitReusable pool lease split bytes alignment).2
      (splitReusable (recounted count pool) lease split bytes alignment).2 := by
  have same := @adoptLease_recounted count split pool pool.ranges bytes
    (raised pool alignment) (pool.leases lease).offset true
  simp only [recounted] at same
  unfold splitReusable recounted
  simp only [raised] at same ⊢
  split_ifs at same ⊢
  all_goals first
    | exact ⟨rfl, rfl, rfl, rfl⟩
    | rw [same]
      cases adoptLease pool split bytes _ (pool.leases lease).offset true with
      | none => exact ⟨rfl, rfl, rfl, rfl⟩
      | some adopted => exact ⟨rfl, rfl, rfl, rfl⟩

theorem beginRetirement_same (event : Option Nat) (expected : Bool) :
    SameLayout (beginRetirement pool lease event expected).2
      (beginRetirement (recounted count pool) lease event expected).2 := by
  unfold beginRetirement recounted
  simp only
  split_ifs <;> exact ⟨rfl, rfl, rfl, rfl⟩

theorem publishRetirementDependency_same (event : Nat) :
    SameLayout (publishRetirementDependency pool lease event).2
      (publishRetirementDependency (recounted count pool) lease event).2 := by
  unfold publishRetirementDependency recounted
  simp only
  split_ifs <;> exact ⟨rfl, rfl, rfl, rfl⟩

theorem cancelRetirement_same :
    SameLayout (cancelRetirement pool lease).2
      (cancelRetirement (recounted count pool) lease).2 := by
  unfold cancelRetirement recounted
  simp only
  split_ifs <;> exact ⟨rfl, rfl, rfl, rfl⟩

theorem renewLease_same (generation : Nat) :
    SameLayout (renewLease pool lease generation).2
      (renewLease (recounted count pool) lease generation).2 := by
  unfold renewLease recounted
  simp only
  split_ifs <;> exact ⟨rfl, rfl, rfl, rfl⟩

theorem markReserved_same :
    SameLayout (markReserved pool lease).2
      (markReserved (recounted count pool) lease).2 := by
  unfold markReserved recounted
  simp only
  split_ifs <;> exact ⟨rfl, rfl, rfl, rfl⟩

theorem reserveCausalSuccessor_same (bytes alignment : Nat) :
    SameLayout (reserveCausalSuccessor pool lease bytes alignment).2
      (reserveCausalSuccessor (recounted count pool) lease bytes alignment).2 := by
  unfold reserveCausalSuccessor recounted
  simp only [raised]
  split_ifs
  · exact ⟨rfl, rfl, rfl, rfl⟩
  all_goals
    cases selectCausal pool.leases bytes _ none pool.rangeLeases with
    | none => exact ⟨rfl, rfl, rfl, rfl⟩
    | some selected => exact ⟨rfl, rfl, rfl, rfl⟩

theorem markReserved_laidOut (laidOut : LaidOut count pool) :
    LaidOut count (markReserved pool lease).2 := by
  have counted := @markReserved_counted count lease _ laidOut.consistent _ rfl
  have same := @markReserved_same count lease pool
  exact Consistent.laidOut counted (same.trans ⟨rfl, rfl, rfl, rfl⟩)

theorem reserveCausalSuccessor_laidOut (laidOut : LaidOut count pool)
    (bound : lease < count) (bytes alignment : Nat) :
    LaidOut count (reserveCausalSuccessor pool lease bytes alignment).2 := by
  have counted := reserveCausalSuccessor_counted laidOut.consistent bound bytes
    alignment rfl
  have same := @reserveCausalSuccessor_same count lease pool bytes alignment
  exact Consistent.laidOut counted (same.trans ⟨rfl, rfl, rfl, rfl⟩)

/-! ## Calls that may find the reserved bytes too few -/

/-- A range passes from its owner to the claim. -/
theorem transferRange_laidOut {source claim : Nat} {state : LeaseState}
    (laidOut : LaidOut count pool)
    (joins : Joins source claim (pool.leases source) (pool.leases claim))
    (listed : state = .inUse ∨ state = .reserved) :
    LaidOut count (transferRange pool source claim state) := by
  have consistent := laidOut.consistent
  have numbered := (laidOut.records.valid claim).numbered joins.claim_registered
  have least := @reservedCharge_le_total count claim pool.leases numbered
  simp only [reservedCharge, joins.claiming] at least
  have passed := @transferRange_consistent count (recounted count pool) source claim
    (reservedTotal count pool.leases +
      (if state = .reserved then (pool.leases claim).chargedBytes else 0) -
        (pool.leases claim).chargedBytes) state consistent joins listed (by
      simp only [recounted]
      omega)
  exact Consistent.laidOut passed ⟨rfl, rfl, rfl, rfl⟩

/-- A handoff changes nothing, or passes the range of the claim's own predecessor
on. -/
theorem handoffCausalRange_layout (laidOut : LaidOut count pool)
    (target : HandoffTarget) :
    (∃ refusal, handoffCausalRange pool lease target = (.error refusal, pool)) ∨
      ∃ source event reservedBytes,
        Joins source lease (pool.leases source) (pool.leases lease) ∧
        handoffCausalRange pool lease target =
          (.ok event, { transferRange pool source lease target.state with
            reservedBytes := reservedBytes }) := by
  unfold handoffCausalRange
  simp only
  cases link : (pool.leases lease).causalPredecessor with
  | none => exact Or.inl ⟨_, rfl⟩
  | some source =>
      have joins := laidOut.records.back source lease link
      cases target with
      | reserved =>
          simp only [HandoffTarget.state]
          split_ifs with refused
          · exact Or.inl ⟨_, rfl⟩
          · exact Or.inr ⟨source, none, pool.reservedBytes, joins, rfl⟩
      | inUse wanted =>
          cases event : (pool.leases source).causalEvent with
          | none =>
              left
              simp only [event]
              split_ifs <;> exact ⟨_, rfl⟩
          | some published =>
              simp only [event, HandoffTarget.state]
              split_ifs with refused given short
              · exact Or.inl ⟨_, rfl⟩
              · exact Or.inl ⟨_, rfl⟩
              · exact Or.inr ⟨source, some published, _, joins, rfl⟩
              · exact Or.inl ⟨_, rfl⟩

theorem handoffCausalRange_laidOut (laidOut : LaidOut count pool)
    (target : HandoffTarget) :
    LaidOut count (handoffCausalRange pool lease target).2 := by
  rcases handoffCausalRange_layout laidOut target with
    ⟨refusal, same⟩ | ⟨source, event, reservedBytes, joins, same⟩
  · rw [same]
    exact laidOut
  · rw [same]
    have passed := transferRange_laidOut laidOut joins
      (by cases target <;> simp [HandoffTarget.state] : target.state = .inUse ∨
        target.state = .reserved)
    exact passed.same ⟨rfl, rfl, rfl, rfl⟩

/-- A restated record keeps the layout. -/
theorem LaidOut.restate {record : Lease} {after : MemoryPool}
    (laidOut : LaidOut count pool)
    (leases : after.leases = Function.update pool.leases lease record)
    (restates : Restates (pool.leases lease) record)
    (ranges : after.ranges = pool.ranges)
    (rangeLeases : after.rangeLeases = pool.rangeLeases)
    (alignment : after.minimumAlignment = pool.minimumAlignment) :
    LaidOut count after := by
  have consistent := @Consistent.restate count lease (recounted count pool) record
    (recounted count after) laidOut.consistent leases restates ranges rangeLeases
    alignment (congrArg (reservedTotal count) leases)
  exact Consistent.laidOut consistent sameLayout_recounted

theorem acquireReservedLease_laidOut (laidOut : LaidOut count pool) :
    LaidOut count (acquireReservedLease pool lease).2 := by
  unfold acquireReservedLease
  simp only
  split_ifs with registered claims refused
  · exact handoffCausalRange_laidOut laidOut _
  · exact laidOut
  · simp only [not_or, not_not] at refused
    obtain ⟨reserved, _⟩ := refused
    refine laidOut.restate rfl ⟨rfl, rfl, rfl, rfl, rfl, rfl, Or.inr (Or.inr reserved),
      Or.inl rfl, ?_⟩ rfl rfl rfl
    rw [laidOut.records.no_successor (by rw [reserved]; decide)]
    simp
  · exact laidOut

/-- A listed lease without a successor leaves the list, once the ranges are what
the others own. -/
theorem dropLease_laidOut (laidOut : LaidOut count pool)
    (mem : lease ∈ pool.rangeLeases)
    (alone : (pool.leases lease).causalSuccessor = none) {ranges : RangeAllocator}
    (rest : Tiled ranges
      (ownedRanges pool.leases (pool.rangeLeases.erase lease))) :
    LaidOut count (dropLease (giveUpReserved pool lease) lease ranges) := by
  have dropped := @dropLease_consistent count lease (recounted count pool)
    laidOut.consistent mem alone ranges rest
  exact Consistent.laidOut dropped ⟨rfl, rfl, rfl, rfl⟩

theorem releaseRange_laidOut (laidOut : LaidOut count pool)
    (mem : lease ∈ pool.rangeLeases)
    (alone : (pool.leases lease).causalSuccessor = none) :
    LaidOut count (releaseRange heap pool lease).2 := by
  have state := Registry.listed_state laidOut.consistent.toRegistry mem
  have tiled := laidOut.tiled.perm (ownedRanges_erase mem)
  unfold releaseRange freedRanges
  simp only
  by_cases owns : (pool.leases lease).ownsPoolRange = true
  · simp only [if_pos owns, leaseRange] at tiled ⊢
    split_ifs with short
    · exact laidOut
    · cases freed : rangeFree heap pool.ranges (pool.leases lease).offset
          (pool.leases lease).chargedBytes with
      | some ranges =>
          exact dropLease_laidOut laidOut mem alone (rangeFree_tiled tiled freed).1
      | none =>
          refine laidOut.restate rfl ⟨rfl, rfl, rfl, rfl, rfl, rfl, state, state, ?_⟩
            rfl rfl rfl
          simp [alone]
  · simp only [if_neg owns] at tiled ⊢
    split_ifs with short
    · exact laidOut
    · exact dropLease_laidOut laidOut mem alone tiled

theorem LaidOut.replace {record : Lease} (laidOut : LaidOut count pool)
    (before : (pool.leases lease).registered = false)
    (after : Unlinked record) (unregistered : record.registered = false)
    (free : record.state = .free) :
    LaidOut count (pool.update lease fun _ => record) := by
  have consistent := @Consistent.replace count lease (recounted count pool) record
    laidOut.consistent before after unregistered free
  exact Consistent.laidOut consistent ⟨rfl, rfl, rfl, rfl⟩

theorem releaseLease_laidOut (laidOut : LaidOut count pool) :
    LaidOut count (releaseLease heap pool lease).2 := by
  unfold releaseLease
  simp only
  split
  · next transferred =>
      simp only [Bool.not_eq_true] at transferred
      have unlinked := Registry.unlinked laidOut.consistent.toRegistry transferred.2
      exact laidOut.replace transferred.2
        ⟨unlinked.successor, unlinked.predecessor⟩ rfl rfl
  · split
    · exact laidOut
    · next refused =>
        simp only [not_or, not_not] at refused
        obtain ⟨registered, _, mem⟩ := refused
        cases link : (pool.leases lease).causalSuccessor with
        | none =>
            simp only
            split_ifs with other
            · exact laidOut
            · exact releaseRange_laidOut laidOut mem link
        | some successor =>
            have joins := laidOut.records.forward lease successor link
            rcases @handoffCausalRange_layout count successor pool laidOut
              .reserved with
              ⟨refusal, same⟩ | ⟨source, event, reservedBytes, other, same⟩
            · simp only [same]
              exact laidOut
            · obtain rfl : source = lease := joins.claim_unique other
              have passed := transferRange_laidOut laidOut joins (Or.inr rfl)
              have apart := joins.ne
              have back : (pool.leases source).causalPredecessor = none :=
                laidOut.records.no_predecessor (by rw [joins.retiring]; decide)
              simp only [same]
              refine (passed.replace ?_ ?_ ?_ ?_).same ⟨rfl, rfl, rfl, rfl⟩
              · simp [transferRange, apart]
              · constructor
                · simp [transferRange, apart]
                · simp [transferRange, apart, back]
              · rfl
              · rfl

theorem cancelReservation_laidOut (laidOut : LaidOut count pool) :
    LaidOut count (cancelReservation heap pool lease).2 := by
  unfold cancelReservation
  simp only
  split
  · exact laidOut
  · next registered =>
      split
      · exact releaseLease_laidOut laidOut
      · cases link : (pool.leases lease).causalPredecessor with
        | none => exact laidOut
        | some source =>
            simp only
            split_ifs with refused
            · exact laidOut
            · have joins := laidOut.records.back source lease link
              have least := @reservedCharge_le_total count lease pool.leases
                ((laidOut.records.valid lease).numbered joins.claim_registered)
              simp only [reservedCharge, joins.claiming] at least
              have abandoned := @abandonClaim_consistent count lease
                (recounted count pool) source laidOut.consistent joins least
              exact Consistent.laidOut abandoned ⟨rfl, rfl, rfl, rfl⟩

end Layout

/-! ## What no call changes -/

/-- The nodes come from where they came from, and the pool is as large as it was. -/
structure SameSite (before after : RangeAllocator) : Prop where
  arena : after.arena = before.arena
  capacity : after.capacity = before.capacity

theorem SameSite.refl (allocator : RangeAllocator) : SameSite allocator allocator :=
  ⟨rfl, rfl⟩

theorem SameSite.trans {before middle after : RangeAllocator}
    (first : SameSite before middle) (second : SameSite middle after) :
    SameSite before after :=
  ⟨second.arena.trans first.arena, second.capacity.trans first.capacity⟩

theorem SameSite.of_eq {before after : RangeAllocator} (same : after = before) :
    SameSite before after :=
  same ▸ .refl before

section Nodes

variable {lease : Nat} {pool : MemoryPool} {heap : Bool}
  {allocator after : RangeAllocator}

theorem acquireNode_site (result : acquireNode heap allocator = some after) :
    SameSite allocator after := by
  obtain ⟨_, _, rfl, _⟩ := acquireNode_some result
  exact ⟨rfl, rfl⟩

theorem allocateFromRange_site {position start bytes offset : Nat} {range : Range}
    (result : allocateFromRange heap allocator position range start bytes =
      .ok (offset, after)) :
    SameSite allocator after := by
  unfold allocateFromRange at result
  simp only at result
  split_ifs at result
  · cases node : acquireNode heap allocator with
    | none => simp [node] at result
    | some acquired =>
        simp only [node] at result
        have same := acquireNode_site node
        cases result
        exact ⟨same.arena, same.capacity⟩
  all_goals
    cases result
    exact ⟨rfl, rfl⟩

theorem allocateSelected_site {bytes offset : Nat} {selection : Selection}
    (result : allocateSelected heap allocator bytes selection = .ok (offset, after)) :
    SameSite allocator after := by
  unfold allocateSelected at result
  split at result
  · cases result
  · exact allocateFromRange_site result

theorem reserve_site {bytes alignment offset : Nat} {placement : Placement}
    (result : reserve heap pool bytes alignment placement = .ok (offset, after)) :
    SameSite pool.ranges after := by
  unfold reserve at result
  split_ifs at result
  cases placement with
  | firstFit =>
      simp only [allocate] at result
      split at result
      · cases result
      · exact allocateFromRange_site result
  | bestFitLow => exact allocateSelected_site result
  | bestFitHigh => exact allocateSelected_site result

theorem rangeFree_site {offset bytes : Nat}
    (result : rangeFree heap allocator offset bytes = some after) :
    SameSite allocator after := by
  unfold rangeFree at result
  split_ifs at result
  · cases result
    exact ⟨rfl, rfl⟩
  · cases node : acquireNode heap allocator with
    | none => simp [node] at result
    | some acquired =>
        simp only [node] at result
        have same := acquireNode_site node
        cases result
        exact ⟨same.arena, same.capacity⟩

theorem adoptLease_ranges {bytes alignment offset : Nat} {owns : Bool}
    {adopted : MemoryPool}
    (result : adoptLease pool lease bytes alignment offset owns = some adopted) :
    adopted.ranges = pool.ranges := by
  unfold adoptLease at result
  split_ifs at result
  cases result
  rfl

theorem reserveLease_site (bytes alignment : Nat) (placement : Placement) :
    SameSite pool.ranges
      (reserveLease heap pool lease bytes alignment placement).2.ranges := by
  unfold reserveLease
  split_ifs
  · exact ⟨rfl, rfl⟩
  · cases served : reserve heap pool (charged bytes) (raised pool alignment)
        placement with
    | error refusal => exact ⟨rfl, rfl⟩
    | ok granted =>
        obtain ⟨offset, ranges⟩ := granted
        have same := reserve_site served
        simp only
        cases adopted : adoptLease { pool with ranges := ranges } lease bytes
            (raised pool alignment) offset true with
        | some taken =>
            simp only [adoptLease_ranges adopted]
            exact same
        | none =>
            cases freed : rangeFree heap ranges offset (charged bytes) with
            | none => exact same
            | some released => exact same.trans (rangeFree_site freed)

theorem handoffCausalRange_ranges (target : HandoffTarget) :
    (handoffCausalRange pool lease target).2.ranges = pool.ranges := by
  unfold handoffCausalRange
  simp only
  cases (pool.leases lease).causalPredecessor with
  | none => rfl
  | some source =>
      cases target with
      | reserved =>
          simp only
          split_ifs <;> rfl
      | inUse wanted =>
          cases event : (pool.leases source).causalEvent with
          | none =>
              simp only [event]
              split_ifs <;> rfl
          | some published =>
              simp only [event]
              split_ifs <;> rfl

theorem releaseRange_site :
    SameSite pool.ranges (releaseRange heap pool lease).2.ranges := by
  unfold releaseRange
  cases freed : freedRanges heap pool lease with
  | none =>
      simp only
      split_ifs <;> exact ⟨rfl, rfl⟩
  | some ranges =>
      have same : SameSite pool.ranges ranges := by
        unfold freedRanges at freed
        simp only at freed
        split_ifs at freed
        · exact rangeFree_site freed
        · cases freed
          exact ⟨rfl, rfl⟩
      simp only
      split_ifs
      · exact ⟨rfl, rfl⟩
      · exact same

theorem releaseLease_site :
    SameSite pool.ranges (releaseLease heap pool lease).2.ranges := by
  unfold releaseLease
  simp only
  cases (pool.leases lease).causalSuccessor with
  | some successor =>
      have passed := @handoffCausalRange_ranges successor pool .reserved
      simp only
      generalize handoffCausalRange pool successor .reserved = result at passed
      obtain ⟨_ | _, transferred⟩ := result
      · split_ifs
        · exact ⟨rfl, rfl⟩
        · exact ⟨rfl, rfl⟩
        · exact .of_eq passed
      · split_ifs
        · exact ⟨rfl, rfl⟩
        · exact ⟨rfl, rfl⟩
        · exact .of_eq passed
  | none =>
      simp only
      split_ifs
      · exact ⟨rfl, rfl⟩
      · exact ⟨rfl, rfl⟩
      · exact ⟨rfl, rfl⟩
      · exact releaseRange_site

theorem perform_site (operation : Operation) :
    SameSite pool.ranges (perform heap pool operation).ranges := by
  cases operation with
  | reserveLease lease bytes alignment placement => exact reserveLease_site _ _ _
  | adoptBorrowedLease lease bytes alignment offset =>
      simp only [perform, adoptBorrowedLease]
      cases adopted : adoptLease pool lease bytes alignment offset false with
      | none => exact ⟨rfl, rfl⟩
      | some taken => exact .of_eq (adoptLease_ranges adopted)
  | splitReusable selected split bytes alignment =>
      simp only [perform, splitReusable]
      split_ifs
      · exact ⟨rfl, rfl⟩
      · cases adopted : adoptLease pool split bytes (raised pool alignment)
            (pool.leases selected).offset true with
        | none => exact ⟨rfl, rfl⟩
        | some taken =>
            simpa only [update_ranges] using SameSite.of_eq (adoptLease_ranges adopted)
  | markReserved lease =>
      simp only [perform, markReserved]
      split_ifs <;> exact ⟨rfl, rfl⟩
  | beginRetirement lease event expected =>
      simp only [perform, beginRetirement]
      split_ifs <;> exact ⟨rfl, rfl⟩
  | publishRetirementDependency lease event =>
      simp only [perform, publishRetirementDependency]
      split_ifs <;> exact ⟨rfl, rfl⟩
  | cancelRetirement lease =>
      simp only [perform, cancelRetirement]
      split_ifs <;> exact ⟨rfl, rfl⟩
  | reserveCausalSuccessor lease bytes alignment =>
      simp only [perform, reserveCausalSuccessor]
      split_ifs
      · exact ⟨rfl, rfl⟩
      · cases selectCausal pool.leases bytes (raised pool alignment) none
          pool.rangeLeases <;> exact ⟨rfl, rfl⟩
  | handoffCausalRange lease target =>
      exact .of_eq (handoffCausalRange_ranges target)
  | acquireReservedLease lease =>
      simp only [perform, acquireReservedLease]
      split_ifs
      · exact .of_eq (handoffCausalRange_ranges _)
      · exact ⟨rfl, rfl⟩
      · exact ⟨rfl, rfl⟩
      · exact ⟨rfl, rfl⟩
  | cancelReservation lease =>
      simp only [perform, cancelReservation]
      split
      · exact ⟨rfl, rfl⟩
      · split
        · exact releaseLease_site
        · cases (pool.leases lease).causalPredecessor with
          | none => exact ⟨rfl, rfl⟩
          | some source =>
              simp only
              split_ifs <;> exact ⟨rfl, rfl⟩
  | releaseLease lease => exact releaseLease_site
  | renewLease lease generation =>
      simp only [perform, renewLease]
      split_ifs <;> exact ⟨rfl, rfl⟩

end Nodes

/-! ## Registered leases -/

section Registered

variable {count lease other : Nat} {pool : MemoryPool} {heap : Bool}

/-- A range that passes on registers no lease. -/
theorem handoffCausalRange_registered (laidOut : LaidOut count pool)
    (target : HandoffTarget) (unregistered : (pool.leases other).registered = false) :
    ((handoffCausalRange pool lease target).2.leases other).registered = false := by
  rcases handoffCausalRange_layout laidOut target with
    ⟨refusal, same⟩ | ⟨source, event, reservedBytes, joins, same⟩
  · rw [same]
    exact unregistered
  · rw [same]
    simp only [transferRange, update_leases, Function.update_apply]
    split_ifs with isClaim isSource isSource
    · rfl
    · rw [isClaim, joins.claim_registered] at unregistered
      cases unregistered
    · rfl
    · exact unregistered

/-- A release registers no lease. -/
theorem releaseLease_registered (laidOut : LaidOut count pool)
    (unregistered : (pool.leases other).registered = false) :
    ((releaseLease heap pool lease).2.leases other).registered =
      false := by
  have cleared : ∀ leases : Nat → Lease, (leases other).registered = false →
      (Function.update leases lease (leases lease).clear other).registered =
        false := by
    intro leases before
    by_cases here : other = lease
    · rw [here, Function.update_self]
      rfl
    · rw [Function.update_of_ne here]
      exact before
  unfold releaseLease
  simp only
  split
  · exact cleared _ unregistered
  · split
    · exact unregistered
    · cases (pool.leases lease).causalSuccessor with
      | some successor =>
          have passed := @handoffCausalRange_registered count successor other pool laidOut
            .reserved unregistered
          simp only
          generalize handoffCausalRange pool successor .reserved = result at passed ⊢
          obtain ⟨_ | _, after⟩ := result
          · exact passed
          · exact cleared _ passed
      | none =>
          have sequenced : ((giveUpReserved pool lease).leases other).registered =
              false := by
            by_cases here : other = lease
            · subst here
              simpa [giveUpReserved] using unregistered
            · simpa [giveUpReserved, here] using unregistered
          simp only [releaseRange]
          split_ifs with bound short
          · exact unregistered
          · exact unregistered
          · cases freedRanges heap pool lease with
            | none => exact sequenced
            | some ranges => exact cleared _ sequenced

/-- The record that a call takes for a new lease. -/
def newLease : Operation → Option Nat
  | .reserveLease lease _ _ _ => some lease
  | .adoptBorrowedLease lease _ _ _ => some lease
  | .splitReusable _ split _ _ => some split
  | .reserveCausalSuccessor lease _ _ => some lease
  | _ => none

/-- An adopted lease is the only new one. -/
theorem adoptLease_registered {bytes alignment offset : Nat} {owns : Bool}
    {adopted : MemoryPool} (result : adoptLease pool lease bytes alignment offset owns =
      some adopted) (apart : other ≠ lease) : adopted.leases other = pool.leases other := by
  unfold adoptLease at result
  split_ifs at result
  cases result
  simp [apart]

/-- An update that registers nothing. -/
theorem update_registered {leases : Nat → Lease} {record : Lease}
    (unregistered : (leases other).registered = false)
    (keeps : (leases lease).registered = false → record.registered = false) :
    (Function.update leases lease record other).registered = false := by
  rw [Function.update_apply]
  split_ifs with here
  · subst here
    exact keeps unregistered
  · exact unregistered

/-- A call registers no lease but the one that it takes a record for. -/
theorem perform_registered (laidOut : LaidOut count pool) (operation : Operation)
    (unregistered : (pool.leases other).registered = false)
    (apart : newLease operation ≠ some other) :
    ((perform heap pool operation).leases other).registered = false := by
  cases operation with
  | reserveLease lease bytes alignment placement =>
      have distinct : other ≠ lease := fun same => apart (congrArg some same.symm)
      simp only [perform, reserveLease]
      split_ifs
      · exact unregistered
      · split
        · exact unregistered
        · split
          · next adopted =>
              rw [adoptLease_registered adopted distinct]
              exact unregistered
          · split <;> exact unregistered
  | adoptBorrowedLease lease bytes alignment offset =>
      have distinct : other ≠ lease := fun same => apart (congrArg some same.symm)
      simp only [perform, adoptBorrowedLease]
      split
      · next adopted =>
          rw [adoptLease_registered adopted distinct]
          exact unregistered
      · exact unregistered
  | splitReusable selected split bytes alignment =>
      have distinct : other ≠ split := fun same => apart (congrArg some same.symm)
      simp only [perform, splitReusable]
      split_ifs
      · exact unregistered
      · split
        · exact unregistered
        · next taken adopted =>
            have before := adoptLease_registered adopted distinct
            rw [← before] at unregistered
            simp only [update_leases]
            exact update_registered unregistered id
  | markReserved lease =>
      simp only [perform, markReserved]
      split_ifs with refused
      · exact unregistered
      · simp only [update_leases]
        exact update_registered unregistered id
  | beginRetirement lease event expected =>
      simp only [perform, beginRetirement]
      split_ifs with refused
      · exact unregistered
      · simp only [update_leases]
        exact update_registered unregistered id
  | publishRetirementDependency lease event =>
      simp only [perform, publishRetirementDependency]
      split_ifs with refused
      · exact unregistered
      · simp only [update_leases]
        exact update_registered unregistered id
  | cancelRetirement lease =>
      simp only [perform, cancelRetirement]
      split_ifs with refused
      · exact unregistered
      · simp only [update_leases]
        exact update_registered unregistered id
  | reserveCausalSuccessor lease bytes alignment =>
      have distinct : other ≠ lease := fun same => apart (congrArg some same.symm)
      simp only [perform, reserveCausalSuccessor]
      split_ifs
      · exact unregistered
      · split
        · exact unregistered
        · simp only [update_leases]
          refine update_registered ?_ id
          rw [Function.update_of_ne distinct]
          exact unregistered
  | handoffCausalRange lease target => exact handoffCausalRange_registered laidOut _ unregistered
  | acquireReservedLease lease =>
      simp only [perform, acquireReservedLease]
      split_ifs
      · exact handoffCausalRange_registered laidOut _ unregistered
      · exact unregistered
      · simp only [update_leases]
        exact update_registered unregistered id
      · exact unregistered
  | cancelReservation lease =>
      simp only [perform, cancelReservation]
      split_ifs
      · exact releaseLease_registered laidOut unregistered
      · split
        · exact unregistered
        · split_ifs
          · exact unregistered
          · simp only [abandonClaim, update_leases]
            exact update_registered (update_registered unregistered id) fun _ => rfl
      · exact unregistered
  | releaseLease lease => exact releaseLease_registered laidOut unregistered
  | renewLease lease generation =>
      simp only [perform, renewLease]
      split_ifs
      · exact unregistered
      · simp only [update_leases]
        exact update_registered unregistered fun _ => rfl

end Registered

/-! ## Runs -/

/-- Any call with its arguments in range, on a heap that gives a node or does
not. -/
inductive Call (count : Nat) (pool : MemoryPool) : MemoryPool → Prop where
  | performed (heap : Bool) (operation : Operation)
      (proper : operation.Proper count) : Call count pool (perform heap pool operation)

section Runs

variable {count : Nat} {pool after : MemoryPool}

/-- One call keeps the layout. -/
theorem Call.laidOut (call : Call count pool after) (laidOut : LaidOut count pool) :
    LaidOut count after := by
  have consistent := laidOut.consistent
  cases call with
  | performed heap operation proper =>
      cases operation with
      | reserveLease lease bytes alignment placement =>
          have kept := @reserveLease_consistent count lease _ heap consistent proper.1
            bytes proper.2 alignment placement
          exact Consistent.laidOut kept (reserveLease_same laidOut proper.2 _ _)
      | adoptBorrowedLease lease bytes alignment offset =>
          have kept := adoptBorrowedLease_consistent consistent proper bytes alignment
            offset
          exact Consistent.laidOut kept (adoptBorrowedLease_same _ _ _)
      | splitReusable selected split bytes alignment =>
          have kept := @splitReusable_consistent count selected _ split consistent proper
            bytes alignment
          exact Consistent.laidOut kept (splitReusable_same _ _ _)
      | markReserved lease => exact markReserved_laidOut laidOut
      | beginRetirement lease event expected =>
          have kept := @beginRetirement_consistent count lease _ consistent event expected
          exact Consistent.laidOut kept (beginRetirement_same _ _)
      | publishRetirementDependency lease event =>
          have kept := @publishRetirementDependency_consistent count lease _ consistent
            event
          exact Consistent.laidOut kept (publishRetirementDependency_same _)
      | cancelRetirement lease =>
          have kept := @cancelRetirement_consistent count lease _ consistent
          exact Consistent.laidOut kept cancelRetirement_same
      | reserveCausalSuccessor lease bytes alignment =>
          exact reserveCausalSuccessor_laidOut laidOut proper _ _
      | handoffCausalRange lease target => exact handoffCausalRange_laidOut laidOut _
      | acquireReservedLease lease => exact acquireReservedLease_laidOut laidOut
      | cancelReservation lease => exact cancelReservation_laidOut laidOut
      | releaseLease lease => exact releaseLease_laidOut laidOut
      | renewLease lease generation =>
          have kept := @renewLease_consistent count lease _ consistent generation
          exact Consistent.laidOut kept (renewLease_same _)

/-- Every run of calls on a new pool keeps the layout. -/
theorem laidOut_of_run (new : New pool)
    (run : Relation.ReflTransGen (Call count) pool after) : LaidOut count after := by
  induction run with
  | refl => exact Consistent.laidOut (consistent_of_new new) (sameLayout_refl pool)
  | tail _ call ih => exact call.laidOut ih

theorem arena_of_run (run : Relation.ReflTransGen (Call count) pool after) :
    after.ranges.arena = pool.ranges.arena := by
  induction run with
  | refl => rfl
  | tail _ call ih =>
      cases call with
      | performed heap operation proper =>
          exact (perform_site operation).arena.trans ih

end Runs

end ShadowSpill.Runtime.PoolLayout
