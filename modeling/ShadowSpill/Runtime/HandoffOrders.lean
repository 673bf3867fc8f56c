import ShadowSpill.Runtime.CausalHandoff
import ShadowSpill.Runtime.PoolRuns

/-!
# The two orders of a handoff

In a spill pool the two orders end alike: the successor has the range, its charge is no
longer reserved, and the predecessor's record is empty.  In an execution pool the order
that acquires the successor first leaves the predecessor without its pool, and neither
path that releases it there closes its books.
-/

namespace ShadowSpill.Runtime.HandoffOrders

open Ranges PoolLeases PoolInvariant PoolRuns CausalHandoff

variable {count predecessor successor event : Nat} {pool : MemoryPool} {books : PoolBooks}
variable {path : ReleasePath} {heap : Bool}

/-- A retiring lease whose successor is reserved and whose dependency is published; the
leases of an execution pool are active, those of a spill pool are not. -/
structure Situation (path : ReleasePath) (count : Nat) (books : PoolBooks)
    (predecessor successor event : Nat) : Prop where
  consistent : Consistent count books.pool
  successor : (books.pool.leases predecessor).causalSuccessor = some successor
  published : (books.pool.leases predecessor).causalEvent = some event
  pointer : (books.records predecessor).pointer.isSome = true
  active : predecessor ∈ books.activeLeases ↔ path ≠ .spill
  healthy : books.failure = none

/-- The range has passed on and the books say so. -/
structure HandedOver (path : ReleasePath) (before after : PoolBooks)
    (predecessor successor : Nat) : Prop where
  owner : successor ∈ after.pool.rangeLeases
  inUse : (after.pool.leases successor).state = .inUse
  owns : (after.pool.leases successor).ownsPoolRange = true
  reserved : after.pool.reservedBytes + (before.pool.leases successor).chargedBytes =
    before.pool.reservedBytes
  ranges : after.pool.ranges = before.pool.ranges
  left : predecessor ∉ after.pool.rangeLeases
  inactive : predecessor ∉ after.activeLeases
  active : path ≠ .spill → successor ∈ after.activeLeases
  emptied : (after.pool.leases predecessor).registered = false ∧
    (after.pool.leases predecessor).state = .free ∧
    (after.pool.leases predecessor).causalPredecessor = none ∧
    (after.pool.leases predecessor).causalSuccessor = none ∧
    (after.records predecessor).pointer = none
  healthy : after.failure = none

/-- Both orders end in one state, with the range handed over. -/
def Confluent (path : ReleasePath) (heap : Bool) (books : PoolBooks)
    (predecessor successor : Nat) : Prop :=
  ∃ after, acquireThenRelease path heap books predecessor successor = some after ∧
    releaseThenAcquire path heap books predecessor successor = some after ∧
    HandedOver path books after predecessor successor

/-! ## The memory pool in either order -/

/-- The pool after the handoff: the successor in the predecessor's place, and an empty
predecessor. -/
def handedOver (pool : MemoryPool) (predecessor successor : Nat) : MemoryPool :=
  { (transferRange pool predecessor successor .inUse).update predecessor Lease.clear with
    reservedBytes := pool.reservedBytes - (pool.leases successor).chargedBytes }

theorem transferRange_successor (state : LeaseState) (other : successor ≠ predecessor) :
    (transferRange pool predecessor successor state).leases successor =
      (pool.leases successor).takeOver state := by
  unfold transferRange
  dsimp only
  rw [update_leases, Function.update_self, update_leases, Function.update_of_ne other]

theorem transferRange_predecessor (state : LeaseState) (other : successor ≠ predecessor) :
    (transferRange pool predecessor successor state).leases predecessor =
      (pool.leases predecessor).passOn := by
  unfold transferRange
  dsimp only
  rw [update_leases, Function.update_of_ne other.symm, update_leases, Function.update_self]

/-- Only the successor's record depends on the state it takes the range over in. -/
theorem transferRange_elsewhere (first second : LeaseState) {lease : Nat}
    (other : lease ≠ successor) :
    (transferRange pool predecessor successor first).leases lease =
      (transferRange pool predecessor successor second).leases lease := by
  show Function.update _ successor _ lease = Function.update _ successor _ lease
  rw [Function.update_of_ne other, Function.update_of_ne other]

section Pool

variable (consistent : Consistent count pool)
variable (link : (pool.leases predecessor).causalSuccessor = some successor)

include consistent link

theorem joined : Joins predecessor successor (pool.leases predecessor)
    (pool.leases successor) :=
  consistent.records.forward predecessor successor link

theorem successor_ne : successor ≠ predecessor := by
  have joins := joined consistent link
  intro same
  have claiming := joins.claiming
  rw [same, joins.retiring] at claiming
  cases claiming

theorem handoff_accepted :
    ¬(¬(pool.leases successor).registered = true ∨
      (pool.leases successor).state ≠ .successorReserved ∨
      ¬(pool.leases predecessor).registered = true ∨
      (pool.leases predecessor).generation ≠
        (pool.leases successor).causalPredecessorGeneration ∨
      (pool.leases predecessor).causalSuccessor ≠ some successor ∨
      predecessor ∉ pool.rangeLeases ∨ successor ∈ pool.rangeLeases) := by
  have joins := joined consistent link
  have listed : predecessor ∈ pool.rangeLeases := by
    apply (consistent.listed predecessor).mpr
    refine ⟨joins.source_registered, ?_⟩
    rw [joins.retiring]
    decide
  have unlisted : successor ∉ pool.rangeLeases :=
    fun mem => ((consistent.listed successor).mp mem).2 joins.claiming
  simp [joins.claim_registered, joins.claiming, joins.source_registered,
    joins.generation, link, listed, unlisted]

theorem reserved_enough :
    ¬pool.reservedBytes < (pool.leases successor).chargedBytes := by
  have joins := joined consistent link
  have bound := (consistent.records.valid successor).numbered joins.claim_registered
  have charge := @reservedCharge_le_total count successor pool.leases bound
  rw [← consistent.reserved] at charge
  unfold reservedCharge at charge
  rw [joins.claiming] at charge
  exact Nat.not_lt.mpr charge

/-- Acquiring first takes the published dependency. -/
theorem acquire_first (published : (pool.leases predecessor).causalEvent = some event) :
    acquireReservedLease pool successor =
      (.ok (some event),
        { transferRange pool predecessor successor .inUse with
          reservedBytes := pool.reservedBytes - (pool.leases successor).chargedBytes }) := by
  have joins := joined consistent link
  unfold acquireReservedLease handoffCausalRange
  simp only [joins.claim_registered, joins.claiming, joins.predecessor,
    not_true_eq_false, if_false, if_true]
  rw [if_neg]
  · simp only [published]
    rw [if_neg (reserved_enough consistent link)]
  · have accepted := handoff_accepted consistent link
    simpa [joins.claim_registered, joins.claiming] using accepted

/-- A predecessor that has passed its range on only clears its record. -/
theorem release_second (reserved : Nat) :
    releaseLease heap
        { transferRange pool predecessor successor .inUse with reservedBytes := reserved }
        predecessor =
      (.ok (), { (transferRange pool predecessor successor .inUse).update predecessor
        Lease.clear with reservedBytes := reserved }) := by
  have other := successor_ne consistent link
  have passed := @transferRange_predecessor predecessor successor pool .inUse other
  unfold releaseLease
  dsimp only
  rw [passed, if_pos ⟨rfl, by simp⟩]
  rfl

/-- Releasing first passes the range on as a reserved one. -/
theorem release_first :
    releaseLease heap pool predecessor =
      (.ok (), (transferRange pool predecessor successor .reserved).update predecessor
        Lease.clear) := by
  have joins := joined consistent link
  have listed : predecessor ∈ pool.rangeLeases := by
    have accepted := handoff_accepted consistent link
    simp only [not_or, not_not] at accepted
    exact accepted.2.2.2.2.2.1
  unfold releaseLease
  dsimp only
  rw [if_neg, if_neg]
  · rw [link]
    dsimp only
    unfold handoffCausalRange
    simp only [joins.predecessor]
    rw [if_neg (handoff_accepted consistent link)]
  · simp [joins.source_registered, joins.retiring, listed]
  · simp [joins.retiring]

/-- A successor that has the range already only comes into use. -/
theorem acquire_second (record : Lease) :
    acquireReservedLease
        ((transferRange pool predecessor successor .reserved).update predecessor
          fun _ => record) successor =
      (.ok none, { (transferRange pool predecessor successor .inUse).update predecessor
        (fun _ => record) with
          reservedBytes :=
            pool.reservedBytes - (pool.leases successor).chargedBytes }) := by
  have joins := joined consistent link
  have other := successor_ne consistent link
  have taken : ((transferRange pool predecessor successor .reserved).update predecessor
      fun _ => record).leases successor = (pool.leases successor).takeOver .reserved := by
    rw [update_leases, Function.update_of_ne other, transferRange_successor _ other]
  have leases : Function.update
      ((transferRange pool predecessor successor .reserved).update predecessor
        fun _ => record).leases successor
      { (pool.leases successor).takeOver .reserved with state := .inUse } =
      ((transferRange pool predecessor successor .inUse).update predecessor
        fun _ => record).leases := by
    funext lease
    rw [update_leases, update_leases]
    by_cases isSuccessor : lease = successor
    · subst isSuccessor
      rw [Function.update_self, Function.update_of_ne other,
        transferRange_successor _ other]
      rfl
    · rw [Function.update_of_ne isSuccessor]
      by_cases isPredecessor : lease = predecessor
      · subst isPredecessor
        rw [Function.update_self, Function.update_self]
      · rw [Function.update_of_ne isPredecessor, Function.update_of_ne isPredecessor,
          transferRange_elsewhere _ _ isSuccessor]
  have enough := reserved_enough consistent link
  unfold acquireReservedLease
  dsimp only
  rw [taken, if_neg, if_neg, if_neg]
  · rw [← taken] at leases
    exact Prod.ext rfl (congrArg (MemoryPool.mk _ _ _ _ _ _) leases)
  · rintro (notReserved | short)
    · exact notReserved rfl
    · exact enough short
  · simp
  · simp [joins.claim_registered]

end Pool

/-! ## A spill pool -/

/-- The books after the range has passed on and the predecessor is cleared. -/
def passedBooks (books : PoolBooks) (predecessor : Nat) (pool : MemoryPool) : PoolBooks :=
  { clearPointer (retirePointer books predecessor) predecessor with pool := pool }

/-- Recycling looks at the pool's record and at its list of owners. -/
theorem isRecyclable_congr {first second : MemoryPool}
    (leases : first.leases predecessor = second.leases predecessor)
    (rangeLeases : first.rangeLeases = second.rangeLeases) :
    isRecyclable { books with pool := first } predecessor =
      isRecyclable { books with pool := second } predecessor := by
  unfold isRecyclable
  dsimp only
  rw [leases, rangeLeases]

theorem passedBooks_pool (pool : MemoryPool) :
    (passedBooks books predecessor pool).pool = pool :=
  rfl

theorem acquireThenRelease_spill (situation : Situation .spill count books predecessor
      successor event) :
    acquireThenRelease .spill heap books predecessor successor =
      some (tryRecycle (passedBooks books predecessor
        (handedOver books.pool predecessor successor)) predecessor) := by
  have link := situation.successor
  have joins := joined situation.consistent link
  have acquired := acquire_first situation.consistent link situation.published
  have released := @release_second count predecessor successor books.pool heap
    situation.consistent link
    (books.pool.reservedBytes - (books.pool.leases successor).chargedBytes)
  have detached := @transferRange_predecessor predecessor successor books.pool .inUse
    (successor_ne situation.consistent link)
  unfold acquireThenRelease acquireOn acquireReserved
  dsimp only
  rw [acquired]
  dsimp only
  rw [joins.predecessor]
  unfold releaseOn releasePooled attached
  dsimp only
  rw [released, detached]
  rfl

/-- A successor that was passed its range leaves the books over the pool alone. -/
theorem acquireReserved_passed (consistent : Consistent count books.pool)
    (link : (books.pool.leases predecessor).causalSuccessor = some successor)
    (record : Lease) (passed : PoolBooks)
    (pooled : passed.pool = (transferRange books.pool predecessor successor .reserved).update
      predecessor fun _ => record) :
    acquireReserved passed successor =
      (.ok none, { passed with pool :=
        { (transferRange books.pool predecessor successor .inUse).update predecessor
          (fun _ => record) with
            reservedBytes :=
              books.pool.reservedBytes - (books.pool.leases successor).chargedBytes } }) := by
  have other := successor_ne consistent link
  have unlinked : (passed.pool.leases successor).causalPredecessor = none := by
    rw [pooled, update_leases, Function.update_of_ne other, transferRange_successor _ other]
    rfl
  unfold acquireReserved
  rw [unlinked, pooled, acquire_second consistent link record]

/-- Both orders find the predecessor's record empty, or both do not. -/
theorem isRecyclable_passed (first second : LeaseState)
    (other : successor ≠ predecessor) (reserved : Nat) :
    isRecyclable (passedBooks books predecessor
        ((transferRange pool predecessor successor first).update predecessor Lease.clear))
        predecessor =
      isRecyclable (passedBooks books predecessor
        { (transferRange pool predecessor successor second).update predecessor
          Lease.clear with reservedBytes := reserved }) predecessor := by
  apply isRecyclable_congr
  · rw [update_leases]
    show Function.update _ predecessor _ predecessor =
      Function.update _ predecessor _ predecessor
    rw [Function.update_self, Function.update_self,
      transferRange_elsewhere first second other.symm]
  · rfl

/-- The books that an acquisition leaves, if it is not refused. -/
def acquiredBooks : Except Refusal (Option Nat) × PoolBooks → Option PoolBooks
  | (.error _, _) => none
  | (.ok _, acquired) => some acquired

theorem releaseThenAcquire_spill (situation : Situation .spill count books predecessor
      successor event) :
    releaseThenAcquire .spill heap books predecessor successor =
      some (tryRecycle (passedBooks books predecessor
        (handedOver books.pool predecessor successor)) predecessor) := by
  have link := situation.successor
  have joins := joined situation.consistent link
  have other := successor_ne situation.consistent link
  have released := @release_first count predecessor successor books.pool heap
    situation.consistent link
  have opened : releaseThenAcquire .spill heap books predecessor successor =
      acquiredBooks (acquireReserved (tryRecycle (passedBooks books predecessor
        ((transferRange books.pool predecessor successor .reserved).update predecessor
          Lease.clear)) predecessor) successor) := by
    unfold releaseThenAcquire releaseOn releasePooled attached
    dsimp only
    rw [released, joins.source_registered]
    rfl
  have alike : isRecyclable (passedBooks books predecessor
        ((transferRange books.pool predecessor successor .reserved).update predecessor
          Lease.clear)) predecessor =
      isRecyclable (passedBooks books predecessor
        (handedOver books.pool predecessor successor)) predecessor :=
    isRecyclable_passed .reserved .inUse other _
  rw [opened]
  unfold tryRecycle
  rw [alike]
  cases isRecyclable (passedBooks books predecessor
      (handedOver books.pool predecessor successor)) predecessor with
  | true =>
      have emptied : ∀ first : MemoryPool, (first.update predecessor Lease.clear).update
          predecessor (fun _ => .blank 0) = first.update predecessor fun _ => .blank 0 := by
        intro first
        exact congrArg (MemoryPool.mk _ _ _ _ _ _) (Function.update_idem _ _ _)
      have final : (handedOver books.pool predecessor successor).update predecessor
          (fun _ => .blank 0) =
          { (transferRange books.pool predecessor successor .inUse).update predecessor
            (fun _ => .blank 0) with
              reservedBytes :=
                books.pool.reservedBytes - (books.pool.leases successor).chargedBytes } :=
        emptied { transferRange books.pool predecessor successor .inUse with
          reservedBytes :=
            books.pool.reservedBytes - (books.pool.leases successor).chargedBytes }
      rw [if_pos rfl, if_pos rfl, acquireReserved_passed situation.consistent link
        (.blank 0) _ (emptied _)]
      show some _ = some _
      congr 2
      exact final.symm
  | false =>
      have kept := @transferRange_elsewhere predecessor successor books.pool .reserved .inUse
        predecessor other.symm
      rw [if_neg Bool.false_ne_true, if_neg Bool.false_ne_true,
        acquireReserved_passed situation.consistent link
        ((transferRange books.pool predecessor successor .reserved).leases predecessor).clear
        _ rfl, kept]
      rfl

section Spill

variable (situation : Situation .spill count books predecessor successor event)

include situation

/-- The books of a spill pool say that the range was handed over. -/
theorem handedOver_passed : HandedOver .spill books (passedBooks books predecessor
    (handedOver books.pool predecessor successor)) predecessor successor := by
  have link := situation.successor
  have joins := joined situation.consistent link
  have other := successor_ne situation.consistent link
  have enough := reserved_enough situation.consistent link
  have accepted := handoff_accepted situation.consistent link
  simp only [not_or, not_not] at accepted
  have taken : (handedOver books.pool predecessor successor).leases successor =
      (books.pool.leases successor).takeOver .inUse := by
    show Function.update _ predecessor _ successor = _
    rw [Function.update_of_ne other, transferRange_successor _ other]
  have cleared : (handedOver books.pool predecessor successor).leases predecessor =
      (books.pool.leases predecessor).passOn.clear := by
    show Function.update _ predecessor _ predecessor = _
    rw [Function.update_self, transferRange_predecessor _ other]
  have unclaiming : (books.pool.leases predecessor).causalPredecessor = none := by
    cases claimed : (books.pool.leases predecessor).causalPredecessor with
    | none => rfl
    | some source =>
        have behind := situation.consistent.records.back source predecessor claimed
        have wrong := joins.retiring.symm.trans behind.claiming
        cases wrong
  refine ⟨?_, ?_, ?_, ?_, rfl, ?_, ?_, fun wrong => absurd rfl wrong, ?_, situation.healthy⟩
  · apply List.mem_map.mpr
    exact ⟨predecessor, accepted.2.2.2.2.2.1, if_pos rfl⟩
  · rw [passedBooks_pool, taken]
    rfl
  · rw [passedBooks_pool, taken]
    exact joins.claim_owns
  · exact Nat.sub_add_cancel (Nat.le_of_not_lt enough)
  · intro mem
    rcases List.mem_map.mp mem with ⟨lease, _, same⟩
    split at same
    · exact other same
    · contradiction
  · intro mem
    exact situation.active.mp mem rfl
  · rw [passedBooks_pool, cleared]
    refine ⟨rfl, rfl, unclaiming, rfl, ?_⟩
    unfold passedBooks clearPointer PoolBooks.setRecord
    dsimp only
    rw [Function.update_self]

omit situation in
/-- An empty record that is recycled stays empty, and nothing else changes. -/
theorem tryRecycle_handedOver {before after : PoolBooks}
    (handed : HandedOver path before after predecessor successor) :
    HandedOver path before (tryRecycle after predecessor) predecessor successor := by
  have other : successor ≠ predecessor := by
    intro same
    exact handed.left (same ▸ handed.owner)
  have kept : (after.pool.update predecessor fun _ => .blank 0).leases successor =
      after.pool.leases successor := by
    rw [update_leases, Function.update_of_ne other]
  have blank : (after.pool.update predecessor fun _ => .blank 0).leases predecessor =
      .blank 0 := by
    rw [update_leases, Function.update_self]
  unfold tryRecycle
  split
  · refine ⟨handed.owner, ?_, ?_, handed.reserved, handed.ranges, handed.left,
      handed.inactive, handed.active, ?_, handed.healthy⟩
    · dsimp only
      rw [kept]
      exact handed.inUse
    · dsimp only
      rw [kept]
      exact handed.owns
    · dsimp only
      rw [blank]
      refine ⟨rfl, rfl, rfl, rfl, ?_⟩
      unfold PoolBooks.setRecord
      dsimp only
      rw [Function.update_self]
      rfl
  · exact handed

theorem confluent_spill : Confluent .spill heap books predecessor successor :=
  ⟨_, acquireThenRelease_spill situation, releaseThenAcquire_spill situation,
    tryRecycle_handedOver (handedOver_passed situation)⟩

end Spill

/-! ## An execution pool -/

/-- Publishing an allocation leaves the memory pool, the pointers and the failure, and
takes no lease off the active list. -/
theorem publishSuccessorLease_keeps (successor : Nat) (books : PoolBooks) :
    (publishSuccessorLease books successor).pool = books.pool ∧
      (publishSuccessorLease books successor).failure = books.failure ∧
      (∀ lease, ((publishSuccessorLease books successor).records lease).pointer =
        (books.records lease).pointer) ∧
      books.activeLeases ⊆ (publishSuccessorLease books successor).activeLeases := by
  unfold publishSuccessorLease publishGeometry PoolBooks.setRecord
  split
  · exact ⟨rfl, rfl, fun _ => rfl, List.Subset.refl _⟩
  · refine ⟨rfl, rfl, ?_, List.subset_cons_self _ _⟩
    intro lease
    dsimp only
    by_cases same : lease = successor
    · rw [same, Function.update_self]
    · rw [Function.update_of_ne same]

theorem latchFailure_failed (reason : FailureReason) :
    (books.latchFailure reason).failure ≠ none := by
  unfold PoolBooks.latchFailure
  cases books.failure <;> simp

/-- A lease without its pool has no path through the release of an allocation: the call
reads through the missing pool, or the runtime fails. -/
theorem releaseAllocation_detached {after : PoolBooks} {lease : Nat}
    (detached : attached books lease = false)
    (pointer : (books.records lease).pointer.isSome = true)
    (released : releaseAllocation heap books lease = some after) :
    after.failure ≠ none := by
  unfold releaseAllocation at released
  dsimp only at released
  have present : ¬(books.records lease).pointer.isNone = true := by
    rw [Option.isNone_iff_eq_none]
    exact Option.isSome_iff_ne_none.mp pointer
  rw [if_neg present, detached] at released
  split at released
  · cases released
  · split at released
    · cases released
      exact latchFailure_failed _
    · rw [if_pos (by simp)] at released
      cases released
      exact latchFailure_failed _

section Execution

variable (situation : Situation path count books predecessor successor event)

include situation

/-- Acquiring first leaves the predecessor without its pool, and still on the active
list. -/
theorem acquireAllocation_first : ∃ acquired,
    acquireAllocation books successor = (.ok (some event), acquired) ∧
      acquired.pool = { transferRange books.pool predecessor successor .inUse with
        reservedBytes :=
          books.pool.reservedBytes - (books.pool.leases successor).chargedBytes } ∧
      attached acquired predecessor = false ∧
      (acquired.records predecessor).pointer.isSome = true ∧
      books.activeLeases ⊆ acquired.activeLeases ∧ acquired.failure = none := by
  have link := situation.successor
  have joins := joined situation.consistent link
  have other := successor_ne situation.consistent link
  have took := acquire_first situation.consistent link situation.published
  rcases publishSuccessorLease_keeps successor
    { retirePointer books predecessor with
      pool := { transferRange books.pool predecessor successor .inUse with
        reservedBytes :=
          books.pool.reservedBytes - (books.pool.leases successor).chargedBytes } } with
    ⟨pooled, healthy, pointers, active⟩
  refine ⟨_, ?_, pooled, ?_, ?_, active, healthy.trans situation.healthy⟩
  · unfold acquireAllocation acquireReserved
    rw [took, joins.predecessor]
  · unfold attached
    rw [pooled]
    dsimp only
    rw [transferRange_predecessor _ other]
    rfl
  · rw [pointers]
    unfold retirePointer PoolBooks.setRecord
    dsimp only
    rw [Function.update_self]
    exact situation.pointer

/-- An eviction and a release action release the allocation as they find it. -/
theorem not_confluent_direct (direct : path = .eviction ∨ path = .releaseAction) :
    ¬Confluent path heap books predecessor successor := by
  rintro ⟨after, first, _, handed⟩
  rcases acquireAllocation_first situation with
    ⟨acquired, took, _, detached, pointer, _, _⟩
  have released : releaseAllocation heap acquired predecessor = some after := by
    rcases direct with rfl | rfl
    · simpa only [acquireThenRelease, acquireOn, releaseOn, took] using first
    · simpa only [acquireThenRelease, acquireOn, releaseOn, took] using first
  exact releaseAllocation_detached detached pointer released handed.healthy

/-- The retirement queue leaves the predecessor on the active list. -/
theorem not_confluent_retirement (retired : path = .retirement) :
    ¬Confluent path heap books predecessor successor := by
  rintro ⟨after, first, _, handed⟩
  rcases acquireAllocation_first situation with
    ⟨acquired, took, _, detached, _, active, _⟩
  subst retired
  unfold acquireThenRelease acquireOn releaseOn at first
  simp only [took, detached, Bool.false_eq_true, if_false] at first
  cases first
  exact handed.inactive (active (situation.active.mpr (by decide)))

end Execution

/-! ## When the orders agree -/

/-- The two orders of a handoff end alike exactly in a spill pool. -/
theorem confluent_iff_spill
    (situation : Situation path count books predecessor successor event) :
    Confluent path heap books predecessor successor ↔ path = .spill := by
  constructor
  · intro confluent
    cases path with
    | spill => rfl
    | eviction => exact absurd confluent (not_confluent_direct situation (.inl rfl))
    | releaseAction => exact absurd confluent (not_confluent_direct situation (.inr rfl))
    | retirement => exact absurd confluent (not_confluent_retirement situation rfl)
  · intro spill
    subst spill
    exact confluent_spill situation

/-- A lease of three bytes that retires with its dependency, and a successor of two. -/
def handingOver : MemoryPool :=
  perform false
    (perform false
      (perform false fourBytes (.reserveLease 0 3 1 .bestFitLow))
      (.beginRetirement 0 (some 7) false))
    (.reserveCausalSuccessor 1 2 1)

theorem handingOver_consistent : Consistent 2 handingOver := by
  apply consistent_of_run fourBytes_new
  refine ((Relation.ReflTransGen.refl.tail (.performed false
    (.reserveLease 0 3 1 .bestFitLow) ⟨by decide, by decide⟩ trivial)).tail
    (.performed false (.beginRetirement 0 (some 7) false) trivial trivial)).tail
    (.performed false (.reserveCausalSuccessor 1 2 1) (by decide : 1 < 2) ?_)
  intro _ _ _
  show ∀ other ∈ _, _
  decide

/-- The books over that pool, with the given leases active. -/
def handingOverBooks (active : List Nat) : PoolBooks where
  pool := handingOver
  records := fun lease => { AllocationRecord.blank with
    pointer := if lease = 0 then some 4096 else none
    active := lease ∈ active
    inIdIndex := lease ∈ active
    inPointerIndex := lease ∈ active
    metadataInUse := true }
  activeLeases := active
  leasesById := active
  leasesByPointer := active
  reusableLeases := []
  requestedAllocatedBytes := if active = [] then 0 else 3
  peakRequestedAllocatedBytes := if active = [] then 0 else 3
  liveAllocations := active.length
  freeLeaseRecords := []
  leaseRecordAvailable := 0
  leaseRecordInUse := 2
  useRecordAvailable := 0
  useRecordInUse := 0
  freeBytesSnapshot := 1
  largestFreeBytesSnapshot := 1
  telemetryActive := false
  failure := none

theorem situation_spill : Situation .spill 2 (handingOverBooks []) 0 1 7 where
  consistent := handingOver_consistent
  successor := by decide
  published := by decide
  pointer := by decide
  active := by decide
  healthy := rfl

theorem situation_eviction : Situation .eviction 2 (handingOverBooks [0]) 0 1 7 where
  consistent := handingOver_consistent
  successor := by decide
  published := by decide
  pointer := by decide
  active := by decide
  healthy := rfl

theorem confluent_handingOver :
    Confluent .spill false (handingOverBooks []) 0 1 ↔ ReleasePath.spill = .spill :=
  confluent_iff_spill situation_spill

/-- An eviction whose successor came first reads through the pool that its lease no
longer has; released first, it ends well. -/
theorem eviction_not_confluent :
    acquireThenRelease .eviction false (handingOverBooks [0]) 0 1 = none ∧
      (releaseThenAcquire .eviction false (handingOverBooks [0]) 0 1).any
        (fun after => after.failure.isNone && after.activeLeases = [1] &&
          after.pool.rangeLeases = [1]) = true ∧
      ¬Confluent .eviction false (handingOverBooks [0]) 0 1 := by
  refine ⟨?_, ?_, not_confluent_direct situation_eviction (.inl rfl)⟩
  · rfl
  · decide

end ShadowSpill.Runtime.HandoffOrders
