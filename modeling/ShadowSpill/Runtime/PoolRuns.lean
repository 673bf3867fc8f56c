import ShadowSpill.Runtime.PoolOperations

/-!
# Runs of pool operations

Any sequence of calls on a new pool, refused ones included.  Two things can take
the reserved bytes away from the leases they stand for: a sum that is no word,
and a reserved lease whose range cannot be freed for want of a list node, since
its bytes are given up before that is known.
-/

namespace ShadowSpill.Runtime.PoolRuns

open Library.Word64 Ranges RangeTiling RangeRequests PoolLeases PoolInvariant PoolOperations

/-- One call on the pool. -/
inductive Operation where
  | reserveLease (lease bytes alignment : Nat) (placement : Placement)
  | adoptBorrowedLease (lease bytes alignment offset : Nat)
  | splitReusable (selected split bytes alignment : Nat)
  | markReserved (lease : Nat)
  | beginRetirement (lease : Nat) (event : Option Nat) (expected : Bool)
  | publishRetirementDependency (lease event : Nat)
  | cancelRetirement (lease : Nat)
  | reserveCausalSuccessor (lease bytes alignment : Nat)
  | handoffCausalRange (lease : Nat) (target : HandoffTarget)
  | acquireReservedLease (lease : Nat)
  | cancelReservation (lease : Nat)
  | releaseLease (lease : Nat)
  | renewLease (lease generation : Nat)
deriving DecidableEq, Repr

/-- The pool after a call, whatever its status. -/
def perform (heap : Bool) (pool : MemoryPool) : Operation → MemoryPool
  | .reserveLease lease bytes alignment placement =>
    (reserveLease heap pool lease bytes alignment placement).2
  | .adoptBorrowedLease lease bytes alignment offset =>
    (adoptBorrowedLease pool lease bytes alignment offset).2
  | .splitReusable selected split bytes alignment =>
    (splitReusable pool selected split bytes alignment).2
  | .markReserved lease => (markReserved pool lease).2
  | .beginRetirement lease event expected =>
    (beginRetirement pool lease event expected).2
  | .publishRetirementDependency lease event =>
    (publishRetirementDependency pool lease event).2
  | .cancelRetirement lease => (cancelRetirement pool lease).2
  | .reserveCausalSuccessor lease bytes alignment =>
    (reserveCausalSuccessor pool lease bytes alignment).2
  | .handoffCausalRange lease target => (handoffCausalRange pool lease target).2
  | .acquireReservedLease lease => (acquireReservedLease pool lease).2
  | .cancelReservation lease => (cancelReservation heap pool lease).2
  | .releaseLease lease => (releaseLease heap pool lease).2
  | .renewLease lease generation => (renewLease pool lease generation).2

/-- A call that takes a new lease names one of the pool's records, and sizes are
words. -/
def Operation.Proper (count : Nat) : Operation → Prop
  | .reserveLease lease bytes _ _ => lease < count ∧ bytes < modulus
  | .adoptBorrowedLease lease _ _ _ => lease < count
  | .splitReusable _ split _ _ => split < count
  | .reserveCausalSuccessor lease _ _ => lease < count
  | _ => True

/-- What the call adds to the reserved bytes leaves them a word, and a reserved
lease that gives its own range back gets a node for it. -/
def Operation.Safe (count : Nat) (heap : Bool) (pool : MemoryPool) :
    Operation → Prop
  | .markReserved lease =>
    (pool.leases lease).registered = true → (pool.leases lease).state = .inUse →
      reservedTotal count pool.leases + (pool.leases lease).chargedBytes < modulus
  | .reserveCausalSuccessor lease bytes alignment =>
    (pool.leases lease).registered = false → (pool.leases lease).state = .free →
      0 < bytes → ∀ other ∈ pool.rangeLeases,
        isCausalCandidate bytes (raised pool alignment) (pool.leases other) = true →
          reservedTotal count pool.leases + (pool.leases other).chargedBytes < modulus
  | .cancelReservation lease | .releaseLease lease => CanFree heap pool lease
  | _ => True

/-- A call that meets the condition. -/
inductive Step (count : Nat) (pool : MemoryPool) : MemoryPool → Prop where
  | performed (heap : Bool) (operation : Operation)
      (proper : operation.Proper count) (safe : operation.Safe count heap pool) :
      Step count pool (perform heap pool operation)

/-- A pool just initialized: one free range, and no lease in use. -/
structure New (pool : MemoryPool) : Prop where
  started : Started pool.ranges.capacity ⟨pool.ranges, []⟩
  word : pool.ranges.capacity < modulus
  alignment : 0 < pool.minimumAlignment
  listed : pool.rangeLeases = []
  reserved : pool.reservedBytes = 0
  blank : ∀ lease, ∃ generation, pool.leases lease = .blank generation

/-- What a pool promises: no byte has two owners, the free and the owned bytes
are all there are, the reserved bytes are counted, and a promised range passes
from its owner to the one lease that claims it. -/
structure PoolSafe (count : Nat) (pool : MemoryPool) : Prop where
  one_owner : ∀ first ∈ pool.rangeLeases, ∀ second ∈ pool.rangeLeases,
    (pool.leases first).ownsPoolRange = true →
      (pool.leases second).ownsPoolRange = true → first ≠ second →
        Apart (leaseRange (pool.leases first)) (leaseRange (pool.leases second))
  tiles : ∀ address, address < pool.ranges.capacity ↔
    Holds pool.ranges.freeRanges address ∨
      ∃ lease ∈ pool.rangeLeases, (pool.leases lease).ownsPoolRange = true ∧
        (extent (leaseRange (pool.leases lease))).Contains address
  unowned : ∀ address, Holds pool.ranges.freeRanges address →
    ∀ lease ∈ pool.rangeLeases, (pool.leases lease).ownsPoolRange = true →
      ¬ (extent (leaseRange (pool.leases lease))).Contains address
  listed : ∀ lease, lease ∈ pool.rangeLeases ↔
    (pool.leases lease).state = .inUse ∨
      (pool.leases lease).state = .retirePending ∨
        (pool.leases lease).state = .reserved
  reserved : pool.reservedBytes =
    ∑ lease ∈ Finset.range count, reservedCharge (pool.leases lease)
  successor : ∀ source claim,
    (pool.leases source).causalSuccessor = some claim →
      Joins source claim (pool.leases source) (pool.leases claim)
  predecessor : ∀ source claim,
    (pool.leases claim).causalPredecessor = some source →
      Joins source claim (pool.leases source) (pool.leases claim)
  claimed : ∀ claim, (pool.leases claim).state = .successorReserved →
    ∃ source ∈ pool.rangeLeases,
      Joins source claim (pool.leases source) (pool.leases claim)
  inherited : ∀ claim, (pool.leases claim).state = .successorReserved →
    ∀ address, (extent (leaseRange (pool.leases claim))).Contains address →
      ¬ Holds pool.ranges.freeRanges address

section Runs

variable {count : Nat} {pool after : MemoryPool}

theorem consistent_of_new (new : New pool) : Consistent count pool := by
  have state : ∀ lease, (pool.leases lease).state = .free := by
    intro lease
    obtain ⟨generation, blank⟩ := new.blank lease
    rw [blank]
    rfl
  have unregistered : ∀ lease, (pool.leases lease).registered = false := by
    intro lease
    obtain ⟨generation, blank⟩ := new.blank lease
    rw [blank]
    rfl
  have unlinked : ∀ lease, Unlinked (pool.leases lease) := by
    intro lease
    obtain ⟨generation, blank⟩ := new.blank lease
    rw [blank]
    exact ⟨rfl, rfl⟩
  constructor
  · constructor
    · exact new.alignment
    · constructor
      · intro lease
        constructor <;> simp [state, unregistered]
      · intro source claim link
        rw [(unlinked source).successor] at link
        cases link
      · intro source claim link
        rw [(unlinked claim).predecessor] at link
        cases link
    · rw [new.listed]
      exact List.nodup_nil
    · intro lease
      simp [new.listed, unregistered]
    · rw [new.reserved, reservedTotal]
      simp [reservedCharge, state]
  · have tiled := (tiled_of_started new.word new.started).1
    rw [new.listed]
    exact tiled

/-- One call keeps the invariant. -/
theorem Step.consistent (step : Step count pool after)
    (consistent : Consistent count pool) : Consistent count after := by
  cases step with
  | performed heap operation proper safe =>
      cases operation with
      | reserveLease lease bytes alignment placement =>
          exact reserveLease_consistent consistent proper.1 proper.2 _ _
      | adoptBorrowedLease lease bytes alignment offset =>
          exact adoptBorrowedLease_consistent consistent proper _ _ _
      | splitReusable selected split bytes alignment =>
          exact splitReusable_consistent consistent proper _ _
      | markReserved lease => exact markReserved_consistent consistent safe
      | beginRetirement lease event expected =>
          exact beginRetirement_consistent consistent _ _
      | publishRetirementDependency lease event =>
          exact publishRetirementDependency_consistent consistent _
      | cancelRetirement lease => exact cancelRetirement_consistent consistent
      | reserveCausalSuccessor lease bytes alignment =>
          exact reserveCausalSuccessor_consistent consistent proper _ _ safe
      | handoffCausalRange lease target =>
          exact handoffCausalRange_consistent consistent _
      | acquireReservedLease lease =>
          exact acquireReservedLease_consistent consistent
      | cancelReservation lease =>
          exact cancelReservation_consistent consistent safe
      | releaseLease lease => exact releaseLease_consistent consistent safe
      | renewLease lease generation => exact renewLease_consistent consistent _

theorem consistent_of_run (new : New pool)
    (run : Relation.ReflTransGen (Step count) pool after) :
    Consistent count after := by
  induction run with
  | refl => exact consistent_of_new new
  | tail _ step ih => exact step.consistent ih

theorem mem_ownedRanges {leases : Nat → Lease} {listed : List Nat} {lease : Nat}
    (mem : lease ∈ listed) (owns : (leases lease).ownsPoolRange = true) :
    leaseRange (leases lease) ∈ ownedRanges leases listed := by
  apply List.mem_map.2
  exact ⟨lease, List.mem_filter.2 ⟨mem, owns⟩, rfl⟩

theorem holds_ownedRanges {leases : Nat → Lease} {listed : List Nat}
    {address : Nat} :
    Holds (ownedRanges leases listed) address ↔
      ∃ lease ∈ listed, (leases lease).ownsPoolRange = true ∧
        (extent (leaseRange (leases lease))).Contains address := by
  induction listed with
  | nil => simp [ownedRanges]
  | cons lease listed ih =>
      rw [ownedRanges_cons]
      split_ifs with owns
      · simp [ih, owns]
      · simp [ih, owns]

/-- The invariant is what the pool promises. -/
theorem poolSafe_of_consistent (consistent : Consistent count pool) :
    PoolSafe count pool := by
  have tiled := consistent.tiled
  have claimed : ∀ claim, (pool.leases claim).state = .successorReserved →
      ∃ source ∈ pool.rangeLeases,
        Joins source claim (pool.leases source) (pool.leases claim) := by
    intro claim claiming
    obtain ⟨source, link⟩ := Option.isSome_iff_exists.1
      ((consistent.records.valid claim).claimed claiming)
    have joins := consistent.records.back source claim link
    refine ⟨source, (consistent.listed source).2 ?_, joins⟩
    rw [joins.retiring]
    exact ⟨joins.source_registered, by decide⟩
  have unowned : ∀ address, Holds pool.ranges.freeRanges address →
      ∀ lease ∈ pool.rangeLeases, (pool.leases lease).ownsPoolRange = true →
        ¬ (extent (leaseRange (pool.leases lease))).Contains address := by
    intro address free lease mem owns holds
    exact tiled.clear address free (holds_ownedRanges.2 ⟨lease, mem, owns, holds⟩)
  constructor
  · intro first firstMem second secondMem firstOwns secondOwns apart
    have disjoint := (tiled.perm (ownedRanges_erase firstMem)).disjoint
    rw [if_pos firstOwns, List.pairwise_cons] at disjoint
    apply disjoint.1
    exact mem_ownedRanges ((List.mem_erase_of_ne apart.symm).2 secondMem) secondOwns
  · intro address
    rw [tiled.exhaustive, holds_ownedRanges]
  · exact unowned
  · intro lease
    constructor
    · exact consistent.toRegistry.listed_state
    · intro state
      have active := (consistent.records.valid lease).active
      rw [consistent.listed, active]
      rcases state with state | state | state <;> rw [state] <;> decide
  · exact consistent.reserved
  · exact consistent.records.forward
  · exact consistent.records.back
  · exact claimed
  · intro claim claiming address holds free
    obtain ⟨source, mem, joins⟩ := claimed claim claiming
    apply unowned address free source mem joins.source_owns
    rw [contains_extent] at holds ⊢
    simp only [leaseRange, joins.offset, joins.charged] at holds
    exact holds

/-- In every run of pool operations whose steps meet the condition, refused ones
included, every state is safe. -/
theorem pool_safe (new : New pool)
    (run : Relation.ReflTransGen (Step count) pool after) :
    PoolSafe count after :=
  poolSafe_of_consistent (consistent_of_run new run)

end Runs

/-! ## A release that fails -/

/-- Four bytes, and two list nodes from an arena. -/
def fourBytes : MemoryPool where
  ranges := ⟨4, 0, 0, [⟨0, 4⟩], true, 2, 1⟩
  rangeLeases := []
  minimumAlignment := 1
  nextRequestSequence := 1
  nextReleaseSequence := 1
  reservedBytes := 0
  leases := fun lease => .blank (lease + 1)

theorem fourBytes_new : New fourBytes where
  started := .arena (by decide : rangeInitializeWithNodes 4 2 = _)
  word := by decide
  alignment := by decide
  listed := rfl
  reserved := rfl
  blank := fun lease => ⟨lease + 1, rfl⟩

/-- A lease of one byte with a gap on either side is reserved, and its release
finds no node. -/
def unreleased : MemoryPool :=
  perform false
    (perform false
      (perform false fourBytes (.reserveLease 0 1 2 .bestFitHigh))
      (.markReserved 0))
    (.releaseLease 0)

/-- The lease stays reserved, and its byte is no longer counted. -/
theorem unreleased_uncounted :
    (unreleased.leases 0).state = .reserved ∧
      (unreleased.leases 0).chargedBytes = 1 ∧
      unreleased.reservedBytes = 0 ∧ ¬ PoolSafe 1 unreleased := by
  refine ⟨by decide, by decide, by decide, ?_⟩
  intro safe
  have counted : unreleased.reservedBytes =
      ∑ lease ∈ Finset.range 1, reservedCharge (unreleased.leases lease) :=
    safe.reserved
  rw [Finset.sum_range_one] at counted
  revert counted
  decide

/-- A predecessor retires, a successor claims its range and takes it over. -/
def inherited : MemoryPool :=
  perform false
    (perform false
      (perform false
        (perform false fourBytes (.reserveLease 0 3 1 .bestFitLow))
        (.beginRetirement 0 (some 7) false))
      (.reserveCausalSuccessor 1 2 1))
    (.acquireReservedLease 1)

theorem pool_safe_inherited :
    inherited.rangeLeases = [1] ∧ PoolSafe 2 inherited := by
  refine ⟨by decide, pool_safe fourBytes_new ?_⟩
  refine ((((Relation.ReflTransGen.refl.tail (.performed false
    (.reserveLease 0 3 1 .bestFitLow) ⟨by decide, by decide⟩ trivial)).tail
    (.performed false (.beginRetirement 0 (some 7) false) trivial trivial)).tail
    (.performed false (.reserveCausalSuccessor 1 2 1) (by decide : 1 < 2)
      ?_)).tail
    (.performed false (.acquireReservedLease 1) trivial trivial))
  intro _ _ _
  show ∀ other ∈ _, _
  decide

end ShadowSpill.Runtime.PoolRuns
