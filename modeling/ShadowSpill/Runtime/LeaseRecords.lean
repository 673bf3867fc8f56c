import ShadowSpill.Runtime.PoolLayout
import ShadowSpill.Status

/-!
# Records and their reserve

A pool owns a stock of lease records and one of use records.  A record is taken
from the free list, or from the process heap when the list is empty.  The
reserve fills both stocks and sizes the workspaces of the release frontier.
-/

namespace ShadowSpill.Runtime.LeaseRecords

open Ranges PoolLeases

/-! ## A stock of records -/

/-- The records of one kind: `*_record_capacity`, `*_record_available` and the
other counters of the kind, its free list, and which records are taken.  Records
are numbered in the order of their creation. -/
structure RecordStock where
  capacity : Nat
  available : Nat
  inUse : Nat
  peakInUse : Nat
  growthRejections : Nat
  free : List Nat
  taken : Nat → Bool

namespace RecordStock

def empty : RecordStock := ⟨0, 0, 0, 0, 0, [], fun _ => false⟩

/-- One more record is in use. -/
def use (stock : RecordStock) (record : Nat) : RecordStock :=
  { stock with
    inUse := stock.inUse + 1
    peakInUse := max stock.peakInUse (stock.inUse + 1)
    taken := Function.update stock.taken record true }

/-- A record from the free list, or a new one if the process heap gives it. -/
def acquire (heap : Bool) (stock : RecordStock) : Option Nat × RecordStock :=
  match stock.free with
  | record :: rest =>
    (some record, use { stock with free := rest, available := stock.available - 1 } record)
  | [] =>
    if heap then
      (some stock.capacity, use { stock with capacity := stock.capacity + 1 } stock.capacity)
    else (none, { stock with growthRejections := stock.growthRejections + 1 })

/-- A record goes back to the free list. -/
def recycle (stock : RecordStock) (record : Nat) : RecordStock :=
  { stock with
    available := stock.available + 1
    inUse := if stock.inUse ≠ 0 then stock.inUse - 1 else stock.inUse
    free := record :: stock.free
    taken := Function.update stock.taken record false }

/-- Records created for the reserve go to the free list, the first of them to its
front. -/
def grow (stock : RecordStock) (additional : Nat) : RecordStock :=
  { stock with
    capacity := stock.capacity + additional
    available := stock.available + additional
    free := (List.range additional).map (stock.capacity + ·) ++ stock.free }

/-- The records of a stock, each either listed as free once or in use. -/
structure Counted (stock : RecordStock) : Prop where
  total : stock.capacity = stock.available + stock.inUse
  listed : stock.available = stock.free.length
  nodup : stock.free.Nodup
  owned : ∀ record ∈ stock.free, record < stock.capacity
  spare : ∀ record ∈ stock.free, stock.taken record = false
  numbered : ∀ record, stock.taken record = true → record < stock.capacity

section Counted

variable {stock : RecordStock} {record : Nat}

theorem counted_empty : Counted empty := by
  constructor <;> simp [empty]

/-- A taken record is one of those in use. -/
theorem Counted.inUse_pos (counted : Counted stock) (taken : stock.taken record = true) :
    0 < stock.inUse := by
  have unlisted : record ∉ stock.free := by
    intro mem
    rw [counted.spare record mem] at taken
    cases taken
  have subset : record :: stock.free ⊆ List.range stock.capacity := by
    intro other mem
    rw [List.mem_range]
    rcases List.mem_cons.1 mem with rfl | mem
    · exact counted.numbered other taken
    · exact counted.owned other mem
  have length := ((List.nodup_cons.2 ⟨unlisted, counted.nodup⟩).subperm subset).length_le
  rw [List.length_cons, List.length_range] at length
  have total := counted.total
  have listed := counted.listed
  omega

/-- A record created beyond the reserve is in use at once. -/
theorem Counted.create (counted : Counted stock) :
    Counted (use { stock with capacity := stock.capacity + 1 } stock.capacity) := by
  have total := counted.total
  constructor
  case total => simp only [use]; omega
  case listed => exact counted.listed
  case nodup => exact counted.nodup
  case owned => exact fun record mem => (counted.owned record mem).trans_le (Nat.le_succ _)
  case spare =>
    intro record mem
    have apart : record ≠ stock.capacity := (counted.owned record mem).ne
    simp only [use, Function.update_of_ne apart]
    exact counted.spare record mem
  case numbered =>
    intro record taken
    simp only [use, Function.update_apply] at taken ⊢
    split_ifs at taken with new
    · omega
    · exact (counted.numbered record taken).trans_le (Nat.le_succ _)

/-- The first free record is taken. -/
theorem Counted.take {rest : List Nat} (counted : Counted stock)
    (free : stock.free = record :: rest) :
    Counted (use { stock with free := rest, available := stock.available - 1 } record) := by
  have total := counted.total
  have listed := counted.listed
  have owned := counted.owned
  have spare := counted.spare
  have nodup := counted.nodup
  rw [free] at listed owned spare nodup
  rw [List.length_cons] at listed
  rw [List.nodup_cons] at nodup
  constructor
  case total => simp only [use]; omega
  case listed => simp only [use]; omega
  case nodup => exact nodup.2
  case owned => exact fun other mem => owned other (List.mem_cons_of_mem _ mem)
  case spare =>
    intro other mem
    have apart : other ≠ record := by
      rintro rfl
      exact nodup.1 mem
    simp only [use, Function.update_of_ne apart]
    exact spare other (List.mem_cons_of_mem _ mem)
  case numbered =>
    intro other taken
    simp only [use, Function.update_apply] at taken ⊢
    split_ifs at taken with new
    · rw [new]
      exact owned record List.mem_cons_self
    · exact counted.numbered other taken

theorem Counted.acquire (counted : Counted stock) (heap : Bool) :
    Counted (stock.acquire heap).2 := by
  unfold RecordStock.acquire
  split
  case h_1 record rest free => exact counted.take free
  case h_2 =>
    split_ifs
    · exact counted.create
    · exact ⟨counted.total, counted.listed, counted.nodup, counted.owned, counted.spare,
        counted.numbered⟩

/-- A record that is acquired was not taken, and is. -/
theorem Counted.acquire_some {heap : Bool} {after : RecordStock} (counted : Counted stock)
    (result : stock.acquire heap = (some record, after)) :
    stock.taken record = false ∧ after.taken = Function.update stock.taken record true ∧
      stock.capacity ≤ after.capacity := by
  unfold RecordStock.acquire at result
  split at result
  case h_1 first rest free =>
    cases result
    exact ⟨counted.spare record (by rw [free]; exact List.mem_cons_self), rfl, le_rfl⟩
  case h_2 =>
    split_ifs at result
    · cases result
      refine ⟨?_, rfl, Nat.le_succ _⟩
      by_contra taken
      rw [Bool.not_eq_false] at taken
      exact absurd (counted.numbered _ taken) (Nat.lt_irrefl _)
    · cases result

theorem acquire_none {heap : Bool} {after : RecordStock}
    (result : stock.acquire heap = (none, after)) :
    after.taken = stock.taken ∧ after.capacity = stock.capacity := by
  unfold RecordStock.acquire at result
  split at result
  case h_1 first rest free => cases result
  case h_2 =>
    split_ifs at result
    · cases result
    · cases result
      exact ⟨rfl, rfl⟩

theorem Counted.recycle (counted : Counted stock) (taken : stock.taken record = true) :
    Counted (stock.recycle record) := by
  have total := counted.total
  have listed := counted.listed
  have positive := counted.inUse_pos taken
  have unlisted : record ∉ stock.free := by
    intro mem
    rw [counted.spare record mem] at taken
    cases taken
  constructor
  case total => simp only [RecordStock.recycle, if_pos positive.ne']; omega
  case listed => simp only [RecordStock.recycle, List.length_cons]; omega
  case nodup => exact List.nodup_cons.2 ⟨unlisted, counted.nodup⟩
  case owned =>
    intro other mem
    rcases List.mem_cons.1 mem with rfl | mem
    · exact counted.numbered other taken
    · exact counted.owned other mem
  case spare =>
    intro other mem
    simp only [RecordStock.recycle, Function.update_apply]
    split_ifs with here
    · rfl
    · exact counted.spare other ((List.mem_cons.1 mem).resolve_left here)
  case numbered =>
    intro other still
    simp only [RecordStock.recycle, Function.update_apply] at still
    split_ifs at still
    exact counted.numbered other still

/-- Records that are taken are given back one after another. -/
theorem Counted.recycleAll {records : List Nat} (counted : Counted stock)
    (nodup : records.Nodup) (taken : ∀ record ∈ records, stock.taken record = true) :
    Counted (records.foldl RecordStock.recycle stock) := by
  induction records generalizing stock with
  | nil => exact counted
  | cons first rest inductionHypothesis =>
      obtain ⟨apart, restNodup⟩ := List.nodup_cons.1 nodup
      apply inductionHypothesis (counted.recycle (taken first List.mem_cons_self)) restNodup
      intro other mem
      have distinct : other ≠ first := by
        rintro rfl
        exact apart mem
      simp only [RecordStock.recycle, Function.update_of_ne distinct]
      exact taken other (List.mem_cons_of_mem _ mem)

theorem Counted.grow (counted : Counted stock) (additional : Nat) :
    Counted (stock.grow additional) := by
  have total := counted.total
  have listed := counted.listed
  have old : ∀ record ∈ stock.free, record < stock.capacity := counted.owned
  constructor
  case total => simp only [RecordStock.grow]; omega
  case listed =>
    simp only [RecordStock.grow, List.length_append, List.length_map, List.length_range]
    omega
  case nodup =>
    apply List.Nodup.append
    · exact List.nodup_range.map (add_right_injective stock.capacity)
    · exact counted.nodup
    · intro record created mem
      obtain ⟨index, _, rfl⟩ := List.mem_map.1 created
      have bound := old _ mem
      omega
  case owned =>
    intro record mem
    simp only [RecordStock.grow] at mem ⊢
    rcases List.mem_append.1 mem with created | mem
    · obtain ⟨index, bound, rfl⟩ := List.mem_map.1 created
      rw [List.mem_range] at bound
      omega
    · exact (old record mem).trans_le (Nat.le_add_right _ _)
  case spare =>
    intro record mem
    rcases List.mem_append.1 mem with created | mem
    · obtain ⟨index, _, rfl⟩ := List.mem_map.1 created
      by_contra taken
      rw [Bool.not_eq_false] at taken
      have bound := counted.numbered _ taken
      omega
    · exact counted.spare record mem
  case numbered =>
    intro record taken
    exact (counted.numbered record taken).trans_le (Nat.le_add_right _ _)

end Counted

end RecordStock

/-! ## A pool with its records -/

/-- A pool, its two stocks, and the sizes of the frontier's workspaces; a
workspace that is not there yet has size zero. -/
structure RecordedPool where
  pool : MemoryPool
  leaseRecords : RecordStock
  useRecords : RecordStock
  releaseFrontierCapacity : Nat
  releaseRangeCapacity : Nat

/-- `shadowspill_memory_pool_acquire_lease_record_locked`: the record is blank and
of a new generation. -/
def acquireLeaseRecord (heap : Bool) (state : RecordedPool) (generation : Nat) :
    Option Nat × RecordedPool :=
  match state.leaseRecords.acquire heap with
  | (none, stock) => (none, { state with leaseRecords := stock })
  | (some record, stock) =>
    (some record, { state with
      leaseRecords := stock
      pool := state.pool.update record fun _ => .blank generation })

/-- `memory_lease_record_is_recyclable`: `unreferenced` is what it asks of the
pointers, indexes and references that the pool does not follow. -/
def isRecyclable (state : RecordedPool) (record : Nat) (unreferenced : Bool) : Bool :=
  let lease := state.pool.leases record
  state.leaseRecords.taken record && !lease.registered && (lease.state == .free) &&
    lease.causalPredecessor.isNone && lease.causalSuccessor.isNone &&
    !(state.pool.rangeLeases.contains record) && unreferenced

/-- `shadowspill_memory_pool_try_recycle_lease_record_locked`. -/
def tryRecycleLeaseRecord (state : RecordedPool) (record : Nat) (unreferenced : Bool) :
    RecordedPool :=
  if isRecyclable state record unreferenced then
    { state with
      leaseRecords := state.leaseRecords.recycle record
      pool := state.pool.update record fun _ => .blank 0 }
  else state

/-- `shadowspill_memory_pool_acquire_use_record_locked`. -/
def acquireUseRecord (heap : Bool) (state : RecordedPool) : RecordedPool :=
  { state with useRecords := (state.useRecords.acquire heap).2 }

/-- `shadowspill_memory_pool_release_use_records_locked`: nothing is released while
one of the records has an event. -/
def releaseUseRecords (state : RecordedPool) (records : List Nat) (hasEvent : Nat → Bool) :
    Outcome × RecordedPool :=
  if records.any hasEvent then (.error .failed, state)
  else (.ok (), { state with
    useRecords := records.foldl RecordStock.recycle state.useRecords })

/-- The sizes of a pointer and of a `ShadowSpillRange`. -/
def pointerBytes : Nat := 8

def rangeBytes : Nat := 24

/-- How many records a stock lacks. -/
def additionalRecords (stock : RecordStock) (minimumFreeRecords : Nat) : Nat :=
  if stock.available < minimumFreeRecords then minimumFreeRecords - stock.available else 0

/-- `shadowspill_memory_pool_reserve_lease_records`, of a pool at rest; `heap` says
whether the process heap gives all that is asked of it. -/
def reserveLeaseRecords (heap : Bool) (state : RecordedPool) (minimumFreeRecords : Nat) :
    Status × RecordedPool :=
  if minimumFreeRecords = 0 then (.invalidArgument, state)
  else
    let additionalLeases := additionalRecords state.leaseRecords minimumFreeRecords
    let additionalUses := additionalRecords state.useRecords minimumFreeRecords
    let targetLeaseCapacity := state.leaseRecords.capacity + additionalLeases
    let targetRangeCapacity := 2 * targetLeaseCapacity + 2
    if additionalLeases > uint64Max - state.leaseRecords.capacity then
      (.internalFailure, state)
    else if targetLeaseCapacity > (uint64Max - 2) / 2 then (.internalFailure, state)
    else if targetLeaseCapacity > uint64Max / pointerBytes ∨
        targetRangeCapacity > uint64Max / rangeBytes then (.internalFailure, state)
    else
      let growFrontier := state.releaseFrontierCapacity < targetLeaseCapacity
      let growRanges := state.releaseRangeCapacity < targetRangeCapacity
      if additionalLeases = 0 ∧ additionalUses = 0 ∧ ¬ growFrontier ∧ ¬ growRanges then
        (.ok, state)
      else if ¬ heap then (.internalFailure, state)
      else
        (.ok, { state with
          leaseRecords := state.leaseRecords.grow additionalLeases
          useRecords := state.useRecords.grow additionalUses
          releaseFrontierCapacity :=
            if growFrontier then targetLeaseCapacity else state.releaseFrontierCapacity
          releaseRangeCapacity :=
            if growRanges then targetRangeCapacity else state.releaseRangeCapacity })

end ShadowSpill.Runtime.LeaseRecords
