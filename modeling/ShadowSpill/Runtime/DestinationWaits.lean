import ShadowSpill.Runtime.DestinationReservation

/-!
# Waiting for a destination

A refused attempt leaves the ranges and their owners as it finds them.  So it is known
before the attempt whether the question it asks is decided as the bytes it reserves
ask, and exactly there the waiting is exact.
-/

namespace ShadowSpill.Runtime.DestinationWaits

open Library.Word64 Ranges PoolLeases PoolInvariant PoolOperations ArenaPool PoolLayout
open WorkerState AdmissionReplay ReplayNodes ReleaseFrontier ReplayFrontier LeaseRecords
open ReleaseWorkspace RecordRuns DestinationReservation

/-! ## Pools with the same owners -/

/-- Two pools with the same ranges and the same records of their owners. -/
structure SameOwners (pool other : MemoryPool) : Prop where
  ranges : other.ranges = pool.ranges
  listed : other.rangeLeases = pool.rangeLeases
  alignment : other.minimumAlignment = pool.minimumAlignment
  records : ∀ lease ∈ pool.rangeLeases, other.leases lease = pool.leases lease

section Owners

variable {count bytes alignment nodes lease : Nat}
  {pool other last : MemoryPool} {order : List Nat}

theorem SameOwners.trans (first : SameOwners pool other) (second : SameOwners other last) :
    SameOwners pool last := by
  refine ⟨second.ranges.trans first.ranges, second.listed.trans first.listed,
    second.alignment.trans first.alignment, ?_⟩
  intro lease mem
  rw [second.records lease (by rw [first.listed]; exact mem)]
  exact first.records lease mem

/-- The record of no owner may change. -/
theorem sameOwners_update (unlisted : lease ∉ pool.rangeLeases) (change : Lease → Lease) :
    SameOwners pool (pool.update lease change) := by
  refine ⟨rfl, rfl, rfl, ?_⟩
  intro owner mem
  rw [update_leases, Function.update_of_ne]
  rintro rfl
  exact unlisted mem

theorem SameOwners.frontierCandidates (same : SameOwners pool other) :
    frontierCandidates other = frontierCandidates pool := by
  unfold AdmissionReplay.frontierCandidates
  rw [same.listed]
  apply List.filter_congr
  intro lease mem
  rw [same.records lease mem]

theorem SameOwners.frontierOrder (same : SameOwners pool other) :
    frontierOrder other = frontierOrder pool := by
  have mapped := List.map_insertionSort
    (fun first second => releasesBefore pool.leases first second = true)
    (fun first second => releasesBefore other.leases first second = true) id
    (AdmissionReplay.frontierCandidates pool) (by
      intro first firstMem second secondMem
      have firstSame := same.records first (List.mem_of_mem_filter firstMem)
      have secondSame := same.records second (List.mem_of_mem_filter secondMem)
      simp only [releasesBefore, id_eq, firstSame, secondSame])
  simp only [List.map_id] at mapped
  unfold AdmissionReplay.frontierOrder
  rw [same.frontierCandidates, mapped]

theorem SameOwners.underWay (same : SameOwners pool other) :
    underWay other = underWay pool := by
  unfold DestinationReservation.underWay
  rw [same.listed]
  apply List.filter_congr
  intro lease mem
  rw [same.records lease mem]

theorem SameOwners.reserve (same : SameOwners pool other) (heap : Bool) :
    reserve heap other bytes alignment .bestFitLow =
      reserve heap pool bytes alignment .bestFitLow := by
  unfold PoolLeases.reserve raised
  rw [same.ranges, same.alignment]

theorem SameOwners.shadows (same : SameOwners pool other)
    (pending : ∀ lease ∈ order, Pending pool lease) : Shadows pool other order := by
  refine ⟨same.ranges.symm, same.alignment.symm, ?_⟩
  intro lease mem
  have waits := pending lease mem
  have record := same.records lease waits.listed
  refine ⟨waits, ⟨?_, ?_, ?_, ?_⟩, by rw [record]⟩
  · rw [same.listed]
    exact waits.listed
  · rw [record]
    exact waits.owns
  · rw [record]
    exact waits.retiring
  · rw [record]
    exact waits.alone

/-! ## Releases of pools that shadow each other -/

theorem shadows_reserve {heap : Bool} (shadows : Shadows pool other order) :
    PoolLeases.reserve heap other bytes alignment .bestFitLow =
      PoolLeases.reserve heap pool bytes alignment .bestFitLow := by
  unfold PoolLeases.reserve raised
  rw [shadows.ranges, shadows.alignment]

/-- The releases of a shadowed pool admit what those of the other admit; the induction
is on the order of releases. -/
theorem shadows_admits (shadows : Shadows pool other order) (nodup : order.Nodup)
    (kept : HeapPool count pool) (otherKept : HeapPool count other) :
    Admits true other order bytes alignment .bestFitLow ↔
      Admits true pool order bytes alignment .bestFitLow := by
  induction order generalizing pool other with
  | nil => rw [admits_nil, admits_nil, shadows_reserve shadows]
  | cons lease rest inductionHypothesis =>
      obtain ⟨apart, restNodup⟩ := List.nodup_cons.1 nodup
      obtain ⟨waits, otherWaits, _⟩ := shadows.pending lease List.mem_cons_self
      obtain ⟨after, release, released⟩ := releaseLease_pending kept waits
      obtain ⟨otherAfter, otherRelease, otherReleased⟩ :=
        releaseLease_pending otherKept otherWaits
      rw [admits_cons release, admits_cons otherRelease]
      exact inductionHypothesis (shadows.released apart released otherReleased) restNodup
        released.kept otherReleased.kept

/-- They have room in the same workspaces; the induction is on the order of releases. -/
theorem shadows_roomy (shadows : Shadows pool other order) (nodup : order.Nodup)
    (kept : HeapPool count pool) (otherKept : HeapPool count other) :
    Roomy nodes other order bytes alignment ↔ Roomy nodes pool order bytes alignment := by
  induction order generalizing pool other with
  | nil => exact ⟨fun _ => roomy_nil, fun _ => roomy_nil⟩
  | cons lease rest inductionHypothesis =>
      obtain ⟨apart, restNodup⟩ := List.nodup_cons.1 nodup
      obtain ⟨waits, otherWaits, _⟩ := shadows.pending lease List.mem_cons_self
      obtain ⟨after, release, released⟩ := releaseLease_pending kept waits
      obtain ⟨otherAfter, otherRelease, otherReleased⟩ :=
        releaseLease_pending otherKept otherWaits
      have later := shadows.released apart released otherReleased
      rw [roomy_cons release, roomy_cons otherRelease, admits_nil, admits_nil,
        shadows_reserve later, shadows.ranges,
        inductionHypothesis later restNodup released.kept otherReleased.kept]

theorem underWay_pending (kept : HeapPool count pool) :
    (∀ lease ∈ underWay pool, Pending pool lease) ∧ (underWay pool).Nodup := by
  refine ⟨?_, kept.nodup.filter _⟩
  intro lease mem
  obtain ⟨listed, retires⟩ := List.mem_filter.1 mem
  simp only [Bool.and_eq_true, beq_iff_eq, Option.isNone_iff_eq_none] at retires
  exact ⟨listed, retires.1.1, retires.1.2, retires.2⟩

theorem SameOwners.wouldMakeRoom (same : SameOwners pool other) (kept : HeapPool count pool)
    (otherKept : HeapPool count other) :
    WouldMakeRoom other bytes ↔ WouldMakeRoom pool bytes := by
  obtain ⟨pending, nodup⟩ := underWay_pending kept
  unfold WouldMakeRoom
  rw [same.underWay, same.alignment]
  exact shadows_admits (same.shadows pending) nodup kept otherKept

theorem SameOwners.makesRoom (same : SameOwners pool other) (kept : HeapPool count pool)
    (otherKept : HeapPool count other) :
    MakesRoom other bytes alignment ↔ MakesRoom pool bytes alignment := by
  obtain ⟨pending, nodup⟩ := frontierOrder_pending kept
  unfold MakesRoom
  rw [same.frontierOrder]
  have alike := fun length =>
    @shadows_admits count bytes alignment pool other
      ((AdmissionReplay.frontierOrder pool).take length)
      (same.shadows fun lease mem => pending lease (List.mem_of_mem_take mem))
      (nodup.sublist (List.take_sublist _ _)) kept otherKept
  simp only [alike]

theorem SameOwners.workspacesSuffice {frontierCapacity rangeCapacity : Nat}
    (same : SameOwners pool other) (kept : HeapPool count pool)
    (otherKept : HeapPool count other) :
    WorkspacesSuffice frontierCapacity rangeCapacity other bytes alignment ↔
      WorkspacesSuffice frontierCapacity rangeCapacity pool bytes alignment := by
  obtain ⟨pending, nodup⟩ := frontierOrder_pending kept
  unfold WorkspacesSuffice
  rw [same.frontierOrder, same.frontierCandidates,
    shadows_roomy (same.shadows pending) nodup kept otherKept]

end Owners

/-! ## Records for an attempt -/

/-- Nothing that the question asks about has changed. -/
structure Unmoved (state after : RecordedPool) : Prop where
  frontierCapacity : after.releaseFrontierCapacity = state.releaseFrontierCapacity
  rangeCapacity : after.releaseRangeCapacity = state.releaseRangeCapacity
  owners : SameOwners state.pool after.pool

/-- A blank record was taken for a lease. -/
structure Acquired (state : RecordedPool) (record : Nat) (after : RecordedPool) : Prop where
  recorded : Recorded after
  taken : after.leaseRecords.taken record = true
  unlisted : record ∉ state.pool.rangeLeases
  blank : ∃ generation, after.pool = state.pool.update record fun _ => .blank generation
  frontierCapacity : after.releaseFrontierCapacity = state.releaseFrontierCapacity
  rangeCapacity : after.releaseRangeCapacity = state.releaseRangeCapacity

section Attempts

variable {heap latched : Bool} {layout : FixedLayout} {state after : RecordedPool}
  {generation record bytes : Nat} {action : DestinationAction}

theorem Unmoved.trans {last : RecordedPool} (first : Unmoved state after)
    (second : Unmoved after last) : Unmoved state last :=
  ⟨second.frontierCapacity.trans first.frontierCapacity,
    second.rangeCapacity.trans first.rangeCapacity, first.owners.trans second.owners⟩

theorem Recorded.unlisted (recorded : Recorded state)
    (unregistered : (state.pool.leases record).registered = false) :
    record ∉ state.pool.rangeLeases := by
  intro mem
  rw [((recorded.heapPool.listed record).1 mem).1] at unregistered
  cases unregistered

/-- A record is acquired wherever there is a free one or the heap gives one. -/
theorem acquireLeaseRecord_cases (recorded : Recorded state) (heap : Bool)
    (generation : Nat) :
    ((heap = true ∨ state.leaseRecords.free ≠ []) ∧ ∃ record after,
        acquireLeaseRecord heap state generation = (some record, after) ∧
          Acquired state record after) ∨
      ¬ (heap = true ∨ state.leaseRecords.free ≠ []) ∧
        (acquireLeaseRecord heap state generation).1 = none := by
  cases result : acquireLeaseRecord heap state generation with
  | mk acquired after =>
      cases acquired with
      | some record =>
          left
          obtain ⟨kept, taken⟩ := acquireLeaseRecord_taken recorded result
          unfold acquireLeaseRecord at result
          split at result
          case h_1 => cases result
          case h_2 found stock got =>
            cases result
            obtain ⟨spare, _⟩ := recorded.leases.acquire_some got
            refine ⟨?_, record, _, rfl, kept, taken,
              Recorded.unlisted recorded (recorded.unregistered spare), ⟨generation, rfl⟩, rfl,
              rfl⟩
            unfold RecordStock.acquire at got
            split at got
            case h_1 first rest free =>
              right
              rw [free]
              exact List.cons_ne_nil first rest
            case h_2 =>
              split_ifs at got with given
              · exact Or.inl given
              · cases got
      | none =>
          right
          refine ⟨?_, rfl⟩
          unfold acquireLeaseRecord at result
          split at result
          case h_1 stock got =>
            unfold RecordStock.acquire at got
            split at got
            case h_1 => cases got
            case h_2 none =>
              split_ifs at got with given
              · cases got
              · simp [none, given]
          case h_2 => cases result

theorem Acquired.unmoved (acquired : Acquired state record after) : Unmoved state after := by
  obtain ⟨generation, pool⟩ := acquired.blank
  refine ⟨acquired.frontierCapacity, acquired.rangeCapacity, ?_⟩
  rw [pool]
  exact sameOwners_update acquired.unlisted _

/-- A record taken in vain goes back to the free list. -/
theorem Acquired.giveBack (acquired : Acquired state record after) (status : ReserveStatus) :
    Unmoved state (giveBack status after record).state ∧
      (DestinationReservation.giveBack status after record).state.leaseRecords.free ≠ [] := by
  obtain ⟨generation, pool⟩ := acquired.blank
  have recyclable : isRecyclable after record true = true := by
    have unlisted := acquired.unlisted
    simp only [isRecyclable, acquired.taken, pool, update_leases, Function.update_self,
      Lease.blank, update_rangeLeases, List.contains_eq_mem]
    simpa using unlisted
  have same := acquired.unmoved
  have blanked := @sameOwners_update record after.pool
    (by rw [same.owners.listed]; exact acquired.unlisted) fun _ => .blank 0
  unfold DestinationReservation.giveBack tryRecycleLeaseRecord
  rw [if_pos recyclable]
  exact ⟨⟨same.frontierCapacity, same.rangeCapacity, same.owners.trans blanked⟩,
    List.cons_ne_nil _ _⟩

/-- A reservation for a blank record is refused as the ranges refuse it, and is granted
otherwise. -/
theorem Acquired.reserveLease (acquired : Acquired state record after)
    (word : bytes < modulus) (heap : Bool) :
    (∀ refusal, reserve heap state.pool (charged bytes) state.pool.minimumAlignment
        .bestFitLow = .error refusal →
      PoolLeases.reserveLease heap after.pool record bytes after.pool.minimumAlignment
        .bestFitLow = (.error refusal, after.pool)) ∧
    (∀ granted, reserve heap state.pool (charged bytes) state.pool.minimumAlignment
        .bestFitLow = .ok granted →
      ∃ pool, PoolLeases.reserveLease heap after.pool record bytes
        after.pool.minimumAlignment .bestFitLow = (.ok (), pool)) := by
  obtain ⟨generation, blank⟩ := acquired.blank
  have free : (after.pool.leases record).state = .free := by
    rw [blank, update_leases, Function.update_self]
    rfl
  have level : raised after.pool after.pool.minimumAlignment =
      state.pool.minimumAlignment := by
    rw [raised, if_neg (Nat.lt_irrefl _), acquired.unmoved.owners.alignment]
  have same := @SameOwners.reserve (charged bytes) state.pool.minimumAlignment _ _
    acquired.unmoved.owners heap
  constructor
  · intro refusal refused
    apply reserveLease_refused free
    rw [level, same, refused]
  · rintro ⟨offset, ranges⟩ granted
    have served : reserve heap after.pool (charged bytes)
        (raised after.pool after.pool.minimumAlignment) .bestFitLow = .ok (offset, ranges) := by
      rw [level, same, granted]
    have laidOut := acquired.recorded.heapPool.toLaidOut
    obtain ⟨_, counted, result⟩ := reserve_adopted laidOut.consistent word
      (show ((recounted _ after.pool).leases record).state = .free from free)
      (show reserve heap (recounted after.leaseRecords.capacity after.pool) (charged bytes)
        (raised (recounted _ after.pool) after.pool.minimumAlignment) .bestFitLow = _
        from served)
    have adopts := @adoptLease_recounted after.leaseRecords.capacity record after.pool ranges
      bytes (raised after.pool after.pool.minimumAlignment) offset true
    rw [show adoptLease { recounted _ after.pool with ranges := ranges } record bytes
      (raised after.pool after.pool.minimumAlignment) offset true = some counted from
        result] at adopts
    cases adopted : adoptLease { after.pool with ranges := ranges } record bytes
        (raised after.pool after.pool.minimumAlignment) offset true with
    | none =>
        rw [adopted] at adopts
        cases adopts
    | some taken => exact ⟨taken, reserveLease_granted free served adopted⟩

/-- No owner may promise its range to a lease of so many bytes. -/
def NoneToClaim (pool : MemoryPool) (bytes : Nat) : Prop :=
  ∀ lease ∈ pool.rangeLeases,
    isCausalCandidate bytes pool.minimumAlignment (pool.leases lease) = false

/-- The scan starts from no one, and finds no one exactly where there is no one. -/
theorem selectCausal_eq_none {leases : Nat → Lease} {alignment : Nat} {listed : List Nat} :
    selectCausal leases bytes alignment none listed = none ↔
      ∀ lease ∈ listed, isCausalCandidate bytes alignment (leases lease) = false := by
  have found : ∀ (rest : List Nat) (start : Nat),
      selectCausal leases bytes alignment (some start) rest ≠ none := by
    intro rest
    induction rest with
    | nil => exact fun start => Option.some_ne_none start
    | cons candidate rest inductionHypothesis =>
        intro start
        unfold selectCausal
        simp only
        split_ifs
        · exact inductionHypothesis candidate
        · exact inductionHypothesis start
  induction listed with
  | nil => simp [selectCausal]
  | cons candidate rest inductionHypothesis =>
      unfold selectCausal
      cases fits : isCausalCandidate bytes alignment (leases candidate) with
      | true => simp [fits, found]
      | false => simp [fits, inductionHypothesis]

theorem SameOwners.noneToClaim {pool other : MemoryPool} (same : SameOwners pool other) :
    NoneToClaim other bytes ↔ NoneToClaim pool bytes := by
  unfold NoneToClaim
  rw [same.listed, same.alignment]
  constructor
  · intro none lease mem
    rw [← same.records lease mem]
    exact none lease mem
  · intro none lease mem
    rw [same.records lease mem]
    exact none lease mem

/-- A blank record claims the range of a predecessor wherever there is one to claim. -/
theorem Acquired.reserveCausalSuccessor (acquired : Acquired state record after)
    (positive : 0 < bytes) :
    (NoneToClaim state.pool bytes → PoolLeases.reserveCausalSuccessor after.pool record bytes
        after.pool.minimumAlignment = (.error .unavailable, after.pool)) ∧
      (¬ NoneToClaim state.pool bytes → ∃ pool, PoolLeases.reserveCausalSuccessor after.pool
        record bytes after.pool.minimumAlignment = (.ok (), pool)) := by
  obtain ⟨generation, blank⟩ := acquired.blank
  have free : after.pool.leases record = .blank generation := by
    rw [blank, update_leases, Function.update_self]
  have usable : ¬ ((after.pool.leases record).registered = true ∨
      (after.pool.leases record).state ≠ .free ∨ bytes = 0) := by
    simp [free, Lease.blank, positive.ne']
  have level : raised after.pool after.pool.minimumAlignment = after.pool.minimumAlignment :=
    if_neg (Nat.lt_irrefl _)
  have chosen := @selectCausal_eq_none bytes after.pool.leases after.pool.minimumAlignment
    after.pool.rangeLeases
  rw [show (∀ lease ∈ after.pool.rangeLeases, _) ↔ _ from
    acquired.unmoved.owners.noneToClaim] at chosen
  unfold PoolLeases.reserveCausalSuccessor
  rw [if_neg usable, level]
  constructor
  · intro none
    rw [chosen.2 none]
  · intro some_
    cases selected : selectCausal after.pool.leases bytes after.pool.minimumAlignment none
        after.pool.rangeLeases with
    | none => exact absurd (chosen.1 selected) some_
    | some lease => exact ⟨_, rfl⟩

/-! ## Refused attempts -/

/-- The lease of a spill destination is refused where the ranges refuse it and no
predecessor can be claimed. -/
theorem createSpillLease_refused (recorded : Recorded state) (word : bytes < modulus) :
    ((createSpillLease heap state generation bytes).status = .outOfMemory ↔
      (heap = true ∨ state.leaseRecords.free ≠ []) ∧ 0 < bytes ∧
        (∃ refusal, reserve heap state.pool bytes state.pool.minimumAlignment .bestFitLow =
          .error refusal) ∧ NoneToClaim state.pool bytes) ∧
    ((createSpillLease heap state generation bytes).status = .outOfMemory →
      Unmoved state (createSpillLease heap state generation bytes).state) := by
  rcases acquireLeaseRecord_cases recorded heap generation with
    ⟨spare, record, after, result, acquired⟩ | ⟨full, result⟩
  · unfold createSpillLease
    rw [result]
    obtain ⟨refused, granted⟩ := @Acquired.reserveLease _ _ _ bytes acquired word heap
    rcases Nat.eq_zero_or_pos bytes with rfl | positive
    · have never : PoolLeases.reserveCausalSuccessor after.pool record 0
          after.pool.minimumAlignment = (.error .failed, after.pool) :=
        if_pos (Or.inr (Or.inr rfl))
      cases served : reserve heap state.pool (charged 0) state.pool.minimumAlignment
          .bestFitLow with
      | ok lease =>
          obtain ⟨pool, reserved⟩ := granted lease served
          simp [reserved]
      | error refusal =>
          simp [refused refusal served, never, DestinationReservation.giveBack, refusalStatus]
    · have charge : charged bytes = bytes := if_neg positive.ne'
      rw [charge] at refused granted
      obtain ⟨unclaimed, claimed⟩ := acquired.reserveCausalSuccessor positive
      cases served : reserve heap state.pool bytes state.pool.minimumAlignment
          .bestFitLow with
      | ok lease =>
          obtain ⟨pool, reserved⟩ := granted lease served
          simp [reserved]
      | error refusal =>
          simp only [refused refusal served]
          by_cases none : NoneToClaim state.pool bytes
          · have unmoved := (acquired.giveBack .outOfMemory).1
            simp only [unclaimed none, refusalStatus]
            exact ⟨⟨fun _ => ⟨spare, positive, ⟨refusal, rfl⟩, none⟩, fun _ => rfl⟩,
              fun _ => unmoved⟩
          · obtain ⟨pool, successor⟩ := claimed none
            simp [successor, none]
  · unfold createSpillLease
    cases taken : acquireLeaseRecord heap state generation with
    | mk record after =>
        rw [taken] at result
        simp only at result
        subst result
        simp [full]

/-- A range of its own is refused where the ranges refuse it. -/
theorem createLease_refused (recorded : Recorded state) (word : bytes < modulus) :
    ((createLease heap latched state generation bytes).status = .outOfMemory ↔
      (heap = true ∨ state.leaseRecords.free ≠ []) ∧
        reserve heap state.pool (charged bytes) state.pool.minimumAlignment .bestFitLow =
          .error .unavailable) ∧
    ((createLease heap latched state generation bytes).status = .outOfMemory →
      Unmoved state (createLease heap latched state generation bytes).state ∧
        (createLease heap latched state generation bytes).state.leaseRecords.free ≠ []) := by
  rcases acquireLeaseRecord_cases recorded heap generation with
    ⟨spare, record, after, result, acquired⟩ | ⟨full, result⟩
  · unfold createLease
    rw [result]
    obtain ⟨refused, granted⟩ := @Acquired.reserveLease _ _ _ bytes acquired word heap
    cases served : reserve heap state.pool (charged bytes) state.pool.minimumAlignment
        .bestFitLow with
    | ok lease =>
        obtain ⟨pool, reserved⟩ := granted lease served
        simp only [reserved, ownAndPublishLease]
        cases latched <;> simp [DestinationReservation.giveBack]
    | error refusal =>
        have kept := acquired.giveBack (refusalStatus refusal)
        simp only [refused refusal served]
        cases refusal with
        | unavailable => exact ⟨⟨fun _ => ⟨spare, rfl⟩, fun _ => rfl⟩, fun _ => kept⟩
        | failed => simp [DestinationReservation.giveBack, refusalStatus]
  · unfold createLease
    cases taken : acquireLeaseRecord heap state generation with
    | mk record after =>
        rw [taken] at result
        simp only at result
        subst result
        simp [full]

/-- The range of a predecessor is refused where there is none to claim. -/
theorem createSuccessorLease_refused (recorded : Recorded state)
    (spare : heap = true ∨ state.leaseRecords.free ≠ []) :
    ((createSuccessorLease heap state generation bytes).status = .outOfMemory ↔
      0 < bytes ∧ NoneToClaim state.pool bytes) ∧
    ((createSuccessorLease heap state generation bytes).status = .outOfMemory →
      Unmoved state (createSuccessorLease heap state generation bytes).state) := by
  unfold createSuccessorLease
  rcases Nat.eq_zero_or_pos bytes with rfl | positive
  · simp
  · rw [if_neg positive.ne']
    rcases acquireLeaseRecord_cases recorded heap generation with
      ⟨_, record, after, result, acquired⟩ | ⟨full, _⟩
    · rw [result]
      obtain ⟨unclaimed, claimed⟩ := acquired.reserveCausalSuccessor positive
      by_cases none : NoneToClaim state.pool bytes
      · have unmoved := (acquired.giveBack .outOfMemory).1
        simp only [unclaimed none, refusalStatus]
        exact ⟨⟨fun _ => ⟨positive, none⟩, fun _ => rfl⟩, fun _ => unmoved⟩
      · obtain ⟨pool, successor⟩ := claimed none
        simp [successor, none]
    · exact absurd spare full

/-- A fixed placement is never refused for want of room. -/
theorem createFixedExecutionLease_status (placement : FixedPlacement) :
    (createFixedExecutionLease heap latched layout state generation placement).status ≠
      .outOfMemory := by
  unfold createFixedExecutionLease
  split
  · exact nofun
  · rename_i record after _
    have adopted : (adoptExecutionLease layout after record placement).1 ≠ .outOfMemory := by
      unfold adoptExecutionLease
      simp only
      split_ifs
      · exact nofun
      · exact nofun
      · exact nofun
      · split <;> exact nofun
    split
    · unfold ownAndPublishLease
      split_ifs <;> exact nofun
    · rename_i status unchanged _ refused
      rw [refused] at adopted
      exact adopted

/-- The pool as it is cannot serve the attempt: its destination is not fixed, there is a
record for it, the ranges refuse its bytes, and no predecessor can be claimed. -/
structure Unserved (heap : Bool) (layout : FixedLayout) (state : RecordedPool)
    (action : DestinationAction) : Prop where
  floating : action.kind = .fetch → action.admitted = true →
    action.fixed = none ∧ (layout.isSealed = true → action.dynamic = true)
  spare : heap = true ∨ state.leaseRecords.free ≠ []
  positive : 0 < reservedBytes action
  full : ∃ refusal, reserve heap state.pool (reservedBytes action) state.pool.minimumAlignment
    .bestFitLow = .error refusal ∧ (action.kind = .fetch → refusal = .unavailable)
  unclaimed : NoneToClaim state.pool (reservedBytes action)

theorem markDestination_outOfMemory (attempt : Attempt) :
    ((markDestination attempt).status = .outOfMemory ↔ attempt.status = .outOfMemory) ∧
      (attempt.status = .outOfMemory → (markDestination attempt).state = attempt.state) := by
  obtain ⟨status, lease, state⟩ := attempt
  cases status with
  | ok =>
      unfold markDestination
      cases lease with
      | none => exact ⟨Iff.rfl, fun _ => rfl⟩
      | some record =>
          simp only [reduceCtorEq, false_implies, and_true, iff_false]
          split_ifs
          · exact nofun
          · split <;> exact nofun
  | _ => exact ⟨Iff.rfl, fun _ => rfl⟩

theorem createFetchLease_refused (recorded : Recorded state) (fetch : action.kind = .fetch) :
    ((createFetchLease heap latched layout state generation action).status = .outOfMemory ↔
      Unserved heap layout state action) ∧
    ((createFetchLease heap latched layout state generation action).status = .outOfMemory →
      Unmoved state (createFetchLease heap latched layout state generation action).state) := by
  have size : reservedBytes action = action.object.sizeBytes := if_pos fetch
  obtain ⟨firstRefused, firstMoved⟩ := @createLease_refused heap latched state generation _
    recorded action.object.size_word
  have first := @createLease_recorded heap latched state generation _ recorded
    action.object.size_word
  by_cases floating : action.admitted = true →
      action.fixed = none ∧ (layout.isSealed = true → action.dynamic = true)
  · have unfixed : (if action.admitted = true then action.fixed else none) = none := by
      split_ifs with admitted
      · exact (floating admitted).1
      · rfl
    have admissible : ¬ (action.admitted = true ∧ layout.isSealed = true ∧
        (none : Option FixedPlacement).isNone = true ∧
        ¬ (action.admitted && (none : Option FixedPlacement).isNone && action.dynamic) = true) := by
      rintro ⟨admitted, isSealed, _, static⟩
      exact static (by simp [admitted, (floating admitted).2 isSealed])
    unfold createFetchLease
    simp only [unfixed]
    rw [if_neg admissible]
    generalize createLease heap latched state generation action.object.sizeBytes = created
      at firstRefused firstMoved first
    split_ifs with refused
    · obtain ⟨moved, free⟩ := firstMoved refused
      obtain ⟨secondRefused, secondMoved⟩ := @createSuccessorLease_refused heap created.state
        (generation + 1) action.object.sizeBytes first (Or.inr free)
      obtain ⟨spare, full⟩ := firstRefused.1 refused
      refine ⟨secondRefused.trans ?_, fun again => moved.trans (secondMoved again)⟩
      rw [moved.owners.noneToClaim]
      constructor
      · rintro ⟨positive, none⟩
        rw [show charged action.object.sizeBytes = _ from if_neg positive.ne'] at full
        refine ⟨fun _ => floating, spare, ?_, ⟨_, ?_, fun _ => rfl⟩, ?_⟩
        · rwa [size]
        · rwa [size]
        · rwa [size]
      · rintro ⟨_, _, positive, _, none⟩
        rw [size] at positive none
        exact ⟨positive, none⟩
    · refine ⟨⟨fun oom => absurd oom refused, ?_⟩, fun oom => absurd oom refused⟩
      rintro ⟨_, spare, positive, ⟨refusal, full, unavailable⟩, _⟩
      rw [size, unavailable fetch] at full
      rw [size] at positive
      rw [firstRefused, show charged action.object.sizeBytes = _ from if_neg positive.ne'] at refused
      exact absurd ⟨spare, full⟩ refused
  · have served : (createFetchLease heap latched layout state generation action).status ≠
        .outOfMemory := by
      unfold createFetchLease
      push Not at floating
      obtain ⟨admitted, pinned⟩ := floating
      simp only [admitted, if_true, Bool.true_and, true_and]
      cases fixed : action.fixed with
      | some placement =>
          simp only [Option.isNone_some, Bool.false_eq_true, false_and, and_false, if_false]
          exact createFixedExecutionLease_status placement
      | none =>
          obtain ⟨isSealed, static⟩ := pinned fixed
          simp [isSealed, static]
    refine ⟨⟨fun oom => absurd oom served, fun unserved => ?_⟩, fun oom => absurd oom served⟩
    exact absurd (unserved.floating fetch) floating

/-- An attempt is refused as out of memory exactly where the pool cannot serve it, and
then leaves the pool's owners as they were. -/
theorem tryReserve_refused (recorded : Recorded state) (action : DestinationAction) :
    ((tryReserveActionDestination heap latched layout state generation action).status =
        .outOfMemory ↔
      Unserved heap layout state action) ∧
    ((tryReserveActionDestination heap latched layout state generation action).status =
        .outOfMemory →
      Unmoved state (tryReserveActionDestination heap latched layout state generation
        action).state) := by
  unfold tryReserveActionDestination
  obtain ⟨status, unmarked⟩ := markDestination_outOfMemory
    (if action.kind = .fetch then createFetchLease heap latched layout state generation action
      else createSpillLease heap state generation (spillBytes action.object))
  rw [status]
  by_cases fetch : action.kind = .fetch
  · rw [if_pos fetch] at unmarked ⊢
    obtain ⟨refused, moved⟩ := @createFetchLease_refused heap latched layout state generation
      action recorded fetch
    refine ⟨refused, fun oom => ?_⟩
    rw [unmarked oom]
    exact moved oom
  · rw [if_neg fetch] at unmarked ⊢
    have size : reservedBytes action = spillBytes action.object := if_neg fetch
    obtain ⟨refused, moved⟩ := @createSpillLease_refused heap state generation _ recorded
      (spillBytes_word action.object)
    refine ⟨refused.trans ?_, fun oom => ?_⟩
    · rw [← size]
      constructor
      · rintro ⟨spare, positive, ⟨refusal, full⟩, none⟩
        exact ⟨fun spill => absurd spill fetch, spare, positive,
          ⟨refusal, full, fun spill => absurd spill fetch⟩, none⟩
      · rintro ⟨_, spare, positive, ⟨refusal, full, _⟩, none⟩
        exact ⟨spare, positive, ⟨refusal, full⟩, none⟩
    · rw [unmarked oom]
      exact moved oom

theorem Unmoved.decidedAlike (moved : Unmoved state after) (recorded : Recorded state)
    (kept : Recorded after) (action : DestinationAction) :
    DecidedAlike action after ↔ DecidedAlike action state := by
  obtain ⟨frontierCapacity, rangeCapacity, owners⟩ := moved
  have before := HeapPool.mono recorded.heapPool
    (le_max_left state.leaseRecords.capacity after.leaseRecords.capacity)
  have later := HeapPool.mono kept.heapPool
    (le_max_right state.leaseRecords.capacity after.leaseRecords.capacity)
  have suffice := @SameOwners.workspacesSuffice _ action.object.sizeBytes
    state.pool.minimumAlignment _ _ state.releaseFrontierCapacity state.releaseRangeCapacity
    owners before later
  have room := @SameOwners.makesRoom _ action.object.sizeBytes state.pool.minimumAlignment _ _
    owners before later
  have would := @SameOwners.wouldMakeRoom _ (reservedBytes action) _ _ owners before later
  constructor
  · rintro ⟨positive, sufficient, alike⟩
    rw [frontierCapacity, rangeCapacity, owners.alignment, suffice] at sufficient
    rw [owners.alignment, room, would] at alike
    exact ⟨positive, sufficient, alike⟩
  · rintro ⟨positive, sufficient, alike⟩
    constructor
    · exact positive
    · rw [frontierCapacity, rangeCapacity, owners.alignment, suffice]
      exact sufficient
    · rw [owners.alignment, room, would]
      exact alike

end Attempts

/-! ## Runs -/

/-- In every state of every run the waiting of an attempt is exact if and only if, should
the pool not serve it, the question is decided as the bytes it reserves ask. -/
theorem waiting_exact_iff {first state : RecordedPool} (new : NewRecorded first)
    (run : Relation.ReflTransGen RecordStep first state) (heap latched : Bool)
    (layout : FixedLayout) (generation : Nat) (action : DestinationAction) :
    ExactWait action (tryReserveActionDestination heap latched layout state generation action) ↔
      (Unserved heap layout state action → DecidedAlike action state) := by
  have recorded := recorded_of_run new run
  have kept := @tryReserveActionDestination_recorded heap latched layout state generation
    recorded action
  obtain ⟨refused, moved⟩ := @tryReserve_refused heap latched layout state generation recorded
    action
  rw [exactWait_iff kept]
  constructor
  · intro alike unserved
    have oom := refused.2 unserved
    exact ((moved oom).decidedAlike recorded kept action).1 (alike oom)
  · intro alike oom
    exact ((moved oom).decidedAlike recorded kept action).2 (alike (refused.1 oom))

/-- No fixed layout is active. -/
def noLayout : FixedLayout := ⟨false, false, false, 0, 0⟩

/-- An object of three bytes is fetched. -/
def fetchThree : DestinationAction where
  kind := .fetch
  object := ⟨3, none, by decide, nofun⟩
  admitted := false
  fixed := none
  dynamic := false

/-- The fetch waits for both of two releases. -/
theorem waiting_exact_fetch :
    ExactWait fetchThree
        (tryReserveActionDestination true false noLayout (retireOver 2) 3 fetchThree) ∧
      turnOf fetchThree
        (tryReserveActionDestination true false noLayout (retireOver 2) 3 fetchThree) =
          .waits := by
  have run := retireOver_two.lift id fun _ _ => ReservedStep.step
  have kept := (recorded_of_run unreserved_new run).heapPool
  have suffice := @suffice_of_records _ (retireOver 2).releaseFrontierCapacity
    (retireOver 2).releaseRangeCapacity 3 1 (retireOver 2).pool kept (by decide) (by decide)
    (by decide)
  have exactly := (waiting_exact_iff unreserved_new run true false noLayout 3 fetchThree).2
    fun _ => ⟨by decide, suffice, fun _ => ⟨_, rfl, _, rfl⟩,
      fun _ => ⟨2, by decide, by decide, _, rfl, _, rfl⟩⟩
  exact ⟨exactly, by decide⟩

/-- An object of one byte, whose spill image has three, is evicted. -/
def evictThree : DestinationAction where
  kind := .evict
  object := ⟨1, some 3, by decide, by decide⟩
  admitted := false
  fixed := none
  dynamic := false

/-- Of two leases of two bytes one retires. -/
def oneRetires : List RecordOperation :=
  [.reserveLeaseRecords 3,
    .acquireLeaseRecord 1, .call (.reserveLease 0 2 1 .bestFitLow),
    .acquireLeaseRecord 2, .call (.reserveLease 1 2 1 .bestFitLow),
    .call (.beginRetirement 1 (some 7) false)]

/-- The eviction waits for the two bytes that retire, and never gets three. -/
theorem waits_for_less :
    ∃ state, Relation.ReflTransGen RecordStep unreserved state ∧
      turnOf evictThree
        (tryReserveActionDestination true false noLayout state 3 evictThree) = .waits ∧
      ¬ ExactWait evictThree
        (tryReserveActionDestination true false noLayout state 3 evictThree) := by
  have taken : ∀ {lease : Nat} {stock : RecordStock}, stock.taken lease = true →
      ∀ record, some lease = some record → stock.taken record = true := by
    rintro lease stock taken record ⟨⟩
    exact taken
  refine ⟨oneRetires.foldl (performRecord true) unreserved, ?_, ?_, ?_⟩
  · exact reached_of_allProper ⟨trivial, trivial, ⟨⟨by decide, by decide⟩, taken rfl⟩,
      trivial, ⟨⟨by decide, by decide⟩, taken rfl⟩, ⟨trivial, nofun⟩, trivial⟩
  · decide
  · intro exactly
    obtain ⟨_, after, released, granted, served⟩ := exactly.waits.1 (by decide)
    cases released
    cases served

end ShadowSpill.Runtime.DestinationWaits
