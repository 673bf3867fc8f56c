import ShadowSpill.Runtime.CapacityEpoch
import ShadowSpill.Runtime.WorkerState

/-!
# Reserving a destination

A fetch, an eviction or a write-back reserves its destination before it is queued.
Refused by the pool as it is, it asks whether the releases under way would make room,
and waits for them or gives up.  What it asks about is the object's execution size, and
of the releases only those with one dependency.
-/

namespace ShadowSpill.Runtime.DestinationReservation

open Library.Word64 Ranges PoolLeases PoolRuns PoolLayout WorkerState AdmissionReplay
open ReleaseFrontier ReplayFrontier LeaseRecords ReleaseWorkspace RecordRuns CapacityEpoch

/-! ## What is reserved -/

/-- `ShadowSpillObject`, as far as its sizes go; both are words. -/
structure ObjectSizes where
  sizeBytes : Nat
  /-- `transfer.spill_size_bytes`, where `has_transfer` is set. -/
  transferSpillBytes : Option Nat
  size_word : sizeBytes < modulus
  transfer_word : ∀ bytes ∈ transferSpillBytes, bytes < modulus

/-- `shadowspill_object_spill_bytes`. -/
def spillBytes (object : ObjectSizes) : Nat :=
  object.transferSpillBytes.getD object.sizeBytes

/-- `ShadowSpillFixedPlacementDescription`, as far as its range goes. -/
structure FixedPlacement where
  offset : Nat
  bytes : Nat
  alignmentBytes : Nat

/-- `ShadowSpillFixedLayout`, as far as a placement asks it. -/
structure FixedLayout where
  active : Bool
  isSealed : Bool
  lent : Bool
  sliceOffset : Nat
  sliceBytes : Nat

/-- `ShadowSpillQueuedAction`, as far as its destination goes, with what the layout holds
for it: a fixed placement or a dynamic one. -/
structure DestinationAction where
  kind : ActionKind
  object : ObjectSizes
  admitted : Bool
  fixed : Option FixedPlacement
  dynamic : Bool

/-- The bytes that the action reserves in its destination pool. -/
def reservedBytes (action : DestinationAction) : Nat :=
  if action.kind = .fetch then action.object.sizeBytes else spillBytes action.object

/-- What an attempt reports; `latched` is a failure of the runtime. -/
inductive ReserveStatus where
  | ok
  | outOfMemory
  | planViolation
  | invalidArgument
  | invalidState
  | internalFailure
  | latched
deriving DecidableEq, Repr

/-- A refusal of the pool, as a status. -/
def refusalStatus : Refusal → ReserveStatus
  | .unavailable => .outOfMemory
  | .failed => .internalFailure

/-! ## The attempt -/

/-- A status, the lease that was made, and the pool. -/
structure Attempt where
  status : ReserveStatus
  lease : Option Nat
  state : RecordedPool

/-- A record that was taken in vain is given back. -/
def giveBack (status : ReserveStatus) (state : RecordedPool) (record : Nat) : Attempt :=
  ⟨status, none, tryRecycleLeaseRecord state record true⟩

section Attempt

variable (heap latched : Bool) (layout : FixedLayout) (state : RecordedPool)
  (generation : Nat)

/-- `own_and_publish_lease_locked`. -/
def ownAndPublishLease (record : Nat) : Attempt :=
  if latched then
    giveBack .latched { state with pool := (releaseLease heap state.pool record).2 } record
  else ⟨.ok, some record, state⟩

/-- `create_lease_locked`, at the pool's own alignment and from the low end. -/
def createLease (bytes : Nat) : Attempt :=
  match acquireLeaseRecord heap state generation with
  | (none, after) => ⟨.internalFailure, none, after⟩
  | (some record, after) =>
    match reserveLease heap after.pool record bytes after.pool.minimumAlignment .bestFitLow with
    | (.error refusal, pool) =>
      giveBack (refusalStatus refusal) { after with pool := pool } record
    | (.ok _, pool) => ownAndPublishLease heap latched { after with pool := pool } record

/-- `shadowspill_fixed_layout_adopt_execution_lease_locked`. -/
def adoptExecutionLease (record : Nat) (placement : FixedPlacement) :
    ReserveStatus × RecordedPool :=
  if ¬ layout.active ∨ ¬ layout.isSealed ∨ placement.bytes = 0 ∨
      placement.offset > layout.sliceBytes ∨
      placement.bytes > layout.sliceBytes - placement.offset then (.invalidArgument, state)
  else if layout.lent then (.planViolation, state)
  else
    let alignment := raised state.pool placement.alignmentBytes
    let offset := layout.sliceOffset + placement.offset
    if offset % alignment ≠ 0 then (.planViolation, state)
    else
      match adoptBorrowedLease state.pool record placement.bytes alignment offset with
      | (.error _, pool) => (.planViolation, { state with pool := pool })
      | (.ok _, pool) => (.ok, { state with pool := pool })

/-- `shadowspill_create_fixed_execution_lease_locked`. -/
def createFixedExecutionLease (placement : FixedPlacement) : Attempt :=
  match acquireLeaseRecord heap state generation with
  | (none, after) => ⟨.internalFailure, none, after⟩
  | (some record, after) =>
    match adoptExecutionLease layout after record placement with
    | (.ok, adopted) => ownAndPublishLease heap latched adopted record
    | (status, unchanged) => giveBack status unchanged record

/-- `shadowspill_create_successor_lease_locked`. -/
def createSuccessorLease (bytes : Nat) : Attempt :=
  if bytes = 0 then ⟨.invalidArgument, none, state⟩
  else
    match acquireLeaseRecord heap state generation with
    | (none, after) => ⟨.internalFailure, none, after⟩
    | (some record, after) =>
      match reserveCausalSuccessor after.pool record bytes after.pool.minimumAlignment with
      | (.error refusal, pool) =>
        giveBack (refusalStatus refusal) { after with pool := pool } record
      | (.ok _, pool) => ⟨.ok, some record, { after with pool := pool }⟩

/-- The lease of a spill destination: a range of its own, or else the range of a
predecessor. -/
def createSpillLease (bytes : Nat) : Attempt :=
  match acquireLeaseRecord heap state generation with
  | (none, after) => ⟨.internalFailure, none, after⟩
  | (some record, after) =>
    match reserveLease heap after.pool record bytes after.pool.minimumAlignment .bestFitLow with
    | (.ok _, pool) => ⟨.ok, some record, { after with pool := pool }⟩
    | (.error _, pool) =>
      match reserveCausalSuccessor pool record bytes pool.minimumAlignment with
      | (.ok _, claimed) => ⟨.ok, some record, { after with pool := claimed }⟩
      | (.error refusal, unclaimed) =>
        giveBack (refusalStatus refusal) { after with pool := unclaimed } record

/-- The lease of a fetch: at its fixed placement, or else a range of its own, or else the
range of a predecessor. -/
def createFetchLease (action : DestinationAction) : Attempt :=
  let fixed := if action.admitted then action.fixed else none
  let dynamic := action.admitted && fixed.isNone && action.dynamic
  if action.admitted ∧ layout.isSealed ∧ fixed.isNone ∧ ¬ dynamic then
    ⟨.planViolation, none, state⟩
  else
    match fixed with
    | some placement => createFixedExecutionLease heap latched layout state generation placement
    | none =>
      let created := createLease heap latched state generation action.object.sizeBytes
      if created.status = .outOfMemory then
        createSuccessorLease heap created.state (generation + 1) action.object.sizeBytes
      else created

/-- A lease with a range of its own is marked as reserved. -/
def markDestination (attempt : Attempt) : Attempt :=
  match attempt.status, attempt.lease with
  | .ok, some record =>
    if (attempt.state.pool.leases record).state = .successorReserved then attempt
    else
      match markReserved attempt.state.pool record with
      | (.error _, pool) =>
        ⟨.invalidState, some record, { attempt.state with pool := pool }⟩
      | (.ok _, pool) => ⟨.ok, some record, { attempt.state with pool := pool }⟩
  | _, _ => attempt

/-- `try_reserve_action_destination_locked`. -/
def tryReserveActionDestination (action : DestinationAction) : Attempt :=
  markDestination <|
    if action.kind = .fetch then createFetchLease heap latched layout state generation action
    else createSpillLease heap state generation (spillBytes action.object)

end Attempt

/-! ## A turn of the loop -/

/-- What a turn of `reserve_action_destination` comes to. -/
inductive Turn where
  | reserved
  | waits
  | exhausted
  | refused (status : ReserveStatus)
deriving DecidableEq, Repr

/-- What is asked of the pool after a refused attempt. -/
def askReleases (state : RecordedPool) (action : DestinationAction) : Turn :=
  match canReserve state.releaseFrontierCapacity state.releaseRangeCapacity state.pool
      action.object.sizeBytes state.pool.minimumAlignment with
  | some true => .waits
  | some false => .exhausted
  | none => .refused .internalFailure

/-- What comes of an attempt. -/
def turnOf (action : DestinationAction) (attempt : Attempt) : Turn :=
  match attempt.status with
  | .ok => .reserved
  | .outOfMemory => askReleases attempt.state action
  | status => .refused status

/-! ## Attempts keep the records -/

section Records

variable {heap latched : Bool} {layout : FixedLayout} {state after : RecordedPool}
  {generation record bytes : Nat}

theorem acquireLeaseRecord_taken (recorded : Recorded state)
    (result : acquireLeaseRecord heap state generation = (some record, after)) :
    Recorded after ∧ after.leaseRecords.taken record = true := by
  have kept := acquireLeaseRecord_recorded recorded heap generation
  rw [result] at kept
  refine ⟨kept, ?_⟩
  unfold acquireLeaseRecord at result
  split at result
  case h_1 => cases result
  case h_2 taken stock acquired =>
    cases result
    obtain ⟨_, marked, _⟩ := recorded.leases.acquire_some acquired
    rw [marked, Function.update_self]

theorem giveBack_recorded (recorded : Recorded state) (status : ReserveStatus) :
    Recorded (giveBack status state record).state :=
  tryRecycleLeaseRecord_recorded recorded record true

/-- A call for a lease in a taken record. -/
theorem lease_recorded (recorded : Recorded state) (operation : Operation)
    (proper : operation.Proper state.leaseRecords.capacity)
    (taken : ∀ record, newLease operation = some record →
      state.leaseRecords.taken record = true) :
    Recorded { state with pool := perform heap state.pool operation } :=
  call_recorded recorded heap ⟨proper, taken⟩

theorem reserveLease_recorded (recorded : Recorded state)
    (taken : state.leaseRecords.taken record = true) (word : bytes < modulus)
    (alignment : Nat) :
    Recorded { state with
      pool := (reserveLease heap state.pool record bytes alignment .bestFitLow).2 } :=
  lease_recorded recorded (.reserveLease record bytes alignment .bestFitLow)
    ⟨recorded.leases.numbered record taken, word⟩ fun _ same => Option.some.inj same ▸ taken

theorem reserveCausalSuccessor_recorded (recorded : Recorded state)
    (taken : state.leaseRecords.taken record = true) (alignment : Nat) :
    Recorded { state with
      pool := (reserveCausalSuccessor state.pool record bytes alignment).2 } :=
  @lease_recorded true state recorded (.reserveCausalSuccessor record bytes alignment)
    (recorded.leases.numbered record taken) fun _ same => Option.some.inj same ▸ taken

theorem adoptBorrowedLease_recorded (recorded : Recorded state)
    (taken : state.leaseRecords.taken record = true) (alignment offset : Nat) :
    Recorded { state with
      pool := (adoptBorrowedLease state.pool record bytes alignment offset).2 } :=
  @lease_recorded true state recorded (.adoptBorrowedLease record bytes alignment offset)
    (recorded.leases.numbered record taken) fun _ same => Option.some.inj same ▸ taken

theorem ownAndPublishLease_recorded (recorded : Recorded state) :
    Recorded (ownAndPublishLease heap latched state record).state := by
  unfold ownAndPublishLease
  split_ifs
  · exact giveBack_recorded (lease_recorded recorded (.releaseLease record) trivial nofun) _
  · exact recorded

theorem createLease_recorded (recorded : Recorded state) (word : bytes < modulus) :
    Recorded (createLease heap latched state generation bytes).state := by
  unfold createLease
  split
  case h_1 after result =>
    have kept := acquireLeaseRecord_recorded recorded heap generation
    rwa [result] at kept
  case h_2 record after result =>
    obtain ⟨kept, taken⟩ := acquireLeaseRecord_taken recorded result
    have reserved := @reserveLease_recorded heap after record bytes kept taken word
      after.pool.minimumAlignment
    split
    case h_1 refusal pool refused =>
      rw [refused] at reserved
      exact giveBack_recorded reserved _
    case h_2 pool granted =>
      rw [granted] at reserved
      exact ownAndPublishLease_recorded reserved

theorem adoptExecutionLease_recorded (recorded : Recorded state)
    (taken : state.leaseRecords.taken record = true) (placement : FixedPlacement) :
    Recorded (adoptExecutionLease layout state record placement).2 := by
  unfold adoptExecutionLease
  simp only
  split_ifs
  · exact recorded
  · exact recorded
  · exact recorded
  · have adopted := @adoptBorrowedLease_recorded state record placement.bytes recorded taken
      (raised state.pool placement.alignmentBytes) (layout.sliceOffset + placement.offset)
    split
    case h_1 refused =>
      rw [refused] at adopted
      exact adopted
    case h_2 granted =>
      rw [granted] at adopted
      exact adopted

theorem createFixedExecutionLease_recorded (recorded : Recorded state)
    (placement : FixedPlacement) :
    Recorded (createFixedExecutionLease heap latched layout state generation
      placement).state := by
  unfold createFixedExecutionLease
  split
  case h_1 after result =>
    have kept := acquireLeaseRecord_recorded recorded heap generation
    rwa [result] at kept
  case h_2 record after result =>
    obtain ⟨kept, taken⟩ := acquireLeaseRecord_taken recorded result
    have adopted := @adoptExecutionLease_recorded layout after record kept taken placement
    split
    case h_1 pool granted =>
      rw [granted] at adopted
      exact ownAndPublishLease_recorded adopted
    case h_2 status pool refused =>
      rw [refused] at adopted
      exact giveBack_recorded adopted _

theorem createSuccessorLease_recorded (recorded : Recorded state) :
    Recorded (createSuccessorLease heap state generation bytes).state := by
  unfold createSuccessorLease
  split_ifs
  · exact recorded
  · split
    case h_1 after result =>
      have kept := acquireLeaseRecord_recorded recorded heap generation
      rwa [result] at kept
    case h_2 record after result =>
      obtain ⟨kept, taken⟩ := acquireLeaseRecord_taken recorded result
      have claimed := @reserveCausalSuccessor_recorded after record bytes kept taken
        after.pool.minimumAlignment
      split
      case h_1 refused =>
        rw [refused] at claimed
        exact giveBack_recorded claimed _
      case h_2 granted =>
        rw [granted] at claimed
        exact claimed

theorem createSpillLease_recorded (recorded : Recorded state) (word : bytes < modulus) :
    Recorded (createSpillLease heap state generation bytes).state := by
  unfold createSpillLease
  split
  case h_1 after result =>
    have kept := acquireLeaseRecord_recorded recorded heap generation
    rwa [result] at kept
  case h_2 record after result =>
    obtain ⟨kept, taken⟩ := acquireLeaseRecord_taken recorded result
    have reserved := @reserveLease_recorded heap after record bytes kept taken word
      after.pool.minimumAlignment
    split
    case h_1 pool granted =>
      rw [granted] at reserved
      exact reserved
    case h_2 refusal pool refused =>
      rw [refused] at reserved
      have claimed := @reserveCausalSuccessor_recorded { after with pool := pool } record bytes
        reserved taken pool.minimumAlignment
      split
      case h_1 granted =>
        rw [granted] at claimed
        exact claimed
      case h_2 unclaimed =>
        rw [unclaimed] at claimed
        exact giveBack_recorded claimed _

theorem createFetchLease_recorded (recorded : Recorded state) (action : DestinationAction) :
    Recorded (createFetchLease heap latched layout state generation action).state := by
  unfold createFetchLease
  generalize (if action.admitted = true then action.fixed else none) = fixed
  simp only
  split
  · exact recorded
  · cases fixed with
    | some placement => exact createFixedExecutionLease_recorded recorded placement
    | none =>
        have created := @createLease_recorded heap latched state generation _ recorded
          action.object.size_word
        simp only
        split_ifs
        · exact createSuccessorLease_recorded created
        · exact created

theorem markDestination_recorded {attempt : Attempt} (recorded : Recorded attempt.state) :
    Recorded (markDestination attempt).state := by
  unfold markDestination
  split
  · split_ifs
    · exact recorded
    · rename_i record _ _ _
      have marked := @lease_recorded true _ recorded (.markReserved record) trivial nofun
      split
      case h_1 refused =>
        rw [perform, refused] at marked
        exact marked
      case h_2 granted =>
        rw [perform, granted] at marked
        exact marked
  · exact recorded

theorem spillBytes_word (object : ObjectSizes) : spillBytes object < modulus := by
  unfold spillBytes
  cases transfer : object.transferSpillBytes with
  | none => exact object.size_word
  | some bytes => exact object.transfer_word bytes transfer

/-- An attempt keeps the records, whatever comes of it. -/
theorem tryReserveActionDestination_recorded (recorded : Recorded state)
    (action : DestinationAction) :
    Recorded (tryReserveActionDestination heap latched layout state generation
      action).state := by
  unfold tryReserveActionDestination
  apply markDestination_recorded
  split_ifs
  · exact createFetchLease_recorded recorded action
  · exact createSpillLease_recorded recorded (spillBytes_word action.object)

end Records

/-! ## What waiting is for -/

/-- The releases under way: the owners that retire and have promised their range to no
one. -/
def underWay (pool : MemoryPool) : List Nat :=
  pool.rangeLeases.filter fun lease =>
    (pool.leases lease).ownsPoolRange && (pool.leases lease).state == .retirePending &&
      (pool.leases lease).causalSuccessor.isNone

/-- Once all releases under way complete, a reservation is granted. -/
def WouldMakeRoom (pool : MemoryPool) (bytes : Nat) : Prop :=
  Admits true pool (underWay pool) bytes pool.minimumAlignment .bestFitLow

/-- A refused attempt waits while the releases under way would make room for the bytes
it reserves, and gives up where they would not.  The epoch it polls stays only as long as
each of them still owns its range, and it never waits for none. -/
structure ExactWait (action : DestinationAction) (attempt : Attempt) : Prop where
  waits : turnOf action attempt = .waits ↔
    attempt.status = .outOfMemory ∧ WouldMakeRoom attempt.state.pool (reservedBytes action)
  exhausted : turnOf action attempt = .exhausted ↔
    attempt.status = .outOfMemory ∧ ¬ WouldMakeRoom attempt.state.pool (reservedBytes action)
  polls : ∀ (epoch : Nat) (later : PolledPool),
    Relation.ReflTransGen PollStep ⟨attempt.state, epoch⟩ later →
      later.capacityEpoch = epoch →
        ∀ lease ∈ underWay attempt.state.pool, Owns later.state.pool lease
  ends : underWay attempt.state.pool = [] → turnOf action attempt ≠ .waits

/-- The workspaces suffice for the object's execution size, and the releases that have one
dependency make room for it exactly if all releases under way would make room for the
bytes that the action reserves. -/
structure DecidedAlike (action : DestinationAction) (state : RecordedPool) : Prop where
  positive : 0 < action.object.sizeBytes
  suffice : WorkspacesSuffice state.releaseFrontierCapacity state.releaseRangeCapacity
    state.pool action.object.sizeBytes state.pool.minimumAlignment
  alike : MakesRoom state.pool action.object.sizeBytes state.pool.minimumAlignment ↔
    WouldMakeRoom state.pool (reservedBytes action)

section Exact

variable {action : DestinationAction} {attempt : Attempt} {state : RecordedPool}

theorem askReleases_of_none (none : underWay state.pool = []) :
    askReleases state action ≠ .waits := by
  have idle : (frontierCandidates state.pool).length = 0 := by
    rw [List.length_eq_zero_iff, frontierCandidates, List.filter_eq_nil_iff]
    intro lease mem candidate
    have retiring := List.filter_eq_nil_iff.1 none lease mem
    simp only [isFrontierCandidate, canPublishCausalDependency, Bool.and_eq_true] at candidate
    simp only [Bool.and_eq_true, not_and] at retiring
    exact retiring ⟨candidate.1.1, candidate.1.2.1⟩ candidate.2
  unfold askReleases canReserve
  split_ifs <;> simp [idle] at *

theorem underWay_owns {pool : MemoryPool} {lease : Nat} (mem : lease ∈ underWay pool) :
    Owns pool lease := by
  obtain ⟨listed, retires⟩ := List.mem_filter.1 mem
  simp only [Bool.and_eq_true] at retires
  exact ⟨listed, retires.1.1⟩

/-- Where one of two opposite answers is given, the question is answered. -/
theorem asked_of_exact {fits : Prop} (waits : askReleases state action = .waits ↔ fits)
    (exhausted : askReleases state action = .exhausted ↔ ¬ fits) :
    0 < action.object.sizeBytes ∧
      ∃ answer, canReserve state.releaseFrontierCapacity state.releaseRangeCapacity state.pool
        action.object.sizeBytes state.pool.minimumAlignment = some answer := by
  unfold askReleases at waits exhausted
  cases answered : canReserve state.releaseFrontierCapacity state.releaseRangeCapacity
      state.pool action.object.sizeBytes state.pool.minimumAlignment with
  | none =>
      simp only [answered, reduceCtorEq, false_iff, not_not] at waits exhausted
      exact absurd exhausted waits
  | some answer =>
      refine ⟨Nat.pos_of_ne_zero fun zero => ?_, answer, rfl⟩
      rw [canReserve, if_pos zero] at answered
      cases answered

/-- The waiting is exact exactly where the question is decided as the bytes reserved
ask. -/
theorem exactWait_iff (recorded : Recorded attempt.state) :
    ExactWait action attempt ↔
      (attempt.status = .outOfMemory → DecidedAlike action attempt.state) := by
  have polls : ∀ (epoch : Nat) (later : PolledPool),
      Relation.ReflTransGen PollStep ⟨attempt.state, epoch⟩ later →
        later.capacityEpoch = epoch →
          ∀ lease ∈ underWay attempt.state.pool, Owns later.state.pool lease :=
    fun epoch later run still lease mem =>
      @owns_while_still ⟨attempt.state, epoch⟩ later lease recorded run still (underWay_owns mem)
  by_cases refused : attempt.status = .outOfMemory
  · have asked : turnOf action attempt = askReleases attempt.state action := by
      simp only [turnOf, refused]
    constructor
    · rintro ⟨waits, exhausted, _, _⟩ _
      simp only [asked, refused, true_and] at waits exhausted
      obtain ⟨positive, answer, answered⟩ := asked_of_exact waits exhausted
      obtain ⟨failed, right⟩ := @canReserve_spec _ attempt.state.releaseFrontierCapacity
        attempt.state.releaseRangeCapacity _ attempt.state.pool.minimumAlignment _
        recorded.heapPool positive action.object.size_word
      refine ⟨positive, ?_, ?_⟩
      · by_contra short
        rw [failed.2 short] at answered
        cases answered
      · rw [← right answer answered, ← waits]
        cases answer <;> simp [askReleases, answered]
    · intro alike
      obtain ⟨positive, suffice, same⟩ := alike refused
      obtain ⟨answer, answered, right⟩ := (canReserve_answers_iff recorded.heapPool positive
        action.object.size_word).2 suffice
      rw [same] at right
      constructor
      case waits =>
        rw [asked, askReleases, answered, ← right]
        cases answer <;> simp [refused]
      case exhausted =>
        rw [asked, askReleases, answered, ← right]
        cases answer <;> simp [refused]
      case polls => exact polls
      case ends =>
        intro none
        rw [asked]
        exact askReleases_of_none none
  · have other : turnOf action attempt ≠ .waits ∧ turnOf action attempt ≠ .exhausted := by
      unfold turnOf
      cases status : attempt.status <;> simp_all
    constructor
    · exact fun _ refusal => absurd refusal refused
    · intro _
      constructor
      case waits => simp [other.1, refused]
      case exhausted => simp [other.2, refused]
      case polls => exact polls
      case ends => exact fun _ => other.1

end Exact

end ShadowSpill.Runtime.DestinationReservation
