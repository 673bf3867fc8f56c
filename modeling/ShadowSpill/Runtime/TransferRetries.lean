import ShadowSpill.Runtime.TransferDispatch

/-!
# Refused attempts

A lane that cannot enqueue a wait asks for the next poll instead.  The attempt
is a stutter for an eviction or write-back whose spill location already holds a
lease, and for no other transfer: an eviction's destination has moved into the
spill location by then, and a fetch's destination has left its action for good.
-/

namespace ShadowSpill.Runtime.TransferRetries

open PoolLeases TransferQueues WorkerState TransferDispatch

/-! ## Acquiring a destination -/

/-- A lease that is acquired was not in use before, and is afterwards. -/
theorem acquireReservedLease_state
    {pool : MemoryPool} {lease : Nat} {event : Option Nat}
    (taken : (acquireReservedLease pool lease).1 = .ok event) :
    (pool.leases lease).state ≠ .inUse ∧
      ((acquireReservedLease pool lease).2.leases lease).state = .inUse := by
  unfold acquireReservedLease at taken ⊢
  simp only at taken ⊢
  split_ifs at taken ⊢ with registered claims refused
  · refine ⟨by rw [claims]; decide, ?_⟩
    unfold handoffCausalRange at taken ⊢
    simp only at taken ⊢
    cases link : (pool.leases lease).causalPredecessor with
    | none => simp [link] at taken
    | some source =>
        cases published : (pool.leases source).causalEvent with
        | none =>
            simp only [link, published] at taken
            split_ifs at taken
        | some dependency =>
            simp only [link, published] at taken ⊢
            split_ifs at taken ⊢
            simp [transferRange]
  · simp only [not_or, not_not] at refused
    refine ⟨by rw [refused.1]; decide, by simp⟩

/-! ## The state of a queue -/

/-- Both routes' queues are well formed. -/
def WellQueued (runtime : WorkerRuntime) : Prop :=
  ∀ kind, ∃ contents,
    Holds (transferActions runtime) (runtime.queue kind) contents

section Fields

variable (runtime : WorkerRuntime) (kind : ActionKind)

@[simp] theorem queue_setQueue (queue : Memory Nat) :
    (runtime.setQueue kind queue).queue kind = queue := by
  by_cases fetch : kind = .fetch <;> simp [WorkerRuntime.setQueue, WorkerRuntime.queue, fetch]

@[simp] theorem setQueue_queue :
    runtime.setQueue kind (runtime.queue kind) = runtime := by
  by_cases fetch : kind = .fetch <;> simp [WorkerRuntime.setQueue, WorkerRuntime.queue, fetch]

@[simp] theorem setQueue_setQueue (first second : Memory Nat) :
    (runtime.setQueue kind first).setQueue kind second =
      runtime.setQueue kind second := by
  by_cases fetch : kind = .fetch <;> simp [WorkerRuntime.setQueue, fetch]

@[simp] theorem setQueue_objects (queue : Memory Nat) :
    (runtime.setQueue kind queue).objects = runtime.objects := by
  by_cases fetch : kind = .fetch <;> simp [WorkerRuntime.setQueue, fetch]

@[simp] theorem setQueue_actions (queue : Memory Nat) :
    (runtime.setQueue kind queue).actions = runtime.actions := by
  by_cases fetch : kind = .fetch <;> simp [WorkerRuntime.setQueue, fetch]

@[simp] theorem setQueue_executionPool (queue : Memory Nat) :
    (runtime.setQueue kind queue).executionPool = runtime.executionPool := by
  by_cases fetch : kind = .fetch <;> simp [WorkerRuntime.setQueue, fetch]

@[simp] theorem setQueue_spillPool (queue : Memory Nat) :
    (runtime.setQueue kind queue).spillPool = runtime.spillPool := by
  by_cases fetch : kind = .fetch <;> simp [WorkerRuntime.setQueue, fetch]

@[simp] theorem destinationPool_setDestinationPool (pool : MemoryPool) :
    (runtime.setDestinationPool kind pool).destinationPool kind = pool := by
  by_cases fetch : kind = .fetch <;>
    simp [WorkerRuntime.setDestinationPool, WorkerRuntime.destinationPool, fetch]

@[simp] theorem setDestinationPool_actions (pool : MemoryPool) :
    (runtime.setDestinationPool kind pool).actions = runtime.actions := by
  by_cases fetch : kind = .fetch <;> simp [WorkerRuntime.setDestinationPool, fetch]

@[simp] theorem setDestinationPool_objects (pool : MemoryPool) :
    (runtime.setDestinationPool kind pool).objects = runtime.objects := by
  by_cases fetch : kind = .fetch <;> simp [WorkerRuntime.setDestinationPool, fetch]

@[simp] theorem destinationPool_setQueue (queue : Memory Nat) (other : ActionKind) :
    (runtime.setQueue kind queue).destinationPool other =
      runtime.destinationPool other := by
  simp [WorkerRuntime.destinationPool]

end Fields

/-! ## An attempt in which the lane asks for a retry -/

section Attempts

variable {runtime : WorkerRuntime} {action : Nat} {poll : Poll}

/-- A destination acquired in full: at most the dependency event is new. -/
theorem acquireReservedDestination_taken
    (taken : (acquireReservedDestination runtime action poll).outcome = true) :
    (acquireReservedDestination runtime action poll).retryAsked = false ∧
      (acquireReservedDestination runtime action poll).runtime.objects =
        runtime.objects ∧
      ∀ other,
        { (acquireReservedDestination runtime action poll).runtime.actions other with
          dependencyEvent := none } =
          { runtime.actions other with dependencyEvent := none } := by
  unfold acquireReservedDestination at taken ⊢
  simp only at taken ⊢
  cases destination : (runtime.actions action).destinationLease with
  | none => simp [destination] at taken
  | some lease =>
      simp only [destination] at taken ⊢
      split_ifs at taken ⊢
      cases acquired :
          (acquireReservedLease
            (runtime.destinationPool (runtime.actions action).kind) lease).1 with
      | error refusal => simp [acquired] at taken
      | ok event =>
          cases event with
          | none => simp
          | some dependency =>
              simp only [acquired] at taken ⊢
              cases answer : poll.dependencyWait with
              | retry => simp [answer] at taken
              | failed => simp [answer] at taken
              | enqueued =>
                  refine ⟨rfl, by simp [WorkerRuntime.setAction], ?_⟩
                  intro other
                  by_cases same : other = action
                  · subst same
                    simp [WorkerRuntime.setAction]
                  · simp [WorkerRuntime.setAction, same]

/-- A retry of the dependency's wait comes after the lease is taken. -/
theorem acquireReservedDestination_retry
    (asked : (acquireReservedDestination runtime action poll).retryAsked = true) :
    (acquireReservedDestination runtime action poll).outcome = false ∧
      ((acquireReservedDestination runtime action poll).runtime.destinationPool
          (runtime.actions action).kind).leases ≠
        (runtime.destinationPool (runtime.actions action).kind).leases := by
  unfold acquireReservedDestination at asked ⊢
  simp only at asked ⊢
  cases destination : (runtime.actions action).destinationLease with
  | none => simp [destination] at asked
  | some lease =>
      simp only [destination] at asked ⊢
      split_ifs at asked ⊢
      cases acquired :
          (acquireReservedLease
            (runtime.destinationPool (runtime.actions action).kind) lease).1 with
      | error refusal => simp [acquired] at asked
      | ok event =>
          have states := acquireReservedLease_state acquired
          cases event with
          | none => simp [acquired] at asked
          | some dependency =>
              simp only [acquired] at asked ⊢
              cases answer : poll.dependencyWait with
              | enqueued => simp [answer] at asked
              | failed => simp [answer] at asked
              | retry =>
                  refine ⟨rfl, ?_⟩
                  simp only [destinationPool_setDestinationPool]
                  intro same
                  rw [same] at states
                  exact states.1 states.2

/-- The lane answers before anything is submitted. -/
theorem dispatchToSpill_retry
    {allocation : Nat}
    (asked : (dispatchToSpill runtime action poll allocation).retryAsked = true) :
    (dispatchToSpill runtime action poll allocation).outcome = .retry ∧
      (dispatchToSpill runtime action poll allocation).runtime = runtime := by
  by_cases trigger : (runtime.actions action).triggerEvent = none
  · simp [dispatchToSpill, trigger] at asked
  · simp only [dispatchToSpill, if_neg trigger] at asked ⊢
    cases submission : submitTransfer poll with
    | failed => simp [submission] at asked
    | retry => exact ⟨rfl, rfl⟩
    | submitted event =>
        simp only [submission] at asked
        split at asked <;> simp at asked

theorem dispatchFromSpill_retry
    {destination source : Nat}
    (asked :
      (dispatchFromSpill runtime action poll destination source).retryAsked = true) :
    (dispatchFromSpill runtime action poll destination source).outcome = .retry ∧
      (dispatchFromSpill runtime action poll destination source).runtime =
        runtime := by
  by_cases trigger : (runtime.actions action).triggerEvent = none
  · simp [dispatchFromSpill, trigger] at asked
  · simp only [dispatchFromSpill, if_neg trigger] at asked ⊢
    cases submission : submitTransfer poll with
    | failed => simp [submission] at asked
    | retry => exact ⟨rfl, rfl⟩
    | submitted event =>
        simp only [submission] at asked
        split at asked
        · split at asked
          · simp at asked
          · split at asked <;> simp at asked
        · simp at asked

/-- What an attempt has moved: the destination lease, or where it is held. -/
def Moved (before after : WorkerRuntime) (action : Nat) : Prop :=
  let kind := (before.actions action).kind
  after.objects ≠ before.objects ∨
    (after.actions action).destinationLease ≠
      (before.actions action).destinationLease ∨
    (after.destinationPool kind).leases ≠ (before.destinationPool kind).leases

theorem Moved.ne {after : WorkerRuntime} (moved : Moved runtime after action) :
    after ≠ runtime := by
  rintro rfl
  rcases moved with objects | destination | leases
  · exact objects rfl
  · exact destination rfl
  · exact leases rfl

/-- The transfers a refused attempt leaves as they were. -/
def Unmoved (runtime : WorkerRuntime) (action : Nat) : Prop :=
  (runtime.actions action).kind ≠ .fetch ∧
    (runtime.objects (runtime.actions action).object).spill.lease ≠ none

theorem dispatchEvict_retry
    (asked : (dispatchEvict runtime action poll).retryAsked = true) :
    if (runtime.objects (runtime.actions action).object).spill.lease ≠ none then
      (dispatchEvict runtime action poll).outcome = .retry ∧
        (dispatchEvict runtime action poll).runtime = runtime
    else Moved runtime (dispatchEvict runtime action poll).runtime action := by
  unfold dispatchEvict at asked ⊢
  simp only at asked ⊢
  by_cases fetching :
      (runtime.objects (runtime.actions action).object).residency = .fetching
  · simp [fetching] at asked
  rw [if_neg fetching] at asked ⊢
  cases source :
      (runtime.objects (runtime.actions action).object).execution.lease with
  | none => simp [source] at asked
  | some allocation =>
      simp only [source] at asked ⊢
      by_cases rejected :
          ¬ (runtime.executionPool.leases allocation).registered = true ∨
            (runtime.objects (runtime.actions action).object).allocation ≠
              some allocation ∨
            (runtime.executionPool.leases allocation).generation ≠
              (runtime.objects (runtime.actions action).object).generation
      · rw [if_pos rejected] at asked
        simp at asked
      rw [if_neg rejected] at asked ⊢
      by_cases held :
          (runtime.objects (runtime.actions action).object).spill.lease ≠ none
      · rw [if_pos held] at asked ⊢
        rw [if_pos held]
        exact dispatchToSpill_retry asked
      · rw [if_neg held] at asked ⊢
        rw [if_neg held]
        by_cases missing : (runtime.actions action).destinationLease = none
        · rw [if_pos missing] at asked
          simp at asked
        rw [if_neg missing] at asked ⊢
        by_cases taken :
            (acquireReservedDestination runtime action poll).outcome = true
        · rw [if_neg (not_not.mpr taken)] at asked ⊢
          obtain ⟨-, objects, actions⟩ := acquireReservedDestination_taken taken
          have sameObject := congrArg QueuedAction.object (actions action)
          simp only at sameObject
          rw [(dispatchToSpill_retry asked).2]
          left
          intro same
          -- The spill location now holds what the action held.
          have there := congrArg
            (fun objects =>
              (objects (runtime.actions action).object).spill.lease) same
          simp only [moveDestination, WorkerRuntime.setAction, WorkerRuntime.setObject,
            sameObject, Function.update_self] at there
          rw [not_not.mp held] at there
          exact missing there
        · rw [if_pos taken] at asked ⊢
          right
          right
          exact (acquireReservedDestination_retry asked).2

theorem dispatchFetch_retry
    (asked : (dispatchFetch runtime action poll).retryAsked = true) :
    Moved runtime (dispatchFetch runtime action poll).runtime action := by
  unfold dispatchFetch at asked ⊢
  simp only at asked ⊢
  cases destination : (runtime.actions action).destinationLease with
  | none => simp [destination] at asked
  | some lease =>
      cases held :
          (runtime.objects (runtime.actions action).object).spill.lease with
      | none => simp [destination, held] at asked
      | some source =>
          simp only [destination, held] at asked ⊢
          by_cases taken :
              (acquireReservedDestination runtime action poll).outcome = true
          · rw [if_neg (not_not.mpr taken)] at asked ⊢
            rw [(dispatchFromSpill_retry asked).2]
            right
            left
            simp [WorkerRuntime.setAction, destination]
          · rw [if_pos taken] at asked ⊢
            right
            right
            exact (acquireReservedDestination_retry asked).2

/-- Only the claim stands between a runtime and the one its transfer is
dispatched in. -/
theorem unmoved_setQueue (kind : ActionKind) (queue : Memory Nat) :
    Unmoved (runtime.setQueue kind queue) action ↔ Unmoved runtime action := by
  simp [Unmoved]

theorem moved_setQueue {after : WorkerRuntime} (kind other : ActionKind)
    (first second : Memory Nat)
    (moved : Moved (runtime.setQueue kind first) after action) :
    Moved runtime (after.setQueue other second) action := by
  simpa [Moved] using moved

/-- A dispatch in which the lane asks for a retry. -/
theorem dispatch_retry
    (asked :
      (if (runtime.actions action).kind = .fetch then
        dispatchFetch runtime action poll
      else dispatchEvict runtime action poll).retryAsked = true) :
    let dispatched :=
      if (runtime.actions action).kind = .fetch then
        dispatchFetch runtime action poll
      else dispatchEvict runtime action poll
    (Unmoved runtime action → dispatched.outcome = .retry ∧
      dispatched.runtime = runtime) ∧
      (¬ Unmoved runtime action → Moved runtime dispatched.runtime action) := by
  by_cases fetch : (runtime.actions action).kind = .fetch
  · simp only [if_pos fetch] at asked ⊢
    constructor
    · exact fun unmoved => absurd fetch unmoved.1
    · exact fun _ => dispatchFetch_retry asked
  · simp only [if_neg fetch] at asked ⊢
    have attempt := dispatchEvict_retry asked
    constructor
    · intro unmoved
      rwa [if_pos unmoved.2] at attempt
    · intro moves
      rwa [if_neg fun held => moves ⟨fetch, held⟩] at attempt

theorem claimAndDispatch_retry
    (queued : WellQueued runtime)
    (asked : (claimAndDispatch runtime action poll).retryAsked = true) :
    (claimAndDispatch runtime action poll).runtime = runtime ↔
      Unmoved runtime action := by
  obtain ⟨contents, holds⟩ := queued (runtime.actions action).kind
  unfold claimAndDispatch at asked ⊢
  simp only at asked ⊢
  cases granted :
      claim (transferActions runtime) (runtime.queue (runtime.actions action).kind)
        action with
  | none => simp [granted] at asked
  | some claimed =>
      simp only [granted] at asked ⊢
      have attempt := @dispatch_retry
        (runtime.setQueue (runtime.actions action).kind claimed) action poll
      simp only [setQueue_actions, unmoved_setQueue] at attempt
      generalize dispatched :
        (if (runtime.actions action).kind = .fetch then
          dispatchFetch (runtime.setQueue (runtime.actions action).kind claimed)
            action poll
        else
          dispatchEvict (runtime.setQueue (runtime.actions action).kind claimed)
            action poll) = result at asked attempt ⊢
      cases outcome : result.outcome with
      | nothing => simp [outcome] at asked
      | inFlight => simp [outcome] at asked
      | failed =>
          simp only [outcome] at asked ⊢
          obtain ⟨stays, moves⟩ := attempt asked
          constructor
          · intro same
            by_contra moved
            have differs := moved_setQueue _ (runtime.actions action).kind claimed
              (result.runtime.queue (runtime.actions action).kind) (moves moved)
            exact differs.ne (by simpa using same)
          · intro unmoved
            exact absurd ((stays unmoved).1.symm.trans outcome) (by decide)
      | retry =>
          simp only [outcome] at asked ⊢
          obtain ⟨stays, moves⟩ := attempt asked
          constructor
          · intro same
            by_contra moved
            exact (moved_setQueue _ _ claimed _ (moves moved)).ne same
          · intro unmoved
            rw [(stays unmoved).2]
            simp [returnAction_claim holds granted]

/-- A lane is asked only behind every other wait. -/
theorem handleTransfer_retry
    (asked : (handleTransfer runtime action poll).retryAsked = true) :
    handleTransfer runtime action poll = claimAndDispatch runtime action poll := by
  have reached : handleTransfer runtime action poll =
      claimAndDispatch runtime action poll ∨
        (handleTransfer runtime action poll).retryAsked = false := by
    unfold handleTransfer
    simp only
    repeat' split
    all_goals first | exact Or.inr rfl | exact Or.inl rfl
  rcases reached with same | silent
  · exact same
  · rw [silent] at asked
    cases asked

end Attempts

/-! ## What a poll leaves of the queues -/

/-- The queues and the kinds of the actions are as they were. -/
structure SameQueues (before after : WorkerRuntime) : Prop where
  fetchQueue : after.fetchQueue = before.fetchQueue
  evictQueue : after.evictQueue = before.evictQueue
  background : ∀ action,
    (after.actions action).background = (before.actions action).background

theorem SameQueues.refl (runtime : WorkerRuntime) : SameQueues runtime runtime :=
  ⟨rfl, rfl, fun _ => rfl⟩

theorem SameQueues.trans {before middle after : WorkerRuntime}
    (first : SameQueues before middle) (second : SameQueues middle after) :
    SameQueues before after where
  fetchQueue := second.fetchQueue.trans first.fetchQueue
  evictQueue := second.evictQueue.trans first.evictQueue
  background := fun action =>
    (second.background action).trans (first.background action)

section Queues

variable (runtime : WorkerRuntime) (action : Nat) (poll : Poll)

theorem setAction_sameQueues (change : QueuedAction → QueuedAction)
    (kept : ∀ queued, (change queued).background = queued.background) :
    SameQueues runtime (runtime.setAction action change) where
  fetchQueue := rfl
  evictQueue := rfl
  background := by
    intro other
    by_cases same : other = action
    · subst same
      simp [WorkerRuntime.setAction, kept]
    · simp [WorkerRuntime.setAction, same]

theorem setDestinationPool_sameQueues (kind : ActionKind) (pool : MemoryPool) :
    SameQueues runtime (runtime.setDestinationPool kind pool) := by
  by_cases fetch : kind = .fetch <;> constructor <;>
    simp [WorkerRuntime.setDestinationPool, fetch]

theorem acquireReservedDestination_sameQueues :
    SameQueues runtime (acquireReservedDestination runtime action poll).runtime := by
  unfold acquireReservedDestination
  simp only
  cases destination : (runtime.actions action).destinationLease with
  | none => exact .refl _
  | some lease =>
      have pool := setDestinationPool_sameQueues runtime (runtime.actions action).kind
        (acquireReservedLease (runtime.destinationPool (runtime.actions action).kind)
          lease).2
      simp only
      split
      · exact .refl _
      split
      · exact pool
      · exact pool
      split
      · rename_i event _ _ _
        exact pool.trans (setAction_sameQueues _ action
          (fun queued => { queued with dependencyEvent := some event }) fun _ => rfl)
      · exact pool
      · exact pool

theorem dispatchToSpill_sameQueues (allocation : Nat) :
    SameQueues runtime (dispatchToSpill runtime action poll allocation).runtime := by
  unfold dispatchToSpill
  simp only
  split
  · exact ⟨rfl, rfl, fun _ => rfl⟩
  split
  · exact .refl _
  · exact ⟨rfl, rfl, fun _ => rfl⟩
  rename_i event _
  generalize (if (runtime.actions action).kind = .evict then
    publishRetirementDependency runtime.executionPool allocation event
    else (.ok (), runtime.executionPool)) = retired
  have started := setAction_sameQueues { runtime with executionPool := retired.2 }
    action (fun queued => { queued with completionEvent := some event, state := .inFlight })
    fun _ => rfl
  split
  · split
    · exact ⟨started.fetchQueue, started.evictQueue, started.background⟩
    · exact ⟨started.fetchQueue, started.evictQueue, started.background⟩
  · exact ⟨rfl, rfl, fun _ => rfl⟩

theorem dispatchEvict_sameQueues :
    SameQueues runtime (dispatchEvict runtime action poll).runtime := by
  unfold dispatchEvict
  simp only
  split
  · exact .refl _
  split
  · exact ⟨rfl, rfl, fun _ => rfl⟩
  split
  · exact ⟨rfl, rfl, fun _ => rfl⟩
  split
  · exact dispatchToSpill_sameQueues ..
  split
  · exact ⟨rfl, rfl, fun _ => rfl⟩
  have acquired := acquireReservedDestination_sameQueues runtime action poll
  split
  · exact ⟨acquired.fetchQueue, acquired.evictQueue, acquired.background⟩
  · apply acquired.trans
    refine SameQueues.trans ?_ (dispatchToSpill_sameQueues ..)
    have moved := setAction_sameQueues
      (acquireReservedDestination runtime action poll).runtime action
      (fun queued => { queued with destinationLease := none }) fun _ => rfl
    exact ⟨moved.fetchQueue, moved.evictQueue, moved.background⟩

theorem dispatchFromSpill_sameQueues (destination source : Nat) :
    SameQueues runtime
      (dispatchFromSpill runtime action poll destination source).runtime := by
  unfold dispatchFromSpill
  simp only
  split
  · exact ⟨rfl, rfl, fun _ => rfl⟩
  split
  · exact .refl _
  · exact ⟨rfl, rfl, fun _ => rfl⟩
  rename_i event _
  generalize (if (runtime.objects (runtime.actions action).object).retainSpillCopy
      = true then (Except.ok (), runtime.spillPool)
    else beginRetirement runtime.spillPool source (some event) false) = retired
  have started := setAction_sameQueues { runtime with spillPool := retired.2 }
    action (fun queued => { queued with completionEvent := some event, state := .inFlight })
    fun _ => rfl
  split
  · split
    · exact ⟨rfl, rfl, fun _ => rfl⟩
    split
    · exact ⟨started.fetchQueue, started.evictQueue, started.background⟩
    · exact ⟨started.fetchQueue, started.evictQueue, started.background⟩
  · exact ⟨rfl, rfl, fun _ => rfl⟩

theorem dispatchFetch_sameQueues :
    SameQueues runtime (dispatchFetch runtime action poll).runtime := by
  unfold dispatchFetch
  simp only
  split
  · have acquired := acquireReservedDestination_sameQueues runtime action poll
    split
    · exact ⟨acquired.fetchQueue, acquired.evictQueue, acquired.background⟩
    · apply acquired.trans
      refine SameQueues.trans ?_ (dispatchFromSpill_sameQueues ..)
      apply setAction_sameQueues
      intro _
      rfl
  · exact ⟨rfl, rfl, fun _ => rfl⟩

theorem completeAction_sameQueues :
    SameQueues runtime (completeAction runtime action) := by
  unfold completeAction
  simp only
  split
  · exact ⟨rfl, rfl, fun _ => rfl⟩
  · have reset := setAction_sameQueues runtime action resetAction fun _ => rfl
    exact ⟨reset.fetchQueue, reset.evictQueue, reset.background⟩

end Queues

/-- What a queue holds does not depend on the sizes. -/
theorem holds_congr
    {first second : Actions Nat} {memory : Memory Nat} {contents : Contents Nat}
    (holds : Holds first memory contents)
    (same : ∀ action, second.background action = first.background action) :
    Holds second memory contents where
  waiting := holds.waiting
  inflight := holds.inflight
  kind := by
    intro background action member
    rw [same]
    exact holds.kind background action member
  pendingState := by
    intro action
    rw [same]
    exact holds.pendingState action
  inflightState := holds.inflightState

theorem SameQueues.wellQueued
    {before after : WorkerRuntime} (same : SameQueues before after)
    (queued : WellQueued before) : WellQueued after := by
  intro kind
  obtain ⟨contents, holds⟩ := queued kind
  have unchanged : after.queue kind = before.queue kind := by
    simp [WorkerRuntime.queue, same.fetchQueue, same.evictQueue]
  refine ⟨contents, ?_⟩
  rw [unchanged]
  exact holds_congr holds same.background

/-- Changing one queue leaves the other one well formed. -/
theorem wellQueued_setQueue
    {runtime : WorkerRuntime} {kind : ActionKind} {memory : Memory Nat}
    {contents : Contents Nat} (queued : WellQueued runtime)
    (holds : Holds (transferActions runtime) memory contents) :
    WellQueued (runtime.setQueue kind memory) := by
  have sameActions : ∀ other,
      (transferActions (runtime.setQueue kind memory)).background other =
        (transferActions runtime).background other := by
    intro other
    simp [transferActions]
  intro other
  by_cases fetch : (kind = .fetch ↔ other = .fetch)
  · refine ⟨contents, ?_⟩
    have here : (runtime.setQueue kind memory).queue other = memory := by
      by_cases isFetch : kind = .fetch
      · simp [WorkerRuntime.setQueue, WorkerRuntime.queue, isFetch, fetch.mp isFetch]
      · have apart : other ≠ .fetch := fun same => isFetch (fetch.mpr same)
        simp [WorkerRuntime.setQueue, WorkerRuntime.queue, isFetch, apart]
    rw [here]
    exact holds_congr holds sameActions
  · obtain ⟨others, kept⟩ := queued other
    refine ⟨others, ?_⟩
    have there : (runtime.setQueue kind memory).queue other =
        runtime.queue other := by
      by_cases isFetch : kind = .fetch
      · have apart : other ≠ .fetch := by
          intro same
          exact fetch (by simp [isFetch, same])
        simp [WorkerRuntime.setQueue, WorkerRuntime.queue, isFetch, apart]
      · have same : other = .fetch := by
          by_contra apart
          exact fetch (by simp [isFetch, apart])
        simp [WorkerRuntime.setQueue, WorkerRuntime.queue, isFetch, same]
    rw [there]
    exact holds_congr kept sameActions

/-- A claimed action's dispatch leaves the queues as the claim left them, and
what follows puts the action back or in flight. -/
theorem claimAndDispatch_wellQueued
    {runtime : WorkerRuntime} {action : Nat} {poll : Poll} (queued : WellQueued runtime) :
    WellQueued (claimAndDispatch runtime action poll).runtime := by
  obtain ⟨contents, holds⟩ := queued (runtime.actions action).kind
  unfold claimAndDispatch
  simp only
  cases granted :
      claim (transferActions runtime) (runtime.queue (runtime.actions action).kind)
        action with
  | none => exact queued
  | some claimed =>
      obtain ⟨rest, -, after⟩ := claim_holds holds granted
      have idle : claimed.queueState action = .none := by
        rw [(claim_fields granted).1, Function.update_self]
      have claimedQueued :
          WellQueued (runtime.setQueue (runtime.actions action).kind claimed) :=
        wellQueued_setQueue queued after
      simp only
      generalize dispatched :
        (if (runtime.actions action).kind = .fetch then
          dispatchFetch (runtime.setQueue (runtime.actions action).kind claimed)
            action poll
        else
          dispatchEvict (runtime.setQueue (runtime.actions action).kind claimed)
            action poll) = result
      have same :
          SameQueues (runtime.setQueue (runtime.actions action).kind claimed)
            result.runtime := by
        rw [← dispatched]
        split
        · exact dispatchFetch_sameQueues ..
        · exact dispatchEvict_sameQueues ..
      have kept := same.wellQueued claimedQueued
      have queue : result.runtime.queue (runtime.actions action).kind = claimed := by
        have unchanged : result.runtime.queue (runtime.actions action).kind =
            (runtime.setQueue (runtime.actions action).kind claimed).queue
              (runtime.actions action).kind := by
          simp [WorkerRuntime.queue, same.fetchQueue, same.evictQueue]
        rw [unchanged, queue_setQueue]
      have background : ∀ other,
          (transferActions result.runtime).background other =
            (transferActions runtime).background other := by
        intro other
        simpa [transferActions] using same.background other
      cases outcome : result.outcome with
      | failed => exact kept
      | nothing => exact kept
      | retry =>
          simp only
          rw [queue]
          exact wellQueued_setQueue kept
            (holds_congr (returnAction_holds after idle) background)
      | inFlight =>
          simp only
          have published := holds_congr (publishInflight_holds after idle) background
          split
          · have submitted : SameQueues result.runtime
                { result.runtime with
                  submittedCollectiveSequence :=
                    (runtime.actions action).collectiveSequence } :=
              ⟨rfl, rfl, fun _ => rfl⟩
            have sameQueue : ({ result.runtime with
                submittedCollectiveSequence :=
                  (runtime.actions action).collectiveSequence } : WorkerRuntime).queue
                  (runtime.actions action).kind = claimed := queue
            rw [sameQueue]
            exact wellQueued_setQueue (submitted.wellQueued kept) published
          · rw [queue]
            exact wellQueued_setQueue kept published

/-- A poll keeps both queues well formed. -/
theorem handleTransfer_wellQueued
    {runtime : WorkerRuntime} {action : Nat} {poll : Poll} (queued : WellQueued runtime) :
    WellQueued (handleTransfer runtime action poll).runtime := by
  have latched : ∀ status, WellQueued (runtime.latchFailure status) := by
    intro status
    exact SameQueues.wellQueued ⟨rfl, rfl, fun _ => rfl⟩ queued
  unfold handleTransfer
  simp only
  repeat' split
  all_goals first
    | exact queued
    | exact latched _
    | exact (completeAction_sameQueues runtime action).wellQueued queued
    | exact claimAndDispatch_wellQueued queued

/-! ## Runs -/

/-- A poll of a transfer, or anything else that happens to the runtime. -/
inductive Event where
  | poll (action : Nat) (answers : Poll)
  | other (change : WorkerRuntime → WorkerRuntime)

def perform (runtime : WorkerRuntime) : Event → WorkerRuntime
  | .poll action answers => (handleTransfer runtime action answers).runtime
  | .other change => change runtime

/-- The lane asks for a retry in this step. -/
def asks (runtime : WorkerRuntime) : Event → Bool
  | .poll action answers => (handleTransfer runtime action answers).retryAsked
  | .other _ => false

def run (runtime : WorkerRuntime) (events : List Event) : WorkerRuntime :=
  events.foldl perform runtime

/-- The steps of a run in which the lane asks for no retry. -/
def quiet : WorkerRuntime → List Event → List Event
  | _, [] => []
  | runtime, event :: events =>
    if asks runtime event then quiet (perform runtime event) events
    else event :: quiet (perform runtime event) events

/-- What else happens keeps the queues well formed. -/
def Event.Proper : Event → Prop
  | .poll _ _ => True
  | .other change => ∀ runtime, WellQueued runtime → WellQueued (change runtime)

/-- A retry is asked of an unmoved transfer only. -/
def Event.Harmless (runtime : WorkerRuntime) : Event → Prop
  | .poll action answers =>
    (handleTransfer runtime action answers).retryAsked = true →
      Unmoved runtime action
  | .other _ => True

/-- A property of every step of a run, in the state it is taken in. -/
def Always (property : WorkerRuntime → Event → Prop) : WorkerRuntime → List Event → Prop
  | _, [] => True
  | runtime, event :: events =>
    property runtime event ∧ Always property (perform runtime event) events

theorem perform_wellQueued
    {runtime : WorkerRuntime} {event : Event} (proper : event.Proper)
    (queued : WellQueued runtime) : WellQueued (perform runtime event) := by
  cases event with
  | poll action answers => exact handleTransfer_wellQueued queued
  | other change => exact proper runtime queued

/-- A harmless retry leaves the runtime as it was. -/
theorem perform_of_asks
    {runtime : WorkerRuntime} {event : Event} (queued : WellQueued runtime)
    (harmless : event.Harmless runtime) (asked : asks runtime event = true) :
    perform runtime event = runtime := by
  cases event with
  | poll action answers =>
      have asked : (handleTransfer runtime action answers).retryAsked = true := asked
      have unmoved := harmless asked
      have reached := handleTransfer_retry asked
      rw [reached] at asked
      show (handleTransfer runtime action answers).runtime = runtime
      rw [reached]
      exact (claimAndDispatch_retry queued asked).mpr unmoved
  | other change => simp [asks] at asked

/-- A refused attempt leaves the runtime as it was exactly where nothing moves
before the lane answers; and a run whose refused attempts are such ends where
the run without them ends, in which the lane never asks. -/
theorem retry_invisible
    {runtime : WorkerRuntime} (queued : WellQueued runtime) :
    (∀ action poll, (handleTransfer runtime action poll).retryAsked = true →
      ((handleTransfer runtime action poll).runtime = runtime ↔
        Unmoved runtime action)) ∧
      ∀ events, (∀ event ∈ events, event.Proper) →
        Always (fun runtime event => event.Harmless runtime) runtime events →
          run runtime (quiet runtime events) = run runtime events ∧
            Always (fun runtime event => asks runtime event = false) runtime
              (quiet runtime events) := by
  constructor
  · intro action poll asked
    have reached := handleTransfer_retry asked
    rw [reached] at asked ⊢
    exact claimAndDispatch_retry queued asked
  · intro events
    induction events generalizing runtime with
    | nil => exact fun _ _ => ⟨rfl, trivial⟩
    | cons event events ih =>
        intro proper always
        obtain ⟨harmless, later⟩ := always
        have next := perform_wellQueued (proper event List.mem_cons_self) queued
        obtain ⟨same, silent⟩ := ih next
          (fun other member => proper other (List.mem_cons_of_mem _ member)) later
        by_cases asked : asks runtime event = true
        · have stays := perform_of_asks queued harmless asked
          simp only [quiet, if_pos asked, run, List.foldl_cons]
          rw [stays] at same silent ⊢
          exact ⟨same, silent⟩
        · simp only [quiet, if_neg asked, run, List.foldl_cons]
          exact ⟨same, by simpa using asked, silent⟩

/-! ## One transfer polled twice -/

/-- A pool of sixteen bytes with one lease over its first half. -/
def samplePool (state : LeaseState) : MemoryPool where
  ranges :=
    { capacity := 16, allocated := 8, peakAllocated := 8, freeRanges := [⟨8, 8⟩]
      arena := false, nodeCapacity := 0, availableNodes := 0 }
  rangeLeases := [0]
  minimumAlignment := 1
  nextRequestSequence := 1
  nextReleaseSequence := 0
  reservedBytes := if state = .reserved then 8 else 0
  leases := fun lease =>
    if lease = 0 then
      { Lease.blank 0 with
        registered := true
        state := state
        requestedBytes := 8
        chargedBytes := 8
        alignmentBytes := 1
        ownsPoolRange := true }
    else .blank 0

/-- One object with one transfer queued: a fetch of its spill copy, or the
write-back of its execution copy over an old one. -/
def sampleRuntime (kind : ActionKind) : WorkerRuntime :=
  let sizes : Actions Nat := { background := fun _ => false, sizeBytes := fun _ => 8 }
  let base : WorkerRuntime :=
    { objects := fun _ =>
        { sizeBytes := 8
          spillBytes := 8
          retainSpillCopy := true
          residency := if kind = .fetch then .spillOnly else .executionReady
          generation := 0
          authoritativeVersion := 1
          allocation := if kind = .fetch then none else some 0
          execution :=
            if kind = .fetch then {}
            else { lease := some 0, ownsLease := true, current := true, version := 1 }
          spill :=
            { lease := some 0
              ownsLease := true
              current := decide (kind = .fetch)
              version := if kind = .fetch then 1 else 0 }
          readinessEvent := none
          unpublishedFetchCount := if kind = .fetch then 1 else 0
          actions := [0] }
      actions := fun _ =>
        { kind := kind
          object := 0
          background := false
          active := true
          state := .queued
          scheduledVersion := 1
          producesCurrentExecution := true
          producesCurrentSpill := true
          skipsCopy := false
          retiresWhenProcessed := false
          collectiveSequence := 0
          destinationLease := if kind = .fetch then some 0 else none
          triggerEvent := some 0
          completionEvent := none
          dependencyEvent := none }
      executionPool := samplePool (if kind = .fetch then .reserved else .inUse)
      spillPool := samplePool .inUse
      fetchQueue := { queue := { backgroundWindowBytes := 0 } }
      evictQueue := { queue := { backgroundWindowBytes := 0 } }
      submittedCollectiveSequence := 0
      failure := none }
  base.setQueue kind (enqueue sizes (base.queue kind) 0)

/-- A poll in which everything is ready, and the lane gives this answer. -/
def samplePoll (answer : Wait) : Poll where
  triggerComplete := true
  fixedDependencies := .ready
  reservationLockFree := true
  dependencyWaits := none
  dependencyWait := .enqueued
  completionEvent := some 1
  triggerWait := answer
  submitted := true
  triggerReleased := true

theorem sampleRuntime_wellQueued (kind : ActionKind) :
    WellQueued (sampleRuntime kind) := by
  have empty : ∀ actions : Actions Nat,
      Holds actions { queue := { backgroundWindowBytes := 0 } } {} := by
    intro actions
    constructor
    · intro background
      cases background <;> exact Library.LinkedQueues.represents_nil _
    · exact Library.LinkedQueues.represents_nil _
    all_goals simp
  apply wellQueued_setQueue
  · intro other
    refine ⟨{}, ?_⟩
    cases other <;> exact empty _
  · cases kind <;> exact enqueue_holds (empty _) rfl

/-- A write-back whose lane asks for one retry ends as if it had not. -/
theorem retry_invisible_writeBack :
    run (sampleRuntime .writeBack)
        (quiet (sampleRuntime .writeBack)
          [.poll 0 (samplePoll .retry), .poll 0 (samplePoll .enqueued)]) =
      run (sampleRuntime .writeBack)
        [.poll 0 (samplePoll .retry), .poll 0 (samplePoll .enqueued)] := by
  have result := (retry_invisible (sampleRuntime_wellQueued .writeBack)).2
    [.poll 0 (samplePoll .retry), .poll 0 (samplePoll .enqueued)]
  refine (result ?_ ?_).1
  · intro event member
    fin_cases member <;> trivial
  · refine ⟨fun _ => ⟨by decide, by decide⟩, fun asked => ?_, trivial⟩
    exact absurd asked (by decide)

/-- A fetch whose lane asks for one retry fails on the next poll, where the run
without the retry dispatches it. -/
theorem retry_visible_fetch :
    ¬ ∀ runtime events, WellQueued runtime → (∀ event ∈ events, event.Proper) →
      run runtime (quiet runtime events) = run runtime events := by
  intro invisible
  have same := invisible (sampleRuntime .fetch)
    [.poll 0 (samplePoll .retry), .poll 0 (samplePoll .enqueued)]
    (sampleRuntime_wellQueued .fetch)
    (by
      intro event member
      fin_cases member <;> trivial)
  have failure := congrArg WorkerRuntime.failure same
  exact absurd failure (by decide)

end ShadowSpill.Runtime.TransferRetries
