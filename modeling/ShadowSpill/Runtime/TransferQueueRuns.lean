import ShadowSpill.Runtime.TransferQueues

/-!
# Runs of a transfer queue

Boundaries enqueue at any moment; the one worker claims an action, and then
returns it, publishes it in flight or, when its dispatch fails, leaves it
claimed; and it completes what has landed.  No action is lost, duplicated or
overtaken in any of these runs.  The bytes in flight stay within the window as
long as a full window is not taken for an empty one.
-/

namespace ShadowSpill.Runtime.TransferQueueRuns

open Library.LinkedQueues TransferQueues

variable {ι : Type}

/-! ## Steps -/

/-- One step on a route's queue, with its outcome. -/
inductive Event (ι : Type) where
  | enqueued (action : ι)
  | claimed (action : ι)
  | claimRefused (action : ι)
  | returned (action : ι)
  | published (action : ι)
  | abandoned (action : ι)
  | completed (action : ι)
  | completeRefused (action : ι)
deriving DecidableEq, Repr

/-- The queue, the `active` marks of the actions, and the action the worker has
claimed and not settled yet. -/
structure State (ι : Type) where
  memory : Memory ι
  active : ι → Bool := fun _ => false
  busy : Option ι := none

/-- A queue just initialized, with its window. -/
def initial (window : Nat) : State ι :=
  { memory := { queue := { backgroundWindowBytes := window } } }

section Steps

variable [DecidableEq ι] (actions : Actions ι)

/-- A boundary refuses an action that is still active; the worker handles one
action at a time; a completed action is reset. -/
def step (state : State ι) : Event ι → Option (State ι)
  | .enqueued action =>
    if state.active action then none
    else
      some
        { state with
          memory := enqueue actions state.memory action
          active := Function.update state.active action true }
  | .claimed action =>
    if state.busy.isSome then none
    else
      (claim actions state.memory action).map fun memory =>
        { state with memory, busy := some action }
  | .claimRefused action =>
    if state.busy.isSome ∨ (claim actions state.memory action).isSome then none
    else some state
  | .returned action =>
    if state.busy = some action then
      some
        { state with
          memory := returnAction actions state.memory action, busy := none }
    else none
  | .published action =>
    if state.busy = some action then
      some
        { state with
          memory := publishInflight actions state.memory action, busy := none }
    else none
  | .abandoned action =>
    if state.busy = some action then some { state with busy := none } else none
  | .completed action =>
    if state.busy.isSome then none
    else
      (complete actions state.memory action).map fun memory =>
        { state with memory, active := Function.update state.active action false }
  | .completeRefused action =>
    if state.busy.isSome ∨ (complete actions state.memory action).isSome then none
    else some state

/-- The states a new queue reaches by permitted steps, each with the steps
taken. -/
inductive Reached (permitted : State ι → Event ι → Prop) (window : Nat) :
    List (Event ι) → State ι → Prop where
  | start : Reached permitted window [] (initial window)
  | next {trace : List (Event ι)} {state final : State ι} (event : Event ι)
      (before : Reached permitted window trace state)
      (allowed : permitted state event)
      (stepped : step actions state event = some final) :
      Reached permitted window (trace ++ [event]) final

end Steps

/-! ## What a trace records -/

def Event.enqueuedAction : Event ι → Option ι
  | .enqueued action => some action
  | _ => none

def Event.publishedAction : Event ι → Option ι
  | .published action => some action
  | _ => none

def Event.abandonedAction : Event ι → Option ι
  | .abandoned action => some action
  | _ => none

def Event.completedAction : Event ι → Option ι
  | .completed action => some action
  | _ => none

/-- Actions in the order they were enqueued. -/
def enqueues (trace : List (Event ι)) : List ι :=
  trace.filterMap Event.enqueuedAction

/-- Actions in the order they were put in flight. -/
def publications (trace : List (Event ι)) : List ι :=
  trace.filterMap Event.publishedAction

/-- Actions whose dispatch failed. -/
def abandonments (trace : List (Event ι)) : List ι :=
  trace.filterMap Event.abandonedAction

/-- Actions in the order they completed. -/
def completions (trace : List (Event ι)) : List ι :=
  trace.filterMap Event.completedAction

/-- A return takes back the latest claim. -/
def take (claims : List ι) : Event ι → List ι
  | .claimed action => claims ++ [action]
  | .returned _ => claims.dropLast
  | _ => claims

/-- The claims in effect, in the order they were made. -/
def claims (trace : List (Event ι)) : List ι :=
  trace.foldl take []

/-- The claimed actions: the one the worker is at, and the failed ones. -/
def held (trace : List (Event ι)) (state : State ι) : List ι :=
  state.busy.toList ++ abandonments trace

section Append

variable (trace : List (Event ι)) (event : Event ι)

@[simp] theorem enqueues_append :
    enqueues (trace ++ [event]) = enqueues trace ++ event.enqueuedAction.toList := by
  cases event <;> simp [enqueues, Event.enqueuedAction]

@[simp] theorem publications_append :
    publications (trace ++ [event]) =
      publications trace ++ event.publishedAction.toList := by
  cases event <;> simp [publications, Event.publishedAction]

@[simp] theorem abandonments_append :
    abandonments (trace ++ [event]) =
      abandonments trace ++ event.abandonedAction.toList := by
  cases event <;> simp [abandonments, Event.abandonedAction]

@[simp] theorem completions_append :
    completions (trace ++ [event]) =
      completions trace ++ event.completedAction.toList := by
  cases event <;> simp [completions, Event.completedAction]

@[simp] theorem claims_append :
    claims (trace ++ [event]) = take (claims trace) event := by
  simp [claims]

end Append

/-! ## Places and orders -/

/-- The actions of one kind, in the order of the list. -/
def ofKind (actions : Actions ι) (background : Bool) (items : List ι) : List ι :=
  items.filter fun action => actions.background action == background

@[simp] theorem ofKind_append (actions : Actions ι) (background : Bool)
    (first second : List ι) :
    ofKind actions background (first ++ second) =
      ofKind actions background first ++ ofKind actions background second :=
  List.filter_append ..

theorem ofKind_singleton (actions : Actions ι) (background : Bool) (action : ι) :
    ofKind actions background [action] =
      if actions.background action = background then [action] else [] := by
  by_cases same : actions.background action = background <;> simp [ofKind, same]

/-- What every run keeps. -/
structure Traced (actions : Actions ι) (trace : List (Event ι)) (state : State ι)
    (contents : Contents ι) : Prop where
  holds : Holds actions state.memory contents
  idle : ∀ action, state.active action = false →
    state.memory.queueState action = .none
  heldIdle : ∀ action ∈ held trace state,
    state.memory.queueState action = .none ∧ state.active action = true
  heldOnce : (held trace state).Nodup
  claimOrder : ∀ background,
    ofKind actions background (enqueues trace) =
      ofKind actions background (claims trace) ++ contents.waiting background
  claimed : (claims trace).Perm (held trace state ++ publications trace)
  latest : ∀ action, state.busy = some action →
    ∃ earlier, claims trace = earlier ++ [action]
  completionOrder : publications trace = completions trace ++ contents.inflight

namespace Traced

variable {actions : Actions ι} {trace : List (Event ι)} {state : State ι}
variable {contents : Contents ι}

theorem start (window : Nat) : Traced actions [] (initial window) {} where
  holds :=
    { waiting := fun background => by
        cases background <;> exact represents_nil _
      inflight := represents_nil _
      kind := by simp
      pendingState := by simp [initial]
      inflightState := by simp [initial] }
  idle := fun _ _ => rfl
  heldIdle := by simp [held, initial, abandonments]
  heldOnce := by simp [held, initial, abandonments]
  claimOrder := by simp [ofKind, enqueues, claims]
  claimed := by simp [claims, held, initial, abandonments, publications]
  latest := by simp [initial]
  completionOrder := rfl

theorem active_of_queued
    (traced : Traced actions trace state contents) {action : ι}
    (queued : state.memory.queueState action ≠ .none) :
    state.active action = true := by
  by_contra inactive
  exact queued (traced.idle action (by simpa using inactive))

/-- The action the worker is at is in no list, and is none of the failed ones. -/
theorem busy_facts
    (traced : Traced actions trace state contents) {action : ι}
    (busy : state.busy = some action) :
    state.memory.queueState action = .none ∧ state.active action = true ∧
      action ∉ abandonments trace ∧ (abandonments trace).Nodup := by
  have idle := traced.heldIdle action (by simp [held, busy])
  have once := traced.heldOnce
  simp only [held, busy, Option.toList_some, List.singleton_append,
    List.nodup_cons] at once
  exact ⟨idle.1, idle.2, once.1, once.2⟩

variable {action : ι}

theorem abandoned
    (traced : Traced actions trace state contents)
    (busy : state.busy = some action) :
    Traced actions (trace ++ [.abandoned action]) { state with busy := none }
      contents := by
  obtain ⟨idle, active, fresh, once⟩ := traced.busy_facts busy
  have sameHeld : ∀ other,
      other ∈ held (trace ++ [.abandoned action]) { state with busy := none } ↔
        other ∈ held trace state := by
    intro other
    simp [held, busy, Event.abandonedAction, or_comm]
  constructor
  · exact traced.holds
  · exact traced.idle
  · exact fun other member => traced.heldIdle other ((sameHeld other).mp member)
  · simp only [held, Option.toList_none, List.nil_append, abandonments_append,
      Event.abandonedAction, Option.toList_some]
    exact (List.perm_append_singleton action _).nodup_iff.mpr
      (List.nodup_cons.mpr ⟨fresh, once⟩)
  · simpa [Event.enqueuedAction, take] using traced.claimOrder
  · have parts := traced.claimed
    simp only [held, busy, Option.toList_some] at parts
    simp only [claims_append, take, held, Option.toList_none, List.nil_append,
      abandonments_append, Event.abandonedAction, Option.toList_some,
      publications_append, Event.publishedAction, List.append_nil]
    exact parts.trans (List.perm_append_comm.append_right _)
  · simp
  · simpa [Event.publishedAction, Event.completedAction] using traced.completionOrder

/-- A refused attempt leaves everything as it was. -/
theorem refused
    (traced : Traced actions trace state contents) {event : Event ι}
    (attempt : event = .claimRefused action ∨ event = .completeRefused action) :
    Traced actions (trace ++ [event]) state contents := by
  rcases attempt with rfl | rfl <;>
    exact
      { holds := traced.holds
        idle := traced.idle
        heldIdle := by
          simpa [held, Event.abandonedAction] using traced.heldIdle
        heldOnce := by
          simpa [held, Event.abandonedAction] using traced.heldOnce
        claimOrder := by
          simpa [Event.enqueuedAction, take] using traced.claimOrder
        claimed := by
          simpa [held, Event.abandonedAction, Event.publishedAction, take]
            using traced.claimed
        latest := by simpa [take] using traced.latest
        completionOrder := by
          simpa [Event.publishedAction, Event.completedAction]
            using traced.completionOrder }

variable [DecidableEq ι]

theorem enqueued
    (traced : Traced actions trace state contents)
    (inactive : state.active action = false) :
    Traced actions (trace ++ [.enqueued action])
      { state with
        memory := enqueue actions state.memory action
        active := Function.update state.active action true }
      { contents with
        waiting := Function.update contents.waiting (actions.background action)
          (contents.waiting (actions.background action) ++ [action]) } := by
  have apart : ∀ other ∈ held trace state, other ≠ action := by
    rintro other member rfl
    exact absurd (traced.heldIdle other member).2 (by simp [inactive])
  have sameHeld : ∀ (memory : Memory ι) (active : ι → Bool),
      held (trace ++ [.enqueued action]) { state with memory, active } =
        held trace state := by
    intro memory active
    simp [held, Event.abandonedAction]
  constructor
  · exact enqueue_holds traced.holds (traced.idle action inactive)
  · intro other stillInactive
    have different : other ≠ action := by
      rintro rfl
      simp at stillInactive
    simp only [Function.update_of_ne different] at stillInactive
    simp only [enqueue, Function.update_of_ne different]
    exact traced.idle other stillInactive
  · intro other member
    rw [sameHeld] at member
    simp only [enqueue, Function.update_of_ne (apart other member)]
    exact traced.heldIdle other member
  · rw [sameHeld]
    exact traced.heldOnce
  · intro background
    have order := traced.claimOrder background
    by_cases same : background = actions.background action
    · subst same
      simp [Event.enqueuedAction, take, ofKind_singleton, order]
    · simp [Event.enqueuedAction, take, ofKind_singleton, order,
        Function.update_of_ne same, Ne.symm same]
  · rw [sameHeld]
    simpa [Event.publishedAction, take] using traced.claimed
  · simpa [take] using traced.latest
  · simpa [Event.publishedAction, Event.completedAction] using traced.completionOrder

theorem claimedOne
    (traced : Traced actions trace state contents)
    (free : state.busy = none) {memory : Memory ι}
    (granted : claim actions state.memory action = some memory) :
    ∃ rest,
      contents.waiting (actions.background action) = action :: rest ∧
      Traced actions (trace ++ [.claimed action])
        { state with memory, busy := some action }
        { contents with
          waiting :=
            Function.update contents.waiting (actions.background action) rest } := by
  obtain ⟨rest, list, after⟩ := claim_holds traced.holds granted
  refine ⟨rest, list, ?_⟩
  have queued : state.memory.queueState action = .pending :=
    traced.holds.waiting_state (list ▸ List.mem_cons_self)
  have states : memory.queueState =
      Function.update state.memory.queueState action .none :=
    (claim_fields granted).1
  have fresh : action ∉ abandonments trace := by
    intro member
    have idle := (traced.heldIdle action (by simp [held, member])).1
    simp [queued] at idle
  constructor
  · exact after
  · intro other inactive
    rw [states]
    by_cases same : other = action
    · rw [same, Function.update_self]
    · rw [Function.update_of_ne same]
      exact traced.idle other inactive
  · intro other member
    rw [states]
    by_cases same : other = action
    · subst same
      rw [Function.update_self]
      exact ⟨rfl, traced.active_of_queued (by simp [queued])⟩
    · rw [Function.update_of_ne same]
      apply traced.heldIdle
      simpa [held, free, Event.abandonedAction, same] using member
  · have once := traced.heldOnce
    simpa [held, free, Event.abandonedAction, fresh] using once
  · intro background
    have order := traced.claimOrder background
    by_cases same : background = actions.background action
    · subst same
      simp [Event.enqueuedAction, take, ofKind_singleton, order, list]
    · simp [Event.enqueuedAction, take, ofKind_singleton, order,
        Function.update_of_ne same, Ne.symm same]
  · have parts := traced.claimed
    simp only [held, free, Option.toList_none, List.nil_append] at parts
    simp only [claims_append, take, held, Option.toList_some, abandonments_append,
      Event.abandonedAction, Option.toList_none, List.append_nil,
      publications_append, Event.publishedAction]
    exact (List.perm_append_singleton action (claims trace)).trans
      (parts.cons action)
  · intro other same
    obtain rfl : action = other := by simpa using same
    exact ⟨claims trace, by simp [take]⟩
  · simpa [Event.publishedAction, Event.completedAction] using traced.completionOrder

theorem returned
    (traced : Traced actions trace state contents)
    (busy : state.busy = some action) :
    Traced actions (trace ++ [.returned action])
      { state with memory := returnAction actions state.memory action, busy := none }
      { contents with
        waiting := Function.update contents.waiting (actions.background action)
          (action :: contents.waiting (actions.background action)) } := by
  obtain ⟨idle, active, fresh, once⟩ := traced.busy_facts busy
  obtain ⟨earlier, latest⟩ := traced.latest action busy
  constructor
  · exact returnAction_holds traced.holds idle
  · intro other inactive
    have different : other ≠ action := by
      rintro rfl
      simp [active] at inactive
    simp only [returnAction, Function.update_of_ne different]
    exact traced.idle other inactive
  · intro other member
    have failed : other ∈ abandonments trace := by
      simpa [held, Event.abandonedAction] using member
    have different : other ≠ action := by
      rintro rfl
      exact fresh failed
    simp only [returnAction, Function.update_of_ne different]
    exact traced.heldIdle other (by simp [held, failed])
  · simpa [held, Event.abandonedAction] using once
  · intro background
    have order := traced.claimOrder background
    rw [latest, ofKind_append, ofKind_singleton] at order
    by_cases same : background = actions.background action
    · subst same
      simpa [Event.enqueuedAction, take, latest] using order
    · simpa [Event.enqueuedAction, take, latest, Function.update_of_ne same,
        Ne.symm same] using order
  · have parts := traced.claimed
    simp only [latest, held, busy, Option.toList_some,
      List.cons_append] at parts
    have split := (List.perm_append_singleton action earlier).symm.trans parts
    simpa [take, latest, held, Event.abandonedAction, Event.publishedAction]
      using split.cons_inv
  · simp
  · simpa [Event.publishedAction, Event.completedAction] using traced.completionOrder

theorem published
    (traced : Traced actions trace state contents)
    (busy : state.busy = some action) :
    Traced actions (trace ++ [.published action])
      { state with
        memory := publishInflight actions state.memory action, busy := none }
      { contents with inflight := contents.inflight ++ [action] } := by
  obtain ⟨idle, active, fresh, once⟩ := traced.busy_facts busy
  constructor
  · exact publishInflight_holds traced.holds idle
  · intro other inactive
    have different : other ≠ action := by
      rintro rfl
      simp [active] at inactive
    simp only [publishInflight, Function.update_of_ne different]
    exact traced.idle other inactive
  · intro other member
    have failed : other ∈ abandonments trace := by
      simpa [held, Event.abandonedAction] using member
    have different : other ≠ action := by
      rintro rfl
      exact fresh failed
    simp only [publishInflight, Function.update_of_ne different]
    exact traced.heldIdle other (by simp [held, failed])
  · simpa [held, Event.abandonedAction] using once
  · simpa [Event.enqueuedAction, take] using traced.claimOrder
  · have parts := traced.claimed
    simp only [held, busy, Option.toList_some,
      List.cons_append] at parts
    simp only [claims_append, take, held, Option.toList_none, List.nil_append,
      abandonments_append, Event.abandonedAction, List.append_nil,
      publications_append, Event.publishedAction, Option.toList_some,
      ← List.append_assoc]
    exact parts.trans (List.perm_append_singleton action _).symm
  · simp
  · simp [Event.publishedAction, Event.completedAction, traced.completionOrder]

theorem completed
    (traced : Traced actions trace state contents)
    (free : state.busy = none) {memory : Memory ι}
    (granted : complete actions state.memory action = some memory) :
    ∃ rest,
      contents.inflight = action :: rest ∧
      Traced actions (trace ++ [.completed action])
        { state with memory, active := Function.update state.active action false }
        { contents with inflight := rest } := by
  obtain ⟨rest, list, after⟩ := complete_holds traced.holds granted
  refine ⟨rest, list, ?_⟩
  have flies : state.memory.queueState action = .inflight :=
    (traced.holds.inflightState action).mpr (list ▸ List.mem_cons_self)
  have states : memory.queueState =
      Function.update state.memory.queueState action .none :=
    (complete_fields granted).1
  have sameHeld :
      held (trace ++ [.completed action])
        { state with memory, active := Function.update state.active action false } =
        held trace state := by
    simp [held, Event.abandonedAction]
  constructor
  · exact after
  · intro other inactive
    rw [states]
    by_cases same : other = action
    · rw [same, Function.update_self]
    · rw [Function.update_of_ne same]
      simp only [Function.update_of_ne same] at inactive
      exact traced.idle other inactive
  · intro other member
    rw [sameHeld] at member
    have known := traced.heldIdle other member
    have different : other ≠ action := by
      rintro rfl
      simp [flies] at known
    rw [states]
    simp only [Function.update_of_ne different]
    exact known
  · rw [sameHeld]
    exact traced.heldOnce
  · simpa [Event.enqueuedAction, take] using traced.claimOrder
  · rw [sameHeld]
    simpa [take, Event.publishedAction] using traced.claimed
  · simp [free]
  · simp [Event.publishedAction, Event.completedAction, traced.completionOrder, list]

end Traced

/-- The list in flight after a step. -/
def InflightAfter (before after : List ι) : Event ι → Prop
  | .published action => after = before ++ [action]
  | .completed action => before = action :: after
  | _ => after = before

section Runs

variable [DecidableEq ι] {actions : Actions ι} {trace : List (Event ι)}
variable {state final : State ι} {contents : Contents ι} {event : Event ι}

/-- Each step keeps places and orders. -/
theorem Traced.step
    (traced : Traced actions trace state contents)
    (stepped : step actions state event = some final) :
    ∃ next, Traced actions (trace ++ [event]) final next ∧
      InflightAfter contents.inflight next.inflight event := by
  cases event with
  | enqueued action =>
      simp only [TransferQueueRuns.step] at stepped
      split at stepped
      · simp at stepped
      · rename_i inactive
        cases stepped
        exact ⟨_, traced.enqueued (by simpa using inactive), rfl⟩
  | claimed action =>
      simp only [TransferQueueRuns.step] at stepped
      split at stepped
      · simp at stepped
      · rename_i free
        obtain ⟨memory, granted, rfl⟩ := Option.map_eq_some_iff.mp stepped
        obtain ⟨rest, -, after⟩ := traced.claimedOne (by simpa using free) granted
        exact ⟨_, after, rfl⟩
  | claimRefused action =>
      simp only [TransferQueueRuns.step] at stepped
      split at stepped
      · simp at stepped
      · cases stepped
        exact ⟨contents, traced.refused (Or.inl rfl), rfl⟩
  | returned action =>
      simp only [TransferQueueRuns.step] at stepped
      split at stepped
      · rename_i busy
        cases stepped
        exact ⟨_, traced.returned busy, rfl⟩
      · simp at stepped
  | published action =>
      simp only [TransferQueueRuns.step] at stepped
      split at stepped
      · rename_i busy
        cases stepped
        exact ⟨_, traced.published busy, rfl⟩
      · simp at stepped
  | abandoned action =>
      simp only [TransferQueueRuns.step] at stepped
      split at stepped
      · rename_i busy
        cases stepped
        exact ⟨_, traced.abandoned busy, rfl⟩
      · simp at stepped
  | completed action =>
      simp only [TransferQueueRuns.step] at stepped
      split at stepped
      · simp at stepped
      · rename_i free
        obtain ⟨memory, granted, rfl⟩ := Option.map_eq_some_iff.mp stepped
        obtain ⟨rest, list, after⟩ := traced.completed (by simpa using free) granted
        exact ⟨_, after, list⟩
  | completeRefused action =>
      simp only [TransferQueueRuns.step] at stepped
      split at stepped
      · simp at stepped
      · cases stepped
        exact ⟨contents, traced.refused (Or.inr rfl), rfl⟩

/-- Every run keeps places and orders, whatever the sizes and the window. -/
theorem reached_traced
    {permitted : State ι → Event ι → Prop} {window : Nat}
    (reached : Reached actions permitted window trace state) :
    ∃ contents, Traced actions trace state contents := by
  induction reached with
  | start => exact ⟨_, Traced.start window⟩
  | next event _ _ stepped ih =>
      obtain ⟨contents, traced⟩ := ih
      obtain ⟨next, after, -⟩ := traced.step stepped
      exact ⟨next, after⟩

end Runs

end ShadowSpill.Runtime.TransferQueueRuns
