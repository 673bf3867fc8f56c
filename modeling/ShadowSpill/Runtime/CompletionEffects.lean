import ShadowSpill.Runtime.CompletionTracking

/-!
# Completion tracking over every interleaving

A section lets a record go exactly when it drops the last reference to it, and completes
at most the head of one stream.  With the invariant of `CompletionTracking` nothing is
lost and nothing completes twice, whatever the threads do.
-/

namespace ShadowSpill.Runtime.CompletionEffects

open EventRecords EventQueues EventPoolInvariant EventReferences CompletionOrder
open CompletionTracking

variable {κ : Type} [DecidableEq κ]
variable {state next : State κ} {event : EventId} {stream : κ} {index : Nat}

/-! ## What one section does -/

/-- At most one event completes, the head of its stream; a flag goes up only when
everything submitted before is complete; a record is let go exactly when its last
reference is; and the free list gains only records that were let go, or new ones. -/
structure Effect (state next : State κ) : Prop where
  completed : next.completions = state.completions ∨
    ∃ stream event ticket, headOf state stream = some (event, ticket) ∧
      (state.records event).complete = true ∧
      next.completions = state.completions ++ [(stream, event, ticket)]
  raised : ∀ event, (next.records event).complete = true →
    (state.records event).complete = true ∨ ∃ stream, EarlierComplete state stream event
  letGo : ∀ event, (event ∈ next.returning ∧ event ∉ state.returning) ↔
    ((state.records event).references ≠ 0 ∧ (next.records event).references = 0)
  returned : ∀ event ∈ state.returning, event ∉ next.returning →
    (state.records event).poolOwned = true → event ∈ next.pool.freeList
  freed : ∀ event ∈ next.pool.freeList,
    event ∈ state.pool.freeList ∨ event ∈ state.returning ∨ state.fresh ≤ event

/-- A section that completes nothing, raises no flag and lets nothing go. -/
theorem effect_of_quiet
    (completions : next.completions = state.completions)
    (raised : ∀ event, (next.records event).complete = true →
      (state.records event).complete = true)
    (references : ∀ event, (next.records event).references = 0 →
      (state.records event).references = 0)
    (returning : next.returning = state.returning)
    (freed : ∀ event ∈ next.pool.freeList,
      event ∈ state.pool.freeList ∨ state.fresh ≤ event) :
    Effect state next := by
  constructor
  case completed => exact Or.inl completions
  case raised => exact fun event complete => Or.inl (raised event complete)
  case letGo =>
    intro event
    rw [returning]
    constructor
    · rintro ⟨mem, apart⟩
      exact absurd mem apart
    · rintro ⟨positive, zero⟩
      exact absurd (references event zero) positive
  case returned =>
    intro event mem apart
    rw [returning] at apart
    exact absurd mem apart
  case freed => exact fun event mem => (freed event mem).imp_right Or.inr

theorem effect_reserve (minimum : Nat) : Effect state (reserve state minimum) := by
  unfold reserve
  split
  · exact effect_of_quiet rfl (fun _ raised => raised) (fun _ zero => zero) rfl
      (fun _ mem => Or.inl mem)
  · exact effect_of_quiet rfl (fun _ raised => raised) (fun _ zero => zero) rfl
      (fun _ mem => Or.inl mem)

theorem effect_reserveLink (sound : Sound state) (additional : Nat) :
    Effect state (reserveLink state additional) := by
  have unused : ∀ event, state.fresh ≤ event → (state.records event).references = 0 := by
    intro event lower
    apply sound.count.references_eq_zero.mpr
    exact fun isHeld => absurd (sound.count.known event isHeld) (Nat.not_lt.mpr lower)
  refine effect_of_quiet rfl ?_ ?_ rfl ?_
  · intro event raised
    by_cases inside : state.fresh ≤ event ∧ event < state.fresh + additional
    · have eq : (reserveLink state additional).records event = unusedRecord true :=
        if_pos inside
      rw [eq] at raised
      cases raised
    · have eq : (reserveLink state additional).records event = state.records event :=
        if_neg inside
      rwa [eq] at raised
  · intro event zero
    by_cases inside : state.fresh ≤ event ∧ event < state.fresh + additional
    · exact unused event inside.1
    · have eq : (reserveLink state additional).records event = state.records event :=
        if_neg inside
      rwa [eq] at zero
  · intro event mem
    rcases List.mem_append.mp mem with new | old
    · exact Or.inr (mem_newBlock.mp (List.mem_reverse.mp new)).1
    · exact Or.inl old

theorem effect_takePooled {rest : List EventId}
    (first : state.pool.freeList = event :: rest) :
    Effect state (takePooled state event rest) := by
  refine effect_of_quiet rfl (fun _ raised => raised) (fun _ zero => zero) rfl ?_
  intro other mem
  apply Or.inl
  rw [first]
  exact List.mem_cons_of_mem event mem

/-- A change of one record without references that leaves its flag down. -/
theorem effect_of_setRecord {record : EventRecord}
    (completions : next.completions = state.completions)
    (records : next.records = setRecord state.records event record)
    (raised : record.complete = true → (state.records event).complete = true)
    (references : record.references = 0 → (state.records event).references = 0)
    (returning : next.returning = state.returning)
    (freeList : next.pool.freeList = state.pool.freeList) :
    Effect state next := by
  apply effect_of_quiet completions
  · rw [records]
    exact @forall_setRecord _ _ _
      (fun other record => record.complete = true → (state.records other).complete = true)
      (fun _ _ complete => complete) raised
  · rw [records]
    exact @forall_setRecord _ _ _
      (fun other record => record.references = 0 → (state.records other).references = 0)
      (fun _ _ zero => zero) references
  · exact returning
  · rw [freeList]
    exact fun _ mem => Or.inl mem

theorem effect_takeAllocated (sound : Sound state) : Effect state (takeAllocated state) := by
  refine effect_of_setRecord rfl rfl ?_ ?_ rfl rfl
  · intro impossible
    cases impossible
  · intro _
    apply sound.count.references_eq_zero.mpr
    exact fun isHeld => absurd (sound.count.known _ isHeld) (Nat.lt_irrefl _)

theorem effect_openRecord : Effect state (openRecord state event) := by
  refine effect_of_setRecord rfl rfl ?_ ?_ rfl ?_
  · intro impossible
    cases impossible
  · intro impossible
    cases impossible
  · rw [openRecord_pool]

/-- Only a record outside the pool can fail to have an event. -/
theorem effect_failRecord (sound : Sound state)
    (noEvent : (state.records event).hasEvent = false) :
    Effect state (failRecord state event) := by
  have outside : (state.records event).poolOwned ≠ true := by
    intro isOwned
    have isBlock := (sound.pool.owned event).mp isOwned
    rw [sound.pool.events event isBlock] at noEvent
    cases noEvent
  have eq : failRecord state event =
      { state with creating := state.creating.erase event } := by
    unfold failRecord releaseRecord
    exact if_neg outside
  rw [eq]
  exact effect_of_quiet rfl (fun _ raised => raised) (fun _ zero => zero) rfl
    (fun _ mem => Or.inl mem)

theorem effect_retain (clients : List EventId) (pollers : List (Poller κ)) :
    Effect state { state with
      records := retainReference state.records event
      clients := clients
      pollers := pollers } := by
  refine effect_of_setRecord rfl rfl (fun raised => raised) ?_ rfl rfl
  intro impossible
  cases impossible

/-- The last reference lets the record go, and no other. -/
theorem effect_drop (sound : Sound state) (isHeld : event ∈ held state)
    (clients : List EventId) (pollers : List (Poller κ)) :
    Effect state { dropReference state event with clients := clients, pollers := pollers } := by
  have unparked : event ∉ state.returning := fun mem =>
    sound.count.unheld event (mem_parked_of_returning mem) isHeld
  have positive : (state.records event).references ≠ 0 :=
    fun zero => sound.count.references_eq_zero.mp zero isHeld
  unfold dropReference
  split
  case isTrue last =>
    constructor
    case completed => exact Or.inl rfl
    case raised =>
      apply @forall_setRecord _ _ _
        (fun other record => record.complete = true → (state.records other).complete = true ∨
          ∃ stream, EarlierComplete state stream other)
      · exact fun _ _ complete => Or.inl complete
      · intro impossible
        cases impossible
    case letGo =>
      intro other
      by_cases same : other = event
      · subst same
        apply iff_of_true
        · exact ⟨List.mem_cons_self, unparked⟩
        · refine ⟨positive, ?_⟩
          show (setRecord state.records other _ other).references = 0
          rw [setRecord_same]
      · show (other ∈ event :: state.returning ∧ _) ↔
          (_ ∧ (setRecord state.records event _ other).references = 0)
        rw [setRecord_other same, List.mem_cons]
        apply iff_of_false
        · rintro ⟨here | there, apart⟩
          · exact same here
          · exact apart there
        · rintro ⟨nonzero, zero⟩
          exact nonzero zero
    case returned =>
      intro other mem apart
      exact absurd (List.mem_cons_of_mem event mem) apart
    case freed => exact fun other mem => Or.inl mem
  case isFalse more =>
    refine effect_of_setRecord rfl rfl (fun raised => raised) ?_ rfl rfl
    intro zero
    have one : (state.records event).references - 1 = 0 := zero
    omega

theorem effect_giveBack (sound : Sound state) (let_go : event ∈ state.returning) :
    Effect state (giveBack state event) := by
  have nodup : state.returning.Nodup := by
    have all := (List.nodup_append.mp sound.pool.parked_nodup).2.1
    exact (List.nodup_append.mp all).2.1
  have others : ∀ other, other ∈ state.returning →
      other ∉ state.returning.erase event → other = event := by
    intro other mem gone
    apply Classical.byContradiction
    intro different
    exact gone ((List.mem_erase_of_ne different).mpr mem)
  have references : ∀ other,
      ¬((state.records other).references ≠ 0 ∧ (state.records other).references = 0) :=
    fun other both => both.1 both.2
  have kept : ∀ other, ¬(other ∈ state.returning.erase event ∧ other ∉ state.returning) :=
    fun other both => both.2 (List.mem_of_mem_erase both.1)
  unfold giveBack releaseRecord
  dsimp only
  split
  case isTrue isOwned =>
    constructor
    case completed => exact Or.inl rfl
    case raised => exact fun other complete => Or.inl complete
    case letGo => exact fun other => iff_of_false (kept other) (references other)
    case returned =>
      intro other mem gone _
      rw [others other mem gone]
      exact List.mem_cons_self
    case freed =>
      intro other mem
      rcases List.mem_cons.mp mem with rfl | old
      · exact Or.inr (Or.inl let_go)
      · exact Or.inl old
  case isFalse notOwned =>
    constructor
    case completed => exact Or.inl rfl
    case raised => exact fun other complete => Or.inl complete
    case letGo => exact fun other => iff_of_false (kept other) (references other)
    case returned =>
      intro other mem gone isOwned
      rw [others other mem gone] at isOwned
      exact absurd isOwned notOwned
    case freed => exact fun other mem => Or.inl mem

theorem effect_submit : Effect state (submit state stream event) := by
  unfold submit
  split
  · exact effect_of_quiet rfl (fun _ raised => raised) (fun _ zero => zero) rfl
      (fun _ mem => Or.inl mem)
  · refine effect_of_setRecord rfl rfl (fun raised => raised) ?_ rfl rfl
    intro impossible
    cases impossible

theorem effect_setPoller {poller : Poller κ} : Effect state (setPoller state index poller) :=
  effect_of_quiet rfl (fun _ raised => raised) (fun _ zero => zero) rfl
    (fun _ mem => Or.inl mem)

/-- The flag goes up when everything submitted before is complete. -/
theorem effect_queryEvent {answer : Answer} (sound : Sound state)
    (retained : state.pollers[index]? = some (.snapshot stream event)) :
    Effect state (queryEvent state index stream event answer) := by
  have before := sound.poll _ (List.mem_of_getElem? retained)
  have kept : ∀ record : EventRecord,
      record.references = (state.records event).references →
      ∀ other, (setRecord state.records event record other).references = 0 →
        (state.records other).references = 0 := by
    intro record same
    apply @forall_setRecord _ _ _
      (fun other record => record.references = 0 → (state.records other).references = 0)
      (fun _ _ zero => zero)
    rw [same]
    exact fun zero => zero
  unfold queryEvent
  split
  case isTrue => exact effect_setPoller
  case isFalse =>
    constructor
    case completed => exact Or.inl rfl
    case raised =>
      apply @forall_setRecord _ _ _
        (fun other record => record.complete = true → (state.records other).complete = true ∨
          ∃ stream, EarlierComplete state stream other)
      · exact fun _ _ complete => Or.inl complete
      · exact fun _ => Or.inr ⟨stream, before.earlier stream event rfl⟩
    case letGo =>
      intro other
      apply iff_of_false
      · exact fun both => both.2 both.1
      · rintro ⟨nonzero, zero⟩
        exact nonzero (kept { state.records event with complete := answer = .complete }
          rfl other zero)
    case returned => exact fun other mem apart => absurd mem apart
    case freed => exact fun other mem => Or.inl mem

theorem effect_settle {answer : Answer} (sound : Sound state)
    (asked : state.pollers[index]? = some (.queried stream event answer)) :
    Effect state (settle state index stream event answer) := by
  rcases @settle_cases _ _ state event stream index answer with
    ⟨ticket, rfl, head, eq⟩ | eq
  · rw [eq]
    have answered := (sound.poll _ (List.mem_of_getElem? asked)).answered stream event rfl
    have quiet : Effect state { unlinkHead state index stream event ticket with
        completions := state.completions } :=
      effect_of_setRecord rfl rfl (fun raised => raised) (fun zero => zero) rfl rfl
    constructor
    case completed => exact Or.inr ⟨stream, event, ticket, head, answered, rfl⟩
    case raised => exact quiet.raised
    case letGo => exact quiet.letGo
    case returned => exact quiet.returned
    case freed => exact quiet.freed
  · rw [eq]
    exact effect_setPoller

theorem step_effect (sound : Sound state) (stepped : Step state next) :
    Effect state next := by
  cases stepped with
  | reserve minimum positive => exact effect_reserve minimum
  | reserveFail additional under_way =>
      exact effect_of_quiet rfl (fun _ raised => raised) (fun _ zero => zero) rfl
        (fun _ mem => Or.inl mem)
  | reserveLink additional under_way => exact effect_reserveLink sound additional
  | takePooled event rest first => exact effect_takePooled first
  | rejectGrowth empty isSealed =>
      exact effect_of_quiet rfl (fun _ raised => raised) (fun _ zero => zero) rfl
        (fun _ mem => Or.inl mem)
  | takeAllocated empty notSealed => exact effect_takeAllocated sound
  | openRecord event taken => exact effect_openRecord
  | failRecord event taken noEvent => exact effect_failRecord sound noEvent
  | retain event client => exact effect_retain (event :: state.clients) state.pollers
  | release event client =>
      have dropped := effect_drop sound (mem_held_of_client client)
        (state.clients.erase event) (dropReference state event).pollers
      exact dropped
  | giveBack event let_go => exact effect_giveBack sound let_go
  | submit stream event client => exact effect_submit
  | snapshot index stream event ticket isIdle head =>
      exact effect_retain state.clients (state.pollers.set index (.snapshot stream event))
  | query index stream event answer retained => exact effect_queryEvent sound retained
  | settle index stream event answer asked => exact effect_settle sound asked
  | releasePolled index event count letting_go =>
      have isHeld : event ∈ held state :=
        mem_held_of_poller letting_go (List.mem_replicate.mpr ⟨Nat.succ_ne_zero count, rfl⟩)
      exact effect_drop sound isHeld (dropReference state event).clients _

/-! ## Every run -/

/-- Nothing is lost or completed twice; a record counts exactly the references that
clients, streams and polling threads hold; and storage is free exactly when nobody holds
one. -/
structure Tracked (state : State κ) : Prop where
  counted : ∀ event, (state.records event).references = (held state).count event
  once : state.completions.Nodup
  inOrder : ∀ stream,
    onStream stream state.completions <+: onStream stream state.submissions
  pending : state.tracker.pending =
    (state.submissions.filter (fun submission => submission ∉ state.completions)).length
  stored : ∀ event ∈ state.pool.blocks,
    (state.records event).references = 0 ↔
      event ∈ state.pool.freeList ++ (state.creating ++ state.returning)
  unlinked : ∀ event ∈ state.pool.freeList ++ (state.creating ++ state.returning),
    (state.records event).references = 0 ∧ (state.records event).linked = false ∧
      event ∉ queued state.tracker.streams
  balance : state.pool.available + state.pool.inUse = state.pool.capacity

theorem tracked_of_sound (sound : Sound state) : Tracked state := by
  have references : ∀ event ∈ parked state, (state.records event).references = 0 :=
    fun event mem => sound.count.references_eq_zero.mpr (sound.count.unheld event mem)
  constructor
  case counted => exact sound.count.counted
  case once => exact sound.order.completions_nodup
  case inOrder =>
    intro stream
    rw [sound.order.perStream stream]
    exact List.prefix_append _ _
  case pending =>
    rw [sound.order.waiting.length_eq]
    exact sound.order.pending
  case stored =>
    intro event isBlock
    constructor
    · intro zero
      exact sound.count.kept event isBlock (sound.count.references_eq_zero.mp zero)
    · exact references event
  case unlinked =>
    intro event mem
    have unqueued : event ∉ queued state.tracker.streams :=
      fun queued => sound.count.unheld event mem (mem_held_of_queued queued)
    refine ⟨references event mem, ?_, unqueued⟩
    apply eq_false_of_ne_true
    exact fun linked => unqueued ((sound.count.linked event).mp linked)
  case balance => exact sound.pool.balance

/-- Completion tracking loses and duplicates nothing, in every interleaving. -/
theorem tracked_of_reached (reached : Reached state) :
    Tracked state ∧ ∀ next, Step state next → Effect state next :=
  ⟨tracked_of_sound (reached_sound reached),
    fun _ stepped => step_effect (reached_sound reached) stepped⟩

/-- An event of the pool is submitted, retained and released by its clients, and completed
by a polling thread, which lets the last reference go: the record returns to the pool. -/
theorem tracked_one_completion :
    ∃ state : State Nat, state.completions = [(7, 0, 0)] ∧ state.pool.freeList = [0] ∧
      Tracked state ∧ ∀ next, Step state next → Effect state next := by
  have reserved : Reached (reserveLink (reserve (initial 1 : State Nat) 1) 1) := by
    apply Reached.step (Reached.step (Reached.start 1) (Step.reserve _ 1 (by decide)))
    exact Step.reserveLink _ 1 (by decide)
  have submitted := Reached.step (Reached.step (Reached.step reserved
    (Step.takePooled _ 0 [] rfl)) (Step.openRecord _ 0 (by decide)))
    (Step.submit _ 7 0 (by decide))
  have retained := Reached.step (Reached.step submitted (Step.retain _ 0 (by decide)))
    (Step.release _ 0 (by decide))
  have queried := Reached.step (Reached.step retained
    (Step.snapshot _ 0 7 0 0 rfl rfl)) (Step.query _ 0 7 0 .complete rfl)
  have completed := Reached.step (Reached.step queried (Step.settle _ 0 7 0 .complete rfl))
    (Step.release _ 0 (by decide))
  have letGo := Reached.step (Reached.step completed (Step.releasePolled _ 0 0 1 rfl))
    (Step.releasePolled _ 0 0 0 rfl)
  have returned := Reached.step letGo (Step.giveBack _ 0 (by decide))
  exact ⟨_, rfl, rfl, tracked_of_reached returned⟩

end ShadowSpill.Runtime.CompletionEffects
