import ShadowSpill.Runtime.CompletionOrder

/-!
# The invariant of completion tracking

The pool, the references, the order of completions and the polling threads stay sound
through every section of every thread.
-/

namespace ShadowSpill.Runtime.CompletionTracking

open EventRecords EventQueues EventPoolInvariant EventReferences CompletionOrder

variable {κ : Type} [DecidableEq κ]
variable {state next : State κ} {event : EventId}

/-- The invariant of the sections. -/
structure Sound (state : State κ) : Prop where
  pool : PoolSound state
  count : CountSound state
  order : OrderSound state
  poll : PollSound state

theorem sound_initial (pollers : Nat) : Sound (initial pollers : State κ) :=
  ⟨poolSound_initial pollers, countSound_initial pollers, orderSound_initial pollers,
    pollSound_initial pollers⟩

/-! ## Sections of the pool -/

omit [DecidableEq κ] in
theorem mem_parked_of_creating (taken : event ∈ state.creating) : event ∈ parked state :=
  List.mem_append_right _ (List.mem_append_left _ taken)

omit [DecidableEq κ] in
theorem mem_parked_of_returning (let_go : event ∈ state.returning) :
    event ∈ parked state :=
  List.mem_append_right _ (List.mem_append_right _ let_go)

/-- Completions and polling threads do not depend on the pool. -/
theorem Sound.of_pool
    (sound : Sound state) (pool : PoolSound next) (count : CountSound next)
    (tracker : next.tracker = state.tracker)
    (submissions : next.submissions = state.submissions)
    (completions : next.completions = state.completions)
    (pollers : next.pollers = state.pollers)
    (flags : ∀ event ∈ held state, event ∈ held next →
      (state.records event).complete = true → (next.records event).complete = true) :
    Sound next := by
  constructor
  case pool => exact pool
  case count => exact count
  case order => exact sound.order.congr tracker submissions completions
  case poll =>
    apply sound.poll.step sound.order (grows_of_eq submissions completions)
    · rw [pollers]
      exact fun poller mem => Or.inl mem
    · exact flags

/-- A section that only counts or seals. -/
theorem Sound.counters
    (sound : Sound state) (pool : EventPool) (growing : List Nat)
    (freeList : pool.freeList = state.pool.freeList)
    (blocks : pool.blocks = state.pool.blocks)
    (capacity : pool.capacity = state.pool.capacity)
    (available : pool.available = state.pool.available)
    (inUse : pool.inUse = state.pool.inUse) :
    Sound { state with pool := pool, growing := growing } := by
  have same_parked :
      parked { state with pool := pool, growing := growing } = parked state := by
    show pool.freeList ++ _ = state.pool.freeList ++ _
    rw [freeList]
  apply sound.of_pool
  case pool =>
    constructor
    case blocks_nodup =>
      show pool.blocks.Nodup
      rw [blocks]
      exact sound.pool.blocks_nodup
    case parked_nodup =>
      rw [same_parked]
      exact sound.pool.parked_nodup
    case free_blocks =>
      show ∀ event ∈ pool.freeList, event ∈ pool.blocks
      rw [freeList, blocks]
      exact sound.pool.free_blocks
    case owned =>
      show ∀ event, _ ↔ event ∈ pool.blocks
      rw [blocks]
      exact sound.pool.owned
    case events =>
      show ∀ event ∈ pool.blocks, _
      rw [blocks]
      exact sound.pool.events
    case below =>
      show ∀ event ∈ pool.blocks ++ _, _
      rw [blocks, same_parked]
      exact sound.pool.below
    case capacity =>
      show pool.capacity = pool.blocks.length
      rw [capacity, blocks]
      exact sound.pool.capacity
    case available =>
      show pool.available = pool.freeList.length
      rw [available, freeList]
      exact sound.pool.available
    case balance =>
      show pool.available + pool.inUse = pool.capacity
      rw [available, inUse, capacity]
      exact sound.pool.balance
  case count =>
    refine sound.count.congr (fun _ => rfl) (fun _ => rfl) (List.Perm.refl _) rfl
      ?_ ?_ blocks rfl
    · rw [same_parked]
      exact fun _ mem => mem
    · rw [same_parked]
      exact fun _ _ mem => mem
  case tracker => rfl
  case submissions => rfl
  case completions => rfl
  case pollers => rfl
  case flags => exact fun _ _ _ complete => complete

theorem Sound.reserve (sound : Sound state) (minimum : Nat) :
    Sound (reserve state minimum) := by
  unfold EventRecords.reserve
  split
  · exact sound.counters { state.pool with isSealed := true } state.growing
      rfl rfl rfl rfl rfl
  · exact sound.counters state.pool ((minimum - state.pool.available) :: state.growing)
      rfl rfl rfl rfl rfl

theorem Sound.reserveLink (sound : Sound state) (additional : Nat) :
    Sound (reserveLink state additional) := by
  apply sound.of_pool (sound.pool.reserveLink additional)
    (sound.count.reserveLink additional) rfl rfl rfl rfl
  intro event isHeld _ complete
  show (if _ then _ else _ : EventRecord).complete = true
  rw [if_neg]
  · exact complete
  · exact fun inside =>
      absurd (sound.count.known event isHeld) (Nat.not_lt.mpr inside.1)

theorem Sound.takePooled {rest : List EventId}
    (sound : Sound state) (first : state.pool.freeList = event :: rest) :
    Sound (takePooled state event rest) := by
  have moved : (parked (EventRecords.takePooled state event rest)).Perm (parked state) := by
    unfold parked
    rw [first]
    exact List.perm_middle
  apply sound.of_pool (sound.pool.takePooled first)
  case count =>
    refine sound.count.congr (fun _ => rfl) (fun _ => rfl) (List.Perm.refl _) rfl
      ?_ ?_ rfl rfl
    · exact fun _ mem => moved.mem_iff.mp mem
    · exact fun _ _ mem => moved.mem_iff.mpr mem
  case tracker => rfl
  case submissions => rfl
  case completions => rfl
  case pollers => rfl
  case flags => exact fun _ _ _ complete => complete

theorem Sound.takeAllocated (sound : Sound state) : Sound (takeAllocated state) := by
  apply sound.of_pool sound.pool.takeAllocated sound.count.takeAllocated rfl rfl rfl rfl
  intro event isHeld _ complete
  have old : event ≠ state.fresh := Nat.ne_of_lt (sound.count.known event isHeld)
  show (setRecord state.records state.fresh _ event).complete = true
  rw [setRecord_other old]
  exact complete

theorem Sound.openRecord (sound : Sound state) (taken : event ∈ state.creating) :
    Sound (openRecord state event) := by
  apply sound.of_pool sound.pool.openRecord (sound.count.openRecord sound.pool taken)
    rfl rfl rfl rfl
  intro other isHeld _ complete
  have different : other ≠ event := by
    rintro rfl
    exact sound.count.unheld other (mem_parked_of_creating taken) isHeld
  show (setRecord state.records event _ other).complete = true
  rw [setRecord_other different]
  exact complete

omit [DecidableEq κ] in
/-- Returning touches the pool alone. -/
theorem releaseRecord_eq :
    ∃ pool, releaseRecord state event = { state with pool := pool } ∧
      pool.blocks = state.pool.blocks := by
  unfold releaseRecord
  split
  · exact ⟨_, rfl, rfl⟩
  · exact ⟨state.pool, rfl, rfl⟩

/-- A record that was taken but not opened, or let go, is returned. -/
theorem Sound.returned
    (sound : Sound state) (creating returning : List EventId)
    (taken : (parked state).Perm
      (event :: parked { state with creating := creating, returning := returning }))
    (fewer : (parked { state with creating := creating, returning := returning }).Sublist
      (parked state)) :
    Sound (releaseRecord { state with creating := creating, returning := returning } event) := by
  obtain ⟨pool, moved⟩ := sound.pool.returned
    { state with creating := creating, returning := returning } rfl rfl rfl taken fewer
  obtain ⟨after, released, blocks⟩ := @releaseRecord_eq κ
    { state with creating := creating, returning := returning } event
  rw [released] at pool moved ⊢
  apply sound.of_pool pool
  case count =>
    refine sound.count.congr (fun _ => rfl) (fun _ => rfl) (List.Perm.refl _) rfl
      ?_ ?_ blocks rfl
    · intro other mem
      have there := moved.mem_iff.mp mem
      split at there
      · exact there
      · exact fewer.subset there
    · intro other isBlock mem
      apply moved.mem_iff.mpr
      split
      case isTrue => exact mem
      case isFalse notOwned =>
        rcases List.mem_cons.mp (taken.mem_iff.mp mem) with rfl | rest
        · exact absurd ((sound.pool.owned other).mpr isBlock) notOwned
        · exact rest
  case tracker => rfl
  case submissions => rfl
  case completions => rfl
  case pollers => rfl
  case flags => exact fun _ _ _ complete => complete

theorem Sound.failRecord (sound : Sound state) (taken : event ∈ state.creating) :
    Sound (failRecord state event) := by
  apply sound.returned (state.creating.erase event) state.returning (perm_creating taken)
  exact (List.erase_sublist.append_right state.returning).append_left state.pool.freeList

theorem Sound.giveBack (sound : Sound state) (let_go : event ∈ state.returning) :
    Sound (giveBack state event) := by
  apply sound.returned state.creating (state.returning.erase event) (perm_returning let_go)
  exact (List.erase_sublist.append_left state.creating).append_left state.pool.freeList

/-! ## Sections that move references -/

omit [DecidableEq κ] in
/-- A polling thread that looks at nothing. -/
theorem pollerSound_of_none {poller : Poller κ} (nothing : looksAt poller = none) :
    PollerSound state poller := by
  constructor
  case earlier =>
    intro stream event looks
    rw [nothing] at looks
    cases looks
  case answered =>
    rintro stream event rfl
    cases nothing

omit [DecidableEq κ] in
theorem moved_of_set {index : Nat} {poller : Poller κ} (sound : PollerSound next poller) :
    ∀ other ∈ state.pollers.set index poller,
      other ∈ state.pollers ∨ PollerSound next other := by
  intro other mem
  rcases List.mem_or_eq_of_mem_set mem with old | rfl
  · exact Or.inl old
  · exact Or.inr sound

/-- The fields that a count leaves alone. -/
theorem retainReference_kept (records : EventId → EventRecord) (other : EventId) :
    (retainReference records event other).poolOwned = (records other).poolOwned ∧
      (retainReference records event other).hasEvent = (records other).hasEvent ∧
      (retainReference records event other).complete = (records other).complete := by
  unfold retainReference
  apply @forall_setRecord _ _ _
    (fun other record => record.poolOwned = (records other).poolOwned ∧
      record.hasEvent = (records other).hasEvent ∧
      record.complete = (records other).complete)
    (fun _ _ => ⟨rfl, rfl, rfl⟩)
  exact ⟨rfl, rfl, rfl⟩

/-- One more reference, for a client or a polling thread. -/
theorem Sound.retained
    (sound : Sound state) (clients : List EventId) (pollers : List (Poller κ))
    (isHeld : event ∈ held state)
    (gained : (held { state with
      records := retainReference state.records event
      clients := clients
      pollers := pollers }).Perm (event :: held state))
    (moved : ∀ poller ∈ pollers, poller ∈ state.pollers ∨ PollerSound { state with
      records := retainReference state.records event
      clients := clients
      pollers := pollers } poller) :
    Sound { state with
      records := retainReference state.records event
      clients := clients
      pollers := pollers } := by
  have kept := @retainReference_kept event state.records
  constructor
  case pool =>
    exact sound.pool.congr rfl rfl rfl rfl
      (fun other => ⟨(kept other).1, (kept other).2.1⟩)
  case count => exact sound.count.retain isHeld gained rfl rfl rfl rfl rfl
  case order => exact sound.order.congr rfl rfl rfl
  case poll =>
    refine sound.poll.step sound.order (grows_of_eq rfl rfl) moved ?_
    intro other _ _ complete
    exact (kept other).2.2.trans complete

omit [DecidableEq κ] in
theorem dropReference_eq :
    ∃ records returning, dropReference state event =
      { state with records := records, returning := returning } := by
  unfold dropReference
  split <;> exact ⟨_, _, rfl⟩

omit [DecidableEq κ] in
/-- Only the last reference takes the flag down. -/
theorem dropReference_complete {other : EventId}
    (more : other = event → (state.records event).references ≠ 1) :
    ((dropReference state event).records other).complete =
      (state.records other).complete := by
  by_cases same : other = event
  · subst same
    unfold dropReference
    rw [if_neg (more rfl)]
    show (setRecord state.records other _ other).complete = _
    rw [setRecord_same]
  · unfold dropReference
    split
    · show (setRecord state.records event _ other).complete = _
      rw [setRecord_other same]
    · show (setRecord state.records event _ other).complete = _
      rw [setRecord_other same]

/-- One reference less, of a client or a polling thread. -/
theorem Sound.dropped
    (sound : Sound state) (clients : List EventId) (pollers : List (Poller κ))
    (lost : (held state).Perm (event :: held { dropReference state event with
      clients := clients
      pollers := pollers }))
    (moved : ∀ poller ∈ pollers, poller ∈ state.pollers ∨
      PollerSound { dropReference state event with
        clients := clients
        pollers := pollers } poller) :
    Sound { dropReference state event with clients := clients, pollers := pollers } := by
  have isHeld : event ∈ held state := lost.mem_iff.mpr List.mem_cons_self
  have apart : event ∉ parked state := fun mem => sound.count.unheld event mem isHeld
  have pool := sound.pool.drop apart (sound.count.known event isHeld)
  have last : event ∈ held { dropReference state event with
      clients := clients, pollers := pollers } → (state.records event).references ≠ 1 := by
    intro still one
    have counted := sound.count.counted event
    rw [lost.count_eq, List.count_cons_self] at counted
    have positive := List.count_pos_iff.mpr still
    omega
  have flags : ∀ other ∈ held state,
      other ∈ held { dropReference state event with clients := clients, pollers := pollers } →
      (state.records other).complete = true →
      ((dropReference state event).records other).complete = true := by
    intro other _ still complete
    rw [dropReference_complete]
    · exact complete
    · rintro rfl
      exact last still
  obtain ⟨records, returning, eq⟩ := @dropReference_eq _ state event
  constructor
  case pool =>
    exact pool.congr rfl rfl rfl rfl (fun other => ⟨rfl, rfl⟩)
  case count =>
    apply CountSound.drop sound.count lost rfl
    all_goals rw [eq]
  case order =>
    apply OrderSound.congr sound.order
    all_goals rw [eq]
  case poll =>
    refine PollSound.step sound.poll sound.order ?_ moved flags
    apply grows_of_eq
    all_goals rw [eq]

theorem Sound.retain (sound : Sound state) (client : event ∈ state.clients) :
    Sound { state with
      records := retainReference state.records event
      clients := event :: state.clients } := by
  apply sound.retained (event :: state.clients) state.pollers (mem_held_of_client client)
  · exact List.Perm.refl _
  · exact fun poller mem => Or.inl mem

theorem Sound.release (sound : Sound state) (client : event ∈ state.clients) :
    Sound { dropReference state event with clients := state.clients.erase event } := by
  obtain ⟨records, returning, eq⟩ := @dropReference_eq _ state event
  have dropped := @Sound.dropped _ _ _ event sound (state.clients.erase event) state.pollers
  rw [eq] at dropped ⊢
  apply dropped
  · exact (List.perm_cons_erase client).append_right _
  · exact fun poller mem => Or.inl mem

/-! ## Sections of the tracker -/

variable {stream : κ} {index : Nat}

omit [DecidableEq κ] in
/-- A polling thread that keeps the references it has. -/
theorem held_setPoller {poller after : Poller κ}
    (at_index : state.pollers[index]? = some poller) (same : polled after = polled poller) :
    (held (setPoller state index after)).Perm (held state) := by
  apply List.perm_iff_count.mpr
  intro other
  have moved := @count_pollers_set _ _ _ _ after other at_index
  rw [same] at moved
  rw [held_count, held_count]
  show state.clients.count other + ((queued state.tracker.streams).count other +
    ((state.pollers.set index after).flatMap polled).count other) = _
  rw [Nat.add_right_cancel moved]

omit [DecidableEq κ] in
/-- A polling thread that takes up, or puts down, one reference. -/
theorem held_setPoller_cons {poller after : Poller κ}
    (at_index : state.pollers[index]? = some poller)
    (more : polled after = event :: polled poller) :
    (held (setPoller state index after)).Perm (event :: held state) := by
  apply List.perm_iff_count.mpr
  intro other
  have moved := @count_pollers_set _ _ _ _ after other at_index
  rw [more, List.count_cons] at moved
  rw [List.count_cons, held_count, held_count]
  show state.clients.count other + ((queued state.tracker.streams).count other +
    ((state.pollers.set index after).flatMap polled).count other) = _
  omega

theorem Sound.submit (sound : Sound state) (client : event ∈ state.clients) :
    Sound (submit state stream event) := by
  have kept : ∀ other,
      ((EventRecords.submit state stream event).records other).poolOwned =
          (state.records other).poolOwned ∧
        ((EventRecords.submit state stream event).records other).hasEvent =
          (state.records other).hasEvent ∧
        ((EventRecords.submit state stream event).records other).complete =
          (state.records other).complete := by
    unfold EventRecords.submit
    split
    · exact fun other => ⟨rfl, rfl, rfl⟩
    · apply @forall_setRecord _ _ _
        (fun other record => record.poolOwned = (state.records other).poolOwned ∧
          record.hasEvent = (state.records other).hasEvent ∧
          record.complete = (state.records other).complete)
        (fun _ _ => ⟨rfl, rfl, rfl⟩)
      exact ⟨rfl, rfl, rfl⟩
  have others : (EventRecords.submit state stream event).pool = state.pool ∧
      (EventRecords.submit state stream event).creating = state.creating ∧
      (EventRecords.submit state stream event).returning = state.returning ∧
      (EventRecords.submit state stream event).fresh = state.fresh ∧
      (EventRecords.submit state stream event).pollers = state.pollers := by
    unfold EventRecords.submit
    split <;> exact ⟨rfl, rfl, rfl, rfl, rfl⟩
  obtain ⟨pool, creating, returning, fresh, pollers⟩ := others
  constructor
  case pool =>
    exact sound.pool.congr pool creating returning fresh
      (fun other => ⟨(kept other).1, (kept other).2.1⟩)
  case count => exact sound.count.submit client
  case order => exact sound.order.submit
  case poll =>
    refine sound.poll.step sound.order grows_submit ?_ ?_
    · rw [pollers]
      exact fun poller mem => Or.inl mem
    · intro other _ _ complete
      exact (kept other).2.2.trans complete

theorem mem_queued_of_head {ticket : Nat}
    (head : headOf state stream = some (event, ticket)) :
    event ∈ queued state.tracker.streams := by
  have first : (event, ticket) ∈ queueOf stream state.tracker.streams :=
    List.mem_of_mem_head? head
  exact List.mem_map.mpr ⟨_, mem_entries_of_queueOf first, rfl⟩

theorem Sound.snapshotHead {ticket : Nat}
    (sound : Sound state) (isIdle : state.pollers[index]? = some .idle)
    (head : headOf state stream = some (event, ticket)) :
    Sound (snapshotHead state index stream event) := by
  apply sound.retained state.clients (state.pollers.set index (.snapshot stream event))
    (mem_held_of_queued (mem_queued_of_head head))
  · have gained := @held_setPoller_cons _ state event index .idle
      (.snapshot stream event) isIdle rfl
    exact gained
  · apply moved_of_set
    constructor
    case earlier =>
      rintro other second looks
      cases looks
      exact ⟨ticket, sound.order.before_head head⟩
    case answered =>
      intro other second asked
      cases asked

/-- A polling thread that moves on without touching records. -/
theorem Sound.setPoller {poller after : Poller κ}
    (sound : Sound state) (at_index : state.pollers[index]? = some poller)
    (same : polled after = polled poller)
    (pollerSound : PollerSound (setPoller state index after) after) :
    Sound (setPoller state index after) := by
  have same_held := held_setPoller at_index same
  constructor
  case pool => exact sound.pool.congr rfl rfl rfl rfl (fun _ => ⟨rfl, rfl⟩)
  case count =>
    exact sound.count.congr (fun _ => rfl) (fun _ => rfl) same_held rfl
      (fun _ mem => mem) (fun _ _ mem => mem) rfl rfl
  case order => exact sound.order.congr rfl rfl rfl
  case poll =>
    exact sound.poll.step sound.order (grows_of_eq rfl rfl) (moved_of_set pollerSound)
      (fun _ _ _ complete => complete)

theorem Sound.queryEvent {answer : Answer}
    (sound : Sound state)
    (retained : state.pollers[index]? = some (.snapshot stream event)) :
    Sound (queryEvent state index stream event answer) := by
  have before := sound.poll _ (List.mem_of_getElem? retained)
  unfold EventRecords.queryEvent
  split
  case isTrue complete =>
    refine sound.setPoller retained rfl ?_
    constructor
    case earlier =>
      intro other second looks
      exact before.earlier other second looks
    case answered =>
      intro other second asked
      cases asked
      exact complete
  case isFalse incomplete =>
    have kept : ∀ other,
        (setRecord state.records event { state.records event with
            complete := answer = .complete } other).poolOwned =
            (state.records other).poolOwned ∧
          (setRecord state.records event { state.records event with
            complete := answer = .complete } other).hasEvent =
            (state.records other).hasEvent ∧
          (setRecord state.records event { state.records event with
            complete := answer = .complete } other).references =
            (state.records other).references ∧
          (setRecord state.records event { state.records event with
            complete := answer = .complete } other).linked =
            (state.records other).linked := by
      apply @forall_setRecord _ _ _
        (fun other record => record.poolOwned = (state.records other).poolOwned ∧
          record.hasEvent = (state.records other).hasEvent ∧
          record.references = (state.records other).references ∧
          record.linked = (state.records other).linked)
        (fun _ _ => ⟨rfl, rfl, rfl, rfl⟩)
      exact ⟨rfl, rfl, rfl, rfl⟩
    have same_held := held_setPoller retained
      (show polled (.queried stream event answer) = polled (.snapshot stream event) from rfl)
    constructor
    case pool =>
      exact sound.pool.congr rfl rfl rfl rfl
        (fun other => ⟨(kept other).1, (kept other).2.1⟩)
    case count =>
      exact sound.count.congr (fun other => (kept other).2.2.1)
        (fun other => (kept other).2.2.2) same_held rfl (fun _ mem => mem)
        (fun _ _ mem => mem) rfl rfl
    case order => exact sound.order.congr rfl rfl rfl
    case poll =>
      refine sound.poll.step sound.order (grows_of_eq rfl rfl) (moved_of_set ?_) ?_
      · constructor
        case earlier =>
          intro other second looks
          exact before.earlier other second looks
        case answered =>
          intro other second asked
          cases asked
          show (setRecord state.records event _ event).complete = true
          rw [setRecord_same]
          rfl
      · intro other _ _ complete
        have different : other ≠ event := by
          rintro rfl
          exact incomplete complete
        show (setRecord state.records event _ other).complete = true
        rw [setRecord_other different]
        exact complete

theorem Sound.unlinkHead {ticket : Nat}
    (sound : Sound state)
    (asked : state.pollers[index]? = some (.queried stream event .complete))
    (head : headOf state stream = some (event, ticket)) :
    Sound (unlinkHead state index stream event ticket) := by
  obtain ⟨queue, row⟩ := List.head?_eq_some_iff.mp head
  have kept : ∀ other,
      (setRecord state.records event { state.records event with linked := false }
          other).poolOwned = (state.records other).poolOwned ∧
        (setRecord state.records event { state.records event with linked := false }
          other).hasEvent = (state.records other).hasEvent ∧
        (setRecord state.records event { state.records event with linked := false }
          other).complete = (state.records other).complete := by
    apply @forall_setRecord _ _ _
      (fun other record => record.poolOwned = (state.records other).poolOwned ∧
        record.hasEvent = (state.records other).hasEvent ∧
        record.complete = (state.records other).complete)
      (fun _ _ => ⟨rfl, rfl, rfl⟩)
    exact ⟨rfl, rfl, rfl⟩
  constructor
  case pool =>
    exact sound.pool.congr rfl rfl rfl rfl
      (fun other => ⟨(kept other).1, (kept other).2.1⟩)
  case count => exact sound.count.unlinkHead asked row
  case order => exact sound.order.unlinkHead row
  case poll =>
    refine sound.poll.step sound.order grows_unlinkHead
      (moved_of_set (pollerSound_of_none rfl)) ?_
    intro other _ _ complete
    exact (kept other).2.2.trans complete

/-- What the section after the query does: a complete head is unlinked, and otherwise the
polling thread lets its reference go. -/
theorem settle_cases {answer : Answer} :
    (∃ ticket, answer = .complete ∧ headOf state stream = some (event, ticket) ∧
      settle state index stream event answer =
        unlinkHead state index stream event ticket) ∨
    settle state index stream event answer = setPoller state index (.releasing event 1) := by
  unfold settle
  cases head : headOf state stream with
  | none => exact Or.inr rfl
  | some first =>
      obtain ⟨found, ticket⟩ := first
      dsimp only
      by_cases same : found = event
      · subst same
        rw [if_neg (fun different => different rfl)]
        cases answer with
        | failed => exact Or.inr rfl
        | incomplete => exact Or.inr rfl
        | complete => exact Or.inl ⟨ticket, rfl, rfl, rfl⟩
      · rw [if_pos same]
        exact Or.inr rfl

theorem Sound.settle {answer : Answer}
    (sound : Sound state)
    (asked : state.pollers[index]? = some (.queried stream event answer)) :
    Sound (settle state index stream event answer) := by
  rcases @settle_cases _ _ state event stream index answer with
    ⟨ticket, rfl, head, eq⟩ | eq
  · rw [eq]
    exact sound.unlinkHead asked head
  · rw [eq]
    exact sound.setPoller asked rfl (pollerSound_of_none rfl)

theorem Sound.releasePolled {count : Nat}
    (sound : Sound state)
    (letting_go : state.pollers[index]? = some (.releasing event (count + 1))) :
    Sound (releasePolled state index event count) := by
  have fewer : ∀ after : Poller κ, polled after = List.replicate count event →
      looksAt after = none →
      Sound (EventRecords.setPoller (dropReference state event) index after) := by
    intro after isPolled nothing
    obtain ⟨records, returning, eq⟩ := @dropReference_eq _ state event
    have dropped := @Sound.dropped _ _ _ event sound state.clients
      (state.pollers.set index after)
    unfold EventRecords.setPoller
    rw [eq] at dropped ⊢
    apply dropped
    · apply List.perm_iff_count.mpr
      intro other
      have moved := @count_pollers_set _ _ _ _ after other letting_go
      have before : polled (.releasing event (count + 1) : Poller κ) =
          event :: polled after := by
        rw [isPolled]
        rfl
      rw [before, List.count_cons] at moved
      rw [List.count_cons, held_count, held_count]
      show state.clients.count other + ((queued state.tracker.streams).count other +
        (state.pollers.flatMap polled).count other) =
        state.clients.count other + ((queued state.tracker.streams).count other +
        ((state.pollers.set index after).flatMap polled).count other) + _
      omega
    · exact moved_of_set (pollerSound_of_none nothing)
  unfold EventRecords.releasePolled
  split
  case isTrue none =>
    subst none
    exact fewer .idle rfl rfl
  case isFalse => exact fewer (.releasing event count) rfl rfl

theorem step_sound (sound : Sound state) (stepped : Step state next) : Sound next := by
  cases stepped with
  | reserve minimum positive => exact sound.reserve minimum
  | reserveFail additional under_way =>
      exact sound.counters state.pool (state.growing.erase additional) rfl rfl rfl rfl rfl
  | reserveLink additional under_way => exact sound.reserveLink additional
  | takePooled event rest first => exact sound.takePooled first
  | rejectGrowth empty isSealed =>
      exact sound.counters
        { state.pool with growthRejections := state.pool.growthRejections + 1 }
        state.growing rfl rfl rfl rfl rfl
  | takeAllocated empty notSealed => exact sound.takeAllocated
  | openRecord event taken => exact sound.openRecord taken
  | failRecord event taken noEvent => exact sound.failRecord taken
  | retain event client => exact sound.retain client
  | release event client => exact sound.release client
  | giveBack event let_go => exact sound.giveBack let_go
  | submit stream event client => exact sound.submit client
  | snapshot index stream event ticket isIdle head => exact sound.snapshotHead isIdle head
  | query index stream event answer retained => exact sound.queryEvent retained
  | settle index stream event answer asked => exact sound.settle asked
  | releasePolled index event count letting_go => exact sound.releasePolled letting_go

theorem reached_sound (reached : Reached state) : Sound state := by
  induction reached with
  | start pollers => exact sound_initial pollers
  | step reached stepped inductionHypothesis => exact step_sound inductionHypothesis stepped

end ShadowSpill.Runtime.CompletionTracking
