import ShadowSpill.Runtime.EventPoolInvariant

/-!
# References are counted

A record's count is the number of references held by clients, by the streams and by
polling threads.  A record of the pool that nobody holds is parked, and a parked record
is held by nobody; so a record is let go when its last reference is, and no stream links
it then.
-/

namespace ShadowSpill.Runtime.EventReferences

open EventRecords EventQueues EventPoolInvariant

variable {κ : Type}
variable {state next : State κ} {event : EventId}

/-- Counts, links and the records nobody holds. -/
structure CountSound (state : State κ) : Prop where
  counted : ∀ event, (state.records event).references = (held state).count event
  linked : ∀ event,
    (state.records event).linked = true ↔ event ∈ queued state.tracker.streams
  queued_nodup : (queued state.tracker.streams).Nodup
  unheld : ∀ event ∈ parked state, event ∉ held state
  kept : ∀ event ∈ state.pool.blocks, event ∉ held state → event ∈ parked state
  known : ∀ event ∈ held state, event < state.fresh

theorem countSound_initial (pollers : Nat) : CountSound (initial pollers : State κ) := by
  have nobody : held (initial pollers : State κ) = [] := by
    show (List.replicate pollers Poller.idle).flatMap polled = []
    apply List.flatMap_eq_nil_iff.mpr
    intro poller mem
    rw [List.eq_of_mem_replicate mem]
    rfl
  constructor
  case counted =>
    intro event
    rw [nobody]
    rfl
  case linked =>
    intro event
    constructor
    · intro impossible
      cases impossible
    · intro mem
      cases mem
  case queued_nodup => exact List.nodup_nil
  case unheld =>
    intro event mem
    cases mem
  case kept =>
    intro event mem
    cases mem
  case known =>
    rw [nobody]
    intro event mem
    cases mem

/-! ## Where references are held -/

theorem mem_held_of_client (client : event ∈ state.clients) : event ∈ held state :=
  List.mem_append_left _ client

theorem mem_held_of_queued (mem : event ∈ queued state.tracker.streams) :
    event ∈ held state :=
  List.mem_append_right _ (List.mem_append_left _ mem)

theorem mem_held_of_poller {index : Nat} {poller : Poller κ}
    (at_index : state.pollers[index]? = some poller) (mem : event ∈ polled poller) :
    event ∈ held state :=
  List.mem_append_right _ (List.mem_append_right _ (mem_pollers_of_polled at_index mem))

theorem held_count :
    (held state).count event = state.clients.count event +
      ((queued state.tracker.streams).count event +
        (state.pollers.flatMap polled).count event) := by
  unfold held
  rw [List.count_append, List.count_append]

theorem CountSound.references_eq_zero (sound : CountSound state) :
    (state.records event).references = 0 ↔ event ∉ held state := by
  rw [sound.counted event]
  exact List.count_eq_zero

/-! ## Steps that move no reference -/

/-- Records that are parked, referenced and linked as before. -/
theorem CountSound.congr
    (sound : CountSound state)
    (references : ∀ event,
      (next.records event).references = (state.records event).references)
    (linked : ∀ event, (next.records event).linked = (state.records event).linked)
    (same_held : (held next).Perm (held state))
    (same_queued : queued next.tracker.streams = queued state.tracker.streams)
    (fewer : ∀ event ∈ parked next, event ∈ parked state)
    (enough : ∀ event ∈ state.pool.blocks, event ∈ parked state → event ∈ parked next)
    (blocks : next.pool.blocks = state.pool.blocks) (fresh : next.fresh = state.fresh) :
    CountSound next := by
  constructor
  case counted =>
    intro event
    rw [references, same_held.count_eq]
    exact sound.counted event
  case linked =>
    intro event
    rw [linked, same_queued]
    exact sound.linked event
  case queued_nodup =>
    rw [same_queued]
    exact sound.queued_nodup
  case unheld =>
    intro event mem
    rw [same_held.mem_iff]
    exact sound.unheld event (fewer event mem)
  case kept =>
    intro event mem apart
    rw [blocks] at mem
    rw [same_held.mem_iff] at apart
    exact enough event mem (sound.kept event mem apart)
  case known =>
    intro event mem
    rw [fresh]
    exact sound.known event (same_held.mem_iff.mp mem)

theorem CountSound.reserveLink (sound : CountSound state) (additional : Nat) :
    CountSound (reserveLink state additional) := by
  constructor
  case counted =>
    intro event
    show (if _ then _ else _ : EventRecord).references = (held state).count event
    split
    case isTrue inside =>
      apply Eq.symm
      apply List.count_eq_zero.mpr
      intro mem
      exact absurd (sound.known event mem) (Nat.not_lt.mpr inside.1)
    case isFalse => exact sound.counted event
  case linked =>
    intro event
    show (if _ then _ else _ : EventRecord).linked = true ↔ event ∈ queued state.tracker.streams
    split
    case isTrue inside =>
      constructor
      · intro impossible
        cases impossible
      · intro mem
        exact absurd (sound.known event (mem_held_of_queued mem)) (Nat.not_lt.mpr inside.1)
    case isFalse => exact sound.linked event
  case queued_nodup => exact sound.queued_nodup
  case unheld =>
    intro event mem
    show event ∉ held state
    rcases List.mem_append.mp mem with free | other
    · rcases List.mem_append.mp free with new | old
      · intro isHeld
        have lower := (mem_newBlock.mp (List.mem_reverse.mp new)).1
        exact absurd (sound.known event isHeld) (Nat.not_lt.mpr lower)
      · exact sound.unheld event (List.mem_append_left _ old)
    · exact sound.unheld event (List.mem_append_right _ other)
  case kept =>
    intro event mem apart
    rcases List.mem_append.mp mem with new | old
    · exact List.mem_append_left _ (List.mem_append_left _ (List.mem_reverse.mpr new))
    · rcases List.mem_append.mp (sound.kept event old apart) with free | other
      · exact List.mem_append_left _ (List.mem_append_right _ free)
      · exact List.mem_append_right _ other
  case known =>
    intro event mem
    exact Nat.lt_add_right _ (sound.known event mem)

theorem CountSound.takeAllocated (sound : CountSound state) :
    CountSound (takeAllocated state) := by
  have unheld : state.fresh ∉ held state :=
    fun mem => absurd (sound.known _ mem) (Nat.lt_irrefl _)
  constructor
  case counted =>
    apply @forall_setRecord _ _ _
      (fun event record => record.references = (held state).count event)
      (fun event _ => sound.counted event)
    exact (List.count_eq_zero.mpr unheld).symm
  case linked =>
    apply @forall_setRecord _ _ _
      (fun event record => record.linked = true ↔ event ∈ queued state.tracker.streams)
      (fun event _ => sound.linked event)
    constructor
    · intro impossible
      cases impossible
    · intro mem
      exact absurd (mem_held_of_queued mem) unheld
  case queued_nodup => exact sound.queued_nodup
  case unheld =>
    intro event mem
    show event ∉ held state
    have moved : event ∈ state.fresh :: parked state :=
      (List.perm_middle.mem_iff).mp mem
    rcases List.mem_cons.mp moved with rfl | old
    · exact unheld
    · exact sound.unheld event old
  case kept =>
    intro event mem apart
    have old := sound.kept event mem apart
    exact List.perm_middle.mem_iff.mpr (List.mem_cons_of_mem state.fresh old)
  case known =>
    intro event mem
    exact Nat.lt_succ_of_lt (sound.known event mem)

/-! ## Steps that move a reference -/

/-- One more reference to a record that somebody holds. -/
theorem CountSound.retain
    (sound : CountSound state) (isHeld : event ∈ held state)
    (gained : (held next).Perm (event :: held state))
    (records : next.records = retainReference state.records event)
    (streams : next.tracker = state.tracker) (pool : next.pool = state.pool)
    (same_parked : parked next = parked state) (fresh : next.fresh = state.fresh) :
    CountSound next := by
  have known : ∀ other ∈ held next, other ∈ held state := by
    intro other mem
    rcases List.mem_cons.mp (gained.mem_iff.mp mem) with rfl | old
    · exact isHeld
    · exact old
  constructor
  case counted =>
    rw [records]
    apply @forall_setRecord _ _ _
      (fun event record => record.references = (held next).count event)
    · intro other different
      rw [gained.count_eq, List.count_cons_of_ne (Ne.symm different)]
      exact sound.counted other
    · rw [gained.count_eq, List.count_cons_self, ← sound.counted event]
  case linked =>
    rw [records, streams]
    exact @forall_setRecord _ _ _
      (fun event record => record.linked = true ↔ event ∈ queued state.tracker.streams)
      (fun event _ => sound.linked event) (sound.linked event)
  case queued_nodup =>
    rw [streams]
    exact sound.queued_nodup
  case unheld =>
    intro other mem isHeld
    rw [same_parked] at mem
    exact sound.unheld other mem (known other isHeld)
  case kept =>
    intro other mem apart
    rw [pool] at mem
    rw [same_parked]
    apply sound.kept other mem
    intro old
    exact apart (gained.mem_iff.mpr (List.mem_cons_of_mem event old))
  case known =>
    intro other mem
    rw [fresh]
    exact sound.known other (known other mem)

/-- Whoever drops the last reference finds the record unlinked, and lets it go. -/
theorem CountSound.drop
    (sound : CountSound state)
    (lost : (held state).Perm (event :: held next))
    (records : next.records = (dropReference state event).records)
    (streams : next.tracker = state.tracker) (pool : next.pool = state.pool)
    (creating : next.creating = state.creating)
    (returning : next.returning = (dropReference state event).returning)
    (fresh : next.fresh = state.fresh) :
    CountSound next := by
  have counts : (state.records event).references = (held next).count event + 1 := by
    rw [sound.counted event, lost.count_eq, List.count_cons_self]
  have others : ∀ other, other ≠ event →
      (state.records other).references = (held next).count other := by
    intro other different
    rw [sound.counted other, lost.count_eq, List.count_cons_of_ne (Ne.symm different)]
  have old_held : ∀ other ∈ held next, other ∈ held state :=
    fun other mem => lost.mem_iff.mpr (List.mem_cons_of_mem event mem)
  have isHeld : event ∈ held state := lost.mem_iff.mpr List.mem_cons_self
  unfold dropReference at records returning
  split at records
  case isTrue last =>
    rw [if_pos last] at returning
    have gone : event ∉ held next := by
      apply List.count_eq_zero.mp
      omega
    have unlinked : event ∉ queued state.tracker.streams := by
      rw [← streams]
      exact fun mem => gone (mem_held_of_queued mem)
    have same_parked : (parked next).Perm (event :: parked state) := by
      have same : parked next =
          parked { state with returning := event :: state.returning } := by
        unfold parked
        rw [pool, creating, returning]
      rw [same]
      exact perm_let_go
    constructor
    case counted =>
      rw [records]
      apply @forall_setRecord _ _ _
        (fun event record => record.references = (held next).count event) others
      exact (List.count_eq_zero.mpr gone).symm
    case linked =>
      rw [records, streams]
      apply @forall_setRecord _ _ _
        (fun event record => record.linked = true ↔ event ∈ queued state.tracker.streams)
        (fun event _ => sound.linked event)
      constructor
      · intro impossible
        cases impossible
      · intro mem
        exact absurd mem unlinked
    case queued_nodup =>
      rw [streams]
      exact sound.queued_nodup
    case unheld =>
      intro other mem
      rcases List.mem_cons.mp (same_parked.mem_iff.mp mem) with rfl | old
      · exact gone
      · exact fun isHeld => sound.unheld other old (old_held other isHeld)
    case kept =>
      intro other mem apart
      apply same_parked.mem_iff.mpr
      by_cases same : other = event
      · exact List.mem_cons.mpr (Or.inl same)
      · rw [pool] at mem
        apply List.mem_cons_of_mem
        apply sound.kept other mem
        intro old
        rcases List.mem_cons.mp (lost.mem_iff.mp old) with here | there
        · exact same here
        · exact apart there
    case known =>
      intro other mem
      rw [fresh]
      exact sound.known other (old_held other mem)
  case isFalse more =>
    rw [if_neg more] at returning
    have still : event ∈ held next := by
      apply List.count_pos_iff.mp
      omega
    have same_held : ∀ other, other ∈ held state ↔ other ∈ held next := by
      intro other
      rw [lost.mem_iff, List.mem_cons]
      constructor
      · rintro (rfl | mem)
        · exact still
        · exact mem
      · exact Or.inr
    have same_parked : parked next = parked state := by
      unfold parked
      rw [pool, creating, returning]
    constructor
    case counted =>
      rw [records]
      apply @forall_setRecord _ _ _
        (fun event record => record.references = (held next).count event) others
      exact Nat.sub_eq_of_eq_add counts
    case linked =>
      rw [records, streams]
      exact @forall_setRecord _ _ _
        (fun event record => record.linked = true ↔ event ∈ queued state.tracker.streams)
        (fun event _ => sound.linked event) (sound.linked event)
    case queued_nodup =>
      rw [streams]
      exact sound.queued_nodup
    case unheld =>
      intro other mem
      rw [same_parked] at mem
      exact fun isHeld => sound.unheld other mem (old_held other isHeld)
    case kept =>
      intro other mem apart
      rw [pool] at mem
      rw [same_parked]
      exact sound.kept other mem (fun old => apart ((same_held other).mp old))
    case known =>
      intro other mem
      rw [fresh]
      exact sound.known other (old_held other mem)

/-- The creator's reference is the first. -/
theorem CountSound.openRecord
    (sound : CountSound state) (poolSound : PoolSound state)
    (taken : event ∈ state.creating) :
    CountSound (openRecord state event) := by
  have isParked : event ∈ parked state :=
    List.mem_append_right _ (List.mem_append_left _ taken)
  have unheld := sound.unheld event isParked
  have same_pool := @openRecord_pool _ state event
  have split_parked :
      (parked state).Perm (event :: parked (EventRecords.openRecord state event)) := by
    have same : parked (EventRecords.openRecord state event) =
        parked { state with creating := state.creating.erase event } := by
      unfold parked
      rw [same_pool]
      rfl
    rw [same]
    exact perm_creating taken
  have apart : event ∉ parked (EventRecords.openRecord state event) :=
    (List.nodup_cons.mp (split_parked.nodup_iff.mp poolSound.parked_nodup)).1
  constructor
  case counted =>
    apply @forall_setRecord _ _ _
      (fun other record => record.references = (event :: held state).count other)
    · intro other different
      rw [List.count_cons_of_ne (Ne.symm different)]
      exact sound.counted other
    · rw [List.count_cons_self, List.count_eq_zero.mpr unheld]
  case linked =>
    apply @forall_setRecord _ _ _
      (fun event record => record.linked = true ↔ event ∈ queued state.tracker.streams)
      (fun event _ => sound.linked event)
    constructor
    · intro impossible
      cases impossible
    · intro mem
      exact absurd (mem_held_of_queued mem) unheld
  case queued_nodup => exact sound.queued_nodup
  case unheld =>
    intro other mem isHeld
    rcases List.mem_cons.mp isHeld with rfl | old
    · exact apart mem
    · exact sound.unheld other
        (split_parked.mem_iff.mpr (List.mem_cons_of_mem event mem)) old
  case kept =>
    intro other mem nobody
    rw [same_pool] at mem
    have old := sound.kept other mem (fun old => nobody (List.mem_cons_of_mem event old))
    rcases List.mem_cons.mp (split_parked.mem_iff.mp old) with rfl | rest
    · exact absurd List.mem_cons_self nobody
    · exact rest
  case known =>
    intro other mem
    rcases List.mem_cons.mp mem with rfl | old
    · exact poolSound.below other (List.mem_append_right _ isParked)
    · exact sound.known other old

/-! ## Linking and unlinking -/

section Streams

variable [DecidableEq κ] {stream : κ} {ticket : Nat}

theorem queued_enqueue {streams : List (CompletionStream κ)} :
    (queued (enqueue stream (event, ticket) streams)).Perm (event :: queued streams) :=
  entries_enqueue.map fun submission : Submission κ => submission.2.1

theorem queued_dropHead {streams : List (CompletionStream κ)}
    {queue : List (EventId × Nat)}
    (head : queueOf stream streams = (event, ticket) :: queue) :
    (queued streams).Perm (event :: queued (dropHead stream streams)) :=
  (entries_dropHead head).map fun submission : Submission κ => submission.2.1

/-- The stream holds a reference of its own. -/
theorem held_submit (unlinked : (state.records event).linked = false) :
    (held (submit state stream event)).Perm (event :: held state) := by
  unfold submit
  rw [if_neg (Bool.not_eq_true _ ▸ unlinked)]
  have longer : (queued (enqueue stream (event, state.submissions.length)
      state.tracker.streams) ++ state.pollers.flatMap polled).Perm
      (event :: (queued state.tracker.streams ++ state.pollers.flatMap polled)) :=
    queued_enqueue.append_right _
  exact (longer.append_left state.clients).trans List.perm_middle

theorem CountSound.submit
    (sound : CountSound state) (client : event ∈ state.clients) :
    CountSound (submit state stream event) := by
  by_cases linked : (state.records event).linked = true
  · unfold EventRecords.submit
    rw [if_pos linked]
    exact sound
  have unlinked : (state.records event).linked = false := eq_false_of_ne_true linked
  have gained := @held_submit _ _ _ _ stream unlinked
  have unqueued : event ∉ queued state.tracker.streams :=
    fun mem => linked ((sound.linked event).mpr mem)
  have isHeld := mem_held_of_client client
  unfold EventRecords.submit at gained ⊢
  rw [if_neg linked] at gained ⊢
  constructor
  case counted =>
    apply @forall_setRecord _ _ _ (fun other record => record.references = (held _).count other)
    · intro other different
      rw [gained.count_eq, List.count_cons_of_ne (Ne.symm different)]
      exact sound.counted other
    · rw [gained.count_eq, List.count_cons_self, ← sound.counted event]
  case linked =>
    apply @forall_setRecord _ _ _ (fun other record => record.linked = true ↔ other ∈ queued _)
    · intro other different
      rw [queued_enqueue.mem_iff, List.mem_cons, sound.linked other]
      constructor
      · exact Or.inr
      · exact fun mem => mem.resolve_left different
    · exact iff_of_true rfl (queued_enqueue.mem_iff.mpr List.mem_cons_self)
  case queued_nodup =>
    exact queued_enqueue.nodup_iff.mpr (List.nodup_cons.mpr ⟨unqueued, sound.queued_nodup⟩)
  case unheld =>
    intro other mem isHeld'
    rcases List.mem_cons.mp (gained.mem_iff.mp isHeld') with rfl | old
    · exact sound.unheld other mem isHeld
    · exact sound.unheld other mem old
  case kept =>
    intro other mem apart
    apply sound.kept other mem
    exact fun old => apart (gained.mem_iff.mpr (List.mem_cons_of_mem event old))
  case known =>
    intro other mem
    rcases List.mem_cons.mp (gained.mem_iff.mp mem) with rfl | old
    · exact sound.known other isHeld
    · exact sound.known other old

/-- The stream's reference passes to the polling thread. -/
theorem held_unlinkHead {index : Nat} {queue : List (EventId × Nat)}
    (asked : state.pollers[index]? = some (.queried stream event .complete))
    (head : queueOf stream state.tracker.streams = (event, ticket) :: queue) :
    (held (unlinkHead state index stream event ticket)).Perm (held state) := by
  apply List.perm_iff_count.mpr
  intro other
  rw [held_count, held_count, (queued_dropHead head).count_eq]
  have moved := @count_pollers_set _ _ _ _ (.releasing event 2) other asked
  have before : (polled (.queried stream event .complete)).count other =
      [event].count other := rfl
  have after : (polled (.releasing event 2 : Poller κ)).count other =
      [event].count other + [event].count other := by
    show ([event] ++ [event]).count other = _
    exact List.count_append
  rw [before, after] at moved
  have one : (event :: queued (dropHead stream state.tracker.streams)).count other =
      [event].count other +
        (queued (dropHead stream state.tracker.streams)).count other := by
    show ([event] ++ queued _).count other = _
    exact List.count_append
  rw [one]
  show state.clients.count other +
    ((queued (dropHead stream state.tracker.streams)).count other +
      ((state.pollers.set index (.releasing event 2)).flatMap polled).count other) = _
  omega

theorem CountSound.unlinkHead {index : Nat} {queue : List (EventId × Nat)}
    (sound : CountSound state)
    (asked : state.pollers[index]? = some (.queried stream event .complete))
    (head : queueOf stream state.tracker.streams = (event, ticket) :: queue) :
    CountSound (unlinkHead state index stream event ticket) := by
  have same := held_unlinkHead asked head
  have shorter := queued_dropHead head
  have nodup := List.nodup_cons.mp (shorter.nodup_iff.mp sound.queued_nodup)
  constructor
  case counted =>
    apply @forall_setRecord _ _ _ (fun other record => record.references = (held _).count other)
    · intro other _
      rw [same.count_eq]
      exact sound.counted other
    · rw [same.count_eq]
      exact sound.counted event
  case linked =>
    apply @forall_setRecord _ _ _ (fun other record => record.linked = true ↔ other ∈ queued _)
    · intro other different
      rw [sound.linked other, shorter.mem_iff, List.mem_cons]
      constructor
      · exact fun mem => mem.resolve_left different
      · exact Or.inr
    · exact iff_of_false Bool.false_ne_true nodup.1
  case queued_nodup => exact nodup.2
  case unheld =>
    intro other mem
    rw [same.mem_iff]
    exact sound.unheld other mem
  case kept =>
    intro other mem apart
    rw [same.mem_iff] at apart
    exact sound.kept other mem apart
  case known =>
    intro other mem
    exact sound.known other (same.mem_iff.mp mem)

end Streams

end ShadowSpill.Runtime.EventReferences
