import Mathlib.Data.List.Nodup
import ShadowSpill.Runtime.EventQueues

/-!
# The records of the pool

Every record of the pool is on its free list, taken but not opened, let go but not
returned, or referenced; its counters count exactly that.
-/

namespace ShadowSpill.Runtime.EventPoolInvariant

open EventRecords EventQueues

variable {κ : Type}
variable {state next : State κ} {event : EventId}

/-- The records without a reference: free, being opened, or on the way back. -/
def parked (state : State κ) : List EventId :=
  state.pool.freeList ++ (state.creating ++ state.returning)

/-- The pool's records and counters. -/
structure PoolSound (state : State κ) : Prop where
  blocks_nodup : state.pool.blocks.Nodup
  parked_nodup : (parked state).Nodup
  free_blocks : ∀ event ∈ state.pool.freeList, event ∈ state.pool.blocks
  owned : ∀ event, (state.records event).poolOwned = true ↔ event ∈ state.pool.blocks
  events : ∀ event ∈ state.pool.blocks, (state.records event).hasEvent = true
  below : ∀ event ∈ state.pool.blocks ++ parked state, event < state.fresh
  capacity : state.pool.capacity = state.pool.blocks.length
  available : state.pool.available = state.pool.freeList.length
  balance : state.pool.available + state.pool.inUse = state.pool.capacity

theorem poolSound_initial (pollers : Nat) : PoolSound (initial pollers : State κ) where
  blocks_nodup := List.nodup_nil
  parked_nodup := List.nodup_nil
  free_blocks := fun event mem => by cases mem
  owned := fun event => by simp [initial, unusedRecord, emptyPool]
  events := fun event mem => by cases mem
  below := fun event mem => by cases mem
  capacity := rfl
  available := rfl
  balance := rfl

/-- The pool looks at the ownership of records and at its own lists, and a step that
leaves them alone keeps the pool sound. -/
theorem PoolSound.congr
    (sound : PoolSound state) (pool : next.pool = state.pool)
    (creating : next.creating = state.creating) (returning : next.returning = state.returning)
    (fresh : next.fresh = state.fresh)
    (records : ∀ event, (next.records event).poolOwned = (state.records event).poolOwned ∧
      (next.records event).hasEvent = (state.records event).hasEvent) :
    PoolSound next := by
  have parked_eq : parked next = parked state := by
    unfold parked
    rw [pool, creating, returning]
  obtain ⟨blocks_nodup, parked_nodup, free_blocks, owned, events, below, capacity,
    available, balance⟩ := sound
  constructor
  case blocks_nodup => rwa [pool]
  case parked_nodup => rwa [parked_eq]
  case free_blocks => rwa [pool]
  case owned =>
    intro event
    rw [(records event).1, pool]
    exact owned event
  case events =>
    intro event mem
    rw [(records event).2]
    rw [pool] at mem
    exact events event mem
  case below => rwa [pool, parked_eq, fresh]
  case capacity => rwa [pool]
  case available => rwa [pool]
  case balance => rwa [pool]

/-! ## Growing -/

theorem mem_newBlock {additional : Nat} :
    event ∈ newBlock state additional ↔
      state.fresh ≤ event ∧ event < state.fresh + additional := by
  unfold newBlock
  rw [List.mem_map]
  constructor
  · rintro ⟨offset, mem, rfl⟩
    exact ⟨Nat.le_add_right _ _, Nat.add_lt_add_left (List.mem_range.mp mem) _⟩
  · rintro ⟨lower, upper⟩
    exact ⟨event - state.fresh, List.mem_range.mpr (Nat.sub_lt_left_of_lt_add lower upper),
      Nat.add_sub_cancel' lower⟩

theorem newBlock_nodup (state : State κ) (additional : Nat) :
    (newBlock state additional).Nodup := by
  unfold newBlock
  apply List.Nodup.map _ List.nodup_range
  intro first second same
  exact Nat.add_left_cancel same

theorem PoolSound.reserveLink (sound : PoolSound state) (additional : Nat) :
    PoolSound (reserveLink state additional) := by
  have new_fresh : ∀ event ∈ newBlock state additional,
      event ∉ state.pool.blocks ++ parked state := by
    intro event mem old
    have lower := (mem_newBlock.mp mem).1
    exact absurd (sound.below event old) (Nat.not_lt.mpr lower)
  have new_length : (newBlock state additional).length = additional := by
    unfold newBlock
    rw [List.length_map, List.length_range]
  have parked_eq : parked (EventRecords.reserveLink state additional) =
      (newBlock state additional).reverse ++ parked state := by
    unfold parked
    exact List.append_assoc _ _ _
  constructor
  case blocks_nodup =>
    apply List.Nodup.append (newBlock_nodup state additional) sound.blocks_nodup
    intro event mem old
    exact new_fresh event mem (List.mem_append_left _ old)
  case parked_nodup =>
    rw [parked_eq]
    apply List.Nodup.append (List.nodup_reverse.mpr (newBlock_nodup state additional))
      sound.parked_nodup
    intro event mem old
    exact new_fresh event (List.mem_reverse.mp mem) (List.mem_append_right _ old)
  case free_blocks =>
    intro event mem
    rcases List.mem_append.mp mem with new | old
    · exact List.mem_append_left _ (List.mem_reverse.mp new)
    · exact List.mem_append_right _ (sound.free_blocks event old)
  case owned =>
    intro event
    show (if _ then _ else _ : EventRecord).poolOwned = true ↔ event ∈ newBlock state additional ++ _
    rw [List.mem_append, mem_newBlock]
    split
    case isTrue inside => simp [unusedRecord, inside]
    case isFalse outside => simp [outside, sound.owned event]
  case events =>
    intro event mem
    show (if _ then _ else _ : EventRecord).hasEvent = true
    split
    case isTrue => rfl
    case isFalse outside =>
      rcases List.mem_append.mp mem with new | old
      · exact absurd (mem_newBlock.mp new) outside
      · exact sound.events event old
  case below =>
    intro event mem
    show event < state.fresh + additional
    rw [parked_eq] at mem
    rcases List.mem_append.mp mem with inBlocks | inParked
    · rcases List.mem_append.mp inBlocks with new | old
      · exact (mem_newBlock.mp new).2
      · exact Nat.lt_add_right _ (sound.below event (List.mem_append_left _ old))
    · rcases List.mem_append.mp inParked with new | old
      · exact (mem_newBlock.mp (List.mem_reverse.mp new)).2
      · exact Nat.lt_add_right _ (sound.below event (List.mem_append_right _ old))
  case capacity =>
    show state.pool.capacity + additional = (newBlock state additional ++ _).length
    rw [List.length_append, new_length, sound.capacity, Nat.add_comm]
  case available =>
    show state.pool.available + additional =
      ((newBlock state additional).reverse ++ _).length
    rw [List.length_append, List.length_reverse, new_length, sound.available, Nat.add_comm]
  case balance =>
    show state.pool.available + additional + state.pool.inUse =
      state.pool.capacity + additional
    rw [← sound.balance]
    omega

/-! ## Taking and returning -/

theorem PoolSound.takePooled {rest : List EventId}
    (sound : PoolSound state) (first : state.pool.freeList = event :: rest) :
    PoolSound (takePooled state event rest) := by
  have moved : (parked (EventRecords.takePooled state event rest)).Perm (parked state) := by
    unfold parked
    rw [first]
    show (rest ++ (event :: state.creating ++ state.returning)).Perm _
    exact List.perm_middle
  constructor
  case blocks_nodup => exact sound.blocks_nodup
  case parked_nodup => exact moved.nodup_iff.mpr sound.parked_nodup
  case free_blocks =>
    intro other mem
    apply sound.free_blocks
    rw [first]
    exact List.mem_cons_of_mem event mem
  case owned => exact sound.owned
  case events => exact sound.events
  case below =>
    intro other mem
    apply sound.below
    rw [List.mem_append] at mem ⊢
    exact mem.imp_right moved.mem_iff.mp
  case capacity => exact sound.capacity
  case available =>
    show state.pool.available - 1 = rest.length
    rw [sound.available, first]
    rfl
  case balance =>
    show state.pool.available - 1 + (state.pool.inUse + 1) = state.pool.capacity
    have balance := sound.balance
    have available := sound.available
    rw [first, List.length_cons] at available
    omega

theorem PoolSound.takeAllocated (sound : PoolSound state) :
    PoolSound (takeAllocated state) := by
  have fresh_unknown : state.fresh ∉ state.pool.blocks ++ parked state :=
    fun mem => absurd (sound.below _ mem) (Nat.lt_irrefl _)
  have moved : (parked (EventRecords.takeAllocated state)).Perm
      (state.fresh :: parked state) := by
    unfold parked
    show (state.pool.freeList ++ (state.fresh :: state.creating ++ state.returning)).Perm _
    exact List.perm_middle
  have not_block : ∀ event ∈ state.pool.blocks, event ≠ state.fresh := by
    rintro event mem rfl
    exact fresh_unknown (List.mem_append_left _ mem)
  constructor
  case blocks_nodup => exact sound.blocks_nodup
  case parked_nodup =>
    apply moved.nodup_iff.mpr
    exact List.nodup_cons.mpr
      ⟨fun mem => fresh_unknown (List.mem_append_right _ mem), sound.parked_nodup⟩
  case free_blocks => exact sound.free_blocks
  case owned =>
    apply @forall_setRecord _ _ _
      (fun event record => record.poolOwned = true ↔ event ∈ state.pool.blocks)
      (fun event _ => sound.owned event)
    constructor
    · intro impossible
      cases impossible
    · intro mem
      exact absurd rfl (not_block _ mem)
  case events =>
    intro event mem
    show (setRecord state.records state.fresh _ event).hasEvent = true
    rw [setRecord_other (not_block event mem)]
    exact sound.events event mem
  case below =>
    intro other mem
    show other < state.fresh + 1
    rcases List.mem_append.mp mem with inBlocks | inParked
    · exact Nat.lt_succ_of_lt (sound.below other (List.mem_append_left _ inBlocks))
    · rcases List.mem_cons.mp (moved.mem_iff.mp inParked) with rfl | old
      · exact Nat.lt_succ_self _
      · exact Nat.lt_succ_of_lt (sound.below other (List.mem_append_right _ old))
  case capacity => exact sound.capacity
  case available => exact sound.available
  case balance => exact sound.balance

/-- Returning a record that stood apart from the free list. -/
theorem PoolSound.releaseRecord
    (sound : PoolSound state)
    (apart : event ∉ parked state) (known : event < state.fresh) :
    PoolSound (releaseRecord state event) ∧
      (parked (releaseRecord state event)).Perm
        (if (state.records event).poolOwned then event :: parked state
          else parked state) := by
  unfold EventRecords.releaseRecord
  split
  case isFalse => exact ⟨sound, List.Perm.refl _⟩
  case isTrue isOwned =>
    have isBlock := (sound.owned event).mp isOwned
    have not_free : event ∉ state.pool.freeList :=
      fun mem => apart (List.mem_append_left _ mem)
    have shorter : state.pool.freeList.length + 1 ≤ state.pool.blocks.length := by
      have nodup : (event :: state.pool.freeList).Nodup := List.nodup_cons.mpr
        ⟨not_free, (List.nodup_append.mp sound.parked_nodup).1⟩
      have subset : (event :: state.pool.freeList) ⊆ state.pool.blocks := by
        intro other mem
        rcases List.mem_cons.mp mem with rfl | mem
        · exact isBlock
        · exact sound.free_blocks other mem
      exact (List.subperm_of_subset nodup subset).length_le
    have inUse_pos : state.pool.inUse ≠ 0 := by
      have balance := sound.balance
      have capacity := sound.capacity
      have available := sound.available
      omega
    refine ⟨?_, List.Perm.refl _⟩
    constructor
    case blocks_nodup => exact sound.blocks_nodup
    case parked_nodup => exact List.nodup_cons.mpr ⟨apart, sound.parked_nodup⟩
    case free_blocks =>
      intro other mem
      rcases List.mem_cons.mp mem with rfl | mem
      · exact isBlock
      · exact sound.free_blocks other mem
    case owned => exact sound.owned
    case events => exact sound.events
    case below =>
      intro other mem
      rcases List.mem_append.mp mem with inBlocks | inParked
      · exact sound.below other (List.mem_append_left _ inBlocks)
      · rcases List.mem_cons.mp inParked with rfl | old
        · exact known
        · exact sound.below other (List.mem_append_right _ old)
    case capacity => exact sound.capacity
    case available =>
      show state.pool.available + 1 = state.pool.freeList.length + 1
      rw [sound.available]
    case balance =>
      show state.pool.available + 1 +
        (if state.pool.inUse ≠ 0 then state.pool.inUse - 1 else 0) = state.pool.capacity
      rw [if_pos inUse_pos]
      have balance := sound.balance
      omega

/-! ## Opening, failing and letting go -/

/-- A record that leaves the ones without a reference. -/
theorem PoolSound.leave
    (sound : PoolSound state) (pool : next.pool = { state.pool with
      driverCreates := next.pool.driverCreates })
    (fewer : (parked next).Sublist (parked state)) (fresh : next.fresh = state.fresh)
    (records : ∀ event, (next.records event).poolOwned = (state.records event).poolOwned ∧
      ((state.records event).hasEvent = true → (next.records event).hasEvent = true)) :
    PoolSound next := by
  constructor
  case blocks_nodup =>
    rw [pool]
    exact sound.blocks_nodup
  case parked_nodup => exact sound.parked_nodup.sublist fewer
  case free_blocks =>
    rw [pool]
    exact sound.free_blocks
  case owned =>
    intro event
    rw [(records event).1, pool]
    exact sound.owned event
  case events =>
    intro event mem
    rw [pool] at mem
    exact (records event).2 (sound.events event mem)
  case below =>
    intro event mem
    rw [fresh]
    apply sound.below event
    rw [pool] at mem
    rw [List.mem_append] at mem ⊢
    exact mem.imp_right (fun inParked => fewer.subset inParked)
  case capacity =>
    rw [pool]
    exact sound.capacity
  case available =>
    rw [pool]
    exact sound.available
  case balance =>
    rw [pool]
    exact sound.balance

theorem openRecord_pool :
    (openRecord state event).pool =
      { state.pool with driverCreates := (openRecord state event).pool.driverCreates } := by
  unfold openRecord
  dsimp only
  split <;> rfl

theorem PoolSound.openRecord (sound : PoolSound state) :
    PoolSound (openRecord state event) := by
  apply sound.leave openRecord_pool
  · unfold parked
    rw [openRecord_pool]
    exact (List.erase_sublist.append_right state.returning).append_left state.pool.freeList
  · rfl
  · apply @forall_setRecord _ _ _
      (fun other record => record.poolOwned = (state.records other).poolOwned ∧
        ((state.records other).hasEvent = true → record.hasEvent = true))
      (fun _ _ => ⟨rfl, id⟩)
    exact ⟨rfl, fun _ => rfl⟩

/-- A record without a reference is taken off `creating` or `returning` and returned. -/
theorem PoolSound.returned
    (sound : PoolSound state) (left : State κ)
    (pool : left.pool = state.pool) (records : left.records = state.records)
    (fresh : left.fresh = state.fresh)
    (taken : (parked state).Perm (event :: parked left))
    (fewer : (parked left).Sublist (parked state)) :
    PoolSound (EventRecords.releaseRecord left event) ∧
      (parked (EventRecords.releaseRecord left event)).Perm
        (if (state.records event).poolOwned then parked state else parked left) := by
  have leftSound : PoolSound left := by
    apply sound.leave
    · rw [pool]
    · exact fewer
    · exact fresh
    · intro other
      rw [records]
      exact ⟨rfl, fun hasEvent => hasEvent⟩
  have apart : event ∉ parked left :=
    (List.nodup_cons.mp (taken.nodup_iff.mp sound.parked_nodup)).1
  have known : event < left.fresh := by
    rw [fresh]
    apply sound.below event
    exact List.mem_append_right _ (taken.mem_iff.mpr List.mem_cons_self)
  have released := leftSound.releaseRecord apart known
  refine ⟨released.1, released.2.trans ?_⟩
  rw [records]
  split
  · exact taken.symm
  · exact List.Perm.refl _

theorem perm_creating (taken : event ∈ state.creating) :
    (parked state).Perm
      (event :: parked { state with creating := state.creating.erase event }) := by
  have taken_out := (List.perm_cons_erase taken).append_right state.returning
  exact (taken_out.append_left state.pool.freeList).trans List.perm_middle

theorem perm_returning (taken : event ∈ state.returning) :
    (parked state).Perm
      (event :: parked { state with returning := state.returning.erase event }) := by
  have taken_out := (List.perm_cons_erase taken).append_left state.creating
  have moved := taken_out.trans List.perm_middle
  exact (moved.append_left state.pool.freeList).trans List.perm_middle

theorem perm_let_go :
    (parked { state with returning := event :: state.returning }).Perm
      (event :: parked state) := by
  have moved : (state.creating ++ event :: state.returning).Perm
      (event :: (state.creating ++ state.returning)) := List.perm_middle
  exact (moved.append_left state.pool.freeList).trans List.perm_middle

/-- A record that was referenced is let go with its last reference. -/
theorem PoolSound.drop
    (sound : PoolSound state) (apart : event ∉ parked state) (known : event < state.fresh) :
    PoolSound (dropReference state event) := by
  have records : ∀ other,
      ((dropReference state event).records other).poolOwned =
          (state.records other).poolOwned ∧
        (other ∈ state.pool.blocks →
          ((dropReference state event).records other).hasEvent =
            (state.records other).hasEvent) := by
    unfold dropReference
    split
    · apply @forall_setRecord _ _ _
        (fun other record => record.poolOwned = (state.records other).poolOwned ∧
          (other ∈ state.pool.blocks → record.hasEvent = (state.records other).hasEvent))
        (fun _ _ => ⟨rfl, fun _ => rfl⟩)
      refine ⟨rfl, ?_⟩
      intro isBlock
      show ((state.records event).poolOwned && (state.records event).hasEvent) = _
      rw [(sound.owned event).mpr isBlock, Bool.true_and]
    · exact @forall_setRecord _ _ _
        (fun other record => record.poolOwned = (state.records other).poolOwned ∧
          (other ∈ state.pool.blocks → record.hasEvent = (state.records other).hasEvent))
        (fun _ _ => ⟨rfl, fun _ => rfl⟩) ⟨rfl, fun _ => rfl⟩
  have pool : (dropReference state event).pool = state.pool := by
    unfold dropReference
    split <;> rfl
  have fresh : (dropReference state event).fresh = state.fresh := by
    unfold dropReference
    split <;> rfl
  have parked_next : (parked (dropReference state event)).Perm (event :: parked state) ∨
      parked (dropReference state event) = parked state := by
    unfold dropReference
    split
    · exact Or.inl perm_let_go
    · exact Or.inr rfl
  constructor
  case blocks_nodup =>
    rw [pool]
    exact sound.blocks_nodup
  case parked_nodup =>
    rcases parked_next with longer | same
    · exact longer.nodup_iff.mpr (List.nodup_cons.mpr ⟨apart, sound.parked_nodup⟩)
    · rw [same]
      exact sound.parked_nodup
  case free_blocks =>
    rw [pool]
    exact sound.free_blocks
  case owned =>
    intro other
    rw [(records other).1, pool]
    exact sound.owned other
  case events =>
    intro other mem
    rw [pool] at mem
    rw [(records other).2 mem]
    exact sound.events other mem
  case below =>
    intro other mem
    rw [fresh]
    rw [pool] at mem
    rcases List.mem_append.mp mem with inBlocks | inParked
    · exact sound.below other (List.mem_append_left _ inBlocks)
    · rcases parked_next with longer | same
      · rcases List.mem_cons.mp (longer.mem_iff.mp inParked) with rfl | old
        · exact known
        · exact sound.below other (List.mem_append_right _ old)
      · rw [same] at inParked
        exact sound.below other (List.mem_append_right _ inParked)
  case capacity =>
    rw [pool]
    exact sound.capacity
  case available =>
    rw [pool]
    exact sound.available
  case balance =>
    rw [pool]
    exact sound.balance

end ShadowSpill.Runtime.EventPoolInvariant
