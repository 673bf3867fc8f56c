import ShadowSpill.Network.LaneInvariant

/-!
# What the route stream holds back

A copy across the ring is queued behind a wait for the slot's last use, and an event is
recorded behind a wait for the pieces planned before it.  Each queued operation carries
the number of copies accepted when it was issued, so the gate and the device's word do
not pass an operation that was issued before their copy.
-/

namespace ShadowSpill.Network.LaneGuards

open RemoteLane LanePlan LaneStream LaneBooks

/-! ## Demands on the NIC's word -/

/-- The NIC's word below which an operation must not run. -/
def demand (setup : Setup) : StreamOp → Nat
  | .copyAcross chunk _ _ =>
    if setup.toRemote then chunk + 1 - setup.ringSlots else chunk + 1
  | .recordEvent _ planned => planned
  | _ => 0

/-- The NIC's word is known to have reached this once an operation has passed. -/
def passed (reached : Nat) : StreamOp → Nat
  | .waitValue value => max reached value
  | _ => reached

/-- Every operation comes behind a wait for what it demands, or that is reached already. -/
def Behind (setup : Setup) : Nat → List StreamOp → Prop
  | _, [] => True
  | reached, op :: rest => demand setup op ≤ reached ∧ Behind setup (passed reached op) rest

section Behind

variable {setup : Setup} {reached more : Nat} {op : StreamOp} {ops rest : List StreamOp}

theorem demand_evict (remote : setup.toRemote = true) (chunk localAddress bytes : Nat) :
    demand setup (.copyAcross chunk localAddress bytes) = chunk + 1 - setup.ringSlots :=
  if_pos remote

theorem demand_fetch (remote : setup.toRemote = false) (chunk localAddress bytes : Nat) :
    demand setup (.copyAcross chunk localAddress bytes) = chunk + 1 :=
  if_neg (by rw [remote]; exact Bool.false_ne_true)

theorem passed_mono (higher : reached ≤ more) (op : StreamOp) :
    passed reached op ≤ passed more op := by
  cases op with
  | waitValue value => exact max_le_max higher le_rfl
  | _ => exact higher

theorem Behind.mono (behind : Behind setup reached ops) (higher : reached ≤ more) :
    Behind setup more ops := by
  induction ops generalizing reached more with
  | nil => trivial
  | cons op rest ih =>
      exact ⟨behind.1.trans higher, ih behind.2 (passed_mono higher op)⟩

theorem Behind.append (behind : Behind setup reached ops) (later : Behind setup 0 rest) :
    Behind setup reached (ops ++ rest) := by
  induction ops generalizing reached with
  | nil => exact later.mono (Nat.zero_le _)
  | cons op tail ih => exact ⟨behind.1, ih behind.2⟩

theorem behind_flatMap {block : Nat → List StreamOp} (each : ∀ index, Behind setup 0 (block index))
    (indices : List Nat) : Behind setup 0 (indices.flatMap block) := by
  induction indices with
  | nil => trivial
  | cons index rest ih =>
      rw [List.flatMap_cons]
      exact (each index).append ih

/-- What is behind the oldest operation stays so when that has passed. -/
theorem Behind.tail (behind : Behind setup reached (op :: rest))
    (passes : ∀ value, op = .waitValue value → value ≤ reached) : Behind setup reached rest := by
  have left := behind.2
  cases op with
  | waitValue value => rwa [passed, Nat.max_eq_left (passes value rfl)] at left
  | _ => exact left

theorem behind_stagePiece (work : Work) (index : Nat) :
    Behind setup 0 (stagePiece setup work index) := by
  unfold stagePiece
  dsimp only
  cases remote : setup.toRemote with
  | true =>
      rw [if_pos rfl]
      split
      · refine ⟨Nat.zero_le _, ?_, Nat.zero_le _, trivial⟩
        rw [demand_evict remote]
        exact le_max_right _ _
      · rename_i early
        refine ⟨?_, Nat.zero_le _, trivial⟩
        rw [demand_evict remote]
        omega
  | false =>
      rw [if_neg Bool.false_ne_true]
      refine ⟨Nat.zero_le _, ?_, Nat.zero_le _, trivial⟩
      rw [demand_fetch remote]
      exact le_max_right _ _

theorem behind_copyOps (work : Work) : Behind setup 0 (copyOps setup work) := by
  unfold copyOps
  split
  · exact behind_flatMap (behind_stagePiece work) _
  · exact ⟨le_rfl, trivial⟩

theorem behind_joinOps (lane : Lane) : Behind setup 0 (joinOps lane) := by
  unfold joinOps
  split
  · trivial
  · exact ⟨le_rfl, trivial⟩

theorem behind_signalOps (lane : Lane) (event : Nat) : Behind setup 0 (signalOps lane event) := by
  unfold signalOps joinOps
  split
  · rename_i none_
    exact ⟨none_.le, trivial⟩
  · exact ⟨le_rfl, le_max_right _ _, trivial⟩

end Behind

/-! ## The copies that an operation is ahead of -/

/-- An event wait, which the runtime alone asks for. -/
def isEvent : StreamOp → Bool
  | .waitEvent _ => true
  | _ => false

/-- The NIC fills a slot of the ring before the route stream moves its bytes on. -/
def fillsFirst (setup : Setup) : Bool :=
  setup.stages && !setup.toRemote

/-- The operations queued carry how many copies were accepted when each was issued, and
neither the gate nor the device's word is ahead of one of them. -/
structure Tagged (setup : Setup) (transfers : List Work) (accepted gate drained : Nat)
    (entries : List Entry) : Prop where
  ordered : entries.Pairwise fun earlier later => earlier.issued ≤ later.issued
  bounded : ∀ entry ∈ entries, entry.issued ≤ accepted
  gates : ∀ entry ∈ entries, ∀ handle, entry.op = .writeGate handle → handle = entry.issued
  devices : ∀ entry ∈ entries, ∀ reached, entry.op = .writeDevice reached →
    reached ≤ firstOf transfers entry.issued
  opened : ∀ entry ∈ entries, gate ≤ entry.issued
  drained : ∀ entry ∈ entries, drained ≤ firstOf transfers entry.issued
  /-- Under a staged fetch no copy follows an event wait that is still queued. -/
  events : fillsFirst setup = true → ∀ entry ∈ entries, isEvent entry.op = true →
    entry.issued = accepted

section Tagged

variable {setup : Setup} {transfers : List Work} {accepted gate drained planned : Nat}
variable {entries : List Entry} {entry : Entry} {rest : List Entry} {work : Work}

theorem mem_issued {ops : List StreamOp} (mem : entry ∈ ops.map (Entry.mk accepted)) :
    entry.issued = accepted ∧ entry.op ∈ ops := by
  obtain ⟨op, inside, same⟩ := List.mem_map.mp mem
  rw [← same]
  exact ⟨rfl, inside⟩

theorem issued_ordered (ops : List StreamOp) : (ops.map (Entry.mk accepted)).Pairwise
    fun earlier later => earlier.issued ≤ later.issued := by
  apply List.pairwise_map.mpr
  exact List.pairwise_of_forall fun _ _ => le_rfl

/-- A call that neither stores nor copies. -/
theorem Tagged.append (tagged : Tagged setup transfers accepted gate drained entries)
    {ops : List StreamOp} (passive : ∀ op ∈ ops, Passive op) (gate_le : gate ≤ accepted)
    (drained_le : drained ≤ firstOf transfers accepted) :
    Tagged setup transfers accepted gate drained
      (entries ++ ops.map (Entry.mk accepted)) := by
  constructor
  · apply List.pairwise_append.mpr
    refine ⟨tagged.ordered, issued_ordered ops, ?_⟩
    intro earlier old later new
    rw [(mem_issued new).1]
    exact tagged.bounded earlier old
  · intro entry mem
    rcases List.mem_append.mp mem with old | new
    · exact tagged.bounded entry old
    · exact (mem_issued new).1.le
  · intro entry mem handle op
    rcases List.mem_append.mp mem with old | new
    · exact tagged.gates entry old handle op
    · have none_ := (passive _ (mem_issued new).2).1
      rw [op] at none_
      cases none_
  · intro entry mem reached op
    rcases List.mem_append.mp mem with old | new
    · exact tagged.devices entry old reached op
    · have none_ := (passive _ (mem_issued new).2).2.1
      rw [op] at none_
      cases none_
  · intro entry mem
    rcases List.mem_append.mp mem with old | new
    · exact tagged.opened entry old
    · rw [(mem_issued new).1]
      exact gate_le
  · intro entry mem
    rcases List.mem_append.mp mem with old | new
    · exact tagged.drained entry old
    · rw [(mem_issued new).1]
      exact drained_le
  · intro fills entry mem event
    rcases List.mem_append.mp mem with old | new
    · exact tagged.events fills entry old event
    · exact (mem_issued new).1

/-- The stores of a copy are its own. -/
theorem copyOps_stores {op : StreamOp} (mem : op ∈ copyOps setup work) :
    (∀ handle, op = .writeGate handle → handle = work.handle) ∧
      (∀ reached, op = .writeDevice reached → reached ≤ work.firstChunk + work.chunks) ∧
      isEvent op = false := by
  unfold copyOps at mem
  split at mem
  · obtain ⟨index, inside, piece⟩ := List.mem_flatMap.mp mem
    have bound := List.mem_range.mp inside
    unfold stagePiece at piece
    dsimp only at piece
    rcases List.mem_append.mp piece with wait | rest
    · have isWait : ∃ reached, op = .waitValue reached := by
        split at wait
        · split at wait
          · exact ⟨_, List.mem_singleton.mp wait⟩
          · cases wait
        · exact ⟨_, List.mem_singleton.mp wait⟩
      obtain ⟨reached, same⟩ := isWait
      subst same
      exact ⟨(fun _ wrong => by cases wrong), (fun _ wrong => by cases wrong), rfl⟩
    · rcases List.mem_cons.mp rest with copy | store
      · subst copy
        exact ⟨(fun _ wrong => by cases wrong), (fun _ wrong => by cases wrong), rfl⟩
      · cases List.mem_singleton.mp store
        refine ⟨(fun _ wrong => by cases wrong), ?_, rfl⟩
        intro reached same
        cases same
        omega
  · cases List.mem_singleton.mp mem
    refine ⟨?_, (fun _ wrong => by cases wrong), rfl⟩
    intro handle same
    cases same
    rfl

/-- A copy; a staged fetch finds no event wait queued. -/
theorem Tagged.publish (tagged : Tagged setup transfers accepted gate drained entries)
    (history : History setup transfers accepted planned) (handle : work.handle = accepted + 1)
    (first : work.firstChunk = planned) (gate_le : gate ≤ accepted)
    (drained_le : drained ≤ planned)
    (free : fillsFirst setup = true → ∀ entry ∈ entries, isEvent entry.op = false) :
    Tagged setup (transfers ++ [work]) (accepted + 1) gate drained
      (entries ++ (copyOps setup work).map (Entry.mk (accepted + 1))) := by
  have length := history.length
  have known : ∀ count ≤ accepted,
      firstOf (transfers ++ [work]) count = firstOf transfers count :=
    fun _ bound => firstOf_append (length.symm ▸ bound)
  have last : firstOf (transfers ++ [work]) (accepted + 1) =
      work.firstChunk + work.chunks := by
    rw [← length, firstOf_length_append, length, history.total, first]
  constructor
  · apply List.pairwise_append.mpr
    refine ⟨tagged.ordered, issued_ordered _, ?_⟩
    intro earlier old later new
    rw [(mem_issued new).1]
    exact (tagged.bounded earlier old).trans (Nat.le_succ _)
  · intro entry mem
    rcases List.mem_append.mp mem with old | new
    · exact (tagged.bounded entry old).trans (Nat.le_succ _)
    · exact (mem_issued new).1.le
  · intro entry mem other op
    rcases List.mem_append.mp mem with old | new
    · exact tagged.gates entry old other op
    · rw [(mem_issued new).1, ← handle]
      exact (copyOps_stores (mem_issued new).2).1 other op
  · intro entry mem reached op
    rcases List.mem_append.mp mem with old | new
    · rw [known entry.issued (tagged.bounded entry old)]
      exact tagged.devices entry old reached op
    · rw [(mem_issued new).1, last]
      exact (copyOps_stores (mem_issued new).2).2.1 reached op
  · intro entry mem
    rcases List.mem_append.mp mem with old | new
    · exact tagged.opened entry old
    · rw [(mem_issued new).1]
      exact gate_le.trans (Nat.le_succ _)
  · intro entry mem
    rcases List.mem_append.mp mem with old | new
    · rw [known entry.issued (tagged.bounded entry old)]
      exact tagged.drained entry old
    · rw [(mem_issued new).1, last, first]
      exact drained_le.trans (Nat.le_add_right _ _)
  · intro fills entry mem event
    rcases List.mem_append.mp mem with old | new
    · rw [free fills entry old] at event
      cases event
    · rw [(copyOps_stores (mem_issued new).2).2.2] at event
      cases event

theorem Tagged.tail
    (tagged : Tagged setup transfers accepted gate drained (entry :: rest)) :
    Tagged setup transfers accepted gate drained rest where
  ordered := (List.pairwise_cons.mp tagged.ordered).2
  bounded := fun entry mem => tagged.bounded entry (List.mem_cons_of_mem _ mem)
  gates := fun entry mem => tagged.gates entry (List.mem_cons_of_mem _ mem)
  devices := fun entry mem => tagged.devices entry (List.mem_cons_of_mem _ mem)
  opened := fun entry mem => tagged.opened entry (List.mem_cons_of_mem _ mem)
  drained := fun entry mem => tagged.drained entry (List.mem_cons_of_mem _ mem)
  events := fun fills entry mem => tagged.events fills entry (List.mem_cons_of_mem _ mem)

/-- What is queued behind a gate was issued with it or later. -/
theorem Tagged.gate_tail {handle : Nat}
    (tagged : Tagged setup transfers accepted gate drained (entry :: rest))
    (op : entry.op = .writeGate handle) :
    Tagged setup transfers accepted handle drained rest := by
  have tail := tagged.tail
  refine { tail with opened := ?_ }
  intro later mem
  rw [tagged.gates entry List.mem_cons_self handle op]
  exact (List.pairwise_cons.mp tagged.ordered).1 later mem

/-- What is queued behind a store of the device's word was issued with it or later. -/
theorem Tagged.device_tail {reached : Nat}
    (tagged : Tagged setup transfers accepted gate drained (entry :: rest))
    (op : entry.op = .writeDevice reached) :
    Tagged setup transfers accepted gate reached rest := by
  have tail := tagged.tail
  refine { tail with drained := ?_ }
  intro later mem
  have bound := tagged.devices entry List.mem_cons_self reached op
  exact bound.trans (firstOf_mono ((List.pairwise_cons.mp tagged.ordered).1 later mem))

end Tagged

end ShadowSpill.Network.LaneGuards
