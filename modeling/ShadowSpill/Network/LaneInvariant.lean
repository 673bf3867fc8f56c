import ShadowSpill.Network.LaneBooks

/-!
# The invariant of a lane

What a lane keeps in every run whose steps are orderly: every copy fits its words, no post
is refused and no device call of a copy, and a failure is met only when every accepted
transfer is started and nothing is accepted until it is handled.
-/

namespace ShadowSpill.Network.LaneInvariant

open RemoteLane LanePlan LaneStream LaneBooks

/-- The thread is handling a failure. -/
def handling : Phase → Bool
  | .failing => true
  | .storingNic _ _ => true
  | .storingDevice _ _ => true
  | .storingGate _ => true
  | .latching => true
  | .settling failed => failed
  | _ => false

/-- The failure has been stored in the NIC's word. -/
def reported : Phase → Bool
  | .storingDevice _ _ => true
  | .storingGate _ => true
  | .latching => true
  | .settling failed => failed
  | _ => false

/-- How many transfers have all their pieces posted. -/
def current (thread : Thread) (started : Nat) : Nat :=
  match thread.phase with
  | .idle => started
  | _ => thread.started

/-- The operations that the route stream still has to run. -/
def opsOf (lane : Lane) : List StreamOp :=
  lane.pending.map Entry.op

/-! ## Orderly steps -/

/-- The completion that is polled next is a failed one. -/
def failedHead (lane : Lane) : Bool :=
  match lane.completions with
  | (_, false) :: _ => true
  | _ => false

/-- The thread is about to store the device's word for a failure. -/
def storesDevice : Phase → Bool
  | .storingDevice _ _ => true
  | _ => false

/-- A turn of the thread that meets no refused post, that meets a failed completion only
when every accepted transfer is started, and that stores the device's word for a failure
only when the device has at most one store of its own left. -/
structure OrderlyTurn (setup : Setup) (lane : Lane) (taken : Bool) : Prop where
  posts : taken = false → lane.thread.phase = .posting → canPost setup lane = false
  polls : lane.thread.phase = .collecting → taken = false ∨ failedHead lane = true →
    lane.thread.started = lane.accepted
  drains : storesDevice lane.thread.phase = true → setup.stages = true →
    ((opsOf lane).filterMap deviceOf).length ≤ 1

instance (setup : Setup) (lane : Lane) (taken : Bool) :
    Decidable (OrderlyTurn setup lane taken) :=
  decidable_of_iff
    ((taken = false → lane.thread.phase = .posting → canPost setup lane = false) ∧
      (lane.thread.phase = .collecting → taken = false ∨ failedHead lane = true →
        lane.thread.started = lane.accepted) ∧
      (storesDevice lane.thread.phase = true → setup.stages = true →
        ((opsOf lane).filterMap deviceOf).length ≤ 1))
    ⟨fun all => ⟨all.1, all.2.1, all.2.2⟩, fun turn => ⟨turn.posts, turn.polls, turn.drains⟩⟩

/-- An accepted copy is counted, and is not accepted while a failure is handled; no device
call of a copy is refused. -/
def Orderly (setup : Setup) (lane : Lane) : Action → Prop
  | .copy _ remoteAddress bytes =>
    ¬Foreign setup remoteAddress bytes →
      Counted setup remoteAddress bytes ∧ handling lane.thread.phase = false
  | .enqueue taken => taken = false → ∀ entry ∈ lane.calling, Passive entry.op
  | .turn taken => OrderlyTurn setup lane taken
  | _ => True

instance (setup : Setup) (lane : Lane) (action : Action) :
    Decidable (Orderly setup lane action) := by
  cases action <;> unfold Orderly <;> infer_instance

/-- An orderly step. -/
def Step (setup : Setup) (lane after : Lane) : Prop :=
  ∃ action, Orderly setup lane action ∧ next setup lane action = some after

/-- Given actions, each orderly where it is taken. -/
def OrderlyRun (setup : Setup) (lane : Lane) : List Action → Prop
  | [] => True
  | action :: rest => Orderly setup lane action ∧
    match next setup lane action with
    | none => False
    | some after => OrderlyRun setup after rest

instance decidableOrderlyRun (setup : Setup) :
    (lane : Lane) → (actions : List Action) → Decidable (OrderlyRun setup lane actions)
  | _, [] => inferInstanceAs (Decidable True)
  | lane, action :: rest =>
    match known : next setup lane action with
    | none => isFalse fun run => by
        unfold OrderlyRun at run
        rw [known] at run
        exact run.2
    | some after =>
      have := decidableOrderlyRun setup after rest
      decidable_of_iff (Orderly setup lane action ∧ OrderlyRun setup after rest) (by
        constructor
        · intro both
          unfold OrderlyRun
          rw [known]
          exact both
        · intro run
          unfold OrderlyRun at run
          rw [known] at run
          exact run)

/-- Orderly actions are orderly steps. -/
theorem reached_of_run {setup : Setup} (actions : List Action) {lane after : Lane}
    (orderly : OrderlyRun setup lane actions) (ran : run setup lane actions = some after) :
    Relation.ReflTransGen (Step setup) lane after := by
  induction actions generalizing lane with
  | nil =>
      cases ran
      exact .refl
  | cons action rest ih =>
      unfold OrderlyRun at orderly
      unfold run at ran
      cases known : next setup lane action with
      | none =>
          rw [known] at ran
          cases ran
      | some middle =>
          rw [known] at orderly ran
          exact .head ⟨action, orderly.1, known⟩ (ih orderly.2 ran)

/-! ## The invariant -/

structure Counts (accepted started retired queued : Nat) : Prop where
  retired_le : retired ≤ started
  started_le : started ≤ accepted
  waiting : queued + started = accepted

/-- The thread's own variables. -/
structure Standing (thread : Thread) (accepted started planned : Nat) : Prop where
  taken : thread.phase ≠ .idle →
    started ≤ thread.started ∧ thread.started ≤ thread.accepted ∧ thread.accepted ≤ accepted
  everything : handling thread.phase = true → thread.started = accepted
  sampledNic : ∀ first second, thread.phase = .storingNic first second →
    first = planned ∧ second = accepted
  sampledDevice : ∀ first second, thread.phase = .storingDevice first second →
    first = planned ∧ second = accepted
  sampledGate : ∀ second, thread.phase = .storingGate second → second = accepted

/-- Where the next piece to post belongs. -/
structure Position (transfers : List Work) (place accepted posted planned : Nat) : Prop where
  bound : place ≤ accepted
  lower : firstOf transfers place ≤ posted
  upper : place < accepted → posted < firstOf transfers (place + 1)
  planned : posted ≤ planned

structure Retiring (transfers : List Work) (phase : Phase)
    (retired started chunkRetired posted nic planned : Nat) : Prop where
  ordered : chunkRetired ≤ posted
  collecting : phase = .collecting → chunkRetired < posted
  done : firstOf transfers retired ≤ chunkRetired
  settled : phase = .idle → retired < started →
    chunkRetired < firstOf transfers (retired + 1)
  nic : nic = if reported phase then planned else chunkRetired

/-- The device's word and the gate. -/
structure Words (setup : Setup) (place posted gate device drained planned accepted : Nat) :
    Prop where
  gate_le : gate ≤ accepted
  device_le : device ≤ planned
  opened : setup.stages = false → place ≤ gate
  stored : setup.stages = true → drained ≤ device ∧ device ≤ drained + 1
  filled : setup.stages = true → setup.toRemote = true →
    device = drained ∧ posted ≤ drained

/-- Every posted piece that is not retired is with the NIC, in the completion queue or
flagged. -/
structure Window (phase : Phase) (landed : Nat → Bool) (chunkRetired posted : Nat)
    (inFlight : List Nat) (completions : List (Nat × Bool)) : Prop where
  narrow : posted ≤ chunkRetired + piecesInFlight
  known : handling phase = false → ∀ chunk, chunkRetired ≤ chunk → chunk < posted →
    chunk ∈ inFlight ∨ chunk ∈ completions.map Prod.fst ∨
      landed (chunk % piecesInFlight) = true

/-- The invariant. -/
structure Inv (setup : Setup) (lane : Lane) : Prop where
  history : History setup lane.transfers lane.accepted lane.chunksPlanned
  ring : Ring lane.transfers lane.workRing lane.retired lane.accepted
  counts : Counts lane.accepted lane.started lane.retired lane.queued
  standing : Standing lane.thread lane.accepted lane.started lane.chunksPlanned
  position : Position lane.transfers (current lane.thread lane.started) lane.accepted
    lane.chunkPosted lane.chunksPlanned
  retiring : Retiring lane.transfers lane.thread.phase lane.retired lane.started
    lane.chunkRetired lane.chunkPosted lane.nic lane.chunksPlanned
  words : Words setup (current lane.thread lane.started) lane.chunkPosted lane.gate
    lane.device lane.drained lane.chunksPlanned lane.accepted
  window : Window lane.thread.phase lane.chunkLanded lane.chunkRetired lane.chunkPosted
    lane.inFlight lane.completions
  requests : lane.requests = ((plan setup lane.transfers).take lane.chunkPosted).map cut
  pending : Pending setup lane.transfers lane.chunksPlanned lane.gate lane.drained
    lane.copies (opsOf lane)

theorem inv_new (setup : Setup) : Inv setup .new where
  history := ⟨rfl, rfl, (fun _ mem => by cases mem), (fun _ _ known => by cases known)⟩
  ring := ⟨by decide, (fun _ _ _ known => by cases known)⟩
  counts := ⟨le_rfl, le_rfl, rfl⟩
  standing := ⟨fun wrong => absurd rfl wrong, (fun wrong => by cases wrong),
    (fun _ _ wrong => by cases wrong), (fun _ _ wrong => by cases wrong),
    (fun _ wrong => by cases wrong)⟩
  position := ⟨le_rfl, le_rfl, fun wrong => absurd wrong (lt_irrefl _), le_rfl⟩
  retiring := ⟨le_rfl, (fun wrong => by cases wrong), le_rfl,
    fun _ wrong => absurd wrong (lt_irrefl _), rfl⟩
  words := ⟨le_rfl, le_rfl, fun _ => le_rfl, fun _ => ⟨le_rfl, Nat.le_succ _⟩,
    fun _ _ => ⟨rfl, le_rfl⟩⟩
  window := ⟨Nat.zero_le _, fun _ _ _ wrong => absurd wrong (Nat.not_lt_zero _)⟩
  requests := rfl
  pending := by
    constructor
    · cases setup.stages <;> rfl
    · cases setup.stages <;> rfl
    · cases setup.stages <;> rfl
    · exact le_rfl
    · exact le_rfl
    · exact le_rfl
    · intro _ mem
      cases mem
    · exact List.Pairwise.nil

/-! ## The caller -/

section Caller

variable {setup : Setup} {lane after : Lane}

theorem opsOf_call (idle : lane.calling = []) (ops : List StreamOp) :
    opsOf { lane with calling := issue lane ops } = opsOf lane ++ ops := by
  unfold opsOf Lane.pending issue
  dsimp only
  rw [idle, List.append_nil, List.map_append, List.map_map]
  congr 1
  exact List.map_id ops

/-- A call that only waits or records. -/
theorem Inv.call (inv : Inv setup lane) {ops : List StreamOp}
    (passive : ∀ op ∈ ops, Passive op)
    (waits : ∀ reached, .waitValue reached ∈ ops → reached ≤ lane.chunksPlanned)
    (called : call lane ops = some after) : Inv setup after := by
  unfold RemoteLane.call at called
  split at called
  · rename_i idle
    cases called
    refine { inv with pending := ?_ }
    rw [opsOf_call idle]
    exact inv.pending.append passive waits
  · cases called

theorem joinOps_waits {reached : Nat} (mem : .waitValue reached ∈ joinOps lane) :
    reached ≤ lane.chunksPlanned := by
  unfold joinOps at mem
  split at mem
  · cases mem
  · cases List.mem_singleton.mp mem
    exact le_rfl

theorem joinOps_passive {op : StreamOp} (mem : op ∈ joinOps lane) : Passive op := by
  unfold joinOps at mem
  split at mem
  · cases mem
  · cases List.mem_singleton.mp mem
    exact ⟨rfl, rfl, rfl⟩

theorem signalOps_waits {reached event : Nat}
    (mem : .waitValue reached ∈ signalOps lane event) : reached ≤ lane.chunksPlanned := by
  rcases List.mem_append.mp mem with wait | record
  · exact joinOps_waits wait
  · cases List.mem_singleton.mp record

theorem signalOps_passive {op : StreamOp} {event : Nat} (mem : op ∈ signalOps lane event) :
    Passive op := by
  rcases List.mem_append.mp mem with wait | record
  · exact joinOps_passive wait
  · cases List.mem_singleton.mp record
    exact ⟨rfl, rfl, rfl⟩

theorem Inv.refuse (inv : Inv setup lane) (free : lane.accepted - lane.retired ≠ workSlots) :
    Inv setup (refuse lane) := by
  have room := inv.ring.room
  exact { inv with ring := inv.ring.write inv.history.length (by omega) }

theorem planned_of_counted {localAddress remoteAddress bytes first handle : Nat}
    (configured : Configured setup) (counted : Counted setup remoteAddress bytes)
    (inside : ¬setup.capacity < Library.Word64.wrap
      (remoteAddress - setup.reservation + bytes)) :
    Planned setup ⟨localAddress, remoteAddress - setup.reservation, bytes,
      chunkCount setup bytes, first, handle⟩ := by
  have count := chunkCount_eq configured.pieceBytes counted.rounding
  rw [Library.Word64.wrap_eq counted.end_] at inside
  refine ⟨counted.rounding, count, ?_, counted.end_, Nat.le_of_not_lt inside⟩
  dsimp only
  rw [count]
  split
  · decide
  · rename_i nonempty
    exact Nat.pos_of_ne_zero (counted.pieces nonempty)

section Accepting

variable {transfers : List Work} {work : Work} {thread : Thread} {phase : Phase}
variable {place accepted started retired posted planned chunkRetired nic : Nat}

theorem Standing.publish (standing : Standing thread accepted started planned)
    (calm : handling thread.phase = false) (more : Nat) :
    Standing thread (accepted + 1) started (planned + more) := by
  constructor
  · intro awake
    have taken := standing.taken awake
    exact ⟨taken.1, taken.2.1, taken.2.2.trans (Nat.le_succ _)⟩
  · intro wrong
    rw [wrong] at calm
    cases calm
  · intro first second wrong
    rw [wrong] at calm
    cases calm
  · intro first second wrong
    rw [wrong] at calm
    cases calm
  · intro second wrong
    rw [wrong] at calm
    cases calm

/-- A new transfer has its pieces after those that are posted. -/
theorem Position.publish (position : Position transfers place accepted posted planned)
    (history : History setup transfers accepted planned) (positive : 0 < work.chunks) :
    Position (transfers ++ [work]) place (accepted + 1) posted (planned + work.chunks) := by
  have length := history.length
  have total := history.total
  have known : ∀ count ≤ accepted,
      firstOf (transfers ++ [work]) count = firstOf transfers count :=
    fun _ bound => firstOf_append (length.symm ▸ bound)
  refine ⟨position.bound.trans (Nat.le_succ _), ?_, ?_,
    position.planned.trans (Nat.le_add_right _ _)⟩
  · rw [known place position.bound]
    exact position.lower
  · intro _
    rcases Nat.lt_or_ge place accepted with more | all
    · rw [known (place + 1) more]
      exact position.upper more
    · have level : place = accepted := Nat.le_antisymm position.bound all
      have bound := position.planned
      rw [level, ← length, firstOf_length_append, length, total]
      omega

theorem Retiring.publish
    (retiring : Retiring transfers phase retired started chunkRetired posted nic planned)
    (history : History setup transfers accepted planned)
    (quiet : reported phase = false)
    (retired_le : retired ≤ started) (started_le : started ≤ accepted) :
    Retiring (transfers ++ [work]) phase retired started chunkRetired posted nic
      (planned + work.chunks) := by
  have length := history.length
  have known : ∀ count ≤ accepted,
      firstOf (transfers ++ [work]) count = firstOf transfers count :=
    fun _ bound => firstOf_append (length.symm ▸ bound)
  refine ⟨retiring.ordered, retiring.collecting, ?_, ?_, ?_⟩
  · rw [known retired (retired_le.trans started_le)]
    exact retiring.done
  · intro idle less
    rw [known (retired + 1) (Nat.le_trans less started_le)]
    exact retiring.settled idle less
  · have same := retiring.nic
    rw [quiet] at same ⊢
    exact same

end Accepting

theorem quiet_of_calm {phase : Phase} (calm : handling phase = false) :
    reported phase = false := by
  cases phase <;> first | rfl | exact calm

theorem opsOf_publish (idle : lane.calling = []) (localAddress remoteAddress bytes : Nat) :
    opsOf (publish setup lane localAddress remoteAddress bytes) =
      opsOf lane ++ copyOps setup ⟨localAddress, remoteAddress - setup.reservation, bytes,
        chunkCount setup bytes, lane.chunksPlanned, lane.accepted + 1⟩ := by
  unfold opsOf Lane.pending publish
  dsimp only
  rw [idle, List.append_nil, List.map_append, List.map_map]
  congr 1
  exact List.map_id _

theorem Inv.publish (configured : Configured setup) (inv : Inv setup lane)
    {localAddress remoteAddress bytes : Nat}
    (counted : Counted setup remoteAddress bytes)
    (calm : handling lane.thread.phase = false)
    (idle : lane.calling = []) (free : lane.accepted - lane.retired ≠ workSlots)
    (inside : ¬setup.capacity < Library.Word64.wrap
      (remoteAddress - setup.reservation + bytes)) :
    Inv setup (publish setup lane localAddress remoteAddress bytes) := by
  have room := inv.ring.room
  have counts := inv.counts
  have length := inv.history.length
  have total : firstOf lane.transfers lane.transfers.length = lane.chunksPlanned := by
    rw [length]
    exact inv.history.total
  have planned := @planned_of_counted setup localAddress remoteAddress bytes
    lane.chunksPlanned (lane.accepted + 1) configured counted inside
  have positive := planned.some_
  refine
    { history := inv.history.publish planned rfl rfl
      ring := inv.ring.publish length (by omega)
      counts := ⟨counts.retired_le, counts.started_le.trans (Nat.le_succ _), ?_⟩
      standing := inv.standing.publish calm _
      position := inv.position.publish inv.history positive
      retiring := inv.retiring.publish inv.history (quiet_of_calm calm) counts.retired_le
        counts.started_le
      words := ⟨inv.words.gate_le.trans (Nat.le_succ _),
        inv.words.device_le.trans (Nat.le_add_right _ _), inv.words.opened,
        inv.words.stored, inv.words.filled⟩
      window := inv.window
      requests := ?_
      pending := ?_ }
  · have waiting := counts.waiting
    show lane.queued + 1 + lane.started = lane.accepted + 1
    omega
  · show lane.requests = ((plan setup (lane.transfers ++ [_])).take lane.chunkPosted).map cut
    rw [plan_append, List.take_append_of_le_length, inv.requests]
    rw [length_plan, total]
    exact inv.position.planned
  · rw [opsOf_publish idle]
    exact inv.pending.publish configured.pieceBytes configured.ringSlots total planned rfl
      (by rw [length])

theorem Inv.enqueue (inv : Inv setup lane) {taken : Bool}
    (dropped : taken = false → ∀ entry ∈ lane.calling, Passive entry.op)
    (called : enqueue lane taken = some after) : Inv setup after := by
  unfold RemoteLane.enqueue at called
  cases calling : lane.calling with
  | nil =>
      rw [calling] at called
      cases called
  | cons entry rest =>
      rw [calling] at called
      cases taken with
      | true =>
          cases called
          refine { inv with pending := ?_ }
          have kept := inv.pending
          unfold opsOf Lane.pending at kept ⊢
          rw [calling] at kept
          simpa using kept
      | false =>
          cases called
          refine { inv with pending := ?_ }
          have kept := inv.pending
          unfold opsOf Lane.pending at kept ⊢
          rw [List.map_append] at kept
          simp only [List.append_nil]
          apply kept.drop
          intro op mem
          rcases List.mem_map.mp mem with ⟨held, inside, same⟩
          rw [← same]
          exact dropped rfl held inside

end Caller

end ShadowSpill.Network.LaneInvariant
