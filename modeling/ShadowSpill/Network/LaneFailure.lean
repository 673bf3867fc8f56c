import ShadowSpill.Network.LaneProgress

/-!
# A failed lane releases everybody

In an orderly run the three words only rise, every request stays inside its transfer, the
count of queued transfers is that of the accepted and not started ones, and from every
state, a failure met or not, the lane drains.
-/

namespace ShadowSpill.Network.LaneFailure

open Library.Word64
open RemoteLane LanePlan LaneBooks LaneInvariant LaneSteps LaneProgress

variable {setup : Setup} {lane after : Lane}

/-! ## The words rise -/

/-- No word falls. -/
structure Rises (lane after : Lane) : Prop where
  nic : lane.nic ≤ after.nic
  device : lane.device ≤ after.device
  gate : lane.gate ≤ after.gate

theorem call_rises {ops : List StreamOp} (called : call lane ops = some after) :
    Rises lane after := by
  unfold call at called
  split at called
  · cases called
    exact ⟨le_rfl, le_rfl, le_rfl⟩
  · cases called

theorem copy_rises (localAddress remoteAddress bytes : Nat) :
    Rises lane (copy setup lane localAddress remoteAddress bytes) := by
  unfold copy
  split
  · exact ⟨le_rfl, le_rfl, le_rfl⟩
  · exact ⟨le_rfl, le_rfl, le_rfl⟩

theorem enqueue_rises {taken : Bool} (called : enqueue lane taken = some after) :
    Rises lane after := by
  unfold enqueue at called
  split at called
  · cases called
  · split at called <;> cases called <;> exact ⟨le_rfl, le_rfl, le_rfl⟩

theorem execute_rises (inv : Inv setup lane) (executed : execute lane = some after) :
    Rises lane after := by
  unfold execute at executed
  cases stream : lane.stream with
  | nil =>
      rw [stream] at executed
      cases executed
  | cons entry rest =>
      rw [stream] at executed
      dsimp only at executed
      split at executed
      · cases executed
        have pending := inv.pending
        rw [opsOf_cons stream] at pending
        cases op : entry.op with
        | writeDevice reached =>
            rw [op] at pending
            rcases pending.device_tail inv.history.copies_numbered with ⟨stages, same, _⟩
            have stored := (inv.words.stored stages).2
            refine ⟨le_rfl, ?_, le_rfl⟩
            show lane.device ≤ reached
            omega
        | writeGate handle =>
            rw [op] at pending
            rcases pending.gate_tail with ⟨_, same, _⟩
            refine ⟨le_rfl, le_rfl, ?_⟩
            show lane.gate ≤ handle
            omega
        | _ => exact ⟨le_rfl, le_rfl, le_rfl⟩
      · cases executed

theorem complete_rises {chunk : Nat} {success : Bool}
    (completed : complete lane chunk success = some after) : Rises lane after := by
  unfold complete at completed
  split at completed <;> cases completed
  exact ⟨le_rfl, le_rfl, le_rfl⟩

theorem endRound_words (lane : Lane) (retired : Bool) :
    (endRound lane retired).nic = lane.nic ∧ (endRound lane retired).device = lane.device ∧
      (endRound lane retired).gate = lane.gate := by
  unfold endRound
  split
  · exact ⟨rfl, rfl, rfl⟩
  · split <;> exact ⟨rfl, rfl, rfl⟩

theorem postTurn_rises (lane : Lane) (taken : Bool) :
    Rises lane (postTurn setup lane taken) := by
  unfold postTurn
  split
  · split <;> exact ⟨le_rfl, le_rfl, le_rfl⟩
  · split
    · exact ⟨le_rfl, le_rfl, le_rfl⟩
    · rcases endRound_words lane false with ⟨nic, device, gate⟩
      exact ⟨nic.ge, device.ge, gate.ge⟩

theorem collectTurn_rises (inv : Inv setup lane)
    (collecting : lane.thread.phase = .collecting) (taken : Bool) :
    Rises lane (collectTurn lane taken) := by
  unfold collectTurn
  split
  · split
    · rcases retireReady_spec inv collecting with ⟨count, landed, result, _⟩
      have nic := inv.retiring.nic
      rw [collecting] at nic
      have nic : lane.nic = lane.chunkRetired := nic
      rw [result]
      rcases endRound_words { lane with
        chunkLanded := landed
        chunkRetired := lane.chunkRetired + count
        nic := lane.chunkRetired + count } (decide (count ≠ 0)) with ⟨same, device, gate⟩
      refine ⟨?_, device.ge, gate.ge⟩
      rw [same, nic]
      exact Nat.le_add_right _ _
    · exact ⟨le_rfl, le_rfl, le_rfl⟩
    · exact ⟨le_rfl, le_rfl, le_rfl⟩
  · exact ⟨le_rfl, le_rfl, le_rfl⟩

theorem settle_rises (inv : Inv setup lane) {failed : Bool}
    (settling : lane.thread.phase = .settling failed) : Rises lane (settle lane failed) := by
  cases failed with
  | true =>
      rw [settle_true]
      exact ⟨le_rfl, le_rfl, le_rfl⟩
  | false =>
      have taken := inv.standing.taken (by rw [settling]; simp)
      have retired_le := inv.counts.retired_le
      rcases retireTransfers_spec (lane.thread.started - lane.retired)
        { lane with
          queued := lane.queued - (lane.thread.started - lane.started)
          started := lane.thread.started } inv.history inv.ring
        (by simp only; omega) inv.retiring.done with ⟨count, result, _⟩
      unfold settle
      dsimp only at result ⊢
      rw [result, if_neg Bool.false_ne_true]
      exact ⟨le_rfl, le_rfl, le_rfl⟩

theorem turn_rises (inv : Inv setup lane) {taken : Bool}
    (turned : turn setup lane taken = some after) : Rises lane after := by
  have posted := inv.position.planned
  have ordered := inv.retiring.ordered
  have nic := inv.retiring.nic
  unfold turn at turned
  cases phase : lane.thread.phase with
  | idle =>
      rw [phase] at turned
      dsimp only at turned
      split at turned
      · cases turned
      · cases turned
        exact ⟨le_rfl, le_rfl, le_rfl⟩
  | posting =>
      rw [phase] at turned
      cases turned
      exact postTurn_rises lane taken
  | collecting =>
      rw [phase] at turned
      cases turned
      exact collectTurn_rises inv phase taken
  | storingNic planned accepted =>
      rw [phase] at turned nic
      cases turned
      have same := (inv.standing.sampledNic planned accepted phase).1
      have nic : lane.nic = lane.chunkRetired := nic
      refine ⟨?_, le_rfl, le_rfl⟩
      show lane.nic ≤ planned
      omega
  | storingDevice planned accepted =>
      rw [phase] at turned
      cases turned
      have same := (inv.standing.sampledDevice planned accepted phase).1
      exact ⟨le_rfl, same ▸ inv.words.device_le, le_rfl⟩
  | storingGate accepted =>
      rw [phase] at turned
      cases turned
      have same := inv.standing.sampledGate accepted phase
      exact ⟨le_rfl, le_rfl, same ▸ inv.words.gate_le⟩
  | settling failed =>
      rw [phase] at turned
      cases turned
      exact settle_rises inv phase
  | failing =>
      rw [phase] at turned
      cases turned
      exact ⟨le_rfl, le_rfl, le_rfl⟩
  | latching =>
      rw [phase] at turned
      cases turned
      exact ⟨le_rfl, le_rfl, le_rfl⟩

theorem step_rises (inv : Inv setup lane) (step : Step setup lane after) :
    Rises lane after := by
  rcases step with ⟨action, _, stepped⟩
  cases action with
  | wait event => exact call_rises stepped
  | copy localAddress remoteAddress bytes =>
      unfold next at stepped
      dsimp only at stepped
      split at stepped
      · cases stepped
        exact copy_rises localAddress remoteAddress bytes
      · cases stepped
  | join => exact call_rises stepped
  | signal event => exact call_rises stepped
  | enqueue taken => exact enqueue_rises stepped
  | execute => exact execute_rises inv stepped
  | complete chunk success => exact complete_rises stepped
  | turn taken => exact turn_rises inv stepped

/-! ## Requests stay inside their transfers -/

/-- A request for bytes of a transfer, from the pool or from a slot of the ring. -/
structure Inside (setup : Setup) (work : Work) (request : Request) : Prop where
  numbered : work.firstChunk ≤ request.chunk ∧
    request.chunk < work.firstChunk + work.chunks
  remote : work.remoteOffset ≤ request.remoteOffset ∧
    request.remoteOffset + request.length ≤ work.remoteOffset + work.bytes
  place : match request.place with
    | .pool address => ∃ offset, address = wrap (work.localAddress + offset) ∧
        offset + request.length ≤ work.bytes
    | .ring slot => slot < setup.ringSlots ∧ request.length ≤ setup.pieceBytes

theorem requestOf_inside (configured : Configured setup) {work : Work}
    (planned : Planned setup work) {index : Nat} (bound : index < work.chunks) :
    Inside setup work (cut (requestOf setup work index)) := by
  have within := planned.within configured.pieceBytes bound
  have size := pieceSize_le setup work index
  have shorter : pieceSize setup work index % 2 ^ 32 ≤ pieceSize setup work index :=
    Nat.mod_le _ _
  refine ⟨?_, ?_, ?_⟩
  · show work.firstChunk ≤ work.firstChunk + index ∧
      work.firstChunk + index < work.firstChunk + work.chunks
    omega
  · show work.remoteOffset ≤ work.remoteOffset + index * setup.pieceBytes ∧
      work.remoteOffset + index * setup.pieceBytes + pieceSize setup work index % 2 ^ 32 ≤
        work.remoteOffset + work.bytes
    omega
  · unfold cut requestOf
    dsimp only
    cases setup.stages with
    | true =>
        exact ⟨Nat.mod_lt _ configured.ringSlots,
          shorter.trans (size.trans (Nat.min_le_left _ _))⟩
    | false =>
        refine ⟨index * setup.pieceBytes, rfl, ?_⟩
        show index * setup.pieceBytes + pieceSize setup work index % 2 ^ 32 ≤ work.bytes
        omega

theorem requests_inside (configured : Configured setup) (inv : Inv setup lane)
    {request : Request} (mem : request ∈ lane.requests) :
    ∃ work ∈ lane.transfers, Inside setup work request := by
  rw [inv.requests] at mem
  rcases List.mem_map.mp mem with ⟨whole, taken, rfl⟩
  rcases List.mem_flatMap.mp (List.mem_of_mem_take taken) with ⟨work, accepted, piece⟩
  rcases List.mem_map.mp piece with ⟨index, inside, same⟩
  refine ⟨work, accepted, ?_⟩
  rw [← same]
  exact requestOf_inside configured (inv.history.sized work accepted)
    (List.mem_range.mp inside)

/-! ## What a lane keeps -/

/-- A drained lane's `synchronize` returns, with an error after a failure. -/
theorem synchronize_drained (drained : Drained lane) :
    synchronize lane = some (if lane.failed then -1 else 0) := by
  unfold synchronize
  rw [if_neg (not_not.mpr drained.retired), drained.stream]
  split <;> rfl

/-- Everybody is released and nothing is corrupted. -/
structure Released (setup : Setup) (lane : Lane) : Prop where
  /-- Without a further call and without a completion of an abandoned piece, every wait on
  the route stream passes, every transfer accepted is retired and `synchronize` returns. -/
  drains : ∃ after, Relation.ReflTransGen (Advance setup) lane after ∧ Drained after ∧
    after.transfers = lane.transfers ∧ (lane.failed = true → after.failed = true) ∧
    synchronize after = some (if after.failed then -1 else 0)
  rises : ∀ after, Step setup lane after → Rises lane after
  queued : lane.queued = lane.accepted - lane.started
  inside : ∀ request ∈ lane.requests, ∃ work ∈ lane.transfers, Inside setup work request

theorem released_of_inv (configured : Configured setup) (inv : Inv setup lane) :
    Released setup lane := by
  rcases drains configured inv with ⟨after, run, drained, transfers, failed⟩
  have waiting := inv.counts.waiting
  exact {
    drains := ⟨after, run, drained, transfers, failed, synchronize_drained drained⟩
    rises := fun _ step => step_rises inv step
    queued := by omega
    inside := fun _ mem => requests_inside configured inv mem }

/-- In every run whose steps are orderly, a failure releases everybody. -/
theorem released_of_run (configured : Configured setup)
    (run : Relation.ReflTransGen (Step setup) .new lane) : Released setup lane :=
  released_of_inv configured (run_inv configured (inv_new setup) run)

/-- A lane that posts from the pool, four bytes at a time. -/
def directLane : Setup where
  stages := false
  toRemote := false
  pieceBytes := 4
  ringSlots := 2
  sendDepth := 16
  reservation := 0
  capacity := 100

theorem directLane_configured : Configured directLane := by
  constructor <;> decide

/-- The only piece of a copy fails, is reported and is given up; another copy follows. -/
def lastPieceFails : List Action :=
  [.copy 1000 8 3, .enqueue true, .execute, .turn true, .turn true, .turn true,
    .complete 0 false, .turn true, .turn true, .turn true, .turn true, .turn true,
    .turn true, .turn true, .copy 2000 20 4, .enqueue true]

theorem released_last_piece :
    ∃ lane, run directLane .new lastPieceFails = some lane ∧ lane.failed = true ∧
      Released directLane lane := by
  refine ⟨(run directLane .new lastPieceFails).getD .new, ?_, ?_, ?_⟩
  · rfl
  · decide
  · exact released_of_run directLane_configured
      (reached_of_run lastPieceFails (by decide) rfl)

/-- The first of three pieces is refused; another copy follows, and the NIC takes and
completes the piece that is posted for it. -/
def firstPieceRefused : List Action :=
  [.copy 1000 8 10, .enqueue true, .execute, .turn true, .turn false, .turn true,
    .turn true, .turn true, .turn true, .turn true, .turn true, .copy 2000 20 4,
    .enqueue true, .execute, .turn true, .turn true]

/-- The first transfer is still counted as queued, and the second's post, of the remote
bytes from 20 to 24 at the local address 2000, goes out at 8 from 1988.  Once the posted
pieces are retired the NIC's word has fallen from three to one, and a transfer is counted as
queued with none to start. -/
theorem refused_piece_corrupts :
    (run directLane .new firstPieceRefused).map (fun lane =>
        (lane.queued, lane.accepted - lane.started, lane.nic)) = some (2, 1, 3) ∧
      (run directLane .new firstPieceRefused).map (fun lane =>
        (lane.transfers.map fun work => (work.firstChunk, work.remoteOffset, work.bytes),
          lane.requests)) =
          some ([(0, 8, 10), (3, 20, 4)], [⟨0, .pool 1988, 4, 8⟩]) ∧
      (run directLane .new (firstPieceRefused ++
        .complete 0 true :: List.replicate 9 (.turn true))).map (fun lane =>
          (lane.queued, lane.accepted - lane.started, lane.nic)) = some (1, 0, 1) := by
  decide

end ShadowSpill.Network.LaneFailure
