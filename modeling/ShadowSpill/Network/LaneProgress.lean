import ShadowSpill.Network.LaneSteps

/-!
# A lane drains

From every state of an orderly run the lane drains without a further call: the caller
finishes its operation, the route stream runs, pieces that are not abandoned complete, and
the thread takes its turns.  A measure counts what is left; where the other parties are
stuck, the thread lowers it, meets a failure and releases everybody, or is done.
-/

namespace ShadowSpill.Network.LaneProgress

open RemoteLane LanePlan LaneStream LaneBooks LaneInvariant LaneSteps

/-- A step that needs no further call, and no completion of a piece that was given up. -/
inductive Own (lane : Lane) : Action → Prop
  | enqueue : Own lane (.enqueue true)
  | execute : Own lane .execute
  | complete {chunk : Nat} (calm : handling lane.thread.phase = false)
      (unretired : lane.chunkRetired ≤ chunk) : Own lane (.complete chunk true)
  | turn : Own lane (.turn true)

def Advance (setup : Setup) (lane after : Lane) : Prop :=
  ∃ action, Own lane action ∧ next setup lane action = some after

/-- Everything accepted is retired, and nothing waits. -/
structure Drained (lane : Lane) : Prop where
  retired : lane.retired = lane.accepted
  calling : lane.calling = []
  stream : lane.stream = []
  nic : lane.nic = lane.chunksPlanned

/-- The lane can drain, and what it has accepted and latched stays. -/
def Drains (setup : Setup) (lane : Lane) : Prop :=
  ∃ after, Relation.ReflTransGen (Advance setup) lane after ∧ Drained after ∧
    after.transfers = lane.transfers ∧ (lane.failed = true → after.failed = true)

variable {setup : Setup} {lane after : Lane}

theorem Drains.step (advance : Advance setup lane after)
    (transfers : after.transfers = lane.transfers)
    (failed : lane.failed = true → after.failed = true)
    (drains : Drains setup after) : Drains setup lane := by
  rcases drains with ⟨final, run, drained, sameTransfers, stillFailed⟩
  exact ⟨final, Relation.ReflTransGen.head advance run, drained,
    sameTransfers.trans transfers, fun latched => stillFailed (failed latched)⟩

/-! ## Flushing the stream -/

/-- Once the NIC's word is as high as every wait asks for, the stream empties. -/
theorem flush (size : Nat) (lane : Lane)
    (sized : 2 * lane.calling.length + lane.stream.length = size)
    (waits : ∀ reached, .waitValue reached ∈ opsOf lane → reached ≤ lane.nic)
    (retired : lane.retired = lane.accepted) (nic : lane.nic = lane.chunksPlanned) :
    Drains setup lane := by
  induction size using Nat.strong_induction_on generalizing lane with
  | _ size ih =>
      cases stream : lane.stream with
      | nil =>
          cases calling : lane.calling with
          | nil =>
              exact ⟨lane, .refl, ⟨retired, calling, stream, nic⟩, rfl, fun same => same⟩
          | cons entry rest =>
              have stepped : next setup lane (.enqueue true) = some { lane with
                  calling := rest, stream := lane.stream ++ [entry] } := by
                show RemoteLane.enqueue lane true = _
                unfold RemoteLane.enqueue
                rw [calling]
                rfl
              refine Drains.step ⟨_, .enqueue, stepped⟩ rfl (fun same => same)
                (ih _ ?_ _ rfl ?_ retired nic)
              · rw [← sized, calling, List.length_append]
                simp only [List.length_cons, List.length_nil]
                omega
              · intro reached mem
                apply waits
                unfold opsOf Lane.pending at mem ⊢
                rw [calling]
                simpa using mem
      | cons entry rest =>
          have passing : passes lane entry.op = true := by
            unfold passes
            cases op : entry.op with
            | waitValue reached =>
                apply decide_eq_true
                apply waits
                rw [opsOf_cons stream, op]
                exact List.mem_cons_self
            | _ => rfl
          have stepped : next setup lane .execute =
              some (perform { lane with stream := rest } entry.op) := by
            show RemoteLane.execute lane = _
            unfold RemoteLane.execute
            rw [stream]
            dsimp only
            rw [if_pos passing]
          have fewer : ∀ reached, .waitValue reached ∈ opsOf { lane with stream := rest } →
              reached ≤ lane.nic := by
            intro reached mem
            apply waits
            rw [opsOf_cons stream]
            exact List.mem_cons_of_mem _ mem
          have shorter : 2 * lane.calling.length + rest.length < size := by
            rw [← sized, stream, List.length_cons]
            omega
          refine Drains.step ⟨_, .execute, stepped⟩ ?_ ?_ (ih _ ?_ _ rfl ?_ ?_ ?_)
          · cases entry.op <;> rfl
          · intro latched
            cases entry.op <;> exact latched
          · cases entry.op <;> exact shorter
          · cases entry.op <;> exact fewer
          · cases entry.op <;> exact retired
          · cases entry.op <;> exact nic

/-! ## Releasing everybody -/

/-- The thread handles a failure, and what it has sampled still holds. -/
structure Releasing (lane : Lane) : Prop where
  failed : handling lane.thread.phase = true
  waits : ∀ reached, .waitValue reached ∈ opsOf lane → reached ≤ lane.chunksPlanned
  sampled : ∀ planned accepted, lane.thread.phase = .storingNic planned accepted →
    planned = lane.chunksPlanned
  nic : reported lane.thread.phase = true → lane.nic = lane.chunksPlanned

theorem settle_true (lane : Lane) : settle lane true = { lane with
    queued := lane.queued - (lane.thread.started - lane.started)
    started := lane.accepted
    retired := lane.accepted
    chunkRetired := lane.chunkPosted
    thread := { lane.thread with phase := .idle } } := by
  unfold settle
  dsimp only
  rw [retireTransfers_failed, if_pos rfl]
  rfl

theorem turn_advance (turned : turn setup lane true = some after) :
    Advance setup lane after :=
  ⟨_, .turn, turned⟩

theorem releases_settling (waits : ∀ reached, .waitValue reached ∈ opsOf lane →
      reached ≤ lane.chunksPlanned) (nic : lane.nic = lane.chunksPlanned)
    (phase : lane.thread.phase = .settling true) : Drains setup lane := by
  have turned : turn setup lane true = some (settle lane true) := by
    unfold turn
    rw [phase]
  rw [settle_true] at turned
  apply Drains.step (turn_advance turned) rfl (fun same => same)
  apply flush _ _ rfl
  · intro reached mem
    show reached ≤ lane.nic
    rw [nic]
    exact waits reached mem
  · rfl
  · exact nic

/-- A failure that is handled releases every waiter. -/
theorem Releasing.drains (releasing : Releasing lane) : Drains setup lane := by
  have waits := releasing.waits
  have latched : ∀ lane : Lane, (∀ reached, .waitValue reached ∈ opsOf lane →
      reached ≤ lane.chunksPlanned) → lane.nic = lane.chunksPlanned →
      lane.thread.phase = .latching → Drains setup lane := by
    intro lane waits nic phase
    have turned : turn setup lane true =
        some ({ lane with failed := true }.enter (.settling true)) := by
      unfold turn
      rw [phase]
    exact Drains.step (turn_advance turned) rfl (fun _ => rfl)
      (releases_settling waits nic rfl)
  have gated : ∀ (lane : Lane) (accepted : Nat), (∀ reached, .waitValue reached ∈ opsOf lane →
      reached ≤ lane.chunksPlanned) → lane.nic = lane.chunksPlanned →
      lane.thread.phase = .storingGate accepted → Drains setup lane := by
    intro lane accepted waits nic phase
    have turned : turn setup lane true =
        some ({ lane with gate := accepted }.enter .latching) := by
      unfold turn
      rw [phase]
    exact Drains.step (turn_advance turned) rfl (fun same => same) (latched _ waits nic rfl)
  have stored : ∀ (lane : Lane) (planned accepted : Nat),
      (∀ reached, .waitValue reached ∈ opsOf lane → reached ≤ lane.chunksPlanned) →
      lane.nic = lane.chunksPlanned →
      lane.thread.phase = .storingDevice planned accepted → Drains setup lane := by
    intro lane planned accepted waits nic phase
    have turned : turn setup lane true =
        some ({ lane with device := planned }.enter (.storingGate accepted)) := by
      unfold turn
      rw [phase]
    exact Drains.step (turn_advance turned) rfl (fun same => same)
      (gated _ accepted waits nic rfl)
  have told : ∀ (lane : Lane) (accepted : Nat),
      (∀ reached, .waitValue reached ∈ opsOf lane → reached ≤ lane.chunksPlanned) →
      lane.thread.phase = .storingNic lane.chunksPlanned accepted → Drains setup lane := by
    intro lane accepted waits phase
    have turned : turn setup lane true = some
        ({ lane with nic := lane.chunksPlanned }.enter
          (.storingDevice lane.chunksPlanned accepted)) := by
      unfold turn
      rw [phase]
    exact Drains.step (turn_advance turned) rfl (fun same => same)
      (stored _ _ accepted waits rfl rfl)
  cases phase : lane.thread.phase with
  | failing =>
      have turned : turn setup lane true =
          some (lane.enter (.storingNic lane.chunksPlanned lane.accepted)) := by
        unfold turn
        rw [phase]
      exact Drains.step (turn_advance turned) rfl (fun same => same)
        (told _ _ waits rfl)
  | storingNic planned accepted =>
      have same := releasing.sampled planned accepted phase
      rw [same] at phase
      exact told lane accepted waits phase
  | storingDevice planned accepted =>
      exact stored lane planned accepted waits (releasing.nic (by rw [phase]; rfl)) phase
  | storingGate accepted =>
      exact gated lane accepted waits (releasing.nic (by rw [phase]; rfl)) phase
  | latching => exact latched lane waits (releasing.nic (by rw [phase]; rfl)) phase
  | settling failed =>
      have failing := releasing.failed
      rw [phase] at failing
      have same : failed = true := failing
      rw [same] at phase
      exact releases_settling waits (releasing.nic (by rw [phase]; rfl)) phase
  | idle =>
      have failing := releasing.failed
      rw [phase] at failing
      cases failing
  | posting =>
      have failing := releasing.failed
      rw [phase] at failing
      cases failing
  | collecting =>
      have failing := releasing.failed
      rw [phase] at failing
      cases failing

/-- A failure in an orderly run. -/
theorem releasing_of_inv (inv : Inv setup lane)
    (failed : handling lane.thread.phase = true) : Releasing lane where
  failed := failed
  waits := inv.pending.waits
  sampled := fun planned accepted phase =>
    (inv.standing.sampledNic planned accepted phase).1
  nic := fun told => by
    have nic := inv.retiring.nic
    rwa [told, if_pos rfl] at nic

/-! ## What is left -/

/-- Everything that the parties have left to do. -/
def left (lane : Lane) : Nat :=
  2 * lane.calling.length + lane.stream.length +
    5 * (lane.chunksPlanned - lane.chunkPosted) + 3 * lane.inFlight.length +
    2 * lane.completions.length + (lane.chunkPosted - lane.chunkRetired) +
    (lane.accepted - lane.retired)

/-- Every smaller lane drains. -/
def Smaller (setup : Setup) (bound : Nat) : Prop :=
  ∀ lane, Inv setup lane → left lane < bound → Drains setup lane

/-- The caller has nothing to enqueue, the stream's oldest operation does not pass, and
only pieces that were given up are with the NIC. -/
structure Blocked (lane : Lane) : Prop where
  calling : lane.calling = []
  stream : ∀ entry rest, lane.stream = entry :: rest → passes lane entry.op = false
  landed : ∀ chunk ∈ lane.inFlight, chunk < lane.chunkRetired

section Stuck

variable {bound : Nat}

/-- A stream that is stuck waits for more than the NIC's word. -/
theorem Blocked.waits (blocked : Blocked lane) : opsOf lane = [] ∨
    ∃ reached rest, opsOf lane = .waitValue reached :: rest ∧ lane.nic < reached := by
  unfold opsOf Lane.pending
  rw [blocked.calling, List.append_nil]
  cases stream : lane.stream with
  | nil => exact Or.inl rfl
  | cons entry rest =>
      have stuck := blocked.stream entry rest stream
      refine Or.inr ?_
      rcases entry with ⟨issued, op⟩
      cases op with
      | waitValue reached =>
          unfold passes at stuck
          dsimp only at stuck
          exact ⟨reached, rest.map Entry.op, rfl, by simpa using stuck⟩
      | _ => cases stuck

/-- While the stream is stuck behind pieces that are not posted, the next piece may be
posted. -/
theorem ready_of_blocked (configured : Configured setup) (inv : Inv setup lane)
    (blocked : Blocked lane) (posting : lane.thread.phase = .posting)
    (level : lane.chunkPosted = lane.chunkRetired)
    (more : lane.thread.started < lane.thread.accepted) : canPost setup lane = true := by
  have awake : lane.thread.phase ≠ .idle := by
    rw [posting]
    simp
  have known := currentWork_known inv awake more
  have taken := inv.standing.taken awake
  have position := inv.position
  have words := inv.words
  have pending := inv.pending
  have nic := inv.retiring.nic
  rw [current_awake awake] at position words
  rw [posting] at nic
  have nic : lane.nic = lane.chunkRetired := nic
  have lower := position.lower
  have upper := position.upper (by omega)
  have total : firstOf lane.transfers (lane.thread.started + 1) ≤ lane.chunksPlanned := by
    rw [← inv.history.total]
    exact firstOf_mono (by omega)
  have room := (outstandingLimit_bounds configured).1
  have ready : mayPost setup lane (currentWork lane) lane.chunkPosted = true := by
    unfold mayPost
    cases stages : setup.stages with
    | false =>
        rw [if_neg Bool.false_ne_true, decide_eq_true_eq,
          (inv.history.numbered _ _ known).1]
        by_contra closed
        -- The next gate is still queued, behind a wait that the posted pieces meet.
        have gates := pending.gates
        rw [stages, if_neg Bool.false_ne_true, inv.history.length] at gates
        have queued : lane.gate + 1 ∈ (opsOf lane).filterMap gateOf := by
          rw [gates]
          exact List.Ico.mem.mpr ⟨le_rfl, by omega⟩
        obtain ⟨op, mem, gate⟩ := List.mem_filterMap.mp queued
        have isGate : op = .writeGate (lane.gate + 1) := by
          cases op with
          | writeGate handle =>
              cases gate
              rfl
          | _ => cases gate
        rcases blocked.waits with empty | ⟨reached, rest, split, beyond⟩
        · rw [empty] at mem
          cases mem
        · have ordered := pending.ordered
          rw [split] at mem ordered
          rw [isGate] at mem
          rcases List.mem_cons.mp mem with wrong | later
          · cases wrong
          · have before : reached ≤ firstOf lane.transfers (lane.gate + 1 - 1) :=
              (List.pairwise_cons.mp ordered).1 _ later
            have mono := @firstOf_mono lane.transfers (lane.gate + 1 - 1) lane.thread.started
              (by omega)
            omega
    | true =>
        rw [if_pos rfl]
        have devices := pending.devices
        rw [stages, if_pos rfl] at devices
        have stored := words.stored stages
        -- A piece that the device has not stored is stored behind a wait that the
        -- posted pieces meet.
        have behind : ∀ chunk, lane.drained ≤ chunk → chunk < lane.chunksPlanned →
            (if setup.toRemote then chunk ≤ lane.chunkPosted
              else chunk < lane.chunkPosted) → False := by
          intro chunk low high near
          have queued : lane.drained + 1 ∈ (opsOf lane).filterMap deviceOf := by
            rw [devices]
            exact List.Ico.mem.mpr ⟨le_rfl, by omega⟩
          obtain ⟨op, mem, device⟩ := List.mem_filterMap.mp queued
          have isStore : op = .writeDevice (lane.drained + 1) := by
            cases op with
            | writeDevice reached =>
                cases device
                rfl
            | _ => cases device
          rcases blocked.waits with empty | ⟨reached, rest, split, beyond⟩
          · rw [empty] at mem
            cases mem
          · have ordered := pending.ordered
            rw [split] at mem ordered
            rw [isStore] at mem
            rcases List.mem_cons.mp mem with wrong | later
            · cases wrong
            · have before : if setup.toRemote then reached < lane.drained + 1
                  else reached ≤ lane.drained + 1 :=
                (List.pairwise_cons.mp ordered).1 _ later
              split at before
              · rename_i remote
                rw [if_pos remote] at near
                omega
              · rename_i fetch
                rw [if_neg fetch] at near
                omega
        unfold stageReady
        cases remote : setup.toRemote with
        | true =>
            rw [if_pos rfl, decide_eq_true_eq]
            by_contra unfilled
            apply behind lane.chunkPosted (by omega) (by omega)
            rw [if_pos remote]
        | false =>
            rw [if_neg Bool.false_ne_true, Bool.or_eq_true, decide_eq_true_eq,
              decide_eq_true_eq]
            by_contra undrained
            have slots := configured.ringSlots
            apply behind (lane.chunkPosted - setup.ringSlots) (by omega) (by omega)
            rw [remote, if_neg Bool.false_ne_true]
            omega
  unfold canPost
  rw [ready, Bool.and_true, Bool.and_eq_true, decide_eq_true_eq, decide_eq_true_eq]
  exact ⟨more, by omega⟩

theorem drains_of_post (configured : Configured setup) (inv : Inv setup lane)
    (smaller : Smaller setup (left lane)) (posting : lane.thread.phase = .posting)
    (may : canPost setup lane = true) : Drains setup lane := by
  have turned : turn setup lane true = some (post setup lane) := by
    unfold turn
    rw [posting]
    unfold postTurn
    rw [if_pos may]
    rfl
  have after := post_inv configured inv posting may
  refine Drains.step (turn_advance turned) rfl (fun same => same) (smaller _ after ?_)
  have posted := after.position.planned
  have posted : lane.chunkPosted + 1 ≤ lane.chunksPlanned := posted
  have ordered := inv.retiring.ordered
  show 2 * lane.calling.length + lane.stream.length +
    5 * (lane.chunksPlanned - (lane.chunkPosted + 1)) +
    3 * (lane.inFlight ++ [lane.chunkPosted]).length + 2 * lane.completions.length +
    (lane.chunkPosted + 1 - lane.chunkRetired) + (lane.accepted - lane.retired) < left lane
  rw [List.length_append, List.length_singleton]
  unfold left
  omega

/-- With pieces posted and none with the NIC, the collecting thread polls, retires or meets
a failure. -/
theorem drains_of_collecting (inv : Inv setup lane) (blocked : Blocked lane)
    (smaller : Smaller setup (left lane)) (collecting : lane.thread.phase = .collecting) :
    Drains setup lane := by
  have turned : turn setup lane true = some (collectTurn lane true) := by
    unfold turn
    rw [collecting]
  unfold collectTurn at turned
  rw [if_pos rfl] at turned
  cases completions : lane.completions with
  | nil =>
      rw [completions] at turned
      have after := retireReady_inv inv collecting
      rcases retireReady_spec inv collecting with
        ⟨count, landed, result, most, _, _, _, stopped⟩
      have unretired := inv.retiring.collecting collecting
      have some_ : count ≠ 0 := by
        intro none
        rw [none, Nat.add_zero] at stopped
        rcases inv.window.known (by rw [collecting]; rfl) lane.chunkRetired le_rfl unretired
          with flying | polled | flagged
        · exact lt_irrefl _ (blocked.landed _ flying)
        · rw [completions] at polled
          cases polled
        · rw [stopped unretired] at flagged
          cases flagged
      rw [result, decide_eq_true some_] at turned after
      unfold endRound at turned after
      rw [Bool.or_true, if_pos rfl] at turned after
      refine Drains.step (turn_advance turned) rfl (fun same => same) (smaller _ after ?_)
      show 2 * lane.calling.length + lane.stream.length +
        5 * (lane.chunksPlanned - lane.chunkPosted) + 3 * lane.inFlight.length +
        2 * lane.completions.length + (lane.chunkPosted - (lane.chunkRetired + count)) +
        (lane.accepted - lane.retired) < left lane
      unfold left
      omega
  | cons head rest =>
      rw [completions] at turned
      rcases head with ⟨chunk, success⟩
      cases success with
      | true =>
          refine Drains.step (turn_advance turned) rfl (fun same => same)
            (smaller _ (poll_inv inv completions) ?_)
          show 2 * lane.calling.length + lane.stream.length +
            5 * (lane.chunksPlanned - lane.chunkPosted) + 3 * lane.inFlight.length +
            2 * rest.length + (lane.chunkPosted - lane.chunkRetired) +
            (lane.accepted - lane.retired) < left lane
          unfold left
          rw [completions, List.length_cons]
          omega
      | false =>
          refine Drains.step (turn_advance turned) rfl (fun same => same)
            (Releasing.drains ⟨rfl, inv.pending.waits, ?_, ?_⟩)
          · intro _ _ wrong
            cases wrong
          · intro wrong
            cases wrong

theorem drains_of_unretired (configured : Configured setup) (inv : Inv setup lane)
    (blocked : Blocked lane) (smaller : Smaller setup (left lane))
    (posting : lane.thread.phase = .posting)
    (unretired : lane.chunkPosted ≠ lane.chunkRetired) : Drains setup lane := by
  cases may : canPost setup lane with
  | true => exact drains_of_post configured inv smaller posting may
  | false =>
      have turned : turn setup lane true = some (lane.enter .collecting) := by
        unfold turn
        rw [posting]
        unfold postTurn
        rw [may, if_neg Bool.false_ne_true, if_pos unretired]
      have ordered := inv.retiring.ordered
      have after : Inv setup (lane.enter .collecting) := by
        apply phase_inv inv
        · rw [posting]
          simp
        · rw [posting]
          rfl
        · exact Or.inr (Or.inl rfl)
        · exact fun _ => by omega
      exact Drains.step (turn_advance turned) rfl (fun same => same)
        (drains_of_collecting after ⟨blocked.calling, blocked.stream, blocked.landed⟩
          smaller rfl)

/-- An idle thread with nothing to take is done. -/
theorem drained_of_idle (inv : Inv setup lane) (blocked : Blocked lane)
    (idle : lane.thread.phase = .idle) (taken : lane.started = lane.accepted)
    (level : lane.chunkPosted = lane.chunkRetired) : Drained lane := by
  have place : current lane.thread lane.started = lane.started := by
    unfold current
    rw [idle]
  have position := inv.position
  rw [place, taken] at position
  have lower := position.lower
  have planned := position.planned
  have total := inv.history.total
  have counts := inv.counts
  have retired_le := counts.retired_le
  have nic := inv.retiring.nic
  rw [idle] at nic
  have nic : lane.nic = lane.chunkRetired := nic
  have all : lane.nic = lane.chunksPlanned := by omega
  refine ⟨?_, blocked.calling, ?_, all⟩
  · by_contra behind
    have less : lane.retired < lane.started := by omega
    have settled := inv.retiring.settled idle less
    have mono := @firstOf_mono lane.transfers (lane.retired + 1) lane.accepted (by omega)
    omega
  · rcases blocked.waits with empty | ⟨reached, rest, split, beyond⟩
    · unfold opsOf Lane.pending at empty
      rw [blocked.calling, List.append_nil] at empty
      exact List.map_eq_nil_iff.mp empty
    · have bound := inv.pending.waits reached (by rw [split]; exact List.mem_cons_self)
      omega

theorem drains_of_idle (configured : Configured setup) (inv : Inv setup lane)
    (blocked : Blocked lane) (smaller : Smaller setup (left lane))
    (idle : lane.thread.phase = .idle) : Drains setup lane := by
  by_cases done : lane.started = lane.accepted ∧ lane.chunkPosted = lane.chunkRetired
  · exact ⟨lane, .refl, drained_of_idle inv blocked idle done.1 done.2, rfl,
      fun same => same⟩
  · have turned : turn setup lane true = some (wake lane) := by
      unfold turn
      rw [idle]
      dsimp only
      rw [if_neg done]
    have after := wake_inv inv idle
    have still : Blocked (wake lane) := ⟨blocked.calling, blocked.stream, blocked.landed⟩
    refine Drains.step (turn_advance turned) rfl (fun same => same) ?_
    by_cases level : lane.chunkPosted = lane.chunkRetired
    · have started_le := inv.counts.started_le
      have more : lane.started < lane.accepted := by
        by_contra all
        exact done ⟨by omega, level⟩
      exact drains_of_post configured after smaller rfl
        (ready_of_blocked configured after still rfl level more)
    · exact drains_of_unretired configured after still smaller rfl level

theorem drains_of_settling (configured : Configured setup) (inv : Inv setup lane)
    (blocked : Blocked lane) (smaller : Smaller setup (left lane))
    (settling : lane.thread.phase = .settling false) : Drains setup lane := by
  have turned : turn setup lane true = some (settle lane false) := by
    unfold turn
    rw [settling]
  have after := settle_false_inv inv settling
  have awake : lane.thread.phase ≠ .idle := by
    rw [settling]
    simp
  have taken := inv.standing.taken awake
  have retired_le := inv.counts.retired_le
  rcases retireTransfers_spec (lane.thread.started - lane.retired)
    { lane with
      queued := lane.queued - (lane.thread.started - lane.started)
      started := lane.thread.started } inv.history inv.ring
    (by simp only; omega) inv.retiring.done with ⟨count, result, most, _, _⟩
  have same : settle lane false = { lane with
      queued := lane.queued - (lane.thread.started - lane.started)
      started := lane.thread.started
      retired := lane.retired + count
      thread := { lane.thread with phase := .idle } } := by
    unfold settle
    dsimp only at result ⊢
    rw [result, if_neg Bool.false_ne_true]
    rfl
  rw [same] at turned after
  refine Drains.step (turn_advance turned) rfl (fun same => same)
    (drains_of_idle configured after ⟨blocked.calling, blocked.stream, blocked.landed⟩
      ?_ rfl)
  intro other inv less
  apply smaller other inv
  apply Nat.lt_of_lt_of_le less
  show 2 * lane.calling.length + lane.stream.length +
    5 * (lane.chunksPlanned - lane.chunkPosted) + 3 * lane.inFlight.length +
    2 * lane.completions.length + (lane.chunkPosted - lane.chunkRetired) +
    (lane.accepted - (lane.retired + count)) ≤ left lane
  unfold left
  omega

/-- A round in which nothing was posted goes on to the lock. -/
theorem drains_of_round (configured : Configured setup) (inv : Inv setup lane)
    (blocked : Blocked lane) (smaller : Smaller setup (left lane))
    (posting : lane.thread.phase = .posting)
    (level : lane.chunkPosted = lane.chunkRetired) (unposted : lane.thread.posted = false) :
    Drains setup lane := by
  cases may : canPost setup lane with
  | true => exact drains_of_post configured inv smaller posting may
  | false =>
      have turned : turn setup lane true = some (lane.enter (.settling false)) := by
        unfold turn
        rw [posting]
        show some (postTurn setup lane true) = _
        unfold postTurn
        rw [may, if_neg Bool.false_ne_true, if_neg (not_not.mpr level)]
        unfold endRound
        rw [unposted, Bool.false_or, if_neg Bool.false_ne_true, decide_eq_true level,
          Bool.or_true, if_pos rfl]
      have after : Inv setup (lane.enter (.settling false)) := by
        apply phase_inv inv
        · rw [posting]
          simp
        · rw [posting]
          rfl
        · exact Or.inr (Or.inr rfl)
        · intro wrong
          cases wrong
      exact Drains.step (turn_advance turned) rfl (fun same => same)
        (drains_of_settling configured after
          ⟨blocked.calling, blocked.stream, blocked.landed⟩ smaller rfl)

theorem drains_of_posting (configured : Configured setup) (inv : Inv setup lane)
    (blocked : Blocked lane) (smaller : Smaller setup (left lane))
    (posting : lane.thread.phase = .posting) : Drains setup lane := by
  by_cases level : lane.chunkPosted = lane.chunkRetired
  · cases posted : lane.thread.posted with
    | false => exact drains_of_round configured inv blocked smaller posting level posted
    | true =>
        cases may : canPost setup lane with
        | true => exact drains_of_post configured inv smaller posting may
        | false =>
            have turned : turn setup lane true = some (endRound lane false) := by
              unfold turn
              rw [posting]
              unfold postTurn
              rw [may, if_neg Bool.false_ne_true, if_neg (not_not.mpr level)]
            have awake : lane.thread.phase ≠ .idle := by
              rw [posting]
              simp
            have after := endRound_inv inv awake (by rw [posting]; rfl) false
            unfold endRound at turned after
            rw [posted, Bool.true_or, if_pos rfl] at turned after
            exact Drains.step (turn_advance turned) rfl (fun same => same)
              (drains_of_round configured after
                ⟨blocked.calling, blocked.stream, blocked.landed⟩ smaller rfl level rfl)
  · exact drains_of_unretired configured inv blocked smaller posting level

end Stuck

/-! ## Every lane drains -/

theorem drains_of_smaller (configured : Configured setup) (inv : Inv setup lane)
    (smaller : Smaller setup (left lane)) : Drains setup lane := by
  cases failed : handling lane.thread.phase with
  | true => exact (releasing_of_inv inv failed).drains
  | false =>
      cases calling : lane.calling with
      | cons entry rest =>
          have stepped : next setup lane (.enqueue true) = some { lane with
              calling := rest, stream := lane.stream ++ [entry] } := by
            show RemoteLane.enqueue lane true = _
            unfold RemoteLane.enqueue
            rw [calling]
            rfl
          have after := inv.enqueue (fun wrong => by cases wrong) stepped
          refine Drains.step ⟨_, .enqueue, stepped⟩ rfl (fun same => same)
            (smaller _ after ?_)
          unfold left
          rw [calling, List.length_append]
          simp only [List.length_cons, List.length_nil]
          omega
      | nil =>
          by_cases flying : ∃ chunk ∈ lane.inFlight, lane.chunkRetired ≤ chunk
          · rcases flying with ⟨chunk, mem, unretired⟩
            have stepped : next setup lane (.complete chunk true) = some { lane with
                inFlight := lane.inFlight.erase chunk
                completions := lane.completions ++ [(chunk, true)] } := by
              show RemoteLane.complete lane chunk true = _
              unfold RemoteLane.complete
              rw [if_pos mem]
            have after := complete_inv inv stepped
            refine Drains.step ⟨_, .complete failed unretired, stepped⟩ rfl
              (fun same => same) (smaller _ after ?_)
            have positive := List.length_pos_of_mem mem
            unfold left
            rw [List.length_append, List.length_singleton, List.length_erase_of_mem mem]
            dsimp only
            omega
          · have landed : ∀ chunk ∈ lane.inFlight, chunk < lane.chunkRetired := by
              intro chunk mem
              by_contra unretired
              exact flying ⟨chunk, mem, Nat.le_of_not_lt unretired⟩
            by_cases passing : ∃ entry rest, lane.stream = entry :: rest ∧
                passes lane entry.op = true
            · rcases passing with ⟨entry, rest, stream, passing⟩
              have stepped : next setup lane .execute =
                  some (perform { lane with stream := rest } entry.op) := by
                show RemoteLane.execute lane = _
                unfold RemoteLane.execute
                rw [stream]
                dsimp only
                rw [if_pos passing]
              have after := execute_inv inv stepped
              refine Drains.step ⟨_, .execute, stepped⟩ ?_ ?_ (smaller _ after ?_)
              · cases entry.op <;> rfl
              · intro latched
                cases entry.op <;> exact latched
              · have shorter : left { lane with stream := rest } < left lane := by
                  unfold left
                  rw [stream, List.length_cons]
                  dsimp only
                  omega
                cases entry.op <;> exact shorter
            · have stuck : ∀ entry rest, lane.stream = entry :: rest →
                  passes lane entry.op = false := by
                intro entry rest stream
                by_contra open_
                exact passing ⟨entry, rest, stream, Bool.not_eq_false _ ▸ open_⟩
              have blocked : Blocked lane := ⟨calling, stuck, landed⟩
              cases phase : lane.thread.phase with
              | idle => exact drains_of_idle configured inv blocked smaller phase
              | posting => exact drains_of_posting configured inv blocked smaller phase
              | collecting => exact drains_of_collecting inv blocked smaller phase
              | settling latched =>
                  rw [phase] at failed
                  have same : latched = false := failed
                  rw [same] at phase
                  exact drains_of_settling configured inv blocked smaller phase
              | _ =>
                  rw [phase] at failed
                  cases failed

/-- From every state of an orderly run the lane drains. -/
theorem drains (configured : Configured setup) (inv : Inv setup lane) :
    Drains setup lane := by
  have all : ∀ bound lane, Inv setup lane → left lane < bound → Drains setup lane := by
    intro bound
    induction bound with
    | zero =>
        intro lane _ less
        exact absurd less (Nat.not_lt_zero _)
    | succ bound ih =>
        intro lane inv less
        apply drains_of_smaller configured inv
        intro other otherInv fewer
        exact ih other otherInv (by omega)
  exact all (left lane + 1) lane inv (Nat.lt_succ_self _)

end ShadowSpill.Network.LaneProgress
