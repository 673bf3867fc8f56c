import ShadowSpill.Network.LaneInvariant

/-!
# Orderly steps keep the invariant

The route stream, the NIC and the lane's thread, each with its own part of the state.
-/

namespace ShadowSpill.Network.LaneSteps

open RemoteLane LanePlan LaneStream LaneBooks LaneInvariant

variable {setup : Setup} {lane after : Lane}

/-! ## The route stream and the NIC -/

theorem opsOf_cons {entry : Entry} {rest : List Entry} (stream : lane.stream = entry :: rest) :
    opsOf lane = entry.op :: opsOf { lane with stream := rest } := by
  unfold opsOf Lane.pending
  rw [stream]
  rfl

theorem execute_inv (inv : Inv setup lane) (executed : execute lane = some after) :
    Inv setup after := by
  unfold execute at executed
  cases stream : lane.stream with
  | nil =>
      rw [stream] at executed
      cases executed
  | cons entry rest =>
      rw [stream] at executed
      dsimp only at executed
      split at executed
      · cases executed
        have pending := inv.pending
        rw [opsOf_cons stream] at pending
        cases op : entry.op with
        | waitEvent event =>
            rw [op] at pending
            exact { inv with pending := pending.passive_tail ⟨rfl, rfl, rfl⟩ }
        | waitValue reached =>
            rw [op] at pending
            exact { inv with pending := pending.passive_tail ⟨rfl, rfl, rfl⟩ }
        | recordEvent event planned =>
            rw [op] at pending
            exact { inv with pending := pending.passive_tail ⟨rfl, rfl, rfl⟩ }
        | copyAcross chunk localAddress bytes =>
            rw [op] at pending
            exact { inv with pending := pending.copy_tail }
        | writeDevice reached =>
            rw [op] at pending
            rcases pending.device_tail inv.history.copies_numbered with
              ⟨stages, same, rest⟩
            have stored := inv.words.stored stages
            have bounded := rest.bounded
            refine { inv with words := ?_, pending := rest }
            refine { inv.words with
              device_le := ?_, stored := fun _ => ?_, filled := fun _ remote => ?_ }
            · show reached ≤ lane.chunksPlanned
              omega
            · show lane.drained + 1 ≤ reached ∧ reached ≤ lane.drained + 1 + 1
              omega
            · have filled := (inv.words.filled stages remote).2
              show reached = lane.drained + 1 ∧ lane.chunkPosted ≤ lane.drained + 1
              omega
        | writeGate handle =>
            rw [op] at pending
            rcases pending.gate_tail with ⟨direct, same, rest⟩
            have opened := rest.opened
            rw [inv.history.length] at opened
            refine { inv with words := ?_, pending := rest }
            refine { inv.words with gate_le := opened, opened := fun _ => ?_ }
            have before := inv.words.opened direct
            show current lane.thread lane.started ≤ handle
            omega
      · cases executed

theorem complete_inv (inv : Inv setup lane) {chunk : Nat} {success : Bool}
    (completed : complete lane chunk success = some after) : Inv setup after := by
  unfold complete at completed
  split at completed
  · cases completed
    refine { inv with window := ⟨inv.window.narrow, ?_⟩ }
    intro calm other low high
    rcases inv.window.known calm other low high with flying | polled | flagged
    · by_cases same : other = chunk
      · refine Or.inr (Or.inl ?_)
        rw [same, List.map_append]
        exact List.mem_append_right _ (List.mem_singleton_self _)
      · exact Or.inl ((List.mem_erase_of_ne same).mpr flying)
    · refine Or.inr (Or.inl ?_)
      rw [List.map_append]
      exact List.mem_append_left _ polled
    · exact Or.inr (Or.inr flagged)
  · cases completed

/-! ## The thread: waking and posting -/

/-- The transfer that the thread is posting is the one its count names. -/
theorem currentWork_known (inv : Inv setup lane) (awake : lane.thread.phase ≠ .idle)
    (more : lane.thread.started < lane.thread.accepted) :
    lane.transfers[lane.thread.started]? = some (currentWork lane) := by
  have taken := inv.standing.taken awake
  have counts := inv.counts
  rcases inv.history.at (by omega : lane.thread.started < lane.accepted) with ⟨work, known⟩
  have held := inv.ring.holds lane.thread.started work
    (counts.retired_le.trans taken.1) known
  unfold currentWork
  rw [held]
  exact known

theorem current_awake {thread : Thread} {started : Nat} (awake : thread.phase ≠ .idle) :
    current thread started = thread.started := by
  unfold current
  cases phase : thread.phase <;> first | rfl | exact absurd phase awake

/-- A step that only changes the thread's variables. -/
theorem rethread (inv : Inv setup lane) {thread : Thread}
    (standing : Standing thread lane.accepted lane.started lane.chunksPlanned)
    (place : current thread lane.started = current lane.thread lane.started)
    (retiring : Retiring lane.transfers thread.phase lane.retired lane.started
      lane.chunkRetired lane.chunkPosted lane.nic lane.chunksPlanned)
    (window : Window thread.phase lane.chunkLanded lane.chunkRetired lane.chunkPosted
      lane.inFlight lane.completions) :
    Inv setup { lane with thread := thread } := by
  refine { inv with
    standing := standing, position := ?_, retiring := retiring, words := ?_
    window := window }
  · show Position _ (current thread lane.started) _ _ _
    rw [place]
    exact inv.position
  · show Words _ (current thread lane.started) _ _ _ _ _ _
    rw [place]
    exact inv.words

theorem standing_calm {thread : Thread} {accepted started planned : Nat}
    (taken : thread.phase ≠ .idle → started ≤ thread.started ∧
      thread.started ≤ thread.accepted ∧ thread.accepted ≤ accepted)
    (calm : handling thread.phase = false) : Standing thread accepted started planned := by
  refine ⟨taken, fun wrong => ?_, fun _ _ wrong => ?_, fun _ _ wrong => ?_,
    fun _ wrong => ?_⟩
  all_goals
    rw [wrong] at calm
    cases calm

theorem wake_inv (inv : Inv setup lane) (idle : lane.thread.phase = .idle) :
    Inv setup (wake lane) := by
  have nic := inv.retiring.nic
  rw [idle] at nic
  apply rethread inv
  · exact standing_calm (fun _ => ⟨le_rfl, inv.counts.started_le, le_rfl⟩) rfl
  · unfold current
    rw [idle]
  · exact ⟨inv.retiring.ordered, (fun wrong => by cases wrong), inv.retiring.done,
      (fun wrong => by cases wrong), nic⟩
  · exact ⟨inv.window.narrow, fun _ => inv.window.known (by rw [idle]; rfl)⟩

/-- A change of phase inside `pump`. -/
theorem phase_inv (inv : Inv setup lane) {phase : Phase} {progressed posted : Bool}
    (awake : lane.thread.phase ≠ .idle) (calm : handling lane.thread.phase = false)
    (next : phase = .posting ∨ phase = .collecting ∨ phase = .settling false)
    (unretired : phase = .collecting → lane.chunkRetired < lane.chunkPosted) :
    Inv setup { lane with thread := { lane.thread with
      phase := phase, progressed := progressed, posted := posted } } := by
  have nic := inv.retiring.nic
  rw [quiet_of_calm calm] at nic
  have awake' : phase ≠ .idle := by
    rcases next with same | same | same <;> rw [same] <;> simp
  have calm' : handling phase = false := by
    rcases next with same | same | same <;> rw [same] <;> rfl
  apply rethread inv
  · exact standing_calm (fun _ => inv.standing.taken awake) calm'
  · rw [current_awake awake, current_awake awake']
  · refine ⟨inv.retiring.ordered, unretired, inv.retiring.done,
      fun wrong => absurd wrong awake', ?_⟩
    dsimp only
    rw [quiet_of_calm calm']
    exact nic
  · exact ⟨inv.window.narrow, fun _ => inv.window.known calm⟩

theorem endRound_inv (inv : Inv setup lane) (awake : lane.thread.phase ≠ .idle)
    (calm : handling lane.thread.phase = false) (retired : Bool) :
    Inv setup (endRound lane retired) := by
  unfold endRound
  split
  · exact phase_inv inv awake calm (Or.inl rfl) (fun wrong => by cases wrong)
  · split
    · exact phase_inv inv awake calm (Or.inr (Or.inr rfl)) (fun wrong => by cases wrong)
    · exact phase_inv inv awake calm (Or.inl rfl) (fun wrong => by cases wrong)

/-- The thread meets a failure when every accepted transfer is started. -/
theorem fail_inv (inv : Inv setup lane) (awake : lane.thread.phase ≠ .idle)
    (calm : handling lane.thread.phase = false)
    (everything : lane.thread.started = lane.accepted) :
    Inv setup (lane.enter .failing) := by
  have nic := inv.retiring.nic
  rw [quiet_of_calm calm] at nic
  apply rethread inv
  · exact ⟨fun _ => inv.standing.taken awake, fun _ => everything,
      (fun _ _ wrong => by cases wrong), (fun _ _ wrong => by cases wrong),
      (fun _ wrong => by cases wrong)⟩
  · rw [current_awake awake, current_awake (by simp)]
  · exact ⟨inv.retiring.ordered, (fun wrong => by cases wrong), inv.retiring.done,
      (fun wrong => by cases wrong), nic⟩
  · exact ⟨inv.window.narrow, (fun wrong => by cases wrong)⟩

/-- A posted piece is the next one of the plan. -/
theorem post_inv (configured : Configured setup) (inv : Inv setup lane)
    (posting : lane.thread.phase = .posting) (may : canPost setup lane = true) :
    Inv setup (post setup lane) := by
  have awake : lane.thread.phase ≠ .idle := by
    rw [posting]
    simp
  unfold canPost at may
  simp only [Bool.and_eq_true, decide_eq_true_eq] at may
  obtain ⟨⟨more, room⟩, ready⟩ := may
  have known := currentWork_known inv awake more
  have taken := inv.standing.taken awake
  have position := inv.position
  have words := inv.words
  have nic := inv.retiring.nic
  rw [current_awake awake] at position words
  rw [posting] at nic
  have next := inv.history.next_first known
  have first := (inv.history.numbered _ _ known).2
  have handle := (inv.history.numbered _ _ known).1
  have lower := position.lower
  have upper := position.upper (by omega)
  have sized := inv.history.sized _ (List.mem_of_getElem? known)
  have limit := (outstandingLimit_bounds configured).2
  have ordered := inv.retiring.ordered
  -- The transfer's place after this piece.
  have place : current (post setup lane).thread (post setup lane).started =
      if lane.chunkPosted + 1 = firstOf lane.transfers (lane.thread.started + 1)
      then lane.thread.started + 1 else lane.thread.started := by
    have phase : (post setup lane).thread.phase = .posting := posting
    rw [current_awake (by rw [phase]; simp), next]
    rfl
  have total : firstOf lane.transfers (lane.thread.started + 1) ≤ lane.chunksPlanned := by
    rw [← inv.history.total]
    exact firstOf_mono (by omega)
  have phase : (post setup lane).thread.phase = .posting := posting
  refine { inv with
    standing := ⟨fun _ => ?_, fun wrong => ?_, fun _ _ wrong => ?_, fun _ _ wrong => ?_,
      fun _ wrong => ?_⟩
    position := ?_
    retiring := ⟨?_, fun wrong => ?_, inv.retiring.done, fun wrong => ?_, ?_⟩
    words := ?_
    window := ⟨?_, ?_⟩
    requests := ?_ }
  · show lane.started ≤ (post setup lane).thread.started ∧
      (post setup lane).thread.started ≤ lane.thread.accepted ∧
        lane.thread.accepted ≤ lane.accepted
    unfold post
    dsimp only
    split <;> omega
  · rw [phase] at wrong
    cases wrong
  · rw [phase] at wrong
    cases wrong
  · rw [phase] at wrong
    cases wrong
  · rw [phase] at wrong
    cases wrong
  · rw [place]
    split
    · rename_i finished
      refine ⟨by show _ ≤ lane.accepted; omega, finished.ge, ?_, ?_⟩
      · intro fewer
        rcases inv.history.at fewer with ⟨following, later⟩
        have positive := (inv.history.sized _ (List.mem_of_getElem? later)).some_
        have following := firstOf_succ later
        show lane.chunkPosted + 1 < firstOf lane.transfers (lane.thread.started + 1 + 1)
        omega
      · show lane.chunkPosted + 1 ≤ lane.chunksPlanned
        omega
    · rename_i unfinished
      refine ⟨position.bound, lower.trans (Nat.le_succ _), fun _ => ?_, ?_⟩
      · show lane.chunkPosted + 1 < firstOf lane.transfers (lane.thread.started + 1)
        omega
      · show lane.chunkPosted + 1 ≤ lane.chunksPlanned
        omega
  · exact ordered.trans (Nat.le_succ _)
  · rw [phase] at wrong
    cases wrong
  · rw [phase] at wrong
    cases wrong
  · rw [phase]
    exact nic
  · rw [place]
    refine { words with opened := fun direct => ?_, filled := fun stages remote => ?_ }
    · have opened := words.opened direct
      unfold mayPost at ready
      rw [direct, if_neg Bool.false_ne_true, decide_eq_true_eq, handle] at ready
      show _ ≤ lane.gate
      split <;> omega
    · have filled := words.filled stages remote
      unfold mayPost stageReady at ready
      rw [stages, remote, if_pos rfl, if_pos rfl, decide_eq_true_eq] at ready
      refine ⟨filled.1, ?_⟩
      show lane.chunkPosted + 1 ≤ lane.drained
      omega
  · show lane.chunkPosted + 1 ≤ lane.chunkRetired + piecesInFlight
    omega
  · intro _ chunk low high
    have high : chunk < lane.chunkPosted + 1 := high
    rcases Nat.lt_or_ge chunk lane.chunkPosted with old | new
    · rcases inv.window.known (by rw [posting]; rfl) chunk low old with
        flying | polled | flagged
      · exact Or.inl (List.mem_append_left _ flying)
      · exact Or.inr (Or.inl polled)
      · exact Or.inr (Or.inr flagged)
    · refine Or.inl (List.mem_append_right _ ?_)
      rw [List.mem_singleton]
      omega
  · have split : lane.chunkPosted = firstOf lane.transfers lane.thread.started +
        (lane.chunkPosted - firstOf lane.transfers lane.thread.started) := by omega
    have inside : lane.chunkPosted - firstOf lane.transfers lane.thread.started <
        (currentWork lane).chunks := by omega
    have entry := @plan_at setup lane.transfers (currentWork lane) lane.thread.started known
      _ inside
    have request := requestFor_eq configured.pieceBytes sized inside
    rw [← split] at entry
    rw [first, ← split] at request
    show lane.requests ++ [requestFor setup (currentWork lane) lane.chunkPosted] = _
    rw [inv.requests, request]
    show _ = ((plan setup lane.transfers).take (lane.chunkPosted + 1)).map cut
    rw [← take_succ_of_at entry, List.map_append]
    rfl

/-! ## The thread: collecting and retiring -/

/-- A completion that is polled leaves its flag. -/
theorem poll_inv (inv : Inv setup lane) {chunk : Nat} {rest : List (Nat × Bool)}
    (head : lane.completions = (chunk, true) :: rest) :
    Inv setup { lane with
      completions := rest
      chunkLanded := Function.update lane.chunkLanded (chunk % piecesInFlight) true } := by
  refine { inv with window := ⟨inv.window.narrow, ?_⟩ }
  intro calm other low high
  have flagged : Function.update lane.chunkLanded (chunk % piecesInFlight) true
      (chunk % piecesInFlight) = true := Function.update_self _ _ _
  rcases inv.window.known calm other low high with flying | polled | set
  · exact Or.inl flying
  · rw [head, List.map_cons] at polled
    rcases List.mem_cons.mp polled with same | later
    · refine Or.inr (Or.inr ?_)
      rw [same]
      exact flagged
    · exact Or.inr (Or.inl later)
  · refine Or.inr (Or.inr ?_)
    show Function.update lane.chunkLanded _ true _ = true
    by_cases same : other % piecesInFlight = chunk % piecesInFlight
    · rw [same]
      exact flagged
    · rw [Function.update_of_ne same]
      exact set

/-- Retiring pieces whose flags are set. -/
theorem retire_inv (inv : Inv setup lane) {count : Nat} {landed : Nat → Bool}
    (collecting : lane.thread.phase = .collecting)
    (bound : lane.chunkRetired + count ≤ lane.chunkPosted)
    (kept : ∀ chunk, lane.chunkRetired + count ≤ chunk →
      chunk < lane.chunkRetired + piecesInFlight →
      landed (chunk % piecesInFlight) = lane.chunkLanded (chunk % piecesInFlight)) :
    Inv setup (endRound { lane with
      chunkLanded := landed
      chunkRetired := lane.chunkRetired + count
      nic := lane.chunkRetired + count } (decide (count ≠ 0))) := by
  have narrow := inv.window.narrow
  have awake : lane.thread.phase ≠ .idle := by
    rw [collecting]
    simp
  -- The round's end leaves the collecting phase, whose own clause would fail here.
  have moved : Inv setup { lane with
      chunkLanded := landed
      chunkRetired := lane.chunkRetired + count
      nic := lane.chunkRetired + count
      thread := { lane.thread with phase := .posting } } := by
    have posting := @phase_inv setup lane inv .posting lane.thread.progressed
      lane.thread.posted awake (by rw [collecting]; rfl) (Or.inl rfl)
      (fun wrong => by cases wrong)
    refine { posting with
      retiring := ⟨bound, (fun wrong => by cases wrong),
        inv.retiring.done.trans (Nat.le_add_right _ _), (fun wrong => by cases wrong), rfl⟩
      window := ⟨?_, ?_⟩ }
    · show lane.chunkPosted ≤ lane.chunkRetired + count + piecesInFlight
      omega
    · intro _ chunk low high
      have low : lane.chunkRetired + count ≤ chunk := low
      have high : chunk < lane.chunkPosted := high
      rcases inv.window.known (by rw [collecting]; rfl) chunk (by omega) high with
        flying | polled | set
      · exact Or.inl flying
      · exact Or.inr (Or.inl polled)
      · refine Or.inr (Or.inr ?_)
        show landed (chunk % piecesInFlight) = true
        rw [kept chunk low (by omega)]
        exact set
  have ended := endRound_inv moved (by simp) rfl (decide (count ≠ 0))
  have same : endRound { lane with
      chunkLanded := landed
      chunkRetired := lane.chunkRetired + count
      nic := lane.chunkRetired + count
      thread := { lane.thread with phase := .posting } } (decide (count ≠ 0)) =
      endRound { lane with
        chunkLanded := landed
        chunkRetired := lane.chunkRetired + count
        nic := lane.chunkRetired + count } (decide (count ≠ 0)) := by
    unfold endRound Lane.enter
    rfl
  rw [← same]
  exact ended

/-- What a round of retiring does. -/
theorem retireReady_spec (inv : Inv setup lane)
    (collecting : lane.thread.phase = .collecting) :
    ∃ count landed, retireReady lane = endRound { lane with
        chunkLanded := landed
        chunkRetired := lane.chunkRetired + count
        nic := lane.chunkRetired + count } (decide (count ≠ 0)) ∧
      lane.chunkRetired + count ≤ lane.chunkPosted ∧
      (∀ slot, landed slot = true → lane.chunkLanded slot = true) ∧
      (∀ chunk, lane.chunkRetired + count ≤ chunk →
        chunk < lane.chunkRetired + piecesInFlight →
        landed (chunk % piecesInFlight) = lane.chunkLanded (chunk % piecesInFlight)) ∧
      (∀ chunk, lane.chunkRetired ≤ chunk → chunk < lane.chunkRetired + count →
        lane.chunkLanded (chunk % piecesInFlight) = true ∧
          landed (chunk % piecesInFlight) = false) ∧
      (lane.chunkRetired + count < lane.chunkPosted →
        lane.chunkLanded ((lane.chunkRetired + count) % piecesInFlight) = false) := by
  have narrow := inv.window.narrow
  have ordered := inv.retiring.ordered
  have nic := inv.retiring.nic
  rw [collecting] at nic
  rcases retireChunks_spec (lane.chunkPosted - lane.chunkRetired) lane (by omega) with
    ⟨count, landed, result, most, fewer, kept, taken, stopped⟩
  refine ⟨count, landed, ?_, by omega, fewer, kept, taken, fun less => stopped (by omega)⟩
  unfold retireReady
  dsimp only
  rw [result]
  dsimp only
  by_cases none : count = 0
  · subst none
    have same : lane.nic = lane.chunkRetired := nic
    rw [if_neg (by simp), Nat.add_zero, ← same]
    rfl
  · rw [if_pos (by omega), decide_eq_true none]

theorem retireReady_inv (inv : Inv setup lane)
    (collecting : lane.thread.phase = .collecting) : Inv setup (retireReady lane) := by
  rcases retireReady_spec inv collecting with
    ⟨count, landed, result, bound, _, kept, _, _⟩
  rw [result]
  exact retire_inv inv collecting bound kept

theorem collectTurn_inv (inv : Inv setup lane) {taken : Bool}
    (collecting : lane.thread.phase = .collecting)
    (polls : taken = false ∨ failedHead lane = true →
      lane.thread.started = lane.accepted) : Inv setup (collectTurn lane taken) := by
  have awake : lane.thread.phase ≠ .idle := by
    rw [collecting]
    simp
  have calm : handling lane.thread.phase = false := by
    rw [collecting]
    rfl
  unfold collectTurn
  cases taken with
  | false => exact fail_inv inv awake calm (polls (Or.inl rfl))
  | true =>
      rw [if_pos rfl]
      cases completions : lane.completions with
      | nil => exact retireReady_inv inv collecting
      | cons head rest =>
          rcases head with ⟨chunk, success⟩
          cases success with
          | true => exact poll_inv inv completions
          | false =>
              have head : failedHead lane = true := by
                unfold failedHead
                rw [completions]
              have failed := fail_inv inv awake calm (polls (Or.inr head))
              refine { failed with window := ⟨inv.window.narrow, fun wrong => ?_⟩ }
              cases wrong

/-! ## The thread: failing -/

/-- A handled failure finds every piece posted. -/
theorem posted_of_handling (inv : Inv setup lane)
    (failed : handling lane.thread.phase = true) :
    lane.chunkPosted = lane.chunksPlanned ∧
      current lane.thread lane.started = lane.accepted := by
  have awake : lane.thread.phase ≠ .idle := by
    intro idle
    rw [idle] at failed
    cases failed
  have everything := inv.standing.everything failed
  have position := inv.position
  rw [current_awake awake, everything] at position
  have lower := position.lower
  have total := inv.history.total
  refine ⟨Nat.le_antisymm position.planned (total ▸ lower), ?_⟩
  rw [current_awake awake, everything]

/-- The failing thread moves on, with nothing but its phase changed. -/
theorem handle_inv (inv : Inv setup lane) {phase : Phase}
    (failed : handling lane.thread.phase = true) (still : handling phase = true)
    (same : reported phase = reported lane.thread.phase)
    (sampledNic : ∀ first second, phase = .storingNic first second →
      first = lane.chunksPlanned ∧ second = lane.accepted)
    (sampledDevice : ∀ first second, phase = .storingDevice first second →
      first = lane.chunksPlanned ∧ second = lane.accepted)
    (sampledGate : ∀ second, phase = .storingGate second → second = lane.accepted) :
    Inv setup (lane.enter phase) := by
  have awake : lane.thread.phase ≠ .idle := by
    intro idle
    rw [idle] at failed
    cases failed
  have awake' : phase ≠ .idle := by
    intro idle
    rw [idle] at still
    cases still
  have collecting : phase ≠ .collecting := by
    intro wrong
    rw [wrong] at still
    cases still
  apply rethread inv
  · exact ⟨fun _ => inv.standing.taken awake,
      fun _ => inv.standing.everything failed, sampledNic, sampledDevice, sampledGate⟩
  · rw [current_awake awake, current_awake awake']
  · refine ⟨inv.retiring.ordered, fun wrong => absurd wrong collecting, inv.retiring.done,
      fun wrong => absurd wrong awake', ?_⟩
    dsimp only
    rw [same]
    exact inv.retiring.nic
  · refine ⟨inv.window.narrow, fun wrong => ?_⟩
    rw [show handling phase = false from wrong] at still
    cases still

theorem sample_inv (inv : Inv setup lane) (failing : lane.thread.phase = .failing) :
    Inv setup (lane.enter (.storingNic lane.chunksPlanned lane.accepted)) := by
  apply handle_inv inv
  · rw [failing]
    rfl
  · rfl
  · rw [failing]
    rfl
  · intro first second same
    cases same
    exact ⟨rfl, rfl⟩
  · intro _ _ wrong
    cases wrong
  · intro _ wrong
    cases wrong

/-- Storing the NIC's word for a failure. -/
theorem storeNic_inv (inv : Inv setup lane) {planned accepted : Nat}
    (storing : lane.thread.phase = .storingNic planned accepted) :
    Inv setup ({ lane with nic := planned }.enter (.storingDevice planned accepted)) := by
  rcases inv.standing.sampledNic planned accepted storing with ⟨samePlanned, sameAccepted⟩
  have failed : handling lane.thread.phase = true := by
    rw [storing]
    rfl
  have awake : lane.thread.phase ≠ .idle := by
    rw [storing]
    simp
  have place : current { lane.thread with phase := .storingDevice planned accepted }
      lane.started = current lane.thread lane.started := by
    rw [current_awake awake]
    rfl
  refine { inv with
    standing := ⟨fun _ => inv.standing.taken awake,
      fun _ => inv.standing.everything failed, (fun _ _ wrong => by cases wrong),
      fun first second same => ?_, (fun _ wrong => by cases wrong)⟩
    position := ?_
    retiring := ⟨inv.retiring.ordered, (fun wrong => by cases wrong), inv.retiring.done,
      (fun wrong => by cases wrong), samePlanned⟩
    words := ?_
    window := ⟨inv.window.narrow, (fun wrong => by cases wrong)⟩ }
  · cases same
    exact ⟨samePlanned, sameAccepted⟩
  · show Position _ (current { lane.thread with phase := _ } lane.started) _ _ _
    rw [place]
    exact inv.position
  · show Words _ (current { lane.thread with phase := _ } lane.started) _ _ _ _ _ _
    rw [place]
    exact inv.words

/-- The stores that the stream has left number the pieces that the device has left. -/
theorem drains_left (inv : Inv setup lane) (stages : setup.stages = true) :
    ((opsOf lane).filterMap deviceOf).length = lane.chunksPlanned - lane.drained := by
  rw [inv.pending.devices, stages, if_pos rfl, List.Ico.length]
  omega

/-- Storing the device's word for a failure. -/
theorem storeDevice_inv (inv : Inv setup lane) {planned accepted : Nat}
    (storing : lane.thread.phase = .storingDevice planned accepted)
    (left : setup.stages = true → ((opsOf lane).filterMap deviceOf).length ≤ 1) :
    Inv setup ({ lane with device := planned }.enter (.storingGate accepted)) := by
  rcases inv.standing.sampledDevice planned accepted storing with
    ⟨samePlanned, sameAccepted⟩
  have failed : handling lane.thread.phase = true := by
    rw [storing]
    rfl
  have moved : Inv setup (lane.enter (.storingGate accepted)) := by
    apply handle_inv inv failed rfl
    · rw [storing]
      rfl
    · intro _ _ wrong
      cases wrong
    · intro _ _ wrong
      cases wrong
    · intro second same
      cases same
      exact sameAccepted
  refine { moved with words := { moved.words with
    device_le := samePlanned.le, stored := fun stages => ?_, filled := fun stages remote => ?_ } }
  · have few := left stages
    rw [drains_left inv stages] at few
    have bounded := inv.pending.bounded
    show lane.drained ≤ planned ∧ planned ≤ lane.drained + 1
    omega
  · have filled := inv.words.filled stages remote
    have posted := (posted_of_handling inv failed).1
    have bounded := inv.pending.bounded
    show planned = lane.drained ∧ lane.chunkPosted ≤ lane.drained
    omega

/-- Storing the gate for a failure changes nothing on the direct path. -/
theorem gate_of_handling (inv : Inv setup lane) (failed : handling lane.thread.phase = true)
    (direct : setup.stages = false) : lane.gate = lane.accepted := by
  have place := (posted_of_handling inv failed).2
  have opened := inv.words.opened direct
  rw [place] at opened
  exact Nat.le_antisymm inv.words.gate_le opened

theorem storeGate_inv (inv : Inv setup lane) {accepted : Nat}
    (storing : lane.thread.phase = .storingGate accepted) :
    Inv setup ({ lane with gate := accepted }.enter .latching) := by
  have same := inv.standing.sampledGate accepted storing
  have failed : handling lane.thread.phase = true := by
    rw [storing]
    rfl
  have moved : Inv setup (lane.enter .latching) := by
    apply handle_inv inv failed rfl
    · rw [storing]
      rfl
    · intro _ _ wrong
      cases wrong
    · intro _ _ wrong
      cases wrong
    · intro _ wrong
      cases wrong
  refine { moved with
    words := { moved.words with gate_le := same.le, opened := fun direct => ?_ }
    pending := ?_ }
  · have opened := moved.words.opened direct
    have level := gate_of_handling inv failed direct
    show current (lane.enter .latching).thread _ ≤ accepted
    rw [same, ← level]
    exact opened
  · cases stages : setup.stages with
    | false =>
        have level := gate_of_handling inv failed stages
        have kept := inv.pending
        rw [level, ← same] at kept
        exact kept
    | true =>
        have gates := inv.pending.gates
        rw [stages, if_pos rfl] at gates
        refine { inv.pending with gates := ?_, opened := ?_ }
        · rw [stages, if_pos rfl]
          exact gates
        · show accepted ≤ lane.transfers.length
          rw [inv.history.length]
          exact same.le

/-! ## The thread: settling -/

theorem settle_false_inv (inv : Inv setup lane)
    (settling : lane.thread.phase = .settling false) : Inv setup (settle lane false) := by
  have awake : lane.thread.phase ≠ .idle := by
    rw [settling]
    simp
  have taken := inv.standing.taken awake
  have counts := inv.counts
  have waiting := counts.waiting
  have retired_le := counts.retired_le
  have nic := inv.retiring.nic
  rw [settling] at nic
  have position := inv.position
  have words := inv.words
  rw [current_awake awake] at position words
  rcases retireTransfers_spec (lane.thread.started - lane.retired)
    { lane with
      queued := lane.queued - (lane.thread.started - lane.started)
      started := lane.thread.started } inv.history inv.ring
    (by simp only; omega) inv.retiring.done with ⟨count, result, most, reached, stopped⟩
  unfold settle
  dsimp only at result ⊢
  rw [result, if_neg Bool.false_ne_true]
  refine { inv with
    ring := inv.ring.retire (Nat.le_add_right _ _)
    counts := ⟨?_, ?_, ?_⟩
    standing := standing_calm (fun wrong => absurd rfl wrong) rfl
    position := position
    retiring := ⟨inv.retiring.ordered, (fun wrong => by cases wrong), reached, ?_, nic⟩
    words := words
    window := ⟨inv.window.narrow, fun _ => inv.window.known (by rw [settling]; rfl)⟩ }
  · show lane.retired + count ≤ lane.thread.started
    omega
  · show lane.thread.started ≤ lane.accepted
    omega
  · show lane.queued - (lane.thread.started - lane.started) + lane.thread.started =
      lane.accepted
    omega
  · intro _ less
    have less : lane.retired + count < lane.thread.started := less
    exact stopped (by omega)

theorem settle_true_inv (inv : Inv setup lane)
    (settling : lane.thread.phase = .settling true) : Inv setup (settle lane true) := by
  have awake : lane.thread.phase ≠ .idle := by
    rw [settling]
    simp
  have failed : handling lane.thread.phase = true := by
    rw [settling]
    rfl
  have taken := inv.standing.taken awake
  have everything := inv.standing.everything failed
  have counts := inv.counts
  have waiting := counts.waiting
  have retired_le := counts.retired_le
  have nic := inv.retiring.nic
  rw [settling] at nic
  have posted := (posted_of_handling inv failed).1
  have position := inv.position
  have words := inv.words
  rw [current_awake awake, everything] at position words
  have total := inv.history.total
  unfold settle
  dsimp only
  rw [retireTransfers_failed, if_pos rfl]
  refine { inv with
    ring := inv.ring.retire (by show lane.retired ≤ lane.accepted; omega)
    counts := ⟨le_rfl, le_rfl, ?_⟩
    standing := standing_calm (fun wrong => absurd rfl wrong) rfl
    position := position
    retiring := ⟨le_rfl, (fun wrong => by cases wrong), ?_,
      fun _ wrong => absurd wrong (lt_irrefl _), ?_⟩
    words := words
    window := ⟨Nat.le_add_right _ _,
      fun _ chunk low high => absurd (Nat.lt_of_le_of_lt low high) (lt_irrefl _)⟩ }
  · show lane.queued - (lane.thread.started - lane.started) + lane.accepted = lane.accepted
    omega
  · show firstOf lane.transfers lane.accepted ≤ lane.chunkPosted
    omega
  · show lane.nic = lane.chunkPosted
    rw [nic, posted]
    rfl

/-! ## Every step -/

theorem turn_inv (configured : Configured setup) (inv : Inv setup lane) {taken : Bool}
    (orderly : OrderlyTurn setup lane taken) (turned : turn setup lane taken = some after) :
    Inv setup after := by
  unfold turn at turned
  cases phase : lane.thread.phase with
  | idle =>
      rw [phase] at turned
      dsimp only at turned
      split at turned
      · cases turned
      · cases turned
        exact wake_inv inv phase
  | posting =>
      rw [phase] at turned
      cases turned
      have awake : lane.thread.phase ≠ .idle := by
        rw [phase]
        simp
      have calm : handling lane.thread.phase = false := by
        rw [phase]
        rfl
      unfold postTurn
      split
      · rename_i may
        cases taken with
        | true => exact post_inv configured inv phase may
        | false =>
            rw [orderly.posts rfl phase] at may
            cases may
      · split
        · rename_i unretired
          apply phase_inv inv awake calm (Or.inr (Or.inl rfl))
          have ordered := inv.retiring.ordered
          exact fun _ => by omega
        · exact endRound_inv inv awake calm false
  | collecting =>
      rw [phase] at turned
      cases turned
      exact collectTurn_inv inv phase (orderly.polls phase)
  | failing =>
      rw [phase] at turned
      cases turned
      exact sample_inv inv phase
  | storingNic planned accepted =>
      rw [phase] at turned
      cases turned
      exact storeNic_inv inv phase
  | storingDevice planned accepted =>
      rw [phase] at turned
      cases turned
      exact storeDevice_inv inv phase (orderly.drains (by rw [phase]; rfl))
  | storingGate accepted =>
      rw [phase] at turned
      cases turned
      exact storeGate_inv inv phase
  | latching =>
      rw [phase] at turned
      cases turned
      have moved : Inv setup (lane.enter (.settling true)) := by
        apply handle_inv inv
        · rw [phase]
          rfl
        · rfl
        · rw [phase]
          rfl
        · intro _ _ wrong
          cases wrong
        · intro _ _ wrong
          cases wrong
        · intro _ wrong
          cases wrong
      exact { moved with }
  | settling failed =>
      rw [phase] at turned
      cases turned
      cases failed with
      | false => exact settle_false_inv inv phase
      | true => exact settle_true_inv inv phase

/-- Every orderly step keeps the invariant. -/
theorem next_inv (configured : Configured setup) (inv : Inv setup lane) {action : Action}
    (orderly : Orderly setup lane action) (stepped : next setup lane action = some after) :
    Inv setup after := by
  cases action with
  | wait event =>
      apply inv.call _ _ stepped
      · intro op mem
        rw [List.mem_singleton.mp mem]
        exact ⟨rfl, rfl, rfl⟩
      · intro reached mem
        cases List.mem_singleton.mp mem
  | copy localAddress remoteAddress bytes =>
      unfold next at stepped
      dsimp only at stepped
      split at stepped
      · rename_i free
        cases stepped
        unfold copy
        split
        · exact inv.refuse free.2
        · rename_i inside
          rcases orderly inside with ⟨counted, calm⟩
          exact inv.publish configured counted calm free.1 free.2
            fun beyond => inside (Or.inr beyond)
      · cases stepped
  | join => exact inv.call (fun _ => joinOps_passive) (fun _ => joinOps_waits) stepped
  | signal event =>
      exact inv.call (fun _ => signalOps_passive) (fun _ => signalOps_waits) stepped
  | enqueue taken => exact inv.enqueue orderly stepped
  | execute => exact execute_inv inv stepped
  | complete chunk success => exact complete_inv inv stepped
  | turn taken => exact turn_inv configured inv orderly stepped

/-- A run keeps the invariant. -/
theorem run_inv (configured : Configured setup) (inv : Inv setup lane)
    (run : Relation.ReflTransGen (Step setup) lane after) : Inv setup after := by
  induction run with
  | refl => exact inv
  | tail _ step ih =>
      rcases step with ⟨action, orderly, stepped⟩
      exact next_inv configured ih orderly stepped

end ShadowSpill.Network.LaneSteps
