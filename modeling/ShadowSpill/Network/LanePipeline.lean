import ShadowSpill.Network.LaneGuards
import ShadowSpill.Network.LaneFailure

/-!
# The pipeline of a lane without failures

While nothing fails, every flag that is set belongs to a piece that has landed and is not
retired, so the NIC's word counts landed pieces only.  The stream's waits on that word
then give each slot of the ring to one side at a time, and the runtime's waits hold back
the pieces of every copy that is queued behind them.
-/

namespace ShadowSpill.Network.LanePipeline

open RemoteLane LanePlan LaneStream LaneBooks LaneInvariant LaneSteps LaneProgress LaneFailure
open LaneGuards

/-! ## Steps without a failure -/

/-- No device call, work request or poll is refused, and no piece fails. -/
def Flawless : Action → Prop
  | .enqueue taken => taken = true
  | .complete _ success => success = true
  | .turn taken => taken = true
  | _ => True

instance : (action : Action) → Decidable (Flawless action)
  | .enqueue taken => inferInstanceAs (Decidable (taken = true))
  | .complete _ success => inferInstanceAs (Decidable (success = true))
  | .turn taken => inferInstanceAs (Decidable (taken = true))
  | .wait _ | .copy _ _ _ | .join | .signal _ | .execute => inferInstanceAs (Decidable True)

/-- A copy fits its words; one that the NIC fills the ring for finds no event wait
queued. -/
def Guarded (setup : Setup) (lane : Lane) : Action → Prop
  | .copy _ remoteAddress bytes => Sized setup remoteAddress bytes ∧
      (fillsFirst setup = true → ∀ entry ∈ lane.pending, isEvent entry.op = false)
  | _ => True

instance (setup : Setup) (lane : Lane) : (action : Action) → Decidable (Guarded setup lane action)
  | .copy _ remoteAddress bytes =>
    inferInstanceAs (Decidable (Sized setup remoteAddress bytes ∧
      (fillsFirst setup = true → ∀ entry ∈ lane.pending, isEvent entry.op = false)))
  | .wait _ | .join | .signal _ | .enqueue _ | .execute | .complete _ _ | .turn _ =>
    inferInstanceAs (Decidable True)

/-- A step without a failure, by a copy that is guarded if it is one. -/
def Smooth (setup : Setup) (lane after : Lane) : Prop :=
  ∃ action, Flawless action ∧ Guarded setup lane action ∧ next setup lane action = some after

/-! ## The invariant -/

/-- The pieces that the NIC has, and those whose completion is not polled yet. -/
def flying (inFlight : List Nat) (completions : List (Nat × Bool)) : List Nat :=
  inFlight ++ completions.map Prod.fst

/-- No piece is in two places, and a flag that is set is that of a landed piece. -/
structure Landing (phase : Phase) (landed : Nat → Bool) (retired posted : Nat)
    (inFlight : List Nat) (completions : List (Nat × Bool)) : Prop where
  calm : handling phase = false
  succeeded : ∀ completion ∈ completions, completion.2 = true
  distinct : (flying inFlight completions).Nodup
  within : ∀ chunk ∈ flying inFlight completions, retired ≤ chunk ∧ chunk < posted
  flags : ∀ slot, landed slot = true → ∃ chunk, retired ≤ chunk ∧ chunk < posted ∧
    chunk % piecesInFlight = slot ∧ chunk ∉ flying inFlight completions

/-- What the NIC's word promises of the ring and of the events recorded. -/
structure Turns (setup : Setup) (transfers : List Work) (nic device gate posted drained : Nat)
    (copies : List (Nat × Nat × Nat)) (recorded : List (Nat × Nat)) : Prop where
  device : device = drained
  opened : setup.stages = false → posted ≤ firstOf transfers gate
  emptied : fillsFirst setup = true → posted ≤ drained + setup.ringSlots
  filled : setup.toRemote = true → copies.length ≤ nic + setup.ringSlots
  taken : setup.toRemote = false → copies.length ≤ nic
  recorded : ∀ mark ∈ recorded, mark.2 ≤ nic

/-- The invariant of a lane that meets no failure. -/
structure Flow (setup : Setup) (lane : Lane) : Prop where
  whole : ∀ work ∈ lane.transfers, Whole setup work
  landing : Landing lane.thread.phase lane.chunkLanded lane.chunkRetired lane.chunkPosted
    lane.inFlight lane.completions
  turns : Turns setup lane.transfers lane.nic lane.device lane.gate lane.chunkPosted
    lane.drained lane.copies lane.recorded
  behind : Behind setup lane.nic (opsOf lane)
  tagged : Tagged setup lane.transfers lane.accepted lane.gate lane.drained lane.pending

theorem flow_new (setup : Setup) : Flow setup .new where
  whole := fun _ mem => by cases mem
  landing := ⟨rfl, (fun _ mem => by cases mem), List.nodup_nil, (fun _ mem => by cases mem),
    (fun _ wrong => by cases wrong)⟩
  turns := ⟨rfl, fun _ => Nat.zero_le _, fun _ => Nat.zero_le _, fun _ => Nat.zero_le _,
    fun _ => le_rfl, (fun _ mem => by cases mem)⟩
  behind := trivial
  tagged := ⟨List.Pairwise.nil, (fun _ mem => by cases mem), (fun _ mem => by cases mem),
    (fun _ mem => by cases mem), (fun _ mem => by cases mem), (fun _ mem => by cases mem),
    (fun _ _ mem => by cases mem)⟩

variable {setup : Setup} {lane after : Lane}

/-- The NIC's word is the count of retired pieces. -/
theorem nic_eq (inv : Inv setup lane) (flow : Flow setup lane) :
    lane.nic = lane.chunkRetired := by
  have nic := inv.retiring.nic
  rwa [quiet_of_calm flow.landing.calm, if_neg Bool.false_ne_true] at nic

/-- A smooth step is an orderly one. -/
theorem Flow.orderly (configured : Configured setup) (flow : Flow setup lane)
    {action : Action} (flawless : Flawless action)
    (guarded : Guarded setup lane action) : Orderly setup lane action := by
  have calm := flow.landing.calm
  cases action with
  | copy localAddress remoteAddress bytes =>
      exact fun _ => ⟨guarded.1.counted configured.pieceBytes, calm⟩
  | enqueue taken =>
      intro refused
      rw [flawless] at refused
      cases refused
  | turn taken =>
      have taken_ : taken = true := flawless
      constructor
      · intro refused
        rw [taken_] at refused
        cases refused
      · intro _ fails
        rcases fails with refused | failed
        · rw [taken_] at refused
          cases refused
        · unfold failedHead at failed
          cases completions : lane.completions with
          | nil => simp [completions] at failed
          | cons head rest =>
              have succeeded := flow.landing.succeeded head
                (by rw [completions]; exact List.mem_cons_self)
              rcases head with ⟨chunk, success⟩
              have same : success = true := succeeded
              rw [completions, same] at failed
              cases failed
      · intro stores
        cases phase : lane.thread.phase with
        | storingDevice planned accepted =>
            rw [phase] at calm
            cases calm
        | _ =>
            rw [phase] at stores
            cases stores
  | _ => trivial

/-! ## The caller -/

theorem Flow.call (inv : Inv setup lane) (flow : Flow setup lane) {ops : List StreamOp}
    (passive : ∀ op ∈ ops, Passive op) (behind : Behind setup 0 ops)
    (called : call lane ops = some after) : Flow setup after := by
  unfold RemoteLane.call at called
  split at called
  · rename_i idle
    cases called
    refine { flow with behind := ?_, tagged := ?_ }
    · rw [opsOf_call idle]
      exact flow.behind.append behind
    · have drained := inv.pending.bounded
      rw [← inv.history.total] at drained
      have appended := flow.tagged.append passive inv.words.gate_le drained
      show Tagged setup lane.transfers lane.accepted lane.gate lane.drained
        (lane.stream ++ issue lane ops)
      unfold Lane.pending at appended
      rw [idle, List.append_nil] at appended
      exact appended
  · cases called

/-- The transfer of a sized copy is whole. -/
theorem whole_of_sized (configured : Configured setup)
    {localAddress remoteAddress bytes first handle : Nat}
    (sized : Sized setup remoteAddress bytes) :
    Whole setup ⟨localAddress, remoteAddress - setup.reservation, bytes,
      chunkCount setup bytes, first, handle⟩ := by
  refine ⟨?_, sized.length⟩
  have count := chunkCount_eq configured.pieceBytes sized.rounding
  rwa [Nat.mod_eq_of_lt sized.pieces] at count

theorem Flow.publish (configured : Configured setup) (inv : Inv setup lane)
    (flow : Flow setup lane) {localAddress remoteAddress bytes : Nat}
    (sized : Sized setup remoteAddress bytes) (idle : lane.calling = [])
    (free : fillsFirst setup = true → ∀ entry ∈ lane.pending, isEvent entry.op = false) :
    Flow setup (publish setup lane localAddress remoteAddress bytes) := by
  have length := inv.history.length
  refine { whole := ?_, landing := flow.landing, turns := ?_, behind := ?_, tagged := ?_ }
  · intro work mem
    rcases List.mem_append.mp mem with old | new
    · exact flow.whole work old
    · rw [List.mem_singleton.mp new]
      exact whole_of_sized configured sized
  · refine { flow.turns with opened := ?_ }
    intro direct
    have gate := inv.words.gate_le
    show lane.chunkPosted ≤ firstOf (lane.transfers ++ [_]) lane.gate
    rw [firstOf_append (length.symm ▸ gate)]
    exact flow.turns.opened direct
  · rw [opsOf_publish idle]
    exact flow.behind.append (behind_copyOps _)
  · let work : Work := ⟨localAddress, remoteAddress - setup.reservation, bytes,
      chunkCount setup bytes, lane.chunksPlanned, lane.accepted + 1⟩
    have first : work.firstChunk = lane.chunksPlanned := rfl
    have handle : work.handle = lane.accepted + 1 := rfl
    have published := flow.tagged.publish inv.history handle first
      inv.words.gate_le inv.pending.bounded free
    unfold Lane.pending at published
    rw [idle, List.append_nil] at published
    exact published

theorem Flow.enqueue (flow : Flow setup lane)
    (called : enqueue lane true = some after) : Flow setup after := by
  unfold RemoteLane.enqueue at called
  cases calling : lane.calling with
  | nil =>
      rw [calling] at called
      cases called
  | cons entry rest =>
      rw [calling] at called
      cases called
      have same : (lane.stream ++ [entry]) ++ rest = lane.pending := by
        unfold Lane.pending
        rw [calling, List.append_assoc]
        rfl
      refine { flow with behind := ?_, tagged := ?_ }
      · have behind := flow.behind
        unfold opsOf at behind ⊢
        rw [← same] at behind
        exact behind
      · have tagged := flow.tagged
        rw [← same] at tagged
        exact tagged

/-! ## The route stream and the NIC -/

/-- The next copy across the ring is numbered by how many were made. -/
theorem next_copy {transfers : List Work} {planned gate drained chunk localAddress bytes : Nat}
    {copied : List (Nat × Nat × Nat)} {rest : List StreamOp}
    (pending : Pending setup transfers planned gate drained copied
      (.copyAcross chunk localAddress bytes :: rest))
    (numbered : (copyPlan setup transfers).map Prod.fst = List.range planned) :
    chunk = copied.length := by
  have copies : copied ++ (chunk, localAddress, bytes) :: rest.filterMap copiedOf =
      if setup.stages then copyPlan setup transfers else [] := pending.copies
  cases stages : setup.stages with
  | false => simp [stages] at copies
  | true =>
      rw [stages, if_pos rfl] at copies
      rw [← copies, List.map_append, List.map_cons] at numbered
      have at_ := congrArg (fun list => list[copied.length]?) numbered
      rw [List.getElem?_append_right (by rw [List.length_map]), List.length_map, Nat.sub_self,
        List.getElem?_cons_zero] at at_
      obtain ⟨_, same⟩ := List.getElem?_eq_some_iff.mp at_.symm
      rw [List.getElem_range] at same
      exact same.symm

theorem Flow.execute (inv : Inv setup lane) (flow : Flow setup lane)
    (executed : execute lane = some after) : Flow setup after := by
  unfold RemoteLane.execute at executed
  cases stream : lane.stream with
  | nil =>
      rw [stream] at executed
      cases executed
  | cons entry rest =>
      rw [stream] at executed
      dsimp only at executed
      split at executed
      · rename_i passing
        cases executed
        have pending := inv.pending
        have behind := flow.behind
        have tagged := flow.tagged
        have split : lane.pending = entry :: (rest ++ lane.calling) := by
          unfold Lane.pending
          rw [stream]
          rfl
        rw [opsOf_cons stream] at pending behind
        rw [split] at tagged
        have demanded := behind.1
        have left : Behind setup lane.nic (opsOf { lane with stream := rest }) := by
          apply behind.tail
          intro value op
          unfold passes at passing
          rw [op] at passing
          exact of_decide_eq_true passing
        have moved : Flow setup { lane with stream := rest } :=
          { flow with behind := left, tagged := tagged.tail }
        cases op : entry.op with
        | waitEvent event => exact moved
        | waitValue reached => exact moved
        | recordEvent event planned =>
            refine { moved with turns := { moved.turns with recorded := ?_ } }
            intro mark mem
            rcases List.mem_append.mp mem with old | new
            · exact flow.turns.recorded mark old
            · rw [List.mem_singleton.mp new]
              rw [op] at demanded
              exact demanded
        | copyAcross chunk localAddress bytes =>
            rw [op] at pending demanded
            have number := next_copy pending inv.history.copies_numbered
            refine { moved with turns := { moved.turns with filled := ?_, taken := ?_ } }
            · intro remote
              rw [demand_evict remote] at demanded
              show (lane.copies ++ [_]).length ≤ lane.nic + setup.ringSlots
              rw [List.length_append, List.length_singleton]
              omega
            · intro remote
              rw [demand_fetch remote] at demanded
              show (lane.copies ++ [_]).length ≤ lane.nic
              rw [List.length_append, List.length_singleton]
              omega
        | writeDevice reached =>
            rw [op] at pending
            rcases pending.device_tail inv.history.copies_numbered with ⟨stages, same, _⟩
            have stored := tagged.device_tail op
            rw [same] at stored ⊢
            refine { moved with turns := ?_, tagged := stored }
            refine { moved.turns with device := rfl, emptied := ?_ }
            intro fills
            have emptied := flow.turns.emptied fills
            show lane.chunkPosted ≤ lane.drained + 1 + setup.ringSlots
            omega
        | writeGate handle =>
            rw [op] at pending
            rcases pending.gate_tail with ⟨direct, same, _⟩
            refine { moved with turns := ?_, tagged := tagged.gate_tail op }
            refine { moved.turns with opened := fun _ => ?_ }
            have opened := flow.turns.opened direct
            show lane.chunkPosted ≤ firstOf lane.transfers handle
            exact opened.trans (firstOf_mono (by omega))
      · cases executed

theorem Flow.complete (flow : Flow setup lane) {chunk : Nat}
    (completed : complete lane chunk true = some after) : Flow setup after := by
  unfold RemoteLane.complete at completed
  split at completed
  · rename_i mem
    cases completed
    have moved : (flying (lane.inFlight.erase chunk) (lane.completions ++ [(chunk, true)])).Perm
        (flying lane.inFlight lane.completions) := by
      unfold flying
      rw [List.map_append, ← List.append_assoc]
      apply (List.perm_append_singleton _ _).trans
      apply (List.Perm.append_right (lane.completions.map Prod.fst)
        (List.perm_cons_erase mem)).symm
    have landing := flow.landing
    refine { flow with landing := ⟨landing.calm, ?_, ?_, ?_, ?_⟩ }
    · intro completion inside
      rcases List.mem_append.mp inside with old | new
      · exact landing.succeeded completion old
      · rw [List.mem_singleton.mp new]
    · exact moved.nodup_iff.mpr landing.distinct
    · intro other inside
      exact landing.within other (moved.mem_iff.mp inside)
    · intro slot set
      obtain ⟨other, low, high, here, landed⟩ := landing.flags slot set
      exact ⟨other, low, high, here, fun inside => landed (moved.mem_iff.mp inside)⟩
  · cases completed

/-! ## The lane's thread -/

/-- The thread's own variables matter for its phase alone. -/
theorem Flow.rethread (flow : Flow setup lane) {thread : Thread}
    (calm : handling thread.phase = false) : Flow setup { lane with thread := thread } :=
  { flow with landing := { flow.landing with calm := calm } }

theorem Flow.endRound (flow : Flow setup lane) (retired : Bool) :
    Flow setup (endRound lane retired) := by
  unfold RemoteLane.endRound
  split
  · exact flow.rethread rfl
  · split
    · exact flow.rethread rfl
    · exact flow.rethread rfl

/-- A flag that is set for a piece of the window is that of a landed piece. -/
theorem landed_of_flag (inv : Inv setup lane) (flow : Flow setup lane) {chunk : Nat}
    (low : lane.chunkRetired ≤ chunk) (high : chunk < lane.chunkRetired + piecesInFlight)
    (flag : lane.chunkLanded (chunk % piecesInFlight) = true) :
    chunk < lane.chunkPosted ∧ chunk ∉ flying lane.inFlight lane.completions := by
  have narrow := inv.window.narrow
  obtain ⟨other, otherLow, otherHigh, here, landed⟩ := flow.landing.flags _ flag
  have same : other = chunk := by
    rcases Nat.lt_trichotomy other chunk with less | same | more
    · exact absurd here (slots_ne less (by omega))
    · exact same
    · exact absurd here.symm (slots_ne more (by omega))
  subst same
  exact ⟨otherHigh, landed⟩

theorem Flow.post (inv : Inv setup lane) (flow : Flow setup lane) (posting : lane.thread.phase = .posting)
    (may : canPost setup lane = true) : Flow setup (post setup lane) := by
  have awake : lane.thread.phase ≠ .idle := by
    rw [posting]
    simp
  unfold canPost at may
  simp only [Bool.and_eq_true, decide_eq_true_eq] at may
  obtain ⟨⟨more, room⟩, ready⟩ := may
  have known := currentWork_known inv awake more
  have landing := flow.landing
  have turns := flow.turns
  have ordered := inv.retiring.ordered
  have taken := inv.standing.taken awake
  have upper := inv.position.upper
  rw [current_awake awake] at upper
  have upper := upper (by omega)
  have fresh : lane.chunkPosted ∉ flying lane.inFlight lane.completions := fun mem =>
    absurd (landing.within _ mem).2 (lt_irrefl _)
  have moved : (flying (lane.inFlight ++ [lane.chunkPosted]) lane.completions).Perm
      (lane.chunkPosted :: flying lane.inFlight lane.completions) := by
    unfold flying
    rw [List.append_assoc]
    exact List.perm_middle
  refine { flow with landing := ⟨?_, landing.succeeded, ?_, ?_, ?_⟩, turns := ?_ }
  · show handling lane.thread.phase = false
    exact landing.calm
  · exact moved.nodup_iff.mpr (List.nodup_cons.mpr ⟨fresh, landing.distinct⟩)
  · intro chunk mem
    show lane.chunkRetired ≤ chunk ∧ chunk < lane.chunkPosted + 1
    rcases List.mem_cons.mp (moved.mem_iff.mp mem) with same | old
    · omega
    · have within := landing.within chunk old
      omega
  · intro slot set
    obtain ⟨chunk, low, high, here, landed⟩ := landing.flags slot set
    refine ⟨chunk, low, high.trans (Nat.lt_succ_self _), here, ?_⟩
    intro mem
    rcases List.mem_cons.mp (moved.mem_iff.mp mem) with same | old
    · omega
    · exact landed old
  · refine { turns with opened := ?_, emptied := ?_ }
    · intro direct
      unfold mayPost at ready
      rw [direct, if_neg Bool.false_ne_true, decide_eq_true_eq,
        (inv.history.numbered _ _ known).1] at ready
      have below := @firstOf_mono lane.transfers _ _ ready
      show lane.chunkPosted + 1 ≤ firstOf lane.transfers lane.gate
      omega
    · intro fills
      have both := fills
      unfold fillsFirst at both
      simp only [Bool.and_eq_true, Bool.not_eq_true'] at both
      unfold mayPost stageReady at ready
      rw [both.1, both.2, if_pos rfl, if_neg Bool.false_ne_true] at ready
      simp only [Bool.or_eq_true, decide_eq_true_eq] at ready
      have device := turns.device
      show lane.chunkPosted + 1 ≤ lane.drained + setup.ringSlots
      omega

/-- A polled completion sets the flag of its piece, which lands. -/
theorem Flow.poll (flow : Flow setup lane) {chunk : Nat} {rest : List (Nat × Bool)}
    (head : lane.completions = (chunk, true) :: rest) :
    Flow setup { lane with
      completions := rest
      chunkLanded := Function.update lane.chunkLanded (chunk % piecesInFlight) true } := by
  have landing := flow.landing
  have moved : (flying lane.inFlight lane.completions).Perm
      (chunk :: flying lane.inFlight rest) := by
    rw [head]
    exact List.perm_middle
  have distinct := List.nodup_cons.mp (moved.nodup_iff.mp landing.distinct)
  have older : ∀ other ∈ flying lane.inFlight rest,
      other ∈ flying lane.inFlight lane.completions := fun other mem =>
    moved.mem_iff.mpr (List.mem_cons_of_mem _ mem)
  have here := landing.within chunk (moved.mem_iff.mpr List.mem_cons_self)
  refine { flow with landing := ⟨landing.calm, ?_, distinct.2, ?_, ?_⟩ }
  · intro completion mem
    apply landing.succeeded completion
    rw [head]
    exact List.mem_cons_of_mem _ mem
  · exact fun other mem => landing.within other (older other mem)
  · intro slot set
    by_cases same : slot = chunk % piecesInFlight
    · exact ⟨chunk, here.1, here.2, same.symm, distinct.1⟩
    · have before : lane.chunkLanded slot = true := by
        dsimp only at set
        rwa [Function.update_of_ne same] at set
      obtain ⟨other, low, high, at_, landed⟩ := landing.flags slot before
      exact ⟨other, low, high, at_, fun mem => landed (older other mem)⟩

/-- A higher word of the NIC keeps what the stream was promised. -/
theorem Turns.rise {transfers : List Work} {nic more device gate posted drained : Nat}
    {copies : List (Nat × Nat × Nat)} {recorded : List (Nat × Nat)}
    (turns : Turns setup transfers nic device gate posted drained copies recorded)
    (higher : nic ≤ more) :
    Turns setup transfers more device gate posted drained copies recorded :=
  { turns with
    filled := fun remote => (turns.filled remote).trans (Nat.add_le_add_right higher _)
    taken := fun remote => (turns.taken remote).trans higher
    recorded := fun mark mem => (turns.recorded mark mem).trans higher }

/-- The retiring loop retires landed pieces. -/
theorem Flow.retire (inv : Inv setup lane) (flow : Flow setup lane)
    (collecting : lane.thread.phase = .collecting) : Flow setup (retireReady lane) := by
  obtain ⟨count, landed, result, bound, fewer, kept, taken, _⟩ :=
    retireReady_spec inv collecting
  rw [result]
  apply Flow.endRound
  have landing := flow.landing
  have nic := nic_eq inv flow
  have narrow := inv.window.narrow
  have higher : lane.nic ≤ lane.chunkRetired + count := by omega
  refine ⟨flow.whole, ⟨landing.calm, landing.succeeded, landing.distinct, ?_, ?_⟩,
    flow.turns.rise higher, flow.behind.mono higher, flow.tagged⟩
  · intro chunk mem
    have within := landing.within chunk mem
    refine ⟨?_, within.2⟩
    show lane.chunkRetired + count ≤ chunk
    by_contra early
    have flag := (taken chunk within.1 (by omega)).1
    exact (landed_of_flag inv flow within.1 (by omega) flag).2 mem
  · intro slot set
    obtain ⟨chunk, low, high, here, gone⟩ := landing.flags slot (fewer slot set)
    refine ⟨chunk, ?_, high, here, gone⟩
    show lane.chunkRetired + count ≤ chunk
    by_contra early
    have cleared := (taken chunk low (by omega)).2
    rw [here] at cleared
    have wrong : landed slot = true := set
    rw [cleared] at wrong
    cases wrong

theorem Flow.settle (inv : Inv setup lane) (flow : Flow setup lane)
    (settling : lane.thread.phase = .settling false) : Flow setup (settle lane false) := by
  have taken := inv.standing.taken (by rw [settling]; simp)
  have retired_le := inv.counts.retired_le
  rcases retireTransfers_spec (lane.thread.started - lane.retired)
    { lane with
      queued := lane.queued - (lane.thread.started - lane.started)
      started := lane.thread.started } inv.history inv.ring
    (by simp only; omega) inv.retiring.done with ⟨count, result, _⟩
  unfold RemoteLane.settle
  dsimp only at result ⊢
  rw [result, if_neg Bool.false_ne_true]
  exact { flow with landing := { flow.landing with calm := rfl } }

theorem Flow.turn (inv : Inv setup lane) (flow : Flow setup lane)
    (turned : turn setup lane true = some after) :
    Flow setup after := by
  have calm := flow.landing.calm
  unfold RemoteLane.turn at turned
  cases phase : lane.thread.phase with
  | idle =>
      rw [phase] at turned
      dsimp only at turned
      split at turned
      · cases turned
      · cases turned
        exact flow.rethread rfl
  | posting =>
      rw [phase] at turned
      cases turned
      unfold postTurn
      split
      · rename_i may
        rw [if_pos rfl]
        exact flow.post inv phase may
      · split
        · exact flow.rethread rfl
        · exact flow.endRound false
  | collecting =>
      rw [phase] at turned
      cases turned
      unfold collectTurn
      rw [if_pos rfl]
      cases completions : lane.completions with
      | nil => exact flow.retire inv phase
      | cons head rest =>
          rcases head with ⟨chunk, success⟩
          have succeeded : success = true := flow.landing.succeeded (chunk, success)
            (by rw [completions]; exact List.mem_cons_self)
          subst succeeded
          exact flow.poll completions
  | settling failed =>
      rw [phase] at turned calm
      have same : failed = false := calm
      subst same
      cases turned
      exact flow.settle inv phase
  | _ =>
      rw [phase] at calm
      cases calm

/-! ## Every smooth step -/

/-- A smooth step keeps both invariants. -/
theorem Smooth.keeps (configured : Configured setup) (inv : Inv setup lane)
    (flow : Flow setup lane) (step : Smooth setup lane after) :
    Inv setup after ∧ Flow setup after := by
  obtain ⟨action, flawless, guarded, stepped⟩ := step
  refine ⟨next_inv configured inv (flow.orderly configured flawless guarded) stepped, ?_⟩
  cases action with
  | wait event =>
      have passive : ∀ op ∈ [StreamOp.waitEvent event], Passive op := by
        intro op mem
        rw [List.mem_singleton.mp mem]
        exact ⟨rfl, rfl, rfl⟩
      exact flow.call inv passive ⟨le_rfl, trivial⟩ stepped
  | copy localAddress remoteAddress bytes =>
      unfold next at stepped
      dsimp only at stepped
      split at stepped
      · rename_i free
        cases stepped
        unfold copy
        split
        · exact { flow with }
        · exact flow.publish configured inv guarded.1 free.1 guarded.2
      · cases stepped
  | join => exact flow.call inv (fun _ => joinOps_passive) (behind_joinOps lane) stepped
  | signal event =>
      exact flow.call inv (fun _ => signalOps_passive) (behind_signalOps lane event) stepped
  | enqueue taken =>
      have same : taken = true := flawless
      subst same
      exact flow.enqueue stepped
  | execute => exact flow.execute inv stepped
  | complete chunk success =>
      have same : success = true := flawless
      subst same
      exact flow.complete stepped
  | turn taken =>
      have same : taken = true := flawless
      subst same
      exact flow.turn inv stepped

theorem keeps_of_run (configured : Configured setup) (inv : Inv setup lane)
    (flow : Flow setup lane) (run : Relation.ReflTransGen (Smooth setup) lane after) :
    Inv setup after ∧ Flow setup after := by
  induction run with
  | refl => exact ⟨inv, flow⟩
  | tail _ step ih => exact step.keeps configured ih.1 ih.2

/-- A step without a further call, and without a failure, is smooth. -/
theorem smooth_of_advance (advance : Advance setup lane after) : Smooth setup lane after := by
  obtain ⟨action, own, stepped⟩ := advance
  refine ⟨action, ?_, ?_, stepped⟩
  · cases own <;> first | rfl | trivial
  · cases own <;> trivial

/-! ## What the pipeline keeps -/

/-- The NIC has completed a piece, which did not fail. -/
def Landed (lane : Lane) (chunk : Nat) : Prop :=
  chunk < lane.chunkPosted ∧ chunk ∉ lane.inFlight

/-- The waits that hold back the copies issued after them.  Where the NIC fills the ring
first, the lane's own waits only hold back the copies across the ring. -/
def holdsBack (setup : Setup) : StreamOp → Bool
  | .waitEvent _ => true
  | .waitValue _ => !fillsFirst setup
  | _ => false

/-- Every byte moves once and in order, and nothing stalls. -/
structure Piped (setup : Setup) (lane : Lane) : Prop where
  /-- The pieces posted are the first ones of all the accepted transfers' pieces. -/
  posted : lane.requests = (plan setup lane.transfers).take lane.chunkPosted
  copied : setup.stages = true →
    lane.copies = (copyPlan setup lane.transfers).take lane.copies.length
  tiled : ∀ work ∈ lane.transfers, Tiled setup work
  /-- While a wait queued ahead of a copy has not passed, no piece of it is posted. -/
  behind : ∀ (count : Nat) (work : Work), lane.transfers[count]? = some work →
    ∀ entry ∈ lane.pending, holdsBack setup entry.op = true → entry.issued ≤ count →
      ∀ request ∈ lane.requests, request.chunk < work.firstChunk
  /-- The device fills a slot after the NIC has read its last piece, and the NIC reads it
  after the device has filled it. -/
  evicts : setup.stages = true → setup.toRemote = true →
    (∀ copy ∈ lane.copies, ∀ chunk < copy.1,
      stageSlot setup chunk = stageSlot setup copy.1 → Landed lane chunk) ∧
    ∀ request ∈ lane.requests, request.chunk < lane.drained
  /-- The NIC fills a slot after the device has drained its last piece, and the device
  reads it after the NIC has filled it. -/
  fetches : setup.stages = true → setup.toRemote = false →
    (∀ copy ∈ lane.copies, Landed lane copy.1) ∧
    ∀ request ∈ lane.requests, ∀ chunk < request.chunk,
      stageSlot setup chunk = stageSlot setup request.chunk → chunk < lane.drained
  rises : ∀ after, Smooth setup lane after → lane.nic ≤ after.nic
  landed : ∀ chunk < lane.nic, Landed lane chunk
  recorded : ∀ mark ∈ lane.recorded, ∀ chunk < mark.2, Landed lane chunk
  /-- Without a further call everything drains, with every piece posted. -/
  drains : ∃ after, Relation.ReflTransGen (Advance setup) lane after ∧ Drained after ∧
    after.transfers = lane.transfers ∧ after.requests = plan setup lane.transfers

theorem landed_of_lt_nic (inv : Inv setup lane) (flow : Flow setup lane) {chunk : Nat}
    (below : chunk < lane.nic) : Landed lane chunk := by
  have nic := nic_eq inv flow
  have ordered := inv.retiring.ordered
  refine ⟨by omega, ?_⟩
  intro mem
  have within := flow.landing.within chunk (List.mem_append_left _ mem)
  omega

/-- The pieces are posted at their full length. -/
theorem requests_eq (inv : Inv setup lane) (flow : Flow setup lane) :
    lane.requests = (plan setup lane.transfers).take lane.chunkPosted := by
  have full : ∀ request ∈ (plan setup lane.transfers).take lane.chunkPosted,
      cut request = request := by
    intro request mem
    obtain ⟨work, accepted, piece⟩ := List.mem_flatMap.mp (List.mem_of_mem_take mem)
    obtain ⟨index, _, rfl⟩ := List.mem_map.mp piece
    exact (flow.whole work accepted).cut_eq index
  rw [inv.requests, List.map_congr_left full, List.map_id']

/-- The requests made are those for the pieces below the posted count. -/
theorem request_lt (inv : Inv setup lane) {request : Request} (mem : request ∈ lane.requests) :
    request.chunk < lane.chunkPosted := by
  rw [inv.requests] at mem
  obtain ⟨full, taken, rfl⟩ := List.mem_map.mp mem
  obtain ⟨index, bound, same⟩ := List.mem_iff_getElem.mp taken
  rw [List.length_take] at bound
  rw [List.getElem_take] at same
  have inside : index < (plan setup lane.transfers).length := by omega
  have known : (plan setup lane.transfers)[index]? = some full := by
    rw [List.getElem?_eq_getElem inside, same]
  rw [length_plan] at inside
  obtain ⟨count, work, place, isWork, within, split⟩ := locate inside
  rw [split, plan_at isWork within] at known
  have number : work.firstChunk + place = full.chunk :=
    congrArg Request.chunk (Option.some.inj known)
  have first := (inv.history.numbered count work isWork).2
  show full.chunk < lane.chunkPosted
  omega

/-- A wait that holds copies back is ahead of every piece posted. -/
theorem posted_le_of_wait (inv : Inv setup lane) (flow : Flow setup lane) {entry : Entry}
    (mem : entry ∈ lane.pending) (holds : holdsBack setup entry.op = true) :
    lane.chunkPosted ≤ firstOf lane.transfers entry.issued := by
  have tagged := flow.tagged
  cases stages : setup.stages with
  | false =>
      have opened := flow.turns.opened stages
      exact opened.trans (firstOf_mono (tagged.opened entry mem))
  | true =>
      cases remote : setup.toRemote with
      | true =>
          have filled := (inv.words.filled stages remote).2
          exact filled.trans (tagged.drained entry mem)
      | false =>
          have fills : fillsFirst setup = true := by
            unfold fillsFirst
            rw [stages, remote]
            rfl
          have event : isEvent entry.op = true := by
            cases op : entry.op <;> rw [op] at holds <;> simp_all [holdsBack, isEvent]
          rw [tagged.events fills entry mem event, inv.history.total]
          exact inv.position.planned

/-- An earlier piece of the same slot is at least a ring away. -/
theorem slot_apart {chunk other : Nat} (less : chunk < other)
    (same : stageSlot setup chunk = stageSlot setup other) :
    chunk + setup.ringSlots ≤ other := by
  by_contra near
  exact slots_ne less (by omega) same

/-- The copies made are those for the pieces below their count. -/
theorem copied_lt (inv : Inv setup lane) (stages : setup.stages = true)
    {copy : Nat × Nat × Nat} (mem : copy ∈ lane.copies) : copy.1 < lane.copies.length := by
  have copies := inv.pending.copies
  rw [stages, if_pos rfl] at copies
  have numbered := inv.history.copies_numbered
  rw [← copies, List.map_append] at numbered
  obtain ⟨index, bound, same⟩ := List.mem_iff_getElem.mp mem
  have at_ := congrArg (fun list => list[index]?) numbered
  rw [List.getElem?_append_left (by rwa [List.length_map]), List.getElem?_map,
    List.getElem?_eq_getElem bound, same] at at_
  obtain ⟨_, number⟩ := List.getElem?_eq_some_iff.mp at_.symm
  rw [List.getElem_range] at number
  omega

theorem piped_of_inv (configured : Configured setup) (inv : Inv setup lane)
    (flow : Flow setup lane) : Piped setup lane where
  posted := requests_eq inv flow
  copied := by
    intro stages
    have copies := inv.pending.copies
    rw [stages, if_pos rfl] at copies
    rw [← copies, List.take_left']
    rfl
  tiled := fun work mem =>
    (inv.history.sized work mem).tiled configured.pieceBytes (flow.whole work mem)
  behind := by
    intro count work known entry mem holds ahead request made
    have posted := posted_le_of_wait inv flow mem holds
    have first := (inv.history.numbered count work known).2
    rw [first]
    exact lt_of_lt_of_le (request_lt inv made) (posted.trans (firstOf_mono ahead))
  evicts := by
    intro stages remote
    constructor
    · intro copy mem chunk less same
      apply landed_of_lt_nic inv flow
      have bound := copied_lt inv stages mem
      have filled := flow.turns.filled remote
      have apart := slot_apart less same
      omega
    · intro request mem
      exact lt_of_lt_of_le (request_lt inv mem) (inv.words.filled stages remote).2
  fetches := by
    intro stages remote
    constructor
    · intro copy mem
      apply landed_of_lt_nic inv flow
      exact lt_of_lt_of_le (copied_lt inv stages mem) (flow.turns.taken remote)
    · intro request mem chunk less same
      have fills : fillsFirst setup = true := by
        unfold fillsFirst
        rw [stages, remote]
        rfl
      have bound := request_lt inv mem
      have emptied := flow.turns.emptied fills
      have apart := slot_apart less same
      omega
  rises := by
    rintro after ⟨action, flawless, guarded, stepped⟩
    exact (step_rises inv ⟨action, flow.orderly configured flawless guarded, stepped⟩).nic
  landed := fun _ below => landed_of_lt_nic inv flow below
  recorded := by
    intro mark mem chunk below
    apply landed_of_lt_nic inv flow
    exact lt_of_lt_of_le below (flow.turns.recorded mark mem)
  drains := by
    obtain ⟨after, advances, drained, transfers, _⟩ := drains configured inv
    have smooth : Relation.ReflTransGen (Smooth setup) lane after :=
      (Relation.ReflTransGen.mono fun _ _ advance => smooth_of_advance advance) _ _ advances
    obtain ⟨last, flowing⟩ := keeps_of_run configured inv flow smooth
    refine ⟨after, advances, drained, transfers, ?_⟩
    have done := last.retiring.done
    have ordered := last.retiring.ordered
    have planned := last.position.planned
    rw [drained.retired, last.history.total] at done
    have whole : after.chunkPosted = (plan setup after.transfers).length := by
      rw [length_plan, last.history.length, last.history.total]
      omega
    rw [requests_eq last flowing, whole, List.take_length, transfers]

/-- In every run without a failure whose copies are guarded, the pipeline moves every byte
once and in order and cannot stall. -/
theorem piped_of_run (configured : Configured setup)
    (run : Relation.ReflTransGen (Smooth setup) .new lane) : Piped setup lane := by
  obtain ⟨inv, flow⟩ := keeps_of_run configured (inv_new setup) (flow_new setup) run
  exact piped_of_inv configured inv flow

/-! ## A staged fetch -/

/-- A lane that fetches through a ring of two slots of four bytes. -/
def stagedFetch : Setup where
  stages := true
  toRemote := false
  pieceBytes := 4
  ringSlots := 2
  sendDepth := 16
  reservation := 0
  capacity := 100

theorem stagedFetch_configured : Configured stagedFetch := by
  constructor <;> decide

/-- A run on given actions, as long as each is smooth. -/
def smoothRun (setup : Setup) (lane : Lane) : List Action → Option Lane
  | [] => some lane
  | action :: rest =>
    if Flawless action ∧ Guarded setup lane action then
      (next setup lane action).bind fun after => smoothRun setup after rest
    else none

theorem smooth_of_run (actions : List Action)
    (ran : smoothRun setup lane actions = some after) :
    Relation.ReflTransGen (Smooth setup) lane after := by
  induction actions generalizing lane with
  | nil =>
      cases ran
      exact .refl
  | cons action rest ih =>
      unfold smoothRun at ran
      split at ran
      · rename_i both
        obtain ⟨middle, stepped, later⟩ := Option.bind_eq_some_iff.mp ran
        exact .head ⟨action, both.1, both.2, stepped⟩ (ih later)
      · cases ran

/-- A wait has passed when the copy of three pieces is given; the NIC fills both slots,
and the first is drained and filled again. -/
def fetchesThree : List Action :=
  [.wait 5, .enqueue true, .execute, .copy 1000 8 10] ++
    List.replicate 9 (.enqueue true) ++ [.signal 7, .enqueue true, .enqueue true] ++
    [.turn true, .turn true, .turn true, .complete 1 true, .complete 0 true] ++
    List.replicate 5 (.turn true) ++ List.replicate 3 .execute ++
    List.replicate 3 (.turn true)

theorem piped_three : ∃ lane, smoothRun stagedFetch .new fetchesThree = some lane ∧
    lane.chunkPosted = 3 ∧ Piped stagedFetch lane := by
  have ran : smoothRun stagedFetch .new fetchesThree =
      some ((smoothRun stagedFetch .new fetchesThree).getD .new) := rfl
  exact ⟨_, ran, by decide, piped_of_run stagedFetch_configured (smooth_of_run _ ran)⟩

/-- The copy is given while the wait is queued: its first piece is posted before that. -/
def fetchesEarly : List Action :=
  [.wait 5, .enqueue true, .copy 1000 8 10, .turn true, .turn true]

/-- A staged fetch does not wait for what protects its source. -/
theorem fetches_early : ¬ ∀ (setup : Setup) (actions : List Action) (lane : Lane),
    Configured setup → (∀ action ∈ actions, Flawless action) →
      run setup .new actions = some lane → Piped setup lane := by
  intro all
  have ran : run stagedFetch .new fetchesEarly =
      some ((run stagedFetch .new fetchesEarly).getD .new) := rfl
  have piped := all stagedFetch fetchesEarly _ stagedFetch_configured (by decide) ran
  have queued : ⟨0, .waitEvent 5⟩ ∈
      ((run stagedFetch .new fetchesEarly).getD .new).pending := by decide
  have made : ∃ work request, ((run stagedFetch .new fetchesEarly).getD .new).transfers[0]? =
      some work ∧ request ∈ ((run stagedFetch .new fetchesEarly).getD .new).requests ∧
      ¬ request.chunk < work.firstChunk :=
    ⟨⟨1000, 8, 10, 3, 0, 1⟩, ⟨0, .ring 0, 4, 8⟩, by decide⟩
  obtain ⟨work, request, known, mem, early⟩ := made
  exact early (piped.behind 0 work known _ queued rfl le_rfl request mem)

end ShadowSpill.Network.LanePipeline
