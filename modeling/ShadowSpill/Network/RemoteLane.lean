import ShadowSpill.Library.Word64

/-!
# The remote lane

A copy is cut into pieces that are numbered over the lane's whole life.  The caller
publishes it and gives the route stream its side; the lane's thread posts pieces to the
NIC, reaps completions and retires pieces in order.  The parties meet in three words: the
thread stores the NIC's, the route stream stores the device's and the gate.  On the direct
path a piece is posted from the pool; under staging it crosses a ring of host memory.
-/

namespace ShadowSpill.Network.RemoteLane

open Library.Word64

/-- `WORK_SLOTS`. -/
def workSlots : Nat := 256

/-- `PIECES_IN_FLIGHT`. -/
def piecesInFlight : Nat := 128

/-- What is decided when the lane is made. -/
structure Setup where
  stages : Bool
  toRemote : Bool
  /-- The size of a ring slot under staging. -/
  pieceBytes : Nat
  ringSlots : Nat
  sendDepth : Nat
  /-- The remote pool's range. -/
  reservation : Nat
  capacity : Nat

/-! ## Transfers -/

/-- A transfer as the lane's thread sees it. -/
structure Work where
  localAddress : Nat
  remoteOffset : Nat
  bytes : Nat
  chunks : Nat
  firstChunk : Nat
  handle : Nat
  deriving DecidableEq, Repr

def Work.empty : Work where
  localAddress := 0
  remoteOffset := 0
  bytes := 0
  chunks := 0
  firstChunk := 0
  handle := 0

/-- The piece count is a 32-bit number. -/
def chunkCount (setup : Setup) (bytes : Nat) : Nat :=
  if bytes = 0 then 1
  else wrap (bytes + setup.pieceBytes - 1) / setup.pieceBytes % 2 ^ 32

/-- Where a piece starts in its transfer. -/
def pieceOffset (setup : Setup) (index : Nat) : Nat :=
  wrap (index * setup.pieceBytes)

def pieceLength (setup : Setup) (work : Work) (index : Nat) : Nat :=
  let left := wrapSub work.bytes (pieceOffset setup index)
  if left < setup.pieceBytes then left else setup.pieceBytes

/-! ## The route stream -/

/-- An operation on the route stream.  An event that is recorded carries, as history, how
many pieces had been planned when its signal was given. -/
inductive StreamOp where
  | waitEvent (event : Nat)
  /-- Wait until the NIC's word has reached a value. -/
  | waitValue (reached : Nat)
  /-- Copy between the pool and the piece's ring slot. -/
  | copyAcross (chunk localAddress bytes : Nat)
  | writeDevice (reached : Nat)
  | writeGate (handle : Nat)
  | recordEvent (event planned : Nat)
  deriving DecidableEq, Repr

/-- An operation, and as history how many copies had been accepted when it was issued. -/
structure Entry where
  issued : Nat
  op : StreamOp
  deriving DecidableEq, Repr

/-- The device's side of one piece. -/
def stagePiece (setup : Setup) (work : Work) (index : Nat) : List StreamOp :=
  let chunk := work.firstChunk + index
  let wait :=
    if setup.toRemote then
      if setup.ringSlots ≤ chunk then [.waitValue (chunk + 1 - setup.ringSlots)] else []
    else [.waitValue (chunk + 1)]
  wait ++ [.copyAcross chunk (wrap (work.localAddress + pieceOffset setup index))
      (pieceLength setup work index),
    .writeDevice (chunk + 1)]

/-- `remote_lane_stage_enqueue`. -/
def stageEnqueue (setup : Setup) (work : Work) : List StreamOp :=
  (List.range work.chunks).flatMap (stagePiece setup work)

/-- What a copy puts on the route stream. -/
def copyOps (setup : Setup) (work : Work) : List StreamOp :=
  if setup.stages then stageEnqueue setup work else [.writeGate work.handle]

/-! ## The NIC -/

/-- Where the NIC finds a piece on this machine. -/
inductive Place where
  | pool (address : Nat)
  | ring (slot : Nat)
  deriving DecidableEq, Repr

/-- A work request. -/
structure Request where
  chunk : Nat
  place : Place
  length : Nat
  remoteOffset : Nat
  deriving DecidableEq, Repr

/-- `remote_lane_stage_slot`. -/
def stageSlot (setup : Setup) (chunk : Nat) : Nat :=
  chunk % setup.ringSlots

/-- The request for a piece with a lane-global number. -/
def requestFor (setup : Setup) (work : Work) (chunk : Nat) : Request :=
  let index := wrapSub (wrap chunk) (wrap work.firstChunk)
  { chunk := chunk
    place :=
      if setup.stages then .ring (stageSlot setup chunk)
      else .pool (wrap (work.localAddress + pieceOffset setup index))
    length := pieceLength setup work index % 2 ^ 32
    remoteOffset := wrap (work.remoteOffset + pieceOffset setup index) }

/-! ## The state -/

/-- Where the lane's thread stands. -/
inductive Phase where
  /-- At the top of `lane_thread`. -/
  | idle
  /-- In the loop of `post_what_it_can`. -/
  | posting
  /-- In the loop of `collect_and_retire`. -/
  | collecting
  /-- At the start of `fail_everything`. -/
  | failing
  | storingNic (planned accepted : Nat)
  | storingDevice (planned accepted : Nat)
  | storingGate (accepted : Nat)
  | latching
  /-- After `pump`. -/
  | settling (failed : Bool)
  deriving DecidableEq, Repr

/-- The thread's own variables. -/
structure Thread where
  phase : Phase
  accepted : Nat
  started : Nat
  progressed : Bool
  posted : Bool

/-- The lane, its route stream and its queue pair, and what they have done. -/
structure Lane where
  nic : Nat
  device : Nat
  gate : Nat
  chunksPlanned : Nat
  chunkPosted : Nat
  chunkRetired : Nat
  chunkLanded : Nat → Bool
  queued : Nat
  workRing : Nat → Work
  accepted : Nat
  started : Nat
  retired : Nat
  failed : Bool
  thread : Thread
  /-- The device calls that the caller's current operation has left to make. -/
  calling : List Entry
  /-- Queued on the route stream, oldest first. -/
  stream : List Entry
  /-- Posted, without a completion. -/
  inFlight : List Nat
  /-- The completion queue: a piece, and whether it landed. -/
  completions : List (Nat × Bool)
  /-- The accepted transfers, in order. -/
  transfers : List Work
  /-- Every request that the NIC took. -/
  requests : List Request
  /-- Every copy across the ring that the device made: piece, address and length. -/
  copies : List (Nat × Nat × Nat)
  /-- How often the route stream has stored the device's word. -/
  drained : Nat
  /-- The events recorded, with the pieces planned when each signal was given. -/
  recorded : List (Nat × Nat)

/-- A new lane. -/
def Lane.new : Lane where
  nic := 0
  device := 0
  gate := 0
  chunksPlanned := 0
  chunkPosted := 0
  chunkRetired := 0
  chunkLanded := fun _ => false
  queued := 0
  workRing := fun _ => .empty
  accepted := 0
  started := 0
  retired := 0
  failed := false
  thread := ⟨.idle, 0, 0, false, false⟩
  calling := []
  stream := []
  inFlight := []
  completions := []
  transfers := []
  requests := []
  copies := []
  drained := 0
  recorded := []

/-- What the route stream still has to do. -/
def Lane.pending (lane : Lane) : List Entry :=
  lane.stream ++ lane.calling

def Lane.enter (lane : Lane) (phase : Phase) : Lane :=
  { lane with thread := { lane.thread with phase := phase } }

/-! ## The caller -/

/-- Operations issued now. -/
def issue (lane : Lane) (ops : List StreamOp) : List Entry :=
  ops.map fun op => ⟨lane.accepted, op⟩

/-- `claim_slot`, `plan_transfer` and `publish_slot` for a copy inside the remote pool. -/
def publish (setup : Setup) (lane : Lane) (localAddress remoteAddress bytes : Nat) : Lane :=
  let work : Work :=
    { localAddress := localAddress
      remoteOffset := remoteAddress - setup.reservation
      bytes := bytes
      chunks := chunkCount setup bytes
      firstChunk := lane.chunksPlanned
      handle := lane.accepted + 1 }
  { lane with
    workRing := Function.update lane.workRing (lane.accepted % workSlots) work
    chunksPlanned := lane.chunksPlanned + work.chunks
    queued := lane.queued + 1
    accepted := lane.accepted + 1
    calling := (copyOps setup work).map fun op => ⟨lane.accepted + 1, op⟩
    transfers := lane.transfers ++ [work] }

/-- A claimed slot whose transfer is refused only loses its handle. -/
def refuse (lane : Lane) : Lane :=
  let slot := lane.accepted % workSlots
  { lane with
    workRing := Function.update lane.workRing slot
      { lane.workRing slot with handle := 0 } }

/-- The remote end is not an address in the pool that the lane reaches. -/
abbrev Foreign (setup : Setup) (remoteAddress bytes : Nat) : Prop :=
  remoteAddress < setup.reservation ∨
    setup.capacity < wrap (remoteAddress - setup.reservation + bytes)

/-- `remote_copy`, up to its first device call. -/
def copy (setup : Setup) (lane : Lane) (localAddress remoteAddress bytes : Nat) : Lane :=
  if Foreign setup remoteAddress bytes then refuse lane
  else publish setup lane localAddress remoteAddress bytes

/-- The device calls of `remote_join`. -/
def joinOps (lane : Lane) : List StreamOp :=
  if lane.chunksPlanned = 0 then [] else [.waitValue lane.chunksPlanned]

/-- The device calls of `remote_signal`. -/
def signalOps (lane : Lane) (event : Nat) : List StreamOp :=
  joinOps lane ++ [.recordEvent event lane.chunksPlanned]

/-- The next device call of the current operation; a refused one ends the operation. -/
def enqueue (lane : Lane) (taken : Bool) : Option Lane :=
  match lane.calling with
  | [] => none
  | entry :: rest =>
    if taken then some { lane with calling := rest, stream := lane.stream ++ [entry] }
    else some { lane with calling := [] }

/-- What `remote_synchronize` returns, unless it is still waiting. -/
def synchronize (lane : Lane) : Option Int :=
  if lane.retired ≠ lane.accepted then none
  else if lane.failed then some (-1)
  else if lane.stream = [] then some 0
  else none

/-! ## The route stream and the NIC -/

/-- The effect of an operation that may run. -/
def perform (lane : Lane) : StreamOp → Lane
  | .waitEvent _ => lane
  | .waitValue _ => lane
  | .copyAcross chunk localAddress bytes =>
    { lane with copies := lane.copies ++ [(chunk, localAddress, bytes)] }
  | .writeDevice reached => { lane with device := reached, drained := lane.drained + 1 }
  | .writeGate handle => { lane with gate := handle }
  | .recordEvent event planned =>
    { lane with recorded := lane.recorded ++ [(event, planned)] }

/-- A value wait passes once its word is reached; an event wait passes when its event
completes, which may be at any step. -/
def passes (lane : Lane) : StreamOp → Bool
  | .waitValue reached => reached ≤ lane.nic
  | _ => true

/-- The oldest operation of the route stream runs. -/
def execute (lane : Lane) : Option Lane :=
  match lane.stream with
  | [] => none
  | entry :: rest =>
    if passes lane entry.op then some (perform { lane with stream := rest } entry.op)
    else none

/-- A posted piece completes. -/
def complete (lane : Lane) (chunk : Nat) (success : Bool) : Option Lane :=
  if chunk ∈ lane.inFlight then
    some { lane with
      inFlight := lane.inFlight.erase chunk
      completions := lane.completions ++ [(chunk, success)] }
  else none

/-! ## The lane's thread -/

/-- `outstanding_limit`. -/
def outstandingLimit (setup : Setup) : Nat :=
  if setup.stages then setup.ringSlots
  else if setup.sendDepth < piecesInFlight then setup.sendDepth else piecesInFlight

/-- `remote_lane_stage_ready`. -/
def stageReady (setup : Setup) (lane : Lane) (chunk : Nat) : Bool :=
  if setup.toRemote then chunk + 1 ≤ lane.device
  else chunk < setup.ringSlots || chunk - setup.ringSlots + 1 ≤ lane.device

/-- `may_post`. -/
def mayPost (setup : Setup) (lane : Lane) (work : Work) (chunk : Nat) : Bool :=
  if setup.stages then stageReady setup lane chunk else work.handle ≤ lane.gate

/-- The transfer that the thread is posting. -/
def currentWork (lane : Lane) : Work :=
  lane.workRing (lane.thread.started % workSlots)

/-- The thread takes the accepted count. -/
def wake (lane : Lane) : Lane :=
  { lane with thread := ⟨.posting, lane.accepted, lane.started, false, false⟩ }

/-- A piece goes to the NIC. -/
def post (setup : Setup) (lane : Lane) : Lane :=
  let work := currentWork lane
  let chunk := lane.chunkPosted
  { lane with
    chunkPosted := chunk + 1
    inFlight := lane.inFlight ++ [chunk]
    requests := lane.requests ++ [requestFor setup work chunk]
    thread := { lane.thread with
      posted := true
      started :=
        if chunk + 1 = work.firstChunk + work.chunks then lane.thread.started + 1
        else lane.thread.started } }

/-- The end of a round of `pump`, with whether pieces were retired in it. -/
def endRound (lane : Lane) (retired : Bool) : Lane :=
  if lane.thread.posted || retired then
    { lane with thread := { lane.thread with
        phase := .posting, progressed := true, posted := false } }
  else if lane.thread.progressed || lane.chunkPosted = lane.chunkRetired then
    lane.enter (.settling false)
  else lane.enter .posting

/-- May `post_what_it_can` post the next piece? -/
def canPost (setup : Setup) (lane : Lane) : Bool :=
  lane.thread.started < lane.thread.accepted &&
    lane.chunkPosted - lane.chunkRetired < outstandingLimit setup &&
    mayPost setup lane (currentWork lane) lane.chunkPosted

/-- A turn of the posting loop; the NIC takes a piece or refuses it. -/
def postTurn (setup : Setup) (lane : Lane) (taken : Bool) : Lane :=
  if canPost setup lane then
    if taken then post setup lane else lane.enter .failing
  else if lane.chunkPosted ≠ lane.chunkRetired then lane.enter .collecting
  else endRound lane false

/-- The retiring loop, with as many turns as there are posted pieces. -/
def retireChunks : Nat → Lane → Lane
  | 0, lane => lane
  | turns + 1, lane =>
    let slot := lane.chunkRetired % piecesInFlight
    if lane.chunkLanded slot then
      retireChunks turns { lane with
        chunkLanded := Function.update lane.chunkLanded slot false
        chunkRetired := lane.chunkRetired + 1 }
    else lane

/-- Retire in order, and report when anything was retired. -/
def retireReady (lane : Lane) : Lane :=
  let after := retireChunks (lane.chunkPosted - lane.chunkRetired) lane
  if after.chunkRetired ≠ lane.chunkRetired then
    endRound { after with nic := after.chunkRetired } true
  else endRound after false

/-- A turn of the collecting loop; the poll itself may fail. -/
def collectTurn (lane : Lane) (taken : Bool) : Lane :=
  if taken then
    match lane.completions with
    | [] => retireReady lane
    | (chunk, true) :: rest =>
      { lane with
        completions := rest
        chunkLanded := Function.update lane.chunkLanded (chunk % piecesInFlight) true }
    | (_, false) :: rest => { lane with completions := rest }.enter .failing
  else lane.enter .failing

/-- Retire the started transfers whose last piece is retired, or all of them after a
failure; there are as many turns as transfers to retire. -/
def retireTransfers (failed : Bool) : Nat → Lane → Lane
  | 0, lane => lane
  | turns + 1, lane =>
    let oldest := lane.workRing (lane.retired % workSlots)
    if !failed && lane.chunkRetired < oldest.firstChunk + oldest.chunks then lane
    else retireTransfers failed turns { lane with retired := lane.retired + 1 }

/-- The end of a turn of `lane_thread`, under the lock. -/
def settle (lane : Lane) (failed : Bool) : Lane :=
  let taken := { lane with
    queued := lane.queued - (lane.thread.started - lane.started)
    started := lane.thread.started }
  let retired := retireTransfers failed (taken.started - taken.retired) taken
  let released :=
    if failed then
      { retired with
        retired := retired.accepted
        started := retired.accepted
        chunkRetired := retired.chunkPosted }
    else retired
  released.enter .idle

/-- The next step of the lane's thread, unless it waits for work. -/
def turn (setup : Setup) (lane : Lane) (taken : Bool) : Option Lane :=
  match lane.thread.phase with
  | .idle =>
    if lane.started = lane.accepted ∧ lane.chunkPosted = lane.chunkRetired then none
    else some (wake lane)
  | .posting => some (postTurn setup lane taken)
  | .collecting => some (collectTurn lane taken)
  | .failing => some (lane.enter (.storingNic lane.chunksPlanned lane.accepted))
  | .storingNic planned accepted =>
    some ({ lane with nic := planned }.enter (.storingDevice planned accepted))
  | .storingDevice planned accepted =>
    some ({ lane with device := planned }.enter (.storingGate accepted))
  | .storingGate accepted => some ({ lane with gate := accepted }.enter .latching)
  | .latching => some ({ lane with failed := true }.enter (.settling true))
  | .settling failed => some (settle lane failed)

/-! ## Runs -/

/-- A step of one of the parties; what a device answers is part of it. -/
inductive Action where
  | wait (event : Nat)
  | copy (localAddress remoteAddress bytes : Nat)
  | join
  | signal (event : Nat)
  | enqueue (taken : Bool)
  | execute
  | complete (chunk : Nat) (success : Bool)
  | turn (taken : Bool)
  deriving DecidableEq, Repr

/-- A call starts after the one before has returned. -/
def call (lane : Lane) (ops : List StreamOp) : Option Lane :=
  if lane.calling = [] then some { lane with calling := issue lane ops } else none

def next (setup : Setup) (lane : Lane) : Action → Option Lane
  | .wait event => call lane [.waitEvent event]
  | .copy localAddress remoteAddress bytes =>
    if lane.calling = [] ∧ lane.accepted - lane.retired ≠ workSlots then
      some (copy setup lane localAddress remoteAddress bytes)
    else none
  | .join => call lane (joinOps lane)
  | .signal event => call lane (signalOps lane event)
  | .enqueue taken => enqueue lane taken
  | .execute => execute lane
  | .complete chunk success => complete lane chunk success
  | .turn taken => turn setup lane taken

/-- A run on given actions. -/
def run (setup : Setup) (lane : Lane) : List Action → Option Lane
  | [] => some lane
  | action :: rest => (next setup lane action).bind fun after => run setup after rest

end ShadowSpill.Network.RemoteLane
