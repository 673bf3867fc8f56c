import Mathlib.Data.List.Basic

/-!
# Event records and the completion tracker

A record of an event is counted by its references and lives in a pool of records made
at admission, or by itself while the pool is not sealed.  The tracker keeps, for each
stream, the events submitted to it in order; polling takes complete events from the
head.  Every operation here is one section of the source under one lock, or one atomic
operation; the sections of different threads interleave (`Step`).
-/

namespace ShadowSpill.Runtime.EventRecords

/-! ## Records and their pool -/

/-- The address of a record. -/
abbrev EventId := Nat

/-- A record of an event. -/
structure EventRecord where
  poolOwned : Bool
  hasEvent : Bool
  references : Nat
  linked : Bool
  complete : Bool
  deriving DecidableEq, Repr

/-- The pool of records; `blocks` holds the records it owns. -/
structure EventPool where
  freeList : List EventId
  blocks : List EventId
  capacity : Nat
  available : Nat
  inUse : Nat
  peakInUse : Nat
  driverCreates : Nat
  growthRejections : Nat
  isSealed : Bool
  deriving DecidableEq, Repr

def emptyPool : EventPool := ⟨[], [], 0, 0, 0, 0, 0, 0, false⟩

/-! ## The tracker -/

/-- The events submitted to one stream, oldest first, each with its submission number. -/
structure CompletionStream (κ : Type) where
  stream : κ
  queue : List (EventId × Nat)
  deriving DecidableEq

structure CompletionTracker (κ : Type) where
  streams : List (CompletionStream κ)
  pending : Nat
  deriving DecidableEq

variable {κ : Type} [DecidableEq κ]

/-- The queue of a stream; none is like an empty one. -/
def queueOf (stream : κ) : List (CompletionStream κ) → List (EventId × Nat)
  | [] => []
  | owner :: rest => if owner.stream = stream then owner.queue else queueOf stream rest

/-- Append to the queue of the stream, if it has an owner. -/
def appendTo (stream : κ) (entry : EventId × Nat) :
    List (CompletionStream κ) → List (CompletionStream κ)
  | [] => []
  | owner :: rest =>
    if owner.stream = stream then { owner with queue := owner.queue ++ [entry] } :: rest
    else owner :: appendTo stream entry rest

/-- Take the head off the queue of the stream. -/
def dropHead (stream : κ) : List (CompletionStream κ) → List (CompletionStream κ)
  | [] => []
  | owner :: rest =>
    if owner.stream = stream then { owner with queue := owner.queue.tail } :: rest
    else owner :: dropHead stream rest

/-- Submit to the stream, with a new owner in front when it has none. -/
def enqueue (stream : κ) (entry : EventId × Nat) (streams : List (CompletionStream κ)) :
    List (CompletionStream κ) :=
  if streams.any (fun owner => owner.stream = stream) then appendTo stream entry streams
  else ⟨stream, [entry]⟩ :: streams

/-- One submission: the stream, the event and its number. -/
abbrev Submission (κ : Type) := κ × (EventId × Nat)

/-- Everything submitted and not yet complete. -/
def entries (streams : List (CompletionStream κ)) : List (Submission κ) :=
  streams.flatMap fun owner => owner.queue.map (Prod.mk owner.stream)

/-! ## States -/

/-- What the backend says of an event. -/
inductive Answer where
  | complete
  | incomplete
  | failed
  deriving DecidableEq, Repr

/-- Where a polling thread stands between two sections. -/
inductive Poller (κ : Type) where
  | idle
  | snapshot (stream : κ) (event : EventId)
  | queried (stream : κ) (event : EventId) (answer : Answer)
  | releasing (event : EventId) (count : Nat)
  deriving DecidableEq

/-- The events, with the operations under way: reservations between their two sections,
records taken but not yet opened, records let go but not yet returned, and polling
threads.  `clients` lists the references held outside, one entry for each.
`submissions` and `completions` record what happened. -/
structure State (κ : Type) where
  records : EventId → EventRecord
  fresh : EventId
  pool : EventPool
  tracker : CompletionTracker κ
  growing : List Nat
  creating : List EventId
  returning : List EventId
  clients : List EventId
  pollers : List (Poller κ)
  submissions : List (Submission κ)
  completions : List (Submission κ)

/-- A record that was never used. -/
def unusedRecord (poolOwned : Bool) : EventRecord := ⟨poolOwned, poolOwned, 0, false, false⟩

def initial (pollers : Nat) : State κ where
  records := fun _ => unusedRecord false
  fresh := 0
  pool := emptyPool
  tracker := ⟨[], 0⟩
  growing := []
  creating := []
  returning := []
  clients := []
  pollers := List.replicate pollers .idle
  submissions := []
  completions := []

/-- Change one record. -/
def setRecord (records : EventId → EventRecord) (event : EventId) (record : EventRecord) :
    EventId → EventRecord :=
  fun other => if other = event then record else records other

/-! ## The pool's sections -/

/-- The first section of a reservation. -/
def reserve (state : State κ) (minimum : Nat) : State κ :=
  if minimum ≤ state.pool.available then
    { state with pool := { state.pool with isSealed := true } }
  else { state with growing := (minimum - state.pool.available) :: state.growing }

/-- The addresses of a new block. -/
def newBlock (state : State κ) (additional : Nat) : List EventId :=
  (List.range additional).map (state.fresh + ·)

/-- The second section of a reservation, with the events created in between. -/
def reserveLink (state : State κ) (additional : Nat) : State κ :=
  { state with
    records := fun event =>
      if state.fresh ≤ event ∧ event < state.fresh + additional then unusedRecord true
      else state.records event
    fresh := state.fresh + additional
    growing := state.growing.erase additional
    pool :=
      { state.pool with
        freeList := (newBlock state additional).reverse ++ state.pool.freeList
        blocks := newBlock state additional ++ state.pool.blocks
        capacity := state.pool.capacity + additional
        available := state.pool.available + additional
        driverCreates := state.pool.driverCreates + additional
        isSealed := true } }

/-- Take a record from the pool. -/
def takePooled (state : State κ) (event : EventId) (rest : List EventId) : State κ :=
  { state with
    creating := event :: state.creating
    pool :=
      { state.pool with
        freeList := rest
        available := state.pool.available - 1
        inUse := state.pool.inUse + 1
        peakInUse := max state.pool.peakInUse (state.pool.inUse + 1) } }

/-- A record outside the pool, while it is not sealed. -/
def takeAllocated (state : State κ) : State κ :=
  { state with
    records := setRecord state.records state.fresh (unusedRecord false)
    fresh := state.fresh + 1
    creating := state.fresh :: state.creating }

/-- An empty sealed pool turns the request away. -/
def rejectGrowth (state : State κ) : State κ :=
  { state with
    pool := { state.pool with growthRejections := state.pool.growthRejections + 1 } }

/-- Return a record to where it came from. -/
def releaseRecord (state : State κ) (event : EventId) : State κ :=
  if (state.records event).poolOwned then
    { state with
      pool :=
        { state.pool with
          freeList := event :: state.pool.freeList
          available := state.pool.available + 1
          inUse := if state.pool.inUse ≠ 0 then state.pool.inUse - 1 else 0 } }
  else state

/-- The backend event of a taken record exists or was created: the creator holds the
first reference. -/
def openRecord (state : State κ) (event : EventId) : State κ :=
  { state with
    records := setRecord state.records event
      { state.records event with
        hasEvent := true
        references := 1
        linked := false
        complete := false }
    pool :=
      if (state.records event).hasEvent then state.pool
      else { state.pool with driverCreates := state.pool.driverCreates + 1 }
    creating := state.creating.erase event
    clients := event :: state.clients }

/-- The backend could not create the event. -/
def failRecord (state : State κ) (event : EventId) : State κ :=
  releaseRecord { state with creating := state.creating.erase event } event

/-! ## References -/

/-- One more reference. -/
def retainReference (records : EventId → EventRecord) (event : EventId) :
    EventId → EventRecord :=
  setRecord records event
    { records event with references := (records event).references + 1 }

/-- One reference less; the last one clears the record and lets it go. -/
def dropReference (state : State κ) (event : EventId) : State κ :=
  if (state.records event).references = 1 then
    { state with
      records := setRecord state.records event
        { state.records event with
          hasEvent :=
            (state.records event).poolOwned && (state.records event).hasEvent
          references := 0
          linked := false
          complete := false }
      returning := event :: state.returning }
  else
    { state with
      records := setRecord state.records event
        { state.records event with
          references := (state.records event).references - 1 } }

/-- The second half of the last release. -/
def giveBack (state : State κ) (event : EventId) : State κ :=
  releaseRecord { state with returning := state.returning.erase event } event

/-! ## The tracker's sections -/

/-- Link the event at the tail of its stream. -/
def submit (state : State κ) (stream : κ) (event : EventId) : State κ :=
  if (state.records event).linked then state
  else
    { state with
      records := setRecord state.records event
        { state.records event with
          linked := true
          references := (state.records event).references + 1 }
      tracker :=
        { streams :=
            enqueue stream (event, state.submissions.length) state.tracker.streams
          pending := state.tracker.pending + 1 }
      submissions :=
        state.submissions ++ [(stream, event, state.submissions.length)] }

/-- The head of a stream. -/
def headOf (state : State κ) (stream : κ) : Option (EventId × Nat) :=
  (queueOf stream state.tracker.streams).head?

def setPoller (state : State κ) (index : Nat) (poller : Poller κ) : State κ :=
  { state with pollers := state.pollers.set index poller }

/-- Retain the head before it is queried outside the lock. -/
def snapshotHead (state : State κ) (index : Nat) (stream : κ) (event : EventId) :
    State κ :=
  { state with
    records := retainReference state.records event
    pollers := state.pollers.set index (.snapshot stream event) }

/-- Ask the backend, unless the event is known to be complete. -/
def queryEvent (state : State κ) (index : Nat) (stream : κ) (event : EventId)
    (answer : Answer) : State κ :=
  if (state.records event).complete then
    setPoller state index (.queried stream event .complete)
  else
    { state with
      records := setRecord state.records event
        { state.records event with complete := answer = .complete }
      pollers := state.pollers.set index (.queried stream event answer) }

/-- Unlink a complete head; the stream's reference is left to the polling thread. -/
def unlinkHead (state : State κ) (index : Nat) (stream : κ) (event : EventId)
    (ticket : Nat) : State κ :=
  { state with
    records := setRecord state.records event
      { state.records event with linked := false }
    tracker :=
      { streams := dropHead stream state.tracker.streams
        pending :=
          if state.tracker.pending ≠ 0 then state.tracker.pending - 1
          else state.tracker.pending }
    pollers := state.pollers.set index (.releasing event 2)
    completions := state.completions ++ [(stream, event, ticket)] }

/-- The section after the query. -/
def settle (state : State κ) (index : Nat) (stream : κ) (event : EventId)
    (answer : Answer) : State κ :=
  match headOf state stream with
  | none => setPoller state index (.releasing event 1)
  | some (head, ticket) =>
    if head ≠ event then setPoller state index (.releasing event 1)
    else
      match answer with
      | .failed => setPoller state index (.releasing event 1)
      | .incomplete => setPoller state index (.releasing event 1)
      | .complete => unlinkHead state index stream event ticket

/-- The polling thread lets one of its references go. -/
def releasePolled (state : State κ) (index : Nat) (event : EventId) (count : Nat) :
    State κ :=
  setPoller (dropReference state event) index
    (if count = 0 then .idle else .releasing event count)

/-! ## Interleavings -/

/-- One section of some thread.  Only who holds a reference retains, releases or submits
an event. -/
inductive Step : State κ → State κ → Prop where
  | reserve (state : State κ) (minimum : Nat) (positive : 0 < minimum) :
      Step state (reserve state minimum)
  | reserveFail (state : State κ) (additional : Nat)
      (under_way : additional ∈ state.growing) :
      Step state { state with growing := state.growing.erase additional }
  | reserveLink (state : State κ) (additional : Nat)
      (under_way : additional ∈ state.growing) :
      Step state (reserveLink state additional)
  | takePooled (state : State κ) (event : EventId) (rest : List EventId)
      (first : state.pool.freeList = event :: rest) :
      Step state (takePooled state event rest)
  | rejectGrowth (state : State κ) (empty : state.pool.freeList = [])
      (isSealed : state.pool.isSealed = true) :
      Step state (rejectGrowth state)
  | takeAllocated (state : State κ) (empty : state.pool.freeList = [])
      (notSealed : state.pool.isSealed = false) :
      Step state (takeAllocated state)
  | openRecord (state : State κ) (event : EventId) (taken : event ∈ state.creating) :
      Step state (openRecord state event)
  | failRecord (state : State κ) (event : EventId) (taken : event ∈ state.creating)
      (noEvent : (state.records event).hasEvent = false) :
      Step state (failRecord state event)
  | retain (state : State κ) (event : EventId) (held : event ∈ state.clients) :
      Step state { state with
        records := retainReference state.records event
        clients := event :: state.clients }
  | release (state : State κ) (event : EventId) (held : event ∈ state.clients) :
      Step state { dropReference state event with clients := state.clients.erase event }
  | giveBack (state : State κ) (event : EventId) (let_go : event ∈ state.returning) :
      Step state (giveBack state event)
  | submit (state : State κ) (stream : κ) (event : EventId)
      (held : event ∈ state.clients) :
      Step state (submit state stream event)
  | snapshot (state : State κ) (index : Nat) (stream : κ) (event : EventId) (ticket : Nat)
      (isIdle : state.pollers[index]? = some .idle)
      (head : headOf state stream = some (event, ticket)) :
      Step state (snapshotHead state index stream event)
  | query (state : State κ) (index : Nat) (stream : κ) (event : EventId) (answer : Answer)
      (retained : state.pollers[index]? = some (.snapshot stream event)) :
      Step state (queryEvent state index stream event answer)
  | settle (state : State κ) (index : Nat) (stream : κ) (event : EventId)
      (answer : Answer) (asked : state.pollers[index]? = some (.queried stream event answer)) :
      Step state (settle state index stream event answer)
  | releasePolled (state : State κ) (index : Nat) (event : EventId) (count : Nat)
      (letting_go : state.pollers[index]? = some (.releasing event (count + 1))) :
      Step state (releasePolled state index event count)

/-- The states that some interleaving reaches, with any number of polling threads. -/
inductive Reached : State κ → Prop where
  | start (pollers : Nat) : Reached (initial pollers)
  | step {state next : State κ} (reached : Reached state) (stepped : Step state next) :
      Reached next

end ShadowSpill.Runtime.EventRecords
