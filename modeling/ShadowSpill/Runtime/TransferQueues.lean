import ShadowSpill.Library.LinkedQueues
import ShadowSpill.Library.Word64

/-!
# Transfer queues

The queue in front of a route's stream: plan transfers and background transfers
wait in two lists, what has been dispatched is one list in dispatch order, and
the three share the links of the actions.  Background transfers are admitted
only while the queue holds fewer than a window of their bytes in flight.
-/

namespace ShadowSpill.Runtime.TransferQueues

open Library.LinkedQueues Library.Word64

variable {ι : Type}

/-! ## The queue and its actions -/

/-- Where an action sits in its queue. -/
inductive QueueState where
  | none
  | pending
  | inflight
deriving DecidableEq, Repr

/-- What the queue reads of an action and never changes. -/
structure Actions (ι : Type) where
  background : ι → Bool
  /-- `object->size_bytes`, zero without an object. -/
  sizeBytes : ι → Nat

/-- The fields of `ShadowSpillTransferQueue`. -/
structure TransferQueue (ι : Type) where
  pending : Ends ι := {}
  background : Ends ι := {}
  inflight : Ends ι := {}
  backgroundWindowBytes : Nat
  backgroundInflightBytes : Nat := 0
  inflightCount : Nat := 0

/-- A queue together with the fields it keeps on the actions. -/
structure Memory (ι : Type) where
  queue : TransferQueue ι
  links : ι → Links ι := fun _ => {}
  queueState : ι → QueueState := fun _ => .none

namespace TransferQueue

/-- `head` and `tail` as an action's `background` selects them. -/
def waiting (queue : TransferQueue ι) : Bool → Ends ι
  | false => queue.pending
  | true => queue.background

def setWaiting (queue : TransferQueue ι) (ends : Ends ι) : Bool → TransferQueue ι
  | false => { queue with pending := ends }
  | true => { queue with background := ends }

variable (queue : TransferQueue ι) (ends : Ends ι) (background : Bool)

@[simp] theorem waiting_setWaiting_self :
    (queue.setWaiting ends background).waiting background = ends := by
  cases background <;> rfl

theorem waiting_setWaiting_of_ne
    {other : Bool} (apart : other ≠ background) :
    (queue.setWaiting ends background).waiting other = queue.waiting other := by
  cases background <;> cases other <;> first | rfl | exact absurd rfl apart

@[simp] theorem inflight_setWaiting :
    (queue.setWaiting ends background).inflight = queue.inflight := by
  cases background <;> rfl

@[simp] theorem backgroundWindowBytes_setWaiting :
    (queue.setWaiting ends background).backgroundWindowBytes =
      queue.backgroundWindowBytes := by
  cases background <;> rfl

@[simp] theorem backgroundInflightBytes_setWaiting :
    (queue.setWaiting ends background).backgroundInflightBytes =
      queue.backgroundInflightBytes := by
  cases background <;> rfl

@[simp] theorem inflightCount_setWaiting :
    (queue.setWaiting ends background).inflightCount = queue.inflightCount := by
  cases background <;> rfl

@[simp] theorem setWaiting_setWaiting (first : Ends ι) :
    (queue.setWaiting first background).setWaiting ends background =
      queue.setWaiting ends background := by
  cases background <;> rfl

@[simp] theorem setWaiting_waiting :
    queue.setWaiting (queue.waiting background) background = queue := by
  cases background <;> rfl

end TransferQueue

/-! ## Operations -/

section Operations

variable [DecidableEq ι] (actions : Actions ι) (memory : Memory ι) (action : ι)

/-- `shadowspill_transfer_queue_enqueue`. -/
def enqueue : Memory ι :=
  let background := actions.background action
  let pushed := pushBack memory.links (memory.queue.waiting background) action
  { queue := memory.queue.setWaiting pushed.2 background
    links := pushed.1
    queueState := Function.update memory.queueState action .pending }

/-- `background_window_admits`.  The sum is a 64-bit one. -/
def backgroundWindowAdmits (queue : TransferQueue ι) (bytes : Nat) : Bool :=
  queue.backgroundWindowBytes == 0 ||
    queue.backgroundInflightBytes == 0 ||
    wrap (queue.backgroundInflightBytes + bytes) ≤ queue.backgroundWindowBytes

/-- `shadowspill_transfer_queue_claim`; `none` where it returns zero. -/
def claim : Option (Memory ι) :=
  let background := actions.background action
  let ends := memory.queue.waiting background
  if ends.head ≠ some action ∨ memory.queueState action ≠ .pending ∨
      (background ∧
        ¬ backgroundWindowAdmits memory.queue (actions.sizeBytes action)) then
    none
  else
    let popped := popFront memory.links ends action
    some
      { queue := memory.queue.setWaiting popped.2 background
        links := popped.1
        queueState := Function.update memory.queueState action .none }

/-- `shadowspill_transfer_queue_return`: a claimed action goes back in front. -/
def returnAction : Memory ι :=
  let background := actions.background action
  let pushed := pushFront memory.links (memory.queue.waiting background) action
  { queue := memory.queue.setWaiting pushed.2 background
    links := pushed.1
    queueState := Function.update memory.queueState action .pending }

/-- `shadowspill_transfer_queue_publish_inflight`.  The count is a 32-bit word. -/
def publishInflight : Memory ι :=
  let pushed := pushBack memory.links memory.queue.inflight action
  { queue :=
      { memory.queue with
        inflight := pushed.2
        inflightCount := (memory.queue.inflightCount + 1) % 2 ^ 32
        backgroundInflightBytes :=
          if actions.background action then
            wrap (memory.queue.backgroundInflightBytes + actions.sizeBytes action)
          else memory.queue.backgroundInflightBytes }
    links := pushed.1
    queueState := Function.update memory.queueState action .inflight }

/-- `shadowspill_transfer_queue_complete`; `none` where it returns `-1`. -/
def complete : Option (Memory ι) :=
  if memory.queue.inflight.head ≠ some action ∨
      memory.queueState action ≠ .inflight then
    none
  else
    let popped := popFront memory.links memory.queue.inflight action
    let bytes := actions.sizeBytes action
    some
      { queue :=
          { memory.queue with
            inflight := popped.2
            inflightCount := (memory.queue.inflightCount + (2 ^ 32 - 1)) % 2 ^ 32
            backgroundInflightBytes :=
              if actions.background action then
                if bytes > memory.queue.backgroundInflightBytes then 0
                else memory.queue.backgroundInflightBytes - bytes
              else memory.queue.backgroundInflightBytes }
        links := popped.1
        queueState := Function.update memory.queueState action .none }

end Operations

/-! ## The lists a queue holds -/

/-- The three lists: what waits, by `background`, and what is in flight. -/
structure Contents (ι : Type) where
  waiting : Bool → List ι := fun _ => []
  inflight : List ι := []

/-- The links, the ends and the states of the actions all spell out these
lists. -/
structure Holds (actions : Actions ι) (memory : Memory ι) (contents : Contents ι) :
    Prop where
  waiting : ∀ background,
    Represents memory.links (memory.queue.waiting background)
      (contents.waiting background)
  inflight : Represents memory.links memory.queue.inflight contents.inflight
  kind : ∀ background, ∀ action ∈ contents.waiting background,
    actions.background action = background
  pendingState : ∀ action,
    memory.queueState action = .pending ↔
      action ∈ contents.waiting (actions.background action)
  inflightState : ∀ action,
    memory.queueState action = .inflight ↔ action ∈ contents.inflight

namespace Holds

variable {actions : Actions ι} {memory : Memory ι} {contents : Contents ι}

theorem waiting_state
    (holds : Holds actions memory contents) {background : Bool} {action : ι}
    (member : action ∈ contents.waiting background) :
    memory.queueState action = .pending := by
  apply (holds.pendingState action).mpr
  rw [holds.kind background action member]
  exact member

/-- An action in neither list of its own is in no list. -/
theorem not_waiting
    (holds : Holds actions memory contents) {action : ι}
    (notPending : memory.queueState action ≠ .pending) (background : Bool) :
    action ∉ contents.waiting background :=
  fun member => notPending (holds.waiting_state member)

theorem not_inflight
    (holds : Holds actions memory contents) {action : ι}
    (notInflight : memory.queueState action ≠ .inflight) :
    action ∉ contents.inflight :=
  fun member => notInflight ((holds.inflightState action).mpr member)

end Holds

/-! ## What each operation does to the lists -/

section Effects

variable [DecidableEq ι] {actions : Actions ι} {memory : Memory ι}
variable {contents : Contents ι} {action : ι}

/-- A waiting list is replaced, and the rest is as it was. -/
theorem Holds.setWaiting
    (holds : Holds actions memory contents)
    {links : ι → Links ι} {ends : Ends ι} {items : List ι} {state : QueueState}
    (represents : Represents links ends items)
    (framed : ∀ other, other ≠ action →
      other ∉ contents.waiting (actions.background action) →
        links other = memory.links other)
    (notInflight : memory.queueState action ≠ .inflight)
    (stays : state ≠ .inflight)
    (entry : state = .pending ↔ action ∈ items)
    (others : ∀ other, other ≠ action →
      (other ∈ items ↔ other ∈ contents.waiting (actions.background action))) :
    Holds actions
      { queue := memory.queue.setWaiting ends (actions.background action)
        links := links
        queueState := Function.update memory.queueState action state }
      { contents with
        waiting :=
          Function.update contents.waiting (actions.background action) items } := by
  constructor
  · intro background
    by_cases same : background = actions.background action
    · subst same
      simpa using represents
    · simp only [TransferQueue.waiting_setWaiting_of_ne _ _ _ same,
        Function.update_of_ne same]
      apply (holds.waiting background).congr
      intro other member
      have kind := holds.kind background other member
      apply framed
      · rintro rfl
        exact same kind.symm
      · intro shared
        exact same (kind.symm.trans (holds.kind _ other shared))
  · simp only [TransferQueue.inflight_setWaiting]
    apply holds.inflight.congr
    intro other member
    have flying := (holds.inflightState other).mpr member
    apply framed
    · rintro rfl
      exact notInflight flying
    · apply holds.not_waiting
      simp [flying]
  · intro background other member
    by_cases same : background = actions.background action
    · subst same
      simp only [Function.update_self] at member
      by_cases isAction : other = action
      · rw [isAction]
      · exact holds.kind _ other ((others other isAction).mp member)
    · simp only [Function.update_of_ne same] at member
      exact holds.kind background other member
  · intro other
    by_cases isAction : other = action
    · subst isAction
      simpa using entry
    · simp only [Function.update_of_ne isAction]
      rw [holds.pendingState other]
      by_cases same : actions.background other = actions.background action
      · rw [same, Function.update_self]
        exact (others other isAction).symm
      · rw [Function.update_of_ne same]
  · intro other
    by_cases isAction : other = action
    · subst isAction
      simp only [Function.update_self]
      constructor
      · exact fun flying => absurd flying stays
      · exact fun member => absurd member (holds.not_inflight notInflight)
    · simp only [Function.update_of_ne isAction]
      exact holds.inflightState other

/-- The list in flight is replaced, and the rest is as it was. -/
theorem Holds.setInflight
    (holds : Holds actions memory contents)
    {queue : TransferQueue ι} {links : ι → Links ι} {items : List ι}
    {state : QueueState}
    (represents : Represents links queue.inflight items)
    (sameWaiting : ∀ background,
      queue.waiting background = memory.queue.waiting background)
    (framed : ∀ other, other ≠ action → other ∉ contents.inflight →
      links other = memory.links other)
    (notPending : memory.queueState action ≠ .pending)
    (stays : state ≠ .pending)
    (entry : state = .inflight ↔ action ∈ items)
    (others : ∀ other, other ≠ action →
      (other ∈ items ↔ other ∈ contents.inflight)) :
    Holds actions
      { queue := queue
        links := links
        queueState := Function.update memory.queueState action state }
      { contents with inflight := items } := by
  constructor
  · intro background
    rw [sameWaiting background]
    apply (holds.waiting background).congr
    intro other member
    have waits := holds.waiting_state member
    apply framed
    · rintro rfl
      exact notPending waits
    · apply holds.not_inflight
      simp [waits]
  · exact represents
  · exact holds.kind
  · intro other
    by_cases isAction : other = action
    · subst isAction
      simp only [Function.update_self]
      constructor
      · exact fun waits => absurd waits stays
      · exact fun member => absurd member (holds.not_waiting notPending _)
    · simp only [Function.update_of_ne isAction]
      exact holds.pendingState other
  · intro other
    by_cases isAction : other = action
    · subst isAction
      simpa using entry
    · simp only [Function.update_of_ne isAction]
      rw [holds.inflightState other]
      exact (others other isAction).symm

theorem enqueue_holds
    (holds : Holds actions memory contents)
    (idle : memory.queueState action = .none) :
    Holds actions (enqueue actions memory action)
      { contents with
        waiting := Function.update contents.waiting (actions.background action)
          (contents.waiting (actions.background action) ++ [action]) } := by
  have represents := holds.waiting (actions.background action)
  have fresh : action ∉ contents.waiting (actions.background action) :=
    holds.not_waiting (by simp [idle]) _
  unfold enqueue
  apply holds.setWaiting (represents.pushBack fresh)
  · exact fun other apart outside => pushBack_links_of_ne represents apart outside
  · simp [idle]
  · simp
  · simp
  · intro other apart
    simp [apart]

/-- What a granted claim says about the state it was made in. -/
theorem claim_holds
    {claimed : Memory ι}
    (holds : Holds actions memory contents)
    (granted : claim actions memory action = some claimed) :
    ∃ rest,
      contents.waiting (actions.background action) = action :: rest ∧
      Holds actions claimed
        { contents with
          waiting :=
            Function.update contents.waiting (actions.background action) rest } := by
  simp only [claim] at granted
  split at granted
  · simp at granted
  · rename_i refused
    simp only [not_or, not_not] at refused
    obtain ⟨atHead, waits, -⟩ := refused
    cases granted
    have represents := holds.waiting (actions.background action)
    obtain ⟨rest, list⟩ : ∃ rest,
        contents.waiting (actions.background action) = action :: rest := by
      rw [represents.head] at atHead
      cases shape : contents.waiting (actions.background action) with
      | nil => simp [shape] at atHead
      | cons first rest =>
          obtain rfl : first = action := by simpa [shape] using atHead
          exact ⟨rest, rfl⟩
    rw [list] at represents
    have fresh := (List.nodup_cons.mp represents.nodup).1
    refine ⟨rest, list, ?_⟩
    apply holds.setWaiting represents.popFront
    · intro other apart outside
      exact popFront_links_of_ne represents (list ▸ outside)
    · simp [waits]
    · simp
    · simp [fresh]
    · intro other apart
      simp [list, apart]

/-- A granted claim marks its action, and leaves the counters alone. -/
theorem claim_fields
    {claimed : Memory ι} (granted : claim actions memory action = some claimed) :
    claimed.queueState = Function.update memory.queueState action .none ∧
      claimed.queue.backgroundWindowBytes = memory.queue.backgroundWindowBytes ∧
      claimed.queue.backgroundInflightBytes = memory.queue.backgroundInflightBytes ∧
      claimed.queue.inflightCount = memory.queue.inflightCount := by
  simp only [claim] at granted
  split at granted
  · simp at granted
  · cases granted
    simp

/-- A granted background claim was admitted by the window. -/
theorem claim_admitted
    {claimed : Memory ι} (granted : claim actions memory action = some claimed)
    (background : actions.background action = true) :
    backgroundWindowAdmits memory.queue (actions.sizeBytes action) = true := by
  simp only [claim] at granted
  split at granted
  · simp at granted
  · rename_i refused
    simp only [not_or, not_and, not_not] at refused
    exact refused.2.2 background

theorem returnAction_holds
    (holds : Holds actions memory contents)
    (idle : memory.queueState action = .none) :
    Holds actions (returnAction actions memory action)
      { contents with
        waiting := Function.update contents.waiting (actions.background action)
          (action :: contents.waiting (actions.background action)) } := by
  have represents := holds.waiting (actions.background action)
  have fresh : action ∉ contents.waiting (actions.background action) :=
    holds.not_waiting (by simp [idle]) _
  unfold returnAction
  apply holds.setWaiting (represents.pushFront fresh)
  · exact fun other apart outside => pushFront_links_of_ne represents apart outside
  · simp [idle]
  · simp
  · simp
  · intro other apart
    simp [apart]

/-- A claim that is returned leaves the queue as it was. -/
theorem returnAction_claim
    {claimed : Memory ι}
    (holds : Holds actions memory contents)
    (granted : claim actions memory action = some claimed) :
    returnAction actions claimed action = memory := by
  obtain ⟨rest, list, -⟩ := claim_holds holds granted
  have represents := holds.waiting (actions.background action)
  rw [list] at represents
  have undone := pushFront_popFront represents
  have pending : memory.queueState action = .pending :=
    holds.waiting_state (list ▸ List.mem_cons_self)
  simp only [claim] at granted
  split at granted
  · simp at granted
  · cases granted
    simp only [returnAction, TransferQueue.waiting_setWaiting_self,
      TransferQueue.setWaiting_setWaiting, undone, TransferQueue.setWaiting_waiting,
      Function.update_idem]
    rw [← pending, Function.update_eq_self]

theorem publishInflight_holds
    (holds : Holds actions memory contents)
    (idle : memory.queueState action = .none) :
    Holds actions (publishInflight actions memory action)
      { contents with inflight := contents.inflight ++ [action] } := by
  have fresh : action ∉ contents.inflight := holds.not_inflight (by simp [idle])
  unfold publishInflight
  apply holds.setInflight (holds.inflight.pushBack fresh)
  · intro background
    cases background <;> rfl
  · exact fun other apart outside =>
      pushBack_links_of_ne holds.inflight apart outside
  · simp [idle]
  · simp
  · simp
  · intro other apart
    simp [apart]

theorem complete_holds
    {completed : Memory ι}
    (holds : Holds actions memory contents)
    (granted : complete actions memory action = some completed) :
    ∃ rest,
      contents.inflight = action :: rest ∧
      Holds actions completed { contents with inflight := rest } := by
  simp only [complete] at granted
  split at granted
  · simp at granted
  · rename_i refused
    simp only [not_or, not_not] at refused
    obtain ⟨atHead, flies⟩ := refused
    cases granted
    obtain ⟨rest, list⟩ : ∃ rest, contents.inflight = action :: rest := by
      rw [holds.inflight.head] at atHead
      cases shape : contents.inflight with
      | nil => simp [shape] at atHead
      | cons first rest =>
          obtain rfl : first = action := by simpa [shape] using atHead
          exact ⟨rest, rfl⟩
    have represents := holds.inflight
    rw [list] at represents
    have fresh := (List.nodup_cons.mp represents.nodup).1
    refine ⟨rest, list, ?_⟩
    apply holds.setInflight represents.popFront
    · intro background
      cases background <;> rfl
    · intro other apart outside
      exact popFront_links_of_ne represents (list ▸ outside)
    · simp [flies]
    · simp
    · simp [fresh]
    · intro other apart
      simp [list, apart]

/-- A granted completion marks its action, and takes its bytes back. -/
theorem complete_fields
    {completed : Memory ι} (granted : complete actions memory action = some completed) :
    completed.queueState = Function.update memory.queueState action .none ∧
      completed.queue.backgroundWindowBytes = memory.queue.backgroundWindowBytes ∧
      completed.queue.inflightCount =
        (memory.queue.inflightCount + (2 ^ 32 - 1)) % 2 ^ 32 ∧
      completed.queue.backgroundInflightBytes =
        if actions.background action then
          memory.queue.backgroundInflightBytes - actions.sizeBytes action
        else memory.queue.backgroundInflightBytes := by
  simp only [complete] at granted
  split at granted
  · simp at granted
  · cases granted
    refine ⟨rfl, rfl, rfl, ?_⟩
    -- The clamp at zero is what a natural difference does.
    by_cases background : actions.background action
    · by_cases clamped :
          actions.sizeBytes action > memory.queue.backgroundInflightBytes
      · simp [background, clamped, Nat.sub_eq_zero_of_le clamped.le]
      · simp [background, clamped]
    · simp [background]

end Effects

end ShadowSpill.Runtime.TransferQueues
