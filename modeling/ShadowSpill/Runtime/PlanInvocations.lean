import ShadowSpill.Library.InFlight

/-!
# Invocations of a plan's tasks, and the plan's close

A claim counts itself in the plan, looks whether the plan closes and takes the record's
one invocation; a close announces itself, waits until nothing is counted and clears the
tasks.  Each load and each change is one access of its thread, in the source's order.
-/

namespace ShadowSpill.Runtime.PlanInvocations

open Library.InFlight

variable {ρ : Type}

/-! ## The plan's words -/

/-- The statuses of a close; any other is passed on as it is. -/
inductive PlanStatus where
  | ok
  | closed
  | invalidState
  | failed (code : UInt32)
deriving DecidableEq, Repr

/-- What the wait looks at besides the plan's own count. -/
structure Conditions where
  failureStatus : PlanStatus
  pendingActions : UInt64
  pendingRetirements : UInt64
  workerStop : Bool

/-- The words the threads share, by task record where the record holds them. -/
structure Memory (ρ : Type) where
  closing : Bool
  closed : Bool
  lifecycleLock : Bool
  activeTaskScopes : UInt32
  invocationActive : ρ → Bool
  invocationCount : ρ → UInt64
  tasksCleared : Bool
  conditions : Conditions

/-- What can be in flight: the closer's stores, the lock that is given back, and the
count of a refused or an ended invocation. -/
inductive Effect (ρ : Type) where
  | setClosing (value : Bool)
  | setClosed
  | unlock (status : PlanStatus)
  | giveBack (record : ρ) (ended : Bool)
deriving DecidableEq

def landed : Effect ρ → Memory ρ → Memory ρ
  | .setClosing value, memory => { memory with closing := value }
  | .setClosed, memory => { memory with closed := true }
  | .unlock _, memory => { memory with lifecycleLock := false }
  | .giveBack _ _, memory =>
    { memory with activeTaskScopes := memory.activeTaskScopes - 1 }

/-! ## The threads -/

/-- Who waits until the plan is idle: a caller, the close, or the close once more when it
clears the tasks. -/
inductive Waiter where
  | caller
  | close
  | clear
deriving DecidableEq

inductive WaitStep where
  | failure
  | closed
  | scopes
  | actions
  | retirements
  | workerStop
deriving DecidableEq

inductive ClearStep where
  | scopes
  | actions
  | retirements
  | layout
  | table
deriving DecidableEq

/-- Where a thread is. -/
inductive Phase (ρ : Type) where
  | idle
  -- shadowspill_claim_task_invocation
  | claimClosing (record : ρ)
  | claimClosed (record : ρ)
  | increment (record : ρ)
  | recheckClosing (record : ρ)
  | recheckClosed (record : ρ)
  | compareExchange (record : ρ)
  | refuse (record : ρ)
  | claimed (record : ρ)
  -- shadowspill_enter_claimed_task_scope
  | enterActive (record : ρ)
  | enterScope (record : ρ)
  | countInvocation (record : ρ)
  -- shadowspill_release_task_invocation
  | endInvocation (record : ρ)
  | giveBack (record : ρ)
  -- shadowspill_plan_close
  | lock
  | closeClosed
  | storeClosing
  | waitIdle (waiter : Waiter) (step : WaitStep)
  | clearTasks (step : ClearStep)
  | storeClosed
  | reopen (status : PlanStatus)
  | unlock (status : PlanStatus)
deriving DecidableEq

/-- A thread's phase, and its task scope: the record with the number of its invocation. -/
structure Control (ρ : Type) where
  scope : Option (ρ × UInt64)
  phase : Phase ρ
deriving DecidableEq

/-- The calls a thread can begin. -/
def Phase.begins : Phase ρ → Bool
  | .claimClosing _ | .endInvocation _ | .waitIdle .caller .failure | .lock => true
  | _ => false

/-- A wait that returns leaves the close where its status says. -/
def waited (waiter : Waiter) (status : PlanStatus) : Phase ρ :=
  match waiter with
  | .caller => .idle
  | .close => if status = .ok then .waitIdle .clear .failure else .reopen status
  | .clear => if status = .ok then .clearTasks .scopes else .reopen status

/-- One round of `shadowspill_plan_wait_idle`. -/
def waitIdle (waiter : Waiter) (step : WaitStep) (memory : Memory ρ) : Phase ρ :=
  match step with
  | .failure =>
    if memory.conditions.failureStatus ≠ .ok then
      waited waiter memory.conditions.failureStatus
    else .waitIdle waiter .closed
  | .closed => if memory.closed then waited waiter .closed else .waitIdle waiter .scopes
  | .scopes =>
    if memory.activeTaskScopes = 0 then .waitIdle waiter .actions
    else .waitIdle waiter .workerStop
  | .actions =>
    if memory.conditions.pendingActions = 0 then .waitIdle waiter .retirements
    else .waitIdle waiter .workerStop
  | .retirements =>
    if memory.conditions.pendingRetirements = 0 then waited waiter .ok
    else .waitIdle waiter .workerStop
  | .workerStop =>
    if memory.conditions.workerStop then waited waiter .closed
    else .waitIdle waiter .failure

variable [DecidableEq ρ]

/-- The loads of `shadowspill_plan_clear_tasks` after its wait, the layout's answer, and
the moment the table is cleared. -/
def clearTasks (step : ClearStep) (goes : Phase ρ → Control ρ) :
    Access (Memory ρ) (Effect ρ) (Control ρ) :=
  match step with
  | .scopes => .load fun memory =>
    goes (if memory.activeTaskScopes ≠ 0 then .reopen .invalidState else .clearTasks .actions)
  | .actions => .load fun memory =>
    goes (if memory.conditions.pendingActions ≠ 0 then .reopen .invalidState
      else .clearTasks .retirements)
  | .retirements => .load fun memory =>
    goes (if memory.conditions.pendingRetirements ≠ 0 then .reopen .invalidState
      else .clearTasks .layout)
  | .layout => .choose fun next =>
    match next.phase with
    | .clearTasks .table => next = goes (.clearTasks .table)
    | .reopen status => status ≠ .ok && next = goes (.reopen status)
    | _ => false
  | .table => .take fun memory => some ({ memory with tasksCleared := true }, goes .storeClosed)

/-- The next access of a thread. -/
def program (control : Control ρ) : Access (Memory ρ) (Effect ρ) (Control ρ) :=
  let goes (phase : Phase ρ) : Control ρ := { control with phase := phase }
  match control.phase with
  -- A thread in a scope may also leave it, which ends the invocation of its record.
  | .idle => .choose fun next =>
    (next.scope = control.scope && next.phase.begins) ||
      match control.scope with
      | some (record, _) => next = { scope := none, phase := .endInvocation record }
      | none => false
  | .claimClosing record => .load fun memory =>
    goes (if memory.closing then .idle else .claimClosed record)
  | .claimClosed record => .load fun memory =>
    goes (if memory.closed then .idle else .increment record)
  | .increment record => .exchange fun memory =>
    ({ memory with activeTaskScopes := memory.activeTaskScopes + 1 },
      goes (.recheckClosing record))
  | .recheckClosing record => .load fun memory =>
    goes (if memory.closing then .refuse record else .recheckClosed record)
  | .recheckClosed record => .load fun memory =>
    goes (if memory.closed then .refuse record else .compareExchange record)
  | .compareExchange record => .exchange fun memory =>
    if memory.invocationActive record then (memory, goes (.refuse record))
    else
      ({ memory with invocationActive := Function.update memory.invocationActive record true },
        goes (.claimed record))
  | .refuse record => .send (.giveBack record false) (goes .idle)
  -- The work between the claim and the entry may fail, and then gives the claim back.
  | .claimed record => .choose fun next =>
    next = goes (.enterActive record) || next = goes (.endInvocation record)
  | .enterActive record => .load fun memory =>
    goes (if memory.invocationActive record then .enterScope record
      else .endInvocation record)
  -- A thread that is in a scope already enters no other.
  | .enterScope record => .choose fun next =>
    next = goes (.endInvocation record) ||
      (control.scope.isNone && next = goes (.countInvocation record))
  | .countInvocation record => .exchange fun memory =>
    ({ memory with
        invocationCount := Function.update memory.invocationCount record
          (memory.invocationCount record + 1) },
      { scope := some (record, memory.invocationCount record + 1), phase := .idle })
  | .endInvocation record => .exchange fun memory =>
    ({ memory with invocationActive := Function.update memory.invocationActive record false },
      goes (if memory.invocationActive record then .giveBack record else .idle))
  | .giveBack record => .send (.giveBack record true) (goes .idle)
  | .lock => .take fun memory =>
    if memory.lifecycleLock then none
    else some ({ memory with lifecycleLock := true }, goes .closeClosed)
  | .closeClosed => .load fun memory =>
    goes (if memory.closed then .unlock .ok else .storeClosing)
  | .storeClosing => .send (.setClosing true) (goes (.waitIdle .close .failure))
  | .waitIdle waiter step => .load fun memory => goes (waitIdle waiter step memory)
  | .clearTasks step => clearTasks step goes
  | .storeClosed => .send .setClosed (goes (.unlock .ok))
  | .reopen status => .send (.setClosing false) (goes (.unlock status))
  | .unlock status => .send (.unlock status) (goes .idle)

/-- A plan's threads: their program, and the conditions that change beside it. -/
def rules : Rules (Memory ρ) (Effect ρ) (Control ρ) Conditions where
  access := program
  land := landed
  outside conditions memory := { memory with conditions := conditions }

/-! ## Runs -/

variable {τ : Type} [DecidableEq τ]

abbrev PlanState (τ ρ : Type) := Shared τ (Memory ρ) (Effect ρ) (Control ρ)

abbrev PlanEvent (τ ρ : Type) := Event τ (Effect ρ) (Control ρ) Conditions

/-- A created plan with admitted records: nobody has claimed anything. -/
def created (conditions : Conditions) : PlanState τ ρ where
  memory := {
    closing := false
    closed := false
    lifecycleLock := false
    activeTaskScopes := 0
    invocationActive := fun _ => false
    invocationCount := fun _ => 0
    tasksCleared := false
    conditions := conditions }
  inFlight := fun _ => []
  control := fun _ => { scope := none, phase := .idle }

end ShadowSpill.Runtime.PlanInvocations
