import ShadowSpill.Runtime.PlanInvocations

/-!
# The count of a plan's task scopes

What is counted is an active invocation, a claim before its decision, or an invocation
that has ended before its count is back; and what is claimed of a record is given back
once.
-/

namespace ShadowSpill.Runtime.PlanCounts

open Library.InFlight PlanInvocations

variable {τ ρ : Type} [DecidableEq τ] [DecidableEq ρ]

/-! ## What is counted -/

/-- Where a thread stands to the plan's count: nothing of it is counted, a claim that has
counted itself and is undecided, a claim that has just succeeded, or an invocation that
has ended with its count still to be given back. -/
inductive Standing (ρ : Type) where
  | free
  | deciding
  | claimed (record : ρ)
  | returning (record : ρ)
deriving DecidableEq

def standing : Phase ρ → Standing ρ
  | .recheckClosing _ | .recheckClosed _ | .compareExchange _ | .refuse _ => .deciding
  | .claimed record => .claimed record
  | .giveBack record => .returning record
  | _ => .free

def Standing.isDeciding : Standing ρ → Bool
  | .deciding => true
  | _ => false

def Standing.isReturning : Standing ρ → Bool
  | .returning _ => true
  | _ => false

/-- The effect gives back the count of a claim, or of an invocation. -/
def gives (ended : Bool) : Effect ρ → Bool
  | .giveBack _ kind => kind == ended
  | _ => false

/-- The counts of claims that a thread has not decided, or has refused and not given back. -/
def undecided (control : Control ρ) (inFlight : List (Effect ρ)) : Nat :=
  (standing control.phase).isDeciding.toNat + inFlight.countP (gives false)

/-- The counts of ended invocations that a thread has not given back. -/
def unreturned (control : Control ρ) (inFlight : List (Effect ρ)) : Nat :=
  (standing control.phase).isReturning.toNat + inFlight.countP (gives true)

/-- The same for one record. -/
def unreturnedOf (record : ρ) (control : Control ρ) (inFlight : List (Effect ρ)) : Nat :=
  (decide (standing control.phase = .returning record)).toNat +
    inFlight.count (.giveBack record true)

/-- The records whose invocation is active. -/
def activeRecords [Fintype ρ] (memory : Memory ρ) : Nat :=
  ∑ record, (memory.invocationActive record).toNat

/-- The successful claims of a record. -/
def claims (record : ρ) (events : List (PlanEvent τ ρ)) : Nat :=
  events.countP fun
    | .act _ next => standing next.phase = .claimed record
    | _ => false

/-- The invocations of a record that ended. -/
def ends (record : ρ) (events : List (PlanEvent τ ρ)) : Nat :=
  events.countP fun
    | .act _ next => standing next.phase = .returning record
    | _ => false

/-- The decrements that gave back an invocation of a record. -/
def returns (record : ρ) (events : List (PlanEvent τ ρ)) : Nat :=
  events.countP fun
    | .land _ effect => effect = .giveBack record true
    | _ => false

/-! ## The accesses -/

section Accesses

variable {control next : Control ρ} {effect : Effect ρ}

omit [DecidableEq ρ] in
@[simp]
theorem standing_waited (waiter : Waiter) (status : PlanStatus) :
    standing (waited waiter status : Phase ρ) = .free := by
  cases waiter <;> simp only [waited, apply_ite standing] <;> simp [standing]

omit [DecidableEq ρ] in
@[simp]
theorem standing_waitIdle (waiter : Waiter) (step : WaitStep) (memory : Memory ρ) :
    standing (waitIdle waiter step memory) = .free := by
  cases step <;> simp only [waitIdle, apply_ite standing, standing_waited] <;>
    simp [standing]

/-- A load leaves the thread's standing. -/
theorem standing_load {follow : Memory ρ → Control ρ}
    (access : program control = .load follow) (memory : Memory ρ) :
    standing (follow memory).phase = standing control.phase ∧
      (standing control.phase = .free ∨ standing control.phase = .deciding) := by
  unfold program at access
  cases phase : control.phase <;>
    simp only [phase, Access.load.injEq, reduceCtorEq] at access
  case clearTasks step =>
    cases step <;> simp only [clearTasks, Access.load.injEq, reduceCtorEq] at access <;>
      subst access <;> simp only [apply_ite standing] <;> simp [standing]
  all_goals
    subst access
    simp only [apply_ite standing, standing_waitIdle]
    simp [standing]

/-- A choice is between phases in which nothing is counted. -/
theorem standing_choose {allowed : Control ρ → Bool}
    (access : program control = .choose allowed) (chosen : allowed next = true) :
    standing next.phase = .free ∧
      (standing control.phase).isDeciding = false ∧
        (standing control.phase).isReturning = false := by
  unfold program at access
  cases phase : control.phase <;>
    simp only [phase, Access.choose.injEq, reduceCtorEq] at access
  case idle =>
    subst access
    refine ⟨?_, rfl, rfl⟩
    simp only [Bool.or_eq_true, Bool.and_eq_true, decide_eq_true_eq] at chosen
    rcases chosen with ⟨-, begins⟩ | leaves
    · cases nextPhase : next.phase <;> simp [nextPhase, Phase.begins, standing] at begins ⊢
    · cases scope : control.scope with
      | none => simp [scope] at leaves
      | some entered =>
          simp only [scope, decide_eq_true_eq] at leaves
          rw [leaves]
          rfl
  case clearTasks step =>
    cases step <;> simp only [clearTasks, Access.choose.injEq, reduceCtorEq] at access
    subst access
    refine ⟨?_, rfl, rfl⟩
    cases nextPhase : next.phase <;> simp [nextPhase, standing] at chosen ⊢
  all_goals
    subst access
    refine ⟨?_, rfl, rfl⟩
    simp only [Bool.or_eq_true, Bool.and_eq_true, decide_eq_true_eq] at chosen
  case claimed record =>
    rcases chosen with rfl | rfl <;> rfl
  case enterScope record =>
    rcases chosen with rfl | ⟨-, rfl⟩ <;> rfl

/-- The lock and the table's clearing concern no record and no count. -/
theorem take_quiet {update : Memory ρ → Option (Memory ρ × Control ρ)}
    {memory after : Memory ρ} (access : program control = .take update)
    (taken : update memory = some (after, next)) :
    standing next.phase = .free ∧ standing control.phase = .free ∧
      after.activeTaskScopes = memory.activeTaskScopes ∧
        after.invocationActive = memory.invocationActive := by
  unfold program at access
  cases phase : control.phase <;>
    simp only [phase, Access.take.injEq, reduceCtorEq] at access
  case clearTasks step =>
    cases step <;> simp only [clearTasks, Access.take.injEq, reduceCtorEq] at access
    subst access
    simp only [Option.some.injEq, Prod.mk.injEq] at taken
    obtain ⟨rfl, rfl⟩ := taken
    exact ⟨rfl, rfl, rfl, rfl⟩
  case lock =>
    subst access
    simp only [Option.ite_none_left_eq_some, Option.some.injEq, Prod.mk.injEq] at taken
    obtain ⟨-, rfl, rfl⟩ := taken
    exact ⟨rfl, rfl, rfl, rfl⟩

/-- What is sent gives back a refused claim, an ended invocation, or no count. -/
theorem send_cases (access : program control = .send effect next) :
    standing next.phase = .free ∧
      ((∃ record, standing control.phase = .deciding ∧ effect = .giveBack record false) ∨
        (∃ record, standing control.phase = .returning record ∧
          effect = .giveBack record true) ∨
        (standing control.phase = .free ∧ ∀ record ended, effect ≠ .giveBack record ended)) := by
  unfold program at access
  cases phase : control.phase <;>
    simp only [phase, Access.send.injEq, reduceCtorEq] at access
  case clearTasks step =>
    cases step <;> simp only [clearTasks, reduceCtorEq] at access
  case refuse record =>
    obtain ⟨rfl, rfl⟩ := access
    exact ⟨rfl, .inl ⟨record, rfl, rfl⟩⟩
  case giveBack record =>
    obtain ⟨rfl, rfl⟩ := access
    exact ⟨rfl, .inr (.inl ⟨record, rfl, rfl⟩)⟩
  all_goals
    obtain ⟨rfl, rfl⟩ := access
    exact ⟨rfl, .inr (.inr ⟨rfl, by simp⟩)⟩

/-- The exchanges: a claim counts itself, wins or loses the record, an invocation is
numbered, and a release ends one or finds none. -/
inductive Exchanged (control : Control ρ) (memory : Memory ρ) :
    Memory ρ → Control ρ → Prop where
  | increment {after : Memory ρ} {next : Control ρ}
      (from_free : standing control.phase = .free) (to_deciding : standing next.phase = .deciding)
      (count : after.activeTaskScopes = memory.activeTaskScopes + 1)
      (active : after.invocationActive = memory.invocationActive) :
      Exchanged control memory after next
  | claim {after : Memory ρ} {next : Control ρ} (record : ρ)
      (from_deciding : standing control.phase = .deciding)
      (to_claimed : standing next.phase = .claimed record)
      (count : after.activeTaskScopes = memory.activeTaskScopes)
      (inactive : memory.invocationActive record = false)
      (active : after.invocationActive = Function.update memory.invocationActive record true) :
      Exchanged control memory after next
  | finish {after : Memory ρ} {next : Control ρ} (record : ρ)
      (from_free : standing control.phase = .free)
      (to_returning : standing next.phase = .returning record)
      (count : after.activeTaskScopes = memory.activeTaskScopes)
      (wasActive : memory.invocationActive record = true)
      (active : after.invocationActive = Function.update memory.invocationActive record false) :
      Exchanged control memory after next
  | quiet {after : Memory ρ} {next : Control ρ}
      (same : standing next.phase = standing control.phase)
      (plain : standing control.phase = .free ∨ standing control.phase = .deciding)
      (count : after.activeTaskScopes = memory.activeTaskScopes)
      (active : after.invocationActive = memory.invocationActive) :
      Exchanged control memory after next

theorem exchange_cases {update : Memory ρ → Memory ρ × Control ρ}
    (access : program control = .exchange update) (memory : Memory ρ) :
    Exchanged control memory (update memory).1 (update memory).2 := by
  unfold program at access
  cases phase : control.phase <;>
    simp only [phase, Access.exchange.injEq, reduceCtorEq] at access
  case clearTasks step =>
    cases step <;> simp only [clearTasks, reduceCtorEq] at access
  case increment record =>
    subst access
    exact .increment (by rw [phase]; rfl) rfl rfl rfl
  case compareExchange record =>
    subst access
    cases active : memory.invocationActive record with
    | true =>
        refine .quiet ?_ (.inr (by rw [phase]; rfl)) ?_ ?_ <;>
          simp [active, phase, standing]
    | false =>
        refine .claim record (by rw [phase]; rfl) ?_ ?_ active ?_ <;>
          simp [active, standing]
  case countInvocation record =>
    subst access
    exact .quiet (by rw [phase]; rfl) (.inl (by rw [phase]; rfl)) rfl rfl
  case endInvocation record =>
    subst access
    cases active : memory.invocationActive record with
    | true =>
        refine .finish record (by rw [phase]; rfl) ?_ rfl active rfl
        simp [active, standing]
    | false =>
        refine .quiet ?_ (.inl (by rw [phase]; rfl)) rfl ?_
        · simp [active, phase, standing]
        · show Function.update memory.invocationActive record false = memory.invocationActive
          rw [← active, Function.update_eq_self]

end Accesses

/-! ## What one step does to the counts -/

section Records

variable [Fintype ρ]

theorem activeRecords_update {memory changed : Memory ρ} {record : ρ} {value : Bool}
    (active : changed.invocationActive = Function.update memory.invocationActive record value) :
    activeRecords changed + (memory.invocationActive record).toNat =
      activeRecords memory + value.toNat := by
  have split : ∀ words : Memory ρ, activeRecords words =
      (words.invocationActive record).toNat +
        ∑ other ∈ Finset.univ.erase record, (words.invocationActive other).toNat := by
    intro words
    exact (Finset.add_sum_erase _ _ (Finset.mem_univ record)).symm
  have others : ∑ other ∈ Finset.univ.erase record, (changed.invocationActive other).toNat =
      ∑ other ∈ Finset.univ.erase record, (memory.invocationActive other).toNat := by
    apply Finset.sum_congr rfl
    intro other member
    rw [active, Function.update_of_ne (Finset.ne_of_mem_erase member)]
  rw [split changed, split memory, others, active, Function.update_self]
  omega

end Records

section Steps

variable [Fintype τ] {before after : PlanState τ ρ} {event : PlanEvent τ ρ}

/-- The event is no claim, no end and no return of any record. -/
structure Uncounted (event : PlanEvent τ ρ) : Prop where
  claims : ∀ record, claims record [event] = 0
  ends : ∀ record, ends record [event] = 0
  returns : ∀ record, returns record [event] = 0

/-- What a step does to the plan's count, to the active records and to what the threads
have still to give back. -/
inductive Tallied (before : PlanState τ ρ) : PlanEvent τ ρ → PlanState τ ρ → Prop where
  | quiet {event : PlanEvent τ ρ} {after : PlanState τ ρ}
      (count : after.memory.activeTaskScopes = before.memory.activeTaskScopes)
      (active : after.memory.invocationActive = before.memory.invocationActive)
      (undecided : total undecided after = total undecided before)
      (unreturned : total unreturned after = total unreturned before)
      (unreturnedOf : ∀ record,
        total (unreturnedOf record) after = total (unreturnedOf record) before)
      (uncounted : Uncounted event) : Tallied before event after
  | increment {event : PlanEvent τ ρ} {after : PlanState τ ρ}
      (count : after.memory.activeTaskScopes = before.memory.activeTaskScopes + 1)
      (active : after.memory.invocationActive = before.memory.invocationActive)
      (undecided : total undecided after = total undecided before + 1)
      (unreturned : total unreturned after = total unreturned before)
      (unreturnedOf : ∀ record,
        total (unreturnedOf record) after = total (unreturnedOf record) before)
      (uncounted : Uncounted event) : Tallied before event after
  | claim {event : PlanEvent τ ρ} {after : PlanState τ ρ} (claimed : ρ)
      (count : after.memory.activeTaskScopes = before.memory.activeTaskScopes)
      (inactive : before.memory.invocationActive claimed = false)
      (active : after.memory.invocationActive =
        Function.update before.memory.invocationActive claimed true)
      (undecided : total undecided after + 1 = total undecided before)
      (unreturned : total unreturned after = total unreturned before)
      (unreturnedOf : ∀ record,
        total (unreturnedOf record) after = total (unreturnedOf record) before)
      (claims : ∀ record, claims record [event] = if record = claimed then 1 else 0)
      (ends : ∀ record, ends record [event] = 0)
      (returns : ∀ record, returns record [event] = 0) : Tallied before event after
  | finish {event : PlanEvent τ ρ} {after : PlanState τ ρ} (ended : ρ)
      (count : after.memory.activeTaskScopes = before.memory.activeTaskScopes)
      (wasActive : before.memory.invocationActive ended = true)
      (active : after.memory.invocationActive =
        Function.update before.memory.invocationActive ended false)
      (undecided : total undecided after = total undecided before)
      (unreturned : total unreturned after = total unreturned before + 1)
      (unreturnedOf : ∀ record, total (unreturnedOf record) after =
        total (unreturnedOf record) before + if record = ended then 1 else 0)
      (claims : ∀ record, claims record [event] = 0)
      (ends : ∀ record, ends record [event] = if record = ended then 1 else 0)
      (returns : ∀ record, returns record [event] = 0) : Tallied before event after
  | giveBack {event : PlanEvent τ ρ} {after : PlanState τ ρ} (ended : Option ρ)
      (count : after.memory.activeTaskScopes = before.memory.activeTaskScopes - 1)
      (active : after.memory.invocationActive = before.memory.invocationActive)
      (both : total undecided after + total unreturned after + 1 =
        total undecided before + total unreturned before)
      (unreturnedOf : ∀ record, total (unreturnedOf record) before =
        total (unreturnedOf record) after + if ended = some record then 1 else 0)
      (claims : ∀ record, claims record [event] = 0)
      (ends : ∀ record, ends record [event] = 0)
      (returns : ∀ record, returns record [event] = if ended = some record then 1 else 0) :
      Tallied before event after

/-- All that is counted in the plan. -/
def outstanding [Fintype ρ] (state : PlanState τ ρ) : Nat :=
  activeRecords state.memory + total undecided state + total unreturned state

omit [DecidableEq ρ] in
/-- A thread that goes on moves the totals by what it weighs. -/
theorem total_goes (weight : Control ρ → List (Effect ρ) → Nat)
    (before : PlanState τ ρ) (memory : Memory ρ) (thread : τ) (next : Control ρ) :
    total weight { before.goes thread next with memory := memory } +
        weight (before.control thread) (before.inFlight thread) =
      total weight before + weight next (before.inFlight thread) := by
  have moved : total weight { before.goes thread next with memory := memory } +
        weight (before.control thread) (before.inFlight thread) =
      total weight before +
        weight (Function.update before.control thread next thread) (before.inFlight thread) :=
    total_update weight thread (fun _ apart => Function.update_of_ne apart _ _) fun _ _ => rfl
  rwa [Function.update_self] at moved

omit [DecidableEq ρ] in
theorem total_send (weight : Control ρ → List (Effect ρ) → Nat)
    (before : PlanState τ ρ) (thread : τ) (next : Control ρ) (queue : List (Effect ρ)) :
    total weight { before.goes thread next with
          inFlight := Function.update before.inFlight thread queue } +
        weight (before.control thread) (before.inFlight thread) =
      total weight before + weight next queue := by
  have moved : total weight { before.goes thread next with
          inFlight := Function.update before.inFlight thread queue } +
        weight (before.control thread) (before.inFlight thread) =
      total weight before +
        weight (Function.update before.control thread next thread)
          (Function.update before.inFlight thread queue thread) :=
    total_update weight thread (fun _ apart => Function.update_of_ne apart _ _)
      fun _ apart => Function.update_of_ne apart _ _
  rwa [Function.update_self, Function.update_self] at moved

omit [DecidableEq ρ] in
theorem total_land (weight : Control ρ → List (Effect ρ) → Nat)
    (before : PlanState τ ρ) (thread : τ) (memory : Memory ρ) (queue : List (Effect ρ)) :
    total weight { before with
          memory := memory
          inFlight := Function.update before.inFlight thread queue } +
        weight (before.control thread) (before.inFlight thread) =
      total weight before + weight (before.control thread) queue := by
  have moved : total weight { before with
          memory := memory
          inFlight := Function.update before.inFlight thread queue } +
        weight (before.control thread) (before.inFlight thread) =
      total weight before +
        weight (before.control thread) (Function.update before.inFlight thread queue thread) :=
    total_update weight thread (fun _ _ => rfl) fun _ apart => Function.update_of_ne apart _ _
  rwa [Function.update_self] at moved

/-- A thread that stays as it stood to the count leaves the totals. -/
theorem total_goes_of_standing (memory : Memory ρ) (thread : τ) {next : Control ρ}
    (deciding : (standing next.phase).isDeciding =
      (standing (before.control thread).phase).isDeciding)
    (returning : ∀ record, standing next.phase = .returning record ↔
      standing (before.control thread).phase = .returning record) :
    total undecided { before.goes thread next with memory := memory } =
        total undecided before ∧
      total unreturned { before.goes thread next with memory := memory } =
          total unreturned before ∧
        ∀ record, total (unreturnedOf record)
            { before.goes thread next with memory := memory } =
          total (unreturnedOf record) before := by
  have same : (standing next.phase).isReturning =
      (standing (before.control thread).phase).isReturning := by
    cases stands : standing next.phase with
    | returning record => rw [(returning record).1 stands]
    | _ =>
        cases stood : standing (before.control thread).phase with
        | returning record => rw [(returning record).2 stood] at stands; simp at stands
        | _ => rfl
  refine ⟨?_, ?_, fun record => ?_⟩
  · have moved := total_goes undecided before memory thread next
    simp only [undecided, deciding] at moved ⊢
    omega
  · have moved := total_goes unreturned before memory thread next
    simp only [unreturned, same] at moved ⊢
    omega
  · have moved := total_goes (unreturnedOf record) before memory thread next
    simp only [unreturnedOf, returning record] at moved ⊢
    omega

omit [DecidableEq τ] [Fintype τ] in
/-- A step to a phase that is neither a claim that succeeded nor an end. -/
theorem uncounted_act {thread : τ} {next : Control ρ}
    (plain : standing next.phase = .free ∨ standing next.phase = .deciding) :
    Uncounted (.act thread next : PlanEvent τ ρ) := by
  constructor <;> intro record <;> rcases plain with stands | stands <;>
    simp [claims, ends, returns, stands]

theorem tallied_act {thread : τ} {next : Control ρ} {memory : Memory ρ}
    (exchanged : Exchanged (before.control thread) before.memory memory next) :
    Tallied before (.act thread next) { before.goes thread next with memory := memory } := by
  cases exchanged with
  | quiet same plain count active =>
      obtain ⟨undecidedSame, unreturnedSame, ofSame⟩ :=
        total_goes_of_standing memory thread (by rw [same]) (fun record => by rw [same])
      exact .quiet count active undecidedSame unreturnedSame ofSame
        (uncounted_act (same ▸ plain))
  | increment from_free to_deciding count active =>
      refine .increment count active ?_ ?_ (fun record => ?_)
        (uncounted_act (.inr to_deciding))
      · have moved := total_goes undecided before memory thread next
        simp only [undecided, from_free, to_deciding, Standing.isDeciding] at moved ⊢
        simp only [Bool.toNat_true, Bool.toNat_false] at moved
        omega
      · have moved := total_goes unreturned before memory thread next
        simp only [unreturned, from_free, to_deciding, Standing.isReturning] at moved ⊢
        omega
      · have moved := total_goes (unreturnedOf record) before memory thread next
        simp only [unreturnedOf, from_free, to_deciding, reduceCtorEq] at moved ⊢
        omega
  | claim record from_deciding to_claimed count inactive active =>
      refine .claim record count inactive active ?_ ?_ (fun other => ?_) (fun other => ?_)
        (fun other => ?_) (fun other => ?_)
      · have moved := total_goes undecided before memory thread next
        simp only [undecided, from_deciding, to_claimed, Standing.isDeciding] at moved ⊢
        simp only [Bool.toNat_true, Bool.toNat_false] at moved
        omega
      · have moved := total_goes unreturned before memory thread next
        simp only [unreturned, from_deciding, to_claimed, Standing.isReturning] at moved ⊢
        omega
      · have moved := total_goes (unreturnedOf other) before memory thread next
        simp only [unreturnedOf, from_deciding, to_claimed, reduceCtorEq] at moved ⊢
        omega
      · simp [claims, to_claimed, eq_comm]
      · simp [ends, to_claimed]
      · simp [returns]
  | finish record from_free to_returning count wasActive active =>
      refine .finish record count wasActive active ?_ ?_ (fun other => ?_) (fun other => ?_)
        (fun other => ?_) (fun other => ?_)
      · have moved := total_goes undecided before memory thread next
        simp only [undecided, from_free, to_returning, Standing.isDeciding] at moved ⊢
        omega
      · have moved := total_goes unreturned before memory thread next
        simp only [unreturned, from_free, to_returning, Standing.isReturning] at moved ⊢
        simp only [Bool.toNat_true, Bool.toNat_false] at moved
        omega
      · have moved := total_goes (unreturnedOf other) before memory thread next
        simp only [unreturnedOf, from_free, to_returning, reduceCtorEq,
          Standing.returning.injEq] at moved ⊢
        by_cases here : record = other
        · simp only [here, decide_true, Bool.toNat_true, decide_false, Bool.toNat_false,
            if_true] at moved ⊢
          omega
        · simp only [here, Ne.symm here, decide_false, Bool.toNat_false, if_false] at moved ⊢
          omega
      · simp [claims, to_returning]
      · simp [ends, to_returning, eq_comm]
      · simp [returns]

omit [DecidableEq τ] [Fintype τ] in
/-- What a thread sends it still has to give back, until it lands. -/
theorem weights_send {control next : Control ρ} {effect : Effect ρ}
    (access : program control = .send effect next) (queue : List (Effect ρ)) :
    undecided next (queue ++ [effect]) = undecided control queue ∧
      unreturned next (queue ++ [effect]) = unreturned control queue ∧
        ∀ record, unreturnedOf record next (queue ++ [effect]) =
          unreturnedOf record control queue := by
  obtain ⟨free, cases⟩ := send_cases access
  simp only [undecided, unreturned, unreturnedOf, free, List.countP_append, List.count_append,
    Standing.isDeciding, Standing.isReturning, reduceCtorEq, decide_false, Bool.toNat_false,
    Nat.zero_add]
  rcases cases with ⟨refused, stood, rfl⟩ | ⟨ended, stood, rfl⟩ | ⟨stood, plain⟩
  · simp [stood, gives, Nat.add_comm]
  · refine ⟨by simp [stood, gives], by simp [stood, gives, Nat.add_comm], fun record => ?_⟩
    by_cases here : ended = record <;> simp [stood, here, Nat.add_comm]
  · refine ⟨?_, ?_, fun record => ?_⟩
    · cases effect <;> simp_all [gives]
    · cases effect <;> simp_all [gives]
    · simp [stood, plain record true]

theorem tallied_send {thread : τ} {effect : Effect ρ} {next : Control ρ}
    (access : program (before.control thread) = .send effect next) :
    Tallied before (.act thread next)
      { before.goes thread next with
        inFlight :=
          Function.update before.inFlight thread (before.inFlight thread ++ [effect]) } := by
  obtain ⟨undecidedSame, unreturnedSame, ofSame⟩ :=
    weights_send access (before.inFlight thread)
  have moved := fun weight => total_send weight before thread next
    (before.inFlight thread ++ [effect])
  refine .quiet rfl rfl ?_ ?_ (fun record => ?_) (uncounted_act (.inl (send_cases access).1))
  · have sent := moved undecided
    rw [undecidedSame] at sent
    omega
  · have sent := moved unreturned
    rw [unreturnedSame] at sent
    omega
  · have sent := moved (unreturnedOf record)
    rw [ofSame] at sent
    omega

/-- What lands was still to be given back, unless it belongs to a close. -/
theorem tallied_land {thread : τ} {effect : Effect ρ} {rest : List (Effect ρ)}
    (oldest : before.inFlight thread = effect :: rest) :
    Tallied before (.land thread effect)
      { before with
        memory := landed effect before.memory
        inFlight := Function.update before.inFlight thread rest } := by
  have moved := fun weight => total_land weight before thread (landed effect before.memory) rest
  rw [oldest] at moved
  cases effect with
  | giveBack record ended =>
      cases ended with
      | false =>
          refine .giveBack none rfl rfl ?_ (fun other => ?_) (fun other => ?_)
            (fun other => ?_) (fun other => ?_)
          · have first := moved undecided
            have second := moved unreturned
            simp [undecided, unreturned, gives] at first second
            omega
          · have sent := moved (unreturnedOf other)
            simp [unreturnedOf] at sent ⊢
            omega
          all_goals simp [claims, ends, returns]
      | true =>
          refine .giveBack (some record) rfl rfl ?_ (fun other => ?_) (fun other => ?_)
            (fun other => ?_) (fun other => ?_)
          · have first := moved undecided
            have second := moved unreturned
            simp [undecided, unreturned, gives] at first second
            omega
          · have sent := moved (unreturnedOf other)
            by_cases here : record = other <;> simp [unreturnedOf, here] at sent ⊢ <;> omega
          all_goals simp [claims, ends, returns, eq_comm]
  | _ =>
      refine .quiet rfl rfl ?_ ?_ (fun record => ?_) ?_
      · have sent := moved undecided
        simp [undecided, gives] at sent
        omega
      · have sent := moved unreturned
        simp [unreturned, gives] at sent
        omega
      · have sent := moved (unreturnedOf record)
        simp [unreturnedOf] at sent
        omega
      · constructor <;> simp [claims, ends, returns]

/-- What any step does to the counts. -/
theorem tallied_of_performed (performed : Performed rules before event after) :
    Tallied before event after := by
  cases performed with
  | @load thread follow access =>
      obtain ⟨same, plain⟩ := standing_load access (rules.seen before thread)
      exact tallied_act (.quiet same plain rfl rfl)
  | send access => exact tallied_send access
  | exchange access empty => exact tallied_act (exchange_cases access before.memory)
  | @take thread update memory next access taken =>
      obtain ⟨free, stood, count, active⟩ := take_quiet access taken
      exact tallied_act (.quiet (free.trans stood.symm) (.inl stood) count active)
  | @choose thread allowed next access chosen =>
      obtain ⟨free, undecidedNo, unreturnedNo⟩ := standing_choose access chosen
      obtain ⟨undecidedSame, unreturnedSame, ofSame⟩ :=
        total_goes_of_standing before.memory thread (by rw [free, undecidedNo]; rfl)
          (fun record => by
            constructor
            · intro stands
              rw [free] at stands
              cases stands
            · intro stood
              rw [stood] at unreturnedNo
              cases unreturnedNo)
      exact .quiet rfl rfl undecidedSame unreturnedSame ofSame (uncounted_act (.inl free))
  | land oldest => exact tallied_land oldest
  | outside change =>
      exact .quiet rfl rfl rfl rfl (fun _ => rfl)
        ⟨fun _ => rfl, fun _ => rfl, fun _ => rfl⟩

omit [DecidableEq τ] in
/-- A step's claims, ends and decrements of a record are what it changes of it. -/
theorem Tallied.record (tallied : Tallied before event after) (record : ρ) :
    (after.memory.invocationActive record).toNat + ends record [event] =
        (before.memory.invocationActive record).toNat + claims record [event] ∧
      total (unreturnedOf record) after + returns record [event] =
        total (unreturnedOf record) before + ends record [event] := by
  cases tallied with
  | quiet _ active _ _ same uncounted =>
      rw [active, same, uncounted.claims, uncounted.ends, uncounted.returns]
      exact ⟨rfl, rfl⟩
  | increment _ active _ _ same uncounted =>
      rw [active, same, uncounted.claims, uncounted.ends, uncounted.returns]
      exact ⟨rfl, rfl⟩
  | claim won _ inactive active _ _ same claims ends returns =>
      rw [active, same, claims, ends, returns]
      refine ⟨?_, rfl⟩
      by_cases here : record = won
      · simp [here, inactive]
      · simp [here]
  | finish stopped _ wasActive active _ _ more claims ends returns =>
      rw [active, more, claims, ends, returns]
      refine ⟨?_, rfl⟩
      by_cases here : record = stopped
      · simp [here, wasActive]
      · simp [here]
  | giveBack given _ active _ fewer claims ends returns =>
      rw [active, fewer, claims, ends, returns]
      exact ⟨rfl, rfl⟩

omit [DecidableEq τ] in
/-- A step moves the plan's count as it moves what is counted. -/
theorem Tallied.count [Fintype ρ] (tallied : Tallied before event after)
    (held : before.memory.activeTaskScopes = UInt32.ofNat (outstanding before)) :
    after.memory.activeTaskScopes = UInt32.ofNat (outstanding after) := by
  unfold outstanding at held ⊢
  cases tallied with
  | quiet count active undecidedSame unreturnedSame _ _ =>
      rw [count, held, undecidedSame, unreturnedSame, activeRecords, activeRecords, active]
  | increment count active undecidedMore unreturnedSame _ _ =>
      rw [count, held, undecidedMore, unreturnedSame, activeRecords, activeRecords, active,
        ← UInt32.ofNat_one, ← UInt32.ofNat_add]
      congr 1
      omega
  | claim record count inactive active undecidedLess unreturnedSame _ _ _ _ =>
      have moved := activeRecords_update active
      rw [inactive] at moved
      rw [count, held, unreturnedSame]
      congr 1
      simp only [Bool.toNat_false, Bool.toNat_true] at moved
      omega
  | finish record count wasActive active undecidedSame unreturnedMore _ _ _ _ =>
      have moved := activeRecords_update active
      rw [wasActive] at moved
      rw [count, held, undecidedSame]
      congr 1
      simp only [Bool.toNat_false, Bool.toNat_true] at moved
      omega
  | giveBack record count active both _ _ _ _ =>
      have one_more : activeRecords before.memory + total undecided before +
            total unreturned before =
          activeRecords after.memory + total undecided after + total unreturned after + 1 := by
        simp only [activeRecords, active]
        omega
      rw [count, held, one_more, UInt32.ofNat_add, UInt32.ofNat_one, UInt32.add_sub_cancel]

end Steps

/-! ## Whole runs -/

section Runs

variable [Fintype τ] {conditions : Conditions} {events : List (PlanEvent τ ρ)}
variable {final : PlanState τ ρ} {condition : PlanState τ ρ → PlanEvent τ ρ → Prop}

omit [DecidableEq τ] [DecidableEq ρ] in
theorem total_created (weight : Control ρ → List (Effect ρ) → Nat)
    (weightless : weight { scope := none, phase := .idle } [] = 0) :
    total weight (created conditions : PlanState τ ρ) = 0 := by
  simp [total, created, weightless]

/-- The count is a word, so it is what is counted up to the width of the word. -/
theorem count_of_run [Fintype ρ] (run : Run rules condition (created conditions) events final) :
    final.memory.activeTaskScopes = UInt32.ofNat (outstanding final) := by
  refine run.keeps
    (fun _ state => state.memory.activeTaskScopes = UInt32.ofNat (outstanding state)) ?_ ?_
  · rw [outstanding, total_created _ rfl, total_created _ rfl]
    simp [activeRecords, created]
  · intro _ event before after _ held _ performed
    exact (tallied_of_performed performed).count held

/-- A record's claims, ends and decrements, against what is active or still to be given
back. -/
structure Accounted (record : ρ) (events : List (PlanEvent τ ρ)) (state : PlanState τ ρ) :
    Prop where
  claims : claims record events =
    ends record events + (state.memory.invocationActive record).toNat
  ends : ends record events = returns record events + total (unreturnedOf record) state

theorem accounted_of_run (run : Run rules condition (created conditions) events final)
    (record : ρ) : Accounted record events final := by
  refine run.keeps (fun events state => Accounted record events state) ?_ ?_
  · exact ⟨rfl, by rw [total_created _ rfl]; rfl⟩
  · intro events event before after _ held _ performed
    have claimsSplit : PlanCounts.claims record (events ++ [event]) =
        PlanCounts.claims record events + PlanCounts.claims record [event] :=
      List.countP_append
    have endsSplit : PlanCounts.ends record (events ++ [event]) =
        PlanCounts.ends record events + PlanCounts.ends record [event] := List.countP_append
    have returnsSplit : returns record (events ++ [event]) =
        returns record events + returns record [event] := List.countP_append
    obtain ⟨activeMoved, unreturnedMoved⟩ := (tallied_of_performed performed).record record
    have claimed := held.claims
    have ended := held.ends
    constructor
    · omega
    · omega

end Runs

end ShadowSpill.Runtime.PlanCounts
