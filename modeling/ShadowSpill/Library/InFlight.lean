import Mathlib

/-!
# Memory with effects in flight

Threads share a memory through accesses that take effect one at a time.  A release
that returns nothing may stay in flight while its thread goes on to later loads: the
thread sees it, the others do not until it lands, and what one thread has in flight
lands in order.
-/

namespace ShadowSpill.Library.InFlight

/-! ## Threads and their accesses -/

/-- What a thread does next, and where it goes from there. -/
inductive Access (Memory Effect Control : Type) where
  /-- An acquire load: nothing later takes effect before it. -/
  | load (follow : Memory → Control)
  /-- A release that returns nothing: it follows all that came before it. -/
  | send (effect : Effect) (next : Control)
  /-- An acquire and release at once: what the thread has in flight lands first. -/
  | exchange (update : Memory → Memory × Control)
  /-- A change whatever the thread has in flight, for which the thread may wait. -/
  | take (update : Memory → Option (Memory × Control))
  /-- Nothing shared: the thread goes one of several ways. -/
  | choose (allowed : Control → Bool)

/-- The threads' program, what effects do when they land, and what else may change. -/
structure Rules (Memory Effect Control Outside : Type) where
  access : Control → Access Memory Effect Control
  land : Effect → Memory → Memory
  outside : Outside → Memory → Memory

structure Shared (Thread Memory Effect Control : Type) where
  memory : Memory
  inFlight : Thread → List Effect
  control : Thread → Control

/-- One step: a thread goes on, its oldest effect lands, or something else changes. -/
inductive Event (Thread Effect Control Outside : Type) where
  | act (thread : Thread) (next : Control)
  | land (thread : Thread) (effect : Effect)
  | outside (change : Outside)

variable {Thread Memory Effect Control Outside : Type}

/-- A thread sees the memory as if all it has in flight had landed. -/
def Rules.seen (rules : Rules Memory Effect Control Outside)
    (state : Shared Thread Memory Effect Control) (thread : Thread) : Memory :=
  (state.inFlight thread).foldl (fun memory effect => rules.land effect memory) state.memory

variable [DecidableEq Thread]

def Shared.goes (state : Shared Thread Memory Effect Control) (thread : Thread)
    (next : Control) : Shared Thread Memory Effect Control :=
  { state with control := Function.update state.control thread next }

@[simp]
theorem goes_control_self (state : Shared Thread Memory Effect Control) (thread : Thread)
    (next : Control) : (state.goes thread next).control thread = next := by
  simp [Shared.goes]

theorem goes_control_of_ne (state : Shared Thread Memory Effect Control)
    {thread other : Thread} (next : Control) (apart : other ≠ thread) :
    (state.goes thread next).control other = state.control other :=
  Function.update_of_ne apart _ _

/-- The thread's next access. -/
def Rules.act [DecidableEq Control] (rules : Rules Memory Effect Control Outside)
    (state : Shared Thread Memory Effect Control) (thread : Thread) (next : Control) :
    Option (Shared Thread Memory Effect Control) :=
  match rules.access (state.control thread) with
  | .load follow =>
    if follow (rules.seen state thread) = next then some (state.goes thread next) else none
  | .send effect follow =>
    if follow = next then
      some { state.goes thread next with
        inFlight :=
          Function.update state.inFlight thread (state.inFlight thread ++ [effect]) }
    else none
  | .exchange update =>
    if state.inFlight thread = [] ∧ (update state.memory).2 = next then
      some { state.goes thread next with memory := (update state.memory).1 }
    else none
  | .take update =>
    match update state.memory with
    | some (memory, follow) =>
      if follow = next then some { state.goes thread next with memory := memory } else none
    | none => none
  | .choose allowed => if allowed next then some (state.goes thread next) else none

def Rules.perform [DecidableEq Effect] [DecidableEq Control]
    (rules : Rules Memory Effect Control Outside)
    (state : Shared Thread Memory Effect Control) :
    Event Thread Effect Control Outside → Option (Shared Thread Memory Effect Control)
  | .act thread next => rules.act state thread next
  | .land thread effect =>
    match state.inFlight thread with
    | [] => none
    | oldest :: rest =>
      if oldest = effect then
        some { state with
          memory := rules.land effect state.memory
          inFlight := Function.update state.inFlight thread rest }
      else none
  | .outside change => some { state with memory := rules.outside change state.memory }

/-! ## What one step does -/

/-- The ways a step can go. -/
inductive Performed (rules : Rules Memory Effect Control Outside)
    (before : Shared Thread Memory Effect Control) :
    Event Thread Effect Control Outside → Shared Thread Memory Effect Control → Prop where
  | load {thread : Thread} {follow : Memory → Control}
      (access : rules.access (before.control thread) = .load follow) :
      Performed rules before (.act thread (follow (rules.seen before thread)))
        (before.goes thread (follow (rules.seen before thread)))
  | send {thread : Thread} {effect : Effect} {next : Control}
      (access : rules.access (before.control thread) = .send effect next) :
      Performed rules before (.act thread next)
        { before.goes thread next with
          inFlight :=
            Function.update before.inFlight thread (before.inFlight thread ++ [effect]) }
  | exchange {thread : Thread} {update : Memory → Memory × Control}
      (access : rules.access (before.control thread) = .exchange update)
      (landed : before.inFlight thread = []) :
      Performed rules before (.act thread (update before.memory).2)
        { before.goes thread (update before.memory).2 with
          memory := (update before.memory).1 }
  | take {thread : Thread} {update : Memory → Option (Memory × Control)}
      {memory : Memory} {next : Control}
      (access : rules.access (before.control thread) = .take update)
      (taken : update before.memory = some (memory, next)) :
      Performed rules before (.act thread next)
        { before.goes thread next with memory := memory }
  | choose {thread : Thread} {allowed : Control → Bool} {next : Control}
      (access : rules.access (before.control thread) = .choose allowed)
      (chosen : allowed next = true) :
      Performed rules before (.act thread next) (before.goes thread next)
  | land {thread : Thread} {effect : Effect} {rest : List Effect}
      (oldest : before.inFlight thread = effect :: rest) :
      Performed rules before (.land thread effect)
        { before with
          memory := rules.land effect before.memory
          inFlight := Function.update before.inFlight thread rest }
  | outside (change : Outside) :
      Performed rules before (.outside change)
        { before with memory := rules.outside change before.memory }

section Steps

variable {rules : Rules Memory Effect Control Outside}
variable {before after : Shared Thread Memory Effect Control}
variable {event : Event Thread Effect Control Outside}

theorem performed_of_act [DecidableEq Control] {thread : Thread} {next : Control}
    (acted : rules.act before thread next = some after) :
    Performed rules before (.act thread next) after := by
  unfold Rules.act at acted
  cases access : rules.access (before.control thread) with
  | load follow =>
      simp only [access, Option.ite_none_right_eq_some, Option.some.injEq] at acted
      obtain ⟨rfl, rfl⟩ := acted
      exact .load access
  | send effect follow =>
      simp only [access, Option.ite_none_right_eq_some, Option.some.injEq] at acted
      obtain ⟨rfl, rfl⟩ := acted
      exact .send access
  | exchange update =>
      simp only [access, Option.ite_none_right_eq_some, Option.some.injEq] at acted
      obtain ⟨⟨landed, rfl⟩, rfl⟩ := acted
      exact .exchange access landed
  | take update =>
      simp only [access] at acted
      cases taken : update before.memory with
      | none => simp [taken] at acted
      | some result =>
          obtain ⟨memory, follow⟩ := result
          simp only [taken, Option.ite_none_right_eq_some, Option.some.injEq] at acted
          obtain ⟨rfl, rfl⟩ := acted
          exact .take access taken
  | choose allowed =>
      simp only [access, Option.ite_none_right_eq_some, Option.some.injEq] at acted
      obtain ⟨chosen, rfl⟩ := acted
      exact .choose access chosen

theorem performed_of_perform [DecidableEq Effect] [DecidableEq Control]
    (performed : rules.perform before event = some after) :
    Performed rules before event after := by
  cases event with
  | act thread next => exact performed_of_act performed
  | land thread effect =>
      cases inFlight : before.inFlight thread with
      | nil => simp [Rules.perform, inFlight] at performed
      | cons oldest rest =>
          simp only [Rules.perform, inFlight, Option.ite_none_right_eq_some,
            Option.some.injEq] at performed
          obtain ⟨rfl, rfl⟩ := performed
          exact .land inFlight
  | outside change =>
      simp only [Rules.perform, Option.some.injEq] at performed
      subst performed
      exact .outside change

/-- Nothing a thread sees changes when its own oldest effect lands. -/
theorem seen_land {thread : Thread} {effect : Effect} {rest : List Effect}
    (oldest : before.inFlight thread = effect :: rest) :
    rules.seen { before with
        memory := rules.land effect before.memory
        inFlight := Function.update before.inFlight thread rest } thread =
      rules.seen before thread := by
  simp [Rules.seen, oldest]

omit [DecidableEq Thread] in
theorem seen_of_landed {thread : Thread} (landed : before.inFlight thread = []) :
    rules.seen before thread = before.memory := by
  simp [Rules.seen, landed]

end Steps

/-! ## Runs -/

section Running

variable [DecidableEq Effect] [DecidableEq Control]

/-- The steps of a run, each of which meets a condition on the state before it. -/
inductive Run (rules : Rules Memory Effect Control Outside)
    (condition : Shared Thread Memory Effect Control →
      Event Thread Effect Control Outside → Prop)
    (initial : Shared Thread Memory Effect Control) :
    List (Event Thread Effect Control Outside) → Shared Thread Memory Effect Control →
      Prop where
  | start : Run rules condition initial [] initial
  | next {events : List (Event Thread Effect Control Outside)}
      {event : Event Thread Effect Control Outside}
      {before after : Shared Thread Memory Effect Control}
      (run : Run rules condition initial events before) (meets : condition before event)
      (performed : rules.perform before event = some after) :
      Run rules condition initial (events ++ [event]) after

/-- All orders of the steps. -/
def Free (_ : Shared Thread Memory Effect Control)
    (_ : Event Thread Effect Control Outside) : Prop := True

variable {rules : Rules Memory Effect Control Outside}
variable {condition : Shared Thread Memory Effect Control →
  Event Thread Effect Control Outside → Prop}
variable {initial before final : Shared Thread Memory Effect Control}
variable {events later : List (Event Thread Effect Control Outside)}

/-- What a run starts with and each step keeps, it ends with. -/
theorem Run.keeps
    (invariant : List (Event Thread Effect Control Outside) →
      Shared Thread Memory Effect Control → Prop)
    (run : Run rules condition initial events final) (start : invariant [] initial)
    (step : ∀ events event before after, Run rules condition initial events before →
      invariant events before → condition before event →
      Performed rules before event after → invariant (events ++ [event]) after) :
    invariant events final := by
  induction run with
  | start => exact start
  | next run meets performed kept =>
      exact step _ _ _ _ run kept meets (performed_of_perform performed)

/-- The last step of a run. -/
theorem Run.last {event : Event Thread Effect Control Outside}
    (run : Run rules condition initial (events ++ [event]) final) :
    ∃ before, Run rules condition initial events before ∧
      Performed rules before event final := by
  generalize split : events ++ [event] = all at run
  cases run with
  | start => simp at split
  | next run _ performed =>
      obtain ⟨rfl, same⟩ := List.append_inj' split rfl
      cases same
      exact ⟨_, run, performed_of_perform performed⟩

/-- The steps one after the other, as long as each of them can be taken. -/
def Rules.replay (rules : Rules Memory Effect Control Outside)
    (state : Shared Thread Memory Effect Control) :
    List (Event Thread Effect Control Outside) →
      Option (Shared Thread Memory Effect Control)
  | [] => some state
  | event :: events =>
    match rules.perform state event with
    | some after => rules.replay after events
    | none => none

/-- Every step of a replay passes a check on the state before it. -/
def Rules.passes (rules : Rules Memory Effect Control Outside)
    (check : Shared Thread Memory Effect Control →
      Event Thread Effect Control Outside → Bool)
    (state : Shared Thread Memory Effect Control) :
    List (Event Thread Effect Control Outside) → Bool
  | [] => true
  | event :: events =>
    check state event &&
      match rules.perform state event with
      | some after => rules.passes check after events
      | none => false

/-- A run with a condition is a run. -/
theorem Run.free (run : Run rules condition initial events final) :
    Run rules Free initial events final := by
  induction run with
  | start => exact .start
  | next _ _ performed inductionHypothesis => exact .next inductionHypothesis trivial performed

theorem Run.replays {check : Shared Thread Memory Effect Control →
      Event Thread Effect Control Outside → Bool}
    (sound : ∀ state event, check state event = true → condition state event)
    (run : Run rules condition initial events before)
    (passed : rules.passes check before later = true)
    (replayed : rules.replay before later = some final) :
    Run rules condition initial (events ++ later) final := by
  induction later generalizing events before with
  | nil =>
      simp only [Rules.replay, Option.some.injEq] at replayed
      rw [List.append_nil, ← replayed]
      exact run
  | cons event rest inductionHypothesis =>
      simp only [Rules.passes, Bool.and_eq_true] at passed
      simp only [Rules.replay] at replayed
      cases performed : rules.perform before event with
      | none => simp [performed] at replayed
      | some after =>
          simp only [performed] at replayed passed
          have extended := inductionHypothesis
            (.next run (sound before event passed.1) performed) passed.2 replayed
          simpa using extended

/-- Without a check every replay passes. -/
theorem passes_of_replay (replayed : rules.replay before later = some final) :
    rules.passes (fun _ _ => true) before later = true := by
  induction later generalizing before with
  | nil => rfl
  | cons event rest inductionHypothesis =>
      simp only [Rules.replay] at replayed
      simp only [Rules.passes, Bool.true_and]
      cases performed : rules.perform before event with
      | none => simp [performed] at replayed
      | some after =>
          simp only [performed] at replayed
          exact inductionHypothesis replayed

theorem run_of_replay (replayed : rules.replay initial later = some final) :
    Run rules Free initial later final := by
  have run : Run rules Free initial ([] ++ later) final :=
    Run.replays (fun _ _ _ => trivial) .start (passes_of_replay replayed) replayed
  rwa [List.nil_append] at run

theorem replay_append (earlier : List (Event Thread Effect Control Outside)) :
    rules.replay initial (earlier ++ later) =
      (rules.replay initial earlier).bind fun state => rules.replay state later := by
  induction earlier generalizing initial with
  | nil => rfl
  | cons event rest inductionHypothesis =>
      simp only [List.cons_append, Rules.replay]
      cases rules.perform initial event with
      | none => rfl
      | some after => exact inductionHypothesis

theorem exists_run_of_replay {property : Shared Thread Memory Effect Control → Bool}
    (replayed : (rules.replay initial later).any property = true) :
    ∃ final, Run rules Free initial later final ∧ property final = true := by
  cases ends : rules.replay initial later with
  | none => simp [ends] at replayed
  | some final =>
      rw [ends] at replayed
      exact ⟨final, run_of_replay ends, replayed⟩

/-- A replay whose steps pass a check is a run with what the check is sound for. -/
theorem exists_run_of_passes {check : Shared Thread Memory Effect Control →
      Event Thread Effect Control Outside → Bool}
    {property : Shared Thread Memory Effect Control → Bool}
    (sound : ∀ state event, check state event = true → condition state event)
    (passed : rules.passes check initial later = true)
    (replayed : (rules.replay initial later).any property = true) :
    ∃ final, Run rules condition initial later final ∧ property final = true := by
  cases ends : rules.replay initial later with
  | none => simp [ends] at replayed
  | some final =>
      rw [ends] at replayed
      exact ⟨final, Run.replays sound .start passed ends, replayed⟩

end Running

/-! ## Totals over the threads -/

section Totals

variable [Fintype Thread]

/-- A weight of all threads together. -/
def total (weight : Control → List Effect → Nat)
    (state : Shared Thread Memory Effect Control) : Nat :=
  ∑ thread, weight (state.control thread) (state.inFlight thread)

/-- When one thread moves, the total moves by what it does to that thread. -/
theorem total_update (weight : Control → List Effect → Nat)
    {before after : Shared Thread Memory Effect Control} (thread : Thread)
    (control : ∀ other, other ≠ thread → after.control other = before.control other)
    (inFlight : ∀ other, other ≠ thread → after.inFlight other = before.inFlight other) :
    total weight after + weight (before.control thread) (before.inFlight thread) =
      total weight before + weight (after.control thread) (after.inFlight thread) := by
  have split : ∀ state : Shared Thread Memory Effect Control,
      total weight state = weight (state.control thread) (state.inFlight thread) +
        ∑ other ∈ Finset.univ.erase thread,
          weight (state.control other) (state.inFlight other) := by
    intro state
    exact (Finset.add_sum_erase _ _ (Finset.mem_univ thread)).symm
  have others : ∑ other ∈ Finset.univ.erase thread,
        weight (after.control other) (after.inFlight other) =
      ∑ other ∈ Finset.univ.erase thread,
        weight (before.control other) (before.inFlight other) := by
    apply Finset.sum_congr rfl
    intro other member
    rw [control other (Finset.ne_of_mem_erase member),
      inFlight other (Finset.ne_of_mem_erase member)]
  rw [split after, split before, others]
  omega

omit [DecidableEq Thread] in
/-- What a thread weighs is part of the total. -/
theorem weight_le_total (weight : Control → List Effect → Nat)
    (state : Shared Thread Memory Effect Control) (thread : Thread) :
    weight (state.control thread) (state.inFlight thread) ≤ total weight state :=
  Finset.single_le_sum
    (f := fun other => weight (state.control other) (state.inFlight other))
    (fun _ _ => Nat.zero_le _) (Finset.mem_univ thread)

/-- A thread that weighs as much as all together leaves the others nothing. -/
theorem weight_eq_zero_of_total (weight : Control → List Effect → Nat)
    (state : Shared Thread Memory Effect Control) (thread : Thread) {other : Thread}
    (all : total weight state ≤ weight (state.control thread) (state.inFlight thread))
    (apart : other ≠ thread) : weight (state.control other) (state.inFlight other) = 0 := by
  have split := Finset.add_sum_erase Finset.univ
    (fun other => weight (state.control other) (state.inFlight other)) (Finset.mem_univ thread)
  have rest : ∑ other ∈ Finset.univ.erase thread,
      weight (state.control other) (state.inFlight other) = 0 := by
    unfold total at all
    omega
  exact Finset.sum_eq_zero_iff.1 rest other (Finset.mem_erase.2 ⟨apart, Finset.mem_univ other⟩)

end Totals

end ShadowSpill.Library.InFlight
