import ShadowSpill.Runtime.PlanCounts

/-!
# The plan's gate

One close at a time announces itself, closes the plan or opens it again.  What a closer
has sent may still be in flight, so the gate is told as the closer sees it.
-/

namespace ShadowSpill.Runtime.PlanGate

open Library.InFlight PlanInvocations
open ShadowSpill.Runtime.PlanCounts (standing)

variable {τ ρ : Type} [DecidableEq τ] [DecidableEq ρ]

/-! ## The gate -/

/-- The announcement, the close, and whether the tasks are cleared. -/
structure Gate where
  closing : Bool
  closed : Bool
  cleared : Bool
deriving DecidableEq

def gate (memory : Memory ρ) : Gate :=
  ⟨memory.closing, memory.closed, memory.tasksCleared⟩

/-- What an effect does to the gate. -/
def passes (gate : Gate) : Effect ρ → Gate
  | .setClosing value => { gate with closing := value }
  | .setClosed => { gate with closed := true }
  | _ => gate

/-- The effects of a close. -/
def ofClose : Effect ρ → Bool
  | .giveBack _ _ => false
  | _ => true

/-- What a thread has in flight of a close. -/
def pending (inFlight : List (Effect ρ)) : List (Effect ρ) :=
  inFlight.filter ofClose

/-- What a close leaves: a closed plan, or one that is open as before. -/
def Gate.result (status : PlanStatus) : Gate :=
  if status = .ok then ⟨true, true, true⟩ else ⟨false, false, false⟩

def Gate.announced : Gate := ⟨true, false, false⟩

def Gate.emptied : Gate := ⟨true, false, true⟩

/-- Between two closes the gate is open or closed. -/
def Gate.Settled (gate : Gate) : Prop := ∃ status, gate = .result status

/-- What a close sends before it gives the lock back. -/
def outcome (status : PlanStatus) : List (Effect ρ) :=
  [.setClosing true, if status = .ok then .setClosed else .setClosing false]

/-- Where a thread stands to the gate. -/
inductive Place where
  | outside
  | checking
  | announcing
  | waiting
  | failing (status : PlanStatus)
  | emptied
  | leaving (status : PlanStatus)

def place : Phase ρ → Place
  | .closeClosed => .checking
  | .storeClosing => .announcing
  | .waitIdle .caller _ => .outside
  | .waitIdle _ _ => .waiting
  | .clearTasks _ => .waiting
  | .reopen status => .failing status
  | .storeClosed => .emptied
  | .unlock status => .leaving status
  | _ => .outside

/-- What a thread has in flight of a close, and the gate as it sees it. -/
def Holds (place : Place) (pending : List (Effect ρ)) (gate : Gate) : Prop :=
  match place with
  | .outside => ∃ status, pending <:+ outcome status ++ [.unlock status] ∧
      (pending ≠ [] → gate = .result status)
  | .checking => pending = [] ∧ gate.Settled
  | .announcing => pending = [] ∧ gate = .result .invalidState
  | .waiting => pending <:+ [.setClosing true] ∧ gate = .announced
  | .failing status => status ≠ .ok ∧ pending <:+ [.setClosing true] ∧ gate = .announced
  | .emptied => pending <:+ [.setClosing true] ∧ gate = .emptied
  | .leaving status => pending <:+ outcome status ∧ gate = .result status

/-- The thread has the lock, or has given it back without the others seeing it. -/
def Owns (state : PlanState τ ρ) (thread : τ) : Prop :=
  place (state.control thread).phase ≠ .outside ∨ pending (state.inFlight thread) ≠ []

structure Gated (state : PlanState τ ρ) : Prop where
  holds : ∀ thread, Holds (place (state.control thread).phase)
    (pending (state.inFlight thread)) (gate (rules.seen state thread))
  unique : ∀ thread other, Owns state thread → Owns state other → thread = other
  locked : state.memory.lifecycleLock = true ↔ ∃ thread, Owns state thread
  settled : (∀ thread, ¬ Owns state thread) → (gate state.memory).Settled
  landed : ∀ thread, standing (state.control thread).phase = .deciding →
    state.inFlight thread = []

/-! ## What is seen of the gate -/

section Seen

variable {before after : PlanState τ ρ} {thread : τ} {effect : Effect ρ}

omit [DecidableEq ρ] in
@[simp]
theorem gate_landed (memory : Memory ρ) :
    gate (landed effect memory) = passes (gate memory) effect := by
  cases effect <;> rfl

omit [DecidableEq τ] in
theorem gate_seen (state : PlanState τ ρ) (thread : τ) :
    gate (rules.seen state thread) =
      (state.inFlight thread).foldl passes (gate state.memory) := by
  unfold Rules.seen
  generalize state.inFlight thread = queue
  generalize state.memory = memory
  induction queue generalizing memory with
  | nil => rfl
  | cons effect rest inductionHypothesis =>
      rw [List.foldl_cons, List.foldl_cons, ← gate_landed]
      exact inductionHypothesis (landed effect memory)

omit [DecidableEq ρ] in
/-- Counts in flight do not change the gate. -/
theorem foldl_passes_pending (queue : List (Effect ρ)) (start : Gate) :
    queue.foldl passes start = (pending queue).foldl passes start := by
  induction queue generalizing start with
  | nil => rfl
  | cons effect rest inductionHypothesis =>
      rw [List.foldl_cons, inductionHypothesis]
      cases effect <;> rfl

omit [DecidableEq τ] in
/-- A thread that has nothing of a close in flight sees the gate as it is. -/
theorem gate_seen_of_pending {state : PlanState τ ρ}
    (none : pending (state.inFlight thread) = []) :
    gate (rules.seen state thread) = gate state.memory := by
  rw [gate_seen, foldl_passes_pending, none]
  rfl

omit [DecidableEq τ] in
theorem gate_seen_congr (queue : after.inFlight thread = before.inFlight thread)
    (gates : gate after.memory = gate before.memory) :
    gate (rules.seen after thread) = gate (rules.seen before thread) := by
  rw [gate_seen, gate_seen, queue, gates]

omit [DecidableEq ρ] in
@[simp]
theorem pending_append (queue : List (Effect ρ)) (effect : Effect ρ) :
    pending (queue ++ [effect]) =
      pending queue ++ if ofClose effect then [effect] else [] := by
  simp [pending, List.filter_cons]

omit [DecidableEq ρ] in
omit [DecidableEq τ] [DecidableEq ρ] in
theorem holds_outside {state : PlanState τ ρ} (free : ¬ Owns state thread) (gate : Gate) :
    Holds (place (state.control thread).phase) (pending (state.inFlight thread)) gate := by
  simp only [Owns, ne_eq, not_or, not_not] at free
  rw [free.1, free.2]
  exact ⟨.ok, List.nil_suffix, fun some => absurd rfl some⟩

end Seen

/-! ## The accesses -/

section Accesses

variable {control next : Control ρ} {effect : Effect ρ} {flight : List (Effect ρ)}

omit [DecidableEq ρ] in
theorem place_waited {waiter : Waiter} (status : PlanStatus) :
    place (waited waiter status : Phase ρ) =
      match waiter with
      | .caller => .outside
      | _ => if status = .ok then .waiting else .failing status := by
  cases waiter <;> simp only [waited, apply_ite place] <;> rfl

omit [DecidableEq ρ] in
/-- A close's wait goes on, or fails with a status that says why. -/
theorem holds_waitIdle {waiter : Waiter} {step : WaitStep} {memory : Memory ρ} {seen : Gate}
    (holds : Holds (place (.waitIdle waiter step : Phase ρ)) flight seen) :
    Holds (place (waitIdle waiter step memory)) flight seen ∧
      (place (waitIdle waiter step memory) = .outside ↔
        place (.waitIdle waiter step : Phase ρ) = .outside) := by
  have returned : ∀ status, Holds (place (waited waiter status : Phase ρ)) flight seen ∧
      (place (waited waiter status : Phase ρ) = .outside ↔
        place (.waitIdle waiter step : Phase ρ) = .outside) := by
    intro status
    rw [place_waited]
    cases waiter with
    | caller => exact ⟨holds, iff_of_true rfl rfl⟩
    | close | clear =>
        by_cases ok : status = .ok
        · simp only [ok, if_true]
          exact ⟨holds, iff_of_false Place.noConfusion Place.noConfusion⟩
        · simp only [ok, if_false]
          exact ⟨⟨ok, holds⟩, iff_of_false Place.noConfusion Place.noConfusion⟩
  have goes : ∀ later, Holds (place (.waitIdle waiter later : Phase ρ)) flight seen ∧
      (place (.waitIdle waiter later : Phase ρ) = .outside ↔
        place (.waitIdle waiter step : Phase ρ) = .outside) := by
    intro later
    cases waiter <;> exact ⟨holds, Iff.rfl⟩
  cases step <;> unfold waitIdle <;> simp only <;> split_ifs <;>
    first
      | exact returned _
      | exact goes _

/-- What a load sees of the gate is where the thread goes. -/
theorem holds_load {follow : Memory ρ → Control ρ} (access : program control = .load follow)
    {memory : Memory ρ} (holds : Holds (place control.phase) flight (gate memory)) :
    Holds (place (follow memory).phase) flight (gate memory) ∧
      (place (follow memory).phase = .outside ↔ place control.phase = .outside) := by
  unfold program at access
  cases phase : control.phase <;> rw [phase] at holds <;>
    simp only [phase, Access.load.injEq, reduceCtorEq] at access
  case closeClosed =>
    subst access
    obtain ⟨none, status, settled⟩ := holds
    have closed : memory.closed = (Gate.result status).closed := congrArg Gate.closed settled
    by_cases ok : status = .ok
    · subst ok
      simp only [show memory.closed = true from closed, if_true]
      exact ⟨⟨none ▸ List.nil_suffix, settled⟩,
        iff_of_false Place.noConfusion Place.noConfusion⟩
    · have openGate : Gate.result status = Gate.result .invalidState := by
        simp [Gate.result, ok]
      rw [openGate] at closed settled
      simp only [show memory.closed = false from closed, Bool.false_eq_true, if_false]
      exact ⟨⟨none, settled⟩, iff_of_false Place.noConfusion Place.noConfusion⟩
  case waitIdle waiter step =>
    subst access
    exact holds_waitIdle holds
  case clearTasks step =>
    cases step <;> simp only [clearTasks, Access.load.injEq, reduceCtorEq] at access
    all_goals
      subst access
      simp only
      split_ifs
      · exact ⟨⟨PlanStatus.noConfusion, holds⟩,
          iff_of_false Place.noConfusion Place.noConfusion⟩
      · exact ⟨holds, iff_of_false Place.noConfusion Place.noConfusion⟩
  all_goals
    subst access
    simp only
    split_ifs <;> exact ⟨holds, iff_of_true rfl rfl⟩

/-- A choice stays on its side of the lock. -/
theorem holds_choose {allowed : Control ρ → Bool} {seen : Gate}
    (access : program control = .choose allowed) (chosen : allowed next = true)
    (holds : Holds (place control.phase) flight seen) :
    Holds (place next.phase) flight seen ∧
      (place next.phase = .outside ↔ place control.phase = .outside) := by
  unfold program at access
  cases phase : control.phase <;> rw [phase] at holds <;>
    simp only [phase, Access.choose.injEq, reduceCtorEq] at access
  case clearTasks step =>
    cases step <;> simp only [clearTasks, Access.choose.injEq, reduceCtorEq] at access
    subst access
    cases nextPhase : next.phase <;> simp only [nextPhase, Bool.false_eq_true] at chosen
    case clearTasks later =>
      exact ⟨holds, iff_of_false Place.noConfusion Place.noConfusion⟩
    case reopen status =>
      simp only [Bool.and_eq_true, decide_eq_true_eq] at chosen
      exact ⟨⟨chosen.1, holds⟩, iff_of_false Place.noConfusion Place.noConfusion⟩
  all_goals
    subst access
    simp only [Bool.or_eq_true, Bool.and_eq_true, decide_eq_true_eq] at chosen
  case idle =>
    have outside : place next.phase = .outside := by
      rcases chosen with ⟨-, begins⟩ | leaves
      · cases nextPhase : next.phase with
        | waitIdle waiter step =>
            cases waiter <;> simp [nextPhase, Phase.begins] at begins
            rfl
        | _ => simp [nextPhase, Phase.begins] at begins <;> rfl
      · cases scope : control.scope with
        | none => simp [scope] at leaves
        | some entered =>
            simp only [scope, decide_eq_true_eq] at leaves
            rw [leaves]
            rfl
    rw [outside]
    exact ⟨holds, iff_of_true rfl rfl⟩
  case claimed record =>
    rcases chosen with rfl | rfl <;> exact ⟨holds, iff_of_true rfl rfl⟩
  case enterScope record =>
    rcases chosen with rfl | ⟨-, rfl⟩ <;> exact ⟨holds, iff_of_true rfl rfl⟩

/-- The exchanges are outside the gate. -/
theorem outside_exchange {update : Memory ρ → Memory ρ × Control ρ}
    (access : program control = .exchange update) (memory : Memory ρ) :
    place control.phase = .outside ∧ place (update memory).2.phase = .outside ∧
      gate (update memory).1 = gate memory ∧
        (update memory).1.lifecycleLock = memory.lifecycleLock := by
  unfold program at access
  cases phase : control.phase <;>
    simp only [phase, Access.exchange.injEq, reduceCtorEq] at access
  case clearTasks step =>
    cases step <;> simp only [clearTasks, reduceCtorEq] at access
  all_goals
    subst access
    refine ⟨rfl, ?_⟩
  case compareExchange record =>
    simp only
    split_ifs <;> exact ⟨rfl, rfl, rfl⟩
  case endInvocation record =>
    refine ⟨?_, rfl, rfl⟩
    simp only
    split_ifs <;> rfl
  all_goals exact ⟨rfl, rfl, rfl⟩

/-- What is sent is a count, or the next store of a close. -/
theorem holds_send (access : program control = .send effect next) {seen : Gate}
    (holds : Holds (place control.phase) flight seen) :
    Holds (place next.phase) (flight ++ if ofClose effect then [effect] else [])
        (passes seen effect) ∧
      (place control.phase = .outside ↔
        place next.phase = .outside ∧ ofClose effect = false) := by
  unfold program at access
  cases phase : control.phase <;> rw [phase] at holds <;>
    simp only [phase, Access.send.injEq, reduceCtorEq] at access
  case clearTasks step =>
    cases step <;> simp only [clearTasks, reduceCtorEq] at access
  all_goals obtain ⟨rfl, rfl⟩ := access
  case refuse record =>
    rw [show ofClose (.giveBack record false : Effect ρ) = false from rfl, if_neg (by simp),
      List.append_nil]
    exact ⟨holds, iff_of_true rfl ⟨rfl, rfl⟩⟩
  case giveBack record =>
    rw [show ofClose (.giveBack record true : Effect ρ) = false from rfl, if_neg (by simp),
      List.append_nil]
    exact ⟨holds, iff_of_true rfl ⟨rfl, rfl⟩⟩
  case storeClosing =>
    obtain ⟨rfl, rfl⟩ := holds
    exact ⟨⟨List.suffix_rfl, rfl⟩, iff_of_false Place.noConfusion (by simp [place])⟩
  case storeClosed =>
    obtain ⟨suffix, rfl⟩ := holds
    refine ⟨⟨?_, rfl⟩, iff_of_false Place.noConfusion (by simp [place])⟩
    exact List.suffix_append_self_iff.2 suffix
  case reopen status =>
    obtain ⟨failed, suffix, rfl⟩ := holds
    refine ⟨⟨?_, ?_⟩, iff_of_false Place.noConfusion (by simp [place])⟩
    · simp only [outcome, failed, if_false]
      exact List.suffix_append_self_iff.2 suffix
    · simp [passes, Gate.announced, Gate.result, failed]
  case unlock status =>
    obtain ⟨suffix, rfl⟩ := holds
    exact ⟨⟨status, List.suffix_append_self_iff.2 suffix, fun _ => rfl⟩,
      iff_of_false Place.noConfusion (by simp [ofClose])⟩

/-- A thread takes the lock, or clears the tasks. -/
inductive Taken (control : Control ρ) (memory : Memory ρ) : Memory ρ → Control ρ → Prop where
  | lock {next : Control ρ} (outside : place control.phase = .outside)
      (free : memory.lifecycleLock = false) (checking : place next.phase = .checking) :
      Taken control memory { memory with lifecycleLock := true } next
  | clear {next : Control ρ} (table : control.phase = .clearTasks .table)
      (emptied : next.phase = .storeClosed) :
      Taken control memory { memory with tasksCleared := true } next

theorem take_cases {update : Memory ρ → Option (Memory ρ × Control ρ)}
    {memory after : Memory ρ} (access : program control = .take update)
    (taken : update memory = some (after, next)) : Taken control memory after next := by
  unfold program at access
  cases phase : control.phase <;>
    simp only [phase, Access.take.injEq, reduceCtorEq] at access
  case clearTasks step =>
    cases step <;> simp only [clearTasks, Access.take.injEq, reduceCtorEq] at access
    subst access
    simp only [Option.some.injEq, Prod.mk.injEq] at taken
    obtain ⟨rfl, rfl⟩ := taken
    exact .clear phase rfl
  case lock =>
    subst access
    simp only [Option.ite_none_left_eq_some, Option.some.injEq, Prod.mk.injEq,
      Bool.not_eq_true] at taken
    obtain ⟨free, rfl, rfl⟩ := taken
    exact .lock (by rw [phase]; rfl) free rfl

end Accesses

/-! ## One step -/

section Steps

variable {before after : PlanState τ ρ} {event : PlanEvent τ ρ} {thread : τ}

/-- A step of one thread that leaves the gate and the lock, or is its owner's. -/
structure Alone (before after : PlanState τ ρ) (thread : τ) : Prop where
  control : ∀ other, other ≠ thread → after.control other = before.control other
  inFlight : ∀ other, other ≠ thread → after.inFlight other = before.inFlight other
  lock : after.memory.lifecycleLock = before.memory.lifecycleLock
  gate : gate after.memory = gate before.memory ∨ Owns before thread
  owns : Owns after thread ↔ Owns before thread

omit [DecidableEq τ] [DecidableEq ρ] in
theorem Alone.owns_iff (alone : Alone before after thread) (other : τ) :
    Owns after other ↔ Owns before other := by
  by_cases here : other = thread
  · rw [here]
    exact alone.owns
  · rw [Owns, Owns, alone.control other here, alone.inFlight other here]

theorem Gated.alone (gated : Gated before) (alone : Alone before after thread)
    (holds : Holds (place (after.control thread).phase) (pending (after.inFlight thread))
      (gate (rules.seen after thread)))
    (landed : standing (after.control thread).phase = .deciding → after.inFlight thread = []) :
    Gated after where
  holds := by
    intro other
    by_cases here : other = thread
    · rw [here]
      exact holds
    by_cases owner : Owns before other
    · have kept : gate after.memory = gate before.memory := by
        rcases alone.gate with same | owns
        · exact same
        · exact absurd (gated.unique other thread owner owns) here
      rw [alone.control other here, alone.inFlight other here,
        gate_seen_congr (alone.inFlight other here) kept]
      exact gated.holds other
    · exact holds_outside (fun owns => owner ((alone.owns_iff other).1 owns)) _
  unique first second owns ownsToo :=
    gated.unique first second ((alone.owns_iff first).1 owns)
      ((alone.owns_iff second).1 ownsToo)
  locked := by
    rw [alone.lock, gated.locked]
    exact exists_congr fun other => (alone.owns_iff other).symm
  settled free := by
    have freeBefore : ∀ other, ¬ Owns before other :=
      fun other owns => free other ((alone.owns_iff other).2 owns)
    rcases alone.gate with same | owns
    · rw [same]
      exact gated.settled freeBefore
    · exact absurd owns (freeBefore thread)
  landed other deciding := by
    by_cases here : other = thread
    · subst here
      exact landed deciding
    · rw [alone.inFlight other here]
      rw [alone.control other here] at deciding
      exact gated.landed other deciding

/-- A thread goes on without changing the memory or what it has in flight. -/
theorem Gated.goes (gated : Gated before) {next : Control ρ}
    (holds : Holds (place next.phase) (pending (before.inFlight thread))
      (gate (rules.seen before thread)))
    (side : place next.phase = .outside ↔ place (before.control thread).phase = .outside)
    (landed : standing next.phase = .deciding → before.inFlight thread = []) :
    Gated (before.goes thread next) := by
  have alone : Alone before (before.goes thread next) thread := by
    refine ⟨fun _ apart => goes_control_of_ne before next apart, fun _ _ => rfl, rfl, .inl rfl,
      ?_⟩
    rw [Owns, Owns, goes_control_self, Ne, side]
    exact Iff.rfl
  refine gated.alone alone ?_ ?_
  · rw [goes_control_self]
    exact holds
  · rw [goes_control_self]
    exact landed

theorem Gated.load (gated : Gated before) {follow : Memory ρ → Control ρ}
    (access : program (before.control thread) = .load follow) :
    Gated (before.goes thread (follow (rules.seen before thread))) := by
  obtain ⟨holds, side⟩ := holds_load access (gated.holds thread)
  refine gated.goes holds side fun deciding => gated.landed thread ?_
  rw [← (PlanCounts.standing_load access _).1]
  exact deciding

theorem Gated.choose (gated : Gated before) {allowed : Control ρ → Bool} {next : Control ρ}
    (access : program (before.control thread) = .choose allowed)
    (chosen : allowed next = true) : Gated (before.goes thread next) := by
  obtain ⟨holds, side⟩ := holds_choose access chosen (gated.holds thread)
  refine gated.goes holds side fun deciding => ?_
  rw [(PlanCounts.standing_choose access chosen).1] at deciding
  cases deciding

theorem Gated.exchange (gated : Gated before) {update : Memory ρ → Memory ρ × Control ρ}
    (access : program (before.control thread) = .exchange update)
    (landed : before.inFlight thread = []) :
    Gated { before.goes thread (update before.memory).2 with
      memory := (update before.memory).1 } := by
  obtain ⟨outside, stays, gateSame, lockSame⟩ := outside_exchange access before.memory
  have alone : Alone before { before.goes thread (update before.memory).2 with
      memory := (update before.memory).1 } thread := by
    refine ⟨fun _ apart => goes_control_of_ne before _ apart, fun _ _ => rfl, lockSame,
      .inl gateSame, ?_⟩
    simp only [Owns, goes_control_self, outside, stays]
    exact Iff.rfl
  refine gated.alone alone ?_ fun _ => landed
  have free : pending (before.inFlight thread) = [] := by rw [landed]; rfl
  simp only [goes_control_self, stays]
  exact ⟨.ok, free ▸ List.nil_suffix, fun some => absurd free some⟩

theorem Gated.send (gated : Gated before) {effect : Effect ρ} {next : Control ρ}
    (access : program (before.control thread) = .send effect next) :
    Gated { before.goes thread next with
      inFlight :=
        Function.update before.inFlight thread (before.inFlight thread ++ [effect]) } := by
  obtain ⟨holds, side⟩ := holds_send access (gated.holds thread)
  have alone : Alone before { before.goes thread next with
      inFlight := Function.update before.inFlight thread
        (before.inFlight thread ++ [effect]) } thread := by
    refine ⟨fun _ apart => goes_control_of_ne before _ apart,
      fun _ apart => Function.update_of_ne apart _ _, rfl, .inl rfl, ?_⟩
    simp only [Owns, goes_control_self, Function.update_self, pending_append]
    by_cases outside : place (before.control thread).phase = .outside
    · obtain ⟨stays, count⟩ := side.1 outside
      simp [outside, stays, count]
    · refine iff_of_true ?_ (.inl outside)
      by_contra free
      simp only [ne_eq, not_or, not_not, List.append_eq_nil_iff] at free
      refine outside (side.2 ⟨free.1, ?_⟩)
      by_contra ofClose
      simp [ofClose] at free
  refine gated.alone alone ?_ fun deciding => ?_
  · simp only [goes_control_self, Function.update_self, pending_append, gate_seen,
      List.foldl_append, List.foldl_cons, List.foldl_nil]
    rw [gate_seen] at holds
    exact holds
  · simp only [goes_control_self, (PlanCounts.send_cases access).1] at deciding
    cases deciding

omit [DecidableEq ρ] in
theorem foldl_passes_cleared (queue : List (Effect ρ)) (start : Gate) (cleared : Bool) :
    queue.foldl passes { start with cleared := cleared } =
      { queue.foldl passes start with cleared := cleared } := by
  induction queue generalizing start with
  | nil => rfl
  | cons effect rest inductionHypothesis =>
      rw [List.foldl_cons, List.foldl_cons, ← inductionHypothesis]
      cases effect <;> rfl

/-- A thread takes the free lock. -/
theorem Gated.locks (gated : Gated before) (thread : τ)
    (free : before.memory.lifecycleLock = false)
    (control : ∀ other, other ≠ thread → after.control other = before.control other)
    (checking : place (after.control thread).phase = .checking)
    (undecided : standing (after.control thread).phase = .free)
    (inFlight : after.inFlight = before.inFlight)
    (gates : gate after.memory = gate before.memory)
    (locked : after.memory.lifecycleLock = true) : Gated after := by
  have unowned : ∀ other, ¬ Owns before other := by
    intro other owns
    have taken := gated.locked.2 ⟨other, owns⟩
    rw [free] at taken
    cases taken
  have none : pending (after.inFlight thread) = [] := by
    rw [inFlight]
    by_contra some
    exact unowned thread (.inr some)
  have only : ∀ other, Owns after other → other = thread := by
    intro other owns
    by_contra apart
    apply unowned other
    rwa [Owns, control other apart, inFlight] at owns
  have owner : Owns after thread := by
    left
    rw [checking]
    exact Place.noConfusion
  constructor
  case holds =>
    intro other
    by_cases here : other = thread
    · rw [here, gate_seen_of_pending none, checking, none, gates]
      exact ⟨rfl, gated.settled unowned⟩
    · exact holds_outside (fun owns => here (only other owns)) _
  case unique =>
    intro first second owns ownsToo
    rw [only first owns, only second ownsToo]
  case locked => exact iff_of_true locked ⟨thread, owner⟩
  case settled => exact fun unownedAfter => absurd owner (unownedAfter thread)
  case landed =>
    intro other deciding
    by_cases here : other = thread
    · rw [here, undecided] at deciding
      cases deciding
    · rw [inFlight]
      rw [control other here] at deciding
      exact gated.landed other deciding

theorem Gated.take (gated : Gated before) {memory : Memory ρ} {next : Control ρ}
    (taken : Taken (before.control thread) before.memory memory next)
    (free : standing next.phase = .free) :
    Gated { before.goes thread next with memory := memory } := by
  cases taken with
  | lock outside unlocked checking =>
      refine gated.locks thread unlocked
        (fun _ apart => goes_control_of_ne before next apart) ?_ ?_ rfl rfl rfl
      · rw [← checking]
        exact congrArg (fun control => place control.phase) (goes_control_self before thread next)
      · rw [← free]
        exact congrArg (fun control => standing control.phase)
          (goes_control_self before thread next)
  | clear table emptied =>
      have owns : Owns before thread := by
        left
        rw [table]
        exact Place.noConfusion
      have alone : Alone before { before.goes thread next with
          memory := { before.memory with tasksCleared := true } } thread := by
        refine ⟨fun _ apart => goes_control_of_ne before next apart, fun _ _ => rfl, rfl,
          .inr owns, iff_of_true (.inl ?_) owns⟩
        simp only [goes_control_self, emptied]
        exact Place.noConfusion
      refine gated.alone alone ?_ fun deciding => ?_
      · have holds := gated.holds thread
        rw [table] at holds
        obtain ⟨suffix, seen⟩ := holds
        simp only [goes_control_self, emptied]
        refine ⟨suffix, ?_⟩
        rw [gate_seen] at seen ⊢
        have cleared := foldl_passes_cleared (before.inFlight thread) (gate before.memory) true
        rw [seen] at cleared
        exact cleared
      · simp only [goes_control_self, emptied] at deciding
        cases deciding

omit [DecidableEq ρ] in
/-- What has landed is no longer in flight, and all else stays. -/
theorem holds_tail {where_ : Place} {effect : Effect ρ} {rest : List (Effect ρ)} {seen : Gate}
    (holds : Holds where_ (effect :: rest) seen) : Holds where_ rest seen := by
  have shorter : rest <:+ effect :: rest := List.suffix_cons effect rest
  cases where_ with
  | outside =>
      obtain ⟨status, suffix, result⟩ := holds
      exact ⟨status, shorter.trans suffix, fun _ => result (List.cons_ne_nil _ _)⟩
  | checking => exact absurd holds.1 (List.cons_ne_nil _ _)
  | announcing => exact absurd holds.1 (List.cons_ne_nil _ _)
  | waiting => exact ⟨shorter.trans holds.1, holds.2⟩
  | failing status => exact ⟨holds.1, shorter.trans holds.2.1, holds.2.2⟩
  | emptied => exact ⟨shorter.trans holds.1, holds.2⟩
  | leaving status => exact ⟨shorter.trans holds.1, holds.2⟩

omit [DecidableEq ρ] in
theorem unlock_not_mem_outcome (status other : PlanStatus) :
    (.unlock status : Effect ρ) ∉ outcome other := by
  unfold outcome
  split_ifs <;> simp

omit [DecidableEq ρ] in
/-- A close that has not given the lock back has not sent that. -/
theorem holds_unlock {where_ : Place} {status : PlanStatus} {flight : List (Effect ρ)}
    {seen : Gate} (holds : Holds where_ flight seen) (sent : .unlock status ∈ flight) :
    where_ = .outside := by
  have apart : ∀ {sent : List (Effect ρ)}, .unlock status ∉ sent → flight <:+ sent → False :=
    fun absent suffix => absent (suffix.subset sent)
  have announcement : (.unlock status : Effect ρ) ∉ [.setClosing true] := by simp
  cases where_ with
  | outside => rfl
  | checking => rw [holds.1] at sent; cases sent
  | announcing => rw [holds.1] at sent; cases sent
  | waiting => exact (apart announcement holds.1).elim
  | failing reason => exact (apart announcement holds.2.1).elim
  | emptied => exact (apart announcement holds.1).elim
  | leaving other => exact (apart (unlock_not_mem_outcome status other) holds.1).elim

omit [DecidableEq ρ] in
/-- The lock is given back last. -/
theorem holds_unlock_last {effect : Effect ρ} {rest : List (Effect ρ)} {seen : Gate}
    (holds : Holds .outside (effect :: rest) seen) :
    (rest = [] ∧ ∃ status, effect = .unlock status ∧ seen = .result status) ∨
      (rest ≠ [] ∧ ∀ status, effect ≠ .unlock status) := by
  obtain ⟨status, suffix, result⟩ := holds
  have seenResult := result (List.cons_ne_nil _ _)
  rcases List.suffix_concat_iff.1 suffix with none | ⟨sent, split, within⟩
  · cases none
  cases sent with
  | nil =>
      simp only [List.nil_append, List.cons.injEq] at split
      exact .inl ⟨split.2, status, split.1, seenResult⟩
  | cons first later =>
      simp only [List.cons_append, List.cons.injEq] at split
      obtain ⟨rfl, rfl⟩ := split
      refine .inr ⟨by simp, fun other same => ?_⟩
      refine unlock_not_mem_outcome other status (within.subset ?_)
      rw [← same]
      exact List.mem_cons_self

omit [DecidableEq ρ] in
theorem pending_cons (effect : Effect ρ) (rest : List (Effect ρ)) :
    pending (effect :: rest) = if ofClose effect then effect :: pending rest else pending rest :=
  List.filter_cons

omit [DecidableEq τ] in
/-- When the lock is given back, the gate is what the close left. -/
theorem Gated.gate_of_unlock (gated : Gated before) {status : PlanStatus}
    {rest : List (Effect ρ)} (oldest : before.inFlight thread = .unlock status :: rest) :
    place (before.control thread).phase = .outside ∧ pending rest = [] ∧
      gate before.memory = .result status := by
  have holds := gated.holds thread
  have sent : pending (before.inFlight thread) = .unlock status :: pending rest := by
    rw [oldest]
    rfl
  rw [sent] at holds
  have outside := holds_unlock holds List.mem_cons_self
  rw [outside] at holds
  rcases holds_unlock_last holds with ⟨none, other, same, seen⟩ | ⟨-, unsent⟩
  · cases same
    refine ⟨outside, none, ?_⟩
    rw [← seen, gate_seen, foldl_passes_pending, sent, none]
    rfl
  · exact absurd rfl (unsent status)

/-- A thread gives the lock back. -/
theorem Gated.unlocks (gated : Gated before) {status : PlanStatus} {rest : List (Effect ρ)}
    (oldest : before.inFlight thread = .unlock status :: rest) :
    Gated { before with
      memory := PlanInvocations.landed (.unlock status) before.memory
      inFlight := Function.update before.inFlight thread rest } := by
  obtain ⟨outside, none, left⟩ := gated.gate_of_unlock oldest
  have owns : Owns before thread := by
    right
    rw [oldest]
    exact List.cons_ne_nil _ _
  have unowned : ∀ other, ¬ Owns { before with
      memory := PlanInvocations.landed (.unlock status) before.memory
      inFlight := Function.update before.inFlight thread rest } other := by
    intro other ownsAfter
    by_cases here : other = thread
    · subst here
      simp only [Owns, Function.update_self, outside, none] at ownsAfter
      exact ownsAfter.elim (fun apart => apart rfl) fun some => some rfl
    · simp only [Owns, Function.update_of_ne here] at ownsAfter
      exact here (gated.unique other thread ownsAfter owns)
  constructor
  case holds => exact fun other => holds_outside (unowned other) _
  case unique => exact fun first _ ownsAfter => absurd ownsAfter (unowned first)
  case locked =>
    refine iff_of_false Bool.false_ne_true ?_
    rintro ⟨other, ownsAfter⟩
    exact unowned other ownsAfter
  case settled => exact fun _ => ⟨status, left⟩
  case landed =>
    intro other deciding
    have empty := gated.landed other deciding
    by_cases here : other = thread
    · subst here
      rw [oldest] at empty
      cases empty
    · simpa only [Function.update_of_ne here] using empty

theorem Gated.land (gated : Gated before) {effect : Effect ρ} {rest : List (Effect ρ)}
    (oldest : before.inFlight thread = effect :: rest) :
    Gated { before with
      memory := PlanInvocations.landed effect before.memory
      inFlight := Function.update before.inFlight thread rest } := by
  have seen : gate (rules.seen { before with
      memory := PlanInvocations.landed effect before.memory
      inFlight := Function.update before.inFlight thread rest } thread) =
        gate (rules.seen before thread) :=
    congrArg gate (seen_land oldest)
  have nothing : standing (before.control thread).phase ≠ .deciding := by
    intro deciding
    rw [gated.landed thread deciding] at oldest
    cases oldest
  have holds := gated.holds thread
  rw [oldest, pending_cons] at holds
  by_cases close : ofClose effect = true
  case neg =>
    rw [if_neg close] at holds
    have alone : Alone before { before with
        memory := PlanInvocations.landed effect before.memory
        inFlight := Function.update before.inFlight thread rest } thread := by
      refine ⟨fun _ _ => rfl, fun _ apart => Function.update_of_ne apart _ _, ?_, .inl ?_, ?_⟩
      · cases effect <;> first | rfl | exact absurd rfl close
      · cases effect <;> first | rfl | exact absurd rfl close
      · simp only [Owns, Function.update_self, oldest, pending_cons, if_neg close]
    refine gated.alone alone ?_ fun deciding => absurd deciding nothing
    rw [seen]
    simpa only [Function.update_self] using holds
  case pos =>
    rw [if_pos close] at holds
    have owns : Owns before thread := by
      right
      rw [oldest, pending_cons, if_pos close]
      exact List.cons_ne_nil _ _
    by_cases unlocked : ∃ status, effect = .unlock status
    · obtain ⟨status, rfl⟩ := unlocked
      exact gated.unlocks oldest
    · have alone : Alone before { before with
          memory := PlanInvocations.landed effect before.memory
          inFlight := Function.update before.inFlight thread rest } thread := by
        refine ⟨fun _ _ => rfl, fun _ apart => Function.update_of_ne apart _ _, ?_, .inr owns,
          iff_of_true ?_ owns⟩
        · cases effect <;> first | rfl | exact absurd ⟨_, rfl⟩ unlocked
        · by_cases outside : place (before.control thread).phase = .outside
          · right
            rw [outside] at holds
            rcases holds_unlock_last holds with ⟨-, status, same, -⟩ | ⟨some, -⟩
            · exact absurd ⟨status, same⟩ unlocked
            · simpa only [Function.update_self] using some
          · exact .inl outside
      refine gated.alone alone ?_ fun deciding => absurd deciding nothing
      rw [seen]
      simpa only [Function.update_self] using holds_tail holds

theorem Gated.performed (gated : Gated before) (performed : Performed rules before event after) :
    Gated after := by
  cases performed with
  | load access => exact gated.load access
  | send access => exact gated.send access
  | exchange access landed => exact gated.exchange access landed
  | take access taken =>
      exact gated.take (take_cases access taken) (PlanCounts.take_quiet access taken).1
  | choose access chosen => exact gated.choose access chosen
  | land oldest => exact gated.land oldest
  | outside change =>
      refine ⟨fun thread => ?_, gated.unique, gated.locked, gated.settled, gated.landed⟩
      have seen : gate (rules.seen { before with
          memory := rules.outside change before.memory } thread) =
            gate (rules.seen before thread) := gate_seen_congr rfl rfl
      rw [seen]
      exact gated.holds thread

end Steps

/-! ## Whole runs -/

omit [DecidableEq τ] in
theorem gated_created (conditions : Conditions) : Gated (created conditions : PlanState τ ρ) := by
  have free : ∀ thread, ¬ Owns (created conditions : PlanState τ ρ) thread := by
    rintro thread (inside | some)
    · exact inside rfl
    · exact some rfl
  constructor
  case holds => exact fun thread => holds_outside (free thread) _
  case unique => exact fun thread _ owns => absurd owns (free thread)
  case locked =>
    refine iff_of_false Bool.false_ne_true ?_
    rintro ⟨thread, owns⟩
    exact free thread owns
  case settled => exact fun _ => ⟨.invalidState, rfl⟩
  case landed => exact fun _ _ => rfl

theorem gated_of_run {condition : PlanState τ ρ → PlanEvent τ ρ → Prop}
    {conditions : Conditions} {events : List (PlanEvent τ ρ)} {final : PlanState τ ρ}
    (run : Run rules condition (created conditions) events final) : Gated final :=
  run.keeps (fun _ state => Gated state) (gated_created conditions)
    fun _ _ _ _ _ gated _ performed => gated.performed performed

end ShadowSpill.Runtime.PlanGate
