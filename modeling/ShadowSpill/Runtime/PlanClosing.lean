import ShadowSpill.Runtime.PlanGate

/-!
# Closing a plan

A close that sees its own announcement in the memory before it reads the count for the
last time finds every claim: each was counted then, or sees the announcement and is
refused.  A close that fails leaves the gate open.
-/

namespace ShadowSpill.Runtime.PlanClosing

open Library.InFlight PlanInvocations PlanCounts PlanGate

variable {τ ρ : Type} [DecidableEq τ] [DecidableEq ρ]

/-! ## The two sides of the handshake -/

/-- The claim has seen no close since it counted itself. -/
def passed : Phase ρ → Bool
  | .recheckClosed _ | .compareExchange _ => true
  | _ => false

/-- The close has read the count for the last time. -/
def clearing : Phase ρ → Bool
  | .clearTasks .scopes => false
  | .clearTasks _ => true
  | _ => false

section Accesses

variable {control next : Control ρ} {effect : Effect ρ}

omit [DecidableEq ρ] in
theorem passed_waited (waiter : Waiter) (status : PlanStatus) :
    passed (waited waiter status : Phase ρ) = false := by
  cases waiter <;> simp only [waited, apply_ite passed] <;> simp [passed]

omit [DecidableEq ρ] in
theorem clearing_waited (waiter : Waiter) (status : PlanStatus) :
    clearing (waited waiter status : Phase ρ) = false := by
  cases waiter <;> simp only [waited, apply_ite clearing] <;> simp [clearing]

omit [DecidableEq ρ] in
theorem handshake_waitIdle (waiter : Waiter) (step : WaitStep) (memory : Memory ρ) :
    passed (waitIdle waiter step memory) = false ∧
      clearing (waitIdle waiter step memory) = false := by
  cases step <;> simp only [waitIdle, apply_ite passed, apply_ite clearing, passed_waited,
    clearing_waited] <;> simp [passed, clearing]

/-- A claim passes where it sees no announcement, and a close where it sees no count. -/
theorem handshake_load {follow : Memory ρ → Control ρ}
    (access : program control = .load follow) (memory : Memory ρ) :
    (passed (follow memory).phase = true → passed control.phase = true ∨
      (standing control.phase = .deciding ∧ memory.closing = false)) ∧
    (clearing (follow memory).phase = true → clearing control.phase = true ∨
      (control.phase = .clearTasks .scopes ∧ memory.activeTaskScopes = 0)) := by
  unfold program at access
  cases phase : control.phase <;>
    simp only [phase, Access.load.injEq, reduceCtorEq] at access
  case waitIdle waiter step =>
    subst access
    obtain ⟨unpassed, unclear⟩ := handshake_waitIdle waiter step memory
    simp only
    rw [unpassed, unclear]
    simp
  case recheckClosing record =>
    subst access
    refine ⟨fun passes => .inr ⟨rfl, ?_⟩, fun clears => ?_⟩
    · cases closes : memory.closing with
      | false => rfl
      | true => simp [closes, passed] at passes
    · simp only [apply_ite clearing] at clears
      simp [clearing] at clears
  case clearTasks step =>
    cases step <;> simp only [clearTasks, Access.load.injEq, reduceCtorEq] at access
    all_goals
      subst access
      simp only [apply_ite passed, apply_ite clearing]
      simp [passed, clearing]
  all_goals
    subst access
    simp only [apply_ite passed, apply_ite clearing]
    simp [passed, clearing]

theorem handshake_send (access : program control = .send effect next) :
    passed next.phase = false ∧ clearing next.phase = false := by
  unfold program at access
  cases phase : control.phase <;>
    simp only [phase, Access.send.injEq, reduceCtorEq] at access
  case clearTasks step =>
    cases step <;> simp only [clearTasks, reduceCtorEq] at access
  all_goals
    obtain ⟨rfl, rfl⟩ := access
    exact ⟨rfl, rfl⟩

theorem handshake_exchange {update : Memory ρ → Memory ρ × Control ρ}
    (access : program control = .exchange update) (memory : Memory ρ) :
    passed (update memory).2.phase = false ∧ clearing (update memory).2.phase = false ∧
      ∀ record, (update memory).1.invocationActive record = true →
        memory.invocationActive record = true ∨ passed control.phase = true := by
  unfold program at access
  cases phase : control.phase <;>
    simp only [phase, Access.exchange.injEq, reduceCtorEq] at access
  case clearTasks step =>
    cases step <;> simp only [clearTasks, reduceCtorEq] at access
  case compareExchange record =>
    subst access
    simp only
    split_ifs
    · exact ⟨rfl, rfl, fun _ _ => .inr rfl⟩
    · exact ⟨rfl, rfl, fun _ _ => .inr rfl⟩
  case endInvocation record =>
    subst access
    simp only [apply_ite passed, apply_ite clearing]
    refine ⟨by simp [passed], by simp [clearing], fun other active => .inl ?_⟩
    rw [Function.update_apply] at active
    split_ifs at active
    exact active
  all_goals
    subst access
    exact ⟨rfl, rfl, fun _ active => .inl active⟩

theorem handshake_choose {allowed : Control ρ → Bool}
    (access : program control = .choose allowed) (chosen : allowed next = true) :
    passed next.phase = false ∧ (clearing next.phase = true → clearing control.phase = true) := by
  constructor
  · have free := (standing_choose access chosen).1
    cases phase : next.phase <;> rw [phase] at free <;> first | rfl | cases free
  · intro clears
    unfold program at access
    cases phase : control.phase <;>
      simp only [phase, Access.choose.injEq, reduceCtorEq] at access
    case clearTasks step =>
      cases step <;> simp only [clearTasks, Access.choose.injEq, reduceCtorEq] at access
      rfl
    all_goals
      subst access
      simp only [Bool.or_eq_true, Bool.and_eq_true, decide_eq_true_eq] at chosen
    case idle =>
      rcases chosen with ⟨-, begins⟩ | leaves
      · cases nextPhase : next.phase <;> rw [nextPhase] at begins clears <;>
          first | cases clears | cases begins
      · cases scope : control.scope with
        | none => simp [scope] at leaves
        | some entered =>
            simp only [scope, decide_eq_true_eq] at leaves
            rw [leaves] at clears
            cases clears
    case claimed record =>
      rcases chosen with rfl | rfl <;> cases clears
    case enterScope record =>
      rcases chosen with rfl | ⟨-, rfl⟩ <;> cases clears

omit [DecidableEq ρ] in
theorem handshake_take {memory after : Memory ρ} (taken : Taken control memory after next) :
    passed next.phase = false ∧ clearing next.phase = false ∧
      after.closing = memory.closing ∧
        (after.tasksCleared = true →
          memory.tasksCleared = true ∨ clearing control.phase = true) := by
  cases taken with
  | lock outside free checking =>
      refine ⟨?_, ?_, rfl, .inl⟩
      · cases phase : next.phase <;> rw [phase] at checking <;> first | rfl | cases checking
      · cases phase : next.phase <;> rw [phase] at checking <;> first | rfl | cases checking
  | clear table emptied =>
      rw [emptied]
      exact ⟨rfl, rfl, rfl, fun _ => .inr (by rw [table]; rfl)⟩

end Accesses

/-! ## What a thread has counted -/

section Counting

variable {before after : PlanState τ ρ} {event : PlanEvent τ ρ} {thread : τ}

/-- A thread counts for at most one. -/
def OneEach (state : PlanState τ ρ) : Prop :=
  ∀ thread, undecided (state.control thread) (state.inFlight thread) +
    unreturned (state.control thread) (state.inFlight thread) ≤ 1

omit [DecidableEq ρ] in
theorem oneEach_of_alone (held : OneEach before) (thread : τ)
    (control : ∀ other, other ≠ thread → after.control other = before.control other)
    (inFlight : ∀ other, other ≠ thread → after.inFlight other = before.inFlight other)
    (own : undecided (after.control thread) (after.inFlight thread) +
      unreturned (after.control thread) (after.inFlight thread) ≤ 1) : OneEach after := by
  intro other
  by_cases here : other = thread
  · rw [here]
    exact own
  · rw [control other here, inFlight other here]
    exact held other

omit [DecidableEq ρ] in
/-- A thread that goes on counts as it stands, if it has not landed before. -/
theorem OneEach.goes (held : OneEach before) (memory : Memory ρ) {next : Control ρ}
    (stands : standing next.phase = standing (before.control thread).phase ∨
      standing next.phase = .free ∨ before.inFlight thread = []) :
    OneEach { before.goes thread next with memory := memory } := by
  refine oneEach_of_alone held thread (fun _ apart => goes_control_of_ne before next apart)
    (fun _ _ => rfl) ?_
  simp only [goes_control_self]
  show undecided next (before.inFlight thread) + unreturned next (before.inFlight thread) ≤ 1
  have own := held thread
  rcases stands with same | free | landed
  · simp only [undecided, unreturned, same] at own ⊢
    exact own
  · simp only [undecided, unreturned, free, Standing.isDeciding, Standing.isReturning,
      Bool.toNat_false] at own ⊢
    omega
  · rw [landed]
    cases standing_ : standing next.phase <;>
      simp [undecided, unreturned, standing_, Standing.isDeciding, Standing.isReturning]

theorem OneEach.performed (held : OneEach before)
    (performed : Performed rules before event after) : OneEach after := by
  cases performed with
  | @load thread follow access =>
      exact held.goes before.memory (.inl (standing_load access (rules.seen before thread)).1)
  | @send thread effect next access =>
      refine oneEach_of_alone held thread (fun _ apart => goes_control_of_ne before next apart)
        (fun _ apart => Function.update_of_ne apart _ _) ?_
      obtain ⟨undecidedSame, unreturnedSame, -⟩ :=
        weights_send access (before.inFlight thread)
      simp only [goes_control_self, Function.update_self, undecidedSame, unreturnedSame]
      exact held thread
  | @exchange thread update access landed => exact held.goes _ (.inr (.inr landed))
  | @take thread update memory next access taken =>
      exact held.goes memory (.inr (.inl (take_quiet access taken).1))
  | @choose thread allowed next access chosen =>
      exact held.goes before.memory (.inr (.inl (standing_choose access chosen).1))
  | @land thread effect rest oldest =>
      refine oneEach_of_alone held thread (fun _ _ => rfl)
        (fun _ apart => Function.update_of_ne apart _ _) ?_
      have own := held thread
      simp only [undecided, unreturned, oldest, List.countP_cons, Function.update_self] at own ⊢
      omega
  | outside change => exact held

theorem oneEach_of_run {condition : PlanState τ ρ → PlanEvent τ ρ → Prop}
    {conditions : Conditions} {events : List (PlanEvent τ ρ)} {final : PlanState τ ρ}
    (run : Run rules condition (created conditions) events final) : OneEach final :=
  run.keeps (fun _ state => OneEach state) (fun _ => Nat.zero_le 1)
    fun _ _ _ _ _ held _ performed => held.performed performed

omit [DecidableEq τ] [DecidableEq ρ] in
/-- No more is counted than there are records and threads. -/
theorem OneEach.outstanding_le [Fintype τ] [Fintype ρ] {state : PlanState τ ρ}
    (held : OneEach state) : outstanding state ≤ Fintype.card ρ + Fintype.card τ := by
  have records : activeRecords state.memory ≤ Fintype.card ρ := by
    calc activeRecords state.memory
        ≤ ∑ _record : ρ, 1 := Finset.sum_le_sum fun record _ => Bool.toNat_le _
      _ = Fintype.card ρ := by simp
  have threads : total undecided state + total unreturned state ≤ Fintype.card τ := by
    rw [total, total, ← Finset.sum_add_distrib]
    calc ∑ thread, (undecided (state.control thread) (state.inFlight thread) +
            unreturned (state.control thread) (state.inFlight thread))
        ≤ ∑ _thread : τ, 1 := Finset.sum_le_sum fun thread _ => held thread
      _ = Fintype.card τ := by simp
  unfold outstanding
  omega

/-- The counts a thread has in flight. -/
def owed (inFlight : List (Effect ρ)) : Nat :=
  inFlight.countP (gives false) + inFlight.countP (gives true)

omit [DecidableEq τ] in
/-- A thread sees the plan's count without what it has given back itself. -/
theorem count_seen (state : PlanState τ ρ) (thread : τ) :
    (rules.seen state thread).activeTaskScopes + UInt32.ofNat (owed (state.inFlight thread)) =
      state.memory.activeTaskScopes := by
  unfold Rules.seen
  generalize state.inFlight thread = queue
  generalize state.memory = memory
  induction queue generalizing memory with
  | nil => simp [owed]
  | cons effect rest inductionHypothesis =>
      rw [List.foldl_cons]
      have later := inductionHypothesis (landed effect memory)
      cases effect with
      | giveBack record ended =>
          have one_more : owed (.giveBack record ended :: rest) = owed rest + 1 := by
            cases ended <;> simp [owed, gives] <;> omega
          rw [one_more, UInt32.ofNat_add, UInt32.ofNat_one, ← UInt32.add_assoc]
          exact (congrArg (· + 1) later).trans (UInt32.sub_add_cancel _ _)
      | _ => exact later

end Counting

/-! ## Nothing passes a close -/

/-- Whenever a close reads the count for the last time, its announcement has landed. -/
def Announced (state : PlanState τ ρ) (event : PlanEvent τ ρ) : Prop :=
  ∀ thread next, event = .act thread next →
    (state.control thread).phase = .clearTasks .scopes →
      .setClosing true ∉ state.inFlight thread

/-- The tasks are cleared, or a close has read the count for the last time. -/
def Sealing (state : PlanState τ ρ) : Prop :=
  state.memory.tasksCleared = true ∨ ∃ thread, clearing (state.control thread).phase = true

/-- No invocation is active or will be. -/
structure Sealed (state : PlanState τ ρ) : Prop where
  announced : state.memory.closing = true
  inactive : ∀ record, state.memory.invocationActive record = false
  unpassed : ∀ thread, passed (state.control thread).phase = false
  landed : ∀ thread, clearing (state.control thread).phase = true →
    pending (state.inFlight thread) = []

section Closing

variable {before after : PlanState τ ρ} {event : PlanEvent τ ρ} {thread : τ}

omit [DecidableEq ρ] in
theorem place_of_clearing {phase : Phase ρ} (clears : clearing phase = true) :
    place phase = .waiting := by
  cases phase <;> first | rfl | cases clears

omit [DecidableEq τ] [DecidableEq ρ] in
theorem owns_of_clearing {state : PlanState τ ρ}
    (clears : clearing (state.control thread).phase = true) : Owns state thread := by
  left
  rw [place_of_clearing clears]
  exact Place.noConfusion

omit [DecidableEq ρ] in
theorem foldl_passes_cleared_eq (queue : List (Effect ρ)) (start : Gate) :
    (queue.foldl passes start).cleared = start.cleared := by
  induction queue generalizing start with
  | nil => rfl
  | cons effect rest inductionHypothesis =>
      rw [List.foldl_cons, inductionHypothesis]
      cases effect <;> rfl

omit [DecidableEq τ] in
/-- A close that still waits has cleared nothing. -/
theorem uncleared_of_waiting (gated : Gated before)
    (waits : place (before.control thread).phase = .waiting) :
    before.memory.tasksCleared = false := by
  have holds := gated.holds thread
  rw [waits] at holds
  have cleared := congrArg Gate.cleared holds.2
  rwa [gate_seen, foldl_passes_cleared_eq] at cleared

/-- The last load of the count finds nothing but what the closer has given back itself. -/
theorem sealed_of_load [Fintype τ] [Fintype ρ] (gated : Gated before) (held : OneEach before)
    (count : before.memory.activeTaskScopes = UInt32.ofNat (outstanding before))
    (few : Fintype.card τ + Fintype.card ρ < 2 ^ 32)
    (reads : (before.control thread).phase = .clearTasks .scopes)
    (none : (rules.seen before thread).activeTaskScopes = 0)
    (announced : .setClosing true ∉ before.inFlight thread) (next : Control ρ)
    (clears : clearing next.phase = true) : Sealed (before.goes thread next) := by
  have place_ : place (before.control thread).phase = .waiting := by rw [reads]; rfl
  have holds := gated.holds thread
  rw [place_] at holds
  obtain ⟨suffix, seen⟩ := holds
  have landed : pending (before.inFlight thread) = [] := by
    rcases List.suffix_concat_iff.1 (show _ <:+ [] ++ [_] from suffix) with none | some
    · exact none
    · obtain ⟨sent, split, -⟩ := some
      refine absurd ?_ announced
      have member : Effect.setClosing true ∈ pending (before.inFlight thread) := by
        rw [split]
        simp
      exact (List.mem_filter.1 member).1
  have own : owed (before.inFlight thread) = outstanding before := by
    have sees := count_seen before thread
    rw [none, count, UInt32.zero_add] at sees
    have bound := held.outstanding_le
    have small : owed (before.inFlight thread) ≤ 1 := by
      have one := held thread
      simp only [undecided, unreturned] at one
      unfold owed
      omega
    have equal := congrArg UInt32.toNat sees
    rwa [UInt32.toNat_ofNat', UInt32.toNat_ofNat', Nat.mod_eq_of_lt (by omega),
      Nat.mod_eq_of_lt (by omega)] at equal
  have free : standing (before.control thread).phase = .free := by rw [reads]; rfl
  have undecidedOwn := weight_le_total undecided before thread
  have unreturnedOwn := weight_le_total unreturned before thread
  have parts : owed (before.inFlight thread) =
      undecided (before.control thread) (before.inFlight thread) +
        unreturned (before.control thread) (before.inFlight thread) := by
    simp [owed, undecided, unreturned, free, Standing.isDeciding, Standing.isReturning]
  unfold outstanding at own
  constructor
  case announced =>
    have closing := congrArg Gate.closing seen
    rwa [gate_seen_of_pending landed] at closing
  case inactive =>
    intro record
    have none : activeRecords before.memory = 0 := by omega
    show before.memory.invocationActive record = false
    simpa using Finset.sum_eq_zero_iff.1 none record (Finset.mem_univ record)
  case unpassed =>
    intro other
    by_cases here : other = thread
    · subst here
      rw [goes_control_self]
      cases phase : next.phase <;> rw [phase] at clears <;> first | rfl | cases clears
    · rw [goes_control_of_ne before next here]
      have nothing := weight_eq_zero_of_total undecided before thread (by omega) here
      cases phase : (before.control other).phase <;> first
        | rfl
        | simp [undecided, phase, standing, Standing.isDeciding] at nothing
  case landed =>
    intro other clearsOther
    by_cases here : other = thread
    · rw [here]
      exact landed
    · rw [goes_control_of_ne before next here] at clearsOther
      refine absurd (gated.unique other thread (owns_of_clearing clearsOther) (.inl ?_)) here
      rw [place_]
      exact Place.noConfusion

omit [DecidableEq τ] [DecidableEq ρ] in
theorem Sealed.alone (held : Sealed before) (thread : τ)
    (control : ∀ other, other ≠ thread → after.control other = before.control other)
    (inFlight : ∀ other, other ≠ thread → after.inFlight other = before.inFlight other)
    (announced : after.memory.closing = true)
    (inactive : ∀ record, after.memory.invocationActive record = true →
      before.memory.invocationActive record = true)
    (unpassed : passed (after.control thread).phase = false)
    (landed : clearing (after.control thread).phase = true →
      pending (after.inFlight thread) = []) : Sealed after := by
  constructor
  case announced => exact announced
  case inactive =>
    intro record
    cases active : after.memory.invocationActive record with
    | false => rfl
    | true => rw [← inactive record active, held.inactive record]
  case unpassed =>
    intro other
    by_cases here : other = thread
    · rw [here]
      exact unpassed
    · rw [control other here]
      exact held.unpassed other
  case landed =>
    intro other clears
    by_cases here : other = thread
    · rw [here] at clears ⊢
      exact landed clears
    · rw [control other here] at clears
      rw [inFlight other here]
      exact held.landed other clears

omit [DecidableEq τ] in
/-- Nobody has an opening of the gate in flight. -/
theorem Sealed.unopened (held : Sealed before) (gated : Gated before)
    (sealing : Sealing before) (thread : τ) : .setClosing false ∉ before.inFlight thread := by
  intro opening
  have sent : .setClosing false ∈ pending (before.inFlight thread) :=
    List.mem_filter.2 ⟨opening, rfl⟩
  have owns : Owns before thread := .inr (List.ne_nil_of_mem sent)
  have cleared : before.memory.tasksCleared = true := by
    rcases sealing with cleared | ⟨other, clears⟩
    · exact cleared
    · have same := gated.unique other thread (owns_of_clearing clears) owns
      rw [same] at clears
      rw [held.landed thread clears] at sent
      cases sent
  have seen : (gate (rules.seen before thread)).cleared = true := by
    rw [gate_seen, foldl_passes_cleared_eq]
    exact cleared
  have notAnnouncing : ∀ {sent : List (Effect ρ)}, .setClosing false ∉ sent →
      pending (before.inFlight thread) <:+ sent → False :=
    fun absent suffix => absent (suffix.subset sent)
  have left : ∀ status, gate (rules.seen before thread) = .result status →
      (.setClosing false : Effect ρ) ∉ outcome status := by
    intro status result
    rw [result] at seen
    have ok : status = .ok := by
      by_contra failed
      simp [Gate.result, failed] at seen
    simp [outcome, ok]
  have holds := gated.holds thread
  cases where_ : place (before.control thread).phase with
  | outside =>
      rw [where_] at holds
      obtain ⟨status, suffix, result⟩ := holds
      refine notAnnouncing ?_ suffix
      have absent := left status (result (List.ne_nil_of_mem sent))
      simp [absent]
  | checking => rw [where_] at holds; rw [holds.1] at sent; cases sent
  | announcing => rw [where_] at holds; rw [holds.1] at sent; cases sent
  | waiting => rw [where_] at holds; exact notAnnouncing (by simp) holds.1
  | failing status => rw [where_] at holds; exact notAnnouncing (by simp) holds.2.1
  | emptied => rw [where_] at holds; exact notAnnouncing (by simp) holds.1
  | leaving status =>
      rw [where_] at holds
      exact notAnnouncing (left status holds.2) holds.1

/-- What is sealed stays so. -/
theorem Sealed.performed (held : Sealed before) (gated : Gated before)
    (sealing : Sealing before) (performed : Performed rules before event after) :
    Sealed after := by
  cases performed with
  | @load thread follow access =>
      obtain ⟨passes, clears⟩ := handshake_load access (rules.seen before thread)
      refine held.alone thread (fun _ apart => goes_control_of_ne before _ apart)
        (fun _ _ => rfl) held.announced (fun _ => id) ?_ ?_
      · rw [goes_control_self]
        cases goesPast : passed (follow (rules.seen before thread)).phase with
        | false => rfl
        | true =>
            rcases passes goesPast with past | ⟨deciding, unannounced⟩
            · rw [← past]
              exact held.unpassed thread
            · rw [seen_of_landed (gated.landed thread deciding), held.announced] at unannounced
              cases unannounced
      · rw [goes_control_self]
        intro clearsNext
        rcases clears clearsNext with clearsNow | ⟨reads, -⟩
        · exact held.landed thread clearsNow
        · have waits : place (before.control thread).phase = .waiting := by rw [reads]; rfl
          rcases sealing with cleared | ⟨other, clearsOther⟩
          · rw [uncleared_of_waiting gated waits] at cleared
            cases cleared
          · have same := gated.unique other thread (owns_of_clearing clearsOther)
              (.inl (by rw [waits]; exact Place.noConfusion))
            rw [same, reads] at clearsOther
            cases clearsOther
  | @send thread effect next access =>
      obtain ⟨unpassed, unclear⟩ := handshake_send access
      refine held.alone thread (fun _ apart => goes_control_of_ne before _ apart)
        (fun _ apart => Function.update_of_ne apart _ _) held.announced (fun _ => id) ?_ ?_
      · simpa only [goes_control_self] using unpassed
      · simp only [goes_control_self, unclear]
        exact fun impossible => absurd impossible Bool.false_ne_true
  | @exchange thread update access landed =>
      obtain ⟨unpassed, unclear, active⟩ := handshake_exchange access before.memory
      obtain ⟨-, -, gates, -⟩ := outside_exchange access before.memory
      refine held.alone thread (fun _ apart => goes_control_of_ne before _ apart)
        (fun _ _ => rfl) ?_ (fun record isActive => ?_) ?_ ?_
      · exact (congrArg Gate.closing gates).trans held.announced
      · rcases active record isActive with was | past
        · exact was
        · rw [held.unpassed thread] at past
          cases past
      · simpa only [goes_control_self] using unpassed
      · simp only [goes_control_self, unclear]
        exact fun impossible => absurd impossible Bool.false_ne_true
  | @take thread update memory next access taken =>
      obtain ⟨unpassed, unclear, closing, -⟩ := handshake_take (take_cases access taken)
      refine held.alone thread (fun _ apart => goes_control_of_ne before _ apart)
        (fun _ _ => rfl) (closing.trans held.announced) (fun record => ?_) ?_ ?_
      · rw [(take_quiet access taken).2.2.2]
        exact id
      · simpa only [goes_control_self] using unpassed
      · simp only [goes_control_self, unclear]
        exact fun impossible => absurd impossible Bool.false_ne_true
  | @choose thread allowed next access chosen =>
      obtain ⟨unpassed, clears⟩ := handshake_choose access chosen
      refine held.alone thread (fun _ apart => goes_control_of_ne before _ apart)
        (fun _ _ => rfl) held.announced (fun _ => id) ?_ ?_
      · rw [goes_control_self]
        exact unpassed
      · rw [goes_control_self]
        exact fun clearsNext => held.landed thread (clears clearsNext)
  | @land thread effect rest oldest =>
      refine held.alone thread (fun _ _ => rfl) (fun _ apart => Function.update_of_ne apart _ _)
        ?_ (fun record => ?_) (held.unpassed thread) ?_
      · cases effect with
        | setClosing value =>
            cases value with
            | true => rfl
            | false =>
                refine absurd ?_ (held.unopened gated sealing thread)
                rw [oldest]
                exact List.mem_cons_self
        | _ => exact held.announced
      · cases effect <;> exact id
      · intro clears
        have none := held.landed thread clears
        rw [oldest, pending_cons] at none
        simp only [Function.update_self]
        split_ifs at none
        exact none
  | outside change =>
      exact ⟨held.announced, held.inactive, held.unpassed, held.landed⟩

/-- A close that begins to clear has just read the count. -/
theorem sealing_cases (performed : Performed rules before event after)
    (sealing : Sealing after) : Sealing before ∨
      ∃ thread next, event = .act thread next ∧ after = before.goes thread next ∧
        (before.control thread).phase = .clearTasks .scopes ∧
          (rules.seen before thread).activeTaskScopes = 0 ∧ clearing next.phase = true := by
  -- A thread that clears after the step does so before, unless it is the acting one.
  have others : ∀ (thread : τ) (next : Control ρ) (other : τ),
      clearing ((before.goes thread next).control other).phase = true →
        Sealing before ∨ (other = thread ∧ clearing next.phase = true) := by
    intro thread next other clears
    by_cases here : other = thread
    · rw [here, goes_control_self] at clears
      exact .inr ⟨here, clears⟩
    · rw [goes_control_of_ne before next here] at clears
      exact .inl (.inr ⟨other, clears⟩)
  cases performed with
  | @load thread follow access =>
      rcases sealing with cleared | ⟨other, clears⟩
      · exact .inl (.inl cleared)
      rcases others thread _ other clears with held | ⟨-, clearsNext⟩
      · exact .inl held
      rcases (handshake_load access (rules.seen before thread)).2 clearsNext with
        clearsNow | ⟨reads, none⟩
      · exact .inl (.inr ⟨thread, clearsNow⟩)
      · exact .inr ⟨thread, _, rfl, rfl, reads, none, clearsNext⟩
  | @send thread effect next access =>
      rcases sealing with cleared | ⟨other, clears⟩
      · exact .inl (.inl cleared)
      rcases others thread next other clears with held | ⟨-, clearsNext⟩
      · exact .inl held
      · rw [(handshake_send access).2] at clearsNext
        cases clearsNext
  | @exchange thread update access landed =>
      obtain ⟨-, unclear, -⟩ := handshake_exchange access before.memory
      obtain ⟨-, -, gates, -⟩ := outside_exchange access before.memory
      rcases sealing with cleared | ⟨other, clears⟩
      · exact .inl (.inl ((congrArg Gate.cleared gates).symm.trans cleared))
      rcases others thread _ other clears with held | ⟨-, clearsNext⟩
      · exact .inl held
      · rw [unclear] at clearsNext
        cases clearsNext
  | @take thread update memory next access taken =>
      obtain ⟨-, unclear, -, cleared⟩ := handshake_take (take_cases access taken)
      rcases sealing with clearedAfter | ⟨other, clears⟩
      · rcases cleared clearedAfter with before_ | clears
        · exact .inl (.inl before_)
        · exact .inl (.inr ⟨thread, clears⟩)
      rcases others thread next other clears with held | ⟨-, clearsNext⟩
      · exact .inl held
      · rw [unclear] at clearsNext
        cases clearsNext
  | @choose thread allowed next access chosen =>
      rcases sealing with cleared | ⟨other, clears⟩
      · exact .inl (.inl cleared)
      rcases others thread next other clears with held | ⟨-, clearsNext⟩
      · exact .inl held
      · exact .inl (.inr ⟨thread, (handshake_choose access chosen).2 clearsNext⟩)
  | @land thread effect rest oldest =>
      rcases sealing with cleared | clears
      · refine .inl (.inl ?_)
        cases effect <;> exact cleared
      · exact .inl (.inr clears)
  | outside change => exact .inl sealing

end Closing

/-- In a run whose closes read the count after their announcement has landed, nothing is
active once a close has found the count empty. -/
theorem sealed_of_run [Fintype τ] [Fintype ρ]
    (few : Fintype.card τ + Fintype.card ρ < 2 ^ 32) {conditions : Conditions}
    {events : List (PlanEvent τ ρ)} {final : PlanState τ ρ}
    (run : Run rules Announced (created conditions) events final) (sealing : Sealing final) :
    Sealed final := by
  refine run.keeps (fun _ state => Sealing state → Sealed state) ?_ ?_ sealing
  · rintro (cleared | ⟨thread, clears⟩)
    · cases cleared
    · cases clears
  · intro events event before after run held announced performed sealingAfter
    have gated := gated_of_run run
    rcases sealing_cases performed sealingAfter with
      sealingBefore | ⟨thread, next, rfl, rfl, reads, none, clears⟩
    · exact (held sealingBefore).performed gated sealingBefore performed
    · exact sealed_of_load gated (oneEach_of_run run) (count_of_run run) few reads none
        (announced thread next rfl reads) next clears

/-! ## A failed close leaves the plan claimable -/

/-- A thread by itself claims a record: the loads, its count, and the exchange. -/
def claimAlone (thread : τ) (scope : Option (ρ × UInt64)) (record : ρ) :
    List (PlanEvent τ ρ) :=
  [.claimClosing record, .claimClosed record, .increment record, .recheckClosing record,
    .recheckClosed record, .compareExchange record, .claimed record].map fun phase =>
      .act thread { scope := scope, phase := phase }

/-- The state after a thread has claimed a record by itself. -/
def won (state : PlanState τ ρ) (thread : τ) (scope : Option (ρ × UInt64)) (record : ρ) :
    PlanState τ ρ :=
  { state with
    memory := { state.memory with
      activeTaskScopes := state.memory.activeTaskScopes + 1
      invocationActive := Function.update state.memory.invocationActive record true }
    control := Function.update state.control thread
      { scope := scope, phase := .claimed record } }

/-- While nobody closes, an idle thread gets a record whose invocation is not active. -/
theorem replay_claimAlone {state : PlanState τ ρ} {thread : τ}
    {scope : Option (ρ × UInt64)} {record : ρ} (closing : state.memory.closing = false)
    (closed : state.memory.closed = false)
    (idle : state.control thread = { scope := scope, phase := .idle })
    (landed : state.inFlight thread = [])
    (inactive : state.memory.invocationActive record = false) :
    rules.replay state (claimAlone thread scope record) =
      some (won state thread scope record) := by
  simp [claimAlone, won, Rules.replay, Rules.perform, Rules.act, rules, program, Shared.goes,
    Rules.seen, idle, landed, closing, closed, inactive, Phase.begins]

/-- Nobody closes the plan, and an idle thread that claims a record whose invocation is
not active gets it. -/
structure Claimable (state : PlanState τ ρ) : Prop where
  closing : state.memory.closing = false
  closed : state.memory.closed = false
  tasks : state.memory.tasksCleared = false
  unlocked : state.memory.lifecycleLock = false
  claims : ∀ thread scope record, state.control thread = { scope := scope, phase := .idle } →
    state.inFlight thread = [] → state.memory.invocationActive record = false →
      rules.replay state (claimAlone thread scope record) =
        some (won state thread scope record)

theorem claimable_of_reopened {condition : PlanState τ ρ → PlanEvent τ ρ → Prop}
    {conditions : Conditions} {events : List (PlanEvent τ ρ)} {final : PlanState τ ρ}
    {thread : τ} {status : PlanStatus}
    (run : Run rules condition (created conditions)
      (events ++ [.land thread (.unlock status)]) final) (failed : status ≠ .ok) :
    Claimable final := by
  obtain ⟨before, earlier, performed⟩ := run.last
  cases performed with
  | @land _ _ rest oldest =>
      obtain ⟨-, -, left⟩ := (gated_of_run earlier).gate_of_unlock oldest
      have opened : gate before.memory = ⟨false, false, false⟩ := by
        rw [left, Gate.result, if_neg failed]
      have closing : before.memory.closing = false := congrArg Gate.closing opened
      have closed : before.memory.closed = false := congrArg Gate.closed opened
      exact ⟨closing, closed, congrArg Gate.cleared opened, rfl,
        fun _ _ _ idle landed inactive => replay_claimAlone closing closed idle landed inactive⟩

/-! ## The close -/

/-- In every order of the steps, the plan's count is what is active, undecided or still
to be given back; a record's claims are its ended invocations and the active one, and each
that ended is given back once; and a close that fails leaves the plan claimable.  Where
each close reads the count for the last time after its announcement has landed, no task is
active once the tasks are cleared. -/
theorem plan_close_excludes [Fintype τ] [Fintype ρ] {conditions : Conditions}
    {events : List (PlanEvent τ ρ)} {final : PlanState τ ρ}
    (run : Run rules Free (created conditions) events final) :
    final.memory.activeTaskScopes =
        UInt32.ofNat (activeRecords final.memory + total undecided final +
          total unreturned final) ∧
      (∀ record,
        claims record events =
            ends record events + (final.memory.invocationActive record).toNat ∧
          ends record events = returns record events + total (unreturnedOf record) final) ∧
      (∀ earlier thread status, events = earlier ++ [.land thread (.unlock status)] →
        status ≠ .ok → Claimable final) ∧
      (Fintype.card τ + Fintype.card ρ < 2 ^ 32 →
        Run rules Announced (created conditions) events final →
          final.memory.tasksCleared = true →
            ∀ record, final.memory.invocationActive record = false) := by
  refine ⟨count_of_run run, fun record => ?_, ?_, ?_⟩
  · exact ⟨(accounted_of_run run record).claims, (accounted_of_run run record).ends⟩
  · rintro earlier thread status rfl failed
    exact claimable_of_reopened run failed
  · intro few announced cleared
    exact (sealed_of_run few announced (.inl cleared)).inactive

/-! ## Runs that show the edges -/

/-- Nothing fails, nothing is pending, and the worker runs. -/
def quiet : Conditions where
  failureStatus := .ok
  pendingActions := 0
  pendingRetirements := 0
  workerStop := false

/-- A thread without a scope takes its steps to these phases. -/
def acts (thread : τ) (phases : List (Phase ρ)) : List (PlanEvent τ ρ) :=
  phases.map fun phase => .act thread { scope := none, phase := phase }

/-- A close up to the last load of the count, with its announcement still in flight. -/
def closesInFlight : List (PlanEvent (Fin 2) (Fin 1)) :=
  acts 0 ([.lock, .closeClosed, .storeClosing] ++
    [Waiter.close, .clear].flatMap (fun waiter =>
      [.failure, .closed, .scopes, .actions, .retirements].map (.waitIdle waiter)) ++
    [.clearTasks .scopes, .clearTasks .actions])

/-- The rest of the close, up to its lock. -/
def clearsAndUnlocks : List (PlanEvent (Fin 2) (Fin 1)) :=
  acts 0 [.clearTasks .retirements, .clearTasks .layout, .clearTasks .table, .storeClosed,
    .unlock .ok, .idle]

def clearsAndCloses : List (PlanEvent (Fin 2) (Fin 1)) :=
  clearsAndUnlocks ++
    [.land 0 (.setClosing true), .land 0 .setClosed, .land 0 (.unlock .ok)]

/-- A claim, and a close that finds it and fails with the runtime. -/
def closesInVain : List (PlanEvent (Fin 2) (Fin 1)) :=
  claimAlone 1 none 0 ++
    acts 0 ([.lock, .closeClosed, .storeClosing] ++
      [.failure, .closed, .scopes, .workerStop, .failure].map (.waitIdle .close)) ++
    [.outside { quiet with failureStatus := .failed 44 }] ++
    acts 0 [.reopen (.failed 44), .unlock (.failed 44), .idle] ++
    [.land 0 (.setClosing true), .land 0 (.setClosing false), .land 0 (.unlock (.failed 44))]

/-- An invocation that ends, a close whose announcement lands before its last load of the
count, and a claim that the close refuses. -/
def closesAnnounced : List (PlanEvent (Fin 2) (Fin 1)) :=
  claimAlone 1 none 0 ++ acts 1 [.endInvocation 0, .giveBack 0, .idle] ++
    [.land 1 (.giveBack 0 true)] ++ closesInFlight.dropLast ++ [.land 0 (.setClosing true)] ++
    acts 0 [.clearTasks .actions] ++ clearsAndUnlocks ++
    [.land 0 .setClosed, .land 0 (.unlock .ok)] ++ acts 1 [.claimClosing 0, .idle]

/-- The announcement has landed where a thread reads the count for the last time. -/
def announces (state : PlanState (Fin 2) (Fin 1)) : PlanEvent (Fin 2) (Fin 1) → Bool
  | .act thread _ =>
    (state.control thread).phase ≠ .clearTasks .scopes ∨
      .setClosing true ∉ state.inFlight thread
  | _ => true

theorem announced_of_announces (state : PlanState (Fin 2) (Fin 1))
    (event : PlanEvent (Fin 2) (Fin 1)) (checked : announces state event = true) :
    Announced state event := by
  rintro thread next rfl reads
  simp only [announces, decide_eq_true_eq] at checked
  exact checked.resolve_left (fun elsewhere => elsewhere reads)

/-- After a close in vain the claim is still active, and the plan can be claimed; after an
announced close nothing is active. -/
theorem plan_close_excludes_twice :
    (∃ final : PlanState (Fin 2) (Fin 1),
      Run rules Free (created quiet) closesInVain final ∧
        claims 0 closesInVain =
          ends 0 closesInVain + (final.memory.invocationActive 0).toNat ∧
        final.memory.invocationActive 0 = true ∧ Claimable final) ∧
    ∃ final : PlanState (Fin 2) (Fin 1),
      Run rules Announced (created quiet) closesAnnounced final ∧
        claims 0 closesAnnounced = 1 ∧ returns 0 closesAnnounced = 1 ∧
        final.memory.tasksCleared = true ∧ final.memory.closed = true ∧
        ∀ record, final.memory.invocationActive record = false := by
  constructor
  · have replayed : (rules.replay (created quiet : PlanState (Fin 2) (Fin 1)) closesInVain).any
        (fun state => state.memory.invocationActive 0) = true := by decide +kernel
    obtain ⟨final, run, active⟩ := exists_run_of_replay replayed
    obtain ⟨-, records, reopened, -⟩ := plan_close_excludes run
    refine ⟨final, run, (records 0).1, active, ?_⟩
    exact reopened (closesInVain.dropLast) 0 (.failed 44) rfl (by decide)
  · have replayed : (rules.replay (created quiet : PlanState (Fin 2) (Fin 1))
        closesAnnounced).any
          (fun state => state.memory.tasksCleared && state.memory.closed) = true := by
      decide +kernel
    obtain ⟨final, run, ended⟩ := exists_run_of_passes announced_of_announces
      (show rules.passes announces _ closesAnnounced = true by decide +kernel) replayed
    obtain ⟨cleared, closed⟩ := Bool.and_eq_true_iff.mp ended
    obtain ⟨-, -, -, excludes⟩ := plan_close_excludes run.free
    exact ⟨final, run, by decide, by decide, cleared, closed,
      excludes (by decide) run cleared⟩

/-- Every thread claims its own record. -/
theorem replay_claims (state : PlanState τ τ) (threads : List τ) (distinct : threads.Nodup)
    (closing : state.memory.closing = false) (closed : state.memory.closed = false)
    (idle : ∀ thread ∈ threads, state.control thread = { scope := none, phase := .idle })
    (landed : ∀ thread ∈ threads, state.inFlight thread = [])
    (inactive : ∀ thread ∈ threads, state.memory.invocationActive thread = false) :
    ∃ final, rules.replay state
        (threads.flatMap fun thread => claimAlone thread none thread) = some final ∧
      (∀ thread, final.memory.invocationActive thread = true ↔
        state.memory.invocationActive thread = true ∨ thread ∈ threads) ∧
      final.memory.activeTaskScopes =
        state.memory.activeTaskScopes + UInt32.ofNat threads.length := by
  induction threads generalizing state with
  | nil => exact ⟨state, rfl, by simp, by simp⟩
  | cons first rest inductionHypothesis =>
      obtain ⟨absent, distinctRest⟩ := List.nodup_cons.1 distinct
      have claimed := replay_claimAlone closing closed (idle first List.mem_cons_self)
        (landed first List.mem_cons_self) (inactive first List.mem_cons_self)
      have apart : ∀ thread ∈ rest, thread ≠ first := by
        rintro thread member rfl
        exact absent member
      obtain ⟨final, replayed, active, count⟩ :=
        inductionHypothesis (won state first none first) distinctRest closing closed
          (fun thread member => by
            rw [← idle thread (List.mem_cons_of_mem _ member)]
            exact Function.update_of_ne (apart thread member) _ _)
          (fun thread member => landed thread (List.mem_cons_of_mem _ member))
          (fun thread member => by
            rw [← inactive thread (List.mem_cons_of_mem _ member)]
            exact Function.update_of_ne (apart thread member) _ _)
      refine ⟨final, ?_, ?_, ?_⟩
      · rw [List.flatMap_cons, replay_append, claimed]
        exact replayed
      · intro thread
        rw [active, List.mem_cons]
        by_cases here : thread = first
        · simp [won, here]
        · simp [won, here]
      · rw [count, List.length_cons, UInt32.ofNat_add, UInt32.ofNat_one]
        show state.memory.activeTaskScopes + 1 + _ = _
        rw [UInt32.add_assoc, UInt32.add_comm 1]

/-- The count misses an invocation that has ended and not been given back; a close misses
a claim while its announcement is in flight; and the word turns over. -/
theorem close_misses_claim :
    (∃ events final, Run rules Free (created quiet : PlanState (Fin 2) (Fin 1)) events final ∧
      final.memory.activeTaskScopes.toNat ≠
        activeRecords final.memory + total undecided final) ∧
    (∃ events final, Run rules Free (created quiet : PlanState (Fin 2) (Fin 1)) events final ∧
      final.memory.tasksCleared = true ∧ final.memory.closed = true ∧
        final.memory.lifecycleLock = false ∧ final.memory.invocationActive 0 = true) ∧
    ∃ events final, Run rules Free
        (created quiet : PlanState (Fin (2 ^ 32)) (Fin (2 ^ 32))) events final ∧
      final.memory.activeTaskScopes.toNat = 0 ∧
        ∀ record, final.memory.invocationActive record = true := by
  refine ⟨?_, ?_, ?_⟩
  · have replayed : (rules.replay (created quiet : PlanState (Fin 2) (Fin 1))
        (claimAlone 1 none 0 ++ acts 1 [.endInvocation 0, .giveBack 0])).any (fun state =>
          state.memory.activeTaskScopes.toNat ≠
            activeRecords state.memory + total undecided state) = true := by
      decide +kernel
    obtain ⟨final, run, differs⟩ := exists_run_of_replay replayed
    exact ⟨_, final, run, of_decide_eq_true differs⟩
  · have replayed : (rules.replay (created quiet : PlanState (Fin 2) (Fin 1))
        (closesInFlight ++ claimAlone 1 none 0 ++ clearsAndCloses)).any (fun state =>
          state.memory.tasksCleared ∧ state.memory.closed ∧
            state.memory.lifecycleLock = false ∧ state.memory.invocationActive 0) = true := by
      decide +kernel
    obtain ⟨final, run, facts⟩ := exists_run_of_replay replayed
    exact ⟨_, final, run, of_decide_eq_true facts⟩
  · obtain ⟨final, replayed, active, count⟩ :=
      replay_claims (created quiet : PlanState (Fin (2 ^ 32)) (Fin (2 ^ 32)))
        (List.finRange (2 ^ 32)) (List.nodup_finRange _) rfl rfl (fun _ _ => rfl)
        (fun _ _ => rfl) (fun _ _ => rfl)
    refine ⟨_, final, run_of_replay replayed, ?_, fun record => ?_⟩
    · rw [count, List.length_finRange]
      rfl
    · exact (active record).2 (.inr (List.mem_finRange record))

end ShadowSpill.Runtime.PlanClosing
