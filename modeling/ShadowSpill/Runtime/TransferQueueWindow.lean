import ShadowSpill.Runtime.TransferQueueRuns

/-!
# What a transfer queue has in flight

The count and the bytes a queue keeps of what is in flight, and its window for
background transfers.  A count of zero bytes stands for "the queue holds none",
which transfers of no bytes contradict: past one of them a transfer larger than
the window is admitted although it does not run alone.
-/

namespace ShadowSpill.Runtime.TransferQueueWindow

open Library.Word64 TransferQueues TransferQueueRuns

variable {ι : Type}

/-! ## The law and its condition -/

/-- Bytes of the background actions among these. -/
def backgroundTotal (actions : Actions ι) (items : List ι) : Nat :=
  ((ofKind actions true items).map actions.sizeBytes).sum

/-- A background claim granted because no bytes are in flight finds no
background action in flight or fits the window, and no sum wraps. -/
def Guarded (actions : Actions ι) (state : State ι) : Event ι → Prop
  | .claimed action =>
    actions.background action = true →
    state.memory.queue.backgroundWindowBytes ≠ 0 →
      state.memory.queue.backgroundInflightBytes + actions.sizeBytes action <
          modulus ∧
        (state.memory.queue.backgroundInflightBytes = 0 →
          (∀ other, state.memory.queueState other = .inflight →
            actions.background other = false) ∨
          actions.sizeBytes action ≤ state.memory.queue.backgroundWindowBytes)
  | .published action =>
    state.memory.queue.inflightCount + 1 < 2 ^ 32 ∧
      (actions.background action = true →
        state.memory.queue.backgroundInflightBytes + actions.sizeBytes action <
          modulus)
  | _ => True

/-- Every action is in one place, none overtakes another of its kind, and the
queue's counters are those of its list in flight, whose background bytes exceed
a window only for an action alone. -/
structure Lawful (actions : Actions ι) (trace : List (Event ι)) (state : State ι)
    (contents : Contents ι) : Prop where
  holds : Holds actions state.memory contents
  everywhere :
    (enqueues trace).Perm
      (contents.waiting false ++ contents.waiting true ++ held trace state ++
        contents.inflight ++ completions trace)
  once :
    (contents.waiting false ++ contents.waiting true ++ held trace state ++
      contents.inflight).Nodup
  claimOrder : ∀ background,
    ofKind actions background (enqueues trace) =
      ofKind actions background (claims trace) ++ contents.waiting background
  completionOrder : publications trace = completions trace ++ contents.inflight
  count : state.memory.queue.inflightCount = contents.inflight.length
  bytes :
    state.memory.queue.backgroundInflightBytes =
      backgroundTotal actions contents.inflight
  window : state.memory.queue.backgroundWindowBytes ≠ 0 →
    state.memory.queue.backgroundWindowBytes <
        backgroundTotal actions contents.inflight →
      (ofKind actions true contents.inflight).length = 1

/-! ## Places, from the orders -/

theorem ofKind_perm (actions : Actions ι) (items : List ι) :
    (ofKind actions false items ++ ofKind actions true items).Perm items := by
  have split := List.filter_append_perm
    (fun action => actions.background action == false) items
  have kinds : (fun action => !(actions.background action == false)) =
      fun action => actions.background action == true := by
    funext action
    cases actions.background action <;> rfl
  rw [kinds] at split
  exact split

section Places

variable {actions : Actions ι} {trace : List (Event ι)} {state : State ι}
variable {contents : Contents ι}

theorem everywhere_of_traced (traced : Traced actions trace state contents) :
    (enqueues trace).Perm
      (contents.waiting false ++ contents.waiting true ++ held trace state ++
        contents.inflight ++ completions trace) := by
  classical
  have split := ofKind_perm actions (enqueues trace)
  rw [traced.claimOrder false, traced.claimOrder true] at split
  have claimed := (ofKind_perm actions (claims trace)).trans traced.claimed
  rw [traced.completionOrder] at claimed
  apply split.symm.trans
  rw [List.perm_iff_count] at claimed ⊢
  intro action
  have here := claimed action
  simp only [List.count_append] at here ⊢
  omega

theorem once_of_traced (traced : Traced actions trace state contents) :
    (contents.waiting false ++ contents.waiting true ++ held trace state ++
      contents.inflight).Nodup := by
  have holds := traced.holds
  have waitState : ∀ action ∈ contents.waiting false ++ contents.waiting true,
      state.memory.queueState action = .pending := by
    intro action member
    rcases List.mem_append.mp member with plan | background
    · exact holds.waiting_state plan
    · exact holds.waiting_state background
  have waitOnce : (contents.waiting false ++ contents.waiting true).Nodup := by
    rw [List.nodup_append]
    refine ⟨(holds.waiting false).nodup, (holds.waiting true).nodup, ?_⟩
    rintro action plan other background rfl
    have kind := holds.kind false action plan
    rw [holds.kind true action background] at kind
    cases kind
  have heldApart : (contents.waiting false ++ contents.waiting true ++
      held trace state).Nodup := by
    rw [List.nodup_append]
    refine ⟨waitOnce, traced.heldOnce, ?_⟩
    rintro action waits other holding rfl
    have state_ := waitState action waits
    simp [(traced.heldIdle action holding).1] at state_
  rw [List.nodup_append]
  refine ⟨heldApart, holds.inflight.nodup, ?_⟩
  rintro action elsewhere other flying rfl
  have flies := (holds.inflightState action).mpr flying
  rcases List.mem_append.mp elsewhere with waits | holding
  · simp [waitState action waits] at flies
  · simp [(traced.heldIdle action holding).1] at flies

end Places

/-! ## The counters -/

section Counters

variable (actions : Actions ι)

@[simp] theorem backgroundTotal_append (first second : List ι) :
    backgroundTotal actions (first ++ second) =
      backgroundTotal actions first + backgroundTotal actions second := by
  simp [backgroundTotal]

theorem backgroundTotal_singleton (action : ι) :
    backgroundTotal actions [action] =
      if actions.background action then actions.sizeBytes action else 0 := by
  unfold backgroundTotal
  rw [ofKind_singleton]
  split <;> simp

theorem backgroundTotal_cons (action : ι) (items : List ι) :
    backgroundTotal actions (action :: items) =
      (if actions.background action then actions.sizeBytes action else 0) +
        backgroundTotal actions items := by
  rw [← List.singleton_append, backgroundTotal_append, backgroundTotal_singleton]

/-- The counters agree with the list in flight, and a claimed background action
will keep the window when it joins it. -/
structure Accounted (state : State ι) (inflight : List ι) : Prop where
  count : state.memory.queue.inflightCount = inflight.length
  countWord : inflight.length < 2 ^ 32
  bytes : state.memory.queue.backgroundInflightBytes =
    backgroundTotal actions inflight
  window : state.memory.queue.backgroundWindowBytes ≠ 0 →
    state.memory.queue.backgroundWindowBytes < backgroundTotal actions inflight →
      (ofKind actions true inflight).length = 1
  admitted : ∀ action, state.busy = some action →
    actions.background action = true →
    state.memory.queue.backgroundWindowBytes ≠ 0 →
      ofKind actions true inflight = [] ∨
        backgroundTotal actions inflight + actions.sizeBytes action ≤
          state.memory.queue.backgroundWindowBytes

end Counters

namespace Accounted

variable {actions : Actions ι} {state : State ι} {inflight : List ι} {action : ι}

/-- What changes neither the counters nor the list in flight keeps the law, if
the worker's action is one it was or none. -/
theorem congr
    (accounted : Accounted actions state inflight) {next : State ι}
    (window : next.memory.queue.backgroundWindowBytes =
      state.memory.queue.backgroundWindowBytes)
    (bytes : next.memory.queue.backgroundInflightBytes =
      state.memory.queue.backgroundInflightBytes)
    (count : next.memory.queue.inflightCount = state.memory.queue.inflightCount)
    (busy : next.busy = state.busy ∨ next.busy = none) :
    Accounted actions next inflight := by
  constructor
  · rw [count]
    exact accounted.count
  · exact accounted.countWord
  · rw [bytes]
    exact accounted.bytes
  · rw [window]
    exact accounted.window
  · intro other isBusy
    rw [window]
    rcases busy with same | settled
    · exact accounted.admitted other (same ▸ isBusy)
    · simp [settled] at isBusy

variable [DecidableEq ι]

theorem claimed
    {contents : Contents ι}
    (accounted : Accounted actions state contents.inflight)
    (holds : Holds actions state.memory contents)
    (guarded : Guarded actions state (.claimed action))
    {memory : Memory ι} (granted : claim actions state.memory action = some memory) :
    Accounted actions { state with memory, busy := some action }
      contents.inflight := by
  obtain ⟨-, window, bytes, count⟩ := claim_fields granted
  constructor
  · rw [count]
    exact accounted.count
  · exact accounted.countWord
  · rw [bytes]
    exact accounted.bytes
  · rw [window]
    exact accounted.window
  · intro other isBusy background bounded
    obtain rfl : action = other := by simpa using isBusy
    rw [window] at bounded ⊢
    obtain ⟨fits, apart⟩ := guarded background bounded
    have admits := claim_admitted granted background
    simp only [backgroundWindowAdmits, Bool.or_eq_true, beq_iff_eq,
      decide_eq_true_eq] at admits
    rcases admits with (unbounded | empty) | within
    · exact absurd unbounded bounded
    · rcases apart empty with none | small
      · left
        rw [ofKind, List.filter_eq_nil_iff]
        intro flying member
        simp [none flying ((holds.inflightState flying).mpr member)]
      · right
        rw [← accounted.bytes, empty, Nat.zero_add]
        exact small
    · right
      rw [wrap_eq fits, accounted.bytes] at within
      exact within

theorem published
    (accounted : Accounted actions state inflight)
    (busy : state.busy = some action)
    (guarded : Guarded actions state (.published action)) :
    Accounted actions
      { state with
        memory := publishInflight actions state.memory action, busy := none }
      (inflight ++ [action]) := by
  obtain ⟨countFits, bytesFit⟩ := guarded
  have countNow := accounted.count
  constructor
  · simp only [publishInflight]
    rw [Nat.mod_eq_of_lt countFits, countNow, List.length_append,
      List.length_singleton]
  · rw [List.length_append, List.length_singleton, ← countNow]
    exact countFits
  · simp only [publishInflight]
    rw [backgroundTotal_append, backgroundTotal_singleton, ← accounted.bytes]
    by_cases background : actions.background action = true
    · rw [if_pos background, if_pos background, wrap_eq (bytesFit background)]
    · rw [if_neg background, if_neg background, Nat.add_zero]
  · intro bounded exceeds
    have bounded : state.memory.queue.backgroundWindowBytes ≠ 0 := bounded
    rw [backgroundTotal_append, backgroundTotal_singleton] at exceeds
    rw [ofKind_append, ofKind_singleton]
    by_cases background : actions.background action = true
    · rw [if_pos background] at exceeds ⊢
      rcases accounted.admitted action busy background bounded with alone | within
      · rw [alone]
        rfl
      · exact absurd exceeds (Nat.not_lt.mpr within)
    · rw [if_neg background] at exceeds ⊢
      rw [List.append_nil]
      exact accounted.window bounded exceeds
  · simp

theorem completed
    (accounted : Accounted actions state (action :: inflight))
    (free : state.busy = none)
    {memory : Memory ι}
    (granted : complete actions state.memory action = some memory) :
    Accounted actions
      { state with memory, active := Function.update state.active action false }
      inflight := by
  obtain ⟨-, window, count, bytes⟩ := complete_fields granted
  have countNow := accounted.count
  have countWord := accounted.countWord
  have bytesNow := accounted.bytes
  rw [backgroundTotal_cons] at bytesNow
  rw [List.length_cons] at countNow countWord
  constructor
  · rw [count, countNow]
    have shifted : inflight.length + 1 + (2 ^ 32 - 1) =
        inflight.length + 2 ^ 32 := by omega
    rw [shifted, Nat.add_mod_right, Nat.mod_eq_of_lt (by omega)]
  · omega
  · rw [bytes, bytesNow]
    by_cases background : actions.background action = true
    · rw [if_pos background, if_pos background, Nat.add_sub_cancel_left]
    · rw [if_neg background, if_neg background, Nat.zero_add]
  · rw [window]
    intro bounded exceeds
    have before := accounted.window bounded
    rw [backgroundTotal_cons, ← List.singleton_append, ofKind_append,
      ofKind_singleton, List.length_append] at before
    by_cases background : actions.background action = true
    · -- It was alone, so nothing is left to exceed the window.
      rw [if_pos background, if_pos background] at before
      have alone := before (lt_of_lt_of_le exceeds (Nat.le_add_left _ _))
      have none : ofKind actions true inflight = [] := by
        apply List.eq_nil_of_length_eq_zero
        simpa using alone
      rw [backgroundTotal, none] at exceeds
      simp at exceeds
    · rw [if_neg background, if_neg background, Nat.zero_add] at before
      simpa using before exceeds
  · simp [free]

end Accounted

/-! ## Runs -/

section Runs

variable [DecidableEq ι] {actions : Actions ι} {trace : List (Event ι)}
variable {state final : State ι} {contents : Contents ι} {event : Event ι}

/-- Each guarded step keeps the counters and the window. -/
theorem Accounted.step
    (accounted : Accounted actions state contents.inflight)
    (holds : Holds actions state.memory contents)
    (guarded : Guarded actions state event)
    (stepped : step actions state event = some final)
    {inflight : List ι} (after : InflightAfter contents.inflight inflight event) :
    Accounted actions final inflight := by
  cases event with
  | enqueued action =>
      obtain rfl : inflight = contents.inflight := after
      simp only [TransferQueueRuns.step] at stepped
      split at stepped
      · simp at stepped
      · cases stepped
        apply accounted.congr <;> simp [enqueue]
  | claimed action =>
      obtain rfl : inflight = contents.inflight := after
      simp only [TransferQueueRuns.step] at stepped
      split at stepped
      · simp at stepped
      · obtain ⟨memory, granted, rfl⟩ := Option.map_eq_some_iff.mp stepped
        exact accounted.claimed holds guarded granted
  | returned action =>
      obtain rfl : inflight = contents.inflight := after
      simp only [TransferQueueRuns.step] at stepped
      split at stepped
      · cases stepped
        apply accounted.congr <;> simp [returnAction]
      · simp at stepped
  | published action =>
      obtain rfl : inflight = contents.inflight ++ [action] := after
      simp only [TransferQueueRuns.step] at stepped
      split at stepped
      · rename_i busy
        cases stepped
        exact accounted.published busy guarded
      · simp at stepped
  | abandoned action =>
      obtain rfl : inflight = contents.inflight := after
      simp only [TransferQueueRuns.step] at stepped
      split at stepped
      · cases stepped
        apply accounted.congr <;> simp
      · simp at stepped
  | completed action =>
      have list : contents.inflight = action :: inflight := after
      simp only [TransferQueueRuns.step] at stepped
      split at stepped
      · simp at stepped
      · rename_i free
        obtain ⟨memory, granted, rfl⟩ := Option.map_eq_some_iff.mp stepped
        exact (list ▸ accounted).completed (by simpa using free) granted
  | claimRefused action | completeRefused action =>
      obtain rfl : inflight = contents.inflight := after
      simp only [TransferQueueRuns.step] at stepped
      split at stepped
      · simp at stepped
      · cases stepped
        exact accounted

/-- In every run whose steps are guarded, the queue's law holds of every state
reached. -/
theorem transferQueue_lawful
    {window : Nat} (reached : Reached actions (Guarded actions) window trace state) :
    ∃ contents, Lawful actions trace state contents := by
  have kept : ∃ contents, Traced actions trace state contents ∧
      Accounted actions state contents.inflight := by
    induction reached with
    | start =>
        refine ⟨_, Traced.start window, ?_⟩
        constructor <;> simp [initial, backgroundTotal, ofKind]
    | next event _ guarded stepped ih =>
        obtain ⟨contents, traced, accounted⟩ := ih
        obtain ⟨next, after, inflight⟩ := traced.step stepped
        exact ⟨next, after,
          accounted.step traced.holds guarded stepped inflight⟩
  obtain ⟨contents, traced, accounted⟩ := kept
  exact
    ⟨contents,
      { holds := traced.holds
        everywhere := everywhere_of_traced traced
        once := once_of_traced traced
        claimOrder := traced.claimOrder
        completionOrder := traced.completionOrder
        count := accounted.count
        bytes := accounted.bytes
        window := accounted.window }⟩

/-- Whatever the sizes and the window, every action is in one place and none overtakes
another of its kind. -/
theorem transferQueue_orderly {permitted : State ι → Event ι → Prop} {window : Nat}
    (reached : Reached actions permitted window trace state) :
    ∃ contents, Holds actions state.memory contents ∧
      (enqueues trace).Perm
        (contents.waiting false ++ contents.waiting true ++ held trace state ++
          contents.inflight ++ completions trace) ∧
      (contents.waiting false ++ contents.waiting true ++ held trace state ++
        contents.inflight).Nodup ∧
      (∀ background, ofKind actions background (enqueues trace) =
        ofKind actions background (claims trace) ++ contents.waiting background) ∧
      publications trace = completions trace ++ contents.inflight := by
  obtain ⟨contents, traced⟩ := reached_traced reached
  exact ⟨contents, traced.holds, everywhere_of_traced traced, once_of_traced traced,
    traced.claimOrder, traced.completionOrder⟩

end Runs

/-! ## Runs of three transfers -/

/-- A plan's transfer, and two background ones of which the second is the larger. -/
def twoKinds : Actions Nat where
  background := fun action => action ≠ 0
  sizeBytes := fun action => if action = 2 then 12 else 8

/-- The worker gives one transfer back before it publishes it, and the larger one waits
until no other of its kind is in flight. -/
def twoKindsTrace : List (Event Nat) :=
  [.enqueued 0, .enqueued 1, .enqueued 2, .claimed 1, .returned 1, .claimed 1, .published 1,
    .claimed 0, .published 0, .claimRefused 2, .completed 1, .claimed 2, .published 2]

/-- A queue with a window of eight bytes ends with the plan's transfer and the one of twelve
bytes in flight. -/
theorem transferQueue_lawful_twoKinds :
    ∃ state contents, Lawful twoKinds twoKindsTrace state contents ∧
      contents.inflight = [0, 2] ∧ completions twoKindsTrace = [1] ∧
      state.memory.queue.backgroundInflightBytes = 12 := by
  have opened : Reached twoKinds (Guarded twoKinds) 8 [] (initial 8) := .start
  have enqueued := ((opened.next (.enqueued 0) trivial rfl).next (.enqueued 1) trivial
    rfl).next (.enqueued 2) trivial rfl
  have returned := (enqueued.next (.claimed 1)
    (fun _ _ => ⟨by decide, fun _ => .inr (by decide)⟩) rfl).next (.returned 1) trivial rfl
  have background := (returned.next (.claimed 1)
    (fun _ _ => ⟨by decide, fun _ => .inr (by decide)⟩) rfl).next (.published 1)
    ⟨by decide, fun _ => by decide⟩ rfl
  have planned := (background.next (.claimed 0) (fun kind => absurd kind (by decide)) rfl).next
    (.published 0) ⟨by decide, fun kind => absurd kind (by decide)⟩ rfl
  have completed := (planned.next (.claimRefused 2) trivial rfl).next (.completed 1) trivial rfl
  have larger := completed.next (.claimed 2) (fun _ _ => ⟨by decide, fun _ => .inl (by
    rintro (_ | _ | _ | other) flying
    · rfl
    all_goals cases flying)⟩) rfl
  have final := larger.next (.published 2) ⟨by decide, fun _ => by decide⟩ rfl
  obtain ⟨contents, law⟩ := transferQueue_lawful final
  have order : [1, 0, 2] = [1] ++ contents.inflight := law.completionOrder
  exact ⟨_, contents, law, (List.cons.inj order).2.symm, rfl, rfl⟩

/-! ## A transfer of no bytes -/

/-- Background actions only: one of no bytes, and others of eight. -/
def mixedSizes : Actions Nat where
  background := fun _ => true
  sizeBytes := fun action => if action = 0 then 0 else 8

/-- With a window of four bytes the transfer of no bytes lets one of eight past it, and a
third waits. -/
def mixedTrace : List (Event Nat) :=
  [.enqueued 0, .enqueued 1, .enqueued 2, .claimed 0, .published 0, .claimed 1, .published 1,
    .completed 0]

theorem transferQueue_orderly_mixed :
    ∃ state contents, Holds mixedSizes state.memory contents ∧
      [0, 1, 2].Perm (contents.waiting false ++ contents.waiting true ++
        held mixedTrace state ++ contents.inflight ++ [0]) ∧
      contents.waiting true = [2] ∧ contents.inflight = [1] := by
  have opened : Reached mixedSizes (fun _ _ => True) 4 [] (initial 4) := .start
  have enqueued := ((opened.next (.enqueued 0) trivial rfl).next (.enqueued 1) trivial
    rfl).next (.enqueued 2) trivial rfl
  have empty := (enqueued.next (.claimed 0) trivial rfl).next (.published 0) trivial rfl
  have second := (empty.next (.claimed 1) trivial rfl).next (.published 1) trivial rfl
  obtain ⟨contents, holds, everywhere, _, claimOrder, completionOrder⟩ :=
    transferQueue_orderly (second.next (.completed 0) trivial rfl)
  have waits : [0, 1, 2] = [0, 1] ++ contents.waiting true := claimOrder true
  have flies : [0, 1] = [0] ++ contents.inflight := completionOrder
  refine ⟨_, contents, holds, everywhere, ?_, (List.cons.inj flies).2.symm⟩
  exact (List.cons.inj (List.cons.inj waits).2).2.symm

/-- Behind a transfer of no bytes the queue puts one of eight in flight: two background
transfers that exceed the window together. -/
theorem transferQueue_emptyTransfer_exceeds :
    ¬ ∀ trace state,
      Reached mixedSizes (fun _ _ => True) 4 trace state →
        ∃ contents, Lawful mixedSizes trace state contents := by
  intro lawful
  have opened : Reached mixedSizes (fun _ _ => True) 4 [] (initial 4) := .start
  have first := Reached.next (.enqueued 0) opened trivial rfl
  have second := Reached.next (.enqueued 1) first trivial rfl
  have claimed := Reached.next (.claimed 0) second trivial rfl
  have published := Reached.next (.published 0) claimed trivial rfl
  have reclaimed := Reached.next (.claimed 1) published trivial rfl
  have both := Reached.next (.published 1) reclaimed trivial rfl
  obtain ⟨contents, law⟩ := lawful _ _ both
  have inflight : contents.inflight = [0, 1] := law.completionOrder.symm
  have alone := law.window (by decide)
  rw [inflight] at alone
  exact absurd (alone (by decide)) (by decide)

end ShadowSpill.Runtime.TransferQueueWindow
