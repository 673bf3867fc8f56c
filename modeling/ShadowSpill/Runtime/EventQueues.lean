import Mathlib.Data.List.Perm.Basic
import Mathlib.Data.List.Count
import ShadowSpill.Runtime.EventRecords

/-!
# Streams, references and one record at a time

What appending to a stream, taking its head off and moving a polling thread on do to the
entries of the tracker and to the references held, and what changing one record leaves
alone.
-/

namespace ShadowSpill.Runtime.EventQueues

open EventRecords

variable {κ : Type} [DecidableEq κ]
variable {stream other : κ} {entry : EventId × Nat} {queue : List (EventId × Nat)}
variable {streams : List (CompletionStream κ)}

/-! ## The queue of a stream -/

theorem queueOf_eq_nil
    (missing : streams.any (fun owner => owner.stream = stream) = false) :
    queueOf stream streams = [] := by
  induction streams with
  | nil => rfl
  | cons owner streams inductionHypothesis =>
      rw [List.any_cons, Bool.or_eq_false_iff, decide_eq_false_iff_not] at missing
      unfold queueOf
      rw [if_neg missing.1]
      exact inductionHypothesis missing.2

theorem queueOf_appendTo
    (owned : streams.any (fun owner => owner.stream = stream) = true) :
    queueOf other (appendTo stream entry streams) =
      if other = stream then queueOf stream streams ++ [entry]
      else queueOf other streams := by
  induction streams with
  | nil => cases owned
  | cons owner streams inductionHypothesis =>
      unfold appendTo
      by_cases here : owner.stream = stream
      · rw [if_pos here]
        by_cases same : other = stream
        · simp [queueOf, here, same]
        · simp [queueOf, here, same, Ne.symm same]
      · rw [if_neg here]
        rw [List.any_cons, decide_eq_false here, Bool.false_or] at owned
        have later := inductionHypothesis owned
        unfold queueOf
        rw [later]
        by_cases same : other = stream
        · subst same
          rw [if_neg here, if_neg here]
        · rw [if_neg same, if_neg same]

/-- Only the stream submitted to grows, at its tail. -/
theorem queueOf_enqueue :
    queueOf other (enqueue stream entry streams) =
      if other = stream then queueOf stream streams ++ [entry]
      else queueOf other streams := by
  unfold enqueue
  split
  case isTrue owned => exact queueOf_appendTo owned
  case isFalse missing =>
    have empty := queueOf_eq_nil (eq_false_of_ne_true missing)
    by_cases same : other = stream
    · subst same
      simp [queueOf, empty]
    · simp [queueOf, same, Ne.symm same]

theorem queueOf_dropHead :
    queueOf other (dropHead stream streams) =
      if other = stream then (queueOf stream streams).tail
      else queueOf other streams := by
  induction streams with
  | nil => simp [queueOf, dropHead]
  | cons owner streams inductionHypothesis =>
      unfold dropHead
      by_cases here : owner.stream = stream
      · rw [if_pos here]
        by_cases same : other = stream
        · simp [queueOf, here, same]
        · simp [queueOf, here, same, Ne.symm same]
      · rw [if_neg here]
        unfold queueOf
        rw [inductionHypothesis]
        by_cases same : other = stream
        · subst same
          rw [if_neg here, if_neg here]
        · rw [if_neg same, if_neg same]

/-! ## All entries -/

theorem entries_appendTo
    (owned : streams.any (fun owner => owner.stream = stream) = true) :
    (entries (appendTo stream entry streams)).Perm ((stream, entry) :: entries streams) := by
  induction streams with
  | nil => cases owned
  | cons owner streams inductionHypothesis =>
      unfold appendTo
      split
      case isTrue here =>
        show ((owner.queue ++ [entry]).map (Prod.mk owner.stream) ++ entries streams).Perm _
        rw [List.map_append, List.append_assoc, ← here]
        exact List.perm_middle
      case isFalse here =>
        rw [List.any_cons, decide_eq_false here, Bool.false_or] at owned
        have tail := inductionHypothesis owned
        exact (tail.append_left (owner.queue.map (Prod.mk owner.stream))).trans
          List.perm_middle

/-- Submitting adds one entry. -/
theorem entries_enqueue :
    (entries (enqueue stream entry streams)).Perm ((stream, entry) :: entries streams) := by
  unfold enqueue
  split
  case isTrue owned => exact entries_appendTo owned
  case isFalse => exact List.Perm.refl _

/-- Taking the head off removes one entry. -/
theorem entries_dropHead (head : queueOf stream streams = entry :: queue) :
    (entries streams).Perm ((stream, entry) :: entries (dropHead stream streams)) := by
  induction streams with
  | nil => cases head
  | cons owner streams inductionHypothesis =>
      unfold queueOf at head
      unfold dropHead
      split at head
      case isTrue here =>
        rw [if_pos here]
        show (owner.queue.map (Prod.mk owner.stream) ++ entries streams).Perm
          ((stream, entry) ::
            (owner.queue.tail.map (Prod.mk owner.stream) ++ entries streams))
        rw [head, here]
        exact List.Perm.refl _
      case isFalse here =>
        rw [if_neg here]
        have tail := inductionHypothesis head
        exact (tail.append_left (owner.queue.map (Prod.mk owner.stream))).trans
          List.perm_middle

theorem mem_entries_of_queueOf (mem : entry ∈ queueOf stream streams) :
    (stream, entry) ∈ entries streams := by
  cases head : queueOf stream streams with
  | nil =>
      rw [head] at mem
      cases mem
  | cons first queue =>
      induction streams with
      | nil => cases mem
      | cons owner streams inductionHypothesis =>
          unfold queueOf at mem head
          show _ ∈ owner.queue.map (Prod.mk owner.stream) ++ entries streams
          split at mem
          case isTrue here =>
            apply List.mem_append_left
            rw [here]
            exact List.mem_map_of_mem mem
          case isFalse here =>
            rw [if_neg here] at head
            exact List.mem_append_right _ (inductionHypothesis mem head)

/-! ## References -/

/-- The events that are linked on a stream. -/
def queued (streams : List (CompletionStream κ)) : List EventId :=
  (entries streams).map fun submission => submission.2.1

/-- The references a polling thread holds. -/
def polled : Poller κ → List EventId
  | .idle => []
  | .snapshot _ event => [event]
  | .queried _ event _ => [event]
  | .releasing event count => List.replicate count event

/-- Every reference: of clients, of streams, of polling threads. -/
def held (state : State κ) : List EventId :=
  state.clients ++ (queued state.tracker.streams ++ state.pollers.flatMap polled)

omit [DecidableEq κ] in
/-- What one polling thread holds is what it held before, and the others hold the same. -/
theorem count_pollers_set
    {pollers : List (Poller κ)} {index : Nat} {poller next : Poller κ} {event : EventId}
    (at_index : pollers[index]? = some poller) :
    ((pollers.set index next).flatMap polled).count event + (polled poller).count event =
      (pollers.flatMap polled).count event + (polled next).count event := by
  induction pollers generalizing index with
  | nil => cases at_index
  | cons head pollers inductionHypothesis =>
      cases index with
      | zero =>
          cases at_index
          simp only [List.set_cons_zero, List.flatMap_cons, List.count_append]
          omega
      | succ index =>
          have tail := inductionHypothesis at_index
          simp only [List.set_cons_succ, List.flatMap_cons, List.count_append]
          omega

omit [DecidableEq κ] in
theorem mem_pollers_of_polled
    {pollers : List (Poller κ)} {index : Nat} {poller : Poller κ} {event : EventId}
    (at_index : pollers[index]? = some poller) (mem : event ∈ polled poller) :
    event ∈ pollers.flatMap polled :=
  List.mem_flatMap.mpr ⟨poller, List.mem_of_getElem? at_index, mem⟩

/-! ## One record -/

variable {records : EventId → EventRecord} {event : EventId} {record : EventRecord}

@[simp] theorem setRecord_same : setRecord records event record event = record := by
  unfold setRecord
  rw [if_pos rfl]

theorem setRecord_other {second : EventId} (different : second ≠ event) :
    setRecord records event record second = records second := by
  unfold setRecord
  rw [if_neg different]

/-- A property of all records after a change of one. -/
theorem forall_setRecord {property : EventId → EventRecord → Prop}
    (all : ∀ second, second ≠ event → property second (records second))
    (changed : property event record) :
    ∀ second, property second (setRecord records event record second) := by
  intro second
  by_cases same : second = event
  · subst same
    rw [setRecord_same]
    exact changed
  · rw [setRecord_other same]
    exact all second same

end ShadowSpill.Runtime.EventQueues
