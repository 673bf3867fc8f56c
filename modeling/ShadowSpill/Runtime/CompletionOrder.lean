import ShadowSpill.Runtime.EventReferences

/-!
# Completions follow submissions

What was submitted to a stream is what was completed on it, in that order, followed by
what is still queued.  A polling thread looks at an event only when everything submitted
to its stream before it is complete.
-/

namespace ShadowSpill.Runtime.CompletionOrder

open EventRecords EventQueues

variable {κ : Type} [DecidableEq κ]
variable {state next : State κ} {event : EventId} {stream : κ} {ticket : Nat}

/-- The submissions to one stream. -/
def onStream (stream : κ) (submissions : List (Submission κ)) : List (Submission κ) :=
  submissions.filter fun submission => submission.1 = stream

/-- Submissions, completions and queues agree. -/
structure OrderSound (state : State κ) : Prop where
  numbered : state.submissions.map (fun submission => submission.2.2) =
    List.range state.submissions.length
  perStream : ∀ stream, onStream stream state.submissions =
    onStream stream state.completions ++
      (queueOf stream state.tracker.streams).map (Prod.mk stream)
  accounted : state.submissions.Perm (state.completions ++ entries state.tracker.streams)
  pending : state.tracker.pending = (entries state.tracker.streams).length

theorem orderSound_initial (pollers : Nat) : OrderSound (initial pollers : State κ) where
  numbered := rfl
  perStream := fun _ => rfl
  accounted := List.Perm.refl _
  pending := rfl

theorem OrderSound.congr
    (sound : OrderSound state) (tracker : next.tracker = state.tracker)
    (submissions : next.submissions = state.submissions)
    (completions : next.completions = state.completions) : OrderSound next := by
  constructor
  case numbered =>
    rw [submissions]
    exact sound.numbered
  case perStream =>
    rw [submissions, completions, tracker]
    exact sound.perStream
  case accounted =>
    rw [submissions, completions, tracker]
    exact sound.accounted
  case pending =>
    rw [tracker]
    exact sound.pending

theorem onStream_append_one (submissions : List (Submission κ)) (other : κ)
    (entry : EventId × Nat) :
    onStream other (submissions ++ [(stream, entry)]) =
      onStream other submissions ++ if other = stream then [(stream, entry)] else [] := by
  unfold onStream
  rw [List.filter_append]
  by_cases same : other = stream
  · simp [same]
  · simp [same, Ne.symm same]

theorem OrderSound.submit (sound : OrderSound state) :
    OrderSound (submit state stream event) := by
  unfold EventRecords.submit
  split
  case isTrue => exact sound
  case isFalse =>
    constructor
    case numbered =>
      show (state.submissions ++ [_]).map _ = List.range (state.submissions ++ [_]).length
      rw [List.map_append, sound.numbered, List.length_append]
      exact List.range_succ.symm
    case perStream =>
      intro other
      show onStream other (state.submissions ++ [_]) = onStream other state.completions ++
        (queueOf other (enqueue stream _ state.tracker.streams)).map (Prod.mk other)
      rw [onStream_append_one, queueOf_enqueue, sound.perStream other]
      by_cases same : other = stream
      · rw [if_pos same, if_pos same, List.map_append, same, List.append_assoc]
        rfl
      · rw [if_neg same, if_neg same, List.append_nil]
    case accounted =>
      have longer := sound.accounted.append_right
        [(stream, event, state.submissions.length)]
      rw [List.append_assoc] at longer
      apply longer.trans
      apply List.Perm.append_left state.completions
      exact List.perm_append_comm.trans entries_enqueue.symm
    case pending =>
      show state.tracker.pending + 1 = (entries (enqueue stream _ state.tracker.streams)).length
      rw [sound.pending, entries_enqueue.length_eq]
      rfl

theorem OrderSound.unlinkHead {index : Nat} {queue : List (EventId × Nat)}
    (sound : OrderSound state)
    (head : queueOf stream state.tracker.streams = (event, ticket) :: queue) :
    OrderSound (unlinkHead state index stream event ticket) := by
  have shorter := entries_dropHead head
  have lengths := shorter.length_eq
  constructor
  case numbered => exact sound.numbered
  case perStream =>
    intro other
    show onStream other state.submissions = onStream other (state.completions ++ [_]) ++
      (queueOf other (dropHead stream state.tracker.streams)).map (Prod.mk other)
    rw [onStream_append_one, queueOf_dropHead, sound.perStream other, List.append_assoc]
    by_cases same : other = stream
    · rw [if_pos same, if_pos same, same, head]
      rfl
    · rw [if_neg same, if_neg same, List.nil_append]
  case accounted =>
    show state.submissions.Perm
      ((state.completions ++ [_]) ++ entries (dropHead stream state.tracker.streams))
    rw [List.append_assoc]
    exact sound.accounted.trans (shorter.append_left state.completions)
  case pending =>
    show (if state.tracker.pending ≠ 0 then state.tracker.pending - 1
      else state.tracker.pending) = _
    rw [sound.pending, lengths, List.length_cons, if_pos (Nat.succ_ne_zero _)]
    rfl

/-! ## What follows for completions -/

theorem OrderSound.submissions_nodup (sound : OrderSound state) :
    state.submissions.Nodup := by
  apply @List.Nodup.of_map _ _ (fun submission : Submission κ => submission.2.2)
  rw [sound.numbered]
  exact List.nodup_range

theorem OrderSound.completions_nodup (sound : OrderSound state) :
    state.completions.Nodup :=
  (List.nodup_append.mp (sound.accounted.nodup_iff.mp sound.submissions_nodup)).1

/-- What is not complete is what is queued. -/
theorem OrderSound.waiting (sound : OrderSound state) :
    (state.submissions.filter (fun submission => submission ∉ state.completions)).Perm
      (entries state.tracker.streams) := by
  have apart := List.nodup_append.mp (sound.accounted.nodup_iff.mp sound.submissions_nodup)
  have filtered := sound.accounted.filter (fun submission => submission ∉ state.completions)
  rw [List.filter_append] at filtered
  have none_complete :
      state.completions.filter (fun submission => submission ∉ state.completions) = [] := by
    apply List.filter_eq_nil_iff.mpr
    intro submission mem
    simpa using mem
  have all_waiting : (entries state.tracker.streams).filter
      (fun submission => submission ∉ state.completions) = entries state.tracker.streams := by
    apply List.filter_eq_self.mpr
    intro submission mem
    apply decide_eq_true
    intro done
    exact apart.2.2 submission done submission mem rfl
  rw [none_complete, all_waiting] at filtered
  exact filtered

/-- Whatever precedes the head of a queue was submitted before it, and is complete. -/
theorem OrderSound.before_head (sound : OrderSound state)
    (head : headOf state stream = some (event, ticket)) :
    (stream, event, ticket) ∈ state.submissions ∧
      ∀ other ∈ state.submissions, other.1 = stream → other.2.2 < ticket →
        other ∈ state.completions := by
  unfold headOf at head
  obtain ⟨queue, queued⟩ := List.head?_eq_some_iff.mp head
  have row := sound.perStream stream
  rw [queued] at row
  have ascending : ((onStream stream state.submissions).map
      (fun submission => submission.2.2)).Pairwise (· < ·) := by
    have all : (state.submissions.map
        (fun submission : Submission κ => submission.2.2)).Pairwise (· < ·) := by
      rw [sound.numbered]
      exact List.pairwise_lt_range
    exact all.sublist (List.filter_sublist.map _)
  rw [row, List.map_append, List.pairwise_append] at ascending
  constructor
  · have mem : (stream, event, ticket) ∈ onStream stream state.submissions := by
      rw [row]
      exact List.mem_append_right _ List.mem_cons_self
    exact (List.mem_filter.mp mem).1
  · intro other mem same earlier
    have onIt : other ∈ onStream stream state.submissions :=
      List.mem_filter.mpr ⟨mem, decide_eq_true same⟩
    rw [row] at onIt
    rcases List.mem_append.mp onIt with done | waiting
    · exact (List.mem_filter.mp done).1
    · exfalso
      rcases List.mem_cons.mp waiting with rfl | later
      · exact Nat.lt_irrefl _ earlier
      · have tail := (List.pairwise_cons.mp ascending.2.1).1 other.2.2
          (List.mem_map_of_mem later)
        exact Nat.lt_asymm earlier tail

/-! ## Polling threads -/

/-- The event that a polling thread looks at. -/
def looksAt : Poller κ → Option (κ × EventId)
  | .idle => none
  | .snapshot stream event => some (stream, event)
  | .queried stream event _ => some (stream, event)
  | .releasing _ _ => none

/-- Everything submitted to the stream before the event is complete. -/
def EarlierComplete (state : State κ) (stream : κ) (event : EventId) : Prop :=
  ∃ ticket, (stream, event, ticket) ∈ state.submissions ∧
    ∀ other ∈ state.submissions, other.1 = stream → other.2.2 < ticket →
      other ∈ state.completions

/-- What one polling thread has seen. -/
structure PollerSound (state : State κ) (poller : Poller κ) : Prop where
  earlier : ∀ stream event,
    looksAt poller = some (stream, event) → EarlierComplete state stream event
  answered : ∀ stream event,
    poller = .queried stream event .complete → (state.records event).complete = true

def PollSound (state : State κ) : Prop := ∀ poller ∈ state.pollers, PollerSound state poller

omit [DecidableEq κ] in
theorem pollSound_initial (pollers : Nat) : PollSound (initial pollers : State κ) := by
  intro poller mem
  rw [List.eq_of_mem_replicate mem]
  constructor
  case earlier =>
    intro stream event looks
    cases looks
  case answered =>
    intro stream event asked
    cases asked

/-- A step keeps the completions, and numbers its submissions upwards. -/
structure Grows (state next : State κ) : Prop where
  submissions : ∃ added, next.submissions = state.submissions ++ added ∧
    ∀ submission ∈ added, state.submissions.length ≤ submission.2.2
  completions : ∀ submission ∈ state.completions, submission ∈ next.completions

omit [DecidableEq κ] in
theorem grows_of_eq (submissions : next.submissions = state.submissions)
    (completions : next.completions = state.completions) : Grows state next := by
  constructor
  case submissions =>
    refine ⟨[], ?_, ?_⟩
    · rw [submissions, List.append_nil]
    · intro submission mem
      cases mem
  case completions =>
    rw [completions]
    exact fun _ mem => mem

theorem grows_submit : Grows state (submit state stream event) := by
  unfold EventRecords.submit
  split
  case isTrue => exact grows_of_eq rfl rfl
  case isFalse =>
    constructor
    case submissions =>
      refine ⟨[(stream, event, state.submissions.length)], rfl, ?_⟩
      intro submission mem
      cases List.mem_singleton.mp mem
      exact Nat.le_refl _
    case completions => exact fun _ mem => mem

theorem grows_unlinkHead {index : Nat} :
    Grows state (unlinkHead state index stream event ticket) := by
  constructor
  case submissions =>
    refine ⟨[], (List.append_nil _).symm, ?_⟩
    intro submission mem
    cases mem
  case completions => exact fun _ mem => List.mem_append_left _ mem

theorem EarlierComplete.mono
    (earlier : EarlierComplete state stream event) (sound : OrderSound state)
    (grows : Grows state next) : EarlierComplete next stream event := by
  obtain ⟨ticket, mem, before⟩ := earlier
  obtain ⟨added, eq, later⟩ := grows.submissions
  have numbered : ticket < state.submissions.length := by
    have ticketMem : ticket ∈ state.submissions.map (fun submission => submission.2.2) :=
      List.mem_map_of_mem mem
    rw [sound.numbered] at ticketMem
    exact List.mem_range.mp ticketMem
  refine ⟨ticket, ?_, ?_⟩
  · rw [eq]
    exact List.mem_append_left _ mem
  · intro other otherMem same isEarlier
    rw [eq] at otherMem
    rcases List.mem_append.mp otherMem with old | new
    · exact grows.completions other (before other old same isEarlier)
    · have upper := Nat.lt_trans isEarlier numbered
      exact absurd upper (Nat.not_lt.mpr (later other new))

/-- Polling threads that stay put keep what they saw of records that somebody holds. -/
theorem PollSound.step
    (sound : PollSound state) (order : OrderSound state) (grows : Grows state next)
    (moved : ∀ poller ∈ next.pollers, poller ∈ state.pollers ∨ PollerSound next poller)
    (flags : ∀ event ∈ held state, event ∈ held next →
      (state.records event).complete = true → (next.records event).complete = true) :
    PollSound next := by
  intro poller mem
  rcases moved poller mem with old | new
  · have before := sound poller old
    constructor
    case earlier =>
      intro stream event looks
      exact (before.earlier stream event looks).mono order grows
    case answered =>
      intro stream event asked
      have mem_held : ∀ {any : State κ}, poller ∈ any.pollers → event ∈ held any := by
        intro any there
        apply List.mem_append_right _ (List.mem_append_right _ _)
        apply List.mem_flatMap.mpr
        refine ⟨poller, there, ?_⟩
        rw [asked]
        exact List.mem_singleton_self event
      exact flags event (mem_held old) (mem_held mem) (before.answered stream event asked)
  · exact new

end ShadowSpill.Runtime.CompletionOrder
