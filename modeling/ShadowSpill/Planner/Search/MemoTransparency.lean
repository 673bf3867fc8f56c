import ShadowSpill.Library.Coupling
import ShadowSpill.Planner.Search.CandidateStages

/-!
# The caches of a candidate search are transparent

A worker that empties its caches before it asks them and one that keeps them, side by
side: they emit the same schedules, simulate the same outcomes, repair them alike and end
with the same answers, as long as the fingerprints tell apart what the worker met.
-/

namespace ShadowSpill.Planner.Search.MemoTransparency

open Library.Coupling CandidateFingerprints CandidateMemos CandidateStages

variable {Intervals Digest : Type}

/-! ## What a worker met -/

/-- The residencies that schedules were emitted for. -/
def residenciesMet (history : List (Event Digest)) : Set Residency :=
  {residency | ∃ pressure schedule, .emitted residency pressure schedule ∈ history}

/-- The extra pressures that schedules were emitted under. -/
def pressuresMet (history : List (Event Digest)) : Set (List Nat) :=
  {pressure | ∃ residency schedule, .emitted residency pressure schedule ∈ history}

/-- The schedules that were simulated. -/
def schedulesMet (history : List (Event Digest)) : Set IndexedSchedule :=
  {schedule | ∃ answer, .simulated schedule answer ∈ history}

/-- The fingerprints tell apart what was met. -/
structure Apart (history : List (Event Digest)) : Prop where
  residencies : (residenciesMet history).InjOn residencyFingerprint
  pressures : (pressuresMet history).InjOn pressureFingerprint
  schedules : (schedulesMet history).InjOn scheduleFingerprint

section Met

variable {event : Event Digest} {history : List (Event Digest)} {residency : Residency}
  {pressure : List Nat} {emitted : Option IndexedSchedule} {schedule : IndexedSchedule}
  {answer : Answer}

@[simp] theorem residenciesMet_emitted :
    residenciesMet (.emitted residency pressure emitted :: history) =
      insert residency (residenciesMet history) := by
  ext other
  simp only [residenciesMet, Set.mem_ofPred_eq, List.mem_cons, Event.emitted.injEq,
    Set.mem_insert_iff, exists_or]
  simp

@[simp] theorem pressuresMet_emitted :
    pressuresMet (.emitted residency pressure emitted :: history) =
      insert pressure (pressuresMet history) := by
  ext other
  simp only [pressuresMet, Set.mem_ofPred_eq, List.mem_cons, Event.emitted.injEq,
    Set.mem_insert_iff, exists_or]
  simp

@[simp] theorem schedulesMet_simulated :
    schedulesMet (.simulated schedule answer :: history) =
      insert schedule (schedulesMet history) := by
  ext other
  simp only [schedulesMet, Set.mem_ofPred_eq, List.mem_cons, Event.simulated.injEq,
    Set.mem_insert_iff, exists_or]
  simp

@[simp] theorem schedulesMet_emitted :
    schedulesMet (.emitted residency pressure emitted :: history) = schedulesMet history := by
  ext other
  simp [schedulesMet]

@[simp] theorem residenciesMet_simulated :
    residenciesMet (.simulated schedule answer :: history) = residenciesMet history := by
  ext other
  simp [residenciesMet]

@[simp] theorem pressuresMet_simulated :
    pressuresMet (.simulated schedule answer :: history) = pressuresMet history := by
  ext other
  simp [pressuresMet]

theorem residenciesMet_subset : residenciesMet history ⊆ residenciesMet (event :: history) :=
  fun _ ⟨pressure, schedule, mem⟩ => ⟨pressure, schedule, List.mem_cons_of_mem _ mem⟩

theorem pressuresMet_subset : pressuresMet history ⊆ pressuresMet (event :: history) :=
  fun _ ⟨residency, schedule, mem⟩ => ⟨residency, schedule, List.mem_cons_of_mem _ mem⟩

theorem schedulesMet_subset : schedulesMet history ⊆ schedulesMet (event :: history) :=
  fun _ ⟨answer, mem⟩ => ⟨answer, List.mem_cons_of_mem _ mem⟩

theorem Apart.tail (apart : Apart (event :: history)) : Apart history where
  residencies := apart.residencies.mono residenciesMet_subset
  pressures := apart.pressures.mono pressuresMet_subset
  schedules := apart.schedules.mono schedulesMet_subset

/-- What was emitted does not matter, only what for. -/
theorem apart_emitted (apart : Apart (.emitted residency pressure emitted :: history))
    (other : Option IndexedSchedule) :
    Apart (.emitted residency pressure other :: history) := by
  obtain ⟨residencies, pressures, schedules⟩ := apart
  rw [residenciesMet_emitted] at residencies
  rw [pressuresMet_emitted] at pressures
  rw [schedulesMet_emitted] at schedules
  constructor
  case residencies => rwa [residenciesMet_emitted]
  case pressures => rwa [pressuresMet_emitted]
  case schedules => rwa [schedulesMet_emitted]

/-- What was simulated does not matter, only of what. -/
theorem apart_simulated (apart : Apart (.simulated schedule answer :: history))
    (other : Answer) : Apart (.simulated schedule other :: history) := by
  obtain ⟨residencies, pressures, schedules⟩ := apart
  rw [residenciesMet_simulated] at residencies
  rw [pressuresMet_simulated] at pressures
  rw [schedulesMet_simulated] at schedules
  constructor
  case residencies => rwa [residenciesMet_simulated]
  case pressures => rwa [pressuresMet_simulated]
  case schedules => rwa [schedulesMet_simulated]

end Met

/-- A worker that met nothing with one fingerprint twice. -/
def Safe (worker : Worker Intervals Digest) : Prop :=
  Apart worker.history

/-! ## Sound workers -/

variable (problem : SearchProblem Intervals Digest)

/-- The caches hold what was computed for what was met. -/
structure SoundCaches (worker : Worker Intervals Digest) : Prop where
  scheduleMemo : ScheduleSound problem.emit (residenciesMet worker.history)
    (pressuresMet worker.history) worker.caches.scheduleMemo
  simulationMemo : SimulationSound problem.toComputations (schedulesMet worker.history)
    worker.caches.simulationMemo

/-- Two workers with the same candidate and the same history, and sound caches each. -/
structure Alike (left right : Worker Intervals Digest) : Prop where
  search : left.search = right.search
  history : left.history = right.history
  leftSound : SoundCaches problem left
  rightSound : SoundCaches problem right

/-- What the simulation of the schedule in hand left in the workspace. -/
structure Backed (simulation : Simulation Intervals) (worker : Worker Intervals Digest) :
    Prop where
  simulated : problem.simulate worker.search.schedule = .admitted simulation
  met : worker.search.schedule ∈ schedulesMet worker.history
  intervals : worker.caches.intervals = none ∨
    worker.caches.intervals = some simulation.intervals
  firstViolation : ∀ first, simulation.violations.head? = some first →
    worker.caches.firstViolation = some first
  entry : ∃ entry, entryInHand worker = some entry ∧
    entry.identity = scheduleFingerprint worker.search.schedule

/-- The candidate holds the result of simulating its schedule. -/
structure Holding (simulation : Simulation Intervals) (search : CandidateSearch Digest) :
    Prop where
  summary : search.simulation = simulation.summary
  violations : search.capacityViolationCount = simulation.violations.length

/-- Two workers alike, each with the result of simulating the schedule in hand. -/
structure InHand (known : CandidateSearch Digest → Prop) (left right : Worker Intervals Digest) :
    Prop extends Alike problem left right where
  backed : ∃ simulation, Backed problem simulation left ∧ Backed problem simulation right ∧
    Holding simulation left.search
  known : known left.search

/-- Alike after a stage, and if the round goes on, with a simulation in hand. -/
def Settling (stage : Stage) (left right : Worker Intervals Digest) : Prop :=
  Alike problem left right ∧
    (stage = .next → InHand problem (fun _ => True) left right)

section Frame

variable {problem} {left right worker : Worker Intervals Digest}
  {known : CandidateSearch Digest → Prop}

theorem SoundCaches.withSearch (sound : SoundCaches problem worker)
    (search : CandidateSearch Digest) : SoundCaches problem { worker with search := search } :=
  ⟨sound.scheduleMemo, sound.simulationMemo⟩

/-- The same step of both candidates. -/
theorem Alike.withSearch (alike : Alike problem left right) (search : CandidateSearch Digest) :
    Alike problem { left with search := search } { right with search := search } :=
  ⟨rfl, alike.history, alike.leftSound.withSearch search, alike.rightSound.withSearch search⟩

/-- A candidate that keeps its schedule and the result of simulating it. -/
structure Keeps (search other : CandidateSearch Digest) : Prop where
  schedule : other.schedule = search.schedule
  simulation : other.simulation = search.simulation
  violations : other.capacityViolationCount = search.capacityViolationCount

theorem Backed.withSearch {simulation : Simulation Intervals}
    (backed : Backed problem simulation worker) {search : CandidateSearch Digest}
    (same : search.schedule = worker.search.schedule) :
    Backed problem simulation { worker with search := search } := by
  obtain ⟨entry, held, identity⟩ := backed.entry
  refine ⟨?_, ?_, backed.intervals, backed.firstViolation, entry, held, ?_⟩
  · show problem.simulate search.schedule = _
    rw [same]
    exact backed.simulated
  · show search.schedule ∈ _
    rw [same]
    exact backed.met
  · show _ = scheduleFingerprint search.schedule
    rw [same]
    exact identity

theorem InHand.withSearch {after : CandidateSearch Digest → Prop}
    (hand : InHand problem known left right) {search : CandidateSearch Digest}
    (keeps : Keeps left.search search) (holds : after search) :
    InHand problem after { left with search := search } { right with search := search } := by
  obtain ⟨simulation, first, second, summary, violations⟩ := hand.backed
  refine ⟨hand.toAlike.withSearch search, ⟨simulation, first.withSearch keeps.schedule,
    second.withSearch (by rw [keeps.schedule, hand.search]), ?_, ?_⟩, holds⟩
  · exact keeps.simulation.trans summary
  · exact keeps.violations.trans violations

end Frame

/-! ## Steps of a candidate -/

section Steps

variable {problem} {α : Type} {step : CandidateSearch Digest → α × CandidateSearch Digest}

/-- A step of a candidate, taken by both workers. -/
theorem onSearch_coupled {before : Worker Intervals Digest → Worker Intervals Digest → Prop}
    {after : α → Worker Intervals Digest → Worker Intervals Digest → Prop}
    (same : ∀ left right, before left right → left.search = right.search)
    (rule : ∀ left right, before left right →
      after (step left.search).1 { left with search := (step left.search).2 }
        { right with search := (step left.search).2 }) :
    Coupled Safe before (onSearch step) (onSearch step) after := by
  refine ⟨fun _ safe => safe, ?_⟩
  intro left right related _
  have search := same left right related
  refine ⟨by simp only [onSearch, search], ?_⟩
  have follows := rule left right related
  simp only [onSearch]
  rw [← search]
  exact follows

theorem onSearch_alike :
    Coupled Safe (Alike problem) (onSearch step) (onSearch step) fun _ => Alike problem :=
  onSearch_coupled (fun _ _ alike => alike.search) fun _ _ alike => alike.withSearch _

/-- A step that keeps the simulation in hand. -/
theorem onSearch_inHand {known : CandidateSearch Digest → Prop}
    (after : α → CandidateSearch Digest → Prop)
    (keeps : ∀ search, known search →
      Keeps search (step search).2 ∧ after (step search).1 (step search).2) :
    Coupled Safe (InHand problem known) (onSearch step) (onSearch step)
      fun result => InHand problem (after result) :=
  onSearch_coupled (fun _ _ hand => hand.search) fun left _ hand =>
    hand.withSearch (keeps left.search hand.known).1 (keeps left.search hand.known).2

theorem onSearch_keeps {known : CandidateSearch Digest → Prop}
    (keeps : ∀ search, known search → Keeps search (step search).2 ∧ known (step search).2) :
    Coupled Safe (InHand problem known) (onSearch step) (onSearch step)
      fun _ => InHand problem known :=
  onSearch_inHand (fun _ => known) keeps

/-- A stage that keeps the simulation in hand if the round goes on. -/
theorem onSearch_settling {known : CandidateSearch Digest → Prop}
    {stage : CandidateSearch Digest → Stage × CandidateSearch Digest}
    (keeps : ∀ search, (stage search).1 = .next → Keeps search (stage search).2) :
    Coupled Safe (InHand problem known) (onSearch stage) (onSearch stage)
      (Settling problem) := by
  refine onSearch_coupled (fun _ _ hand => hand.search) fun left right hand => ?_
  exact ⟨hand.toAlike.withSearch _, fun goes =>
    hand.withSearch (keeps left.search goes) trivial⟩

/-- The next stage is taken by both workers or by none. -/
theorem andThen_coupled {before : Worker Intervals Digest → Worker Intervals Digest → Prop}
    {after : Stage → Worker Intervals Digest → Worker Intervals Digest → Prop}
    (between : Stage → Worker Intervals Digest → Worker Intervals Digest → Prop)
    {first firstFresh second secondFresh : StateM (Worker Intervals Digest) Stage}
    (earlier : Coupled Safe before firstFresh first between)
    (later : Coupled Safe (between .next) secondFresh second after)
    (ends : ∀ stage left right, stage ≠ .next → between stage left right →
      after stage left right) :
    Coupled Safe before (andThen firstFresh secondFresh) (andThen first second) after := by
  refine Coupled.bind earlier fun stage => ?_
  refine Coupled.ite (fun goes => ?_) fun stops => ?_
  · rw [goes]
    exact later
  · refine (Coupled.pure stage).weaken (fun _ _ related => related) ?_
    rintro result left right ⟨rfl, related⟩
    exact ends result left right stops related

end Steps

/-! ## Answers of the caches -/

section Answers

variable {problem} {worker : Worker Intervals Digest}

/-- The schedule that is emitted for the residency in hand. -/
def emittedAgain (problem : SearchProblem Intervals Digest) (search : CandidateSearch Digest) :
    Option IndexedSchedule :=
  problem.emit search.resident.residency search.extraPressure search.rule
    ((residencyOptions search.strategy).fetchHeadroom.toNat ≠ 0)

/-- The event of an emission. -/
def emissionEvent (problem : SearchProblem Intervals Digest) (search : CandidateSearch Digest) :
    Event Digest :=
  .emitted search.resident.residency search.extraPressure (emittedAgain problem search)

/-- An emission gives the schedule that is emitted again, and keeps the caches sound. -/
theorem emission_spec (fresh : Bool) (sound : SoundCaches problem worker)
    (safe : Apart (emissionEvent problem worker.search :: worker.history)) :
    ∃ caches,
      emission problem fresh worker =
        (emittedAgain problem worker.search,
          { worker with
            history := emissionEvent problem worker.search :: worker.history
            caches := caches }) ∧
        SoundCaches problem (emission problem fresh worker).2 := by
  have kept : ScheduleSound problem.emit
      (residenciesMet (emissionEvent problem worker.search :: worker.history))
      (pressuresMet (emissionEvent problem worker.search :: worker.history))
      (if fresh then ⟨[], 0⟩ else worker.caches.scheduleMemo) := by
    cases fresh with
    | true => exact scheduleSound_empty
    | false => exact sound.scheduleMemo.mono residenciesMet_subset pressuresMet_subset
  have simulations : SimulationSound problem.toComputations
      (schedulesMet (emissionEvent problem worker.search :: worker.history))
      worker.caches.simulationMemo := sound.simulationMemo.mono schedulesMet_subset
  have met : worker.search.resident.residency ∈
      residenciesMet (emissionEvent problem worker.search :: worker.history) := by
    simp [emissionEvent]
  have pressed : worker.search.extraPressure ∈
      pressuresMet (emissionEvent problem worker.search :: worker.history) := by
    simp [emissionEvent]
  obtain ⟨same, later⟩ := emitCached_sound kept safe.residencies safe.pressures met pressed
    worker.search.rule (residencyOptions worker.search.strategy).fetchHeadroom.toNat
  rw [← worker.search.resident.named] at same later
  change _ = emittedAgain problem worker.search at same
  cases emitted : emitCached problem.emit (if fresh then ⟨[], 0⟩ else worker.caches.scheduleMemo)
      worker.search.resident.fingerprint worker.search.resident.residency
      worker.search.extraPressure worker.search.rule
      (residencyOptions worker.search.strategy).fetchHeadroom.toNat with
  | none =>
      rw [emitted] at same
      simp only [emissionEvent] at simulations ⊢
      rw [← same] at simulations ⊢
      refine ⟨worker.caches, ?_, ?_⟩
      · simp only [emission, emitted]
        rfl
      · simp only [emission, emitted]
        exact ⟨sound.scheduleMemo.mono residenciesMet_subset pressuresMet_subset, simulations⟩
  | some result =>
      obtain ⟨schedule, memo⟩ := result
      have soundLater := later _ emitted
      rw [emitted] at same
      simp only [emissionEvent] at simulations soundLater ⊢
      rw [← same] at simulations soundLater ⊢
      refine ⟨{ worker.caches with scheduleMemo := memo }, ?_, ?_⟩
      · simp only [emission, emitted]
        rfl
      · simp only [emission, emitted]
        exact ⟨soundLater, simulations⟩

/-- What simulating again gives, as the search sees it. -/
def simulatedAgain (problem : SearchProblem Intervals Digest) (search : CandidateSearch Digest) :
    Answer :=
  match problem.simulate search.schedule with
  | .failed => .failed
  | .refused replay remark => .refused replay remark
  | .admitted simulation => .admitted simulation.summary simulation.violations.length

/-- The event of a simulation. -/
def simulationEvent (problem : SearchProblem Intervals Digest) (search : CandidateSearch Digest) :
    Event Digest :=
  .simulated search.schedule (simulatedAgain problem search)

/-- A simulation gives the outcome of simulating again, keeps the caches sound, and leaves
what a plan in hand needs. -/
theorem simulation_spec (fresh : Bool) (sound : SoundCaches problem worker)
    (safe : Apart (simulationEvent problem worker.search :: worker.history)) :
    ∃ caches,
      CandidateStages.simulation problem fresh worker =
        (simulatedAgain problem worker.search,
          { worker with
            history := simulationEvent problem worker.search :: worker.history
            caches := caches }) ∧
        SoundCaches problem (CandidateStages.simulation problem fresh worker).2 ∧
          ∀ simulation, problem.simulate worker.search.schedule = .admitted simulation →
            Backed problem simulation (CandidateStages.simulation problem fresh worker).2 := by
  have emissions : ScheduleSound problem.emit
      (residenciesMet (simulationEvent problem worker.search :: worker.history))
      (pressuresMet (simulationEvent problem worker.search :: worker.history))
      worker.caches.scheduleMemo :=
    sound.scheduleMemo.mono residenciesMet_subset pressuresMet_subset
  have kept : SimulationSound problem.toComputations
      (schedulesMet (simulationEvent problem worker.search :: worker.history))
      (if fresh then ⟨[], [], 0⟩ else worker.caches.simulationMemo) := by
    cases fresh with
    | true => exact simulationSound_empty
    | false => exact sound.simulationMemo.mono schedulesMet_subset
  have met : worker.search.schedule ∈
      schedulesMet (simulationEvent problem worker.search :: worker.history) := by
    simp [simulationEvent]
  have answered := simulateCached_sound kept safe.schedules met worker.caches.firstViolation
  cases simulated : problem.simulate worker.search.schedule with
  | failed =>
      rw [simulated] at answered
      simp only [CandidateStages.simulation, simulationEvent, simulatedAgain, simulated, answered,
        shown] at kept emissions ⊢
      exact ⟨_, rfl, ⟨emissions, kept⟩, nofun⟩
  | refused replay remark =>
      rw [simulated] at answered
      simp only [CandidateStages.simulation, simulationEvent, simulatedAgain, simulated, answered,
        shown] at kept emissions ⊢
      exact ⟨_, rfl, ⟨emissions, kept⟩, nofun⟩
  | admitted simulation =>
      rw [simulated] at answered
      obtain ⟨⟨intervals, entry, outcome, timelines, held, here, identity⟩, later, slot⟩ := answered
      simp only [CandidateStages.simulation, simulationEvent, simulatedAgain, simulated, outcome,
        shown, leftBehind] at later met emissions ⊢
      refine ⟨_, rfl, ⟨emissions, later⟩, ?_⟩
      rintro other ⟨⟩
      exact ⟨simulated, met, timelines, slot, held, here, identity⟩

/-- The digest in an entry is the digest of the schedule in hand. -/
theorem digest_spec {simulation : Simulation Intervals} (sound : SoundCaches problem worker)
    (safe : Safe worker) (backed : Backed problem simulation worker) {digest : Digest}
    (held : (entryInHand worker).bind (·.digest) = some digest) :
    digest = problem.digest worker.search.schedule := by
  obtain ⟨entry, here, identity⟩ := backed.entry
  rw [here, Option.bind_some] at held
  unfold entryInHand at here
  obtain ⟨index, _, found⟩ := Option.bind_eq_some_iff.1 here
  obtain ⟨schedule, met, same, _, _, holds⟩ :=
    sound.simulationMemo.entries entry (List.mem_of_getElem? found)
  rw [← safe.schedules met backed.met (same.symm.trans identity)]
  exact holds.digest digest held

/-- The name of the schedule in hand is its digest, whether it is in its entry or not, and
naming keeps what a plan in hand needs. -/
theorem scheduleName_spec {simulation : Simulation Intervals}
    (sound : SoundCaches problem worker) (safe : Safe worker)
    (backed : Backed problem simulation worker) :
    ∃ caches,
      scheduleName problem worker =
        (problem.digest worker.search.schedule, { worker with caches := caches }) ∧
        SoundCaches problem (scheduleName problem worker).2 ∧
          Backed problem simulation (scheduleName problem worker).2 := by
  cases held : (entryInHand worker).bind (·.digest) with
  | some digest =>
      have same := digest_spec sound safe backed held
      subst same
      simp only [scheduleName, held]
      exact ⟨worker.caches, rfl, sound, backed⟩
  | none =>
      obtain ⟨entry, here, identity⟩ := backed.entry
      have place := here
      unfold entryInHand at place
      obtain ⟨index, chosen, found⟩ := Option.bind_eq_some_iff.1 place
      have named := sound.simulationMemo.nameEntry safe.schedules backed.met found identity
      simp only [scheduleName, held, nameEntry, chosen]
      refine ⟨_, rfl, ⟨sound.scheduleMemo, named⟩, ?_⟩
      refine ⟨backed.simulated, backed.met, backed.intervals, backed.firstViolation,
        { entry with digest := some (problem.digest worker.search.schedule) }, ?_, identity⟩
      simp only [entryInHand, Option.bind_some, List.getElem?_modify, found]
      simp

/-- The timelines of the plan in hand are those of simulating it again. -/
theorem timelines_spec {simulation : Simulation Intervals} (sound : SoundCaches problem worker)
    (backed : Backed problem simulation worker) (holding : Holding simulation worker.search) :
    ∃ caches,
      timelines problem worker =
        (some (some simulation.intervals), { worker with caches := caches }) ∧
        SoundCaches problem (timelines problem worker).2 ∧
          Backed problem simulation (timelines problem worker).2 := by
  rcases backed.intervals with dropped | held
  · have same : { worker.search with
        simulation := simulation.summary
        capacityViolationCount := simulation.violations.length } = worker.search := by
      rw [← holding.summary, ← holding.violations]
    simp only [timelines, dropped, backed.simulated, same]
    refine ⟨_, rfl, ⟨sound.scheduleMemo, sound.simulationMemo⟩, backed.simulated, backed.met,
      Or.inr rfl, ?_, backed.entry⟩
    intro first head
    exact violationSlot_head head
  · simp only [timelines, held]
    exact ⟨worker.caches, rfl, sound, backed⟩

end Answers

/-! ## Asked side by side -/

section Asked

variable {problem} {known : CandidateSearch Digest → Prop}

theorem emission_coupled (fresh other : Bool) :
    Coupled Safe (Alike problem) (emission problem fresh) (emission problem other)
      fun _ => Alike problem := by
  have remembered : ∀ (fresh : Bool) (worker : Worker Intervals Digest), ∃ emitted,
      (emission problem fresh worker).2.history =
        .emitted worker.search.resident.residency worker.search.extraPressure emitted ::
          worker.history := by
    intro fresh worker
    simp only [emission]
    split
    · exact ⟨_, rfl⟩
    · exact ⟨_, rfl⟩
  constructor
  · intro worker safe
    obtain ⟨emitted, history⟩ := remembered fresh worker
    unfold Safe at safe
    rw [history] at safe
    exact safe.tail
  · intro left right alike safe
    obtain ⟨emitted, history⟩ := remembered fresh left
    unfold Safe at safe
    rw [history] at safe
    have apart := apart_emitted safe (emittedAgain problem left.search)
    obtain ⟨leftCaches, leftSame, leftSound⟩ := emission_spec fresh alike.leftSound apart
    obtain ⟨rightCaches, rightSame, rightSound⟩ := emission_spec other alike.rightSound
      (by rw [← alike.search, ← alike.history]; exact apart)
    rw [leftSame] at leftSound ⊢
    rw [rightSame] at rightSound ⊢
    refine ⟨by rw [alike.search], alike.search, ?_, leftSound, rightSound⟩
    simp only [alike.search, alike.history]

theorem simulation_coupled (fresh other : Bool) :
    Coupled Safe (Alike problem) (CandidateStages.simulation problem fresh)
      (CandidateStages.simulation problem other) fun answer left right =>
        Alike problem left right ∧ ∀ summary count, answer = .admitted summary count →
          ∃ simulation, Backed problem simulation left ∧ Backed problem simulation right ∧
            summary = simulation.summary ∧ count = simulation.violations.length := by
  constructor
  · intro worker safe
    exact safe.tail
  · intro left right alike safe
    have apart := apart_simulated safe (simulatedAgain problem left.search)
    obtain ⟨leftCaches, leftSame, leftSound, leftBacked⟩ :=
      simulation_spec fresh alike.leftSound apart
    obtain ⟨rightCaches, rightSame, rightSound, rightBacked⟩ :=
      simulation_spec other alike.rightSound
        (by rw [← alike.search, ← alike.history]; exact apart)
    rw [leftSame] at leftSound leftBacked ⊢
    rw [rightSame] at rightSound rightBacked ⊢
    refine ⟨by rw [alike.search], ⟨alike.search, ?_, leftSound, rightSound⟩, ?_⟩
    · simp only [alike.search, alike.history]
    · intro summary count admitted
      cases simulated : problem.simulate left.search.schedule with
      | failed => simp [simulatedAgain, simulated] at admitted
      | refused replay remark => simp [simulatedAgain, simulated] at admitted
      | admitted simulation =>
          simp only [simulatedAgain, simulated, Answer.admitted.injEq] at admitted
          exact ⟨simulation, leftBacked simulation simulated,
            rightBacked simulation (by rw [← alike.search]; exact simulated),
            admitted.1.symm, admitted.2.symm⟩

theorem InHand.safe {left right : Worker Intervals Digest}
    (hand : InHand problem known left right) (safe : Safe left) : Safe right := by
  unfold Safe at safe ⊢
  rwa [← hand.history]

theorem identityInHand_coupled :
    Coupled Safe (InHand problem known) identityInHand identityInHand
      fun _ => InHand problem known := by
  refine ⟨fun _ safe => safe, ?_⟩
  intro left right hand _
  obtain ⟨simulation, first, second, _⟩ := hand.backed
  obtain ⟨leftEntry, leftHere, leftIdentity⟩ := first.entry
  obtain ⟨rightEntry, rightHere, rightIdentity⟩ := second.entry
  refine ⟨?_, hand⟩
  simp only [identityInHand, leftHere, rightHere, Option.map_some, Option.getD_some,
    leftIdentity, rightIdentity, hand.search]

theorem scheduleName_coupled :
    Coupled Safe (InHand problem known) (scheduleName problem) (scheduleName problem)
      fun _ => InHand problem known := by
  constructor
  · intro worker safe
    have history : (scheduleName problem worker).2.history = worker.history := by
      simp only [scheduleName]
      split <;> rfl
    unfold Safe at safe ⊢
    rwa [← history]
  · intro left right hand safe
    have history : (scheduleName problem left).2.history = left.history := by
      simp only [scheduleName]
      split <;> rfl
    unfold Safe at safe
    rw [history] at safe
    obtain ⟨simulation, first, second, holding⟩ := hand.backed
    obtain ⟨leftCaches, leftSame, leftSound, leftBacked⟩ :=
      scheduleName_spec hand.leftSound safe first
    obtain ⟨rightCaches, rightSame, rightSound, rightBacked⟩ :=
      scheduleName_spec hand.rightSound (hand.safe safe) second
    rw [leftSame] at leftSound leftBacked ⊢
    rw [rightSame] at rightSound rightBacked ⊢
    exact ⟨by rw [hand.search], ⟨hand.search, hand.history, leftSound, rightSound⟩,
      ⟨simulation, leftBacked, rightBacked, holding⟩, hand.known⟩

theorem timelines_coupled :
    Coupled Safe (InHand problem known) (timelines problem) (timelines problem)
      fun _ => InHand problem known := by
  constructor
  · intro worker safe
    have history : (timelines problem worker).2.history = worker.history := by
      simp only [timelines]
      split
      · rfl
      · split <;> rfl
    unfold Safe at safe ⊢
    rwa [← history]
  · intro left right hand _
    obtain ⟨simulation, first, second, holding⟩ := hand.backed
    obtain ⟨leftCaches, leftSame, leftSound, leftBacked⟩ :=
      timelines_spec hand.leftSound first holding
    obtain ⟨rightCaches, rightSame, rightSound, rightBacked⟩ :=
      timelines_spec hand.rightSound second (by rw [← hand.search]; exact holding)
    rw [leftSame] at leftSound leftBacked ⊢
    rw [rightSame] at rightSound rightBacked ⊢
    exact ⟨rfl, ⟨hand.search, hand.history, leftSound, rightSound⟩,
      ⟨simulation, leftBacked, rightBacked, holding⟩, hand.known⟩

/-- The first violation is only read of a simulation that has one. -/
theorem firstViolation_coupled :
    Coupled Safe (InHand problem fun search => 0 < search.capacityViolationCount)
      firstViolation firstViolation
      fun _ => InHand problem fun search => 0 < search.capacityViolationCount := by
  refine ⟨fun _ safe => safe, ?_⟩
  intro left right hand _
  obtain ⟨simulation, first, second, holding⟩ := hand.backed
  have some := hand.known
  rw [holding.violations] at some
  have head := List.head?_eq_some_head (List.ne_nil_of_length_pos some)
  exact ⟨(first.firstViolation _ head).trans (second.firstViolation _ head).symm, hand⟩

theorem offerPlaced_coupled (digest : Digest) :
    Coupled Safe (InHand problem known) (offerPlaced digest) (offerPlaced digest)
      fun _ => InHand problem known := by
  refine ⟨fun _ safe => safe.tail, ?_⟩
  intro left right hand _
  obtain ⟨simulation, first, second, holding⟩ := hand.backed
  refine ⟨rfl, ⟨hand.search, ?_, ?_, ?_⟩, ⟨simulation, ?_, ?_, holding⟩, hand.known⟩
  · simp only [offerPlaced, hand.search, hand.history]
  · exact ⟨hand.leftSound.scheduleMemo.mono residenciesMet_subset pressuresMet_subset,
      hand.leftSound.simulationMemo.mono schedulesMet_subset⟩
  · exact ⟨hand.rightSound.scheduleMemo.mono residenciesMet_subset pressuresMet_subset,
      hand.rightSound.simulationMemo.mono schedulesMet_subset⟩
  · exact ⟨first.simulated, schedulesMet_subset first.met, first.intervals,
      first.firstViolation, first.entry⟩
  · exact ⟨second.simulated, schedulesMet_subset second.met, second.intervals,
      second.firstViolation, second.entry⟩

theorem refuses_coupled (options : SearchOptions) (bound : List (Event Digest) → Nat) :
    Coupled Safe (InHand problem known) (refuses options bound) (refuses options bound)
      fun _ => InHand problem known := by
  refine ⟨fun _ safe => safe, ?_⟩
  intro left right hand _
  refine ⟨?_, hand⟩
  simp only [refuses, hand.search, hand.history]

end Asked

/-! ## Stages side by side -/

section Keeping

variable {search : CandidateSearch Digest} (options : SearchOptions)

theorem reduceRepairedCandidate_keeps {verdict : Reduced} {other : CandidateSearch Digest}
    (result : reduceRepairedCandidate problem search = (verdict, other)) :
    Keeps search other := by
  unfold reduceRepairedCandidate at result
  simp only at result
  split_ifs at result <;> cases result <;> exact ⟨rfl, rfl, rfl⟩

theorem searchRefineCapacity_keeps {requiredBytes poolBytes : Nat}
    (goes : (searchRefineCapacity problem options requiredBytes poolBytes search).1 = .next) :
    Keeps search (searchRefineCapacity problem options requiredBytes poolBytes search).2 := by
  unfold searchRefineCapacity at goes ⊢
  simp only at goes ⊢
  split at goes
  · cases goes
  · rename_i result
    have kept := reduceRepairedCandidate_keeps problem result
    exact ⟨kept.schedule, kept.simulation, kept.violations⟩

theorem refineAgain_keeps (goes : (refineAgain problem options search).1 = .next) :
    Keeps search (refineAgain problem options search).2 := by
  unfold refineAgain at goes ⊢
  split_ifs at goes ⊢
  · exact searchRefineCapacity_keeps problem options goes
  · exact ⟨rfl, rfl, rfl⟩

theorem moveOrRefine_keeps {intervals : Option Intervals} {requiredBytes : Nat}
    (goes : (moveOrRefine problem options intervals requiredBytes search).1 = .next) :
    Keeps search (moveOrRefine problem options intervals requiredBytes search).2 := by
  unfold moveOrRefine at goes ⊢
  simp only at goes ⊢
  split at goes
  · have kept := searchRefineCapacity_keeps problem options goes
    exact ⟨kept.schedule, kept.simulation, kept.violations⟩
  · cases goes

theorem answerOrStop_ends : (answerOrStop problem search).1 ≠ .next := by
  unfold answerOrStop answerWithKept
  split_ifs <;> nofun

theorem recordAdmissionMove_ends {failure : Replay} {remark : Annotation}
    {schedule : IndexedSchedule} {constraint : Schedule.Fetches.FetchTriggerConstraint}
    {count : Repairs → Repairs} :
    (recordAdmissionMove problem search failure remark schedule constraint count).1 ≠
      .next := by
  unfold recordAdmissionMove
  simp only
  split
  · exact answerOrStop_ends problem
  · nofun

theorem pressAdmission_ends {failure : Replay} {remark : Annotation} :
    (pressAdmission problem search failure remark).1 ≠ .next := by
  unfold pressAdmission
  split
  · nofun
  · simp only
    split
    · nofun
    · exact answerOrStop_ends problem
    · nofun

/-- A refusal is never passed on. -/
theorem searchRepairAdmission_next
    (goes : (searchRepairAdmission problem options search).1 = .next) :
    search.refusal = none ∧ (searchRepairAdmission problem options search).2 = search := by
  unfold searchRepairAdmission at goes ⊢
  split at goes
  · exact ⟨‹_›, rfl⟩
  · exfalso
    split_ifs at goes
    · split at goes
      · cases goes
      · exact recordAdmissionMove_ends problem goes
      · split at goes
        · cases goes
        · exact recordAdmissionMove_ends problem goes
        · exact pressAdmission_ends problem goes
    · exact answerOrStop_ends problem goes

end Keeping

section Stages

variable {problem} (options : SearchOptions) (bound : List (Event Digest) → Nat)

theorem searchEmit_coupled (fresh other : Bool) :
    Coupled Safe (Alike problem) (searchEmit problem fresh) (searchEmit problem other)
      fun _ => Alike problem :=
  Coupled.bind (emission_coupled fresh other) fun _ => onSearch_alike

/-- After a simulation: alike, and with a simulation in hand if it was not refused. -/
def Simulated (problem : SearchProblem Intervals Digest) (stage : Stage)
    (left right : Worker Intervals Digest) : Prop :=
  Alike problem left right ∧
    (stage = .next → left.search.refusal = none → InHand problem (fun _ => True) left right)

theorem searchSimulate_coupled (fresh other : Bool) :
    Coupled Safe (Alike problem) (searchSimulate problem fresh) (searchSimulate problem other)
      (Simulated problem) := by
  refine Coupled.bind (simulation_coupled fresh other) fun answer => ?_
  refine onSearch_coupled (fun _ _ related => related.1.search) ?_
  rintro left right ⟨alike, backed⟩
  refine ⟨alike.withSearch _, ?_⟩
  intro goes accepted
  cases answer with
  | failed => cases goes
  | endless => cases goes
  | refused replay remark => cases accepted
  | admitted summary count =>
      obtain ⟨simulation, first, second, summarySame, countSame⟩ := backed summary count rfl
      refine ⟨alike.withSearch _, ⟨simulation, first.withSearch rfl,
        second.withSearch ?_, summarySame, countSame⟩, trivial⟩
      show left.search.schedule = right.search.schedule
      rw [alike.search]

theorem searchRepairAdmission_coupled :
    Coupled Safe (Simulated problem .next) (onSearch (searchRepairAdmission problem options))
      (onSearch (searchRepairAdmission problem options)) (Settling problem) := by
  refine onSearch_coupled (fun _ _ related => related.1.search) ?_
  rintro left right ⟨alike, backed⟩
  refine ⟨alike.withSearch _, fun goes => ?_⟩
  obtain ⟨accepted, same⟩ := searchRepairAdmission_next problem options goes
  exact (backed rfl accepted).withSearch (by rw [same]; exact ⟨rfl, rfl, rfl⟩) trivial

/-- Nothing changes, and the round goes on. -/
theorem pure_settling {known : CandidateSearch Digest → Prop} (stage : Stage) :
    Coupled Safe (InHand problem known) (pure stage) (pure stage) (Settling problem) := by
  refine (Coupled.pure stage).weaken (fun _ _ hand => hand) ?_
  rintro result left right ⟨-, hand⟩
  exact ⟨hand.toAlike, fun _ => ⟨hand.toAlike, hand.backed, trivial⟩⟩

theorem searchKeepPlaced_coupled :
    Coupled Safe (InHand problem fun _ => True) (searchKeepPlaced problem)
      (searchKeepPlaced problem) (Settling problem) := by
  unfold searchKeepPlaced
  refine Coupled.bind scheduleName_coupled fun digest => ?_
  refine Coupled.bind (offerPlaced_coupled digest) fun _ => ?_
  refine Coupled.bind (onSearch_keeps fun search _ => ?_) fun kept => ?_
  · unfold keepIfBest
    simp only
    split_ifs <;> exact ⟨⟨rfl, rfl, rfl⟩, trivial⟩
  · refine Coupled.ite (fun _ => ?_) fun _ => pure_settling _
    refine Coupled.bind scheduleName_coupled fun name => ?_
    exact Coupled.bind (onSearch_keeps fun search _ => ⟨⟨rfl, rfl, rfl⟩, trivial⟩)
      fun _ => pure_settling _

theorem placeNew_coupled (identity : Fingerprint) :
    Coupled Safe (InHand problem fun _ => True) (placeNew problem options identity)
      (placeNew problem options identity) (Settling problem) := by
  unfold placeNew
  refine Coupled.bind (onSearch_keeps fun search _ => ⟨⟨rfl, rfl, rfl⟩, trivial⟩) fun _ => ?_
  refine Coupled.bind timelines_coupled fun replayed => ?_
  cases replayed with
  | none => exact pure_settling _
  | some intervals =>
      refine Coupled.bind (onSearch_keeps fun search _ => ⟨⟨rfl, rfl, rfl⟩, trivial⟩)
        fun measured => ?_
      cases measured with
      | none => exact pure_settling _
      | some requiredBytes =>
          refine Coupled.ite (fun _ => searchKeepPlaced_coupled) fun _ => ?_
          exact onSearch_settling fun search goes => moveOrRefine_keeps problem options goes

theorem searchPlace_coupled :
    Coupled Safe (InHand problem fun _ => True) (searchPlace problem options bound)
      (searchPlace problem options bound) (Settling problem) := by
  unfold searchPlace
  refine Coupled.bind (refuses_coupled options bound) fun refused => ?_
  refine Coupled.ite (fun _ => pure_settling _) fun _ => ?_
  refine Coupled.bind identityInHand_coupled fun identity => ?_
  refine Coupled.bind (onSearch_keeps fun search _ => ⟨⟨rfl, rfl, rfl⟩, trivial⟩)
    fun placed => ?_
  refine Coupled.ite (fun _ => ?_) fun _ => placeNew_coupled options identity
  exact onSearch_settling fun search goes => refineAgain_keeps problem options goes

/-- The candidates stay alike, whatever else is known. -/
theorem onSearch_ends {α : Type} {known : CandidateSearch Digest → Prop}
    {step : CandidateSearch Digest → α × CandidateSearch Digest} :
    Coupled Safe (InHand problem known) (onSearch step) (onSearch step)
      fun _ => Alike problem :=
  onSearch_alike.weaken (fun _ _ hand => hand.toAlike) fun _ _ _ alike => alike

theorem settleStalling_coupled :
    Coupled Safe (InHand problem fun search => 0 < search.capacityViolationCount)
      (settleStalling problem) (settleStalling problem) fun _ => Alike problem := by
  unfold settleStalling
  refine Coupled.bind (onSearch_keeps fun search stalls => ?_) fun kept => ?_
  · unfold keepStalling
    split_ifs <;> exact ⟨⟨rfl, rfl, rfl⟩, stalls⟩
  · refine Coupled.ite (fun _ => ?_) fun _ => ?_
    · refine Coupled.bind scheduleName_coupled fun name => ?_
      refine Coupled.bind (onSearch_keeps fun search stalls => ⟨⟨rfl, rfl, rfl⟩, stalls⟩)
        fun _ => ?_
      exact Coupled.bind firstViolation_coupled fun _ => onSearch_ends
    · exact Coupled.bind firstViolation_coupled fun _ => onSearch_ends

theorem searchSettle_coupled :
    Coupled Safe (InHand problem fun _ => True) (searchSettle problem options)
      (searchSettle problem options) fun _ => Alike problem := by
  unfold searchSettle
  refine Coupled.bind (onSearch_inHand
    (fun stalls search => stalls = true → 0 < search.capacityViolationCount)
    fun search _ => ⟨⟨rfl, rfl, rfl⟩, fun stalls => (of_decide_eq_true stalls).1⟩)
    fun stalls => ?_
  refine Coupled.ite (fun holds => ?_) fun _ => ?_
  · exact settleStalling_coupled.weaken (fun left right hand =>
      ⟨hand.toAlike, hand.backed, hand.known holds⟩) fun _ _ _ alike => alike
  · refine Coupled.bind (onSearch_keeps fun search stalls => ⟨⟨rfl, rfl, rfl⟩, stalls⟩)
      fun answers => ?_
    refine Coupled.ite (fun _ => ?_) fun _ => onSearch_ends
    exact Coupled.bind scheduleName_coupled fun digest => onSearch_ends

theorem settleSimulated_coupled :
    Coupled Safe (Settling problem .next) (settleSimulated problem options bound)
      (settleSimulated problem options bound) fun _ => Alike problem := by
  unfold settleSimulated
  have hand : ∀ left right : Worker Intervals Digest, Settling problem .next left right →
      InHand problem (fun _ => True) left right := fun left right settling => settling.2 rfl
  refine Coupled.bind ((onSearch_keeps fun search _ => ⟨⟨rfl, rfl, rfl⟩, trivial⟩).weaken hand
    fun _ _ _ related => related) fun status => ?_
  refine Coupled.ite (fun _ => ?_) fun _ => ?_
  · refine andThen_coupled (Settling problem)
      (onSearch_settling fun search _ => ⟨rfl, rfl, rfl⟩) ?_ fun _ _ _ _ related => related.1
    refine andThen_coupled (Settling problem)
      ((searchPlace_coupled options bound).weaken hand fun _ _ _ related => related) ?_
      fun _ _ _ _ related => related.1
    exact (searchSettle_coupled options).weaken hand fun _ _ _ alike => alike
  · exact (pure_settling _).weaken (fun _ _ hand => hand) fun _ _ _ settling => settling.1

/-- One round keeps the workers alike. -/
theorem searchRound_coupled (fresh other : Bool) :
    Coupled Safe (Alike problem) (searchRound problem options bound fresh)
      (searchRound problem options bound other) fun _ => Alike problem := by
  unfold searchRound
  refine Coupled.bind onSearch_alike fun emits => ?_
  refine andThen_coupled (fun _ => Alike problem) ?_ ?_ fun _ _ _ _ alike => alike
  · refine Coupled.ite (fun _ => searchEmit_coupled fresh other) fun _ => ?_
    exact (Coupled.pure _).weaken (fun _ _ alike => alike) fun _ _ _ related => related.2
  refine andThen_coupled (Simulated problem) (searchSimulate_coupled fresh other) ?_
    fun _ _ _ _ related => related.1
  refine andThen_coupled (Settling problem) (searchRepairAdmission_coupled options) ?_
    fun _ _ _ _ related => related.1
  exact andThen_coupled (fun _ => Alike problem) (settleSimulated_coupled options bound)
    onSearch_alike fun _ _ _ _ alike => alike

/-- So do any number of rounds. -/
theorem searchRounds_coupled (fresh other : Bool) (count : Nat) :
    Coupled Safe (Alike problem) (searchRounds problem options bound fresh count)
      (searchRounds problem options bound other count) fun _ => Alike problem := by
  induction count with
  | zero =>
      exact (Coupled.pure _).weaken (fun _ _ alike => alike) fun _ _ _ related => related.2
  | succ count inductionHypothesis =>
      refine Coupled.bind (searchRound_coupled options bound fresh other) fun stage => ?_
      refine Coupled.ite (fun _ => inductionHypothesis) fun _ => ?_
      exact (Coupled.pure _).weaken (fun _ _ alike => alike) fun _ _ _ related => related.2

theorem workerEvaluateTask_coupled (fresh other : Bool) (task : Task) :
    Coupled Safe (Alike problem) (workerEvaluateTask problem options bound fresh task)
      (workerEvaluateTask problem options bound other task) fun _ => Alike problem :=
  andThen_coupled (fun _ => Alike problem) onSearch_alike
    (searchRounds_coupled options bound fresh other task.rounds) fun _ _ _ _ alike => alike

/-- Whatever candidates a worker takes up, one after another. -/
theorem workerTasks_coupled (fresh other : Bool) (tasks : List Task) :
    Coupled Safe (Alike problem) (workerTasks problem options bound fresh tasks)
      (workerTasks problem options bound other tasks) fun _ => Alike problem := by
  induction tasks with
  | nil =>
      exact (Coupled.pure _).weaken (fun _ _ alike => alike) fun _ _ _ related => related.2
  | cons task rest inductionHypothesis =>
      refine Coupled.bind (workerEvaluateTask_coupled options bound fresh other task)
        fun stage => ?_
      refine Coupled.bind onSearch_alike fun held => ?_
      refine Coupled.ite (fun _ => ?_) fun _ => ?_
      · refine Coupled.bind inductionHypothesis fun reports => ?_
        exact (Coupled.pure _).weaken (fun _ _ alike => alike) fun _ _ _ related => related.2
      · exact (Coupled.pure _).weaken (fun _ _ alike => alike) fun _ _ _ related => related.2

end Stages

/-! ## Transparency -/

/-- A worker on a problem it has not worked on: its caches are empty. -/
def newWorker (search : CandidateSearch Digest) (violation : Option CapacityViolation) :
    Worker Intervals Digest :=
  ⟨search, [], ⟨⟨[], 0⟩, ⟨[], [], 0⟩, violation, none, none⟩⟩

/-- Whatever candidates a worker takes up, with its caches it goes through the same
schedules, the same outcomes and the same repairs as without them, and each candidate ends
with the same answer. -/
theorem caches_transparent (problem : SearchProblem Intervals Digest) (options : SearchOptions)
    (bound : List (Event Digest) → Nat) (search : CandidateSearch Digest)
    (violation : Option CapacityViolation) (tasks : List Task)
    (apart : Apart
      (workerTasks problem options bound true tasks (newWorker search violation)).2.history) :
    (workerTasks problem options bound false tasks (newWorker search violation)).1 =
        (workerTasks problem options bound true tasks (newWorker search violation)).1 ∧
      (workerTasks problem options bound false tasks (newWorker search violation)).2.search =
          (workerTasks problem options bound true tasks (newWorker search violation)).2.search ∧
        (workerTasks problem options bound false tasks (newWorker search violation)).2.history =
          (workerTasks problem options bound true tasks
            (newWorker search violation)).2.history := by
  have sound : SoundCaches problem (newWorker search violation) :=
    ⟨scheduleSound_empty, simulationSound_empty⟩
  obtain ⟨reports, alike⟩ := (workerTasks_coupled options bound true false tasks).alike
    (newWorker search violation) (newWorker search violation) ⟨rfl, rfl, sound, sound⟩ apart
  exact ⟨reports.symm, alike.search.symm, alike.history.symm⟩

/-! ## A candidate that is taken up twice -/

/-- A problem of one task: without extra pressure its one fetch finds no room, with it
nothing is fetched. -/
def stallingProblem : SearchProblem Unit Nat where
  emit := fun _ pressure _ _ =>
    some ⟨if pressure.getD 1 0 = 0 then [⟨0, 7, .fetch⟩] else [], [], []⟩
  simulate := fun schedule =>
    .admitted
      ⟨{ SimulationSummary.zero with makespanNs := 5 },
        if schedule.actions = [] then []
        else [⟨3, 10, 8, 4, some 0, some 7, some 0, .device, .fetchDevice⟩], ()⟩
  digest := fun schedule => schedule.actions.length + 1
  taskCount := 1
  deviceCount := 1
  boundaryCount := 2
  boundaryCapacity := fun _ _ => 10
  admissionPoolBytes := 10
  placement := none
  constrain := fun _ schedule => .met schedule
  reduce := fun _ _ => ⟨.ok, [[(0, 1)]], 0, 0, 0, 0⟩
  pressureAt := fun _ _ _ _ => some 0
  delayFetch := fun _ _ => .unmoved
  advanceFetchToRelease := fun _ _ => .unmoved
  placePlan := fun _ _ => none
  layoutDelay := fun _ _ _ => none
  blankDigest := 0

/-- A candidate that holds nothing yet. -/
def blankSearch : CandidateSearch Nat where
  strategy := .headroomStall
  rule := 0
  schedule := ⟨[], [], []⟩
  best := ⟨[], [], []⟩
  resident := NamedResidency.of []
  baseResident := NamedResidency.of []
  extraPressure := []
  planCapacityGivenBack := 0
  lastPressurePosition := 0
  fetchConstraints := []
  needEmit := false
  planCapacityBytes := 0
  bestMakespanNs := 0
  bestDigest := 0
  placedMakespanNs := 0
  placedIdentity := ⟨0, 0⟩
  placedRequiredBytes := 0
  lastErrorTask := none
  lastErrorTimeNs := 0
  failureRepeats := 0
  layoutMoved := false
  layoutRequiredBeforeMove := 0
  simulation := .zero
  capacityViolationCount := 0
  simulationStatus := .ok
  refusal := none
  improves := false
  diagnostic := initializeDiagnostic 0 .headroomStall 0

/-- The same candidate, taken up twice on the stalling problem. -/
def stallingRun (fresh : Bool) :
    List (Stage × CandidateSearch Nat) × Worker Unit Nat :=
  workerTasks stallingProblem ⟨true, 4, 0⟩ (fun _ => 0) fresh
    [⟨.headroomStall, 0, 3⟩, ⟨.headroomStall, 0, 3⟩] (newWorker blankSearch none)

/-- What the runs meet. -/
def stallingEvent : Event Nat → Bool
  | .emitted residency pressure _ =>
    residency = [[(0, 1)]] ∧ (pressure = [0, 0] ∨ pressure = [0, 2])
  | .simulated schedule _ =>
    schedule = ⟨[⟨0, 7, .fetch⟩], [], []⟩ ∨ schedule = ⟨[], [], []⟩
  | .offered _ => true

/-- The fingerprints of two things are apart. -/
theorem injOn_pair {α : Type} {fingerprint : α → Fingerprint} {met : Set α} {first second : α}
    (only : ∀ value ∈ met, value = first ∨ value = second)
    (apart : fingerprint first ≠ fingerprint second) : met.InjOn fingerprint := by
  intro one oneMet other otherMet same
  rcases only one oneMet with rfl | rfl
  · rcases only other otherMet with rfl | rfl
    · rfl
    · exact absurd same apart
  · rcases only other otherMet with rfl | rfl
    · exact absurd same.symm apart
    · rfl

theorem stallingRun_apart : Apart (stallingRun true).2.history := by
  have met : (stallingRun true).2.history.all stallingEvent = true := by decide +kernel
  rw [List.all_eq_true] at met
  constructor
  case residencies =>
    rintro one ⟨pressure, schedule, mem⟩ other ⟨otherPressure, otherSchedule, otherMem⟩ -
    have first := met _ mem
    have second := met _ otherMem
    simp only [stallingEvent, decide_eq_true_eq] at first second
    exact first.1.trans second.1.symm
  case pressures =>
    refine @injOn_pair _ _ _ [0, 0] [0, 2] ?_ (by decide +kernel)
    rintro pressure ⟨residency, schedule, mem⟩
    have here := met _ mem
    simp only [stallingEvent, decide_eq_true_eq] at here
    exact here.2
  case schedules =>
    refine @injOn_pair _ _ _ ⟨[⟨0, 7, .fetch⟩], [], []⟩ ⟨[], [], []⟩ ?_ (by decide +kernel)
    rintro schedule ⟨answer, mem⟩
    have here := met _ mem
    simp only [stallingEvent, decide_eq_true_eq] at here
    exact here

/-- Both candidates end with an answer, and the caches saved two of the four emissions and
two of the four simulations. -/
theorem caches_transparent_stalling :
    (stallingRun false).1 = (stallingRun true).1 ∧
      (stallingRun true).1.map Prod.fst = [.done 1, .done 1] ∧
        (stallingRun false).2.history.length = 8 ∧
          (stallingRun false).2.caches.scheduleMemo.entries.length = 2 ∧
            (stallingRun false).2.caches.simulationMemo.entries.length = 2 := by
  refine ⟨?_, by decide +kernel, by decide +kernel, by decide +kernel, by decide +kernel⟩
  have apart := stallingRun_apart
  unfold stallingRun at apart ⊢
  exact (caches_transparent stallingProblem ⟨true, 4, 0⟩ (fun _ => 0) blankSearch none
    [⟨.headroomStall, 0, 3⟩, ⟨.headroomStall, 0, 3⟩] apart).1

end ShadowSpill.Planner.Search.MemoTransparency
