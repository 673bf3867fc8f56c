import ShadowSpill.Library.ProbeTable
import ShadowSpill.Planner.Search.CandidateFingerprints

/-!
# The caches of a candidate search

The last schedules that were emitted stand in a ring, the outcomes of the schedules that
were simulated in a table indexed by their fingerprints.  Every entry holds what emitting
or simulating again would give, so as long as the fingerprints that are met tell apart
what they name, an answer from a cache is the answer recomputed.
-/

namespace ShadowSpill.Planner.Search.CandidateMemos

open Library.ProbeTable CandidateFingerprints
open Residency.Problem (MemoryLocation)

/-! ## What is computed -/

/-- `ShadowSpillSimulationResult`, without its buffers and its count of violations. -/
structure SimulationSummary where
  status : Status
  errorTask : Option Nat
  errorAlias : Option Nat
  errorDevice : Option Nat
  errorLocation : Option MemoryLocation
  errorTimeNs : Nat
  errorCapacityBytes : Nat
  errorUsedBytes : Nat
  errorRequestedBytes : Nat
  makespanNs : Nat
deriving DecidableEq, Repr

/-- The zeroed result. -/
def SimulationSummary.zero : SimulationSummary :=
  ⟨.ok, some 0, some 0, some 0, some .device, 0, 0, 0, 0, 0⟩

/-- `ShadowSpillCapacityViolationReason`. -/
inductive ViolationReason where
  | initialDevice
  | initialSpill
  | fetchDevice
  | evictSpill
  | taskDevice
deriving DecidableEq, Repr

/-- `ShadowSpillCapacityViolation`. -/
structure CapacityViolation where
  timeNs : Nat
  capacityBytes : Nat
  usedBytes : Nat
  requestedBytes : Nat
  task : Option Nat
  aliasId : Option Nat
  device : Option Nat
  location : MemoryLocation
  reason : ViolationReason
deriving DecidableEq, Repr

/-- What simulating a schedule gives: its result, every place where it came up short, and
its timelines. -/
structure Simulation (Intervals : Type) where
  summary : SimulationSummary
  violations : List CapacityViolation
  intervals : Intervals

/-- `shadowspill_candidate_simulate_schedule`: it fails, the admission replay refuses the
schedule at an annotated operation, or it is simulated. -/
inductive Simulated (Intervals Replay Annotation : Type) where
  | failed
  | refused (replay : Replay) (remark : Annotation)
  | admitted (simulation : Simulation Intervals)

/-- What a search computes from its problem. -/
structure Computations (Intervals Replay Annotation Digest : Type) where
  /-- `shadowspill_emit_indexed_schedule`. -/
  emit : Residency → List Nat → Nat → Bool → Option IndexedSchedule
  /-- `shadowspill_candidate_simulate_schedule`. -/
  simulate : IndexedSchedule → Simulated Intervals Replay Annotation
  /-- `shadowspill_schedule_digest`. -/
  digest : IndexedSchedule → Digest

/-- The workspace's slot for the first violation, which a simulation writes if it has
one. -/
def violationSlot (slot : Option CapacityViolation) (violations : List CapacityViolation) :
    Option CapacityViolation :=
  match violations with
  | [] => slot
  | first :: _ => some first

/-! ## The schedule memo -/

/-- `ScheduleMemoEntry`. -/
structure ScheduleMemoEntry where
  hash : Nat
  residency : Fingerprint
  pressure : Fingerprint
  rule : Nat
  fetchHeadroom : Nat
  schedule : IndexedSchedule

/-- `ScheduleMemo`: its `count` is the length. -/
structure ScheduleMemo where
  entries : List ScheduleMemoEntry
  next : Nat

def scheduleMemoCapacity : Nat := 16

/-- `find_schedule_memo`. -/
def findScheduleMemo (memo : ScheduleMemo) (residency pressure : Fingerprint)
    (rule fetchHeadroom hash : Nat) : Option ScheduleMemoEntry :=
  memo.entries.find? fun entry =>
    entry.hash == hash && entry.rule == rule && entry.fetchHeadroom == fetchHeadroom &&
      entry.residency == residency && entry.pressure == pressure

/-- `append_schedule_memo`: a full ring gives up its oldest entry. -/
def appendScheduleMemo (memo : ScheduleMemo) (entry : ScheduleMemoEntry) : ScheduleMemo :=
  if memo.entries.length < scheduleMemoCapacity then
    { memo with entries := memo.entries ++ [entry] }
  else
    { entries := memo.entries.set memo.next entry
      next := (memo.next + 1) % scheduleMemoCapacity }

/-- `shadowspill_candidate_emit_cached`, of a residency with its fingerprint. -/
def emitCached (emit : Residency → List Nat → Nat → Bool → Option IndexedSchedule)
    (memo : ScheduleMemo) (current : Fingerprint) (residency : Residency)
    (pressure : List Nat) (rule fetchHeadroom : Nat) :
    Option (IndexedSchedule × ScheduleMemo) :=
  let pressed := pressureFingerprint pressure
  let hash := scheduleMemoHash current pressed rule fetchHeadroom
  match findScheduleMemo memo current pressed rule fetchHeadroom hash with
  | some entry => some (entry.schedule, memo)
  | none =>
    match emit residency pressure rule (fetchHeadroom ≠ 0) with
    | none => none
    | some schedule =>
      some (schedule, appendScheduleMemo memo
        { hash := hash
          residency := current
          pressure := pressed
          rule := rule
          fetchHeadroom := fetchHeadroom
          schedule := schedule })

/-! ## The simulation memo -/

/-- `HashSlot`, of a slot in use. -/
structure HashSlot where
  hash : Nat
  entry : Nat
deriving DecidableEq, Repr

/-- `HashIndex`: its `capacity` is the length. -/
structure HashIndex where
  slots : List (Option HashSlot)
  count : Nat

/-- `hash_index_resize`. -/
def hashIndexResize (index : HashIndex) (capacity : Nat) : HashIndex :=
  { index with
    slots := rehash (fun capacity slot => hashSlot slot.hash capacity) capacity
      (occupied index.slots) }

/-- `hash_index_insert`: at seven tenths the index doubles. -/
def hashIndexInsert (index : HashIndex) (hash entry : Nat) : HashIndex :=
  let room :=
    if index.slots.length = 0 ∨ (index.count + 1) * 10 ≥ index.slots.length * 7 then
      hashIndexResize index (if index.slots.length = 0 then 64 else index.slots.length * 2)
    else index
  { slots := place room.slots (hashSlot hash room.slots.length) ⟨hash, entry⟩
    count := room.count + 1 }

/-- `SimulationMemoEntry`: what a simulation gave, without its timelines. -/
structure SimulationMemoEntry (Digest : Type) where
  identity : Fingerprint
  summary : SimulationSummary
  violationCount : Nat
  firstViolation : Option CapacityViolation
  digest : Option Digest

/-- `SimulationMemo`. -/
structure SimulationMemo (Digest : Type) where
  entries : List (SimulationMemoEntry Digest)
  index : HashIndex

/-- The walk of `shadowspill_candidate_simulate_cached` through the index. -/
def findSimulation {Digest : Type} (memo : SimulationMemo Digest) (identity : Fingerprint) :
    Walk HashSlot :=
  if memo.index.slots.length = 0 then .vacant 0
  else
    walk memo.index.slots
      (fun slot => slot.hash == identity.low &&
        (memo.entries[slot.entry]?).any fun entry => entry.identity == identity)
      memo.index.slots.length (hashSlot identity.low memo.index.slots.length)

/-- `append_simulation_memo`. -/
def appendSimulationMemo {Digest : Type} (memo : SimulationMemo Digest)
    (entry : SimulationMemoEntry Digest) : SimulationMemo Digest where
  entries := memo.entries ++ [entry]
  index := hashIndexInsert memo.index entry.identity.low memo.entries.length

/-- What `shadowspill_candidate_simulate_cached` hands to the search: a result, whose
timelines are there unless it comes from the memo, and the entry that holds it. -/
inductive Outcome (Intervals Replay Annotation : Type) where
  | failed
  | endless
  | refused (replay : Replay) (remark : Annotation)
  | admitted (summary : SimulationSummary) (violationCount : Nat)
      (intervals : Option Intervals) (entry : Nat)

/-- `shadowspill_candidate_simulate_cached`. -/
def simulateCached {Intervals Replay Annotation Digest : Type}
    (simulate : IndexedSchedule → Simulated Intervals Replay Annotation)
    (memo : SimulationMemo Digest) (slot : Option CapacityViolation)
    (schedule : IndexedSchedule) :
    Outcome Intervals Replay Annotation × SimulationMemo Digest × Option CapacityViolation :=
  let identity := scheduleFingerprint schedule
  let afresh :=
    match simulate schedule with
    | .failed => (.failed, memo, slot)
    | .refused replay remark => (.refused replay remark, memo, slot)
    | .admitted simulation =>
      let written := violationSlot slot simulation.violations
      (.admitted simulation.summary simulation.violations.length (some simulation.intervals)
          memo.entries.length,
        appendSimulationMemo memo
          { identity := identity
            summary := simulation.summary
            violationCount := simulation.violations.length
            firstViolation := written
            digest := none },
        written)
  match findSimulation memo identity with
  | .endless => (.endless, memo, slot)
  | .vacant _ => afresh
  | .found held =>
    match memo.entries[held.entry]? with
    | none => afresh
    | some entry =>
      (.admitted entry.summary entry.violationCount none held.entry, memo, entry.firstViolation)

/-! ## Sound caches -/

/-- Every schedule of the memo is the one emitted for a residency and a pressure that were
met. -/
def ScheduleSound (emit : Residency → List Nat → Nat → Bool → Option IndexedSchedule)
    (residencies : Set Residency) (pressures : Set (List Nat)) (memo : ScheduleMemo) : Prop :=
  ∀ entry ∈ memo.entries, ∃ residency ∈ residencies, ∃ pressure ∈ pressures,
    entry.residency = residencyFingerprint residency ∧
      entry.pressure = pressureFingerprint pressure ∧
        emit residency pressure entry.rule (entry.fetchHeadroom ≠ 0) = some entry.schedule

section Emission

variable {emit : Residency → List Nat → Nat → Bool → Option IndexedSchedule}
  {residencies larger : Set Residency} {pressures wider : Set (List Nat)}
  {memo : ScheduleMemo}

theorem scheduleSound_empty : ScheduleSound emit residencies pressures ⟨[], 0⟩ :=
  fun _ mem => absurd mem List.not_mem_nil

theorem ScheduleSound.mono (sound : ScheduleSound emit residencies pressures memo)
    (more : residencies ⊆ larger) (most : pressures ⊆ wider) :
    ScheduleSound emit larger wider memo := by
  intro entry mem
  obtain ⟨residency, met, pressure, pressed, same⟩ := sound entry mem
  exact ⟨residency, more met, pressure, most pressed, same⟩

/-- The ring holds its old entries and the new one, or fewer. -/
theorem mem_appendScheduleMemo {entry other : ScheduleMemoEntry}
    (mem : other ∈ (appendScheduleMemo memo entry).entries) :
    other = entry ∨ other ∈ memo.entries := by
  unfold appendScheduleMemo at mem
  split_ifs at mem
  · rcases List.mem_append.1 mem with old | new
    · exact Or.inr old
    · exact Or.inl (List.mem_singleton.1 new)
  · exact (List.mem_or_eq_of_mem_set mem).symm

/-- An emission from the memo is the emission again. -/
theorem emitCached_sound (sound : ScheduleSound emit residencies pressures memo)
    (apart : residencies.InjOn residencyFingerprint)
    (pressedApart : pressures.InjOn pressureFingerprint) {residency : Residency}
    {pressure : List Nat} (met : residency ∈ residencies) (pressed : pressure ∈ pressures)
    (rule fetchHeadroom : Nat) :
    (emitCached emit memo (residencyFingerprint residency) residency pressure rule
        fetchHeadroom).map Prod.fst = emit residency pressure rule (fetchHeadroom ≠ 0) ∧
      ∀ result, emitCached emit memo (residencyFingerprint residency) residency pressure rule
        fetchHeadroom = some result → ScheduleSound emit residencies pressures result.2 := by
  unfold emitCached
  simp only
  cases found : findScheduleMemo memo (residencyFingerprint residency)
      (pressureFingerprint pressure) rule fetchHeadroom
      (scheduleMemoHash (residencyFingerprint residency) (pressureFingerprint pressure) rule
        fetchHeadroom) with
  | some entry =>
      obtain ⟨earlier, earlierMet, earlierPressure, earlierPressed, same, pressedSame, held⟩ :=
        sound entry (List.mem_of_find?_eq_some found)
      have keys := List.find?_some found
      simp only [Bool.and_eq_true, beq_iff_eq] at keys
      obtain ⟨⟨⟨⟨_, rules⟩, headrooms⟩, residencyKey⟩, pressureKey⟩ := keys
      have first := apart earlierMet met (same.symm.trans residencyKey)
      have second := pressedApart earlierPressed pressed (pressedSame.symm.trans pressureKey)
      rw [first, second, rules, headrooms] at held
      refine ⟨held.symm, ?_⟩
      rintro result ⟨⟩
      exact sound
  | none =>
      cases emitted : emit residency pressure rule (fetchHeadroom ≠ 0) with
      | none => exact ⟨rfl, nofun⟩
      | some schedule =>
          refine ⟨rfl, ?_⟩
          rintro result ⟨⟩
          intro entry mem
          rcases mem_appendScheduleMemo mem with rfl | old
          · exact ⟨residency, met, pressure, pressed, rfl, rfl, emitted⟩
          · exact sound entry old

end Emission

/-- The index names entries, and is filled to less than seven tenths. -/
structure Indexed {Digest : Type} (memo : SimulationMemo Digest) : Prop where
  named : ∀ slot ∈ occupied memo.index.slots, slot.entry < memo.entries.length
  counted : memo.index.count = (occupied memo.index.slots).length
  loaded : memo.index.slots = [] ∨
    64 ≤ memo.index.slots.length ∧ memo.index.count * 10 < memo.index.slots.length * 7

/-- An entry holds what simulating a schedule gives. -/
structure Holds {Intervals Digest : Type} (simulation : Simulation Intervals)
    (digest : Digest) (entry : SimulationMemoEntry Digest) : Prop where
  summary : entry.summary = simulation.summary
  violationCount : entry.violationCount = simulation.violations.length
  firstViolation : ∀ first, simulation.violations.head? = some first →
    entry.firstViolation = some first
  digest : ∀ held, entry.digest = some held → held = digest

/-- The index is in order, and every entry holds what simulating a schedule that was met
gives. -/
structure SimulationSound {Intervals Replay Annotation Digest : Type}
    (computations : Computations Intervals Replay Annotation Digest)
    (schedules : Set IndexedSchedule) (memo : SimulationMemo Digest) : Prop where
  indexed : Indexed memo
  entries : ∀ entry ∈ memo.entries, ∃ schedule ∈ schedules,
    entry.identity = scheduleFingerprint schedule ∧ ∃ simulation,
      computations.simulate schedule = .admitted simulation ∧
        Holds simulation (computations.digest schedule) entry

section Simulations

variable {Intervals Replay Annotation Digest : Type}
  {computations : Computations Intervals Replay Annotation Digest}
  {schedules larger : Set IndexedSchedule} {memo : SimulationMemo Digest}
  {index : HashIndex}

theorem simulationSound_empty : SimulationSound computations schedules ⟨[], [], 0⟩ where
  indexed := ⟨fun _ mem => absurd mem List.not_mem_nil, rfl, Or.inl rfl⟩
  entries := fun _ mem => absurd mem List.not_mem_nil

theorem SimulationSound.mono (sound : SimulationSound computations schedules memo)
    (more : schedules ⊆ larger) : SimulationSound computations larger memo := by
  refine ⟨sound.indexed, ?_⟩
  intro entry mem
  obtain ⟨schedule, met, held⟩ := sound.entries entry mem
  exact ⟨schedule, more met, held⟩

/-- An insertion keeps the slots that were in use, and fills one more. -/
theorem hashIndexInsert_spec (counted : index.count = (occupied index.slots).length)
    (loaded : index.slots = [] ∨
      64 ≤ index.slots.length ∧ index.count * 10 < index.slots.length * 7)
    (hash entry : Nat) :
    (occupied (hashIndexInsert index hash entry).slots).Perm
        (⟨hash, entry⟩ :: occupied index.slots) ∧
      (hashIndexInsert index hash entry).count = index.count + 1 ∧
        64 ≤ (hashIndexInsert index hash entry).slots.length ∧
          (hashIndexInsert index hash entry).count * 10 <
            (hashIndexInsert index hash entry).slots.length * 7 := by
  have placed : ∀ room : HashIndex, (occupied room.slots).Perm (occupied index.slots) →
      64 ≤ room.slots.length → (index.count + 1) * 10 < room.slots.length * 7 →
        (occupied (place room.slots (hashSlot hash room.slots.length) ⟨hash, entry⟩)).Perm
            (⟨hash, entry⟩ :: occupied index.slots) ∧
          (place room.slots (hashSlot hash room.slots.length) ⟨hash, entry⟩).length =
            room.slots.length := by
    intro room same wide light
    obtain ⟨length, added⟩ := @place_spec _ room.slots (hashSlot hash room.slots.length)
      (⟨hash, entry⟩ : HashSlot) (hashSlot_lt (by omega)) (by rw [same.length_eq]; omega)
    exact ⟨added.trans (same.cons _), length⟩
  have grown : ∀ capacity, 64 ≤ capacity → (index.count + 1) * 10 < capacity * 7 →
      (occupied (hashIndexResize index capacity).slots).Perm (occupied index.slots) ∧
        (hashIndexResize index capacity).slots.length = capacity := by
    intro capacity wide light
    obtain ⟨length, same⟩ := @rehash_spec _ (fun capacity slot => hashSlot slot.hash capacity)
      capacity (occupied index.slots) (fun slot => hashSlot_lt (by omega)) (by omega)
    exact ⟨same, length⟩
  have bare : index.slots.length = 0 → index.count = 0 := by
    intro none
    rw [counted, List.length_eq_zero_iff.1 none]
    rfl
  unfold hashIndexInsert
  simp only
  split_ifs with full none
  · obtain ⟨same, length⟩ := grown 64 (by omega) (by rw [bare none]; omega)
    obtain ⟨added, kept⟩ := placed _ same (by omega) (by rw [length, bare none]; omega)
    refine ⟨added, rfl, by rw [kept, length], ?_⟩
    rw [kept, length]
    simp only [hashIndexResize, bare none]
    omega
  · obtain ⟨wide, light⟩ := loaded.resolve_left fun empty => none (by rw [empty]; rfl)
    obtain ⟨same, length⟩ := grown (index.slots.length * 2) (by omega) (by omega)
    obtain ⟨added, kept⟩ := placed _ same (by omega) (by rw [length]; omega)
    refine ⟨added, rfl, by rw [kept, length]; omega, ?_⟩
    rw [kept, length]
    simp only [hashIndexResize]
    omega
  · obtain ⟨wide, light⟩ := loaded.resolve_left fun empty => full (Or.inl (by rw [empty]; rfl))
    obtain ⟨added, kept⟩ := placed index (List.Perm.refl _) wide (by omega)
    rw [kept]
    exact ⟨added, rfl, wide, by omega⟩

/-- The index of a memo with one entry more. -/
theorem Indexed.append (indexed : Indexed memo) (entry : SimulationMemoEntry Digest) :
    Indexed (appendSimulationMemo memo entry) := by
  obtain ⟨added, count, wide, light⟩ := hashIndexInsert_spec indexed.counted indexed.loaded
    entry.identity.low memo.entries.length
  refine ⟨?_, ?_, Or.inr ⟨wide, light⟩⟩
  · intro slot mem
    have longer : (appendSimulationMemo memo entry).entries.length = memo.entries.length + 1 := by
      simp [appendSimulationMemo]
    rcases List.mem_cons.1 (added.mem_iff.1 mem) with rfl | old
    · rw [longer]
      exact Nat.lt_succ_self _
    · rw [longer]
      exact (indexed.named slot old).trans (Nat.lt_succ_self _)
  · have length := added.length_eq
    rw [List.length_cons, ← indexed.counted, ← count] at length
    exact length.symm

theorem SimulationSound.append (sound : SimulationSound computations schedules memo)
    {schedule : IndexedSchedule} (met : schedule ∈ schedules)
    {simulation : Simulation Intervals}
    (simulated : computations.simulate schedule = .admitted simulation)
    {entry : SimulationMemoEntry Digest}
    (identity : entry.identity = scheduleFingerprint schedule)
    (holds : Holds simulation (computations.digest schedule) entry) :
    SimulationSound computations schedules (appendSimulationMemo memo entry) := by
  refine ⟨sound.indexed.append entry, ?_⟩
  intro other mem
  rcases List.mem_append.1 mem with old | new
  · exact sound.entries other old
  · rw [List.mem_singleton.1 new]
    exact ⟨schedule, met, identity, simulation, simulated, holds⟩

/-- A digest that is written into the entry of its schedule. -/
theorem SimulationSound.nameEntry (sound : SimulationSound computations schedules memo)
    (apart : schedules.InjOn scheduleFingerprint) {schedule : IndexedSchedule}
    (met : schedule ∈ schedules) {index : Nat} {entry : SimulationMemoEntry Digest}
    (found : memo.entries[index]? = some entry)
    (identity : entry.identity = scheduleFingerprint schedule) :
    SimulationSound computations schedules
      { memo with
        entries := memo.entries.modify index fun held =>
          { held with digest := some (computations.digest schedule) } } := by
  refine ⟨⟨?_, sound.indexed.counted, sound.indexed.loaded⟩, ?_⟩
  · intro slot mem
    have bound := sound.indexed.named slot mem
    rwa [List.length_modify]
  · intro other mem
    obtain ⟨place, held⟩ := List.mem_iff_getElem?.1 mem
    rw [List.getElem?_modify] at held
    obtain ⟨old, here, same⟩ := Option.map_eq_some_iff.1 held
    obtain ⟨earlier, earlierMet, earlierSame, simulation, simulated, holds⟩ :=
      sound.entries old (List.mem_of_getElem? here)
    by_cases this : index = place
    · rw [if_pos this] at same
      subst this
      rw [found] at here
      cases here
      have equal := apart earlierMet met (earlierSame.symm.trans identity)
      subst same equal
      refine ⟨earlier, met, identity, simulation, simulated, holds.summary,
        holds.violationCount, holds.firstViolation, ?_⟩
      rintro _ ⟨⟩
      rfl
    · rw [if_neg this] at same
      subst same
      exact ⟨earlier, earlierMet, earlierSame, simulation, simulated, holds⟩

/-- The walk ends, and what it finds names an entry with the identity. -/
theorem findSimulation_spec (indexed : Indexed memo) (identity : Fingerprint) :
    findSimulation memo identity ≠ .endless ∧
      ∀ held, findSimulation memo identity = .found held →
        ∃ entry, memo.entries[held.entry]? = some entry ∧ entry.identity = identity := by
  unfold findSimulation
  split_ifs with bare
  · exact ⟨nofun, nofun⟩
  · obtain ⟨wide, light⟩ := indexed.loaded.resolve_left fun empty => bare (by rw [empty]; rfl)
    constructor
    · apply walk_ends (hashSlot_lt (by omega))
      have counted := indexed.counted
      omega
    · intro held found
      obtain ⟨mem, passes⟩ := walk_found found
      simp only [Bool.and_eq_true] at passes
      have bound := indexed.named held mem
      rw [List.getElem?_eq_getElem bound] at passes ⊢
      simp only [Option.any_some, beq_iff_eq] at passes
      exact ⟨_, rfl, passes.2⟩

/-- What the search is handed for a schedule that simulates so. -/
structure Answered (computations : Computations Intervals Replay Annotation Digest)
    (schedules : Set IndexedSchedule) (schedule : IndexedSchedule)
    (simulation : Simulation Intervals)
    (answer : Outcome Intervals Replay Annotation × SimulationMemo Digest ×
      Option CapacityViolation) : Prop where
  outcome : ∃ intervals entry, answer.1 = .admitted simulation.summary
      simulation.violations.length intervals entry ∧
    (intervals = none ∨ intervals = some simulation.intervals) ∧
    ∃ held, answer.2.1.entries[entry]? = some held ∧
      held.identity = scheduleFingerprint schedule
  sound : SimulationSound computations schedules answer.2.1
  slot : ∀ first, simulation.violations.head? = some first → answer.2.2 = some first

theorem violationSlot_head {slot : Option CapacityViolation}
    {violations : List CapacityViolation} {first : CapacityViolation}
    (head : violations.head? = some first) : violationSlot slot violations = some first := by
  cases violations with
  | nil => cases head
  | cons other rest =>
      cases head
      rfl

/-- An outcome from the memo is the outcome of simulating again, without its timelines. -/
theorem simulateCached_sound (sound : SimulationSound computations schedules memo)
    (apart : schedules.InjOn scheduleFingerprint) {schedule : IndexedSchedule}
    (met : schedule ∈ schedules) (slot : Option CapacityViolation) :
    match computations.simulate schedule with
    | .failed => simulateCached computations.simulate memo slot schedule = (.failed, memo, slot)
    | .refused replay remark =>
      simulateCached computations.simulate memo slot schedule =
        (.refused replay remark, memo, slot)
    | .admitted simulation =>
      Answered computations schedules schedule simulation
        (simulateCached computations.simulate memo slot schedule) := by
  obtain ⟨ends, names⟩ := findSimulation_spec sound.indexed (scheduleFingerprint schedule)
  cases result : findSimulation memo (scheduleFingerprint schedule) with
  | endless => exact absurd result ends
  | found held =>
      obtain ⟨entry, here, identity⟩ := names held result
      obtain ⟨earlier, earlierMet, same, simulation, simulated, holds⟩ :=
        sound.entries entry (List.mem_of_getElem? here)
      have equal := apart earlierMet met (same.symm.trans identity)
      subst equal
      rw [simulated]
      simp only [simulateCached, result, here]
      refine ⟨⟨none, held.entry, ?_, Or.inl rfl, entry, here, identity⟩, sound, ?_⟩
      · rw [holds.summary, holds.violationCount]
      · exact holds.firstViolation
  | vacant free =>
      cases simulated : computations.simulate schedule with
      | failed => simp only [simulateCached, result, simulated]
      | refused replay remark => simp only [simulateCached, result, simulated]
      | admitted simulation =>
          simp only [simulateCached, result, simulated]
          refine ⟨⟨_, _, rfl, Or.inr rfl, _, List.getElem?_concat_length, rfl⟩, ?_, ?_⟩
          · exact sound.append met simulated rfl
              ⟨rfl, rfl, fun first head => violationSlot_head head, nofun⟩
          · exact fun first head => violationSlot_head head

end Simulations

end ShadowSpill.Planner.Search.CandidateMemos
