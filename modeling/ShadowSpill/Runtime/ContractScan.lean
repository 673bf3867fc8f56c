import ShadowSpill.Runtime.ContractMatching

/-!
# The look ahead of the matcher

The marks of the scope against the allocations left out, and what the look ahead, the
settling of candidates and the end of the task compute from them: the first fit of a
request when there is one, no change to the marks when there is none.
-/

namespace ShadowSpill.Runtime.ContractScan

open AllocationContracts ContractLanguage ContractMatching

variable {ahead rest skipped passed : List ContractStep}
variable {omitted onward candidates : List Nat} {states : List AllocationState}
variable {geometry : Geometry} {record : Record} {scope : Scope}

/-! ## Marks -/

/-- The allocations that carry a mark. -/
def Marked (states : List AllocationState) (mark : AllocationState) (ordinals : List Nat) :
    Prop :=
  ∀ ordinal, states[ordinal]? = some mark ↔ ordinal ∈ ordinals

/-- Setting the mark of one more allocation. -/
theorem Marked.set_same
    {mark : AllocationState} {ordinals : List Nat} {ordinal : Nat}
    (marked : Marked states mark ordinals) (inside : ordinal < states.length) :
    Marked (states.set ordinal mark) mark (ordinal :: ordinals) := by
  intro other
  rw [List.getElem?_set, List.mem_cons]
  by_cases same : ordinal = other
  · subst same
    simp [inside]
  · rw [if_neg same, marked other]
    constructor
    · exact Or.inr
    · rintro (rfl | mem)
      · exact absurd rfl same
      · exact mem

/-- Setting another mark on an allocation that does not carry this one. -/
theorem Marked.set_other
    {mark other : AllocationState} {ordinals : List Nat} {ordinal : Nat}
    (marked : Marked states mark ordinals) (different : other ≠ mark)
    (unmarked : ordinal ∉ ordinals) :
    Marked (states.set ordinal other) mark ordinals := by
  intro index
  rw [List.getElem?_set]
  by_cases same : ordinal = index
  · subst same
    rw [if_pos rfl]
    constructor
    · intro held
      split at held
      · exact absurd (Option.some.inj held) different
      · cases held
    · intro mem
      exact absurd mem unmarked
  · rw [if_neg same]
    exact marked index

/-- The frees the scope steps over are the frees of allocations left out. -/
theorem isOmittedFree_eq
    (marked : Marked states .omitted omitted) :
    isOmittedFree states = omittedFree omitted := by
  funext step
  unfold isOmittedFree omittedFree
  congr 1
  rw [decide_eq_decide]
  exact marked step.ordinal

/-- Dropping as many elements as a predicate takes. -/
theorem drop_takeWhile_length {α : Type} (p : α → Bool) (list : List α) :
    list.drop (list.takeWhile p).length = list.dropWhile p := by
  induction list with
  | nil => rfl
  | cons head list inductionHypothesis =>
      rw [List.takeWhile_cons, List.dropWhile_cons]
      split
      · exact inductionHypothesis
      · rfl

theorem skipOmittedFrees_ahead
    (marked : Marked scope.allocationStates .omitted omitted) :
    record.steps.drop (skipOmittedFrees record scope).operationIndex =
      dropFrees omitted (record.steps.drop scope.operationIndex) := by
  unfold skipOmittedFrees dropFrees
  rw [isOmittedFree_eq marked, ← List.drop_drop, drop_takeWhile_length]

/-! ## Looking ahead -/

/-- No step onward: the head neither can be left out nor has the geometry. -/
def Stuck (omitted : List Nat) (ahead : List ContractStep) (geometry : Geometry) : Prop :=
  ∀ step rest, ahead = step :: rest →
    leaveOut omitted step = none ∧
      (step.operation = .allocate → step.geometry ≠ geometry)

/-- What a look ahead passed, and where it ended. -/
structure Looked
    (omitted candidates : List Nat) (ahead : List ContractStep) (geometry : Geometry)
    (states : List AllocationState) (scan : Scan)
    (skipped rest : List ContractStep) (onward : List Nat) : Prop where
  split : ahead = skipped ++ rest
  passed : scan.passed = skipped.length
  leaves : leaveAllOut (candidates ++ omitted) skipped = some (onward ++ omitted)
  isOmitted : Marked scan.states .omitted omitted
  isCandidate : Marked scan.states .omitCandidate onward
  length : scan.states.length = states.length
  first : ∀ passed ∈ skipped,
    passed.operation = .allocate → passed.geometry ≠ geometry
  among : ∀ ordinal ∈ onward, ordinal ∈ candidates ∨
    ∃ passed ∈ skipped, passed.operation = .allocate ∧ passed.ordinal = ordinal
  matched : ∀ step, scan.matched = some step →
    ∃ after, rest = step :: after ∧ step.operation = .allocate ∧ step.geometry = geometry
  stuck : scan.matched = none → Stuck (onward ++ omitted) rest geometry

/-- A look ahead from where a step was passed is a look ahead from the step. -/
theorem Looked.cons
    {step : ContractStep} {inner : List AllocationState} {middle : List Nat} {scan : Scan}
    (looked : Looked omitted middle ahead geometry inner scan skipped rest onward)
    (left : leaveOut (candidates ++ omitted) step = some (middle ++ omitted))
    (same_length : inner.length = states.length)
    (other : step.operation = .allocate → step.geometry ≠ geometry)
    (among : ∀ ordinal ∈ middle, ordinal ∈ candidates ∨
      (step.operation = .allocate ∧ step.ordinal = ordinal)) :
    Looked omitted candidates (step :: ahead) geometry states
      { scan with passed := scan.passed + 1 } (step :: skipped) rest onward := by
  constructor
  case split => rw [looked.split, List.cons_append]
  case passed =>
    show scan.passed + 1 = skipped.length + 1
    rw [looked.passed]
  case leaves => exact leaveAllOut_cons_some_iff.mpr ⟨_, left, looked.leaves⟩
  case isOmitted => exact looked.isOmitted
  case isCandidate => exact looked.isCandidate
  case length => exact looked.length.trans same_length
  case first =>
    intro passed mem
    rcases List.mem_cons.mp mem with rfl | mem
    · exact other
    · exact looked.first passed mem
  case among =>
    intro ordinal mem
    rcases looked.among ordinal mem with earlier | ⟨passed, mem, allocates, same⟩
    · rcases among ordinal earlier with first | ⟨allocates, same⟩
      · exact Or.inl first
      · exact Or.inr ⟨step, List.mem_cons_self, allocates, same⟩
    · exact Or.inr ⟨passed, List.mem_cons_of_mem step mem, allocates, same⟩
  case matched => exact looked.matched
  case stuck => exact looked.stuck

/-- A look ahead that ends where it starts. -/
theorem Looked.here
    {matched : Option ContractStep}
    (isOmitted : Marked states .omitted omitted)
    (isCandidate : Marked states .omitCandidate candidates)
    (found : ∀ step, matched = some step →
      ∃ after, ahead = step :: after ∧ step.operation = .allocate ∧ step.geometry = geometry)
    (stuck : matched = none → Stuck (candidates ++ omitted) ahead geometry) :
    Looked omitted candidates ahead geometry states ⟨matched, 0, states⟩ [] ahead
      candidates where
  split := rfl
  passed := rfl
  leaves := rfl
  isOmitted := isOmitted
  isCandidate := isCandidate
  length := rfl
  first := fun passed mem => by cases mem
  among := fun _ mem => Or.inl mem
  matched := found
  stuck := stuck

/-- The look ahead passes exactly what can be left out, up to the first step of the
geometry. -/
theorem scanSteps_looked {next : Nat}
    (numbered : Numbered next ahead)
    (inside : ∀ step ∈ ahead, step.ordinal < states.length)
    (bounded : ∀ ordinal ∈ candidates ++ omitted, ordinal < next)
    (isOmitted : Marked states .omitted omitted)
    (isCandidate : Marked states .omitCandidate candidates) :
    ∃ skipped rest onward, Looked omitted candidates ahead geometry states
      (scanSteps geometry ahead states) skipped rest onward := by
  induction ahead generalizing next states candidates with
  | nil =>
      refine ⟨[], [], candidates, Looked.here isOmitted isCandidate ?_ ?_⟩
      · intro step impossible
        cases impossible
      · intro _ step rest impossible
        cases impossible
  | cons step ahead inductionHypothesis =>
      obtain ⟨later, increases, laterNumbered, ofAllocate, ofFree⟩ := numbered.tail
      have inside_rest : ∀ step ∈ ahead, step.ordinal < states.length :=
        fun other mem => inside other (List.mem_cons_of_mem step mem)
      have bounded_later : ∀ ordinal ∈ candidates ++ omitted, ordinal < later :=
        fun ordinal mem => (bounded ordinal mem).trans_le increases
      unfold scanSteps
      cases operation : step.operation with
      | allocate =>
          obtain ⟨fresh, later_eq⟩ := ofAllocate operation
          have unknown : step.ordinal ∉ candidates ++ omitted := by
            intro mem
            exact absurd (bounded _ mem) (by rw [fresh]; exact Nat.lt_irrefl next)
          dsimp only
          split
          case isTrue same =>
            refine ⟨[], step :: ahead, candidates, Looked.here isOmitted isCandidate ?_ ?_⟩
            · intro found equal
              cases equal
              exact ⟨ahead, rfl, operation, same⟩
            · intro impossible
              cases impossible
          case isFalse different =>
            split
            case isTrue required =>
              refine ⟨[], step :: ahead, candidates,
                Looked.here isOmitted isCandidate ?_ ?_⟩
              · intro found impossible
                cases impossible
              · intro _ head tail equal
                cases equal
                exact ⟨by simp [leaveOut, operation, required], fun _ => different⟩
            case isFalse optional =>
              have inside_set : ∀ other ∈ ahead, other.ordinal <
                  (states.set step.ordinal AllocationState.omitCandidate).length := by
                intro other mem
                rw [List.length_set]
                exact inside_rest other mem
              have bounded_cons :
                  ∀ ordinal ∈ (step.ordinal :: candidates) ++ omitted, ordinal < later := by
                intro ordinal mem
                rcases List.mem_cons.mp mem with rfl | mem
                · rw [fresh, later_eq]
                  exact Nat.lt_succ_self next
                · exact bounded_later ordinal mem
              have isOmitted_set :=
                @Marked.set_other states .omitted .omitCandidate omitted step.ordinal
                  isOmitted (by decide)
                  (fun mem => unknown (List.mem_append_right candidates mem))
              have isCandidate_set :=
                isCandidate.set_same (inside step List.mem_cons_self)
              obtain ⟨skipped, rest, onward, looked⟩ :=
                inductionHypothesis laterNumbered inside_set bounded_cons
                  isOmitted_set isCandidate_set
              refine ⟨step :: skipped, rest, onward, looked.cons ?_ ?_ ?_ ?_⟩
              · simp [leaveOut, operation, optional]
              · exact List.length_set
              · exact fun _ => different
              · intro ordinal mem
                rcases List.mem_cons.mp mem with rfl | mem
                · exact Or.inr ⟨operation, rfl⟩
                · exact Or.inl mem
      | free =>
          have known : (states[step.ordinal]? = some .omitted ∨
              states[step.ordinal]? = some .omitCandidate) ↔
                step.ordinal ∈ candidates ++ omitted := by
            rw [isOmitted step.ordinal, isCandidate step.ordinal, List.mem_append]
            exact Or.comm
          dsimp only
          split
          case isTrue passes =>
            obtain ⟨skipped, rest, onward, looked⟩ :=
              inductionHypothesis laterNumbered inside_rest bounded_later
                isOmitted isCandidate
            refine ⟨step :: skipped, rest, onward, looked.cons ?_ rfl ?_ ?_⟩
            · have mem := known.mp passes
              simp only [leaveOut, operation, if_pos mem]
            · intro impossible
              rw [operation] at impossible
              cases impossible
            · exact fun _ mem => Or.inl mem
          case isFalse stays =>
            refine ⟨[], step :: ahead, candidates,
              Looked.here isOmitted isCandidate ?_ ?_⟩
            · intro found impossible
              cases impossible
            · intro _ head tail equal
              cases equal
              have missing := mt known.mpr stays
              constructor
              · simp only [leaveOut, operation, if_neg missing]
              · intro impossible
                rw [operation] at impossible
                cases impossible

/-- A look ahead that ends stuck proves that nothing of the geometry can be reached. -/
theorem unreachable_of_stuck
    (leaves : leaveAllOut omitted skipped = some onward)
    (first : ∀ passed ∈ skipped,
      passed.operation = .allocate → passed.geometry ≠ geometry)
    (stuck : Stuck onward rest geometry) :
    ¬ Reachable omitted (skipped ++ rest) geometry := by
  induction skipped generalizing omitted with
  | nil =>
      cases leaves
      rintro ⟨others, step, after, split, allocates, fits, leaves⟩
      cases others with
      | nil => exact (stuck step after split).2 allocates fits
      | cons head others =>
          have none := (stuck head _ split).1
          simp [leaveAllOut, none] at leaves
  | cons head skipped inductionHypothesis =>
      obtain ⟨middle, left, leaves⟩ := leaveAllOut_cons_some_iff.mp leaves
      rintro ⟨others, step, after, split, allocates, fits, reached⟩
      cases others with
      | nil =>
          obtain ⟨rfl, -⟩ := List.cons.inj split
          exact first head List.mem_cons_self allocates fits
      | cons other others =>
          obtain ⟨rfl, remains⟩ := List.cons.inj split
          simp only [leaveAllOut, left] at reached
          apply inductionHypothesis leaves
          · exact fun passed mem => first passed (List.mem_cons_of_mem head mem)
          · exact ⟨others, step, after, remains, allocates, fits, reached⟩

/-! ## Settling the candidates -/

/-- Exactly the candidates among the passed steps get the verdict. -/
theorem settleCandidates_getElem
    {verdict : AllocationState} (passed : List ContractStep) (states : List AllocationState)
    (ordinal : Nat) :
    (settleCandidates verdict passed states)[ordinal]? =
      if states[ordinal]? = some .omitCandidate ∧
          (∃ step ∈ passed, step.operation = .allocate ∧ step.ordinal = ordinal) then
        some verdict
      else states[ordinal]? := by
  induction passed generalizing states with
  | nil => simp [settleCandidates]
  | cons step passed inductionHypothesis =>
      unfold settleCandidates
      rw [inductionHypothesis]
      by_cases here : step.operation = .allocate ∧
          states[step.ordinal]? = some .omitCandidate
      · simp only [if_pos here]
        obtain ⟨allocates, candidate⟩ := here
        have inside := (List.getElem?_eq_some_iff.mp candidate).1
        by_cases same : step.ordinal = ordinal
        · subst same
          rw [List.getElem?_set_self inside, ite_self, if_pos]
          exact ⟨candidate, step, List.mem_cons_self, allocates, rfl⟩
        · simp [List.getElem?_set_ne same, same]
      · simp only [if_neg here]
        by_cases same : step.operation = .allocate ∧ step.ordinal = ordinal
        · obtain ⟨allocates, rfl⟩ := same
          have other : ¬ states[step.ordinal]? = some .omitCandidate :=
            fun candidate => here ⟨allocates, candidate⟩
          simp [other]
        · simp [same]

theorem settleCandidates_length
    {verdict : AllocationState} (passed : List ContractStep)
    (states : List AllocationState) :
    (settleCandidates verdict passed states).length = states.length := by
  induction passed generalizing states with
  | nil => rfl
  | cons step passed inductionHypothesis =>
      unfold settleCandidates
      rw [inductionHypothesis]
      split
      · exact List.length_set
      · rfl

/-- When every candidate was passed, none is left. -/
theorem settled_candidates
    {verdict : AllocationState} (different : verdict ≠ .omitCandidate)
    (isCandidate : Marked states .omitCandidate onward)
    (among : ∀ ordinal ∈ onward,
      ∃ step ∈ passed, step.operation = .allocate ∧ step.ordinal = ordinal) :
    Marked (settleCandidates verdict passed states) .omitCandidate [] := by
  intro ordinal
  rw [settleCandidates_getElem]
  simp only [List.not_mem_nil, iff_false]
  split
  case isTrue => exact fun equal => different (Option.some.inj equal)
  case isFalse stays =>
    intro candidate
    exact stays ⟨candidate, among ordinal ((isCandidate ordinal).mp candidate)⟩

/-- Candidates that are left out join the allocations left out. -/
theorem settled_omitted
    (isOmitted : Marked states .omitted omitted)
    (isCandidate : Marked states .omitCandidate onward)
    (among : ∀ ordinal ∈ onward,
      ∃ step ∈ passed, step.operation = .allocate ∧ step.ordinal = ordinal) :
    Marked (settleCandidates .omitted passed states) .omitted (onward ++ omitted) := by
  intro ordinal
  rw [settleCandidates_getElem, List.mem_append]
  by_cases candidate : states[ordinal]? = some .omitCandidate
  · have mem := (isCandidate ordinal).mp candidate
    simp [candidate, among ordinal mem, mem]
  · have missing : ordinal ∉ onward := mt (isCandidate ordinal).mpr candidate
    rw [if_neg (fun both => candidate both.1), isOmitted ordinal]
    simp [missing]

/-- Candidates that are taken back leave the allocations left out as they were. -/
theorem settled_unseen
    (isOmitted : Marked states .omitted omitted) :
    Marked (settleCandidates .unseen passed states) .omitted omitted := by
  intro ordinal
  rw [settleCandidates_getElem, ← isOmitted ordinal]
  split
  case isTrue both => simp [both.1]
  case isFalse => rfl

/-! ## Classifying a request -/

/-- Classifying a request leaves the counters alone. -/
theorem classifyAllocation_frame (record : Record) (scope : Scope) (geometry : Geometry) :
    ∃ operationIndex pendingOrdinal pendingIsScratch allocationStates,
      classifyAllocation record scope geometry = { scope with
        operationIndex := operationIndex
        pendingOrdinal := pendingOrdinal
        pendingIsScratch := pendingIsScratch
        pendingAllocation := true
        allocationStates := allocationStates } := by
  unfold classifyAllocation
  dsimp only
  split
  · exact ⟨_, _, _, _, rfl⟩
  · exact ⟨_, _, _, _, rfl⟩

/-- What classifying a request leaves of the contract. -/
structure Classified
    (record : Record) (scope : Scope) (classified : Scope)
    (ahead : List ContractStep) (omitted : List Nat) : Prop where
  ahead : record.steps.drop classified.operationIndex = ahead
  length : classified.allocationStates.length = scope.allocationStates.length
  isOmitted : Marked classified.allocationStates .omitted omitted
  isCandidate : Marked classified.allocationStates .omitCandidate []

/-- A request takes the first fit ahead, or is scratch when nothing fits. -/
theorem classifyAllocation_spec {next : Nat}
    (ahead_eq : dropFrees omitted (record.steps.drop scope.operationIndex) = ahead)
    (numbered : Numbered next ahead)
    (inside : ∀ step ∈ ahead, step.ordinal < scope.allocationStates.length)
    (bounded : ∀ ordinal ∈ omitted, ordinal < next)
    (isOmitted : Marked scope.allocationStates .omitted omitted)
    (isCandidate : Marked scope.allocationStates .omitCandidate []) :
    (∃ skipped step rest onward,
      FirstFit omitted ahead geometry skipped step rest onward ∧
      (classifyAllocation record scope geometry).pendingIsScratch = false ∧
      (classifyAllocation record scope geometry).pendingOrdinal = some step.ordinal ∧
      Classified record scope (classifyAllocation record scope geometry)
        (step :: rest) onward) ∨
    (¬ Reachable omitted ahead geometry ∧
      (classifyAllocation record scope geometry).pendingIsScratch = true ∧
      (classifyAllocation record scope geometry).pendingOrdinal = none ∧
      Classified record scope (classifyAllocation record scope geometry) ahead omitted) := by
  have skippedAhead :
      record.steps.drop (skipOmittedFrees record scope).operationIndex = ahead := by
    rw [skipOmittedFrees_ahead isOmitted, ahead_eq]
  obtain ⟨skipped, rest, onward, looked⟩ :=
    @scanSteps_looked ahead omitted [] scope.allocationStates geometry next
      numbered inside bounded isOmitted isCandidate
  have passed_eq : ahead.take (scanSteps geometry ahead scope.allocationStates).passed =
      skipped := by
    rw [looked.passed, looked.split, List.take_left']
    rfl
  have among : ∀ ordinal ∈ onward,
      ∃ step ∈ skipped, step.operation = .allocate ∧ step.ordinal = ordinal := by
    intro ordinal mem
    rcases looked.among ordinal mem with impossible | found
    · cases impossible
    · exact found
  have states_eq : (skipOmittedFrees record scope).allocationStates =
      scope.allocationStates := rfl
  unfold classifyAllocation
  simp only [skippedAhead, states_eq, passed_eq]
  cases matched : (scanSteps geometry ahead scope.allocationStates).matched with
  | some step =>
      obtain ⟨after, rest_eq, allocates, fits⟩ := looked.matched step matched
      refine Or.inl ⟨skipped, step, after, onward ++ omitted, ?_, rfl, rfl, ?_⟩
      · exact ⟨by rw [looked.split, rest_eq], allocates, fits, looked.first, looked.leaves⟩
      · constructor
        case ahead =>
          show record.steps.drop ((skipOmittedFrees record scope).operationIndex +
            (scanSteps geometry ahead scope.allocationStates).passed) = step :: after
          rw [← List.drop_drop, skippedAhead, looked.passed, looked.split, rest_eq,
            List.drop_left']
          rfl
        case length =>
          show (settleCandidates _ _ _).length = _
          rw [settleCandidates_length, looked.length]
        case isOmitted => exact settled_omitted looked.isOmitted looked.isCandidate among
        case isCandidate =>
          exact settled_candidates (by decide) looked.isCandidate among
  | none =>
      refine Or.inr ⟨?_, rfl, rfl, ?_⟩
      · rw [looked.split]
        exact unreachable_of_stuck looked.leaves looked.first (looked.stuck matched)
      · constructor
        case ahead => exact skippedAhead
        case length =>
          show (settleCandidates _ _ _).length = _
          rw [settleCandidates_length, looked.length]
        case isOmitted => exact settled_unseen looked.isOmitted
        case isCandidate =>
          exact settled_candidates (by decide) looked.isCandidate among

/-! ## The end of the task -/

/-- The task is complete when everything ahead can be left out. -/
theorem completeSteps_eq
    (inside : ∀ step ∈ ahead, step.ordinal < states.length)
    (isOmitted : Marked states .omitted omitted) :
    completeSteps ahead states = (leaveAllOut omitted ahead).isSome := by
  induction ahead generalizing states omitted with
  | nil => rfl
  | cons step ahead inductionHypothesis =>
      have inside_rest : ∀ step ∈ ahead, step.ordinal < states.length :=
        fun other mem => inside other (List.mem_cons_of_mem step mem)
      simp only [completeSteps, leaveAllOut, leaveOut]
      cases operation : step.operation with
      | allocate =>
          cases step.required with
          | true => rfl
          | false =>
              apply inductionHypothesis
              · intro other mem
                rw [List.length_set]
                exact inside_rest other mem
              · exact isOmitted.set_same (inside step List.mem_cons_self)
      | free =>
          by_cases mem : step.ordinal ∈ omitted
          · rw [if_pos ((isOmitted _).mpr mem), if_pos mem]
            exact inductionHypothesis inside_rest isOmitted
          · rw [if_neg (mt (isOmitted _).mp mem), if_neg mem]
            rfl

end ShadowSpill.Runtime.ContractScan
