import ShadowSpill.Runtime.ContractAccounting

/-!
# The scope tracks the first-fit reading

`Tracks` relates a running task to the place a first-fit reading has reached.  Each kind
of event is accepted exactly where the reading has a rule for it, and leads to related
states again.
-/

namespace ShadowSpill.Runtime.ContractTracking

open AllocationContracts ContractLanguage ContractMatching ContractScan ContractAccounting

variable {record : Record} {execution last : Execution} {place : Place}
variable {geometry : Geometry} {allocation : Nat} {lease : Lease} {step : ContractStep}
variable {skipped rest ahead : List ContractStep} {omitted onward : List Nat}

/-! ## The relation -/

/-- A lease of the contract carries the ordinal of an allocation of the contract of its
own geometry, and scratch carries none. -/
def OwnOrdinal (record : Record) (omitted : List Nat) (lease : Lease) : Prop :=
  match lease.ordinal with
  | none => lease.scratch = true
  | some ordinal => lease.scratch = false ∧ ordinal ∉ omitted ∧
      ∃ step ∈ record.steps, step.operation = .allocate ∧ step.ordinal = ordinal ∧
        step.geometry = lease.geometry

/-- The running task stands at the place of the reading. -/
structure Tracks (record : Record) (execution : Execution) (place : Place) : Prop where
  leases : place.leases = execution.leases
  idle : execution.scope.pendingAllocation = false
  ahead : dropFrees place.omitted
      (record.steps.drop execution.scope.operationIndex) =
    dropFrees place.omitted place.rest
  within : place.rest ⊆ record.steps
  numbered : ∃ next, Numbered next place.rest ∧ (∀ ordinal ∈ place.omitted, ordinal < next) ∧
    ∀ lease ∈ place.leases, ∀ ordinal, lease.ordinal = some ordinal → ordinal < next
  length : execution.scope.allocationStates.length = (geometries record.steps).length
  isOmitted : Marked execution.scope.allocationStates .omitted place.omitted
  isCandidate : Marked execution.scope.allocationStates .omitCandidate []
  own : ∀ lease ∈ place.leases, OwnOrdinal record place.omitted lease
  distinct : (place.leases.filterMap (·.ordinal)).Nodup
  exact : Exact execution.scope place.leases

/-- What the check of the contract establishes. -/
structure WellFormed (record : Record) : Prop where
  enforced : record.enforceContract = true
  numbered : Numbered 0 record.steps
  geometry : ∀ step ∈ record.steps,
    (geometries record.steps)[step.ordinal]? = some step.geometry

theorem wellFormed_of_valid
    (valid : validContract record = true) (enforced : record.enforceContract = true) :
    WellFormed record := by
  unfold validContract at valid
  rw [if_pos enforced] at valid
  have known : ∀ (ordinal : Nat) (geometry : Geometry),
      ([] : List (Option Geometry))[ordinal]? = some (some geometry) →
        ([] : List Geometry)[ordinal]? = some geometry := by
    intro ordinal geometry impossible
    cases impossible
  obtain ⟨numbered, geometry⟩ := validSteps_spec valid rfl known
  exact ⟨enforced, numbered, geometry⟩

namespace WellFormed

theorem ordinal_lt (wellFormed : WellFormed record) (mem : step ∈ record.steps) :
    step.ordinal < (geometries record.steps).length :=
  (List.getElem?_eq_some_iff.mp (wellFormed.geometry step mem)).1

/-- Steps of one allocation have one geometry. -/
theorem geometry_eq {other : ContractStep}
    (wellFormed : WellFormed record) (mem : step ∈ record.steps)
    (other_mem : other ∈ record.steps) (same : step.ordinal = other.ordinal) :
    step.geometry = other.geometry := by
  have first := wellFormed.geometry step mem
  have second := wellFormed.geometry other other_mem
  rw [same, second] at first
  exact (Option.some.inj first).symm

/-- A task starts at the start of its contract. -/
theorem tracks_enterTask (wellFormed : WellFormed record) :
    Tracks record (enterTask record) ⟨record.steps, [], []⟩ where
  leases := rfl
  idle := rfl
  ahead := rfl
  within := List.Subset.refl _
  numbered := ⟨0, wellFormed.numbered, fun ordinal mem => (by cases mem),
    fun lease mem => by cases mem⟩
  length := by
    show (List.replicate (allocationCount record.steps) AllocationState.unseen).length = _
    rw [List.length_replicate, geometries_length]
  isOmitted := by
    intro ordinal
    simp [enterTask, enterScope, List.getElem?_replicate]
  isCandidate := by
    intro ordinal
    simp [enterTask, enterScope, List.getElem?_replicate]
  own := fun lease mem => by cases mem
  distinct := List.nodup_nil
  exact := exact_enterScope record

end WellFormed

/-! ## Limits -/

theorem exceeds_eq_false_iff {limit bytes : Nat} :
    exceeds limit bytes = false ↔ Within limit bytes := by
  unfold exceeds Within
  by_cases zero : limit = 0
  · simp [zero]
  · simp [zero]

/-- The envelope check is the one over the exact sums. -/
theorem fits_iff {scope : Scope} {leases : List Lease} (exact : Exact scope leases) :
    Fits record leases geometry ↔
      (0 < geometry.requestedBytes ∧ 0 < geometry.chargedBytes ∧
        0 < geometry.alignmentBytes) ∧
      exceedsEnvelope record scope geometry = false := by
  unfold exceedsEnvelope
  simp only [Bool.or_eq_false_iff, exceeds_eq_false_iff]
  rw [exact.liveRequested, exact.liveCharged]
  constructor
  · intro fits
    exact ⟨⟨fits.requested_pos, fits.charged_pos, fits.alignment_pos⟩,
      ⟨⟨fits.maximumRequested, fits.maximumCharged⟩, fits.liveRequested⟩,
      fits.liveCharged⟩
  · rintro ⟨⟨requested, charged, alignment⟩,
      ⟨⟨maximumRequested, maximumCharged⟩, liveRequested⟩, liveCharged⟩
    exact ⟨requested, charged, alignment, maximumRequested, maximumCharged,
      liveRequested, liveCharged⟩

/-- The scratch check is the one over the exact sum. -/
theorem scratchFits_iff {scope : Scope} {leases : List Lease} (exact : Exact scope leases)
    (charged_pos : 0 < geometry.chargedBytes) :
    ScratchFits record leases geometry ↔
      exceedsScratch record scope geometry = false := by
  unfold exceedsScratch
  simp only [Bool.or_eq_false_iff, exceeds_eq_false_iff, beq_eq_false_iff_ne,
    decide_eq_false_iff_not, Nat.not_lt]
  rw [exact.scratchCharged]
  constructor
  · rintro ⟨maximum, live⟩
    refine ⟨⟨?_, maximum⟩, live⟩
    intro zero
    rw [zero] at live
    exact absurd live (by omega)
  · rintro ⟨⟨-, maximum⟩, live⟩
    exact ⟨maximum, live⟩

/-! ## Where the reading stands -/

/-- A first fit past the frees that have nothing to free is a first fit. -/
theorem firstFit_of_dropFrees
    (fit : FirstFit omitted (dropFrees omitted ahead) geometry skipped step rest onward) :
    FirstFit omitted ahead geometry
      (ahead.takeWhile (omittedFree omitted) ++ skipped) step rest onward := by
  obtain ⟨split, allocates, fits, first, leaves⟩ := fit
  refine ⟨?_, allocates, fits, ?_, ?_⟩
  · rw [List.append_assoc, ← split]
    exact List.takeWhile_append_dropWhile.symm
  · intro passed mem
    rcases List.mem_append.mp mem with mem | mem
    · intro isAllocate
      have isFree := (omittedFree_iff.mp (List.mem_takeWhile_imp mem)).1
      rw [isAllocate] at isFree
      cases isFree
    · exact first passed mem
  · rw [leaveAllOut_append (leaveAllOut_takeFrees omitted ahead)]
    exact leaves

namespace Tracks

/-- The numbering at the place, past the frees the scope steps over. -/
theorem numbered_ahead (tracks : Tracks record execution place) :
    ∃ next, Numbered next (dropFrees place.omitted place.rest) ∧
      ∀ ordinal ∈ place.omitted, ordinal < next := by
  obtain ⟨next, numbered, bounded, -⟩ := tracks.numbered
  exact ⟨next, numbered.dropFrees, bounded⟩

theorem inside_ahead
    (wellFormed : WellFormed record) (tracks : Tracks record execution place) :
    ∀ step ∈ dropFrees place.omitted place.rest,
      step.ordinal < execution.scope.allocationStates.length := by
  intro step mem
  rw [tracks.length]
  exact wellFormed.ordinal_lt (tracks.within (dropFrees_subset _ _ mem))

/-- The scope takes the first fit of the reading, or nothing fits at all. -/
theorem classify
    (wellFormed : WellFormed record) (tracks : Tracks record execution place)
    (geometry : Geometry) :
    (∃ skipped step rest onward,
      FirstFit place.omitted place.rest geometry skipped step rest onward ∧
      (classifyAllocation record execution.scope geometry).pendingIsScratch = false ∧
      (classifyAllocation record execution.scope geometry).pendingOrdinal =
        some step.ordinal ∧
      Classified record execution.scope
        (classifyAllocation record execution.scope geometry) (step :: rest) onward) ∨
    (¬ Reachable place.omitted place.rest geometry ∧
      (classifyAllocation record execution.scope geometry).pendingIsScratch = true ∧
      (classifyAllocation record execution.scope geometry).pendingOrdinal = none ∧
      Classified record execution.scope
        (classifyAllocation record execution.scope geometry)
        (dropFrees place.omitted place.rest) place.omitted) := by
  obtain ⟨next, numbered, bounded⟩ := tracks.numbered_ahead
  have cases_of := @classifyAllocation_spec _ place.omitted geometry record execution.scope
    next tracks.ahead numbered (tracks.inside_ahead wellFormed) bounded tracks.isOmitted
    tracks.isCandidate
  rcases cases_of with ⟨skipped, step, rest, onward, fit, matched⟩ | ⟨unreachable, scratch⟩
  · exact Or.inl ⟨_, step, rest, onward, firstFit_of_dropFrees fit, matched⟩
  · exact Or.inr ⟨fun reachable => unreachable (reachable_dropFrees_of reachable), scratch⟩

end Tracks

/-! ## Requests -/

theorem settlePending_contract {scope : Scope} {ordinal : Nat}
    (pending : scope.pendingAllocation = true) (notScratch : scope.pendingIsScratch = false)
    (matched : scope.pendingOrdinal = some ordinal) :
    settlePending scope geometry = { scope with
      allocationStates := scope.allocationStates.set ordinal .matched
      operationIndex := scope.operationIndex + 1 } := by
  unfold settlePending
  rw [pending, notScratch, matched]
  rfl

theorem newLease_contract {scope : Scope}
    (pending : scope.pendingAllocation = true) (notScratch : scope.pendingIsScratch = false)
    (matched : scope.pendingOrdinal = some step.ordinal) (fits : step.geometry = geometry) :
    newLease scope geometry = contractLease step := by
  unfold newLease contractLease invariantOrdinal allocationIsScratch
  rw [pending, notScratch, matched, fits]
  rfl

theorem newLease_scratch {scope : Scope}
    (pending : scope.pendingAllocation = true) (isScratch : scope.pendingIsScratch = true) :
    newLease scope geometry = scratchLease geometry := by
  unfold newLease scratchLease invariantOrdinal allocationIsScratch
  rw [pending, isScratch]
  rfl

theorem classifyAllocation_pending (record : Record) (scope : Scope) (geometry : Geometry) :
    (classifyAllocation record scope geometry).pendingAllocation = true := by
  obtain ⟨operationIndex, pendingOrdinal, pendingIsScratch, allocationStates, same⟩ :=
    classifyAllocation_frame record scope geometry
  rw [same]

namespace Tracks

/-- An accepted request is inside the envelope; a scratch one is inside its limits. -/
theorem fits_of_ok
    (wellFormed : WellFormed record) (tracks : Tracks record execution place)
    (accepted : allocate record execution geometry = .ok last) :
    Fits record place.leases geometry ∧
      ((classifyAllocation record execution.scope geometry).pendingIsScratch = true →
        ScratchFits record place.leases geometry) := by
  obtain ⟨scope, valid, -⟩ := allocate_ok_iff.mp accepted
  obtain ⟨positive, envelope, -, rfl, scratch⟩ :=
    (validateAllocation_ok_iff wellFormed.enforced).mp valid
  refine ⟨(fits_iff tracks.exact).mpr ⟨positive, envelope⟩, fun isScratch => ?_⟩
  exact (scratchFits_iff tracks.exact.classify positive.2.1).mpr (scratch isScratch)

/-- A request with a first fit takes it. -/
theorem allocate_matched
    (wellFormed : WellFormed record) (tracks : Tracks record execution place)
    (fit : FirstFit place.omitted place.rest geometry skipped step rest onward)
    (fits : Fits record place.leases geometry) :
    ∃ last, allocate record execution geometry = .ok last ∧
      Tracks record last ⟨rest, onward, place.leases ++ [contractLease step]⟩ := by
  rcases tracks.classify wellFormed geometry with
    ⟨_, other, otherRest, otherOnward, otherFit, notScratch, matched, classified⟩ |
    ⟨unreachable, -⟩
  case inr => exact absurd (reachable_of_firstFit fit) unreachable
  obtain ⟨rfl, rfl, rfl⟩ := firstFit_unique fit otherFit
  have pending := classifyAllocation_pending record execution.scope geometry
  obtain ⟨positive, envelope⟩ := (fits_iff tracks.exact).mp fits
  have valid := (validateAllocation_ok_iff wellFormed.enforced).mpr
    ⟨positive, envelope, tracks.idle, rfl, fun isScratch => by
      rw [notScratch] at isScratch
      cases isScratch⟩
  refine ⟨_, allocate_ok_iff.mpr ⟨_, valid, rfl⟩, ?_⟩
  have settled := @settlePending_contract geometry _ _ pending notScratch matched
  have lease_eq := newLease_contract pending notScratch matched fit.fits
  have committed_states : (commitAllocation
      (classifyAllocation record execution.scope geometry) geometry).allocationStates =
      (classifyAllocation record execution.scope geometry).allocationStates.set
        step.ordinal .matched := by
    show (settlePending _ geometry).allocationStates = _
    rw [settled]
  have committed_index : (commitAllocation
      (classifyAllocation record execution.scope geometry) geometry).operationIndex =
      (classifyAllocation record execution.scope geometry).operationIndex + 1 := by
    show (settlePending _ geometry).operationIndex = _
    rw [settled]
  have step_mem : step ∈ place.rest := by
    rw [fit.split]
    exact List.mem_append_right skipped List.mem_cons_self
  have skipped_mem : ∀ passed ∈ skipped, passed ∈ place.rest := by
    intro passed mem
    rw [fit.split]
    exact List.mem_append_left _ mem
  obtain ⟨next, numbered, bounded, leases_bounded⟩ := tracks.numbered
  have numbered_split := numbered
  rw [fit.split] at numbered_split
  obtain ⟨later, next_later, numbered_later, onward_bounded⟩ :=
    numbered_split.after bounded fit.leaves
  obtain ⟨final, -, numbered_final, ofAllocate, -⟩ := numbered_later.tail
  obtain ⟨ordinal_eq, final_eq⟩ := ofAllocate fit.allocates
  have ordinal_fresh : step.ordinal ∉ onward := by
    intro mem
    exact absurd (onward_bounded _ mem) (by rw [ordinal_eq]; exact Nat.lt_irrefl later)
  constructor
  case leases =>
    show place.leases ++ [contractLease step] = execution.leases ++ [newLease _ geometry]
    rw [tracks.leases, lease_eq]
  case idle => rfl
  case ahead =>
    show dropFrees onward (record.steps.drop (commitAllocation _ geometry).operationIndex) =
      dropFrees onward rest
    rw [committed_index, ← List.drop_drop, classified.ahead]
    rfl
  case within =>
    intro other mem
    apply tracks.within
    rw [fit.split]
    exact List.mem_append_right skipped (List.mem_cons_of_mem step mem)
  case numbered =>
    refine ⟨final, numbered_final, ?_, ?_⟩
    · intro ordinal mem
      rw [final_eq]
      exact (onward_bounded ordinal mem).trans (Nat.lt_succ_self later)
    · intro lease mem ordinal own
      rw [final_eq]
      rcases List.mem_append.mp mem with mem | mem
      · have below := leases_bounded lease mem ordinal own
        exact (below.trans_le next_later).trans (Nat.lt_succ_self later)
      · rw [List.mem_singleton.mp mem] at own
        cases own
        rw [ordinal_eq]
        exact Nat.lt_succ_self later
  case length =>
    show (commitAllocation _ geometry).allocationStates.length = _
    rw [committed_states, List.length_set, classified.length, tracks.length]
  case isOmitted =>
    show Marked (commitAllocation _ geometry).allocationStates _ _
    rw [committed_states]
    exact classified.isOmitted.set_other (by decide) ordinal_fresh
  case isCandidate =>
    show Marked (commitAllocation _ geometry).allocationStates _ _
    rw [committed_states]
    exact classified.isCandidate.set_other (by decide) List.not_mem_nil
  case own =>
    intro lease mem
    rcases List.mem_append.mp mem with mem | mem
    · have own := tracks.own lease mem
      unfold OwnOrdinal at own ⊢
      cases held : lease.ordinal with
      | none =>
          rw [held] at own
          exact own
      | some ordinal =>
          rw [held] at own
          obtain ⟨notScratch, missing, found⟩ := own
          refine ⟨notScratch, ?_, found⟩
          intro mem_onward
          rcases leaveAllOut_mem fit.leaves mem_onward with earlier | passed_spec
          · exact missing earlier
          · obtain ⟨passed, passed_mem, allocates, rfl⟩ := passed_spec
            have fresh := numbered.fresh (skipped_mem passed passed_mem) allocates
            exact absurd (leases_bounded lease mem _ held) (Nat.not_lt.mpr fresh)
    · rw [List.mem_singleton.mp mem]
      exact ⟨rfl, ordinal_fresh, step, tracks.within step_mem, fit.allocates, rfl, rfl⟩
  case distinct =>
    rw [List.filterMap_append, List.nodup_append]
    refine ⟨tracks.distinct, List.pairwise_singleton _ _, ?_⟩
    intro ordinal mem other other_mem same
    obtain ⟨lease, lease_mem, own⟩ := List.mem_filterMap.mp mem
    rw [List.mem_singleton.mp other_mem] at same
    have below := leases_bounded lease lease_mem ordinal own
    rw [same, ordinal_eq] at below
    exact absurd next_later (Nat.not_le.mpr below)
  case exact =>
    show Exact (commitAllocation _ geometry) (place.leases ++ [contractLease step])
    rw [← lease_eq]
    exact tracks.exact.classify.commit

/-- A request that nothing fits is scratch, within the limits. -/
theorem allocate_scratch
    (wellFormed : WellFormed record) (tracks : Tracks record execution place)
    (unreachable : ¬ Reachable place.omitted place.rest geometry)
    (fits : Fits record place.leases geometry)
    (scratchFits : ScratchFits record place.leases geometry) :
    ∃ last, allocate record execution geometry = .ok last ∧
      Tracks record last
        ⟨place.rest, place.omitted, place.leases ++ [scratchLease geometry]⟩ := by
  rcases tracks.classify wellFormed geometry with
    ⟨_, _, _, _, fit, -⟩ | ⟨-, isScratch, -, classified⟩
  case inl => exact absurd (reachable_of_firstFit fit) unreachable
  have pending := classifyAllocation_pending record execution.scope geometry
  obtain ⟨positive, envelope⟩ := (fits_iff tracks.exact).mp fits
  have valid := (validateAllocation_ok_iff wellFormed.enforced).mpr
    ⟨positive, envelope, tracks.idle, rfl, fun _ =>
      (scratchFits_iff tracks.exact.classify positive.2.1).mp scratchFits⟩
  refine ⟨_, allocate_ok_iff.mpr ⟨_, valid, rfl⟩, ?_⟩
  have lease_eq := @newLease_scratch geometry _ pending isScratch
  have committed_states : (commitAllocation
      (classifyAllocation record execution.scope geometry) geometry).allocationStates =
      (classifyAllocation record execution.scope geometry).allocationStates := by
    show (settlePending _ geometry).allocationStates = _
    unfold settlePending
    rw [pending, isScratch]
    rfl
  have committed_index : (commitAllocation
      (classifyAllocation record execution.scope geometry) geometry).operationIndex =
      (classifyAllocation record execution.scope geometry).operationIndex := by
    show (settlePending _ geometry).operationIndex = _
    unfold settlePending
    rw [pending, isScratch]
    rfl
  constructor
  case leases =>
    show place.leases ++ [scratchLease geometry] = execution.leases ++ [newLease _ geometry]
    rw [tracks.leases, lease_eq]
  case idle => rfl
  case ahead =>
    show dropFrees place.omitted
      (record.steps.drop (commitAllocation _ geometry).operationIndex) = _
    rw [committed_index, classified.ahead, dropFrees_idem]
  case within => exact tracks.within
  case numbered =>
    obtain ⟨next, numbered, bounded, leases_bounded⟩ := tracks.numbered
    refine ⟨next, numbered, bounded, ?_⟩
    intro lease mem ordinal own
    rcases List.mem_append.mp mem with mem | mem
    · exact leases_bounded lease mem ordinal own
    · rw [List.mem_singleton.mp mem] at own
      cases own
  case length =>
    show (commitAllocation _ geometry).allocationStates.length = _
    rw [committed_states, classified.length, tracks.length]
  case isOmitted =>
    show Marked (commitAllocation _ geometry).allocationStates _ _
    rw [committed_states]
    exact classified.isOmitted
  case isCandidate =>
    show Marked (commitAllocation _ geometry).allocationStates _ _
    rw [committed_states]
    exact classified.isCandidate
  case own =>
    intro lease mem
    rcases List.mem_append.mp mem with mem | mem
    · exact tracks.own lease mem
    · rw [List.mem_singleton.mp mem]
      rfl
  case distinct =>
    rw [List.filterMap_append]
    exact (List.append_nil _).symm ▸ tracks.distinct
  case exact =>
    show Exact (commitAllocation _ geometry) (place.leases ++ [scratchLease geometry])
    rw [← lease_eq]
    exact tracks.exact.classify.commit

end Tracks

/-! ## Frees -/

/-- What holds of every lease, freed or not, holds after a free. -/
theorem forall_set_freed {leases : List Lease} {property : Lease → Prop}
    (stable : ∀ lease, property lease → property lease.freed)
    (all : ∀ lease ∈ leases, property lease) (held : leases[allocation]? = some lease) :
    ∀ other ∈ leases.set allocation lease.freed, property other := by
  intro other mem
  rcases List.mem_or_eq_of_mem_set mem with mem | rfl
  · exact all other mem
  · exact stable lease (all lease (List.mem_of_getElem? held))

theorem ordinals_set_freed {leases : List Lease} (held : leases[allocation]? = some lease) :
    (leases.set allocation lease.freed).filterMap (·.ordinal) =
      leases.filterMap (·.ordinal) := by
  induction leases generalizing allocation with
  | nil => rfl
  | cons head leases inductionHypothesis =>
      cases allocation with
      | zero =>
          cases held
          rfl
      | succ allocation =>
          rw [List.set_cons_succ, List.filterMap_cons, List.filterMap_cons,
            inductionHypothesis held]

/-- Taking a lease out of the counters leaves the place in the contract alone. -/
theorem uncharge_contract (scope : Scope) (lease : Lease) :
    (uncharge scope lease).operationIndex = scope.operationIndex ∧
      (uncharge scope lease).allocationStates = scope.allocationStates ∧
      (uncharge scope lease).pendingAllocation = scope.pendingAllocation := by
  unfold uncharge
  dsimp only
  split
  · exact ⟨rfl, rfl, rfl⟩
  · exact ⟨rfl, rfl, rfl⟩

namespace Tracks

/-- The scope after a free, at a later place of the contract. -/
theorem uncharged
    (tracks : Tracks record execution place) (held : place.leases[allocation]? = some lease)
    (live : lease.live = true) {operationIndex : Nat} {rest : List ContractStep}
    (ahead : dropFrees place.omitted (record.steps.drop operationIndex) =
      dropFrees place.omitted rest)
    (within : rest ⊆ place.rest)
    (numbered : ∀ next, Numbered next place.rest → Numbered next rest) :
    Tracks record
      ⟨uncharge { execution.scope with operationIndex := operationIndex } lease,
        execution.leases.set allocation lease.freed⟩
      ⟨rest, place.omitted, place.leases.set allocation lease.freed⟩ := by
  obtain ⟨index_eq, states_eq, pending_eq⟩ :=
    uncharge_contract { execution.scope with operationIndex := operationIndex } lease
  constructor
  case leases =>
    show place.leases.set allocation lease.freed = _
    rw [tracks.leases]
  case idle => exact pending_eq.trans tracks.idle
  case ahead =>
    show dropFrees place.omitted (record.steps.drop (uncharge _ lease).operationIndex) = _
    rw [index_eq]
    exact ahead
  case within => exact List.Subset.trans within tracks.within
  case numbered =>
    obtain ⟨next, isNumbered, bounded, leases_bounded⟩ := tracks.numbered
    exact ⟨next, numbered next isNumbered, bounded,
      forall_set_freed (fun lease below => below) leases_bounded held⟩
  case length =>
    show (uncharge _ lease).allocationStates.length = _
    rw [states_eq]
    exact tracks.length
  case isOmitted =>
    show Marked (uncharge _ lease).allocationStates _ _
    rw [states_eq]
    exact tracks.isOmitted
  case isCandidate =>
    show Marked (uncharge _ lease).allocationStates _ _
    rw [states_eq]
    exact tracks.isCandidate
  case own => exact forall_set_freed (fun lease own => own) tracks.own held
  case distinct =>
    show ((place.leases.set allocation lease.freed).filterMap (·.ordinal)).Nodup
    rw [ordinals_set_freed held]
    exact tracks.distinct
  case exact => exact (tracks.exact.at_index operationIndex).uncharge held live

/-- A free of scratch is always accepted. -/
theorem free_scratch
    (tracks : Tracks record execution place) (held : place.leases[allocation]? = some lease)
    (live : lease.live = true) (isScratch : lease.scratch = true) :
    ∃ last, free record execution allocation = .ok last ∧
      Tracks record last
        ⟨place.rest, place.omitted, place.leases.set allocation lease.freed⟩ := by
  have released : releaseAllocation record execution.scope lease =
      .ok (uncharge execution.scope lease) := by
    unfold releaseAllocation
    rw [isScratch, Bool.not_true, Bool.and_false]
    rfl
  have held_lease := held
  rw [tracks.leases] at held_lease
  exact ⟨_, free_ok_iff.mpr ⟨lease, _, held_lease, live, released, rfl⟩,
    tracks.uncharged held live tracks.ahead (List.Subset.refl _) (fun _ same => same)⟩

/-- What stands ahead once the scope has stepped over frees with nothing to free. -/
theorem skipped_ahead (tracks : Tracks record execution place) :
    record.steps.drop (skipOmittedFrees record execution.scope).operationIndex =
      dropFrees place.omitted place.rest :=
  (skipOmittedFrees_ahead tracks.isOmitted).trans tracks.ahead

theorem expectedStep_skipped
    (wellFormed : WellFormed record) (tracks : Tracks record execution place) :
    expectedStep record (skipOmittedFrees record execution.scope) =
      (dropFrees place.omitted place.rest).head? := by
  unfold expectedStep
  rw [if_pos wellFormed.enforced, ← tracks.skipped_ahead, List.head?_drop]

theorem freesLease_iff {step : ContractStep} :
    freesLease lease step = true ↔
      step.operation = .free ∧ lease.ordinal = some step.ordinal ∧
        step.geometry = lease.geometry := by
  unfold freesLease
  simp only [Bool.and_eq_true, decide_eq_true_eq]
  constructor
  · rintro ⟨⟨frees, own⟩, same⟩
    exact ⟨frees, own.symm, same⟩
  · rintro ⟨frees, own, same⟩
    exact ⟨⟨frees, own.symm⟩, same⟩

/-- A free that the contract expects next, past frees with nothing to free. -/
theorem free_expected
    (wellFormed : WellFormed record) (tracks : Tracks record execution place)
    (held : place.leases[allocation]? = some lease) (live : lease.live = true)
    (split : dropFrees place.omitted place.rest = step :: rest)
    (frees : step.operation = .free) (own : lease.ordinal = some step.ordinal) :
    ∃ last, free record execution allocation = .ok last ∧
      Tracks record last
        ⟨rest, place.omitted, place.leases.set allocation lease.freed⟩ := by
  have own_ordinal := tracks.own lease (List.mem_of_getElem? held)
  unfold OwnOrdinal at own_ordinal
  rw [own] at own_ordinal
  obtain ⟨notScratch, -, made, made_mem, -, same_ordinal, same_geometry⟩ := own_ordinal
  have step_mem : step ∈ place.rest := by
    apply dropFrees_subset place.omitted
    rw [split]
    exact List.mem_cons_self
  have geometry_eq : step.geometry = lease.geometry := by
    rw [← same_geometry]
    exact wellFormed.geometry_eq (tracks.within step_mem) made_mem same_ordinal.symm
  have expected : (expectedStep record (skipOmittedFrees record execution.scope)).any
      (freesLease lease) = true := by
    rw [tracks.expectedStep_skipped wellFormed, split]
    exact freesLease_iff.mpr ⟨frees, own, geometry_eq⟩
  have released : releaseAllocation record execution.scope lease =
      .ok (uncharge { execution.scope with
        operationIndex :=
          (skipOmittedFrees record execution.scope).operationIndex + 1 } lease) := by
    unfold releaseAllocation
    rw [wellFormed.enforced, notScratch]
    dsimp only
    rw [if_pos expected]
    rfl
  have held_lease := held
  rw [tracks.leases] at held_lease
  refine ⟨_, free_ok_iff.mpr ⟨lease, _, held_lease, live, released, rfl⟩, ?_⟩
  apply tracks.uncharged held live
  · rw [← List.drop_drop, tracks.skipped_ahead, split]
    rfl
  · intro other mem
    apply dropFrees_subset place.omitted
    rw [split]
    exact List.mem_cons_of_mem step mem
  · intro next numbered
    have dropped := @Numbered.dropFrees _ place.omitted next numbered
    rw [split] at dropped
    obtain ⟨later, -, numbered, -, ofFree⟩ := dropped.tail
    rw [(ofFree frees).2] at numbered
    exact numbered

/-- A contract free, accepted or not, is the one the contract expects. -/
theorem expected_of_free_ok
    (wellFormed : WellFormed record) (tracks : Tracks record execution place)
    (held : place.leases[allocation]? = some lease) (notScratch : lease.scratch = false)
    (accepted : free record execution allocation = .ok last) :
    ∃ step rest, dropFrees place.omitted place.rest = step :: rest ∧
      step.operation = .free ∧ lease.ordinal = some step.ordinal := by
  obtain ⟨other, scope, other_held, -, released, -⟩ := free_ok_iff.mp accepted
  rw [← tracks.leases, held] at other_held
  cases other_held
  unfold releaseAllocation at released
  rw [wellFormed.enforced, notScratch] at released
  dsimp only at released
  split at released
  case isTrue =>
    split at released
    case isTrue expected =>
      rw [tracks.expectedStep_skipped wellFormed] at expected
      cases split : dropFrees place.omitted place.rest with
      | nil =>
          rw [split] at expected
          cases expected
      | cons step rest =>
          rw [split] at expected
          obtain ⟨frees, own, -⟩ := freesLease_iff.mp expected
          exact ⟨step, rest, rfl, frees, own⟩
    case isFalse => cases released
  case isFalse impossible => exact absurd rfl impossible

/-! ## The end of the task -/

/-- The task is complete when everything ahead of the reading can be left out. -/
theorem complete_iff
    (wellFormed : WellFormed record) (tracks : Tracks record execution place) :
    validateComplete record execution.scope = true ↔
      (leaveAllOut place.omitted place.rest).isSome := by
  have inside : ∀ step ∈ record.steps.drop execution.scope.operationIndex,
      step.ordinal < execution.scope.allocationStates.length := by
    intro step mem
    rw [tracks.length]
    exact wellFormed.ordinal_lt (List.mem_of_mem_drop mem)
  unfold validateComplete
  rw [wellFormed.enforced, Bool.not_true, Bool.false_or,
    completeSteps_eq inside tracks.isOmitted, ← leaveAllOut_dropFrees, tracks.ahead,
    leaveAllOut_dropFrees]

end Tracks

end ShadowSpill.Runtime.ContractTracking
