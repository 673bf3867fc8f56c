import Mathlib.Order.Bounds.Basic
import ShadowSpill.Runtime.ContractScan

/-!
# The counters of the scope

The scope adds every allocation to its counters and subtracts every free.  The counters
are the exact sums over the leases, so no subtraction stops at zero, and the peaks are
the greatest sums the run has met.
-/

namespace ShadowSpill.Runtime.ContractAccounting

open AllocationContracts ContractLanguage ContractScan

variable {record : Record} {scope next : Scope} {leases : List Lease} {lease : Lease}
variable {geometry : Geometry} {execution last : Execution} {event : Event}
variable {before trace : List Event} {allocation : Nat}
variable {counted : Lease → Bool} {bytes : Geometry → Nat}

/-! ## Sums over leases -/

theorem countedBytes_append (leases others : List Lease) :
    countedBytes counted bytes (leases ++ others) =
      countedBytes counted bytes leases + countedBytes counted bytes others := by
  induction leases with
  | nil => simp [countedBytes]
  | cons lease leases inductionHypothesis =>
      simp only [List.cons_append, countedBytes, inductionHypothesis, Nat.add_assoc]

/-- A lease that stops counting takes its own bytes out of the sum. -/
theorem countedBytes_set
    (held : leases[allocation]? = some lease) (counts : counted lease = true)
    (stops : counted lease.freed = false) :
    countedBytes counted bytes (leases.set allocation lease.freed) + bytes lease.geometry =
      countedBytes counted bytes leases := by
  induction leases generalizing allocation with
  | nil => cases held
  | cons head leases inductionHypothesis =>
      cases allocation with
      | zero =>
          cases held
          simp only [List.set_cons_zero, countedBytes, counts, stops]
          simp [Nat.add_comm]
      | succ allocation =>
          have tail := inductionHypothesis held
          simp only [List.set_cons_succ, countedBytes]
          rw [Nat.add_assoc, tail]

/-- A lease that never counted changes nothing. -/
theorem countedBytes_set_other
    (held : leases[allocation]? = some lease) (counts : counted lease = false)
    (stops : counted lease.freed = false) :
    countedBytes counted bytes (leases.set allocation lease.freed) =
      countedBytes counted bytes leases := by
  induction leases generalizing allocation with
  | nil => cases held
  | cons head leases inductionHypothesis =>
      cases allocation with
      | zero =>
          cases held
          simp only [List.set_cons_zero, countedBytes, counts, stops]
          simp
      | succ allocation =>
          simp only [List.set_cons_succ, countedBytes, inductionHypothesis held]

/-- A lease that counts is part of the sum. -/
theorem le_countedBytes (mem : lease ∈ leases) (counts : counted lease = true) :
    bytes lease.geometry ≤ countedBytes counted bytes leases := by
  induction leases with
  | nil => cases mem
  | cons head leases inductionHypothesis =>
      unfold countedBytes
      rcases List.mem_cons.mp mem with rfl | mem
      · rw [if_pos counts]
        exact Nat.le_add_right _ _
      · exact (inductionHypothesis mem).trans (Nat.le_add_left _ _)

/-! ## What a step does -/

/-- What an accepted request passed. -/
theorem validateAllocation_ok_iff (enforced : record.enforceContract = true) :
    validateAllocation record scope geometry = .ok next ↔
      (0 < geometry.requestedBytes ∧ 0 < geometry.chargedBytes ∧
        0 < geometry.alignmentBytes) ∧
      exceedsEnvelope record scope geometry = false ∧
      scope.pendingAllocation = false ∧
      next = classifyAllocation record scope geometry ∧
      (next.pendingIsScratch = true → exceedsScratch record next geometry = false) := by
  unfold validateAllocation
  rw [enforced]
  constructor
  · intro accepted
    split at accepted
    · cases accepted
    case isFalse positive =>
      split at accepted
      · cases accepted
      case isFalse envelope =>
        split at accepted
        case isTrue impossible => cases impossible
        split at accepted
        · cases accepted
        case isFalse idle =>
          dsimp only at accepted
          split at accepted
          · cases accepted
          case isFalse fits =>
            cases accepted
            refine ⟨by omega, by simpa using envelope, by simpa using idle, rfl, ?_⟩
            intro scratch
            simpa [scratch] using fits
  · rintro ⟨positive, envelope, idle, rfl, fits⟩
    have positive : ¬ (geometry.requestedBytes = 0 ∨ geometry.chargedBytes = 0 ∨
        geometry.alignmentBytes = 0) := by omega
    rw [if_neg positive, envelope, idle]
    cases scratch : (classifyAllocation record scope geometry).pendingIsScratch with
    | false => simp [scratch]
    | true => simp [scratch, fits scratch]

/-- The lease of an accepted request. -/
def newLease (scope : Scope) (geometry : Geometry) : Lease :=
  ⟨geometry, invariantOrdinal scope, allocationIsScratch scope, true⟩

theorem allocate_ok_iff :
    allocate record execution geometry = .ok last ↔
      ∃ scope, validateAllocation record execution.scope geometry = .ok scope ∧
        last = ⟨commitAllocation scope geometry,
          execution.leases ++ [newLease scope geometry]⟩ := by
  unfold allocate newLease
  cases validateAllocation record execution.scope geometry with
  | error refusal => simp [bind, Except.bind]
  | ok scope => simp [bind, Except.bind, pure, Except.pure, eq_comm]

theorem free_ok_iff :
    free record execution allocation = .ok last ↔
      ∃ lease scope, execution.leases[allocation]? = some lease ∧ lease.live = true ∧
        releaseAllocation record execution.scope lease = .ok scope ∧
        last = ⟨scope, execution.leases.set allocation lease.freed⟩ := by
  unfold free
  constructor
  · intro accepted
    split at accepted
    · cases accepted
    case h_2 lease held =>
      split at accepted
      · cases accepted
      case isFalse dead =>
        cases released : releaseAllocation record execution.scope lease with
        | error refusal =>
            rw [released] at accepted
            cases accepted
        | ok scope =>
            rw [released] at accepted
            cases accepted
            exact ⟨lease, scope, held, by simpa using dead, released, rfl⟩
  · rintro ⟨lease, scope, held, live, released, rfl⟩
    rw [held]
    simp only [live, released]
    rfl

/-- A free takes the lease out of a scope whose counters are the ones before it. -/
theorem releaseAllocation_ok
    (released : releaseAllocation record scope lease = .ok next) :
    ∃ operationIndex,
      next = uncharge { scope with operationIndex := operationIndex } lease := by
  unfold releaseAllocation at released
  split at released
  · dsimp only at released
    split at released
    · cases released
      exact ⟨_, rfl⟩
    · cases released
  · cases released
    exact ⟨scope.operationIndex, rfl⟩

/-! ## Exact counters -/

/-- The counters are the sums over the leases. -/
structure Exact (scope : Scope) (leases : List Lease) : Prop where
  liveRequested : scope.liveRequested = liveBytes Geometry.requestedBytes leases
  liveCharged : scope.liveCharged = liveBytes Geometry.chargedBytes leases
  scratchRequested :
    scope.scratchLiveRequested = scratchBytes Geometry.requestedBytes leases
  scratchCharged : scope.scratchLiveCharged = scratchBytes Geometry.chargedBytes leases
  allocations : scope.allocationCount = leases.length
  scratchAllocations : scope.scratchAllocationCount = leases.countP (·.scratch)
  frees : scope.freeCount = leases.countP (!·.live)

theorem exact_enterScope (record : Record) : Exact (enterScope record) [] :=
  ⟨rfl, rfl, rfl, rfl, rfl, rfl, rfl⟩

/-- No free of a live lease takes more than a counter holds. -/
theorem Exact.covers
    (exact : Exact scope leases) (mem : lease ∈ leases) (live : lease.live = true) :
    lease.geometry.requestedBytes ≤ scope.liveRequested ∧
      lease.geometry.chargedBytes ≤ scope.liveCharged ∧
      (lease.scratch = true →
        lease.geometry.requestedBytes ≤ scope.scratchLiveRequested ∧
          lease.geometry.chargedBytes ≤ scope.scratchLiveCharged) := by
  rw [exact.liveRequested, exact.liveCharged, exact.scratchRequested,
    exact.scratchCharged]
  refine ⟨le_countedBytes mem live, le_countedBytes mem live, fun scratch => ?_⟩
  have counts : (lease.live && lease.scratch) = true := by rw [live, scratch]; rfl
  exact ⟨@le_countedBytes leases lease (fun lease => lease.live && lease.scratch) _
    mem counts, @le_countedBytes leases lease
    (fun lease => lease.live && lease.scratch) _ mem counts⟩

/-- Settling a request leaves the counters of all allocations alone. -/
theorem settlePending_live (scope : Scope) (geometry : Geometry) :
    (settlePending scope geometry).liveRequested = scope.liveRequested ∧
      (settlePending scope geometry).liveCharged = scope.liveCharged ∧
      (settlePending scope geometry).allocationCount = scope.allocationCount ∧
      (settlePending scope geometry).freeCount = scope.freeCount := by
  unfold settlePending
  split
  · exact ⟨rfl, rfl, rfl, rfl⟩
  · split
    · exact ⟨rfl, rfl, rfl, rfl⟩
    · exact ⟨rfl, rfl, rfl, rfl⟩

/-- Settling a request charges it to scratch exactly if it is scratch. -/
theorem settlePending_scratch (scope : Scope) (geometry : Geometry) :
    (settlePending scope geometry).scratchLiveRequested = scope.scratchLiveRequested +
        (if allocationIsScratch scope then geometry.requestedBytes else 0) ∧
      (settlePending scope geometry).scratchLiveCharged = scope.scratchLiveCharged +
        (if allocationIsScratch scope then geometry.chargedBytes else 0) ∧
      (settlePending scope geometry).scratchAllocationCount =
        scope.scratchAllocationCount + (if allocationIsScratch scope then 1 else 0) := by
  unfold settlePending allocationIsScratch
  split
  · exact ⟨rfl, rfl, rfl⟩
  · split
    · exact ⟨rfl, rfl, rfl⟩
    · exact ⟨rfl, rfl, rfl⟩

theorem liveBytes_append_new (bytes : Geometry → Nat) (leases : List Lease) (scope : Scope) :
    liveBytes bytes (leases ++ [newLease scope geometry]) =
      liveBytes bytes leases + bytes geometry := by
  unfold liveBytes
  rw [countedBytes_append]
  simp [countedBytes, newLease]

theorem scratchBytes_append_new
    (bytes : Geometry → Nat) (leases : List Lease) (scope : Scope) :
    scratchBytes bytes (leases ++ [newLease scope geometry]) =
      scratchBytes bytes leases + if allocationIsScratch scope then bytes geometry else 0 := by
  unfold scratchBytes
  rw [countedBytes_append]
  simp [countedBytes, newLease]

theorem Exact.commit (exact : Exact scope leases) :
    Exact (commitAllocation scope geometry) (leases ++ [newLease scope geometry]) := by
  obtain ⟨requested, charged, allocations, frees⟩ := settlePending_live scope geometry
  obtain ⟨scratchRequested, scratchCharged, scratchCount⟩ :=
    settlePending_scratch scope geometry
  constructor
  case liveRequested =>
    show (settlePending scope geometry).liveRequested + geometry.requestedBytes = _
    rw [liveBytes_append_new, requested, exact.liveRequested]
  case liveCharged =>
    show (settlePending scope geometry).liveCharged + geometry.chargedBytes = _
    rw [liveBytes_append_new, charged, exact.liveCharged]
  case scratchRequested =>
    show (settlePending scope geometry).scratchLiveRequested = _
    rw [scratchBytes_append_new, scratchRequested, exact.scratchRequested]
  case scratchCharged =>
    show (settlePending scope geometry).scratchLiveCharged = _
    rw [scratchBytes_append_new, scratchCharged, exact.scratchCharged]
  case allocations =>
    show (settlePending scope geometry).allocationCount + 1 = _
    rw [List.length_append, allocations, exact.allocations]
    rfl
  case scratchAllocations =>
    show (settlePending scope geometry).scratchAllocationCount = _
    rw [List.countP_append, List.countP_singleton, scratchCount, exact.scratchAllocations]
    rfl
  case frees =>
    show (settlePending scope geometry).freeCount = _
    rw [List.countP_append, List.countP_singleton, frees, exact.frees]
    rfl

theorem clampedSub_add {total bytes : Nat} : clampedSub (total + bytes) bytes = total := by
  unfold clampedSub
  rw [if_pos (Nat.le_add_left bytes total), Nat.add_sub_cancel]

/-- Freeing a lease turns one live lease into a freed one. -/
theorem countP_freed
    (held : leases[allocation]? = some lease) (live : lease.live = true) :
    (leases.set allocation lease.freed).countP (!·.live) = leases.countP (!·.live) + 1 := by
  induction leases generalizing allocation with
  | nil => cases held
  | cons head leases inductionHypothesis =>
      cases allocation with
      | zero =>
          cases held
          simp [live, Lease.freed]
      | succ allocation =>
          rw [List.set_cons_succ, List.countP_cons, List.countP_cons,
            inductionHypothesis held]
          exact Nat.add_right_comm _ _ _

theorem countP_scratch_freed (held : leases[allocation]? = some lease) :
    (leases.set allocation lease.freed).countP (·.scratch) = leases.countP (·.scratch) := by
  induction leases generalizing allocation with
  | nil => cases held
  | cons head leases inductionHypothesis =>
      cases allocation with
      | zero =>
          cases held
          simp [Lease.freed, List.countP_cons]
      | succ allocation =>
          rw [List.set_cons_succ, List.countP_cons, List.countP_cons,
            inductionHypothesis held]

theorem Exact.uncharge
    (exact : Exact scope leases) (held : leases[allocation]? = some lease)
    (live : lease.live = true) :
    Exact (uncharge scope lease) (leases.set allocation lease.freed) := by
  have live_set : ∀ bytes : Geometry → Nat,
      liveBytes bytes (leases.set allocation lease.freed) + bytes lease.geometry =
        liveBytes bytes leases :=
    fun bytes => countedBytes_set held live rfl
  have subtracts : ∀ (bytes : Geometry → Nat) (total : Nat),
      total = liveBytes bytes leases →
        clampedSub total (bytes lease.geometry) =
          liveBytes bytes (leases.set allocation lease.freed) := by
    intro bytes total total_eq
    rw [total_eq, ← live_set, clampedSub_add]
  unfold AllocationContracts.uncharge
  cases scratch : lease.scratch with
  | true =>
      have scratch_set : ∀ (bytes : Geometry → Nat) (total : Nat),
          total = scratchBytes bytes leases →
            clampedSub total (bytes lease.geometry) =
              scratchBytes bytes (leases.set allocation lease.freed) := by
        intro bytes total total_eq
        have counts : (lease.live && lease.scratch) = true := by rw [live, scratch]; rfl
        have sum : scratchBytes bytes (leases.set allocation lease.freed) +
            bytes lease.geometry = scratchBytes bytes leases :=
          @countedBytes_set leases lease allocation
            (fun lease => lease.live && lease.scratch) bytes held counts rfl
        rw [total_eq, ← sum, clampedSub_add]
      constructor
      case liveRequested => exact subtracts _ _ exact.liveRequested
      case liveCharged => exact subtracts _ _ exact.liveCharged
      case scratchRequested => exact scratch_set _ _ exact.scratchRequested
      case scratchCharged => exact scratch_set _ _ exact.scratchCharged
      case allocations => exact exact.allocations.trans List.length_set.symm
      case scratchAllocations =>
        exact exact.scratchAllocations.trans (countP_scratch_freed held).symm
      case frees =>
        rw [countP_freed held live, ← exact.frees]
        rfl
  | false =>
      have scratch_set : ∀ bytes : Geometry → Nat,
          scratchBytes bytes (leases.set allocation lease.freed) =
            scratchBytes bytes leases := by
        intro bytes
        have counts : (lease.live && lease.scratch) = false := by rw [scratch, Bool.and_false]
        exact @countedBytes_set_other leases lease allocation
          (fun lease => lease.live && lease.scratch) bytes held counts rfl
      constructor
      case liveRequested => exact subtracts _ _ exact.liveRequested
      case liveCharged => exact subtracts _ _ exact.liveCharged
      case scratchRequested => exact exact.scratchRequested.trans (scratch_set _).symm
      case scratchCharged => exact exact.scratchCharged.trans (scratch_set _).symm
      case allocations => exact exact.allocations.trans List.length_set.symm
      case scratchAllocations =>
        exact exact.scratchAllocations.trans (countP_scratch_freed held).symm
      case frees =>
        rw [countP_freed held live, ← exact.frees]
        rfl

theorem Exact.classify
    (exact : Exact scope leases) :
    Exact (classifyAllocation record scope geometry) leases := by
  obtain ⟨operationIndex, pendingOrdinal, pendingIsScratch, allocationStates, same⟩ :=
    classifyAllocation_frame record scope geometry
  rw [same]
  exact ⟨exact.liveRequested, exact.liveCharged, exact.scratchRequested,
    exact.scratchCharged, exact.allocations, exact.scratchAllocations, exact.frees⟩

theorem Exact.at_index
    (exact : Exact scope leases) (operationIndex : Nat) :
    Exact { scope with operationIndex := operationIndex } leases :=
  ⟨exact.liveRequested, exact.liveCharged, exact.scratchRequested, exact.scratchCharged,
    exact.allocations, exact.scratchAllocations, exact.frees⟩

/-- Every step keeps the counters exact. -/
theorem Exact.step
    (enforced : record.enforceContract = true)
    (exact : Exact execution.scope execution.leases)
    (stepped : step record execution event = .ok last) :
    Exact last.scope last.leases := by
  cases event with
  | allocate geometry =>
      obtain ⟨scope, valid, rfl⟩ := allocate_ok_iff.mp stepped
      obtain ⟨-, -, -, rfl, -⟩ := (validateAllocation_ok_iff enforced).mp valid
      exact exact.classify.commit
  | free allocation =>
      obtain ⟨lease, scope, held, live, released, rfl⟩ := free_ok_iff.mp stepped
      obtain ⟨operationIndex, rfl⟩ := releaseAllocation_ok released
      exact (exact.at_index operationIndex).uncharge held live

/-! ## Peaks -/

/-- The last event of a run. -/
theorem run_concat_ok_iff {first : Execution} :
    run record first (before ++ [event]) = .ok last ↔
      ∃ middle, run record first before = .ok middle ∧
        step record middle event = .ok last := by
  induction before generalizing first with
  | nil =>
      rw [List.nil_append, run_cons_ok_iff]
      simp
  | cons head before inductionHypothesis =>
      rw [List.cons_append, run_cons_ok_iff]
      constructor
      · rintro ⟨next, stepped, rest⟩
        obtain ⟨middle, reached, final⟩ := inductionHypothesis.mp rest
        exact ⟨middle, run_cons_ok_iff.mpr ⟨next, stepped, reached⟩, final⟩
      · rintro ⟨middle, reached, final⟩
        obtain ⟨next, stepped, rest⟩ := run_cons_ok_iff.mp reached
        exact ⟨next, stepped, inductionHypothesis.mpr ⟨middle, rest, final⟩⟩

/-- The sums met by a run of the task, from its start on. -/
def totals (record : Record) (measure : List Lease → Nat) (before : List Event) : Set Nat :=
  { total | ∃ earlier execution, earlier <+: before ∧
      run record (enterTask record) earlier = .ok execution ∧
      total = measure execution.leases }

theorem totals_nil (measure : List Lease → Nat) :
    totals record measure [] = {measure []} := by
  ext total
  constructor
  · rintro ⟨earlier, execution, isPrefix, ran, rfl⟩
    obtain rfl := List.prefix_nil.mp isPrefix
    cases ran
    rfl
  · rintro rfl
    exact ⟨[], enterTask record, List.prefix_rfl, rfl, rfl⟩

theorem totals_concat {measure : List Lease → Nat}
    (ran : run record (enterTask record) (before ++ [event]) = .ok last) :
    totals record measure (before ++ [event]) =
      insert (measure last.leases) (totals record measure before) := by
  ext total
  rw [Set.mem_insert_iff]
  constructor
  · rintro ⟨earlier, execution, isPrefix, reached, rfl⟩
    rcases List.prefix_concat_iff.mp isPrefix with rfl | shorter
    · rw [ran] at reached
      cases reached
      exact Or.inl rfl
    · exact Or.inr ⟨earlier, execution, shorter, reached, rfl⟩
  · rintro (rfl | ⟨earlier, execution, isPrefix, reached, rfl⟩)
    · exact ⟨before ++ [event], last, List.prefix_rfl, ran, rfl⟩
    · exact ⟨earlier, execution, isPrefix.trans (List.prefix_append before [event]),
        reached, rfl⟩

/-- Every peak is the greatest sum the run has met. -/
structure Peaks (record : Record) (before : List Event) (scope : Scope) : Prop where
  requested : IsGreatest
    (totals record (liveBytes Geometry.requestedBytes) before) scope.peakRequested
  charged : IsGreatest
    (totals record (liveBytes Geometry.chargedBytes) before) scope.peakCharged
  scratch : IsGreatest
    (totals record (scratchBytes Geometry.chargedBytes) before) scope.scratchPeakCharged

theorem peaks_enterScope (record : Record) : Peaks record [] (enterScope record) := by
  constructor
  · rw [totals_nil]
    exact isGreatest_singleton
  · rw [totals_nil]
    exact isGreatest_singleton
  · rw [totals_nil]
    exact isGreatest_singleton

/-- The sum a run stands at is one it has met. -/
theorem mem_totals {measure : List Lease → Nat}
    (ran : run record (enterTask record) before = .ok execution) :
    measure execution.leases ∈ totals record measure before :=
  ⟨before, execution, List.prefix_rfl, ran, rfl⟩

/-- A new peak is the larger of the old one and the new sum. -/
theorem greatest_concat {measure : List Lease → Nat} {peak newPeak : Nat}
    (ran : run record (enterTask record) (before ++ [event]) = .ok last)
    (greatest : IsGreatest (totals record measure before) peak)
    (larger : newPeak = max peak (measure last.leases)) :
    IsGreatest (totals record measure (before ++ [event])) newPeak := by
  rw [totals_concat ran, larger, max_comm]
  exact greatest.insert _

/-- A sum that does not grow leaves the peak where it is. -/
theorem greatest_concat_of_le {measure : List Lease → Nat} {peak : Nat}
    (ran : run record (enterTask record) (before ++ [event]) = .ok last)
    (reached : run record (enterTask record) before = .ok execution)
    (greatest : IsGreatest (totals record measure before) peak)
    (le : measure last.leases ≤ measure execution.leases) :
    IsGreatest (totals record measure (before ++ [event])) peak := by
  apply greatest_concat ran greatest
  have bounded := greatest.2 (mem_totals reached)
  exact (max_eq_left (le.trans bounded)).symm

/-- Taking a lease out of the counters never raises a peak. -/
theorem uncharge_peaks (scope : Scope) (lease : Lease) :
    (uncharge scope lease).peakRequested = scope.peakRequested ∧
      (uncharge scope lease).peakCharged = scope.peakCharged ∧
      (uncharge scope lease).scratchPeakCharged = scope.scratchPeakCharged := by
  unfold uncharge
  dsimp only
  split
  · exact ⟨rfl, rfl, rfl⟩
  · exact ⟨rfl, rfl, rfl⟩

/-- A free never raises a sum. -/
theorem countedBytes_set_le
    (held : leases[allocation]? = some lease) (stops : counted lease.freed = false) :
    countedBytes counted bytes (leases.set allocation lease.freed) ≤
      countedBytes counted bytes leases := by
  cases counts : counted lease with
  | true =>
      rw [← countedBytes_set held counts stops]
      exact Nat.le_add_right _ _
  | false => exact (countedBytes_set_other held counts stops).le

theorem settlePending_peaks (scope : Scope) (geometry : Geometry) :
    (settlePending scope geometry).peakRequested = scope.peakRequested ∧
      (settlePending scope geometry).peakCharged = scope.peakCharged ∧
      (settlePending scope geometry).scratchPeakCharged =
        if allocationIsScratch scope then
          max scope.scratchPeakCharged (scope.scratchLiveCharged + geometry.chargedBytes)
        else scope.scratchPeakCharged := by
  unfold settlePending allocationIsScratch
  split
  · exact ⟨rfl, rfl, rfl⟩
  · split
    · exact ⟨rfl, rfl, rfl⟩
    · exact ⟨rfl, rfl, rfl⟩

/-- Every step keeps the peaks the greatest sums. -/
theorem Peaks.step
    (enforced : record.enforceContract = true)
    (reached : run record (enterTask record) before = .ok execution)
    (exact : Exact execution.scope execution.leases)
    (peaks : Peaks record before execution.scope)
    (stepped : step record execution event = .ok last) :
    Peaks record (before ++ [event]) last.scope := by
  have ran := run_concat_ok_iff.mpr ⟨execution, reached, stepped⟩
  cases event with
  | allocate geometry =>
      obtain ⟨scope, valid, rfl⟩ := allocate_ok_iff.mp stepped
      obtain ⟨-, -, -, rfl, -⟩ := (validateAllocation_ok_iff enforced).mp valid
      have classified := @Exact.classify record _ _ geometry exact
      obtain ⟨operationIndex, pendingOrdinal, pendingIsScratch, allocationStates, same⟩ :=
        classifyAllocation_frame record execution.scope geometry
      obtain ⟨requested, charged, scratch⟩ := settlePending_peaks
        (classifyAllocation record execution.scope geometry) geometry
      obtain ⟨liveRequested, liveCharged, -, -⟩ := settlePending_live
        (classifyAllocation record execution.scope geometry) geometry
      constructor
      case requested =>
        apply greatest_concat ran peaks.requested
        show max (settlePending _ geometry).peakRequested
          ((settlePending _ geometry).liveRequested + geometry.requestedBytes) = _
        rw [requested, liveRequested, classified.liveRequested, liveBytes_append_new, same]
      case charged =>
        apply greatest_concat ran peaks.charged
        show max (settlePending _ geometry).peakCharged
          ((settlePending _ geometry).liveCharged + geometry.chargedBytes) = _
        rw [charged, liveCharged, classified.liveCharged, liveBytes_append_new, same]
      case scratch =>
        show IsGreatest _ (settlePending _ geometry).scratchPeakCharged
        rw [scratch]
        cases isScratch : allocationIsScratch
            (classifyAllocation record execution.scope geometry) with
        | true =>
            apply greatest_concat ran peaks.scratch
            rw [classified.scratchCharged, scratchBytes_append_new, isScratch, same]
            rfl
        | false =>
            have peak_eq : (classifyAllocation record execution.scope
                geometry).scratchPeakCharged = execution.scope.scratchPeakCharged := by
              rw [same]
            simp only [Bool.false_eq_true, if_false, peak_eq]
            apply greatest_concat_of_le ran reached peaks.scratch
            rw [scratchBytes_append_new, isScratch]
            exact Nat.le_refl _
  | free allocation =>
      obtain ⟨lease, scope, held, live, released, rfl⟩ := free_ok_iff.mp stepped
      obtain ⟨operationIndex, rfl⟩ := releaseAllocation_ok released
      obtain ⟨requested, charged, scratch⟩ :=
        uncharge_peaks { execution.scope with operationIndex := operationIndex } lease
      constructor
      case requested =>
        rw [requested]
        exact greatest_concat_of_le ran reached peaks.requested
          (countedBytes_set_le held rfl)
      case charged =>
        rw [charged]
        exact greatest_concat_of_le ran reached peaks.charged
          (countedBytes_set_le held rfl)
      case scratch =>
        rw [scratch]
        exact greatest_concat_of_le ran reached peaks.scratch
          (countedBytes_set_le held rfl)

/-- The counters of a run of the task. -/
theorem run_counters
    (enforced : record.enforceContract = true)
    (ran : run record (enterTask record) before = .ok execution) :
    Exact execution.scope execution.leases ∧ Peaks record before execution.scope := by
  induction before using List.reverseRecOn generalizing execution with
  | nil =>
      cases ran
      exact ⟨exact_enterScope record, peaks_enterScope record⟩
  | append_singleton before event inductionHypothesis =>
      obtain ⟨middle, reached, stepped⟩ := run_concat_ok_iff.mp ran
      obtain ⟨exact, peaks⟩ := inductionHypothesis reached
      exact ⟨exact.step enforced stepped, peaks.step enforced reached exact stepped⟩

end ShadowSpill.Runtime.ContractAccounting
