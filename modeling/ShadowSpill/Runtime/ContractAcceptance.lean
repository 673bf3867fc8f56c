import ShadowSpill.Runtime.ContractTracking

/-!
# What the matcher accepts

A task's trace is accepted exactly if its strict first-fit reading covers the contract.
Every accepted trace is therefore in the language of the contract; the converse holds
only for traces that are read first-fit.  On the way the counters are exact and every
allocation of the contract keeps its own ordinal.
-/

namespace ShadowSpill.Runtime.ContractAcceptance

open AllocationContracts ContractLanguage ContractAccounting ContractTracking

variable {record : Record} {execution last : Execution} {place : Place}
variable {event : Event} {before trace : List Event}

/-! ## One event -/

/-- An accepted event is read by one rule of the strict reading. -/
theorem step_reads
    (wellFormed : WellFormed record) (tracks : Tracks record execution place)
    (accepted : step record execution event = .ok last) :
    ∃ next, Tracks record last next ∧
      ∀ trace, Reads True record next trace → Reads True record place (event :: trace) := by
  cases event with
  | allocate geometry =>
      obtain ⟨fits, scratch_fits⟩ := tracks.fits_of_ok wellFormed accepted
      rcases tracks.classify wellFormed geometry with
        ⟨skipped, step, rest, onward, fit, -⟩ | ⟨unreachable, isScratch, -⟩
      · obtain ⟨reached, accepted_too, tracks_next⟩ :=
          tracks.allocate_matched wellFormed fit fits
        have same := Except.ok.inj (accepted_too.symm.trans accepted)
        subst same
        exact ⟨_, tracks_next, fun trace tail => Reads.allocate fit fits tail⟩
      · have scratchFits := scratch_fits isScratch
        obtain ⟨reached, accepted_too, tracks_next⟩ :=
          tracks.allocate_scratch wellFormed unreachable fits scratchFits
        have same := Except.ok.inj (accepted_too.symm.trans accepted)
        subst same
        exact ⟨_, tracks_next, fun trace tail =>
          Reads.scratch unreachable fits scratchFits tail⟩
  | free allocation =>
      obtain ⟨lease, scope, held, live, -, -⟩ := free_ok_iff.mp accepted
      rw [← tracks.leases] at held
      cases isScratch : lease.scratch with
      | true =>
          obtain ⟨reached, accepted_too, tracks_next⟩ :=
            tracks.free_scratch held live isScratch
          have same := Except.ok.inj (accepted_too.symm.trans accepted)
          subst same
          exact ⟨_, tracks_next, fun trace tail =>
            Reads.scratchFree held live isScratch tail⟩
      | false =>
          obtain ⟨step, rest, split, frees, own⟩ :=
            tracks.expected_of_free_ok wellFormed held isScratch accepted
          obtain ⟨reached, accepted_too, tracks_next⟩ :=
            tracks.free_expected wellFormed held live split frees own
          have same := Except.ok.inj (accepted_too.symm.trans accepted)
          subst same
          refine ⟨_, tracks_next, fun trace tail => ?_⟩
          have whole : place.rest =
              place.rest.takeWhile (ContractMatching.omittedFree place.omitted) ++
                step :: rest := by
            rw [← split]
            exact List.takeWhile_append_dropWhile.symm
          have reads := @Reads.free True record _ step rest place.omitted place.omitted
            place.leases allocation lease trace held live
            (ContractMatching.leaveAllOut_takeFrees place.omitted place.rest)
            (fun _ passed mem =>
              (ContractMatching.omittedFree_iff.mp (List.mem_takeWhile_imp mem)).1)
            frees own tail
          rw [← whole] at reads
          exact reads

/-! ## Runs -/

/-- A run that completes its contract is read strictly. -/
theorem reads_of_run
    (wellFormed : WellFormed record) (tracks : Tracks record execution place)
    (ran : run record execution trace = .ok last)
    (complete : validateComplete record last.scope = true) :
    Reads True record place trace := by
  induction trace generalizing execution place with
  | nil =>
      cases ran
      exact Reads.finish ((tracks.complete_iff wellFormed).mp complete)
  | cons event trace inductionHypothesis =>
      obtain ⟨next, accepted, ran⟩ := run_cons_ok_iff.mp ran
      obtain ⟨next_place, tracks_next, reads⟩ := step_reads wellFormed tracks accepted
      exact reads trace (inductionHypothesis tracks_next ran)

/-- A strict reading is a run that completes its contract. -/
theorem run_of_reads
    (wellFormed : WellFormed record) (reads : Reads True record place trace)
    (tracks : Tracks record execution place) :
    ∃ last, run record execution trace = .ok last ∧
      validateComplete record last.scope = true := by
  induction reads generalizing execution with
  | finish leaves => exact ⟨execution, rfl, (tracks.complete_iff wellFormed).mpr leaves⟩
  | allocate fit fits tail inductionHypothesis =>
      obtain ⟨next, accepted, tracks_next⟩ := tracks.allocate_matched wellFormed fit fits
      obtain ⟨last, ran, complete⟩ := inductionHypothesis tracks_next
      exact ⟨last, run_cons_ok_iff.mpr ⟨next, accepted, ran⟩, complete⟩
  | scratch unreachable fits scratchFits tail inductionHypothesis =>
      obtain ⟨next, accepted, tracks_next⟩ :=
        tracks.allocate_scratch wellFormed unreachable fits scratchFits
      obtain ⟨last, ran, complete⟩ := inductionHypothesis tracks_next
      exact ⟨last, run_cons_ok_iff.mpr ⟨next, accepted, ran⟩, complete⟩
  | @free skipped step rest omitted onward leases allocation lease trace
      held live leaves close frees own tail inductionHypothesis =>
      obtain ⟨same, dropped⟩ :=
        ContractMatching.leaveAllOut_frees leaves (close trivial)
      subst same
      have own_ordinal := tracks.own lease (List.mem_of_getElem? held)
      unfold OwnOrdinal at own_ordinal
      rw [own] at own_ordinal
      have stays : ContractMatching.omittedFree onward step = false := by
        simp [ContractMatching.omittedFree, own_ordinal.2.1]
      have split : ContractMatching.dropFrees onward (skipped ++ step :: rest) =
          step :: rest := by
        rw [ContractMatching.dropFrees_split stays, dropped, List.nil_append]
      obtain ⟨next, accepted, tracks_next⟩ :=
        tracks.free_expected wellFormed held live split frees own
      obtain ⟨last, ran, complete⟩ := inductionHypothesis tracks_next
      exact ⟨last, run_cons_ok_iff.mpr ⟨next, accepted, ran⟩, complete⟩
  | scratchFree held live isScratch tail inductionHypothesis =>
      obtain ⟨next, accepted, tracks_next⟩ := tracks.free_scratch held live isScratch
      obtain ⟨last, ran, complete⟩ := inductionHypothesis tracks_next
      exact ⟨last, run_cons_ok_iff.mpr ⟨next, accepted, ran⟩, complete⟩

/-- Along a run the scope keeps to some place of the reading. -/
theorem run_tracks
    (wellFormed : WellFormed record) (tracks : Tracks record execution place)
    (ran : run record execution trace = .ok last) :
    ∃ reached, Tracks record last reached := by
  induction trace generalizing execution place with
  | nil =>
      cases ran
      exact ⟨place, tracks⟩
  | cons event trace inductionHypothesis =>
      obtain ⟨next, accepted, ran⟩ := run_cons_ok_iff.mp ran
      obtain ⟨next_place, tracks_next, -⟩ := step_reads wellFormed tracks accepted
      exact inductionHypothesis tracks_next ran

theorem accepts_iff :
    accepts record trace = true ↔ ∃ last, run record (enterTask record) trace = .ok last ∧
      validateComplete record last.scope = true := by
  unfold accepts
  cases run record (enterTask record) trace with
  | error refusal => simp
  | ok last => simp

/-- The matcher accepts exactly the strict first-fit readings. -/
theorem accepts_iff_reads (wellFormed : WellFormed record) :
    accepts record trace = true ↔ ReadsFirstFit True record trace := by
  rw [accepts_iff]
  constructor
  · rintro ⟨last, ran, complete⟩
    exact reads_of_run wellFormed wellFormed.tracks_enterTask ran complete
  · intro reads
    exact run_of_reads wellFormed reads wellFormed.tracks_enterTask

/-- A run through a trace is a run through each of its beginnings. -/
theorem run_prefix
    (ran : run record execution trace = .ok last) (isPrefix : before <+: trace) :
    ∃ middle, run record execution before = .ok middle := by
  obtain ⟨after, rfl⟩ := isPrefix
  induction before generalizing execution with
  | nil => exact ⟨execution, rfl⟩
  | cons event before inductionHypothesis =>
      obtain ⟨next, accepted, ran⟩ := run_cons_ok_iff.mp ran
      obtain ⟨middle, reached⟩ := inductionHypothesis ran
      exact ⟨middle, run_cons_ok_iff.mpr ⟨next, accepted, reached⟩⟩

/-! ## The claim of a contract -/

/-- What the scope and the leases of a task say about the events so far. -/
structure Accounted (record : Record) (before : List Event) (execution : Execution) :
    Prop where
  exact : Exact execution.scope execution.leases
  peaks : Peaks record before execution.scope
  covers : ∀ lease ∈ execution.leases, lease.live = true →
    lease.geometry.requestedBytes ≤ execution.scope.liveRequested ∧
      lease.geometry.chargedBytes ≤ execution.scope.liveCharged ∧
      (lease.scratch = true →
        lease.geometry.requestedBytes ≤ execution.scope.scratchLiveRequested ∧
          lease.geometry.chargedBytes ≤ execution.scope.scratchLiveCharged)
  own : ∀ lease ∈ execution.leases, lease.scratch = false →
    ∃ step ∈ record.steps, step.operation = .allocate ∧
      lease.ordinal = some step.ordinal ∧ step.geometry = lease.geometry
  distinct : (execution.leases.filterMap (·.ordinal)).Nodup

theorem run_accounted
    (wellFormed : WellFormed record)
    (ran : run record (enterTask record) before = .ok execution) :
    Accounted record before execution := by
  obtain ⟨exact, peaks⟩ := run_counters wellFormed.enforced ran
  obtain ⟨reached, tracks⟩ := run_tracks wellFormed wellFormed.tracks_enterTask ran
  constructor
  case exact => exact exact
  case peaks => exact peaks
  case covers => exact fun lease mem live => exact.covers mem live
  case own =>
    intro lease mem notScratch
    rw [← tracks.leases] at mem
    have own := tracks.own lease mem
    unfold OwnOrdinal at own
    cases ordinal : lease.ordinal with
    | none =>
        rw [ordinal, notScratch] at own
        cases own
    | some number =>
        rw [ordinal] at own
        obtain ⟨-, -, step, step_mem, allocates, same, geometry_eq⟩ := own
        exact ⟨step, step_mem, allocates, by rw [same], geometry_eq⟩
  case distinct =>
    rw [← tracks.leases]
    exact tracks.distinct

/-- The matcher and the language of a well-formed contract. -/
theorem accepts_language
    (valid : validContract record = true) (enforced : record.enforceContract = true)
    (trace : List Event) :
    (accepts record trace = true →
      ReadsFirstFit False record trace ∧ InLanguage record trace ∧
        ∀ before, before <+: trace → ∃ execution,
          run record (enterTask record) before = .ok execution ∧
            Accounted record before execution) ∧
    (ReadsFirstFit True record trace → accepts record trace = true) := by
  have wellFormed := wellFormed_of_valid valid enforced
  constructor
  · intro accepted
    have reads := (accepts_iff_reads wellFormed).mp accepted
    refine ⟨reads.lenient, reads.interleaves, ?_⟩
    intro before isPrefix
    obtain ⟨last, ran, -⟩ := accepts_iff.mp accepted
    obtain ⟨execution, reached⟩ := run_prefix ran isPrefix
    exact ⟨execution, reached, run_accounted wellFormed reached⟩
  · exact (accepts_iff_reads wellFormed).mpr

/-! ## A task that leaves an allocation out -/

def smallGeometry : Geometry := ⟨8, 8, 8⟩

def largeGeometry : Geometry := ⟨16, 16, 8⟩

/-- An optional allocation and its free around a required one, with room for four bytes of
scratch. -/
def servedRecord : Record where
  enforceContract := true
  steps := [⟨.allocate, 0, smallGeometry, false⟩, ⟨.allocate, 1, largeGeometry, true⟩,
    ⟨.free, 1, largeGeometry, false⟩, ⟨.free, 0, smallGeometry, false⟩]
  maximumRequested := 16
  maximumCharged := 16
  liveRequestedLimit := 24
  liveChargedLimit := 24
  scratchLiveLimit := 4
  scratchMaximum := 4

/-- The optional allocation is left out, and scratch outlives the required one. -/
def servedTrace : List Event :=
  [.allocate largeGeometry, .allocate ⟨4, 4, 4⟩, .free 0, .free 1]

theorem reads_servedTrace : ReadsFirstFit True servedRecord servedTrace := by
  have fit : FirstFit [] servedRecord.steps largeGeometry [⟨.allocate, 0, smallGeometry, false⟩]
      ⟨.allocate, 1, largeGeometry, true⟩
      [⟨.free, 1, largeGeometry, false⟩, ⟨.free, 0, smallGeometry, false⟩] [0] :=
    ⟨rfl, rfl, rfl, by decide, rfl⟩
  refine .allocate fit ⟨by decide, by decide, by decide, .inr (by decide), .inr (by decide),
    .inr (by decide), .inr (by decide)⟩ ?_
  refine .scratch ?_ ⟨by decide, by decide, by decide, .inr (by decide), .inr (by decide),
    .inr (by decide), .inr (by decide)⟩ ⟨.inr (by decide), by decide⟩ ?_
  · -- Only frees are ahead.
    rintro ⟨skipped, step, rest, split, allocates, -, -⟩
    have ahead : step ∈ skipped ++ step :: rest := by simp
    rw [← split] at ahead
    rcases List.mem_pair.mp ahead with rfl | rfl <;> cases allocates
  · refine @Reads.free True servedRecord [] _ _ [0] _ _ 0 _ _ rfl rfl rfl (fun _ => nofun) rfl
      rfl ?_
    exact .scratchFree rfl rfl rfl (.finish rfl)

theorem accepts_language_served :
    accepts servedRecord servedTrace = true ∧ InLanguage servedRecord servedTrace ∧
      ∃ execution, run servedRecord (enterTask servedRecord) (servedTrace.take 3) =
        .ok execution ∧ execution.scope.liveCharged = 4 ∧
          Accounted servedRecord (servedTrace.take 3) execution := by
  obtain ⟨sound, complete⟩ :=
    @accepts_language servedRecord (by decide) rfl servedTrace
  have accepted := complete reads_servedTrace
  obtain ⟨_, language, counts⟩ := sound accepted
  obtain ⟨execution, ran, accounted⟩ := counts (servedTrace.take 3) (List.take_prefix 3 _)
  have charged : (run servedRecord (enterTask servedRecord) (servedTrace.take 3)).toOption.map
      (·.scope.liveCharged) = some 4 := by decide
  rw [ran] at charged
  exact ⟨accepted, language, execution, ran, Option.some.inj charged, accounted⟩

/-! ## Contracts that can be read in two ways -/

/-- A record without an envelope. -/
def unboundedRecord (steps : List ContractStep) (scratchLiveLimit : Nat) : Record where
  enforceContract := true
  steps := steps
  maximumRequested := 0
  maximumCharged := 0
  liveRequestedLimit := 0
  liveChargedLimit := 0
  scratchLiveLimit := scratchLiveLimit
  scratchMaximum := 0

/-- An optional allocation before a required one of another geometry. -/
def optionalRecord : Record :=
  unboundedRecord
    [⟨.allocate, 0, smallGeometry, false⟩, ⟨.allocate, 1, largeGeometry, true⟩] 64

/-- An optional allocation before a required one of the same geometry. -/
def repeatedRecord : Record :=
  unboundedRecord
    [⟨.allocate, 0, smallGeometry, false⟩, ⟨.allocate, 1, smallGeometry, true⟩] 0

/-- An optional allocation before a free. -/
def heldRecord : Record :=
  unboundedRecord
    [⟨.allocate, 0, smallGeometry, true⟩, ⟨.allocate, 1, largeGeometry, false⟩,
      ⟨.free, 0, smallGeometry, false⟩] 0

/-- Traces of the language that are refused: a request goes to the first of two steps
of its geometry, scratch of a contract geometry is taken for the contract, and a free
does not step over an optional allocation. -/
theorem language_not_accepted :
    (validContract repeatedRecord = true ∧
      InLanguage repeatedRecord [.allocate smallGeometry] ∧
      accepts repeatedRecord [.allocate smallGeometry] = false) ∧
    (validContract optionalRecord = true ∧
      InLanguage optionalRecord
        [.allocate smallGeometry, .free 0, .allocate largeGeometry] ∧
      accepts optionalRecord
        [.allocate smallGeometry, .free 0, .allocate largeGeometry] = false) ∧
    (validContract heldRecord = true ∧
      InLanguage heldRecord [.allocate smallGeometry, .free 0] ∧
      accepts heldRecord [.allocate smallGeometry, .free 0] = false) := by
  refine ⟨⟨by decide, ?_, by decide⟩, ⟨by decide, ?_, by decide⟩,
    ⟨by decide, ?_, by decide⟩⟩
  · apply Interleaves.leaveOut rfl
    apply Interleaves.allocate rfl
    exact Interleaves.finish
  · have scratchFits : ScratchFits optionalRecord [] smallGeometry :=
      ⟨Or.inl rfl, by decide⟩
    apply Interleaves.scratch scratchFits
    apply Interleaves.scratchFree rfl rfl rfl
    apply Interleaves.leaveOut rfl
    apply Interleaves.allocate rfl
    exact Interleaves.finish
  · apply Interleaves.allocate rfl
    apply Interleaves.leaveOut rfl
    apply Interleaves.free rfl rfl rfl rfl
    exact Interleaves.finish

end ShadowSpill.Runtime.ContractAcceptance
