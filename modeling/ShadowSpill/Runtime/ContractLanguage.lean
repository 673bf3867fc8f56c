import ShadowSpill.Runtime.AllocationContracts

/-!
# The language of a contract

Which traces a contract allows, said without the scope that follows it.  A trace of the
language is the contract with some optional allocations and their frees left out,
interleaved with scratch (`Interleaves`).  One reading of a trace is the first-fit one
(`Reads`): every request takes the first step of its geometry that can be reached by
leaving steps out, and is scratch only where there is none.
-/

namespace ShadowSpill.Runtime.ContractLanguage

open AllocationContracts

/-! ## Leaving steps out -/

/-- Leave one step out, given the allocations left out before it: an optional
allocation, or the free of an allocation that was left out. -/
def leaveOut (omitted : List Nat) (step : ContractStep) : Option (List Nat) :=
  match step.operation with
  | .allocate => if step.required then none else some (step.ordinal :: omitted)
  | .free => if step.ordinal ∈ omitted then some omitted else none

/-- Leave several steps out, in order. -/
def leaveAllOut : List Nat → List ContractStep → Option (List Nat)
  | omitted, [] => some omitted
  | omitted, step :: rest =>
    match leaveOut omitted step with
    | some onward => leaveAllOut onward rest
    | none => none

/-- `step` is the first allocation of the geometry ahead, and what stands before it can
be left out. -/
structure FirstFit
    (omitted : List Nat) (ahead : List ContractStep) (geometry : Geometry)
    (skipped : List ContractStep) (step : ContractStep) (rest : List ContractStep)
    (onward : List Nat) : Prop where
  split : ahead = skipped ++ step :: rest
  allocates : step.operation = .allocate
  fits : step.geometry = geometry
  first : ∀ passed ∈ skipped,
    passed.operation = .allocate → passed.geometry ≠ geometry
  leaves : leaveAllOut omitted skipped = some onward

/-- Some allocation of the geometry is reached by leaving out what stands before it. -/
def Reachable (omitted : List Nat) (ahead : List ContractStep) (geometry : Geometry) : Prop :=
  ∃ skipped step rest, ahead = skipped ++ step :: rest ∧
    step.operation = .allocate ∧ step.geometry = geometry ∧
    (leaveAllOut omitted skipped).isSome

/-! ## Live bytes and limits -/

/-- The bytes of the allocations that count. -/
def countedBytes (counted : Lease → Bool) (bytes : Geometry → Nat) : List Lease → Nat
  | [] => 0
  | lease :: leases =>
    (if counted lease then bytes lease.geometry else 0) + countedBytes counted bytes leases

/-- The bytes of the live allocations. -/
def liveBytes (bytes : Geometry → Nat) (leases : List Lease) : Nat :=
  countedBytes (fun lease => lease.live) bytes leases

/-- The bytes of the live scratch allocations. -/
def scratchBytes (bytes : Geometry → Nat) (leases : List Lease) : Nat :=
  countedBytes (fun lease => lease.live && lease.scratch) bytes leases

/-- A limit of zero allows everything. -/
def Within (limit bytes : Nat) : Prop := limit = 0 ∨ bytes ≤ limit

/-- A request with a size, inside the envelope of the task. -/
structure Fits (record : Record) (leases : List Lease) (geometry : Geometry) : Prop where
  requested_pos : 0 < geometry.requestedBytes
  charged_pos : 0 < geometry.chargedBytes
  alignment_pos : 0 < geometry.alignmentBytes
  maximumRequested : Within record.maximumRequested geometry.requestedBytes
  maximumCharged : Within record.maximumCharged geometry.chargedBytes
  liveRequested : Within record.liveRequestedLimit
    (liveBytes Geometry.requestedBytes leases + geometry.requestedBytes)
  liveCharged : Within record.liveChargedLimit
    (liveBytes Geometry.chargedBytes leases + geometry.chargedBytes)

/-- A scratch request inside the scratch limits. -/
structure ScratchFits (record : Record) (leases : List Lease) (geometry : Geometry) :
    Prop where
  maximum : Within record.scratchMaximum geometry.chargedBytes
  live : scratchBytes Geometry.chargedBytes leases + geometry.chargedBytes ≤
    record.scratchLiveLimit

/-! ## The language -/

/-- How far a trace has come: the steps still ahead, the allocations left out, and what
the trace allocated. -/
structure Place where
  rest : List ContractStep
  omitted : List Nat
  leases : List Lease

/-- The lease of a step of the contract. -/
def contractLease (step : ContractStep) : Lease :=
  ⟨step.geometry, some step.ordinal, false, true⟩

def scratchLease (geometry : Geometry) : Lease := ⟨geometry, none, true, true⟩

/-- The contract with some optional allocations and their frees left out, interleaved
with scratch allocations within the scratch limits and their frees. -/
inductive Interleaves (record : Record) : Place → List Event → Prop where
  | finish {omitted leases} :
      Interleaves record ⟨[], omitted, leases⟩ []
  | leaveOut {step rest omitted onward leases trace}
      (leaves : leaveOut omitted step = some onward)
      (tail : Interleaves record ⟨rest, onward, leases⟩ trace) :
      Interleaves record ⟨step :: rest, omitted, leases⟩ trace
  | allocate {step rest omitted leases trace}
      (allocates : step.operation = .allocate)
      (tail : Interleaves record ⟨rest, omitted, leases ++ [contractLease step]⟩ trace) :
      Interleaves record ⟨step :: rest, omitted, leases⟩ (.allocate step.geometry :: trace)
  | free {step rest omitted leases allocation lease trace}
      (held : leases[allocation]? = some lease) (live : lease.live = true)
      (frees : step.operation = .free) (own : lease.ordinal = some step.ordinal)
      (tail : Interleaves record
        ⟨rest, omitted, leases.set allocation lease.freed⟩ trace) :
      Interleaves record ⟨step :: rest, omitted, leases⟩ (.free allocation :: trace)
  | scratch {rest omitted leases geometry trace}
      (scratchFits : ScratchFits record leases geometry)
      (tail : Interleaves record ⟨rest, omitted, leases ++ [scratchLease geometry]⟩ trace) :
      Interleaves record ⟨rest, omitted, leases⟩ (.allocate geometry :: trace)
  | scratchFree {rest omitted leases allocation lease trace}
      (held : leases[allocation]? = some lease) (live : lease.live = true)
      (isScratch : lease.scratch = true)
      (tail : Interleaves record
        ⟨rest, omitted, leases.set allocation lease.freed⟩ trace) :
      Interleaves record ⟨rest, omitted, leases⟩ (.free allocation :: trace)

/-- Every trace of the contract's language. -/
def InLanguage (record : Record) (trace : List Event) : Prop :=
  Interleaves record ⟨record.steps, [], []⟩ trace

/-! ## The first-fit reading -/

/-- The first-fit reading of a trace.  A strict reading leaves no optional allocation
out on the way to a free. -/
inductive Reads (strict : Prop) (record : Record) : Place → List Event → Prop where
  | finish {rest omitted leases}
      (leaves : (leaveAllOut omitted rest).isSome) :
      Reads strict record ⟨rest, omitted, leases⟩ []
  | allocate {ahead skipped step rest omitted onward leases geometry trace}
      (fit : FirstFit omitted ahead geometry skipped step rest onward)
      (fits : Fits record leases geometry)
      (tail : Reads strict record ⟨rest, onward, leases ++ [contractLease step]⟩ trace) :
      Reads strict record ⟨ahead, omitted, leases⟩ (.allocate geometry :: trace)
  | scratch {rest omitted leases geometry trace}
      (unreachable : ¬ Reachable omitted rest geometry)
      (fits : Fits record leases geometry)
      (scratchFits : ScratchFits record leases geometry)
      (tail : Reads strict record ⟨rest, omitted, leases ++ [scratchLease geometry]⟩ trace) :
      Reads strict record ⟨rest, omitted, leases⟩ (.allocate geometry :: trace)
  | free {skipped step rest omitted onward leases allocation lease trace}
      (held : leases[allocation]? = some lease) (live : lease.live = true)
      (leaves : leaveAllOut omitted skipped = some onward)
      (close : strict → ∀ passed ∈ skipped, passed.operation = .free)
      (frees : step.operation = .free) (own : lease.ordinal = some step.ordinal)
      (tail : Reads strict record
        ⟨rest, onward, leases.set allocation lease.freed⟩ trace) :
      Reads strict record ⟨skipped ++ step :: rest, omitted, leases⟩
        (.free allocation :: trace)
  | scratchFree {rest omitted leases allocation lease trace}
      (held : leases[allocation]? = some lease) (live : lease.live = true)
      (isScratch : lease.scratch = true)
      (tail : Reads strict record
        ⟨rest, omitted, leases.set allocation lease.freed⟩ trace) :
      Reads strict record ⟨rest, omitted, leases⟩ (.free allocation :: trace)

/-- The trace has a first-fit reading of the whole contract. -/
def ReadsFirstFit (strict : Prop) (record : Record) (trace : List Event) : Prop :=
  Reads strict record ⟨record.steps, [], []⟩ trace

variable {record : Record} {place : Place} {trace : List Event}

/-! ## Steps left out -/

@[simp] theorem leaveAllOut_nil (omitted : List Nat) : leaveAllOut omitted [] = some omitted :=
  rfl

theorem leaveAllOut_cons_some_iff
    {omitted last : List Nat} {step : ContractStep} {rest : List ContractStep} :
    leaveAllOut omitted (step :: rest) = some last ↔
      ∃ onward, leaveOut omitted step = some onward ∧
        leaveAllOut onward rest = some last := by
  simp only [leaveAllOut]
  cases leaveOut omitted step with
  | none => simp
  | some onward => simp

theorem leaveAllOut_append
    {omitted middle : List Nat} {before after : List ContractStep}
    (leaves : leaveAllOut omitted before = some middle) :
    leaveAllOut omitted (before ++ after) = leaveAllOut middle after := by
  induction before generalizing omitted with
  | nil =>
      cases leaves
      rfl
  | cons step before inductionHypothesis =>
      obtain ⟨onward, left, rest⟩ := leaveAllOut_cons_some_iff.mp leaves
      simp only [List.cons_append, leaveAllOut, left]
      exact inductionHypothesis rest

/-- An allocation left out is one of the steps left out. -/
theorem leaveOut_mem
    {omitted onward : List Nat} {step : ContractStep} {ordinal : Nat}
    (leaves : leaveOut omitted step = some onward) (mem : ordinal ∈ onward) :
    ordinal ∈ omitted ∨ (step.operation = .allocate ∧ step.ordinal = ordinal) := by
  unfold leaveOut at leaves
  split at leaves
  case h_1 allocates =>
    split at leaves
    · cases leaves
    · cases leaves
      rcases List.mem_cons.mp mem with same | earlier
      · exact Or.inr ⟨allocates, same.symm⟩
      · exact Or.inl earlier
  case h_2 =>
    split at leaves
    · cases leaves
      exact Or.inl mem
    · cases leaves

theorem leaveAllOut_mem
    {omitted onward : List Nat} {skipped : List ContractStep} {ordinal : Nat}
    (leaves : leaveAllOut omitted skipped = some onward) (mem : ordinal ∈ onward) :
    ordinal ∈ omitted ∨
      ∃ passed ∈ skipped, passed.operation = .allocate ∧ passed.ordinal = ordinal := by
  induction skipped generalizing omitted with
  | nil =>
      cases leaves
      exact Or.inl mem
  | cons step skipped inductionHypothesis =>
      obtain ⟨middle, left, leaves⟩ := leaveAllOut_cons_some_iff.mp leaves
      rcases inductionHypothesis leaves with earlier | ⟨passed, found, allocates⟩
      · rcases leaveOut_mem left earlier with first | here
        · exact Or.inl first
        · exact Or.inr ⟨step, List.mem_cons_self, here⟩
      · exact Or.inr ⟨passed, List.mem_cons_of_mem step found, allocates⟩

/-! ## Readings are interleavings -/

/-- Steps that can be left out are left out one by one. -/
theorem Interleaves.leaveAll
    {skipped rest : List ContractStep} {omitted onward : List Nat} {leases : List Lease}
    (leaves : leaveAllOut omitted skipped = some onward)
    (tail : Interleaves record ⟨rest, onward, leases⟩ trace) :
    Interleaves record ⟨skipped ++ rest, omitted, leases⟩ trace := by
  induction skipped generalizing omitted with
  | nil =>
      cases leaves
      exact tail
  | cons step skipped inductionHypothesis =>
      obtain ⟨next, left, others⟩ := leaveAllOut_cons_some_iff.mp leaves
      exact Interleaves.leaveOut left (inductionHypothesis others)

/-- A first-fit reading puts the trace in the language. -/
theorem Reads.interleaves {strict : Prop}
    (reads : Reads strict record place trace) : Interleaves record place trace := by
  induction reads with
  | @finish rest omitted leases leaves =>
      obtain ⟨onward, leaves⟩ := Option.isSome_iff_exists.mp leaves
      rw [← List.append_nil rest]
      exact Interleaves.leaveAll leaves Interleaves.finish
  | allocate fit fits tail inductionHypothesis =>
      obtain ⟨split, allocates, same, -, leaves⟩ := fit
      subst split same
      exact Interleaves.leaveAll leaves (Interleaves.allocate allocates inductionHypothesis)
  | scratch unreachable fits scratchFits tail inductionHypothesis =>
      exact Interleaves.scratch scratchFits inductionHypothesis
  | free held live leaves close frees own tail inductionHypothesis =>
      exact Interleaves.leaveAll leaves
        (Interleaves.free held live frees own inductionHypothesis)
  | scratchFree held live isScratch tail inductionHypothesis =>
      exact Interleaves.scratchFree held live isScratch inductionHypothesis

/-- A strict reading is a reading. -/
theorem Reads.lenient {strict : Prop}
    (reads : Reads strict record place trace) : Reads False record place trace := by
  induction reads with
  | finish leaves => exact Reads.finish leaves
  | allocate fit fits tail inductionHypothesis =>
      exact Reads.allocate fit fits inductionHypothesis
  | scratch unreachable fits scratchFits tail inductionHypothesis =>
      exact Reads.scratch unreachable fits scratchFits inductionHypothesis
  | free held live leaves close frees own tail inductionHypothesis =>
      exact Reads.free held live leaves False.elim frees own inductionHypothesis
  | scratchFree held live isScratch tail inductionHypothesis =>
      exact Reads.scratchFree held live isScratch inductionHypothesis

end ShadowSpill.Runtime.ContractLanguage
