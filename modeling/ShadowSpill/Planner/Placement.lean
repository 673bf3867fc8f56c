import ShadowSpill.Library.Runs
import ShadowSpill.Status
import ShadowSpill.Planner.PlacementFit
import ShadowSpill.Planner.PlacementIndex
import ShadowSpill.Planner.PlacementLayout

/-!
# Fixed-offset placement

The entry point of the compiled placement and its loop over leases.  One turn
gathers the addresses its lease must clear, takes the lowest fit and records
the lease; `placeNext_placed` is what a turn keeps, and `placeRegion_layout`
what the whole loop gives: the layout in which each lease clears the earlier
leases its query sees.  Address arithmetic is 64-bit: the results hold while
the leases, each padded by its alignment, fit in a 64-bit address space
together.
-/

namespace ShadowSpill.Planner.Placement

open Library.AddressRanges Library.Coordinates Library.Runs Library.SegmentTree Library.Word64
open PlacementFit PlacementIndex PlacementLayout PlacementOrder

/-- The leases to place, and which of them to leave out.  Sizes of the axis and
of the index are 32-bit; this many leases never wrap them. -/
structure PlacementProblem where
  abiVersion : Nat
  lifetimes : List LeaseLifetime
  excluded : Option (List Nat)
  few : lifetimes.length < 2 ^ 29 := by decide

/-- The lease at an index is left out. -/
def PlacementProblem.isExcluded (problem : PlacementProblem) (index : Nat) :
    Bool :=
  match problem.excluded with
  | none => false
  | some mask => mask.getD index 0 ≠ 0

/-- The caller's offsets and the span the assignment covers. -/
structure PlacementResult where
  requiredBytes : Nat
  offsets : List Nat
deriving DecidableEq, Repr

/-- The state the placing loop carries. -/
structure Placer where
  offsets : List Nat
  requiredBytes : Nat
  index : OccupancyIndex

/-- One turn of the placing loop. -/
def placeNext (lifetimes : List LeaseLifetime) (axis : TimeAxis)
    (placer : Placer) (lifetime : Nat) : Option Placer :=
  let start := axis.startRank.getD lifetime 0
  let finish := axis.endRank.getD lifetime 0
  let record := lifetimes.getD lifetime default
  let length := placer.index.length
  (occupancyIndexCollect placer.index start finish length 1 0 length []).bind
    fun found =>
      (lowestFit found record.bytes record.alignment).bind fun offset =>
        (occupancyIndexInsert start finish offset record.bytes length
            placer.index 1 0 length).map fun index =>
          { offsets := placer.offsets.set lifetime offset
            requiredBytes :=
              if placer.requiredBytes < wrap (offset + record.bytes) then
                wrap (offset + record.bytes)
              else placer.requiredBytes
            index := index }

/-- `place_region`: every lease placed from offset zero. -/
def placeRegion (lifetimes : List LeaseLifetime) (offsets : List Nat) :
    Option PlacementResult :=
  if lifetimes.length = 0 then some ⟨0, offsets⟩
  else
    let axis := timeAxisBuild lifetimes
    ((placingIndices lifetimes axis).foldlM (placeNext lifetimes axis)
        ⟨offsets, 0, occupancyIndexCreate axis.times.length⟩).map
      fun placer => ⟨placer.requiredBytes, placer.offsets⟩

/-- `gather`: where the leases that are not left out come from. -/
def gather (problem : PlacementProblem) : List Nat :=
  (List.range problem.lifetimes.length).filter fun index =>
    !problem.isExcluded index

/-- The offsets of the gathered leases written back where they came from. -/
def scatter (offsets : List Nat) (sources placed : List Nat) : List Nat :=
  (sources.zip placed).foldl (fun out entry => out.set entry.1 entry.2) offsets

/-- `shadowspill_place_lifetimes`, over what the caller's result holds.  An
unfinished placement is reported as the source reports one it could not allocate
for. -/
def placeLifetimes (problem : PlacementProblem) (result : PlacementResult) :
    Status × PlacementResult :=
  if problem.abiVersion ≠ abiVersion then
    (.invalidArgument, result)
  else if problem.lifetimes.length = 0 then
    (.ok, ⟨0, result.offsets⟩)
  else
    match problem.excluded with
    | none =>
        match placeRegion problem.lifetimes result.offsets with
        | none => (.internalFailure, ⟨0, result.offsets⟩)
        | some placed => (.ok, placed)
    | some _ =>
        let sources := gather problem
        let records := sources.map fun index =>
          problem.lifetimes.getD index default
        match placeRegion records (List.replicate records.length 0) with
        | none => (.internalFailure, ⟨0, result.offsets⟩)
        | some placed =>
            (.ok, ⟨placed.requiredBytes, scatter result.offsets sources placed.offsets⟩)

/-! ## One turn of the loop -/

/-- The bytes a lease can add to the layout: its own and its alignment gap. -/
def paddedBytes (lease : LeaseLifetime) : Nat :=
  lease.bytes + (lease.alignment - 1)

/-- The later lease's query sees the earlier lease in the index. -/
def Sees (axis : TimeAxis) (earlier later : Nat) : Prop :=
  Seen axis.times.length 1 0 axis.times.length (axis.startRank.getD later 0)
    (axis.endRank.getD later 0) (axis.startRank.getD earlier 0)
    (axis.endRank.getD earlier 0)

section Region

variable {lifetimes : List LeaseLifetime}

/-- A placed lease as the index records it. -/
def leaseItem (lifetimes : List LeaseLifetime) (axis : TimeAxis)
    (offsets : List Nat) (index : Nat) : Item :=
  ⟨axis.startRank.getD index 0, axis.endRank.getD index 0,
    leaseRange lifetimes offsets index⟩

/-- The padded bytes of a set of leases. -/
def budget (lifetimes : List LeaseLifetime) (placed : List Nat) : Nat :=
  (placed.map fun index => paddedBytes (leaseAt lifetimes index)).sum

theorem budget_snoc (lifetimes : List LeaseLifetime) (placed : List Nat) (lifetime : Nat) :
    budget lifetimes (placed ++ [lifetime]) =
      budget lifetimes placed + paddedBytes (leaseAt lifetimes lifetime) := by
  simp [budget]

theorem start_mem_axis {index : Nat} (bound : index < lifetimes.length) :
    (leaseAt lifetimes index).startNs ∈ axisTimes lifetimes :=
  mem_axisTimes.mpr ⟨_, mem_leaseAt bound, Or.inl rfl⟩

theorem end_mem_axis {index : Nat} (bound : index < lifetimes.length) :
    (leaseAt lifetimes index).endNs ∈ axisTimes lifetimes :=
  mem_axisTimes.mpr ⟨_, mem_leaseAt bound, Or.inr rfl⟩

/-- The ranks of a lease can walk the tree over the axis. -/
theorem enters_axis
    (admissible : ∀ lease ∈ lifetimes, lease.Admissible)
    {index : Nat} (bound : index < lifetimes.length) :
    Enters ((timeAxisBuild lifetimes).startRank.getD index 0)
      ((timeAxisBuild lifetimes).endRank.getD index 0) 0
      (axisTimes lifetimes).length := by
  have bounds := (admissible _ (mem_leaseAt bound)).rank_bounds (mem_leaseAt bound)
  rw [startRank_eq bound, endRank_eq bound]
  unfold Enters
  omega

/-- The index holds the ranges of the leases placed so far, and none of them
wraps. -/
structure Tracks (lifetimes : List LeaseLifetime) (axis : TimeAxis)
    (passed : List Nat) (placer : Placer) : Prop where
  represents :
    Represents placer.index
      (passed.map (leaseItem lifetimes axis placer.offsets))
  within : ∀ index ∈ passed,
    (leaseRange lifetimes placer.offsets index).finish < modulus

/-- The tree spans the axis, and every lease has an offset. -/
structure Fitted (lifetimes : List LeaseLifetime) (axis : TimeAxis)
    (placer : Placer) : Prop where
  length_eq : placer.index.length = axis.times.length
  offsets_length : placer.offsets.length = lifetimes.length

/-- What the loop keeps.  Empty leases come last and are all put at the
bottom, so the index matters only up to the first of them. -/
structure Placed (lifetimes : List LeaseLifetime) (axis : TimeAxis)
    (passed : List Nat) (placer : Placer) : Prop extends
    Fitted lifetimes axis placer where
  layout : IsLayout lifetimes (Sees axis) passed placer.offsets
  required : placer.requiredBytes = span lifetimes placer.offsets passed
  inside : ∀ index ∈ passed,
    (leaseRange lifetimes placer.offsets index).finish ≤ budget lifetimes passed
  tracks : (∀ index ∈ passed, 0 < (leaseAt lifetimes index).bytes) →
    Tracks lifetimes axis passed placer

/-- Placing one more lease keeps the index in step. -/
theorem Tracks.snoc
    {axis : TimeAxis} {passed : List Nat} {placer : Placer}
    {lifetime offset requiredBytes : Nat} {index : OccupancyIndex}
    (tracks : Tracks lifetimes axis passed placer)
    (fresh : lifetime ∉ passed)
    (bound : lifetime < placer.offsets.length)
    (ends : offset + (leaseAt lifetimes lifetime).bytes < modulus)
    (represents : Represents index
      (⟨axis.startRank.getD lifetime 0, axis.endRank.getD lifetime 0,
          ⟨offset, offset + (leaseAt lifetimes lifetime).bytes⟩⟩ ::
        passed.map (leaseItem lifetimes axis placer.offsets))) :
    Tracks lifetimes axis (passed ++ [lifetime])
      ⟨placer.offsets.set lifetime offset, requiredBytes, index⟩ := by
  have self := leaseRange_set_self lifetimes offset bound
  have others : ∀ member ∈ passed,
      leaseRange lifetimes (placer.offsets.set lifetime offset) member =
        leaseRange lifetimes placer.offsets member := fun member mem =>
    leaseRange_set_ne fun equal => fresh (equal ▸ mem)
  constructor
  · have items : ∀ member ∈ passed,
        leaseItem lifetimes axis (placer.offsets.set lifetime offset) member =
          leaseItem lifetimes axis placer.offsets member := fun member mem => by
      rw [leaseItem, leaseItem, others member mem]
    refine represents.congr fun item => ?_
    rw [List.map_append, List.map_congr_left items, List.map_singleton,
      List.mem_append, List.mem_cons, List.mem_singleton, leaseItem, self]
    exact or_comm
  · intro member mem
    rcases List.mem_append.mp mem with early | last
    · rw [others member early]
      exact tracks.within member early
    · rw [List.mem_singleton.mp last, self]
      exact ends

/-- A turn always ends: it asks, fits, and records its lease. -/
theorem placeNext_some
    (admissible : ∀ lease ∈ lifetimes, lease.Admissible)
    {placer : Placer} {lifetime : Nat}
    (fitted : Fitted lifetimes (timeAxisBuild lifetimes) placer)
    (bound : lifetime < lifetimes.length) :
    ∃ found offset index,
      occupancyIndexCollect placer.index
          ((timeAxisBuild lifetimes).startRank.getD lifetime 0)
          ((timeAxisBuild lifetimes).endRank.getD lifetime 0)
          placer.index.length 1 0 placer.index.length [] = some found ∧
        lowestFit found (leaseAt lifetimes lifetime).bytes
          (leaseAt lifetimes lifetime).alignment = some offset ∧
        occupancyIndexInsert ((timeAxisBuild lifetimes).startRank.getD lifetime 0)
          ((timeAxisBuild lifetimes).endRank.getD lifetime 0) offset
          (leaseAt lifetimes lifetime).bytes placer.index.length placer.index 1 0
          placer.index.length = some index ∧
        placeNext lifetimes (timeAxisBuild lifetimes) placer lifetime =
          some ⟨placer.offsets.set lifetime offset,
            max placer.requiredBytes
              (wrap (offset + (leaseAt lifetimes lifetime).bytes)), index⟩ ∧
        ∀ required, Fitted lifetimes (timeAxisBuild lifetimes)
          ⟨placer.offsets.set lifetime offset, required, index⟩ := by
  have enters := enters_axis admissible bound
  change Enters _ _ 0 (timeAxisBuild lifetimes).times.length at enters
  rw [← fitted.length_eq] at enters
  have lengthPositive : 0 < placer.index.length := by
    unfold Enters at enters
    omega
  obtain ⟨found, gathered, nonempty⟩ := occupancyIndexCollect_nonempty
    placer.index ((timeAxisBuild lifetimes).startRank.getD lifetime 0)
    ((timeAxisBuild lifetimes).endRank.getD lifetime 0) lengthPositive
  obtain ⟨offset, result, _⟩ := lowestFit_spec found
    (leaseAt lifetimes lifetime).bytes (leaseAt lifetimes lifetime).alignment nonempty
  obtain ⟨index, inserted, _, length_eq⟩ :=
    occupancyIndexInsert_spec offset (leaseAt lifetimes lifetime).bytes
      placer.index.length placer.index 1 enters (by omega)
  refine ⟨found, offset, index, gathered, result, inserted, ?_, fun _ =>
    ⟨length_eq.trans fitted.length_eq, by simpa using fitted.offsets_length⟩⟩
  simp only [leaseAt] at result inserted
  simp only [placeNext, gathered, result, inserted, Option.bind_some, Option.map_some,
    leaseAt]
  congr 2
  rw [max_def]
  split_ifs <;> omega

/-- A turn that places a lease of positive size: as long as its sums stay within
64 bits it takes the lowest fit, and the index then holds it too. -/
theorem Tracks.placeNext
    (admissible : ∀ lease ∈ lifetimes, lease.Admissible)
    {passed : List Nat} {placer : Placer} {lifetime : Nat}
    (tracks : Tracks lifetimes (timeAxisBuild lifetimes) passed placer)
    (fitted : Fitted lifetimes (timeAxisBuild lifetimes) placer)
    (bound : lifetime < lifetimes.length)
    (fresh : lifetime ∉ passed)
    (positive : 0 < (leaseAt lifetimes lifetime).bytes)
    (small : (leaseAt lifetimes lifetime).alignment ≤ modulus) :
    ∃ offset index,
      placeNext lifetimes (timeAxisBuild lifetimes) placer lifetime =
          some ⟨placer.offsets.set lifetime offset,
            max placer.requiredBytes
              (wrap (offset + (leaseAt lifetimes lifetime).bytes)), index⟩ ∧
        (∀ required, Fitted lifetimes (timeAxisBuild lifetimes)
          ⟨placer.offsets.set lifetime offset, required, index⟩) ∧
        (∀ occupied : Nat → Prop,
          (∀ address, Taken lifetimes (Sees (timeAxisBuild lifetimes)) placer.offsets
            passed lifetime address ↔ occupied address) →
          Stays occupied (leaseAt lifetimes lifetime).bytes
            (leaseAt lifetimes lifetime).alignment offset →
          IsLowestFit occupied (leaseAt lifetimes lifetime).bytes
              (leaseAt lifetimes lifetime).alignment offset ∧
            Within occupied (leaseAt lifetimes lifetime).bytes
              (leaseAt lifetimes lifetime).alignment offset) ∧
        (offset + (leaseAt lifetimes lifetime).bytes < modulus →
          ∀ required, Tracks lifetimes (timeAxisBuild lifetimes)
            (passed ++ [lifetime])
            ⟨placer.offsets.set lifetime offset, required, index⟩) := by
  have aligned := (admissible _ (mem_leaseAt bound)).aligned
  have enters := enters_axis admissible bound
  change Enters _ _ 0 (timeAxisBuild lifetimes).times.length at enters
  rw [← fitted.length_eq] at enters
  obtain ⟨found, offset, index, gathered, result, inserted, placed, kept⟩ :=
    placeNext_some admissible fitted bound
  obtain ⟨found', gathered', formed, covers⟩ :=
    tracks.represents.collect
      ((timeAxisBuild lifetimes).startRank.getD lifetime 0)
      ((timeAxisBuild lifetimes).endRank.getD lifetime 0)
      (by unfold Enters at enters; omega)
  obtain rfl : found = found' := Option.some.inj (gathered.symm.trans gathered')
  have occupiedBy : ∀ address, Gathered found address ↔
      Taken lifetimes (Sees (timeAxisBuild lifetimes)) placer.offsets passed
        lifetime address := by
    intro address
    rw [Gathered, covers, fitted.length_eq]
    simp [Taken, Sees, Item.Seen, leaseItem]
  have ends : ∀ list ∈ found, ∀ range ∈ list, range.finish < modulus := by
    intro list mem range inList
    have nonempty := (formed list mem).1.nonempty range inList
    obtain ⟨earlier, inPassed, _, contains⟩ := (occupiedBy (range.finish - 1)).mp
      ⟨list, mem, range, inList, by unfold AddressRange.Contains; omega⟩
    have limit := tracks.within earlier inPassed
    have upper := contains.2
    omega
  obtain ⟨offset', result', fit⟩ := lowestFit_spec found
    (leaseAt lifetimes lifetime).bytes (leaseAt lifetimes lifetime).alignment
    (fun list mem => (formed list mem).2)
  obtain rfl : offset = offset' := Option.some.inj (result.symm.trans result')
  refine ⟨offset, index, placed, kept, ?_, ?_⟩
  · intro occupied same stays
    have equal : Gathered found = occupied :=
      funext fun address => propext ((occupiedBy address).trans (same address))
    subst equal
    exact fit positive aligned small (fun list mem => (formed list mem).1) ends stays
  · intro fits required
    obtain ⟨index', inserted', _, represents⟩ :=
      tracks.represents.insert ((timeAxisBuild lifetimes).startRank.getD lifetime 0)
        ((timeAxisBuild lifetimes).endRank.getD lifetime 0) offset
        (leaseAt lifetimes lifetime).bytes enters (by rw [wrap_eq fits]; omega)
    obtain rfl : index = index' := Option.some.inj (inserted.symm.trans inserted')
    rw [wrap_eq fits] at represents
    exact tracks.snoc fresh (by rwa [fitted.offsets_length]) fits represents

/-- Placing one more lease keeps the leases inside their budget. -/
theorem Placed.inside_snoc
    {axis : TimeAxis} {passed : List Nat} {placer : Placer} {lifetime offset : Nat}
    (placed : Placed lifetimes axis passed placer)
    (fresh : lifetime ∉ passed)
    (bound : lifetime < lifetimes.length)
    (below : offset + (leaseAt lifetimes lifetime).bytes ≤
      budget lifetimes (passed ++ [lifetime])) :
    ∀ index ∈ passed ++ [lifetime],
      (leaseRange lifetimes (placer.offsets.set lifetime offset) index).finish ≤
        budget lifetimes (passed ++ [lifetime]) := by
  intro index mem
  rcases List.mem_append.mp mem with early | last
  · have apart : index ≠ lifetime := fun equal => fresh (equal ▸ early)
    rw [leaseRange_set_ne apart, budget_snoc]
    have limit := placed.inside index early
    omega
  · rw [List.mem_singleton.mp last,
      leaseRange_set_self lifetimes offset (by rwa [placed.offsets_length])]
    exact below

/-- A turn that places a lease of positive size. -/
theorem placeNext_positive
    (admissible : ∀ lease ∈ lifetimes, lease.Admissible)
    {passed : List Nat} {placer : Placer} {lifetime : Nat}
    (placed : Placed lifetimes (timeAxisBuild lifetimes) passed placer)
    (bound : lifetime < lifetimes.length)
    (fresh : lifetime ∉ passed)
    (descending : ∀ earlier ∈ passed,
      (leaseAt lifetimes lifetime).bytes ≤ (leaseAt lifetimes earlier).bytes)
    (positive : 0 < (leaseAt lifetimes lifetime).bytes)
    (fits : budget lifetimes (passed ++ [lifetime]) < modulus) :
    ∃ next,
      placeNext lifetimes (timeAxisBuild lifetimes) placer lifetime = some next ∧
        Placed lifetimes (timeAxisBuild lifetimes) (passed ++ [lifetime]) next := by
  have aligned := (admissible _ (mem_leaseAt bound)).aligned
  have tracks := placed.tracks fun index mem =>
    positive.trans_le (descending index mem)
  have inOffsets : lifetime < placer.offsets.length := by
    rwa [placed.offsets_length]
  have budget_eq := budget_snoc lifetimes passed lifetime
  unfold paddedBytes at budget_eq
  obtain ⟨offset, index, turn, kept, lowest, tracked⟩ :=
    tracks.placeNext admissible placed.toFitted bound fresh positive (by omega)
  have early : ∀ address, Taken lifetimes (Sees (timeAxisBuild lifetimes))
      placer.offsets passed lifetime address → address < budget lifetimes passed := by
    rintro address ⟨earlier, inPassed, _, contains⟩
    exact contains.2.trans_le (placed.inside earlier inPassed)
  -- The end of the budget is always a candidate, so the fit is below it.
  obtain ⟨fit, fitLe, isLowest⟩ := exists_isLowestFit
    (leaseAt lifetimes lifetime).bytes aligned early
  have bump := alignUp_lt_add (budget lifetimes passed) aligned
  have stays : Within (Taken lifetimes (Sees (timeAxisBuild lifetimes))
      placer.offsets passed lifetime) (leaseAt lifetimes lifetime).bytes
      (leaseAt lifetimes lifetime).alignment fit := by
    refine ⟨by omega, fun address held _ => ?_⟩
    have below := early address held
    omega
  obtain ⟨isFit, -⟩ := lowest _ (fun _ => Iff.rfl) (Or.inl ⟨fit, isLowest, stays⟩)
  obtain rfl := isFit.unique isLowest
  rw [wrap_eq stays.ends] at turn
  refine ⟨_, turn, kept _, ?_, ?_, ?_, fun _ => tracked stays.ends _⟩
  · exact placed.layout.snoc fresh inOffsets (fun _ => isFit) (fun empty => by omega)
  · rw [span_snoc fresh inOffsets, placed.required]
  · exact placed.inside_snoc fresh bound (by omega)

/-- A turn that places an empty lease. -/
theorem placeNext_zero
    (admissible : ∀ lease ∈ lifetimes, lease.Admissible)
    {placer : Placer} {lifetime : Nat}
    (fitted : Fitted lifetimes (timeAxisBuild lifetimes) placer)
    (bound : lifetime < lifetimes.length)
    (zero : (leaseAt lifetimes lifetime).bytes = 0)
    (small : (leaseAt lifetimes lifetime).alignment ≤ modulus) :
    ∃ index,
      placeNext lifetimes (timeAxisBuild lifetimes) placer lifetime =
          some ⟨placer.offsets.set lifetime 0, placer.requiredBytes, index⟩ ∧
        Fitted lifetimes (timeAxisBuild lifetimes)
          ⟨placer.offsets.set lifetime 0, placer.requiredBytes, index⟩ := by
  obtain ⟨found, offset, index, _, result, _, turn, kept⟩ :=
    placeNext_some admissible fitted bound
  rw [zero] at result turn
  obtain rfl := lowestFit_zero small result
  exact ⟨index, by simpa [wrap] using turn, kept _⟩

/-- Every turn succeeds and keeps what the loop keeps. -/
theorem placeNext_placed
    (admissible : ∀ lease ∈ lifetimes, lease.Admissible)
    {passed : List Nat} {placer : Placer} {lifetime : Nat}
    (placed : Placed lifetimes (timeAxisBuild lifetimes) passed placer)
    (bound : lifetime < lifetimes.length)
    (fresh : lifetime ∉ passed)
    (descending : ∀ earlier ∈ passed,
      (leaseAt lifetimes lifetime).bytes ≤ (leaseAt lifetimes earlier).bytes)
    (fits : budget lifetimes (passed ++ [lifetime]) < modulus) :
    ∃ next,
      placeNext lifetimes (timeAxisBuild lifetimes) placer lifetime = some next ∧
        Placed lifetimes (timeAxisBuild lifetimes) (passed ++ [lifetime]) next := by
  rcases Nat.eq_zero_or_pos (leaseAt lifetimes lifetime).bytes with zero | positive
  · have inOffsets : lifetime < placer.offsets.length := by
      rwa [placed.offsets_length]
    have budget_eq := budget_snoc lifetimes passed lifetime
    unfold paddedBytes at budget_eq
    obtain ⟨index, turn, kept⟩ :=
      placeNext_zero admissible placed.toFitted bound zero (by omega)
    refine ⟨_, turn, kept, ?_, ?_, ?_, fun all => ?_⟩
    · exact placed.layout.snoc fresh inOffsets (fun positive => by omega)
        (fun _ => rfl)
    · rw [span_snoc fresh inOffsets, placed.required, zero]
      simp
    · exact placed.inside_snoc fresh bound (by omega)
    · have positive := all lifetime (by simp)
      omega
  · exact placeNext_positive admissible placed bound fresh descending positive fits

/-! ## The whole loop -/

/-- Distinct leases fit in the budget of all of them. -/
theorem budget_le {placed : List Nat} (nodup : placed.Nodup)
    (inside : ∀ index ∈ placed, index < lifetimes.length) :
    budget lifetimes placed ≤
      budget lifetimes (List.range lifetimes.length) := by
  have sub : placed.Subperm (List.range lifetimes.length) :=
    nodup.subperm fun index mem => List.mem_range.mpr (inside index mem)
  obtain ⟨part, perm, sublist⟩ := sub
  have equal : budget lifetimes part = budget lifetimes placed :=
    (perm.map _).sum_eq
  rw [← equal]
  exact (sublist.map _).sum_le_sum (by simp)

theorem fitted_initial (lifetimes : List LeaseLifetime) {offsets : List Nat}
    (offsets_length : offsets.length = lifetimes.length)
    (nonempty : lifetimes ≠ []) :
    Fitted lifetimes (timeAxisBuild lifetimes)
      ⟨offsets, 0, occupancyIndexCreate (timeAxisBuild lifetimes).times.length⟩ where
  length_eq := by
    obtain ⟨head, tail, rfl⟩ := List.exists_cons_of_ne_nil nonempty
    have mem : head.startNs ∈ axisTimes (head :: tail) :=
      mem_axisTimes.mpr ⟨head, by simp, Or.inl rfl⟩
    have some_times : (timeAxisBuild (head :: tail)).times.length ≠ 0 := by
      rw [Ne, List.length_eq_zero_iff]
      exact List.ne_nil_of_mem mem
    simp [occupancyIndexCreate, some_times]
  offsets_length := offsets_length

/-- The loop finishes, and keeps what every turn on a fresh lease keeps. -/
theorem placeRegion_run
    {offsets : List Nat} (nonempty : lifetimes ≠ [])
    (Invariant : List Nat → Placer → Prop)
    (start : Invariant []
      ⟨offsets, 0, occupancyIndexCreate (timeAxisBuild lifetimes).times.length⟩)
    (advance : ∀ passed lifetime rest,
      placingIndices lifetimes (timeAxisBuild lifetimes) =
          passed ++ lifetime :: rest →
        lifetime < lifetimes.length → lifetime ∉ passed →
          ∀ placer, Invariant passed placer →
            ∃ next,
              placeNext lifetimes (timeAxisBuild lifetimes) placer lifetime =
                  some next ∧
                Invariant (passed ++ [lifetime]) next) :
    ∃ final,
      placeRegion lifetimes offsets = some ⟨final.requiredBytes, final.offsets⟩ ∧
        Invariant (placingIndices lifetimes (timeAxisBuild lifetimes)) final := by
  have perm := placingIndices_perm lifetimes (timeAxisBuild lifetimes)
  have nodup : (placingIndices lifetimes (timeAxisBuild lifetimes)).Nodup :=
    perm.nodup_iff.mpr List.nodup_range
  obtain ⟨final, finished, kept⟩ := exists_foldlM_eq_some
    (placeNext lifetimes (timeAxisBuild lifetimes))
    (placingIndices lifetimes (timeAxisBuild lifetimes)) Invariant start
    (by
      intro passed lifetime rest split placer placed
      have mem : lifetime ∈ placingIndices lifetimes (timeAxisBuild lifetimes) := by
        simp [split]
      rw [split] at nodup
      exact advance passed lifetime rest split
        (List.mem_range.mp (perm.mem_iff.mp mem))
        (fun early => (List.nodup_append.mp nodup).2.2 lifetime early lifetime
          (by simp) rfl) placer placed)
  refine ⟨final, ?_, kept⟩
  rw [placeRegion, if_neg (by simpa using nonempty)]
  simp only [finished, Option.map_some]

/-- Whatever wraps, the loop finishes, and the reported bytes fit in 64 bits. -/
theorem placeRegion_some
    (admissible : ∀ lease ∈ lifetimes, lease.Admissible)
    {offsets : List Nat} (offsets_length : offsets.length = lifetimes.length) :
    ∃ result, placeRegion lifetimes offsets = some result ∧
      result.offsets.length = lifetimes.length ∧ result.requiredBytes < modulus := by
  by_cases empty : lifetimes = []
  · subst empty
    exact ⟨⟨0, offsets⟩, rfl, offsets_length, Nat.two_pow_pos 64⟩
  obtain ⟨final, finished, fitted, small⟩ := placeRegion_run empty
    (fun _ placer => Fitted lifetimes (timeAxisBuild lifetimes) placer ∧
      placer.requiredBytes < modulus)
    ⟨fitted_initial lifetimes offsets_length empty, Nat.two_pow_pos 64⟩
    (by
      rintro passed lifetime rest - bound - placer ⟨fitted, small⟩
      obtain ⟨_, offset, index, _, _, _, turn, kept⟩ :=
        placeNext_some admissible fitted bound
      have wrapped : wrap (offset + (leaseAt lifetimes lifetime).bytes) < modulus :=
        Nat.mod_lt _ (by decide)
      exact ⟨_, turn, kept _, max_lt small wrapped⟩)
  exact ⟨_, finished, fitted.offsets_length, small⟩

/-- Every lease ends at the lowest aligned offset that clears the earlier leases
its query sees. -/
theorem placeRegion_layout
    (admissible : ∀ lease ∈ lifetimes, lease.Admissible)
    {offsets : List Nat} (offsets_length : offsets.length = lifetimes.length)
    (fits : budget lifetimes (List.range lifetimes.length) < modulus) :
    ∃ result, placeRegion lifetimes offsets = some result ∧
      result.offsets.length = lifetimes.length ∧
      IsLayout lifetimes (Sees (timeAxisBuild lifetimes))
        (placingIndices lifetimes (timeAxisBuild lifetimes)) result.offsets ∧
      result.requiredBytes = span lifetimes result.offsets
        (placingIndices lifetimes (timeAxisBuild lifetimes)) := by
  by_cases empty : lifetimes = []
  · subst empty
    exact ⟨⟨0, offsets⟩, rfl, offsets_length, isLayout_nil _ _, rfl⟩
  have perm := placingIndices_perm lifetimes (timeAxisBuild lifetimes)
  have nodup : (placingIndices lifetimes (timeAxisBuild lifetimes)).Nodup :=
    perm.nodup_iff.mpr List.nodup_range
  obtain ⟨final, finished, placed⟩ := placeRegion_run empty
    (Placed lifetimes (timeAxisBuild lifetimes))
    { toFitted := fitted_initial lifetimes offsets_length empty
      layout := isLayout_nil _ _
      required := rfl
      inside := by simp
      tracks := fun _ => ⟨represents_create _, by simp⟩ }
    (by
      intro passed lifetime rest split bound fresh placer placed
      have descending := placingIndices_bytes_le split
      rw [split, List.append_cons] at nodup
      refine placeNext_placed admissible placed bound fresh descending
        ((budget_le (List.nodup_append.mp nodup).1 ?_).trans_lt fits)
      intro index mem
      refine List.mem_range.mp (perm.mem_iff.mp ?_)
      rw [split, List.append_cons]
      exact List.mem_append_left _ mem)
  exact ⟨_, finished, placed.offsets_length, placed.layout, placed.required⟩

/-- Leases held at a common time see each other in the index. -/
theorem sees_of_overlaps
    {first second : Nat}
    (firstBound : first < lifetimes.length)
    (secondBound : second < lifetimes.length)
    (overlaps : (leaseAt lifetimes first).Overlaps (leaseAt lifetimes second)) :
    Sees (timeAxisBuild lifetimes) first second := by
  obtain ⟨time, ⟨firstStart, firstEnd⟩, secondStart, secondEnd⟩ := overlaps
  have strict := axisTimes_strict lifetimes
  have firstMem := start_mem_axis firstBound
  have firstMem' := end_mem_axis firstBound
  have secondMem := start_mem_axis secondBound
  have secondMem' := end_mem_axis secondBound
  -- The later of the two starts is an endpoint that both leases contain.
  have common : ∃ point, point < (axisTimes lifetimes).length ∧
      (ordinal (axisTimes lifetimes) (leaseAt lifetimes first).startNs ≤
          point ∧
        point < ordinal (axisTimes lifetimes)
          (leaseAt lifetimes first).endNs) ∧
      ordinal (axisTimes lifetimes) (leaseAt lifetimes second).startNs ≤
          point ∧
        point < ordinal (axisTimes lifetimes)
          (leaseAt lifetimes second).endNs := by
    rcases Nat.le_total (leaseAt lifetimes first).startNs
        (leaseAt lifetimes second).startNs with before | after
    · exact ⟨_, ordinal_lt_length strict secondMem,
        ⟨(ordinal_le_iff strict firstMem secondMem).mpr before,
          (ordinal_lt_iff strict secondMem firstMem').mpr (by omega)⟩,
        le_rfl, (ordinal_lt_iff strict secondMem secondMem').mpr (by omega)⟩
    · exact ⟨_, ordinal_lt_length strict firstMem,
        ⟨le_rfl, (ordinal_lt_iff strict firstMem firstMem').mpr (by omega)⟩,
        (ordinal_le_iff strict secondMem firstMem).mpr after,
        (ordinal_lt_iff strict firstMem secondMem').mpr (by omega)⟩
  obtain ⟨point, inTree, inFirst, inSecond⟩ := common
  simp only [Sees, startRank_eq firstBound, endRank_eq firstBound,
    startRank_eq secondBound, endRank_eq secondBound]
  change Seen (axisTimes lifetimes).length 1 0 (axisTimes lifetimes).length _ _ _ _
  refine (visible_iff le_rfl (by omega) (by omega) (by omega)).mpr ?_
  exact recorded_of_common point (by omega) (by omega) (by omega) (by omega)

/-- Placing leases always succeeds and gives a safe layout of all of them. -/
theorem placeRegion_safe
    (admissible : ∀ lease ∈ lifetimes, lease.Admissible)
    {offsets : List Nat} (offsets_length : offsets.length = lifetimes.length)
    (fits : budget lifetimes (List.range lifetimes.length) < modulus) :
    ∃ result, placeRegion lifetimes offsets = some result ∧
      result.offsets.length = lifetimes.length ∧
      SafeLayout lifetimes (List.range lifetimes.length) result.offsets
        result.requiredBytes := by
  have perm := placingIndices_perm lifetimes (timeAxisBuild lifetimes)
  have inside : ∀ index ∈ placingIndices lifetimes (timeAxisBuild lifetimes),
      index < lifetimes.length := fun index mem =>
    List.mem_range.mp (perm.mem_iff.mp mem)
  obtain ⟨result, placed, length_eq, layout, required⟩ :=
    placeRegion_layout admissible offsets_length fits
  refine ⟨result, placed, length_eq, required ▸ (layout.safe ?_).perm perm⟩
  intro first firstMem second secondMem
  exact sees_of_overlaps (inside first firstMem) (inside second secondMem)

/-! ## Leaving leases out -/

theorem map_leaseAt_range {Value : Type*} (lifetimes : List LeaseLifetime)
    (field : LeaseLifetime → Value) :
    (List.range lifetimes.length).map (fun index => field (leaseAt lifetimes index)) =
      lifetimes.map field := by
  apply List.ext_getElem
  · simp
  · intro index bound _
    have inside : index < lifetimes.length := by simpa using bound
    simp [leaseAt, inside]

theorem length_scatter (offsets sources placed : List Nat) :
    (scatter offsets sources placed).length = offsets.length := by
  unfold scatter
  induction sources.zip placed generalizing offsets with
  | nil => rfl
  | cons entry rest ih => rw [List.foldl_cons, ih, List.length_set]

/-- Nothing is written where no lease came from. -/
theorem scatter_getD_of_not_mem
    {offsets sources placed : List Nat} {index : Nat}
    (outside : index ∉ sources) :
    (scatter offsets sources placed).getD index 0 = offsets.getD index 0 := by
  unfold scatter
  induction sources generalizing offsets placed with
  | nil => rfl
  | cons source sources ih =>
      cases placed with
      | nil => rfl
      | cons offset placed =>
          rw [List.zip_cons_cons, List.foldl_cons,
            ih fun mem => outside (List.mem_cons_of_mem _ mem)]
          have apart : source ≠ index := fun equal =>
            outside (equal ▸ List.mem_cons_self)
          simp [List.getElem?_set_ne apart]

/-- Every gathered lease gets its offset back. -/
theorem scatter_getD
    (offsets : List Nat) {sources placed : List Nat}
    (nodup : sources.Nodup)
    (inside : ∀ source ∈ sources, source < offsets.length)
    {position : Nat} (bound : position < sources.length)
    (length_eq : placed.length = sources.length) :
    (scatter offsets sources placed).getD (sources[position]) 0 =
      placed.getD position 0 := by
  induction sources generalizing offsets placed position with
  | nil => simp at bound
  | cons source sources ih =>
      obtain ⟨fresh, rest⟩ := List.nodup_cons.mp nodup
      cases placed with
      | nil => simp at length_eq
      | cons offset placed =>
          have step : scatter offsets (source :: sources) (offset :: placed) =
              scatter (offsets.set source offset) sources placed := rfl
          rw [step]
          cases position with
          | zero =>
              rw [List.getElem_cons_zero, scatter_getD_of_not_mem fresh]
              have here := inside source (by simp)
              simp [here]
          | succ position =>
              rw [List.getElem_cons_succ, List.getD_cons_succ]
              exact ih _ rest
                (fun member mem => by
                  rw [List.length_set]
                  exact inside member (List.mem_cons_of_mem _ mem))
                (by simpa using bound) (by simpa using length_eq)

end Region

theorem gather_nodup (problem : PlacementProblem) : (gather problem).Nodup :=
  List.nodup_range.filter _

theorem mem_gather {problem : PlacementProblem} {index : Nat} :
    index ∈ gather problem ↔
      index < problem.lifetimes.length ∧ problem.isExcluded index = false := by
  simp [gather]

/-- The leases that are placed, in input order. -/
def records (problem : PlacementProblem) : List LeaseLifetime :=
  (gather problem).map fun index => leaseAt problem.lifetimes index

theorem length_records (problem : PlacementProblem) :
    (records problem).length = (gather problem).length :=
  List.length_map ..

theorem mem_of_mem_records {problem : PlacementProblem} {lease : LeaseLifetime}
    (mem : lease ∈ records problem) : lease ∈ problem.lifetimes := by
  obtain ⟨index, inside, rfl⟩ := List.mem_map.mp mem
  exact mem_leaseAt (mem_gather.mp inside).1

/-- Nothing excluded: every lease is gathered. -/
theorem gather_of_none {problem : PlacementProblem}
    (none_excluded : problem.excluded = none) :
    gather problem = List.range problem.lifetimes.length := by
  simp [gather, PlacementProblem.isExcluded, none_excluded]

theorem records_of_none {problem : PlacementProblem}
    (none_excluded : problem.excluded = none) :
    records problem = problem.lifetimes := by
  rw [records, gather_of_none none_excluded]
  simpa using map_leaseAt_range problem.lifetimes id

/-- A safe layout of the gathered leases is a safe layout where they came
from. -/
theorem safeLayout_scatter
    {problem : PlacementProblem} {offsets placed : List Nat} {requiredBytes : Nat}
    (offsets_length : offsets.length = problem.lifetimes.length)
    (placed_length : placed.length = (gather problem).length)
    (layout : SafeLayout (records problem) (List.range (records problem).length)
      placed requiredBytes) :
    SafeLayout problem.lifetimes (gather problem)
      (scatter offsets (gather problem) placed) requiredBytes := by
  rw [length_records] at layout
  have lease_eq : ∀ position (bound : position < (gather problem).length),
      leaseAt (records problem) position =
        leaseAt problem.lifetimes (gather problem)[position] := by
    intro position bound
    rw [leaseAt, List.getD_eq_getElem _ _ (by rwa [length_records])]
    exact List.getElem_map ..
  have offset_eq : ∀ position (bound : position < (gather problem).length),
      (scatter offsets (gather problem) placed).getD
          (gather problem)[position] 0 = placed.getD position 0 := by
    intro position bound
    refine scatter_getD offsets (gather_nodup problem) ?_ bound placed_length
    intro source mem
    rw [offsets_length]
    exact (mem_gather.mp mem).1
  have range_eq : ∀ position (bound : position < (gather problem).length),
      leaseRange problem.lifetimes
          (scatter offsets (gather problem) placed)
          (gather problem)[position] =
        leaseRange (records problem) placed position := by
    intro position bound
    rw [leaseRange, leaseRange, offset_eq position bound, lease_eq position bound]
  refine ⟨?_, ?_, ?_, ?_⟩
  · intro index mem
    obtain ⟨position, bound, rfl⟩ := List.mem_iff_getElem.mp mem
    have aligned := layout.aligned position (List.mem_range.mpr bound)
    rwa [lease_eq position bound, ← offset_eq position bound] at aligned
  · intro first firstMem second secondMem distinct overlaps address
    obtain ⟨low, lowBound, rfl⟩ := List.mem_iff_getElem.mp firstMem
    obtain ⟨high, highBound, rfl⟩ := List.mem_iff_getElem.mp secondMem
    rw [range_eq low lowBound, range_eq high highBound]
    refine layout.apart low (List.mem_range.mpr lowBound) high
      (List.mem_range.mpr highBound) (fun equal => distinct (by simp [equal])) ?_
      address
    rw [lease_eq low lowBound, lease_eq high highBound]
    exact overlaps
  · intro index mem
    obtain ⟨position, bound, rfl⟩ := List.mem_iff_getElem.mp mem
    rw [range_eq position bound]
    exact layout.covered position (List.mem_range.mpr bound)
  · rcases layout.reached with ⟨none, zero⟩ | ⟨position, mem, reached⟩
    · exact Or.inl ⟨by simpa using none, zero⟩
    · have bound := List.mem_range.mp mem
      exact Or.inr ⟨_, List.getElem_mem bound, by
        rw [range_eq position bound, reached]⟩

/-- The bytes the placed leases can take together. -/
def totalPaddedBytes (problem : PlacementProblem) : Nat :=
  ((records problem).map paddedBytes).sum

theorem totalPaddedBytes_eq (problem : PlacementProblem) :
    totalPaddedBytes problem =
      budget (records problem) (List.range (records problem).length) := by
  rw [budget, map_leaseAt_range _ paddedBytes, totalPaddedBytes]

/-- Placing everything and scattering it changes nothing. -/
theorem scatter_range (offsets : List Nat) {placed : List Nat}
    (same : placed.length = offsets.length) :
    scatter offsets (List.range offsets.length) placed = placed := by
  refine List.ext_getElem (by rw [length_scatter, same]) fun index bound bound' => ?_
  rw [length_scatter] at bound
  have inRange : index < (List.range offsets.length).length := by
    simpa using bound
  have position := scatter_getD offsets List.nodup_range
    (fun source mem => List.mem_range.mp mem) inRange
    (same.trans List.length_range.symm)
  rw [List.getElem_range, List.getD_eq_getElem _ _ (by rwa [length_scatter]),
    List.getD_eq_getElem _ _ bound'] at position
  exact position

/-- Placement of the leases that are not left out, written back where they
came from. -/
theorem placeLifetimes_eq
    (problem : PlacementProblem) (result : PlacementResult)
    (version : problem.abiVersion = abiVersion)
    (offsets_length : result.offsets.length = problem.lifetimes.length)
    (admissible : ∀ lease ∈ problem.lifetimes, lease.Admissible) :
    ∃ initial placed, placeRegion (records problem) initial = some placed ∧
      initial.length = (records problem).length ∧
      placeLifetimes problem result =
        (.ok, ⟨placed.requiredBytes,
          scatter result.offsets (gather problem) placed.offsets⟩) := by
  have placing := @placeRegion_some (records problem)
    (fun lease mem => admissible lease (mem_of_mem_records mem))
  by_cases empty : problem.lifetimes.length = 0
  · have none : gather problem = [] := by simp [gather, empty]
    have no_records : records problem = [] := by simp [records, none]
    refine ⟨[], ⟨0, []⟩, by simp [placeRegion, no_records], by simp [no_records],
      ?_⟩
    simp [placeLifetimes, version, empty, none, scatter]
  cases mask : problem.excluded with
  | none =>
      have same := records_of_none mask
      obtain ⟨placed, done, length_eq, _⟩ :=
        @placing result.offsets (by rw [same, offsets_length])
      refine ⟨result.offsets, placed, done, by rw [same, offsets_length], ?_⟩
      rw [same] at done length_eq
      rw [gather_of_none mask, ← offsets_length,
        scatter_range result.offsets (length_eq.trans offsets_length.symm)]
      simp [placeLifetimes, version, empty, mask, done]
  | some flags =>
      obtain ⟨placed, done, _⟩ := @placing
        (List.replicate (records problem).length 0) (by simp)
      refine ⟨_, placed, done, by simp, ?_⟩
      rw [records] at done
      simp only [placeLifetimes, version, ne_eq, not_true_eq_false, if_false,
        empty, mask, done]

/-- Fixed placement succeeds for every list of lifetimes, and its layout is
safe: offsets are aligned, leases that are held at a common time share no
address, the reported bytes are the layout's end, and the offsets of leases
left out are the caller's. -/
theorem placeLifetimes_safe
    (problem : PlacementProblem) (result : PlacementResult)
    (offsets_length : result.offsets.length = problem.lifetimes.length)
    (admissible : ∀ lease ∈ problem.lifetimes, lease.Admissible)
    (fits : totalPaddedBytes problem < modulus) :
    ((placeLifetimes problem result).1 = .ok ↔
        problem.abiVersion = abiVersion) ∧
      ((placeLifetimes problem result).1 = .ok →
        SafeLayout problem.lifetimes (gather problem)
            (placeLifetimes problem result).2.offsets
            (placeLifetimes problem result).2.requiredBytes ∧
          ∀ index, problem.isExcluded index = true →
            (placeLifetimes problem result).2.offsets.getD index 0 =
              result.offsets.getD index 0) := by
  by_cases version : problem.abiVersion = abiVersion
  · have safe := @placeRegion_safe (records problem)
      (fun lease mem => admissible lease (mem_of_mem_records mem))
    obtain ⟨initial, placed, done, length_eq, equal⟩ :=
      placeLifetimes_eq problem result version offsets_length admissible
    obtain ⟨same, done', placed_length, layout⟩ :=
      safe length_eq (totalPaddedBytes_eq problem ▸ fits)
    obtain rfl : placed = same := Option.some.inj (done.symm.trans done')
    rw [equal]
    refine ⟨iff_of_true rfl version, fun _ => ⟨?_, fun index left_out => ?_⟩⟩
    · exact safeLayout_scatter offsets_length
        (placed_length.trans (length_records problem)) layout
    · refine scatter_getD_of_not_mem fun mem => ?_
      rw [(mem_gather.mp mem).2] at left_out
      exact Bool.false_ne_true left_out
  · simp [placeLifetimes, version]

/-- Two leases held together and one left out. -/
def threeLeases : PlacementProblem where
  abiVersion := 3
  lifetimes := [⟨100, 64, 0, 10⟩, ⟨50, 64, 5, 15⟩, ⟨70, 64, 0, 20⟩]
  excluded := some [0, 0, 1]

example :
    placeLifetimes threeLeases ⟨7, [7, 7, 7]⟩ = (.ok, ⟨178, [0, 128, 7]⟩) := by
  decide

theorem placeLifetimes_safe_threeLeases :
    (placeLifetimes threeLeases ⟨7, [7, 7, 7]⟩).1 = .ok ∧
      SafeLayout threeLeases.lifetimes (gather threeLeases)
        (placeLifetimes threeLeases ⟨7, [7, 7, 7]⟩).2.offsets
        (placeLifetimes threeLeases ⟨7, [7, 7, 7]⟩).2.requiredBytes :=
  have safe := placeLifetimes_safe threeLeases ⟨7, [7, 7, 7]⟩ rfl (by decide)
    (by decide)
  ⟨safe.1.mpr rfl, (safe.2 (safe.1.mpr rfl)).1⟩

/-- The bytes of the placed leases, each rounded up to its alignment. -/
def totalAlignedBytes (problem : PlacementProblem) : Nat :=
  ((records problem).map fun lease => alignUp lease.bytes lease.alignment).sum

/-- Three leases held together.  The second leaves a gap below it that the third
does not fit in. -/
def gappedLeases : PlacementProblem where
  abiVersion := 3
  lifetimes := [⟨2 ^ 62 + 1, 1, 0, 1⟩, ⟨2 ^ 62, 2 ^ 62, 0, 1⟩, ⟨2 ^ 62, 1, 0, 1⟩]
  excluded := none

/-- The aligned sizes fit in 64 bits together, yet the last lease ends beyond the
reported bytes. -/
theorem not_covered_gappedLeases :
    totalAlignedBytes gappedLeases < modulus ∧
      (∀ lease ∈ gappedLeases.lifetimes, lease.Admissible) ∧
      placeLifetimes gappedLeases ⟨0, [0, 0, 0]⟩ =
        (.ok, ⟨3 * 2 ^ 62, [0, 2 ^ 63, 3 * 2 ^ 62]⟩) ∧
      ¬ SafeLayout gappedLeases.lifetimes (gather gappedLeases)
        [0, 2 ^ 63, 3 * 2 ^ 62] (3 * 2 ^ 62) :=
  ⟨by decide, by decide, by decide, fun safe =>
    absurd (safe.covered 2 (by decide)) (by decide)⟩

end ShadowSpill.Planner.Placement
