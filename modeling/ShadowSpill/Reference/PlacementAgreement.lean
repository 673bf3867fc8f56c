import ShadowSpill.Planner.Placement
import ShadowSpill.Reference.Placement

/-!
# Where the two placements agree

The compiled placement answers for a whole subtree at once when a query
contains a node, on the ground that every lease below the node is held at some
time of the query.  That holds of every lease but those with an empty
lifetime: an insertion walks down to them and records them nowhere, yet leaves
their addresses in the subtree lists on the way.  Its sums besides are 64-bit.
`placements_agree` says when either shows: when the readable layout puts a lease
onto the addresses of an earlier such lease that its query meets, or leaves the
64-bit addresses.  `placeRegion_follows` runs the compiled loop beside that layout.
-/

namespace ShadowSpill.Reference.PlacementAgreement

open Library.AddressRanges Library.Coordinates Library.SegmentTree Library.Word64
open Planner.Placement Planner.PlacementFit Planner.PlacementIndex
open Planner.PlacementLayout Planner.PlacementOrder
open ShadowSpill.Reference.Placement (Records placeAll placeAll_layout)

/-- The mask as the reference reads it. -/
def mask (problem : PlacementProblem) : Option (List Bool) :=
  problem.excluded.map fun flags => flags.map fun flag => flag ≠ 0

/-- Both placements answer, and alike.  The compiled one starts from a zeroed
array of offsets. -/
def Agrees (problem : PlacementProblem) : Prop :=
  (Reference.Placement.placeLifetimes problem.lifetimes (mask problem)).map
      (fun placed => (Status.ok, (⟨placed.2, placed.1⟩ : PlacementResult))) =
    some (placeLifetimes problem ⟨0, List.replicate problem.lifetimes.length 0⟩)

instance : DecidablePred Agrees :=
  fun _ => inferInstanceAs (Decidable (_ = _))

/-- In the readable layout of the placed leases, no lease shares an address
with an earlier lease of empty lifetime that its query meets in the compiled
index. -/
def StraysClear (problem : PlacementProblem) : Prop :=
  let leases := records problem
  let axis := timeAxisBuild leases
  ∀ offsets, IsLayout leases (Records axis) (placingIndices leases axis) offsets →
    ∀ passed lifetime rest,
      placingIndices leases axis = passed ++ lifetime :: rest →
        ∀ earlier ∈ passed,
          (leaseAt leases earlier).startNs = (leaseAt leases earlier).endNs →
            Sees axis earlier lifetime →
              ∀ address, ¬ ((leaseRange leases offsets earlier).Contains address ∧
                (leaseRange leases offsets lifetime).Contains address)

/-- In the readable layout of the placed leases, no sum on the way to an offset
wraps: a lease ends within 64 bits, and so does the rounding up past every
address its query meets below it. -/
def InWords (problem : PlacementProblem) : Prop :=
  let leases := records problem
  let axis := timeAxisBuild leases
  ∀ offsets, IsLayout leases (Records axis) (placingIndices leases axis) offsets →
    ∀ passed lifetime rest,
      placingIndices leases axis = passed ++ lifetime :: rest →
        Within (Taken leases (Sees axis) offsets passed lifetime)
          (leaseAt leases lifetime).bytes (leaseAt leases lifetime).alignment
          (offsets.getD lifetime 0)

/-- In the readable layout some lease at the bottom meets an address within its
alignment of the end of the 64-bit addresses. -/
def MeetsTop (problem : PlacementProblem) : Prop :=
  let leases := records problem
  let axis := timeAxisBuild leases
  ∃ offsets, IsLayout leases (Records axis) (placingIndices leases axis) offsets ∧
    ∃ passed lifetime rest,
      placingIndices leases axis = passed ++ lifetime :: rest ∧
        offsets.getD lifetime 0 = 0 ∧
        ∃ address, Taken leases (Sees axis) offsets passed lifetime address ∧
          modulus ≤ address + (leaseAt leases lifetime).alignment

/-! ## What the compiled index sees besides -/

section Strays

variable {leases : List LeaseLifetime} {earlier later : Nat}

/-- A lease of empty lifetime is recorded nowhere. -/
theorem not_records_of_empty
    (admissible : ∀ lease ∈ leases, lease.Admissible)
    (bound : earlier < leases.length)
    (empty : (leaseAt leases earlier).startNs = (leaseAt leases earlier).endNs) :
    ¬ Records (timeAxisBuild leases) earlier later := by
  have bounds := (admissible _ (mem_leaseAt bound)).rank_bounds (mem_leaseAt bound)
  rintro ⟨node, _, mem⟩
  rw [startRank_eq bound, endRank_eq bound, empty] at mem
  change node ∈ coverNodes _ _ (axisTimes leases).length 1 0
    (axisTimes leases).length at mem
  rw [coverNodes_empty ⟨Nat.zero_le _, bounds.2.2⟩] at mem
  exact List.not_mem_nil mem

/-- Any other lease is seen where it is recorded. -/
theorem sees_iff_records
    (bound : earlier < leases.length)
    (held : (leaseAt leases earlier).startNs < (leaseAt leases earlier).endNs) :
    Sees (timeAxisBuild leases) earlier later ↔
      Records (timeAxisBuild leases) earlier later := by
  have strict := axisTimes_strict leases
  have startMem : (leaseAt leases earlier).startNs ∈ axisTimes leases :=
    mem_axisTimes.mpr ⟨_, mem_leaseAt bound, Or.inl rfl⟩
  have endMem : (leaseAt leases earlier).endNs ∈ axisTimes leases :=
    mem_axisTimes.mpr ⟨_, mem_leaseAt bound, Or.inr rfl⟩
  have ordered := (ordinal_lt_iff strict startMem endMem).mpr held
  have startLt := ordinal_lt_length strict startMem
  have lengthEq : (timeAxisBuild leases).times.length = (axisTimes leases).length :=
    rfl
  unfold Sees Records
  rw [startRank_eq bound, endRank_eq bound]
  exact visible_iff le_rfl ordered (by omega) (by omega)

theorem sees_of_records
    (admissible : ∀ lease ∈ leases, lease.Admissible)
    (bound : earlier < leases.length)
    (recorded : Records (timeAxisBuild leases) earlier later) :
    Sees (timeAxisBuild leases) earlier later := by
  rcases (admissible _ (mem_leaseAt bound)).ordered.lt_or_eq with held | empty
  · exact (sees_iff_records bound held).mpr recorded
  · exact (not_records_of_empty admissible bound empty recorded).elim

end Strays

/-! ## The compiled loop beside a layout -/

section Beside

variable {leases : List LeaseLifetime} {few : List Nat}

/-- The last of a list is the place of the split, or comes after it. -/
theorem split_concat
    {passed before after : List Nat} {last lifetime : Nat}
    (split : passed ++ [last] = before ++ lifetime :: after) :
    (before = passed ∧ lifetime = last) ∨
      ∃ rest, passed = before ++ lifetime :: rest := by
  rcases List.eq_nil_or_concat after with rfl | ⟨init, final, rfl⟩
  · obtain ⟨rfl, single⟩ := List.append_inj' split rfl
    exact Or.inl ⟨rfl, by simpa using single.symm⟩
  · rw [List.concat_eq_append, ← List.cons_append, ← List.append_assoc] at split
    exact Or.inr ⟨init, (List.append_inj' split rfl).1⟩

/-- What the compiled query of a lease sees of the layout. -/
abbrev Seen (leases : List LeaseLifetime) (few passed : List Nat)
    (lifetime : Nat) : Nat → Prop :=
  Taken leases (Sees (timeAxisBuild leases)) few passed lifetime

/-- The lease stands where the compiled query finds its lowest fit. -/
abbrev Fits (leases : List LeaseLifetime) (few passed : List Nat)
    (lifetime : Nat) : Prop :=
  IsLowestFit (Seen leases few passed lifetime) (leaseAt leases lifetime).bytes
    (leaseAt leases lifetime).alignment (few.getD lifetime 0)

/-- It does so without a sum that wraps. -/
abbrev Stands (leases : List LeaseLifetime) (few passed : List Nat)
    (lifetime : Nat) : Prop :=
  Within (Seen leases few passed lifetime) (leaseAt leases lifetime).bytes
    (leaseAt leases lifetime).alignment (few.getD lifetime 0)

/-- The loop has placed these leases as the layout does. -/
structure Follows (leases : List LeaseLifetime) (few passed : List Nat)
    (placer : Placer) : Prop where
  same : ∀ index ∈ passed, placer.offsets.getD index 0 = few.getD index 0
  required : placer.requiredBytes = span leases few passed
  tracks : (∀ index ∈ passed, 0 < (leaseAt leases index).bytes) →
    Tracks leases (timeAxisBuild leases) passed placer
  stands : ∀ before lifetime after, passed = before ++ lifetime :: after →
    Stands leases few before lifetime
  fits : ∀ before lifetime after, passed = before ++ lifetime :: after →
    0 < (leaseAt leases lifetime).bytes →
      (0 < few.getD lifetime 0 ∨ ∀ address, Seen leases few before lifetime address →
        address + (leaseAt leases lifetime).alignment < modulus) →
        Fits leases few before lifetime

/-- Some lease that the layout does not put at the compiled lowest fit has been
placed elsewhere. -/
def Departs (leases : List LeaseLifetime) (few passed offsets : List Nat) : Prop :=
  ∃ before lifetime after, passed = before ++ lifetime :: after ∧
    0 < (leaseAt leases lifetime).bytes ∧
    offsets.getD lifetime 0 ≠ few.getD lifetime 0 ∧
    ¬ (Fits leases few before lifetime ∧ Stands leases few before lifetime)

theorem span_concat (leases : List LeaseLifetime) (few passed : List Nat)
    (lifetime : Nat) :
    span leases few (passed ++ [lifetime]) =
      max (span leases few passed)
        (few.getD lifetime 0 + (leaseAt leases lifetime).bytes) := by
  simp [span, leaseRange]

/-- One more lease placed as the layout does. -/
theorem Follows.snoc
    {passed : List Nat} {placer : Placer} {lifetime : Nat} {index : OccupancyIndex}
    (follows : Follows leases few passed placer)
    (fresh : lifetime ∉ passed)
    (bound : lifetime < placer.offsets.length)
    (tracks : (∀ member ∈ passed ++ [lifetime], 0 < (leaseAt leases member).bytes) →
      Tracks leases (timeAxisBuild leases) (passed ++ [lifetime])
        ⟨placer.offsets.set lifetime (few.getD lifetime 0),
          max placer.requiredBytes
            (few.getD lifetime 0 + (leaseAt leases lifetime).bytes), index⟩)
    (stands : Stands leases few passed lifetime)
    (fits : 0 < (leaseAt leases lifetime).bytes →
      (0 < few.getD lifetime 0 ∨ ∀ address, Seen leases few passed lifetime address →
        address + (leaseAt leases lifetime).alignment < modulus) →
        Fits leases few passed lifetime) :
    Follows leases few (passed ++ [lifetime])
      ⟨placer.offsets.set lifetime (few.getD lifetime 0),
        max placer.requiredBytes
          (few.getD lifetime 0 + (leaseAt leases lifetime).bytes), index⟩ where
  same := by
    intro member mem
    rcases List.mem_append.mp mem with early | last
    · have apart : lifetime ≠ member := fun equal => fresh (equal ▸ early)
      rw [← follows.same member early]
      simp [List.getElem?_set_ne apart]
    · rw [List.mem_singleton.mp last]
      simp [bound]
  required := by rw [span_concat, ← follows.required]
  tracks := tracks
  stands := by
    intro before current after split
    rcases split_concat split with ⟨rfl, rfl⟩ | ⟨rest, early⟩
    · exact stands
    · exact follows.stands before current rest early
  fits := by
    intro before current after split
    rcases split_concat split with ⟨rfl, rfl⟩ | ⟨rest, early⟩
    · exact fits
    · exact follows.fits before current rest early

/-- A turn of the compiled loop beside a layout whose leases all end within 64
bits: it follows the layout or departs from it. -/
theorem placeNext_follows
    (admissible : ∀ lease ∈ leases, lease.Admissible)
    (small : ∀ lease ∈ leases, lease.alignment < modulus)
    {passed : List Nat} {placer : Placer} {lifetime : Nat}
    (fitted : Fitted leases (timeAxisBuild leases) placer)
    (follows : Follows leases few passed placer)
    (bound : lifetime < leases.length)
    (fresh : lifetime ∉ passed)
    (descending : ∀ earlier ∈ passed,
      (leaseAt leases lifetime).bytes ≤ (leaseAt leases earlier).bytes)
    (zero : (leaseAt leases lifetime).bytes = 0 → few.getD lifetime 0 = 0)
    (ends : few.getD lifetime 0 + (leaseAt leases lifetime).bytes < modulus) :
    ∃ next,
      placeNext leases (timeAxisBuild leases) placer lifetime = some next ∧
        Fitted leases (timeAxisBuild leases) next ∧
        (Departs leases few (passed ++ [lifetime]) next.offsets ∨
          Follows leases few (passed ++ [lifetime]) next) := by
  have inOffsets : lifetime < placer.offsets.length := by
    rwa [fitted.offsets_length]
  have narrow := (small _ (mem_leaseAt bound)).le
  rcases Nat.eq_zero_or_pos (leaseAt leases lifetime).bytes with empty | positive
  · obtain ⟨index, turn, kept⟩ := placeNext_zero admissible fitted bound empty narrow
    have bottom := zero empty
    have next := @Follows.snoc leases few passed placer lifetime index follows fresh
      inOffsets (fun all => absurd (all lifetime (by simp)) (by omega))
      ⟨ends, fun _ _ below => absurd below (by omega)⟩ (fun some_bytes => by omega)
    rw [bottom, empty, Nat.add_zero, Nat.max_zero] at next
    exact ⟨_, turn, kept, Or.inr next⟩
  · obtain ⟨offset, index, turn, kept, lowest, tracked⟩ :=
      (follows.tracks fun member mem => positive.trans_le (descending member mem)).placeNext
        admissible fitted bound fresh positive narrow
    have ranges : ∀ earlier ∈ passed, leaseRange leases placer.offsets earlier =
        leaseRange leases few earlier := fun earlier mem => by
      rw [leaseRange, leaseRange, follows.same earlier mem]
    have lowest := lowest (Seen leases few passed lifetime) (taken_congr ranges lifetime)
    refine ⟨_, turn, kept _, ?_⟩
    by_cases agree : offset = few.getD lifetime 0
    · rw [agree] at lowest tracked
      rw [agree, wrap_eq ends]
      refine Or.inr (follows.snoc fresh inOffsets (fun _ => tracked ends _) ?_
        fun _ lifted => (lowest (Or.inr ⟨lifted, ends⟩)).1)
      rcases Nat.eq_zero_or_pos (few.getD lifetime 0) with bottom | lifted
      · exact ⟨ends, fun _ _ below => absurd below (by omega)⟩
      · exact (lowest (Or.inr ⟨Or.inl lifted, ends⟩)).2
    · refine Or.inl ⟨passed, lifetime, [], rfl, positive, ?_, ?_⟩
      · simpa [inOffsets] using agree
      · rintro ⟨fit, within⟩
        exact agree ((lowest (Or.inl ⟨_, fit, within⟩)).1.unique fit)

/-- The whole loop beside a layout whose leases all end within 64 bits. -/
theorem placeRegion_follows
    (admissible : ∀ lease ∈ leases, lease.Admissible)
    (small : ∀ lease ∈ leases, lease.alignment < modulus)
    {initial : List Nat} (initial_length : initial.length = leases.length)
    (layout : IsLayout leases (Records (timeAxisBuild leases))
      (placingIndices leases (timeAxisBuild leases)) few)
    (ends : ∀ lifetime ∈ placingIndices leases (timeAxisBuild leases),
      few.getD lifetime 0 + (leaseAt leases lifetime).bytes < modulus) :
    ∃ final : Placer,
      placeRegion leases initial = some ⟨final.requiredBytes, final.offsets⟩ ∧
        (Departs leases few (placingIndices leases (timeAxisBuild leases))
            final.offsets ∨
          Follows leases few (placingIndices leases (timeAxisBuild leases)) final) := by
  have start : ∀ length, Follows leases few [] ⟨initial, 0, occupancyIndexCreate length⟩ :=
    fun length => ⟨by simp, rfl, fun _ => ⟨represents_create _, by simp⟩, by simp,
      by simp⟩
  by_cases empty : leases = []
  · subst empty
    exact ⟨_, rfl, Or.inr (start 0)⟩
  obtain ⟨final, finished, -, held⟩ := placeRegion_run empty
    (fun passed placer => Fitted leases (timeAxisBuild leases) placer ∧
      (Departs leases few passed placer.offsets ∨ Follows leases few passed placer))
    ⟨fitted_initial leases initial_length empty, Or.inr (start _)⟩
    (by
      rintro passed lifetime rest split bound fresh placer ⟨fitted, departs | follows⟩
      · -- What was placed elsewhere stays there.
        obtain ⟨_, offset, index, _, _, _, turn, kept⟩ :=
          placeNext_some admissible fitted bound
        obtain ⟨before, current, after, early, positive, apart, misfit⟩ := departs
        refine ⟨_, turn, kept _, Or.inl
          ⟨before, current, after ++ [lifetime], by simp [early], positive, ?_, misfit⟩⟩
        have other : lifetime ≠ current := fun equal =>
          fresh (equal ▸ by simp [early])
        simpa [List.getElem?_set_ne other] using apart
      · have mem : lifetime ∈ placingIndices leases (timeAxisBuild leases) := by
          simp [split]
        exact placeNext_follows admissible small fitted follows bound fresh
          (placingIndices_bytes_le split) (layout.zero lifetime mem) (ends lifetime mem))
  exact ⟨final, finished, held⟩

/-- Where the strays stand in nobody's way and no sum wraps, no lease departs. -/
theorem not_departs
    (admissible : ∀ lease ∈ leases, lease.Admissible)
    {order offsets : List Nat}
    (indices : ∀ index ∈ order, index < leases.length)
    (layout : IsLayout leases (Records (timeAxisBuild leases)) order few)
    (stands : ∀ passed lifetime rest, order = passed ++ lifetime :: rest →
      Stands leases few passed lifetime)
    (extra : ExtraClear leases (Records (timeAxisBuild leases))
      (Sees (timeAxisBuild leases)) order few) :
    ¬ Departs leases few order offsets := by
  rintro ⟨passed, lifetime, rest, split, positive, -, misfit⟩
  have fit := layout.fit passed lifetime rest split positive
  refine misfit ⟨fit.of_clears ?_ ?_, stands passed lifetime rest split⟩
  · rintro address ⟨earlier, mem, recorded, contains⟩
    have bound := indices earlier (split ▸ List.mem_append_left _ mem)
    exact ⟨earlier, mem, sees_of_records admissible bound recorded, contains⟩
  · rintro address lower upper ⟨earlier, mem, sees, contains⟩
    by_cases recorded : Records (timeAxisBuild leases) earlier lifetime
    · exact fit.clears address lower upper ⟨earlier, mem, recorded, contains⟩
    · exact extra passed lifetime rest split earlier mem sees recorded address
        ⟨contains, lower, upper⟩

/-- No lease of a layout ends above its span. -/
theorem finish_le_span {order : List Nat} {lifetime : Nat} (mem : lifetime ∈ order) :
    few.getD lifetime 0 + (leaseAt leases lifetime).bytes ≤ span leases few order :=
  (foldl_max_spec (order.map fun index => (leaseRange leases few index).finish)).1 _
    (List.mem_map_of_mem mem)

/-- A loop that places every lease as a layout within 64 bits does has followed it. -/
theorem follows_of_same
    (admissible : ∀ lease ∈ leases, lease.Admissible)
    (small : ∀ lease ∈ leases, lease.alignment < modulus)
    {initial : List Nat} (initial_length : initial.length = leases.length)
    (layout : IsLayout leases (Records (timeAxisBuild leases))
      (placingIndices leases (timeAxisBuild leases)) few)
    (ends : ∀ lifetime ∈ placingIndices leases (timeAxisBuild leases),
      few.getD lifetime 0 + (leaseAt leases lifetime).bytes < modulus)
    {result : PlacementResult} (placed : placeRegion leases initial = some result)
    (same : ∀ lifetime ∈ placingIndices leases (timeAxisBuild leases),
      result.offsets.getD lifetime 0 = few.getD lifetime 0) :
    ∃ final, Follows leases few (placingIndices leases (timeAxisBuild leases)) final := by
  obtain ⟨final, finished, departs | follows⟩ :=
    placeRegion_follows admissible small initial_length layout ends
  · obtain ⟨passed, lifetime, rest, split, -, apart, -⟩ := departs
    obtain rfl := Option.some.inj (placed.symm.trans finished)
    have mem : lifetime ∈ placingIndices leases (timeAxisBuild leases) := by
      simp [split]
    exact absurd (same lifetime mem) apart
  · exact ⟨final, follows⟩

/-- A lease that does not meet the top from the bottom clears all the compiled query
sees. -/
theorem Follows.clears
    {order passed rest : List Nat} {placer : Placer} {lifetime earlier address : Nat}
    (follows : Follows leases few order placer)
    (split : order = passed ++ lifetime :: rest)
    (lifted : ¬ (few.getD lifetime 0 = 0 ∧
      ∃ address, Seen leases few passed lifetime address ∧
        modulus ≤ address + (leaseAt leases lifetime).alignment))
    (mem : earlier ∈ passed) (sees : Sees (timeAxisBuild leases) earlier lifetime) :
    ¬ ((leaseRange leases few earlier).Contains address ∧
      (leaseRange leases few lifetime).Contains address) := by
  rintro ⟨contains, lower, upper⟩
  simp only [leaseRange] at lower upper
  have aloft : 0 < few.getD lifetime 0 ∨ ∀ address,
      Seen leases few passed lifetime address →
        address + (leaseAt leases lifetime).alignment < modulus := by
    rcases Nat.eq_zero_or_pos (few.getD lifetime 0) with bottom | raised
    · refine Or.inr fun address held => not_le.mp fun reaches => ?_
      exact lifted ⟨bottom, address, held, reaches⟩
    · exact Or.inl raised
  exact (follows.fits passed lifetime rest split (by omega) aloft).clears address lower
    upper ⟨earlier, mem, sees, contains⟩

end Beside

/-! ## The two answers -/

section Answers

variable {problem : PlacementProblem}

theorem gather_eq
    {flags : List Nat} (some_mask : problem.excluded = some flags)
    (length_eq : flags.length = problem.lifetimes.length) :
    gather problem = (List.range (flags.map fun flag => decide (flag ≠ 0)).length).filter
      fun source => !(flags.map fun flag => decide (flag ≠ 0)).getD source false := by
  rw [gather, List.length_map, length_eq]
  refine List.filter_congr fun source mem => ?_
  have bound : source < flags.length := length_eq ▸ List.mem_range.mp mem
  simp [PlacementProblem.isExcluded, some_mask, bound]

/-- The reference places the gathered leases and writes them back. -/
theorem reference_eq
    (masked : ∀ flags, problem.excluded = some flags →
      flags.length = problem.lifetimes.length)
    (admissible : ∀ lease ∈ problem.lifetimes, lease.Admissible) :
    Reference.Placement.placeLifetimes problem.lifetimes (mask problem) =
      (placeAll (records problem)).map fun placed =>
        (scatter (List.replicate problem.lifetimes.length 0) (gather problem)
          placed.1, placed.2) := by
  -- With nothing left out the reference places the leases where they are.
  have whole (none_out : gather problem = List.range problem.lifetimes.length)
      (same : records problem = problem.lifetimes) :
      placeAll problem.lifetimes =
        (placeAll (records problem)).map fun placed =>
          (scatter (List.replicate problem.lifetimes.length 0) (gather problem)
            placed.1, placed.2) := by
    obtain ⟨offsets, required, placed, length_eq, _⟩ := placeAll_layout admissible
    have written := scatter_range
      (List.replicate problem.lifetimes.length 0)
      (length_eq.trans List.length_replicate.symm)
    rw [List.length_replicate] at written
    rw [same, placed, Option.map_some, none_out, written]
  by_cases empty : problem.lifetimes.length = 0
  · have none_out : gather problem = [] := by simp [gather, empty]
    have no_records : records problem = [] := by simp [records, none_out]
    simp [Reference.Placement.placeLifetimes, empty, no_records, none_out, placeAll,
      scatter]
  cases excluded : problem.excluded with
  | none =>
      rw [← whole (gather_of_none excluded) (records_of_none excluded)]
      simp [Reference.Placement.placeLifetimes, empty, mask, excluded]
  | some flags =>
      have kept := gather_eq excluded (masked flags excluded)
      by_cases some_out : (flags.map fun flag => decide (flag ≠ 0)).any id
      · simp only [Reference.Placement.placeLifetimes, empty, if_false, mask,
          excluded, Option.map_some]
        rw [if_pos some_out, ← kept]
        rfl
      · have none_out : gather problem = List.range problem.lifetimes.length := by
          rw [kept, List.length_map, masked flags excluded, List.filter_eq_self]
          intro source mem
          have bound : source < flags.length := by
            rw [masked flags excluded]
            exact List.mem_range.mp mem
          simp only [List.any_map, List.any_eq_true, not_exists, not_and] at some_out
          have unset := some_out _ (List.getElem_mem bound)
          simpa [bound] using unset
        have same : records problem = problem.lifetimes := by
          rw [records, none_out]
          simpa using map_leaseAt_range problem.lifetimes id
        rw [← whole none_out same]
        simp only [Reference.Placement.placeLifetimes, empty, if_false, mask,
          excluded, Option.map_some]
        rw [if_neg some_out]

/-- Writing back loses nothing. -/
theorem scatter_injective
    {offsets sources first second : List Nat}
    (nodup : sources.Nodup)
    (inside : ∀ source ∈ sources, source < offsets.length)
    (firstLength : first.length = sources.length)
    (secondLength : second.length = sources.length)
    (same : scatter offsets sources first = scatter offsets sources second) :
    first = second := by
  refine List.ext_getElem (firstLength.trans secondLength.symm) ?_
  intro index bound bound'
  have position : index < sources.length := firstLength ▸ bound
  have one := scatter_getD offsets nodup inside position firstLength
  have two := scatter_getD offsets nodup inside position secondLength
  rw [List.getD_eq_getElem _ _ bound] at one
  rw [List.getD_eq_getElem _ _ bound'] at two
  rw [← one, ← two, same]

/-- Each placement has an answer, and they agree when these are the same. -/
theorem agrees_iff_same
    (version : problem.abiVersion = abiVersion)
    (masked : ∀ flags, problem.excluded = some flags →
      flags.length = problem.lifetimes.length)
    (admissible : ∀ lease ∈ problem.lifetimes, lease.Admissible) :
    ∃ initial result few required,
      initial.length = (records problem).length ∧
        placeRegion (records problem) initial = some result ∧
        placeAll (records problem) = some (few, required) ∧
        result.requiredBytes < modulus ∧
        result.offsets.length = (records problem).length ∧
        (Agrees problem ↔ few = result.offsets ∧ required = result.requiredBytes) := by
  have admissible' : ∀ lease ∈ records problem, lease.Admissible :=
    fun lease mem => admissible lease (mem_of_mem_records mem)
  obtain ⟨initial, result, placed, initialLength, compiled⟩ :=
    placeLifetimes_eq problem ⟨0, List.replicate problem.lifetimes.length 0⟩ version
      (by simp) admissible
  obtain ⟨result', placed', resultLength, bounded⟩ :=
    placeRegion_some admissible' initialLength
  obtain rfl : result = result' := Option.some.inj (placed.symm.trans placed')
  obtain ⟨few, required, readable, fewLength, _⟩ := placeAll_layout admissible'
  refine ⟨initial, result, few, required, initialLength, placed, readable, bounded,
    resultLength, ?_⟩
  rw [Agrees, reference_eq masked admissible, readable, compiled]
  simp only [Option.map_some, Option.some.injEq, Prod.mk.injEq, true_and,
    PlacementResult.mk.injEq]
  constructor
  · rintro ⟨same, written⟩
    rw [length_records] at fewLength resultLength
    exact ⟨scatter_injective (gather_nodup problem) (fun source mem => by
      rw [List.length_replicate]
      exact (mem_gather.mp mem).1) fewLength resultLength written, same⟩
  · rintro ⟨rfl, rfl⟩
    exact ⟨rfl, rfl⟩

end Answers

/-- The stray condition is about exactly the leases that the compiled index
sees and the reference does not record. -/
theorem straysClear_iff
    (problem : PlacementProblem)
    (admissible : ∀ lease ∈ records problem, lease.Admissible) :
    StraysClear problem ↔
      ∀ offsets, IsLayout (records problem)
          (Records (timeAxisBuild (records problem)))
          (placingIndices (records problem) (timeAxisBuild (records problem)))
          offsets →
        ExtraClear (records problem) (Records (timeAxisBuild (records problem)))
          (Sees (timeAxisBuild (records problem)))
          (placingIndices (records problem) (timeAxisBuild (records problem)))
          offsets := by
  have inside : ∀ passed lifetime rest,
      placingIndices (records problem) (timeAxisBuild (records problem)) =
          passed ++ lifetime :: rest →
        ∀ earlier ∈ passed, earlier < (records problem).length := by
    intro passed lifetime rest split earlier mem
    refine List.mem_range.mp ((placingIndices_perm _ _).mem_iff.mp
      (?_ : earlier ∈ placingIndices _ (timeAxisBuild (records problem))))
    rw [split]
    exact List.mem_append_left _ mem
  constructor
  · intro clear offsets layout passed lifetime rest split earlier mem sees
      unrecorded
    have bound := inside passed lifetime rest split earlier mem
    refine clear offsets layout passed lifetime rest split earlier mem ?_ sees
    refine (admissible _ (mem_leaseAt bound)).ordered.antisymm (not_lt.mp ?_)
    exact fun held => unrecorded ((sees_iff_records bound held).mp sees)
  · intro clear offsets layout passed lifetime rest split earlier mem empty sees
    exact clear offsets layout passed lifetime rest split earlier mem sees
      (not_records_of_empty admissible
        (inside passed lifetime rest split earlier mem) empty)

/-- The compiled placement and the reference give the same offsets and the same
span where the strays of the compiled index stand in nobody's way and no sum wraps,
and only there: but for a lease at the bottom that meets the top, where a sum that
wraps to the bottom can answer as the reference does. -/
theorem placements_agree
    (problem : PlacementProblem)
    (version : problem.abiVersion = abiVersion)
    (masked : ∀ flags, problem.excluded = some flags →
      flags.length = problem.lifetimes.length)
    (admissible : ∀ lease ∈ problem.lifetimes, lease.Admissible)
    (small : ∀ lease ∈ problem.lifetimes, lease.alignment < modulus) :
    (InWords problem ∧ StraysClear problem → Agrees problem) ∧
      (Agrees problem → InWords problem ∧ (StraysClear problem ∨ MeetsTop problem)) := by
  have admissible' : ∀ lease ∈ records problem, lease.Admissible :=
    fun lease mem => admissible lease (mem_of_mem_records mem)
  have small' : ∀ lease ∈ records problem, lease.alignment < modulus :=
    fun lease mem => small lease (mem_of_mem_records mem)
  obtain ⟨initial, result, few, required, initialLength, placed, readable, bounded,
    same_length, agrees_same⟩ := agrees_iff_same version masked admissible
  obtain ⟨few', required', readable', fewLength, layout, spanned⟩ :=
    placeAll_layout admissible'
  obtain ⟨rfl, rfl⟩ := Prod.mk.inj (Option.some.inj (readable.symm.trans readable'))
  have perm := placingIndices_perm (records problem)
    (timeAxisBuild (records problem))
  have indices : ∀ index ∈ placingIndices (records problem)
      (timeAxisBuild (records problem)), index < (records problem).length :=
    fun index mem => List.mem_range.mp (perm.mem_iff.mp mem)
  rw [agrees_same]
  constructor
  · rintro ⟨inWords, clear⟩
    have ends : ∀ lifetime ∈ placingIndices (records problem)
        (timeAxisBuild (records problem)),
          few.getD lifetime 0 + (leaseAt (records problem) lifetime).bytes < modulus := by
      intro lifetime mem
      obtain ⟨passed, rest, split⟩ := List.append_of_mem mem
      exact (inWords few layout passed lifetime rest split).ends
    obtain ⟨final, finished, departs | followed⟩ :=
      placeRegion_follows admissible' small' initialLength layout ends
    · exact absurd departs (not_departs admissible' indices layout (inWords few layout)
        ((straysClear_iff problem admissible').mp clear few layout))
    · obtain rfl := Option.some.inj (placed.symm.trans finished)
      refine ⟨List.ext_getElem (fewLength.trans same_length.symm) ?_,
        spanned.trans followed.required.symm⟩
      intro index bound bound'
      rw [← List.getD_eq_getElem _ 0 bound, ← List.getD_eq_getElem _ 0 bound']
      exact (followed.same index (perm.mem_iff.mpr (List.mem_range.mpr
        (fewLength ▸ bound)))).symm
  · rintro ⟨same, sameSpan⟩
    -- The reference's layout is the only one there is, and it ends within 64 bits.
    have followed : ∀ offsets, IsLayout (records problem)
        (Records (timeAxisBuild (records problem)))
        (placingIndices (records problem) (timeAxisBuild (records problem))) offsets →
          ∃ final, Follows (records problem) offsets
            (placingIndices (records problem) (timeAxisBuild (records problem)))
              final := by
      intro offsets other
      have equal := layout.unique other
      refine follows_of_same admissible' small' initialLength other ?_ placed ?_
      · intro lifetime mem
        rw [← equal lifetime mem]
        refine lt_of_le_of_lt (finish_le_span mem) ?_
        rwa [← spanned, sameSpan]
      · intro lifetime mem
        rw [← equal lifetime mem, same]
    constructor
    · intro offsets other passed lifetime rest split
      obtain ⟨final, follows⟩ := followed offsets other
      exact follows.stands passed lifetime rest split
    · by_cases top : MeetsTop problem
      · exact Or.inr top
      · left
        intro offsets other passed lifetime rest split earlier mem _ sees address
        obtain ⟨final, follows⟩ := followed offsets other
        refine follows.clears split ?_ mem sees
        exact fun meets => top ⟨offsets, other, passed, lifetime, rest, split, meets⟩

/-- A lease of empty lifetime, one that spans it, and one that touches it. -/
def emptyLifetime : PlacementProblem where
  abiVersion := 3
  lifetimes := [⟨100, 1, 1, 1⟩, ⟨50, 1, 0, 2⟩, ⟨10, 1, 2, 3⟩]
  excluded := none

example : Reference.Placement.placeLifetimes emptyLifetime.lifetimes none =
    some ([0, 0, 0], 100) := by
  decide

example : placeLifetimes emptyLifetime ⟨0, [0, 0, 0]⟩ =
    (.ok, ⟨150, [0, 100, 0]⟩) := by
  decide

/-- The reference lets the second lease share the first one's addresses, the
compiled placement does not. -/
theorem not_agrees_emptyLifetime : ¬ Agrees emptyLifetime := by
  decide

/-- Three leases are placed alike, so their sums and strays are clear; those with the empty
lifetime are not, so theirs are not. -/
theorem placements_agree_emptyLifetime :
    (InWords threeLeases ∧ (StraysClear threeLeases ∨ MeetsTop threeLeases)) ∧
      ¬ (InWords emptyLifetime ∧ StraysClear emptyLifetime) := by
  constructor
  · exact (placements_agree threeLeases rfl (by simp [threeLeases]) (by decide)
      (by decide)).2 (by decide)
  · intro both
    exact absurd ((placements_agree emptyLifetime rfl (by simp [emptyLifetime]) (by decide)
      (by decide)).1 both) (by decide)

end ShadowSpill.Reference.PlacementAgreement
