import ShadowSpill.Library.Bisection
import ShadowSpill.Library.Word64

/-!
# The residency problem

What the reducer knows of a program: the capacity of each boundary, and for
each alias the sorted lists of the boundaries the program touches it at.  The
slices that the source cuts out of one array by its offsets are lists here, one
an alias.  An index of `UINT32_MAX` is `none`.
-/

namespace ShadowSpill.Planner.Residency.Problem

open Library.Bisection

/-- `SHADOWSPILL_MEMORY_DEVICE` and `SHADOWSPILL_MEMORY_SPILL`. -/
inductive MemoryLocation where
  | device
  | spill
deriving DecidableEq, Repr

/-- One anchor: the boundary, the latest and the earliest task that accesses the
alias there, and the anchor's flags. -/
structure Anchor where
  position : Nat
  latest : Option Nat
  earliest : Option Nat
  input : Bool
  produced : Bool
deriving DecidableEq, Repr

/-- `ShadowSpillPressureFitResidencyProblem`, with its `alias_` prefixes. -/
structure ResidencyProblem where
  aliasCount : Nat
  boundaryCount : Nat
  deviceCount : Nat
  aliasSizeBytes : Nat → Nat
  aliasDevice : Nat → Nat
  aliasRetainSpillCopy : Nat → Bool
  initialLocation : Nat → Option MemoryLocation
  finalLocation : Nat → Option MemoryLocation
  fetchRuntimeNs : Nat → Nat
  evictRuntimeNs : Nat → Nat
  taskIdealEndNs : Nat → Nat
  boundaryCapacityBytes : Nat → Nat → Nat
  devicePriority : Nat → Nat
  anchors : Nat → List Anchor
  reservedPositions : Nat → List Nat
  writeBoundaries : Nat → List Nat
  /-- `alias_evict_eligible`: the reducer may cut the alias. -/
  mayCut : Nat → Bool

/-- The sorted lists a prepared problem owns. -/
structure SortedLists (problem : ResidencyProblem) : Prop where
  anchors : ∀ aliasId, ((problem.anchors aliasId).map Anchor.position).Pairwise (· < ·)
  reserved : ∀ aliasId, (problem.reservedPositions aliasId).Pairwise (· < ·)

/-! ## Lookups -/

/-- `shadowspill_anchor_lower_bound`: the first index whose position is not
below the boundary. -/
def lowerBound (positions : List Nat) (boundary : Nat) : Nat :=
  bisect (fun index => positions.getD index 0 < boundary) positions.length 0
    positions.length

/-- `shadowspill_anchor_at`. -/
def anchorAt (problem : ResidencyProblem) (aliasId boundary : Nat) : Option Anchor :=
  let anchors := problem.anchors aliasId
  match anchors[lowerBound (anchors.map Anchor.position) boundary]? with
  | none => none
  | some anchor => if anchor.position = boundary then some anchor else none

/-- `shadowspill_produced_at`. -/
def producedAt (problem : ResidencyProblem) (aliasId boundary : Nat) : Bool :=
  (anchorAt problem aliasId boundary).any Anchor.produced

/-- `shadowspill_reserved_at`. -/
def reservedAt (problem : ResidencyProblem) (aliasId boundary : Nat) : Bool :=
  let reserved := problem.reservedPositions aliasId
  reserved[lowerBound reserved boundary]?.any (· == boundary)

/-- `shadowspill_written_by`. -/
def writtenBy (problem : ResidencyProblem) (aliasId boundary : Nat) : Bool :=
  (problem.writeBoundaries aliasId).head?.any (· ≤ boundary)

/-- Some anchor's latest task is later than `after`. -/
def Anchor.accessedAfter (anchor : Anchor) (after : Int) : Bool :=
  anchor.latest.any fun task : Nat => (task : Int) > after

/-- `shadowspill_span_accessed_after`. -/
def spanAccessedAfter (problem : ResidencyProblem) (aliasId start finish : Nat)
    (after : Int) : Bool :=
  let anchors := problem.anchors aliasId
  let first := lowerBound (anchors.map Anchor.position) start
  ((anchors.drop first).takeWhile fun anchor => anchor.position ≤ finish).any
    fun anchor => anchor.accessedAfter after

/-! ## What the lookups find -/

section Lookups

variable {positions : List Nat} {boundary : Nat}

theorem lowerBound_partitions (sorted : positions.Pairwise (· < ·)) :
    Partitions (fun index => decide (positions.getD index 0 < boundary)) 0
      positions.length (lowerBound positions boundary) := by
  apply bisect_partitions _ _ _ _ le_rfl (Nat.zero_le _)
  intro first second _ ordered bound below
  simp only [decide_eq_true_eq] at below ⊢
  rcases Nat.lt_or_eq_of_le ordered with before | rfl
  · have rises := List.pairwise_iff_getElem.1 sorted first second (by omega) bound before
    rw [List.getD_eq_getElem _ _ (by omega)]
    rw [List.getD_eq_getElem _ _ bound] at below
    omega
  · exact below

/-- The lookup in an ascending list finds the boundary exactly when it is
there. -/
theorem getElem?_lowerBound (sorted : positions.Pairwise (· < ·)) :
    positions[lowerBound positions boundary]? = some boundary ↔
      boundary ∈ positions := by
  have parts := @lowerBound_partitions positions boundary sorted
  constructor
  · exact List.mem_of_getElem?
  · intro mem
    obtain ⟨index, bound, rfl⟩ := List.getElem_of_mem mem
    have after : lowerBound positions positions[index] ≤ index := by
      by_contra past
      have below := parts.before index (Nat.zero_le _) (by omega)
      simp only [decide_eq_true_eq, List.getD_eq_getElem _ _ bound] at below
      omega
    rcases Nat.lt_or_eq_of_le after with before | same
    · have reached := parts.after _ le_rfl (by omega)
      have rises := List.pairwise_iff_getElem.1 sorted _ index (by omega) bound before
      simp only [decide_eq_false_iff_not,
        List.getD_eq_getElem _ _ (show lowerBound positions positions[index] <
          positions.length by omega)] at reached
      omega
    · rw [same, List.getElem?_eq_getElem bound]

/-- From the lookup's index on lie the boundaries that are not below. -/
theorem mem_drop_lowerBound (sorted : positions.Pairwise (· < ·)) {point : Nat} :
    point ∈ positions.drop (lowerBound positions boundary) ↔
      boundary ≤ point ∧ point ∈ positions := by
  have parts := @lowerBound_partitions positions boundary sorted
  constructor
  · intro mem
    refine ⟨?_, List.mem_of_mem_drop mem⟩
    obtain ⟨index, bound, rfl⟩ := List.getElem_of_mem mem
    rw [List.length_drop] at bound
    have reached := parts.after (lowerBound positions boundary + index)
      (Nat.le_add_right _ _) (by omega)
    simp only [decide_eq_false_iff_not, not_lt] at reached
    rwa [List.getD_eq_getElem _ _ (by omega), ← List.getElem_drop] at reached
  · rintro ⟨lower, mem⟩
    obtain ⟨index, bound, rfl⟩ := List.getElem_of_mem mem
    have past : lowerBound positions boundary ≤ index := by
      by_contra before
      have below := parts.before index (Nat.zero_le _) (by omega)
      simp only [decide_eq_true_eq, List.getD_eq_getElem _ _ bound] at below
      omega
    apply List.mem_iff_getElem.2
      ⟨index - lowerBound positions boundary, by rw [List.length_drop]; omega, ?_⟩
    rw [List.getElem_drop]
    congr 1
    omega

/-- Up to the lookup's index lie the boundaries that are below. -/
theorem mem_take_lowerBound (sorted : positions.Pairwise (· < ·)) {point : Nat} :
    point ∈ positions.take (lowerBound positions boundary) ↔
      point < boundary ∧ point ∈ positions := by
  have parts := @lowerBound_partitions positions boundary sorted
  constructor
  · intro mem
    refine ⟨?_, List.mem_of_mem_take mem⟩
    obtain ⟨index, bound, rfl⟩ := List.getElem_of_mem mem
    rw [List.length_take] at bound
    have below := parts.before index (Nat.zero_le _) (by omega)
    simp only [decide_eq_true_eq] at below
    rwa [List.getD_eq_getElem _ _ (by omega), ← List.getElem_take] at below
  · rintro ⟨below, mem⟩
    rw [← List.take_append_drop (lowerBound positions boundary) positions] at mem
    rcases List.mem_append.1 mem with mem | mem
    · exact mem
    · have reached := (mem_drop_lowerBound sorted).1 mem
      omega

end Lookups

/-- In ascending order the anchors up to a boundary come first. -/
theorem mem_takeWhile_ascending {anchors : List Anchor} {anchor : Anchor}
    {finish : Nat}
    (ascending : anchors.Pairwise fun first second => first.position < second.position)
    (mem : anchor ∈ anchors) (upper : anchor.position ≤ finish) :
    anchor ∈ anchors.takeWhile fun other => other.position ≤ finish := by
  induction anchors with
  | nil => cases mem
  | cons first rest ih =>
      rw [List.pairwise_cons] at ascending
      have lower : first.position ≤ finish := by
        rcases List.mem_cons.1 mem with rfl | later
        · exact upper
        · exact le_trans (le_of_lt (ascending.1 anchor later)) upper
      rw [List.takeWhile_cons, if_pos (by simpa using lower)]
      rcases List.mem_cons.1 mem with rfl | later
      · exact List.mem_cons_self
      · exact List.mem_cons_of_mem _ (ih ascending.2 later)

section Sorted

variable {problem : ResidencyProblem} {aliasId boundary : Nat} {anchor : Anchor}

/-- An anchor is found at its own boundary, and there is no other one there. -/
theorem anchorAt_eq_some (sorted : SortedLists problem) :
    anchorAt problem aliasId boundary = some anchor ↔
      anchor ∈ problem.anchors aliasId ∧ anchor.position = boundary := by
  have ascending := sorted.anchors aliasId
  have found := @getElem?_lowerBound _ boundary ascending
  rw [List.getElem?_map] at found
  unfold anchorAt
  simp only
  constructor
  · intro result
    cases looked : (problem.anchors aliasId)[lowerBound
        ((problem.anchors aliasId).map Anchor.position) boundary]? with
    | none => simp [looked] at result
    | some other =>
        simp only [looked] at result
        split_ifs at result with here
        cases result
        exact ⟨List.mem_of_getElem? looked, here⟩
  · rintro ⟨mem, rfl⟩
    have there := found.2 (List.mem_map_of_mem mem)
    cases looked : (problem.anchors aliasId)[lowerBound
        ((problem.anchors aliasId).map Anchor.position) anchor.position]? with
    | none => simp [looked] at there
    | some other =>
        simp only [looked, Option.map_some, Option.some.injEq] at there ⊢
        rw [if_pos there]
        congr 1
        exact List.inj_on_of_nodup_map (ascending.imp ne_of_lt)
          (List.mem_of_getElem? looked) mem there

theorem producedAt_iff (sorted : SortedLists problem) :
    producedAt problem aliasId boundary = true ↔
      ∃ anchor ∈ problem.anchors aliasId,
        anchor.position = boundary ∧ anchor.produced = true := by
  unfold producedAt
  rw [Option.any_eq_true]
  constructor
  · rintro ⟨anchor, found, produced⟩
    obtain ⟨mem, here⟩ := (anchorAt_eq_some sorted).1 found
    exact ⟨anchor, mem, here, produced⟩
  · rintro ⟨anchor, mem, here, produced⟩
    exact ⟨anchor, (anchorAt_eq_some sorted).2 ⟨mem, here⟩, produced⟩

theorem spanAccessedAfter_iff (sorted : SortedLists problem) {start finish : Nat}
    {after : Int} :
    spanAccessedAfter problem aliasId start finish after = true ↔
      ∃ anchor ∈ problem.anchors aliasId,
        start ≤ anchor.position ∧ anchor.position ≤ finish ∧
          anchor.accessedAfter after = true := by
  have ascending := sorted.anchors aliasId
  have parts := @lowerBound_partitions _ start ascending
  have distinct : (problem.anchors aliasId).Pairwise
      fun first second => first.position < second.position :=
    List.pairwise_map.1 ascending
  unfold spanAccessedAfter
  simp only [List.any_eq_true]
  generalize lowerBound ((problem.anchors aliasId).map Anchor.position) start = first
    at parts
  constructor
  · rintro ⟨anchor, mem, accessed⟩
    have inside := List.mem_takeWhile_imp mem
    have dropped := (List.takeWhile_sublist _).subset mem
    obtain ⟨index, bound, rfl⟩ := List.getElem_of_mem dropped
    rw [List.length_drop] at bound
    rw [List.getElem_drop] at inside accessed
    refine ⟨_, List.getElem_mem _, ?_, by simpa using inside, accessed⟩
    have reached := parts.after (first + index) (Nat.le_add_right _ _)
      (by rw [List.length_map]; omega)
    simp only [decide_eq_false_iff_not, not_lt] at reached
    rwa [List.getD_eq_getElem _ _ (by rw [List.length_map]; omega), List.getElem_map]
      at reached
  · rintro ⟨anchor, mem, lower, upper, accessed⟩
    refine ⟨anchor, ?_, accessed⟩
    obtain ⟨index, bound, rfl⟩ := List.getElem_of_mem mem
    have past : first ≤ index := by
      by_contra before
      have below := parts.before index (Nat.zero_le _) (by omega)
      simp only [decide_eq_true_eq] at below
      rw [List.getD_eq_getElem _ _ (by rw [List.length_map]; omega), List.getElem_map]
        at below
      omega
    apply mem_takeWhile_ascending (distinct.sublist (List.drop_sublist _ _)) _ upper
    apply List.mem_iff_getElem.2 ⟨index - first, by rw [List.length_drop]; omega, ?_⟩
    rw [List.getElem_drop]
    congr 1
    omega

end Sorted

end ShadowSpill.Planner.Residency.Problem
