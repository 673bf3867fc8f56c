import ShadowSpill.Planner.Search.Resolutions
import ShadowSpill.Ir.Resolution
import Mathlib.Algebra.Order.Floor.Ring
import Mathlib.Tactic.Linarith

/-!
# A share is met exactly

When every group offers save and recompute and there are too many resolutions to
enumerate, each share gives a resolution that recomputes the nearest whole number of the
flexible groups, ties up, leaves every forced group at its forced option, and reports
that number over the flexible groups as its share.
-/

namespace ShadowSpill.Planner.Search.ResolutionShares

open Resolutions Ir.Program Ir.Selection Ir.ConstructionFacts Ir.Resolution
open Library.Checks Library.Lockstep

/-! ## Runs over lists -/

section Lists

variable {α β : Type}

/-- A map whose every step succeeds succeeds, element by element. -/
theorem mapM_eq_pure {m : Type → Type} [Monad m] [LawfulMonad m] {f : α → m β}
    {relation : α → β → Prop} {values : List α}
    (each : ∀ value ∈ values, ∃ result, f value = pure result ∧ relation value result) :
    ∃ results, values.mapM f = pure results ∧ List.Forall₂ relation values results := by
  induction values with
  | nil => exact ⟨[], List.mapM_nil, List.Forall₂.nil⟩
  | cons head rest inductionHypothesis =>
      rcases each head List.mem_cons_self with ⟨first, headRun, headRelated⟩
      rcases inductionHypothesis fun value mem => each value (List.mem_cons_of_mem head mem)
        with ⟨others, restRun, related⟩
      refine ⟨first :: others, ?_, List.Forall₂.cons headRelated related⟩
      rw [List.mapM_cons, headRun, restRun, pure_bind, pure_bind]

/-- The number of elements that pass is the number of places that do. -/
theorem countP_eq_card (values : List α) (passes : α → Bool) :
    values.countP passes =
      ((Finset.range values.length).filter fun index =>
        (values[index]?).any passes = true).card := by
  induction values using List.reverseRecOn with
  | nil => rfl
  | append_singleton front last inductionHypothesis =>
      have before : (Finset.range front.length).filter (fun index =>
            ((front ++ [last])[index]?).any passes = true) =
          (Finset.range front.length).filter fun index =>
            (front[index]?).any passes = true := by
        apply Finset.filter_congr
        intro index inside
        rw [List.getElem?_append_left (Finset.mem_range.mp inside)]
      have atEnd : (front ++ [last])[front.length]? = some last := by simp
      rw [List.countP_append, inductionHypothesis, List.length_append, List.length_singleton,
        Finset.range_add_one, Finset.filter_insert, before, atEnd, List.countP_singleton]
      cases passed : passes last with
      | false => simp [passed]
      | true =>
          have fresh : front.length ∉ (Finset.range front.length).filter fun index =>
              (front[index]?).any passes = true := by
            simp
          simp [passed, Finset.card_insert_of_notMem fresh]

/-- A relation that tells its left sides apart keeps a list without duplicates. -/
theorem forall₂_nodup {relation : α → β → Prop} {values : List α} {others : List β}
    (related : List.Forall₂ relation values others) (nodup : values.Nodup)
    (apart : ∀ first ∈ values, ∀ second ∈ values, ∀ other,
      relation first other → relation second other → first = second) :
    others.Nodup := by
  induction related with
  | nil => exact List.nodup_nil
  | @cons head other rest others first later inductionHypothesis =>
      rw [List.nodup_cons] at nodup ⊢
      constructor
      · intro again
        rcases List.forall₂_iff_get.mp later with ⟨sameLength, pointwise⟩
        rcases List.mem_iff_get.mp again with ⟨place, isOther⟩
        have inside : place.1 < rest.length := by
          rw [sameLength]
          exact place.2
        have linked := pointwise place.1 inside place.2
        rw [isOther] at linked
        have same := apart head List.mem_cons_self _
          (List.mem_cons_of_mem head (List.get_mem rest ⟨place.1, inside⟩)) other first linked
        exact nodup.1 (same ▸ List.get_mem rest ⟨place.1, inside⟩)
      · exact inductionHypothesis nodup.2 fun one oneMem two twoMem =>
          apart one (List.mem_cons_of_mem head oneMem) two (List.mem_cons_of_mem head twoMem)

end Lists

/-! ## Evenly spaced positions -/

variable {total count : Nat}

theorem spacedPosition_lt {position : Nat} (few : count ≤ total) (inside : position < count) :
    spacedPosition total count position < total := by
  have whole : 0 < total := by omega
  apply Nat.div_lt_of_lt_mul
  exact Nat.mul_lt_mul_of_pos_right (by omega) whole

/-- A later position is further on, since a stretch is at least one place long. -/
theorem spacedPosition_strictMono {first second : Nat} (few : count ≤ total)
    (positive : 0 < count) (before : first < second) :
    spacedPosition total count first < spacedPosition total count second := by
  have further : (2 * first + 1) * total + 2 * count ≤ (2 * second + 1) * total :=
    calc
      (2 * first + 1) * total + 2 * count ≤ (2 * first + 1) * total + 2 * total := by omega
      _ = (2 * (first + 1) + 1) * total := by ring
      _ ≤ (2 * second + 1) * total := Nat.mul_le_mul_right total (by omega)
  calc
    spacedPosition total count first < spacedPosition total count first + 1 :=
      Nat.lt_succ_self _
    _ = ((2 * first + 1) * total + 2 * count) / (2 * count) :=
      (Nat.add_div_right _ (by omega)).symm
    _ ≤ spacedPosition total count second := Nat.div_le_div_right further

/-- Positions in range, each once. -/
structure Spaced (total count : Nat) (positions : List Nat) : Prop where
  length : positions.length = count
  nodup : positions.Nodup
  inside : ∀ position ∈ positions, position < total

theorem spacedPositions_spaced (few : count ≤ total) (positive : 0 < count) :
    Spaced total count ((List.range count).map (spacedPosition total count)) where
  length := by rw [List.length_map, List.length_range]
  nodup := by
    apply List.Nodup.map_on _ List.nodup_range
    intro first _ second _ same
    rcases Nat.lt_trichotomy first second with before | equal | after
    · exact absurd same (spacedPosition_strictMono few positive before).ne
    · exact equal
    · exact absurd same (spacedPosition_strictMono few positive after).ne'
  inside := by
    intro place mem
    rcases List.mem_map.mp mem with ⟨position, inRange, rfl⟩
    exact spacedPosition_lt few (List.mem_range.mp inRange)

theorem evenlySpacedIndices_spaced (few : count ≤ total) :
    ∃ positions, evenlySpacedIndices total count = .ok positions ∧
      Spaced total count positions := by
  unfold evenlySpacedIndices
  rw [if_neg (by omega)]
  by_cases none : count = 0
  · subst none
    exact ⟨[], rfl, rfl, List.nodup_nil, fun _ mem => (List.not_mem_nil mem).elim⟩
  · rw [if_neg (by omega)]
    by_cases all : count = total
    · subst all
      exact ⟨List.range count, if_pos rfl, List.length_range, List.nodup_range,
        fun _ => List.mem_range.mp⟩
    · rw [if_neg (by omega), Int.toNat_natCast]
      exact ⟨_, rfl, spacedPositions_spaced few (Nat.pos_of_ne_zero none)⟩

/-! ## Rounding a share -/

/-- The nearest whole number, ties up. -/
def roundHalfUp (value : ℚ) : Nat :=
  ⌊value + 1 / 2⌋₊

theorem truncate_of_nonneg {value : ℚ} (nonneg : 0 ≤ value) :
    truncate value = (⌊value⌋₊ : Int) := by
  rw [Int.natCast_floor_eq_floor nonneg, Rat.floor_def']
  exact Int.tdiv_eq_ediv_of_nonneg (Rat.num_nonneg.mpr nonneg)

theorem roundHalfUp_le {share : ℚ} (upper : share ≤ 1) (groups : Nat) :
    roundHalfUp (groups * share) ≤ groups := by
  have most : (groups : ℚ) * share ≤ groups := by
    calc
      (groups : ℚ) * share ≤ groups * 1 :=
        mul_le_mul_of_nonneg_left upper (Nat.cast_nonneg groups)
      _ = groups := mul_one _
  apply Nat.lt_succ_iff.mp
  apply (Nat.floor_lt' (Nat.succ_ne_zero groups)).mpr
  push_cast
  linarith

theorem roundHalfUp_mono {first second : ℚ} (le : first ≤ second) :
    roundHalfUp first ≤ roundHalfUp second :=
  Nat.floor_mono (by linarith)

/-! ## Programs of pairs -/

/-- The options are save and recompute, in either order. -/
def IsPair (optionIds : List String) : Prop :=
  optionIds = [saveOption, recomputeOption] ∨ optionIds = [recomputeOption, saveOption]

/-- Every group of the program offers save and recompute, and nothing else. -/
def OffersPairs (program : MeasuredProgram) : Prop :=
  ∀ group ∈ program.taskAlternativeGroups, IsPair (group.options.map (·.optionId))

theorem save_ne_recompute : saveOption ≠ recomputeOption := by decide

/-- The endpoints of a group are the places of its two options. -/
structure PairAt (group : CostedGroup) (endpoint : Nat × Nat) : Prop where
  offers : IsPair (group.options.map (·.optionId))
  save : (group.options[endpoint.1]?).map (·.optionId) = some saveOption
  recompute : (group.options[endpoint.2]?).map (·.optionId) = some recomputeOption

theorem pairAt_of_isPair {group : CostedGroup}
    (offers : IsPair (group.options.map (·.optionId))) :
    ∃ endpoint, group.binaryEndpoints = some endpoint ∧ PairAt group endpoint := by
  unfold CostedGroup.binaryEndpoints
  rcases offers with same | same
  · refine ⟨(0, 1), ?_, Or.inl same, ?_, ?_⟩
    · rw [same]
      rfl
    · rw [← List.getElem?_map, same]
      rfl
    · rw [← List.getElem?_map, same]
      rfl
  · refine ⟨(1, 0), ?_, Or.inr same, ?_, ?_⟩
    · rw [same]
      rfl
    · rw [← List.getElem?_map, same]
      rfl
    · rw [← List.getElem?_map, same]
      rfl

theorem IsPair.length_eq {optionIds : List String} (pair : IsPair optionIds) :
    optionIds.length = 2 := by
  rcases pair with same | same
  all_goals
    rw [same]
    rfl

theorem IsPair.nodup {optionIds : List String} (pair : IsPair optionIds) :
    optionIds.Nodup := by
  rcases pair with same | same
  all_goals
    rw [same]
    decide

/-- The option of a pair determines its place. -/
theorem PairAt.place_unique {group : CostedGroup} {endpoint : Nat × Nat}
    (pair : PairAt group endpoint) {first second : Nat}
    (firstInside : first < group.options.length)
    (same : (group.options[first]?).map (·.optionId) =
      (group.options[second]?).map (·.optionId)) : first = second := by
  rw [← List.getElem?_map, ← List.getElem?_map] at same
  exact (List.getElem?_inj (by rwa [List.length_map]) pair.offers.nodup).mp same

theorem PairAt.inside {group : CostedGroup} {endpoint : Nat × Nat}
    (pair : PairAt group endpoint) :
    endpoint.1 < group.options.length ∧ endpoint.2 < group.options.length := by
  constructor
  · rcases Option.map_eq_some_iff.mp pair.save with ⟨_, found, _⟩
    exact (List.getElem?_eq_some_iff.mp found).1
  · rcases Option.map_eq_some_iff.mp pair.recompute with ⟨_, found, _⟩
    exact (List.getElem?_eq_some_iff.mp found).1

/-! ## Costing never fails on pairs -/

variable {program : MeasuredProgram}

theorem forwardSinkSave_ok (program : MeasuredProgram) {group : TaskAlternativeGroup}
    (offers : IsPair (group.options.map (·.optionId))) :
    ∃ structural, forwardSinkSave program group = .ok structural ∧
      ∀ index ∈ structural, index < group.options.length := by
  have saves : ∃ save, group.options.findIdxs (·.optionId = saveOption) = [save] ∧
      save < group.options.length := by
    rcases group with ⟨⟨groupId, options⟩, checked⟩
    dsimp only at offers ⊢
    match options, offers with
    | [first, second], offers =>
        rcases offers with same | same
        · injection same with firstId rest
          injection rest with secondId _
          refine ⟨0, ?_, by simp⟩
          simp [List.findIdxs_cons, firstId, secondId, save_ne_recompute.symm]
        · injection same with firstId rest
          injection rest with secondId _
          refine ⟨1, ?_, by simp⟩
          simp [List.findIdxs_cons, firstId, secondId, save_ne_recompute.symm]
    | [], offers => exact absurd offers.length_eq (by simp)
    | [_], offers => exact absurd offers.length_eq (by simp)
    | _ :: _ :: _ :: _, offers => exact absurd offers.length_eq (by simp)
  rcases saves with ⟨save, found, inside⟩
  unfold forwardSinkSave
  dsimp only
  rw [found]
  split
  · exact ⟨none, rfl, fun _ mem => by cases mem⟩
  · exact ⟨some save, rfl, fun index mem => Option.mem_some_iff.mp mem ▸ inside⟩

theorem leastIndex_lt {key : CostedOption → Nat ×ₗ Nat} {options : List CostedOption}
    {index : Nat} (found : leastIndex key options = some index) : index < options.length := by
  rcases Option.map_eq_some_iff.mp found with ⟨⟨option, place⟩, least, rfl⟩
  have atPlace := List.mem_zipIdx_iff_getElem?.mp (List.argmin_mem least)
  exact (List.getElem?_eq_some_iff.mp atPlace).1

theorem forcedByEqualRetention_lt {options : List CostedOption} {index : Nat}
    (found : forcedByEqualRetention options = some index) : index < options.length := by
  unfold forcedByEqualRetention at found
  split at found
  · split at found
    · cases found
    · rename_i nonempty
      cases found
      exact List.length_pos_iff.mpr fun empty => nonempty (by rw [empty]; rfl)
  · split at found
    · cases found
    · exact leastIndex_lt found

theorem costedGroup_pair {group : TaskAlternativeGroup} {structural : Option Nat}
    (offers : IsPair (group.options.map (·.optionId))) :
    IsPair ((costedGroup program group structural).options.map (·.optionId)) := by
  unfold costedGroup
  rw [List.map_map]
  exact offers

theorem costedGroup_forced {group : TaskAlternativeGroup} {structural : Option Nat}
    (inside : ∀ index ∈ structural, index < group.options.length) {index : Nat}
    (forced : (costedGroup program group structural).forcedIndex = some index) :
    index < (costedGroup program group structural).options.length := by
  unfold costedGroup at forced ⊢
  cases structural with
  | none => exact forcedByEqualRetention_lt forced
  | some save =>
      cases forced
      rw [List.length_map]
      exact inside index rfl

/-- A costed pair whose forced option, if it has one, is an option. -/
structure Paired (group : CostedGroup) : Prop where
  pair : IsPair (group.options.map (·.optionId))
  forced : ∀ index, group.forcedIndex = some index → index < group.options.length

/-- Costing succeeds on pairs, with the program's groups in their order. -/
theorem fromProgram_ok (offers : OffersPairs program) :
    ∃ costed, fromProgram program = .ok costed ∧
      costed.groups.map (·.groupId) = program.taskAlternativeGroups.map (·.groupId) ∧
      ∀ group ∈ costed.groups, Paired group := by
  have each : ∀ group ∈ program.taskAlternativeGroups, ∃ structural,
      forwardSinkSave program group = pure structural ∧
        Paired (costedGroup program group structural) := by
    intro group mem
    rcases forwardSinkSave_ok program (offers group mem) with ⟨structural, ran, inside⟩
    exact ⟨structural, ran, costedGroup_pair (offers group mem),
      fun _ => costedGroup_forced inside⟩
  rcases mapM_eq_pure each with ⟨structural, ran, related⟩
  refine ⟨_, bind_ok.mpr ⟨structural, ran, rfl⟩, ?_⟩
  dsimp only
  clear ran offers
  generalize program.taskAlternativeGroups = groups at related
  induction related with
  | nil => exact ⟨rfl, fun _ mem => (List.not_mem_nil mem).elim⟩
  | cons first _ inductionHypothesis =>
      refine ⟨congrArg (List.cons _) inductionHypothesis.1, ?_⟩
      rw [List.zipWith_cons_cons]
      exact List.forall_mem_cons.mpr ⟨first, inductionHypothesis.2⟩

/-! ## Choosing by endpoints -/

variable {costed : CostedAlternatives} {endpoints : List (Nat × Nat)}

theorem binaryEndpoints_some (paired : ∀ group ∈ costed.groups, Paired group) :
    ∃ endpoints, costed.binaryEndpoints = some endpoints ∧
      List.Forall₂ PairAt costed.groups endpoints :=
  mapM_eq_pure fun group mem => pairAt_of_isPair (paired group mem).pair

/-- Places of a list that are in range and distinct pick as many distinct elements. -/
theorem picked_spec {flexible positions : List Nat} (nodup : flexible.Nodup) {count : Nat}
    (spaced : Spaced flexible.length count positions) :
    (positions.filterMap (flexible[·]?)).Nodup ∧
      (positions.filterMap (flexible[·]?)).length = count ∧
      ∀ index ∈ positions.filterMap (flexible[·]?), index ∈ flexible := by
  have atPlace : ∀ position ∈ positions, ∃ inside : position < flexible.length,
      flexible.getD position 0 = flexible[position] := by
    intro position mem
    refine ⟨spaced.inside position mem, ?_⟩
    rw [List.getD_eq_getElem?_getD, List.getElem?_eq_getElem (spaced.inside position mem),
      Option.getD_some]
  have picks : positions.filterMap (flexible[·]?) = positions.map (flexible.getD · 0) := by
    rw [← List.filterMap_eq_map]
    apply List.filterMap_congr
    intro position mem
    rcases atPlace position mem with ⟨inside, same⟩
    rw [List.getElem?_eq_getElem inside, Function.comp_apply, same]
  rw [picks]
  refine ⟨?_, by rw [List.length_map, spaced.length], ?_⟩
  · apply List.Nodup.map_on _ spaced.nodup
    intro first firstMem second secondMem same
    rcases atPlace first firstMem with ⟨_, firstAt⟩
    rcases atPlace second secondMem with ⟨_, secondAt⟩
    rw [firstAt, secondAt] at same
    exact (List.Nodup.getElem_inj_iff nodup).mp same
  · intro index mem
    rcases List.mem_map.mp mem with ⟨position, posMem, rfl⟩
    rcases atPlace position posMem with ⟨_, same⟩
    rw [same]
    exact List.getElem_mem _

theorem groupFraction_ok (endpoints : List (Nat × Nat)) (forced : Nat → Option Nat)
    {share : ℚ} (lower : 0 ≤ share)
    (upper : share ≤ 1) :
    ∃ recomputing, groupFraction endpoints forced share =
        .ok (fractionIndices endpoints forced recomputing) ∧
      recomputing.Nodup ∧
      recomputing.length = roundHalfUp ((flexibleGroups endpoints forced).length * share) ∧
      ∀ index ∈ recomputing, index ∈ flexibleGroups endpoints forced := by
  have nonneg : 0 ≤ ((flexibleGroups endpoints forced).length * share + 1 / 2 : ℚ) := by
    have product := mul_nonneg (Nat.cast_nonneg (flexibleGroups endpoints forced).length) lower
    linarith
  rcases evenlySpacedIndices_spaced (roundHalfUp_le upper
      (flexibleGroups endpoints forced).length) with ⟨positions, ran, spaced⟩
  have nodup : (flexibleGroups endpoints forced).Nodup := List.nodup_range.filter _
  refine ⟨positions.filterMap ((flexibleGroups endpoints forced)[·]?), ?_,
    picked_spec nodup spaced⟩
  unfold groupFraction
  dsimp only
  rw [truncate_of_nonneg nonneg]
  exact bind_ok.mpr ⟨positions, ran, rfl⟩

/-! ## Resolutions of option indices -/

/-- The choices that a list of option indices makes, group by group. -/
structure ChoosesAt (costed : CostedAlternatives) (indices : List Nat)
    (resolution : Resolution) : Prop where
  length : resolution.length = costed.groups.length
  choice : ∀ (index : Nat) (group : CostedGroup) (option : Nat),
    costed.groups[index]? = some group → indices[index]? = some option →
    resolution[index]? = (group.options[option]?).map fun chosen =>
      (⟨group.groupId, chosen.optionId⟩ : TaskAlternativeChoice)

theorem resolution_ok {indices : List Nat}
    (sameLength : indices.length = costed.groups.length)
    (inside : ∀ (index : Nat) (group : CostedGroup) (option : Nat),
      costed.groups[index]? = some group → indices[index]? = some option →
      option < group.options.length) :
    ∃ resolution, Resolutions.resolution costed indices = .ok resolution ∧
      ChoosesAt costed indices resolution := by
  have each : ∀ entry ∈ costed.groups.zip indices, ∃ choice,
      choiceAt entry.1 entry.2 = pure choice ∧
        (entry.1.options[entry.2]?).map (fun chosen =>
          (⟨entry.1.groupId, chosen.optionId⟩ : TaskAlternativeChoice)) = some choice := by
    intro entry mem
    rcases List.mem_iff_getElem?.mp mem with ⟨index, found⟩
    rw [List.getElem?_zip_eq_some] at found
    have bounded := inside index entry.1 entry.2 found.1 found.2
    unfold choiceAt
    rw [List.getElem?_eq_getElem bounded]
    exact ⟨_, rfl, rfl⟩
  rcases mapM_eq_pure each with ⟨resolution, ran, related⟩
  refine ⟨resolution, ran, ?_, ?_⟩
  · rw [← related.length_eq, List.length_zip, sameLength, Nat.min_self]
  · intro index group option groupAt optionAt
    have zipped : (costed.groups.zip indices)[index]? = some (group, option) :=
      List.getElem?_zip_eq_some.mpr ⟨groupAt, optionAt⟩
    rcases forall₂_get related zipped with ⟨choice, choiceAt, made⟩
    rw [choiceAt, ← made]

theorem ChoosesAt.groupIds {indices : List Nat} {resolution : Resolution}
    (chooses : ChoosesAt costed indices resolution)
    (sameLength : indices.length = costed.groups.length) :
    resolution.map (·.groupId) = costed.groups.map (·.groupId) := by
  apply List.ext_getElem?
  intro index
  rw [List.getElem?_map, List.getElem?_map]
  cases groupAt : costed.groups[index]? with
  | none =>
      have beyond : resolution.length ≤ index := by
        rw [chooses.length]
        exact List.getElem?_eq_none_iff.mp groupAt
      rw [List.getElem?_eq_none_iff.mpr beyond]
      rfl
  | some group =>
      have insideGroups := (List.getElem?_eq_some_iff.mp groupAt).1
      have insideIndices : index < indices.length := by rwa [sameLength]
      have chosen := chooses.choice index group _ groupAt (List.getElem?_eq_getElem insideIndices)
      have insideResolution : index < resolution.length := by rwa [chooses.length]
      rw [List.getElem?_eq_getElem insideResolution] at chosen ⊢
      rcases Option.map_eq_some_iff.mp chosen.symm with ⟨_, _, same⟩
      rw [Option.map_some, ← same]
      rfl

theorem forced_of_group {index : Nat} {group : CostedGroup}
    (groupAt : costed.groups[index]? = some group) :
    costed.forced index = group.forcedIndex := by
  unfold CostedAlternatives.forced
  rw [groupAt, Option.bind_some]

theorem fractionIndices_length {forced : Nat → Option Nat} {recomputing : List Nat} :
    (fractionIndices endpoints forced recomputing).length = endpoints.length :=
  List.length_mapIdx

theorem fractionIndices_at (forced : Nat → Option Nat) (recomputing : List Nat) {index : Nat}
    {endpoint : Nat × Nat} (endpointAt : endpoints[index]? = some endpoint) :
    (fractionIndices endpoints forced recomputing)[index]? =
      some ((forced index).getD
        (if index ∈ recomputing then endpoint.2 else endpoint.1)) := by
  unfold fractionIndices
  rw [List.getElem?_mapIdx, endpointAt, Option.map_some]

/-- The options of a fraction are options of their groups. -/
theorem fractionIndices_inside (paired : ∀ group ∈ costed.groups, Paired group)
    (atEndpoints : List.Forall₂ PairAt costed.groups endpoints) {recomputing : List Nat}
    (index : Nat) (group : CostedGroup) (option : Nat)
    (groupAt : costed.groups[index]? = some group)
    (optionAt : (fractionIndices endpoints costed.forced recomputing)[index]? = some option) :
    option < group.options.length := by
  rcases forall₂_get atEndpoints groupAt with ⟨endpoint, endpointAt, pair⟩
  rw [fractionIndices_at _ _ endpointAt, forced_of_group groupAt, Option.some.injEq] at optionAt
  subst optionAt
  cases isForced : group.forcedIndex with
  | some forced => exact (paired group (List.mem_of_getElem? groupAt)).forced forced isForced
  | none =>
      rw [Option.getD_none]
      split
      · exact pair.inside.2
      · exact pair.inside.1

theorem flexibleGroups_length (sameLength : endpoints.length = costed.groups.length) :
    (flexibleGroups endpoints costed.forced).length = costed.flexibleCount := by
  unfold CostedAlternatives.flexibleCount flexibleGroups
  rw [countP_eq_card, sameLength,
    ← List.toFinset_card_of_nodup (List.nodup_range.filter _)]
  congr 1
  ext index
  rw [List.mem_toFinset, List.mem_filter, Finset.mem_filter, List.mem_range, Finset.mem_range]
  apply and_congr_right
  intro inside
  rw [forced_of_group (List.getElem?_eq_getElem inside), List.getElem?_eq_getElem inside]
  rfl

/-! ## What a share comes to -/

/-- The flexible groups that a resolution recomputes. -/
def recomputed (costed : CostedAlternatives) (resolution : Resolution) : Finset Nat :=
  (Finset.range costed.groups.length).filter fun index =>
    (costed.forced index).isNone ∧
      (resolution[index]?).map (·.optionId) = some recomputeOption

/-- The resolution meets the share: it chooses for every group in order, saves or
recomputes each, leaves the forced ones at their forced option, recomputes the nearest
number of flexible groups, and reports that number over the flexible groups. -/
structure MeetsShare (program : MeasuredProgram) (costed : CostedAlternatives) (share : ℚ)
    (resolution : Resolution) : Prop where
  groups : resolution.map (·.groupId) = program.taskAlternativeGroups.map (·.groupId)
  offered : ∀ choice ∈ resolution,
    choice.optionId = saveOption ∨ choice.optionId = recomputeOption
  forced : ∀ (index : Nat) (group : CostedGroup) (option : Nat),
    costed.groups[index]? = some group → group.forcedIndex = some option →
    ∃ offered, group.options[option]? = some offered ∧
      resolution[index]? = some ⟨group.groupId, offered.optionId⟩
  count : (recomputed costed resolution).card =
    roundHalfUp (costed.flexibleCount * share)
  reported : recomputeShare program resolution =
    .ok ((recomputed costed resolution).card / costed.flexibleCount)

/-- A flexible group recomputes when it is among the picked. -/
theorem ChoosesAt.recomputed_eq {recomputing : List Nat} {resolution : Resolution}
    (atEndpoints : List.Forall₂ PairAt costed.groups endpoints)
    (picked : ∀ index ∈ recomputing, index ∈ flexibleGroups endpoints costed.forced)
    (chooses : ChoosesAt costed (fractionIndices endpoints costed.forced recomputing)
      resolution) :
    recomputed costed resolution = recomputing.toFinset := by
  ext index
  unfold recomputed
  rw [Finset.mem_filter, List.mem_toFinset, Finset.mem_range]
  constructor
  · rintro ⟨inside, flexible, recomputes⟩
    rcases forall₂_get atEndpoints (List.getElem?_eq_getElem inside) with
      ⟨endpoint, endpointAt, pair⟩
    have optionAt := fractionIndices_at costed.forced recomputing endpointAt
    rw [Option.isNone_iff_eq_none.mp flexible, Option.getD_none] at optionAt
    by_contra absent
    rw [if_neg absent] at optionAt
    rw [chooses.choice index _ _ (List.getElem?_eq_getElem inside) optionAt, Option.map_map]
      at recomputes
    have saves := pair.save
    exact save_ne_recompute (Option.some.inj (saves.symm.trans recomputes))
  · intro mem
    have inFlexible := picked index mem
    unfold flexibleGroups at inFlexible
    rw [List.mem_filter, List.mem_range, ← atEndpoints.length_eq] at inFlexible
    rcases inFlexible with ⟨inside, flexible⟩
    refine ⟨inside, flexible, ?_⟩
    rcases forall₂_get atEndpoints (List.getElem?_eq_getElem inside) with
      ⟨endpoint, endpointAt, pair⟩
    have optionAt := fractionIndices_at costed.forced recomputing endpointAt
    rw [Option.isNone_iff_eq_none.mp flexible, Option.getD_none, if_pos mem] at optionAt
    rw [chooses.choice index _ _ (List.getElem?_eq_getElem inside) optionAt, Option.map_map]
    exact pair.recompute

/-- A resolution chooses for each group what it says at the group's place. -/
theorem ChoosesAt.chosenOption_eq {indices : List Nat} {resolution : Resolution}
    (chooses : ChoosesAt costed indices resolution)
    (sameLength : indices.length = costed.groups.length)
    (groupIds : (costed.groups.map (·.groupId)).Nodup) {index : Nat} {group : CostedGroup}
    (groupAt : costed.groups[index]? = some group) :
    chosenOption resolution group = (resolution[index]?).map (·.optionId) := by
  have sameIds := chooses.groupIds sameLength
  have inside : index < resolution.length := by
    rw [chooses.length]
    exact (List.getElem?_eq_some_iff.mp groupAt).1
  have sameId : (resolution[index]).groupId = group.groupId := by
    have atPlace := congrArg (·[index]?) sameIds
    rw [List.getElem?_map, List.getElem?_map, groupAt, List.getElem?_eq_getElem inside] at atPlace
    exact Option.some.inj atPlace
  unfold chosenOption
  rw [choiceOf_eq (by rwa [sameIds]) (List.getElem_mem inside) sameId,
    List.getElem?_eq_getElem inside]

/-- The count that the share of a selection is reported by. -/
theorem ChoosesAt.recomputingCount_eq {indices : List Nat} {resolution : Resolution}
    (chooses : ChoosesAt costed indices resolution)
    (sameLength : indices.length = costed.groups.length)
    (groupIds : (costed.groups.map (·.groupId)).Nodup)
    (atEndpoints : List.Forall₂ PairAt costed.groups endpoints) :
    recomputingCount costed endpoints resolution = (recomputed costed resolution).card := by
  unfold recomputingCount recomputed
  rw [countP_eq_card, List.length_zip, ← atEndpoints.length_eq, Nat.min_self]
  congr 1
  apply Finset.filter_congr
  intro index mem
  have inside := Finset.mem_range.mp mem
  have groupAt := List.getElem?_eq_getElem inside
  rcases forall₂_get atEndpoints groupAt with ⟨endpoint, endpointAt, pair⟩
  have zipped : (costed.groups.zip endpoints)[index]? = some (costed.groups[index], endpoint) :=
    List.getElem?_zip_eq_some.mpr ⟨groupAt, endpointAt⟩
  rw [zipped, Option.any_some, Bool.and_eq_true,
    decide_eq_true_iff, pair.recompute, chooses.chosenOption_eq sameLength groupIds groupAt,
    forced_of_group groupAt]
  exact and_congr_right fun _ => eq_comm

theorem ChoosesAt.meetsShare {recomputing : List Nat} {resolution : Resolution} {share : ℚ}
    (costs : fromProgram program = .ok costed)
    (sameIds : costed.groups.map (·.groupId) =
      program.taskAlternativeGroups.map (·.groupId))
    (paired : ∀ group ∈ costed.groups, Paired group)
    (named : costed.binaryEndpoints = some endpoints)
    (atEndpoints : List.Forall₂ PairAt costed.groups endpoints)
    (flexible : costed.flexibleCount ≠ 0)
    (nodup : recomputing.Nodup)
    (picked : ∀ index ∈ recomputing, index ∈ flexibleGroups endpoints costed.forced)
    (count : recomputing.length = roundHalfUp (costed.flexibleCount * share))
    (chooses : ChoosesAt costed (fractionIndices endpoints costed.forced recomputing)
      resolution) :
    MeetsShare program costed share resolution := by
  have sameLength : (fractionIndices endpoints costed.forced recomputing).length =
      costed.groups.length := by
    rw [fractionIndices_length, atEndpoints.length_eq]
  have groupIds : (costed.groups.map (·.groupId)).Nodup := by
    rw [sameIds]
    exact (constructed program.toShadowSpillProgram).groupIds
  have chosenAt : ∀ (index : Nat) (group : CostedGroup),
      costed.groups[index]? = some group → ∃ option offered,
        (fractionIndices endpoints costed.forced recomputing)[index]? = some option ∧
        group.options[option]? = some offered ∧
        resolution[index]? = some ⟨group.groupId, offered.optionId⟩ := by
    intro index group groupAt
    rcases forall₂_get atEndpoints groupAt with ⟨endpoint, endpointAt, _⟩
    have optionAt := fractionIndices_at costed.forced recomputing endpointAt
    have inside := fractionIndices_inside paired atEndpoints index group _ groupAt optionAt
    refine ⟨_, _, optionAt, List.getElem?_eq_getElem inside, ?_⟩
    rw [chooses.choice index group _ groupAt optionAt, List.getElem?_eq_getElem inside,
      Option.map_some]
  have card : (recomputed costed resolution).card = recomputing.length := by
    rw [chooses.recomputed_eq atEndpoints picked, List.toFinset_card_of_nodup nodup]
  constructor
  case groups => rw [chooses.groupIds sameLength, sameIds]
  case offered =>
    intro choice mem
    rcases List.mem_iff_getElem?.mp mem with ⟨index, found⟩
    have inside : index < costed.groups.length := by
      rw [← chooses.length]
      exact (List.getElem?_eq_some_iff.mp found).1
    have groupAt := List.getElem?_eq_getElem inside
    rcases chosenAt index _ groupAt with ⟨option, offered, _, offeredAt, chosen⟩
    rw [found, Option.some.injEq] at chosen
    subst chosen
    have isOffered : offered.optionId ∈ costed.groups[index].options.map (·.optionId) :=
      List.mem_map_of_mem (List.mem_of_getElem? offeredAt)
    rcases (paired _ (List.mem_of_getElem? groupAt)).pair with same | same
    · rw [same] at isOffered
      simpa using isOffered
    · rw [same] at isOffered
      simpa [or_comm] using isOffered
  case forced =>
    intro index group option groupAt isForced
    rcases chosenAt index group groupAt with ⟨chosen, offered, chosenIs, offeredAt, atIndex⟩
    rcases forall₂_get atEndpoints groupAt with ⟨endpoint, endpointAt, _⟩
    rw [fractionIndices_at _ _ endpointAt, forced_of_group groupAt, isForced, Option.getD_some,
      Option.some.injEq] at chosenIs
    subst chosenIs
    exact ⟨offered, offeredAt, atIndex⟩
  case count => rw [card, count]
  case reported =>
    unfold recomputeShare
    rw [costs]
    simp only [bind, Except.bind, named]
    rw [if_neg flexible, chooses.recomputingCount_eq sameLength groupIds atEndpoints]
    rfl

/-! ## The set of resolutions -/

theorem validateShares_ok {values : List ℚ} (unit : ∀ share ∈ values, 0 ≤ share ∧ share ≤ 1) :
    validateShares values = .ok () := by
  induction values with
  | nil => rfl
  | cons head rest inductionHypothesis =>
      unfold validateShares
      rw [if_pos (unit head List.mem_cons_self)]
      exact inductionHypothesis fun share mem => unit share (List.mem_cons_of_mem head mem)

theorem validateResolutionOptions_ok {values : List ℚ} (named : values ≠ [])
    (unit : ∀ share ∈ values, 0 ≤ share ∧ share ≤ 1) :
    validateResolutionOptions values = .ok values.toFinset.sort := by
  unfold validateResolutionOptions
  rw [check_bind_ok.mpr ⟨validateShares_ok unit, ?_⟩]
  cases values with
  | nil => exact absurd rfl named
  | cons head rest => rfl

/-- Ascending shares validate as they stand. -/
theorem validateResolutionOptions_sorted {values : List ℚ} (named : values ≠ [])
    (unit : ∀ share ∈ values, 0 ≤ share ∧ share ≤ 1) :
    validateResolutionOptions values.toFinset.sort = .ok values.toFinset.sort := by
  rw [validateResolutionOptions_ok, Finset.sort_toFinset]
  · intro empty
    rcases List.exists_mem_of_ne_nil values named with ⟨share, mem⟩
    have sorted := (Finset.mem_sort (· ≤ ·)).mpr (List.mem_toFinset.mpr mem)
    rw [empty] at sorted
    exact List.not_mem_nil sorted
  · intro share mem
    exact unit share (List.mem_toFinset.mp ((Finset.mem_sort (· ≤ ·)).mp mem))

theorem flexibleCount_ne_zero (many : exhaustiveCombinationLimit < costed.combinationCount) :
    costed.flexibleCount ≠ 0 := by
  intro settled
  have single : costed.combinationCount = 1 := by
    unfold CostedAlternatives.combinationCount
    apply List.prod_eq_one
    intro factor mem
    rcases List.mem_map.mp mem with ⟨group, inGroups, rfl⟩
    have free := List.countP_eq_zero.mp settled group inGroups
    rw [if_pos (by simpa [Option.isSome_iff_ne_none] using free)]
  rw [single] at many
  exact absurd many (by decide)

theorem groups_ne_nil (many : exhaustiveCombinationLimit < costed.combinationCount) :
    costed.groups ≠ [] := by
  intro empty
  apply flexibleCount_ne_zero many
  unfold CostedAlternatives.flexibleCount
  rw [empty]
  rfl

/-- Past the limit the resolutions are the fractions of the shares in ascending order. -/
theorem resolutions_eq {values : List ℚ} (nonempty : values ≠ [])
    (unit : ∀ share ∈ values, 0 ≤ share ∧ share ≤ 1)
    (costs : fromProgram program = .ok costed)
    (sameIds : costed.groups.map (·.groupId) =
      program.taskAlternativeGroups.map (·.groupId))
    (many : exhaustiveCombinationLimit < costed.combinationCount)
    (named : costed.binaryEndpoints = some endpoints) {fractions : List (List Nat)}
    (ran : values.toFinset.sort.mapM (groupFraction endpoints costed.forced) = .ok fractions) :
    resolutions program values = (fromKeys fractions).mapM (Resolutions.resolution costed) := by
  have groupsNonempty := groups_ne_nil many
  have programNonempty : program.taskAlternativeGroups.isEmpty = false := by
    rw [List.isEmpty_eq_false_iff]
    intro empty
    rw [empty, List.map_nil, List.map_eq_nil_iff] at sameIds
    exact groupsNonempty sameIds
  have selects : select costed values.toFinset.sort =
      (fromKeys fractions).mapM (Resolutions.resolution costed) := by
    unfold select groupFractions
    rw [validateResolutionOptions_sorted nonempty unit]
    show (if costed.groups.isEmpty = true then _ else _) = _
    rw [if_neg (by rwa [List.isEmpty_iff]), if_neg (Nat.not_le.mpr many), named]
    dsimp only
    rw [ran]
    rfl
  unfold resolutions
  rw [validateResolutionOptions_ok nonempty unit]
  show (if program.taskAlternativeGroups.isEmpty = true then _ else _) = _
  rw [programNonempty, if_neg Bool.false_ne_true, costs]
  exact selects

/-- The option indices that a share picks. -/
def FractionOf (costed : CostedAlternatives) (endpoints : List (Nat × Nat)) (share : ℚ)
    (indices : List Nat) : Prop :=
  ∃ recomputing, indices = fractionIndices endpoints costed.forced recomputing ∧
    recomputing.Nodup ∧
    (∀ index ∈ recomputing, index ∈ flexibleGroups endpoints costed.forced) ∧
    recomputing.length = roundHalfUp (costed.flexibleCount * share)

/-- Two fractions that make the same choices are the same. -/
theorem ChoosesAt.indices_unique (paired : ∀ group ∈ costed.groups, Paired group)
    (atEndpoints : List.Forall₂ PairAt costed.groups endpoints)
    {first second : List Nat} {resolution : Resolution}
    (firstChooses : ChoosesAt costed (fractionIndices endpoints costed.forced first) resolution)
    (secondChooses :
      ChoosesAt costed (fractionIndices endpoints costed.forced second) resolution) :
    fractionIndices endpoints costed.forced first =
      fractionIndices endpoints costed.forced second := by
  apply List.ext_getElem?
  intro index
  cases groupAt : costed.groups[index]? with
  | none =>
      have beyond : endpoints.length ≤ index := by
        rw [← atEndpoints.length_eq]
        exact List.getElem?_eq_none_iff.mp groupAt
      rw [List.getElem?_eq_none_iff.mpr (by rwa [fractionIndices_length]),
        List.getElem?_eq_none_iff.mpr (by rwa [fractionIndices_length])]
  | some group =>
      rcases forall₂_get atEndpoints groupAt with ⟨endpoint, endpointAt, pair⟩
      have firstAt := fractionIndices_at costed.forced first endpointAt
      have secondAt := fractionIndices_at costed.forced second endpointAt
      rw [firstAt, secondAt]
      congr 1
      apply pair.place_unique
        (fractionIndices_inside paired atEndpoints index group _ groupAt firstAt)
      have same := (firstChooses.choice index group _ groupAt firstAt).symm.trans
        (secondChooses.choice index group _ groupAt secondAt)
      have sameIds := congrArg (Option.map (·.optionId)) same
      rwa [Option.map_map, Option.map_map] at sameIds

/-- For a program of pairs with too many resolutions to enumerate, every set of shares
gives pairwise distinct resolutions, each of which meets one of the shares; each share is
met; and a larger share recomputes no fewer groups. -/
theorem resolutions_meet_shares (program : MeasuredProgram) (offers : OffersPairs program) :
    ∃ costed, fromProgram program = .ok costed ∧
      (exhaustiveCombinationLimit < costed.combinationCount →
        (∀ values : List ℚ, values ≠ [] → (∀ share ∈ values, 0 ≤ share ∧ share ≤ 1) →
          ∃ produced, resolutions program values = .ok produced ∧ produced.Nodup ∧
            (∀ share ∈ values, ∃ resolution ∈ produced,
              MeetsShare program costed share resolution) ∧
            ∀ resolution ∈ produced, ∃ share ∈ values,
              MeetsShare program costed share resolution) ∧
        ∀ smaller larger first second, smaller ≤ larger →
          MeetsShare program costed smaller first → MeetsShare program costed larger second →
          (recomputed costed first).card ≤ (recomputed costed second).card) := by
  rcases fromProgram_ok offers with ⟨costed, costs, sameIds, paired⟩
  rcases binaryEndpoints_some paired with ⟨endpoints, named, atEndpoints⟩
  refine ⟨costed, costs, fun many => ⟨?_, ?_⟩⟩
  · intro values nonempty unit
    have flexible := flexibleCount_ne_zero many
    have flexibleLength := flexibleGroups_length atEndpoints.length_eq.symm
    -- Each share in ascending order gives a fraction of the groups.
    have eachShare : ∀ share ∈ values.toFinset.sort, ∃ indices,
        groupFraction endpoints costed.forced share = pure indices ∧
          FractionOf costed endpoints share indices := by
      intro share mem
      have inUnit := unit share (List.mem_toFinset.mp ((Finset.mem_sort (· ≤ ·)).mp mem))
      rcases groupFraction_ok endpoints costed.forced inUnit.1 inUnit.2 with
        ⟨recomputing, ran, nodup, count, picked⟩
      rw [flexibleLength] at count
      exact ⟨_, ran, recomputing, rfl, nodup, picked, count⟩
    rcases mapM_eq_pure eachShare with ⟨fractions, fractionsRun, ofShare⟩
    -- Each distinct fraction gives a resolution.
    have eachFraction : ∀ indices ∈ fromKeys fractions, ∃ resolution,
        Resolutions.resolution costed indices = pure resolution ∧
          ChoosesAt costed indices resolution := by
      intro indices mem
      rcases forall₂_mem ofShare.flip (mem_fromKeys.mp mem) with ⟨_, _, recomputing, rfl, _⟩
      apply resolution_ok
      · rw [fractionIndices_length, atEndpoints.length_eq]
      · exact fractionIndices_inside paired atEndpoints
    rcases mapM_eq_pure eachFraction with ⟨produced, producedRun, chooses⟩
    have meets : ∀ share indices resolution, FractionOf costed endpoints share indices →
        ChoosesAt costed indices resolution → MeetsShare program costed share resolution := by
      rintro share _ resolution ⟨recomputing, rfl, nodup, picked, count⟩ chosen
      exact chosen.meetsShare costs sameIds paired named atEndpoints flexible nodup picked count
    refine ⟨produced, ?_, ?_, ?_, ?_⟩
    · rw [resolutions_eq nonempty unit costs sameIds many named fractionsRun]
      exact producedRun
    · apply forall₂_nodup chooses (nodup_fromKeys fractions)
      intro first firstMem second secondMem resolution firstChooses secondChooses
      rcases forall₂_mem ofShare.flip (mem_fromKeys.mp firstMem) with ⟨_, _, _, rfl, _⟩
      rcases forall₂_mem ofShare.flip (mem_fromKeys.mp secondMem) with ⟨_, _, _, rfl, _⟩
      exact firstChooses.indices_unique paired atEndpoints secondChooses
    · intro share mem
      have sorted := (Finset.mem_sort (· ≤ ·)).mpr (List.mem_toFinset.mpr mem)
      rcases forall₂_mem ofShare sorted with ⟨indices, inFractions, fraction⟩
      rcases forall₂_mem chooses (mem_fromKeys.mpr inFractions) with
        ⟨resolution, inProduced, chosen⟩
      exact ⟨resolution, inProduced, meets share indices resolution fraction chosen⟩
    · intro resolution mem
      rcases forall₂_mem chooses.flip mem with ⟨indices, inKeys, chosen⟩
      rcases forall₂_mem ofShare.flip (mem_fromKeys.mp inKeys) with ⟨share, sorted, fraction⟩
      refine ⟨share, ?_, meets share indices resolution fraction chosen⟩
      exact List.mem_toFinset.mp ((Finset.mem_sort (· ≤ ·)).mp sorted)
  · intro smaller larger first second le firstMeets secondMeets
    rw [firstMeets.count, secondMeets.count]
    exact roundHalfUp_mono (mul_le_mul_of_nonneg_left le (Nat.cast_nonneg _))

/-! ## Seven pairs, and one that is forced -/

def keepRoot : TaskAlternativeOption :=
  ⟨⟨saveOption, [], ["root"]⟩, by decide⟩

def keepNothing : TaskAlternativeOption :=
  ⟨⟨saveOption, [], []⟩, by decide⟩

def dropRoot : TaskAlternativeOption :=
  ⟨⟨recomputeOption, [], []⟩, by decide⟩

def pairNamed (groupId : String) (saved : TaskAlternativeOption)
    (checked : GroupFields.check ⟨groupId, [saved, dropRoot]⟩ = .ok ()) :
    TaskAlternativeGroup :=
  ⟨⟨groupId, [saved, dropRoot]⟩, checked⟩

/-- Seven groups that may each keep the one alias group, and one that keeps nothing either
way. -/
def eightPairs : MeasuredProgram where
  devices := [⟨"cuda_0"⟩]
  aliasGroups := [⟨"root", "cuda_0", 8, none⟩]
  objects := []
  profiles := []
  tasks := []
  taskAlternativeGroups := [pairNamed "a" keepRoot (by decide),
    pairNamed "b" keepRoot (by decide), pairNamed "c" keepRoot (by decide),
    pairNamed "d" keepNothing (by decide), pairNamed "e" keepRoot (by decide),
    pairNamed "f" keepRoot (by decide), pairNamed "g" keepRoot (by decide),
    pairNamed "h" keepRoot (by decide)]
  checked := by decide
  runtimeNs := fun _ => 0

theorem eightPairs_offers : OffersPairs eightPairs := by
  intro group mem
  have pair : group.options.map (·.optionId) = [saveOption, recomputeOption] := by
    simp only [eightPairs, List.mem_cons, List.not_mem_nil, or_false] at mem
    rcases mem with rfl | rfl | rfl | rfl | rfl | rfl | rfl | rfl
    all_goals rfl
  exact Or.inl pair

/-- A quarter of the seven flexible groups is two of them, and half of them four; the group
that keeps nothing saves. -/
theorem resolutions_meet_quarter_and_half :
    ∃ costed, fromProgram eightPairs = .ok costed ∧
      costed.groups.map (·.forcedIndex) =
        [none, none, none, some 0, none, none, none, none] ∧
      ∃ produced, resolutions eightPairs [1 / 4, 1 / 2] = .ok produced ∧ produced.Nodup ∧
        (∃ quarter ∈ produced, MeetsShare eightPairs costed (1 / 4) quarter ∧
          (recomputed costed quarter).card = 2) ∧
        ∃ half ∈ produced, MeetsShare eightPairs costed (1 / 2) half ∧
          (recomputed costed half).card = 4 := by
  rcases resolutions_meet_shares eightPairs eightPairs_offers with ⟨costed, costs, meets⟩
  have computed : (fromProgram eightPairs).map (fun costed =>
      (costed.combinationCount, costed.flexibleCount, costed.groups.map (·.forcedIndex))) =
        .ok (128, 7, [none, none, none, some 0, none, none, none, none]) := by decide
  rw [costs] at computed
  obtain ⟨combinations, flexible, forced⟩ := by
    simpa only [Prod.mk.injEq] using Except.ok.inj computed
  have many : exhaustiveCombinationLimit < costed.combinationCount := by
    rw [combinations]
    decide
  rcases (meets many).1 [1 / 4, 1 / 2] (by simp) (by norm_num) with
    ⟨produced, ran, nodup, met, _⟩
  have counted : ∀ {share resolution}, MeetsShare eightPairs costed share resolution →
      (recomputed costed resolution).card = ⌊(7 : ℚ) * share + 1 / 2⌋₊ := by
    intro share resolution meetsShare
    rw [meetsShare.count, flexible]
    rfl
  rcases met (1 / 4) (by simp) with ⟨quarter, quarterIn, quarterMeets⟩
  rcases met (1 / 2) (by simp) with ⟨half, halfIn, halfMeets⟩
  refine ⟨costed, costs, forced, produced, ran, nodup, ⟨quarter, quarterIn, quarterMeets, ?_⟩,
    half, halfIn, halfMeets, ?_⟩
  · rw [counted quarterMeets, Nat.floor_eq_iff (by norm_num)]
    norm_num
  · rw [counted halfMeets, Nat.floor_eq_iff (by norm_num)]
    norm_num

end ShadowSpill.Planner.Search.ResolutionShares
