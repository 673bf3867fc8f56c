import Mathlib

/-!
# Pointer jumping

Where every entry of a table names itself or an earlier entry, following the names ends at
an entry that names itself.  Replacing every name by the name of its name doubles the steps
that are taken at once, and the table stops changing exactly when every entry has reached
its end.
-/

namespace ShadowSpill.Library.PointerJumping

/-! ## Roots -/

variable {parent : Nat → Nat}

/-- Every entry names itself or an earlier one. -/
def Descends (parent : Nat → Nat) : Prop :=
  ∀ index, parent index ≤ index

/-- Where the names of an entry end. -/
def root (parent : Nat → Nat) (index : Nat) : Nat :=
  parent^[index] index

theorem iterate_le (descends : Descends parent) (steps index : Nat) :
    parent^[steps] index ≤ index := by
  induction steps generalizing index with
  | zero => exact le_rfl
  | succ steps ih =>
      rw [Function.iterate_succ_apply]
      exact (ih (parent index)).trans (descends index)

theorem root_le (descends : Descends parent) (index : Nat) : root parent index ≤ index :=
  iterate_le descends index index

/-- As many steps as an index has places below it are enough. -/
theorem iterate_eq_root (descends : Descends parent) {steps index : Nat}
    (enough : index ≤ steps) :
    parent^[steps] index = root parent index ∧ parent (root parent index) = root parent index := by
  induction index using Nat.strong_induction_on generalizing steps with
  | _ index ih =>
    rcases Nat.eq_or_lt_of_le (descends index) with fixed | below
    · unfold root
      rw [Function.iterate_fixed fixed, Function.iterate_fixed fixed]
      exact ⟨rfl, fixed⟩
    · cases index with
      | zero => exact absurd below (Nat.not_lt_zero _)
      | succ index =>
          have here : root parent (index + 1) = root parent (parent (index + 1)) := by
            unfold root
            rw [Function.iterate_succ_apply]
            exact (ih _ below (Nat.le_of_lt_succ below)).1
          cases steps with
          | zero => exact absurd enough (by omega)
          | succ steps =>
              rw [here, Function.iterate_succ_apply]
              exact ih _ below ((Nat.le_of_lt_succ below).trans (Nat.le_of_succ_le_succ enough))

theorem root_fixed (descends : Descends parent) (index : Nat) :
    parent (root parent index) = root parent index :=
  (iterate_eq_root descends le_rfl).2

theorem root_of_fixed {index : Nat} (fixed : parent index = index) :
    root parent index = index :=
  Function.iterate_fixed fixed index

theorem root_parent (descends : Descends parent) (index : Nat) :
    root parent (parent index) = root parent index := by
  have more := (iterate_eq_root descends (Nat.le_succ index)).1
  rw [Function.iterate_succ_apply] at more
  rw [← more]
  exact ((iterate_eq_root descends (descends index)).1).symm

theorem root_iterate (descends : Descends parent) (steps index : Nat) :
    root parent (parent^[steps] index) = root parent index := by
  induction steps generalizing index with
  | zero => rfl
  | succ steps ih =>
      rw [Function.iterate_succ_apply, ih, root_parent descends]

/-- Entries that names connect. -/
def Joined (parent : Nat → Nat) : Nat → Nat → Prop :=
  Relation.EqvGen fun first second => parent first = second

theorem joined_root (parent : Nat → Nat) (index : Nat) :
    Joined parent index (root parent index) := by
  have along : ∀ steps, Joined parent index (parent^[steps] index) := by
    intro steps
    induction steps with
    | zero => exact .refl _
    | succ steps ih =>
        rw [Function.iterate_succ_apply']
        exact ih.trans _ _ _ (.rel _ _ rfl)
  exact along index

/-- Names connect exactly the entries with one root. -/
theorem joined_iff (descends : Descends parent) {first second : Nat} :
    Joined parent first second ↔ root parent first = root parent second := by
  constructor
  · intro joined
    induction joined with
    | rel first second named =>
        rw [← named, root_parent descends]
    | refl index => rfl
    | symm first second _ ih => exact ih.symm
    | trans first second third _ _ left right => exact left.trans right
  · intro same
    have back := (joined_root parent second).symm _ _
    rw [← same] at back
    exact (joined_root parent first).trans _ _ _ back

/-- Where no two entries share a name that is not their own, of two entries with one root
the later one's names pass through the earlier one. -/
theorem ancestor_of_root (descends : Descends parent) {kept : Nat → Prop}
    (closed : ∀ index, kept index → kept (parent index))
    (injective : ∀ first second, kept first → kept second → parent first ≠ first →
      parent second ≠ second → parent first = parent second → first = second)
    {first second : Nat} (ordered : first < second) (keptFirst : kept first)
    (keptSecond : kept second) (same : root parent first = root parent second) :
    ∃ later, later ≤ second ∧ kept later ∧ first < later ∧ parent later = first := by
  induction second using Nat.strong_induction_on generalizing first with
  | _ second ih =>
    rcases Nat.eq_or_lt_of_le (descends second) with fixed | below
    · rw [root_of_fixed fixed] at same
      exact absurd (same ▸ root_le descends first) (Nat.not_le.mpr ordered)
    · rw [← root_parent descends second] at same
      rcases Nat.lt_trichotomy first (parent second) with before | equal | after
      · rcases ih _ below before keptFirst (closed _ keptSecond) same with
          ⟨later, bound, kept, beyond, named⟩
        exact ⟨later, bound.trans below.le, kept, beyond, named⟩
      · exact ⟨second, le_rfl, keptSecond, ordered, equal.symm⟩
      · rcases ih first ordered after (closed _ keptSecond) keptFirst same.symm with
          ⟨later, bound, keptLater, beyond, named⟩
        have alike : later = second := injective later second keptLater keptSecond
          (by omega) (by omega) named
        exact absurd (alike ▸ bound) (Nat.not_le.mpr ordered)

/-! ## Tables -/

/-- The name of each name. -/
def follow (source : List Nat) : List Nat :=
  source.map fun index => source.getD index 0

/-- Follow until nothing changes. -/
def settle : Nat → List Nat → Option (List Nat)
  | 0, _ => none
  | fuel + 1, source =>
    if follow source = source then some source else settle fuel (follow source)

/-- A table as a function. -/
def named (source : List Nat) (index : Nat) : Nat :=
  source.getD index index

/-- The table after a number of steps at once. -/
def level (parent : Nat → Nat) (count steps : Nat) : List Nat :=
  (List.range count).map parent^[steps]

theorem follow_level (descends : Descends parent) (count steps : Nat) :
    follow (level parent count steps) = level parent count (steps + steps) := by
  unfold follow level
  rw [List.map_map]
  apply List.map_congr_left
  intro index mem
  have inside := (iterate_le descends steps index).trans_lt (List.mem_range.mp mem)
  show ((List.range count).map parent^[steps]).getD (parent^[steps] index) 0 = _
  rw [List.getD_eq_getElem?_getD, List.getElem?_map, List.getElem?_range inside,
    Function.iterate_add_apply]
  rfl

/-- A step that many steps return to is a fixed one. -/
theorem fixed_of_iterate (descends : Descends parent) {steps index : Nat}
    (positive : 0 < steps) (returns : parent^[steps] index = index) : parent index = index := by
  cases steps with
  | zero => exact absurd positive (lt_irrefl _)
  | succ steps =>
      rw [Function.iterate_succ_apply] at returns
      have bound := iterate_le descends steps (parent index)
      rw [returns] at bound
      exact Nat.le_antisymm (descends index) bound

theorem level_roots (descends : Descends parent) {count steps : Nat} (positive : 0 < steps)
    (settled : level parent count (steps + steps) = level parent count steps) :
    level parent count steps = (List.range count).map (root parent) := by
  unfold level at settled ⊢
  apply List.map_congr_left
  intro index mem
  have same := List.map_inj_left.mp settled index mem
  rw [Function.iterate_add_apply] at same
  have fixed := fixed_of_iterate descends positive same
  rw [← root_iterate descends steps index, root_of_fixed fixed]

theorem settle_level (descends : Descends parent) {count : Nat} (fuel exponent : Nat)
    (enough : count < fuel + exponent) (some_left : 0 < fuel) :
    settle fuel (level parent count (2 ^ exponent)) =
      some ((List.range count).map (root parent)) := by
  induction fuel generalizing exponent with
  | zero => exact absurd some_left (lt_irrefl _)
  | succ fuel ih =>
      have positive : 0 < 2 ^ exponent := Nat.two_pow_pos exponent
      unfold settle
      rw [follow_level descends]
      split
      · rename_i settled
        rw [level_roots descends positive settled]
      · rename_i moving
        have short : exponent < count := by
          by_contra long
          apply moving
          have steps : ∀ more, count ≤ more →
              level parent count more = (List.range count).map (root parent) := by
            intro more above
            apply List.map_congr_left
            intro index mem
            have inside := List.mem_range.mp mem
            exact (iterate_eq_root descends (by omega)).1
          have power := @Nat.lt_two_pow_self exponent
          rw [steps _ (by omega), steps _ (by omega)]
        rw [← Nat.two_mul, ← Nat.pow_succ']
        exact ih (exponent + 1) (by omega) (by omega)

/-- The loop ends, with the root of every entry. -/
theorem settle_roots {source : List Nat} {fuel : Nat}
    (descends : ∀ index name : Nat, source[index]? = some name → name ≤ index)
    (enough : source.length < fuel) :
    settle fuel source = some ((List.range source.length).map (root (named source))) := by
  have below : Descends (named source) := by
    intro index
    unfold named
    rw [List.getD_eq_getElem?_getD]
    cases known : source[index]? with
    | none => exact le_rfl
    | some name => exact descends index name known
  have start : source = level (named source) source.length (2 ^ 0) := by
    unfold level
    rw [pow_zero, Function.iterate_one]
    apply List.ext_getElem
    · rw [List.length_map, List.length_range]
    · intro index first second
      rw [List.getElem_map, List.getElem_range]
      exact (List.getD_eq_getElem _ _ first).symm
  have settled := settle_level below fuel 0 (by omega) (Nat.zero_lt_of_lt enough)
  rw [← start] at settled
  exact settled

end ShadowSpill.Library.PointerJumping
