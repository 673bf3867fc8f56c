import ShadowSpill.Planner.AllocationTraces

/-!
# The slots of chains

Every step ends, by way of the allocations that are named, at a fresh allocation, and gets
that one's slot.  Where no key stands for ordinals of two tasks the steps of one slot are
those of one chain, and of two allocations in a chain the earlier one is released before the
later one is made.
-/

namespace ShadowSpill.Planner.AllocationChains

open Library.PointerJumping Library.SortedLookup AllocationSlots AllocationTraces

variable {rows : List Row} {row other : Row} {index : Nat}

/-! ## The lookup -/

theorem mem_flatNonzero {flags : List Bool} {index : Nat} :
    index ∈ flatNonzero flags ↔ flags[index]? = some true := by
  unfold flatNonzero
  rw [List.mem_filter, List.mem_range, List.getD_eq_getElem?_getD]
  constructor
  · rintro ⟨bound, set⟩
    rw [List.getElem?_eq_getElem bound] at set ⊢
    exact congrArg some set
  · intro known
    rw [known]
    exact ⟨(List.getElem?_eq_some_iff.mp known).1, rfl⟩

theorem mem_keyed {key : Int} : (key, index) ∈ keyed rows ↔
    ∃ row, rows[index]? = some row ∧ row.allocates = true ∧
      keyOf rows row.task row.ordinal = key := by
  unfold keyed
  rw [List.mem_map]
  constructor
  · rintro ⟨place, mem, same⟩
    rw [Prod.mk.injEq] at same
    rcases same with ⟨value, rfl⟩
    have allocates := mem_flatNonzero.mp mem
    rw [List.getElem?_map] at allocates
    cases known : rows[place]? with
    | none =>
        rw [known] at allocates
        cases allocates
    | some row =>
        rw [known] at allocates value
        exact ⟨row, rfl, Option.some.inj allocates, value⟩
  · rintro ⟨row, known, allocates, value⟩
    refine ⟨index, mem_flatNonzero.mpr ?_, ?_⟩
    · rw [List.getElem?_map, known]
      exact congrArg some allocates
    · rw [known]
      exact congrArg (·, index) value

theorem keyed_ordered : (keyed rows).Pairwise fun first second => first.2 < second.2 := by
  unfold keyed flatNonzero
  rw [List.pairwise_map]
  exact List.pairwise_lt_range.filter _

theorem allocationOf_eq_find (task : Nat) (named : Int) :
    allocationOf rows task named =
      ((keyed rows).find? fun entry => entry.1 = keyOf rows task named).map Prod.snd :=
  lookup_eq_find (keyed rows) (keyOf rows task named)

/-- The lookup gives the first allocation with the key. -/
theorem allocationOf_some {task found : Nat} {named : Int}
    (known : allocationOf rows task named = some found) :
    (∃ row, rows[found]? = some row ∧ row.allocates = true ∧
      keyOf rows row.task row.ordinal = keyOf rows task named) ∧
      ∀ index row, rows[index]? = some row → row.allocates = true →
        keyOf rows row.task row.ordinal = keyOf rows task named → found ≤ index := by
  rw [allocationOf_eq_find, Option.map_eq_some_iff] at known
  rcases known with ⟨⟨key, place⟩, found, rfl⟩
  rcases List.find?_eq_some_iff_append.mp found with ⟨same, before, after, split, earlier⟩
  have same : key = keyOf rows task named := of_decide_eq_true same
  have inside : (key, place) ∈ keyed rows := by
    rw [split]
    exact List.mem_append_right _ (List.mem_cons_self ..)
  rcases mem_keyed.mp inside with ⟨row, atPlace, allocates, value⟩
  refine ⟨⟨row, atPlace, allocates, value.trans same⟩, ?_⟩
  intro index row atIndex allocates value
  have mem := mem_keyed.mpr ⟨row, atIndex, allocates, value⟩
  have ordered := @keyed_ordered rows
  rw [split] at mem ordered
  rcases List.mem_append.mp mem with old | new
  · have wrong := earlier _ old
    simp at wrong
  · rcases List.mem_cons.mp new with here | later
    · exact (Prod.mk.inj here).2.ge
    · have rest := (List.pairwise_append.mp ordered).2.1
      exact (List.rel_of_pairwise_cons rest later).le

theorem allocationOf_exists {task : Nat} {named : Int} (known : rows[index]? = some row)
    (allocates : row.allocates = true)
    (same : keyOf rows row.task row.ordinal = keyOf rows task named) :
    ∃ found, allocationOf rows task named = some found := by
  rw [allocationOf_eq_find]
  have mem := mem_keyed.mpr ⟨row, known, allocates, same⟩
  cases found : (keyed rows).find? fun entry => entry.1 = keyOf rows task named with
  | none =>
      have missing := List.find?_eq_none.mp found _ mem
      simp at missing
  | some entry => exact ⟨entry.2, rfl⟩

/-! ## The sources -/

theorem sourcesFrom_some {start : Nat} {rest : List Row}
    (known : ∀ index row, rest[index]? = some row →
      ∃ source, sourceOf rows (start + index) row = some source) :
    ∃ sources, sourcesFrom rows start rest = some sources ∧ sources.length = rest.length ∧
      ∀ index row, rest[index]? = some row →
        sourceOf rows (start + index) row = sources[index]? := by
  induction rest generalizing start with
  | nil => exact ⟨[], rfl, rfl, fun _ _ wrong => by cases wrong⟩
  | cons head rest ih =>
      rcases known 0 head rfl with ⟨source, here⟩
      have later : ∀ index row, rest[index]? = some row →
          ∃ source, sourceOf rows (start + 1 + index) row = some source := by
        intro index row found
        have there := known (index + 1) row found
        rw [Nat.add_right_comm]
        exact there
      rcases ih later with ⟨sources, result, length, each⟩
      refine ⟨source :: sources, ?_, congrArg Nat.succ length, ?_⟩
      · rw [Nat.add_zero] at here
        unfold sourcesFrom
        rw [here, result]
        rfl
      · intro index row found
        cases index with
        | zero =>
            cases found
            exact here
        | succ index =>
            have there := each index row found
            rw [Nat.add_right_comm] at there
            exact there

/-- A fresh allocation is its own source, and another step's source is earlier. -/
theorem source_known (compiled : Compiled rows) (known : rows[index]? = some row) :
    ∃ source, sourceOf rows index row = some source ∧ source ≤ index := by
  unfold sourceOf
  cases named : row.names with
  | none => exact ⟨index, rfl, le_rfl⟩
  | some ordinal =>
      rcases compiled.traced.named_before known named with
        ⟨earlier, bound, other, found, allocates, task, value⟩
      have same : keyOf rows other.task other.ordinal = keyOf rows row.task ordinal := by
        rw [task, value]
      rcases allocationOf_exists found allocates same with ⟨source, result⟩
      refine ⟨source, result, ?_⟩
      exact ((allocationOf_some result).2 earlier other found allocates same).trans bound.le

/-- The sources as a function on places. -/
structure Sourced (rows : List Row) (parent : Nat → Nat) : Prop where
  descends : Descends parent
  source : ∀ index row, rows[index]? = some row →
    sourceOf rows index row = some (parent index)

/-- The loop ends, and every place has its chain's end. -/
theorem settled_sources (compiled : Compiled rows) :
    ∃ sources parent, sourcesFrom rows 0 rows = some sources ∧ Sourced rows parent ∧
      ∀ fuel, rows.length < fuel →
        settle fuel sources = some ((List.range rows.length).map (root parent)) := by
  rcases @sourcesFrom_some rows 0 rows (fun index row found => by
    rcases source_known compiled found with ⟨source, result, _⟩
    rw [Nat.zero_add]
    exact ⟨source, result⟩) with ⟨sources, result, length, each⟩
  have descends : ∀ index name : Nat, sources[index]? = some name → name ≤ index := by
    intro index name found
    have bound : index < rows.length := length ▸ (List.getElem?_eq_some_iff.mp found).1
    have here := each index rows[index] (List.getElem?_eq_getElem bound)
    rcases source_known compiled (List.getElem?_eq_getElem bound) with ⟨source, same, below⟩
    rw [Nat.zero_add, same, found] at here
    cases here
    exact below
  refine ⟨sources, named sources, result, ⟨?_, ?_⟩, ?_⟩
  · intro index
    unfold named
    rw [List.getD_eq_getElem?_getD]
    cases found : sources[index]? with
    | none => exact le_rfl
    | some name => exact descends index name found
  · intro index row found
    have here := each index row found
    have bound : index < sources.length :=
      length.symm ▸ (List.getElem?_eq_some_iff.mp found).1
    rw [Nat.zero_add, List.getElem?_eq_getElem bound] at here
    rw [here]
    unfold named
    rw [List.getD_eq_getElem _ _ bound]
  · intro fuel enough
    rw [← length] at enough ⊢
    exact settle_roots descends enough

section Ends

variable {parent : Nat → Nat}

theorem names_eq_none : row.names = none ↔ row.fresh = true := by
  unfold Row.names Row.fresh
  cases row.allocates with
  | false => simp
  | true => simp

theorem Sourced.fresh (sourced : Sourced rows parent) (known : rows[index]? = some row)
    (fresh : row.fresh = true) : parent index = index := by
  have source := sourced.source index row known
  unfold sourceOf at source
  rw [names_eq_none.mpr fresh] at source
  exact (Option.some.inj source).symm

theorem Sourced.named (sourced : Sourced rows parent) (known : rows[index]? = some row)
    {ordinal : Int} (named : row.names = some ordinal) :
    allocationOf rows row.task ordinal = some (parent index) := by
  have source := sourced.source index row known
  unfold sourceOf at source
  rw [named] at source
  exact source

theorem Sourced.named_lt (compiled : Compiled rows) (sourced : Sourced rows parent)
    (known : rows[index]? = some row) {ordinal : Int} (named : row.names = some ordinal) :
    parent index < index := by
  rcases compiled.traced.named_before known named with
    ⟨earlier, bound, other, found, allocates, task, value⟩
  have least := (allocationOf_some (sourced.named known named)).2 earlier other found allocates
    (by rw [task, value])
  exact least.trans_lt bound

/-- A chain ends at a fresh allocation. -/
theorem Sourced.root_fresh (compiled : Compiled rows) (sourced : Sourced rows parent)
    (bound : index < rows.length) :
    ∃ base, rows[root parent index]? = some base ∧ base.fresh = true := by
  have inside := (root_le sourced.descends index).trans_lt bound
  have known := List.getElem?_eq_getElem inside
  refine ⟨_, known, ?_⟩
  rw [← names_eq_none]
  cases named : (rows[root parent index]).names with
  | none => rfl
  | some ordinal =>
      have less := sourced.named_lt compiled known named
      rw [root_fixed sourced.descends] at less
      exact absurd less (lt_irrefl _)

end Ends

/-! ## The slots of fresh allocations -/

/-- How many fresh allocations stand before a place. -/
def freshBefore (rows : List Row) (index : Nat) : Nat :=
  (rows.take index).countP (·.fresh)

theorem freshSlots_getElem {next : Nat} (known : rows[index]? = some row) :
    (freshSlots next rows)[index]? =
      some (if row.fresh then ((next + freshBefore rows index : Nat) : Int) else -1) := by
  induction rows generalizing next index with
  | nil => cases known
  | cons head rest ih =>
      unfold freshSlots freshBefore
      cases index with
      | zero =>
          cases known
          split <;> rfl
      | succ index =>
          rw [List.getElem?_cons_succ] at known
          rw [List.take_succ_cons, List.countP_cons]
          cases fresh : head.fresh with
          | true =>
              rw [if_pos rfl, if_pos rfl, List.getElem?_cons_succ, ih known]
              unfold freshBefore
              rw [Nat.add_right_comm, Nat.add_assoc]
          | false =>
              rw [if_neg Bool.false_ne_true, if_neg Bool.false_ne_true,
                List.getElem?_cons_succ, ih known]
              rfl

theorem freshBefore_lt {first second : Nat} (ordered : first < second)
    (known : rows[first]? = some row) (fresh : row.fresh = true) :
    freshBefore rows first < freshBefore rows second := by
  unfold freshBefore
  have bound := (List.getElem?_eq_some_iff.mp known).1
  have step : (rows.take (first + 1)).countP (·.fresh) =
      (rows.take first).countP (·.fresh) + 1 := by
    rw [List.take_add_one, known, List.countP_append]
    simp [fresh]
  have grows : (rows.take (first + 1)).countP (·.fresh) ≤
      (rows.take second).countP (·.fresh) :=
    (List.take_prefix_take_left ordered).sublist.countP_le
  omega

theorem freshBefore_lt_count (known : rows[index]? = some row) (fresh : row.fresh = true) :
    freshBefore rows index < rows.countP (·.fresh) := by
  have bound := (List.getElem?_eq_some_iff.mp known).1
  have all : freshBefore rows rows.length = rows.countP (·.fresh) := by
    unfold freshBefore
    rw [List.take_length]
  rw [← all]
  exact freshBefore_lt bound known fresh

/-- Every slot below the count belongs to a fresh allocation. -/
theorem exists_fresh {slot : Nat} (bound : slot < rows.countP (·.fresh)) :
    ∃ index row, rows[index]? = some row ∧ row.fresh = true ∧
      freshBefore rows index = slot := by
  induction rows generalizing slot with
  | nil => exact absurd bound (Nat.not_lt_zero _)
  | cons head rest ih =>
      rw [List.countP_cons] at bound
      cases fresh : head.fresh with
      | true =>
          cases slot with
          | zero => exact ⟨0, head, rfl, fresh, rfl⟩
          | succ slot =>
              rw [fresh, if_pos rfl] at bound
              rcases ih (Nat.lt_of_succ_lt_succ bound) with ⟨index, row, found, isFresh, same⟩
              refine ⟨index + 1, row, found, isFresh, ?_⟩
              unfold freshBefore at same ⊢
              rw [List.take_succ_cons, List.countP_cons, fresh, if_pos rfl, same]
      | false =>
          rw [fresh, if_neg Bool.false_ne_true, Nat.add_zero] at bound
          rcases ih bound with ⟨index, row, found, isFresh, same⟩
          refine ⟨index + 1, row, found, isFresh, ?_⟩
          unfold freshBefore at same ⊢
          rw [List.take_succ_cons, List.countP_cons, fresh, if_neg Bool.false_ne_true, same,
            Nat.add_zero]

end ShadowSpill.Planner.AllocationChains
