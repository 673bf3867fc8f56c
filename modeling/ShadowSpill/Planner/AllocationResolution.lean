import ShadowSpill.Planner.AllocationChains

/-!
# Slots are resolved correctly

A list of valid tasks gets slots that are dense, one for each chain of each task and never
two live allocations to one, exactly when the integers fit their arrays and no step names an
allocation by a key that an earlier task's allocation has as well.
-/

namespace ShadowSpill.Planner.AllocationResolution

open Library.PointerJumping AdmissionSpecs AllocationSlots AllocationRows AllocationTraces
open AllocationChains

/-! ## What the slots are for -/

/-- A step names an allocation of its own task. -/
def Names (rows : List Row) (first second : Nat) : Prop :=
  ∃ row other, rows[first]? = some row ∧ rows[second]? = some other ∧
    row.names = some other.ordinal ∧ other.allocates = true ∧ other.task = row.task

/-- Names connect two steps. -/
def Chained (rows : List Row) : Nat → Nat → Prop :=
  Relation.EqvGen (Names rows)

/-- After a step of a task, an allocation of the task is made and not yet released. -/
structure Live (rows : List Row) (now index : Nat) : Prop where
  made : index ≤ now
  allocation : ∃ row current, rows[index]? = some row ∧ row.allocates = true ∧
    rows[now]? = some current ∧ current.task = row.task ∧
      ∀ later other, index < later → later ≤ now → rows[later]? = some other →
        other.task = row.task → other.allocates = false → other.ordinal ≠ row.ordinal

structure Correct (rows : List Row) (slots : List Int) (count : Nat) : Prop where
  length : slots.length = rows.length
  /-- Two steps share a slot exactly where they belong to one chain of one task. -/
  shared : ∀ first second row other, rows[first]? = some row → rows[second]? = some other →
    (slots[first]? = slots[second]? ↔ row.task = other.task ∧ Chained rows first second)
  dense : ∀ slot : Int, slot ∈ slots ↔ 0 ≤ slot ∧ slot < count
  apart : ∀ now first second, Live rows now first → Live rows now second → first ≠ second →
    slots[first]? ≠ slots[second]?

/-- No step names an allocation by a key of an earlier task's allocation. -/
def Unambiguous (rows : List Row) : Prop :=
  ∀ row ∈ rows, ∀ other ∈ rows, ∀ named, row.names = some named →
    other.allocates = true → other.task < row.task →
      keyOf rows other.task other.ordinal ≠ keyOf rows row.task named

variable {rows : List Row} {row other : Row} {index first second fuel : Nat}
variable {parent : Nat → Nat}

/-! ## Keys -/

theorem le_maximum {values : List Int} {value : Int} (mem : value ∈ values) :
    value ≤ maximum values := by
  have grows : ∀ (list : List Int) (base : Int), base ≤ list.foldl max base ∧
      ∀ value ∈ list, value ≤ list.foldl max base := by
    intro list
    induction list with
    | nil => exact fun base => ⟨le_rfl, fun _ mem => by cases mem⟩
    | cons head rest ih =>
        intro base
        rcases ih (max base head) with ⟨above, all⟩
        refine ⟨(le_max_left _ _).trans above, ?_⟩
        intro value mem
        rcases List.mem_cons.mp mem with here | there
        · rw [here]
          exact (le_max_right _ _).trans above
        · exact all value there
  exact (grows values _).2 value mem

theorem lt_span (mem : row ∈ rows) : row.ordinal < span rows := by
  have bound : row.ordinal ≤ maximum (rows.map (·.ordinal)) :=
    le_maximum (List.mem_map.mpr ⟨row, mem, rfl⟩)
  have more := le_max_left (maximum (rows.map (·.ordinal))) (maximum (rows.map (·.reuse)))
  unfold span
  omega

/-- Within a task a key stands for one ordinal. -/
theorem ordinal_of_key {task : Nat} {named ordinal : Int} (small : span rows < 2 ^ 63)
    (positive : 0 ≤ named) (bound : named < span rows) (positive' : 0 ≤ ordinal)
    (bound' : ordinal < span rows) (same : keyOf rows task named = keyOf rows task ordinal) :
    named = ordinal := by
  unfold keyOf toInt64 at same
  have congruent : task * span rows + named ≡ task * span rows + ordinal
      [ZMOD ((2 ^ 64 : Nat) : Int)] := by
    unfold Int.ModEq
    rw [← Int.bmod_emod, same, Int.bmod_emod]
  have equal : named % ((2 ^ 64 : Nat) : Int) = ordinal % ((2 ^ 64 : Nat) : Int) :=
    Int.ModEq.add_left_cancel' _ congruent
  rw [Int.emod_eq_of_lt positive (by omega), Int.emod_eq_of_lt positive' (by omega)] at equal
  exact equal

/-! ## Chains -/

/-- The slots by the chains' ends. -/
def slotsOf (rows : List Row) (parent : Nat → Nat) : List Int :=
  (List.range rows.length).map fun index => (freshBefore rows (root parent index) : Int)

theorem slotsOf_getElem (bound : index < rows.length) :
    (slotsOf rows parent)[index]? = some (freshBefore rows (root parent index) : Int) := by
  unfold slotsOf
  rw [List.getElem?_map, List.getElem?_range bound]
  rfl

theorem resolve_eq (compiled : Compiled rows) (small : rows ≠ [] → span rows < 2 ^ 63) :
    ∃ parent, Sourced rows parent ∧ ∀ fuel, rows.length < fuel →
      resolve fuel rows = some (slotsOf rows parent, rows.countP (·.fresh)) := by
  rcases settled_sources compiled with ⟨sources, parent, result, sourced, settled⟩
  refine ⟨parent, sourced, ?_⟩
  intro fuel enough
  unfold resolve
  by_cases none : rows = []
  · rw [if_pos none, none]
    rfl
  · rw [if_neg none, if_neg (Int.not_le.mpr (small none)), result]
    simp only [Option.bind_eq_bind, Option.bind_some, settled fuel enough, List.map_map]
    congr 2
    apply List.map_congr_left
    intro index mem
    rcases sourced.root_fresh compiled (List.mem_range.mp mem) with ⟨base, known, fresh⟩
    show (freshSlots 0 rows).getD (root parent index) (-1) = _
    rw [List.getD_eq_getElem?_getD, freshSlots_getElem known, fresh, if_pos rfl, Nat.zero_add]
    rfl

/-- Two places have one slot exactly where their chains have one end. -/
theorem slots_eq_iff (compiled : Compiled rows) (sourced : Sourced rows parent)
    (left : first < rows.length) (right : second < rows.length) :
    (slotsOf rows parent)[first]? = (slotsOf rows parent)[second]? ↔
      root parent first = root parent second := by
  rw [slotsOf_getElem left, slotsOf_getElem right, Option.some.injEq, Int.ofNat_inj]
  constructor
  · intro same
    rcases sourced.root_fresh compiled left with ⟨base, known, fresh⟩
    rcases sourced.root_fresh compiled right with ⟨base', known', fresh'⟩
    rcases Nat.lt_trichotomy (root parent first) (root parent second) with less | equal | more
    · exact absurd same (freshBefore_lt less known fresh).ne
    · exact equal
    · exact absurd same (freshBefore_lt more known' fresh').ne'
  · intro same
    rw [same]

/-! ## Unambiguous keys -/

/-- Every name leads to the allocation that is meant. -/
def Precise (rows : List Row) (parent : Nat → Nat) : Prop :=
  ∀ index row ordinal, rows[index]? = some row → row.names = some ordinal →
    Names rows index (parent index)

theorem precise_of_unambiguous (compiled : Compiled rows) (sourced : Sourced rows parent)
    (small : rows ≠ [] → span rows < 2 ^ 63) (unambiguous : Unambiguous rows) :
    Precise rows parent := by
  intro index row ordinal known named
  have mem := List.mem_of_getElem? known
  have small := small (List.ne_nil_of_mem mem)
  rcases allocationOf_some (sourced.named known named) with
    ⟨⟨other, found, allocates, same⟩, least⟩
  rcases compiled.traced.named_before known named with
    ⟨earlier, _, meant, atEarlier, meantAllocates, meantTask, meantOrdinal⟩
  have meantKey : keyOf rows meant.task meant.ordinal = keyOf rows row.task ordinal := by
    rw [meantTask, meantOrdinal]
  have inOther := List.mem_of_getElem? found
  have inMeant := List.mem_of_getElem? atEarlier
  have task_le : other.task ≤ row.task := by
    rcases Nat.eq_or_lt_of_le (least earlier meant atEarlier meantAllocates meantKey) with
      equal | less
    · rw [equal, atEarlier] at found
      rw [← Option.some.inj found, meantTask]
    · rw [← meantTask]
      exact pairwise_at compiled.sorted less found atEarlier
  have task : other.task = row.task := by
    rcases Nat.eq_or_lt_of_le task_le with equal | less
    · exact equal
    · exact absurd same (unambiguous row mem other inOther ordinal named allocates less)
  refine ⟨row, other, known, found, ?_, allocates, task⟩
  rw [task] at same
  rw [named, ordinal_of_key small (compiled.traced.ordinals other inOther)
    (lt_span inOther) (meantOrdinal ▸ compiled.traced.ordinals meant inMeant)
    (meantOrdinal ▸ lt_span inMeant) same]

theorem Precise.parent_eq (compiled : Compiled rows) (precise : Precise rows parent)
    (names : Names rows first second) : parent first = second := by
  rcases names with ⟨row, other, known, found, named, allocates, task⟩
  rcases precise first row _ known named with
    ⟨row', other', known', found', named', allocates', task'⟩
  rw [known] at known'
  cases known'
  rw [named] at named'
  exact compiled.traced.unique found' found allocates' allocates (task'.trans task.symm)
    (Option.some.inj named').symm

theorem Precise.chained_root (compiled : Compiled rows) (sourced : Sourced rows parent)
    (precise : Precise rows parent) (bound : index < rows.length) :
    Chained rows index (root parent index) := by
  induction index using Nat.strong_induction_on with
  | _ index ih =>
    have known := List.getElem?_eq_getElem bound
    cases named : (rows[index]).names with
    | none =>
        rw [root_of_fixed (sourced.fresh known (names_eq_none.mp named))]
        exact .refl _
    | some ordinal =>
        have less := sourced.named_lt compiled known named
        have rest := ih (parent index) less (less.trans bound)
        rw [root_parent sourced.descends] at rest
        exact (Relation.EqvGen.rel _ _ (precise index _ ordinal known named)).trans _ _ _ rest

theorem chained_task (chained : Chained rows first second) :
    (rows[first]?).map (·.task) = (rows[second]?).map (·.task) := by
  induction chained with
  | rel first second names =>
      rcases names with ⟨row, other, known, found, _, _, task⟩
      rw [known, found]
      exact congrArg some task.symm
  | refl place => rfl
  | symm first second _ ih => exact ih.symm
  | trans first second third _ _ left right => exact left.trans right

theorem Precise.chained_iff (compiled : Compiled rows) (sourced : Sourced rows parent)
    (precise : Precise rows parent) (left : first < rows.length)
    (right : second < rows.length) :
    Chained rows first second ↔ root parent first = root parent second := by
  constructor
  · intro chained
    apply (joined_iff sourced.descends).mp
    exact Relation.EqvGen.mono (fun _ _ names => precise.parent_eq compiled names) _ _ chained
  · intro same
    have back := (precise.chained_root compiled sourced right).symm _ _
    rw [← same] at back
    exact (precise.chained_root compiled sourced left).trans _ _ _ back

/-! ## Live allocations -/

/-- An allocation that takes over a range names the allocation of that range. -/
theorem names_of_reuse (allocates : row.allocates = true) (reuses : 0 ≤ row.reuse) :
    row.names = some row.reuse := by
  unfold Row.names
  rw [if_pos allocates, if_pos reuses]

theorem reuse_of_named (sourced : Sourced rows parent) (known : rows[index]? = some row)
    (moves : parent index ≠ index) (allocates : row.allocates = true) : 0 ≤ row.reuse := by
  by_contra fresh
  apply moves
  apply sourced.fresh known
  unfold Row.fresh
  rw [allocates]
  exact decide_eq_true (Int.not_le.mp fresh)

def Allocates (rows : List Row) (index : Nat) : Prop :=
  ∃ row, rows[index]? = some row ∧ row.allocates = true

/-- The next allocation in a chain comes after a release of the one before. -/
theorem released_between (compiled : Compiled rows) (sourced : Sourced rows parent)
    (precise : Precise rows parent) (known : rows[first]? = some row)
    (allocates : row.allocates = true) (next : rows[second]? = some other)
    (also : other.allocates = true) (ordered : first < second) (named : parent second = first) :
    ∃ release between, first < release ∧ release < second ∧
      rows[release]? = some between ∧ between.allocates = false ∧
        between.task = row.task ∧ between.ordinal = row.ordinal := by
  have reuses := reuse_of_named sourced next (by omega) also
  rcases precise second other _ next (names_of_reuse also reuses) with
    ⟨taker, owner, atSecond, atFirst, names, _, task⟩
  rw [next] at atSecond
  rw [named, known] at atFirst
  cases atSecond
  cases atFirst
  rw [names_of_reuse also reuses] at names
  have ordinal : other.reuse = row.ordinal := Option.some.inj names
  rcases compiled.traced.released_before next also reuses with
    ⟨release, bound, between, found, releases, sameTask, sameOrdinal⟩
  have releaseNames : between.names = some between.ordinal := by
    unfold Row.names
    rw [releases, if_neg Bool.false_ne_true]
  rcases compiled.traced.named_before found releaseNames with
    ⟨earlier, before, allocation, atEarlier, madeThere, earlierTask, earlierOrdinal⟩
  have same : earlier = first := compiled.traced.unique atEarlier known madeThere allocates
    (by rw [earlierTask, sameTask, task]) (by rw [earlierOrdinal, sameOrdinal, ordinal])
  refine ⟨release, between, same ▸ before, bound, found, releases, ?_, ?_⟩
  · rw [sameTask, task]
  · rw [sameOrdinal, ordinal]

theorem live_apart (compiled : Compiled rows) (sourced : Sourced rows parent)
    (precise : Precise rows parent) {now : Nat} (ordered : first < second)
    (liveFirst : Live rows now first) (liveSecond : Live rows now second) :
    root parent first ≠ root parent second := by
  intro same
  rcases liveFirst.allocation with ⟨row, current, known, allocates, _, _, kept⟩
  rcases liveSecond.allocation with ⟨other, _, found, also, _, _, _⟩
  have closed : ∀ index, Allocates rows index → Allocates rows (parent index) := by
    rintro index ⟨row, known, allocates⟩
    by_cases fixed : parent index = index
    · rw [fixed]
      exact ⟨row, known, allocates⟩
    · have reuses := reuse_of_named sourced known fixed allocates
      rcases precise index row _ known (names_of_reuse allocates reuses) with
        ⟨_, owner, _, atOwner, _, made, _⟩
      exact ⟨owner, atOwner, made⟩
  have injective : ∀ left right, Allocates rows left → Allocates rows right →
      parent left ≠ left → parent right ≠ right → parent left = parent right →
        left = right := by
    rintro left right ⟨row, known, allocates⟩ ⟨other, found, also⟩ moves moves' equal
    have reuses := reuse_of_named sourced known moves allocates
    have reuses' := reuse_of_named sourced found moves' also
    rcases precise left row _ known (names_of_reuse allocates reuses) with
      ⟨taker, owner, atLeft, atOwner, named, _, task⟩
    rcases precise right other _ found (names_of_reuse also reuses') with
      ⟨taker', owner', atRight, atOwner', named', _, task'⟩
    rw [known] at atLeft
    rw [found] at atRight
    rw [equal, atOwner'] at atOwner
    cases atLeft
    cases atRight
    cases atOwner
    rw [names_of_reuse allocates reuses] at named
    rw [names_of_reuse also reuses'] at named'
    exact compiled.traced.reused_once known found allocates also
      (task.symm.trans task') reuses
      ((Option.some.inj named).trans (Option.some.inj named').symm)
  rcases ancestor_of_root sourced.descends closed injective ordered ⟨row, known, allocates⟩
    ⟨other, found, also⟩ same with ⟨later, bound, ⟨taker, atLater, made⟩, after, named⟩
  rcases released_between compiled sourced precise known allocates atLater made after named with
    ⟨release, between, above, below, atRelease, releases, task, ordinal⟩
  have limit := liveSecond.made
  exact kept release between above (by omega) atRelease task releases ordinal

/-! ## Both directions -/

theorem correct_of_precise (compiled : Compiled rows) (sourced : Sourced rows parent)
    (precise : Precise rows parent) :
    Correct rows (slotsOf rows parent) (rows.countP (·.fresh)) where
  length := by
    unfold slotsOf
    rw [List.length_map, List.length_range]
  shared := by
    intro first second row other known found
    have left := (List.getElem?_eq_some_iff.mp known).1
    have right := (List.getElem?_eq_some_iff.mp found).1
    rw [slots_eq_iff compiled sourced left right,
      ← precise.chained_iff compiled sourced left right]
    constructor
    · intro chained
      have task := chained_task chained
      rw [known, found] at task
      exact ⟨Option.some.inj task, chained⟩
    · intro both
      exact both.2
  dense := by
    intro slot
    unfold slotsOf
    rw [List.mem_map]
    constructor
    · rintro ⟨index, mem, rfl⟩
      rcases sourced.root_fresh compiled (List.mem_range.mp mem) with ⟨base, known, fresh⟩
      have bound := freshBefore_lt_count known fresh
      omega
    · rintro ⟨positive, bound⟩
      rcases Int.eq_ofNat_of_zero_le positive with ⟨value, rfl⟩
      rcases exists_fresh (Int.ofNat_lt.mp bound) with ⟨index, row, known, fresh, same⟩
      refine ⟨index, List.mem_range.mpr (List.getElem?_eq_some_iff.mp known).1, ?_⟩
      rw [root_of_fixed (sourced.fresh known fresh), same]
  apart := by
    intro now first second liveFirst liveSecond different same
    rcases liveFirst.allocation with ⟨_, _, known, _⟩
    rcases liveSecond.allocation with ⟨_, _, found, _⟩
    rw [slots_eq_iff compiled sourced (List.getElem?_eq_some_iff.mp known).1
      (List.getElem?_eq_some_iff.mp found).1] at same
    rcases Nat.lt_or_gt_of_ne different with less | more
    · exact live_apart compiled sourced precise less liveFirst liveSecond same
    · exact live_apart compiled sourced precise more liveSecond liveFirst same.symm

/-- A key of two tasks gives a slot to both. -/
theorem unambiguous_of_correct (compiled : Compiled rows) (sourced : Sourced rows parent)
    {count : Nat} (correct : Correct rows (slotsOf rows parent) count) : Unambiguous rows := by
  intro row mem other also ordinal named allocates less same
  rcases List.getElem?_of_mem mem with ⟨index, known⟩
  rcases List.getElem?_of_mem also with ⟨place, found⟩
  rcases allocationOf_some (sourced.named known named) with
    ⟨⟨first, atFirst, _, _⟩, least⟩
  have early := least place other found allocates same
  have task : first.task ≤ other.task := by
    rcases Nat.eq_or_lt_of_le early with equal | before
    · rw [equal, found] at atFirst
      rw [Option.some.inj atFirst]
    · exact pairwise_at compiled.sorted before atFirst found
  have ends := root_parent sourced.descends index
  have slots := (slots_eq_iff compiled sourced (List.getElem?_eq_some_iff.mp known).1
    (List.getElem?_eq_some_iff.mp atFirst).1).mpr ends.symm
  have together := ((correct.shared index _ row first known atFirst).mp slots).1
  omega

section Lists

variable {tasks : List TaskAdmissionSpec} {order : List Nat}

/-- The tasks' integers are elements of 64-bit arrays, the selected tasks' ordinals below the
largest one, and no key that a step asks for is also that of an earlier task's allocation. -/
structure Resolvable (tasks : List TaskAdmissionSpec) (order : List Nat) : Prop where
  fits : Fits tasks
  span : compiledRows tasks order ≠ [] → span (compiledRows tasks order) < 2 ^ 63
  unambiguous : Unambiguous (compiledRows tasks order)

/-- The loop ends with correct slots. -/
def Resolves (tasks : List TaskAdmissionSpec) (order : List Nat) : Prop :=
  ∃ slots count, (∀ fuel, (compiledRows tasks order).length < fuel →
    compiledSlots fuel tasks order = some (slots, count)) ∧
      Correct (compiledRows tasks order) slots count

/-- A range that is taken over has an ordinal of the list. -/
theorem reuses_fit (valid : ∀ spec ∈ tasks, spec.check = .ok ()) (fits : Fits tasks) :
    ∀ step ∈ allSteps tasks, ∀ source,
      step.reusesAllocationOrdinal = some source → source < 2 ^ 63 := by
  intro step mem source taken
  rcases List.mem_flatMap.mp mem with ⟨spec, inside, held⟩
  have traced := wellTraced_of_check 0 (valid spec inside)
  have allocates := allocates_of_reuse (valid spec inside) held taken
  have row : rowOf 0 step ∈ spec.allocationSteps.map (rowOf 0) := mem_rows held
  rcases List.getElem?_of_mem row with ⟨index, known⟩
  have reuse : (rowOf 0 step).reuse = source := rowOf_reuse.mpr taken
  have named := names_of_reuse (rowOf_allocates.mpr allocates)
    (reuse ▸ Int.natCast_nonneg source : 0 ≤ (rowOf 0 step).reuse)
  rcases traced.named_before known named with ⟨_, _, other, found, _, _, ordinal⟩
  rcases List.mem_map.mp (List.mem_of_getElem? found) with ⟨earlier, among, same⟩
  have bound := fits.ordinals earlier (List.mem_flatMap.mpr ⟨spec, inside, among⟩)
  rw [← same, reuse] at ordinal
  have equal : earlier.allocationOrdinal = source := Int.ofNat_inj.mp ordinal
  omega

theorem compiledSlots_eq (valid : ∀ spec ∈ tasks, spec.check = .ok ())
    (known : ∀ task ∈ order, task < tasks.length) (fits : Fits tasks) (fuel : Nat) :
    compiledSlots fuel tasks order = resolve fuel (compiledRows tasks order) := by
  unfold compiledSlots
  rw [taskColumns_some fits (reuses_fit valid fits)]
  simp only [Option.bind_eq_bind, Option.bind_some]
  unfold allocationSlots
  rw [rowsOf_gather known]

theorem resolves_of_resolvable (valid : ∀ spec ∈ tasks, spec.check = .ok ())
    (known : ∀ task ∈ order, task < tasks.length) (resolvable : Resolvable tasks order) :
    Resolves tasks order := by
  have compiled := compiled_compiledRows valid order
  rcases resolve_eq compiled resolvable.span with ⟨parent, sourced, result⟩
  refine ⟨_, _, ?_, correct_of_precise compiled sourced
    (precise_of_unambiguous compiled sourced resolvable.span resolvable.unambiguous)⟩
  intro fuel enough
  rw [compiledSlots_eq valid known resolvable.fits]
  exact result fuel enough

theorem resolvable_of_resolves (valid : ∀ spec ∈ tasks, spec.check = .ok ())
    (known : ∀ task ∈ order, task < tasks.length) (resolves : Resolves tasks order) :
    Resolvable tasks order := by
  rcases resolves with ⟨slots, count, returned, correct⟩
  have compiled := compiled_compiledRows valid order
  have fits : Fits tasks := by
    have result := returned _ (Nat.lt_succ_self _)
    rcases Option.bind_eq_some_iff.mp result with ⟨_, columns, _⟩
    exact fits_of_taskColumns columns
  have span : compiledRows tasks order ≠ [] → span (compiledRows tasks order) < 2 ^ 63 := by
    intro some_rows
    by_contra large
    have result := returned _ (Nat.lt_succ_self _)
    rw [compiledSlots_eq valid known fits] at result
    unfold resolve at result
    rw [if_neg some_rows, if_pos (Int.not_lt.mp large)] at result
    cases result
  rcases resolve_eq compiled span with ⟨parent, sourced, result⟩
  have same := returned _ (Nat.lt_succ_self _)
  rw [compiledSlots_eq valid known fits, result _ (Nat.lt_succ_self _)] at same
  cases same
  exact ⟨fits, span, unambiguous_of_correct compiled sourced correct⟩

/-- The slots of a list of valid tasks are resolved correctly exactly when its integers fit
and no key is ambiguous. -/
theorem slots_resolved_iff (valid : ∀ spec ∈ tasks, spec.check = .ok ())
    (known : ∀ task ∈ order, task < tasks.length) :
    Resolves tasks order ↔ Resolvable tasks order :=
  ⟨resolvable_of_resolves valid known, resolves_of_resolvable valid known⟩

end Lists

/-- A temporary range of so many bytes. -/
def temporary (ordinal bytes : Nat) (reuses : Option Nat) : List TaskAllocationStep :=
  [⟨ordinal, .allocate, bytes, none, reuses⟩, ⟨ordinal, .release, 0, none, none⟩]

def task (name : String) (steps : List TaskAllocationStep) : TaskAdmissionSpec where
  taskId := name
  workspaceExtents := []
  freshOutputAliases := []
  replacementAliases := []
  storageHandoffs := []
  allocationSteps := steps

/-- A task whose second range is its first one. -/
def reusingTask : TaskAdmissionSpec :=
  task "reusing" (temporary 0 16 none ++ temporary 1 16 (some 0))

theorem reusing_task_resolved : Resolves [reusingTask] [0] := by
  apply (slots_resolved_iff (by decide) (by decide)).mpr
  have first : ∀ row ∈ compiledRows [reusingTask] [0], row.task = 0 := by decide
  refine ⟨⟨by decide, by decide, by decide⟩, fun _ => by decide, ?_⟩
  · intro row mem other _ named _ _ less
    have zero := first row mem
    omega

/-- An ordinal of the second task is so large that the third task's ordinal 2 has the key of
the first task's ordinal 0. -/
def collidingTasks : List TaskAdmissionSpec :=
  [task "first" (temporary 0 16 none), task "second" (temporary (2 ^ 63 - 2) 16 none),
    task "third" (temporary 2 16 none ++ temporary 3 16 (some 2))]

theorem colliding_tasks_unresolved :
    (∀ spec ∈ collidingTasks, spec.check = .ok ()) ∧ ¬Resolves collidingTasks [0, 1, 2] := by
  have valid : ∀ spec ∈ collidingTasks, spec.check = .ok () := by decide
  refine ⟨valid, ?_⟩
  intro resolves
  have unambiguous := (resolvable_of_resolves valid (by decide) resolves).unambiguous
  have mem : (⟨2, 2, false, -1⟩ : Row) ∈ compiledRows collidingTasks [0, 1, 2] := by decide
  have also : (⟨0, 0, true, -1⟩ : Row) ∈ compiledRows collidingTasks [0, 1, 2] := by decide
  exact unambiguous _ mem _ also 2 rfl rfl (by decide) (by decide)

end ShadowSpill.Planner.AllocationResolution
