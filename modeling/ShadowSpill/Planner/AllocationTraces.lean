import ShadowSpill.Planner.AllocationRows

/-!
# Valid traces

In the rows of valid tasks an ordinal is allocated once in its task, a step names an
allocation before it, and a range is taken over once and after its release.
-/

namespace ShadowSpill.Planner.AllocationTraces

open Library.Checks AdmissionSpecs AllocationSlots AllocationRows

/-! ## Prefixes -/

section Prefixes

variable {α : Type} {holds : List α → α → Prop} {before first second : List α}

/-- Something holds of every element and the elements before it. -/
def Prefixed (holds : List α → α → Prop) : List α → List α → Prop
  | _, [] => True
  | before, value :: rest => holds before value ∧ Prefixed holds (before ++ [value]) rest

theorem prefixed_append : Prefixed holds before (first ++ second) ↔
    Prefixed holds before first ∧ Prefixed holds (before ++ first) second := by
  induction first generalizing before with
  | nil =>
      rw [List.nil_append, List.append_nil]
      exact ⟨fun rest => ⟨trivial, rest⟩, fun both => both.2⟩
  | cons value rest ih =>
      show holds before value ∧ Prefixed holds _ (rest ++ second) ↔
        (holds before value ∧ Prefixed holds _ rest) ∧ _
      rw [ih, and_assoc, List.append_assoc, List.singleton_append]

theorem Prefixed.mono {more : List α}
    (grows : ∀ before value, holds before value → holds (more ++ before) value)
    (prefixed : Prefixed holds before first) : Prefixed holds (more ++ before) first := by
  induction first generalizing before with
  | nil => trivial
  | cons value rest ih =>
      refine ⟨grows before value prefixed.1, ?_⟩
      rw [List.append_assoc]
      exact ih prefixed.2

theorem Prefixed.at {index : Nat} {value : α} (prefixed : Prefixed holds before first)
    (known : first[index]? = some value) : holds (before ++ first.take index) value := by
  induction first generalizing before index with
  | nil => cases known
  | cons head rest ih =>
      cases index with
      | zero =>
          cases known
          rw [List.take_zero, List.append_nil]
          exact prefixed.1
      | succ index =>
          have later := ih prefixed.2 known
          rw [List.append_assoc] at later
          exact later

end Prefixes

/-! ## Rows -/

/-- Two steps of one task allocate different ordinals and take over different ranges. -/
structure Distinct (first second : Row) : Prop where
  ordinals : first.task = second.task → first.allocates = true → second.allocates = true →
    first.ordinal ≠ second.ordinal
  reuses : first.task = second.task → first.allocates = true → second.allocates = true →
    0 ≤ second.reuse → first.reuse ≠ second.reuse

/-- A step names an allocation before it, and takes over only what is released. -/
structure Founded (before : List Row) (row : Row) : Prop where
  named : ∀ ordinal, row.names = some ordinal → ∃ other ∈ before,
    other.allocates = true ∧ other.task = row.task ∧ other.ordinal = ordinal
  retired : row.allocates = true → 0 ≤ row.reuse → ∃ other ∈ before,
    other.allocates = false ∧ other.task = row.task ∧ other.ordinal = row.reuse

theorem Founded.grow (before : List Row) (row : Row) {more : List Row}
    (founded : Founded before row) : Founded (more ++ before) row := by
  constructor
  · intro ordinal named
    rcases founded.named ordinal named with ⟨other, mem, facts⟩
    exact ⟨other, List.mem_append_right _ mem, facts⟩
  · intro allocates reuses
    rcases founded.retired allocates reuses with ⟨other, mem, facts⟩
    exact ⟨other, List.mem_append_right _ mem, facts⟩

structure WellTraced (rows : List Row) : Prop where
  ordinals : ∀ row ∈ rows, 0 ≤ row.ordinal
  distinct : rows.Pairwise Distinct
  founded : Prefixed Founded [] rows

theorem wellTraced_nil : WellTraced [] :=
  ⟨fun _ mem => (List.not_mem_nil mem).elim, List.Pairwise.nil, trivial⟩

/-- Rows of other tasks do not interfere. -/
theorem WellTraced.append {first second : List Row} (left : WellTraced first)
    (right : WellTraced second)
    (apart : ∀ row ∈ first, ∀ other ∈ second, row.task ≠ other.task) :
    WellTraced (first ++ second) := by
  refine ⟨?_, ?_, ?_⟩
  · intro row mem
    rcases List.mem_append.mp mem with here | there
    · exact left.ordinals row here
    · exact right.ordinals row there
  · apply List.pairwise_append.mpr
    refine ⟨left.distinct, right.distinct, ?_⟩
    intro row here other there
    exact ⟨fun same => absurd same (apart row here other there),
      fun same => absurd same (apart row here other there)⟩
  · apply prefixed_append.mpr
    refine ⟨left.founded, ?_⟩
    have grown := @Prefixed.mono _ Founded [] second first
      (fun before row => Founded.grow before row) right.founded
    rw [List.append_nil] at grown
    exact grown

/-- One more step of the same task. -/
theorem WellTraced.snoc {rows : List Row} {row : Row} (traced : WellTraced rows)
    (ordinal : 0 ≤ row.ordinal) (distinct : ∀ other ∈ rows, Distinct other row)
    (founded : Founded rows row) : WellTraced (rows ++ [row]) := by
  refine ⟨?_, ?_, ?_⟩
  · intro other mem
    rcases List.mem_append.mp mem with here | there
    · exact traced.ordinals other here
    · cases List.mem_singleton.mp there
      exact ordinal
  · apply List.pairwise_append.mpr
    refine ⟨traced.distinct, List.pairwise_singleton _ _, ?_⟩
    intro other here last there
    cases List.mem_singleton.mp there
    exact distinct other here
  · exact prefixed_append.mpr ⟨traced.founded, founded, trivial⟩

/-! ## Validated steps -/

/-- What the validating loop has established after some steps. -/
structure Kept (place : Nat) (before : List TaskAllocationStep) (trace : Trace) : Prop where
  traced : WellTraced (before.map (rowOf place))
  allocations : ∀ step ∈ before, step.kind = .allocate → step ∈ trace.allocations
  live : ∀ ordinal ∈ trace.live, ∃ step ∈ before,
    step.kind = .allocate ∧ step.allocationOrdinal = ordinal
  retired : ∀ ordinal ∈ trace.retired,
    (∃ step ∈ before, step.kind = .allocate ∧ step.allocationOrdinal = ordinal) ∧
      ∃ step ∈ before, step.kind = .release ∧ step.allocationOrdinal = ordinal
  reused : ∀ step ∈ before, step.kind = .allocate → ∀ source,
    step.reusesAllocationOrdinal = some source → source ∈ trace.reused

theorem kept_empty (place : Nat) : Kept place [] .empty where
  traced := wellTraced_nil
  allocations := fun _ mem => (List.not_mem_nil mem).elim
  live := fun _ mem => (List.not_mem_nil mem).elim
  retired := fun _ mem => (List.not_mem_nil mem).elim
  reused := fun _ mem => (List.not_mem_nil mem).elim

variable {place : Nat} {before : List TaskAllocationStep} {trace after : Trace}
variable {step : TaskAllocationStep}

theorem rowOf_allocates : (rowOf place step).allocates = true ↔ step.kind = .allocate :=
  decide_eq_true_iff

/-- A range is taken over exactly where a step says so. -/
theorem rowOf_reuse {ordinal : Nat} :
    (rowOf place step).reuse = ordinal ↔ step.reusesAllocationOrdinal = some ordinal := by
  unfold rowOf
  dsimp only
  cases step.reusesAllocationOrdinal with
  | none =>
      constructor
      · intro wrong
        have wrong : (-1 : Int) = ordinal := wrong
        omega
      · intro wrong
        cases wrong
  | some source =>
      rw [Option.some.injEq]
      exact Int.ofNat_inj

theorem exists_reuse (reuses : 0 ≤ (rowOf place step).reuse) :
    ∃ source : Nat, step.reusesAllocationOrdinal = some source ∧
      (rowOf place step).reuse = source := by
  refine ⟨(rowOf place step).reuse.toNat, ?_, (Int.toNat_of_nonneg reuses).symm⟩
  exact rowOf_reuse.mp (Int.toNat_of_nonneg reuses).symm

theorem mem_rows {step : TaskAllocationStep} (mem : step ∈ before) :
    rowOf place step ∈ before.map (rowOf place) :=
  List.mem_map.mpr ⟨step, mem, rfl⟩

theorem Kept.allocate (kept : Kept place before trace) (allocates : step.kind = .allocate)
    (visited : visit trace step = .ok after) : Kept place (before ++ [step]) after := by
  rcases visit_allocate allocates visited with
    ⟨fresh, live, allocations, retired, reused, allowed⟩
  have inside : ∀ {ordinal : Nat}, (∃ earlier ∈ before, earlier.kind = .allocate ∧
      earlier.allocationOrdinal = ordinal) → ∃ earlier ∈ before ++ [step],
        earlier.kind = .allocate ∧ earlier.allocationOrdinal = ordinal := by
    rintro ordinal ⟨earlier, mem, facts⟩
    exact ⟨earlier, List.mem_append_left _ mem, facts⟩
  refine ⟨?_, ?_, ?_, ?_, ?_⟩
  · rw [List.map_append, List.map_singleton]
    apply kept.traced.snoc (Int.natCast_nonneg _)
    · intro other mem
      rcases List.mem_map.mp mem with ⟨earlier, held, same⟩
      rw [← same]
      constructor
      · intro _ earlierAllocates _ wrong
        exact fresh earlier (kept.allocations earlier held
          (rowOf_allocates.mp earlierAllocates)) (Int.ofNat_inj.mp wrong)
      · intro _ earlierAllocates _ reuses wrong
        rcases exists_reuse reuses with ⟨source, taken, value⟩
        rw [value] at wrong
        exact (allowed source taken).2 (kept.reused earlier held
          (rowOf_allocates.mp earlierAllocates) source (rowOf_reuse.mp wrong))
    · constructor
      · intro ordinal named
        unfold Row.names at named
        rw [rowOf_allocates.mpr allocates, if_pos rfl] at named
        split at named
        · rename_i reuses
          cases named
          rcases exists_reuse reuses with ⟨source, taken, value⟩
          rcases (kept.retired source (allowed source taken).1).1 with
            ⟨earlier, mem, kind, same⟩
          refine ⟨rowOf place earlier, mem_rows mem, rowOf_allocates.mpr kind, rfl, ?_⟩
          rw [value, ← same]
          rfl
        · cases named
      · intro _ reuses
        rcases exists_reuse reuses with ⟨source, taken, value⟩
        rcases (kept.retired source (allowed source taken).1).2 with
          ⟨earlier, mem, kind, same⟩
        refine ⟨rowOf place earlier, mem_rows mem, ?_, rfl, ?_⟩
        · exact decide_eq_false (by rw [kind]; decide)
        · rw [value, ← same]
          rfl
  · intro earlier mem kind
    rw [allocations]
    rcases List.mem_append.mp mem with old | new
    · exact List.mem_append_left _ (kept.allocations earlier old kind)
    · exact List.mem_append_right _ new
  · intro ordinal mem
    rw [live] at mem
    rcases List.mem_append.mp mem with old | new
    · exact inside (kept.live ordinal old)
    · exact ⟨step, List.mem_append_right _ (List.mem_singleton_self _), allocates,
        (List.mem_singleton.mp new).symm⟩
  · intro ordinal mem
    rw [retired] at mem
    rcases kept.retired ordinal mem with ⟨allocated, ⟨earlier, held, facts⟩⟩
    exact ⟨inside allocated, earlier, List.mem_append_left _ held, facts⟩
  · intro earlier mem kind source taken
    rw [reused]
    rcases List.mem_append.mp mem with old | new
    · exact List.mem_append_left _ (kept.reused earlier old kind source taken)
    · rw [List.mem_singleton.mp new] at taken
      exact List.mem_append_right _ (Option.mem_toList.mpr taken)

theorem Kept.release (kept : Kept place before trace) (releases : step.kind = .release)
    (visited : visit trace step = .ok after) : Kept place (before ++ [step]) after := by
  rcases visit_release releases visited with ⟨live, same⟩
  have idle : ¬(rowOf place step).allocates = true := by
    rw [rowOf_allocates, releases]
    decide
  rcases kept.live _ live with ⟨allocation, held, kind, ordinal⟩
  rw [same]
  refine ⟨?_, ?_, ?_, ?_, ?_⟩
  · rw [List.map_append, List.map_singleton]
    apply kept.traced.snoc (Int.natCast_nonneg _)
    · intro other _
      exact ⟨fun _ _ wrong => absurd wrong idle, fun _ _ wrong => absurd wrong idle⟩
    · constructor
      · intro named known
        unfold Row.names at known
        rw [if_neg idle] at known
        cases known
        refine ⟨rowOf place allocation, mem_rows held, rowOf_allocates.mpr kind, rfl, ?_⟩
        exact congrArg Nat.cast ordinal
      · intro wrong
        exact absurd wrong idle
  · intro earlier mem allocates
    rcases List.mem_append.mp mem with old | new
    · exact kept.allocations earlier old allocates
    · rw [List.mem_singleton.mp new, releases] at allocates
      cases allocates
  · intro other mem
    rcases kept.live other (List.mem_of_mem_filter mem) with ⟨earlier, inside, facts⟩
    exact ⟨earlier, List.mem_append_left _ inside, facts⟩
  · intro other mem
    rcases List.mem_append.mp mem with old | new
    · rcases kept.retired other old with ⟨⟨first, inFirst, facts⟩, second, inSecond, more⟩
      exact ⟨⟨first, List.mem_append_left _ inFirst, facts⟩, second,
        List.mem_append_left _ inSecond, more⟩
    · cases List.mem_singleton.mp new
      exact ⟨⟨allocation, List.mem_append_left _ held, kind, ordinal⟩, step,
        List.mem_append_right _ (List.mem_singleton_self _), releases, rfl⟩
  · intro earlier mem allocates source taken
    rcases List.mem_append.mp mem with old | new
    · exact kept.reused earlier old allocates source taken
    · rw [List.mem_singleton.mp new, releases] at allocates
      cases allocates

/-- The steps of a valid task are well traced. -/
theorem wellTraced_of_check {spec : TaskAdmissionSpec} (place : Nat)
    (valid : spec.check = .ok ()) :
    WellTraced (spec.allocationSteps.map (rowOf place)) := by
  unfold TaskAdmissionSpec.check at valid
  simp only [check_bind_ok] at valid
  have traced := valid.2.2.2.2.2.2.2.2.2
  unfold validateAllocationSteps at traced
  split at traced
  · rename_i none
    rw [none]
    exact wellTraced_nil
  · rw [bind_ok] at traced
    rcases traced with ⟨trace, walked, _⟩
    have kept := @walk_keeps _ _ _ (fun _ => visit) (Kept place)
      (fun index before state after step kept visited => by
        cases kind : step.kind with
        | allocate => exact kept.allocate kind visited
        | release => exact kept.release kind visited) 0 [] .empty trace _ (kept_empty place) walked
    rw [List.nil_append] at kept
    exact kept.traced

/-! ## Compiled rows -/

/-- The rows of a compiled order: task by task, each well traced. -/
structure Compiled (rows : List Row) : Prop where
  traced : WellTraced rows
  sorted : rows.Pairwise fun first second => first.task ≤ second.task

variable {tasks : List TaskAdmissionSpec}

theorem rowsFrom_later {order : List Nat} {place : Nat} {row : Row}
    (mem : row ∈ rowsFrom tasks place order) : place ≤ row.task := by
  induction order generalizing place with
  | nil => cases mem
  | cons task rest ih =>
      rcases List.mem_append.mp mem with here | there
      · rcases List.mem_map.mp here with ⟨step, _, same⟩
        rw [← same]
        exact le_rfl
      · exact (Nat.le_succ place).trans (ih there)

theorem compiled_rowsFrom (valid : ∀ spec ∈ tasks, spec.check = .ok ()) (place : Nat)
    (order : List Nat) : Compiled (rowsFrom tasks place order) := by
  induction order generalizing place with
  | nil => exact ⟨wellTraced_nil, List.Pairwise.nil⟩
  | cons task rest ih =>
      have later := ih (place + 1)
      have here : WellTraced ((stepsOf tasks task).map (rowOf place)) := by
        unfold stepsOf
        cases known : tasks[task]? with
        | none => exact wellTraced_nil
        | some spec =>
            exact wellTraced_of_check place (valid spec (List.mem_of_getElem? known))
      have own : ∀ row ∈ (stepsOf tasks task).map (rowOf place), row.task = place := by
        intro row mem
        rcases List.mem_map.mp mem with ⟨step, _, same⟩
        rw [← same]
        rfl
      refine ⟨here.append later.traced ?_, List.pairwise_append.mpr ⟨?_, later.sorted, ?_⟩⟩
      · intro row inside other there same
        have bound := rowsFrom_later there
        rw [← same, own row inside] at bound
        exact absurd bound (Nat.not_succ_le_self place)
      · apply List.Pairwise.imp_of_mem (R := fun _ _ => True)
        · intro first second inFirst inSecond _
          rw [own first inFirst, own second inSecond]
        · exact List.pairwise_of_forall fun _ _ => trivial
      · intro row inside other there
        rw [own row inside]
        exact (Nat.le_succ place).trans (rowsFrom_later there)

theorem compiled_compiledRows (valid : ∀ spec ∈ tasks, spec.check = .ok ())
    (order : List Nat) : Compiled (compiledRows tasks order) :=
  compiled_rowsFrom valid 0 order

/-! ## Places -/

section Places

variable {rows : List Row} {row other : Row} {first second : Nat}

theorem pairwise_at {R : Row → Row → Prop} (pairwise : rows.Pairwise R)
    (ordered : first < second) (atFirst : rows[first]? = some row)
    (atSecond : rows[second]? = some other) : R row other := by
  rcases List.getElem?_eq_some_iff.mp atFirst with ⟨bound, same⟩
  rcases List.getElem?_eq_some_iff.mp atSecond with ⟨bound', same'⟩
  rw [← same, ← same']
  exact List.pairwise_iff_getElem.mp pairwise first second bound bound' ordered

theorem exists_before {index : Nat} (mem : row ∈ rows.take index) :
    ∃ earlier < index, rows[earlier]? = some row := by
  rcases List.getElem?_of_mem mem with ⟨earlier, found⟩
  rw [List.getElem?_take] at found
  split at found
  · rename_i bound
    exact ⟨earlier, bound, found⟩
  · cases found

theorem WellTraced.founded_at (traced : WellTraced rows) (known : rows[first]? = some row) :
    Founded (rows.take first) row :=
  Prefixed.at traced.founded known

/-- An ordinal is allocated once in its task. -/
theorem WellTraced.unique (traced : WellTraced rows) (atFirst : rows[first]? = some row)
    (atSecond : rows[second]? = some other) (allocates : row.allocates = true)
    (also : other.allocates = true) (task : row.task = other.task)
    (ordinal : row.ordinal = other.ordinal) : first = second := by
  rcases Nat.lt_trichotomy first second with before | same | after
  · exact absurd ordinal
      ((pairwise_at traced.distinct before atFirst atSecond).ordinals task allocates also)
  · exact same
  · exact absurd ordinal.symm
      ((pairwise_at traced.distinct after atSecond atFirst).ordinals task.symm also allocates)

/-- A range is taken over once. -/
theorem WellTraced.reused_once (traced : WellTraced rows) (atFirst : rows[first]? = some row)
    (atSecond : rows[second]? = some other) (allocates : row.allocates = true)
    (also : other.allocates = true) (task : row.task = other.task)
    (reuses : 0 ≤ row.reuse) (same : row.reuse = other.reuse) : first = second := by
  rcases Nat.lt_trichotomy first second with before | equal | after
  · exact absurd same ((pairwise_at traced.distinct before atFirst atSecond).reuses task
      allocates also (same ▸ reuses))
  · exact equal
  · exact absurd same.symm ((pairwise_at traced.distinct after atSecond atFirst).reuses
      task.symm also allocates reuses)

/-- A named allocation stands before the step that names it. -/
theorem WellTraced.named_before (traced : WellTraced rows) (known : rows[first]? = some row)
    {ordinal : Int} (named : row.names = some ordinal) :
    ∃ earlier < first, ∃ other, rows[earlier]? = some other ∧ other.allocates = true ∧
      other.task = row.task ∧ other.ordinal = ordinal := by
  rcases (traced.founded_at known).named ordinal named with ⟨other, mem, facts⟩
  rcases exists_before mem with ⟨earlier, bound, found⟩
  exact ⟨earlier, bound, other, found, facts⟩

/-- A range that is taken over was released before. -/
theorem WellTraced.released_before (traced : WellTraced rows)
    (known : rows[first]? = some row) (allocates : row.allocates = true)
    (reuses : 0 ≤ row.reuse) :
    ∃ earlier < first, ∃ other, rows[earlier]? = some other ∧ other.allocates = false ∧
      other.task = row.task ∧ other.ordinal = row.reuse := by
  rcases (traced.founded_at known).retired allocates reuses with ⟨other, mem, facts⟩
  rcases exists_before mem with ⟨earlier, bound, found⟩
  exact ⟨earlier, bound, other, found, facts⟩

end Places

end ShadowSpill.Planner.AllocationTraces
