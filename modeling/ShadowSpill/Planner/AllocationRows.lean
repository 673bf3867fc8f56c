import ShadowSpill.Planner.AllocationSlots

/-!
# The gathered steps

The columns, gathered in compiled order, are the selected tasks' own steps, task by task.  A
valid task's steps name only earlier steps of the task, each in one way.
-/

namespace ShadowSpill.Planner.AllocationRows

open Library.Checks AdmissionSpecs AllocationSlots

/-- A step as the columns have it. -/
def rowOf (task : Nat) (step : TaskAllocationStep) : Row where
  task := task
  ordinal := step.allocationOrdinal
  allocates := decide (step.kind = .allocate)
  reuse := match step.reusesAllocationOrdinal with
    | none => -1
    | some source => source

/-- The allocation steps of a task of the list. -/
def stepsOf (tasks : List TaskAdmissionSpec) (task : Nat) : List TaskAllocationStep :=
  ((tasks[task]?).map (·.allocationSteps)).getD []

/-- The selected tasks' steps from a place in the compiled order on. -/
def rowsFrom (tasks : List TaskAdmissionSpec) : Nat → List Nat → List Row
  | _, [] => []
  | place, task :: rest =>
    (stepsOf tasks task).map (rowOf place) ++ rowsFrom tasks (place + 1) rest

def compiledRows (tasks : List TaskAdmissionSpec) (order : List Nat) : List Row :=
  rowsFrom tasks 0 order

/-! ## Arrays -/

theorem length_sumsFrom (base : Nat) (counts : List Nat) :
    (sumsFrom base counts).length = counts.length + 1 := by
  induction counts generalizing base with
  | nil => rfl
  | cons count rest ih => exact congrArg Nat.succ (ih (base + count))

theorem sumsFrom_getD (counts : List Nat) (base index : Nat) (bound : index ≤ counts.length) :
    (sumsFrom base counts).getD index 0 = base + (counts.take index).sum := by
  induction counts generalizing base index with
  | nil =>
      cases Nat.le_zero.mp bound
      rfl
  | cons count rest ih =>
      cases index with
      | zero => rfl
      | succ index =>
          have later := ih (base + count) index (Nat.le_of_succ_le_succ bound)
          show (sumsFrom (base + count) rest).getD index 0 = _
          rw [later, List.take_succ_cons, List.sum_cons, Nat.add_assoc]

theorem differences_sumsFrom (counts : List Nat) (base : Nat) :
    differences (sumsFrom base counts) = counts := by
  induction counts generalizing base with
  | nil => rfl
  | cons count rest ih =>
      have later := ih (base + count)
      cases rest with
      | nil =>
          show [base + count - base] = [count]
          rw [Nat.add_sub_cancel_left]
      | cons next rest =>
          show (base + count - base) :: differences (sumsFrom (base + count) (next :: rest)) = _
          rw [later, Nat.add_sub_cancel_left]

theorem sumsFrom_getLastD (counts : List Nat) (base : Nat) :
    (sumsFrom base counts).getLastD 0 = base + counts.sum := by
  induction counts generalizing base with
  | nil => rfl
  | cons count rest ih =>
      have later := ih (base + count)
      rw [List.sum_cons, ← Nat.add_assoc, ← later]
      cases rest with
      | nil => rfl
      | cons next rest => rfl

theorem zipWith_replicate_map {α β γ : Type} (f : α → β → γ) (value : α) (list : List β) :
    List.zipWith f (List.replicate list.length value) list = list.map (f value) := by
  induction list with
  | nil => rfl
  | cons head rest ih => exact congrArg (f value head :: ·) ih

/-- The gathered positions of a task's steps are those from its start on. -/
theorem gather_from (starts lengths : List Nat) (same : starts.length = lengths.length)
    (base : Nat) :
    List.zipWith (fun (shift : Int) (index : Nat) => (shift + index).toNat)
        (repeatEach (List.zipWith (fun (start before : Nat) => (start : Int) - before) starts
          (sumsFrom base lengths)) lengths) (List.range' base lengths.sum) =
      (starts.zip lengths).flatMap fun pair => List.range' pair.1 pair.2 := by
  induction lengths generalizing starts base with
  | nil =>
      cases starts with
      | nil => rfl
      | cons _ _ => cases same
  | cons length lengths ih =>
      cases starts with
      | nil => cases same
      | cons start starts =>
          have later := ih starts (Nat.succ.inj same) (base + length)
          unfold repeatEach at later ⊢
          unfold sumsFrom
          rw [List.zipWith_cons_cons, List.zip_cons_cons, List.zip_cons_cons,
            List.flatMap_cons, List.flatMap_cons, List.sum_cons]
          have split : List.range' base (length + lengths.sum) =
              List.range' base length ++ List.range' (base + length) lengths.sum := by
            rw [List.range'_append_1]
          have block : List.zipWith (fun (shift : Int) (index : Nat) => (shift + index).toNat)
              (List.replicate length ((start : Int) - base)) (List.range' base length) =
              List.range' start length := by
            have shifted := zipWith_replicate_map
              (fun (shift : Int) (index : Nat) => (shift + index).toNat)
              ((start : Int) - base) (List.range' base length)
            rw [List.length_range'] at shifted
            rw [shifted, List.range'_eq_map_range, List.range'_eq_map_range, List.map_map]
            apply List.map_congr_left
            intro index _
            show ((start : Int) - base + ((base + index : Nat) : Int)).toNat = start + index
            omega
          rw [split, List.zipWith_append (by simp), later, block]

/-! ## Columns -/

section Columns

variable {α β : Type}

theorem mapM_some {f : α → Option β} {g : α → β} {list : List α}
    (known : ∀ value ∈ list, f value = some (g value)) :
    list.mapM f = some (list.map g) := by
  induction list with
  | nil => rfl
  | cons head rest ih =>
      rw [List.mapM_cons, known head (List.mem_cons_self ..),
        ih fun value mem => known value (List.mem_cons_of_mem _ mem)]
      rfl

theorem mapM_none {f : α → Option β} {value : α} {list : List α} (mem : value ∈ list)
    (none : f value = none) : list.mapM f = .none := by
  induction list with
  | nil => cases mem
  | cons head rest ih =>
      rw [List.mapM_cons]
      rcases List.mem_cons.mp mem with here | there
      · rw [← here, none]
        rfl
      · rw [ih there]
        cases f head <;> rfl

/-- Reading a slice of a list place by place. -/
theorem slice_map {f : Nat → β} {g : α → β} {list block : List α} {start : Nat}
    (known : ∀ place value, list[place]? = some value → f place = g value)
    (slice : (list.drop start).take block.length = block) :
    (List.range' start block.length).map f = block.map g := by
  apply List.ext_getElem?
  intro index
  rw [List.getElem?_map, List.getElem?_map]
  rcases Nat.lt_or_ge index block.length with inside | outside
  · have read : list[start + index]? = block[index]? := by
      rw [← slice, List.getElem?_take_of_lt inside, List.getElem?_drop]
    rw [List.getElem?_range' inside, List.getElem?_eq_getElem inside]
    rw [List.getElem?_eq_getElem inside] at read
    rw [Option.map_some, Option.map_some, Nat.one_mul, known _ _ read]
  · rw [List.getElem?_eq_none outside, List.getElem?_eq_none (by simpa using outside)]
    rfl

end Columns

variable {tasks : List TaskAdmissionSpec} {order : List Nat}

def lengthsOf (tasks : List TaskAdmissionSpec) : List Nat :=
  tasks.map (·.allocationSteps.length)

/-- All steps, in the facts' own order. -/
def allSteps (tasks : List TaskAdmissionSpec) : List TaskAllocationStep :=
  tasks.flatMap (·.allocationSteps)

theorem stepsOf_length {task : Nat} (known : task < tasks.length) :
    (stepsOf tasks task).length =
      (sums (lengthsOf tasks)).getD (task + 1) 0 - (sums (lengthsOf tasks)).getD task 0 := by
  have bound : task < (lengthsOf tasks).length := by
    rw [lengthsOf, List.length_map]
    exact known
  have here : (lengthsOf tasks)[task] = (stepsOf tasks task).length := by
    simp [lengthsOf, stepsOf, known]
  unfold sums
  rw [sumsFrom_getD _ _ _ bound, sumsFrom_getD _ _ _ bound.le,
    List.sum_take_succ _ _ bound, here]
  omega

/-- A task's own steps stand in the column at its offset. -/
theorem stepsOf_slice {task : Nat} (known : task < tasks.length) :
    ((allSteps tasks).drop ((sums (lengthsOf tasks)).getD task 0)).take
      (stepsOf tasks task).length = stepsOf tasks task := by
  have bound : task < (lengthsOf tasks).length := by
    rw [lengthsOf, List.length_map]
    exact known
  unfold sums
  rw [sumsFrom_getD _ _ _ bound.le, Nat.zero_add]
  clear bound
  induction tasks generalizing task with
  | nil => exact absurd known (Nat.not_lt_zero _)
  | cons head rest ih =>
      unfold allSteps lengthsOf
      rw [List.flatMap_cons, List.map_cons]
      cases task with
      | zero =>
          show List.take head.allocationSteps.length (head.allocationSteps ++ _) = _
          rw [List.take_left]
          rfl
      | succ task =>
          rw [List.take_succ_cons, List.sum_cons, List.drop_append,
            List.drop_eq_nil_of_le (Nat.le_add_right _ _), List.nil_append,
            Nat.add_sub_cancel_left]
          exact ih (Nat.lt_of_succ_lt_succ known)

/-- The columns of tasks whose integers fit. -/
def columnsOf (tasks : List TaskAdmissionSpec) : TaskColumns where
  workspaceExtents := (tasks.flatMap (·.workspaceExtents)).map Nat.cast
  stepOffsets := sums (lengthsOf tasks)
  stepOrdinals := (allSteps tasks).map fun step => (rowOf 0 step).ordinal
  stepAllocates := (allSteps tasks).map fun step => (rowOf 0 step).allocates
  stepBytes := (allSteps tasks).map fun step => step.chargedBytes
  stepReuses := (allSteps tasks).map fun step => (rowOf 0 step).reuse

/-- Every integer is an array element. -/
structure Fits (tasks : List TaskAdmissionSpec) : Prop where
  ordinals : ∀ step ∈ allSteps tasks, step.allocationOrdinal < 2 ^ 63
  bytes : ∀ step ∈ allSteps tasks, step.chargedBytes < 2 ^ 63
  extents : ∀ extent ∈ tasks.flatMap (·.workspaceExtents), extent < 2 ^ 63

theorem taskColumns_some (fits : Fits tasks)
    (reuses : ∀ step ∈ allSteps tasks, ∀ source,
      step.reusesAllocationOrdinal = some source → source < 2 ^ 63) :
    taskColumns tasks = some (columnsOf tasks) := by
  have ordinals : (allSteps tasks).mapM (fun step => integer step.allocationOrdinal) =
      some ((allSteps tasks).map fun step => (rowOf 0 step).ordinal) :=
    mapM_some fun step mem => if_pos (fits.ordinals step mem)
  have bytes : (allSteps tasks).mapM (fun step => integer step.chargedBytes) =
      some ((allSteps tasks).map fun step => (step.chargedBytes : Int)) :=
    mapM_some fun step mem => if_pos (fits.bytes step mem)
  have extents : (tasks.flatMap (·.workspaceExtents)).mapM integer =
      some ((tasks.flatMap (·.workspaceExtents)).map Nat.cast) :=
    mapM_some fun extent mem => if_pos (fits.extents extent mem)
  have taken : (allSteps tasks).mapM (fun step => optionalInteger step.reusesAllocationOrdinal) =
      some ((allSteps tasks).map fun step => (rowOf 0 step).reuse) := by
    apply mapM_some
    intro step mem
    cases known : step.reusesAllocationOrdinal with
    | none =>
        unfold optionalInteger rowOf
        rw [known]
    | some source =>
        unfold optionalInteger rowOf
        rw [known]
        exact if_pos (reuses step mem source known)
  unfold taskColumns
  unfold allSteps at ordinals bytes taken
  dsimp only
  rw [ordinals, bytes, extents, taken]
  rfl

theorem lt_of_mapM {α : Type} {value : α → Nat} {list : List α} {column : List Int}
    (result : list.mapM (fun entry => integer (value entry)) = some column) {entry : α}
    (mem : entry ∈ list) : value entry < 2 ^ 63 := by
  by_contra large
  rw [mapM_none mem (if_neg large)] at result
  cases result

theorem fits_of_taskColumns {columns : TaskColumns}
    (result : taskColumns tasks = some columns) : Fits tasks := by
  unfold taskColumns at result
  rcases Option.bind_eq_some_iff.mp result with ⟨_, _, result⟩
  rcases Option.bind_eq_some_iff.mp result with ⟨_, extents, result⟩
  rcases Option.bind_eq_some_iff.mp result with ⟨_, ordinals, result⟩
  rcases Option.bind_eq_some_iff.mp result with ⟨_, bytes, _⟩
  exact {
    ordinals := fun _ mem => lt_of_mapM ordinals mem
    bytes := fun _ mem => lt_of_mapM bytes mem
    extents := fun _ mem => lt_of_mapM extents mem }

theorem rowsFrom_eq (known : ∀ task ∈ order, task < tasks.length) (place : Nat) :
    List.zipWith (fun task step =>
        { task := task
          ordinal := (columnsOf tasks).stepOrdinals.getD step 0
          allocates := (columnsOf tasks).stepAllocates.getD step false
          reuse := (columnsOf tasks).stepReuses.getD step 0 : Row })
      (repeatEach (List.range' place order.length)
        (order.map fun task => (stepsOf tasks task).length))
      (((order.map fun task => (sums (lengthsOf tasks)).getD task 0).zip
        (order.map fun task => (stepsOf tasks task).length)).flatMap fun pair =>
          List.range' pair.1 pair.2) = rowsFrom tasks place order := by
  induction order generalizing place with
  | nil => rfl
  | cons task rest ih =>
      have later := ih (fun other mem => known other (List.mem_cons_of_mem _ mem)) (place + 1)
      have here := known task (List.mem_cons_self ..)
      unfold repeatEach at later ⊢
      rw [List.length_cons, List.range'_succ, List.map_cons, List.map_cons, List.zip_cons_cons,
        List.zip_cons_cons, List.flatMap_cons, List.flatMap_cons,
        List.zipWith_append (by simp), later]
      show _ ++ _ = (stepsOf tasks task).map (rowOf place) ++ rowsFrom tasks (place + 1) rest
      congr 1
      have spread := zipWith_replicate_map (fun task step =>
        { task := task
          ordinal := (columnsOf tasks).stepOrdinals.getD step 0
          allocates := (columnsOf tasks).stepAllocates.getD step false
          reuse := (columnsOf tasks).stepReuses.getD step 0 : Row }) place
        (List.range' ((sums (lengthsOf tasks)).getD task 0) (stepsOf tasks task).length)
      rw [List.length_range'] at spread
      rw [spread]
      apply slice_map _ (stepsOf_slice here)
      intro index step found
      unfold columnsOf
      simp only [List.getD_eq_getElem?_getD, List.getElem?_map, found, Option.map_some,
        Option.getD_some]
      rfl

theorem gather_eq (offsets order : List Nat) :
    gather offsets order =
      (sums (order.map fun task => offsets.getD (task + 1) 0 - offsets.getD task 0),
        ((order.map fun task => offsets.getD task 0).zip
          (order.map fun task => offsets.getD (task + 1) 0 - offsets.getD task 0)).flatMap
            fun pair => List.range' pair.1 pair.2) := by
  have positions := gather_from (order.map fun task => offsets.getD task 0)
    (order.map fun task => offsets.getD (task + 1) 0 - offsets.getD task 0) (by simp) 0
  unfold gather sums
  dsimp only
  rw [sumsFrom_getLastD, Nat.zero_add, List.range_eq_range', positions]

/-- The gathered columns are the compiled rows. -/
theorem rowsOf_gather (known : ∀ task ∈ order, task < tasks.length) :
    rowsOf (columnsOf tasks) (gather (columnsOf tasks).stepOffsets order).1
      (gather (columnsOf tasks).stepOffsets order).2 = compiledRows tasks order := by
  have lengths : (order.map fun task => (sums (lengthsOf tasks)).getD (task + 1) 0 -
      (sums (lengthsOf tasks)).getD task 0) =
      order.map fun task => (stepsOf tasks task).length := by
    apply List.map_congr_left
    intro task mem
    exact (stepsOf_length (known task mem)).symm
  have offsets : (columnsOf tasks).stepOffsets = sums (lengthsOf tasks) := rfl
  rw [gather_eq, offsets, lengths]
  unfold rowsOf
  dsimp only
  rw [show sums (order.map fun task => (stepsOf tasks task).length) =
      sumsFrom 0 (order.map fun task => (stepsOf tasks task).length) from rfl,
    differences_sumsFrom, length_sumsFrom, List.length_map, Nat.add_sub_cancel,
    List.range_eq_range']
  exact rowsFrom_eq known 0

end ShadowSpill.Planner.AllocationRows
