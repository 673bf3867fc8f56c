import ShadowSpill.Planner.Residency.AliasLists

/-!
# The touches of one alias

What the walk records of one alias is a list of touches, whatever it records of others in
between.  The alias's lists are these touches, merged at their end.  Merging gives one
entry a boundary exactly when the touches come in the order of their boundaries, and the
one thing that puts them out of order is a task that mutates two objects of the alias.
-/

namespace ShadowSpill.Planner.Residency.AliasTouches

open Library.PackedRows Problem AliasLists

/-! ## Touches -/

/-- The touches of an alias by one task: before it as an input, before and after it as a
mutation, after it as an output. -/
def taskTouches (aliasId : Nat) (entry : TaskRow × Nat) : List Anchor :=
  List.replicate (entry.1.inputs.count aliasId) (touch entry.2 (some entry.2) true false) ++
    (List.replicate (entry.1.mutations.count aliasId)
      [touch entry.2 (some entry.2) false false,
        touch (entry.2 + 1) none false false]).flatten ++
    List.replicate (entry.1.outputs.count aliasId)
      (touch (entry.2 + 1) (some entry.2) false true)

/-- The boundaries one task writes an alias at. -/
def taskWrites (aliasId : Nat) (entry : TaskRow × Nat) : List Nat :=
  List.replicate (entry.1.mutations.count aliasId + entry.1.outputs.count aliasId)
    (entry.2 + 1)

/-- The boundaries an alias is reserved at for one task's fresh outputs. -/
def taskReservations (aliasId : Nat) (entry : TaskRow × Nat) : List Nat :=
  if aliasId ∉ entry.1.inputs ∧ aliasId ∉ entry.1.mutations then
    List.replicate (entry.1.outputs.count aliasId) entry.2
  else []

def heldTouches (location : Nat → Option MemoryLocation) (boundary aliasId : Nat) :
    List Anchor :=
  if location aliasId = some .device then [touch boundary none false false] else []

/-- The touches of an alias by every task, and by what is held at the start and the end. -/
def touchesOf (tasks : List TaskRow) (initialLocation finalLocation : Nat → Option MemoryLocation)
    (aliasId : Nat) : List Anchor :=
  heldTouches initialLocation 0 aliasId ++ tasks.zipIdx.flatMap (taskTouches aliasId) ++
    heldTouches finalLocation tasks.length aliasId

def writesOf (tasks : List TaskRow) (aliasId : Nat) : List Nat :=
  tasks.zipIdx.flatMap (taskWrites aliasId)

def reservationsOf (tasks : List TaskRow) (aliasId : Nat) : List Nat :=
  tasks.zipIdx.flatMap (taskReservations aliasId)

/-! ## What the walk records -/

section Recorded

variable (program : SimulationProgram)

/-- What a loop over a row records, for the aliases of some size. -/
def rowWrites {α : Type} (row : List Nat) (marks : List α) : List (Nat × α) :=
  row.flatMap fun aliasId =>
    if program.aliasSizeBytes aliasId = 0 then [] else marks.map (Prod.mk aliasId)

theorem writesTo_rowWrites {α : Type} (row : List Nat) (marks : List α) {aliasId : Nat}
    (sized : program.aliasSizeBytes aliasId ≠ 0) :
    Rooms.writesTo aliasId (rowWrites program row marks) =
      (List.replicate (row.count aliasId) marks).flatten := by
  unfold rowWrites
  induction row with
  | nil => rfl
  | cons head rest inductionHypothesis =>
    rw [List.flatMap_cons, Rooms.writesTo_append, inductionHypothesis]
    by_cases same : head = aliasId
    · subst same
      simp [sized, Rooms.writesTo, List.replicate_succ, List.filter_map, Function.comp_def]
    · rw [List.count_cons_of_ne same]
      split <;> simp [Rooms.writesTo, List.filter_map, Function.comp_def, same]

theorem writesTo_rowWrites_zero {α : Type} (row : List Nat) (marks : List α) {aliasId : Nat}
    (unsized : program.aliasSizeBytes aliasId = 0) :
    Rooms.writesTo aliasId (rowWrites program row marks) = [] := by
  unfold rowWrites
  rw [Rooms.writesTo_flatMap, List.flatMap_eq_nil_iff]
  intro head _
  by_cases same : head = aliasId
  · simp [same, unsized, Rooms.writesTo]
  · split <;> simp [Rooms.writesTo, List.filter_map, Function.comp_def, same]

theorem rowWrites_filter {α : Type} (row : List Nat) (chosen : Nat → Prop)
    [DecidablePred chosen] (marks : List α) :
    rowWrites program (row.filter fun aliasId => chosen aliasId) marks =
      row.flatMap fun aliasId =>
        if program.aliasSizeBytes aliasId = 0 then []
        else if chosen aliasId then marks.map (Prod.mk aliasId) else [] := by
  unfold rowWrites
  induction row with
  | nil => rfl
  | cons aliasId rest inductionHypothesis =>
    rw [List.filter_cons, List.flatMap_cons, ← inductionHypothesis]
    by_cases isChosen : chosen aliasId <;> simp [isChosen]

/-- The anchors one task records. -/
def taskAnchorWrites (entry : TaskRow × Nat) : List (Nat × Anchor) :=
  rowWrites program entry.1.inputs [touch entry.2 (some entry.2) true false] ++
    rowWrites program entry.1.mutations
      [touch entry.2 (some entry.2) false false, touch (entry.2 + 1) none false false] ++
    rowWrites program entry.1.outputs [touch (entry.2 + 1) (some entry.2) false true]

def taskBoundaryWrites (entry : TaskRow × Nat) : List (Nat × Nat) :=
  rowWrites program entry.1.mutations [entry.2 + 1] ++
    rowWrites program entry.1.outputs [entry.2 + 1]

def taskReservedWrites (entry : TaskRow × Nat) : List (Nat × Nat) :=
  rowWrites program
    (entry.1.outputs.filter fun aliasId =>
      aliasId ∉ entry.1.inputs ∧ aliasId ∉ entry.1.mutations)
    [entry.2]

def heldWrites (location : Nat → Option MemoryLocation) (boundary : Nat) :
    List (Nat × Anchor) :=
  rowWrites program
    ((List.range program.aliasCount).filter fun aliasId => location aliasId = some .device)
    [touch boundary none false false]

theorem foldl_recordInput_anchors (task : Nat) (row : List Nat) (build : ListBuild) :
    (row.foldl (recordInput program task) build).anchors =
      build.anchors.recordAll mergeAnchor
        (rowWrites program row [touch task (some task) true false]) := by
  apply Rooms.recordAll_of_foldl ListBuild.anchors
  intro build aliasId
  unfold recordInput
  split <;> rfl

theorem foldl_recordMutation_anchors (task : Nat) (row : List Nat) (build : ListBuild) :
    (row.foldl (recordMutation program task) build).anchors =
      build.anchors.recordAll mergeAnchor (rowWrites program row
        [touch task (some task) false false, touch (task + 1) none false false]) := by
  apply Rooms.recordAll_of_foldl ListBuild.anchors
  intro build aliasId
  unfold recordMutation
  split <;> rfl

theorem foldl_recordOutput_anchors (row : TaskRow) (task : Nat) (outputs : List Nat)
    (build : ListBuild) :
    (outputs.foldl (recordOutput program row task) build).anchors =
      build.anchors.recordAll mergeAnchor
        (rowWrites program outputs [touch (task + 1) (some task) false true]) := by
  apply Rooms.recordAll_of_foldl ListBuild.anchors
  intro build aliasId
  unfold recordOutput
  split
  · rfl
  · dsimp only
    split <;> rfl

theorem foldl_recordInput_writes (task : Nat) (row : List Nat) (build : ListBuild) :
    (row.foldl (recordInput program task) build).writes = build.writes ∧
      (row.foldl (recordInput program task) build).reserved = build.reserved := by
  induction row generalizing build with
  | nil => exact ⟨rfl, rfl⟩
  | cons aliasId rest inductionHypothesis =>
    rw [List.foldl_cons]
    rcases inductionHypothesis (recordInput program task build aliasId) with ⟨writes, reserved⟩
    rw [writes, reserved]
    unfold recordInput
    split <;> exact ⟨rfl, rfl⟩

theorem foldl_recordMutation_writes (task : Nat) (row : List Nat) (build : ListBuild) :
    (row.foldl (recordMutation program task) build).writes =
      build.writes.recordAll mergeBoundary (rowWrites program row [task + 1]) := by
  apply Rooms.recordAll_of_foldl ListBuild.writes
  intro build aliasId
  unfold recordMutation
  split <;> rfl

theorem foldl_recordOutput_writes (row : TaskRow) (task : Nat) (outputs : List Nat)
    (build : ListBuild) :
    (outputs.foldl (recordOutput program row task) build).writes =
      build.writes.recordAll mergeBoundary (rowWrites program outputs [task + 1]) := by
  apply Rooms.recordAll_of_foldl ListBuild.writes
  intro build aliasId
  unfold recordOutput
  split
  · rfl
  · dsimp only
    split <;> rfl

theorem foldl_recordMutation_reserved (task : Nat) (row : List Nat) (build : ListBuild) :
    (row.foldl (recordMutation program task) build).reserved = build.reserved := by
  induction row generalizing build with
  | nil => rfl
  | cons aliasId rest inductionHypothesis =>
    rw [List.foldl_cons, inductionHypothesis]
    unfold recordMutation
    split <;> rfl

theorem foldl_recordOutput_reserved (row : TaskRow) (task : Nat) (outputs : List Nat)
    (build : ListBuild) :
    (outputs.foldl (recordOutput program row task) build).reserved =
      build.reserved.recordAll mergeBoundary
        (rowWrites program
          (outputs.filter fun aliasId => aliasId ∉ row.inputs ∧ aliasId ∉ row.mutations)
          [task]) := by
  rw [rowWrites_filter]
  apply Rooms.recordAll_of_foldl ListBuild.reserved
  intro build aliasId
  unfold recordOutput
  split
  · rfl
  · dsimp only
    split <;> rfl

theorem recordTask_anchors (build : ListBuild) (entry : TaskRow × Nat) :
    (recordTask program build entry).anchors =
      build.anchors.recordAll mergeAnchor (taskAnchorWrites program entry) := by
  unfold recordTask taskAnchorWrites
  rw [Rooms.recordAll_append, Rooms.recordAll_append, ← foldl_recordInput_anchors,
    ← foldl_recordMutation_anchors, ← foldl_recordOutput_anchors]

theorem recordTask_writes (build : ListBuild) (entry : TaskRow × Nat) :
    (recordTask program build entry).writes =
      build.writes.recordAll mergeBoundary (taskBoundaryWrites program entry) := by
  unfold recordTask taskBoundaryWrites
  rw [Rooms.recordAll_append, foldl_recordOutput_writes, foldl_recordMutation_writes,
    (foldl_recordInput_writes program _ _ _).1]

theorem recordTask_reserved (build : ListBuild) (entry : TaskRow × Nat) :
    (recordTask program build entry).reserved =
      build.reserved.recordAll mergeBoundary (taskReservedWrites program entry) := by
  unfold recordTask taskReservedWrites
  rw [foldl_recordOutput_reserved, foldl_recordMutation_reserved,
    (foldl_recordInput_writes program _ _ _).2]

theorem recordHeld_anchors (location : Nat → Option MemoryLocation) (boundary : Nat)
    (build : ListBuild) :
    ((List.range program.aliasCount).foldl (recordHeld program location boundary)
      build).anchors =
      build.anchors.recordAll mergeAnchor (heldWrites program location boundary) := by
  unfold heldWrites
  rw [rowWrites_filter]
  apply Rooms.recordAll_of_foldl ListBuild.anchors
  intro build aliasId
  unfold recordHeld
  by_cases unsized : program.aliasSizeBytes aliasId = 0
  · simp [unsized]
    rfl
  · by_cases held : location aliasId = some .device
    · simp [unsized, held]
      rfl
    · simp [held]
      rfl

theorem recordHeld_others (location : Nat → Option MemoryLocation) (boundary : Nat)
    (aliases : List Nat) (build : ListBuild) :
    (aliases.foldl (recordHeld program location boundary) build).writes = build.writes ∧
      (aliases.foldl (recordHeld program location boundary) build).reserved =
        build.reserved := by
  induction aliases generalizing build with
  | nil => exact ⟨rfl, rfl⟩
  | cons aliasId rest inductionHypothesis =>
    rw [List.foldl_cons]
    rcases inductionHypothesis (recordHeld program location boundary build aliasId) with
      ⟨writes, reserved⟩
    rw [writes, reserved]
    unfold recordHeld
    split <;> exact ⟨rfl, rfl⟩

/-- The walk records these anchors, one after the other. -/
theorem recordProgram_anchors (initialLocation finalLocation : Nat → Option MemoryLocation)
    (build : ListBuild) :
    (recordProgram program initialLocation finalLocation build).anchors =
      build.anchors.recordAll mergeAnchor
        (heldWrites program initialLocation 0 ++
          program.tasks.zipIdx.flatMap (taskAnchorWrites program) ++
          heldWrites program finalLocation program.tasks.length) := by
  unfold recordProgram
  rw [recordHeld_anchors, Rooms.recordAll_of_foldl ListBuild.anchors (recordTask_anchors program),
    recordHeld_anchors, Rooms.recordAll_append, Rooms.recordAll_append]

theorem recordProgram_writes (initialLocation finalLocation : Nat → Option MemoryLocation)
    (build : ListBuild) :
    (recordProgram program initialLocation finalLocation build).writes =
      build.writes.recordAll mergeBoundary
        (program.tasks.zipIdx.flatMap (taskBoundaryWrites program)) := by
  unfold recordProgram
  rw [(recordHeld_others program _ _ _ _).1,
    Rooms.recordAll_of_foldl ListBuild.writes (recordTask_writes program),
    (recordHeld_others program _ _ _ _).1]

theorem recordProgram_reserved (initialLocation finalLocation : Nat → Option MemoryLocation)
    (build : ListBuild) :
    (recordProgram program initialLocation finalLocation build).reserved =
      build.reserved.recordAll mergeBoundary
        (program.tasks.zipIdx.flatMap (taskReservedWrites program)) := by
  unfold recordProgram
  rw [(recordHeld_others program _ _ _ _).2,
    Rooms.recordAll_of_foldl ListBuild.reserved (recordTask_reserved program),
    (recordHeld_others program _ _ _ _).2]

end Recorded

/-! ## The lists of one alias -/

section Lists

variable {program : SimulationProgram} {aliasId : Nat}
  {initialLocation finalLocation : Nat → Option MemoryLocation}

theorem count_filter_of {row : List Nat} {chosen : Nat → Prop} [DecidablePred chosen] :
    (row.filter fun aliasId => chosen aliasId).count aliasId =
      if chosen aliasId then row.count aliasId else 0 := by
  by_cases isChosen : chosen aliasId
  · rw [if_pos isChosen, List.count_filter (by simpa using isChosen)]
  · rw [if_neg isChosen, List.count_eq_zero]
    simp [isChosen]

theorem writesTo_taskAnchorWrites (sized : program.aliasSizeBytes aliasId ≠ 0)
    (entry : TaskRow × Nat) :
    Rooms.writesTo aliasId (taskAnchorWrites program entry) = taskTouches aliasId entry := by
  unfold taskAnchorWrites taskTouches
  simp [writesTo_rowWrites program _ _ sized]

theorem writesTo_taskBoundaryWrites (sized : program.aliasSizeBytes aliasId ≠ 0)
    (entry : TaskRow × Nat) :
    Rooms.writesTo aliasId (taskBoundaryWrites program entry) = taskWrites aliasId entry := by
  unfold taskBoundaryWrites taskWrites
  simp [writesTo_rowWrites program _ _ sized]

theorem writesTo_taskReservedWrites (sized : program.aliasSizeBytes aliasId ≠ 0)
    (entry : TaskRow × Nat) :
    Rooms.writesTo aliasId (taskReservedWrites program entry) =
      taskReservations aliasId entry := by
  unfold taskReservedWrites taskReservations
  rw [writesTo_rowWrites program _ _ sized, count_filter_of]
  split <;> simp

theorem writesTo_heldWrites (sized : program.aliasSizeBytes aliasId ≠ 0)
    (bound : aliasId < program.aliasCount) (location : Nat → Option MemoryLocation)
    (boundary : Nat) :
    Rooms.writesTo aliasId (heldWrites program location boundary) =
      heldTouches location boundary aliasId := by
  have once : (List.range program.aliasCount).count aliasId = 1 :=
    List.count_eq_one_of_mem List.nodup_range (List.mem_range.mpr bound)
  unfold heldWrites heldTouches
  rw [writesTo_rowWrites program _ _ sized, count_filter_of, once]
  split <;> simp

/-- What the walk records of an alias of some size. -/
theorem writesTo_anchors (sized : program.aliasSizeBytes aliasId ≠ 0)
    (bound : aliasId < program.aliasCount) :
    Rooms.writesTo aliasId
      (heldWrites program initialLocation 0 ++
        program.tasks.zipIdx.flatMap (taskAnchorWrites program) ++
        heldWrites program finalLocation program.tasks.length) =
      touchesOf program.tasks initialLocation finalLocation aliasId := by
  simp [touchesOf, writesTo_heldWrites sized bound, writesTo_taskAnchorWrites sized]

theorem writesTo_anchors_unsized (unsized : program.aliasSizeBytes aliasId = 0) :
    Rooms.writesTo aliasId
      (heldWrites program initialLocation 0 ++
        program.tasks.zipIdx.flatMap (taskAnchorWrites program) ++
        heldWrites program finalLocation program.tasks.length) = [] := by
  simp [heldWrites, taskAnchorWrites, writesTo_rowWrites_zero program _ _ unsized]

theorem writesTo_boundaries_unsized (unsized : program.aliasSizeBytes aliasId = 0) :
    Rooms.writesTo aliasId (program.tasks.zipIdx.flatMap (taskBoundaryWrites program)) = [] ∧
    Rooms.writesTo aliasId (program.tasks.zipIdx.flatMap (taskReservedWrites program)) = [] := by
  simp [taskBoundaryWrites, taskReservedWrites, writesTo_rowWrites_zero program _ _ unsized]

/-! ### Rooms -/

/-- A row count sums what each task says. -/
theorem length_flatMap_zipIdx {α : Type} (tasks : List TaskRow) (start : Nat)
    (listed : TaskRow × Nat → List α) (length : TaskRow → Nat)
    (lengths : ∀ entry, (listed entry).length = length entry.1) :
    ((tasks.zipIdx start).flatMap listed).length = (tasks.map length).sum := by
  induction tasks generalizing start with
  | nil => rfl
  | cons task rest inductionHypothesis =>
    rw [List.zipIdx_cons, List.flatMap_cons, List.length_append, inductionHypothesis, lengths]
    rfl

theorem length_heldTouches (location : Nat → Option MemoryLocation) (boundary : Nat) :
    (heldTouches location boundary aliasId).length = heldCount location aliasId := by
  unfold heldTouches heldCount
  split <;> rfl

/-- The room of an alias holds each of its touches. -/
theorem length_touchesOf (sized : program.aliasSizeBytes aliasId ≠ 0) :
    (touchesOf program.tasks initialLocation finalLocation aliasId).length =
      anchorRoom program initialLocation finalLocation aliasId := by
  have perTask := length_flatMap_zipIdx program.tasks 0 (taskTouches aliasId)
    (fun row => row.inputs.count aliasId + 2 * row.mutations.count aliasId +
      row.outputs.count aliasId) (fun entry => by simp [taskTouches]; omega)
  unfold touchesOf anchorRoom rowCount
  rw [List.length_append, List.length_append, length_heldTouches, length_heldTouches, perTask,
    if_neg sized, ← List.sum_map_mul_left]
  simp only [List.sum_map_add]
  omega

theorem length_writesOf (sized : program.aliasSizeBytes aliasId ≠ 0) :
    (writesOf program.tasks aliasId).length = writeRoom program aliasId := by
  have perTask := length_flatMap_zipIdx program.tasks 0 (taskWrites aliasId)
    (fun row => row.mutations.count aliasId + row.outputs.count aliasId)
    (fun entry => by simp [taskWrites])
  unfold writesOf writeRoom rowCount
  rw [perTask, if_neg sized, List.sum_map_add]

theorem length_reservationsOf_le (sized : program.aliasSizeBytes aliasId ≠ 0) :
    (reservationsOf program.tasks aliasId).length ≤ reservedRoom program aliasId := by
  unfold reservationsOf reservedRoom rowCount
  rw [if_neg sized]
  generalize 0 = start
  induction program.tasks generalizing start with
  | nil => exact le_rfl
  | cons task rest inductionHypothesis =>
    have others := inductionHypothesis (start + 1)
    have here : (taskReservations aliasId (task, start)).length ≤ task.outputs.count aliasId := by
      unfold taskReservations
      split <;> simp
    rw [List.zipIdx_cons, List.flatMap_cons, List.length_append, List.map_cons, List.sum_cons]
    omega

/-! ### Rows -/

/-- Rooms reserved by their sizes keep each alias's writes apart, packed or not. -/
theorem packed_row {α : Type} {merge : α → α → Option α} {room offsets : Nat → Nat}
    {aliasCount : Nat} (reserved : reserveList room aliasCount = some offsets)
    (cells : Nat → α) {writes : List (Nat × α)}
    (inside : ∀ write ∈ writes, write.1 < aliasCount)
    (fits : ∀ aliasId < aliasCount, (Rooms.writesTo aliasId writes).length ≤ room aliasId)
    (bound : aliasId < aliasCount) :
    (((Rooms.opened offsets cells).recordAll merge writes).pack aliasCount).row aliasId =
      mergedList merge (Rooms.writesTo aliasId writes) := by
  have starts := (reserveList_some reserved).2
  have gap : ∀ aliasId < aliasCount, offsets (aliasId + 1) = offsets aliasId + room aliasId := by
    intro aliasId aliasBound
    rw [starts (aliasId + 1) aliasBound, starts aliasId aliasBound.le, roomsBefore_succ]
  have opened : (Rooms.opened offsets cells).Within aliasCount := by
    apply Rooms.opened_within
    intro aliasId aliasBound
    rw [gap aliasId aliasBound]
    exact Nat.le_add_right _ _
  have spec := Rooms.recordAll_spec merge opened inside (by
    intro aliasId aliasBound
    have enough := fits aliasId aliasBound
    have wide := gap aliasId aliasBound
    simp only [Rooms.row_opened, List.length_nil, Nat.zero_add]
    show _ ≤ offsets (aliasId + 1) - offsets aliasId
    omega)
  rw [Rooms.pack_row spec.1 bound, spec.2 aliasId bound, Rooms.row_opened]
  rfl

/-- Every row names aliases of the program. -/
def RowsInside (program : SimulationProgram) : Prop :=
  ∀ row ∈ program.tasks, ∀ aliasId, aliasId ∈ row.inputs ∨ aliasId ∈ row.mutations ∨
    aliasId ∈ row.outputs → aliasId < program.aliasCount

theorem mem_rowWrites {α : Type} {row : List Nat} {marks : List α} {write : Nat × α}
    (mem : write ∈ rowWrites program row marks) : write.1 ∈ row := by
  unfold rowWrites at mem
  rw [List.mem_flatMap] at mem
  rcases mem with ⟨named, isNamed, written⟩
  split at written
  · cases written
  · rw [List.mem_map] at written
    rcases written with ⟨_, _, rfl⟩
    exact isNamed

theorem mem_heldWrites {location : Nat → Option MemoryLocation} {boundary : Nat}
    {write : Nat × Anchor} (mem : write ∈ heldWrites program location boundary) :
    write.1 < program.aliasCount :=
  List.mem_range.mp (List.mem_of_mem_filter (mem_rowWrites mem))

theorem anchors_inside (rows : RowsInside program) :
    ∀ write ∈ heldWrites program initialLocation 0 ++
      program.tasks.zipIdx.flatMap (taskAnchorWrites program) ++
      heldWrites program finalLocation program.tasks.length,
      write.1 < program.aliasCount := by
  intro write mem
  rw [List.mem_append, List.mem_append, List.mem_flatMap] at mem
  rcases mem with (start | ⟨entry, isEntry, written⟩) | stop
  · exact mem_heldWrites start
  · refine rows entry.1 (List.fst_mem_of_mem_zipIdx isEntry) _ ?_
    unfold taskAnchorWrites at written
    rw [List.mem_append, List.mem_append] at written
    rcases written with (input | mutation) | output
    · exact Or.inl (mem_rowWrites input)
    · exact Or.inr (Or.inl (mem_rowWrites mutation))
    · exact Or.inr (Or.inr (mem_rowWrites output))
  · exact mem_heldWrites stop

theorem writes_inside (rows : RowsInside program) :
    ∀ write ∈ program.tasks.zipIdx.flatMap (taskBoundaryWrites program),
      write.1 < program.aliasCount := by
  intro write mem
  rw [List.mem_flatMap] at mem
  rcases mem with ⟨entry, isEntry, written⟩
  refine rows entry.1 (List.fst_mem_of_mem_zipIdx isEntry) _ ?_
  unfold taskBoundaryWrites at written
  rw [List.mem_append] at written
  rcases written with mutation | output
  · exact Or.inr (Or.inl (mem_rowWrites mutation))
  · exact Or.inr (Or.inr (mem_rowWrites output))

theorem reserved_inside (rows : RowsInside program) :
    ∀ write ∈ program.tasks.zipIdx.flatMap (taskReservedWrites program),
      write.1 < program.aliasCount := by
  intro write mem
  rw [List.mem_flatMap] at mem
  rcases mem with ⟨entry, isEntry, written⟩
  refine rows entry.1 (List.fst_mem_of_mem_zipIdx isEntry) _ ?_
  exact Or.inr (Or.inr (List.mem_of_mem_filter (mem_rowWrites written)))

/-- The lists of one alias: nothing if it has no size, else its touches, merged. -/
structure Lists (program : SimulationProgram)
    (initialLocation finalLocation : Nat → Option MemoryLocation) (lists : SparseLists)
    (aliasId : Nat) : Prop where
  anchors : lists.anchors.row aliasId =
    if program.aliasSizeBytes aliasId = 0 then []
    else mergedList mergeAnchor
      (touchesOf program.tasks initialLocation finalLocation aliasId)
  writes : lists.writes.row aliasId =
    if program.aliasSizeBytes aliasId = 0 then []
    else mergedList mergeBoundary (writesOf program.tasks aliasId)
  reserved : lists.reserved.row aliasId =
    if program.aliasSizeBytes aliasId = 0 then []
    else mergedList mergeBoundary (reservationsOf program.tasks aliasId)

/-- The rooms of each kind of list fit the word. -/
structure RoomsFit (program : SimulationProgram)
    (initialLocation finalLocation : Nat → Option MemoryLocation) : Prop where
  anchors : roomsBefore (anchorRoom program initialLocation finalLocation)
    program.aliasCount ≤ wordMax
  reserved : roomsBefore (reservedRoom program) program.aliasCount ≤ wordMax
  writes : roomsBefore (writeRoom program) program.aliasCount ≤ wordMax

theorem buildAliasLists_lists (rows : RowsInside program) {lists : SparseLists}
    (built : buildAliasLists program initialLocation finalLocation = some lists) :
    RoomsFit program initialLocation finalLocation ∧
      ∀ aliasId < program.aliasCount,
        Lists program initialLocation finalLocation lists aliasId := by
  unfold buildAliasLists at built
  simp only [Option.bind_eq_bind, Option.bind_eq_some_iff, Option.some.injEq] at built
  rcases built with
    ⟨anchorOffsets, anchors, reservedOffsets, reserved, writeOffsets, writes, rfl⟩
  refine ⟨⟨(reserveList_some anchors).1, (reserveList_some reserved).1,
    (reserveList_some writes).1⟩, fun aliasId bound => ?_⟩
  constructor
  case anchors =>
    unfold packLists openLists
    rw [recordProgram_anchors, packed_row anchors _ (anchors_inside rows) _ bound]
    · split
      case isTrue unsized =>
        rw [writesTo_anchors_unsized unsized]
        rfl
      case isFalse sized => rw [writesTo_anchors sized bound]
    · intro other otherBound
      by_cases unsized : program.aliasSizeBytes other = 0
      · rw [writesTo_anchors_unsized unsized]
        exact Nat.zero_le _
      · rw [writesTo_anchors unsized otherBound, length_touchesOf unsized]
  case writes =>
    unfold packLists openLists
    rw [recordProgram_writes, packed_row writes _ (writes_inside rows) _ bound]
    · split
      case isTrue unsized =>
        rw [(writesTo_boundaries_unsized unsized).1]
        rfl
      case isFalse sized =>
        simp [writesOf, writesTo_taskBoundaryWrites sized]
    · intro other otherBound
      by_cases unsized : program.aliasSizeBytes other = 0
      · rw [(writesTo_boundaries_unsized unsized).1]
        exact Nat.zero_le _
      · rw [← length_writesOf unsized]
        simp [writesOf, writesTo_taskBoundaryWrites unsized]
  case reserved =>
    unfold packLists openLists
    rw [recordProgram_reserved, packed_row reserved _ (reserved_inside rows) _ bound]
    · split
      case isTrue unsized =>
        rw [(writesTo_boundaries_unsized unsized).2]
        rfl
      case isFalse sized =>
        simp [reservationsOf, writesTo_taskReservedWrites sized]
    · intro other otherBound
      by_cases unsized : program.aliasSizeBytes other = 0
      · rw [(writesTo_boundaries_unsized unsized).2]
        exact Nat.zero_le _
      · refine le_of_eq_of_le ?_ (length_reservationsOf_le unsized)
        simp [reservationsOf, writesTo_taskReservedWrites unsized]

theorem buildAliasLists_isSome
    (fit : RoomsFit program initialLocation finalLocation) :
    ∃ lists, buildAliasLists program initialLocation finalLocation = some lists := by
  rcases Option.isSome_iff_exists.mp (reserveList_isSome.mpr fit.anchors) with ⟨_, anchors⟩
  rcases Option.isSome_iff_exists.mp (reserveList_isSome.mpr fit.reserved) with ⟨_, reserved⟩
  rcases Option.isSome_iff_exists.mp (reserveList_isSome.mpr fit.writes) with ⟨_, writes⟩
  unfold buildAliasLists
  rw [anchors, reserved, writes]
  exact ⟨_, rfl⟩

end Lists

end ShadowSpill.Planner.Residency.AliasTouches
