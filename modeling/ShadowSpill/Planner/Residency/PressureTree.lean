import ShadowSpill.Planner.Residency.Reduce

/-!
# The pressure tree

The tree of a device reads, at every boundary, the word of the bytes charged
there.  It is built from the running sums of the charge differences, and every
range added to it adds to the boundaries of the range alone.
-/

namespace ShadowSpill.Planner.Residency.PressureTree

open Library Library.Intervals Problem Spans Reduce

/-! ## Running sums -/

section Sums

variable {row : Nat → Word}

/-- The sum of a row up to a boundary. -/
def runningSum (row : Nat → Word) (boundary : Nat) : Word :=
  ((List.range (boundary + 1)).map row).sum

theorem runningSum_succ (boundary : Nat) :
    runningSum row (boundary + 1) = runningSum row boundary + row (boundary + 1) := by
  unfold runningSum
  rw [List.range_succ, List.map_append, List.sum_append]
  simp

/-- A change of one place reaches every sum from there on. -/
theorem runningSum_update (place : Nat) (delta : Word) (boundary : Nat) :
    runningSum (Function.update row place (row place + delta)) boundary =
      runningSum row boundary + if place ≤ boundary then delta else 0 := by
  induction boundary with
  | zero =>
      by_cases here : place = 0
      · subst here
        simp [runningSum]
      · simp [runningSum, here, Ne.symm here]
  | succ boundary ih =>
      rw [runningSum_succ, runningSum_succ, ih]
      by_cases here : place = boundary + 1
      · subst here
        rw [Function.update_self, if_neg (by omega), if_pos le_rfl, add_zero, add_assoc]
      · rw [Function.update_of_ne (Ne.symm here)]
        by_cases before : place ≤ boundary
        · rw [if_pos before, if_pos (by omega)]
          exact add_right_comm _ _ _
        · rw [if_neg before, if_neg (by omega), add_zero, add_zero]

end Sums

/-! ## The charge of a residency -/

section Charges

variable {count : Nat} {size : Word}

/-- The differences of disjoint intervals sum to the size inside them. -/
theorem runningSum_addIntervals {intervals : List Interval}
    (ascending : Ascending intervals) {boundary : Nat} (inside : boundary < count)
    (row : Nat → Word) :
    runningSum (addIntervals count size row intervals) boundary =
      runningSum row boundary + if Covers intervals boundary then size else 0 := by
  induction intervals generalizing row with
  | nil => simp [addIntervals]
  | cons interval rest ih =>
      obtain ⟨valid, _, restAscending⟩ := ascending_cons.1 ascending
      have once : Covers rest boundary → interval.finish < boundary := ascending.above
      rw [addIntervals, List.foldl_cons]
      refine Eq.trans (ih restAscending _) ?_
      have own : runningSum (if interval.finish + 1 < count then
          Function.update (Function.update row interval.start (row interval.start + size))
            (interval.finish + 1) (Function.update row interval.start
              (row interval.start + size) (interval.finish + 1) - size)
          else Function.update row interval.start (row interval.start + size)) boundary =
          runningSum row boundary + if interval.Contains boundary then size else 0 := by
        have contains : interval.Contains boundary ↔
            interval.start ≤ boundary ∧ boundary ≤ interval.finish := Iff.rfl
        by_cases ends : interval.finish + 1 < count
        · rw [if_pos ends, sub_eq_add_neg, runningSum_update, runningSum_update, add_assoc]
          congr 1
          by_cases started : interval.start ≤ boundary
          · by_cases ended : interval.finish + 1 ≤ boundary
            · rw [if_pos started, if_pos ended, if_neg (by rw [contains]; omega), add_neg_cancel]
            · rw [if_pos started, if_neg ended, if_pos (by rw [contains]; omega), add_zero]
          · rw [if_neg started, if_neg (by omega), if_neg (by rw [contains]; omega), add_zero]
        · rw [if_neg ends, runningSum_update]
          congr 1
          exact if_congr (by rw [contains]; omega) rfl rfl
      simp only
      rw [own, add_assoc]
      congr 1
      simp only [covers_cons]
      by_cases here : interval.Contains boundary
      · have past : ¬ Covers rest boundary := by
          intro covered
          have above := once covered
          have upper := here.2
          omega
        rw [if_pos here, if_neg past, if_pos (Or.inl here), add_zero]
      · rw [if_neg here, zero_add]
        exact if_congr (by simp [here]) rfl rfl

variable {problem : ResidencyProblem} {fetchHeadroom : Bool}
  {spans : Nat → List Interval} {device boundary : Nat}

/-- The running sums of the differences are the words of the bytes charged. -/
theorem basePressure_eq (sorted : SortedLists problem)
    (ascending : ∀ aliasId, Ascending (spans aliasId))
    (inside : boundary < problem.boundaryCount) :
    basePressure problem fetchHeadroom spans device boundary =
      BitVec.ofNat 64 (chargeBytes problem fetchHeadroom spans device boundary) := by
  have each : ∀ (aliases : List Nat) (row : Nat → Word),
      runningSum (aliases.foldl (fun row aliasId =>
        if ¬ problem.mayCut aliasId ∨ problem.aliasDevice aliasId ≠ device then row
        else
          addIntervals problem.boundaryCount
            (BitVec.ofNat 64 (problem.aliasSizeBytes aliasId)) row
            (chargedIntervals problem fetchHeadroom aliasId (spans aliasId))) row) boundary =
        runningSum row boundary + BitVec.ofNat 64 ((aliases.map fun aliasId =>
          if bears problem fetchHeadroom spans device boundary aliasId then
            problem.aliasSizeBytes aliasId
          else 0).sum) := by
    intro aliases
    induction aliases with
    | nil =>
        intro row
        simp
    | cons aliasId rest ih =>
        intro row
        rw [List.foldl_cons, ih, List.map_cons, List.sum_cons, BitVec.ofNat_add, ← add_assoc]
        congr 1
        obtain ⟨order, _⟩ := @chargedIntervals_spec problem fetchHeadroom aliasId sorted _
          (ascending aliasId)
        have charged : Covers (chargedIntervals problem fetchHeadroom aliasId
            (spans aliasId)) boundary ↔
            chargedAt problem fetchHeadroom spans aliasId boundary = true :=
          (find_isSome order).symm
        by_cases counted : problem.mayCut aliasId = true ∧ problem.aliasDevice aliasId = device
        · rw [if_neg (by simp [counted]), runningSum_addIntervals order inside]
          congr 1
          by_cases held : chargedAt problem fetchHeadroom spans aliasId boundary = true
          · rw [if_pos (charged.2 held), if_pos (by simp [bears, counted, held])]
          · rw [if_neg (fun covered => held (charged.1 covered)),
              if_neg (by simp [bears, held])]
            rfl
        · rw [if_pos (by simpa [or_iff_not_imp_left] using fun may same => counted ⟨may, same⟩),
            if_neg (by
              simp only [bears, Bool.and_eq_true, decide_eq_true_eq]
              exact fun all => counted ⟨all.1.2, all.1.1⟩)]
          simp
  have whole := each (List.range problem.aliasCount) fun _ => 0
  have zero : runningSum (fun _ => 0) boundary = 0 := by simp [runningSum]
  rw [zero, zero_add] at whole
  exact whole

/-- Sums that differ in one term differ by it. -/
theorem sum_range_swap {first second : Nat → Nat} {place : Nat}
    (same : ∀ index, index ≠ place → first index = second index) (count : Nat)
    (inside : place < count) :
    ((List.range count).map first).sum + second place =
      ((List.range count).map second).sum + first place := by
  have before : ∀ count ≤ place, ((List.range count).map first).sum =
      ((List.range count).map second).sum := by
    intro count bound
    congr 1
    apply List.map_congr_left
    intro index mem
    have below := List.mem_range.1 mem
    exact same index (by omega)
  induction count with
  | zero => omega
  | succ count ih =>
      simp only [List.range_succ, List.map_append, List.sum_append, List.map_cons, List.map_nil,
        List.sum_singleton]
      by_cases last : place = count
      · rw [before count (by omega), last]
        omega
      · have rest := ih (by omega)
        rw [same count (Ne.symm last)]
        omega

/-- The bytes of a boundary follow the one alias whose spans change. -/
theorem chargeBytes_change {later : Nat → List Interval} {aliasId : Nat}
    (others : ∀ other, other ≠ aliasId → later other = spans other)
    (bound : aliasId < problem.aliasCount) (eligible : problem.mayCut aliasId = true) :
    chargeBytes problem fetchHeadroom later device boundary +
        (if problem.aliasDevice aliasId = device ∧
            chargedAt problem fetchHeadroom spans aliasId boundary = true then
          problem.aliasSizeBytes aliasId else 0) =
      chargeBytes problem fetchHeadroom spans device boundary +
        if problem.aliasDevice aliasId = device ∧
            chargedAt problem fetchHeadroom later aliasId boundary = true then
          problem.aliasSizeBytes aliasId else 0 := by
  have swap := @sum_range_swap
    (fun other => if bears problem fetchHeadroom later device boundary other then
      problem.aliasSizeBytes other else 0)
    (fun other => if bears problem fetchHeadroom spans device boundary other then
      problem.aliasSizeBytes other else 0) aliasId
    (by
      intro other different
      have same : bears problem fetchHeadroom later device boundary other =
          bears problem fetchHeadroom spans device boundary other := by
        simp only [bears, chargedAt, others other different]
      rw [same]) problem.aliasCount bound
  simp only [bears, eligible, Bool.and_true, Bool.and_eq_true, decide_eq_true_eq] at swap
  unfold chargeBytes
  simp only [bears, Bool.and_eq_true, decide_eq_true_eq]
  exact swap

end Charges

/-! ## What a tree reads -/

/-- The tree of each device reads these words at its boundaries. -/
def Reads (count : Nat) (pressure : Nat → Nat → Word) (value : Nat → Nat → Word) : Prop :=
  ∀ device, ∃ differences, Fenwick.Represents count (pressure device) differences ∧
    ∀ boundary < count,
      ∑ position ∈ Finset.Ioc 0 (boundary + 1), differences position = value device boundary

section Tree

variable {count : Nat} {pressure value : Nat → Nat → Word}

theorem Reads.at (reads : Reads count pressure value) (device : Nat) {boundary : Nat}
    (inside : boundary < count) :
    treePressureAt pressure device boundary = value device boundary := by
  obtain ⟨differences, represents, sums⟩ := reads device
  rw [treePressureAt, Fenwick.prefixSum_eq represents _ inside]
  exact sums boundary inside

theorem Reads.congr {other : Nat → Nat → Word} (reads : Reads count pressure value)
    (same : ∀ device, ∀ boundary < count, value device boundary = other device boundary) :
    Reads count pressure other := by
  intro device
  obtain ⟨differences, represents, sums⟩ := reads device
  refine ⟨differences, represents, ?_⟩
  intro boundary inside
  rw [sums boundary inside, same device boundary inside]

theorem pressureBuild_reads (value : Nat → Nat → Word) :
    Reads count (fun device => pressureBuild count (value device)) value := by
  intro device
  refine ⟨_, Fenwick.build_represents, ?_⟩
  intro boundary _
  induction boundary with
  | zero => simp
  | succ boundary ih =>
      rw [Finset.sum_Ioc_succ_top (by omega), ih (by omega)]
      simp

/-- A sum up to a boundary reaches a change at its place or before. -/
theorem sum_update (differences : Nat → Word) (place : Nat) (positive : 0 < place)
    (delta : Word) (boundary : Nat) :
    ∑ position ∈ Finset.Ioc 0 boundary,
        Function.update differences place (differences place + delta) position =
      (∑ position ∈ Finset.Ioc 0 boundary, differences position) +
        if place ≤ boundary then delta else 0 := by
  by_cases reached : place ≤ boundary
  · have mem : place ∈ Finset.Ioc 0 boundary := Finset.mem_Ioc.2 ⟨positive, reached⟩
    rw [if_pos reached, ← Finset.add_sum_erase _ _ mem, ← Finset.add_sum_erase _ differences mem,
      Function.update_self]
    have others : ∑ position ∈ (Finset.Ioc 0 boundary).erase place,
        Function.update differences place (differences place + delta) position =
        ∑ position ∈ (Finset.Ioc 0 boundary).erase place, differences position := by
      apply Finset.sum_congr rfl
      intro position other
      exact Function.update_of_ne (Finset.ne_of_mem_erase other) _ _
    rw [others, add_right_comm]
  · rw [if_neg reached, add_zero]
    apply Finset.sum_congr rfl
    intro position mem
    apply Function.update_of_ne
    have upper := (Finset.mem_Ioc.1 mem).2
    omega

/-- A range added to the tree adds to its boundaries alone. -/
theorem pressureAdd_reads (reads : Reads count pressure value) (device : Nat)
    {range : Interval} (valid : range.start ≤ range.finish) (delta : Word) :
    Reads count (pressureAdd count pressure device range.start range.finish delta)
      fun other boundary => value other boundary +
        if other = device ∧ range.Contains boundary then delta else 0 := by
  intro other
  by_cases same : other = device
  · subst same
    obtain ⟨differences, represents, sums⟩ := reads other
    have started := Fenwick.addFrom_represents represents (range.start + 1) (by omega) delta
    have contains : ∀ boundary, True ∧ range.Contains boundary ↔
        range.start ≤ boundary ∧ boundary ≤ range.finish := fun _ => true_and _ |>.to_iff
    simp only [pressureAdd, Function.update_self]
    by_cases ends : range.finish + 1 < count
    · rw [if_pos ends]
      refine ⟨_, Fenwick.addFrom_represents started (range.finish + 1 + 1) (by omega) (-delta),
        ?_⟩
      intro boundary inside
      rw [sum_update _ _ (by omega), sum_update _ _ (by omega), sums boundary inside, add_assoc]
      congr 1
      by_cases began : range.start ≤ boundary
      · by_cases ended : range.finish + 1 ≤ boundary
        · rw [if_pos (by omega), if_pos (by omega), if_neg (by rw [contains]; omega),
            add_neg_cancel]
        · rw [if_pos (by omega), if_neg (by omega), if_pos (by rw [contains]; omega),
            add_zero]
      · rw [if_neg (by omega), if_neg (by omega), if_neg (by rw [contains]; omega), add_zero]
    · rw [if_neg ends]
      refine ⟨_, started, ?_⟩
      intro boundary inside
      rw [sum_update _ _ (by omega), sums boundary inside]
      congr 1
      exact if_congr (by rw [contains]; omega) rfl rfl
  · obtain ⟨differences, represents, sums⟩ := reads other
    refine ⟨differences, ?_, ?_⟩
    · simpa only [pressureAdd, Function.update_of_ne same] using represents
    · intro boundary inside
      simpa [same] using sums boundary inside

/-- Disjoint ranges added one after the other add to what they cover. -/
theorem pressureAdd_ranges (reads : Reads count pressure value) (device : Nat)
    {ranges : List Interval} (ascending : Ascending ranges) (delta : Word) :
    Reads count (ranges.foldl (fun pressure range =>
        pressureAdd count pressure device range.start range.finish delta) pressure)
      fun other boundary => value other boundary +
        if other = device ∧ Covers ranges boundary then delta else 0 := by
  induction ranges generalizing pressure value with
  | nil => simpa using reads
  | cons range rest ih =>
      obtain ⟨valid, _, restAscending⟩ := ascending_cons.1 ascending
      have once := fun boundary => @Ascending.above boundary range rest ascending
      have added := ih (pressureAdd_reads reads device valid delta) restAscending
      rw [List.foldl_cons]
      intro other
      obtain ⟨differences, represents, sums⟩ := added other
      refine ⟨differences, represents, ?_⟩
      intro boundary inside
      rw [sums boundary inside]
      simp only [add_assoc]
      congr 1
      by_cases here : other = device ∧ range.Contains boundary
      · have past : ¬ Covers rest boundary := by
          intro covered
          have above := once boundary covered
          have upper := here.2.2
          omega
        rw [if_pos here, if_neg (fun both => past both.2),
          if_pos ⟨here.1, (covers_cons _ _ _).2 (Or.inl here.2)⟩, add_zero]
      · rw [if_neg here, zero_add]
        apply if_congr _ rfl rfl
        rw [covers_cons]
        constructor
        · rintro ⟨same, covered⟩
          exact ⟨same, Or.inr covered⟩
        · rintro ⟨same, own | covered⟩
          · exact absurd ⟨same, own⟩ here
          · exact ⟨same, covered⟩

end Tree

end ShadowSpill.Planner.Residency.PressureTree
