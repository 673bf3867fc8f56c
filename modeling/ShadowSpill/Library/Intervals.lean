import ShadowSpill.Library.Bisection

/-!
# Sets of points as lists of closed intervals

An ascending list of disjoint closed intervals holds a set of points, and
remembers which neighbouring points lie in one interval: two intervals may
touch.  Each operation is specified by the points it keeps (`Covers`) and the
neighbours it keeps together (`Joins`), and the two determine the list.
-/

namespace ShadowSpill.Library.Intervals

open Bisection

/-- A closed interval of points. -/
structure Interval where
  start : Nat
  finish : Nat
deriving DecidableEq, Repr, Inhabited

/-- A point lies in an interval. -/
def Interval.Contains (interval : Interval) (point : Nat) : Prop :=
  interval.start ≤ point ∧ point ≤ interval.finish

instance (interval : Interval) (point : Nat) :
    Decidable (interval.Contains point) :=
  inferInstanceAs (Decidable (_ ∧ _))

/-- A point lies in an interval of the list. -/
def Covers (intervals : List Interval) (point : Nat) : Prop :=
  ∃ interval ∈ intervals, interval.Contains point

instance (intervals : List Interval) (point : Nat) : Decidable (Covers intervals point) :=
  inferInstanceAs (Decidable (∃ interval ∈ intervals, interval.Contains point))

/-- A point and the next one lie in one interval of the list. -/
def Joins (intervals : List Interval) (point : Nat) : Prop :=
  ∃ interval ∈ intervals, interval.Contains point ∧ interval.Contains (point + 1)

/-- Two points lie in one interval of the list. -/
def Holds (intervals : List Interval) (low high : Nat) : Prop :=
  ∃ interval ∈ intervals, interval.Contains low ∧ interval.Contains high

theorem covers_iff_holds {intervals : List Interval} {point : Nat} :
    Covers intervals point ↔ Holds intervals point point := by
  simp [Covers, Holds]

@[simp]
theorem not_holds_nil (low high : Nat) : ¬ Holds [] low high := by
  simp [Holds]

theorem holds_cons {interval : Interval} {rest : List Interval} {low high : Nat} :
    Holds (interval :: rest) low high ↔
      interval.Contains low ∧ interval.Contains high ∨ Holds rest low high := by
  simp [Holds]

theorem holds_append {first second : List Interval} {low high : Nat} :
    Holds (first ++ second) low high ↔ Holds first low high ∨ Holds second low high := by
  simp [Holds, or_and_right, exists_or]

theorem Holds.covers {intervals : List Interval} {low high : Nat}
    (holds : Holds intervals low high) : Covers intervals low := by
  obtain ⟨interval, mem, here, _⟩ := holds
  exact ⟨interval, mem, here⟩

@[simp]
theorem not_covers_nil (point : Nat) : ¬ Covers [] point := by
  simp [Covers]

@[simp]
theorem covers_cons (interval : Interval) (rest : List Interval) (point : Nat) :
    Covers (interval :: rest) point ↔
      interval.Contains point ∨ Covers rest point := by
  simp [Covers]

@[simp]
theorem covers_append (first second : List Interval) (point : Nat) :
    Covers (first ++ second) point ↔ Covers first point ∨ Covers second point := by
  simp [Covers, or_and_right, exists_or]

/-- Nonempty intervals in ascending order that share no point. -/
structure Ascending (intervals : List Interval) : Prop where
  valid : ∀ interval ∈ intervals, interval.start ≤ interval.finish
  apart : intervals.Pairwise fun first second => first.finish < second.start

@[simp]
theorem ascending_nil : Ascending [] :=
  ⟨by simp, List.Pairwise.nil⟩

theorem ascending_cons {interval : Interval} {rest : List Interval} :
    Ascending (interval :: rest) ↔
      interval.start ≤ interval.finish ∧
        (∀ other ∈ rest, interval.finish < other.start) ∧ Ascending rest := by
  constructor
  · intro ascending
    have apart := List.pairwise_cons.1 ascending.apart
    exact ⟨ascending.valid interval (by simp), apart.1,
      fun other mem => ascending.valid other (by simp [mem]), apart.2⟩
  · rintro ⟨valid, above, rest⟩
    constructor
    · intro other mem
      rcases List.mem_cons.1 mem with rfl | mem
      · exact valid
      · exact rest.valid other mem
    · exact List.pairwise_cons.2 ⟨above, rest.apart⟩

theorem ascending_append {first second : List Interval} :
    Ascending (first ++ second) ↔
      Ascending first ∧ Ascending second ∧
        ∀ lower ∈ first, ∀ upper ∈ second, lower.finish < upper.start := by
  constructor
  · intro ascending
    have apart := List.pairwise_append.1 ascending.apart
    exact ⟨⟨fun other mem => ascending.valid other (by simp [mem]), apart.1⟩,
      ⟨fun other mem => ascending.valid other (by simp [mem]), apart.2.1⟩, apart.2.2⟩
  · rintro ⟨left, right, across⟩
    constructor
    · intro other mem
      rcases List.mem_append.1 mem with mem | mem
      · exact left.valid other mem
      · exact right.valid other mem
    · exact List.pairwise_append.2 ⟨left.apart, right.apart, across⟩

/-- Lists that stay within the intervals of an ascending list ascend together. -/
theorem ascending_flatMap {intervals : List Interval} (ascending : Ascending intervals)
    {parts : Interval → List Interval}
    (order : ∀ interval ∈ intervals, Ascending (parts interval))
    (within : ∀ interval ∈ intervals, ∀ part ∈ parts interval,
      interval.start ≤ part.start ∧ part.finish ≤ interval.finish) :
    Ascending (intervals.flatMap parts) := by
  induction intervals with
  | nil => exact ascending_nil
  | cons interval rest ih =>
      obtain ⟨_, above, restAscending⟩ := ascending_cons.1 ascending
      rw [List.flatMap_cons]
      refine ascending_append.2 ⟨order interval (by simp), ih restAscending
        (fun other mem => order other (by simp [mem]))
        (fun other mem => within other (by simp [mem])), ?_⟩
      intro lower lowerMem upper upperMem
      obtain ⟨other, otherMem, upperMem⟩ := List.mem_flatMap.1 upperMem
      have below := (within interval (by simp) lower lowerMem).2
      have start := (within other (by simp [otherMem]) upper upperMem).1
      have apart := above other otherMem
      omega

section Points

variable {intervals : List Interval} {point : Nat}

/-- No point of the rest lies at or below the first interval. -/
theorem Ascending.above {interval : Interval} {rest : List Interval}
    (ascending : Ascending (interval :: rest)) (covers : Covers rest point) :
    interval.finish < point := by
  obtain ⟨other, mem, lower, _⟩ := covers
  have past := (ascending_cons.1 ascending).2.1 other mem
  omega

/-- A point lies in one interval only. -/
theorem Ascending.unique (ascending : Ascending intervals)
    {first second : Interval} (firstMem : first ∈ intervals)
    (secondMem : second ∈ intervals) (inFirst : first.Contains point)
    (inSecond : second.Contains point) : first = second := by
  induction intervals with
  | nil => cases firstMem
  | cons interval rest ih =>
      have tail := (ascending_cons.1 ascending).2.2
      rcases List.mem_cons.1 firstMem with firstHead | firstLater
      · rcases List.mem_cons.1 secondMem with secondHead | secondLater
        · exact firstHead.trans secondHead.symm
        · have past := ascending.above ⟨second, secondLater, inSecond⟩
          rw [firstHead] at inFirst
          exact absurd inFirst.2 (by omega)
      · rcases List.mem_cons.1 secondMem with secondHead | secondLater
        · have past := ascending.above ⟨first, firstLater, inFirst⟩
          rw [secondHead] at inSecond
          exact absurd inSecond.2 (by omega)
        · exact ih tail firstLater secondLater

end Points

/-! ## Finding the interval of a point -/

/-- The index of the first interval that ends at or after the point. -/
def reaching (intervals : List Interval) (point : Nat) : Nat :=
  bisect (fun index => (intervals.getD index default).finish < point)
    intervals.length 0 intervals.length

/-- The index of the interval that holds the point. -/
def find (intervals : List Interval) (point : Nat) : Option Nat :=
  match intervals[reaching intervals point]? with
  | none => none
  | some interval =>
      if interval.start ≤ point then some (reaching intervals point) else none

theorem Ascending.rises {intervals : List Interval} (ascending : Ascending intervals)
    {first second : Nat} (ordered : first < second) (firstBound : first < intervals.length)
    (bound : second < intervals.length) :
    intervals[first].finish < intervals[second].start :=
  List.pairwise_iff_getElem.1 ascending.apart first second _ bound ordered

theorem reaching_partitions {intervals : List Interval} {point : Nat}
    (ascending : Ascending intervals) :
    Partitions (fun index => decide ((intervals.getD index default).finish < point)) 0
      intervals.length (reaching intervals point) := by
  apply bisect_partitions _ _ _ _ le_rfl (Nat.zero_le _)
  intro first second _ ordered bound below
  simp only [decide_eq_true_eq] at below ⊢
  rcases Nat.lt_or_eq_of_le ordered with before | rfl
  · have apart := ascending.rises before (by omega) bound
    have valid := ascending.valid _ (List.getElem_mem bound)
    rw [List.getD_eq_getElem _ _ (by omega)]
    rw [List.getD_eq_getElem _ _ bound] at below
    omega
  · exact below

theorem find_eq_some {intervals : List Interval} {point index : Nat}
    (ascending : Ascending intervals) :
    find intervals point = some index ↔
      ∃ bound : index < intervals.length, intervals[index].Contains point := by
  have parts := @reaching_partitions _ point ascending
  constructor
  · intro found
    unfold find at found
    cases looked : intervals[reaching intervals point]? with
    | none => simp [looked] at found
    | some interval =>
        simp only [looked] at found
        split_ifs at found with lower
        cases found
        obtain ⟨bound, rfl⟩ := List.getElem?_eq_some_iff.1 looked
        have reached := parts.after _ le_rfl bound
        simp only [decide_eq_false_iff_not, List.getD_eq_getElem _ _ bound] at reached
        exact ⟨bound, lower, by omega⟩
  · rintro ⟨bound, lower, upper⟩
    have same : reaching intervals point = index := by
      apply le_antisymm
      · by_contra past
        have below := parts.before index (Nat.zero_le _) (by omega)
        simp only [decide_eq_true_eq, List.getD_eq_getElem _ _ bound] at below
        omega
      · by_contra before
        have reached := parts.after _ le_rfl (by omega)
        have apart := ascending.rises (Nat.lt_of_not_le before) (by omega) bound
        simp only [decide_eq_false_iff_not, List.getD_eq_getElem _ _
          (show reaching intervals point < intervals.length by omega)] at reached
        omega
    unfold find
    rw [same, List.getElem?_eq_getElem bound]
    simp only
    rw [if_pos lower]

/-- The point is in no interval when the search finds none. -/
theorem find_isSome {intervals : List Interval} {point : Nat}
    (ascending : Ascending intervals) :
    (find intervals point).isSome = true ↔ Covers intervals point := by
  rw [Option.isSome_iff_exists]
  constructor
  · rintro ⟨index, found⟩
    obtain ⟨bound, contains⟩ := (find_eq_some ascending).1 found
    exact ⟨_, List.getElem_mem bound, contains⟩
  · rintro ⟨interval, mem, contains⟩
    obtain ⟨index, bound, rfl⟩ := List.getElem_of_mem mem
    exact ⟨index, (find_eq_some ascending).2 ⟨bound, contains⟩⟩

/-! ## Appending -/

/-- Append an interval after those that start before it, merging it into the
last one when the two overlap or touch. -/
def append (intervals : List Interval) (next : Interval) : List Interval :=
  match intervals.getLast? with
  | none => [next]
  | some last =>
      if next.start ≤ last.finish + 1 then
        intervals.dropLast ++ [⟨last.start, max next.finish last.finish⟩]
      else intervals ++ [next]

/-- No interval of the list starts past the point. -/
def StartsBy (intervals : List Interval) (point : Nat) : Prop :=
  ∀ interval ∈ intervals, interval.start ≤ point

section Append

variable {intervals : List Interval} {next : Interval}

theorem append_snoc (initial : List Interval) (last next : Interval) :
    append (initial ++ [last]) next =
      if next.start ≤ last.finish + 1 then
        initial ++ [⟨last.start, max next.finish last.finish⟩]
      else initial ++ [last, next] := by
  simp [append]

theorem append_ascending (ascending : Ascending intervals)
    (valid : next.start ≤ next.finish) (starts : StartsBy intervals next.start) :
    Ascending (append intervals next) := by
  rcases List.eq_nil_or_concat' intervals with rfl | ⟨initial, last, rfl⟩
  · exact ascending_cons.2 ⟨valid, by simp, ascending_nil⟩
  · obtain ⟨lower, lastAlone, across⟩ := ascending_append.1 ascending
    have lastValid := lastAlone.valid last (by simp)
    rw [append_snoc]
    split_ifs with touches
    · apply ascending_append.2 ⟨lower, ascending_cons.2 ⟨?_, by simp, ascending_nil⟩, ?_⟩
      · exact le_trans lastValid (le_max_right _ _)
      · intro before mem other here
        obtain rfl := List.mem_singleton.1 here
        exact across before mem last (by simp)
    · apply ascending_append.2 ⟨lower, ascending_cons.2 ⟨lastValid, ?_,
        ascending_cons.2 ⟨valid, by simp, ascending_nil⟩⟩, ?_⟩
      · intro other here
        obtain rfl := List.mem_singleton.1 here
        omega
      · intro before mem other here
        have apart := across before mem last (by simp)
        rcases List.mem_pair.1 here with rfl | rfl
        · exact apart
        · omega

theorem append_covers (starts : StartsBy intervals next.start) (point : Nat)
    (ordered : Ascending intervals) :
    Covers (append intervals next) point ↔
      Covers intervals point ∨ next.Contains point := by
  rcases List.eq_nil_or_concat' intervals with rfl | ⟨initial, last, rfl⟩
  · simp [append]
  · have lastStarts := starts last (by simp)
    have lastValid := ordered.valid last (by simp)
    rw [append_snoc]
    split_ifs with touches
    · simp only [covers_append, covers_cons, not_covers_nil, or_false, Interval.Contains,
        or_assoc]
      apply or_congr_right
      omega
    · simp [or_assoc]

theorem append_startsBy {point : Nat} (starts : StartsBy intervals next.start)
    (later : next.start ≤ point) : StartsBy (append intervals next) point := by
  rcases List.eq_nil_or_concat' intervals with rfl | ⟨initial, last, rfl⟩
  · simpa [StartsBy, append] using later
  · intro interval mem
    rw [append_snoc] at mem
    have before : ∀ other ∈ initial ++ [last], other.start ≤ point :=
      fun other here => le_trans (starts other here) later
    split_ifs at mem with touches
    · rcases List.mem_append.1 mem with mem | mem
      · exact before interval (by simp [mem])
      · obtain rfl := List.mem_singleton.1 mem
        exact before last (by simp)
    · rcases List.mem_append.1 mem with mem | mem
      · exact before interval (by simp [mem])
      · rcases List.mem_pair.1 mem with rfl | rfl
        · exact before _ (by simp)
        · exact later

end Append

/-- Append intervals that start in ascending order, one after the other. -/
def appendAll (intervals : List Interval) (following : List Interval) : List Interval :=
  following.foldl append intervals

/-- Appending intervals whose starts ascend keeps the list ascending, and the
list holds the points of all of them. -/
theorem appendAll_spec {intervals following : List Interval}
    (ascending : Ascending intervals)
    (valid : ∀ next ∈ following, next.start ≤ next.finish)
    (starts : ∀ next ∈ following, StartsBy intervals next.start)
    (order : following.Pairwise fun first second => first.start ≤ second.start) :
    Ascending (appendAll intervals following) ∧
      ∀ point, Covers (appendAll intervals following) point ↔
        Covers intervals point ∨ Covers following point := by
  induction following generalizing intervals with
  | nil => exact ⟨ascending, by simp [appendAll]⟩
  | cons next rest ih =>
      have own := starts next (by simp)
      obtain ⟨later, restOrder⟩ := List.pairwise_cons.1 order
      obtain ⟨done, covers⟩ := ih
        (append_ascending ascending (valid next (by simp)) own)
        (fun other mem => valid other (by simp [mem]))
        (fun other mem => append_startsBy own (later other mem)) restOrder
      refine ⟨done, ?_⟩
      intro point
      change Covers (appendAll (append intervals next) rest) point ↔ _
      rw [covers, append_covers own point ascending, covers_cons, or_assoc]

/-! ## Taking points out -/

/-- Take the points from `first` to `last` out of intervals that all end at or
after `first`. -/
def clearReached (first last : Nat) : List Interval → List Interval
  | [] => []
  | interval :: rest =>
      if last < interval.start then interval :: rest
      else if interval.start < first ∧ last < interval.finish then
        ⟨interval.start, first - 1⟩ :: ⟨last + 1, interval.finish⟩ :: rest
      else if interval.start < first then
        ⟨interval.start, first - 1⟩ :: clearReached first last rest
      else if last < interval.finish then ⟨last + 1, interval.finish⟩ :: rest
      else clearReached first last rest

/-- Take the points from `first` to `last` out of a list. -/
def clear (first last : Nat) (intervals : List Interval) : List Interval :=
  intervals.takeWhile (·.finish < first) ++
    clearReached first last (intervals.dropWhile (·.finish < first))

section Clear

variable {intervals : List Interval} {first last : Nat}

/-- What is left lies within what was there. -/
theorem clearReached_within (bound : Nat)
    (above : ∀ interval ∈ intervals, bound < interval.start)
    (reached : ∀ interval ∈ intervals, first ≤ interval.finish) :
    ∀ interval ∈ clearReached first last intervals, bound < interval.start := by
  induction intervals with
  | nil => simp [clearReached]
  | cons interval rest ih =>
      have here := above interval (by simp)
      have tail := ih (fun other mem => above other (by simp [mem]))
        (fun other mem => reached other (by simp [mem]))
      have others : ∀ other ∈ rest, bound < other.start :=
        fun other mem => above other (by simp [mem])
      intro other mem
      rw [clearReached] at mem
      split_ifs at mem with past inside head tailKept
      · exact above other mem
      · rcases List.mem_cons.1 mem with rfl | mem
        · exact here
        · rcases List.mem_cons.1 mem with rfl | mem
          · simp only
            omega
          · exact others other mem
      · rcases List.mem_cons.1 mem with rfl | mem
        · exact here
        · exact tail other mem
      · rcases List.mem_cons.1 mem with rfl | mem
        · simp only
          omega
        · exact others other mem
      · exact tail other mem

theorem clearReached_ascending (ascending : Ascending intervals)
    (reached : ∀ interval ∈ intervals, first ≤ interval.finish) (range : first ≤ last) :
    Ascending (clearReached first last intervals) := by
  induction intervals with
  | nil => simp [clearReached]
  | cons interval rest ih =>
      obtain ⟨valid, above, restAscending⟩ := ascending_cons.1 ascending
      have restReached : ∀ other ∈ rest, first ≤ other.finish :=
        fun other mem => reached other (by simp [mem])
      have tail := ih restAscending restReached
      rw [clearReached]
      split_ifs with past inside head tailKept
      · exact ascending
      · refine ascending_cons.2 ⟨by simp only; omega, ?_, ascending_cons.2
          ⟨by simp only; omega, above, restAscending⟩⟩
        intro other mem
        rcases List.mem_cons.1 mem with rfl | mem
        · simp only
          omega
        · have beyond := above other mem
          simp only
          omega
      · refine ascending_cons.2 ⟨by simp only; omega, ?_, tail⟩
        intro other mem
        have beyond := clearReached_within interval.finish above restReached other mem
        have own := reached interval (by simp)
        simp only
        omega
      · exact ascending_cons.2 ⟨by simp only; omega, above, restAscending⟩
      · exact tail

/-- A point and itself or the next one are left together exactly when both lie
outside the range, on one side of it. -/
theorem clearReached_holds (ascending : Ascending intervals)
    (reached : ∀ interval ∈ intervals, first ≤ interval.finish) (range : first ≤ last)
    {low high : Nat} (ordered : low ≤ high) (near : high ≤ low + 1) :
    Holds (clearReached first last intervals) low high ↔
      Holds intervals low high ∧ (high < first ∨ last < low) := by
  induction intervals with
  | nil => simp [clearReached]
  | cons interval rest ih =>
      obtain ⟨valid, above, restAscending⟩ := ascending_cons.1 ascending
      have tail := ih restAscending fun other mem => reached other (by simp [mem])
      have own := reached interval (by simp)
      have later : Holds rest low high → interval.finish < low :=
        fun held => ascending.above held.covers
      rw [clearReached]
      split_ifs with past inside head tailKept
      · constructor
        · intro held
          refine ⟨held, Or.inr ?_⟩
          rcases holds_cons.1 held with ⟨here, _⟩ | there
          · exact lt_of_lt_of_le past here.1
          · have beyond := later there
            omega
        · exact And.left
      · simp only [holds_cons, Interval.Contains]
        by_cases there : Holds rest low high
        · have beyond := later there
          simp only [there, or_true, true_and, true_iff]
          omega
        · simp only [there, or_false]
          omega
      · simp only [holds_cons, Interval.Contains, tail]
        by_cases there : Holds rest low high
        · have beyond := later there
          simp only [there, or_true, true_and]
          omega
        · simp only [there, or_false, false_and]
          omega
      · simp only [holds_cons, Interval.Contains]
        by_cases there : Holds rest low high
        · have beyond := later there
          simp only [there, or_true, true_and, true_iff]
          omega
        · simp only [there, or_false]
          omega
      · simp only [holds_cons, Interval.Contains, tail]
        by_cases there : Holds rest low high
        · simp only [there, or_true, true_and]
        · simp only [there, or_false, false_and, false_iff]
          omega

/-- The intervals that end before the range, and those that reach it. -/
theorem split_at_reach (ascending : Ascending intervals) :
    Ascending (intervals.takeWhile (·.finish < first)) ∧
      Ascending (intervals.dropWhile (·.finish < first)) ∧
      (∀ interval ∈ intervals.takeWhile (·.finish < first), interval.finish < first) ∧
      ∀ interval ∈ intervals.dropWhile (·.finish < first), first ≤ interval.finish := by
  have parts := ascending
  rw [← List.takeWhile_append_dropWhile (p := fun interval => interval.finish < first)
    (l := intervals), ascending_append] at parts
  refine ⟨parts.1, parts.2.1, ?_, ?_⟩
  · intro interval mem
    simpa using List.mem_takeWhile_imp mem
  · intro interval mem
    cases reaches : intervals.dropWhile (·.finish < first) with
    | nil => simp [reaches] at mem
    | cons head rest =>
        have stops : first ≤ head.finish := by
          have failed := @List.head?_dropWhile_not _
            (fun interval : Interval => decide (interval.finish < first)) intervals
          simpa [reaches] using failed
        rw [reaches] at mem parts
        rcases List.mem_cons.1 mem with rfl | mem
        · exact stops
        · have apart := (ascending_cons.1 parts.2.1).2.1 interval mem
          have valid := parts.2.1.valid interval (by simp [mem])
          omega

theorem clear_ascending (ascending : Ascending intervals) (range : first ≤ last) :
    Ascending (clear first last intervals) := by
  obtain ⟨before, after, ends, reached⟩ := split_at_reach ascending
  have parts := ascending
  rw [← List.takeWhile_append_dropWhile (p := fun interval => interval.finish < first)
    (l := intervals), ascending_append] at parts
  refine ascending_append.2 ⟨before, clearReached_ascending after reached range, ?_⟩
  intro lower lowerMem upper upperMem
  exact clearReached_within lower.finish (parts.2.2 lower lowerMem) reached upper upperMem

theorem clear_holds (ascending : Ascending intervals) (range : first ≤ last)
    {low high : Nat} (ordered : low ≤ high) (near : high ≤ low + 1) :
    Holds (clear first last intervals) low high ↔
      Holds intervals low high ∧ (high < first ∨ last < low) := by
  obtain ⟨before, after, ends, reached⟩ := split_at_reach ascending
  have whole : Holds intervals low high ↔
      Holds (intervals.takeWhile (·.finish < first)) low high ∨
        Holds (intervals.dropWhile (·.finish < first)) low high := by
    rw [← holds_append, List.takeWhile_append_dropWhile]
  unfold clear
  rw [holds_append, clearReached_holds after reached range ordered near, whole]
  constructor
  · rintro (held | ⟨held, outside⟩)
    · obtain ⟨interval, mem, _, there⟩ := held
      have ended := ends interval mem
      exact ⟨Or.inl ⟨interval, mem, ‹_›, there⟩, Or.inl (lt_of_le_of_lt there.2 ended)⟩
    · exact ⟨Or.inr held, outside⟩
  · rintro ⟨held | held, outside⟩
    · exact Or.inl held
    · exact Or.inr ⟨held, outside⟩

/-- Clearing takes out the points of the range, and no other one. -/
theorem clear_covers (ascending : Ascending intervals) (range : first ≤ last)
    (point : Nat) :
    Covers (clear first last intervals) point ↔
      Covers intervals point ∧ (point < first ∨ last < point) := by
  rw [covers_iff_holds, covers_iff_holds]
  exact clear_holds ascending range le_rfl (Nat.le_succ _)

/-- Two neighbours outside the range stay together. -/
theorem clear_joins (ascending : Ascending intervals) (range : first ≤ last)
    (point : Nat) :
    Joins (clear first last intervals) point ↔
      Joins intervals point ∧ (point + 1 < first ∨ last < point) :=
  clear_holds ascending range (Nat.le_succ _) le_rfl

/-- What clearing leaves are parts of what was there. -/
theorem clearReached_parts (reached : ∀ interval ∈ intervals, first ≤ interval.finish) :
    ∀ part ∈ clearReached first last intervals, ∃ interval ∈ intervals,
      interval.start ≤ part.start ∧ part.finish ≤ interval.finish := by
  induction intervals with
  | nil => simp [clearReached]
  | cons interval rest ih =>
      have own := reached interval (by simp)
      have tail : ∀ part ∈ clearReached first last rest, ∃ other ∈ interval :: rest,
          other.start ≤ part.start ∧ part.finish ≤ other.finish := by
        intro part mem
        obtain ⟨other, otherMem, within⟩ :=
          ih (fun other mem => reached other (by simp [mem])) part mem
        exact ⟨other, List.mem_cons_of_mem _ otherMem, within⟩
      have kept : ∀ part ∈ rest, ∃ other ∈ interval :: rest,
          other.start ≤ part.start ∧ part.finish ≤ other.finish :=
        fun part mem => ⟨part, List.mem_cons_of_mem _ mem, le_rfl, le_rfl⟩
      have head : ∀ part : Interval, interval.start ≤ part.start →
          part.finish ≤ interval.finish → ∃ other ∈ interval :: rest,
            other.start ≤ part.start ∧ part.finish ≤ other.finish :=
        fun part lower upper => ⟨interval, List.mem_cons_self, lower, upper⟩
      intro part mem
      rw [clearReached] at mem
      split_ifs at mem with past inside front back
      · exact ⟨part, mem, le_rfl, le_rfl⟩
      · rcases List.mem_cons.1 mem with rfl | mem
        · exact head _ le_rfl (by simp only; omega)
        · rcases List.mem_cons.1 mem with rfl | mem
          · exact head _ (by simp only; omega) le_rfl
          · exact kept part mem
      · rcases List.mem_cons.1 mem with rfl | mem
        · exact head _ le_rfl (by simp only; omega)
        · exact tail part mem
      · rcases List.mem_cons.1 mem with rfl | mem
        · exact head _ (by simp only; omega) le_rfl
        · exact kept part mem
      · exact tail part mem

/-- The intervals below the one a point lies in end before the point, and no others. -/
theorem split_around {before after : List Interval} {interval : Interval}
    (ascending : Ascending (before ++ interval :: after)) (holds : interval.Contains first) :
    (before ++ interval :: after).takeWhile (·.finish < first) = before ∧
      (before ++ interval :: after).dropWhile (·.finish < first) = interval :: after := by
  obtain ⟨_, _, apart⟩ := ascending_append.1 ascending
  obtain ⟨lower, upper⟩ := holds
  have passed : ∀ other ∈ before, decide (other.finish < first) = true := by
    intro other mem
    have below := apart other mem interval (by simp)
    exact decide_eq_true (by omega)
  have stops : decide (interval.finish < first) = false := decide_eq_false (by omega)
  constructor
  · rw [List.takeWhile_append_of_pos passed]
    simp [stops]
  · rw [List.dropWhile_append_of_pos passed]
    simp [stops]

/-- Clearing up to an interval's end leaves those above it as they are. -/
theorem clearReached_above {before after : List Interval} {interval : Interval}
    (ascending : Ascending (before ++ interval :: after)) (ends : last ≤ interval.finish) :
    clearReached first last after = after := by
  obtain ⟨_, intervalAscending, _⟩ := ascending_append.1 ascending
  obtain ⟨_, above, _⟩ := ascending_cons.1 intervalAscending
  cases after with
  | nil => rfl
  | cons other others =>
      have start := above other (by simp)
      rw [clearReached, if_pos (by omega)]

/-- Clearing from inside an interval keeps those below it, leaves at most two
parts of it, and touches those above it only where it ends past it. -/
theorem clear_around {before after : List Interval} {interval : Interval}
    (ascending : Ascending (before ++ interval :: after)) (holds : interval.Contains first)
    (range : first ≤ last) :
    ∃ parts rest, clear first last (before ++ interval :: after) = before ++ (parts ++ rest) ∧
      parts.length ≤ 2 ∧
      (∀ part ∈ parts, interval.start ≤ part.start ∧ part.finish ≤ interval.finish) ∧
      (∀ part ∈ rest, ∃ other ∈ after,
        other.start ≤ part.start ∧ part.finish ≤ other.finish) ∧
      (last ≤ interval.finish → rest = after) := by
  obtain ⟨taken, dropped⟩ := split_around ascending holds
  obtain ⟨lower, upper⟩ := holds
  obtain ⟨_, intervalAscending, _⟩ := ascending_append.1 ascending
  obtain ⟨_, above, afterAscending⟩ := ascending_cons.1 intervalAscending
  have reached : ∀ other ∈ after, first ≤ other.finish := by
    intro other mem
    have start := above other mem
    have otherValid := afterAscending.valid other mem
    omega
  have untouched : last ≤ interval.finish → clearReached first last after = after :=
    clearReached_above ascending
  unfold clear
  rw [taken, dropped, clearReached, if_neg (by omega)]
  by_cases inside : interval.start < first ∧ last < interval.finish
  · rw [if_pos inside]
    refine ⟨[⟨interval.start, first - 1⟩, ⟨last + 1, interval.finish⟩], after, rfl, le_rfl,
      ?_, fun part mem => ⟨part, mem, le_rfl, le_rfl⟩, fun _ => rfl⟩
    simp only [List.mem_cons, List.not_mem_nil, or_false, forall_eq_or_imp, forall_eq]
    omega
  · rw [if_neg inside]
    by_cases front : interval.start < first
    · rw [if_pos front]
      refine ⟨[⟨interval.start, first - 1⟩], _, rfl, by simp, ?_,
        clearReached_parts reached, untouched⟩
      simp only [List.mem_singleton, forall_eq]
      omega
    · rw [if_neg front]
      by_cases back : last < interval.finish
      · rw [if_pos back]
        refine ⟨[⟨last + 1, interval.finish⟩], after, rfl, by simp, ?_,
          fun part mem => ⟨part, mem, le_rfl, le_rfl⟩, fun _ => rfl⟩
        simp only [List.mem_singleton, forall_eq]
        omega
      · rw [if_neg back]
        exact ⟨[], _, rfl, by simp, by simp, clearReached_parts reached, untouched⟩

/-- Clearing inside one interval leaves what it holds on either side. -/
theorem clear_inside {before after : List Interval} {interval : Interval}
    (ascending : Ascending (before ++ interval :: after)) (holds : interval.Contains first)
    (range : first ≤ last) (inside : last ≤ interval.finish) :
    clear first last (before ++ interval :: after) =
      before ++ ((if interval.start < first then [⟨interval.start, first - 1⟩] else []) ++
        (if last < interval.finish then [⟨last + 1, interval.finish⟩] else []) ++ after) := by
  obtain ⟨taken, dropped⟩ := split_around ascending holds
  obtain ⟨lower, upper⟩ := holds
  have untouched : clearReached first last after = after :=
    clearReached_above ascending inside
  unfold clear
  rw [taken, dropped, clearReached, if_neg (by omega)]
  by_cases front : interval.start < first
  · by_cases back : last < interval.finish
    · rw [if_pos ⟨front, back⟩, if_pos front, if_pos back]
      rfl
    · rw [if_neg (fun both => back both.2), if_pos front, if_pos front, if_neg back, untouched]
      rfl
  · rw [if_neg (fun both => front both.1), if_neg front, if_neg front]
    by_cases back : last < interval.finish
    · rw [if_pos back, if_pos back]
      rfl
    · rw [if_neg back, if_neg back, untouched]
      rfl

end Clear

/-! ## Breaking an interval -/

/-- End the interval that holds the point there, so that the next point starts
a new one. -/
def splitAfter (intervals : List Interval) (point : Nat) : List Interval :=
  match find intervals point with
  | none => intervals
  | some index =>
      let interval := intervals.getD index default
      if interval.finish = point then intervals
      else
        intervals.take index ++ ⟨interval.start, point⟩ ::
          ⟨point + 1, interval.finish⟩ :: intervals.drop (index + 1)

section Split

variable {intervals : List Interval} {point : Nat}

/-- The interval of a point stands between those below and those above it. -/
theorem exists_around (ascending : Ascending intervals) (covers : Covers intervals point) :
    ∃ before interval after, intervals = before ++ interval :: after ∧
      interval.Contains point ∧ find intervals point = some before.length := by
  obtain ⟨index, found⟩ := Option.isSome_iff_exists.1 ((find_isSome ascending).2 covers)
  obtain ⟨bound, contains⟩ := (find_eq_some ascending).1 found
  refine ⟨intervals.take index, intervals[index], intervals.drop (index + 1), ?_,
    contains, ?_⟩
  · rw [List.getElem_cons_drop bound, List.take_append_drop]
  · rw [found, List.length_take, min_eq_left (le_of_lt bound)]

theorem splitAfter_around {before after : List Interval} {interval : Interval}
    (found : find (before ++ interval :: after) point = some before.length) :
    splitAfter (before ++ interval :: after) point =
      if interval.finish = point then before ++ interval :: after
      else before ++ ⟨interval.start, point⟩ :: ⟨point + 1, interval.finish⟩ :: after := by
  unfold splitAfter
  rw [found]
  simp

theorem splitAfter_absent (absent : ¬ Covers intervals point)
    (ascending : Ascending intervals) : splitAfter intervals point = intervals := by
  unfold splitAfter
  rw [← find_isSome ascending, Option.not_isSome_iff_eq_none] at absent
  rw [absent]

theorem splitAfter_ascending (ascending : Ascending intervals) :
    Ascending (splitAfter intervals point) := by
  by_cases covers : Covers intervals point
  · obtain ⟨before, interval, after, rfl, contains, found⟩ :=
      exists_around ascending covers
    rw [splitAfter_around found]
    split_ifs with last
    · exact ascending
    · obtain ⟨lower, upper, across⟩ := ascending_append.1 ascending
      obtain ⟨valid, above, afterAscending⟩ := ascending_cons.1 upper
      obtain ⟨starts, ends⟩ := contains
      refine ascending_append.2 ⟨lower, ascending_cons.2 ⟨starts, ?_,
        ascending_cons.2 ⟨by simp only; omega, above, afterAscending⟩⟩, ?_⟩
      · intro other mem
        rcases List.mem_cons.1 mem with rfl | mem
        · exact Nat.lt_succ_self point
        · exact lt_of_le_of_lt ends (above other mem)
      · intro below belowMem other mem
        have apart := across below belowMem interval (by simp)
        rcases List.mem_cons.1 mem with rfl | mem
        · exact apart
        · rcases List.mem_cons.1 mem with rfl | mem
          · simp only
            omega
          · exact across below belowMem other (by simp [mem])
  · rwa [splitAfter_absent covers ascending]

theorem splitAfter_holds (ascending : Ascending intervals) {low high : Nat}
    (ordered : low ≤ high) (near : high ≤ low + 1) :
    Holds (splitAfter intervals point) low high ↔
      Holds intervals low high ∧ ¬ (low = point ∧ high = point + 1) := by
  by_cases covers : Covers intervals point
  · obtain ⟨before, interval, after, rfl, contains, found⟩ :=
      exists_around ascending covers
    obtain ⟨lower, upper, across⟩ := ascending_append.1 ascending
    have elsewhere : ∀ others : List Interval,
        (∀ other ∈ others, other.finish < interval.start ∨ interval.finish < other.start) →
        Holds others low high → ¬ (low = point ∧ high = point + 1) := by
      rintro others apart ⟨other, mem, here, _⟩ ⟨rfl, rfl⟩
      have away := apart other mem
      obtain ⟨starts, ends⟩ := contains
      obtain ⟨above, below⟩ := here
      omega
    have beforeAway := elsewhere before fun other mem =>
      Or.inl (across other mem interval (by simp))
    have afterAway := elsewhere after fun other mem =>
      Or.inr ((ascending_cons.1 upper).2.1 other mem)
    rw [splitAfter_around found]
    obtain ⟨starts, ends⟩ := contains
    split_ifs with last
    · simp only [holds_append, holds_cons, Interval.Contains]
      by_cases inBefore : Holds before low high
      · simp [inBefore, beforeAway inBefore]
      · by_cases inAfter : Holds after low high
        · simp [inAfter, afterAway inAfter]
        · simp only [inBefore, inAfter, false_or, or_false]
          omega
    · simp only [holds_append, holds_cons, Interval.Contains]
      by_cases inBefore : Holds before low high
      · simp [inBefore, beforeAway inBefore]
      · by_cases inAfter : Holds after low high
        · simp [inAfter, afterAway inAfter]
        · simp only [inBefore, inAfter, false_or, or_false]
          omega
  · rw [splitAfter_absent covers ascending]
    constructor
    · intro held
      refine ⟨held, ?_⟩
      rintro ⟨rfl, _⟩
      exact covers held.covers
    · exact And.left

/-- A break keeps every point. -/
theorem splitAfter_covers (ascending : Ascending intervals) (other : Nat) :
    Covers (splitAfter intervals point) other ↔ Covers intervals other := by
  rw [covers_iff_holds, covers_iff_holds,
    splitAfter_holds ascending le_rfl (Nat.le_succ _)]
  constructor
  · exact And.left
  · intro held
    exact ⟨held, by omega⟩

/-- A break parts the point from the next one, and no other neighbours. -/
theorem splitAfter_joins (ascending : Ascending intervals) (other : Nat) :
    Joins (splitAfter intervals point) other ↔ Joins intervals other ∧ other ≠ point := by
  apply (splitAfter_holds ascending (Nat.le_succ _) le_rfl).trans
  apply and_congr_right
  intro _
  omega

end Split

/-! ## Walking the intervals -/

/-- The first interval that ends at or after the cursor, from the cursor on. -/
def next (intervals : List Interval) (cursor : Nat) : Option Interval :=
  (intervals[reaching intervals cursor]?).map fun interval =>
    ⟨max interval.start cursor, interval.finish⟩

theorem next_skip {before after : List Interval} {cursor : Nat}
    (ascending : Ascending (before ++ after))
    (passed : ∀ interval ∈ before, interval.finish < cursor)
    (reached : ∀ interval ∈ after, cursor ≤ interval.start) :
    next (before ++ after) cursor = after.head? := by
  have parts := @reaching_partitions _ cursor ascending
  have index : reaching (before ++ after) cursor = before.length := by
    apply le_antisymm
    · by_contra past
      have below := parts.before before.length (Nat.zero_le _) (by omega)
      have inside : 0 < after.length := by
        have upper := parts.le_high
        rw [List.length_append] at upper
        omega
      have start := reached after[0] (List.getElem_mem inside)
      have valid := (ascending_append.1 ascending).2.1.valid after[0] (List.getElem_mem inside)
      rw [List.getD_eq_getElem _ _ (by rw [List.length_append]; omega)] at below
      simp only [List.getElem_append_right le_rfl, Nat.sub_self, decide_eq_true_eq] at below
      omega
    · by_contra early
      have stays := parts.after _ le_rfl (by rw [List.length_append]; omega)
      have ended := passed before[reaching (before ++ after) cursor]
        (List.getElem_mem (by omega))
      rw [List.getD_eq_getElem _ _ (by rw [List.length_append]; omega)] at stays
      rw [List.getElem_append_left (by omega)] at stays
      simp only [decide_eq_false_iff_not] at stays
      exact stays ended
  unfold next
  rw [index, List.getElem?_append_right le_rfl, Nat.sub_self, ← List.head?_eq_getElem?]
  cases after with
  | nil => rfl
  | cons head rest =>
      have start := reached head (by simp)
      simp [max_eq_left start]

end ShadowSpill.Library.Intervals
