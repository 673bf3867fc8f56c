import ShadowSpill.Library.AddressRanges
import ShadowSpill.Library.Bisection

/-!
# Merged occupancy lists

The addresses already taken are kept as sorted disjoint ranges.  Inserting a
range finds its neighbours by bisection and merges every range it touches.
`occupancyInsert_covers` says that the list then covers exactly the old
addresses and the new ones, and `WellFormed.insert` that it is still sorted.
-/

namespace ShadowSpill.Planner.PlacementOccupancy

open Library.AddressRanges Library.Bisection

/-- The addresses already taken, as sorted disjoint ranges. -/
abbrev Occupancy := List AddressRange

/-- Bisection for the first range that could touch a new one. -/
def firstTouching (list : Occupancy) (start : Nat) : Nat :=
  bisect (fun middle => decide ((list.getD middle default).finish < start))
    list.length 0 list.length

/-- One past the last range that touches the new one. -/
def lastTouching (list : Occupancy) (first finish : Nat) : Nat :=
  first + ((list.drop first).takeWhile
    (fun range => decide (range.start ≤ finish))).length

/-- `occupancy_insert`: add `[start, finish)` to the union. -/
def occupancyInsert (list : Occupancy) (start finish : Nat) : Occupancy :=
  let first := firstTouching list start
  let last := lastTouching list first finish
  if first = last then
    list.take first ++ ⟨start, finish⟩ :: list.drop first
  else
    let mergedStart :=
      if (list.getD first default).start < start then
        (list.getD first default).start
      else start
    let mergedFinish :=
      if finish < (list.getD (last - 1) default).finish then
        (list.getD (last - 1) default).finish
      else finish
    list.take first ++ ⟨mergedStart, mergedFinish⟩ :: list.drop last

/-- Nonempty ranges in ascending order, with a gap between neighbours. -/
structure WellFormed (list : Occupancy) : Prop where
  nonempty : ∀ range ∈ list, range.start < range.finish
  separated : list.Pairwise fun first second => first.finish < second.start

theorem wellFormed_nil : WellFormed [] :=
  ⟨by simp, List.Pairwise.nil⟩

theorem WellFormed.sortedStarts {list : Occupancy} (formed : WellFormed list) :
    list.Pairwise fun first second => first.start ≤ second.start :=
  formed.separated.imp_of_mem fun {first second} memFirst _ gap => by
    have := formed.nonempty first memFirst
    omega

theorem WellFormed.sublist {list part : Occupancy}
    (formed : WellFormed list) (sub : part.Sublist list) : WellFormed part :=
  ⟨fun range mem => formed.nonempty range (sub.subset mem),
    formed.separated.sublist sub⟩

theorem WellFormed.head_le {list : Occupancy} (formed : WellFormed list)
    (some_range : list ≠ []) :
    ∀ range ∈ list, (list.head some_range).start ≤ range.start := by
  cases list with
  | nil => exact absurd rfl some_range
  | cons head tail =>
      intro range mem
      rcases List.mem_cons.mp mem with rfl | inTail
      · exact le_rfl
      · exact (List.pairwise_cons.mp formed.sortedStarts).1 range inTail

theorem WellFormed.le_getLast {list : Occupancy} (formed : WellFormed list)
    (some_range : list ≠ []) :
    ∀ range ∈ list, range.finish ≤ (list.getLast some_range).finish := by
  intro range mem
  have split := List.dropLast_append_getLast some_range
  rw [← split] at mem
  rcases List.mem_append.mp mem with early | final
  · have separated := formed.separated
    rw [← split] at separated
    have gap := (List.pairwise_append.mp separated).2.2 range early
      (list.getLast some_range) (by simp)
    have nonempty := formed.nonempty _ (List.getLast_mem some_range)
    omega
  · rw [List.mem_singleton.mp final]

/-- How the two scans cut a list: the ranges before a new one, those it
touches, and those after it. -/
structure Cut (list before touched after : Occupancy) (start finish : Nat) :
    Prop where
  split : list = before ++ touched ++ after
  first_eq : firstTouching list start = before.length
  last_eq : lastTouching list before.length finish =
    before.length + touched.length
  before_lt : ∀ range ∈ before, range.finish < start
  touched_ge : ∀ range ∈ touched, start ≤ range.finish
  touched_le : ∀ range ∈ touched, range.start ≤ finish
  after_gt : ∀ range ∈ after, finish < range.start

theorem exists_cut {list : Occupancy} (formed : WellFormed list)
    (start finish : Nat) :
    ∃ before touched after, Cut list before touched after start finish := by
  have finishes : ∀ first second (bound : second < list.length),
      first ≤ second →
        (list.getD first default).finish ≤ (list.getD second default).finish := by
    intro first second bound ordered
    rcases Nat.lt_or_eq_of_le ordered with less | rfl
    · have gap := List.pairwise_iff_getElem.mp formed.separated first second
        (by omega) bound less
      have nonempty := formed.nonempty _ (List.getElem_mem bound)
      rw [List.getD_eq_getElem _ _ bound, List.getD_eq_getElem _ _ (by omega)]
      omega
    · exact le_rfl
  have partition : Partitions
      (fun middle => decide ((list.getD middle default).finish < start))
      0 list.length (firstTouching list start) := by
    apply bisect_partitions _ _ _ _ (by omega) (Nat.zero_le _)
    intro first second _ ordered bound held
    have := finishes first second bound ordered
    simp only [decide_eq_true_eq] at held ⊢
    omega
  let first := firstTouching list start
  let test := fun range : AddressRange => decide (range.start ≤ finish)
  have firstLe : first ≤ list.length := partition.le_high
  refine ⟨list.take first, (list.drop first).takeWhile test,
    (list.drop first).dropWhile test, ?_, ?_, ?_, ?_, ?_, ?_, ?_⟩
  · rw [List.append_assoc, List.takeWhile_append_dropWhile, List.take_append_drop]
  · simp [first, firstLe]
  · simp [lastTouching, firstLe, test]
  · intro range mem
    obtain ⟨index, bound, rfl⟩ := List.mem_iff_getElem.mp mem
    rw [List.length_take] at bound
    have held := partition.before index (Nat.zero_le _) (by omega)
    rw [List.getElem_take]
    rw [decide_eq_true_eq, List.getD_eq_getElem _ _ (by omega)] at held
    exact held
  · intro range mem
    obtain ⟨index, bound, rfl⟩ :=
      List.mem_iff_getElem.mp ((List.takeWhile_prefix test).subset mem)
    rw [List.length_drop] at bound
    have held := partition.after (first + index) (by omega) (by omega)
    rw [decide_eq_false_iff_not, List.getD_eq_getElem _ _ (by omega)] at held
    rw [List.getElem_drop]
    omega
  · intro range mem
    simpa [test] using List.mem_takeWhile_imp mem
  · have sorted : ((list.drop first).dropWhile test).Pairwise
        fun one two => one.start ≤ two.start :=
      formed.sortedStarts.sublist
        ((List.dropWhile_sublist test).trans (List.drop_sublist _ _))
    intro range mem
    cases remaining : (list.drop first).dropWhile test with
    | nil => simp [remaining] at mem
    | cons head tail =>
        have failed : test head = false := by
          have := List.head_dropWhile_not test (l := list.drop first)
            (by simp [remaining])
          simpa [remaining] using this
        have beyond : finish < head.start := by
          simpa [test] using failed
        rw [remaining] at mem sorted
        rcases List.mem_cons.mp mem with rfl | inTail
        · exact beyond
        · have := (List.pairwise_cons.mp sorted).1 range inTail
          omega

section Insert

variable {list before touched after : Occupancy} {start finish : Nat}

/-- Inserting replaces the touched ranges by one that spans them and the new
range. -/
theorem Cut.insert_eq (cut : Cut list before touched after start finish) :
    occupancyInsert list start finish =
      before ++
        ⟨(touched.head?.elim start fun range => min range.start start),
          (touched.getLast?.elim finish fun range => max range.finish finish)⟩ ::
        after := by
  have takeEq : list.take before.length = before := by
    rw [cut.split, List.append_assoc, List.take_left']
    rfl
  have dropEq : list.drop (before.length + touched.length) = after := by
    rw [cut.split, ← List.length_append, List.drop_left']
    rfl
  unfold occupancyInsert
  simp only [cut.first_eq, cut.last_eq, takeEq, dropEq]
  rcases List.eq_nil_or_concat touched with rfl | ⟨init, final, rfl⟩
  · have whole : list.drop before.length = after := by simpa using dropEq
    simp [whole]
  · have firstEq : list.getD before.length default =
        (init.concat final).head (by simp) := by
      rw [cut.split, List.append_assoc, List.getD_append_right _ _ _ _ le_rfl,
        Nat.sub_self, List.getD_append _ _ _ _ (by simp),
        List.getD_eq_getElem _ _ (by simp), List.head_eq_getElem]
    have lastEq :
        list.getD (before.length + (init.concat final).length - 1) default =
          final := by
      rw [cut.split, List.append_assoc,
        List.getD_append_right _ _ _ _ (by simp only [List.length_concat]; omega),
        List.getD_append _ _ _ _ (by simp only [List.length_concat]; omega)]
      simp
    rw [if_neg (by simp), firstEq, lastEq, List.head?_eq_some_head (by simp)]
    simp only [List.concat_eq_append, List.getLast?_append, List.getLast?_singleton,
      Option.some_or, Option.elim_some]
    congr 3
    · rw [min_def]
      split_ifs <;> omega
    · rw [max_def]
      split_ifs <;> omega

/-- The merged list covers exactly the old addresses and the new range. -/
theorem occupancyInsert_covers
    (formed : WellFormed list) (address : Nat) :
    Covers (occupancyInsert list start finish) address ↔
      Covers list address ∨ (start ≤ address ∧ address < finish) := by
  obtain ⟨before, touched, after, cut⟩ := exists_cut formed start finish
  rw [cut.insert_eq]
  have covers : Covers list address ↔
      Covers before address ∨ Covers touched address ∨ Covers after address := by
    rw [cut.split]
    simp
  rw [covers, covers_append, covers_cons]
  have merged :
      AddressRange.Contains
        ⟨(touched.head?.elim start fun range => min range.start start),
          (touched.getLast?.elim finish fun range => max range.finish finish)⟩
        address ↔
        Covers touched address ∨ (start ≤ address ∧ address < finish) := by
    unfold AddressRange.Contains
    by_cases none_touched : touched = []
    · simp [none_touched]
    have part : WellFormed touched := formed.sublist (by
      rw [cut.split, List.append_assoc]
      exact (List.sublist_append_left _ _).trans (List.sublist_append_right _ _))
    have headMem := List.head_mem none_touched
    have lastMem := List.getLast_mem none_touched
    have headTouch := cut.touched_ge _ headMem
    have lastTouch := cut.touched_le _ lastMem
    rw [List.head?_eq_some_head none_touched,
      List.getLast?_eq_some_getLast none_touched]
    simp only [Option.elim_some]
    constructor
    · rintro ⟨lower, upper⟩
      by_cases early : address < start
      · exact Or.inl ⟨_, headMem, by unfold AddressRange.Contains; omega⟩
      by_cases late : finish ≤ address
      · exact Or.inl ⟨_, lastMem, by unfold AddressRange.Contains; omega⟩
      · exact Or.inr ⟨by omega, by omega⟩
    · rintro (⟨range, mem, lower, upper⟩ | inside)
      · have above := part.head_le none_touched range mem
        have below := part.le_getLast none_touched range mem
        omega
      · omega
  rw [merged]
  tauto

theorem WellFormed.insert
    (formed : WellFormed list) (ordered : start < finish) :
    WellFormed (occupancyInsert list start finish) := by
  obtain ⟨before, touched, after, cut⟩ := exists_cut formed start finish
  rw [cut.insert_eq]
  have separated := formed.separated
  rw [cut.split, List.append_assoc] at separated
  obtain ⟨beforeSep, restSep, beforeRest⟩ := List.pairwise_append.mp separated
  obtain ⟨_, afterSep, touchedAfter⟩ := List.pairwise_append.mp restSep
  have beforeStart : ∀ range ∈ before,
      range.finish <
        touched.head?.elim start fun range => min range.start start := by
    intro range mem
    have early := cut.before_lt range mem
    cases touched with
    | nil => exact early
    | cons head tail =>
        have gap := beforeRest range mem head (by simp)
        simp only [List.head?_cons, Option.elim_some]
        omega
  have finishAfter : ∀ range ∈ after,
      (touched.getLast?.elim finish fun range => max range.finish finish) <
        range.start := by
    intro range mem
    have late := cut.after_gt range mem
    cases last : touched.getLast? with
    | none => exact late
    | some final =>
        have gap := touchedAfter final (List.mem_of_getLast? last) range mem
        simp only [Option.elim_some]
        omega
  have startLe :
      (touched.head?.elim start fun range => min range.start start) ≤ start := by
    cases touched <;> simp
  have finishGe :
      finish ≤
        touched.getLast?.elim finish fun range => max range.finish finish := by
    cases touched.getLast? <;> simp
  constructor
  · intro range mem
    rcases List.mem_append.mp mem with early | rest
    · exact formed.nonempty range (by rw [cut.split]; simp [early])
    · rcases List.mem_cons.mp rest with rfl | late
      · exact startLe.trans_lt (ordered.trans_le finishGe)
      · exact formed.nonempty range (by rw [cut.split]; simp [late])
  · refine List.pairwise_append.mpr ⟨beforeSep,
      List.pairwise_cons.mpr ⟨finishAfter, afterSep⟩, ?_⟩
    intro first early second rest
    rcases List.mem_cons.mp rest with rfl | late
    · exact beforeStart first early
    · exact beforeRest first early second (by simp [late])

end Insert

end ShadowSpill.Planner.PlacementOccupancy
