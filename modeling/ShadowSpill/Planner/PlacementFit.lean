import ShadowSpill.Library.Word64
import ShadowSpill.Planner.PlacementOccupancy

/-!
# The lowest fit over gathered lists

The gathered lists are merged by start through a binary heap of their heads,
and read only as far as the first gap that fits.  `headSiftDown_ordered` and
`headSiftDown_perm` are all that is used of the heap: the root has the least
start, and sifting only rearranges.  `lowestFit_spec` then says that the merge
answers the lowest fit over the union of the lists.
-/

namespace ShadowSpill.Planner.PlacementFit

open Library.AddressRanges Library.Word64 PlacementOccupancy

/-- One list's next unread range, keyed on its start. -/
structure Head where
  start : Nat
  list : Nat
  item : Nat
deriving DecidableEq, Repr, Inhabited

/-- The head at a heap position. -/
abbrev headAt (heap : List Head) (index : Nat) : Head :=
  heap.getD index default

/-- The child of `index` to exchange with, or `index` itself. -/
def smallestChild (heap : List Head) (index : Nat) : Nat :=
  let left := index * 2 + 1
  let right := left + 1
  let smallest :=
    if left < heap.length ∧
        (headAt heap left).start < (headAt heap index).start then left
    else index
  if right < heap.length ∧
      (headAt heap right).start < (headAt heap smallest).start then right
  else smallest

/-- Exchange two positions. -/
def swapHeads (heap : List Head) (first second : Nat) : List Head :=
  (heap.set first (headAt heap second)).set second (headAt heap first)

/-- `head_sift_down`. -/
def headSiftDown : Nat → List Head → Nat → List Head
  | 0, heap, _ => heap
  | fuel + 1, heap, index =>
      let smallest := smallestChild heap index
      if smallest = index then heap
      else headSiftDown fuel (swapHeads heap index smallest) smallest

/-- One head for each gathered list, at its first range. -/
def initialHeads (found : List Occupancy) : List Head :=
  found.zipIdx.map fun entry =>
    ⟨(entry.1.getD 0 default).start, entry.2, 0⟩

/-- The heads sifted from the last parent down to the root. -/
def heapify (heap : List Head) : List Head :=
  (List.range (heap.length / 2)).foldr
    (fun index sifted => headSiftDown sifted.length sifted index) heap

/-- Replace the root by its list's next range, or by the last head. -/
def advanceRoot (found : List Occupancy) (heap : List Head) : List Head :=
  let head := headAt heap 0
  let list := found.getD head.list []
  if head.item + 1 < list.length then
    heap.set 0 ⟨(list.getD (head.item + 1) default).start, head.list,
      head.item + 1⟩
  else
    (heap.set 0 (headAt heap (heap.length - 1))).dropLast

/-- The range the root stands for. -/
def rootRange (found : List Occupancy) (heap : List Head) : AddressRange :=
  (found.getD (headAt heap 0).list []).getD (headAt heap 0).item default

/-- The merge loop of `lowest_fit`. -/
def lowestFitLoop (found : List Occupancy) (needed alignment : Nat) :
    Nat → List Head → Nat → Option Nat
  | 0, _, _ => none
  | fuel + 1, heap, cursor =>
      if heap.length = 0 then some (alignUp64 cursor alignment)
      else
        let range := rootRange found heap
        if cursor < range.finish ∧
            wrap (alignUp64 cursor alignment + needed) ≤ range.start then
          some (alignUp64 cursor alignment)
        else
          let advanced := advanceRoot found heap
          lowestFitLoop found needed alignment fuel
            (headSiftDown advanced.length advanced 0)
            (if cursor < range.finish then range.finish else cursor)

/-- `lowest_fit`.  Each pass reads one range, so one pass more than there are
ranges empties the heap. -/
def lowestFit (found : List Occupancy) (needed alignment : Nat) : Option Nat :=
  lowestFitLoop found needed alignment
    ((found.map List.length).sum + 1) (heapify (initialHeads found)) 0

/-! ## The heap -/

theorem headAt_eq {heap : List Head} {index : Nat} (bound : index < heap.length) :
    headAt heap index = heap[index] :=
  List.getD_eq_getElem _ _ bound

@[simp]
theorem length_swapHeads (heap : List Head) (first second : Nat) :
    (swapHeads heap first second).length = heap.length := by
  simp [swapHeads]

theorem swapHeads_perm {heap : List Head} {first second : Nat}
    (firstBound : first < heap.length) (secondBound : second < heap.length) :
    (swapHeads heap first second).Perm heap := by
  rw [swapHeads, headAt_eq firstBound, headAt_eq secondBound]
  exact List.set_set_perm firstBound secondBound

theorem headAt_swapHeads {heap : List Head} {first second index : Nat}
    (bound : index < heap.length) :
    headAt (swapHeads heap first second) index =
      if index = second then headAt heap first
      else if index = first then headAt heap second
      else headAt heap index := by
  rw [headAt_eq (by simpa using bound)]
  simp only [swapHeads, List.getElem_set]
  split_ifs with a b c d <;> first | rfl | omega | exact (headAt_eq bound).symm

/-- The exchange goes to a child with a smaller start than both its sibling
and its parent, if there is one. -/
theorem smallestChild_spec (heap : List Head) (index : Nat) :
    let smallest := smallestChild heap index
    (smallest = index ∨
      ((smallest = index * 2 + 1 ∨ smallest = index * 2 + 1 + 1) ∧
        smallest < heap.length ∧
        (headAt heap smallest).start < (headAt heap index).start)) ∧
      ∀ child, (child = index * 2 + 1 ∨ child = index * 2 + 1 + 1) →
        child < heap.length →
          (headAt heap smallest).start ≤ (headAt heap child).start := by
  simp only [smallestChild]
  split_ifs with leftSmaller rightSmaller rightSmaller
  · refine ⟨Or.inr ⟨Or.inr rfl, by omega, by omega⟩, ?_⟩
    rintro child (rfl | rfl) bound
    · omega
    · exact le_rfl
  · refine ⟨Or.inr ⟨Or.inl rfl, by omega, by omega⟩, ?_⟩
    rintro child (rfl | rfl) bound
    · exact le_rfl
    · omega
  · refine ⟨Or.inr ⟨Or.inr rfl, by omega, by omega⟩, ?_⟩
    rintro child (rfl | rfl) bound
    · omega
    · exact le_rfl
  · refine ⟨Or.inl rfl, ?_⟩
    rintro child (rfl | rfl) bound
    · omega
    · omega

theorem headSiftDown_perm (fuel : Nat) (heap : List Head) (index : Nat) :
    index < heap.length → (headSiftDown fuel heap index).Perm heap := by
  induction fuel generalizing heap index with
  | zero => exact fun _ => List.Perm.refl heap
  | succ fuel ih =>
      intro bound
      rw [headSiftDown]
      by_cases stop : smallestChild heap index = index
      · simp [stop]
      · have spec := (smallestChild_spec heap index).1
        have smaller := spec.resolve_left stop
        simp only [stop, if_false]
        exact (ih _ _ (by simpa using smaller.2.1)).trans
          (swapHeads_perm bound smaller.2.1)

/-- Every parent from position `low` on has a start at most its children's. -/
def OrderedFrom (heap : List Head) (low : Nat) : Prop :=
  ∀ child, 0 < child → child < heap.length → low ≤ (child - 1) / 2 →
    (headAt heap ((child - 1) / 2)).start ≤ (headAt heap child).start

/-- The order holds from `low` on except between `hole` and its children; the
hole's parent is no later than those children. -/
structure OrderedExcept (heap : List Head) (low hole : Nat) : Prop where
  others : ∀ child, 0 < child → child < heap.length → low ≤ (child - 1) / 2 →
    (child - 1) / 2 ≠ hole →
      (headAt heap ((child - 1) / 2)).start ≤ (headAt heap child).start
  around : ∀ child, 0 < child → child < heap.length → (child - 1) / 2 = hole →
    0 < hole → low ≤ (hole - 1) / 2 →
      (headAt heap ((hole - 1) / 2)).start ≤ (headAt heap child).start

theorem headSiftDown_ordered
    {fuel : Nat} {heap : List Head} {low hole : Nat}
    (ordered : OrderedExcept heap low hole)
    (reached : low ≤ hole)
    (enough : heap.length ≤ hole + fuel) :
    OrderedFrom (headSiftDown fuel heap hole) low := by
  induction fuel generalizing heap hole with
  | zero =>
      intro child positive bound above
      exact ordered.others child positive bound above (by
        rw [headSiftDown] at bound
        omega)
  | succ fuel ih =>
      have spec := smallestChild_spec heap hole
      rw [headSiftDown]
      by_cases stop : smallestChild heap hole = hole
      · simp only [stop, if_true]
        intro child positive bound above
        by_cases same : (child - 1) / 2 = hole
        · have smallest := spec.2 child (by omega) bound
          rw [stop] at smallest
          rw [same]
          exact smallest
        · exact ordered.others child positive bound above same
      · obtain ⟨isChild, childBound, less⟩ := spec.1.resolve_left stop
        have least := spec.2
        simp only [stop, if_false]
        generalize smallestChild heap hole = smallest at *
        have holeBound : hole < heap.length := by omega
        have at_ := fun (index : Nat) (bound : index < heap.length) =>
          @headAt_swapHeads heap hole smallest index bound
        refine ih ⟨?_, ?_⟩ (by omega) (by simp only [length_swapHeads]; omega)
        · intro child positive bound above apart
          rw [length_swapHeads] at bound
          rw [at_ child bound, at_ _ (by omega : (child - 1) / 2 < heap.length)]
          rw [if_neg apart]
          by_cases isSmallest : child = smallest
          · subst isSmallest
            have parent : (child - 1) / 2 = hole := by omega
            simp only [parent, if_true]
            exact less.le
          by_cases isHole : child = hole
          · subst isHole
            have around := ordered.around smallest (by omega) childBound
              (by omega) positive above
            rw [if_neg isSmallest, if_pos rfl, if_neg (by omega)]
            exact around
          · rw [if_neg isSmallest, if_neg isHole]
            by_cases sibling : (child - 1) / 2 = hole
            · rw [if_pos sibling]
              exact least child (by omega) bound
            · rw [if_neg sibling]
              exact ordered.others child positive bound above sibling
        · intro child positive bound parent _ above
          rw [length_swapHeads] at bound
          have holeParent : (smallest - 1) / 2 = hole := by omega
          rw [holeParent] at above ⊢
          rw [at_ child bound, at_ hole holeBound, if_neg (by omega), if_pos rfl,
            if_neg (by omega), if_neg (by omega)]
          have below := ordered.others child positive bound (by omega) (by omega)
          rwa [parent] at below

/-- The root of an ordered heap starts no later than any other head. -/
theorem OrderedFrom.root_le {heap : List Head} (ordered : OrderedFrom heap 0) :
    ∀ head ∈ heap, (headAt heap 0).start ≤ head.start := by
  have positions : ∀ index, index < heap.length →
      (headAt heap 0).start ≤ (headAt heap index).start := by
    intro index
    induction index using Nat.strong_induction_on with
    | _ index ih =>
        intro bound
        rcases Nat.eq_zero_or_pos index with rfl | positive
        · exact le_rfl
        · exact (ih ((index - 1) / 2) (by omega) (by omega)).trans
            (ordered index positive bound (Nat.zero_le _))
  intro head mem
  obtain ⟨index, bound, rfl⟩ := List.mem_iff_getElem.mp mem
  rw [← headAt_eq bound]
  exact positions index bound

theorem heapify_spec (heap : List Head) :
    OrderedFrom (heapify heap) 0 ∧ (heapify heap).Perm heap := by
  have sifted : ∀ (low : Nat) (partial_ : List Head),
      OrderedFrom partial_ low → low ≤ partial_.length →
      OrderedFrom ((List.range low).foldr
        (fun index sifted => headSiftDown sifted.length sifted index) partial_) 0 ∧
      ((List.range low).foldr
        (fun index sifted => headSiftDown sifted.length sifted index)
        partial_).Perm partial_ := by
    intro low
    induction low with
    | zero => exact fun _ ordered _ => ⟨ordered, List.Perm.refl _⟩
    | succ low ih =>
        intro partial_ ordered bound
        have perm := headSiftDown_perm partial_.length partial_ low (by omega)
        have once : OrderedFrom
            (headSiftDown partial_.length partial_ low) low := by
          refine headSiftDown_ordered ⟨?_, ?_⟩ le_rfl (by omega)
          · intro child positive inside above apart
            exact ordered child positive inside (by omega)
          · intro child _ _ _ _ above
            omega
        have rest := ih _ once (by rw [perm.length_eq]; omega)
        rw [List.range_succ, List.foldr_append]
        exact ⟨rest.1, rest.2.trans perm⟩
  refine sifted _ heap ?_ (Nat.div_le_self _ _)
  intro child positive bound above
  omega

/-! ## The merge -/

section Merge

variable {found : List Occupancy} {needed alignment : Nat}

/-- The list a head reads. -/
abbrev listOf (found : List Occupancy) (head : Head) : Occupancy :=
  found.getD head.list []

/-- A head names an unread range of a gathered list. -/
structure Head.Valid (found : List Occupancy) (head : Head) : Prop where
  list_lt : head.list < found.length
  item_lt : head.item < (listOf found head).length
  start_eq : head.start = ((listOf found head).getD head.item default).start

/-- Ranges still to be read. -/
def remaining (found : List Occupancy) (heap : List Head) : Nat :=
  (heap.map fun head => (listOf found head).length - head.item).sum

/-- Every range is still to be read or ends at or below the cursor. -/
def Passed (found : List Occupancy) (heap : List Head) (cursor : Nat) : Prop :=
  ∀ list < found.length, ∀ item < (found.getD list []).length,
    (∃ head ∈ heap, head.list = list ∧ head.item ≤ item) ∨
      ((found.getD list []).getD item default).finish ≤ cursor

theorem remaining_perm {first second : List Head} (perm : first.Perm second) :
    remaining found first = remaining found second :=
  (perm.map _).sum_eq

theorem Passed.perm {first second : List Head} {cursor : Nat}
    (perm : first.Perm second) (passed : Passed found first cursor) :
    Passed found second cursor := by
  intro list listBound item itemBound
  refine (passed list listBound item itemBound).imp_left ?_
  rintro ⟨head, mem, rest⟩
  exact ⟨head, perm.mem_iff.mp mem, rest⟩

/-- The root moves to its list's next range, or leaves the heap. -/
theorem advanceRoot_cons (found : List Occupancy) (root : Head) (tail : List Head) :
    (root.item + 1 < (listOf found root).length ∧
        advanceRoot found (root :: tail) =
          ⟨((listOf found root).getD (root.item + 1) default).start, root.list,
            root.item + 1⟩ :: tail) ∨
      ((listOf found root).length ≤ root.item + 1 ∧
        (advanceRoot found (root :: tail)).Perm tail) := by
  by_cases more : root.item + 1 < (listOf found root).length
  · left
    refine ⟨more, ?_⟩
    simp [advanceRoot, headAt, listOf] at more ⊢
    simp [more]
  · right
    refine ⟨by omega, ?_⟩
    simp only [listOf] at more
    simp only [advanceRoot, headAt, List.getD_cons_zero, more, if_false]
    rcases List.eq_nil_or_concat tail with rfl | ⟨init, final, rfl⟩
    · simp
    · simp only [List.concat_eq_append, List.set_cons_zero, List.length_cons,
        List.length_append, List.length_nil, Nat.add_sub_cancel]
      rw [← List.cons_append, List.dropLast_concat]
      have last : (root :: (init ++ [final])).getD (init.length + (0 + 1)) default =
          final := by simp
      rw [last]
      exact (List.perm_append_singleton final init).symm

theorem headAt_advanceRoot {root : Head} {tail : List Head} {index : Nat}
    (positive : 0 < index)
    (bound : index < (advanceRoot found (root :: tail)).length) :
    headAt (advanceRoot found (root :: tail)) index =
      headAt (root :: tail) index := by
  unfold advanceRoot at bound ⊢
  simp only [headAt, List.getD_cons_zero] at bound ⊢
  split_ifs at bound ⊢ with more
  · rw [List.set_cons_zero]
    cases index with
    | zero => omega
    | succ index => simp
  · rw [List.set_cons_zero] at bound ⊢
    rw [List.length_dropLast] at bound
    cases index with
    | zero => omega
    | succ index =>
        have inTail : index < tail.length := by
          simp only [List.length_cons] at bound
          omega
        rw [List.getD_eq_getElem _ _ (by
            rw [List.length_dropLast, List.length_cons]; omega),
          List.getElem_dropLast, List.getElem_cons_succ, List.getD_cons_succ,
          List.getD_eq_getElem _ _ inTail]

theorem length_advanceRoot_le (found : List Occupancy) (root : Head) (tail : List Head) :
    (advanceRoot found (root :: tail)).length ≤ (root :: tail).length := by
  rcases advanceRoot_cons found root tail with ⟨_, equal⟩ | ⟨_, perm⟩
  · simp [equal]
  · rw [perm.length_eq]
    simp

/-- The heap is ordered except at its root after the root has moved. -/
theorem advanceRoot_ordered (found : List Occupancy) {root : Head}
    {tail : List Head}
    (ordered : OrderedFrom (root :: tail) 0) :
    OrderedExcept (advanceRoot found (root :: tail)) 0 0 := by
  have shorter := length_advanceRoot_le found root tail
  constructor
  · intro child positive bound _ apart
    rw [headAt_advanceRoot (by omega) (by omega), headAt_advanceRoot positive bound]
    exact ordered child positive (by omega) (Nat.zero_le _)
  · intro _ _ _ _ positive
    omega

theorem advanceRoot_valid {root : Head} {tail : List Head}
    (valid : ∀ head ∈ root :: tail, head.Valid found) :
    ∀ head ∈ advanceRoot found (root :: tail), head.Valid found := by
  have rootValid := valid root (by simp)
  rcases advanceRoot_cons found root tail with ⟨more, equal⟩ | ⟨_, perm⟩
  · rw [equal]
    intro head mem
    rcases List.mem_cons.mp mem with rfl | inTail
    · exact ⟨rootValid.list_lt, more, rfl⟩
    · exact valid head (by simp [inTail])
  · intro head mem
    exact valid head (List.mem_cons_of_mem _ (perm.mem_iff.mp mem))

theorem remaining_advanceRoot {root : Head} (tail : List Head)
    (valid : root.Valid found) :
    remaining found (advanceRoot found (root :: tail)) <
      remaining found (root :: tail) := by
  have bound := valid.item_lt
  rcases advanceRoot_cons found root tail with ⟨more, equal⟩ | ⟨_, perm⟩
  · rw [equal]
    simp only [remaining, List.map_cons, List.sum_cons, listOf] at bound ⊢
    omega
  · rw [remaining_perm perm]
    simp only [remaining, List.map_cons, List.sum_cons]
    omega

theorem Passed.advance {root : Head} {tail : List Head} {cursor next : Nat}
    (passed : Passed found (root :: tail) cursor)
    (rises : cursor ≤ next)
    (covers : (rootRange found (root :: tail)).finish ≤ next) :
    Passed found (advanceRoot found (root :: tail)) next := by
  intro list listBound item itemBound
  rcases passed list listBound item itemBound with ⟨head, mem, rfl, le⟩ | ended
  · have kept : ∀ head ∈ tail, head ∈ advanceRoot found (root :: tail) := by
      intro head inTail
      rcases advanceRoot_cons found root tail with
        ⟨_, equal⟩ | ⟨_, perm⟩
      · simp [equal, inTail]
      · exact perm.mem_iff.mpr inTail
    rcases List.mem_cons.mp mem with rfl | inTail
    · rcases Nat.eq_or_lt_of_le le with rfl | later
      · exact Or.inr covers
      · left
        rcases advanceRoot_cons found head tail with
          ⟨_, equal⟩ | ⟨short, _⟩
        · rw [equal]
          exact ⟨_, List.mem_cons_self, rfl, later⟩
        · simp only [listOf] at short
          omega
    · exact Or.inl ⟨head, kept head inTail, rfl, le⟩
  · exact Or.inr (ended.trans rises)

/-- A range of a gathered list is unread, behind a head that starts no later,
or it ends at or below the cursor. -/
theorem Passed.unread_or_ended {heap : List Head} {cursor : Nat}
    (passed : Passed found heap cursor)
    (valid : ∀ head ∈ heap, head.Valid found)
    (formed : ∀ list ∈ found, WellFormed list)
    {list : Occupancy} (inFound : list ∈ found)
    {range : AddressRange} (inList : range ∈ list) :
    (∃ head ∈ heap, head.start ≤ range.start) ∨ range.finish ≤ cursor := by
  obtain ⟨index, indexBound, rfl⟩ := List.mem_iff_getElem.mp inFound
  obtain ⟨item, itemBound, rfl⟩ := List.mem_iff_getElem.mp inList
  have split := passed index indexBound item (by
    rwa [List.getD_eq_getElem _ _ indexBound])
  rw [List.getD_eq_getElem _ _ indexBound,
    List.getD_eq_getElem _ _ itemBound] at split
  refine split.imp_left ?_
  rintro ⟨head, headMem, rfl, le⟩
  have headValid := valid head headMem
  have start_eq := headValid.start_eq
  simp only [listOf] at start_eq
  rw [List.getD_eq_getElem _ _ headValid.list_lt,
    List.getD_eq_getElem _ _ (by omega)] at start_eq
  refine ⟨head, headMem, start_eq.le.trans ?_⟩
  rcases Nat.eq_or_lt_of_le le with rfl | less
  · exact le_rfl
  · exact List.pairwise_iff_getElem.mp
      (formed _ (List.getElem_mem indexBound)).sortedStarts
      _ _ (by omega) itemBound less

/-- The addresses of the gathered ranges. -/
def Gathered (found : List Occupancy) (address : Nat) : Prop :=
  ∃ list ∈ found, Covers list address

/-- The cursor is at the bottom or right above a taken address. -/
def Met (occupied : Nat → Prop) (cursor : Nat) : Prop :=
  cursor = 0 ∨ occupied (cursor - 1)

/-- Every answer of the merge is a cursor rounded up. -/
theorem lowestFitLoop_cursor
    {fuel : Nat} {heap : List Head} {cursor offset : Nat}
    (formed : ∀ list ∈ found, WellFormed list)
    (ends : ∀ list ∈ found, ∀ range ∈ list, range.finish < modulus)
    (below : cursor < modulus) (met : Met (Gathered found) cursor)
    (result : lowestFitLoop found needed alignment fuel heap cursor = some offset) :
    ∃ final, cursor ≤ final ∧ final < modulus ∧ Met (Gathered found) final ∧
      offset = alignUp64 final alignment := by
  induction fuel generalizing heap cursor with
  | zero => simp [lowestFitLoop] at result
  | succ fuel ih =>
      rw [lowestFitLoop] at result
      by_cases stop : heap.length = 0
      · rw [if_pos stop] at result
        exact ⟨cursor, le_rfl, below, met, (Option.some.inj result).symm⟩
      simp only [stop, if_false] at result
      split_ifs at result with fit beyond
      · exact ⟨cursor, le_rfl, below, met, (Option.some.inj result).symm⟩
      · have read : ∃ list ∈ found, rootRange found heap ∈ list := by
          unfold rootRange at beyond ⊢
          by_cases list : (headAt heap 0).list < found.length
          · rw [List.getD_eq_getElem _ _ list] at beyond ⊢
            by_cases item : (headAt heap 0).item < found[(headAt heap 0).list].length
            · rw [List.getD_eq_getElem _ _ item]
              exact ⟨_, List.getElem_mem list, List.getElem_mem item⟩
            · rw [List.getD_eq_default _ _ (not_lt.mp item)] at beyond
              exact absurd beyond (Nat.not_lt_zero _)
          · rw [List.getD_eq_default _ _ (not_lt.mp list), List.getD_nil] at beyond
            exact absurd beyond (Nat.not_lt_zero _)
        obtain ⟨list, mem, inList⟩ := read
        have nonempty := (formed list mem).nonempty _ inList
        obtain ⟨final, above, rest⟩ := ih (ends list mem _ inList)
          (Or.inr ⟨list, mem, _, inList, by omega, by omega⟩) result
        exact ⟨final, beyond.le.trans above, rest⟩
      · exact ih below met result

/-- No sum on the way to an offset wraps: its request ends within 64 bits, and so
does the rounding up past every taken address below it. -/
structure Within (occupied : Nat → Prop) (needed alignment offset : Nat) : Prop where
  ends : offset + needed < modulus
  rounds : ∀ address, occupied address → address < offset →
    address + alignment < modulus

/-- What tells that no sum on the way to an answer wrapped: a lowest fit within 64
bits, or an answer within 64 bits that is no rounding wrapped to the bottom. -/
def Stays (occupied : Nat → Prop) (needed alignment offset : Nat) : Prop :=
  (∃ fit, IsLowestFit occupied needed alignment fit ∧
      Within occupied needed alignment fit) ∨
    ((0 < offset ∨ ∀ address, occupied address → address + alignment < modulus) ∧
      offset + needed < modulus)

/-- Then no sum at the cursor wraps. -/
theorem cursor_exact
    {occupied : Nat → Prop} {cursor offset final : Nat}
    (positive : 0 < alignment) (small : alignment ≤ modulus)
    (bounded : Bounded occupied needed alignment cursor)
    (met : Met occupied cursor)
    (above : cursor ≤ final) (finalBelow : final < modulus)
    (finalMet : Met occupied final)
    (rounded : offset = alignUp64 final alignment)
    (stays : Stays occupied needed alignment offset) :
    cursor + (alignment - 1) < modulus ∧
      alignUp cursor alignment + needed < modulus := by
  rcases stays with ⟨fit, lowest, within⟩ | ⟨lifted, ends⟩
  · have under := bounded fit lowest.aligned lowest.clears
    have raised := alignUp_le_of_dvd positive lowest.aligned under
    have fitEnds := within.ends
    refine ⟨?_, by omega⟩
    rcases met with rfl | taken
    · omega
    · rcases Nat.eq_zero_or_pos cursor with zero | some_cursor
      · omega
      · have rounds := within.rounds _ taken (by omega)
        omega
  · by_cases wraps : modulus ≤ final + (alignment - 1)
    · rw [rounded, alignUp64_of_wraps finalBelow small wraps] at lifted
      rcases lifted with none | clear
      · exact absurd none (lt_irrefl 0)
      · rcases finalMet with rfl | taken
        · omega
        · have rounds := clear _ taken
          omega
    · rw [rounded, alignUp64_eq positive (by omega)] at ends
      have raised : alignUp cursor alignment ≤ alignUp final alignment :=
        alignUp_le_of_dvd positive (dvd_alignUp final alignment)
          (above.trans (le_alignUp final positive))
      exact ⟨by omega, by omega⟩

/-- The cursor rounded up is the lowest fit where what is taken stands below the
cursor or behind the request. -/
theorem fit_at_cursor
    {occupied : Nat → Prop} {cursor : Nat}
    (positive : 0 < alignment)
    (bounded : Bounded occupied needed alignment cursor)
    (fits : cursor + (alignment - 1) < modulus)
    (sumFits : alignUp cursor alignment + needed < modulus)
    (separated : ∀ address, occupied address →
      address < cursor ∨ alignUp cursor alignment + needed ≤ address) :
    IsLowestFit occupied needed alignment (alignUp64 cursor alignment) ∧
      Within occupied needed alignment (alignUp64 cursor alignment) := by
  rw [alignUp64_eq positive fits]
  refine ⟨bounded.fit_of_gap positive separated, sumFits, ?_⟩
  intro address held under
  rcases separated address held with early | late <;> omega

/-- The merge always ends, and what it answers is the lowest fit over the
gathered addresses as long as nothing wraps. -/
theorem lowestFitLoop_spec
    (needed alignment fuel : Nat) (heap : List Head) (cursor : Nat)
    (valid : ∀ head ∈ heap, head.Valid found)
    (ordered : OrderedFrom heap 0)
    (enough : remaining found heap < fuel) :
    ∃ offset,
      lowestFitLoop found needed alignment fuel heap cursor = some offset ∧
        (0 < needed → 0 < alignment → alignment ≤ modulus →
          (∀ list ∈ found, WellFormed list) →
          (∀ list ∈ found, ∀ range ∈ list, range.finish < modulus) →
          cursor < modulus →
          Passed found heap cursor →
          Met (Gathered found) cursor →
          Bounded (Gathered found) needed alignment cursor →
          Stays (Gathered found) needed alignment offset →
          IsLowestFit (Gathered found) needed alignment offset ∧
            Within (Gathered found) needed alignment offset) := by
  induction fuel generalizing heap cursor with
  | zero => omega
  | succ fuel ih =>
      cases heap with
      | nil =>
          refine ⟨alignUp64 cursor alignment, by simp [lowestFitLoop], ?_⟩
          intro _ positive small formed ends below passed met bounded stays
          obtain ⟨fits, sumFits⟩ :=
            cursor_exact positive small bounded met le_rfl below met rfl stays
          refine fit_at_cursor positive bounded fits sumFits ?_
          rintro address ⟨list, mem, range, inList, _, upper⟩
          rcases passed.unread_or_ended valid formed mem inList with
            ⟨head, none, _⟩ | ended
          · simp at none
          · exact Or.inl (by omega)
      | cons root tail =>
          have rootValid := valid root (by simp)
          have rootMem : rootRange found (root :: tail) ∈
              found.getD root.list [] := by
            have bound := rootValid.item_lt
            simp only [rootRange, headAt, List.getD_cons_zero]
            rw [List.getD_eq_getElem _ _ bound]
            exact List.getElem_mem bound
          have listMem : found.getD root.list [] ∈ found := by
            rw [List.getD_eq_getElem _ _ rootValid.list_lt]
            exact List.getElem_mem rootValid.list_lt
          have rootStart :
              root.start = (rootRange found (root :: tail)).start := by
            simpa [rootRange, headAt] using rootValid.start_eq
          have cursors := @lowestFitLoop_cursor found needed alignment (fuel + 1)
            (root :: tail) cursor
          rw [lowestFitLoop] at cursors ⊢
          simp only [List.length_cons, Nat.add_one_ne_zero, if_false] at cursors ⊢
          generalize rootRange_eq : rootRange found (root :: tail) = range at *
          by_cases fit : cursor < range.finish ∧
              wrap (alignUp64 cursor alignment + needed) ≤ range.start
          · refine ⟨_, by rw [if_pos fit], ?_⟩
            intro _ positive small formed ends below passed met bounded stays
            obtain ⟨fits, sumFits⟩ :=
              cursor_exact positive small bounded met le_rfl below met rfl stays
            rw [alignUp64_eq positive fits, wrap_eq sumFits] at fit
            refine fit_at_cursor positive bounded fits sumFits ?_
            -- Every unread range starts at or after the root's.
            rintro address ⟨list, mem, other, inList, lower, upper⟩
            rcases passed.unread_or_ended valid formed mem inList with
              ⟨head, headMem, le⟩ | ended
            · have least := ordered.root_le head headMem
              simp only [headAt, List.getD_cons_zero] at least
              exact Or.inr (by omega)
            · exact Or.inl (by omega)
          · have perm := headSiftDown_perm
              (advanceRoot found (root :: tail)).length
              (advanceRoot found (root :: tail)) 0
            have fewer := remaining_advanceRoot tail rootValid
            have advanced := advanceRoot_ordered found ordered
            have advancedValid := advanceRoot_valid valid
            have passedOn := fun (next : Nat) (passed : Passed found _ cursor)
              (rises : cursor ≤ next) (reaches : range.finish ≤ next) =>
                passed.advance rises (by rw [rootRange_eq]; exact reaches)
            generalize advanceRoot found (root :: tail) = rest at *
            have sifted : (headSiftDown rest.length rest 0).Perm rest := by
              rcases Nat.eq_zero_or_pos rest.length with none | some
              · rw [List.length_eq_zero_iff.mp none]
                rfl
              · exact perm some
            obtain ⟨offset, result, spec⟩ := ih
              (headSiftDown rest.length rest 0)
              (if cursor < range.finish then range.finish else cursor)
              (fun head mem => advancedValid head (sifted.mem_iff.mp mem))
              (headSiftDown_ordered advanced le_rfl (by omega))
              (by rw [remaining_perm sifted]; omega)
            refine ⟨offset, by rw [if_neg fit]; exact result, ?_⟩
            intro some_needed positive small formed ends below passed met bounded
              stays
            have finishLe := ends _ listMem range rootMem
            have nonempty := (formed _ listMem).nonempty range rootMem
            have inRange : ∀ address, range.Contains address →
                Gathered found address := fun address contains =>
              ⟨_, listMem, range, rootMem, contains⟩
            obtain ⟨final, above, finalBelow, finalMet, rounded⟩ :=
              cursors formed ends below met (by rw [if_neg fit]; exact result)
            obtain ⟨fits, sumFits⟩ := cursor_exact positive small bounded met above
              finalBelow finalMet rounded stays
            refine spec some_needed positive small formed ends ?_ ?_ ?_ ?_ stays
            · split_ifs <;> omega
            · refine (passedOn _ passed ?_ ?_).perm sifted.symm <;>
                split_ifs <;> omega
            · split_ifs
              · exact Or.inr (inRange _ ⟨by omega, by omega⟩)
              · exact met
            · split_ifs with beyond
              · rw [alignUp64_eq positive fits, wrap_eq sumFits] at fit
                exact bounded.advance positive some_needed inRange nonempty (by omega)
              · exact bounded

end Merge

/-- The heads before any range is read. -/
theorem initialHeads_spec
    (found : List Occupancy) (nonempty : ∀ list ∈ found, list ≠ []) :
    (∀ head ∈ initialHeads found, head.Valid found) ∧
      Passed found (initialHeads found) 0 ∧
      remaining found (initialHeads found) = (found.map List.length).sum := by
  have entries : ∀ entry ∈ found.zipIdx, found.getD entry.2 [] = entry.1 ∧
      entry.2 < found.length := by
    intro entry mem
    obtain ⟨bound, equal⟩ := List.mem_zipIdx' mem
    exact ⟨by rw [List.getD_eq_getElem _ _ bound, equal], bound⟩
  refine ⟨?_, ?_, ?_⟩
  · intro head mem
    obtain ⟨entry, inList, rfl⟩ := List.mem_map.mp mem
    obtain ⟨equal, bound⟩ := entries entry inList
    have some_range := nonempty entry.1 (by
      rw [← equal, List.getD_eq_getElem _ _ bound]
      exact List.getElem_mem bound)
    refine ⟨bound, ?_, ?_⟩
    · simp only [listOf, equal]
      exact List.length_pos_iff.mpr some_range
    · simp only [listOf, equal]
  · intro list listBound item itemBound
    refine Or.inl ⟨⟨((found[list]).getD 0 default).start, list, 0⟩, ?_, rfl,
      Nat.zero_le _⟩
    exact List.mem_map.mpr ⟨(found[list], list),
      List.mk_mem_zipIdx_iff_getElem?.mpr (by simp [listBound]), rfl⟩
  · simp only [remaining, initialHeads, List.map_map]
    have same : ∀ entry ∈ found.zipIdx,
        ((fun head => (listOf found head).length - head.item) ∘
          fun entry : Occupancy × Nat =>
            (⟨(entry.1.getD 0 default).start, entry.2, 0⟩ : Head)) entry =
          (List.length ∘ Prod.fst) entry := by
      intro entry mem
      simp only [Function.comp_apply, listOf, (entries entry mem).1, Nat.sub_zero]
    rw [List.map_congr_left same, ← List.map_map, List.zipIdx_map_fst]

/-- `lowest_fit` answers the lowest aligned offset clearing every gathered
range, provided the arithmetic on it does not wrap. -/
theorem lowestFit_spec
    (found : List Occupancy) (needed alignment : Nat)
    (nonempty : ∀ list ∈ found, list ≠ []) :
    ∃ offset, lowestFit found needed alignment = some offset ∧
      (0 < needed → 0 < alignment → alignment ≤ modulus →
        (∀ list ∈ found, WellFormed list) →
        (∀ list ∈ found, ∀ range ∈ list, range.finish < modulus) →
        Stays (Gathered found) needed alignment offset →
        IsLowestFit (Gathered found) needed alignment offset ∧
          Within (Gathered found) needed alignment offset) := by
  obtain ⟨valid, passed, total⟩ := initialHeads_spec found nonempty
  obtain ⟨ordered, perm⟩ := heapify_spec (initialHeads found)
  obtain ⟨offset, result, spec⟩ := lowestFitLoop_spec needed alignment
    ((found.map List.length).sum + 1) (heapify (initialHeads found)) 0
    (fun head mem => valid head (perm.mem_iff.mp mem)) ordered
    (by rw [remaining_perm perm, total]; omega)
  refine ⟨offset, result, ?_⟩
  intro some_needed positive small formed ends
  exact spec some_needed positive small formed ends (by decide)
    (passed.perm perm.symm) (Or.inl rfl) (bounded_zero _ _ _)

/-- An empty request is answered at the bottom of the address space. -/
theorem lowestFit_zero
    {found : List Occupancy} {alignment offset : Nat}
    (small : alignment ≤ modulus)
    (result : lowestFit found 0 alignment = some offset) : offset = 0 := by
  have loop : ∀ fuel heap,
      lowestFitLoop found 0 alignment fuel heap 0 = some offset → offset = 0 := by
    intro fuel
    induction fuel with
    | zero => simp [lowestFitLoop]
    | succ fuel ih =>
        intro heap result
        rw [lowestFitLoop, alignUp64_zero small] at result
        by_cases empty : heap.length = 0
        · rw [if_pos empty] at result
          exact (Option.some.inj result).symm
        simp only [empty, if_false] at result
        by_cases beyond : 0 < (rootRange found heap).finish
        · rw [if_pos ⟨beyond, by simp [wrap]⟩] at result
          exact (Option.some.inj result).symm
        · rw [if_neg (fun fit => beyond fit.1), if_neg beyond] at result
          exact ih _ result
  exact loop _ _ result

end ShadowSpill.Planner.PlacementFit
