import ShadowSpill.Library.Runs
import ShadowSpill.Library.SegmentTree
import ShadowSpill.Planner.PlacementLayout

/-!
# The readable placement

The reference places leases over a temporal index that lists lease numbers at
the nodes covering their lifetimes, and scans the sorted ranges of everything
a query finds.  `placeAll_layout` says which layout that is: each lease clears
the earlier leases recorded where its query looks.  Sizes and offsets are
unbounded here, as the reference's are.
-/

namespace ShadowSpill.Reference.Placement

open Library.AddressRanges Library.Coordinates Library.Runs Library.SegmentTree
open Planner.PlacementLayout Planner.PlacementOrder

/-- `_TemporalIndex`: the items recorded at each node. -/
structure TemporalIndex where
  length : Nat
  nodes : Nat → List Nat

/-- `_TemporalIndex.__init__`. -/
def TemporalIndex.init (length : Nat) : TemporalIndex :=
  ⟨length, fun _ => []⟩

/-- `_TemporalIndex._add`. -/
def addNode (start finish item : Nat) :
    Nat → TemporalIndex → Nat → Nat → Nat → Option TemporalIndex
  | 0, _, _, _, _ => none
  | fuel + 1, index, node, left, right =>
      if start ≤ left ∧ right ≤ finish then
        some { index with
          nodes := Function.update index.nodes node (index.nodes node ++ [item]) }
      else
        let middle := (left + right) / 2
        let lower :=
          if start < middle then
            addNode start finish item fuel index (node * 2) left middle
          else some index
        lower.bind fun index =>
          if middle < finish then
            addNode start finish item fuel index (node * 2 + 1) middle right
          else some index

/-- `_TemporalIndex.add`. -/
def TemporalIndex.add (index : TemporalIndex) (start finish item : Nat) :
    Option TemporalIndex :=
  addNode start finish item index.length index 1 0 index.length

/-- `_TemporalIndex._query`. -/
def queryNode (index : TemporalIndex) (start finish : Nat) :
    Nat → Nat → Nat → Nat → List Nat → Option (List Nat)
  | 0, _, _, _, _ => none
  | fuel + 1, node, left, right, found =>
      if finish ≤ left ∨ right ≤ start then some found
      else
        let found := found.union (index.nodes node)
        if right - left = 1 then some found
        else
          let middle := (left + right) / 2
          let lower :=
            if start < middle then
              queryNode index start finish fuel (node * 2) left middle found
            else some found
          lower.bind fun found =>
            if middle < finish then
              queryNode index start finish fuel (node * 2 + 1) middle right found
            else some found

/-- `_TemporalIndex.overlapping`. -/
def TemporalIndex.overlapping (index : TemporalIndex) (start finish : Nat) :
    Option (List Nat) :=
  queryNode index start finish index.length 1 0 index.length []

/-- Address ranges compare as pairs. -/
def rangeLe (first second : AddressRange) : Prop :=
  first.start < second.start ∨
    (first.start = second.start ∧ first.finish ≤ second.finish)

instance : DecidableRel rangeLe :=
  fun _ _ => inferInstanceAs (Decidable (_ ∨ _))

/-- The scan over the sorted ranges: where the cursor settles. -/
def scan (bytes alignment : Nat) : List AddressRange → Nat → Nat
  | [], cursor => cursor
  | range :: rest, cursor =>
      if range.finish ≤ cursor then scan bytes alignment rest cursor
      else if alignUp cursor alignment + bytes ≤ range.start then cursor
      else scan bytes alignment rest (max cursor range.finish)

/-- `times`: the sorted distinct endpoints. -/
def sortedTimes (items : List LeaseLifetime) : List Nat :=
  (items.map LeaseLifetime.startNs ++ items.map LeaseLifetime.endNs).dedup
    |>.insertionSort (· ≤ ·)

/-- `rank`: each endpoint's position. -/
def rank (items : List LeaseLifetime) (time : Nat) : Nat :=
  (sortedTimes items).idxOf time

/-- The sort key of a lease: its size and its rank span, both negated, its
start and its index. -/
def sortKey (items : List LeaseLifetime) (item : Nat) : Int × Int × Nat × Nat :=
  let lease := items.getD item default
  (-lease.bytes, -((rank items lease.endNs : Int) - rank items lease.startNs),
    lease.startNs, item)

/-- Sort keys compare as tuples. -/
def keyLe (first second : Int × Int × Nat × Nat) : Prop :=
  first.1 < second.1 ∨ (first.1 = second.1 ∧
    (first.2.1 < second.2.1 ∨ (first.2.1 = second.2.1 ∧
      (first.2.2.1 < second.2.2.1 ∨ (first.2.2.1 = second.2.2.1 ∧
        first.2.2.2 ≤ second.2.2.2)))))

instance : DecidableRel keyLe :=
  fun _ _ => inferInstanceAs (Decidable (_ ∨ _))

/-- `order`. -/
def order (items : List LeaseLifetime) : List Nat :=
  (List.range items.length).insertionSort fun first second =>
    keyLe (sortKey items first) (sortKey items second)

/-- What the placing loop carries. -/
structure Progress where
  offsets : List Nat
  required : Nat
  index : TemporalIndex

/-- One turn of the placing loop. -/
def placeOne (items : List LeaseLifetime) (progress : Progress) (item : Nat) :
    Option Progress :=
  let lease := items.getD item default
  let start := rank items lease.startNs
  let finish := rank items lease.endNs
  (progress.index.overlapping start finish).bind fun found =>
    let occupied := (found.map fun other =>
      (⟨progress.offsets.getD other 0,
        progress.offsets.getD other 0 + (items.getD other default).bytes⟩ :
          AddressRange)).insertionSort rangeLe
    let offset := alignUp (scan lease.bytes lease.alignment occupied 0)
      lease.alignment
    (progress.index.add start finish item).map fun index =>
      { offsets := progress.offsets.set item offset
        required := max progress.required (offset + lease.bytes)
        index := index }

/-- `place_lifetimes` with nothing excluded. -/
def placeAll (items : List LeaseLifetime) : Option (List Nat × Nat) :=
  if items.length = 0 then some ([], 0)
  else
    ((order items).foldlM (placeOne items)
        ⟨List.replicate items.length 0, 0,
          TemporalIndex.init (max 1 (sortedTimes items).length)⟩).map
      fun progress => (progress.offsets, progress.required)

/-- `place_lifetimes`. -/
def placeLifetimes (items : List LeaseLifetime)
    (excluded : Option (List Bool)) : Option (List Nat × Nat) :=
  if items.length = 0 then some ([], 0)
  else
    match excluded with
    | none => placeAll items
    | some mask =>
        if mask.any id then
          let kept := (List.range mask.length).filter fun source =>
            !mask.getD source false
          (placeAll (kept.map fun source => items.getD source default)).map
            fun placed =>
              ((kept.zip placed.1).foldl
                (fun offsets entry => offsets.set entry.1 entry.2)
                (List.replicate items.length 0), placed.2)
        else placeAll items

/-! ## What the index finds -/

section Index

variable {start finish : Nat}

theorem half_eq_middle {left right : Nat} (ordered : left ≤ right) :
    (left + right) / 2 = middle left right := by
  unfold middle
  omega

/-- An insertion always ends and records its item at its cover nodes. -/
theorem addNode_spec
    (item fuel : Nat) (index : TemporalIndex) (node : Nat) {left right : Nat}
    (enters : Enters start finish left right)
    (enough : right - left ≤ fuel) :
    ∃ after, addNode start finish item fuel index node left right = some after ∧
      after.length = index.length ∧
      ∀ place member, member ∈ after.nodes place ↔
        member ∈ index.nodes place ∨
          (member = item ∧ place ∈ coverNodes start finish fuel node left right) := by
  induction fuel generalizing index node left right with
  | zero =>
      unfold Enters at enters
      omega
  | succ fuel ih =>
      rw [addNode, coverNodes]
      by_cases covered : start ≤ left ∧ right ≤ finish
      · rw [if_pos covered, if_pos covered]
        refine ⟨_, rfl, rfl, fun place member => ?_⟩
        by_cases same : place = node
        · subst same
          simp
        · simp [same]
      have parts := enters.halves covered
      have half := @half_eq_middle left right
        (by unfold Enters at enters; omega)
      simp only [covered, if_false, half]
      obtain ⟨lower, lowerEq, lowerLength, lowerMem⟩ :
          ∃ lower, (if start < middle left right then
              addNode start finish item fuel index (node * 2) left
                (middle left right)
            else some index) = some lower ∧ lower.length = index.length ∧
            ∀ place member, member ∈ lower.nodes place ↔
              member ∈ index.nodes place ∨
                (member = item ∧ start < middle left right ∧
                  place ∈ coverNodes start finish fuel (node * 2) left
                    (middle left right)) := by
        by_cases taken : start < middle left right
        · simpa [taken] using ih index (node * 2) (parts.1 taken).1
            (by have := (parts.1 taken).2; omega)
        · simp [taken]
      obtain ⟨upper, upperEq, upperLength, upperMem⟩ :
          ∃ upper, (if middle left right < finish then
              addNode start finish item fuel lower (node * 2 + 1)
                (middle left right) right
            else some lower) = some upper ∧ upper.length = lower.length ∧
            ∀ place member, member ∈ upper.nodes place ↔
              member ∈ lower.nodes place ∨
                (member = item ∧ middle left right < finish ∧
                  place ∈ coverNodes start finish fuel (node * 2 + 1)
                    (middle left right) right) := by
        by_cases taken : middle left right < finish
        · simpa [taken] using ih lower (node * 2 + 1) (parts.2 taken).1
            (by have := (parts.2 taken).2; omega)
        · simp [taken]
      refine ⟨upper, ?_, upperLength.trans lowerLength, fun place member => ?_⟩
      · rw [lowerEq, Option.bind_some, upperEq]
      · rw [upperMem, lowerMem, mem_halves, or_assoc, ← and_or_left]

/-- A query always ends and finds the items recorded at the nodes it visits. -/
theorem queryNode_spec
    (index : TemporalIndex) (start finish fuel node : Nat) {left right : Nat}
    (found : List Nat)
    (interval : left < right) (enough : right - left ≤ fuel) :
    ∃ after, queryNode index start finish fuel node left right found =
        some after ∧
      ∀ member, member ∈ after ↔ member ∈ found ∨
        ∃ place ∈ queryNodes start finish fuel node left right,
          member ∈ index.nodes place := by
  induction fuel generalizing node left right found with
  | zero => omega
  | succ fuel ih =>
      rw [queryNode, queryNodes]
      by_cases outside : finish ≤ left ∨ right ≤ start
      · simp [outside]
      have here : ∀ member, member ∈ found.union (index.nodes node) ↔
          member ∈ found ∨ member ∈ index.nodes node := fun _ =>
        List.mem_union_iff
      by_cases leaf : right - left = 1
      · refine ⟨_, by simp only [outside, leaf]; rfl, fun member => ?_⟩
        simp [outside, leaf, here]
      have bounds := @middle_bounds left right (by omega)
      simp only [outside, leaf, if_false, half_eq_middle interval.le]
      set visited := found.union (index.nodes node)
      obtain ⟨lower, lowerEq, lowerMem⟩ :
          ∃ lower, (if start < middle left right then
              queryNode index start finish fuel (node * 2) left
                (middle left right) visited
            else some visited) = some lower ∧
            ∀ member, member ∈ lower ↔ member ∈ visited ∨
              ∃ place, (start < middle left right ∧
                  place ∈ queryNodes start finish fuel (node * 2) left
                    (middle left right)) ∧ member ∈ index.nodes place := by
        by_cases taken : start < middle left right
        · simpa [taken] using ih (node * 2) visited bounds.1 (by omega)
        · simp [taken]
      obtain ⟨upper, upperEq, upperMem⟩ :
          ∃ upper, (if middle left right < finish then
              queryNode index start finish fuel (node * 2 + 1)
                (middle left right) right lower
            else some lower) = some upper ∧
            ∀ member, member ∈ upper ↔ member ∈ lower ∨
              ∃ place, (middle left right < finish ∧
                  place ∈ queryNodes start finish fuel (node * 2 + 1)
                    (middle left right) right) ∧ member ∈ index.nodes place := by
        by_cases taken : middle left right < finish
        · simpa [taken] using ih (node * 2 + 1) lower bounds.2 (by omega)
        · simp [taken]
      refine ⟨upper, ?_, fun member => ?_⟩
      · rw [lowerEq, Option.bind_some, upperEq]
      · rw [upperMem, lowerMem, here]
        simp only [List.mem_cons, mem_halves, or_and_right, exists_or,
          exists_eq_left, or_assoc]

end Index

/-! ## The scan -/

section Scan

variable {occupied : Nat → Prop} {bytes alignment : Nat}

/-- The scan settles at the lowest fit: no fit lies below its cursor, and what
it has not read yet is all that can be taken above it. -/
theorem scan_fit
    (positive : 0 < alignment) (some_bytes : 0 < bytes)
    {ranges : List AddressRange} {cursor : Nat}
    (sorted : ranges.Pairwise fun first second => first.start ≤ second.start)
    (nonempty : ∀ range ∈ ranges, range.start < range.finish)
    (held : ∀ range ∈ ranges, ∀ address, range.Contains address →
      occupied address)
    (rest : ∀ address, occupied address → address < cursor ∨
      Covers ranges address)
    (bounded : Bounded occupied bytes alignment cursor) :
    IsLowestFit occupied bytes alignment
      (alignUp (scan bytes alignment ranges cursor) alignment) := by
  induction ranges generalizing cursor with
  | nil =>
      refine bounded.fit_of_gap positive fun address taken => ?_
      exact Or.inl ((rest address taken).resolve_right (not_covers_nil address))
  | cons range ranges ih =>
      obtain ⟨first, sorted⟩ := List.pairwise_cons.mp sorted
      have later := fun next (rises : cursor ≤ next) (reaches : range.finish ≤ next)
          (bound : Bounded occupied bytes alignment next) =>
        @ih next sorted
          (fun other mem => nonempty other (List.mem_cons_of_mem _ mem))
          (fun other mem => held other (List.mem_cons_of_mem _ mem))
          (fun address taken => by
            rcases rest address taken with below | covered
            · exact Or.inl (by omega)
            · rcases (covers_cons _ _ _).mp covered with here | covered
              · exact Or.inl (by have := here.2; omega)
              · exact Or.inr covered)
          bound
      rw [scan]
      by_cases passed : range.finish ≤ cursor
      · rw [if_pos passed]
        exact later cursor le_rfl passed bounded
      rw [if_neg passed]
      by_cases gap : alignUp cursor alignment + bytes ≤ range.start
      · rw [if_pos gap]
        refine bounded.fit_of_gap positive fun address taken => ?_
        refine (rest address taken).imp_right fun ⟨other, mem, contains⟩ => ?_
        have lower := contains.1
        rcases List.mem_cons.mp mem with rfl | mem
        · omega
        · have order := first other mem
          omega
      · rw [if_neg gap]
        refine later (max cursor range.finish) (le_max_left _ _)
          (le_max_right _ _) ?_
        rw [max_eq_right (by omega)]
        exact bounded.advance positive some_bytes (held range (by simp))
          (nonempty range (by simp)) (by omega)

/-- An empty request settles at the bottom. -/
theorem scan_zero (ranges : List AddressRange) :
    scan 0 alignment ranges 0 = 0 := by
  induction ranges with
  | nil => rfl
  | cons range ranges ih =>
      rw [scan, alignUp_zero]
      simp [ih]

end Scan

instance : Std.Total rangeLe where
  total := fun first second => by
    unfold rangeLe
    omega

instance : IsTrans AddressRange rangeLe where
  trans := fun first second third => by
    unfold rangeLe
    omega

/-! ## The order of placing -/

section Order

variable {items : List LeaseLifetime}

theorem mem_sortedTimes {time : Nat} :
    time ∈ sortedTimes items ↔
      ∃ lease ∈ items, time = lease.startNs ∨ time = lease.endNs := by
  simp only [sortedTimes, List.mem_insertionSort, List.mem_dedup,
    List.mem_append, List.mem_map]
  constructor
  · rintro (⟨lease, mem, rfl⟩ | ⟨lease, mem, rfl⟩)
    · exact ⟨lease, mem, Or.inl rfl⟩
    · exact ⟨lease, mem, Or.inr rfl⟩
  · rintro ⟨lease, mem, rfl | rfl⟩
    · exact Or.inl ⟨lease, mem, rfl⟩
    · exact Or.inr ⟨lease, mem, rfl⟩

/-- Both placements rank the same times. -/
theorem sortedTimes_eq (items : List LeaseLifetime) :
    sortedTimes items = axisTimes items := by
  have nodup : (sortedTimes items).Nodup :=
    (List.perm_insertionSort _ _).nodup_iff.mpr (List.nodup_dedup _)
  have strict := axisTimes_strict items
  refine List.Perm.eq_of_pairwise (fun first second _ _ => Nat.le_antisymm)
    (List.pairwise_insertionSort (· ≤ ·) _) (strict.imp Nat.le_of_lt) ?_
  refine (List.perm_ext_iff_of_nodup nodup (strict.imp Nat.ne_of_lt)).mpr ?_
  intro time
  rw [mem_sortedTimes, mem_axisTimes]

/-- Both placements rank endpoints alike. -/
theorem rank_eq {time : Nat} (mem : time ∈ axisTimes items) :
    rank items time = ordinal (axisTimes items) time := by
  have strict := axisTimes_strict items
  obtain ⟨index, bound, rfl⟩ := List.mem_iff_getElem.mp mem
  rw [rank, sortedTimes_eq, ordinal_getElem strict bound]
  exact List.Nodup.idxOf_getElem (strict.imp Nat.ne_of_lt) index bound

theorem rank_start {item : Nat} (bound : item < items.length) :
    rank items (leaseAt items item).startNs =
      (timeAxisBuild items).startRank.getD item 0 := by
  rw [rank_eq (mem_axisTimes.mpr ⟨_, mem_leaseAt bound, Or.inl rfl⟩),
    startRank_eq bound]

theorem rank_end {item : Nat} (bound : item < items.length) :
    rank items (leaseAt items item).endNs =
      (timeAxisBuild items).endRank.getD item 0 := by
  rw [rank_eq (mem_axisTimes.mpr ⟨_, mem_leaseAt bound, Or.inr rfl⟩),
    endRank_eq bound]

/-- Both placements compare leases alike. -/
theorem keyLe_iff
    (admissible : ∀ lease ∈ items, lease.Admissible)
    {first second : Nat} (firstBound : first < items.length)
    (secondBound : second < items.length) :
    keyLe (sortKey items first) (sortKey items second) ↔
      (orderKey items (timeAxisBuild items) first).Precedes
        (orderKey items (timeAxisBuild items) second) := by
  have firstOrdered := ((admissible _ (mem_leaseAt firstBound)).rank_bounds
    (mem_leaseAt firstBound)).1
  have secondOrdered := ((admissible _ (mem_leaseAt secondBound)).rank_bounds
    (mem_leaseAt secondBound)).1
  rw [← startRank_eq firstBound, ← endRank_eq firstBound] at firstOrdered
  rw [← startRank_eq secondBound, ← endRank_eq secondBound] at secondOrdered
  rw [OrderKey.precedes_iff]
  simp only [keyLe, sortKey, orderKey, rank_start firstBound, rank_end firstBound,
    rank_start secondBound, rank_end secondBound]
  omega

/-- Both placements take the leases in the same order. -/
theorem order_eq (admissible : ∀ lease ∈ items, lease.Admissible) :
    order items = placingIndices items (timeAxisBuild items) := by
  have perm := placingIndices_perm items (timeAxisBuild items)
  have orderPerm : (order items).Perm (List.range items.length) :=
    List.perm_insertionSort _ _
  have inside : ∀ item ∈ order items, item < items.length := fun item mem =>
    List.mem_range.mp (orderPerm.mem_iff.mp mem)
  have inside' : ∀ item ∈ placingIndices items (timeAxisBuild items),
      item < items.length := fun item mem =>
    List.mem_range.mp (perm.mem_iff.mp mem)
  have antisymm : ∀ first second, first ∈ order items →
      second ∈ placingIndices items (timeAxisBuild items) →
        keyLe (sortKey items first) (sortKey items second) →
          keyLe (sortKey items second) (sortKey items first) →
            first = second := by
    intro first second _ _ before after
    simp only [keyLe, sortKey] at before after
    omega
  refine List.Perm.eq_of_pairwise antisymm ?_ ?_ (orderPerm.trans perm.symm)
  · have total : Std.Total fun first second =>
        keyLe (sortKey items first) (sortKey items second) :=
      ⟨fun first second => by unfold keyLe; omega⟩
    have trans : IsTrans Nat fun first second =>
        keyLe (sortKey items first) (sortKey items second) :=
      ⟨fun first second third => by unfold keyLe; omega⟩
    exact List.pairwise_insertionSort _ _
  · refine (placingIndices_pairwise items (timeAxisBuild items)).imp_of_mem ?_
    intro first second firstMem secondMem precedes
    exact (keyLe_iff admissible (inside' first firstMem)
      (inside' second secondMem)).mpr precedes

end Order

/-! ## The whole loop -/

/-- The earlier lease is recorded at a node the later lease's query visits. -/
def Records (axis : TimeAxis) (earlier later : Nat) : Prop :=
  Recorded axis.times.length 1 0 axis.times.length (axis.startRank.getD later 0)
    (axis.endRank.getD later 0) (axis.startRank.getD earlier 0)
    (axis.endRank.getD earlier 0)

section Region

variable {items : List LeaseLifetime}

/-- What the loop keeps: the index holds the leases placed so far, at the
nodes that cover them. -/
structure Placed (items : List LeaseLifetime) (axis : TimeAxis)
    (passed : List Nat) (progress : Progress) : Prop where
  length_eq : progress.index.length = axis.times.length
  offsets_length : progress.offsets.length = items.length
  layout : IsLayout items (Records axis) passed progress.offsets
  required : progress.required = span items progress.offsets passed
  nodes : ∀ node member, member ∈ progress.index.nodes node ↔
    member ∈ passed ∧
      node ∈ coverNodes (axis.startRank.getD member 0)
        (axis.endRank.getD member 0) axis.times.length 1 0 axis.times.length

theorem placed_initial (items : List LeaseLifetime) (nonempty : items ≠ []) :
    Placed items (timeAxisBuild items) []
      ⟨List.replicate items.length 0, 0,
        TemporalIndex.init (max 1 (sortedTimes items).length)⟩ where
  length_eq := by
    obtain ⟨head, tail, rfl⟩ := List.exists_cons_of_ne_nil nonempty
    have mem : head.startNs ∈ axisTimes (head :: tail) :=
      mem_axisTimes.mpr ⟨head, by simp, Or.inl rfl⟩
    rw [sortedTimes_eq]
    exact max_eq_right (List.length_pos_of_mem mem)
  offsets_length := List.length_replicate
  layout := isLayout_nil _ _
  required := rfl
  nodes := by simp [TemporalIndex.init]

/-- Every turn succeeds and keeps what the loop keeps. -/
theorem placeOne_placed
    (admissible : ∀ lease ∈ items, lease.Admissible)
    {passed : List Nat} {progress : Progress} {item : Nat}
    (placed : Placed items (timeAxisBuild items) passed progress)
    (bound : item < items.length)
    (fresh : item ∉ passed)
    (descending : ∀ earlier ∈ passed,
      (leaseAt items item).bytes ≤ (leaseAt items earlier).bytes) :
    ∃ next, placeOne items progress item = some next ∧
      Placed items (timeAxisBuild items) (passed ++ [item]) next := by
  have lease := admissible _ (mem_leaseAt bound)
  have enters : Enters ((timeAxisBuild items).startRank.getD item 0)
      ((timeAxisBuild items).endRank.getD item 0) 0 progress.index.length := by
    have bounds := lease.rank_bounds (mem_leaseAt bound)
    rw [placed.length_eq, startRank_eq bound, endRank_eq bound]
    change Enters _ _ 0 (axisTimes items).length
    unfold Enters
    omega
  have lengthPositive : 0 < progress.index.length := by
    unfold Enters at enters
    omega
  obtain ⟨found, looked, foundMem⟩ := queryNode_spec progress.index
    ((timeAxisBuild items).startRank.getD item 0)
    ((timeAxisBuild items).endRank.getD item 0) progress.index.length 1 []
    lengthPositive (by omega)
  obtain ⟨index, added, length_eq, nodes⟩ := addNode_spec item
    progress.index.length progress.index 1 enters (by omega)
  -- The query finds the leases recorded at a node it visits.
  have foundIff : ∀ member, member ∈ found ↔
      member ∈ passed ∧ Records (timeAxisBuild items) member item := by
    intro member
    rw [foundMem, placed.length_eq]
    simp only [List.not_mem_nil, false_or, placed.nodes, Records, Recorded]
    constructor
    · rintro ⟨node, visited, mem, recorded⟩
      exact ⟨mem, node, visited, recorded⟩
    · rintro ⟨mem, node, visited, recorded⟩
      exact ⟨node, visited, mem, recorded⟩
  set ranges := (found.map fun other =>
    (⟨progress.offsets.getD other 0,
      progress.offsets.getD other 0 + (items.getD other default).bytes⟩ :
        AddressRange)).insertionSort rangeLe with ranges_def
  set offset := alignUp (scan (leaseAt items item).bytes
    (leaseAt items item).alignment ranges 0) (leaseAt items item).alignment
    with offset_def
  have rangesMem : ∀ range, range ∈ ranges ↔ ∃ other ∈ passed,
      Records (timeAxisBuild items) other item ∧
        leaseRange items progress.offsets other = range := by
    intro range
    rw [ranges_def, List.mem_insertionSort, List.mem_map]
    simp only [foundIff, and_assoc]
    rfl
  have inOffsets : item < progress.offsets.length := by
    rwa [placed.offsets_length]
  have fit : 0 < (leaseAt items item).bytes →
      IsLowestFit (Taken items (Records (timeAxisBuild items)) progress.offsets
        passed item) (leaseAt items item).bytes (leaseAt items item).alignment
        offset := by
    intro positive
    refine scan_fit lease.aligned positive ?_ ?_ ?_ ?_ (bounded_zero _ _ _)
    · exact (List.pairwise_insertionSort rangeLe _).imp fun before => by
        unfold rangeLe at before
        omega
    · intro range mem
      obtain ⟨other, inPassed, _, rfl⟩ := (rangesMem range).mp mem
      have larger := descending other inPassed
      simp only [leaseRange]
      omega
    · intro range mem address contains
      obtain ⟨other, inPassed, records, rfl⟩ := (rangesMem range).mp mem
      exact ⟨other, inPassed, records, contains⟩
    · rintro address ⟨other, inPassed, records, contains⟩
      exact Or.inr ⟨_, (rangesMem _).mpr ⟨other, inPassed, records, rfl⟩, contains⟩
  have zero : (leaseAt items item).bytes = 0 → offset = 0 := by
    intro empty
    rw [offset_def, empty, scan_zero, alignUp_zero]
  refine ⟨⟨progress.offsets.set item offset,
    max progress.required (offset + (leaseAt items item).bytes), index⟩,
    ?_, ?_, ?_, ?_, ?_, ?_⟩
  · have starts := rank_start bound
    have ends := rank_end bound
    simp only [leaseAt] at starts ends
    simp only [placeOne, starts, ends, TemporalIndex.overlapping,
      TemporalIndex.add, looked, added, Option.bind_some, Option.map_some]
    rfl
  · exact length_eq.trans placed.length_eq
  · simpa using placed.offsets_length
  · exact placed.layout.snoc fresh inOffsets fit zero
  · rw [span_snoc fresh inOffsets, placed.required]
  · intro node member
    rw [nodes, placed.nodes, placed.length_eq, List.mem_append,
      List.mem_singleton, or_and_right]
    refine or_congr_right ?_
    constructor
    · rintro ⟨rfl, mem⟩
      exact ⟨rfl, mem⟩
    · rintro ⟨rfl, mem⟩
      exact ⟨rfl, mem⟩

/-- The loop always finishes.  Every lease ends at the lowest aligned offset
that clears the earlier leases recorded where its query looks. -/
theorem placeAll_layout
    (admissible : ∀ lease ∈ items, lease.Admissible) :
    ∃ offsets required, placeAll items = some (offsets, required) ∧
      offsets.length = items.length ∧
      IsLayout items (Records (timeAxisBuild items))
        (placingIndices items (timeAxisBuild items)) offsets ∧
      required = span items offsets
        (placingIndices items (timeAxisBuild items)) := by
  by_cases empty : items = []
  · subst empty
    exact ⟨[], 0, rfl, rfl, isLayout_nil _ _, rfl⟩
  have perm := placingIndices_perm items (timeAxisBuild items)
  have nodup : (placingIndices items (timeAxisBuild items)).Nodup :=
    perm.nodup_iff.mpr List.nodup_range
  have inside : ∀ item ∈ placingIndices items (timeAxisBuild items),
      item < items.length := fun item mem =>
    List.mem_range.mp (perm.mem_iff.mp mem)
  obtain ⟨final, finished, placed⟩ := exists_foldlM_eq_some
    (placeOne items) (placingIndices items (timeAxisBuild items))
    (Placed items (timeAxisBuild items))
    (placed_initial items empty)
    (by
      intro passed item rest split progress placed
      have descending := placingIndices_bytes_le split
      rw [split, List.append_cons] at nodup inside
      have fresh := (List.nodup_append.mp (List.nodup_append.mp nodup).1).2.2
      exact placeOne_placed admissible placed (inside item (by simp))
        (fun mem => fresh item mem item (by simp) rfl) descending)
  refine ⟨final.offsets, final.required, ?_, placed.offsets_length,
    placed.layout, placed.required⟩
  rw [placeAll, if_neg (by simpa using empty), order_eq admissible, finished,
    Option.map_some]

end Region

end ShadowSpill.Reference.Placement
