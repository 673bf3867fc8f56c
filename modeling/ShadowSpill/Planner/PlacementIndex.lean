import ShadowSpill.Library.SegmentTree
import ShadowSpill.Library.Word64
import ShadowSpill.Planner.PlacementOccupancy

/-!
# The occupancy index

A segment tree over time ranks holds, per node, the union of the address
ranges recorded at the node and the union of those inserted through it.  The
recursion of the source is modelled with fuel; a tree over `length` ranks
never needs more than `length` steps.

`Represents` ties an index to the leases inserted so far, each a rank interval
with an address range.  `occupancyIndexInsert_represents` keeps it, and
`occupancyIndexCollect_covers` reads it: a query gathers the addresses of
exactly the leases it sees.
-/

namespace ShadowSpill.Planner.PlacementIndex

open Library.AddressRanges Library.SegmentTree Library.Word64 PlacementOccupancy

/-- Per node, the ranges recorded there and the ranges recorded there or
anywhere below it. -/
structure OccupancyIndex where
  nodes : Nat → Occupancy
  subtree : Nat → Occupancy
  length : Nat

/-- `occupancy_index_create`. -/
def occupancyIndexCreate (length : Nat) : OccupancyIndex where
  nodes := fun _ => []
  subtree := fun _ => []
  length := if length = 0 then 1 else length

/-- `occupancy_index_insert`. -/
def occupancyIndexInsert (start finish offset bytes : Nat) :
    Nat → OccupancyIndex → Nat → Nat → Nat → Option OccupancyIndex
  | 0, _, _, _, _ => none
  | fuel + 1, index, node, left, right =>
      let rangeFinish := wrap (offset + bytes)
      let index := { index with
        subtree := Function.update index.subtree node
          (occupancyInsert (index.subtree node) offset rangeFinish) }
      if start ≤ left ∧ right ≤ finish then
        some { index with
          nodes := Function.update index.nodes node
            (occupancyInsert (index.nodes node) offset rangeFinish) }
      else
        let middle := left + (right - left) / 2
        let lower :=
          if start < middle then
            occupancyIndexInsert start finish offset bytes fuel index
              (node * 2) left middle
          else some index
        lower.bind fun index =>
          if middle < finish then
            occupancyIndexInsert start finish offset bytes fuel index
              (node * 2 + 1) middle right
          else some index

/-- `gathered_add`: empty lists are not gathered. -/
def gatheredAdd (found : List Occupancy) (list : Occupancy) : List Occupancy :=
  if list.length = 0 then found else found ++ [list]

/-- `occupancy_index_collect`. -/
def occupancyIndexCollect (index : OccupancyIndex) (start finish : Nat) :
    Nat → Nat → Nat → Nat → List Occupancy → Option (List Occupancy)
  | 0, _, _, _, _ => none
  | fuel + 1, node, left, right, found =>
      if finish ≤ left ∨ right ≤ start then some found
      else
        let inside := start ≤ left ∧ right ≤ finish
        let found := gatheredAdd found
          (if inside then index.subtree node else index.nodes node)
        if inside ∨ right - left = 1 then some found
        else
          let middle := left + (right - left) / 2
          let lower :=
            if start < middle then
              occupancyIndexCollect index start finish fuel (node * 2) left
                middle found
            else some found
          lower.bind fun found =>
            if middle < finish then
              occupancyIndexCollect index start finish fuel (node * 2 + 1)
                middle right found
            else some found

/-! ## What an index holds -/

/-- A lease as the index sees it: its rank interval and its address range. -/
structure Item where
  first : Nat
  last : Nat
  range : AddressRange

/-- Each node's lists hold the ranges of the items recorded at it, and of the
items inserted through it. -/
structure Represents (index : OccupancyIndex) (items : List Item) : Prop where
  nodesFormed : ∀ node, WellFormed (index.nodes node)
  subtreeFormed : ∀ node, WellFormed (index.subtree node)
  nodes : ∀ node address,
    Covers (index.nodes node) address ↔
      ∃ item ∈ items,
        node ∈ coverNodes item.first item.last index.length 1 0 index.length ∧
          item.range.Contains address
  subtree : ∀ node address,
    Covers (index.subtree node) address ↔
      ∃ item ∈ items,
        node ∈ insertPath item.first item.last index.length 1 0 index.length ∧
          item.range.Contains address

theorem represents_create (length : Nat) :
    Represents (occupancyIndexCreate length) [] where
  nodesFormed := fun _ => wellFormed_nil
  subtreeFormed := fun _ => wellFormed_nil
  nodes := by simp [occupancyIndexCreate]
  subtree := by simp [occupancyIndexCreate]

/-- Only which items an index holds matters, not their order. -/
theorem Represents.congr
    {index : OccupancyIndex} {first second : List Item}
    (represents : Represents index first)
    (same : ∀ item, item ∈ first ↔ item ∈ second) :
    Represents index second := by
  refine ⟨represents.nodesFormed, represents.subtreeFormed, ?_, ?_⟩
  · simpa only [same] using represents.nodes
  · simpa only [same] using represents.subtree

section Insert

variable {start finish offset bytes : Nat}

/-- The effect of an insertion below a node: only lists on its walk change,
and they gain the new range. -/
structure Gains
    (before after : OccupancyIndex) (recorded walked : List Nat)
    (range : AddressRange) : Prop where
  length_eq : after.length = before.length
  nodesFormed :
    (∀ node, WellFormed (before.nodes node)) →
      ∀ node, WellFormed (after.nodes node)
  subtreeFormed :
    (∀ node, WellFormed (before.subtree node)) →
      ∀ node, WellFormed (after.subtree node)
  nodes :
    (∀ node, WellFormed (before.nodes node)) → ∀ node address,
      Covers (after.nodes node) address ↔
        Covers (before.nodes node) address ∨
          (node ∈ recorded ∧ range.Contains address)
  subtree :
    (∀ node, WellFormed (before.subtree node)) → ∀ node address,
      Covers (after.subtree node) address ↔
        Covers (before.subtree node) address ∨
          (node ∈ walked ∧ range.Contains address)

theorem Gains.refl (index : OccupancyIndex) (range : AddressRange) :
    Gains index index [] [] range :=
  ⟨rfl, id, id, by simp, by simp⟩

theorem Gains.trans
    {before middle after : OccupancyIndex} {range : AddressRange}
    {recorded walked recorded' walked' : List Nat}
    (first : Gains before middle recorded walked range)
    (second : Gains middle after recorded' walked' range) :
    Gains before after (recorded ++ recorded') (walked ++ walked') range where
  length_eq := second.length_eq.trans first.length_eq
  nodesFormed := second.nodesFormed ∘ first.nodesFormed
  subtreeFormed := second.subtreeFormed ∘ first.subtreeFormed
  nodes := by
    intro formed node address
    rw [second.nodes (first.nodesFormed formed), first.nodes formed,
      List.mem_append]
    tauto
  subtree := by
    intro formed node address
    rw [second.subtree (first.subtreeFormed formed), first.subtree formed,
      List.mem_append]
    tauto

theorem formed_update
    {lists : Nat → Occupancy} {node : Nat} {range : AddressRange}
    (ordered : range.start < range.finish)
    (formed : ∀ member, WellFormed (lists member)) :
    ∀ member, WellFormed (Function.update lists node
      (occupancyInsert (lists node) range.start range.finish) member) := by
  intro member
  by_cases same : member = node
  · subst same
    simpa using (formed member).insert ordered
  · simpa [same] using formed member

theorem covers_update
    {lists : Nat → Occupancy} {node : Nat} {range : AddressRange}
    (formed : ∀ member, WellFormed (lists member)) (member address : Nat) :
    Covers (Function.update lists node
        (occupancyInsert (lists node) range.start range.finish) member) address ↔
      Covers (lists member) address ∨
        (member ∈ [node] ∧ range.Contains address) := by
  by_cases same : member = node
  · subst same
    simp [occupancyInsert_covers (formed member), AddressRange.Contains]
  · simp [same]

/-- Adding the range to a node's subtree list. -/
theorem gains_subtree
    (index : OccupancyIndex) (node : Nat) (range : AddressRange)
    (ordered : range.start < range.finish) :
    Gains index
      { index with
        subtree := Function.update index.subtree node
          (occupancyInsert (index.subtree node) range.start range.finish) }
      [] [node] range where
  length_eq := rfl
  nodesFormed := id
  subtreeFormed := formed_update ordered
  nodes := by simp
  subtree := fun formed => covers_update formed

/-- Adding the range to a node's own list. -/
theorem gains_nodes
    (index : OccupancyIndex) (node : Nat) (range : AddressRange)
    (ordered : range.start < range.finish) :
    Gains index
      { index with
        nodes := Function.update index.nodes node
          (occupancyInsert (index.nodes node) range.start range.finish) }
      [node] [] range where
  length_eq := rfl
  nodesFormed := formed_update ordered
  subtreeFormed := id
  nodes := fun formed => covers_update formed
  subtree := by simp

/-- The walk into one half of a node, taken or not. -/
theorem exists_half
    (taken : Prop) [Decidable taken] (index : OccupancyIndex)
    {walk : Option OccupancyIndex} {recorded walked : List Nat}
    (spec : taken → ∃ after, walk = some after ∧
      (offset < wrap (offset + bytes) →
        Gains index after recorded walked ⟨offset, wrap (offset + bytes)⟩) ∧
      after.length = index.length) :
    ∃ after, (if taken then walk else some index) = some after ∧
      (offset < wrap (offset + bytes) →
        Gains index after (if taken then recorded else [])
          (if taken then walked else []) ⟨offset, wrap (offset + bytes)⟩) ∧
      after.length = index.length := by
  by_cases holds : taken
  · simpa [holds] using spec holds
  · simpa [holds] using fun _ => Gains.refl index _

/-- The walk always ends, and what it changes is its path and its covers. -/
theorem occupancyIndexInsert_spec
    (offset bytes fuel : Nat) (index : OccupancyIndex) (node : Nat)
    {left right : Nat}
    (enters : Enters start finish left right)
    (enough : right - left ≤ fuel) :
    ∃ after,
      occupancyIndexInsert start finish offset bytes fuel index node left right =
          some after ∧
        (offset < wrap (offset + bytes) →
          Gains index after (coverNodes start finish fuel node left right)
            (insertPath start finish fuel node left right)
            ⟨offset, wrap (offset + bytes)⟩) ∧
        after.length = index.length := by
  induction fuel generalizing index node left right with
  | zero =>
      unfold Enters at enters
      omega
  | succ fuel ih =>
      rw [occupancyIndexInsert, coverNodes, insertPath]
      by_cases covered : start ≤ left ∧ right ≤ finish
      · simp only [covered, and_self, if_true]
        refine ⟨_, rfl, fun ordered => ?_, rfl⟩
        exact (gains_subtree index node ⟨offset, _⟩ ordered).trans
          (gains_nodes _ node ⟨offset, _⟩ ordered)
      · have parts := enters.halves covered
        rw [if_neg covered]
        simp only [covered, if_false]
        set widened : OccupancyIndex := { index with
          subtree := Function.update index.subtree node
            (occupancyInsert (index.subtree node) offset
              (wrap (offset + bytes))) } with widened_def
        have widenedGains : offset < wrap (offset + bytes) →
            Gains index widened [] [node] ⟨offset, wrap (offset + bytes)⟩ :=
          fun ordered => gains_subtree index node ⟨offset, _⟩ ordered
        obtain ⟨lower, lowerEq, lowerGains, lowerLength⟩ :=
          exists_half (start < middle left right) widened
            fun taken => ih widened (node * 2) (parts.1 taken).1
              (by have := (parts.1 taken).2; omega)
        obtain ⟨upper, upperEq, upperGains, upperLength⟩ :=
          exists_half (middle left right < finish) lower
            fun taken => ih lower (node * 2 + 1) (parts.2 taken).1
              (by have := (parts.2 taken).2; omega)
        refine ⟨upper, ?_, fun ordered => ?_,
          upperLength.trans lowerLength⟩
        · unfold middle at lowerEq upperEq
          rw [lowerEq, Option.bind_some, upperEq]
        · exact (widenedGains ordered).trans
            ((lowerGains ordered).trans (upperGains ordered))

end Insert

/-- Inserting an item keeps the index in step with the list of items. -/
theorem Represents.insert
    {index : OccupancyIndex} {items : List Item}
    (represents : Represents index items)
    (start finish offset bytes : Nat)
    (enters : Enters start finish 0 index.length)
    (ordered : offset < wrap (offset + bytes)) :
    ∃ after,
      occupancyIndexInsert start finish offset bytes index.length index 1 0
          index.length = some after ∧
        after.length = index.length ∧
        Represents after
          (⟨start, finish, ⟨offset, wrap (offset + bytes)⟩⟩ :: items) := by
  obtain ⟨after, result, gains, length_eq⟩ :=
    occupancyIndexInsert_spec offset bytes index.length index 1 enters (by omega)
  have gains := gains ordered
  refine ⟨after, result, length_eq, ?_, ?_, ?_, ?_⟩
  · exact gains.nodesFormed represents.nodesFormed
  · exact gains.subtreeFormed represents.subtreeFormed
  · intro node address
    rw [gains.nodes represents.nodesFormed, represents.nodes, length_eq]
    simp only [List.mem_cons, exists_eq_or_imp]
    exact or_comm
  · intro node address
    rw [gains.subtree represents.subtreeFormed, represents.subtree, length_eq]
    simp only [List.mem_cons, exists_eq_or_imp]
    exact or_comm

/-! ## What a query gathers -/

section Collect

variable {index : OccupancyIndex} {start finish : Nat}

@[simp]
theorem mem_gatheredAdd {found : List Occupancy} {list member : Occupancy} :
    member ∈ gatheredAdd found list ↔
      member ∈ found ∨ (member ≠ [] ∧ member = list) := by
  unfold gatheredAdd
  by_cases empty : list = []
  · simp [empty]
  · simp only [List.length_eq_zero_iff, empty, if_false, List.mem_append,
      List.mem_singleton]
    constructor
    · rintro (mem | rfl)
      · exact Or.inl mem
      · exact Or.inr ⟨empty, rfl⟩
    · exact Or.imp_right And.right

/-- The lists a query hands over below a node. -/
def Handed (index : OccupancyIndex) (crossed inside : List Nat)
    (list : Occupancy) : Prop :=
  list ≠ [] ∧
    ((∃ node ∈ crossed, list = index.nodes node) ∨
      ∃ node ∈ inside, list = index.subtree node)

theorem handed_append
    {crossed inside crossed' inside' : List Nat} {list : Occupancy} :
    Handed index (crossed ++ crossed') (inside ++ inside') list ↔
      Handed index crossed inside list ∨ Handed index crossed' inside' list := by
  simp only [Handed, List.mem_append, or_and_right, exists_or]
  rw [← and_or_left, or_or_or_comm]

@[simp]
theorem not_handed_nil {list : Occupancy} : ¬ Handed index [] [] list := by
  simp [Handed]

theorem exists_gathered_half
    (taken : Prop) [Decidable taken] (found : List Occupancy)
    {walk : Option (List Occupancy)} {crossed inside : List Nat}
    (spec : taken → ∃ after, walk = some after ∧
      ∀ list, list ∈ after ↔ list ∈ found ∨ Handed index crossed inside list) :
    ∃ after, (if taken then walk else some found) = some after ∧
      ∀ list, list ∈ after ↔ list ∈ found ∨
        Handed index (if taken then crossed else [])
          (if taken then inside else []) list := by
  by_cases holds : taken
  · simpa [holds] using spec holds
  · simp [holds]

/-- The query always ends and gathers the nonempty lists of the nodes it
crosses and the nonempty subtree lists of the nodes inside it. -/
theorem occupancyIndexCollect_spec
    (index : OccupancyIndex) (start finish fuel node : Nat) {left right : Nat}
    (found : List Occupancy)
    (interval : left < right) (enough : right - left ≤ fuel) :
    ∃ after,
      occupancyIndexCollect index start finish fuel node left right found =
          some after ∧
        ∀ list, list ∈ after ↔ list ∈ found ∨
          Handed index (queryCross start finish fuel node left right)
            (queryInside start finish fuel node left right) list := by
  induction fuel generalizing node left right found with
  | zero => omega
  | succ fuel ih =>
      rw [occupancyIndexCollect, queryCross, queryInside]
      by_cases outside : finish ≤ left ∨ right ≤ start
      · simp [outside]
      by_cases inside : start ≤ left ∧ right ≤ finish
      · refine ⟨_, by simp only [outside, inside]; rfl, fun list => ?_⟩
        simp [outside, inside, Handed]
      by_cases leaf : right - left = 1
      · refine ⟨_, by simp only [outside, inside, leaf]; rfl, fun list => ?_⟩
        simp [outside, inside, leaf, Handed]
      · have bounds := @middle_bounds left right (by omega)
        simp only [outside, inside, leaf, if_false, or_self]
        set crossed := gatheredAdd found (index.nodes node)
        obtain ⟨lower, lowerEq, lowerMem⟩ :=
          exists_gathered_half (start < middle left right) crossed
            fun _ => ih (node * 2) crossed bounds.1 (by omega)
        obtain ⟨upper, upperEq, upperMem⟩ :=
          exists_gathered_half (middle left right < finish) lower
            fun _ => ih (node * 2 + 1) lower bounds.2 (by omega)
        refine ⟨upper, ?_, fun list => ?_⟩
        · unfold middle at lowerEq upperEq
          rw [lowerEq, Option.bind_some, upperEq]
        · have self : Handed index [node] [] list ↔
              list ≠ [] ∧ list = index.nodes node := by
            simp [Handed]
          rw [upperMem, lowerMem, mem_gatheredAdd, ← self, or_assoc, or_assoc,
            ← handed_append, ← handed_append]
          rfl

end Collect

/-- A query ends and gathers no empty list, whatever the index holds. -/
theorem occupancyIndexCollect_nonempty
    (index : OccupancyIndex) (start finish : Nat) (positive : 0 < index.length) :
    ∃ found,
      occupancyIndexCollect index start finish index.length 1 0 index.length [] =
          some found ∧
        ∀ list ∈ found, list ≠ [] := by
  obtain ⟨found, result, gathered⟩ :=
    occupancyIndexCollect_spec index start finish index.length 1 [] positive
      (by omega)
  refine ⟨found, result, fun list mem => ?_⟩
  exact (((gathered list).mp mem).resolve_left List.not_mem_nil).1

/-- A query sees an item: it reads a list that answers for it. -/
def Item.Seen (item : Item) (length start finish : Nat) : Prop :=
  Library.SegmentTree.Seen length 1 0 length start finish item.first item.last

/-- The gathered lists are well formed and nonempty, and together they cover
the addresses of exactly the items the query sees. -/
theorem Represents.collect
    {index : OccupancyIndex} {items : List Item}
    (represents : Represents index items)
    (start finish : Nat) (positive : 0 < index.length) :
    ∃ found,
      occupancyIndexCollect index start finish index.length 1 0 index.length [] =
          some found ∧
        (∀ list ∈ found, WellFormed list ∧ list ≠ []) ∧
        ∀ address,
          (∃ list ∈ found, Covers list address) ↔
            ∃ item ∈ items, item.Seen index.length start finish ∧
              item.range.Contains address := by
  obtain ⟨found, result, gathered⟩ :=
    occupancyIndexCollect_spec index start finish index.length 1 [] positive
      (by omega)
  simp only [List.not_mem_nil, false_or] at gathered
  refine ⟨found, result, ?_, fun address => ?_⟩
  · intro list mem
    obtain ⟨nonempty, ⟨node, _, rfl⟩ | ⟨node, _, rfl⟩⟩ := (gathered list).mp mem
    · exact ⟨represents.nodesFormed node, nonempty⟩
    · exact ⟨represents.subtreeFormed node, nonempty⟩
  · constructor
    · rintro ⟨list, mem, covers⟩
      obtain ⟨_, ⟨node, visited, rfl⟩ | ⟨node, visited, rfl⟩⟩ :=
        (gathered list).mp mem
      · obtain ⟨item, inItems, recorded, contains⟩ :=
          (represents.nodes node address).mp covers
        exact ⟨item, inItems, Or.inl ⟨node, visited, recorded⟩, contains⟩
      · obtain ⟨item, inItems, walked, contains⟩ :=
          (represents.subtree node address).mp covers
        exact ⟨item, inItems, Or.inr ⟨node, visited, walked⟩, contains⟩
    · have nonempty : ∀ list : Occupancy, Covers list address → list ≠ [] := by
        rintro list ⟨range, mem, _⟩ rfl
        simp at mem
      rintro ⟨item, inItems, ⟨node, visited, recorded⟩ | ⟨node, visited, walked⟩,
        contains⟩
      · have covers := (represents.nodes node address).mpr
          ⟨item, inItems, recorded, contains⟩
        exact ⟨_, (gathered _).mpr ⟨nonempty _ covers,
          Or.inl ⟨node, visited, rfl⟩⟩, covers⟩
      · have covers := (represents.subtree node address).mpr
          ⟨item, inItems, walked, contains⟩
        exact ⟨_, (gathered _).mpr ⟨nonempty _ covers,
          Or.inr ⟨node, visited, rfl⟩⟩, covers⟩

end ShadowSpill.Planner.PlacementIndex
